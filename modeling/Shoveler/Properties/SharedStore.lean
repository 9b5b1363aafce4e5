import Shoveler.Properties.StoreRefinement

/-!
# Transactions on one store

Any number of transactions may be begun on one store and take turns. Each
reserves the ids of its inserts from the next id it found, so two of them
reserve the same ids, and after one has committed the other shows a
committed row and a row of its own under one id. That this has not happened
(`Transaction.Unclaimed`) is all it takes for the ids of a scan to be
distinct, and for an update or a delete by such an id to change the row the
scan showed under it.
-/

namespace Shoveler

open Outcome

/-! ## Taking turns -/

/-- A store, and the transactions begun on it. -/
structure SharedStore where
  store : RowStore
  transactions : List Transaction := []

/-- **A turn**: a transaction is begun, or the one in a place is called,
commits or rolls back. A scan changes nothing. -/
inductive Turn where
  | begin
  | call (k : ℕ) (c : RowCall)
  | commit (k : ℕ)
  | rollback (k : ℕ)

namespace SharedStore

/-- What a turn leaves; one that fails leaves what was there. -/
def step (shared : SharedStore) : Turn → SharedStore
  | .begin => { shared with transactions := shared.transactions ++ [.begin 0 shared.store] }
  | .call k c =>
    { shared with transactions := shared.transactions.modify k fun tx => (tx.call shared.store c).1 }
  | .commit k =>
    match shared.transactions[k]? with
    | none => shared
    | some tx =>
      match tx.commit (.ok shared.store) with
      | .error _ => shared
      | .ok (next, tx) => ⟨next, shared.transactions.set k tx⟩
  | .rollback k =>
    { shared with transactions := shared.transactions.modify k fun tx => tx.rollback.toOption.getD tx }

/-- **Store and transactions in good order.** -/
structure Sound (shared : SharedStore) : Prop where
  valid : shared.store.Valid
  staged : ∀ tx ∈ shared.transactions, tx.Staged shared.store.table

variable {shared : SharedStore}

/-- One transaction is replaced by another in good order. -/
theorem Sound.modify (h : shared.Sound) (k : ℕ) {f : Transaction → Transaction}
    (hf : ∀ tx, tx.Staged shared.store.table → (f tx).Staged shared.store.table) :
    Sound { shared with transactions := shared.transactions.modify k f } := by
  refine ⟨h.valid, fun tx htx => ?_⟩
  obtain ⟨j, hj⟩ := List.mem_iff_getElem?.1 htx
  rw [List.getElem?_modify, Option.map_eq_map, Option.map_eq_some_iff] at hj
  obtain ⟨old, hold, rfl⟩ := hj
  have hstaged := h.staged old (List.mem_of_getElem? hold)
  split
  · exact hf old hstaged
  · exact hstaged

theorem staged_call {s : RowStore} {tx : Transaction} (h : tx.Staged s.table) (c : RowCall) :
    (tx.call s c).1.Staged s.table := by
  cases c with
  | insert values =>
    rw [Transaction.call]
    cases htx : tx.insert (.ok s) values with
    | error e => exact h
    | ok result => exact h.insert rfl rfl htx
  | update id values =>
    rw [Transaction.call]
    cases htx : tx.update (.ok s) id values with
    | error e => exact h
    | ok tx' => exact h.update rfl rfl htx
  | delete id =>
    rw [Transaction.call]
    cases htx : tx.delete (.ok s) id with
    | error e => exact h
    | ok tx' => exact h.delete htx

/-- **Every turn keeps the good order.** -/
theorem Sound.step (h : shared.Sound) (turn : Turn) : (shared.step turn).Sound := by
  cases turn with
  | begin =>
    refine ⟨h.valid, List.forall_mem_append.2 ⟨h.staged, List.forall_mem_singleton.2 ?_⟩⟩
    exact .of_nil rfl rfl rfl
  | call k c => exact h.modify k fun tx htx => staged_call htx c
  | rollback k =>
    refine h.modify k fun tx htx => ?_
    rw [Transaction.rollback]
    cases tx.ensureActive with
    | error e => exact htx
    | ok => exact .of_nil rfl rfl rfl
  | commit k =>
    rw [SharedStore.step]
    split
    · exact h
    · rename_i old hold
      split
      · exact h
      · rename_i next tx hcommit
        obtain ⟨-, s, hs, hpublish, rfl⟩ := Database.commit_eq_ok.1 hcommit
        obtain rfl := Except.ok.inj hs
        have hnext := Transaction.publishes hpublish
        refine ⟨hnext.valid h.valid, fun tx htx => ?_⟩
        rcases List.mem_or_eq_of_mem_set htx with htx | rfl
        · exact hnext.table.symm ▸ h.staged tx htx
        · exact .of_nil rfl rfl rfl

theorem sound_run {s : RowStore} (hs : s.Valid) (turns : List Turn) :
    (Run.run SharedStore.step { store := s } turns).Sound :=
  Run.run_invariant (C := fun _ _ => True) (fun _ turn h _ => h.step turn)
    ⟨hs, List.forall_mem_nil _⟩ (Run.along_of_mem fun _ _ _ => trivial)

end SharedStore

/-! ## Rows by their ids -/

namespace Transaction

variable {tx tx' : Transaction} {s : RowStore} {id : RowId} {values : List Value}

/-- Rows that were deleted are not shown anyway. -/
theorem view_filter (base : List Row) {deletes : List RowId} (h : deletes ⊆ tx.deletes) :
    tx.view (base.filter fun r => decide (r.id ∉ deletes)) = tx.view base := by
  unfold view Keyed.overlay
  rw [List.filter_filter]
  congr 2
  refine List.filter_congr fun r _ => ?_
  rw [← Bool.decide_and, decide_eq_decide]
  exact ⟨And.left, fun hr => ⟨hr, fun hmem => hr (h hmem)⟩⟩

/-- **The ids of a scan are distinct** exactly if no insert stands under the
id of a committed row that it shows. -/
theorem nodup_view_iff (hs : s.Valid) (hord : tx.Ordered) :
    ((tx.view s.rows).map Row.id).Nodup ↔ tx.Unclaimed s := by
  rw [view, Keyed.map_key_overlay, List.nodup_append]
  refine ⟨fun h r hr hmem => ?_, fun h => ⟨hs.distinct.filter _, hord.inserts_nodup, ?_⟩⟩
  · by_contra hdel
    exact h.2.2 r.id (List.mem_filter.2 ⟨hmem, decide_eq_true hdel⟩) r.id
      (List.mem_map_of_mem hr) rfl
  · rintro id hid _ hins rfl
    obtain ⟨r, hr, rfl⟩ := List.mem_map.1 hins
    exact of_decide_eq_true (List.mem_filter.1 hid).2 (h r hr (List.mem_filter.1 hid).1)

theorem Unclaimed.apart (h : tx.Unclaimed s) :
    tx.Apart (s.rows.filter fun r => decide (r.id ∉ tx.deletes)) := by
  intro id hid hmem
  obtain ⟨r, hr, rfl⟩ := List.mem_map.1 hid
  obtain ⟨r', hr', he⟩ := List.mem_map.1 hmem
  have hkept := of_decide_eq_true (List.mem_filter.1 hr').2
  rw [he] at hkept
  exact hkept (h r hr (he ▸ List.mem_map_of_mem (List.mem_filter.1 hr').1))

/-- An update by such an id, in the scan that follows. -/
theorem Unclaimed.update (h : tx.Unclaimed s) (hord : tx.Ordered)
    (hupd : tx.update (.ok s) id values = .ok tx') :
    tx'.view s.rows = (tx.view s.rows).map fun r => if r.id = id then ⟨id, values⟩ else r := by
  have hdeletes : tx.deletes ⊆ tx'.deletes := by
    obtain ⟨-, _, -, -, ⟨-, rfl⟩ | ⟨-, -, -, rfl⟩⟩ :=
      (update_eq_ok hord.inserts_nodup hord.updates_nodup).1 hupd
    all_goals exact List.Subset.refl _
  rw [← view_filter s.rows hdeletes, view_update hord h.apart hupd,
    view_filter s.rows (List.Subset.refl _)]

/-- And a delete. -/
theorem Unclaimed.delete (h : tx.Unclaimed s) (hord : tx.Ordered)
    (hdel : tx.delete (.ok s) id = .ok tx') :
    tx'.view s.rows = (tx.view s.rows).filter fun r => decide (r.id ≠ id) := by
  have hdeletes : tx.deletes ⊆ tx'.deletes := by
    obtain ⟨-, ⟨-, rfl⟩ | ⟨-, _, -, -, -, rfl⟩⟩ :=
      (delete_eq_ok hord.inserts_nodup hord.updates_nodup).1 hdel
    · exact List.Subset.refl _
    · exact List.subset_append_left _ _
  rw [← view_filter s.rows hdeletes, view_delete hord h.apart hdel,
    view_filter s.rows (List.Subset.refl _)]

end Transaction

/-- **When a scan addresses rows unambiguously.** Whatever turns were taken
on a store in good order, a scan of an active transaction succeeds, and its
ids are distinct exactly if no committed row that it shows has an id the
transaction has reserved. Then an update by an id of the scan changes the
row shown under it and nothing else, unless the values do not fit and
nothing changes, and a delete takes out that row. -/
theorem scan_addresses_iff {s : RowStore} (hs : s.Valid) (turns : List Turn) {k : ℕ}
    {tx : Transaction} {store : RowStore}
    (hstore : (Run.run SharedStore.step { store := s } turns).store = store)
    (htx : (Run.run SharedStore.step { store := s } turns).transactions[k]? = some tx)
    (hactive : tx.state = .active) :
    ∃ rows, tx.scan store = .ok rows ∧ ((rows.map Row.id).Nodup ↔ tx.Unclaimed store) ∧
      (tx.Unclaimed store → ∀ id ∈ rows.map Row.id,
        (∀ values, (∃ e, validateValues store.table values = .error e ∧
            tx.update (.ok store) id values = .error e) ∨
          ∃ tx', tx.update (.ok store) id values = .ok tx' ∧
            tx'.scan store = .ok (rows.map fun r => if r.id = id then ⟨id, values⟩ else r)) ∧
        ∃ tx', tx.delete (.ok store) id = .ok tx' ∧
          tx'.scan store = .ok (rows.filter fun r => decide (r.id ≠ id))) := by
  have hsound := SharedStore.sound_run hs turns
  subst hstore
  have hstaged := hsound.staged tx (List.mem_of_getElem? htx)
  have hscan : ∀ {tx' : Transaction}, tx'.state = .active → tx'.Staged _ → tx'.scan _ = _ :=
    fun ha ht => Transaction.scanWithBase_eq_ok rfl ha ht hsound.valid rfl
  refine ⟨_, hscan hactive hstaged, Transaction.nodup_view_iff hsound.valid hstaged.toOrdered,
    fun hun id hid => ⟨fun values => ?_, ?_⟩⟩
  · cases hupd : tx.update _ id values with
    | error e =>
      rcases (Transaction.update_eq_error hactive).1 hupd with ⟨hnot, -⟩ | ⟨-, hv⟩
      · exact absurd hid hnot
      · exact .inl ⟨e, hv, rfl⟩
    | ok tx' =>
      refine .inr ⟨tx', rfl, ?_⟩
      rw [hscan ((Transaction.update_frame hupd).2.trans hactive) (hstaged.update rfl rfl hupd),
        hun.update hstaged.toOrdered hupd]
  · cases hdel : tx.delete _ id with
    | error e => exact absurd hid ((Transaction.delete_eq_error hactive).1 hdel).1
    | ok tx' =>
      refine ⟨tx', rfl, ?_⟩
      rw [hscan ((Transaction.delete_frame hdel).2.trans hactive) (hstaged.delete hdel),
        hun.delete hstaged.toOrdered hdel]

/-- One transaction after the other, each with a row. -/
def turnsInOrder : List Turn :=
  [.begin, .call 0 (.insert [.integer 1]), .commit 0, .begin, .call 1 (.insert [.integer 2])]

/-- The same calls, the second transaction begun before the first commits. -/
def turnsAtOnce : List Turn :=
  [.begin, .begin, .call 0 (.insert [.integer 1]), .call 1 (.insert [.integer 2]), .commit 0]

/-- In order the scan shows two ids. -/
theorem scan_addresses_in_order :
    ∃ t ∈ Script.twoTables.db.tables,
      ∃ tx ∈ (Run.run SharedStore.step { store := t.store } turnsInOrder).transactions[1]?,
      ∃ rows, tx.scan (Run.run SharedStore.step { store := t.store } turnsInOrder).store =
        .ok rows ∧ (rows.map Row.id).Nodup := by
  obtain ⟨t, ht, tx, htx, hactive, hun⟩ : ∃ t ∈ Script.twoTables.db.tables,
      ∃ tx ∈ (Run.run SharedStore.step { store := t.store } turnsInOrder).transactions[1]?,
      tx.state = .active ∧
        tx.Unclaimed (Run.run SharedStore.step { store := t.store } turnsInOrder).store := by
    decide +kernel
  have hvalid := Script.twoTables_reachable.coherent.valid.stores t ht
  obtain ⟨rows, hrows, hiff, -⟩ := scan_addresses_iff hvalid turnsInOrder rfl htx hactive
  exact ⟨t, ht, tx, htx, rows, hrows, hiff.2 hun⟩

/-- **At once both transactions reserve the first id**: after one has
committed the other shows two rows under it. -/
theorem scan_repeats_id :
    ∃ t ∈ Script.twoTables.db.tables,
      ∃ tx ∈ (Run.run SharedStore.step { store := t.store } turnsAtOnce).transactions[1]?,
      tx.state = .active ∧
        tx.scan (Run.run SharedStore.step { store := t.store } turnsAtOnce).store =
          .ok [⟨1, [.integer 1]⟩, ⟨1, [.integer 2]⟩] := by
  decide +kernel

end Shoveler
