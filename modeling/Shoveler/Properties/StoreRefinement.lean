import Shoveler.Invariant.Coherent

/-!
# A transaction stands for the store

Calls made on a table transaction answer as if they were made on the store
itself. The transaction keeps its changes in three lists and the store in
one, so this is a simulation (`Overlays`): what the transaction shows is
what the store would hold, and the next ids agree. At the end the two come
together again, since the commit puts into the store what the scan shows
(`transaction_refines_store`).
-/

namespace Shoveler

open Outcome Script List

/-! ## Calls -/

/-- **A call** that both a transaction and a store take. -/
inductive RowCall where
  | insert (values : List Value)
  | update (id : RowId) (values : List Value)
  | delete (id : RowId)

/-- What a call leaves and replies: a call that fails leaves what was
there. -/
def settle {σ : Type} (before : σ) : Result (Option RowId × σ) → σ × Result (Option RowId)
  | .ok (reply, next) => (next, .ok reply)
  | .error e => (before, .error e)

/-- A call made on the store. -/
def RowStore.call (self : RowStore) : RowCall → RowStore × Result (Option RowId)
  | .insert values => settle self do
    let (id, next) ← self.insert values
    return (some id, next)
  | .update id values => settle self do return (none, ← self.update id values)
  | .delete id => settle self do return (none, ← self.delete id)

/-- A call made on a transaction over the store. -/
def Transaction.call (store : RowStore) (self : Transaction) :
    RowCall → Transaction × Result (Option RowId)
  | .insert values => settle self do
    let (id, next) ← self.insert (.ok store) values
    return (some id, next)
  | .update id values => settle self do return (none, ← self.update (.ok store) id values)
  | .delete id => settle self do return (none, ← self.delete (.ok store) id)

/-! ## How calls end -/

namespace RowStore

variable {s : RowStore} {id : RowId} {values : List Value} {e : Error}

/-- An insert under the next id is a check of the values, and one more
id. -/
theorem Valid.insert_eq (hs : s.Valid) :
    s.insert values = do
      validateValues s.table values
      let n ← nextAfter s.nextId
      return (s.nextId, { s with rows := s.rows ++ [⟨s.nextId, values⟩], nextId := n }) := by
  have hnew : ¬(s.findRowIndex s.nextId).isSome = true := by
    rw [findRowIndex_isSome]
    intro hmem
    obtain ⟨r, hr, he⟩ := mem_map.1 hmem
    exact UInt64.lt_irrefl _ (he ▸ hs.below r hr)
  have hnext : s.nextIdAfter s.nextId = nextAfter s.nextId := if_pos (UInt64.le_refl _)
  have hinsert : s.insertWithId s.nextId values = do
      let row ← Row.init s.table s.nextId values
      let n ← s.nextIdAfter s.nextId
      return { s with rows := s.rows ++ [row], nextId := n } := if_neg hnew
  rw [RowStore.insert, hinsert, hnext]
  simp only [Row.init, bind_assoc, pure_bind]

theorem update_eq_error :
    s.update id values = .error e ↔
      id ∉ s.ids ∧ e = .unknownRow ∨ id ∈ s.ids ∧ validateValues s.table values = .error e := by
  rw [update]
  cases hfind : s.findRowIndex id with
  | none =>
    have hid := findRowIndex_eq_none.1 hfind
    simp only [hid, not_false_eq_true, true_and, false_and, or_false, Except.error.injEq, eq_comm]
  | some i =>
    have hid : id ∈ s.ids := findRowIndex_isSome.1 (by rw [hfind]; rfl)
    simp only [hid, not_true_eq_false, false_and, true_and, false_or, Row.init]
    cases validateValues s.table values <;> simp

theorem delete_eq_error : s.delete id = .error e ↔ id ∉ s.ids ∧ e = .unknownRow := by
  rw [delete]
  cases hfind : s.findRowIndex id with
  | none =>
    have hid := findRowIndex_eq_none.1 hfind
    simp only [hid, not_false_eq_true, true_and, Except.error.injEq, eq_comm]
  | some i =>
    have hid : id ∈ s.ids := findRowIndex_isSome.1 (by rw [hfind]; rfl)
    simp [hid]

end RowStore

namespace Transaction

variable {tx : Transaction} {s : RowStore} {id : RowId} {values : List Value} {e : Error}

theorem insert_eq (ha : tx.state = .active) :
    tx.insert (.ok s) values = do
      validateValues s.table values
      let n ← nextAfter tx.nextId
      return (tx.nextId, { tx with inserts := tx.inserts ++ [⟨tx.nextId, values⟩], nextId := n }) := by
  simp only [insert, ensureActive_eq_ok.2 ha, ok_bind, Row.init, bind_assoc, pure_bind]

/-- **An update of a transaction fails as one of the store does**: for a row
that is not in view, or for values that do not fit. -/
theorem update_eq_error (ha : tx.state = .active) :
    tx.update (.ok s) id values = .error e ↔
      id ∉ (tx.view s.rows).map Row.id ∧ e = .unknownRow ∨
        id ∈ (tx.view s.rows).map Row.id ∧ validateValues s.table values = .error e := by
  rw [mem_ids_view, update, ensureActive_eq_ok.2 ha, ok_bind]
  cases hfind : tx.findInsertedIndex id with
  | some index =>
    have hid := findInsertedIndex_eq_some hfind
    simp only [hid, true_or, not_true_eq_false, false_and, true_and, false_or, ok_bind,
      Row.init]
    cases validateValues s.table values <;> simp
  | none =>
    have hid := findInsertedIndex_eq_none.1 hfind
    simp only [hid, false_or, updateCommitted, isDeleted]
    by_cases hdel : id ∈ tx.deletes
    · simp [hdel, eq_comm]
    · simp only [hdel, decide_false, Bool.false_eq_true, if_false, ok_bind]
      cases hget : s.get id with
      | none =>
        have hnot : id ∉ s.rows.map Row.id := RowStore.get_eq_none.1 hget
        simp [hnot, eq_comm]
      | some r =>
        have hmem : id ∈ s.rows.map Row.id := by
          by_contra hnot
          rw [RowStore.get_eq_none.2 hnot] at hget
          cases hget
        simp only [hmem, true_and, not_true_eq_false, not_false_eq_true, false_and, false_or,
          Row.init]
        cases validateValues s.table values <;> simp

theorem delete_eq_error (ha : tx.state = .active) :
    tx.delete (.ok s) id = .error e ↔
      id ∉ (tx.view s.rows).map Row.id ∧ e = .unknownRow := by
  rw [mem_ids_view, delete, ensureActive_eq_ok.2 ha, ok_bind]
  cases hfind : tx.findInsertedIndex id with
  | some index =>
    have hid := findInsertedIndex_eq_some hfind
    simp [hid]
  | none =>
    have hid := findInsertedIndex_eq_none.1 hfind
    have hcond : ((s.get id).isNone = true ∨ tx.isDeleted id = true) ↔
        ¬(id ∈ s.rows.map Row.id ∧ id ∉ tx.deletes) := by
      rw [Option.isNone_iff_eq_none, RowStore.get_eq_none, isDeleted, decide_eq_true_iff,
        Classical.not_and_iff_not_or_not, not_not]
      rfl
    simp only [hid, false_or, deleteCommitted, ok_bind, hcond]
    split
    · rename_i hnot
      rw [Except.error.injEq]
      exact ⟨fun he => ⟨hnot, he.symm⟩, fun he => he.2.symm⟩
    · rename_i hvisible
      exact ⟨fun he => (by cases he), fun he => absurd he.1 hvisible⟩

end Transaction

/-! ## The simulation -/

/-- **A transaction over a store, and the store the calls were made on.** -/
structure Overlays (s : RowStore) (tx : Transaction) (direct : RowStore) : Prop where
  active : tx.state = .active
  staged : tx.Staged s.table
  parted : tx.Parted s.nextId
  publishable : tx.Publishable s
  valid : direct.Valid
  table : direct.table = s.table
  rows : direct.rows = tx.view s.rows
  nextId : direct.nextId = tx.nextId

namespace Overlays

variable {s direct : RowStore} {tx : Transaction}

/-- They start out together. -/
theorem begin (hs : s.Valid) (slot : ℕ) : Overlays s (Transaction.begin slot s) s where
  active := rfl
  staged := .of_nil rfl rfl rfl
  parted := .begin (UInt64.le_refl _)
  publishable := ⟨fun _ h => (by cases h), fun _ h => (by cases h)⟩
  valid := hs
  table := rfl
  rows := (Keyed.overlay_nil _ _).trans (append_nil _) |>.symm
  nextId := rfl

/-- An insert, on both. -/
theorem insert (h : Overlays s tx direct) (values : List Value) :
    (tx.call s (.insert values)).2 = (direct.call (.insert values)).2 ∧
      Overlays s (tx.call s (.insert values)).1 (direct.call (.insert values)).1 := by
  have htx := @Transaction.insert_eq tx s values h.active
  have hdirect := @RowStore.Valid.insert_eq direct values h.valid
  cases hv : validateValues s.table values with
  | error e =>
    rw [hv, error_bind] at htx
    rw [h.table, hv, error_bind] at hdirect
    simp only [Transaction.call, RowStore.call, htx, hdirect, error_bind, settle]
    exact ⟨trivial, h⟩
  | ok =>
    have hv' : validateValues direct.table values = .ok () := h.table.symm ▸ hv
    cases hn : nextAfter tx.nextId with
    | error e =>
      rw [hv, hn, ok_bind, error_bind] at htx
      rw [hv', h.nextId, hn, ok_bind, error_bind] at hdirect
      simp only [Transaction.call, RowStore.call, htx, hdirect, error_bind, settle]
      exact ⟨trivial, h⟩
    | ok n =>
      rw [hv, hn, ok_bind, ok_bind, pure_eq_ok] at htx
      rw [hv', h.nextId, hn, ok_bind, ok_bind, pure_eq_ok] at hdirect
      simp only [Transaction.call, RowStore.call, htx, hdirect, ok_bind,
        pure_eq_ok, settle, true_and]
      have hvalid : RowStore.Valid
          { direct with rows := direct.rows ++ [⟨tx.nextId, values⟩], nextId := n } := by
        obtain ⟨next, hnext, hend⟩ := bind_eq_ok.1 hdirect
        obtain ⟨-, rfl⟩ := Prod.mk.inj (Except.ok.inj hend)
        exact h.valid.insertWithId hnext
      refine ⟨h.active, h.staged.insert rfl rfl htx, h.parted.insert htx,
        ⟨h.publishable.deletes, h.publishable.updates⟩, hvalid, h.table, ?_, rfl⟩
      rw [h.rows]
      exact (Transaction.view_insert s.rows htx).symm

theorem ids (h : Overlays s tx direct) : direct.ids = (tx.view s.rows).map Row.id := by
  rw [RowStore.ids, h.rows]

/-- A row that is there is one the transaction sees. -/
theorem sees (hs : s.Valid) (h : Overlays s tx direct) {id : RowId} (hmem : id ∈ direct.ids) :
    tx.Sees s.nextId id := by
  rw [h.ids, Transaction.mem_ids_view] at hmem
  rcases hmem with hin | ⟨hin, -⟩
  · exact Or.inr hin
  · obtain ⟨r, hr, rfl⟩ := mem_map.1 hin
    exact Or.inl (hs.below r hr)

/-- An update, on both. -/
theorem update (hs : s.Valid) (h : Overlays s tx direct) (id : RowId) (values : List Value) :
    (tx.call s (.update id values)).2 = (direct.call (.update id values)).2 ∧
      Overlays s (tx.call s (.update id values)).1 (direct.call (.update id values)).1 := by
  have hord := h.staged.toOrdered
  cases htx : tx.update (.ok s) id values with
  | error e =>
    have hdirect : direct.update id values = .error e := by
      rw [RowStore.update_eq_error, h.ids, h.table]
      exact (Transaction.update_eq_error h.active).1 htx
    simp only [Transaction.call, RowStore.call, htx, hdirect, error_bind, settle]
    exact ⟨trivial, h⟩
  | ok tx' =>
    have hview := Transaction.view_update hord (h.parted.apart hs) htx
    obtain ⟨-, s', hs', hv, hcase⟩ :=
      (Transaction.update_eq_ok hord.inserts_nodup hord.updates_nodup).1 htx
    obtain rfl := Except.ok.inj hs'
    have hmem : id ∈ direct.ids := by
      rw [h.ids, Transaction.mem_ids_view]
      exact hcase.imp (fun hc => hc.1) fun hc => ⟨hc.2.2.1, hc.2.1⟩
    have hdirect := (RowStore.update_eq_ok h.valid.distinct).2 ⟨hmem, h.table.symm ▸ hv, rfl⟩
    simp only [Transaction.call, RowStore.call, htx, hdirect, ok_bind, pure_eq_ok,
      settle, true_and]
    have hpub : tx'.Publishable s := by
      rcases hcase with ⟨-, rfl⟩ | ⟨-, -, hin, rfl⟩
      · exact ⟨h.publishable.deletes, h.publishable.updates⟩
      · refine ⟨h.publishable.deletes, fun i hi => ?_⟩
        obtain ⟨r, hr, rfl⟩ := mem_map.1 hi
        rcases Keyed.mem_upsert hr with rfl | ⟨hr, -⟩
        · exact hin
        · exact h.publishable.updates _ (mem_map_of_mem hr)
    have hnext : tx'.nextId = tx.nextId := by
      rcases hcase with ⟨-, rfl⟩ | ⟨-, -, -, rfl⟩ <;> rfl
    refine ⟨(Transaction.update_frame htx).2.trans h.active, h.staged.update rfl rfl htx,
      h.parted.update hord (h.sees hs hmem) htx, hpub, h.valid.update hdirect, h.table, ?_,
      h.nextId.trans hnext.symm⟩
    rw [hview, h.rows]

/-- A delete, on both. -/
theorem delete (hs : s.Valid) (h : Overlays s tx direct) (id : RowId) :
    (tx.call s (.delete id)).2 = (direct.call (.delete id)).2 ∧
      Overlays s (tx.call s (.delete id)).1 (direct.call (.delete id)).1 := by
  have hord := h.staged.toOrdered
  cases htx : tx.delete (.ok s) id with
  | error e =>
    have hdirect : direct.delete id = .error e := by
      rw [RowStore.delete_eq_error, h.ids]
      exact (Transaction.delete_eq_error h.active).1 htx
    simp only [Transaction.call, RowStore.call, htx, hdirect, error_bind, settle]
    exact ⟨trivial, h⟩
  | ok tx' =>
    have hview := Transaction.view_delete hord (h.parted.apart hs) htx
    obtain ⟨-, hcase⟩ := (Transaction.delete_eq_ok hord.inserts_nodup hord.updates_nodup).1 htx
    have hmem : id ∈ direct.ids := by
      rw [h.ids, Transaction.mem_ids_view]
      rcases hcase with ⟨hin, -⟩ | ⟨-, s', hs', hin, hdel, -⟩
      · exact Or.inl hin
      · obtain rfl := Except.ok.inj hs'
        exact Or.inr ⟨hin, hdel⟩
    have hdirect := (RowStore.delete_eq_ok h.valid.distinct).2 ⟨hmem, rfl⟩
    simp only [Transaction.call, RowStore.call, htx, hdirect, ok_bind, pure_eq_ok,
      settle, true_and]
    have hpub : tx'.Publishable s := by
      rcases hcase with ⟨-, rfl⟩ | ⟨-, s', hs', hin, -, rfl⟩
      · exact ⟨h.publishable.deletes, h.publishable.updates⟩
      · obtain rfl := Except.ok.inj hs'
        refine ⟨fun d hd => ?_,
          fun i hi => h.publishable.updates i ((filter_sublist.map _).subset hi)⟩
        rcases mem_append.1 hd with hd | hd
        · exact h.publishable.deletes d hd
        · rw [mem_singleton] at hd
          exact hd ▸ hin
    have hnext : tx'.nextId = tx.nextId := by
      rcases hcase with ⟨-, rfl⟩ | ⟨-, s', -, -, -, rfl⟩ <;> rfl
    refine ⟨(Transaction.delete_frame htx).2.trans h.active, h.staged.delete htx,
      h.parted.delete hord (h.sees hs hmem) htx, hpub, h.valid.delete hdirect, h.table, ?_,
      h.nextId.trans hnext.symm⟩
    rw [hview, h.rows]

/-- **Every call is answered alike and keeps the two together.** -/
theorem call (hs : s.Valid) (h : Overlays s tx direct) (c : RowCall) :
    (tx.call s c).2 = (direct.call c).2 ∧ Overlays s (tx.call s c).1 (direct.call c).1 := by
  cases c with
  | insert values => exact h.insert values
  | update id values => exact h.update hs id values
  | delete id => exact h.delete hs id

/-! ## The end of the transaction -/

/-- Inserts whose ids are free keep them. -/
theorem insertAll_eq_insertRows {rows : List Row} {target : RowStore}
    (hids : (rows.map Row.id).Nodup) (hnew : ∀ r ∈ rows, r.id ∉ target.ids) :
    rows.foldlM (fun next r => next.insertWithId (Transaction.commitId next r) r.values) target =
      insertRows rows target := by
  induction rows generalizing target with
  | nil => rfl
  | cons r rows ih =>
    rw [forall_mem_cons] at hnew
    rw [map_cons, nodup_cons] at hids
    have hown : Transaction.commitId target r = r.id := by
      rw [Transaction.commitId, if_pos]
      rw [RowStore.get_eq_none.2 hnew.1]
      rfl
    rw [insertRows, foldlM_cons, foldlM_cons, hown]
    cases hinsert : target.insertWithId r.id r.values with
    | error e => rfl
    | ok next =>
      obtain ⟨-, -, n, -, rfl⟩ := RowStore.insertWithId_eq_ok.1 hinsert
      refine ih hids.2 fun r' hr' hmem => ?_
      rw [RowStore.ids, map_append, map_singleton, mem_append,
        mem_singleton] at hmem
      rcases hmem with hmem | hmem
      · exact hnew.2 r' hr' hmem
      · exact hids.1 (hmem ▸ mem_map_of_mem hr')

/-- **The commit puts into the store what the transaction shows.** -/
theorem commit (hs : s.Valid) (h : Overlays s tx direct) :
    ∃ next tx', tx.commit (.ok s) = .ok (next, tx') ∧ next.rows = direct.rows := by
  obtain ⟨hvalid, heq⟩ := Transaction.publish_eq_insertAll hs h.staged h.publishable
  have hnew : ∀ r ∈ tx.inserts, r.id ∉ (tx.afterUpdates s).ids := by
    intro r hr
    exact Keyed.not_mem_kept (h.parted.apart hs r.id (mem_map_of_mem hr))
  have hlast : ∀ r ∈ tx.inserts, r.id.toNat + 1 < UInt64.size := by
    intro r hr
    have hlt := UInt64.lt_iff_toNat_lt.1 (h.staged.below r.id (mem_map_of_mem hr))
    have hsize : tx.nextId.toNat < UInt64.size := tx.nextId.toNat_lt
    omega
  obtain ⟨n, hn⟩ := @insertRows_eq_ok tx.inserts (tx.afterUpdates s) h.staged.inserts_conform
    h.staged.inserts_nodup hnew hlast
  rw [insertAll_eq_insertRows h.staged.inserts_nodup hnew, hn] at heq
  refine ⟨_, _, Database.commit_eq_ok.2 ⟨h.active, s, rfl, heq, rfl⟩, ?_⟩
  rw [h.rows]
  rfl

end Overlays

/-- **A transaction stands for the store.** Over a store in good order that
nobody else changes, any calls on a transaction begun on it are answered
as the same calls on a copy of the store. The scan afterwards shows the
rows of the copy, the commit succeeds and leaves these rows in the store,
and the rollback succeeds without a look at the store. -/
theorem transaction_refines_store {s : RowStore} (hs : s.Valid) (slot : ℕ)
    (calls : List RowCall) :
    ∃ copy, s.clone = .ok copy ∧
      (Run.replies (Transaction.call s) (Transaction.begin slot s) calls).2 =
        (Run.replies RowStore.call copy calls).2 ∧
      (Run.replies (Transaction.call s) (Transaction.begin slot s) calls).1.scan s =
        .ok (Run.replies RowStore.call copy calls).1.rows ∧
      (∃ next tx, (Run.replies (Transaction.call s) (Transaction.begin slot s) calls).1.commit
          (.ok s) = .ok (next, tx) ∧ next.rows = (Run.replies RowStore.call copy calls).1.rows) ∧
      ∃ tx, (Run.replies (Transaction.call s) (Transaction.begin slot s) calls).1.rollback =
        .ok tx := by
  obtain ⟨hreplies, hend⟩ := Run.replies_simulate (R := Overlays s)
    (fun _ _ c h => h.call hs c) (.begin hs slot) calls
  refine ⟨s, hs.clone, hreplies, ?_, hend.commit hs, ?_⟩
  · rw [hend.rows]
    exact Transaction.scanWithBase_eq_ok rfl hend.active hend.staged hs rfl
  · rw [Transaction.rollback, Transaction.ensureActive_eq_ok.2 hend.active]
    exact ⟨_, rfl⟩

/-- The table `A` with two rows committed. -/
def committedPair : System :=
  twoTables.run frontend
    [begin 0, insert 0 "A" [some 1], insert 0 "A" [some 2], commit 0]

/-- A local insert updated and taken back, a committed row updated twice,
deleted and then missed, a row that does not fit, and an insert that
stays. -/
def crossCalls : List RowCall :=
  [.insert [.integer 3], .update 3 [.integer 4], .update 1 [.integer 5], .update 1 [.integer 6],
    .delete 1, .update 1 [.integer 7], .delete 3, .insert [], .insert [.integer 8]]

/-- The calls are answered alike, and what is left is the second row and the
last insert. -/
theorem transaction_refines_store_cross :
    ∃ t ∈ committedPair.db.tables, ∃ copy, t.store.clone = .ok copy ∧
      (Run.replies (Transaction.call t.store) (Transaction.begin 0 t.store) crossCalls).2 =
        (Run.replies RowStore.call copy crossCalls).2 ∧
      (Run.replies (Transaction.call t.store) (Transaction.begin 0 t.store) crossCalls).2 =
        [.ok (some 3), .ok none, .ok none, .ok none, .ok none, .error .unknownRow, .ok none,
          .error .columnCountMismatch, .ok (some 4)] ∧
      (Run.replies RowStore.call copy crossCalls).1.rows =
        [⟨2, [.integer 2]⟩, ⟨4, [.integer 8]⟩] := by
  have hreach := twoTables_reachable.run
    [begin 0, insert 0 "A" [some 1], insert 0 "A" [some 2], commit 0]
  have hrun : ∃ t ∈ committedPair.db.tables,
      (Run.replies (Transaction.call t.store) (Transaction.begin 0 t.store) crossCalls).2 =
        [.ok (some 3), .ok none, .ok none, .ok none, .ok none, .error .unknownRow, .ok none,
          .error .columnCountMismatch, .ok (some 4)] ∧
      (Run.replies RowStore.call t.store crossCalls).1.rows =
        [⟨2, [.integer 2]⟩, ⟨4, [.integer 8]⟩] := by
    decide +kernel
  obtain ⟨t, ht, hreplies, hrows⟩ := hrun
  have hvalid : t.store.Valid := hreach.coherent.valid.stores t ht
  obtain ⟨copy, hcopy, hsame, -, -, -⟩ := transaction_refines_store hvalid 0 crossCalls
  obtain rfl := Except.ok.inj (hvalid.clone.symm.trans hcopy)
  exact ⟨t, ht, t.store, hcopy, hsame, hreplies, hrows⟩

end Shoveler
