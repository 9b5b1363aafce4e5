import Shoveler.Model.Transaction

/-!
# Staged changes

What the operations of a table transaction do, each as one statement: the
three lists change as a keyed list does (`insert_eq_ok`, `update_eq_ok`,
`delete_eq_ok`), and the lists stay in good order (`Staged`). A scan is
the committed rows with the staged changes laid over them
(`scanWithBase_eq_ok`), and a commit is the same over the live rows, with
fresh ids for the inserts whose own id is taken (`publish_eq_ok`).
-/

namespace Shoveler

open Outcome List

namespace Transaction

variable {tx tx' : Transaction} {store : Result RowStore} {s next : RowStore}
variable {id : RowId} {values : List Value}

variable {n : RowId} {table : TableDef}

theorem ensureActive_eq_ok : tx.ensureActive = .ok () ↔ tx.state = .active := by
  rw [ensureActive]
  cases tx.state <;> simp

/-- The ids of the staged inserts. -/
def insertIds (tx : Transaction) : List RowId := tx.inserts.map Row.id

/-- The ids of the staged images. -/
def updateIds (tx : Transaction) : List RowId := tx.updates.map Row.id

theorem findInsertedIndex_eq_none : tx.findInsertedIndex id = none ↔ id ∉ tx.insertIds :=
  Keyed.findIdx?_eq_none

theorem findInsertedIndex_eq_some {index : ℕ} (h : tx.findInsertedIndex id = some index) :
    id ∈ tx.insertIds :=
  Keyed.isSome_findIdx?.1 (Option.isSome_of_eq_some h)

theorem findUpdatedIndex_eq_none : tx.findUpdatedIndex id = none ↔ id ∉ tx.updateIds :=
  Keyed.findIdx?_eq_none

/-- **Lists in good order**: no list names an id twice, no row is both
replaced and deleted, and the ids reserved are below the next one. -/
structure Ordered (tx : Transaction) : Prop where
  inserts_nodup : tx.insertIds.Nodup
  updates_nodup : tx.updateIds.Nodup
  deletes_nodup : tx.deletes.Nodup
  disjoint : ∀ i ∈ tx.updateIds, i ∉ tx.deletes
  below : ∀ i ∈ tx.insertIds, i < tx.nextId

/-- Lists in good order whose rows all fit the table. -/
structure Staged (tx : Transaction) (table : TableDef) : Prop extends tx.Ordered where
  inserts_conform : ∀ r ∈ tx.inserts, r.Conforms table
  updates_conform : ∀ r ∈ tx.updates, r.Conforms table

/-- Empty lists are in good order. -/
theorem Ordered.of_nil (hi : tx.inserts = []) (hu : tx.updates = []) (hd : tx.deletes = []) :
    tx.Ordered := by
  refine ⟨?_, ?_, ?_, ?_, ?_⟩ <;> simp [insertIds, updateIds, hi, hu, hd]

theorem Staged.of_nil (hi : tx.inserts = []) (hu : tx.updates = []) (hd : tx.deletes = []) :
    tx.Staged table where
  toOrdered := .of_nil hi hu hd
  inserts_conform := by simp [hi]
  updates_conform := by simp [hu]

/-! ## What the operations do -/

/-- **What an insert stages**: the row under the next local id. -/
theorem insert_eq_ok :
    tx.insert store values = .ok (id, tx') ↔
      tx.state = .active ∧ ∃ s, store = .ok s ∧ validateValues s.table values = .ok () ∧
        id = tx.nextId ∧ ∃ n, nextAfter tx.nextId = .ok n ∧
        tx' = { tx with inserts := tx.inserts ++ [⟨tx.nextId, values⟩], nextId := n } := by
  simp only [insert, bind_eq_ok, Row.init_eq_ok, pure_eq_ok, Except.ok.injEq,
    Prod.mk.injEq]
  constructor
  · rintro ⟨⟨⟩, ha, s, hs, row, ⟨hv, rfl⟩, n, hn, rfl, rfl⟩
    exact ⟨ensureActive_eq_ok.1 ha, s, hs, hv, rfl, n, hn, rfl⟩
  · rintro ⟨ha, s, hs, hv, rfl, n, hn, rfl⟩
    exact ⟨(), ensureActive_eq_ok.2 ha, s, hs, _, ⟨hv, rfl⟩, n, hn, rfl, rfl⟩

/-- Setting the record found under an id is putting it in. -/
theorem set_eq_upsert {l : List Row} (hl : (l.map Row.id).Nodup) {i : ℕ}
    (h : l.findIdx? (fun row => row.id = id) = some i) :
    l.set i ⟨id, values⟩ = Keyed.upsert Row.id ⟨id, values⟩ l := by
  have hmem : id ∈ l.map Row.id := Keyed.isSome_findIdx?.1 (by rw [h]; rfl)
  rw [Keyed.set_findIdx? hl h, Keyed.upsert, if_pos hmem]

theorem putUpdate_eq (hu : tx.updateIds.Nodup) :
    tx.putUpdate ⟨id, values⟩ = Keyed.upsert Row.id ⟨id, values⟩ tx.updates := by
  rw [putUpdate]
  cases hfind : tx.findUpdatedIndex id with
  | none => exact (if_neg (findUpdatedIndex_eq_none.1 hfind)).symm
  | some index => exact set_eq_upsert hu hfind

theorem dropUpdate_eq (hu : tx.updateIds.Nodup) :
    tx.dropUpdate id = tx.updates.filter fun r => decide (r.id ≠ id) := by
  rw [dropUpdate]
  cases hfind : tx.findUpdatedIndex id with
  | some index => exact Keyed.eraseIdx_findIdx? hu hfind
  | none =>
    refine (filter_eq_self.2 fun r hr => ?_).symm
    rw [decide_eq_true_iff]
    intro he
    exact findUpdatedIndex_eq_none.1 hfind (he ▸ mem_map_of_mem hr)

/-- The committed half of an update. -/
theorem updateCommitted_eq_ok (hu : tx.updateIds.Nodup) :
    tx.updateCommitted store id values = .ok tx' ↔
      id ∉ tx.deletes ∧ ∃ s, store = .ok s ∧ id ∈ s.ids ∧ validateValues s.table values = .ok () ∧
        tx' = { tx with updates := Keyed.upsert Row.id ⟨id, values⟩ tx.updates } := by
  rw [updateCommitted, ite_error_eq_ok, isDeleted, decide_eq_true_iff, bind_eq_ok]
  refine and_congr_right fun _ => exists_congr fun s => and_congr_right fun _ => ?_
  cases hget : s.get id with
  | none => simp [RowStore.get_eq_none.1 hget]
  | some r =>
    have hmem : id ∈ s.ids := by
      by_contra hid
      rw [RowStore.get_eq_none.2 hid] at hget
      cases hget
    simp only [bind_eq_ok, Row.init_eq_ok, hmem, true_and, pure_eq_ok,
      Except.ok.injEq]
    constructor
    · rintro ⟨row, ⟨hv, rfl⟩, rfl⟩
      exact ⟨hv, by rw [putUpdate_eq hu]⟩
    · rintro ⟨hv, rfl⟩
      exact ⟨_, ⟨hv, rfl⟩, by rw [putUpdate_eq hu]⟩

/-- **What an update stages**: another image of a local insert, or an
image of a committed row that is not deleted. -/
theorem update_eq_ok (hi : tx.insertIds.Nodup) (hu : tx.updateIds.Nodup) :
    tx.update store id values = .ok tx' ↔
      tx.state = .active ∧ ∃ s, store = .ok s ∧ validateValues s.table values = .ok () ∧
        (id ∈ tx.insertIds ∧
            tx' = { tx with inserts := Keyed.upsert Row.id ⟨id, values⟩ tx.inserts } ∨
          id ∉ tx.insertIds ∧ id ∉ tx.deletes ∧ id ∈ s.ids ∧
            tx' = { tx with updates := Keyed.upsert Row.id ⟨id, values⟩ tx.updates }) := by
  rw [update, bind_eq_ok]
  cases hfind : tx.findInsertedIndex id with
  | none =>
    have hid := findInsertedIndex_eq_none.1 hfind
    simp only [updateCommitted_eq_ok hu, hid, false_and, not_false_eq_true, true_and, false_or]
    constructor
    · rintro ⟨⟨⟩, ha, hd, s, hs, hmem, hv, rfl⟩
      exact ⟨ensureActive_eq_ok.1 ha, s, hs, hv, hd, hmem, rfl⟩
    · rintro ⟨ha, s, hs, hv, hd, hmem, rfl⟩
      exact ⟨(), ensureActive_eq_ok.2 ha, hd, s, hs, hmem, hv, rfl⟩
  | some index =>
    have hid := findInsertedIndex_eq_some hfind
    simp only [bind_eq_ok, Row.init_eq_ok, pure_eq_ok, Except.ok.injEq, hid,
      true_and, not_true_eq_false, false_and, or_false]
    constructor
    · rintro ⟨⟨⟩, ha, s, hs, row, ⟨hv, rfl⟩, rfl⟩
      exact ⟨ensureActive_eq_ok.1 ha, s, hs, hv, by rw [set_eq_upsert hi hfind]⟩
    · rintro ⟨ha, s, hs, hv, rfl⟩
      exact ⟨(), ensureActive_eq_ok.2 ha, s, hs, _, ⟨hv, rfl⟩, by rw [set_eq_upsert hi hfind]⟩

/-- **What a delete stages**: a local insert is forgotten; a committed row
loses its image and is noted as deleted. -/
theorem delete_eq_ok (hi : tx.insertIds.Nodup) (hu : tx.updateIds.Nodup) :
    tx.delete store id = .ok tx' ↔
      tx.state = .active ∧
        (id ∈ tx.insertIds ∧
            tx' = { tx with inserts := tx.inserts.filter fun r => decide (r.id ≠ id) } ∨
          id ∉ tx.insertIds ∧ ∃ s, store = .ok s ∧ id ∈ s.ids ∧ id ∉ tx.deletes ∧
            tx' = { tx with
              updates := tx.updates.filter fun r => decide (r.id ≠ id)
              deletes := tx.deletes ++ [id] }) := by
  rw [delete, bind_eq_ok]
  cases hfind : tx.findInsertedIndex id with
  | some index =>
    have hid := findInsertedIndex_eq_some hfind
    simp only [pure_eq_ok, Except.ok.injEq, hid, true_and, not_true_eq_false, false_and,
      or_false, Keyed.eraseIdx_findIdx? hi hfind]
    constructor
    · rintro ⟨⟨⟩, ha, rfl⟩
      exact ⟨ensureActive_eq_ok.1 ha, rfl⟩
    · rintro ⟨ha, rfl⟩
      exact ⟨(), ensureActive_eq_ok.2 ha, rfl⟩
  | none =>
    have hid := findInsertedIndex_eq_none.1 hfind
    simp only [hid, false_and, not_false_eq_true, true_and, false_or, deleteCommitted,
      bind_eq_ok, ite_error_eq_ok, Option.isNone_iff_eq_none, RowStore.get_eq_none,
      isDeleted, decide_eq_true_iff, not_or, not_not, dropUpdate_eq hu, pure_eq_ok,
      Except.ok.injEq]
    constructor
    · rintro ⟨⟨⟩, ha, s, hs, ⟨hmem, hd⟩, rfl⟩
      exact ⟨ensureActive_eq_ok.1 ha, s, hs, hmem, hd, rfl⟩
    · rintro ⟨ha, s, hs, hmem, hd, rfl⟩
      exact ⟨(), ensureActive_eq_ok.2 ha, s, hs, ⟨hmem, hd⟩, rfl⟩

/-! ## The lists stay in good order -/

theorem Ordered.insert (ht : tx.Ordered) (h : tx.insert store values = .ok (id, tx')) :
    tx'.Ordered := by
  obtain ⟨-, s, -, -, rfl, n, hn, rfl⟩ := insert_eq_ok.1 h
  have hlt : tx.nextId < n := by
    rw [UInt64.lt_iff_toNat_lt, nextAfter_eq_ok.1 hn]
    exact Nat.lt_succ_self _
  refine ⟨?_, ht.updates_nodup, ht.deletes_nodup, ht.disjoint, ?_⟩
  · exact Keyed.nodup_append_new ht.inserts_nodup fun hmem =>
      UInt64.lt_irrefl _ (ht.below _ hmem)
  · rw [insertIds, map_append]
    refine forall_mem_append.2 ⟨fun i hi => UInt64.lt_trans (ht.below i hi) hlt, fun i hi => ?_⟩
    rw [map_singleton, mem_singleton] at hi
    rw [hi]
    exact hlt

theorem insertIds_upsert (hid : id ∈ tx.insertIds) :
    (Keyed.upsert Row.id ⟨id, values⟩ tx.inserts).map Row.id = tx.insertIds := by
  rw [Keyed.map_key_upsert]
  exact if_pos hid

theorem Ordered.update (ht : tx.Ordered) (h : tx.update store id values = .ok tx') :
    tx'.Ordered := by
  obtain ⟨-, s, -, -, ⟨hid, rfl⟩ | ⟨hid, hdel, -, rfl⟩⟩ :=
    (update_eq_ok ht.inserts_nodup ht.updates_nodup).1 h
  · refine ⟨?_, ht.updates_nodup, ht.deletes_nodup, ht.disjoint, ?_⟩
    · rw [insertIds, insertIds_upsert hid]
      exact ht.inserts_nodup
    · rw [insertIds, insertIds_upsert hid]
      exact ht.below
  · refine ⟨ht.inserts_nodup, Keyed.nodup_upsert ht.updates_nodup, ht.deletes_nodup,
      fun i hi => ?_, ht.below⟩
    obtain ⟨r, hr, rfl⟩ := mem_map.1 hi
    rcases Keyed.mem_upsert hr with rfl | ⟨hr, -⟩
    · exact hdel
    · exact ht.disjoint _ (mem_map_of_mem hr)

theorem Ordered.delete (ht : tx.Ordered) (h : tx.delete store id = .ok tx') : tx'.Ordered := by
  obtain ⟨-, ⟨-, rfl⟩ | ⟨-, s, -, -, hdel, rfl⟩⟩ :=
    (delete_eq_ok ht.inserts_nodup ht.updates_nodup).1 h
  · exact ⟨ht.inserts_nodup.sublist (filter_sublist.map _), ht.updates_nodup,
      ht.deletes_nodup, ht.disjoint, fun i hi => ht.below i ((filter_sublist.map _).subset hi)⟩
  · refine ⟨ht.inserts_nodup, ht.updates_nodup.sublist (filter_sublist.map _), ?_,
      fun i hi => ?_, ht.below⟩
    · refine nodup_append.2 ⟨ht.deletes_nodup, nodup_singleton _, fun a ha b hb he => ?_⟩
      rw [mem_singleton] at hb
      rw [he, hb] at ha
      exact hdel ha
    · obtain ⟨r, hr, rfl⟩ := mem_map.1 hi
      rw [mem_filter, decide_eq_true_iff] at hr
      rw [mem_append, mem_singleton, not_or]
      exact ⟨ht.disjoint _ (mem_map_of_mem hr.1), hr.2⟩

theorem Staged.insert (ht : tx.Staged table) (hs : store = .ok s) (htable : s.table = table)
    (h : tx.insert store values = .ok (id, tx')) : tx'.Staged table := by
  refine ⟨ht.toOrdered.insert h, ?_, ?_⟩ <;>
    obtain ⟨-, s', hs', hv, rfl, n, -, rfl⟩ := insert_eq_ok.1 h
  · obtain rfl := Except.ok.inj (hs.symm.trans hs')
    refine forall_mem_append.2 ⟨ht.inserts_conform, fun r hr => ?_⟩
    rw [mem_singleton] at hr
    rw [hr, ← htable]
    exact hv
  · exact ht.updates_conform

/-- Every row of a list with a row put in fits where the row and the list
do. -/
theorem conform_upsert {l : List Row} (hl : ∀ r ∈ l, r.Conforms table)
    (hv : validateValues table values = .ok ()) :
    ∀ r ∈ Keyed.upsert Row.id ⟨id, values⟩ l, r.Conforms table := by
  intro r hr
  rcases Keyed.mem_upsert hr with rfl | ⟨hr, -⟩
  · exact hv
  · exact hl r hr

theorem Staged.update (ht : tx.Staged table) (hs : store = .ok s) (htable : s.table = table)
    (h : tx.update store id values = .ok tx') : tx'.Staged table := by
  have hordered := ht.toOrdered.update h
  obtain ⟨-, s', hs', hv, hcase⟩ := (update_eq_ok ht.inserts_nodup ht.updates_nodup).1 h
  obtain rfl := Except.ok.inj (hs.symm.trans hs')
  rw [htable] at hv
  rcases hcase with ⟨-, rfl⟩ | ⟨-, -, -, rfl⟩
  · exact ⟨hordered, conform_upsert ht.inserts_conform hv, ht.updates_conform⟩
  · exact ⟨hordered, ht.inserts_conform, conform_upsert ht.updates_conform hv⟩

theorem Staged.delete (ht : tx.Staged table) (h : tx.delete store id = .ok tx') :
    tx'.Staged table := by
  have hordered := ht.toOrdered.delete h
  obtain ⟨-, ⟨-, rfl⟩ | ⟨-, s, -, -, -, rfl⟩⟩ :=
    (delete_eq_ok ht.inserts_nodup ht.updates_nodup).1 h
  · exact ⟨hordered, fun r hr => ht.inserts_conform r (mem_of_mem_filter hr),
      ht.updates_conform⟩
  · exact ⟨hordered, ht.inserts_conform,
      fun r hr => ht.updates_conform r (mem_of_mem_filter hr)⟩

/-! ## Ids seen and ids reserved -/

/-- **The ids a transaction changes and the ids it reserves** lie on the
two sides of the next id of the snapshot it reads. -/
structure Parted (tx : Transaction) (n : RowId) : Prop where
  nextId : n ≤ tx.nextId
  inserts : ∀ i ∈ tx.insertIds, n ≤ i
  updates : ∀ i ∈ tx.updateIds, i < n
  deletes : ∀ i ∈ tx.deletes, i < n

theorem Parted.begin {n : RowId} {slot : ℕ} (h : n ≤ s.nextId) :
    (Transaction.begin slot s).Parted n where
  nextId := h
  inserts := fun _ hi => by cases hi
  updates := fun _ hi => by cases hi
  deletes := fun _ hi => by cases hi

theorem Parted.insert (ht : tx.Parted n) (h : tx.insert store values = .ok (id, tx')) :
    tx'.Parted n := by
  obtain ⟨-, s, -, -, rfl, m, hm, rfl⟩ := insert_eq_ok.1 h
  have hlt : tx.nextId < m := by
    rw [UInt64.lt_iff_toNat_lt, nextAfter_eq_ok.1 hm]
    exact Nat.lt_succ_self _
  refine ⟨UInt64.le_trans ht.nextId (UInt64.le_of_lt hlt), ?_, ht.updates, ht.deletes⟩
  rw [insertIds, map_append]
  refine forall_mem_append.2 ⟨ht.inserts, fun i hi => ?_⟩
  rw [map_singleton, mem_singleton] at hi
  rw [hi]
  exact ht.nextId

/-- An id the snapshot shows is one of the rows committed in it, or one the
transaction has reserved. -/
def Sees (tx : Transaction) (n id : RowId) : Prop := id < n ∨ id ∈ tx.insertIds

theorem Parted.update (ht : tx.Parted n) (hord : tx.Ordered) (hid : tx.Sees n id)
    (h : tx.update store id values = .ok tx') : tx'.Parted n := by
  obtain ⟨-, s, -, -, ⟨hmem, rfl⟩ | ⟨hmem, -, -, rfl⟩⟩ :=
    (update_eq_ok hord.inserts_nodup hord.updates_nodup).1 h
  · refine ⟨ht.nextId, ?_, ht.updates, ht.deletes⟩
    rw [insertIds, insertIds_upsert hmem]
    exact ht.inserts
  · refine ⟨ht.nextId, ht.inserts, fun i hi => ?_, ht.deletes⟩
    obtain ⟨r, hr, rfl⟩ := mem_map.1 hi
    rcases Keyed.mem_upsert hr with rfl | ⟨hr, -⟩
    · exact hid.resolve_right hmem
    · exact ht.updates _ (mem_map_of_mem hr)

theorem Parted.delete (ht : tx.Parted n) (hord : tx.Ordered) (hid : tx.Sees n id)
    (h : tx.delete store id = .ok tx') : tx'.Parted n := by
  obtain ⟨-, ⟨-, rfl⟩ | ⟨hmem, s, -, -, -, rfl⟩⟩ :=
    (delete_eq_ok hord.inserts_nodup hord.updates_nodup).1 h
  · exact ⟨ht.nextId, fun i hi => ht.inserts i ((filter_sublist.map _).subset hi),
      ht.updates, ht.deletes⟩
  · refine ⟨ht.nextId, ht.inserts,
      fun i hi => ht.updates i ((filter_sublist.map _).subset hi), fun i hi => ?_⟩
    rcases mem_append.1 hi with hi | hi
    · exact ht.deletes i hi
    · rw [mem_singleton] at hi
      rw [hi]
      exact hid.resolve_right hmem

/-- Updating one row leaves the others in sight. -/
theorem Sees.update {other : RowId} (hord : tx.Ordered) (hid : tx.Sees n other)
    (h : tx.update store id values = .ok tx') : tx'.Sees n other := by
  refine hid.imp_right fun hmem => ?_
  obtain ⟨-, s, -, -, ⟨hin, rfl⟩ | ⟨-, -, -, rfl⟩⟩ :=
    (update_eq_ok hord.inserts_nodup hord.updates_nodup).1 h
  · rw [insertIds, insertIds_upsert hin]
    exact hmem
  · exact hmem

/-- Deleting one row leaves the others in sight. -/
theorem Sees.delete {other : RowId} (hord : tx.Ordered) (hne : other ≠ id) (hid : tx.Sees n other)
    (h : tx.delete store id = .ok tx') : tx'.Sees n other := by
  refine hid.imp_right fun hmem => ?_
  obtain ⟨-, ⟨-, rfl⟩ | ⟨-, s, -, -, -, rfl⟩⟩ :=
    (delete_eq_ok hord.inserts_nodup hord.updates_nodup).1 h
  · obtain ⟨r, hr, rfl⟩ := mem_map.1 hmem
    exact mem_map_of_mem (mem_filter.2 ⟨hr, decide_eq_true hne⟩)
  · exact hmem

/-! ## Scans -/

/-- The rows a transaction shows over committed ones. -/
def view (tx : Transaction) (base : List Row) : List Row :=
  Keyed.overlay Row.id tx.deletes tx.updates tx.inserts base

theorem visibleRow_eq (r : Row) : tx.visibleRow r = Keyed.patch Row.id tx.updates r := by
  rw [visibleRow, Keyed.patch]
  cases tx.updates.find? (fun row => decide (row.id = r.id)) <;> rfl

/-- **A scan is the staged changes laid over the base**, where every row
it shows fits. -/
theorem scanWithBase_eq_ok {base : RowStore} (hs : store = .ok s) (ha : tx.state = .active)
    (ht : tx.Staged s.table) (hbase : base.Valid) (htable : base.table = s.table) :
    tx.scanWithBase store base = .ok (tx.view base.rows) := by
  have hkept : (base.rows.filter fun row => !tx.isDeleted row.id) =
      base.rows.filter (fun r => decide (r.id ∉ tx.deletes)) := by
    refine filter_congr fun r _ => ?_
    rw [isDeleted, decide_not]
  have hcommitted : (base.rows.filter fun row => !tx.isDeleted row.id).mapM
      (fun row => (tx.visibleRow row).clone base.table) =
      .ok ((base.rows.filter (fun r => decide (r.id ∉ tx.deletes))).map
        (Keyed.patch Row.id tx.updates)) := by
    rw [hkept]
    refine mapM_eq_ok_map fun r hr => ?_
    rw [visibleRow_eq, Row.clone_eq_ok]
    refine ⟨?_, rfl⟩
    rw [Keyed.patch]
    cases hfind : tx.updates.find? (fun u => decide (u.id = r.id)) with
    | none => exact hbase.conform r (mem_of_mem_filter hr)
    | some u => exact htable ▸ ht.updates_conform u (mem_of_find?_eq_some hfind)
  have hinserted : (tx.inserts.mapM fun row => do row.clone (← store).table) = .ok tx.inserts := by
    rw [hs]
    exact mapM_clone_eq_ok.2 ⟨ht.inserts_conform, rfl⟩
  rw [scanWithBase, ensureActive_eq_ok.2 ha, ok_bind, hcommitted, ok_bind,
    hinserted]
  rfl

/-- **The rows a transaction shows have ids of their own, all in sight.** -/
theorem view_ids {base : RowStore} (hbase : base.Valid) (hord : tx.Ordered)
    (hp : tx.Parted base.nextId) :
    ((tx.view base.rows).map Row.id).Nodup ∧
      ∀ r ∈ tx.view base.rows, tx.Sees base.nextId r.id := by
  refine ⟨?_, fun r hr => ?_⟩
  · refine Keyed.nodup_overlay hbase.distinct hord.inserts_nodup fun r hr hmem => ?_
    obtain ⟨r', hr', he⟩ := mem_map.1 hmem
    have hlt := he ▸ hbase.below r' hr'
    exact UInt64.lt_irrefl _
      (UInt64.lt_of_lt_of_le hlt (hp.inserts _ (mem_map_of_mem hr)))
  · rcases Keyed.mem_overlay.1 hr with ⟨r', hr', -, rfl⟩ | hr
    · have hid : (Keyed.patch Row.id tx.updates r').id = r'.id := Keyed.key_patch tx.updates r'
      exact Or.inl (hid ▸ hbase.below r' hr')
    · exact Or.inr (mem_map_of_mem hr)

/-! ## What a change shows -/

/-- No insert stands under the id of a committed row. -/
def Apart (tx : Transaction) (base : List Row) : Prop := ∀ i ∈ tx.insertIds, i ∉ base.map Row.id

theorem Parted.apart {base : RowStore} (hbase : base.Valid) (hp : tx.Parted base.nextId) :
    tx.Apart base.rows := by
  intro i hi hmem
  obtain ⟨r, hr, rfl⟩ := mem_map.1 hmem
  exact UInt64.lt_irrefl _ (UInt64.lt_of_lt_of_le (hbase.below r hr) (hp.inserts _ hi))

/-- **An insert shows at the end.** -/
theorem view_insert (base : List Row) (h : tx.insert store values = .ok (id, tx')) :
    tx'.view base = tx.view base ++ [⟨id, values⟩] := by
  obtain ⟨-, s, -, -, rfl, n, -, rfl⟩ := insert_eq_ok.1 h
  exact Keyed.overlay_append

/-- **An update shows where the row stands.** -/
theorem view_update {base : List Row} (hord : tx.Ordered) (hapart : tx.Apart base)
    (h : tx.update store id values = .ok tx') :
    tx'.view base = (tx.view base).map fun r => if r.id = id then ⟨id, values⟩ else r := by
  obtain ⟨-, s, -, -, ⟨hid, rfl⟩ | ⟨hid, -, -, rfl⟩⟩ :=
    (update_eq_ok hord.inserts_nodup hord.updates_nodup).1 h
  · exact @Keyed.overlay_upsert_inserted _ _ _ Row.id _ _ _ _ ⟨id, values⟩ hid (hapart id hid)
  · exact @Keyed.overlay_upsert_updated _ _ _ Row.id _ _ _ _ ⟨id, values⟩ hid

/-- **A delete takes the row out.** -/
theorem view_delete {base : List Row} (hord : tx.Ordered) (hapart : tx.Apart base)
    (h : tx.delete store id = .ok tx') :
    tx'.view base = (tx.view base).filter fun r => decide (r.id ≠ id) := by
  obtain ⟨-, ⟨hid, rfl⟩ | ⟨hid, s, -, -, -, rfl⟩⟩ :=
    (delete_eq_ok hord.inserts_nodup hord.updates_nodup).1 h
  · exact Keyed.overlay_filter_inserted (hapart id hid)
  · exact Keyed.overlay_delete hid

/-- The ids in view: those committed and not deleted, and those reserved. -/
theorem mem_ids_view {base : List Row} :
    id ∈ (tx.view base).map Row.id ↔
      id ∈ tx.insertIds ∨ id ∈ base.map Row.id ∧ id ∉ tx.deletes := by
  rw [view, Keyed.map_key_overlay, mem_append, mem_filter, decide_eq_true_iff, or_comm]
  rfl

end Transaction

end Shoveler
