import Shoveler.Model.Catalog

/-!
# The row store

The committed rows of one table, as `row_store.zig` keeps them: a list in
insertion order, with the next row id to hand out. Every row that goes in
is checked against the table's columns first (`validateValues`).
-/

namespace Shoveler

open Outcome

/-- `RowId`. -/
abbrev RowId := UInt64

/-- The `id + 1` of the source, which must not leave the id space. -/
def nextAfter (id : RowId) : Result RowId :=
  if id.toNat + 1 < UInt64.size then .ok (id + 1) else .error (.panic .integerOverflow)

/-- `Row`. -/
structure Row where
  id : RowId
  values : List Value
deriving DecidableEq, Repr

/-- The loop of `validateValues`, column by column. -/
def validateEach : List ColumnDef → List Value → Result Unit
  | column :: columns, value :: values => do
    column.validateValue value
    validateEach columns values
  | _, _ => .ok ()

/-- `validateValues`. -/
def validateValues (table : TableDef) (values : List Value) : Result Unit :=
  if values.length ≠ table.columns.length then .error .columnCountMismatch
  else validateEach table.columns values

/-- `Row.init`. Cloning a row (`Row.clone`) is making it again for the
table at hand, and replacing its values (`Row.replaceValues`) is making it
again with others. -/
def Row.init (table : TableDef) (id : RowId) (values : List Value) : Result Row := do
  validateValues table values
  return ⟨id, values⟩

/-- `Row.clone`. -/
def Row.clone (self : Row) (table : TableDef) : Result Row := Row.init table self.id self.values

/-- `RowStore`. -/
structure RowStore where
  table : TableDef
  rows : List Row := []
  nextId : RowId := 1
deriving DecidableEq

namespace RowStore

/-- `RowStore.init`. -/
def init (table : TableDef) : RowStore := { table := table }

/-- `RowStore.clone`. -/
def clone (self : RowStore) : Result RowStore := do
  let rows ← self.rows.mapM fun row => row.clone self.table
  return { table := self.table, rows := rows, nextId := self.nextId }

/-- `findRowIndex`. -/
def findRowIndex (self : RowStore) (id : RowId) : Option ℕ :=
  self.rows.findIdx? fun row => row.id = id

/-- `RowStore.get`. -/
def get (self : RowStore) (id : RowId) : Option Row :=
  self.rows.find? fun row => row.id = id

/-- The next id after a row with the given one went in. -/
def nextIdAfter (self : RowStore) (id : RowId) : Result RowId :=
  if id ≥ self.nextId then nextAfter id else .ok self.nextId

/-- `RowStore.insertWithId`. -/
def insertWithId (self : RowStore) (id : RowId) (values : List Value) : Result RowStore :=
  if (self.findRowIndex id).isSome then .error .duplicateRow
  else do
    let row ← Row.init self.table id values
    let nextId ← self.nextIdAfter id
    return { self with rows := self.rows ++ [row], nextId := nextId }

/-- `RowStore.insert`. -/
def insert (self : RowStore) (values : List Value) : Result (RowId × RowStore) := do
  let id := self.nextId
  let next ← self.insertWithId id values
  return (id, next)

/-- `RowStore.update`. -/
def update (self : RowStore) (id : RowId) (values : List Value) : Result RowStore :=
  match self.findRowIndex id with
  | none => .error .unknownRow
  | some index => do
    let row ← Row.init self.table id values
    return { self with rows := self.rows.set index row }

/-- `RowStore.delete`. -/
def delete (self : RowStore) (id : RowId) : Result RowStore :=
  match self.findRowIndex id with
  | none => .error .unknownRow
  | some index => .ok { self with rows := self.rows.eraseIdx index }

end RowStore

/-! ## Stores in good order -/

/-- A row the table's columns accept. -/
def Row.Conforms (table : TableDef) (row : Row) : Prop := validateValues table row.values = .ok ()

instance (table : TableDef) (row : Row) : Decidable (row.Conforms table) :=
  inferInstanceAs (Decidable (_ = _))

/-- **A store in good order**: its rows fit its table, and their ids are
distinct and below the next one. -/
structure RowStore.Valid (s : RowStore) : Prop where
  conform : ∀ r ∈ s.rows, r.Conforms s.table
  distinct : (s.rows.map Row.id).Nodup
  below : ∀ r ∈ s.rows, r.id < s.nextId

theorem Row.init_eq_ok {table : TableDef} {id : RowId} {values : List Value} {row : Row} :
    Row.init table id values = .ok row ↔
      validateValues table values = .ok () ∧ row = ⟨id, values⟩ := by
  rw [Row.init, bind_eq_ok]
  constructor
  · rintro ⟨⟨⟩, hv, h⟩
    exact ⟨hv, (Except.ok.inj h).symm⟩
  · rintro ⟨hv, rfl⟩
    exact ⟨(), hv, rfl⟩

/-- **A row that fits is cloned as it is.** -/
theorem Row.clone_eq_ok {table : TableDef} {row row' : Row} :
    row.clone table = .ok row' ↔ row.Conforms table ∧ row' = row := by
  rw [Row.clone, Row.init_eq_ok]
  rfl

/-- And rows that fit, all of them. -/
theorem mapM_clone_eq_ok {table : TableDef} {rows rows' : List Row} :
    rows.mapM (fun row => row.clone table) = .ok rows' ↔
      (∀ r ∈ rows, r.Conforms table) ∧ rows' = rows := by
  simp only [mapM_eq_ok, Row.clone_eq_ok]
  constructor
  · intro h
    induction h with
    | nil => exact ⟨fun r hr => (List.not_mem_nil hr).elim, rfl⟩
    | cons hr _ ih =>
      obtain ⟨hc, rfl⟩ := hr
      exact ⟨List.forall_mem_cons.2 ⟨hc, ih.1⟩, by rw [ih.2]⟩
  · rintro ⟨hc, rfl⟩
    exact List.forall₂_same.2 fun r hr => ⟨hc r hr, rfl⟩

theorem nextAfter_eq_ok {id n : RowId} :
    nextAfter id = .ok n ↔ n.toNat = id.toNat + 1 := by
  rw [nextAfter]
  split
  · rename_i h
    have hsucc : (id + 1).toNat = id.toNat + 1 := by
      rw [UInt64.toNat_add]
      exact Nat.mod_eq_of_lt h
    rw [Except.ok.injEq, ← UInt64.toNat_inj, hsucc, eq_comm]
  · rename_i h
    have hn : n.toNat < UInt64.size := n.toNat_lt
    simp only [reduceCtorEq, false_iff]
    omega

namespace RowStore

variable {s s' : RowStore} {id n : RowId} {values : List Value}

/-- The ids of the committed rows. -/
def ids (s : RowStore) : List RowId := s.rows.map Row.id

theorem findRowIndex_isSome : (s.findRowIndex id).isSome = true ↔ id ∈ s.ids :=
  Keyed.isSome_findIdx?

theorem findRowIndex_eq_none : s.findRowIndex id = none ↔ id ∉ s.ids :=
  Keyed.findIdx?_eq_none

theorem get_eq_none : s.get id = none ↔ id ∉ s.ids := Keyed.find?_eq_none

/-- The next id never falls, and stays above the row that went in. -/
theorem nextIdAfter_eq_ok (h : s.nextIdAfter id = .ok n) : s.nextId ≤ n ∧ id < n := by
  rw [nextIdAfter] at h
  split at h
  · rename_i hge
    have hn := nextAfter_eq_ok.1 h
    rw [ge_iff_le, UInt64.le_iff_toNat_le] at hge
    rw [UInt64.le_iff_toNat_le, UInt64.lt_iff_toNat_lt]
    omega
  · rename_i hlt
    obtain rfl := Except.ok.inj h
    exact ⟨UInt64.le_refl _, UInt64.not_le.1 hlt⟩

/-- **What a clone is**: the store itself, where its rows fit. -/
theorem clone_eq_ok : s.clone = .ok s' ↔ (∀ r ∈ s.rows, r.Conforms s.table) ∧ s' = s := by
  simp only [clone, bind_eq_ok, mapM_clone_eq_ok, pure_eq_ok, Except.ok.injEq]
  constructor
  · rintro ⟨rows, ⟨hc, rfl⟩, rfl⟩
    exact ⟨hc, rfl⟩
  · rintro ⟨hc, rfl⟩
    exact ⟨_, ⟨hc, rfl⟩, rfl⟩

/-- **What an insert does**: a fresh id, a row that fits, appended. -/
theorem insertWithId_eq_ok :
    s.insertWithId id values = .ok s' ↔
      id ∉ s.ids ∧ validateValues s.table values = .ok () ∧
      ∃ n, s.nextIdAfter id = .ok n ∧
        s' = { s with rows := s.rows ++ [⟨id, values⟩], nextId := n } := by
  simp only [insertWithId, ite_error_eq_ok, findRowIndex_isSome, bind_eq_ok,
    Row.init_eq_ok, pure_eq_ok, Except.ok.injEq]
  constructor
  · rintro ⟨hid, row, ⟨hv, rfl⟩, n, hn, rfl⟩
    exact ⟨hid, hv, n, hn, rfl⟩
  · rintro ⟨hid, hv, n, hn, rfl⟩
    exact ⟨hid, _, ⟨hv, rfl⟩, n, hn, rfl⟩

/-- **What an update does**, under distinct ids: the row with the id is
replaced where it stands. -/
theorem update_eq_ok (hd : s.ids.Nodup) :
    s.update id values = .ok s' ↔
      id ∈ s.ids ∧ validateValues s.table values = .ok () ∧
      s' = { s with rows := s.rows.map fun r => if r.id = id then ⟨id, values⟩ else r } := by
  rw [update]
  cases hfind : s.findRowIndex id with
  | none => simp [findRowIndex_eq_none.1 hfind]
  | some i =>
    have hmem : id ∈ s.ids := findRowIndex_isSome.1 (by rw [hfind]; rfl)
    simp only [bind_eq_ok, Row.init_eq_ok, pure_eq_ok, Except.ok.injEq, hmem, true_and]
    constructor
    · rintro ⟨row, ⟨hv, rfl⟩, rfl⟩
      exact ⟨hv, by rw [Keyed.set_findIdx? hd hfind]⟩
    · rintro ⟨hv, rfl⟩
      exact ⟨_, ⟨hv, rfl⟩, by rw [Keyed.set_findIdx? hd hfind]⟩

/-- **What a delete does**, under distinct ids: the row with the id goes. -/
theorem delete_eq_ok (hd : s.ids.Nodup) :
    s.delete id = .ok s' ↔
      id ∈ s.ids ∧ s' = { s with rows := s.rows.filter fun r => decide (r.id ≠ id) } := by
  rw [delete]
  cases hfind : s.findRowIndex id with
  | none => simp [findRowIndex_eq_none.1 hfind]
  | some i =>
    have hmem : id ∈ s.ids := findRowIndex_isSome.1 (by rw [hfind]; rfl)
    simp only [Except.ok.injEq, hmem, true_and, Keyed.eraseIdx_findIdx? hd hfind]
    exact eq_comm

/-! ### Good order is kept -/

theorem Valid.init (table : TableDef) : (RowStore.init table).Valid where
  conform := fun _ hr => by cases hr
  distinct := List.nodup_nil
  below := fun _ hr => by cases hr

theorem Valid.clone (hs : s.Valid) : s.clone = .ok s := clone_eq_ok.2 ⟨hs.conform, rfl⟩

theorem Valid.insertWithId (hs : s.Valid) (h : s.insertWithId id values = .ok s') : s'.Valid := by
  obtain ⟨hid, hv, n, hn, rfl⟩ := insertWithId_eq_ok.1 h
  obtain ⟨hle, hlt⟩ := nextIdAfter_eq_ok hn
  refine ⟨?_, ?_, ?_⟩
  · exact List.forall_mem_append.2 ⟨hs.conform, by simpa [Row.Conforms] using hv⟩
  · exact Keyed.nodup_append_new hs.distinct hid
  · exact List.forall_mem_append.2
      ⟨fun r hr => UInt64.lt_of_lt_of_le (hs.below r hr) hle, by simpa using hlt⟩

theorem Valid.update (hs : s.Valid) (h : s.update id values = .ok s') : s'.Valid := by
  obtain ⟨hid, hv, rfl⟩ := (update_eq_ok hs.distinct).1 h
  refine ⟨fun r hr => ?_, ?_, fun r hr => ?_⟩
  · obtain ⟨r0, hr0, rfl⟩ := List.mem_map.1 hr
    split
    · exact hv
    · exact hs.conform r0 hr0
  · have hkeys := Keyed.map_key_replace (l := s.rows) (rfl : Row.id ⟨id, values⟩ = id)
    exact hkeys ▸ hs.distinct
  · obtain ⟨r0, hr0, rfl⟩ := List.mem_map.1 hr
    split
    · rename_i he
      exact he ▸ hs.below r0 hr0
    · exact hs.below r0 hr0

theorem Valid.delete (hs : s.Valid) (h : s.delete id = .ok s') : s'.Valid := by
  obtain ⟨hid, rfl⟩ := (delete_eq_ok hs.distinct).1 h
  refine ⟨fun r hr => hs.conform r (List.mem_of_mem_filter hr), ?_,
    fun r hr => hs.below r (List.mem_of_mem_filter hr)⟩
  exact hs.distinct.sublist (List.filter_sublist.map _)

end RowStore

end Shoveler
