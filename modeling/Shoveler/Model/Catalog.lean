import Shoveler.Common.Outcome
import Shoveler.Common.Keyed
import Shoveler.Model.Value

/-!
# The catalog

Table definitions and the catalog of `catalog.zig`. A definition is made
by `TableDef.init` only, which checks the columns and the indexes it is
given and then normalises the columns: a key or `AUTO_INCREMENT` column
is not nullable, and the columns of the primary index are key columns
whatever their own specification says. `TableDef.WellFormed` is what
those checks and that normalisation leave behind, and a `TableDef`
carries it.
-/

namespace Shoveler

open Outcome

/-! ## Column types -/

/-- `VectorType`. -/
structure VectorType where
  elementType : VectorElementType := .float32
  dimension : ℕ
deriving DecidableEq, Repr

/-- `VectorType.validate`. -/
def VectorType.validate (self : VectorType) : Result Unit :=
  if self.dimension = 0 then .error .invalidVectorDimension else .ok ()

/-- `ColumnType`. -/
inductive ColumnType where
  | integer
  | float
  | boolean
  | text
  | blob
  | vector (vectorType : VectorType)
deriving DecidableEq, Repr

/-- `ColumnType.validate`. -/
def ColumnType.validate : ColumnType → Result Unit
  | .vector vectorType => vectorType.validate
  | _ => .ok ()

/-- `ColumnType.acceptsValue`. -/
def ColumnType.acceptsValue : ColumnType → Value → Result Unit
  | .integer, .integer _ => .ok ()
  | .float, .float _ => .ok ()
  | .boolean, .boolean _ => .ok ()
  | .text, .text _ => .ok ()
  | .blob, .blob _ => .ok ()
  | .vector vectorType, .vector v =>
    if v.elementType ≠ vectorType.elementType ∨ v.dimension ≠ vectorType.dimension then
      .error .vectorDimensionMismatch
    else .ok ()
  | _, _ => .error .typeMismatch

/-! ## Columns and indexes -/

/-- `ColumnSpec`. -/
structure ColumnSpec where
  name : Bytes
  columnType : ColumnType
  nullable : Bool := true
  defaultValue : Option Value := none
  primaryKey : Bool := false
  autoIncrement : Bool := false
deriving DecidableEq, Repr

/-- `ColumnDef`. -/
structure ColumnDef where
  name : Bytes
  columnType : ColumnType
  nullable : Bool := true
  defaultValue : Option Value := none
  primaryKey : Bool := false
  autoIncrement : Bool := false
deriving DecidableEq, Repr

/-- `effectiveNullable`. -/
def effectiveNullable (spec : ColumnSpec) : Bool :=
  spec.nullable && !spec.primaryKey && !spec.autoIncrement

/-- The default check of `ColumnDef.init`. -/
def checkDefault (spec : ColumnSpec) : Result Unit :=
  match spec.defaultValue with
  | none => .ok ()
  | some .null => if effectiveNullable spec then .ok () else .error .typeMismatch
  | some default => spec.columnType.acceptsValue default

/-- `ColumnDef.init`. -/
def ColumnDef.init (spec : ColumnSpec) : Result ColumnDef := do
  spec.columnType.validate
  checkDefault spec
  return {
    name := spec.name
    columnType := spec.columnType
    nullable := effectiveNullable spec
    defaultValue := spec.defaultValue
    primaryKey := spec.primaryKey
    autoIncrement := spec.autoIncrement }

/-- `ColumnDef.validateValue`. -/
def ColumnDef.validateValue (self : ColumnDef) (value : Value) : Result Unit :=
  match value with
  | .null => if self.nullable then .ok () else .error .typeMismatch
  | value => self.columnType.acceptsValue value

/-- `IndexKind`. -/
inductive IndexKind where
  | primary
  | secondary
deriving DecidableEq, Repr

/-- `primary_index_name`. -/
def primaryIndexName : Bytes := ascii "PRIMARY"

/-- `IndexSpec`. -/
structure IndexSpec where
  name : Option Bytes := none
  columns : List Bytes
  kind : IndexKind := .secondary
deriving DecidableEq, Repr

/-- `IndexDef`. -/
structure IndexDef where
  name : Bytes
  columns : List Bytes
  kind : IndexKind := .secondary
deriving DecidableEq, Repr

/-- `IndexDef.init`: a nameless index is called after its kind or its
first column. -/
def IndexDef.init (spec : IndexSpec) : Result IndexDef :=
  match spec.columns with
  | [] => .error .unknownObject
  | first :: _ =>
    let name := spec.name.getD (if spec.kind = .primary then primaryIndexName else first)
    .ok { name := name, columns := spec.columns, kind := spec.kind }

/-! ## Table definitions -/

/-- `TableSpec`. -/
structure TableSpec where
  name : Bytes
  columns : List ColumnSpec
  indexes : List IndexSpec := []
deriving DecidableEq, Repr

/-- `validateColumns`, with the columns already passed. -/
def validateColumns (previous : List ColumnSpec) : List ColumnSpec → Result Unit
  | [] => .ok ()
  | column :: rest => do
    column.columnType.validate
    if column.autoIncrement ∧ column.columnType ≠ .integer then .error .typeMismatch
    else if previous.any fun p => namesEqual column.name p.name then .error .duplicateColumn
    else validateColumns (previous ++ [column]) rest

/-- `columnIndexInSpecs`. -/
def columnIndexInSpecs (columns : List ColumnSpec) (name : Bytes) : Option ℕ :=
  columns.findIdx? fun column => namesEqual column.name name

/-- The name comparison of `validateIndexes`, between explicit names. -/
def sameExplicitName (index previous : IndexSpec) : Bool :=
  match index.name, previous.name with
  | some name, some previousName => namesEqual name previousName
  | _, _ => false

/-- `validateIndexes`, with the indexes already passed and the number of
primary ones among them. -/
def validateIndexes (columns : List ColumnSpec) (previous : List IndexSpec) (primaryCount : ℕ) :
    List IndexSpec → Result Unit
  | [] => .ok ()
  | index :: rest =>
    let primaryCount := if index.kind = .primary then primaryCount + 1 else primaryCount
    if primaryCount > 1 then .error .duplicateObject
    else if previous.any (sameExplicitName index) then .error .duplicateObject
    else if index.columns.any fun name => (columnIndexInSpecs columns name).isNone then
      .error .unknownObject
    else validateIndexes columns (previous ++ [index]) primaryCount rest

/-- What the primary index makes of a column it names. -/
def ColumnDef.markPrimary (self : ColumnDef) : ColumnDef :=
  { self with primaryKey := true, nullable := false }

/-- The inner loop of `TableDef.init`: mark the columns of the primary
index. -/
def markPrimaryColumns (specs : List ColumnSpec) :
    List Bytes → List ColumnDef → Result (List ColumnDef)
  | [], columns => .ok columns
  | name :: rest, columns =>
    match columnIndexInSpecs specs name with
    | none => .error .unknownObject
    | some index => markPrimaryColumns specs rest (columns.modify index ColumnDef.markPrimary)

/-- The columns an index makes key columns: those of a primary one. -/
def IndexSpec.primaryColumns (self : IndexSpec) : List Bytes :=
  if self.kind = .primary then self.columns else []

/-- The index loop of `TableDef.init`. -/
def buildIndexes (specs : List ColumnSpec) :
    List IndexSpec → List ColumnDef → Result (List ColumnDef × List IndexDef)
  | [], columns => .ok (columns, [])
  | spec :: rest, columns => do
    let index ← IndexDef.init spec
    let columns ← markPrimaryColumns specs spec.primaryColumns columns
    let (columns, indexes) ← buildIndexes specs rest columns
    return (columns, index :: indexes)

/-- The checks and loops of `TableDef.init`, before the definition is put
together. -/
def TableDef.build (spec : TableSpec) : Result (List ColumnDef × List IndexDef) := do
  validateColumns [] spec.columns
  validateIndexes spec.columns [] 0 spec.indexes
  let columns ← spec.columns.mapM ColumnDef.init
  buildIndexes spec.columns spec.indexes columns

/-- A column as `ColumnDef.init` and the marking of primary columns leave
it: a sound type, a default of that type, nullable only where it is no key
and does not count by itself. -/
structure ColumnDef.Sound (c : ColumnDef) : Prop where
  typed : c.columnType.validate = .ok ()
  auto : c.autoIncrement = true → c.columnType = .integer
  default : ∀ v, c.defaultValue = some v → v ≠ .null → c.columnType.acceptsValue v = .ok ()
  nullable : c.nullable = true → c.primaryKey = false ∧ c.autoIncrement = false

/-- The key under which a column is found. -/
def ColumnDef.key (c : ColumnDef) : Bytes := foldCase c.name

/-- **What `TableDef.init` guarantees of the columns and indexes it
accepts.** -/
structure TableDef.WellFormed (columns : List ColumnDef) (indexes : List IndexDef) : Prop where
  sound : ∀ c ∈ columns, c.Sound
  names : (columns.map ColumnDef.key).Nodup
  covered : ∀ i ∈ indexes, i.columns ≠ [] ∧ ∀ n ∈ i.columns, foldCase n ∈ columns.map ColumnDef.key
  onePrimary : indexes.countP (fun i => i.kind = .primary) ≤ 1
  primary : ∀ i ∈ indexes, i.kind = .primary → ∀ n ∈ i.columns, ∀ c ∈ columns,
    c.key = foldCase n → c.primaryKey = true ∧ c.nullable = false

/-! ### The checks, as conditions -/

/-- The key under which a specified column will be found. -/
def ColumnSpec.key (c : ColumnSpec) : Bytes := foldCase c.name

/-- One round of the column checks. -/
theorem validateColumns_cons {previous rest : List ColumnSpec} {c : ColumnSpec} :
    validateColumns previous (c :: rest) = .ok () ↔
      c.columnType.validate = .ok () ∧ (c.autoIncrement = true → c.columnType = .integer) ∧
      c.key ∉ previous.map ColumnSpec.key ∧ validateColumns (previous ++ [c]) rest = .ok () := by
  have hany : (previous.any fun p => namesEqual c.name p.name) = true ↔
      c.key ∈ previous.map ColumnSpec.key := by
    simp only [List.any_eq_true, namesEqual_iff, List.mem_map, ColumnSpec.key]
    exact exists_congr fun p => and_congr_right fun _ => eq_comm
  have hunit : ∀ x : Result Unit, (∃ a, x = .ok a) ↔ x = .ok () := fun x =>
    ⟨fun ⟨_, h⟩ => h, fun h => ⟨(), h⟩⟩
  rw [validateColumns, bind_eq_ok]
  simp only [ite_error_eq_ok, hany, exists_and_right, hunit, Classical.not_and_iff_not_or_not,
    not_not, ne_eq, Classical.or_iff_not_imp_left]

/-- **The column checks pass exactly when every type is sound, only
integers count by themselves, and no name is used twice.** -/
theorem validateColumns_eq_ok {previous columns : List ColumnSpec} :
    validateColumns previous columns = .ok () ↔
      (∀ c ∈ columns, c.columnType.validate = .ok () ∧
        (c.autoIncrement = true → c.columnType = .integer)) ∧
      (∀ c ∈ columns, c.key ∉ previous.map ColumnSpec.key) ∧
      (columns.map ColumnSpec.key).Nodup := by
  induction columns generalizing previous with
  | nil => simp [validateColumns]
  | cons c rest ih =>
    simp only [validateColumns_cons, ih, List.map_append, List.map_cons, List.map_nil,
      List.mem_append, List.mem_singleton, List.forall_mem_cons, List.nodup_cons, not_or]
    constructor
    · rintro ⟨hv, ha, hp, h1, h2, h3⟩
      refine ⟨⟨⟨hv, ha⟩, h1⟩, ⟨hp, fun d hd => (h2 d hd).1⟩, fun hmem => ?_, h3⟩
      obtain ⟨d, hd, he⟩ := List.mem_map.1 hmem
      exact (h2 d hd).2 he
    · rintro ⟨⟨⟨hv, ha⟩, h1⟩, ⟨hp, h2⟩, h3, h4⟩
      exact ⟨hv, ha, hp, h1,
        fun d hd => ⟨h2 d hd, fun he => h3 (he ▸ List.mem_map_of_mem hd)⟩, h4⟩

/-- The names the indexes give themselves. -/
def explicitNames (indexes : List IndexSpec) : List Bytes :=
  indexes.filterMap fun i => i.name.map foldCase

/-- A specified column is found exactly when its name occurs. -/
theorem columnIndexInSpecs_isNone {columns : List ColumnSpec} {name : Bytes} :
    (columnIndexInSpecs columns name).isNone = true ↔ foldCase name ∉ columns.map ColumnSpec.key := by
  rw [Option.isNone_iff_eq_none]
  exact @Keyed.findIdx?_eq_none _ _ _ ColumnSpec.key columns (foldCase name)

theorem any_sameExplicitName {index : IndexSpec} {previous : List IndexSpec} :
    previous.any (sameExplicitName index) = true ↔
      ∃ n, index.name = some n ∧ foldCase n ∈ explicitNames previous := by
  simp only [List.any_eq_true, explicitNames, List.mem_filterMap, Option.map_eq_some_iff]
  cases hn : index.name with
  | none => simp [sameExplicitName, hn]
  | some n =>
    constructor
    · rintro ⟨p, hp, h⟩
      cases hpn : p.name with
      | none => simp [sameExplicitName, hn, hpn] at h
      | some m =>
        simp only [sameExplicitName, hn, hpn, namesEqual_iff] at h
        exact ⟨n, rfl, p, hp, m, hpn, h.symm⟩
    · rintro ⟨n', hn', p, hp, m, hm, h⟩
      obtain rfl := Option.some.inj hn'
      exact ⟨p, hp, by simp only [sameExplicitName, hn, hm, namesEqual_iff, h]⟩

/-- One round of the index checks. -/
theorem validateIndexes_cons {columns : List ColumnSpec} {previous rest : List IndexSpec} {k : ℕ}
    {index : IndexSpec} :
    validateIndexes columns previous k (index :: rest) = .ok () ↔
      k + (if index.kind = .primary then 1 else 0) ≤ 1 ∧
      (∀ n, index.name = some n → foldCase n ∉ explicitNames previous) ∧
      (∀ n ∈ index.columns, foldCase n ∈ columns.map ColumnSpec.key) ∧
      validateIndexes columns (previous ++ [index]) (k + if index.kind = .primary then 1 else 0)
        rest = .ok () := by
  have hcount : (if index.kind = .primary then k + 1 else k) =
      k + if index.kind = .primary then 1 else 0 := by split <;> rfl
  rw [validateIndexes]
  simp only [hcount, ite_error_eq_ok, any_sameExplicitName]
  simp only [List.any_eq_true, columnIndexInSpecs_isNone, Nat.not_lt, gt_iff_lt, not_exists, not_and,
    not_not]

/-- **The index checks pass exactly when there is at most one primary
index, no explicit name is used twice, and every column named exists.** -/
theorem validateIndexes_eq_ok {columns : List ColumnSpec} {previous indexes : List IndexSpec}
    {k : ℕ} (hk : k ≤ 1) :
    validateIndexes columns previous k indexes = .ok () ↔
      k + indexes.countP (fun i => i.kind = .primary) ≤ 1 ∧
      (∀ n ∈ explicitNames indexes, n ∉ explicitNames previous) ∧ (explicitNames indexes).Nodup ∧
      (∀ i ∈ indexes, ∀ n ∈ i.columns, foldCase n ∈ columns.map ColumnSpec.key) := by
  induction indexes generalizing previous k with
  | nil => simpa [validateIndexes, explicitNames] using hk
  | cons index rest ih =>
    have hcons : explicitNames (index :: rest) =
        (index.name.map foldCase).toList ++ explicitNames rest := by
      cases h : index.name <;> simp [explicitNames, h]
    have hsnoc : explicitNames (previous ++ [index]) =
        explicitNames previous ++ (index.name.map foldCase).toList := by
      cases h : index.name <;> simp [explicitNames, h]
    have hcount : (index :: rest).countP (fun i => decide (i.kind = .primary)) =
        (if index.kind = .primary then 1 else 0) + rest.countP (fun i => i.kind = .primary) := by
      rw [List.countP_cons, Nat.add_comm]
      simp only [decide_eq_true_eq]
    rw [validateIndexes_cons, hcons, hcount]
    constructor
    · rintro ⟨hle, hnew, hcols, hrest⟩
      rw [ih hle, hsnoc] at hrest
      obtain ⟨h1, h2, h3, h4⟩ := hrest
      refine ⟨by omega, fun n hn => ?_, ?_, ?_⟩
      · rcases List.mem_append.1 hn with hn | hn
        · obtain ⟨m, hm, rfl⟩ := Option.map_eq_some_iff.1 (Option.mem_toList.1 hn)
          exact hnew m hm
        · exact fun hp => h2 n hn (List.mem_append_left _ hp)
      · refine List.nodup_append.2 ⟨?_, h3, fun a ha b hb he => ?_⟩
        · cases index.name <;> simp
        · exact h2 b hb (List.mem_append_right _ (he ▸ ha))
      · exact List.forall_mem_cons.2 ⟨hcols, h4⟩
    · rintro ⟨hle, hnew, hnodup, hcols⟩
      rw [List.nodup_append] at hnodup
      rw [List.forall_mem_cons] at hcols
      have hle' : k + (if index.kind = .primary then 1 else 0) ≤ 1 := by omega
      refine ⟨hle', fun n hn => ?_, hcols.1, ?_⟩
      · exact hnew _ (List.mem_append_left _ (by simp [hn]))
      · rw [ih hle', hsnoc]
        refine ⟨by omega, fun n hn hmem => ?_, hnodup.2.1, hcols.2⟩
        rcases List.mem_append.1 hmem with hp | hi
        · exact hnew n (List.mem_append_right _ hn) hp
        · exact hnodup.2.2 n hi n hn rfl

/-! ### The marking of primary columns -/

@[simp] theorem ColumnDef.key_markPrimary (c : ColumnDef) : c.markPrimary.key = c.key := rfl

theorem ColumnDef.Sound.markPrimary {c : ColumnDef} (h : c.Sound) : c.markPrimary.Sound where
  typed := h.typed
  auto := h.auto
  default := h.default
  nullable := fun hn => by cases hn

/-- A column as the primary index over the given names leaves it. -/
def ColumnDef.markIn (names : List Bytes) (c : ColumnDef) : ColumnDef :=
  if c.key ∈ names then c.markPrimary else c

@[simp] theorem ColumnDef.key_markIn (names : List Bytes) (c : ColumnDef) :
    (c.markIn names).key = c.key := by
  rw [ColumnDef.markIn]; split <;> rfl

theorem ColumnDef.Sound.markIn {c : ColumnDef} (h : c.Sound) (names : List Bytes) :
    (c.markIn names).Sound := by
  rw [ColumnDef.markIn]
  split
  · exact h.markPrimary
  · exact h

/-- Marking for some names and then for others is marking for both. -/
theorem ColumnDef.markIn_markIn (first second : List Bytes) (c : ColumnDef) :
    (c.markIn first).markIn second = c.markIn (first ++ second) := by
  by_cases h1 : c.key ∈ first
  · by_cases h2 : c.key ∈ second
    · simp [ColumnDef.markIn, h1, h2, ColumnDef.markPrimary]
    · simp [ColumnDef.markIn, h1, h2]
  · by_cases h2 : c.key ∈ second
    · simp [ColumnDef.markIn, h1, h2]
    · simp [ColumnDef.markIn, h1, h2]

section Marking

variable {specs : List ColumnSpec} {columns columns' : List ColumnDef}

/-- **Marking the columns of the primary index marks exactly the columns
it names**, as long as the names of the columns are distinct. -/
theorem markPrimaryColumns_eq_ok (hkeys : columns.map ColumnDef.key = specs.map ColumnSpec.key)
    (hnodup : (columns.map ColumnDef.key).Nodup) {names : List Bytes} :
    markPrimaryColumns specs names columns = .ok columns' ↔
      (∀ n ∈ names, foldCase n ∈ columns.map ColumnDef.key) ∧
      columns' = columns.map (ColumnDef.markIn (names.map foldCase)) := by
  induction names generalizing columns with
  | nil =>
    have hid : ColumnDef.markIn [] = id := funext fun c => by simp [ColumnDef.markIn]
    simp [markPrimaryColumns, hid, eq_comm]
  | cons n rest ih =>
    rw [markPrimaryColumns]
    cases hfind : columnIndexInSpecs specs n with
    | none =>
      have hn : foldCase n ∉ columns.map ColumnDef.key := by
        rw [hkeys, ← columnIndexInSpecs_isNone, hfind]
        rfl
      simp only [reduceCtorEq, List.forall_mem_cons, hn, false_and]
    | some i =>
      have hn : foldCase n ∈ columns.map ColumnDef.key := by
        by_contra hn
        rw [hkeys, ← columnIndexInSpecs_isNone, hfind] at hn
        cases hn
      -- the position found among the specifications is that of the column
      have hi : columns.findIdx? (fun c => decide (c.key = foldCase n)) = some i := by
        have hspec : (specs.map ColumnSpec.key).findIdx? (fun k => decide (k = foldCase n)) = some i := by
          rw [List.findIdx?_map]; exact hfind
        rw [← hkeys, List.findIdx?_map] at hspec
        exact hspec
      have hmod : columns.modify i ColumnDef.markPrimary =
          columns.map (ColumnDef.markIn [foldCase n]) := by
        rw [Keyed.modify_findIdx? hnodup hi]
        exact List.map_congr_left fun c _ => by simp only [ColumnDef.markIn, List.mem_singleton]
      have hkey : (columns.map (ColumnDef.markIn [foldCase n])).map ColumnDef.key =
          columns.map ColumnDef.key := by
        rw [List.map_map]
        exact List.map_congr_left fun c _ => ColumnDef.key_markIn _ c
      simp only [hmod, ih (hkey.trans hkeys) (hkey ▸ hnodup), hkey, List.forall_mem_cons, hn,
        true_and, List.map_map, List.map_cons]
      have hcomp : ColumnDef.markIn (rest.map foldCase) ∘ ColumnDef.markIn [foldCase n] =
          ColumnDef.markIn (foldCase n :: rest.map foldCase) :=
        funext fun c => ColumnDef.markIn_markIn _ _ c
      rw [hcomp]

theorem IndexSpec.primaryColumns_subset (spec : IndexSpec) : spec.primaryColumns ⊆ spec.columns := by
  intro n hn
  rw [IndexSpec.primaryColumns] at hn
  split at hn
  · exact hn
  · cases hn

/-- The names the primary indexes cover. -/
def primaryNames (indexes : List IndexSpec) : List Bytes :=
  indexes.flatMap fun i => i.primaryColumns.map foldCase

/-- **What the index loop makes**: the indexes one by one, and the columns
with those of the primary indexes marked. -/
theorem buildIndexes_eq_ok (hkeys : columns.map ColumnDef.key = specs.map ColumnSpec.key)
    (hnodup : (columns.map ColumnDef.key).Nodup) {indexes : List IndexSpec}
    (hcols : ∀ i ∈ indexes, ∀ n ∈ i.columns, foldCase n ∈ columns.map ColumnDef.key)
    {defs : List IndexDef} :
    buildIndexes specs indexes columns = .ok (columns', defs) ↔
      List.Forall₂ (fun s d => IndexDef.init s = .ok d) indexes defs ∧
      columns' = columns.map (ColumnDef.markIn (primaryNames indexes)) := by
  induction indexes generalizing columns defs with
  | nil =>
    have hid : ColumnDef.markIn [] = id := funext fun c => by simp [ColumnDef.markIn]
    simp [buildIndexes, hid, primaryNames, eq_comm, and_comm]
  | cons spec rest ih =>
    rw [List.forall_mem_cons] at hcols
    have hmark : markPrimaryColumns specs spec.primaryColumns columns =
        .ok (columns.map (ColumnDef.markIn (spec.primaryColumns.map foldCase))) :=
      (markPrimaryColumns_eq_ok hkeys hnodup).2
        ⟨fun n hn => hcols.1 n (spec.primaryColumns_subset hn), rfl⟩
    have hkey : ∀ names, (columns.map (ColumnDef.markIn names)).map ColumnDef.key =
        columns.map ColumnDef.key := fun names => by
      rw [List.map_map]
      exact List.map_congr_left fun c _ => ColumnDef.key_markIn _ c
    have hcomp : ∀ names, (columns.map (ColumnDef.markIn names)).map
        (ColumnDef.markIn (primaryNames rest)) =
        columns.map (ColumnDef.markIn (names ++ primaryNames rest)) := fun names => by
      rw [List.map_map]
      exact List.map_congr_left fun c _ => ColumnDef.markIn_markIn _ _ c
    have hnames : primaryNames (spec :: rest) =
        spec.primaryColumns.map foldCase ++ primaryNames rest := by
      rw [primaryNames, List.flatMap_cons]
      rfl
    rw [buildIndexes, hnames, bind_eq_ok, List.forall₂_cons_left_iff]
    constructor
    · rintro ⟨index, hindex, h⟩
      rw [hmark, ok_bind, bind_eq_ok] at h
      obtain ⟨⟨c, d⟩, hrest, h⟩ := h
      obtain ⟨rfl, rfl⟩ := Prod.mk.inj (Except.ok.inj h)
      obtain ⟨hforall, rfl⟩ := (ih ((hkey _).trans hkeys) (hkey _ ▸ hnodup)
        (by rw [hkey]; exact hcols.2)).1 hrest
      exact ⟨⟨index, d, hindex, hforall, rfl⟩, hcomp _⟩
    · rintro ⟨⟨index, d, hindex, hforall, rfl⟩, rfl⟩
      refine ⟨index, hindex, ?_⟩
      rw [hmark, ok_bind, (ih ((hkey _).trans hkeys) (hkey _ ▸ hnodup)
        (by rw [hkey]; exact hcols.2)).2 ⟨hforall, (hcomp _).symm⟩]
      rfl

end Marking

/-! ### What the checks leave behind -/

/-- What `ColumnDef.init` accepts, and what it makes of it. -/
theorem ColumnDef.init_eq_ok {spec : ColumnSpec} {c : ColumnDef} :
    ColumnDef.init spec = .ok c ↔
      spec.columnType.validate = .ok () ∧ checkDefault spec = .ok () ∧
      c = { name := spec.name, columnType := spec.columnType, nullable := effectiveNullable spec,
            defaultValue := spec.defaultValue, primaryKey := spec.primaryKey,
            autoIncrement := spec.autoIncrement } := by
  simp only [ColumnDef.init, bind_eq_ok, pure_eq_ok, Except.ok.injEq]
  constructor
  · rintro ⟨⟨⟩, hv, ⟨⟩, hd, rfl⟩
    exact ⟨hv, hd, rfl⟩
  · rintro ⟨hv, hd, rfl⟩
    exact ⟨(), hv, (), hd, rfl⟩

/-- The default check, as a condition. -/
theorem checkDefault_eq_ok {spec : ColumnSpec} :
    checkDefault spec = .ok () ↔
      (spec.defaultValue = some .null → effectiveNullable spec = true) ∧
      ∀ v, spec.defaultValue = some v → v ≠ .null → spec.columnType.acceptsValue v = .ok () := by
  rw [checkDefault]
  cases hd : spec.defaultValue with
  | none => simp
  | some v =>
    cases v with
    | null => simp
    | integer | float | boolean | text | blob | vector => simp

theorem ColumnDef.init_sound {spec : ColumnSpec} {c : ColumnDef} (h : ColumnDef.init spec = .ok c)
    (hauto : spec.autoIncrement = true → spec.columnType = .integer) : c.Sound := by
  obtain ⟨hv, hd, rfl⟩ := ColumnDef.init_eq_ok.1 h
  refine ⟨hv, hauto, (checkDefault_eq_ok.1 hd).2, fun hn => ?_⟩
  simp only [effectiveNullable, Bool.and_eq_true, Bool.not_eq_true'] at hn
  exact ⟨hn.1.2, hn.2⟩

/-- An index keeps the columns and the kind it was specified with. -/
theorem IndexDef.init_eq_ok {spec : IndexSpec} {d : IndexDef} (h : IndexDef.init spec = .ok d) :
    spec.columns ≠ [] ∧ d.columns = spec.columns ∧ d.kind = spec.kind ∧
      ∀ n, spec.name = some n → d.name = n := by
  rw [IndexDef.init] at h
  split at h
  · cases h
  · rename_i first rest hcols
    obtain rfl := Except.ok.inj h
    exact ⟨by simp [hcols], rfl, rfl, fun n hn => by simp [hn]⟩

/-- The columns after the first pass stand under the specified names. -/
theorem keys_of_forall₂_init {specs : List ColumnSpec} {columns : List ColumnDef}
    (h : List.Forall₂ (fun s c => ColumnDef.init s = .ok c) specs columns) :
    columns.map ColumnDef.key = specs.map ColumnSpec.key := by
  refine map_eq_of_forall₂ (fun spec c hc => ?_) h
  obtain ⟨-, -, rfl⟩ := ColumnDef.init_eq_ok.1 hc
  rfl

/-- Counting by kind sees the same in the specifications and in the
indexes made of them. -/
theorem countP_primary_of_forall₂ {specs : List IndexSpec} {defs : List IndexDef}
    (h : List.Forall₂ (fun s d => IndexDef.init s = .ok d) specs defs) :
    defs.countP (fun i => i.kind = .primary) = specs.countP (fun i => i.kind = .primary) := by
  induction h with
  | nil => rfl
  | cons hd _ ih =>
    obtain ⟨-, -, hkind, -⟩ := IndexDef.init_eq_ok hd
    rw [List.countP_cons, List.countP_cons, ih, hkind]

/-- **What `TableDef.init` checks and makes**: the checks pass, and the
columns and indexes are those of the specification, one by one, with the
columns of the primary index marked. -/
theorem TableDef.build_eq_ok {spec : TableSpec} {columns : List ColumnDef} {indexes : List IndexDef} :
    TableDef.build spec = .ok (columns, indexes) ↔
      validateColumns [] spec.columns = .ok () ∧
      validateIndexes spec.columns [] 0 spec.indexes = .ok () ∧
      ∃ initial, List.Forall₂ (fun s c => ColumnDef.init s = .ok c) spec.columns initial ∧
        List.Forall₂ (fun s d => IndexDef.init s = .ok d) spec.indexes indexes ∧
        columns = initial.map (ColumnDef.markIn (primaryNames spec.indexes)) := by
  have hloop : ∀ initial, validateColumns [] spec.columns = .ok () →
      validateIndexes spec.columns [] 0 spec.indexes = .ok () →
      List.Forall₂ (fun s c => ColumnDef.init s = .ok c) spec.columns initial →
      (buildIndexes spec.columns spec.indexes initial = .ok (columns, indexes) ↔
        List.Forall₂ (fun s d => IndexDef.init s = .ok d) spec.indexes indexes ∧
        columns = initial.map (ColumnDef.markIn (primaryNames spec.indexes))) := by
    intro initial hcols hidx hinit
    have hkeys := keys_of_forall₂_init hinit
    have hnodup : (initial.map ColumnDef.key).Nodup := hkeys ▸ (validateColumns_eq_ok.1 hcols).2.2
    have hexist := ((validateIndexes_eq_ok (Nat.zero_le 1)).1 hidx).2.2.2
    exact buildIndexes_eq_ok hkeys hnodup (hkeys ▸ hexist)
  simp only [TableDef.build, bind_eq_ok, mapM_eq_ok]
  constructor
  · rintro ⟨⟨⟩, hcols, ⟨⟩, hidx, initial, hinit, hbuild⟩
    exact ⟨hcols, hidx, initial, hinit, (hloop initial hcols hidx hinit).1 hbuild⟩
  · rintro ⟨hcols, hidx, initial, hinit, hbuild⟩
    exact ⟨(), hcols, (), hidx, initial, hinit, (hloop initial hcols hidx hinit).2 hbuild⟩

/-- **What `TableDef.init` accepts is well formed.** -/
theorem TableDef.build_wellFormed {spec : TableSpec} {columns : List ColumnDef}
    {indexes : List IndexDef} (h : TableDef.build spec = .ok (columns, indexes)) :
    TableDef.WellFormed columns indexes := by
  obtain ⟨hcols, hidx, initial, hinit, hdefs, rfl⟩ := TableDef.build_eq_ok.1 h
  obtain ⟨hauto, -, hnames⟩ := validateColumns_eq_ok.1 hcols
  obtain ⟨hprim, -, -, hexist⟩ := (validateIndexes_eq_ok (Nat.zero_le 1)).1 hidx
  have hkeys := keys_of_forall₂_init hinit
  have hmarked : (initial.map (ColumnDef.markIn (primaryNames spec.indexes))).map ColumnDef.key =
      spec.columns.map ColumnSpec.key := by
    rw [← hkeys, List.map_map]
    exact List.map_congr_left fun c _ => ColumnDef.key_markIn _ c
  refine ⟨fun c hc => ?_, hmarked ▸ hnames, fun i hi => ?_, ?_, fun i hi hk n hn c hc he => ?_⟩
  · obtain ⟨c0, hc0, rfl⟩ := List.mem_map.1 hc
    obtain ⟨s, hs, hsc⟩ := exists_left_of_forall₂ hinit hc0
    exact (ColumnDef.init_sound hsc (hauto s hs).2).markIn _
  · obtain ⟨s, hs, hsi⟩ := exists_left_of_forall₂ hdefs hi
    obtain ⟨hne, hcolumns, -, -⟩ := IndexDef.init_eq_ok hsi
    rw [hcolumns, hmarked]
    exact ⟨hne, hexist s hs⟩
  · rw [countP_primary_of_forall₂ hdefs]
    omega
  · obtain ⟨s, hs, hsi⟩ := exists_left_of_forall₂ hdefs hi
    obtain ⟨-, hcolumns, hkind, -⟩ := IndexDef.init_eq_ok hsi
    obtain ⟨c0, -, rfl⟩ := List.mem_map.1 hc
    have hmem : c0.key ∈ primaryNames spec.indexes := by
      rw [ColumnDef.key_markIn] at he
      refine List.mem_flatMap.2 ⟨s, hs, he ▸ List.mem_map_of_mem ?_⟩
      rw [IndexSpec.primaryColumns, if_pos (hkind ▸ hk), ← hcolumns]
      exact hn
    rw [ColumnDef.markIn, if_pos hmem]
    exact ⟨rfl, rfl⟩

/-! ### Definitions -/

/-- `TableDef`, with what `TableDef.init` guarantees of it. -/
structure TableDef where
  name : Bytes
  columns : List ColumnDef
  indexes : List IndexDef
  wellFormed : TableDef.WellFormed columns indexes
deriving DecidableEq

/-- `TableDef.init`. -/
def TableDef.init (spec : TableSpec) : Result TableDef :=
  match h : TableDef.build spec with
  | .error e => .error e
  | .ok (columns, indexes) => .ok ⟨spec.name, columns, indexes, TableDef.build_wellFormed h⟩

theorem TableDef.init_eq_ok {spec : TableSpec} {t : TableDef} :
    TableDef.init spec = .ok t ↔
      TableDef.build spec = .ok (t.columns, t.indexes) ∧ t.name = spec.name := by
  rw [TableDef.init]
  split
  · rename_i e he
    simp [he]
  · rename_i columns indexes h
    simp only [h, Except.ok.injEq, Prod.mk.injEq]
    constructor
    · rintro rfl
      exact ⟨⟨rfl, rfl⟩, rfl⟩
    · rintro ⟨⟨rfl, rfl⟩, hn⟩
      cases t
      simp_all

/-- The key under which a table is found. -/
def TableDef.key (t : TableDef) : Bytes := foldCase t.name

/-- `TableDef.columnIndex`. -/
def TableDef.columnIndex (self : TableDef) (name : Bytes) : Option ℕ :=
  self.columns.findIdx? fun column => namesEqual column.name name

/-- `TableDef.columnAt`. -/
def TableDef.columnAt (self : TableDef) (index : ℕ) : Option ColumnDef := self.columns[index]?

/-- The specification a column is rebuilt from: every flag as it came
out. -/
def ColumnDef.toSpec (self : ColumnDef) : ColumnSpec where
  name := self.name
  columnType := self.columnType
  nullable := self.nullable
  defaultValue := self.defaultValue
  primaryKey := self.primaryKey
  autoIncrement := self.autoIncrement

/-- The specification an index is rebuilt from: its name is explicit. -/
def IndexDef.toSpec (self : IndexDef) : IndexSpec where
  name := some self.name
  columns := self.columns
  kind := self.kind

/-- The specification `cloneTableDef` rebuilds a definition from. -/
def TableDef.toSpec (self : TableDef) : TableSpec where
  name := self.name
  columns := self.columns.map ColumnDef.toSpec
  indexes := self.indexes.map IndexDef.toSpec

/-- `cloneTableDef`. -/
def cloneTableDef (source : TableDef) : Result TableDef := TableDef.init source.toSpec

/-! ## The catalog -/

/-- `ViewDef`. -/
structure ViewDef where
  name : Bytes
  body : Bytes
deriving DecidableEq, Repr

/-- `ProcedureDef`. -/
structure ProcedureDef where
  name : Bytes
  body : Bytes
deriving DecidableEq, Repr

/-- `DatabaseCatalog`. -/
structure DatabaseCatalog where
  tables : List TableDef := []
  views : List ViewDef := []
  procedures : List ProcedureDef := []
deriving DecidableEq

namespace DatabaseCatalog

/-- `findTableIndex`. -/
def findTableIndex (self : DatabaseCatalog) (name : Bytes) : Option ℕ :=
  self.tables.findIdx? fun table => namesEqual table.name name

/-- `findViewIndex`. -/
def findViewIndex (self : DatabaseCatalog) (name : Bytes) : Option ℕ :=
  self.views.findIdx? fun view => namesEqual view.name name

/-- `findProcedureIndex`. -/
def findProcedureIndex (self : DatabaseCatalog) (name : Bytes) : Option ℕ :=
  self.procedures.findIdx? fun procedure => namesEqual procedure.name name

/-- `createTable`. -/
def createTable (self : DatabaseCatalog) (spec : TableSpec) : Result DatabaseCatalog :=
  if (self.findTableIndex spec.name).isSome then .error .duplicateObject
  else if (self.findViewIndex spec.name).isSome ∨ (self.findProcedureIndex spec.name).isSome then
    .error .nameConflict
  else do
    let table ← TableDef.init spec
    return { self with tables := self.tables ++ [table] }

/-- `dropTable`. -/
def dropTable (self : DatabaseCatalog) (name : Bytes) : Result DatabaseCatalog :=
  match self.findTableIndex name with
  | none => .error .unknownObject
  | some index => .ok { self with tables := self.tables.eraseIdx index }

/-- `getTable`. -/
def getTable (self : DatabaseCatalog) (name : Bytes) : Option TableDef :=
  self.tables.find? fun table => namesEqual table.name name

/-- `registerView`. -/
def registerView (self : DatabaseCatalog) (name body : Bytes) : Result DatabaseCatalog :=
  if (self.findViewIndex name).isSome then .error .duplicateObject
  else if (self.findTableIndex name).isSome ∨ (self.findProcedureIndex name).isSome then
    .error .nameConflict
  else .ok { self with views := self.views ++ [⟨name, body⟩] }

/-- `dropView`. -/
def dropView (self : DatabaseCatalog) (name : Bytes) : Result DatabaseCatalog :=
  match self.findViewIndex name with
  | none => .error .unknownObject
  | some index => .ok { self with views := self.views.eraseIdx index }

/-- `registerProcedure`. -/
def registerProcedure (self : DatabaseCatalog) (name body : Bytes) : Result DatabaseCatalog :=
  if (self.findProcedureIndex name).isSome then .error .duplicateObject
  else if (self.findTableIndex name).isSome ∨ (self.findViewIndex name).isSome then
    .error .nameConflict
  else .ok { self with procedures := self.procedures ++ [⟨name, body⟩] }

/-- `dropProcedure`. -/
def dropProcedure (self : DatabaseCatalog) (name : Bytes) : Result DatabaseCatalog :=
  match self.findProcedureIndex name with
  | none => .error .unknownObject
  | some index => .ok { self with procedures := self.procedures.eraseIdx index }

end DatabaseCatalog

/-- The key under which a view definition is found. -/
def ViewDef.key (v : ViewDef) : Bytes := foldCase v.name

/-- The key under which a procedure definition is found. -/
def ProcedureDef.key (p : ProcedureDef) : Bytes := foldCase p.name

/-- All names the catalog uses, of the three kinds. -/
def DatabaseCatalog.keys (c : DatabaseCatalog) : List Bytes :=
  c.tables.map TableDef.key ++ c.views.map ViewDef.key ++ c.procedures.map ProcedureDef.key

namespace DatabaseCatalog

variable {c c' : DatabaseCatalog} {name body : Bytes}

/-- A name is free exactly when none of the three searches finds it. -/
theorem not_mem_keys :
    foldCase name ∉ c.keys ↔
      (c.findTableIndex name).isSome = false ∧ (c.findViewIndex name).isSome = false ∧
        (c.findProcedureIndex name).isSome = false := by
  have htable : (c.findTableIndex name).isSome = false ↔ foldCase name ∉ c.tables.map TableDef.key := by
    rw [← Bool.not_eq_true]
    exact not_congr (Keyed.isSome_findIdx? (l := c.tables))
  have hview : (c.findViewIndex name).isSome = false ↔ foldCase name ∉ c.views.map ViewDef.key := by
    rw [← Bool.not_eq_true]
    exact not_congr (Keyed.isSome_findIdx? (l := c.views))
  have hproc : (c.findProcedureIndex name).isSome = false ↔
      foldCase name ∉ c.procedures.map ProcedureDef.key := by
    rw [← Bool.not_eq_true]
    exact not_congr (Keyed.isSome_findIdx? (l := c.procedures))
  rw [htable, hview, hproc, keys, List.mem_append, List.mem_append, not_or, not_or, and_assoc]

/-- **What `createTable` does**: a free name, a definition that passes,
appended. -/
theorem createTable_eq_ok {spec : TableSpec} :
    c.createTable spec = .ok c' ↔
      foldCase spec.name ∉ c.keys ∧ ∃ table, TableDef.init spec = .ok table ∧
        c' = { c with tables := c.tables ++ [table] } := by
  rw [createTable, ite_error_eq_ok, ite_error_eq_ok, bind_eq_ok,
    not_mem_keys, not_or, Bool.not_eq_true, Bool.not_eq_true, Bool.not_eq_true]
  simp only [pure_eq_ok, Except.ok.injEq]
  constructor
  · rintro ⟨htable, hother, table, hinit, rfl⟩
    exact ⟨⟨htable, hother⟩, table, hinit, rfl⟩
  · rintro ⟨⟨htable, hother⟩, table, hinit, rfl⟩
    exact ⟨htable, hother, table, hinit, rfl⟩

theorem registerView_eq_ok :
    c.registerView name body = .ok c' ↔
      foldCase name ∉ c.keys ∧ c' = { c with views := c.views ++ [⟨name, body⟩] } := by
  rw [registerView, ite_error_eq_ok, ite_error_eq_ok, not_mem_keys, not_or,
    Bool.not_eq_true, Bool.not_eq_true, Bool.not_eq_true, Except.ok.injEq]
  constructor
  · rintro ⟨hview, ⟨htable, hproc⟩, rfl⟩
    exact ⟨⟨htable, hview, hproc⟩, rfl⟩
  · rintro ⟨⟨htable, hview, hproc⟩, rfl⟩
    exact ⟨hview, ⟨htable, hproc⟩, rfl⟩

theorem registerProcedure_eq_ok :
    c.registerProcedure name body = .ok c' ↔
      foldCase name ∉ c.keys ∧ c' = { c with procedures := c.procedures ++ [⟨name, body⟩] } := by
  rw [registerProcedure, ite_error_eq_ok, ite_error_eq_ok, not_mem_keys, not_or,
    Bool.not_eq_true, Bool.not_eq_true, Bool.not_eq_true, Except.ok.injEq]
  constructor
  · rintro ⟨hproc, ⟨htable, hview⟩, rfl⟩
    exact ⟨⟨htable, hview, hproc⟩, rfl⟩
  · rintro ⟨⟨htable, hview, hproc⟩, rfl⟩
    exact ⟨hproc, ⟨htable, hview⟩, rfl⟩

/-- One more table under a free name leaves the names distinct. -/
theorem nodup_keys_table {table : TableDef} (h : c.keys.Nodup) (hkey : table.key ∉ c.keys) :
    (keys { c with tables := c.tables ++ [table] }).Nodup := by
  have hperm : (keys { c with tables := c.tables ++ [table] }).Perm (table.key :: c.keys) := by
    simp only [keys, List.map_append, List.map_singleton, List.append_assoc]
    exact List.perm_middle
  exact hperm.nodup_iff.2 (List.nodup_cons.2 ⟨hkey, h⟩)

theorem nodup_keys_view {view : ViewDef} (h : c.keys.Nodup) (hkey : view.key ∉ c.keys) :
    (keys { c with views := c.views ++ [view] }).Nodup := by
  have hperm : (keys { c with views := c.views ++ [view] }).Perm (view.key :: c.keys) := by
    simp only [keys, List.map_append, List.map_singleton, List.append_assoc, List.singleton_append]
    rw [← List.append_assoc, ← List.append_assoc]
    exact List.perm_middle
  exact hperm.nodup_iff.2 (List.nodup_cons.2 ⟨hkey, h⟩)

theorem nodup_keys_procedure {procedure : ProcedureDef} (h : c.keys.Nodup)
    (hkey : procedure.key ∉ c.keys) :
    (keys { c with procedures := c.procedures ++ [procedure] }).Nodup := by
  have hperm : (keys { c with procedures := c.procedures ++ [procedure] }).Perm
      (procedure.key :: c.keys) := by
    simp only [keys, List.map_append, List.map_singleton]
    rw [← List.append_assoc]
    exact List.perm_append_singleton _ _
  exact hperm.nodup_iff.2 (List.nodup_cons.2 ⟨hkey, h⟩)

/-- A view's name is not among those of the tables and of the views before
it. -/
theorem fresh_view (h : c.keys.Nodup) {before after : List ViewDef} {view : ViewDef}
    (hsplit : c.views = before ++ view :: after) :
    view.key ∉ keys { c with views := before, procedures := [] } := by
  rw [keys, hsplit, List.map_append, List.map_cons, List.append_assoc, List.append_assoc,
    List.cons_append, ← List.append_assoc, List.nodup_middle, List.nodup_cons] at h
  intro hbefore
  rw [keys, List.map_nil, List.append_nil] at hbefore
  exact h.1 (List.mem_append_left _ hbefore)

/-- Nor a procedure's among those before it. -/
theorem fresh_procedure (h : c.keys.Nodup) {before after : List ProcedureDef}
    {procedure : ProcedureDef} (hsplit : c.procedures = before ++ procedure :: after) :
    procedure.key ∉ keys { c with procedures := before } := by
  rw [keys, hsplit, List.map_append, List.map_cons, ← List.append_assoc, List.nodup_middle,
    List.nodup_cons] at h
  exact fun hbefore => h.1 (List.mem_append_left _ hbefore)

/-- A table under a free name is found where it was put. -/
theorem getTable_new {table : TableDef} (h : table.key ∉ c.keys) :
    getTable { c with tables := c.tables ++ [table] } table.name = some table := by
  have hnone : c.tables.find? (fun t => namesEqual t.name table.name) = none := by
    refine Keyed.find?_eq_none.2 fun hmem => h ?_
    exact List.mem_append_left _ (List.mem_append_left _ hmem)
  rw [getTable, List.find?_append, hnone]
  simp

end DatabaseCatalog

end Shoveler
