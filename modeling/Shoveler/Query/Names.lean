import Mathlib.Data.List.TakeWhile
import Shoveler.Query.Sources

/-!
# Names of columns

The columns of a source are those of its leaves, one leaf after the other
(`columns_meaning`), and all columns of a leaf carry the same labels: the
name the leaf is visible under and, behind an alias, its own name
(`hasLabel_leaf`). An identifier finds a column if it is the only one that
answers (`findColumn_eq_ok`).
-/

namespace Shoveler

open List

namespace QuerySource

open Ast

/-! ## The column an identifier finds -/

theorem zipIdx_filter_eq_findIdxs {α : Type} (p : α → Bool) (l : List α) (k : ℕ) :
    ((l.zipIdx k).filter fun a => p a.1).map Prod.snd = l.findIdxs p k := by
  induction l generalizing k with
  | nil => rfl
  | cons a l ih =>
    rw [zipIdx_cons, filter_cons, findIdxs_cons]
    split
    · rw [map_cons, ih]
    · exact ih (k + 1)

/-- **An identifier finds the only column that answers.** -/
theorem findColumn_eq_ok {columns : List ColumnBinding} {identifier : Bytes} {index : ℕ} :
    findColumn columns identifier = .ok index ↔
      columns.findIdxs (fun column => column.answers (identifierParts identifier)) = [index] := by
  unfold findColumn
  simp only [zipIdx_filter_eq_findIdxs fun column : ColumnBinding =>
    column.answers (identifierParts identifier)]
  split
  · rename_i hnone
    simp [hnone]
  · rename_i found hone
    simp [hone]
  · rename_i hmany hsome
    constructor
    · intro h
      cases h
    · intro h
      exact absurd h (hsome index)

theorem answers_of_findColumn {columns : List ColumnBinding} {identifier : Bytes} {index : ℕ}
    (h : findColumn columns identifier = .ok index) :
    ∃ hlt : index < columns.length, columns[index].answers (identifierParts identifier) = true := by
  have hmem : index ∈ columns.findIdxs fun column => column.answers (identifierParts identifier) := by
    rw [findColumn_eq_ok.1 h]
    exact mem_singleton_self index
  exact mem_findIdxs_iff_exists_getElem_pos.1 hmem

theorem findColumn_lt {columns : List ColumnBinding} {identifier : Bytes} {index : ℕ}
    (h : findColumn columns identifier = .ok index) : index < columns.length :=
  (answers_of_findColumn h).1

/-- `qualifier.name`. -/
def qualified (qualifier name : Bytes) : Bytes := qualifier ++ Byte.dot :: name

/-- A qualifier without a point is cut off where it was put on. -/
theorem identifierParts_qualified {qualifier : Bytes} (h : Byte.dot ∉ qualifier) (name : Bytes) :
    identifierParts (qualified qualifier name) = ⟨some qualifier, name⟩ := by
  have hother : ∀ b ∈ qualifier, (b != Byte.dot) = true := fun b hb =>
    bne_iff_ne.2 fun heq => h (heq ▸ hb)
  have hdot : Byte.dot ∈ qualified qualifier name :=
    mem_append_right _ mem_cons_self
  have htake : (qualified qualifier name).takeWhile (· != Byte.dot) = qualifier := by
    rw [qualified, takeWhile_append_of_pos hother, takeWhile_cons_of_neg (by simp),
      append_nil]
  have hdrop : (qualified qualifier name).dropWhile (· != Byte.dot) = Byte.dot :: name := by
    rw [qualified, dropWhile_append_of_pos hother, dropWhile_cons_of_neg (by simp)]
  rw [identifierParts, if_pos hdot, htake, hdrop]
  rfl

/-- A qualifier with a point in it is cut there, and more than the name is
left. -/
theorem length_lt_of_qualified {qualifier : Bytes} (h : Byte.dot ∈ qualifier) (name : Bytes) :
    name.length < (identifierParts (qualified qualifier name)).name.length := by
  have hrest : qualifier.dropWhile (· != Byte.dot) ≠ [] := by
    intro hnil
    exact absurd (dropWhile_eq_nil_iff.1 hnil _ h) (by simp)
  have hpos := length_pos_of_ne_nil hrest
  have hdot : Byte.dot ∈ qualified qualifier name := mem_append_left _ h
  rw [identifierParts, if_pos hdot, qualified, dropWhile_append,
    if_neg (by rwa [List.isEmpty_iff]), length_tail, length_append, length_cons]
  omega

theorem length_eq_of_namesEqual {a b : Bytes} (h : namesEqual a b = true) :
    a.length = b.length := by
  have hlength := congrArg length (namesEqual_iff.1 h)
  rwa [foldCase, foldCase, length_map, length_map] at hlength

/-- The column that is found has a name as long as the one looked for. -/
theorem length_of_findColumn {columns : List ColumnBinding} {identifier : Bytes} {k : ℕ}
    (h : findColumn columns identifier = .ok k) {column : ColumnBinding}
    (hcolumn : columns[k]? = some column) :
    column.name.length = (identifierParts identifier).name.length := by
  obtain ⟨hlt, hanswers⟩ := answers_of_findColumn h
  rw [getElem?_eq_getElem hlt] at hcolumn
  obtain rfl := Option.some.inj hcolumn
  exact length_eq_of_namesEqual (Bool.and_eq_true_iff.1 hanswers).1

/-! ## The columns of a leaf -/

/-- **The name a leaf is visible under**: its alias, or its own name. -/
def visibleName : RowSource → Option Bytes
  | .baseTable name label => some (label.getD name)
  | .derivedTable _ label => some label
  | .join _ _ _ _ => none

/-- Its own name, where an alias is in front of it. -/
def hiddenName : RowSource → Option Bytes
  | .baseTable name (some _) => some name
  | .baseTable _ none => none
  | .derivedTable _ _ => none
  | .join _ _ _ _ => none

/-- Every table is loaded under the name it is asked for by. -/
def Context.TablesNamed (ctx : Context) : Prop :=
  ∀ name table, ctx.loadBaseTable name = .ok table → namesEqual table.name name = true

variable {ctx : Context} {scope : CteScope} {depth : ℕ}

theorem leaf_cases {source leaf : RowSource} (h : leaf ∈ leaves source) :
    (∃ name label, leaf = .baseTable name label) ∨ ∃ query label, leaf = .derivedTable query label := by
  induction source using RowSource.induction with
  | baseTable name label => exact .inl ⟨name, label, mem_singleton.1 h⟩
  | derivedTable query label => exact .inr ⟨query, label, mem_singleton.1 h⟩
  | join left joinType right on ihleft ihright =>
    rcases mem_append.1 h with h | h
    · exact ihleft h
    · exact ihright h

/-- **The labels of a leaf** are its visible and its hidden name. -/
theorem hasLabel_leaf (hnamed : ctx.TablesNamed) {source leaf : RowSource}
    (hleaf : leaf ∈ leaves source) {rowSet : RowSet}
    (h : sourceRows ctx scope depth leaf = some (.ok rowSet)) {column : ColumnBinding}
    (hcolumn : column ∈ rowSet.columns) (label : Bytes) :
    column.hasLabel label =
      ((visibleName leaf).any (namesEqual · label) || (hiddenName leaf).any (namesEqual · label)) := by
  rcases leaf_cases hleaf with ⟨name, alternative, rfl⟩ | ⟨query, alternative, rfl⟩
  · have hsource : namedSource ctx name alternative scope depth = some (.ok rowSet) := h
    -- the labels hold the name of the table, which may be written in another case
    have hown : ∃ own, namesEqual own label = namesEqual name label ∧
        column.labels = sourceLabels own alternative := by
      rcases executeNamedSource_eq_ok hsource with ⟨call, result, -, rfl⟩ | ⟨table, htable, rfl⟩
      · obtain ⟨_, -, rfl⟩ := mem_map.1 hcolumn
        exact ⟨name, rfl, rfl⟩
      · obtain ⟨_, -, rfl⟩ := mem_map.1 hcolumn
        refine ⟨table.name, ?_, rfl⟩
        rw [namesEqual, namesEqual, namesEqual_iff.1 (hnamed name table htable)]
    obtain ⟨own, hsame, hlabels⟩ := hown
    rw [ColumnBinding.hasLabel, hlabels]
    cases alternative with
    | none => simp [sourceLabels, visibleName, hiddenName, hsame]
    | some alternative => simp [sourceLabels, visibleName, hiddenName, hsame]
  · obtain ⟨call, result, -, rfl⟩ := executeSource_derivedTable h
    obtain ⟨_, -, rfl⟩ := mem_map.1 hcolumn
    simp [ColumnBinding.hasLabel, sourceLabels, visibleName, hiddenName]

/-- **The columns of a source** are those of its leaves. -/
theorem columns_meaning (leaf : RowSource → RowSet) (source : RowSource) :
    (meaning leaf source).columns = (leaves source).flatMap fun s => (leaf s).columns := by
  induction source using RowSource.induction with
  | baseTable name label => exact (append_nil _).symm
  | derivedTable query label => exact (append_nil _).symm
  | join left joinType right on ihleft ihright =>
    rw [leaves, flatMap_append, ← ihleft, ← ihright]
    rfl

end QuerySource

end Shoveler
