import Shoveler.Query.Sources

/-!
# Queries of a table

A query cuts an identifier at its first point and compares what is behind
it. On identifiers without a point it looks for the column of that name,
and since the names of a table's columns are distinct it finds the column
that `UPDATE` and `DELETE` find (`findColumn_table`).
-/

namespace Shoveler

open Outcome List

/-- Of a list in which a test holds at most once, the places where it
does. -/
theorem zipIdx_filter_of_unique {α : Type} {p : α → Bool} {l : List α}
    (h : l.Pairwise fun a b => ¬(p a = true ∧ p b = true)) (k : ℕ) :
    ((l.zipIdx k).filter fun a => p a.1).map Prod.snd = ((l.findIdx? p).map (· + k)).toList := by
  induction l generalizing k with
  | nil => rfl
  | cons a l ih =>
    obtain ⟨hfirst, hrest⟩ := pairwise_cons.1 h
    rw [zipIdx_cons, findIdx?_cons]
    by_cases ha : p a = true
    · -- no other place is left
      have hnone : ((l.zipIdx (k + 1)).filter fun a => p a.1) = [] := by
        refine filter_eq_nil_iff.2 fun b hb hp => ?_
        exact hfirst b.1 (fst_mem_of_mem_zipIdx hb) ⟨ha, hp⟩
      rw [filter_cons, if_pos ha, hnone, if_pos ha]
      simp
    · rw [filter_cons, if_neg ha, ih hrest, if_neg ha, Option.map_map]
      congr 2
      funext i
      simp only [Function.comp_apply]
      omega

namespace QuerySource

open Ast

/-- The columns of a table, under its name. -/
def tableColumns (table : TableDef) : List ColumnBinding :=
  table.columns.map fun column => ⟨column.name, sourceLabels table.name none⟩

/-- **A name without a point finds the same column.** -/
theorem findColumn_table (table : TableDef) {identifier : Bytes} (h : Byte.dot ∉ identifier) :
    findColumn (tableColumns table) identifier =
      match table.columnIndex identifier with
      | none => .error .unknownColumn
      | some index => .ok index := by
  have hparts : identifierParts identifier = ⟨none, identifier⟩ := if_neg h
  have hanswers : ∀ column : ColumnBinding,
      column.answers ⟨none, identifier⟩ = namesEqual column.name identifier :=
    fun column => Bool.and_true _
  -- two columns with one name would have one key
  have hunique : (tableColumns table).Pairwise fun a b =>
      ¬(namesEqual a.name identifier = true ∧ namesEqual b.name identifier = true) := by
    have hnames := table.wellFormed.names
    rw [List.Nodup, pairwise_map] at hnames
    rw [tableColumns, pairwise_map]
    refine hnames.imp fun hne hboth => hne ?_
    have hleft := namesEqual_iff.1 hboth.1
    have hright := namesEqual_iff.1 hboth.2
    exact hleft.trans hright.symm
  have hindex : (tableColumns table).findIdx? (fun column => namesEqual column.name identifier) =
      table.columnIndex identifier := by
    rw [tableColumns, findIdx?_map]
    rfl
  unfold findColumn
  simp only [hparts, hanswers, zipIdx_filter_of_unique hunique, hindex]
  cases table.columnIndex identifier with
  | none => rfl
  | some index => rfl

/-- The rows at all indices are all the rows. -/
theorem RowSet.map_row_finRange (rowSet : RowSet) :
    (finRange rowSet.rows.length).map rowSet.row = rowSet.rows :=
  map_get_finRange rowSet.rows

/-- Indices picked by their rows. -/
theorem RowSet.map_row_filter (rowSet : RowSet) (p : List Value → Bool) :
    ((finRange rowSet.rows.length).filter fun index => p (rowSet.row index)).map rowSet.row =
      rowSet.rows.filter p := by
  conv_rhs => rw [← rowSet.map_row_finRange]
  rw [filter_map]
  rfl

/-- **A query of a table** takes its rows from it. -/
theorem executeSelect_table {loadBaseTable : Bytes → Result BaseTable}
    {findView : Bytes → Option SelectStatement} {name : Bytes} (hview : findView name = none)
    {statement : SelectStatement} (hsource : statement.source = some (.baseTable name none))
    (hctes : statement.ctes = []) :
    executeSelect loadBaseTable findView statement = (do
      let table ← loadBaseTable name
      selectFrom (rowSetFromBaseTable table none) statement) := by
  let ctx : Context := ⟨loadBaseTable, findView⟩
  let select : Call → Running ResultSet := fun call => some (answer ctx call)
  have hrows : executeSource ctx select [statement.ctes] 0 (.baseTable name none) =
      some ((loadBaseTable name).map (rowSetFromBaseTable · none)) := by
    rw [hctes]
    exact executeNamedSource_base ctx select none rfl hview
  have hanswer := answer_eq ctx ⟨statement, [], 0⟩
  rw [executeSelectScoped] at hanswer
  simp only [hsource] at hanswer
  have hbody := Recursion.bind_liftExcept_of_some hrows fun rowSet => selectFrom rowSet statement
  refine (Option.some.inj (hanswer.symm.trans hbody)).trans ?_
  cases loadBaseTable name with
  | error e => rfl
  | ok table => rfl

end QuerySource

end Shoveler
