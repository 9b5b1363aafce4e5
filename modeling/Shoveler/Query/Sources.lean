import Mathlib.Data.List.ProdSigma
import Shoveler.Query.Calls

/-!
# The rows of a source

What stands behind `FROM` is a tree of joins whose leaves are tables,
views, common table expressions and derived tables. Executing it executes
every leaf once and puts the row sets together from there on, so a property
of the whole source is one of its leaves and of one join. Two such
properties are here: what a tree of joins means (`meaning`), and that rows
have a value for each column (`Fits`), which goes through queries as well.
-/

namespace Shoveler

open Outcome List

/-- **The rows of a table have its columns.** -/
def BaseTable.Fits (self : BaseTable) : Prop :=
  ∀ row ∈ self.rows, row.values.length = self.columns.length

/-- The rows of a result have its columns. -/
def ResultSet.Fits (self : ResultSet) : Prop := ∀ row ∈ self.rows, row.length = self.columns.length

namespace QuerySource

open Ast

variable {ctx : Context} {scope : CteScope} {depth : ℕ} {select : Call → Running ResultSet}
  {row : List Value} {rowSet : RowSet} {statement : SelectStatement}

/-- `executeSource`, for good. -/
def sourceRows (ctx : Context) (scope : CteScope) (depth : ℕ) (source : RowSource) :
    Option (Result RowSet) :=
  executeSource ctx (fun call => some (answer ctx call)) scope depth source

/-- The leaves of a tree of joins, from left to right. -/
def leaves : RowSource → List RowSource
  | .baseTable name label => [.baseTable name label]
  | .derivedTable query label => [.derivedTable query label]
  | .join left _ right _ => leaves left ++ leaves right

/-- **A named source is the result of a query or a table.** -/
theorem executeNamedSource_eq_ok {name : Bytes} {label : Option Bytes}
    (h : executeNamedSource ctx select name label scope depth = some (.ok rowSet)) :
    (∃ call result, select call = some (.ok result) ∧ rowSet = rowSetFromResult result name label) ∨
      ∃ table, ctx.loadBaseTable name = .ok table ∧ rowSet = rowSetFromBaseTable table label := by
  have hquery : ∀ call, (do
      let result ← select call
      return rowSetFromResult result name label : Running RowSet) = some (.ok rowSet) →
        ∃ call result, select call = some (.ok result) ∧
          rowSet = rowSetFromResult result name label := by
    intro call hcall
    rcases Recursion.bind_eq_some.1 hcall with ⟨e, -, hcall⟩ | ⟨result, hresult, hcall⟩
    · cases hcall
    · exact ⟨call, result, hresult, (Except.ok.inj (Option.some.inj hcall)).symm⟩
  cases hcte : findCte name scope with
  | some found =>
    rw [executeNamedSource_cte _ _ _ hcte] at h
    exact .inl (hquery _ h)
  | none =>
    cases hview : ctx.findView name with
    | none =>
      rw [executeNamedSource_base _ _ _ hcte hview] at h
      obtain ⟨table, htable, rfl⟩ := map_eq_ok.1 (Option.some.inj h)
      exact .inr ⟨table, htable, rfl⟩
    | some query =>
      by_cases hdepth : depth ≥ 8
      · rw [executeNamedSource_deep _ _ _ hcte hview hdepth] at h
        cases h
      · rw [executeNamedSource_view _ _ _ hcte hview hdepth] at h
        exact .inl (hquery _ h)

/-- A derived table is the result of its query. -/
theorem executeSource_derivedTable {query : SelectStatement} {label : Bytes}
    (h : executeSource ctx select scope depth (.derivedTable query label) = some (.ok rowSet)) :
    ∃ call result, select call = some (.ok result) ∧
      rowSet = rowSetFromResult result label none := by
  rcases Recursion.bind_eq_some.1 h with ⟨e, -, h⟩ | ⟨result, hresult, h⟩
  · cases h
  · exact ⟨_, result, hresult, (Except.ok.inj (Option.some.inj h)).symm⟩

/-- A join is executed after both of its sides. -/
theorem executeSource_join {left right : RowSource} {joinType : JoinType} {on : Option Expression}
    (h : executeSource ctx select scope depth (.join left joinType right on) = some (.ok rowSet)) :
    ∃ l r, executeSource ctx select scope depth left = some (.ok l) ∧
      executeSource ctx select scope depth right = some (.ok r) ∧
      joinSources l joinType r on = .ok rowSet := by
  rcases Recursion.bind_eq_some.1 h with ⟨e, -, h⟩ | ⟨l, hl, h⟩
  · cases h
  rcases Recursion.bind_eq_some.1 h with ⟨e, -, h⟩ | ⟨r, hr, h⟩
  · cases h
  exact ⟨l, r, hl, hr, Option.some.inj ((Recursion.liftExcept_eq_some _).symm.trans h)⟩

/-! ## The meaning of a join -/

/-- **`ON` is true of a row**; without it, it is true of every row. -/
def Meets (columns : List ColumnBinding) (on : Option Expression) (row : List Value) : Prop :=
  matchesWhere columns row on = .ok true

instance (columns : List ColumnBinding) (on : Option Expression) :
    DecidablePred (Meets columns on) :=
  fun _ => inferInstanceAs (Decidable (_ = _))

/-- The rows that a left row makes with the right rows it meets. -/
def partners (left right : RowSet) (on : Option Expression) (row : List Value) :
    List (List Value) :=
  (right.rows.map fun rightRow => row ++ rightRow).filter fun combined =>
    decide (Meets (left.columns ++ right.columns) on combined)

/-- A row without a right row: one `NULL` for each right column. -/
def extended (right : RowSet) (row : List Value) : List Value :=
  row ++ replicate right.columns.length .null

/-- **The meaning of a join.** For `INNER` and `CROSS` the pairs of a left
and a right row for which `ON` is true, by the left row and then by the
right row; for `LEFT` the same, with a left row that meets none at its
place. -/
def joined (left : RowSet) (joinType : JoinType) (right : RowSet) (on : Option Expression) :
    RowSet where
  columns := left.columns ++ right.columns
  rows :=
    match joinType with
    | .inner | .cross =>
      ((left.rows ×ˢ right.rows).map fun pair => pair.1 ++ pair.2).filter fun combined =>
        decide (Meets (left.columns ++ right.columns) on combined)
    | .left =>
      left.rows.flatMap fun row =>
        if partners left right on row = [] then [extended right row]
        else partners left right on row

/-- **The meaning of a tree of joins**, for what its leaves hold. -/
def meaning (leaf : RowSource → RowSet) : RowSource → RowSet
  | .baseTable name label => leaf (.baseTable name label)
  | .derivedTable query label => leaf (.derivedTable query label)
  | .join left joinType right on => joined (meaning leaf left) joinType (meaning leaf right) on

section Join

variable {left right : RowSet} {joinType : JoinType} {on : Option Expression}

/-- The pairs, one left row after the other. -/
theorem filter_product_eq (left right : RowSet) (on : Option Expression) :
    ((left.rows ×ˢ right.rows).map fun pair => pair.1 ++ pair.2).filter
        (fun combined => decide (Meets (left.columns ++ right.columns) on combined)) =
      left.rows.flatMap (partners left right on) := by
  rw [show left.rows ×ˢ right.rows =
    left.rows.flatMap fun row => right.rows.map (Prod.mk row) from rfl]
  rw [map_flatMap, filter_flatMap]
  refine flatMap_congr fun row _ => ?_
  rw [map_map]
  rfl

/-- What the outer loop adds for a left row. -/
def addedFor (left : RowSet) (joinType : JoinType) (right : RowSet) (on : Option Expression)
    (row : List Value) : List (List Value) :=
  if joinType = .left ∧ partners left right on row = [] then [extended right row]
  else partners left right on row

theorem joinRow_eq_ok {rows : List (List Value)}
    (h : joinRow (left.columns ++ right.columns) joinType on right row = .ok rows) :
    rows = addedFor left joinType right on row := by
  obtain ⟨found, hfound, h⟩ := bind_eq_ok.1 h
  have hpartners : found = partners left right on row := eq_filter_of_keep hfound
  rw [hpartners] at h
  unfold addedFor
  split at h
  · rw [if_pos (by assumption)]
    exact (Except.ok.inj h).symm
  · rw [if_neg (by assumption)]
    exact (Except.ok.inj h).symm

/-- The rows of the meaning, one left row after the other. -/
theorem rows_joined (left : RowSet) (joinType : JoinType) (right : RowSet)
    (on : Option Expression) :
    (joined left joinType right on).rows = left.rows.flatMap (addedFor left joinType right on) := by
  have hpairs : joinType ≠ .left → left.rows.flatMap (partners left right on) =
      left.rows.flatMap (addedFor left joinType right on) := fun hne =>
    flatMap_congr fun row _ => (if_neg fun hboth => hne hboth.1).symm
  cases joinType with
  | inner => exact (filter_product_eq left right on).trans (hpairs (by decide))
  | cross => exact (filter_product_eq left right on).trans (hpairs (by decide))
  | left =>
    refine flatMap_congr fun row _ => ?_
    simp only [addedFor, true_and]

/-- **A join that succeeds gives what it means.** -/
theorem joinSources_eq_ok (h : joinSources left joinType right on = .ok rowSet) :
    rowSet = joined left joinType right on := by
  obtain ⟨_, -, h⟩ := bind_eq_ok.1 h
  obtain ⟨rows, hrows, h⟩ := bind_eq_ok.1 h
  obtain rfl := Except.ok.inj h
  have hmap := map_eq_of_forall₂ (f := addedFor left joinType right on) (g := id)
    (fun _ _ => joinRow_eq_ok) (mapM_eq_ok.1 hrows)
  rw [map_id] at hmap
  rw [hmap, ← flatMap_def, ← rows_joined]
  rfl

/-- **The rows of a join are made of a row of each side**, or for `LEFT` of
a left row and `NULL`s. -/
theorem mem_joined (h : row ∈ (joined left joinType right on).rows) :
    ∃ a ∈ left.rows, ∃ b, row = a ++ b ∧
      (b ∈ right.rows ∨ joinType = .left ∧ b = replicate right.columns.length .null) := by
  rw [rows_joined, mem_flatMap] at h
  obtain ⟨a, ha, h⟩ := h
  unfold addedFor at h
  split at h
  · rename_i hnone
    exact ⟨a, ha, _, mem_singleton.1 h, .inr ⟨hnone.1, rfl⟩⟩
  · obtain ⟨b, hb, rfl⟩ := mem_map.1 (mem_of_mem_filter h)
    exact ⟨a, ha, b, rfl, .inl hb⟩

/-- **A left join keeps every left row.** -/
theorem exists_mem_joined (h : row ∈ left.rows) :
    ∃ b, row ++ b ∈ (joined left .left right on).rows := by
  rw [rows_joined]
  by_cases hnone : partners left right on row = []
  · refine ⟨replicate right.columns.length .null, mem_flatMap.2 ⟨row, h, ?_⟩⟩
    rw [addedFor, if_pos ⟨rfl, hnone⟩]
    exact mem_singleton_self _
  · obtain ⟨combined, hcombined⟩ := exists_mem_of_ne_nil _ hnone
    obtain ⟨b, -, rfl⟩ := mem_map.1 (mem_of_mem_filter hcombined)
    refine ⟨b, mem_flatMap.2 ⟨row, h, ?_⟩⟩
    rw [addedFor, if_neg fun hboth => hnone hboth.2]
    exact hcombined

end Join

/-! ## The meaning of a source -/

/-- What a leaf holds, where it could be executed. -/
def leafRows (ctx : Context) (scope : CteScope) (depth : ℕ) (leaf : RowSource) : RowSet :=
  match sourceRows ctx scope depth leaf with
  | some (.ok rowSet) => rowSet
  | _ => ⟨[], []⟩

theorem leafRows_eq {leaf : RowSource} (h : sourceRows ctx scope depth leaf = some (.ok rowSet)) :
    leafRows ctx scope depth leaf = rowSet := by
  rw [leafRows, h]

/-- **A source that succeeds gives what it means**, and all of its leaves
succeed. -/
theorem sourceRows_eq_ok {source : RowSource}
    (h : sourceRows ctx scope depth source = some (.ok rowSet)) :
    (∀ leaf ∈ leaves source,
      sourceRows ctx scope depth leaf = some (.ok (leafRows ctx scope depth leaf))) ∧
      rowSet = meaning (leafRows ctx scope depth) source := by
  induction source using RowSource.induction generalizing rowSet with
  | baseTable name label =>
    have hrows := leafRows_eq h
    exact ⟨forall_mem_singleton.2 (by rw [hrows, h]), hrows.symm⟩
  | derivedTable query label =>
    have hrows := leafRows_eq h
    exact ⟨forall_mem_singleton.2 (by rw [hrows, h]), hrows.symm⟩
  | join left joinType right on ihleft ihright =>
    obtain ⟨l, r, hl, hr, hjoin⟩ := executeSource_join h
    obtain ⟨hleft, rfl⟩ := ihleft hl
    obtain ⟨hright, rfl⟩ := ihright hr
    exact ⟨forall_mem_append.2 ⟨hleft, hright⟩, joinSources_eq_ok hjoin⟩

/-! ## Widths -/

/-- **The rows of a row set have its columns.** -/
def RowSet.Fits (self : RowSet) : Prop := ∀ row ∈ self.rows, row.length = self.columns.length

/-- The rows of every table have its columns. -/
def Context.TablesFit (ctx : Context) : Prop :=
  ∀ name table, ctx.loadBaseTable name = .ok table → table.Fits

theorem fits_rowSetFromBaseTable {table : BaseTable} (h : table.Fits) (sourceAlias : Option Bytes) :
    (rowSetFromBaseTable table sourceAlias).Fits := by
  refine forall_mem_map.2 fun row hrow => ?_
  rw [rowSetFromBaseTable, length_map]
  exact h row hrow

theorem fits_rowSetFromResult {result : ResultSet} (h : result.Fits) (sourceName : Bytes)
    (sourceAlias : Option Bytes) : (rowSetFromResult result sourceName sourceAlias).Fits := by
  intro row hrow
  rw [rowSetFromResult, length_map]
  exact h row hrow

theorem fits_joined {left right : RowSet} (hleft : left.Fits) (hright : right.Fits)
    (joinType : JoinType) (on : Option Expression) : (joined left joinType right on).Fits := by
  intro row hrow
  obtain ⟨a, ha, b, rfl, hb | ⟨-, rfl⟩⟩ := mem_joined hrow
  · rw [length_append, hleft a ha, hright b hb]
    exact length_append.symm
  · rw [length_append, hleft a ha, length_replicate]
    exact length_append.symm

theorem length_mapM {α β : Type} {f : α → Result β} {l : List α} {r : List β}
    (h : l.mapM f = .ok r) : r.length = l.length :=
  (mapM_eq_ok.1 h).length_eq.symm

/-- A projected row has the columns of the result. -/
theorem length_projectRow {columns : List ColumnBinding} {projected : List Value}
    {projections : List Projection} (hrow : row.length = columns.length)
    (h : projectRow columns row projections = .ok projected) :
    projected.length = (resultColumns columns projections).length := by
  unfold projectRow at h
  unfold resultColumns
  split at h
  · rw [if_pos (by assumption), length_map, ← Except.ok.inj h, hrow]
  · rw [if_neg (by assumption), length_map, length_mapM h]

/-- A query that groups nothing. -/
theorem selectFrom_of_plain (rowSet : RowSet)
    (h : isAggregateSelect statement (projectionItems statement) = false) :
    selectFrom rowSet statement = (do
      let filteredIndices ← filterIndices rowSet statement.whereClause
      validateSelect rowSet.columns statement (projectionItems statement)
      let sorted ← sortUnless
        (fun left right => rowComesAfter rowSet.columns statement (projectionItems statement)
          (rowSet.row left) (rowSet.row right)) statement.orderBy filteredIndices
      let rows ← (limited statement.limit sorted).mapM fun index =>
        projectRow rowSet.columns (rowSet.row index) (projectionItems statement)
      return ⟨resultColumns rowSet.columns (projectionItems statement), rows⟩) := by
  simp only [selectFrom, h, Bool.false_eq_true, if_false]

/-- Nor sorts, nor counts. -/
theorem selectFrom_of_unsorted (rowSet : RowSet)
    (h : isAggregateSelect statement (projectionItems statement) = false)
    (horder : statement.orderBy = []) (hlimit : statement.limit = none) :
    selectFrom rowSet statement = (do
      let filteredIndices ← filterIndices rowSet statement.whereClause
      validateSelect rowSet.columns statement (projectionItems statement)
      let rows ← filteredIndices.mapM fun index =>
        projectRow rowSet.columns (rowSet.row index) (projectionItems statement)
      return ⟨resultColumns rowSet.columns (projectionItems statement), rows⟩) := by
  rw [selectFrom_of_plain rowSet h, horder, hlimit]
  rfl

/-- A query that groups. -/
theorem selectFrom_of_aggregate (rowSet : RowSet)
    (h : isAggregateSelect statement (projectionItems statement) = true) :
    selectFrom rowSet statement = (do
      let filteredIndices ← filterIndices rowSet statement.whereClause
      executeAggregateSelect filteredIndices statement (projectionItems statement)) := by
  simp only [selectFrom, h, if_true]

/-- **A query gives rows of its columns**, where its source does. -/
theorem fits_selectFrom (hfits : rowSet.Fits) {result : ResultSet}
    (h : selectFrom rowSet statement = .ok result) : result.Fits := by
  cases hkind : isAggregateSelect statement (projectionItems statement) with
  | true =>
    rw [selectFrom_of_aggregate rowSet hkind] at h
    obtain ⟨indices, -, h⟩ := bind_eq_ok.1 h
    obtain ⟨_, hvalid, h⟩ := bind_eq_ok.1 h
    obtain ⟨_, -, h⟩ := bind_eq_ok.1 h
    obtain ⟨_, -, h⟩ := bind_eq_ok.1 h
    obtain ⟨_, -, h⟩ := bind_eq_ok.1 h
    obtain ⟨rows, hrows, h⟩ := bind_eq_ok.1 h
    obtain rfl := Except.ok.inj h
    -- a lone star was refused before
    have hstar := (ite_error_eq_ok.1 hvalid).1
    intro row hrow
    obtain ⟨group, -, hgroup⟩ := exists_left_of_forall₂ (mapM_eq_ok.1 hrows) hrow
    rw [length_mapM hgroup, resultColumns, if_neg hstar, length_map]
  | false =>
    rw [selectFrom_of_plain rowSet hkind] at h
    obtain ⟨indices, -, h⟩ := bind_eq_ok.1 h
    obtain ⟨_, -, h⟩ := bind_eq_ok.1 h
    obtain ⟨_, -, h⟩ := bind_eq_ok.1 h
    obtain ⟨rows, hrows, h⟩ := bind_eq_ok.1 h
    obtain rfl := Except.ok.inj h
    intro row hrow
    obtain ⟨index, -, hindex⟩ := exists_left_of_forall₂ (mapM_eq_ok.1 hrows) hrow
    exact length_projectRow (hfits _ (get_mem _ _)) hindex

/-- **A source gives rows of its columns**, where the tables and the calls
do. -/
theorem fits_executeSource (hbase : ctx.TablesFit)
    (hselect : ∀ call result, select call = some (.ok result) → result.Fits) {source : RowSource}
    (h : executeSource ctx select scope depth source = some (.ok rowSet)) :
    rowSet.Fits := by
  induction source using RowSource.induction generalizing rowSet with
  | baseTable name label =>
    rcases executeNamedSource_eq_ok h with ⟨call, result, hresult, rfl⟩ | ⟨table, htable, rfl⟩
    · exact fits_rowSetFromResult (hselect call result hresult) name label
    · exact fits_rowSetFromBaseTable (hbase name table htable) label
  | derivedTable query label =>
    obtain ⟨call, result, hresult, rfl⟩ := executeSource_derivedTable h
    exact fits_rowSetFromResult (hselect call result hresult) label none
  | join left joinType right on ihleft ihright =>
    obtain ⟨l, r, hl, hr, hjoin⟩ := executeSource_join h
    rw [joinSources_eq_ok hjoin]
    exact fits_joined (ihleft hl) (ihright hr) joinType on

/-- **And so does every query**, however its sources call each other. -/
theorem fits_run (hbase : ctx.TablesFit) {n : ℕ} {call : Call} {result : ResultSet}
    (h : run ctx n call = some (.ok result)) : result.Fits := by
  induction n generalizing call result with
  | zero => cases h
  | succ n ih =>
    change executeSelectScoped ctx (run ctx n) call = some (.ok result) at h
    unfold executeSelectScoped at h
    split at h
    · cases h
    · rcases Recursion.bind_eq_some.1 h with ⟨e, -, h⟩ | ⟨rowSet, hrows, h⟩
      · cases h
      · have hselect := Option.some.inj ((Recursion.liftExcept_eq_some _).symm.trans h)
        exact fits_selectFrom (fits_executeSource hbase (fun _ _ => ih) hrows) hselect

theorem fits_sourceRows (hbase : ctx.TablesFit) {source : RowSource}
    (h : sourceRows ctx scope depth source = some (.ok rowSet)) : rowSet.Fits := by
  refine fits_executeSource hbase (fun call result hresult => ?_) h
  obtain ⟨n, hn⟩ := exists_run ctx call
  exact fits_run hbase (hn.trans hresult)

end QuerySource

end Shoveler
