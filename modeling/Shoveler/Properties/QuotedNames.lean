import Shoveler.Frontend.Quoting
import Shoveler.Properties.ReadSchema
import Shoveler.Properties.SessionQueries
import Shoveler.Query.Names

/-!
# Columns under their quoted names

Between backticks a column can have any name. The definition of the table,
the assignments of an `UPDATE` and the clauses of `UPDATE` and `DELETE`
take the name as a whole, and find the column that has it. A query cuts the
name at its first point, so it finds that column exactly where the name has
none (`findColumn_own_name`). Such a name, written in backticks, is the
same column to all of them (`quoted_column_read_back`); a column whose name
has a point in it can be changed by its name but not read
(`dotted_column_unreadable`).
-/

namespace Shoveler

open Outcome Script List

open QuerySource (findColumn tableColumns)
open Sql (quotedToken selectColumn ReadAsName Spells wordToken)

/-! ## The column of a name -/

section Column

variable {table : TableDef} {name : Bytes} {k : ℕ}

/-- **A column is found under its own name.** -/
theorem columnIndex_own_name (h : (table.columns.map ColumnDef.name)[k]? = some name) :
    table.columnIndex name = some k := by
  rw [getElem?_map, Option.map_eq_some_iff] at h
  obtain ⟨column, hcolumn, rfl⟩ := h
  exact Keyed.findIdx?_of_getElem? table.wellFormed.names hcolumn

/-- What stands behind the first point of a name is shorter than the
name. -/
theorem length_identifierParts (h : Byte.dot ∈ name) :
    (Ast.identifierParts name).name.length < name.length := by
  have hpos : 0 < name.length := length_pos_of_mem h
  have hle : (name.dropWhile (· != Byte.dot)).length ≤ name.length :=
    (dropWhile_suffix _).length_le
  rw [Ast.identifierParts, if_pos h, length_tail]
  omega

/-- **A query finds a column under its own name exactly where the name has
no point in it.** -/
theorem findColumn_own_name (h : (table.columns.map ColumnDef.name)[k]? = some name) :
    findColumn (tableColumns table) name = .ok k ↔ Byte.dot ∉ name := by
  constructor
  · intro hfound hdot
    have hcolumns : (tableColumns table).map QuerySource.ColumnBinding.name =
        table.columns.map ColumnDef.name := by
      rw [tableColumns, map_map]
      rfl
    rw [← hcolumns, getElem?_map, Option.map_eq_some_iff] at h
    obtain ⟨column, hcolumn, rfl⟩ := h
    -- the column has the name, but what it is compared with is shorter
    have hlength := QuerySource.length_of_findColumn hfound hcolumn
    have hshorter := length_identifierParts hdot
    omega
  · intro hdot
    rw [QuerySource.findColumn_table table hdot, columnIndex_own_name h]

end Column

/-! ## The query of a column -/

namespace QuerySource

open Ast

section Query

variable {columns : List ColumnBinding} {column : Bytes} {k : ℕ}

/-- A column that is found can be asked for. -/
theorem validateSelect_column (hfound : findColumn columns column = .ok k) (table : Bytes) :
    validateSelect columns (selectColumn column table) [⟨.identifier column, none⟩] = .ok () := by
  have hexpression : validateExpression columns (.identifier column) = .ok () := by
    rw [validateExpression, validateIdentifier, hfound]
    rfl
  change ((do validateExpression columns (.identifier column); pure ()) >>= fun _ => _) = _
  rw [hexpression]
  rfl

/-- And is what a row is projected to. -/
theorem projectRow_column (hfound : findColumn columns column = .ok k) {row : List Value}
    (hlt : k < row.length) :
    projectRow columns row [⟨.identifier column, none⟩] = .ok row[k]?.toList := by
  have hvalue : evalExpression columns row (.identifier column) = .ok (row.get ⟨k, hlt⟩) := by
    rw [evalExpression, resolveIdentifier, hfound, ok_bind, getElem?_eq_getElem hlt]
    rfl
  change ([(⟨.identifier column, none⟩ : Projection)].mapM fun projection =>
    evalExpression columns row projection.expression) = _
  rw [mapM_cons, hvalue, getElem?_eq_getElem hlt]
  rfl

end Query

/-- **The query of a column gives the column of every row.** -/
theorem selectFrom_column {rowSet : RowSet} {column table : Bytes} {k : ℕ}
    (hfound : findColumn rowSet.columns column = .ok k)
    (hlong : ∀ row ∈ rowSet.rows, k < row.length) :
    selectFrom rowSet (selectColumn column table) =
      .ok ⟨[(identifierParts column).name], rowSet.rows.map fun row => row[k]?.toList⟩ := by
  have hall : filterIndices rowSet none = .ok (finRange rowSet.rows.length) :=
    keep_eq_ok.2 ⟨fun _ _ => rfl, (filter_eq_self.2 fun _ _ => rfl).symm⟩
  have hitems : projectionItems (selectColumn column table) = [⟨.identifier column, none⟩] := rfl
  have hwhere : (selectColumn column table).whereClause = none := rfl
  have hrows : ((finRange rowSet.rows.length).mapM fun index =>
      projectRow rowSet.columns (rowSet.row index) [⟨.identifier column, none⟩]) =
        .ok ((finRange rowSet.rows.length).map fun index => (rowSet.row index)[k]?.toList) :=
    mapM_eq_ok_map fun index _ =>
      projectRow_column hfound (hlong (rowSet.row index) (get_mem _ _))
  have hmap : (finRange rowSet.rows.length).map (fun index => (rowSet.row index)[k]?.toList) =
      rowSet.rows.map fun row => row[k]?.toList := by
    conv_rhs => rw [← rowSet.map_row_finRange, map_map]
    rfl
  rw [selectFrom_of_unsorted rowSet rfl rfl rfl, hitems, hwhere, hall, ok_bind,
    validateSelect_column hfound, ok_bind, hrows, ok_bind, hmap]
  rfl

end QuerySource

/-! ## Tables and their columns -/

/-- A definition has the columns of its specification, under their
names. -/
theorem names_of_init {spec : TableSpec} {table : TableDef} (h : TableDef.init spec = .ok table) :
    table.columns.map ColumnDef.name = spec.columns.map ColumnSpec.name := by
  obtain ⟨-, -, initial, hinitial, -, hcolumns⟩ :=
    TableDef.build_eq_ok.1 (TableDef.init_eq_ok.1 h).1
  have hmarked : ∀ column : ColumnDef,
      (column.markIn (primaryNames spec.indexes)).name = column.name := by
    intro column
    rw [ColumnDef.markIn]
    split <;> rfl
  rw [hcolumns, map_map]
  refine (map_congr_left fun column _ => hmarked column).trans ?_
  refine map_eq_of_forall₂ (fun spec column h => ?_) hinitial
  obtain ⟨-, -, rfl⟩ := ColumnDef.init_eq_ok.1 h
  rfl

/-- The specifications of columns have their names, with defaults or
without. -/
theorem names_of_columnSpecs {columns : List Ast.ColumnDef} {specs : List ColumnSpec}
    (h : Database.columnSpecs columns = .ok specs) :
    specs.map ColumnSpec.name = columns.map Ast.ColumnDef.name := by
  refine map_eq_of_forall₂ (fun column spec h => ?_) (mapM_eq_ok.1 h)
  cases hdefault : column.defaultValue with
  | none =>
    simp only [hdefault] at h
    rw [← Except.ok.inj h]
  | some default =>
    simp only [hdefault] at h
    obtain ⟨value, -, h⟩ := bind_eq_ok.1 h
    rw [← Except.ok.inj h]

/-- **A created table has the columns of its statement.** -/
theorem Database.Valid.names_of_createTable {db db' : Database} (h : db.Valid)
    {statement : Ast.CreateTableStatement} (hc : db.createTable statement = .ok db') :
    db' = db ∨ ∃ slot table, db'.getTableState statement.name = some (slot, table) ∧
      table.store.table.columns.map ColumnDef.name =
        statement.columns.map Ast.ColumnDef.name := by
  have hvalid := h.createTable hc
  rcases Database.createTable_eq_ok h hc with rfl | ⟨spec, table, hspec, hinit, hname, -, rfl⟩
  · exact .inl rfl
  · refine .inr ⟨db.tables.length, ⟨table.name, RowStore.init table⟩, ?_, ?_⟩
    · rw [← hname]
      exact getTableState_of_getElem? (t := ⟨table.name, RowStore.init table⟩)
        hvalid.stateKeys_nodup getElem?_concat_length
    · obtain ⟨columns, hcolumns, hspec⟩ := bind_eq_ok.1 hspec
      obtain rfl := Except.ok.inj hspec
      exact (names_of_init hinit).trans (names_of_columnSpecs hcolumns)

/-- **Outside a transaction a table is read as it is.** -/
theorem System.Coherent.load_of_idle {sys : System} (h : sys.Coherent) {i : ℕ}
    (hidle : (sys.sessions i).active = false) {name : Bytes} {slot : ℕ} {table : TableState}
    (ht : sys.db.getTableState name = some (slot, table)) :
    loadBaseTable sys.db (sys.sessions i) name =
      .ok ⟨table.store.table.name, table.store.table.columns, table.store.rows⟩ := by
  have hmem := mem_of_getElem? (Database.getTableState_eq_some ht).2.1
  have hnone : (sys.sessions i).transactionForRead table.name = none := by
    rw [Session.transactionForRead, ((h.shaped i).closed hidle).2.2]
    rfl
  have hlive : (sys.sessions i).snapshotStoreForRead sys.db table.name = .ok none := by
    rw [Session.snapshotStoreForRead, hidle]
    rfl
  have hclone : cloneRowsFromStore table.store = .ok table.store.rows :=
    mapM_clone_eq_ok.2 ⟨(h.valid.stores table hmem).conform, rfl⟩
  have hscan : scanRowsForTable sys.db (sys.sessions i) table = .ok table.store.rows := by
    simp only [scanRowsForTable, hnone, hlive, ok_bind, hclone]
  simp only [loadBaseTable, ht, hscan]
  rfl

/-- What is loaded of a table has the columns of the table. -/
theorem columns_of_load {sys : System} {i : ℕ} {name : Bytes} {slot : ℕ} {table : TableState}
    (ht : sys.db.getTableState name = some (slot, table)) {base : BaseTable}
    (hload : loadBaseTable sys.db (sys.sessions i) name = .ok base) :
    base.name = table.store.table.name ∧ base.columns = table.store.table.columns := by
  rw [loadBaseTable, ht] at hload
  obtain ⟨rows, -, hload⟩ := bind_eq_ok.1 hload
  obtain rfl := Except.ok.inj hload
  exact ⟨rfl, rfl⟩

/-- **The query of a column of a table.** -/
theorem System.select_column {sys : System} (hlock : sys.db.Lockstep) {i : ℕ} {name : Bytes}
    {slot : ℕ} {table : TableState} (ht : sys.db.getTableState name = some (slot, table))
    {column : Bytes} {k : ℕ} (hfound : findColumn (tableColumns table.store.table) column = .ok k)
    {base : BaseTable} (hload : loadBaseTable sys.db (sys.sessions i) name = .ok base)
    (hlong : ∀ row ∈ base.rows, k < row.values.length) :
    sys.select i (selectColumn column name) =
      .ok ⟨[(Ast.identifierParts column).name], base.rows.map fun row => row.values[k]?.toList⟩ := by
  obtain ⟨hname, hcolumns⟩ := columns_of_load ht hload
  have hbound : (QuerySource.rowSetFromBaseTable base none).columns =
      tableColumns table.store.table := by
    rw [QuerySource.rowSetFromBaseTable, hname, hcolumns]
    rfl
  have hrows : ∀ row ∈ (QuerySource.rowSetFromBaseTable base none).rows, k < row.length :=
    forall_mem_map.2 hlong
  rw [System.select, QuerySource.executeSelect_table (hlock.findView_eq_none ht) rfl rfl, hload,
    ok_bind, QuerySource.selectFrom_column (hbound ▸ hfound) hrows,
    QuerySource.rowSetFromBaseTable, map_map]
  rfl

/-! ## The same column to every statement -/

/-- **A column under its quoted name**: what the query of it answers, and
what an assignment to it and a clause with it do. -/
structure System.ReadsBack (sys : System) (i : ℕ) (name : Bytes) (table : TableState)
    (column : Bytes) (k : ℕ) : Prop where
  parsed : ∀ parseFloat sql, Spells (tokenize sql) [wordToken (ascii "SELECT"), quotedToken column,
      wordToken (ascii "FROM"), quotedToken name] →
    Sql.parse parseFloat sql = .ok (.select (selectColumn column name))
  /-- The query gives the column of every row that is read. -/
  selected : ∀ base, loadBaseTable sys.db (sys.sessions i) name = .ok base → base.RowsFit →
    (∀ row ∈ base.rows, k < row.values.length) ∧
      sys.select i (selectColumn column name) =
        .ok ⟨[column], base.rows.map fun row => row.values[k]?.toList⟩
  /-- Outside a transaction these are the rows of the table. -/
  idle : (sys.sessions i).active = false → ∃ base,
    loadBaseTable sys.db (sys.sessions i) name = .ok base ∧ base.RowsFit ∧
      base.rows = table.store.rows
  assigned : ∀ row e value, evalExpression table.store.table row e = .ok value →
    k < row.values.length → applyAssignments table.store.table row [⟨column, e⟩] row.values =
      .ok (row.values.set k value)
  evaluated : ∀ row value, row.values[k]? = some value →
    evalExpression table.store.table row (.identifier column) = .ok value

/-- **A column can be read back by its quoted name exactly if there is no
point in it.** The quoted name is read as the name wherever it is written,
and a created table has the columns of its definition. A query finds the
column exactly if its name has no point, and then the query of the quoted
name answers with the very column that `UPDATE` sets and that `UPDATE` and
`DELETE` compare. -/
theorem quoted_column_read_back {frontend : Frontend} {sys : System}
    (hreach : sys.Reachable frontend) (i : ℕ) {name : Bytes} {slot : ℕ} {table : TableState}
    (ht : sys.db.getTableState name = some (slot, table)) {column : Bytes} {k : ℕ}
    (hcolumn : (table.store.table.columns.map ColumnDef.name)[k]? = some column) :
    ReadAsName column ∧
      (∀ statement db', sys.db.createTable statement = .ok db' → db' = sys.db ∨
        ∃ slot table, db'.getTableState statement.name = some (slot, table) ∧
          table.store.table.columns.map ColumnDef.name =
            statement.columns.map Ast.ColumnDef.name) ∧
      (findColumn (tableColumns table.store.table) column = .ok k ↔ Byte.dot ∉ column) ∧
      (Byte.dot ∉ column → sys.ReadsBack i name table column k) := by
  have hvalid := hreach.coherent.valid
  have hindex := columnIndex_own_name hcolumn
  refine ⟨Sql.readAsName column, fun statement db' hc => hvalid.names_of_createTable hc,
    findColumn_own_name hcolumn, fun hdot => ?_⟩
  refine ⟨fun parseFloat sql hsql => Sql.parse_select_quoted parseFloat hsql, ?_, ?_, ?_, ?_⟩
  · intro base hload hfit
    have hlong : ∀ row ∈ base.rows, k < row.values.length := by
      refine fun row hrow => hfit.indexed row hrow column k ?_
      rw [(columns_of_load ht hload).2]
      exact hindex
    have hparts : Ast.identifierParts column = ⟨none, column⟩ := if_neg hdot
    have hanswer := System.select_column hvalid.lockstep ht ((findColumn_own_name hcolumn).2 hdot)
      hload hlong
    rw [hparts] at hanswer
    exact ⟨hlong, hanswer⟩
  · intro hidle
    have hmem := mem_of_getElem? (Database.getTableState_eq_some ht).2.1
    refine ⟨_, hreach.coherent.load_of_idle hidle ht, .of_holds fun row hrow => ?_, rfl⟩
    exact ((hvalid.stores table hmem).conform row hrow).forall₂_holds
  · intro row e value hvalue hlt
    simp only [applyAssignments, hindex, hlt, if_true, hvalue, ok_bind]
  · intro row value hvalue
    simp only [evalExpression, hindex, hvalue]

/-- A table `a` with a column named like a keyword and one with a point in
its name, and a table `t` with the latter only. -/
def oddColumns : System :=
  (System.start {}).run frontend
    [createTable 0 "a" ["b", "NULL", "a.b"], createTable 0 "t" ["a.b"],
      begin 0, insert 0 "a" [some 1, some 2, some 3], insert 0 "t" [some 3],
      commit 0]

theorem oddColumns_reachable : oddColumns.Reachable frontend := ⟨{}, _, .empty, rfl⟩

/-- The column `NULL` is read by its quoted name. -/
theorem quoted_column_read_back_keyword :
    Sql.parse (fun _ => none) (ascii "SELECT `NULL` FROM `a`") =
        .ok (.select (selectColumn (ascii "NULL") (ascii "a"))) ∧
      oddColumns.select 0 (selectColumn (ascii "NULL") (ascii "a")) =
        .ok ⟨[ascii "NULL"], [[.integer 2]]⟩ := by
  have hsome : (oddColumns.db.getTableState (ascii "a")).isSome = true := by decide +kernel
  obtain ⟨⟨slot, table⟩, ht⟩ := Option.isSome_iff_exists.1 hsome
  have hcolumns : (oddColumns.db.getTableState (ascii "a")).map (fun found =>
      (found.2.store.table.columns.map ColumnDef.name)[1]?) = some (some (ascii "NULL")) := by
    decide +kernel
  have hvalues : (oddColumns.db.getTableState (ascii "a")).map (fun found =>
      found.2.store.rows.map fun row => row.values[1]?.toList) = some [[.integer 2]] := by
    decide +kernel
  rw [ht] at hcolumns hvalues
  have hback := (quoted_column_read_back oddColumns_reachable 0 ht
    (Option.some.inj hcolumns)).2.2.2 (by decide)
  obtain ⟨base, hload, hfit, hrows⟩ := hback.idle (by decide +kernel)
  have hanswer := (hback.selected base hload hfit).2
  rw [hrows] at hanswer
  refine ⟨hback.parsed _ _ (by decide +kernel), hanswer.trans ?_⟩
  exact congrArg (fun rows => Except.ok (⟨[ascii "NULL"], rows⟩ : ResultSet))
    (Option.some.inj hvalues)

/-- **A column with a point in its name can be changed but not read.** To
the query of `` `a.b` `` there is no such column in `t`, and in `a` it is
the column `b`. `UPDATE` and `DELETE` find the column in both. -/
theorem dotted_column_unreadable :
    oddColumns.Reachable Script.frontend ∧
      Sql.parse (fun _ => none) (ascii "SELECT `a.b` FROM `t`") =
        .ok (.select (selectColumn (ascii "a.b") (ascii "t"))) ∧
      oddColumns.select 0 (selectColumn (ascii "a.b") (ascii "t")) = .error .unknownColumn ∧
      oddColumns.select 0 (selectColumn (ascii "a.b") (ascii "a")) =
        .ok ⟨[ascii "b"], [[.integer 1]]⟩ ∧
      (((oddColumns.step Script.frontend (Script.begin 0)).perform Script.frontend
          (Script.update 0 "t" "a.b" 4 (columnIs "a.b" .equal 3))).2 = .ok (.mutationCount 1) ∧
        ((oddColumns.step Script.frontend (Script.begin 0)).perform Script.frontend
          (Script.delete 0 "a" (columnIs "a.b" .equal 3))).2 = .ok (.mutationCount 1)) := by
  have hunknown : QuerySource.run (oddColumns.queryContext 0) 1
      ⟨selectColumn (ascii "a.b") (ascii "t"), [], 0⟩ = some (.error .unknownColumn) := by
    decide +kernel
  have hother : QuerySource.run (oddColumns.queryContext 0) 1
      ⟨selectColumn (ascii "a.b") (ascii "a"), [], 0⟩ =
        some (.ok ⟨[ascii "b"], [[.integer 1]]⟩) := by
    decide +kernel
  refine ⟨oddColumns_reachable, Sql.parse_select_quoted _ (by decide +kernel),
    System.select_of_run hunknown, System.select_of_run hother, ?_⟩
  decide +kernel

end Shoveler
