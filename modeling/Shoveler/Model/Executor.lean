import Shoveler.Model.Transaction
import Shoveler.Model.Overlay
import Shoveler.Model.Procedure

/-!
# The executor

The database and the sessions of `executor.zig`, and what each statement
does to them. A statement that only stages changes cannot touch the
database, so `INSERT`, `UPDATE`, `DELETE`, `SELECT` and `CALL` take it as
an argument and return a session; the transaction statements and the DDL
return both.

Where the source may fail half way, the function returns what is left
behind together with the outcome.
-/

namespace Shoveler

open Ast (Expression SelectStatement)

/-! ## State -/

/-- `TableState`. -/
structure TableState where
  name : Bytes
  store : RowStore
deriving DecidableEq

/-- The key under which a table state is found. -/
def TableState.key (t : TableState) : Bytes := foldCase t.name

/-- `Database`. The commit lock is left out: a statement runs as a whole. -/
structure Database where
  catalog : DatabaseCatalog := {}
  views : List StoredView := []
  procedures : List StoredProcedure := []
  tables : List TableState := []
  commitSequence : Generation := 0
  commitQueue : Queue := {}
  registry : Registry := {}
  overlay : Overlay := {}

/-- `TableTransaction`. -/
structure TableTransaction where
  tableName : Bytes
  tx : Transaction
deriving DecidableEq

/-- The key under which a table transaction is found. -/
def TableTransaction.key (e : TableTransaction) : Bytes := foldCase e.tableName

/-- `Session`. -/
structure Session where
  active : Bool := false
  snapshotSequence : Option Generation := none
  lastCommitSequence : Option Generation := none
  transactions : List TableTransaction := []
  snapshotHandle : Option SnapshotHandle := none
deriving DecidableEq

/-- `ResultSet`. -/
structure ResultSet where
  columns : List Bytes
  rows : List (List Value)
deriving DecidableEq

/-- `ExecutionResult`. -/
inductive ExecutionResult where
  | ok
  | mutationCount (count : ℕ)
  | resultSet (rows : ResultSet)
deriving DecidableEq

/-- `BaseTable`: a table as a query sees it. -/
structure BaseTable where
  name : Bytes
  columns : List ColumnDef
  rows : List Row

/-- What the executor calls outside itself: the SQL parser, the parser of
procedure bodies, and the evaluator of queries over the tables and views
it is given. Nothing below depends on which they are. -/
structure Frontend where
  parse : Bytes → Option Ast.Statement
  parseBody : Bytes → Option ProcedureBody.Body
  select : (Bytes → Result BaseTable) → (Bytes → Option SelectStatement) → SelectStatement →
    Result ResultSet

/-! ## Tables -/

/-- The store a slot of the table list holds; a pointer past its end
dangles. -/
def storeAt (tables : List TableState) (slot : ℕ) : Result RowStore :=
  match tables[slot]? with
  | some table => .ok table.store
  | none => .error (.panic .danglingStore)

/-- The table list with another store in a slot. -/
def setStore (tables : List TableState) (slot : ℕ) (store : RowStore) : List TableState :=
  tables.modify slot fun table => { table with store := store }

namespace Database

/-- `findTableStateIndex`. -/
def findTableStateIndex (self : Database) (name : Bytes) : Option ℕ :=
  self.tables.findIdx? fun table => namesEqual table.name name

/-- `getTableState`: the slot, and what it holds. -/
def getTableState (self : Database) (name : Bytes) : Option (ℕ × TableState) :=
  match self.findTableStateIndex name with
  | none => none
  | some slot => self.tables[slot]?.map fun table => (slot, table)

/-- `refreshTablePointers`, for one table: its store follows the catalog's
definition. -/
def refreshTable (catalog : DatabaseCatalog) (table : TableState) : Result TableState :=
  match catalog.getTable table.name with
  | none => .error (.panic .nullUnwrap)
  | some definition => .ok { table with store := { table.store with table := definition } }

/-- `refreshTablePointers`. -/
def refreshTablePointers (self : Database) : Result Database := do
  let tables ← self.tables.mapM (refreshTable self.catalog)
  return { self with tables := tables }

/-- `retainCurrentGenerationForActiveSnapshots`. -/
def retainCurrentGenerationForActiveSnapshots (self : Database)
    (excluding : Option SnapshotHandle) : Registry × Result Unit :=
  if self.registry.needsRetention self.commitSequence excluding then
    let sources := self.tables.map fun table =>
      { table := table.store.table, store := table.store : TableSource }
    self.registry.retainGeneration self.commitSequence sources
  else (self.registry, .ok ())

/-- `recordVectorOverlayDeltas`. -/
def recordVectorOverlayDeltas (self : Database) (generation : Generation) : Overlay :=
  self.tables.foldl
    (fun overlay table =>
      overlay.recordCommittedStore generation table.name table.store.table table.store)
    self.overlay

end Database

/-! ## Sessions -/

namespace Session

/-- `findTransactionIndex`. -/
def findTransactionIndex (self : Session) (tableName : Bytes) : Option ℕ :=
  self.transactions.findIdx? fun entry => namesEqual entry.tableName tableName

/-- `transactionForRead`. -/
def transactionForRead (self : Session) (tableName : Bytes) : Option Transaction :=
  (self.transactions.find? fun entry => namesEqual entry.tableName tableName).map
    TableTransaction.tx

/-- `transactionFor`: the session with a transaction for the table, and
where it stands. -/
def transactionFor (self : Session) (slot : ℕ) (table : TableState) : Session × ℕ × Transaction :=
  match self.findTransactionIndex table.name, self.transactionForRead table.name with
  | some index, some tx => (self, index, tx)
  | _, _ =>
    let tx := Transaction.begin slot table.store
    ({ self with transactions := self.transactions ++ [⟨table.name, tx⟩] },
      self.transactions.length, tx)

/-- The session after the transaction at an index has changed. -/
def setTransaction (self : Session) (index : ℕ) (tx : Transaction) : Session :=
  { self with
    transactions := self.transactions.modify index fun entry => { entry with tx := tx } }

/-- `snapshotStoreForRead`. -/
def snapshotStoreForRead (self : Session) (db : Database) (tableName : Bytes) :
    Result (Option RowStore) :=
  if !self.active then .ok none
  else
    match self.snapshotHandle with
    | none => .ok none
    | some handle =>
      match db.registry.retainedStoreForTable handle.generation tableName with
      | some store => .ok (some store)
      | none =>
        if handle.generation = db.commitSequence then .ok none
        else .error .snapshotRetentionExceeded

/-- `baseStoreForRead`. -/
def baseStoreForRead (self : Session) (db : Database) (table : TableState) : Result RowStore := do
  return (← self.snapshotStoreForRead db table.name).getD table.store

/-- `clearTransactions` and `releaseSnapshotHandle`, at the end of a
transaction: the session left behind. -/
def close (self : Session) : Session :=
  { self with
    active := false, transactions := [], snapshotHandle := none, snapshotSequence := none }

/-- `releaseSnapshotHandle`, on the registry. -/
def releaseHandle (self : Session) (registry : Registry) : Registry :=
  match self.snapshotHandle with
  | none => registry
  | some handle => registry.release handle

/-- `Session.begin`. -/
def begin (self : Session) (db : Database) : Database × Session × Result Unit :=
  if self.active then (db, self, .error .transactionActive)
  else
    let (registry, handle) := db.registry.acquire db.commitSequence
    ({ db with registry := registry },
      { self with
        snapshotSequence := some handle.generation, snapshotHandle := some handle, active := true },
      .ok ())

/-- The loop of `Session.commit` over the table transactions. A failure
leaves the tables before it published and their transactions committed. -/
def publishAll : List TableTransaction → List TableState →
    List TableState × List TableTransaction × Result Unit
  | [], tables => (tables, [], .ok ())
  | entry :: rest, tables =>
    match entry.tx.commit (storeAt tables entry.tx.slot) with
    | .error e => (tables, entry :: rest, .error e)
    | .ok (store, tx) =>
      let (tables, rest, outcome) := publishAll rest (setStore tables entry.tx.slot store)
      (tables, { entry with tx := tx } :: rest, outcome)

/-- The end of `Session.commit`. -/
def finishCommit (self : Session) (db : Database) : Database × Session × Result Unit :=
  ({ db with registry := self.releaseHandle db.registry },
    { self with lastCommitSequence := some db.commitSequence }.close, .ok ())

/-- `Session.commit`. -/
def commit (self : Session) (db : Database) : Database × Session × Result Unit :=
  if !self.active then (db, self, .error .noActiveTransaction)
  else if self.transactions.isEmpty then self.finishCommit db
  else
    match db.commitQueue.enqueue with
    | .error e => (db, self, .error e)
    | .ok queue =>
      match db.retainCurrentGenerationForActiveSnapshots self.snapshotHandle with
      | (registry, .error e) =>
        ({ db with commitQueue := queue.abortQueuedCommit, registry := registry }, self, .error e)
      | (registry, .ok ()) =>
        match publishAll self.transactions db.tables with
        | (tables, transactions, .error e) =>
          ({ db with
              commitQueue := queue.abortQueuedCommit, registry := registry, tables := tables },
            { self with transactions := transactions }, .error e)
        | (tables, _, .ok ()) =>
          let queue := queue.completeQueuedCommit
          let db := { db with
            commitQueue := queue, registry := registry, tables := tables,
            commitSequence := queue.lastAssignedSequence }
          self.finishCommit { db with overlay := db.recordVectorOverlayDeltas db.commitSequence }

/-- The loop of `Session.rollback`. -/
def rollbackAll : List TableTransaction → List TableTransaction × Result Unit
  | [] => ([], .ok ())
  | entry :: rest =>
    match entry.tx.rollback with
    | .error e => (entry :: rest, .error e)
    | .ok tx =>
      let (rest, outcome) := rollbackAll rest
      ({ entry with tx := tx } :: rest, outcome)

/-- `Session.rollback`. -/
def rollback (self : Session) (db : Database) : Database × Session × Result Unit :=
  if !self.active then (db, self, .error .noActiveTransaction)
  else
    match rollbackAll self.transactions with
    | (transactions, .error e) => (db, { self with transactions := transactions }, .error e)
    | (_, .ok ()) => ({ db with registry := self.releaseHandle db.registry }, self.close, .ok ())

end Session

/-! ## Reading -/

/-- `cloneRowsFromStore`. -/
def cloneRowsFromStore (store : RowStore) : Result (List Row) :=
  store.rows.mapM fun row => row.clone store.table

/-- `scanRowsForTable`. -/
def scanRowsForTable (db : Database) (session : Session) (table : TableState) :
    Result (List Row) :=
  match session.transactionForRead table.name with
  | some tx => do
    let base ← session.baseStoreForRead db table
    tx.scanWithBase (storeAt db.tables tx.slot) base
  | none => do
    match ← session.snapshotStoreForRead db table.name with
    | some store => cloneRowsFromStore store
    | none => cloneRowsFromStore table.store

/-- `loadBaseTableForQuerySource`. -/
def loadBaseTable (db : Database) (session : Session) (name : Bytes) : Result BaseTable :=
  match db.getTableState name with
  | none => .error .unknownObject
  | some (_, table) => do
    let rows ← scanRowsForTable db session table
    return ⟨table.store.table.name, table.store.table.columns, rows⟩

/-- `findViewForQuerySource`. -/
def findView (db : Database) (name : Bytes) : Option SelectStatement :=
  (db.views.find? fun stored => namesEqual stored.name name).map StoredView.query

/-- `executeSelect`. -/
def executeSelect (frontend : Frontend) (db : Database) (session : Session)
    (statement : SelectStatement) : Result ResultSet :=
  frontend.select (loadBaseTable db session) (findView db) statement

/-! ## Staging changes -/

/-- The first loop of `rowValuesForInsert` for a statement with a column
list: the values by column, `none` where nothing was given yet. -/
def assignInsertColumns (table : TableDef) : List Bytes → List Expression → List (Option Value) →
    Result (List (Option Value))
  | name :: names, expression :: expressions, values =>
    match table.columnIndex name with
    | none => .error .unknownColumn
    | some index =>
      if (values[index]?.join).isSome then .error .unknownColumn
      else do
        let value ← evalConstant expression
        assignInsertColumns table names expressions (values.set index (some value))
  | _, _, values => .ok values

/-- The values `rowValuesForInsert` has in hand before it fills in what
was not given. -/
def insertedValues (table : TableDef) (statement : Ast.InsertStatement) :
    Result (List (Option Value)) :=
  if statement.columns.isEmpty then
    if statement.values.length ≠ table.columns.length then .error .columnCountMismatch
    else statement.values.mapM fun expression => do return some (← evalConstant expression)
  else if statement.values.length ≠ statement.columns.length then .error .columnCountMismatch
  else
    assignInsertColumns table statement.columns statement.values
      (List.replicate table.columns.length none)

/-- `@as(i64, @intCast(next_row_id))`. -/
def rowIdAsInteger (id : RowId) : Result Value :=
  if id.toNat < 2 ^ 63 then .ok (.integer (Int64.ofInt id.toNat)) else .error (.panic .integerCast)

/-- What a column holds that was given no value. -/
def fillColumn (column : ColumnDef) (nextRowId : RowId) : Result Value :=
  if column.autoIncrement then rowIdAsInteger nextRowId
  else .ok (column.defaultValue.getD .null)

/-- The last loop of `rowValuesForInsert`: fill in and validate, column by
column. -/
def completeRow (nextRowId : RowId) : List ColumnDef → List (Option Value) → Result (List Value)
  | column :: columns, given :: values => do
    let value ← match given with
      | some value => .ok value
      | none => fillColumn column nextRowId
    column.validateValue value
    let rest ← completeRow nextRowId columns values
    return value :: rest
  | _, _ => .ok []

/-- `rowValuesForInsert`. -/
def rowValuesForInsert (table : TableDef) (statement : Ast.InsertStatement) (nextRowId : RowId) :
    Result (List Value) := do
  let values ← insertedValues table statement
  completeRow nextRowId table.columns values

/-- `executeInsert`. -/
def executeInsert (db : Database) (session : Session) (statement : Ast.InsertStatement) :
    Session × Result ℕ :=
  if !session.active then (session, .error .transactionRequired)
  else
    match db.getTableState statement.tableName with
    | none => (session, .error .unknownObject)
    | some (slot, table) =>
      let (session, index, tx) := session.transactionFor slot table
      match rowValuesForInsert table.store.table statement tx.nextId with
      | .error e => (session, .error e)
      | .ok values =>
        match tx.insert (storeAt db.tables tx.slot) values with
        | .error e => (session, .error e)
        | .ok (_, tx) => (session.setTransaction index tx, .ok 1)

/-- The assignment loop of `executeUpdate`: each expression is evaluated
on the row as it was scanned. -/
def applyAssignments (table : TableDef) (row : Row) : List Ast.Assignment → List Value →
    Result (List Value)
  | [], values => .ok values
  | assignment :: rest, values =>
    match table.columnIndex assignment.column with
    | none => .error .unknownColumn
    | some index =>
      if index < values.length then do
        let value ← evalExpression table row assignment.value
        applyAssignments table row rest (values.set index value)
      else .error (.panic .indexOutOfBounds)

/-- What `executeUpdate` makes of one visible row: nothing where `WHERE`
does not hold, or its new values. -/
def updatedValues (table : TableDef) (statement : Ast.UpdateStatement) (row : Row) :
    Result (Option (List Value)) := do
  if ← matchesWhere table row statement.whereClause then
    return some (← applyAssignments table row statement.assignments row.values)
  else return none

/-- The loop of `executeUpdate` over the visible rows. Rows already staged
stay staged when a later one fails. -/
def stageUpdates (store : Result RowStore) (table : TableDef) (statement : Ast.UpdateStatement) :
    List Row → Transaction → Transaction × Result ℕ
  | [], tx => (tx, .ok 0)
  | row :: rows, tx =>
    match updatedValues table statement row with
    | .error e => (tx, .error e)
    | .ok none => stageUpdates store table statement rows tx
    | .ok (some values) =>
      match tx.update store row.id values with
      | .error e => (tx, .error e)
      | .ok tx =>
        let (tx, outcome) := stageUpdates store table statement rows tx
        (tx, outcome.map (· + 1))

/-- The loop of `executeDelete` over the visible rows. -/
def stageDeletes (store : Result RowStore) (table : TableDef) (whereClause : Option Expression) :
    List Row → Transaction → Transaction × Result ℕ
  | [], tx => (tx, .ok 0)
  | row :: rows, tx =>
    match matchesWhere table row whereClause with
    | .error e => (tx, .error e)
    | .ok false => stageDeletes store table whereClause rows tx
    | .ok true =>
      match tx.delete store row.id with
      | .error e => (tx, .error e)
      | .ok tx =>
        let (tx, outcome) := stageDeletes store table whereClause rows tx
        (tx, outcome.map (· + 1))

/-- What `executeUpdate` and `executeDelete` share: find the table, take
the session's transaction for it, scan, and run the loop. -/
def stageRows (db : Database) (session : Session) (tableName : Bytes)
    (loop : Result RowStore → TableDef → List Row → Transaction → Transaction × Result ℕ) :
    Session × Result ℕ :=
  if !session.active then (session, .error .transactionRequired)
  else
    match db.getTableState tableName with
    | none => (session, .error .unknownObject)
    | some (slot, table) =>
      let (session, index, tx) := session.transactionFor slot table
      match scanRowsForTable db session table with
      | .error e => (session, .error e)
      | .ok rows =>
        let (tx, outcome) := loop (storeAt db.tables tx.slot) table.store.table rows tx
        (session.setTransaction index tx, outcome)

/-- `executeUpdate`. -/
def executeUpdate (db : Database) (session : Session) (statement : Ast.UpdateStatement) :
    Session × Result ℕ :=
  stageRows db session statement.tableName fun store table =>
    stageUpdates store table statement

/-- `executeDelete`. -/
def executeDelete (db : Database) (session : Session) (statement : Ast.DeleteStatement) :
    Session × Result ℕ :=
  stageRows db session statement.tableName fun store table =>
    stageDeletes store table statement.whereClause

/-- The part of `executeStatement` a procedure body can reach: the
statements that read and stage. -/
def executeDml (frontend : Frontend) (db : Database) (session : Session) :
    Ast.Statement → Session × Result ExecutionResult
  | .insert statement =>
    let (session, outcome) := executeInsert db session statement
    (session, outcome.map .mutationCount)
  | .update statement =>
    let (session, outcome) := executeUpdate db session statement
    (session, outcome.map .mutationCount)
  | .delete statement =>
    let (session, outcome) := executeDelete db session statement
    (session, outcome.map .mutationCount)
  | .select statement =>
    (session, (executeSelect frontend db session statement).map .resultSet)
  | _ => (session, .error .unsupportedProcedure)

/-! ## Procedures -/

/-- `max_procedure_loop_iterations`. -/
def maxProcedureLoopIterations : ℕ := 10000

/-- How many rows a statement of a body counts for. -/
def ExecutionResult.mutations : ExecutionResult → ℕ
  | .mutationCount count => count
  | _ => 0

/-- A condition of `IF` or `WHILE`. -/
def evalCondition (env : ProcedureEnv) (condition : Expression) : Result Bool := do
  match ← evalProcedureExpression env condition with
  | .boolean holds => .ok holds
  | _ => .error .typeMismatch

/-- The loop of a `WHILE` statement, with the iterations it still may
run. -/
def whileLoop (condition : Expression)
    (body : Session → ProcedureEnv → Session × Result (ProcedureEnv × ℕ)) :
    ℕ → Session → ProcedureEnv → Session × Result (ProcedureEnv × ℕ)
  | remaining, session, env =>
    match evalCondition env condition with
    | .error e => (session, .error e)
    | .ok false => (session, .ok (env, 0))
    | .ok true =>
      match remaining with
      | 0 => (session, .error .unsupportedProcedure)
      | remaining + 1 =>
        match body session env with
        | (session, .error e) => (session, .error e)
        | (session, .ok (env, mutations)) =>
          let (session, outcome) := whileLoop condition body remaining session env
          (session, outcome.map fun (env, count) => (env, mutations + count))

mutual

/-- `executeProcedureBody`. -/
def executeProcedureBody (frontend : Frontend) (db : Database) :
    List ProcedureBody.Statement → Session → ProcedureEnv → Session × Result (ProcedureEnv × ℕ)
  | [], session, env => (session, .ok (env, 0))
  | statement :: rest, session, env =>
    match executeProcedureStatement frontend db statement session env with
    | (session, .error e) => (session, .error e)
    | (session, .ok (env, mutations)) =>
      let (session, outcome) := executeProcedureBody frontend db rest session env
      (session, outcome.map fun (env, count) => (env, mutations + count))

/-- `executeProcedureStatement`. -/
def executeProcedureStatement (frontend : Frontend) (db : Database) :
    ProcedureBody.Statement → Session → ProcedureEnv → Session × Result (ProcedureEnv × ℕ)
  | .declareVar name defaultValue, session, env =>
    (session, do
      let value ← match defaultValue with
        | some default => evalProcedureExpression env default
        | none => .ok .null
      return (← env.declare name value, 0))
  | .setVar name value, session, env =>
    (session, do
      let value ← evalProcedureExpression env value
      return (← env.assign name value, 0))
  | .sql statement, session, env =>
    match materializeProcedureStatement env statement with
    | .error e => (session, .error e)
    | .ok materialized =>
      let (session, outcome) := executeDml frontend db session materialized
      (session, outcome.map fun result => (env, result.mutations))
  | .ifStatement condition thenBody elseBody, session, env =>
    match evalCondition env condition with
    | .error e => (session, .error e)
    | .ok true => executeProcedureBody frontend db thenBody session env
    | .ok false => executeProcedureBody frontend db elseBody session env
  | .whileStatement condition body, session, env =>
    whileLoop condition (executeProcedureBody frontend db body) maxProcedureLoopIterations
      session env

end

/-- `toCatalogColumnType`. -/
def toCatalogColumnType : Ast.ColumnType → ColumnType
  | .integer => .integer
  | .float => .float
  | .boolean => .boolean
  | .text => .text
  | .blob => .blob
  | .vector dimension => .vector { dimension := dimension }

/-- The argument loop of `executeCall`: each argument is evaluated in the
environment of the parameters before it. -/
def bindArguments : List Ast.ProcedureParam → List Expression → ProcedureEnv → Result ProcedureEnv
  | param :: params, arg :: args, env => do
    let value ← evalProcedureExpression env arg
    match value with
    | .null => pure ()
    | value => (toCatalogColumnType param.columnType).acceptsValue value
    let env ← env.declare param.name value
    bindArguments params args env
  | _, _, env => .ok env

/-- `executeCall`. -/
def executeCall (frontend : Frontend) (db : Database) (session : Session)
    (call : Ast.CallStatement) : Session × Result ExecutionResult :=
  match db.procedures.find? fun stored => namesEqual stored.name call.name with
  | none => (session, .error .unknownObject)
  | some stored =>
    if call.args.length ≠ stored.params.length then (session, .error .columnCountMismatch)
    else
      match bindArguments stored.params call.args [] with
      | .error e => (session, .error e)
      | .ok env =>
        let (session, outcome) := executeProcedureBody frontend db stored.body session env
        (session, outcome.map fun (_, count) => .mutationCount count)

end Shoveler
