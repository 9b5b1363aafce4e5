import Shoveler.Model.Executor

/-!
# Statements

The DDL of `executor.zig`, which keeps the catalog and the runtime lists
side by side, and `executeStatement`, which sends each statement to its
handler.
-/

namespace Shoveler

open Ast (Expression)

namespace Database

/-! ## Tables -/

/-- `countPrimaryColumns` and the loop after it: the names of the columns
declared `PRIMARY KEY`. -/
def primaryColumnNames (columns : List Ast.ColumnDef) : List Bytes :=
  (columns.filter fun column => column.primaryKey).map fun column => column.name

/-- The column specifications of a `CREATE TABLE`. -/
def columnSpecs (columns : List Ast.ColumnDef) : Result (List ColumnSpec) :=
  columns.mapM fun column => do
    let default ← match column.defaultValue with
      | some default => do pure (some (← evalConstant default))
      | none => .ok none
    return {
      name := column.name
      columnType := toCatalogColumnType column.columnType
      nullable := column.nullable
      defaultValue := default
      primaryKey := column.primaryKey
      autoIncrement := column.autoIncrement }

/-- The index specifications of a `CREATE TABLE`: the primary index over
the declared key columns first. -/
def indexSpecs (statement : Ast.CreateTableStatement) : List IndexSpec :=
  let primary := primaryColumnNames statement.columns
  let declared := statement.indexes.map fun index =>
    { name := index.name
      columns := index.columns
      kind := if index.primary then .primary else .secondary : IndexSpec }
  if primary.isEmpty then declared
  else { name := none, columns := primary, kind := .primary } :: declared

/-- `createTable`. The append may also move the list in memory, under the
pointers of open transactions: see `Placed`. -/
def createTable (self : Database) (statement : Ast.CreateTableStatement) : Result Database :=
  if statement.ifNotExists ∧ (self.getTableState statement.name).isSome then .ok self
  else do
    let columns ← columnSpecs statement.columns
    let catalog ← self.catalog.createTable
      { name := statement.name, columns := columns, indexes := indexSpecs statement }
    match catalog.getTable statement.name with
    | none => .error .unknownObject
    | some table =>
      let state := { name := statement.name, store := RowStore.init table : TableState }
      { self with catalog := catalog, tables := self.tables ++ [state] }.refreshTablePointers

/-- `dropTable`. -/
def dropTable (self : Database) (statement : Ast.NamedStatement) : Result Database :=
  match self.findTableStateIndex statement.name with
  | none => if statement.ifExists then .ok self else .error .unknownObject
  | some index => do
    let catalog ← self.catalog.dropTable statement.name
    { self with catalog := catalog, tables := self.tables.eraseIdx index }.refreshTablePointers

/-! ## Views and procedures -/

/-- `createView`. The registered definition is taken back when the
registry refuses the query. -/
def createView (self : Database) (statement : Ast.CreateViewStatement) : Database × Result Unit :=
  match self.catalog.registerView statement.name statement.bodySql with
  | .error e => (self, .error e)
  | .ok catalog =>
    match createStoredView self.views statement.name statement.query with
    | .ok views => ({ self with catalog := catalog, views := views }, .ok ())
    | .error e =>
      match catalog.dropView statement.name with
      | .ok catalog => ({ self with catalog := catalog }, .error e)
      | .error _ => ({ self with catalog := catalog }, .error e)

/-- The `DROP VIEW` case of `executeStatement`. -/
def dropView (self : Database) (statement : Ast.NamedStatement) : Database × Result Unit :=
  match dropStoredView self.views statement.name with
  | .error e => (self, .error e)
  | .ok views =>
    match self.catalog.dropView statement.name with
    | .error e => ({ self with views := views }, .error e)
    | .ok catalog => ({ self with views := views, catalog := catalog }, .ok ())

/-- `createProcedure`, with the same undo. -/
def createProcedure (self : Database) (parseBody : Bytes → Option ProcedureBody.Body)
    (statement : Ast.ProcedureStatement) : Database × Result Unit :=
  match self.catalog.registerProcedure statement.name statement.bodySql with
  | .error e => (self, .error e)
  | .ok catalog =>
    match createStoredProcedure parseBody self.procedures statement.name statement.params
        statement.bodySql with
    | .ok procedures => ({ self with catalog := catalog, procedures := procedures }, .ok ())
    | .error e =>
      match catalog.dropProcedure statement.name with
      | .ok catalog => ({ self with catalog := catalog }, .error e)
      | .error _ => ({ self with catalog := catalog }, .error e)

/-- The `DROP PROCEDURE` case of `executeStatement`. -/
def dropProcedure (self : Database) (statement : Ast.NamedStatement) : Database × Result Unit :=
  match dropStoredProcedure self.procedures statement.name with
  | .error e => (self, .error e)
  | .ok procedures =>
    match self.catalog.dropProcedure statement.name with
    | .error e => ({ self with procedures := procedures }, .error e)
    | .ok catalog => ({ self with procedures := procedures, catalog := catalog }, .ok ())

end Database

/-! ## Dispatch -/

/-- A database operation without partial effects, with the database it
leaves behind either way. -/
def orKeep (db : Database) : Result Database → Database × Result Unit
  | .ok db => (db, .ok ())
  | .error e => (db, .error e)

/-- A statement that only stages, in the shape of `executeStatement`. -/
def staged (db : Database) (outcome : Session × Result ExecutionResult) :
    Database × Session × Result ExecutionResult :=
  (db, outcome.1, outcome.2)

/-- A statement that only changes the schema. -/
def schemaChange (session : Session) (outcome : Database × Result Unit) :
    Database × Session × Result ExecutionResult :=
  (outcome.1, session, outcome.2.map fun _ => .ok)

/-- A statement that begins or ends a transaction. -/
def transactional (outcome : Database × Session × Result Unit) :
    Database × Session × Result ExecutionResult :=
  (outcome.1, outcome.2.1, outcome.2.2.map fun _ => .ok)

/-- The `COMMIT` case of `executeStatement`: the table pointers are
refreshed after a success. -/
def executeCommit (db : Database) (session : Session) : Database × Session × Result Unit :=
  match session.commit db with
  | (db, session, .ok ()) =>
    match db.refreshTablePointers with
    | .ok db => (db, session, .ok ())
    | .error e => (db, session, .error e)
  | failed => failed

/-- `executeStatement`. -/
def executeStatement (frontend : Frontend) (db : Database) (session : Session) :
    Ast.Statement → Database × Session × Result ExecutionResult
  | .begin => transactional (session.begin db)
  | .commit => transactional (executeCommit db session)
  | .rollback => transactional (session.rollback db)
  | .createTable statement => schemaChange session (orKeep db (db.createTable statement))
  | .dropTable statement => schemaChange session (orKeep db (db.dropTable statement))
  | .insert statement => staged db (executeDml frontend db session (.insert statement))
  | .update statement => staged db (executeDml frontend db session (.update statement))
  | .delete statement => staged db (executeDml frontend db session (.delete statement))
  | .select statement => staged db (executeDml frontend db session (.select statement))
  | .createView statement => schemaChange session (db.createView statement)
  | .dropView statement => schemaChange session (db.dropView statement)
  | .createProcedure statement =>
    schemaChange session (db.createProcedure frontend.parseBody statement)
  | .dropProcedure statement => schemaChange session (db.dropProcedure statement)
  | .call statement => staged db (executeCall frontend db session statement)

/-- `executeSql`. -/
def executeSql (frontend : Frontend) (db : Database) (session : Session) (sql : Bytes) :
    Database × Session × Result ExecutionResult :=
  match frontend.parse sql with
  | none => (db, session, .error .parseDiagnostic)
  | some statement => executeStatement frontend db session statement

end Shoveler
