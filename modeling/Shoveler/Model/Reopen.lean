import Shoveler.Model.Persistence
import Shoveler.Model.Statement

/-!
# Export and reopening

`exportSnapshot` and `initFromSnapshot` of `executor.zig`, between which
stands the file format. Both go through the definitions once more: tables
are rebuilt by `cloneTableDef`, rows are put in one by one under their
ids, and views and procedures are registered again. Of a view or a
procedure the catalog has the text of its body only. The runtime view is
made from it by the SQL parser, and the runtime procedure by the parser of
bodies.
-/

namespace Shoveler

namespace Database

/-- The loop of `exportSnapshot` over the stores. -/
def exportStore (exported : DatabaseSnapshot) (state : TableState) : Result RowStore :=
  match exported.catalog.getTable state.name with
  | none => .error .rowStoreMismatch
  | some table => copyRowsIntoStore (RowStore.init table) state.store

/-- `exportSnapshot`. -/
def exportSnapshot (self : Database) : Result DatabaseSnapshot := do
  let tables ← self.tables.mapM fun state => cloneTableDef state.store.table
  let exported := DatabaseSnapshot.refreshStoreTablePointers { catalog := { tables := tables } }
  let stores ← self.tables.mapM (exportStore exported)
  let catalog ← self.catalog.views.foldlM
    (fun catalog view => catalog.registerView view.name view.body) exported.catalog
  let catalog ← self.catalog.procedures.foldlM
    (fun catalog procedure => catalog.registerProcedure procedure.name procedure.body) catalog
  return { catalog := catalog, stores := exported.stores ++ stores }

/-- The loop of `initFromSnapshot` over the tables. -/
def restoreTable (source : DatabaseSnapshot) (self : Database) (table : TableDef) :
    Result Database := do
  let cloned ← cloneTableDef table
  let catalog := { self.catalog with tables := self.catalog.tables ++ [cloned] }
  match catalog.getTable table.name, source.storeForTable table.name with
  | some restored, some store =>
    let store ← copyRowsIntoStore (RowStore.init restored) store
    return { self with
      catalog := catalog
      tables := self.tables ++ [{ name := table.name, store := store }] }
  | _, _ => .error .rowStoreMismatch

/-- `createRuntimeViewFromBody`. -/
def createRuntimeViewFromBody (frontend : Frontend) (self : Database) (name bodySql : Bytes) :
    Result Database :=
  match frontend.parse bodySql with
  | none => .error .parseDiagnostic
  | some (.select select) => do
    let views ← createStoredView self.views name select
    return { self with views := views }
  | some _ => .error .unsupportedView

/-- The loop of `initFromSnapshot` over the views. -/
def restoreView (frontend : Frontend) (self : Database) (view : ViewDef) : Result Database := do
  let catalog ← self.catalog.registerView view.name view.body
  createRuntimeViewFromBody frontend { self with catalog := catalog } view.name view.body

/-- The loop of `initFromSnapshot` over the procedures. The catalog keeps
no parameters, so none are given. -/
def restoreProcedure (frontend : Frontend) (self : Database) (procedure : ProcedureDef) :
    Result Database := do
  let catalog ← self.catalog.registerProcedure procedure.name procedure.body
  let procedures ←
    createStoredProcedure frontend.parseBody self.procedures procedure.name [] procedure.body
  return { self with catalog := catalog, procedures := procedures }

/-- `initFromSnapshot`. -/
def initFromSnapshot (frontend : Frontend) (source : DatabaseSnapshot) : Result Database := do
  let db ← source.catalog.tables.foldlM (restoreTable source) {}
  let db ← source.catalog.views.foldlM (restoreView frontend) db
  let db ← source.catalog.procedures.foldlM (restoreProcedure frontend) db
  db.refreshTablePointers

/-- **Checkpoint and reopen**: export, encode, decode, restore. -/
def reopen (frontend : Frontend) (self : Database) : Result Database := do
  let exported ← self.exportSnapshot
  let bytes ← Persistence.encodeSnapshot exported
  let decoded ← Persistence.decodeSnapshot bytes
  initFromSnapshot frontend decoded

end Database

end Shoveler
