import Shoveler.Model.RowStore

/-!
# Table transactions

The changes one session has staged for one table, as `transaction.zig`
keeps them: inserted rows under ids reserved locally, whole-row images
for updated rows, and the ids of deleted rows. Nothing reaches the store
before `commit`, which applies the three lists to a clone of it and puts
the clone in its place.

The transaction refers to its store by a pointer into the database's
table list, modelled as the slot it points at. What stands in that slot
is handed to each operation as `store`, the outcome of following the
pointer, so that an operation meets a dangling one where the source
dereferences it.
-/

namespace Shoveler

/-- `TransactionState`. -/
inductive TransactionState where
  | active
  | committed
  | rolledBack
deriving DecidableEq, Repr

/-- `Transaction`. -/
structure Transaction where
  slot : ℕ
  state : TransactionState := .active
  nextId : RowId
  inserts : List Row := []
  updates : List Row := []
  deletes : List RowId := []
deriving DecidableEq, Repr

namespace Transaction

/-- `Transaction.begin`. -/
def begin (slot : ℕ) (store : RowStore) : Transaction := { slot := slot, nextId := store.nextId }

/-- `ensureActive`. -/
def ensureActive (self : Transaction) : Result Unit :=
  match self.state with
  | .active => .ok ()
  | .committed => .error .alreadyCommitted
  | .rolledBack => .error .alreadyRolledBack

/-- `clearLocalRows`. -/
def clearLocalRows (self : Transaction) : Transaction :=
  { self with inserts := [], updates := [], deletes := [] }

/-- `findInsertedIndex`. -/
def findInsertedIndex (self : Transaction) (id : RowId) : Option ℕ :=
  self.inserts.findIdx? fun row => row.id = id

/-- `findUpdatedIndex`. -/
def findUpdatedIndex (self : Transaction) (id : RowId) : Option ℕ :=
  self.updates.findIdx? fun row => row.id = id

/-- `isDeleted`. -/
def isDeleted (self : Transaction) (id : RowId) : Bool := decide (id ∈ self.deletes)

/-- `Transaction.insert`. -/
def insert (self : Transaction) (store : Result RowStore) (values : List Value) :
    Result (RowId × Transaction) := do
  self.ensureActive
  let row ← Row.init (← store).table self.nextId values
  let nextId ← nextAfter self.nextId
  return (self.nextId, { self with inserts := self.inserts ++ [row], nextId := nextId })

/-- The staged images with one more: over the image the row already has,
or at the end. -/
def putUpdate (self : Transaction) (row : Row) : List Row :=
  match self.findUpdatedIndex row.id with
  | some index => self.updates.set index row
  | none => self.updates ++ [row]

/-- The staged images without that of a row. -/
def dropUpdate (self : Transaction) (id : RowId) : List Row :=
  match self.findUpdatedIndex id with
  | some index => self.updates.eraseIdx index
  | none => self.updates

/-- The part of `Transaction.update` for a row that is no local insert. -/
def updateCommitted (self : Transaction) (store : Result RowStore) (id : RowId)
    (values : List Value) : Result Transaction :=
  if self.isDeleted id then .error .unknownRow
  else do
    let store ← store
    match store.get id with
    | none => .error .unknownRow
    | some _ =>
      let row ← Row.init store.table id values
      return { self with updates := self.putUpdate row }

/-- `Transaction.update`. -/
def update (self : Transaction) (store : Result RowStore) (id : RowId) (values : List Value) :
    Result Transaction := do
  self.ensureActive
  match self.findInsertedIndex id with
  | some index =>
    let row ← Row.init (← store).table id values
    return { self with inserts := self.inserts.set index row }
  | none => self.updateCommitted store id values

/-- The part of `Transaction.delete` for a row that is no local insert. -/
def deleteCommitted (self : Transaction) (store : Result RowStore) (id : RowId) :
    Result Transaction := do
  if ((← store).get id).isNone ∨ self.isDeleted id then .error .unknownRow
  else return { self with updates := self.dropUpdate id, deletes := self.deletes ++ [id] }

/-- `Transaction.delete`. -/
def delete (self : Transaction) (store : Result RowStore) (id : RowId) : Result Transaction := do
  self.ensureActive
  match self.findInsertedIndex id with
  | some index => return { self with inserts := self.inserts.eraseIdx index }
  | none => self.deleteCommitted store id

/-- The row `scanWithBase` shows for a committed one: the staged image
where there is one. -/
def visibleRow (self : Transaction) (committed : Row) : Row :=
  match self.updates.find? fun row => row.id = committed.id with
  | some updated => updated
  | none => committed

/-- `Transaction.scanWithBase`. -/
def scanWithBase (self : Transaction) (store : Result RowStore) (base : RowStore) :
    Result (List Row) := do
  self.ensureActive
  let committed ← (base.rows.filter fun row => !self.isDeleted row.id).mapM
    fun row => (self.visibleRow row).clone base.table
  let inserted ← self.inserts.mapM fun row => do row.clone (← store).table
  return committed ++ inserted

/-- `Transaction.scan`. -/
def scan (self : Transaction) (store : RowStore) : Result (List Row) :=
  self.scanWithBase (.ok store) store

/-- The id `commit` gives an inserted row: its own while that is free. -/
def commitId (next : RowStore) (inserted : Row) : RowId :=
  if (next.get inserted.id).isNone then inserted.id else next.nextId

/-- The store `Transaction.commit` puts in place of the one it finds. -/
def publish (self : Transaction) (store : RowStore) : Result RowStore := do
  let next ← store.clone
  let next ← self.deletes.foldlM (fun next id => next.delete id) next
  let next ← self.updates.foldlM (fun next updated => next.update updated.id updated.values) next
  self.inserts.foldlM
    (fun next inserted => next.insertWithId (commitId next inserted) inserted.values) next

/-- `Transaction.commit`: the new store, and the transaction afterwards. -/
def commit (self : Transaction) (store : Result RowStore) : Result (RowStore × Transaction) := do
  self.ensureActive
  let next ← self.publish (← store)
  return (next, { self.clearLocalRows with state := .committed })

/-- `Transaction.rollback`. -/
def rollback (self : Transaction) : Result Transaction := do
  self.ensureActive
  return { self.clearLocalRows with state := .rolledBack }

end Transaction

end Shoveler
