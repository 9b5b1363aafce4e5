import Shoveler.Model.RowStore

/-!
# Snapshot generations and the commit queue

The registry of `snapshot.zig` counts the sessions that read each
generation and keeps the tables of older generations that are still
read. Rows are not copied when a session begins: the generation it reads
is retained by the next writer that commits over it.

The queue of `commit_queue.zig` bounds the commits in flight and hands
out their sequence numbers.
-/

namespace Shoveler

/-- `SnapshotGeneration`, and `CommitSequence`: counters that start at
zero. -/
abbrev Generation := ℕ

/-- `SnapshotHandle`. -/
structure SnapshotHandle where
  generation : Generation
  released : Bool := false
deriving DecidableEq, Repr

/-- `TableSource`. -/
structure TableSource where
  table : TableDef
  store : RowStore
deriving DecidableEq

/-- `RetainedTable`. -/
structure RetainedTable where
  table : TableDef
  store : RowStore
deriving DecidableEq

/-- The rows of a store put into another, one by one under their ids. -/
def insertRows (rows : List Row) (target : RowStore) : Result RowStore :=
  rows.foldlM (fun target row => target.insertWithId row.id row.values) target

/-- The loop `RetainedTable.init` and `copyRowsIntoStore` share: the rows
one by one, then the next id. -/
def copyRowsIntoStore (target source : RowStore) : Result RowStore := do
  let target ← insertRows source.rows target
  return { target with nextId := source.nextId }

/-- `RetainedTable.init`. -/
def RetainedTable.init (source : TableSource) : Result RetainedTable := do
  let table ← cloneTableDef source.table
  let store ← copyRowsIntoStore (RowStore.init table) source.store
  return { table := table, store := store }

/-- `RetainedGeneration`. -/
structure RetainedGeneration where
  generation : Generation
  tables : List RetainedTable := []
deriving DecidableEq

/-- `RetainedGeneration.storeForTable`. -/
def RetainedGeneration.storeForTable (self : RetainedGeneration) (tableName : Bytes) :
    Option RowStore :=
  (self.tables.find? fun table => namesEqual table.table.name tableName).map RetainedTable.store

/-- `ActiveGeneration`. -/
structure ActiveGeneration where
  generation : Generation
  refCount : ℕ := 0
deriving DecidableEq, Repr

/-- `default_config.snapshot_retention_generations`. -/
def snapshotRetentionGenerations : ℕ := 64

/-- `Registry`. -/
structure Registry where
  retentionLimit : ℕ := snapshotRetentionGenerations
  active : List ActiveGeneration := []
  retained : List RetainedGeneration := []
deriving DecidableEq

namespace Registry

/-- `findActiveIndex`. -/
def findActiveIndex (self : Registry) (generation : Generation) : Option ℕ :=
  self.active.findIdx? fun active => active.generation = generation

/-- `findRetainedIndex`. -/
def findRetainedIndex (self : Registry) (generation : Generation) : Option ℕ :=
  self.retained.findIdx? fun retained => retained.generation = generation

/-- `activeRefCount`. -/
def activeRefCount (self : Registry) (generation : Generation) : ℕ :=
  match self.active.find? fun active => active.generation = generation with
  | none => 0
  | some active => active.refCount

/-- `acquire`. -/
def acquire (self : Registry) (generation : Generation) : Registry × SnapshotHandle :=
  let active := match self.findActiveIndex generation with
    | some index => self.active.modify index fun a => { a with refCount := a.refCount + 1 }
    | none => self.active ++ [{ generation := generation, refCount := 1 }]
  ({ self with active := active }, { generation := generation })

/-- `needsRetention`: whether someone besides the given handle reads the
generation, and nobody has retained it yet. -/
def needsRetention (self : Registry) (generation : Generation)
    (excluding : Option SnapshotHandle) : Bool :=
  let refs := self.activeRefCount generation
  let refs := match excluding with
    | some handle =>
      if !handle.released ∧ handle.generation = generation ∧ refs > 0 then refs - 1 else refs
    | none => refs
  decide (refs > 0) && (self.findRetainedIndex generation).isNone

/-- `sweepReleasedGenerations`. -/
def sweepReleasedGenerations (self : Registry) : Registry :=
  { self with
    retained := self.retained.filter fun r => decide (self.activeRefCount r.generation ≠ 0) }

/-- `retainGeneration`. The sweep stays even where the limit is reached or
the capture fails. -/
def retainGeneration (self : Registry) (generation : Generation) (sources : List TableSource) :
    Registry × Result Unit :=
  if (self.findRetainedIndex generation).isSome then (self, .ok ())
  else
    let self := self.sweepReleasedGenerations
    if self.retained.length ≥ self.retentionLimit then (self, .error .snapshotRetentionExceeded)
    else
      match sources.mapM RetainedTable.init with
      | .error e => (self, .error e)
      | .ok tables =>
        let retained := { generation := generation, tables := tables }
        ({ self with retained := self.retained ++ [retained] }, .ok ())

/-- `retainedStoreForTable`. -/
def retainedStoreForTable (self : Registry) (generation : Generation) (tableName : Bytes) :
    Option RowStore :=
  match self.retained.find? fun retained => retained.generation = generation with
  | none => none
  | some retained => retained.storeForTable tableName

/-- `releaseGeneration`. -/
def releaseGeneration (self : Registry) (generation : Generation) : Registry :=
  match self.findActiveIndex generation with
  | none => self
  | some index =>
    let active :=
      if self.activeRefCount generation > 1 then
        self.active.modify index fun a => { a with refCount := a.refCount - 1 }
      else self.active.eraseIdx index
    { self with active := active }.sweepReleasedGenerations

/-- `SnapshotHandle.release`, on the registry the handle points at. -/
def release (self : Registry) (handle : SnapshotHandle) : Registry :=
  if handle.released then self else self.releaseGeneration handle.generation

end Registry

/-! ## The commit queue -/

/-- `default_config.max_pending_writes`. -/
def maxPendingWrites : ℕ := 1024

/-- `Queue`. -/
structure Queue where
  maxPendingWrites : ℕ := Shoveler.maxPendingWrites
  pendingWrites : ℕ := 0
  lastAssignedSequence : Generation := 0
deriving DecidableEq, Repr

namespace Queue

/-- `enqueue`. -/
def enqueue (self : Queue) : Result Queue :=
  if self.maxPendingWrites = 0 then .error .invalidCommitQueueLimit
  else if ¬self.pendingWrites < self.maxPendingWrites then .error .commitQueueFull
  else .ok { self with pendingWrites := self.pendingWrites + 1 }

/-- `abortQueuedCommit`; the source asserts that a write is pending. -/
def abortQueuedCommit (self : Queue) : Queue :=
  { self with pendingWrites := self.pendingWrites - 1 }

/-- `completeQueuedCommit`; the sequence handed out is the new last one. -/
def completeQueuedCommit (self : Queue) : Queue :=
  { self with
    pendingWrites := self.pendingWrites - 1
    lastAssignedSequence := self.lastAssignedSequence + 1 }

end Queue

end Shoveler
