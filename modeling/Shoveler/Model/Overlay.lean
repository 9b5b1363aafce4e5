import Shoveler.Model.Snapshot

/-!
# The vector overlay

The deltas of `overlay.zig`: the vectors of committed rows, by table,
column and row id, with the generation they were last recorded at.
-/

namespace Shoveler

/-- `Delta`. -/
structure Delta where
  generation : Generation
  tableName : Bytes
  columnName : Bytes
  rowId : RowId
  vector : List UInt32
deriving DecidableEq, Repr

/-- `matches`. -/
def Delta.matchesColumn (self : Delta) (tableName columnName : Bytes) : Bool :=
  namesEqual self.tableName tableName && namesEqual self.columnName columnName

/-- `Overlay`. -/
structure Overlay where
  deltas : List Delta := []
deriving DecidableEq, Repr

namespace Overlay

/-- `findIndex`. -/
def findIndex (self : Overlay) (tableName columnName : Bytes) (rowId : RowId) : Option ℕ :=
  self.deltas.findIdx? fun delta =>
    decide (delta.rowId = rowId) && delta.matchesColumn tableName columnName

/-- `recordVector`. -/
def recordVector (self : Overlay) (generation : Generation) (tableName columnName : Bytes)
    (rowId : RowId) (vector : List UInt32) : Overlay :=
  match self.findIndex tableName columnName rowId with
  | some index =>
    ⟨self.deltas.modify index fun d => { d with vector := vector, generation := generation }⟩
  | none => ⟨self.deltas ++ [⟨generation, tableName, columnName, rowId, vector⟩]⟩

/-- One cell of `recordCommittedStore`: only vectors in a column of the
table are recorded. -/
def recordCell (self : Overlay) (generation : Generation) (tableName : Bytes) (table : TableDef)
    (rowId : RowId) (cell : Value × ℕ) : Overlay :=
  match cell.1, table.columnAt cell.2 with
  | .vector v, some column => self.recordVector generation tableName column.name rowId v.values
  | _, _ => self

/-- `recordCommittedStore`. -/
def recordCommittedStore (self : Overlay) (generation : Generation) (tableName : Bytes)
    (table : TableDef) (store : RowStore) : Overlay :=
  store.rows.foldl
    (fun overlay row =>
      row.values.zipIdx.foldl
        (fun overlay cell => overlay.recordCell generation tableName table row.id cell) overlay)
    self

/-- The loop of `drainReady` over the deltas from the current index on:
those drained, and those kept. -/
def drainLoop (throughGeneration : Generation) : ℕ → List Delta → List Delta × List Delta
  | _, [] => ([], [])
  | 0, deltas => ([], deltas)
  | room + 1, delta :: rest =>
    if delta.generation > throughGeneration then
      let (drained, kept) := drainLoop throughGeneration (room + 1) rest
      (drained, delta :: kept)
    else
      let (drained, kept) := drainLoop throughGeneration room rest
      (delta :: drained, kept)

/-- `drainReady`. -/
def drainReady (self : Overlay) (throughGeneration : Generation) (maxCount : ℕ) :
    List Delta × Overlay :=
  let (drained, kept) := drainLoop throughGeneration maxCount self.deltas
  (drained, ⟨kept⟩)

end Overlay

end Shoveler
