import Shoveler.Common.Codec
import Shoveler.Model.RowStore

/-!
# The snapshot format

How `persistence.zig` writes a database down and reads it back: a header
with a magic word, a version, the length of the payload and its checksum,
then the payload with tables, views and procedures. Counts are 32 bits
wide, numbers little endian, texts length-prefixed, values and column
types tagged. What is read goes through the constructors of the catalog
and the row store, which check it again.
-/

namespace Shoveler

/-! ## Checksums -/

namespace Crc32

/-- One bit of the reflected division. -/
def shift (crc : UInt32) : UInt32 :=
  if crc &&& 1 = 1 then (crc >>> 1) ^^^ 0xEDB88320 else crc >>> 1

/-- One byte of input. -/
def update (crc : UInt32) (byte : UInt8) : UInt32 := Nat.repeat shift 8 (crc ^^^ byte.toUInt32)

/-- `std.hash.Crc32.hash`. -/
def hash (bytes : Bytes) : UInt32 := bytes.foldl update 0xFFFFFFFF ^^^ 0xFFFFFFFF

/-- The check value of the polynomial. -/
example : hash (ascii "123456789") = 0xCBF43926 := by decide +kernel

end Crc32

/-! ## Snapshots -/

/-- `DatabaseSnapshot`: the catalog, and one store for each of its tables. -/
structure DatabaseSnapshot where
  catalog : DatabaseCatalog := {}
  stores : List RowStore := []
deriving DecidableEq

namespace DatabaseSnapshot

/-- `refreshStoreTablePointers`. -/
def refreshStoreTablePointers (self : DatabaseSnapshot) : DatabaseSnapshot :=
  { self with
    stores := self.stores.mapIdx fun index store =>
      match self.catalog.tables[index]? with
      | some table => { store with table := table }
      | none => store }

/-- `tableIndex`. -/
def tableIndex (self : DatabaseSnapshot) (name : Bytes) : Option ℕ :=
  self.catalog.tables.findIdx? fun table => namesEqual table.name name

/-- `storeForTableConst`. -/
def storeForTable (self : DatabaseSnapshot) (name : Bytes) : Option RowStore := do
  self.stores[← self.tableIndex name]?

end DatabaseSnapshot

namespace Persistence

/-- `current_version`. -/
def currentVersion : UInt32 := 2

/-- `magic`. -/
def magic : Bytes := ascii "SHOVELERDB"

/-- `header_size`. -/
def headerSize : ℕ := magic.length + 4 + 8 + 4

/-! ## Writing -/

/-- `appendU8`. -/
def appendU8 (bytes : Bytes) (v : UInt8) : Result Bytes := .ok (bytes ++ [v])

/-- The bytes `appendU32` appends, the least significant first. -/
def bytesOfU32 (v : UInt32) : Bytes :=
  [(v &&& 0xff).toUInt8, ((v >>> 8) &&& 0xff).toUInt8, ((v >>> 16) &&& 0xff).toUInt8,
    ((v >>> 24) &&& 0xff).toUInt8]

/-- `appendU32`. -/
def appendU32 (bytes : Bytes) (v : UInt32) : Result Bytes := .ok (bytes ++ bytesOfU32 v)

/-- The bytes `appendU64` appends. -/
def bytesOfU64 (v : UInt64) : Bytes :=
  [(v &&& 0xff).toUInt8, ((v >>> 8) &&& 0xff).toUInt8, ((v >>> 16) &&& 0xff).toUInt8,
    ((v >>> 24) &&& 0xff).toUInt8, ((v >>> 32) &&& 0xff).toUInt8, ((v >>> 40) &&& 0xff).toUInt8,
    ((v >>> 48) &&& 0xff).toUInt8, ((v >>> 56) &&& 0xff).toUInt8]

/-- `appendU64`. -/
def appendU64 (bytes : Bytes) (v : UInt64) : Result Bytes := .ok (bytes ++ bytesOfU64 v)

/-- `appendCount`. -/
def appendCount (bytes : Bytes) (count : ℕ) : Result Bytes :=
  if count > 0xffffffff then .error .valueTooLarge else appendU32 bytes (UInt32.ofNat count)

/-- `appendBool`. -/
def appendBool (bytes : Bytes) (boolean : Bool) : Result Bytes :=
  appendU8 bytes (if boolean then 1 else 0)

/-- `bytes.appendSlice`. -/
def appendSlice (bytes data : Bytes) : Result Bytes := .ok (bytes ++ data)

/-- `appendBytes`. -/
def appendBytes (bytes data : Bytes) : Result Bytes := do
  let bytes ← appendCount bytes data.length
  appendSlice bytes data

/-- `appendVectorElementType`. -/
def appendVectorElementType (bytes : Bytes) : VectorElementType → Result Bytes
  | .float32 => appendU8 bytes 1

/-- `appendColumnType`. -/
def appendColumnType (bytes : Bytes) : ColumnType → Result Bytes
  | .integer => appendU8 bytes 1
  | .float => appendU8 bytes 2
  | .boolean => appendU8 bytes 3
  | .text => appendU8 bytes 4
  | .blob => appendU8 bytes 5
  | .vector vectorType => do
    let bytes ← appendU8 bytes 6
    let bytes ← appendVectorElementType bytes vectorType.elementType
    appendCount bytes vectorType.dimension

/-- `appendValue`. -/
def appendValue (bytes : Bytes) : Value → Result Bytes
  | .null => appendU8 bytes 0
  | .integer v => do
    let bytes ← appendU8 bytes 1
    appendU64 bytes v.toUInt64
  | .float bits => do
    let bytes ← appendU8 bytes 2
    appendU64 bytes bits
  | .boolean v => do
    let bytes ← appendU8 bytes 3
    appendBool bytes v
  | .text text => do
    let bytes ← appendU8 bytes 4
    appendBytes bytes text
  | .blob blob => do
    let bytes ← appendU8 bytes 5
    appendBytes bytes blob
  | .vector v => do
    let bytes ← appendU8 bytes 6
    let bytes ← appendVectorElementType bytes v.elementType
    let bytes ← appendCount bytes v.dimension
    v.values.foldlM appendU32 bytes

/-- The default of a column in `encodePayload`. -/
def appendDefault (bytes : Bytes) : Option Value → Result Bytes
  | some default => do
    let bytes ← appendBool bytes true
    appendValue bytes default
  | none => appendBool bytes false

/-- The column loop of `encodePayload`. -/
def appendColumn (bytes : Bytes) (column : ColumnDef) : Result Bytes := do
  let bytes ← appendBytes bytes column.name
  let bytes ← appendColumnType bytes column.columnType
  let bytes ← appendBool bytes column.nullable
  let bytes ← appendDefault bytes column.defaultValue
  let bytes ← appendBool bytes column.primaryKey
  appendBool bytes column.autoIncrement

/-- The index loop of `encodePayload`. -/
def appendIndex (bytes : Bytes) (index : IndexDef) : Result Bytes := do
  let bytes ← appendBool bytes (index.kind = .primary)
  let bytes ← appendBytes bytes index.name
  let bytes ← appendCount bytes index.columns.length
  index.columns.foldlM appendBytes bytes

/-- The row loop of `encodePayload`. -/
def appendRow (bytes : Bytes) (row : Row) : Result Bytes := do
  let bytes ← appendU64 bytes row.id
  let bytes ← appendCount bytes row.values.length
  row.values.foldlM appendValue bytes

/-- The table loop of `encodePayload`. -/
def appendTable (bytes : Bytes) (entry : TableDef × RowStore) : Result Bytes := do
  let (table, store) := entry
  let bytes ← appendBytes bytes table.name
  let bytes ← appendCount bytes table.columns.length
  let bytes ← table.columns.foldlM appendColumn bytes
  let bytes ← appendCount bytes table.indexes.length
  let bytes ← table.indexes.foldlM appendIndex bytes
  let bytes ← appendU64 bytes store.nextId
  let bytes ← appendCount bytes store.rows.length
  store.rows.foldlM appendRow bytes

/-- A name and a body, as the view and the procedure loop write them. -/
def appendNamed (bytes : Bytes) (name body : Bytes) : Result Bytes := do
  let bytes ← appendBytes bytes name
  appendBytes bytes body

/-- `encodePayload`. -/
def encodePayload (snapshot : DatabaseSnapshot) : Result Bytes :=
  if snapshot.catalog.tables.length ≠ snapshot.stores.length then .error .rowStoreMismatch
  else do
    let payload ← appendCount [] snapshot.catalog.tables.length
    let payload ← (snapshot.catalog.tables.zip snapshot.stores).foldlM appendTable payload
    let payload ← appendCount payload snapshot.catalog.views.length
    let payload ← snapshot.catalog.views.foldlM
      (fun payload view => appendNamed payload view.name view.body) payload
    let payload ← appendCount payload snapshot.catalog.procedures.length
    snapshot.catalog.procedures.foldlM
      (fun payload procedure => appendNamed payload procedure.name procedure.body) payload

/-- `encodeSnapshot`. The length of a slice is a 64-bit number: a payload
beyond that is never allocated. -/
def encodeSnapshot (snapshot : DatabaseSnapshot) : Result Bytes := do
  let payload ← encodePayload snapshot
  if payload.length ≥ UInt64.size then .error .outOfMemory
  else
    let bytes ← appendSlice [] magic
    let bytes ← appendU32 bytes currentVersion
    let bytes ← appendU64 bytes (UInt64.ofNat payload.length)
    let bytes ← appendU32 bytes (Crc32.hash payload)
    appendSlice bytes payload

/-! ## Reading -/

/-- A reader of snapshot bytes. -/
abbrev Decoder (α : Type) := Reader Error UInt8 α

/-- `readBytes`. -/
def readBytes (len : ℕ) : Decoder Bytes := Reader.take .truncatedPayload len

/-- `readU8`. -/
def readU8 : Decoder UInt8 := do
  match ← readBytes 1 with
  | [b₀] => return b₀
  | _ => throw (.panic .indexOutOfBounds)

/-- The number `readU32` puts together. -/
def u32OfBytes : Bytes → Option UInt32
  | [b₀, b₁, b₂, b₃] =>
    some (b₀.toUInt32 ||| (b₁.toUInt32 <<< 8) ||| (b₂.toUInt32 <<< 16) ||| (b₃.toUInt32 <<< 24))
  | _ => none

/-- `readU32`. -/
def readU32 : Decoder UInt32 := do
  match u32OfBytes (← readBytes 4) with
  | some v => return v
  | none => throw (.panic .indexOutOfBounds)

/-- The number `readU64` puts together. -/
def u64OfBytes : Bytes → Option UInt64
  | [b₀, b₁, b₂, b₃, b₄, b₅, b₆, b₇] =>
    some (b₀.toUInt64 ||| (b₁.toUInt64 <<< 8) ||| (b₂.toUInt64 <<< 16) ||| (b₃.toUInt64 <<< 24)
      ||| (b₄.toUInt64 <<< 32) ||| (b₅.toUInt64 <<< 40) ||| (b₆.toUInt64 <<< 48)
      ||| (b₇.toUInt64 <<< 56))
  | _ => none

/-- `readU64`. -/
def readU64 : Decoder UInt64 := do
  match u64OfBytes (← readBytes 8) with
  | some v => return v
  | none => throw (.panic .indexOutOfBounds)

/-- A count, as the loops use it. -/
def readCount : Decoder ℕ := do return (← readU32).toNat

/-- `readLengthPrefixedBytes`. -/
def readLengthPrefixedBytes : Decoder Bytes := do
  let len ← readCount
  readBytes len

/-- `readBool`. -/
def readBool : Decoder Bool := do
  match ← readU8 with
  | 0 => return false
  | 1 => return true
  | _ => throw .invalidBooleanEncoding

/-- `decodeVectorElementType`. -/
def decodeVectorElementType : Decoder VectorElementType := do
  match ← readU8 with
  | 1 => return .float32
  | _ => throw .invalidVectorElementType

/-- `decodeColumnType`. -/
def decodeColumnType : Decoder ColumnType := do
  match ← readU8 with
  | 1 => return .integer
  | 2 => return .float
  | 3 => return .boolean
  | 4 => return .text
  | 5 => return .blob
  | 6 => do
    let elementType ← decodeVectorElementType
    let dimension ← readCount
    return .vector { elementType := elementType, dimension := dimension }
  | _ => throw .invalidColumnType

/-- `decodeValue`. -/
def decodeValue : Decoder Value := do
  match ← readU8 with
  | 0 => return .null
  | 1 => return .integer (← readU64).toInt64
  | 2 => return .float (← readU64)
  | 3 => return .boolean (← readBool)
  | 4 => return .text (← readLengthPrefixedBytes)
  | 5 => return .blob (← readLengthPrefixedBytes)
  | 6 => do
    let elementType ← decodeVectorElementType
    let dimension ← readCount
    let vectorValues ← Reader.times dimension readU32
    liftM (Value.initVector elementType dimension vectorValues)
  | _ => throw .invalidValueTag

/-- The default of a column in `decodeTable`. -/
def decodeDefault : Decoder (Option Value) := do
  if ← readBool then return some (← decodeValue) else return none

/-- The column loop of `decodeTable`. -/
def decodeColumnSpec : Decoder ColumnSpec := do
  let name ← readLengthPrefixedBytes
  let columnType ← decodeColumnType
  let nullable ← readBool
  let defaultValue ← decodeDefault
  let primaryKey ← readBool
  let autoIncrement ← readBool
  return {
    name := name
    columnType := columnType
    nullable := nullable
    defaultValue := defaultValue
    primaryKey := primaryKey
    autoIncrement := autoIncrement }

/-- `decodeIndexSpec`. -/
def decodeIndexSpec : Decoder IndexSpec := do
  let primary ← readBool
  let name ← readLengthPrefixedBytes
  let columnCount ← readCount
  let columns ← Reader.times columnCount readLengthPrefixedBytes
  return { name := some name, columns := columns, kind := if primary then .primary else .secondary }

/-- `decodeRow`. -/
def decodeRow (store : RowStore) : Decoder RowStore := do
  let id ← readU64
  let valueCount ← readCount
  let values ← Reader.times valueCount decodeValue
  liftM (store.insertWithId id values)

/-- `decodeTable`. -/
def decodeTable (snapshot : DatabaseSnapshot) : Decoder DatabaseSnapshot := do
  let tableName ← readLengthPrefixedBytes
  let columnCount ← readCount
  let specs ← Reader.times columnCount decodeColumnSpec
  let indexCount ← readCount
  let indexes ← Reader.times indexCount decodeIndexSpec
  let catalog ← liftM (snapshot.catalog.createTable
    { name := tableName, columns := specs, indexes := indexes })
  let snapshot := { snapshot with catalog := catalog }.refreshStoreTablePointers
  match snapshot.catalog.getTable tableName with
  | none => throw .rowStoreMismatch
  | some table => do
    let nextId ← readU64
    let rowCount ← readCount
    let store ← Reader.loop rowCount decodeRow { RowStore.init table with nextId := nextId }
    return { snapshot with stores := snapshot.stores ++ [store] }

/-- A name and a body, registered with the catalog. -/
def decodeNamed (register : DatabaseCatalog → Bytes → Bytes → Result DatabaseCatalog)
    (snapshot : DatabaseSnapshot) : Decoder DatabaseSnapshot := do
  let name ← readLengthPrefixedBytes
  let body ← readLengthPrefixedBytes
  let catalog ← liftM (register snapshot.catalog name body)
  return { snapshot with catalog := catalog }

/-- The view loop of `decodePayload`. -/
def decodeView : DatabaseSnapshot → Decoder DatabaseSnapshot :=
  decodeNamed DatabaseCatalog.registerView

/-- The procedure loop of `decodePayload`. -/
def decodeProcedure : DatabaseSnapshot → Decoder DatabaseSnapshot :=
  decodeNamed DatabaseCatalog.registerProcedure

/-- `decodePayload`. -/
def decodePayload : Decoder DatabaseSnapshot := do
  let tableCount ← readCount
  let snapshot ← Reader.loop tableCount decodeTable {}
  let snapshot := snapshot.refreshStoreTablePointers
  let viewCount ← readCount
  let snapshot ← Reader.loop viewCount decodeView snapshot
  let procedureCount ← readCount
  Reader.loop procedureCount decodeProcedure snapshot

/-- The header `decodeSnapshot` reads: the length and the checksum of the
payload. -/
def decodeHeader : Decoder (UInt64 × UInt32) := do
  let foundMagic ← readBytes magic.length
  if foundMagic ≠ magic then throw .invalidHeader
  let version ← readU32
  if version ≠ currentVersion then throw .unsupportedVersion
  return (← readU64, ← readU32)

/-- `decodeSnapshot`. -/
def decodeSnapshot (bytes : Bytes) : Result DatabaseSnapshot :=
  if bytes.length < headerSize then .error .invalidHeader
  else do
    let ((payloadLen, checksum), _) ← decodeHeader.run (Cursor.init bytes)
    if payloadLen.toNat ≠ bytes.length - headerSize then .error .payloadLengthMismatch
    else
      let payload := bytes.drop headerSize
      if Crc32.hash payload ≠ checksum then .error .payloadChecksumMismatch
      else do
        let (snapshot, cursor) ← decodePayload.run (Cursor.init payload)
        if cursor.finished then .ok snapshot else .error .payloadLengthMismatch

end Persistence

end Shoveler
