import Shoveler.Common.Files
import Shoveler.Model.Persistence

/-!
# Snapshot files

`writeSnapshot` and `readSnapshot` over the files of a directory. A
snapshot is written to a file of its own beside the old one and then takes
its name, so that the old one is there until the new one is complete. A
file is read back only up to `max_snapshot_bytes`; nothing limits what is
written.
-/

namespace Shoveler

/-- What a call to the file system or to the engine reports. -/
inductive IoError where
  | fileNotFound
  | streamTooLong
  | other (code : ℕ)
  | engine (error : Error)
deriving DecidableEq, Repr

/-- A program over snapshot files. -/
abbrev SnapshotIo (α : Type) := FileIo Bytes UInt8 IoError α

namespace Persistence

open FileIo

/-- `max_snapshot_bytes`. -/
def maxSnapshotBytes : ℕ := 128 * 1024 * 1024

/-- The `tmp_path` of `writeSnapshot`. -/
def tmpPath (path : Bytes) : Bytes := path ++ ascii ".tmp"

/-- A computation of the engine, in a program over files. -/
def ofResult {α : Type} : Result α → SnapshotIo α
  | .ok a => pure a
  | .error e => throw (.error (.engine e))

/-- `file.sync`. -/
def sync : SnapshotIo Unit := touch

/-- `file.close`, which reports nothing. -/
def close : SnapshotIo Unit := quietly touch

/-- The `catch` of `writeSnapshot`: a file that is not there need not be
deleted. -/
def unlessMissing (x : SnapshotIo Unit) : SnapshotIo Unit :=
  tryCatch x fun
    | .error .fileNotFound => pure ()
    | stop => throw stop

/-- `writeSnapshot` while the new file is open: if it cannot be written, it
is closed first. -/
def writeOut (path bytes : Bytes) : SnapshotIo Unit :=
  errdefer
    (do
      writeAll (tmpPath path) bytes
      sync)
    close

/-- `writeSnapshot` once the new file is there. -/
def replaceFile (path bytes : Bytes) : SnapshotIo Unit := do
  writeOut path bytes
  close
  rename .fileNotFound (tmpPath path) path

/-- `writeSnapshot`. -/
def writeSnapshot (path : Bytes) (snapshot : DatabaseSnapshot) : SnapshotIo Unit := do
  let bytes ← ofResult (encodeSnapshot snapshot)
  unlessMissing (deleteFile .fileNotFound (tmpPath path))
  createFile (tmpPath path)
  errdefer (replaceFile path bytes) (quietly (deleteFile .fileNotFound (tmpPath path)))

/-- `readSnapshot`, with `readFileAlloc` refusing what is larger than its
limit. -/
def readSnapshot (files : Files Bytes UInt8) (path : Bytes) : Except IoError DatabaseSnapshot :=
  match files path with
  | none => .error .fileNotFound
  | some bytes =>
    if bytes.length > maxSnapshotBytes then .error .streamTooLong
    else
      match decodeSnapshot bytes with
      | .ok snapshot => .ok snapshot
      | .error e => .error (.engine e)

end Persistence

end Shoveler
