import Shoveler.Common.Run
import Shoveler.Model.Reopen
import Shoveler.Properties.Checkpoint

/-!
# Recovery

`DatabaseHandle` of `handles.zig`: an open database and the file it is
checkpointed to. A checkpoint may fail, or be the last thing the process
does. The file then opens as the database of the last checkpoint that
succeeded, or of one tried since (`recovers`).
-/

namespace Shoveler

open Persistence Outcome FileIo List

/-- The files of a directory, and the handle open on it. -/
structure Host where
  files : Files Bytes UInt8
  handle : Option (Database × Session) := none
  /-- For the statement only: the database of the last checkpoint that
  succeeded and those of all tried since; `none` is no file. -/
  saved : List (Option Database) := [none]

/-- The calls of a handle, with what becomes of their calls to the file
system. When one is opened, the one before is gone. -/
inductive HostEvent where
  | openOrCreate (read : Fate IoError)
  | execute (sql : Bytes)
  | checkpoint (fates : List (Fate IoError))

namespace Host

/-- `checkpoint`. -/
def checkpoint (path : Bytes) (db : Database) : SnapshotIo Unit := do
  writeSnapshot path (← ofResult db.exportSnapshot)

/-- `openExecutorDatabase`. -/
def openExecutorDatabase (frontend : Frontend) (path : Bytes) (files : Files Bytes UInt8) :
    Except IoError Database := do
  (Database.initFromSnapshot frontend (← readSnapshot files path)).mapError .engine

/-- **What a call leaves.** The checkpoint with which `openOrCreate` creates
a file is an event of its own. -/
def step (frontend : Frontend) (path : Bytes) (self : Host) : HostEvent → Host
  | .openOrCreate read =>
    let found := match read with
      | .done => some (openExecutorDatabase frontend path self.files)
      | .failed error _ => some (.error error)
      | .crashed _ => none
    let db := match found with
      | some (.ok db) => some db
      | some (.error .fileNotFound) => some {}
      | _ => none
    { self with handle := db.map fun db => (db, {}) }
  | .execute sql =>
    { self with handle := self.handle.map fun (db, session) =>
        let ended := executeSql frontend db session sql
        (ended.1, ended.2.1) }
  | .checkpoint fates =>
    match self.handle with
    | none => self
    | some (db, _) =>
      let ended := (checkpoint path db).exec ⟨self.files, fates⟩
      { self with
        files := ended.2.files
        saved := some db :: if ended.1.isOk then [] else self.saved }

/-- The file is what a checkpoint writes, or it is not there. -/
def Holds (path : Bytes) (files : Files Bytes UInt8) (kept : Option Database) : Prop :=
  kept.map (fun db => db.exportSnapshot >>= encodeSnapshot) = (files path).map .ok

def Kept (path : Bytes) (self : Host) : Prop := ∃ kept ∈ self.saved, Holds path self.files kept

variable {path : Bytes} {files : Files Bytes UInt8} {db : Database}

/-- What a checkpoint leaves, however it ends. -/
theorem triple_checkpoint : Triple (Untouched path files) (checkpoint path db)
    (fun _ after => Holds path after (some db))
    (fun after => Untouched path files after ∨ Holds path after (some db)) := by
  refine (triple_ofResult fun _ h => .inl h).bind fun snapshot => .assume fun hexport => ?_
  have hholds : ∀ after, (∃ bytes, encodeSnapshot snapshot = .ok bytes ∧
      Replaced path bytes files after) → Holds path after (some db) := by
    rintro after ⟨bytes, hencode, hnew, -⟩
    rw [Holds, hnew, Option.map_some, hexport, ok_bind, hencode]
    rfl
  exact (triple_writeSnapshot path snapshot files).mono (fun _ h => h)
    (fun _ => hholds) fun after h => h.imp_right (hholds after)

theorem Kept.step (frontend : Frontend) {self : Host} (h : self.Kept path) (event : HostEvent) :
    (self.step frontend path event).Kept path := by
  cases event with
  | openOrCreate | execute => exact h
  | checkpoint fates =>
    simp only [Host.step]
    split
    · exact h
    · rename_i db _ _
      obtain ⟨hend, hstop⟩ := @triple_checkpoint path self.files db ⟨_, fates⟩ fun _ _ => rfl
      cases hr : ((checkpoint path db).exec ⟨self.files, fates⟩).1 with
      | ok => exact ⟨_, mem_cons_self, hend () hr⟩
      | error stop =>
        rcases hstop stop hr with hsame | hnew
        · obtain ⟨kept, hmem, hkept⟩ := h
          exact ⟨kept, mem_cons_of_mem _ hmem,
            Eq.trans hkept (congrArg _ (hsame path (tmpPath_ne path).symm).symm)⟩
        · exact ⟨_, mem_cons_self, hnew⟩

/-- **A database comes back after any crash.** There is no file, or it holds,
whole, the export of one of the saved databases, and opens, up to the size
that is read, as reopening gives that database. -/
theorem recovers (frontend : Frontend) (path : Bytes) (files : Files Bytes UInt8)
    (events : List HostEvent) :
    let host := Run.run (step frontend path) { files := Function.update files path none } events
    ∃ kept ∈ host.saved, match kept with
      | none => host.files path = none
      | some db => ∃ bytes, host.files path = some bytes ∧
          db.exportSnapshot >>= encodeSnapshot = .ok bytes ∧
          openExecutorDatabase frontend path host.files =
            if bytes.length > maxSnapshotBytes then .error .streamTooLong
            else (db.reopen frontend).mapError .engine := by
  intro host
  obtain ⟨kept, hmem, hkept⟩ : host.Kept path :=
    Run.run_invariant (C := fun _ _ => True) (fun _ event h _ => h.step frontend event)
      ⟨none, mem_singleton_self _, by simp [Holds]⟩ (Run.along_of_mem fun _ _ _ => trivial)
  refine ⟨kept, hmem, ?_⟩
  cases kept with
  | none => exact Option.map_eq_none_iff.1 hkept.symm
  | some db =>
    obtain ⟨bytes, hfile, hbytes⟩ := Option.map_eq_some_iff.1 hkept.symm
    obtain ⟨snapshot, hexport, hencode⟩ := bind_eq_ok.1 hbytes.symm
    refine ⟨bytes, hfile, hbytes.symm, ?_⟩
    rw [openExecutorDatabase, readSnapshot, hfile, Database.reopen, hexport, ok_bind, hencode,
      ok_bind]
    dsimp only
    split
    · rfl
    · cases decodeSnapshot bytes with
      | error e => rfl
      | ok decoded => rfl

end Host

end Shoveler
