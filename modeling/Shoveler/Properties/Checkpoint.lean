import Shoveler.Model.Checkpoint
import Shoveler.Storage.Frame

/-!
# Checkpoints

What `writeSnapshot` leaves behind, however it ends. The file at the path
holds what it held or all of the new snapshot, and nothing but the two
files of the checkpoint is touched (`checkpoint_all_or_nothing`). What it
has written is read back as long as the file is not too large to be read
at all (`checkpoint_reopens`).
-/

namespace Shoveler

open Persistence FileIo Outcome List

theorem tmpPath_ne (path : Bytes) : tmpPath path ≠ path := by
  intro h
  have hlength := congrArg length h
  rw [tmpPath, length_append] at hlength
  have hsuffix : (ascii ".tmp").length = 4 := by decide
  omega

section Writing

variable {path : Bytes} {bytes : Bytes} {before : Files Bytes UInt8}

/-- Nothing has changed but the file the checkpoint works on. -/
def Untouched (path : Bytes) (before files : Files Bytes UInt8) : Prop :=
  ∀ name, name ≠ tmpPath path → files name = before name

/-- The new snapshot is in place, and nothing else has changed. -/
def Replaced (path bytes : Bytes) (before files : Files Bytes UInt8) : Prop :=
  files path = some bytes ∧ ∀ name, name ≠ tmpPath path → name ≠ path → files name = before name

theorem Untouched.update {files : Files Bytes UInt8} (h : Untouched path before files)
    (contents : Option Bytes) :
    Untouched path before (Function.update files (tmpPath path) contents) := by
  intro name hname
  rw [Function.update_of_ne hname]
  exact h name hname

theorem Replaced.update {files : Files Bytes UInt8} (h : Replaced path bytes before files)
    (contents : Option Bytes) :
    Replaced path bytes before (Function.update files (tmpPath path) contents) := by
  refine ⟨?_, fun name htmp hpath => ?_⟩
  · rw [Function.update_of_ne (tmpPath_ne path).symm]
    exact h.1
  · rw [Function.update_of_ne htmp]
    exact h.2 name htmp hpath

/-- The rename puts the new snapshot in place. -/
theorem Untouched.replaced {files : Files Bytes UInt8} (h : Untouched path before files) :
    Replaced path bytes before
      (Function.update (Function.update files (tmpPath path) none) path (some bytes)) := by
  refine ⟨Function.update_self .., fun name htmp hpath => ?_⟩
  rw [Function.update_of_ne hpath, Function.update_of_ne htmp]
  exact h name htmp

/-- A computation of the engine changes nothing. -/
theorem triple_ofResult {α : Type} {P R : Files Bytes UInt8 → Prop} {r : Result α}
    (h : ∀ files, P files → R files) :
    Triple P (ofResult r) (fun a files => P files ∧ r = .ok a) R := by
  cases r with
  | ok a => exact .pure fun _ hP => ⟨hP, rfl⟩
  | error e => exact .throw h

/-- Closing a file changes nothing. -/
theorem triple_close {P R : Files Bytes UInt8 → Prop} (h : ∀ files, P files → R files) :
    Triple P close (fun _ => P) R :=
  (Triple.quietly (.touch fun _ hP => hP)).mono (fun _ hP => hP) (fun _ _ hP => hP) h

/-- **From the new file to its rename**: what is renamed is the whole
snapshot. -/
theorem triple_replaceFile (path bytes : Bytes) (before : Files Bytes UInt8) :
    Triple (fun files => Untouched path before files ∧ files (tmpPath path) = some [])
      (replaceFile path bytes) (fun _ => Replaced path bytes before)
      (fun files => Untouched path before files ∨ Replaced path bytes before files) := by
  have hwrite : Triple (fun files => Untouched path before files ∧ files (tmpPath path) = some [])
      (do
        writeAll (tmpPath path) bytes
        sync : SnapshotIo Unit)
      (fun _ files => Untouched path before files ∧ files (tmpPath path) = some bytes)
      (Untouched path before) :=
    (Triple.writeAll fun _ contents h => h.update contents).bind fun _ => .touch fun _ h => h.1
  have hwritten := (hwrite.errdefer (triple_close fun _ h => h)).mono (fun _ h => h)
    (fun _ _ h => h) fun files h => (Or.inl h : _ ∨ Replaced path bytes before files)
  refine hwritten.bind fun _ => (triple_close fun _ h => .inl h.1).bind fun _ => ?_
  exact Triple.rename (fun _ h _ => h.replaced) (fun _ h => .inl h) fun _ h => .inr h

/-- The old copy of the new file is no concern. -/
theorem triple_unlessMissing (path : Bytes) (before : Files Bytes UInt8) :
    Triple (Untouched path before) (unlessMissing (deleteFile .fileNotFound (tmpPath path)))
      (fun _ => Untouched path before) (Untouched path before) := by
  refine (Triple.deleteFile fun _ contents h => h.update contents).tryCatch fun stop => ?_
  split
  · exact .pure fun _ h => h
  · exact .throw fun _ h => h

/-- **However `writeSnapshot` ends**, the path holds what it held or the
whole new snapshot; it ends normally only with the latter. -/
theorem triple_writeSnapshot (path : Bytes) (snapshot : DatabaseSnapshot)
    (before : Files Bytes UInt8) :
    Triple (Untouched path before) (writeSnapshot path snapshot)
      (fun _ files => ∃ bytes, encodeSnapshot snapshot = .ok bytes ∧
        Replaced path bytes before files)
      (fun files => Untouched path before files ∨
        ∃ bytes, encodeSnapshot snapshot = .ok bytes ∧ Replaced path bytes before files) := by
  refine (triple_ofResult fun _ h => .inl h).bind fun bytes => .assume fun hencode => ?_
  have hcleanup : Triple
      (fun files => Untouched path before files ∨ Replaced path bytes before files)
      (quietly (deleteFile .fileNotFound (tmpPath path)) : SnapshotIo Unit)
      (fun _ files => Untouched path before files ∨ Replaced path bytes before files)
      (fun files => Untouched path before files ∨ Replaced path bytes before files) :=
    .quietly (.deleteFile fun _ contents h =>
      h.imp (fun h => h.update contents) fun h => h.update contents)
  have hcreate : Triple (Untouched path before) (createFile (tmpPath path) : SnapshotIo Unit)
      (fun _ files => Untouched path before files ∧ files (tmpPath path) = some [])
      (Untouched path before) := .createFile fun _ contents h => h.update contents
  -- what a checkpoint may leave when it stops before the rename
  have hstop : ∀ files, Untouched path before files →
      Untouched path before files ∨ Replaced path bytes before files := fun _ h => .inl h
  have hall := ((triple_unlessMissing path before).mono (fun _ h => h) (fun _ _ h => h) hstop).bind
    fun _ => (hcreate.mono (fun _ h => h) (fun _ _ h => h) hstop).bind fun _ =>
      (triple_replaceFile path bytes before).errdefer hcleanup
  exact hall.mono (fun _ h => h) (fun _ _ h => ⟨bytes, hencode, h⟩) fun _ h =>
    h.imp_right fun hnew => ⟨bytes, hencode, hnew⟩

/-! ## Undisturbed -/

theorem exec_unlessMissing (path : Bytes) (files : Files Bytes UInt8) :
    ∃ files', (unlessMissing (deleteFile .fileNotFound (tmpPath path))).exec ⟨files, []⟩ =
      (.ok (), ⟨files', []⟩) := by
  cases hleft : files (tmpPath path) with
  | none =>
    have hmissing : (deleteFile .fileNotFound (tmpPath path) : SnapshotIo Unit).exec ⟨files, []⟩ =
        (.error (.error .fileNotFound), ⟨files, []⟩) := by
      rw [deleteFile, exec_bind_ok (a := none) (by rw [← hleft]; rfl)]
      rfl
    exact ⟨files, exec_tryCatch_error hmissing⟩
  | some old =>
    have hthere : (deleteFile .fileNotFound (tmpPath path) : SnapshotIo Unit).exec ⟨files, []⟩ =
        (.ok (), ⟨Function.update files (tmpPath path) none, []⟩) := by
      rw [deleteFile, exec_bind_ok (a := some old) (by rw [← hleft]; rfl)]
      rfl
    exact ⟨_, exec_tryCatch_ok hthere⟩

theorem exec_replaceFile (path bytes : Bytes) (files : Files Bytes UInt8) :
    ∃ files', (replaceFile path bytes).exec ⟨files, []⟩ = (.ok (), ⟨files', []⟩) := by
  have hwrite : ∃ files₁ contents, (writeOut path bytes).exec ⟨files, []⟩ =
      (.ok (), ⟨files₁, []⟩) ∧ files₁ (tmpPath path) = some contents :=
    ⟨_, _, exec_tryCatch_ok rfl, Function.update_self ..⟩
  obtain ⟨files₁, contents, hwrite, hfound⟩ := hwrite
  have hclose : close.exec ⟨files₁, []⟩ = (.ok (), ⟨files₁, []⟩) := rfl
  -- the file is there when it is renamed
  have hlookup : (lookup (tmpPath path) : SnapshotIo _).exec ⟨files₁, []⟩ =
      (.ok (some contents), ⟨files₁, []⟩) := by
    rw [← hfound]
    rfl
  exact ⟨_, (exec_bind_ok hwrite).trans ((exec_bind_ok hclose).trans (exec_bind_ok hlookup))⟩

/-- **A checkpoint that nothing interrupts succeeds**, whatever an earlier
one has left behind. -/
theorem exec_writeSnapshot {snapshot : DatabaseSnapshot}
    (hencode : encodeSnapshot snapshot = .ok bytes) (path : Bytes) (files : Files Bytes UInt8) :
    ∃ files', (writeSnapshot path snapshot).exec ⟨files, []⟩ = (.ok (), ⟨files', []⟩) := by
  have hresult : (ofResult (.ok bytes)).exec ⟨files, []⟩ = (.ok bytes, ⟨files, []⟩) := rfl
  obtain ⟨files₁, hdelete⟩ := exec_unlessMissing path files
  have hcreate : (createFile (tmpPath path) : SnapshotIo Unit).exec ⟨files₁, []⟩ =
      (.ok (), ⟨Function.update files₁ (tmpPath path) (some []), []⟩) := rfl
  obtain ⟨files₂, hreplace⟩ := exec_replaceFile path bytes
    (Function.update files₁ (tmpPath path) (some []))
  refine ⟨files₂, ?_⟩
  rw [writeSnapshot, hencode, exec_bind_ok hresult, exec_bind_ok hdelete, exec_bind_ok hcreate]
  exact exec_tryCatch_ok hreplace

end Writing

/-! ## All or nothing -/

/-- One checkpoint: the snapshot, and what becomes of the calls. -/
structure Attempt where
  snapshot : DatabaseSnapshot
  fates : List (Fate IoError) := []

/-- How the attempt ends, and what it leaves. -/
def Attempt.exec (path : Bytes) (files : Files Bytes UInt8) (a : Attempt) :
    Except (Stop IoError) Unit × Disk Bytes UInt8 IoError :=
  (writeSnapshot path a.snapshot).exec ⟨files, a.fates⟩

/-- The files after some attempts, each on what the one before has left. -/
def filesAfter (path : Bytes) (files : Files Bytes UInt8) (attempts : List Attempt) :
    Files Bytes UInt8 :=
  attempts.foldl (fun files a => (a.exec path files).2.files) files

/-- What one attempt leaves, and what it has done when it succeeds. -/
theorem Attempt.exec_spec (path : Bytes) (files : Files Bytes UInt8) (a : Attempt) :
    (Untouched path files (a.exec path files).2.files ∨
      ∃ bytes, encodeSnapshot a.snapshot = .ok bytes ∧
        Replaced path bytes files (a.exec path files).2.files) ∧
    ((a.exec path files).1 = .ok () →
      ∃ bytes, encodeSnapshot a.snapshot = .ok bytes ∧
        Replaced path bytes files (a.exec path files).2.files) := by
  obtain ⟨hend, hstop⟩ := triple_writeSnapshot path a.snapshot files ⟨files, a.fates⟩ fun _ _ => rfl
  refine ⟨?_, hend ()⟩
  cases hr : (a.exec path files).1 with
  | ok => exact .inr (hend () hr)
  | error stop => exact hstop stop hr

/-- **A checkpoint is all or nothing**, on whatever earlier ones have left
behind. The file at the path holds what it held or exactly the new
snapshot; the call succeeds only in the latter case; and no file but the
two of the checkpoint is touched. -/
theorem checkpoint_all_or_nothing (path : Bytes) (files : Files Bytes UInt8)
    (earlier : List Attempt) (a : Attempt) :
    ((a.exec path (filesAfter path files earlier)).2.files path =
        filesAfter path files earlier path ∨
      ∃ bytes, encodeSnapshot a.snapshot = .ok bytes ∧
        (a.exec path (filesAfter path files earlier)).2.files path = some bytes) ∧
    ((a.exec path (filesAfter path files earlier)).1 = .ok () →
      ∃ bytes, encodeSnapshot a.snapshot = .ok bytes ∧
        (a.exec path (filesAfter path files earlier)).2.files path = some bytes) ∧
    ∀ name, name ≠ path → name ≠ tmpPath path →
      (a.exec path (filesAfter path files earlier)).2.files name =
        filesAfter path files earlier name := by
  generalize filesAfter path files earlier = before
  obtain ⟨hleft, hsucceeds⟩ := a.exec_spec path before
  refine ⟨?_, fun hok => ?_, fun name hpath htmp => ?_⟩
  · exact hleft.imp (fun h => h path (tmpPath_ne path).symm)
      fun ⟨bytes, hencode, hnew⟩ => ⟨bytes, hencode, hnew.1⟩
  · obtain ⟨bytes, hencode, hnew⟩ := hsucceeds hok
    exact ⟨bytes, hencode, hnew.1⟩
  · rcases hleft with h | ⟨bytes, -, hnew⟩
    · exact h name htmp
    · exact hnew.2 name htmp hpath

/-! ## Reopening -/

/-- What a checkpoint that has succeeded leaves at its path. -/
theorem exists_file_of_success {s : DatabaseSnapshot} {path : Bytes}
    {disk disk' : Disk Bytes UInt8 IoError}
    (h : (writeSnapshot path s).exec disk = (.ok (), disk')) :
    ∃ bytes, encodeSnapshot s = .ok bytes ∧ disk'.files path = some bytes := by
  obtain ⟨hend, -⟩ := triple_writeSnapshot path s disk.files disk fun _ _ => rfl
  rw [h] at hend
  obtain ⟨bytes, hencode, hreplaced⟩ := hend () rfl
  exact ⟨bytes, hencode, hreplaced.1⟩

/-- **A checkpoint that has succeeded can be reopened exactly when the file
is no larger than what is read back**: the writer knows no such limit. -/
theorem checkpoint_reopens {s : DatabaseSnapshot} {path : Bytes}
    {disk disk' : Disk Bytes UInt8 IoError} (hback : s.DecodesBack)
    (hwrite : (writeSnapshot path s).exec disk = (.ok (), disk')) :
    readSnapshot disk'.files path = .ok s ↔
      ∃ bytes, encodeSnapshot s = .ok bytes ∧ bytes.length ≤ maxSnapshotBytes := by
  obtain ⟨bytes, hencode, hfile⟩ := exists_file_of_success hwrite
  have hdecode := hback bytes hencode
  simp only [readSnapshot, hfile, hencode, Except.ok.injEq, exists_eq_left', hdecode]
  by_cases hlarge : bytes.length > maxSnapshotBytes
  · simp only [if_pos hlarge, reduceCtorEq, false_iff]
    omega
  · simp only [if_neg hlarge, true_iff]
    omega

/-- A table of texts. -/
def textTable : TableDef where
  name := ascii "notes"
  columns := [{ name := ascii "body", columnType := .text }]
  indexes := []
  wellFormed := @TableDef.build_wellFormed
    { name := ascii "notes", columns := [{ name := ascii "body", columnType := .text }] } _ _
    (by decide +kernel)

/-- One row with a text in it. -/
def textSnapshot (text : Bytes) : DatabaseSnapshot where
  catalog := { tables := [textTable] }
  stores := [{ table := textTable, rows := [⟨1, [.text text]⟩], nextId := 2 }]

theorem textSnapshot_sound (text : Bytes) : (textSnapshot text).Sound where
  aligned := rfl
  valid := by
    intro store hstore
    obtain rfl := mem_singleton.1 hstore
    refine ⟨fun row hrow => ?_, nodup_singleton _, fun row hrow => ?_⟩
    · obtain rfl := mem_singleton.1 hrow
      rfl
    · obtain rfl := mem_singleton.1 hrow
      exact (by decide : (1 : RowId) < 2)
  distinct := nodup_singleton _
  rebuilds := by
    intro table htable
    obtain rfl := mem_singleton.1 htable
    exact ⟨_, TableDef.cloneTableDef_eq_ok.2 ⟨by decide +kernel, rfl⟩⟩

/-- What is written in front of the row. -/
def textHeader : Bytes :=
  bytesOfU32 1 ++ bytesOfU32 5 ++ ascii "notes" ++ bytesOfU32 1 ++ bytesOfU32 4 ++ ascii "body" ++
    [4, 1, 0, 0, 0] ++ bytesOfU32 0 ++ bytesOfU64 2 ++ bytesOfU32 1

/-- The text is written as it is. -/
theorem encodePayload_textSnapshot {text : Bytes} (h : text.length ≤ 0xffffffff) :
    encodePayload (textSnapshot text) =
      .ok (textHeader ++ bytesOfU64 1 ++ bytesOfU32 1 ++ [4] ++
        bytesOfU32 (UInt32.ofNat text.length) ++ text ++ bytesOfU32 0 ++ bytesOfU32 0) := by
  have htext : ∀ bytes, appendBytes bytes text =
      .ok (bytes ++ bytesOfU32 (UInt32.ofNat text.length) ++ text) := by
    intro bytes
    rw [appendBytes, appendCount, if_neg (by omega)]
    rfl
  have hrow : ∀ bytes, appendRow bytes ⟨1, [.text text]⟩ =
      .ok (bytes ++ bytesOfU64 1 ++ bytesOfU32 1 ++ [4] ++
        bytesOfU32 (UInt32.ofNat text.length) ++ text) := by
    intro bytes
    have hcount : appendCount (bytes ++ bytesOfU64 1) 1 =
        .ok (bytes ++ bytesOfU64 1 ++ bytesOfU32 1) := rfl
    simp only [appendRow, appendU64, ok_bind, length_singleton, hcount,
      foldlM_cons, foldlM_nil, appendValue, appendU8, htext, pure_eq_ok]
  have htable : encodePayload (textSnapshot text) = (do
      let payload ← appendRow textHeader ⟨1, [.text text]⟩
      let payload ← appendCount payload 0
      appendCount payload 0) := by
    have htable : appendTable (bytesOfU32 1)
        (textTable, { table := textTable, rows := [⟨1, [.text text]⟩], nextId := 2 }) =
        appendRow textHeader ⟨1, [.text text]⟩ >>= pure := rfl
    have hstart : appendCount [] 1 = .ok (bytesOfU32 1) := rfl
    have hlength : ¬(textSnapshot text).catalog.tables.length ≠ (textSnapshot text).stores.length :=
      not_not.2 rfl
    rw [encodePayload, if_neg hlength]
    simp only [textSnapshot, length_singleton, length_nil, zip_cons_cons,
      zip_nil_left, foldlM_cons, foldlM_nil, hstart, ok_bind, htable,
      bind_pure, pure_bind]
  have hcount : ∀ bytes, appendCount bytes 0 = .ok (bytes ++ bytesOfU32 0) := fun bytes => rfl
  rw [htable, hrow, ok_bind, hcount, ok_bind, hcount]

/-- The file of a text is little larger than the text. -/
theorem textSnapshot_encodes {text : Bytes} (h : text.length ≤ 0xffffffff) :
    ∃ bytes, encodeSnapshot (textSnapshot text) = .ok bytes ∧
      text.length < bytes.length ∧ bytes.length ≤ text.length + 128 := by
  have hsize : UInt64.size = 18446744073709551616 := rfl
  have hheader : textHeader.length = 46 := by decide
  have hpayload : (textHeader ++ bytesOfU64 1 ++ bytesOfU32 1 ++ [4] ++
      bytesOfU32 (UInt32.ofNat text.length) ++ text ++ bytesOfU32 0 ++ bytesOfU32 0).length =
      text.length + 71 := by
    simp only [length_append, length_bytesOfU32, length_bytesOfU64, hheader,
      length_singleton]
    omega
  have hsize' : headerSize = 26 := by decide
  refine ⟨_, encodeSnapshot_eq_ok.2 ⟨_, encodePayload_textSnapshot h, ?_, rfl⟩, ?_, ?_⟩
  · rw [hpayload]
    omega
  · rw [length_append, hpayload]
    omega
  · rw [length_append, hpayload, length_header]
    omega

/-- A text as large as the largest file that is read back makes a file that
is written and never read again. -/
theorem checkpoint_too_large :
    ∃ (s : DatabaseSnapshot) (disk disk' : Disk Bytes UInt8 IoError), s.DecodesBack ∧
      (writeSnapshot (ascii "db") s).exec disk = (.ok (), disk') ∧
      readSnapshot disk'.files (ascii "db") = .error .streamTooLong := by
  have hlength : (replicate maxSnapshotBytes (97 : UInt8)).length = maxSnapshotBytes :=
    length_replicate
  obtain ⟨bytes, hencode, hlarge, -⟩ := @textSnapshot_encodes
    (replicate maxSnapshotBytes 97) (by rw [hlength]; decide)
  obtain ⟨files, hwrite⟩ := exec_writeSnapshot hencode (ascii "db") fun _ => none
  refine ⟨_, _, _, (textSnapshot_sound _).decodesBack, hwrite, ?_⟩
  obtain ⟨bytes', hencode', hfile⟩ := exists_file_of_success hwrite
  obtain rfl := Except.ok.inj (hencode.symm.trans hencode')
  rw [hlength] at hlarge
  rw [readSnapshot, hfile]
  exact if_pos hlarge

/-- A short text is written and read back. -/
theorem checkpoint_reopens_text :
    ∃ disk disk' : Disk Bytes UInt8 IoError,
      (writeSnapshot (ascii "db") (textSnapshot (ascii "short"))).exec disk = (.ok (), disk') ∧
      readSnapshot disk'.files (ascii "db") = .ok (textSnapshot (ascii "short")) := by
  have hlength : (ascii "short").length = 5 := by decide
  obtain ⟨bytes, hencode, -, hsmall⟩ := @textSnapshot_encodes (ascii "short") (by decide)
  obtain ⟨files, hwrite⟩ := exec_writeSnapshot hencode (ascii "db") fun _ => none
  refine ⟨_, _, hwrite, (checkpoint_reopens (textSnapshot_sound _).decodesBack hwrite).2 ?_⟩
  refine ⟨bytes, hencode, ?_⟩
  unfold maxSnapshotBytes
  omega

end Shoveler
