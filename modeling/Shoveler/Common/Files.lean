import Mathlib.Data.List.Basic

/-!
# Files that may be interrupted

Programs over the files of a directory, where every call may fail and the
machine may stop in the middle of any of them. What becomes of the calls
is given beforehand, one fate after the other, so that a program is a
function and a statement about all fates is a statement about everything
that can happen.

`Triple` is the rule of pre- and postconditions for such programs: one
condition for a normal end, and one for every other end.
-/

namespace Shoveler

/-- **What becomes of a call**: it is done, it fails, or the machine stops
in it. `cut` says how much of it took effect by then. -/
inductive Fate (ε : Type) where
  | done
  | failed (error : ε) (cut : ℕ)
  | crashed (cut : ℕ)
deriving DecidableEq, Repr

/-- The files of a directory by their names. -/
abbrev Files (κ β : Type) := κ → Option (List β)

/-- The files, and what becomes of the calls to come. Calls beyond the last
fate are done. -/
structure Disk (κ β ε : Type) where
  files : Files κ β
  fates : List (Fate ε) := []

/-- Why a program stopped before its end. -/
inductive Stop (ε : Type) where
  | error (e : ε)
  | crash
deriving DecidableEq, Repr

/-- A program over files. -/
abbrev FileIo (κ β ε α : Type) := ExceptT (Stop ε) (StateM (Disk κ β ε)) α

namespace FileIo

variable {κ β ε α : Type}

/-- Runs a program, and tells how it ended and what is on the disk. -/
def exec (x : FileIo κ β ε α) (disk : Disk κ β ε) : Except (Stop ε) α × Disk κ β ε := x.run.run disk

/-- A call with an effect on the files, and what it leaves when it fails or
the machine stops in it. -/
def call (whole : Files κ β → Files κ β) (onFailure onCrash : ℕ → Files κ β → Files κ β) :
    FileIo κ β ε Unit := ExceptT.mk fun disk =>
  match disk.fates with
  | [] => (.ok (), { disk with files := whole disk.files })
  | .done :: fates => (.ok (), ⟨whole disk.files, fates⟩)
  | .failed e cut :: fates => (.error (.error e), ⟨onFailure cut disk.files, fates⟩)
  | .crashed cut :: fates => (.error .crash, ⟨onCrash cut disk.files, fates⟩)

/-- The contents of a file, if there is one. -/
def lookup (name : κ) : FileIo κ β ε (Option (List β)) := ExceptT.mk fun disk =>
  (.ok (disk.files name), disk)

/-- All of an effect, or nothing. -/
def allOrNothing (effect : Files κ β → Files κ β) (cut : ℕ) (files : Files κ β) : Files κ β :=
  if cut = 0 then files else effect files

/-- A call without effect on the files. -/
def touch : FileIo κ β ε Unit := call id (fun _ => id) (fun _ => id)

/-- Runs a program for its effect, whether it fails or not. -/
def quietly (x : FileIo κ β ε Unit) : FileIo κ β ε Unit :=
  tryCatch x fun
    | .error _ => pure ()
    | .crash => throw .crash

/-- Runs a program, and cleans up after it if it fails. A machine that has
stopped cleans up nothing. -/
def errdefer (x : FileIo κ β ε α) (cleanup : FileIo κ β ε Unit) : FileIo κ β ε α :=
  tryCatch x fun
    | .error e => do
      cleanup
      throw (.error e)
    | .crash => throw .crash

variable [DecidableEq κ]

/-- Deletes a file, which must be there. -/
def deleteFile (notFound : ε) (name : κ) : FileIo κ β ε Unit := do
  match ← lookup name with
  | none =>
    touch
    throw (.error notFound)
  | some _ =>
    let effect := fun files => Function.update files name none
    call effect (allOrNothing effect) (allOrNothing effect)

/-- Creates a file, empty even if there is one of that name. -/
def createFile (name : κ) : FileIo κ β ε Unit :=
  let effect := fun files => Function.update files name (some [])
  call effect (allOrNothing effect) (allOrNothing effect)

/-- Writes behind what is in a file. What is cut off has written the
beginning. -/
def writeAll (name : κ) (bytes : List β) : FileIo κ β ε Unit :=
  let written := fun cut (files : Files κ β) =>
    Function.update files name (some ((files name).getD [] ++ bytes.take cut))
  call (written bytes.length) written written

/-- Gives a file another name, in place of the file that has it. The change
is atomic, and a call that fails changes nothing. -/
def rename (notFound : ε) (source target : κ) : FileIo κ β ε Unit := do
  match ← lookup source with
  | none =>
    touch
    throw (.error notFound)
  | some bytes =>
    let effect := fun files => Function.update (Function.update files source none) target (some bytes)
    call effect (fun _ => id) (allOrNothing effect)

/-! ### Runs -/

section Runs

variable {κ β ε α α' : Type} {x : FileIo κ β ε α} {f : α → FileIo κ β ε α'}
  {handler : Stop ε → FileIo κ β ε α} {disk disk' : Disk κ β ε} {a : α} {stop : Stop ε}

theorem exec_bind_ok (h : x.exec disk = (.ok a, disk')) : (x >>= f).exec disk = (f a).exec disk' := by
  unfold exec at h ⊢
  rw [ExceptT.run_bind, StateT.run_bind, h]
  rfl

theorem exec_bind_error (h : x.exec disk = (.error stop, disk')) :
    (x >>= f).exec disk = (.error stop, disk') := by
  unfold exec at h ⊢
  rw [ExceptT.run_bind, StateT.run_bind, h]
  rfl

theorem exec_tryCatch_ok (h : x.exec disk = (.ok a, disk')) :
    (MonadExcept.tryCatch x handler).exec disk = (.ok a, disk') := by
  unfold exec at h ⊢
  rw [ExceptT.run_tryCatch, StateT.run_bind, h]
  rfl

theorem exec_tryCatch_error (h : x.exec disk = (.error stop, disk')) :
    (MonadExcept.tryCatch x handler).exec disk = (handler stop).exec disk' := by
  unfold exec at h ⊢
  rw [ExceptT.run_tryCatch, StateT.run_bind, h]
  rfl

end Runs

end FileIo

/-! ## Pre- and postconditions -/

/-- **Whatever becomes of its calls**, a program that starts where `P` holds
ends with `Q`, or stops with `R`. -/
def Triple {κ β ε α : Type} (P : Files κ β → Prop) (x : FileIo κ β ε α)
    (Q : α → Files κ β → Prop) (R : Files κ β → Prop) : Prop :=
  ∀ disk, P disk.files →
    (∀ a, (x.exec disk).1 = .ok a → Q a (x.exec disk).2.files) ∧
    ∀ stop, (x.exec disk).1 = .error stop → R (x.exec disk).2.files

namespace Triple

open FileIo

variable {κ β ε α α' : Type} {P P' : Files κ β → Prop} {x : FileIo κ β ε α}
  {f : α → FileIo κ β ε α'} {Q : α → Files κ β → Prop} {Q' : α' → Files κ β → Prop}
  {R : Files κ β → Prop}

theorem pure {a : α} (h : ∀ files, P files → Q a files) :
    Triple P (Pure.pure a : FileIo κ β ε α) Q R := by
  intro disk hP
  refine ⟨fun a' ha => ?_, nofun⟩
  obtain rfl := Except.ok.inj ha
  exact h _ hP

theorem throw {stop : Stop ε} (h : ∀ files, P files → R files) :
    Triple P (MonadExcept.throw stop : FileIo κ β ε α) Q R :=
  fun _ hP => ⟨nofun, fun _ _ => h _ hP⟩

/-- **One program after another.** -/
theorem bind (hx : Triple P x Q R) (hf : ∀ a, Triple (Q a) (f a) Q' R) :
    Triple P (x >>= f) Q' R := by
  intro disk hP
  have hfirst := hx disk hP
  cases hend : x.exec disk with
  | mk r disk' =>
    rw [hend] at hfirst
    cases r with
    | ok a =>
      rw [exec_bind_ok hend]
      exact hf a disk' (hfirst.1 a rfl)
    | error stop =>
      rw [exec_bind_error hend]
      exact ⟨nofun, fun _ _ => hfirst.2 stop rfl⟩

/-- **A program with a handler**, which starts where the program stopped. -/
theorem tryCatch {handler : Stop ε → FileIo κ β ε α} (hx : Triple P x Q R)
    (hhandler : ∀ stop, Triple R (handler stop) Q R) :
    Triple P (MonadExcept.tryCatch x handler) Q R := by
  intro disk hP
  have hfirst := hx disk hP
  cases hend : x.exec disk with
  | mk r disk' =>
    rw [hend] at hfirst
    cases r with
    | ok a =>
      rw [exec_tryCatch_ok hend]
      exact ⟨fun _ ha => hfirst.1 _ ha, nofun⟩
    | error stop =>
      rw [exec_tryCatch_error hend]
      exact hhandler stop disk' (hfirst.2 stop rfl)

/-- Weaker conditions at the start, stronger ones at the end. -/
theorem mono {R' : Files κ β → Prop} {Q₂ : α → Files κ β → Prop} (hx : Triple P x Q R)
    (hP : ∀ files, P' files → P files) (hQ : ∀ a files, Q a files → Q₂ a files)
    (hR : ∀ files, R files → R' files) : Triple P' x Q₂ R' := by
  intro disk hstart
  obtain ⟨hend, hstop⟩ := hx disk (hP _ hstart)
  exact ⟨fun a ha => hQ _ _ (hend a ha), fun stop hs => hR _ (hstop stop hs)⟩

/-- What holds at the start whatever the files are. -/
theorem assume {p : Prop} (h : p → Triple P x Q R) : Triple (fun files => P files ∧ p) x Q R :=
  fun disk hP => h hP.2 disk hP.1

/-- **What a call does**, whatever becomes of it. -/
theorem call {whole : Files κ β → Files κ β} {onFailure onCrash : ℕ → Files κ β → Files κ β}
    {Q : Unit → Files κ β → Prop}
    (hwhole : ∀ files, P files → Q () (whole files))
    (hfailure : ∀ files cut, P files → R (onFailure cut files))
    (hcrash : ∀ files cut, P files → R (onCrash cut files)) :
    Triple P (FileIo.call whole onFailure onCrash : FileIo κ β ε Unit) Q R := by
  intro disk hP
  obtain ⟨files, fates⟩ := disk
  cases fates with
  | nil => exact ⟨fun _ _ => hwhole _ hP, nofun⟩
  | cons fate fates =>
    cases fate with
    | done => exact ⟨fun _ _ => hwhole _ hP, nofun⟩
    | failed e cut => exact ⟨nofun, fun _ _ => hfailure _ cut hP⟩
    | crashed cut => exact ⟨nofun, fun _ _ => hcrash _ cut hP⟩

theorem touch (h : ∀ files, P files → R files) :
    Triple P (FileIo.touch : FileIo κ β ε Unit) (fun _ => P) R :=
  call (fun _ hP => hP) (fun files _ hP => h files hP) fun files _ hP => h files hP

theorem lookup {name : κ} :
    Triple P (FileIo.lookup name : FileIo κ β ε _)
      (fun contents files => P files ∧ files name = contents) R := by
  intro disk hP
  refine ⟨fun contents hcontents => ?_, nofun⟩
  obtain rfl := Except.ok.inj hcontents
  exact ⟨hP, rfl⟩

theorem quietly {x : FileIo κ β ε Unit} (hx : Triple P x (fun _ => P) P) :
    Triple P (FileIo.quietly x) (fun _ => P) P := by
  refine hx.tryCatch fun stop => ?_
  cases stop with
  | error e => exact pure fun _ hP => hP
  | crash => exact throw fun _ hP => hP

/-- **Cleaning up**, which has to keep what holds wherever the program
stopped. -/
theorem errdefer {cleanup : FileIo κ β ε Unit} (hx : Triple P x Q R)
    (hcleanup : Triple R cleanup (fun _ => R) R) : Triple P (FileIo.errdefer x cleanup) Q R := by
  refine hx.tryCatch fun stop => ?_
  cases stop with
  | error e => exact hcleanup.bind fun _ => throw fun _ hR => hR
  | crash => exact throw fun _ hR => hR

theorem allOrNothing {effect : Files κ β → Files κ β} {cut : ℕ} {files : Files κ β}
    (hnothing : R files) (hall : R (effect files)) : R (FileIo.allOrNothing effect cut files) := by
  unfold FileIo.allOrNothing
  split
  · exact hnothing
  · exact hall

section Names

variable [DecidableEq κ] {notFound : ε} {name : κ}

/-- Deleting a file keeps what does not depend on it. -/
theorem deleteFile (h : ∀ files contents, P files → P (Function.update files name contents)) :
    Triple P (FileIo.deleteFile notFound name : FileIo κ β ε Unit) (fun _ => P) P := by
  refine lookup.bind fun contents => ?_
  cases contents with
  | none => exact (touch fun _ hP => hP.1).bind fun _ => throw fun _ hP => hP.1
  | some bytes =>
    exact call (fun _ hP => h _ _ hP.1) (fun _ _ hP => allOrNothing hP.1 (h _ _ hP.1))
      fun _ _ hP => allOrNothing hP.1 (h _ _ hP.1)

/-- Creating a file leaves it empty. -/
theorem createFile (h : ∀ files contents, P files → P (Function.update files name contents)) :
    Triple P (FileIo.createFile name : FileIo κ β ε Unit)
      (fun _ files => P files ∧ files name = some []) P := by
  unfold FileIo.createFile
  have hpart : ∀ files cut, P files → P (FileIo.allOrNothing
      (fun files => Function.update files name (some [])) cut files) :=
    fun files cut hP => allOrNothing hP (h files _ hP)
  exact call (fun files hP => ⟨h files _ hP, Function.update_self ..⟩) hpart hpart

/-- Writing to an empty file leaves what was written in it. -/
theorem writeAll {bytes : List β}
    (h : ∀ files contents, P files → P (Function.update files name contents)) :
    Triple (fun files => P files ∧ files name = some [])
      (FileIo.writeAll name bytes : FileIo κ β ε Unit)
      (fun _ files => P files ∧ files name = some bytes) P := by
  unfold FileIo.writeAll
  refine call ?_ (fun files cut hP => h files _ hP.1) fun files cut hP => h files _ hP.1
  intro files hP
  refine ⟨h files _ hP.1, ?_⟩
  simp only [Function.update_self, hP.2, List.take_length, Option.getD_some, List.nil_append]

/-- Renaming a file puts its contents in place of the target's, at once. -/
theorem rename {source target : κ} {bytes : List β} {Q : Unit → Files κ β → Prop}
    (h : ∀ files, P files → files source = some bytes →
      Q () (Function.update (Function.update files source none) target (some bytes)))
    (hstop : ∀ files, P files → R files) (hdone : ∀ files, Q () files → R files) :
    Triple (fun files => P files ∧ files source = some bytes)
      (FileIo.rename notFound source target : FileIo κ β ε Unit) Q R := by
  refine lookup.bind fun contents => ?_
  cases contents with
  | none =>
    refine (touch fun _ hP => hstop _ hP.1.1).bind fun _ => throw fun _ hP => hstop _ hP.1.1
  | some bytes' =>
    have heffect : ∀ files, (P files ∧ files source = some bytes) ∧ files source = some bytes' →
        Q () (Function.update (Function.update files source none) target (some bytes')) := by
      rintro files ⟨⟨hP, hsource⟩, hfound⟩
      obtain rfl := Option.some.inj (hsource.symm.trans hfound)
      exact h files hP hsource
    exact call heffect (fun _ _ hP => hstop _ hP.1.1) fun _ _ hP =>
      allOrNothing (hstop _ hP.1.1) (hdone _ (heffect _ hP))

end Names

end Triple

end Shoveler
