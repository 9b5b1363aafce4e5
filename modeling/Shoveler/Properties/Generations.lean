import Shoveler.Invariant.Moves
import Shoveler.Properties.OwnTables

/-!
# Generations are accounted for

The registry counts the readers of every generation and keeps what they
need and no more (`registry_accounting`), and the commits that write are
numbered one after the other (`commit_sequencing`). Both hold of every
system that can be reached, whatever its statements were and however they
ended. What counts as a commit that writes is whether the session has a
table transaction, and not whether anything is staged in one, so a commit
that publishes nothing can take a number (`sequence_marks_writes`,
`update_of_nothing_takes_number`).
-/

namespace Shoveler

open Script

namespace System

variable {frontend : Frontend} {sys : System}

/-! ## The registry -/

/-- The active sessions whose handle is at a generation. -/
def holders (sys : System) (g : Generation) : Set ℕ :=
  {i | (sys.sessions i).active = true ∧
    ∃ handle, (sys.sessions i).snapshotHandle = some handle ∧ handle.generation = g}

/-- Those are the sessions that read it. -/
theorem Coherent.holders_eq (h : sys.Coherent) (g : Generation) :
    sys.holders g = readers sys.sessions g := by
  ext i
  rw [mem_readers]
  constructor
  · rintro ⟨-, handle, hhandle, rfl⟩
    rw [Session.reading, hhandle]
    rfl
  · intro hread
    obtain ⟨hactive, hhandle⟩ := (h.shaped i).of_reading hread
    exact ⟨hactive, _, hhandle, rfl⟩

/-- **What the registry accounts for.** -/
structure RegistryAccount (sys : System) : Prop where
  /-- Every generation is counted once for each active session that holds
  a handle at it. -/
  counts : ∀ g, (sys.holders g).encard = sys.db.registry.activeRefCount g
  /-- No generation is retained twice. -/
  once : (sys.db.registry.retained.map RetainedGeneration.generation).Nodup
  /-- What is retained is read, and not newer than the last commit. -/
  needed : ∀ r ∈ sys.db.registry.retained,
    0 < sys.db.registry.activeRefCount r.generation ∧ r.generation ≤ sys.db.commitSequence
  /-- The limit is kept. -/
  limited : sys.db.registry.retained.length ≤ sys.db.registry.retentionLimit
  /-- An active session whose generation is older than the last commit has
  it retained. -/
  retained : ∀ i handle, (sys.sessions i).active = true →
    (sys.sessions i).snapshotHandle = some handle → handle.generation < sys.db.commitSequence →
    ∃ r ∈ sys.db.registry.retained, r.generation = handle.generation
  /-- Where no session is active nothing is left. -/
  emptied : (∀ i, (sys.sessions i).active = false) →
    sys.db.registry.active = [] ∧ sys.db.registry.retained = []

end System

/-- **Registry accounting.** In every reachable system the registry counts
the readers of each generation, and retains, once and within its limit,
exactly older generations that are read. -/
theorem registry_accounting {frontend : Frontend} {sys : System} (h : sys.Reachable frontend) :
    sys.RegistryAccount := by
  have hacc := h.accounted
  have hco := hacc.toCoherent
  refine ⟨fun g => ?_, hco.registry.retained_nodup, fun r hr => ?_, hacc.within,
    fun i handle hactive hhandle hold => ?_, fun hidle => ?_⟩
  · rw [hco.holders_eq g]
    exact hco.counted g
  · obtain ⟨j, hj⟩ := hco.exists_reader hr
    exact ⟨Nat.pos_of_ne_zero (hco.registry.retained_read r hr), hco.bounded j _ hj⟩
  · have hread : (sys.sessions i).reading = some handle.generation := by
      rw [Session.reading, hhandle]
      rfl
    have hkept := hacc.kept i _ hread (Nat.ne_of_lt hold)
    obtain ⟨r, hr⟩ := Option.isSome_iff_exists.1 hkept
    exact ⟨r, List.mem_of_find?_eq_some hr, (Keyed.of_find?_eq_some hr).2⟩
  · exact ⟨hco.active_eq_nil hidle, hco.retained_eq_nil hidle⟩

/-- Session 1 reads while session 0 commits a row. -/
def readWhileCommitting : List Event :=
  [begin 1, begin 0, insert 0 "A" [some 1], commit 0]

/-- Its generation, the one before the commit, is retained. -/
theorem registry_accounting_reader :
    (Script.twoTables.run Script.frontend readWhileCommitting).RegistryAccount ∧
      (Script.twoTables.run Script.frontend readWhileCommitting).db.registry.retained.map
        RetainedGeneration.generation = [0] ∧
      (Script.twoTables.run Script.frontend readWhileCommitting).db.commitSequence = 1 :=
  ⟨registry_accounting (twoTables_reachable.run readWhileCommitting),
    by decide +kernel, by decide +kernel⟩

/-! ## The sequence -/

namespace System

variable {frontend : Frontend} {sys : System}

/-- **The numbers the writing commits of a run are given**, in the order of
the commits: what each leaves in its session's `last_commit_sequence`. -/
def commitNumbers (frontend : Frontend) : System → List Event → List (Option Generation)
  | _, [] => []
  | sys, event :: rest =>
    let sys' := sys.step frontend event
    match sys.writer frontend event with
    | some i => (sys'.sessions i).lastCommitSequence :: commitNumbers frontend sys' rest
    | none => commitNumbers frontend sys' rest

/-- **Over a whole run the numbers are consecutive**, and the sequence ends
at the last of them. -/
theorem Coherent.commitNumbers_eq (h : sys.Coherent) (events : List Event) :
    ∃ n, commitNumbers frontend sys events =
        (List.range' (sys.db.commitSequence + 1) n).map some ∧
      (sys.run frontend events).db.commitSequence = sys.db.commitSequence + n := by
  induction events generalizing sys with
  | nil => exact ⟨0, rfl, rfl⟩
  | cons event rest ih =>
    obtain ⟨n, hnumbers, hlast⟩ := ih (coherent_step frontend h event)
    rw [System.run, Run.run_cons]
    unfold commitNumbers
    cases hw : sys.writer frontend event with
    | none =>
      rw [h.step_silent hw] at hnumbers hlast
      exact ⟨n, hnumbers, hlast⟩
    | some i =>
      obtain ⟨hseq, hgiven⟩ := h.step_writer hw
      rw [hseq] at hnumbers hlast
      refine ⟨n + 1, ?_, ?_⟩
      · simp only [hnumbers, hgiven]
        rw [List.range'_succ, List.map_cons]
      · exact hlast.trans (Nat.add_right_comm _ 1 n)

end System

/-- **Commit sequencing.** In every reachable system the database and the
queue agree on the last commit and no write is pending. A `COMMIT` that
succeeds with tables staged advances the sequence by one and hands the new
number to its session, every other event leaves the sequence alone, and so
the commits of a run that write are numbered consecutively. -/
theorem commit_sequencing {frontend : Frontend} {sys : System} (h : sys.Reachable frontend) :
    sys.db.commitSequence = sys.db.commitQueue.lastAssignedSequence ∧
      sys.db.commitQueue.pendingWrites = 0 ∧
      (∀ i, (sys.sessions i).transactions ≠ [] →
        (sys.perform frontend (.statement i .commit)).2.isOk = true →
        (sys.step frontend (.statement i .commit)).db.commitSequence =
            sys.db.commitSequence + 1 ∧
          ((sys.step frontend (.statement i .commit)).sessions i).lastCommitSequence =
            some (sys.db.commitSequence + 1)) ∧
      (∀ event, sys.writer frontend event = none →
        (sys.step frontend event).db.commitSequence = sys.db.commitSequence) ∧
      ∀ events, ∃ n, sys.commitNumbers frontend events =
          (List.range' (sys.db.commitSequence + 1) n).map some ∧
        (sys.run frontend events).db.commitSequence = sys.db.commitSequence + n := by
  have hco := h.coherent
  refine ⟨hco.queue.sequence.symm, hco.queue.none_pending, fun i hstaged hok => ?_,
    fun event hw => hco.step_silent hw, hco.commitNumbers_eq⟩
  have hw : sys.writer frontend (.statement i .commit) = some i := if_pos ⟨hstaged, hok⟩
  exact hco.step_writer hw

/-- Two sessions that both write, one of them twice, and a commit that
fails in between because nothing was begun. -/
def threeCommits : List Event :=
  [begin 0, insert 0 "A" [some 1], begin 1, insert 1 "B" [some 2],
    commit 1, commit 1, commit 0, begin 1,
    insert 1 "B" [some 3], commit 1]

/-- Their commits are numbered as they come. -/
theorem commit_sequencing_three :
    ∃ n, Script.twoTables.commitNumbers Script.frontend threeCommits =
        (List.range' (Script.twoTables.db.commitSequence + 1) n).map some ∧
      Script.twoTables.commitNumbers Script.frontend threeCommits = [some 1, some 2, some 3] := by
  obtain ⟨-, -, -, -, hrun⟩ := commit_sequencing twoTables_reachable
  obtain ⟨n, hnumbers, -⟩ := hrun threeCommits
  exact ⟨n, hnumbers, by decide +kernel⟩

/-! ## Numbers for nothing -/

/-- **Sequence numbers for published writes.** A `COMMIT` that succeeds
advances the sequence exactly where something is staged, as far as its
session has no table transaction at all or one with something staged; with
table transactions that are all empty it advances the sequence for
nothing. -/
theorem sequence_marks_writes {frontend : Frontend} {sys : System} (h : sys.Reachable frontend)
    (i : ℕ) (hok : (sys.perform frontend (.statement i .commit)).2.isOk = true) :
    (sys.db.commitSequence < (sys.step frontend (.statement i .commit)).db.commitSequence ↔
        ∃ e ∈ (sys.sessions i).transactions, e.tx.Writes) ↔
      (sys.sessions i).transactions = [] ∨ ∃ e ∈ (sys.sessions i).transactions, e.tx.Writes := by
  have hco := h.coherent
  by_cases hnone : (sys.sessions i).transactions = []
  · have hw : sys.writer frontend (.statement i .commit) = none := if_neg fun hw => hw.1 hnone
    rw [hco.step_silent hw, hnone]
    simp
  · have hw : sys.writer frontend (.statement i .commit) = some i := if_pos ⟨hnone, hok⟩
    rw [(hco.step_writer hw).1]
    simp [hnone]

/-- Session 0 begins and inserts a row. -/
def insertOfOne : List Event := [begin 0, insert 0 "A" [some 1]]

/-- Its commit takes a number for the row. -/
theorem sequence_marks_writes_insert :
    (Script.twoTables.run Script.frontend insertOfOne).db.commitSequence <
        ((Script.twoTables.run Script.frontend insertOfOne).step Script.frontend
          (Script.commit 0)).db.commitSequence ↔
      ∃ e ∈ ((Script.twoTables.run Script.frontend insertOfOne).sessions 0).transactions,
        e.tx.Writes := by
  refine (sequence_marks_writes (twoTables_reachable.run insertOfOne) 0 ?_).2 (Or.inr ?_)
  · decide +kernel
  · decide +kernel

/-- Session 0 begins and changes the rows of an empty table. -/
def updateOfNothing : List Event := [begin 0, update 0 "A" "v" 1]

/-- **An update that finds no row takes a number**: all it leaves is an
empty table transaction, its commit succeeds and changes no table, and the
sequence is one further. -/
theorem update_of_nothing_takes_number :
    Script.twoTables.Reachable Script.frontend ∧
      ((Script.twoTables.run Script.frontend updateOfNothing).perform Script.frontend
        (Script.commit 0)).2 = .ok .ok ∧
      (¬∃ e ∈ ((Script.twoTables.run Script.frontend updateOfNothing).sessions 0).transactions,
        e.tx.Writes) ∧
      ((Script.twoTables.run Script.frontend updateOfNothing).step Script.frontend
        (Script.commit 0)).db.tables = Script.twoTables.db.tables ∧
      (Script.twoTables.run Script.frontend updateOfNothing).db.commitSequence = 0 ∧
      ((Script.twoTables.run Script.frontend updateOfNothing).step Script.frontend
        (Script.commit 0)).db.commitSequence = 1 :=
  ⟨twoTables_reachable, by decide +kernel⟩

end Shoveler
