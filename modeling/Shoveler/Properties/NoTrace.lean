import Shoveler.Invariant.Without
import Shoveler.Properties.Isolation

/-!
# A session that is rolled back

What a session does between its `BEGIN` and its `ROLLBACK` is heard by
nobody else: the run its statements are left out of gives the others the
same answers and ends with the same tables
(`rolled_back_leaves_no_trace`).
-/

namespace Shoveler

open Script

/-- **The same rows, ids and next ids, the same commit sequence and the same
overlay.** -/
structure SameCommitted (db db' : Database) : Prop where
  tables : db.tables = db'.tables
  commitSequence : db.commitSequence = db'.commitSequence
  overlay : db.overlay = db'.overlay

/-- **A session that is rolled back leaves no trace.** In every run from a
system at rest in which no definition changes and no commit stops half way
or is refused for want of room, over tables that can be rebuilt, leave out
what one session does from a `BEGIN` to the `ROLLBACK` that ends it. All
that remains is answered as before, and the tables, the commit sequence and
the overlay are the same at the end. -/
theorem rolled_back_leaves_no_trace (frontend : Frontend) {start : System}
    (hreach : start.Reachable frontend) (hrest : ∀ j, (start.sessions j).active = false)
    (hrebuild : start.db.Rebuilds) {i : ℕ} {before middle after : List Event}
    (hrun : start.Along frontend Untroubled
      (before ++ .statement i .begin :: (middle ++ .statement i .rollback :: after)))
    (hbegin : ((start.run frontend before).perform frontend (.statement i .begin)).2 = .ok .ok)
    (hopen : (start.run frontend (before ++ [.statement i .begin])).Along frontend
      (fun sys event => ((sys.step frontend event).sessions i).active = true) middle) :
    (Run.replies (System.perform frontend) start
        (before ++ ((middle.filter fun event => !event.isOf i) ++ after))).2 =
      (Run.replies (System.perform frontend) start before).2 ++
        (Run.heard (System.perform frontend) (Event.isOf i)
            (start.run frontend (before ++ [.statement i .begin])) middle ++
          (Run.replies (System.perform frontend) (start.run frontend
            (before ++ .statement i .begin :: (middle ++ [.statement i .rollback]))) after).2) ∧
    SameCommitted
      (start.run frontend (before ++ ((middle.filter fun event => !event.isOf i) ++ after))).db
      (start.run frontend
        (before ++ .statement i .begin :: (middle ++ .statement i .rollback :: after))).db := by
  have hfst : ∀ (sys : System) (events : List Event),
      (Run.replies (System.perform frontend) sys events).1 = sys.run frontend events :=
    Run.replies_fst
  have happend : ∀ (sys : System) (first second : List Event),
      sys.run frontend (first ++ second) = (sys.run frontend first).run frontend second :=
    Run.run_append _
  have hsmooth : ∀ {sys : System} {event : Event}, sys.Smooth → Untroubled sys event →
      (sys.step frontend event).Smooth := fun hs hu =>
    System.smooth_step frontend hs (fun hr => hu.1 hr.isDdl) hu.2.1
  obtain ⟨hbefore, hubegin, htail⟩ := Run.along_append.1 hrun
  obtain ⟨hmiddle, hurollback, hafter⟩ := Run.along_append.1 htail
  have hstart : start.Smooth := ⟨hreach.coherent.isolated hrest, hreach.accounted.within, hrebuild⟩
  have hbase : (start.run frontend before).Smooth :=
    Run.run_invariant (I := System.Smooth) (fun _ _ hs hu => hsmooth hs hu) hstart hbefore
  -- the session begins, and is hidden from here on
  have hidle := System.inactive_of_begin hbegin
  have hbegun : System.Without {i}
      ((start.run frontend before).step frontend (.statement i .begin))
      (start.run frontend before) :=
    ((System.Without.hide_iff (hbase.shaped i) hidle).2 (.refl _)).hides frontend hbase rfl
      hubegin.1 hubegin.2.1 fun heq => by cases heq
  rw [happend] at hopen
  obtain ⟨hheard, hopened, hshort, hwithout⟩ := System.Without.run_hidden frontend
    ⟨hsmooth hbase hubegin, hbase, hbegun⟩ hmiddle hopen
  rw [hfst] at hopened hshort
  rw [hfst, hfst] at hwithout
  -- it is rolled back, and there is nothing left to hide
  have hrolled : System.Without {i} (System.step frontend _ (.statement i .rollback)) _ :=
    hwithout.hides frontend hopened rfl hurollback.1 hurollback.2.1 fun heq => by cases heq
  have hclosed := hopened.toIsolated.rollback_closes frontend i
  have hover := hsmooth hopened hurollback
  obtain ⟨hanswers, -, -, hend⟩ := System.Without.run_shown frontend
    ⟨hover, hshort, (System.Without.hide_iff (hover.shaped i) hclosed).1 hrolled⟩ hafter
  rw [hfst, hfst] at hend
  have hwhole : ∀ rest : List Event, start.run frontend
      (before ++ .statement i .begin :: (middle ++ .statement i .rollback :: rest)) =
      ((((start.run frontend before).step frontend (.statement i .begin)).run frontend
        middle).step frontend (.statement i .rollback)).run frontend rest := by
    intro rest
    rw [happend]
    exact happend _ middle (.statement i .rollback :: rest)
  refine ⟨?_, ?_⟩
  · rw [hwhole, happend, Run.replies_append, Run.replies_append]
    simp only [hfst, hheard, hanswers]
    rfl
  · obtain ⟨reg, hdb⟩ := hend.db
    rw [happend, happend, hwhole, hdb]
    exact ⟨rfl, rfl, rfl⟩

/-- What session 0 does after session 1 was rolled back. -/
def afterwards : List Event := [begin 0, insert 0 "A" [some 9], commit 0]

/-- Session 1 has inserted a row while session 2 was at work; without it the
row of session 0 gets the same id. -/
theorem rolled_back_leaves_no_trace_overtaken :
    (Run.replies (System.perform Script.frontend)
        (Script.twoTables.run Script.frontend (oneRow ++ [Script.begin 1])) overtaken).2 =
      [.ok .ok, .ok (.mutationCount 1), .ok (.mutationCount 1), .ok .ok] ∧
    ((overtaken.filter fun event => !event.isOf 1).length = 3 ∧
      SameCommitted
        (Script.twoTables.run Script.frontend
          (oneRow ++ ((overtaken.filter fun event => !event.isOf 1) ++ afterwards))).db
        (Script.twoTables.run Script.frontend (oneRow ++ .statement 1 .begin ::
          (overtaken ++ .statement 1 .rollback :: afterwards))).db) ∧
    (Script.twoTables.run Script.frontend (oneRow ++ .statement 1 .begin ::
        (overtaken ++ .statement 1 .rollback :: afterwards))).db.tables.map
          (fun t => t.store.rows) =
      [[⟨1, [.integer 5]⟩, ⟨2, [.integer 9]⟩], []] := by
  refine ⟨by decide +kernel, ⟨by decide, ?_⟩, by decide +kernel⟩
  exact (rolled_back_leaves_no_trace frontend twoTables_reachable
    twoTables_atRest (by decide +kernel) (by decide +kernel) (by decide +kernel)
    (by decide +kernel)).2

end Shoveler
