import Shoveler.Invariant.Alike
import Shoveler.Invariant.Isolated
import Shoveler.Invariant.Moves
import Shoveler.Invariant.Retention

/-!
# A system without some of its sessions

A run is compared with the same run without the statements of a session
(`System.Without`). The databases differ in the registry alone: as long as
the session is there its generation is counted, and may be kept, once more.
What is kept in both is the same, and what is kept in one of them only is
the live tables, so every other session reads the same rows in both. And
the registry of the smaller system keeps no generation that the other does
not, so its commits are not refused where the other's are not (`room`). An
event of a session that is shown therefore gets the same answer in both
(`Without.step`), and a statement of a hidden one is not noticed unless it
is a commit that goes through (`Without.hides`).
-/

namespace Shoveler

/-! ## Events that are no trouble -/

/-- **A commit that is not refused for want of room.** -/
def StaysWithin (sys : System) : Event → Prop
  | .statement i .commit =>
    ((sys.sessions i).commit sys.db).2.2 ≠ .error .snapshotRetentionExceeded
  | _ => True

instance (sys : System) : DecidablePred (StaysWithin sys) := by
  rintro (⟨i, ⟨⟩⟩ | _ | _)
  case statement.commit => exact inferInstanceAs (Decidable (_ ≠ _))
  all_goals exact instDecidableTrue

/-- **An event that changes no definition, and no commit that stops half way
or is refused for want of room.** -/
def Untroubled (sys : System) (event : Event) : Prop :=
  ¬event.IsDdl ∧ CommitsClean sys event ∧ StaysWithin sys event

instance (sys : System) (event : Event) : Decidable (Untroubled sys event) :=
  inferInstanceAs (Decidable (_ ∧ _ ∧ _))

/-- An event of a session. -/
def Event.isOf (i : ℕ) : Event → Bool
  | .statement j _ | .deinit j => decide (j = i)
  | .drain _ _ => false

/-! ## Commits -/

/-- Two commits of one session that both get past retention differ in the
registry only, where their databases do. -/
theorem Session.commit_beside_registry {s : Session} {db : Database} {reg' : Registry}
    (hret : s.active = true → s.transactions ≠ [] →
      ∃ reg, db.retainCurrentGenerationForActiveSnapshots s.snapshotHandle = (reg, .ok ()))
    (hret' : s.active = true → s.transactions ≠ [] →
      ∃ reg, Database.retainCurrentGenerationForActiveSnapshots { db with registry := reg' }
        s.snapshotHandle = (reg, .ok ())) :
    ∃ reg, s.commit { db with registry := reg' } =
      ({ (s.commit db).1 with registry := reg }, (s.commit db).2) := by
  unfold Session.commit
  split
  · exact ⟨reg', rfl⟩
  · rename_i ha
    split
    · exact ⟨_, rfl⟩
    · rename_i ht
      have ha' : s.active = true := by simpa using ha
      have ht' : s.transactions ≠ [] := by simpa using ht
      obtain ⟨reg, hr⟩ := hret ha' ht'
      obtain ⟨reg₁, hr'⟩ := hret' ha' ht'
      simp only [hr, hr']
      cases db.commitQueue.enqueue with
      | error e => exact ⟨reg', rfl⟩
      | ok queue =>
        cases Session.publishAll s.transactions db.tables with
        | mk tables rest =>
          obtain ⟨transactions, outcome⟩ := rest
          cases outcome with
          | error e => exact ⟨reg₁, rfl⟩
          | ok => exact ⟨_, rfl⟩

namespace System

variable {sys sys' : System} {i : ℕ}

/-! ## Systems whose commits go well -/

/-- **A system in which nothing but the limit keeps a commit from
retaining.** -/
structure Smooth (sys : System) : Prop extends sys.Isolated where
  within : sys.db.registry.Within
  rebuilds : sys.db.Rebuilds

theorem Smooth.accounted (h : sys.Smooth) : sys.Accounted :=
  ⟨h.toCoherent, h.within, h.kept⟩

theorem smooth_step (frontend : Frontend) (h : sys.Smooth) {event : Event}
    (hddl : ¬event.Reshapes) (hclean : CommitsClean sys event) :
    (sys.step frontend event).Smooth :=
  ⟨isolated_step frontend h.toIsolated hddl hclean,
    (accounted_step frontend h.accounted event).within,
    rebuilds_of_follows h.rebuilds (follows_step frontend h.toCoherent hddl)⟩

/-! ## A system without some of its sessions -/

/-- **The same system without some of its sessions**: they are closed, the
others are the same and read the same, and the databases differ in the
registry only. -/
structure Without (hidden : Set ℕ) (sys sys' : System) : Prop where
  db : ∃ reg, sys'.db = { sys.db with registry := reg }
  limit : sys'.db.registry.retentionLimit = sys.db.registry.retentionLimit
  shown : ∀ j, j ∉ hidden → sys'.sessions j = sys.sessions j
  closed : ∀ j, j ∈ hidden → sys'.sessions j = (sys.sessions j).close
  reads : ∀ j g, j ∉ hidden → (sys.sessions j).reading = some g →
    sys'.db.baseStores (some g) = sys.db.baseStores (some g)

namespace Without

variable {hidden : Set ℕ}

theorem refl (sys : System) : Without ∅ sys sys where
  db := ⟨sys.db.registry, rfl⟩
  limit := rfl
  shown := fun _ _ => rfl
  closed := fun _ hj => hj.elim
  reads := fun _ _ _ _ => rfl

/-- A session that is not active may be hidden or shown. -/
theorem hide_iff (hs : (sys.sessions i).Shaped) (ha : (sys.sessions i).active = false) :
    Without {i} sys sys' ↔ Without ∅ sys sys' := by
  have hclose : (sys.sessions i).close = sys.sessions i := by
    obtain ⟨hhandle, hseq, htx⟩ := hs.closed ha
    rw [Session.close, ← ha, ← hhandle, ← hseq, ← htx]
  constructor
  · intro h
    refine ⟨h.db, h.limit, fun j _ => ?_, fun j hj => hj.elim, fun j g _ hj => ?_⟩
    · by_cases hji : j = i
      · subst hji
        rw [h.closed j rfl, hclose]
      · exact h.shown j hji
    · refine h.reads j g (fun hji => ?_) hj
      rw [Set.mem_singleton_iff.1 hji, Session.reading, (hs.closed ha).1] at hj
      cases hj
  · intro h
    refine ⟨h.db, h.limit, fun j _ => h.shown j (Set.notMem_empty j), fun j hj => ?_,
      fun j g _ => h.reads j g (Set.notMem_empty j)⟩
    rw [Set.mem_singleton_iff.1 hj, h.shown i (Set.notMem_empty i), hclose]

/-- Who reads in the smaller system is shown, and reads the same in the
other. -/
theorem reading (h : Without hidden sys sys') {j : ℕ} {g : Generation}
    (hj : (sys'.sessions j).reading = some g) :
    j ∉ hidden ∧ (sys.sessions j).reading = some g := by
  have hnot : j ∉ hidden := by
    intro hmem
    rw [h.closed j hmem] at hj
    cases hj
  rw [h.shown j hnot] at hj
  exact ⟨hnot, hj⟩

/-! ### Retention -/

/-- **What the smaller system would have to retain besides what it has, the
other retains**: so where the other's retention goes through, there is
room. -/
theorem room (h : Without hidden sys sys') (hs : sys.Accounted) (hs' : sys'.Coherent)
    {reg : Registry}
    (hret : sys.db.retainCurrentGenerationForActiveSnapshots (sys.sessions i).snapshotHandle =
      (reg, .ok ()))
    (hneeds : sys'.db.registry.needsRetention sys'.db.commitSequence
      (sys'.sessions i).snapshotHandle = true) :
    sys'.db.registry.retained.length < sys'.db.registry.retentionLimit := by
  obtain ⟨reg', hdb⟩ := h.db
  have hseq : sys'.db.commitSequence = sys.db.commitSequence := by rw [hdb]
  have hnone := (Registry.of_needsRetention hneeds).2
  have hnew : sys'.db.commitSequence ∉
      sys'.db.registry.retained.map RetainedGeneration.generation := Keyed.find?_eq_none.1 hnone
  have hkept : ∀ g, (reg.retainedAt g).isSome = true →
      g ∈ reg.retained.map RetainedGeneration.generation := by
    intro g hg
    obtain ⟨r, hr⟩ := Option.isSome_iff_exists.1 hg
    obtain ⟨hmem, hgen⟩ := Keyed.of_find?_eq_some hr
    exact List.mem_map.2 ⟨r, hmem, hgen⟩
  have hsubset : sys'.db.commitSequence ::
      sys'.db.registry.retained.map RetainedGeneration.generation ⊆
        reg.retained.map RetainedGeneration.generation := by
    refine List.cons_subset.2 ⟨hkept _ ?_, fun g hg => hkept g ?_⟩
    · obtain ⟨k, hki, hk⟩ := hs'.exists_other_reader hneeds
      rw [hseq] at hk ⊢
      exact hs.retained_of_ne hret hki (h.reading hk).2
    · have hne : g ≠ sys.db.commitSequence := by
        rintro rfl
        exact hnew (hseq ▸ hg)
      obtain ⟨r, hr, rfl⟩ := List.mem_map.1 hg
      obtain ⟨k, hk⟩ := hs'.exists_reader hr
      exact hs.retained_of_older hret (h.reading hk).2 hne
  have hnodup := List.nodup_cons.2 ⟨hnew, hs'.registry.retained_nodup⟩
  have hlength := (List.subperm_of_subset hnodup hsubset).length_le
  have hwithin : reg.retained.length ≤ reg.retentionLimit := hs.within.retainCurrent hret
  have hlimit := @retentionLimit_retainCurrent sys.db (sys.sessions i).snapshotHandle
  rw [hret] at hlimit
  rw [List.length_cons, List.length_map, List.length_map] at hlength
  rw [h.limit, ← hlimit]
  exact Nat.lt_of_lt_of_le hlength hwithin

/-! ### Statements -/

/-- **A commit of a session that is shown** has the same outcome, and leaves
the same but for the registry. -/
theorem commit (h : Without hidden sys sys') (hs : sys.Smooth) (hs' : sys'.Smooth)
    (hi : i ∉ hidden) (hlimit : StaysWithin sys (.statement i .commit)) :
    ∃ reg, (sys'.sessions i).commit sys'.db =
      ({ ((sys.sessions i).commit sys.db).1 with registry := reg },
        ((sys.sessions i).commit sys.db).2) := by
  obtain ⟨reg', hdb⟩ := h.db
  have hretain : (sys.sessions i).active = true → (sys.sessions i).transactions ≠ [] →
      ∃ reg, sys.db.retainCurrentGenerationForActiveSnapshots (sys.sessions i).snapshotHandle =
        (reg, .ok ()) := by
    intro ha ht
    have hout := hs.commit_outcome i
    simp only [StaysWithin] at hlimit
    generalize (sys.sessions i).commit sys.db = r at hout hlimit
    cases hout with
    | inactive hn =>
      rw [ha] at hn
      cases hn
    | idle _ hnil => exact absurd hnil ht
    | refused e _ _ hr =>
      obtain rfl := hs.toCoherent.retention_error hs.rebuilds hr
      exact absurd rfl hlimit
    | stopped registry _ _ _ _ _ hr => exact ⟨registry, hr⟩
    | published registry _ _ _ _ hr => exact ⟨registry, hr⟩
  have hretain' : (sys.sessions i).active = true → (sys.sessions i).transactions ≠ [] →
      ∃ reg, sys'.db.retainCurrentGenerationForActiveSnapshots (sys.sessions i).snapshotHandle =
        (reg, .ok ()) := by
    intro ha ht
    obtain ⟨reg, hret⟩ := hretain ha ht
    refine retainCurrent_of_room hs'.valid hs'.registry hs'.rebuilds fun hneeds => ?_
    rw [← h.shown i hi] at hneeds
    exact h.room hs.accounted hs'.toCoherent hret hneeds
  rw [h.shown i hi, hdb]
  rw [hdb] at hretain'
  exact Session.commit_beside_registry hretain hretain'

/-- What a session that is shown reads and stages is alike in both. -/
theorem readsAlike (h : Without hidden sys sys') (hs : sys.Smooth) (hs' : sys'.Smooth)
    (hi : i ∉ hidden) :
    ReadsAlike sys.db (sys.sessions i) sys'.db (sys'.sessions i) := by
  obtain ⟨reg, hdb⟩ := h.db
  have htables : sys'.db.tables = sys.db.tables := by rw [hdb]
  have hsession := h.shown i hi
  refine ⟨htables, by rw [hdb], by rw [hsession], by rw [hsession], fun t ht => ?_⟩
  obtain ⟨k, hk⟩ := List.getElem?_of_mem ht
  cases ha : (sys.sessions i).active with
  | false =>
    -- a session that has not begun reads the live tables
    have hlive : ∀ db : Database, (sys.sessions i).baseStoreForRead db t = .ok t.store := by
      intro db
      rw [Session.baseStoreForRead, Session.snapshotStoreForRead, if_pos (by simp [ha])]
      rfl
    rw [hsession, hlive, hlive]
  | true =>
    obtain ⟨g, hg⟩ := (hs.shaped i).reading_of_active ha
    have ha' : (sys'.sessions i).active = true := by rw [hsession, ha]
    obtain ⟨found, base, hfound, hget, hbase, -⟩ := hs.toSteady.snapshotStoreForRead ha hk
    obtain ⟨found', base', hfound', hget', hbase', -⟩ :=
      hs'.toSteady.snapshotStoreForRead ha' (htables ▸ hk)
    rw [hsession, hg, h.reads i g hi hg, ← hg, hbase] at hbase'
    rw [Session.baseStoreForRead, Session.baseStoreForRead, hfound, hfound', Outcome.ok_bind,
      Outcome.ok_bind, hget, hget', Option.some.inj hbase']

/-- **A statement of a session that is shown** gets the same answer, and
leaves the same but for the registry. -/
theorem executeStatement (frontend : Frontend) (h : Without hidden sys sys') (hs : sys.Smooth)
    (hs' : sys'.Smooth) (hi : i ∉ hidden) {statement : Ast.Statement} (hddl : ¬statement.IsDdl)
    (hlimit : StaysWithin sys (.statement i statement)) :
    ∃ reg, Shoveler.executeStatement frontend sys'.db (sys'.sessions i) statement =
      ({ (Shoveler.executeStatement frontend sys.db (sys.sessions i) statement).1 with
          registry := reg },
        (Shoveler.executeStatement frontend sys.db (sys.sessions i) statement).2) := by
  obtain ⟨reg, hdb⟩ := h.db
  have hsession := h.shown i hi
  have halike := h.readsAlike hs hs' hi
  have hstages : ∀ {r r' : Session × Result ExecutionResult},
      StagesAlike (sys.sessions i) r (sys'.sessions i) r' →
      ∃ reg, staged sys'.db r' = ({ (staged sys.db r).1 with registry := reg },
        (staged sys.db r).2) := by
    intro r r' hr
    obtain ⟨changes, answer, rfl, rfl⟩ := hr.split
    refine ⟨reg, ?_⟩
    rw [hsession, hdb]
    rfl
  cases statement with
  | begin =>
    simp only [Shoveler.executeStatement, transactional, Session.begin, hsession, hdb]
    split
    · exact ⟨reg, rfl⟩
    · exact ⟨_, rfl⟩
  | commit =>
    obtain ⟨reg', hcommit⟩ := h.commit hs hs' hi hlimit
    refine ⟨reg', ?_⟩
    rw [Shoveler.executeStatement, Shoveler.executeStatement, hs'.toCoherent.executeCommit,
      hs.toCoherent.executeCommit, hcommit]
    rfl
  | rollback =>
    simp only [Shoveler.executeStatement, transactional, Session.rollback, hsession, hdb]
    split
    · exact ⟨reg, rfl⟩
    · split
      · exact ⟨reg, rfl⟩
      · exact ⟨_, rfl⟩
  | insert statement => exact hstages (halike.executeDml frontend (.insert statement))
  | update statement => exact hstages (halike.executeDml frontend (.update statement))
  | delete statement => exact hstages (halike.executeDml frontend (.delete statement))
  | select statement => exact hstages (halike.executeDml frontend (.select statement))
  | call statement =>
    refine hstages (halike.executeCall frontend statement ?_)
    rw [hdb]
  | createTable | dropTable | createView | dropView | createProcedure | dropProcedure =>
    exact absurd trivial hddl

/-! ### Events -/

/-- What is to be shown where both systems take an event: the sessions go on
reading the same. -/
theorem both (frontend : Frontend) (h : Without hidden sys sys') (hs : sys.Smooth)
    (hs' : sys'.Smooth) {event : Event} (hddl : ¬event.Reshapes) (hclean : CommitsClean sys event)
    (hclean' : CommitsClean sys' event)
    (hdb : ∃ reg, (sys'.step frontend event).db =
      { (sys.step frontend event).db with registry := reg })
    (hshown : ∀ j, j ∉ hidden →
      (sys'.step frontend event).sessions j = (sys.step frontend event).sessions j)
    (hclosed : ∀ j, j ∈ hidden →
      (sys'.step frontend event).sessions j = ((sys.step frontend event).sessions j).close) :
    Without hidden (sys.step frontend event) (sys'.step frontend event) := by
  have hmove := move_step frontend hs.toCoherent event
  have hnext := smooth_step frontend hs hddl hclean
  have hnext' := smooth_step frontend hs' hddl hclean'
  refine ⟨hdb, ?_, hshown, hclosed, fun j g hj hread => ?_⟩
  · rw [hmove.retentionLimit, (move_step frontend hs'.toCoherent event).retentionLimit, h.limit]
  · rcases hmove.reading hread with hbefore | rfl
    · -- what was read before is still there, in both
      have hread' : ((sys'.step frontend event).sessions j).reading = some g := by
        rw [hshown j hj, hread]
      have hbefore' : (sys'.sessions j).reading = some g := by rw [h.shown j hj, hbefore]
      have hbase := baseStores_step frontend hs.toIsolated hddl hclean
        ((hs.shaped j).of_reading hbefore).1 ((hnext.shaped j).of_reading hread).1
      have hbase' := baseStores_step frontend hs'.toIsolated hddl hclean'
        ((hs'.shaped j).of_reading hbefore').1 ((hnext'.shaped j).of_reading hread').1
      rw [hread, hbefore] at hbase
      rw [hread', hbefore'] at hbase'
      rw [hbase, hbase', h.reads j g hj hbefore]
    · -- who begins reads the live tables
      obtain ⟨reg, hdb⟩ := hdb
      have hlive := hnext.current
      have hlive' := hnext'.current
      rw [hdb] at hlive' ⊢
      exact hlive'.trans hlive.symm

/-- **An event that is not of a hidden session** gets the same answer in
both systems, and they stay alike. -/
theorem step (frontend : Frontend) (h : Without hidden sys sys') (hs : sys.Smooth)
    (hs' : sys'.Smooth) {event : Event} (hshown : ∀ j, j ∈ hidden → event.isOf j = false)
    (hddl : ¬event.IsDdl) (hclean : CommitsClean sys event) (hlimit : StaysWithin sys event) :
    (sys'.perform frontend event).2 = (sys.perform frontend event).2 ∧
      (sys'.step frontend event).Smooth ∧
      Without hidden (sys.step frontend event) (sys'.step frontend event) := by
  have hshape : ¬event.Reshapes := fun hr => hddl hr.isDdl
  obtain ⟨reg, hdb⟩ := h.db
  -- the one session that changes is the same in both
  have hsessions : ∀ {i : ℕ} {s : Session}, i ∉ hidden →
      (∀ j, j ∉ hidden → Function.update sys'.sessions i s j = Function.update sys.sessions i s j) ∧
      ∀ j, j ∈ hidden →
        Function.update sys'.sessions i s j = (Function.update sys.sessions i s j).close := by
    intro i s hi
    refine ⟨fun j hj => ?_, fun j hj => ?_⟩
    · by_cases hji : j = i
      · subst hji
        rw [Function.update_self, Function.update_self]
      · rw [Function.update_of_ne hji, Function.update_of_ne hji, h.shown j hj]
    · have hji : j ≠ i := fun heq => hi (heq ▸ hj)
      rw [Function.update_of_ne hji, Function.update_of_ne hji, h.closed j hj]
  cases event with
  | drain g n =>
    refine ⟨rfl, smooth_step frontend hs' hshape trivial,
      h.both frontend hs hs' hshape trivial trivial ⟨reg, ?_⟩ h.shown h.closed⟩
    simp only [System.step, perform, hdb]
  | deinit i =>
    have hi : i ∉ hidden := fun hmem => by
      have hnot := hshown i hmem
      simp [Event.isOf] at hnot
    have hupdate := @hsessions i {} hi
    refine ⟨rfl, smooth_step frontend hs' hshape trivial,
      h.both frontend hs hs' hshape trivial trivial
        ⟨(sys'.sessions i).releaseHandle sys'.db.registry, ?_⟩ hupdate.1 hupdate.2⟩
    simp only [System.step, perform, hdb]
  | statement i statement =>
    have hi : i ∉ hidden := fun hmem => by
      have hnot := hshown i hmem
      simp [Event.isOf] at hnot
    have hclean' : CommitsClean sys' (.statement i statement) := by
      by_cases hcommit : statement = .commit
      · subst hcommit
        obtain ⟨reg', heq⟩ := h.commit hs hs' hi hlimit
        simp only [CommitsClean] at hclean ⊢
        rw [heq, h.shown i hi, hdb]
        exact hclean
      · cases statement with
        | commit => exact absurd rfl hcommit
        | _ => trivial
    obtain ⟨reg', heq⟩ := h.executeStatement frontend hs hs' hi hddl hlimit
    have hupdate := @hsessions i
      (Shoveler.executeStatement frontend sys.db (sys.sessions i) statement).2.1 hi
    have hstep' : sys'.perform frontend (.statement i statement) =
        (⟨{ (Shoveler.executeStatement frontend sys.db (sys.sessions i) statement).1 with
            registry := reg' },
          Function.update sys'.sessions i
            (Shoveler.executeStatement frontend sys.db (sys.sessions i) statement).2.1⟩,
          (Shoveler.executeStatement frontend sys.db (sys.sessions i) statement).2.2) := by
      rw [perform, heq]
    refine ⟨by rw [hstep']; rfl, smooth_step frontend hs' hshape hclean',
      h.both frontend hs hs' hshape hclean hclean' ⟨reg', ?_⟩ ?_ ?_⟩
    · rw [System.step, hstep']
      rfl
    · rw [System.step, hstep']
      exact hupdate.1
    · rw [System.step, hstep']
      exact hupdate.2

/-- What is to be shown where a hidden session takes an event alone. -/
theorem alone (frontend : Frontend) (h : Without hidden sys sys') (hs : sys.Smooth)
    {event : Event} (hddl : ¬event.Reshapes) (hclean : CommitsClean sys event) (hi : i ∈ hidden)
    (hdb : ∃ reg, (sys.step frontend event).db = { sys.db with registry := reg })
    (hothers : ∀ j, j ≠ i → (sys.step frontend event).sessions j = sys.sessions j)
    (hclose : ((sys.step frontend event).sessions i).close = (sys.sessions i).close) :
    Without hidden (sys.step frontend event) sys' := by
  have hne : ∀ {j}, j ∉ hidden → j ≠ i := fun hj heq => hj (heq ▸ hi)
  have hnext := smooth_step frontend hs hddl hclean
  refine ⟨?_, ?_, fun j hj => ?_, fun j hj => ?_, fun j g hj hread => ?_⟩
  · obtain ⟨reg, hdb⟩ := hdb
    obtain ⟨reg', hdb'⟩ := h.db
    exact ⟨reg', by rw [hdb, hdb']⟩
  · rw [(move_step frontend hs.toCoherent event).retentionLimit, h.limit]
  · rw [hothers j (hne hj), h.shown j hj]
  · by_cases hji : j = i
    · subst hji
      rw [hclose, h.closed j hj]
    · rw [hothers j hji, h.closed j hj]
  · have hbefore := hread
    rw [hothers j (hne hj)] at hbefore
    have hbase := baseStores_step frontend hs.toIsolated hddl hclean
      ((hs.shaped j).of_reading hbefore).1 ((hnext.shaped j).of_reading hread).1
    rw [hread, hbefore] at hbase
    rw [hbase, h.reads j g hj hbefore]

/-- **A statement of a hidden session** is not noticed, unless it is a
commit that goes through. -/
theorem hides (frontend : Frontend) (h : Without hidden sys sys') (hs : sys.Smooth)
    (hi : i ∈ hidden) {statement : Ast.Statement} (hddl : ¬statement.IsDdl)
    (hclean : CommitsClean sys (.statement i statement))
    (hfails : statement = .commit → ((sys.sessions i).commit sys.db).2.2 ≠ .ok ()) :
    Without hidden (sys.step frontend (.statement i statement)) sys' := by
  have hshape : ¬Event.Reshapes (.statement i statement) := fun hr => hddl hr.isDdl
  -- it is enough to look at what the statement leaves
  have hleaves : ∀ {db' : Database} {s' : Session},
      sys.step frontend (.statement i statement) = sys.put i db' s' →
      (∃ reg, db' = { sys.db with registry := reg }) → s'.close = (sys.sessions i).close →
      Without hidden (sys.put i db' s') sys' := by
    intro db' s' heq hdb hclose
    rw [← heq]
    refine h.alone frontend hs hshape hclean hi ?_ (fun j hj => Function.update_of_ne hj _ _) ?_
    · rw [heq]
      exact hdb
    · rw [heq]
      simp only [Function.update_self]
      exact hclose
  have heffect := hs.toCoherent.effect frontend (.statement i statement)
  generalize hnext : sys.step frontend (.statement i statement) = next at heffect ⊢
  cases heffect with
  | refused => exact h
  | begins | halts | rollsBack => exact hleaves hnext ⟨_, rfl⟩ rfl
  | idles _ _ hc => exact absurd (by rw [hc]; rfl) (hfails rfl)
  | stopped _ registry tables transactions e _ _ _ hc =>
    rw [CommitsClean, hc] at hclean
    obtain ⟨htables, hsession⟩ := hclean.resolve_left fun hok => by cases hok
    simp only at htables
    exact hleaves hnext ⟨registry, by rw [htables]⟩ (congrArg Session.close hsession)
  | published _ _ _ _ _ _ _ _ _ hc => exact absurd (by rw [hc]) (hfails rfl)
  | createTable | dropTable => exact absurd trivial hddl
  | defines _ _ hd => exact absurd hd hddl
  | stages _ _ _ s' hrule =>
    have hstage := hrule (Session.stagingRule_stages sys.db (sys.sessions i)) ⟨.refl _, hs.shaped i⟩
    refine hleaves hnext ⟨_, rfl⟩ ?_
    rw [Session.close, Session.close, hstage.1.lastCommitSequence]

/-! ### Runs -/

/-- Two systems with commits that go well, alike but for some sessions. -/
def SmoothWithout (hidden : Set ℕ) (sys sys' : System) : Prop :=
  sys.Smooth ∧ sys'.Smooth ∧ Without hidden sys sys'

/-- **While a session is hidden** the others hear the same without it, as
long as it does not end. -/
theorem run_hidden (frontend : Frontend) (h : SmoothWithout {i} sys sys') {events : List Event}
    (hrun : sys.Along frontend Untroubled events)
    (hopen : sys.Along frontend
      (fun sys event => ((sys.step frontend event).sessions i).active = true) events) :
    (Run.replies (perform frontend) sys' (events.filter fun event => !event.isOf i)).2 =
        Run.heard (perform frontend) (Event.isOf i) sys events ∧
      SmoothWithout {i} (Run.replies (perform frontend) sys events).1
        (Run.replies (perform frontend) sys' (events.filter fun event => !event.isOf i)).1 := by
  refine Run.replies_hide (R := SmoothWithout {i}) (C := fun sys event => Untroubled sys event ∧
    ((sys.step frontend event).sessions i).active = true) ?_ ?_ h (hrun.and hopen)
  · rintro sys sys' event ⟨hs, hs', h⟩ ⟨⟨hddl, hclean, -⟩, hactive⟩ hof
    have hshape : ¬event.Reshapes := fun hr => hddl hr.isDdl
    refine ⟨smooth_step frontend hs hshape hclean, hs', ?_⟩
    cases event with
    | drain g n => cases hof
    | deinit j =>
      -- its end would not leave the session active
      obtain rfl : j = i := of_decide_eq_true hof
      simp only [System.step, perform, Function.update_self] at hactive
      cases hactive
    | statement j statement =>
      obtain rfl : j = i := of_decide_eq_true hof
      refine h.hides frontend hs rfl hddl hclean fun hcommit hok => ?_
      subst hcommit
      rw [hs.toCoherent.step_commit frontend] at hactive
      simp only [Function.update_self] at hactive
      have hout := hs.commit_outcome j
      generalize (sys.sessions j).commit sys.db = r at hout hok hactive
      cases hout with
      | inactive | refused | stopped => cases hok
      | idle | published => cases hactive
  · rintro sys sys' event ⟨hs, hs', h⟩ ⟨⟨hddl, hclean, hlimit⟩, -⟩ hof
    have hshown : ∀ j, j ∈ ({i} : Set ℕ) → event.isOf j = false := by
      rintro j rfl
      exact hof
    obtain ⟨hsame, hs'', hnext⟩ := h.step frontend hs hs' hshown hddl hclean hlimit
    exact ⟨hsame, smooth_step frontend hs (fun hr => hddl hr.isDdl) hclean, hs'', hnext⟩

/-- **Where no session is hidden** the two systems answer alike. -/
theorem run_shown (frontend : Frontend) (h : SmoothWithout ∅ sys sys') {events : List Event}
    (hrun : sys.Along frontend Untroubled events) :
    (Run.replies (perform frontend) sys' events).2 =
        (Run.replies (perform frontend) sys events).2 ∧
      SmoothWithout ∅ (Run.replies (perform frontend) sys events).1
        (Run.replies (perform frontend) sys' events).1 := by
  have hall : events.filter (fun _ => !false) = events := List.filter_eq_self.2 fun _ _ => rfl
  have hheard := @Run.heard_of_shown _ _ events _ (perform frontend) (fun _ => false)
    (fun _ _ => rfl) sys
  have hsame : (Run.replies (perform frontend) sys' (events.filter fun _ => !false)).2 =
        Run.heard (perform frontend) (fun _ => false) sys events ∧
      SmoothWithout ∅ (Run.replies (perform frontend) sys events).1
        (Run.replies (perform frontend) sys' (events.filter fun _ => !false)).1 := by
    refine Run.replies_hide (R := SmoothWithout ∅) (C := Untroubled)
      (fun _ _ _ _ _ hof => by cases hof) ?_ h hrun
    rintro sys sys' event ⟨hs, hs', h⟩ ⟨hddl, hclean, hlimit⟩ -
    obtain ⟨hsame, hs'', hnext⟩ :=
      h.step frontend hs hs' (fun j hj => hj.elim) hddl hclean hlimit
    exact ⟨hsame, smooth_step frontend hs (fun hr => hddl hr.isDdl) hclean, hs'', hnext⟩
  rw [hall, hheard] at hsame
  exact hsame

end Without

/-- A rollback leaves its session closed. -/
theorem Isolated.rollback_closes (frontend : Frontend) (h : sys.Isolated) (i : ℕ) :
    ((sys.step frontend (.statement i .rollback)).sessions i).active = false := by
  simp only [step, perform, executeStatement, transactional, Function.update_self]
  cases ha : (sys.sessions i).active with
  | false =>
    rw [Session.rollback_of_inactive ha]
    exact ha
  | true =>
    rw [(h.live i).rollback ha]
    rfl

/-- A `BEGIN` is answered to a session that is not active. -/
theorem inactive_of_begin {frontend : Frontend}
    (h : (sys.perform frontend (.statement i .begin)).2 = .ok .ok) :
    (sys.sessions i).active = false := by
  by_contra ha
  simp only [perform, executeStatement, transactional, Session.begin] at h
  rw [if_pos (by simpa using ha)] at h
  cases h

end System

end Shoveler
