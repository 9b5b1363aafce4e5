import Shoveler.Invariant.Snapshots

/-!
# What an event does to the generations

Seen from the registry and the commit sequence an event is one of five
things: nothing at all, the beginning of a snapshot, the end of one, the
retention of the current generation by a commit that then stops, or a
commit that goes through (`Move`). Which of them a step is, is said once
here (`move_step`), and what holds of the registry over whole runs follows
from it: it stays within its limit, and every older generation that is
read is kept (`System.Accounted`). Unlike `System.Steady` this survives
changes to the tables.
-/

namespace Shoveler

/-! ## Within the limit -/

namespace Registry

variable {reg : Registry} {g : Generation}

/-- **A registry within its limit.** -/
def Within (reg : Registry) : Prop := reg.retained.length ≤ reg.retentionLimit

theorem Within.releaseGeneration (h : reg.Within) : (reg.releaseGeneration g).Within := by
  cases hi : reg.findActiveIndex g with
  | none =>
    rw [Registry.releaseGeneration, hi]
    exact h
  | some i =>
    rw [releaseGeneration_eq hi]
    exact Nat.le_trans (List.length_filter_le _ _) h

/-- The limit is asked for before a generation is added. -/
theorem Within.retainGeneration (h : reg.Within) (sources : List TableSource) :
    (reg.retainGeneration g sources).1.Within := by
  have hswept : reg.sweepReleasedGenerations.Within :=
    Nat.le_trans (List.length_filter_le _ _) h
  unfold Registry.retainGeneration
  split
  · exact h
  · simp only
    split
    · exact hswept
    · rename_i hlimit
      split
      · exact hswept
      · have hroom := Nat.lt_of_not_le hlimit
        show (_ ++ [_]).length ≤ reg.sweepReleasedGenerations.retentionLimit
        rw [List.length_append, List.length_singleton]
        omega

end Registry

theorem Session.Shaped.releaseHandle_within {s : Session} (hs : s.Shaped) {reg : Registry}
    (h : reg.Within) : (s.releaseHandle reg).Within := by
  rw [hs.releaseHandle reg]
  cases s.reading with
  | none => exact h
  | some g => exact h.releaseGeneration

theorem Registry.Within.retainCurrent {db : Database} (h : db.registry.Within)
    {excluding : Option SnapshotHandle} {reg : Registry}
    (hr : db.retainCurrentGenerationForActiveSnapshots excluding = (reg, .ok ())) :
    reg.Within := by
  unfold Database.retainCurrentGenerationForActiveSnapshots at hr
  split at hr
  · have hkept := @Registry.Within.retainGeneration db.registry db.commitSequence h
      (db.tables.map fun t => { table := t.store.table, store := t.store })
    rw [hr] at hkept
    exact hkept
  · obtain ⟨rfl, -⟩ := Prod.mk.inj hr
    exact h

/-- The limit itself is never changed. -/
theorem retentionLimit_retainCurrent {db : Database} {excluding : Option SnapshotHandle} :
    (db.retainCurrentGenerationForActiveSnapshots excluding).1.retentionLimit =
      db.registry.retentionLimit := by
  unfold Database.retainCurrentGenerationForActiveSnapshots
  split
  · unfold Registry.retainGeneration
    split
    · rfl
    · simp only
      split
      · rfl
      · split <;> rfl
  · rfl

theorem retentionLimit_releaseHandle (s : Session) (reg : Registry) :
    (s.releaseHandle reg).retentionLimit = reg.retentionLimit := by
  unfold Session.releaseHandle Registry.release Registry.releaseGeneration
  split
  · rfl
  · split
    · rfl
    · split <;> rfl

/-! ## Moves -/

namespace System

variable {sys sys' : System} {i : ℕ}

/-- **The session whose staged tables an event commits**, if it does: the
event is its `COMMIT`, there is something staged, and the commit
succeeds. -/
def writer (frontend : Frontend) (sys : System) : Event → Option ℕ
  | .statement i .commit =>
    if (sys.sessions i).transactions ≠ [] ∧
        (sys.perform frontend (.statement i .commit)).2.isOk = true then
      some i
    else none
  | _ => none

theorem writer_of_ne {frontend : Frontend} {i : ℕ} {statement : Ast.Statement}
    (h : statement ≠ .commit) : sys.writer frontend (.statement i statement) = none := by
  cases statement with
  | commit => exact absurd rfl h
  | _ => rfl

theorem Coherent.writer_commit (frontend : Frontend) (h : sys.Coherent) (i : ℕ) :
    sys.writer frontend (.statement i .commit) =
      if (sys.sessions i).transactions ≠ [] ∧
          ((sys.sessions i).commit sys.db).2.2.isOk = true then some i else none := by
  have hok : (sys.perform frontend (.statement i .commit)).2.isOk =
      ((sys.sessions i).commit sys.db).2.2.isOk := by
    rw [h.perform_commit frontend i]
    cases ((sys.sessions i).commit sys.db).2.2 <;> rfl
  rw [writer, hok]

/-- A commit that fails has no number. -/
theorem Coherent.writer_eq_none {frontend : Frontend} (h : sys.Coherent) {event : Event}
    (hfails : ∀ i, event = .statement i .commit →
      ((sys.sessions i).commit sys.db).2.2.isOk = false) : sys.writer frontend event = none := by
  cases event with
  | statement i statement =>
    by_cases hcommit : statement = .commit
    · subst hcommit
      rw [h.writer_commit frontend i, hfails i rfl]
      exact if_neg fun hw => Bool.false_ne_true hw.2
    · exact writer_of_ne hcommit
  | _ => rfl

/-- **What an event does to the registry, to the sequence and to what the
sessions read**, given whose tables it commits. -/
inductive Move (sys sys' : System) : Option ℕ → Prop
  | stays (hreg : sys'.db.registry = sys.db.registry)
      (hseq : sys'.db.commitSequence = sys.db.commitSequence)
      (hread : ∀ j, (sys'.sessions j).reading = (sys.sessions j).reading) : Move sys sys' none
  | begins (i : ℕ) (hreg : sys'.db.registry = (sys.db.registry.acquire sys.db.commitSequence).1)
      (hseq : sys'.db.commitSequence = sys.db.commitSequence)
      (hread : (sys'.sessions i).reading = some sys.db.commitSequence)
      (hothers : ∀ j, j ≠ i → (sys'.sessions j).reading = (sys.sessions j).reading) :
      Move sys sys' none
  | releases (i : ℕ) (hreg : sys'.db.registry = (sys.sessions i).releaseHandle sys.db.registry)
      (hseq : sys'.db.commitSequence = sys.db.commitSequence)
      (hread : (sys'.sessions i).reading = none)
      (hothers : ∀ j, j ≠ i → (sys'.sessions j).reading = (sys.sessions j).reading) :
      Move sys sys' none
  | retains (i : ℕ)
      (hr : sys.db.retainCurrentGenerationForActiveSnapshots (sys.sessions i).snapshotHandle =
        (sys'.db.registry, .ok ()))
      (hseq : sys'.db.commitSequence = sys.db.commitSequence)
      (hread : ∀ j, (sys'.sessions j).reading = (sys.sessions j).reading) : Move sys sys' none
  | publishes (i : ℕ) (registry : Registry)
      (hr : sys.db.retainCurrentGenerationForActiveSnapshots (sys.sessions i).snapshotHandle =
        (registry, .ok ()))
      (hreg : sys'.db.registry = (sys.sessions i).releaseHandle registry)
      (hseq : sys'.db.commitSequence = sys.db.commitSequence + 1)
      (hlast : (sys'.sessions i).lastCommitSequence = some (sys.db.commitSequence + 1))
      (hread : (sys'.sessions i).reading = none)
      (hothers : ∀ j, j ≠ i → (sys'.sessions j).reading = (sys.sessions j).reading) :
      Move sys sys' (some i)

/-- The sessions beside the one that changes. -/
theorem reading_update_of_ne {s' : Session} (j : ℕ) (hj : j ≠ i) :
    (Function.update sys.sessions i s' j).reading = (sys.sessions j).reading := by
  rw [Function.update_of_ne hj]

theorem reading_update_self {s' : Session} :
    (Function.update sys.sessions i s' i).reading = s'.reading := by
  rw [Function.update_self]

/-- A session that goes on reading what it read. -/
theorem reading_update_same {s' : Session} (hread : s'.reading = (sys.sessions i).reading) (j : ℕ) :
    (Function.update sys.sessions i s' j).reading = (sys.sessions j).reading := by
  by_cases hj : j = i
  · subst hj
    rw [reading_update_self, hread]
  · exact reading_update_of_ne j hj

/-- **Every event is one of the five**, and only a writing commit
publishes. -/
theorem move_step (frontend : Frontend) (h : sys.Coherent) (event : Event) :
    Move sys (sys.step frontend event) (sys.writer frontend event) := by
  have heffect := h.effect frontend event
  generalize sys.step frontend event = sys' at heffect ⊢
  cases heffect with
  | refused hfails =>
    rw [h.writer_eq_none fun i heq => hfails i heq]
    exact .stays rfl rfl fun _ => rfl
  | begins i => exact .begins i rfl rfl reading_update_self reading_update_of_ne
  | halts i => exact .stays rfl rfl (reading_update_same rfl)
  | rollsBack i | ends i => exact .releases i rfl rfl reading_update_self reading_update_of_ne
  | idles i ht =>
    rw [h.writer_commit frontend i, if_neg fun hw => hw.1 ht]
    exact .releases i rfl rfl reading_update_self reading_update_of_ne
  | stopped i registry tables transactions e ha hr hp hc =>
    rw [h.writer_commit frontend i, hc, if_neg fun hw => Bool.false_ne_true hw.2]
    exact .retains i hr rfl (reading_update_same rfl)
  | published i registry tables transactions ht hr hp s' hs hc =>
    rw [h.writer_commit frontend i, hc, if_pos ⟨ht, rfl⟩]
    subst hs
    refine .publishes i registry hr rfl rfl ?_ reading_update_self reading_update_of_ne
    simp only [Function.update_self]
    rfl
  | createTable i _ db' _ _ hs | dropTable i _ db' _ _ hs =>
    exact .stays hs.registry hs.commitSequence fun _ => rfl
  | defines i statement hddl db' hs =>
    rw [writer_of_ne fun heq => by subst heq; exact hddl]
    exact .stays hs.registry hs.commitSequence fun _ => rfl
  | drains => exact .stays rfl rfl fun _ => rfl
  | stages i statement honly s' hrule =>
    have hs := hrule (Session.stagingRule_stages sys.db (sys.sessions i)) ⟨.refl _, h.shaped i⟩
    rw [writer_of_ne fun heq => by subst heq; exact honly]
    exact .stays rfl rfl (reading_update_same hs.1.reading)

/-- A writing commit takes the next number. -/
theorem Coherent.step_writer {frontend : Frontend} (h : sys.Coherent) {event : Event} {i : ℕ}
    (hw : sys.writer frontend event = some i) :
    (sys.step frontend event).db.commitSequence = sys.db.commitSequence + 1 ∧
      ((sys.step frontend event).sessions i).lastCommitSequence =
        some (sys.db.commitSequence + 1) := by
  have hmove := move_step frontend h event
  rw [hw] at hmove
  cases hmove with
  | publishes _ registry hr hreg hseq hlast => exact ⟨hseq, hlast⟩

/-- Nothing else takes one. -/
theorem Coherent.step_silent {frontend : Frontend} (h : sys.Coherent) {event : Event}
    (hw : sys.writer frontend event = none) :
    (sys.step frontend event).db.commitSequence = sys.db.commitSequence := by
  have hmove := move_step frontend h event
  rw [hw] at hmove
  cases hmove with
  | stays hreg hseq => exact hseq
  | begins i hreg hseq => exact hseq
  | releases i hreg hseq => exact hseq
  | retains i hr hseq => exact hseq

/-- The limit of the registry is never changed. -/
theorem Move.retentionLimit {writer : Option ℕ} (h : Move sys sys' writer) :
    sys'.db.registry.retentionLimit = sys.db.registry.retentionLimit := by
  have hretain : ∀ {i : ℕ} {reg : Registry},
      sys.db.retainCurrentGenerationForActiveSnapshots (sys.sessions i).snapshotHandle =
        (reg, .ok ()) → reg.retentionLimit = sys.db.registry.retentionLimit := by
    intro i reg hr
    have hlimit := @retentionLimit_retainCurrent sys.db (sys.sessions i).snapshotHandle
    rw [hr] at hlimit
    exact hlimit
  cases h with
  | stays hreg => rw [hreg]
  | begins i hreg => rw [hreg, Registry.acquire]
  | releases i hreg => rw [hreg, retentionLimit_releaseHandle]
  | retains i hr => exact hretain hr
  | publishes i registry hr hreg => rw [hreg, retentionLimit_releaseHandle, hretain hr]

/-- A session reads what it read before, or has just begun. -/
theorem Move.reading {writer : Option ℕ} (h : Move sys sys' writer) {j : ℕ} {g : Generation}
    (hj : (sys'.sessions j).reading = some g) :
    (sys.sessions j).reading = some g ∨ g = sys'.db.commitSequence := by
  -- a session that ends reads nothing
  have hends : ∀ {i : ℕ}, (sys'.sessions i).reading = none →
      (∀ j, j ≠ i → (sys'.sessions j).reading = (sys.sessions j).reading) →
      (sys.sessions j).reading = some g := by
    intro i hnone hothers
    have hji : j ≠ i := by
      rintro rfl
      rw [hnone] at hj
      cases hj
    rw [← hothers j hji]
    exact hj
  cases h with
  | stays hreg hseq hread => exact .inl ((hread j).symm.trans hj)
  | begins i hreg hseq hread hothers =>
    by_cases hji : j = i
    · subst hji
      right
      rw [hseq]
      exact Option.some.inj (hj.symm.trans hread)
    · exact .inl ((hothers j hji).symm.trans hj)
  | releases i hreg hseq hread hothers => exact .inl (hends hread hothers)
  | retains i hr hseq hread => exact .inl ((hread j).symm.trans hj)
  | publishes i registry hr hreg hseq hlast hread hothers => exact .inl (hends hread hothers)

/-! ## What the registry holds over whole runs -/

/-- **A system whose registry is within its limit and keeps every older
generation that is read.** -/
structure Accounted (sys : System) : Prop extends Coherent sys where
  within : sys.db.registry.Within
  kept : ∀ j g, (sys.sessions j).reading = some g → g ≠ sys.db.commitSequence →
    (sys.db.registry.retainedAt g).isSome = true

/-- What a session besides the committing one reads is kept before the
commit goes on. -/
theorem Accounted.retained_of_ne (h : sys.Accounted) {reg : Registry}
    (hr : sys.db.retainCurrentGenerationForActiveSnapshots (sys.sessions i).snapshotHandle =
      (reg, .ok ())) {j : ℕ} {g : Generation} (hji : j ≠ i)
    (hj : (sys.sessions j).reading = some g) : (reg.retainedAt g).isSome = true := by
  rcases retained_or_self h.toCoherent hr hj (h.kept j g hj) with ⟨r, hkept, -⟩ | ⟨rfl, -, -⟩
  · rw [hkept]
    rfl
  · exact absurd rfl hji

/-- And what is older is kept for every session, the committing one
included. -/
theorem Accounted.retained_of_older (h : sys.Accounted) {reg : Registry}
    (hr : sys.db.retainCurrentGenerationForActiveSnapshots (sys.sessions i).snapshotHandle =
      (reg, .ok ())) {j : ℕ} {g : Generation} (hj : (sys.sessions j).reading = some g)
    (hne : g ≠ sys.db.commitSequence) : (reg.retainedAt g).isSome = true := by
  rcases retained_or_self h.toCoherent hr hj (h.kept j g hj) with ⟨r, hkept, -⟩ | ⟨-, rfl, hnone⟩
  · rw [hkept]
    rfl
  · have hsome := h.kept j g hj hne
    rw [hnone] at hsome
    cases hsome

/-- Retention is asked for on behalf of another session. -/
theorem Coherent.exists_other_reader (h : sys.Coherent) {g : Generation}
    (hneeds : sys.db.registry.needsRetention g (sys.sessions i).snapshotHandle = true) :
    ∃ j, j ≠ i ∧ (sys.sessions j).reading = some g := by
  by_contra hnone
  have honly : readers sys.sessions g ⊆ {i} := by
    intro j hj
    by_contra hji
    exact hnone ⟨j, hji, hj⟩
  by_cases hi : (sys.sessions i).reading = some g
  · -- the session itself is not counted
    obtain ⟨-, hhandle⟩ := (h.shaped i).of_reading hi
    have hle : sys.db.registry.activeRefCount g ≤ 1 := by
      have hcard := Set.encard_le_encard honly
      rw [h.counted g, Set.encard_singleton] at hcard
      exact_mod_cast hcard
    unfold Registry.needsRetention at hneeds
    rw [hhandle, Bool.and_eq_true, decide_eq_true_iff] at hneeds
    have hrefs := hneeds.1
    simp only [Bool.not_false, true_and] at hrefs
    split at hrefs <;> omega
  · have hempty : readers sys.sessions g = ∅ := by
      refine Set.eq_empty_of_forall_notMem fun j hj => hi ?_
      obtain rfl := honly hj
      exact hj
    have hzero := h.counted g
    rw [hempty, Set.encard_empty] at hzero
    exact (Registry.of_needsRetention hneeds).1 (by exact_mod_cast hzero.symm)

/-- **A move keeps the account.** -/
theorem Accounted.move (h : sys.Accounted) (hco : sys'.Coherent) {writer : Option ℕ}
    (hmove : Move sys sys' writer) : sys'.Accounted := by
  cases hmove with
  | stays hreg hseq hread =>
    refine ⟨hco, hreg ▸ h.within, fun j g hj hne => ?_⟩
    rw [hreg]
    exact h.kept j g (hread j ▸ hj) (hseq ▸ hne)
  | begins i hreg hseq hread hothers =>
    refine ⟨hco, ?_, fun j g hj hne => ?_⟩
    · rw [hreg]
      exact h.within
    · by_cases hji : j = i
      · -- the session that begins reads the current generation
        subst hji
        obtain rfl := Option.some.inj (hread.symm.trans hj)
        exact absurd hseq.symm hne
      · rw [hreg]
        exact h.kept j g (hothers j hji ▸ hj) (hseq ▸ hne)
  | releases i hreg hseq hread hothers =>
    refine ⟨hco, ?_, fun j g hj hne => ?_⟩
    · rw [hreg]
      exact (h.shaped i).releaseHandle_within h.within
    · have hji : j ≠ i := by
        rintro rfl
        rw [hread] at hj
        cases hj
      rw [hothers j hji] at hj
      rw [hreg, retainedAt_releaseHandle h.toCoherent h.registry h.counted hji hj]
      exact h.kept j g hj (hseq ▸ hne)
  | retains i hr hseq hread =>
    refine ⟨hco, h.within.retainCurrent hr, fun j g hj hne => ?_⟩
    exact h.retained_of_older hr (hread j ▸ hj) (hseq ▸ hne)
  | publishes i registry hr hreg hseq hlast hread hothers =>
    obtain ⟨hgood, hcount⟩ := h.toCoherent.retain hr
    refine ⟨hco, ?_, fun j g hj _ => ?_⟩
    · rw [hreg]
      exact (h.shaped i).releaseHandle_within (h.within.retainCurrent hr)
    · have hji : j ≠ i := by
        rintro rfl
        rw [hread] at hj
        cases hj
      rw [hothers j hji] at hj
      rw [hreg, retainedAt_releaseHandle h.toCoherent hgood hcount hji hj]
      exact h.retained_of_ne hr hji hj

theorem accounted_step (frontend : Frontend) (h : sys.Accounted) (event : Event) :
    (sys.step frontend event).Accounted :=
  h.move (coherent_step frontend h.toCoherent event) (move_step frontend h.toCoherent event)

/-- **Every reachable system is accounted for.** -/
theorem Reachable.accounted {frontend : Frontend} (h : sys.Reachable frontend) :
    sys.Accounted := by
  refine h.invariant (fun db hopened => ?_) fun s event _ hs => accounted_step frontend hs event
  have hreach : (System.start db).Reachable frontend := ⟨db, [], hopened, rfl⟩
  refine ⟨hreach.coherent, ?_, fun j g hj => by cases hj⟩
  show db.registry.Within
  rw [hopened.registry]
  exact Nat.zero_le _

/-- **What is retained after an event was so before, or is the capture of
the tables the event found.** -/
theorem mem_retained_step (frontend : Frontend) (h : sys.Coherent) (event : Event)
    {r : RetainedGeneration} (hmem : r ∈ (sys.step frontend event).db.registry.retained) :
    r ∈ sys.db.registry.retained ∨ r = sys.db.captured := by
  have hmove := move_step frontend h event
  generalize sys.step frontend event = sys', sys.writer frontend event = writer at hmem hmove
  cases hmove with
  | stays hreg =>
    rw [hreg] at hmem
    exact Or.inl hmem
  | begins i hreg =>
    rw [hreg] at hmem
    exact Or.inl hmem
  | releases i hreg =>
    rw [hreg] at hmem
    exact Or.inl (mem_retained_releaseHandle h hmem)
  | retains i hr => exact h.mem_retained_retain hr hmem
  | publishes i registry hr hreg =>
    rw [hreg] at hmem
    exact h.mem_retained_retain hr (mem_retained_releaseHandle h hmem)

/-- Where no session is active the registry counts nobody. -/
theorem Coherent.active_eq_nil (h : sys.Coherent)
    (hidle : ∀ i, (sys.sessions i).active = false) : sys.db.registry.active = [] := by
  refine List.eq_nil_iff_forall_not_mem.2 fun a ha => ?_
  have hcount : sys.db.registry.activeRefCount a.generation = a.refCount := by
    rw [Registry.activeRefCount, Keyed.find?_eq_some_of_mem h.registry.active_nodup ha]
  have hnone : readers sys.sessions a.generation = ∅ := by
    refine Set.eq_empty_iff_forall_notMem.2 fun j hj => ?_
    have hactive := ((h.shaped j).of_reading (mem_readers.1 hj)).1
    rw [hidle j] at hactive
    cases hactive
  have hzero := h.counted a.generation
  rw [hnone, Set.encard_empty, hcount] at hzero
  have hpos := h.registry.positive a ha
  have hrefs : a.refCount = 0 := by exact_mod_cast hzero.symm
  omega

end System

end Shoveler
