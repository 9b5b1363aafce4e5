import Mathlib.Data.Set.Card
import Shoveler.Invariant.Commit
import Shoveler.Invariant.Effects
import Shoveler.Model.System

/-!
# Coherent systems

What holds of the system whatever happens to it, DDL and failed
statements included: the catalog and the runtime lists agree, the registry
counts for each generation exactly the sessions that read it, a session
holds a snapshot handle as long as it is active and nothing once it is
not, its staged lists are in good order, and the commit queue is idle
between statements (`System.Coherent`). Every event keeps this
(`coherent_step`), so every run does (`coherent_run`); what an event can do
is said once (`Effect`).
-/

namespace Shoveler

open List

variable {db db' : Database}

/-! ## Sessions -/

/-- The generation a session reads. -/
def Session.reading (s : Session) : Option Generation := s.snapshotHandle.map fun h => h.generation

/-- **A session in good order.** -/
structure Session.Shaped (s : Session) : Prop where
  handle : s.active = true → ∃ g, s.snapshotHandle = some ⟨g, false⟩ ∧ s.snapshotSequence = some g
  closed : s.active = false →
    s.snapshotHandle = none ∧ s.snapshotSequence = none ∧ s.transactions = []
  keys : (s.transactions.map TableTransaction.key).Nodup
  ordered : ∀ e ∈ s.transactions, e.tx.Ordered

/-- Two sessions that differ in what they have staged only. -/
structure Session.Agrees (s s' : Session) : Prop where
  active : s'.active = s.active
  snapshotHandle : s'.snapshotHandle = s.snapshotHandle
  snapshotSequence : s'.snapshotSequence = s.snapshotSequence
  lastCommitSequence : s'.lastCommitSequence = s.lastCommitSequence

theorem Session.Agrees.refl (s : Session) : s.Agrees s := ⟨rfl, rfl, rfl, rfl⟩

theorem Session.Agrees.trans {s₁ s₂ s₃ : Session} (h₁ : s₁.Agrees s₂) (h₂ : s₂.Agrees s₃) :
    s₁.Agrees s₃ :=
  ⟨h₂.active.trans h₁.active, h₂.snapshotHandle.trans h₁.snapshotHandle,
    h₂.snapshotSequence.trans h₁.snapshotSequence,
    h₂.lastCommitSequence.trans h₁.lastCommitSequence⟩

theorem Session.Agrees.reading {s s' : Session} (h : s.Agrees s') : s'.reading = s.reading := by
  rw [Session.reading, Session.reading, h.snapshotHandle]

namespace Session

variable {s s' : Session}

theorem Shaped.new : Shaped {} where
  handle := fun h => by cases h
  closed := fun _ => ⟨rfl, rfl, rfl⟩
  keys := nodup_nil
  ordered := fun _ h => by cases h

theorem Shaped.close (s : Session) : s.close.Shaped where
  handle := fun h => by cases h
  closed := fun _ => ⟨rfl, rfl, rfl⟩
  keys := nodup_nil
  ordered := fun _ h => by cases h

theorem Shaped.reading_of_active (h : s.Shaped) (ha : s.active = true) : ∃ g, s.reading = some g := by
  obtain ⟨g, hg, -⟩ := h.handle ha
  exact ⟨g, by rw [Session.reading, hg]; rfl⟩

/-- A session that reads a generation is active and holds it. -/
theorem Shaped.of_reading (h : s.Shaped) {g : Generation} (hg : s.reading = some g) :
    s.active = true ∧ s.snapshotHandle = some ⟨g, false⟩ := by
  cases ha : s.active with
  | false =>
    rw [Session.reading, (h.closed ha).1] at hg
    cases hg
  | true =>
    obtain ⟨g', hg', -⟩ := h.handle ha
    rw [Session.reading, hg'] at hg
    cases hg
    exact ⟨rfl, hg'⟩

/-- Only an active session has something staged. -/
theorem Shaped.active_of_mem (h : s.Shaped) {e : TableTransaction} (he : e ∈ s.transactions) :
    s.active = true := by
  by_contra ha
  rw [(h.closed (Bool.eq_false_iff.2 ha)).2.2] at he
  cases he

/-- Letting go of the handle releases the generation that was read. -/
theorem Shaped.releaseHandle (h : s.Shaped) (reg : Registry) :
    s.releaseHandle reg = match s.reading with
      | none => reg
      | some g => reg.releaseGeneration g := by
  cases ha : s.active with
  | false =>
    have hnone := (h.closed ha).1
    rw [Session.releaseHandle, Session.reading, hnone]
    rfl
  | true =>
    obtain ⟨g, hg, -⟩ := h.handle ha
    rw [Session.releaseHandle, Session.reading, hg]
    rfl

/-- A session that has begun and staged nothing. -/
theorem Shaped.begin (g : Generation) (last : Option Generation) :
    Shaped { active := true, snapshotSequence := some g, snapshotHandle := some ⟨g, false⟩,
             lastCommitSequence := last } where
  handle := fun _ => ⟨g, rfl, rfl⟩
  closed := fun h => by cases h
  keys := nodup_nil
  ordered := fun _ h => by cases h

/-- Changing a staged transaction into one in good order. -/
theorem Shaped.setTransaction (h : s.Shaped) {index : ℕ} {e : TableTransaction} {tx : Transaction}
    (he : s.transactions[index]? = some e) (htx : tx.Ordered) :
    (s.setTransaction index tx).Shaped := by
  refine ⟨h.handle, fun hc => ?_, ?_, fun e' he' => ?_⟩
  · have hnil := (h.closed hc).2.2
    rw [hnil] at he
    cases he
  · rw [map_key_setTransaction]
    exact h.keys
  · rcases mem_setTransaction he he' with rfl | he'
    · exact htx
    · exact h.ordered e' he'

/-- **What a staging statement keeps of a session**: all but what is
staged, and the good order of that. -/
def Stages (s s' : Session) : Prop := s.Agrees s' ∧ s'.Shaped

/-- Putting other transactions of the same names in their place, in good
order. -/
theorem Shaped.stages_entries (h : s.Shaped) (ha : s.active = true)
    {transactions : List TableTransaction}
    (hkeep : transactions.map TableTransaction.key = s.transactions.map TableTransaction.key ∧
      ((∀ e ∈ s.transactions, e.tx.Ordered) → ∀ e ∈ transactions, e.tx.Ordered)) :
    Stages s { s with transactions := transactions } := by
  refine ⟨⟨rfl, rfl, rfl, rfl⟩, h.handle, fun hc => ?_, hkeep.1 ▸ h.keys, hkeep.2 h.ordered⟩
  exact absurd (hc.symm.trans ha) Bool.false_ne_true

/-- The steps of a staging statement keep it. -/
theorem stagingRule_stages (db : Database) (s : Session) :
    StagingRule db (Stages s) (fun _ _ _ => Stages s) where
  opens := by
    intro session slot table name hs ha ht hnew
    refine ⟨hs.1.trans ⟨rfl, rfl, rfl, rfl⟩, hs.2.handle, fun hc => ?_, ?_, ?_⟩
    · exact absurd (hc.symm.trans ha) Bool.false_ne_true
    · exact Keyed.nodup_append_new hs.2.keys hnew
    · refine forall_mem_append.2 ⟨hs.2.ordered, fun e he => ?_⟩
      rw [mem_singleton] at he
      rw [he]
      exact .of_nil rfl rfl rfl
  inserts := by
    intro session slot table name index e statement values id tx' hs ha ht he hkey hv hins
    have hord := hs.2.ordered e (mem_of_getElem? he)
    exact ⟨hs.1.trans ⟨rfl, rfl, rfl, rfl⟩, hs.2.setTransaction he (hord.insert hins)⟩
  scans := fun hs _ _ _ _ _ => hs
  skips := fun hs => hs
  updates := by
    intro session table index e row rows values tx' hs he hupd
    have hord := hs.2.ordered e (mem_of_getElem? he)
    exact ⟨hs.1.trans ⟨rfl, rfl, rfl, rfl⟩, hs.2.setTransaction he (hord.update hupd)⟩
  deletes := by
    intro session table index e row rows tx' hs he hdel
    have hord := hs.2.ordered e (mem_of_getElem? he)
    exact ⟨hs.1.trans ⟨rfl, rfl, rfl, rfl⟩, hs.2.setTransaction he (hord.delete hdel)⟩
  ends := fun hs => hs

end Session

/-- The loop of `ROLLBACK` goes through exactly when every table transaction is
active. -/
theorem rollbackAll_eq_ok {entries : List TableTransaction} :
    (Session.rollbackAll entries).2 = .ok () ↔ ∀ e ∈ entries, e.tx.state = .active := by
  induction entries with
  | nil => simp [Session.rollbackAll]
  | cons entry rest ih =>
    unfold Session.rollbackAll
    cases hr : entry.tx.rollback with
    | error err =>
      have hstate : entry.tx.state ≠ .active := by
        intro ha
        rw [Transaction.rollback, Transaction.ensureActive_eq_ok.2 ha] at hr
        cases hr
      simp [hstate]
    | ok tx =>
      have hstate : entry.tx.state = .active := by
        unfold Transaction.rollback at hr
        obtain ⟨⟨⟩, ha, -⟩ := Outcome.bind_eq_ok.1 hr
        exact Transaction.ensureActive_eq_ok.1 ha
      rw [forall_mem_cons]
      exact ⟨fun h => ⟨hstate, ih.1 h⟩, fun h => ih.2 h.2⟩

/-! ## Counting the readers -/

/-- The sessions that read a generation. -/
def readers (sessions : ℕ → Session) (g : Generation) : Set ℕ :=
  {i | (sessions i).reading = some g}

theorem mem_readers {sessions : ℕ → Session} {g : Generation} {i : ℕ} :
    i ∈ readers sessions g ↔ (sessions i).reading = some g := Iff.rfl

/-- **The registry counts exactly the sessions that read each
generation.** -/
def Counted (reg : Registry) (sessions : ℕ → Session) : Prop :=
  ∀ g, (readers sessions g).encard = reg.activeRefCount g

section Counting

variable {reg : Registry} {sessions : ℕ → Session} {i : ℕ} {s' : Session} {g : Generation}

theorem readers_update_of_ne (h : (sessions i).reading ≠ some g) (h' : s'.reading ≠ some g) :
    readers (Function.update sessions i s') g = readers sessions g := by
  ext j
  by_cases hj : j = i
  · subst hj
    simp [readers, h, h']
  · simp [readers, hj]

theorem readers_update_insert (h' : s'.reading = some g) :
    readers (Function.update sessions i s') g = insert i (readers sessions g) := by
  ext j
  by_cases hj : j = i
  · subst hj
    simp [readers, h']
  · simp [readers, hj]

theorem readers_update_erase (h' : s'.reading ≠ some g) :
    readers (Function.update sessions i s') g = readers sessions g \ {i} := by
  ext j
  by_cases hj : j = i
  · subst hj
    simp [readers, h']
  · simp [readers, hj]

/-- A session that goes on reading what it read. -/
theorem Counted.same (h : Counted reg sessions) (hs : s'.reading = (sessions i).reading) :
    Counted reg (Function.update sessions i s') := by
  intro g
  rw [← h g]
  congr 1
  ext j
  by_cases hj : j = i
  · subst hj
    simp [readers, hs]
  · simp [readers, hj]

/-- A session that begins to read a generation. -/
theorem Counted.acquire (h : Counted reg sessions) (hreg : reg.Good)
    (hnone : (sessions i).reading = none) (hs : s'.reading = some g) :
    Counted (reg.acquire g).1 (Function.update sessions i s') := by
  intro g'
  rw [Registry.activeRefCount_acquire hreg]
  by_cases hg : g' = g
  · subst hg
    have hnot : i ∉ readers sessions g' := fun hmem => by
      rw [mem_readers, hnone] at hmem
      cases hmem
    rw [if_pos rfl, readers_update_insert hs, Set.encard_insert_of_notMem hnot, h g', Nat.cast_add,
      Nat.cast_one]
  · have hold : (sessions i).reading ≠ some g' := by
      rw [hnone]
      exact (Option.some_ne_none _).symm
    have hnew : s'.reading ≠ some g' := by
      rw [hs, ne_eq, Option.some.injEq]
      exact fun he => hg he.symm
    rw [if_neg hg, readers_update_of_ne hold hnew, h g']

/-- A session that stops reading. -/
theorem Counted.release (h : Counted reg sessions) (hreg : reg.Good)
    (hsome : (sessions i).reading = some g) (hs : s'.reading = none) :
    Counted (reg.releaseGeneration g) (Function.update sessions i s') := by
  intro g'
  have hne : s'.reading ≠ some g' := by
    rw [hs]
    exact (Option.some_ne_none _).symm
  rw [Registry.activeRefCount_release hreg]
  by_cases hg : g' = g
  · subst hg
    rw [if_pos rfl, readers_update_erase hne,
      Set.encard_sdiff_singleton_of_mem (mem_readers.2 hsome), h g', ENat.natCast_sub, Nat.cast_one]
  · rw [if_neg hg, readers_update_of_ne ?_ hne, h g']
    rw [hsome, ne_eq, Option.some.injEq]
    exact fun he => hg he.symm

/-- A generation somebody reads is counted. -/
theorem Counted.activeRefCount_ne_zero (h : Counted reg sessions)
    (hi : (sessions i).reading = some g) : reg.activeRefCount g ≠ 0 := by
  intro hzero
  have hempty : readers sessions g = ∅ := by
    rw [← Set.encard_eq_zero, h g, hzero, Nat.cast_zero]
  have hmem : i ∈ readers sessions g := hi
  rw [hempty] at hmem
  exact hmem

/-- Where two sessions read a generation, the count shows more than one. -/
theorem Counted.one_lt_activeRefCount (h : Counted reg sessions) {j : ℕ} (hij : i ≠ j)
    (hi : (sessions i).reading = some g) (hj : (sessions j).reading = some g) :
    1 < reg.activeRefCount g := by
  have hpair : ({i, j} : Set ℕ) ⊆ readers sessions g := by
    rintro k (rfl | hk)
    · exact hi
    · rw [Set.mem_singleton_iff] at hk
      subst hk
      exact hj
  have hle := Set.encard_le_encard hpair
  rw [Set.encard_pair hij, h g] at hle
  exact_mod_cast hle

end Counting

/-! ## The system -/

/-- The system with another database and one session changed. -/
abbrev System.put (sys : System) (i : ℕ) (db' : Database) (s' : Session) : System :=
  ⟨db', Function.update sys.sessions i s'⟩

/-- The system after a session has let go of its handle. -/
abbrev System.release (sys : System) (i : ℕ) (s' : Session) : System :=
  sys.put i { sys.db with registry := (sys.sessions i).releaseHandle sys.db.registry } s'

/-- **A coherent system.** -/
structure System.Coherent (sys : System) : Prop where
  valid : sys.db.Valid
  registry : sys.db.registry.Good
  shaped : ∀ i, (sys.sessions i).Shaped
  counted : Counted sys.db.registry sys.sessions
  bounded : ∀ i g, (sys.sessions i).reading = some g → g ≤ sys.db.commitSequence
  queue : sys.db.commitQueue.Idle sys.db.commitSequence

namespace System

variable {sys : System} {i : ℕ}

/-- Every generation that is kept is read by somebody. -/
theorem Coherent.exists_reader (h : sys.Coherent) {r : RetainedGeneration}
    (hr : r ∈ sys.db.registry.retained) : ∃ j, (sys.sessions j).reading = some r.generation := by
  have hne : (readers sys.sessions r.generation).Nonempty := by
    rw [Set.nonempty_iff_ne_empty]
    intro hempty
    have hcount := h.counted r.generation
    rw [hempty, Set.encard_empty] at hcount
    exact h.registry.retained_read r hr (by exact_mod_cast hcount.symm)
  exact hne

/-- So where no session is active nothing is kept. -/
theorem Coherent.retained_eq_nil (h : sys.Coherent)
    (hidle : ∀ i, (sys.sessions i).active = false) : sys.db.registry.retained = [] := by
  refine eq_nil_iff_forall_not_mem.2 fun r hr => ?_
  obtain ⟨j, hj⟩ := h.exists_reader hr
  have ha := ((h.shaped j).of_reading hj).1
  rw [hidle j] at ha
  cases ha

/-- The system at its start, over a database in good order that nobody
reads. -/
theorem Coherent.start (hvalid : db.Valid) (hactive : db.registry.active = [])
    (hretained : db.registry.retained = []) (hqueue : db.commitQueue.Idle db.commitSequence) :
    (System.start db).Coherent where
  valid := hvalid
  registry := by
    refine ⟨?_, ?_, ?_, ?_⟩ <;> simp [System.start, hactive, hretained]
  shaped := fun _ => .new
  counted := by
    intro g
    have hnone : readers (System.start db).sessions g = ∅ :=
      Set.eq_empty_iff_forall_notMem.2 fun j hj => by cases mem_readers.1 hj
    rw [hnone, Set.encard_empty]
    simp [System.start, Registry.activeRefCount, hactive]
  bounded := fun j g hj => by cases hj
  queue := hqueue

/-- What is to be shown where one session and the database change. -/
theorem Coherent.update (h : sys.Coherent) {s' : Session} (hvalid : db'.Valid)
    (hreg : db'.registry.Good) (hs : s'.Shaped)
    (hcounted : Counted db'.registry (Function.update sys.sessions i s'))
    (hle : sys.db.commitSequence ≤ db'.commitSequence)
    (hbound : ∀ g, s'.reading = some g → g ≤ db'.commitSequence)
    (hqueue : db'.commitQueue.Idle db'.commitSequence) :
    (sys.put i db' s').Coherent := by
  refine ⟨hvalid, hreg, fun j => ?_, hcounted, fun j g hj => ?_, hqueue⟩
  · by_cases hj : j = i
    · subst hj
      simpa using hs
    · simpa [hj] using h.shaped j
  · by_cases hji : j = i
    · subst hji
      exact hbound g (by simpa using hj)
    · exact Nat.le_trans (h.bounded j g (by simpa [hji] using hj)) hle

/-- A session that only stages. -/
theorem Coherent.stages (h : sys.Coherent) {s' : Session} (hs : (sys.sessions i).Stages s') :
    (sys.put i sys.db s').Coherent := by
  refine h.update h.valid h.registry hs.2 (h.counted.same hs.1.reading) (Nat.le_refl _)
    (fun g hg => ?_) h.queue
  rw [hs.1.reading] at hg
  exact h.bounded i g hg

/-- A change to the schema. -/
theorem Coherent.schema (h : sys.Coherent) (hvalid : db'.Valid)
    (hreg : db'.registry = sys.db.registry) (hseq : db'.commitSequence = sys.db.commitSequence)
    (hqueue : db'.commitQueue = sys.db.commitQueue) :
    System.Coherent ⟨db', sys.sessions⟩ := by
  refine ⟨hvalid, hreg ▸ h.registry, h.shaped, hreg ▸ h.counted, ?_, ?_⟩
  · rw [hseq]
    exact h.bounded
  · rw [hqueue, hseq]
    exact h.queue

/-- What is left of the registry when a session lets go of its handle. -/
theorem Coherent.releaseHandle (h : sys.Coherent) {reg : Registry} (hreg : reg.Good)
    (hcounted : Counted reg sys.sessions) {s' : Session} (hs : s'.reading = none) :
    ((sys.sessions i).releaseHandle reg).Good ∧
      Counted ((sys.sessions i).releaseHandle reg) (Function.update sys.sessions i s') := by
  rw [(h.shaped i).releaseHandle reg]
  cases hr : (sys.sessions i).reading with
  | none => exact ⟨hreg, hcounted.same (hs.trans hr.symm)⟩
  | some g => exact ⟨hreg.releaseGeneration, hcounted.release hreg hr hs⟩

/-- A session that goes back to being closed, over a registry with the
same counts. -/
theorem Coherent.closes (h : sys.Coherent) {db' : Database} {s' : Session} {reg : Registry}
    (hreg : reg.Good) (hcounted : Counted reg sys.sessions) (hvalid : db'.Valid) (hs : s'.Shaped)
    (hnone : s'.reading = none) (hregistry : db'.registry = (sys.sessions i).releaseHandle reg)
    (hle : sys.db.commitSequence ≤ db'.commitSequence)
    (hqueue : db'.commitQueue.Idle db'.commitSequence) :
    (sys.put i db' s').Coherent := by
  obtain ⟨hgood, hcount⟩ := @Coherent.releaseHandle sys i h reg hreg hcounted s' hnone
  rw [← hregistry] at hgood hcount
  refine h.update hvalid hgood hs hcount hle (fun g hg => ?_) hqueue
  rw [hnone] at hg
  cases hg

/-- **What rolling back keeps**: the names of the table transactions, and
whatever each of them keeps by itself. -/
theorem rollbackAll_keeps {K : TableTransaction → Prop}
    (hK : ∀ e, K e → K { e with tx := { e.tx.clearLocalRows with state := .rolledBack } })
    (entries : List TableTransaction) :
    (Session.rollbackAll entries).1.map TableTransaction.key = entries.map TableTransaction.key ∧
      ((∀ e ∈ entries, K e) → ∀ e ∈ (Session.rollbackAll entries).1, K e) := by
  induction entries with
  | nil => exact ⟨rfl, fun h => h⟩
  | cons entry rest ih =>
    unfold Session.rollbackAll
    cases hr : entry.tx.rollback with
    | error err => exact ⟨rfl, fun h => h⟩
    | ok tx =>
      unfold Transaction.rollback at hr
      obtain ⟨⟨⟩, -, hr⟩ := Outcome.bind_eq_ok.1 hr
      obtain rfl := Except.ok.inj hr
      refine ⟨by rw [map_cons, map_cons, ← ih.1]; rfl, fun h => ?_⟩
      rw [forall_mem_cons] at h
      exact forall_mem_cons.2 ⟨hK _ h.1, ih.2 h.2⟩

/-- The registry a commit goes on with counts as before. -/
theorem Coherent.retain (h : sys.Coherent) {excluding : Option SnapshotHandle} {reg : Registry}
    (hr : sys.db.retainCurrentGenerationForActiveSnapshots excluding = (reg, .ok ())) :
    reg.Good ∧ Counted reg sys.sessions := by
  rcases retainCurrent_eq_ok h.registry h.valid hr with ⟨-, rfl⟩ | ⟨hneeds, rfl⟩
  · exact ⟨h.registry, h.counted⟩
  · obtain ⟨hread, hnone⟩ := Registry.of_needsRetention hneeds
    exact ⟨h.registry.retain hread hnone _, h.counted⟩

/-- **What the loop of a commit keeps**: the names of the table
transactions, and whatever each of them keeps by itself. -/
theorem publishAll_keeps {K : TableTransaction → Prop} (hK : ∀ e, K e → K e.committed)
    (entries : List TableTransaction) (tables : List TableState) :
    (Session.publishAll entries tables).2.1.map TableTransaction.key =
        entries.map TableTransaction.key ∧
      ((∀ e ∈ entries, K e) → ∀ e ∈ (Session.publishAll entries tables).2.1, K e) := by
  induction entries generalizing tables with
  | nil => exact ⟨rfl, fun h => h⟩
  | cons entry rest ih =>
    rcases publishAll_cons entry rest tables with ⟨err, -, hrun⟩ | ⟨t, next, -, -, -, hrun⟩
    · rw [hrun]
      exact ⟨rfl, fun h => h⟩
    · have hrest := ih (setStore tables entry.slot next)
      rw [hrun]
      refine ⟨by rw [map_cons, map_cons, ← hrest.1]; rfl, fun h => ?_⟩
      rw [forall_mem_cons] at h
      exact forall_mem_cons.2 ⟨hK _ h.1, hrest.2 h.2⟩

theorem Coherent.commit_outcome (h : sys.Coherent) (i : ℕ) :
    CommitOutcome (sys.sessions i) sys.db ((sys.sessions i).commit sys.db) :=
  Shoveler.commit_outcome h.valid h.registry h.queue _

/-- The tables a commit leaves follow those it found. -/
theorem follows_commit {session : Session} {r : Database × Session × Result Unit}
    (h : CommitOutcome session db r) : List.Forall₂ Database.Follows db.tables r.1.tables := by
  cases h with
  | inactive | refused => exact Database.follows_refl _
  | idle => exact Database.follows_refl _
  | stopped registry tables transactions e ha ht hr hp =>
    have hf := Database.follows_publishAll session.transactions db.tables
    rw [hp] at hf
    exact hf
  | published registry tables transactions ha ht hr hp =>
    have hf := Database.follows_publishAll session.transactions db.tables
    rw [hp] at hf
    exact hf

/-- A commit leaves the schema alone. -/
theorem commit_schema {session : Session} {r : Database × Session × Result Unit}
    (h : CommitOutcome session db r) :
    r.1.catalog = db.catalog ∧ r.1.views = db.views ∧ r.1.procedures = db.procedures := by
  cases h <;> exact ⟨rfl, rfl, rfl⟩

theorem commit_valid {session : Session} {r : Database × Session × Result Unit} (hvalid : db.Valid)
    (h : CommitOutcome session db r) : r.1.Valid :=
  hvalid.follow (commit_schema h).1 (commit_schema h).2.1 (commit_schema h).2.2 (follows_commit h)

/-- **After a commit there is nothing to refresh.** -/
theorem Coherent.executeCommit (h : sys.Coherent) (i : ℕ) :
    Shoveler.executeCommit sys.db (sys.sessions i) = (sys.sessions i).commit sys.db := by
  have hvalid := commit_valid h.valid (h.commit_outcome i)
  unfold Shoveler.executeCommit
  cases hc : (sys.sessions i).commit sys.db with
  | mk db' rest =>
    obtain ⟨s', outcome⟩ := rest
    rw [hc] at hvalid
    cases outcome with
    | error e => rfl
    | ok =>
      simp only
      rw [hvalid.refreshTablePointers]

/-- The system after a commit, and what the commit returns. -/
theorem Coherent.step_commit (frontend : Frontend) (h : sys.Coherent) (i : ℕ) :
    (sys.step frontend (.statement i .commit)) =
      ⟨((sys.sessions i).commit sys.db).1,
        Function.update sys.sessions i ((sys.sessions i).commit sys.db).2.1⟩ := by
  rw [← h.executeCommit i]
  rfl

theorem Coherent.perform_commit (frontend : Frontend) (h : sys.Coherent) (i : ℕ) :
    (sys.perform frontend (.statement i .commit)).2 =
      ((sys.sessions i).commit sys.db).2.2.map fun _ => .ok := by
  rw [← h.executeCommit i]
  rfl

/-! ## Every event -/

/-- The statements that stage, if anything. -/
def StagesOnly : Ast.Statement → Prop
  | .insert _ | .update _ | .delete _ | .select _ | .call _ => True
  | _ => False

/-- **What an event leaves of the system.** It is refused, or begins a
session; a session ends, by its rollback, a commit of nothing or itself; a
rollback or a commit stops half way; a commit goes through; or it changes
the schema or the overlay, or only stages. A statement that stages keeps
every property of the session that the small steps of staging keep. An
invariant of the system is shown for these, and not once for every
statement of the language. -/
inductive Effect (sys : System) : Event → System → Prop
  | refused {event : Event} (fails : ∀ i, event = .statement i .commit →
      ((sys.sessions i).commit sys.db).2.2.isOk = false) : Effect sys event sys
  | begins (i : ℕ) (inactive : (sys.sessions i).active = false) :
      Effect sys (.statement i .begin) <|
        sys.put i { sys.db with registry := (sys.db.registry.acquire sys.db.commitSequence).1 }
          { sys.sessions i with
            snapshotSequence := some sys.db.commitSequence
            snapshotHandle := some ⟨sys.db.commitSequence, false⟩, active := true }
  | halts (i : ℕ) (transactions : List TableTransaction) (e : Error)
      (active : (sys.sessions i).active = true)
      (rolledBack : Session.rollbackAll (sys.sessions i).transactions = (transactions, .error e)) :
      Effect sys (.statement i .rollback) <|
        sys.put i sys.db { sys.sessions i with transactions := transactions }
  | rollsBack (i : ℕ) : Effect sys (.statement i .rollback) (sys.release i (sys.sessions i).close)
  | idles (i : ℕ) (nothing : (sys.sessions i).transactions = [])
      (result : (sys.sessions i).commit sys.db = (sys.sessions i).finishCommit sys.db) :
      Effect sys (.statement i .commit) <| sys.release i
        { sys.sessions i with lastCommitSequence := some sys.db.commitSequence }.close
  | ends (i : ℕ) : Effect sys (.deinit i) (sys.release i {})
  | stopped (i : ℕ) (registry : Registry) (tables : List TableState)
      (transactions : List TableTransaction) (e : Error) (active : (sys.sessions i).active = true)
      (retains : sys.db.retainCurrentGenerationForActiveSnapshots (sys.sessions i).snapshotHandle =
        (registry, .ok ()))
      (publishes : Session.publishAll (sys.sessions i).transactions sys.db.tables =
        (tables, transactions, .error e))
      (result : (sys.sessions i).commit sys.db =
        ({ sys.db with registry := registry, tables := tables },
          { sys.sessions i with transactions := transactions }, .error e)) :
      Effect sys (.statement i .commit) <|
        sys.put i { sys.db with registry := registry, tables := tables }
          { sys.sessions i with transactions := transactions }
  | published (i : ℕ) (registry : Registry) (tables : List TableState)
      (transactions : List TableTransaction) (something : (sys.sessions i).transactions ≠ [])
      (retains : sys.db.retainCurrentGenerationForActiveSnapshots (sys.sessions i).snapshotHandle =
        (registry, .ok ()))
      (publishes : Session.publishAll (sys.sessions i).transactions sys.db.tables =
        (tables, transactions, .ok ())) (s' : Session)
      (closed :
        s' = { sys.sessions i with lastCommitSequence := some (sys.db.commitSequence + 1) }.close)
      (result : (sys.sessions i).commit sys.db =
        ((sys.sessions i).publishedDb sys.db registry tables, s', .ok ())) :
      Effect sys (.statement i .commit) <|
        sys.put i ((sys.sessions i).publishedDb sys.db registry tables) s'
  | createTable (i : ℕ) (created : Ast.CreateTableStatement) (db' : Database)
      (result : (orKeep sys.db (sys.db.createTable created)).1 = db')
      (valid : db'.Valid) (schema : SchemaOnly sys.db db') :
      Effect sys (.statement i (.createTable created)) ⟨db', sys.sessions⟩
  | dropTable (i : ℕ) (dropped : Ast.NamedStatement) (db' : Database)
      (result : (orKeep sys.db (sys.db.dropTable dropped)).1 = db')
      (valid : db'.Valid) (schema : SchemaOnly sys.db db') :
      Effect sys (.statement i (.dropTable dropped)) ⟨db', sys.sessions⟩
  | defines (i : ℕ) (statement : Ast.Statement) (ddl : statement.IsDdl) (db' : Database)
      (beside : BesideTables sys.db db') : Effect sys (.statement i statement) ⟨db', sys.sessions⟩
  | drains (g : Generation) (n : ℕ) : Effect sys (.drain g n)
      ⟨{ sys.db with overlay := (sys.db.overlay.drainReady g n).2 }, sys.sessions⟩
  | stages (i : ℕ) (statement : Ast.Statement) (only : StagesOnly statement) (s' : Session)
      (rule : ∀ {P : Session → Prop} {I : TableState → ℕ → List Row → Session → Prop},
        StagingRule sys.db P I → P (sys.sessions i) → P s') :
      Effect sys (.statement i statement) (sys.put i sys.db s')

/-- **Every event does one of these.** -/
theorem Coherent.effect (frontend : Frontend) (h : sys.Coherent) (event : Event) :
    Effect sys event (sys.step frontend event) := by
  -- a session that stays as it is
  have hself : ∀ {event : Event} {db' : Database} {i : ℕ}, Effect sys event ⟨db', sys.sessions⟩ →
      Effect sys event (sys.put i db' (sys.sessions i)) := by
    intro event db' i heffect
    rw [System.put, Function.update_eq_self]
    exact heffect
  cases event with
  | deinit i => exact .ends i
  | drain g n => exact .drains g n
  | statement i statement =>
    cases statement with
    | begin =>
      change Effect sys _ (sys.put i ((sys.sessions i).begin sys.db).1 _)
      unfold Session.begin
      split
      · exact hself (.refused fun _ heq => by cases heq)
      · rename_i ha
        exact .begins i (by simpa using ha)
    | rollback =>
      change Effect sys _ (sys.put i ((sys.sessions i).rollback sys.db).1 _)
      unfold Session.rollback
      split
      · exact hself (.refused fun _ heq => by cases heq)
      · rename_i ha
        split
        · rename_i hr
          exact .halts i _ _ (by simpa using ha) hr
        · exact .rollsBack i
    | commit =>
      have hout := h.commit_outcome i
      rw [h.step_commit frontend i]
      generalize hc : (sys.sessions i).commit sys.db = r at hout ⊢
      cases hout with
      | inactive | refused =>
        refine hself (.refused fun _ heq => ?_)
        cases heq
        rw [hc]
        rfl
      | idle ha ht => exact .idles i ht hc
      | stopped registry tables transactions e ha ht hr hp =>
        exact .stopped i registry tables transactions e ha hr hp hc
      | published registry tables transactions ha ht hr hp =>
        exact .published i registry tables transactions ht hr hp _ rfl hc
    | createTable created =>
      obtain ⟨hvalid, hs⟩ := schemaOnly_createTable h.valid created
      exact hself (.createTable i created _ rfl hvalid hs)
    | dropTable dropped =>
      obtain ⟨hvalid, hs⟩ := schemaOnly_dropTable h.valid dropped
      exact hself (.dropTable i dropped _ rfl hvalid hs)
    | createView statement =>
      exact hself (.defines i (.createView statement) trivial _
        (besideTables_createView h.valid statement))
    | dropView statement =>
      exact hself (.defines i (.dropView statement) trivial _
        (besideTables_dropView h.valid statement))
    | createProcedure statement =>
      exact hself (.defines i (.createProcedure statement) trivial _
        (besideTables_createProcedure frontend.parseBody h.valid statement))
    | dropProcedure statement =>
      exact hself (.defines i (.dropProcedure statement) trivial _
        (besideTables_dropProcedure h.valid statement))
    | call statement =>
      exact .stages i (.call statement) trivial _ fun hrule hP => hrule.executeCall frontend hP _
    | insert statement =>
      exact .stages i (.insert statement) trivial _ fun hrule hP => hrule.executeDml frontend hP _
    | update statement =>
      exact .stages i (.update statement) trivial _ fun hrule hP => hrule.executeDml frontend hP _
    | delete statement =>
      exact .stages i (.delete statement) trivial _ fun hrule hP => hrule.executeDml frontend hP _
    | select statement =>
      exact .stages i (.select statement) trivial _ fun hrule hP => hrule.executeDml frontend hP _

/-- **Every event keeps the system coherent**, also one that fails. -/
theorem coherent_step (frontend : Frontend) (h : sys.Coherent) (event : Event) :
    (sys.step frontend event).Coherent := by
  have hfollow : ∀ {db' : Database}, db'.catalog = sys.db.catalog → db'.views = sys.db.views →
      db'.procedures = sys.db.procedures → db'.tables = sys.db.tables → db'.Valid :=
    fun hc hv hp ht => h.valid.follow hc hv hp (ht ▸ Database.follows_refl _)
  have heffect := h.effect frontend event
  generalize sys.step frontend event = sys' at heffect ⊢
  cases heffect with
  | refused => exact h
  | begins i ha =>
    obtain ⟨hhandle, -, htx⟩ := (h.shaped i).closed ha
    have hnone : (sys.sessions i).reading = none := by
      rw [Session.reading, hhandle]
      rfl
    have hshaped := Session.Shaped.begin sys.db.commitSequence (sys.sessions i).lastCommitSequence
    rw [← htx] at hshaped
    refine h.update (hfollow rfl rfl rfl rfl) h.registry.acquire hshaped
      (h.counted.acquire h.registry hnone rfl) (Nat.le_refl _) (fun g hg => ?_) h.queue
    obtain rfl := Option.some.inj hg
    exact Nat.le_refl _
  | halts i transactions e ha hr =>
    have hkeep := rollbackAll_keeps (K := fun e => e.tx.Ordered) (fun _ _ => .of_nil rfl rfl rfl)
      (sys.sessions i).transactions
    rw [hr] at hkeep
    exact h.stages ((h.shaped i).stages_entries ha hkeep)
  | rollsBack | idles =>
    exact h.closes h.registry h.counted (hfollow rfl rfl rfl rfl) (.close _) rfl rfl (Nat.le_refl _)
      h.queue
  | ends =>
    exact h.closes h.registry h.counted (hfollow rfl rfl rfl rfl) .new rfl rfl (Nat.le_refl _)
      h.queue
  | stopped i registry tables transactions e ha hr hp hc =>
    have hvalid := commit_valid h.valid (h.commit_outcome i)
    rw [hc] at hvalid
    obtain ⟨hgood, hcount⟩ := h.retain hr
    have hkeep := publishAll_keeps (K := fun e => e.tx.Ordered) (fun _ _ => .of_nil rfl rfl rfl)
      (sys.sessions i).transactions sys.db.tables
    rw [hp] at hkeep
    have hs := (h.shaped i).stages_entries ha hkeep
    exact h.update hvalid hgood hs.2 (hcount.same rfl) (Nat.le_refl _) (h.bounded i) h.queue
  | published i registry tables transactions ht hr hp s' hs hc =>
    subst hs
    have hvalid := commit_valid h.valid (h.commit_outcome i)
    rw [hc] at hvalid
    obtain ⟨hgood, hcount⟩ := h.retain hr
    exact h.closes hgood hcount hvalid (.close _) rfl rfl (Nat.le_succ _)
      ⟨h.queue.none_pending, h.queue.accepts, rfl⟩
  | createTable i _ db' _ hvalid hs | dropTable i _ db' _ hvalid hs =>
    exact h.schema hvalid hs.registry hs.commitSequence hs.commitQueue
  | defines i statement hddl db' hs =>
    exact h.schema hs.valid hs.registry hs.commitSequence hs.commitQueue
  | drains g n => exact h.schema (hfollow rfl rfl rfl rfl) rfl rfl rfl
  | stages i statement _ s' hrule =>
    have hstages := Session.stagingRule_stages sys.db (sys.sessions i)
    exact h.stages (hrule hstages ⟨.refl _, h.shaped i⟩)

/-- **And so does every run.** -/
theorem coherent_run (frontend : Frontend) (h : sys.Coherent) (events : List Event) :
    (sys.run frontend events).Coherent := by
  refine Run.run_invariant (C := fun _ _ => True) (fun s e hs _ => coherent_step frontend hs e) h ?_
  exact Run.along_of_mem fun _ _ _ => trivial

/-! ## Reachable systems -/

/-- **A database just opened**, empty or restored from a snapshot: in good
order, with nothing committed, read or pending. -/
structure Opened (db : Database) : Prop where
  valid : db.Valid
  commitSequence : db.commitSequence = 0
  commitQueue : db.commitQueue = {}
  registry : db.registry = {}
  overlay : db.overlay = {}

theorem Opened.empty : Opened {} := ⟨.empty, rfl, rfl, rfl, rfl⟩

/-- **The system gets here** from a database just opened, by some events. -/
def Reachable (frontend : Frontend) (sys : System) : Prop :=
  ∃ db events, Opened db ∧ sys = (System.start db).run frontend events

theorem Reachable.coherent {frontend : Frontend} (h : sys.Reachable frontend) : sys.Coherent := by
  obtain ⟨db, events, hopened, rfl⟩ := h
  refine coherent_run frontend (Coherent.start hopened.valid ?_ ?_ ?_) events
  · rw [hopened.registry]
  · rw [hopened.registry]
  · rw [hopened.commitQueue, hopened.commitSequence]
    exact ⟨rfl, Nat.succ_pos _, rfl⟩

/-- **The induction over reachable systems**, along which the system is
coherent. -/
theorem Reachable.invariant {frontend : Frontend} {I : System → Prop} (h : sys.Reachable frontend)
    (hstart : ∀ db, Opened db → I (System.start db))
    (hstep : ∀ s event, System.Coherent s → I s → I (s.step frontend event)) : I sys := by
  obtain ⟨db, events, hopened, rfl⟩ := h
  have hreach : (System.start db).Reachable frontend := ⟨db, [], hopened, rfl⟩
  have hboth := Run.run_invariant (I := fun s => System.Coherent s ∧ I s) (C := fun _ _ => True)
    (fun s event hs _ => ⟨coherent_step frontend hs.1 event, hstep s event hs.1 hs.2⟩)
    ⟨hreach.coherent, hstart db hopened⟩ (Run.along_of_mem fun _ (_ : _ ∈ events) _ => trivial)
  exact hboth.2

theorem Reachable.run {frontend : Frontend} (h : sys.Reachable frontend) (events : List Event) :
    (sys.run frontend events).Reachable frontend := by
  obtain ⟨db, before, hopened, rfl⟩ := h
  exact ⟨db, before ++ events, hopened, (Run.run_append _ _ _ _).symm⟩

end System

theorem Script.twoTables_reachable : Script.twoTables.Reachable Script.frontend :=
  ⟨{}, _, .empty, rfl⟩

end Shoveler
