import Shoveler.Invariant.Registry
import Shoveler.Invariant.Schema
import Shoveler.Storage.Failures

/-!
# What a commit does

`Session.commit` walks through four stages that can each end it: the
queue, the retention of the generation others still read, the loop over
the table transactions, and the end that closes the session. Said once
here, as the outcomes it can have (`CommitOutcome`), with what each leaves
behind.

The loop publishes the table transactions in order. Where they point at
different slots it is described by the part that went through
(`publishAll_cases`): each of those put its own publication in its own
slot, and the other slots are as they were. Whatever they point at, the
ways a commit can fail are few (`commitErrors`).
-/

namespace Shoveler

open Outcome List

open Outcome (FailsWith)

/-- The slot a table transaction points at. -/
def TableTransaction.slot (e : TableTransaction) : ℕ := e.tx.slot

/-- A table transaction after it was published. -/
def TableTransaction.committed (e : TableTransaction) : TableTransaction :=
  { e with tx := { e.tx.clearLocalRows with state := .committed } }

/-! ## The loop -/

variable {db : Database} {tables tables' : List TableState} {slot : ℕ}

theorem getElem?_setStore_self {t : TableState} (h : tables[slot]? = some t) (s : RowStore) :
    (setStore tables slot s)[slot]? = some { t with store := s } := by
  rw [setStore, getElem?_modify_eq, h]
  rfl

theorem getElem?_setStore_ne {k : ℕ} (h : slot ≠ k) (s : RowStore) :
    (setStore tables slot s)[k]? = tables[k]? := by
  rw [setStore, getElem?_modify_ne _ _ h]

theorem storeAt_setStore_ne {k : ℕ} (h : slot ≠ k) (s : RowStore) :
    storeAt (setStore tables slot s) k = storeAt tables k := by
  rw [storeAt, getElem?_setStore_ne h, storeAt]

/-- Putting back the store that is there changes no table. -/
theorem setStore_storeAt {store : RowStore} (h : storeAt tables slot = .ok store) :
    setStore tables slot store = tables := by
  obtain ⟨t, ht, rfl⟩ := Database.storeAt_eq_ok.1 h
  unfold setStore
  refine ext_getElem? fun k => ?_
  rw [getElem?_modify]
  by_cases hk : slot = k
  · subst hk
    rw [ht]
    simp
  · simp [hk]

/-- **One round of the loop**: it stops there, or the table transaction is
published and the loop goes on with the tables it has left. -/
theorem publishAll_cons (entry : TableTransaction) (rest : List TableTransaction)
    (tables : List TableState) :
    (∃ err, entry.tx.commit (storeAt tables entry.slot) = .error err ∧
        Session.publishAll (entry :: rest) tables = (tables, entry :: rest, .error err)) ∨
      ∃ t next, entry.tx.state = .active ∧ tables[entry.slot]? = some t ∧
        entry.tx.publish t.store = .ok next ∧ Session.publishAll (entry :: rest) tables =
          ((Session.publishAll rest (setStore tables entry.slot next)).1,
            entry.committed :: (Session.publishAll rest (setStore tables entry.slot next)).2.1,
            (Session.publishAll rest (setStore tables entry.slot next)).2.2) := by
  unfold TableTransaction.slot
  rw [Session.publishAll]
  cases hcommit : entry.tx.commit (storeAt tables entry.tx.slot) with
  | error err => exact .inl ⟨err, rfl, rfl⟩
  | ok result =>
    obtain ⟨next, tx⟩ := result
    obtain ⟨hactive, s, hs, hnext, rfl⟩ := Database.commit_eq_ok.1 hcommit
    obtain ⟨t, ht, rfl⟩ := Database.storeAt_eq_ok.1 hs
    exact .inr ⟨t, next, hactive, ht, hnext, rfl⟩

/-- The part of the table transactions that went through, and the tables
it has left. -/
structure Published (tables : List TableState) (done : List TableTransaction)
    (tables' : List TableState) : Prop where
  published : ∀ e ∈ done, e.tx.state = .active ∧ ∃ t next, tables[e.slot]? = some t ∧
    e.tx.publish t.store = .ok next ∧ tables'[e.slot]? = some { t with store := next }
  untouched : ∀ k, k ∉ done.map TableTransaction.slot → tables'[k]? = tables[k]?

/-- One more table transaction that went through, ahead of the others. -/
theorem Published.cons {entry : TableTransaction} {done : List TableTransaction} {t : TableState}
    {next : RowStore} (hactive : entry.tx.state = .active) (ht : tables[entry.slot]? = some t)
    (hnext : entry.tx.publish t.store = .ok next)
    (hnew : entry.slot ∉ done.map TableTransaction.slot)
    (h : Published (setStore tables entry.slot next) done tables') :
    Published tables (entry :: done) tables' := by
  refine ⟨fun e he => ?_, fun k hk => ?_⟩
  · rcases mem_cons.1 he with rfl | he
    · refine ⟨hactive, t, next, ht, hnext, ?_⟩
      rw [h.untouched _ hnew]
      exact getElem?_setStore_self ht next
    · have hne : entry.slot ≠ e.slot := fun heq => hnew (heq ▸ mem_map_of_mem he)
      obtain ⟨ha, t', next', ht', hnext', hslot⟩ := h.published e he
      rw [getElem?_setStore_ne hne] at ht'
      exact ⟨ha, t', next', ht', hnext', hslot⟩
  · rw [map_cons, mem_cons, not_or] at hk
    rw [h.untouched k hk.2, getElem?_setStore_ne fun heq => hk.1 heq.symm]

/-- **The loop publishes up to the first table transaction that fails**,
and that one fails on the table as it was. -/
theorem publishAll_cases {entries : List TableTransaction}
    (hslots : (entries.map TableTransaction.slot).Nodup) (tables : List TableState) :
    ∃ done rest tables', entries = done ++ rest ∧ Published tables done tables' ∧
      (rest = [] ∧
          Session.publishAll entries tables =
            (tables', done.map TableTransaction.committed, .ok ()) ∨
        ∃ e more err, rest = e :: more ∧ e.tx.commit (storeAt tables e.slot) = .error err ∧
          Session.publishAll entries tables =
            (tables', done.map TableTransaction.committed ++ rest, .error err)) := by
  induction entries generalizing tables with
  | nil =>
    refine ⟨[], [], tables, rfl, ⟨fun e he => ?_, fun k _ => rfl⟩, Or.inl ⟨rfl, rfl⟩⟩
    cases he
  | cons entry entries ih =>
    rw [map_cons, nodup_cons] at hslots
    rcases publishAll_cons entry entries tables with
      ⟨err, herr, hrun⟩ | ⟨t, next, hactive, ht, hnext, hrun⟩
    · refine ⟨[], entry :: entries, tables, rfl, ⟨fun e he => ?_, fun k _ => rfl⟩,
        Or.inr ⟨entry, entries, err, rfl, herr, hrun⟩⟩
      cases he
    · obtain ⟨done, rest, tables', rfl, hpub, hout⟩ :=
        ih hslots.2 (setStore tables entry.slot next)
      have hnew : entry.slot ∉ done.map TableTransaction.slot := fun hmem =>
        hslots.1 (by rw [map_append]; exact mem_append_left _ hmem)
      refine ⟨entry :: done, rest, tables', rfl, hpub.cons hactive ht hnext hnew, ?_⟩
      rcases hout with ⟨hrest, hout⟩ | ⟨e, more, err, hrest, herr, hout⟩
      · exact Or.inl ⟨hrest, by rw [hrun, hout]; rfl⟩
      · -- the slot that was written is not the one the failing transaction points at
        have hne : entry.slot ≠ e.slot := fun heq => hslots.1 (by
          rw [heq, hrest, map_append, map_cons]
          exact mem_append_right _ mem_cons_self)
        rw [storeAt_setStore_ne hne] at herr
        exact Or.inr ⟨e, more, err, hrest, herr, by rw [hrun, hout]; rfl⟩

/-- A loop that went through published everything. -/
theorem publishAll_eq_ok {entries entries' : List TableTransaction}
    (hslots : (entries.map TableTransaction.slot).Nodup)
    (h : Session.publishAll entries tables = (tables', entries', .ok ())) :
    Published tables entries tables' := by
  obtain ⟨done, rest, tables₁, hsplit, hpub, ⟨rfl, hrun⟩ | ⟨e, more, err, -, -, hrun⟩⟩ :=
    publishAll_cases hslots tables
  · rw [h] at hrun
    obtain ⟨rfl, -⟩ := Prod.mk.inj hrun
    rw [hsplit, append_nil]
    exact hpub
  · rw [h] at hrun
    cases (Prod.mk.inj (Prod.mk.inj hrun).2).2

/-- A loop that stopped published what stands before the table transaction
it stopped at. -/
theorem publishAll_eq_error {entries entries' : List TableTransaction}
    (hslots : (entries.map TableTransaction.slot).Nodup) {err : Error}
    (h : Session.publishAll entries tables = (tables', entries', .error err)) :
    ∃ done e rest, entries = done ++ e :: rest ∧ Published tables done tables' ∧
      e.tx.commit (storeAt tables e.slot) = .error err ∧
      entries' = done.map TableTransaction.committed ++ e :: rest := by
  obtain ⟨done, rest, tables₁, hsplit, hpub, ⟨rfl, hrun⟩ | ⟨e, more, err', rfl, herr, hrun⟩⟩ :=
    publishAll_cases hslots tables
  · rw [h] at hrun
    cases (Prod.mk.inj (Prod.mk.inj hrun).2).2
  · rw [h] at hrun
    obtain ⟨rfl, hrun'⟩ := Prod.mk.inj hrun
    obtain ⟨rfl, he⟩ := Prod.mk.inj hrun'
    obtain rfl := Except.error.inj he
    exact ⟨done, e, more, hsplit, hpub, herr, rfl⟩

/-! ## Retaining the current generation -/

/-- The current generation, as retention captures it. -/
def Database.captured (db : Database) : RetainedGeneration :=
  ⟨db.commitSequence, db.tables.map fun t => ⟨t.store.table, t.store⟩⟩

/-- The registry with the current generation kept. -/
def Database.retaining (db : Database) : Registry :=
  { db.registry with retained := db.registry.retained ++ [db.captured] }

/-- The tables of a database in good order are captured as they are, where
their definitions can be rebuilt. -/
theorem capture_eq_ok (h : db.Valid) {tables : List RetainedTable} :
    (db.tables.map fun t => ({ table := t.store.table, store := t.store } : TableSource)).mapM
        RetainedTable.init = .ok tables ↔
      (∀ t ∈ db.tables, t.store.table.Rebuildable) ∧ tables = db.captured.tables := by
  have hone : ∀ t ∈ db.tables, ∀ rt, RetainedTable.init { table := t.store.table, store := t.store } =
      .ok rt ↔ t.store.table.Rebuildable ∧ rt = ⟨t.store.table, t.store⟩ := fun t ht _ =>
    RetainedTable.init_eq_ok (h.stores t ht) rfl
  rw [mapM_eq_ok, forall₂_map_left_iff, forall₂_iff_map hone]
  rfl

/-- Retention is asked for only where the generation is read and not kept
yet. -/
theorem Registry.of_needsRetention {reg : Registry} {g : Generation}
    {excluding : Option SnapshotHandle} (h : reg.needsRetention g excluding = true) :
    reg.activeRefCount g ≠ 0 ∧ reg.retainedAt g = none := by
  unfold Registry.needsRetention at h
  rw [Bool.and_eq_true, decide_eq_true_iff, Option.isNone_iff_eq_none] at h
  obtain ⟨hrefs, hfind⟩ := h
  refine ⟨fun hzero => ?_, ?_⟩
  · rw [hzero] at hrefs
    cases excluding with
    | none => exact Nat.lt_irrefl 0 hrefs
    | some handle => simp at hrefs
  · rw [← Option.not_isSome_iff_eq_none, ← Registry.findRetainedIndex_isSome, hfind]
    exact Bool.false_ne_true

/-- **What retention does**: it is not called for, or it cannot be done and
nothing changes, or the current tables are kept. -/
theorem retainCurrent_cases (hreg : db.registry.Good) (h : db.Valid)
    (excluding : Option SnapshotHandle) :
    (db.registry.needsRetention db.commitSequence excluding = false ∧
        db.retainCurrentGenerationForActiveSnapshots excluding = (db.registry, .ok ())) ∨
      (db.registry.needsRetention db.commitSequence excluding = true ∧
        db.retainCurrentGenerationForActiveSnapshots excluding = (db.retaining, .ok ())) ∨
      ∃ e, db.retainCurrentGenerationForActiveSnapshots excluding = (db.registry, .error e) ∧
        (e = .snapshotRetentionExceeded ∨ ∃ t ∈ db.tables, ¬t.store.table.Rebuildable) := by
  rw [Database.retainCurrentGenerationForActiveSnapshots]
  cases hneeds : db.registry.needsRetention db.commitSequence excluding with
  | false => exact Or.inl ⟨rfl, if_neg Bool.false_ne_true⟩
  | true =>
    refine Or.inr ?_
    obtain ⟨-, hnone⟩ := Registry.of_needsRetention hneeds
    rw [if_pos rfl]
    rcases @Registry.retainGeneration_cases db.registry db.commitSequence hreg
        (db.tables.map fun t => { table := t.store.table, store := t.store }) with
      ⟨hsome, -⟩ | ⟨-, e, hrun, he⟩ | ⟨-, tables, hcap, hrun⟩
    · rw [hnone] at hsome
      cases hsome
    · refine Or.inr ⟨e, hrun, he.imp id fun hcap => ?_⟩
      by_contra hno
      have hrebuild : ∀ t ∈ db.tables, t.store.table.Rebuildable := fun t ht =>
        by_contra fun hnot => hno ⟨t, ht, hnot⟩
      rw [(capture_eq_ok h).2 ⟨hrebuild, rfl⟩] at hcap
      cases hcap
    · obtain ⟨-, rfl⟩ := (capture_eq_ok h).1 hcap
      exact Or.inl ⟨rfl, hrun⟩

/-- Retention that goes through keeps nothing or the current tables. -/
theorem retainCurrent_eq_ok (hreg : db.registry.Good) (h : db.Valid)
    {excluding : Option SnapshotHandle} {reg : Registry}
    (hr : db.retainCurrentGenerationForActiveSnapshots excluding = (reg, .ok ())) :
    (db.registry.needsRetention db.commitSequence excluding = false ∧ reg = db.registry) ∨
      db.registry.needsRetention db.commitSequence excluding = true ∧ reg = db.retaining := by
  rcases retainCurrent_cases hreg h excluding with ⟨hneeds, he⟩ | ⟨hneeds, he⟩ | ⟨e, he, -⟩
  all_goals rw [he] at hr; obtain ⟨rfl, hout⟩ := Prod.mk.inj hr
  · exact Or.inl ⟨hneeds, rfl⟩
  · exact Or.inr ⟨hneeds, rfl⟩
  · cases hout

/-! ## The outcomes -/

/-- A queue between commits. -/
structure Queue.Idle (q : Queue) (sequence : Generation) : Prop where
  none_pending : q.pendingWrites = 0
  accepts : 0 < q.maxPendingWrites
  sequence : q.lastAssignedSequence = sequence

/-- The database after all of a session's tables were published. -/
def Session.publishedDb (session : Session) (db : Database) (registry : Registry)
    (tables : List TableState) : Database :=
  { db with
    commitQueue := { db.commitQueue with lastAssignedSequence := db.commitSequence + 1 }
    registry := session.releaseHandle registry
    tables := tables
    commitSequence := db.commitSequence + 1
    overlay := Database.recordVectorOverlayDeltas { db with tables := tables }
      (db.commitSequence + 1) }

/-- **The outcomes of a commit.** -/
inductive CommitOutcome (session : Session) (db : Database) :
    Database × Session × Result Unit → Prop
  | inactive (h : session.active = false) :
    CommitOutcome session db (db, session, .error .noActiveTransaction)
  | idle (ha : session.active = true) (ht : session.transactions = []) :
    CommitOutcome session db (session.finishCommit db)
  | refused (e : Error) (ha : session.active = true) (ht : session.transactions ≠ [])
    (hr : db.retainCurrentGenerationForActiveSnapshots session.snapshotHandle =
      (db.registry, .error e)) :
    CommitOutcome session db (db, session, .error e)
  | stopped (registry : Registry) (tables : List TableState)
    (transactions : List TableTransaction) (e : Error) (ha : session.active = true)
    (ht : session.transactions ≠ [])
    (hr : db.retainCurrentGenerationForActiveSnapshots session.snapshotHandle =
      (registry, .ok ()))
    (hp : Session.publishAll session.transactions db.tables = (tables, transactions, .error e)) :
    CommitOutcome session db
      ({ db with registry := registry, tables := tables },
        { session with transactions := transactions }, .error e)
  | published (registry : Registry) (tables : List TableState)
    (transactions : List TableTransaction) (ha : session.active = true)
    (ht : session.transactions ≠ [])
    (hr : db.retainCurrentGenerationForActiveSnapshots session.snapshotHandle =
      (registry, .ok ()))
    (hp : Session.publishAll session.transactions db.tables = (tables, transactions, .ok ())) :
    CommitOutcome session db
      (session.publishedDb db registry tables,
        { session with lastCommitSequence := some (db.commitSequence + 1) }.close, .ok ())

/-- **A commit has one of these outcomes**, in a database in good order
with an idle queue. -/
theorem commit_outcome (hvalid : db.Valid) (hreg : db.registry.Good)
    (hqueue : db.commitQueue.Idle db.commitSequence) (session : Session) :
    CommitOutcome session db (session.commit db) := by
  unfold Session.commit
  by_cases ha : session.active = true
  · rw [if_neg (by simp [ha])]
    by_cases ht : session.transactions = []
    · rw [if_pos (by simp [ht])]
      exact .idle ha ht
    · rw [if_neg (by simpa using ht)]
      have henq : db.commitQueue.enqueue =
          .ok { db.commitQueue with pendingWrites := db.commitQueue.pendingWrites + 1 } := by
        have hpending := hqueue.none_pending
        have haccepts := hqueue.accepts
        rw [Queue.enqueue, if_neg (by omega), if_neg (by omega)]
      have habort : Queue.abortQueuedCommit
          { db.commitQueue with pendingWrites := db.commitQueue.pendingWrites + 1 } =
          db.commitQueue := rfl
      have hcomplete : Queue.completeQueuedCommit
          { db.commitQueue with pendingWrites := db.commitQueue.pendingWrites + 1 } =
          { db.commitQueue with lastAssignedSequence := db.commitSequence + 1 } := by
        rw [← hqueue.sequence]
        rfl
      simp only [henq, habort, hcomplete]
      cases hr : db.retainCurrentGenerationForActiveSnapshots session.snapshotHandle with
      | mk registry outcome =>
        cases outcome with
        | error e =>
          have hsame : registry = db.registry := by
            rcases retainCurrent_cases hreg hvalid session.snapshotHandle with
              ⟨-, h⟩ | ⟨-, h⟩ | ⟨e', h, -⟩
            all_goals rw [h] at hr
            · cases (Prod.mk.inj hr).2
            · cases (Prod.mk.inj hr).2
            · exact (Prod.mk.inj hr).1.symm
          subst hsame
          exact .refused e ha ht hr
        | ok =>
          cases hp : Session.publishAll session.transactions db.tables with
          | mk tables rest =>
            obtain ⟨transactions, outcome⟩ := rest
            cases outcome with
            | error e => exact .stopped registry tables transactions e ha ht hr hp
            | ok => exact .published registry tables transactions ha ht hr hp
  · rw [if_pos (by simpa using ha)]
    exact .inactive (Bool.eq_false_iff.2 ha)

/-! ## What a commit fails with -/

/-- What a commit can come back with, over a database in good order. -/
def commitErrors : List Error :=
  [.noActiveTransaction, .snapshotRetentionExceeded, .alreadyCommitted, .alreadyRolledBack,
    .panic .danglingStore] ++ (definitionErrors ++ publishErrors)

theorem publishAll_failsWith (entries : List TableTransaction) (h : ∀ t ∈ tables, t.store.Valid) :
    FailsWith (· ∈ commitErrors) (Session.publishAll entries tables).2.2 := by
  induction entries generalizing tables with
  | nil => exact .ok ()
  | cons entry rest ih =>
    unfold Session.publishAll
    cases hc : entry.tx.commit (storeAt tables entry.tx.slot) with
    | error e =>
      -- the transaction is over, its slot is gone, or publishing fails
      have hcommit : FailsWith (· ∈ commitErrors)
          (entry.tx.commit (storeAt tables entry.tx.slot)) := by
        refine .bind ?_ fun _ _ => .bind ?_ fun s hs => .bind ?_ fun _ _ => .ok _
        · unfold Transaction.ensureActive
          split
          · exact .ok ()
          · exact .error (by decide)
          · exact .error (by decide)
        · unfold storeAt
          split
          · exact .ok _
          · exact .error (by decide)
        · obtain ⟨t, ht, rfl⟩ := Database.storeAt_eq_ok.1 hs
          refine (entry.tx.publish_failsWith (h t (mem_of_getElem? ht))).mono fun e he => ?_
          exact mem_append_right _ (mem_append_right _ he)
      exact .error (hcommit e hc)
    | ok result =>
      obtain ⟨next, tx⟩ := result
      obtain ⟨-, s, hs, hnext, -⟩ := Database.commit_eq_ok.1 hc
      refine ih fun t' ht' => ?_
      obtain ⟨t, ht, hfollow⟩ := exists_left_of_forall₂
        (Database.follows_setStore hs (Transaction.publishes hnext)) ht'
      exact hfollow.2.valid (h t ht)

/-- Retention fails at the limit, or where the capture does. -/
theorem Registry.retainGeneration_failsWith {Q : Error → Prop} {reg : Registry} {g : Generation}
    {sources : List TableSource} (hlimit : Q .snapshotRetentionExceeded)
    (hcapture : FailsWith Q (sources.mapM RetainedTable.init)) :
    FailsWith Q (reg.retainGeneration g sources).2 := by
  unfold Registry.retainGeneration
  split
  · exact .ok ()
  · simp only
    split
    · exact .error hlimit
    · split
      · rename_i e he
        exact .error (hcapture e he)
      · exact .ok ()

/-- **What a commit fails with.** -/
theorem CommitOutcome.failsWith {session : Session} (hvalid : db.Valid)
    {r : Database × Session × Result Unit} (h : CommitOutcome session db r) :
    FailsWith (· ∈ commitErrors) r.2.2 := by
  cases h with
  | inactive => exact .error (by decide)
  | idle => exact .ok ()
  | published => exact .ok ()
  | stopped registry tables transactions e ha ht hr hp =>
    have hfails := publishAll_failsWith session.transactions hvalid.stores
    rw [hp] at hfails
    exact hfails
  | refused e ha ht hr =>
    have hretain : FailsWith (· ∈ commitErrors)
        (db.retainCurrentGenerationForActiveSnapshots session.snapshotHandle).2 := by
      unfold Database.retainCurrentGenerationForActiveSnapshots
      split
      · refine Registry.retainGeneration_failsWith (by decide) (.mapM fun source hsource => ?_)
        obtain ⟨t, ht, rfl⟩ := mem_map.1 hsource
        refine (RetainedTable.init_failsWith (hvalid.stores t ht) rfl).mono fun e he => ?_
        exact mem_append_right _ (mem_append_left _ he)
      · exact .ok ()
    rw [hr] at hretain
    exact hretain

end Shoveler
