import Shoveler.Invariant.Live
import Shoveler.Invariant.Steady

/-!
# All or nothing

`COMMIT` publishes the table transactions of a session one after the
other, and each can fail: a row it changes may be gone by now. What was
published before the failure stays published, and its transaction stays
committed. So a failed commit leaves the committed rows alone exactly
when nothing that stands before the failure changes a row
(`commit_atomic_iff`), and a later `ROLLBACK`, which takes the table
transactions one after the other too, gets the session out exactly when
each of them is still active (`rollback_gets_out_iff`).
-/

namespace Shoveler

open Script List

/-- The committed rows, table by table. -/
def Database.committedRows (db : Database) : List (Bytes × List Row) :=
  db.tables.map fun t => (t.name, t.store.rows)

/-! ## Failed commits -/

/-- **A commit that fails changes nothing that is committed.** -/
def CommitAtomic (db : Database) (session : Session) : Prop :=
  ∀ db' session' err, session.commit db = (db', session', .error err) →
    db'.committedRows = db.committedRows ∧ db'.commitSequence = db.commitSequence ∧
      db'.overlay = db.overlay

/-- A table transaction that cannot be published into its table as it
stands. -/
def Stuck (db : Database) (e : TableTransaction) : Prop :=
  ∃ err, e.tx.commit (storeAt db.tables e.slot) = .error err

/-- A table transaction that leaves the rows of its table as they stand. -/
def Harmless (db : Database) (e : TableTransaction) : Prop :=
  ∀ t, db.tables[e.slot]? = some t → e.tx.LeavesAlone t.store

/-- **What keeps a commit atomic**: it is refused before it publishes, or
the table transactions that stand before the first one that cannot be
published leave their tables as they are. -/
def StopsHarmless (db : Database) (session : Session) : Prop :=
  (∃ registry err, db.retainCurrentGenerationForActiveSnapshots session.snapshotHandle =
      (registry, .error err)) ∨
    ∀ done e rest, session.transactions = done ++ e :: rest → (∀ d ∈ done, ¬Stuck db d) →
      Stuck db e → ∀ d ∈ done, Harmless db d

/-- What was published was not stuck. -/
theorem Published.not_stuck {db : Database} {done : List TableTransaction}
    {tables : List TableState} (h : Published db.tables done tables) :
    ∀ d ∈ done, ¬Stuck db d := by
  rintro d hd ⟨err, herr⟩
  obtain ⟨ha, t, next, ht, hnext, -⟩ := h.published d hd
  have hstore : storeAt db.tables d.slot = .ok t.store := Database.storeAt_eq_ok.2 ⟨t, ht, rfl⟩
  rw [Database.commit_eq_ok.2 ⟨ha, t.store, hstore, hnext, rfl⟩] at herr
  cases herr

/-- Two lists split at the first element with a property are split at the
same place. -/
theorem split_unique {α : Type} {p : α → Prop} {done done' rest rest' : List α} {e e' : α}
    (h : done ++ e :: rest = done' ++ e' :: rest') (hdone : ∀ d ∈ done, ¬p d) (he : p e)
    (hdone' : ∀ d ∈ done', ¬p d) (he' : p e') : done = done' := by
  induction done generalizing done' with
  | nil =>
    cases done' with
    | nil => rfl
    | cons d' done' =>
      obtain ⟨rfl, -⟩ := cons.inj h
      exact absurd he (hdone' e mem_cons_self)
  | cons d done ih =>
    cases done' with
    | nil =>
      obtain ⟨rfl, -⟩ := cons.inj h
      exact absurd he' (hdone d mem_cons_self)
    | cons d' done' =>
      obtain ⟨rfl, htail⟩ := cons.inj h
      rw [ih htail (fun x hx => hdone x (mem_cons_of_mem _ hx))
        fun x hx => hdone' x (mem_cons_of_mem _ hx)]

section Commit

variable {sys : System} {i : ℕ}

/-- Two lists of tables show the same rows exactly when they do slot by
slot. -/
theorem committedRows_eq {db db' : Database}
    (hf : List.Forall₂ Database.Follows db.tables db'.tables) :
    db'.committedRows = db.committedRows ↔
      ∀ (k : ℕ) (t t' : TableState), db.tables[k]? = some t → db'.tables[k]? = some t' →
        t'.store.rows = t.store.rows := by
  unfold Database.committedRows
  generalize db.tables = l at hf ⊢
  generalize db'.tables = l' at hf ⊢
  constructor
  · intro heq k t t' ht ht'
    have hk := congrArg (fun m => m[k]?) heq
    simp only [getElem?_map, ht, ht', Option.map_some, Option.some.injEq, Prod.mk.injEq] at hk
    exact hk.2
  · intro h
    induction hf with
    | nil => rfl
    | cons hab _ ih =>
      have hhead := h 0 _ _ getElem?_cons_zero getElem?_cons_zero
      have htail := ih fun k t t' ht ht' => h (k + 1) t t' ht ht'
      rw [map_cons, map_cons, htail, hab.1, hhead]

/-- **A publication changes no row exactly when each part of it is
harmless.** -/
theorem System.Steady.published_rows (h : sys.Steady) {done rest : List TableTransaction}
    (hsplit : (sys.sessions i).transactions = done ++ rest) {tables : List TableState}
    (hpub : Published sys.db.tables done tables)
    (hf : List.Forall₂ Database.Follows sys.db.tables tables) :
    Database.committedRows { sys.db with tables := tables } = sys.db.committedRows ↔
      ∀ d ∈ done, Harmless sys.db d := by
  have hrows := @committedRows_eq sys.db { sys.db with tables := tables } hf
  rw [hrows]
  have hmem : ∀ d ∈ done, d ∈ (sys.sessions i).transactions := fun d hd =>
    hsplit ▸ mem_append_left _ hd
  constructor
  · intro hsame d hd t ht
    obtain ⟨hactive, t₀, next, ht₀, hnext, ht'⟩ := hpub.published d hd
    obtain rfl := Option.some.inj (ht.symm.trans ht₀)
    obtain ⟨t₁, hin⟩ := h.entries i d (hmem d hd)
    have ha := (h.shaped i).active_of_mem (hmem d hd)
    obtain ⟨-, base, -, -, hbase, -, hpublishes⟩ := h.snapshotStoreForRead ha ht
    exact Transaction.leavesAlone_of_publish (h.valid.stores t (mem_of_getElem? ht))
      hin.staged.toOrdered (hin.parted hactive base hbase) hpublishes.nextId hnext
      (hsame _ _ _ ht ht')
  · intro hall k t t' ht ht'
    by_cases hk : k ∈ done.map TableTransaction.slot
    · obtain ⟨d, hd, rfl⟩ := mem_map.1 hk
      obtain ⟨-, t₀, next, ht₀, hnext, hslot⟩ := hpub.published d hd
      obtain rfl := Option.some.inj (ht.symm.trans ht₀)
      obtain rfl := Option.some.inj (ht'.symm.trans hslot)
      obtain ⟨t₁, hin⟩ := h.entries i d (hmem d hd)
      exact (hall d hd t ht).publish (h.valid.stores t (mem_of_getElem? ht))
        hin.staged.toOrdered hnext
    · have hsame : tables[k]? = sys.db.tables[k]? := hpub.untouched k hk
      rw [Option.some.inj ((hsame.symm.trans ht').symm.trans ht |>.symm)]

/-- The condition, in a steady system. -/
theorem System.Steady.commitAtomic_iff (h : sys.Steady) :
    CommitAtomic sys.db (sys.sessions i) ↔ StopsHarmless sys.db (sys.sessions i) := by
  have hout := h.toCoherent.commit_outcome i
  have hfollow := System.follows_commit hout
  constructor
  · intro hatomic
    generalize hr : (sys.sessions i).commit sys.db = r at hout hfollow
    cases hout with
    | inactive ha =>
      refine Or.inr fun done e rest hsplit => ?_
      rw [((h.shaped i).closed ha).2.2] at hsplit
      simp at hsplit
    | idle ha ht =>
      refine Or.inr fun done e rest hsplit => ?_
      rw [ht] at hsplit
      simp at hsplit
    | refused err ha ht hret => exact Or.inl ⟨_, err, hret⟩
    | stopped registry tables transactions err ha ht hret hp =>
      refine Or.inr fun done e rest hsplit hdone hstuck => ?_
      obtain ⟨done', e', rest', hsplit', hpub, herr, -⟩ := publishAll_eq_error (h.slots_nodup i) hp
      -- the loop stops at the first transaction that is stuck
      have hsame : done = done' :=
        split_unique (hsplit.symm.trans hsplit') hdone hstuck hpub.not_stuck ⟨err, herr⟩
      subst hsame
      exact (h.published_rows hsplit' hpub hfollow).1 (hatomic _ _ _ hr).1
    | published registry tables transactions ha ht hret hp =>
      refine Or.inr fun done e rest hsplit hdone hstuck => ?_
      have hpub := publishAll_eq_ok (h.slots_nodup i) hp
      have hmem : e ∈ (sys.sessions i).transactions := by
        rw [hsplit]
        exact mem_append_right _ mem_cons_self
      exact absurd hstuck (hpub.not_stuck e hmem)
  · intro hsafe db' session' err hc
    rw [hc] at hout hfollow
    generalize hr : (db', session', Except.error err) = r at hout hfollow
    cases hout with
    | inactive ha =>
      cases hr
      exact ⟨rfl, rfl, rfl⟩
    | idle ha ht => cases hr
    | refused err' ha ht hret =>
      cases hr
      exact ⟨rfl, rfl, rfl⟩
    | stopped registry tables transactions err' ha ht hret hp =>
      cases hr
      obtain ⟨done, e, rest, hsplit, hpub, herr, -⟩ := publishAll_eq_error (h.slots_nodup i) hp
      rcases hsafe with ⟨reg, err', hrefused⟩ | hsafe
      · rw [hret] at hrefused
        cases (Prod.mk.inj hrefused).2
      · have hharmless := hsafe done e rest hsplit hpub.not_stuck ⟨err, herr⟩
        exact ⟨(h.published_rows hsplit hpub hfollow).2 hharmless, rfl, rfl⟩
    | published registry tables transactions ha ht hret hp => cases hr

end Commit

/-- **A failed commit changes nothing committed exactly when it stops
before it has changed a row**, in every state that any interleaving of
statements that create and drop no table leads to from a system at
rest. -/
theorem commit_atomic_iff (frontend : Frontend) {start : System}
    (hreach : start.Reachable frontend) (hrest : ∀ j, (start.sessions j).active = false)
    {events : List Event} (hddl : ∀ event ∈ events, ¬event.Reshapes) (i : ℕ) :
    CommitAtomic (start.run frontend events).db ((start.run frontend events).sessions i) ↔
      StopsHarmless (start.run frontend events).db ((start.run frontend events).sessions i) :=
  (System.steady_run frontend (hreach.coherent.steady hrest) hddl).commitAtomic_iff

/-! ### A commit that publishes half -/

/-- Session 1 inserts into `A` and updates the row of `B`, which session 2
deletes. -/
def halfRun : List Event :=
  [begin 0, insert 0 "B" [some 1], commit 0,
    begin 1, insert 1 "A" [some 7], update 1 "B" "v" 5,
    begin 2, delete 2 "B", commit 2]

/-- **The commit of session 1 fails, and its row in `A` is there.** -/
theorem commit_publishes_half :
    (((Script.twoTables.run Script.frontend halfRun).sessions 1).commit
        (Script.twoTables.run Script.frontend halfRun).db).2.2 = .error .unknownRow ∧
      (Script.twoTables.run Script.frontend halfRun).db.committedRows =
        [(ascii "A", []), (ascii "B", [])] ∧
      (((Script.twoTables.run Script.frontend halfRun).sessions 1).commit
        (Script.twoTables.run Script.frontend halfRun).db).1.committedRows =
        [(ascii "A", [⟨1, [.integer 7]⟩]), (ascii "B", [])] := by
  decide +kernel

/-- Session 1 only updates the row of `B`, which session 2 deletes. -/
def loneRun : List Event :=
  [begin 0, insert 0 "B" [some 1], commit 0,
    begin 1, update 1 "B" "v" 5,
    begin 2, delete 2 "B", commit 2]

/-- With one table only to publish the failed commit changes nothing. -/
theorem commit_atomic_lone :
    (((Script.twoTables.run Script.frontend loneRun).sessions 1).commit
        (Script.twoTables.run Script.frontend loneRun).db).2.2 = .error .unknownRow ∧
      CommitAtomic (Script.twoTables.run Script.frontend loneRun).db
        ((Script.twoTables.run Script.frontend loneRun).sessions 1) := by
  refine ⟨by decide +kernel, ?_⟩
  have hlength : ((twoTables.run frontend loneRun).sessions 1).transactions.length = 1 := by
    decide +kernel
  refine (commit_atomic_iff frontend twoTables_reachable twoTables_atRest (by
    decide +kernel) 1).2 (Or.inr fun done e rest hsplit _ _ d hd => ?_)
  have hnil : done = [] := by
    rw [hsplit, length_append, length_cons] at hlength
    exact length_eq_zero_iff.1 (by omega)
  rw [hnil] at hd
  cases hd

/-! ## Rolling back -/

/-- **`ROLLBACK` gets a session out**: it succeeds, the session is inactive
with nothing staged and no snapshot handle, and what is committed is as it
was. -/
def RollbackGetsOut (db : Database) (session : Session) : Prop :=
  ∃ db' session', session.rollback db = (db', session', .ok ()) ∧ session'.active = false ∧
    session'.transactions = [] ∧ session'.snapshotHandle = none ∧
    db'.committedRows = db.committedRows ∧ db'.commitSequence = db.commitSequence

/-- `ROLLBACK` gets an active session out exactly when its table
transactions are all active still. -/
theorem Session.rollbackGetsOut_iff_live (db : Database) {session : Session}
    (ha : session.active = true) : RollbackGetsOut db session ↔ session.Live := by
  constructor
  · rintro ⟨db', session', heq, -⟩
    refine rollbackAll_eq_ok.1 ?_
    rw [Session.rollback, if_neg (by simp [ha])] at heq
    cases hr : Session.rollbackAll session.transactions with
    | mk transactions outcome =>
      rw [hr] at heq
      cases outcome with
      | error err => cases (Prod.mk.inj (Prod.mk.inj heq).2).2
      | ok => rfl
  · intro hlive
    exact ⟨_, _, hlive.rollback ha db, rfl, rfl, rfl, rfl, rfl⟩

/-- **`ROLLBACK` gets an active session out exactly when its table
transactions are all active still**, and so in every state of every run
in which no commit stops after it has published a table. -/
theorem rollback_gets_out_iff (frontend : Frontend) {start : System}
    (hreach : start.Reachable frontend) (hrest : ∀ j, (start.sessions j).active = false)
    (events : List Event) {i : ℕ} (ha : ((start.run frontend events).sessions i).active = true) :
    (RollbackGetsOut (start.run frontend events).db ((start.run frontend events).sessions i) ↔
        ((start.run frontend events).sessions i).Live) ∧
      (start.Along frontend CommitsClean events →
        RollbackGetsOut (start.run frontend events).db ((start.run frontend events).sessions i)) := by
  have hiff := Session.rollbackGetsOut_iff_live (start.run frontend events).db ha
  refine ⟨hiff, fun hclean => hiff.2 ?_⟩
  have hlive : ∀ j, (start.sessions j).Live := fun j =>
    .of_nil ((hreach.coherent.shaped j).closed (hrest j)).2.2
  exact System.live_run frontend hreach.coherent hlive hclean i

/-- A session that has staged a row gets out. -/
theorem rollback_gets_out_staged :
    ((Script.twoTables.run Script.frontend halfRun).sessions 1).transactions ≠ [] ∧
      RollbackGetsOut (Script.twoTables.run Script.frontend halfRun).db
        ((Script.twoTables.run Script.frontend halfRun).sessions 1) := by
  refine ⟨by decide +kernel, ?_⟩
  exact (rollback_gets_out_iff frontend twoTables_reachable twoTables_atRest
    halfRun (by decide +kernel)).2 (by decide +kernel)

/-- **After the commit that published half, `ROLLBACK` fails and session 1
stays active.** -/
theorem rollback_stuck :
    ((Script.twoTables.run Script.frontend (halfRun ++ [Script.commit 1])).sessions 1).active = true ∧
      (((Script.twoTables.run Script.frontend (halfRun ++ [Script.commit 1])).sessions 1).rollback
        (Script.twoTables.run Script.frontend (halfRun ++ [Script.commit 1])).db).2.2 =
        .error .alreadyCommitted ∧
      (((Script.twoTables.run Script.frontend (halfRun ++ [Script.commit 1])).sessions 1).rollback
        (Script.twoTables.run Script.frontend (halfRun ++ [Script.commit 1])).db).2.1.active = true := by
  decide +kernel

end Shoveler
