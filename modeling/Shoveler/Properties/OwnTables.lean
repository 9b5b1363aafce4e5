import Shoveler.Invariant.Coherent

/-!
# Staged changes and their tables

A table transaction remembers the slot of its table and not its name, and
`DROP TABLE` moves every later table one slot down. As long as each
transaction that has something staged points at the table it was opened
for, a commit writes into exactly these tables (`Session.commitsOwn`);
that is so in every run in which no dropped table stands at or before the
slot of a transaction (`pointing_run`). Otherwise a commit can write into
a table the session has never seen (`commit_hits_other_table`).
-/

namespace Shoveler

open Outcome Script List

open Transaction (PlacedAs)

/-- Something is staged. -/
def Transaction.Writes (tx : Transaction) : Prop :=
  tx.inserts ≠ [] ∨ tx.updates ≠ [] ∨ tx.deletes ≠ []

instance : DecidablePred Transaction.Writes :=
  fun _ => inferInstanceAs (Decidable (_ ∨ _ ∨ _))

/-- **A table transaction points at the table it is named after.** -/
def TableTransaction.Points (e : TableTransaction) (tables : List TableState) : Prop :=
  tables[e.slot]?.map TableState.key = some e.key

instance (e : TableTransaction) (tables : List TableState) : Decidable (e.Points tables) :=
  inferInstanceAs (Decidable (_ = _))

/-- What a session has staged for a table is in the table: its rows are the
old ones with the staged changes laid over them, the inserts under ids of
their own. -/
def Reached (e : TableTransaction) (t t' : TableState) : Prop :=
  ∃ placed, List.Forall₂ (PlacedAs t.store) e.tx.inserts placed ∧
    t'.store.rows = Keyed.overlay Row.id e.tx.deletes e.tx.updates placed t.store.rows

/-- **A commit writes into its own tables only**: one that succeeds has
put what was staged for each table into the table of that name, and
whatever its outcome the tables with nothing staged for them are as they
were. -/
structure CommitsOwn (db : Database) (session : Session) : Prop where
  reached : (session.commit db).2.2 = .ok () → ∀ e ∈ session.transactions, e.tx.Writes →
    ∃ (k : ℕ) (t t' : TableState), db.tables[k]? = some t ∧ t.key = e.key ∧
      (session.commit db).1.tables[k]? = some t' ∧ t'.name = t.name ∧ Reached e t t'
  unwritten : ∀ (k : ℕ) (t : TableState), db.tables[k]? = some t →
    (∀ e ∈ session.transactions, e.tx.Writes → e.key ≠ t.key) →
    (session.commit db).1.tables[k]? = some t

/-! ## One commit -/

theorem TableTransaction.points_iff {e : TableTransaction} {tables : List TableState} :
    e.Points tables ↔ ∃ t, tables[e.slot]? = some t ∧ t.key = e.key :=
  Option.map_eq_some_iff

/-- Publishing where nothing is staged puts back the store that is there. -/
theorem Transaction.publish_of_not_writes {tx : Transaction} {s next : RowStore}
    (hw : ¬tx.Writes) (h : tx.publish s = .ok next) : next = s := by
  simp only [Transaction.Writes, ne_eq, not_or, Decidable.not_not] at hw
  obtain ⟨hi, hu, hd⟩ := hw
  rw [Transaction.publish, hi, hu, hd] at h
  obtain ⟨cloned, hclone, hnext⟩ := bind_eq_ok.1 h
  obtain ⟨-, rfl⟩ := RowStore.clone_eq_ok.1 hclone
  exact (Except.ok.inj hnext).symm

/-- What the loop of a commit does to the tables: those with nothing staged
for them stay, and if it gets through, each of the others has its new
store. -/
structure PublishesOwn (entries : List TableTransaction) (tables after : List TableState)
    (outcome : Result Unit) : Prop where
  same : ∀ (k : ℕ) (t : TableState), tables[k]? = some t →
    (∀ e ∈ entries, e.tx.Writes → e.key ≠ t.key) → after[k]? = some t
  done : outcome = .ok () → ∀ e ∈ entries, e.tx.Writes →
    ∃ t next, tables[e.slot]? = some t ∧ t.key = e.key ∧ e.tx.publish t.store = .ok next ∧
      after[e.slot]? = some { t with store := next }

section Loop

variable {entry : TableTransaction} {rest : List TableTransaction}
  {tables after : List TableState} {outcome : Result Unit}

/-- Nothing is staged in the first transaction. -/
theorem PublishesOwn.cons_unwritten (h : PublishesOwn rest tables after outcome)
    (hw : ¬entry.tx.Writes) : PublishesOwn (entry :: rest) tables after outcome where
  same := fun k t ht hnone => h.same k t ht (forall_mem_cons.1 hnone).2
  done := fun hok e he hwe => by
    rcases mem_cons.1 he with rfl | he
    · exact absurd hwe hw
    · exact h.done hok e he hwe

/-- A table of another name is not the one that was written. -/
theorem slot_ne_of_key_ne {t u : TableState} {k : ℕ} (hslot : tables[entry.slot]? = some t)
    (hkey : t.key = entry.key) (hu : tables[k]? = some u) (hne : u.key ≠ entry.key) :
    entry.slot ≠ k := by
  rintro rfl
  obtain rfl := Option.some.inj (hu.symm.trans hslot)
  exact hne hkey

/-- The first transaction has written its table, and no other. -/
theorem PublishesOwn.cons_written {t : TableState} {next : RowStore}
    (hslot : tables[entry.slot]? = some t) (hkey : t.key = entry.key)
    (hnext : entry.tx.publish t.store = .ok next) (hw : entry.tx.Writes)
    (hother : ∀ e ∈ rest, e.key ≠ entry.key)
    (hapart : ∀ e ∈ rest, e.tx.Writes → entry.slot ≠ e.slot)
    (h : PublishesOwn rest (setStore tables entry.slot next) after outcome) :
    PublishesOwn (entry :: rest) tables after outcome where
  same := fun k u hu hnone => by
    rw [forall_mem_cons] at hnone
    have hne := slot_ne_of_key_ne hslot hkey hu (hnone.1 hw).symm
    exact h.same k u ((getElem?_setStore_ne hne next).trans hu) hnone.2
  done := fun hok e he hwe => by
    rcases mem_cons.1 he with rfl | he
    · refine ⟨t, next, hslot, hkey, hnext, ?_⟩
      refine h.same _ _ (getElem?_setStore_self hslot next) fun e' he' _ => ?_
      exact hkey ▸ hother e' he'
    · obtain ⟨u, unext, hu, hukey, hpub, hafter⟩ := h.done hok e he hwe
      rw [getElem?_setStore_ne (hapart e he hwe)] at hu
      exact ⟨u, unext, hu, hukey, hpub, hafter⟩

end Loop

/-- **The loop of a commit** writes into the tables that are pointed at,
one transaction each. The induction carries that the transactions still to
come point at tables the earlier ones have left alone. -/
theorem publishAll_own {entries : List TableTransaction} {tables : List TableState}
    (hkeys : (entries.map TableTransaction.key).Nodup)
    (hpoint : ∀ e ∈ entries, e.tx.Writes → e.Points tables) :
    PublishesOwn entries tables (Session.publishAll entries tables).1
      (Session.publishAll entries tables).2.2 := by
  induction entries generalizing tables with
  | nil => exact ⟨fun k t ht _ => ht, fun _ e he => by cases he⟩
  | cons entry rest ih =>
    rw [map_cons, nodup_cons] at hkeys
    rw [forall_mem_cons] at hpoint
    rcases publishAll_cons entry rest tables with
      ⟨err, -, hrun⟩ | ⟨t, next, -, hslot, hnext, hrun⟩
    · rw [hrun]
      exact ⟨fun k t ht _ => ht, fun hok => by cases hok⟩
    · rw [hrun]
      by_cases hw : entry.tx.Writes
      · obtain ⟨t', ht', hkey⟩ := TableTransaction.points_iff.1 (hpoint.1 hw)
        obtain rfl := Option.some.inj (ht'.symm.trans hslot)
        have hother : ∀ e ∈ rest, e.key ≠ entry.key := fun e he heq =>
          hkeys.1 (heq ▸ mem_map_of_mem he)
        have hapart : ∀ e ∈ rest, e.tx.Writes → entry.slot ≠ e.slot := by
          intro e he hwe
          obtain ⟨u, hu, hukey⟩ := TableTransaction.points_iff.1 (hpoint.2 e he hwe)
          exact slot_ne_of_key_ne hslot hkey hu (hukey ▸ hother e he)
        refine .cons_written hslot hkey hnext hw hother hapart (ih hkeys.2 ?_)
        intro e he hwe
        rw [TableTransaction.Points, getElem?_setStore_ne (hapart e he hwe)]
        exact hpoint.2 e he hwe
      · -- nothing is staged here, so the tables stay as they are
        have hback : setStore tables entry.slot next = tables := by
          rw [Transaction.publish_of_not_writes hw hnext]
          exact setStore_storeAt (Database.storeAt_eq_ok.2 ⟨t, hslot, rfl⟩)
        simp only [hback]
        exact (ih hkeys.2 hpoint.2).cons_unwritten hw

/-- **A commit writes into its own tables only where every transaction with
something staged points at its table.** -/
theorem System.Coherent.commitsOwn {sys : System} (h : sys.Coherent) {i : ℕ}
    (hpoint : ∀ e ∈ (sys.sessions i).transactions, e.tx.Writes → e.Points sys.db.tables) :
    CommitsOwn sys.db (sys.sessions i) := by
  obtain ⟨hsame, hdone⟩ := publishAll_own (h.shaped i).keys hpoint
  have hout := h.commit_outcome i
  -- a commit that publishes nothing leaves the tables as they are
  have hquiet : ∀ {r : Database × Session × Result Unit}, (sys.sessions i).commit sys.db = r →
      r.1.tables = sys.db.tables →
      (r.2.2 = .ok () → (sys.sessions i).transactions = []) → CommitsOwn sys.db (sys.sessions i) := by
    intro r hr htables hnone
    refine ⟨fun hok e he => ?_, fun k t ht _ => ?_⟩
    · rw [hr] at hok
      rw [hnone hok] at he
      cases he
    · rw [hr, htables]
      exact ht
  generalize hr : (sys.sessions i).commit sys.db = r at hout
  cases hout with
  | inactive | refused => exact hquiet hr rfl (fun hok => by cases hok)
  | idle ha ht => exact hquiet hr rfl (fun _ => ht)
  | stopped registry tables transactions err ha ht hret hp =>
    rw [hp] at hsame
    refine ⟨fun hok => ?_, fun k t ht hnone => ?_⟩
    · rw [hr] at hok
      cases hok
    · rw [hr]
      exact hsame k t ht hnone
  | published registry tables transactions ha ht hret hp =>
    rw [hp] at hsame hdone
    refine ⟨fun _ e he hw => ?_, fun k t ht hnone => ?_⟩
    · obtain ⟨t, next, hslot, hkey, hpub, hafter⟩ := hdone rfl e he hw
      have hvalid : t.store.Valid := h.valid.stores t (mem_of_getElem? hslot)
      obtain ⟨-, placed, hplaced, hrows⟩ :=
        Transaction.publish_eq_ok hvalid ((h.shaped i).ordered e he) hpub
      refine ⟨e.slot, t, { t with store := next }, hslot, hkey, ?_, rfl, placed, hplaced, hrows⟩
      rw [hr]
      exact hafter
    · rw [hr]
      exact hsame k t ht hnone

/-! ## Runs -/

/-- All transactions of a session point at their tables. -/
def Session.Pointing (db : Database) (s : Session) : Prop :=
  ∀ e ∈ s.transactions, e.Points db.tables

/-- **A dropped table stands after every table a session has a transaction
for**, so that none of these moves. -/
def DropsApart (sys : System) : Event → Prop
  | .statement _ (.dropTable statement) => ∀ k, sys.db.findTableStateIndex statement.name = some k →
      ∀ j, ∀ e ∈ (sys.sessions j).transactions, e.slot < k
  | _ => True

namespace TableTransaction

variable {e e' : TableTransaction} {tables tables' : List TableState}

/-- Only the name and the slot of a transaction matter. -/
theorem Points.same (h : e.Points tables) (hkey : e'.key = e.key) (hslot : e'.slot = e.slot) :
    e'.Points tables := by
  rw [Points, hkey, hslot]
  exact h

theorem Points.follow (h : e.Points tables) (hf : List.Forall₂ Database.Follows tables tables') :
    e.Points tables' := by
  obtain ⟨t, ht, hkey⟩ := points_iff.1 h
  obtain ⟨t', ht', hname, -⟩ := getElem?_of_forall₂ hf ht
  refine points_iff.2 ⟨t', ht', ?_⟩
  rw [← hkey, TableState.key, TableState.key, hname]

theorem Points.append (h : e.Points tables) (new : List TableState) :
    e.Points (tables ++ new) := by
  obtain ⟨t, ht, hkey⟩ := points_iff.1 h
  have hlt : e.slot < tables.length := (List.getElem?_eq_some_iff.1 ht).1
  exact points_iff.2 ⟨t, by rw [getElem?_append_left hlt, ht], hkey⟩

theorem Points.eraseIdx (h : e.Points tables) {k : ℕ} (hk : e.slot < k) :
    e.Points (tables.eraseIdx k) := by
  rw [Points, getElem?_eraseIdx_of_lt hk]
  exact h

end TableTransaction

namespace Session

variable {db : Database} {s : Session}

theorem Pointing.of_nil (h : s.transactions = []) : s.Pointing db := by
  intro e he
  rw [h] at he
  cases he

/-- A transaction is opened for the table that is found under the name,
and staging leaves it there. -/
theorem stagingRule_pointing (db : Database) :
    StagingRule db (Pointing db) (fun _ _ _ => Pointing db) := by
  refine .of_frame (fun ht => ?_) fun hpoints hframe => hpoints.same rfl hframe.1
  obtain ⟨-, hslot, -⟩ := Database.getTableState_eq_some ht
  exact TableTransaction.points_iff.2 ⟨_, hslot, rfl⟩

/-- The loops of `ROLLBACK` and `COMMIT` keep the names and the slots. -/
theorem rollbackAll_points {tables : List TableState} {entries : List TableTransaction}
    (h : ∀ e ∈ entries, e.Points tables) : ∀ e ∈ (rollbackAll entries).1, e.Points tables :=
  (System.rollbackAll_keeps (fun _ he => he.same rfl rfl) entries).2 h

theorem publishAll_points {tables : List TableState} {entries : List TableTransaction}
    (h : ∀ e ∈ entries, e.Points tables) (live : List TableState) :
    ∀ e ∈ (publishAll entries live).2.1, e.Points tables :=
  (System.publishAll_keeps (fun _ he => he.same rfl rfl) entries live).2 h

end Session

namespace System

variable {sys : System} {i : ℕ}

/-- **Every event keeps the transactions pointing at their tables**, unless
it drops a table before one of them. -/
theorem pointing_step (frontend : Frontend) (h : sys.Coherent)
    (hp : ∀ i, (sys.sessions i).Pointing sys.db) {event : Event} (hdrop : DropsApart sys event)
    (j : ℕ) : ((sys.step frontend event).sessions j).Pointing (sys.step frontend event).db := by
  -- one session changes, and what pointed at a table still does
  have hupdate : ∀ {i : ℕ} {db' : Database} {s' : Session},
      (∀ e : TableTransaction, e.Points sys.db.tables → e.Points db'.tables) →
      s'.Pointing sys.db → ((sys.put i db' s').sessions j).Pointing db' := by
    intro i db' s' hkeep hs'
    have hboth : ∀ k, (Function.update sys.sessions i s' k).Pointing sys.db := by
      intro k
      by_cases hk : k = i
      · subst hk
        simpa using hs'
      · simpa [hk] using hp k
    exact fun e he => hkeep e (hboth j e he)
  have heffect := h.effect frontend event
  generalize sys.step frontend event = sys' at heffect ⊢
  cases heffect with
  | begins i => exact hupdate (fun _ he => he) (hp i)
  | halts i transactions e _ hr =>
    have hkeep := Session.rollbackAll_points (hp i)
    rw [hr] at hkeep
    exact hupdate (fun _ he => he) hkeep
  | rollsBack | idles | ends => exact hupdate (fun _ he => he) (.of_nil rfl)
  | stopped i registry tables transactions e _ _ hpub hc =>
    have hfollow := follows_commit (h.commit_outcome i)
    have hkeep := Session.publishAll_points (hp i) sys.db.tables
    rw [hc] at hfollow
    rw [hpub] at hkeep
    exact hupdate (fun _ he => he.follow hfollow) hkeep
  | published i registry tables transactions _ _ _ s' hs hc =>
    have hfollow := follows_commit (h.commit_outcome i)
    rw [hc] at hfollow
    exact hupdate (fun _ he => he.follow hfollow) (.of_nil (by rw [hs]; rfl))
  | createTable i created db' hres =>
    intro e he
    have hpoint := hp j e he
    subst hres
    cases hc : sys.db.createTable created with
    | error err => exact hpoint
    | ok db' =>
      rcases Database.createTable_eq_ok h.valid hc with rfl | ⟨spec, table, -, -, -, -, rfl⟩
      · exact hpoint
      · exact hpoint.append _
  | dropTable i dropped db' hres =>
    intro e he
    have hpoint := hp j e he
    subst hres
    cases hd : sys.db.dropTable dropped with
    | error err => exact hpoint
    | ok db' =>
      rcases Database.dropTable_eq_ok h.valid hd with rfl | ⟨k, hk, rfl⟩
      · exact hpoint
      · exact hpoint.eraseIdx (hdrop k hk j e he)
  | defines i statement _ db' hs =>
    intro e he
    rw [hs.tables]
    exact hp j e he
  | stages i statement _ s' hrule =>
    exact hupdate (fun _ he => he) (hrule (Session.stagingRule_pointing sys.db) (hp i))
  | _ => exact hp j

/-- **And so does every run.** -/
theorem pointing_run (frontend : Frontend) (h : sys.Coherent)
    (hp : ∀ i, (sys.sessions i).Pointing sys.db) {events : List Event}
    (hdrop : sys.Along frontend DropsApart events) (j : ℕ) :
    ((sys.run frontend events).sessions j).Pointing (sys.run frontend events).db := by
  have hboth := Run.run_invariant
    (I := fun s => System.Coherent s ∧ ∀ i, (s.sessions i).Pointing s.db) (C := DropsApart)
    (fun s event hs hc => ⟨coherent_step frontend hs.1 event, pointing_step frontend hs.1 hs.2 hc⟩)
    ⟨h, hp⟩ hdrop
  exact hboth.2 j

end System

/-- **Staged changes reach their own tables only**, in every state any
interleaving of statements leads to, where each transaction with something
staged points at its table when the session commits; and so in every run
in which no table is dropped before one that a session has a transaction
for. -/
theorem staged_writes_reach_own (frontend : Frontend) {start : System}
    (hreach : start.Reachable frontend) (hrest : ∀ j, (start.sessions j).active = false)
    (events : List Event) (i : ℕ) :
    ((∀ e ∈ ((start.run frontend events).sessions i).transactions, e.tx.Writes →
          e.Points (start.run frontend events).db.tables) →
        CommitsOwn (start.run frontend events).db ((start.run frontend events).sessions i)) ∧
      (start.Along frontend DropsApart events →
        CommitsOwn (start.run frontend events).db ((start.run frontend events).sessions i)) := by
  have hcoherent : (start.run frontend events).Coherent := (hreach.run events).coherent
  refine ⟨fun hpoint => hcoherent.commitsOwn hpoint, fun hdrop => hcoherent.commitsOwn ?_⟩
  have hp : ∀ j, (start.sessions j).Pointing start.db := fun j =>
    .of_nil ((hreach.coherent.shaped j).closed (hrest j)).2.2
  intro e he _
  exact System.pointing_run frontend hreach.coherent hp hdrop i e he

/-! ### A dropped table -/

/-- Session 1 inserts into a table and drops another one. -/
def droppedRun (written dropped : String) : List Event :=
  [begin 1, insert 1 written [some 7], dropTable 1 dropped]

/-- Where the later table goes, the row comes into its own. -/
theorem staged_writes_reach_own_later_dropped :
    CommitsOwn (Script.twoTables.run Script.frontend (droppedRun "A" "B")).db
        ((Script.twoTables.run Script.frontend (droppedRun "A" "B")).sessions 1) ∧
      (((Script.twoTables.run Script.frontend (droppedRun "A" "B")).sessions 1).commit
        (Script.twoTables.run Script.frontend (droppedRun "A" "B")).db).2.2 = .ok () := by
  refine ⟨?_, by decide +kernel⟩
  exact (staged_writes_reach_own frontend twoTables_reachable
    twoTables_atRest (droppedRun "A" "B") 1).1 (by decide +kernel)

/-- Three empty tables. -/
def threeTables : System :=
  twoTables.run frontend [createTable 0 "C" ["v"]]

/-- **Where the first of three tables goes, the row that was staged for
the second comes into the third**, with which the session has nothing to
do. -/
theorem commit_hits_other_table :
    (((threeTables.run Script.frontend (droppedRun "B" "A")).sessions 1).transactions.map
        TableTransaction.tableName) = [ascii "B"] ∧
      (((threeTables.run Script.frontend (droppedRun "B" "A")).sessions 1).commit
        (threeTables.run Script.frontend (droppedRun "B" "A")).db).2.2 = .ok () ∧
      (((threeTables.run Script.frontend (droppedRun "B" "A")).sessions 1).commit
          (threeTables.run Script.frontend (droppedRun "B" "A")).db).1.tables.map
        (fun t => (t.name, t.store.rows)) =
        [(ascii "B", []), (ascii "C", [⟨1, [.integer 7]⟩])] := by
  decide +kernel

end Shoveler
