import Shoveler.Invariant.Snapshots

/-!
# Steady systems

While no table is created or dropped, more holds than coherence: every
table transaction points at the table it is named after and its rows fit
it, every older generation that is read is kept, and the ids a
transaction changes and the ids it reserves are parted by the next id of
its snapshot (`System.Steady`). A coherent system without an active
session is steady (`Coherent.steady`), and every event but `CREATE TABLE`
and `DROP TABLE` keeps it so (`steady_step`), failed commits included.
-/

namespace Shoveler

open Outcome List

open Transaction (Publishes)

variable {db db' : Database} {event : Event} {tables : List TableState}
  {reading : Option Generation} {reg : Registry} {s : Session} {t t' table : TableState}
  {e : TableTransaction} {k : ℕ}

/-! ## Table transactions in place -/

/-- **A table transaction in place** on a table of the database. -/
structure Holds (db : Database) (reading : Option Generation) (e : TableTransaction)
    (t : TableState) : Prop where
  slot : db.tables[e.slot]? = some t
  key : t.key = e.key
  staged : e.tx.Staged t.store.table
  parted : e.tx.state = .active → ∀ base, (db.baseStores reading)[e.slot]? = some base →
    e.tx.Parted base.nextId

/-- A table transaction in place on some table. -/
def InPlace (db : Database) (reading : Option Generation) (e : TableTransaction) : Prop :=
  ∃ t, Holds db reading e t

/-- The table may be followed by another while the base of the transaction
stays. -/
theorem Holds.follow {reading' : Option Generation} (h : Holds db reading e t)
    (ht' : db'.tables[e.slot]? = some t') (hf : Database.Follows t t')
    (hbase : (db'.baseStores reading')[e.slot]? = (db.baseStores reading)[e.slot]?) :
    Holds db' reading' e t' := by
  refine ⟨ht', ?_, ?_, fun ha base hb => h.parted ha base (hbase ▸ hb)⟩
  · rw [← h.key, TableState.key, TableState.key, hf.1]
  · rw [hf.2.table]
    exact h.staged

/-- A transaction that is over has nothing staged, so any table of its name
will do. -/
theorem Holds.over (hslot : db.tables[e.slot]? = some t) (hkey : t.key = e.key)
    (hstate : e.tx.state ≠ .active) (hi : e.tx.inserts = []) (hu : e.tx.updates = [])
    (hd : e.tx.deletes = []) : Holds db reading e t where
  slot := hslot
  key := hkey
  staged := .of_nil hi hu hd
  parted := fun ha => absurd ha hstate

/-- With distinct names, transactions in place point at different slots. -/
theorem slots_nodup {entries : List TableTransaction}
    (hkeys : (entries.map TableTransaction.key).Nodup) (h : ∀ e ∈ entries, InPlace db reading e) :
    (entries.map TableTransaction.slot).Nodup := by
  -- the name of a transaction is read off its slot
  have hread : (entries.map TableTransaction.slot).map
      (fun k => (db.tables[k]?).map TableState.key) = (entries.map TableTransaction.key).map some := by
    rw [map_map, map_map]
    refine map_congr_left fun e he => ?_
    obtain ⟨t, ht⟩ := h e he
    rw [Function.comp_apply, ht.slot, Option.map_some, ht.key, Function.comp_apply]
  refine List.Nodup.of_map (fun k => (db.tables[k]?).map TableState.key) ?_
  rw [hread]
  exact hkeys.map (Option.some_injective _)

/-- The transaction a session holds for a table is found by the table's
name. -/
theorem transactionForRead_eq {session : Session} {name : Bytes}
    (hkeys : (session.transactions.map TableTransaction.key).Nodup) (he : e ∈ session.transactions)
    (hname : e.key = foldCase name) : session.transactionForRead name = some e.tx := by
  have hfind := Keyed.find?_eq_some_of_mem hkeys he
  rw [hname] at hfind
  rw [Session.transactionForRead]
  simp only [namesEqual]
  exact congrArg (Option.map TableTransaction.tx) hfind

/-- With distinct names, a name stands at one place. -/
theorem slot_unique (hkeys : (tables.map TableState.key).Nodup) {k' : ℕ} (ht : tables[k]? = some t)
    (ht' : tables[k']? = some t') (h : t.key = t'.key) : k = k' ∧ t = t' := by
  obtain rfl := Keyed.getElem?_place hkeys ht ht' h
  exact ⟨rfl, Option.some.inj (ht.symm.trans ht')⟩

/-- So looking a table up by its own name finds it. -/
theorem getTableState_of_getElem? (hkeys : (db.tables.map TableState.key).Nodup)
    (ht : db.tables[k]? = some t) :
    db.getTableState t.name = some (k, t) := by
  cases hfound : db.getTableState t.name with
  | none =>
    unfold Database.getTableState at hfound
    cases hi : db.findTableStateIndex t.name with
    | none => exact absurd (mem_map_of_mem (mem_of_getElem? ht)) (Keyed.findIdx?_eq_none.1 hi)
    | some slot =>
      obtain ⟨hlt, -⟩ := findIdx?_eq_some_iff_getElem.1 hi
      simp [hi, hlt] at hfound
  | some found =>
    obtain ⟨slot, table⟩ := found
    obtain ⟨-, hslot, hkey⟩ := Database.getTableState_eq_some hfound
    obtain ⟨rfl, rfl⟩ := slot_unique hkeys hslot ht hkey
    rfl

/-! ## Steady systems -/

/-- An event that creates or drops a table. -/
def Event.Reshapes : Event → Prop
  | .statement _ (.createTable _) => True
  | .statement _ (.dropTable _) => True
  | _ => False

instance : DecidablePred Event.Reshapes := by
  rintro (⟨i, ⟨⟩⟩ | _ | _)
  case statement.createTable | statement.dropTable => exact instDecidableTrue
  all_goals exact instDecidableFalse

/-- An event that is a DDL statement. -/
def Event.IsDdl : Event → Prop
  | .statement _ performed => performed.IsDdl
  | _ => False

theorem Event.Reshapes.isDdl (h : event.Reshapes) : event.IsDdl := by
  unfold Event.Reshapes at h
  split at h
  · trivial
  · trivial
  · exact h.elim

instance : DecidablePred Event.IsDdl := by
  rintro (⟨i, ⟨⟩⟩ | _ | _)
  all_goals first | exact instDecidableTrue | exact instDecidableFalse

/-- **A steady system.** -/
structure System.Steady (sys : System) : Prop extends sys.Coherent where
  kept : ∀ i g, (sys.sessions i).reading = some g → g ≠ sys.db.commitSequence →
    (sys.db.registry.retainedAt g).isSome = true
  precede : ∀ r ∈ sys.db.registry.retained, List.Forall₂ Precedes r.tables sys.db.tables
  entries : ∀ i, ∀ e ∈ (sys.sessions i).transactions, InPlace sys.db (sys.sessions i).reading e

namespace System

variable {sys : System} {i : ℕ}

/-- **A coherent system without an active session is steady.** -/
theorem Coherent.steady (h : sys.Coherent) (hidle : ∀ i, (sys.sessions i).active = false) :
    sys.Steady := by
  have hnone : ∀ j, (sys.sessions j).reading = none := by
    intro j
    rw [Session.reading, ((h.shaped j).closed (hidle j)).1]
    rfl
  refine ⟨h, fun j g hj => ?_, fun r hr => ?_, fun j e he => ?_⟩
  · rw [hnone j] at hj
    cases hj
  · rw [h.retained_eq_nil hidle] at hr
    cases hr
  · rw [((h.shaped j).closed (hidle j)).2.2] at he
    cases he

/-- What a session reads of a table, and how it stands to the live one. -/
theorem Steady.snapshotStoreForRead (h : sys.Steady) (ha : (sys.sessions i).active = true)
    (ht : sys.db.tables[k]? = some t) :
    ∃ found base, (sys.sessions i).snapshotStoreForRead sys.db t.name = .ok found ∧
      found.getD t.store = base ∧
      (sys.db.baseStores (sys.sessions i).reading)[k]? = some base ∧ base.Valid ∧
      Publishes base t.store :=
  snapshotStoreForRead_eq h.valid (h.shaped i) ha (h.kept i) h.precede ht

/-! ## Staging -/

/-- What a staging statement keeps of a session of a steady system. -/
def StagesInPlace (sys : System) (i : ℕ) (s : Session) : Prop :=
  (sys.sessions i).Stages s ∧ ∀ e ∈ s.transactions, InPlace sys.db (sys.sessions i).reading e

/-- What its loops carry along: the rows still to visit have ids of their
own and are in sight. -/
def Visits (sys : System) (i : ℕ) (_ : TableState) (index : ℕ) (rows : List Row) (s : Session) :
    Prop :=
  sys.StagesInPlace i s ∧ (rows.map Row.id).Nodup ∧
    ∃ e base, s.transactions[index]? = some e ∧
      (sys.db.baseStores (sys.sessions i).reading)[e.slot]? = some base ∧
      ∀ r ∈ rows, e.tx.Sees base.nextId r.id

/-- Changing one transaction in place into another. -/
theorem StagesInPlace.set (h : sys.StagesInPlace i s) {index : ℕ} {tx : Transaction}
    (he : s.transactions[index]? = some e)
    (htx : InPlace sys.db (sys.sessions i).reading { e with tx := tx }) :
    sys.StagesInPlace i (s.setTransaction index tx) := by
  obtain ⟨t, ht⟩ := htx
  refine ⟨⟨h.1.1.trans ⟨rfl, rfl, rfl, rfl⟩, h.1.2.setTransaction he ht.staged.toOrdered⟩,
    fun e' he' => ?_⟩
  rcases Session.mem_setTransaction he he' with rfl | he'
  · exact ⟨t, ht⟩
  · exact h.2 e' he'

/-- A round that changes the transaction at the row in sight and goes on to
the others. -/
theorem Visits.next {index : ℕ} {row : Row} {rows : List Row}
    (h : sys.Visits i table index (row :: rows) s) {tx : Transaction}
    (he : s.transactions[index]? = some e) (hframe : tx.slot = e.tx.slot ∧ tx.state = e.tx.state)
    (hstaged : ∀ t, Holds sys.db (sys.sessions i).reading e t → tx.Staged t.store.table)
    (hparted : ∀ n, e.tx.Ordered → e.tx.Parted n → e.tx.Sees n row.id → tx.Parted n)
    (hsees : ∀ n id, e.tx.Ordered → id ≠ row.id → e.tx.Sees n id → tx.Sees n id) :
    sys.Visits i table index rows (s.setTransaction index tx) := by
  obtain ⟨hs, hnodup, e', base, he', hbase, hsight⟩ := h
  obtain rfl := Option.some.inj (he'.symm.trans he)
  obtain ⟨t, hin⟩ := hs.2 e' (mem_of_getElem? he)
  have hord := hin.staged.toOrdered
  have hslot : TableTransaction.slot { e' with tx := tx } = e'.slot := hframe.1
  rw [map_cons, nodup_cons] at hnodup
  rw [forall_mem_cons] at hsight
  refine ⟨hs.set he ⟨t, hslot ▸ hin.slot, hin.key, hstaged t hin, fun ha b hb => ?_⟩, hnodup.2, _,
    base, Session.getElem?_setTransaction he tx, hslot ▸ hbase, fun r hr => ?_⟩
  · obtain rfl : b = base := Option.some.inj ((hslot ▸ hb).symm.trans hbase)
    exact hparted _ hord (hin.parted (hframe.2.symm.trans ha) b hbase) hsight.1
  · -- the rows still to visit have other ids than the one just visited
    refine hsees _ _ hord (fun heq => hnodup.1 ?_) (hsight.2 r hr)
    rw [← heq]
    exact mem_map_of_mem hr

/-- **A scan of a table the session has a transaction for** shows the staged
changes over the base, as long as the transaction is active. -/
theorem Steady.scan_eq (h : sys.Steady) (hs : sys.StagesInPlace i s) {slot : ℕ}
    (ht : sys.db.tables[slot]? = some table) (he : e ∈ s.transactions) (hkey : e.key = table.key) :
    ∃ base, (sys.db.baseStores (sys.sessions i).reading)[e.slot]? = some base ∧ base.Valid ∧
      Shoveler.scanRowsForTable sys.db s table =
        e.tx.ensureActive.map fun _ => e.tx.view base.rows := by
  obtain ⟨t, hin⟩ := hs.2 e he
  obtain ⟨hslot, rfl⟩ := slot_unique h.valid.stateKeys_nodup ht hin.slot (hkey.symm.trans hin.key.symm)
  have hactive : s.active = true := hs.1.2.active_of_mem he
  obtain ⟨found, base, hfound, hget, hbase, hvalid, hpub⟩ := h.snapshotStoreForRead
    (hs.1.1.active ▸ hactive) ht
  have hread : s.baseStoreForRead sys.db table = .ok base := by
    have hsame : s.snapshotStoreForRead sys.db table.name =
        (sys.sessions i).snapshotStoreForRead sys.db table.name := by
      simp only [Session.snapshotStoreForRead, hs.1.1.active, hs.1.1.snapshotHandle]
    rw [Session.baseStoreForRead, hsame, hfound, ok_bind, hget]
    rfl
  have hstore : storeAt sys.db.tables e.tx.slot = .ok table.store :=
    Database.storeAt_eq_ok.2 ⟨table, hin.slot, rfl⟩
  refine ⟨base, hslot ▸ hbase, hvalid, ?_⟩
  rw [Shoveler.scanRowsForTable, transactionForRead_eq hs.1.2.keys he hkey]
  simp only [hread, ok_bind]
  cases ha : e.tx.ensureActive with
  | error err =>
    rw [Transaction.scanWithBase, ha]
    rfl
  | ok =>
    exact Transaction.scanWithBase_eq_ok hstore (Transaction.ensureActive_eq_ok.1 ha) hin.staged
      hvalid hpub.table.symm

/-- So a scan that succeeds is of an active transaction. -/
theorem Steady.scanRowsForTable (h : sys.Steady) (hs : sys.StagesInPlace i s) {slot : ℕ}
    (ht : sys.db.tables[slot]? = some table) (he : e ∈ s.transactions) (hkey : e.key = table.key)
    {rows : List Row} (hscan : Shoveler.scanRowsForTable sys.db s table = .ok rows) :
    e.tx.state = .active ∧ ∃ base,
      (sys.db.baseStores (sys.sessions i).reading)[e.slot]? = some base ∧ base.Valid ∧
      rows = e.tx.view base.rows := by
  obtain ⟨base, hbase, hvalid, heq⟩ := h.scan_eq hs ht he hkey
  rw [heq] at hscan
  cases ha : e.tx.ensureActive with
  | error err =>
    rw [ha] at hscan
    cases hscan
  | ok =>
    rw [ha] at hscan
    exact ⟨Transaction.ensureActive_eq_ok.1 ha, base, hbase, hvalid, (Except.ok.inj hscan).symm⟩

/-- **The steps of a staging statement keep the transactions in place.** -/
theorem Steady.stagingRule (h : sys.Steady) (i : ℕ) :
    StagingRule sys.db (sys.StagesInPlace i) (sys.Visits i) where
  opens := by
    intro s slot table name hs ha ht hnew
    obtain ⟨-, hslot, -⟩ := Database.getTableState_eq_some ht
    refine ⟨(Session.stagingRule_stages sys.db (sys.sessions i)).opens hs.1 ha ht hnew, ?_⟩
    refine forall_mem_append.2 ⟨hs.2, fun e he => ?_⟩
    rw [mem_singleton] at he
    subst he
    refine ⟨table, hslot, rfl, .of_nil rfl rfl rfl, fun _ base hbase => .begin ?_⟩
    obtain ⟨-, base', -, -, hbase', -, hpub⟩ := h.snapshotStoreForRead (hs.1.1.active ▸ ha) hslot
    have heq : base' = base := Option.some.inj (hbase'.symm.trans hbase)
    exact heq ▸ hpub.nextId
  inserts := by
    intro s slot table name index e statement values id tx' hs ha ht he hkey hv hins
    obtain ⟨t, hin⟩ := hs.2 e (mem_of_getElem? he)
    have hstore : storeAt sys.db.tables e.tx.slot = .ok t.store :=
      Database.storeAt_eq_ok.2 ⟨t, hin.slot, rfl⟩
    have hactive := (Transaction.insert_eq_ok.1 hins).1
    have hslot := (Transaction.insert_frame hins).1
    refine hs.set he ⟨t, ?_, hin.key, hin.staged.insert hstore rfl hins, fun _ base hbase => ?_⟩
    · rw [TableTransaction.slot, hslot]
      exact hin.slot
    · rw [TableTransaction.slot, hslot] at hbase
      exact (hin.parted hactive base hbase).insert hins
  scans := by
    intro s slot table name index e rows hs ha ht he hkey hscan
    obtain ⟨-, hslot, -⟩ := Database.getTableState_eq_some ht
    obtain ⟨hactive, base, hbase, hvalid, rfl⟩ :=
      h.scanRowsForTable hs hslot (mem_of_getElem? he) hkey hscan
    obtain ⟨t, hin⟩ := hs.2 e (mem_of_getElem? he)
    obtain ⟨hnodup, hsees⟩ :=
      Transaction.view_ids hvalid hin.staged.toOrdered (hin.parted hactive base hbase)
    exact ⟨hs, hnodup, e, base, he, hbase, hsees⟩
  skips := by
    intro s table index row rows hI
    obtain ⟨hs, hnodup, e, base, he, hbase, hsees⟩ := hI
    rw [map_cons, nodup_cons] at hnodup
    exact ⟨hs, hnodup.2, e, base, he, hbase, (forall_mem_cons.1 hsees).2⟩
  updates := by
    intro s table index e row rows values tx' hI he hupd
    refine hI.next he (Transaction.update_frame hupd) (fun t hin => ?_)
      (fun n hord hparted hsees => hparted.update hord hsees hupd)
      fun n id hord _ hsees => hsees.update hord hupd
    exact hin.staged.update (Database.storeAt_eq_ok.2 ⟨t, hin.slot, rfl⟩) rfl hupd
  deletes := by
    intro s table index e row rows tx' hI he hdel
    exact hI.next he (Transaction.delete_frame hdel) (fun t hin => hin.staged.delete hdel)
      (fun n hord hparted hsees => hparted.delete hord hsees hdel)
      fun n id hord hne hsees => hsees.delete hord hne hdel
  ends := fun hI => hI.1

/-! ## Every event but the changes to the tables -/

/-- **The other sessions have kept their base.** -/
def KeepsOthers (sys : System) (i : ℕ) (db' : Database) : Prop :=
  ∀ j g, j ≠ i → (sys.sessions j).reading = some g →
    (g ≠ db'.commitSequence → (db'.registry.retainedAt g).isSome = true) ∧
      db'.baseStores (some g) = sys.db.baseStores (some g)

/-- What is to be shown where one session and the database change and the
tables follow: what the session itself has is in place, and the others
have kept their base. -/
theorem Steady.update (h : sys.Steady) {db' : Database} {s' : Session}
    (hco : (sys.put i db' s').Coherent)
    (hfollow : List.Forall₂ Database.Follows sys.db.tables db'.tables)
    (hprecede : ∀ r ∈ db'.registry.retained, List.Forall₂ Precedes r.tables db'.tables)
    (hself : ∀ g, s'.reading = some g → g ≠ db'.commitSequence →
      (db'.registry.retainedAt g).isSome = true)
    (hentries : ∀ e ∈ s'.transactions, InPlace db' s'.reading e)
    (hothers : sys.KeepsOthers i db') :
    (sys.put i db' s').Steady := by
  refine ⟨hco, fun j g hj => ?_, hprecede, fun j e he => ?_⟩
  · by_cases hji : j = i
    · subst hji
      exact hself g (by simpa using hj)
    · have hj' : (sys.sessions j).reading = some g := by simpa [hji] using hj
      exact (hothers j g hji hj').1
  · by_cases hji : j = i
    · subst hji
      simp only [Function.update_self] at he ⊢
      exact hentries e he
    · simp only [ne_eq, hji, not_false_eq_true, Function.update_of_ne] at he ⊢
      obtain ⟨t, hin⟩ := h.entries j e he
      obtain ⟨g, hg⟩ := (h.shaped j).reading_of_active ((h.shaped j).active_of_mem he)
      obtain ⟨t', ht', hf⟩ := getElem?_of_forall₂ hfollow hin.slot
      exact ⟨t', hin.follow ht' hf (by rw [hg, (hothers j g hji hg).2])⟩

theorem Steady.stagesInPlace (h : sys.Steady) (i : ℕ) : sys.StagesInPlace i (sys.sessions i) :=
  ⟨⟨.refl _, h.shaped i⟩, h.entries i⟩

/-- A session that only stages. -/
theorem Steady.stages (h : sys.Steady) {s' : Session} (hs : sys.StagesInPlace i s') :
    (sys.put i sys.db s').Steady := by
  refine h.update (h.toCoherent.stages hs.1) (Database.follows_refl _) h.precede (fun g hg => ?_)
    (fun e he => ?_) fun j g _ hj => ⟨h.kept j g hj, rfl⟩
  · rw [hs.1.1.reading] at hg
    exact h.kept i g hg
  · rw [hs.1.1.reading]
    exact hs.2 e he

/-- A change to the database that leaves the tables alone and what the
sessions read. -/
theorem Steady.schema (h : sys.Steady) (hvalid : db'.Valid) (hreg : db'.registry = sys.db.registry)
    (hseq : db'.commitSequence = sys.db.commitSequence)
    (hqueue : db'.commitQueue = sys.db.commitQueue) (htables : db'.tables = sys.db.tables) :
    System.Steady ⟨db', sys.sessions⟩ := by
  have hbase : ∀ reading, db'.baseStores reading = sys.db.baseStores reading := by
    intro reading
    rw [Database.baseStores, Database.baseStores, hreg, htables]
  refine ⟨h.toCoherent.schema hvalid hreg hseq hqueue, ?_, ?_, ?_⟩
  · simp only [hreg, hseq]
    exact h.kept
  · simp only [hreg, htables]
    exact h.precede
  · intro j e he
    obtain ⟨t, hin⟩ := h.entries j e he
    refine ⟨t, hin.follow ?_ (.refl t) (by rw [hbase])⟩
    rw [htables]
    exact hin.slot

/-- Letting go of a handle leaves the others their base. -/
theorem Steady.keepsOthers_release (h : sys.Steady) :
    sys.KeepsOthers i
      { sys.db with registry := (sys.sessions i).releaseHandle sys.db.registry } := by
  intro j g hji hj
  have hsame := retainedAt_releaseHandle h.toCoherent h.registry h.counted hji hj
  refine ⟨fun hg => ?_, ?_⟩
  · rw [hsame]
    exact h.kept j g hj hg
  · simp only [Database.baseStores, Option.bind_some, hsame]

/-- A session that closes while the tables stay as they are. -/
theorem Steady.closes (h : sys.Steady) {s' : Session} (hs : s'.Shaped)
    (hclosed : s'.active = false) :
    (sys.release i s').Steady := by
  obtain ⟨hhandle, -, htx⟩ := hs.closed hclosed
  have hnone : s'.reading = none := by
    rw [Session.reading, hhandle]
    rfl
  have hco := @Coherent.closes sys i h.toCoherent
    { sys.db with registry := (sys.sessions i).releaseHandle sys.db.registry } s' _ h.registry
    h.counted (h.valid.follow rfl rfl rfl (Database.follows_refl _)) hs hnone rfl (Nat.le_refl _)
    h.queue
  refine h.update hco (Database.follows_refl _)
    (fun r hr => h.precede r (mem_retained_releaseHandle h.toCoherent hr)) (fun g hg => ?_)
    (fun e he => ?_) h.keepsOthers_release
  · rw [hnone] at hg
    cases hg
  · rw [htx] at he
    cases he

/-- Table transactions that were rolled back, as far as that went, are in
place. -/
theorem rollbackAll_inPlace {entries : List TableTransaction}
    (h : ∀ e ∈ entries, InPlace db reading e) :
    ∀ e ∈ (Session.rollbackAll entries).1, InPlace db reading e := by
  refine (rollbackAll_keeps (fun e he => ?_) entries).2 h
  obtain ⟨t, hin⟩ := he
  exact ⟨t, .over hin.slot hin.key TransactionState.noConfusion rfl rfl rfl⟩

/-- What a registry keeps when a commit goes on precedes the tables it
leaves. -/
theorem Steady.precede_retain (h : sys.Steady) {excluding : Option SnapshotHandle}
    (hr : sys.db.retainCurrentGenerationForActiveSnapshots excluding = (reg, .ok ()))
    (hfollow : List.Forall₂ Database.Follows sys.db.tables tables) :
    ∀ r ∈ reg.retained, List.Forall₂ Precedes r.tables tables := by
  intro r hmem
  refine precedes_follow ?_ hfollow
  rcases h.toCoherent.mem_retained_retain hr hmem with hmem | rfl
  · exact h.precede r hmem
  · exact precedes_captured h.valid

/-- The other readers keep their base when a commit goes on. -/
theorem Steady.retained_of_ne (h : sys.Steady) {reg : Registry}
    (hr : sys.db.retainCurrentGenerationForActiveSnapshots (sys.sessions i).snapshotHandle =
      (reg, .ok ())) {j : ℕ} {g : Generation} (hji : j ≠ i)
    (hj : (sys.sessions j).reading = some g) :
    ∃ r, reg.retainedAt g = some r ∧
      r.tables.map RetainedTable.store = sys.db.baseStores (some g) := by
  rcases retained_or_self h.toCoherent hr hj (h.kept j g hj) with hkept | ⟨rfl, -, -⟩
  · exact hkept
  · exact absurd rfl hji

/-- The committing session keeps its base where it has published
nothing. -/
theorem Steady.baseStores_stopped (h : sys.Steady) {reg : Registry} {tables : List TableState}
    (hr : sys.db.retainCurrentGenerationForActiveSnapshots (sys.sessions i).snapshotHandle =
      (reg, .ok ())) {k : ℕ} (hk : tables[k]? = sys.db.tables[k]?) :
    (Database.baseStores { sys.db with registry := reg, tables := tables }
        (sys.sessions i).reading)[k]? = (sys.db.baseStores (sys.sessions i).reading)[k]? := by
  cases hread : (sys.sessions i).reading with
  | none =>
    simp only [Database.baseStores, Option.bind_none]
    rw [getElem?_map, getElem?_map, hk]
  | some g =>
    rcases retained_or_self h.toCoherent hr hread (h.kept i g hread) with
      ⟨r, hkept, hbase⟩ | ⟨-, rfl, hnone⟩
    · rw [← hbase]
      simp only [Database.baseStores, Option.bind_some, hkept]
    · simp only [Database.baseStores, Option.bind_some, hnone]
      rw [getElem?_map, getElem?_map, hk]

/-- **The table transactions of a session point at different slots.** -/
theorem Steady.slots_nodup (h : sys.Steady) (i : ℕ) :
    ((sys.sessions i).transactions.map TableTransaction.slot).Nodup :=
  Shoveler.slots_nodup (h.shaped i).keys (h.entries i)

/-- **A commit that stopped leaves the transactions in place**: what was
published is over, and what was not has kept its table and its base. -/
theorem Steady.inPlace_stopped (h : sys.Steady) {reg : Registry} {tables : List TableState}
    {transactions : List TableTransaction} {err : Error}
    (hret : sys.db.retainCurrentGenerationForActiveSnapshots (sys.sessions i).snapshotHandle =
      (reg, .ok ()))
    (hp : Session.publishAll (sys.sessions i).transactions sys.db.tables =
      (tables, transactions, .error err)) :
    ∀ e ∈ transactions,
      InPlace { sys.db with registry := reg, tables := tables } (sys.sessions i).reading e := by
  intro e he
  have hslots := h.slots_nodup i
  obtain ⟨done, entry, rest, hsplit, hpub, -, rfl⟩ := publishAll_eq_error hslots hp
  rw [hsplit, map_append, nodup_append] at hslots
  rcases mem_append.1 he with he | he
  · obtain ⟨d, hd, rfl⟩ := mem_map.1 he
    obtain ⟨-, t, next, ht, -, ht'⟩ := hpub.published d hd
    obtain ⟨t₀, hin⟩ := h.entries i d (hsplit ▸ mem_append_left _ hd)
    obtain rfl := Option.some.inj (ht.symm.trans hin.slot)
    exact ⟨{ t with store := next }, .over ht' hin.key TransactionState.noConfusion rfl rfl rfl⟩
  · obtain ⟨t, hin⟩ := h.entries i e (hsplit ▸ mem_append_right _ he)
    have hslot : tables[e.slot]? = sys.db.tables[e.slot]? :=
      hpub.untouched _ fun hmem => hslots.2.2 _ hmem _ (mem_map_of_mem he) rfl
    exact ⟨t, hin.follow (hslot.trans hin.slot) (.refl t) (h.baseStores_stopped hret hslot)⟩

/-- **A commit leaves the others their base**, whatever comes of it. -/
theorem Steady.keepsOthers_commit (h : sys.Steady) :
    sys.KeepsOthers i ((sys.sessions i).commit sys.db).1 := by
  have hout := h.toCoherent.commit_outcome i
  generalize (sys.sessions i).commit sys.db = r at hout
  cases hout with
  | inactive | refused => exact fun j g _ hj => ⟨h.kept j g hj, rfl⟩
  | idle => exact h.keepsOthers_release
  | stopped registry tables transactions e ha ht hret hp =>
    intro j g hji hj
    obtain ⟨r, hkept, hbase⟩ := h.retained_of_ne hret hji hj
    refine ⟨fun _ => by simp only [hkept, Option.isSome_some], ?_⟩
    rw [← hbase]
    simp only [Database.baseStores, Option.bind_some, hkept]
  | published registry tables transactions ha ht hret hp =>
    intro j g hji hj
    obtain ⟨hgood, hcount⟩ := h.toCoherent.retain hret
    obtain ⟨r, hkept, hbase⟩ := h.retained_of_ne hret hji hj
    have hsame := retainedAt_releaseHandle h.toCoherent hgood hcount hji hj
    rw [hkept] at hsame
    refine ⟨fun _ => by simp only [Session.publishedDb, hsame, Option.isSome_some], ?_⟩
    rw [← hbase]
    simp only [Session.publishedDb, Database.baseStores, Option.bind_some, hsame]

/-- **What a commit does to one table**, whatever its outcome: nothing, or
it publishes the transaction the session has for it. -/
theorem Steady.commit_slot (h : sys.Steady) (ht : sys.db.tables[k]? = some t)
    (ht' : ((sys.sessions i).commit sys.db).1.tables[k]? = some t') :
    t' = t ∨ ∃ e ∈ (sys.sessions i).transactions, e.slot = k ∧ e.tx.state = .active ∧
      e.tx.publish t.store = .ok t'.store := by
  -- the same for a part of the transactions that went through
  have hpart : ∀ {done : List TableTransaction} {tables : List TableState},
      Published sys.db.tables done tables → (∀ e ∈ done, e ∈ (sys.sessions i).transactions) →
      tables[k]? = some t' → t' = t ∨ ∃ e ∈ (sys.sessions i).transactions, e.slot = k ∧
        e.tx.state = .active ∧ e.tx.publish t.store = .ok t'.store := by
    intro done tables hpub hmem hk
    by_cases hslot : k ∈ done.map TableTransaction.slot
    · obtain ⟨e, he, rfl⟩ := mem_map.1 hslot
      obtain ⟨ha, t₀, next, ht₀, hnext, hafter⟩ := hpub.published e he
      obtain rfl := Option.some.inj (ht.symm.trans ht₀)
      obtain rfl := Option.some.inj (hk.symm.trans hafter)
      exact Or.inr ⟨e, hmem e he, rfl, ha, hnext⟩
    · rw [hpub.untouched k hslot, ht] at hk
      exact Or.inl (Option.some.inj hk).symm
  have hsame : sys.db.tables[k]? = some t' → t' = t := fun hk =>
    Option.some.inj (hk.symm.trans ht)
  have hout := h.toCoherent.commit_outcome i
  generalize (sys.sessions i).commit sys.db = r at hout ht'
  cases hout with
  | inactive | refused | idle => exact Or.inl (hsame ht')
  | stopped registry tables transactions err ha htx hret hp =>
    obtain ⟨done, e, rest, hsplit, hpub, -, -⟩ := publishAll_eq_error (h.slots_nodup i) hp
    exact hpart hpub (fun d hd => hsplit ▸ mem_append_left _ hd) ht'
  | published registry tables transactions ha htx hret hp =>
    exact hpart (publishAll_eq_ok (h.slots_nodup i) hp) (fun _ hd => hd) ht'

/-- A commit that goes through publishes every transaction. -/
theorem Steady.commit_slot_of_ok (h : sys.Steady)
    (hok : ((sys.sessions i).commit sys.db).2.2 = .ok ()) (he : e ∈ (sys.sessions i).transactions) :
    ∃ t t', sys.db.tables[e.slot]? = some t ∧
      ((sys.sessions i).commit sys.db).1.tables[e.slot]? = some t' ∧
      e.tx.publish t.store = .ok t'.store := by
  have hout := h.toCoherent.commit_outcome i
  generalize (sys.sessions i).commit sys.db = r at hout hok ⊢
  cases hout with
  | inactive | refused | stopped => cases hok
  | idle ha ht =>
    rw [ht] at he
    cases he
  | published registry tables transactions ha ht hret hp =>
    obtain ⟨-, t, next, hslot, hnext, hafter⟩ :=
      (publishAll_eq_ok (h.slots_nodup i) hp).published e he
    exact ⟨t, _, hslot, hafter, hnext⟩

/-- **Every event but the creation and the dropping of a table keeps the
system steady**, also one that fails. -/
theorem steady_step (frontend : Frontend) (h : sys.Steady) (hddl : ¬event.Reshapes) :
    (sys.step frontend event).Steady := by
  have hco := coherent_step frontend h.toCoherent event
  have heffect := h.toCoherent.effect frontend event
  generalize sys.step frontend event = sys' at hco heffect ⊢
  cases heffect with
  | refused => exact h
  | begins i ha =>
    refine h.update hco (Database.follows_refl _) h.precede (fun g hg hne => ?_) (fun e he => ?_)
      fun j g _ hj => ⟨h.kept j g hj, rfl⟩
    · exact absurd (Option.some.inj hg).symm hne
    · simp only [((h.shaped i).closed ha).2.2] at he
      cases he
  | halts i transactions e ha hr =>
    have hkeep := rollbackAll_keeps (K := fun e => e.tx.Ordered) (fun _ _ => .of_nil rfl rfl rfl)
      (sys.sessions i).transactions
    have hplace := rollbackAll_inPlace (h.entries i)
    rw [hr] at hkeep hplace
    exact h.stages ⟨(h.shaped i).stages_entries ha hkeep, hplace⟩
  | rollsBack | idles => exact h.closes (.close _) rfl
  | ends => exact h.closes .new rfl
  | stopped i registry tables transactions e ha hr hp hc =>
    have hfollow := follows_commit (h.toCoherent.commit_outcome i)
    have hothers := @Steady.keepsOthers_commit sys i h
    rw [hc] at hfollow hothers
    refine h.update hco hfollow (h.precede_retain hr hfollow) (fun g hg hne => ?_)
      (h.inPlace_stopped hr hp) hothers
    rcases retained_or_self h.toCoherent hr hg (h.kept i g hg) with ⟨r, hkept, -⟩ | ⟨-, rfl, hnone⟩
    · simp only [hkept, Option.isSome_some]
    · have hsome := h.kept i g hg hne
      rw [hnone] at hsome
      cases hsome
  | published i registry tables transactions ht hr hp s' hs hc =>
    have hfollow := follows_commit (h.toCoherent.commit_outcome i)
    have hothers := @Steady.keepsOthers_commit sys i h
    rw [hc] at hfollow hothers
    subst hs
    refine h.update hco hfollow (fun r hmem => ?_) (fun g hg => by cases hg)
      (fun e he => by cases he) hothers
    exact h.precede_retain hr hfollow r (mem_retained_releaseHandle h.toCoherent hmem)
  | createTable | dropTable => exact absurd trivial hddl
  | defines i statement _ db' hs =>
    exact h.schema hs.valid hs.registry hs.commitSequence hs.commitQueue hs.tables
  | drains =>
    exact h.schema (h.valid.follow rfl rfl rfl (Database.follows_refl _)) rfl rfl rfl rfl
  | stages i statement _ s' hrule =>
    exact h.stages (hrule (h.stagingRule i) ⟨⟨.refl _, h.shaped i⟩, h.entries i⟩)

/-- **And so does every run of such events.** -/
theorem steady_run (frontend : Frontend) (h : sys.Steady) {events : List Event}
    (hddl : ∀ event ∈ events, ¬event.Reshapes) : (sys.run frontend events).Steady := by
  induction events generalizing sys with
  | nil => exact h
  | cons event rest ih =>
    rw [forall_mem_cons] at hddl
    exact ih (steady_step frontend h hddl.1) hddl.2

/-- An event that creates, drops and commits nothing leaves the tables as
they are. -/
theorem tables_step (frontend : Frontend) (h : sys.Coherent) (hddl : ¬event.Reshapes)
    (hcommit : ∀ i, event ≠ .statement i .commit) :
    (sys.step frontend event).db.tables = sys.db.tables := by
  have heffect := h.effect frontend event
  generalize sys.step frontend event = sys' at heffect ⊢
  cases heffect with
  | stopped i => exact absurd rfl (hcommit i)
  | published i => exact absurd rfl (hcommit i)
  | createTable | dropTable => exact absurd trivial hddl
  | defines _ _ _ _ hs => exact hs.tables
  | _ => rfl

theorem tables_run (frontend : Frontend) (h : sys.Coherent) {events : List Event}
    (hddl : ∀ event ∈ events, ¬event.Reshapes)
    (hcommit : ∀ event ∈ events, ∀ i, event ≠ .statement i .commit) :
    (sys.run frontend events).db.tables = sys.db.tables := by
  induction events generalizing sys with
  | nil => rfl
  | cons event rest ih =>
    rw [forall_mem_cons] at hddl hcommit
    exact (ih (coherent_step frontend h event) hddl.2 hcommit.2).trans
      (tables_step frontend h hddl.1 hcommit.1)

/-- The tables follow, slot by slot. -/
theorem follows_step (frontend : Frontend) (h : sys.Coherent) (hddl : ¬event.Reshapes) :
    List.Forall₂ Database.Follows sys.db.tables (sys.step frontend event).db.tables := by
  by_cases hcommit : ∃ i, event = .statement i .commit
  · obtain ⟨i, rfl⟩ := hcommit
    rw [h.step_commit frontend i]
    exact follows_commit (h.commit_outcome i)
  · rw [tables_step frontend h hddl fun i heq => hcommit ⟨i, heq⟩]
    exact Database.follows_refl _

theorem follows_run (frontend : Frontend) (h : sys.Coherent) {events : List Event}
    (hddl : ∀ event ∈ events, ¬event.Reshapes) :
    List.Forall₂ Database.Follows sys.db.tables (sys.run frontend events).db.tables := by
  induction events generalizing sys with
  | nil => exact Database.follows_refl _
  | cons event rest ih =>
    rw [forall_mem_cons] at hddl
    exact Database.follows_trans (follows_step frontend h hddl.1)
      (ih (coherent_step frontend h event) hddl.2)

end System

end Shoveler
