import Shoveler.Invariant.Live
import Shoveler.Invariant.Retention
import Shoveler.Invariant.Steady
import Shoveler.Properties.CommittedStores
import Shoveler.Properties.DecoderSafety

/-!
# No insert is lost

What sessions that only insert are for: each keeps a list of the rows it
has inserted, a rollback drops the list and a commit appends it to what is
committed (`Pending`, `ledger`). The database does this whatever the
interleaving, although the sessions reserve the same ids: the committed
rows of each table are the first ones followed by the ledger's, and every
commit goes through, as long as there are ids left for its rows
(`no_insert_lost`). Where there are not, a commit ends the process
(`ids_run_out`).
-/

namespace Shoveler

open Outcome List

variable {event : Event} {s : Session}

/-! ## The ledger -/

/-- The rows each session has inserted and not yet committed, with the slot
of their table. -/
abbrev Pending := ℕ → List (ℕ × List Value)

/-- The row a successful `INSERT` of a session has inserted. -/
def System.inserted (sys : System) (i : ℕ) (statement : Ast.InsertStatement) :
    Option (ℕ × List Value) :=
  match sys.db.getTableState statement.tableName with
  | none => none
  | some (slot, table) =>
    let reserved := ((sys.sessions i).transactionFor slot table).2.2.nextId
    match (executeInsert sys.db (sys.sessions i) statement).2,
      rowValuesForInsert table.store.table statement reserved with
    | .ok _, .ok values => some (slot, values)
    | _, _ => none

/-- What the sessions have pending after an event. -/
def Pending.step (sys : System) (pending : Pending) : Event → Pending
  | .statement i (.insert statement) =>
    Function.update pending i (pending i ++ (sys.inserted i statement).toList)
  | .statement i .commit => Function.update pending i []
  | .statement i .rollback => Function.update pending i []
  | _ => pending

/-- What an event commits. -/
def Pending.commits (pending : Pending) : Event → List (ℕ × List Value)
  | .statement i .commit => pending i
  | _ => []

/-- **The ledger of a run**: the rows it commits, in the order of the
commits and, within one, of the statements. -/
def ledger (frontend : Frontend) : System → Pending → List Event → List (ℕ × List Value)
  | _, _, [] => []
  | sys, pending, event :: rest =>
    pending.commits event ++
      ledger frontend (sys.step frontend event) (pending.step sys event) rest

/-- The rows for one table. -/
def rowsAt (rows : List (ℕ × List Value)) (k : ℕ) : List (List Value) :=
  (rows.filter fun row => decide (row.1 = k)).map Prod.snd

theorem rowsAt_append (rows more : List (ℕ × List Value)) (k : ℕ) :
    rowsAt (rows ++ more) k = rowsAt rows k ++ rowsAt more k := by
  rw [rowsAt, filter_append, map_append]
  rfl

theorem rowsAt_singleton (slot : ℕ) (values : List Value) (k : ℕ) :
    rowsAt [(slot, values)] k = if slot = k then [values] else [] := by
  unfold rowsAt
  by_cases h : slot = k <;> simp [h]

/-! ## The sessions and the ledger -/

/-- The next id of the table in a slot. -/
def Database.nextIdAt (db : Database) (k : ℕ) : ℕ :=
  (db.tables[k]?.map fun t => t.store.nextId.toNat).getD 0

/-- **The ids of a transaction do not run ahead**: none is above the next id
of the table by more than the rows staged before it. -/
structure Transaction.Numbered (tx : Transaction) (next : ℕ) : Prop where
  nextId : tx.nextId.toNat ≤ next + tx.inserts.length
  ids : ∀ j row, tx.inserts[j]? = some row → row.id.toNat ≤ next + j

/-- **A session has staged exactly the rows it has pending.** -/
structure Session.Records (s : Session) (next : ℕ → ℕ) (rows : List (ℕ × List Value)) : Prop where
  only : ∀ e ∈ s.transactions, e.tx.updates = [] ∧ e.tx.deletes = []
  staged : ∀ e ∈ s.transactions, e.tx.inserts.map Row.values = rowsAt rows e.slot
  rest : ∀ k, (∀ e ∈ s.transactions, e.slot ≠ k) → rowsAt rows k = []
  numbered : ∀ e ∈ s.transactions, e.tx.Numbered (next e.slot)

variable {next : ℕ → ℕ}

theorem Session.Records.nil (h : s.transactions = []) : s.Records next [] := by
  refine ⟨fun e he => ?_, fun e he => ?_, fun k _ => rfl, fun e he => ?_⟩
  all_goals rw [h] at he; cases he

/-- The tables may go on. -/
theorem Session.Records.mono {next' : ℕ → ℕ} {rows : List (ℕ × List Value)}
    (h : s.Records next rows) (hnext : ∀ k, next k ≤ next' k) : s.Records next' rows := by
  refine ⟨h.only, h.staged, h.rest, fun e he => ?_⟩
  have hle := hnext e.slot
  refine ⟨(h.numbered e he).nextId.trans (by omega), fun j row hrow => ?_⟩
  exact ((h.numbered e he).ids j row hrow).trans (by omega)

/-- A transaction that is opened holds nothing, and nothing is pending for
its table. -/
theorem Session.Records.opens {rows : List (ℕ × List Value)} (h : s.Records next rows) {slot : ℕ}
    (hfree : ∀ e ∈ s.transactions, e.slot ≠ slot) {table : TableState}
    (hnext : table.store.nextId.toNat = next slot) :
    Session.Records
      { s with transactions := s.transactions ++ [⟨table.name, .begin slot table.store⟩] }
      next rows := by
  refine ⟨?_, ?_, fun k hk => h.rest k fun e he => hk e (mem_append_left _ he), ?_⟩
  · refine forall_mem_append.2 ⟨h.only, fun e he => ?_⟩
    rw [mem_singleton.1 he]
    exact ⟨rfl, rfl⟩
  · refine forall_mem_append.2 ⟨h.staged, fun e he => ?_⟩
    rw [mem_singleton.1 he]
    exact (h.rest slot hfree).symm
  · refine forall_mem_append.2 ⟨h.numbered, fun e he => ?_⟩
    rw [mem_singleton.1 he]
    exact ⟨hnext.le, fun j row hrow => by cases hrow⟩

/-- Staging keeps the slots. -/
theorem Session.map_slot_setTransaction {index : ℕ} {e : TableTransaction}
    (he : s.transactions[index]? = some e) {tx : Transaction} (hslot : tx.slot = e.tx.slot) :
    (s.setTransaction index tx).transactions.map TableTransaction.slot =
      s.transactions.map TableTransaction.slot := by
  refine ext_getElem? fun k => ?_
  rw [getElem?_map, getElem?_map]
  by_cases hk : index = k
  · subst hk
    rw [Session.getElem?_setTransaction he, he, Option.map_some, Option.map_some]
    exact congrArg some hslot
  · rw [Session.setTransaction, getElem?_modify_ne _ _ hk]

/-- A row that is staged is one more row pending. -/
theorem Session.Records.inserts {s : Session} {rows : List (ℕ × List Value)}
    (h : s.Records next rows) (hslots : (s.transactions.map TableTransaction.slot).Nodup)
    {index : ℕ} {e : TableTransaction} (he : s.transactions[index]? = some e) {tx : Transaction}
    {id : RowId} {values : List Value} (hslot : tx.slot = e.tx.slot)
    (hlists : tx.inserts = e.tx.inserts ++ [⟨id, values⟩] ∧ tx.updates = e.tx.updates ∧
      tx.deletes = e.tx.deletes)
    (hids : id = e.tx.nextId ∧ tx.nextId.toNat = e.tx.nextId.toNat + 1) :
    (s.setTransaction index tx).Records next (rows ++ [(e.slot, values)]) := by
  have hmem := mem_of_getElem? he
  have hmap := Session.map_slot_setTransaction he hslot
  -- the other transactions are those of other slots
  have hsplit : ∀ e' ∈ (s.setTransaction index tx).transactions,
      e' = { e with tx := tx } ∨ e' ∈ s.transactions ∧ e.slot ≠ e'.slot := by
    intro e' he'
    obtain ⟨k, hk⟩ := mem_iff_getElem?.1 he'
    by_cases hi : index = k
    · subst hi
      rw [Session.getElem?_setTransaction he, Option.some.injEq] at hk
      exact Or.inl hk.symm
    · rw [Session.setTransaction, getElem?_modify_ne _ _ hi] at hk
      exact Or.inr ⟨mem_of_getElem? hk, fun heq => hi (Keyed.getElem?_place hslots he hk heq)⟩
  refine ⟨fun e' he' => ?_, fun e' he' => ?_, fun k hk => ?_, fun e' he' => ?_⟩
  · rcases hsplit e' he' with rfl | ⟨he', -⟩
    · rw [hlists.2.1, hlists.2.2]
      exact h.only e hmem
    · exact h.only e' he'
  · rw [rowsAt_append, rowsAt_singleton]
    rcases hsplit e' he' with rfl | ⟨he', hne⟩
    · have hsame : TableTransaction.slot { e with tx := tx } = e.slot := hslot
      rw [hlists.1, map_append, h.staged e hmem, hsame, if_pos rfl]
      rfl
    · rw [if_neg hne, append_nil]
      exact h.staged e' he'
  · have hnone : k ∉ s.transactions.map TableTransaction.slot := by
      rw [← hmap]
      intro hk'
      obtain ⟨e', he', heq⟩ := mem_map.1 hk'
      exact hk e' he' heq
    have hrest := h.rest k fun e' he' heq => hnone (heq ▸ mem_map_of_mem he')
    have hne : e.slot ≠ k := fun heq => hnone (heq ▸ mem_map_of_mem hmem)
    rw [rowsAt_append, rowsAt_singleton, if_neg hne, hrest]
    rfl
  · rcases hsplit e' he' with rfl | ⟨he', -⟩
    · have hold := h.numbered e hmem
      have hsame : TableTransaction.slot { e with tx := tx } = e.slot := hslot
      have hlength : tx.inserts.length = e.tx.inserts.length + 1 := by rw [hlists.1, length_append]; rfl
      refine ⟨?_, fun j row hrow => ?_⟩
      · have hle := hold.nextId
        rw [hsame, hlength, hids.2]
        omega
      · change tx.inserts[j]? = some row at hrow
        rw [hlists.1, getElem?_append, getElem?_singleton] at hrow
        rw [hsame]
        split at hrow
        · exact hold.ids j row hrow
        · split at hrow
          · obtain rfl := Option.some.inj hrow
            have hle := hold.nextId
            rw [← hids.1] at hle
            exact hle.trans (by omega)
          · cases hrow
    · exact h.numbered e' he'

/-- **Where the database and the ledger agree**: in a steady system whose
tables can all be kept, every session has staged what it has pending. -/
structure System.Matches (sys : System) (pending : Pending) : Prop extends sys.Steady where
  live : ∀ i, (sys.sessions i).Live
  rebuildable : ∀ t ∈ sys.db.tables, t.store.table.Rebuildable
  records : ∀ i, (sys.sessions i).Records sys.db.nextIdAt (pending i)

/-- `BEGIN`, `INSERT`, `COMMIT` and `ROLLBACK`. -/
def Event.Inserts : Event → Prop
  | .statement _ .begin | .statement _ (.insert _) | .statement _ .commit
  | .statement _ .rollback => True
  | _ => False

theorem Event.Inserts.not_reshapes (h : event.Inserts) : ¬event.Reshapes := by
  cases event with
  | statement i statement => cases statement <;> first | exact id | exact h.elim
  | deinit | drain => exact h.elim

namespace System

variable {sys : System} {i : ℕ} {pending : Pending}

/-- What is to be shown of the records where one session changes. -/
theorem Matches.records_update (h : sys.Matches pending) {s' : Session}
    {rows : List (ℕ × List Value)} (hrecords : s'.Records sys.db.nextIdAt rows) (j : ℕ) :
    (Function.update sys.sessions i s' j).Records sys.db.nextIdAt
      (Function.update pending i rows j) := by
  by_cases hj : j = i
  · subst hj
    simpa using hrecords
  · simpa [hj] using h.records j

/-- **An `INSERT`** stages the row that the ledger notes, or nothing. -/
theorem Matches.executeInsert (h : sys.Matches pending) (i : ℕ) (statement : Ast.InsertStatement) :
    (Shoveler.executeInsert sys.db (sys.sessions i) statement).1.Records sys.db.nextIdAt
      (pending i ++ (sys.inserted i statement).toList) := by
  have hself := h.records i
  unfold System.inserted
  unfold Shoveler.executeInsert
  by_cases ha : (sys.sessions i).active = true
  swap
  · rw [if_pos (by simpa using ha)]
    cases sys.db.getTableState statement.tableName with
    | none => simpa using hself
    | some found => simpa using hself
  rw [if_neg (by simp [ha])]
  cases ht : sys.db.getTableState statement.tableName with
  | none => simpa using hself
  | some found =>
    obtain ⟨slot, table⟩ := found
    obtain ⟨-, hslot, -⟩ := Database.getTableState_eq_some ht
    obtain ⟨opened, index, e, heq, hopened, hactive, he, hkey⟩ :=
      ((h.toSteady.stagingRule i).guarded fun _ => True).transactionFor (h.stagesInPlace i) ha ht
    have hslots := slots_nodup hopened.1.2.keys hopened.2
    -- the transaction is in the slot of the table that was found
    have heslot : e.slot = slot := by
      obtain ⟨t, hin⟩ := hopened.2 e (mem_of_getElem? he)
      exact (slot_unique h.valid.stateKeys_nodup hin.slot hslot (hin.key.trans hkey)).1
    have hnext : table.store.nextId.toNat = sys.db.nextIdAt slot := by
      rw [Database.nextIdAt, hslot]
      rfl
    have hrecords : opened.Records sys.db.nextIdAt (pending i) := by
      rcases (sys.sessions i).transactionFor_cases slot table with
        ⟨index', e', he', hkey', heq'⟩ | ⟨hnew, heq'⟩
      · rw [heq'] at heq
        obtain ⟨rfl, -⟩ := Prod.mk.inj heq
        exact hself
      · rw [heq'] at heq
        obtain ⟨rfl, -⟩ := Prod.mk.inj heq
        refine hself.opens (fun e' he' hs => hnew ?_) hnext
        obtain ⟨t, hin⟩ := h.entries i e' he'
        have hthere := hin.slot
        rw [hs, hslot] at hthere
        obtain rfl := Option.some.inj hthere
        exact hin.key ▸ mem_map_of_mem he'
    simp only [heq]
    cases hv : rowValuesForInsert table.store.table statement e.tx.nextId with
    | error err => simpa using hrecords
    | ok values =>
      simp only
      cases hins : e.tx.insert (storeAt sys.db.tables e.tx.slot) values with
      | error err => simpa using hrecords
      | ok result =>
        obtain ⟨id, tx'⟩ := result
        obtain ⟨-, s, -, -, rfl, n, hn, rfl⟩ := Transaction.insert_eq_ok.1 hins
        simp only [Option.toList_some, ← heslot]
        exact hrecords.inserts hslots he rfl ⟨rfl, rfl, rfl⟩ ⟨rfl, nextAfter_eq_ok.1 hn⟩

/-- The rows a transaction that only inserts adds to its table. -/
theorem publish_of_only_inserts {tx : Transaction} {s next : RowStore} (hs : s.Valid)
    (ht : tx.Ordered) (honly : tx.updates = [] ∧ tx.deletes = []) (h : tx.publish s = .ok next) :
    ∃ new, next.rows = s.rows ++ new ∧ new.map Row.values = tx.inserts.map Row.values := by
  obtain ⟨-, placed, hplaced, hrows⟩ := Transaction.publish_eq_ok hs ht h
  rw [honly.1, honly.2, Keyed.overlay_nil] at hrows
  have hvalues : List.Forall₂ Eq (tx.inserts.map Row.values) (placed.map Row.values) := by
    rw [forall₂_map_left_iff, forall₂_map_right_iff]
    exact hplaced.imp fun _ _ hp => hp.values.symm
  rw [forall₂_eq_eq_eq] at hvalues
  exact ⟨placed, hrows, hvalues.symm⟩

/-- What is added to the tables by a commit that goes through. -/
theorem Matches.commit_rows (h : sys.Matches pending)
    (hok : ((sys.sessions i).commit sys.db).2.2 = .ok ()) {k : ℕ} {t t' : TableState}
    (ht : sys.db.tables[k]? = some t)
    (ht' : ((sys.sessions i).commit sys.db).1.tables[k]? = some t') :
    ∃ new, t'.store.rows = t.store.rows ++ new ∧ new.map Row.values = rowsAt (pending i) k := by
  have hrecords := h.records i
  by_cases hslot : ∃ e ∈ (sys.sessions i).transactions, e.slot = k
  · obtain ⟨e, he, rfl⟩ := hslot
    obtain ⟨t₀, t₁, ht₀, ht₁, hpub⟩ := h.toSteady.commit_slot_of_ok hok he
    obtain rfl := Option.some.inj (ht.symm.trans ht₀)
    obtain rfl := Option.some.inj (ht'.symm.trans ht₁)
    rw [← hrecords.staged e he]
    exact publish_of_only_inserts (h.valid.stores t (mem_of_getElem? ht))
      ((h.shaped i).ordered e he) (hrecords.only e he) hpub
  · -- no transaction points here, so the table stays and nothing is pending for it
    rcases h.toSteady.commit_slot ht ht' with rfl | ⟨e, he, hes, -⟩
    · refine ⟨[], (append_nil _).symm, ?_⟩
      exact (hrecords.rest k fun e he hes => hslot ⟨e, he, hes⟩).symm
    · exact absurd ⟨e, he, hes⟩ hslot

/-- **Rows are placed as long as there are ids**: each takes one at most. -/
theorem insertAll_ok {rows : List Row} {s : RowStore} (hs : s.Valid)
    (hconform : ∀ row ∈ rows, row.Conforms s.table) {n : ℕ} (hn : s.nextId.toNat ≤ n)
    (hids : ∀ j row, rows[j]? = some row → row.id.toNat ≤ n + j)
    (hroom : n + rows.length < UInt64.size) :
    ∃ s', rows.foldlM (fun next row =>
      next.insertWithId (Transaction.commitId next row) row.values) s = .ok s' := by
  induction rows generalizing s n with
  | nil => exact ⟨s, rfl⟩
  | cons row rows ih =>
    rw [forall_mem_cons] at hconform
    rw [length_cons] at hroom
    have hid : (Transaction.commitId s row).toNat ≤ n := by
      rw [Transaction.commitId]
      split
      · exact hids 0 row rfl
      · exact hn
    obtain ⟨next, hnext, hle⟩ : ∃ next, s.nextIdAfter (Transaction.commitId s row) = .ok next ∧
        next.toNat ≤ n + 1 := by
      rw [RowStore.nextIdAfter]
      split
      · rw [nextAfter, if_pos (by omega)]
        have hsucc := nextAfter_eq_ok.1 (if_pos (by omega) :
          nextAfter (Transaction.commitId s row) = .ok (Transaction.commitId s row + 1))
        exact ⟨_, rfl, by omega⟩
      · exact ⟨_, rfl, by omega⟩
    have hplaced := RowStore.insertWithId_eq_ok.2
      ⟨Transaction.commitId_not_mem hs row, hconform.1, next, hnext, rfl⟩
    rw [foldlM_cons, hplaced, ok_bind]
    refine ih (hs.insertWithId hplaced) hconform.2 hle (fun j row hrow => ?_) (by omega)
    exact (hids (j + 1) row hrow).trans (by omega)

/-- The table transactions that a commit publishes. -/
def committing (sys : System) : Event → List TableTransaction
  | .statement i .commit => (sys.sessions i).transactions
  | _ => []

/-- **There are ids for the rows of a commit**: in every table it writes to,
as many from the next id on as it has rows for the table. -/
def HasRoom (sys : System) (event : Event) : Prop :=
  ∀ e ∈ sys.committing event, sys.db.nextIdAt e.slot + e.tx.inserts.length < UInt64.size

instance (sys : System) (event : Event) : Decidable (sys.HasRoom event) :=
  inferInstanceAs (Decidable (∀ _ ∈ _, _))

/-- No commit is refused for the readers' sake. -/
def Unrefused (frontend : Frontend) (sys : System) (event : Event) : Prop :=
  ∀ i, event = .statement i .commit →
    (sys.perform frontend event).2 ≠ .error .snapshotRetentionExceeded

/-- **A commit goes through**, unless the readers ask for more than may be
kept or the ids run out. -/
theorem Matches.commit_ok (h : sys.Matches pending) (ha : (sys.sessions i).active = true)
    (hkeep : ((sys.sessions i).commit sys.db).2.2 ≠ .error .snapshotRetentionExceeded)
    (hroom : sys.HasRoom (.statement i .commit)) :
    ((sys.sessions i).commit sys.db).2.2 = .ok () := by
  have hout := h.toCoherent.commit_outcome i
  generalize (sys.sessions i).commit sys.db = r at hout hkeep ⊢
  cases hout with
  | inactive hinactive => exact absurd (hinactive.symm.trans ha) Bool.false_ne_true
  | idle | published => rfl
  | refused err _ _ hret =>
    obtain rfl := h.toCoherent.retention_error h.rebuildable hret
    exact absurd rfl hkeep
  | stopped registry tables transactions err _ _ hret hp =>
    obtain ⟨done, e, rest, hsplit, -, herr, -⟩ := publishAll_eq_error (h.toSteady.slots_nodup i) hp
    have he : e ∈ (sys.sessions i).transactions := by
      rw [hsplit]
      exact mem_append_right _ mem_cons_self
    obtain ⟨t, hin⟩ := h.entries i e he
    have hstore : storeAt sys.db.tables e.slot = .ok t.store :=
      Database.storeAt_eq_ok.2 ⟨t, hin.slot, rfl⟩
    have honly := (h.records i).only e he
    have hnumbered := (h.records i).numbered e he
    have hroom := hroom e he
    rw [Database.nextIdAt, hin.slot] at hnumbered hroom
    have hvalid := h.valid.stores t (mem_of_getElem? hin.slot)
    have hpublishable : e.tx.Publishable t.store := by
      refine ⟨fun d hd => ?_, fun u hu => ?_⟩
      · rw [honly.2] at hd
        cases hd
      · rw [Transaction.updateIds, honly.1] at hu
        cases hu
    -- every row finds an id, so that the table is published
    obtain ⟨hafter, hpublish⟩ := Transaction.publish_eq_insertAll hvalid hin.staged hpublishable
    obtain ⟨s', hs'⟩ := insertAll_ok hafter hin.staged.inserts_conform (le_refl _) hnumbered.ids hroom
    rw [Transaction.commit, hstore, Transaction.ensureActive_eq_ok.2 (h.live i e he)] at herr
    simp only [ok_bind, hpublish, hs'] at herr
    cases herr

/-- What a commit returns to the caller when it fails. -/
theorem Coherent.perform_commit_error (frontend : Frontend) (h : sys.Coherent) {err : Error}
    (herr : ((sys.sessions i).commit sys.db).2.2 = .error err) :
    (sys.perform frontend (.statement i .commit)).2 = .error err := by
  rw [← h.executeCommit i] at herr
  simp only [perform, executeStatement, transactional, herr]
  rfl

theorem Matches.commit_ok_of_unrefused (frontend : Frontend) (h : sys.Matches pending)
    (ha : (sys.sessions i).active = true)
    (hun : Unrefused frontend sys (.statement i .commit))
    (hroom : sys.HasRoom (.statement i .commit)) :
    ((sys.sessions i).commit sys.db).2.2 = .ok () :=
  h.commit_ok ha (fun herr => hun i rfl (h.toCoherent.perform_commit_error frontend herr)) hroom

/-- Such a commit stops nowhere half way. -/
theorem Matches.commitsClean (frontend : Frontend) (h : sys.Matches pending)
    (hun : Unrefused frontend sys event) (hroom : sys.HasRoom event) : CommitsClean sys event := by
  by_cases hcommit : ∃ i, event = .statement i .commit
  · obtain ⟨i, rfl⟩ := hcommit
    cases ha : (sys.sessions i).active with
    | true => exact Or.inl (h.commit_ok_of_unrefused frontend ha hun hroom)
    | false =>
      have hsame : (sys.sessions i).commit sys.db =
          (sys.db, sys.sessions i, .error .noActiveTransaction) := by
        rw [Session.commit, if_pos (by simp [ha])]
      refine Or.inr ?_
      rw [hsame]
      exact ⟨rfl, rfl⟩
  · unfold CommitsClean
    split
    · exact absurd ⟨_, rfl⟩ hcommit
    · trivial

/-- After `COMMIT` nothing is staged. -/
theorem Matches.transactions_commit (frontend : Frontend) (h : sys.Matches pending)
    (hun : Unrefused frontend sys (.statement i .commit))
    (hroom : sys.HasRoom (.statement i .commit)) :
    ((sys.sessions i).commit sys.db).2.1.transactions = [] := by
  cases ha : (sys.sessions i).active with
  | false =>
    rw [Session.commit, if_pos (by simp [ha])]
    exact ((h.shaped i).closed ha).2.2
  | true =>
    have hok := h.commit_ok_of_unrefused frontend ha hun hroom
    have hout := h.toCoherent.commit_outcome i
    generalize (sys.sessions i).commit sys.db = r at hout hok ⊢
    cases hout with
    | inactive | refused | stopped => cases hok
    | idle | published => rfl

/-- Nor is after `ROLLBACK`. -/
theorem Matches.transactions_rollback (h : sys.Matches pending) :
    ((sys.sessions i).rollback sys.db).2.1.transactions = [] := by
  cases ha : (sys.sessions i).active with
  | false =>
    rw [Session.rollback_of_inactive ha]
    exact ((h.shaped i).closed ha).2.2
  | true =>
    rw [(h.live i).rollback ha]
    rfl

theorem nextIdAt_le {db db' : Database} (h : Forall₂ Database.Follows db.tables db'.tables)
    (k : ℕ) : db.nextIdAt k ≤ db'.nextIdAt k := by
  unfold Database.nextIdAt
  cases ht : db.tables[k]? with
  | none => exact Nat.zero_le _
  | some t =>
    obtain ⟨t', ht', hfollows⟩ := getElem?_of_forall₂ h ht
    rw [ht']
    exact UInt64.le_iff_toNat_le.1 hfollows.2.nextId

/-- **Every event keeps the database and the ledger in step.** -/
theorem matches_step (frontend : Frontend) (h : sys.Matches pending) (hins : event.Inserts)
    (hun : Unrefused frontend sys event) (hroom : sys.HasRoom event) :
    (sys.step frontend event).Matches (pending.step sys event) := by
  have hddl := hins.not_reshapes
  have hfollow := follows_step frontend h.toCoherent hddl
  refine ⟨steady_step frontend h.toSteady hddl,
    live_step frontend h.toCoherent h.live (h.commitsClean frontend hun hroom), fun t' ht' => ?_,
    fun j => Session.Records.mono ?_ (nextIdAt_le hfollow)⟩
  · obtain ⟨t, ht, hf⟩ := exists_left_of_forall₂ hfollow ht'
    rw [hf.2.table]
    exact h.rebuildable t ht
  · cases event with
    | deinit | drain => exact hins.elim
    | statement i statement =>
      cases statement with
      | begin =>
        have hrecords : ((sys.sessions i).begin sys.db).2.1.Records sys.db.nextIdAt (pending i) := by
          unfold Session.begin
          have hold := h.records i
          split <;> exact ⟨hold.only, hold.staged, hold.rest, hold.numbered⟩
        have hall := @Matches.records_update sys i pending h _ _ hrecords j
        rw [Function.update_eq_self] at hall
        exact hall
      | insert statement => exact h.records_update (h.executeInsert i statement) j
      | commit =>
        rw [h.toCoherent.step_commit frontend i]
        exact h.records_update (.nil (h.transactions_commit frontend hun hroom)) j
      | rollback => exact h.records_update (.nil h.transactions_rollback) j
      | _ => exact hins.elim

/-- **What an event commits is added to the tables.** -/
theorem Matches.step_rows (frontend : Frontend) (h : sys.Matches pending) (hins : event.Inserts)
    (hun : Unrefused frontend sys event) (hroom : sys.HasRoom event) {k : ℕ} {t : TableState}
    (ht : sys.db.tables[k]? = some t) :
    ∃ t' new, (sys.step frontend event).db.tables[k]? = some t' ∧
      t'.store.rows = t.store.rows ++ new ∧
      new.map Row.values = rowsAt (pending.commits event) k := by
  by_cases hcommit : ∃ i, event = .statement i .commit
  · obtain ⟨i, rfl⟩ := hcommit
    rw [h.toCoherent.step_commit frontend i]
    obtain ⟨t', ht', -⟩ :=
      getElem?_of_forall₂ (follows_commit (h.toCoherent.commit_outcome i)) ht
    cases ha : (sys.sessions i).active with
    | true =>
      obtain ⟨new, hrows, hvalues⟩ :=
        h.commit_rows (h.commit_ok_of_unrefused frontend ha hun hroom) ht ht'
      exact ⟨t', new, ht', hrows, hvalues⟩
    | false =>
      -- nothing is pending where nothing was begun
      have hnil := ((h.shaped i).closed ha).2.2
      have hsame : ((sys.sessions i).commit sys.db).1 = sys.db := by
        rw [Session.commit, if_pos (by simp [ha])]
      refine ⟨t, [], by rw [hsame, ht], (append_nil _).symm, ?_⟩
      exact ((h.records i).rest k fun e he => by rw [hnil] at he; cases he).symm
  · have hnothing : pending.commits event = [] := by
      unfold Pending.commits
      split
      · exact absurd ⟨_, rfl⟩ hcommit
      · rfl
    refine ⟨t, [], ?_, (append_nil _).symm, by rw [hnothing]; rfl⟩
    rw [tables_step frontend h.toCoherent hins.not_reshapes fun i heq => hcommit ⟨i, heq⟩, ht]

/-- **And so is the ledger of a run.** -/
theorem Matches.run_rows (frontend : Frontend) {events : List Event} (h : sys.Matches pending)
    (hins : ∀ event ∈ events, event.Inserts) (hun : sys.Along frontend (Unrefused frontend) events)
    (hroom : sys.Along frontend HasRoom events) {k : ℕ} {t : TableState}
    (ht : sys.db.tables[k]? = some t) :
    ∃ t' new, (sys.run frontend events).db.tables[k]? = some t' ∧
      t'.store.rows = t.store.rows ++ new ∧
      new.map Row.values = rowsAt (ledger frontend sys pending events) k := by
  induction events generalizing sys pending t with
  | nil => exact ⟨t, [], ht, (append_nil _).symm, rfl⟩
  | cons event rest ih =>
    rw [forall_mem_cons] at hins
    obtain ⟨t₁, first, ht₁, hrows₁, hvalues₁⟩ := h.step_rows frontend hins.1 hun.1 hroom.1 ht
    obtain ⟨t', later, ht', hrows', hvalues'⟩ :=
      ih (matches_step frontend h hins.1 hun.1 hroom.1) hins.2 hun.2 hroom.2 ht₁
    refine ⟨t', first ++ later, ht', ?_, ?_⟩
    · rw [hrows', hrows₁, append_assoc]
    · rw [map_append, hvalues₁, hvalues', ledger, rowsAt_append]

/-- The database and some ledger are in step at every state of a run. -/
theorem Matches.run (frontend : Frontend) {events : List Event} (h : sys.Matches pending)
    (hins : ∀ event ∈ events, event.Inserts)
    (hun : sys.Along frontend (Unrefused frontend) events)
    (hroom : sys.Along frontend HasRoom events) :
    ∃ pending', (sys.run frontend events).Matches pending' := by
  induction events generalizing sys pending with
  | nil => exact ⟨pending, h⟩
  | cons event rest ih =>
    rw [forall_mem_cons] at hins
    exact ih (matches_step frontend h hins.1 hun.1 hroom.1) hins.2 hun.2 hroom.2

/-- A system at rest whose tables can be kept, with an empty ledger. -/
theorem Coherent.matches (h : sys.Coherent) (hidle : ∀ i, (sys.sessions i).active = false)
    (hclone : ∀ t ∈ sys.db.tables, ∃ table, cloneTableDef t.store.table = .ok table) :
    sys.Matches fun _ => [] := by
  have hnil : ∀ i, (sys.sessions i).transactions = [] := fun i =>
    ((h.shaped i).closed (hidle i)).2.2
  refine ⟨h.steady hidle, fun i => .of_nil (hnil i), fun t ht => ?_, fun i => .nil (hnil i)⟩
  obtain ⟨table, hc⟩ := hclone t ht
  exact (TableDef.cloneTableDef_eq_ok.1 hc).1

end System

/-- **No insert is lost or duplicated.** In every run of `BEGIN`, `INSERT`,
`COMMIT` and `ROLLBACK` in which no commit is refused for the readers'
sake, and for every commit there are ids left for its rows, every commit of
an active session goes through, and at the end the rows of each table are
those it had, followed by the rows of the ledger, under distinct ids. -/
theorem no_insert_lost (frontend : Frontend) {start : System} (hreach : start.Reachable frontend)
    (hrest : ∀ j, (start.sessions j).active = false)
    (hclone : ∀ t ∈ start.db.tables, ∃ table, cloneTableDef t.store.table = .ok table)
    {events : List Event} (hins : ∀ event ∈ events, event.Inserts)
    (hun : start.Along frontend (System.Unrefused frontend) events)
    (hroom : start.Along frontend System.HasRoom events) :
    (∀ before i after, events = before ++ .statement i .commit :: after →
        ((start.run frontend before).sessions i).active = true →
        (((start.run frontend before).sessions i).commit
          (start.run frontend before).db).2.2 = .ok ()) ∧
      ∀ (k : ℕ) (t : TableState), start.db.tables[k]? = some t →
        ∃ t' new, (start.run frontend events).db.tables[k]? = some t' ∧
          t'.store.rows = t.store.rows ++ new ∧
          new.map Row.values = rowsAt (ledger frontend start (fun _ => []) events) k ∧
          t'.store.ids.Nodup := by
  have hmatches := hreach.coherent.matches hrest hclone
  refine ⟨fun before i after hsplit ha => ?_, fun k t ht => ?_⟩
  · rw [hsplit] at hun hroom hins
    obtain ⟨hbefore, hcommit, -⟩ := Run.along_append.1 hun
    obtain ⟨hbefore', hcommit', -⟩ := Run.along_append.1 hroom
    obtain ⟨pending, hthere⟩ := hmatches.run frontend
      (fun event he => hins event (mem_append_left _ he)) hbefore hbefore'
    exact hthere.commit_ok_of_unrefused frontend ha hcommit hcommit'
  · obtain ⟨t', new, ht', hrows, hvalues⟩ := hmatches.run_rows frontend hins hun hroom ht
    have hend : (start.run frontend events).Coherent := (hreach.run events).coherent
    exact ⟨t', new, ht', hrows, hvalues,
      (hend.valid.stores t' (mem_of_getElem? ht')).distinct⟩

/-- Three sessions that have reserved the same ids: session 2 commits before
session 1, and session 3 rolls back. -/
def insertingRun : List Event :=
  [Script.begin 1, Script.begin 2, Script.begin 3, Script.insert 1 "A" [some 1],
    Script.insert 2 "A" [some 2], Script.insert 3 "A" [some 3], Script.insert 1 "A" [some 4],
    Script.insert 1 "B" [some 5], Script.commit 2, Script.rollback 3, Script.commit 1]

/-- The rows are those of sessions 2 and 1, in this order. -/
theorem no_insert_lost_interleaved :
    rowsAt (ledger Script.frontend Script.twoTables (fun _ => []) insertingRun) 0 =
        [[.integer 2], [.integer 1], [.integer 4]] ∧
      ∃ t new, (Script.twoTables.run Script.frontend insertingRun).db.tables[0]? = some t ∧
        t.store.rows = [] ++ new ∧
        new.map Row.values =
          rowsAt (ledger Script.frontend Script.twoTables (fun _ => []) insertingRun) 0 ∧
        t.store.ids.Nodup := by
  refine ⟨by decide +kernel, ?_⟩
  have hrebuild : ∀ t ∈ Script.twoTables.db.tables, t.store.table.Rebuildable := by
    decide +kernel
  have hok : Script.twoTables.Along Script.frontend
      (fun sys event => (sys.perform Script.frontend event).2.isOk = true) insertingRun := by
    decide +kernel
  have hempty : Script.twoTables.db.tables[0]?.map (fun t => t.store.rows) = some [] := by
    decide +kernel
  obtain ⟨t, ht, hrows⟩ := Option.map_eq_some_iff.1 hempty
  rw [← hrows]
  refine (no_insert_lost Script.frontend Script.twoTables_reachable Script.twoTables_atRest
    (fun t ht => ⟨_, TableDef.cloneTableDef_eq_ok.2 ⟨hrebuild t ht, rfl⟩⟩)
    (by simp [insertingRun, Event.Inserts, Script.begin, Script.insert, Script.commit,
      Script.rollback]) (hok.mono fun sys event hev i _ herr => ?_) (by decide +kernel)).2 0 t ht
  rw [herr] at hev
  cases hev

/-! ### The end of the ids -/

/-- A database from a file whose row has the id 2^64 - 3. -/
def nearlyFull : Result Database := do
  Database.initFromSnapshot Script.frontend
    (← Persistence.decodeSnapshot (Persistence.oneRowFile (Persistence.largestId - 2)))

/-- That database, opened. -/
def nearTheEnd : System := System.start (nearlyFull.toOption.getD {})

/-- Two sessions that insert a row each. -/
def lastInserts : List Event :=
  [Script.begin 1, Script.begin 2, Script.insert 1 "t" [some 1], Script.insert 2 "t" [some 2],
    Script.commit 1]

/-- **The second of two commits ends the process**: its row needs the
largest id, and the store takes the successor. -/
theorem ids_run_out :
    nearTheEnd.Reachable Script.frontend ∧ (∀ j, (nearTheEnd.sessions j).active = false) ∧
      (∀ t ∈ nearTheEnd.db.tables, ∃ table, cloneTableDef t.store.table = .ok table) ∧
      (∀ event ∈ lastInserts ++ [Script.commit 2], event.Inserts) ∧
      nearTheEnd.Along Script.frontend (System.Unrefused Script.frontend)
        (lastInserts ++ [Script.commit 2]) ∧
      ((nearTheEnd.run Script.frontend lastInserts).sessions 2).active = true ∧
      ((nearTheEnd.run Script.frontend lastInserts).perform Script.frontend
        (Script.commit 2)).2 = .error (.panic .integerOverflow) := by
  have hdecode : (Persistence.decodeSnapshot
      (Persistence.oneRowFile (Persistence.largestId - 2))).isOk = true := by decide +kernel
  obtain ⟨snapshot, hsnapshot⟩ := exists_ok hdecode
  have hok : nearlyFull.isOk = true := by decide +kernel
  obtain ⟨db, hdb⟩ := exists_ok hok
  have hopened : System.Opened (nearlyFull.toOption.getD {}) := by
    refine @FreshlyOpened.opened Script.frontend _ (.inr ⟨_, snapshot, hsnapshot, ?_⟩)
    rw [hdb]
    rw [nearlyFull, hsnapshot] at hdb
    exact hdb
  have hrebuild : ∀ t ∈ nearTheEnd.db.tables, t.store.table.Rebuildable := by decide +kernel
  have hkept : nearTheEnd.Along Script.frontend (fun sys event =>
      (sys.perform Script.frontend event).2 ≠ .error .snapshotRetentionExceeded)
      (lastInserts ++ [Script.commit 2]) := by decide +kernel
  refine ⟨⟨_, [], hopened, rfl⟩, fun _ => rfl, fun t ht => ⟨_, TableDef.cloneTableDef_eq_ok.2
    ⟨hrebuild t ht, rfl⟩⟩, ?_, hkept.mono fun _ _ h _ _ => h, by decide +kernel, by decide +kernel⟩
  simp [lastInserts, Event.Inserts, Script.begin, Script.insert, Script.commit]

end Shoveler
