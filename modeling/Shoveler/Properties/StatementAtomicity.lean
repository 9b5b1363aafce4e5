import Shoveler.Properties.Atomicity

/-!
# Failed statements

`INSERT`, `UPDATE` and `DELETE` open a table transaction before they know
whether they will succeed, and `UPDATE` and `DELETE` then stage row by row.
An opened transaction with nothing in it is not seen by anybody
(`Opened.scan`, `Opened.commit_tables`), so a statement that fails leaves
no trace as long as it stops before it has staged a row
(`statement_atomic`). One that stops later leaves the rows it has staged.
-/

namespace Shoveler

open Script

/-- **A statement that fails changes nothing**: the session sees of every
table what it saw, and a commit now leaves the rows it would have left
before. -/
def StatementAtomic (frontend : Frontend) (db : Database) (session : Session)
    (statement : Ast.Statement) : Prop :=
  ∀ db' session' err, executeStatement frontend db session statement = (db', session', .error err) →
    (∀ t ∈ db.tables, scanRowsForTable db' session' t = scanRowsForTable db session t) ∧
      (session'.commit db').1.committedRows = (session.commit db).1.committedRows

/-! ## A transaction that is opened and left empty -/

/-- The session itself, or the session with a new transaction for a table
it had none for. -/
inductive Session.Opened (db : Database) (s : Session) : Session → Prop
  | same : Opened db s s
  | opened (slot : ℕ) (table : TableState) :
      table.key ∉ s.transactions.map TableTransaction.key →
      Opened db s
        { s with transactions := s.transactions ++ [⟨table.name, .begin slot table.store⟩] }

namespace Session

variable {db : Database} {s s' : Session}

/-- `transactionFor` gives back the transaction that is there, or opens
one. -/
theorem opened_transactionFor (db : Database) (s : Session) (slot : ℕ) (table : TableState) :
    ∃ s' index e, s.transactionFor slot table = (s', index, e.tx) ∧ Opened db s s' ∧
      s'.transactions[index]? = some e := by
  rcases s.transactionFor_cases slot table with ⟨index, e, he, -, heq⟩ | ⟨hnew, heq⟩
  · exact ⟨s, index, e, heq, .same, he⟩
  · exact ⟨_, _, ⟨table.name, .begin slot table.store⟩, heq, .opened slot table hnew,
      by rw [List.getElem?_concat_length]⟩

/-- A transaction with nothing in it shows the rows below it. -/
theorem scanWithBase_begin (slot : ℕ) (store base : RowStore) (live : Result RowStore) :
    (Transaction.begin slot store).scanWithBase live base = cloneRowsFromStore base := by
  have hall : base.rows.filter (fun row => !(Transaction.begin slot store).isDeleted row.id) =
      base.rows := by
    refine List.filter_eq_self.2 fun row _ => ?_
    simp [Transaction.begin, Transaction.isDeleted]
  have hrows : (base.rows.mapM fun row =>
      ((Transaction.begin slot store).visibleRow row).clone base.table) =
      base.rows.mapM fun row => row.clone base.table := rfl
  unfold Transaction.scanWithBase cloneRowsFromStore
  rw [hall, hrows]
  cases base.rows.mapM fun row => row.clone base.table with
  | error err => rfl
  | ok rows => simp [Transaction.begin, Transaction.ensureActive]

/-- **The session sees what it saw.** -/
theorem Opened.scan (h : Opened db s s') (t : TableState) :
    scanRowsForTable db s' t = scanRowsForTable db s t := by
  cases h with
  | same => rfl
  | opened slot table hnew =>
    unfold scanRowsForTable transactionForRead
    rw [List.find?_append]
    cases hfind : s.transactions.find? fun entry => namesEqual entry.tableName t.name with
    | some e => rfl
    | none =>
      by_cases hname : namesEqual table.name t.name = true
      · -- the new transaction is the one that is found
        simp only [Option.none_or, List.find?_singleton, hname, if_true, Option.map_some,
          Option.map_none, scanWithBase_begin]
        have hsnap : snapshotStoreForRead
            { s with transactions := s.transactions ++ [⟨table.name, .begin slot table.store⟩] }
            db t.name = s.snapshotStoreForRead db t.name := rfl
        rw [baseStoreForRead, hsnap]
        cases s.snapshotStoreForRead db t.name with
        | error err => rfl
        | ok found => cases found <;> rfl
      · simp only [Option.none_or, List.find?_singleton, hname, Option.map_none]
        rfl

/-- Publishing a transaction with nothing in it changes no table. -/
theorem publishAll_append_begin (entries : List TableTransaction) (tables : List TableState)
    (slot : ℕ) (table : TableState) :
    (publishAll (entries ++ [⟨table.name, .begin slot table.store⟩]) tables).1 =
      (publishAll entries tables).1 := by
  induction entries generalizing tables with
  | nil =>
    simp only [List.nil_append, publishAll]
    split
    · rfl
    · rename_i next tx hc
      obtain ⟨-, store, hstore, hpublish, -⟩ := Database.commit_eq_ok.1 hc
      obtain ⟨cloned, hclone, hnext⟩ := Outcome.bind_eq_ok.1 hpublish
      obtain ⟨-, rfl⟩ := RowStore.clone_eq_ok.1 hclone
      obtain rfl := Except.ok.inj hnext
      exact setStore_storeAt hstore
  | cons entry rest ih =>
    rw [List.cons_append, publishAll, publishAll]
    cases entry.tx.commit (storeAt tables entry.tx.slot) with
    | error err => rfl
    | ok result => exact ih (setStore tables entry.tx.slot result.1)

/-- **Where a commit gets as far as publishing**: what it asks of the
database and the session before it looks at what is staged. -/
def Publishing (db : Database) (s : Session) : Prop :=
  s.active = true ∧ (∃ queue, db.commitQueue.enqueue = .ok queue) ∧
    (db.retainCurrentGenerationForActiveSnapshots s.snapshotHandle).2 = .ok ()

/-- The tables after a commit. -/
theorem commit_tables (db : Database) (s : Session) :
    (s.Publishing db → (s.commit db).1.tables = (publishAll s.transactions db.tables).1) ∧
      (¬s.Publishing db → (s.commit db).1.tables = db.tables) := by
  unfold Session.commit
  by_cases ha : s.active = true
  swap
  · rw [if_pos (by simpa using ha)]
    exact ⟨fun h => absurd h.1 ha, fun _ => rfl⟩
  rw [if_neg (by simp [ha])]
  by_cases hempty : s.transactions.isEmpty = true
  · rw [if_pos hempty, List.isEmpty_iff.1 hempty]
    exact ⟨fun _ => rfl, fun _ => rfl⟩
  rw [if_neg hempty]
  cases hq : db.commitQueue.enqueue with
  | error err =>
    refine ⟨fun h => ?_, fun _ => rfl⟩
    obtain ⟨queue, hqueue⟩ := h.2.1
    rw [hq] at hqueue
    cases hqueue
  | ok queue =>
    cases hr : db.retainCurrentGenerationForActiveSnapshots s.snapshotHandle with
    | mk registry outcome =>
      cases outcome with
      | error err =>
        refine ⟨fun h => ?_, fun _ => by simp only⟩
        have hok := h.2.2
        rw [hr] at hok
        cases hok
      | ok =>
        refine ⟨fun _ => ?_, fun h => absurd ⟨ha, ⟨queue, hq⟩, by rw [hr]⟩ h⟩
        simp only
        cases publishAll s.transactions db.tables with
        | mk tables rest =>
          obtain ⟨transactions, outcome⟩ := rest
          cases outcome <;> rfl

/-- **And a commit leaves what it would have left.** -/
theorem Opened.commit_tables (h : Opened db s s') :
    (s'.commit db).1.tables = (s.commit db).1.tables := by
  cases h with
  | same => rfl
  | opened slot table hnew =>
    have hbefore := Session.commit_tables db s
    have hafter := Session.commit_tables db
      { s with transactions := s.transactions ++ [⟨table.name, .begin slot table.store⟩] }
    by_cases hp : s.Publishing db
    · rw [hbefore.1 hp, hafter.1 hp, publishAll_append_begin]
    · rw [hbefore.2 hp, hafter.2 hp]

end Session

/-! ## Statements -/

/-- `INSERT`, `UPDATE` and `DELETE`. -/
def Ast.Statement.Mutates : Ast.Statement → Prop
  | .insert _ | .update _ | .delete _ => True
  | _ => False

/-- No row ahead of the one a loop stops at matches. -/
def StopsUnmatched (table : TableDef) (whereClause : Option Ast.Expression)
    (loop : List Row → Transaction → Transaction × Result ℕ) (rows : List Row) (tx : Transaction) :
    Prop :=
  ∀ done row rest, rows = done ++ row :: rest → (∃ n, (loop done tx).2 = .ok n) →
    (∃ err, (loop (done ++ [row]) tx).2 = .error err) →
    ∀ r ∈ done, matchesWhere table r whereClause = .ok false

/-- **What keeps a statement atomic**: if it stops at a row, then no
visible row ahead of that one matches its `WHERE`. -/
def StopsFirst (db : Database) (session : Session) : Ast.Statement → Prop
  | .update statement =>
    ∀ slot table rows, db.getTableState statement.tableName = some (slot, table) →
      scanRowsForTable db session table = .ok rows →
      StopsUnmatched table.store.table statement.whereClause
        (stageUpdates (storeAt db.tables (session.transactionFor slot table).2.2.slot)
          table.store.table statement)
        rows (session.transactionFor slot table).2.2
  | .delete statement =>
    ∀ slot table rows, db.getTableState statement.tableName = some (slot, table) →
      scanRowsForTable db session table = .ok rows →
      StopsUnmatched table.store.table statement.whereClause
        (stageDeletes (storeAt db.tables (session.transactionFor slot table).2.2.slot)
          table.store.table statement.whereClause)
        rows (session.transactionFor slot table).2.2
  | _ => True

section Failures

variable {db : Database} {session session' : Session} {err : Error}

/-- A loop that stops where nothing matched before leaves the transaction
as it was. -/
theorem StopsUnmatched.stageUpdates {store : Result RowStore} {table : TableDef}
    {statement : Ast.UpdateStatement} {rows : List Row} {tx : Transaction}
    (h : StopsUnmatched table statement.whereClause (Shoveler.stageUpdates store table statement)
      rows tx) (herr : (Shoveler.stageUpdates store table statement rows tx).2 = .error err) :
    (Shoveler.stageUpdates store table statement rows tx).1 = tx := by
  simp only [StopsUnmatched, stageUpdates_eq_sweep] at h herr ⊢
  refine Sweep.of_stopped herr fun done row rest hsplit hok hstop r hr => ?_
  exact updateStep_of_unmatched store table (h done row rest hsplit hok hstop r hr) tx

theorem StopsUnmatched.stageDeletes {store : Result RowStore} {table : TableDef}
    {whereClause : Option Ast.Expression} {rows : List Row} {tx : Transaction}
    (h : StopsUnmatched table whereClause (Shoveler.stageDeletes store table whereClause) rows tx)
    (herr : (Shoveler.stageDeletes store table whereClause rows tx).2 = .error err) :
    (Shoveler.stageDeletes store table whereClause rows tx).1 = tx := by
  simp only [StopsUnmatched, stageDeletes_eq_sweep] at h herr ⊢
  refine Sweep.of_stopped herr fun done row rest hsplit hok hstop r hr => ?_
  exact deleteStep_of_unmatched store table (h done row rest hsplit hok hstop r hr) tx

/-- An `INSERT` that fails has at most opened a transaction. -/
theorem opened_of_executeInsert {statement : Ast.InsertStatement}
    (h : executeInsert db session statement = (session', .error err)) :
    Session.Opened db session session' := by
  unfold executeInsert at h
  split at h
  · obtain ⟨rfl, -⟩ := Prod.mk.inj h
    exact .same
  · split at h
    · obtain ⟨rfl, -⟩ := Prod.mk.inj h
      exact .same
    · rename_i slot table ht
      obtain ⟨opened, index, e, heq, hopened, he⟩ :=
        Session.opened_transactionFor db session slot table
      simp only [heq] at h
      split at h
      · obtain ⟨rfl, -⟩ := Prod.mk.inj h
        exact hopened
      · split at h
        · obtain ⟨rfl, -⟩ := Prod.mk.inj h
          exact hopened
        · cases (Prod.mk.inj h).2

/-- So have `UPDATE` and `DELETE` where the loop, when it fails, leaves the
transaction as it was. -/
theorem opened_of_stageRows {tableName : Bytes}
    {loop : Result RowStore → TableDef → List Row → Transaction → Transaction × Result ℕ}
    (h : stageRows db session tableName loop = (session', .error err))
    (hloop : ∀ slot table rows, db.getTableState tableName = some (slot, table) →
      scanRowsForTable db session table = .ok rows →
      ∀ err, (loop (storeAt db.tables (session.transactionFor slot table).2.2.slot)
          table.store.table rows (session.transactionFor slot table).2.2).2 = .error err →
        (loop (storeAt db.tables (session.transactionFor slot table).2.2.slot)
          table.store.table rows (session.transactionFor slot table).2.2).1 =
          (session.transactionFor slot table).2.2) :
    Session.Opened db session session' := by
  unfold stageRows at h
  split at h
  · obtain ⟨rfl, -⟩ := Prod.mk.inj h
    exact .same
  · split at h
    · obtain ⟨rfl, -⟩ := Prod.mk.inj h
      exact .same
    · rename_i slot table ht
      have hkeep := fun rows => hloop slot table rows ht
      obtain ⟨opened, index, e, heq, hopened, he⟩ :=
        Session.opened_transactionFor db session slot table
      simp only [heq] at h hkeep
      rw [hopened.scan] at h
      split at h
      · obtain ⟨rfl, -⟩ := Prod.mk.inj h
        exact hopened
      · rename_i rows hscan
        obtain ⟨rfl, hout⟩ := Prod.mk.inj h
        rw [hkeep rows hscan err hout, Session.setTransaction_self he]
        exact hopened

/-- What was only opened is not seen. -/
theorem Session.Opened.atomic (h : Session.Opened db session session') :
    (∀ t ∈ db.tables, scanRowsForTable db session' t = scanRowsForTable db session t) ∧
      (session'.commit db).1.committedRows = (session.commit db).1.committedRows := by
  refine ⟨fun t _ => h.scan t, ?_⟩
  rw [Database.committedRows, Database.committedRows, h.commit_tables]

end Failures

/-- **An `INSERT` that fails changes nothing, and so does an `UPDATE` or
`DELETE` that stops before it has staged a row**, in every state. -/
theorem statement_atomic (frontend : Frontend) (db : Database) (session : Session)
    {statement : Ast.Statement} (hmut : statement.Mutates)
    (hfirst : StopsFirst db session statement) :
    StatementAtomic frontend db session statement := by
  intro db' session' err h
  have hmap : ∀ r : Session × Result ℕ,
      staged db (r.1, r.2.map ExecutionResult.mutationCount) = (db', session', .error err) →
      db' = db ∧ r = (session', .error err) := by
    intro r hr
    obtain ⟨hdb, hrest⟩ := Prod.mk.inj hr
    obtain ⟨hsession, hmapped⟩ := Prod.mk.inj hrest
    refine ⟨hdb.symm, Prod.ext hsession ?_⟩
    simp only at hmapped
    cases hout : r.2 with
    | error e =>
      rw [hout] at hmapped
      exact congrArg _ (Except.error.inj hmapped)
    | ok n =>
      rw [hout] at hmapped
      cases hmapped
  cases statement with
  | insert statement =>
    obtain ⟨rfl, h⟩ := hmap (executeInsert db session statement) h
    exact (opened_of_executeInsert h).atomic
  | update statement =>
    obtain ⟨rfl, h⟩ := hmap (executeUpdate db session statement) h
    refine (opened_of_stageRows h fun slot table rows ht hscan e he => ?_).atomic
    exact (hfirst slot table rows ht hscan).stageUpdates he
  | delete statement =>
    obtain ⟨rfl, h⟩ := hmap (executeDelete db session statement) h
    refine (opened_of_stageRows h fun slot table rows ht hscan e he => ?_).atomic
    exact (hfirst slot table rows ht hscan).stageDeletes he
  | select | begin | commit | rollback | createTable | dropTable | createView | dropView
  | createProcedure | dropProcedure | call => exact hmut.elim

/-! ### Statements that fail -/

/-- `UPDATE A SET v = 5 WHERE v < 10`, which fails on a `NULL`. -/
def raiseBelowTen : Ast.UpdateStatement where
  tableName := ascii "A"
  assignments := [⟨ascii "v", literal (some 5)⟩]
  whereClause := some (.binary (.identifier (ascii "v")) .lessThan (literal (some 10)))

/-- `A` holds two rows, and session 1 begins. -/
def filled (first second : Option Int64) : System :=
  twoTables.run frontend
    [begin 0, insert 0 "A" [first], insert 0 "A" [second], commit 0,
      begin 1]

/-- Where the `NULL` comes first nothing is staged. -/
theorem statement_atomic_null_first :
    (executeUpdate (filled none (some 1)).db ((filled none (some 1)).sessions 1) raiseBelowTen).2 =
        .error .typeMismatch ∧
      StatementAtomic Script.frontend (filled none (some 1)).db ((filled none (some 1)).sessions 1)
        (.update raiseBelowTen) := by
  refine ⟨by decide +kernel, statement_atomic _ _ _ trivial ?_⟩
  intro slot table rows ht hscan done row rest hsplit hok _ r hr
  have hrows : ((filled none (some 1)).db.getTableState (ascii "A")).map (fun found =>
      scanRowsForTable (filled none (some 1)).db ((filled none (some 1)).sessions 1) found.2) =
      some (.ok [⟨1, [.null]⟩, ⟨2, [.integer 1]⟩]) := by
    decide +kernel
  have hfails : ((filled none (some 1)).db.getTableState (ascii "A")).map (fun found =>
      updatedValues found.2.store.table raiseBelowTen ⟨1, [.null]⟩) =
      some (.error .typeMismatch) := by
    decide +kernel
  rw [show (ascii "A") = raiseBelowTen.tableName from rfl, ht] at hrows hfails
  simp only [Option.map_some, hscan, Option.some.injEq, Except.ok.injEq] at hrows hfails
  -- the loop does not get past the first row
  cases done with
  | nil => cases hr
  | cons d done =>
    rw [hrows, List.cons_append] at hsplit
    obtain ⟨rfl, -⟩ := List.cons.inj hsplit
    obtain ⟨n, hok⟩ := hok
    rw [stageUpdates, hfails] at hok
    cases hok

/-- **Where the `NULL` comes second the statement fails and the first row
is changed.** -/
theorem statement_stages_half :
    (executeUpdate (filled (some 1) none).db ((filled (some 1) none).sessions 1) raiseBelowTen).2 =
        .error .typeMismatch ∧
      (filled (some 1) none).db.tables.map (fun t => scanRowsForTable (filled (some 1) none).db
        ((filled (some 1) none).sessions 1) t) =
        [.ok [⟨1, [.integer 1]⟩, ⟨2, [.null]⟩], .ok []] ∧
      (filled (some 1) none).db.tables.map (fun t => scanRowsForTable (filled (some 1) none).db
        (executeUpdate (filled (some 1) none).db ((filled (some 1) none).sessions 1)
          raiseBelowTen).1 t) =
        [.ok [⟨1, [.integer 5]⟩, ⟨2, [.null]⟩], .ok []] := by
  decide +kernel

end Shoveler
