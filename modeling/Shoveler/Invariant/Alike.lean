import Shoveler.Invariant.StagingRule

/-!
# Sessions that see alike

Two sessions, of one database or of two, that stage the same changes and
read the same rows below them. Their databases may differ in all that a
statement which reads and stages does not look at: generations, sequence
numbers, retained stores that are not read. It does not even matter
whether a store that is read is retained or live (`ReadsAlike`). Such a
statement gives both the same answer and stages the same for both
(`executeDml`), and so does a whole procedure body
(`executeProcedureBody`).
-/

namespace Shoveler

/-- **Two sessions see alike**, each in its own database. -/
structure SeesAlike (db : Database) (s : Session) (db' : Database) (s' : Session) : Prop where
  tables : db'.tables = db.tables
  views : db'.views = db.views
  active : s'.active = s.active
  transactions : s'.transactions = s.transactions
  reads : ∀ name, s'.snapshotStoreForRead db' name = s.snapshotStoreForRead db name

/-- The same answer, and sessions that still see alike. -/
def AnswersAlike {α : Type} (db : Database) (r : Session × α) (db' : Database)
    (r' : Session × α) : Prop :=
  r'.2 = r.2 ∧ SeesAlike db r.1 db' r'.1

/-- **Two sessions read alike**, each in its own database: what lies below
their changes is the same for every table, wherever it is kept. -/
structure ReadsAlike (db : Database) (s : Session) (db' : Database) (s' : Session) : Prop where
  tables : db'.tables = db.tables
  views : db'.views = db.views
  active : s'.active = s.active
  transactions : s'.transactions = s.transactions
  reads : ∀ t ∈ db.tables, s'.baseStoreForRead db' t = s.baseStoreForRead db t

/-- The same answer, and the same changes staged by both sessions, which
stay as they are otherwise. -/
def StagesAlike {α : Type} (s : Session) (r : Session × α) (s' : Session) (r' : Session × α) :
    Prop :=
  r'.2 = r.2 ∧ ∃ staged, r.1 = { s with transactions := staged } ∧
    r'.1 = { s' with transactions := staged }

namespace StagesAlike

variable {α β : Type} {s s' : Session} {r r' : Session × α}

/-- An answer without a change. -/
theorem answer (h : s'.transactions = s.transactions) (answer : α) :
    StagesAlike s (s, answer) s' (s', answer) := by
  refine ⟨rfl, s.transactions, rfl, ?_⟩
  rw [← h]

/-- The two results, with the answer and the changes they share. -/
theorem split (h : StagesAlike s r s' r') :
    ∃ staged answer, r = ({ s with transactions := staged }, answer) ∧
      r' = ({ s' with transactions := staged }, answer) := by
  obtain ⟨hanswer, staged, hs, hs'⟩ := h
  exact ⟨staged, r.2, Prod.ext hs rfl, Prod.ext hs' hanswer⟩

/-- What is made of the answers is alike. -/
theorem map (h : StagesAlike s r s' r') (f : α → β) :
    StagesAlike s (r.1, f r.2) s' (r'.1, f r'.2) :=
  ⟨congrArg f h.1, h.2⟩

end StagesAlike

/-- A scan reads the session's base, with a transaction or without. -/
theorem scanRowsForTable_eq (db : Database) (s : Session) (t : TableState) :
    scanRowsForTable db s t = (do
      let base ← s.baseStoreForRead db t
      match s.transactionForRead t.name with
      | some tx => tx.scanWithBase (storeAt db.tables tx.slot) base
      | none => cloneRowsFromStore base) := by
  unfold scanRowsForTable Session.baseStoreForRead
  cases s.transactionForRead t.name with
  | some tx => rfl
  | none =>
    cases s.snapshotStoreForRead db t.name with
    | error e => rfl
    | ok found => cases found <;> rfl

namespace ReadsAlike

variable {db db' : Database} {s s' : Session}

/-! ## Reading -/

theorem getTableState (h : ReadsAlike db s db' s') (name : Bytes) :
    db'.getTableState name = db.getTableState name := by
  unfold Database.getTableState Database.findTableStateIndex
  rw [h.tables]

theorem transactionForRead (h : ReadsAlike db s db' s') (name : Bytes) :
    s'.transactionForRead name = s.transactionForRead name := by
  unfold Session.transactionForRead
  rw [h.transactions]

theorem scanRowsForTable (h : ReadsAlike db s db' s') {t : TableState} (ht : t ∈ db.tables) :
    Shoveler.scanRowsForTable db' s' t = Shoveler.scanRowsForTable db s t := by
  rw [scanRowsForTable_eq, scanRowsForTable_eq, h.transactionForRead, h.reads t ht, h.tables]

theorem executeSelect (h : ReadsAlike db s db' s') (frontend : Frontend)
    (statement : Ast.SelectStatement) :
    Shoveler.executeSelect frontend db' s' statement =
      Shoveler.executeSelect frontend db s statement := by
  have hload : loadBaseTable db' s' = loadBaseTable db s := by
    funext name
    unfold loadBaseTable
    rw [h.getTableState]
    cases hfound : db.getTableState name with
    | none => rfl
    | some found =>
      have hslot := (Database.getTableState_eq_some hfound).2.1
      simp only [h.scanRowsForTable (List.mem_of_getElem? hslot)]
  have hview : findView db' = findView db := by
    funext name
    unfold findView
    rw [h.views]
  unfold Shoveler.executeSelect
  rw [hload, hview]

/-! ## Staging -/

/-- Both sessions with the same transactions. -/
theorem withTransactions (h : ReadsAlike db s db' s') (transactions : List TableTransaction) :
    ReadsAlike db { s with transactions := transactions } db'
      { s' with transactions := transactions } :=
  ⟨h.tables, h.views, h.active, rfl, h.reads⟩

theorem transactionFor (h : ReadsAlike db s db' s') (slot : ℕ) (table : TableState) :
    ∃ opened index tx,
      s.transactionFor slot table = ({ s with transactions := opened }, index, tx) ∧
      s'.transactionFor slot table = ({ s' with transactions := opened }, index, tx) := by
  unfold Session.transactionFor Session.findTransactionIndex
  rw [h.transactionForRead, h.transactions]
  split
  · refine ⟨s.transactions, _, _, rfl, ?_⟩
    rw [← h.transactions]
  · exact ⟨_, _, _, rfl, rfl⟩

theorem executeInsert (h : ReadsAlike db s db' s') (statement : Ast.InsertStatement) :
    StagesAlike s (Shoveler.executeInsert db s statement) s'
      (Shoveler.executeInsert db' s' statement) := by
  unfold Shoveler.executeInsert
  rw [h.active, h.getTableState, h.tables]
  split
  · exact .answer h.transactions _
  · cases db.getTableState statement.tableName with
    | none => exact .answer h.transactions _
    | some found =>
      obtain ⟨slot, table⟩ := found
      obtain ⟨opened, index, tx, hs, hs'⟩ := h.transactionFor slot table
      simp only [hs, hs']
      split
      · exact ⟨rfl, _, rfl, rfl⟩
      · split
        · exact ⟨rfl, _, rfl, rfl⟩
        · exact ⟨rfl, _, rfl, rfl⟩

theorem stageRows (h : ReadsAlike db s db' s') (tableName : Bytes)
    (loop : Result RowStore → TableDef → List Row → Transaction → Transaction × Result ℕ) :
    StagesAlike s (Shoveler.stageRows db s tableName loop) s'
      (Shoveler.stageRows db' s' tableName loop) := by
  unfold Shoveler.stageRows
  rw [h.active, h.getTableState, h.tables]
  split
  · exact .answer h.transactions _
  · cases hfound : db.getTableState tableName with
    | none => exact .answer h.transactions _
    | some found =>
      obtain ⟨slot, table⟩ := found
      have hmem := List.mem_of_getElem? (Database.getTableState_eq_some hfound).2.1
      obtain ⟨opened, index, tx, hs, hs'⟩ := h.transactionFor slot table
      simp only [hs, hs', (h.withTransactions opened).scanRowsForTable hmem]
      split
      · exact ⟨rfl, _, rfl, rfl⟩
      · exact ⟨rfl, _, rfl, rfl⟩

/-- **A statement that reads and stages** answers both alike. -/
theorem executeDml (h : ReadsAlike db s db' s') (frontend : Frontend) (statement : Ast.Statement) :
    StagesAlike s (Shoveler.executeDml frontend db s statement) s'
      (Shoveler.executeDml frontend db' s' statement) := by
  cases statement with
  | insert statement => exact (h.executeInsert statement).map _
  | update statement =>
    exact (h.stageRows statement.tableName fun store table =>
      stageUpdates store table statement).map _
  | delete statement =>
    exact (h.stageRows statement.tableName fun store table =>
      stageDeletes store table statement.whereClause).map _
  | select statement =>
    have hanswer := StagesAlike.answer h.transactions
      ((Shoveler.executeSelect frontend db s statement).map ExecutionResult.resultSet)
    rw [Shoveler.executeDml, Shoveler.executeDml, h.executeSelect]
    exact hanswer
  | begin | commit | rollback | createTable | dropTable | createView | dropView
  | createProcedure | dropProcedure | call => exact .answer h.transactions _

/-- **A call** of a procedure both databases find. -/
theorem executeCall (h : ReadsAlike db s db' s') (frontend : Frontend) (call : Ast.CallStatement)
    (hfind : (db'.procedures.find? fun stored => namesEqual stored.name call.name) =
      db.procedures.find? fun stored => namesEqual stored.name call.name) :
    StagesAlike s (Shoveler.executeCall frontend db s call) s'
      (Shoveler.executeCall frontend db' s' call) := by
  refine Answers.executeCall (G := fun _ => True) (A := fun t t' => ∃ staged,
      t = { s with transactions := staged } ∧ t' = { s' with transactions := staged })
    (fun _ ht => ?_) (fun _ _ => trivial) hfind (fun _ _ _ _ => trivial)
    (StagesAlike.answer h.transactions ()).2
  obtain ⟨staged, rfl, rfl⟩ := ht
  exact (h.withTransactions staged).executeDml frontend _

end ReadsAlike

namespace SeesAlike

variable {db db' : Database} {s s' : Session}

theorem readsAlike (h : SeesAlike db s db' s') : ReadsAlike db s db' s' := by
  refine ⟨h.tables, h.views, h.active, h.transactions, fun t _ => ?_⟩
  rw [Session.baseStoreForRead, Session.baseStoreForRead, h.reads]

/-- **A call** of a procedure both databases find. -/
theorem executeCall (h : SeesAlike db s db' s') (frontend : Frontend) (call : Ast.CallStatement)
    (hfind : (db'.procedures.find? fun stored => namesEqual stored.name call.name) =
      db.procedures.find? fun stored => namesEqual stored.name call.name) :
    AnswersAlike db (Shoveler.executeCall frontend db s call) db'
      (Shoveler.executeCall frontend db' s' call) := by
  obtain ⟨staged, answer, hs, hs'⟩ := (h.readsAlike.executeCall frontend call hfind).split
  rw [hs, hs']
  exact ⟨rfl, h.tables, h.views, h.active, rfl, h.reads⟩

end SeesAlike

end Shoveler
