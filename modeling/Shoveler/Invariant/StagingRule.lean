import Shoveler.Invariant.Loops
import Shoveler.Model.Statement

/-!
# A rule for the statements that stage

`INSERT`, `UPDATE`, `DELETE`, `SELECT` and `CALL` only change what a
session has staged, and they do it by the same small steps: a transaction
is opened for a table, a row is inserted, a visible row is updated or
deleted. A property of sessions that each of these steps keeps
(`GuardedRule`) is kept by every such statement, through the loops over
the visible rows and through the body of a procedure with its branches
and loops (`GuardedRule.executeDml`, `GuardedRule.executeCall`). Most
properties are kept whatever the statement is (`StagingRule`).
-/

namespace Shoveler

open Outcome List

variable {table : TableState} {tx tx' : Transaction}

/-! ## Taking the session apart -/

/-- What a table name finds. -/
theorem Database.getTableState_eq_some {db : Database} {name : Bytes} {slot : ℕ}
    (h : db.getTableState name = some (slot, table)) :
    db.findTableStateIndex name = some slot ∧ db.tables[slot]? = some table ∧
      table.key = foldCase name := by
  unfold Database.getTableState at h
  cases hi : db.findTableStateIndex name with
  | none =>
    rw [hi] at h
    cases h
  | some i =>
    simp only [hi, Option.map_eq_some_iff, Prod.mk.injEq] at h
    obtain ⟨t, ht, rfl, rfl⟩ := h
    have hname := find?_some ((Keyed.getElem?_findIdx? hi).symm.trans ht)
    exact ⟨rfl, ht, namesEqual_iff.1 hname⟩

namespace Session

variable {session : Session} {index : ℕ} {e : TableTransaction}

/-- **The transaction a session has for a table**: the one it holds, or a
fresh one at the end. -/
theorem transactionFor_cases (session : Session) (slot : ℕ) (table : TableState) :
    (∃ index e, session.transactions[index]? = some e ∧ e.key = table.key ∧
        session.transactionFor slot table = (session, index, e.tx)) ∨
      table.key ∉ session.transactions.map TableTransaction.key ∧
        session.transactionFor slot table =
          ({ session with
              transactions := session.transactions ++ [⟨table.name, .begin slot table.store⟩] },
            session.transactions.length, .begin slot table.store) := by
  unfold transactionFor
  cases hi : session.findTransactionIndex table.name with
  | none =>
    have hnot : table.key ∉ session.transactions.map TableTransaction.key :=
      Keyed.findIdx?_eq_none.1 hi
    exact Or.inr ⟨hnot, rfl⟩
  | some i =>
    have hget := Keyed.getElem?_findIdx? hi
    cases hfind : session.transactions.find? (fun entry => namesEqual entry.tableName table.name) with
    | none =>
      have hmem : table.key ∈ session.transactions.map TableTransaction.key :=
        Keyed.isSome_findIdx?.1 (by rw [findTransactionIndex] at hi; exact hi ▸ rfl)
      exact (Keyed.find?_eq_none.1 hfind hmem).elim
    | some e =>
      have hread : session.transactionForRead table.name = some e.tx := by
        rw [transactionForRead, hfind]
        rfl
      have hname := find?_some hfind
      refine Or.inl ⟨i, e, hget.trans hfind, namesEqual_iff.1 hname, ?_⟩
      rw [hread]

theorem setTransaction_self (he : session.transactions[index]? = some e) :
    session.setTransaction index e.tx = session := by
  have hself : session.transactions.modify index (fun entry => { entry with tx := e.tx }) =
      session.transactions := by
    refine ext_getElem? fun k => ?_
    rw [getElem?_modify]
    by_cases hk : index = k
    · subst hk
      rw [he]
      simp
    · simp [hk]
  rw [setTransaction, hself]

theorem getElem?_setTransaction (he : session.transactions[index]? = some e) (tx : Transaction) :
    (session.setTransaction index tx).transactions[index]? = some { e with tx := tx } := by
  rw [setTransaction, getElem?_modify_eq, he]
  rfl

theorem setTransaction_setTransaction (tx tx' : Transaction) :
    (session.setTransaction index tx).setTransaction index tx' = session.setTransaction index tx' := by
  unfold setTransaction
  congr 1
  refine ext_getElem? fun k => ?_
  rw [getElem?_modify, getElem?_modify, getElem?_modify]
  by_cases hk : index = k
  · simp [hk, Function.comp_def]
  · simp [hk]

/-- Changing a transaction changes no name. -/
theorem map_key_setTransaction (tx : Transaction) :
    (session.setTransaction index tx).transactions.map TableTransaction.key =
      session.transactions.map TableTransaction.key := by
  rw [setTransaction]
  refine ext_getElem? fun k => ?_
  rw [getElem?_map, getElem?_map, getElem?_modify, Option.map_eq_map, Option.map_map]
  congr 1
  refine funext fun entry => ?_
  rw [Function.comp_apply]
  split <;> rfl

/-- A transaction after one was changed is that one or was there before. -/
theorem mem_setTransaction (he : session.transactions[index]? = some e) {e' : TableTransaction}
    (h : e' ∈ (session.setTransaction index tx).transactions) :
    e' = { e with tx := tx } ∨ e' ∈ session.transactions := by
  obtain ⟨k, hk⟩ := mem_iff_getElem?.1 h
  by_cases hi : index = k
  · subst hi
    rw [getElem?_setTransaction he, Option.some.injEq] at hk
    exact Or.inl hk.symm
  · rw [setTransaction, getElem?_modify_ne _ _ hi] at hk
    exact Or.inr (mem_of_getElem? hk)

end Session

/-- The operations of a transaction leave its slot and its state alone. -/
theorem Transaction.insert_frame {store : Result RowStore} {id : RowId} {values : List Value}
    (h : tx.insert store values = .ok (id, tx')) :
    tx'.slot = tx.slot ∧ tx'.state = tx.state := by
  unfold Transaction.insert at h
  simp only [bind_eq_ok] at h
  obtain ⟨⟨⟩, -, s, -, row, -, n, -, h⟩ := h
  obtain ⟨rfl, rfl⟩ := Prod.mk.inj (Except.ok.inj h)
  exact ⟨rfl, rfl⟩

theorem Transaction.update_frame {store : Result RowStore} {id : RowId} {values : List Value}
    (h : tx.update store id values = .ok tx') :
    tx'.slot = tx.slot ∧ tx'.state = tx.state := by
  unfold Transaction.update at h
  obtain ⟨⟨⟩, -, h⟩ := bind_eq_ok.1 h
  split at h
  · simp only [bind_eq_ok] at h
    obtain ⟨s, -, row, -, h⟩ := h
    obtain rfl := Except.ok.inj h
    exact ⟨rfl, rfl⟩
  · unfold Transaction.updateCommitted at h
    obtain ⟨-, h⟩ := ite_error_eq_ok.1 h
    obtain ⟨s, -, h⟩ := bind_eq_ok.1 h
    split at h
    · cases h
    · obtain ⟨row, -, h⟩ := bind_eq_ok.1 h
      obtain rfl := Except.ok.inj h
      exact ⟨rfl, rfl⟩

theorem Transaction.delete_frame {store : Result RowStore} {id : RowId}
    (h : tx.delete store id = .ok tx') : tx'.slot = tx.slot ∧ tx'.state = tx.state := by
  unfold Transaction.delete at h
  obtain ⟨⟨⟩, -, h⟩ := bind_eq_ok.1 h
  split at h
  · obtain rfl := Except.ok.inj h
    exact ⟨rfl, rfl⟩
  · unfold Transaction.deleteCommitted at h
    obtain ⟨s, -, h⟩ := bind_eq_ok.1 h
    obtain ⟨-, h⟩ := ite_error_eq_ok.1 h
    obtain rfl := Except.ok.inj h
    exact ⟨rfl, rfl⟩

/-! ## The rule -/

/-- **What a property of sessions has to be kept by**, apart from the values
that are staged. `P` is the property, `I` what the loops of `UPDATE` and
`DELETE` carry along about the rows they have still to visit. -/
structure LoopRule (db : Database) (P : Session → Prop)
    (I : TableState → ℕ → List Row → Session → Prop) : Prop where
  opens : ∀ {session slot table name}, P session → session.active = true →
    db.getTableState name = some (slot, table) →
    table.key ∉ session.transactions.map TableTransaction.key →
    P { session with
      transactions := session.transactions ++ [⟨table.name, .begin slot table.store⟩] }
  scans : ∀ {session slot table name index e rows}, P session → session.active = true →
    db.getTableState name = some (slot, table) → session.transactions[index]? = some e →
    e.key = table.key → scanRowsForTable db session table = .ok rows → I table index rows session
  skips : ∀ {session table index row rows}, I table index (row :: rows) session →
    I table index rows session
  deletes : ∀ {session table index e row rows tx'}, I table index (row :: rows) session →
    session.transactions[index]? = some e →
    e.tx.delete (storeAt db.tables e.tx.slot) row.id = .ok tx' →
    I table index rows (session.setTransaction index tx')
  ends : ∀ {session table index rows}, I table index rows session → P session

/-- **And by inserts and updates**, where the statements that stage are known
to meet a condition `G`. -/
structure GuardedRule (db : Database) (G : Ast.Statement → Prop) (P : Session → Prop)
    (I : TableState → ℕ → List Row → Session → Prop) : Prop extends LoopRule db P I where
  inserts : ∀ {session slot table index e statement values id tx'}, G (.insert statement) →
    P session → session.active = true →
    db.getTableState statement.tableName = some (slot, table) →
    session.transactions[index]? = some e → e.key = table.key →
    rowValuesForInsert table.store.table statement e.tx.nextId = .ok values →
    e.tx.insert (storeAt db.tables e.tx.slot) values = .ok (id, tx') →
    P (session.setTransaction index tx')
  updates : ∀ {session table index e row rows statement values tx'}, G (.update statement) →
    table.key = foldCase statement.tableName → I table index (row :: rows) session →
    session.transactions[index]? = some e →
    applyAssignments table.store.table row statement.assignments row.values = .ok values →
    e.tx.update (storeAt db.tables e.tx.slot) row.id values = .ok tx' →
    I table index rows (session.setTransaction index tx')

/-! ## The SQL statements of a procedure -/

mutual

/-- The SQL statements of a procedure body, those of its branches and loops
among them. -/
def ProcedureBody.performed : List ProcedureBody.Statement → List Ast.Statement
  | [] => []
  | statement :: rest => performedBy statement ++ performed rest

/-- The SQL statements of one statement of a body. -/
def ProcedureBody.performedBy : ProcedureBody.Statement → List Ast.Statement
  | .declareVar _ _ => []
  | .setVar _ _ => []
  | .sql statement => [statement]
  | .ifStatement _ thenBody elseBody => performed thenBody ++ performed elseBody
  | .whileStatement _ body => performed body

end

/-- The condition on the statements that a call runs. -/
def CallMeets (db : Database) (G : Ast.Statement → Prop) (call : Ast.CallStatement) : Prop :=
  ∀ stored, (db.procedures.find? fun stored => namesEqual stored.name call.name) = some stored →
    ∀ statement ∈ ProcedureBody.performed stored.body, G statement

/-- A condition that does not look at the values a statement works with. -/
def Materializes (G : Ast.Statement → Prop) : Prop :=
  ∀ {env statement materialized},
    materializeProcedureStatement env statement = .ok materialized → G statement → G materialized

/-! ## Procedures -/

/-- **The same answer from two sessions**, which stay related. -/
def Answers {α : Type} (A : Session → Session → Prop) (r r' : Session × α) : Prop :=
  r'.2 = r.2 ∧ A r.1 r'.1

namespace Answers

variable {α β : Type} {A : Session → Session → Prop} {s s' : Session}

theorem map {r r' : Session × α} (h : Answers A r r') (f : α → β) :
    Answers A (r.1, f r.2) (r'.1, f r'.2) :=
  ⟨congrArg f h.1, h.2⟩

/-- Rounds that answer alike make loops that do. -/
theorem whileLoop {condition : Ast.Expression}
    {body body' : Session → ProcedureEnv → Session × Result (ProcedureEnv × ℕ)}
    (hbody : ∀ s s' env, A s s' → Answers A (body s env) (body' s' env)) (remaining : ℕ)
    (env : ProcedureEnv) (h : A s s') :
    Answers A (Shoveler.whileLoop condition body remaining s env)
      (Shoveler.whileLoop condition body' remaining s' env) := by
  induction remaining generalizing s s' env with
  | zero =>
    unfold Shoveler.whileLoop
    cases evalCondition env condition with
    | error err => exact ⟨rfl, h⟩
    | ok holds => cases holds <;> exact ⟨rfl, h⟩
  | succ remaining ih =>
    unfold Shoveler.whileLoop
    cases evalCondition env condition with
    | error err => exact ⟨rfl, h⟩
    | ok holds =>
      cases holds with
      | false => exact ⟨rfl, h⟩
      | true =>
        have hround := hbody s s' env h
        generalize body s env = r, body' s' env = r' at hround ⊢
        obtain ⟨t, outcome⟩ := r
        obtain ⟨t', outcome'⟩ := r'
        obtain ⟨rfl : outcome' = outcome, ht⟩ := hround
        cases outcome' with
        | error err => exact ⟨rfl, ht⟩
        | ok result => exact (ih result.1 ht).map _

variable {db db' : Database} {frontend : Frontend} {G : Ast.Statement → Prop}
variable (hdml : ∀ {s s' statement}, G statement → A s s' →
  Answers A (executeDml frontend db s statement) (executeDml frontend db' s' statement))
variable (hmat : Materializes G)

include hdml hmat

set_option linter.unusedSectionVars false in
mutual

/-- **What each statement keeps, a procedure body keeps.** -/
theorem executeProcedureBody :
    ∀ (body : List ProcedureBody.Statement) {s s' : Session} (env : ProcedureEnv),
      (∀ statement ∈ ProcedureBody.performed body, G statement) → A s s' →
      Answers A (Shoveler.executeProcedureBody frontend db body s env)
        (Shoveler.executeProcedureBody frontend db' body s' env)
  | [], s, s', env, _, h => by
    rw [Shoveler.executeProcedureBody, Shoveler.executeProcedureBody]
    exact ⟨rfl, h⟩
  | statement :: rest, s, s', env, hG, h => by
    rw [ProcedureBody.performed, forall_mem_append] at hG
    have hfirst := executeProcedureStatement statement env hG.1 h
    rw [Shoveler.executeProcedureBody, Shoveler.executeProcedureBody]
    generalize Shoveler.executeProcedureStatement frontend db statement s env = r,
      Shoveler.executeProcedureStatement frontend db' statement s' env = r' at hfirst ⊢
    obtain ⟨t, outcome⟩ := r
    obtain ⟨t', outcome'⟩ := r'
    obtain ⟨rfl : outcome' = outcome, ht⟩ := hfirst
    cases outcome' with
    | error err => exact ⟨rfl, ht⟩
    | ok result => exact (executeProcedureBody rest result.1 hG.2 ht).map _

/-- And so does one of its statements. -/
theorem executeProcedureStatement :
    ∀ (statement : ProcedureBody.Statement) {s s' : Session} (env : ProcedureEnv),
      (∀ performed ∈ ProcedureBody.performedBy statement, G performed) → A s s' →
      Answers A (Shoveler.executeProcedureStatement frontend db statement s env)
        (Shoveler.executeProcedureStatement frontend db' statement s' env)
  | .declareVar name defaultValue, s, s', env, _, h => by
    rw [Shoveler.executeProcedureStatement, Shoveler.executeProcedureStatement]
    exact ⟨rfl, h⟩
  | .setVar name value, s, s', env, _, h => by
    rw [Shoveler.executeProcedureStatement, Shoveler.executeProcedureStatement]
    exact ⟨rfl, h⟩
  | .sql statement, s, s', env, hG, h => by
    rw [ProcedureBody.performedBy, forall_mem_singleton] at hG
    rw [Shoveler.executeProcedureStatement, Shoveler.executeProcedureStatement]
    cases hm : materializeProcedureStatement env statement with
    | error err => exact ⟨rfl, h⟩
    | ok materialized => exact (hdml (hmat hm hG) h).map _
  | .ifStatement condition thenBody elseBody, s, s', env, hG, h => by
    rw [ProcedureBody.performedBy, forall_mem_append] at hG
    rw [Shoveler.executeProcedureStatement, Shoveler.executeProcedureStatement]
    cases evalCondition env condition with
    | error err => exact ⟨rfl, h⟩
    | ok holds =>
      cases holds with
      | true => exact executeProcedureBody thenBody env hG.1 h
      | false => exact executeProcedureBody elseBody env hG.2 h
  | .whileStatement condition body, s, s', env, hG, h => by
    rw [ProcedureBody.performedBy] at hG
    rw [Shoveler.executeProcedureStatement, Shoveler.executeProcedureStatement]
    exact whileLoop (fun s s' env hs => executeProcedureBody body env hG hs) _ env h

end

/-- **A call** of a procedure both databases find. -/
theorem executeCall {call : Ast.CallStatement}
    (hfind : (db'.procedures.find? fun stored => namesEqual stored.name call.name) =
      db.procedures.find? fun stored => namesEqual stored.name call.name)
    (hG : CallMeets db G call) (h : A s s') :
    Answers A (Shoveler.executeCall frontend db s call)
      (Shoveler.executeCall frontend db' s' call) := by
  unfold Shoveler.executeCall
  rw [hfind]
  split
  · exact ⟨rfl, h⟩
  · rename_i stored hstored
    split
    · exact ⟨rfl, h⟩
    · split
      · exact ⟨rfl, h⟩
      · exact (executeProcedureBody hdml hmat stored.body _ (hG stored hstored) h).map _

end Answers

namespace GuardedRule

variable {db : Database} {G : Ast.Statement → Prop} {P : Session → Prop}
variable {I : TableState → ℕ → List Row → Session → Prop} {session : Session}

/-- A loop over the visible rows: what is carried about the rows still to
visit becomes the property where the loop ends or stops. -/
theorem sweep (h : GuardedRule db G P I) {table : TableState} {index : ℕ} {e : TableTransaction}
    {step : Row → Transaction → Result (Option Transaction)} {rows : List Row}
    (hstep : ∀ row tx tx', step row tx = .ok (some tx') →
      (∃ statement values, G (.update statement) ∧ table.key = foldCase statement.tableName ∧
          applyAssignments table.store.table row statement.assignments row.values = .ok values ∧
          tx.update (storeAt db.tables e.tx.slot) row.id values = .ok tx') ∨
        tx.delete (storeAt db.tables e.tx.slot) row.id = .ok tx')
    (hI : I table index rows session) (he : session.transactions[index]? = some e) :
    P (session.setTransaction index (Shoveler.sweep step rows e.tx).1) := by
  -- the loop stays on the table the transaction was opened for
  let J (rest : List Row) (tx : Transaction) : Prop :=
    tx.slot = e.tx.slot ∧ I table index rest (session.setTransaction index tx)
  have hstart : J rows e.tx := by
    refine ⟨rfl, ?_⟩
    rw [Session.setTransaction_self he]
    exact hI
  have hnext : ∀ row rest tx tx', J (row :: rest) tx → step row tx = .ok (some tx') → J rest tx' := by
    rintro row rest tx tx' ⟨hslot, hrow⟩ htx
    have he' := Session.getElem?_setTransaction he tx
    rcases hstep row tx tx' htx with ⟨statement, values, hG, hname, hv, hupd⟩ | hdel
    · have hnext := h.updates hG hname hrow he' hv (hslot.symm ▸ hupd)
      rw [Session.setTransaction_setTransaction] at hnext
      exact ⟨(Transaction.update_frame hupd).1.trans hslot, hnext⟩
    · have hnext := h.deletes hrow he' (hslot.symm ▸ hdel)
      rw [Session.setTransaction_setTransaction] at hnext
      exact ⟨(Transaction.delete_frame hdel).1.trans hslot, hnext⟩
  obtain ⟨rest, -, hend⟩ := Sweep.carries (I := J)
    (fun row rest tx hrow _ => ⟨hrow.1, h.skips hrow.2⟩) hnext hstart
  exact h.ends hend

theorem stageUpdates (h : GuardedRule db G P I) {statement : Ast.UpdateStatement} {index : ℕ}
    {e : TableTransaction} {rows : List Row} (hG : G (.update statement))
    (hname : table.key = foldCase statement.tableName) (hI : I table index rows session)
    (he : session.transactions[index]? = some e) :
    P (session.setTransaction index
      (Shoveler.stageUpdates (storeAt db.tables e.tx.slot) table.store.table statement rows
        e.tx).1) := by
  rw [stageUpdates_eq_sweep]
  refine h.sweep (fun row tx tx' htx => Or.inl ?_) hI he
  obtain ⟨-, values, hv, hupd⟩ := updateStep_eq_some htx
  exact ⟨statement, values, hG, hname, hv, hupd⟩

theorem stageDeletes (h : GuardedRule db G P I) {def_ : TableDef}
    {whereClause : Option Ast.Expression} {index : ℕ} {e : TableTransaction} {rows : List Row}
    (hI : I table index rows session) (he : session.transactions[index]? = some e) :
    P (session.setTransaction index
      (Shoveler.stageDeletes (storeAt db.tables e.tx.slot) def_ whereClause rows e.tx).1) := by
  rw [stageDeletes_eq_sweep]
  exact h.sweep (fun row tx tx' htx => Or.inr (deleteStep_eq_some htx)) hI he

/-- Opening a transaction for a table: the session keeps the property and
has the transaction where `transactionFor` says. -/
theorem transactionFor (h : GuardedRule db G P I) {slot : ℕ} {name : Bytes} (hP : P session)
    (ha : session.active = true) (ht : db.getTableState name = some (slot, table)) :
    ∃ opened index e, session.transactionFor slot table = (opened, index, e.tx) ∧ P opened ∧
      opened.active = true ∧ opened.transactions[index]? = some e ∧ e.key = table.key := by
  rcases session.transactionFor_cases slot table with ⟨index, e, he, hkey, heq⟩ | ⟨hnew, heq⟩
  · exact ⟨session, index, e, heq, hP, ha, he, hkey⟩
  · exact ⟨_, _, ⟨table.name, .begin slot table.store⟩, heq, h.opens hP ha ht hnew, ha,
      by rw [getElem?_concat_length], rfl⟩

theorem executeInsert (h : GuardedRule db G P I) (hP : P session)
    {statement : Ast.InsertStatement} (hG : G (.insert statement)) :
    P (Shoveler.executeInsert db session statement).1 := by
  unfold Shoveler.executeInsert
  by_cases ha : session.active = true
  · rw [if_neg (by simp [ha])]
    cases ht : db.getTableState statement.tableName with
    | none => exact hP
    | some found =>
      obtain ⟨slot, table⟩ := found
      obtain ⟨opened, index, e, heq, hopened, hactive, he, hkey⟩ := h.transactionFor hP ha ht
      simp only [heq]
      cases hv : rowValuesForInsert table.store.table statement e.tx.nextId with
      | error err => exact hopened
      | ok values =>
        simp only
        cases hins : e.tx.insert (storeAt db.tables e.tx.slot) values with
        | error err => exact hopened
        | ok result => exact h.inserts hG hopened hactive ht he hkey hv hins
  · rw [if_pos (by simpa using ha)]
    exact hP

/-- What `UPDATE` and `DELETE` share, for a loop that ends in the
property. -/
theorem stageRows (h : GuardedRule db G P I) (hP : P session) {tableName : Bytes}
    {loop : Result RowStore → TableDef → List Row → Transaction → Transaction × Result ℕ}
    (hloop : ∀ {opened : Session} {table : TableState} {index : ℕ} {e : TableTransaction}
      {rows : List Row}, table.key = foldCase tableName → I table index rows opened →
      opened.transactions[index]? = some e →
      P (opened.setTransaction index
        (loop (storeAt db.tables e.tx.slot) table.store.table rows e.tx).1)) :
    P (Shoveler.stageRows db session tableName loop).1 := by
  unfold Shoveler.stageRows
  by_cases ha : session.active = true
  · rw [if_neg (by simp [ha])]
    cases ht : db.getTableState tableName with
    | none => exact hP
    | some found =>
      obtain ⟨slot, table⟩ := found
      obtain ⟨opened, index, e, heq, hopened, hactive, he, hkey⟩ := h.transactionFor hP ha ht
      simp only [heq]
      cases hscan : scanRowsForTable db opened table with
      | error err => exact hopened
      | ok rows =>
        obtain ⟨-, -, hname⟩ := Database.getTableState_eq_some ht
        exact hloop hname (h.scans hopened hactive ht he hkey hscan) he
  · rw [if_pos (by simpa using ha)]
    exact hP

theorem executeUpdate (h : GuardedRule db G P I) (hP : P session)
    {statement : Ast.UpdateStatement} (hG : G (.update statement)) :
    P (Shoveler.executeUpdate db session statement).1 := by
  unfold Shoveler.executeUpdate
  refine h.stageRows hP ?_
  intro opened table index e rows hname hI he
  exact h.stageUpdates hG hname hI he

theorem executeDelete (h : GuardedRule db G P I) (hP : P session)
    (statement : Ast.DeleteStatement) : P (Shoveler.executeDelete db session statement).1 := by
  unfold Shoveler.executeDelete
  refine h.stageRows hP ?_
  intro opened table index e rows _ hI he
  exact h.stageDeletes hI he

/-- **The rule for one statement.** -/
theorem executeDml (h : GuardedRule db G P I) (frontend : Frontend) (hP : P session)
    {statement : Ast.Statement} (hG : G statement) :
    P (Shoveler.executeDml frontend db session statement).1 := by
  cases statement with
  | insert statement => exact h.executeInsert hP hG
  | update statement => exact h.executeUpdate hP hG
  | delete statement => exact h.executeDelete hP statement
  | select | begin | commit | rollback | createTable | dropTable | createView | dropView
  | createProcedure | dropProcedure | call => exact hP

/-- **The rule for a call.** -/
theorem executeCall (h : GuardedRule db G P I) (hmat : Materializes G) (frontend : Frontend)
    (hP : P session) {call : Ast.CallStatement} (hG : CallMeets db G call) :
    P (Shoveler.executeCall frontend db session call).1 := by
  -- the call beside itself
  refine (Answers.executeCall (A := fun s s' => s' = s ∧ P s) (fun hG hs => ?_) hmat rfl hG
    ⟨rfl, hP⟩).2.2
  rw [hs.1]
  exact ⟨rfl, rfl, h.executeDml frontend hs.2 hG⟩

end GuardedRule

/-! ## Any statement -/

/-- **What a property of sessions has to be kept by**, whatever statement
stages: the rows that are staged may have any values. -/
structure StagingRule (db : Database) (P : Session → Prop)
    (I : TableState → ℕ → List Row → Session → Prop) : Prop extends LoopRule db P I where
  inserts : ∀ {session slot table name index e statement values id tx'}, P session →
    session.active = true → db.getTableState name = some (slot, table) →
    session.transactions[index]? = some e → e.key = table.key →
    rowValuesForInsert table.store.table statement e.tx.nextId = .ok values →
    e.tx.insert (storeAt db.tables e.tx.slot) values = .ok (id, tx') →
    P (session.setTransaction index tx')
  updates : ∀ {session table index e row rows values tx'}, I table index (row :: rows) session →
    session.transactions[index]? = some e →
    e.tx.update (storeAt db.tables e.tx.slot) row.id values = .ok tx' →
    I table index rows (session.setTransaction index tx')

namespace StagingRule

variable {db : Database} {P : Session → Prop} {I : TableState → ℕ → List Row → Session → Prop}
variable {session : Session}

/-- A rule for all statements is a rule for those that meet a condition. -/
theorem guarded (h : StagingRule db P I) (G : Ast.Statement → Prop) : GuardedRule db G P I where
  toLoopRule := h.toLoopRule
  inserts := fun _ => h.inserts
  updates := fun _ _ hI he _ => h.updates hI he

/-- The rule for one statement. -/
theorem executeDml (h : StagingRule db P I) (frontend : Frontend) (hP : P session)
    (statement : Ast.Statement) : P (Shoveler.executeDml frontend db session statement).1 :=
  (h.guarded fun _ => True).executeDml frontend hP trivial

/-- The rule for a call. -/
theorem executeCall (h : StagingRule db P I) (frontend : Frontend) (hP : P session)
    (call : Ast.CallStatement) : P (Shoveler.executeCall frontend db session call).1 :=
  (h.guarded fun _ => True).executeCall (fun _ _ => trivial) frontend hP
    fun _ _ _ _ => trivial

/-- **The rule for what goes by the table, the slot and the state** of each
transaction, and holds of a fresh one. -/
theorem of_frame {K : TableTransaction → Prop}
    (hnew : ∀ {name slot table}, db.getTableState name = some (slot, table) →
      K ⟨table.name, .begin slot table.store⟩)
    (hframe : ∀ {e tx}, K e → tx.slot = e.tx.slot ∧ tx.state = e.tx.state → K { e with tx := tx }) :
    StagingRule db (fun s => ∀ e ∈ s.transactions, K e)
      fun _ _ _ s => ∀ e ∈ s.transactions, K e := by
  have hset : ∀ {session : Session} {index e tx}, (∀ e ∈ session.transactions, K e) →
      session.transactions[index]? = some e → tx.slot = e.tx.slot ∧ tx.state = e.tx.state →
      ∀ e ∈ (session.setTransaction index tx).transactions, K e := by
    intro session index e tx hs he hsame e' he'
    rcases Session.mem_setTransaction he he' with rfl | he'
    · exact hframe (hs e (mem_of_getElem? he)) hsame
    · exact hs e' he'
  exact {
    opens := fun hs _ ht _ => forall_mem_append.2 ⟨hs, forall_mem_singleton.2 (hnew ht)⟩
    inserts := fun hs _ _ he _ _ hins => hset hs he (Transaction.insert_frame hins)
    scans := fun hs _ _ _ _ _ => hs
    skips := id
    updates := fun hs he hupd => hset hs he (Transaction.update_frame hupd)
    deletes := fun hs he hdel => hset hs he (Transaction.delete_frame hdel)
    ends := id }

end StagingRule

end Shoveler
