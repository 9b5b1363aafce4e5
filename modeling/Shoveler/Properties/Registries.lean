import Shoveler.Invariant.Coherent

/-!
# The catalog and the registries

Each DDL statement changes two lists one after the other, the catalog's
and the runtime's, and takes the first change back where the second is
refused. So in every state that can be reached the lists hold the same
names in the same order, no name is used twice in any case, and a
statement that is refused has changed nothing (`registries_in_lockstep`).
Refreshing the table pointers therefore finds every table it looks for:
the null it would dereference is not among the errors of the statements
that refresh (`schemaErrors`, `commitErrors`).
-/

namespace Shoveler

open Outcome (FailsWith)

/-- **The catalog and the runtime lists in lockstep.** -/
structure Database.Lockstep (db : Database) : Prop where
  tables : db.catalog.tables.map TableDef.name = db.tables.map TableState.name
  views : db.catalog.views.map ViewDef.name = db.views.map StoredView.name
  procedures : db.catalog.procedures.map ProcedureDef.name =
    db.procedures.map StoredProcedure.name
  /-- The names of the three kinds taken together are distinct, whatever
  their case. -/
  distinct : (db.tables.map TableState.name ++ db.views.map StoredView.name ++
    db.procedures.map StoredProcedure.name).Pairwise fun a b => namesEqual a b = false
  /-- Every table pointer is found, and points where it did. -/
  pointers : db.refreshTablePointers = .ok db

theorem Database.Valid.lockstep {db : Database} (h : db.Valid) : db.Lockstep := by
  have htables : db.catalog.tables.map TableDef.name = db.tables.map TableState.name := by
    rw [← h.defined, List.map_map]
    exact List.map_congr_left fun t ht => (h.named t ht).symm
  refine ⟨htables, h.views.symm, h.procedures.symm, ?_, h.refreshTablePointers⟩
  have hkeys : db.catalog.keys = (db.tables.map TableState.name ++ db.views.map StoredView.name ++
      db.procedures.map StoredProcedure.name).map foldCase := by
    rw [← htables, h.views, h.procedures, List.map_append, List.map_append, List.map_map,
      List.map_map, List.map_map]
    rfl
  have hdistinct := h.distinct
  rw [hkeys, List.Nodup, List.pairwise_map] at hdistinct
  exact hdistinct.imp fun hne => decide_eq_false hne

/-! ## What a refused statement leaves -/

/-- **A DDL statement that fails has changed nothing.** -/
theorem Database.Valid.ddl_error {frontend : Frontend} {db : Database} (h : db.Valid)
    (session : Session) {statement : Ast.Statement} (hddl : statement.IsDdl) {e : Error}
    (he : (executeStatement frontend db session statement).2.2 = .error e) :
    (executeStatement frontend db session statement).1 = db := by
  -- a change is refused as a whole, or it succeeds
  have hkept : ∀ {r : Database × Result Unit}, (∃ e', r = (db, .error e')) ∨ r.2 = .ok () →
      r.2.map (fun _ => ExecutionResult.ok) = .error e → r.1 = db := by
    rintro r (⟨e', rfl⟩ | hok) hfail
    · rfl
    · rw [hok] at hfail
      cases hfail
  have htables : ∀ r : Result Database, (∃ e', orKeep db r = (db, .error e')) ∨
      (orKeep db r).2 = .ok () := by
    intro r
    cases r with
    | error e' => exact .inl ⟨e', rfl⟩
    | ok _ => exact .inr rfl
  cases statement with
  | createTable statement => exact hkept (htables _) he
  | dropTable statement => exact hkept (htables _) he
  | createView statement =>
    refine hkept ((@Database.createView_cases db statement).imp_right ?_) he
    rintro ⟨-, -, hcase⟩
    rw [hcase]
  | dropView statement =>
    refine hkept ((Database.dropView_cases h statement).imp_right ?_) he
    rintro ⟨index, hcase⟩
    rw [hcase]
  | createProcedure statement =>
    refine hkept ((@Database.createProcedure_cases db frontend.parseBody statement).imp_right ?_) he
    rintro ⟨-, body, -, hcase⟩
    rw [hcase]
  | dropProcedure statement =>
    refine hkept ((Database.dropProcedure_cases h statement).imp_right ?_) he
    rintro ⟨index, hcase⟩
    rw [hcase]
  | begin | commit | rollback | insert | update | delete | select | call => exact hddl.elim

/-! ## Refreshing the pointers -/

/-- What `CREATE TABLE` and `DROP TABLE` can come back with. -/
def schemaErrors : List Error := .nameConflict :: .unsupportedExpression :: definitionErrors

theorem mem_schemaErrors_of_definition {e : Error} (h : e ∈ definitionErrors) :
    e ∈ schemaErrors :=
  List.mem_cons_of_mem _ (List.mem_cons_of_mem _ h)

/-- A default is a literal, and a vector needs its components. -/
theorem evalConstant_failsWith (expression : Ast.Expression) :
    FailsWith (· ∈ schemaErrors) (evalConstant expression) := by
  unfold evalConstant
  split
  · unfold valueFromLiteral
    split
    case h_6 => exact Value.initVector_failsWith (by decide) (by decide) _ _ _
    all_goals exact .ok _
  · exact .error (by decide)

namespace Database

variable {db : Database}

theorem columnSpecs_failsWith (columns : List Ast.ColumnDef) :
    FailsWith (· ∈ schemaErrors) (columnSpecs columns) := by
  refine .mapM fun column _ => ?_
  cases column.defaultValue with
  | none => exact .ok _
  | some default => exact (evalConstant_failsWith default).bind fun _ _ => .ok _

/-- **What `CREATE TABLE` fails with.** The pointers it refreshes are those
of a database in good order. -/
theorem Valid.createTable_failsWith (h : db.Valid) (statement : Ast.CreateTableStatement) :
    FailsWith (· ∈ schemaErrors) (db.createTable statement) := by
  unfold Database.createTable
  split
  · exact .ok db
  · refine (columnSpecs_failsWith _).bind fun columns _ => .bind ?_ fun catalog hcreate => ?_
    · refine .guard (by decide) fun _ => .guard (by decide) fun _ => .bind ?_ fun _ _ => .ok _
      exact (TableDef.init_failsWith _).mono fun _ => mem_schemaErrors_of_definition
    · obtain ⟨hkey, table, htable, rfl⟩ := DatabaseCatalog.createTable_eq_ok.1 hcreate
      have hname : table.name = statement.name := (TableDef.init_eq_ok.1 htable).2
      rw [← hname] at hkey
      rw [← hname, DatabaseCatalog.getTable_new hkey]
      simp only
      rw [(h.addTable hkey).refreshTablePointers]
      exact .ok _

/-- **What `DROP TABLE` fails with**, likewise. -/
theorem Valid.dropTable_failsWith (h : db.Valid) (statement : Ast.NamedStatement) :
    FailsWith (· ∈ schemaErrors) (db.dropTable statement) := by
  unfold Database.dropTable
  cases hi : db.findTableStateIndex statement.name with
  | none =>
    simp only
    split
    · exact .ok db
    · exact .error (by decide)
  | some i =>
    simp only [DatabaseCatalog.dropTable, h.findTableIndex, hi, Outcome.ok_bind]
    rw [(h.removeTable i).refreshTablePointers]
    exact .ok _

end Database

/-- **The statements that refresh the table pointers** dereference no null
doing so. -/
theorem System.Coherent.refresh_ne_null {frontend : Frontend} {sys : System} (h : sys.Coherent)
    (i : ℕ) {statement : Ast.Statement}
    (hs : (∃ created, statement = .createTable created) ∨
      (∃ dropped, statement = .dropTable dropped) ∨ statement = .commit) :
    (sys.perform frontend (.statement i statement)).2 ≠ .error (.panic .nullUnwrap) := by
  -- what the statement returns fails as the operation under it does
  have hmap : ∀ {α β : Type} {Q : Error → Prop} {f : α → β} {x : Result α}, FailsWith Q x →
      ¬Q (.panic .nullUnwrap) → x.map f ≠ .error (.panic .nullUnwrap) := by
    intro α β Q f x hx hQ heq
    cases x with
    | ok a => cases heq
    | error e =>
      cases heq
      exact hQ (hx _ rfl)
  rcases hs with ⟨created, rfl⟩ | ⟨dropped, rfl⟩ | rfl
  · have hfails := h.valid.createTable_failsWith created
    refine hmap (Q := (· ∈ schemaErrors)) ?_ (by decide)
    cases hc : sys.db.createTable created with
    | ok db' => exact .ok ()
    | error e => exact .error (hfails e hc)
  · have hfails := h.valid.dropTable_failsWith dropped
    refine hmap (Q := (· ∈ schemaErrors)) ?_ (by decide)
    cases hd : sys.db.dropTable dropped with
    | ok db' => exact .ok ()
    | error e => exact .error (hfails e hd)
  · rw [h.perform_commit frontend i]
    exact hmap (CommitOutcome.failsWith h.valid (h.commit_outcome i)) (by decide)

/-- **The catalog and the registries stay in lockstep.** In every system
that can be reached, by whatever statements, the catalog and the runtime
hold the same tables, views and procedures under names that are distinct
across the kinds; a DDL statement that returns an error leaves the
database as it was; and no statement that refreshes the table pointers
dereferences null. -/
theorem registries_in_lockstep {frontend : Frontend} {sys : System} (h : sys.Reachable frontend) :
    sys.db.Lockstep ∧
      (∀ i statement e, statement.IsDdl →
        (sys.perform frontend (.statement i statement)).2 = .error e →
        (sys.step frontend (.statement i statement)).db = sys.db) ∧
      ∀ i statement, ((∃ created, statement = .createTable created) ∨
          (∃ dropped, statement = .dropTable dropped) ∨ statement = .commit) →
        (sys.perform frontend (.statement i statement)).2 ≠ .error (.panic .nullUnwrap) := by
  have hco := h.coherent
  refine ⟨hco.valid.lockstep, fun i statement e hddl he => ?_, fun i statement hs => ?_⟩
  · exact hco.valid.ddl_error (sys.sessions i) hddl he
  · exact hco.refresh_ne_null i hs

/-- A view over a table, and another under the same name in capitals, which
is refused. -/
def viewTwice : List Event := [Script.createView 0 "v" "A", Script.createView 0 "V" "B"]

/-- The first is registered on both sides, the second on neither. -/
theorem registries_in_lockstep_views :
    (Script.twoTables.run Script.frontend viewTwice).db.Lockstep ∧
      (Script.twoTables.run Script.frontend viewTwice).db.views.map StoredView.name =
        [ascii "v"] :=
  ⟨(registries_in_lockstep (Script.twoTables_reachable.run viewTwice)).1, by decide +kernel⟩

end Shoveler
