import Shoveler.Invariant.Loops

/-!
# Variables of a procedure as literals

Before a statement of a procedure body runs, the variables its expressions
name are replaced by literals. That is exact: an expression with literals
in the place of its variables has the value the expression itself has where
a variable stands for its value (`evalExpressionIn`). `UPDATE` and `DELETE`
evaluate the expressions on the rows they visit, so in a body they do what
they would do directly if their expressions were evaluated with the
variables (`executeUpdateIn`, `executeDeleteIn`).
-/

namespace Shoveler

open Ast (Expression Assignment UpdateStatement DeleteStatement)
open Outcome

/-! ## Expressions -/

/-- **Evaluation with variables**: an identifier that names a variable
stands for its value, every other one for its column. -/
def evalExpressionIn (env : ProcedureEnv) (table : TableDef) (row : Row) :
    Expression → Result Value
  | .identifier name =>
    match env.lookup name with
    | some value => .ok value
    | none => evalExpression table row (.identifier name)
  | .literal literal => valueFromLiteral literal
  | .binary left operator right => do
    let left ← evalExpressionIn env table row left
    let right ← evalExpressionIn env table row right
    evalBinaryValues left right operator
  | .functionCall name args =>
    match distanceFunction name, args with
    | some distance, [left, right] => do
      let left ← evalExpressionIn env table row left
      let right ← evalExpressionIn env table row right
      applyDistance distance left right
    | _, _ => .error .unsupportedExpression
  | .star => .error .unsupportedExpression

/-- **Variables that literals can stand for**: none holds a blob, and the
components of vectors survive as `f64`. -/
structure ProcedureEnv.Literal (env : ProcedureEnv) : Prop where
  noBlob : ∀ v ∈ env, ∀ bytes, v.runtimeValue ≠ .blob bytes
  exact : ∀ v ∈ env, ∀ vector, v.runtimeValue = .vector vector →
    ∀ c ∈ vector.values, narrow (widen c) = c

/-- An expression that has the value of another in which the variables are
still named. -/
def StandsFor (env : ProcedureEnv) (e m : Expression) : Prop :=
  ∀ table row, evalExpression table row m = evalExpressionIn env table row e

section Expressions

variable {env : ProcedureEnv}

/-- **The literal of a value has that value.** -/
theorem valueFromLiteral_of_value {value : Value} (hblob : ∀ bytes, value ≠ .blob bytes)
    (hexact : ∀ vector, value = .vector vector → ∀ c ∈ vector.values, narrow (widen c) = c) :
    ∃ literal, literalFromValue value = .ok literal ∧ valueFromLiteral literal = .ok value := by
  cases value with
  | blob bytes => exact absurd rfl (hblob bytes)
  | vector v =>
    have hvalues : (v.values.map widen).map narrow = v.values := by
      rw [List.map_map]
      exact (List.map_congr_left (hexact v rfl)).trans (List.map_id _)
    have helement : VectorElementType.float32 = v.elementType := by cases v.elementType; rfl
    refine ⟨_, rfl, ?_⟩
    rw [valueFromLiteral, hvalues, List.length_map, v.sized, Value.initVector, helement,
      Vector.init_self]
    rfl
  | null | integer | float | boolean | text => exact ⟨_, rfl, rfl⟩

mutual

/-- **Replacing the variables is exact.** -/
theorem materialize_standsFor (henv : env.Literal) :
    ∀ e, ∃ m, materializeExpression env e = .ok m ∧ StandsFor env e m
  | .identifier name => by
    cases hlookup : env.lookup name with
    | none =>
      refine ⟨.identifier name, by rw [materializeExpression, hlookup], fun table row => ?_⟩
      rw [evalExpressionIn, hlookup]
    | some value =>
      obtain ⟨v, hfind, rfl⟩ := Option.map_eq_some_iff.1 hlookup
      have hv := List.mem_of_find?_eq_some hfind
      obtain ⟨literal, hliteral, hvalue⟩ :=
        valueFromLiteral_of_value (henv.noBlob v hv) (henv.exact v hv)
      refine ⟨.literal literal, ?_, fun table row => ?_⟩
      · simp only [materializeExpression, hlookup, hliteral, ok_bind, pure_eq_ok]
      · rw [evalExpression, evalExpressionIn, hlookup, hvalue]
  | .literal literal => ⟨_, rfl, fun _ _ => rfl⟩
  | .star => ⟨_, rfl, fun _ _ => rfl⟩
  | .functionCall name args => by
    obtain ⟨margs, hm, hargs⟩ := materialize_all_standFor henv args
    refine ⟨.functionCall name margs, by rw [materializeExpression, hm]; rfl, fun table row => ?_⟩
    unfold evalExpression evalExpressionIn
    cases distanceFunction name with
    | none => rfl
    | some distance =>
      -- the number of arguments decides, and it is the same
      rcases hargs with _ | ⟨hfirst, _ | ⟨hsecond, _ | _⟩⟩
      · rfl
      · rfl
      · dsimp only
        rw [hfirst table row, hsecond table row]
      · rfl
  | .binary left operator right => by
    obtain ⟨l, hl, hleft⟩ := materialize_standsFor henv left
    obtain ⟨r, hr, hright⟩ := materialize_standsFor henv right
    refine ⟨.binary l operator r, by rw [materializeExpression, hl, hr]; rfl, fun table row => ?_⟩
    rw [evalExpression, evalExpressionIn, hleft, hright]

theorem materialize_all_standFor (henv : env.Literal) :
    ∀ es, ∃ ms, materializeExpressions env es = .ok ms ∧ List.Forall₂ (StandsFor env) es ms
  | [] => ⟨[], rfl, .nil⟩
  | e :: es => by
    obtain ⟨m, hm, hone⟩ := materialize_standsFor henv e
    obtain ⟨ms, hms, hall⟩ := materialize_all_standFor henv es
    exact ⟨m :: ms, by rw [materializeExpressions, hm, hms]; rfl, .cons hone hall⟩

end

end Expressions

/-! ## Statements -/

section Statements

variable (env : ProcedureEnv)

/-- `matchesWhere`, with the variables. -/
def matchesWhereIn (table : TableDef) (row : Row) : Option Expression → Result Bool
  | none => .ok true
  | some clause => do
    match ← evalExpressionIn env table row clause with
    | .boolean holds => .ok holds
    | _ => .error .typeMismatch

/-- `applyAssignments`, with the variables. -/
def applyAssignmentsIn (table : TableDef) (row : Row) :
    List Assignment → List Value → Result (List Value)
  | [], values => .ok values
  | assignment :: rest, values =>
    match table.columnIndex assignment.column with
    | none => .error .unknownColumn
    | some index =>
      if index < values.length then do
        let value ← evalExpressionIn env table row assignment.value
        applyAssignmentsIn table row rest (values.set index value)
      else .error (.panic .indexOutOfBounds)

/-- **`UPDATE` with the variables.** -/
def executeUpdateIn (db : Database) (session : Session) (statement : UpdateStatement) :
    Session × Result ℕ :=
  stageRows db session statement.tableName fun store table => sweep fun row tx => do
    if ← matchesWhereIn env table row statement.whereClause then
      let values ← applyAssignmentsIn env table row statement.assignments row.values
      return some (← tx.update store row.id values)
    else return none

/-- **`DELETE` with the variables.** -/
def executeDeleteIn (db : Database) (session : Session) (statement : DeleteStatement) :
    Session × Result ℕ :=
  stageRows db session statement.tableName fun store table => sweep fun row tx => do
    if ← matchesWhereIn env table row statement.whereClause then
      return some (← tx.delete store row.id)
    else return none

variable {env} (henv : env.Literal)

include henv

/-- A clause holds of the same rows. -/
theorem materializeOptional_exact (clause : Option Expression) :
    ∃ m, materializeOptional env clause = .ok m ∧
      ∀ table row, matchesWhere table row m = matchesWhereIn env table row clause := by
  cases clause with
  | none => exact ⟨none, rfl, fun _ _ => rfl⟩
  | some e =>
    obtain ⟨m, hm, hsame⟩ := materialize_standsFor henv e
    refine ⟨some m, by rw [materializeOptional, hm]; rfl, fun table row => ?_⟩
    have hvalue := hsame table row
    rw [matchesWhere, matchesWhereIn]
    generalize evalExpression table row m = value at hvalue ⊢
    subst hvalue
    cases evalExpressionIn env table row e with
    | error err => rfl
    | ok value => cases value <;> rfl

/-- Assignments give the same values. -/
theorem materializeAssignments_exact (assignments : List Assignment) :
    ∃ ms, (assignments.mapM fun assignment => do
        return { assignment with value := ← materializeExpression env assignment.value }) = .ok ms ∧
      ∀ table row values, applyAssignments table row ms values =
        applyAssignmentsIn env table row assignments values := by
  induction assignments with
  | nil => exact ⟨[], rfl, fun _ _ _ => rfl⟩
  | cons assignment assignments ih =>
    obtain ⟨m, hm, hsame⟩ := materialize_standsFor henv assignment.value
    obtain ⟨ms, hms, hrest⟩ := ih
    refine ⟨{ assignment with value := m } :: ms, ?_, fun table row values => ?_⟩
    · rw [List.mapM_cons, hm, hms]
      rfl
    · unfold applyAssignments applyAssignmentsIn
      dsimp only
      cases table.columnIndex assignment.column with
      | none => rfl
      | some index => simp only [hsame table row, hrest]

/-- **An `UPDATE` of a body.** -/
theorem executeProcedureStatement_update (frontend : Frontend) (db : Database) (session : Session)
    (statement : UpdateStatement) :
    executeProcedureStatement frontend db (.sql (.update statement)) session env =
      ((executeUpdateIn env db session statement).1,
        (executeUpdateIn env db session statement).2.map fun count => (env, count)) := by
  obtain ⟨assignments, has, hassigns⟩ := materializeAssignments_exact henv statement.assignments
  obtain ⟨clause, hc, hmatches⟩ := materializeOptional_exact henv statement.whereClause
  have hsame : executeUpdate db session
      { statement with assignments := assignments, whereClause := clause } =
        executeUpdateIn env db session statement := by
    refine congrArg (stageRows db session statement.tableName) ?_
    funext store table rows tx
    rw [stageUpdates_eq_sweep]
    congr 1
    funext row tx
    simp only [updateStep, updatedValues, hmatches, hassigns]
    cases matchesWhereIn env table row statement.whereClause with
    | error e => rfl
    | ok holds =>
      cases holds with
      | false => rfl
      | true => cases applyAssignmentsIn env table row statement.assignments row.values <;> rfl
  rw [executeProcedureStatement, materializeProcedureStatement, has, hc]
  simp only [ok_bind, pure_eq_ok, executeDml, hsame]
  cases (executeUpdateIn env db session statement).2 <;> rfl

/-- **A `DELETE` of a body.** -/
theorem executeProcedureStatement_delete (frontend : Frontend) (db : Database) (session : Session)
    (statement : DeleteStatement) :
    executeProcedureStatement frontend db (.sql (.delete statement)) session env =
      ((executeDeleteIn env db session statement).1,
        (executeDeleteIn env db session statement).2.map fun count => (env, count)) := by
  obtain ⟨clause, hc, hmatches⟩ := materializeOptional_exact henv statement.whereClause
  have hsame : executeDelete db session { statement with whereClause := clause } =
      executeDeleteIn env db session statement := by
    refine congrArg (stageRows db session statement.tableName) ?_
    funext store table rows tx
    rw [stageDeletes_eq_sweep]
    congr 1
    funext row tx
    simp only [deleteStep, hmatches]
  rw [executeProcedureStatement, materializeProcedureStatement, hc]
  simp only [ok_bind, pure_eq_ok, executeDml, hsame]
  cases (executeDeleteIn env db session statement).2 <;> rfl

end Statements

/-- **Replacing the variables of a procedure is exact.** The literals always
can be made, what they make of an expression has on every row of every
table the value or the error that the expression has with the variables,
and `UPDATE` and `DELETE` in a body do what they do directly where their
expressions are evaluated with the variables. -/
theorem substitution_exact {env : ProcedureEnv} (henv : env.Literal) :
    (∀ e, ∃ m, materializeExpression env e = .ok m ∧
      ∀ table row, evalExpression table row m = evalExpressionIn env table row e) ∧
    (∀ frontend db session statement,
      executeProcedureStatement frontend db (.sql (.update statement)) session env =
        ((executeUpdateIn env db session statement).1,
          (executeUpdateIn env db session statement).2.map fun count => (env, count))) ∧
    ∀ frontend db session statement,
      executeProcedureStatement frontend db (.sql (.delete statement)) session env =
        ((executeDeleteIn env db session statement).1,
          (executeDeleteIn env db session statement).2.map fun count => (env, count)) :=
  ⟨materialize_standsFor henv, executeProcedureStatement_update henv,
    executeProcedureStatement_delete henv⟩

/-- A number and a point. -/
def sampleVariables : ProcedureEnv :=
  [⟨ascii "n", .integer 3⟩,
    ⟨ascii "p", .vector ⟨.float32, 3, [0x3F800000, 0x40000000, 0], by decide, rfl⟩⟩]

/-- `N < l2_distance(p, v)`. -/
def sampleCondition : Expression :=
  .binary (.identifier (ascii "N")) .lessThan
    (.functionCall (ascii "l2_distance") [.identifier (ascii "p"), .identifier (ascii "v")])

/-- Variables and a column in one condition. -/
theorem substitution_exact_sample :
    ∃ m, materializeExpression sampleVariables sampleCondition = .ok m ∧
      ∀ table row, evalExpression table row m =
        evalExpressionIn sampleVariables table row sampleCondition := by
  refine (substitution_exact ⟨?_, ?_⟩).1 sampleCondition
  · simp [sampleVariables]
  · simp only [sampleVariables, List.forall_mem_cons]
    refine ⟨by simp, fun vector h c hc => ?_, List.forall_mem_nil _⟩
    obtain rfl := Value.vector.inj h
    simp only [List.mem_cons, List.not_mem_nil, or_false] at hc
    rcases hc with rfl | rfl | rfl <;> decide +kernel

end Shoveler
