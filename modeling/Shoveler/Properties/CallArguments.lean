import Shoveler.Model.Executor
import Shoveler.Query.ValueErrors

/-!
# The arguments of a call

`CALL` evaluates its arguments one after the other, each in the
environment of the parameters before it. An argument whose evaluation looks
names up and finds them all there comes to what these parameters were bound
to; alone it would fail. Every other argument comes to the same as alone,
the value or the error (`argumentValue_eq_iff`). So the arguments are bound
independently of each other if and only if none of them reads a parameter
before it (`call_arguments_independent`), which arguments can
(`argument_reads_parameter`).
-/

namespace Shoveler

open Ast (Expression ProcedureParam)

/-- The names the evaluation of an argument looks up: in its operands, from
the left, as long as they have values. -/
def lookedUp (env : ProcedureEnv) : Expression → List Bytes
  | .identifier name => [name]
  | .binary left _ right => lookedUp env left ++
    if (evalProcedureExpression env left).toOption.isSome then lookedUp env right else []
  | .literal _ | .functionCall _ _ | .star => []

/-- **The argument reads what was bound before**: its evaluation looks names
up, and finds them all. -/
def ReadsBound (env : ProcedureEnv) (arg : Expression) : Prop :=
  lookedUp env arg ≠ [] ∧ ∀ name ∈ lookedUp env arg, env.lookup name ≠ none

/-- Every type accepts `NULL`. -/
def acceptArgument (columnType : Ast.ColumnType) : Value → Result Unit
  | .null => .ok ()
  | value => (toCatalogColumnType columnType).acceptsValue value

/-- **What is bound to a parameter of this type**, or the error, in the
environment of the parameters before it. -/
def argumentValue (env : ProcedureEnv) (columnType : Ast.ColumnType) (arg : Expression) :
    Result Value := do
  let value ← evalProcedureExpression env arg
  acceptArgument columnType value
  return value

/-- A parameter bound by its own argument and type. -/
def bindAlone (bound : ProcedureParam × Expression) : Result ProcedureVariable := do
  return ⟨bound.1.name, ← argumentValue [] bound.1.columnType bound.2⟩

/-- Names that differ by case alone are the same. -/
def ProcedureEnv.names (env : ProcedureEnv) : List Bytes := env.map fun v => foldCase v.name

/-- The names of parameters. -/
def parameterNames (params : List ProcedureParam) : List Bytes :=
  params.map fun param => foldCase param.name

variable {env env' : ProcedureEnv} {params : List ProcedureParam} {args : List Expression}
  {arg : Expression}

/-! ## Evaluation -/

/-- Where no name is looked up, the environment makes no difference. -/
theorem eval_of_lookedUp_nil (h : lookedUp env arg = []) :
    evalProcedureExpression env arg = evalProcedureExpression [] arg := by
  induction arg using evalProcedureExpression.induct env with
  | case1 literal => rfl
  | case2 name _ | case3 name _ _ => cases h
  | case4 left operator right ihleft ihright =>
    rw [lookedUp, List.append_eq_nil_iff] at h
    rw [evalProcedureExpression, evalProcedureExpression, ← ihleft h.1]
    cases hleft : evalProcedureExpression env left with
    | error e => rfl
    | ok value =>
      rw [hleft] at h
      rw [ihright h.2]
  | case5 name args => rfl
  | case6 => rfl

/-- Where a name is looked up that is not bound, the evaluation ends there. -/
theorem eval_of_unbound {name : Bytes} (hname : name ∈ lookedUp env arg)
    (hnone : env.lookup name = none) :
    evalProcedureExpression env arg = .error .unknownObject := by
  induction arg using evalProcedureExpression.induct env with
  | case2 name' _ | case3 name' _ _ =>
    rw [evalProcedureExpression, ← List.mem_singleton.1 hname, hnone]
  | case4 left operator right ihleft ihright =>
    rw [evalProcedureExpression]
    rcases List.mem_append.1 hname with hleft | hright
    · rw [ihleft hleft]
      rfl
    · cases hleft : evalProcedureExpression env left with
      | error e =>
        rw [hleft] at hright
        cases hright
      | ok value =>
        rw [hleft] at hright
        rw [ihright hright]
        rfl
  | case1 | case5 | case6 => cases hname

/-- Where all are bound, it fails in other ways only. -/
theorem eval_of_bound (h : ∀ name ∈ lookedUp env arg, env.lookup name ≠ none) :
    Outcome.FailsWith (· ≠ .unknownObject) (evalProcedureExpression env arg) := by
  have hvalues : ∀ {α} {result : Result α}, Outcome.FailsWith ValueError result →
      Outcome.FailsWith (· ≠ .unknownObject) result := fun hfails =>
    hfails.mono fun e he heq => absurd (heq ▸ he) (by decide)
  induction arg using evalProcedureExpression.induct env with
  | case1 literal => exact hvalues (fails_valueFromLiteral literal)
  | case2 name hnone => exact absurd hnone (h name (List.mem_singleton_self name))
  | case3 name found hsome =>
    rw [evalProcedureExpression, hsome]
    exact .ok found
  | case4 left operator right ihleft ihright =>
    rw [lookedUp, List.forall_mem_append] at h
    refine (ihleft h.1).bind fun l hl => ?_
    rw [hl] at h
    exact (ihright h.2).bind fun r _ => hvalues (fails_evalBinaryValues l r operator)
  | case5 | case6 => exact .error (by decide)

/-- Alone nothing is bound. -/
theorem eval_nil_of_lookedUp (h : lookedUp env arg ≠ []) :
    evalProcedureExpression [] arg = .error .unknownObject := by
  induction arg using evalProcedureExpression.induct env with
  | case2 name _ | case3 name _ _ => rfl
  | case4 left operator right ihleft ihright =>
    rw [evalProcedureExpression]
    by_cases hleft : lookedUp env left = []
    · rw [← eval_of_lookedUp_nil hleft]
      cases hvalue : evalProcedureExpression env left with
      | error e =>
        rw [lookedUp, hleft, hvalue] at h
        exact absurd rfl h
      | ok value =>
        rw [lookedUp, hleft, hvalue] at h
        rw [ihright h]
        rfl
    · rw [ihleft hleft]
      rfl
  | case1 | case5 | case6 => exact absurd rfl h

theorem acceptArgument_ne (columnType : Ast.ColumnType) (value : Value) :
    Outcome.FailsWith (· ≠ .unknownObject) (acceptArgument columnType value) := by
  unfold acceptArgument ColumnType.acceptsValue
  split
  · exact .ok ()
  · split
    all_goals first | exact .ok () | exact .error (by decide) | exact .guard (by decide) fun _ => .ok ()

/-- **An argument comes to the same as alone, unless it reads what was bound
before.** -/
theorem argumentValue_eq_iff {columnType : Ast.ColumnType} :
    argumentValue env columnType arg = argumentValue [] columnType arg ↔ ¬ReadsBound env arg := by
  constructor
  · rintro heq ⟨hreads, hbound⟩
    have halone : argumentValue [] columnType arg = .error .unknownObject := by
      rw [argumentValue, eval_nil_of_lookedUp hreads]
      rfl
    have hfails : Outcome.FailsWith (· ≠ .unknownObject) (argumentValue env columnType arg) :=
      (eval_of_bound hbound).bind fun value _ =>
        (acceptArgument_ne columnType value).bind fun _ _ => .ok value
    exact hfails _ (heq.trans halone) rfl
  · intro hnot
    have heval : evalProcedureExpression env arg = evalProcedureExpression [] arg := by
      by_cases hreads : lookedUp env arg = []
      · exact eval_of_lookedUp_nil hreads
      · obtain ⟨name, hname, hnone⟩ : ∃ name ∈ lookedUp env arg, env.lookup name = none := by
          by_contra hall
          exact hnot ⟨hreads, fun name hname hnone => hall ⟨name, hname, hnone⟩⟩
        rw [eval_of_unbound hname hnone, eval_nil_of_lookedUp hreads]
    rw [argumentValue, argumentValue, heval]

/-! ## Binding -/

theorem bindArguments_cons (param : ProcedureParam) (params : List ProcedureParam)
    (arg : Expression) (args : List Expression) (env : ProcedureEnv) :
    bindArguments (param :: params) (arg :: args) env =
      argumentValue env param.columnType arg >>= fun value =>
        env.declare param.name value >>= bindArguments params args := by
  rw [bindArguments, argumentValue]
  cases evalProcedureExpression env arg with
  | error e => rfl
  | ok value =>
    cases value with
    | null => rfl
    | _ value =>
      simp only [Outcome.ok_bind, acceptArgument]
      cases (toCatalogColumnType param.columnType).acceptsValue _ <;> rfl

theorem ProcedureEnv.declare_eq_ok {name : Bytes} {value : Value} :
    env.declare name value = .ok env' ↔
      foldCase name ∉ env.names ∧ env' = env ++ [⟨name, value⟩] := by
  have hfound : (env.findIndex name).isSome = true ↔ foldCase name ∈ env.names :=
    Keyed.isSome_findIdx?
  rw [declare, Outcome.ite_error_eq_ok, hfound, Except.ok.injEq, eq_comm]

/-- What the arguments before a position bind. -/
def boundBefore (params : List ProcedureParam) (args : List Expression) (env : ProcedureEnv) (i : ℕ) :
    Result ProcedureEnv := bindArguments (params.take i) (args.take i) env

/-- **Arguments that read no parameter before them are bound one by one.** -/
theorem bindArguments_eq (hlength : args.length = params.length)
    (hreads : ∀ i arg env', args[i]? = some arg → boundBefore params args env i = .ok env' →
      ¬ReadsBound env' arg)
    (hdistinct : (env.names ++ parameterNames params).Nodup) :
    bindArguments params args env = ((params.zip args).mapM bindAlone).map (env ++ ·) := by
  induction params generalizing args env with
  | nil =>
    rw [bindArguments, List.zip_nil_left]
    · exact congrArg Except.ok (List.append_nil env).symm
    · exact fun param params arg args hparams => by cases hparams
  | cons param params ih =>
    cases args with
    | nil => cases hlength
    | cons arg args =>
      rw [bindArguments_cons, List.zip_cons_cons, List.mapM_cons, bindAlone,
        ← argumentValue_eq_iff.2 (hreads 0 arg env rfl rfl)]
      cases hvalue : argumentValue env param.columnType arg with
      | error e => rfl
      | ok value =>
        have hsplit : (ProcedureEnv.names (env ++ [⟨param.name, value⟩])) =
            env.names ++ [foldCase param.name] := List.map_append
        have hnew : foldCase param.name ∉ env.names := fun hmem =>
          (List.nodup_append.1 hdistinct).2.2 _ hmem _ List.mem_cons_self rfl
        have hdeclare : env.declare param.name value = .ok (env ++ [⟨param.name, value⟩]) :=
          ProcedureEnv.declare_eq_ok.2 ⟨hnew, rfl⟩
        rw [Outcome.ok_bind, hdeclare, Outcome.ok_bind, ih (Nat.succ.inj hlength)]
        · cases (params.zip args).mapM bindAlone with
          | error e => rfl
          | ok bound => exact congrArg Except.ok (List.append_assoc _ _ _)
        · intro i arg' env' harg' hbefore
          refine hreads (i + 1) arg' env' harg' ?_
          rw [boundBefore, List.take_succ_cons, List.take_succ_cons, bindArguments_cons, hvalue,
            Outcome.ok_bind, hdeclare, Outcome.ok_bind]
          exact hbefore
        · rw [hsplit, List.append_assoc]
          exact hdistinct

/-- **The arguments of a call are bound independently** if and only if none
reads a parameter before it: what an argument comes to in its round, the
value or the error, is what it comes to alone, by its type, exactly if its
evaluation does not look names up and find them all among the parameters
bound before; and where that holds of every argument, the call binds every
one by itself. -/
theorem call_arguments_independent (stored : StoredProcedure) (call : Ast.CallStatement)
    (hlength : call.args.length = stored.params.length)
    (hdistinct : (parameterNames stored.params).Nodup) :
    (∀ i param arg env, stored.params[i]? = some param → call.args[i]? = some arg →
        boundBefore stored.params call.args [] i = .ok env →
        (argumentValue env param.columnType arg = argumentValue [] param.columnType arg ↔
          ¬ReadsBound env arg)) ∧
      ((∀ i arg env, call.args[i]? = some arg →
          boundBefore stored.params call.args [] i = .ok env → ¬ReadsBound env arg) →
        bindArguments stored.params call.args [] =
          (stored.params.zip call.args).mapM bindAlone) := by
  refine ⟨fun i param arg env _ _ _ => argumentValue_eq_iff, fun hreads => ?_⟩
  rw [bindArguments_eq hlength hreads hdistinct]
  cases (stored.params.zip call.args).mapM bindAlone <;> rfl

/-- Parameters of type `INTEGER`. -/
def integerParams (names : List String) : List ProcedureParam :=
  names.map fun name => ⟨ascii name, .integer⟩

/-- The call `p(1, 2)`. -/
theorem call_arguments_independent_literals :
    bindArguments (integerParams ["a", "b"]) [.literal (.integer 1), .literal (.integer 2)] [] =
      .ok [⟨ascii "a", .integer 1⟩, ⟨ascii "b", .integer 2⟩] := by
  refine (call_arguments_independent ⟨ascii "p", integerParams ["a", "b"], []⟩ ⟨ascii "p", _⟩ rfl
    (by decide +kernel)).2 fun i arg env harg _ hreads => ?_
  have harg' := List.mem_of_getElem? harg
  simp only [List.mem_cons, List.not_mem_nil, or_false] at harg'
  rcases harg' with rfl | rfl <;> exact hreads.1 rfl

/-- **An argument reads the parameter before it.** The call `p(n, a)` binds
to the parameter `b` what it has bound to `a`, whichever number that is;
where the first parameter has another name it fails. -/
theorem argument_reads_parameter :
    bindArguments (integerParams ["a", "b"]) [.literal (.integer 1), .identifier (ascii "a")] [] =
        .ok [⟨ascii "a", .integer 1⟩, ⟨ascii "b", .integer 1⟩] ∧
      bindArguments (integerParams ["a", "b"]) [.literal (.integer 2), .identifier (ascii "a")] [] =
        .ok [⟨ascii "a", .integer 2⟩, ⟨ascii "b", .integer 2⟩] ∧
      bindArguments (integerParams ["c", "b"]) [.literal (.integer 1), .identifier (ascii "a")] [] =
        .error .unknownObject := by
  refine ⟨?_, ?_, ?_⟩ <;> decide +kernel

end Shoveler
