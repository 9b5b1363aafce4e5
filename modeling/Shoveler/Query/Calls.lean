import Shoveler.Model.QuerySource

/-!
# The calls of a query

A query calls itself for each derived table, common table expression and
view its source names, once for each, and always one level deeper. Down to
a depth of eight the level alone limits the calls. Below it no view is
entered, and what is left of the text gets shorter: a derived table is part
of its query, and a common table expression is looked up in a scope that
ends before it. So the calls come to an end (`halts`), whatever the views
are, and there is a function that answers every query (`executeSelect`).
-/

namespace Shoveler

open List

namespace QuerySource

open Ast

variable {ctx : Context}

/-! ## Named sources -/

section Named

variable (ctx) (select : Call → Running ResultSet) {name : Bytes} (sourceAlias : Option Bytes)
  {scope : CteScope} {depth : ℕ}

theorem executeNamedSource_cte {cte : CommonTableExpression} {definitionScope : CteScope}
    (h : findCte name scope = some (cte, definitionScope)) :
    executeNamedSource ctx select name sourceAlias scope depth = (do
      let result ← select ⟨cte.query, definitionScope, depth + 1⟩
      return rowSetFromResult result name sourceAlias) := by
  rw [executeNamedSource, h]

theorem executeNamedSource_view (h : findCte name scope = none) {query : SelectStatement}
    (hview : ctx.findView name = some query) (hdepth : ¬depth ≥ 8) :
    executeNamedSource ctx select name sourceAlias scope depth = (do
      let result ← select ⟨query, scope, depth + 1⟩
      return rowSetFromResult result name sourceAlias) := by
  rw [executeNamedSource, h]
  simp only [hview, if_neg hdepth]

theorem executeNamedSource_deep (h : findCte name scope = none) {query : SelectStatement}
    (hview : ctx.findView name = some query) (hdepth : depth ≥ 8) :
    executeNamedSource ctx select name sourceAlias scope depth = some (.error .unsupportedView) := by
  rw [executeNamedSource, h]
  simp only [hview, if_pos hdepth]
  rfl

theorem executeNamedSource_base (h : findCte name scope = none) (hview : ctx.findView name = none) :
    executeNamedSource ctx select name sourceAlias scope depth =
      some ((ctx.loadBaseTable name).map (rowSetFromBaseTable · sourceAlias)) := by
  rw [executeNamedSource, h]
  simp only [hview]
  cases ctx.loadBaseTable name with
  | error e => rfl
  | ok table => rfl

end Named

/-! ## More calls, more answers -/

section Rising

variable {select select' : Call → Running ResultSet}

theorem executeNamedSource_below (h : ∀ call r, select call = some r → select' call = some r)
    {name : Bytes} {sourceAlias : Option Bytes} {scope : CteScope} {depth : ℕ} {r : Result RowSet}
    (hr : executeNamedSource ctx select name sourceAlias scope depth = some r) :
    executeNamedSource ctx select' name sourceAlias scope depth = some r := by
  cases hcte : findCte name scope with
  | some found =>
    rw [executeNamedSource_cte _ _ _ hcte] at hr ⊢
    exact Recursion.below_bind (h _) (fun _ _ => id) r hr
  | none =>
    cases hview : ctx.findView name with
    | none =>
      rw [executeNamedSource_base _ _ _ hcte hview] at hr ⊢
      exact hr
    | some query =>
      by_cases hdepth : depth ≥ 8
      · rw [executeNamedSource_deep _ _ _ hcte hview hdepth] at hr ⊢
        exact hr
      · rw [executeNamedSource_view _ _ _ hcte hview hdepth] at hr ⊢
        exact Recursion.below_bind (h _) (fun _ _ => id) r hr

theorem executeSource_below (h : ∀ call r, select call = some r → select' call = some r)
    {scope : CteScope} {depth : ℕ} {source : RowSource} {r : Result RowSet}
    (hr : executeSource ctx select scope depth source = some r) :
    executeSource ctx select' scope depth source = some r := by
  induction source using RowSource.induction generalizing r with
  | baseTable name label => exact executeNamedSource_below h hr
  | derivedTable query label => exact Recursion.below_bind (h _) (fun _ _ => id) r hr
  | join left joinType right on ihleft ihright =>
    exact Recursion.below_bind (fun _ => ihleft)
      (fun _ => Recursion.below_bind (fun _ => ihright) fun _ _ => id) r hr

end Rising

/-- **With more calls no answer changes.** -/
theorem rising_executeSelectScoped : Recursion.Rising (executeSelectScoped ctx) := by
  intro select select' h call r hr
  unfold executeSelectScoped at hr ⊢
  cases hsource : call.statement.source with
  | none =>
    rw [hsource] at hr
    exact hr
  | some source =>
    rw [hsource] at hr
    exact Recursion.below_bind (fun _ => executeSource_below h) (fun _ _ => id) r hr

/-! ## The calls -/

/-- The calls for a source. -/
def sourceCalls (ctx : Context) (scope : CteScope) (depth : ℕ) : RowSource → List Call
  | .baseTable name _ =>
    match findCte name scope with
    | some (cte, definitionScope) => [⟨cte.query, definitionScope, depth + 1⟩]
    | none =>
      match ctx.findView name with
      | some query => if depth ≥ 8 then [] else [⟨query, scope, depth + 1⟩]
      | none => []
  | .derivedTable query _ => [⟨query, scope, depth + 1⟩]
  | .join left _ right _ => sourceCalls ctx scope depth left ++ sourceCalls ctx scope depth right

/-- **The calls of a query.** -/
def calls (ctx : Context) (call : Call) : List Call :=
  match call.statement.source with
  | none => []
  | some source => sourceCalls ctx (call.statement.ctes :: call.scope) call.depth source

/-- A source has an answer if its calls do. -/
theorem exists_executeSource {select : Call → Running ResultSet} {scope : CteScope} {depth : ℕ}
    {source : RowSource} (h : ∀ call ∈ sourceCalls ctx scope depth source, ∃ r, select call = some r) :
    ∃ r, executeSource ctx select scope depth source = some r := by
  induction source using RowSource.induction with
  | baseTable name label =>
    change ∃ r, executeNamedSource ctx select name label scope depth = some r
    rw [sourceCalls] at h
    cases hcte : findCte name scope with
    | some found =>
      rw [hcte] at h
      rw [executeNamedSource_cte _ _ _ hcte]
      exact Recursion.exists_bind (h _ mem_cons_self) fun _ => ⟨_, rfl⟩
    | none =>
      cases hview : ctx.findView name with
      | none => exact ⟨_, executeNamedSource_base _ _ _ hcte hview⟩
      | some query =>
        by_cases hdepth : depth ≥ 8
        · exact ⟨_, executeNamedSource_deep _ _ _ hcte hview hdepth⟩
        · simp only [hcte, hview, if_neg hdepth] at h
          rw [executeNamedSource_view _ _ _ hcte hview hdepth]
          exact Recursion.exists_bind (h _ mem_cons_self) fun _ => ⟨_, rfl⟩
  | derivedTable query label =>
    exact Recursion.exists_bind (h _ mem_cons_self) fun _ => ⟨_, rfl⟩
  | join left joinType right on ihleft ihright =>
    rw [sourceCalls, forall_mem_append] at h
    refine Recursion.exists_bind (ihleft h.1) fun leftRows => ?_
    exact Recursion.exists_bind (ihright h.2) fun _ => ⟨_, Recursion.liftExcept_eq_some _⟩

/-- **With answers to its calls a query has one.** -/
theorem calls_executeSelectScoped : Recursion.Calls (executeSelectScoped ctx) (calls ctx) := by
  intro select call h
  unfold executeSelectScoped
  unfold calls at h
  cases hsource : call.statement.source with
  | none => exact ⟨_, rfl⟩
  | some source =>
    rw [hsource] at h
    exact Recursion.exists_bind (exists_executeSource h) fun _ =>
      ⟨_, Recursion.liftExcept_eq_some _⟩

/-! ## Smaller calls -/

/-- What is left of the text: the statement, and the expressions in
scope. -/
noncomputable def Call.weight (call : Call) : ℕ := sizeOf call.statement + sizeOf call.scope

/-- An expression in a list, with those before it, is smaller than the
list. -/
theorem sizeOf_append_cons (before after : List CommonTableExpression)
    (cte : CommonTableExpression) :
    sizeOf cte.query + sizeOf before < sizeOf (before ++ cte :: after) := by
  induction before with
  | nil =>
    obtain ⟨name, query⟩ := cte
    simp only [nil_append, cons.sizeOf_spec, nil.sizeOf_spec,
      CommonTableExpression.mk.sizeOf_spec]
    omega
  | cons first before ih =>
    simp only [cons_append, cons.sizeOf_spec]
    omega

/-- The expression a name stands for, with the scope of its definition, is
smaller than the scope it was found in. -/
theorem sizeOf_findCte {name : Bytes} {scope : CteScope} {cte : CommonTableExpression}
    {definitionScope : CteScope} (h : findCte name scope = some (cte, definitionScope)) :
    sizeOf cte.query + sizeOf definitionScope < sizeOf scope := by
  induction scope with
  | nil => cases h
  | cons ctes parent ih =>
    rw [findCte] at h
    cases hdrop : ctes.dropWhile fun cte => !namesEqual cte.name name with
    | nil =>
      rw [hdrop] at h
      have hparent := ih h
      simp only [cons.sizeOf_spec]
      omega
    | cons found after =>
      rw [hdrop] at h
      obtain ⟨rfl, rfl⟩ := Prod.mk.inj (Option.some.inj h)
      have hsplit := takeWhile_append_dropWhile (p := fun cte => !namesEqual cte.name name)
        (l := ctes)
      rw [hdrop] at hsplit
      have hless := sizeOf_append_cons (ctes.takeWhile fun cte => !namesEqual cte.name name) after
        found
      rw [hsplit] at hless
      simp only [cons.sizeOf_spec]
      omega

/-- The source and the expressions of a statement are parts of it. -/
theorem sizeOf_source {statement : SelectStatement} {source : RowSource}
    (h : statement.source = some source) :
    sizeOf source + sizeOf statement.ctes + 1 < sizeOf statement := by
  obtain ⟨ctes, _, _, _, _, _, _, _, _, _⟩ := statement
  subst h
  simp only [SelectStatement.mk.sizeOf_spec, Option.some.sizeOf_spec]
  omega

/-- **A call for a source is one level deeper**, and from a depth of eight
on for less of the text. -/
theorem sourceCalls_less {scope : CteScope} {depth : ℕ} {source : RowSource} {call : Call}
    (h : call ∈ sourceCalls ctx scope depth source) :
    call.depth = depth + 1 ∧ (depth < 8 ∨ call.weight < sizeOf source + sizeOf scope) := by
  induction source using RowSource.induction with
  | baseTable name label =>
    rw [sourceCalls] at h
    cases hcte : findCte name scope with
    | some found =>
      rw [hcte, mem_singleton] at h
      subst h
      have hless := sizeOf_findCte hcte
      refine ⟨rfl, .inr ?_⟩
      simp only [Call.weight]
      omega
    | none =>
      cases hview : ctx.findView name with
      | none =>
        simp only [hcte, hview] at h
        cases h
      | some query =>
        by_cases hdepth : depth ≥ 8
        · simp only [hcte, hview, if_pos hdepth] at h
          cases h
        · simp only [hcte, hview, if_neg hdepth, mem_singleton] at h
          subst h
          exact ⟨rfl, .inl (by omega)⟩
  | derivedTable query label =>
    rw [sourceCalls, mem_singleton] at h
    subst h
    refine ⟨rfl, .inr ?_⟩
    simp only [Call.weight, RowSource.derivedTable.sizeOf_spec]
    omega
  | join left joinType right on ihleft ihright =>
    rw [sourceCalls, mem_append] at h
    simp only [RowSource.join.sizeOf_spec]
    rcases h with h | h
    · obtain ⟨hdepth, hless⟩ := ihleft h
      exact ⟨hdepth, hless.imp_right fun hless => by omega⟩
    · obtain ⟨hdepth, hless⟩ := ihright h
      exact ⟨hdepth, hless.imp_right fun hless => by omega⟩

/-- The levels that are left, and then the text. -/
noncomputable def Call.rank (call : Call) : ℕ × ℕ := (8 - call.depth, call.weight)

/-- **Every call of a query ranks lower.** -/
theorem calls_less {call call' : Call} (h : call' ∈ calls ctx call) :
    Prod.Lex (· < ·) (· < ·) call'.rank call.rank := by
  unfold calls at h
  cases hsource : call.statement.source with
  | none =>
    rw [hsource] at h
    cases h
  | some source =>
    rw [hsource] at h
    obtain ⟨hdepth, hless⟩ := sourceCalls_less h
    rw [Prod.lex_def]
    simp only [Call.rank, hdepth]
    by_cases hlevel : call.depth < 8
    · exact .inl (by omega)
    · refine .inr ⟨by omega, ?_⟩
      have hweight := hless.resolve_left hlevel
      have hstatement := sizeOf_source hsource
      simp only [Call.weight, cons.sizeOf_spec] at hweight ⊢
      omega

theorem wellFounded_rank :
    WellFounded fun call call' : Call => Prod.Lex (· < ·) (· < ·) call.rank call'.rank :=
  InvImage.wf Call.rank (WellFounded.prod_lex wellFounded_lt wellFounded_lt)

/-- **Every query has an answer**, given calls enough. -/
theorem halts (ctx : Context) (call : Call) : ∃ n r, run ctx n call = some r :=
  Recursion.halts rising_executeSelectScoped calls_executeSelectScoped wellFounded_rank
    (fun _ _ => calls_less) call

/-! ## The answer -/

/-- **`executeSelectScoped`, for good.** -/
def answer (ctx : Context) : Call → Result ResultSet := Recursion.value (halts ctx)

theorem answer_of_run {n : ℕ} {call : Call} {r : Result ResultSet} (h : run ctx n call = some r) :
    answer ctx call = r :=
  Recursion.value_of_unroll (halts ctx) rising_executeSelectScoped h

theorem exists_run (ctx : Context) (call : Call) : ∃ n, run ctx n call = some (answer ctx call) :=
  Recursion.unroll_value (halts ctx) call

/-- **It is what the source says.** -/
theorem answer_eq (ctx : Context) (call : Call) :
    executeSelectScoped ctx (fun call' => some (answer ctx call')) call =
      some (answer ctx call) :=
  Recursion.value_eq (halts ctx) rising_executeSelectScoped call

/-- `executeNamedSource`, for good. -/
def namedSource (ctx : Context) (name : Bytes) (sourceAlias : Option Bytes) (scope : CteScope)
    (depth : ℕ) : Running RowSet :=
  executeNamedSource ctx (fun call => some (answer ctx call)) name sourceAlias scope depth

/-- `executeSelect`. -/
def executeSelect (loadBaseTable : Bytes → Result BaseTable)
    (findView : Bytes → Option SelectStatement) (statement : SelectStatement) : Result ResultSet :=
  answer ⟨loadBaseTable, findView⟩ ⟨statement, [], 0⟩

end QuerySource

end Shoveler
