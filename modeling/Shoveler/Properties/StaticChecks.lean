import Shoveler.Model.Parser
import Shoveler.Properties.JoinSemantics
import Shoveler.Properties.SessionQueries
import Shoveler.Query.Names
import Shoveler.Query.ValueErrors

/-!
# What a query checks beforehand

Before a query that groups nothing is evaluated, the form of its
expressions is checked against the columns of its source. After that an
evaluation should fail for the values it meets only. The check lets a star
stand anywhere, although it has no value; the evaluator passes over it only
where it is the whole list of projections. So on a row the check keeps what
it promises if and only if the evaluation comes to no other star
(`checked_select_fails_on_values`); and a query with one goes through as
long as it meets no row (`star_beside_column_depends_on_rows`).
-/

namespace Shoveler

open Outcome

namespace QuerySource

open Ast

/-! ## Stars -/

/-- **The evaluation comes to a star**, if so `star`: then it is refused for
its form, and otherwise it fails for values only. -/
structure Stops {α : Type} (star : Bool) (result : Result α) : Prop where
  form : star = true → result = .error .unsupportedExpression
  values : star = false → FailsWith ValueError result

namespace Stops

variable {α β : Type} {star later : Bool} {result : Result α} {f : α → Result β}

theorem of_values (h : FailsWith ValueError result) : Stops false result :=
  ⟨fun hs => (by cases hs), fun _ => h⟩

/-- One evaluation after the other: the second is come to if the first has
a value. -/
theorem bind (h : Stops star result) (hf : ∀ a, result = .ok a → Stops later (f a)) :
    Stops (star || result.toOption.isSome && later) (result >>= f) := by
  cases result with
  | error e =>
    cases star with
    | true => exact ⟨fun _ => by rw [h.form rfl]; rfl, fun hs => by cases hs⟩
    | false => exact .of_values (.error (h.values rfl e rfl))
  | ok a =>
    cases star with
    | true => cases h.form rfl
    | false => exact hf a rfl

theorem iff (h : Stops star result) : FailsWith ValueError result ↔ star = false := by
  constructor
  · intro hfails
    by_contra hstar
    exact absurd (hfails _ (h.form (Bool.not_eq_false _ ▸ hstar))) (by decide)
  · exact h.values

end Stops

section Row

variable (columns : List ColumnBinding) (row : List Value)

/-- Whether the evaluation of an expression on a row comes to a star: in its
operands, from the left, as long as they have values. -/
def comesToStar : Expression → Bool
  | .star => true
  | .literal _ | .identifier _ => false
  | .binary left _ right => comesToStar left ||
    (evalExpression columns row left).toOption.isSome && comesToStar right
  | .functionCall name args =>
    match distanceFunction name, args with
    | some _, [left, right] => comesToStar left ||
      (evalExpression columns row left).toOption.isSome && comesToStar right
    | _, _ => false

/-- The same of expressions that are evaluated one after the other. -/
def someComesToStar : List Expression → Bool
  | [] => false
  | expression :: expressions => comesToStar columns row expression ||
    (evalExpression columns row expression).toOption.isSome && someComesToStar expressions

variable {columns row}

/-- **What was checked has a value, or fails for the values it meets**,
unless it comes to a star. -/
theorem stops_evalExpression (hrow : row.length = columns.length) {expression : Expression}
    (hvalid : validateExpression columns expression = .ok ()) :
    Stops (comesToStar columns row expression) (evalExpression columns row expression) := by
  have hoperands : ∀ {α} {star later : Bool} {left right : Result Value} {k : Value → Value → Result α},
      Stops star left → Stops later right → (∀ l r, FailsWith ValueError (k l r)) →
      Stops (star || left.toOption.isSome && later)
        (left >>= fun l => right >>= fun r => k l r) := by
    intro α star later left right k hleft hright hk
    refine hleft.bind fun l _ => ?_
    have hboth := hright.bind (f := k l) fun r _ => .of_values (hk l r)
    rw [Bool.and_false, Bool.or_false] at hboth
    exact hboth
  induction expression using evalExpression.induct with
  | case1 literal => exact .of_values (fails_valueFromLiteral literal)
  | case2 identifier =>
    obtain ⟨index, hindex, -⟩ := bind_eq_ok.1 hvalid
    have hlt := findColumn_lt hindex
    rw [← hrow] at hlt
    rw [evalExpression, resolveIdentifier, hindex, ok_bind, List.getElem?_eq_getElem hlt]
    exact .of_values (.ok _)
  | case3 left operator right ihleft ihright =>
    obtain ⟨_, hleft, hright⟩ := bind_eq_ok.1 hvalid
    exact hoperands (ihleft hleft) (ihright hright) fun _ _ => fails_evalBinaryValues _ _ operator
  | case4 name distance left right hname ihleft ihright =>
    rw [validateExpression.eq_5 _ _ _ _ _ hname] at hvalid
    obtain ⟨_, hleft, hright⟩ := bind_eq_ok.1 hvalid
    rw [evalExpression.eq_4 _ _ _ _ _ _ hname, comesToStar.eq_5 _ _ _ _ _ _ hname]
    exact hoperands (ihleft hleft) (ihright hright) fun _ _ => fails_applyDistance hname _ _
  | case5 name args hother =>
    rw [validateExpression.eq_6 _ _ _ hother] at hvalid
    cases hvalid
  | case6 => exact ⟨fun _ => rfl, fun h => by cases h⟩

theorem stops_mapM (hrow : row.length = columns.length) {expressions : List Expression}
    (hvalid : ∀ expression ∈ expressions, validateExpression columns expression = .ok ()) :
    Stops (someComesToStar columns row expressions)
      (expressions.mapM (evalExpression columns row)) := by
  induction expressions with
  | nil => exact .of_values (.ok [])
  | cons expression expressions ih =>
    rw [List.forall_mem_cons] at hvalid
    rw [List.mapM_cons]
    refine (stops_evalExpression hrow hvalid.1).bind fun value _ => ?_
    have hrest := (ih hvalid.2).bind (f := fun values => pure (value :: values))
      fun values _ => .of_values (.ok _)
    rw [Bool.and_false, Bool.or_false] at hrest
    exact hrest

end Row

/-! ## Queries -/

/-- **On this row the query comes to no star**, but for one that is all
there is to project. -/
structure NoStar (columns : List ColumnBinding) (row : List Value) (statement : SelectStatement) :
    Prop where
  projections : isStarProjection (projectionItems statement) = true ∨
    someComesToStar columns row ((projectionItems statement).map Projection.expression) = false
  whereClause : ∀ clause ∈ statement.whereClause, comesToStar columns row clause = false
  orderBy : ∀ order ∈ statement.orderBy, ∀ target,
    orderTarget (projectionItems statement) order.expression = .ok target →
    comesToStar columns row target = false

/-- **On this row the query fails for values only.** -/
structure FailsOnValues (columns : List ColumnBinding) (row : List Value)
    (statement : SelectStatement) : Prop where
  projections : FailsWith ValueError (projectRow columns row (projectionItems statement))
  whereClause : FailsWith ValueError (matchesWhere columns row statement.whereClause)
  orderBy : ∀ order ∈ statement.orderBy, FailsWith ValueError
    (evalOrderExpression columns (projectionItems statement) row order.expression)

section Select

variable {columns : List ColumnBinding} {row : List Value} {statement : SelectStatement}

theorem projectRow_iff (hvalid : validateSelect columns statement (projectionItems statement) = .ok ())
    (hrow : row.length = columns.length) :
    FailsWith ValueError (projectRow columns row (projectionItems statement)) ↔
      isStarProjection (projectionItems statement) = true ∨
        someComesToStar columns row ((projectionItems statement).map Projection.expression) =
          false := by
  obtain ⟨_, hprojections, -⟩ := bind_eq_ok.1 hvalid
  by_cases hstar : isStarProjection (projectionItems statement) = true
  · rw [projectRow, if_pos hstar]
    exact ⟨fun _ => .inl hstar, fun _ => .ok row⟩
  · have hstops : Stops (someComesToStar columns row
        ((projectionItems statement).map Projection.expression)) _ :=
      stops_mapM hrow (List.forall_mem_map.2 (forM_eq_ok.1 hprojections))
    rw [List.mapM_map] at hstops
    rw [projectRow, if_neg hstar, or_iff_right hstar]
    exact hstops.iff

theorem matchesWhere_iff
    (hvalid : validateSelect columns statement (projectionItems statement) = .ok ())
    (hrow : row.length = columns.length) :
    FailsWith ValueError (matchesWhere columns row statement.whereClause) ↔
      ∀ clause ∈ statement.whereClause, comesToStar columns row clause = false := by
  obtain ⟨_, -, hvalid⟩ := bind_eq_ok.1 hvalid
  obtain ⟨_, hwhere, -⟩ := bind_eq_ok.1 hvalid
  cases hclause : statement.whereClause with
  | none =>
    refine ⟨fun _ clause h => ?_, fun _ => .ok true⟩
    cases h
  | some clause =>
    rw [hclause] at hwhere
    have hcondition : ∀ value, Stops false (asCondition value) := by
      intro value
      unfold asCondition
      split
      · exact .of_values (.ok _)
      · exact .of_values (.error (by decide))
    have hstops := (stops_evalExpression hrow hwhere).bind fun value _ => hcondition value
    rw [Bool.and_false, Bool.or_false] at hstops
    rw [matchesWhere, hstops.iff]
    exact ⟨fun h _ hmem => Option.some.inj hmem ▸ h, fun h => h clause rfl⟩

theorem evalOrderExpression_iff
    (hvalid : validateSelect columns statement (projectionItems statement) = .ok ())
    (hrow : row.length = columns.length) {order : OrderKey} (horder : order ∈ statement.orderBy) :
    FailsWith ValueError
        (evalOrderExpression columns (projectionItems statement) row order.expression) ↔
      ∀ target, orderTarget (projectionItems statement) order.expression = .ok target →
        comesToStar columns row target = false := by
  obtain ⟨_, -, hvalid⟩ := bind_eq_ok.1 hvalid
  obtain ⟨_, -, horders⟩ := bind_eq_ok.1 hvalid
  obtain ⟨target, htarget, hexpression⟩ :=
    bind_eq_ok.1 (forM_eq_ok.1 horders order horder)
  rw [evalOrderExpression, htarget, ok_bind, (stops_evalExpression hrow hexpression).iff]
  exact ⟨fun h _ hsame => Except.ok.inj hsame ▸ h, fun h => h target rfl⟩

/-- **The check keeps its promise where no star is come to.** -/
theorem failsOnValues_iff
    (hvalid : validateSelect columns statement (projectionItems statement) = .ok ())
    (hrow : row.length = columns.length) :
    FailsOnValues columns row statement ↔ NoStar columns row statement := by
  constructor
  · intro h
    exact ⟨(projectRow_iff hvalid hrow).1 h.projections,
      (matchesWhere_iff hvalid hrow).1 h.whereClause,
      fun order horder => (evalOrderExpression_iff hvalid hrow horder).1 (h.orderBy order horder)⟩
  · intro h
    exact ⟨(projectRow_iff hvalid hrow).2 h.projections,
      (matchesWhere_iff hvalid hrow).2 h.whereClause,
      fun order horder => (evalOrderExpression_iff hvalid hrow horder).2 (h.orderBy order horder)⟩

end Select

/-! ## Sorting -/

theorem fails_comesAfter {left right : Expression → Result Value} {orders : List OrderKey}
    (h : ∀ order ∈ orders, FailsWith ValueError (left order.expression) ∧
      FailsWith ValueError (right order.expression)) :
    FailsWith ValueError (comesAfter left right orders) := by
  induction orders with
  | nil => exact .ok _
  | cons order orders ih =>
    rw [List.forall_mem_cons] at h
    refine h.1.1.bind fun _ _ => h.1.2.bind fun _ _ => (fails_compareValues _ _).bind fun _ _ => ?_
    split
    · exact ih h.2
    · split
      · exact .ok _
      · exact .ok _

theorem fails_sortUnless {ι : Type} {after : ι → ι → Result Bool}
    (h : ∀ a b, FailsWith ValueError (after a b)) (orders : List OrderKey) (items : List ι) :
    FailsWith ValueError (sortUnless after orders items) := by
  have hmove : ∀ new before, FailsWith ValueError (moveForward after new before) := by
    intro new before
    induction before with
    | nil => exact .ok _
    | cons last before ih =>
      refine (h last new).bind fun later _ => ?_
      split
      · exact ih.bind fun _ _ => .ok _
      · exact .ok _
  unfold sortUnless
  split
  · exact .ok _
  · refine FailsWith.bind ?_ fun _ _ => .ok _
    exact .foldlM (P := fun _ => True) (fun _ _ _ _ _ _ => trivial) (fun _ _ _ _ => hmove _ _)
      trivial

/-! ## The promise -/

/-- **A checked query fails on values only, where it comes to no star.** For
every row set whose columns a query without groups was checked against:
on a row of that width its projections, its `WHERE` and the keys of its
`ORDER BY` fail for the values in the row only, if and only if none of
them comes to a star, one that is all there is to project aside. And where
that holds of every row, the whole query fails for values only. -/
theorem checked_select_fails_on_values {columns : List ColumnBinding} {statement : SelectStatement}
    (hplain : isAggregateSelect statement (projectionItems statement) = false)
    (hvalid : validateSelect columns statement (projectionItems statement) = .ok ()) :
    (∀ row, row.length = columns.length →
        (FailsOnValues columns row statement ↔ NoStar columns row statement)) ∧
      ∀ rows, (⟨columns, rows⟩ : RowSet).Fits → (∀ row ∈ rows, NoStar columns row statement) →
        FailsWith ValueError (selectFrom ⟨columns, rows⟩ statement) := by
  refine ⟨fun row hrow => failsOnValues_iff hvalid hrow, fun rows hfits hnone => ?_⟩
  have hfails : ∀ index,
      FailsOnValues columns ((⟨columns, rows⟩ : RowSet).row index) statement := fun index =>
    (failsOnValues_iff hvalid (hfits _ (List.get_mem _ _))).2 (hnone _ (List.get_mem _ _))
  rw [selectFrom_of_plain _ hplain]
  refine FailsWith.bind (.keep fun index _ => (hfails index).whereClause) fun indices _ => ?_
  rw [hvalid, ok_bind]
  refine (fails_sortUnless (fun a b => fails_comesAfter fun order horder => ?_) _ _).bind
    fun sorted _ => ?_
  · exact ⟨(hfails a).orderBy order horder, (hfails b).orderBy order horder⟩
  · exact FailsWith.bind (.mapM fun index _ => (hfails index).projections) fun _ _ => .ok _

/-! ### A star and a column -/

/-- `SELECT .., v FROM A`. -/
def besideColumn (first : Expression) : SelectStatement where
  projectionItems := [{ expression := first }, { expression := .identifier (ascii "v") }]
  projections := [first, .identifier (ascii "v")]
  fromName := some (ascii "A")
  source := some (.baseTable (ascii "A") none)

/-- `SELECT v + 1, v FROM A` fails where the sum is out of range only. -/
theorem checked_select_fails_on_values_sum :
    FailsWith ValueError (selectFrom
      ⟨[⟨ascii "v", [ascii "A"]⟩], [[.integer 9223372036854775807]]⟩
      (besideColumn (.binary (.identifier (ascii "v")) .add (.literal (.integer 1))))) := by
  refine (checked_select_fails_on_values (by decide) (by decide)).2 _
    (List.forall_mem_singleton.2 rfl) (List.forall_mem_singleton.2 ⟨.inr (by decide), ?_, ?_⟩)
  · intro clause hclause
    cases hclause
  · intro order horder
    cases horder

/-- **A star beside a column is accepted as long as there is no row.** The
query `SELECT *, v FROM A` passes its check, gives a result over an empty
table, and is refused for its form over a table with rows. -/
theorem star_beside_column_depends_on_rows :
    Sql.parse (fun _ => none) (ascii "SELECT *, v FROM A") = .ok (.select (besideColumn .star)) ∧
      validateSelect [⟨ascii "v", [ascii "A"]⟩] (besideColumn .star)
        (projectionItems (besideColumn .star)) = .ok () ∧
      Script.twoTables.select 0 (besideColumn .star) = .ok ⟨[ascii "*", ascii "v"], []⟩ ∧
      overlapping.select 0 (besideColumn .star) = .error .unsupportedExpression := by
  have hempty : run (Script.twoTables.queryContext 0) 1 ⟨besideColumn .star, [], 0⟩ =
      some (.ok ⟨[ascii "*", ascii "v"], []⟩) := by decide +kernel
  have hrows : run (overlapping.queryContext 0) 1 ⟨besideColumn .star, [], 0⟩ =
      some (.error .unsupportedExpression) := by decide +kernel
  exact ⟨rfl, by decide, System.select_of_run hempty, System.select_of_run hrows⟩

end QuerySource

end Shoveler
