import Shoveler.Model.Procedure

/-!
# The copy of a view's query

`view.zig` keeps a copy of the query a view is created with, made clause by
clause: the common table expressions, the projections twice, the source
with the queries inside it, the conditions, the keys. Nothing is lost on
the way (`cloneSelect_eq`), so that a registry may be said to keep the
query itself (`create_eq`).
-/

namespace Shoveler

namespace ViewRegistry

open Ast

/-- `cloneLiteral`. -/
def cloneLiteral : Literal → Literal
  | .null => .null
  | .integer v => .integer v
  | .float v => .float v
  | .boolean v => .boolean v
  | .string v => .string v
  | .vector v => .vector v

mutual

/-- `cloneExpression`. -/
def cloneExpression : Expression → Expression
  | .star => .star
  | .identifier identifier => .identifier identifier
  | .literal literal => .literal (cloneLiteral literal)
  | .functionCall name args => .functionCall name (cloneExpressions args)
  | .binary left operator right => .binary (cloneExpression left) operator (cloneExpression right)

/-- Its loop over the arguments of a call, and those of `cloneSelect` over
the projections and the keys of the groups. -/
def cloneExpressions : List Expression → List Expression
  | [] => []
  | expression :: rest => cloneExpression expression :: cloneExpressions rest

end

/-- The loop of `cloneSelect` over the projections with their aliases. -/
def cloneProjection (projection : Projection) : Projection :=
  ⟨cloneExpression projection.expression, projection.label⟩

/-- The loop of `cloneSelect` over the keys of the order. -/
def cloneOrderKey (order : OrderKey) : OrderKey :=
  ⟨cloneExpression order.expression, order.direction⟩

mutual

/-- `cloneSelect`. -/
def cloneSelect : SelectStatement → SelectStatement
  | ⟨ctes, projectionItems, projections, fromName, source, whereClause, groupBy, having, orderBy,
      limit⟩ =>
    ⟨cloneCtes ctes, projectionItems.map cloneProjection, cloneExpressions projections, fromName,
      cloneSource source, whereClause.map cloneExpression, cloneExpressions groupBy,
      having.map cloneExpression, orderBy.map cloneOrderKey, limit⟩

/-- Its loop over the common table expressions. -/
def cloneCtes : List CommonTableExpression → List CommonTableExpression
  | [] => []
  | cte :: rest => cloneCte cte :: cloneCtes rest

/-- One round of it. -/
def cloneCte : CommonTableExpression → CommonTableExpression
  | ⟨name, query⟩ => ⟨name, cloneSelect query⟩

/-- The optional source of a query. -/
def cloneSource : Option RowSource → Option RowSource
  | none => none
  | some source => some (cloneRowSource source)

/-- `cloneRowSource`. -/
def cloneRowSource : RowSource → RowSource
  | .baseTable name label => .baseTable name label
  | .derivedTable query label => .derivedTable (cloneSelect query) label
  | .join left joinType right on =>
    .join (cloneRowSource left) joinType (cloneRowSource right) (on.map cloneExpression)

end

/-- `ViewRegistry.create`. -/
def create (views : List StoredView) (name : Bytes) (query : SelectStatement) :
    Result (List StoredView) :=
  if (views.findIdx? fun stored => namesEqual stored.name name).isSome then .error .duplicateObject
  else if query.source.isNone ∧ query.fromName.isNone then .error .unsupportedView
  else .ok (views ++ [⟨name, cloneSelect query⟩])

/-! ## The copy is the query -/

theorem cloneLiteral_eq (literal : Literal) : cloneLiteral literal = literal := by
  cases literal <;> rfl

mutual

theorem cloneExpression_eq : ∀ expression : Expression, cloneExpression expression = expression
  | .star => rfl
  | .identifier _ => rfl
  | .literal literal => by rw [cloneExpression, cloneLiteral_eq]
  | .functionCall _ args => by rw [cloneExpression, cloneExpressions_eq args]
  | .binary left _ right => by
    rw [cloneExpression, cloneExpression_eq left, cloneExpression_eq right]

theorem cloneExpressions_eq : ∀ expressions : List Expression,
    cloneExpressions expressions = expressions
  | [] => rfl
  | expression :: rest => by
    rw [cloneExpressions, cloneExpression_eq expression, cloneExpressions_eq rest]

end

theorem cloneProjection_eq (projection : Projection) : cloneProjection projection = projection := by
  rw [cloneProjection, cloneExpression_eq]

theorem cloneOrderKey_eq (order : OrderKey) : cloneOrderKey order = order := by
  rw [cloneOrderKey, cloneExpression_eq]

/-- An optional clause. -/
theorem map_cloneExpression_eq (clause : Option Expression) :
    clause.map cloneExpression = clause := by
  cases clause with
  | none => rfl
  | some clause => rw [Option.map_some, cloneExpression_eq]

mutual

/-- **The copy of a query is the query.** -/
theorem cloneSelect_eq : ∀ query : SelectStatement, cloneSelect query = query
  | ⟨ctes, projectionItems, projections, fromName, source, whereClause, groupBy, having, orderBy,
      limit⟩ => by
    rw [cloneSelect, cloneCtes_eq ctes, cloneSource_eq source, cloneExpressions_eq,
      cloneExpressions_eq, map_cloneExpression_eq, map_cloneExpression_eq,
      List.map_id'' cloneProjection_eq, List.map_id'' cloneOrderKey_eq]

theorem cloneCtes_eq : ∀ ctes : List CommonTableExpression, cloneCtes ctes = ctes
  | [] => rfl
  | cte :: rest => by rw [cloneCtes, cloneCte_eq cte, cloneCtes_eq rest]

theorem cloneCte_eq : ∀ cte : CommonTableExpression, cloneCte cte = cte
  | ⟨_, query⟩ => by rw [cloneCte, cloneSelect_eq query]

theorem cloneSource_eq : ∀ source : Option RowSource, cloneSource source = source
  | none => rfl
  | some source => by rw [cloneSource, cloneRowSource_eq source]

theorem cloneRowSource_eq : ∀ source : RowSource, cloneRowSource source = source
  | .baseTable _ _ => rfl
  | .derivedTable query _ => by rw [cloneRowSource, cloneSelect_eq query]
  | .join left _ right _ => by
    rw [cloneRowSource, cloneRowSource_eq left, cloneRowSource_eq right, map_cloneExpression_eq]

end

/-- **A registry keeps the query it is given.** -/
theorem create_eq (views : List StoredView) (name : Bytes) (query : SelectStatement) :
    create views name query = createStoredView views name query := by
  rw [create, cloneSelect_eq, createStoredView]

end ViewRegistry

end Shoveler
