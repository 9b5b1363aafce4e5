import Shoveler.Model.Expression

/-!
# Stored views and procedures

The runtime registries of `view.zig` and `procedure.zig`, and the
variables of a running procedure: its environment, the evaluation of its
expressions, and the materialisation that puts the variables' values
into the statements of its body.
-/

namespace Shoveler

open Ast (Literal BinaryOperator Expression SelectStatement RowSource CommonTableExpression
  Projection OrderKey)

/-! ## Registries -/

/-- `StoredView`. -/
structure StoredView where
  name : Bytes
  query : SelectStatement

/-- `ViewRegistry.create`, on the list of stored views. -/
def createStoredView (views : List StoredView) (name : Bytes) (query : SelectStatement) :
    Result (List StoredView) :=
  if (views.findIdx? fun stored => namesEqual stored.name name).isSome then .error .duplicateObject
  else if query.source.isNone ∧ query.fromName.isNone then .error .unsupportedView
  else .ok (views ++ [⟨name, query⟩])

/-- `ViewRegistry.drop`. -/
def dropStoredView (views : List StoredView) (name : Bytes) : Result (List StoredView) :=
  match views.findIdx? fun stored => namesEqual stored.name name with
  | none => .error .unknownObject
  | some index => .ok (views.eraseIdx index)

/-- `StoredProcedure`. -/
structure StoredProcedure where
  name : Bytes
  params : List Ast.ProcedureParam
  body : ProcedureBody.Body

/-- `ProcedureRegistry.create`, with the parser of bodies. -/
def createStoredProcedure (parseBody : Bytes → Option ProcedureBody.Body)
    (procedures : List StoredProcedure) (name : Bytes) (params : List Ast.ProcedureParam)
    (bodySql : Bytes) : Result (List StoredProcedure) :=
  if (procedures.findIdx? fun stored => namesEqual stored.name name).isSome then
    .error .duplicateObject
  else
    match parseBody bodySql with
    | none => .error .unsupportedProcedure
    | some body => .ok (procedures ++ [⟨name, params, body⟩])

/-- `ProcedureRegistry.drop`. -/
def dropStoredProcedure (procedures : List StoredProcedure) (name : Bytes) :
    Result (List StoredProcedure) :=
  match procedures.findIdx? fun stored => namesEqual stored.name name with
  | none => .error .unknownObject
  | some index => .ok (procedures.eraseIdx index)

/-! ## Procedure variables -/

/-- `ProcedureVariable`. -/
structure ProcedureVariable where
  name : Bytes
  runtimeValue : Value
deriving DecidableEq, Repr

/-- `ProcedureEnv`. -/
abbrev ProcedureEnv := List ProcedureVariable

namespace ProcedureEnv

/-- `findIndex`. -/
def findIndex (self : ProcedureEnv) (name : Bytes) : Option ℕ :=
  self.findIdx? fun v => namesEqual v.name name

/-- `declare`. -/
def declare (self : ProcedureEnv) (name : Bytes) (value : Value) : Result ProcedureEnv :=
  if (findIndex self name).isSome then .error .duplicateObject else .ok (self ++ [⟨name, value⟩])

/-- `set`. -/
def assign (self : ProcedureEnv) (name : Bytes) (value : Value) : Result ProcedureEnv :=
  match findIndex self name with
  | none => .error .unknownObject
  | some index => .ok (self.modify index fun v => { v with runtimeValue := value })

/-- `get`. -/
def lookup (self : ProcedureEnv) (name : Bytes) : Option Value :=
  (self.find? fun v => namesEqual v.name name).map ProcedureVariable.runtimeValue

end ProcedureEnv

/-- `evalProcedureExpression`. -/
def evalProcedureExpression (env : ProcedureEnv) : Expression → Result Value
  | .literal literal => valueFromLiteral literal
  | .identifier name =>
    match env.lookup name with
    | none => .error .unknownObject
    | some value => .ok value
  | .binary left operator right => do
    let left ← evalProcedureExpression env left
    let right ← evalProcedureExpression env right
    evalBinaryValues left right operator
  | .functionCall _ _ => .error .unsupportedExpression
  | .star => .error .unsupportedExpression

/-! ## Materialisation -/

/-- `literalFromValue`. -/
def literalFromValue : Value → Result Literal
  | .null => .ok .null
  | .integer v => .ok (.integer v)
  | .float bits => .ok (.float bits)
  | .boolean v => .ok (.boolean v)
  | .text bytes => .ok (.string bytes)
  | .blob _ => .error .unsupportedProcedure
  | .vector v => .ok (.vector (v.values.map widen))

mutual

/-- `materializeProcedureExpression`. -/
def materializeExpression (env : ProcedureEnv) : Expression → Result Expression
  | .identifier name =>
    match env.lookup name with
    | some value => do return .literal (← literalFromValue value)
    | none => .ok (.identifier name)
  | .literal literal => .ok (.literal literal)
  | .star => .ok .star
  | .functionCall name args => do return .functionCall name (← materializeExpressions env args)
  | .binary left operator right => do
    let left ← materializeExpression env left
    let right ← materializeExpression env right
    return .binary left operator right

/-- `materializeExpressions`. -/
def materializeExpressions (env : ProcedureEnv) : List Expression → Result (List Expression)
  | [] => .ok []
  | expression :: rest => do
    let expression ← materializeExpression env expression
    let rest ← materializeExpressions env rest
    return expression :: rest

end

/-- An optional clause, materialised where it is there. -/
def materializeOptional (env : ProcedureEnv) : Option Expression → Result (Option Expression)
  | none => .ok none
  | some expression => do return some (← materializeExpression env expression)

/-- `materializeProjectionItems`. -/
def materializeProjectionItems (env : ProcedureEnv) (items : List Projection) :
    Result (List Projection) :=
  items.mapM fun item => do
    return { item with expression := ← materializeExpression env item.expression }

/-- `materializeOrderKeys`. -/
def materializeOrderKeys (env : ProcedureEnv) (keys : List OrderKey) : Result (List OrderKey) :=
  keys.mapM fun key => do
    return { key with expression := ← materializeExpression env key.expression }

mutual

/-- `materializeSelectStatement`. -/
def materializeSelect (env : ProcedureEnv) : SelectStatement → Result SelectStatement
  | ⟨ctes, projectionItems, projections, fromName, source, whereClause, groupBy, having, orderBy,
      limit⟩ => do
    let ctes ← materializeCtes env ctes
    let projectionItems ← materializeProjectionItems env projectionItems
    let projections ← materializeExpressions env projections
    let source ← materializeSource env source
    let whereClause ← materializeOptional env whereClause
    let groupBy ← materializeExpressions env groupBy
    let having ← materializeOptional env having
    let orderBy ← materializeOrderKeys env orderBy
    return ⟨ctes, projectionItems, projections, fromName, source, whereClause, groupBy, having,
      orderBy, limit⟩

/-- `materializeCtes`. -/
def materializeCtes (env : ProcedureEnv) :
    List CommonTableExpression → Result (List CommonTableExpression)
  | [] => .ok []
  | cte :: rest => do
    let cte ← materializeCte env cte
    let rest ← materializeCtes env rest
    return cte :: rest

/-- One step of `materializeCtes`. -/
def materializeCte (env : ProcedureEnv) : CommonTableExpression → Result CommonTableExpression
  | ⟨name, query⟩ => do return ⟨name, ← materializeSelect env query⟩

/-- The optional source of a `SELECT`. -/
def materializeSource (env : ProcedureEnv) : Option RowSource → Result (Option RowSource)
  | none => .ok none
  | some source => do return some (← materializeRowSource env source)

/-- `materializeRowSource`. -/
def materializeRowSource (env : ProcedureEnv) : RowSource → Result RowSource
  | .baseTable name label => .ok (.baseTable name label)
  | .derivedTable query label => do return .derivedTable (← materializeSelect env query) label
  | .join left joinType right on => do
    let left ← materializeRowSource env left
    let right ← materializeRowSource env right
    let on ← materializeOptional env on
    return .join left joinType right on

end

/-- `materializeProcedureStatement`: the four kinds of statement a body may
run. -/
def materializeProcedureStatement (env : ProcedureEnv) : Ast.Statement → Result Ast.Statement
  | .insert statement => do
    return .insert { statement with values := ← materializeExpressions env statement.values }
  | .update statement => do
    let assignments ← statement.assignments.mapM fun assignment => do
      return { assignment with value := ← materializeExpression env assignment.value }
    let whereClause ← materializeOptional env statement.whereClause
    return .update { statement with assignments := assignments, whereClause := whereClause }
  | .delete statement => do
    return .delete { statement with whereClause := ← materializeOptional env statement.whereClause }
  | .select statement => do return .select (← materializeSelect env statement)
  | _ => .error .unsupportedProcedure

end Shoveler
