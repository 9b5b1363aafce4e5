import Mathlib.Data.List.FinRange
import Shoveler.Common.Recursion
import Shoveler.Model.Executor
import Shoveler.Model.Tokenizer

/-!
# Queries

`query_source.zig` and `aggregate.zig`: a `SELECT` over base tables, views,
common table expressions, derived tables and joins of them. What a query
does with the rows of its source (`WHERE`, grouping, `ORDER BY`, `LIMIT`,
projection) calls nothing back. The functions that come back to
themselves, from a query to its source and from a named or derived source
to a query, are written with the call as an argument (`select`), and
unrolled: an answer is missing where there were too few calls.
-/

namespace Shoveler

open Outcome

namespace Ast

/-- `IdentifierParts`. -/
structure IdentifierParts where
  qualifier : Option Bytes := none
  name : Bytes
deriving DecidableEq, Repr

/-- `identifierParts`: the text is cut at its first point. -/
def identifierParts (identifier : Bytes) : IdentifierParts :=
  if Byte.dot ∈ identifier then
    ⟨some (identifier.takeWhile (· != Byte.dot)), (identifier.dropWhile (· != Byte.dot)).tail⟩
  else ⟨none, identifier⟩

end Ast

namespace QuerySource

open Ast

/-! ## Columns -/

/-- `ColumnBinding`. -/
structure ColumnBinding where
  name : Bytes
  labels : List Bytes
deriving DecidableEq, Repr

/-- `ColumnBinding.hasLabel`. -/
def ColumnBinding.hasLabel (self : ColumnBinding) (label : Bytes) : Bool :=
  self.labels.any fun candidate => namesEqual candidate label

/-- The columns that `validateIdentifier` and `resolveIdentifier` count. -/
def ColumnBinding.answers (self : ColumnBinding) (parts : IdentifierParts) : Bool :=
  namesEqual self.name parts.name &&
    match parts.qualifier with
    | none => true
    | some qualifier => self.hasLabel qualifier

/-- The loop of `validateIdentifier` and of `resolveIdentifier`: the index
of the only column that answers. -/
def findColumn (columns : List ColumnBinding) (identifier : Bytes) : Result ℕ :=
  let parts := identifierParts identifier
  match (columns.zipIdx.filter fun column => column.1.answers parts).map Prod.snd with
  | [] => .error .unknownColumn
  | [index] => .ok index
  | _ => .error .ambiguousColumn

/-- `validateIdentifier`. -/
def validateIdentifier (columns : List ColumnBinding) (identifier : Bytes) : Result Unit := do
  let _ ← findColumn columns identifier
  return ()

/-- `resolveIdentifier`. -/
def resolveIdentifier (columns : List ColumnBinding) (row : List Value) (identifier : Bytes) :
    Result Value := do
  match row[← findColumn columns identifier]? with
  | none => .error (.panic .indexOutOfBounds)
  | some value => .ok value

/-- `sourceLabels`. -/
def sourceLabels (sourceName : Bytes) : Option Bytes → List Bytes
  | some sourceAlias => [sourceAlias, sourceName]
  | none => [sourceName]

/-- `RowSet`. -/
structure RowSet where
  columns : List ColumnBinding
  rows : List (List Value)
deriving DecidableEq

namespace RowSet

/-- An index into the rows. -/
abbrev Index (self : RowSet) := Fin self.rows.length

/-- The row at an index. -/
def row (self : RowSet) (index : self.Index) : List Value := self.rows.get index

end RowSet

/-- `rowSetFromBaseTable`. -/
def rowSetFromBaseTable (table : BaseTable) (sourceAlias : Option Bytes) : RowSet where
  columns := table.columns.map fun column => ⟨column.name, sourceLabels table.name sourceAlias⟩
  rows := table.rows.map Row.values

/-- `rowSetFromResult`. -/
def rowSetFromResult (result : ResultSet) (sourceName : Bytes) (sourceAlias : Option Bytes) :
    RowSet where
  columns := result.columns.map fun column => ⟨column, sourceLabels sourceName sourceAlias⟩
  rows := result.rows

/-! ## Expressions over a row -/

/-- `evalExpression`. -/
def evalExpression (columns : List ColumnBinding) (row : List Value) : Expression → Result Value
  | .literal literal => valueFromLiteral literal
  | .identifier identifier => resolveIdentifier columns row identifier
  | .binary left operator right => do
    let left ← evalExpression columns row left
    let right ← evalExpression columns row right
    evalBinaryValues left right operator
  | .functionCall name args =>
    match distanceFunction name, args with
    | some distance, [left, right] => do
      let left ← evalExpression columns row left
      let right ← evalExpression columns row right
      applyDistance distance left right
    | _, _ => .error .unsupportedExpression
  | .star => .error .unsupportedExpression

/-- What `matchesWhere` and `groupMatchesHaving` ask of a value. -/
def asCondition : Value → Result Bool
  | .boolean holds => .ok holds
  | _ => .error .typeMismatch

/-- `matchesWhere`. -/
def matchesWhere (columns : List ColumnBinding) (row : List Value) : Option Expression → Result Bool
  | none => .ok true
  | some clause => do asCondition (← evalExpression columns row clause)

/-- `validateExpression`. -/
def validateExpression (columns : List ColumnBinding) : Expression → Result Unit
  | .star => .ok ()
  | .literal _ => .ok ()
  | .identifier identifier => validateIdentifier columns identifier
  | .binary left _ right => do
    validateExpression columns left
    validateExpression columns right
  | .functionCall name args =>
    match distanceFunction name, args with
    | some _, [left, right] => do
      validateExpression columns left
      validateExpression columns right
    | _, _ => .error .unsupportedExpression

/-- A check of an optional clause. -/
def validateClause (check : Expression → Result Unit) : Option Expression → Result Unit
  | none => .ok ()
  | some clause => check clause

/-! ## Projections -/

/-- `projectionItems`. -/
def projectionItems (statement : SelectStatement) : List Projection :=
  if statement.projectionItems.isEmpty then
    statement.projections.map fun projection => ⟨projection, none⟩
  else statement.projectionItems

/-- `isStarProjection`. -/
def isStarProjection : List Projection → Bool
  | [⟨.star, _⟩] => true
  | _ => false

/-- `projectionName`. -/
def projectionName (projection : Projection) : Bytes :=
  match projection.label with
  | some label => label
  | none =>
    match projection.expression with
    | .identifier identifier => (identifierParts identifier).name
    | .functionCall name _ => name
    | .literal _ => ascii "literal"
    | .binary _ _ _ => ascii "expression"
    | .star => ascii "*"

/-- `resultColumns`. -/
def resultColumns (columns : List ColumnBinding) (projections : List Projection) : List Bytes :=
  if isStarProjection projections then columns.map ColumnBinding.name
  else projections.map projectionName

/-- `projectRow`. -/
def projectRow (columns : List ColumnBinding) (row : List Value) (projections : List Projection) :
    Result (List Value) :=
  if isStarProjection projections then .ok row
  else projections.mapM fun projection => evalExpression columns row projection.expression

/-- The projections with a name for an alias, where an expression is an
identifier without a qualifier. -/
def aliasMatches (projections : List Projection) : Expression → List Expression
  | .identifier identifier =>
    let parts := identifierParts identifier
    if parts.qualifier.isSome then []
    else
      (projections.filter fun projection => projection.label.any (namesEqual · parts.name)).map
        Projection.expression
  | _ => []

/-- The expression that `validateOrderExpression` and `evalOrderExpression`
go on with. -/
def orderTarget (projections : List Projection) (expression : Expression) : Result Expression :=
  match aliasMatches projections expression with
  | [] => .ok expression
  | [target] => .ok target
  | _ => .error .ambiguousColumn

/-- `validateOrderExpression`. -/
def validateOrderExpression (columns : List ColumnBinding) (projections : List Projection)
    (expression : Expression) : Result Unit := do
  validateExpression columns (← orderTarget projections expression)

/-- `evalOrderExpression`. -/
def evalOrderExpression (columns : List ColumnBinding) (projections : List Projection)
    (row : List Value) (expression : Expression) : Result Value := do
  evalExpression columns row (← orderTarget projections expression)

/-- `validateSelect`. -/
def validateSelect (columns : List ColumnBinding) (statement : SelectStatement)
    (projections : List Projection) : Result Unit := do
  projections.forM fun projection => validateExpression columns projection.expression
  validateClause (validateExpression columns) statement.whereClause
  statement.orderBy.forM fun order =>
    validateOrderExpression columns projections order.expression

/-! ## Sorting -/

/-- The loop of `rowComesAfter` and of `groupComesAfter`, for what the keys
are on the left and on the right. -/
def comesAfter (left right : Expression → Result Value) : List OrderKey → Result Bool
  | [] => .ok false
  | order :: orders => do
    let leftValue ← left order.expression
    let rightValue ← right order.expression
    let comparison ← compareValues leftValue rightValue
    if comparison = 0 then comesAfter left right orders
    else if order.direction = .asc then return decide (comparison > 0)
    else return decide (comparison < 0)

section Sorting

variable {ι : Type} (after : ι → ι → Result Bool)

/-- The inner loop of a sort: a new element moves forward past those that
come after it. The elements before it are listed from the last. -/
def moveForward (new : ι) : List ι → Result (List ι)
  | [] => .ok [new]
  | last :: before => do
    if ← after last new then return last :: (← moveForward new before)
    else return new :: last :: before

/-- The outer loop of a sort. -/
def insertionSort (items : List ι) : Result (List ι) := do
  let sorted ← items.foldlM (fun before new => moveForward after new before) []
  return sorted.reverse

/-- The loop of `sortIndices` and of `sortGroupIndices`, with the return in
front of it. -/
def sortUnless (orderBy : List OrderKey) (items : List ι) : Result (List ι) :=
  if orderBy.isEmpty || decide (items.length < 2) then .ok items else insertionSort after items

end Sorting

/-- The first rows of a result, under `LIMIT`. -/
def limited {ι : Type} (limit : Option ℕ) (items : List ι) : List ι :=
  match limit with
  | none => items
  | some limit => items.take limit

/-- `rowComesAfter`. -/
def rowComesAfter (columns : List ColumnBinding) (statement : SelectStatement)
    (projections : List Projection) (left right : List Value) : Result Bool :=
  comesAfter (evalOrderExpression columns projections left)
    (evalOrderExpression columns projections right) statement.orderBy

/-! ## Aggregates -/

/-- `aggregate.Function`. -/
inductive Function where
  | count
  | sum
  | avg
  | min
  | max
deriving DecidableEq, Repr

/-- `functionForName`. -/
def functionForName (name : Bytes) : Option Function :=
  if namesEqual name (ascii "COUNT") then some .count
  else if namesEqual name (ascii "SUM") then some .sum
  else if namesEqual name (ascii "AVG") then some .avg
  else if namesEqual name (ascii "MIN") then some .min
  else if namesEqual name (ascii "MAX") then some .max
  else none

mutual

/-- `expressionContainsAggregate`. -/
def expressionContainsAggregate : Expression → Bool
  | .functionCall name args => (functionForName name).isSome || anyContainsAggregate args
  | .binary left _ right => expressionContainsAggregate left || expressionContainsAggregate right
  | .star => false
  | .identifier _ => false
  | .literal _ => false

/-- Its loop over the arguments of a call. -/
def anyContainsAggregate : List Expression → Bool
  | [] => false
  | arg :: args => expressionContainsAggregate arg || anyContainsAggregate args

end

/-- `isAggregateSelect`. -/
def isAggregateSelect (statement : SelectStatement) (projections : List Projection) : Bool :=
  !statement.groupBy.isEmpty || statement.having.isSome ||
    projections.any (fun projection => expressionContainsAggregate projection.expression) ||
    statement.orderBy.any fun order => expressionContainsAggregate order.expression

/-- `literalsEqual`. -/
def literalsEqual : Literal → Literal → Bool
  | .null, .null => true
  | .integer l, .integer r => decide (l = r)
  | .float l, .float r => Float.ofBits l == Float.ofBits r
  | .boolean l, .boolean r => decide (l = r)
  | .string l, .string r => decide (l = r)
  | .vector l, .vector r => l.map Float.ofBits == r.map Float.ofBits
  | _, _ => false

mutual

/-- `expressionsEqual`. -/
def expressionsEqual : Expression → Expression → Bool
  | .star, .star => true
  | .identifier l, .identifier r => namesEqual l r
  | .literal l, .literal r => literalsEqual l r
  | .functionCall name args, .functionCall name' args' =>
    namesEqual name name' && argumentsEqual args args'
  | .binary left operator right, .binary left' operator' right' =>
    decide (operator = operator') && expressionsEqual left left' && expressionsEqual right right'
  | _, _ => false

/-- Its loop over the arguments of two calls. -/
def argumentsEqual : List Expression → List Expression → Bool
  | [], [] => true
  | arg :: args, other :: others => expressionsEqual arg other && argumentsEqual args others
  | _, _ => false

end

/-- `expressionMatchesGroupBy`. -/
def expressionMatchesGroupBy (expression : Expression) (groupBy : List Expression) : Bool :=
  groupBy.any (expressionsEqual expression)

/-- `projectionAliasExpression`. -/
def projectionAliasExpression (projections : List Projection) (expression : Expression) :
    Option Expression :=
  match aliasMatches projections expression with
  | [target] => some target
  | _ => none

/-- `validateAggregateCall`. -/
def validateAggregateCall (columns : List ColumnBinding) (function : Function) :
    List Expression → Result Unit
  | [arg] =>
    if expressionContainsAggregate arg then .error .invalidGrouping
    else
      match function, arg with
      | .count, .star => .ok ()
      | _, .star => .error .unsupportedExpression
      | _, arg => validateExpression columns arg
  | _ => .error .unsupportedExpression

/-- A call or an identifier that must be one of the keys of the groups. -/
def groupKeyOnly {α : Type} (groupBy : List Expression) (expression : Expression) (x : Result α) :
    Result α :=
  if expressionMatchesGroupBy expression groupBy then x else .error .invalidGrouping

/-- `validateGroupedExpression`, for what becomes of an identifier that is
the alias of a projection. -/
def validateGroupedWith (columns : List ColumnBinding) (groupBy : List Expression)
    (onAlias : Expression → Option (Result Unit)) : Expression → Result Unit
  | .literal _ => .ok ()
  | .star => .error .invalidGrouping
  | .identifier identifier =>
    match onAlias (.identifier identifier) with
    | some result => result
    | none =>
      groupKeyOnly groupBy (.identifier identifier) (validateIdentifier columns identifier)
  | .binary left _ right => do
    validateGroupedWith columns groupBy onAlias left
    validateGroupedWith columns groupBy onAlias right
  | .functionCall name args =>
    match functionForName name with
    | some function => validateAggregateCall columns function args
    | none =>
      groupKeyOnly groupBy (.functionCall name args)
        (validateExpression columns (.functionCall name args))

/-- `validateGroupedExpression`: behind an alias no other alias is looked
for. -/
def validateGroupedExpression (columns : List ColumnBinding) (statement : SelectStatement)
    (projections : List Projection) (allowAlias : Bool) (expression : Expression) : Result Unit :=
  let plain := validateGroupedWith columns statement.groupBy fun _ => none
  if allowAlias then
    validateGroupedWith columns statement.groupBy
      (fun expression => (projectionAliasExpression projections expression).map plain) expression
  else plain expression

/-- `validateAggregateSelect`. -/
def validateAggregateSelect (columns : List ColumnBinding) (statement : SelectStatement)
    (projections : List Projection) : Result Unit :=
  if isStarProjection projections then .error .invalidGrouping
  else do
    statement.groupBy.forM fun groupKey =>
      if expressionContainsAggregate groupKey then .error .invalidGrouping
      else validateExpression columns groupKey
    validateClause (validateExpression columns) statement.whereClause
    projections.forM fun projection =>
      validateGroupedExpression columns statement projections false projection.expression
    validateClause (validateGroupedExpression columns statement projections true) statement.having
    statement.orderBy.forM fun order =>
      validateGroupedExpression columns statement projections true order.expression

/-! ## Groups -/

/-- `valuesEquivalent`. -/
def valuesEquivalent (left right : Value) : Bool :=
  if left = .null ∨ right = .null then decide (left = .null ∧ right = .null)
  else
    match compareValues left right with
    | .ok comparison => decide (comparison = 0)
    | .error _ => false

/-- `groupKeysEqual`. -/
def groupKeysEqual : List Value → List Value → Bool
  | [], [] => true
  | l :: left, r :: right => valuesEquivalent l r && groupKeysEqual left right
  | _, _ => false

/-- `Group`. -/
structure Group (rowSet : RowSet) where
  keys : List Value
  rowIndices : List rowSet.Index

section Group

variable {rowSet : RowSet}

/-- `evalGroupKeys`. -/
def evalGroupKeys (columns : List ColumnBinding) (row : List Value) (groupBy : List Expression) :
    Result (List Value) :=
  groupBy.mapM (evalExpression columns row)

/-- A round of `buildGroups`: the row goes to the first group with its keys
(`findGroup`), or to a new one at the end. -/
def addToGroups (keys : List Value) (index : rowSet.Index) :
    List (Group rowSet) → List (Group rowSet)
  | [] => [⟨keys, [index]⟩]
  | group :: groups =>
    if groupKeysEqual group.keys keys then ⟨group.keys, group.rowIndices ++ [index]⟩ :: groups
    else group :: addToGroups keys index groups

/-- `buildGroups`. -/
def buildGroups (filteredIndices : List rowSet.Index) (groupBy : List Expression) :
    Result (List (Group rowSet)) :=
  if groupBy.isEmpty then .ok [⟨[], filteredIndices⟩]
  else
    filteredIndices.foldlM (fun groups index => do
      let keys ← evalGroupKeys rowSet.columns (rowSet.row index) groupBy
      return addToGroups keys index groups) []

/-- `numericAsFloat`. -/
def numericAsFloat : Value → Result UInt64
  | .integer v => .ok (floatFromInt v)
  | .float v => .ok v
  | _ => .error .typeMismatch

/-- `@intCast` of a count to an `i64`. -/
def countValue (count : ℕ) : Result Value :=
  if count < 2 ^ 63 then .ok (.integer (Int64.ofNat count)) else .error (.panic .integerCast)

/-- The variables of `evalAggregateCall`. -/
structure Accumulator where
  count : ℕ := 0
  sum : UInt64 := 0
  best : Option Value := none

/-- A round of the loop of `evalAggregateCall`, on the value of its row. -/
def Accumulator.add (function : Function) (self : Accumulator) (value : Value) :
    Result Accumulator :=
  if value = .null then .ok self
  else
    match function with
    | .count => .ok { self with count := self.count + 1 }
    | .sum | .avg => do
      let number ← numericAsFloat value
      return { self with sum := floatOp (· + ·) self.sum number, count := self.count + 1 }
    | .min | .max =>
      match self.best with
      | none => .ok { self with best := some value }
      | some best => do
        let comparison ← compareValues value best
        if (if function = .min then comparison < 0 else comparison > 0) then
          return { self with best := some value }
        else return self

/-- What `evalAggregateCall` returns after its loop. -/
def Accumulator.finish (function : Function) (self : Accumulator) : Result Value :=
  match function with
  | .count => countValue self.count
  | .sum => .ok (if self.count = 0 then .null else .float self.sum)
  | .avg =>
    .ok (if self.count = 0 then .null
      else .float (floatOp (· / ·) self.sum (Float.ofNat self.count).toBits))
  | .min | .max => .ok (self.best.getD .null)

/-- `evalAggregateCall`. -/
def evalAggregateCall (group : Group rowSet) (function : Function) :
    List Expression → Result Value
  | [arg] =>
    match function, arg with
    | .count, .star => countValue group.rowIndices.length
    | _, .star => .error .unsupportedExpression
    | function, arg => do
      let accumulator ← group.rowIndices.foldlM (fun accumulator index => do
        let value ← evalExpression rowSet.columns (rowSet.row index) arg
        Accumulator.add function accumulator value) {}
      accumulator.finish function
  | _ => .error .unsupportedExpression

/-- `evalRepresentativeExpression`. -/
def evalRepresentativeExpression (group : Group rowSet) (expression : Expression) : Result Value :=
  match group.rowIndices with
  | [] => .error .invalidGrouping
  | index :: _ => evalExpression rowSet.columns (rowSet.row index) expression

/-- `evalGroupedExpression`, for what becomes of an identifier that is the
alias of a projection. -/
def evalGroupedWith (group : Group rowSet) (groupBy : List Expression)
    (onAlias : Expression → Option (Result Value)) : Expression → Result Value
  | .literal literal => valueFromLiteral literal
  | .star => .error .invalidGrouping
  | .identifier identifier =>
    match onAlias (.identifier identifier) with
    | some result => result
    | none =>
      groupKeyOnly groupBy (.identifier identifier)
        (evalRepresentativeExpression group (.identifier identifier))
  | .binary left operator right => do
    let left ← evalGroupedWith group groupBy onAlias left
    let right ← evalGroupedWith group groupBy onAlias right
    evalBinaryValues left right operator
  | .functionCall name args =>
    match functionForName name with
    | some function => evalAggregateCall group function args
    | none =>
      groupKeyOnly groupBy (.functionCall name args)
        (evalRepresentativeExpression group (.functionCall name args))

/-- `evalGroupedExpression`. -/
def evalGroupedExpression (group : Group rowSet) (statement : SelectStatement)
    (projections : List Projection) (allowAlias : Bool) (expression : Expression) : Result Value :=
  let plain := evalGroupedWith group statement.groupBy fun _ => none
  if allowAlias then
    evalGroupedWith group statement.groupBy
      (fun expression => (projectionAliasExpression projections expression).map plain) expression
  else plain expression

/-- `groupMatchesHaving`. -/
def groupMatchesHaving (statement : SelectStatement) (projections : List Projection)
    (group : Group rowSet) : Result Bool :=
  match statement.having with
  | none => .ok true
  | some having => do asCondition (← evalGroupedExpression group statement projections true having)

/-- `groupComesAfter`. -/
def groupComesAfter (statement : SelectStatement) (projections : List Projection)
    (left right : Group rowSet) : Result Bool :=
  comesAfter (evalGroupedExpression left statement projections true)
    (evalGroupedExpression right statement projections true) statement.orderBy

/-- `projectGroup`. -/
def projectGroup (statement : SelectStatement) (projections : List Projection)
    (group : Group rowSet) : Result (List Value) :=
  projections.mapM fun projection =>
    evalGroupedExpression group statement projections false projection.expression

/-- `executeAggregateSelect`. -/
def executeAggregateSelect (filteredIndices : List rowSet.Index) (statement : SelectStatement)
    (projections : List Projection) : Result ResultSet := do
  validateAggregateSelect rowSet.columns statement projections
  let groups ← buildGroups filteredIndices statement.groupBy
  let accepted ← keep (groupMatchesHaving statement projections) groups
  let sorted ← sortUnless (groupComesAfter statement projections) statement.orderBy accepted
  let rows ← (limited statement.limit sorted).mapM (projectGroup statement projections)
  return ⟨resultColumns rowSet.columns projections, rows⟩

end Group

/-! ## From a source to a result -/

/-- The rows of a source that `WHERE` accepts. -/
def filterIndices (rowSet : RowSet) (whereClause : Option Expression) :
    Result (List rowSet.Index) :=
  keep (fun index => matchesWhere rowSet.columns (rowSet.row index) whereClause)
    (List.finRange rowSet.rows.length)

/-- `executeSelectScoped`, from where it has the rows of its source. -/
def selectFrom (rowSet : RowSet) (statement : SelectStatement) : Result ResultSet := do
  let filteredIndices ← filterIndices rowSet statement.whereClause
  let projections := projectionItems statement
  if isAggregateSelect statement projections then
    executeAggregateSelect filteredIndices statement projections
  else
    validateSelect rowSet.columns statement projections
    let sorted ← sortUnless
      (fun left right =>
        rowComesAfter rowSet.columns statement projections (rowSet.row left) (rowSet.row right))
      statement.orderBy filteredIndices
    let rows ← (limited statement.limit sorted).mapM fun index =>
      projectRow rowSet.columns (rowSet.row index) projections
    return ⟨resultColumns rowSet.columns projections, rows⟩

/-! ## Joins -/

/-- A round of the outer loop of `executeJoinSource`: the pairs of a left
row, or the row with nulls if a left join finds none. -/
def joinRow (columns : List ColumnBinding) (joinType : JoinType) (on : Option Expression)
    (right : RowSet) (leftRow : List Value) : Result (List (List Value)) := do
  let matched ← keep (fun combined => matchesWhere columns combined on)
    (right.rows.map fun rightRow => leftRow ++ rightRow)
  if joinType = .left ∧ matched = [] then
    return [leftRow ++ List.replicate right.columns.length .null]
  else return matched

/-- `executeJoinSource`, from where it has both sources. -/
def joinSources (left : RowSet) (joinType : JoinType) (right : RowSet) (on : Option Expression) :
    Result RowSet := do
  let columns := left.columns ++ right.columns
  validateClause (validateExpression columns) on
  let rows ← left.rows.mapM (joinRow columns joinType on right)
  return ⟨columns, rows.flatten⟩

/-! ## Scopes and calls -/

/-- `Context`. -/
structure Context where
  loadBaseTable : Bytes → Result BaseTable
  findView : Bytes → Option SelectStatement

/-- `CteScope`, from the innermost to the outermost. -/
abbrev CteScope := List (List CommonTableExpression)

/-- `findCte`: the expression a name stands for, and the scope of its
definition, where only those before it are visible. -/
def findCte (name : Bytes) : CteScope → Option (CommonTableExpression × CteScope)
  | [] => none
  | ctes :: parent =>
    match ctes.dropWhile fun cte => !namesEqual cte.name name with
    | cte :: _ => some (cte, ctes.takeWhile (fun cte => !namesEqual cte.name name) :: parent)
    | [] => findCte name parent

/-- What `executeSelectScoped` is called with. -/
structure Call where
  statement : SelectStatement
  scope : CteScope := []
  depth : ℕ := 0

/-- A computation that fails, or comes to no end within the calls it is
given. -/
abbrev Running := ExceptT Error Option

section Calls

variable (ctx : Context) (select : Call → Running ResultSet)

/-- `executeNamedSource`. -/
def executeNamedSource (name : Bytes) (sourceAlias : Option Bytes) (scope : CteScope)
    (depth : ℕ) : Running RowSet :=
  match findCte name scope with
  | some (cte, definitionScope) => do
    let result ← select ⟨cte.query, definitionScope, depth + 1⟩
    return rowSetFromResult result name sourceAlias
  | none =>
    match ctx.findView name with
    | some viewQuery =>
      if depth ≥ 8 then throw .unsupportedView
      else do
        let result ← select ⟨viewQuery, scope, depth + 1⟩
        return rowSetFromResult result name sourceAlias
    | none => do
      let table ← liftExcept (ctx.loadBaseTable name)
      return rowSetFromBaseTable table sourceAlias

/-- `executeSource`, with `executeDerivedSource` and
`executeJoinSource`. -/
def executeSource (scope : CteScope) (depth : ℕ) : RowSource → Running RowSet
  | .baseTable name label => executeNamedSource ctx select name label scope depth
  | .derivedTable query label => do
    let result ← select ⟨query, scope, depth + 1⟩
    return rowSetFromResult result label none
  | .join left joinType right on => do
    let left ← executeSource scope depth left
    let right ← executeSource scope depth right
    liftExcept (joinSources left joinType right on)

/-- `executeSelectScoped`. -/
def executeSelectScoped (call : Call) : Running ResultSet :=
  match call.statement.source with
  | none => throw .unknownObject
  | some source => do
    let rowSet ← executeSource ctx select (call.statement.ctes :: call.scope) call.depth source
    liftExcept (selectFrom rowSet call.statement)

end Calls

/-- **A query with at most so many calls inside one another.** -/
def run (ctx : Context) (n : ℕ) (call : Call) : Option (Result ResultSet) :=
  Recursion.unroll (executeSelectScoped ctx) n call

end QuerySource

end Shoveler
