import Shoveler.Model.Value

/-!
# The syntax tree

The statements of `ast.zig` and the procedure bodies of
`procedure_body.zig`, as far as the executor reads them. Float literals
are `f64` bit patterns.
-/

namespace Shoveler

namespace Ast

/-- `ColumnType`. -/
inductive ColumnType where
  | integer
  | float
  | boolean
  | text
  | blob
  | vector (dimension : ℕ)
deriving DecidableEq, Repr

/-- `Literal`. -/
inductive Literal where
  | null
  | integer (v : Int64)
  | float (bits : UInt64)
  | boolean (v : Bool)
  | string (v : Bytes)
  | vector (components : List UInt64)
deriving DecidableEq, Repr

/-- `BinaryOperator`. -/
inductive BinaryOperator where
  | add
  | subtract
  | equal
  | notEqual
  | lessThan
  | lessEqual
  | greaterThan
  | greaterEqual
  | andOp
deriving DecidableEq, Repr

/-- `Expression`. -/
inductive Expression where
  | star
  | identifier (name : Bytes)
  | literal (value : Literal)
  | functionCall (name : Bytes) (args : List Expression)
  | binary (left : Expression) (operator : BinaryOperator) (right : Expression)
deriving Repr

/-- `ColumnDef`. -/
structure ColumnDef where
  name : Bytes
  columnType : ColumnType
  nullable : Bool := true
  defaultValue : Option Expression := none
  primaryKey : Bool := false
  autoIncrement : Bool := false
deriving Repr

/-- `IndexDef`. -/
structure IndexDef where
  name : Option Bytes := none
  columns : List Bytes
  primary : Bool := false
deriving DecidableEq, Repr

/-- `Assignment`. -/
structure Assignment where
  column : Bytes
  value : Expression
deriving Repr

/-- `OrderDirection`. -/
inductive OrderDirection where
  | asc
  | desc
deriving DecidableEq, Repr

/-- `OrderKey`. -/
structure OrderKey where
  expression : Expression
  direction : OrderDirection := .asc
deriving Repr

/-- `Projection`. -/
structure Projection where
  expression : Expression
  label : Option Bytes := none
deriving Repr

/-- `JoinType`. -/
inductive JoinType where
  | inner
  | cross
  | left
deriving DecidableEq, Repr

mutual

/-- `RowSource`: a table or view under a name, a query in parentheses, or
a join of two sources. -/
inductive RowSource where
  | baseTable (name : Bytes) (label : Option Bytes)
  | derivedTable (query : SelectStatement) (label : Bytes)
  | join (left : RowSource) (joinType : JoinType) (right : RowSource) (on : Option Expression)

/-- `CommonTableExpression`. -/
structure CommonTableExpression where
  name : Bytes
  query : SelectStatement

/-- `SelectStatement`. -/
structure SelectStatement where
  ctes : List CommonTableExpression := []
  projectionItems : List Projection := []
  projections : List Expression
  fromName : Option Bytes := none
  source : Option RowSource := none
  whereClause : Option Expression := none
  groupBy : List Expression := []
  having : Option Expression := none
  orderBy : List OrderKey := []
  limit : Option ℕ := none

end

/-- **Induction over the joins of a source.** -/
theorem RowSource.induction {P : RowSource → Prop}
    (baseTable : ∀ name label, P (.baseTable name label))
    (derivedTable : ∀ query label, P (.derivedTable query label))
    (join : ∀ left joinType right on, P left → P right → P (.join left joinType right on)) :
    ∀ source, P source
  | .baseTable name label => baseTable name label
  | .derivedTable query label => derivedTable query label
  | .join left joinType right on =>
    join left joinType right on (induction baseTable derivedTable join left)
      (induction baseTable derivedTable join right)

/-- `CreateTableStatement`. -/
structure CreateTableStatement where
  name : Bytes
  ifNotExists : Bool := false
  columns : List ColumnDef
  indexes : List IndexDef := []
deriving Repr

/-- `InsertStatement`. -/
structure InsertStatement where
  tableName : Bytes
  columns : List Bytes := []
  values : List Expression
deriving Repr

/-- `UpdateStatement`. -/
structure UpdateStatement where
  tableName : Bytes
  assignments : List Assignment
  whereClause : Option Expression := none
deriving Repr

/-- `DeleteStatement`. -/
structure DeleteStatement where
  tableName : Bytes
  whereClause : Option Expression := none
deriving Repr

/-- `CreateViewStatement`. -/
structure CreateViewStatement where
  name : Bytes
  query : SelectStatement
  bodySql : Bytes

/-- `ProcedureParam`; `in` is the only mode. -/
structure ProcedureParam where
  name : Bytes
  columnType : ColumnType
deriving DecidableEq, Repr

/-- `ProcedureStatement`. -/
structure ProcedureStatement where
  name : Bytes
  params : List ProcedureParam := []
  bodySql : Bytes
deriving DecidableEq, Repr

/-- `CallStatement`. -/
structure CallStatement where
  name : Bytes
  args : List Expression
deriving Repr

/-- `NamedStatement`. -/
structure NamedStatement where
  name : Bytes
  ifExists : Bool := false
deriving DecidableEq, Repr

/-- `Statement`. -/
inductive Statement where
  | createTable (statement : CreateTableStatement)
  | dropTable (statement : NamedStatement)
  | insert (statement : InsertStatement)
  | select (statement : SelectStatement)
  | update (statement : UpdateStatement)
  | delete (statement : DeleteStatement)
  | begin
  | commit
  | rollback
  | createView (statement : CreateViewStatement)
  | dropView (statement : NamedStatement)
  | createProcedure (statement : ProcedureStatement)
  | dropProcedure (statement : NamedStatement)
  | call (statement : CallStatement)

end Ast

/-! ## Procedure bodies -/

namespace ProcedureBody

/-- `Statement` of a procedure body; a body is a list of them. -/
inductive Statement where
  | declareVar (name : Bytes) (defaultValue : Option Ast.Expression)
  | setVar (name : Bytes) (value : Ast.Expression)
  | sql (statement : Ast.Statement)
  | ifStatement (condition : Ast.Expression) (thenBody elseBody : List Statement)
  | whileStatement (condition : Ast.Expression) (body : List Statement)

/-- `Body`. -/
abbrev Body := List Statement

end ProcedureBody

end Shoveler
