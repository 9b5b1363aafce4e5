import Mathlib.Algebra.Group.Nat.Defs
import Mathlib.Data.List.DropRight
import Shoveler.Common.Descent
import Shoveler.Model.Ast
import Shoveler.Model.Policy

/-!
# The parser

`parser.zig`: a recursive descent over the tokens of the text. A parser
here reads from the front of the token list, and what the source keeps in
its `Parser` besides the tokens is the environment. A loop of the source
is a `Parse.loop`, and its `peek` and `advance` are those of `Parse`; the
two places where a function comes back to itself, expressions in
parentheses or argument lists and queries inside queries, are a
`Parse.fix`, the functions on the way taking what they come back to as an
argument.
-/

namespace Shoveler

/-! ## Numbers and texts -/

/-- `std.fmt.parseUnsigned` and `std.fmt.parseInt` in base ten, of a text
without a sign and for a type with this largest value; an underscore may
stand between digits. -/
def parseDecimal (largest : ℕ) (text : Bytes) : Option ℕ :=
  if text = [] ∨ text.head? = some Byte.underscore ∨ text.getLast? = some Byte.underscore then none
  else
    text.foldlM (fun (value : ℕ) c =>
      if c = Byte.underscore then some value
      else if isDigit c then
        let value := value * 10 + (c.toNat - 48)
        if value ≤ largest then some value else none
      else none) 0

/-- The largest `usize`. -/
def maxUsize : ℕ := 2 ^ 64 - 1

/-- The largest `i64`. -/
def maxI64 : ℕ := 2 ^ 63 - 1

/-- The negation of an `f64`. -/
def negateFloat (bits : UInt64) : UInt64 := bits ^^^ 0x8000000000000000

/-- `std.mem.trim` of whitespace. -/
def trim (text : Bytes) : Bytes := (text.dropWhile isWhitespace).rdropWhile isWhitespace

/-- A slice `text[first..last]`. -/
def slice (text : Bytes) (first last : ℕ) : Bytes := (text.take last).drop first

/-- The loop of `cloneStringLiteral`: of two apostrophes in a row one is
kept. -/
def undouble : Bytes → Bytes
  | [] => []
  | [c] => [c]
  | c :: d :: rest =>
    if c = Byte.apostrophe ∧ d = Byte.apostrophe then c :: undouble rest
    else c :: undouble (d :: rest)

/-- `normalizedIdentifier`. -/
def normalizedIdentifier (token : Token) : Bytes :=
  if 2 ≤ token.lexeme.length ∧ token.lexeme.head? = some Byte.backtick ∧
      token.lexeme.getLast? = some Byte.backtick then
    token.lexeme.tail.dropLast
  else token.lexeme

namespace Sql

open Ast
open Parse (peek advance accept)

/-! ## Diagnostics -/

/-- `DiagnosticCode`. -/
inductive DiagnosticCode where
  | policyViolation
  | unexpectedToken
  | unexpectedEnd
  | invalidNumber
  | unsupportedSyntax
deriving DecidableEq, Repr

/-- `Diagnostic`. -/
structure Diagnostic where
  code : DiagnosticCode
  offset : ℕ
  token : Bytes := []
  expected : String := ""
  policyFeature : Option UnsupportedFeature := none
deriving DecidableEq, Repr

/-- What a parser looks at besides the tokens: the text, and
`std.fmt.parseFloat`. -/
structure Input where
  sql : Bytes
  parseFloat : Bytes → Option UInt64

/-- A parser of this grammar. -/
abbrev Parser (α : Type) := Parse Input Token Diagnostic α

/-- The diagnostic a parser starts with. -/
def initialDiagnostic : Diagnostic := ⟨.unexpectedEnd, 0, [], "", none⟩

variable {α : Type}

/-- A loop of the parser. -/
def loop {β : Type} (body : α → Parser (Parse.Round α β)) (a : α) : Parser β :=
  Parse.loop initialDiagnostic body a

/-- `failEnd`. -/
def failEnd (expected : String) : Parser α :=
  Parse.fail fun input => ⟨.unexpectedEnd, input.sql.length, [], expected, none⟩

/-- `failToken`. -/
def failToken (token : Token) (code : DiagnosticCode) (expected : String) : Parser α :=
  Parse.fail fun _ => ⟨code, token.offset, token.lexeme, expected, none⟩

/-! ## Single tokens -/

/-- `self.advance() orelse return self.failEnd(expected)`. -/
def expectToken (expected : String) : Parser Token := do
  match ← advance with
  | some token => pure token
  | none => failEnd expected

/-- `failCurrent`. -/
def failCurrent (code : DiagnosticCode) (expected : String) : Parser α := do
  match ← peek with
  | some token => failToken token code expected
  | none => failEnd expected

/-- The offset of the next token, or the end of the text. -/
def currentOffset : Parser ℕ := do
  match ← peek with
  | some token => pure token.offset
  | none => return (← Parse.read).sql.length

/-- A symbol with this text. -/
def isSymbol (symbol : String) (token : Token) : Bool :=
  decide (token.kind = .symbol) && decide (token.lexeme = ascii symbol)

/-- One of these keywords. -/
def isKeyword (keywords : List String) (token : Token) : Bool :=
  keywords.any fun keyword => token.eqlIgnoreCase (ascii keyword)

/-- `isIdentifier`. -/
def isIdentifier (token : Token) : Bool := decide (token.kind = .identifier)

/-- `matchKeyword`. -/
def matchKeyword (keyword : String) : Parser Bool :=
  accept fun token => token.eqlIgnoreCase (ascii keyword)

/-- `matchSymbol`. -/
def matchSymbol (symbol : String) : Parser Bool := accept (isSymbol symbol)

/-- Whether the next token is as wanted; `absent` if there is none. -/
def nextIs (absent : Bool) (wanted : Token → Bool) : Parser Bool := do
  match ← peek with
  | none => pure absent
  | some token => pure (wanted token)

/-- `nextIsSymbol`. -/
def nextIsSymbol (symbol : String) : Parser Bool := nextIs false (isSymbol symbol)

/-- `expectKeyword`. -/
def expectKeyword (keyword : String) : Parser Unit := do
  let token ← expectToken keyword
  if token.eqlIgnoreCase (ascii keyword) then pure ()
  else failToken token .unexpectedToken keyword

/-- `expectSymbol`. -/
def expectSymbol (symbol : String) : Parser Unit := do
  let token ← expectToken symbol
  if isSymbol symbol token then pure () else failToken token .unexpectedToken symbol

/-- `expectIdentifierToken`. -/
def expectIdentifierToken (expected : String) : Parser Token := do
  let token ← expectToken expected
  if isIdentifier token then pure token else failToken token .unexpectedToken expected

/-- `expectIdentifierOwned`. -/
def expectIdentifierOwned (expected : String) : Parser Bytes := do
  return normalizedIdentifier (← expectIdentifierToken expected)

/-- A token that must be a number. -/
def expectNumber (expected : String) : Parser Token := do
  let token ← expectToken expected
  if token.kind = .number then pure token else failToken token .unexpectedToken expected

/-- A number of the text, or the diagnostic that it is none. -/
def numberOr (token : Token) (expected : String) : Option α → Parser α
  | some value => pure value
  | none => failToken token .invalidNumber expected

/-- `cloneStringLiteral`. -/
def cloneStringLiteral (token : Token) : Parser Bytes :=
  if token.lexeme.head? = some Byte.apostrophe then
    if token.terminated then pure (undouble token.lexeme.tail.dropLast)
    else failToken token .unexpectedToken "terminated string literal"
  else if token.lexeme.length < 2 then pure token.lexeme
  else pure token.lexeme.tail.dropLast

/-! ## Lists -/

/-- A round of the loop below. -/
def listUntilRound (closing : String) (item : α → Parser α) (items : α) :
    Parser (Parse.Round α α) := do
  if ← matchSymbol closing then pure (.done items)
  else
    let items ← item items
    if ← matchSymbol "," then pure (.again items)
    else
      expectSymbol closing
      pure (.done items)

/-- The loop `while (!self.matchSymbol(closing)) { …; if
(self.matchSymbol(",")) continue; try self.expectSymbol(closing); break; }`. -/
def listUntil (closing : String) (item : α → Parser α) (start : α) : Parser α :=
  loop (listUntilRound closing item) start

/-- A round of the loop below. -/
def listOfRound (item : α → Parser α) (items : α) : Parser (Parse.Round α α) := do
  let items ← item items
  if ← matchSymbol "," then pure (.again items) else pure (.done items)

/-- The loop `while (true) { …; if (!self.matchSymbol(",")) break; }`. -/
def listOf (item : α → Parser α) (start : α) : Parser α := loop (listOfRound item) start

/-- What a parser gives, at the end of a list. -/
def push (parser : Parser α) (items : List α) : Parser (List α) := do
  return items ++ [← parser]

/-- What a parser gives if the keyword comes first. -/
def optionally (keyword : String) (parser : Parser α) : Parser (Option α) := do
  if ← matchKeyword keyword then return some (← parser) else pure none

/-! ## Expressions -/

/-- `parseComparisonOperator`. -/
def parseComparisonOperator : Parser BinaryOperator := do
  let token ← expectToken "comparison operator"
  if token.lexeme = ascii "=" then pure .equal
  else if token.lexeme = ascii "<" then
    if ← matchSymbol "=" then pure .lessEqual
    else if ← matchSymbol ">" then pure .notEqual
    else pure .lessThan
  else if token.lexeme = ascii ">" then
    if ← matchSymbol "=" then pure .greaterEqual else pure .greaterThan
  else if token.lexeme = ascii "!" then
    expectSymbol "="
    pure .notEqual
  else failToken token .unexpectedToken "comparison operator"

/-- `isComparisonStart`. -/
def isComparisonStart (token : Token) : Bool :=
  isSymbol "=" token || isSymbol "<" token || isSymbol ">" token || isSymbol "!" token

/-- A number that is a float if it has a point in it. -/
def parseNumber (token : Token) (negative : Bool) : Parser Literal := do
  if Byte.dot ∈ token.lexeme then
    let bits ← numberOr token "number" ((← Parse.read).parseFloat token.lexeme)
    pure (.float (if negative then negateFloat bits else bits))
  else
    let value ← numberOr token "number" (parseDecimal maxI64 token.lexeme)
    pure (.integer (if negative then -Int64.ofNat value else Int64.ofNat value))

/-- A component of a vector. -/
def parseComponent : Parser UInt64 := do
  let negative ← matchSymbol "-"
  let token ← expectNumber "vector value"
  let bits ← numberOr token "vector value" ((← Parse.read).parseFloat token.lexeme)
  pure (if negative then negateFloat bits else bits)

/-- The end of `parsePrimary`, behind an identifier. -/
def parseNamed (parseExpression : Parser Expression) (name : Bytes) : Parser Expression := do
  if ← matchSymbol "(" then
    return .functionCall name (← listUntil ")" (push parseExpression) [])
  else if ← matchSymbol "." then
    let member ← expectIdentifierToken "qualified identifier member"
    return .identifier (name ++ [Byte.dot] ++ normalizedIdentifier member)
  else return .identifier name

/-- `parsePrimary`. -/
def parsePrimary (parseExpression : Parser Expression) : Parser Expression := do
  let token ← expectToken "expression"
  if token.kind = .string then
    return .literal (.string (← cloneStringLiteral token))
  else if token.kind = .number then
    return .literal (← parseNumber token false)
  else if isSymbol "*" token then pure .star
  else if isSymbol "[" token then
    return .literal (.vector (← listUntil "]" (push parseComponent) []))
  else if isSymbol "(" token then
    let expression ← parseExpression
    expectSymbol ")"
    pure expression
  else if isSymbol "-" token then
    let value ← expectNumber "number"
    return .literal (← parseNumber value true)
  else if isIdentifier token then
    if isKeyword ["NULL"] token then pure (.literal .null)
    else if isKeyword ["TRUE"] token then pure (.literal (.boolean true))
    else if isKeyword ["FALSE"] token then pure (.literal (.boolean false))
    else parseNamed parseExpression (normalizedIdentifier token)
  else failToken token .unexpectedToken "expression"

/-- A round of `parseAdditiveExpression`. -/
def additiveRound (parseExpression : Parser Expression) (left : Expression) :
    Parser (Parse.Round Expression Expression) := do
  if ← matchSymbol "+" then
    return .again (.binary left .add (← parsePrimary parseExpression))
  else if ← matchSymbol "-" then
    return .again (.binary left .subtract (← parsePrimary parseExpression))
  else return .done left

/-- `parseAdditiveExpression`. -/
def parseAdditiveExpression (parseExpression : Parser Expression) : Parser Expression := do
  let left ← parsePrimary parseExpression
  loop (additiveRound parseExpression) left

/-- `parseComparisonExpression`. -/
def parseComparisonExpression (parseExpression : Parser Expression) : Parser Expression := do
  let left ← parseAdditiveExpression parseExpression
  if ← nextIs false isComparisonStart then
    let operator ← parseComparisonOperator
    return .binary left operator (← parseAdditiveExpression parseExpression)
  else pure left

/-- A round of `parseAndExpression`. -/
def andRound (parseExpression : Parser Expression) (left : Expression) :
    Parser (Parse.Round Expression Expression) := do
  if ← matchKeyword "AND" then
    return .again (.binary left .andOp (← parseComparisonExpression parseExpression))
  else return .done left

/-- `parseAndExpression`. -/
def parseAndExpression (parseExpression : Parser Expression) : Parser Expression := do
  let left ← parseComparisonExpression parseExpression
  loop (andRound parseExpression) left

/-- `parseExpression`. -/
def parseExpression : Parser Expression := Parse.fix initialDiagnostic parseAndExpression

/-! ## Queries -/

/-- `isAtClauseBoundary`. -/
def isAtClauseBoundary : Parser Bool :=
  nextIs true fun token =>
    isKeyword ["FROM", "WHERE", "ORDER", "LIMIT", "GROUP", "HAVING"] token ||
      decide (token.lexeme = ascii ";")

/-- `isImplicitAliasBoundary`. -/
def isImplicitAliasBoundary : Token → Bool :=
  isKeyword ["FROM", "WHERE", "ORDER", "GROUP", "HAVING", "LIMIT", "JOIN", "INNER", "CROSS",
    "LEFT", "ON"]

/-- `isTableAliasBoundary`. -/
def isTableAliasBoundary : Token → Bool :=
  isKeyword ["WHERE", "ORDER", "GROUP", "HAVING", "LIMIT", "JOIN", "INNER", "CROSS", "LEFT", "ON"]

/-- An identifier as an alias, unless it is a boundary. -/
def parseOptionalAlias (boundary : Token → Bool) : Parser (Option Bytes) := do
  match ← peek with
  | none => pure none
  | some token =>
    if !isIdentifier token || boundary token then pure none
    else do
      let _ ← advance
      pure (some (normalizedIdentifier token))

/-- `parseOptionalImplicitAlias`. -/
def parseOptionalImplicitAlias : Parser (Option Bytes) :=
  parseOptionalAlias isImplicitAliasBoundary

/-- `parseOptionalTableAlias`. -/
def parseOptionalTableAlias : Parser (Option Bytes) := do
  if ← matchKeyword "AS" then return some (← expectIdentifierOwned "table alias")
  else parseOptionalAlias isTableAliasBoundary

/-- `parseRequiredTableAlias`. -/
def parseRequiredTableAlias (expected : String) : Parser Bytes := do
  let _ ← matchKeyword "AS"
  expectIdentifierOwned expected

/-- `canStartImplicitProjectionAlias`. -/
def canStartImplicitProjectionAlias : Expression → Bool
  | .functionCall _ _ | .literal _ | .binary _ _ _ => true
  | .identifier name => decide (Byte.dot ∈ name)
  | .star => false

/-- `parseProjection`. -/
def parseProjection : Parser Projection := do
  let expression ← parseExpression
  if ← matchKeyword "AS" then
    return ⟨expression, some (← expectIdentifierOwned "projection alias")⟩
  else if canStartImplicitProjectionAlias expression then
    return ⟨expression, ← parseOptionalImplicitAlias⟩
  else return ⟨expression, none⟩

/-- `peekJoinType`. -/
def peekJoinType : Parser (Option JoinType) := do
  match ← peek with
  | none => pure none
  | some token =>
    if isKeyword ["JOIN", "INNER"] token then pure (some .inner)
    else if isKeyword ["CROSS"] token then pure (some .cross)
    else if isKeyword ["LEFT"] token then pure (some .left)
    else pure none

/-- `consumeJoinType`. -/
def consumeJoinType : JoinType → Parser Unit
  | .inner => do
    let _ ← matchKeyword "INNER"
    expectKeyword "JOIN"
  | .cross => do
    expectKeyword "CROSS"
    expectKeyword "JOIN"
  | .left => do
    expectKeyword "LEFT"
    let _ ← matchKeyword "OUTER"
    expectKeyword "JOIN"

section Select

variable (parseSelectAfterSelect : Parser SelectStatement)

/-- A round of `parseSelectAfterWith`. -/
def parseCommonTable (ctes : List CommonTableExpression) :
    Parser (List CommonTableExpression) := do
  let name ← expectIdentifierOwned "CTE name"
  expectKeyword "AS"
  expectSymbol "("
  expectKeyword "SELECT"
  let query ← parseSelectAfterSelect
  expectSymbol ")"
  return ctes ++ [⟨name, query⟩]

/-- `parseSelectAfterWith`. -/
def parseSelectAfterWith : Parser SelectStatement := do
  let ctes ← listOf (parseCommonTable parseSelectAfterSelect) []
  expectKeyword "SELECT"
  let statement ← parseSelectAfterSelect
  return { statement with ctes := ctes }

/-- The query of a derived table. -/
def parseDerivedQuery : Parser SelectStatement := do
  if ← matchKeyword "SELECT" then parseSelectAfterSelect
  else if ← matchKeyword "WITH" then parseSelectAfterWith parseSelectAfterSelect
  else failCurrent .unexpectedToken "SELECT"

/-- `parseRowSourceAtom`. -/
def parseRowSourceAtom : Parser RowSource := do
  if ← matchSymbol "(" then
    let query ← parseDerivedQuery parseSelectAfterSelect
    expectSymbol ")"
    return .derivedTable query (← parseRequiredTableAlias "derived table alias")
  else
    let name ← expectIdentifierOwned "table name"
    return .baseTable name (← parseOptionalTableAlias)

/-- The condition of a join; only a cross join may do without. -/
def parseJoinCondition (joinType : JoinType) : Parser (Option Expression) := do
  if ← matchKeyword "ON" then return some (← parseExpression)
  else if joinType = .cross then pure none
  else failCurrent .unexpectedToken "ON"

/-- A round of `parseRowSource`. -/
def joinRound (left : RowSource) : Parser (Parse.Round RowSource RowSource) := do
  match ← peekJoinType with
  | none => return .done left
  | some joinType =>
    consumeJoinType joinType
    let right ← parseRowSourceAtom parseSelectAfterSelect
    return .again (.join left joinType right (← parseJoinCondition joinType))

/-- `parseRowSource`. -/
def parseRowSource : Parser RowSource := do
  let left ← parseRowSourceAtom parseSelectAfterSelect
  loop (joinRound parseSelectAfterSelect) left

/-- A round of the loop over the projections. -/
def projectionRound (items : List Projection) :
    Parser (Parse.Round (List Projection) (List Projection)) := do
  if ← isAtClauseBoundary then return .done items
  else
    let items ← push parseProjection items
    if ← matchSymbol "," then return .again items else return .done items

/-- The projections of a query. -/
def parseProjections : Parser (List Projection) := loop projectionRound []

/-- The keys behind `GROUP BY`. -/
def parseGroupBy : Parser (List Expression) := do
  if ← matchKeyword "GROUP" then
    expectKeyword "BY"
    listOf (push parseExpression) []
  else pure []

/-- A key behind `ORDER BY`. -/
def parseOrderKey : Parser OrderKey := do
  let expression ← parseExpression
  if ← matchKeyword "DESC" then pure ⟨expression, .desc⟩
  else
    let _ ← matchKeyword "ASC"
    pure ⟨expression, .asc⟩

/-- The keys behind `ORDER BY`. -/
def parseOrderBy : Parser (List OrderKey) := do
  if ← matchKeyword "ORDER" then
    expectKeyword "BY"
    listOf (push parseOrderKey) []
  else pure []

/-- The number behind `LIMIT`. -/
def parseLimit : Parser ℕ := do
  let token ← expectNumber "limit value"
  numberOr token "limit value" (parseDecimal maxUsize token.lexeme)

/-- `from` is set only where the source is a single table. -/
def baseName : Option RowSource → Option Bytes
  | some (.baseTable name _) => some name
  | _ => none

/-- The body of `parseSelectAfterSelect`. -/
def selectAfterSelect : Parser SelectStatement := do
  let projections ← parseProjections
  let source ← optionally "FROM" (parseRowSource parseSelectAfterSelect)
  let whereClause ← optionally "WHERE" parseExpression
  let groupBy ← parseGroupBy
  let having ← optionally "HAVING" parseExpression
  let orderBy ← parseOrderBy
  let limit ← optionally "LIMIT" parseLimit
  return {
    projectionItems := projections
    projections := projections.map Projection.expression
    fromName := baseName source
    source := source
    whereClause := whereClause
    groupBy := groupBy
    having := having
    orderBy := orderBy
    limit := limit }

end Select

/-- `parseSelectAfterSelect`. -/
def parseSelectAfterSelect : Parser SelectStatement :=
  Parse.fix initialDiagnostic selectAfterSelect

/-! ## Definitions -/

/-- `parseColumnType`. -/
def parseColumnType : Parser Ast.ColumnType := do
  let token ← expectToken "column type"
  if !isIdentifier token then failToken token .unexpectedToken "column type"
  else if isKeyword ["INTEGER", "INT"] token then pure .integer
  else if isKeyword ["FLOAT", "REAL", "DOUBLE"] token then pure .float
  else if isKeyword ["BOOLEAN", "BOOL"] token then pure .boolean
  else if isKeyword ["TEXT", "VARCHAR", "CHAR"] token then pure .text
  else if isKeyword ["BLOB"] token then pure .blob
  else if isKeyword ["VECTOR"] token then
    expectSymbol "("
    let dimensionToken ← expectNumber "vector dimension"
    let dimension ← numberOr dimensionToken "vector dimension"
      (parseDecimal maxUsize dimensionToken.lexeme)
    expectSymbol ")"
    pure (.vector dimension)
  else failToken token .unsupportedSyntax "MVP column type"

/-- A round of `skipBalanced`. -/
def balancedRound (closing : String) (depth : ℕ) : Parser (Parse.Round ℕ Unit) := do
  match ← advance with
  | none => failEnd closing
  | some token =>
    if isSymbol "(" token then pure (.again (depth + 1))
    else if isSymbol closing token then
      if depth - 1 = 0 then pure (.done ()) else pure (.again (depth - 1))
    else pure (.again depth)

/-- `skipBalanced`. -/
def skipBalanced (closing : String) : Parser Unit := loop (balancedRound closing) 1

/-- `skipOneAttributeToken`. -/
def skipOneAttributeToken : Parser Unit := do
  if ← matchSymbol "(" then skipBalanced ")"
  else
    let _ ← advance
    pure ()

/-- `ColumnAttributes`. -/
structure ColumnAttributes where
  nullable : Bool := true
  defaultValue : Option Expression := none
  primaryKey : Bool := false
  autoIncrement : Bool := false

/-- `isAtColumnDefinitionBoundary`. -/
def isAtColumnDefinitionBoundary : Parser Bool :=
  nextIs true fun token => isSymbol "," token || isSymbol ")" token

/-- A round of `parseColumnAttributes`. -/
def attributeRound (attributes : ColumnAttributes) :
    Parser (Parse.Round ColumnAttributes ColumnAttributes) := do
  if ← isAtColumnDefinitionBoundary then return .done attributes
  else if ← matchKeyword "PRIMARY" then
    expectKeyword "KEY"
    return .again { attributes with primaryKey := true, nullable := false }
  else if ← matchKeyword "NOT" then
    expectKeyword "NULL"
    return .again { attributes with nullable := false }
  else if ← matchKeyword "NULL" then
    return .again { attributes with nullable := true }
  else if ← matchKeyword "DEFAULT" then
    return .again { attributes with defaultValue := some (← parseExpression) }
  else if ← matchKeyword "AUTO_INCREMENT" then
    return .again { attributes with autoIncrement := true, nullable := false }
  else
    skipOneAttributeToken
    return .again attributes

/-- `parseColumnAttributes`. -/
def parseColumnAttributes : Parser ColumnAttributes := loop attributeRound {}

/-- A column of an index, with its key length skipped. -/
def parseIndexColumn : Parser Bytes := do
  let column ← expectIdentifierOwned "index column"
  if ← matchSymbol "(" then
    skipBalanced ")"
    pure column
  else pure column

/-- `parseIndexColumnList`. -/
def parseIndexColumnList : Parser (List Bytes) := do
  expectSymbol "("
  listUntil ")" (push parseIndexColumn) []

/-- The name of an index, if it has one. -/
def parseIndexName : Parser (Option Bytes) := do
  if ← nextIsSymbol "(" then pure none
  else return some (← expectIdentifierOwned "index name")

/-- An index behind `INDEX` or `KEY`. -/
def parseNamedIndex : Parser Ast.IndexDef := do
  let name ← parseIndexName
  return { name := name, columns := ← parseIndexColumnList, primary := false }

/-- `parseTableIndex`. -/
def parseTableIndex : Parser Ast.IndexDef := do
  if ← matchKeyword "PRIMARY" then
    expectKeyword "KEY"
    return { name := none, columns := ← parseIndexColumnList, primary := true }
  else if ← matchKeyword "INDEX" then parseNamedIndex
  else if ← matchKeyword "KEY" then parseNamedIndex
  else failCurrent .unexpectedToken "INDEX or KEY"

/-- `isTableIndexStart`. -/
def isTableIndexStart : Parser Bool := nextIs false (isKeyword ["PRIMARY", "INDEX", "KEY"])

/-- A round of the loop of `parseCreateTable`. -/
def parseTableItem (items : List Ast.ColumnDef × List Ast.IndexDef) :
    Parser (List Ast.ColumnDef × List Ast.IndexDef) := do
  if ← isTableIndexStart then
    return (items.1, items.2 ++ [← parseTableIndex])
  else
    let name ← expectIdentifierOwned "column name"
    let columnType ← parseColumnType
    let attributes ← parseColumnAttributes
    return (items.1 ++ [⟨name, columnType, attributes.nullable, attributes.defaultValue,
      attributes.primaryKey, attributes.autoIncrement⟩], items.2)

/-- `IF NOT EXISTS`. -/
def parseIfNotExists : Parser Bool := do
  if ← matchKeyword "IF" then
    expectKeyword "NOT"
    expectKeyword "EXISTS"
    pure true
  else pure false

/-- `parseCreateTable`. -/
def parseCreateTable : Parser CreateTableStatement := do
  let ifNotExists ← parseIfNotExists
  let name ← expectIdentifierOwned "table name"
  expectSymbol "("
  let (columns, indexes) ← listUntil ")" parseTableItem ([], [])
  return ⟨name, ifNotExists, columns, indexes⟩

/-- `Expression.deinit` has something to free. -/
def isAllocated : Expression → Bool
  | .literal (.string text) => !text.isEmpty
  | .literal (.vector values) => !values.isEmpty
  | .identifier name => !name.isEmpty
  | .functionCall name args => !name.isEmpty || !args.isEmpty
  | .binary .. => true
  | .literal _ | .star => false

/-- **A default is freed twice.** `parseColumnAttributes` frees the default it
has before it parses another one; if that cannot be parsed, the `errdefer`
frees with the attributes what they still hold. -/
def freesDefault (input : Input) (attributes : ColumnAttributes) : List Token → Bool
  | [] => false
  | token :: l => attributes.defaultValue.any isAllocated &&
    token.eqlIgnoreCase (ascii "DEFAULT") && !(parseExpression.run input l).isOk

/-- This happens in the column that is defined next. -/
def freesInColumn (input : Input) : List Token → Bool
  | [] => false
  | token :: l => isIdentifier token && !isKeyword ["PRIMARY", "INDEX", "KEY"] token &&
    match parseColumnType.run input l with
    | .ok (_, l) => Parse.comesTo attributeRound (freesDefault input) input (l.length + 1) {} l
    | .error _ => false

/-- A table up to its columns. -/
def tableHead : Parser Unit := do
  let _ ← parseIfNotExists
  let _ ← expectIdentifierOwned "table name"
  expectSymbol "("

/-- **The parser frees memory twice**: in a column of a table, and nowhere
else. -/
def freesTwice (input : Input) : List Token → Bool
  | create :: table :: l =>
    create.eqlIgnoreCase (ascii "CREATE") && table.eqlIgnoreCase (ascii "TABLE") &&
      match tableHead.run input l with
      | .ok (_, l) => Parse.comesTo (listUntilRound ")" parseTableItem)
          (fun _ => freesInColumn input) input (l.length + 1) ([], []) l
      | .error _ => false
  | _ => false

/-- `parseDropTable`. -/
def parseDropTable : Parser NamedStatement := do
  if ← matchKeyword "IF" then
    expectKeyword "EXISTS"
    return ⟨← expectIdentifierOwned "table name", true⟩
  else return ⟨← expectIdentifierOwned "table name", false⟩

/-- `parseCreateView`. The text of the view is cut out of the text of the
statement, from `SELECT` to the token behind the query. -/
def parseCreateView : Parser CreateViewStatement := do
  let name ← expectIdentifierOwned "view name"
  expectKeyword "AS"
  match ← peek with
  | none => failEnd "SELECT"
  | some selectToken =>
    expectKeyword "SELECT"
    let query ← parseSelectAfterSelect
    let bodyEnd ← currentOffset
    let input ← Parse.read
    return ⟨name, query, trim (slice input.sql selectToken.offset bodyEnd)⟩

/-- A parameter of a procedure. -/
def parseParam (params : List ProcedureParam) : Parser (List ProcedureParam) := do
  if ← matchKeyword "IN" then param params
  else
    match ← peek with
    | some token =>
      if isKeyword ["OUT", "INOUT"] token then failToken token .unsupportedSyntax "IN parameter"
      else param params
    | none => param params
where
  /-- Its name and type. -/
  param (params : List ProcedureParam) : Parser (List ProcedureParam) := do
    let name ← expectIdentifierOwned "parameter name"
    return params ++ [⟨name, ← parseColumnType⟩]

/-- A round of the loop below. -/
def bodyEndRound (bodyEnd : ℕ) : Parser (Parse.Round ℕ ℕ) := do
  match ← advance with
  | none => return .done bodyEnd
  | some token =>
    return .again (if isKeyword ["END"] token then token.offset + token.lexeme.length
      else bodyEnd)

/-- The end of a procedure's body: behind the last `END` of the text, or
the end of the text. -/
def findBodyEnd : Parser ℕ := do
  loop bodyEndRound (← Parse.read).sql.length

/-- `parseCreateProcedure`. -/
def parseCreateProcedure : Parser ProcedureStatement := do
  let name ← expectIdentifierOwned "procedure name"
  let params ← if ← matchSymbol "(" then listUntil ")" parseParam [] else pure []
  let bodyStart ← currentOffset
  let bodyEnd ← findBodyEnd
  if bodyEnd ≤ bodyStart then
    Parse.fail fun _ => ⟨.unsupportedSyntax, bodyStart, [], "procedure body", none⟩
  else
    return ⟨name, params, trim (slice (← Parse.read).sql bodyStart bodyEnd)⟩

/-! ## Statements -/

/-- `parseInsert`. -/
def parseInsert : Parser InsertStatement := do
  expectKeyword "INTO"
  let tableName ← expectIdentifierOwned "table name"
  let columns ←
    if ← matchSymbol "(" then listUntil ")" (push (expectIdentifierOwned "column name")) []
    else pure []
  expectKeyword "VALUES"
  expectSymbol "("
  return ⟨tableName, columns, ← listUntil ")" (push parseExpression) []⟩

/-- A round of the loop of `parseUpdate`. -/
def parseAssignment : Parser Assignment := do
  let column ← expectIdentifierOwned "column name"
  expectSymbol "="
  return ⟨column, ← parseExpression⟩

/-- `parseUpdate`. -/
def parseUpdate : Parser UpdateStatement := do
  let tableName ← expectIdentifierOwned "table name"
  expectKeyword "SET"
  let assignments ← listOf (push parseAssignment) []
  return ⟨tableName, assignments, ← optionally "WHERE" parseExpression⟩

/-- `parseDelete`. -/
def parseDelete : Parser DeleteStatement := do
  expectKeyword "FROM"
  let tableName ← expectIdentifierOwned "table name"
  return ⟨tableName, ← optionally "WHERE" parseExpression⟩

/-- `parseCall`. -/
def parseCall : Parser CallStatement := do
  let name ← expectIdentifierOwned "procedure name"
  if ← matchSymbol "(" then return ⟨name, ← listUntil ")" (push parseExpression) []⟩
  else return ⟨name, []⟩

/-- What follows `CREATE`. -/
def parseCreate : Parser Ast.Statement := do
  if ← matchKeyword "TABLE" then return .createTable (← parseCreateTable)
  else if ← matchKeyword "VIEW" then return .createView (← parseCreateView)
  else if ← matchKeyword "PROCEDURE" then return .createProcedure (← parseCreateProcedure)
  else failCurrent .unsupportedSyntax "TABLE, VIEW, or PROCEDURE"

/-- What follows `DROP`. -/
def parseDrop : Parser Ast.Statement := do
  if ← matchKeyword "TABLE" then return .dropTable (← parseDropTable)
  else if ← matchKeyword "VIEW" then
    return .dropView ⟨← expectIdentifierOwned "view name", false⟩
  else if ← matchKeyword "PROCEDURE" then
    return .dropProcedure ⟨← expectIdentifierOwned "procedure name", false⟩
  else failCurrent .unsupportedSyntax "TABLE, VIEW, or PROCEDURE"

/-- `parseStatement`. -/
def parseStatement : Parser Ast.Statement := do
  if ← matchKeyword "CREATE" then parseCreate
  else if ← matchKeyword "DROP" then parseDrop
  else if ← matchKeyword "INSERT" then return .insert (← parseInsert)
  else if ← matchKeyword "SELECT" then return .select (← parseSelectAfterSelect)
  else if ← matchKeyword "WITH" then
    return .select (← parseSelectAfterWith parseSelectAfterSelect)
  else if ← matchKeyword "UPDATE" then return .update (← parseUpdate)
  else if ← matchKeyword "DELETE" then return .delete (← parseDelete)
  else if ← matchKeyword "BEGIN" then return .begin
  else if ← matchKeyword "COMMIT" then return .commit
  else if ← matchKeyword "ROLLBACK" then return .rollback
  else if ← matchKeyword "CALL" then return .call (← parseCall)
  else failCurrent .unexpectedToken "supported ShovelerDB statement"

/-- `consumeSemicolons`. -/
def consumeSemicolons (tokens : List Token) : List Token := tokens.dropWhile (isSymbol ";")

/-- `unexpected`. -/
def unexpected (token : Token) (expected : String) : Diagnostic :=
  ⟨.unexpectedToken, token.offset, token.lexeme, expected, none⟩

/-- The diagnostic of a violation. -/
def policyDiagnostic (violation : PolicyViolation) : Diagnostic :=
  ⟨.policyViolation, violation.offset, violation.token, violation.message, some violation.feature⟩

/-- `parse`. -/
def parse (parseFloat : Bytes → Option UInt64) (sql : Bytes) : Except Diagnostic Ast.Statement :=
  match firstViolation sql with
  | some violation => .error (policyDiagnostic violation)
  | none =>
    match parseStatement.run ⟨sql, parseFloat⟩ (tokenize sql) with
    | .error diagnostic => .error diagnostic
    | .ok (statement, rest) =>
      match consumeSemicolons rest with
      | [] => .ok statement
      | token :: _ => .error (unexpected token "end of statement")

/-- `parseExpressionOnly`. -/
def parseExpressionOnly (parseFloat : Bytes → Option UInt64) (sql : Bytes) :
    Except Diagnostic Expression :=
  match parseExpression.run ⟨sql, parseFloat⟩ (tokenize sql) with
  | .error diagnostic => .error diagnostic
  | .ok (expression, []) => .ok expression
  | .ok (_, token :: _) => .error (unexpected token "end of expression")

example : (parse (fun _ => none) (ascii "CREATE VIEW v AS SELECT a FROM t WHERE f(a) = -1 ;")).map
    (fun statement =>
      match statement with
      | .createView view => (view.bodySql, view.query.fromName)
      | _ => ([], none)) =
    .ok (ascii "SELECT a FROM t WHERE f(a) = -1", some (ascii "t")) := by
  decide +kernel

end Sql

end Shoveler
