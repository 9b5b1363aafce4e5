import Shoveler.Model.Parser

/-!
# Procedure bodies

`procedure_body.zig`: the body of a procedure is parsed on its own, from
the text that `CREATE PROCEDURE` has kept of it. Blocks nest, between
`IF` and `END IF` and between `WHILE` and `END WHILE`; the expressions and
the statements in between are cut out of the text and handed to the
parser of statements.
-/

namespace Shoveler

namespace ProcedureBody

open Sql (Input isSymbol isKeyword isIdentifier)

/-- `BodyParseError`. -/
inductive BodyParseError where
  | unsupportedProcedure
deriving DecidableEq, Repr

/-- `BodyParser`. -/
abbrev BodyParser (α : Type) := Parse Input Token BodyParseError α

variable {α : Type}

/-- `return error.UnsupportedProcedure`. -/
def unsupported : BodyParser α := Parse.fail fun _ => .unsupportedProcedure

/-- A loop of the body parser. -/
def loop {β : Type} (body : α → BodyParser (Parse.Round α β)) (a : α) : BodyParser β :=
  Parse.loop .unsupportedProcedure body a

/-! ## Single tokens -/

/-- The next token, which has to be as wanted. -/
def expectToken (wanted : Token → Bool) : BodyParser Token := do
  match ← Parse.advance with
  | none => unsupported
  | some token => if wanted token then pure token else unsupported

/-- `expectKeyword`. -/
def expectKeyword (keyword : String) : BodyParser Unit := do
  let _ ← expectToken fun token => token.eqlIgnoreCase (ascii keyword)
  pure ()

/-- `expectSymbol`. -/
def expectSymbol (symbol : String) : BodyParser Unit := do
  let _ ← expectToken (isSymbol symbol)
  pure ()

/-- `expectIdentifierOwned`. -/
def expectIdentifierOwned : BodyParser Bytes := do
  return normalizedIdentifier (← expectToken isIdentifier)

/-- `matchKeyword`. -/
def matchKeyword (keyword : String) : BodyParser Bool :=
  Parse.accept fun token => token.eqlIgnoreCase (ascii keyword)

/-- `matchSymbol`. -/
def matchSymbol (symbol : String) : BodyParser Bool := Parse.accept (isSymbol symbol)

/-! ## Expressions and statements -/

/-- The depth behind a token of a text that is collected. -/
def depthAfter (token : Token) (depth : ℕ) : ℕ :=
  if isSymbol "(" token then depth + 1 else if isSymbol ")" token then depth - 1 else depth

/-- A round of `collectUntilSemicolon`. -/
def semicolonRound (depth : ℕ) : BodyParser (Parse.Round ℕ ℕ) := do
  match ← Parse.advance with
  | none => unsupported
  | some token =>
    if isSymbol ";" token && decide (depth = 0) then return .done token.offset
    else return .again (depthAfter token depth)

/-- A round of `collectUntilKeyword`. -/
def keywordRound (keyword : String) (depth : ℕ) : BodyParser (Parse.Round ℕ ℕ) := do
  match ← Parse.advance with
  | none => unsupported
  | some token =>
    if decide (depth = 0) && token.eqlIgnoreCase (ascii keyword) then return .done token.offset
    else return .again (depthAfter token depth)

/-- What `collectUntilSemicolon` and `collectUntilKeyword` share: the text
from the next token up to the one the loop stops at. -/
def collect (round : ℕ → BodyParser (Parse.Round ℕ ℕ)) : BodyParser Bytes := do
  match ← Parse.peek with
  | none => unsupported
  | some first =>
    let last ← loop round 0
    return trim (slice (← Parse.read).sql first.offset last)

/-- `collectUntilSemicolon`. -/
def collectUntilSemicolon : BodyParser Bytes := collect semicolonRound

/-- `collectUntilKeyword`. -/
def collectUntilKeyword (keyword : String) : BodyParser Bytes := collect (keywordRound keyword)

/-- `parseExpressionSlice`. -/
def parseExpressionSlice (expressionSql : Bytes) : BodyParser Ast.Expression := do
  if expressionSql.isEmpty then unsupported
  else
    match Sql.parseExpressionOnly (← Parse.read).parseFloat expressionSql with
    | .error _ => unsupported
    | .ok expression => pure expression

/-- `parseExpressionUntilSemicolon`. -/
def parseExpressionUntilSemicolon : BodyParser Ast.Expression := do
  parseExpressionSlice (← collectUntilSemicolon)

/-- `parseExpressionUntilKeyword`. -/
def parseExpressionUntilKeyword (keyword : String) : BodyParser Ast.Expression := do
  parseExpressionSlice (← collectUntilKeyword keyword)

/-- The statements a body may run. -/
def isRunnable : Ast.Statement → Bool
  | .insert _ | .update _ | .delete _ | .select _ => true
  | _ => false

/-- `parseSqlStatement`. -/
def parseSqlStatement : BodyParser Ast.Statement := do
  let statementSql ← collectUntilSemicolon
  match Sql.parse (← Parse.read).parseFloat statementSql with
  | .error _ => unsupported
  | .ok statement => if isRunnable statement then pure statement else unsupported

/-- A round of the loop of `parseDeclare`. -/
def declareRound (name : Bytes) (_ : Unit) : BodyParser (Parse.Round Unit Statement) := do
  match ← Parse.advance with
  | none => unsupported
  | some token =>
    if isSymbol ";" token then return .done (.declareVar name none)
    else if isKeyword ["CURSOR", "HANDLER", "CONDITION"] token then unsupported
    else if isKeyword ["DEFAULT"] token then
      return .done (.declareVar name (some (← parseExpressionUntilSemicolon)))
    else return .again ()

/-- `parseDeclare`. -/
def parseDeclare : BodyParser Statement := do
  let name ← expectIdentifierOwned
  loop (declareRound name) ()

/-- `parseSet`. -/
def parseSet : BodyParser Statement := do
  let name ← expectIdentifierOwned
  expectSymbol "="
  return .setVar name (← parseExpressionUntilSemicolon)

/-- `isUnsupportedStoredProgramToken`. -/
def isUnsupportedStoredProgramToken : Token → Bool :=
  isKeyword ["CURSOR", "HANDLER", "PREPARE", "EXECUTE", "DEALLOCATE", "OPEN", "FETCH", "CLOSE",
    "LEAVE", "ITERATE", "REPEAT", "LOOP", "CASE", "SIGNAL", "RESIGNAL", "RETURN"]

/-! ## Blocks -/

/-- `StopSet`. -/
structure StopSet where
  elseKeyword : Bool := false
  endKeyword : Bool := false

/-- Whether a block ends before the token. -/
def StopSet.stops (stop : StopSet) (token : Token) : Bool :=
  stop.elseKeyword && isKeyword ["ELSE"] token || stop.endKeyword && isKeyword ["END"] token

section Blocks

variable (parseStatement : BodyParser Statement)

/-- A round of `parseStatementsUntil`. -/
def statementsRound (stop : StopSet) (statements : Body) : BodyParser (Parse.Round Body Body) := do
  match ← Parse.peek with
  | none => return .done statements
  | some token =>
    if stop.stops token then return .done statements
    else return .again (statements ++ [← parseStatement])

/-- `parseStatementsUntil`. -/
def parseStatementsUntil (stop : StopSet) : BodyParser Body :=
  loop (statementsRound parseStatement stop) []

/-- `parseIf`. -/
def parseIf : BodyParser Statement := do
  let condition ← parseExpressionUntilKeyword "THEN"
  let thenBody ← parseStatementsUntil parseStatement { elseKeyword := true, endKeyword := true }
  let elseBody ←
    if ← matchKeyword "ELSE" then parseStatementsUntil parseStatement { endKeyword := true }
    else pure []
  expectKeyword "END"
  expectKeyword "IF"
  expectSymbol ";"
  return .ifStatement condition thenBody elseBody

/-- `parseWhile`. -/
def parseWhile : BodyParser Statement := do
  let condition ← parseExpressionUntilKeyword "DO"
  let body ← parseStatementsUntil parseStatement { endKeyword := true }
  expectKeyword "END"
  expectKeyword "WHILE"
  expectSymbol ";"
  return .whileStatement condition body

/-- The body of `parseStatement`. -/
def statement : BodyParser Statement := do
  match ← Parse.peek with
  | none => unsupported
  | some token =>
    if ← matchKeyword "DECLARE" then parseDeclare
    else if ← matchKeyword "SET" then parseSet
    else if ← matchKeyword "IF" then parseIf parseStatement
    else if ← matchKeyword "WHILE" then parseWhile parseStatement
    else if isUnsupportedStoredProgramToken token then unsupported
    else return .sql (← parseSqlStatement)

end Blocks

/-- `parseStatement`. -/
def parseStatement : BodyParser Statement := Parse.fix .unsupportedProcedure statement

/-- `parseBody`, up to the `END` that closes the body. -/
def parseBlock : BodyParser Body := do
  expectKeyword "BEGIN"
  let body ← parseStatementsUntil parseStatement { endKeyword := true }
  expectKeyword "END"
  return body

/-- A round of the loop over the semicolons. -/
def trailingRound (_ : Unit) : BodyParser (Parse.Round Unit Unit) := do
  if ← matchSymbol ";" then return .again () else return .done ()

/-- `parseBody`. -/
def parseBody : BodyParser Body := do
  let body ← parseBlock
  loop trailingRound ()
  match ← Parse.peek with
  | some _ => unsupported
  | none => return body

/-- `parse`. -/
def parse (parseFloat : Bytes → Option UInt64) (bodySql : Bytes) : Option Body :=
  match parseBody.run ⟨bodySql, parseFloat⟩ (tokenize bodySql) with
  | .error _ => none
  | .ok (body, _) => some body

end ProcedureBody

end Shoveler
