import Shoveler.Model.Tokenizer

/-!
# The policy scan

`policy.zig`: before a text is parsed it is scanned for features the
engine refuses. The scan remembers the last two keywords it knows, and
inside `CREATE TABLE` how deep in parentheses it is.
-/

namespace Shoveler

/-- `UnsupportedFeature`. -/
inductive UnsupportedFeature where
  | foreignKey
  | temporaryTable
  | storageEngineSelection
  | replication
  | userAuth
  | plugin
deriving DecidableEq, Repr

/-- `UnsupportedFeature.label`. -/
def UnsupportedFeature.label : UnsupportedFeature → String
  | foreignKey => "foreign keys"
  | temporaryTable => "temporary tables"
  | storageEngineSelection => "storage engine selection"
  | replication => "replication/binlog"
  | userAuth => "users/grants/auth"
  | plugin => "plugins"

/-- `PolicyViolation`. -/
structure PolicyViolation where
  feature : UnsupportedFeature
  offset : ℕ
  token : Bytes
deriving DecidableEq, Repr

/-- `PolicyViolation.message`. -/
def PolicyViolation.message (self : PolicyViolation) : String := self.feature.label

/-- `Keyword`. -/
inductive Keyword where
  | begin
  | binlog
  | commit
  | create
  | engine
  | foreign
  | grant
  | install
  | key
  | plugin
  | procedure
  | replication
  | references
  | revoke
  | rollback
  | table
  | temp
  | temporary
  | uninstall
  | user
  | view
deriving DecidableEq, Repr

/-- The words of `keywordOf`, in the order in which they are tried. -/
def keywords : List (String × Keyword) :=
  [("BEGIN", .begin), ("BINLOG", .binlog), ("COMMIT", .commit), ("CREATE", .create),
   ("ENGINE", .engine), ("FOREIGN", .foreign), ("GRANT", .grant), ("INSTALL", .install),
   ("KEY", .key), ("PLUGIN", .plugin), ("PROCEDURE", .procedure), ("REPLICATION", .replication),
   ("REFERENCES", .references), ("REVOKE", .revoke), ("ROLLBACK", .rollback), ("TABLE", .table),
   ("TEMP", .temp), ("TEMPORARY", .temporary), ("UNINSTALL", .uninstall), ("USER", .user),
   ("VIEW", .view)]

/-- `keywordOf`. -/
def keywordOf (token : Token) : Option Keyword :=
  (keywords.find? fun entry => token.eqlIgnoreCase (ascii entry.1)).map Prod.snd

namespace Policy

/-- What `firstViolation` remembers from token to token. -/
structure Scan where
  prev : Option Keyword := none
  prev2 : Option Keyword := none
  inCreateTable : Bool := false
  parenDepth : ℕ := 0
deriving DecidableEq, Repr

/-- `violation`. -/
def violation (feature : UnsupportedFeature) (token : Token) : PolicyViolation :=
  ⟨feature, token.offset, token.lexeme⟩

/-- The feature a keyword shows by itself. -/
def alone : Keyword → Option UnsupportedFeature
  | .grant | .revoke => some .userAuth
  | .binlog | .replication => some .replication
  | .references => some .foreignKey
  | _ => none

/-- The feature a keyword shows behind another. -/
def behind : Keyword → Keyword → Option UnsupportedFeature
  | .foreign, .key => some .foreignKey
  | .create, .user => some .userAuth
  | .install, .plugin | .uninstall, .plugin => some .plugin
  | .temporary, .table | .temp, .table => some .temporaryTable
  | _, _ => none

namespace Scan

/-- The scan at a symbol. -/
def symbol (self : Scan) (lexeme : Bytes) : Scan :=
  if lexeme = ascii ";" then {}
  else if self.inCreateTable ∧ lexeme = ascii "(" then
    { self with parenDepth := self.parenDepth + 1 }
  else if self.inCreateTable ∧ lexeme = ascii ")" then
    { self with parenDepth := self.parenDepth - 1 }
  else self

/-- `CREATE TABLE` has been entered. -/
def entered (self : Scan) (keyword : Keyword) : Scan :=
  if keyword = .table ∧ self.prev = some .create then
    { self with inCreateTable := true, parenDepth := 0 }
  else self

/-- The feature a keyword shows at this point of the scan. -/
def shows (self : Scan) (keyword : Keyword) : Option UnsupportedFeature :=
  alone keyword <|> (self.prev.bind fun prev => behind prev keyword) <|>
    (if keyword = .table ∧ self.prev2 = some .create ∧
      (self.prev = some .temporary ∨ self.prev = some .temp) then some .temporaryTable
    else none) <|>
    if (self.entered keyword).inCreateTable ∧ (self.entered keyword).parenDepth = 0 ∧
      keyword = .engine then some .storageEngineSelection
    else none

/-- A round of `firstViolation`. -/
def step (self : Scan) (token : Token) : Except PolicyViolation Scan :=
  match token.kind with
  | .symbol => .ok (self.symbol token.lexeme)
  | .identifier =>
    match keywordOf token with
    | none => .ok self
    | some keyword =>
      match self.shows keyword with
      | some feature => .error (violation feature token)
      | none => .ok { self.entered keyword with prev := some keyword, prev2 := self.prev }
  | _ => .ok self

end Scan

/-- `firstViolation`, over the tokens of the text. -/
def scan (self : Scan) : List Token → Option PolicyViolation
  | [] => none
  | token :: rest =>
    match self.step token with
    | .error violation => some violation
    | .ok self => scan self rest

end Policy

/-- `firstViolation`. -/
def firstViolation (sql : Bytes) : Option PolicyViolation := Policy.scan {} (tokenize sql)

/-- `accepts`. -/
def accepts (sql : Bytes) : Bool := (firstViolation sql).isNone

end Shoveler
