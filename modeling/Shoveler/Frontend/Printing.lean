import Shoveler.Frontend.Literals
import Shoveler.Frontend.Tokens
import Shoveler.Model.QuerySource

/-!
# Printing expressions

An expression is printed as a list of tokens, with parentheses around an
operand only where the grammar needs them (`printTokens`): `+` and `-`
associate to the left and bind tighter than comparisons, which do not
associate and bind tighter than `AND`, which associates to the left. As a
text the tokens are written one after the other, with a space behind each,
and the tokenizer finds the same tokens again (`tokens_printText`).
-/

namespace Shoveler

open List

/-- A token without its place. -/
def Token.anywhere (token : Token) : Token := { token with offset := 0 }

namespace Sql

open Ast

/-! ## Tokens -/

/-- An identifier or a keyword. -/
def wordToken (word : Bytes) : Token := ⟨.identifier, word, 0, true⟩

/-- A symbol of one byte. -/
def symbolToken (symbol : String) : Token := ⟨.symbol, ascii symbol, 0, true⟩

/-- A number. -/
def numberToken (n : ℕ) : Token := ⟨.number, decimal n, 0, true⟩

/-- A string. -/
def stringToken (s : Bytes) : Token := ⟨.string, quoteLiteral s, 0, true⟩

/-- A name that need not be quoted. -/
def isName : Bytes → Bool
  | [] => false
  | c :: rest => isIdentifierStart c && rest.all isIdentifierContinue

/-- A name that is not one of the words with a meaning of their own. -/
def isFreeName (name : Bytes) : Bool :=
  isName name && ["NULL", "TRUE", "FALSE", "AND"].all fun word => !namesEqual name (ascii word)

/-- An identifier, with its qualifier. -/
def identifierTokens (identifier : Bytes) : List Token :=
  match identifierParts identifier with
  | ⟨none, name⟩ => [wordToken name]
  | ⟨some qualifier, name⟩ => [wordToken qualifier, symbolToken ".", wordToken name]

/-- The identifiers that can be written without quotes. -/
def printableIdentifier (identifier : Bytes) : Bool :=
  match identifierParts identifier with
  | ⟨none, name⟩ => isFreeName name
  | ⟨some qualifier, name⟩ => isFreeName qualifier && isName name

/-- A literal. -/
def literalTokens : Literal → List Token
  | .null => [wordToken (ascii "NULL")]
  | .boolean true => [wordToken (ascii "TRUE")]
  | .boolean false => [wordToken (ascii "FALSE")]
  | .integer v => [numberToken v.toInt.toNat]
  | .string s => [stringToken s]
  | .float _ => []
  | .vector _ => []

/-- The literals that are printed: no floats or vectors, and no negative
numbers. -/
def printableLiteral : Literal → Bool
  | .null => true
  | .boolean _ => true
  | .integer v => decide (0 ≤ v.toInt)
  | .string _ => true
  | .float _ => false
  | .vector _ => false

/-- An operator. -/
def operatorTokens : BinaryOperator → List Token
  | .add => [symbolToken "+"]
  | .subtract => [symbolToken "-"]
  | .equal => [symbolToken "="]
  | .notEqual => [symbolToken "<", symbolToken ">"]
  | .lessThan => [symbolToken "<"]
  | .lessEqual => [symbolToken "<", symbolToken "="]
  | .greaterThan => [symbolToken ">"]
  | .greaterEqual => [symbolToken ">", symbolToken "="]
  | .andOp => [wordToken (ascii "AND")]

/-! ## Levels -/

/-- How tight an operator binds. -/
def operatorLevel : BinaryOperator → ℕ
  | .andOp => 0
  | .add | .subtract => 2
  | .equal | .notEqual | .lessThan | .lessEqual | .greaterThan | .greaterEqual => 1

/-- The level an operand needs on the left: that of the operator, if it
associates. -/
def leftLevel (operator : BinaryOperator) : ℕ :=
  if operatorLevel operator = 1 then 2 else operatorLevel operator

/-- The level an operand needs on the right. -/
def rightLevel (operator : BinaryOperator) : ℕ := operatorLevel operator + 1

/-- The level of an expression. -/
def level : Expression → ℕ
  | .binary _ operator _ => operatorLevel operator
  | .star | .identifier _ | .literal _ | .functionCall _ _ => 3

/-- Tokens in parentheses. -/
def inParentheses (tokens : List Token) : List Token :=
  symbolToken "(" :: (tokens ++ [symbolToken ")"])

/-- The tokens of an operand, for the level it needs. -/
def atLevel (needed : ℕ) (e : Expression) (tokens : List Token) : List Token :=
  if level e < needed then inParentheses tokens else tokens

/-! ## Expressions -/

mutual

/-- **The tokens of an expression.** -/
def printTokens : Expression → List Token
  | .star => [symbolToken "*"]
  | .identifier identifier => identifierTokens identifier
  | .literal literal => literalTokens literal
  | .functionCall name args =>
    wordToken name :: symbolToken "(" :: (printArguments args ++ [symbolToken ")"])
  | .binary left operator right =>
    atLevel (leftLevel operator) left (printTokens left) ++
      (operatorTokens operator ++ atLevel (rightLevel operator) right (printTokens right))

/-- The arguments of a call, with commas in between. -/
def printArguments : List Expression → List Token
  | [] => []
  | [arg] => printTokens arg
  | arg :: other :: args => printTokens arg ++ symbolToken "," :: printArguments (other :: args)

end

mutual

/-- **The expressions that are printed.** -/
def printable : Expression → Bool
  | .star => false
  | .identifier identifier => printableIdentifier identifier
  | .literal literal => printableLiteral literal
  | .functionCall name args => isFreeName name && allPrintable args
  | .binary left _ right => printable left && printable right

/-- And lists of them. -/
def allPrintable : List Expression → Bool
  | [] => true
  | arg :: args => printable arg && allPrintable args

end

/-- Tokens as a text. -/
def printText (tokens : List Token) : Bytes := tokens.flatMap fun token => token.lexeme ++ [32]

/-! ## Scanning what was printed -/

/-- **A token that is read for itself**, in front of a space and whatever
follows. -/
structure Stands (token : Token) : Prop where
  placeless : token.anywhere = token
  closed : token.terminated = true
  read : ∃ c l, token.lexeme = c :: l ∧ ∀ rest, skipTriviaStep (c :: (l ++ 32 :: rest)) = none ∧
    readToken c (l ++ 32 :: rest) = (token.kind, l.length, true)

theorem tokens_space (rest : Bytes) (i : ℕ) :
    Tokenizer.tokens ⟨32 :: rest, i⟩ = Tokenizer.tokens ⟨rest, i + 1⟩ := by
  have hspace : skipTrivia (32 :: rest) = skipTrivia rest := skipTrivia_of_some rfl
  cases hskip : skipTrivia rest with
  | nil => rw [Tokenizer.tokens_of_nil _ hskip, Tokenizer.tokens_of_nil _ (hspace.trans hskip)]
  | cons c l =>
    have hlength := Tokenizer.length_lt_of_cons hskip
    have hplace : i + ((32 :: rest).length - (l.length + 1)) =
        i + 1 + (rest.length - (l.length + 1)) := by
      rw [length_cons]
      omega
    rw [Tokenizer.tokens_of_cons _ hskip, Tokenizer.tokens_of_cons _ (hspace.trans hskip), hplace]

/-- **The tokenizer finds the tokens that were printed.** -/
theorem tokens_printText {tokens : List Token} (h : ∀ token ∈ tokens, Stands token) (i : ℕ) :
    (Tokenizer.tokens ⟨printText tokens, i⟩).map Token.anywhere = tokens := by
  induction tokens generalizing i with
  | nil => rfl
  | cons token tokens ih =>
    rw [forall_mem_cons] at h
    obtain ⟨c, l, hlexeme, hread⟩ := h.1.read
    obtain ⟨hstep, hread⟩ := hread (printText tokens)
    have htext : printText (token :: tokens) = c :: (l ++ 32 :: printText tokens) := by
      rw [printText, flatMap_cons, hlexeme, append_assoc]
      rfl
    have hskip := skipTrivia_of_none hstep
    rw [htext, Tokenizer.tokens_of_cons i hskip, hread]
    simp only [take_left, drop_left, map_cons]
    rw [tokens_space, ih h.2, ← h.1.placeless]
    simp only [Token.anywhere, hlexeme, h.1.closed]

/-! ### Each kind of token -/

theorem skipTriviaStep_of_continue {c : UInt8} (h : isIdentifierContinue c = true) (l : Bytes) :
    skipTriviaStep (c :: l) = none := by
  have hspace : isWhitespace c ≠ true := fun hspace =>
    Bool.false_ne_true ((isWhitespace_cases hspace).1.symm.trans h)
  have hne : ∀ d, isIdentifierContinue d = false → c ≠ d := by
    rintro d hd rfl
    exact Bool.false_ne_true (hd.symm.trans h)
  rw [skipTriviaStep, if_neg hspace, if_neg (hne _ rfl), if_neg (fun hc => hne _ rfl hc.1),
    if_neg (fun hc => hne _ rfl hc.1)]

/-- What a token takes of a text that goes on with a space. -/
theorem takeWhile_space {p : UInt8 → Bool} (hp : p 32 = false) {l : Bytes}
    (h : ∀ c ∈ l, p c = true) (rest : Bytes) : (l ++ 32 :: rest).takeWhile p = l := by
  rw [takeWhile_append_of_pos h, takeWhile_cons_of_neg (by simp [hp]), append_nil]

theorem isIdentifierContinue_of_start {c : UInt8} (h : isIdentifierStart c = true) :
    isIdentifierContinue c = true := by
  rw [isIdentifierStart, Bool.or_eq_true] at h
  rw [isIdentifierContinue, isAlphanumeric]
  rcases h with h | h
  · rw [h]
    rfl
  · rw [h, Bool.or_true, Bool.true_or]

theorem stands_wordToken {name : Bytes} (h : isName name = true) : Stands (wordToken name) := by
  cases name with
  | nil => cases h
  | cons c l =>
    obtain ⟨hstart, hrest⟩ := Bool.and_eq_true_iff.1 h
    refine ⟨rfl, rfl, c, l, rfl, fun rest => ⟨?_, ?_⟩⟩
    · exact skipTriviaStep_of_continue (isIdentifierContinue_of_start hstart) _
    · rw [readToken_identifier hstart, takeWhile_space rfl (all_eq_true.1 hrest)]
      rfl

theorem stands_numberToken (n : ℕ) : Stands (numberToken n) := by
  obtain ⟨c, l, hdigits⟩ := exists_cons_of_ne_nil (decimal_ne_nil n)
  have hdigit : ∀ d ∈ c :: l, isDigit d = true := fun d hd =>
    isDigit_of_mem_decimal (hdigits ▸ hd)
  rw [forall_mem_cons] at hdigit
  refine ⟨rfl, rfl, c, l, hdigits, fun rest => ⟨?_, ?_⟩⟩
  · exact skipTriviaStep_of_continue (by simp [isIdentifierContinue, isAlphanumeric, hdigit.1]) _
  · rw [readToken_number hdigit.1, takeWhile_space rfl fun d hd => by
      simp [isNumberContinue, isAlphanumeric, hdigit.2 d hd]]
    rfl

theorem stands_stringToken (s : Bytes) : Stands (stringToken s) := by
  refine ⟨rfl, rfl, Byte.apostrophe, double s ++ [Byte.apostrophe], rfl, fun rest => ⟨rfl, ?_⟩⟩
  have hspace : (32 :: rest).head? ≠ some Byte.apostrophe := fun h =>
    absurd (Option.some.inj h) (by decide)
  have hclosed := readQuoted_double s hspace
  rw [append_assoc, singleton_append, readToken_quoted (.inl rfl), hclosed,
    length_append]
  rfl

theorem stands_symbolToken {symbol : String}
    (h : symbol ∈ ["(", ")", ",", ".", "+", "-", "=", "<", ">"]) : Stands (symbolToken symbol) := by
  have hread : ∀ c : UInt8, isIdentifierStart c ≠ true → isDigit c ≠ true → ¬IsQuote c →
      (∀ rest, skipTriviaStep (c :: 32 :: rest) = none) → Stands ⟨.symbol, [c], 0, true⟩ :=
    fun c hident hdigit hquote hstep =>
      ⟨rfl, rfl, c, [], rfl, fun rest => ⟨hstep rest, readToken_symbol hident hdigit hquote _⟩⟩
  simp only [mem_cons, not_mem_nil, or_false] at h
  rcases h with rfl | rfl | rfl | rfl | rfl | rfl | rfl | rfl | rfl
  all_goals exact hread _ (by decide) (by decide) (by decide) fun rest => rfl

theorem stands_operatorTokens (operator : BinaryOperator) :
    ∀ token ∈ operatorTokens operator, Stands token := by
  cases operator with
  | andOp => exact forall_mem_singleton.2 (stands_wordToken (by decide))
  | add | subtract | equal | lessThan | greaterThan =>
    exact forall_mem_singleton.2 (stands_symbolToken (by decide))
  | notEqual | lessEqual | greaterEqual =>
    exact forall_mem_cons.2 ⟨stands_symbolToken (by decide),
      forall_mem_singleton.2 (stands_symbolToken (by decide))⟩

/-- A name without a meaning of its own is a name. -/
theorem isName_of_isFreeName {name : Bytes} (h : isFreeName name = true) : isName name = true :=
  (Bool.and_eq_true_iff.1 h).1

theorem stands_identifierTokens {identifier : Bytes} (h : printableIdentifier identifier = true) :
    ∀ token ∈ identifierTokens identifier, Stands token := by
  unfold printableIdentifier at h
  unfold identifierTokens
  generalize identifierParts identifier = parts at h
  obtain ⟨qualifier, name⟩ := parts
  cases qualifier with
  | none => exact forall_mem_singleton.2 (stands_wordToken (isName_of_isFreeName h))
  | some qualifier =>
    obtain ⟨hqualifier, hname⟩ := Bool.and_eq_true_iff.1 h
    exact forall_mem_cons.2 ⟨stands_wordToken (isName_of_isFreeName hqualifier),
      forall_mem_cons.2 ⟨stands_symbolToken (by decide),
        forall_mem_singleton.2 (stands_wordToken hname)⟩⟩

theorem stands_literalTokens {literal : Literal} (h : printableLiteral literal = true) :
    ∀ token ∈ literalTokens literal, Stands token := by
  cases literal with
  | null => exact forall_mem_singleton.2 (stands_wordToken (by decide))
  | boolean b =>
    cases b <;> exact forall_mem_singleton.2 (stands_wordToken (by decide))
  | integer v => exact forall_mem_singleton.2 (stands_numberToken _)
  | string s => exact forall_mem_singleton.2 (stands_stringToken s)
  | float | vector => cases h

theorem stands_atLevel {needed : ℕ} {e : Expression} {tokens : List Token}
    (h : ∀ token ∈ tokens, Stands token) : ∀ token ∈ atLevel needed e tokens, Stands token := by
  unfold atLevel inParentheses
  split
  · refine forall_mem_cons.2 ⟨stands_symbolToken (by decide), forall_mem_append.2 ⟨h, ?_⟩⟩
    exact forall_mem_singleton.2 (stands_symbolToken (by decide))
  · exact h

mutual

/-- **Every token of an expression is read for itself.** -/
theorem stands_printTokens : ∀ {e : Expression}, printable e = true →
    ∀ token ∈ printTokens e, Stands token
  | .star, h => by cases h
  | .identifier _, h => stands_identifierTokens h
  | .literal _, h => stands_literalTokens h
  | .functionCall name args, h => by
    obtain ⟨hname, hargs⟩ := Bool.and_eq_true_iff.1 h
    refine forall_mem_cons.2 ⟨stands_wordToken (isName_of_isFreeName hname),
      forall_mem_cons.2 ⟨stands_symbolToken (by decide), forall_mem_append.2 ?_⟩⟩
    exact ⟨stands_printArguments hargs, forall_mem_singleton.2 (stands_symbolToken (by decide))⟩
  | .binary left operator right, h => by
    obtain ⟨hleft, hright⟩ := Bool.and_eq_true_iff.1 h
    rw [printTokens]
    refine forall_mem_append.2 ⟨stands_atLevel (stands_printTokens hleft), ?_⟩
    exact forall_mem_append.2 ⟨stands_operatorTokens operator,
      stands_atLevel (stands_printTokens hright)⟩

theorem stands_printArguments : ∀ {args : List Expression}, allPrintable args = true →
    ∀ token ∈ printArguments args, Stands token
  | [], _ => by
    intro token htoken
    cases htoken
  | [arg], h => stands_printTokens (Bool.and_eq_true_iff.1 h).1
  | arg :: other :: args, h => by
    obtain ⟨harg, hargs⟩ := Bool.and_eq_true_iff.1 h
    rw [printArguments]
    refine forall_mem_append.2 ⟨stands_printTokens harg, ?_⟩
    exact forall_mem_cons.2 ⟨stands_symbolToken (by decide), stands_printArguments hargs⟩

end

end Sql

end Shoveler
