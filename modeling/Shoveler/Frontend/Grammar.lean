import Shoveler.Frontend.Printing
import Shoveler.Frontend.Progress

/-!
# What the parser makes of tokens

The tokens of a text are those that were printed, up to their offsets
(`Spells`), and no test of the parser looks at an offset. From there on
what each piece of the expression grammar reads is one lemma: a primary by
its first token, a loop by what it goes on with and by what ends it
(`Ends`). A primary that nothing takes along is a whole expression
(`parseExpression_of_primary`).
-/

namespace Shoveler

open List

namespace Sql

open Ast Parse

variable {operator : BinaryOperator} {tokens : List Token} {wanted : Token → Bool}

/-! ## Single tokens -/

/-- These tokens were printed, wherever they stand now. -/
def Spells (tokens printed : List Token) : Prop := tokens.map Token.anywhere = printed

instance (tokens printed : List Token) : Decidable (Spells tokens printed) :=
  inferInstanceAs (Decidable (_ = _))

/-- The next token is not one of these. -/
def Ends (wanted : Token → Bool) (rest : List Token) : Prop :=
  ∀ token ∈ rest.head?, wanted token = false

/-- What a name takes along. -/
def follows (token : Token) : Bool := isSymbol "(" token || isSymbol "." token

/-- What a sum takes along. -/
def adds (token : Token) : Bool := isSymbol "+" token || isSymbol "-" token

/-- What a conjunction takes along. -/
def isAnd (token : Token) : Bool := token.eqlIgnoreCase (ascii "AND")

section

variable {α β : Type} {input : Input} {token printed : Token} {l rest : List Token}

theorem run_of_ok {p : Parser α} {f : α → Parser β} {a : α} (h : p.run input l = .ok (a, rest)) :
    (p >>= f).run input l = (f a).run input rest := by
  rw [run_bind, h]

theorem Ends.of_imp {wanted' : Token → Bool} (h : Ends wanted rest)
    (himp : ∀ token, wanted token = false → wanted' token = false) : Ends wanted' rest :=
  fun token htoken => himp token (h token htoken)

theorem ends_cons : Ends wanted (token :: rest) ↔ wanted token = false := by
  simp [Ends]

theorem ends_nil (wanted : Token → Bool) : Ends wanted [] := fun _ h => by cases h

theorem accept_of_ends (h : Ends wanted rest) :
    (accept wanted : Parser Bool).run input rest = .ok (false, rest) := by
  cases rest with
  | nil => rfl
  | cons token rest => rw [accept_cons, ends_cons.1 h, if_neg Bool.false_ne_true]

theorem accept_of_wanted (h : wanted token = true) :
    (accept wanted : Parser Bool).run input (token :: rest) = .ok (true, rest) := by
  rw [accept_cons, if_pos h]

theorem matchSymbol_of_ends {symbol : String} (h : Ends (isSymbol symbol) rest) :
    (matchSymbol symbol).run input rest = .ok (false, rest) :=
  accept_of_ends h

theorem matchSymbol_of_symbol {symbol : String} (h : isSymbol symbol token = true) :
    (matchSymbol symbol).run input (token :: rest) = .ok (true, rest) :=
  accept_of_wanted h

/-- Only kind and text of a token matter to a test. -/
theorem isSymbol_of_anywhere (h : token.anywhere = printed) (symbol : String) :
    isSymbol symbol token = isSymbol symbol printed := by
  rw [← h]
  rfl

theorem isKeyword_of_anywhere (h : token.anywhere = printed) (keywords : List String) :
    isKeyword keywords token = isKeyword keywords printed := by
  rw [← h]
  rfl

theorem ends_of_anywhere (hsame : ∀ token, wanted token.anywhere = wanted token)
    (h : token.anywhere = printed) (hprinted : wanted printed = false) :
    Ends wanted (token :: rest) := by
  rw [ends_cons, ← hsame, h, hprinted]

theorem spells_cons (h : Spells l (printed :: rest)) :
    ∃ token more, l = token :: more ∧ token.anywhere = printed ∧ Spells more rest := by
  obtain ⟨token, more, rfl, htoken, hmore⟩ := map_eq_cons_iff.1 h
  exact ⟨token, more, rfl, htoken, hmore⟩

theorem spells_append {printed printed' : List Token} (h : Spells l (printed ++ printed')) :
    ∃ first second, l = first ++ second ∧ Spells first printed ∧ Spells second printed' :=
  map_eq_append_iff.1 h

theorem spells_singleton (h : Spells l [printed]) : ∃ token, l = [token] ∧ token.anywhere = printed := by
  obtain ⟨token, more, rfl, htoken, hmore⟩ := spells_cons h
  exact ⟨token, by rw [map_eq_nil_iff.1 hmore], htoken⟩

theorem expectToken_run (expected : String) :
    (expectToken expected).run input (token :: rest) = .ok (token, rest) := rfl

theorem expectSymbol_run {symbol : String} (h : isSymbol symbol token = true) :
    (expectSymbol symbol).run input (token :: rest) = .ok ((), rest) := by
  rw [expectSymbol, run_of_ok (expectToken_run symbol), if_pos h]
  rfl

/-- A token that is no symbol is none of them. -/
theorem isSymbol_of_kind (h : token.kind ≠ .symbol) (symbol : String) :
    isSymbol symbol token = false := by
  rw [isSymbol, decide_eq_false h, Bool.false_and]

end

/-! ## How an expression starts -/

/-- A token with which an expression starts: no symbol but a parenthesis. -/
def Starts (token : Token) : Prop := token.kind ≠ .symbol ∨ token.lexeme = ascii "("

theorem Starts.isSymbol {token : Token} (h : Starts token) {symbol : String}
    (hsymbol : ascii "(" ≠ ascii symbol) : Sql.isSymbol symbol token = false := by
  rcases h with hkind | hlexeme
  · exact isSymbol_of_kind hkind symbol
  · rw [Sql.isSymbol, hlexeme, decide_eq_false hsymbol, Bool.and_false]

/-- The first of the tokens starts an expression. -/
def StartsWell (tokens : List Token) : Prop := ∃ token rest, tokens = token :: rest ∧ Starts token

theorem StartsWell.append (h : StartsWell tokens) (more : List Token) :
    StartsWell (tokens ++ more) := by
  obtain ⟨token, rest, rfl, htoken⟩ := h
  exact ⟨token, rest ++ more, rfl, htoken⟩

theorem StartsWell.of_spells {printed : List Token} (hspells : Spells tokens printed)
    (h : StartsWell printed) : StartsWell tokens := by
  obtain ⟨first, rest, rfl, hstarts⟩ := h
  obtain ⟨token, more, rfl, rfl, -⟩ := spells_cons hspells
  exact ⟨token, more, rfl, hstarts⟩

theorem StartsWell.ends {tokens : List Token} (h : StartsWell tokens) {symbol : String}
    (hsymbol : ascii "(" ≠ ascii symbol) : Ends (isSymbol symbol) tokens := by
  obtain ⟨token, rest, rfl, htoken⟩ := h
  exact ends_cons.2 (htoken.isSymbol hsymbol)

theorem startsWell_atLevel {needed : ℕ} {e : Expression} (h : StartsWell tokens) :
    StartsWell (atLevel needed e tokens) := by
  unfold atLevel inParentheses
  split
  · exact ⟨_, _, rfl, .inr rfl⟩
  · exact h

theorem startsWell_wordToken (word : Bytes) (rest : List Token) :
    StartsWell (wordToken word :: rest) :=
  ⟨_, _, rfl, .inl fun h => by cases h⟩

/-- **Every expression starts well.** -/
theorem startsWell_printTokens {e : Expression} (h : printable e = true) :
    StartsWell (printTokens e) := by
  cases e with
  | star => cases h
  | identifier identifier =>
    rw [printTokens, identifierTokens]
    split
    · exact startsWell_wordToken _ _
    · exact startsWell_wordToken _ _
  | literal literal =>
    cases literal with
    | null => exact startsWell_wordToken _ _
    | boolean b => cases b <;> exact startsWell_wordToken _ _
    | integer v => exact ⟨_, _, rfl, .inl fun h => by cases h⟩
    | string s => exact ⟨_, _, rfl, .inl fun h => by cases h⟩
    | float | vector => cases h
  | functionCall name args => exact startsWell_wordToken _ _
  | binary left operator right =>
    -- an operation starts with its left side, in parentheses or not
    have hleft := startsWell_printTokens (Bool.and_eq_true_iff.1 h).1
    rw [printTokens]
    exact (startsWell_atLevel hleft).append _

/-! ## Primaries -/

section Primary

variable {input : Input} {token : Token} {l rest : List Token} {pe : Parser Expression}

/-- A number that is not negative, by its digits. -/
theorem ofNat_toNat {v : Int64} (h : 0 ≤ v.toInt) :
    Int64.ofNat v.toInt.toNat = v ∧ v.toInt.toNat ≤ maxI64 := by
  have hlt := v.toInt_lt
  have hmax : maxI64 = 9223372036854775807 := rfl
  refine ⟨?_, by omega⟩
  rw [← Int64.toInt_inj, Int64.toInt_ofNat_of_lt (by omega)]
  omega

/-- **A number that fits.** -/
theorem parseNumber_digits {n : ℕ} (hlexeme : token.lexeme = decimal n) (hfits : n ≤ maxI64)
    (negative : Bool) :
    (parseNumber token negative).run input l =
      .ok (.integer (if negative then -Int64.ofNat n else Int64.ofNat n), l) := by
  have hdot : Byte.dot ∉ token.lexeme := by
    rw [hlexeme]
    exact fun h => absurd (isDigit_of_mem_decimal h) (by decide)
  have hvalue : parseDecimal maxI64 token.lexeme = some n := by
    rw [hlexeme, parseDecimal_digits (decimal_ne_nil n) fun c => isDigit_of_mem_decimal,
      valueFrom_decimal, if_pos hfits]
  rw [parseNumber, if_neg hdot, hvalue]
  rfl

theorem parsePrimary_number (hkind : token.kind = .number) :
    (parsePrimary pe).run input (token :: l) =
      (parseNumber token false >>= fun literal => pure (.literal literal)).run input l := by
  rw [parsePrimary, run_of_ok (expectToken_run _), if_neg (by rw [hkind]; decide), if_pos hkind]

theorem parsePrimary_string {s : Bytes} (h : token.anywhere = stringToken s) :
    (parsePrimary pe).run input (token :: l) = .ok (.literal (.string s), l) := by
  have hkind : token.kind = .string := congrArg Token.kind h
  have hlexeme : token.lexeme = quoteLiteral s := congrArg Token.lexeme h
  have hclosed : token.terminated = true := congrArg Token.terminated h
  have hclone : cloneStringLiteral token = pure s := by
    rw [cloneStringLiteral, hlexeme, quoteLiteral, head?_cons, if_pos rfl, if_pos hclosed,
      tail_cons, dropLast_concat, undouble_double]
  rw [parsePrimary, run_of_ok (expectToken_run _), if_pos hkind, hclone]
  rfl

theorem parsePrimary_parentheses {close : Token} {e : Expression}
    (hopen : token.anywhere = symbolToken "(") (hclose : isSymbol ")" close = true)
    (h : pe.run input l = .ok (e, close :: rest)) :
    (parsePrimary pe).run input (token :: l) = .ok (e, rest) := by
  have hkind : token.kind = .symbol := congrArg Token.kind hopen
  have hsymbol := isSymbol_of_anywhere hopen
  rw [parsePrimary, run_of_ok (expectToken_run _), if_neg (by rw [hkind]; decide),
    if_neg (by rw [hkind]; decide), if_neg (by rw [hsymbol]; decide),
    if_neg (by rw [hsymbol]; decide), if_pos (by rw [hsymbol]; decide), run_of_ok h,
    run_of_ok (expectSymbol_run hclose)]
  rfl

/-- A word is a literal, or a name that may go on. -/
theorem parsePrimary_word {word : Bytes} (h : token.anywhere = wordToken word) :
    (parsePrimary pe).run input (token :: l) =
      (if isKeyword ["NULL"] token then pure (.literal .null)
        else if isKeyword ["TRUE"] token then pure (.literal (.boolean true))
        else if isKeyword ["FALSE"] token then pure (.literal (.boolean false))
        else parseNamed pe (normalizedIdentifier token)).run input l := by
  have hkind : token.kind = .identifier := congrArg Token.kind h
  have hsymbol : ∀ symbol, isSymbol symbol token = false :=
    isSymbol_of_kind (by rw [hkind]; decide)
  have hidentifier : isIdentifier token = true := decide_eq_true hkind
  rw [parsePrimary, run_of_ok (expectToken_run _), if_neg (by rw [hkind]; decide),
    if_neg (by rw [hkind]; decide), hsymbol, if_neg Bool.false_ne_true, hsymbol,
    if_neg Bool.false_ne_true, hsymbol, if_neg Bool.false_ne_true, hsymbol,
    if_neg Bool.false_ne_true, if_pos hidentifier]

/-- A name in front of which and behind which there are no quotes. -/
theorem normalizedIdentifier_of_isName {name : Bytes} (h : token.anywhere = wordToken name)
    (hname : isName name = true) : normalizedIdentifier token = name := by
  have hlexeme : token.lexeme = name := congrArg Token.lexeme h
  rw [normalizedIdentifier, hlexeme]
  refine if_neg fun hquoted => ?_
  cases name with
  | nil => cases hname
  | cons c rest =>
    obtain rfl : c = Byte.backtick := Option.some.inj hquoted.2.1
    rw [isName, Bool.and_eq_true_iff] at hname
    exact absurd hname.1 (by decide)

/-- **A free name is read as one.** -/
theorem parsePrimary_name {name : Bytes} (h : token.anywhere = wordToken name)
    (hname : isFreeName name = true) :
    (parsePrimary pe).run input (token :: l) = (parseNamed pe name).run input l := by
  obtain ⟨hisName, hfree⟩ := Bool.and_eq_true_iff.1 hname
  have hkeyword : ∀ word ∈ ["NULL", "TRUE", "FALSE", "AND"], isKeyword [word] token = false := by
    intro word hword
    have hother := all_eq_true.1 hfree word hword
    rw [Bool.not_eq_true'] at hother
    rw [isKeyword_of_anywhere h, isKeyword, any_cons, any_nil, Bool.or_false,
      Token.eqlIgnoreCase, wordToken]
    exact Bool.and_eq_false_imp.2 fun _ => hother
  rw [parsePrimary_word h, hkeyword "NULL" (by decide), if_neg Bool.false_ne_true,
    hkeyword "TRUE" (by decide), if_neg Bool.false_ne_true, hkeyword "FALSE" (by decide),
    if_neg Bool.false_ne_true, normalizedIdentifier_of_isName h hisName]

/-- A name that nothing follows is an identifier. -/
theorem parseNamed_of_ends (h : Ends follows rest) (name : Bytes) :
    (parseNamed pe name).run input rest = .ok (.identifier name, rest) := by
  have hopen : Ends (isSymbol "(") rest := h.of_imp fun token h => (Bool.or_eq_false_iff.1 h).1
  have hdot : Ends (isSymbol ".") rest := h.of_imp fun token h => (Bool.or_eq_false_iff.1 h).2
  rw [parseNamed, run_of_ok (matchSymbol_of_ends hopen), if_neg Bool.false_ne_true,
    run_of_ok (matchSymbol_of_ends hdot), if_neg Bool.false_ne_true]
  rfl

/-- A name behind a point is the member. -/
theorem parseNamed_member {member : Token} {name : Bytes} (hdot : token.anywhere = symbolToken ".")
    (hmember : member.anywhere = wordToken name) (hname : isName name = true) (qualifier : Bytes) :
    (parseNamed pe qualifier).run input (token :: member :: rest) =
      .ok (.identifier (qualifier ++ [Byte.dot] ++ name), rest) := by
  have hsymbol := isSymbol_of_anywhere hdot
  have hopen : Ends (isSymbol "(") (token :: member :: rest) :=
    ends_cons.2 ((hsymbol _).trans (by decide))
  have hidentifier : isIdentifier member = true := congrArg isIdentifier hmember
  have hread : (expectIdentifierToken "qualified identifier member").run input (member :: rest) =
      .ok (member, rest) := by
    rw [expectIdentifierToken, run_of_ok (expectToken_run _), if_pos hidentifier]
    rfl
  rw [parseNamed, run_of_ok (matchSymbol_of_ends hopen), if_neg Bool.false_ne_true,
    run_of_ok (matchSymbol_of_symbol ((hsymbol _).trans (by decide))), if_pos rfl,
    run_of_ok hread, normalizedIdentifier_of_isName hmember hname]
  rfl

/-- A list of arguments makes a call. -/
theorem parseNamed_call {args : List Expression} (hopen : token.anywhere = symbolToken "(")
    (h : (listUntil ")" (push pe) []).run input l = .ok (args, rest)) (name : Bytes) :
    (parseNamed pe name).run input (token :: l) = .ok (.functionCall name args, rest) := by
  have hsymbol : isSymbol "(" token = true := (isSymbol_of_anywhere hopen "(").trans (by decide)
  rw [parseNamed, run_of_ok (matchSymbol_of_symbol hsymbol), if_pos rfl, run_of_ok h]
  rfl

end Primary

/-! ## Loops -/

section Loops

variable {input : Input} {token : Token} {l rest : List Token} {e e' : Expression}
  {pe : Parser Expression}

/-- A sum goes on with an operator and a primary. -/
theorem additive_again (hlevel : operatorLevel operator = 2)
    (hspells : Spells tokens (operatorTokens operator))
    (h : (parsePrimary pe).run input l = .ok (e', rest)) :
    (loop (additiveRound pe) e).run input (tokens ++ l) =
      (loop (additiveRound pe) (.binary e operator e')).run input rest := by
  have hround : (additiveRound pe e).run input (tokens ++ l) =
      .ok (.again (.binary e operator e'), rest) := by
    cases operator with
    | add =>
      obtain ⟨token, rfl, htoken⟩ := spells_singleton hspells
      have hplus : isSymbol "+" token = true := (isSymbol_of_anywhere htoken "+").trans (by decide)
      rw [additiveRound, singleton_append, run_of_ok (matchSymbol_of_symbol hplus),
        if_pos rfl, run_of_ok h]
      rfl
    | subtract =>
      obtain ⟨token, rfl, htoken⟩ := spells_singleton hspells
      have hplus : Ends (isSymbol "+") (token :: l) :=
        ends_cons.2 ((isSymbol_of_anywhere htoken "+").trans (by decide))
      have hminus : isSymbol "-" token = true := (isSymbol_of_anywhere htoken "-").trans (by decide)
      rw [additiveRound, singleton_append, run_of_ok (matchSymbol_of_ends hplus),
        if_neg Bool.false_ne_true, run_of_ok (matchSymbol_of_symbol hminus), if_pos rfl,
        run_of_ok h]
      rfl
    | equal | notEqual | lessThan | lessEqual | greaterThan | greaterEqual | andOp => cases hlevel
  rw [loop, loop_eq (reads_additiveRound pe), run_of_ok hround]
  rfl

/-- And ends where none follows. -/
theorem additive_done (h : Ends adds rest) :
    (loop (additiveRound pe) e).run input rest = .ok (e, rest) := by
  have hplus : Ends (isSymbol "+") rest := h.of_imp fun token h => (Bool.or_eq_false_iff.1 h).1
  have hminus : Ends (isSymbol "-") rest := h.of_imp fun token h => (Bool.or_eq_false_iff.1 h).2
  have hround : (additiveRound pe e).run input rest = .ok (.done e, rest) := by
    rw [additiveRound, run_of_ok (matchSymbol_of_ends hplus),
      if_neg Bool.false_ne_true, run_of_ok (matchSymbol_of_ends hminus),
      if_neg Bool.false_ne_true]
    rfl
  rw [loop, loop_eq (reads_additiveRound pe), run_of_ok hround]
  rfl

/-- A conjunction goes on with a comparison. -/
theorem and_again (htoken : token.anywhere = wordToken (ascii "AND"))
    (h : (parseComparisonExpression pe).run input l = .ok (e', rest)) :
    (loop (andRound pe) e).run input (token :: l) =
      (loop (andRound pe) (.binary e .andOp e')).run input rest := by
  have hand : isAnd token = true := by
    have hsame : isAnd token = isAnd token.anywhere := rfl
    rw [hsame, htoken]
    decide
  have hmatch : (matchKeyword "AND").run input (token :: l) = .ok (true, l) :=
    accept_of_wanted hand
  have hround : (andRound pe e).run input (token :: l) =
      .ok (.again (.binary e .andOp e'), rest) := by
    rw [andRound, run_of_ok hmatch, if_pos rfl, run_of_ok h]
    rfl
  rw [loop, loop_eq (reads_andRound pe), run_of_ok hround]
  rfl

/-- And ends where none follows. -/
theorem and_done (h : Ends isAnd rest) :
    (loop (andRound pe) e).run input rest = .ok (e, rest) := by
  have hmatch : (matchKeyword "AND").run input rest = .ok (false, rest) := accept_of_ends h
  have hround : (andRound pe e).run input rest = .ok (.done e, rest) := by
    rw [andRound, run_of_ok hmatch, if_neg Bool.false_ne_true]
    rfl
  rw [loop, loop_eq (reads_andRound pe), run_of_ok hround]
  rfl

theorem nextIs_of_ends (h : Ends wanted rest) :
    (nextIs false wanted).run input rest = .ok (false, rest) := by
  cases rest with
  | nil => rfl
  | cons token rest => exact congrArg (fun b => Except.ok (b, token :: rest)) (ends_cons.1 h)

/-- **A primary that nothing takes along is the expression.** -/
theorem parseExpression_of_primary (h : (parsePrimary parseExpression).run input l = .ok (e, rest))
    (hadds : Ends adds rest) (hcompares : Ends isComparisonStart rest) (hand : Ends isAnd rest) :
    parseExpression.run input l = .ok (e, rest) := by
  have hsum : (parseAdditiveExpression parseExpression).run input l = .ok (e, rest) :=
    (run_of_ok h).trans (additive_done hadds)
  have hcomparison : (parseComparisonExpression parseExpression).run input l = .ok (e, rest) := by
    rw [parseComparisonExpression, run_of_ok hsum, run_of_ok (nextIs_of_ends hcompares),
      if_neg Bool.false_ne_true]
    rfl
  refine (congrArg (fun p => p.run input l) parseExpression_eq).trans ?_
  exact (run_of_ok hcomparison).trans (and_done hand)

/-- **An operator is not taken along by a tighter level.** -/
theorem ends_operator (hspells : Spells tokens (operatorTokens operator)) (l : List Token) :
    Ends follows (tokens ++ l) ∧ (operatorLevel operator < 2 → Ends adds (tokens ++ l)) ∧
      (operatorLevel operator < 1 → Ends isComparisonStart (tokens ++ l)) := by
  cases operator with
  | add | subtract =>
    obtain ⟨token, more, rfl, htoken, -⟩ := spells_cons hspells
    refine ⟨ends_of_anywhere (fun _ => rfl) htoken (by decide), fun h => ?_, fun h => ?_⟩
    · exact absurd h (by decide)
    · exact absurd h (by decide)
  | equal | notEqual | lessThan | lessEqual | greaterThan | greaterEqual =>
    obtain ⟨token, more, rfl, htoken, -⟩ := spells_cons hspells
    refine ⟨ends_of_anywhere (fun _ => rfl) htoken (by decide), fun _ => ?_, fun h => ?_⟩
    · exact ends_of_anywhere (fun _ => rfl) htoken (by decide)
    · exact absurd h (by decide)
  | andOp =>
    obtain ⟨token, more, rfl, htoken, -⟩ := spells_cons hspells
    refine ⟨ends_of_anywhere (fun _ => rfl) htoken (by decide), fun _ => ?_, fun _ => ?_⟩
    · exact ends_of_anywhere (fun _ => rfl) htoken (by decide)
    · exact ends_of_anywhere (fun _ => rfl) htoken (by decide)

/-- A comparison is known by its first symbol. -/
theorem nextIs_comparison (hlevel : operatorLevel operator = 1)
    (hspells : Spells tokens (operatorTokens operator)) (l : List Token) :
    (nextIs false isComparisonStart).run input (tokens ++ l) = .ok (true, tokens ++ l) := by
  cases operator with
  | add | subtract | andOp => cases hlevel
  | equal | notEqual | lessThan | lessEqual | greaterThan | greaterEqual =>
    obtain ⟨token, more, rfl, htoken, -⟩ := spells_cons hspells
    have hstart : isComparisonStart token = true := by
      have hsame : isComparisonStart token = isComparisonStart token.anywhere := rfl
      rw [hsame, htoken]
      decide
    exact congrArg (fun b => Except.ok (b, token :: (more ++ l))) hstart

theorem parseComparisonOperator_less (h : token.anywhere = symbolToken "<") :
    parseComparisonOperator.run input (token :: l) =
      (do
        if ← matchSymbol "=" then pure .lessEqual
        else if ← matchSymbol ">" then pure .notEqual
        else pure .lessThan : Parser BinaryOperator).run input l := by
  have hlexeme : token.lexeme = ascii "<" := congrArg Token.lexeme h
  rw [parseComparisonOperator, run_of_ok (expectToken_run _), hlexeme, if_neg (by decide),
    if_pos rfl]

theorem parseComparisonOperator_greater (h : token.anywhere = symbolToken ">") :
    parseComparisonOperator.run input (token :: l) =
      (do
        if ← matchSymbol "=" then pure .greaterEqual
        else pure .greaterThan : Parser BinaryOperator).run input l := by
  have hlexeme : token.lexeme = ascii ">" := congrArg Token.lexeme h
  rw [parseComparisonOperator, run_of_ok (expectToken_run _), hlexeme, if_neg (by decide),
    if_neg (by decide), if_pos rfl]

/-- **An operator that compares is read**, in front of an operand. -/
theorem comparison_operator (hlevel : operatorLevel operator = 1)
    (hspells : Spells tokens (operatorTokens operator)) (hl : StartsWell l) :
    parseComparisonOperator.run input (tokens ++ l) = .ok (operator, l) := by
  -- what could make the operator longer is not how an operand starts
  have hequal : Ends (isSymbol "=") l := hl.ends (by decide)
  have hgreater : Ends (isSymbol ">") l := hl.ends (by decide)
  cases operator with
  | add | subtract | andOp => cases hlevel
  | equal =>
    obtain ⟨token, rfl, htoken⟩ := spells_singleton hspells
    have hlexeme : token.lexeme = ascii "=" := congrArg Token.lexeme htoken
    rw [singleton_append, parseComparisonOperator, run_of_ok (expectToken_run _),
      if_pos hlexeme]
    rfl
  | lessThan =>
    obtain ⟨token, rfl, htoken⟩ := spells_singleton hspells
    rw [singleton_append, parseComparisonOperator_less htoken,
      run_of_ok (matchSymbol_of_ends hequal), if_neg Bool.false_ne_true,
      run_of_ok (matchSymbol_of_ends hgreater), if_neg Bool.false_ne_true]
    rfl
  | greaterThan =>
    obtain ⟨token, rfl, htoken⟩ := spells_singleton hspells
    rw [singleton_append, parseComparisonOperator_greater htoken,
      run_of_ok (matchSymbol_of_ends hequal), if_neg Bool.false_ne_true]
    rfl
  | notEqual =>
    obtain ⟨token, more, rfl, htoken, hmore⟩ := spells_cons hspells
    obtain ⟨second, rfl, hsecond⟩ := spells_singleton hmore
    have hsame := isSymbol_of_anywhere hsecond
    have hnot : Ends (isSymbol "=") (second :: l) := ends_cons.2 ((hsame _).trans (by decide))
    have hthen : isSymbol ">" second = true := (hsame _).trans (by decide)
    rw [cons_append, parseComparisonOperator_less htoken, singleton_append,
      run_of_ok (matchSymbol_of_ends hnot), if_neg Bool.false_ne_true,
      run_of_ok (matchSymbol_of_symbol hthen), if_pos rfl]
    rfl
  | lessEqual =>
    obtain ⟨token, more, rfl, htoken, hmore⟩ := spells_cons hspells
    obtain ⟨second, rfl, hsecond⟩ := spells_singleton hmore
    have hthen : isSymbol "=" second = true := (isSymbol_of_anywhere hsecond _).trans (by decide)
    rw [cons_append, parseComparisonOperator_less htoken, singleton_append,
      run_of_ok (matchSymbol_of_symbol hthen), if_pos rfl]
    rfl
  | greaterEqual =>
    obtain ⟨token, more, rfl, htoken, hmore⟩ := spells_cons hspells
    obtain ⟨second, rfl, hsecond⟩ := spells_singleton hmore
    have hthen : isSymbol "=" second = true := (isSymbol_of_anywhere hsecond _).trans (by decide)
    rw [cons_append, parseComparisonOperator_greater htoken, singleton_append,
      run_of_ok (matchSymbol_of_symbol hthen), if_pos rfl]
    rfl

end Loops

end Sql

end Shoveler
