import Shoveler.Frontend.Grammar

/-!
# Integers as literals

An integer is written by its decimal digits, behind a minus sign if it is
negative. The sign is a token of its own, and the digits behind it are
read as a number by themselves: so what can be written is what fits
without the sign, and the smallest integer does not
(`smallest_integer_refused`). Every other integer is read as it was
written, and digits that denote too large a number are refused
(`integer_literal_round_trip`).
-/

namespace Shoveler

/-- An integer in decimal digits. -/
def spelling (n : ℤ) : Bytes :=
  if n < 0 then Byte.dash :: decimal n.natAbs else decimal n.natAbs

/-! ## Tokens -/

section Tokens

variable {digits : Bytes}

/-- Digits are one token. -/
theorem tokens_digits (hne : digits ≠ []) (h : ∀ c ∈ digits, isDigit c = true) (i : ℕ) :
    Tokenizer.tokens ⟨digits, i⟩ = [⟨.number, digits, i, true⟩] := by
  obtain ⟨c, l, rfl⟩ := List.exists_cons_of_ne_nil hne
  rw [List.forall_mem_cons] at h
  have hcontinue : isIdentifierContinue c = true := by
    simp [isIdentifierContinue, isAlphanumeric, h.1]
  have hskip := skipTrivia_of_none (Sql.skipTriviaStep_of_continue hcontinue l)
  have hall : l.takeWhile isNumberContinue = l := by
    refine List.takeWhile_eq_self_iff.2 fun d hd => ?_
    simp [isNumberContinue, isAlphanumeric, h.2 d hd]
  rw [Tokenizer.tokens_of_cons i hskip, readToken_number h.1, hall]
  simp only [List.take_length, List.drop_length, List.length_cons, Nat.sub_self, Nat.add_zero]
  rw [Tokenizer.tokens_of_nil _ (skipTrivia_of_none rfl)]

/-- A minus sign in front of them is another. -/
theorem tokenize_negative (hne : digits ≠ []) (h : ∀ c ∈ digits, isDigit c = true) :
    tokenize (Byte.dash :: digits) =
      [⟨.symbol, [Byte.dash], 0, true⟩, ⟨.number, digits, 1, true⟩] := by
  have hhead : digits.head? ≠ some Byte.dash := fun hdash =>
    absurd (h _ (List.mem_of_head? hdash)) (by decide)
  have hstep : skipTriviaStep (Byte.dash :: digits) = none := by
    rw [skipTriviaStep, if_neg (by decide), if_neg (by decide), if_neg fun hdash => hhead hdash.2,
      if_neg fun hslash => absurd hslash.1 (by decide)]
  rw [tokenize, Tokenizer.tokens_of_cons 0 (skipTrivia_of_none hstep),
    readToken_symbol (by decide) (by decide) (by decide)]
  simp only [List.take_zero, List.drop_zero, List.length_cons, Nat.sub_self, Nat.add_zero,
    Nat.zero_add]
  rw [tokens_digits hne h]

end Tokens

namespace Sql

open Ast Parse

/-! ## Primaries as expressions -/

section

variable {input : Input} {l : List Token}

theorem run_of_error {α β : Type} {p : Parser α} {f : α → Parser β} {diagnostic : Diagnostic}
    (h : p.run input l = .error diagnostic) : (p >>= f).run input l = .error diagnostic := by
  rw [run_bind, h]

/-- Where a primary is refused the expression is. -/
theorem parseExpression_of_error {diagnostic : Diagnostic}
    (h : (parsePrimary parseExpression).run input l = .error diagnostic) :
    parseExpression.run input l = .error diagnostic := by
  refine (congrArg (fun p => p.run input l) parseExpression_eq).trans ?_
  exact run_of_error (run_of_error (run_of_error h))

/-- A minus sign belongs to the number behind it. -/
theorem parsePrimary_negative {pe : Parser Expression} {minus token : Token}
    (hminus : minus.anywhere = symbolToken "-") (hkind : token.kind = .number) :
    (parsePrimary pe).run input (minus :: token :: l) =
      (parseNumber token true >>= fun literal => pure (.literal literal)).run input l := by
  have hsymbol := isSymbol_of_anywhere hminus
  have hminusKind : minus.kind = .symbol := congrArg Token.kind hminus
  have hnumber : (expectNumber "number").run input (token :: l) = .ok (token, l) := by
    rw [expectNumber, run_of_ok (expectToken_run _), if_pos hkind]
    rfl
  rw [parsePrimary, run_of_ok (expectToken_run _), if_neg (by rw [hminusKind]; decide),
    if_neg (by rw [hminusKind]; decide), if_neg (by rw [hsymbol]; decide),
    if_neg (by rw [hsymbol]; decide), if_neg (by rw [hsymbol]; decide),
    if_pos (by rw [hsymbol]; decide), run_of_ok hnumber]

/-- **Digits that denote too large a number are refused.** -/
theorem parseNumber_too_large {token : Token} (hne : token.lexeme ≠ [])
    (hdigits : ∀ c ∈ token.lexeme, isDigit c = true) (hlarge : maxI64 < valueFrom 0 token.lexeme)
    (negative : Bool) :
    (parseNumber token negative).run input l =
      .error ⟨.invalidNumber, token.offset, token.lexeme, "number", none⟩ := by
  have hdot : Byte.dot ∉ token.lexeme := fun h => absurd (hdigits _ h) (by decide)
  rw [parseNumber, if_neg hdot, parseDecimal_digits hne hdigits, if_neg (by omega)]
  rfl

end

/-! ## Literals -/

variable (parseFloat : Bytes → Option UInt64)

/-- The sign of a number is put back. -/
theorem neg_ofNat_natAbs {n : Int64} (hneg : n.toInt < 0) (hsmallest : n.toInt ≠ -2 ^ 63) :
    -Int64.ofNat n.toInt.natAbs = n := by
  have hlow := n.le_toInt
  have hfits : n.toInt.natAbs < 2 ^ 63 := by omega
  rw [← Int64.toInt_inj, Int64.toInt_neg, Int64.toInt_ofNat_of_lt hfits,
    Int.bmod_eq_of_le (by omega) (by omega)]
  omega

/-- **Integers as literals.** Every integer but the smallest is read as it
was written, and digits that denote a number too large are refused, behind
a minus sign as without one. -/
theorem integer_literal_round_trip :
    (∀ n : Int64, n.toInt ≠ -2 ^ 63 →
        parseExpressionOnly parseFloat (spelling n.toInt) = .ok (.literal (.integer n))) ∧
      ∀ digits : Bytes, digits ≠ [] → (∀ c ∈ digits, isDigit c = true) →
        maxI64 < valueFrom 0 digits →
        (∃ diagnostic, parseExpressionOnly parseFloat digits = .error diagnostic ∧
          diagnostic.code = .invalidNumber) ∧
        ∃ diagnostic, parseExpressionOnly parseFloat (Byte.dash :: digits) = .error diagnostic ∧
          diagnostic.code = .invalidNumber := by
  constructor
  · intro n hsmallest
    have hlow := n.le_toInt
    have hhigh := n.toInt_lt
    have hmax : maxI64 = 9223372036854775807 := rfl
    have hdigits : ∀ c ∈ decimal n.toInt.natAbs, isDigit c = true := fun c => isDigit_of_mem_decimal
    have hne := decimal_ne_nil n.toInt.natAbs
    by_cases hneg : n.toInt < 0
    · rw [spelling, if_pos hneg, parseExpressionOnly, tokenize_negative hne hdigits]
      rw [parseExpression_of_primary (e := .literal (.integer n)) ?_ (ends_nil _) (ends_nil _)
        (ends_nil _)]
      rw [parsePrimary_negative rfl rfl, run_of_ok (parseNumber_digits rfl (by omega) true),
        if_pos rfl, neg_ofNat_natAbs hneg hsmallest]
      rfl
    · have hsame : n.toInt.natAbs = n.toInt.toNat := by omega
      rw [spelling, if_neg hneg, parseExpressionOnly, tokenize, tokens_digits hne hdigits]
      rw [parseExpression_of_primary (e := .literal (.integer n)) ?_ (ends_nil _) (ends_nil _)
        (ends_nil _)]
      rw [parsePrimary_number rfl, run_of_ok (parseNumber_digits rfl (by omega) false),
        if_neg Bool.false_ne_true, hsame, (ofNat_toNat (by omega)).1]
      rfl
  · intro digits hne hdigits hlarge
    refine ⟨⟨⟨.invalidNumber, 0, digits, "number", none⟩, ?_, rfl⟩,
      ⟨⟨.invalidNumber, 1, digits, "number", none⟩, ?_, rfl⟩⟩
    · rw [parseExpressionOnly, tokenize, tokens_digits hne hdigits]
      rw [parseExpression_of_error]
      rw [parsePrimary_number rfl]
      exact run_of_error (parseNumber_too_large hne hdigits hlarge false)
    · rw [parseExpressionOnly, tokenize_negative hne hdigits]
      rw [parseExpression_of_error]
      rw [parsePrimary_negative rfl rfl]
      exact run_of_error (parseNumber_too_large hne hdigits hlarge true)

/-- The smallest integer but one, and the one above the largest. -/
theorem integer_literal_round_trip_bounds :
    parseExpressionOnly (fun _ => none) (ascii "-9223372036854775807") =
        .ok (.literal (.integer (-9223372036854775807))) ∧
      ∃ diagnostic, parseExpressionOnly (fun _ => none) (ascii "9223372036854775808") =
        .error diagnostic ∧ diagnostic.code = .invalidNumber := by
  have hround := integer_literal_round_trip fun _ => none
  have hsecond := hround.1 (-9223372036854775807) (by decide)
  have hspelling : spelling (-9223372036854775807 : Int64).toInt = ascii "-9223372036854775807" := by
    decide +kernel
  rw [hspelling] at hsecond
  exact ⟨hsecond, (hround.2 (ascii "9223372036854775808") (by decide +kernel) (by decide +kernel)
    (by decide +kernel)).1⟩

/-- **The smallest integer is refused**: the digits behind its sign denote
a number that is too large. -/
theorem smallest_integer_refused :
    spelling (-9223372036854775808 : Int64).toInt = ascii "-9223372036854775808" ∧
      (parseExpressionOnly (fun _ => none) (ascii "-9223372036854775808")).map (fun _ => ()) =
        .error ⟨.invalidNumber, 1, ascii "9223372036854775808", "number", none⟩ := by
  decide +kernel

end Sql

end Shoveler
