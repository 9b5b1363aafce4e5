import Shoveler.Frontend.Grammar

/-!
# Reading expressions back

The parser reads an expression on four levels: conjunctions, comparisons,
sums and primaries, each made of parts of the next, and a primary may be an
expression in parentheses. The levels of conjunctions and of sums are
loops: they take what they have read as the left operand of what comes. So
what is shown of an expression that was printed (`Readable`) is, for these
two levels, that the loop goes on with it; for the other two, that it is
what was read. That holds whatever follows, if it is not something that
the level takes along.
-/

namespace Shoveler

open List

namespace Sql

open Ast Parse

/-! ## The four levels -/

section Levels

variable (input : Input) (e : Expression)

/-- As a primary the expression is what is read. -/
def ReadsPrimary : Prop :=
  ∀ tokens rest, Spells tokens (atLevel 3 e (printTokens e)) → Ends follows rest →
    (parsePrimary parseExpression).run input (tokens ++ rest) = .ok (e, rest)

/-- As a sum the loop goes on with it. -/
def ReadsSum : Prop :=
  ∀ tokens rest, Spells tokens (atLevel 2 e (printTokens e)) → Ends follows rest →
    (parseAdditiveExpression parseExpression).run input (tokens ++ rest) =
      (loop (additiveRound parseExpression) e).run input rest

/-- As a comparison it is what is read. -/
def ReadsComparison : Prop :=
  ∀ tokens rest, Spells tokens (atLevel 1 e (printTokens e)) → Ends follows rest →
    Ends adds rest → Ends isComparisonStart rest →
    (parseComparisonExpression parseExpression).run input (tokens ++ rest) = .ok (e, rest)

/-- As a conjunction, and so as an expression, the loop goes on with it. -/
def ReadsConjunction : Prop :=
  ∀ tokens rest, Spells tokens (atLevel 0 e (printTokens e)) → Ends follows rest →
    Ends adds rest → Ends isComparisonStart rest →
    parseExpression.run input (tokens ++ rest) =
      (loop (andRound parseExpression) e).run input rest

/-- **What the parser makes of an expression that was printed**, on each
level and in front of what the level does not take along. -/
structure Readable : Prop where
  primary : ReadsPrimary input e
  sum : ReadsSum input e
  comparison : ReadsComparison input e
  conjunction : ReadsConjunction input e

variable {input e}

/-- An expression is put into parentheses on one level as on the next,
unless it is of the level itself. -/
theorem atLevel_succ {n : ℕ} (h : level e ≠ n) (tokens : List Token) :
    atLevel n e tokens = atLevel (n + 1) e tokens :=
  if_congr (by omega) rfl rfl

theorem atLevel_of_level {n : ℕ} (h : level e = n) (tokens : List Token) :
    atLevel n e tokens = tokens :=
  if_neg (by omega)

/-- A primary needs no parentheses. -/
theorem readsPrimary_of_level (hlevel : level e = 3)
    (h : ∀ tokens rest, Spells tokens (printTokens e) → Ends follows rest →
      (parsePrimary parseExpression).run input (tokens ++ rest) = .ok (e, rest)) :
    ReadsPrimary input e := by
  intro tokens rest hspells hfollows
  rw [atLevel_of_level hlevel] at hspells
  exact h tokens rest hspells hfollows

/-- A primary is a sum of one. -/
theorem ReadsPrimary.sum (h : ReadsPrimary input e) (hlevel : level e ≠ 2) : ReadsSum input e := by
  intro tokens rest hspells hfollows
  rw [atLevel_succ hlevel] at hspells
  rw [parseAdditiveExpression, run_of_ok (h tokens rest hspells hfollows)]

/-- A sum is a comparison without an operator. -/
theorem ReadsSum.comparison (h : ReadsSum input e) (hlevel : level e ≠ 1) :
    ReadsComparison input e := by
  intro tokens rest hspells hfollows hadds hcompares
  rw [atLevel_succ hlevel] at hspells
  have hsum : (parseAdditiveExpression parseExpression).run input (tokens ++ rest) =
      .ok (e, rest) := (h tokens rest hspells hfollows).trans (additive_done hadds)
  rw [parseComparisonExpression, run_of_ok hsum, run_of_ok (nextIs_of_ends hcompares),
    if_neg Bool.false_ne_true]
  rfl

/-- A comparison is a conjunction of one. -/
theorem ReadsComparison.conjunction (h : ReadsComparison input e) (hlevel : level e ≠ 0) :
    ReadsConjunction input e := by
  intro tokens rest hspells hfollows hadds hcompares
  rw [atLevel_succ hlevel] at hspells
  refine (congrArg (fun p => p.run input (tokens ++ rest)) parseExpression_eq).trans ?_
  exact run_of_ok (h tokens rest hspells hfollows hadds hcompares)

/-- In parentheses every expression is a primary. -/
theorem ReadsConjunction.primary (h : ReadsConjunction input e) (hlevel : level e ≠ 3)
    (hle : level e ≤ 3) : ReadsPrimary input e := by
  intro tokens rest hspells _
  rw [atLevel, if_pos (by omega), inParentheses] at hspells
  obtain ⟨token, more, rfl, hopen, hmore⟩ := spells_cons hspells
  obtain ⟨inner, closing, rfl, hinner, hclosing⟩ := spells_append hmore
  obtain ⟨close, rfl, hclose⟩ := spells_singleton hclosing
  have hread : parseExpression.run input (inner ++ close :: rest) = .ok (e, close :: rest) := by
    refine (h inner (close :: rest) ?_ ?_ ?_ ?_).trans (and_done ?_)
    · rwa [atLevel, if_neg (Nat.not_lt_zero _)]
    all_goals exact ends_of_anywhere (fun _ => rfl) hclose (by decide)
  rw [cons_append, append_assoc, singleton_append]
  exact parsePrimary_parentheses hopen ((isSymbol_of_anywhere hclose ")").trans (by decide)) hread

/-- **It is enough to read an expression on its own level.** -/
theorem Readable.of_primary (hlevel : level e = 3) (h : ReadsPrimary input e) :
    Readable input e := by
  have hsum := h.sum (by omega)
  have hcomparison := hsum.comparison (by omega)
  exact ⟨h, hsum, hcomparison, hcomparison.conjunction (by omega)⟩

theorem Readable.of_sum (hlevel : level e = 2) (h : ReadsSum input e) : Readable input e := by
  have hcomparison := h.comparison (by omega)
  have hconjunction := hcomparison.conjunction (by omega)
  exact ⟨hconjunction.primary (by omega) (by omega), h, hcomparison, hconjunction⟩

theorem Readable.of_comparison (hlevel : level e = 1) (h : ReadsComparison input e) :
    Readable input e := by
  have hconjunction := h.conjunction (by omega)
  have hprimary := hconjunction.primary (by omega) (by omega)
  exact ⟨hprimary, hprimary.sum (by omega), h, hconjunction⟩

theorem Readable.of_conjunction (hlevel : level e = 0) (h : ReadsConjunction input e) :
    Readable input e := by
  have hprimary := h.primary (by omega) (by omega)
  have hsum := hprimary.sum (by omega)
  exact ⟨hprimary, hsum, hsum.comparison (by omega), h⟩

end Levels

/-! ## Operators -/

section Operators

variable {input : Input} {left right : Expression} {operator : BinaryOperator}

/-- The tokens of an operator and its operands. -/
theorem spells_binary {tokens : List Token} {n : ℕ} (hlevel : operatorLevel operator = n)
    (h : Spells tokens (atLevel n (.binary left operator right)
      (printTokens (.binary left operator right)))) :
    ∃ first middle last, tokens = first ++ (middle ++ last) ∧
      Spells first (atLevel (leftLevel operator) left (printTokens left)) ∧
      Spells middle (operatorTokens operator) ∧
      Spells last (atLevel (rightLevel operator) right (printTokens right)) := by
  have hself : level (.binary left operator right) = n := hlevel
  rw [atLevel_of_level hself, printTokens] at h
  obtain ⟨first, others, rfl, hfirst, hothers⟩ := spells_append h
  obtain ⟨middle, last, rfl, hmiddle, hlast⟩ := spells_append hothers
  exact ⟨first, middle, last, rfl, hfirst, hmiddle, hlast⟩

/-- **Sums associate to the left.** -/
theorem readsSum_binary (hlevel : operatorLevel operator = 2) (hleft : ReadsSum input left)
    (hright : ReadsPrimary input right) : ReadsSum input (.binary left operator right) := by
  intro tokens rest hspells hfollows
  obtain ⟨first, middle, last, rfl, hfirst, hmiddle, hlast⟩ := spells_binary hlevel hspells
  rw [leftLevel, hlevel, if_neg (by decide)] at hfirst
  rw [rightLevel, hlevel] at hlast
  have hends := (ends_operator hmiddle (last ++ rest)).1
  rw [append_assoc, append_assoc, hleft first _ hfirst hends]
  exact additive_again hlevel hmiddle (hright last rest hlast hfollows)

/-- **Comparisons do not associate.** -/
theorem readsComparison_binary (hlevel : operatorLevel operator = 1)
    (hleft : ReadsSum input left) (hright : ReadsSum input right)
    (hstarts : StartsWell (printTokens right)) :
    ReadsComparison input (.binary left operator right) := by
  intro tokens rest hspells hfollows hadds _
  obtain ⟨first, middle, last, rfl, hfirst, hmiddle, hlast⟩ := spells_binary hlevel hspells
  rw [leftLevel, if_pos hlevel] at hfirst
  rw [rightLevel, hlevel] at hlast
  have hl : StartsWell (last ++ rest) := ((startsWell_atLevel hstarts).of_spells hlast).append rest
  have hends := ends_operator hmiddle (last ++ rest)
  have hread : (parseAdditiveExpression parseExpression).run input
      (first ++ (middle ++ (last ++ rest))) = .ok (left, middle ++ (last ++ rest)) :=
    (hleft first _ hfirst hends.1).trans (additive_done (hends.2.1 (by omega)))
  have hread' : (parseAdditiveExpression parseExpression).run input (last ++ rest) =
      .ok (right, rest) := (hright last rest hlast hfollows).trans (additive_done hadds)
  rw [append_assoc, append_assoc, parseComparisonExpression, run_of_ok hread,
    run_of_ok (nextIs_comparison hlevel hmiddle _), if_pos rfl,
    run_of_ok (comparison_operator hlevel hmiddle hl), run_of_ok hread']
  rfl

/-- **Conjunctions associate to the left.** -/
theorem readsConjunction_binary (hleft : ReadsConjunction input left)
    (hright : ReadsComparison input right) :
    ReadsConjunction input (.binary left .andOp right) := by
  intro tokens rest hspells hfollows hadds hcompares
  have hlevel : operatorLevel .andOp = 0 := rfl
  obtain ⟨first, middle, last, rfl, hfirst, hmiddle, hlast⟩ := spells_binary hlevel hspells
  have hends := ends_operator hmiddle (last ++ rest)
  obtain ⟨token, rfl, htoken⟩ := spells_singleton hmiddle
  rw [append_assoc, append_assoc,
    hleft first _ hfirst hends.1 (hends.2.1 (by omega)) (hends.2.2 (by omega))]
  exact and_again htoken (hright last rest hlast hfollows hadds hcompares)

end Operators

/-! ## Calls -/

section Calls

variable {input : Input} {arg : Expression} {inner l rest : List Token} {separator : Token}

/-- An argument is read up to what separates it from the next. -/
theorem push_argument (h : ReadsConjunction input arg) (hspells : Spells inner (printTokens arg))
    {symbol : String} (hseparator : separator.anywhere = symbolToken symbol)
    (hsymbol : symbol = "," ∨ symbol = ")") (items : List Expression) :
    (push parseExpression items).run input (inner ++ separator :: l) =
      .ok (items ++ [arg], separator :: l) := by
  have hread : parseExpression.run input (inner ++ separator :: l) =
      .ok (arg, separator :: l) := by
    refine (h inner (separator :: l) ?_ ?_ ?_ ?_).trans (and_done ?_)
    · rwa [atLevel, if_neg (Nat.not_lt_zero _)]
    all_goals
      refine ends_of_anywhere (fun _ => rfl) hseparator ?_
      rcases hsymbol with rfl | rfl <;> decide
  rw [push, run_of_ok hread]
  rfl

/-- A round at the closing parenthesis. -/
theorem listUntilRound_close (hseparator : separator.anywhere = symbolToken ")")
    (items : List Expression) :
    (listUntilRound ")" (push parseExpression) items).run input (separator :: l) =
      .ok (.done items, l) := by
  have hclosed : isSymbol ")" separator = true :=
    (isSymbol_of_anywhere hseparator _).trans (by decide)
  rw [listUntilRound, run_of_ok (matchSymbol_of_symbol hclosed), if_pos rfl]
  rfl

/-- A round over the last argument. -/
theorem listUntilRound_last (h : ReadsConjunction input arg) (hstarts : StartsWell (printTokens arg))
    (hspells : Spells inner (printTokens arg)) (hseparator : separator.anywhere = symbolToken ")")
    (items : List Expression) :
    (listUntilRound ")" (push parseExpression) items).run input (inner ++ separator :: l) =
      .ok (.done (items ++ [arg]), l) := by
  have hopen : Ends (isSymbol ")") (inner ++ separator :: l) :=
    ((hstarts.of_spells hspells).append _).ends (by decide)
  have hcomma : Ends (isSymbol ",") (separator :: l) :=
    ends_of_anywhere (fun _ => rfl) hseparator (by decide)
  have hclosed : isSymbol ")" separator = true :=
    (isSymbol_of_anywhere hseparator _).trans (by decide)
  rw [listUntilRound, run_of_ok (matchSymbol_of_ends hopen), if_neg Bool.false_ne_true,
    run_of_ok (push_argument h hspells hseparator (.inr rfl) items),
    run_of_ok (matchSymbol_of_ends hcomma), if_neg Bool.false_ne_true,
    run_of_ok (expectSymbol_run hclosed)]
  rfl

/-- A round over an argument with others behind it. -/
theorem listUntilRound_next (h : ReadsConjunction input arg) (hstarts : StartsWell (printTokens arg))
    (hspells : Spells inner (printTokens arg)) (hseparator : separator.anywhere = symbolToken ",")
    (items : List Expression) :
    (listUntilRound ")" (push parseExpression) items).run input (inner ++ separator :: l) =
      .ok (.again (items ++ [arg]), l) := by
  have hopen : Ends (isSymbol ")") (inner ++ separator :: l) :=
    ((hstarts.of_spells hspells).append _).ends (by decide)
  have hcomma : isSymbol "," separator = true :=
    (isSymbol_of_anywhere hseparator _).trans (by decide)
  rw [listUntilRound, run_of_ok (matchSymbol_of_ends hopen), if_neg Bool.false_ne_true,
    run_of_ok (push_argument h hspells hseparator (.inl rfl) items),
    run_of_ok (matchSymbol_of_symbol hcomma), if_pos rfl]
  rfl

/-- **The arguments of a call are read**, behind those read before. -/
theorem listUntil_arguments {args : List Expression}
    (h : ∀ arg ∈ args, ReadsConjunction input arg ∧ StartsWell (printTokens arg))
    {tokens : List Token} (hspells : Spells tokens (printArguments args ++ [symbolToken ")"]))
    (items : List Expression) :
    (listUntil ")" (push parseExpression) items).run input (tokens ++ rest) =
      .ok (items ++ args, rest) := by
  induction args generalizing tokens items with
  | nil =>
    obtain ⟨close, rfl, hclose⟩ := spells_singleton hspells
    rw [singleton_append, listUntil, loop, loop_eq (reads_listUntilRound _ _),
      run_of_ok (listUntilRound_close hclose items), append_nil]
    rfl
  | cons arg args ih =>
    rw [forall_mem_cons] at h
    -- what stands behind an argument is told by whether there is another
    cases args with
    | nil =>
      obtain ⟨inner, closing, rfl, hinner, hclosing⟩ := spells_append hspells
      obtain ⟨close, rfl, hclose⟩ := spells_singleton hclosing
      rw [append_assoc, singleton_append, listUntil, loop,
        loop_eq (reads_listUntilRound _ _),
        run_of_ok (listUntilRound_last h.1.1 h.1.2 hinner hclose items)]
      rfl
    | cons other args =>
      rw [printArguments, append_assoc, cons_append] at hspells
      obtain ⟨inner, others, rfl, hinner, hothers⟩ := spells_append hspells
      obtain ⟨comma, more, rfl, hcomma, hmore⟩ := spells_cons hothers
      have hrest := ih h.2 hmore (items ++ [arg])
      rw [append_assoc, singleton_append] at hrest
      rw [append_assoc, cons_append, listUntil, loop, loop_eq (reads_listUntilRound _ _),
        run_of_ok (listUntilRound_next h.1.1 h.1.2 hinner hcomma items)]
      exact hrest

end Calls

/-! ## All expressions -/

section Readable

variable {input : Input}

theorem identifierParts_none {identifier name : Bytes}
    (h : identifierParts identifier = ⟨none, name⟩) : identifier = name := by
  unfold identifierParts at h
  split at h
  · cases h
  · exact congrArg IdentifierParts.name h

theorem identifierParts_some {identifier qualifier name : Bytes}
    (h : identifierParts identifier = ⟨some qualifier, name⟩) :
    identifier = qualifier ++ [Byte.dot] ++ name := by
  unfold identifierParts at h
  split at h
  · rename_i hdot
    have hqualifier := Option.some.inj (congrArg IdentifierParts.qualifier h)
    have hname := congrArg IdentifierParts.name h
    have hrest : identifier.dropWhile (· != Byte.dot) =
        Byte.dot :: (identifier.dropWhile (· != Byte.dot)).tail := by
      have hne : identifier.dropWhile (· != Byte.dot) ≠ [] := by
        intro hnil
        have hall := dropWhile_eq_nil_iff.1 hnil Byte.dot hdot
        simp at hall
      obtain ⟨c, l, hcons⟩ := exists_cons_of_ne_nil hne
      have hhead := head_dropWhile_not (· != Byte.dot) hne
      simp only [hcons, head_cons, bne_eq_false_iff_eq] at hhead
      rw [hcons, hhead, tail_cons]
    simp only at hqualifier hname
    rw [← hqualifier, ← hname, append_assoc, singleton_append, ← hrest,
      takeWhile_append_dropWhile]
  · cases congrArg IdentifierParts.qualifier h

theorem readsPrimary_identifier {identifier : Bytes} (h : printableIdentifier identifier = true) :
    ReadsPrimary input (.identifier identifier) := by
  refine readsPrimary_of_level rfl fun tokens rest hspells hfollows => ?_
  rw [printTokens, identifierTokens] at hspells
  rw [printableIdentifier] at h
  cases hparts : identifierParts identifier with
  | mk qualifier name =>
    rw [hparts] at h hspells
    cases qualifier with
    | none =>
      obtain ⟨token, rfl, htoken⟩ := spells_singleton hspells
      rw [singleton_append, parsePrimary_name htoken h, parseNamed_of_ends hfollows,
        identifierParts_none hparts]
    | some qualifier =>
      obtain ⟨hqualifier, hname⟩ := Bool.and_eq_true_iff.1 h
      obtain ⟨token, more, rfl, htoken, hmore⟩ := spells_cons hspells
      obtain ⟨dot, last, rfl, hdot, hlast⟩ := spells_cons hmore
      obtain ⟨member, rfl, hmember⟩ := spells_singleton hlast
      rw [cons_append, parsePrimary_name htoken hqualifier, cons_append,
        singleton_append, parseNamed_member hdot hmember hname, identifierParts_some hparts]

theorem readsPrimary_literal {literal : Literal} (h : printableLiteral literal = true) :
    ReadsPrimary input (.literal literal) := by
  refine readsPrimary_of_level rfl fun tokens rest hspells _ => ?_
  rw [printTokens] at hspells
  cases literal with
  | null =>
    obtain ⟨token, rfl, htoken⟩ := spells_singleton hspells
    have hkeyword := isKeyword_of_anywhere htoken
    rw [singleton_append, parsePrimary_word htoken, if_pos ((hkeyword _).trans (by decide))]
    rfl
  | boolean b =>
    cases b with
    | true =>
      obtain ⟨token, rfl, htoken⟩ := spells_singleton hspells
      have hkeyword := isKeyword_of_anywhere htoken
      rw [singleton_append, parsePrimary_word htoken, if_neg (by rw [hkeyword]; decide),
        if_pos ((hkeyword _).trans (by decide))]
      rfl
    | false =>
      obtain ⟨token, rfl, htoken⟩ := spells_singleton hspells
      have hkeyword := isKeyword_of_anywhere htoken
      rw [singleton_append, parsePrimary_word htoken, if_neg (by rw [hkeyword]; decide),
        if_neg (by rw [hkeyword]; decide), if_pos ((hkeyword _).trans (by decide))]
      rfl
  | integer v =>
    obtain ⟨token, rfl, htoken⟩ := spells_singleton hspells
    have hkind : token.kind = .number := congrArg Token.kind htoken
    have hlexeme : token.lexeme = decimal v.toInt.toNat := congrArg Token.lexeme htoken
    obtain ⟨hvalue, hfits⟩ := ofNat_toNat (of_decide_eq_true h)
    rw [singleton_append, parsePrimary_number hkind,
      run_of_ok (parseNumber_digits hlexeme hfits false), if_neg Bool.false_ne_true, hvalue]
    rfl
  | string s =>
    obtain ⟨token, rfl, htoken⟩ := spells_singleton hspells
    exact parsePrimary_string htoken
  | float | vector => cases h

mutual

/-- **Every expression that is printed is read back**, on every level. -/
theorem readable : ∀ {e : Expression}, printable e = true → Readable input e
  | .star, h => by cases h
  | .identifier _, h => .of_primary rfl (readsPrimary_identifier h)
  | .literal _, h => .of_primary rfl (readsPrimary_literal h)
  | .functionCall name args, h => by
    obtain ⟨hname, hargs⟩ := Bool.and_eq_true_iff.1 h
    refine .of_primary rfl (readsPrimary_of_level rfl fun tokens rest hspells _ => ?_)
    rw [printTokens] at hspells
    obtain ⟨token, more, rfl, htoken, hmore⟩ := spells_cons hspells
    obtain ⟨parenthesis, others, rfl, hopen, hothers⟩ := spells_cons hmore
    rw [cons_append, parsePrimary_name htoken hname, cons_append]
    exact parseNamed_call hopen (listUntil_arguments (readable_arguments hargs) hothers []) name
  | .binary left operator right, h => by
    obtain ⟨hleft, hright⟩ := Bool.and_eq_true_iff.1 h
    have hl := readable hleft
    have hr := readable hright
    cases operator with
    | add | subtract => exact .of_sum rfl (readsSum_binary rfl hl.sum hr.primary)
    | equal | notEqual | lessThan | lessEqual | greaterThan | greaterEqual =>
      exact .of_comparison rfl
        (readsComparison_binary rfl hl.sum hr.sum (startsWell_printTokens hright))
    | andOp => exact .of_conjunction rfl (readsConjunction_binary hl.conjunction hr.comparison)

theorem readable_arguments : ∀ {args : List Expression}, allPrintable args = true →
    ∀ arg ∈ args, ReadsConjunction input arg ∧ StartsWell (printTokens arg)
  | [], _ => fun arg harg => absurd harg not_mem_nil
  | arg :: args, h => by
    obtain ⟨harg, hargs⟩ := Bool.and_eq_true_iff.1 h
    exact forall_mem_cons.2 ⟨⟨(readable harg).conjunction, startsWell_printTokens harg⟩,
      readable_arguments hargs⟩

end

end Readable

end Sql

end Shoveler
