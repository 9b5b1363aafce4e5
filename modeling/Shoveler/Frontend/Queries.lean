import Shoveler.Frontend.Tandem

/-!
# The grammar of queries in step

The functions of the parser that a query is parsed with, one after the
other, each in lockstep on two texts: first the single tokens and the
lists, then expressions, then row sources and queries
(`follows_parseSelectAfterSelect`).
-/

namespace Shoveler

namespace Sql

open Parse Ast

namespace Tandem

open FollowsTo

variable {x : Tandem} {ι α β γ : Type} {w w' : ℕ} {f : α → γ} {g h s : Ground}

variable {p : Parser α} {keyword symbol : String} {token token' : Token}

/-! ## Tokens -/

theorem tests_keyword (hword : keyword ∈ clauseWords) :
    x.Tests g .fresh (matchKeyword keyword) := tests_accept (legible_clause hword)

theorem tests_symbol (hsymbol : ascii symbol ≠ ascii ";") :
    x.Tests g .fresh (matchSymbol symbol) := tests_accept (legible_isSymbol hsymbol)

/-- A token that must be as wanted. -/
theorem follows_expectSuch {wanted : Token → Bool} {expected : String}
    (hwanted : x.Legible g s wanted) : x.Follows g s id fun _ : ι =>
      expectToken expected >>= fun token =>
        if wanted token = true then pure () else failToken token .unexpectedToken expected := by
  intro w _ _ hg _
  refine sim_expectToken (fun token ht => ?_) fun w' token token' hr => ?_
  · rw [hwanted.inert hg ht, if_neg Bool.false_ne_true]
    exact rejects_failToken _ _ _
  · rw [hwanted.reading hr]
    exact .ite (fun hw => .pure ⟨hwanted.leaves hg hr hw, .refl _ _ _⟩) fun _ => .fail

theorem follows_expectKeyword (hword : keyword ∈ clauseWords) :
    x.Follows g .fresh id fun _ : ι => expectKeyword keyword :=
  follows_expectSuch (legible_clause hword)

theorem follows_expectSymbol (hsymbol : ascii symbol ≠ ascii ";") :
    x.Follows g .fresh id fun _ : ι => expectSymbol symbol :=
  follows_expectSuch (legible_isSymbol hsymbol)

theorem kind_of_reading (hr : x.Reading w w' token token') : token'.kind = token.kind := by
  rcases hr.alike with hsame | ⟨-, hcut⟩
  · exact hsame.kind
  · obtain ⟨c, -, hkind, hkind', -, -⟩ := hcut.quote
    rw [hkind, hkind']

theorem isIdentifier_of_reading (hr : x.Reading w w' token token') :
    isIdentifier token' = isIdentifier token := by
  rw [isIdentifier, isIdentifier, kind_of_reading hr]

theorem normalizedIdentifier_of_reading (hr : x.Reading w w' token token') (hs : x.same w') :
    normalizedIdentifier token = normalizedIdentifier token' := by
  rcases hr.alike with hsame | ⟨hnot, -⟩
  · unfold normalizedIdentifier
    rw [hsame.lexeme]
  · exact absurd hs hnot

/-- **A name is read**, and only its text is used. -/
theorem follows_name {expected : String} {post : α → Ground} {G : ι → Bytes → Parser α}
    (hg : ∀ w, x.On g w → x.On .source w)
    (hs : ∀ w w' token token', x.On g w → x.Reading w w' token token' → x.On s w')
    (hG : x.FollowsTo s post f fun p : ι × Bytes => G p.1 p.2) :
    x.FollowsTo g post f fun i =>
      expectIdentifierToken expected >>= fun token => G i (normalizedIdentifier token) := by
  intro w i j hw hij
  have hname : x.Sim (fun w' token token' => x.On s w' ∧
      (x.same w' → normalizedIdentifier token = normalizedIdentifier token')) w
      (expectIdentifierToken expected) (expectIdentifierToken expected) := by
    refine sim_expectToken (fun token ht => ?_) fun w' token token' hr => ?_
    · rw [ht.name (hg w hw), if_neg Bool.false_ne_true]
      exact rejects_failToken _ _ _
    · rw [isIdentifier_of_reading hr]
      exact .ite (fun _ => .pure ⟨hs w w' token token' hw hr, normalizedIdentifier_of_reading hr⟩)
        fun _ => .fail
  refine .bind hname fun w' hle token token' ht => ?_
  refine hG w' (i, normalizedIdentifier token) (j, normalizedIdentifier token') ht.1 fun hsame => ?_
  rw [ht.2 hsame, hij (x.same_of_le hle hsame)]

theorem follows_identifier {expected : String} {post : α → Ground} {G : ι → Bytes → Parser α}
    (hG : x.FollowsTo .source post f fun p : ι × Bytes => G p.1 p.2) :
    x.FollowsTo .fresh post f fun i =>
      expectIdentifierToken expected >>= fun token => G i (normalizedIdentifier token) :=
  follows_name (fun _ => x.on_source) (fun _ _ _ _ hw hr => hr.name hw) hG

theorem follows_expectIdentifierOwned (expected : String) :
    x.Follows .fresh .source blind fun _ : ι => expectIdentifierOwned expected :=
  follows_identifier (G := fun _ name => pure name) stay

/-- A table is named. -/
theorem follows_tableName (expected : String) :
    x.Follows .source .any blind fun _ : ι => expectIdentifierOwned expected :=
  follows_name (G := fun _ name => pure name) (fun _ hw => hw) (fun _ w' _ _ _ _ => x.on_any w')
    skip

/-- A number is never cut. -/
theorem same_of_number (hr : x.Reading w w' token token') (hnumber : token.kind = .number) :
    token.Same token' := by
  rcases hr.alike with hsame | ⟨-, hcut⟩
  · exact hsame
  · obtain ⟨c, -, hkind, -, -, -⟩ := hcut.quote
    exact absurd (hkind.symm.trans hnumber) (quotedKind_ne c).2

theorem fresh_of_kind {kind : TokenKind} (hr : x.Reading w w' token token')
    (hkind : token.kind = kind) (hne : kind ≠ .identifier) : x.On .fresh w' :=
  hr.other (decide_eq_false (hkind ▸ hne))

theorem sim_expectNumber (expected : String) :
    x.Sim (fun w' token token' => x.On .fresh w' ∧ token.Same token') w (expectNumber expected)
      (expectNumber expected) := by
  refine sim_expectToken (fun token ht => ?_) fun w' token token' hr => ?_
  · rw [if_neg ht.number]
    exact rejects_failToken _ _ _
  · rw [kind_of_reading hr]
    exact .ite (fun hnumber => .pure ⟨fresh_of_kind hr hnumber (by decide),
      same_of_number hr hnumber⟩) fun _ => .fail

theorem sim_numberOr (token token' : Token) (expected : String) (value : Option α) :
    x.Sim (fun w' a a' => w' = w ∧ a = a') w (numberOr token expected value)
      (numberOr token' expected value) := by
  cases value with
  | none => exact .fail
  | some a => exact .pure ⟨rfl, rfl⟩

/-- A float of the text. -/
theorem sim_parseFloat (hsame : token.Same token') (hw : x.On g w) (expected : String)
    {G : UInt64 → Parser α} (hG : ∀ bits, x.Follows g h f fun _ : Unit => G bits) :
    x.Sim (fun w' a a' => x.On h w' ∧ x.Agree f w' a a') w
      (Parse.read >>= fun input : Input =>
        numberOr token expected (input.parseFloat token.lexeme) >>= G)
      (Parse.read >>= fun input : Input =>
        numberOr token' expected (input.parseFloat token'.lexeme) >>= G) := by
  have hread : x.Sim (fun w' input copy => w' = w ∧ input = x.input ∧ copy = x.copy) w
      Parse.read Parse.read := by
    intro l l' hat a rest hrun
    obtain ⟨rfl, rfl⟩ := Prod.mk.inj (Except.ok.inj hrun)
    exact ⟨w, x.copy, l', rfl, le_refl w, hat, rfl, rfl, rfl⟩
  refine .bind hread fun w' _ input copy hread => ?_
  obtain ⟨rfl, rfl, rfl⟩ := hread
  rw [x.sameFloats, hsame.lexeme]
  refine .bind (sim_numberOr token token' expected _) fun w'' _ bits bits' hbits => ?_
  obtain ⟨rfl, rfl⟩ := hbits
  exact hG bits _ () () hw fun _ => rfl

theorem nextIs_run (absent : Bool) (wanted : Token → Bool) (input : Input) (l : List Token) :
    (nextIs absent wanted).run input l =
      .ok (match l.head? with | none => absent | some token => wanted token, l) := by
  cases l with
  | nil => rfl
  | cons token l => rfl

theorem tests_nextIs {wanted : Token → Bool} (hwanted : x.Legible g s wanted) :
    x.Tests g g (nextIs false wanted) := by
  intro w hw
  have hdull : ∀ l : List Token, (∀ token ∈ l.head?, x.Inert w token) →
      (match l.head? with | none => false | some token => wanted token) = false := by
    intro l hl
    cases l with
    | nil => rfl
    | cons token l => exact hwanted.inert hw (hl token rfl)
  refine (sim_inspect
    (F := fun o => match o with | none => false | some token => wanted token)
    (nextIs_run false wanted) (fun _ _ _ hr => hwanted.reading hr)
    fun l l' hd => (hdull l' hd.right).trans (hdull l hd.left).symm).imp fun w' b b' hb => ?_
  exact ⟨hb.2, fun _ => hb.1 ▸ hw, fun _ => hb.1⟩

theorem follows_failCurrent {post : α → Ground} (code : DiagnosticCode) (expected : String) :
    x.FollowsTo g post f fun _ : ι => failCurrent code expected :=
  fun _ _ _ _ _ _ _ _ _ _ hrun => absurd hrun failCurrent_ne_ok

/-! ## Lists -/

theorem follows_listUntil {closing : String} (hclosing : ascii closing ≠ ascii ";")
    {item : α → Parser α} (hitem : x.Follows .fresh h blind item) :
    x.Follows .fresh .fresh blind (listUntil closing item) :=
  FollowsTo.loop (reads_listUntilRound closing item) <|
    test (tests_symbol hclosing) done <| hitem.bind <|
    test (tests_symbol (by decide)) again <| (follows_expectSymbol hclosing).bind done

theorem follows_listOf {item : α → Parser α} (hitem : x.Follows .fresh h blind item) :
    x.Follows .fresh .any blind (listOf item) :=
  FollowsTo.loop (reads_listOfRound item) <| hitem.bind <|
    test (tests_symbol (by decide)) again doneAny

theorem follows_push (hp : x.Follows g h blind fun _ : List α => p) :
    x.Follows g h blind (push p) := hp.bind stay

/-- The same clause is there on both sides. -/
theorem follows_optionally (ht : x.Tests g s (matchKeyword keyword))
    (hp : x.Follows s h blind fun _ : ι => p) :
    x.Follows g .any Option.isSome fun _ : ι => optionally keyword p :=
  test ht (hp.bind (.pure (fun _ w _ => x.on_any w) fun _ _ => rfl))
    (.pure (fun _ w _ => x.on_any w) fun _ _ => rfl)

/-! ## Expressions -/

theorem sim_parseNumber (hsame : token.Same token') (hw : x.On g w) (negative : Bool) :
    x.Sim (fun w' a a' => x.On g w' ∧ x.Agree id w' a a') w (parseNumber token negative)
      (parseNumber token' negative) := by
  unfold parseNumber
  rw [hsame.lexeme]
  refine .ite (fun _ => ?_) fun _ => ?_
  · have hfloat := @sim_parseFloat x Literal Literal w id g g token token' hsame hw "number"
    rw [hsame.lexeme] at hfloat
    exact hfloat fun _ => .pure (fun _ _ hg => hg) fun _ _ => rfl
  · refine .bind (sim_numberOr token token' "number" _) fun w' _ value value' hvalue => ?_
    obtain ⟨rfl, rfl⟩ := hvalue
    exact .pure ⟨hw, .refl _ _ _⟩

theorem follows_parseComponent : x.Follows g .fresh blind fun _ : ι => parseComponent := by
  refine (tests_symbol (by decide)).follows.bind_eq fun negative w _ _ _ _ => ?_
  refine .bind (sim_expectNumber "vector value") fun _ _ token token' ht => ?_
  exact sim_parseFloat ht.2 ht.1 "vector value" fun _ => stay

/-- A string literal that is cut is none in apostrophes, which have to be
closed. -/
theorem sim_cloneStringLiteral (hr : x.Reading w w' token token') (hw : x.On g w') :
    x.Sim (fun w' a a' => x.On g w' ∧ x.Agree blind w' a a') w' (cloneStringLiteral token)
      (cloneStringLiteral token') := by
  unfold cloneStringLiteral
  rcases hr.alike with hsame | ⟨hnot, hcut⟩
  · rw [hsame.lexeme, hsame.terminated]
    refine .ite (fun _ => .ite (fun _ => .pure ⟨hw, .refl _ _ _⟩) fun _ => .fail) fun _ => ?_
    exact .ite (fun _ => .pure ⟨hw, .refl _ _ _⟩) fun _ => .pure ⟨hw, .refl _ _ _⟩
  · obtain ⟨c, -, -, -, hhead, hhead'⟩ := hcut.quote
    have hdiffer : ∀ text text' : Bytes, x.On g w' ∧ x.Agree blind w' text text' :=
      fun _ _ => ⟨hw, fun hs => absurd hs hnot, rfl⟩
    rw [hhead, hhead']
    by_cases hc : some c = some Byte.apostrophe
    · rw [if_pos hc, if_pos hc, hcut.literal (hhead.trans hc)]
      exact .fail
    · -- behind the cut the two literals need not be the same
      rw [if_neg hc, if_neg hc]
      split
      · split
        · exact .pure (hdiffer _ _)
        · exact .pure (hdiffer _ _)
      · split
        · exact .pure (hdiffer _ _)
        · exact .pure (hdiffer _ _)

section Expression

variable {parseExpression : Parser Expression}
variable (hexpression : ∀ κ, x.Follows .fresh .source blind fun _ : κ => parseExpression)

include hexpression

theorem follows_parseNamed : x.Follows .source .source blind (parseNamed parseExpression) := by
  refine test (tests_symbol (by decide)) ?_ <| test (tests_symbol (by decide)) ?_ stay
  · exact ((follows_listUntil (by decide) (follows_push (hexpression _))).comp fun _ => []).bind
      (.pure (fun _ _ => x.on_source) fun _ _ => rfl)
  · exact follows_identifier (G := fun name member =>
      pure (Expression.identifier (name ++ [Byte.dot] ++ member))) stay

theorem follows_parsePrimary :
    x.Follows .fresh .source blind fun _ : ι => parsePrimary parseExpression := by
  intro w _ _ hw _
  refine sim_expectToken (fun token ht => ?_) fun w' token token' hr => ?_
  · have hrejects : Rejects (cloneStringLiteral token >>= fun text =>
        pure (Expression.literal (.string text)) : Parser Expression) ∨ token.kind ≠ .string := by
      by_cases hstring : token.kind = .string
      · rw [cloneStringLiteral_of_open (ht.string hstring)]
        exact .inl fun _ _ _ _ hrun => by cases hrun
      · exact .inr hstring
    have hsymbol : ∀ symbol : String, ascii symbol ≠ ascii ";" → isSymbol symbol token = false :=
      fun _ hsymbol => ht.symbol hsymbol
    rw [if_neg ht.number, ht.name (x.on_source hw), hsymbol "*" (by decide),
      hsymbol "[" (by decide), hsymbol "(" (by decide), hsymbol "-" (by decide)]
    split
    · rename_i hstring
      exact hrejects.resolve_right (not_not_intro hstring)
    · exact rejects_failToken _ _ _
  · have hsource : x.On .source w' := hr.name hw
    have hsymbol : ∀ symbol : String, ascii symbol ≠ ascii ";" →
        isSymbol symbol token' = isSymbol symbol token :=
      fun symbol hne => (@legible_isSymbol x .any symbol hne).reading hr
    have hkeyword : ∀ word : String, word ∈ clauseWords →
        isKeyword [word] token' = isKeyword [word] token := fun word hword =>
      (@legible_isKeyword x .any [word] (by
        intro v hv
        rw [List.mem_singleton.1 hv]
        exact List.mem_append_right _ hword)).reading hr
    rw [kind_of_reading hr, isIdentifier_of_reading hr, hsymbol "*" (by decide),
      hsymbol "[" (by decide), hsymbol "(" (by decide), hsymbol "-" (by decide),
      hkeyword "NULL" (by decide), hkeyword "TRUE" (by decide), hkeyword "FALSE" (by decide)]
    have hfresh : ∀ symbol, isSymbol symbol token = true → x.On .fresh w' := fun symbol h =>
      fresh_of_kind hr (kind_of_isSymbol h).1 (by decide)
    refine .ite (fun hstring => ?_) fun _ => .ite (fun hnumber => ?_) fun _ =>
      .ite (fun _ => .pure ⟨hsource, .refl _ _ _⟩) fun _ => .ite (fun h => ?_) fun _ =>
      .ite (fun h => ?_) fun _ => .ite (fun _ => ?_) fun _ => .ite (fun _ => ?_) fun _ => .fail
    · exact .bind (sim_cloneStringLiteral hr hsource) fun _ _ _ _ ht =>
        .pure ⟨ht.1, fun hs => by rw [ht.2.1 hs], rfl⟩
    · exact .bind (sim_parseNumber (same_of_number hr hnumber) hsource false) fun _ _ _ _ ht =>
        .pure ⟨ht.1, fun hs => by rw [ht.2.1 hs], rfl⟩
    · have hvector : x.Follows .fresh .source blind fun _ : Unit => (do
          return .literal (.vector (← listUntil "]" (push parseComponent) [])) : Parser Expression) :=
        ((follows_listUntil (by decide) (follows_push follows_parseComponent)).comp fun _ => []).bind
          (.pure (fun _ _ => x.on_source) fun _ _ => rfl)
      exact hvector w' () () (hfresh _ h) fun _ => rfl
    · have hparens : x.Follows .fresh .source blind fun _ : Unit => (do
          let expression ← parseExpression
          expectSymbol ")"
          pure expression : Parser Expression) :=
        (hexpression _).bind <| (follows_expectSymbol (by decide)).bind
          (.pure (fun _ _ => x.on_source) fun _ _ => rfl)
      exact hparens w' () () (hfresh _ h) fun _ => rfl
    · refine .bind (sim_expectNumber "number") fun _ _ value value' hvalue => ?_
      exact .bind (sim_parseNumber hvalue.2 (x.on_source hvalue.1) true) fun _ _ _ _ ht =>
        .pure ⟨ht.1, fun hs => by rw [ht.2.1 hs], rfl⟩
    · refine .ite (fun _ => .pure ⟨hsource, .refl _ _ _⟩) fun _ =>
        .ite (fun _ => .pure ⟨hsource, .refl _ _ _⟩) fun _ =>
        .ite (fun _ => .pure ⟨hsource, .refl _ _ _⟩) fun _ => ?_
      exact follows_parseNamed hexpression w' _ _ hsource (normalizedIdentifier_of_reading hr)

theorem follows_parseAdditiveExpression :
    x.Follows .fresh .source blind fun _ : ι => parseAdditiveExpression parseExpression := by
  refine (follows_parsePrimary hexpression).bind <| FollowsTo.comp ?_ Prod.snd
  refine FollowsTo.loop (reads_additiveRound parseExpression) ?_
  refine test (tests_symbol (by decide)) ?_ <| test (tests_symbol (by decide)) ?_ done
  · exact (follows_parsePrimary hexpression).bind again
  · exact (follows_parsePrimary hexpression).bind again

omit hexpression in
theorem follows_parseComparisonOperator :
    x.Follows g .fresh id fun _ : ι => parseComparisonOperator := by
  intro w _ _ _ _
  refine sim_expectToken (fun token ht => ?_) fun w' token token' hr => ?_
  · rw [if_neg (ht.operator "=" (by decide)), if_neg (ht.operator "<" (by decide)),
      if_neg (ht.operator ">" (by decide)), if_neg (ht.operator "!" (by decide))]
    exact rejects_failToken _ _ _
  · rcases hr.alike with hsame | ⟨-, hcut⟩
    · rw [hsame.lexeme]
      have hgiven : ∀ operator : BinaryOperator,
          x.Follows .fresh .fresh id fun _ : Unit => pure operator :=
        fun _ => .pure (fun _ _ hg => hg) fun _ _ => rfl
      have hsim : ∀ {symbol : String} {p : Parser BinaryOperator}, symbol ∈ operators →
          token.lexeme = ascii symbol → x.Follows .fresh .fresh id (fun _ : Unit => p) →
          x.Sim (fun w' a a' => x.On .fresh w' ∧ x.Agree id w' a a') w' p p :=
        fun hmem h hp => hp w' () () (hr.operator _ hmem h) fun _ => rfl
      refine .ite (fun h => hsim (by decide) h (hgiven _)) fun _ => .ite (fun h => ?_) fun _ =>
        .ite (fun h => ?_) fun _ => .ite (fun h => ?_) fun _ => .fail
      · exact hsim (by decide) h <| test (tests_symbol (by decide)) (hgiven _) <|
          test (tests_symbol (by decide)) (hgiven _) (hgiven _)
      · exact hsim (by decide) h <| test (tests_symbol (by decide)) (hgiven _) (hgiven _)
      · exact hsim (by decide) h <| (follows_expectSymbol (by decide)).bind_eq fun _ => hgiven _
    · -- a quoted token is no operator
      obtain ⟨c, hquote, -, -, hhead, -⟩ := hcut.quote
      have hne : ∀ symbol : String, (∀ d ∈ (ascii symbol).head?, ¬IsQuote d) →
          token.lexeme ≠ ascii symbol := by
        intro symbol hsymbol h
        rw [h] at hhead
        exact hsymbol c hhead hquote
      rw [if_neg (hne "=" (by decide +kernel)), if_neg (hne "<" (by decide +kernel)),
        if_neg (hne ">" (by decide +kernel)), if_neg (hne "!" (by decide +kernel))]
      exact .fail

theorem follows_parseComparisonExpression :
    x.Follows .fresh .source blind fun _ : ι => parseComparisonExpression parseExpression := by
  have hstart : x.Legible .source .fresh isComparisonStart :=
    legible_or (legible_or (legible_or (legible_isSymbol (by decide)) (legible_isSymbol (by decide)))
      (legible_isSymbol (by decide))) (legible_isSymbol (by decide))
  exact (follows_parseAdditiveExpression hexpression).bind <|
    test (tests_nextIs hstart) (follows_parseComparisonOperator.bind <|
      (follows_parseAdditiveExpression hexpression).bind stay) stay

theorem follows_parseAndExpression :
    x.Follows .fresh .source blind fun _ : ι => parseAndExpression parseExpression := by
  refine (follows_parseComparisonExpression hexpression).bind <| FollowsTo.comp ?_ Prod.snd
  refine FollowsTo.loop (reads_andRound parseExpression) ?_
  exact test (tests_keyword (by decide))
    ((follows_parseComparisonExpression hexpression).bind again) done

end Expression

/-- **Expressions in step.** -/
theorem follows_parseExpression : x.Follows .fresh .source blind fun _ : ι => parseExpression :=
  .fix guarded_parseAndExpression fun _ => follows_parseAndExpression

/-! ## Projections and row sources -/

theorem parseOptionalAlias_run_cons (boundary : Token → Bool) (input : Input) (token : Token)
    (l : List Token) :
    (parseOptionalAlias boundary).run input (token :: l) =
      if (!isIdentifier token || boundary token) = true then .ok (none, token :: l)
      else .ok (some (normalizedIdentifier token), l) := by
  change (if (!isIdentifier token || boundary token) = true then pure none
    else advance >>= fun _ => pure (some (normalizedIdentifier token)) :
    Parser (Option Bytes)).run input (token :: l) = _
  split
  · rfl
  · rfl

/-- Where nobody takes anything there is no alias. -/
theorem parseOptionalAlias_of_inert {boundary : Token → Bool} {l : List Token} (input : Input)
    (hw : x.On .source w) (hl : ∀ token ∈ l.head?, x.Inert w token) :
    (parseOptionalAlias boundary).run input l = .ok (none, l) := by
  cases l with
  | nil => rfl
  | cons token l =>
    rw [parseOptionalAlias_run_cons, (hl token rfl).name hw]
    rfl

theorem follows_parseOptionalAlias {boundary : Token → Bool} (hb : x.Legible .source s boundary) :
    x.Follows .source .any blind fun _ : ι => parseOptionalAlias boundary := by
  intro w _ _ hw _ l l' hat a rest hrun
  cases x.next hat with
  | dull hd =>
    rw [parseOptionalAlias_of_inert _ hw hd.left] at hrun
    obtain ⟨rfl, rfl⟩ := Prod.mk.inj (Except.ok.inj hrun)
    exact ⟨w, none, l', parseOptionalAlias_of_inert _ hw hd.right, le_refl w, hat, x.on_any w,
      .refl _ _ _⟩
  | @read token token' l l' w' hr hat' =>
    have hname : (!isIdentifier token' || boundary token') =
        (!isIdentifier token || boundary token) := by
      rw [isIdentifier_of_reading hr, hb.reading hr]
    rw [parseOptionalAlias_run_cons] at hrun
    split at hrun
    · rename_i hnone
      obtain ⟨rfl, rfl⟩ := Prod.mk.inj (Except.ok.inj hrun)
      refine ⟨w, none, token' :: l', ?_, le_refl w, hat, x.on_any w, .refl _ _ _⟩
      rw [parseOptionalAlias_run_cons, hname, if_pos hnone]
    · rename_i hsome
      obtain ⟨rfl, rfl⟩ := Prod.mk.inj (Except.ok.inj hrun)
      refine ⟨w', some (normalizedIdentifier token'), l', ?_, hr.le, hat', x.on_any w',
        fun hs => congrArg some (normalizedIdentifier_of_reading hr hs), rfl⟩
      rw [parseOptionalAlias_run_cons, hname, if_neg hsome]

/-- Whether an alias is looked for depends on the expression before it;
where the expressions differ there is none to be found either way. -/
theorem follows_implicitAlias : x.Follows .source .any blind fun expression : Expression =>
    if canStartImplicitProjectionAlias expression = true then
      parseOptionalImplicitAlias >>= fun label => pure (⟨expression, label⟩ : Projection)
    else pure ⟨expression, none⟩ := by
  intro w expression expression' hw hsame
  have hboundary : x.Legible .source .source isImplicitAliasBoundary := legible_isKeyword (by decide)
  by_cases hs : x.same w
  · obtain rfl := hsame hs
    refine .ite (fun _ => ?_) fun _ => .pure ⟨x.on_any w, .refl _ _ _⟩
    have halias : x.Follows .source .any blind fun _ : Unit => (parseOptionalImplicitAlias >>=
        fun label => pure ⟨expression, label⟩ : Parser Projection) :=
      (follows_parseOptionalAlias hboundary).bind skip
    exact halias w () () hw fun _ => rfl
  · intro l l' hat a rest hrun
    have hd := x.ended hat hs
    have hnone : ∀ (e : Expression) (input : Input) (k : List Token),
        parseOptionalImplicitAlias.run input k = .ok (none, k) →
        (if canStartImplicitProjectionAlias e = true then
          parseOptionalImplicitAlias >>= fun label => pure (⟨e, label⟩ : Projection)
        else pure ⟨e, none⟩ : Parser Projection).run input k = .ok (⟨e, none⟩, k) := by
      intro e input k hk
      split
      · exact bind_eq_ok.2 ⟨none, k, hk, rfl⟩
      · rfl
    rw [hnone expression x.input l (parseOptionalAlias_of_inert _ hw hd.left)] at hrun
    obtain ⟨-, rfl⟩ := Prod.mk.inj (Except.ok.inj hrun)
    exact ⟨w, ⟨expression', none⟩, l', hnone expression' x.copy l'
      (parseOptionalAlias_of_inert _ hw hd.right), le_refl w, hat, x.on_any w,
      fun h => absurd h hs, rfl⟩

theorem follows_parseProjection : x.Follows .fresh .any blind fun _ : ι => parseProjection :=
  follows_parseExpression.bind <| test (tests_accept legible_as)
    ((follows_expectIdentifierOwned _).bind skip) (follows_implicitAlias.comp Prod.snd)

section Alias

variable {input : Input} {l : List Token}

/-- A word that is none of the grammar's is an alias. -/
theorem parseOptionalTableAlias_bare (hname : isIdentifier token = true)
    (hplain : ∀ word ∈ "AS" :: sourceWords ++ clauseWords,
      token.eqlIgnoreCase (ascii word) = false) :
    parseOptionalTableAlias.run input (token :: l) = .ok (some (normalizedIdentifier token), l) := by
  have hboundary : isTableAliasBoundary token = false :=
    List.any_eq_false.2 fun word hword => ne_true_of_eq_false
      (hplain word (List.mem_cons_of_mem _ (by revert word; decide)))
  refine bind_eq_ok.2 ⟨false, token :: l, ?_, ?_⟩
  · rw [matchKeyword, accept_cons, hplain "AS" List.mem_cons_self, if_neg Bool.false_ne_true]
  · rw [if_neg Bool.false_ne_true, parseOptionalAlias_run_cons, hname, hboundary]
    rfl

/-- And so is whatever follows `AS`. -/
theorem parseOptionalTableAlias_as (has : token.eqlIgnoreCase (ascii "AS") = true)
    (hname : isIdentifier token' = true) :
    parseOptionalTableAlias.run input (token :: token' :: l) =
      .ok (some (normalizedIdentifier token'), l) := by
  have hread : (expectIdentifierToken "table alias").run input (token' :: l) = .ok (token', l) := by
    refine bind_eq_ok.2 ⟨token', l, rfl, ?_⟩
    rw [if_pos hname]
    rfl
  refine bind_eq_ok.2 ⟨true, token' :: l, ?_, ?_⟩
  · rw [matchKeyword, accept_cons, if_pos has]
  · exact bind_eq_ok.2 ⟨_, l, bind_eq_ok.2 ⟨token', l, hread, rfl⟩, rfl⟩

end Alias

/-- **The alias of a table**: where a word is one in both texts, it may
have `AS` before it in one only. -/
theorem follows_parseOptionalTableAlias :
    x.Follows .any .any blind fun _ : ι => parseOptionalTableAlias := by
  intro w i j hw hij
  by_cases hsource : x.On .source w
  · have hplain : x.Follows .source .any blind fun _ : ι => parseOptionalTableAlias :=
      test (tests_accept legible_as) ((follows_expectIdentifierOwned _).bind skip)
        (follows_parseOptionalAlias (legible_isKeyword (by decide)))
    exact hplain w i j hsource hij
  · intro l l' hat a rest hrun
    obtain ⟨y⟩ := x.aliased hat hsource
    have hidentifier : isIdentifier y.name' = true := by
      rw [isIdentifier, y.same.kind]
      exact y.identifier
    have hnot : ∀ word ∈ "AS" :: sourceWords ++ clauseWords,
        y.name.eqlIgnoreCase (ascii word) = false := fun word hword => y.plain (x.grammar word hword)
    have hnot' : ∀ word ∈ "AS" :: sourceWords ++ clauseWords,
        y.name'.eqlIgnoreCase (ascii word) = false :=
      fun word hword => (y.same.eqlIgnoreCase _).trans (hnot word hword)
    have htext : normalizedIdentifier y.name = normalizedIdentifier y.name' := by
      unfold normalizedIdentifier
      rw [y.same.lexeme]
    change parseOptionalTableAlias.run x.input l = _ at hrun
    have hruns : parseOptionalTableAlias.run x.input l =
        .ok (some (normalizedIdentifier y.name), y.rest) ∧
        parseOptionalTableAlias.run x.copy l' =
          .ok (some (normalizedIdentifier y.name'), y.rest') := by
      rcases y.texts with ⟨hl, hl'⟩ | ⟨hl, hl'⟩
      · exact ⟨(congrArg _ hl).trans (parseOptionalTableAlias_bare y.identifier hnot),
          (congrArg _ hl').trans (parseOptionalTableAlias_as y.isAs hidentifier)⟩
      · exact ⟨(congrArg _ hl).trans (parseOptionalTableAlias_as y.isAs y.identifier),
          (congrArg _ hl').trans (parseOptionalTableAlias_bare hidentifier hnot')⟩
    rw [hruns.1] at hrun
    obtain ⟨rfl, rfl⟩ := Prod.mk.inj (Except.ok.inj hrun)
    exact ⟨y.w', _, y.rest', hruns.2, y.le, y.at_rest, x.on_any _,
      fun _ => congrArg some htext, rfl⟩

theorem follows_parseRequiredTableAlias (expected : String) :
    x.Follows .fresh .any blind fun _ : ι => parseRequiredTableAlias expected := by
  have hname : x.Follows .fresh .any blind fun _ : ι => expectIdentifierOwned expected :=
    (follows_expectIdentifierOwned expected).forget
  -- `AS` or not, the same follows
  have hsame : parseRequiredTableAlias expected = (matchKeyword "AS" >>= fun b =>
      if b = true then expectIdentifierOwned expected else expectIdentifierOwned expected) := by
    unfold parseRequiredTableAlias
    simp only [ite_self]
  rw [hsame]
  exact test (tests_accept (legible_as.weaken x.on_source)) hname hname

theorem follows_isAtClauseBoundary : x.Tests g g isAtClauseBoundary := by
  intro w hw
  have hkeyword : x.Legible g .source
      (isKeyword ["FROM", "WHERE", "ORDER", "LIMIT", "GROUP", "HAVING"]) :=
    legible_isKeyword (by decide)
  have hdull : ∀ l : List Token, (∀ token ∈ l.head?, x.Inert w token) →
      (match l.head? with
        | none => true
        | some token => isKeyword ["FROM", "WHERE", "ORDER", "LIMIT", "GROUP", "HAVING"] token ||
          decide (token.lexeme = ascii ";")) = Stages.stops l.head? := by
    intro l hl
    cases l with
    | nil => rfl
    | cons token l =>
      simp only [List.head?_cons, Stages.stops, hkeyword.inert hw (hl token rfl), Bool.false_or]
  refine (sim_inspect (F := fun o => match o with
    | none => true
    | some token => isKeyword ["FROM", "WHERE", "ORDER", "LIMIT", "GROUP", "HAVING"] token ||
      decide (token.lexeme = ascii ";")) (nextIs_run true _) (fun w' token token' hr => ?_)
    fun l l' hd => ?_).imp fun w' b b' hb => ⟨hb.2, fun _ => hb.1 ▸ hw, fun _ => hb.1⟩
  · simp only [hkeyword.reading hr]
    rcases hr.alike with hsame | ⟨-, hcut⟩
    · rw [hsame.lexeme]
    · obtain ⟨c, hquote, -, -, hhead, hhead'⟩ := hcut.quote
      have hne : ∀ token : Token, token.lexeme.head? = some c → token.lexeme ≠ ascii ";" := by
        intro token hc h
        rw [h] at hc
        exact absurd (Option.some.inj hc ▸ hquote) (by decide)
      rw [decide_eq_false (hne token hhead), decide_eq_false (hne token' hhead')]
  · exact (hdull l' hd.right).trans (hd.stops.trans (hdull l hd.left).symm)

theorem follows_peekJoinType : x.Follows g .any id fun _ : ι => peekJoinType := by
  intro w _ _ hw _
  have hinner : x.Legible g .source (isKeyword ["JOIN", "INNER"]) := legible_isKeyword (by decide)
  have hcross : x.Legible g .source (isKeyword ["CROSS"]) := legible_isKeyword (by decide)
  have hleft : x.Legible g .source (isKeyword ["LEFT"]) := legible_isKeyword (by decide)
  let joinOf : Option Token → Option JoinType := fun o => match o with
    | none => none
    | some token =>
      if isKeyword ["JOIN", "INNER"] token = true then some .inner
      else if isKeyword ["CROSS"] token = true then some .cross
      else if isKeyword ["LEFT"] token = true then some .left
      else none
  have hdull : ∀ l : List Token, (∀ token ∈ l.head?, x.Inert w token) → joinOf l.head? = none := by
    intro l hl
    cases l with
    | nil => rfl
    | cons token l =>
      simp only [joinOf, List.head?_cons, hinner.inert hw (hl token rfl),
        hcross.inert hw (hl token rfl), hleft.inert hw (hl token rfl), Bool.false_eq_true, if_false]
  refine (sim_inspect (F := joinOf) (fun input l => ?_) (fun w' token token' hr => ?_)
    fun l l' hd => (hdull l' hd.right).trans (hdull l hd.left).symm).imp
      fun w' a a' ha => ⟨x.on_any w', fun _ => ha.2, ha.2⟩
  · cases l with
    | nil => rfl
    | cons token l =>
      change (if isKeyword ["JOIN", "INNER"] token = true then pure (some .inner)
        else if isKeyword ["CROSS"] token = true then pure (some .cross)
        else if isKeyword ["LEFT"] token = true then pure (some .left)
        else pure none : Parser (Option JoinType)).run input (token :: l) = .ok (ite _ _ _, _)
      split
      · rfl
      · split
        · rfl
        · split
          · rfl
          · rfl
  · simp only [joinOf, hinner.reading hr, hcross.reading hr, hleft.reading hr]

theorem follows_consumeJoinType (joinType : JoinType) :
    x.Follows g .source id fun _ : ι => consumeJoinType joinType := by
  have hjoin : ∀ {κ} {g}, x.Follows g .source id fun _ : κ => expectKeyword "JOIN" :=
    follows_expectSuch (legible_source (by decide))
  cases joinType with
  | inner => exact (tests_keyword (by decide)).follows.bind hjoin
  | cross => exact (follows_expectKeyword (by decide)).bind hjoin
  | left =>
    exact (follows_expectKeyword (by decide)).bind <|
      (tests_keyword (by decide)).follows.bind hjoin

theorem follows_parseJoinCondition (joinType : JoinType) :
    x.Follows g .any blind fun _ : ι => parseJoinCondition joinType :=
  test (tests_keyword (by decide)) (follows_parseExpression.bind skip) <|
    .ite (fun _ => skip) fun _ => follows_failCurrent _ _

/-! ## Queries -/

/-- Whether a query has a source. -/
def hasSource (query : SelectStatement) : Bool := query.source.isSome

section Select

variable {parseSelect : Parser SelectStatement}
variable (hselect : ∀ κ, x.Follows .fresh .any hasSource fun _ : κ => parseSelect)

include hselect

theorem follows_parseCommonTable : x.Follows .fresh .any blind (parseCommonTable parseSelect) :=
  (follows_expectIdentifierOwned _).bind <| (follows_expectSuch legible_as).bind <|
    (follows_expectSymbol (by decide)).bind <| (follows_expectKeyword (by decide)).bind <|
    (hselect _).bind <| (follows_expectSymbol (by decide)).bind skip

theorem follows_parseSelectAfterWith :
    x.Follows .fresh .any hasSource fun _ : ι => parseSelectAfterWith parseSelect := by
  have hctes : x.Follows .fresh .any blind fun _ : ι => listOf (parseCommonTable parseSelect) [] :=
    (follows_listOf (follows_parseCommonTable hselect)).comp fun _ => []
  exact hctes.bind <| (follows_expectKeyword (by decide)).bind <|
    (hselect _).bind_of fun _ => .pure (fun _ _ hg => hg) fun i j => i.2.trans j.2.symm

theorem follows_parseRowSourceAtom :
    x.Follows .source .any blind fun _ : ι => parseRowSourceAtom parseSelect := by
  have hderived : ∀ κ, x.Follows .fresh .any hasSource fun _ : κ => parseDerivedQuery parseSelect :=
    fun _ => test (tests_keyword (by decide)) (hselect _) <|
      test (tests_keyword (by decide)) (follows_parseSelectAfterWith hselect)
        (follows_failCurrent _ _)
  refine test (tests_symbol (by decide)) ?_ ?_
  · exact (hderived _).bind <| (follows_expectSymbol (by decide)).bind <|
      (follows_parseRequiredTableAlias _).bind skip
  · exact (follows_tableName _).bind <| follows_parseOptionalTableAlias.bind skip

theorem follows_parseRowSource :
    x.Follows .source .any blind fun _ : ι => parseRowSource parseSelect := by
  refine (follows_parseRowSourceAtom hselect).bind <| FollowsTo.comp ?_ Prod.snd
  refine FollowsTo.loop (reads_joinRound parseSelect) ?_
  refine follows_peekJoinType.bind_eq fun joinType => ?_
  cases joinType with
  | none => exact done
  | some joinType =>
    exact (follows_consumeJoinType joinType).bind <| (follows_parseRowSourceAtom hselect).bind <|
      (follows_parseJoinCondition joinType).bind again

omit hselect in
theorem follows_parseProjections : x.Follows .fresh .any blind fun _ : ι => parseProjections := by
  refine FollowsTo.comp (FollowsTo.loop reads_projectionRound ?_) fun _ => []
  exact test follows_isAtClauseBoundary doneAny <|
    (follows_push follows_parseProjection).bind <| test (tests_symbol (by decide)) again done

omit hselect in
theorem follows_parseGroupBy : x.Follows .any .any blind fun _ : ι => parseGroupBy := by
  refine test (tests_keyword (by decide)) ?_ skip
  exact (follows_expectKeyword (by decide)).bind <|
    (follows_listOf (follows_push follows_parseExpression)).comp fun _ => []

omit hselect in
theorem follows_parseOrderBy : x.Follows .any .any blind fun _ : ι => parseOrderBy := by
  have hkey : ∀ κ, x.Follows .fresh .any blind fun _ : κ => parseOrderKey := fun _ =>
    follows_parseExpression.bind <| test (tests_keyword (by decide)) skip <|
      (tests_keyword (by decide)).follows.bind skip
  refine test (tests_keyword (by decide)) ?_ skip
  exact (follows_expectKeyword (by decide)).bind <|
    (follows_listOf (follows_push (hkey _))).comp fun _ => []

omit hselect in
theorem follows_parseLimit : x.Follows g .any blind fun _ : ι => parseLimit := by
  intro w _ _ _ _
  refine .bind (sim_expectNumber _) fun w' _ token token' ht => ?_
  rw [ht.2.lexeme]
  exact (sim_numberOr token token' _ _).imp fun w'' _ _ ha => ⟨x.on_any w'', fun _ => ha.2, rfl⟩

theorem follows_selectAfterSelect :
    x.Follows .fresh .any hasSource fun _ : ι => selectAfterSelect parseSelect := by
  have hclause : ∀ {κ} {word}, word ∈ clauseWords →
      x.Follows .any .any Option.isSome fun _ : κ => optionally word parseExpression :=
    fun hword => follows_optionally (tests_keyword hword) follows_parseExpression
  have hlimit : ∀ κ, x.Follows .any .any Option.isSome fun _ : κ => optionally "LIMIT" parseLimit :=
    fun _ => follows_optionally (tests_keyword (by decide)) follows_parseLimit
  refine follows_parseProjections.bind <|
    (follows_optionally (tests_accept (legible_source (by decide)))
      (follows_parseRowSource hselect)).bind_of fun _ => ?_
  refine (hclause (by decide)).bind <| follows_parseGroupBy.bind <| (hclause (by decide)).bind <|
    follows_parseOrderBy.bind <| (hlimit _).bind <| .pure (fun _ _ hg => hg) fun i j => ?_
  -- the source was read five clauses before
  exact i.1.1.1.1.1.2.trans j.1.1.1.1.1.2.symm

end Select

/-- **Queries in step.** -/
theorem follows_parseSelectAfterSelect :
    x.Follows .fresh .any hasSource fun _ : ι => parseSelectAfterSelect :=
  .fix guarded_selectAfterSelect fun _ => follows_selectAfterSelect

end Tandem

end Sql

end Shoveler
