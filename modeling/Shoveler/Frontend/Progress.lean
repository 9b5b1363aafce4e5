import Shoveler.Model.Parser

/-!
# The parser comes to an end

Every round of a loop of the parser reads a token, and so does a function
before it comes back to itself. The loops therefore have rounds enough,
and expressions and queries are parsed as the recursive functions of the
source say (`parseExpression_eq`, `parseSelectAfterSelect_eq`).
-/

namespace Shoveler

namespace Sql

open Parse Ast

variable {α : Type}

/-! ## Single tokens -/

theorem failCurrent_ne_ok {code : DiagnosticCode} {expected : String} {input : Input}
    {l rest : List Token} {a : α} : (failCurrent code expected).run input l ≠ .ok (a, rest) := by
  cases l with
  | nil => exact fun h => by cases h
  | cons token l => exact fun h => by cases h

theorem consumes_expectToken (expected : String) : (expectToken expected).Consumes := by
  intro input l token rest h
  cases l with
  | nil => cases h
  | cons t l =>
    obtain ⟨-, rfl⟩ := Prod.mk.inj (Except.ok.inj h)
    exact Nat.lt_succ_self _

theorem checks_matchSymbol (symbol : String) : (matchSymbol symbol).Checks := checks_accept _

theorem checks_matchKeyword (keyword : String) : (matchKeyword keyword).Checks :=
  checks_accept _

theorem consumes_expectKeyword (keyword : String) : (expectKeyword keyword).Consumes :=
  (consumes_expectToken keyword).bind _

/-! ## Lists -/

theorem reads_listUntilRound (closing : String) (item : α → Parser α) :
    Parse.Reads (listUntilRound closing item) := fun _ =>
  (checks_matchSymbol closing).readsAgain <| .after fun items =>
    (checks_matchSymbol ",").readsAgain <| .after fun _ => .done items

theorem reads_listOfRound (item : α → Parser α) : Parse.Reads (listOfRound item) := fun _ =>
  .after fun items => (checks_matchSymbol ",").readsAgain (.done items)

/-! ## Expressions -/

section Expression

variable {n : ℕ} {parseExpression parseExpression' : Parser Expression}

theorem agreeBelow_push {p q : Parser α} (h : AgreeBelow n p q) (items : List α) :
    AgreeBelow n (push p items) (push q items) :=
  h.bind fun _ => .refl _

theorem agreeBelow_listUntil (closing : String) {item item' : α → Parser α}
    (h : ∀ items, AgreeBelow n (item items) (item' items)) (start : α) :
    AgreeBelow n (listUntil closing item start) (listUntil closing item' start) := by
  refine .loop (fun items => .bind (.refl _) fun closed => ?_) start
  cases closed with
  | true => exact .refl _
  | false => exact (h items).bind fun _ => .refl _

theorem agreeBelow_parseNamed (h : AgreeBelow n parseExpression parseExpression') (name : Bytes) :
    AgreeBelow n (parseNamed parseExpression name) (parseNamed parseExpression' name) := by
  refine .bind (.refl _) fun called => .ite ?_ (.refl _)
  exact (agreeBelow_listUntil ")" (agreeBelow_push h) []).bind fun _ => .refl _

/-- A primary expression reads a token before it comes back to an
expression. -/
theorem agreeBelow_parsePrimary (h : AgreeBelow n parseExpression parseExpression') :
    AgreeBelow (n + 1) (parsePrimary parseExpression) (parsePrimary parseExpression') := by
  refine .bind_consumes (consumes_expectToken "expression") fun token => ?_
  refine .ite (.refl _) <| .ite (.refl _) <| .ite (.refl _) <| .ite (.refl _) <| .ite ?_ <|
    .ite (.refl _) <| .ite (.ite (.refl _) <| .ite (.refl _) <| .ite (.refl _) ?_) (.refl _)
  · exact h.bind fun _ => .refl _
  · exact agreeBelow_parseNamed h _

theorem reads_additiveRound (parseExpression : Parser Expression) :
    Parse.Reads (additiveRound parseExpression) := fun left =>
  (checks_matchSymbol "+").readsAgain <| (checks_matchSymbol "-").readsAgain (.done left)

theorem agreeBelow_parseAdditiveExpression (h : AgreeBelow n parseExpression parseExpression') :
    AgreeBelow (n + 1) (parseAdditiveExpression parseExpression)
      (parseAdditiveExpression parseExpression') := by
  have hprimary := agreeBelow_parsePrimary h
  refine .bind hprimary fun left => .loop (fun left => ?_) left
  refine .bind (.refl _) fun plus => .ite (hprimary.bind fun _ => .refl _) ?_
  exact .bind (.refl _) fun minus => .ite (hprimary.bind fun _ => .refl _) (.refl _)

theorem agreeBelow_parseComparisonExpression (h : AgreeBelow n parseExpression parseExpression') :
    AgreeBelow (n + 1) (parseComparisonExpression parseExpression)
      (parseComparisonExpression parseExpression') := by
  have hadditive := agreeBelow_parseAdditiveExpression h
  refine .bind hadditive fun left => .bind (.refl _) fun compared => .ite ?_ (.refl _)
  exact .bind (.refl _) fun operator => hadditive.bind fun _ => .refl _

theorem reads_andRound (parseExpression : Parser Expression) :
    Parse.Reads (andRound parseExpression) :=
  fun left => (checks_matchKeyword "AND").readsAgain (.done left)

theorem guarded_parseAndExpression : Guarded parseAndExpression := by
  intro n p q h
  have hcomparison := agreeBelow_parseComparisonExpression h
  refine .bind hcomparison fun left => .loop (fun left => ?_) left
  exact .bind (.refl _) fun and => .ite (hcomparison.bind fun _ => .refl _) (.refl _)

end Expression

/-- **Expressions are parsed as the source says.** -/
theorem parseExpression_eq : parseExpression = parseAndExpression parseExpression :=
  fix_eq guarded_parseAndExpression

/-! ## Queries -/

section Select

variable {n : ℕ} {parseSelect parseSelect' : Parser SelectStatement}

theorem consumes_consumeJoinType (joinType : JoinType) : (consumeJoinType joinType).Consumes := by
  cases joinType with
  | inner => exact .after fun _ => consumes_expectKeyword "JOIN"
  | cross => exact (consumes_expectKeyword "CROSS").bind _
  | left => exact (consumes_expectKeyword "LEFT").bind _

theorem reads_joinRound (parseSelect : Parser SelectStatement) :
    Parse.Reads (joinRound parseSelect) :=
  fun left => .after fun joinType =>
    match joinType with
    | none => .done left
    | some joinType => ((consumes_consumeJoinType joinType).bind _).readsAgain

theorem reads_projectionRound : Parse.Reads projectionRound := fun items =>
  .after fun boundary =>
    match boundary with
    | true => .done items
    | false => .after fun items => (checks_matchSymbol ",").readsAgain (.done items)

theorem agreeBelow_listOf {item item' : α → Parser α}
    (h : ∀ items, AgreeBelow n (item items) (item' items)) (start : α) :
    AgreeBelow n (listOf item start) (listOf item' start) :=
  .loop (fun items => (h items).bind fun _ => .refl _) start

theorem agreeBelow_parseSelectAfterWith (h : AgreeBelow n parseSelect parseSelect') :
    AgreeBelow n (parseSelectAfterWith parseSelect) (parseSelectAfterWith parseSelect') := by
  have hcommon : ∀ ctes, AgreeBelow n (parseCommonTable parseSelect ctes)
      (parseCommonTable parseSelect' ctes) := fun ctes =>
    .bind (.refl _) fun _ => .bind (.refl _) fun _ => .bind (.refl _) fun _ =>
      .bind (.refl _) fun _ => h.bind fun _ => .refl _
  refine (agreeBelow_listOf hcommon []).bind fun ctes => .bind (.refl _) fun _ => ?_
  exact h.bind fun _ => .refl _

theorem agreeBelow_parseRowSourceAtom (h : AgreeBelow n parseSelect parseSelect') :
    AgreeBelow n (parseRowSourceAtom parseSelect) (parseRowSourceAtom parseSelect') := by
  have hderived : AgreeBelow n (parseDerivedQuery parseSelect) (parseDerivedQuery parseSelect') :=
    .bind (.refl _) fun _ => .ite h <| .bind (.refl _) fun _ =>
      .ite (agreeBelow_parseSelectAfterWith h) (.refl _)
  exact .bind (.refl _) fun _ => .ite (hderived.bind fun _ => .refl _) (.refl _)

theorem agreeBelow_parseRowSource (h : AgreeBelow n parseSelect parseSelect') :
    AgreeBelow n (parseRowSource parseSelect) (parseRowSource parseSelect') := by
  have hatom := agreeBelow_parseRowSourceAtom h
  refine hatom.bind fun left => .loop (fun left => .bind (.refl _) fun joinType => ?_) left
  cases joinType with
  | none => exact .refl _
  | some joinType => exact .bind (.refl _) fun _ => hatom.bind fun _ => .refl _

/-- A query reads `FROM` before it comes to another. -/
theorem guarded_selectAfterSelect : Guarded selectAfterSelect := by
  intro n p q h
  refine .bind (.refl _) fun projections => .bind ?_ fun source => .refl _
  exact .test (checks_matchKeyword "FROM") ((agreeBelow_parseRowSource h).bind fun _ => .refl _)
    (.refl _)

end Select

/-- **Queries are parsed as the source says.** -/
theorem parseSelectAfterSelect_eq :
    parseSelectAfterSelect = selectAfterSelect parseSelectAfterSelect :=
  fix_eq guarded_selectAfterSelect

/-! ## Definitions

The loops of the definitions read a token in every round too, and so each
satisfies its own equation. -/

theorem readsAgain_advance {β : Type} {p : Parser (Round α β)} {f : Token → Parser (Round α β)}
    (hp : p.ReadsAgain) :
    (advance >>= fun token =>
      match token with
      | none => p
      | some token => f token).ReadsAgain := by
  intro input l a rest hrun
  refine ReadsAgain.advance (f := f) hp input l a rest ?_
  cases l with
  | nil => exact hrun
  | cons token l => exact hrun

theorem reads_bodyEndRound : Parse.Reads bodyEndRound := fun bodyEnd =>
  readsAgain_advance (.done bodyEnd)

/-- **The end of a body is found as the source says.** -/
theorem bodyEnd_eq (bodyEnd : ℕ) :
    loop bodyEndRound bodyEnd = bodyEndRound bodyEnd >>= Round.next (loop bodyEndRound) :=
  loop_eq reads_bodyEndRound bodyEnd

end Sql

end Shoveler
