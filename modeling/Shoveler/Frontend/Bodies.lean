import Mathlib.Data.List.Forall2
import Shoveler.Frontend.Views
import Shoveler.Model.ProcedureBody

/-!
# The text of a procedure

The parser of bodies reads a token before it comes back to itself, and so
blocks are parsed as the recursive functions of the source say; every loop
has rounds enough for the same reason (`parsed_as_written`).

`CREATE PROCEDURE` does not parse the body. It reads all the tokens there
are and keeps the text up to the last `END` of them
(`parseCreateProcedure_eq_ok`), so that the text has the tokens up to it
(`tokens_of_kept`).
-/

namespace Shoveler

open Parse List

namespace ProcedureBody

open Sql (Input isSymbol isKeyword)

/-! ## The parser of bodies comes to an end -/

variable {α β : Type}

theorem consumes_unsupported : (unsupported : BodyParser α).Consumes :=
  fun _ _ _ _ h => by cases h

/-- A token that has to come is read. -/
theorem expectToken_eq_ok {wanted : Token → Bool} {input : Input} {l rest : List Token}
    {token : Token} (h : (expectToken wanted).run input l = .ok (token, rest)) :
    l = token :: rest ∧ wanted token = true := by
  obtain ⟨found, mid, hfound, h⟩ := bind_eq_ok.1 h
  cases l with
  | nil =>
    obtain ⟨rfl, rfl⟩ := Prod.mk.inj (Except.ok.inj hfound)
    cases h
  | cons t l =>
    obtain ⟨rfl, rfl⟩ := Prod.mk.inj (Except.ok.inj hfound)
    dsimp only [head?_cons, tail_cons] at h
    split at h
    · rename_i hw
      obtain ⟨rfl, rfl⟩ := Prod.mk.inj (Except.ok.inj h)
      exact ⟨rfl, hw⟩
    · cases h

theorem expectKeyword_eq_ok {keyword : String} {input : Input} {l rest : List Token} {u : Unit}
    (h : (expectKeyword keyword).run input l = .ok (u, rest)) :
    ∃ token, l = token :: rest ∧ token.eqlIgnoreCase (ascii keyword) = true := by
  obtain ⟨token, mid, htoken, h⟩ := bind_eq_ok.1 h
  obtain ⟨-, rfl⟩ := Prod.mk.inj (Except.ok.inj h)
  exact ⟨token, expectToken_eq_ok htoken⟩

/-- A round that fails at the end of the text reads a token. -/
theorem consumes_advance {f : Token → BodyParser α} :
    (Parse.advance >>= fun token =>
      match token with
      | none => unsupported
      | some token => f token : BodyParser α).Consumes := by
  intro input l a rest h
  obtain ⟨token, mid, htoken, h⟩ := bind_eq_ok.1 h
  cases l with
  | nil =>
    obtain ⟨rfl, rfl⟩ := Prod.mk.inj (Except.ok.inj htoken)
    cases h
  | cons t l =>
    obtain ⟨rfl, rfl⟩ := Prod.mk.inj (Except.ok.inj htoken)
    exact Nat.lt_succ_of_le ((f t).length_le h)

/-- A text that is collected has a token at least. -/
theorem consumes_collect {round : ℕ → BodyParser (Round ℕ ℕ)} (h : ∀ depth, (round depth).Consumes) :
    (collect round).Consumes := by
  refine .after fun first => ?_
  cases first with
  | none => exact consumes_unsupported
  | some first =>
    refine Consumes.bind ?_ _
    rw [loop, loop_eq fun depth => (h depth).readsAgain]
    exact (h 0).bind _

/-- A statement is a token at least. -/
theorem consumes_statement (parseStatement : BodyParser Statement) :
    (statement parseStatement).Consumes := by
  refine .after fun first => ?_
  cases first with
  | none => exact consumes_unsupported
  | some token =>
    refine (checks_accept _).consumes <| (checks_accept _).consumes <|
      (checks_accept _).consumes <| (checks_accept _).consumes ?_
    split
    · exact consumes_unsupported
    · exact ((consumes_collect fun _ => consumes_advance).bind _).bind _

section Recursion

variable {n : ℕ} {p q : BodyParser Statement}

theorem agreeBelow_parseStatementsUntil (h : AgreeBelow n p q) (stop : StopSet) :
    AgreeBelow n (parseStatementsUntil p stop) (parseStatementsUntil q stop) := by
  refine .loop (fun statements => .bind (.refl _) fun first => ?_) []
  cases first with
  | none => exact .refl _
  | some token => exact .ite (.refl _) (h.bind fun _ => .refl _)

theorem agreeBelow_parseIf (h : AgreeBelow n p q) : AgreeBelow n (parseIf p) (parseIf q) := by
  have hblock := agreeBelow_parseStatementsUntil h
  refine .bind (.refl _) fun condition => .bind (hblock _) fun thenBody => .bind (.refl _) fun b => ?_
  cases b with
  | true => exact (hblock _).bind fun _ => .refl _
  | false => exact .refl _

theorem agreeBelow_parseWhile (h : AgreeBelow n p q) :
    AgreeBelow n (parseWhile p) (parseWhile q) :=
  .bind (.refl _) fun _ => .bind (agreeBelow_parseStatementsUntil h _) fun _ => .refl _

/-- **Only behind a word that was read does a statement come back to
statements.** -/
theorem guarded_statement : Guarded statement := by
  intro n p q h
  refine .bind (.refl _) fun first => ?_
  cases first with
  | none => exact .refl _
  | some token =>
    refine .test (checks_accept _) (.refl _) <| .test (checks_accept _) (.refl _) <|
      .test (checks_accept _) (agreeBelow_parseIf h) <|
      .test (checks_accept _) (agreeBelow_parseWhile h) (.refl _)

end Recursion

/-- A loop that ends on every input, without a bound on its rounds, with the
result it has in the model. -/
def Unbounded (round : α → BodyParser (Round α β)) : Prop :=
  ∀ input a l, Runs round input a l ((loop round a).run input l)

theorem unbounded_of_consumes {round : α → BodyParser (Round α β)}
    (h : ∀ a, (round a).Consumes) : Unbounded round :=
  runs_loop fun a => (h a).readsAgain

/-- A round of a block ends it, or it reads a statement. -/
theorem reads_statementsRound {parseStatement : BodyParser Statement}
    (h : parseStatement.Consumes) (stop : StopSet) :
    Parse.Reads (statementsRound parseStatement stop) := by
  intro statements
  refine .after fun first => ?_
  cases first with
  | none => exact .done statements
  | some token =>
    dsimp only
    split
    · exact .done statements
    · exact (h.bind _).readsAgain

/-- **A body is parsed as the source says**, whatever its size and depth:
statements call themselves on fewer tokens, so that their equation has one
solution, and every loop ends by itself. -/
theorem parsed_as_written :
    Guarded statement ∧ (∀ p, p = statement p ↔ p = parseStatement) ∧ parseStatement.Consumes ∧
      (∀ stop, Unbounded (statementsRound parseStatement stop)) ∧ Unbounded semicolonRound ∧
      (∀ keyword, Unbounded (keywordRound keyword)) ∧ (∀ name, Unbounded (declareRound name)) ∧
      Unbounded trailingRound := by
  have heq : parseStatement = statement parseStatement := fix_eq guarded_statement
  have hconsumes : parseStatement.Consumes := by
    rw [heq]
    exact consumes_statement parseStatement
  have hunique : ∀ p, p = statement p ↔ p = parseStatement := by
    intro p
    refine ⟨eq_fix guarded_statement, ?_⟩
    rintro rfl
    exact heq
  exact ⟨guarded_statement, hunique, hconsumes,
    fun stop => runs_loop (reads_statementsRound hconsumes stop),
    unbounded_of_consumes fun _ => consumes_advance,
    fun _ => unbounded_of_consumes fun _ => consumes_advance,
    fun _ => unbounded_of_consumes fun _ => consumes_advance,
    runs_loop fun _ => (checks_accept _).readsAgain (.done ())⟩

/-! ## What is accepted -/

/-- A block ends with the `END` that closes it. -/
theorem parseBlock_eq_ok {input : Input} {l rest : List Token} {body : Body}
    (h : parseBlock.run input l = .ok (body, rest)) :
    ∃ token, token :: rest <:+ l ∧ isKeyword ["END"] token = true := by
  obtain ⟨_, l₁, h₁, h⟩ := bind_eq_ok.1 h
  obtain ⟨statements, l₂, h₂, h⟩ := bind_eq_ok.1 h
  obtain ⟨_, l₃, h₃, h⟩ := bind_eq_ok.1 h
  obtain ⟨-, rfl⟩ := Prod.mk.inj (Except.ok.inj h)
  obtain ⟨token, rfl, hend⟩ := expectKeyword_eq_ok h₃
  refine ⟨token, ((parseStatementsUntil _ _).suffix h₂).trans ((expectKeyword _).suffix h₁), ?_⟩
  rw [isKeyword, any_cons, hend, Bool.true_or]

/-- The loop over the semicolons leaves what is none. -/
theorem trailing_eq_ok {input : Input} {l rest : List Token} {u : Unit}
    (h : (loop trailingRound ()).run input l = .ok (u, rest)) :
    ∃ semicolons, l = semicolons ++ rest ∧ ∀ token ∈ semicolons, isSymbol ";" token = true := by
  have hreads : Parse.Reads trailingRound := fun _ => (checks_accept _).readsAgain (.done ())
  induction l with
  | nil =>
    obtain rfl := eq_nil_of_suffix_nil ((loop trailingRound ()).suffix h)
    exact ⟨[], rfl, forall_mem_nil _⟩
  | cons token l ih =>
    rw [loop, loop_eq hreads] at h
    obtain ⟨round, mid, hround, hnext⟩ := bind_eq_ok.1 h
    obtain ⟨b, mid', hb, hround⟩ := bind_eq_ok.1 hround
    rw [matchSymbol, accept_cons] at hb
    split at hb
    · rename_i hsymbol
      obtain ⟨rfl, rfl⟩ := Prod.mk.inj (Except.ok.inj hb)
      obtain ⟨rfl, rfl⟩ := Prod.mk.inj (Except.ok.inj hround)
      obtain ⟨semicolons, hl, hall⟩ := ih hnext
      refine ⟨token :: semicolons, ?_, forall_mem_cons.2 ⟨hsymbol, hall⟩⟩
      rw [hl, cons_append]
    · obtain ⟨rfl, rfl⟩ := Prod.mk.inj (Except.ok.inj hb)
      obtain ⟨rfl, rfl⟩ := Prod.mk.inj (Except.ok.inj hround)
      obtain ⟨-, rfl⟩ := Prod.mk.inj (Except.ok.inj hnext)
      exact ⟨[], rfl, forall_mem_nil _⟩

/-- **A body is accepted if nothing but semicolons follows its block.** -/
theorem parse_eq_some {parseFloat : Bytes → Option UInt64} {bodySql : Bytes} {body : Body}
    (h : parse parseFloat bodySql = some body) :
    ∃ rest, parseBlock.run ⟨bodySql, parseFloat⟩ (tokenize bodySql) = .ok (body, rest) ∧
      ∀ token ∈ rest, isSymbol ";" token = true := by
  unfold parse at h
  split at h
  · cases h
  · rename_i body' left hrun
    obtain rfl := Option.some.inj h
    obtain ⟨block, l₁, hblock, hend⟩ := bind_eq_ok.1 hrun
    obtain ⟨_, l₂, htrailing, hend⟩ := bind_eq_ok.1 hend
    obtain ⟨semicolons, hl₁, hall⟩ := trailing_eq_ok htrailing
    cases l₂ with
    | nil =>
      obtain ⟨rfl, -⟩ := Prod.mk.inj (Except.ok.inj hend)
      rw [hl₁, append_nil] at hblock
      exact ⟨semicolons, hblock, hall⟩
    | cons token l₂ => cases hend

end ProcedureBody

/-! ## The text that is kept -/

/-- A token of an echo is one of the text, perhaps cut. -/
theorem Echoes.mem_right {cut : Prop} {tail ts ts' : List Token} (h : Echoes cut tail ts ts')
    {token' : Token} (hmem : token' ∈ ts') : ∃ token ∈ ts, token.Same token' ∨ token.Cut token' := by
  induction h with
  | done => cases hmem
  | @cut token _ _ ht =>
    rw [mem_singleton] at hmem
    exact ⟨token, mem_cons_self, .inr (hmem ▸ ht)⟩
  | @same token _ _ _ ht _ ih =>
    rcases mem_cons.1 hmem with rfl | hmem
    · exact ⟨token, mem_cons_self, .inl ht⟩
    · obtain ⟨t, ht, heq⟩ := ih hmem
      exact ⟨t, mem_cons_of_mem _ ht, heq⟩

/-- An echo whose last token is not cut has the same tokens. -/
theorem Echoes.forall₂ {cut : Prop} {ts ts' : List Token} (h : Echoes cut [] ts ts')
    (hlast : ∀ token ∈ ts.getLast?, ∀ token', ¬token.Cut token') :
    List.Forall₂ Token.Same ts ts' := by
  induction h with
  | done => exact .nil
  | @cut token token' _ ht => exact absurd ht (hlast token rfl token')
  | @same token _ ts _ ht _ ih =>
    refine .cons ht (ih fun t hmem => hlast t ?_)
    rw [getLast?_cons_of_ne_nil (by rintro rfl; cases hmem)]
    exact hmem

namespace Sql

open Ast

variable {input : Input} {l rest : List Token}

/-- `CREATE PROCEDURE`, behind these words and up to the body. -/
def procedureHead : Parser (Bytes × List ProcedureParam) := do
  let name ← expectIdentifierOwned "procedure name"
  let params ← if ← matchSymbol "(" then listUntil ")" parseParam [] else pure []
  return (name, params)

/-- The end of a body is found and its text is kept. -/
def procedureText (head : Bytes × List ProcedureParam) : Parser ProcedureStatement := do
  let bodyStart ← currentOffset
  let bodyEnd ← findBodyEnd
  if bodyEnd ≤ bodyStart then
    Parse.fail fun _ => ⟨.unsupportedSyntax, bodyStart, [], "procedure body", none⟩
  else
    return ⟨head.1, head.2, trim (slice (← Parse.read).sql bodyStart bodyEnd)⟩

theorem parseCreateProcedure_eq : parseCreateProcedure = procedureHead >>= procedureText := by
  refine Parse.ext fun input l => ?_
  rw [parseCreateProcedure, procedureHead, run_bind, run_bind, run_bind]
  cases (expectIdentifierOwned "procedure name").run input l with
  | error e => rfl
  | ok named =>
    simp only [run_bind]
    cases (matchSymbol "(").run input named.2 with
    | error e => rfl
    | ok opened =>
      obtain ⟨called, l₂⟩ := opened
      cases called with
      | false => rfl
      | true =>
        simp only [if_true, run_bind]
        cases (listUntil ")" parseParam []).run input l₂ with
        | error e => rfl
        | ok params => rfl

/-- The end of a body that is found, among these tokens. -/
def endAmong (tokens : List Token) (bodyEnd : ℕ) : ℕ :=
  tokens.foldl (fun bodyEnd token =>
    if isKeyword ["END"] token then token.offset + token.lexeme.length else bodyEnd) bodyEnd

/-- **All the tokens are read to find it.** -/
theorem bodyEnd_run (input : Input) (tokens : List Token) (bodyEnd : ℕ) :
    (loop bodyEndRound bodyEnd).run input tokens = .ok (endAmong tokens bodyEnd, []) := by
  induction tokens generalizing bodyEnd with
  | nil => rfl
  | cons token tokens ih =>
    rw [bodyEnd_eq]
    exact ih _

theorem endAmong_of_none {tokens : List Token} (h : ∀ token ∈ tokens, isKeyword ["END"] token = false)
    (bodyEnd : ℕ) : endAmong tokens bodyEnd = bodyEnd := by
  induction tokens generalizing bodyEnd with
  | nil => rfl
  | cons token tokens ih =>
    rw [forall_mem_cons] at h
    rw [endAmong, foldl_cons, h.1, if_neg Bool.false_ne_true]
    exact ih h.2 bodyEnd

/-- It is behind the last `END`. -/
theorem endAmong_of_last {token : Token} (hend : isKeyword ["END"] token = true)
    {after : List Token} (hafter : ∀ token ∈ after, isKeyword ["END"] token = false)
    (before : List Token) (bodyEnd : ℕ) :
    endAmong (before ++ token :: after) bodyEnd = token.offset + token.lexeme.length := by
  rw [endAmong, foldl_append, foldl_cons, hend, if_pos rfl]
  exact endAmong_of_none hafter _

/-- **The parts of `CREATE PROCEDURE`**: the tokens of the body, of which
there is one, and the text from there to the end that is found. -/
theorem parseCreateProcedure_eq_ok {procedure : ProcedureStatement}
    (h : parseCreateProcedure.run input l = .ok (procedure, rest)) :
    ∃ head token more, procedureHead.run input l = .ok (head, token :: more) ∧
      procedure.bodySql =
        trim (slice input.sql token.offset (endAmong (token :: more) input.sql.length)) := by
  rw [parseCreateProcedure_eq] at h
  obtain ⟨head, l₁, hhead, htext⟩ := bind_eq_ok.1 h
  obtain ⟨bodyStart, l₂, hstart, htext⟩ := bind_eq_ok.1 htext
  rw [currentOffset_run] at hstart
  obtain ⟨rfl, rfl⟩ := Prod.mk.inj (Except.ok.inj hstart)
  obtain ⟨bodyEnd, l₃, hend, htext⟩ := bind_eq_ok.1 htext
  obtain ⟨rfl, rfl⟩ : endAmong l₁ input.sql.length = bodyEnd ∧ [] = l₃ :=
    Prod.mk.inj (Except.ok.inj ((bodyEnd_run input l₁ input.sql.length).symm.trans hend))
  split at htext
  · cases htext
  · rename_i hroom
    obtain ⟨rfl, -⟩ := Prod.mk.inj (Except.ok.inj htext)
    cases l₁ with
    | nil => exact absurd (Nat.le_refl _) hroom
    | cons token more => exact ⟨head, token, more, hhead, rfl⟩

/-- A quoted token that was cut is not `END`. -/
theorem not_end_of_cut {token token' : Token} (h : token.Cut token') :
    isKeyword ["END"] token = false ∧ isKeyword ["END"] token' = false := by
  obtain ⟨hword, hword'⟩ := @Tandem.eqlIgnoreCase_of_cut "END" _ _ (by decide) h
  simp only [isKeyword, any_cons, any_nil, hword, hword', Bool.or_false, and_self]

/-- **A text with the words `END` in it is kept up to the last of them.** -/
theorem tokens_of_kept {sql : Bytes} {token closing : Token} {more before after : List Token}
    (htokens : token :: more <:+ tokenize sql) (hsplit : token :: more = before ++ closing :: after)
    (hclosing : isKeyword ["END"] closing = true) :
    List.Forall₂ Token.Same (before ++ [closing])
      (tokenize (trim (slice sql token.offset (closing.offset + closing.lexeme.length)))) := by
  obtain ⟨-, hfrom, -⟩ := Tokenizer.tokens_of_suffix htokens
  rw [Nat.sub_zero, hsplit] at hfrom
  have hkept := tokens_slice_through hfrom
  obtain ⟨ts, hts⟩ : ∃ ts, before ++ [closing] = token :: ts := by
    cases before with
    | nil => exact ⟨[], congrArg (· :: []) (cons.inj hsplit).1.symm⟩
    | cons first before =>
      rw [(cons.inj hsplit).1]
      exact ⟨before ++ [closing], rfl⟩
  rw [hts] at hkept ⊢
  refine (echoes_trim hkept).forall₂ fun last hlast token' hcut => ?_
  rw [← hts, getLast?_concat] at hlast
  obtain rfl := Option.some.inj hlast
  rw [(not_end_of_cut hcut).1] at hclosing
  cases hclosing

end Sql

end Shoveler
