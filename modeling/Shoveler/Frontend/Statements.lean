import Shoveler.Frontend.Bodies

/-!
# Statements in step

Two texts that are read in step are parsed to the same statements, up to
the texts that views and procedures keep (`covers_parseStatement`). A
table is not among them: the attributes of its columns are skipped
whatever they are. Nor is a procedure, whose body is; but the two heads are
read in step, and a body is kept if there is one (`parse_procedure`).
-/

namespace Shoveler

namespace Sql

open Parse Ast Tandem

/-- A statement without the text it keeps. -/
def textless : Ast.Statement → Ast.Statement
  | .createView view => .createView { view with bodySql := [] }
  | .createProcedure procedure => .createProcedure { procedure with bodySql := [] }
  | statement => statement

/-- The name and the query of a view. -/
def viewQuery : Parser (Bytes × SelectStatement) := do
  let name ← expectIdentifierOwned "view name"
  expectKeyword "AS"
  expectKeyword "SELECT"
  return (name, ← parseSelectAfterSelect)

theorem viewQuery_eq : viewQuery = do
    let view ← parseCreateView
    return (view.name, view.query) := by
  refine Parse.ext fun input l => ?_
  rw [viewQuery, parseCreateView, run_bind, run_bind, run_bind]
  cases (expectIdentifierOwned "view name").run input l with
  | error e => rfl
  | ok named =>
    simp only [run_bind]
    cases (expectKeyword "AS").run input named.2 with
    | error e => rfl
    | ok as =>
      obtain ⟨_, l₂⟩ := as
      cases l₂ with
      | nil => rfl
      | cons token l₂ =>
        dsimp only [peek, List.head?_cons]
        rw [run_bind]
        cases (expectKeyword "SELECT").run input (token :: l₂) with
        | error e => rfl
        | ok select =>
          simp only [run_bind]
          cases parseSelectAfterSelect.run input select.2 with
          | error e => rfl
          | ok query =>
            simp only [currentOffset_run]
            rfl

/-- A parameter is refused at the words `OUT` and `INOUT`. -/
theorem parseParam_eq (params : List ProcedureParam) : parseParam params = (do
    if ← matchKeyword "IN" then parseParam.param params
    else
      if ← nextIs false (isKeyword ["OUT", "INOUT"]) then
        failCurrent .unsupportedSyntax "IN parameter"
      else parseParam.param params) := by
  refine Parse.ext fun input l => ?_
  rw [parseParam, run_bind, run_bind]
  cases (matchKeyword "IN").run input l with
  | error e => rfl
  | ok given =>
    obtain ⟨b, l₁⟩ := given
    cases b with
    | true => rfl
    | false =>
      cases l₁ with
      | nil => rfl
      | cons token l₁ =>
        change (if isKeyword ["OUT", "INOUT"] token = true then
            failToken token .unsupportedSyntax "IN parameter"
          else parseParam.param params).run input (token :: l₁) =
          (if isKeyword ["OUT", "INOUT"] token = true then
            failCurrent .unsupportedSyntax "IN parameter"
          else parseParam.param params).run input (token :: l₁)
        by_cases hout : isKeyword ["OUT", "INOUT"] token = true
        · rw [if_pos hout, if_pos hout]
          rfl
        · rw [if_neg hout, if_neg hout]

/-- **A list in brackets is closed**, whatever its items read. -/
theorem listUntil_closed {α : Type} {closing : String} {item : α → Parser α} {start items : α}
    {input : Input} {l rest : List Token}
    (h : (listUntil closing item start).run input l = .ok (items, rest)) :
    ∃ token, token :: rest <:+ l ∧ isSymbol closing token = true := by
  obtain ⟨last, mid, hmid, hround⟩ := loop_eq_ok h
  rcases test_eq_ok.1 hround with ⟨l₁, h₁, hdone⟩ | ⟨l₁, h₁, hmore⟩
  · obtain ⟨-, rfl⟩ := Prod.mk.inj (Except.ok.inj hdone)
    obtain ⟨token, rfl, hclosing⟩ := accept_true h₁
    exact ⟨token, hmid, hclosing⟩
  · obtain ⟨items', l₂, h₂, hend⟩ := bind_eq_ok.1 hmore
    rcases test_eq_ok.1 hend with ⟨l₃, -, hagain⟩ | ⟨l₃, h₃, hclose⟩
    · cases (Prod.mk.inj (Except.ok.inj hagain)).1
    · obtain ⟨_, l₄, h₄, hdone⟩ := bind_eq_ok.1 hclose
      obtain ⟨-, rfl⟩ := Prod.mk.inj (Except.ok.inj hdone)
      obtain ⟨token, rfl, hclosing⟩ := expectSuch_eq_ok h₄
      refine ⟨token, ?_, hclosing⟩
      rw [accept_false h₁, ← accept_false h₃] at h₂
      exact ((item last).suffix h₂).trans hmid

namespace Tandem

open FollowsTo

variable {x : Tandem} {ι α β γ : Type} {Q : α → Prop} {F : α → β} {f : α → γ} {g h s : Ground}

variable {p q : Parser α} {word : String}

/-- **What comes of one text comes of the other**, as far as it is such a
result and up to `F`. -/
def Covers (x : Tandem) (g : Ground) (Q : α → Prop) (F : α → β) (p : Parser α) : Prop :=
  ∀ w, x.On g w → ∀ l l', x.At w l l' → ∀ a rest, p.run x.input l = .ok (a, rest) → Q a →
    ∃ w' a' rest', p.run x.copy l' = .ok (a', rest') ∧ x.At w' rest rest' ∧
      (x.same w' → F a = F a')

theorem covers_test {t : Parser Bool} (ht : x.Tests g s t) (hp : x.Covers s Q F p)
    (hq : x.Covers g Q F q) : x.Covers g Q F (t >>= fun b => if b = true then p else q) := by
  intro w hg l l' hat a rest hrun hQ
  obtain ⟨b, mid, hb, hrun⟩ := bind_eq_ok.1 hrun
  obtain ⟨w₁, b', mid', hb', -, hmid, rfl, htrue, hfalse⟩ := ht w hg l l' hat b mid hb
  cases b with
  | true =>
    obtain ⟨w₂, a', rest', hrun', hrest, ha⟩ := hp w₁ (htrue rfl) mid mid' hmid a rest hrun hQ
    exact ⟨w₂, a', rest', bind_eq_ok.2 ⟨true, mid', hb', hrun'⟩, hrest, ha⟩
  | false =>
    obtain rfl := hfalse rfl
    obtain ⟨w₂, a', rest', hrun', hrest, ha⟩ := hq w₁ hg mid mid' hmid a rest hrun hQ
    exact ⟨w₂, a', rest', bind_eq_ok.2 ⟨false, mid', hb', hrun'⟩, hrest, ha⟩

theorem covers_fail (code : DiagnosticCode) (expected : String) :
    x.Covers g Q F (failCurrent code expected) :=
  fun _ _ _ _ _ _ _ hrun => absurd hrun failCurrent_ne_ok

theorem covers_pure (a : α) : x.Covers g Q F (pure a) := by
  intro w _ l l' hat b rest hrun _
  obtain ⟨rfl, rfl⟩ := Prod.mk.inj (Except.ok.inj hrun)
  exact ⟨w, a, l', rfl, hat, fun _ => rfl⟩

theorem covers_exempt {δ : Type} {r : Parser δ} {make : δ → α} (hQ : ∀ d, ¬Q (make d)) :
    x.Covers g Q F (r >>= fun d => pure (make d)) := by
  intro w _ l l' _ a rest hrun ha
  obtain ⟨d, -, rfl⟩ := return_eq_ok.1 hrun
  exact absurd ha (hQ d)

/-- Parts that are parsed in step make up such results. -/
theorem covers_return {δ : Type} {r : Parser δ} {e : δ → γ} {make : δ → α}
    (hr : (∃ d, Q (make d)) → x.Follows g h e fun _ : Unit => r) :
    x.Covers g Q F (r >>= fun d => pure (make d)) := by
  intro w hg l l' hat a rest hrun hQ
  obtain ⟨d, hd, rfl⟩ := return_eq_ok.1 hrun
  obtain ⟨w', d', rest', hrun', -, hrest, -, hsame, -⟩ :=
    hr ⟨d, hQ⟩ w () () hg (fun _ => rfl) l l' hat d rest hd
  exact ⟨w', make d', rest', return_eq_ok.2 ⟨d', hrun', rfl⟩, hrest, fun hs => by rw [hsame hs]⟩

theorem follows_parseDelete : x.Follows g .any blind fun _ : ι => parseDelete :=
  (follows_expectSuch (legible_source (by decide))).bind <| (follows_tableName _).bind <|
    (follows_optionally (tests_keyword (by decide)) follows_parseExpression).bind skip

theorem follows_values (ι : Type) : x.Follows .fresh .fresh blind fun _ : ι =>
    listUntil ")" (push parseExpression) [] :=
  (follows_listUntil (by decide) (follows_push follows_parseExpression)).comp fun _ => []

theorem follows_dimension : x.Follows g .any blind fun _ : ι => (do
    expectSymbol "("
    let token ← expectNumber "vector dimension"
    let dimension ← numberOr token "vector dimension" (parseDecimal maxUsize token.lexeme)
    expectSymbol ")"
    pure (Ast.ColumnType.vector dimension) : Parser Ast.ColumnType) := by
  refine (follows_expectSymbol (by decide)).bind ?_
  intro w _ _ _ _
  refine .bind (sim_expectNumber _) fun w₁ _ token token' ht => ?_
  rw [ht.2.lexeme]
  refine .bind (sim_numberOr token token' _ _) fun w₂ _ dimension dimension' hd => ?_
  obtain ⟨rfl, rfl⟩ := hd
  have hclose : x.Follows .fresh .any blind fun _ : Unit => (do
      expectSymbol ")"
      pure (Ast.ColumnType.vector dimension) : Parser Ast.ColumnType) :=
    (follows_expectSymbol (by decide)).bind skip
  exact hclose w₂ () () ht.1 fun _ => rfl

/-- Texts in which no alias is at issue and every word may be told. -/
structure Plain (x : Tandem) : Prop where
  on : ∀ g w, x.On g w
  words : ∀ {word}, IsWord (ascii word) → x.words word

namespace Plain

variable (hx : x.Plain)

include hx

theorem legible (hword : IsWord (ascii word)) (hne : word ∉ "AS" :: sourceWords) :
    x.Legible g .fresh fun token => token.eqlIgnoreCase (ascii word) :=
  legible_plain (hx.words hword) hne

theorem tests (hword : IsWord (ascii word)) (hne : word ∉ "AS" :: sourceWords) :
    x.Tests g .fresh (matchKeyword word) := tests_accept (hx.legible hword hne)

theorem follows_expectKeyword (hword : IsWord (ascii word)) (hne : word ∉ "AS" :: sourceWords) :
    x.Follows g .fresh id fun _ : ι => expectKeyword word :=
  follows_expectSuch (hx.legible hword hne)

theorem follows_expectIdentifierOwned (expected : String) :
    x.Follows g .fresh blind fun _ : ι => expectIdentifierOwned expected :=
  fun w i j _ hij => (Tandem.follows_expectIdentifierOwned expected w i j (hx.on _ w) hij).imp
    fun w' _ _ ha => ⟨hx.on _ w', ha.2⟩

theorem legible_isKeyword {words : List String}
    (hwords : ∀ word ∈ words, IsWord (ascii word) ∧ word ≠ "AS") :
    x.Legible g .source (isKeyword words) :=
  legible_anyKeyword fun word hword => ⟨hx.words (hwords word hword).1, (hwords word hword).2⟩

theorem follows_parseInsert : x.Follows g .any blind fun _ : ι => parseInsert := by
  have hnames : ∀ κ, x.Follows .fresh .fresh blind fun _ : κ =>
      listUntil ")" (push (expectIdentifierOwned "column name")) [] := fun _ =>
    (follows_listUntil (by decide) (follows_push (hx.follows_expectIdentifierOwned _))).comp
      fun _ => []
  have hvalues : ∀ {κ : Type} (make : κ → List Expression → InsertStatement),
      x.Follows .fresh .any blind fun k : κ => (do
        expectKeyword "VALUES"
        expectSymbol "("
        return make k (← listUntil ")" (push parseExpression) [])) := fun _ =>
    (hx.follows_expectKeyword (by decide) (by decide)).bind <|
      (follows_expectSymbol (by decide)).bind <| (follows_values _).bind skip
  exact (hx.follows_expectKeyword (by decide) (by decide)).bind <|
    (hx.follows_expectIdentifierOwned _).bind <| test (tests_symbol (by decide))
      ((hnames _).bind (hvalues _)) (stay.bind (hvalues _))

theorem follows_parseUpdate : x.Follows g .any blind fun _ : ι => parseUpdate := by
  have hassignment : ∀ κ, x.Follows .fresh .any blind fun _ : κ => parseAssignment := fun _ =>
    (hx.follows_expectIdentifierOwned _).bind <| (follows_expectSymbol (by decide)).bind <|
      follows_parseExpression.bind skip
  have hassignments : ∀ κ, x.Follows .fresh .any blind fun _ : κ =>
      listOf (push parseAssignment) [] := fun _ =>
    (follows_listOf (follows_push (hassignment _))).comp fun _ => []
  exact (hx.follows_expectIdentifierOwned _).bind <|
    (hx.follows_expectKeyword (by decide) (by decide)).bind <| (hassignments _).bind <|
    (follows_optionally (tests_keyword (by decide)) follows_parseExpression).bind skip

theorem follows_parseCall : x.Follows g .any blind fun _ : ι => parseCall :=
  (hx.follows_expectIdentifierOwned _).bind <|
    test (tests_symbol (by decide)) ((follows_values _).bind skip) skip

theorem follows_parseDropTable : x.Follows g .any blind fun _ : ι => parseDropTable :=
  test (hx.tests (by decide) (by decide))
    ((hx.follows_expectKeyword (by decide) (by decide)).bind <|
      (hx.follows_expectIdentifierOwned _).bind skip)
    ((hx.follows_expectIdentifierOwned _).bind skip)

/-- The type of a parameter. -/
theorem follows_parseColumnType : x.Follows g .any blind fun _ : ι => parseColumnType := by
  intro w _ _ _ _
  have hkeyword : ∀ words : List String, (∀ word ∈ words, IsWord (ascii word) ∧ word ≠ "AS") →
      ∀ {w w' token token'}, x.Reading w w' token token' →
      isKeyword words token' = isKeyword words token := fun words hwords _ _ _ _ hr =>
    (@legible_isKeyword x .any hx words hwords).reading hr
  have hpure : ∀ {w'} (type : Ast.ColumnType), x.Sim (fun w' a a' => x.On .any w' ∧
      x.Agree blind w' a a') w' (pure type) (pure type) := fun type => .pure ⟨x.on_any _, .refl _ _ _⟩
  refine sim_expectToken (fun token ht => ?_) fun w' token token' hr => ?_
  · rw [ht.name (hx.on _ w)]
    exact rejects_failToken _ _ _
  · rw [isIdentifier_of_reading hr, hkeyword _ (by decide) hr, hkeyword _ (by decide) hr,
      hkeyword _ (by decide) hr, hkeyword _ (by decide) hr, hkeyword _ (by decide) hr,
      hkeyword _ (by decide) hr]
    refine .ite (fun _ => .fail) fun _ => .ite (fun _ => hpure _) fun _ =>
      .ite (fun _ => hpure _) fun _ => .ite (fun _ => hpure _) fun _ =>
      .ite (fun _ => hpure _) fun _ => .ite (fun _ => hpure _) fun _ => .ite (fun _ => ?_)
      fun _ => .fail
    exact follows_dimension (ι := Unit) w' () () (hx.on .any w') fun _ => rfl

theorem follows_procedureHead : x.Follows g .any blind fun _ : ι => procedureHead := by
  have hparam : x.Follows .fresh .any blind parseParam.param :=
    (hx.follows_expectIdentifierOwned _).bind <| hx.follows_parseColumnType.bind skip
  have hout : x.Legible .fresh .source (isKeyword ["OUT", "INOUT"]) :=
    hx.legible_isKeyword (by decide)
  have hparams : x.Follows .fresh .any blind parseParam := by
    rw [funext parseParam_eq]
    exact test (hx.tests (by decide) (by decide)) hparam <|
      test (tests_nextIs hout) (follows_failCurrent _ _) hparam
  have hlist : ∀ κ, x.Follows .fresh .fresh blind fun _ : κ => listUntil ")" parseParam [] :=
    fun _ => (follows_listUntil (by decide) hparams).comp fun _ => []
  exact (hx.follows_expectIdentifierOwned _).bind <|
    test (tests_symbol (by decide)) ((hlist _).bind skip) (stay.bind skip)

end Plain

/-! ## Statements -/

/-- The statements that the texts `x` relates are parsed to alike. -/
def Readable (x : Tandem) : Ast.Statement → Prop
  | .select _ | .createView _ => True
  | .createTable _ | .createProcedure _ => False
  | _ => x.Plain

theorem tests_start (hword : StartWord word) : x.Tests .start .start (matchKeyword word) :=
  tests_accept (legible_start hword)

variable {Q : Ast.Statement → Prop} (hQ : ∀ statement, Q statement → x.Readable statement)

include hQ

theorem covers_parseCreate : x.Covers .start Q textless parseCreate := by
  have hview : x.Follows .start .any blind fun _ : Unit => viewQuery :=
    ((follows_expectIdentifierOwned _).weaken x.on_fresh).bind <|
      (follows_expectSuch legible_as).bind <| (follows_expectKeyword (by decide)).bind <|
      follows_parseSelectAfterSelect.bind skip
  refine covers_test (tests_start (by decide)) (covers_exempt fun _ => hQ _) <|
    covers_test (tests_start (by decide)) ?_ <|
    covers_test (tests_start (by decide)) (covers_exempt fun _ => hQ _)
      (covers_fail _ _)
  intro w hw l l' hat statement rest hrun _
  obtain ⟨view, hview', rfl⟩ := return_eq_ok.1 hrun
  rw [viewQuery_eq] at hview
  obtain ⟨w', parts, rest', hrun', -, hrest, -, hsame, -⟩ := hview w () () hw (fun _ => rfl) l l'
    hat _ rest (return_eq_ok.2 ⟨view, hview', rfl⟩)
  obtain ⟨copy, hcopy, hparts⟩ := return_eq_ok.1 hrun'
  refine ⟨w', .createView copy, rest', return_eq_ok.2 ⟨copy, hcopy, rfl⟩, hrest, fun hs => ?_⟩
  obtain ⟨hname, hquery⟩ := Prod.mk.inj ((hsame hs).trans hparts.symm)
  rw [textless, textless, hname, hquery]

theorem covers_parseDrop : x.Covers .start Q textless parseDrop :=
  covers_test (tests_start (by decide)) (covers_return fun ⟨_, h⟩ => (hQ _ h).follows_parseDropTable) <|
    covers_test (tests_start (by decide))
      (covers_return fun ⟨_, h⟩ => (hQ _ h).follows_expectIdentifierOwned _) <|
    covers_test (tests_start (by decide))
      (covers_return fun ⟨_, h⟩ => (hQ _ h).follows_expectIdentifierOwned _) (covers_fail _ _)

/-- **Such statements are parsed alike.** -/
theorem covers_parseStatement : x.Covers .start Q textless parseStatement :=
  covers_test (tests_start (by decide)) (covers_parseCreate hQ) <|
    covers_test (tests_start (by decide)) (covers_parseDrop hQ) <|
    covers_test (tests_start (by decide))
      (covers_return fun ⟨_, h⟩ => (hQ _ h).follows_parseInsert) <|
    covers_test (tests_start (by decide))
      (covers_return fun _ => follows_parseSelectAfterSelect.weaken x.on_fresh) <|
    covers_test (tests_start (by decide)) (covers_return fun _ =>
      (follows_parseSelectAfterWith fun _ => follows_parseSelectAfterSelect).weaken x.on_fresh) <|
    covers_test (tests_start (by decide))
      (covers_return fun ⟨_, h⟩ => (hQ _ h).follows_parseUpdate) <|
    covers_test (tests_start (by decide)) (covers_return fun _ => follows_parseDelete) <|
    covers_test (tests_start (by decide)) (covers_pure _) <|
    covers_test (tests_start (by decide)) (covers_pure _) <|
    covers_test (tests_start (by decide)) (covers_pure _) <|
    covers_test (tests_start (by decide))
      (covers_return fun ⟨_, h⟩ => (hQ _ h).follows_parseCall) (covers_fail _ _)

end Tandem

/-! ## What is not read in step -/

variable {input : Input} {l rest : List Token}

/-- The definition of a table ends with a parenthesis. -/
theorem parseCreateTable_closed {table : CreateTableStatement}
    (h : parseCreateTable.run input l = .ok (table, rest)) :
    ∃ token, token :: rest <:+ l ∧ isSymbol ")" token = true := by
  obtain ⟨_, l₁, h₁, h⟩ := bind_eq_ok.1 h
  obtain ⟨_, l₂, h₂, h⟩ := bind_eq_ok.1 h
  obtain ⟨_, l₃, h₃, h⟩ := bind_eq_ok.1 h
  obtain ⟨_, hlist, -⟩ := return_eq_ok.1 h
  obtain ⟨token, htoken, hclosing⟩ := listUntil_closed hlist
  exact ⟨token, htoken.trans <| ((expectSymbol _).suffix h₃).trans <|
    ((expectIdentifierOwned _).suffix h₂).trans (parseIfNotExists.suffix h₁), hclosing⟩

/-- **And so does its text**, but for semicolons. -/
theorem last_of_createTable {parseFloat : Bytes → Option UInt64} {sql : Bytes}
    {table : CreateTableStatement} (h : parse parseFloat sql = .ok (.createTable table)) :
    ∃ token ∈ (tokenize sql).getLast?, token.kind = .symbol := by
  obtain ⟨-, rest, hrun, hrest⟩ := parse_eq_ok.1 h
  obtain ⟨create, l₁, htokens, -, hcreate⟩ := parseStatement_create (by trivial) hrun
  rcases parseCreate_eq_ok hcreate with ⟨table', word, l₂, -, rfl, htable⟩ |
    ⟨_, _, _, heq, -, -⟩ | ⟨_, _, _, heq, -, -, -⟩
  · obtain ⟨token, htoken, hclosing⟩ := parseCreateTable_closed htable
    have hsuffix : token :: rest <:+ tokenize sql := by
      rw [htokens]
      exact htoken.trans ((List.suffix_cons word l₂).trans (List.suffix_cons create _))
    have hsymbols : ∀ t ∈ token :: rest, t.kind = .symbol := by
      intro t ht
      rcases List.mem_cons.1 ht with rfl | ht
      · exact (kind_of_isSymbol hclosing).1
      · exact (kind_of_isSymbol (List.dropWhile_eq_nil_iff.1 hrest t ht)).1
    obtain ⟨before, hbefore⟩ := hsuffix
    have hlast := List.getLast?_eq_some_getLast (List.cons_ne_nil token rest)
    rw [← hbefore, List.getLast?_append_of_ne_nil _ (List.cons_ne_nil token rest), hlast]
    exact ⟨_, rfl, hsymbols _ (List.getLast_mem _)⟩
  · cases heq
  · cases heq

/-- The end of a body lies behind what every token of it ends behind. -/
theorem lt_endAmong {n bodyEnd : ℕ} {tokens : List Token} (hend : n < bodyEnd)
    (h : ∀ token ∈ tokens, n < token.offset + token.lexeme.length) :
    n < endAmong tokens bodyEnd := by
  induction tokens generalizing bodyEnd with
  | nil => exact hend
  | cons token tokens ih =>
    rw [List.forall_mem_cons] at h
    refine ih ?_ h.2
    dsimp only
    split
    · exact h.1
    · exact hend

/-- **A procedure is accepted if its head is followed by a token.** -/
theorem parseCreateProcedure_of_head {head : Bytes × List ProcedureParam} {body : Token}
    {more : List Token} (hhead : procedureHead.run input l = .ok (head, body :: more))
    (hbody : body :: more <:+ tokenize input.sql) :
    ∃ procedure, parseCreateProcedure.run input l = .ok (procedure, []) := by
  obtain ⟨-, htokens, -⟩ := Tokenizer.tokens_of_suffix hbody
  have hlexeme : ∀ token ∈ body :: more, 0 < token.lexeme.length := fun token htoken =>
    List.length_pos_iff.2 (Tokenizer.lexeme_ne_nil (hbody.subset htoken))
  have hfirst := hlexeme body List.mem_cons_self
  have hroom : body.offset < endAmong (body :: more) input.sql.length := by
    refine lt_endAmong ?_ fun token htoken => ?_
    · have hle := Tokenizer.end_le_of_cons htokens
      rw [List.length_drop] at hle
      omega
    · rcases List.mem_cons.1 htoken with rfl | hmore
      · omega
      · have hle := Tokenizer.offset_le_of_cons htokens hmore
        omega
  refine ⟨⟨head.1, head.2, trim (slice input.sql body.offset
    (endAmong (body :: more) input.sql.length))⟩, ?_⟩
  rw [parseCreateProcedure_eq]
  refine bind_eq_ok.2 ⟨head, body :: more, hhead, ?_⟩
  refine bind_eq_ok.2 ⟨body.offset, body :: more, rfl, ?_⟩
  refine bind_eq_ok.2 ⟨endAmong (body :: more) input.sql.length, [], bodyEnd_run _ _ _, ?_⟩
  rw [if_neg (Nat.not_le.2 hroom)]
  rfl

/-- **The tokens define a procedure**: the two words, a head and a body of
one token at least. -/
def DefinesProcedure (input : Input) (tokens : List Token) : Prop :=
  ∃ create word l head body more, tokens = create :: word :: l ∧
    create.eqlIgnoreCase (ascii "CREATE") = true ∧ word.eqlIgnoreCase (ascii "PROCEDURE") = true ∧
    procedureHead.run input l = .ok (head, body :: more)

theorem parse_procedure {parseFloat : Bytes → Option UInt64} {sql : Bytes} :
    (∃ procedure, parse parseFloat sql = .ok (.createProcedure procedure)) ↔
      firstViolation sql = none ∧ DefinesProcedure ⟨sql, parseFloat⟩ (tokenize sql) := by
  constructor
  · rintro ⟨procedure, h⟩
    obtain ⟨hpolicy, rest, hrun, -⟩ := parse_eq_ok.1 h
    obtain ⟨create, word, l, htokens, hcreate, hword, hparse⟩ := parseStatement_createProcedure hrun
    obtain ⟨head, body, more, hhead, -⟩ := parseCreateProcedure_eq_ok hparse
    exact ⟨hpolicy, create, word, l, head, body, more, htokens, hcreate, hword, hhead⟩
  · rintro ⟨hpolicy, create, word, l, head, body, more, htokens, hcreate, hword, hhead⟩
    have hbody : body :: more <:+ tokenize sql := by
      rw [htokens]
      exact (procedureHead.suffix hhead).trans
        ((List.suffix_cons word l).trans (List.suffix_cons create _))
    obtain ⟨procedure, hparse⟩ := parseCreateProcedure_of_head hhead hbody
    refine ⟨procedure, parse_eq_ok.2 ⟨hpolicy, [], ?_, rfl⟩⟩
    rw [htokens, parseStatement, run_keyword_take hcreate, parseCreate,
      run_keyword_skip hword (by decide), run_keyword_skip hword (by decide),
      run_keyword_take hword]
    exact return_eq_ok.2 ⟨procedure, hparse, rfl⟩

/-! ## Tables -/

section Tables

variable {input : Input} {l : List Token}

theorem attributeRound_of_freesDefault {attributes : ColumnAttributes}
    (h : freesDefault input attributes l = true) :
    ∃ e, (attributeRound attributes).run input l = .error e := by
  cases l with
  | nil => cases h
  | cons token l =>
    rw [freesDefault, Bool.and_eq_true, Bool.and_eq_true] at h
    obtain ⟨⟨-, hdefault⟩, hfails⟩ := h
    cases hrun : parseExpression.run input l with
    | ok result =>
      rw [hrun] at hfails
      cases hfails
    | error e =>
      have hsymbol : ∀ symbol, isSymbol symbol token = false := fun symbol => by
        rw [Token.eqlIgnoreCase, Bool.and_eq_true, decide_eq_true_iff] at hdefault
        rw [isSymbol, hdefault.1]
        rfl
      have hinside : isAtColumnDefinitionBoundary.run input (token :: l) =
          .ok (false, token :: l) := by
        show Except.ok (isSymbol "," token || isSymbol ")" token, token :: l) = _
        rw [hsymbol, hsymbol, Bool.or_false]
      refine ⟨e, ?_⟩
      rw [attributeRound, run_bind, hinside]
      show Parse.run (matchKeyword "PRIMARY" >>= _) input (token :: l) = _
      rw [run_keyword_skip hdefault (by decide), run_keyword_skip hdefault (by decide),
        run_keyword_skip hdefault (by decide), run_keyword_take hdefault, run_bind, hrun]

theorem listUntilRound_of_freesInColumn (items : List Ast.ColumnDef × List Ast.IndexDef)
    (h : freesInColumn input l = true) :
    ∃ e, (listUntilRound ")" parseTableItem items).run input l = .error e := by
  cases l with
  | nil => cases h
  | cons token l =>
    rw [freesInColumn, Bool.and_eq_true, Bool.and_eq_true, Bool.not_eq_true'] at h
    obtain ⟨⟨hidentifier, hindex⟩, h⟩ := h
    split at h
    · rename_i type mid htype
      have hfails : ∀ a l, freesDefault input a l = true →
          ∃ e, (attributeRound a).run input l = .error e :=
        fun _ _ => attributeRound_of_freesDefault
      obtain ⟨e, hattributes⟩ : ∃ e, parseColumnAttributes.run input mid = .error e :=
        loop_of_comesTo hfails h
      have hsymbol : isSymbol ")" token = false := by
        rw [isSymbol, of_decide_eq_true hidentifier]
        rfl
      have hstart : isTableIndexStart.run input (token :: l) = .ok (false, token :: l) :=
        congrArg (fun b => Except.ok (b, token :: l)) hindex
      have hname : (expectIdentifierOwned "column name").run input (token :: l) =
          .ok (normalizedIdentifier token, l) := by
        show Parse.run (do return normalizedIdentifier (←
          (if isIdentifier token = true then pure token else _))) input l = _
        rw [if_pos hidentifier]
        rfl
      refine ⟨e, ?_⟩
      rw [listUntilRound, run_bind, matchSymbol, accept_cons, hsymbol, if_neg Bool.false_ne_true]
      simp only [parseTableItem, run_bind, hstart, hname, htype, hattributes,
        if_neg Bool.false_ne_true]
    · cases h

/-- **A text in which a default is freed twice is refused.** -/
theorem parseStatement_of_freesTwice (h : freesTwice input l = true) :
    ∃ e, parseStatement.run input l = .error e := by
  unfold freesTwice at h
  split at h
  · rename_i create table l
    rw [Bool.and_eq_true, Bool.and_eq_true] at h
    obtain ⟨⟨hcreate, htable⟩, h⟩ := h
    split at h
    · rename_i head mid hhead
      obtain ⟨ifNotExists, l₁, hif, hhead⟩ := bind_eq_ok.1 hhead
      obtain ⟨name, l₂, hname, hopen⟩ := bind_eq_ok.1 hhead
      obtain ⟨e, he⟩ := loop_of_comesTo (fun items _ => listUntilRound_of_freesInColumn items) h
      have hlist : (listUntil ")" parseTableItem ([], [])).run input mid = .error e := he
      refine ⟨e, ?_⟩
      rw [parseStatement, run_keyword_take hcreate, parseCreate, run_keyword_take htable]
      simp only [run_bind, parseCreateTable, hif, hname, hopen, hlist]
    · cases h
  · cases h

end Tables

end Sql

/-- It is answered with a diagnostic. -/
def Diagnosed {ε α : Type} (result : Except ε α) : Prop := ∀ a, result ≠ .ok a

theorem Diagnosed.congr {ε α : Type} {result result' : Except ε α}
    (h : (∃ a, result = .ok a) ↔ ∃ a, result' = .ok a) : Diagnosed result ↔ Diagnosed result' := by
  unfold Diagnosed
  rw [← not_exists, ← not_exists, h]

end Shoveler
