import Shoveler.Frontend.Queries

/-!
# The text of a view

`CREATE VIEW` keeps the text of its query, cut out of its own text and
trimmed. Parsed again that text gives a query with a source where the
first had one, and the very same query if every quoted token is closed
(`parse_bodySql`).
-/

namespace Shoveler

namespace Sql

open Parse Ast

variable {α β : Type} {input : Input} {l rest : List Token}

/-! ## What a statement was parsed from -/

theorem test_eq_ok {t : Parser Bool} {p q : Parser α} {a : α} :
    (t >>= fun b => if b = true then p else q).run input l = .ok (a, rest) ↔
      (∃ mid, t.run input l = .ok (true, mid) ∧ p.run input mid = .ok (a, rest)) ∨
        ∃ mid, t.run input l = .ok (false, mid) ∧ q.run input mid = .ok (a, rest) := by
  rw [bind_eq_ok]
  constructor
  · rintro ⟨b, mid, ht, hb⟩
    cases b with
    | true => exact .inl ⟨mid, ht, hb⟩
    | false => exact .inr ⟨mid, ht, hb⟩
  · rintro (⟨mid, ht, hp⟩ | ⟨mid, ht, hq⟩)
    · exact ⟨true, mid, ht, hp⟩
    · exact ⟨false, mid, ht, hq⟩

theorem return_eq_ok {p : Parser α} {f : α → β} {b : β} :
    (p >>= fun a => pure (f a)).run input l = .ok (b, rest) ↔
      ∃ a, p.run input l = .ok (a, rest) ∧ f a = b := by
  rw [bind_eq_ok]
  constructor
  · rintro ⟨a, mid, hp, hb⟩
    obtain ⟨rfl, rfl⟩ := Prod.mk.inj (Except.ok.inj hb)
    exact ⟨a, hp, rfl⟩
  · rintro ⟨a, hp, rfl⟩
    exact ⟨a, rest, hp, rfl⟩

/-- A token that must be as wanted is. -/
theorem expectSuch_eq_ok {wanted : Token → Bool} {expected : String} {mid : List Token} {u : Unit}
    (h : (expectToken expected >>= fun token =>
      if wanted token = true then pure () else failToken token .unexpectedToken expected).run
        input l = .ok (u, mid)) : ∃ token, l = token :: mid ∧ wanted token = true := by
  obtain ⟨token, l', htoken, h⟩ := bind_eq_ok.1 h
  cases l with
  | nil => cases htoken
  | cons t l =>
    obtain ⟨rfl, rfl⟩ := Prod.mk.inj (Except.ok.inj htoken)
    split at h
    · rename_i hw
      obtain ⟨-, rfl⟩ := Prod.mk.inj (Except.ok.inj h)
      exact ⟨t, rfl, hw⟩
    · cases h

theorem accept_true {wanted : Token → Bool} {mid : List Token}
    (h : (accept wanted : Parser Bool).run input l = .ok (true, mid)) :
    ∃ token, l = token :: mid ∧ wanted token = true := by
  cases l with
  | nil => cases h
  | cons token l =>
    rw [accept_cons] at h
    split at h
    · rename_i hw
      obtain ⟨-, rfl⟩ := Prod.mk.inj (Except.ok.inj h)
      exact ⟨token, rfl, hw⟩
    · cases h

/-- A statement that something is created by. -/
def IsCreate : Ast.Statement → Prop
  | .createTable _ | .createView _ | .createProcedure _ => True
  | _ => False

theorem ensures_failCurrent {P : α → Prop} (code : DiagnosticCode) (expected : String) :
    Parse.Ensures P (failCurrent code expected) := fun _ _ _ _ h => absurd h failCurrent_ne_ok

/-- A word that starts a statement of another kind, before the words that
are tried after it. -/
theorem ensures_not_isCreate {p : Parser α} {f : α → Ast.Statement} {q : Parser Ast.Statement}
    {word : String} (hf : ∀ a, ¬IsCreate (f a)) (hq : Parse.Ensures (fun s => ¬IsCreate s) q) :
    Parse.Ensures (fun s => ¬IsCreate s) (matchKeyword word >>= fun b =>
      if b = true then p >>= fun a => pure (f a) else q) :=
  .after fun _ => .ite (.after fun a => .pure (hf a)) hq

theorem ensures_parseDrop : Parse.Ensures (fun s => ¬IsCreate s) parseDrop :=
  ensures_not_isCreate (fun _ => id) <| ensures_not_isCreate (fun _ => id) <|
    ensures_not_isCreate (fun _ => id) <| ensures_failCurrent _ _

/-- **Only `CREATE` creates.** -/
theorem parseStatement_create {statement : Ast.Statement} (hcreate : IsCreate statement)
    (h : parseStatement.run input l = .ok (statement, rest)) :
    ∃ token l', l = token :: l' ∧ token.eqlIgnoreCase (ascii "CREATE") = true ∧
      parseCreate.run input l' = .ok (statement, rest) := by
  rw [parseStatement] at h
  rcases test_eq_ok.1 h with ⟨l₁, h₁, hthen⟩ | ⟨l₁, -, helse⟩
  · obtain ⟨token, rfl, hword⟩ := accept_true h₁
    exact ⟨token, l₁, rfl, hword, hthen⟩
  · refine absurd hcreate (Parse.Ensures.of_run (P := fun s => ¬IsCreate s) helse (.after fun _ => ?_))
    have hword : ∀ {statement : Ast.Statement} {q : Parser Ast.Statement} {word : String},
        ¬IsCreate statement → Parse.Ensures (fun s => ¬IsCreate s) q →
        Parse.Ensures (fun s => ¬IsCreate s) (matchKeyword word >>= fun b =>
          if b = true then pure statement else q) := fun hs hq => .after fun _ => .ite (.pure hs) hq
    refine .ite ensures_parseDrop <| ensures_not_isCreate (fun _ => id) <|
      ensures_not_isCreate (fun _ => id) <| ensures_not_isCreate (fun _ => id) <|
      ensures_not_isCreate (fun _ => id) <| ensures_not_isCreate (fun _ => id) <|
      hword id <| hword id <| hword id <| ensures_not_isCreate (fun _ => id) <|
      ensures_failCurrent _ _

/-- What is created is what the word behind `CREATE` says. -/
theorem parseCreate_eq_ok {statement : Ast.Statement}
    (h : parseCreate.run input l = .ok (statement, rest)) :
    (∃ table token l', statement = .createTable table ∧ l = token :: l' ∧
        parseCreateTable.run input l' = .ok (table, rest)) ∨
      (∃ view token l', statement = .createView view ∧ l = token :: l' ∧
        parseCreateView.run input l' = .ok (view, rest)) ∨
      ∃ procedure token l', statement = .createProcedure procedure ∧ l = token :: l' ∧
        token.eqlIgnoreCase (ascii "PROCEDURE") = true ∧
        parseCreateProcedure.run input l' = .ok (procedure, rest) := by
  rw [parseCreate] at h
  rcases test_eq_ok.1 h with ⟨l₁, h₁, hthen⟩ | ⟨l₁, h₁, hnext⟩
  · obtain ⟨token, rfl, -⟩ := accept_true h₁
    obtain ⟨table, htable, rfl⟩ := return_eq_ok.1 hthen
    exact .inl ⟨table, token, l₁, rfl, rfl, htable⟩
  rw [accept_false h₁] at hnext
  rcases test_eq_ok.1 hnext with ⟨l₂, h₂, hthen⟩ | ⟨l₂, h₂, hlast⟩
  · obtain ⟨token, rfl, -⟩ := accept_true h₂
    obtain ⟨view, hview, rfl⟩ := return_eq_ok.1 hthen
    exact .inr (.inl ⟨view, token, l₂, rfl, rfl, hview⟩)
  rw [accept_false h₂] at hlast
  rcases test_eq_ok.1 hlast with ⟨l₃, h₃, hthen⟩ | ⟨l₃, -, hfail⟩
  · obtain ⟨token, rfl, hword⟩ := accept_true h₃
    obtain ⟨procedure, hprocedure, rfl⟩ := return_eq_ok.1 hthen
    exact .inr (.inr ⟨procedure, token, l₃, rfl, rfl, hword, hprocedure⟩)
  · exact absurd hfail failCurrent_ne_ok

/-- **Only `CREATE VIEW` makes a view.** -/
theorem parseStatement_createView {view : CreateViewStatement}
    (h : parseStatement.run input l = .ok (.createView view, rest)) :
    ∃ l', l' <:+ l ∧ parseCreateView.run input l' = .ok (view, rest) := by
  obtain ⟨token, l₁, rfl, -, h⟩ := parseStatement_create (by trivial) h
  rcases parseCreate_eq_ok h with ⟨table, word, l₂, heq, -, -⟩ | ⟨view', word, l₂, heq, rfl, hview⟩ |
    ⟨procedure, word, l₂, heq, -, -, -⟩
  · cases heq
  · obtain rfl := Statement.createView.inj heq
    exact ⟨l₂, (List.suffix_cons word l₂).trans (List.suffix_cons token _), hview⟩
  · cases heq

/-- **And only `CREATE PROCEDURE` makes a procedure.** -/
theorem parseStatement_createProcedure {procedure : ProcedureStatement}
    (h : parseStatement.run input l = .ok (.createProcedure procedure, rest)) :
    ∃ create word l', l = create :: word :: l' ∧
      create.eqlIgnoreCase (ascii "CREATE") = true ∧
      word.eqlIgnoreCase (ascii "PROCEDURE") = true ∧
      parseCreateProcedure.run input l' = .ok (procedure, rest) := by
  obtain ⟨create, l₁, rfl, hcreate, h⟩ := parseStatement_create (by trivial) h
  rcases parseCreate_eq_ok h with ⟨table, word, l₂, heq, -, -⟩ | ⟨view', word, l₂, heq, -, -⟩ |
    ⟨procedure', word, l₂, heq, rfl, hword, hprocedure⟩
  · cases heq
  · cases heq
  · obtain rfl := Statement.createProcedure.inj heq
    exact ⟨create, word, l₂, rfl, hcreate, hword, hprocedure⟩

/-- A query without a source names no table. -/
theorem ensures_fromName : Parse.Ensures (fun query : SelectStatement =>
    query.source = none → query.fromName = none) parseSelectAfterSelect := by
  rw [parseSelectAfterSelect_eq]
  refine .after fun projections => .after fun source => .after fun whereClause =>
    .after fun groupBy => .after fun having => .after fun orderBy => .after fun limit => .pure ?_
  rintro rfl
  rfl

theorem currentOffset_run (input : Input) (l : List Token) :
    currentOffset.run input l = .ok ((l.head?.map Token.offset).getD input.sql.length, l) := by
  cases l with
  | nil => rfl
  | cons token l => rfl

/-- The parts of `CREATE VIEW`: the word `SELECT` with the query behind
it, and the text between that word and what follows the query. -/
theorem parseCreateView_eq_ok {view : CreateViewStatement}
    (h : parseCreateView.run input l = .ok (view, rest)) :
    ∃ token more, token :: more <:+ l ∧ token.eqlIgnoreCase (ascii "SELECT") = true ∧
      parseSelectAfterSelect.run input more = .ok (view.query, rest) ∧
      view.bodySql = trim (slice input.sql token.offset
        ((rest.head?.map Token.offset).getD input.sql.length)) := by
  obtain ⟨name, l₁, h₁, h⟩ := bind_eq_ok.1 h
  obtain ⟨_, l₂, h₂, h⟩ := bind_eq_ok.1 h
  obtain ⟨peeked, l₃, h₃, h⟩ := bind_eq_ok.1 h
  obtain ⟨rfl, rfl⟩ := Prod.mk.inj (Except.ok.inj h₃)
  cases l₂ with
  | nil => cases h
  | cons token more =>
    obtain ⟨_, l₄, h₄, h⟩ := bind_eq_ok.1 h
    obtain ⟨token', heq, hselect⟩ := expectSuch_eq_ok h₄
    obtain ⟨rfl, rfl⟩ := List.cons.inj heq
    obtain ⟨query, l₅, hquery, h⟩ := bind_eq_ok.1 h
    obtain ⟨last, l₆, hlast, h⟩ := bind_eq_ok.1 h
    rw [currentOffset_run] at hlast
    obtain ⟨rfl, rfl⟩ := Prod.mk.inj (Except.ok.inj hlast)
    obtain ⟨rfl, rfl⟩ := Prod.mk.inj (Except.ok.inj h)
    exact ⟨token, more, ((expectKeyword _).suffix h₂).trans ((expectIdentifierOwned _).suffix h₁),
      hselect, hquery, rfl⟩

/-! ## Parsing the text again -/

/-- **A text and the copy of a part of it**: what follows the part, and
what is read in parsing the one and the other. -/
structure Excerpt where
  cut : Prop
  tail : List Token
  ends : ∀ token ∈ tail.head?, isSymbol ";" token = true
  input : Input
  copy : Input
  sameFloats : copy.parseFloat = input.parseFloat

namespace Excerpt

variable (x : Excerpt)

/-- Where the parser is: still reading the same tokens, or behind a cut
one. -/
def At : ℕ → List Token → List Token → Prop
  | 0, l, l' => Echoes x.cut x.tail l l'
  | _ + 1, l, l' => x.cut ∧ l = x.tail ∧ l' = []

/-- The tokens are the same until one is cut. -/
abbrev stages : Stages := .plain (· = 0) fun hle h => Nat.le_zero.1 (h ▸ hle)

/-- At the end of the part the text has at most a semicolon. -/
theorem dull_tail (w : ℕ) : stages.Dull w x.tail [] where
  left token htoken := by
    obtain ⟨hkind, hlexeme⟩ := Tandem.kind_of_isSymbol (x.ends token htoken)
    have hne : ∀ {kind}, kind ≠ .symbol → token.kind ≠ kind := fun h => hkind ▸ h.symm
    refine .of_kind (hne (by decide)) (hne (by decide)) (fun h => absurd h (hne (by decide)))
      (fun hsymbol => ?_) fun symbol hsymbol => ?_
    · rw [isSymbol, hlexeme, decide_eq_false (Ne.symm hsymbol), Bool.and_false]
    · rw [hlexeme]
      revert symbol
      decide
  right _ h := by cases h
  stops := by
    cases htail : x.tail with
    | nil => rfl
    | cons token tail =>
      have hsemicolon := x.ends token (by rw [htail]; rfl)
      exact (decide_eq_true (Tandem.kind_of_isSymbol hsemicolon).2).symm

theorem meets {w : ℕ} {l l' : List Token} (h : x.At w l l') : stages.Meets x.At w l l' := by
  cases w with
  | succ w =>
    obtain ⟨-, rfl, rfl⟩ := h
    exact .dull (x.dull_tail _)
  | zero =>
    have hecho : Echoes x.cut x.tail l l' := h
    cases hecho with
    | done => exact .dull (x.dull_tail 0)
    | @cut token token' hcut ht =>
      have hread : stages.Reading 0 1 token token' :=
        .of_on (fun _ _ => trivial) (Nat.zero_le 1) (.inr ⟨Nat.one_ne_zero, ht⟩)
      exact .read hread ⟨hcut, rfl, rfl⟩
    | @same token token' _ _ ht hecho =>
      have hread : stages.Reading 0 0 token token' :=
        .of_on (fun _ _ => trivial) (le_refl 0) (.inl ht)
      exact .read hread hecho

/-- **The text and the copy are parsed in step.** -/
def tandem : Tandem where
  toStages := stages
  input := x.input
  copy := x.copy
  sameFloats := x.sameFloats
  At := x.At
  next := x.meets
  ended {w l l'} h hw := by
    cases w with
    | zero => exact absurd rfl hw
    | succ w =>
      obtain ⟨-, rfl, rfl⟩ := h
      exact x.dull_tail _
  aliased _ hw := absurd trivial hw

end Excerpt

/-- A text is parsed to a statement if policy finds nothing, and nothing
but semicolons is left. -/
theorem parse_eq_ok {parseFloat : Bytes → Option UInt64} {sql : Bytes} {statement : Ast.Statement} :
    parse parseFloat sql = .ok statement ↔
      firstViolation sql = none ∧ ∃ rest,
        parseStatement.run ⟨sql, parseFloat⟩ (tokenize sql) = .ok (statement, rest) ∧
        consumeSemicolons rest = [] := by
  unfold parse
  cases firstViolation sql with
  | some violation => simp
  | none =>
    cases parseStatement.run ⟨sql, parseFloat⟩ (tokenize sql) with
    | error diagnostic => simp
    | ok result =>
      obtain ⟨statement', rest'⟩ := result
      cases hrest : consumeSemicolons rest' with
      | nil => simp [hrest]
      | cons token more =>
        constructor
        · intro h
          simp only [hrest] at h
          cases h
        · rintro ⟨-, rest, hrun, hnil⟩
          obtain ⟨-, rfl⟩ := Prod.mk.inj (Except.ok.inj hrun)
          rw [hrest] at hnil
          cases hnil

section Keywords

variable {token : Token} {word keyword : String} {p q : Parser α}

/-- The branch of another keyword is passed over. -/
theorem run_keyword_skip (hword : token.eqlIgnoreCase (ascii word) = true)
    (hne : foldCase (ascii word) ≠ foldCase (ascii keyword)) :
    (matchKeyword keyword >>= fun b => if b = true then p else q).run input (token :: l) =
      q.run input (token :: l) := by
  have hother : token.eqlIgnoreCase (ascii keyword) = false := by
    rw [Token.eqlIgnoreCase, Bool.and_eq_true] at hword
    rw [Token.eqlIgnoreCase, hword.1, Bool.true_and]
    refine decide_eq_false fun hsame => hne ?_
    rw [← namesEqual_iff.1 hword.2, hsame]
  rw [run_bind, matchKeyword, accept_cons, hother, if_neg Bool.false_ne_true]
  rfl

/-- And its own taken. -/
theorem run_keyword_take (hword : token.eqlIgnoreCase (ascii keyword) = true) :
    (matchKeyword keyword >>= fun b => if b = true then p else q).run input (token :: l) =
      p.run input l := by
  rw [run_bind, matchKeyword, accept_cons, if_pos hword]
  rfl

/-- A text that starts with `SELECT` is a query. -/
theorem parseStatement_select {query : SelectStatement}
    (hselect : token.eqlIgnoreCase (ascii "SELECT") = true)
    (h : parseSelectAfterSelect.run input l = .ok (query, rest)) :
    parseStatement.run input (token :: l) = .ok (.select query, rest) := by
  rw [parseStatement, run_keyword_skip hselect (by decide), run_keyword_skip hselect (by decide),
    run_keyword_skip hselect (by decide), run_keyword_take hselect]
  exact return_eq_ok.2 ⟨query, h, rfl⟩

end Keywords

/-- What is left behind a statement is nothing but semicolons. -/
theorem ends_of_consumeSemicolons (h : consumeSemicolons rest = []) :
    ∀ token ∈ rest.head?, isSymbol ";" token = true := by
  intro token htoken
  exact List.dropWhile_eq_nil_iff.1 h token (List.mem_of_mem_head? htoken)

/-- **The text of a view is parsed again**: to a query, with a source if
the view has one, without which the view names no table; to the query of
the view, if no quoted token of the statement is left open. -/
theorem parse_bodySql {parseFloat : Bytes → Option UInt64} {sql : Bytes}
    {view : CreateViewStatement} (h : parse parseFloat sql = .ok (.createView view)) :
    ∃ query, parse parseFloat view.bodySql = .ok (.select query) ∧
      query.source.isSome = view.query.source.isSome ∧
      (view.query.source = none → view.query.fromName = none) ∧
      ((∀ token ∈ tokenize sql, token.terminated = true) → query = view.query) := by
  obtain ⟨hpolicy, rest, hstatement, hrest⟩ := parse_eq_ok.1 h
  obtain ⟨l, hl, hview⟩ := parseStatement_createView hstatement
  obtain ⟨token, more, hmore, hselect, hquery, hbody⟩ := parseCreateView_eq_ok hview
  have hsuffix := hmore.trans hl
  let x : Excerpt :=
    { cut := HasOpen (tokenize sql)
      tail := rest
      ends := ends_of_consumeSemicolons hrest
      input := ⟨sql, parseFloat⟩
      copy := ⟨view.bodySql, parseFloat⟩
      sameFloats := rfl }
  have hwhole := echoes_excerpt hsuffix (parseSelectAfterSelect.suffix hquery) rfl
  rw [← hbody] at hwhole
  have hpolicy' := firstViolation_excerpt hpolicy hsuffix hwhole
  obtain ⟨token', more', htokens, hsame, hecho⟩ := hwhole.of_keyword hselect (by decide)
    (parseSelectAfterSelect.suffix hquery)
  obtain ⟨w, query, rest', hrun, -, hat, -, hagree, hsource⟩ :=
    @Tandem.follows_parseSelectAfterSelect x.tandem Unit 0 () () trivial (fun _ => rfl) more more'
      hecho _ _ hquery
  have hselect' : token'.eqlIgnoreCase (ascii "SELECT") = true := by
    rw [hsame.eqlIgnoreCase]
    exact hselect
  have hstatement' : parseStatement.run ⟨view.bodySql, parseFloat⟩ (tokenize view.bodySql) =
      .ok (.select query, rest') := by
    rw [htokens]
    exact parseStatement_select hselect' hrun
  have hnil : rest' = [] := by
    cases w with
    | zero => exact Echoes.eq_nil hat
    | succ w => exact hat.2.2
  subst hnil
  refine ⟨query, parse_eq_ok.2 ⟨hpolicy', [], hstatement', rfl⟩, hsource.symm,
    Parse.Ensures.of_run hquery ensures_fromName, fun hclosed => ?_⟩
  cases w with
  | zero => exact (hagree rfl).symm
  | succ w =>
    obtain ⟨t, hmem, hopen⟩ := hat.1
    rw [hclosed t hmem] at hopen
    cases hopen

end Sql

end Shoveler
