import Shoveler.Frontend.Literals
import Shoveler.Frontend.Statements

/-!
# String literals

A string is written between apostrophes with every apostrophe in it
doubled (`quoteLiteral`). The scanner decides at each apostrophe by the
byte behind it whether the literal ends, and the decoder takes one of two
apostrophes in a row away. The two agree with the writing: whatever the
bytes of a string are, and whatever stands behind it, the scanner reads
the literal as one token and the text behind it as if it stood alone, and
the decoder gives the string back (`string_literal_round_trip`). And every
literal that is closed is one that can be written this way.

A quote that is left open makes the token behind it the last of the text.
A literal is refused then, wherever the parser comes to it; but it does not
look into the body of a procedure, nor whether a quoted name or a text
between double quotes is closed (`open_quote_refused_iff`), and where a
column has a default already it frees that twice.
-/

namespace Shoveler

open List

open Byte (apostrophe)

/-! ## Scanning -/

/-- **And what it reads to a closing quote was written so.** -/
theorem exists_double_of_readQuoted {l : Bytes} (h : (readQuoted apostrophe l).2 = true) :
    ∃ s, l.take (readQuoted apostrophe l).1 = double s ++ [apostrophe] := by
  induction l using readQuoted_induction apostrophe with
  | hnil => cases h
  | hsingle c =>
    have hc : c = apostrophe := eq_of_beq h
    exact ⟨[], by rw [hc]; rfl⟩
  | hpaired c d rest hp ih =>
    obtain ⟨rfl, rfl⟩ := paired_apostrophe.1 hp
    rw [readQuoted_paired hp] at h ⊢
    obtain ⟨s, hs⟩ := ih h
    refine ⟨apostrophe :: s, ?_⟩
    rw [double_apostrophe, readMore, take_succ_cons, take_succ_cons, hs]
    rfl
  | hclosed c d rest hp hc =>
    rw [readQuoted_closed hp hc]
    exact ⟨[], by rw [hc]; rfl⟩
  | hplain c d rest hp hc ih =>
    rw [readQuoted_plain hp hc] at h ⊢
    obtain ⟨s, hs⟩ := ih h
    refine ⟨c :: s, ?_⟩
    rw [double_plain hc, readMore, take_succ_cons, hs]
    rfl

/-! ## Tokens -/

/-- A token further on in a text. -/
def Token.shift (n : ℕ) (token : Token) : Token := { token with offset := n + token.offset }

namespace Tokenizer

/-- **The tokens of a text do not depend on where it stands.** -/
theorem tokens_shift (n : ℕ) (rest : Bytes) (i : ℕ) :
    tokens ⟨rest, n + i⟩ = (tokens ⟨rest, i⟩).map (Token.shift n) := by
  induction rest, i using tokens_induction with
  | hnil rest i hskip => rw [tokens_of_nil _ hskip, tokens_of_nil _ hskip, map_nil]
  | hcons rest i c l hskip ih =>
    rw [tokens_of_cons _ hskip, tokens_of_cons _ hskip, map_cons, ← ih]
    simp only [Token.shift, Nat.add_assoc]

end Tokenizer

/-- The token of a literal at the start of a text. -/
def literalToken (s : Bytes) : Token := ⟨.string, quoteLiteral s, 0, true⟩

/-- **A literal in front of a text** is one token, and the text behind it
has its own tokens. -/
theorem tokenize_quoteLiteral (s : Bytes) {t : Bytes} (ht : t.head? ≠ some apostrophe) :
    tokenize (quoteLiteral s ++ t) =
      literalToken s :: (tokenize t).map (Token.shift (quoteLiteral s).length) := by
  have htext : quoteLiteral s ++ t = apostrophe :: (double s ++ apostrophe :: t) := by
    rw [quoteLiteral, cons_append, append_assoc, singleton_append]
  have hskip : skipTrivia (quoteLiteral s ++ t) = apostrophe :: (double s ++ apostrophe :: t) := by
    rw [htext]
    exact skipTrivia_of_none rfl
  have hread := readToken_quoted (Or.inl rfl : IsQuote apostrophe) (double s ++ apostrophe :: t)
  rw [readQuoted_double s ht] at hread
  -- the token takes the doubled string and the closing quote, and leaves `t`
  have hsplit : double s ++ apostrophe :: t = (double s ++ [apostrophe]) ++ t := by
    rw [append_assoc, singleton_append]
  have hlength : (double s).length + 1 = (double s ++ [apostrophe]).length := by
    rw [length_append, length_singleton]
  have htake : (double s ++ apostrophe :: t).take ((double s).length + 1) =
      double s ++ [apostrophe] := by
    rw [hsplit, hlength, take_left]
  have hdrop : (double s ++ apostrophe :: t).drop ((double s).length + 1) = t := by
    rw [hsplit, hlength, drop_left]
  have hshift := Tokenizer.tokens_shift (quoteLiteral s).length t 0
  rw [tokenize, Tokenizer.tokens_of_cons 0 hskip, hread]
  simp only [htake, hdrop, htext, length_cons, Nat.sub_self]
  rw [tokenize, ← hshift]
  refine congrArg₂ cons rfl ?_
  congr 2
  simp only [quoteLiteral, length_cons, length_append, length_nil]
  omega

/-- **A literal that is closed** decodes to a string that is written as
that literal. -/
theorem quoteLiteral_of_mem {sql : Bytes} {token : Token} (h : token ∈ tokenize sql)
    (hquote : token.lexeme.head? = some apostrophe) (hclosed : token.terminated = true) :
    ∃ s, Sql.cloneStringLiteral token = pure s ∧ quoteLiteral s = token.lexeme := by
  obtain ⟨c, l, -, hlexeme, hterminated⟩ := Tokenizer.exists_readToken h
  rw [hlexeme, head?_cons, Option.some.injEq] at hquote
  subst hquote
  rw [readToken_quoted (Or.inl rfl)] at hlexeme hterminated
  obtain ⟨s, hs⟩ := exists_double_of_readQuoted (hterminated.symm.trans hclosed)
  rw [hs] at hlexeme
  refine ⟨s, ?_, hlexeme.symm⟩
  rw [Sql.cloneStringLiteral, hlexeme, head?_cons, if_pos rfl, if_pos hclosed, tail_cons,
    dropLast_concat, undouble_double]

/-- **String literals come back as they were written**, and nothing in them
reaches the tokens behind: for every string and every text behind it that
does not start with an apostrophe the literal is one closed token with
exactly that text, the other tokens are those of the text behind, and the
token decodes to the string. Conversely every closed token between
apostrophes, of any text, is what its decoded value is written as. -/
theorem string_literal_round_trip :
    (∀ s t : Bytes, t.head? ≠ some apostrophe →
        tokenize (quoteLiteral s ++ t) =
            literalToken s :: (tokenize t).map (Token.shift (quoteLiteral s).length) ∧
          Sql.cloneStringLiteral (literalToken s) = pure s) ∧
      ∀ (sql : Bytes), ∀ token ∈ tokenize sql, token.lexeme.head? = some apostrophe →
        token.terminated = true →
        ∃ s, Sql.cloneStringLiteral token = pure s ∧ quoteLiteral s = token.lexeme := by
  refine ⟨fun s t ht => ⟨tokenize_quoteLiteral s ht, ?_⟩, fun sql token => quoteLiteral_of_mem⟩
  rw [Sql.cloneStringLiteral, literalToken, quoteLiteral, head?_cons, if_pos rfl, if_pos rfl,
    tail_cons, dropLast_concat, undouble_double]

/-- An apostrophe at each end, a comment opener and a backslash in between,
in front of another statement. -/
theorem string_literal_round_trip_quoted :
    tokenize (quoteLiteral (ascii "'--\\'") ++ ascii "; DROP") =
        literalToken (ascii "'--\\'") :: (tokenize (ascii "; DROP")).map (Token.shift 9) ∧
      Sql.cloneStringLiteral (literalToken (ascii "'--\\'")) = pure (ascii "'--\\'") :=
  string_literal_round_trip.1 (ascii "'--\\'") (ascii "; DROP") (by decide)

/-! ## Closing a quote -/

/-- The text with the quote at its end closed. The blank keeps a backslash
from taking the quote with it. -/
def closeQuote (quote : UInt8) (sql : Bytes) : Bytes := sql ++ [32, quote]

theorem IsQuote.ne_blank {quote : UInt8} (h : IsQuote quote) : 32 ≠ quote := by
  rcases h with rfl | rfl | rfl <;> decide

/-- What is open is closed by it. -/
theorem readQuoted_close {quote : UInt8} (hquote : IsQuote quote) {l : Bytes}
    (h : (readQuoted quote l).2 = false) :
    readQuoted quote (l ++ [32, quote]) = (l.length + 2, true) := by
  have hblank := hquote.ne_blank
  have hplain : ∀ d, ¬Paired quote 32 d := fun d hp =>
    hp.elim (fun h => absurd h.1 (by decide)) fun h => hblank h.1
  have hend : readQuoted quote [quote] = (1, true) := by rw [readQuoted, beq_self_eq_true]
  have hnil : readQuoted quote [32, quote] = (2, true) := by
    rw [readQuoted_plain (hplain quote) hblank, hend]
    rfl
  induction l using readQuoted_induction quote with
  | hnil => exact hnil
  | hsingle c =>
    have hc : c ≠ quote := ne_of_beq_false h
    by_cases hp : Paired quote c 32
    · rw [cons_append, nil_append, readQuoted_paired hp, hend]
      rfl
    · rw [cons_append, nil_append, readQuoted_plain hp hc, hnil]
      rfl
  | hpaired c d rest hp ih =>
    rw [readQuoted_paired hp] at h
    rw [cons_append, cons_append, readQuoted_paired hp, ih h]
    rfl
  | hclosed c d rest hp hc =>
    rw [readQuoted_closed hp hc] at h
    cases h
  | hplain c d rest hp hc ih =>
    rw [readQuoted_plain hp hc] at h
    have hmore := ih h
    rw [cons_append] at hmore
    rw [cons_append, cons_append, readQuoted_plain hp hc, hmore]
    rfl

/-- And what is closed does not go on. -/
theorem readQuoted_append_closed {quote : UInt8} (hquote : IsQuote quote) {l more : Bytes}
    (hmore : more.head? ≠ some quote) (h : (readQuoted quote l).2 = true) :
    readQuoted quote (l ++ more) = readQuoted quote l := by
  induction l using readQuoted_induction quote with
  | hnil => cases h
  | hsingle c =>
    obtain rfl : c = quote := eq_of_beq h
    cases more with
    | nil => rfl
    | cons d more =>
      have hp : ¬Paired c c d := fun hp => hp.elim (fun h => hquote.ne.2.2.2 h.1)
        fun h => hmore (congrArg some h.2)
      rw [cons_append, nil_append, readQuoted_closed hp rfl, readQuoted, beq_self_eq_true]
  | hpaired c d rest hp ih =>
    rw [readQuoted_paired hp] at h
    rw [cons_append, cons_append, readQuoted_paired hp, readQuoted_paired hp, ih h]
  | hclosed c d rest hp hc =>
    rw [cons_append, cons_append, readQuoted_closed hp hc, readQuoted_closed hp hc]
  | hplain c d rest hp hc ih =>
    rw [readQuoted_plain hp hc] at h
    rw [cons_append, cons_append, readQuoted_plain hp hc, readQuoted_plain hp hc, ← ih h]
    rfl

/-- **A token that is closed does not go on behind a blank.** -/
theorem readToken_append_closed {c : UInt8} {l more : Bytes} (h : (readToken c l).2.2 = true) :
    readToken c (l ++ 32 :: more) = readToken c l := by
  have htakeWhile : ∀ p : UInt8 → Bool, p 32 = false →
      ((l ++ 32 :: more).takeWhile p).length = (l.takeWhile p).length := by
    intro p hp
    rw [takeWhile_append, takeWhile_cons_of_neg (by rw [hp]; exact Bool.false_ne_true), append_nil]
    split
    · rename_i hall
      exact hall.symm
    · rfl
  refine readToken_cases (P := fun read read' => read'.2.2 = true → read = read')
    (l ++ 32 :: more) l (fun _ => ?_) (fun _ => ?_) (fun hquote hclosed => ?_) (fun _ => rfl) h
  · rw [htakeWhile _ (by decide)]
  · rw [htakeWhile _ (by decide)]
  · have hblank : (32 :: more).head? ≠ some c := fun h => hquote.ne_blank (Option.some.inj h)
    rw [readQuoted_append_closed hquote hblank hclosed]

/-- Only quoted tokens are left open. -/
theorem isQuote_of_open {c : UInt8} {l : Bytes} (h : (readToken c l).2.2 = false) : IsQuote c := by
  refine readToken_cases (P := fun read _ => read.2.2 = false → IsQuote c) l l ?_ ?_ ?_ ?_ h
  · exact fun h => by cases h
  · exact fun h => by cases h
  · exact fun hquote _ => hquote
  · exact fun h => by cases h

/-- Two texts that differ in their last tokens: quoted by the same quote,
and the one of them open, the other closed like all the rest. -/
structure Closes (quote : UInt8) (ts ts' : List Token) : Prop where
  isQuote : IsQuote quote
  closed : ∀ token ∈ ts', token.terminated = true
  split : ∃ before before' token token', ts = before ++ [token] ∧ ts' = before' ++ [token'] ∧
    Forall₂ Token.Same before before' ∧ token.terminated = false ∧
    token.kind = quotedKind quote ∧ token'.kind = quotedKind quote ∧
    token.lexeme.head? = some quote ∧ token'.lexeme.head? = some quote

/-- **The quote is closed**, and nothing else changes. -/
theorem closes_tokens {quote : UInt8} {rest : Bytes} {i : ℕ} {token : Token}
    (hmem : token ∈ Tokenizer.tokens ⟨rest, i⟩) (hopen : token.terminated = false)
    (hquote : token.lexeme.head? = some quote) (j : ℕ) :
    Closes quote (Tokenizer.tokens ⟨rest, i⟩) (Tokenizer.tokens ⟨closeQuote quote rest, j⟩) := by
  induction rest, i using Tokenizer.tokens_induction generalizing j with
  | hnil rest i hskip =>
    rw [Tokenizer.tokens_of_nil i hskip] at hmem
    cases hmem
  | hcons rest i c l hskip ih =>
    have hmore : skipTrivia (rest ++ [32, quote]) = c :: (l ++ [32, quote]) := by
      rcases skipTrivia_append rest [32, quote] with heq | ⟨hnil, -⟩ | ⟨d, -, hopens, -⟩
      · rw [heq, hskip]
        rfl
      · rw [hskip] at hnil
        cases hnil
      · rcases hopens with ⟨-, hd⟩ | ⟨-, hd⟩
        · exact absurd (Option.some.inj hd) (by decide)
        · exact absurd (Option.some.inj hd) (by decide)
    have hle := readToken_le c l
    rw [Tokenizer.tokens_of_cons i hskip] at hmem ⊢
    rw [closeQuote, Tokenizer.tokens_of_cons j hmore]
    by_cases hclosed : (readToken c l).2.2 = true
    · rcases mem_cons.1 hmem with rfl | hmem
      · rw [hclosed] at hopen
        cases hopen
      · rw [readToken_append_closed hclosed, take_append_of_le_length hle,
          drop_append_of_le_length hle]
        obtain ⟨hq, hall, before, before', t, t', hts, hts', hsame, hlast⟩ := ih hmem _
        rw [closeQuote] at hts' hall
        refine ⟨hq, forall_mem_cons.2 ⟨hclosed, hall⟩, ?_⟩
        rw [hts, hts']
        exact ⟨_ :: before, _ :: before', t, t', rfl, rfl, .cons ⟨rfl, rfl, rfl⟩ hsame, hlast⟩
    · -- both tokens take all there is
      have hc := isQuote_of_open (Bool.not_eq_true _ ▸ hclosed)
      have hnone : ∀ k, Tokenizer.tokens ⟨[], k⟩ = [] := fun k =>
        Tokenizer.tokens_of_nil k (skipTrivia_of_none rfl)
      have hread := readToken_quoted hc l
      rw [hread, Bool.not_eq_true] at hclosed
      rw [hread, readQuoted_open hclosed, drop_length, hnone] at hmem ⊢
      obtain rfl := mem_singleton.1 hmem
      obtain rfl : c = quote := Option.some.inj hquote
      rw [readToken_quoted hc, readQuoted_close hc hclosed]
      have hlength : l.length + 2 = (l ++ [32, c]).length := by
        rw [length_append]
        rfl
      rw [hlength, drop_length, hnone]
      exact ⟨hc, forall_mem_singleton.2 rfl, [], [], _, _, rfl, rfl, .nil, hclosed, rfl, rfl, rfl,
        rfl⟩

namespace Closes

variable {quote : UInt8} {ts ts' : List Token} (h : Closes quote ts ts')

include h

/-- The one text is read like the other. -/
theorem echoes : Echoes True [] ts ts' := by
  obtain ⟨hquote, -, before, before', token, token', rfl, rfl, hsame, hopen, hkind, hkind', hhead,
    hhead'⟩ := h
  induction hsame with
  | nil => exact .cut trivial ⟨⟨quote, hquote, hkind, hkind', hhead, hhead'⟩, fun _ => hopen⟩
  | cons hfirst _ ih => exact .same hfirst ih

/-- And the other like the one, unless the quote is an apostrophe. -/
theorem echoes_back (hplain : quote ≠ apostrophe) : Echoes True [] ts' ts := by
  obtain ⟨hquote, -, before, before', token, token', rfl, rfl, hsame, -, hkind, hkind', hhead,
    hhead'⟩ := h
  induction hsame with
  | nil =>
    refine .cut trivial ⟨⟨quote, hquote, hkind', hkind, hhead', hhead⟩, fun happ => ?_⟩
    exact absurd (Option.some.inj (hhead'.symm.trans happ)) hplain
  | cons hfirst _ ih => exact .same hfirst.symm ih

/-- Neither ends in a symbol. -/
theorem last_ne_symbol : (∀ token ∈ ts.getLast?, token.kind ≠ .symbol) ∧
    ∀ token ∈ ts'.getLast?, token.kind ≠ .symbol := by
  obtain ⟨-, -, before, before', token, token', rfl, rfl, -, -, hkind, hkind', -, -⟩ := h
  rw [getLast?_concat, getLast?_concat]
  constructor
  · rintro t ht
    rw [← Option.some.inj ht, hkind]
    exact (Sql.Tandem.quotedKind_ne quote).1
  · rintro t ht
    rw [← Option.some.inj ht, hkind']
    exact (Sql.Tandem.quotedKind_ne quote).1

end Closes

namespace Sql

open Ast

variable {parseFloat : Bytes → Option UInt64} {sql sql' : Bytes}

theorem readable_or {x : Tandem} (hx : x.Plain) (statement : Ast.Statement) :
    x.Readable statement ∨ (∃ table, statement = .createTable table) ∨
      ∃ procedure, statement = .createProcedure procedure := by
  cases statement with
  | createTable table => exact .inr (.inl ⟨table, rfl⟩)
  | createProcedure procedure => exact .inr (.inr ⟨procedure, rfl⟩)
  | createView | select => exact .inl trivial
  | _ => exact .inl hx

/-- Two texts that echo each other, to be read in step. -/
abbrev whole (parseFloat : Bytes → Option UInt64) (sql sql' : Bytes) : Excerpt where
  cut := True
  tail := []
  ends _ h := by cases h
  input := ⟨sql, parseFloat⟩
  copy := ⟨sql', parseFloat⟩
  sameFloats := rfl

theorem whole_plain : (whole parseFloat sql sql').tandem.Plain := ⟨fun _ _ => trivial, id⟩

/-- They end together. -/
theorem whole_nil {w : ℕ} {rest : List Token} (h : (whole parseFloat sql sql').At w [] rest) :
    rest = [] := by
  cases w with
  | zero => exact Echoes.eq_nil h
  | succ w => exact h.2.2

theorem whole_cons {w : ℕ} {token : Token} {more rest : List Token}
    (h : (whole parseFloat sql sql').At w (token :: more) rest) : ∃ t ts, rest = t :: ts := by
  cases w with
  | zero =>
    have hecho : Echoes True [] (token :: more) rest := h
    cases hecho with
    | cut => exact ⟨_, _, rfl⟩
    | same => exact ⟨_, _, rfl⟩
  | succ w => cases h.2.1

/-- **What is accepted of the one text is accepted of the other**, if it does
not end in a symbol. -/
theorem accepted_of_echoes (hlast : ∀ token ∈ (tokenize sql).getLast?, token.kind ≠ .symbol)
    (hecho : Echoes True [] (tokenize sql) (tokenize sql'))
    (h : ∃ statement, parse parseFloat sql = .ok statement) :
    ∃ statement, parse parseFloat sql' = .ok statement := by
  obtain ⟨statement, h⟩ := h
  rcases readable_or (@whole_plain parseFloat sql sql') statement with hreadable | ⟨table, rfl⟩ |
    ⟨procedure, rfl⟩
  · obtain ⟨hpolicy, rest, hrun, hrest⟩ := parse_eq_ok.1 h
    have hnil : rest = [] := by
      by_contra hne
      obtain ⟨before, hbefore⟩ := parseStatement.suffix hrun
      have hsymbol := dropWhile_eq_nil_iff.1 hrest _ (getLast_mem hne)
      refine hlast (rest.getLast hne) ?_ (Tandem.kind_of_isSymbol hsymbol).1
      rw [← hbefore, getLast?_append_of_ne_nil _ hne]
      exact getLast?_eq_some_getLast hne
    subst hnil
    obtain ⟨w, statement', rest', hrun', hat, -⟩ :=
      Tandem.covers_parseStatement (fun _ h => h) 0 trivial _ _ hecho statement [] hrun hreadable
    obtain rfl := whole_nil hat
    exact ⟨statement', parse_eq_ok.2 ⟨firstViolation_excerpt hpolicy (suffix_refl _) hecho, [],
      hrun', rfl⟩⟩
  · obtain ⟨token, htoken, hkind⟩ := last_of_createTable h
    exact absurd hkind (hlast token htoken)
  · obtain ⟨hpolicy, create, word, l, head, body, more, htokens, hcreate, hword, hhead⟩ :=
      parse_procedure.1 ⟨procedure, h⟩
    have hpolicy' := firstViolation_excerpt hpolicy (suffix_refl _) hecho
    rw [htokens] at hecho
    obtain ⟨create', ts, hts, hsame, hecho⟩ := hecho.of_keyword hcreate (by decide) (nil_suffix)
    obtain ⟨word', l', rfl, hsame', hecho⟩ := hecho.of_keyword hword (by decide) (nil_suffix)
    obtain ⟨w, head', rest', hrun', -, hat, -⟩ :=
      (@whole_plain parseFloat sql sql').follows_procedureHead (ι := Unit) (g := .any) 0 () ()
        trivial (fun _ => rfl) l l' hecho head (body :: more) hhead
    obtain ⟨body', more', rfl⟩ := whole_cons hat
    obtain ⟨procedure', h'⟩ := (@parse_procedure parseFloat sql').2 ⟨hpolicy', create', word', l',
      head', body', more', hts, (hsame.eqlIgnoreCase _).trans hcreate,
      (hsame'.eqlIgnoreCase _).trans hword, hrun'⟩
    exact ⟨_, h'⟩

theorem parseExpressionOnly_eq_ok {expression : Expression} :
    parseExpressionOnly parseFloat sql = .ok expression ↔
      parseExpression.run ⟨sql, parseFloat⟩ (tokenize sql) = .ok (expression, []) := by
  unfold parseExpressionOnly
  split
  · rename_i hrun
    rw [hrun]
    simp
  · rename_i hrun
    rw [hrun]
    simp
  · rename_i hrun
    rw [hrun]
    simp

/-- Expressions likewise. -/
theorem expression_of_echoes (hecho : Echoes True [] (tokenize sql) (tokenize sql'))
    (h : ∃ expression, parseExpressionOnly parseFloat sql = .ok expression) :
    ∃ expression, parseExpressionOnly parseFloat sql' = .ok expression := by
  obtain ⟨expression, h⟩ := h
  obtain ⟨w, expression', rest', hrun', -, hat, -⟩ :=
    Tandem.follows_parseExpression (x := (whole parseFloat sql sql').tandem) (ι := Unit) 0 () ()
      trivial (fun _ => rfl) _ _ hecho expression [] (parseExpressionOnly_eq_ok.1 h)
  obtain rfl := whole_nil hat
  exact ⟨expression', parseExpressionOnly_eq_ok.2 hrun'⟩

/-! ## Open literals -/

/-- The text ends in an open literal. -/
def EndsOpen (l : List Token) : Prop := ∃ token ∈ l.getLast?, token.Open

/-- **Nobody takes an open literal.** -/
theorem inert_of_open {x : Stages} {w : ℕ} {token : Token} (h : token.Open) : x.Inert w token := by
  have hne : ∀ {kind}, kind ≠ .string → token.kind ≠ kind := fun hkind => h.kind ▸ hkind.symm
  refine .of_kind (hne (by decide)) (hne (by decide)) (fun _ => h) (fun _ => ?_)
    fun symbol hsymbol hlexeme => ?_
  · rw [isSymbol, decide_eq_false (hne (by decide)), Bool.false_and]
  · have hhead := h.quote
    rw [hlexeme] at hhead
    clear hlexeme
    revert symbol
    decide

/-- A text read in step with itself, up to the open literal at its end. -/
def untilOpen (input : Input) : Tandem where
  toStages := .plain (fun _ => True) fun _ h => h
  input := input
  copy := input
  sameFloats := rfl
  At _ l l' := l' = l ∧ EndsOpen l
  next := by
    rintro w _ l ⟨rfl, last, hlast, hopen⟩
    cases l with
    | nil => cases hlast
    | cons token l =>
      cases l with
      | nil =>
        have hdull : ∀ t ∈ [token].head?, (Stages.plain (fun _ => True) fun _ h => h).Inert w t := by
          rintro t ⟨⟩
          obtain rfl : token = last := Option.some.inj hlast
          exact inert_of_open hopen
        exact .dull ⟨hdull, hdull, rfl⟩
      | cons next l =>
        exact .read (.of_on (fun _ _ => trivial) (le_refl w) (.inl ⟨rfl, rfl, rfl⟩))
          ⟨rfl, last, hlast, hopen⟩
  ended _ h := absurd trivial h
  aliased _ h := absurd trivial h

/-- **A text with an open literal at its end** is no expression, and no
statement but a procedure. -/
theorem refused_of_open (h : EndsOpen (tokenize sql)) :
    (∀ statement, parse parseFloat sql = .ok statement →
        ∃ procedure, statement = .createProcedure procedure) ∧
      ∀ expression, parseExpressionOnly parseFloat sql ≠ .ok expression := by
  have hplain : (untilOpen ⟨sql, parseFloat⟩).Plain := ⟨fun _ _ => trivial, id⟩
  constructor
  · intro statement hparse
    rcases readable_or hplain statement with hreadable | ⟨table, rfl⟩ | hprocedure
    · obtain ⟨-, rest, hrun, hrest⟩ := parse_eq_ok.1 hparse
      obtain ⟨w, _, rest', -, ⟨-, last, hlast, hopen⟩, -⟩ :=
        Tandem.covers_parseStatement (x := untilOpen ⟨sql, parseFloat⟩) (fun _ h => h) 0 trivial _ _
          ⟨rfl, h⟩ statement rest hrun hreadable
      have hsymbol := dropWhile_eq_nil_iff.1 hrest last (mem_of_getLast? hlast)
      exact absurd ((Tandem.kind_of_isSymbol hsymbol).1.symm.trans hopen.kind) (by decide)
    · obtain ⟨token, htoken, hkind⟩ := last_of_createTable hparse
      obtain ⟨last, hlast, hopen⟩ := h
      obtain rfl : token = last := Option.some.inj (htoken.symm.trans hlast)
      exact absurd (hkind.symm.trans hopen.kind) (by decide)
    · exact hprocedure
  · intro expression hparse
    obtain ⟨w, _, rest', -, -, ⟨-, last, hlast, -⟩, -⟩ :=
      Tandem.follows_parseExpression (x := untilOpen ⟨sql, parseFloat⟩) (ι := Unit) 0 () ()
        trivial (fun _ => rfl) _ _ ⟨rfl, h⟩ expression [] (parseExpressionOnly_eq_ok.1 hparse)
    cases hlast

end Sql

theorem Closes.endsOpen {ts ts' : List Token} (h : Closes apostrophe ts ts') : Sql.EndsOpen ts := by
  obtain ⟨-, -, before, before', token, token', rfl, rfl, -, hopen, hkind, -, hhead, -⟩ := h
  exact ⟨token, getLast?_concat, hkind, hhead, hopen⟩

/-- The text gets past the policy, and the parser frees memory twice. -/
def Sql.FreesTwice (parseFloat : Bytes → Option UInt64) (sql : Bytes) : Prop :=
  firstViolation sql = none ∧ freesTwice ⟨sql, parseFloat⟩ (tokenize sql) = true

/-- It would have been refused. -/
theorem Sql.FreesTwice.diagnosed {parseFloat : Bytes → Option UInt64} {sql : Bytes}
    (h : Sql.FreesTwice parseFloat sql) : Diagnosed (Sql.parse parseFloat sql) := by
  intro statement hparse
  obtain ⟨e, he⟩ := parseStatement_of_freesTwice h.2
  obtain ⟨-, rest, hrun, -⟩ := parse_eq_ok.1 hparse
  cases he.symm.trans hrun

/-- The text is answered with a diagnostic, and nothing is freed twice
before it is. -/
def Sql.ReturnsDiagnostic (parseFloat : Bytes → Option UInt64) (sql : Bytes) : Prop :=
  Diagnosed (Sql.parse parseFloat sql) ∧ ¬Sql.FreesTwice parseFloat sql

/-- **When a text with an open quote is refused.** A literal between
apostrophes that is not closed is refused in every expression and every
statement, except in the body of a procedure, which is not looked at. Of
any other quote it makes no difference whether it is closed: the text is
refused if and only if it is with the quote closed. In both cases a table
is not refused properly if a default of it is freed twice. -/
theorem open_quote_refused_iff (parseFloat : Bytes → Option UInt64) (sql : Bytes) (token : Token)
    (hmem : token ∈ tokenize sql) (hopen : token.terminated = false) :
    (token.lexeme.head? = some apostrophe →
        (Sql.ReturnsDiagnostic parseFloat sql ↔
          ¬(firstViolation sql = none ∧ Sql.DefinesProcedure ⟨sql, parseFloat⟩ (tokenize sql)) ∧
            ¬Sql.FreesTwice parseFloat sql) ∧
        Diagnosed (Sql.parseExpressionOnly parseFloat sql)) ∧
      (∀ quote, token.lexeme.head? = some quote → quote ≠ apostrophe →
        (∀ token' ∈ tokenize (closeQuote quote sql), token'.terminated = true) ∧
          (Sql.ReturnsDiagnostic parseFloat sql ↔
            Diagnosed (Sql.parse parseFloat (closeQuote quote sql)) ∧
              ¬Sql.FreesTwice parseFloat sql) ∧
          (Diagnosed (Sql.parseExpressionOnly parseFloat sql) ↔
            Diagnosed (Sql.parseExpressionOnly parseFloat (closeQuote quote sql)))) ∧
      (Sql.FreesTwice parseFloat sql → Diagnosed (Sql.parse parseFloat sql)) := by
  refine ⟨?_, ?_, Sql.FreesTwice.diagnosed⟩
  · intro hquote
    obtain ⟨hstatement, hexpression⟩ :=
      @Sql.refused_of_open parseFloat sql (closes_tokens hmem hopen hquote 0).endsOpen
    refine ⟨and_congr_left' ?_, hexpression⟩
    rw [← Sql.parse_procedure]
    constructor
    · rintro hrefused ⟨procedure, h⟩
      exact hrefused _ h
    · intro hnone statement h
      obtain ⟨procedure, rfl⟩ := hstatement statement h
      exact hnone ⟨procedure, h⟩
  · intro quote hquote hplain
    have hcloses := closes_tokens hmem hopen hquote 0
    refine ⟨hcloses.closed, and_congr_left' (Diagnosed.congr ⟨?_, ?_⟩), Diagnosed.congr ⟨?_, ?_⟩⟩
    · exact Sql.accepted_of_echoes hcloses.last_ne_symbol.1 hcloses.echoes
    · exact Sql.accepted_of_echoes hcloses.last_ne_symbol.2 (hcloses.echoes_back hplain)
    · exact Sql.expression_of_echoes hcloses.echoes
    · exact Sql.expression_of_echoes (hcloses.echoes_back hplain)

/-- The value of a row, left open. -/
theorem open_quote_refused_insert :
    Sql.ReturnsDiagnostic (fun _ => none) (ascii "INSERT INTO t VALUES ('it''s)") := by
  have hopen : ∃ token ∈ tokenize (ascii "INSERT INTO t VALUES ('it''s)"),
      token.terminated = false ∧ token.lexeme.head? = some apostrophe := by decide +kernel
  have hfirst : (tokenize (ascii "INSERT INTO t VALUES ('it''s)")).head?.map
      (Token.eqlIgnoreCase · (ascii "CREATE")) = some false := by decide +kernel
  obtain ⟨token, hmem, hterminated, hquote⟩ := hopen
  refine ((open_quote_refused_iff (fun _ => none) _ token hmem hterminated).1 hquote).1.2
    ⟨?_, fun h => absurd h.2 (by decide +kernel)⟩
  rintro ⟨-, create, word, l, head, body, more, htokens, hcreate, -, -⟩
  rw [htokens, head?_cons, Option.map_some, hcreate] at hfirst
  cases hfirst

/-- **Other open quotes are accepted**: a name with its opening quote kept,
a text between double quotes without its last byte, and anything in the
body of a procedure. And behind a second default an open literal makes the
parser free the first one twice. -/
theorem open_quotes_accepted :
    ((∃ token ∈ tokenize (ascii "SELECT * FROM `t"), token.terminated = false) ∧
      (Sql.parse (fun _ => none) (ascii "SELECT * FROM `t")).map (fun statement =>
          match statement with
          | .select query => query.fromName
          | _ => none) = .ok (some (ascii "`t"))) ∧
    ((∃ token ∈ tokenize (ascii "\"abc"), token.terminated = false) ∧
      (Sql.parseExpressionOnly (fun _ => none) (ascii "\"abc")).map (fun expression =>
          match expression with
          | .literal (.string text) => some text
          | _ => none) = .ok (some (ascii "ab"))) ∧
    ((∃ token ∈ tokenize (ascii "CREATE PROCEDURE p() SELECT 'x"), token.terminated = false) ∧
      (Sql.parse (fun _ => none) (ascii "CREATE PROCEDURE p() SELECT 'x")).map (fun statement =>
          match statement with
          | .createProcedure procedure => procedure.bodySql
          | _ => []) = .ok (ascii "SELECT 'x")) ∧
    ((∃ token ∈ tokenize (ascii "CREATE TABLE t (v TEXT DEFAULT 'x' DEFAULT 'y"),
        token.terminated = false) ∧
      Sql.FreesTwice (fun _ => none) (ascii "CREATE TABLE t (v TEXT DEFAULT 'x' DEFAULT 'y")) := by
  unfold Sql.FreesTwice
  decide +kernel

end Shoveler
