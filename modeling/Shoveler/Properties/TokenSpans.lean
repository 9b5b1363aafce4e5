import Shoveler.Frontend.Tokens

/-!
# The tokens of a text and what stands between them

Taking tokens comes to an end, and the tokens lie in the text one behind
the other. What is skipped between two of them, before the first and
behind the last is described by a grammar of its own (`Gap`): whitespace
and comments, and only at the end of the text a comment that nothing
closes.
-/

namespace Shoveler

open Tokenizer List

/-! ## Gaps -/

/-- **What may stand between tokens**; `last` says that nothing follows. A
line comment goes up to the end of its line, a block comment up to the
first `*/` behind its start, and either may be cut off by the end of the
text. -/
inductive Gap (last : Prop) : Bytes → Prop
  | nil : Gap last []
  | space {c : UInt8} {more : Bytes} : isWhitespace c = true → Gap last more → Gap last (c :: more)
  | line {opening body more : Bytes} : opening = [Byte.hash] ∨ opening = [Byte.dash, Byte.dash] →
      Byte.newline ∉ body → more.head? = some Byte.newline ∨ more = [] ∧ last → Gap last more →
      Gap last (opening ++ body ++ more)
  | block {body more : Bytes} : ¬[Byte.star, Byte.slash] <:+: body ++ [Byte.star] → Gap last more →
      Gap last (Byte.slash :: Byte.star :: (body ++ Byte.star :: Byte.slash :: more))
  | unclosed {body : Bytes} : ¬[Byte.star, Byte.slash] <:+: body → last →
      Gap last (Byte.slash :: Byte.star :: body)

/-- A line comment ends in front of the newline. -/
theorem skipLineComment_eq (l : Bytes) : ∃ body, l = body ++ skipLineComment l ∧
    Byte.newline ∉ body ∧ ((skipLineComment l).head? = some Byte.newline ∨
      skipLineComment l = []) := by
  refine ⟨l.takeWhile (· != Byte.newline), (takeWhile_append_dropWhile).symm, fun h => ?_, ?_⟩
  · have hne := mem_takeWhile_imp h
    simp at hne
  · cases hrest : skipLineComment l with
    | nil => exact .inr rfl
    | cons c rest =>
      have hhead := head?_dropWhile_not (· != Byte.newline) l
      rw [show l.dropWhile (· != Byte.newline) = c :: rest from hrest] at hhead
      exact .inl (by simpa using hhead)

theorem not_infix_cons {c d : UInt8} {l : Bytes} (hcd : ¬(c = Byte.star ∧ d = Byte.slash))
    (h : ¬[Byte.star, Byte.slash] <:+: d :: l) : ¬[Byte.star, Byte.slash] <:+: c :: d :: l := by
  rw [infix_cons_iff, cons_prefix_cons, cons_prefix_cons]
  rintro (⟨rfl, rfl, -⟩ | hinfix)
  · exact hcd ⟨rfl, rfl⟩
  · exact h hinfix

/-- A block comment ends behind the first `*/`, or with the text. -/
theorem skipBlockComment_eq (l : Bytes) :
    (∃ body, ¬[Byte.star, Byte.slash] <:+: body ++ [Byte.star] ∧
      l = body ++ Byte.star :: Byte.slash :: skipBlockComment l) ∨
    ¬[Byte.star, Byte.slash] <:+: l ∧ skipBlockComment l = [] := by
  induction l using skipBlockComment.induct with
  | case1 => exact .inr ⟨by decide, rfl⟩
  | case2 c => exact .inr ⟨fun h => absurd h.length_le (Nat.not_succ_le_self 1), rfl⟩
  | case3 c d rest h =>
    obtain ⟨rfl, rfl⟩ := h
    exact .inl ⟨[], by decide, by rw [skipBlockComment, if_pos ⟨rfl, rfl⟩]; rfl⟩
  | case4 c d rest h ih =>
    rw [skipBlockComment, if_neg h]
    rcases ih with ⟨body, hbody, hrest⟩ | ⟨hnone, hrest⟩
    · refine .inl ⟨c :: body, ?_, by rw [cons_append, ← hrest]⟩
      cases body with
      | nil =>
        obtain rfl : d = Byte.star := (cons.inj hrest).1
        exact not_infix_cons h hbody
      | cons d' body =>
        obtain rfl : d = d' := (cons.inj hrest).1
        exact not_infix_cons h hbody
    · exact .inr ⟨not_infix_cons h hnone, hrest⟩

/-- **What is skipped is a gap.** -/
theorem skipTrivia_eq (l : Bytes) : ∃ gap, l = gap ++ skipTrivia l ∧ Gap (skipTrivia l = []) gap := by
  refine (Unfold.exhaust_induction skipTriviaStep_length
    (P := fun l r => skipTriviaStep r = none ∧ ∃ gap, l = gap ++ r ∧ Gap (r = []) gap)
    (fun l hl => ⟨hl, [], rfl, .nil⟩) (fun l l' r h hr => ?_) l).2
  obtain ⟨hstop, gap, hl', hgap⟩ := hr
  refine ⟨hstop, ?_⟩
  -- a line comment is followed by a newline, which is skipped in the next round
  have hline : ∀ {rest opening : Bytes}, skipLineComment rest = gap ++ r →
      (opening = [Byte.hash] ∨ opening = [Byte.dash, Byte.dash]) →
      ∃ gap', opening ++ rest = gap' ++ r ∧ Gap (r = []) gap' := by
    intro rest opening hskip hopening
    obtain ⟨body, hrest, hbody, hend⟩ := skipLineComment_eq rest
    rw [hskip] at hrest hend
    refine ⟨opening ++ body ++ gap, by rw [hrest]; simp, .line hopening hbody ?_ hgap⟩
    cases gap with
    | nil =>
      refine .inr ⟨rfl, hend.resolve_left fun hnewline => ?_⟩
      obtain ⟨rest', rfl⟩ := head?_eq_some_iff.1 hnewline
      rw [skipTriviaStep_eq_some.2 (.space rfl)] at hstop
      cases hstop
    | cons c gap => exact .inl (hend.resolve_right (by simp))
  cases skipTriviaStep_eq_some.1 h with
  | @space c _ hspace => exact ⟨c :: gap, by rw [hl']; rfl, .space hspace hgap⟩
  | @hash rest => exact hline hl' (.inl rfl)
  | @dashes rest => exact hline hl' (.inr rfl)
  | @block rest =>
    rcases skipBlockComment_eq rest with ⟨body, hbody, hrest⟩ | ⟨hbody, hrest⟩
    · rw [hl'] at hrest
      exact ⟨_, by rw [hrest]; simp, .block hbody hgap⟩
    · rw [hl', append_eq_nil_iff] at hrest
      exact ⟨_, by rw [hrest.2, append_nil], .unclosed hbody hrest.2⟩

/-! ## Spans -/

/-- Where a token ends. -/
def Token.stop (token : Token) : ℕ := token.offset + token.lexeme.length

/-- Where what is left to read starts, behind these tokens. -/
def stopOf (before : List Token) : ℕ := (before.getLast?.map Token.stop).getD 0

/-- Where the next of these tokens starts, or the text ends. -/
def startOf (sql : Bytes) (after : List Token) : ℕ :=
  (after.head?.map Token.offset).getD sql.length

/-- **Taking tokens until there is none**, without counting rounds. -/
inductive Takes : Tokenizer → List Token → Prop
  | stops {t : Tokenizer} : t.next = none → Takes t []
  | takes {t t' : Tokenizer} {token : Token} {tokens : List Token} : t.next = some (token, t') →
      Takes t' tokens → Takes t (token :: tokens)

theorem takes_tokens (rest : Bytes) (i : ℕ) : Takes ⟨rest, i⟩ (tokens ⟨rest, i⟩) := by
  induction rest, i using tokens_induction with
  | hnil rest i hskip =>
    rw [tokens_of_nil i hskip]
    exact .stops (next_of_nil hskip)
  | hcons rest i c l hskip ih =>
    rw [tokens_of_cons i hskip]
    exact .takes (next_of_cons i hskip) ih

section Spans

variable {sql : Bytes} {token : Token} {before after : List Token} {i : ℕ}

/-- A token is what the text has in its place, and the tokens behind it are
those of the text from its end. -/
theorem tokens_stop (h : tokens ⟨sql.drop token.offset, token.offset⟩ = token :: after)
    (hstop : skipTriviaStep (sql.drop token.offset) = none) :
    slice sql token.offset token.stop = token.lexeme ∧
      tokens ⟨sql.drop token.stop, token.stop⟩ = after := by
  cases hdrop : sql.drop token.offset with
  | nil =>
    rw [hdrop, tokens_of_nil _ (skipTrivia_of_none rfl)] at h
    cases h
  | cons c l =>
    rw [hdrop] at h hstop
    rw [tokens_of_cons _ (skipTrivia_of_none hstop), length_cons, Nat.sub_self] at h
    obtain ⟨htoken, hafter⟩ := cons.inj h
    have hlexeme : c :: l.take (readToken c l).2.1 = token.lexeme := congrArg Token.lexeme htoken
    have hlength : token.lexeme.length = (readToken c l).2.1 + 1 := by
      rw [← hlexeme, length_cons, length_take_of_le (readToken_le c l)]
    have hend : token.stop = token.offset + ((readToken c l).2.1 + 1) := by
      rw [Token.stop, hlength]
    constructor
    · rw [slice, hend, drop_take, hdrop, Nat.add_sub_cancel_left, take_succ_cons, hlexeme]
    · rw [hend, ← drop_drop, hdrop, drop_succ_cons, ← hafter]
      congr 2
      omega

/-- What is skipped in front of the next token. -/
theorem gap_of_tokens (hi : i ≤ sql.length) (h : tokens ⟨sql.drop i, i⟩ = after) :
    Gap (after = []) (slice sql i (startOf sql after)) := by
  obtain ⟨gap, hgap, hkind⟩ := skipTrivia_eq (sql.drop i)
  have hslice : ∀ last, last = i + gap.length → slice sql i last = gap := by
    rintro last rfl
    rw [slice, drop_take, Nat.add_sub_cancel_left, hgap, take_left]
  have hlength := congrArg length hgap
  rw [length_drop, length_append] at hlength
  cases hskip : skipTrivia (sql.drop i) with
  | nil =>
    rw [tokens_of_nil i hskip] at h
    subst h
    rw [hskip] at hkind hlength
    rw [hslice (startOf sql []) (by simp [startOf]; simp at hlength; omega)]
    simpa using hkind
  | cons c l =>
    rw [tokens_of_cons i hskip] at h
    subst h
    rw [hskip] at hkind hlength
    rw [hslice _ (by simp [startOf]; simp at hlength; omega)]
    simpa using hkind

theorem pairwise_tokens (rest : Bytes) (i : ℕ) :
    (tokens ⟨rest, i⟩).Pairwise fun token later => token.stop ≤ later.offset := by
  induction rest, i using tokens_induction with
  | hnil rest i hskip =>
    rw [tokens_of_nil i hskip]
    exact .nil
  | hcons rest i c l hskip ih =>
    have htokens := tokens_of_cons i hskip
    rw [htokens, pairwise_cons]
    exact ⟨fun later hlater => offset_le_of_cons htokens hlater, ih⟩

/-- A token of a text, in its place. -/
theorem token_in_place (h : tokenize sql = before ++ token :: after) :
    token.stop ≤ sql.length ∧ slice sql token.offset token.stop = token.lexeme ∧
      tokens ⟨sql.drop token.stop, token.stop⟩ = after := by
  have hmem : token ∈ tokenize sql := h ▸ mem_append_right _ mem_cons_self
  obtain ⟨-, htokens, hnone⟩ := tokens_of_suffix (h ▸ suffix_append before (token :: after))
  rw [Nat.sub_zero] at htokens hnone
  have hend := end_le_of_cons htokens
  have hpos := length_pos_iff.2 (lexeme_ne_nil hmem)
  rw [length_drop] at hend
  exact ⟨by rw [Token.stop]; omega, tokens_stop htokens hnone⟩

end Spans

/-- **Tokenization covers the text exactly**: taking tokens ends, each token
is what stands in its place, they lie one behind the other, and all that
is left of the text are gaps. -/
theorem tokens_cover_text (sql : Bytes) :
    Takes { rest := sql } (tokenize sql) ∧
    (∀ token ∈ tokenize sql, token.lexeme ≠ [] ∧ token.stop ≤ sql.length ∧
      slice sql token.offset token.stop = token.lexeme) ∧
    ((tokenize sql).Pairwise fun token later => token.stop ≤ later.offset) ∧
    ∀ before after, tokenize sql = before ++ after →
      Gap (after = []) (slice sql (stopOf before) (startOf sql after)) := by
  refine ⟨takes_tokens sql 0, fun token htoken => ?_, pairwise_tokens sql 0,
    fun before after h => ?_⟩
  · obtain ⟨before, after, hsplit⟩ := append_of_mem htoken
    obtain ⟨hstop, hslice, -⟩ := token_in_place hsplit
    exact ⟨lexeme_ne_nil htoken, hstop, hslice⟩
  · rcases eq_nil_or_concat before with rfl | ⟨first, token, rfl⟩
    · exact gap_of_tokens (Nat.zero_le _) h
    · rw [concat_eq_append, append_assoc] at h
      obtain ⟨hstop, -, hafter⟩ := token_in_place h
      rw [stopOf, concat_eq_append, getLast?_concat, Option.map_some, Option.getD_some]
      exact gap_of_tokens hstop hafter

end Shoveler
