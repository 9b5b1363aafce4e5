import Shoveler.Frontend.Scanning
import Shoveler.Model.Parser

/-!
# The tokens of a part of a text

A part of a text that starts with a token has the tokens of the whole from
there on (`tokens_of_suffix`), and one that ends where a token starts has
those before it (`tokens_take`). The text of a view is cut out in this way
and trimmed; its tokens echo those of the statement it was cut out of
(`echoes_excerpt`).
-/

namespace Shoveler

open List

variable {after before l rest sql : Bytes} {more ts ts' : List Token} {token : Token} {i : ℕ}

namespace Tokenizer

/-! ## Unfolding -/

/-- Nothing is left but trivia. -/
theorem next_of_nil (h : skipTrivia rest = []) :
    next ⟨rest, i⟩ = none := by
  rw [next]
  simp only [h]

/-- A token is read. -/
theorem next_of_cons {c : UInt8} (i : ℕ) (h : skipTrivia rest = c :: l) :
    next ⟨rest, i⟩ =
      some (⟨(readToken c l).1, c :: l.take (readToken c l).2.1,
          i + (rest.length - (l.length + 1)), (readToken c l).2.2⟩,
        ⟨l.drop (readToken c l).2.1, i + (rest.length - (l.length + 1)) + 1 + (readToken c l).2.1⟩) := by
  rw [next]
  simp only [h, length_cons]

theorem length_lt_of_cons {c : UInt8} (h : skipTrivia rest = c :: l) :
    l.length + 1 ≤ rest.length := by
  have hle := (skipTrivia_suffix rest).length_le
  rw [h] at hle
  exact hle

theorem next_length (t : Tokenizer) (token : Token) (t' : Tokenizer)
    (h : t.next = some (token, t')) : t'.rest.length < t.rest.length := by
  obtain ⟨rest, i⟩ := t
  cases hskip : skipTrivia rest with
  | nil =>
    rw [next_of_nil hskip] at h
    cases h
  | cons c l =>
    rw [next_of_cons i hskip] at h
    obtain ⟨-, rfl⟩ := Prod.mk.inj (Option.some.inj h)
    have hle := length_lt_of_cons hskip
    simp only [length_drop]
    omega

theorem tokens_of_nil (i : ℕ) (h : skipTrivia rest = []) :
    tokens ⟨rest, i⟩ = [] :=
  Unfold.collect_of_none (next_of_nil h)

theorem tokens_of_cons {c : UInt8} (i : ℕ) (h : skipTrivia rest = c :: l) :
    tokens ⟨rest, i⟩ =
      ⟨(readToken c l).1, c :: l.take (readToken c l).2.1, i + (rest.length - (l.length + 1)),
          (readToken c l).2.2⟩ ::
        tokens ⟨l.drop (readToken c l).2.1,
          i + (rest.length - (l.length + 1)) + 1 + (readToken c l).2.1⟩ :=
  Unfold.collect_of_some next_length (next_of_cons i h)

/-- **Induction from token to token.** -/
theorem tokens_induction {P : Bytes → ℕ → Prop}
    (hnil : ∀ rest i, skipTrivia rest = [] → P rest i)
    (hcons : ∀ rest i c l, skipTrivia rest = c :: l →
      P (l.drop (readToken c l).2.1)
        (i + (rest.length - (l.length + 1)) + 1 + (readToken c l).2.1) → P rest i)
    (rest : Bytes) (i : ℕ) : P rest i := by
  induction hn : rest.length using Nat.strongRecOn generalizing rest i with
  | ind n ih =>
    cases hskip : skipTrivia rest with
    | nil => exact hnil rest i hskip
    | cons c l =>
      have hle := length_lt_of_cons hskip
      refine hcons rest i c l hskip (ih _ ?_ _ _ rfl)
      rw [length_drop]
      omega

/-- Every token was read from its first byte on. -/
theorem exists_readToken (h : token ∈ tokens ⟨rest, i⟩) :
    ∃ c l, token.kind = (readToken c l).1 ∧ token.lexeme = c :: l.take (readToken c l).2.1 ∧
      token.terminated = (readToken c l).2.2 := by
  induction rest, i using tokens_induction with
  | hnil rest i hskip =>
    rw [tokens_of_nil i hskip] at h
    cases h
  | hcons rest i c l hskip ih =>
    rw [tokens_of_cons i hskip, mem_cons] at h
    rcases h with rfl | h
    · exact ⟨c, l, rfl, rfl, rfl⟩
    · exact ih h

/-! ## From a token on -/

/-- **From the start of a token the text has the tokens of the whole from
there.** -/
theorem tokens_of_suffix (h : token :: more <:+ tokens ⟨rest, i⟩) :
    i ≤ token.offset ∧
      tokens ⟨rest.drop (token.offset - i), token.offset⟩ = token :: more ∧
      skipTriviaStep (rest.drop (token.offset - i)) = none := by
  induction rest, i using tokens_induction with
  | hnil rest i hskip =>
    rw [tokens_of_nil i hskip] at h
    cases eq_nil_of_suffix_nil h
  | hcons rest i c l hskip ih =>
    obtain ⟨before, hbefore⟩ := skipTrivia_suffix rest
    rw [hskip] at hbefore
    subst hbefore
    have hlength : (before ++ c :: l).length - (l.length + 1) = before.length := by
      simp only [length_append, length_cons]
      omega
    rw [hlength] at ih
    have htokens := tokens_of_cons i hskip
    rw [hlength] at htokens
    rw [htokens, suffix_cons_iff] at h
    rcases h with heq | hsuffix
    · obtain ⟨rfl, rfl⟩ := cons.inj heq
      have hdrop : (before ++ c :: l).drop (i + before.length - i) = c :: l := by
        rw [Nat.add_sub_cancel_left, drop_left]
      have hstop : skipTriviaStep (c :: l) = none := by
        rw [← hskip]
        exact skipTriviaStep_skipTrivia _
      refine ⟨Nat.le_add_right _ _, ?_, ?_⟩
      · rw [hdrop, tokens_of_cons _ (skipTrivia_of_none hstop), length_cons, Nat.sub_self]
        rfl
      · rw [hdrop]
        exact hstop
    · obtain ⟨hle, htail, hstop⟩ := ih hsuffix
      -- the rest after the first token, reached from the start of the text
      have hdrop : (before ++ c :: l).drop (token.offset - i) =
          (l.drop (readToken c l).2.1).drop
            (token.offset - (i + before.length + 1 + (readToken c l).2.1)) := by
        have hsplit : token.offset - i = before.length + (((readToken c l).2.1 +
            (token.offset - (i + before.length + 1 + (readToken c l).2.1))) + 1) := by
          omega
        rw [hsplit, ← drop_drop, drop_left, drop_succ_cons, ← drop_drop]
      rw [hdrop]
      exact ⟨by omega, htail, hstop⟩

theorem exists_skipTrivia (h : tokens ⟨rest, i⟩ = token :: more) :
    ∃ c l, skipTrivia rest = c :: l := by
  refine exists_cons_of_ne_nil fun hskip => ?_
  rw [tokens_of_nil i hskip] at h
  cases h

/-- A token starts behind the end of the one before it. -/
theorem offset_le_of_cons {first : Token} (h : tokens ⟨rest, i⟩ = first :: more)
    (htoken : token ∈ more) :
    first.offset + first.lexeme.length ≤ token.offset := by
  obtain ⟨c, l, hskip⟩ := exists_skipTrivia h
  rw [tokens_of_cons i hskip] at h
  obtain ⟨rfl, rfl⟩ := cons.inj h
  obtain ⟨before, after, hsplit⟩ := append_of_mem htoken
  have hbound := (tokens_of_suffix (hsplit ▸ suffix_append before (token :: after))).1
  simp only [length_cons, length_take_of_le (readToken_le c l)]
  omega

/-- A token ends within the text. -/
theorem end_le_of_cons (h : tokens ⟨rest, i⟩ = token :: more) :
    token.offset + token.lexeme.length ≤ i + rest.length := by
  obtain ⟨c, l, hskip⟩ := exists_skipTrivia h
  have hle := length_lt_of_cons hskip
  have hread := readToken_le c l
  rw [tokens_of_cons i hskip] at h
  obtain ⟨rfl, -⟩ := cons.inj h
  simp only [length_cons, length_take_of_le hread]
  omega

theorem lexeme_ne_nil (h : token ∈ tokens ⟨rest, i⟩) :
    token.lexeme ≠ [] := by
  obtain ⟨c, l, -, hlexeme, -⟩ := exists_readToken h
  rw [hlexeme]
  exact cons_ne_nil _ _

/-- **No two tokens start at the same place.** -/
theorem nodup_offsets (rest : Bytes) (i : ℕ) : ((tokens ⟨rest, i⟩).map Token.offset).Nodup := by
  induction rest, i using tokens_induction with
  | hnil rest i hskip =>
    rw [tokens_of_nil i hskip]
    exact nodup_nil
  | hcons rest i c l hskip ih =>
    have htokens := tokens_of_cons i hskip
    rw [htokens, map_cons, nodup_cons]
    refine ⟨fun hmem => ?_, ih⟩
    obtain ⟨token, htoken, hsame⟩ := mem_map.1 hmem
    have hbehind := offset_le_of_cons htokens htoken
    rw [hsame, length_cons] at hbehind
    omega

/-! ## Up to a token -/

/-- **A first token that ends before a cut is read from the part before
it**, and so are the tokens behind it. -/
theorem tokens_append_cons (h : tokens ⟨before ++ after, i⟩ = token :: more)
    (hends : token.offset + token.lexeme.length ≤ i + before.length) :
    ∃ rest j, j + rest.length = i + before.length ∧
      j = token.offset + token.lexeme.length ∧
      tokens ⟨before, i⟩ = token :: tokens ⟨rest, j⟩ ∧ tokens ⟨rest ++ after, j⟩ = more := by
  obtain ⟨c, l, hskip⟩ := exists_skipTrivia h
  have hle := length_lt_of_cons hskip
  have hread := readToken_le c l
  rw [tokens_of_cons i hskip] at h
  obtain ⟨rfl, htail⟩ := cons.inj h
  simp only [length_cons, length_take_of_le hread, length_append] at hends hle
  have hafter : after.length ≤ (skipTrivia (before ++ after)).length := by
    rw [hskip, length_cons]
    omega
  have happend := skipTrivia_append_of_le hafter
  cases hbefore : skipTrivia before with
  | nil =>
    rw [hskip, hbefore, nil_append] at happend
    rw [← happend, length_cons] at hends hle
    omega
  | cons c' l' =>
    rw [hskip, hbefore, cons_append] at happend
    obtain ⟨rfl, rfl⟩ := cons.inj happend
    have hle' := length_lt_of_cons hbefore
    simp only [length_append] at hends hle
    have hfits : (readToken c (l' ++ after)).2.1 ≤ l'.length := by omega
    have hsame := readToken_append_of_le hfits
    rw [hsame] at hfits htail
    have hstart : (before ++ after).length - ((l' ++ after).length + 1) =
        before.length - (l'.length + 1) := by
      simp only [length_append]
      omega
    rw [hstart, drop_append_of_le_length hfits] at htail
    refine ⟨_, _, ?_, ?_, ?_, htail⟩
    · rw [length_drop]
      omega
    · simp only [hsame, hstart, take_append_of_le_length hfits, length_cons,
        length_take_of_le hfits]
      omega
    · rw [tokens_of_cons i hbefore, hsame, take_append_of_le_length hfits, hstart]

/-- **Up to the start of a token the text has the tokens of the whole
before it.** -/
theorem tokens_take (h : tokens ⟨before ++ after, i⟩ = ts ++ token :: more)
    (hoffset : token.offset = i + before.length) : tokens ⟨before, i⟩ = ts := by
  induction ts generalizing before i with
  | nil =>
    obtain ⟨c, l, hskip⟩ := exists_skipTrivia h
    have hle := length_lt_of_cons hskip
    rw [tokens_of_cons i hskip] at h
    obtain ⟨rfl, -⟩ := cons.inj h
    simp only [length_append] at hoffset hle
    have hafter : after.length ≤ (skipTrivia (before ++ after)).length := by
      rw [hskip, length_cons]
      omega
    have happend := congrArg length (skipTrivia_append_of_le hafter)
    rw [hskip, length_append, length_cons] at happend
    exact tokens_of_nil i (eq_nil_of_length_eq_zero (by omega))
  | cons t ts ih =>
    have hends := offset_le_of_cons h (mem_append_right ts mem_cons_self)
    obtain ⟨rest, j, hj, -, hbefore, hrest⟩ := tokens_append_cons h (by omega)
    rw [hbefore, ih hrest (by omega)]

/-- **Up to the end of a token the text has the tokens of the whole up to
it.** -/
theorem tokens_through (h : tokens ⟨before ++ after, i⟩ = ts ++ token :: more)
    (hends : token.offset + token.lexeme.length = i + before.length) :
    tokens ⟨before, i⟩ = ts ++ [token] := by
  induction ts generalizing before i with
  | nil =>
    obtain ⟨rest, j, hj, hstart, hbefore, -⟩ := tokens_append_cons h (by omega)
    have hnil : rest = [] := eq_nil_of_length_eq_zero (by omega)
    rw [hbefore, hnil, tokens_of_nil j (skipTrivia_of_none rfl)]
    rfl
  | cons t ts ih =>
    have hle := offset_le_of_cons h (mem_append_right ts mem_cons_self)
    obtain ⟨rest, j, hj, -, hbefore, hrest⟩ := tokens_append_cons h (by omega)
    rw [hbefore, ih hrest (by omega)]
    rfl

end Tokenizer

/-! ## Echoes -/

/-- The same token, at whatever offset. -/
structure Token.Same (token token' : Token) : Prop where
  kind : token'.kind = token.kind
  lexeme : token'.lexeme = token.lexeme
  terminated : token'.terminated = token.terminated

theorem Token.Same.symm {token token' : Token} (h : token.Same token') : token'.Same token :=
  ⟨h.kind.symm, h.lexeme.symm, h.terminated.symm⟩

/-- Two quoted tokens that start with the same quote; if it is an
apostrophe, the first is not closed. -/
structure Token.Cut (token token' : Token) : Prop where
  quote : ∃ c, IsQuote c ∧ token.kind = quotedKind c ∧ token'.kind = quotedKind c ∧
    token.lexeme.head? = some c ∧ token'.lexeme.head? = some c
  literal : token.lexeme.head? = some Byte.apostrophe → token.terminated = false

/-- **The second list echoes the first up to its tail**: the same tokens,
except that the last may have been cut, if that is allowed. -/
inductive Echoes (cut : Prop) (tail : List Token) : List Token → List Token → Prop
  | done : Echoes cut tail tail []
  | cut {token token' : Token} : cut → token.Cut token' →
      Echoes cut tail (token :: tail) [token']
  | same {token token' : Token} {ts ts' : List Token} : token.Same token' →
      Echoes cut tail ts ts' → Echoes cut tail (token :: ts) (token' :: ts')

/-- An echo of a list is one of a longer list up to what is added. -/
theorem Echoes.append {cut : Prop} (h : Echoes cut [] ts ts') (tail : List Token) :
    Echoes cut tail (ts ++ tail) ts' := by
  induction h with
  | done => exact .done
  | cut hcut ht => exact .cut hcut ht
  | same ht _ ih => exact .same ht ih

/-- An echo of no more than its tail is empty. -/
theorem Echoes.eq_nil {cut : Prop} {tail : List Token} (h : Echoes cut tail tail ts') :
    ts' = [] := by
  have hlength : ∀ {ts ts'}, Echoes cut tail ts ts' → ts.length = tail.length + ts'.length := by
    intro ts ts' h
    induction h with
    | done => rfl
    | cut _ _ => rfl
    | same _ _ ih =>
      simp only [length_cons, ih]
      omega
  have := hlength h
  exact eq_nil_of_length_eq_zero (by omega)

theorem Echoes.imp {cut cut' : Prop} {tail : List Token} (h : Echoes cut tail ts ts')
    (hcut : cut → cut') : Echoes cut' tail ts ts' := by
  induction h with
  | done => exact .done
  | cut h ht => exact .cut (hcut h) ht
  | same ht _ ih => exact .same ht ih

/-- Some token is not closed. -/
def HasOpen (ts : List Token) : Prop := ∃ token ∈ ts, token.terminated = false

theorem HasOpen.mono (h : HasOpen ts) (hsub : ts ⊆ ts') : HasOpen ts' :=
  h.imp fun _ ht => ⟨hsub ht.1, ht.2⟩

open Tokenizer

/-- **Whitespace behind a text makes no difference to its tokens**, but for
a last one that is not closed. -/
theorem echoes_whitespace {ws : Bytes} (hws : ∀ c ∈ ws, isWhitespace c = true) (text : Bytes)
    (i j : ℕ) :
    Echoes (HasOpen (tokens ⟨text ++ ws, j⟩)) [] (tokens ⟨text ++ ws, j⟩) (tokens ⟨text, i⟩) := by
  induction text, i using tokens_induction generalizing j with
  | hnil text i hskip =>
    rw [tokens_of_nil i hskip, tokens_of_nil j (skipTrivia_append_whitespace_nil hws hskip)]
    exact .done
  | hcons text i c l hskip ih =>
    have hmore : skipTrivia (text ++ ws) = c :: (l ++ ws) := by
      rw [skipTrivia_append_whitespace hws (by rw [hskip]; exact cons_ne_nil c l), hskip]
      rfl
    rw [tokens_of_cons i hskip, tokens_of_cons j hmore]
    have hle := readToken_le c l
    rcases readToken_append_whitespace hws l with hsame | ⟨hquote, hleft, hright⟩
    · rw [hsame, take_append_of_le_length hle, drop_append_of_le_length hle]
      exact .same ⟨rfl, rfl, rfl⟩ ((ih _).imp fun h => h.mono (subset_cons_self _ _))
    · -- both tokens take all there is
      have hnone : ∀ k, tokens ⟨[], k⟩ = [] := fun k => tokens_of_nil k (skipTrivia_of_none rfl)
      rw [hleft, hright, drop_length, drop_length, hnone, hnone]
      exact .cut ⟨_, mem_cons_self, rfl⟩ ⟨⟨c, hquote, rfl, rfl, rfl, rfl⟩, fun _ => rfl⟩

/-- Trimming a text that starts with a token cuts off whitespace at its
end. -/
theorem trim_append {text : Bytes} (h : skipTriviaStep text = none) :
    ∃ ws, (∀ c ∈ ws, isWhitespace c = true) ∧ trim text ++ ws = text := by
  have hstart : text.dropWhile isWhitespace = text := by
    cases text with
    | nil => rfl
    | cons c l =>
      refine dropWhile_cons_of_neg fun hc => ?_
      rw [skipTriviaStep_eq_some.2 (.space hc)] at h
      cases h
  refine ⟨text.rtakeWhile isWhitespace, fun c hc => mem_rtakeWhile_imp hc, ?_⟩
  rw [trim, hstart]
  exact rdropWhile_append_rtakeWhile

/-- A slice between two tokens has the tokens between. -/
theorem tokens_slice {next : Token}
    (h : tokens ⟨sql.drop token.offset, token.offset⟩ = ts ++ next :: more) :
    tokens ⟨slice sql token.offset next.offset, token.offset⟩ = ts := by
  obtain ⟨hle, hnext, -⟩ := tokens_of_suffix (h ▸ suffix_append ts (next :: more))
  have hfits : next.offset - token.offset < (sql.drop token.offset).length := by
    by_contra hpast
    rw [drop_eq_nil_of_le (Nat.not_lt.1 hpast), tokens_of_nil _ (skipTrivia_of_none rfl)] at hnext
    cases hnext
  rw [← take_append_drop (next.offset - token.offset) (sql.drop token.offset)] at h
  rw [slice, drop_take]
  refine tokens_take h ?_
  rw [length_take_of_le (Nat.le_of_lt hfits)]
  omega

/-- A slice up to the end of a token has the tokens up to it. -/
theorem tokens_slice_through {start : ℕ} {last : Token}
    (h : tokens ⟨sql.drop start, start⟩ = ts ++ last :: more) :
    tokens ⟨slice sql start (last.offset + last.lexeme.length), start⟩ = ts ++ [last] := by
  obtain ⟨hle, hlast, -⟩ := tokens_of_suffix (h ▸ suffix_append ts (last :: more))
  have hfits := end_le_of_cons hlast
  rw [length_drop] at hfits
  have hinside : last.offset + last.lexeme.length - start ≤ (sql.drop start).length := by
    by_contra hpast
    -- then there is nothing left for the last token
    have hnil : last.lexeme.length = 0 := by omega
    exact lexeme_ne_nil (h ▸ mem_append_right ts mem_cons_self)
      (eq_nil_of_length_eq_zero hnil)
  rw [← take_append_drop (last.offset + last.lexeme.length - start) (sql.drop start)] at h
  rw [slice, drop_take]
  refine tokens_through h ?_
  rw [length_take_of_le hinside]
  omega

/-- **A text that starts with a token and was trimmed** echoes itself. -/
theorem echoes_trim {text : Bytes} (h : tokens ⟨text, token.offset⟩ = token :: ts) :
    Echoes (HasOpen (token :: ts)) [] (token :: ts) (tokenize (trim text)) := by
  have hstop : skipTriviaStep text = none := by
    have hself : token :: ts <:+ tokens ⟨text, token.offset⟩ := by rw [h]
    obtain ⟨-, -, hstop⟩ := tokens_of_suffix hself
    rw [Nat.sub_self] at hstop
    exact hstop
  obtain ⟨ws, hws, htrim⟩ := trim_append hstop
  have hecho := echoes_whitespace hws (trim text) 0 token.offset
  rw [htrim, h] at hecho
  exact hecho

/-- **The tokens of a part of a text that was cut out and trimmed** echo
those of the text from where it was cut. -/
theorem echoes_excerpt {rest : List Token} {last : ℕ} (htoken : token :: more <:+ tokenize sql)
    (hrest : rest <:+ more) (hlast : last = (rest.head?.map Token.offset).getD sql.length) :
    Echoes (HasOpen (tokenize sql)) rest (token :: more)
      (tokenize (trim (slice sql token.offset last))) := by
  obtain ⟨-, htokens, -⟩ := tokens_of_suffix htoken
  rw [Nat.sub_zero] at htokens
  obtain ⟨ts, hts⟩ := hrest
  have hpart : tokens ⟨slice sql token.offset last, token.offset⟩ = token :: ts := by
    cases rest with
    | nil =>
      rw [append_nil] at hts
      rw [hts, hlast, slice]
      exact (congrArg (fun text => tokens ⟨text.drop token.offset, token.offset⟩)
        take_length).trans htokens
    | cons next rest =>
      have hsplit : tokens ⟨sql.drop token.offset, token.offset⟩ = token :: ts ++ next :: rest := by
        rw [htokens, ← hts]
        rfl
      rw [hlast]
      exact tokens_slice hsplit
  rw [← hts]
  refine ((echoes_trim hpart).imp fun h => h.mono fun t ht => htoken.subset ?_).append rest
  rw [← hts]
  exact mem_append_left rest ht

end Shoveler
