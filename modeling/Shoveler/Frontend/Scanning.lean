import Shoveler.Model.Tokenizer

/-!
# Scanning a part of a text

What the tokenizer makes of a text does not depend on what stands before
it, and up to the start of a token not on what stands behind
(`tokens_take`). Whitespace behind a text makes no difference to its
tokens (`echoes_whitespace`), but for one case: a quoted token that is not
closed takes it along, so that only its first byte and its kind are the
same.
-/

namespace Shoveler

open List

variable {a b l r : Bytes}

/-! ## Trivia -/

theorem skipBlockComment_suffix (l : Bytes) : skipBlockComment l <:+ l := by
  induction l using skipBlockComment.induct with
  | case1 => exact suffix_refl _
  | case2 c => exact nil_suffix
  | case3 c d rest h =>
    rw [skipBlockComment, if_pos h]
    exact (suffix_cons d rest).trans (suffix_cons c _)
  | case4 c d rest h ih =>
    rw [skipBlockComment, if_neg h]
    exact ih.trans (suffix_cons c _)

theorem skipLineComment_suffix (l : Bytes) : skipLineComment l <:+ l := dropWhile_suffix _

/-- **The four kinds of trivia**, each with what is behind it. -/
inductive Trivia : Bytes → Bytes → Prop
  | space {c : UInt8} {l : Bytes} : isWhitespace c = true → Trivia (c :: l) l
  | hash {l : Bytes} : Trivia (Byte.hash :: l) (skipLineComment l)
  | dashes {l : Bytes} : Trivia (Byte.dash :: Byte.dash :: l) (skipLineComment l)
  | block {l : Bytes} : Trivia (Byte.slash :: Byte.star :: l) (skipBlockComment l)

theorem skipTriviaStep_eq_some : skipTriviaStep l = some r ↔ Trivia l r := by
  constructor
  · intro h
    cases l with
    | nil => cases h
    | cons c l =>
      rw [skipTriviaStep] at h
      by_cases hspace : isWhitespace c = true
      · rw [if_pos hspace] at h
        exact Option.some.inj h ▸ .space hspace
      rw [if_neg hspace] at h
      by_cases hhash : c = Byte.hash
      · rw [if_pos hhash] at h
        exact Option.some.inj h ▸ hhash ▸ .hash
      rw [if_neg hhash] at h
      by_cases hdash : c = Byte.dash ∧ l.head? = some Byte.dash
      · rw [if_pos hdash] at h
        obtain ⟨rfl, hhead⟩ := hdash
        obtain ⟨l, rfl⟩ := head?_eq_some_iff.1 hhead
        exact Option.some.inj h ▸ .dashes
      rw [if_neg hdash] at h
      by_cases hslash : c = Byte.slash ∧ l.head? = some Byte.star
      · rw [if_pos hslash] at h
        obtain ⟨rfl, hhead⟩ := hslash
        obtain ⟨l, rfl⟩ := head?_eq_some_iff.1 hhead
        exact Option.some.inj h ▸ .block
      rw [if_neg hslash] at h
      cases h
  · intro h
    cases h with
    | space hspace => exact if_pos hspace
    | hash => rfl
    | dashes => rfl
    | block => rfl

/-- A piece of trivia takes at least a byte. -/
theorem Trivia.suffix {c : UInt8} (h : Trivia (c :: l) r) : r <:+ l := by
  cases h with
  | space _ => exact suffix_refl _
  | hash => exact skipLineComment_suffix l
  | dashes => exact (skipLineComment_suffix _).trans (suffix_cons _ _)
  | block => exact (skipBlockComment_suffix _).trans (suffix_cons _ _)

theorem skipTriviaStep_length (l r : Bytes) (h : skipTriviaStep l = some r) :
    r.length < l.length := by
  cases l with
  | nil => cases h
  | cons c l => exact Nat.lt_succ_of_le (skipTriviaStep_eq_some.1 h).suffix.length_le

theorem skipTrivia_of_none (h : skipTriviaStep l = none) : skipTrivia l = l :=
  Unfold.exhaust_of_none h

theorem skipTrivia_of_some (h : skipTriviaStep l = some r) :
    skipTrivia l = skipTrivia r :=
  Unfold.exhaust_of_some skipTriviaStep_length h

theorem skipTriviaStep_skipTrivia (l : Bytes) : skipTriviaStep (skipTrivia l) = none :=
  Unfold.step_exhaust skipTriviaStep_length l

theorem skipTrivia_suffix (l : Bytes) : skipTrivia l <:+ l := by
  refine Unfold.exhaust_induction skipTriviaStep_length (P := fun l r => r <:+ l)
    (fun l _ => suffix_refl l) (fun l l' r h hr => ?_) l
  cases l with
  | nil => cases h
  | cons c l => exact (hr.trans (skipTriviaStep_eq_some.1 h).suffix).trans (suffix_cons c l)

/-- Nothing more is skipped where skipping has stopped. -/
theorem skipTrivia_skipTrivia (l : Bytes) : skipTrivia (skipTrivia l) = skipTrivia l :=
  skipTrivia_of_none (skipTriviaStep_skipTrivia l)

/-- Whitespace is skipped altogether. -/
theorem skipTrivia_whitespace {ws : Bytes} (h : ∀ c ∈ ws, isWhitespace c = true) :
    skipTrivia ws = [] := by
  induction ws with
  | nil => exact skipTrivia_of_none rfl
  | cons c ws ih =>
    have hstep : skipTriviaStep (c :: ws) = some ws := by
      rw [skipTriviaStep, if_pos (h c mem_cons_self)]
    rw [skipTrivia_of_some hstep]
    exact ih fun d hd => h d (mem_cons_of_mem c hd)

/-! ## Trivia in front of more text

With more text behind it, a text is skipped as before, or it is skipped
altogether and some of the rest is too. -/

/-- A part that was skipped altogether, with the rest begun. -/
def Overruns (f : Bytes → Bytes) (a b : Bytes) : Prop := f a = [] ∧ f (a ++ b) <:+ b

theorem skipLineComment_append (a b : Bytes) :
    skipLineComment (a ++ b) = skipLineComment a ++ b ∨ Overruns skipLineComment a b := by
  unfold Overruns skipLineComment
  rw [dropWhile_append]
  by_cases h : (a.dropWhile (· != Byte.newline)).isEmpty = true
  · rw [if_pos h]
    exact .inr ⟨isEmpty_iff.1 h, dropWhile_suffix _⟩
  · rw [if_neg h]
    exact .inl rfl

theorem skipBlockComment_append (a b : Bytes) :
    skipBlockComment (a ++ b) = skipBlockComment a ++ b ∨ Overruns skipBlockComment a b := by
  induction a using skipBlockComment.induct with
  | case1 => exact .inr ⟨rfl, skipBlockComment_suffix b⟩
  | case2 c =>
    refine .inr ⟨rfl, ?_⟩
    cases b with
    | nil => exact nil_suffix
    | cons d b =>
      rw [singleton_append, skipBlockComment]
      split
      · exact suffix_cons d b
      · exact skipBlockComment_suffix _
  | case3 c d rest h =>
    rw [cons_append, cons_append, skipBlockComment, skipBlockComment, if_pos h, if_pos h]
    exact .inl rfl
  | case4 c d rest h ih =>
    unfold Overruns at ih ⊢
    rw [cons_append, cons_append, skipBlockComment, skipBlockComment, if_neg h, if_neg h]
    exact ih

/-- A byte that begins a comment together with the byte behind it. -/
def OpensComment (c : UInt8) (b : Bytes) : Prop :=
  c = Byte.dash ∧ b.head? = some Byte.dash ∨ c = Byte.slash ∧ b.head? = some Byte.star

/-- A round of skipping, with more text behind. -/
theorem Trivia.append {a' : Bytes} (h : Trivia a a') (b : Bytes) :
    ∃ r, Trivia (a ++ b) r ∧ (r = a' ++ b ∨ a' = [] ∧ r <:+ b) := by
  cases h with
  | space hspace => exact ⟨_, .space hspace, .inl rfl⟩
  | @hash l => exact ⟨_, .hash, skipLineComment_append l b⟩
  | @dashes l => exact ⟨_, .dashes, skipLineComment_append l b⟩
  | @block l => exact ⟨_, .block, skipBlockComment_append l b⟩

/-- Trivia that the text alone does not have is a comment that opens at
its last byte. -/
theorem Trivia.of_append {c : UInt8} (h : Trivia (c :: l ++ b) r)
    (hnot : ∀ r', ¬Trivia (c :: l) r') :
    l = [] ∧ OpensComment c b ∧ r.length < b.length := by
  rw [cons_append] at h
  generalize hlb : l ++ b = lb at h
  cases h with
  | space hspace => exact absurd (.space hspace) (hnot l)
  | hash => exact absurd .hash (hnot _)
  | @dashes k =>
    cases l with
    | nil =>
      obtain rfl : b = Byte.dash :: k := hlb
      exact ⟨rfl, .inl ⟨rfl, rfl⟩, Nat.lt_succ_of_le (skipLineComment_suffix k).length_le⟩
    | cons d l =>
      obtain ⟨rfl, -⟩ := cons.inj hlb
      exact absurd .dashes (hnot _)
  | @block k =>
    cases l with
    | nil =>
      obtain rfl : b = Byte.star :: k := hlb
      exact ⟨rfl, .inr ⟨rfl, rfl⟩, Nat.lt_succ_of_le (skipBlockComment_suffix k).length_le⟩
    | cons d l =>
      obtain ⟨rfl, -⟩ := cons.inj hlb
      exact absurd .block (hnot _)

/-- **Skipping with more text behind.** -/
theorem skipTrivia_append (a b : Bytes) :
    skipTrivia (a ++ b) = skipTrivia a ++ b ∨ Overruns skipTrivia a b ∨
      ∃ c, skipTrivia a = [c] ∧ OpensComment c b ∧ (skipTrivia (a ++ b)).length < b.length := by
  induction hn : a.length using Nat.strongRecOn generalizing a with
  | ind n ih =>
    cases hstep : skipTriviaStep a with
    | some a' =>
      obtain ⟨r, hr, hcases⟩ := (skipTriviaStep_eq_some.1 hstep).append b
      unfold Overruns
      rw [skipTrivia_of_some hstep, skipTrivia_of_some (skipTriviaStep_eq_some.2 hr)]
      rcases hcases with rfl | ⟨rfl, hsuffix⟩
      · have hless := skipTriviaStep_length a a' hstep
        exact ih a'.length (by omega) a' rfl
      · exact .inr (.inl ⟨skipTrivia_of_none rfl, (skipTrivia_suffix r).trans hsuffix⟩)
    | none =>
      cases a with
      | nil => exact .inr (.inl ⟨skipTrivia_of_none rfl, skipTrivia_suffix b⟩)
      | cons c l =>
        rw [skipTrivia_of_none hstep]
        cases hmore : skipTriviaStep (c :: l ++ b) with
        | none => exact .inl (skipTrivia_of_none hmore)
        | some r =>
          obtain ⟨rfl, hopens, hless⟩ := (skipTriviaStep_eq_some.1 hmore).of_append fun r' hr' => by
            rw [skipTriviaStep_eq_some.2 hr'] at hstep
            cases hstep
          rw [skipTrivia_of_some hmore]
          have hle := (skipTrivia_suffix r).length_le
          exact .inr (.inr ⟨c, rfl, hopens, by omega⟩)

/-- If no byte of the rest is skipped, what is in front of it is skipped as
if it stood alone. -/
theorem skipTrivia_append_of_le (h : b.length ≤ (skipTrivia (a ++ b)).length) :
    skipTrivia (a ++ b) = skipTrivia a ++ b := by
  rcases skipTrivia_append a b with heq | ⟨hnil, hsuffix⟩ | ⟨c, -, -, hless⟩
  · exact heq
  · rw [hnil, hsuffix.eq_of_length_le h]
    rfl
  · omega

section Whitespace

variable {ws : Bytes} (hws : ∀ c ∈ ws, isWhitespace c = true)

include hws

/-- In front of whitespace nothing is skipped that is not skipped alone. -/
theorem skipTrivia_append_whitespace (h : skipTrivia a ≠ []) :
    skipTrivia (a ++ ws) = skipTrivia a ++ ws := by
  rcases skipTrivia_append a ws with heq | ⟨hnil, -⟩ | ⟨c, -, hopens, -⟩
  · exact heq
  · exact absurd hnil h
  · have hhead : ∀ d, ws.head? = some d → isWhitespace d = true := fun d hd =>
      hws d (mem_of_mem_head? hd)
    rcases hopens with ⟨-, hd⟩ | ⟨-, hd⟩
    · exact absurd (hhead _ hd) (by decide)
    · exact absurd (hhead _ hd) (by decide)

/-- And where all is skipped, so is the whitespace. -/
theorem skipTrivia_append_whitespace_nil (h : skipTrivia a = []) :
    skipTrivia (a ++ ws) = [] := by
  have hsuffix : skipTrivia (a ++ ws) <:+ ws := by
    rcases skipTrivia_append a ws with heq | ⟨-, hsuffix⟩ | ⟨c, hc, -, -⟩
    · rw [heq, h]
      exact suffix_refl _
    · exact hsuffix
    · rw [h] at hc
      cases hc
  rw [← skipTrivia_skipTrivia]
  exact skipTrivia_whitespace fun c hc => hws c (hsuffix.subset hc)

end Whitespace

/-! ## Reading a token in front of more text -/

section Quoted

variable {quote : UInt8}

/-- Two bytes that are read together: an escape, or a doubled quote. -/
def Paired (quote c d : UInt8) : Prop :=
  c = Byte.backslash ∧ quote ≠ Byte.apostrophe ∨ c = quote ∧ d = quote

theorem readQuoted_paired {c d : UInt8} (h : Paired quote c d) (rest : Bytes) :
    readQuoted quote (c :: d :: rest) = readMore 2 (readQuoted quote rest) := by
  rw [readQuoted]
  by_cases hc : c = Byte.backslash ∧ quote ≠ Byte.apostrophe
  · rw [if_pos hc]
  · obtain ⟨rfl, rfl⟩ := h.resolve_left hc
    rw [if_neg hc, if_pos rfl, if_pos rfl]

theorem readQuoted_closed {c d : UInt8} (h : ¬Paired quote c d) (hc : c = quote) (rest : Bytes) :
    readQuoted quote (c :: d :: rest) = (1, true) := by
  unfold Paired at h
  rw [not_or] at h
  rw [readQuoted, if_neg h.1, if_pos hc, if_neg fun hd => h.2 ⟨hc, hd⟩]

theorem readQuoted_plain {c d : UInt8} (h : ¬Paired quote c d) (hc : c ≠ quote) (rest : Bytes) :
    readQuoted quote (c :: d :: rest) = readMore 1 (readQuoted quote (d :: rest)) := by
  unfold Paired at h
  rw [not_or] at h
  rw [readQuoted, if_neg h.1, if_neg hc]

/-- **Induction along the reading of a quoted token.** -/
theorem readQuoted_induction (quote : UInt8) {P : Bytes → Prop} (hnil : P []) (hsingle : ∀ c, P [c])
    (hpaired : ∀ c d rest, Paired quote c d → P rest → P (c :: d :: rest))
    (hclosed : ∀ c d rest, ¬Paired quote c d → c = quote → P (c :: d :: rest))
    (hplain : ∀ c d rest, ¬Paired quote c d → c ≠ quote → P (d :: rest) → P (c :: d :: rest))
    (l : Bytes) : P l := by
  induction hn : l.length using Nat.strongRecOn generalizing l with
  | ind n ih =>
    cases l with
    | nil => exact hnil
    | cons c l =>
      cases l with
      | nil => exact hsingle c
      | cons d rest =>
        have hrest : rest.length < n ∧ (d :: rest).length < n := by
          simp only [length_cons] at hn ⊢
          omega
        by_cases hp : Paired quote c d
        · exact hpaired c d rest hp (ih rest.length hrest.1 rest rfl)
        · by_cases hc : c = quote
          · exact hclosed c d rest hp hc
          · exact hplain c d rest hp hc (ih _ hrest.2 _ rfl)

/-- A quoted token that is not closed takes all there is. -/
theorem readQuoted_open (h : (readQuoted quote l).2 = false) :
    (readQuoted quote l).1 = l.length := by
  induction l using readQuoted_induction quote with
  | hnil => rfl
  | hsingle c => rfl
  | hpaired c d rest hp ih =>
    rw [readQuoted_paired hp] at h ⊢
    exact congrArg (· + 2) (ih h)
  | hclosed c d rest hp hc =>
    rw [readQuoted_closed hp hc] at h
    cases h
  | hplain c d rest hp hc ih =>
    rw [readQuoted_plain hp hc] at h ⊢
    exact congrArg (· + 1) (ih h)

theorem readQuoted_le (l : Bytes) : (readQuoted quote l).1 ≤ l.length := by
  induction l using readQuoted_induction quote with
  | hnil => exact Nat.le_refl 0
  | hsingle c => exact Nat.le_refl 1
  | hpaired c d rest hp ih =>
    rw [readQuoted_paired hp]
    exact Nat.add_le_add_right ih 2
  | hclosed c d rest hp hc =>
    rw [readQuoted_closed hp hc]
    exact Nat.succ_le_succ (Nat.zero_le _)
  | hplain c d rest hp hc ih =>
    rw [readQuoted_plain hp hc]
    exact Nat.add_le_add_right ih 1

theorem readQuoted_pos (quote c : UInt8) (l : Bytes) : 0 < (readQuoted quote (c :: l)).1 := by
  cases l with
  | nil => exact Nat.one_pos
  | cons d l =>
    by_cases hp : Paired quote c d
    · rw [readQuoted_paired hp]
      exact Nat.succ_pos _
    · by_cases hc : c = quote
      · rw [readQuoted_closed hp hc]
        exact Nat.one_pos
      · rw [readQuoted_plain hp hc]
        exact Nat.succ_pos _

/-- A quoted token that ends before the rest is the same without it. -/
theorem readQuoted_append_of_le (h : (readQuoted quote (l ++ b)).1 ≤ l.length) :
    readQuoted quote (l ++ b) = readQuoted quote l := by
  induction l using readQuoted_induction quote with
  | hnil =>
    cases b with
    | nil => rfl
    | cons d b => exact absurd (readQuoted_pos quote d b) (Nat.not_lt.2 h)
  | hsingle c =>
    cases b with
    | nil => rfl
    | cons d b =>
      rw [singleton_append] at h ⊢
      have hd := readQuoted_pos quote d b
      by_cases hp : Paired quote c d
      · rw [readQuoted_paired hp, readMore, length_singleton] at h
        omega
      · by_cases hc : c = quote
        · rw [readQuoted_closed hp hc, readQuoted, beq_iff_eq.2 hc]
        · rw [readQuoted_plain hp hc, readMore, length_singleton] at h
          omega
  | hpaired c d rest hp ih =>
    rw [cons_append, cons_append, readQuoted_paired hp] at h ⊢
    rw [readQuoted_paired hp, ih (Nat.le_of_add_le_add_right h)]
  | hclosed c d rest hp hc =>
    rw [cons_append, cons_append, readQuoted_closed hp hc, readQuoted_closed hp hc]
  | hplain c d rest hp hc ih =>
    rw [cons_append, cons_append, readQuoted_plain hp hc] at h ⊢
    rw [readQuoted_plain hp hc]
    exact congrArg (readMore 1) (ih (Nat.le_of_add_le_add_right h))

/-- Whitespace closes nothing. -/
theorem readQuoted_whitespace (hquote : isWhitespace quote = false) {ws : Bytes}
    (hws : ∀ c ∈ ws, isWhitespace c = true) : (readQuoted quote ws).2 = false := by
  have hne : ∀ c, isWhitespace c = true → c ≠ quote ∧ c ≠ Byte.backslash := by
    intro c hc
    constructor
    · rintro rfl
      rw [hc] at hquote
      cases hquote
    · rintro rfl
      revert hc
      decide
  induction ws with
  | nil => rfl
  | cons c ws ih =>
    have hc := hne c (hws c mem_cons_self)
    cases ws with
    | nil => exact beq_eq_false_iff_ne.2 hc.1
    | cons d ws =>
      have hp : ¬Paired quote c d := fun hp => hp.elim (fun h => hc.2 h.1) fun h => hc.1 h.1
      rw [readQuoted_plain hp hc.1]
      exact ih fun e he => hws e (mem_cons_of_mem c he)

/-- **In front of whitespace** a quoted token is the same, or it is closed
neither with the whitespace nor without. -/
theorem readQuoted_append_whitespace (hquote : isWhitespace quote = false)
    (hescape : quote ≠ Byte.backslash) {ws : Bytes} (hws : ∀ c ∈ ws, isWhitespace c = true)
    (l : Bytes) :
    readQuoted quote (l ++ ws) = readQuoted quote l ∨
      (readQuoted quote (l ++ ws)).2 = false ∧ (readQuoted quote l).2 = false := by
  induction l using readQuoted_induction quote with
  | hnil => exact .inr ⟨readQuoted_whitespace hquote hws, rfl⟩
  | hsingle c =>
    cases ws with
    | nil => exact .inl rfl
    | cons d ws =>
      have hopen := readQuoted_whitespace hquote hws
      have hopen' := readQuoted_whitespace hquote fun e he => hws e (mem_cons_of_mem d he)
      have hd : d ≠ quote := by
        rintro rfl
        rw [hws d mem_cons_self] at hquote
        cases hquote
      rw [singleton_append]
      by_cases hp : Paired quote c d
      · rw [readQuoted_paired hp]
        refine .inr ⟨hopen', beq_eq_false_iff_ne.2 ?_⟩
        rintro rfl
        exact hp.elim (fun h => hescape h.1) fun h => hd h.2
      · by_cases hc : c = quote
        · rw [readQuoted_closed hp hc, readQuoted, beq_iff_eq.2 hc]
          exact .inl rfl
        · rw [readQuoted_plain hp hc]
          exact .inr ⟨hopen, beq_eq_false_iff_ne.2 hc⟩
  | hpaired c d rest hp ih =>
    rw [cons_append, cons_append, readQuoted_paired hp, readQuoted_paired hp]
    exact ih.imp (congrArg (readMore 2)) id
  | hclosed c d rest hp hc =>
    rw [cons_append, cons_append, readQuoted_closed hp hc, readQuoted_closed hp hc]
    exact .inl rfl
  | hplain c d rest hp hc ih =>
    rw [cons_append, cons_append, readQuoted_plain hp hc, readQuoted_plain hp hc]
    exact ih.imp (congrArg (readMore 1)) id

end Quoted

/-! ## Tokens in front of more text -/

/-- The quotes. -/
def IsQuote (c : UInt8) : Prop := c = Byte.apostrophe ∨ c = Byte.doubleQuote ∨ c = Byte.backtick

instance (c : UInt8) : Decidable (IsQuote c) :=
  inferInstanceAs (Decidable (c = Byte.apostrophe ∨ c = Byte.doubleQuote ∨ c = Byte.backtick))

/-- The kind of a quoted token. -/
def quotedKind (c : UInt8) : TokenKind := if c = Byte.backtick then .identifier else .string

theorem IsQuote.ne {c : UInt8} (h : IsQuote c) :
    isIdentifierStart c = false ∧ isDigit c = false ∧ isWhitespace c = false ∧
      c ≠ Byte.backslash := by
  rcases h with rfl | rfl | rfl <;> decide

theorem not_isDigit_of_isIdentifierStart {c : UInt8} (h : isDigit c = true) :
    isIdentifierStart c = false := by
  obtain ⟨hlow, hhigh⟩ := of_decide_eq_true h
  have hlow' : 48 ≤ c.toNat := hlow
  have hhigh' : c.toNat ≤ 57 := hhigh
  have hcap : ¬(65 ≤ c ∧ c ≤ 90) := fun hc => by
    have : 65 ≤ c.toNat := hc.1
    omega
  have hsmall : ¬(97 ≤ c ∧ c ≤ 122) := fun hc => by
    have : 97 ≤ c.toNat := hc.1
    omega
  have hunder : c ≠ Byte.underscore := by
    rintro rfl
    exact absurd hhigh' (by decide)
  rw [isIdentifierStart, isAlphabetic, decide_eq_false hcap, decide_eq_false hsmall,
    beq_eq_false_iff_ne.2 hunder]
  rfl

section ReadToken

variable {c : UInt8}

theorem readToken_identifier (h : isIdentifierStart c = true) (l : Bytes) :
    readToken c l = (.identifier, (l.takeWhile isIdentifierContinue).length, true) :=
  if_pos h

theorem readToken_number (h : isDigit c = true) (l : Bytes) :
    readToken c l = (.number, (l.takeWhile isNumberContinue).length, true) := by
  rw [readToken, not_isDigit_of_isIdentifierStart h, if_neg Bool.false_ne_true, if_pos h]

theorem readToken_quoted (h : IsQuote c) (l : Bytes) :
    readToken c l = (quotedKind c, readQuoted c l) := by
  rw [readToken, h.ne.1, h.ne.2.1, if_neg Bool.false_ne_true, if_neg Bool.false_ne_true]
  exact if_pos h

theorem readToken_symbol (hident : isIdentifierStart c ≠ true) (hdigit : isDigit c ≠ true)
    (hquote : ¬IsQuote c) (l : Bytes) : readToken c l = (.symbol, 0, true) := by
  rw [readToken, if_neg hident, if_neg hdigit]
  exact if_neg hquote

/-- **What is read of two texts agrees** if it does for each kind of token. -/
theorem readToken_cases {P : TokenKind × ℕ × Bool → TokenKind × ℕ × Bool → Prop} (l l' : Bytes)
    (hidentifier : P (.identifier, (l.takeWhile isIdentifierContinue).length, true)
      (.identifier, (l'.takeWhile isIdentifierContinue).length, true))
    (hnumber : P (.number, (l.takeWhile isNumberContinue).length, true)
      (.number, (l'.takeWhile isNumberContinue).length, true))
    (hquoted : IsQuote c → P (quotedKind c, readQuoted c l) (quotedKind c, readQuoted c l'))
    (hsymbol : P (.symbol, 0, true) (.symbol, 0, true)) :
    P (readToken c l) (readToken c l') := by
  by_cases hident : isIdentifierStart c = true
  · rw [readToken_identifier hident, readToken_identifier hident]
    exact hidentifier
  by_cases hdigit : isDigit c = true
  · rw [readToken_number hdigit, readToken_number hdigit]
    exact hnumber
  by_cases hquote : IsQuote c
  · rw [readToken_quoted hquote, readToken_quoted hquote]
    exact hquoted hquote
  · rw [readToken_symbol hident hdigit hquote, readToken_symbol hident hdigit hquote]
    exact hsymbol

theorem readToken_le (c : UInt8) (l : Bytes) : (readToken c l).2.1 ≤ l.length :=
  readToken_cases (P := fun read _ => read.2.1 ≤ l.length) l l
    (takeWhile_sublist _).length_le (takeWhile_sublist _).length_le
    (fun _ => readQuoted_le l) (Nat.zero_le _)

/-- Of the bytes with a property in front, those before a bound are the
same without the rest. -/
theorem length_takeWhile_append_of_le {p : UInt8 → Bool}
    (h : ((l ++ b).takeWhile p).length ≤ l.length) :
    ((l ++ b).takeWhile p).length = (l.takeWhile p).length := by
  rw [takeWhile_append] at h ⊢
  by_cases hall : (l.takeWhile p).length = l.length
  · rw [if_pos hall, length_append] at h ⊢
    omega
  · rw [if_neg hall]

/-- **A token that ends before the rest is the same without it.** -/
theorem readToken_append_of_le (h : (readToken c (l ++ b)).2.1 ≤ l.length) :
    readToken c (l ++ b) = readToken c l := by
  refine readToken_cases (P := fun read read' => read.2.1 ≤ l.length → read = read') (l ++ b) l
    (fun h => ?_) (fun h => ?_) (fun _ h => ?_) (fun _ => rfl) h
  · rw [length_takeWhile_append_of_le h]
  · rw [length_takeWhile_append_of_le h]
  · rw [readQuoted_append_of_le h]

/-- Bytes that cannot begin with whitespace do not go on into it. -/
theorem takeWhile_append_whitespace {p : UInt8 → Bool} {ws : Bytes}
    (hp : ∀ c, isWhitespace c = true → p c = false) (hws : ∀ c ∈ ws, isWhitespace c = true)
    (l : Bytes) : (l ++ ws).takeWhile p = l.takeWhile p := by
  have hnone : ws.takeWhile p = [] := by
    cases ws with
    | nil => rfl
    | cons c ws => exact takeWhile_cons_of_neg (by simp [hp c (hws c mem_cons_self)])
  rw [takeWhile_append, hnone, append_nil]
  by_cases hall : (l.takeWhile p).length = l.length
  · rw [if_pos hall]
    exact ((List.takeWhile_prefix p).eq_of_length hall).symm
  · rw [if_neg hall]

theorem isWhitespace_cases {c : UInt8} (h : isWhitespace c = true) :
    isIdentifierContinue c = false ∧ isNumberContinue c = false := by
  simp only [isWhitespace, Bool.or_eq_true, beq_iff_eq] at h
  rcases h with ((((rfl | rfl) | rfl) | rfl) | rfl) | rfl <;> decide

/-- **In front of whitespace** a token is the same, or it is a quoted one
that takes all there is and is not closed. -/
theorem readToken_append_whitespace {ws : Bytes} (hws : ∀ c ∈ ws, isWhitespace c = true)
    (l : Bytes) :
    readToken c (l ++ ws) = readToken c l ∨
      IsQuote c ∧ readToken c (l ++ ws) = (quotedKind c, (l ++ ws).length, false) ∧
        readToken c l = (quotedKind c, l.length, false) := by
  refine readToken_cases (P := fun read read' => read = read' ∨ IsQuote c ∧
    read = (quotedKind c, (l ++ ws).length, false) ∧ read' = (quotedKind c, l.length, false))
    (l ++ ws) l ?_ ?_ (fun hquote => ?_) (.inl rfl)
  · rw [takeWhile_append_whitespace (fun c hc => (isWhitespace_cases hc).1) hws]
    exact .inl rfl
  · rw [takeWhile_append_whitespace (fun c hc => (isWhitespace_cases hc).2) hws]
    exact .inl rfl
  · have hopen : ∀ k : Bytes, (readQuoted c k).2 = false → readQuoted c k = (k.length, false) :=
      fun k hk => Prod.ext (readQuoted_open hk) hk
    rcases readQuoted_append_whitespace hquote.ne.2.2.1 hquote.ne.2.2.2 hws l with h | ⟨h, h'⟩
    · rw [h]
      exact .inl rfl
    · rw [hopen _ h, hopen _ h']
      exact .inr ⟨hquote, rfl, rfl⟩

end ReadToken

end Shoveler
