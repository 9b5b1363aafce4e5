import Shoveler.Frontend.Tokens

/-!
# Policy and parts of a text

The policy scan of a part of an accepted text finds nothing: what it
remembers when it starts at the part is at most what it remembers when it
comes there from the beginning, and remembering less shows less.
-/

namespace Shoveler

variable {token token' : Token}

/-! ## Quoted tokens are no keywords -/

/-- A word that starts with a letter. -/
def IsWord (word : Bytes) : Prop := ∃ c rest, word = c :: rest ∧ isAlphabetic c = true

instance (word : Bytes) : Decidable (IsWord word) :=
  match word with
  | [] => isFalse fun ⟨_, _, h, _⟩ => by cases h
  | c :: rest =>
    decidable_of_iff (isAlphabetic c = true)
      ⟨fun h => ⟨c, rest, rfl, h⟩, fun ⟨d, l, h, hd⟩ => by
        obtain ⟨rfl, -⟩ := List.cons.inj h
        exact hd⟩

/-- No quote is a letter, in either case. -/
theorem IsQuote.asciiLower_ne {quote c : UInt8} (hquote : IsQuote quote)
    (hc : isAlphabetic c = true) : asciiLower quote ≠ asciiLower c := by
  have hlower : asciiLower quote = quote := by
    rcases hquote with rfl | rfl | rfl <;> decide
  have hsmall : 97 ≤ (asciiLower c).toNat ∧ (asciiLower c).toNat ≤ 122 := by
    unfold asciiLower
    rw [isAlphabetic, Bool.or_eq_true, decide_eq_true_iff, decide_eq_true_iff] at hc
    split
    · rename_i hcap
      have hlow : 65 ≤ c.toNat := hcap.1
      have hhigh : c.toNat ≤ 90 := hcap.2
      rw [UInt8.toNat_add]
      simp only [UInt8.toNat_ofNat]
      omega
    · rename_i hcap
      exact hc.resolve_left hcap
  intro h
  rw [hlower] at h
  rw [← h] at hsmall
  rcases hquote with rfl | rfl | rfl <;> revert hsmall <;> decide

/-- **A quoted token is no keyword.** -/
theorem Token.eqlIgnoreCase_of_quote {c : UInt8} {word : Bytes} (hquote : IsQuote c)
    (h : token.lexeme.head? = some c) (hword : IsWord word) : token.eqlIgnoreCase word = false := by
  obtain ⟨d, rest, rfl, hd⟩ := hword
  obtain ⟨l, hl⟩ := List.head?_eq_some_iff.1 h
  have hne : namesEqual token.lexeme (d :: rest) = false := by
    refine decide_eq_false fun hfold => ?_
    rw [hl] at hfold
    exact hquote.asciiLower_ne hd (List.cons.inj hfold).1
  rw [Token.eqlIgnoreCase, hne, Bool.and_false]

theorem Token.Same.eqlIgnoreCase (h : token.Same token') (word : Bytes) :
    token'.eqlIgnoreCase word = token.eqlIgnoreCase word := by
  unfold Token.eqlIgnoreCase
  rw [h.kind, h.lexeme]

/-- A keyword is echoed as it is. -/
theorem Echoes.of_keyword {cut : Prop} {tail more ts' : List Token} {word : Bytes}
    (h : Echoes cut tail (token :: more) ts') (htoken : token.eqlIgnoreCase word = true)
    (hword : IsWord word) (htail : tail <:+ more) :
    ∃ token' more', ts' = token' :: more' ∧ token.Same token' ∧ Echoes cut tail more more' := by
  generalize hts : token :: more = ts at h
  cases h with
  | done =>
    have hle := htail.length_le
    rw [← hts, List.length_cons] at hle
    omega
  | cut _ ht =>
    obtain ⟨rfl, -⟩ := List.cons.inj hts
    obtain ⟨c, hquote, -, -, hhead, -⟩ := ht.quote
    rw [Token.eqlIgnoreCase_of_quote hquote hhead hword] at htoken
    cases htoken
  | @same _ token' _ more' ht hecho =>
    obtain ⟨rfl, rfl⟩ := List.cons.inj hts
    exact ⟨token', more', rfl, ht, hecho⟩

theorem keywordOf_of_quote {c : UInt8} (hquote : IsQuote c) (h : token.lexeme.head? = some c) :
    keywordOf token = none := by
  have hwords : ∀ entry ∈ keywords, IsWord (ascii entry.1) := by decide
  have hnone : keywords.find? (fun entry => token.eqlIgnoreCase (ascii entry.1)) = none := by
    refine List.find?_eq_none.2 fun entry hentry => ?_
    rw [Token.eqlIgnoreCase_of_quote hquote h (hwords entry hentry)]
    exact Bool.false_ne_true
  rw [keywordOf, hnone]
  rfl

theorem Token.Same.keywordOf (h : token.Same token') :
    Shoveler.keywordOf token' = Shoveler.keywordOf token := by
  unfold Shoveler.keywordOf
  simp only [h.eqlIgnoreCase]

/-! ## Remembering less -/

namespace Policy

/-- **A scan that remembers less**: no keyword at all, or the same one, and
then perhaps not that it is inside `CREATE TABLE`. -/
structure Less (less more : Scan) : Prop where
  prev : less.prev = none ∧ less.inCreateTable = false ∨ less.prev = more.prev
  table : less.inCreateTable = false ∨
    less.inCreateTable = more.inCreateTable ∧ less.parenDepth = more.parenDepth

namespace Less

variable {less more : Scan}

theorem fresh (more : Scan) : Less {} more := ⟨.inl ⟨rfl, rfl⟩, .inl rfl⟩

theorem symbol (h : Less less more) (lexeme : Bytes) :
    Less (less.symbol lexeme) (more.symbol lexeme) := by
  obtain ⟨hprev, htable⟩ := h
  unfold Scan.symbol
  by_cases hsemicolon : lexeme = ascii ";"
  · rw [if_pos hsemicolon, if_pos hsemicolon]
    exact fresh {}
  rw [if_neg hsemicolon, if_neg hsemicolon]
  rcases htable with hout | ⟨hin, hdepth⟩
  · -- outside `CREATE TABLE` a parenthesis changes nothing
    have hless : ∀ p : Prop, ¬(less.inCreateTable = true ∧ p) := fun p hp => by
      rw [hout] at hp
      exact Bool.false_ne_true hp.1
    rw [if_neg (hless _), if_neg (hless _)]
    split
    · exact ⟨hprev, .inl hout⟩
    · split
      · exact ⟨hprev, .inl hout⟩
      · exact ⟨hprev, .inl hout⟩
  · rw [← hin]
    split
    · exact ⟨hprev, .inr ⟨rfl, congrArg (· + 1) hdepth⟩⟩
    · split
      · exact ⟨hprev, .inr ⟨rfl, congrArg (· - 1) hdepth⟩⟩
      · exact ⟨hprev, .inr ⟨hin, hdepth⟩⟩

theorem entered (h : Less less more) (keyword : Keyword) :
    Less (less.entered keyword) (more.entered keyword) := by
  obtain ⟨hprev, htable⟩ := h
  unfold Scan.entered
  rcases hprev with ⟨hnone, hout⟩ | hsame
  · have hless : ¬(keyword = .table ∧ less.prev = some .create) := by
      rw [hnone]
      exact fun hp => by cases hp.2
    rw [if_neg hless]
    exact ⟨.inl ⟨hnone, hout⟩, .inl hout⟩
  · rw [← hsame]
    split
    · exact ⟨.inr rfl, .inr ⟨rfl, rfl⟩⟩
    · exact ⟨.inr hsame, htable⟩

/-- What the one shows that remembers less, the other shows too. -/
theorem shows (h : Less less more) {keyword : Keyword} (hmore : more.shows keyword = none) :
    less.shows keyword = none := by
  have htable := (h.entered keyword).table
  simp only [Scan.shows, Option.orElse_eq_orElse, Option.orElse_eq_or, Option.or_eq_none_iff] at hmore ⊢
  obtain ⟨halone, hbehind, -, hengine⟩ := hmore
  have hbehind' : (less.prev.bind fun prev => behind prev keyword) = none := by
    rcases h.prev with ⟨hnone, -⟩ | hsame
    · rw [hnone]
      rfl
    · rw [hsame]
      exact hbehind
  refine ⟨halone, hbehind', ?_, ?_⟩
  · -- a temporary table shows already by its last keyword
    refine if_neg fun ⟨hkeyword, _, hprev⟩ => ?_
    rw [hkeyword] at hbehind'
    rcases hprev with hprev | hprev
    · rw [hprev] at hbehind'
      cases hbehind'
    · rw [hprev] at hbehind'
      cases hbehind'
  · refine if_neg fun ⟨hin, hdepth, hkeyword⟩ => ?_
    rcases htable with hout | ⟨hsame, hsameDepth⟩
    · rw [hin] at hout
      cases hout
    · rw [hsame] at hin
      rw [hsameDepth] at hdepth
      rw [if_pos ⟨hin, hdepth, hkeyword⟩] at hengine
      cases hengine

/-- **A round at the same token.** -/
theorem step (h : Less less more) (hsame : token.Same token') {more' : Scan}
    (hmore : more.step token = .ok more') :
    ∃ less', less.step token' = .ok less' ∧ Less less' more' := by
  unfold Scan.step at hmore ⊢
  rw [hsame.kind, hsame.lexeme, hsame.keywordOf]
  split at hmore
  · obtain rfl := Except.ok.inj hmore
    exact ⟨_, rfl, h.symbol _⟩
  · cases hkeyword : keywordOf token with
    | none =>
      rw [hkeyword] at hmore
      obtain rfl := Except.ok.inj hmore
      exact ⟨_, rfl, h⟩
    | some keyword =>
      rw [hkeyword] at hmore
      dsimp only at hmore ⊢
      cases hshows : more.shows keyword with
      | some feature =>
        rw [hshows] at hmore
        cases hmore
      | none =>
        rw [hshows] at hmore
        obtain rfl := Except.ok.inj hmore
        rw [h.shows hshows]
        exact ⟨_, rfl, .inr rfl, (h.entered keyword).table⟩
  · obtain rfl := Except.ok.inj hmore
    exact ⟨_, rfl, h⟩

end Less

/-- At a quoted token the scan changes nothing. -/
theorem step_of_cut (h : token.Cut token') (self : Scan) :
    self.step token' = .ok self := by
  obtain ⟨c, hquote, -, hkind, -, hhead⟩ := h.quote
  unfold Scan.step
  rw [hkind, keywordOf_of_quote hquote hhead]
  unfold quotedKind
  split
  · rename_i hsymbol
    split at hsymbol <;> cases hsymbol
  · rfl
  · rfl

/-- **What is found in an echo is found in the text**, by a scan that
remembers more. -/
theorem scan_echoes {cut : Prop} {tail ts ts' : List Token} (h : Echoes cut tail ts ts')
    {less more : Scan} (hless : Less less more) (hmore : scan more ts = none) :
    scan less ts' = none := by
  induction h generalizing less more with
  | done => rfl
  | cut _ ht =>
    rw [scan, step_of_cut ht]
    rfl
  | @same token token' ts ts' ht _ ih =>
    rw [scan] at hmore ⊢
    cases hstep : more.step token with
    | error violation =>
      rw [hstep] at hmore
      cases hmore
    | ok more' =>
      rw [hstep] at hmore
      obtain ⟨less', hstep', hless'⟩ := hless.step ht hstep
      rw [hstep']
      exact ih hless' hmore

/-- A scan that finds nothing finds nothing from a token on. -/
theorem scan_suffix {self : Scan} {l r : List Token} (hsuffix : r <:+ l)
    (h : scan self l = none) : ∃ later, scan later r = none := by
  induction l generalizing self with
  | nil =>
    rw [List.eq_nil_of_suffix_nil hsuffix]
    exact ⟨self, rfl⟩
  | cons token l ih =>
    rcases List.suffix_cons_iff.1 hsuffix with rfl | hsuffix
    · exact ⟨self, h⟩
    · rw [scan] at h
      cases hstep : self.step token with
      | error violation =>
        rw [hstep] at h
        cases h
      | ok self' =>
        rw [hstep] at h
        exact ih hsuffix h

end Policy

/-- **A part of an accepted text is accepted.** -/
theorem firstViolation_excerpt {cut : Prop} {sql body : Bytes} {ts rest : List Token}
    (h : firstViolation sql = none) (hts : ts <:+ tokenize sql)
    (hecho : Echoes cut rest ts (tokenize body)) : firstViolation body = none := by
  obtain ⟨later, hlater⟩ := Policy.scan_suffix hts h
  exact Policy.scan_echoes hecho (.fresh later) hlater

end Shoveler
