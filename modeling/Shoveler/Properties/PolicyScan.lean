import Shoveler.Common.History
import Shoveler.Frontend.Screening

/-!
# What the policy scan reports

The features that are refused are words, pairs of words that stand directly
behind one another, and `ENGINE` behind the column list of a
`CREATE TABLE`. The scan finds pairs by the last keyword of the statement
and not by the token before, and the place behind a column list by being
outside parentheses. It loses nothing by that: whatever is specified is
reported, or something before it is. But it also reports `KEY` where
`FOREIGN` is some other tokens away, and `ENGINE` where it is the name of
the table (`names_reported`). Where no such word stands in front of the
first violation that is specified, the scan is exact
(`policy_scan_exact`).
-/

namespace Shoveler

open List

namespace Policy

open Sql (isSymbol)

/-! ## What is specified -/

/-- The token directly before is this keyword. -/
def directly (before : List Token) (word : Keyword) : Bool :=
  decide (before.getLast?.bind keywordOf = some word)

/-- How deep in parentheses, behind one more token. -/
def parenthesis (depth : ℕ) (token : Token) : ℕ :=
  if isSymbol "(" token then depth + 1
  else if isSymbol ")" token then depth - 1
  else depth

/-- How many parentheses are left open. -/
def depth (tokens : List Token) : ℕ := tokens.foldl parenthesis 0

/-- `TABLE` behind `CREATE` stands before, in the same statement, with
something like this in between. -/
def behindTable (follows : List Token → Keyword → Bool) (between : List Token → Bool)
    (before : List Token) : Bool :=
  (History.places before).any fun place =>
    match place.2 with
    | [] => false
    | table :: rest =>
      decide (keywordOf table = some .table) && follows place.1 .create &&
        !rest.any (isSymbol ";") && between rest

/-- **The column list of a `CREATE TABLE` has been closed**: a parenthesis
was opened, and all are closed. -/
def behindColumnList : List Token → Bool :=
  behindTable directly fun rest => rest.any (isSymbol "(") && decide (depth rest = 0)

/-- The feature a keyword shows, by what it follows and whether a table
option can stand here. -/
def shown (follows : Keyword → Bool) (option : Bool) : Keyword → Option UnsupportedFeature
  | .grant | .revoke => some .userAuth
  | .binlog | .replication => some .replication
  | .references => some .foreignKey
  | .key => if follows .foreign then some .foreignKey else none
  | .user => if follows .create then some .userAuth else none
  | .plugin => if follows .install || follows .uninstall then some .plugin else none
  | .table => if follows .temp || follows .temporary then some .temporaryTable else none
  | .engine => if option then some .storageEngineSelection else none
  | _ => none

/-- **A violation, as it is specified**: behind the tokens before it. -/
def specified (before : List Token) (token : Token) : Option PolicyViolation :=
  ((keywordOf token).bind (shown (directly before) (behindColumnList before))).map
    (violation · token)

/-- The first violation that is specified. -/
def firstSpecified (tokens : List Token) : Option PolicyViolation :=
  History.first specified [] tokens

/-! ## What is reported -/

/-- The last keyword of the statement, behind one more token. -/
def remember (last : Option Keyword) (token : Token) : Option Keyword :=
  if isSymbol ";" token then none else (keywordOf token).or last

/-- The last keyword of the statement. -/
def lastKeyword (before : List Token) : Option Keyword := before.foldl remember none

/-- The last keyword is this one, wherever it stands. -/
def loosely (before : List Token) (word : Keyword) : Bool :=
  decide (lastKeyword before = some word)

/-- Outside parentheses behind `CREATE .. TABLE`. -/
def outside : List Token → Bool := behindTable loosely fun rest => decide (depth rest = 0)

/-- What the scan takes for a violation. -/
def reported (before : List Token) (token : Token) : Option PolicyViolation :=
  ((keywordOf token).bind (shown (loosely before) (outside before))).map (violation · token)

/-- **A stray word**: reported, because its first word is the last keyword
of the statement although not directly before it, or because it is outside
parentheses although not behind a column list. -/
def stray (before : List Token) (token : Token) : Bool :=
  (reported before token).isSome && (specified before token).isNone

/-- **No stray word before the first violation.** -/
def NoStray (tokens : List Token) : Prop :=
  ∀ place ∈ History.places tokens, ∀ token ∈ place.2.head?,
    firstSpecified place.1 = none → stray place.1 token = false

instance (tokens : List Token) : Decidable (NoStray tokens) :=
  inferInstanceAs (Decidable (∀ place ∈ History.places tokens, ∀ token ∈ place.2.head?,
    firstSpecified place.1 = none → stray place.1 token = false))

/-! ## Places behind a table -/

section Places

variable {before : List Token} {token : Token}

theorem behindTable_iff {follows : List Token → Keyword → Bool} {between : List Token → Bool} :
    behindTable follows between before = true ↔
      ∃ earlier table rest, before = earlier ++ table :: rest ∧ keywordOf table = some .table ∧
        follows earlier .create = true ∧ (∀ t ∈ rest, isSymbol ";" t = false) ∧
        between rest = true := by
  rw [behindTable, any_eq_true]
  constructor
  · rintro ⟨⟨earlier, later⟩, hplace, h⟩
    cases later with
    | nil => cases h
    | cons table rest =>
      simp only [Bool.and_eq_true, decide_eq_true_eq, Bool.not_eq_true', any_eq_false,
        Bool.not_eq_true] at h
      exact ⟨earlier, table, rest, (History.mem_places.1 hplace).symm, h.1.1.1, h.1.1.2, h.1.2, h.2⟩
  · rintro ⟨earlier, table, rest, rfl, htable, hfollows, hsemicolon, hbetween⟩
    refine ⟨(earlier, table :: rest), History.mem_places.2 rfl, ?_⟩
    simp only [Bool.and_eq_true, decide_eq_true_eq, Bool.not_eq_true', any_eq_false,
      Bool.not_eq_true]
    exact ⟨⟨⟨htable, hfollows⟩, hsemicolon⟩, hbetween⟩

/-- Since a `TABLE` behind `CREATE` in the same statement so many
parentheses are left open. -/
def TableAt (before : List Token) (d : ℕ) : Prop :=
  ∃ earlier table rest, before = earlier ++ table :: rest ∧ keywordOf table = some .table ∧
    loosely earlier .create = true ∧ (∀ t ∈ rest, isSymbol ";" t = false) ∧ depth rest = d

theorem outside_iff : outside before = true ↔ TableAt before 0 := by
  simp only [outside, behindTable_iff, TableAt, decide_eq_true_eq]

theorem lastKeyword_concat :
    lastKeyword (before ++ [token]) = remember (lastKeyword before) token := by
  rw [lastKeyword, foldl_append]
  rfl

theorem depth_concat : depth (before ++ [token]) = parenthesis (depth before) token := by
  rw [depth, foldl_append]
  rfl

/-- **One token more**: the table starts with it, or was there before. -/
theorem tableAt_concat {d : ℕ} :
    TableAt (before ++ [token]) d ↔
      keywordOf token = some .table ∧ loosely before .create = true ∧ d = 0 ∨
        isSymbol ";" token = false ∧ ∃ d', TableAt before d' ∧ d = parenthesis d' token := by
  constructor
  · rintro ⟨earlier, table, rest, heq, htable, hcreate, hsemicolon, rfl⟩
    cases rest using reverseRecOn with
    | nil =>
      obtain ⟨rfl, hlast⟩ := append_inj' heq rfl
      obtain ⟨rfl, -⟩ := cons.inj hlast
      exact .inl ⟨htable, hcreate, rfl⟩
    | append_singleton rest last =>
      rw [← cons_append, ← append_assoc] at heq
      obtain ⟨rfl, hlast⟩ := append_inj' heq rfl
      obtain ⟨rfl, -⟩ := cons.inj hlast
      rw [forall_mem_append, forall_mem_singleton] at hsemicolon
      refine .inr ⟨hsemicolon.2, depth rest, ?_, depth_concat⟩
      exact ⟨earlier, table, rest, rfl, htable, hcreate, hsemicolon.1, rfl⟩
  · rintro (⟨htable, hcreate, rfl⟩ | ⟨hother, _, ⟨earlier, table, rest, rfl, htable, hcreate,
      hsemicolon, rfl⟩, rfl⟩)
    · exact ⟨before, token, [], rfl, htable, hcreate, forall_mem_nil _, rfl⟩
    · refine ⟨earlier, table, rest ++ [token], ?_, htable, hcreate, ?_, depth_concat⟩
      · rw [← cons_append, ← append_assoc]
      · exact forall_mem_append.2 ⟨hsemicolon, forall_mem_singleton.2 hother⟩

end Places

/-! ## The state of the scan -/

/-- **The state keeps track of the tokens read.** -/
structure Tracks (state : Scan) (before : List Token) : Prop where
  prev : state.prev = lastKeyword before
  inside : state.inCreateTable = true → TableAt before state.parenDepth
  least : ∀ d, TableAt before d → state.inCreateTable = true ∧ state.parenDepth ≤ d

theorem tracks_start : Tracks {} [] where
  prev := rfl
  inside := fun h => by cases h
  least := by
    rintro d ⟨earlier, table, rest, heq, -⟩
    cases earlier with
    | nil => cases heq
    | cons t earlier => cases heq

theorem keywordOf_of_kind {token : Token} (h : token.kind ≠ .identifier) :
    keywordOf token = none := by
  have hnone : keywords.find? (fun entry => token.eqlIgnoreCase (ascii entry.1)) = none := by
    refine find?_eq_none.2 fun entry _ => ?_
    rw [Token.eqlIgnoreCase, decide_eq_false h, Bool.false_and]
    exact Bool.false_ne_true
  rw [keywordOf, hnone]
  rfl

theorem kind_of_keyword {token : Token} {keyword : Keyword} (h : keywordOf token = some keyword) :
    token.kind = .identifier := by
  by_contra hne
  rw [keywordOf_of_kind hne] at h
  cases h

theorem isSymbol_of_keyword {token : Token} {keyword : Keyword}
    (h : keywordOf token = some keyword) (symbol : String) : isSymbol symbol token = false := by
  rw [isSymbol, kind_of_keyword h]
  rfl

namespace Tracks

variable {self : Scan} {before : List Token} {token : Token}

/-- Outside parentheses is what the scan takes for it. -/
theorem outside_eq (h : Tracks self before) :
    outside before = (self.inCreateTable && decide (self.parenDepth = 0)) := by
  rw [Bool.eq_iff_iff, outside_iff, Bool.and_eq_true, decide_eq_true_eq]
  constructor
  · intro htable
    obtain ⟨hinside, hle⟩ := h.least 0 htable
    exact ⟨hinside, Nat.le_zero.1 hle⟩
  · rintro ⟨hinside, hzero⟩
    have htable := h.inside hinside
    rwa [hzero] at htable

/-- A statement ends. -/
theorem semicolon (hsemicolon : isSymbol ";" token = true) : Tracks {} (before ++ [token]) where
  prev := by
    rw [lastKeyword_concat, remember, if_pos hsemicolon]
  inside := fun h => by cases h
  least := by
    intro d htable
    rcases tableAt_concat.1 htable with ⟨hkeyword, -, -⟩ | ⟨hother, -⟩
    · rw [isSymbol_of_keyword hkeyword] at hsemicolon
      cases hsemicolon
    · rw [hother] at hsemicolon
      cases hsemicolon

theorem parenthesis_le {d d' : ℕ} (h : d ≤ d') (token : Token) :
    parenthesis d token ≤ parenthesis d' token := by
  unfold parenthesis
  split
  · omega
  · split <;> omega

/-- **A token that is no keyword** changes at most the parentheses. -/
theorem other (h : Tracks self before) (hkeyword : keywordOf token = none)
    (hsemicolon : isSymbol ";" token = false) {self' : Scan} (hprev : self'.prev = self.prev)
    (hinside : self'.inCreateTable = self.inCreateTable)
    (hdepth : self.inCreateTable = true → self'.parenDepth = parenthesis self.parenDepth token) :
    Tracks self' (before ++ [token]) where
  prev := by
    rw [lastKeyword_concat, remember, hsemicolon, if_neg Bool.false_ne_true, hkeyword, hprev, h.prev]
    rfl
  inside := by
    intro htrue
    rw [hinside] at htrue
    exact tableAt_concat.2 (.inr ⟨hsemicolon, self.parenDepth, h.inside htrue, hdepth htrue⟩)
  least := by
    intro d htable
    rcases tableAt_concat.1 htable with ⟨htoken, -⟩ | ⟨-, d', hbefore, rfl⟩
    · rw [hkeyword] at htoken
      cases htoken
    · obtain ⟨htrue, hle⟩ := h.least d' hbefore
      refine ⟨hinside.trans htrue, ?_⟩
      rw [hdepth htrue]
      exact parenthesis_le hle token

/-- **A keyword** is remembered, and `TABLE` behind `CREATE` enters. -/
theorem keyword (h : Tracks self before) {keyword : Keyword}
    (hkeyword : keywordOf token = some keyword) :
    Tracks { self.entered keyword with prev := some keyword, prev2 := self.prev }
      (before ++ [token]) := by
  have hsemicolon := isSymbol_of_keyword hkeyword ";"
  have hsame : ∀ d, parenthesis d token = d := fun d => by
    rw [parenthesis, isSymbol_of_keyword hkeyword, isSymbol_of_keyword hkeyword]
    rfl
  have hprev : some keyword = lastKeyword (before ++ [token]) := by
    rw [lastKeyword_concat, remember, hsemicolon, if_neg Bool.false_ne_true, hkeyword]
    rfl
  by_cases henters : keyword = .table ∧ self.prev = some .create
  · have hstart : keywordOf token = some .table ∧ loosely before .create = true := by
      refine ⟨henters.1 ▸ hkeyword, decide_eq_true ?_⟩
      rw [← h.prev, henters.2]
    rw [Scan.entered, if_pos henters]
    refine ⟨hprev, fun _ => tableAt_concat.2 (.inl ⟨hstart.1, hstart.2, rfl⟩), ?_⟩
    intro d _
    exact ⟨rfl, Nat.zero_le d⟩
  · rw [Scan.entered, if_neg henters]
    refine ⟨hprev, fun htrue => ?_, fun d htable => ?_⟩
    · exact tableAt_concat.2 (.inr ⟨hsemicolon, _, h.inside htrue, (hsame _).symm⟩)
    · rcases tableAt_concat.1 htable with ⟨htoken, hcreate, -⟩ | ⟨-, d', hbefore, rfl⟩
      · -- the scan would have entered
        refine absurd ⟨Option.some.inj (hkeyword.symm.trans htoken), ?_⟩ henters
        rw [h.prev]
        exact of_decide_eq_true hcreate
      · rw [hsame]
        exact h.least d' hbefore

end Tracks

/-! ## The steps of the scan -/

/-- A keyword alone, or behind another. -/
theorem alone_or_behind (last : Option Keyword) (k : Keyword) :
    (alone k <|> last.bind fun p => behind p k) =
      shown (fun word => decide (last = some word)) false k := by
  cases last with
  | none => cases k <;> rfl
  | some p => cases k <;> cases p <;> rfl

/-- Only `ENGINE` is asked whether it is an option. -/
theorem shown_of_ne {k : Keyword} (h : k ≠ .engine) (follows : Keyword → Bool)
    (option option' : Bool) : shown follows option k = shown follows option' k := by
  cases k with
  | engine => exact absurd rfl h
  | _ => rfl

section Step

variable {self : Scan} {before : List Token} {token : Token}

/-- **The scan shows what is loosely there.** -/
theorem Tracks.shows_eq (h : Tracks self before) (keyword : Keyword) :
    self.shows keyword = shown (loosely before) (outside before) keyword := by
  -- in two parts: the words, and the option
  have hwords : ∀ option : Option UnsupportedFeature,
      (alone keyword <|> (self.prev.bind fun p => behind p keyword) <|>
        (if keyword = .table ∧ self.prev2 = some .create ∧
          (self.prev = some .temporary ∨ self.prev = some .temp) then some .temporaryTable
        else none) <|> option) = (shown (loosely before) false keyword <|> option) := by
    intro option
    have hloosely : shown (loosely before) false keyword =
        (alone keyword <|> self.prev.bind fun p => behind p keyword) := by
      rw [h.prev]
      exact (alone_or_behind (lastKeyword before) keyword).symm
    rw [hloosely]
    split
    · -- a table behind `TEMP` is shown already
      rename_i hclause
      obtain ⟨rfl, -, hprev⟩ := hclause
      rcases hprev with hprev | hprev <;> rw [hprev] <;> rfl
    · cases alone keyword with
      | none => rfl
      | some feature => rfl
  rw [Scan.shows, hwords]
  by_cases hengine : keyword = .engine
  · subst hengine
    have hentered : self.entered .engine = self := if_neg fun h => by cases h.1
    rw [hentered, h.outside_eq]
    cases self.inCreateTable with
    | false => rfl
    | true => cases self.parenDepth <;> rfl
  · rw [if_neg fun hoption => hengine hoption.2.2, shown_of_ne hengine (loosely before)
      (outside before) false]
    cases shown (loosely before) false keyword with
    | none => rfl
    | some feature => rfl

/-- **The scan stops where something is reported.** -/
theorem Tracks.step_of_some (h : Tracks self before) {v : PolicyViolation}
    (hreported : reported before token = some v) : self.step token = .error v := by
  obtain ⟨feature, hfeature, rfl⟩ := Option.map_eq_some_iff.1 hreported
  obtain ⟨keyword, hkeyword, hshown⟩ := Option.bind_eq_some_iff.1 hfeature
  simp only [Scan.step, kind_of_keyword hkeyword, hkeyword, h.shows_eq, hshown]

/-- Only a symbol opens or closes parentheses. -/
theorem parenthesis_of_kind (hkind : token.kind ≠ .symbol) (d : ℕ) : parenthesis d token = d := by
  rw [parenthesis, isSymbol, isSymbol, decide_eq_false hkind]
  rfl

/-- A symbol is taken as it is. -/
theorem Tracks.symbol (h : Tracks self before) (hkind : token.kind = .symbol) :
    Tracks (self.symbol token.lexeme) (before ++ [token]) := by
  have hsymbol : ∀ s : String, isSymbol s token = decide (token.lexeme = ascii s) := fun s => by
    rw [isSymbol, hkind]
    rfl
  have hkeyword : keywordOf token = none := keywordOf_of_kind (by rw [hkind]; decide)
  by_cases hsemicolon : token.lexeme = ascii ";"
  · rw [Scan.symbol, if_pos hsemicolon]
    exact .semicolon ((hsymbol ";").trans (decide_eq_true hsemicolon))
  · rw [Scan.symbol, if_neg hsemicolon]
    refine h.other hkeyword ((hsymbol ";").trans (decide_eq_false hsemicolon)) ?_ ?_ fun hinside => ?_
    · split
      · rfl
      · split <;> rfl
    · split
      · rfl
      · split <;> rfl
    · simp only [parenthesis, hsymbol, hinside, true_and, decide_eq_true_eq]
      split
      · rfl
      · split <;> rfl

/-- **And goes on where nothing is.** -/
theorem Tracks.step_of_none (h : Tracks self before) (hreported : reported before token = none) :
    ∃ self', self.step token = .ok self' ∧ Tracks self' (before ++ [token]) := by
  by_cases hsymbol : token.kind = .symbol
  · refine ⟨self.symbol token.lexeme, ?_, h.symbol hsymbol⟩
    simp only [Scan.step, hsymbol]
  · cases hkeyword : keywordOf token with
    | none =>
      refine ⟨self, ?_, h.other hkeyword ?_ rfl rfl fun _ => (parenthesis_of_kind hsymbol _).symm⟩
      · unfold Scan.step
        cases hkind : token.kind with
        | symbol => exact absurd hkind hsymbol
        | identifier => simp only [hkeyword]
        | number => rfl
        | string => rfl
      · rw [isSymbol, decide_eq_false hsymbol, Bool.false_and]
    | some keyword =>
      refine ⟨_, ?_, h.keyword hkeyword⟩
      have hshown : shown (loosely before) (outside before) keyword = none := by
        rw [reported, hkeyword] at hreported
        exact Option.map_eq_none_iff.1 hreported
      simp only [Scan.step, kind_of_keyword hkeyword, hkeyword, h.shows_eq, hshown]

end Step

/-- **The scan reports the first violation that is loosely there.** -/
theorem firstViolation_eq (sql : Bytes) :
    firstViolation sql = History.first reported [] (tokenize sql) := by
  refine History.scan_eq_first (fun _ => rfl) (fun self token l => ?_)
    (fun _ _ _ _ h hreported => h.step_of_some hreported)
    (fun _ _ _ h hreported => h.step_of_none hreported) tracks_start (tokenize sql)
  rw [scan]
  cases self.step token with
  | error v => rfl
  | ok self' => rfl

/-! ## Nothing is lost -/

section Specified

variable {before : List Token} {token : Token}

theorem loosely_of_directly {word : Keyword} (h : directly before word = true) :
    loosely before word = true := by
  obtain ⟨last, hlast, hkeyword⟩ := Option.bind_eq_some_iff.1 (of_decide_eq_true h)
  obtain ⟨earlier, rfl⟩ := getLast?_eq_some_iff.1 hlast
  refine decide_eq_true ?_
  rw [lastKeyword_concat, remember, isSymbol_of_keyword hkeyword, if_neg Bool.false_ne_true,
    hkeyword]
  rfl

theorem outside_of_behindColumnList (h : behindColumnList before = true) :
    outside before = true := by
  obtain ⟨earlier, table, rest, heq, htable, hcreate, hsemicolon, hclosed⟩ := behindTable_iff.1 h
  refine behindTable_iff.2 ⟨earlier, table, rest, heq, htable, loosely_of_directly hcreate,
    hsemicolon, ?_⟩
  exact (Bool.and_eq_true_iff.1 hclosed).2

/-- What is shown stays so where more follows. -/
theorem shown_mono {follows follows' : Keyword → Bool} {option option' : Bool}
    (hfollows : ∀ word, follows word = true → follows' word = true)
    (hoption : option = true → option' = true) {k : Keyword} {feature : UnsupportedFeature}
    (h : shown follows option k = some feature) : shown follows' option' k = some feature := by
  have hor : ∀ first second, (follows first || follows second) = true →
      (follows' first || follows' second) = true := by
    intro first second hor
    rw [Bool.or_eq_true] at hor ⊢
    exact hor.imp (hfollows first) (hfollows second)
  have hif : ∀ {c c' : Bool} {f : UnsupportedFeature}, (c = true → c' = true) →
      (if c = true then some f else none) = some feature →
        (if c' = true then some f else none) = some feature := by
    intro c c' f himp hc
    cases c with
    | false => cases hc
    | true => rwa [if_pos (himp rfl)]
  cases k with
  | key => exact hif (hfollows _) h
  | user => exact hif (hfollows _) h
  | plugin => exact hif (hor _ _) h
  | table => exact hif (hor _ _) h
  | engine => exact hif hoption h
  | _ => exact h

/-- **What is specified is reported as it is.** -/
theorem reported_of_specified {v : PolicyViolation} (h : specified before token = some v) :
    reported before token = some v := by
  obtain ⟨feature, hfeature, rfl⟩ := Option.map_eq_some_iff.1 h
  obtain ⟨keyword, hkeyword, hshown⟩ := Option.bind_eq_some_iff.1 hfeature
  have hloosely : shown (loosely before) (outside before) keyword = some feature :=
    shown_mono (fun _ => loosely_of_directly) outside_of_behindColumnList hshown
  rw [reported, hkeyword, Option.bind_some, hloosely]
  rfl

/-- Apart from stray words nothing else is. -/
theorem reported_eq_specified (h : stray before token = false) :
    reported before token = specified before token := by
  cases hspecified : specified before token with
  | some v => exact reported_of_specified hspecified
  | none =>
    rw [stray, hspecified, Option.isNone_none, Bool.and_true] at h
    exact Option.not_isSome_iff_eq_none.1 (Bool.eq_false_iff.1 h)

end Specified

/-! ## The scan -/

/-- A violation tells where it is. -/
theorem offset_of_reported {before : List Token} {token : Token} {v : PolicyViolation}
    (h : reported before token = some v) : v.offset = token.offset := by
  obtain ⟨feature, -, rfl⟩ := Option.map_eq_some_iff.1 h
  rfl

/-- **The policy scan is exact** where no stray word stands before the
first violation, and only there. In any text it reports nothing but
unquoted keywords, and never overlooks a violation altogether. -/
theorem policy_scan_exact (sql : Bytes) :
    (firstViolation sql = firstSpecified (tokenize sql) ↔ NoStray (tokenize sql)) ∧
      ((firstSpecified (tokenize sql)).isSome = true → (firstViolation sql).isSome = true) ∧
      ∀ v, firstViolation sql = some v → ∃ token ∈ tokenize sql, ∃ keyword,
        keywordOf token = some keyword ∧ (∀ c, IsQuote c → token.lexeme.head? ≠ some c) ∧
          v.offset = token.offset ∧ v.token = token.lexeme := by
  rw [firstViolation_eq]
  refine ⟨⟨fun heq => ?_, fun hclear => ?_⟩, fun h => ?_, fun v hv => ?_⟩
  · rintro ⟨before, rest⟩ hplace token htoken hnone
    obtain ⟨after, rfl⟩ := head?_eq_some_iff.1 htoken
    by_contra hstray
    rw [Bool.not_eq_false, stray, Bool.and_eq_true] at hstray
    have hreported : ∀ before token v, reported before token = some v → v.offset = token.offset :=
      fun _ _ _ => offset_of_reported
    have hspecified : ∀ before token v, specified before token = some v → v.offset = token.offset :=
      fun _ _ _ h => offset_of_reported (reported_of_specified h)
    have hsome := History.isSome_of_first_eq hreported hspecified (Tokenizer.nodup_offsets sql 0)
      heq (History.mem_places.1 hplace).symm hnone hstray.1
    rw [Option.isNone_iff_eq_none.1 hstray.2] at hsome
    cases hsome
  · refine History.first_eq_of_agree fun before token after htokens hnone => ?_
    refine reported_eq_specified (hclear (before, token :: after) ?_ token rfl hnone)
    exact History.mem_places.2 htokens.symm
  · refine History.isSome_first (fun before token hsome => ?_) h
    obtain ⟨v, hv⟩ := Option.isSome_iff_exists.1 hsome
    rw [reported_of_specified hv]
    rfl
  · obtain ⟨before, token, after, htokens, hreported⟩ := History.exists_of_first hv
    obtain ⟨feature, hfeature, rfl⟩ := Option.map_eq_some_iff.1 hreported
    obtain ⟨keyword, hkeyword, -⟩ := Option.bind_eq_some_iff.1 hfeature
    refine ⟨token, ?_, keyword, hkeyword, fun c hquote hhead => ?_, rfl, rfl⟩
    · rw [htokens]
      exact mem_append_right _ mem_cons_self
    · rw [keywordOf_of_quote hquote hhead] at hkeyword
      cases hkeyword

/-- Refused words in backticks, in a string and in a comment, before one
that is refused. -/
def refusedAsText : Bytes :=
  ascii "CREATE TABLE c (`grant` TEXT DEFAULT 'FOREIGN', KEY (`grant`)) /* REVOKE */ ENGINE=x"

theorem policy_scan_exact_text :
    NoStray (tokenize refusedAsText) ∧
      firstViolation refusedAsText = some ⟨.storageEngineSelection, 76, ascii "ENGINE"⟩ := by
  have hclear : NoStray (tokenize refusedAsText) := by decide +kernel
  refine ⟨hclear, ((policy_scan_exact _).1.2 hclear).trans ?_⟩
  decide +kernel

/-- **Names are reported.** Two columns called `foreign` and `key` are not
a foreign key, and a table called `engine` has chosen no engine. -/
theorem names_reported :
    (firstSpecified (tokenize (ascii "SELECT foreign, key FROM t")) = none ∧
      firstViolation (ascii "SELECT foreign, key FROM t") =
        some ⟨.foreignKey, 16, ascii "key"⟩) ∧
    firstSpecified (tokenize (ascii "CREATE TABLE engine (a INTEGER)")) = none ∧
      firstViolation (ascii "CREATE TABLE engine (a INTEGER)") =
        some ⟨.storageEngineSelection, 13, ascii "engine"⟩ := by
  decide +kernel

end Policy

end Shoveler
