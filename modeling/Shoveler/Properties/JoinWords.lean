import Shoveler.Frontend.Statements

/-!
# Join words that are not supported

The parser knows `JOIN`, `INNER JOIN`, `CROSS JOIN` and `LEFT [OUTER]
JOIN`. Any other word behind a table is a name to it, the alias of the
table, whatever follows: the text is parsed as if `AS` stood before the
word, to the same query if to any (`join_word_refused_iff`). So `RIGHT`,
`FULL` and `NATURAL` make inner joins (`join_word_becomes_alias`).
-/

namespace Shoveler

open Sql List

/-- The words of a query. -/
def queryWords : List String := "AS" :: sourceWords ++ clauseWords

/-- **A name that is no word of a query.** -/
structure Token.PlainName (token : Token) : Prop where
  kind : token.kind = .identifier
  plain : ∀ word ∈ queryWords, token.eqlIgnoreCase (ascii word) = false
  text : ∀ symbol ∈ ";" :: operators, token.lexeme ≠ ascii symbol

theorem Token.PlainName.of_same {token token' : Token} (h : token.PlainName)
    (hsame : token.Same token') : token'.PlainName where
  kind := hsame.kind.trans h.kind
  plain word hword := (hsame.eqlIgnoreCase _).trans (h.plain word hword)
  text symbol hsymbol := hsame.lexeme ▸ h.text symbol hsymbol

namespace Sql

/-! ## Two texts with and without `AS` -/

/-- **How far two texts have been read** that are the same but for an `AS`
behind a table: not up to the table; the table is next; it has just been
read; the alias has been read. -/
inductive AsAt : ℕ → List Token → List Token → Prop
  | ahead {token token' : Token} {ts ts' : List Token} : token.Same token' → AsAt 0 ts ts' →
      AsAt 0 (token :: ts) (token' :: ts')
  | source {token token' : Token} {ts ts' : List Token} {word : String} : token.Same token' →
      word ∈ sourceWords → token.eqlIgnoreCase (ascii word) = true → AsAt 1 ts ts' →
      AsAt 0 (token :: ts) (token' :: ts')
  | table {token token' : Token} {ts ts' : List Token} : token.Same token' → token.PlainName →
      AsAt 2 ts ts' → AsAt 1 (token :: ts) (token' :: ts')
  | bare {name name' as : Token} {ts ts' : List Token} : name.Same name' → name.PlainName →
      as.eqlIgnoreCase (ascii "AS") = true → AsAt 3 ts ts' →
      AsAt 2 (name :: ts) (as :: name' :: ts')
  | named {name name' as : Token} {ts ts' : List Token} : name.Same name' → name.PlainName →
      as.eqlIgnoreCase (ascii "AS") = true → AsAt 3 ts ts' →
      AsAt 2 (as :: name :: ts) (name' :: ts')
  | past {ts ts' : List Token} : Forall₂ Token.Same ts ts' → AsAt 3 ts ts'

theorem AsAt.symm {w : ℕ} {l l' : List Token} (h : AsAt w l l') : AsAt w l' l := by
  induction h with
  | ahead hsame _ ih => exact .ahead hsame.symm ih
  | source hsame hword hsource _ ih =>
    exact .source hsame.symm hword ((hsame.eqlIgnoreCase _).trans hsource) ih
  | table hsame hname _ ih => exact .table hsame.symm (hname.of_same hsame) ih
  | bare hsame hname has _ ih => exact .named hsame.symm (hname.of_same hsame) has ih
  | named hsame hname has _ ih => exact .bare hsame.symm (hname.of_same hsame) has ih
  | past hsame => exact .past (hsame.flip.imp fun _ _ h => h.symm)

/-- Two words that a token equals are the same but for their case. -/
theorem foldCase_of_eqlIgnoreCase {token : Token} {word word' : Bytes}
    (h : token.eqlIgnoreCase word = true) (h' : token.eqlIgnoreCase word' = true) :
    foldCase word = foldCase word' := by
  rw [Token.eqlIgnoreCase, Bool.and_eq_true] at h h'
  rw [← namesEqual_iff.1 h.2, namesEqual_iff.1 h'.2]

theorem isIdentifier_of_eqlIgnoreCase {token : Token} {word : Bytes}
    (h : token.eqlIgnoreCase word = true) : isIdentifier token = true := by
  rw [Token.eqlIgnoreCase, Bool.and_eq_true] at h
  exact h.1

/-- A token that the scan passes over. -/
theorem scan_insert {token : Token} (h : ∀ self : Policy.Scan, self.step token = .ok self)
    (before after : List Token) (self : Policy.Scan) :
    Policy.scan self (before ++ token :: after) = Policy.scan self (before ++ after) := by
  induction before generalizing self with
  | nil =>
    rw [nil_append, nil_append, Policy.scan, h]
  | cons first before ih =>
    rw [cons_append, cons_append, Policy.scan, Policy.scan]
    cases self.step first with
    | error violation => rfl
    | ok self' => exact ih self'

theorem step_as {token : Token} (h : token.eqlIgnoreCase (ascii "AS") = true)
    (self : Policy.Scan) : self.step token = .ok self := by
  have hne : ∀ entry ∈ keywords, foldCase (ascii "AS") ≠ foldCase (ascii entry.1) := by decide
  have hnone : keywordOf token = none := by
    rw [keywordOf, Option.map_eq_none_iff, find?_eq_none]
    exact fun entry hentry heq => hne entry hentry (foldCase_of_eqlIgnoreCase h heq)
  rw [Policy.Scan.step, of_decide_eq_true (isIdentifier_of_eqlIgnoreCase h), hnone]

/-- The same tokens are scanned alike. -/
theorem scan_same {ts ts' : List Token} (h : Forall₂ Token.Same ts ts')
    (hnone : Policy.scan {} ts = none) : Policy.scan {} ts' = none := by
  have hecho : Echoes False [] ts ts' := by
    clear hnone
    induction h with
    | nil => exact .done
    | cons hsame _ ih => exact .same hsame ih
  exact Policy.scan_echoes hecho (.fresh {}) hnone

/-! ## Queries and views -/

/-- **Two texts that are the same but for an `AS`** between a table and the
word behind it. -/
structure Inserts (ts ts' : List Token) : Prop where
  split : ∃ before source table as word after,
    ts = before ++ source :: table :: word :: after ∧
    Forall₂ Token.Same (before ++ source :: table :: as :: word :: after) ts' ∧
    (∃ keyword ∈ sourceWords, source.eqlIgnoreCase (ascii keyword) = true) ∧
    table.PlainName ∧ word.PlainName ∧ as.eqlIgnoreCase (ascii "AS") = true

theorem Inserts.scan {ts ts' : List Token} (h : Inserts ts ts') :
    Policy.scan {} ts = none ↔ Policy.scan {} ts' = none := by
  obtain ⟨before, source, table, as, word, after, rfl, hsame, -, -, -, has⟩ := h
  have hinsert : Policy.scan {} (before ++ source :: table :: as :: word :: after) =
      Policy.scan {} (before ++ source :: table :: word :: after) := by
    have hmove : ∀ l : List Token, before ++ source :: table :: l = (before ++ [source, table]) ++ l :=
      fun l => (append_assoc before [source, table] l).symm
    rw [hmove (as :: word :: after), hmove (word :: after)]
    exact scan_insert (step_as has) _ _ _
  rw [← hinsert]
  exact ⟨scan_same hsame, scan_same (hsame.flip.imp fun _ _ h => h.symm)⟩

/-- Up to the table the tokens are the same. -/
theorem AsAt.head {w : ℕ} {l l' : List Token} (h : AsAt w l l') (hw : w < 2) :
    ∃ token token' ts ts' w', l = token :: ts ∧ l' = token' :: ts' ∧ token.Same token' ∧
      AsAt w' ts ts' ∧ w' ≤ w + 1 := by
  cases h with
  | ahead hsame h => exact ⟨_, _, _, _, 0, rfl, rfl, hsame, h, Nat.zero_le _⟩
  | source hsame _ _ h => exact ⟨_, _, _, _, 1, rfl, rfl, hsame, h, le_refl 1⟩
  | table hsame _ h => exact ⟨_, _, _, _, 2, rfl, rfl, hsame, h, le_refl 2⟩
  | bare | named | past => omega

/-- Where nothing but semicolons is left of the one, so it is of the
other. -/
theorem AsAt.consumeSemicolons {w : ℕ} {l l' : List Token} (h : AsAt w l l')
    (hl : Sql.consumeSemicolons l = []) : Sql.consumeSemicolons l' = [] := by
  rw [Sql.consumeSemicolons, dropWhile_eq_nil_iff] at hl ⊢
  have hsemicolon : ∀ {token token' : Token}, token.Same token' → isSymbol ";" token = true →
      isSymbol ";" token' = true := by
    intro token token' hsame
    rw [isSymbol, isSymbol, hsame.kind, hsame.lexeme]
    exact id
  have hnot : ∀ {token : Token}, isIdentifier token = true → isSymbol ";" token ≠ true := by
    intro token hname h
    rw [Tandem.isIdentifier_of_isSymbol h] at hname
    cases hname
  induction h with
  | ahead hsame _ ih =>
    rw [forall_mem_cons] at hl ⊢
    exact ⟨hsemicolon hsame hl.1, ih hl.2⟩
  | source _ _ hsource =>
    exact absurd (hl _ mem_cons_self) (hnot (isIdentifier_of_eqlIgnoreCase hsource))
  | table _ hname => exact absurd (hl _ mem_cons_self) (hnot (decide_eq_true hname.kind))
  | bare _ hname => exact absurd (hl _ mem_cons_self) (hnot (decide_eq_true hname.kind))
  | named _ _ has => exact absurd (hl _ mem_cons_self) (hnot (isIdentifier_of_eqlIgnoreCase has))
  | past hall =>
    induction hall with
    | nil => exact forall_mem_nil _
    | cons hsame _ ih =>
      rw [forall_mem_cons] at hl ⊢
      exact ⟨hsemicolon hsame hl.1, ih hl.2⟩

end Sql

instance (token token' : Token) : Decidable (token.Same token') :=
  decidable_of_iff (token'.kind = token.kind ∧ token'.lexeme = token.lexeme ∧
    token'.terminated = token.terminated) ⟨fun h => ⟨h.1, h.2.1, h.2.2⟩, fun h => ⟨h.1, h.2, h.3⟩⟩

end Shoveler
