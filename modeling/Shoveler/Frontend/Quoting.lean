import Shoveler.Frontend.Grammar
import Shoveler.Frontend.Views

/-!
# Names in quotes

A name in backticks is one token, and the parser takes the backticks off
wherever it reads a name. A keyword is known by the text of its token, so a
name in backticks is none, whatever it says. What is read is then the name,
in the definition of a column, in an assignment and in an expression
(`readAsName`), and the query `SELECT .. FROM ..` of two quoted names asks
for the one column of the one table (`parse_select_quoted`).
-/

namespace Shoveler

/-- A text in which nothing is a keyword is not refused. -/
theorem Policy.scan_of_no_keyword {l : List Token}
    (h : ∀ token ∈ l, token.kind = .identifier ∧ keywordOf token = none) (self : Scan) :
    scan self l = none := by
  induction l generalizing self with
  | nil => rfl
  | cons token l ih =>
    obtain ⟨⟨hkind, hkeyword⟩, hrest⟩ := List.forall_mem_cons.1 h
    have hstep : self.step token = .ok self := by
      simp only [Scan.step, hkind, hkeyword]
    rw [scan, hstep]
    exact ih hrest self

namespace Sql

open Ast Parse

/-- A name in the quotes of identifiers. -/
def quotedToken (name : Bytes) : Token :=
  ⟨.identifier, Byte.backtick :: (name ++ [Byte.backtick]), 0, true⟩

section

variable {input : Input} {token : Token} {rest : List Token} {name : Bytes}

/-! ## The token -/

theorem lexeme_of_quoted (h : token.anywhere = quotedToken name) :
    token.lexeme = Byte.backtick :: (name ++ [Byte.backtick]) := congrArg Token.lexeme h

theorem normalizedIdentifier_of_quoted (h : token.anywhere = quotedToken name) :
    normalizedIdentifier token = name := by
  have hlong : 2 ≤ (Byte.backtick :: (name ++ [Byte.backtick])).length := by simp
  have hlast : (Byte.backtick :: (name ++ [Byte.backtick])).getLast? = some Byte.backtick := by
    rw [← List.cons_append, List.getLast?_concat]
  rw [normalizedIdentifier, lexeme_of_quoted h, if_pos ⟨hlong, rfl, hlast⟩, List.tail_cons,
    List.dropLast_concat]

/-- It is none of these keywords. -/
theorem isKeyword_of_quoted (h : token.anywhere = quotedToken name) {words : List String}
    (hwords : ∀ word ∈ words, IsWord (ascii word)) : isKeyword words token = false := by
  have hhead : token.lexeme.head? = some Byte.backtick := by
    rw [lexeme_of_quoted h]
    rfl
  refine List.any_eq_false.2 fun word hword => ?_
  rw [Token.eqlIgnoreCase_of_quote (.inr (.inr rfl)) hhead (hwords word hword)]
  exact Bool.false_ne_true

theorem expectIdentifierOwned_quoted (h : token.anywhere = quotedToken name) (expected : String) :
    (expectIdentifierOwned expected).run input (token :: rest) = .ok (name, rest) := by
  have hidentifier : isIdentifier token = true := congrArg isIdentifier h
  have htoken : (expectIdentifierToken expected).run input (token :: rest) = .ok (token, rest) := by
    rw [expectIdentifierToken, run_of_ok (expectToken_run _), if_pos hidentifier]
    rfl
  rw [expectIdentifierOwned, run_of_ok htoken, normalizedIdentifier_of_quoted h]
  rfl

/-! ## Where a name is read -/

/-- **A quoted name is an identifier**, wherever an expression is read. -/
theorem parsePrimary_quoted {pe : Parser Expression} (h : token.anywhere = quotedToken name)
    (hends : Ends follows rest) :
    (parsePrimary pe).run input (token :: rest) = .ok (.identifier name, rest) := by
  have hword : token.anywhere = wordToken token.lexeme :=
    h.trans (congrArg wordToken (lexeme_of_quoted h).symm)
  have hkeyword : ∀ word ∈ ["NULL", "TRUE", "FALSE"], isKeyword [word] token = false := by
    intro word hmem
    refine isKeyword_of_quoted h (List.forall_mem_singleton.2 ?_)
    revert word
    decide
  rw [parsePrimary_word hword, hkeyword "NULL" (by decide), if_neg Bool.false_ne_true,
    hkeyword "TRUE" (by decide), if_neg Bool.false_ne_true, hkeyword "FALSE" (by decide),
    if_neg Bool.false_ne_true, normalizedIdentifier_of_quoted h]
  exact parseNamed_of_ends hends name

/-- The definition of a column, behind its name. -/
def columnNamed (name : Bytes) (items : List Ast.ColumnDef × List Ast.IndexDef) :
    Parser (List Ast.ColumnDef × List Ast.IndexDef) := do
  let columnType ← parseColumnType
  let attributes ← parseColumnAttributes
  return (items.1 ++ [⟨name, columnType, attributes.nullable, attributes.defaultValue,
    attributes.primaryKey, attributes.autoIncrement⟩], items.2)

/-- An assignment, behind the name of its column. -/
def assignmentTo (name : Bytes) : Parser Assignment := do
  expectSymbol "="
  return ⟨name, ← parseExpression⟩

/-- **Wherever it is written, the quoted name is read as the name**: in the
definition of a column, as the column that is assigned to, and in an
expression. -/
structure ReadAsName (name : Bytes) : Prop where
  defined : ∀ input token rest items, token.anywhere = quotedToken name →
    (parseTableItem items).run input (token :: rest) = (columnNamed name items).run input rest
  assigned : ∀ input token rest, token.anywhere = quotedToken name →
    parseAssignment.run input (token :: rest) = (assignmentTo name).run input rest
  expression : ∀ input token rest pe, token.anywhere = quotedToken name → Ends follows rest →
    (parsePrimary pe).run input (token :: rest) = .ok (.identifier name, rest)

theorem readAsName (name : Bytes) : ReadAsName name where
  defined := by
    intro input token rest items h
    -- a quoted `KEY` is a column and not an index
    have hstart : isTableIndexStart.run input (token :: rest) = .ok (false, token :: rest) := by
      have hnot : isKeyword ["PRIMARY", "INDEX", "KEY"] token = false :=
        isKeyword_of_quoted h (by decide)
      exact nextIs_of_ends (ends_cons.2 hnot)
    rw [parseTableItem, run_of_ok hstart, if_neg Bool.false_ne_true,
      run_of_ok (expectIdentifierOwned_quoted h _)]
    rfl
  assigned := by
    intro input token rest h
    rw [parseAssignment, run_of_ok (expectIdentifierOwned_quoted h _)]
    rfl
  expression := fun input token rest pe h hends => parsePrimary_quoted h hends

end

/-! ## The query of one column -/

/-- The query for one column of a table. -/
def selectColumn (column table : Bytes) : SelectStatement where
  projectionItems := [{ expression := .identifier column }]
  projections := [.identifier column]
  fromName := some table
  source := some (.baseTable table none)

section Query

variable {input : Input} {token word source : Token} {rest : List Token} {name table : Bytes}

/-- `FROM` is taken along by nothing. -/
theorem ends_from (hfrom : word.anywhere = wordToken (ascii "FROM")) {wanted : Token → Bool}
    (hsame : ∀ token, wanted token.anywhere = wanted token)
    (hnot : wanted (wordToken (ascii "FROM")) = false) : Ends wanted (word :: rest) :=
  ends_of_anywhere hsame hfrom hnot

/-- A quoted name before `FROM` is a projection without an alias. -/
theorem parseProjection_quoted (h : token.anywhere = quotedToken name)
    (hfrom : word.anywhere = wordToken (ascii "FROM")) :
    parseProjection.run input (token :: word :: rest) =
      .ok (⟨.identifier name, none⟩, word :: rest) := by
  have hexpression : parseExpression.run input (token :: word :: rest) =
      .ok (.identifier name, word :: rest) :=
    parseExpression_of_primary
      (parsePrimary_quoted h (ends_from hfrom (fun _ => rfl) (by decide)))
      (ends_from hfrom (fun _ => rfl) (by decide)) (ends_from hfrom (fun _ => rfl) (by decide))
      (ends_from hfrom (fun _ => rfl) (by decide))
  have hlabelled : (matchKeyword "AS").run input (word :: rest) = .ok (false, word :: rest) :=
    accept_of_ends (ends_from hfrom (fun _ => rfl) (by decide))
  have hlabel : parseOptionalImplicitAlias.run input (word :: rest) = .ok (none, word :: rest) := by
    obtain ⟨kind, lexeme, offset, terminated⟩ := word
    obtain ⟨rfl, rfl, -, rfl⟩ := Token.mk.inj hfrom
    rfl
  rw [parseProjection, run_of_ok hexpression, run_of_ok hlabelled, if_neg Bool.false_ne_true]
  -- a name with a point in it may have an alias without `AS`
  split
  · rw [run_of_ok hlabel]
    rfl
  · rfl

/-- It is the only projection. -/
theorem parseProjections_quoted (h : token.anywhere = quotedToken name)
    (hfrom : word.anywhere = wordToken (ascii "FROM")) :
    parseProjections.run input (token :: word :: rest) =
      .ok ([⟨.identifier name, none⟩], word :: rest) := by
  have hboundary : isAtClauseBoundary.run input (token :: word :: rest) =
      .ok (false, token :: word :: rest) := by
    have hkeyword : isKeyword ["FROM", "WHERE", "ORDER", "LIMIT", "GROUP", "HAVING"] token = false :=
      isKeyword_of_quoted h (by decide)
    have hsemicolon : token.lexeme ≠ ascii ";" := by
      rw [lexeme_of_quoted h]
      intro heq
      exact absurd (List.cons.inj heq).1 (by decide)
    have hnot : (isKeyword ["FROM", "WHERE", "ORDER", "LIMIT", "GROUP", "HAVING"] token ||
        decide (token.lexeme = ascii ";")) = false := by
      rw [hkeyword, decide_eq_false hsemicolon, Bool.or_false]
    exact congrArg (fun b => Except.ok (b, token :: word :: rest)) hnot
  have hpush : (push parseProjection []).run input (token :: word :: rest) =
      .ok ([⟨.identifier name, none⟩], word :: rest) := by
    rw [push, run_of_ok (parseProjection_quoted h hfrom)]
    rfl
  have hround : (projectionRound []).run input (token :: word :: rest) =
      .ok (.done [⟨.identifier name, none⟩], word :: rest) := by
    rw [projectionRound, run_of_ok hboundary, if_neg Bool.false_ne_true, run_of_ok hpush,
      run_of_ok (matchSymbol_of_ends (ends_from hfrom (fun _ => rfl) (by decide))),
      if_neg Bool.false_ne_true]
    rfl
  rw [parseProjections, loop, loop_eq reads_projectionRound, run_of_ok hround]
  rfl

/-- A quoted name behind `FROM` is the table. -/
theorem parseFrom_quoted (hfrom : word.anywhere = wordToken (ascii "FROM"))
    (hsource : source.anywhere = quotedToken table) :
    (optionally "FROM" (parseRowSource parseSelectAfterSelect)).run input [word, source] =
      .ok (some (.baseTable table none), []) := by
  have hword : (matchKeyword "FROM").run input [word, source] = .ok (true, [source]) := by
    refine accept_of_wanted ?_
    obtain ⟨kind, lexeme, offset, terminated⟩ := word
    obtain ⟨rfl, rfl, -, rfl⟩ := Token.mk.inj hfrom
    rfl
  have hopen : (matchSymbol "(").run input [source] = .ok (false, [source]) :=
    matchSymbol_of_ends (ends_cons.2 (isSymbol_of_anywhere hsource "("))
  have hatom : (parseRowSourceAtom parseSelectAfterSelect).run input [source] =
      .ok (.baseTable table none, []) := by
    rw [parseRowSourceAtom, run_of_ok hopen, if_neg Bool.false_ne_true,
      run_of_ok (expectIdentifierOwned_quoted hsource _)]
    rfl
  rw [optionally, run_of_ok hword, if_pos rfl, parseRowSource]
  refine run_of_ok (f := fun source => pure (some source)) ?_
  rw [run_of_ok hatom]
  rfl

/-- **The query of a quoted name asks for what is in the quotes.** -/
theorem parse_select_quoted (parseFloat : Bytes → Option UInt64) {sql : Bytes}
    (h : Spells (tokenize sql) [wordToken (ascii "SELECT"), quotedToken name,
      wordToken (ascii "FROM"), quotedToken table]) :
    parse parseFloat sql = .ok (.select (selectColumn name table)) := by
  have hquoted : ∀ {token : Token} {name : Bytes}, token.anywhere = quotedToken name →
      token.kind = .identifier ∧ keywordOf token = none := by
    intro token name h
    refine ⟨congrArg Token.kind h, keywordOf_of_quote (.inr (.inr rfl)) ?_⟩
    rw [lexeme_of_quoted h]
    rfl
  have hplain : ∀ {token : Token} {word : Bytes}, token.anywhere = wordToken word →
      keywordOf (wordToken word) = none → token.kind = .identifier ∧ keywordOf token = none := by
    intro token word h hword
    exact ⟨congrArg Token.kind h, (congrArg keywordOf h).trans hword⟩
  obtain ⟨first, more, htokens, hselect, hmore⟩ := spells_cons h
  obtain ⟨column, more, rfl, hcolumn, hmore⟩ := spells_cons hmore
  obtain ⟨word, more, rfl, hfrom, hmore⟩ := spells_cons hmore
  obtain ⟨source, rfl, hsource⟩ := spells_singleton hmore
  have hclean : firstViolation sql = none := by
    rw [firstViolation, htokens]
    refine Policy.scan_of_no_keyword (List.forall_mem_cons.2 ⟨hplain hselect (by decide), ?_⟩) {}
    refine List.forall_mem_cons.2 ⟨hquoted hcolumn, List.forall_mem_cons.2 ⟨?_, ?_⟩⟩
    · exact hplain hfrom (by decide)
    · exact List.forall_mem_singleton.2 (hquoted hsource)
  have hquery : parseSelectAfterSelect.run ⟨sql, parseFloat⟩ [column, word, source] =
      .ok (selectColumn name table, []) := by
    refine (congrArg (fun p => p.run ⟨sql, parseFloat⟩ [column, word, source])
      parseSelectAfterSelect_eq).trans ?_
    rw [selectAfterSelect, run_of_ok (parseProjections_quoted hcolumn hfrom),
      run_of_ok (parseFrom_quoted hfrom hsource)]
    rfl
  have hword : first.eqlIgnoreCase (ascii "SELECT") = true := by
    rw [← show first.anywhere.eqlIgnoreCase (ascii "SELECT") = first.eqlIgnoreCase (ascii "SELECT")
      from rfl, hselect]
    decide
  refine parse_eq_ok.2 ⟨hclean, [], ?_, rfl⟩
  rw [htokens]
  exact parseStatement_select hword hquery

end Query

end Sql

end Shoveler
