import Shoveler.Common.Outcome
import Shoveler.Frontend.Bodies

/-!
# Behind the body of a procedure

Every statement ends where the parser has read it, and what follows, but
for semicolons, is refused. `CREATE PROCEDURE` is the exception: it reads
on to the end of the text in search of the last `END`. If the body is
accepted, that is the `END` that closes it, and what stands behind it has
been read and forgotten. Nothing was lost exactly if nothing but
semicolons stands behind the last `END` of the text
(`procedure_closes_text_iff`).
-/

namespace Shoveler

open List

open Sql (isSymbol isKeyword)

/-- **The tokens of a text behind the `END` that closes the body**: of the
tokens behind the parameters as many are left out as the parser of bodies
has read, up to that `END`, in the text that was kept. -/
def behindBody (parseFloat : Bytes → Option UInt64) (sql bodySql : Bytes) : List Token :=
  match Sql.procedureHead.run ⟨sql, parseFloat⟩ ((tokenize sql).drop 2),
      ProcedureBody.parseBlock.run ⟨bodySql, parseFloat⟩ (tokenize bodySql) with
  | .ok (_, tokens), .ok (_, rest) => tokens.drop ((tokenize bodySql).length - rest.length)
  | _, _ => []

/-- The tokens of a text behind its last `END`. -/
def behindLastEnd (sql : Bytes) : List Token :=
  (tokenize sql).rtakeWhile fun token => !isKeyword ["END"] token

section Splitting

variable {tokens before after : List Token} {closing : Token}

/-- The last token that is as wanted, if there is one. -/
theorem exists_last (wanted : Token → Bool) (tokens : List Token) :
    (∀ token ∈ tokens, wanted token = false) ∨
      ∃ before last after, tokens = before ++ last :: after ∧ wanted last = true ∧
        ∀ token ∈ after, wanted token = false := by
  induction tokens with
  | nil => exact .inl (forall_mem_nil _)
  | cons token tokens ih =>
    rcases ih with hnone | ⟨before, last, after, rfl, hlast, hafter⟩
    · cases hw : wanted token with
      | true => exact .inr ⟨[], token, tokens, rfl, hw, hnone⟩
      | false => exact .inl (forall_mem_cons.2 ⟨hw, hnone⟩)
    · exact .inr ⟨token :: before, last, after, rfl, hlast, hafter⟩

theorem behindLastEnd_eq {sql : Bytes} (h : tokenize sql = before ++ closing :: after)
    (hclosing : isKeyword ["END"] closing = true)
    (hafter : ∀ token ∈ after, isKeyword ["END"] token = false) : behindLastEnd sql = after := by
  rw [behindLastEnd, h, rtakeWhile, reverse_append, reverse_cons, append_assoc,
    takeWhile_append_of_pos, singleton_append, takeWhile_cons_of_neg,
    append_nil, reverse_reverse]
  · simp [hclosing]
  · intro token htoken
    rw [hafter token (mem_reverse.1 htoken)]
    rfl

end Splitting

open ProcedureBody in
/-- **The block takes all of a text whose last token is `END`.** -/
theorem block_ends {parseFloat : Bytes → Option UInt64} {bodySql : Bytes} {body : Body}
    (hbody : ProcedureBody.parse parseFloat bodySql = some body) {before : List Token}
    {closing : Token} (hclosing : isKeyword ["END"] closing = true)
    (htokens : List.Forall₂ Token.Same (before ++ [closing]) (tokenize bodySql)) :
    parseBlock.run ⟨bodySql, parseFloat⟩ (tokenize bodySql) = .ok (body, []) := by
  obtain ⟨rest, hblock, hrest⟩ := parse_eq_some hbody
  have hplace : (before ++ [closing])[before.length]? = some closing := by
    rw [getElem?_concat_length]
  obtain ⟨copy, hcopy, hsame⟩ := Outcome.getElem?_of_forall₂ htokens hplace
  cases rest using reverseRecOn with
  | nil => exact hblock
  | append_singleton semicolons last =>
    -- what was left behind the block would end with the `END`
    obtain ⟨read, hread⟩ := parseBlock.suffix hblock
    rw [← append_assoc] at hread
    have hlength := htokens.length_eq
    rw [← hread, length_append, length_append] at hlength
    have hlast : (tokenize bodySql)[before.length]? = some last := by
      rw [← hread, Nat.add_right_cancel hlength, getElem?_concat_length]
    obtain rfl := Option.some.inj (hcopy.symm.trans hlast)
    have hsemicolon := hrest copy (mem_append_right semicolons mem_cons_self)
    rw [← Sql.Tandem.isKeyword_of_same hsame, Sql.Tandem.isKeyword_of_isSymbol hsemicolon] at hclosing
    cases hclosing

open ProcedureBody in
/-- **The `END` that closes the body is the last `END` of the text.** -/
theorem behindBody_eq {parseFloat : Bytes → Option UInt64} {sql : Bytes}
    {procedure : Ast.ProcedureStatement} {body : Body}
    (h : Sql.parse parseFloat sql = .ok (.createProcedure procedure))
    (hbody : ProcedureBody.parse parseFloat procedure.bodySql = some body) :
    behindBody parseFloat sql procedure.bodySql = behindLastEnd sql := by
  obtain ⟨-, left, hstatement, -⟩ := Sql.parse_eq_ok.1 h
  obtain ⟨create, word, l, hl, -, -, hprocedure⟩ := Sql.parseStatement_createProcedure hstatement
  obtain ⟨head, token, more, hhead, htext⟩ := Sql.parseCreateProcedure_eq_ok hprocedure
  have hmore : token :: more <:+ tokenize sql := by
    rw [hl]
    exact (Sql.procedureHead.suffix hhead).trans
      ((suffix_cons word l).trans (suffix_cons create _))
  rcases exists_last (isKeyword ["END"]) (token :: more) with hnone |
    ⟨before, closing, after, hsplit, hclosing, hafter⟩
  · -- without an `END` in the text there is none in the body either
    rw [Sql.endAmong_of_none hnone] at htext
    obtain ⟨rest, hblock, -⟩ := parse_eq_some hbody
    obtain ⟨copy, hcopy, hend⟩ := parseBlock_eq_ok hblock
    have hecho := echoes_excerpt hmore (nil_suffix (l := more)) rfl
    rw [head?_nil, Option.map_none, Option.getD_none, ← htext] at hecho
    obtain ⟨t, ht, hsame | hcut⟩ := hecho.mem_right (hcopy.subset mem_cons_self)
    · rw [Sql.Tandem.isKeyword_of_same hsame, hnone t ht] at hend
      cases hend
    · rw [(Sql.not_end_of_cut hcut).2] at hend
      cases hend
  · rw [hsplit, Sql.endAmong_of_last hclosing hafter] at htext
    have htokens := Sql.tokens_of_kept hmore hsplit hclosing
    rw [← htext] at htokens
    have hblock := block_ends hbody hclosing htokens
    obtain ⟨start, hstart⟩ := hmore
    have hwhole : tokenize sql = (start ++ before) ++ closing :: after := by
      rw [← hstart, hsplit, append_assoc]
    have hlast := behindLastEnd_eq hwhole hclosing hafter
    have hread : (tokenize procedure.bodySql).length - 0 = before.length + 1 := by
      rw [← htokens.length_eq, length_append]
      rfl
    rw [behindBody, hl, drop_succ_cons, drop_succ_cons, drop_zero, hhead, hblock]
    dsimp only
    rw [length_nil, hread, hsplit, hlast, drop_append, drop_eq_nil_of_le (by omega)]
    simp

/-- **Nothing behind the body is swallowed exactly if nothing but
semicolons follows the last `END` of the text**, for every text that is
accepted as `CREATE PROCEDURE` and whose body is accepted. -/
theorem procedure_closes_text_iff (parseFloat : Bytes → Option UInt64) {sql : Bytes}
    {procedure : Ast.ProcedureStatement} {body : ProcedureBody.Body}
    (h : Sql.parse parseFloat sql = .ok (.createProcedure procedure))
    (hbody : ProcedureBody.parse parseFloat procedure.bodySql = some body) :
    (∀ token ∈ behindBody parseFloat sql procedure.bodySql, isSymbol ";" token = true) ↔
      ∀ token ∈ behindLastEnd sql, isSymbol ";" token = true := by
  rw [behindBody_eq h hbody]

/-- The text that `CREATE PROCEDURE` keeps of a statement. -/
def keptBody (parseFloat : Bytes → Option UInt64) (sql : Bytes) : Option Bytes :=
  match Sql.parse parseFloat sql with
  | .ok (.createProcedure procedure) => some procedure.bodySql
  | _ => none

theorem exists_of_keptBody {parseFloat : Bytes → Option UInt64} {sql bodySql : Bytes}
    (h : keptBody parseFloat sql = some bodySql) :
    ∃ procedure, Sql.parse parseFloat sql = .ok (.createProcedure procedure) ∧
      procedure.bodySql = bodySql := by
  unfold keptBody at h
  split at h
  case h_1 procedure hparse => exact ⟨procedure, hparse, Option.some.inj h⟩
  case h_2 => cases h

/-- A loop within a branch. -/
def nestedBody : Bytes :=
  ascii "BEGIN IF a THEN WHILE b DO DELETE FROM t; END WHILE; END IF; END"

def nestedProcedure : Bytes :=
  ascii "CREATE PROCEDURE p() " ++ nestedBody ++ ascii ";;"

/-- The blocks within a body close before it does, and nothing is lost. -/
theorem procedure_closes_text_nested :
    ∃ procedure body,
      Sql.parse (fun _ => none) nestedProcedure = .ok (.createProcedure procedure) ∧
        ProcedureBody.parse (fun _ => none) procedure.bodySql = some body ∧
          ∀ token ∈ behindBody (fun _ => none) nestedProcedure procedure.bodySql,
            isSymbol ";" token = true := by
  have hkept : keptBody (fun _ => none) nestedProcedure = some nestedBody := by
    decide +kernel
  obtain ⟨procedure, hparse, hbody⟩ := exists_of_keptBody hkept
  obtain ⟨body, haccepted⟩ := Option.isSome_iff_exists.1
    (show (ProcedureBody.parse (fun _ => none) nestedBody).isSome by decide +kernel)
  rw [← hbody] at haccepted
  exact ⟨procedure, body, hparse, haccepted,
    (procedure_closes_text_iff _ hparse haccepted).2 (by decide +kernel)⟩

/-- A procedure, and a second statement behind it. -/
def procedureAndDrop : Bytes :=
  ascii "CREATE PROCEDURE p() BEGIN DELETE FROM t; END; DROP TABLE t"

/-- **A statement behind a procedure is read and forgotten**: the text is
accepted as the procedure alone, and so is its body, where any other
statement would be refused for the `DROP` behind it. -/
theorem procedure_swallows_statement :
    ∃ procedure body,
      Sql.parse (fun _ => none) procedureAndDrop = .ok (.createProcedure procedure) ∧
        ProcedureBody.parse (fun _ => none) procedure.bodySql = some body ∧
          (behindBody (fun _ => none) procedureAndDrop procedure.bodySql).map Token.lexeme =
            [ascii ";", ascii "DROP", ascii "TABLE", ascii "t"] := by
  have hkept : keptBody (fun _ => none) procedureAndDrop =
      some (ascii "BEGIN DELETE FROM t; END") := by
    decide +kernel
  obtain ⟨procedure, hparse, hbody⟩ := exists_of_keptBody hkept
  obtain ⟨body, haccepted⟩ := Option.isSome_iff_exists.1
    (show (ProcedureBody.parse (fun _ => none) (ascii "BEGIN DELETE FROM t; END")).isSome by
      decide +kernel)
  refine ⟨procedure, body, hparse, ?_, ?_⟩ <;> rw [hbody]
  · exact haccepted
  · decide +kernel

end Shoveler
