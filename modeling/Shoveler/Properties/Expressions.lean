import Shoveler.Frontend.Levels

/-!
# Expressions are read as they are printed

Printing with parentheses only where the grammar needs them loses nothing:
the parser gives the same expression back, however the tokens are set
apart in the text (`expression_round_trip`).
-/

namespace Shoveler

namespace Sql

open Ast

/-- A text with the tokens of an expression is parsed to it. -/
theorem parseExpressionOnly_of_spells (parseFloat : Bytes → Option UInt64) {e : Expression}
    (h : printable e = true) {sql : Bytes} (hspells : Spells (tokenize sql) (printTokens e)) :
    parseExpressionOnly parseFloat sql = .ok e := by
  have hend : ∀ wanted, Ends wanted [] := fun wanted token htoken => by cases htoken
  have hlevel : Spells (tokenize sql) (atLevel 0 e (printTokens e)) := by
    rwa [atLevel, if_neg (Nat.not_lt_zero _)]
  have hrun : parseExpression.run ⟨sql, parseFloat⟩ (tokenize sql ++ []) = .ok (e, []) :=
    ((readable h).conjunction _ _ hlevel (hend _) (hend _) (hend _)).trans (and_done (hend _))
  rw [List.append_nil] at hrun
  rw [parseExpressionOnly, hrun]

/-- **Printing and parsing are inverse.** For every expression made of
names, numbers that are not negative, strings, `NULL`, `TRUE`, `FALSE`,
calls and operators: a text that consists of the tokens of the expression,
with whatever whitespace and comments in between, is parsed to the
expression; and so is the text that is printed. -/
theorem expression_round_trip (parseFloat : Bytes → Option UInt64) {e : Expression}
    (h : printable e = true) :
    (∀ sql, (tokenize sql).map Token.anywhere = printTokens e →
        parseExpressionOnly parseFloat sql = .ok e) ∧
      parseExpressionOnly parseFloat (printText (printTokens e)) = .ok e := by
  refine ⟨fun sql => parseExpressionOnly_of_spells parseFloat h, ?_⟩
  exact parseExpressionOnly_of_spells parseFloat h (tokens_printText (stands_printTokens h) 0)

/-- `a - (b - 1) <= f(t.v, 'it''s') AND (TRUE AND g())`. -/
def nestedExpression : Expression :=
  .binary
    (.binary
      (.binary (.identifier (ascii "a")) .subtract
        (.binary (.identifier (ascii "b")) .subtract (.literal (.integer 1))))
      .lessEqual
      (.functionCall (ascii "f")
        [.identifier (ascii "t.v"), .literal (.string (ascii "it's"))]))
    .andOp
    (.binary (.literal (.boolean true)) .andOp (.functionCall (ascii "g") []))

/-- It is printed with two pairs of parentheses, and read back. -/
theorem expression_round_trip_nested :
    printText (printTokens nestedExpression) =
        ascii "a - ( b - 1 ) < = f ( t . v , 'it''s' ) AND ( TRUE AND g ( ) ) " ∧
      parseExpressionOnly (fun _ => none)
        (ascii "a - ( b - 1 ) < = f ( t . v , 'it''s' ) AND ( TRUE AND g ( ) ) ") =
          .ok nestedExpression ∧
      parseExpressionOnly (fun _ => none)
        (ascii "a-(b-1)<=f(t.v,'it''s') AND(TRUE AND g())") = .ok nestedExpression := by
  have hround := expression_round_trip (fun _ => none)
    (show printable nestedExpression = true by decide +kernel)
  have htext : printText (printTokens nestedExpression) =
      ascii "a - ( b - 1 ) < = f ( t . v , 'it''s' ) AND ( TRUE AND g ( ) ) " := by decide +kernel
  refine ⟨htext, htext ▸ hround.2, hround.1 _ ?_⟩
  decide +kernel

end Sql

end Shoveler
