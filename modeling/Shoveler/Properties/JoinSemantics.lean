import Shoveler.Invariant.Coherent
import Shoveler.Query.Sources

/-!
# What joins mean

The evaluator takes the rows of a tree of joins from two loops, one inside
the other, with a flag for each left row. The meaning is written down with
products and filters (`joined`), and for a tree by its constructors
(`meaning`). Where the execution succeeds the two are the same, for every
tree (`joins_mean_reference`); the rows of a join are as wide as both of
its sides together.
-/

namespace Shoveler

open Script

namespace QuerySource

open Ast

/-- **Joins mean what they say.** A tree of joins that is executed with
success gives the rows of its meaning, for the rows its leaves gave. For
the join at its root: a left join has every left row in it, every row is
a left row with a right row or with one `NULL` for each right column, and
it is as wide as both sides together, where the rows of the tables have
the columns of the tables. -/
theorem joins_mean_reference (ctx : Context) (scope : CteScope) (depth : ℕ) {source : RowSource}
    {rowSet : RowSet} (h : sourceRows ctx scope depth source = some (.ok rowSet)) :
    (∀ leaf ∈ leaves source,
        sourceRows ctx scope depth leaf = some (.ok (leafRows ctx scope depth leaf))) ∧
      rowSet = meaning (leafRows ctx scope depth) source ∧
      ∀ left joinType right on, source = .join left joinType right on →
        ∃ l r, sourceRows ctx scope depth left = some (.ok l) ∧
          sourceRows ctx scope depth right = some (.ok r) ∧
          rowSet = joined l joinType r on ∧
          (joinType = .left → ∀ row ∈ l.rows, ∃ b, row ++ b ∈ rowSet.rows) ∧
          (∀ row ∈ rowSet.rows, ∃ a ∈ l.rows, ∃ b, row = a ++ b ∧
            (b ∈ r.rows ∨ joinType = .left ∧ b = List.replicate r.columns.length .null)) ∧
          (ctx.TablesFit → ∀ row ∈ rowSet.rows,
            row.length = l.columns.length + r.columns.length) := by
  obtain ⟨hleaves, hmeaning⟩ := sourceRows_eq_ok h
  refine ⟨hleaves, hmeaning, ?_⟩
  rintro left joinType right on rfl
  obtain ⟨l, r, hl, hr, hjoin⟩ := executeSource_join h
  obtain rfl := joinSources_eq_ok hjoin
  refine ⟨l, r, hl, hr, rfl, ?_, fun row hrow => mem_joined hrow, fun hfit row hrow => ?_⟩
  · rintro rfl row hrow
    exact exists_mem_joined hrow
  · exact (fits_sourceRows hfit h row hrow).trans List.length_append

/-! ### A left join under a cross join -/

/-- The rows 1 and 2 in one table, and 2 in the other. -/
def overlapping : System :=
  twoTables.run frontend
    [begin 0, insert 0 "A" [some 1], insert 0 "A" [some 2],
      insert 0 "B" [some 2], commit 0]

/-- What its queries look at. -/
def overlappingContext : Context :=
  ⟨loadBaseTable overlapping.db (overlapping.sessions 0), findView overlapping.db⟩

/-- `A LEFT JOIN B ON A.v = B.v CROSS JOIN B AS c`. -/
def leftThenCross : RowSource :=
  .join
    (.join (.baseTable (ascii "A") none) .left (.baseTable (ascii "B") none)
      (some (.binary (.identifier (ascii "A.v")) .equal (.identifier (ascii "B.v")))))
    .cross (.baseTable (ascii "B") (some (ascii "c"))) none

/-- The first row of `A` meets no row of `B`. -/
theorem joins_mean_reference_padded :
    ∃ rowSet, sourceRows overlappingContext [[]] 0 leftThenCross = some (.ok rowSet) ∧
      rowSet.rows = [[.integer 1, .null, .integer 2], [.integer 2, .integer 2, .integer 2]] ∧
      rowSet = meaning (leafRows overlappingContext [[]] 0) leftThenCross := by
  have hrows : sourceRows overlappingContext [[]] 0 leftThenCross = some (.ok
      ⟨[⟨ascii "v", [ascii "A"]⟩, ⟨ascii "v", [ascii "B"]⟩, ⟨ascii "v", [ascii "c", ascii "B"]⟩],
        [[.integer 1, .null, .integer 2], [.integer 2, .integer 2, .integer 2]]⟩) := by
    decide +kernel
  exact ⟨_, hrows, rfl, (joins_mean_reference overlappingContext [[]] 0 hrows).2.1⟩

end QuerySource

end Shoveler
