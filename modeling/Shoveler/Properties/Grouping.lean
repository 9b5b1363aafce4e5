import Shoveler.Query.Groups

/-!
# What `GROUP BY` means

The rows that `WHERE` accepts are divided into groups, each row into one,
in the order of the source. Two rows should be in one group exactly when
they have the same values in their keys. They are exactly where the
comparison is right on their keys (`groups_partition_by_keys`); it takes no
vector for itself, and every float for one that is not a number
(`equal_vectors_apart`).
-/

namespace Shoveler

namespace QuerySource

open Ast

/-- **`GROUP BY` divides the rows by the values of the keys.** For any rows
in the order of the source, as `WHERE` leaves them
(`ordered_filterIndices`), on which the keys can be evaluated: every row is
in exactly one group, the rows of a group stand in the order of the source
and so do the groups by their first rows; and that two rows are in one
group exactly when their keys have identical values holds if, and only if,
the comparison is right on the keys of any two of the rows
(`ToldApart`). -/
theorem groups_partition_by_keys {rowSet : RowSet} {indices : List rowSet.Index}
    (hsource : indices.Pairwise (· < ·)) {groupBy : List Expression} (hgroup : groupBy ≠ [])
    {keyOf : rowSet.Index → List Value}
    (heval : ∀ index ∈ indices,
      evalGroupKeys rowSet.columns (rowSet.row index) groupBy = .ok (keyOf index)) :
    ∃ groups, buildGroups indices groupBy = .ok groups ∧
      (∀ index ∈ indices, ∃ group ∈ groups, index ∈ group.rowIndices) ∧
      (groups.Pairwise fun group other => group.rowIndices.Disjoint other.rowIndices) ∧
      (∀ group ∈ groups, group.rowIndices ≠ [] ∧ group.rowIndices.Sublist indices) ∧
      (groups.filterMap fun group => group.rowIndices.head?).Sublist indices ∧
      ((∀ i ∈ indices, ∀ j ∈ indices, i ≠ j → ToldApart (keyOf i) (keyOf j)) ↔
        ∀ i ∈ indices, ∀ j ∈ indices,
          (∃ group ∈ groups, i ∈ group.rowIndices ∧ j ∈ group.rowIndices) ↔ keyOf i = keyOf j) := by
  obtain ⟨groups, hgroups, -⟩ := buildGroups_eq_ok hgroup heval
  have hgrouped := grouped_buildGroups hgroup heval hgroups
  have hnodup : indices.Nodup := hsource.imp fun h => ne_of_lt h
  have hdisjoint := hgrouped.disjoint hnodup
  have hheads := hgrouped.heads
  rw [List.pairwise_map] at hdisjoint
  rw [List.filterMap_map] at hheads
  have htold : ∀ i ∈ indices, ∀ j ∈ indices, ToldApart (keyOf i) (keyOf j) ↔
      (groupKeysEqual (keyOf i) (keyOf j) = true ↔ keyOf i = keyOf j) := by
    intro i hi j hj
    have hlength := fun index hindex => (Outcome.mapM_eq_ok.1 (heval index hindex)).length_eq
    exact toldApart_iff ((hlength i hi).symm.trans (hlength j hj))
  have htogether : ∀ i j, (∃ group ∈ groups, i ∈ group.rowIndices ∧ j ∈ group.rowIndices) ↔
      ∃ pair ∈ groups.map Group.pair, i ∈ pair.2 ∧ j ∈ pair.2 := by
    intro i j
    simp only [List.mem_map, exists_exists_and_eq_and]
    rfl
  refine ⟨groups, hgroups, fun index hindex => ?_, hdisjoint, fun group hmem => ?_, hheads,
    fun hkeys i hi j hj => ?_, fun hkeys i hi j hj hne => ?_⟩
  · obtain ⟨_, hpair, hindex⟩ := hgrouped.exists_group hindex
    obtain ⟨group, hmem, rfl⟩ := List.mem_map.1 hpair
    exact ⟨group, hmem, hindex⟩
  · have hpair := List.mem_map_of_mem (f := Group.pair) hmem
    obtain ⟨first, rest, hrows, -⟩ := hgrouped.first _ hpair
    refine ⟨fun hnil => ?_, hgrouped.sublist _ hpair⟩
    cases hrows.symm.trans hnil
  · rw [htogether]
    exact hgrouped.together_iff (fun a ha b hb hne => (htold a ha b hb).1 (hkeys a ha b hb hne))
      hi hj
  · rw [htold i hi j hj]
    simp only [htogether] at hkeys
    exact hgrouped.same_iff groupKeysEqual_comm hkeys hi hj hne

/-! ### Keys of two types -/

/-- Rows of `t (a, b)`, the second without a text. -/
def someKeys : RowSet where
  columns := [⟨ascii "a", [ascii "t"]⟩, ⟨ascii "b", [ascii "t"]⟩]
  rows := [[.integer 1, .null], [.integer 2, .text (ascii "x")], [.integer 1, .null],
    [.integer 1, .text (ascii "x")]]

/-- `GROUP BY a, b`. -/
def bothKeys : List Expression := [.identifier (ascii "a"), .identifier (ascii "b")]

/-- All rows, in the order of the source. -/
def everyRow : List someKeys.Index := List.finRange 4

/-- The first and the third row are one group: `NULL` is the same as
`NULL`. -/
theorem groups_partition_by_keys_null :
    ∃ groups, buildGroups everyRow bothKeys = .ok groups ∧
      (∃ group ∈ groups, ⟨0, by decide⟩ ∈ group.rowIndices ∧ ⟨2, by decide⟩ ∈ group.rowIndices) ∧
      ¬∃ group ∈ groups, ⟨0, by decide⟩ ∈ group.rowIndices ∧
        ⟨3, by decide⟩ ∈ group.rowIndices := by
  have hsource : everyRow.Pairwise (· < ·) := List.pairwise_lt_finRange 4
  have heval : ∀ index ∈ everyRow,
      evalGroupKeys someKeys.columns (someKeys.row index) bothKeys = .ok (someKeys.row index) := by
    decide
  have htold : ∀ i ∈ everyRow, ∀ j ∈ everyRow, i ≠ j →
      ToldApart (someKeys.row i) (someKeys.row j) := by
    decide
  obtain ⟨groups, hgroups, -, -, -, -, hiff⟩ :=
    groups_partition_by_keys hsource (List.cons_ne_nil _ _) heval
  refine ⟨groups, hgroups, ?_, ?_⟩
  · exact (hiff.1 htold _ (by decide) _ (by decide)).2 rfl
  · intro htogether
    exact absurd ((hiff.1 htold _ (by decide) _ (by decide)).1 htogether) (by decide)

/-! ### Vectors, and what is not a number -/

/-- A column with the same vector twice. -/
def vectorTwice : RowSet where
  columns := [⟨ascii "w", [ascii "t"]⟩]
  rows := List.replicate 2 [.vector ⟨.float32, 1, [0x3f800000], Nat.one_ne_zero, rfl⟩]

/-- The floats 1 and 2, behind one that is not a number. -/
def behindNaN : RowSet where
  columns := [⟨ascii "w", [ascii "t"]⟩]
  rows := [[.float 0x7ff8000000000000], [.float 0x3ff0000000000000], [.float 0x4000000000000000]]

/-- `SELECT COUNT(w) FROM t GROUP BY w`. -/
def countByKey : SelectStatement where
  projectionItems := [{ expression := .functionCall (ascii "COUNT") [.identifier (ascii "w")] }]
  projections := [.functionCall (ascii "COUNT") [.identifier (ascii "w")]]
  fromName := some (ascii "t")
  source := some (.baseTable (ascii "t") none)
  groupBy := [.identifier (ascii "w")]

/-- **Equal vectors are not put into one group**, and different floats are
put together behind one that is not a number. -/
theorem equal_vectors_apart :
    selectFrom vectorTwice countByKey = .ok ⟨[ascii "COUNT"], [[.integer 1], [.integer 1]]⟩ ∧
      selectFrom behindNaN countByKey = .ok ⟨[ascii "COUNT"], [[.integer 3]]⟩ := by
  decide +kernel

end QuerySource

end Shoveler
