import Shoveler.Query.Groups

/-!
# What the aggregates of a group are

`COUNT` counts rows, or the values that are not `NULL`; `MIN` and `MAX`
keep the best value seen so far, and replace it only by a better one. For
values of one type the best value is the least, or the greatest, of all
(`best_foldlM`), and there is only one such value (`Best.unique`): so no
aggregate depends on the order of the rows. The counts of all groups add
up to the number of rows (`aggregates_correct`).
-/

namespace Shoveler

open Outcome List

namespace QuerySource

open Ast

/-! ## The meaning -/

/-- The values an aggregate takes into account. -/
def present (values : List Value) : List Value := values.filter (· ≠ .null)

/-- A count, as a result of the evaluator. -/
def IsCount (result : Result Value) (n : ℕ) : Prop :=
  ∃ v : Int64, result = .ok (.integer v) ∧ v.toInt = n

/-- **The best of some values**: none if there are none, else one of them
that no other beats. -/
def Best (type : KeyType) (beats : Ordering) (values : List Value) : Option Value → Prop
  | none => values = []
  | some best => best ∈ values ∧ ∀ value ∈ values, type.order value best ≠ beats

/-- The aggregates of a group, for the values of the argument on its
rows. -/
structure Aggregated {rowSet : RowSet} (group : Group rowSet) (arg : Expression) (type : KeyType)
    (values : List Value) : Prop where
  countRows : IsCount (evalAggregateCall group .count [.star]) group.rowIndices.length
  count : IsCount (evalAggregateCall group .count [arg]) (present values).length
  min : ∃ best, Best type .lt (present values) best ∧
    evalAggregateCall group .min [arg] = .ok (best.getD .null)
  max : ∃ best, Best type .gt (present values) best ∧
    evalAggregateCall group .max [arg] = .ok (best.getD .null)
  reordered : ∀ other : Group rowSet, other.rowIndices.Perm group.rowIndices →
    evalAggregateCall other .count [.star] = evalAggregateCall group .count [.star] ∧
      ∀ function ∈ [.count, .min, .max],
        evalAggregateCall other function [arg] = evalAggregateCall group function [arg]

theorem isCount_countValue {n : ℕ} (h : n < 2 ^ 63) : IsCount (countValue n) n := by
  refine ⟨Int64.ofNat n, if_pos h, ?_⟩
  rw [Int64.toInt_ofNat_of_lt h]

/-! ## The best value -/

section Best

variable {type : KeyType} {beats : Ordering} {values others : List Value}

/-- Values of one type that compare as equal are equal. -/
theorem KeyType.eq_of_order {l r : Value} (hl : type.Holds l) (hr : type.Holds r)
    (h : type.order l r = .eq) : l = r := by
  cases type with
  | integer =>
    obtain ⟨l, rfl⟩ := hl
    obtain ⟨r, rfl⟩ := hr
    exact congrArg _ (Int64.toInt_inj.1 (compare_eq_iff_eq.1 h))
  | boolean =>
    obtain ⟨l, rfl⟩ := hl
    obtain ⟨r, rfl⟩ := hr
    exact congrArg _ (compare_eq_iff_eq.1 h)
  | text =>
    obtain ⟨l, rfl⟩ := hl
    obtain ⟨r, rfl⟩ := hr
    exact congrArg _ (Std.LawfulEqCmp.compare_eq_iff_eq.1 h)

/-- What beats a value that beats another beats the other as well. -/
theorem KeyType.order_trans (hbeats : beats ≠ .eq) {a b c : Value} (hab : type.order a b = beats)
    (hbc : type.order b c = beats) : type.order a c = beats := by
  have htrans := type.transCmp_order
  cases beats with
  | lt => exact Std.TransCmp.lt_trans hab hbc
  | gt => exact Std.TransCmp.gt_trans hab hbc
  | eq => exact absurd rfl hbeats

/-- **There is one best value**, in whatever order the values stand. -/
theorem Best.unique (hbeats : beats ≠ .eq) (htyped : ∀ value ∈ values, type.Holds value)
    (hperm : others.Perm values) {l r : Option Value} (hl : Best type beats others l)
    (hr : Best type beats values r) : l = r := by
  have htrans := type.transCmp_order
  cases l with
  | none =>
    cases r with
    | none => rfl
    | some r =>
      obtain rfl : others = [] := hl
      exact absurd (hperm.mem_iff.2 hr.1) not_mem_nil
  | some l =>
    have hmem := hperm.mem_iff.1 hl.1
    cases r with
    | none =>
      obtain rfl : values = [] := hr
      exact absurd hmem not_mem_nil
    | some r =>
      -- neither of the two beats the other
      have hlr := hr.2 l hmem
      have hrl := hl.2 r (hperm.mem_iff.2 hr.1)
      have hswap : type.order r l = (type.order l r).swap := Std.OrientedCmp.eq_swap
      rw [hswap] at hrl
      have heq : type.order l r = .eq := by
        generalize type.order l r = o at hlr hrl
        cases beats <;> cases o <;> simp_all
      rw [KeyType.eq_of_order (htyped l hmem) (htyped r hr.1) heq]

/-- The side on which a value is better than the best so far. -/
def side : Function → Ordering
  | .max => .gt
  | _ => .lt

theorem present_append_singleton (values : List Value) (value : Value) :
    present (values ++ [value]) = if value = .null then present values
      else present values ++ [value] := by
  rw [present, filter_append, filter_singleton]
  by_cases hnull : value = .null
  · simp [present, hnull]
  · simp [present, hnull]

theorem holds_of_mem_present (htyped : ∀ value ∈ values, value = .null ∨ type.Holds value)
    {value : Value} (h : value ∈ present values) : type.Holds value := by
  obtain ⟨hmem, hpresent⟩ := mem_filter.1 h
  exact (htyped value hmem).resolve_left (of_decide_eq_true hpresent)

/-- The evaluator replaces the best value exactly by one that beats it. -/
theorem replace_iff {function : Function} (hfunction : function = .min ∨ function = .max)
    (o : Ordering) :
    (if function = .min then signOf o < 0 else signOf o > 0) ↔ o = side function := by
  rcases hfunction with rfl | rfl <;> cases o <;> simp [signOf, side]

/-- **One value more keeps the best value what it is.** -/
theorem best_add {function : Function} (hfunction : function = .min ∨ function = .max)
    {value : Value} (htyped : ∀ v ∈ values ++ [value], v = .null ∨ type.Holds v)
    {acc : Accumulator} (h : Best type (side function) (present values) acc.best) :
    ∃ next, acc.add function value = .ok next ∧
      Best type (side function) (present (values ++ [value])) next.best := by
  have hseen : ∀ v ∈ values, v = .null ∨ type.Holds v := fun v hv =>
    htyped v (mem_append_left _ hv)
  rw [present_append_singleton]
  by_cases hnull : value = .null
  · refine ⟨acc, if_pos hnull, ?_⟩
    rwa [if_pos hnull]
  have hvalue := (htyped value (by simp)).resolve_left hnull
  have htrans := type.transCmp_order
  have hrefl : type.order value value = .eq := Std.ReflCmp.compare_self
  have hside : side function ≠ .eq := by rcases hfunction with rfl | rfl <;> decide
  rw [if_neg hnull]
  cases hbest : acc.best with
  | none =>
    refine ⟨{ acc with best := some value }, ?_, ?_⟩
    · rcases hfunction with rfl | rfl <;> simp [Accumulator.add, hnull, hbest]
    · rw [hbest] at h
      have hnone : present values = [] := h
      rw [hnone]
      refine ⟨mem_singleton_self _, forall_mem_singleton.2 ?_⟩
      rw [hrefl]
      exact hside.symm
  | some best =>
    rw [hbest] at h
    obtain ⟨hmem, hunbeaten⟩ := h
    have hcompare := compareValues_eq hvalue (holds_of_mem_present hseen hmem)
    have hadd : acc.add function value =
        if type.order value best = side function then .ok { acc with best := some value }
        else .ok acc := by
      simp only [← replace_iff hfunction]
      rcases hfunction with rfl | rfl
      · simp [Accumulator.add, hnull, hbest, hcompare]
      · simp [Accumulator.add, hnull, hbest, hcompare]
    by_cases hbeats : type.order value best = side function
    · refine ⟨_, hadd.trans (if_pos hbeats), by simp, ?_⟩
      rw [forall_mem_append, forall_mem_singleton, hrefl]
      refine ⟨fun v hv hbetter => ?_, hside.symm⟩
      exact hunbeaten v hv (KeyType.order_trans hside hbetter hbeats)
    · refine ⟨_, hadd.trans (if_neg hbeats), ?_⟩
      rw [hbest]
      exact ⟨mem_append_left _ hmem,
        forall_mem_append.2 ⟨hunbeaten, forall_mem_singleton.2 hbeats⟩⟩

/-- **So the loop ends with the best value.** -/
theorem best_foldlM {function : Function} (hfunction : function = .min ∨ function = .max)
    (htyped : ∀ v ∈ values, v = .null ∨ type.Holds v) :
    ∃ acc, values.foldlM (Accumulator.add function) {} = .ok acc ∧
      Best type (side function) (present values) acc.best := by
  induction values using reverseRecOn with
  | nil => exact ⟨{}, rfl, rfl⟩
  | append_singleton values value ih =>
    obtain ⟨acc, hacc, hbest⟩ := ih fun v hv => htyped v (mem_append_left _ hv)
    obtain ⟨next, hnext, hbest⟩ := best_add hfunction htyped hbest
    refine ⟨next, ?_, hbest⟩
    rw [foldlM_append, hacc, ok_bind, foldlM_cons, hnext]
    rfl

end Best

/-! ## The count -/

theorem foldlM_count (values : List Value) (acc : Accumulator) :
    values.foldlM (Accumulator.add .count) acc =
      .ok { acc with count := acc.count + (present values).length } := by
  induction values generalizing acc with
  | nil => rfl
  | cons value values ih =>
    rw [foldlM_cons, Accumulator.add]
    by_cases hnull : value = .null
    · rw [if_pos hnull, ok_bind, ih]
      simp [present, hnull]
    · rw [if_neg hnull, ok_bind, ih]
      simp [present, hnull, Nat.add_assoc, Nat.add_comm 1]

/-! ## The aggregates of a group -/

section Group

variable {rowSet : RowSet} {group : Group rowSet} {arg : Expression} {type : KeyType}
  {valueOf : rowSet.Index → Value}

/-- **The loop of an aggregate is about the values of its argument.** -/
theorem evalAggregateCall_eq (hstar : arg ≠ .star)
    (heval : ∀ index ∈ group.rowIndices,
      evalExpression rowSet.columns (rowSet.row index) arg = .ok (valueOf index))
    (function : Function) :
    evalAggregateCall group function [arg] =
      (group.rowIndices.map valueOf).foldlM (Accumulator.add function) {} >>=
        Accumulator.finish function := by
  have hloop : ∀ (indices : List rowSet.Index) (acc : Accumulator),
      (∀ index ∈ indices, evalExpression rowSet.columns (rowSet.row index) arg =
        .ok (valueOf index)) →
      indices.foldlM (fun acc index => do
        let value ← evalExpression rowSet.columns (rowSet.row index) arg
        Accumulator.add function acc value) acc =
      (indices.map valueOf).foldlM (Accumulator.add function) acc := by
    intro indices acc heval
    induction indices generalizing acc with
    | nil => rfl
    | cons index indices ih =>
      rw [forall_mem_cons] at heval
      rw [foldlM_cons, map_cons, foldlM_cons, heval.1, ok_bind]
      exact bind_congr fun next => ih next heval.2
  rw [← hloop _ _ heval]
  cases arg with
  | star => exact absurd rfl hstar
  | literal | identifier | binary | functionCall => cases function <;> rfl

/-- `COUNT` of an argument. -/
theorem evalAggregateCall_count (hstar : arg ≠ .star)
    (heval : ∀ index ∈ group.rowIndices,
      evalExpression rowSet.columns (rowSet.row index) arg = .ok (valueOf index)) :
    evalAggregateCall group .count [arg] =
      countValue (present (group.rowIndices.map valueOf)).length := by
  rw [evalAggregateCall_eq hstar heval, foldlM_count]
  simp [Accumulator.finish]

/-- `MIN` and `MAX` of an argument. -/
theorem evalAggregateCall_best {function : Function} (hfunction : function = .min ∨ function = .max)
    (hstar : arg ≠ .star)
    (heval : ∀ index ∈ group.rowIndices,
      evalExpression rowSet.columns (rowSet.row index) arg = .ok (valueOf index))
    (htyped : ∀ index ∈ group.rowIndices, valueOf index = .null ∨ type.Holds (valueOf index)) :
    ∃ best, Best type (side function) (present (group.rowIndices.map valueOf)) best ∧
      evalAggregateCall group function [arg] = .ok (best.getD .null) := by
  obtain ⟨acc, hacc, hbest⟩ := best_foldlM hfunction (forall_mem_map.2 htyped)
  refine ⟨acc.best, hbest, ?_⟩
  rw [evalAggregateCall_eq hstar heval, hacc]
  rcases hfunction with rfl | rfl <;> rfl

/-- **No aggregate depends on the order of the rows.** -/
theorem evalAggregateCall_perm {function : Function} (hfunction : function ∈ [.count, .min, .max])
    (hstar : arg ≠ .star)
    (heval : ∀ index ∈ group.rowIndices,
      evalExpression rowSet.columns (rowSet.row index) arg = .ok (valueOf index))
    (htyped : ∀ index ∈ group.rowIndices, valueOf index = .null ∨ type.Holds (valueOf index))
    {other : Group rowSet} (hperm : other.rowIndices.Perm group.rowIndices) :
    evalAggregateCall other function [arg] = evalAggregateCall group function [arg] := by
  have heval' : ∀ index ∈ other.rowIndices,
      evalExpression rowSet.columns (rowSet.row index) arg = .ok (valueOf index) :=
    fun index hindex => heval index (hperm.mem_iff.1 hindex)
  have hpresent := (hperm.map valueOf).filter (· ≠ .null)
  by_cases hcount : function = .count
  · subst hcount
    rw [evalAggregateCall_count hstar heval, evalAggregateCall_count hstar heval']
    exact congrArg countValue hpresent.length_eq
  · have hextreme : function = .min ∨ function = .max := by simpa [hcount] using hfunction
    have hside : side function ≠ .eq := by rcases hextreme with rfl | rfl <;> decide
    obtain ⟨best, hbest, hresult⟩ := evalAggregateCall_best hextreme hstar heval htyped
    obtain ⟨best', hbest', hresult'⟩ := evalAggregateCall_best hextreme hstar heval'
      fun index hindex => htyped index (hperm.mem_iff.1 hindex)
    rw [hresult, hresult', hbest'.unique hside (fun value hvalue =>
      holds_of_mem_present (forall_mem_map.2 htyped) hvalue) hpresent hbest]

/-- **The groups take every row once**, with `GROUP BY` and without. -/
theorem sum_length_buildGroups {indices : List rowSet.Index} {groupBy : List Expression}
    {groups : List (Group rowSet)} (h : buildGroups indices groupBy = .ok groups) :
    (groups.map fun group => group.rowIndices.length).sum = indices.length := by
  by_cases hgroup : groupBy = []
  · subst hgroup
    obtain rfl : [⟨[], indices⟩] = groups := Except.ok.inj h
    simp
  · obtain ⟨keyOf, heval⟩ := evalGroupKeys_of_buildGroups hgroup h
    have hperm := (grouped_buildGroups hgroup heval h).perm
    rw [flatMap_map] at hperm
    rw [← hperm.length_eq, length_flatMap]
    rfl

end Group

/-- **The aggregates of a query are correct.** For any rows: an aggregate
over a group whose argument evaluates on every row to `NULL` or to a value
of one type is what it should be, in whatever order the rows stand. And
over all groups of the rows that `WHERE` accepts, `COUNT(*)` adds up to the
number of those rows; without `GROUP BY` there is one group, also of no
rows. (Rows are in memory: there are less than `2 ^ 63`.) -/
theorem aggregates_correct (rowSet : RowSet) :
    (∀ (group : Group rowSet) (arg : Expression) (type : KeyType)
        (valueOf : rowSet.Index → Value), arg ≠ .star →
      (∀ index ∈ group.rowIndices,
        evalExpression rowSet.columns (rowSet.row index) arg = .ok (valueOf index)) →
      (∀ index ∈ group.rowIndices, valueOf index = .null ∨ type.Holds (valueOf index)) →
      group.rowIndices.length < 2 ^ 63 →
      Aggregated group arg type (group.rowIndices.map valueOf)) ∧
    (∀ (whereClause : Option Expression) (indices : List rowSet.Index)
        (groupBy : List Expression) (groups : List (Group rowSet)),
      filterIndices rowSet whereClause = .ok indices → buildGroups indices groupBy = .ok groups →
      indices.length < 2 ^ 63 →
      ∃ counts : List ℕ,
        List.Forall₂ (fun group n => IsCount (evalAggregateCall group .count [.star]) n)
          groups counts ∧ counts.sum = indices.length) ∧
    ∀ indices : List rowSet.Index, buildGroups indices [] = .ok [⟨[], indices⟩] := by
  refine ⟨fun group arg type valueOf hstar heval htyped hfits => ?_,
    fun whereClause indices groupBy groups hwhere hgroups hfits => ?_, fun indices => rfl⟩
  · have hpresent : (present (group.rowIndices.map valueOf)).length < 2 ^ 63 := by
      refine Nat.lt_of_le_of_lt (length_filter_le _ _) ?_
      rwa [length_map]
    constructor
    · exact isCount_countValue hfits
    · rw [evalAggregateCall_count hstar heval]
      exact isCount_countValue hpresent
    · exact evalAggregateCall_best (.inl rfl) hstar heval htyped
    · exact evalAggregateCall_best (.inr rfl) hstar heval htyped
    · intro other hperm
      refine ⟨congrArg countValue hperm.length_eq, fun function hfunction => ?_⟩
      exact evalAggregateCall_perm hfunction hstar heval htyped hperm
  · have hsum := sum_length_buildGroups hgroups
    refine ⟨groups.map fun group => group.rowIndices.length, ?_, hsum⟩
    rw [forall₂_map_right_iff, forall₂_same]
    intro group hgroup
    -- a group has at most as many rows as there are
    refine isCount_countValue (Nat.lt_of_le_of_lt ?_ hfits)
    rw [← hsum]
    exact le_sum_of_mem (mem_map_of_mem hgroup)

/-- Rows of `t (v)`, the second without a value. -/
def withGap : RowSet where
  columns := [⟨ascii "v", [ascii "t"]⟩]
  rows := [[.integer 3], [.null], [.integer 1]]

/-- The one group of these rows. -/
def gapGroup : Group withGap := ⟨[], List.finRange 3⟩

/-- The aggregates of `v` over these rows. -/
theorem aggregates_correct_gap :
    Aggregated gapGroup (.identifier (ascii "v")) .integer [.integer 3, .null, .integer 1] ∧
      ∃ counts : List ℕ,
        List.Forall₂ (fun group n => IsCount (evalAggregateCall group .count [.star]) n)
          [gapGroup] counts ∧ counts.sum = 3 := by
  have heval : ∀ index ∈ gapGroup.rowIndices,
      evalExpression withGap.columns (withGap.row index) (.identifier (ascii "v")) =
        .ok ((withGap.row index).headD .null) := by decide
  have htyped : ∀ index ∈ gapGroup.rowIndices, (withGap.row index).headD .null = .null ∨
      KeyType.integer.Holds ((withGap.row index).headD .null) := by
    rintro ⟨_ | _ | _ | n, hn⟩ _
    · exact .inr ⟨3, rfl⟩
    · exact .inl rfl
    · exact .inr ⟨1, rfl⟩
    · exact absurd hn (by simp [withGap])
  refine ⟨?_, ?_⟩
  · exact (aggregates_correct withGap).1 gapGroup _ .integer _ (fun h => by cases h) heval htyped
      (by decide)
  · exact (aggregates_correct withGap).2.1 none gapGroup.rowIndices [] [gapGroup] rfl rfl
      (by decide)

end QuerySource

end Shoveler
