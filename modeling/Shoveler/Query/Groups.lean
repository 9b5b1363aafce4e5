import Shoveler.Common.FloatBits
import Shoveler.Common.Grouping
import Shoveler.Query.Names
import Shoveler.Query.Ordering

/-!
# The groups of a query

`buildGroups` groups the rows by first fit, on the values of the keys
(`grouped_buildGroups`). Its comparison of values takes a comparison that
fails for a difference: so a vector and a blob differ from every value,
also from themselves, while a float that is not a number differs from no
float (`alike`, `valuesEquivalent_iff`).
-/

namespace Shoveler

open Outcome

namespace QuerySource

open Ast

/-! ## Groups -/

section Groups

variable {rowSet : RowSet} {groupBy : List Expression} {indices : List rowSet.Index}
  {keyOf : rowSet.Index → List Value}

/-- A group as its keys and its rows. -/
def Group.pair (self : Group rowSet) : List Value × List rowSet.Index :=
  (self.keys, self.rowIndices)

theorem map_pair_addToGroups (keys : List Value) (index : rowSet.Index)
    (groups : List (Group rowSet)) :
    (addToGroups keys index groups).map Group.pair =
      Grouping.insert groupKeysEqual keys index (groups.map Group.pair) := by
  induction groups with
  | nil => rfl
  | cons group groups ih =>
    rw [addToGroups, List.map_cons, Grouping.insert]
    split
    · rename_i hsame
      rw [if_pos (show groupKeysEqual group.pair.1 keys = true from hsame)]
      rfl
    · rename_i hsame
      rw [if_neg (show ¬groupKeysEqual group.pair.1 keys = true from hsame), List.map_cons, ih]

/-- **`buildGroups` is grouping by first fit**, where the keys can be
evaluated. -/
theorem buildGroups_eq_ok (hgroup : groupBy ≠ [])
    (heval : ∀ index ∈ indices,
      evalGroupKeys rowSet.columns (rowSet.row index) groupBy = .ok (keyOf index)) :
    ∃ groups, buildGroups indices groupBy = .ok groups ∧
      groups.map Group.pair = Grouping.groupAll groupKeysEqual keyOf indices := by
  have hloop : buildGroups indices groupBy =
      .ok (indices.foldl (fun groups index => addToGroups (keyOf index) index groups) []) := by
    rw [buildGroups, if_neg (by rwa [List.isEmpty_iff])]
    refine foldlM_eq_ok_of_split
      (g := fun l => l.foldl (fun groups index => addToGroups (keyOf index) index groups) [])
      fun before index after hsplit => ?_
    have hmem : index ∈ indices := by
      rw [hsplit]
      exact List.mem_append_right _ List.mem_cons_self
    rw [heval index hmem, List.foldl_append]
    rfl
  refine ⟨_, hloop, ?_⟩
  rw [Grouping.groupAll]
  exact (List.foldl_hom (List.map Group.pair) fun groups index =>
    (map_pair_addToGroups (keyOf index) index groups).symm).symm

/-- Where `buildGroups` succeeds the keys could be evaluated. -/
theorem evalGroupKeys_of_buildGroups {groups : List (Group rowSet)} (hgroup : groupBy ≠ [])
    (h : buildGroups indices groupBy = .ok groups) :
    ∃ keyOf : rowSet.Index → List Value, ∀ index ∈ indices,
      evalGroupKeys rowSet.columns (rowSet.row index) groupBy = .ok (keyOf index) := by
  rw [buildGroups, if_neg (by rwa [List.isEmpty_iff])] at h
  refine ⟨fun index => (evalGroupKeys rowSet.columns (rowSet.row index) groupBy).toOption.getD [],
    fun index hindex => ?_⟩
  suffices hok : ∃ keys, evalGroupKeys rowSet.columns (rowSet.row index) groupBy = .ok keys by
    obtain ⟨keys, hkeys⟩ := hok
    simp only [hkeys]
    rfl
  generalize ([] : List (Group rowSet)) = start at h
  induction indices generalizing start with
  | nil => cases hindex
  | cons first indices ih =>
    obtain ⟨next, hround, hrest⟩ := foldlM_cons_eq_ok.1 h
    rcases List.mem_cons.1 hindex with rfl | hindex
    · obtain ⟨keys, hkeys, -⟩ := bind_eq_ok.1 hround
      exact ⟨keys, hkeys⟩
    · exact ih hindex next hrest

/-- **The groups of `buildGroups`.** -/
theorem grouped_buildGroups {groups : List (Group rowSet)} (hgroup : groupBy ≠ [])
    (heval : ∀ index ∈ indices,
      evalGroupKeys rowSet.columns (rowSet.row index) groupBy = .ok (keyOf index))
    (h : buildGroups indices groupBy = .ok groups) :
    Grouping.Grouped groupKeysEqual keyOf indices (groups.map Group.pair) := by
  obtain ⟨groups', hgroups, hpairs⟩ := buildGroups_eq_ok hgroup heval
  obtain rfl := Except.ok.inj (hgroups.symm.trans h)
  rw [hpairs]
  exact Grouping.grouped_groupAll groupKeysEqual keyOf indices

end Groups

/-! ## Keys -/

/-- Floats that are equal to the comparison: a float that is not a number is
equal to every float, and the two zeros are equal. -/
def alikeFloats (l r : UInt64) : Bool :=
  FloatBits.isNaN l || FloatBits.isNaN r || l == r || FloatBits.isZero l && FloatBits.isZero r

/-- **The values that `buildGroups` takes for the same.** Two vectors, and
two blobs, never are, also not the same one twice; an integer and a float
are compared as floats. -/
def alike : Value → Value → Bool
  | .integer l, .float r => alikeFloats (floatFromInt l) r
  | .float l, .integer r => alikeFloats l (floatFromInt r)
  | .float l, .float r => alikeFloats l r
  | .blob _, .blob _ => false
  | .vector _, .vector _ => false
  | l, r => decide (l = r)

/-- **Keys on which the comparison is right**: keys that are identical hold
no vector and no blob, and in keys that are not it finds a difference. -/
def ToldApart (left right : List Value) : Prop :=
  if left = right then ∀ value ∈ left, alike value value = true
  else ∃ pair ∈ left.zip right, alike pair.1 pair.2 = false

instance (left right : List Value) : Decidable (ToldApart left right) := by
  unfold ToldApart
  infer_instance

theorem compareNumbers_eq_zero {l r : ℤ} : compareNumbers l r = 0 ↔ l = r := by
  rw [compareNumbers_eq, signOf_eq_zero, compare_eq_iff_eq]

theorem compareBytes_eq_zero {l r : Bytes} : compareBytes l r = 0 ↔ l = r := by
  rw [compareBytes_eq, signOf_eq_zero, Std.LawfulEqCmp.compare_eq_iff_eq]

theorem compareFloats_eq_zero {l r : UInt64} :
    compareFloats l r = 0 ↔ alikeFloats l r = true := by
  have hbits : alikeFloats l r = true ↔ FloatBits.isNaN l = true ∨ FloatBits.isNaN r = true ∨
      l = r ∨ FloatBits.isZero l = true ∧ FloatBits.isZero r = true := by
    simp only [alikeFloats, Bool.or_eq_true, Bool.and_eq_true, beq_iff_eq, or_assoc]
  rw [hbits, ← FloatBits.neither_less_iff]
  unfold compareFloats
  by_cases hless : Float.ofBits l < Float.ofBits r
  · simp [hless]
  · by_cases hmore : Float.ofBits r < Float.ofBits l
    · simp [hless, hmore]
    · simp [hless, hmore]

/-- **The comparison of two values.** -/
theorem valuesEquivalent_iff {l r : Value} :
    valuesEquivalent l r = true ↔ alike l r = true := by
  cases l with
  | null => cases r <;> simp [valuesEquivalent, alike]
  | integer l =>
    cases r with
    | integer r =>
      simp [valuesEquivalent, compareValues, alike, compareNumbers_eq_zero, Int64.toInt_inj]
    | float r => simp [valuesEquivalent, compareValues, alike, compareFloats_eq_zero]
    | null | boolean | text | blob | vector => simp [valuesEquivalent, compareValues, alike]
  | float l =>
    cases r with
    | integer r | float r => simp [valuesEquivalent, compareValues, alike, compareFloats_eq_zero]
    | null | boolean | text | blob | vector => simp [valuesEquivalent, compareValues, alike]
  | boolean l =>
    cases r with
    | boolean r =>
      cases l <;> cases r <;> simp [valuesEquivalent, compareValues, compareNumbers, alike]
    | null | integer | float | text | blob | vector =>
      simp [valuesEquivalent, compareValues, alike]
  | text l =>
    cases r with
    | text r => simp [valuesEquivalent, compareValues, alike, compareBytes_eq_zero]
    | null | integer | float | boolean | blob | vector =>
      simp [valuesEquivalent, compareValues, alike]
  | blob l => cases r <;> simp [valuesEquivalent, compareValues, alike]
  | vector l => cases r <;> simp [valuesEquivalent, compareValues, alike]

theorem alike_comm (l r : Value) : alike l r = alike r l := by
  have hfloats : ∀ l r, alikeFloats l r = alikeFloats r l := by
    intro l r
    rw [alikeFloats, alikeFloats, Bool.or_comm (FloatBits.isNaN l), Bool.beq_comm,
      Bool.and_comm (FloatBits.isZero l)]
  cases l <;> cases r <;>
    first | rfl | exact hfloats _ _ | exact decide_eq_decide.2 eq_comm

theorem groupKeysEqual_iff {left right : List Value} (h : left.length = right.length) :
    groupKeysEqual left right = true ↔ ∀ pair ∈ left.zip right, alike pair.1 pair.2 = true := by
  induction left generalizing right with
  | nil =>
    obtain rfl := List.length_eq_zero_iff.1 h.symm
    simp [groupKeysEqual]
  | cons l left ih =>
    cases right with
    | nil => cases h
    | cons r right =>
      rw [groupKeysEqual, Bool.and_eq_true_iff, valuesEquivalent_iff, ih (Nat.succ.inj h),
        List.zip_cons_cons, List.forall_mem_cons]

theorem groupKeysEqual_comm (left right : List Value) :
    groupKeysEqual left right = groupKeysEqual right left := by
  induction left generalizing right with
  | nil => cases right <;> rfl
  | cons l left ih =>
    cases right with
    | nil => rfl
    | cons r right =>
      have hfirst : valuesEquivalent l r = valuesEquivalent r l := by
        rw [Bool.eq_iff_iff, valuesEquivalent_iff, valuesEquivalent_iff, alike_comm]
      rw [groupKeysEqual, groupKeysEqual, hfirst, ih]

/-- **Where the comparison of two keys is right.** -/
theorem toldApart_iff {left right : List Value} (h : left.length = right.length) :
    ToldApart left right ↔ (groupKeysEqual left right = true ↔ left = right) := by
  rw [groupKeysEqual_iff h]
  unfold ToldApart
  split
  · rename_i heq
    subst heq
    rw [List.zip, List.zipWith_self, List.forall_mem_map]
    simp
  · rename_i hne
    simp [hne]

end QuerySource

end Shoveler
