import Mathlib.Data.List.Sort
import Shoveler.Model.QuerySource

/-!
# Comparing values

Values of one type are ordered: integers by size, `false` before `true`,
texts byte by byte (`KeyType.order`). The evaluator compares them by the
same order, and gives the result as a sign (`compareValues_eq`).
-/

namespace Shoveler

namespace QuerySource

/-- The types by which rows can be ordered. -/
inductive KeyType where
  | integer
  | boolean
  | text
deriving DecidableEq, Repr

namespace KeyType

/-- A value of the type, which is not `NULL`. -/
def Holds : KeyType → Value → Prop
  | .integer, value => ∃ v, value = .integer v
  | .boolean, value => ∃ v, value = .boolean v
  | .text, value => ∃ bytes, value = .text bytes

/-- The integer in a value. -/
def integerOf : Value → ℤ
  | .integer v => v.toInt
  | _ => 0

/-- The boolean in a value. -/
def booleanOf : Value → Bool
  | .boolean v => v
  | _ => false

/-- The text in a value. -/
def textOf : Value → Bytes
  | .text bytes => bytes
  | _ => []

/-- Integers by size, `false` before `true`, texts byte by byte. -/
def order : KeyType → Value → Value → Ordering
  | .integer => compareOn integerOf
  | .boolean => compareOn booleanOf
  | .text => compareOn textOf

end KeyType

theorem KeyType.transCmp_order (type : KeyType) : Std.TransCmp type.order := by
  cases type with
  | integer => exact inferInstanceAs (Std.TransCmp (compareOn integerOf))
  | boolean => exact inferInstanceAs (Std.TransCmp (compareOn booleanOf))
  | text => exact inferInstanceAs (Std.TransCmp (compareOn textOf))

/-! ## The comparison of the evaluator -/

/-- A comparison as the evaluator gives it. -/
def signOf : Ordering → ℤ
  | .lt => -1
  | .eq => 0
  | .gt => 1

theorem compareNumbers_eq (l r : ℤ) : compareNumbers l r = signOf (compare l r) := by
  unfold compareNumbers
  rcases lt_trichotomy l r with h | rfl | h
  · rw [if_pos h, compare_lt_iff_lt.2 h]
    rfl
  · rw [if_neg (lt_irrefl l), if_neg (lt_irrefl l), compare_eq_iff_eq.2 rfl]
    rfl
  · rw [if_neg (lt_asymm h), if_pos h, compare_gt_iff_gt.2 h]
    rfl

theorem compareBytes_eq (l r : Bytes) : compareBytes l r = signOf (compare l r) := by
  induction l generalizing r with
  | nil =>
    cases r with
    | nil => rfl
    | cons b r => rfl
  | cons a l ih =>
    cases r with
    | nil => rfl
    | cons b r =>
      have hbyte : compare a b = if a < b then .lt else if a = b then .eq else .gt := rfl
      rw [compareBytes, List.compare_cons_cons, ih, hbyte]
      by_cases hless : a < b
      · rw [if_pos hless, if_pos hless]
        rfl
      · by_cases hsame : a = b
        · subst hsame
          rw [if_neg hless, if_neg hless, if_neg hless, if_pos rfl]
          rfl
        · have hmore : a > b := by
            refine UInt8.lt_of_le_of_ne (UInt8.not_lt.1 hless) ?_
            exact fun h => hsame h.symm
          rw [if_neg hless, if_neg hless, if_pos hmore, if_neg hsame]
          rfl

/-- **Values of one type are compared as the meaning does.** -/
theorem compareValues_eq {type : KeyType} {l r : Value} (hl : type.Holds l) (hr : type.Holds r) :
    compareValues l r = .ok (signOf (type.order l r)) := by
  cases type with
  | integer =>
    obtain ⟨l, rfl⟩ := hl
    obtain ⟨r, rfl⟩ := hr
    rw [compareValues, compareNumbers_eq]
    rfl
  | boolean =>
    obtain ⟨l, rfl⟩ := hl
    obtain ⟨r, rfl⟩ := hr
    cases l <;> cases r <;> rfl
  | text =>
    obtain ⟨l, rfl⟩ := hl
    obtain ⟨r, rfl⟩ := hr
    rw [compareValues, compareBytes_eq]
    rfl

theorem signOf_eq_zero {o : Ordering} : signOf o = 0 ↔ o = .eq := by
  cases o <;> simp [signOf]

end QuerySource

end Shoveler
