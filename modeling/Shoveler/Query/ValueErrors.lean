import Shoveler.Model.QuerySource
import Shoveler.Storage.Failures

/-!
# Failing for a value

The operations on values fail for the values they are given, and in no
other way.
-/

namespace Shoveler

/-- **The errors that depend on values**: types, dimensions, the zero
vector, and a sum outside the range. -/
def ValueError (e : Error) : Prop :=
  e ∈ [.typeMismatch, .vectorDimensionMismatch, .invalidVectorDimension, .zeroVector,
    .panic .integerOverflow]

open Outcome (FailsWith)

instance : DecidablePred ValueError := fun _ => inferInstanceAs (Decidable (_ ∈ _))

theorem fails_valueFromLiteral (literal : Ast.Literal) :
    FailsWith ValueError (valueFromLiteral literal) := by
  cases literal with
  | vector components => exact Value.initVector_failsWith (by decide) (by decide) _ _ _
  | null | integer | float | boolean | string => exact .ok _

theorem fails_compareValues (left right : Value) :
    FailsWith ValueError (compareValues left right) := by
  unfold compareValues
  split
  all_goals first | exact .ok _ | exact .error (by decide)

theorem fails_evalNumericBinary (onIntegers : Int → Int → Int) (onFloats : Float → Float → Float)
    (left right : Value) : FailsWith ValueError (evalNumericBinary onIntegers onFloats left right) := by
  unfold evalNumericBinary
  split
  · unfold checkedInteger
    split
    · exact .ok _
    · exact .error (by decide)
  all_goals first | exact .ok _ | exact .error (by decide)

theorem fails_evalComparison (left right : Value) (holds : Int → Bool) :
    FailsWith ValueError (evalComparison left right holds) :=
  (fails_compareValues left right).bind fun _ _ => .ok _

/-- **An operator fails for its values only.** -/
theorem fails_evalBinaryValues (left right : Value) (operator : Ast.BinaryOperator) :
    FailsWith ValueError (evalBinaryValues left right operator) := by
  cases operator with
  | add => exact fails_evalNumericBinary _ _ left right
  | subtract => exact fails_evalNumericBinary _ _ left right
  | andOp =>
    simp only [evalBinaryValues]
    split
    · exact .ok _
    · exact .error (by decide)
  | equal | notEqual | lessThan | lessEqual | greaterThan | greaterEqual =>
    exact fails_evalComparison left right _

/-- **A distance fails for its values only.** -/
theorem fails_applyDistance {name : Bytes}
    {distance : List UInt32 → List UInt32 → Result Float} (h : distanceFunction name = some distance)
    (left right : Value) : FailsWith ValueError (applyDistance distance left right) := by
  have hsquared : ∀ l r, FailsWith ValueError (squaredL2 l r) := fun l r =>
    .guard (by decide) fun _ => .ok _
  have hdistance : ∀ l r, FailsWith ValueError (distance l r) := by
    intro l r
    unfold distanceFunction at h
    split at h
    · obtain rfl := Option.some.inj h
      exact (hsquared l r).bind fun _ _ => .ok _
    · split at h
      · obtain rfl := Option.some.inj h
        exact hsquared l r
      · split at h
        · obtain rfl := Option.some.inj h
          exact .guard (by decide) fun _ => .guard (by decide) fun _ => .ok _
        · cases h
  unfold applyDistance
  split
  · exact (hdistance _ _).bind fun _ _ => .ok _
  · exact .error (by decide)

end Shoveler
