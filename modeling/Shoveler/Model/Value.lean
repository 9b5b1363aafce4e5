import Mathlib.Data.List.Basic

/-!
# Values, names and errors

The runtime values of `value.zig`, the case-insensitive names of
`ddl.zig`, and the errors the engine returns.

Floats are kept as their bit patterns: the engine stores, clones and
persists them without looking inside, and two NaNs with different
payloads stay different.
-/

namespace Shoveler

/-- A byte string, the source's `[]const u8`. -/
abbrev Bytes := List UInt8

/-- A source literal as bytes. -/
def ascii (s : String) : Bytes := s.toList.map fun c => c.toNat.toUInt8

/-! ## Names -/

/-- `std.ascii.toLower`. -/
def asciiLower (b : UInt8) : UInt8 := if 65 ≤ b ∧ b ≤ 90 then b + 32 else b

/-- A name with its case folded away. -/
def foldCase (name : Bytes) : Bytes := name.map asciiLower

/-- `std.ascii.eqlIgnoreCase`: equal lengths, and equal bytes up to case. -/
def namesEqual (a b : Bytes) : Bool := decide (foldCase a = foldCase b)

theorem namesEqual_iff {a b : Bytes} : namesEqual a b = true ↔ foldCase a = foldCase b :=
  decide_eq_true_iff

@[simp] theorem namesEqual_self (a : Bytes) : namesEqual a a = true := namesEqual_iff.2 rfl

/-! ## Errors -/

/-- What the language calls illegal behaviour, at the places where the
modelled code can run into it. -/
inductive Panic where
  | integerOverflow
  | integerCast
  | indexOutOfBounds
  | nullUnwrap
  | danglingStore
  | assertion
deriving DecidableEq, Repr

/-- The engine's error set. `panic` stands for the illegal behaviour that
ends the process and is no error code. -/
inductive Error where
  | typeMismatch
  | vectorDimensionMismatch
  | invalidVectorDimension
  | duplicateColumn
  | duplicateObject
  | unknownObject
  | nameConflict
  | columnCountMismatch
  | duplicateRow
  | unknownRow
  | alreadyCommitted
  | alreadyRolledBack
  | commitQueueFull
  | snapshotRetentionExceeded
  | invalidCommitQueueLimit
  | parseDiagnostic
  | transactionRequired
  | transactionActive
  | noActiveTransaction
  | unknownColumn
  | ambiguousColumn
  | invalidGrouping
  | unsupportedExpression
  | unsupportedView
  | unsupportedProcedure
  | zeroVector
  | rowStoreMismatch
  | invalidHeader
  | unsupportedVersion
  | payloadLengthMismatch
  | payloadChecksumMismatch
  | truncatedPayload
  | invalidColumnType
  | invalidValueTag
  | invalidVectorElementType
  | invalidBooleanEncoding
  | valueTooLarge
  | outOfMemory
  | panic (cause : Panic)
deriving DecidableEq, Repr

/-- A fallible computation of the engine. -/
abbrev Result := Except Error

/-! ## Values -/

/-- `VectorElementType`. -/
inductive VectorElementType where
  | float32
deriving DecidableEq, Repr

/-- **A vector with as many components as its dimension, and at least
one**: `Vector.init` builds no other. Components are `f32` bit patterns. -/
structure Vector where
  elementType : VectorElementType
  dimension : ℕ
  values : List UInt32
  positive : dimension ≠ 0
  sized : values.length = dimension
deriving DecidableEq, Repr

/-- `Vector.init`. -/
def Vector.init (elementType : VectorElementType) (dimension : ℕ) (values : List UInt32) :
    Result Vector :=
  if hpos : dimension = 0 then .error .invalidVectorDimension
  else if hlen : values.length ≠ dimension then .error .vectorDimensionMismatch
  else .ok ⟨elementType, dimension, values, hpos, not_not.1 hlen⟩

/-- Rebuilding a vector from its fields succeeds and changes nothing;
`Vector.clone` does just that. -/
@[simp] theorem Vector.init_self (v : Vector) :
    Vector.init v.elementType v.dimension v.values = .ok v := by
  rw [Vector.init, dif_neg v.positive, dif_neg (not_not.2 v.sized)]

/-- `Value`. -/
inductive Value where
  | null
  | integer (v : Int64)
  | float (bits : UInt64)
  | boolean (v : Bool)
  | text (bytes : Bytes)
  | blob (bytes : Bytes)
  | vector (v : Vector)
deriving DecidableEq, Repr

/-- `Value.initVector`. -/
def Value.initVector (elementType : VectorElementType) (dimension : ℕ) (values : List UInt32) :
    Result Value := do
  return .vector (← Vector.init elementType dimension values)

end Shoveler
