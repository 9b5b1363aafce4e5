import Mathlib.Algebra.Group.Int.Defs
import Mathlib.Algebra.Group.Nat.Defs
import Shoveler.Model.Ast
import Shoveler.Model.RowStore

/-!
# Expressions over one row

The scalar evaluator of `executor.zig`, which `UPDATE` and `DELETE` run
their `WHERE` and `SET` expressions through, with the distances of
`distance.zig`.
-/

namespace Shoveler

open Ast (Literal BinaryOperator Expression)

/-! ## Floats -/

/-- A computation on `f64` values, on their bit patterns. -/
def floatOp (op : Float → Float → Float) (a b : UInt64) : UInt64 :=
  (op (Float.ofBits a) (Float.ofBits b)).toBits

/-- `@floatFromInt` on an `i64`. -/
def floatFromInt (v : Int64) : UInt64 := (Float.ofInt v.toInt).toBits

/-- `@floatCast` to `f32`: rounded to nearest, a NaN keeping its sign and
the high bits of its payload. -/
def narrow (bits : UInt64) : UInt32 :=
  if (Float.ofBits bits).isNaN then
    let sign := ((bits >>> 32) &&& 0x80000000).toUInt32
    let payload := ((bits >>> 29) &&& 0x003fffff).toUInt32
    sign ||| payload ||| (0x7fc00000 : UInt32)
  else
    match (Float.ofBits bits).toModel.unpack with
    | .finite sign mantissa exponent _ =>
      (Float32.Model.pack (.round .binary32 sign mantissa exponent)).toBits
    | other => (Float32.Model.pack other).toBits

/-- `@as(f64, x)` of an `f32`: exact, a NaN keeping its sign and payload. -/
def widen (bits : UInt32) : UInt64 :=
  if (Float32.ofBits bits).isNaN then
    let sign := (bits.toUInt64 &&& 0x80000000) <<< 32
    let payload := (bits.toUInt64 &&& 0x003fffff) <<< 29
    sign ||| payload ||| (0x7ff8000000000000 : UInt64)
  else
    match (Float32.ofBits bits).toModel.unpack with
    | .finite sign mantissa exponent _ =>
      (Float.Model.pack (.round .binary64 sign mantissa exponent)).toBits
    | other => (Float.Model.pack other).toBits

/-! ## Distances -/

/-- The components of a vector as `f64` values. -/
def components (values : List UInt32) : List Float := values.map fun v => Float.ofBits (widen v)

/-- `squaredL2`. -/
def squaredL2 (left right : List UInt32) : Result Float :=
  if left.length ≠ right.length then .error .vectorDimensionMismatch
  else .ok (((components left).zip (components right)).foldl
    (fun sum (l, r) => sum + (l - r) * (l - r)) 0)

/-- `l2`. -/
def l2 (left right : List UInt32) : Result Float := do
  return (← squaredL2 left right).sqrt

/-- `cosineDistance`. -/
def cosineDistance (left right : List UInt32) : Result Float :=
  if left.length ≠ right.length then .error .vectorDimensionMismatch
  else
    let sums := ((components left).zip (components right)).foldl
      (fun (dot, leftNorm, rightNorm) (l, r) => (dot + l * r, leftNorm + l * l, rightNorm + r * r))
      ((0, 0, 0) : Float × Float × Float)
    if sums.2.1 == 0 || sums.2.2 == 0 then .error .zeroVector
    else .ok (1 - sums.1 / (sums.2.1.sqrt * sums.2.2.sqrt))

/-! ## Literals and comparison -/

/-- `valueFromLiteral`. -/
def valueFromLiteral : Literal → Result Value
  | .null => .ok .null
  | .integer v => .ok (.integer v)
  | .float bits => .ok (.float bits)
  | .boolean v => .ok (.boolean v)
  | .string v => .ok (.text v)
  | .vector components => Value.initVector .float32 components.length (components.map narrow)

/-- `evalConstant`. -/
def evalConstant : Expression → Result Value
  | .literal literal => valueFromLiteral literal
  | _ => .error .unsupportedExpression

/-- `compareNumbers`. -/
def compareNumbers (left right : Int) : Int :=
  if left < right then -1 else if left > right then 1 else 0

/-- `compareFloats`. -/
def compareFloats (left right : UInt64) : Int :=
  if Float.ofBits left < Float.ofBits right then -1
  else if Float.ofBits left > Float.ofBits right then 1
  else 0

/-- `std.mem.order`, through `compareOrdering`. -/
def compareBytes : Bytes → Bytes → Int
  | [], [] => 0
  | [], _ :: _ => -1
  | _ :: _, [] => 1
  | a :: as, b :: bs => if a < b then -1 else if a > b then 1 else compareBytes as bs

/-- `compareValues`. -/
def compareValues : Value → Value → Result Int
  | .null, .null => .ok 0
  | .integer l, .integer r => .ok (compareNumbers l.toInt r.toInt)
  | .integer l, .float r => .ok (compareFloats (floatFromInt l) r)
  | .float l, .integer r => .ok (compareFloats l (floatFromInt r))
  | .float l, .float r => .ok (compareFloats l r)
  | .boolean l, .boolean r => .ok (compareNumbers l.toNat r.toNat)
  | .text l, .text r => .ok (compareBytes l r)
  | _, _ => .error .typeMismatch

/-! ## Operators -/

/-- An `i64` result, which must stay in range. -/
def checkedInteger (n : Int) : Result Value :=
  if -2 ^ 63 ≤ n ∧ n < 2 ^ 63 then .ok (.integer (Int64.ofInt n))
  else .error (.panic .integerOverflow)

/-- `evalNumericBinary`, for the operator given on integers and on
floats. -/
def evalNumericBinary (onIntegers : Int → Int → Int) (onFloats : Float → Float → Float) :
    Value → Value → Result Value
  | .integer l, .integer r => checkedInteger (onIntegers l.toInt r.toInt)
  | .integer l, .float r => .ok (.float (floatOp onFloats (floatFromInt l) r))
  | .float l, .integer r => .ok (.float (floatOp onFloats l (floatFromInt r)))
  | .float l, .float r => .ok (.float (floatOp onFloats l r))
  | _, _ => .error .typeMismatch

/-- A comparison operator, on the sign of the comparison. -/
def evalComparison (left right : Value) (holds : Int → Bool) : Result Value := do
  return .boolean (holds (← compareValues left right))

/-- `evalBinaryValues`. -/
def evalBinaryValues (left right : Value) : BinaryOperator → Result Value
  | .add => evalNumericBinary (· + ·) (· + ·) left right
  | .subtract => evalNumericBinary (· - ·) (· - ·) left right
  | .andOp =>
    match left, right with
    | .boolean l, .boolean r => .ok (.boolean (l && r))
    | _, _ => .error .typeMismatch
  | .equal => evalComparison left right (· = 0)
  | .notEqual => evalComparison left right (· ≠ 0)
  | .lessThan => evalComparison left right (· < 0)
  | .lessEqual => evalComparison left right (· ≤ 0)
  | .greaterThan => evalComparison left right (· > 0)
  | .greaterEqual => evalComparison left right (· ≥ 0)

/-- The distance functions by name, as `evalFunctionCall` tries them. -/
def distanceFunction (name : Bytes) : Option (List UInt32 → List UInt32 → Result Float) :=
  if namesEqual name (ascii "l2_distance") then some l2
  else if namesEqual name (ascii "squared_l2_distance") then some squaredL2
  else if namesEqual name (ascii "cosine_distance") then some cosineDistance
  else none

/-- The last step of `evalVectorDistanceFunction`, on evaluated
arguments. -/
def applyDistance (distance : List UInt32 → List UInt32 → Result Float) :
    Value → Value → Result Value
  | .vector l, .vector r => do return .float (← distance l.values r.values).toBits
  | _, _ => .error .typeMismatch

/-- `evalExpression`. -/
def evalExpression (table : TableDef) (row : Row) : Expression → Result Value
  | .literal literal => valueFromLiteral literal
  | .identifier name =>
    match table.columnIndex name with
    | none => .error .unknownColumn
    | some index =>
      match row.values[index]? with
      | none => .error (.panic .indexOutOfBounds)
      | some value => .ok value
  | .binary left operator right => do
    let left ← evalExpression table row left
    let right ← evalExpression table row right
    evalBinaryValues left right operator
  | .functionCall name args =>
    match distanceFunction name, args with
    | some distance, [left, right] => do
      let left ← evalExpression table row left
      let right ← evalExpression table row right
      applyDistance distance left right
    | _, _ => .error .unsupportedExpression
  | .star => .error .unsupportedExpression

/-- `matchesWhere`. -/
def matchesWhere (table : TableDef) (row : Row) : Option Expression → Result Bool
  | none => .ok true
  | some clause => do
    match ← evalExpression table row clause with
    | .boolean holds => .ok holds
    | _ => .error .typeMismatch

end Shoveler
