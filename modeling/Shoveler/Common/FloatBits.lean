import Mathlib

/-!
# Comparing floats by their bits

An `f64` is a number, an infinity or not a number, and two bit patterns
stand for the same only if they are both no number: packing what was
unpacked gives the bits back (`pack_unpack_of_ne`). So where neither of two bit
patterns is less than the other, they are equal, or both are zero, or one
of them is not a number (`neither_less_iff`). The lemmas on packed floats
are reached only through the whole library, which is why it is imported.
-/

namespace Shoveler

namespace FloatBits

open Float.Model UnpackedFloat

/-! ## Bits and numbers -/

/-- **What was unpacked is packed into the same bits**, if it is a
number. -/
theorem pack_unpack_of_ne {b : BitVec Format.binary64.numBits}
    (h : UnpackedFloat.unpack .binary64 b ≠ .notANumber) :
    UnpackedFloat.pack .binary64 (UnpackedFloat.unpack .binary64 b) = b := by
  have hbits : isNaNBits b = false := by
    by_contra hnan
    rw [Bool.not_eq_false] at hnan
    obtain ⟨hexponent, hmantissa⟩ := of_decide_eq_true hnan
    exact h (by simp [UnpackedFloat.unpack, hexponent, hmantissa])
  rw [UnpackedFloat.pack_unpack, hbits, if_neg Bool.false_ne_true]

/-- **The number a bit pattern stands for.** -/
def number (bits : UInt64) : UnpackedFloat := UnpackedFloat.unpack .binary64 bits.toBitVec

/-- The bits of not a number. -/
def isNaN (bits : UInt64) : Bool :=
  match number bits with
  | .notANumber => true
  | _ => false

/-- The bits of a zero, of either sign. -/
def isZero (bits : UInt64) : Bool := bits == 0 || bits == 0x8000000000000000

theorem isNaN_iff {bits : UInt64} : isNaN bits = true ↔ number bits = .notANumber := by
  unfold isNaN
  cases number bits with
  | notANumber => simp
  | infinity s => simp
  | zero s => simp
  | finite s m e hm => simp

/-- Two bit patterns that stand for one number are one. -/
theorem number_injective {a b : UInt64} (h : number a = number b) (hnumber : isNaN a = false) :
    a = b := by
  have ha : number a ≠ .notANumber := by
    rw [← isNaN_iff.ne, hnumber]
    exact Bool.false_ne_true
  have hb : number b ≠ .notANumber := h ▸ ha
  refine UInt64.toBitVec_inj.1 ?_
  calc a.toBitVec = UnpackedFloat.pack .binary64 (number a) := (pack_unpack_of_ne ha).symm
    _ = UnpackedFloat.pack .binary64 (number b) := by rw [h]
    _ = b.toBitVec := pack_unpack_of_ne hb

theorem isZero_iff {bits : UInt64} : isZero bits = true ↔ ∃ s, number bits = .zero s := by
  constructor
  · intro h
    rcases Bool.or_eq_true_iff.1 h with h | h
    · obtain rfl := eq_of_beq h
      exact ⟨.positive, rfl⟩
    · obtain rfl := eq_of_beq h
      exact ⟨.negative, rfl⟩
  · rintro ⟨s, h⟩
    have hnumber : isNaN bits = false := by
      rw [isNaN, h]
    cases s with
    | positive =>
      obtain rfl := number_injective (b := 0) h hnumber
      rfl
    | negative =>
      obtain rfl := number_injective (b := 0x8000000000000000) h hnumber
      rfl

/-! ## Comparison -/

theorem unpack_ofBits (bits : UInt64) : (Float.ofBits bits).toModel.unpack = number bits := by
  change UnpackedFloat.unpack .binary64 (UnpackedFloat.pack .binary64 (number bits)) = number bits
  by_cases h : number bits = .notANumber
  · rw [h]
    rfl
  · rw [number, pack_unpack_of_ne h]

theorem ofBits_lt_iff (a b : UInt64) :
    Float.ofBits a < Float.ofBits b ↔ (number a).compare (number b) = some .lt := by
  rw [← unpack_ofBits a, ← unpack_ofBits b]
  change Float.lt _ _ = true ↔ _
  rw [Float.lt, decide_eq_true_iff]
  change ((_ == some Ordering.lt) = true) ↔ _
  rw [beq_iff_eq]

/-- **The place of a number among the numbers**: below zero, at zero or
above it, and there by exponent and mantissa. -/
def place : UnpackedFloat → ℤ ×ₗ ℤ ×ₗ ℤ
  | .infinity .negative => toLex (-2, toLex (0, 0))
  | .finite .negative m e _ => toLex (-1, toLex (-e, -(m : ℤ)))
  | .zero _ | .notANumber => toLex (0, toLex (0, 0))
  | .finite .positive m e _ => toLex (1, toLex (e, (m : ℤ)))
  | .infinity .positive => toLex (2, toLex (0, 0))

theorem then_eq_lt_iff {e₁ e₂ : ℤ} {m₁ m₂ : ℕ} :
    (compare e₁ e₂).then (compare m₁ m₂) = .lt ↔ e₁ < e₂ ∨ e₁ = e₂ ∧ m₁ < m₂ := by
  rw [Ordering.then_eq_lt, compare_lt_iff_lt, compare_eq_iff_eq, compare_lt_iff_lt]

/-- **A number is less than another where its place is.** -/
theorem compare_eq_lt_iff {x y : UnpackedFloat} :
    x.compare y = some .lt ↔ x ≠ .notANumber ∧ y ≠ .notANumber ∧ place x < place y := by
  cases x with
  | notANumber => simp [UnpackedFloat.compare]
  | infinity s =>
    cases y with
    | notANumber => cases s <;> simp [UnpackedFloat.compare]
    | infinity s' =>
      cases s <;> cases s' <;> simp [UnpackedFloat.compare, compare, place, Prod.Lex.lt_iff]
    | zero s' => cases s <;> simp [UnpackedFloat.compare, place, Prod.Lex.lt_iff]
    | finite s' m' e' hm' =>
      cases s <;> cases s' <;> simp [UnpackedFloat.compare, place, Prod.Lex.lt_iff]
  | zero s =>
    cases y with
    | notANumber => simp [UnpackedFloat.compare]
    | infinity s' => cases s' <;> simp [UnpackedFloat.compare, place, Prod.Lex.lt_iff]
    | zero s' => simp [UnpackedFloat.compare, place]
    | finite s' m' e' hm' => cases s' <;> simp [UnpackedFloat.compare, place, Prod.Lex.lt_iff]
  | finite s m e hm =>
    cases y with
    | notANumber => cases s <;> simp [UnpackedFloat.compare]
    | infinity s' =>
      cases s' <;> cases s <;> simp [UnpackedFloat.compare, place, Prod.Lex.lt_iff]
    | zero s' => cases s <;> simp [UnpackedFloat.compare, place, Prod.Lex.lt_iff]
    | finite s' m' e' hm' =>
      cases s with
      | positive =>
        cases s' with
        | positive => simp [UnpackedFloat.compare, place, Prod.Lex.lt_iff, then_eq_lt_iff]
        | negative => simp [UnpackedFloat.compare, place, Prod.Lex.lt_iff]
      | negative =>
        cases s' with
        | positive => simp [UnpackedFloat.compare, place, Prod.Lex.lt_iff]
        | negative =>
          -- below zero the order is turned round
          have hswap : ((compare e e').then (compare m m')).swap =
              (compare e' e).then (compare m' m) := by
            rw [Ordering.swap_then, ← Std.OrientedCmp.eq_swap, ← Std.OrientedCmp.eq_swap]
          simp [UnpackedFloat.compare, place, Prod.Lex.lt_iff, hswap, then_eq_lt_iff, @eq_comm ℤ e']

/-- **Only the two zeros share a place.** -/
theorem eq_of_place_eq {x y : UnpackedFloat} (hx : x ≠ .notANumber) (hy : y ≠ .notANumber)
    (h : place x = place y) : x = y ∨ (∃ s, x = .zero s) ∧ ∃ s, y = .zero s := by
  cases x with
  | notANumber => exact absurd rfl hx
  | zero s =>
    cases y with
    | notANumber => exact absurd rfl hy
    | zero s' => exact .inr ⟨⟨s, rfl⟩, s', rfl⟩
    | infinity s' | finite s' => cases s' <;> simp_all [place]
  | infinity s | finite s =>
    cases y with
    | notANumber => exact absurd rfl hy
    | zero s' => cases s <;> simp_all [place]
    | infinity s' | finite s' => cases s <;> cases s' <;> simp_all [place]

/-- **Numbers of which neither is less** are equal or both zero, or one of
them is none. -/
theorem number_eq_of_neither_less {x y : UnpackedFloat} (h : x.compare y ≠ some .lt)
    (h' : y.compare x ≠ some .lt) :
    x = .notANumber ∨ y = .notANumber ∨ x = y ∨ (∃ s, x = .zero s) ∧ ∃ s, y = .zero s := by
  by_cases hx : x = .notANumber
  · exact .inl hx
  by_cases hy : y = .notANumber
  · exact .inr (.inl hy)
  rcases lt_trichotomy (place x) (place y) with hlt | heq | hlt
  · exact absurd (compare_eq_lt_iff.2 ⟨hx, hy, hlt⟩) h
  · exact .inr (.inr (eq_of_place_eq hx hy heq))
  · exact absurd (compare_eq_lt_iff.2 ⟨hy, hx, hlt⟩) h'

theorem compare_self_ne_lt (x : UnpackedFloat) : x.compare x ≠ some .lt := fun h =>
  lt_irrefl _ (compare_eq_lt_iff.1 h).2.2

/-- **Floats are ordered by less**, those that are no numbers with no
other. -/
theorem lt_trans {a b c : Float} (hab : a < b) (hbc : b < c) : a < c := by
  rw [← Float.ofBits_toBits a, ← Float.ofBits_toBits b, ofBits_lt_iff, compare_eq_lt_iff] at hab
  rw [← Float.ofBits_toBits b, ← Float.ofBits_toBits c, ofBits_lt_iff, compare_eq_lt_iff] at hbc
  rw [← Float.ofBits_toBits a, ← Float.ofBits_toBits c, ofBits_lt_iff, compare_eq_lt_iff]
  exact ⟨hab.1, hbc.2.1, hab.2.2.trans hbc.2.2⟩

theorem lt_irrefl (a : Float) : ¬a < a := by
  rw [← Float.ofBits_toBits a, ofBits_lt_iff]
  exact compare_self_ne_lt _

/-- **Where neither of two floats is less than the other.** -/
theorem neither_less_iff (a b : UInt64) :
    (¬Float.ofBits a < Float.ofBits b ∧ ¬Float.ofBits b < Float.ofBits a) ↔
      isNaN a = true ∨ isNaN b = true ∨ a = b ∨ isZero a = true ∧ isZero b = true := by
  rw [ofBits_lt_iff, ofBits_lt_iff]
  constructor
  · rintro ⟨h, h'⟩
    rcases number_eq_of_neither_less h h' with ha | hb | heq | ⟨ha, hb⟩
    · exact .inl (isNaN_iff.2 ha)
    · exact .inr (.inl (isNaN_iff.2 hb))
    · by_cases ha : isNaN a = true
      · exact .inl ha
      · exact .inr (.inr (.inl (number_injective heq (Bool.not_eq_true _ ▸ ha))))
    · exact .inr (.inr (.inr ⟨isZero_iff.2 ha, isZero_iff.2 hb⟩))
  · rintro (ha | hb | rfl | ⟨ha, hb⟩)
    · rw [isNaN_iff.1 ha]
      constructor
      · simp [UnpackedFloat.compare]
      · cases number b <;> simp [UnpackedFloat.compare]
    · rw [isNaN_iff.1 hb]
      constructor
      · cases number a <;> simp [UnpackedFloat.compare]
      · simp [UnpackedFloat.compare]
    · exact ⟨compare_self_ne_lt _, compare_self_ne_lt _⟩
    · obtain ⟨s, hs⟩ := isZero_iff.1 ha
      obtain ⟨s', hs'⟩ := isZero_iff.1 hb
      rw [hs, hs']
      exact ⟨by simp [UnpackedFloat.compare], by simp [UnpackedFloat.compare]⟩

end FloatBits

end Shoveler
