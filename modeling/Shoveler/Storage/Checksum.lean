import Shoveler.Model.Persistence

/-!
# Checksums tell single bytes apart

Every step of the division can be undone: the bit that falls out at the
bottom is the top bit of what is left, because the polynomial has its top
bit set. So a step is injective in the remainder, a byte of input is
injective in the remainder and in the byte, and inputs that differ in one
byte have different checksums.
-/

namespace Shoveler

namespace Crc32

theorem and_one_eq_one (crc : UInt32) : crc &&& 1 = 1 ↔ crc.toBitVec.getLsbD 0 = true := by
  have hone : (1 : UInt32).toNat = 1 := rfl
  rw [← UInt32.toNat_inj, UInt32.toNat_and, hone, Nat.and_one_is_mod, BitVec.getLsbD,
    Nat.testBit_zero, decide_eq_true_iff]
  rfl

/-- The step, on the bits of the remainder. -/
theorem toBitVec_shift (crc : UInt32) :
    (shift crc).toBitVec =
      if crc.toBitVec.getLsbD 0 then (crc.toBitVec >>> 1) ^^^ 0xEDB88320#32
      else crc.toBitVec >>> 1 := by
  unfold shift
  simp only [and_one_eq_one]
  split <;> rfl

/-- **The bit that falls out at the bottom is the top bit of what is
left.** -/
theorem shift_top (crc : UInt32) :
    (shift crc).toBitVec.getLsbD 31 = crc.toBitVec.getLsbD 0 := by
  have htop : (crc.toBitVec >>> 1).getLsbD 31 = false := by
    rw [BitVec.getLsbD_ushiftRight]
    exact BitVec.getLsbD_of_ge _ _ (by decide)
  rw [toBitVec_shift]
  cases crc.toBitVec.getLsbD 0 with
  | false => exact htop
  | true =>
    have hpoly : (0xEDB88320#32).getLsbD 31 = true := by decide
    rw [if_pos rfl, BitVec.getLsbD_xor, htop, hpoly]
    rfl

/-- **A step can be undone.** -/
theorem shift_injective : Function.Injective shift := by
  intro a b h
  have hlow : a.toBitVec.getLsbD 0 = b.toBitVec.getLsbD 0 := by
    rw [← shift_top, h, shift_top]
  have hrest : a.toBitVec >>> 1 = b.toBitVec >>> 1 := by
    have hbits : (shift a).toBitVec = (shift b).toBitVec := by rw [h]
    rw [toBitVec_shift, toBitVec_shift, ← hlow] at hbits
    split at hbits
    · exact (BitVec.xor_left_inj _).1 hbits
    · exact hbits
  refine UInt32.toBitVec_inj.1 (BitVec.eq_of_getLsbD_eq fun i _ => ?_)
  cases i with
  | zero => exact hlow
  | succ i =>
    have hbit := congrArg (fun x => BitVec.getLsbD x i) hrest
    simpa only [BitVec.getLsbD_ushiftRight, Nat.add_comm 1 i] using hbit

theorem repeat_shift_injective (n : ℕ) : Function.Injective (Nat.repeat shift n) := by
  induction n with
  | zero => exact fun _ _ h => h
  | succ n ih => exact fun _ _ h => ih (shift_injective h)

/-- A byte of input is injective in the remainder. -/
theorem update_left_injective (byte : UInt8) : Function.Injective fun crc => update crc byte := by
  intro a b h
  exact (UInt32.xor_left_inj _).1 (repeat_shift_injective 8 h)

/-- And in the byte. -/
theorem update_right_injective (crc : UInt32) : Function.Injective (update crc) := by
  intro a b h
  have hbytes : a.toUInt32 = b.toUInt32 := (UInt32.xor_right_inj _).1 (repeat_shift_injective 8 h)
  rw [← UInt8.toNat_inj, ← UInt8.toNat_toUInt32, ← UInt8.toNat_toUInt32, hbytes]

theorem foldl_update_injective (bytes : Bytes) :
    Function.Injective fun crc => bytes.foldl update crc := by
  induction bytes with
  | nil => exact fun _ _ h => h
  | cons byte bytes ih => exact fun _ _ h => update_left_injective byte (ih h)

/-- **One changed byte changes the checksum.** -/
theorem hash_ne_of_ne {byte byte' : UInt8} (h : byte ≠ byte') (before after : Bytes) :
    hash (before ++ byte :: after) ≠ hash (before ++ byte' :: after) := by
  intro heq
  have hfold := (UInt32.xor_left_inj _).1 heq
  rw [List.foldl_append, List.foldl_append, List.foldl_cons, List.foldl_cons] at hfold
  exact h (update_right_injective _ (foldl_update_injective after hfold))

end Crc32

end Shoveler
