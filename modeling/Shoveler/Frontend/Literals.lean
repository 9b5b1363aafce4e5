import Shoveler.Frontend.Scanning
import Shoveler.Model.Parser

/-!
# Writing literals

A string is written between apostrophes with every apostrophe in it
doubled (`quoteLiteral`), and read back as it was (`undouble_double`,
`readQuoted_double`). A number is written by its decimal digits
(`decimal`); a text of digits is read as the number it denotes, or is
refused if that is too large (`parseDecimal_digits`).
-/

namespace Shoveler

open List

open Byte (apostrophe)

/-! ## Strings -/

/-- A string with every apostrophe doubled. -/
def double : Bytes → Bytes
  | [] => []
  | c :: s => if c = apostrophe then c :: c :: double s else c :: double s

/-- **A string as a literal.** -/
def quoteLiteral (s : Bytes) : Bytes := apostrophe :: (double s ++ [apostrophe])

theorem double_apostrophe (s : Bytes) :
    double (apostrophe :: s) = apostrophe :: apostrophe :: double s :=
  if_pos rfl

theorem double_plain {c : UInt8} (h : c ≠ apostrophe) (s : Bytes) :
    double (c :: s) = c :: double s :=
  if_neg h

/-- A byte that is no apostrophe is kept, whatever follows. -/
theorem undouble_plain {c : UInt8} (h : c ≠ apostrophe) (l : Bytes) :
    undouble (c :: l) = c :: undouble l := by
  cases l with
  | nil => rfl
  | cons d l => exact if_neg fun hc => h hc.1

/-- **The decoder takes away what the writer put in.** -/
theorem undouble_double (s : Bytes) : undouble (double s) = s := by
  induction s with
  | nil => rfl
  | cons c s ih =>
    by_cases hc : c = apostrophe
    · subst hc
      rw [double_apostrophe, undouble, if_pos ⟨rfl, rfl⟩, ih]
    · rw [double_plain hc, undouble_plain hc, ih]

/-- With apostrophes for quotes only two of them in a row belong
together. -/
theorem paired_apostrophe {c d : UInt8} :
    Paired apostrophe c d ↔ c = apostrophe ∧ d = apostrophe :=
  ⟨fun h => h.resolve_left fun hb => hb.2 rfl, Or.inr⟩

/-- **The scanner reads up to the closing quote**, whatever the string, if
no further apostrophe follows. -/
theorem readQuoted_double (s : Bytes) {t : Bytes} (ht : t.head? ≠ some apostrophe) :
    readQuoted apostrophe (double s ++ apostrophe :: t) = ((double s).length + 1, true) := by
  induction s with
  | nil =>
    cases t with
    | nil => rfl
    | cons d t =>
      have hd : ¬Paired apostrophe apostrophe d := fun hp => by
        rw [(paired_apostrophe.1 hp).2] at ht
        exact ht rfl
      exact readQuoted_closed hd rfl t
  | cons c s ih =>
    by_cases hc : c = apostrophe
    · subst hc
      rw [double_apostrophe, cons_append, cons_append,
        readQuoted_paired (paired_apostrophe.2 ⟨rfl, rfl⟩), ih]
      simp only [readMore, length_cons]
    · rw [double_plain hc, cons_append]
      -- behind the byte there is at least the closing quote
      obtain ⟨d, l, hl⟩ : ∃ d l, double s ++ apostrophe :: t = d :: l :=
        exists_cons_of_ne_nil (by simp)
      rw [hl] at ih ⊢
      rw [readQuoted_plain (fun hp => hc (paired_apostrophe.1 hp).1) hc, ih]
      simp only [readMore, length_cons]

/-! ## Numbers -/

/-- The decimal digits of a number. -/
def decimal (n : ℕ) : Bytes := ascii (toString n)

/-- The number that digits denote, behind one that was read before. -/
def valueFrom (value : ℕ) (digits : Bytes) : ℕ :=
  digits.foldl (fun value c => value * 10 + (c.toNat - 48)) value

theorem valueFrom_cons (value : ℕ) (c : UInt8) (digits : Bytes) :
    valueFrom value (c :: digits) = valueFrom (value * 10 + (c.toNat - 48)) digits := by
  rw [valueFrom, foldl_cons, valueFrom]

theorem le_valueFrom (value : ℕ) (digits : Bytes) : value ≤ valueFrom value digits := by
  induction digits generalizing value with
  | nil => exact Nat.le_refl value
  | cons c digits ih =>
    have hle := ih (value * 10 + (c.toNat - 48))
    rw [valueFrom_cons]
    omega

/-- A round of `parseDecimal`. -/
theorem foldlM_digits {largest : ℕ} {digits : Bytes} (h : ∀ c ∈ digits, isDigit c = true)
    {value : ℕ} (hvalue : value ≤ largest) :
    digits.foldlM (fun (value : ℕ) c =>
        if c = Byte.underscore then some value
        else if isDigit c then
          let value := value * 10 + (c.toNat - 48)
          if value ≤ largest then some value else none
        else none) value =
      if valueFrom value digits ≤ largest then some (valueFrom value digits) else none := by
  induction digits generalizing value with
  | nil => exact (if_pos hvalue).symm
  | cons c digits ih =>
    rw [forall_mem_cons] at h
    have hc : c ≠ Byte.underscore := by
      rintro rfl
      exact absurd h.1 (by decide)
    rw [foldlM_cons, if_neg hc, if_pos h.1, valueFrom_cons]
    generalize value * 10 + (c.toNat - 48) = value'
    by_cases hfits : value' ≤ largest
    · simp only [if_pos hfits, Option.bind_eq_bind, Option.bind_some]
      exact ih h.2 hfits
    · -- the number only grows from here on
      have hle := le_valueFrom value' digits
      simp only [if_neg hfits, Option.bind_eq_bind, Option.bind_none]
      rw [if_neg (by omega)]

/-- **A text of digits is read as the number it denotes**, if that is not
too large. -/
theorem parseDecimal_digits {largest : ℕ} {digits : Bytes} (hne : digits ≠ [])
    (h : ∀ c ∈ digits, isDigit c = true) :
    parseDecimal largest digits =
      if valueFrom 0 digits ≤ largest then some (valueFrom 0 digits) else none := by
  have hunderscore : Byte.underscore ∉ digits := fun hmem => absurd (h _ hmem) (by decide)
  have hends : ¬(digits = [] ∨ digits.head? = some Byte.underscore ∨
      digits.getLast? = some Byte.underscore) := by
    rintro (hnil | hhead | hlast)
    · exact hne hnil
    · exact hunderscore (mem_of_head? hhead)
    · exact hunderscore (mem_of_getLast? hlast)
  rw [parseDecimal, if_neg hends]
  exact foldlM_digits h (Nat.zero_le largest)

theorem decimal_eq (n : ℕ) :
    decimal n = (Nat.toDigits 10 n).map fun c => c.toNat.toUInt8 := by
  rw [decimal, ascii, Nat.toString_eq_repr, Nat.toList_repr]

/-- A digit as a byte. -/
theorem toNat_toUInt8_of_isDigit {c : Char} (h : c.isDigit = true) :
    c.toNat.toUInt8.toNat = c.toNat ∧ 48 ≤ c.toNat ∧ c.toNat ≤ 57 := by
  have hrange := Char.isDigit_iff_toNat.1 h
  have hlow : ('0' : Char).toNat = 48 := rfl
  have hhigh : ('9' : Char).toNat = 57 := rfl
  refine ⟨?_, by omega, by omega⟩
  rw [Nat.toUInt8_eq, UInt8.toNat_ofNat']
  omega

theorem decimal_ne_nil (n : ℕ) : decimal n ≠ [] := by
  rw [decimal_eq]
  exact fun h => Nat.toDigits_ne_nil (map_eq_nil_iff.1 h)

theorem isDigit_of_mem_decimal {n : ℕ} {c : UInt8} (h : c ∈ decimal n) : isDigit c = true := by
  rw [decimal_eq] at h
  obtain ⟨digit, hdigit, rfl⟩ := mem_map.1 h
  obtain ⟨hbyte, hlow, hhigh⟩ := toNat_toUInt8_of_isDigit
    (Nat.isDigit_of_mem_toDigits (by omega) (by omega) hdigit)
  rw [isDigit, decide_eq_true_iff, UInt8.le_iff_toNat_le, UInt8.le_iff_toNat_le, hbyte]
  exact ⟨hlow, hhigh⟩

/-- **The digits of a number denote it.** -/
theorem valueFrom_decimal (n : ℕ) : valueFrom 0 (decimal n) = n := by
  have hchars : ∀ (digits : List Char) (value : ℕ), (∀ c ∈ digits, c.isDigit = true) →
      valueFrom value (digits.map fun c => c.toNat.toUInt8) = Nat.ofDigitChars 10 digits value := by
    intro digits
    induction digits with
    | nil => exact fun value _ => rfl
    | cons c digits ih =>
      intro value h
      rw [forall_mem_cons] at h
      rw [map_cons, valueFrom_cons, Nat.ofDigitChars_cons, ih _ h.2,
        (toNat_toUInt8_of_isDigit h.1).1, Nat.mul_comm]
      rfl
  rw [decimal_eq, hchars _ _ fun c hc => Nat.isDigit_of_mem_toDigits (by omega) (by omega) hc,
    Nat.ofDigitChars_ten_toDigits]

end Shoveler
