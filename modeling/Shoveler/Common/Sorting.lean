import Mathlib.Data.List.Sort

/-!
# Stable sorting

A list is sorted stably from the left by taking its elements one after
another and letting each move past those that have to come after it, and
no others. That this is the stable sort of the library is one fact: what
is added at the end of a list moves, in the sorted list, to the place
behind everything that may stand in front of it (`mergeSort_concat`).
Orders are given as comparisons; several are used one after another, the
next where the one before sees no difference (`lexicographic`).
-/

namespace Shoveler

open List

namespace Sorting

variable {α : Type}

/-! ## Comparisons one after another -/

/-- The first comparison that sees a difference decides. -/
def lexicographic : List (α → α → Ordering) → α → α → Ordering
  | [] => fun _ _ => .eq
  | cmp :: rest => compareLex cmp (lexicographic rest)

theorem lexicographic_cons (cmp : α → α → Ordering) (rest : List (α → α → Ordering)) (a b : α) :
    lexicographic (cmp :: rest) a b = (cmp a b).then (lexicographic rest a b) := rfl

/-- **Orders one after another are an order.** -/
theorem transCmp_lexicographic {cmps : List (α → α → Ordering)}
    (h : ∀ cmp ∈ cmps, Std.TransCmp cmp) : Std.TransCmp (lexicographic cmps) := by
  induction cmps with
  | nil => exact { eq_swap := rfl, isLE_trans := fun _ _ => rfl }
  | cons cmp rest ih =>
    rw [forall_mem_cons] at h
    have hfirst := h.1
    have hrest := ih h.2
    exact inferInstanceAs (Std.TransCmp (compareLex cmp (lexicographic rest)))

/-- Of two elements one may stand in front of the other. -/
theorem isLE_total {cmp : α → α → Ordering} [Std.OrientedCmp cmp] (a b : α) :
    ((cmp a b).isLE || (cmp b a).isLE) = true := by
  have hswap : cmp b a = (cmp a b).swap := Std.OrientedCmp.eq_swap
  rw [hswap]
  cases cmp a b with
  | lt => rfl
  | eq => rfl
  | gt => rfl

/-! ## One more element -/

variable {le : α → α → Bool}

theorem le_of_not_le (total : ∀ a b, (le a b || le b a) = true) {a b : α} (h : le a b = false) :
    le b a = true := by
  have hone := total a b
  rwa [h, Bool.false_or] at hone

/-- A place in the first part of a list, or right behind it. -/
theorem orderedInsert_append_left {r : α → α → Prop} [DecidableRel r] {x : α} {l₁ l₂ : List α}
    (h : ∀ b ∈ l₂.head?, r x b) :
    (l₁ ++ l₂).orderedInsert r x = l₁.orderedInsert r x ++ l₂ := by
  induction l₁ with
  | nil =>
    cases l₂ with
    | nil => rfl
    | cons b l₂ => exact orderedInsert_cons_of_le r l₂ (h b rfl)
  | cons b l₁ ih =>
    rw [cons_append, orderedInsert_cons, orderedInsert_cons, ih]
    split
    · rfl
    · rfl

/-- A place in the second part. -/
theorem orderedInsert_append_right {r : α → α → Prop} [DecidableRel r] {x : α} {l₁ l₂ : List α}
    (h : ∀ b ∈ l₁, ¬r x b) : (l₁ ++ l₂).orderedInsert r x = l₁ ++ l₂.orderedInsert r x := by
  induction l₁ with
  | nil => rfl
  | cons b l₁ ih =>
    rw [forall_mem_cons] at h
    rw [cons_append, orderedInsert_of_not_le r _ h.1, ih h.2, cons_append]

/-- What is put in front of a list goes to the place before the first that
may come after it. -/
theorem mergeSort_cons_eq (trans : ∀ a b c, le a b = true → le b c = true → le a c = true)
    (total : ∀ a b, (le a b || le b a) = true) (x : α) (l : List α) :
    (x :: l).mergeSort le = (l.mergeSort le).orderedInsert (fun a b => le a b = true) x := by
  obtain ⟨l₁, l₂, hcons, hsplit, hbefore⟩ := mergeSort_cons trans total x l
  have hsorted := pairwise_mergeSort trans total (x :: l)
  rw [hcons] at hsorted
  have hafter : ∀ b ∈ l₂.head?, le x b = true := fun b hb =>
    (pairwise_cons.1 (pairwise_append.1 hsorted).2.1).1 b (mem_of_mem_head? hb)
  have hnot : ∀ b ∈ l₁, ¬le x b = true := fun b hb => by simpa using hbefore b hb
  rw [hcons, hsplit, orderedInsert_append_right hnot,
    ← nil_append l₂, orderedInsert_append_left hafter]
  rfl

/-- **What is added at the end of a list** moves to the place behind
everything that may stand in front of it. -/
theorem mergeSort_concat (trans : ∀ a b c, le a b = true → le b c = true → le a c = true)
    (total : ∀ a b, (le a b || le b a) = true) (l : List α) (a : α) :
    ∃ l₁ l₂, l.mergeSort le = l₁ ++ l₂ ∧ (l ++ [a]).mergeSort le = l₁ ++ a :: l₂ ∧
      (∀ b ∈ l₁, le b a = true) ∧ ∀ b ∈ l₂, le b a = false := by
  -- the elements in front are put into both lists at the same place, one by one
  induction l with
  | nil => exact ⟨[], [], by simp, by simp, by simp, by simp⟩
  | cons x l ih =>
    obtain ⟨l₁, l₂, hl, hla, hbefore, hafter⟩ := ih
    rw [cons_append, mergeSort_cons_eq trans total, mergeSort_cons_eq trans total, hl, hla]
    cases hxa : le x a with
    | true =>
      refine ⟨l₁.orderedInsert (fun a b => le a b = true) x, l₂, ?_, ?_, ?_, hafter⟩
      · refine orderedInsert_append_left fun b hb => ?_
        exact trans _ _ _ hxa (le_of_not_le total (hafter b (mem_of_mem_head? hb)))
      · refine orderedInsert_append_left fun b hb => ?_
        rw [head?_cons, Option.mem_some_iff] at hb
        exact hb ▸ hxa
      · intro b hb
        rcases (mem_orderedInsert _).1 hb with rfl | hb
        · exact hxa
        · exact hbefore b hb
    | false =>
      have hfront : ∀ b ∈ l₁, ¬le x b = true := by
        intro b hb hxb
        rw [trans _ _ _ hxb (hbefore b hb)] at hxa
        cases hxa
      refine ⟨l₁, l₂.orderedInsert (fun a b => le a b = true) x, orderedInsert_append_right hfront,
        ?_, hbefore, ?_⟩
      · rw [orderedInsert_append_right hfront, orderedInsert_of_not_le _ _ (by simp [hxa])]
      · intro b hb
        rcases (mem_orderedInsert _).1 hb with rfl | hb
        · exact hxa
        · exact hafter b hb

end Sorting

end Shoveler
