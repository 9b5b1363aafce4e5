import Mathlib.Data.List.Basic
import Mathlib.Data.List.Induction

/-!
# Sorting in place

Insertion sort by swaps: the elements are taken from the left, and each
is swapped with the one before it as long as that one comes after it. Of
the order nothing is asked beyond the elements of the list: a relation
that is total and transitive on them (`OrdersBy`) is sorted by
(`sorted_sortInPlace`), and whatever it is, no element is lost
(`perm_sortInPlace`).
-/

namespace Shoveler

open List

namespace Swapping

variable {α : Type}

/-! ## The loops -/

/-- The inner loop: the element at a place is swapped forward. -/
def moveForward (after : α → α → Bool) (items : List α) : ℕ → List α
  | 0 => items
  | j + 1 =>
    match items[j]?, items[j + 1]? with
    | some before, some moving =>
      if after before moving then
        moveForward after ((items.set j moving).set (j + 1) before) j
      else items
    | _, _ => items

/-- The outer loop, from the second element on. -/
def sortInPlace (after : α → α → Bool) (items : List α) : List α :=
  (range' 1 (items.length - 1)).foldl (moveForward after) items

variable {after : α → α → Bool}

/-- **The inner loop puts an element behind the last that does not come
after it**, and touches nothing behind its place. -/
theorem moveForward_eq (front rest : List α) (x : α) :
    ∃ l₁ l₂, front = l₁ ++ l₂ ∧
      moveForward after (front ++ x :: rest) front.length = l₁ ++ x :: l₂ ++ rest ∧
      (∀ b ∈ l₁.getLast?, after b x = false) ∧ ∀ b ∈ l₂, after b x = true := by
  induction front using reverseRecOn generalizing rest with
  | nil => exact ⟨[], [], rfl, rfl, by simp, by simp⟩
  | append_singleton front b ih =>
    have hb : (front ++ [b] ++ x :: rest)[front.length]? = some b := by simp
    have hx : (front ++ [b] ++ x :: rest)[front.length + 1]? = some x := by simp
    rw [length_append, length_singleton, moveForward, hb, hx]
    cases hafter : after b x with
    | false =>
      refine ⟨front ++ [b], [], by simp, by simp [hafter], fun c hc => ?_, by simp⟩
      rw [getLast?_concat, Option.mem_some_iff] at hc
      exact hc ▸ hafter
    | true =>
      have hswap : ((front ++ [b] ++ x :: rest).set front.length x).set (front.length + 1) b =
          front ++ x :: b :: rest := by simp
      obtain ⟨l₁, l₂, rfl, hmove, hbefore, hpassed⟩ := ih (b :: rest)
      refine ⟨l₁, l₂ ++ [b], by simp, ?_, hbefore, ?_⟩
      · simp only [hafter, if_true, hswap, hmove]
        simp
      · exact forall_mem_append.2 ⟨hpassed, forall_mem_singleton.2 hafter⟩

/-! ## Orders -/

/-- **An order on the elements of a list**: of two the one or the other does
not come after, and what does not come after stays so along a chain. -/
structure OrdersBy (after : α → α → Bool) (items : List α) : Prop where
  asymm : ∀ a ∈ items, ∀ b ∈ items, after a b = true → after b a = false
  trans : ∀ a ∈ items, ∀ b ∈ items, ∀ c ∈ items,
    after a b = false → after b c = false → after a c = false

theorem OrdersBy.of_subset {items items' : List α} (h : OrdersBy after items)
    (hsubset : items' ⊆ items) : OrdersBy after items' where
  asymm := fun a ha b hb => h.asymm a (hsubset ha) b (hsubset hb)
  trans := fun a ha b hb c hc => h.trans a (hsubset ha) b (hsubset hb) c (hsubset hc)

/-- Sorted: nothing comes after what stands behind it. -/
def Sorted (after : α → α → Bool) (items : List α) : Prop :=
  items.Pairwise fun a b => after a b = false

/-- A new element at its place keeps a list sorted. -/
theorem Sorted.insert {l₁ l₂ : List α} {x : α} (horder : OrdersBy after (l₁ ++ x :: l₂))
    (h : Sorted after (l₁ ++ l₂)) (hbefore : ∀ b ∈ l₁.getLast?, after b x = false)
    (hpassed : ∀ b ∈ l₂, after b x = true) : Sorted after (l₁ ++ x :: l₂) := by
  have hx : x ∈ l₁ ++ x :: l₂ := by simp
  obtain ⟨h₁, h₂, hacross⟩ := pairwise_append.1 h
  -- what stands in front of the last in front of it stands in front of it
  have hfront : ∀ b ∈ l₁, after b x = false := by
    intro b hb
    obtain ⟨l, last, rfl⟩ := l₁.eq_nil_or_concat'.resolve_left (ne_nil_of_mem hb)
    have hlast : after last x = false := hbefore last (by simp)
    rcases mem_append.1 hb with hb | hb
    · have hchain := (pairwise_append.1 h₁).2.2 b hb last (by simp)
      exact horder.trans b (by simp [hb]) last (by simp) x hx hchain hlast
    · obtain rfl := mem_singleton.1 hb
      exact hlast
  refine pairwise_append.2 ⟨h₁, pairwise_cons.2 ⟨fun b hb => ?_, h₂⟩, ?_⟩
  · exact horder.asymm b (by simp [hb]) x hx (hpassed b hb)
  · intro a ha
    exact forall_mem_cons.2 ⟨hfront a ha, hacross a ha⟩

/-! ## The whole sort -/

/-- **What the outer loop keeps**: the elements are those there were, and
the first of them are sorted. -/
theorem foldl_moveForward (front rest : List α) :
    ((range' front.length rest.length).foldl (moveForward after) (front ++ rest)).Perm
        (front ++ rest) ∧
      (OrdersBy after (front ++ rest) → Sorted after front →
        Sorted after
          ((range' front.length rest.length).foldl (moveForward after) (front ++ rest))) := by
  induction rest generalizing front with
  | nil =>
    rw [append_nil]
    exact ⟨.refl _, fun _ h => h⟩
  | cons x rest ih =>
    obtain ⟨l₁, l₂, rfl, hmove, hbefore, hpassed⟩ := @moveForward_eq α after front rest x
    have hround : (l₁ ++ x :: l₂).Perm (l₁ ++ l₂ ++ [x]) :=
      perm_middle.trans (perm_append_singleton x _).symm
    have hlength : (l₁ ++ x :: l₂).length = (l₁ ++ l₂).length + 1 := by
      rw [hround.length_eq]
      exact length_append
    have hall : (l₁ ++ x :: l₂ ++ rest).Perm (l₁ ++ l₂ ++ x :: rest) := by
      rw [append_cons (l₁ ++ l₂)]
      exact hround.append_right rest
    obtain ⟨hperm, hsorted⟩ := ih (l₁ ++ x :: l₂)
    rw [length_cons, range'_succ, foldl_cons, hmove, ← hlength]
    refine ⟨hperm.trans hall, fun horder h => hsorted ?_ ?_⟩
    · exact horder.of_subset hall.subset
    · refine Sorted.insert (horder.of_subset fun b hb => ?_) h hbefore hpassed
      exact hall.subset (mem_append_left rest hb)

theorem sortInPlace_eq (x : α) (items : List α) :
    sortInPlace after (x :: items) =
      (range' [x].length items.length).foldl (moveForward after) ([x] ++ items) := rfl

/-- **No element is lost.** -/
theorem perm_sortInPlace (items : List α) : (sortInPlace after items).Perm items := by
  cases items with
  | nil => exact .refl _
  | cons x items =>
    rw [sortInPlace_eq]
    exact (foldl_moveForward [x] items).1

/-- **The list is sorted.** -/
theorem sorted_sortInPlace {items : List α} (h : OrdersBy after items) :
    Sorted after (sortInPlace after items) := by
  cases items with
  | nil => exact .nil
  | cons x items =>
    rw [sortInPlace_eq]
    exact (foldl_moveForward [x] items).2 h (pairwise_singleton _ _)

end Swapping

end Shoveler
