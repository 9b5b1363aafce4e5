import Mathlib.Data.List.Zip

/-!
# Scans and what they have read

A scan goes over a list with a state, and stops at the first element it
objects to. What it objects to can be said without the state, of an element
and what stands before it: then the answer of the scan is the first such
objection (`first`). A scan gives it if its state tells the objections apart
and keeps track of what was read (`scan_eq_first`). Two kinds of objections
are compared place by place: where they agree up to the first of one of
them, it is the first of both, and not otherwise.
-/

namespace Shoveler

open List

namespace History

variable {α β σ : Type}

/-- The places of a list: what stands before, and what stands from there
on. -/
def places (l : List α) : List (List α × List α) := l.inits.zip l.tails

theorem mem_places {l before rest : List α} : (before, rest) ∈ places l ↔ before ++ rest = l :=
  mem_zip_inits_tails

/-- The first objection in a list, behind what stands before it. -/
def first (objection : List α → α → Option β) (before : List α) : List α → Option β
  | [] => none
  | a :: l =>
    match objection before a with
    | some b => some b
    | none => first objection (before ++ [a]) l

section First

variable {p q : List α → α → Option β} {before l : List α} {a : α} {b : β}

theorem first_of_some (h : p before a = some b) : first p before (a :: l) = some b := by
  simp only [first, h]

theorem first_of_none (h : p before a = none) :
    first p before (a :: l) = first p (before ++ [a]) l := by
  simp only [first, h]

/-- **Where two objections agree up to the first of one of them, it is the
first of both.** -/
theorem first_eq_of_agree
    (h : ∀ mid a after, l = mid ++ a :: after → first q before mid = none →
      p (before ++ mid) a = q (before ++ mid) a) :
    first p before l = first q before l := by
  induction l generalizing before with
  | nil => rfl
  | cons a l ih =>
    have hhere : p before a = q before a := by
      have hempty := h [] a l rfl rfl
      rwa [append_nil] at hempty
    cases hq : q before a with
    | some b => rw [first_of_some hq, first_of_some (hhere.trans hq)]
    | none =>
      rw [first_of_none hq, first_of_none (hhere.trans hq)]
      refine ih fun mid c after hl hmid => ?_
      have hlater := h (a :: mid) c after (by rw [hl, cons_append])
        (by rw [first_of_none hq, hmid])
      rwa [append_cons] at hlater

/-- An objection that is also another's is not lost to it. -/
theorem isSome_first (hle : ∀ before a, (q before a).isSome = true → (p before a).isSome = true)
    (h : (first q before l).isSome = true) : (first p before l).isSome = true := by
  induction l generalizing before with
  | nil => cases h
  | cons a l ih =>
    cases hp : p before a with
    | some b =>
      rw [first_of_some hp]
      rfl
    | none =>
      have hq : q before a = none := by
        by_contra hne
        have hsome := hle before a (Option.isSome_iff_ne_none.2 hne)
        rw [hp] at hsome
        cases hsome
      rw [first_of_none hp]
      rw [first_of_none hq] at h
      exact ih h

/-- It is the objection to an element. -/
theorem exists_of_first (h : first p before l = some b) :
    ∃ mid a after, l = mid ++ a :: after ∧ p (before ++ mid) a = some b := by
  induction l generalizing before with
  | nil => cases h
  | cons a l ih =>
    cases hp : p before a with
    | some c =>
      rw [first_of_some hp] at h
      exact ⟨[], a, l, rfl, by rw [append_nil, hp, h]⟩
    | none =>
      rw [first_of_none hp] at h
      obtain ⟨mid, c, after, hl, hc⟩ := ih h
      refine ⟨a :: mid, c, after, by rw [hl, cons_append], ?_⟩
      rwa [append_cons]

theorem first_append (l r : List α) :
    first p before (l ++ r) = (first p before l).or (first p (before ++ l) r) := by
  induction l generalizing before with
  | nil => rw [nil_append, append_nil, first, Option.none_or]
  | cons a l ih =>
    rw [cons_append]
    cases hp : p before a with
    | some b => rw [first_of_some hp, first_of_some hp, Option.some_or]
    | none => rw [first_of_none hp, first_of_none hp, ih, append_assoc, singleton_append]

/-- **Where the first objections are the same there is none of one alone
before it**, if an objection tells its place. -/
theorem isSome_of_first_eq {κ : Type} {place : α → κ} {told : β → κ}
    (hp : ∀ before a b, p before a = some b → told b = place a)
    (hq : ∀ before a b, q before a = some b → told b = place a)
    (hnodup : (l.map place).Nodup) (heq : first p [] l = first q [] l) {mid after : List α}
    (hl : l = mid ++ a :: after) (hmid : first q [] mid = none) (hsome : (p mid a).isSome = true) :
    (q mid a).isSome = true := by
  by_contra hnone
  rw [Option.not_isSome_iff_eq_none] at hnone
  have hsplit : l = (mid ++ [a]) ++ after := by rw [hl, append_assoc, singleton_append]
  -- the first of one is here or before, and that of the other behind
  have hbefore : (first p [] (mid ++ [a])).isSome = true := by
    rw [first_append, Option.isSome_or]
    obtain ⟨b, hb⟩ := Option.isSome_iff_exists.1 hsome
    rw [nil_append, first_of_some hb, Option.isSome_some, Bool.or_true]
  have hbehind : first q [] (mid ++ [a]) = none := by
    rw [first_append, hmid, nil_append, first_of_none hnone]
    rfl
  obtain ⟨b, hb⟩ := Option.isSome_iff_exists.1 hbefore
  rw [hsplit, first_append (mid ++ [a]), first_append (mid ++ [a]), hb, hbehind, Option.some_or,
    Option.none_or] at heq
  obtain ⟨_, c, _, hc, htold⟩ := exists_of_first hb
  obtain ⟨_, d, _, hd, htold'⟩ := exists_of_first heq.symm
  have hsame : place c = place d := (hp _ _ _ htold).symm.trans (hq _ _ _ htold')
  rw [hsplit, map_append, nodup_append] at hnodup
  refine hnodup.2.2 (place c) (mem_map_of_mem ?_) (place d) (mem_map_of_mem ?_) hsame
  · rw [hc]
    exact mem_append_right _ mem_cons_self
  · rw [hd]
    exact mem_append_right _ mem_cons_self

end First

/-- **A scan whose state keeps track of what was read** answers with the
first objection. -/
theorem scan_eq_first {scan : σ → List α → Option β} {step : σ → α → Except β σ}
    {objection : List α → α → Option β} {Tracks : σ → List α → Prop}
    (hnil : ∀ s, scan s [] = none)
    (hcons : ∀ s a l, scan s (a :: l) =
      match step s a with
      | .error b => some b
      | .ok s => scan s l)
    (hstop : ∀ s before a b, Tracks s before → objection before a = some b → step s a = .error b)
    (hgo : ∀ s before a, Tracks s before → objection before a = none →
      ∃ s', step s a = .ok s' ∧ Tracks s' (before ++ [a]))
    {s : σ} {before : List α} (h : Tracks s before) (l : List α) :
    scan s l = first objection before l := by
  induction l generalizing s before with
  | nil => exact hnil s
  | cons a l ih =>
    rw [hcons]
    cases ho : objection before a with
    | some b => rw [hstop s before a b h ho, first_of_some ho]
    | none =>
      obtain ⟨s', hs', htracks⟩ := hgo s before a h ho
      rw [hs', first_of_none ho]
      exact ih htracks

end History

end Shoveler
