import Shoveler.Common.Keyed

/-!
# Sweeps

A sweep visits the elements of a list one after the other, with a state
that each of them may change. An element is passed over, or changes the
state and counts, or stops the sweep; a sweep that is stopped leaves the
state as the elements before the stop have made it. Where the elements
before the stop were all passed over, that is the state it began with
(`Sweep.of_stopped`). What every element the sweep gets past keeps, the
sweep keeps (`Sweep.invariant`). Where the state shows the very list that
is swept, and an element changes no more of it than itself, the sweep
rewrites the list element by element (`Sweep.rewrites`).
-/

namespace Shoveler

open List

/-- **Visit the elements in order.** The step says of an element that it
stops the sweep, that it is passed over, or what the state becomes. -/
def sweep {α σ ε : Type} (step : α → σ → Except ε (Option σ)) : List α → σ → σ × Except ε ℕ
  | [], s => (s, .ok 0)
  | a :: rest, s =>
    match step a s with
    | .error e => (s, .error e)
    | .ok none => sweep step rest s
    | .ok (some s') =>
      let (s'', outcome) := sweep step rest s'
      (s'', outcome.map (· + 1))

namespace Sweep

variable {α σ ε : Type} {step : α → σ → Except ε (Option σ)} {a : α} {rest : List α} {s : σ}

theorem cons_error {e : ε} (h : step a s = .error e) : sweep step (a :: rest) s = (s, .error e) := by
  rw [sweep, h]

theorem cons_none (h : step a s = .ok none) : sweep step (a :: rest) s = sweep step rest s := by
  rw [sweep, h]

theorem cons_some {s' : σ} (h : step a s = .ok (some s')) :
    sweep step (a :: rest) s =
      ((sweep step rest s').1, (sweep step rest s').2.map (· + 1)) := by
  rw [sweep, h]

/-- Elements that are passed over make no difference. -/
theorem append_of_skips {done : List α} (h : ∀ d ∈ done, step d s = .ok none) :
    sweep step (done ++ rest) s = sweep step rest s := by
  induction done with
  | nil => rfl
  | cons d done ih =>
    rw [forall_mem_cons] at h
    rw [cons_append, cons_none h.1, ih h.2]

/-- A sweep that is stopped is stopped by some element, and gets through
those before it. -/
theorem exists_stop {l : List α} {e : ε} (h : (sweep step l s).2 = .error e) :
    ∃ done a rest n, l = done ++ a :: rest ∧ (sweep step done s).2 = .ok n ∧
      (sweep step (done ++ [a]) s).2 = .error e := by
  induction l generalizing s with
  | nil => cases h
  | cons d l ih =>
    cases hd : step d s with
    | error e' =>
      rw [cons_error hd] at h
      exact ⟨[], d, l, 0, rfl, rfl, by rw [nil_append, cons_error hd, h]⟩
    | ok next =>
      cases next with
      | none =>
        rw [cons_none hd] at h
        obtain ⟨done, a, rest, n, rfl, hdone, hstop⟩ := ih h
        refine ⟨d :: done, a, rest, n, rfl, ?_, ?_⟩
        · rw [cons_none hd, hdone]
        · rw [cons_append, cons_none hd, hstop]
      | some s' =>
        rw [cons_some hd] at h
        have hrest : (sweep step l s').2 = .error e := by
          cases hl : (sweep step l s').2 with
          | error e' => rw [hl] at h; exact h
          | ok n => rw [hl] at h; cases h
        obtain ⟨done, a, rest, n, rfl, hdone, hstop⟩ := ih hrest
        refine ⟨d :: done, a, rest, n + 1, rfl, ?_, ?_⟩
        · rw [cons_some hd, hdone]
          rfl
        · rw [cons_append, cons_some hd, hstop]
          rfl

/-- **A sweep that is stopped before it has changed anything** leaves the
state it began with. -/
theorem of_stopped {l : List α} {e : ε} (h : (sweep step l s).2 = .error e)
    (hskip : ∀ done a rest, l = done ++ a :: rest → (∃ n, (sweep step done s).2 = .ok n) →
      (∃ e, (sweep step (done ++ [a]) s).2 = .error e) → ∀ d ∈ done, step d s = .ok none) :
    (sweep step l s).1 = s := by
  obtain ⟨done, a, rest, n, rfl, hdone, hstop⟩ := exists_stop h
  have hskipped := hskip done a rest rfl ⟨n, hdone⟩ ⟨e, hstop⟩
  rw [append_of_skips hskipped] at hstop ⊢
  cases ha : step a s with
  | error e' => rw [cons_error ha]
  | ok next =>
    cases next with
    | none =>
      rw [cons_none ha] at hstop
      cases hstop
    | some s' =>
      rw [cons_some ha] at hstop
      cases hstop

/-- **What a sweep keeps**: what each element it gets past keeps. -/
theorem invariant {I : σ → Prop} {l : List α} (hs : I s)
    (hstep : ∀ done a rest n s₁ s₂, l = done ++ a :: rest → (sweep step (done ++ [a]) s).2 = .ok n →
      I s₁ → step a s₁ = .ok (some s₂) → I s₂) : I (sweep step l s).1 := by
  induction l generalizing s with
  | nil => exact hs
  | cons d l ih =>
    cases hd : step d s with
    | error e =>
      rw [cons_error hd]
      exact hs
    | ok next =>
      cases next with
      | none =>
        rw [cons_none hd]
        refine ih hs fun done a rest n s₁ s₂ hsplit hok => ?_
        refine hstep (d :: done) a rest n s₁ s₂ (by rw [hsplit]; rfl) ?_
        rw [cons_append, cons_none hd, hok]
      | some s' =>
        have hfirst : (sweep step ([] ++ [d]) s).2 = .ok 1 := by
          rw [nil_append, cons_some hd]
          rfl
        rw [cons_some hd]
        refine ih (hstep [] d l 1 s s' rfl hfirst hs hd) fun done a rest n s₁ s₂ hsplit hok => ?_
        refine hstep (d :: done) a rest (n + 1) s₁ s₂ (by rw [hsplit]; rfl) ?_
        rw [cons_append, cons_some hd, hok]
        rfl

/-- **What a sweep carries along** about the elements still to visit holds
of some rest of them where it ends or stops. -/
theorem carries {I : List α → σ → Prop}
    (hskip : ∀ a rest s, I (a :: rest) s → step a s = .ok none → I rest s)
    (hstep : ∀ a rest s s', I (a :: rest) s → step a s = .ok (some s') → I rest s') {l : List α}
    (h : I l s) : ∃ rest, I rest (sweep step l s).1 := by
  induction l generalizing s with
  | nil => exact ⟨[], h⟩
  | cons a l ih =>
    cases ha : step a s with
    | error e =>
      rw [cons_error ha]
      exact ⟨a :: l, h⟩
    | ok next =>
      cases next with
      | none =>
        rw [cons_none ha]
        exact ih (hskip a l s h ha)
      | some s' =>
        rw [cons_some ha]
        exact ih (hstep a l s s' h ha)

/-- A sweep that gets through has made a step at every element. -/
theorem exists_step {l : List α} {n : ℕ} (h : (sweep step l s).2 = .ok n) :
    ∀ a ∈ l, ∃ s₁ next, step a s₁ = .ok next := by
  induction l generalizing s n with
  | nil => simp
  | cons d l ih =>
    cases hd : step d s with
    | error e =>
      rw [cons_error hd] at h
      cases h
    | ok next =>
      refine forall_mem_cons.2 ⟨⟨s, next, hd⟩, ?_⟩
      cases next with
      | none =>
        rw [cons_none hd] at h
        exact ih h
      | some s' =>
        rw [cons_some hd] at h
        cases hl : (sweep step l s').2 with
        | error e =>
          rw [hl] at h
          cases h
        | ok m => exact ih hl

section Rewriting

variable {κ : Type} [DecidableEq κ] (see : σ → List α) (key : α → κ) {I : σ → Prop}
variable {out : α → Option α} {counts : α → Bool}
variable (hkey : ∀ a b, out a = some b → key b = key a)
variable (hskip : ∀ a s, step a s = .ok none → out a = some a ∧ counts a = false)
variable (htake : ∀ a s s', I s → step a s = .ok (some s') → I s' ∧ counts a = true ∧
  see s' = (see s).filterMap fun x => if key x = key a then out a else some x)

include hkey hskip htake

/-- The part of a list that is still to be swept, behind the part that
was. -/
theorem rewrites_append {done rest : List α} {n : ℕ} (hI : I s) (hsee : see s = done ++ rest)
    (hnodup : ((done ++ rest).map key).Nodup) (hok : (sweep step rest s).2 = .ok n) :
    I (sweep step rest s).1 ∧ see (sweep step rest s).1 = done ++ rest.filterMap out ∧
      n = rest.countP counts := by
  induction rest generalizing done s n with
  | nil => exact ⟨hI, hsee, (Except.ok.inj hok).symm⟩
  | cons a rest ih =>
    rw [map_append, map_cons, nodup_middle, nodup_cons, mem_append,
      not_or] at hnodup
    obtain ⟨⟨hdone, hrest⟩, hothers⟩ := hnodup
    -- what is left to do once the element has become what it becomes
    have hnext : ∀ s' m, I s' → see s' = done ++ ((out a).toList ++ rest) →
        (sweep step rest s').2 = .ok m →
        I (sweep step rest s').1 ∧ see (sweep step rest s').1 = done ++ (a :: rest).filterMap out ∧
          m = rest.countP counts := by
      intro s' m hI' hsee' hok'
      rw [← append_assoc] at hsee'
      have hnodup' : ((done ++ (out a).toList ++ rest).map key).Nodup := by
        rw [append_assoc]
        cases hout : out a with
        | none => rwa [Option.toList_none, nil_append, map_append]
        | some b =>
          rw [Option.toList_some, singleton_append, map_append, map_cons,
            nodup_middle, hkey a b hout, nodup_cons, mem_append, not_or]
          exact ⟨⟨hdone, hrest⟩, hothers⟩
      obtain ⟨hfinal, hshown, hm⟩ := ih hI' hsee' hnodup' hok'
      refine ⟨hfinal, ?_, hm⟩
      rw [hshown, append_assoc, filterMap_cons]
      cases out a <;> rfl
    cases ha : step a s with
    | error e =>
      rw [cons_error ha] at hok
      cases hok
    | ok next =>
      cases next with
      | none =>
        obtain ⟨hout, hcount⟩ := hskip a s ha
        rw [cons_none ha] at hok ⊢
        obtain ⟨hfinal, hshown, hn⟩ := hnext s n hI (by rw [hsee, hout]; rfl) hok
        exact ⟨hfinal, hshown, by rw [hn, countP_cons, hcount]; rfl⟩
      | some s' =>
        obtain ⟨hI', hcount, hsee'⟩ := htake a s s' hI ha
        rw [hsee, Keyed.filterMap_at hdone hrest] at hsee'
        rw [cons_some ha] at hok ⊢
        cases hl : (sweep step rest s').2 with
        | error e =>
          rw [hl] at hok
          cases hok
        | ok m =>
          rw [hl] at hok
          obtain rfl := Except.ok.inj hok
          obtain ⟨hfinal, hshown, hm⟩ := hnext s' m hI' hsee' hl
          exact ⟨hfinal, hshown, by rw [hm, countP_cons, hcount]; rfl⟩

/-- **A sweep over what the state shows.** If an element that is passed over
stays as it is, and one that counts is replaced or taken out where it
stands, then the sweep does so with all of them. -/
theorem rewrites {l : List α} {n : ℕ} (hI : I s) (hsee : see s = l) (hnodup : (l.map key).Nodup)
    (hok : (sweep step l s).2 = .ok n) :
    I (sweep step l s).1 ∧ see (sweep step l s).1 = l.filterMap out ∧ n = l.countP counts := by
  have hempty : see s = [] ++ l := hsee
  exact rewrites_append see key hkey hskip htake hI hempty hnodup hok

end Rewriting

end Sweep

end Shoveler
