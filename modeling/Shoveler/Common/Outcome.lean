import Mathlib.Data.List.Forall2

/-!
# Fallible computations

Rules for taking a computation in `Except` apart. A chain of fallible
steps succeeds exactly when every step does, so a success is read back
step by step (`bind_eq_ok`), and a traversal of a list succeeds exactly
when each element does, with the results in the same order
(`mapM_eq_ok`). In which ways a computation can fail is carried along the
same steps (`FailsWith`).
-/

namespace Shoveler

open List

namespace Outcome

variable {ε α β γ : Type}

variable {l : List α} {r : List β} {R : α → β → Prop} {b : β} {e : ε}

@[simp] theorem pure_eq_ok (a : α) : (pure a : Except ε α) = .ok a := rfl

@[simp] theorem ok_bind (a : α) (f : α → Except ε β) : (Except.ok a >>= f) = f a := rfl

@[simp] theorem error_bind (e : ε) (f : α → Except ε β) :
    ((Except.error e : Except ε α) >>= f) = .error e := rfl

/-- **A chain succeeds exactly when both of its steps do.** -/
theorem bind_eq_ok {x : Except ε α} {f : α → Except ε β} :
    (x >>= f) = .ok b ↔ ∃ a, x = .ok a ∧ f a = .ok b := by
  cases x with
  | error e => simp
  | ok a => simp

/-- And it fails where its first failing step does. -/
theorem bind_eq_error {x : Except ε α} {f : α → Except ε β} :
    (x >>= f) = .error e ↔ x = .error e ∨ ∃ a, x = .ok a ∧ f a = .error e := by
  cases x with
  | error e' => simp
  | ok a => simp

theorem map_eq_ok {x : Except ε α} {f : α → β} :
    x.map f = .ok b ↔ ∃ a, x = .ok a ∧ f a = b := by
  cases x with
  | error e => simp [Except.map]
  | ok a => simp [Except.map]

/-- A computation that is known to succeed has a result. -/
theorem exists_ok {x : Except ε α} (h : x.isOk = true) : ∃ a, x = .ok a := by
  cases x with
  | error e => cases h
  | ok a => exact ⟨a, rfl⟩

/-- A guarded computation succeeds exactly when the guard does not fire
and the rest succeeds. -/
theorem ite_error_eq_ok {p : Prop} [Decidable p] {x : Except ε α} {a : α} :
    (if p then .error e else x) = .ok a ↔ ¬p ∧ x = .ok a := by
  by_cases h : p
  · simp [h]
  · simp [h]

/-- The elements that pass a test which may fail, in their order. -/
def keep (p : α → Except ε Bool) : List α → Except ε (List α)
  | [] => .ok []
  | a :: l => do
    let passes ← p a
    let rest ← keep p l
    return if passes then a :: rest else rest

/-- **It succeeds exactly when every test does.** -/
theorem keep_eq_ok {p : α → Except ε Bool} {r : List α} :
    keep p l = .ok r ↔
      (∀ a ∈ l, (p a).isOk = true) ∧ r = l.filter fun a => (p a).toOption.getD false := by
  induction l generalizing r with
  | nil =>
    simp only [keep, Except.ok.injEq, filter_nil]
    exact ⟨fun h => ⟨fun a ha => absurd ha not_mem_nil, h.symm⟩, fun h => h.2.symm⟩
  | cons a l ih =>
    rw [keep, forall_mem_cons, filter_cons]
    cases ha : p a with
    | error e => simp [Except.isOk, Except.toBool]
    | ok passes =>
      simp only [ok_bind, bind_eq_ok, ih, pure_eq_ok, Except.ok.injEq]
      constructor
      · rintro ⟨rest, ⟨hl, rfl⟩, rfl⟩
        exact ⟨⟨rfl, hl⟩, rfl⟩
      · rintro ⟨⟨-, hl⟩, rfl⟩
        exact ⟨_, ⟨hl, rfl⟩, rfl⟩

/-- What is kept are the elements whose test says so. -/
theorem eq_filter_of_keep [DecidableEq ε] {p : α → Except ε Bool} {r : List α}
    (h : keep p l = .ok r) : r = l.filter fun a => decide (p a = .ok true) := by
  obtain ⟨-, rfl⟩ := keep_eq_ok.1 h
  refine filter_congr fun a _ => ?_
  cases p a with
  | error e => simp [Except.toOption]
  | ok passes => cases passes <;> simp [Except.toOption]

/-- **A traversal succeeds exactly when every element does**, and its
results stand in the order of the elements. -/
theorem mapM_eq_ok {f : α → Except ε β} :
    l.mapM f = .ok r ↔ List.Forall₂ (fun a b => f a = .ok b) l r := by
  induction l generalizing r with
  | nil =>
    rw [mapM_nil, forall₂_nil_left_iff, pure_eq_ok, Except.ok.injEq]
    exact eq_comm
  | cons a l ih =>
    simp only [mapM_cons, bind_eq_ok, pure_eq_ok, Except.ok.injEq, forall₂_cons_left_iff]
    constructor
    · rintro ⟨b, hb, bs, hbs, rfl⟩
      exact ⟨b, bs, hb, ih.1 hbs, rfl⟩
    · rintro ⟨b, bs, hb, hbs, rfl⟩
      exact ⟨b, hb, bs, ih.2 hbs, rfl⟩

/-- A pointwise relation that leaves no choice on the right. -/
theorem forall₂_iff_map {P : α → Prop} {g : α → β} (h : ∀ a ∈ l, ∀ b, R a b ↔ P a ∧ b = g a) :
    List.Forall₂ R l r ↔ (∀ a ∈ l, P a) ∧ r = l.map g := by
  induction l generalizing r with
  | nil => simp
  | cons a l ih =>
    rw [forall_mem_cons] at h
    simp only [forall₂_cons_left_iff, h.1, ih h.2, forall_mem_cons, map_cons]
    constructor
    · rintro ⟨_, _, ⟨ha, rfl⟩, ⟨hl, rfl⟩, rfl⟩
      exact ⟨⟨ha, hl⟩, rfl⟩
    · rintro ⟨⟨ha, hl⟩, rfl⟩
      exact ⟨_, _, ⟨ha, rfl⟩, ⟨hl, rfl⟩, rfl⟩

/-- What related elements have in common the lists have in common. -/
theorem map_eq_of_forall₂ {f : α → γ} {g : β → γ} (hfg : ∀ a b, R a b → g b = f a)
    (h : List.Forall₂ R l r) :
    r.map g = l.map f := by
  induction h with
  | nil => rfl
  | cons hab _ ih => rw [map_cons, map_cons, ih, hfg _ _ hab]

/-- What stands on the right of a pointwise relation has a partner on the
left. -/
theorem exists_left_of_forall₂ (h : List.Forall₂ R l r) (hb : b ∈ r) : ∃ a ∈ l, R a b := by
  induction h with
  | nil => cases hb
  | cons hab _ ih =>
    rcases mem_cons.1 hb with rfl | hb
    · exact ⟨_, mem_cons_self, hab⟩
    · obtain ⟨a, ha, hR⟩ := ih hb
      exact ⟨a, mem_cons_of_mem _ ha, hR⟩

/-- Partners of another kind, where every pair shows that there is one. -/
theorem exists_forall₂ {S : α → γ → Prop} (h : List.Forall₂ R l r)
    (hS : ∀ a b, R a b → ∃ c, S a c) :
    ∃ t, List.Forall₂ S l t := by
  induction h with
  | nil => exact ⟨[], .nil⟩
  | cons hab _ ih =>
    obtain ⟨c, hc⟩ := hS _ _ hab
    obtain ⟨t, ht⟩ := ih
    exact ⟨c :: t, .cons hc ht⟩

/-- What stands at a place on the left has its partner at the same place on
the right. -/
theorem getElem?_of_forall₂ (h : List.Forall₂ R l r) {k : ℕ} {a : α} (ha : l[k]? = some a) :
    ∃ b, r[k]? = some b ∧ R a b := by
  induction h generalizing k with
  | nil => simp at ha
  | cons hab _ ih =>
    cases k with
    | zero =>
      rw [getElem?_cons_zero, Option.some.injEq] at ha
      subst ha
      exact ⟨_, getElem?_cons_zero, hab⟩
    | succ k => exact ih ha

/-- What is taken out at one place on both sides. -/
theorem forall₂_eraseIdx (h : List.Forall₂ R l r) (k : ℕ) :
    List.Forall₂ R (l.eraseIdx k) (r.eraseIdx k) := by
  induction h generalizing k with
  | nil => exact .nil
  | cons hab hrest ih =>
    cases k with
    | zero => exact hrest
    | succ k => exact .cons hab (ih k)

/-- A traversal by a step that succeeds everywhere is a map. -/
theorem mapM_eq_ok_map {f : α → Except ε β} {g : α → β} (h : ∀ a ∈ l, f a = .ok (g a)) :
    l.mapM f = .ok (l.map g) := by
  rw [mapM_eq_ok, forall₂_map_right_iff]
  exact forall₂_same.2 h

/-- A check of every element succeeds exactly when each does. -/
theorem forM_eq_ok {f : α → Except ε Unit} :
    l.forM f = .ok () ↔ ∀ a ∈ l, f a = .ok () := by
  induction l with
  | nil => exact ⟨fun _ a ha => absurd ha not_mem_nil, fun _ => rfl⟩
  | cons a l ih =>
    change (f a >>= fun _ => l.forM f) = .ok () ↔ _
    rw [bind_eq_ok, forall_mem_cons, ← ih]
    exact ⟨fun ⟨(), ha, hl⟩ => ⟨ha, hl⟩, fun ⟨ha, hl⟩ => ⟨(), ha, hl⟩⟩

/-- One round of a fallible loop. -/
theorem foldlM_cons_eq_ok {f : β → α → Except ε β} {a : α} {b' : β} :
    (a :: l).foldlM f b = .ok b' ↔ ∃ c, f b a = .ok c ∧ l.foldlM f c = .ok b' := by
  rw [foldlM_cons, bind_eq_ok]

/-- **The invariant rule for fallible loops.** What every successful round
keeps, a successful loop keeps. -/
theorem foldlM_invariant {f : β → α → Except ε β} {P : β → Prop}
    (hround : ∀ b, ∀ a ∈ l, ∀ c, P b → f b a = .ok c → P c) {b' : β} (hb : P b)
    (h : l.foldlM f b = .ok b') : P b' := by
  induction l generalizing b with
  | nil =>
    obtain rfl := Except.ok.inj h
    exact hb
  | cons a l ih =>
    obtain ⟨c, hc, hrest⟩ := foldlM_cons_eq_ok.1 h
    exact ih (fun b a' ha' => hround b a' (mem_cons_of_mem _ ha'))
      (hround b a mem_cons_self c hb hc) hrest

/-- A loop all of whose rounds succeed; `g before` is the state after the
elements `before`. -/
theorem foldlM_eq_ok_of_split {f : β → α → Except ε β} {g : List α → β} {l : List α}
    (hround : ∀ before a after, l = before ++ a :: after →
      f (g before) a = .ok (g (before ++ [a]))) : l.foldlM f (g []) = .ok (g l) := by
  have hrest : ∀ after before, l = before ++ after → after.foldlM f (g before) = .ok (g l) := by
    intro after
    induction after with
    | nil =>
      intro before hsplit
      rw [hsplit, append_nil]
      rfl
    | cons a after ih =>
      intro before hsplit
      rw [foldlM_cons, hround before a after hsplit, ok_bind]
      exact ih _ (by rw [hsplit, append_assoc, singleton_append])
  exact hrest l [] rfl

/-- **A fallible loop that adds one result in each round** succeeds exactly
when every element has its result; `g before done` is the state after the
elements `before`, with the results `done`. -/
theorem foldlM_eq_ok {f : β → α → Except ε β} {R : α → γ → Prop} {g : List α → List γ → β}
    {l : List α} (hround : ∀ before a after done, l = before ++ a :: after →
      List.Forall₂ R before done → ∀ b,
      f (g before done) a = .ok b ↔ ∃ c, R a c ∧ b = g (before ++ [a]) (done ++ [c])) {b : β} :
    l.foldlM f (g [] []) = .ok b ↔ ∃ cs, List.Forall₂ R l cs ∧ b = g l cs := by
  -- the same for what is left of the list, behind a part that went through
  have hrest : ∀ after before done, l = before ++ after → List.Forall₂ R before done →
      (after.foldlM f (g before done) = .ok b ↔
        ∃ cs, List.Forall₂ R after cs ∧ b = g l (done ++ cs)) := by
    intro after
    induction after with
    | nil =>
      intro before done hsplit _
      rw [append_nil] at hsplit
      subst hsplit
      simp only [foldlM_nil, pure_eq_ok, Except.ok.injEq, forall₂_nil_left_iff,
        exists_eq_left, append_nil]
      exact eq_comm
    | cons a after ih =>
      intro before done hsplit hdone
      have hnext : l = (before ++ [a]) ++ after := by
        rw [hsplit, append_assoc]
        rfl
      rw [foldlM_cons_eq_ok]
      constructor
      · rintro ⟨b', hb', hloop⟩
        obtain ⟨c, hc, rfl⟩ := (hround before a after done hsplit hdone b').1 hb'
        obtain ⟨cs, hcs, rfl⟩ :=
          (ih _ _ hnext (rel_append hdone (.cons hc .nil))).1 hloop
        exact ⟨c :: cs, .cons hc hcs, by rw [append_assoc, singleton_append]⟩
      · rintro ⟨results, hall, rfl⟩
        obtain ⟨c, cs, hc, hcs, rfl⟩ := forall₂_cons_left_iff.1 hall
        refine ⟨_, (hround before a after done hsplit hdone _).2 ⟨c, hc, rfl⟩, ?_⟩
        refine (ih _ _ hnext (rel_append hdone (.cons hc .nil))).2 ⟨cs, hcs, ?_⟩
        rw [append_assoc, singleton_append]
  exact hrest l [] [] rfl .nil

/-- And a loop fails the way one of its rounds does. -/
theorem foldlM_error {f : β → α → Except ε β} {P : β → Prop} {Q : ε → Prop}
    (hround : ∀ b, ∀ a ∈ l, ∀ c, P b → f b a = .ok c → P c)
    (hfail : ∀ b, ∀ a ∈ l, ∀ e, P b → f b a = .error e → Q e) (hb : P b)
    (h : l.foldlM f b = .error e) : Q e := by
  induction l generalizing b with
  | nil => cases h
  | cons a l ih =>
    rw [foldlM_cons, bind_eq_error] at h
    rcases h with h | ⟨c, hc, hrest⟩
    · exact hfail b a mem_cons_self e hb h
    · exact ih (fun b a' ha' => hround b a' (mem_cons_of_mem _ ha'))
        (fun b a' ha' => hfail b a' (mem_cons_of_mem _ ha'))
        (hround b a mem_cons_self c hb hc) hrest

/-! ## Ways to fail -/

/-- **A computation that fails in certain ways only.** -/
def FailsWith (Q : ε → Prop) (x : Except ε α) : Prop := ∀ e, x = .error e → Q e

namespace FailsWith

variable {Q : ε → Prop} {x : Except ε α} {f : α → Except ε β}

theorem ok (a : α) : FailsWith Q (.ok a : Except ε α) := fun _ h => by cases h

theorem error (h : Q e) : FailsWith Q (.error e : Except ε α) := by
  intro e' he
  cases he
  exact h

theorem mono {R : ε → Prop} (h : FailsWith Q x) (hR : ∀ e, Q e → R e) : FailsWith R x :=
  fun e he => hR e (h e he)

/-- A chain fails in the ways of its steps. -/
theorem bind (hx : FailsWith Q x) (hf : ∀ a, x = .ok a → FailsWith Q (f a)) :
    FailsWith Q (x >>= f) := by
  intro e he
  rcases bind_eq_error.1 he with he | ⟨a, ha, he⟩
  · exact hx e he
  · exact hf a ha e he

/-- A guard adds the failure it stands for. -/
theorem guard {p : Prop} [Decidable p] (he : Q e) (hx : ¬p → FailsWith Q x) :
    FailsWith Q (if p then .error e else x) := by
  by_cases hp : p
  · rw [if_pos hp]
    exact .error he
  · rw [if_neg hp]
    exact hx hp

/-- A traversal fails in the ways of its elements. -/
theorem mapM (h : ∀ a ∈ l, FailsWith Q (f a)) : FailsWith Q (l.mapM f) := by
  induction l with
  | nil => exact .ok []
  | cons a l ih =>
    rw [forall_mem_cons] at h
    rw [mapM_cons]
    exact h.1.bind fun _ _ => (ih h.2).bind fun _ _ => .ok _

/-- A selection fails in the ways of its tests. -/
theorem keep {p : α → Except ε Bool} (h : ∀ a ∈ l, FailsWith Q (p a)) :
    FailsWith Q (keep p l) := by
  induction l with
  | nil => exact .ok []
  | cons a l ih =>
    rw [forall_mem_cons] at h
    exact h.1.bind fun _ _ => (ih h.2).bind fun _ _ => .ok _

/-- A loop fails in the ways of its rounds. -/
theorem foldlM {g : β → α → Except ε β} {P : β → Prop}
    (hround : ∀ b, ∀ a ∈ l, ∀ c, P b → g b a = .ok c → P c)
    (hfail : ∀ b, ∀ a ∈ l, P b → FailsWith Q (g b a)) (hb : P b) :
    FailsWith Q (l.foldlM g b) :=
  fun _ he => foldlM_error hround (fun b a ha e hP => hfail b a ha hP e) hb he

end FailsWith

end Outcome

end Shoveler
