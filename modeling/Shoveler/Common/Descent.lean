import Mathlib.Data.List.Infix

/-!
# Recursive descent

Parsers that read a list of tokens from the front. A parser cannot give
back anything but a rest of what it was given, which is part of its type.
Loops and recursion run with as many rounds as there are tokens, and that
this is enough is shown once for all: where every round of a loop reads a
token the loop ends as it would without the bound (`runs_loop`), and a
recursion that reads a token before it calls itself is the one solution of
its equation (`fix_eq`, `eq_fix`).
-/

namespace Shoveler

/-- **A parser**: in an environment, it reads tokens from the front of a
list and leaves the rest, or fails. -/
structure Parse (ρ τ ε α : Type) where
  run : ρ → List τ → Except ε (α × List τ)
  suffix : ∀ {env l a rest}, run env l = .ok (a, rest) → rest <:+ l

namespace Parse

variable {ρ τ ε α β γ : Type}

@[ext] theorem ext {p q : Parse ρ τ ε α} (h : ∀ env l, p.run env l = q.run env l) : p = q := by
  cases p with
  | mk run _ =>
    cases q with
    | mk run' _ =>
      have hrun : run = run' := funext fun env => funext fun l => h env l
      subst hrun
      rfl

/-- Read nothing. -/
protected def pure (a : α) : Parse ρ τ ε α where
  run _ l := .ok (a, l)
  suffix h := by
    obtain ⟨-, rfl⟩ := Prod.mk.inj (Except.ok.inj h)
    exact List.suffix_refl _

/-- One parser after the other. -/
protected def bind (p : Parse ρ τ ε α) (f : α → Parse ρ τ ε β) : Parse ρ τ ε β where
  run env l :=
    match p.run env l with
    | .error e => .error e
    | .ok (a, rest) => (f a).run env rest
  suffix {env l b rest} h := by
    cases hp : p.run env l with
    | error e =>
      rw [hp] at h
      cases h
    | ok result =>
      rw [hp] at h
      exact ((f result.1).suffix h).trans (p.suffix hp)

instance : Monad (Parse ρ τ ε) where
  pure := Parse.pure
  bind := Parse.bind

/-- Fail, with an error made from the environment. -/
def fail (e : ρ → ε) : Parse ρ τ ε α where
  run env _ := .error (e env)
  suffix h := by cases h

/-- The environment. -/
def read : Parse ρ τ ε ρ where
  run env l := .ok (env, l)
  suffix h := by
    obtain ⟨-, rfl⟩ := Prod.mk.inj (Except.ok.inj h)
    exact List.suffix_refl _

/-- The next token, which is left where it is. -/
def peek : Parse ρ τ ε (Option τ) where
  run _ l := .ok (l.head?, l)
  suffix h := by
    obtain ⟨-, rfl⟩ := Prod.mk.inj (Except.ok.inj h)
    exact List.suffix_refl _

/-- The next token. -/
def advance : Parse ρ τ ε (Option τ) where
  run _ l := .ok (l.head?, l.tail)
  suffix h := by
    obtain ⟨-, rfl⟩ := Prod.mk.inj (Except.ok.inj h)
    exact List.tail_suffix _

/-- Step over the next token if it is as wanted. -/
def accept (wanted : τ → Bool) : Parse ρ τ ε Bool := do
  match ← peek with
  | none => pure false
  | some token =>
    if wanted token then do
      let _ ← advance
      pure true
    else pure false

theorem run_bind (p : Parse ρ τ ε α) (f : α → Parse ρ τ ε β) (env : ρ) (l : List τ) :
    (p >>= f).run env l =
      match p.run env l with
      | .error e => .error e
      | .ok (a, rest) => (f a).run env rest := rfl

/-- **A sequence succeeds exactly when both of its parts do.** -/
theorem bind_eq_ok {p : Parse ρ τ ε α} {f : α → Parse ρ τ ε β} {env : ρ} {l rest : List τ}
    {b : β} :
    (p >>= f).run env l = .ok (b, rest) ↔
      ∃ a mid, p.run env l = .ok (a, mid) ∧ (f a).run env mid = .ok (b, rest) := by
  rw [run_bind]
  cases p.run env l with
  | error e => simp
  | ok result =>
    obtain ⟨a, mid⟩ := result
    simp

theorem length_le (p : Parse ρ τ ε α) {env : ρ} {l rest : List τ} {a : α}
    (h : p.run env l = .ok (a, rest)) : rest.length ≤ l.length :=
  (p.suffix h).length_le

/-- What every result of a parser has. -/
def Ensures (P : α → Prop) (p : Parse ρ τ ε α) : Prop :=
  ∀ env l a rest, p.run env l = .ok (a, rest) → P a

theorem Ensures.of_run {P : α → Prop} {p : Parse ρ τ ε α} {env : ρ} {l rest : List τ} {a : α}
    (hrun : p.run env l = .ok (a, rest)) (h : Ensures P p) : P a := h env l a rest hrun

theorem Ensures.pure {P : α → Prop} {a : α} (h : P a) :
    Ensures P (Pure.pure a : Parse ρ τ ε α) := by
  intro env l b rest hrun
  obtain ⟨rfl, -⟩ := Prod.mk.inj (Except.ok.inj hrun)
  exact h

theorem Ensures.after {P : β → Prop} {p : Parse ρ τ ε α} {f : α → Parse ρ τ ε β}
    (h : ∀ a, Ensures P (f a)) : Ensures P (p >>= f) := by
  intro env l b rest hrun
  obtain ⟨a, mid, -, hf⟩ := bind_eq_ok.1 hrun
  exact h a env mid b rest hf

theorem Ensures.ite {P : α → Prop} {c : Prop} [Decidable c] {p q : Parse ρ τ ε α}
    (hp : Ensures P p) (hq : Ensures P q) : Ensures P (if c then p else q) := by
  by_cases hc : c
  · rw [if_pos hc]
    exact hp
  · rw [if_neg hc]
    exact hq

/-! ## Loops and recursion -/

/-- What a round of a loop comes to. -/
inductive Round (α β : Type) where
  | again (a : α)
  | done (b : β)

/-- On to the next round, or to the end. -/
def Round.next (more : α → Parse ρ τ ε β) : Round α β → Parse ρ τ ε β
  | .again a => more a
  | .done b => pure b

/-- At most so many rounds. -/
def rounds (stuck : ε) (body : α → Parse ρ τ ε (Round α β)) : ℕ → α → Parse ρ τ ε β
  | 0, _ => fail fun _ => stuck
  | n + 1, a => do
    match ← body a with
    | .again a => rounds stuck body n a
    | .done b => pure b

/-- **A loop**, with a round for every token and one more. -/
def loop (stuck : ε) (body : α → Parse ρ τ ε (Round α β)) (a : α) : Parse ρ τ ε β where
  run env l := (rounds stuck body (l.length + 1) a).run env l
  suffix {_ l _ _} h := (rounds stuck body (l.length + 1) a).suffix h

/-- **Whether the rounds of a loop come to a state and a place as wanted**,
so many of them at most. -/
def comesTo (body : α → Parse ρ τ ε (Round α β)) (wanted : α → List τ → Bool) (env : ρ) :
    ℕ → α → List τ → Bool
  | 0, _, _ => false
  | n + 1, a, l => wanted a l ||
    match (body a).run env l with
    | .ok (.again a', l') => comesTo body wanted env n a' l'
    | _ => false

/-- A recursion unfolded so many times. -/
def unfolded (stuck : ε) (F : Parse ρ τ ε α → Parse ρ τ ε α) : ℕ → Parse ρ τ ε α
  | 0 => fail fun _ => stuck
  | n + 1 => F (unfolded stuck F n)

/-- **A parser that calls itself**, once for every token and once more. -/
def fix (stuck : ε) (F : Parse ρ τ ε α → Parse ρ τ ε α) : Parse ρ τ ε α where
  run env l := (unfolded stuck F (l.length + 1)).run env l
  suffix {_ l _ _} h := (unfolded stuck F (l.length + 1)).suffix h

/-! ## Reading at least one token -/

/-- The parser reads a token if it succeeds. -/
def Consumes (p : Parse ρ τ ε α) : Prop :=
  ∀ env l a rest, p.run env l = .ok (a, rest) → rest.length < l.length

theorem Consumes.bind {p : Parse ρ τ ε α} (h : p.Consumes) (f : α → Parse ρ τ ε β) :
    (p >>= f).Consumes := by
  intro env l b rest hrun
  obtain ⟨a, mid, hp, hf⟩ := bind_eq_ok.1 hrun
  exact Nat.lt_of_le_of_lt ((f a).length_le hf) (h env l a mid hp)

theorem Consumes.after {p : Parse ρ τ ε α} {f : α → Parse ρ τ ε β} (h : ∀ a, (f a).Consumes) :
    (p >>= f).Consumes := by
  intro env l b rest hrun
  obtain ⟨a, mid, hp, hf⟩ := bind_eq_ok.1 hrun
  exact Nat.lt_of_lt_of_le (h a env mid b rest hf) (p.length_le hp)

/-- The parser reads a token if it comes to another round. -/
def ReadsAgain (p : Parse ρ τ ε (Round α β)) : Prop :=
  ∀ env l a rest, p.run env l = .ok (.again a, rest) → rest.length < l.length

theorem Consumes.readsAgain {p : Parse ρ τ ε (Round α β)} (h : p.Consumes) : p.ReadsAgain :=
  fun env l _ rest hrun => h env l _ rest hrun

theorem ReadsAgain.done (b : β) : ReadsAgain (pure (.done b) : Parse ρ τ ε (Round α β)) := by
  intro env l a rest hrun
  cases hrun

theorem ReadsAgain.after {p : Parse ρ τ ε γ} {f : γ → Parse ρ τ ε (Round α β)}
    (h : ∀ a, (f a).ReadsAgain) : (p >>= f).ReadsAgain := by
  intro env l b rest hrun
  obtain ⟨a, mid, hp, hf⟩ := bind_eq_ok.1 hrun
  exact Nat.lt_of_lt_of_le (h a env mid b rest hf) (p.length_le hp)

/-- A test that reads a token where it holds. -/
def Checks (t : Parse ρ τ ε Bool) : Prop :=
  ∀ env l rest, t.run env l = .ok (true, rest) → rest.length < l.length

theorem Checks.length_lt {t : Parse ρ τ ε Bool} (h : t.Checks) {f g : Parse ρ τ ε α} {env : ρ}
    {l rest : List τ} {a : α} (hg : ∀ l, g.run env l = .ok (a, rest) → rest.length < l.length)
    (hrun : (t >>= fun b => if b = true then f else g).run env l = .ok (a, rest)) :
    rest.length < l.length := by
  obtain ⟨b, mid, ht, hb⟩ := bind_eq_ok.1 hrun
  cases b with
  | true => exact Nat.lt_of_le_of_lt (f.length_le hb) (h env l mid ht)
  | false => exact Nat.lt_of_lt_of_le (hg mid hb) (t.length_le ht)

theorem Checks.readsAgain {t : Parse ρ τ ε Bool} (h : t.Checks)
    {f g : Parse ρ τ ε (Round α β)} (hg : g.ReadsAgain) :
    (t >>= fun b => if b = true then f else g).ReadsAgain :=
  fun env _ a rest => h.length_lt fun mid => hg env mid a rest

theorem Checks.consumes {t : Parse ρ τ ε Bool} (h : t.Checks) {f g : Parse ρ τ ε α}
    (hg : g.Consumes) : (t >>= fun b => if b = true then f else g).Consumes :=
  fun env _ a rest => h.length_lt fun mid => hg env mid a rest

theorem accept_cons (wanted : τ → Bool) (env : ρ) (token : τ) (l : List τ) :
    (accept wanted : Parse ρ τ ε Bool).run env (token :: l) =
      if wanted token = true then .ok (true, l) else .ok (false, token :: l) := by
  change (if wanted token = true then advance >>= fun _ => pure true else pure false :
    Parse ρ τ ε Bool).run env (token :: l) = _
  split <;> rfl

/-- A test that fails leaves everything as it is. -/
theorem accept_false {wanted : τ → Bool} {env : ρ} {l rest : List τ}
    (h : (accept wanted : Parse ρ τ ε Bool).run env l = .ok (false, rest)) : rest = l := by
  cases l with
  | nil => exact (Prod.mk.inj (Except.ok.inj h)).2.symm
  | cons token l =>
    rw [accept_cons] at h
    split at h
    · cases h
    · exact (Prod.mk.inj (Except.ok.inj h)).2.symm

theorem checks_accept (wanted : τ → Bool) : (accept wanted : Parse ρ τ ε Bool).Checks := by
  intro env l rest h
  cases l with
  | nil => cases h
  | cons token l =>
    rw [accept_cons] at h
    split at h
    · obtain ⟨-, rfl⟩ := Prod.mk.inj (Except.ok.inj h)
      exact Nat.lt_succ_self _
    · cases h

/-- A round that goes by the next token reads it, or it is the last. -/
theorem ReadsAgain.advance {p : Parse ρ τ ε (Round α β)} {f : τ → Parse ρ τ ε (Round α β)}
    (hp : p.ReadsAgain) :
    (Parse.advance >>= fun token =>
      match token with
      | none => p
      | some token => f token).ReadsAgain := by
  intro env l a rest hrun
  obtain ⟨token, mid, htoken, hrun⟩ := bind_eq_ok.1 hrun
  cases l with
  | nil =>
    obtain ⟨rfl, rfl⟩ := Prod.mk.inj (Except.ok.inj htoken)
    exact hp env [] a rest hrun
  | cons t l =>
    obtain ⟨rfl, rfl⟩ := Prod.mk.inj (Except.ok.inj htoken)
    exact Nat.lt_succ_of_le ((f t).length_le hrun)

/-- Every round of a loop reads a token if another is to follow. -/
def Reads (body : α → Parse ρ τ ε (Round α β)) : Prop := ∀ a, (body a).ReadsAgain

section Loop

variable {stuck : ε} {body : α → Parse ρ τ ε (Round α β)}

/-- Beyond the number of tokens the number of rounds makes no difference. -/
theorem rounds_stable (h : Reads body) {n m : ℕ} {a : α} {env : ρ} {l : List τ} (hn : l.length < n)
    (hm : l.length < m) :
    (rounds stuck body n a).run env l = (rounds stuck body m a).run env l := by
  induction n generalizing m a l with
  | zero => omega
  | succ n ih =>
    obtain ⟨m, rfl⟩ := Nat.exists_eq_succ_of_ne_zero (Nat.ne_zero_of_lt hm)
    rw [rounds, rounds, run_bind, run_bind]
    cases hbody : (body a).run env l with
    | error e => rfl
    | ok result =>
      obtain ⟨round, rest⟩ := result
      cases round with
      | again a' =>
        have hless := h a env l a' rest hbody
        exact ih (by omega) (by omega)
      | done b => rfl

/-- **A loop has rounds enough.** -/
theorem loop_run (h : Reads body) {n : ℕ} {a : α} {env : ρ} {l : List τ} (hn : l.length < n) :
    (loop stuck body a).run env l = (rounds stuck body n a).run env l :=
  rounds_stable h (Nat.lt_succ_self _) hn

/-- And so it satisfies its own equation. -/
theorem loop_eq (h : Reads body) (a : α) :
    loop stuck body a = body a >>= Round.next (loop stuck body) := by
  refine ext fun env l => ?_
  rw [loop_run h (Nat.lt_succ_of_lt (Nat.lt_succ_self l.length)), rounds, run_bind, run_bind]
  cases hbody : (body a).run env l with
  | error e => rfl
  | ok result =>
    obtain ⟨round, rest⟩ := result
    cases round with
    | again a' =>
      have hless := h a env l a' rest hbody
      exact (loop_run h (by omega)).symm
    | done b => rfl

/-- **What a loop without a bound comes to**: its rounds are run until one of
them fails or is the last. -/
inductive Runs (body : α → Parse ρ τ ε (Round α β)) (env : ρ) :
    α → List τ → Except ε (β × List τ) → Prop
  | fails {a l e} : (body a).run env l = .error e → Runs body env a l (.error e)
  | done {a l b rest} : (body a).run env l = .ok (.done b, rest) → Runs body env a l (.ok (b, rest))
  | again {a l a' rest result} : (body a).run env l = .ok (.again a', rest) →
      Runs body env a' rest result → Runs body env a l result

/-- **The loop ends without the bound, and as it does with it.** -/
theorem runs_loop (h : Reads body) (env : ρ) (a : α) (l : List τ) :
    Runs body env a l ((loop stuck body a).run env l) := by
  induction hn : l.length using Nat.strong_induction_on generalizing a l with
  | h n ih =>
    rw [loop_eq h, run_bind]
    cases hbody : (body a).run env l with
    | error e => exact .fails hbody
    | ok result =>
      obtain ⟨round, rest⟩ := result
      cases round with
      | again a' => exact .again hbody (ih _ (hn ▸ h a env l a' rest hbody) a' rest rfl)
      | done b => exact .done hbody

/-- A loop ends with its last round. -/
theorem loop_eq_ok {a : α} {env : ρ} {l rest : List τ} {b : β}
    (h : (loop stuck body a).run env l = .ok (b, rest)) :
    ∃ a' mid, mid <:+ l ∧ (body a').run env mid = .ok (.done b, rest) := by
  have hrounds : ∀ n a l, (rounds stuck body n a).run env l = .ok (b, rest) →
      ∃ a' mid, mid <:+ l ∧ (body a').run env mid = .ok (.done b, rest) := by
    intro n
    induction n with
    | zero =>
      intro a l h
      cases h
    | succ n ih =>
      intro a l h
      obtain ⟨round, mid, hround, h⟩ := bind_eq_ok.1 h
      cases round with
      | again a' =>
        obtain ⟨last, left, hleft, hlast⟩ := ih a' mid h
        exact ⟨last, left, hleft.trans ((body a).suffix hround), hlast⟩
      | done b' =>
        obtain ⟨rfl, rfl⟩ := Prod.mk.inj (Except.ok.inj h)
        exact ⟨a, l, List.suffix_refl l, hround⟩
  exact hrounds (l.length + 1) a l h

/-- A loop that comes to where a round fails does so too. -/
theorem loop_of_comesTo {wanted : α → List τ → Bool} {env : ρ}
    (hfails : ∀ a l, wanted a l = true → ∃ e, (body a).run env l = .error e) {a : α} {l : List τ}
    (h : comesTo body wanted env (l.length + 1) a l = true) :
    ∃ e, (loop stuck body a).run env l = .error e := by
  have hrounds : ∀ n a l, comesTo body wanted env n a l = true →
      ∃ e, (rounds stuck body n a).run env l = .error e := by
    intro n
    induction n with
    | zero =>
      intro a l h
      cases h
    | succ n ih =>
      intro a l h
      rw [rounds, run_bind]
      rw [comesTo, Bool.or_eq_true] at h
      rcases h with h | h
      · obtain ⟨e, he⟩ := hfails a l h
        exact ⟨e, by rw [he]⟩
      · split at h
        · rename_i hround
          rw [hround]
          exact ih _ _ h
        · cases h
  exact hrounds _ a l h

end Loop

/-! ## Guarded recursion -/

/-- Two parsers agree on lists shorter than a bound. -/
def AgreeBelow (n : ℕ) (p q : Parse ρ τ ε α) : Prop :=
  ∀ env l, l.length < n → p.run env l = q.run env l

namespace AgreeBelow

variable {n : ℕ} {p q : Parse ρ τ ε α} {f g : α → Parse ρ τ ε β}

theorem refl (p : Parse ρ τ ε α) : AgreeBelow n p p := fun _ _ _ => rfl

theorem bind (h : AgreeBelow n p q) (hfg : ∀ a, AgreeBelow n (f a) (g a)) :
    AgreeBelow n (p >>= f) (q >>= g) := by
  intro env l hl
  rw [run_bind, run_bind, ← h env l hl]
  cases hp : p.run env l with
  | error e => rfl
  | ok result => exact hfg result.1 env result.2 (Nat.lt_of_le_of_lt (p.length_le hp) hl)

theorem ite {c : Prop} [Decidable c] {p' q' : Parse ρ τ ε α} (hp : AgreeBelow n p q)
    (hq : AgreeBelow n p' q') : AgreeBelow n (if c then p else p') (if c then q else q') := by
  by_cases hc : c
  · rw [if_pos hc, if_pos hc]
    exact hp
  · rw [if_neg hc, if_neg hc]
    exact hq

/-- Behind a parser that reads a token one more is allowed. -/
theorem bind_consumes (hp : p.Consumes) (hfg : ∀ a, AgreeBelow n (f a) (g a)) :
    AgreeBelow (n + 1) (p >>= f) (p >>= g) := by
  intro env l hl
  rw [run_bind, run_bind]
  cases hrun : p.run env l with
  | error e => rfl
  | ok result =>
    have hless := hp env l result.1 result.2 hrun
    exact hfg result.1 env result.2 (by omega)

/-- And behind a test that reads one where it holds. -/
theorem test {t : Parse ρ τ ε Bool} (ht : t.Checks) {p' q' : Parse ρ τ ε α}
    (hp : AgreeBelow n p q) (hq : AgreeBelow (n + 1) p' q') :
    AgreeBelow (n + 1) (t >>= fun b => if b = true then p else p')
      (t >>= fun b => if b = true then q else q') := by
  intro env l hl
  rw [run_bind, run_bind]
  cases hrun : t.run env l with
  | error e => rfl
  | ok result =>
    obtain ⟨b, rest⟩ := result
    have hle := t.length_le hrun
    cases b with
    | true =>
      have hless := ht env l rest hrun
      exact hp env rest (by omega)
    | false => exact hq env rest (by omega)

theorem rounds {stuck : ε} {body body' : α → Parse ρ τ ε (Round α β)}
    (h : ∀ a, AgreeBelow n (body a) (body' a)) (m : ℕ) (a : α) :
    AgreeBelow n (Parse.rounds stuck body m a) (Parse.rounds stuck body' m a) := by
  induction m generalizing a with
  | zero => exact refl _
  | succ m ih =>
    refine bind (h a) fun round => ?_
    cases round with
    | again a' => exact ih a'
    | done b => exact refl _

theorem loop {stuck : ε} {body body' : α → Parse ρ τ ε (Round α β)}
    (h : ∀ a, AgreeBelow n (body a) (body' a)) (a : α) :
    AgreeBelow n (Parse.loop stuck body a) (Parse.loop stuck body' a) :=
  fun env l hl => rounds h (l.length + 1) a env l hl

end AgreeBelow

/-- **A recursion that reads a token before it calls itself.** -/
def Guarded (F : Parse ρ τ ε α → Parse ρ τ ε α) : Prop :=
  ∀ n p q, AgreeBelow n p q → AgreeBelow (n + 1) (F p) (F q)

section Fix

variable {stuck : ε} {F : Parse ρ τ ε α → Parse ρ τ ε α}

theorem agreeBelow_unfolded (h : Guarded F) {k n m : ℕ} (hn : k ≤ n) (hm : k ≤ m) :
    AgreeBelow k (unfolded stuck F n) (unfolded stuck F m) := by
  induction k generalizing n m with
  | zero => exact fun _ l hl => absurd hl (Nat.not_lt_zero l.length)
  | succ k ih =>
    obtain ⟨n, rfl⟩ := Nat.exists_eq_succ_of_ne_zero (Nat.ne_zero_of_lt hn)
    obtain ⟨m, rfl⟩ := Nat.exists_eq_succ_of_ne_zero (Nat.ne_zero_of_lt hm)
    exact h k _ _ (ih (by omega) (by omega))

/-- **It is unfolded often enough.** -/
theorem fix_run (h : Guarded F) {n : ℕ} {env : ρ} {l : List τ} (hn : l.length < n) :
    (fix stuck F).run env l = (unfolded stuck F n).run env l :=
  agreeBelow_unfolded h (Nat.le_refl (l.length + 1)) hn env l (Nat.lt_succ_self _)

/-- **And so it satisfies its own equation.** -/
theorem fix_eq (h : Guarded F) : fix stuck F = F (fix stuck F) := by
  refine ext fun env l => ?_
  rw [fix_run h (Nat.lt_succ_self l.length)]
  refine h l.length _ _ (fun env' l' hl' => ?_) env l (Nat.lt_succ_self _)
  exact (fix_run h hl').symm

/-- **Nothing else does.** -/
theorem eq_fix (h : Guarded F) {p : Parse ρ τ ε α} (hp : p = F p) : p = fix stuck F := by
  have hagree : ∀ n, AgreeBelow n p (fix stuck F) := by
    intro n
    induction n with
    | zero => exact fun _ l hl => absurd hl (Nat.not_lt_zero l.length)
    | succ n ih =>
      rw [hp, fix_eq h]
      exact h n _ _ ih
  exact ext fun env l => hagree (l.length + 1) env l (Nat.lt_succ_self _)

end Fix

end Parse

end Shoveler
