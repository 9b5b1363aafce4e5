import Shoveler.Common.Descent

/-!
# Parsers in lockstep

What one parser makes of a list of tokens, another makes of a related
list. The relation may change as the tokens are read, from one world to a
later one, and with it what is known of the results: values are related at
a world, and stay related at the later ones only as far as their relation
says so. The rules follow the way parsers are put together, with loops and
recursions compared round by round.
-/

namespace Shoveler

namespace Parse

variable {ρ τ ε ι α β : Type} [Preorder ι]

/-- **Where the first parser succeeds so does the second**, on related
lists, with related rests and related results at the world reached. -/
def Lockstep (R : ι → List τ → List τ → Prop) (env env' : ρ) (V : ι → α → α → Prop) (w : ι)
    (p p' : Parse ρ τ ε α) : Prop :=
  ∀ l l', R w l l' → ∀ a rest, p.run env l = .ok (a, rest) →
    ∃ w' a' rest', p'.run env' l' = .ok (a', rest') ∧ w ≤ w' ∧ R w' rest rest' ∧ V w' a a'

/-- Rounds that come to the same, with related values. -/
inductive Round.Rel (V : α → α → Prop) (W : β → β → Prop) : Round α β → Round α β → Prop
  | again {a a' : α} : V a a' → Round.Rel V W (.again a) (.again a')
  | done {b b' : β} : W b b' → Round.Rel V W (.done b) (.done b')

/-- Whether a round was the last. -/
def Round.isDone : Round α β → Bool
  | .again _ => false
  | .done _ => true

namespace Lockstep

variable {R : ι → List τ → List τ → Prop} {env env' : ρ}
variable {V : ι → α → α → Prop} {W : ι → β → β → Prop} {w : ι}

theorem pure {a a' : α} (h : V w a a') :
    Lockstep R env env' V w (Pure.pure a : Parse ρ τ ε α) (Pure.pure a') := by
  intro l l' hl b rest hrun
  obtain ⟨rfl, rfl⟩ := Prod.mk.inj (Except.ok.inj hrun)
  exact ⟨w, a', l', rfl, le_refl w, hl, h⟩

theorem fail {e : ρ → ε} {p : Parse ρ τ ε α} :
    Lockstep R env env' V w (Parse.fail e) p := by
  intro l l' _ b rest hrun
  cases hrun

/-- More may be known of the results than is asked for. -/
theorem imp {V' : ι → α → α → Prop} {p p' : Parse ρ τ ε α} (h : Lockstep R env env' V w p p')
    (hV : ∀ w a a', V w a a' → V' w a a') : Lockstep R env env' V' w p p' := by
  intro l l' hl a rest hrun
  obtain ⟨w', a', rest', hrun', hw, hrest, ha⟩ := h l l' hl a rest hrun
  exact ⟨w', a', rest', hrun', hw, hrest, hV w' a a' ha⟩

theorem bind {p p' : Parse ρ τ ε α} {f f' : α → Parse ρ τ ε β}
    (hp : Lockstep R env env' V w p p')
    (hf : ∀ w', w ≤ w' → ∀ a a', V w' a a' → Lockstep R env env' W w' (f a) (f' a')) :
    Lockstep R env env' W w (p >>= f) (p' >>= f') := by
  intro l l' hl b rest hrun
  obtain ⟨a, mid, ha, hb⟩ := bind_eq_ok.1 hrun
  obtain ⟨w₁, a', mid', ha', hw₁, hmid, hV⟩ := hp l l' hl a mid ha
  obtain ⟨w₂, b', rest', hb', hw₂, hrest, hW⟩ := hf w₁ hw₁ a a' hV mid mid' hmid b rest hb
  exact ⟨w₂, b', rest', bind_eq_ok.2 ⟨a', mid', ha', hb'⟩, le_trans hw₁ hw₂, hrest, hW⟩

theorem ite {c : Prop} [Decidable c] {p p' q q' : Parse ρ τ ε α}
    (hp : c → Lockstep R env env' V w p p') (hq : ¬c → Lockstep R env env' V w q q') :
    Lockstep R env env' V w (if c then p else q) (if c then p' else q') := by
  by_cases hc : c
  · rw [if_pos hc, if_pos hc]
    exact hp hc
  · rw [if_neg hc, if_neg hc]
    exact hq hc

section Loop

variable {stuck : ε} {body : α → Parse ρ τ ε (Round α β)}
variable (hbody : ∀ w a a', V w a a' →
  Lockstep R env env' (fun w => Round.Rel (V w) (W w)) w (body a) (body a'))

include hbody

theorem rounds (n : ℕ) {a a' : α} (h : V w a a') :
    Lockstep R env env' W w (Parse.rounds stuck body n a) (Parse.rounds stuck body n a') := by
  induction n generalizing w a a' with
  | zero => exact fail
  | succ n ih =>
    refine bind (hbody w a a' h) fun w' _ round round' hround => ?_
    cases hround with
    | again hV => exact ih hV
    | done hW => exact pure hW

/-- **A loop whose rounds are in lockstep is.** -/
theorem loop (hreads : Reads body) {a a' : α} (h : V w a a') :
    Lockstep R env env' W w (Parse.loop stuck body a) (Parse.loop stuck body a') := by
  intro l l' hl b rest hrun
  -- both sides get the rounds of the one with more tokens before it
  rw [loop_run hreads (Nat.lt_succ_of_le (Nat.le_max_left l.length l'.length))] at hrun
  rw [loop_run hreads (Nat.lt_succ_of_le (Nat.le_max_right l.length l'.length))]
  exact rounds hbody _ h l l' hl b rest hrun

end Loop

/-- **And so is a recursion**, wherever what it makes of a parser in
lockstep is. -/
theorem fix {stuck : ε} {F : Parse ρ τ ε α → Parse ρ τ ε α} (hguarded : Guarded F)
    {P : ι → Prop} (hF : ∀ p, (∀ w, P w → Lockstep R env env' V w p p) →
      ∀ w, P w → Lockstep R env env' V w (F p) (F p)) (hw : P w) :
    Lockstep R env env' V w (Parse.fix stuck F) (Parse.fix stuck F) := by
  have hunfolded : ∀ n w, P w →
      Lockstep R env env' V w (unfolded stuck F n) (unfolded stuck F n) := by
    intro n
    induction n with
    | zero => exact fun _ _ => fail
    | succ n ih => exact hF _ ih
  intro l l' hl b rest hrun
  rw [fix_run hguarded (Nat.lt_succ_of_le (Nat.le_max_left l.length l'.length))] at hrun
  rw [fix_run hguarded (Nat.lt_succ_of_le (Nat.le_max_right l.length l'.length))]
  exact hunfolded _ w hw l l' hl b rest hrun

end Lockstep

end Parse

end Shoveler
