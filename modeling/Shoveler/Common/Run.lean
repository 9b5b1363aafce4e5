import Mathlib.Data.List.Basic

/-!
# Runs of a machine

A machine takes events one by one. `Along` says that a condition on the
state and the next event holds at every step of a run, and the induction
over runs is done here once: what holds at the start and is kept by every
step that meets the condition holds at the end (`run_invariant`), and
what a step keeps only then holds all the way only then
(`along_iff_invariant`). Two
machines that reply to their events are compared by a simulation
(`replies_simulate`), and a machine with itself, some events left out, by
another (`replies_hide`).
-/

namespace Shoveler

namespace Run

variable {σ ε : Type} (step : σ → ε → σ)

/-- The state after a list of events. -/
def run (s : σ) (events : List ε) : σ := events.foldl step s

/-- **A condition holds at every step of a run**, of the state before the
event and the event. -/
def Along (C : σ → ε → Prop) : σ → List ε → Prop
  | _, [] => True
  | s, e :: rest => C s e ∧ Along C (step s e) rest

instance along_decidable (C : σ → ε → Prop) [∀ s e, Decidable (C s e)] :
    ∀ s events, Decidable (Along step C s events)
  | _, [] => isTrue trivial
  | s, e :: rest => @instDecidableAnd _ _ _ (along_decidable C (step s e) rest)

@[simp] theorem run_nil (s : σ) : run step s [] = s := rfl

@[simp] theorem run_cons (s : σ) (e : ε) (rest : List ε) :
    run step s (e :: rest) = run step (step s e) rest := rfl

theorem run_append (s : σ) (first second : List ε) :
    run step s (first ++ second) = run step (run step s first) second :=
  List.foldl_append

@[simp] theorem along_nil (C : σ → ε → Prop) (s : σ) : Along step C s [] := trivial

@[simp] theorem along_cons (C : σ → ε → Prop) (s : σ) (e : ε) (rest : List ε) :
    Along step C s (e :: rest) ↔ C s e ∧ Along step C (step s e) rest := Iff.rfl

variable {step} {C D : σ → ε → Prop} {I : σ → Prop} {s : σ} {events : List ε}

/-- A condition on a run is a condition on each of its parts. -/
theorem along_append {first second : List ε} :
    Along step C s (first ++ second) ↔
      Along step C s first ∧ Along step C (run step s first) second := by
  induction first generalizing s with
  | nil => simp
  | cons e rest ih => simp only [List.cons_append, along_cons, run_cons, ih, and_assoc]

/-- A condition that every event meets in every state. -/
theorem along_of_mem (hC : ∀ e ∈ events, ∀ s, C s e) : Along step C s events := by
  induction events generalizing s with
  | nil => trivial
  | cons e rest ih =>
    rw [List.forall_mem_cons] at hC
    exact ⟨hC.1 s, ih hC.2⟩

theorem Along.mono (hCD : ∀ s e, C s e → D s e) (h : Along step C s events) :
    Along step D s events := by
  induction events generalizing s with
  | nil => trivial
  | cons e rest ih => exact ⟨hCD s e h.1, ih h.2⟩

theorem Along.and (hC : Along step C s events) (hD : Along step D s events) :
    Along step (fun s e => C s e ∧ D s e) s events := by
  induction events generalizing s with
  | nil => trivial
  | cons e rest ih => exact ⟨⟨hC.1, hD.1⟩, ih hC.2 hD.2⟩

/-- A condition on the events alone holds of every event. -/
theorem Along.forall_mem {D : ε → Prop} (h : Along step (fun _ e => D e) s events) :
    ∀ e ∈ events, D e := by
  induction events generalizing s with
  | nil => exact fun e he => by cases he
  | cons e rest ih => exact List.forall_mem_cons.2 ⟨h.1, ih h.2⟩

/-- **The induction over runs.** What holds at the start and is kept by
every step that meets the condition holds at the end. -/
theorem run_invariant (hstep : ∀ s e, I s → C s e → I (step s e)) (hs : I s)
    (h : Along step C s events) : I (run step s events) := by
  induction events generalizing s with
  | nil => exact hs
  | cons e rest ih => exact ih (hstep s e hs h.1) h.2

/-- **What holds all the way.** In a run that meets `D`, a step that meets
`C` keeps the invariant `I`, and one that does not breaks `U`, which is
part of it. So `U` holds of every state exactly if every step meets `C`. -/
theorem along_iff_target {U : σ → Prop} (hU : ∀ s, I s → U s)
    (hstep : ∀ s e, I s → D s e → C s e → I (step s e))
    (hback : ∀ s e, I s → D s e → U (step s e) → C s e) (hs : I s) (hD : Along step D s events) :
    (∀ first, first <+: events → U (run step s first)) ↔ Along step C s events := by
  induction events generalizing s with
  | nil =>
    refine ⟨fun _ => trivial, fun _ first hfirst => ?_⟩
    rw [List.prefix_nil.1 hfirst]
    exact hU s hs
  | cons e rest ih =>
    obtain ⟨hd, hD⟩ := hD
    constructor
    · intro h
      have hc : C s e := hback s e hs hd (h [e] (List.prefix_append [e] rest))
      refine ⟨hc, (ih (hstep s e hs hd hc) hD).1 fun first hfirst => ?_⟩
      exact h (e :: first) (List.cons_prefix_cons.2 ⟨rfl, hfirst⟩)
    · rintro ⟨hc, hrest⟩ first hfirst
      cases first with
      | nil => exact hU s hs
      | cons e' first =>
        obtain ⟨rfl, htail⟩ := List.cons_prefix_cons.1 hfirst
        exact (ih (hstep s e' hs hd hc) hD).2 hrest first htail

/-- The same where the invariant itself is what is asked for; `J` is what is
known of every state. -/
theorem along_iff_invariant {J : σ → Prop} (hJ : ∀ s e, J s → J (step s e))
    (hstep : ∀ s e, J s → I s → (I (step s e) ↔ C s e)) (hjs : J s) (hs : I s) :
    (∀ first, first <+: events → I (run step s first)) ↔ Along step C s events :=
  along_iff_target (D := fun _ _ => True) (I := fun s => J s ∧ I s) (fun _ h => h.2)
    (fun s e h _ hc => ⟨hJ s e h.1, (hstep s e h.1 h.2).2 hc⟩)
    (fun s e h _ hnext => (hstep s e h.1 h.2).1 hnext) ⟨hjs, hs⟩
    (along_of_mem fun _ _ _ => trivial)

/-! ## Machines that keep a record -/

section Projections

variable {τ : Type} {step' : τ → ε → τ} {proj : σ → τ}

/-- A machine that does more than another is seen to run like it. -/
theorem run_proj (h : ∀ s e, proj (step s e) = step' (proj s) e) (s : σ) (events : List ε) :
    proj (run step s events) = run step' (proj s) events := by
  induction events generalizing s with
  | nil => rfl
  | cons e rest ih => rw [run_cons, run_cons, ih, h]

theorem along_proj {C : τ → ε → Prop} (h : ∀ s e, proj (step s e) = step' (proj s) e) :
    Along step (fun s e => C (proj s) e) s events ↔ Along step' C (proj s) events := by
  induction events generalizing s with
  | nil => exact Iff.rfl
  | cons e rest ih => rw [along_cons, along_cons, ih, h]

end Projections

/-! ## Machines that reply -/

section Replies

variable {τ ω : Type}

/-- The state after a list of events, and the replies to them. -/
def replies (step : σ → ε → σ × ω) : σ → List ε → σ × List ω
  | s, [] => (s, [])
  | s, e :: rest =>
    ((replies step (step s e).1 rest).1, (step s e).2 :: (replies step (step s e).1 rest).2)

/-- **Simulation.** Where related states reply alike and stay related, whole
runs reply alike and end in related states. -/
theorem replies_simulate {first : σ → ε → σ × ω} {second : τ → ε → τ × ω} {R : σ → τ → Prop}
    (hstep : ∀ s t e, R s t → (first s e).2 = (second t e).2 ∧ R (first s e).1 (second t e).1)
    {s : σ} {t : τ} (h : R s t) (events : List ε) :
    (replies first s events).2 = (replies second t events).2 ∧
      R (replies first s events).1 (replies second t events).1 := by
  induction events generalizing s t with
  | nil => exact ⟨rfl, h⟩
  | cons e rest ih =>
    obtain ⟨hreply, hnext⟩ := hstep s t e h
    obtain ⟨hrest, hend⟩ := ih hnext
    refine ⟨?_, hend⟩
    rw [replies, replies, hreply, hrest]

variable {step : σ → ε → σ × ω} {hidden : ε → Bool}

/-- The state the replies leave is that of the run. -/
theorem replies_fst (s : σ) (events : List ε) :
    (replies step s events).1 = run (fun s e => (step s e).1) s events := by
  induction events generalizing s with
  | nil => rfl
  | cons e rest ih => exact ih (step s e).1

/-- The replies to a run are those to its parts. -/
theorem replies_append (s : σ) (first second : List ε) :
    replies step s (first ++ second) =
      ((replies step (replies step s first).1 second).1,
        (replies step s first).2 ++ (replies step (replies step s first).1 second).2) := by
  induction first generalizing s with
  | nil => rfl
  | cons e rest ih =>
    rw [List.cons_append, replies, ih]
    rfl

/-! ## Events left out -/

/-- The replies to the events that are not hidden. -/
def heard (step : σ → ε → σ × ω) (hidden : ε → Bool) : σ → List ε → List ω
  | _, [] => []
  | s, e :: rest =>
    if hidden e then heard step hidden (step s e).1 rest
    else (step s e).2 :: heard step hidden (step s e).1 rest

theorem heard_of_shown (hshown : ∀ e ∈ events, hidden e = false) (s : σ) :
    heard step hidden s events = (replies step s events).2 := by
  induction events generalizing s with
  | nil => rfl
  | cons e rest ih =>
    rw [List.forall_mem_cons] at hshown
    rw [heard, hshown.1, if_neg Bool.false_ne_true, ih hshown.2]
    rfl

/-- **Leaving events out.** Where a hidden event keeps its state related to
one that does not take it, and any other gets the same reply from related
states and keeps them related, the run without the hidden events replies as
the whole run does to the others. -/
theorem replies_hide {C : σ → ε → Prop} {R : σ → σ → Prop}
    (hhide : ∀ s t e, R s t → C s e → hidden e = true → R (step s e).1 t)
    (hshow : ∀ s t e, R s t → C s e → hidden e = false →
      (step t e).2 = (step s e).2 ∧ R (step s e).1 (step t e).1)
    {s t : σ} (h : R s t) (hrun : Along (fun s e => (step s e).1) C s events) :
    (replies step t (events.filter fun e => !hidden e)).2 = heard step hidden s events ∧
      R (replies step s events).1 (replies step t (events.filter fun e => !hidden e)).1 := by
  induction events generalizing s t with
  | nil => exact ⟨rfl, h⟩
  | cons e rest ih =>
    obtain ⟨hc, hrest⟩ := hrun
    cases he : hidden e with
    | true =>
      rw [List.filter_cons_of_neg (by simp [he]), heard, if_pos he]
      exact ih (hhide s t e h hc he) hrest
    | false =>
      obtain ⟨hreply, hnext⟩ := hshow s t e h hc he
      obtain ⟨hheard, hend⟩ := ih hnext hrest
      rw [List.filter_cons_of_pos (by simp [he]), heard, if_neg (by simp [he])]
      refine ⟨?_, hend⟩
      rw [replies, hreply, hheard]

end Replies

end Run

end Shoveler
