import Mathlib.Algebra.BigOperators.Group.List.Basic
import Mathlib.Algebra.Ring.Nat
import Shoveler.Common.Run
import Shoveler.Model.Overlay

/-!
# Draining the overlay

A drain takes deltas out of the list it walks over: the index stands still
where one is taken and moves on where one stays (`drainScan`). What comes
of it can be said place by place. The deltas that are ready are taken from
the front until there is no room left, and all others stay, both in their
order (`drainLoop_eq`, `drained_eq_take`). So every drain goes on where the one
before it has stopped, and drains repeated until they give nothing have
taken together what one drain without a bound takes
(`drain_splits_in_order`).
-/

namespace Shoveler

open List

namespace Overlay

/-! ## The loop with its index -/

/-- The loop of `drainReady`, with the index into the list that it takes
the deltas out of. -/
def drainScan (throughGeneration : Generation) (maxCount index : ℕ) (deltas drained : List Delta) :
    List Delta × List Delta :=
  if h : index < deltas.length ∧ drained.length < maxCount then
    if (deltas.get ⟨index, h.1⟩).generation > throughGeneration then
      drainScan throughGeneration maxCount (index + 1) deltas drained
    else
      drainScan throughGeneration maxCount index (deltas.eraseIdx index)
        (drained ++ [deltas.get ⟨index, h.1⟩])
  else (drained, deltas)
termination_by deltas.length - index
decreasing_by
  · omega
  · rw [length_eraseIdx_of_lt h.1]
    omega

/-- A delta that may be drained. -/
def isReady (g : Generation) (delta : Delta) : Bool := decide (delta.generation ≤ g)

section Loop

variable {g : Generation} {m : ℕ} {delta : Delta}

theorem drainLoop_zero (deltas : List Delta) : drainLoop g 0 deltas = ([], deltas) := by
  cases deltas <;> rfl

theorem drainLoop_ready (h : isReady g delta = true) (deltas : List Delta) :
    drainLoop g (m + 1) (delta :: deltas) =
      (delta :: (drainLoop g m deltas).1, (drainLoop g m deltas).2) :=
  if_neg (Nat.not_lt.2 (of_decide_eq_true h))

theorem drainLoop_unready (h : isReady g delta = false) (deltas : List Delta) :
    drainLoop g (m + 1) (delta :: deltas) =
      ((drainLoop g (m + 1) deltas).1, delta :: (drainLoop g (m + 1) deltas).2) :=
  if_pos (Nat.lt_of_not_le (of_decide_eq_false h))

/-- Nothing is read before the index, nor behind the last delta that is
taken. -/
theorem drainScan_append (before rest drained : List Delta) :
    drainScan g m before.length (before ++ rest) drained =
      (drained ++ (drainLoop g (m - drained.length) rest).1,
        before ++ (drainLoop g (m - drained.length) rest).2) := by
  induction rest generalizing before drained with
  | nil =>
    have hend : ¬(before.length < (before ++ []).length ∧ drained.length < m) := by simp
    rw [drainScan, dif_neg hend]
    cases m - drained.length <;> simp [drainLoop]
  | cons delta rest ih =>
    rw [drainScan]
    by_cases hroom : drained.length < m
    · have hget : (before ++ delta :: rest).get ⟨before.length, by simp⟩ = delta := by simp
      obtain ⟨room, hroom'⟩ : ∃ room, m - drained.length = room + 1 :=
        ⟨m - drained.length - 1, by omega⟩
      rw [dif_pos ⟨by simp, hroom⟩, hget, hroom']
      by_cases hready : delta.generation ≤ g
      · -- the delta is taken, and the next one moves up to the index
        have hnext := ih before (drained ++ [delta])
        have hleft : m - (drained ++ [delta]).length = room := by
          rw [length_append, length_singleton]
          omega
        rw [hleft, append_assoc, singleton_append] at hnext
        rw [if_neg (Nat.not_lt.2 hready), drainLoop_ready (decide_eq_true hready),
          eraseIdx_append_of_length_le (Nat.le_refl _), Nat.sub_self,
          eraseIdx_cons_zero]
        exact hnext
      · -- the delta stays, and the index moves behind it
        have hnext := ih (before ++ [delta]) drained
        rw [length_append, append_assoc, append_assoc, hroom'] at hnext
        rw [if_pos (Nat.lt_of_not_le hready), drainLoop_unready (decide_eq_false hready)]
        exact hnext
    · have hfull : m - drained.length = 0 := by omega
      rw [dif_neg fun h => hroom h.2, hfull, drainLoop_zero, append_nil]

/-- **The loop with its index drains what the model says.** -/
theorem drainReady_eq_scan (overlay : Overlay) :
    overlay.drainReady g m =
      ((drainScan g m 0 overlay.deltas []).1, ⟨(drainScan g m 0 overlay.deltas []).2⟩) := by
  have hscan := @drainScan_append g m [] overlay.deltas []
  rw [length_nil, nil_append, Nat.sub_zero, nil_append, nil_append] at hscan
  rw [hscan]
  rfl

end Loop

/-! ## One drain -/

/-- **The places that are drained**: a delta that is ready stands there, and
before it fewer than the bound. -/
def isDrained (g : Generation) (m : ℕ) (deltas : List Delta) (i : ℕ) : Bool :=
  deltas[i]?.any (isReady g) && decide ((deltas.take i).countP (isReady g) < m)

/-- What stands at the places with a property, in order. -/
def atPlaces (p : ℕ → Bool) (deltas : List Delta) : List Delta :=
  (deltas.zipIdx.filter fun place => p place.2).map Prod.fst

section Places

variable {g : Generation} {m : ℕ} {delta : Delta} {deltas : List Delta}

theorem atPlaces_cons (p : ℕ → Bool) :
    atPlaces p (delta :: deltas) =
      (if p 0 = true then [delta] else []) ++ atPlaces (fun i => p (i + 1)) deltas := by
  have hrest : ((deltas.zipIdx 1).filter fun place => p place.2).map Prod.fst =
      atPlaces (fun i => p (i + 1)) deltas := by
    rw [atPlaces, zipIdx_succ, filter_map, map_map]
    rfl
  rw [atPlaces, zipIdx_cons, filter_cons, ← hrest]
  cases p 0 <;> rfl

theorem isDrained_zero : isDrained g 0 deltas = fun _ => false := by
  funext i
  exact Bool.and_false _

/-- Behind a delta that is ready there is room for one less. -/
theorem isDrained_ready (h : isReady g delta = true) (i : ℕ) :
    isDrained g (m + 1) (delta :: deltas) (i + 1) = isDrained g m deltas i := by
  unfold isDrained
  simp only [getElem?_cons_succ, take_succ_cons, countP_cons_of_pos h,
    Nat.add_lt_add_iff_right]

theorem isDrained_unready (h : isReady g delta = false) (i : ℕ) :
    isDrained g m (delta :: deltas) (i + 1) = isDrained g m deltas i := by
  have hnot : ¬isReady g delta = true := by simp [h]
  unfold isDrained
  simp only [getElem?_cons_succ, take_succ_cons, countP_cons_of_neg hnot]

/-- **A drain splits the overlay** into what stands at the drained places
and what stands at the others. -/
theorem drainLoop_eq (m : ℕ) (deltas : List Delta) :
    drainLoop g m deltas =
      (atPlaces (isDrained g m deltas) deltas,
        atPlaces (fun i => !isDrained g m deltas i) deltas) := by
  induction deltas generalizing m with
  | nil => cases m <;> rfl
  | cons delta deltas ih =>
    cases m with
    | zero =>
      rw [drainLoop_zero, isDrained_zero]
      simp [atPlaces]
    | succ room =>
      rw [atPlaces_cons, atPlaces_cons]
      cases hready : isReady g delta with
      | true =>
        have hhere : isDrained g (room + 1) (delta :: deltas) 0 = true := by
          simp [isDrained, hready]
        rw [drainLoop_ready hready, ih room, hhere]
        simp only [isDrained_ready hready]
        rfl
      | false =>
        have hhere : isDrained g (room + 1) (delta :: deltas) 0 = false := by
          simp [isDrained, hready]
        rw [drainLoop_unready hready, ih (room + 1), hhere]
        simp only [isDrained_unready hready]
        rfl

end Places

/-! ## What is ready -/

section Ready

variable {g : Generation}

/-- **A drain takes the first that are ready.** -/
theorem drained_eq_take (m : ℕ) (deltas : List Delta) :
    (drainLoop g m deltas).1 = (deltas.filter (isReady g)).take m := by
  induction deltas generalizing m with
  | nil => cases m <;> rfl
  | cons delta deltas ih =>
    cases m with
    | zero => rw [drainLoop_zero, take_zero]
    | succ room =>
      cases hready : isReady g delta with
      | true => rw [drainLoop_ready hready, filter_cons_of_pos hready, take_succ_cons, ih]
      | false =>
        rw [drainLoop_unready hready, filter_cons_of_neg (by simp [hready]), ih]

/-- It leaves those that are ready behind them. -/
theorem filter_remaining (m : ℕ) (deltas : List Delta) :
    (drainLoop g m deltas).2.filter (isReady g) = (deltas.filter (isReady g)).drop m := by
  induction deltas generalizing m with
  | nil => cases m <;> rfl
  | cons delta deltas ih =>
    cases m with
    | zero => rw [drainLoop_zero, drop_zero]
    | succ room =>
      cases hready : isReady g delta with
      | true => rw [drainLoop_ready hready, filter_cons_of_pos hready, drop_succ_cons, ih]
      | false =>
        have hnot : ¬isReady g delta = true := by simp [hready]
        rw [drainLoop_unready hready, filter_cons_of_neg hnot, filter_cons_of_neg hnot, ih]

/-- And all that are not. -/
theorem filter_not_remaining (m : ℕ) (deltas : List Delta) :
    (drainLoop g m deltas).2.filter (fun d => !isReady g d) =
      deltas.filter fun d => !isReady g d := by
  induction deltas generalizing m with
  | nil => cases m <;> rfl
  | cons delta deltas ih =>
    cases m with
    | zero => rw [drainLoop_zero]
    | succ room =>
      cases hready : isReady g delta with
      | true =>
        rw [drainLoop_ready hready, filter_cons, hready, ih]
        rfl
      | false =>
        rw [drainLoop_unready hready, filter_cons, filter_cons, hready, ih]

/-- **Where nothing is left that is ready**, the others are what there
is. -/
theorem eq_filter_not {deltas : List Delta} (h : deltas.filter (isReady g) = []) :
    deltas = deltas.filter fun d => !isReady g d := by
  refine (filter_eq_self.2 fun d hd => ?_).symm
  have hnot := filter_eq_nil_iff.1 h d hd
  simpa using hnot

end Ready

/-! ## Repeated drains -/

/-- A drain as a step: the overlay it leaves, and the deltas it gives. -/
def drainStep (g : Generation) (self : Overlay) (m : ℕ) : Overlay × List Delta :=
  ((self.drainReady g m).2, (self.drainReady g m).1)

/-- The overlay behind drains with these bounds, and the deltas of each. -/
def drains (g : Generation) (self : Overlay) (bounds : List ℕ) : Overlay × List (List Delta) :=
  Run.replies (drainStep g) self bounds

section Drains

variable {g : Generation}

/-- **Drains take the first that are ready, as many as their bounds allow
together**, and keep the rest. -/
theorem drains_spec (self : Overlay) (bounds : List ℕ) :
    (drains g self bounds).2.flatten = (self.deltas.filter (isReady g)).take bounds.sum ∧
      (drains g self bounds).1.deltas.filter (isReady g) =
        (self.deltas.filter (isReady g)).drop bounds.sum ∧
      (drains g self bounds).1.deltas.filter (fun d => !isReady g d) =
        self.deltas.filter fun d => !isReady g d := by
  induction bounds generalizing self with
  | nil => exact ⟨rfl, rfl, rfl⟩
  | cons m bounds ih =>
    obtain ⟨htaken, hready, hkept⟩ := ih (self.drainReady g m).2
    have hfirst : (self.drainReady g m).1 = (self.deltas.filter (isReady g)).take m :=
      drained_eq_take m self.deltas
    have hleft : (self.drainReady g m).2.deltas.filter (isReady g) =
        (self.deltas.filter (isReady g)).drop m := filter_remaining m self.deltas
    have hothers : (self.drainReady g m).2.deltas.filter (fun d => !isReady g d) =
        self.deltas.filter fun d => !isReady g d := filter_not_remaining m self.deltas
    refine ⟨?_, ?_, hkept.trans hothers⟩
    · rw [hleft] at htaken
      rw [sum_cons, take_add, ← hfirst, ← htaken]
      rfl
    · rw [hleft, drop_drop] at hready
      rw [sum_cons]
      exact hready

end Drains

/-- **A drain is a split that keeps the order.** It gives the first deltas
whose generation is not beyond the bound, as many as it may, and leaves the
overlay without them. Drains with the same generation, repeated until one
gives nothing, give together what one drain without a bound gives and leave
the same overlay; and they come to that end. -/
theorem drain_splits_in_order (self : Overlay) (g : Generation) :
    (∀ m, (self.drainReady g m).1 = (self.deltas.filter (isReady g)).take m ∧
        (self.drainReady g m).1 = atPlaces (isDrained g m self.deltas) self.deltas ∧
        (self.drainReady g m).2.deltas =
          atPlaces (fun i => !isDrained g m self.deltas i) self.deltas) ∧
      (∀ bounds m unbounded, 1 ≤ m → self.deltas.length ≤ unbounded →
        ((drains g self bounds).1.drainReady g m).1 = [] →
          (drains g self bounds).2.flatten = (self.drainReady g unbounded).1 ∧
            (drains g self bounds).1 = (self.drainReady g unbounded).2) ∧
      ∀ bounds m, (∀ bound ∈ bounds, 1 ≤ bound) → self.deltas.length ≤ bounds.length →
        ((drains g self bounds).1.drainReady g m).1 = [] := by
  refine ⟨fun m => ⟨drained_eq_take m self.deltas, ?_, ?_⟩, ?_, ?_⟩
  · exact congrArg Prod.fst (drainLoop_eq m self.deltas)
  · exact congrArg Prod.snd (drainLoop_eq m self.deltas)
  · intro bounds m unbounded hm hunbounded hnothing
    obtain ⟨htaken, hready, hkept⟩ := @drains_spec g self bounds
    have hnext : ((drains g self bounds).1.drainReady g m).1 =
        ((drains g self bounds).1.deltas.filter (isReady g)).take m := drained_eq_take m _
    -- a drain gives nothing only if nothing is ready
    have hend : (self.deltas.filter (isReady g)).drop bounds.sum = [] := by
      rw [← hready]
      rw [hnothing, eq_comm, take_eq_nil_iff] at hnext
      exact hnext.resolve_left (by omega)
    have hall : (self.deltas.filter (isReady g)).length ≤ unbounded :=
      Nat.le_trans (length_filter_le _ _) hunbounded
    have hfull : (self.drainReady g unbounded).2.deltas.filter (isReady g) = [] := by
      have hleft : (self.drainReady g unbounded).2.deltas = (drainLoop g unbounded self.deltas).2 :=
        rfl
      rw [hleft, filter_remaining, drop_of_length_le hall]
    constructor
    · have hgiven : (self.drainReady g unbounded).1 = _ := drained_eq_take unbounded self.deltas
      rw [htaken, hgiven, take_of_length_le hall, take_of_length_le (drop_eq_nil_iff.1 hend)]
    · have hsame : (drains g self bounds).1.deltas = (self.drainReady g unbounded).2.deltas := by
        rw [eq_filter_not (hready.trans hend), hkept, eq_filter_not hfull]
        exact (filter_not_remaining unbounded self.deltas).symm
      exact congrArg Overlay.mk hsame
  · intro bounds m hbounds hlength
    obtain ⟨-, hready, -⟩ := @drains_spec g self bounds
    have hsum : bounds.length ≤ bounds.sum := length_le_sum_of_one_le bounds hbounds
    have hend : (self.deltas.filter (isReady g)).drop bounds.sum = [] := by
      refine drop_of_length_le ?_
      exact Nat.le_trans (length_filter_le _ _) (Nat.le_trans hlength hsum)
    rw [show ((drains g self bounds).1.drainReady g m).1 = _ from drained_eq_take m _, hready, hend,
      take_nil]

/-- Two deltas that are ready, and one of a later generation between
them. -/
def mixedOverlay : Overlay :=
  ⟨[⟨1, ascii "A", ascii "v", 1, []⟩, ⟨3, ascii "A", ascii "v", 2, []⟩,
    ⟨2, ascii "A", ascii "v", 3, []⟩]⟩

/-- One at a time, the two that are ready are drained and the other stays. -/
theorem drain_splits_in_order_mixed :
    (drains 2 mixedOverlay [1, 1]).2.flatten.map Delta.rowId = [1, 3] ∧
      (drains 2 mixedOverlay [1, 1]).2.flatten = (mixedOverlay.drainReady 2 3).1 ∧
      (drains 2 mixedOverlay [1, 1]).1 = (mixedOverlay.drainReady 2 3).2 := by
  refine ⟨by decide, ?_⟩
  exact (drain_splits_in_order mixedOverlay 2).2.1 [1, 1] 1 3 (by decide) (by decide) (by decide)

end Overlay

end Shoveler
