import Shoveler.Common.FloatBits
import Shoveler.Model.Search

/-!
# The nearest vectors

The search sorts the scored candidates by swaps and gives the first of
them. Where the distances are totally ordered, these are the nearest ones,
in order, whichever way the candidates came (`topK_correct`). Floats are,
as long as none of them is a NaN or the zero below zero
(`totallyOrdered_float`).
-/

namespace Shoveler

open Outcome List

namespace VectorSearch

variable {δ : Type} [LT δ]

/-! ## Orders -/

/-- **Distances that are totally ordered.** -/
structure TotallyOrdered (distances : List δ) : Prop where
  irrefl : ∀ a ∈ distances, ¬a < a
  trans : ∀ a ∈ distances, ∀ b ∈ distances, ∀ c ∈ distances, a < b → b < c → a < c
  connected : ∀ a ∈ distances, ∀ b ∈ distances, a < b ∨ a = b ∨ b < a

theorem TotallyOrdered.of_subset {distances distances' : List δ} (h : TotallyOrdered distances)
    (hsubset : distances' ⊆ distances) : TotallyOrdered distances' where
  irrefl := fun a ha => h.irrefl a (hsubset ha)
  trans := fun a ha b hb c hc => h.trans a (hsubset ha) b (hsubset hb) c (hsubset hc)
  connected := fun a ha b hb => h.connected a (hsubset ha) b (hsubset hb)

/-- Smaller by distance, and then by key. -/
def Smaller (a b : SearchResult δ) : Prop :=
  a.distance < b.distance ∨ a.distance = b.distance ∧ a.key < b.key

/-- **Floats are totally ordered** but for the NaNs and the second zero. -/
theorem totallyOrdered_float {distances : List Float}
    (hnumbers : ∀ d ∈ distances, FloatBits.isNaN d.toBits = false)
    (hzeros : ∀ d ∈ distances, d.toBits ≠ 0x8000000000000000) : TotallyOrdered distances where
  irrefl := fun a _ => FloatBits.lt_irrefl a
  trans := fun _ _ _ _ _ _ => FloatBits.lt_trans
  connected := by
    intro a ha b hb
    by_cases hab : a < b
    · exact .inl hab
    by_cases hba : b < a
    · exact .inr (.inr hba)
    rw [← Float.ofBits_toBits a, ← Float.ofBits_toBits b] at hab hba
    rcases (FloatBits.neither_less_iff _ _).1 ⟨hab, hba⟩ with hnan | hnan | heq | ⟨hzero, hzero'⟩
    · rw [hnumbers a ha] at hnan
      cases hnan
    · rw [hnumbers b hb] at hnan
      cases hnan
    · exact .inr (.inl (Float.toBits_inj.1 heq))
    · refine .inr (.inl (Float.toBits_inj.1 ?_))
      simp only [FloatBits.isZero, Bool.or_eq_true, beq_iff_eq] at hzero hzero'
      rw [hzero.resolve_right (hzeros a ha), hzero'.resolve_right (hzeros b hb)]

/-! ## The comparison -/

section Comparison

variable {scored : List (SearchResult δ)} {a b : SearchResult δ}

theorem TotallyOrdered.not_lt (h : TotallyOrdered (scored.map SearchResult.distance))
    (ha : a ∈ scored) (hb : b ∈ scored) (hlt : a.distance < b.distance) :
    ¬b.distance < a.distance := fun hlt' =>
  h.irrefl a.distance (mem_map_of_mem ha)
    (h.trans _ (mem_map_of_mem ha) _ (mem_map_of_mem hb) _ (mem_map_of_mem ha)
      hlt hlt')

theorem TotallyOrdered.smaller_asymm (h : TotallyOrdered (scored.map SearchResult.distance))
    (ha : a ∈ scored) (hb : b ∈ scored) (hab : Smaller a b) : ¬Smaller b a := by
  rintro (hlt | ⟨heq, hkey⟩)
  · rcases hab with hlt' | ⟨heq', -⟩
    · exact h.not_lt ha hb hlt' hlt
    · exact h.irrefl _ (mem_map_of_mem hb) (heq' ▸ hlt)
  · rcases hab with hlt' | ⟨-, hkey'⟩
    · exact h.irrefl _ (mem_map_of_mem hb) (heq ▸ hlt')
    · exact UInt64.lt_asymm hkey hkey'

/-- Of two results one is smaller, or they are the same. -/
theorem TotallyOrdered.eq_of_not_smaller (h : TotallyOrdered (scored.map SearchResult.distance))
    (ha : a ∈ scored) (hb : b ∈ scored) (hab : ¬Smaller a b) (hba : ¬Smaller b a) : a = b := by
  rw [Smaller, not_or, not_and] at hab hba
  rcases h.connected _ (mem_map_of_mem ha) _ (mem_map_of_mem hb) with hlt | heq | hlt
  · exact absurd hlt hab.1
  · have hkey : a.key = b.key :=
      UInt64.le_antisymm (UInt64.not_lt.1 (hba.2 heq.symm)) (UInt64.not_lt.1 (hab.2 heq))
    obtain ⟨key, distance⟩ := a
    obtain ⟨key', distance'⟩ := b
    simp only at heq hkey
    rw [heq, hkey]
  · exact absurd hlt hba.1

theorem TotallyOrdered.smaller_trans {c : SearchResult δ}
    (h : TotallyOrdered (scored.map SearchResult.distance)) (ha : a ∈ scored) (hb : b ∈ scored)
    (hc : c ∈ scored) (hab : Smaller a b) (hbc : Smaller b c) : Smaller a c := by
  rcases hab with hlt | ⟨heq, hkey⟩
  · rcases hbc with hlt' | ⟨heq', -⟩
    · exact .inl (h.trans _ (mem_map_of_mem ha) _ (mem_map_of_mem hb) _
        (mem_map_of_mem hc) hlt hlt')
    · exact .inl (heq' ▸ hlt)
  · rcases hbc with hlt' | ⟨heq', hkey'⟩
    · exact .inl (heq ▸ hlt')
    · exact .inr ⟨heq.trans heq', UInt64.lt_trans hkey hkey'⟩

variable [DecidableLT δ]

/-- **What comes after is what is greater.** -/
theorem TotallyOrdered.comesAfter_iff (h : TotallyOrdered (scored.map SearchResult.distance))
    (ha : a ∈ scored) (hb : b ∈ scored) : resultComesAfter a b = true ↔ Smaller b a := by
  unfold resultComesAfter Smaller
  rcases h.connected _ (mem_map_of_mem ha) _ (mem_map_of_mem hb) with hlt | heq | hlt
  · have hnot := h.not_lt ha hb hlt
    have hne : b.distance ≠ a.distance := fun he => hnot (he ▸ he ▸ hlt)
    simp [hnot, hlt, hne]
  · have hself := h.irrefl _ (mem_map_of_mem hb)
    simp [heq, hself]
  · simp [hlt]

/-- **The comparison orders the scored candidates.** -/
theorem TotallyOrdered.ordersBy (h : TotallyOrdered (scored.map SearchResult.distance)) :
    Swapping.OrdersBy resultComesAfter scored where
  asymm := by
    intro a ha b hb hafter
    rw [Bool.eq_false_iff, ne_eq, h.comesAfter_iff hb ha]
    exact h.smaller_asymm hb ha ((h.comesAfter_iff ha hb).1 hafter)
  trans := by
    intro a ha b hb c hc hab hbc
    rw [Bool.eq_false_iff, ne_eq, h.comesAfter_iff ha hb] at hab
    rw [Bool.eq_false_iff, ne_eq, h.comesAfter_iff hb hc] at hbc
    rw [Bool.eq_false_iff, ne_eq, h.comesAfter_iff ha hc]
    intro hca
    -- `c` is below `a`, and `b` cannot be anywhere
    by_cases hsame : Smaller a b
    · exact hbc (h.smaller_trans hc ha hb hca hsame)
    · exact hbc (h.eq_of_not_smaller ha hb hsame hab ▸ hca)

/-- A list of less than two results is sorted as it is. -/
theorem sortResults_eq (results : List (SearchResult δ)) :
    sortResults results = Swapping.sortInPlace resultComesAfter results := by
  unfold sortResults
  split
  · rename_i hshort
    have hloop : results.length - 1 = 0 := by omega
    rw [Swapping.sortInPlace, hloop]
    rfl
  · rfl

theorem perm_sortResults (results : List (SearchResult δ)) : (sortResults results).Perm results :=
  sortResults_eq results ▸ Swapping.perm_sortInPlace results

/-- **The scored candidates are sorted.** -/
theorem TotallyOrdered.sortResults (h : TotallyOrdered (scored.map SearchResult.distance)) :
    (sortResults scored).Pairwise fun a b => Smaller a b ∨ a = b := by
  have hsorted : Swapping.Sorted resultComesAfter (VectorSearch.sortResults scored) :=
    sortResults_eq scored ▸ Swapping.sorted_sortInPlace h.ordersBy
  refine hsorted.imp_of_mem fun {a b} ha hb hab => ?_
  rw [(perm_sortResults scored).mem_iff] at ha hb
  rw [Bool.eq_false_iff, ne_eq, h.comesAfter_iff ha hb] at hab
  by_cases hsame : Smaller a b
  · exact .inl hsame
  · exact .inr (h.eq_of_not_smaller ha hb hsame hab)

end Comparison

/-! ## The search -/

section Search

variable [DecidableLT δ] {score : List UInt32 → List UInt32 → Result δ} {query : List UInt32}
  {candidates candidates' : List Candidate} {scored : List (SearchResult δ)}

omit [LT δ] [DecidableLT δ] in
/-- Candidates in another order are scored in that order. -/
theorem scored_of_perm (hperm : candidates'.Perm candidates)
    (hscored : candidates.mapM (scoreCandidate score query) = .ok scored) :
    ∃ scored', candidates'.mapM (scoreCandidate score query) = .ok scored' ∧
      scored'.Perm scored := by
  obtain ⟨scored', hforall, hsame⟩ := perm_comp_forall₂ hperm (mapM_eq_ok.1 hscored)
  exact ⟨scored', mapM_eq_ok.2 hforall, hsame⟩

/-- The search as a whole, with the two ways to find nothing. -/
theorem topK_eq (hscored : candidates.mapM (scoreCandidate score query) = .ok scored) (limit : ℕ) :
    topK score query candidates limit = .ok ((sortResults scored).take limit) := by
  have hlength : scored.length = candidates.length := (mapM_eq_ok.1 hscored).length_eq.symm
  unfold topK
  split
  · rename_i hnothing
    rcases hnothing with rfl | hempty
    · rw [take_zero]
    · rw [isEmpty_iff.1 hempty] at hlength
      rw [length_eq_zero_iff.1 hlength]
      exact congrArg Except.ok take_nil.symm
  · have htake : (sortResults scored).take (min limit scored.length) =
        (sortResults scored).take limit := by
      rw [← (perm_sortResults scored).length_eq, ← take_take, take_length]
    rw [hscored, ok_bind, htake]
    rfl

end Search

/-- **The search is correct.** Where all distances are computed and are
totally ordered, it gives as many results as it may, sorted by distance and
then key; they are some of the scored candidates, and none of the others is
smaller than one of them. So the results do not depend on the order of the
candidates. -/
theorem topK_correct {δ : Type} [LT δ] [DecidableLT δ]
    {score : List UInt32 → List UInt32 → Result δ} {query : List UInt32}
    {candidates : List Candidate} {scored : List (SearchResult δ)}
    (hscored : candidates.mapM (scoreCandidate score query) = .ok scored)
    (hordered : TotallyOrdered (scored.map SearchResult.distance)) (limit : ℕ) :
    ∃ results others, topK score query candidates limit = .ok results ∧
      results.length = min limit candidates.length ∧
      (results.Pairwise fun a b => Smaller a b ∨ a = b) ∧
      (results ++ others).Perm scored ∧
      (∀ result ∈ results, ∀ other ∈ others, ¬Smaller other result) ∧
      ∀ candidates', candidates'.Perm candidates →
        topK score query candidates' limit = .ok results := by
  have hperm := perm_sortResults scored
  have hsorted := hordered.sortResults
  have hlength : scored.length = candidates.length := (mapM_eq_ok.1 hscored).length_eq.symm
  refine ⟨(sortResults scored).take limit, (sortResults scored).drop limit, topK_eq hscored limit,
    ?_, hsorted.sublist (take_sublist _ _), ?_, ?_, ?_⟩
  · rw [length_take, hperm.length_eq, hlength]
  · rw [take_append_drop]
    exact hperm
  · intro result hresult other hother hsmaller
    rw [← take_append_drop limit (sortResults scored)] at hsorted
    have hresult' : result ∈ scored := hperm.subset (mem_of_mem_take hresult)
    have hother' : other ∈ scored := hperm.subset (mem_of_mem_drop hother)
    rcases (pairwise_append.1 hsorted).2.2 result hresult other hother with hless | rfl
    · exact hordered.smaller_asymm hresult' hother' hless hsmaller
    · exact hordered.smaller_asymm hresult' hresult' hsmaller hsmaller
  · intro candidates' hcandidates
    obtain ⟨scored', hscored', hsame⟩ := scored_of_perm hcandidates hscored
    have hordered' : TotallyOrdered (scored'.map SearchResult.distance) :=
      hordered.of_subset (hsame.map _).subset
    have hperm' := perm_sortResults scored'
    -- sorted lists of the same results are the same list
    have heq : sortResults scored' = sortResults scored := by
      refine List.Perm.eq_of_pairwise (fun a b ha hb hab hba => ?_) hordered'.sortResults hsorted
        (hperm'.trans (hsame.trans hperm.symm))
      rcases hab with hab | rfl
      · rcases hba with hba | rfl
        · exact absurd hba (hordered'.smaller_asymm (hperm'.subset ha)
            (hsame.mem_iff.2 (hperm.subset hb)) hab)
        · rfl
      · rfl
    rw [topK_eq hscored' limit, heq]

/-- Two candidates at distance 1 from the origin, and a farther one. -/
def tiedCandidates : List Candidate :=
  [⟨2, [0x3f800000, 0]⟩, ⟨3, [0, 0x40000000]⟩, ⟨1, [0xbf800000, 0]⟩]

/-- The tie is broken by the key, also where the candidates come the other
way round. -/
theorem topK_correct_tied :
    (topK (score .squaredL2) [0, 0] tiedCandidates 2).map (List.map SearchResult.key) =
        .ok [1, 2] ∧
      topK (score .squaredL2) [0, 0] tiedCandidates.reverse 2 =
        topK (score .squaredL2) [0, 0] tiedCandidates 2 := by
  have hbits : (tiedCandidates.mapM (scoreCandidate (score .squaredL2) [0, 0])).map
      (map fun r => (r.key, r.distance.toBits)) =
        .ok [(2, 0x3ff0000000000000), (3, 0x4010000000000000), (1, 0x3ff0000000000000)] := by
    decide +kernel
  refine ⟨by decide +kernel, ?_⟩
  cases hscored : tiedCandidates.mapM (scoreCandidate (score .squaredL2) [0, 0]) with
  | error e =>
    rw [hscored] at hbits
    cases hbits
  | ok scored =>
    have hdistances : ∀ d ∈ scored.map SearchResult.distance,
        d.toBits = 0x3ff0000000000000 ∨ d.toBits = 0x4010000000000000 := by
      intro d hd
      obtain ⟨r, hr, rfl⟩ := mem_map.1 hd
      rw [hscored] at hbits
      have hmem := mem_map_of_mem (f := fun r => (r.key, r.distance.toBits)) hr
      rw [Except.ok.inj hbits] at hmem
      simp only [mem_cons, Prod.mk.injEq, not_mem_nil, or_false] at hmem
      rcases hmem with ⟨-, h⟩ | ⟨-, h⟩ | ⟨-, h⟩
      · exact .inl h
      · exact .inr h
      · exact .inl h
    have hordered : TotallyOrdered (scored.map SearchResult.distance) := by
      refine totallyOrdered_float (fun d hd => ?_) fun d hd => ?_
      · rcases hdistances d hd with h | h <;> rw [h] <;> decide +kernel
      · rcases hdistances d hd with h | h <;> rw [h] <;> decide +kernel
    obtain ⟨results, -, hresults, -, -, -, -, hany⟩ := topK_correct hscored hordered 2
    rw [hany _ (reverse_perm _), hresults]

end VectorSearch

end Shoveler
