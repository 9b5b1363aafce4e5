import Mathlib.Data.List.Induction
import Mathlib.Data.List.Lattice
import Mathlib.Data.List.Nodup

/-!
# Grouping by first fit

Elements are taken one after the other. Each joins the first group whose
key is taken for the same as its own, or else opens a group of its own at
the end (`insert`). Whatever the comparison of keys is, the groups are
made of the elements, each in one of them, in their order, and the groups
stand in the order of their first elements (`Grouped`). Two elements are
in one group exactly when their keys are equal, where the comparison tells
the keys of different elements apart (`Grouped.together_iff`), and only
there (`Grouped.same_iff`).
-/

namespace Shoveler

open List

namespace Grouping

variable {α κ : Type} (same : κ → κ → Bool) (key : α → κ)

/-- One element more. -/
def insert (k : κ) (a : α) : List (κ × List α) → List (κ × List α)
  | [] => [(k, [a])]
  | group :: groups =>
    if same group.1 k then (group.1, group.2 ++ [a]) :: groups else group :: insert k a groups

/-- All elements of a list. -/
def groupAll (l : List α) : List (κ × List α) :=
  l.foldl (fun groups a => insert same (key a) a groups) []

/-- **A new element joins the first group that fits, or opens one.** -/
theorem insert_cases (k : κ) (a : α) (groups : List (κ × List α)) :
    (∃ before group after, groups = before ++ group :: after ∧
        (∀ g ∈ before, same g.1 k = false) ∧ same group.1 k = true ∧
        insert same k a groups = before ++ (group.1, group.2 ++ [a]) :: after) ∨
      (∀ g ∈ groups, same g.1 k = false) ∧ insert same k a groups = groups ++ [(k, [a])] := by
  induction groups with
  | nil => exact .inr ⟨fun g hg => absurd hg not_mem_nil, rfl⟩
  | cons group groups ih =>
    by_cases hsame : same group.1 k = true
    · refine .inl ⟨[], group, groups, rfl, fun g hg => absurd hg not_mem_nil, hsame, ?_⟩
      rw [insert, if_pos hsame]
      rfl
    · have hstep : insert same k a (group :: groups) = group :: insert same k a groups := by
        rw [insert, if_neg hsame]
      have hother : same group.1 k = false := Bool.not_eq_true _ ▸ hsame
      rcases ih with ⟨before, g, after, rfl, hbefore, hg, hinsert⟩ | ⟨hnone, hinsert⟩
      · refine .inl ⟨group :: before, g, after, rfl, forall_mem_cons.2 ⟨hother, hbefore⟩, hg, ?_⟩
        rw [hstep, hinsert]
        rfl
      · refine .inr ⟨forall_mem_cons.2 ⟨hother, hnone⟩, ?_⟩
        rw [hstep, hinsert]
        rfl

/-- **The groups of a list**: its elements, each in one group; in every
group they stand in their order, the first of them with the key of the
group and the others taken for the same; the groups stand in the order of
their first elements, and an element fits no group before its own. -/
structure Grouped (l : List α) (groups : List (κ × List α)) : Prop where
  perm : (groups.flatMap Prod.snd).Perm l
  sublist : ∀ g ∈ groups, g.2.Sublist l
  first : ∀ g ∈ groups, ∃ a rest, g.2 = a :: rest ∧ key a = g.1 ∧
    ∀ b ∈ rest, same g.1 (key b) = true
  heads : (groups.filterMap fun g => g.2.head?).Sublist l
  apart : groups.Pairwise fun g g' => ∀ a ∈ g'.2, same g.1 (key a) = false

variable {same key} {l : List α} {groups : List (κ × List α)}

theorem Grouped.nil : Grouped same key [] [] where
  perm := .refl _
  sublist := fun _ hg => absurd hg not_mem_nil
  first := fun _ hg => absurd hg not_mem_nil
  heads := .refl _
  apart := .nil

/-- An element that joins the first group it fits. -/
theorem Grouped.joins {before after : List (κ × List α)} {group : κ × List α}
    (h : Grouped same key l (before ++ group :: after)) {a : α}
    (hbefore : ∀ g ∈ before, same g.1 (key a) = false) (hsame : same group.1 (key a) = true) :
    Grouped same key (l ++ [a]) (before ++ (group.1, group.2 ++ [a]) :: after) := by
  have hold := h.sublist
  have hfirst := h.first
  have happart := h.apart
  rw [forall_mem_append, forall_mem_cons] at hold hfirst
  rw [pairwise_append, pairwise_cons] at happart
  obtain ⟨b, rest, hgroup, hkey, hrest⟩ := hfirst.2.1
  constructor
  · -- the element goes to the end of its group, and on to the end of the list
    have hperm := h.perm
    simp only [flatMap_append, flatMap_cons, append_assoc] at hperm ⊢
    have hmove : ((group.2 ++ ([a] ++ after.flatMap Prod.snd))).Perm
        (group.2 ++ after.flatMap Prod.snd ++ [a]) := by
      rw [append_assoc]
      exact List.Perm.append_left _ perm_append_comm
    refine (List.Perm.append_left _ hmove).trans ?_
    rw [← append_assoc]
    exact hperm.append_right [a]
  · have hkept : ∀ g : κ × List α, g.2.Sublist l → g.2.Sublist (l ++ [a]) := fun g hg =>
      hg.trans (sublist_append_left l [a])
    rw [forall_mem_append, forall_mem_cons]
    exact ⟨fun g hg => hkept g (hold.1 g hg), hold.2.1.append_right [a],
      fun g hg => hkept g (hold.2.2 g hg)⟩
  · rw [forall_mem_append, forall_mem_cons]
    refine ⟨hfirst.1, ⟨b, rest ++ [a], ?_, hkey, ?_⟩, hfirst.2.2⟩
    · rw [hgroup]
      rfl
    · exact forall_mem_append.2 ⟨hrest, forall_mem_singleton.2 hsame⟩
  · have hheads := h.heads
    have hhead : (group.2 ++ [a]).head? = group.2.head? := by
      rw [hgroup]
      rfl
    simp only [filterMap_append, filterMap_cons, hhead] at hheads ⊢
    exact hheads.trans (sublist_append_left l [a])
  · rw [pairwise_append, pairwise_cons]
    refine ⟨happart.1, ⟨happart.2.1.1, happart.2.1.2⟩, fun g hg => ?_⟩
    have hlater := happart.2.2 g hg
    rw [forall_mem_cons] at hlater ⊢
    refine ⟨forall_mem_append.2 ⟨hlater.1, ?_⟩, hlater.2⟩
    exact forall_mem_singleton.2 (hbefore g hg)

/-- An element that fits no group and opens one. -/
theorem Grouped.opens (h : Grouped same key l groups) {a : α}
    (hnone : ∀ g ∈ groups, same g.1 (key a) = false) :
    Grouped same key (l ++ [a]) (groups ++ [(key a, [a])]) := by
  constructor
  · rw [flatMap_append]
    exact h.perm.append (.refl _)
  · refine forall_mem_append.2 ⟨fun g hg => ?_, forall_mem_singleton.2 ?_⟩
    · exact (h.sublist g hg).trans (sublist_append_left l [a])
    · exact sublist_append_right l [a]
  · refine forall_mem_append.2 ⟨h.first, forall_mem_singleton.2 ?_⟩
    exact ⟨a, [], rfl, rfl, fun b hb => absurd hb not_mem_nil⟩
  · rw [filterMap_append]
    exact h.heads.append (.refl _)
  · rw [pairwise_append]
    refine ⟨h.apart, pairwise_singleton _ _, fun g hg g' hg' b hb => ?_⟩
    obtain rfl := mem_singleton.1 hg'
    obtain rfl := mem_singleton.1 hb
    exact hnone g hg

/-- **One element more keeps the groups what they are.** -/
theorem Grouped.insert (h : Grouped same key l groups) (a : α) :
    Grouped same key (l ++ [a]) (insert same (key a) a groups) := by
  rcases insert_cases same (key a) a groups with
    ⟨before, group, after, rfl, hbefore, hsame, hinsert⟩ | ⟨hnone, hinsert⟩
  · rw [hinsert]
    exact h.joins hbefore hsame
  · rw [hinsert]
    exact h.opens hnone

/-- **So all elements are grouped.** -/
theorem grouped_groupAll (same : κ → κ → Bool) (key : α → κ) (l : List α) :
    Grouped same key l (groupAll same key l) := by
  induction l using reverseRecOn with
  | nil => exact .nil
  | append_singleton l a ih =>
    rw [groupAll, foldl_append]
    exact ih.insert a

/-! ## What is in one group -/

theorem Grouped.exists_group (h : Grouped same key l groups) {a : α} (ha : a ∈ l) :
    ∃ g ∈ groups, a ∈ g.2 :=
  mem_flatMap.1 (h.perm.mem_iff.2 ha)

theorem Grouped.disjoint (h : Grouped same key l groups) (hnodup : l.Nodup) :
    groups.Pairwise fun g g' => g.2.Disjoint g'.2 :=
  (nodup_flatMap.1 (h.perm.nodup_iff.2 hnodup)).2

/-- Where the comparison tells the keys of two elements apart, all elements
of a group have its key. -/
theorem Grouped.key_eq (h : Grouped same key l groups)
    (hkeys : ∀ a ∈ l, ∀ b ∈ l, a ≠ b → (same (key a) (key b) = true ↔ key a = key b))
    {g : κ × List α} (hg : g ∈ groups) {a : α} (ha : a ∈ g.2) : key a = g.1 := by
  obtain ⟨b, rest, hgroup, hkey, hrest⟩ := h.first g hg
  by_cases heq : a = b
  · rw [heq, hkey]
  · have hmem := ha
    rw [hgroup] at hmem
    have hsame := hrest a (mem_of_ne_of_mem heq hmem)
    have hb : b ∈ g.2 := by
      rw [hgroup]
      exact mem_cons_self
    have hsub := h.sublist g hg
    rw [← hkey] at hsame
    rw [← hkey, (hkeys b (hsub.subset hb) a (hsub.subset ha) (Ne.symm heq)).1 hsame]

/-- **Two elements are in one group exactly when their keys are equal**,
where the comparison tells the keys of different elements apart. -/
theorem Grouped.together_iff (h : Grouped same key l groups)
    (hkeys : ∀ a ∈ l, ∀ b ∈ l, a ≠ b → (same (key a) (key b) = true ↔ key a = key b))
    {a b : α} (ha : a ∈ l) (hb : b ∈ l) :
    (∃ g ∈ groups, a ∈ g.2 ∧ b ∈ g.2) ↔ key a = key b := by
  constructor
  · rintro ⟨g, hg, hag, hbg⟩
    rw [h.key_eq hkeys hg hag, h.key_eq hkeys hg hbg]
  · intro heq
    obtain ⟨g, hg, hag⟩ := h.exists_group ha
    obtain ⟨g', hg', hbg'⟩ := h.exists_group hb
    -- the later of two groups would not have taken its element
    have hlater : ∀ g ∈ groups, ∀ c ∈ l, ∀ d ∈ l, c ∈ g.2 → d ∉ g.2 → key c = key d →
        same g.1 (key d) = true := by
      intro g hg c hc d hd hcg hdg hcd
      obtain ⟨e, rest, hgroup, hkey, -⟩ := h.first g hg
      have heg : e ∈ g.2 := by
        rw [hgroup]
        exact mem_cons_self
      have hne : e ≠ d := fun h => hdg (h ▸ heg)
      rw [← hkey]
      refine (hkeys e ((h.sublist g hg).subset heg) d hd hne).2 ?_
      rw [hkey, ← hcd, h.key_eq hkeys hg hcg]
    by_cases hbg : b ∈ g.2
    · exact ⟨g, hg, hag, hbg⟩
    · by_cases hag' : a ∈ g'.2
      · exact ⟨g', hg', hag', hbg'⟩
      · obtain ⟨i, hi, rfl⟩ := mem_iff_getElem.1 hg
        obtain ⟨j, hj, rfl⟩ := mem_iff_getElem.1 hg'
        rcases Nat.lt_trichotomy i j with hij | rfl | hij
        · have hfalse := pairwise_iff_getElem.1 h.apart i j hi hj hij b hbg'
          rw [hlater _ hg a ha b hb hag hbg heq] at hfalse
          cases hfalse
        · exact absurd hbg' hbg
        · have hfalse := pairwise_iff_getElem.1 h.apart j i hj hi hij a hag
          rw [hlater _ hg' b hb a ha hbg' hag' heq.symm] at hfalse
          cases hfalse

/-- **And only there**: where two elements are in one group exactly when
their keys are equal, the comparison tells the keys of different elements
apart. -/
theorem Grouped.same_iff (h : Grouped same key l groups)
    (hcomm : ∀ k k', same k k' = same k' k)
    (htogether : ∀ a ∈ l, ∀ b ∈ l, (∃ g ∈ groups, a ∈ g.2 ∧ b ∈ g.2) ↔ key a = key b)
    {a b : α} (ha : a ∈ l) (hb : b ∈ l) (hne : a ≠ b) :
    same (key a) (key b) = true ↔ key a = key b := by
  have hkey : ∀ g ∈ groups, ∀ c ∈ g.2, key c = g.1 := by
    intro g hg c hc
    obtain ⟨e, rest, hgroup, hfirst, -⟩ := h.first g hg
    have he : e ∈ g.2 := hgroup ▸ mem_cons_self
    have hsub := (h.sublist g hg).subset
    exact ((htogether c (hsub hc) e (hsub he)).1 ⟨g, hg, hc, he⟩).trans hfirst
  constructor
  · intro hsame
    by_contra hkeys
    obtain ⟨g, hg, hag⟩ := h.exists_group ha
    obtain ⟨g', hg', hbg⟩ := h.exists_group hb
    have hga := hkey g hg a hag
    have hgb := hkey g' hg' b hbg
    obtain ⟨i, hi, rfl⟩ := mem_iff_getElem.1 hg
    obtain ⟨j, hj, rfl⟩ := mem_iff_getElem.1 hg'
    -- the earlier group has refused the element of the later one
    rcases Nat.lt_trichotomy i j with hij | rfl | hij
    · have hfalse := pairwise_iff_getElem.1 h.apart i j hi hj hij b hbg
      rw [← hga, hsame] at hfalse
      cases hfalse
    · exact hkeys (hga.trans hgb.symm)
    · have hfalse := pairwise_iff_getElem.1 h.apart j i hj hi hij a hag
      rw [← hgb, hcomm, hsame] at hfalse
      cases hfalse
  · intro hkeys
    obtain ⟨g, hg, hag, hbg⟩ := (htogether a ha b hb).2 hkeys
    obtain ⟨e, rest, hgroup, -, hrest⟩ := h.first g hg
    -- one of the two is not the first of their group
    have hother : ∃ c ∈ rest, key c = key b := by
      rw [hgroup] at hag hbg
      by_cases hbe : b = e
      · exact ⟨a, mem_of_ne_of_mem (hbe ▸ hne) hag, hkeys⟩
      · exact ⟨b, mem_of_ne_of_mem hbe hbg, rfl⟩
    obtain ⟨c, hc, hcb⟩ := hother
    have hsame := hrest c hc
    rwa [hcb, ← hkey g hg a hag] at hsame

end Grouping

end Shoveler
