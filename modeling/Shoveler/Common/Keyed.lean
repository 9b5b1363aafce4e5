import Mathlib.Data.List.Nodup

/-!
# Keyed lists

Lists of records found by a key. Where the keys are pairwise distinct,
removing or replacing the first record with a key is removing or
replacing *the* record with it, so the positional operations of an
implementation are a filter and a map (`eraseIdx_findIdx?`,
`modify_findIdx?`).

`record` merges a record into the one that has its key, and a list of
records put in that way is looked up like two lists one behind the other
(`find?_foldl_record`).

`overlay` is a list of records with a set of pending changes applied:
the deleted keys left out, the updated records in the place of the ones
they replace, the inserted records at the end.
-/

namespace Shoveler

open List

namespace Keyed

variable {α κ : Type} [DecidableEq κ] {key : α → κ}

variable {l : List α} {x : α} {i : ℕ}

/-! ## Positional operations -/

/-- A record with the key is found exactly when the key occurs. -/
theorem isSome_findIdx? {k : κ} :
    (l.findIdx? (fun x => decide (key x = k))).isSome ↔ k ∈ l.map key := by
  rw [findIdx?_isSome, any_eq_true, mem_map]
  simp only [decide_eq_true_eq]

theorem findIdx?_eq_none {l : List α} {k : κ} :
    l.findIdx? (fun x => decide (key x = k)) = none ↔ k ∉ l.map key := by
  rw [← not_iff_not, ← ne_eq, ← Option.isSome_iff_ne_none, isSome_findIdx?, not_not]

theorem find?_eq_none {k : κ} :
    l.find? (fun x => decide (key x = k)) = none ↔ k ∉ l.map key := by
  rw [List.find?_eq_none, List.mem_map]
  simp only [decide_eq_true_eq, not_exists, not_and]

/-- With distinct keys a record is what its key finds. -/
theorem find?_eq_some_of_mem {l : List α} (hl : (l.map key).Nodup) {x : α} (hx : x ∈ l) :
    l.find? (fun y => decide (key y = key x)) = some x := by
  induction l with
  | nil => cases hx
  | cons y l ih =>
    rw [map_cons, nodup_cons] at hl
    rcases mem_cons.1 hx with rfl | hx
    · simp
    · have hne : key y ≠ key x := fun h => hl.1 (h ▸ mem_map_of_mem hx)
      rw [find?_cons_of_neg (by simpa using hne)]
      exact ih hl.2 hx

/-- What a key finds is a record of the list with that key. -/
theorem of_find?_eq_some {k : κ} (h : l.find? (fun y => decide (key y = k)) = some x) :
    x ∈ l ∧ key x = k :=
  ⟨mem_of_find?_eq_some h, by simpa using find?_some h⟩

omit [DecidableEq κ] in
/-- The record at the place a search names is the one it finds. -/
theorem getElem?_findIdx? {p : α → Bool} (h : l.findIdx? p = some i) :
    l[i]? = l.find? p := by
  induction l generalizing i with
  | nil => simp at h
  | cons x l ih =>
    rw [findIdx?_cons] at h
    by_cases hx : p x = true
    · rw [if_pos hx, Option.some.injEq] at h
      subst h
      rw [getElem?_cons_zero, find?_cons_of_pos hx]
    · rw [if_neg hx, Option.map_eq_some_iff] at h
      obtain ⟨j, hj, rfl⟩ := h
      rw [getElem?_cons_succ, find?_cons_of_neg hx, ih hj]

omit [DecidableEq κ] in
/-- With distinct keys a key has one place. -/
theorem getElem?_place (hl : (l.map key).Nodup) {j : ℕ} {y : α} (hi : l[i]? = some x)
    (hj : l[j]? = some y) (h : key x = key y) : i = j := by
  have hlt : i < (l.map key).length := by
    rw [length_map]
    exact (List.getElem?_eq_some_iff.1 hi).1
  refine (getElem?_inj hlt hl).1 ?_
  rw [getElem?_map, getElem?_map, hi, hj, Option.map_some, Option.map_some, h]

/-- And is found there. -/
theorem findIdx?_of_getElem? (hl : (l.map key).Nodup) (hi : l[i]? = some x) :
    l.findIdx? (fun y => decide (key y = key x)) = some i := by
  have hmem : key x ∈ l.map key := mem_map_of_mem (mem_of_getElem? hi)
  obtain ⟨j, hj⟩ := Option.isSome_iff_exists.1 (isSome_findIdx?.2 hmem)
  have hfound := getElem?_findIdx? hj
  rw [find?_eq_some_of_mem hl (mem_of_getElem? hi)] at hfound
  rw [hj, getElem?_place hl hi hfound rfl]

/-- **Removing the record found by a key keeps the others in order.** -/
theorem eraseIdx_findIdx? (hl : (l.map key).Nodup) {k : κ}
    (h : l.findIdx? (fun x => decide (key x = k)) = some i) :
    l.eraseIdx i = l.filter (fun x => decide (key x ≠ k)) := by
  induction l generalizing i with
  | nil => simp at h
  | cons x l ih =>
    rw [map_cons, nodup_cons] at hl
    rw [findIdx?_cons] at h
    by_cases hx : key x = k
    · -- the record is the head, and no later one shares its key
      rw [if_pos (by simpa using hx), Option.some.injEq] at h
      subst h
      have hrest : ∀ y ∈ l, key y ≠ k := fun y hy he =>
        hl.1 (by rw [hx, ← he]; exact mem_map_of_mem hy)
      rw [eraseIdx_cons_zero, filter_cons_of_neg (by simpa using hx),
        filter_eq_self.2 (by simpa using hrest)]
    · rw [if_neg (by simpa using hx), Option.map_eq_some_iff] at h
      obtain ⟨j, hj, rfl⟩ := h
      rw [eraseIdx_cons_succ, filter_cons_of_pos (by simpa using hx), ih hl.2 hj]

/-- **Changing the record found by a key leaves the others in place.** -/
theorem modify_findIdx? (hl : (l.map key).Nodup) {k : κ} {f : α → α}
    (h : l.findIdx? (fun x => decide (key x = k)) = some i) :
    l.modify i f = l.map (fun x => if key x = k then f x else x) := by
  induction l generalizing i with
  | nil => simp at h
  | cons x l ih =>
    rw [map_cons, nodup_cons] at hl
    rw [findIdx?_cons] at h
    by_cases hx : key x = k
    · rw [if_pos (by simpa using hx), Option.some.injEq] at h
      subst h
      have hrest : ∀ z ∈ l, (if key z = k then f z else z) = z := fun z hz =>
        if_neg fun he => hl.1 (by rw [hx, ← he]; exact mem_map_of_mem hz)
      rw [modify_zero_cons, map_cons, if_pos hx, map_congr_left hrest, map_id']
    · rw [if_neg (by simpa using hx), Option.map_eq_some_iff] at h
      obtain ⟨j, hj, rfl⟩ := h
      rw [modify_succ_cons, map_cons, if_neg hx, ih hl.2 hj]

/-- Replacing it is one such change. -/
theorem set_findIdx? (hl : (l.map key).Nodup) {k : κ} {y : α}
    (h : l.findIdx? (fun x => decide (key x = k)) = some i) :
    l.set i y = l.map (fun x => if key x = k then y else x) := by
  rw [set_eq_modify]
  exact modify_findIdx? hl h

/-- Replacing a record by one with its own key changes no key. -/
theorem map_key_replace {k : κ} {y : α} (hy : key y = k) :
    (l.map (fun x => if key x = k then y else x)).map key = l.map key := by
  rw [map_map]
  refine map_congr_left fun x _ => ?_
  by_cases hx : key x = k
  · simp [hx, hy]
  · simp [hx]

/-- A change that keeps the keys is seen through a search. -/
theorem find?_map {f : α → α} (hf : ∀ x, key (f x) = key x) (l : List α) (k : κ) :
    (l.map f).find? (fun x => decide (key x = k)) =
      (l.find? (fun x => decide (key x = k))).map f := by
  rw [List.find?_map]
  congr 2
  exact funext fun x => by simp only [Function.comp_apply, hf]

/-- A search for a key passes over what fails a test that its record
passes. -/
theorem find?_filter {k : κ} {p : α → Bool} (hp : ∀ x ∈ l, key x = k → p x = true) :
    (l.filter p).find? (fun x => decide (key x = k)) = l.find? (fun x => decide (key x = k)) := by
  induction l with
  | nil => rfl
  | cons x l ih =>
    have hrest := ih fun y hy => hp y (mem_cons_of_mem _ hy)
    by_cases hx : key x = k
    · have hpx := hp x mem_cons_self hx
      rw [filter_cons_of_pos hpx, find?_cons_of_pos (by simpa using hx),
        find?_cons_of_pos (by simpa using hx)]
    · rw [find?_cons_of_neg (by simpa using hx), ← hrest]
      by_cases hpx : p x = true
      · rw [filter_cons_of_pos hpx, find?_cons_of_neg (by simpa using hx)]
      · rw [filter_cons_of_neg hpx]

/-- A record appended under a new key is found at the end. -/
theorem findIdx?_append_new {y : α} {k : κ} (hk : k ∉ l.map key) (hy : key y = k) :
    (l ++ [y]).findIdx? (fun x => decide (key x = k)) = some l.length := by
  rw [findIdx?_append, findIdx?_eq_none.2 hk]
  simp [findIdx?_cons, hy]

omit [DecidableEq κ] in
/-- Distinct keys stay distinct with a new one at the end. -/
theorem nodup_append_new {y : α} (hl : (l.map key).Nodup) (hy : key y ∉ l.map key) :
    ((l ++ [y]).map key).Nodup := by
  rw [map_append, nodup_append]
  refine ⟨hl, nodup_singleton _, fun a ha b hb he => hy ?_⟩
  have hb : b = key y := mem_singleton.1 hb
  rw [← hb, ← he]
  exact ha

/-- A list with a record put in place of the one that has its key, or at
the end. -/
def upsert (key : α → κ) (y : α) (l : List α) : List α :=
  if key y ∈ l.map key then l.map (fun x => if key x = key y then y else x) else l ++ [y]

/-- The keys of a list after a record was put in. -/
theorem map_key_upsert (y : α) (l : List α) :
    (upsert key y l).map key = if key y ∈ l.map key then l.map key else l.map key ++ [key y] := by
  rw [upsert]
  split
  · exact map_key_replace rfl
  · rw [map_append, map_singleton]

theorem nodup_upsert {y : α} (hl : (l.map key).Nodup) :
    ((upsert key y l).map key).Nodup := by
  rw [upsert]
  split
  · rw [map_key_replace rfl]
    exact hl
  · rename_i hy
    exact nodup_append_new hl hy

/-- What stands in the list after a record was put in. -/
theorem mem_upsert {y : α} (h : x ∈ upsert key y l) :
    x = y ∨ x ∈ l ∧ key x ≠ key y := by
  rw [upsert] at h
  split at h
  · obtain ⟨z, hz, rfl⟩ := mem_map.1 h
    by_cases hk : key z = key y
    · exact Or.inl (if_pos hk)
    · rw [if_neg hk]
      exact Or.inr ⟨hz, hk⟩
  · rename_i hy
    rcases mem_append.1 h with hx | hx
    · exact Or.inr ⟨hx, fun hk => hy (hk ▸ mem_map_of_mem hx)⟩
    · exact Or.inl (mem_singleton.1 hx)

/-! ## Recording -/

/-- A record merged into the one that has its key, or put at the end. -/
def record (key : α → κ) (merge : α → α → α) (y : α) (l : List α) : List α :=
  match l.findIdx? (fun x => decide (key x = key y)) with
  | some i => l.modify i (merge y)
  | none => l ++ [y]

section Recording

variable {merge : α → α → α} (hmerge : ∀ y x, key (merge y x) = key x)
include hmerge

/-- **What a key finds after a record was put in.** -/
theorem find?_record (hl : (l.map key).Nodup) (y : α) (k : κ) :
    (record key merge y l).find? (fun x => decide (key x = k)) =
      if k = key y then some ((l.find? fun x => decide (key x = k)).elim y (merge y))
      else l.find? fun x => decide (key x = k) := by
  unfold record
  cases hi : l.findIdx? (fun x => decide (key x = key y)) with
  | some i =>
    have hkeeps : ∀ x, key (if key x = key y then merge y x else x) = key x := by
      intro x
      split
      · exact hmerge y x
      · rfl
    simp only [modify_findIdx? hl hi, find?_map hkeeps]
    by_cases hk : k = key y
    · subst hk
      have hmem : (l.findIdx? fun x => decide (key x = key y)).isSome = true := by rw [hi]; rfl
      obtain ⟨x, hx⟩ : ∃ x, l.find? (fun x => decide (key x = key y)) = some x := by
        refine Option.ne_none_iff_exists'.1 fun hnone => ?_
        exact find?_eq_none.1 hnone (isSome_findIdx?.1 hmem)
      rw [if_pos rfl, hx, Option.map_some, if_pos (of_find?_eq_some hx).2, Option.elim_some]
    · rw [if_neg hk]
      cases hx : l.find? (fun x => decide (key x = k)) with
      | none => rfl
      | some x =>
        have hne : key x ≠ key y := fun he => hk ((of_find?_eq_some hx).2.symm.trans he)
        rw [Option.map_some, if_neg hne]
  | none =>
    have hnew := findIdx?_eq_none.1 hi
    rw [find?_append]
    by_cases hk : k = key y
    · subst hk
      simp [find?_eq_none.2 hnew]
    · have hne : ¬key y = k := fun he => hk he.symm
      simp [hk, hne]

theorem nodup_record (hl : (l.map key).Nodup) (y : α) :
    ((record key merge y l).map key).Nodup := by
  unfold record
  cases hi : l.findIdx? (fun x => decide (key x = key y)) with
  | some i =>
    have hkeys : (l.modify i (merge y)).map key = l.map key := by
      rw [modify_findIdx? hl hi, map_map]
      refine map_congr_left fun x _ => ?_
      rw [Function.comp_apply]
      split
      · exact hmerge y x
      · rfl
    rw [hkeys]
    exact hl
  | none => exact nodup_append_new hl (findIdx?_eq_none.1 hi)

theorem nodup_foldl_record (hl : (l.map key).Nodup) (ys : List α) :
    ((ys.foldl (fun l y => record key merge y l) l).map key).Nodup := by
  induction ys generalizing l with
  | nil => exact hl
  | cons y ys ih => exact ih (nodup_record hmerge hl y)

/-- **What a key finds after many were put in**, under keys of their own:
what was put in under it, or what was there. Of a record that was merged
only what is taken over from the new one is seen. -/
theorem find?_foldl_record {β : Type} {content : α → β}
    (hcontent : ∀ y x, content (merge y x) = content y) {ys : List α} (hys : (ys.map key).Nodup)
    (hl : (l.map key).Nodup) (k : κ) :
    ((ys.foldl (fun l y => record key merge y l) l).find? fun x => decide (key x = k)).map content =
      ((ys.find? fun x => decide (key x = k)).map content).or
        ((l.find? fun x => decide (key x = k)).map content) := by
  induction ys generalizing l with
  | nil => rfl
  | cons y ys ih =>
    rw [map_cons, nodup_cons] at hys
    rw [foldl_cons, ih hys.2 (nodup_record hmerge hl y), find?_record hmerge hl]
    by_cases hk : k = key y
    · subst hk
      rw [find?_eq_none.2 hys.1, if_pos rfl, find?_cons_of_pos (by simp)]
      cases l.find? fun x => decide (key x = key y) with
      | none => rfl
      | some x =>
        rw [Option.elim_some, Option.map_some, hcontent]
        rfl
    · have hne : ¬key y = k := fun he => hk he.symm
      rw [if_neg hk, find?_cons_of_neg (by simpa using hne)]

end Recording

/-! ## Pending changes -/

/-- A record, or what an update puts in its place. -/
def patch (key : α → κ) (updated : List α) (x : α) : α :=
  (updated.find? (fun u => decide (key u = key x))).getD x

/-- **A list with pending changes applied.** -/
def overlay (key : α → κ) (deleted : List κ) (updated inserted base : List α) : List α :=
  (base.filter (fun x => decide (key x ∉ deleted))).map (patch key updated) ++ inserted

theorem key_patch (updated : List α) (x : α) : key (patch key updated x) = key x := by
  unfold patch
  cases h : updated.find? (fun u => decide (key u = key x)) with
  | none => rfl
  | some u => exact (of_find?_eq_some h).2

/-- A record no update names is left alone. -/
theorem patch_of_not_mem {updated : List α} (h : key x ∉ updated.map key) :
    patch key updated x = x := by
  rw [patch, find?_eq_none.2 h, Option.getD_none]

/-- With distinct keys an update is what replaces its record. -/
theorem patch_of_mem {updated : List α} (hu : (updated.map key).Nodup) {u : α} (hmem : u ∈ updated)
    (hk : key u = key x) : patch key updated x = u := by
  rw [patch, ← hk, find?_eq_some_of_mem hu hmem, Option.getD_some]

@[simp] theorem overlay_nil (inserted base : List α) :
    overlay key [] [] inserted base = base ++ inserted := by
  have hid : patch key ([] : List α) = id := funext fun _ => rfl
  simp [overlay, hid]

/-- The keys after the changes: those not deleted, then the inserted. -/
theorem map_key_overlay (deleted : List κ) (updated inserted base : List α) :
    (overlay key deleted updated inserted base).map key =
      (base.map key).filter (fun k => decide (k ∉ deleted)) ++ inserted.map key := by
  rw [overlay, map_append, map_map]
  congr 1
  have hkey : key ∘ patch key updated = key := funext (key_patch updated)
  rw [filter_map, hkey]
  rfl

/-- **Pending changes keep the keys distinct**, as long as no insert
reuses a key that stays. -/
theorem nodup_overlay {deleted : List κ} {updated inserted base : List α}
    (hbase : (base.map key).Nodup) (hins : (inserted.map key).Nodup)
    (hdisj : ∀ x ∈ inserted, key x ∉ base.map key) :
    ((overlay key deleted updated inserted base).map key).Nodup := by
  rw [map_key_overlay, nodup_append]
  refine ⟨hbase.filter _, hins, fun k hk k' hk' he => ?_⟩
  obtain ⟨x, hx, rfl⟩ := mem_map.1 hk'
  exact hdisj x hx (he ▸ mem_of_mem_filter hk)

/-- A record of the changed list is an insert, or a kept record with its
update applied. -/
theorem mem_overlay {deleted : List κ} {updated inserted base : List α} :
    x ∈ overlay key deleted updated inserted base ↔
      (∃ y ∈ base, key y ∉ deleted ∧ patch key updated y = x) ∨ x ∈ inserted := by
  simp only [overlay, mem_append, mem_map, mem_filter, decide_eq_true_eq]
  constructor
  · rintro (⟨y, ⟨hy, hd⟩, rfl⟩ | h)
    · exact Or.inl ⟨y, hy, hd, rfl⟩
    · exact Or.inr h
  · rintro (⟨y, hy, hd, rfl⟩ | h)
    · exact Or.inl ⟨y, ⟨hy, hd⟩, rfl⟩
    · exact Or.inr h

/-! ## One more pending change

Each change to the pending lists shows in the result as the same change
made to a plain list. -/

/-- A record put into the updates is what its key is patched with. -/
theorem patch_upsert (y : α) (updated : List α) (x : α) :
    patch key (upsert key y updated) x = if key x = key y then y else patch key updated x := by
  unfold patch upsert
  by_cases hx : key x = key y
  · rw [if_pos hx, hx]
    split
    · rename_i hmem
      have hsome : (updated.find? fun u => decide (key u = key y)).isSome = true := by
        rw [Option.isSome_iff_ne_none]
        exact fun hnone => find?_eq_none.1 hnone hmem
      obtain ⟨u, hu⟩ := Option.isSome_iff_exists.1 hsome
      rw [find?_map (fun z => by split <;> simp [*]), hu, Option.map_some, Option.getD_some,
        if_pos (of_find?_eq_some hu).2]
    · rename_i hmem
      rw [find?_append, find?_eq_none.2 hmem]
      simp
  · have hne : ¬key y = key x := fun he => hx he.symm
    rw [if_neg hx]
    split
    · rw [find?_map (fun z => by split <;> simp [*])]
      cases hu : updated.find? fun u => decide (key u = key x) with
      | none => rfl
      | some u =>
        have hku : ¬key u = key y := fun he => hx ((of_find?_eq_some hu).2.symm.trans he)
        simp [hku]
    · rw [find?_append]
      simp [hne]

/-- A list without the key is not changed by a replacement. -/
theorem map_replace_of_not_mem {y : α} (h : key y ∉ l.map key) :
    l.map (fun x => if key x = key y then y else x) = l := by
  refine (map_congr_left fun x hx => ?_).trans (map_id' l)
  have hne : ¬key x = key y := by
    intro he
    exact h (he ▸ mem_map_of_mem hx)
  exact if_neg hne

/-- Changing a record that is not looked for. -/
theorem find?_modify_of_not {p : α → Bool} {f : α → α} {k : ℕ} (hx : l[k]? = some x)
    (hp : p x = false) (hf : p (f x) = false) :
    (l.modify k f).find? p = l.find? p := by
  induction l generalizing k with
  | nil => cases hx
  | cons y l ih =>
    cases k with
    | zero =>
      obtain rfl := Option.some.inj hx
      rw [modify_zero_cons, find?_cons_of_neg (by simp [hf]),
        find?_cons_of_neg (by simp [hp])]
    | succ k =>
      rw [modify_succ_cons, find?_cons, find?_cons, ih hx]

/-- One record of a list, with a key of its own, replaced or taken out. -/
theorem filterMap_at {done rest : List α} {o : Option α} (hdone : key x ∉ done.map key)
    (hrest : key x ∉ rest.map key) :
    (done ++ x :: rest).filterMap (fun y => if key y = key x then o else some y) =
      done ++ (o.toList ++ rest) := by
  have hsame : ∀ l : List α, key x ∉ l.map key →
      l.filterMap (fun y => if key y = key x then o else some y) = l := by
    intro l hl
    refine (filterMap_congr fun y hy => if_neg ?_).trans filterMap_some
    intro he
    exact hl (he ▸ mem_map_of_mem hy)
  rw [filterMap_append, hsame done hdone, filterMap_cons, if_pos rfl, hsame rest hrest]
  cases o <;> rfl

/-- Nor by a removal. -/
theorem filter_of_not_mem {k : κ} (h : k ∉ l.map key) :
    l.filter (fun x => decide (key x ≠ k)) = l := by
  refine filter_eq_self.2 fun x hx => decide_eq_true ?_
  intro he
  exact h (he ▸ mem_map_of_mem hx)

section Changes

variable {deleted : List κ} {updated inserted base : List α} {y : α} {k : κ}

/-- The keys that come from the base. -/
theorem not_mem_kept (h : k ∉ base.map key) :
    k ∉ ((base.filter (fun x => decide (key x ∉ deleted))).map (patch key updated)).map key := by
  intro hmem
  rw [map_map] at hmem
  obtain ⟨x, hx, hk⟩ := mem_map.1 hmem
  have hkey : key (patch key updated x) = key x := key_patch updated x
  rw [Function.comp_apply, hkey] at hk
  exact h (hk ▸ mem_map_of_mem (mem_of_mem_filter hx))

theorem overlay_append :
    overlay key deleted updated (inserted ++ [y]) base =
      overlay key deleted updated inserted base ++ [y] :=
  (append_assoc _ _ _).symm

/-- An insert that is changed. -/
theorem overlay_upsert_inserted (hmem : key y ∈ inserted.map key) (hnew : key y ∉ base.map key) :
    overlay key deleted updated (upsert key y inserted) base =
      (overlay key deleted updated inserted base).map fun x => if key x = key y then y else x := by
  rw [overlay, overlay, map_append, map_replace_of_not_mem (not_mem_kept hnew), upsert,
    if_pos hmem]

/-- A record of the base that is changed. -/
theorem overlay_upsert_updated (hins : key y ∉ inserted.map key) :
    overlay key deleted (upsert key y updated) inserted base =
      (overlay key deleted updated inserted base).map fun x => if key x = key y then y else x := by
  rw [overlay, overlay, map_append, map_replace_of_not_mem hins, map_map]
  congr 1
  refine map_congr_left fun x _ => ?_
  have hkey : key (patch key updated x) = key x := key_patch updated x
  rw [Function.comp_apply, patch_upsert, hkey]

/-- An insert that is taken back. -/
theorem overlay_filter_inserted (hnew : k ∉ base.map key) :
    overlay key deleted updated (inserted.filter fun x => decide (key x ≠ k)) base =
      (overlay key deleted updated inserted base).filter fun x => decide (key x ≠ k) := by
  rw [overlay, overlay, filter_append, filter_of_not_mem (not_mem_kept hnew)]

/-- A record of the base that goes, with its update. -/
theorem overlay_delete (hins : k ∉ inserted.map key) :
    overlay key (deleted ++ [k]) (updated.filter fun x => decide (key x ≠ k)) inserted base =
      (overlay key deleted updated inserted base).filter fun x => decide (key x ≠ k) := by
  rw [overlay, overlay, filter_append, filter_of_not_mem hins, filter_map]
  congr 1
  have hkept : (base.filter fun x => decide (key x ∉ deleted)).filter
      ((fun x => decide (key x ≠ k)) ∘ patch key updated) =
      base.filter fun x => decide (key x ∉ deleted ++ [k]) := by
    rw [filter_filter]
    refine filter_congr fun x _ => ?_
    simp only [Function.comp_apply, key_patch, mem_append, mem_singleton, not_or,
      Bool.decide_and, Bool.and_comm]
  rw [hkept]
  refine map_congr_left fun x hx => ?_
  have hne : ¬key x = k := by
    have hx' := of_decide_eq_true (mem_filter.1 hx).2
    rw [mem_append, mem_singleton, not_or] at hx'
    exact hx'.2
  have hfind : (updated.filter fun u => decide (key u ≠ k)).find? (fun u => decide (key u = key x)) =
      updated.find? (fun u => decide (key u = key x)) := by
    refine find?_filter fun u _ hu => decide_eq_true ?_
    intro he
    exact hne (hu.symm.trans he)
  rw [patch, patch, hfind]

end Changes

end Keyed

end Shoveler
