import Shoveler.Storage.Staging

/-!
# Publishing staged changes

`Transaction.publish` runs three loops over a clone of the live store: the
deletes, the images, the inserts. Whatever is staged, the result is a
store in good order for the same table, with a next id no smaller
(`Publishes`). With the lists in good order the loops do what the lists
say: the deletes and the images name live rows, the rows that stay keep
their order, and the inserts follow, each under its own id or under one
that was never handed out (`publish_eq_ok`).
-/

namespace Shoveler

open Outcome List

namespace Transaction

variable {tx : Transaction} {s next : RowStore}

/-! ## Whatever is staged -/

/-- A store that may follow another in its slot: the same table, in good
order, with a next id no smaller. -/
structure Publishes (s next : RowStore) : Prop where
  table : next.table = s.table
  valid : s.Valid → next.Valid
  nextId : s.nextId ≤ next.nextId

theorem Publishes.refl (s : RowStore) : Publishes s s := ⟨rfl, id, UInt64.le_refl _⟩

theorem Publishes.trans {s₁ s₂ s₃ : RowStore} (h₁ : Publishes s₁ s₂) (h₂ : Publishes s₂ s₃) :
    Publishes s₁ s₃ :=
  ⟨h₂.table.trans h₁.table, h₂.valid ∘ h₁.valid, UInt64.le_trans h₁.nextId h₂.nextId⟩

theorem Publishes.delete {id : RowId} (h : s.delete id = .ok next) : Publishes s next := by
  refine ⟨?_, fun hs => hs.delete h, ?_⟩ <;>
  · rw [RowStore.delete] at h
    split at h
    · cases h
    · obtain rfl := Except.ok.inj h
      first | rfl | exact UInt64.le_refl _

theorem Publishes.update {id : RowId} {values : List Value} (h : s.update id values = .ok next) :
    Publishes s next := by
  refine ⟨?_, fun hs => hs.update h, ?_⟩ <;>
  · rw [RowStore.update] at h
    split at h
    · cases h
    · obtain ⟨row, -, h⟩ := bind_eq_ok.1 h
      obtain rfl := Except.ok.inj h
      first | rfl | exact UInt64.le_refl _

theorem Publishes.insertWithId {id : RowId} {values : List Value}
    (h : s.insertWithId id values = .ok next) : Publishes s next := by
  refine ⟨?_, fun hs => hs.insertWithId h, ?_⟩
  · obtain ⟨-, -, n, -, rfl⟩ := RowStore.insertWithId_eq_ok.1 h
    rfl
  · obtain ⟨-, -, n, hn, rfl⟩ := RowStore.insertWithId_eq_ok.1 h
    exact (RowStore.nextIdAfter_eq_ok hn).1

/-- **Publishing keeps the store in good order, whatever is staged.** -/
theorem publishes (h : tx.publish s = .ok next) : Publishes s next := by
  simp only [publish, bind_eq_ok] at h
  obtain ⟨s₀, h₀, s₁, h₁, s₂, h₂, h₃⟩ := h
  obtain ⟨-, rfl⟩ := RowStore.clone_eq_ok.1 h₀
  have hdeletes : Publishes s₀ s₁ :=
    foldlM_invariant (P := Publishes s₀) (fun _ _ _ _ hb hc => hb.trans (.delete hc))
      (.refl s₀) h₁
  have hupdates : Publishes s₀ s₂ :=
    foldlM_invariant (P := Publishes s₀) (fun _ _ _ _ hb hc => hb.trans (.update hc))
      hdeletes h₂
  exact foldlM_invariant (P := Publishes s₀)
    (fun _ _ _ _ hb hc => hb.trans (.insertWithId hc)) hupdates h₃

/-! ## The three loops -/

/-- **The deletes**: each names a row that is there, and those rows go. -/
theorem deleteAll_eq_ok {ds : List RowId} (hs : s.Valid) :
    ds.foldlM (fun next id => next.delete id) s = .ok next ↔
      ds.Nodup ∧ (∀ d ∈ ds, d ∈ s.ids) ∧
        next = { s with rows := s.rows.filter fun r => decide (r.id ∉ ds) } := by
  induction ds generalizing s with
  | nil => simp [eq_comm]
  | cons d ds ih =>
    rw [foldlM_cons_eq_ok]
    have hids : ∀ i, i ∈ RowStore.ids { s with rows := s.rows.filter fun r => decide (r.id ≠ d) } ↔
        i ∈ s.ids ∧ i ≠ d := by
      intro i
      simp only [RowStore.ids, mem_map, mem_filter, decide_eq_true_iff]
      constructor
      · rintro ⟨r, ⟨hr, hne⟩, rfl⟩
        exact ⟨⟨r, hr, rfl⟩, hne⟩
      · rintro ⟨⟨r, hr, rfl⟩, hne⟩
        exact ⟨r, ⟨hr, hne⟩, rfl⟩
    have hfilter : (s.rows.filter fun r => decide (r.id ≠ d)).filter (fun r => decide (r.id ∉ ds)) =
        s.rows.filter fun r => decide (r.id ∉ d :: ds) := by
      rw [filter_filter]
      refine filter_congr fun r _ => ?_
      simp only [mem_cons, not_or, Bool.decide_and, Bool.and_comm]
    constructor
    · rintro ⟨c, hc, hrest⟩
      have hvalid := hs.delete hc
      obtain ⟨hd, rfl⟩ := (RowStore.delete_eq_ok hs.distinct).1 hc
      obtain ⟨hnodup, hmem, rfl⟩ := (ih hvalid).1 hrest
      simp only [hids] at hmem
      refine ⟨nodup_cons.2 ⟨fun hdd => (hmem d hdd).2 rfl, hnodup⟩, ?_, by rw [hfilter]⟩
      exact forall_mem_cons.2 ⟨hd, fun i hi => (hmem i hi).1⟩
    · rintro ⟨hnodup, hmem, rfl⟩
      rw [nodup_cons] at hnodup
      rw [forall_mem_cons] at hmem
      have hc := (RowStore.delete_eq_ok hs.distinct).2 ⟨hmem.1, rfl⟩
      refine ⟨_, hc, (ih (hs.delete hc)).2 ⟨hnodup.2, fun i hi => ?_, by rw [hfilter]⟩⟩
      exact (hids i).2 ⟨hmem.2 i hi, fun he => hnodup.1 (he ▸ hi)⟩

/-- **The images**: each is of a row that is there and fits, and takes its
place. -/
theorem updateAll_eq_ok {us : List Row} (hs : s.Valid) (hus : (us.map Row.id).Nodup) :
    us.foldlM (fun next updated => next.update updated.id updated.values) s = .ok next ↔
      (∀ u ∈ us, u.id ∈ s.ids ∧ u.Conforms s.table) ∧
        next = { s with rows := s.rows.map (Keyed.patch Row.id us) } := by
  induction us generalizing s with
  | nil =>
    have hid : Keyed.patch Row.id ([] : List Row) = id := funext fun _ => rfl
    simp [hid, eq_comm]
  | cons u us ih =>
    rw [map_cons, nodup_cons] at hus
    rw [foldlM_cons_eq_ok]
    have hids : RowStore.ids
        { s with rows := s.rows.map fun r => if r.id = u.id then ⟨u.id, u.values⟩ else r } = s.ids :=
      Keyed.map_key_replace (l := s.rows) (rfl : Row.id ⟨u.id, u.values⟩ = u.id)
    have hpatch : (s.rows.map fun r => if r.id = u.id then (⟨u.id, u.values⟩ : Row) else r).map
        (Keyed.patch Row.id us) = s.rows.map (Keyed.patch Row.id (u :: us)) := by
      rw [map_map]
      refine map_congr_left fun r _ => ?_
      by_cases hr : r.id = u.id
      · have hnot : Row.id u ∉ us.map Row.id := hus.1
        rw [Function.comp_apply, if_pos hr, Keyed.patch_of_not_mem (x := u) hnot]
        simp [Keyed.patch, hr]
      · have hne : ¬u.id = r.id := fun he => hr he.symm
        simp [Keyed.patch, hr, hne]
    constructor
    · rintro ⟨c, hc, hrest⟩
      have hvalid := hs.update hc
      obtain ⟨hmem, hv, rfl⟩ := (RowStore.update_eq_ok hs.distinct).1 hc
      obtain ⟨hall, rfl⟩ := (ih hvalid hus.2).1 hrest
      simp only [hids] at hall
      exact ⟨forall_mem_cons.2 ⟨⟨hmem, hv⟩, hall⟩, by rw [hpatch]⟩
    · rintro ⟨hall, rfl⟩
      rw [forall_mem_cons] at hall
      have hc := (RowStore.update_eq_ok hs.distinct).2 ⟨hall.1.1, hall.1.2, rfl⟩
      refine ⟨_, hc, (ih (hs.update hc) hus.2).2 ⟨fun v hv => ?_, by rw [hpatch]⟩⟩
      rw [hids]
      exact hall.2 v hv

/-- A committed row made of a staged insert: its values, under its own id
or one not handed out before. -/
structure PlacedAs (s : RowStore) (staged placed : Row) : Prop where
  values : placed.values = staged.values
  fresh : placed.id = staged.id ∨ s.nextId ≤ placed.id

/-- The id an insert is committed under is free. -/
theorem commitId_not_mem (hs : s.Valid) (r : Row) : commitId s r ∉ s.ids := by
  rw [commitId]
  split
  · rename_i h
    exact RowStore.get_eq_none.1 (Option.isNone_iff_eq_none.1 h)
  · intro hmem
    obtain ⟨r', hr', he⟩ := mem_map.1 hmem
    exact UInt64.lt_irrefl _ (he ▸ hs.below r' hr')

theorem commitId_fresh (r : Row) : commitId s r = r.id ∨ s.nextId ≤ commitId s r := by
  rw [commitId]
  split
  · exact Or.inl rfl
  · exact Or.inr (UInt64.le_refl _)

/-- **The inserts** follow the rows that are there, in their order. -/
theorem insertAll_eq_ok {rs : List Row}
    (h : rs.foldlM (fun next r => next.insertWithId (commitId next r) r.values) s = .ok next) :
    ∃ placed, List.Forall₂ (PlacedAs s) rs placed ∧ next.rows = s.rows ++ placed := by
  induction rs generalizing s with
  | nil =>
    obtain rfl := Except.ok.inj h
    exact ⟨[], .nil, (append_nil _).symm⟩
  | cons r rs ih =>
    obtain ⟨c, hc, hrest⟩ := foldlM_cons_eq_ok.1 h
    obtain ⟨-, -, n, hn, rfl⟩ := RowStore.insertWithId_eq_ok.1 hc
    obtain ⟨placed, hplaced, hrows⟩ := ih hrest
    have hle := (RowStore.nextIdAfter_eq_ok hn).1
    refine ⟨⟨commitId s r, r.values⟩ :: placed, .cons ⟨rfl, commitId_fresh r⟩ ?_, ?_⟩
    · refine hplaced.imp fun a b hab => ⟨hab.values, ?_⟩
      rcases hab.fresh with h | h
      · exact Or.inl h
      · exact Or.inr (UInt64.le_trans hle h)
    · rw [hrows, append_assoc, singleton_append]

/-! ## With the lists in good order -/

/-- **The rows a transaction changes are all still there.** -/
structure Publishable (tx : Transaction) (s : RowStore) : Prop where
  deletes : ∀ d ∈ tx.deletes, d ∈ s.ids
  updates : ∀ i ∈ tx.updateIds, i ∈ s.ids

instance (tx : Transaction) (s : RowStore) : Decidable (tx.Publishable s) :=
  -- over the two lists, and not over all the ids there are
  have : Decidable (∀ d ∈ tx.deletes, d ∈ s.ids) := decidableBAll (· ∈ s.ids) tx.deletes
  have : Decidable (∀ i ∈ tx.updateIds, i ∈ s.ids) := decidableBAll (· ∈ s.ids) tx.updateIds
  decidable_of_iff ((∀ d ∈ tx.deletes, d ∈ s.ids) ∧ ∀ i ∈ tx.updateIds, i ∈ s.ids)
    ⟨fun h => ⟨h.1, h.2⟩, fun h => ⟨h.1, h.2⟩⟩

/-- The store between the deletes and the images. -/
def afterDeletes (tx : Transaction) (s : RowStore) : RowStore :=
  { s with rows := s.rows.filter fun r => decide (r.id ∉ tx.deletes) }

/-- The store between the images and the inserts. -/
def afterUpdates (tx : Transaction) (s : RowStore) : RowStore :=
  { s with
    rows := (s.rows.filter fun r => decide (r.id ∉ tx.deletes)).map (Keyed.patch Row.id tx.updates) }

/-- **The loops one after another**: with the lists in good order and the
rows they name all there, what is left to do is to place the inserts. -/
theorem publish_eq_insertAll (hs : s.Valid) (ht : tx.Staged s.table) (hp : tx.Publishable s) :
    (tx.afterUpdates s).Valid ∧
      tx.publish s = tx.inserts.foldlM
        (fun next r => next.insertWithId (commitId next r) r.values) (tx.afterUpdates s) := by
  have hdel : tx.deletes.foldlM (fun next id => next.delete id) s = .ok (tx.afterDeletes s) :=
    (deleteAll_eq_ok hs).2 ⟨ht.deletes_nodup, hp.deletes, rfl⟩
  have hvalid : (tx.afterDeletes s).Valid :=
    foldlM_invariant (P := RowStore.Valid) (fun _ _ _ _ hb hc => hb.delete hc) hs hdel
  have hids : ∀ i ∈ tx.updateIds, i ∈ (tx.afterDeletes s).ids := by
    intro i hi
    obtain ⟨r, hr, rfl⟩ := mem_map.1 (hp.updates i hi)
    exact mem_map_of_mem (mem_filter.2 ⟨hr, decide_eq_true (ht.disjoint _ hi)⟩)
  have hupd : tx.updates.foldlM (fun next updated => next.update updated.id updated.values)
      (tx.afterDeletes s) = .ok (tx.afterUpdates s) :=
    (updateAll_eq_ok hvalid ht.updates_nodup).2
      ⟨fun u hu => ⟨hids _ (mem_map_of_mem hu), ht.updates_conform u hu⟩, rfl⟩
  refine ⟨?_, ?_⟩
  · exact foldlM_invariant (P := RowStore.Valid) (fun _ _ _ _ hb hc => hb.update hc)
      hvalid hupd
  · rw [publish, hs.clone, ok_bind, hdel, ok_bind, hupd, ok_bind]

/-- Where the first two loops go through, the rows were there and have
been taken out and replaced. -/
theorem publishable_of_loops {s₁ s₂ : RowStore} (hs : s.Valid) (ht : tx.Ordered)
    (h₁ : tx.deletes.foldlM (fun next id => next.delete id) s = .ok s₁)
    (h₂ : tx.updates.foldlM (fun next updated => next.update updated.id updated.values) s₁ =
      .ok s₂) : tx.Publishable s ∧ s₂ = tx.afterUpdates s := by
  have hvalid : s₁.Valid :=
    foldlM_invariant (P := RowStore.Valid) (fun _ _ _ _ hb hc => hb.delete hc) hs h₁
  obtain ⟨-, hdel, rfl⟩ := (deleteAll_eq_ok hs).1 h₁
  obtain ⟨hupd, rfl⟩ := (updateAll_eq_ok hvalid ht.updates_nodup).1 h₂
  refine ⟨⟨hdel, fun i hi => ?_⟩, rfl⟩
  obtain ⟨u, hu, rfl⟩ := mem_map.1 hi
  exact (filter_sublist.map Row.id).subset (hupd u hu).1

/-- **What a publication that goes through has done**: the rows it changes
were there, and the live rows are the old ones with the staged changes
laid over them, the inserts under ids of their own. -/
theorem publish_eq_ok (hs : s.Valid) (ht : tx.Ordered) (h : tx.publish s = .ok next) :
    tx.Publishable s ∧ ∃ placed, List.Forall₂ (PlacedAs s) tx.inserts placed ∧
      next.rows = Keyed.overlay Row.id tx.deletes tx.updates placed s.rows := by
  simp only [publish, hs.clone, ok_bind, bind_eq_ok] at h
  obtain ⟨s₁, h₁, s₂, h₂, h⟩ := h
  obtain ⟨hp, rfl⟩ := publishable_of_loops hs ht h₁ h₂
  obtain ⟨placed, hplaced, hrows⟩ := insertAll_eq_ok h
  exact ⟨hp, placed, hplaced.imp fun _ _ h => ⟨h.values, h.fresh⟩, hrows⟩

/-- Inserts whose ids are free go in as they were staged. -/
theorem insertAll_of_free {rs : List Row} (hnodup : (rs.map Row.id).Nodup)
    (hfree : ∀ r ∈ rs, r.id ∉ s.ids)
    (h : rs.foldlM (fun next r => next.insertWithId (commitId next r) r.values) s = .ok next) :
    next.rows = s.rows ++ rs := by
  induction rs generalizing s with
  | nil =>
    obtain rfl := Except.ok.inj h
    exact (append_nil _).symm
  | cons r rs ih =>
    rw [map_cons, nodup_cons] at hnodup
    rw [forall_mem_cons] at hfree
    obtain ⟨c, hc, hrest⟩ := foldlM_cons_eq_ok.1 h
    obtain ⟨-, -, n, -, rfl⟩ := RowStore.insertWithId_eq_ok.1 hc
    have hkept : commitId s r = r.id := by
      rw [commitId, RowStore.get_eq_none.2 hfree.1]
      rfl
    rw [hkept] at hrest
    rw [ih hnodup.2 (fun r' hr' hmem => ?_) hrest, append_assoc, singleton_append]
    rw [RowStore.ids, map_append, mem_append] at hmem
    rcases hmem with hold | hnew
    · exact hfree.2 r' hr' hold
    · exact hnodup.1 (mem_singleton.1 hnew ▸ mem_map_of_mem hr')

/-- **The ids the inserts have reserved are free**, or come free with the
deletes of the same transaction. -/
def Unclaimed (tx : Transaction) (s : RowStore) : Prop :=
  ∀ r ∈ tx.inserts, r.id ∈ s.ids → r.id ∈ tx.deletes

instance (tx : Transaction) (s : RowStore) : Decidable (tx.Unclaimed s) :=
  inferInstanceAs (Decidable (∀ r ∈ tx.inserts, r.id ∈ s.ids → r.id ∈ tx.deletes))

/-- **Then a publication leaves the rows the transaction shows.** -/
theorem Unclaimed.publish (hun : tx.Unclaimed s) (hs : s.Valid) (ht : tx.Ordered)
    (h : tx.publish s = .ok next) : next.rows = tx.view s.rows := by
  simp only [Transaction.publish, hs.clone, ok_bind, bind_eq_ok] at h
  obtain ⟨s₁, h₁, s₂, h₂, h⟩ := h
  obtain ⟨-, rfl⟩ := publishable_of_loops hs ht h₁ h₂
  refine insertAll_of_free ht.inserts_nodup (fun r hr hmem => ?_) h
  obtain ⟨r', hr', hid⟩ := mem_map.1 hmem
  obtain ⟨r₀, hr₀, rfl⟩ := mem_map.1 hr'
  obtain ⟨hold, hkept⟩ := mem_filter.1 hr₀
  have hkey : (Keyed.patch Row.id tx.updates r₀).id = r₀.id := Keyed.key_patch _ _
  rw [hkey] at hid
  refine of_decide_eq_true hkept ?_
  rw [hid]
  refine hun r hr ?_
  rw [← hid]
  exact mem_map_of_mem hold

/-! ## When nothing changes -/

/-- **What is staged changes nothing**: no row comes or goes, and every
image is the row as it stands. -/
structure LeavesAlone (tx : Transaction) (s : RowStore) : Prop where
  deletes : tx.deletes = []
  inserts : tx.inserts = []
  updates : ∀ u ∈ tx.updates, u ∈ s.rows

instance (tx : Transaction) (s : RowStore) : Decidable (tx.LeavesAlone s) :=
  decidable_of_iff (tx.deletes = [] ∧ tx.inserts = [] ∧ ∀ u ∈ tx.updates, u ∈ s.rows)
    ⟨fun h => ⟨h.1, h.2.1, h.2.2⟩, fun h => ⟨h.1, h.2, h.3⟩⟩

/-- With distinct ids, two rows of a store with one id are one row. -/
theorem row_unique (hs : s.Valid) {r r' : Row} (hr : r ∈ s.rows) (hr' : r' ∈ s.rows)
    (h : r.id = r'.id) : r = r' := by
  have hfind := Keyed.find?_eq_some_of_mem hs.distinct hr
  have hfind' := Keyed.find?_eq_some_of_mem hs.distinct hr'
  rw [h] at hfind
  exact Option.some.inj (hfind.symm.trans hfind')

/-- What changes nothing leaves the rows as they are. -/
theorem LeavesAlone.publish (hs : s.Valid) (ht : tx.Ordered) (hl : tx.LeavesAlone s)
    (h : tx.publish s = .ok next) : next.rows = s.rows := by
  obtain ⟨-, placed, hplaced, hrows⟩ := publish_eq_ok hs ht h
  rw [hl.inserts] at hplaced
  obtain rfl := forall₂_nil_left_iff.1 hplaced
  have hpatch : ∀ r ∈ s.rows, Keyed.patch Row.id tx.updates r = r := by
    intro r hr
    unfold Keyed.patch
    cases hfind : tx.updates.find? (fun u => decide (u.id = r.id)) with
    | none => rfl
    | some u =>
      obtain ⟨hu, hid⟩ := Keyed.of_find?_eq_some hfind
      exact row_unique hs (hl.updates u hu) hr hid
  rw [hrows, Keyed.overlay, hl.deletes, append_nil]
  simp only [not_mem_nil, not_false_eq_true, decide_true, filter_true]
  rw [map_congr_left hpatch, map_id']

/-- **And what leaves the rows as they are has changed nothing**, where the
ids changed and the ids reserved are parted. -/
theorem leavesAlone_of_publish {n : RowId} (hs : s.Valid) (ht : tx.Ordered) (hp : tx.Parted n)
    (hn : n ≤ s.nextId) (h : tx.publish s = .ok next) (heq : next.rows = s.rows) :
    tx.LeavesAlone s := by
  obtain ⟨hpub, placed, hplaced, hrows⟩ := publish_eq_ok hs ht h
  have hids : (s.rows.map Row.id).filter (fun k => decide (k ∉ tx.deletes)) ++ placed.map Row.id =
      s.rows.map Row.id := by
    rw [← Keyed.map_key_overlay tx.deletes tx.updates placed s.rows, ← hrows, heq]
  -- an inserted row stands under an id that no row deleted here can have
  have hnew : ∀ r ∈ placed, r.id ∉ tx.deletes := by
    intro r hr hdel
    have hlt : r.id < n := hp.deletes _ hdel
    obtain ⟨staged, hstaged, hplace⟩ := exists_left_of_forall₂ hplaced hr
    have hge : n ≤ r.id := by
      rcases hplace.fresh with hid | hid
      · rw [hid]
        exact hp.inserts _ (mem_map_of_mem hstaged)
      · exact UInt64.le_trans hn hid
    exact UInt64.lt_irrefl _ (UInt64.lt_of_lt_of_le hlt hge)
  have hdeletes : tx.deletes = [] := by
    refine eq_nil_iff_forall_not_mem.2 fun d hd => ?_
    have hmem := hpub.deletes d hd
    rw [RowStore.ids, ← hids, mem_append, mem_filter] at hmem
    rcases hmem with ⟨-, hnot⟩ | hmem
    · exact of_decide_eq_true hnot hd
    · obtain ⟨r, hr, rfl⟩ := mem_map.1 hmem
      exact hnew r hr hd
  have hplacednil : placed = [] := by
    rw [hdeletes] at hids
    simp only [not_mem_nil, not_false_eq_true, decide_true, filter_true] at hids
    exact map_eq_nil_iff.1 (append_right_eq_self.1 hids)
  refine ⟨hdeletes, ?_, fun u hu => ?_⟩
  · rw [hplacednil] at hplaced
    exact forall₂_nil_right_iff.1 hplaced
  · obtain ⟨r, hr, hid⟩ := mem_map.1 (hpub.updates u.id (mem_map_of_mem hu))
    have hmem : u ∈ next.rows := by
      rw [hrows]
      refine Keyed.mem_overlay.2 (Or.inl ⟨r, hr, ?_, ?_⟩)
      · rw [hdeletes]
        exact not_mem_nil
      · exact Keyed.patch_of_mem ht.updates_nodup hu hid.symm
    rw [heq] at hmem
    exact hmem

end Transaction

end Shoveler
