import Shoveler.Invariant.Restored

/-!
# Tables that can be rebuilt

Keeping a generation copies its tables, definitions included, and a
definition that was accepted once may be refused when it is built again.
Where all of them can be rebuilt the limit of the registry is all that can
stand in the way (`retention_error`, `retainCurrent_of_room`).
-/

namespace Shoveler

/-- Retention goes through where the definitions can be rebuilt and there is
room for one more generation. -/
theorem retainCurrent_of_room {db : Database} {excluding : Option SnapshotHandle}
    (hvalid : db.Valid) (hgood : db.registry.Good) (hr : db.Rebuilds)
    (hroom : db.registry.needsRetention db.commitSequence excluding = true →
      db.registry.retained.length < db.registry.retentionLimit) :
    ∃ reg, db.retainCurrentGenerationForActiveSnapshots excluding = (reg, .ok ()) := by
  unfold Database.retainCurrentGenerationForActiveSnapshots
  split
  · rename_i hneeds
    have hnone := (Registry.of_needsRetention hneeds).2
    have hindex : ¬(db.registry.findRetainedIndex db.commitSequence).isSome = true := by
      rw [Registry.findRetainedIndex_isSome, hnone]
      exact Bool.false_ne_true
    have hlimit := Nat.not_le_of_lt (hroom hneeds)
    simp only [Registry.retainGeneration, if_neg hindex, hgood.sweepReleasedGenerations,
      ge_iff_le, if_neg hlimit, (capture_eq_ok hvalid).2 ⟨hr, rfl⟩]
    exact ⟨_, rfl⟩
  · exact ⟨_, rfl⟩

namespace System

variable {sys : System}

/-- Tables that follow others are rebuilt where those are. -/
theorem rebuilds_of_follows {db db' : Database} (h : db.Rebuilds)
    (hf : List.Forall₂ Database.Follows db.tables db'.tables) : db'.Rebuilds := by
  intro t' ht'
  obtain ⟨t, ht, hfollow⟩ := Outcome.exists_left_of_forall₂ hf ht'
  rw [hfollow.2.table]
  exact h t ht

/-- Retention of tables that can be rebuilt is refused at the limit only. -/
theorem Coherent.retention_error (h : sys.Coherent) (hr : sys.db.Rebuilds)
    {excluding : Option SnapshotHandle} {registry : Registry} {e : Error}
    (hret : sys.db.retainCurrentGenerationForActiveSnapshots excluding = (registry, .error e)) :
    e = .snapshotRetentionExceeded := by
  rcases retainCurrent_cases h.registry h.valid excluding with ⟨-, he⟩ | ⟨-, he⟩ | ⟨e', he, hwhy⟩
  all_goals rw [he] at hret; obtain ⟨-, hout⟩ := Prod.mk.inj hret
  · cases hout
  · cases hout
  · obtain rfl := Except.error.inj hout
    rcases hwhy with hlimit | ⟨t, ht, hnot⟩
    · exact hlimit
    · exact absurd (hr t ht) hnot

end System

end Shoveler
