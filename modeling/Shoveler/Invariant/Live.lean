import Shoveler.Invariant.Coherent

/-!
# Live transactions

A table transaction is active when it is opened, and only `COMMIT` and
`ROLLBACK` change that, after which the session is closed and has none
left. The one exception is a commit that stops half way: it leaves the
session active with transactions that are committed already. Where every
commit succeeds or fails before it publishes a table (`CommitsClean`), all
table transactions of all sessions stay active (`live_run`).
-/

namespace Shoveler

/-- **A commit that succeeds, or fails before it publishes a table.** -/
def CommitsClean (sys : System) : Event → Prop
  | .statement i .commit =>
    ((sys.sessions i).commit sys.db).2.2 = .ok () ∨
      ((sys.sessions i).commit sys.db).1.tables = sys.db.tables ∧
        ((sys.sessions i).commit sys.db).2.1 = sys.sessions i
  | _ => True

instance (sys : System) : DecidablePred (CommitsClean sys) := by
  rintro (⟨i, ⟨⟩⟩ | _ | _)
  case statement.commit => exact inferInstanceAs (Decidable (_ ∨ _ ∧ _))
  all_goals exact instDecidableTrue

/-- **A session whose table transactions are all active.** -/
def Session.Live (s : Session) : Prop := ∀ e ∈ s.transactions, e.tx.state = .active

namespace Session

variable {s : Session}

theorem Live.of_nil (h : s.transactions = []) : s.Live := by
  intro e he
  rw [h] at he
  cases he

/-- Staging leaves the transactions active. -/
theorem stagingRule_live (db : Database) : StagingRule db Live (fun _ _ _ => Live) :=
  .of_frame (fun _ => rfl) fun hlive hframe => hframe.2.trans hlive

/-- A rollback of active transactions goes through. -/
theorem Live.rollback (h : s.Live) (ha : s.active = true) (db : Database) :
    s.rollback db =
      ({ db with registry := s.releaseHandle db.registry }, s.close, .ok ()) := by
  have hall := rollbackAll_eq_ok.2 h
  rw [Session.rollback, if_neg (by simp [ha])]
  cases hr : Session.rollbackAll s.transactions with
  | mk transactions outcome =>
    rw [hr] at hall
    simp only at hall
    rw [hall]

theorem rollback_of_inactive (ha : s.active = false) (db : Database) :
    s.rollback db = (db, s, .error .noActiveTransaction) := by
  rw [Session.rollback, if_pos (by simp [ha])]

end Session

namespace System

variable {sys : System} {i : ℕ}

/-- **Every event keeps the sessions live**, unless it is a commit that
stops half way. -/
theorem live_step (frontend : Frontend) (h : sys.Coherent) (hlive : ∀ i, (sys.sessions i).Live)
    {event : Event} (hclean : CommitsClean sys event) (j : ℕ) :
    ((sys.step frontend event).sessions j).Live := by
  have hupdate : ∀ {i : ℕ} {db' : Database} {s' : Session}, s'.Live →
      ((sys.put i db' s').sessions j).Live := by
    intro i db' s' hs'
    by_cases hj : j = i
    · subst hj
      simpa using hs'
    · simpa [hj] using hlive j
  have heffect := h.effect frontend event
  generalize sys.step frontend event = sys' at heffect ⊢
  cases heffect with
  | begins i => exact hupdate (hlive i)
  | halts i transactions e _ hr =>
    -- every transaction is active, so the loop goes through
    have hok := rollbackAll_eq_ok.2 (hlive i)
    rw [hr] at hok
    cases hok
  | rollsBack | idles | ends => exact hupdate (.of_nil rfl)
  | published _ _ _ _ _ _ _ _ hs =>
    subst hs
    exact hupdate (.of_nil rfl)
  | stopped i registry tables transactions e _ _ _ hc =>
    rw [CommitsClean, hc] at hclean
    rcases hclean with hok | ⟨-, hsession⟩
    · cases hok
    · exact hupdate (hsession ▸ hlive i)
  | stages i _ _ _ hrule => exact hupdate (hrule (Session.stagingRule_live sys.db) (hlive i))
  | _ => exact hlive j

/-- **And so does every run.** -/
theorem live_run (frontend : Frontend) (h : sys.Coherent) (hlive : ∀ i, (sys.sessions i).Live)
    {events : List Event} (hclean : sys.Along frontend CommitsClean events) (j : ℕ) :
    ((sys.run frontend events).sessions j).Live := by
  have hboth := Run.run_invariant (I := fun s => System.Coherent s ∧ ∀ i, (s.sessions i).Live)
    (C := CommitsClean) (fun s event hs hc =>
      ⟨coherent_step frontend hs.1 event, live_step frontend hs.1 hs.2 hc⟩) ⟨h, hlive⟩ hclean
  exact hboth.2 j

end System

end Shoveler
