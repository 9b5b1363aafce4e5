import Shoveler.Model.System

/-!
# The list of tables in memory

A table transaction keeps a pointer to the store of its table
(`Transaction.store`), and the store lies in the list `Database.tables`. A
slot of the list stands for the pointer in `Model.Transaction`, which is
right as long as the list stays where it is. The append of `CREATE TABLE`
may move it; `refreshTablePointers` then sets the definitions of the stores
and no pointer of a transaction, and each of these points at where the list
was. Here the two are kept apart: a run has no meaning from the first
statement on that follows such a pointer (`Placed.step`), and it is the run
of the system where no table is created while a table transaction is open
(`Placed.run_eq`).
-/

namespace Shoveler

/-- **The system in memory.** -/
structure Placed where
  sys : System
  /-- The sessions with a transaction that points at where the list of
  tables was. -/
  stale : ℕ → Bool

/-- An event that creates a table. -/
def Event.createsTable : Event → Bool
  | .statement _ (.createTable _) => true
  | _ => false

/-- **The session whose pointers an event follows.** `COMMIT` clones and
frees the store of every transaction of its session. The statements on rows
go to the transactions of their tables, and are taken to go to all. -/
def Event.follows : Event → Option ℕ
  | .statement i .commit => some i
  | .statement i (.insert _) | .statement i (.update _) | .statement i (.delete _) => some i
  | .statement i (.select _) | .statement i (.call _) => some i
  | _ => none

namespace Placed

/-- A system no pointer of which has gone stale. -/
def fresh (sys : System) : Placed := { sys := sys, stale := fun _ => false }

variable (frontend : Frontend) (moves : System → Event → Bool)

/-- **An event in memory.** `moves` is what the allocator does with the list
when the event appends to it. The transactions that are open then are left
behind until their session ends them. -/
def step (self : Placed) (event : Event) : Option Placed :=
  if event.follows.any self.stale then none
  else
    let next := self.sys.step frontend event
    let moved := event.createsTable && self.sys.db.tables.length < next.db.tables.length &&
      moves self.sys event
    some
      { sys := next
        stale := fun j =>
          (self.stale j || moved && !(self.sys.sessions j).transactions.isEmpty) &&
            !(next.sessions j).transactions.isEmpty }

/-- The memory after a list of events, if it still has a meaning. -/
def run (self : Placed) (events : List Event) : Option Placed :=
  events.foldlM (step frontend moves) self

end Placed

/-- **A table is created only while no table transaction is open.** -/
def CreatesApart (sys : System) (event : Event) : Prop :=
  event.createsTable = true → ∀ j, (sys.sessions j).transactions = []

namespace Placed

theorem step_fresh (frontend : Frontend) (moves : System → Event → Bool) {sys : System}
    {event : Event} (h : CreatesApart sys event) :
    (fresh sys).step frontend moves event = some (fresh (sys.step frontend event)) := by
  have hfollows : event.follows.any (fresh sys).stale = false := by
    cases event.follows <;> rfl
  rw [step, hfollows, if_neg Bool.false_ne_true]
  refine congrArg some (congrArg (Placed.mk _) (funext fun j => ?_))
  -- either nothing is appended, or nothing points into the list
  cases hcreates : event.createsTable with
  | false => simp [fresh]
  | true => simp [fresh, h hcreates j]

/-- **Where no table is created under a transaction the pointers are as good
as the slots**, wherever the allocator puts the list. -/
theorem run_eq (frontend : Frontend) (moves : System → Event → Bool) {sys : System}
    {events : List Event} (h : sys.Along frontend CreatesApart events) :
    (fresh sys).run frontend moves events = some (fresh (sys.run frontend events)) := by
  induction events generalizing sys with
  | nil => rfl
  | cons event rest ih =>
    rw [run, List.foldlM_cons, step_fresh frontend moves h.1]
    exact ih h.2

end Placed

end Shoveler
