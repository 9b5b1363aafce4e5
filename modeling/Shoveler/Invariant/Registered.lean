import Shoveler.Invariant.Restored

/-!
# Definitions and what is stored of them

Views and procedures stand in a database twice: as texts in the catalog,
and parsed in the registries, one for one and in the same order. What of
the two sides is in step at the start and where one is created stays in
step in every run (`registered_run`), and over every reopening between
runs, where it holds of all that is restored (`Loaded.registered`).
-/

namespace Shoveler

open Outcome

/-- **The two sides in step**: each view and each procedure of the catalog
with what is stored of it. -/
structure Database.Registered (P : ViewDef → StoredView → Prop)
    (Q : ProcedureDef → StoredProcedure → Prop) (db : Database) : Prop where
  views : List.Forall₂ P db.catalog.views db.views
  procedures : List.Forall₂ Q db.catalog.procedures db.procedures

/-- What an event that creates a view or a procedure puts on the two sides
is in step. -/
def Event.Registers (frontend : Frontend) (P : ViewDef → StoredView → Prop)
    (Q : ProcedureDef → StoredProcedure → Prop) : Event → Prop
  | .statement _ (.createView created) =>
    ¬(created.query.source.isNone = true ∧ created.query.fromName.isNone = true) →
      P ⟨created.name, created.bodySql⟩ ⟨created.name, created.query⟩
  | .statement _ (.createProcedure created) =>
    ∀ body, frontend.parseBody created.bodySql = some body →
      Q ⟨created.name, created.bodySql⟩ ⟨created.name, created.params, body⟩
  | _ => True

namespace Database.Registered

variable {P : ViewDef → StoredView → Prop} {Q : ProcedureDef → StoredProcedure → Prop}
variable {db db' : Database} {frontend : Frontend}

theorem empty : Registered P Q {} := ⟨.nil, .nil⟩

/-- What changes neither side keeps them in step. -/
theorem same (h : db.Registered P Q) (hcatalogViews : db'.catalog.views = db.catalog.views)
    (hcatalogProcedures : db'.catalog.procedures = db.catalog.procedures)
    (hviews : db'.views = db.views) (hprocedures : db'.procedures = db.procedures) :
    db'.Registered P Q := by
  refine ⟨?_, ?_⟩
  · rw [hcatalogViews, hviews]
    exact h.views
  · rw [hcatalogProcedures, hprocedures]
    exact h.procedures

theorem createTable (h : db.Registered P Q) (hvalid : db.Valid)
    (statement : Ast.CreateTableStatement) :
    (orKeep db (db.createTable statement)).1.Registered P Q := by
  cases hc : db.createTable statement with
  | error e => exact h
  | ok db' =>
    rcases createTable_eq_ok hvalid hc with rfl | ⟨spec, table, -, -, -, -, rfl⟩
    · exact h
    · exact h.same rfl rfl rfl rfl

theorem dropTable (h : db.Registered P Q) (hvalid : db.Valid) (statement : Ast.NamedStatement) :
    (orKeep db (db.dropTable statement)).1.Registered P Q := by
  cases hd : db.dropTable statement with
  | error e => exact h
  | ok db' =>
    rcases dropTable_eq_ok hvalid hd with rfl | ⟨i, -, rfl⟩
    · exact h
    · exact h.same rfl rfl rfl rfl

theorem createView (h : db.Registered P Q) {i : ℕ} {statement : Ast.CreateViewStatement}
    (hnew : Event.Registers frontend P Q (.statement i (.createView statement))) :
    (db.createView statement).1.Registered P Q := by
  rcases @createView_cases db statement with ⟨e, he⟩ | ⟨-, hstored, hc⟩
  · rw [he]
    exact h
  · rw [hc]
    rw [createStoredView, ite_error_eq_ok, ite_error_eq_ok] at hstored
    exact ⟨List.rel_append h.views (.cons (hnew hstored.2.1) .nil), h.procedures⟩

theorem dropView (h : db.Registered P Q) (hvalid : db.Valid) (statement : Ast.NamedStatement) :
    (db.dropView statement).1.Registered P Q := by
  rcases dropView_cases hvalid statement with ⟨e, he⟩ | ⟨i, hd⟩
  · rw [he]
    exact h
  · rw [hd]
    exact ⟨forall₂_eraseIdx h.views i, h.procedures⟩

theorem createProcedure (h : db.Registered P Q) {i : ℕ} {statement : Ast.ProcedureStatement}
    (hnew : Event.Registers frontend P Q (.statement i (.createProcedure statement))) :
    (db.createProcedure frontend.parseBody statement).1.Registered P Q := by
  rcases @createProcedure_cases db frontend.parseBody statement with ⟨e, he⟩ | ⟨-, body, hbody, hc⟩
  · rw [he]
    exact h
  · rw [hc]
    exact ⟨h.views, List.rel_append h.procedures (.cons (hnew body hbody) .nil)⟩

theorem dropProcedure (h : db.Registered P Q) (hvalid : db.Valid)
    (statement : Ast.NamedStatement) : (db.dropProcedure statement).1.Registered P Q := by
  rcases dropProcedure_cases hvalid statement with ⟨e, he⟩ | ⟨i, hd⟩
  · rw [he]
    exact h
  · rw [hd]
    exact ⟨h.views, forall₂_eraseIdx h.procedures i⟩

end Database.Registered

namespace System

variable {P : ViewDef → StoredView → Prop} {Q : ProcedureDef → StoredProcedure → Prop}
variable {sys : System}

/-- **Every event keeps the two sides in step**, also one that fails. -/
theorem registered_step (frontend : Frontend) (h : sys.Coherent) (hr : sys.db.Registered P Q)
    {event : Event} (hnew : event.Registers frontend P Q) :
    (sys.step frontend event).db.Registered P Q := by
  cases event with
  | statement i statement =>
    cases statement with
    | begin =>
      change (Session.begin (sys.sessions i) sys.db).1.Registered P Q
      unfold Session.begin
      split
      · exact hr
      · exact hr.same rfl rfl rfl rfl
    | commit =>
      obtain ⟨hcatalog, hviews, hprocedures⟩ := commit_schema (h.commit_outcome i)
      rw [h.step_commit frontend i]
      exact hr.same (congrArg _ hcatalog) (congrArg _ hcatalog) hviews hprocedures
    | rollback =>
      change (Session.rollback (sys.sessions i) sys.db).1.Registered P Q
      unfold Session.rollback
      split
      · exact hr
      · split
        · exact hr
        · exact hr.same rfl rfl rfl rfl
    | createTable statement => exact hr.createTable h.valid statement
    | dropTable statement => exact hr.dropTable h.valid statement
    | createView statement => exact hr.createView hnew
    | dropView statement => exact hr.dropView h.valid statement
    | createProcedure statement => exact hr.createProcedure hnew
    | dropProcedure statement => exact hr.dropProcedure h.valid statement
    | insert | update | delete | select | call => exact hr
  | deinit i => exact hr.same rfl rfl rfl rfl
  | drain g n => exact hr.same rfl rfl rfl rfl

/-- **And so does every run.** -/
theorem registered_run (frontend : Frontend) (h : sys.Coherent) (hr : sys.db.Registered P Q)
    {events : List Event} (hnew : ∀ event ∈ events, event.Registers frontend P Q) :
    (sys.run frontend events).db.Registered P Q := by
  have hboth := Run.run_invariant (I := fun sys : System => sys.Coherent ∧ sys.db.Registered P Q)
    (C := fun _ event => event.Registers frontend P Q)
    (fun sys event hsys hcond =>
      ⟨coherent_step frontend hsys.1 event, registered_step frontend hsys.1 hsys.2 hcond⟩)
    ⟨h, hr⟩ (Run.along_of_mem fun event hmem _ => hnew event hmem)
  exact hboth.2

end System

/-! ## From one run of the program to the next -/

/-- **The databases the program starts with**: an empty one, or one that
was restored from what a run of the program had left; `W` holds of every
event on the way. -/
inductive Database.Loaded (frontend : Frontend) (W : Event → Prop) : Database → Prop
  | empty : Loaded frontend W {}
  | reopened {db db' : Database} {events : List Event} :
      Loaded frontend W db → (∀ event ∈ events, W event) →
      ((System.start db).run frontend events).db.reopen frontend = .ok db' →
      Loaded frontend W db'

namespace Database.Loaded

variable {frontend : Frontend} {W : Event → Prop} {db : Database}

/-- They are databases just opened. -/
theorem opened (h : Loaded frontend W db) : System.Opened db := by
  induction h with
  | empty => exact .empty
  | @reopened db db' events _ _ hreopen hopened =>
    have hreach : ((System.start db).run frontend events).Reachable frontend :=
      ⟨db, events, hopened, rfl⟩
    have hvalid := hreach.coherent.valid
    obtain ⟨-, -, views, procedures, hviews, hprocedures, rfl⟩ := (reopen_eq_ok hvalid).1 hreopen
    refine ⟨?_, rfl, rfl, rfl, rfl⟩
    have hrestored := valid_restored hvalid.wellFormed_exported hviews hprocedures
    rw [hvalid.states_exported] at hrestored
    exact hrestored

theorem coherent (h : Loaded frontend W db) (events : List Event) :
    ((System.start db).run frontend events).Coherent :=
  System.Reachable.coherent ⟨db, events, h.opened, rfl⟩

/-- **The two sides are in step at every time**, if they are for what is
restored and for what is created. -/
theorem registered {P : ViewDef → StoredView → Prop} {Q : ProcedureDef → StoredProcedure → Prop}
    (hP : ∀ view stored, RestoresView frontend view stored → P view stored)
    (hQ : ∀ procedure stored, RestoresProcedure frontend procedure stored → Q procedure stored)
    (hW : ∀ event, W event → event.Registers frontend P Q) (h : Loaded frontend W db)
    {events : List Event} (hevents : ∀ event ∈ events, W event) :
    ((System.start db).run frontend events).db.Registered P Q := by
  have hstart : db.Registered P Q := by
    cases h with
    | empty => exact .empty
    | @reopened before _ earlier hbefore _ hreopen =>
      obtain ⟨-, -, views, procedures, hviews, hprocedures, rfl⟩ :=
        (reopen_eq_ok (hbefore.coherent earlier).valid).1 hreopen
      exact ⟨hviews.imp hP, hprocedures.imp hQ⟩
  exact System.registered_run frontend (h.coherent []) hstart fun event hevent =>
    hW event (hevents event hevent)

end Database.Loaded

end Shoveler
