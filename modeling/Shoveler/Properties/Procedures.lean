import Shoveler.Invariant.Alike
import Shoveler.Invariant.Registered

/-!
# Procedures over a reopening

The catalog keeps the name of a procedure and the text of its body, and so
does the file. The runtime procedure is made from these when the database
is opened again, with no parameters. So a procedure comes back as it was,
and calls of it go as they went, exactly when it has no parameters
(`procedure_reopened_iff`, `parameters_lost`).
-/

namespace Shoveler

open Outcome Script

/-- **What is stored of a procedure**: its name, and the body its text
parses to. -/
structure StoresProcedure (frontend : Frontend) (procedure : ProcedureDef)
    (stored : StoredProcedure) : Prop where
  name : stored.name = procedure.name
  parses : frontend.parseBody procedure.body = some stored.body

/-- **Calls go alike** through one registry and the other: in databases that
hold them, and for sessions that see alike, a call by this name has the
same answer and stages the same changes. -/
def CallsAlike (frontend : Frontend) (procedures procedures' : List StoredProcedure)
    (name : Bytes) : Prop :=
  ∀ db s db' s' call, db.procedures = procedures → db'.procedures = procedures' →
    namesEqual call.name name = true → SeesAlike db s db' s' →
      AnswersAlike db (executeCall frontend db s call) db' (executeCall frontend db' s' call)

namespace Database

variable {frontend : Frontend} {W : Event → Prop} {start db db' : Database}

/-- **The registry holds what the catalog says**, at every time. -/
theorem Loaded.storesProcedures (h : start.Loaded frontend W) {events : List Event}
    (hevents : ∀ event ∈ events, W event) :
    List.Forall₂ (StoresProcedure frontend)
      ((System.start start).run frontend events).db.catalog.procedures
      ((System.start start).run frontend events).db.procedures := by
  refine (h.registered (P := fun _ _ => True) (fun _ _ _ => trivial)
    (fun _ _ hr => ⟨hr.name, hr.parses⟩) (fun event _ => ?_) hevents).procedures
  unfold Event.Registers
  split
  · exact fun _ => trivial
  · exact fun body hbody => ⟨rfl, hbody⟩
  · exact trivial

/-- A procedure and what comes back of it. -/
theorem restored_procedure (hvalid : db.Valid)
    (hstored : List.Forall₂ (StoresProcedure frontend) db.catalog.procedures db.procedures)
    (hreopen : db.reopen frontend = .ok db') {p : StoredProcedure} (hp : p ∈ db.procedures) :
    { p with params := [] } ∈ db'.procedures := by
  obtain ⟨-, -, views, procedures, -, hprocedures, rfl⟩ := (reopen_eq_ok hvalid).1 hreopen
  obtain ⟨k, hk⟩ := List.mem_iff_getElem?.1 hp
  obtain ⟨definition, hdef, hstores⟩ := getElem?_of_forall₂ hstored.flip hk
  obtain ⟨q, hq, hrestores⟩ := getElem?_of_forall₂ hprocedures hdef
  have heq : q = { p with params := [] } := by
    obtain ⟨name, params, body⟩ := q
    have hbody : body = p.body :=
      Option.some.inj (hrestores.parses.symm.trans hstores.parses)
    have hname : name = p.name := hrestores.name.trans hstores.name.symm
    have hparams : params = [] := hrestores.params
    rw [hbody, hname, hparams]
  rw [← heq]
  exact List.mem_of_getElem? hq

/-- Procedures are stored under names of their own. -/
theorem Valid.procedureKeys_nodup (h : db.Valid) :
    (db.procedures.map fun p => foldCase p.name).Nodup := by
  have hkeys : (db.catalog.procedures.map ProcedureDef.key).Nodup :=
    h.distinct.sublist (List.sublist_append_right _ _)
  have hsame : db.procedures.map (fun p => foldCase p.name) =
      db.catalog.procedures.map ProcedureDef.key := by
    have hmap := congrArg (List.map foldCase) h.procedures
    rw [List.map_map, List.map_map] at hmap
    exact hmap
  rw [hsame]
  exact hkeys

/-- So a name finds the procedure it belongs to. -/
theorem Valid.find_procedure (h : db.Valid) {p : StoredProcedure} (hp : p ∈ db.procedures)
    {name : Bytes} (hname : namesEqual name p.name = true) :
    (db.procedures.find? fun stored => namesEqual stored.name name) = some p := by
  have hfind := @Keyed.find?_eq_some_of_mem _ _ _ (fun p : StoredProcedure => foldCase p.name) _
    h.procedureKeys_nodup _ hp
  rw [← namesEqual_iff.1 hname] at hfind
  exact hfind

end Database

/-- **A procedure comes back as it was exactly when it has no parameters**,
and then its calls go as they went; for every database the program can be
in, after any number of earlier reopenings. -/
theorem procedure_reopened_iff (frontend : Frontend) {start db' : Database}
    (hstart : start.Loaded frontend fun _ => True) (events : List Event)
    (hreopen : ((System.start start).run frontend events).db.reopen frontend = .ok db')
    {p : StoredProcedure} (hp : p ∈ ((System.start start).run frontend events).db.procedures) :
    (p ∈ db'.procedures ∧
      CallsAlike frontend ((System.start start).run frontend events).db.procedures db'.procedures
        p.name) ↔
      p.params = [] := by
  have hvalid := (hstart.coherent events).valid
  constructor
  · rintro ⟨hback, -⟩
    obtain ⟨-, -, views, procedures, -, hprocedures, rfl⟩ := (Database.reopen_eq_ok hvalid).1 hreopen
    obtain ⟨definition, -, hrestores⟩ := exists_left_of_forall₂ hprocedures hback
    exact hrestores.params
  · intro hparams
    have hback : p ∈ db'.procedures := by
      have hrestored := Database.restored_procedure hvalid
        (hstart.storesProcedures fun _ _ => trivial) hreopen hp
      rw [← hparams] at hrestored
      exact hrestored
    have hvalid' : db'.Valid :=
      (Database.Loaded.reopened hstart (fun _ _ => trivial) hreopen).opened.valid
    refine ⟨hback, fun d s d' s' call hd hd' hname hsees => hsees.executeCall frontend call ?_⟩
    rw [hd, hd', hvalid.find_procedure hp hname, hvalid'.find_procedure hback hname]

/-! ### A procedure with a parameter -/

/-- `BEGIN INSERT INTO A VALUES (x); END`. -/
def putBody : Bytes := ascii "BEGIN INSERT INTO A VALUES (x); END"

/-- `BEGIN INSERT INTO A VALUES (7); END`. -/
def putSevenBody : Bytes := ascii "BEGIN INSERT INTO A VALUES (7); END"

/-- A parser of bodies that knows these two. -/
def putFrontend : Frontend where
  parse := frontend.parse
  parseBody := fun text =>
    if text = putBody then
      some [.sql (.insert { tableName := ascii "A", values := [.identifier (ascii "x")] })]
    else if text = putSevenBody then
      some [.sql (.insert { tableName := ascii "A", values := [literal (some 7)] })]
    else none
  select := frontend.select

/-- A database with table `A` and a procedure. -/
def putDatabase (params : List Ast.ProcedureParam) (body : Bytes) : Database :=
  ((System.start {}).run putFrontend
    [createTable 0 "A" ["v"],
      .statement 0 (.createProcedure { name := ascii "put", params := params, bodySql := body })]).db

/-- What comes back of it. -/
def putReopened (params : List Ast.ProcedureParam) (body : Bytes) (parsed : ProcedureBody.Body) :
    Database where
  catalog := (putDatabase params body).catalog
  tables := (putDatabase params body).tables
  procedures := [⟨ascii "put", [], parsed⟩]

theorem reopen_putDatabase {params : List Ast.ProcedureParam} {body : Bytes}
    {parsed : ProcedureBody.Body} (hparse : putFrontend.parseBody body = some parsed)
    (hcatalog : (putDatabase params body).catalog.procedures = [⟨ascii "put", body⟩] ∧
      (putDatabase params body).catalog.views = [] ∧ (putDatabase params body).Rebuilds)
    (hencodes : (Persistence.encodeSnapshot (putDatabase params body).exported).isOk = true) :
    (putDatabase params body).reopen putFrontend = .ok (putReopened params body parsed) := by
  obtain ⟨hprocedures, hviews, hrebuilds⟩ := hcatalog
  have hvalid : (putDatabase params body).Valid :=
    (Database.Loaded.coherent (.empty : Database.Loaded putFrontend (fun _ => True) {}) _).valid
  refine (Database.reopen_eq_ok hvalid).2
    ⟨hrebuilds, exists_ok hencodes, [], [⟨ascii "put", [], parsed⟩], ?_, ?_, rfl⟩
  · rw [hviews]
    exact .nil
  · rw [hprocedures]
    exact .cons ⟨rfl, hparse, rfl⟩ .nil

/-- What a new session is told that calls the procedure in a transaction. -/
def callPut (db : Database) (args : List Ast.Expression) : Result ExecutionResult :=
  (((System.start db).step putFrontend (begin 0)).perform putFrontend
    (.statement 0 (.call { name := ascii "put", args := args }))).2

/-- Without parameters the procedure comes back. -/
theorem procedure_reopened_seven :
    ∃ db', (putDatabase [] putSevenBody).reopen putFrontend = .ok db' ∧
      ∃ p ∈ (putDatabase [] putSevenBody).procedures, p ∈ db'.procedures ∧
        CallsAlike putFrontend (putDatabase [] putSevenBody).procedures db'.procedures p.name := by
  have hreopen := @reopen_putDatabase [] putSevenBody _ rfl (by decide +kernel)
    (by decide +kernel)
  refine ⟨_, hreopen, ⟨ascii "put", [], _⟩, List.mem_singleton.2 rfl, ?_⟩
  exact (procedure_reopened_iff putFrontend .empty _ hreopen (List.mem_singleton.2 rfl)).2 rfl

/-- **With a parameter it does not**: the call that was accepted is refused
after the reopening, for its number of arguments. -/
theorem parameters_lost :
    callPut (putDatabase [⟨ascii "x", .integer⟩] putBody) [Script.literal (some 7)] =
        .ok (.mutationCount 1) ∧
      ∃ db', (putDatabase [⟨ascii "x", .integer⟩] putBody).reopen putFrontend = .ok db' ∧
        callPut db' [Script.literal (some 7)] = .error .columnCountMismatch :=
  ⟨by decide +kernel, _, reopen_putDatabase rfl (by decide +kernel) (by decide +kernel),
    by decide +kernel⟩

end Shoveler
