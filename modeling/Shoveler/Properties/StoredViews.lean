import Shoveler.Model.View
import Shoveler.Properties.Durability

/-!
# Views after a reopening

Of a view a checkpoint keeps the text of its query only, as it was cut out
of the `CREATE VIEW`. If every quoted token of that statement is closed,
the text is parsed to the query of the view, and the registry stores the
same copy of it that it stored at first (`view_survives_reopen`). A token
that is left open takes in the end of the text, whatever that is, and
trimming may change it.
-/

namespace Shoveler

open Outcome

variable {parseFloat : Bytes → Option UInt64} {others : Frontend}

/-- **The view that comes back.** What `createRuntimeViewFromBody` makes of
a text is what the registry makes of the query it is parsed to. -/
theorem createRuntimeViewFromBody_of_parse {bodySql : Bytes} {query : Ast.SelectStatement}
    (h : Sql.parse parseFloat bodySql = .ok (.select query)) (db : Database) (name : Bytes) :
    db.createRuntimeViewFromBody (Sql.frontend parseFloat others) name bodySql =
      (ViewRegistry.create db.views name query).map fun views => { db with views := views } := by
  have hparse : (Sql.frontend parseFloat others).parse bodySql = some (.select query) :=
    Sql.frontend_parse.2 h
  simp only [Database.createRuntimeViewFromBody, hparse, ViewRegistry.create_eq]
  cases createStoredView db.views name query with
  | error e => rfl
  | ok views => rfl

/-- **Restoring a view is creating it again**, with the same outcome on
every database, if its text is parsed to its query. -/
theorem restoreView_eq_createView {view : Ast.CreateViewStatement}
    (h : Sql.parse parseFloat view.bodySql = .ok (.select view.query)) (db : Database) :
    db.restoreView (Sql.frontend parseFloat others) ⟨view.name, view.bodySql⟩ =
      (db.createView view).2.map fun _ => (db.createView view).1 := by
  rw [Database.restoreView, Database.createView]
  cases db.catalog.registerView view.name view.bodySql with
  | error e => rfl
  | ok catalog =>
    rw [ok_bind, createRuntimeViewFromBody_of_parse h, ViewRegistry.create_eq]
    cases createStoredView db.views view.name view.query with
    | ok views => rfl
    | error e =>
      -- the failed creation takes its definition back, and returns the error either way
      cases hdrop : catalog.dropView view.name with
      | error e' => simp only [hdrop, Except.map]
      | ok catalog' => simp only [hdrop, Except.map]

/-- A registry that takes a view has its query from then on. -/
theorem ViewRegistry.create_eq_ok {views views' : List StoredView} {name : Bytes}
    {query : Ast.SelectStatement} (h : ViewRegistry.create views name query = .ok views') :
    views' = views ++ [⟨name, query⟩] := by
  rw [create, ite_error_eq_ok, ite_error_eq_ok, cloneSelect_eq] at h
  exact (Except.ok.inj h.2.2).symm

/-- A view that stands in the catalog of a database with its text is among
the views of the reopened one, with the query its text is parsed to. -/
theorem Database.Valid.mem_views_reopen {db db' : Database} (hvalid : db.Valid) {name bodySql : Bytes}
    {query : Ast.SelectStatement} (h : Sql.parse parseFloat bodySql = .ok (.select query))
    (hmem : (⟨name, bodySql⟩ : ViewDef) ∈ db.catalog.views)
    (hreopen : db.reopen (Sql.frontend parseFloat others) = .ok db') :
    (⟨name, query⟩ : StoredView) ∈ db'.views := by
  obtain ⟨-, -, views, procedures, hviews, -, rfl⟩ := (Database.reopen_eq_ok hvalid).1 hreopen
  obtain ⟨k, hk⟩ := List.mem_iff_getElem?.1 hmem
  obtain ⟨⟨name', query'⟩, hstored, hrestores⟩ := getElem?_of_forall₂ hviews hk
  obtain rfl : name' = name := hrestores.name
  have hparse : Sql.parse parseFloat bodySql = .ok (.select query') :=
    Sql.frontend_parse.1 hrestores.parses
  obtain rfl : query' = query := by
    rw [h] at hparse
    exact (Ast.Statement.select.inj (Except.ok.inj hparse)).symm
  exact List.mem_of_getElem? hstored

/-- **A view survives a reopening.** Of a `CREATE VIEW` whose quoted tokens
are all closed, the text that is kept passes policy and is parsed to the
query of the view. From either of them a registry makes the same, and
stores that query. Restoring the view from its text is creating it again,
and a database with the view in its catalog has it when it is reopened. -/
theorem view_survives_reopen (parseFloat : Bytes → Option UInt64) (others : Frontend) {sql : Bytes}
    {view : Ast.CreateViewStatement} (hclosed : ∀ token ∈ tokenize sql, token.terminated = true)
    (h : Sql.parse parseFloat sql = .ok (.createView view)) :
    firstViolation view.bodySql = none ∧
      Sql.parse parseFloat view.bodySql = .ok (.select view.query) ∧
      (∀ views views', ViewRegistry.create views view.name view.query = .ok views' →
        views' = views ++ [⟨view.name, view.query⟩]) ∧
      (∀ db : Database,
        db.createRuntimeViewFromBody (Sql.frontend parseFloat others) view.name view.bodySql =
          (ViewRegistry.create db.views view.name view.query).map
            fun views => { db with views := views }) ∧
      (∀ db : Database,
        db.restoreView (Sql.frontend parseFloat others) ⟨view.name, view.bodySql⟩ =
          (db.createView view).2.map fun _ => (db.createView view).1) ∧
      ∀ db db' : Database, db.Valid → (⟨view.name, view.bodySql⟩ : ViewDef) ∈ db.catalog.views →
        db.reopen (Sql.frontend parseFloat others) = .ok db' →
        (⟨view.name, view.query⟩ : StoredView) ∈ db'.views := by
  obtain ⟨query, hparse, -, -, hsame⟩ := Sql.parse_bodySql h
  obtain rfl := hsame hclosed
  obtain ⟨hpolicy, -⟩ := Sql.parse_eq_ok.1 hparse
  exact ⟨hpolicy, hparse, fun _ _ => ViewRegistry.create_eq_ok,
    fun db => createRuntimeViewFromBody_of_parse hparse db view.name,
    restoreView_eq_createView hparse, fun db db' hvalid => hvalid.mem_views_reopen hparse⟩

/-- The text of a view with a join, a derived table, an alias in backticks
and a literal with a quote in it, and semicolons behind. -/
def richView : Bytes :=
  ascii ("CREATE VIEW w AS SELECT a.v, COUNT(*) AS `n` FROM A AS a LEFT JOIN (SELECT v FROM B) b " ++
    "ON a.v = b.v WHERE a.t = 'it''s' GROUP BY a.v ORDER BY n DESC LIMIT 3 ; ;")

/-- Its view. -/
def richStatement : Ast.CreateViewStatement :=
  match Sql.parse (fun _ => none) richView with
  | .ok (.createView view) => view
  | _ => ⟨[], { projections := [] }, []⟩

theorem richView_eq : Sql.parse (fun _ => none) richView = .ok (.createView richStatement) := by
  have hview : (match Sql.parse (fun _ => none) richView with
      | .ok (.createView _) => true
      | _ => false) = true := by decide +kernel
  unfold richStatement
  split at hview
  · rename_i view hparse
    rw [hparse]
  · cases hview

/-- Its text is parsed to its query. -/
theorem view_survives_reopen_rich :
    (∀ token ∈ tokenize richView, token.terminated = true) ∧
      Sql.parse (fun _ => none) richStatement.bodySql = .ok (.select richStatement.query) := by
  have hclosed : ∀ token ∈ tokenize richView, token.terminated = true := by decide +kernel
  exact ⟨hclosed,
    (view_survives_reopen (fun _ => none) Script.frontend hclosed richView_eq).2.1⟩

end Shoveler
