import Shoveler.Properties.JoinSemantics
import Shoveler.Properties.SessionQueries
import Shoveler.Query.Names

/-!
# Qualified names

In `q.c` the qualifier should be the name a source is visible under: its
alias, or its own name where it has none. A source with an alias keeps its
own name as a second label, so `q.c` also finds the column `c` of every
source whose own name `q` is behind an alias. Where the visible names are
distinct, that can go wrong, and a point in `q`, and nothing else
(`qualified_name_resolves_iff`); a table joined with itself goes wrong
(`self_join_ambiguous`).
-/

namespace Shoveler

open List

namespace QuerySource

open Ast

/-- **Exactly one column has this name**, the one at this place. -/
def HasOne (columns : List ColumnBinding) (name : Bytes) (k : ℕ) : Prop :=
  k < columns.length ∧
    ∀ j (hj : j < columns.length), namesEqual columns[j].name name = true ↔ j = k

/-- **A source that takes part in `q.c` without being visible as `q`**: its
own name is `q`, behind an alias, and it has a column `c`. -/
def Shadows (ctx : Context) (scope : CteScope) (depth : ℕ) (q c : Bytes) (leaf : RowSource) :
    Prop :=
  (hiddenName leaf).any (namesEqual · q) = true ∧
    ∃ column ∈ (leafRows ctx scope depth leaf).columns, namesEqual column.name c = true

/-- The first index of a leaf's columns, behind these leaves. -/
def offset (ctx : Context) (scope : CteScope) (depth : ℕ) (before : List RowSource) : ℕ :=
  (before.map fun leaf => (leafRows ctx scope depth leaf).columns.length).sum

theorem findIdxs_eq_singleton {α : Type} {p : α → Bool} {l : List α} {k : ℕ} (hk : k < l.length)
    (h : ∀ j (hj : j < l.length), p l[j] = true ↔ j = k) (start : ℕ) :
    l.findIdxs p start = [start + k] := by
  have hperm : (l.findIdxs p start).Perm [start + k] := by
    rw [perm_ext_iff_of_nodup nodup_findIdxs (nodup_singleton _)]
    intro i
    rw [mem_findIdxs_iff_getElem_sub_pos, mem_singleton]
    constructor
    · rintro ⟨hle, hlt, hp⟩
      have hi := (h _ hlt).1 hp
      omega
    · rintro rfl
      have hsub : start + k - start = k := Nat.add_sub_cancel_left start k
      exact ⟨Nat.le_add_right _ _, by rwa [hsub], (h _ (by rwa [hsub])).2 hsub⟩
  exact perm_singleton.1 hperm

theorem append_singleton_append_eq {α : Type} {l r : List α} {a : α} :
    l ++ ([a] ++ r) = [a] ↔ l = [] ∧ r = [] := by
  constructor
  · intro h
    have hlength := congrArg length h
    simp only [length_append, length_singleton] at hlength
    exact ⟨length_eq_zero_iff.1 (by omega), length_eq_zero_iff.1 (by omega)⟩
  · rintro ⟨rfl, rfl⟩
    rfl

section Leaves

variable {ctx : Context} {scope : CteScope} {depth : ℕ} {source : RowSource} {q c : Bytes}

/-- **Who answers to `q.c` among the others**: of a source that is not
visible as `q`, the columns `c` if its own name is `q`. -/
theorem answers_other (hnamed : ctx.TablesNamed) {leaf : RowSource} (hleaf : leaf ∈ leaves source)
    (hrows : sourceRows ctx scope depth leaf = some (.ok (leafRows ctx scope depth leaf)))
    (hother : ∀ p ∈ visibleName leaf, namesEqual p q = false) :
    (∀ column ∈ (leafRows ctx scope depth leaf).columns, column.answers ⟨some q, c⟩ = false) ↔
      ¬Shadows ctx scope depth q c leaf := by
  have hvisible : (visibleName leaf).any (namesEqual · q) = false := by
    cases hname : visibleName leaf with
    | none => rfl
    | some p => exact hother p hname
  have hanswers : ∀ column ∈ (leafRows ctx scope depth leaf).columns,
      column.answers ⟨some q, c⟩ =
        (namesEqual column.name c && (hiddenName leaf).any (namesEqual · q)) := by
    intro column hcolumn
    change (namesEqual column.name c && column.hasLabel q) = _
    rw [hasLabel_leaf hnamed hleaf hrows hcolumn, hvisible, Bool.false_or]
  constructor
  · rintro hnone ⟨hhidden, column, hcolumn, hname⟩
    have hfalse := hnone column hcolumn
    rw [hanswers column hcolumn, hname, hhidden] at hfalse
    cases hfalse
  · intro hshadow column hcolumn
    rw [hanswers column hcolumn, Bool.and_eq_false_iff]
    by_cases hname : namesEqual column.name c = true
    · refine .inr (Bool.not_eq_true _ ▸ fun hhidden => ?_)
      exact hshadow ⟨hhidden, column, hcolumn, hname⟩
    · exact .inl (Bool.not_eq_true _ ▸ hname)

theorem no_answer_iff (hnamed : ctx.TablesNamed) {others : List RowSource}
    (hothers : ∀ other ∈ others, other ∈ leaves source ∧
      sourceRows ctx scope depth other = some (.ok (leafRows ctx scope depth other)) ∧
      ∀ p ∈ visibleName other, namesEqual p q = false) :
    (∀ column ∈ others.flatMap fun s => (leafRows ctx scope depth s).columns,
        column.answers ⟨some q, c⟩ = false) ↔
      ∀ other ∈ others, ¬Shadows ctx scope depth q c other := by
  induction others with
  | nil => simp
  | cons other others ih =>
    rw [forall_mem_cons] at hothers
    obtain ⟨⟨hleaf, hrows, hname⟩, hothers⟩ := hothers
    rw [flatMap_cons, forall_mem_append, forall_mem_cons, ih hothers,
      answers_other hnamed hleaf hrows hname]

/-- Of the source that is visible as `q` the columns `c` answer. -/
theorem answers_own (hnamed : ctx.TablesNamed) {leaf : RowSource} (hleaf : leaf ∈ leaves source)
    (hrows : sourceRows ctx scope depth leaf = some (.ok (leafRows ctx scope depth leaf)))
    (hq : visibleName leaf = some q) {column : ColumnBinding}
    (hcolumn : column ∈ (leafRows ctx scope depth leaf).columns) :
    column.answers ⟨some q, c⟩ = namesEqual column.name c := by
  change (namesEqual column.name c && column.hasLabel q) = _
  rw [hasLabel_leaf hnamed hleaf hrows hcolumn, hq]
  simp

/-- **`q.c` finds the column of its source exactly when no other source
shadows it**, and there is no point in `q`. -/
theorem findColumn_qualified (hnamed : ctx.TablesNamed) {rowSet : RowSet}
    (h : sourceRows ctx scope depth source = some (.ok rowSet))
    (hvisible : (leaves source).Pairwise fun a b =>
      ∀ p ∈ visibleName a, ∀ p' ∈ visibleName b, namesEqual p p' = false)
    {before after : List RowSource} {leaf : RowSource}
    (hsplit : leaves source = before ++ leaf :: after) (hq : visibleName leaf = some q)
    {k : ℕ} (hone : HasOne (leafRows ctx scope depth leaf).columns c k) :
    findColumn rowSet.columns (qualified q c) = .ok (offset ctx scope depth before + k) ↔
      Byte.dot ∉ q ∧ ∀ other ∈ before ++ after, ¬Shadows ctx scope depth q c other := by
  obtain ⟨hleaves, rfl⟩ := sourceRows_eq_ok h
  rw [hsplit, pairwise_append, pairwise_cons] at hvisible
  rw [hsplit, forall_mem_append, forall_mem_cons] at hleaves
  -- every other leaf is visible under another name
  have hbefore : ∀ other ∈ before, other ∈ leaves source ∧
      sourceRows ctx scope depth other = some (.ok (leafRows ctx scope depth other)) ∧
      ∀ p ∈ visibleName other, namesEqual p q = false := by
    refine fun other ho => ⟨?_, hleaves.1 other ho, fun p hp => ?_⟩
    · exact hsplit ▸ mem_append_left _ ho
    · exact hvisible.2.2 other ho leaf mem_cons_self p hp q hq
  have hafter : ∀ other ∈ after, other ∈ leaves source ∧
      sourceRows ctx scope depth other = some (.ok (leafRows ctx scope depth other)) ∧
      ∀ p ∈ visibleName other, namesEqual p q = false := by
    refine fun other ho => ⟨?_, hleaves.2.2 other ho, fun p hp => ?_⟩
    · exact hsplit ▸ mem_append_right _ (mem_cons_of_mem _ ho)
    · have hswap := hvisible.2.1.1 other ho q hq p hp
      rw [namesEqual, decide_eq_false_iff_not] at hswap ⊢
      exact fun heq => hswap heq.symm
  -- and of the leaf itself the one column answers
  have hleaf : leaf ∈ leaves source := hsplit ▸ mem_append_right _ mem_cons_self
  have hplace : (leafRows ctx scope depth leaf).columns.findIdxs
      (fun column => column.answers ⟨some q, c⟩) (offset ctx scope depth before) =
        [offset ctx scope depth before + k] := by
    refine findIdxs_eq_singleton hone.1 (fun j hj => ?_) _
    rw [answers_own hnamed hleaf hleaves.2.1 hq (getElem_mem hj)]
    exact hone.2 j hj
  have hwidth : (before.flatMap fun s => (leafRows ctx scope depth s).columns).length =
      offset ctx scope depth before := by
    rw [length_flatMap]
    rfl
  rw [columns_meaning, hsplit, flatMap_append, flatMap_cons]
  by_cases hdot : Byte.dot ∈ q
  · -- what is looked for is longer than the name of the column
    refine iff_of_false (fun hfound => ?_) fun h => h.1 hdot
    have hk := hone.1
    have hcolumn : ((leafRows ctx scope depth leaf).columns ++
        after.flatMap fun s => (leafRows ctx scope depth s).columns)[k]? =
          some (leafRows ctx scope depth leaf).columns[k] := by
      rw [getElem?_append_left hk, getElem?_eq_getElem hk]
    rw [← hwidth] at hfound
    have hlength := length_of_findColumn hfound (by rw [getElem?_append_right (Nat.le_add_right _ _),
      Nat.add_sub_cancel_left, hcolumn])
    have hname := length_eq_of_namesEqual ((hone.2 k hk).2 rfl)
    have hlonger := length_lt_of_qualified hdot c
    omega
  · rw [and_iff_right hdot, findColumn_eq_ok, identifierParts_qualified hdot, findIdxs_append,
      findIdxs_append, hwidth, Nat.zero_add, hplace, append_singleton_append_eq,
      findIdxs_eq_nil_iff, findIdxs_eq_nil_iff, no_answer_iff hnamed hbefore,
      no_answer_iff hnamed hafter, forall_mem_append]

end Leaves

end QuerySource

open QuerySource

/-- In every state that can be reached a table is loaded under the name it
is asked for by. -/
theorem System.Coherent.tablesNamed {sys : System} (h : sys.Coherent) (i : ℕ) :
    (sys.queryContext i).TablesNamed := by
  intro name table hload
  change loadBaseTable sys.db (sys.sessions i) name = .ok table at hload
  unfold loadBaseTable at hload
  split at hload
  · cases hload
  · rename_i slot t hfind
    obtain ⟨rows, -, hload⟩ := Outcome.bind_eq_ok.1 hload
    obtain rfl := Except.ok.inj hload
    obtain ⟨-, hslot, hkey⟩ := Database.getTableState_eq_some hfind
    rw [namesEqual_iff, ← hkey, TableState.key, h.valid.named t (mem_of_getElem? hslot)]

/-- **Qualified names follow the visible names.** In every state that can be
reached, for every tree of joins whose sources are visible under distinct
names: where `q` is the visible name of a source, and exactly one of the
source's columns is named `c`, then `q.c` finds that column exactly when
there is no point in `q` and no other source shadows it; and then it has
the value of that column in every row, if the rows of the tables have the
columns of the tables. -/
theorem qualified_name_resolves_iff {frontend : Frontend} {sys : System}
    (hreach : sys.Reachable frontend) (i : ℕ) (scope : CteScope) (depth : ℕ)
    {source : Ast.RowSource} {rowSet : RowSet}
    (h : sourceRows (sys.queryContext i) scope depth source = some (.ok rowSet))
    (hvisible : (leaves source).Pairwise fun a b =>
      ∀ p ∈ visibleName a, ∀ p' ∈ visibleName b, namesEqual p p' = false)
    {before after : List Ast.RowSource} {leaf : Ast.RowSource}
    (hsplit : leaves source = before ++ leaf :: after) {q c : Bytes}
    (hq : visibleName leaf = some q) {k : ℕ}
    (hone : HasOne (leafRows (sys.queryContext i) scope depth leaf).columns c k) :
    (findColumn rowSet.columns (qualified q c) =
          .ok (offset (sys.queryContext i) scope depth before + k) ↔
        Byte.dot ∉ q ∧
          ∀ other ∈ before ++ after, ¬Shadows (sys.queryContext i) scope depth q c other) ∧
      (Byte.dot ∉ q →
        (∀ other ∈ before ++ after, ¬Shadows (sys.queryContext i) scope depth q c other) →
        (sys.queryContext i).TablesFit → ∀ row ∈ rowSet.rows, ∃ value,
          row[offset (sys.queryContext i) scope depth before + k]? = some value ∧
            resolveIdentifier rowSet.columns row (qualified q c) = .ok value) := by
  have hfind := findColumn_qualified (hreach.coherent.tablesNamed i) h hvisible hsplit hq hone
  refine ⟨hfind, fun hdot hclear hfit row hrow => ?_⟩
  have hcolumn := hfind.2 ⟨hdot, hclear⟩
  have hlt := findColumn_lt hcolumn
  rw [← fits_sourceRows hfit h row hrow] at hlt
  refine ⟨_, getElem?_eq_getElem hlt, ?_⟩
  rw [resolveIdentifier, hcolumn, Outcome.ok_bind, getElem?_eq_getElem hlt]

/-! ### Aliases -/

/-- A table under an alias, and another source: `A AS label CROSS JOIN ..`. -/
def underAlias (label : String) (other : Ast.RowSource) : Ast.RowSource :=
  .join (.baseTable (ascii "A") (some (ascii label))) .cross other none

theorem overlapping_reachable : overlapping.Reachable Script.frontend :=
  Script.twoTables_reachable.run _

/-- In `A AS x CROSS JOIN B` the column of `A` is `x.v`. -/
theorem qualified_name_resolves_iff_alias :
    ∃ rowSet, sourceRows (overlapping.queryContext 0) [[]] 0
        (underAlias "x" (.baseTable (ascii "B") none)) = some (.ok rowSet) ∧
      findColumn rowSet.columns (ascii "x.v") = .ok 0 := by
  have hrows : sourceRows (overlapping.queryContext 0) [[]] 0
      (underAlias "x" (.baseTable (ascii "B") none)) = some (.ok
        ⟨[⟨ascii "v", [ascii "x", ascii "A"]⟩, ⟨ascii "v", [ascii "B"]⟩],
          [[.integer 1, .integer 2], [.integer 2, .integer 2]]⟩) := by decide +kernel
  have hleaf : sourceRows (overlapping.queryContext 0) [[]] 0
      (.baseTable (ascii "A") (some (ascii "x"))) = some (.ok
        ⟨[⟨ascii "v", [ascii "x", ascii "A"]⟩], [[.integer 1], [.integer 2]]⟩) := by decide +kernel
  have hone : HasOne (leafRows (overlapping.queryContext 0) [[]] 0
      (.baseTable (ascii "A") (some (ascii "x")))).columns (ascii "v") 0 := by
    rw [leafRows_eq hleaf]
    exact ⟨by decide, by decide⟩
  have hvisible : (leaves (underAlias "x" (.baseTable (ascii "B") none))).Pairwise fun a b =>
      ∀ p ∈ visibleName a, ∀ p' ∈ visibleName b, namesEqual p p' = false := by
    refine pairwise_pair.2 fun p hp p' hp' => ?_
    obtain rfl := Option.some.inj hp
    obtain rfl := Option.some.inj hp'
    decide
  have hsplit : leaves (underAlias "x" (.baseTable (ascii "B") none)) =
      [] ++ .baseTable (ascii "A") (some (ascii "x")) :: [.baseTable (ascii "B") none] := rfl
  refine ⟨_, hrows, ?_⟩
  refine (qualified_name_resolves_iff overlapping_reachable 0 [[]] 0 hrows hvisible hsplit rfl
    hone).1.2 ⟨by decide, ?_⟩
  exact forall_mem_singleton.2 fun hshadow => absurd hshadow.1 (by decide)

/-- `SELECT A.v FROM A AS x CROSS JOIN A`. -/
def fromSelfJoin : Ast.SelectStatement where
  projectionItems := [{ expression := .identifier (ascii "A.v") }]
  projections := [.identifier (ascii "A.v")]
  source := some (underAlias "x" (.baseTable (ascii "A") none))

/-- **A table joined with itself cannot be told from its alias.** The two
sources are visible as `x` and as `A`, and `A.v` is refused. And an alias
with a point in it is cut at the point. -/
theorem self_join_ambiguous :
    overlapping.Reachable Script.frontend ∧
      (leaves (underAlias "x" (.baseTable (ascii "A") none))).map visibleName =
        [some (ascii "x"), some (ascii "A")] ∧
      overlapping.select 0 fromSelfJoin = .error .ambiguousColumn ∧
      (∃ rowSet, sourceRows (overlapping.queryContext 0) [[]] 0
          (underAlias "x" (.baseTable (ascii "A") none)) = some (.ok rowSet) ∧
        findColumn rowSet.columns (qualified (ascii "A") (ascii "v")) = .error .ambiguousColumn) ∧
      ∃ rowSet, sourceRows (overlapping.queryContext 0) [[]] 0
          (underAlias "x.y" (.baseTable (ascii "B") none)) = some (.ok rowSet) ∧
        findColumn rowSet.columns (qualified (ascii "x.y") (ascii "v")) = .error .unknownColumn := by
  have hselect : run (overlapping.queryContext 0) 1 ⟨fromSelfJoin, [], 0⟩ =
      some (.error .ambiguousColumn) := by decide +kernel
  have hself : sourceRows (overlapping.queryContext 0) [[]] 0
      (underAlias "x" (.baseTable (ascii "A") none)) = some (.ok
        ⟨[⟨ascii "v", [ascii "x", ascii "A"]⟩, ⟨ascii "v", [ascii "A"]⟩],
          [[.integer 1, .integer 1], [.integer 1, .integer 2], [.integer 2, .integer 1],
            [.integer 2, .integer 2]]⟩) := by decide +kernel
  have hpoint : sourceRows (overlapping.queryContext 0) [[]] 0
      (underAlias "x.y" (.baseTable (ascii "B") none)) = some (.ok
        ⟨[⟨ascii "v", [ascii "x.y", ascii "A"]⟩, ⟨ascii "v", [ascii "B"]⟩],
          [[.integer 1, .integer 2], [.integer 2, .integer 2]]⟩) := by decide +kernel
  exact ⟨overlapping_reachable, rfl, System.select_of_run hselect, ⟨_, hself, by decide⟩,
    _, hpoint, by decide⟩

end Shoveler
