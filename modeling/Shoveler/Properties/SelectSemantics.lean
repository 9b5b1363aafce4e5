import Shoveler.Common.Sorting
import Shoveler.Query.Ordering
import Shoveler.Query.TableColumns

/-!
# What a query means

A query that groups nothing filters the rows of its source, sorts them
stably by its keys, keeps the first so many and projects each. The meaning
is written down on rows, with the sort of the library and comparisons on
integers, booleans and byte strings (`reference`); the evaluator works on
indices, and sorts them by swapping neighbours under a comparison that
evaluates the keys anew each time and may fail. Where every key is of one
type, the two agree (`select_means_reference`).
-/

namespace Shoveler

open Outcome List

namespace QuerySource

open Ast Sorting

/-! ## The meaning -/

/-- A comparison, turned round for `DESC`. -/
def directed {α : Type} : OrderDirection → (α → α → Ordering) → α → α → Ordering
  | .asc, cmp => cmp
  | .desc, cmp => fun a b => cmp b a

/-- What a key stands for: the projection it names, or itself. -/
def keyExpression (projections : List Projection) : Expression → Expression
  | .identifier name =>
    if Byte.dot ∈ name then .identifier name
    else
      match projections.find? fun projection => projection.label.any (namesEqual · name) with
      | some projection => projection.expression
      | none => .identifier name
  | expression => expression

/-- The value of a key on a row, where it has one. -/
def keyValue (columns : List ColumnBinding) (projections : List Projection) (key : OrderKey)
    (row : List Value) : Value :=
  (evalExpression columns row (keyExpression projections key.expression)).toOption.getD .null

/-- The order of the rows: by the first key, then by the second, and so
on, each in its direction. -/
def rowOrder (typeOf : OrderKey → KeyType) (columns : List ColumnBinding)
    (projections : List Projection) (keys : List OrderKey) : List Value → List Value → Ordering :=
  lexicographic <| keys.map fun key =>
    directed key.direction fun left right =>
      (typeOf key).order (keyValue columns projections key left)
        (keyValue columns projections key right)

/-- A row for which `WHERE` holds. -/
def Accepted (columns : List ColumnBinding) (statement : SelectStatement) (row : List Value) : Prop :=
  matchesWhere columns row statement.whereClause = .ok true

instance (columns : List ColumnBinding) (statement : SelectStatement) :
    DecidablePred (Accepted columns statement) :=
  fun _ => inferInstanceAs (Decidable (_ = _))

/-- **The rows a query is about**, in the order of its result: those for
which `WHERE` holds, sorted stably, the first so many of them. -/
def reference (typeOf : OrderKey → KeyType) (rowSet : RowSet) (statement : SelectStatement) :
    List (List Value) :=
  limited statement.limit
    ((rowSet.rows.filter fun row => decide (Accepted rowSet.columns statement row)).mergeSort
      fun left right =>
        (rowOrder typeOf rowSet.columns (projectionItems statement) statement.orderBy left
          right).isLE)

/-! ## The order of rows -/

theorem transCmp_directed {α : Type} {cmp : α → α → Ordering} (h : Std.TransCmp cmp)
    (direction : OrderDirection) : Std.TransCmp (directed direction cmp) := by
  cases direction with
  | asc => exact h
  | desc => exact inferInstanceAs (Std.TransCmp fun a b => cmp b a)

theorem transCmp_rowOrder (typeOf : OrderKey → KeyType) (columns : List ColumnBinding)
    (projections : List Projection) (keys : List OrderKey) :
    Std.TransCmp (rowOrder typeOf columns projections keys) := by
  refine transCmp_lexicographic fun cmp hcmp => ?_
  obtain ⟨key, -, rfl⟩ := mem_map.1 hcmp
  have horder := (typeOf key).transCmp_order
  refine transCmp_directed ?_ key.direction
  exact {
    eq_swap := Std.OrientedCmp.eq_swap
    isLE_trans := Std.TransCmp.isLE_trans }

/-! ## The comparison of the evaluator -/

section Rows

variable {typeOf : OrderKey → KeyType} {columns : List ColumnBinding} {projections : List Projection}

/-- On this row every key has a value of its type. -/
def KeysHold (typeOf : OrderKey → KeyType) (columns : List ColumnBinding)
    (projections : List Projection) (keys : List OrderKey) (row : List Value) : Prop :=
  ∀ key ∈ keys, ∃ value,
    evalExpression columns row (keyExpression projections key.expression) = .ok value ∧
      (typeOf key).Holds value

theorem rowOrder_cons (key : OrderKey) (keys : List OrderKey) (left right : List Value) :
    rowOrder typeOf columns projections (key :: keys) left right =
      (directed key.direction (typeOf key).order (keyValue columns projections key left)
        (keyValue columns projections key right)).then
        (rowOrder typeOf columns projections keys left right) := by
  cases hdirection : key.direction with
  | asc => simp only [rowOrder, map_cons, lexicographic_cons, hdirection, directed]
  | desc => simp only [rowOrder, map_cons, lexicographic_cons, hdirection, directed]

/-- One key of the comparison. -/
theorem comesAfter_round (type : KeyType) (direction : OrderDirection) (l r : Value)
    (rest : Ordering) :
    (if signOf (type.order l r) = 0 then (.ok !rest.isLE : Result Bool)
      else if direction = .asc then .ok (decide (signOf (type.order l r) > 0))
      else .ok (decide (signOf (type.order l r) < 0))) =
      .ok !((directed direction type.order l r).then rest).isLE := by
  have htrans := type.transCmp_order
  cases direction with
  | asc => cases hcmp : type.order l r <;> simp [directed, hcmp, signOf]
  | desc =>
    have hswap : type.order r l = (type.order l r).swap := Std.OrientedCmp.eq_swap
    cases hcmp : type.order l r <;> simp [directed, hswap, hcmp, signOf]

/-- **The comparison of the evaluator** is the order of the rows, where
every key stands for one expression. -/
theorem comesAfter_eq {keys : List OrderKey} {left right : List Value}
    (htarget : ∀ key ∈ keys,
      orderTarget projections key.expression = .ok (keyExpression projections key.expression))
    (hleft : KeysHold typeOf columns projections keys left)
    (hright : KeysHold typeOf columns projections keys right) :
    comesAfter (evalOrderExpression columns projections left)
        (evalOrderExpression columns projections right) keys =
      .ok !(rowOrder typeOf columns projections keys left right).isLE := by
  induction keys with
  | nil => rfl
  | cons key keys ih =>
    rw [forall_mem_cons] at htarget
    obtain ⟨⟨l, hl, hltype⟩, hleft⟩ := forall_mem_cons.1 hleft
    obtain ⟨⟨r, hr, hrtype⟩, hright⟩ := forall_mem_cons.1 hright
    have hkeyl : keyValue columns projections key left = l := by rw [keyValue, hl]; rfl
    have hkeyr : keyValue columns projections key right = r := by rw [keyValue, hr]; rfl
    rw [comesAfter, evalOrderExpression, evalOrderExpression, htarget.1, ok_bind,
      ok_bind, hl, hr, ok_bind, ok_bind, compareValues_eq hltype hrtype,
      ok_bind, ih htarget.2 hleft hright, rowOrder_cons, hkeyl, hkeyr]
    exact comesAfter_round (typeOf key) key.direction l r _

end Rows

/-! ## The sort of the evaluator -/

section Sorting

variable {ι : Type} {after : ι → ι → Result Bool} {le : ι → ι → Bool}

/-- **A new element moves forward** past those that come after it, and no
further. -/
theorem moveForward_eq {new : ι} {l₁ l₂ : List ι}
    (hstay : ∀ b ∈ l₁.getLast?, after b new = .ok false) (hpass : ∀ b ∈ l₂, after b new = .ok true) :
    moveForward after new (l₁ ++ l₂).reverse = .ok (l₁ ++ new :: l₂).reverse := by
  rw [reverse_append, reverse_append, reverse_cons]
  rw [← head?_reverse] at hstay
  have hpass : ∀ b ∈ l₂.reverse, after b new = .ok true :=
    fun b hb => hpass b (mem_reverse.1 hb)
  -- from here on both parts are listed from the last element
  generalize l₁.reverse = before at hstay
  generalize l₂.reverse = behind at hpass
  induction behind with
  | nil =>
    cases before with
    | nil => rfl
    | cons b before =>
      rw [nil_append, moveForward, hstay b rfl]
      rfl
  | cons b behind ih =>
    rw [forall_mem_cons] at hpass
    rw [cons_append, moveForward, hpass.1, ok_bind, if_pos rfl, ih hpass.2]
    rfl

/-- **The sort of the evaluator is the stable sort**, where the comparison
decides between any two of the elements. -/
theorem insertionSort_eq (trans : ∀ a b c, le a b = true → le b c = true → le a c = true)
    (total : ∀ a b, (le a b || le b a) = true) {items : List ι}
    (hafter : ∀ a ∈ items, ∀ b ∈ items, after a b = .ok !le a b) :
    insertionSort after items = .ok (items.mergeSort le) := by
  have hloop : items.foldlM (fun before new => moveForward after new before)
      (([] : List ι).mergeSort le).reverse = .ok (items.mergeSort le).reverse := by
    refine foldlM_eq_ok_of_split (g := fun l => (l.mergeSort le).reverse)
      fun before new rest hsplit => ?_
    obtain ⟨l₁, l₂, hbefore, hnext, hstay, hpass⟩ := mergeSort_concat trans total before new
    have hmem : ∀ b ∈ l₁ ++ l₂, after b new = .ok !le b new := by
      intro b hb
      rw [← hbefore, mem_mergeSort] at hb
      subst hsplit
      exact hafter b (mem_append_left _ hb) new
        (mem_append_right _ mem_cons_self)
    rw [forall_mem_append] at hmem
    change moveForward after new (before.mergeSort le).reverse =
      .ok ((before ++ [new]).mergeSort le).reverse
    rw [hbefore, hnext]
    refine moveForward_eq (fun b hb => ?_) fun b hb => ?_
    · have hb' := mem_of_mem_getLast? hb
      rw [hmem.1 b hb', hstay b hb']
      rfl
    · rw [hmem.2 b hb, hpass b hb]
      rfl
  rw [mergeSort_nil, reverse_nil] at hloop
  rw [insertionSort, hloop, ok_bind, reverse_reverse]
  rfl

end Sorting

/-! ## The whole query -/

/-- A key that stands for one expression stands for that of the meaning. -/
theorem keyExpression_of_orderTarget {projections : List Projection} {expression target : Expression}
    (h : orderTarget projections expression = .ok target) :
    target = keyExpression projections expression := by
  cases expression with
  | identifier name =>
    rw [orderTarget, aliasMatches] at h
    by_cases hdot : Byte.dot ∈ name
    · simp only [identifierParts, if_pos hdot, Option.isSome_some, if_true] at h
      rw [keyExpression, if_pos hdot]
      exact (Except.ok.inj h).symm
    · simp only [identifierParts, if_neg hdot, Option.isSome_none, Bool.false_eq_true,
        if_false] at h
      rw [keyExpression, if_neg hdot, ← head?_filter]
      cases hnamed : projections.filter fun projection =>
          projection.label.any (namesEqual · name) with
      | nil =>
        rw [hnamed] at h
        exact (Except.ok.inj h).symm
      | cons projection others =>
        rw [hnamed] at h
        cases others with
        | nil => exact (Except.ok.inj h).symm
        | cons other others => cases h
  | star => exact (Except.ok.inj h).symm
  | literal literal => exact (Except.ok.inj h).symm
  | functionCall name args => exact (Except.ok.inj h).symm
  | binary left operator right => exact (Except.ok.inj h).symm

/-- What a query asks of its keys before it sorts: that each stands for one
expression. -/
theorem orderTarget_of_validateSelect {columns : List ColumnBinding} {statement : SelectStatement}
    {projections : List Projection} (h : validateSelect columns statement projections = .ok ()) :
    ∀ key ∈ statement.orderBy,
      orderTarget projections key.expression = .ok (keyExpression projections key.expression) := by
  obtain ⟨_, -, h⟩ := bind_eq_ok.1 h
  obtain ⟨_, -, h⟩ := bind_eq_ok.1 h
  intro key hkey
  obtain ⟨target, htarget, -⟩ := bind_eq_ok.1 (forM_eq_ok.1 h key hkey)
  rw [htarget, keyExpression_of_orderTarget htarget]

/-- The rows that `WHERE` accepts. -/
theorem map_row_filterIndices {rowSet : RowSet} {statement : SelectStatement}
    {indices : List rowSet.Index} (h : filterIndices rowSet statement.whereClause = .ok indices) :
    indices.map rowSet.row =
      rowSet.rows.filter fun row => decide (Accepted rowSet.columns statement row) := by
  rw [eq_filter_of_keep h]
  exact rowSet.map_row_filter fun row => decide (Accepted rowSet.columns statement row)

/-- Without keys, or with less than two rows, there is nothing to sort. -/
theorem sortUnless_eq {ι : Type} {after : ι → ι → Result Bool} (le : ι → ι → Bool)
    (trans : ∀ a b c, le a b = true → le b c = true → le a c = true)
    (total : ∀ a b, (le a b || le b a) = true) (keys : List OrderKey)
    (hnone : keys = [] → ∀ a b, le a b = true) {items : List ι}
    (hafter : ∀ a ∈ items, ∀ b ∈ items, after a b = .ok !le a b) :
    sortUnless after keys items = .ok (items.mergeSort le) := by
  unfold sortUnless
  by_cases hempty : keys = []
  · have hsorted : items.Pairwise fun a b => le a b = true :=
      pairwise_of_forall fun a b => hnone hempty a b
    rw [hempty, mergeSort_of_pairwise hsorted]
    rfl
  · have hkeys : keys.isEmpty = false := isEmpty_eq_false_iff.2 hempty
    rw [hkeys, Bool.false_or]
    split
    · rename_i hfew
      match items, of_decide_eq_true hfew with
      | [], _ => rw [mergeSort_nil]
      | [a], _ => rw [mergeSort_singleton]
    · exact insertionSort_eq trans total hafter

theorem map_limited {α β : Type} (limit : Option ℕ) (f : α → β) (items : List α) :
    (limited limit items).map f = limited limit (items.map f) := by
  cases limit with
  | none => rfl
  | some limit => exact map_take

/-- **A query means what it says.** For rows of any source and a query that
groups nothing, whose keys have on every row that `WHERE` accepts a value
of one type each, the rows of the result are the projections of the rows
it is about. -/
theorem select_means_reference {rowSet : RowSet} {statement : SelectStatement}
    {typeOf : OrderKey → KeyType} {result : ResultSet}
    (hplain : isAggregateSelect statement (projectionItems statement) = false)
    (hkeys : ∀ row ∈ rowSet.rows, Accepted rowSet.columns statement row →
      KeysHold typeOf rowSet.columns (projectionItems statement) statement.orderBy row)
    (h : selectFrom rowSet statement = .ok result) :
    List.Forall₂
      (fun row projected =>
        projectRow rowSet.columns row (projectionItems statement) = .ok projected)
      (reference typeOf rowSet statement) result.rows := by
  rw [selectFrom_of_plain rowSet hplain] at h
  obtain ⟨indices, hindices, h⟩ := bind_eq_ok.1 h
  obtain ⟨_, hvalid, h⟩ := bind_eq_ok.1 h
  obtain ⟨sorted, hsorted, h⟩ := bind_eq_ok.1 h
  obtain ⟨rows, hrows, h⟩ := bind_eq_ok.1 h
  obtain rfl := Except.ok.inj h
  have htarget := orderTarget_of_validateSelect hvalid
  have hkept := map_row_filterIndices hindices
  have hhold : ∀ index ∈ indices, KeysHold typeOf rowSet.columns (projectionItems statement)
      statement.orderBy (rowSet.row index) := by
    intro index hindex
    have hmem := mem_map_of_mem (f := rowSet.row) hindex
    rw [hkept, mem_filter, decide_eq_true_iff] at hmem
    exact hkeys _ hmem.1 hmem.2
  -- the indices are sorted as their rows are
  let order := rowOrder typeOf rowSet.columns (projectionItems statement) statement.orderBy
  have horder : Std.TransCmp order := transCmp_rowOrder _ _ _ _
  have hnone : statement.orderBy = [] → ∀ a b : rowSet.Index,
      (order (rowSet.row a) (rowSet.row b)).isLE = true := by
    intro hnone a b
    change (rowOrder typeOf _ _ statement.orderBy _ _).isLE = true
    rw [hnone]
    rfl
  have hsort := sortUnless_eq (fun a b => (order (rowSet.row a) (rowSet.row b)).isLE)
    (fun _ _ _ => Std.TransCmp.isLE_trans) (fun _ _ => isLE_total _ _) statement.orderBy hnone
    fun a ha b hb => comesAfter_eq htarget (hhold a ha) (hhold b hb)
  obtain rfl := Except.ok.inj (hsorted.symm.trans hsort)
  have hmap := map_mergeSort (f := rowSet.row) (l := indices)
    (r := fun a b => (order (rowSet.row a) (rowSet.row b)).isLE)
    (s := fun a b => (order a b).isLE) fun _ _ _ _ => rfl
  rw [reference, ← hkept, ← hmap, ← map_limited, forall₂_map_left_iff]
  exact mapM_eq_ok.1 hrows

/-! ### Two keys, one of them an alias -/

/-- Four rows of `t (a, b)`. -/
def fourRows : RowSet where
  columns := [⟨ascii "a", [ascii "t"]⟩, ⟨ascii "b", [ascii "t"]⟩]
  rows := [[.integer 1, .text (ascii "x")], [.integer 2, .text (ascii "y")],
    [.integer 2, .text (ascii "x")], [.integer 0, .text (ascii "w")]]

/-- `SELECT b AS k FROM t WHERE a > 0 ORDER BY a DESC, K LIMIT 2`. -/
def firstTwo : SelectStatement where
  projectionItems := [⟨.identifier (ascii "b"), some (ascii "k")⟩]
  projections := [.identifier (ascii "b")]
  fromName := some (ascii "t")
  source := some (.baseTable (ascii "t") none)
  whereClause := some (.binary (.identifier (ascii "a")) .greaterThan (.literal (.integer 0)))
  orderBy := [⟨.identifier (ascii "a"), .desc⟩, ⟨.identifier (ascii "K"), .asc⟩]
  limit := some 2

/-- The larger number comes first, and with equal numbers the smaller
text. -/
theorem select_means_reference_two_keys :
    selectFrom fourRows firstTwo =
        .ok ⟨[ascii "k"], [[.text (ascii "x")], [.text (ascii "y")]]⟩ ∧
      List.Forall₂
        (fun row projected =>
          projectRow fourRows.columns row (projectionItems firstTwo) = .ok projected)
        (reference (fun key => if key.direction = .desc then .integer else .text) fourRows firstTwo)
        [[.text (ascii "x")], [.text (ascii "y")]] := by
  have hrun : selectFrom fourRows firstTwo =
      .ok ⟨[ascii "k"], [[.text (ascii "x")], [.text (ascii "y")]]⟩ := by decide +kernel
  refine ⟨hrun, select_means_reference (by decide) (fun row hrow _ => ?_) hrun⟩
  have hkeys : ∀ (a : Int64) (b : Bytes), KeysHold
      (fun key => if key.direction = .desc then .integer else .text) fourRows.columns
      (projectionItems firstTwo) firstTwo.orderBy [.integer a, .text b] := by
    intro a b
    exact forall_mem_cons.2
      ⟨⟨_, rfl, a, rfl⟩, forall_mem_singleton.2 ⟨_, rfl, b, rfl⟩⟩
  simp only [fourRows, mem_cons, not_mem_nil, or_false] at hrow
  rcases hrow with rfl | rfl | rfl | rfl
  · exact hkeys _ _
  · exact hkeys _ _
  · exact hkeys _ _
  · exact hkeys _ _

end QuerySource

end Shoveler
