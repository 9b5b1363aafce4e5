import Shoveler.Query.Names

/-!
# Expressions up to the case of their names

The evaluator compares names without regard to case. So an expression may
as well be read with all its names in small letters (`outline`): that
changes neither its value (`evalExpression_outline`) nor what a check says
of it, and a check does not even read the literals
(`validateExpression_outline`).
-/

namespace Shoveler

/-! ## Names -/

theorem asciiLower_asciiLower (b : UInt8) : asciiLower (asciiLower b) = asciiLower b := by
  unfold asciiLower
  split
  · rename_i hlarge
    refine if_neg fun hsmall => ?_
    have hupper := UInt8.le_iff_toNat_le.1 hlarge.2
    have hagain := UInt8.le_iff_toNat_le.1 hsmall.2
    have hlower := UInt8.le_iff_toNat_le.1 hlarge.1
    rw [UInt8.toNat_add] at hagain
    have h65 : (65 : UInt8).toNat = 65 := rfl
    have h90 : (90 : UInt8).toNat = 90 := rfl
    have h32 : (32 : UInt8).toNat = 32 := rfl
    omega
  · rfl

@[simp] theorem foldCase_foldCase (name : Bytes) : foldCase (foldCase name) = foldCase name := by
  rw [foldCase, foldCase, List.map_map]
  exact List.map_congr_left fun b _ => asciiLower_asciiLower b

theorem namesEqual_foldCase_left (a b : Bytes) : namesEqual (foldCase a) b = namesEqual a b := by
  rw [namesEqual, namesEqual, foldCase_foldCase]

theorem namesEqual_foldCase_right (a b : Bytes) : namesEqual a (foldCase b) = namesEqual a b := by
  rw [namesEqual, namesEqual, foldCase_foldCase]

/-- Only a point is read as one. -/
theorem asciiLower_eq_dot {b : UInt8} : asciiLower b = Byte.dot ↔ b = Byte.dot := by
  unfold asciiLower
  split
  · rename_i hlarge
    have hlower := UInt8.le_iff_toNat_le.1 hlarge.1
    have hupper := UInt8.le_iff_toNat_le.1 hlarge.2
    have h65 : (65 : UInt8).toNat = 65 := rfl
    have h90 : (90 : UInt8).toNat = 90 := rfl
    have h32 : (32 : UInt8).toNat = 32 := rfl
    have hdot : Byte.dot.toNat = 46 := rfl
    rw [← UInt8.toNat_inj, ← UInt8.toNat_inj, UInt8.toNat_add]
    omega
  · rfl

namespace QuerySource

open Ast

/-- **An identifier is cut at the same place.** -/
theorem identifierParts_foldCase (identifier : Bytes) :
    identifierParts (foldCase identifier) =
      ⟨(identifierParts identifier).qualifier.map foldCase,
        foldCase (identifierParts identifier).name⟩ := by
  have hmem : Byte.dot ∈ foldCase identifier ↔ Byte.dot ∈ identifier := by
    simp only [foldCase, List.mem_map, asciiLower_eq_dot, exists_eq_right]
  have hother : ((· != Byte.dot) ∘ asciiLower) = (· != Byte.dot) := by
    funext b
    rw [Function.comp_apply, Bool.eq_iff_iff, bne_iff_ne, bne_iff_ne, ne_eq, ne_eq,
      asciiLower_eq_dot]
  unfold identifierParts
  simp only [hmem]
  split
  · simp only [foldCase, List.takeWhile_map, List.dropWhile_map, hother, Option.map_some,
      List.map_tail]
  · rfl

theorem answers_foldCase (column : ColumnBinding) (identifier : Bytes) :
    column.answers (identifierParts (foldCase identifier)) =
      column.answers (identifierParts identifier) := by
  rw [identifierParts_foldCase, ColumnBinding.answers, ColumnBinding.answers,
    namesEqual_foldCase_right]
  cases (identifierParts identifier).qualifier with
  | none => rfl
  | some qualifier =>
    simp only [Option.map_some, ColumnBinding.hasLabel, namesEqual_foldCase_right]

theorem findColumn_foldCase (columns : List ColumnBinding) (identifier : Bytes) :
    findColumn columns (foldCase identifier) = findColumn columns identifier := by
  simp only [findColumn, answers_foldCase]

theorem distanceFunction_foldCase (name : Bytes) :
    distanceFunction (foldCase name) = distanceFunction name := by
  simp only [distanceFunction, namesEqual_foldCase_left]

theorem functionForName_foldCase (name : Bytes) :
    functionForName (foldCase name) = functionForName name := by
  simp only [functionForName, namesEqual_foldCase_left]

/-! ## Expressions -/

mutual

/-- **An expression with its names in small letters** and its literals
rewritten. -/
def outline (onLiteral : Literal → Literal) : Expression → Expression
  | .star => .star
  | .identifier identifier => .identifier (foldCase identifier)
  | .literal literal => .literal (onLiteral literal)
  | .functionCall name args => .functionCall (foldCase name) (outlines onLiteral args)
  | .binary left operator right =>
    .binary (outline onLiteral left) operator (outline onLiteral right)

/-- The arguments of a call. -/
def outlines (onLiteral : Literal → Literal) : List Expression → List Expression
  | [] => []
  | arg :: args => outline onLiteral arg :: outlines onLiteral args

end

mutual

/-- **Expressions that are the same to the evaluator have one outline**, up
to their literals. -/
theorem outline_eq_of_expressionsEqual (literal : Literal) : ∀ {e e' : Expression},
    expressionsEqual e e' = true → outline (fun _ => literal) e = outline (fun _ => literal) e'
  | .star, e', h => by
    cases e' with
    | star => rfl
    | identifier | literal | functionCall | binary => cases h
  | .identifier identifier, e', h => by
    cases e' with
    | identifier identifier' => rw [outline, outline, namesEqual_iff.1 h]
    | star | literal | functionCall | binary => cases h
  | .literal _, e', h => by
    cases e' with
    | literal => rfl
    | star | identifier | functionCall | binary => cases h
  | .functionCall name args, e', h => by
    cases e' with
    | functionCall name' args' =>
      obtain ⟨hname, hargs⟩ := Bool.and_eq_true_iff.1 h
      rw [outline, outline, namesEqual_iff.1 hname, outlines_eq_of_argumentsEqual literal hargs]
    | star | literal | identifier | binary => cases h
  | .binary left operator right, e', h => by
    cases e' with
    | binary left' operator' right' =>
      obtain ⟨h, hright⟩ := Bool.and_eq_true_iff.1 h
      obtain ⟨hoperator, hleft⟩ := Bool.and_eq_true_iff.1 h
      rw [outline, outline, of_decide_eq_true hoperator,
        outline_eq_of_expressionsEqual literal hleft,
        outline_eq_of_expressionsEqual literal hright]
    | star | literal | identifier | functionCall => cases h

theorem outlines_eq_of_argumentsEqual (literal : Literal) : ∀ {args args' : List Expression},
    argumentsEqual args args' = true →
      outlines (fun _ => literal) args = outlines (fun _ => literal) args'
  | [], args', h => by
    cases args' with
    | nil => rfl
    | cons => cases h
  | arg :: args, args', h => by
    cases args' with
    | nil => cases h
    | cons arg' args' =>
      obtain ⟨harg, hargs⟩ := Bool.and_eq_true_iff.1 h
      rw [outlines, outlines, outline_eq_of_expressionsEqual literal harg,
        outlines_eq_of_argumentsEqual literal hargs]

end

mutual

/-- The literals of an expression, from left to right. -/
def literals : Expression → List Literal
  | .star => []
  | .identifier _ => []
  | .literal literal => [literal]
  | .functionCall _ args => literalsOfAll args
  | .binary left _ right => literals left ++ literals right

/-- The literals of the arguments of a call. -/
def literalsOfAll : List Expression → List Literal
  | [] => []
  | arg :: args => literals arg ++ literalsOfAll args

end

mutual

/-- **Expressions that are the same to the evaluator and have identical
literals differ in the case of names only.** The lists behind the literals
are what stands to the right in a larger expression. -/
theorem outline_id_eq : ∀ {e e' : Expression}, expressionsEqual e e' = true →
    ∀ {r r' : List Literal}, literals e ++ r = literals e' ++ r' →
      outline id e = outline id e' ∧ r = r'
  | .star, e', h, r, r', hr => by
    cases e' with
    | star => exact ⟨rfl, hr⟩
    | identifier | literal | functionCall | binary => cases h
  | .identifier identifier, e', h, r, r', hr => by
    cases e' with
    | identifier identifier' => exact ⟨congrArg Expression.identifier (namesEqual_iff.1 h), hr⟩
    | star | literal | functionCall | binary => cases h
  | .literal literal, e', h, r, r', hr => by
    cases e' with
    | literal literal' =>
      obtain ⟨rfl, rfl⟩ := List.cons.inj hr
      exact ⟨rfl, rfl⟩
    | star | identifier | functionCall | binary => cases h
  | .functionCall name args, e', h, r, r', hr => by
    cases e' with
    | functionCall name' args' =>
      obtain ⟨hname, hargs⟩ := Bool.and_eq_true_iff.1 h
      obtain ⟨houtlines, rfl⟩ := outlines_id_eq hargs hr
      rw [outline, outline, namesEqual_iff.1 hname, houtlines]
      exact ⟨rfl, rfl⟩
    | star | literal | identifier | binary => cases h
  | .binary left operator right, e', h, r, r', hr => by
    cases e' with
    | binary left' operator' right' =>
      obtain ⟨h, hright⟩ := Bool.and_eq_true_iff.1 h
      obtain ⟨hoperator, hleft⟩ := Bool.and_eq_true_iff.1 h
      rw [literals, literals, List.append_assoc, List.append_assoc] at hr
      obtain ⟨houtline, hr⟩ := outline_id_eq hleft hr
      obtain ⟨houtline', rfl⟩ := outline_id_eq hright hr
      rw [outline, outline, of_decide_eq_true hoperator, houtline, houtline']
      exact ⟨rfl, rfl⟩
    | star | literal | identifier | functionCall => cases h

theorem outlines_id_eq : ∀ {args args' : List Expression}, argumentsEqual args args' = true →
    ∀ {r r' : List Literal}, literalsOfAll args ++ r = literalsOfAll args' ++ r' →
      outlines id args = outlines id args' ∧ r = r'
  | [], args', h, r, r', hr => by
    cases args' with
    | nil => exact ⟨rfl, hr⟩
    | cons => cases h
  | arg :: args, args', h, r, r', hr => by
    cases args' with
    | nil => cases h
    | cons arg' args' =>
      obtain ⟨harg, hargs⟩ := Bool.and_eq_true_iff.1 h
      rw [literalsOfAll, literalsOfAll, List.append_assoc, List.append_assoc] at hr
      obtain ⟨houtline, hr⟩ := outline_id_eq harg hr
      obtain ⟨houtlines, rfl⟩ := outlines_id_eq hargs hr
      rw [outlines, outlines, houtline, houtlines]
      exact ⟨rfl, rfl⟩

end

/-- A call keeps its number of arguments. -/
theorem eq_pair_of_outlines {onLiteral : Literal → Literal} {args : List Expression}
    {left right : Expression} (h : outlines onLiteral args = [left, right]) :
    ∃ left right, args = [left, right] := by
  rcases args with _ | ⟨left, _ | ⟨right, _ | ⟨other, args⟩⟩⟩
  · cases h
  · cases h
  · exact ⟨left, right, rfl⟩
  · cases h

mutual

theorem expressionContainsAggregate_outline (onLiteral : Literal → Literal) :
    ∀ e : Expression, expressionContainsAggregate (outline onLiteral e) =
      expressionContainsAggregate e
  | .star | .identifier _ | .literal _ => rfl
  | .functionCall name args => by
    rw [outline, expressionContainsAggregate, expressionContainsAggregate,
      functionForName_foldCase, anyContainsAggregate_outlines onLiteral args]
  | .binary left operator right => by
    rw [outline, expressionContainsAggregate, expressionContainsAggregate,
      expressionContainsAggregate_outline onLiteral left,
      expressionContainsAggregate_outline onLiteral right]

theorem anyContainsAggregate_outlines (onLiteral : Literal → Literal) :
    ∀ args : List Expression, anyContainsAggregate (outlines onLiteral args) =
      anyContainsAggregate args
  | [] => rfl
  | arg :: args => by
    rw [outlines, anyContainsAggregate, anyContainsAggregate,
      expressionContainsAggregate_outline onLiteral arg,
      anyContainsAggregate_outlines onLiteral args]

end

/-- **A check reads neither the case of a name nor a literal.** -/
theorem validateExpression_outline (onLiteral : Literal → Literal) (columns : List ColumnBinding)
    (e : Expression) :
    validateExpression columns (outline onLiteral e) = validateExpression columns e := by
  induction e using validateExpression.induct with
  | case1 => rfl
  | case2 literal => rfl
  | case3 identifier =>
    rw [outline, validateExpression, validateExpression, validateIdentifier, validateIdentifier,
      findColumn_foldCase]
  | case4 left operator right ihleft ihright =>
    rw [outline, validateExpression, validateExpression, ihleft, ihright]
  | case5 name distance left right hname ihleft ihright =>
    have hname' := (distanceFunction_foldCase name).trans hname
    rw [outline, outlines, outlines, outlines, validateExpression.eq_5 _ _ _ _ _ hname,
      validateExpression.eq_5 _ _ _ _ _ hname', ihleft, ihright]
  | case6 name args hother =>
    rw [outline, validateExpression.eq_6 _ _ _ hother, validateExpression.eq_6]
    intro distance left right hname hargs
    obtain ⟨left, right, rfl⟩ := eq_pair_of_outlines hargs
    exact hother distance left right ((distanceFunction_foldCase name).symm.trans hname) rfl

/-- **The value does not depend on the case of names.** -/
theorem evalExpression_outline (columns : List ColumnBinding) (row : List Value) (e : Expression) :
    evalExpression columns row (outline id e) = evalExpression columns row e := by
  induction e using evalExpression.induct with
  | case1 literal => rfl
  | case2 identifier =>
    rw [outline, evalExpression, evalExpression, resolveIdentifier, resolveIdentifier,
      findColumn_foldCase]
  | case3 left operator right ihleft ihright =>
    rw [outline, evalExpression, evalExpression, ihleft, ihright]
  | case4 name distance left right hname ihleft ihright =>
    have hname' := (distanceFunction_foldCase name).trans hname
    rw [outline, outlines, outlines, outlines, evalExpression.eq_4 _ _ _ _ _ _ hname,
      evalExpression.eq_4 _ _ _ _ _ _ hname', ihleft, ihright]
  | case5 name args hother =>
    rw [outline, evalExpression.eq_5 _ _ _ _ hother, evalExpression.eq_5]
    intro distance left right hname hargs
    obtain ⟨left, right, rfl⟩ := eq_pair_of_outlines hargs
    exact hother distance left right ((distanceFunction_foldCase name).symm.trans hname) rfl
  | case6 => rfl

end QuerySource

end Shoveler
