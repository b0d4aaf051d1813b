import DbProxy.Lib.Kleene
import DbProxy.Plan.Condition

/-!
# What a condition means

The truth of a condition on a row, or on a tuple of joined rows, in the three-valued logic of SQL.  Sharding keys
are numbers on some scale (integers, or instants of time); comparisons, `IN` and `BETWEEN` of a key with literals
are evaluated, every other predicate has whatever truth value the reading gives it.
-/

namespace DbProxy

open Kleene (Truth)
open SortedMerge (Reaches)
variable {lc rc : Cond} {i : Int} {p : TableAliasStmtInfo}

/-- How a tuple of rows reads a condition: the value of each column that is a sharding key (`some none` is NULL),
the number that a literal stands for, and the truth of all other predicates. -/
structure Reading where
  key : ColumnName → Option (Option Int)
  literal : Datum → Option Int
  other : Expr Parsed → Truth

def Op.holds : Op → Int → Int → Bool
  | .eq, a, b => a = b
  | .ne, a, b => a ≠ b
  | .lt, a, b => a < b
  | .le, a, b => a ≤ b
  | .gt, a, b => a > b
  | .ge, a, b => a ≥ b
  | _, _, _ => false

namespace Reading

variable (ρ : Reading)

def compare (op : Op) (l r : Expr Parsed) : Truth :=
  match l, r with
  | .column _ c, .value v => match ρ.key c, ρ.literal v with
    | some k, some n => k.map (op.holds · n)
    | _, _ => ρ.other (.binary op l r)
  | .value v, .column _ c => match ρ.key c, ρ.literal v with
    | some k, some n => k.map (op.holds n ·)
    | _, _ => ρ.other (.binary op l r)
  | .column _ c, .column _ c' => match ρ.key c, ρ.key c' with
    | some k, some k' => Option.map₂ op.holds k k'
    | _, _ => ρ.other (.binary op l r)
  | l, r => ρ.other (.binary op l r)

def literals : List (Expr Parsed) → Option (List Int)
  | [] => some []
  | .value v :: es => Option.map₂ List.cons (ρ.literal v) (literals es)
  | _ => none

def isIn (e : Expr Parsed) (list : List (Expr Parsed)) (sel : Option (Expr Parsed)) (isNot : Bool) : Truth :=
  match e, sel with
  | .column _ c, none => match ρ.key c, ρ.literals list with
    | some k, some ns => k.map (fun k => (ns.contains k) != isNot)
    | _, _ => ρ.other (.patternIn () e list sel isNot)
  | _, _ => ρ.other (.patternIn () e list sel isNot)

def isBetween (e left right : Expr Parsed) (isNot : Bool) : Truth :=
  match e, left, right with
  | .column _ c, .value a, .value b => match ρ.key c, ρ.literal a, ρ.literal b with
    | some k, some a, some b => k.map (fun k => decide (a ≤ k ∧ k ≤ b) != isNot)
    | _, _, _ => ρ.other (.between () e left right isNot)
  | _, _, _ => ρ.other (.between () e left right isNot)

def truth : Expr Parsed → Truth
  | .binary op l r => match op with
    | .logicAnd => Kleene.and (truth l) (truth r)
    | .logicOr => Kleene.or (truth l) (truth r)
    | .eq | .ne | .lt | .le | .gt | .ge => ρ.compare op l r
    | .other _ => ρ.other (.binary op l r)
  | .patternIn _ e list sel isNot => ρ.isIn e list sel isNot
  | .between _ e left right isNot => ρ.isBetween e left right isNot
  | .paren e => truth e
  | e => ρ.other e

end Reading

/-! ### Merged routes -/

theorem increasing_merge {op : Op} (hl : lc.has = true → Increasing lc.indexes)
    (hr : rc.has = true → Increasing rc.indexes) (h : (Cond.merge op lc rc).has = true) :
    Increasing (Cond.merge op lc rc).indexes := by
  unfold Cond.merge mergeBinaryOperationRouteResult at h ⊢
  cases op <;> cases hlh : lc.has <;> cases hrh : rc.has <;> simp_all
  · exact increasing_interList hl hr
  · exact increasing_unionList hl hr

theorem mem_merge_and (hl : lc.has = true → Increasing lc.indexes) (hr : rc.has = true → Increasing rc.indexes) :
    ((Cond.merge .logicAnd lc rc).has = true → i ∈ (Cond.merge .logicAnd lc rc).indexes) ↔
      (lc.has = true → i ∈ lc.indexes) ∧ (rc.has = true → i ∈ rc.indexes) := by
  unfold Cond.merge mergeBinaryOperationRouteResult
  cases hlh : lc.has <;> cases hrh : rc.has <;> simp_all
  exact mem_interList hl hr

theorem mem_merge_or :
    ((Cond.merge .logicOr lc rc).has = true → i ∈ (Cond.merge .logicOr lc rc).indexes) ↔
      (lc.has = true → i ∈ lc.indexes) ∨ (rc.has = true → i ∈ rc.indexes) := by
  unfold Cond.merge mergeBinaryOperationRouteResult
  cases hlh : lc.has <;> cases hrh : rc.has <;> simp [mem_unionList]

theorem reaches_merge_and (hl : lc.has = true → Reaches i lc.indexes) (hr : rc.has = true → Reaches i rc.indexes) :
    (Cond.merge .logicAnd lc rc).has = true → Reaches i (Cond.merge .logicAnd lc rc).indexes := by
  unfold Cond.merge mergeBinaryOperationRouteResult
  cases hlh : lc.has <;> cases hrh : rc.has <;> simp_all
  exact reaches_interList hl hr

theorem reaches_merge_or (h : (lc.has = true → Reaches i lc.indexes) ∨ (rc.has = true → Reaches i rc.indexes)) :
    (Cond.merge .logicOr lc rc).has = true → Reaches i (Cond.merge .logicOr lc rc).indexes := by
  unfold Cond.merge mergeBinaryOperationRouteResult
  cases hlh : lc.has <;> cases hrh : rc.has <;> simp_all
  exact reaches_unionList h

theorem increasing_of_atoms
    (h : ∀ a c, a.isAtom = true → handleComparisonExpr p a = .ok c → c.has = true → Increasing c.indexes)
    (e : Expr Parsed) : ∀ c, handleComparisonExpr p e = .ok c → c.has = true → Increasing c.indexes := by
  induction e using Expr.conditionInduction with
  | logic op l r hop ihl ihr =>
    intro c hc hhas
    obtain ⟨lc, rc, hlc, hrc, rfl⟩ := (handleComparisonExpr_logic hop).1 hc
    exact increasing_merge (ihl lc hlc) (ihr rc hrc) hhas
  | paren e ih =>
    intro c hc hhas
    obtain ⟨c', hc', rfl⟩ := handleComparisonExpr_paren.1 hc
    exact ih c' hc' hhas
  | atom e he => exact fun c hc hhas => h e c he hc hhas

end DbProxy
