import DbProxy.Plan.Decorator

/-!
# Conditions

`handleComparisonExpr` walks through a `WHERE` or `ON` condition.  For each part it decides whether the part says
anything about the route (`has`), which indexes it leaves, and what the part becomes in the generated statements.
A comparison with `DATABASE()` names a physical database; the last one met wins.
-/

namespace DbProxy

/-- What a handler returns for a condition.  `hint` is the database named by a `DATABASE()` comparison in it. -/
structure Cond where
  has : Bool
  indexes : List Int
  expr : Expr Planned
  hint : Option String := none

/-- A condition that says nothing about the route. -/
def Cond.noRoute (e : Expr Planned) : Cond := { has := false, indexes := [], expr := e }

/-! ### Visitors -/

section Visit

variable {m : Type → Type} [Monad m] (f : ColumnName → m (Option ColumnNameDecorator))

mutual
/-- `Accept` with a visitor that replaces every `ColumnNameExpr` for which `f` gives a decorator.  A `VALUES` whose
column is replaced loses it, because the decorator is not a `*ColumnNameExpr`. -/
def Expr.accept : Expr Parsed → m (Expr Planned)
  | .value v => pure (.value v)
  | .column _ c => do
    let d ← f c
    pure (.column d c)
  | .binary op l r => do
    let l ← l.accept
    let r ← r.accept
    pure (.binary op l r)
  | .patternIn _ e list sel not => do
    let e ← e.accept
    let list ← acceptList list
    let sel ← acceptOption sel
    pure (.patternIn none e list sel not)
  | .between _ e l r not => do
    let e ← e.accept
    let l ← l.accept
    let r ← r.accept
    pure (.between none e l r not)
  | .paren e => do
    let e ← e.accept
    pure (.paren e)
  | .funcCall fn parts => do
    let parts ← acceptList parts
    pure (.funcCall fn parts)
  | .aggregate fn parts => do
    let parts ← acceptList parts
    pure (.aggregate fn parts)
  | .valuesOf none => pure (.valuesOf none)
  | .valuesOf (some c) => do
    let d ← f c
    pure (.valuesOf (if d.isSome then none else some c))
  | .text t => pure (.text t)
  | .node type parts => do
    let parts ← acceptList parts
    pure (.node type parts)

def Expr.acceptList : List (Expr Parsed) → m (List (Expr Planned))
  | [] => pure []
  | e :: es => do
    let e ← e.accept
    let es ← acceptList es
    pure (e :: es)

def Expr.acceptOption : Option (Expr Parsed) → m (Option (Expr Planned))
  | none => pure none
  | some e => do
    let e ← e.accept
    pure (some e)
end

/-- `Accept` whose result is dropped: the nodes below the root are replaced, a root that is a column is not. -/
def Expr.acceptRoot : Expr Parsed → m (Expr Planned)
  | .column _ c => do
    let _ ← f c
    pure (.column none c)
  | e => e.accept f

end Visit

/-- `ColumnNameRewriteVisitor.Leave`: an error can leave the visitor only as a panic. -/
def columnNameRewriteVisitor (p : TableAliasStmtInfo) (c : ColumnName) : Except Fail (Option ColumnNameDecorator) :=
  match needCreateColumnNameExprDecoratorInField p c with
  | .ok d => .ok d
  | .error (.error msg) =>
    .error (.panic ("check NeedCreateColumnNameExprDecoratorInField in ColumnNameExpr error: " ++ msg))
  | .error (.panic msg) => .error (.panic msg)

/-! ### Predicates -/

def handlePatternInExpr (p : TableAliasStmtInfo) (e : Expr Parsed) (list : List (Expr Parsed))
    (sel : Option (Expr Parsed)) (isNot : Bool) : Except Fail Cond :=
  if sel.isSome then .error (.error "check PatternInExpr error: TableName does not support Sel in sharding")
  else match e with
    | .column _ c => do
      match ← wrapErr "check PatternInExpr error: check ColumnName error: " (needCreateColumnNameDecorator p c) with
      | none => .ok (.noRoute (Expr.untouched (.patternIn () e list sel isNot)))
      | some d =>
        let decorator ← wrapErr "create PatternInExprDecorator error: getPatternInRouteResult error: "
          (getPatternInRouteResult c isNot d.rule list)
        .ok { has := true, indexes := decorator.tableIndexes
              expr := .patternIn (some decorator) (.column (some d) c) (Expr.untouchedList list) none isNot }
    | _ => .ok (.noRoute (Expr.untouched (.patternIn () e list sel isNot)))

def handleBetweenExpr (p : TableAliasStmtInfo) (e left right : Expr Parsed) (isNot : Bool) : Except Fail Cond :=
  match e with
  | .column _ c => do
    match ← wrapErr "check BetweenExpr error: check ColumnName error: " (needCreateColumnNameDecorator p c) with
    | none => .ok (.noRoute (Expr.untouched (.between () e left right isNot)))
    | some d =>
      let indexes ← wrapErr "create CreateBetweenExprDecorator error: getBetweenExprRouteResult error: "
        (getBetweenExprRouteResult d.rule c left right isNot)
      .ok { has := true, indexes := indexes
            expr := .between (some ⟨indexes⟩) (.column (some d) c) left.untouched right.untouched isNot }
  | _ => .ok (.noRoute (Expr.untouched (.between () e left right isNot)))

/-- The column on one side of an operator, with the decorator it needs, if any. -/
def decorateColumn (p : TableAliasStmtInfo) (side : String) (c : ColumnName) :
    Except Fail (Option ColumnNameDecorator) :=
  wrapErr ("check ColumnNameExpr error in BinaryOperationExpr." ++ side ++ ": ") (needCreateColumnNameDecorator p c)

/-- Decorate an operand that is a column; leave any other operand as it is. -/
def decorateOperand (p : TableAliasStmtInfo) (side : String) : Expr Parsed → Except Fail (Expr Planned)
  | .column _ c => do
    let d ← decorateColumn p side c
    .ok (.column d c)
  | e => .ok e.untouched

/-- Operators that are neither logic nor comparison, and comparisons that do not compare a column with a value:
the operands that are columns are decorated and nothing is said about the route. -/
def handleBinaryOperationExprOther (p : TableAliasStmtInfo) (op : Op) (l r : Expr Parsed) : Except Fail Cond := do
  let l ← decorateOperand p "L" l
  let r ← decorateOperand p "R" r
  .ok (.noRoute (.binary op l r))

/-- A column compared with a literal; `side` is the side of the column and `op` has the column on the left. -/
def handleCompareColumnValue (p : TableAliasStmtInfo) (side : String) (op : Op) (c : ColumnName) (v : Datum)
    (build : Expr Planned → Expr Planned) : Except Fail Cond := do
  match ← decorateColumn p side c with
  | none => .ok (.noRoute (build (.column none c)))
  | some d =>
    if d.rule.getType = .global then .ok (.noRoute (build (.column (some d) c)))
    else
      let indexes ← wrapErr "find table index error: " (findTableIndexes op d.rule c.name.l v.value)
      .ok { has := true, indexes := indexes, expr := build (.column (some d) c) }

/-- `getDatabaseFuncHint`; an empty name is no hint. -/
def getDatabaseFuncHint (fnName : CIStr) (v : Expr Parsed) : Except Fail String :=
  if fnName.l ≠ "database" then .ok ""
  else match v with
    | .column _ c => .ok c.name.o
    | .value d => .ok (String.ofList (d.getString.map fun b => Char.ofNat b.toNat))
    | e => .error (.error ("get database function hint error: invalid value type of database function hint: " ++
        e.typeName))

/-- The database that an equality names, if one of its sides is `DATABASE()`. -/
def databaseHint (op : Op) (l r : Expr Parsed) : Except Fail String :=
  if op ≠ .eq then .ok ""
  else match l, r with
    | .funcCall f _, r => getDatabaseFuncHint f r
    | l, .funcCall f _ => getDatabaseFuncHint f l
    | _, _ => .ok ""

def handleBinaryOperationExprMathCompare (p : TableAliasStmtInfo) (op : Op) (l r : Expr Parsed) :
    Except Fail Cond := do
  let hintDB ← databaseHint op l r
  if hintDB ≠ "" then .ok { Cond.noRoute (.binary op l.untouched r.untouched) with hint := some hintDB }
  else match l, r with
    | .column _ c, .value v => handleCompareColumnValue p "L" op c v (fun l => .binary op l (.value v))
    | .value v, .column _ c =>
      handleCompareColumnValue p "R" (inverseOperator op) c v (fun r => .binary op (.value v) r)
    | l, r => handleBinaryOperationExprOther p op l r

/-! ### Whole conditions -/

def mergeBinaryOperationRouteResult (op : Op) (lHas : Bool) (lResult : List Int) (rHas : Bool)
    (rResult : List Int) : Bool × List Int :=
  match op with
  | .logicAnd =>
    if lHas && rHas then (true, interList lResult rResult)
    else if lHas then (true, lResult)
    else if rHas then (true, rResult)
    else (false, [])
  | .logicOr => if lHas && rHas then (true, unionList lResult rResult) else (false, [])
  | _ => (false, [])

def handleComparisonExpr (p : TableAliasStmtInfo) : Expr Parsed → Except Fail Cond
  | .binary op l r => match op with
    | .logicAnd | .logicOr => do
      let lc ← wrapErr "handle BinaryOperationExpr.L error: " (handleComparisonExpr p l)
      let rc ← wrapErr "handle BinaryOperationExpr.R error: " (handleComparisonExpr p r)
      let (has, indexes) := mergeBinaryOperationRouteResult op lc.has lc.indexes rc.has rc.indexes
      .ok { has, indexes, expr := .binary op lc.expr rc.expr, hint := rc.hint.or lc.hint }
    | .eq | .ne | .gt | .ge | .lt | .le => handleBinaryOperationExprMathCompare p op l r
    | .other _ => handleBinaryOperationExprOther p op l r
  | .patternIn _ e list sel isNot => handlePatternInExpr p e list sel isNot
  | .between _ e left right isNot => handleBetweenExpr p e left right isNot
  | .paren e => do
    let c ← handleComparisonExpr p e
    .ok { c with expr := .paren c.expr }
  | e => do
    let e ← Expr.acceptRoot (columnNameRewriteVisitor p) e
    .ok { has := false, indexes := p.result.indexes, expr := e }

/-- Narrow the route to the indexes of a condition, if it has any, and note its database. -/
def TableAliasStmtInfo.applyCond (p : TableAliasStmtInfo) (c : Cond) : TableAliasStmtInfo :=
  let p := if c.has then p.inter c.indexes else p
  { p with hintPhyDB := c.hint.getD p.hintPhyDB }

/-! ### The shape of a condition -/

def Op.isLogic : Op → Bool
  | .logicAnd | .logicOr => true
  | _ => false

/-- The parts of a condition that are not taken apart further. -/
def Expr.isAtom {P : Phase} : Expr P → Bool
  | .binary op _ _ => !op.isLogic
  | .paren _ => false
  | _ => true

/-- The atoms that `AND`, `OR` and parentheses join to a condition. -/
def Expr.atoms {P : Phase} : Expr P → List (Expr P)
  | .binary op l r => if op.isLogic then l.atoms ++ r.atoms else [.binary op l r]
  | .paren e => e.atoms
  | e => [e]

/-- Induction along the walk of `handleComparisonExpr`. -/
theorem Expr.conditionInduction {motive : Expr Parsed → Prop}
    (logic : ∀ op l r, op.isLogic = true → motive l → motive r → motive (.binary op l r))
    (paren : ∀ e, motive e → motive (.paren e)) (atom : ∀ e, e.isAtom = true → motive e) : ∀ e, motive e
  | .binary op l r => by
    by_cases h : op.isLogic = true
    · exact logic op l r h (conditionInduction logic paren atom l) (conditionInduction logic paren atom r)
    · exact atom _ (by simpa [isAtom] using h)
  | .paren e => paren e (conditionInduction logic paren atom e)
  | .value _ | .column _ _ | .patternIn .. | .between .. | .funcCall .. | .aggregate .. | .valuesOf _ | .text _
  | .node .. => atom _ rfl

theorem Expr.atoms_logic {P : Phase} {op : Op} (h : op.isLogic = true) (l r : Expr P) :
    (Expr.binary op l r).atoms = l.atoms ++ r.atoms := by
  simp [atoms, h]

theorem Expr.atoms_atom {P : Phase} {e : Expr P} (h : e.isAtom = true) : e.atoms = [e] := by
  cases e with
  | binary op l r => simp_all [atoms, isAtom]
  | paren e => simp [isAtom] at h
  | _ => rfl

/-- What `AND` and `OR` make of the results of their sides. -/
def Cond.merge (op : Op) (lc rc : Cond) : Cond :=
  let m := mergeBinaryOperationRouteResult op lc.has lc.indexes rc.has rc.indexes
  { has := m.1, indexes := m.2, expr := .binary op lc.expr rc.expr, hint := rc.hint.or lc.hint }

theorem handleComparisonExpr_logic {p : TableAliasStmtInfo} {op : Op} (h : op.isLogic = true) {l r : Expr Parsed}
    {c : Cond} : handleComparisonExpr p (.binary op l r) = .ok c ↔
      ∃ lc rc, handleComparisonExpr p l = .ok lc ∧ handleComparisonExpr p r = .ok rc ∧ c = .merge op lc rc := by
  have hop : op = .logicAnd ∨ op = .logicOr := by cases op <;> simp_all [Op.isLogic]
  rcases hop with rfl | rfl <;> simp only [handleComparisonExpr, Fallible.bind_eq_ok, wrapErr_eq_ok] <;> constructor
  all_goals
    first
    | rintro ⟨lc, hl, rc, hr, hc⟩
      exact ⟨lc, rc, hl, hr, (Except.ok.inj hc).symm⟩
    | rintro ⟨lc, rc, hl, hr, rfl⟩
      exact ⟨lc, hl, rc, hr, rfl⟩

theorem handleComparisonExpr_paren {p : TableAliasStmtInfo} {e : Expr Parsed} {c : Cond} :
    handleComparisonExpr p (.paren e) = .ok c ↔
      ∃ c', handleComparisonExpr p e = .ok c' ∧ c = { c' with expr := .paren c'.expr } := by
  simp only [handleComparisonExpr, Fallible.bind_eq_ok]
  constructor
  · rintro ⟨c', h, hc⟩
    exact ⟨c', h, (Except.ok.inj hc).symm⟩
  · rintro ⟨c', h, rfl⟩
    exact ⟨c', h, rfl⟩

end DbProxy
