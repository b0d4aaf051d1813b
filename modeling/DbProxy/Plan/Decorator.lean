import DbProxy.Plan.StmtInfo

/-!
# Decorators

What planning adds to a tree: the rule of a column, the value lists of an `IN` for each table index, the route of a
`BETWEEN`, and the rule of a table.  This file makes the decorators and computes the routes of single predicates;
`Restore` reads them.
-/

namespace DbProxy

structure ColumnNameDecorator where
  rule : Rule
  isAlias : Bool

structure PatternInExprDecorator where
  tableIndexes : List Int
  indexValueMap : AssocMap Int (List (Expr Parsed))

structure BetweenExprDecorator where
  tableIndexes : List Int

/-- The rows of an `INSERT` for each table index. -/
structure InsertValuesExprDecorator where
  indexValueMap : AssocMap Int (List (List (Expr Parsed)))

/-- The trees of the planner.  A node without a decorator is one that the planner left as it was. -/
@[reducible] def Planned : Phase where
  Column := Option ColumnNameDecorator
  PatternIn := Option PatternInExprDecorator
  Between := Option BetweenExprDecorator
  Table := Rule
  Rows := Option InsertValuesExprDecorator

mutual
/-- A tree that the planner returns without looking into it. -/
def Expr.untouched : Expr Parsed → Expr Planned
  | .value v => .value v
  | .column _ c => .column none c
  | .binary op l r => .binary op l.untouched r.untouched
  | .patternIn _ e list sel not => .patternIn none e.untouched (untouchedList list) (untouchedOption sel) not
  | .between _ e l r not => .between none e.untouched l.untouched r.untouched not
  | .paren e => .paren e.untouched
  | .funcCall f parts => .funcCall f (untouchedList parts)
  | .aggregate f parts => .aggregate f (untouchedList parts)
  | .valuesOf c => .valuesOf c
  | .text t => .text t
  | .node type parts => .node type (untouchedList parts)

def Expr.untouchedList : List (Expr Parsed) → List (Expr Planned)
  | [] => []
  | e :: es => e.untouched :: untouchedList es

def Expr.untouchedOption : Option (Expr Parsed) → Option (Expr Planned)
  | none => none
  | some e => some e.untouched
end

/-! ### Columns -/

def needCreateColumnNameDecorator (p : TableAliasStmtInfo) (n : ColumnName) :
    Except Fail (Option ColumnNameDecorator) := do
  let r ← p.getSettedRuleFromColumnInfo n.schema.o n.table.l n.name.l
  .ok (r.map fun (rule, isAlias) => ⟨rule, isAlias⟩)

/-- In a field list, a column without database and table stays as it is. -/
def needCreateColumnNameExprDecoratorInField (p : TableAliasStmtInfo) (n : ColumnName) :
    Except Fail (Option ColumnNameDecorator) :=
  if n.schema.o = "" ∧ n.table.l = "" then .ok none else needCreateColumnNameDecorator p n

/-! ### Routes of comparisons -/

def adjustShardIndex (equalStart : GoVal → Int → Except Fail Bool) (value : GoVal) (index : Int) :
    Except Fail Int := do
  if ← equalStart value index then .ok (index - 1) else .ok index

/-- `getFindTableIndexesFunc`, with the column on the left of the operator. -/
def findTableIndexes (op : Op) (rule : Rule) (columnName : String) (v : GoVal) : Except Fail (List Int) :=
  if rule.getShardingColumn ≠ columnName then .ok rule.getSubTableIndexes
  else match op with
    | .eq => do
      let index ← rule.findTableIndex v
      .ok [index]
    | .lt | .le | .gt | .ge => match rule.getShard.equalStart with
      | none => .ok rule.getSubTableIndexes
      | some equalStart => do
        let index ← rule.findTableIndex v
        if op = .lt ∨ op = .le then
          let index ← if op = .lt then adjustShardIndex equalStart v index else .ok index
          .ok (makeList (← rule.getFirstTableIndex) (index + 1))
        else .ok (makeList index ((← rule.getLastTableIndex) + 1))
    | _ => .ok rule.getSubTableIndexes

def inverseOperator : Op → Op
  | .gt => .lt
  | .ge => .le
  | .lt => .gt
  | .le => .ge
  | op => op

/-! ### Routes of `IN` -/

/-- Every value must be a literal. -/
def checkValueType (i : Nat) : List (Expr Parsed) → Except Fail (List Datum)
  | [] => .ok []
  | .value v :: es => do
    let vs ← checkValueType (i + 1) es
    .ok (v :: vs)
  | e :: _ => .error (.error ("value is not ValueExpr, index: " ++ toString i ++ ", type: " ++ e.typeName))

def getBroadcastValueMap (subTableIndexes : List Int) (nodes : List (Expr Parsed)) :
    AssocMap Int (List (Expr Parsed)) :=
  subTableIndexes.foldl (fun m idx => m.set idx (m.getD idx ++ nodes)) []

/-- The loop that files each value under the table index that it belongs to. -/
def fileValues (rule : Rule) (s : Filing Int (Expr Parsed)) : List Datum → Except Fail (Filing Int (Expr Parsed))
  | [] => .ok s
  | v :: vs => do
    let idx ← rule.findTableIndex v.value
    fileValues rule (s.file idx (.value v)) vs

def getPatternInRouteResult (n : ColumnName) (isNotIn : Bool) (rule : Rule) (values : List (Expr Parsed)) :
    Except Fail PatternInExprDecorator :=
  let broadcast := ⟨rule.getSubTableIndexes, getBroadcastValueMap rule.getSubTableIndexes values⟩
  if rule.getType = .global then .ok broadcast
  else do
    let literals ← wrapErr "check value error: " (checkValueType 0 values)
    if isNotIn then .ok broadcast
    else if rule.getShardingColumn ≠ n.name.l then .ok broadcast
    else
      let filed ← fileValues rule .empty literals
      .ok ⟨sortInts filed.order, filed.map⟩

/-! ### Routes of `BETWEEN` -/

/-- The last index below a `NOT BETWEEN` and the first one above it; reversed bounds are swapped. -/
def notBetweenBounds (equalStart : GoVal → Int → Except Fail Bool) (leftValue rightValue : GoVal)
    (start last : Int) : Except Fail (Int × Int) :=
  if start > last then do
    let i ← adjustShardIndex equalStart rightValue last
    .ok (i, start)
  else do
    let i ← adjustShardIndex equalStart leftValue start
    .ok (i, last)

def getShardBetweenExprRouteResult (rule : Rule) (equalStart : GoVal → Int → Except Fail Bool)
    (left right : Expr Parsed) (isNot : Bool) : Except Fail (List Int) :=
  match left, right with
  | .value leftValue, .value rightValue => do
    let start ← wrapErr "FindTableIndex for n.Left error: " (rule.findTableIndex leftValue.value)
    let last ← wrapErr "FindTableIndex for n.Right error: " (rule.findTableIndex rightValue.value)
    if isNot then
      let (start, last) ← notBetweenBounds equalStart leftValue.value rightValue.value start last
      let l1 := makeList (← rule.getFirstTableIndex) (start + 1)
      let l2 := makeList last ((← rule.getLastTableIndex) + 1)
      .ok (unionList l1 l2)
    else if start > last then .ok (makeList last (start + 1))
    else .ok (makeList start (last + 1))
  | .value _, e => .error (.error ("n.Left is not a ValueExpr, type: " ++ e.typeName))
  | e, _ => .error (.error ("n.Left is not a ValueExpr, type: " ++ e.typeName))

def getBetweenExprRouteResult (rule : Rule) (n : ColumnName) (left right : Expr Parsed) (isNot : Bool) :
    Except Fail (List Int) :=
  if rule.getType = .global then .ok rule.getSubTableIndexes
  else if rule.getShardingColumn ≠ n.name.l then .ok rule.getSubTableIndexes
  else match rule.getShard.equalStart with
    | some equalStart => getShardBetweenExprRouteResult rule equalStart left right isNot
    | none => .ok rule.getSubTableIndexes

end DbProxy
