import DbProxy.Plan.Condition
import DbProxy.Plan.Restore

/-!
# Planning a `SELECT`

`handleSelectStmt` goes through the clauses of a `SELECT` in the order of the source: tables and joins, fields,
`GROUP BY`, `ORDER BY`, `WHERE`, `HAVING`, `LIMIT`.  Grouping and ordering columns are appended to the field list so
that the results of the shards can be merged; tables, `ON` and `WHERE` are what the route depends on.
-/

namespace DbProxy

open List

/-! ### Tables and joins -/

def precheckJoinClause (using_ : List ColumnName) : Except Fail Unit :=
  match using_.find? (fun c => c.schema.o ≠ "" ∨ c.table.o ≠ "") with
  | none => .ok ()
  | some c =>
    if c.schema.o ≠ "" then .error (.error "JOIN does not support USING column with schema")
    else .error (.error "JOIN does not support USING column with table")

section Joins

variable {S T : Type} (source : TableAliasStmtInfo → S → Except Fail (T × TableAliasStmtInfo))
  (on : TableAliasStmtInfo → Expr Parsed → Except Fail (Expr Planned × TableAliasStmtInfo))

def handleJoinRight (p : TableAliasStmtInfo) :
    Option (JoinRight S) → Except Fail (Option (JoinRight T) × TableAliasStmtInfo)
  | none => .ok (none, p)
  | some .join => .error (.error "right is not TableSource, type: *ast.Join")
  | some (.source s) => do
    let (s, p) ← wrapErr "rewrite right TableSource error: " (source p s)
    .ok (some (.source s), p)

def handleJoinOn (p : TableAliasStmtInfo) :
    Option (Expr Parsed) → Except Fail (Option (Expr Planned) × TableAliasStmtInfo)
  | none => .ok (none, p)
  | some e => do
    let (e, p) ← on p e
    .ok (some e, p)

def handleJoinTail (p : TableAliasStmtInfo) (t : JoinTail S Parsed) :
    Except Fail (JoinTail T Planned × TableAliasStmtInfo) := do
  let (right, p) ← handleJoinRight source p t.right
  let (cond, p) ← handleJoinOn on p t.on
  .ok ({ right, on := cond, tp := t.tp, natural := t.natural, straight := t.straight, using_ := t.using_ }, p)

/-- The walk through a join, for a statement and for a subquery: `source` rewrites a table source and `on` a
condition. -/
def handleJoinWith (p : TableAliasStmtInfo) :
    Join S Parsed → Except Fail (Join T Planned × TableAliasStmtInfo)
  | .ofSource left t => do
    wrapErr "precheck Join error: " (precheckJoinClause t.using_)
    let (left, p) ← wrapErr "rewrite left TableSource error: " (source p left)
    let (t, p) ← handleJoinTail source on p t
    .ok (.ofSource left t, p)
  | .ofJoin left t => do
    wrapErr "precheck Join error: " (precheckJoinClause t.using_)
    let (left, p) ← wrapErr "handle nested left Join error: " (handleJoinWith p left)
    let (t, p) ← handleJoinTail source on p t
    .ok (.ofJoin left t, p)

end Joins

/-- `rewriteTableNameInTableSource`: record the table and its alias, and take its rule as the decorator. -/
def rewriteTableName (p : TableAliasStmtInfo) (n : TableName) (asName : String) :
    Except Fail (Rule × TableAliasStmtInfo) := do
  let (rule, p) ← wrapErr ("check NeedCreateTableNameDecorator error: record shard table in SelectPlan error, db: " ++
    n.schema.o ++ ", table, " ++ n.name.l ++ ", alias: " ++ asName ++ ", err: ")
    (p.recordShardTable n.schema.o n.name.l asName)
  if n.partitionNames.isEmpty then .ok (rule, p)
  else .error (.error "create TableNameDecorator error: TableName does not support PartitionNames in sharding")

theorem rewriteTableName_eq_ok {p p' : TableAliasStmtInfo} {n : TableName} {asName : String} {rule : Rule}
    (h : rewriteTableName p n asName = .ok (rule, p')) :
    p.recordShardTable n.schema.o n.name.l asName = .ok (rule, p') := by
  unfold rewriteTableName at h
  obtain ⟨⟨r, p₁⟩, h₁, h⟩ := Fallible.bind_eq_ok.1 h
  rw [wrapErr_eq_ok] at h₁
  simp only at h
  split at h
  · cases h
    exact h₁
  · cases h

/-! ### Subqueries in `FROM` -/

/-- `SubqueryColumnNameRewriteVisitor.Leave`.  Looking up the rule of a table records it, also when the table is
not in the `FROM` of the subquery. -/
def subqueryColumnNameRewriteVisitor (c : ColumnName) : StateM TableAliasStmtInfo (Option ColumnNameDecorator) :=
  fun p => match p.toStmtInfo.getShardRule c.schema.o c.table.l with
    | .error _ => (none, p)
    | .ok (rule, s) =>
      (if rule.getType = .global then none else some ⟨rule, false⟩, { p with toStmtInfo := s })

def rewriteSubqueryTableSource (p : TableAliasStmtInfo) :
    InnerSource Parsed → Except Fail (InnerSource Planned × TableAliasStmtInfo)
  | .table _ n asName => do
    let (rule, p) ← rewriteTableName p n ""
    .ok (.table rule n asName, p)
  | .select => .error (.error "cannot handle subquery in subquery")

def handleSubqueryJoin :
    TableAliasStmtInfo → Join (InnerSource Parsed) Parsed →
      Except Fail (Join (InnerSource Planned) Planned × TableAliasStmtInfo) :=
  handleJoinWith rewriteSubqueryTableSource
    (fun p e => .ok (Expr.accept subqueryColumnNameRewriteVisitor e p))

section Accept

variable {m : Type → Type} [Monad m] (f : ColumnName → m (Option ColumnNameDecorator))

def SelectField.accept : SelectField Parsed → m (SelectField Planned)
  | .wildcard schema table => pure (.wildcard schema table)
  | .expr e asName => do
    let e ← e.accept f
    pure (.expr e asName)

def ByItem.accept (item : ByItem Parsed) : m (ByItem Planned) := do
  let e ← item.expr.accept f
  pure ⟨e, item.desc⟩

def acceptOption {α β : Type} (g : α → m β) : Option α → m (Option β)
  | none => pure none
  | some a => do
    let b ← g a
    pure (some b)

end Accept

def handleSubquerySelectStmt (p : TableAliasStmtInfo) (s : SelectClauses (InnerSource Parsed) Parsed) :
    Except Fail (SelectClauses (InnerSource Planned) Planned × TableAliasStmtInfo) :=
  recoverErr "handleSubqueryExpr panic: " do
    let (tableRefs, p) ← match s.tableRefs with
      | none => .ok (none, p)
      | some j => do
        let (j, p) ← wrapErr "handle From error: handleSubqueryTableRefs error: " (handleSubqueryJoin p j)
        .ok (some j, p)
    let visitor := subqueryColumnNameRewriteVisitor
    let (cond, p) := acceptOption (Expr.acceptRoot visitor) s.cond p
    let (fields, p) := (s.fields.mapM (SelectField.accept visitor)) p
    let (groupBy, p) := acceptOption (List.mapM (ByItem.accept visitor)) s.groupBy p
    let (having, p) := acceptOption (Expr.accept visitor) s.having p
    let (orderBy, p) := acceptOption (List.mapM (ByItem.accept visitor)) s.orderBy p
    .ok ({ options := s.options, distinct := s.distinct, fields, tableRefs, cond, groupBy, having
           windows := s.windows.map Expr.untouched, orderBy, limit := s.limit, lock := s.lock }, p)

/-! ### The tables of a statement -/

def rewriteTableSource (p : TableAliasStmtInfo) :
    TableSource Parsed → Except Fail (TableSource Planned × TableAliasStmtInfo)
  | .table _ n asName => do
    let (rule, p) ← rewriteTableName p n asName.l
    .ok (.table rule n asName, p)
  | .select s asName => do
    let (s, p) ← wrapErr "handleSubquerySelectStmt error: " (handleSubquerySelectStmt p s)
    if asName.l ≠ "" then
      let p ← wrapErr "record subquery alias error: " (p.recordSubqueryTableAlias asName.l)
      .ok (.select s asName, p)
    else .ok (.select s asName, p)

def rewriteOnCondition (p : TableAliasStmtInfo) (e : Expr Parsed) :
    Except Fail (Expr Planned × TableAliasStmtInfo) :=
  wrapErr "rewrite on condition error: " do
    let c ← wrapErr "rewrite Expr in OnCondition error: " (handleComparisonExpr p e)
    .ok (c.expr, p.applyCond c)

def handleJoin :
    TableAliasStmtInfo → Join (TableSource Parsed) Parsed →
      Except Fail (Join (TableSource Planned) Planned × TableAliasStmtInfo) :=
  handleJoinWith rewriteTableSource rewriteOnCondition

def handleTableRefs (p : TableAliasStmtInfo) :
    Option (Join (TableSource Parsed) Parsed) →
      Except Fail (Option (Join (TableSource Planned) Planned) × TableAliasStmtInfo)
  | none => .ok (none, p)
  | some j => do
    let (j, p) ← handleJoin p j
    .ok (some j, p)

/-- `handleWhere`, `handleUpdateWhere` and `handleDeleteWhere`. -/
def handleWhere (p : TableAliasStmtInfo) :
    Option (Expr Parsed) → Except Fail (Option (Expr Planned) × TableAliasStmtInfo)
  | none => .ok (none, p)
  | some e => do
    let c ← wrapErr "rewrite Where error: " (handleComparisonExpr p e)
    .ok (some c.expr, p.applyCond c)

/-! ### Fields -/

/-- The aggregate functions whose results can be merged. -/
inductive AggregateFunc where
  | count
  | sum
  | max
  | min
  deriving DecidableEq, Repr

/-- `strings.ToLower` of ASCII text.  The parser takes the names of aggregate functions from its keywords. -/
def toLower (s : String) : String := String.ofList (s.toList.map Char.toLower)

def createAggregateFunctionMerger (funcType : String) : Except Fail AggregateFunc :=
  if toLower funcType = "count" then .ok .count
  else if toLower funcType = "sum" then .ok .sum
  else if toLower funcType = "max" then .ok .max
  else if toLower funcType = "min" then .ok .min
  else .error (.error ("aggregate function type is not support: " ++ funcType))

/-- The mergers of the fields that are aggregate functions; `i` is the index of the first field. -/
def aggregateMergers (i : Nat) : List (SelectField Planned) → Except Fail (AssocMap Nat AggregateFunc)
  | [] => .ok []
  | .expr (.aggregate f _) _ :: fields => do
    let merger ← wrapErr ("create aggregate function merger error, column index: " ++ toString i ++ ", err: ")
      (createAggregateFunctionMerger f)
    let mergers ← aggregateMergers (i + 1) fields
    .ok ((i, merger) :: mergers)
  | _ :: fields => aggregateMergers (i + 1) fields

def handleFieldList (p : TableAliasStmtInfo) (fields : List (SelectField Parsed)) :
    Except Fail (List (SelectField Planned) × AssocMap Nat AggregateFunc) :=
  recoverErr "handleFieldList panic: " do
    let fields ← fields.mapM (SelectField.accept (columnNameRewriteVisitor p))
    let mergers ← aggregateMergers 0 fields
    .ok (fields, mergers)

def handleHaving (p : TableAliasStmtInfo) (having : Option (Expr Parsed)) : Except Fail (Option (Expr Planned)) :=
  recoverErr "handleHaving panic: " (acceptOption (Expr.accept (columnNameRewriteVisitor p)) having)

/-! ### Grouping and ordering -/

/-- The item as it will be restored; the same expression is appended to the fields. -/
def createSelectFieldFromByItem (p : TableAliasStmtInfo) (item : ByItem Parsed) : Except Fail (ByItem Planned) :=
  match item.expr with
  | .funcCall fnName parts =>
    if fnName.l = "database" then .ok ⟨Expr.untouched (.funcCall fnName parts), item.desc⟩
    else .error (.error "ByItem.Expr is a FuncCallExpr but not DATABASE()")
  | .column _ c => do
    let d ← needCreateColumnNameExprDecoratorInField p c
    .ok ⟨.column d c, item.desc⟩
  | _ => .error (.error "ByItem.Expr is not a ColumnNameExpr")

def createSelectFieldsFromByItems (p : TableAliasStmtInfo) :
    Option (List (ByItem Parsed)) → Except Fail (Option (List (ByItem Planned)))
  | none => .ok none
  | some items => do
    let items ← items.mapM (createSelectFieldFromByItem p)
    .ok (some items)

/-- The fields that the items of a clause append to the field list. -/
def extraFields (items : Option (List (ByItem Planned))) : List (SelectField Planned) :=
  (items.getD []).map fun item => .expr item.expr .empty

/-- The fields by their alias and by their column name, a later field in the place of an earlier one. -/
def selectFieldIndexes (i : Nat) (m : AssocMap String Nat) : List (SelectField Planned) → AssocMap String Nat
  | [] => m
  | .expr e asName :: fields =>
    let m := if asName.l ≠ "" then m.set asName.l i else m
    let m := match e with
      | .column none c => m.set c.name.l i
      | _ => m
    selectFieldIndexes (i + 1) m fields
  | _ :: fields => selectFieldIndexes (i + 1) m fields

/-- One of the two loops of `handleExtraFieldList`: an appended column that the statement selects anyway is taken
out again, and the columns behind it move up.  `column` is where the next appended column was put. -/
def dropSelected (selected : AssocMap String Nat) (column deleteNum : Nat) (fields : List (SelectField Planned)) :
    Nat → List Nat × Nat × List (SelectField Planned)
  | 0 => ([], deleteNum, fields)
  | n + 1 =>
    let curr := column - deleteNum
    let found : Option Nat := match fields[curr]? with
      | some (.expr (.column none c) _) => selected.get c.name.l
      | _ => none
    match found with
    | some index =>
      let (columns, rest) := dropSelected selected (column + 1) (deleteNum + 1) (fields.eraseIdx curr) n
      (index :: columns, rest)
    | none =>
      let (columns, rest) := dropSelected selected (column + 1) deleteNum fields n
      (curr :: columns, rest)

/-- `handleExtraFieldList`: the columns to group and to order by, and the fields with what had to be appended. -/
def handleExtraFieldList (origin : Nat) (groupLen orderLen : Nat) (fields : List (SelectField Planned)) :
    List Nat × List Nat × List (SelectField Planned) :=
  let selected := selectFieldIndexes 0 [] (fields.take origin)
  let (groupByColumn, deleteNum, fields) := dropSelected selected origin 0 fields groupLen
  let (orderByColumn, _, fields) := dropSelected selected (origin + groupLen) deleteNum fields orderLen
  (groupByColumn, orderByColumn, fields)

/-- Where the value of an appended field is found: in a selected field of the same name, or in a field of its own
behind the `origin` fields of the statement. -/
inductive FoundAt (origin : Nat) (selected : AssocMap String Nat) (fields : List (SelectField Planned)) :
    Nat → SelectField Planned → Prop where
  | selected {i : Nat} {c : ColumnName} {asName : CIStr} (h : selected.get c.name.l = some i) :
      FoundAt origin selected fields i (.expr (.column none c) asName)
  | appended {i : Nat} {f : SelectField Planned} (hle : origin ≤ i) (h : fields[i]? = some f)
      (hnone : ∀ c asName, f = .expr (.column none c) asName → selected.get c.name.l = none) :
      FoundAt origin selected fields i f

theorem FoundAt.append {origin : Nat} {selected : AssocMap String Nat} {fields : List (SelectField Planned)} {i : Nat}
    {f : SelectField Planned} (h : FoundAt origin selected fields i f) (more : List (SelectField Planned)) :
    FoundAt origin selected (fields ++ more) i f := by
  cases h with
  | selected h => exact .selected h
  | appended hle h hnone =>
    refine .appended hle ?_ hnone
    obtain ⟨hi, _⟩ := List.getElem?_eq_some_iff.1 h
    rw [getElem?_append_left hi, h]

/-- The selected field in whose place a field was appended, if there is one. -/
def selectedAt (selected : AssocMap String Nat) : SelectField Planned → Option Nat
  | .expr (.column none c) _ => selected.get c.name.l
  | _ => none

/-- The appended fields that are not selected anyway. -/
def notSelected (selected : AssocMap String Nat) (extras : List (SelectField Planned)) : List (SelectField Planned) :=
  extras.filter fun f => (selectedAt selected f).isNone

theorem length_notSelected_le (selected : AssocMap String Nat) (extras : List (SelectField Planned)) :
    (notSelected selected extras).length ≤ extras.length := length_filter_le _ _

/-- The loop keeps those of the fields `extras` that are not selected anyway, and finds each of them. -/
theorem dropSelected_spec (origin : Nat) (selected : AssocMap String Nat) (extras : List (SelectField Planned)) :
    ∀ {column deleteNum : Nat} {front back : List (SelectField Planned)}, origin ≤ front.length →
    front.length + deleteNum = column →
      ∃ columns, dropSelected selected column deleteNum (front ++ (extras ++ back)) extras.length =
          (columns, deleteNum + (extras.length - (notSelected selected extras).length),
            front ++ (notSelected selected extras ++ back)) ∧
        Forall₂ (FoundAt origin selected (front ++ notSelected selected extras)) columns extras := by
  induction extras with
  | nil => exact fun _ _ => ⟨[], rfl, .nil⟩
  | cons f extras ih =>
    intro column deleteNum front back horigin hcolumn
    have hcurr : column - deleteNum = front.length := by omega
    have hget : (front ++ (f :: extras ++ back))[front.length]? = some f := by simp
    unfold dropSelected
    rw [length_cons]
    simp only [hcurr, hget]
    split
    · next index hfound =>
      -- the field is selected anyway
      obtain ⟨c, asName, rfl⟩ : ∃ c asName, f = .expr (.column none c) asName := by
        split at hfound
        · next c asName heq => exact ⟨c, asName, Option.some.inj heq⟩
        · cases hfound
      have hkept : notSelected selected (.expr (.column none c) asName :: extras) = notSelected selected extras :=
        filter_cons_of_neg (by simp [selectedAt, show selected.get c.name.l = some index from hfound])
      have herase : (front ++ (.expr (.column none c) asName :: extras ++ back)).eraseIdx front.length =
          front ++ (extras ++ back) := by
        rw [eraseIdx_append_of_length_le le_rfl, Nat.sub_self, cons_append, eraseIdx_cons_zero]
      obtain ⟨columns, heq, hfoundAt⟩ := @ih (column + 1) (deleteNum + 1) front back horigin (by omega)
      have hle := length_notSelected_le selected extras
      rw [herase, heq, hkept]
      refine ⟨index :: columns, ?_, .cons (.selected hfound) hfoundAt⟩
      rw [show deleteNum + 1 + (extras.length - (notSelected selected extras).length) =
        deleteNum + (extras.length + 1 - (notSelected selected extras).length) by omega]
    · next hnotFound =>
      have hnone : ∀ c asName, f = .expr (.column none c) asName → selected.get c.name.l = none := by
        rintro c asName rfl
        exact hnotFound
      have hselectedAt : selectedAt selected f = none := by
        unfold selectedAt
        split
        · exact hnone _ _ rfl
        · rfl
      have hkept : notSelected selected (f :: extras) = f :: notSelected selected extras :=
        filter_cons_of_pos (by rw [hselectedAt]; rfl)
      have hlength : (front ++ [f]).length = front.length + 1 := by simp
      obtain ⟨columns, heq, hfoundAt⟩ := @ih (column + 1) deleteNum (front ++ [f]) back (by omega) (by omega)
      rw [append_assoc, append_assoc, singleton_append, singleton_append, ← cons_append] at heq
      rw [append_assoc, singleton_append] at hfoundAt
      rw [heq, hkept]
      refine ⟨front.length :: columns, ?_, .cons (.appended horigin (by simp) hnone) hfoundAt⟩
      rw [length_cons, Nat.add_sub_add_right, cons_append]

/-- The fields of the statement stay in front; behind them stand those of the appended ones that are not selected
anyway. -/
theorem handleExtraFieldList_spec {fields group order allFields : List (SelectField Planned)}
    {groupByColumn orderByColumn : List Nat}
    (h : (groupByColumn, orderByColumn, allFields) =
      handleExtraFieldList fields.length group.length order.length (fields ++ group ++ order)) :
    allFields = fields ++ notSelected (selectFieldIndexes 0 [] fields) group ++
        notSelected (selectFieldIndexes 0 [] fields) order ∧
      Forall₂ (FoundAt fields.length (selectFieldIndexes 0 [] fields) allFields) groupByColumn group ∧
      Forall₂ (FoundAt fields.length (selectFieldIndexes 0 [] fields) allFields) orderByColumn order := by
  unfold handleExtraFieldList at h
  rw [append_assoc, take_left] at h
  generalize selectFieldIndexes 0 [] fields = selected at h ⊢
  have hle := length_notSelected_le selected group
  obtain ⟨columns, hgroup, hfound⟩ :=
    @dropSelected_spec fields.length selected group fields.length 0 fields order le_rfl
    (by omega)
  have hlength : (fields ++ notSelected selected group).length = fields.length +
    (notSelected selected group).length :=
    length_append
  obtain ⟨columns', horder, hfound'⟩ := @dropSelected_spec fields.length selected order (fields.length + group.length)
    (0 + (group.length - (notSelected selected group).length)) (fields ++ notSelected selected group) []
    (by omega) (by omega)
  rw [append_nil, append_assoc] at horder
  simp only [hgroup, horder, append_nil] at h
  cases h
  exact ⟨rfl, hfound.imp fun _ _ h => h.append _, hfound'⟩

/-! ### Limit -/

/-- `NeedRewriteLimitOrCreateRewrite`: the offset and the count, -1 for no limit, and the limit for the shards. -/
def rewriteLimit : Option Limit → Except Fail (Int × Int × Option Limit)
  | none => .ok (-1, -1, none)
  | some l => match l.count, l.offset with
    | .value count, none => .ok (0, count.getInt64, some l)
    | .value count, some (.value offset) =>
      if offset.getInt64 = 0 then .ok (0, count.getInt64, some l)
      else
        let newCount := Datum.int64 (Int64.ofInt (count.getInt64 + offset.getInt64))
        .ok (offset.getInt64, count.getInt64, some { count := .value newCount, offset := none })
    | _, _ => .error (.panic "interface conversion")

/-! ### The plan -/

/-- What a finished `SELECT` plan holds: the route, the generated statements, and how to merge their results. -/
structure SelectPlan where
  info : TableAliasStmtInfo
  stmt : SelectStmt Planned
  groupByColumn : List Nat
  orderByColumn : List Nat
  orderByDirections : List Bool
  originColumnCount : Nat
  columnCount : Nat
  aggregateFuncs : AssocMap Nat AggregateFunc
  offset : Int
  count : Int
  sqls : List ShardSQL

def newTableAliasStmtInfo (db : String) (router : Router) (order : MapOrder) : TableAliasStmtInfo :=
  { db, router, order }

def postHandleHintDatabaseFunction (p : TableAliasStmtInfo) : Except Fail TableAliasStmtInfo :=
  if p.hintPhyDB = "" then .ok p
  else match p.router.getShardRule p.result.db p.result.table with
    | none => .error (.error "sharding rule of route result not found")
    | some rule =>
      if isMycatShardingRule rule.getType then
        match rule.getTableIndexByDatabaseName p.hintPhyDB with
        | none => .error (.error ("hint db not found: " ++ p.hintPhyDB))
        | some idx => .ok { p with result := { p.result with indexes := [idx] } }
      else .error (.error "only mycat rule supports database function hint")

def handleSelectStmt (p : TableAliasStmtInfo) (stmt : SelectStmt Parsed) : Except Fail SelectPlan := do
  let (tableRefs, p) ← wrapErr "handle From error: " (handleTableRefs p stmt.tableRefs)
  let (fields, aggregateFuncs) ← wrapErr "handle Fields error: " (handleFieldList p stmt.fields)
  let groupBy ← wrapErr "handle GroupBy error: get group by fields error: "
    (createSelectFieldsFromByItems p stmt.groupBy)
  let orderBy ← wrapErr "handle OrderBy error: get order by fields error: "
    (createSelectFieldsFromByItems p stmt.orderBy)
  let (groupByColumn, orderByColumn, allFields) :=
    handleExtraFieldList fields.length (groupBy.getD []).length (orderBy.getD []).length
      (fields ++ extraFields groupBy ++ extraFields orderBy)
  let (cond, p) ← wrapErr "handle Where error: " (handleWhere p stmt.cond)
  let having ← wrapErr "handle Having error: " (handleHaving p stmt.having)
  let (offset, count, limit) ← rewriteLimit stmt.limit
  let p := { p with toStmtInfo := p.toStmtInfo.postHandleGlobalTableRouteResultInQuery }
  let p ← wrapErr "handle Hint error: " (postHandleHintDatabaseFunction p)
  let stmt : SelectStmt Planned :=
    { options := stmt.options, distinct := stmt.distinct, fields := allFields, tableRefs, cond, groupBy, having
      windows := stmt.windows.map Expr.untouched, orderBy, limit, lock := stmt.lock }
  let sqls ← wrapErr "generate select SQL error: " (generateShardingSQLs (fun i => stmt.restore i) p.result p.router)
  .ok { info := p, stmt, groupByColumn, orderByColumn, orderByDirections := (orderBy.getD []).map ByItem.desc
        originColumnCount := fields.length, columnCount := allFields.length, aggregateFuncs, offset, count, sqls }

/-- The steps of a `SELECT` that was planned. -/
inductive SelectRun (p : TableAliasStmtInfo) (stmt : SelectStmt Parsed) : SelectPlan → Prop where
  | mk {tableRefs : Option (Join (TableSource Planned) Planned)} {p₁ p₂ p₃ : TableAliasStmtInfo}
      {fields : List (SelectField Planned)} {aggregateFuncs : AssocMap Nat AggregateFunc}
      {groupBy orderBy : Option (List (ByItem Planned))} {cond having : Option (Expr Planned)} {offset count : Int}
      {limit : Option Limit} {groupByColumn orderByColumn : List Nat} {allFields : List (SelectField Planned)}
      {planned : SelectStmt Planned} {sqls : List ShardSQL}
      (hrefs : handleTableRefs p stmt.tableRefs = .ok (tableRefs, p₁))
      (hfields : handleFieldList p₁ stmt.fields = .ok (fields, aggregateFuncs))
      (hgroup : createSelectFieldsFromByItems p₁ stmt.groupBy = .ok groupBy)
      (horder : createSelectFieldsFromByItems p₁ stmt.orderBy = .ok orderBy)
      (hextra : (groupByColumn, orderByColumn, allFields) =
        handleExtraFieldList fields.length (groupBy.getD []).length (orderBy.getD []).length
          (fields ++ extraFields groupBy ++ extraFields orderBy))
      (hwhere : handleWhere p₁ stmt.cond = .ok (cond, p₂))
      (hhaving : handleHaving p₂ stmt.having = .ok having)
      (hlimit : rewriteLimit stmt.limit = .ok (offset, count, limit))
      (hhint : postHandleHintDatabaseFunction
        { p₂ with toStmtInfo := p₂.toStmtInfo.postHandleGlobalTableRouteResultInQuery } = .ok p₃)
      (hplanned : planned =
        { options := stmt.options, distinct := stmt.distinct, fields := allFields, tableRefs, cond, groupBy, having
          windows := stmt.windows.map Expr.untouched, orderBy, limit, lock := stmt.lock })
      (hsqls : generateShardingSQLs (fun i => planned.restore i) p₃.result p₃.router = .ok sqls) :
      SelectRun p stmt
        { info := p₃, stmt := planned, groupByColumn, orderByColumn
          orderByDirections := (orderBy.getD []).map ByItem.desc, originColumnCount := fields.length
          columnCount := allFields.length, aggregateFuncs, offset, count, sqls }

theorem selectRun_of_ok {p : TableAliasStmtInfo} {stmt : SelectStmt Parsed} {plan : SelectPlan}
    (h : handleSelectStmt p stmt = .ok plan) : SelectRun p stmt plan := by
  unfold handleSelectStmt at h
  simp only [Fallible.bind_eq_ok, wrapErr_eq_ok, Prod.exists] at h
  obtain ⟨tableRefs, p₁, hrefs, fields, aggregateFuncs, hfields, groupBy, hgroup, orderBy, horder, cond, p₂, hwhere,
    having, hhaving, offset, count, limit, hlimit, p₃, hhint, sqls, hsqls, h⟩ := h
  obtain rfl := Except.ok.inj h
  exact .mk hrefs hfields hgroup horder rfl hwhere hhaving hlimit hhint rfl hsqls

end DbProxy
