import DbProxy.Plan.Select

/-!
# Planning `UPDATE` and `DELETE`

Both take one table, narrow the route by `WHERE` as a `SELECT` does, and refuse a join.  An `UPDATE` may not assign
the sharding column, so that no row has to move to another sub-table.
-/

namespace DbProxy

/-- The checks and the walk that both statements share. -/
def handleModifyTableRefs (p : TableAliasStmtInfo) (j : Join (TableSource Parsed) Parsed) :
    Except Fail (Join (TableSource Planned) Planned × TableAliasStmtInfo) :=
  if j.tail.right.isSome then .error (.error "does not support update multiple tables in sharding")
  else handleJoin p j

/-- `removeSchemaAndTableInfoInColumnName`. -/
def ColumnName.bare (c : ColumnName) : ColumnName := { c with schema := .empty, table := .empty }

def handleUpdateAssignment (p : TableAliasStmtInfo) (a : Assignment) : Except Fail Assignment := do
  match ← needCreateColumnNameDecorator p a.column with
  | some d =>
    if d.rule.getShardingColumn = a.column.name.l then .error (.error "cannot update shard column value")
    else .ok { a with column := a.column.bare }
  | none => .ok { a with column := a.column.bare }

/-- The items of `ORDER BY` must be columns. -/
def handleModifyByItem (p : TableAliasStmtInfo) (item : ByItem Parsed) : Except Fail (ByItem Planned) :=
  match item.expr with
  | .column _ c => do
    let d ← needCreateColumnNameExprDecoratorInField p c
    .ok ⟨.column d c, item.desc⟩
  | _ => .error (.error "ByItem.Expr is not a ColumnNameExpr")

def handleModifyOrderBy (p : TableAliasStmtInfo) :
    Option (List (ByItem Parsed)) → Except Fail (Option (List (ByItem Planned)))
  | none => .ok none
  | some items => do
    let items ← items.mapM (handleModifyByItem p)
    .ok (some items)

/-- A finished plan: the route and the generated statements. -/
structure ModifyPlan (α : Type) where
  info : TableAliasStmtInfo
  stmt : α
  sqls : List ShardSQL

def handleUpdatePlan (p : TableAliasStmtInfo) (stmt : UpdateStmt Parsed) :
    Except Fail (ModifyPlan (UpdateStmt Planned)) := do
  let (tableRefs, p) ← wrapErr "handle From error: " (handleModifyTableRefs p stmt.tableRefs)
  let list ← wrapErr "handle assignment list error: " (stmt.list.mapM (handleUpdateAssignment p))
  let (cond, p) ← wrapErr "handle Where error: " (handleWhere p stmt.cond)
  let order ← wrapErr "handle OrderBy error: " (handleModifyOrderBy p stmt.order)
  let p := { p with toStmtInfo := p.toStmtInfo.postHandleGlobalTableRouteResultInModify }
  let stmt : UpdateStmt Planned := { options := stmt.options, tableRefs, list, cond, order, limit := stmt.limit }
  let sqls ← wrapErr "generate sqls error: " (generateShardingSQLs (fun i => stmt.restore i) p.result p.router)
  .ok { info := p, stmt, sqls }

def handleDeletePlan (p : TableAliasStmtInfo) (stmt : DeleteStmt Parsed) :
    Except Fail (ModifyPlan (DeleteStmt Planned)) := do
  let (tableRefs, p) ← wrapErr "handle From error: " (handleModifyTableRefs p stmt.tableRefs)
  let (cond, p) ← wrapErr "handle Where error: " (handleWhere p stmt.cond)
  let order ← wrapErr "handle OrderBy error: " (handleModifyOrderBy p stmt.order)
  let p := { p with toStmtInfo := p.toStmtInfo.postHandleGlobalTableRouteResultInModify }
  let stmt : DeleteStmt Planned :=
    { options := stmt.options, tables := stmt.tables, tableRefs, cond, order, limit := stmt.limit }
  let sqls ← wrapErr "generate sqls error: " (generateShardingSQLs (fun i => stmt.restore i) p.result p.router)
  .ok { info := p, stmt, sqls }

/-- The steps of an `UPDATE` that was planned. -/
inductive UpdateRun (p : TableAliasStmtInfo) (stmt : UpdateStmt Parsed) : ModifyPlan (UpdateStmt Planned) → Prop where
  | mk {tableRefs : Join (TableSource Planned) Planned} {p₁ p₂ p₃ : TableAliasStmtInfo} {list : List Assignment}
      {cond : Option (Expr Planned)} {order : Option (List (ByItem Planned))} {planned : UpdateStmt Planned}
      {sqls : List ShardSQL} (hrefs : handleModifyTableRefs p stmt.tableRefs = .ok (tableRefs, p₁))
      (hlist : stmt.list.mapM (handleUpdateAssignment p₁) = .ok list)
      (hwhere : handleWhere p₁ stmt.cond = .ok (cond, p₂))
      (horder : handleModifyOrderBy p₂ stmt.order = .ok order)
      (hpost : p₃ = { p₂ with toStmtInfo := p₂.toStmtInfo.postHandleGlobalTableRouteResultInModify })
      (hplanned : planned = { options := stmt.options, tableRefs, list, cond, order, limit := stmt.limit })
      (hsqls : generateShardingSQLs (fun i => planned.restore i) p₃.result p₃.router = .ok sqls) :
      UpdateRun p stmt { info := p₃, stmt := planned, sqls }

theorem updateRun_of_ok {p : TableAliasStmtInfo} {stmt : UpdateStmt Parsed} {plan : ModifyPlan (UpdateStmt Planned)}
    (h : handleUpdatePlan p stmt = .ok plan) : UpdateRun p stmt plan := by
  unfold handleUpdatePlan at h
  simp only [Fallible.bind_eq_ok, wrapErr_eq_ok, Prod.exists] at h
  obtain ⟨tableRefs, p₁, hrefs, list, hlist, cond, p₂, hwhere, order, horder, sqls, hsqls, h⟩ := h
  obtain rfl := Except.ok.inj h
  exact .mk hrefs hlist hwhere horder rfl rfl hsqls

/-- The steps of a `DELETE` that was planned. -/
inductive DeleteRun (p : TableAliasStmtInfo) (stmt : DeleteStmt Parsed) : ModifyPlan (DeleteStmt Planned) → Prop where
  | mk {tableRefs : Join (TableSource Planned) Planned} {p₁ p₂ p₃ : TableAliasStmtInfo}
      {cond : Option (Expr Planned)} {order : Option (List (ByItem Planned))} {planned : DeleteStmt Planned}
      {sqls : List ShardSQL} (hrefs : handleModifyTableRefs p stmt.tableRefs = .ok (tableRefs, p₁))
      (hwhere : handleWhere p₁ stmt.cond = .ok (cond, p₂))
      (horder : handleModifyOrderBy p₂ stmt.order = .ok order)
      (hpost : p₃ = { p₂ with toStmtInfo := p₂.toStmtInfo.postHandleGlobalTableRouteResultInModify })
      (hplanned : planned =
        { options := stmt.options, tables := stmt.tables, tableRefs, cond, order, limit := stmt.limit })
      (hsqls : generateShardingSQLs (fun i => planned.restore i) p₃.result p₃.router = .ok sqls) :
      DeleteRun p stmt { info := p₃, stmt := planned, sqls }

theorem deleteRun_of_ok {p : TableAliasStmtInfo} {stmt : DeleteStmt Parsed} {plan : ModifyPlan (DeleteStmt Planned)}
    (h : handleDeletePlan p stmt = .ok plan) : DeleteRun p stmt plan := by
  unfold handleDeletePlan at h
  simp only [Fallible.bind_eq_ok, wrapErr_eq_ok, Prod.exists] at h
  obtain ⟨tableRefs, p₁, hrefs, cond, p₂, hwhere, order, horder, sqls, hsqls, h⟩ := h
  obtain rfl := Except.ok.inj h
  exact .mk hrefs hwhere horder rfl rfl hsqls

end DbProxy
