import DbProxy.Plan.Modify
import DbProxy.Spec.Walk

/-!
# Statements on one sharded table

A statement whose `FROM` is one table has one rule in use, so every column that resolves at all resolves to it.
The lemmas follow that rule through the table references and `WHERE` to the final route.
-/

namespace DbProxy

open Fallible
variable {db : String} {router : Router} {order : MapOrder} {n : TableName} {asName : CIStr} {rule : Rule}
  {j : Join (TableSource Planned) Planned} {p : TableAliasStmtInfo} {c : ColumnName}

/-! ### The table reference -/

/-- `FROM n AS asName`. -/
def singleTable (n : TableName) (asName : CIStr) : Join (TableSource Parsed) Parsed :=
  .ofSource (.table () n asName) {}

structure SingleTable (p : TableAliasStmtInfo) (rule : Rule) : Prop where
  recorded : ∃ db router l, l.rule = rule ∧ Recorded db router p [l]
  sharded : rule.getType ≠ .global
  indexes : p.result.indexes = rule.getSubTableIndexes
  noHint : p.hintPhyDB = ""

theorem recorded_of_handleJoin (hrule : router.getShardRule db n.name.l = some rule)
    (h : handleJoin (newTableAliasStmtInfo db router order) (singleTable n asName) = .ok (j, p)) :
    Recorded db router p [⟨n.name.l, asName.l, rule⟩] ∧ p.hintPhyDB = "" ∧
      (rule.getType ≠ .global → p.result = ⟨rule.getDB, StmtInfo.ruleTable rule, rule.getSubTableIndexes⟩) := by
  unfold handleJoin singleTable handleJoinWith at h
  obtain ⟨_, _, h⟩ := bind_eq_ok.1 h
  obtain ⟨⟨left, p₁⟩, hleft, h⟩ := bind_eq_ok.1 h
  cases h
  have hleaf : leafOf db router (.table () n asName) = some ⟨n.name.l, asName.l, rule⟩ := by simp [leafOf, hrule]
  obtain ⟨hrecorded, hhint, hfresh, _⟩ := (recorded_new db router order).record hleaf (wrapErr_eq_ok.1 hleft)
  exact ⟨hrecorded, hhint, fun hg => hfresh hg rfl rfl⟩

theorem singleTable_of_handleJoin (hrule : router.getShardRule db n.name.l = some rule) (hg : rule.getType ≠ .global)
    (h : handleJoin (newTableAliasStmtInfo db router order) (singleTable n asName) = .ok (j, p)) :
    SingleTable p rule := by
  obtain ⟨hrecorded, hhint, hresult⟩ := recorded_of_handleJoin hrule h
  exact { recorded := ⟨db, router, _, rfl, hrecorded⟩, sharded := hg, indexes := by rw [hresult hg], noHint := hhint }

theorem SingleTable.tableRules_ne (hp : SingleTable p rule) :
    p.tableRules ≠ [] := by
  obtain ⟨db, router, l, rfl, hrecorded⟩ := hp.recorded
  exact List.ne_nil_of_mem (AssocMap.mem_of_get (hrecorded.named l List.mem_cons_self hp.sharded))

theorem SingleTable.resolve (hp : SingleTable p rule)
    {d : ColumnNameDecorator} (h : needCreateColumnNameDecorator p c = .ok (some d)) : d.rule = rule := by
  obtain ⟨db, router, l, rfl, hrecorded⟩ := hp.recorded
  obtain ⟨l', hl', hrule, _⟩ := hrecorded.resolve h
  rw [hrule, List.mem_singleton.1 hl']

theorem SingleTable.resolve_key (hp : SingleTable p rule)
    (hc : c.name.l = rule.getShardingColumn) {d : Option ColumnNameDecorator}
    (h : needCreateColumnNameDecorator p c = .ok d) : ∃ isAlias, d = some ⟨rule, isAlias⟩ := by
  cases d with
  | some d => exact ⟨d.isAlias, by rw [← hp.resolve h]⟩
  | none =>
    obtain ⟨db, router, l, rfl, hrecorded⟩ := hp.recorded
    exact absurd hc.symm ((hrecorded.resolve_none h).2 l List.mem_cons_self hp.sharded)

/-! ### Rows of the table -/

/-- A row with key `k` in the column `column`. -/
def rowReading (column : String) (k : Int) (literal : Datum → Option Int) (other : Expr Parsed → Kleene.Truth) :
    Reading where
  key c := if c.name.l = column then some (some k) else none
  literal := literal
  other := other

def Rule.isKey (rule : Rule) (c : ColumnName) : Bool := c.name.l = rule.getShardingColumn

theorem SingleTable.resolves (hp : SingleTable p rule) : Resolves p rule rule.isKey := by
  refine ⟨hp.sharded, fun c d hd => by rw [hp.resolve hd], fun c d hd => ?_⟩
  rw [Rule.isKey, decide_eq_true_eq]
  constructor
  · intro hc
    obtain ⟨isAlias, rfl⟩ := hp.resolve_key hc hd
    exact ⟨_, rfl, hc.symm⟩
  · rintro ⟨d', rfl, hc⟩
    rw [← hc, hp.resolve hd]

/-! ### The final route -/

/-- A `SELECT`, an `UPDATE` or a `DELETE` on the table `n` with the condition `e` was planned and goes to
`indexes`. -/
inductive WhereRoute (db : String) (router : Router) (order : MapOrder) (n : TableName) (asName : CIStr)
    (e : Expr Parsed) : List Int → Prop where
  | select (stmt : SelectStmt Parsed) (plan : SelectPlan) (hrefs : stmt.tableRefs = some (singleTable n asName))
      (hcond : stmt.cond = some e)
      (h : handleSelectStmt (newTableAliasStmtInfo db router order) stmt = .ok plan) :
      WhereRoute db router order n asName e plan.info.result.indexes
  | update (stmt : UpdateStmt Parsed) (plan : ModifyPlan (UpdateStmt Planned))
      (hrefs : stmt.tableRefs = singleTable n asName) (hcond : stmt.cond = some e)
      (h : handleUpdatePlan (newTableAliasStmtInfo db router order) stmt = .ok plan) :
      WhereRoute db router order n asName e plan.info.result.indexes
  | delete (stmt : DeleteStmt Parsed) (plan : ModifyPlan (DeleteStmt Planned))
      (hrefs : stmt.tableRefs = singleTable n asName) (hcond : stmt.cond = some e)
      (h : handleDeletePlan (newTableAliasStmtInfo db router order) stmt = .ok plan) :
      WhereRoute db router order n asName e plan.info.result.indexes

def routeAfter (rule : Rule) (c : Cond) : List Int :=
  if c.has then interList rule.getSubTableIndexes c.indexes else rule.getSubTableIndexes

section Route

variable {p p' : TableAliasStmtInfo} {e : Expr Parsed} {cond : Option (Expr Planned)}

theorem handleWhere_single (hp : SingleTable p rule) (he : ∀ a ∈ e.atoms, a.namesDatabase = false)
    (h : handleWhere p (some e) = .ok (cond, p')) :
    ∃ c, handleComparisonExpr p e = .ok c ∧ p'.result.indexes = routeAfter rule c ∧ p'.hintPhyDB = "" ∧
      p'.tableRules ≠ [] := by
  obtain ⟨c, hc, h⟩ := bind_eq_ok.1 h
  rw [wrapErr_eq_ok] at hc
  cases h
  have hhint : c.hint = none := (hint_eq hc).trans (databaseName_eq_none he)
  refine ⟨c, hc, ?_, ?_, ?_⟩
  · unfold TableAliasStmtInfo.applyCond routeAfter
    cases c.has with
    | false => simp [hp.indexes]
    | true => simp [TableAliasStmtInfo.inter, RouteResult.inter, hp.indexes]
  · unfold TableAliasStmtInfo.applyCond
    cases c.has <;> simp [TableAliasStmtInfo.inter, hhint, hp.noHint]
  · unfold TableAliasStmtInfo.applyCond
    cases c.has <;> simpa [TableAliasStmtInfo.inter] using hp.tableRules_ne

theorem postHandleGlobal_of_tableRules {s : StmtInfo} {indexes : Rule → List Int} (h : s.tableRules ≠ []) :
    s.postHandleGlobalTableRouteResult indexes = s := by
  have hne : s.tableRules.isEmpty = false := by simpa using h
  simp [StmtInfo.postHandleGlobalTableRouteResult, hne]

theorem postHandleHint_of_noHint {p p' : TableAliasStmtInfo} (hp : p.hintPhyDB = "")
    (h : postHandleHintDatabaseFunction p = .ok p') : p' = p := by
  simp only [postHandleHintDatabaseFunction, hp, if_true] at h
  exact (Except.ok.inj h).symm

variable {indexes : List Int}

section

variable (hrule : router.getShardRule db n.name.l = some rule) (hg : rule.getType ≠ .global)

include hrule hg

theorem WhereRoute.eq_routeAfter (h : WhereRoute db router order n asName e indexes)
    (he : ∀ a ∈ e.atoms, a.namesDatabase = false) :
    ∃ p c, SingleTable p rule ∧ handleComparisonExpr p e = .ok c ∧ indexes = routeAfter rule c := by
  cases h with
  | select stmt plan hstmt hcond h =>
    cases selectRun_of_ok h with
    | mk hrefs _ _ _ _ hwhere _ _ hhint _ _ =>
      rw [hstmt] at hrefs
      rw [hcond] at hwhere
      obtain ⟨⟨j, p₁⟩, hj, hrefs⟩ := bind_eq_ok.1 hrefs
      cases hrefs
      have hp := singleTable_of_handleJoin hrule hg hj
      obtain ⟨c, hc, hidx, hno, hne⟩ := handleWhere_single hp he hwhere
      rw [StmtInfo.postHandleGlobalTableRouteResultInQuery, postHandleGlobal_of_tableRules hne] at hhint
      obtain rfl := postHandleHint_of_noHint hno hhint
      exact ⟨_, c, hp, hc, hidx⟩
  | update stmt plan hstmt hcond h =>
    cases updateRun_of_ok h with
    | mk hrefs _ hwhere _ hpost _ _ =>
      rw [hstmt] at hrefs
      rw [hcond] at hwhere
      have hp := singleTable_of_handleJoin hrule hg hrefs
      obtain ⟨c, hc, hidx, _, hne⟩ := handleWhere_single hp he hwhere
      rw [StmtInfo.postHandleGlobalTableRouteResultInModify, postHandleGlobal_of_tableRules hne] at hpost
      exact ⟨_, c, hp, hc, hpost ▸ hidx⟩
  | delete stmt plan hstmt hcond h =>
    cases deleteRun_of_ok h with
    | mk hrefs hwhere _ hpost _ _ =>
      rw [hstmt] at hrefs
      rw [hcond] at hwhere
      have hp := singleTable_of_handleJoin hrule hg hrefs
      obtain ⟨c, hc, hidx, _, hne⟩ := handleWhere_single hp he hwhere
      rw [StmtInfo.postHandleGlobalTableRouteResultInModify, postHandleGlobal_of_tableRules hne] at hpost
      exact ⟨_, c, hp, hc, hpost ▸ hidx⟩

theorem WhereRoute.between {c : ColumnName} {left right : Expr Parsed} {isNot : Bool}
    (h : WhereRoute db router order n asName (.between () (.column () c) left right isNot) indexes)
    (hc : c.name.l = rule.getShardingColumn) :
    ∃ route, BetweenRoute rule c left right isNot route ∧ indexes = interList rule.getSubTableIndexes route := by
  obtain ⟨p, cond, hp, hcond, rfl⟩ := h.eq_routeAfter hrule hg (by simp [Expr.atoms, Expr.namesDatabase])
  obtain ⟨d, hd, hcond⟩ := bind_eq_ok.1 hcond
  obtain ⟨isAlias, rfl⟩ := hp.resolve_key hc (wrapErr_eq_ok.1 hd)
  obtain ⟨route, hroute, hcond⟩ := bind_eq_ok.1 hcond
  cases hcond
  exact ⟨route, betweenRoute_of_ok (wrapErr_eq_ok.1 hroute), rfl⟩

theorem WhereRoute.compare {op : Op} {c : ColumnName} {v : Datum} (hop : op.isCompare = true)
    (h : WhereRoute db router order n asName (.binary op (.column () c) (.value v)) indexes)
    (hc : c.name.l = rule.getShardingColumn) :
    ∃ route, CompareRoute rule op c.name.l v.value route ∧ indexes = interList rule.getSubTableIndexes route := by
  have hlogic : op.isLogic = false := by cases op <;> simp_all [Op.isCompare, Op.isLogic]
  have hdb : ∀ a ∈ (Expr.binary op (.column () c) (.value v) : Expr Parsed).atoms, a.namesDatabase = false := by
    simp [Expr.atoms, hlogic, Expr.namesDatabase, Expr.isDatabaseCall]
  obtain ⟨p, cond, hp, hcond, rfl⟩ := h.eq_routeAfter hrule hg hdb
  have hcond : handleBinaryOperationExprMathCompare p op (.column () c) (.value v) = .ok cond := by
    cases op <;> first | exact hcond | simp [Op.isCompare] at hop
  obtain ⟨hint, hhint, hcond⟩ := bind_eq_ok.1 hcond
  obtain rfl := databaseHint_eq_ok rfl rfl hhint
  obtain ⟨d, hd, hcond⟩ := bind_eq_ok.1 hcond
  obtain ⟨isAlias, rfl⟩ := hp.resolve_key hc (wrapErr_eq_ok.1 hd)
  simp only [hg, if_false] at hcond
  obtain ⟨route, hroute, hcond⟩ := bind_eq_ok.1 hcond
  cases hcond
  exact ⟨route, compareRoute_of_ok (wrapErr_eq_ok.1 hroute), rfl⟩

theorem WhereRoute.mem {literal : Datum → Option Int} {other : Expr Parsed → Kleene.Truth} {k i : Int}
    (h : WhereRoute db router order n asName e indexes) (hi : rule.Finds i)
    (hloc : Locates rule literal k i) (hstart : StartIsLeast rule literal k i)
    (hdb : ∀ a ∈ e.atoms, a.namesDatabase = false)
    (he : ∀ a ∈ e.atoms, keyAtom literal rule.getShardingColumn a = true)
    (ht : (rowReading rule.getShardingColumn k literal other).truth e = some true) : i ∈ indexes := by
  obtain ⟨p, c, hp, hc, rfl⟩ := h.eq_routeAfter hrule hg hdb
  have hreads : ReadsKeys rule rule.isKey [rule.getShardingColumn]
      (rowReading rule.getShardingColumn k literal other) i := by
    refine ⟨fun c hc => List.mem_singleton.2 (of_decide_eq_true hc), fun c hc => ⟨some k, ?_, ?_⟩⟩
    · exact if_pos (of_decide_eq_true hc)
    · rintro _ ⟨⟩
      exact ⟨hloc, hstart⟩
  have hadmits := admits_of_truth hreads (fun a ha => .inl fun column hcolumn => by
    rw [List.mem_singleton.1 hcolumn]
    exact he a ha) ht
  have hreaches := hp.resolves.reaches_of_admits hi hc hadmits
  unfold routeAfter
  by_cases hhas : c.has = true
  · rw [if_pos hhas]
    exact (reaches_interList hi.reaches (hreaches hhas)).mem
  · rw [if_neg hhas]
    exact hi.reaches.mem

end

end Route

end DbProxy
