import DbProxy.Spec.IntegerKeys

/-!
# Splitting `IN` lists

An `IN` on the sharding column is split: the statement for an index prints only the values that lie there.  The split
is made when the `IN` is visited, and the route is known only after the whole `WHERE`.  Under an `OR` the statement
may go to an index where an `IN` has no value, and then it prints an empty list.

Here the split of every `IN` of a `WHERE` is compared with the original, at every index of the final route.
-/

namespace DbProxy

open Fallible List

open Kleene (Truth)
variable {rule : Rule} {i : Int} {e : Expr Parsed} {p : TableAliasStmtInfo} {op : Op} {cond : Cond}

/-! ### Planned conditions -/

/-- A `SELECT`, an `UPDATE` or a `DELETE` on the table `n` was planned: its condition `e` became `cond`, and it goes
to `indexes`.  Only a `SELECT` follows a database that the condition names (`hinted`). -/
inductive WherePlan (db : String) (router : Router) (order : MapOrder) (n : TableName) (asName : CIStr)
    (e : Expr Parsed) : Bool → Expr Planned → List Int → Prop where
  | select (stmt : SelectStmt Parsed) (plan : SelectPlan) (cond : Expr Planned)
      (hrefs : stmt.tableRefs = some (singleTable n asName)) (hcond : stmt.cond = some e)
      (h : handleSelectStmt (newTableAliasStmtInfo db router order) stmt = .ok plan)
      (hplanned : plan.stmt.cond = some cond) :
      WherePlan db router order n asName e true cond plan.info.result.indexes
  | update (stmt : UpdateStmt Parsed) (plan : ModifyPlan (UpdateStmt Planned)) (cond : Expr Planned)
      (hrefs : stmt.tableRefs = singleTable n asName) (hcond : stmt.cond = some e)
      (h : handleUpdatePlan (newTableAliasStmtInfo db router order) stmt = .ok plan)
      (hplanned : plan.stmt.cond = some cond) :
      WherePlan db router order n asName e false cond plan.info.result.indexes
  | delete (stmt : DeleteStmt Parsed) (plan : ModifyPlan (DeleteStmt Planned)) (cond : Expr Planned)
      (hrefs : stmt.tableRefs = singleTable n asName) (hcond : stmt.cond = some e)
      (h : handleDeletePlan (newTableAliasStmtInfo db router order) stmt = .ok plan)
      (hplanned : plan.stmt.cond = some cond) :
      WherePlan db router order n asName e false cond plan.info.result.indexes

def hintOf (hinted : Bool) (e : Expr Parsed) : Option String := if hinted then e.databaseName else none

/-- The statement with the condition `e` goes to `i`: `e` admits it, or the database that `e` names has it. -/
def goesTo (router : Router) (rule : Rule) (hinted : Bool) (e : Expr Parsed) (i : Int) : Prop :=
  match hintOf hinted e with
  | none => i ∈ rule.getSubTableIndexes ∧ e.admits rule rule.isKey i
  | some name => ∃ r, router.getShardRule rule.getDB (StmtInfo.ruleTable rule) = some r ∧
      r.getTableIndexByDatabaseName name = some i

section Plan

variable {db : String} {router : Router} {order : MapOrder} {n : TableName} {asName : CIStr}
  {p p' q : TableAliasStmtInfo} {cond : Option (Expr Planned)}

theorem result_of_handleJoin (hrule : router.getShardRule db n.name.l = some rule) (hg : rule.getType ≠ .global)
    {j : Join (TableSource Planned) Planned}
    (h : handleJoin (newTableAliasStmtInfo db router order) (singleTable n asName) = .ok (j, p)) :
    p.router = router ∧ p.result = ⟨rule.getDB, StmtInfo.ruleTable rule, rule.getSubTableIndexes⟩ := by
  obtain ⟨hrecorded, _, hresult⟩ := recorded_of_handleJoin hrule h
  exact ⟨hrecorded.routes, hresult hg⟩

theorem handleWhere_some (h : handleWhere p (some e) = .ok (cond, p')) :
    ∃ c, handleComparisonExpr p e = .ok c ∧ cond = some c.expr ∧ p' = p.applyCond c := by
  obtain ⟨c, hc, h⟩ := bind_eq_ok.1 h
  cases h
  exact ⟨c, wrapErr_eq_ok.1 hc, rfl, rfl⟩

theorem SingleTable.tableRules_applyCond (hp : SingleTable p rule) (c : Cond) : (p.applyCond c).tableRules ≠ [] := by
  unfold TableAliasStmtInfo.applyCond
  cases c.has <;> simpa [TableAliasStmtInfo.inter] using hp.tableRules_ne

theorem SingleTable.mem_applyCond (hp : SingleTable p rule) (hsub : Increasing rule.getSubTableIndexes) {c : Cond}
    (hc : handleComparisonExpr p e = .ok c) {i : Int} :
    i ∈ (p.applyCond c).result.indexes ↔ i ∈ rule.getSubTableIndexes ∧ e.admits rule rule.isKey i := by
  have hinc : Increasing p.result.indexes := hp.indexes ▸ hsub
  rw [DbProxy.mem_applyCond hinc (hp.resolves.increasing_route hsub e c hc), hp.indexes]
  exact and_congr_right fun hi => hp.resolves.admits_iff hsub hi hc

theorem mem_of_hint (hq : postHandleHintDatabaseFunction p = .ok q) (hname : p.hintPhyDB ≠ "") {i : Int} :
    i ∈ q.result.indexes ↔ ∃ r, p.router.getShardRule p.result.db p.result.table = some r ∧
      r.getTableIndexByDatabaseName p.hintPhyDB = some i := by
  unfold postHandleHintDatabaseFunction at hq
  rw [if_neg hname] at hq
  cases hrule : p.router.getShardRule p.result.db p.result.table with
  | none =>
    rw [hrule] at hq
    cases hq
  | some r =>
    rw [hrule] at hq
    simp only at hq
    split at hq
    · split at hq
      · cases hq
      · next idx hidx =>
        cases hq
        simp [hidx, eq_comm]
    · cases hq

theorem SingleTable.goesTo_select (hp : SingleTable p rule) (hsub : Increasing rule.getSubTableIndexes)
    (hrouter : p.router = router)
    (hresult : p.result = ⟨rule.getDB, StmtInfo.ruleTable rule, rule.getSubTableIndexes⟩) {c : Cond}
    (hc : handleComparisonExpr p e = .ok c) (hq : postHandleHintDatabaseFunction (p.applyCond c) = .ok q) (i : Int) :
    i ∈ q.result.indexes ↔ goesTo router rule true e i := by
  have hhint : (p.applyCond c).hintPhyDB = e.databaseName.getD "" := by
    rw [hintPhyDB_applyCond, hint_eq hc, hp.noHint]
  have hkeep : (p.applyCond c).router = router ∧ (p.applyCond c).result.db = rule.getDB ∧
      (p.applyCond c).result.table = StmtInfo.ruleTable rule := by
    unfold TableAliasStmtInfo.applyCond
    cases c.has <;> simp [TableAliasStmtInfo.inter, RouteResult.inter, hresult, hrouter]
  unfold goesTo hintOf
  rw [if_pos rfl]
  cases hname : e.databaseName with
  | none =>
    rw [hname] at hhint
    obtain rfl := postHandleHint_of_noHint hhint hq
    exact hp.mem_applyCond hsub hc
  | some name =>
    rw [hname] at hhint
    have hne : (p.applyCond c).hintPhyDB ≠ "" := by
      rw [hhint]
      exact fun hempty => databaseName_ne_empty e (hname.trans (congrArg some hempty))
    rw [mem_of_hint hq hne, hhint, hkeep.1, hkeep.2.1, hkeep.2.2]
    exact Iff.rfl

variable {hinted : Bool} {planned : Expr Planned} {indexes : List Int}

theorem steps_of_modify (hrule : router.getShardRule db n.name.l = some rule) (hg : rule.getType ≠ .global)
    (hsub : Increasing rule.getSubTableIndexes) {j : Join (TableSource Planned) Planned}
    (hrefs : handleJoin (newTableAliasStmtInfo db router order) (singleTable n asName) = .ok (j, p))
    (hwhere : handleWhere p (some e) = .ok (cond, p')) (hplanned : cond = some planned)
    (hpost : q = { p' with toStmtInfo := p'.toStmtInfo.postHandleGlobalTableRouteResultInModify }) :
    ∃ p c, SingleTable p rule ∧ handleComparisonExpr p e = .ok c ∧ planned = c.expr ∧
      ∀ i, i ∈ q.result.indexes ↔ goesTo router rule false e i := by
  have hp := singleTable_of_handleJoin hrule hg hrefs
  obtain ⟨c, hc, rfl, rfl⟩ := handleWhere_some hwhere
  rw [StmtInfo.postHandleGlobalTableRouteResultInModify,
    postHandleGlobal_of_tableRules (hp.tableRules_applyCond c)] at hpost
  subst hpost
  exact ⟨_, c, hp, hc, (Option.some.inj hplanned).symm, fun i => hp.mem_applyCond hsub hc⟩

theorem WherePlan.steps (h : WherePlan db router order n asName e hinted planned indexes)
    (hrule : router.getShardRule db n.name.l = some rule) (hg : rule.getType ≠ .global)
    (hsub : Increasing rule.getSubTableIndexes) :
    ∃ p c, SingleTable p rule ∧ handleComparisonExpr p e = .ok c ∧ planned = c.expr ∧
      ∀ i, i ∈ indexes ↔ goesTo router rule hinted e i := by
  cases h with
  | select stmt plan cond hstmt hcond h hplanned =>
    cases selectRun_of_ok h with
    | @mk tableRefs p₁ p₂ p₃ _ _ _ _ cond' _ _ _ _ _ _ _ _ _ hrefs _ _ _ _ hwhere _ _ hhint hstmt' _ =>
      rw [hstmt] at hrefs
      rw [hcond] at hwhere
      obtain ⟨⟨j, p⟩, hj, hrefs⟩ := bind_eq_ok.1 hrefs
      cases hrefs
      have hp := singleTable_of_handleJoin hrule hg hj
      obtain ⟨hrouter, hresult⟩ := result_of_handleJoin hrule hg hj
      obtain ⟨c, hc, rfl, rfl⟩ := handleWhere_some hwhere
      rw [StmtInfo.postHandleGlobalTableRouteResultInQuery,
        postHandleGlobal_of_tableRules (hp.tableRules_applyCond c)] at hhint
      subst hstmt'
      exact ⟨_, c, hp, hc, (Option.some.inj hplanned).symm, hp.goesTo_select hsub hrouter hresult hc hhint⟩
  | update stmt plan cond hstmt hcond h hplanned =>
    cases updateRun_of_ok h with
    | mk hrefs _ hwhere _ hpost hstmt' _ =>
      subst hstmt'
      rw [hstmt] at hrefs
      rw [hcond] at hwhere
      exact steps_of_modify hrule hg hsub hrefs hwhere hplanned hpost
  | delete stmt plan cond hstmt hcond h hplanned =>
    cases deleteRun_of_ok h with
    | mk hrefs hwhere _ hpost hstmt' _ =>
      subst hstmt'
      rw [hstmt] at hrefs
      rw [hcond] at hwhere
      exact steps_of_modify hrule hg hsub hrefs hwhere hplanned hpost

end Plan

/-! ### Atoms stay atoms -/

theorem isAtom_acceptRoot {f : ColumnName → Except Fail (Option ColumnNameDecorator)}
    {e' : Expr Planned} (he : e.isAtom = true) (hbinary : ∀ op l r, e ≠ .binary op l r)
    (h : e.acceptRoot f = .ok e') : e'.isAtom = true := by
  cases e with
  | binary op l r => exact absurd rfl (hbinary op l r)
  | paren e => simp [Expr.isAtom] at he
  | value v =>
    cases h
    rfl
  | column a c =>
    obtain ⟨d, _, h⟩ := bind_eq_ok.1 h
    cases h
    rfl
  | patternIn a e list sel isNot =>
    obtain ⟨_, _, h⟩ := bind_eq_ok.1 h
    obtain ⟨_, _, h⟩ := bind_eq_ok.1 h
    obtain ⟨_, _, h⟩ := bind_eq_ok.1 h
    cases h
    rfl
  | between a e l r isNot =>
    obtain ⟨_, _, h⟩ := bind_eq_ok.1 h
    obtain ⟨_, _, h⟩ := bind_eq_ok.1 h
    obtain ⟨_, _, h⟩ := bind_eq_ok.1 h
    cases h
    rfl
  | funcCall fn parts =>
    obtain ⟨_, _, h⟩ := bind_eq_ok.1 h
    cases h
    rfl
  | aggregate fn parts =>
    obtain ⟨_, _, h⟩ := bind_eq_ok.1 h
    cases h
    rfl
  | valuesOf c =>
    cases c with
    | none =>
      cases h
      rfl
    | some c =>
      obtain ⟨_, _, h⟩ := bind_eq_ok.1 h
      cases h
      rfl
  | text t =>
    cases h
    rfl
  | node type parts =>
    obtain ⟨_, _, h⟩ := bind_eq_ok.1 h
    cases h
    rfl

theorem isAtom_of_handleComparisonExpr
    (he : e.isAtom = true) (h : handleComparisonExpr p e = .ok cond) : cond.expr.isAtom = true := by
  cases atomRun_of_ok he h with
  | hinted | operands => exact he
  | compared hcomparison hcompare =>
    obtain ⟨d, _, ⟨rfl, _⟩ | ⟨_, _, _, _, _, rfl⟩⟩ := handleCompareColumnValue_eq_ok hcompare <;>
      cases hcomparison <;> exact he
  | visited hplain hvisit => exact isAtom_acceptRoot he (by rintro _ _ _ rfl; cases hplain) hvisit
  | _ => rfl

theorem atoms_of_handleComparisonExpr (h : handleComparisonExpr p e = .ok cond) :
    Forall₂ (fun a b => ∃ c, handleComparisonExpr p a = .ok c ∧ b = c.expr) e.atoms cond.expr.atoms := by
  induction e using Expr.conditionInduction generalizing cond with
  | logic op l r hop ihl ihr =>
    obtain ⟨lc, rc, hlc, hrc, rfl⟩ := (handleComparisonExpr_logic hop).1 h
    show Forall₂ _ _ (Expr.binary op lc.expr rc.expr).atoms
    rw [Expr.atoms_logic hop, Expr.atoms_logic hop]
    exact rel_append (ihl hlc) (ihr hrc)
  | paren e ih =>
    obtain ⟨c, hc, rfl⟩ := handleComparisonExpr_paren.1 h
    show Forall₂ _ e.atoms c.expr.atoms
    exact ih hc
  | atom e he =>
    rw [Expr.atoms_atom he, Expr.atoms_atom (isAtom_of_handleComparisonExpr he h)]
    exact .cons ⟨cond, h, rfl⟩ .nil

/-! ### Printed lists -/

def Tok.datum : Tok → Option Datum
  | .value v => some v
  | _ => none

/-- What an `IN` or a `NOT IN` on a column prints, with the values `printed` in its list. -/
def printedIn (column : Tok) (isNot : Bool) (printed : List Datum) : Out where
  toks := [column, .text (if isNot then " NOT IN " else " IN "), .text "("] ++
    (printed.map Tok.value).intersperse (.text ",") ++ [.text ")"]

theorem datums_intersperse (vs : List Datum) :
    ((vs.map Tok.value).intersperse (.text ",")).filterMap Tok.datum = vs := by
  induction vs with
  | nil => rfl
  | cons v vs ih =>
    cases vs with
    | nil => rfl
    | cons w ws => exact congrArg (v :: ·) ih

theorem printedIn_inj {column column' : Tok} {isNot isNot' : Bool} {vs ws : List Datum}
    (h : printedIn column isNot vs = printedIn column' isNot' ws) : vs = ws := by
  have htoks := congrArg (fun out : Out => (out.toks.drop 3).dropLast.filterMap Tok.datum) h
  simpa [printedIn, datums_intersperse] using htoks

theorem sepBy_values (vs : List Datum) :
    Out.sepBy "," (vs.map fun v => Out.tok (.value v)) = ⟨(vs.map Tok.value).intersperse (.text ","), none⟩ := by
  induction vs with
  | nil => rfl
  | cons v vs ih =>
    cases vs with
    | nil => rfl
    | cons w ws =>
      show Out.tok (.value v) ++ Out.text "," ++ Out.sepBy "," ((w :: ws).map fun v => Out.tok (.value v)) = _
      rw [ih]
      rfl

/-- The planned `IN` prints the values of its map, when its column can be printed, and fails otherwise. -/
theorem restore_patternIn {dec : PatternInExprDecorator} {vs : List Datum} (d : ColumnNameDecorator) (c : ColumnName)
    (list : List (Expr Planned)) (isNot : Bool) (hvs : dec.indexValueMap.getD i = vs.map Expr.value) :
    (∃ schema, restoreSchema d.rule c.schema i = .ok schema ∧ ∃ table,
      (Expr.patternIn (some dec) (.column (some d) c) list none isNot).restore i =
        printedIn (.column schema table c.name.o) isNot vs) ∨
    ∃ fail, restoreSchema d.rule c.schema i = .error fail ∧
      ((Expr.patternIn (some dec) (.column (some d) c) list none isNot).restore i).fail ≠ none := by
  have hvalues : (dec.values i) = vs.map fun v => Out.tok (.value v) := by
    rw [PatternInExprDecorator.values, hvs, map_map]
    rfl
  have hrestore : (Expr.patternIn (some dec) (.column (some d) c) list none isNot).restore i =
      d.restore c i ++ .text (if isNot then " NOT IN " else " IN ") ++
        (.text "(" ++ .sepBy "," (dec.values i) ++ .text ")") := rfl
  rw [hrestore, hvalues, sepBy_values, ColumnNameDecorator.restore]
  cases restoreSchema d.rule c.schema i with
  | error fail => exact .inr ⟨fail, rfl, by simp [HAppend.hAppend, Append.append, Out.append]⟩
  | ok schema => exact .inl ⟨schema, rfl, _, rfl⟩

/-! ### Split lists -/

/-- The truth of `IN` and `NOT IN`, when `equals` says whether the row's value equals that of an expression. -/
def inTruth (equals : Expr Parsed → Truth) (isNot : Bool) (list : List (Expr Parsed)) : Truth :=
  (Kleene.any (list.map equals)).map (· != isNot)

section Split

variable (equals : GoVal → Expr Parsed → Truth) (rule : Rule) (i : Int)

/-- At index `i`, what is printed of the planned atom `b` has a list and says the same as the atom `a` that `b` was
made from, if `a` is an `IN` or a `NOT IN` on the sharding column: on every row whose key lies at `i`.  `equals` is
the database's comparison of a key with an expression. -/
def SplitWell (a : Expr Parsed) (b : Expr Planned) : Prop :=
  ∀ c list sel isNot, a = .patternIn () (.column () c) list sel isNot → c.name.l = rule.getShardingColumn →
    ∃ column printed, b.restore i = printedIn column isNot printed ∧ printed ≠ [] ∧
      ∀ key, rule.findTableIndex key = .ok i →
        inTruth (equals key) isNot (printed.map Expr.value) = inTruth (equals key) isNot list

/-- A value of the list lies at `i`, and values that lie elsewhere do not matter for the keys at `i`: they differ from
the key, or a value at `i` decides. -/
structure ListedAt (list : List (Expr Parsed)) : Prop where
  listed : ∃ v ∈ list, v.tableIndex rule = some i
  covered : ∀ key, rule.findTableIndex key = .ok i → ∀ v ∈ list, v.tableIndex rule ≠ some i →
    equals key v = some false ∨
      ∃ w ∈ list, w.tableIndex rule = some i ∧ (equals key w = some true ∨ equals key w = equals key v)

/-- An `IN` on the sharding column has what it needs at `i`; a `NOT IN` needs only a list.  A database in front of the
column has a name at `i`. -/
def Expr.splitsAt : Expr Parsed → Prop
  | .patternIn _ (.column _ c) list _ isNot => c.name.l = rule.getShardingColumn →
      (∃ schema, restoreSchema rule c.schema i = .ok schema) ∧
        if isNot then list ≠ [] ∧ i ∈ rule.getSubTableIndexes else ListedAt equals rule i list
  | _ => True

end Split

section Lists

variable {list : List (Expr Parsed)}

theorem getD_broadcast {indexes : List Int} (hnodup : indexes.Nodup) (m : AssocMap Int (List (Expr Parsed))) :
    (indexes.foldl (fun m idx => m.set idx (m.getD idx ++ list)) m).getD i =
      if i ∈ indexes then m.getD i ++ list else m.getD i := by
  induction indexes generalizing m with
  | nil => simp
  | cons j js ih =>
    obtain ⟨hj, hjs⟩ := nodup_cons.1 hnodup
    rw [foldl_cons, ih hjs]
    have hset : (AssocMap.set m j (AssocMap.getD m j ++ list)).getD i =
        if j = i then m.getD i ++ list else m.getD i := by
      rw [AssocMap.getD, AssocMap.get_set]
      by_cases hji : j = i <;> simp [hji, AssocMap.getD]
    rw [hset]
    by_cases hji : j = i
    · subst hji
      simp [hj]
    · simp [hji, Ne.symm hji]

theorem get_filed {vs : List Datum} {js : List Int}
    (hjs : Forall₂ (fun v j => rule.findTableIndex v.value = .ok j) vs js) :
    ((js.zip (vs.map (Expr.value (P := Parsed)))).filter (fun e => e.1 = i)).map Prod.snd =
      (vs.map Expr.value).filter (fun e => e.tableIndex rule = some i) := by
  induction hjs with
  | nil => rfl
  | @cons v j vs js hv _ ih =>
    have hindex := tableIndex_value.2 hv
    by_cases hj : j = i <;> simpa [hindex, hj] using ih

theorem InRoute.getD_eq {c : ColumnName} {isNot : Bool} {dec : PatternInExprDecorator}
    (h : InRoute rule c list isNot dec) (hg : rule.getType ≠ .global) (hsub : Increasing rule.getSubTableIndexes)
    (hc : c.name.l = rule.getShardingColumn) :
    dec.indexValueMap.getD i =
      if isNot then (if i ∈ rule.getSubTableIndexes then list else [])
      else list.filter (fun e => e.tableIndex rule = some i) := by
  cases h with
  | broadcast hall =>
    obtain rfl : isNot = true := by
      rcases hall with hall | hall | hall
      · exact absurd hall hg
      · exact hall
      · exact absurd hc.symm hall
    have hnodup : rule.getSubTableIndexes.Nodup := hsub.imp (fun h => ne_of_lt h)
    rw [if_pos rfl]
    exact (getD_broadcast hnodup []).trans (by simp)
  | @filed vs js _ _ hvs hjs =>
    subst hvs
    rw [if_neg Bool.false_ne_true, ← get_filed hjs]
    exact Filing.get_fileAll Filing.empty _ i

theorem literals_of_ok {c : ColumnName} {isNot : Bool} {dec : PatternInExprDecorator} (hg : rule.getType ≠ .global)
    (h : getPatternInRouteResult c isNot rule list = .ok dec) : ∃ vs : List Datum, list = vs.map Expr.value := by
  unfold getPatternInRouteResult at h
  simp only [hg, if_false] at h
  obtain ⟨vs, hvs, -⟩ := bind_eq_ok.1 h
  exact ⟨vs, checkValueType_eq (wrapErr_eq_ok.1 hvs)⟩

theorem inTruth_false {equals : Expr Parsed → Truth} : inTruth equals false list = Kleene.any (list.map equals) := by
  simp [inTruth]

/-- The list that is left says the same exactly if the values elsewhere do not matter. -/
theorem listedAt_iff {equals : GoVal → Expr Parsed → Truth} :
    ListedAt equals rule i list ↔
      list.filter (fun e => e.tableIndex rule = some i) ≠ [] ∧
      ∀ key, rule.findTableIndex key = .ok i →
        inTruth (equals key) false (list.filter (fun e => e.tableIndex rule = some i)) =
          inTruth (equals key) false list := by
  have hlisted : (∃ v ∈ list, v.tableIndex rule = some i) ↔
      list.filter (fun e => e.tableIndex rule = some i) ≠ [] := by
    rw [Ne, filter_eq_nil_iff]
    simp
  have hcovered : ∀ key, (inTruth (equals key) false (list.filter (fun e => e.tableIndex rule = some i)) =
      inTruth (equals key) false list ↔ ∀ v ∈ list, v.tableIndex rule ≠ some i → equals key v = some false ∨
        ∃ w ∈ list, w.tableIndex rule = some i ∧ (equals key w = some true ∨ equals key w = equals key v)) := by
    intro key
    rw [inTruth_false, inTruth_false, Kleene.any_filter_eq_iff]
    simp only [decide_eq_true_eq, decide_eq_false_iff_not, ne_eq]
  constructor
  · rintro ⟨h₁, h₂⟩
    exact ⟨hlisted.1 h₁, fun key hkey => (hcovered key).2 (h₂ key hkey)⟩
  · rintro ⟨h₁, h₂⟩
    exact ⟨hlisted.2 h₁, fun key hkey => (hcovered key).1 (h₂ key hkey)⟩

end Lists

/-! ### Every `IN` of a condition -/

section Condition

variable {equals : GoVal → Expr Parsed → Truth}

theorem splitWell_patternIn_iff {c : ColumnName} {list : List (Expr Parsed)} {sel : Option (Expr Parsed)}
    {isNot isAlias : Bool} {dec : PatternInExprDecorator} {vs : List Datum} (hc : c.name.l = rule.getShardingColumn)
    (hvs : dec.indexValueMap.getD i = vs.map Expr.value) :
    SplitWell equals rule i (.patternIn () (.column () c) list sel isNot)
      (.patternIn (some dec) (.column (some ⟨rule, isAlias⟩) c) (Expr.untouchedList list) none isNot) ↔
      (∃ schema, restoreSchema rule c.schema i = .ok schema) ∧ dec.indexValueMap.getD i ≠ [] ∧
        ∀ key, rule.findTableIndex key = .ok i →
          inTruth (equals key) isNot (dec.indexValueMap.getD i) = inTruth (equals key) isNot list := by
  rw [hvs]
  have hrestore := restore_patternIn ⟨rule, isAlias⟩ c (Expr.untouchedList list) isNot hvs
  constructor
  · intro h
    obtain ⟨column, printed, hrestored, hne, htruth⟩ := h c list sel isNot rfl hc
    rw [hrestored] at hrestore
    rcases hrestore with ⟨schema, hschema, table, heq⟩ | ⟨_, _, hfail⟩
    · obtain rfl := printedIn_inj heq
      exact ⟨⟨schema, hschema⟩, by simpa using hne, htruth⟩
    · exact absurd rfl hfail
  · rintro ⟨⟨schema, hschema⟩, hne, htruth⟩ c' list' sel' isNot' heq _
    cases heq
    rcases hrestore with ⟨_, _, table, hrestored⟩ | ⟨_, herror, _⟩
    · exact ⟨_, vs, hrestored, by simpa using hne, htruth⟩
    · cases hschema.symm.trans herror

theorem SingleTable.splitWell_iff {p : TableAliasStmtInfo} (hp : SingleTable p rule)
    (hsub : Increasing rule.getSubTableIndexes) {a : Expr Parsed} {cond : Cond}
    (h : handleComparisonExpr p a = .ok cond) :
    SplitWell equals rule i a cond.expr ↔ a.splitsAt equals rule i := by
  by_cases hin : ∃ c list sel isNot, a = .patternIn () (.column () c) list sel isNot ∧
    c.name.l = rule.getShardingColumn
  · obtain ⟨c, list, sel, isNot, rfl, hc⟩ := hin
    simp only [handleComparisonExpr, handlePatternInExpr] at h
    split at h
    · cases h
    · obtain ⟨d, hd, h⟩ := bind_eq_ok.1 h
      obtain ⟨isAlias, rfl⟩ := hp.resolve_key hc (wrapErr_eq_ok.1 hd)
      obtain ⟨dec, hdec, h⟩ := bind_eq_ok.1 h
      cases h
      have hdec := wrapErr_eq_ok.1 hdec
      have hprinted := (inRoute_of_ok hdec).getD_eq (i := i) hp.sharded hsub hc
      obtain ⟨vs, hvs⟩ : ∃ vs : List Datum, dec.indexValueMap.getD i = vs.map Expr.value := by
        obtain ⟨ws, rfl⟩ := literals_of_ok hp.sharded hdec
        rw [hprinted]
        split
        · split
          · exact ⟨ws, rfl⟩
          · exact ⟨[], rfl⟩
        · exact ⟨_, filter_map⟩
      rw [splitWell_patternIn_iff hc hvs, hprinted]
      show _ ↔ (c.name.l = rule.getShardingColumn → _)
      rw [forall_prop_of_true hc]
      refine and_congr_right fun _ => ?_
      cases isNot with
      | true =>
        by_cases hi : i ∈ rule.getSubTableIndexes <;> simp [hi]
      | false =>
        simp only [Bool.false_eq_true, if_false]
        exact listedAt_iff.symm
  · -- an atom of another kind, or on another column: there is nothing to show
    have hno : a.splitsAt equals rule i := by
      unfold Expr.splitsAt
      split
      · next c list sel isNot => exact fun hc => absurd ⟨c, list, sel, isNot, rfl, hc⟩ hin
      · trivial
    refine iff_of_true ?_ hno
    intro c list sel isNot heq hc
    exact absurd ⟨c, list, sel, isNot, heq, hc⟩ hin

end Condition

/-- In the statement for every index of the route, every `IN` and `NOT IN` on the sharding column has a list and says
the same as the original on the rows that lie there, exactly if every `IN` lists a value of every index that the
statement goes to, and the values that lie elsewhere do not matter there. -/
theorem in_split_iff (equals : GoVal → Expr Parsed → Truth) (db : String) (router : Router) (order : MapOrder)
    (n : TableName) (asName : CIStr) (rule : Rule) (hrule : router.getShardRule db n.name.l = some rule)
    (hg : rule.getType ≠ .global) (hsub : Increasing rule.getSubTableIndexes) (e : Expr Parsed) (hinted : Bool)
    (cond : Expr Planned) (indexes : List Int) (h : WherePlan db router order n asName e hinted cond indexes) :
    (∀ i ∈ indexes, Forall₂ (SplitWell equals rule i) e.atoms cond.atoms) ↔
      ∀ i, goesTo router rule hinted e i → ∀ a ∈ e.atoms, a.splitsAt equals rule i := by
  obtain ⟨p, c, hp, hc, rfl, hroute⟩ := h.steps hrule hg hsub
  refine forall_congr' fun i => ?_
  rw [hroute i]
  refine imp_congr_right fun _ => ?_
  refine forall₂_iff_forall (atoms_of_handleComparisonExpr hc) ?_
  rintro a b ⟨ca, hca, rfl⟩
  exact hp.splitWell_iff hsub hca

/-! ### Integer keys -/

def intEquals (key : GoVal) : Expr Parsed → Truth
  | .value v => (intLiteral v).map fun n => decide (key = keyVal n)
  | _ => none

theorem listedAt_integer {list : List (Expr Parsed)}
    (hloc : ∀ n, -2 ^ 63 ≤ n → n < 2 ^ 64 → rule.findTableIndex (keyVal n) = .ok i → Locates rule intLiteral n i)
    (hlist : ∀ e ∈ list, ∃ v n j, e = .value v ∧ intLiteral v = some n ∧ rule.findTableIndex v.value = .ok j) :
    ListedAt intEquals rule i list ↔ ∃ v ∈ list, v.tableIndex rule = some i := by
  refine ⟨ListedAt.listed, fun hlisted => ⟨hlisted, ?_⟩⟩
  intro key hkey e he hne
  left
  obtain ⟨v, n, j, rfl, hn, hj⟩ := hlist e he
  simp only [intEquals, hn, Option.map_some, Option.some.injEq, decide_eq_false_iff_not]
  rintro rfl
  have hr := intLiteral_range hn
  have hij : i = j := (hloc n hr.1 hr.2 hkey).eq v j hn hj
  exact hne (hij ▸ tableIndex_value.2 hj)

def idIn (values : List Int64) : Expr Parsed :=
  .patternIn () (.column () (bareColumn "id")) (values.map fun v => .value (.int64 v)) none false

/-- `DELETE FROM t WHERE id IN (l) OR id IN (r)`. -/
def deleteInOrIn (l r : List Int64) : DeleteStmt Parsed :=
  { tableRefs := singleTable (unqualifiedTable "t") .empty, cond := some (.binary .logicOr (idIn l) (idIn r)) }

/-- `id IN (5, 6) OR id IN (9, 2)`: both lists have a value for each of the two indexes. -/
theorem in_split_both_lists : ∃ cond indexes,
    WherePlan "db" hashRouter .insertion (unqualifiedTable "t") .empty
      (.binary .logicOr (idIn [5, 6]) (idIn [9, 2])) false cond indexes ∧
    ∀ i ∈ indexes, Forall₂ (SplitWell intEquals (.base hashRule) i)
      (Expr.binary .logicOr (idIn [5, 6]) (idIn [9, 2])).atoms cond.atoms := by
  obtain ⟨cond, indexes, h⟩ : ∃ cond indexes, WherePlan "db" hashRouter .insertion (unqualifiedTable "t") .empty
      (.binary .logicOr (idIn [5, 6]) (idIn [9, 2])) false cond indexes :=
    ⟨_, _, .delete (deleteInOrIn [5, 6] [9, 2]) _ _ rfl rfl rfl rfl⟩
  refine ⟨cond, indexes, h, (in_split_iff intEquals "db" hashRouter .insertion (unqualifiedTable "t") .empty
    (.base hashRule) rfl (by decide) (by decide) _ false cond indexes h).2 ?_⟩
  rintro i ⟨_, hkeeps⟩
  have hi : i = 1 ∨ i = 2 := by
    rcases hkeeps with h | h <;> obtain ⟨e, he, hall⟩ := h rfl rfl <;> rcases mem_cons.1 he with rfl | he
    · exact .inl (hall 1 rfl)
    · exact .inr (hall 2 (mem_singleton.1 he ▸ rfl))
    · exact .inl (hall 1 rfl)
    · exact .inr (hall 2 (mem_singleton.1 he ▸ rfl))
  have hloc : ∀ n, -2 ^ 63 ≤ n → n < 2 ^ 64 → (Rule.base hashRule).findTableIndex (keyVal n) = .ok i →
      Locates (.base hashRule) intLiteral n i := fun n _ _ hfind => (locates_hash rfl hfind).1
  have hlists : ∀ l ∈ ([[5, 6], [9, 2]] : List (List Int64)),
      ListedAt intEquals (.base hashRule) i (l.map fun v => .value (.int64 v)) := by
    intro l hl
    rw [listedAt_integer hloc]
    · rcases mem_cons.1 hl with rfl | hl
      · rcases hi with rfl | rfl
        · exact ⟨.value (.int64 5), by simp, rfl⟩
        · exact ⟨.value (.int64 6), by simp, rfl⟩
      · obtain rfl := mem_singleton.1 hl
        rcases hi with rfl | rfl
        · exact ⟨.value (.int64 9), by simp, rfl⟩
        · exact ⟨.value (.int64 2), by simp, rfl⟩
    · intro e he
      obtain ⟨v, _, rfl⟩ := mem_map.1 he
      exact ⟨.int64 v, _, _, rfl, rfl, rfl⟩
  intro a ha
  rcases mem_cons.1 ha with rfl | ha
  · exact fun _ => ⟨⟨_, rfl⟩, hlists _ mem_cons_self⟩
  · obtain rfl := mem_singleton.1 ha
    exact fun _ => ⟨⟨_, rfl⟩, hlists _ (mem_cons_of_mem _ mem_cons_self)⟩

/-- `DELETE FROM t WHERE id IN (5) OR id IN (6)` goes to the indexes 1 and 2, with an empty list at each of them. -/
theorem in_or_in_prints_empty_list : ∃ plan,
    handleDeletePlan (newTableAliasStmtInfo "db" hashRouter .insertion) (deleteInOrIn [5] [6]) = .ok plan ∧
    plan.info.result.indexes = [1, 2] ∧
    plan.sqls.map (fun s => s.sql.drop 4) =
      [[.column "" .empty "id", .text " IN ", .text "(", .value (.int64 5), .text ")", .text " OR ",
        .column "" .empty "id", .text " IN ", .text "(", .text ")"],
       [.column "" .empty "id", .text " IN ", .text "(", .text ")", .text " OR ",
        .column "" .empty "id", .text " IN ", .text "(", .value (.int64 6), .text ")"]] :=
  ⟨_, rfl, rfl, rfl⟩

end DbProxy
