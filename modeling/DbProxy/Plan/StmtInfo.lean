import DbProxy.Parser.Ast
import DbProxy.Plan.Util
import DbProxy.Router.Rule

/-!
# What the planner knows about a statement

The tables a statement has used so far, each with its rule, their aliases, and the route.  Every table of a
statement must follow the rule of the route, directly or as a linked child; global tables are kept apart.
-/

namespace DbProxy

open Fallible

/-- `RouteResult`: the table that rules the statement, and the indexes that it goes to. -/
structure RouteResult where
  db : String := ""
  table : String := ""
  indexes : List Int := []
  deriving DecidableEq, Repr

def RouteResult.check (r : RouteResult) (db table : String) : Except Fail Unit :=
  if r.db ≠ db then .error (.error ("db not equal, origin: " ++ r.db ++ ", current: " ++ db))
  else if r.table ≠ table then
    .error (.error ("table not equal, origin: " ++ r.table ++ ", current: " ++ table))
  else .ok ()

def RouteResult.inter (r : RouteResult) (indexes : List Int) : RouteResult :=
  { r with indexes := interList r.indexes indexes }

/-- A Go map has no order of its own: `first` is the entry that a `range` over a map of rules yields first. -/
structure MapOrder where
  first : AssocMap String Rule → Option (String × Rule)
  first_mem : ∀ m e, first m = some e → e ∈ m
  first_isSome : ∀ m, m ≠ [] → (first m).isSome

/-- The order in which the entries were made. -/
def MapOrder.insertion : MapOrder where
  first := List.head?
  first_mem _ _ := List.mem_of_head?
  first_isSome m h := by cases m <;> simp_all

structure StmtInfo where
  db : String
  router : Router
  order : MapOrder
  tableRules : AssocMap String Rule := []
  globalTableRules : AssocMap String Rule := []
  result : RouteResult := {}

structure TableAliasStmtInfo extends StmtInfo where
  tableAlias : AssocMap String String := []
  hintPhyDB : String := ""

namespace StmtInfo

def checkAndGetDB (s : StmtInfo) (db : String) : Except Fail String :=
  if db ≠ "" ∧ db ≠ s.db then .error (.error "db not match") else .ok s.db

/-- Note a rule among the rules in use. -/
def recordRule (s : StmtInfo) (table : String) (rule : Rule) : StmtInfo :=
  if rule.getType = .global then { s with globalTableRules := s.globalTableRules.set table rule }
  else { s with tableRules := s.tableRules.set table rule }

/-- The rule of a table, recorded among the rules in use. -/
def getShardRule (s : StmtInfo) (db table : String) : Except Fail (Rule × StmtInfo) := do
  let validDB ← s.checkAndGetDB db
  match s.router.getShardRule validDB table with
  | none => .error (.error "rule not found")
  | some rule => .ok (rule, s.recordRule table rule)

/-- The table whose rule decides: the parent of a linked rule. -/
def ruleTable : Rule → String
  | .linked l => l.linkToRule.table
  | .base r => r.table

def checkStmtRouteResult (s : StmtInfo) (rule : Rule) : Except Fail StmtInfo :=
  if rule.getType = .global then .ok s
  else if s.result.db = "" ∧ s.result.table = "" then
    .ok { s with result := { db := rule.getDB, table := ruleTable rule, indexes := rule.getSubTableIndexes } }
  else do
    wrapErr "check db and table error: " (s.result.check rule.getDB (ruleTable rule))
    .ok s

def recordShardTable (s : StmtInfo) (db table : String) : Except Fail (Rule × StmtInfo) := do
  let (rule, s) ← wrapErr ("get shard rule error, db: " ++ db ++ ", table: " ++ table ++ ", err: ")
    (s.getShardRule db table)
  let s ← wrapErr ("check route result error, db: " ++ db ++ ", table: " ++ table ++ ", err: ")
    (s.checkStmtRouteResult rule)
  .ok (rule, s)

theorem checkAndGetDB_eq_ok {s : StmtInfo} {db d : String} (h : s.checkAndGetDB db = .ok d) : d = s.db := by
  unfold checkAndGetDB at h
  split at h
  · cases h
  · exact (Except.ok.inj h).symm

theorem getShardRule_eq_ok {s s' : StmtInfo} {db table : String} {rule : Rule}
    (h : s.getShardRule db table = .ok (rule, s')) :
    s.router.getShardRule s.db table = some rule ∧ s' = s.recordRule table rule := by
  unfold getShardRule at h
  obtain ⟨d, hd, h⟩ := bind_eq_ok.1 h
  rw [checkAndGetDB_eq_ok hd] at h
  split at h
  · cases h
  · next r hr =>
    cases h
    exact ⟨hr, rfl⟩

theorem checkStmtRouteResult_eq_ok {s s' : StmtInfo} {rule : Rule} (h : s.checkStmtRouteResult rule = .ok s') :
    s' = s ∨ (rule.getType ≠ .global ∧ s.result.db = "" ∧ s.result.table = "" ∧
      s' = { s with result := ⟨rule.getDB, ruleTable rule, rule.getSubTableIndexes⟩ }) := by
  unfold checkStmtRouteResult at h
  split at h
  · exact .inl (Except.ok.inj h).symm
  · next hg =>
    split at h
    · next hempty => exact .inr ⟨hg, hempty.1, hempty.2, (Except.ok.inj h).symm⟩
    · obtain ⟨_, _, h⟩ := bind_eq_ok.1 h
      exact .inl (Except.ok.inj h).symm

theorem checkStmtRouteResult_global {s : StmtInfo} {rule : Rule} (hg : rule.getType = .global) :
    s.checkStmtRouteResult rule = .ok s := by
  simp [checkStmtRouteResult, hg]

theorem checkStmtRouteResult_fresh {s s' : StmtInfo} {rule : Rule} (hg : rule.getType ≠ .global)
    (hdb : s.result.db = "") (htable : s.result.table = "") (h : s.checkStmtRouteResult rule = .ok s') :
    s' = { s with result := ⟨rule.getDB, ruleTable rule, rule.getSubTableIndexes⟩ } := by
  simp only [checkStmtRouteResult, hg, hdb, htable, and_self, if_true, if_false] at h
  exact (Except.ok.inj h).symm

theorem recordShardTable_eq_ok {s s' : StmtInfo} {db table : String} {rule : Rule}
    (h : s.recordShardTable db table = .ok (rule, s')) :
    s.router.getShardRule s.db table = some rule ∧ (s.recordRule table rule).checkStmtRouteResult rule = .ok s' := by
  unfold recordShardTable at h
  obtain ⟨⟨r, s₁⟩, h₁, h⟩ := bind_eq_ok.1 h
  obtain ⟨s₂, h₂, h⟩ := bind_eq_ok.1 h
  cases h
  obtain ⟨hr, rfl⟩ := getShardRule_eq_ok (wrapErr_eq_ok.1 h₁)
  exact ⟨hr, wrapErr_eq_ok.1 h₂⟩

/-- A query of global tables alone goes to the first index; another statement on them goes to all. -/
def postHandleGlobalTableRouteResult (s : StmtInfo) (indexes : Rule → List Int) : StmtInfo :=
  if s.tableRules.isEmpty then
    match s.order.first s.globalTableRules with
    | some (table, rule) => { s with result := { db := rule.getDB, table := table, indexes := indexes rule } }
    | none => s
  else s

def postHandleGlobalTableRouteResultInQuery (s : StmtInfo) : StmtInfo :=
  s.postHandleGlobalTableRouteResult (fun _ => [0])

def postHandleGlobalTableRouteResultInModify (s : StmtInfo) : StmtInfo :=
  s.postHandleGlobalTableRouteResult Rule.getSubTableIndexes

end StmtInfo

namespace TableAliasStmtInfo

def setTableAlias (t : TableAliasStmtInfo) (table asName : String) : Except Fail TableAliasStmtInfo :=
  match t.tableAlias.get asName with
  | none => .ok { t with tableAlias := t.tableAlias.set asName table }
  | some originTable =>
    if originTable ≠ table then
      .error (.error ("table alias is set but not match, table: " ++ table ++ ", originTable: " ++ originTable))
    else .ok t

/-- The aliases after the table `table` was recorded as `asName`. -/
def recordAlias (aliases : AssocMap String String) (table asName : String) : AssocMap String String :=
  if asName = "" ∨ (aliases.get asName).isSome then aliases else aliases.set asName table

theorem setTableAlias_eq_ok {t t' : TableAliasStmtInfo} {table asName : String} (hne : asName ≠ "")
    (h : t.setTableAlias table asName = .ok t') :
    t' = { t with tableAlias := recordAlias t.tableAlias table asName } := by
  unfold setTableAlias at h
  unfold recordAlias
  split at h
  · next hnone =>
    rw [if_neg (by simp [hne, hnone])]
    exact (Except.ok.inj h).symm
  · next hsome =>
    rw [if_pos (.inr (by simp [hsome]))]
    split at h
    · cases h
    · exact (Except.ok.inj h).symm

def recordShardTable (t : TableAliasStmtInfo) (db table asName : String) :
    Except Fail (Rule × TableAliasStmtInfo) := do
  let (rule, s) ← wrapErr ("record shard table error, db: " ++ db ++ ", table: " ++ table ++ ", alias: " ++ asName ++
    ", err: ") (t.toStmtInfo.recordShardTable db table)
  let t := { t with toStmtInfo := s }
  if asName ≠ "" then do
    let t ← wrapErr "set table alias error: " (t.setTableAlias table asName)
    .ok (rule, t)
  else .ok (rule, t)

theorem recordShardTable_eq_ok {t t' : TableAliasStmtInfo} {db table asName : String} {rule : Rule}
    (h : t.recordShardTable db table asName = .ok (rule, t')) :
    ∃ s, t.toStmtInfo.recordShardTable db table = .ok (rule, s) ∧
      t' = { t with toStmtInfo := s, tableAlias := recordAlias t.tableAlias table asName } := by
  unfold recordShardTable at h
  obtain ⟨⟨r, s⟩, hs, h⟩ := bind_eq_ok.1 h
  rw [wrapErr_eq_ok] at hs
  simp only at h
  split at h
  · next hne =>
    obtain ⟨t₁, h₁, h⟩ := bind_eq_ok.1 h
    cases h
    obtain rfl := setTableAlias_eq_ok hne (wrapErr_eq_ok.1 h₁)
    exact ⟨s, hs, rfl⟩
  · next hempty =>
    cases h
    refine ⟨s, hs, ?_⟩
    rw [recordAlias, if_pos (.inl (not_not.1 hempty))]

theorem recordShardTable_tableAlias {t t' : TableAliasStmtInfo} {db table asName : String} {rule : Rule}
    (h : t.recordShardTable db table asName = .ok (rule, t')) (a o : String) :
    t'.tableAlias.get a = some o ↔ t.tableAlias.get a = some o ∨ (asName ≠ "" ∧ a = asName ∧ o = table) := by
  unfold recordShardTable at h
  obtain ⟨⟨r, s⟩, _, h⟩ := bind_eq_ok.1 h
  simp only at h
  split at h
  · next hne =>
    obtain ⟨t₁, h₁, h⟩ := bind_eq_ok.1 h
    cases h
    have h₁ := wrapErr_eq_ok.1 h₁
    unfold setTableAlias at h₁
    split at h₁
    · next hnone =>
      cases h₁
      have hnone : t.tableAlias.get asName = none := hnone
      show AssocMap.get (AssocMap.set t.tableAlias asName table) a = some o ↔ _
      rw [AssocMap.get_set]
      by_cases ha : asName = a
      · subst ha
        simp [hnone, hne, eq_comm]
      · simp [ha, Ne.symm ha]
    · next origin hsome =>
      have hsome : t.tableAlias.get asName = some origin := hsome
      split at h₁
      · cases h₁
      · next horigin =>
        rw [not_not] at horigin
        cases h₁
        show AssocMap.get t.tableAlias a = some o ↔ _
        constructor
        · exact Or.inl
        · rintro (h | ⟨_, rfl, rfl⟩)
          · exact h
          · rw [hsome, horigin]
  · next hempty =>
    cases h
    simp [hempty]

/-- A subquery in `FROM` is known by its alias, under the rule of any table in use. -/
def recordSubqueryTableAlias (t : TableAliasStmtInfo) (asName : String) : Except Fail TableAliasStmtInfo :=
  if asName = "" then .error (.error "subquery table alias is nil")
  else match t.order.first t.tableRules with
    | none => .error (.error "no explicit table exist except subquery")
    | some (_, rule) => do
      let table := "gaea_subquery_" ++ asName
      let t ← wrapErr "set subquery table alias error: " (t.setTableAlias table asName)
      .ok { t with tableRules := t.tableRules.set table rule }

/-- A column without a table is found by its name, if it is the sharding column of one table in use. -/
def getSettedRuleByColumnName (t : TableAliasStmtInfo) (column : String) : Except Fail (Option Rule) :=
  match t.tableRules.filter (fun e => e.2.getShardingColumn = column) with
  | [] => .ok none
  | [e] => .ok (some e.2)
  | _ => .error (.error ("column " ++ column ++ " is ambiguous for sharding"))

/-- The rule of a table or of an alias, and whether it was an alias. -/
def getSettedRuleFromTable (t : TableAliasStmtInfo) (db table : String) : Except Fail (Rule × Bool) := do
  let _ ← t.checkAndGetDB db
  match t.tableRules.get table with
  | some rule => .ok (rule, false)
  | none => match t.globalTableRules.get table with
    | some rule => .ok (rule, false)
    | none => match t.tableAlias.get table with
      | none => .error (.error "rule not found")
      | some originTable => match t.tableRules.get originTable with
        | some rule => .ok (rule, true)
        | none => match t.globalTableRules.get originTable with
          | some rule => .ok (rule, true)
          | none => .error (.error "rule not found")

def getSettedRuleFromColumnInfo (t : TableAliasStmtInfo) (db table column : String) :
    Except Fail (Option (Rule × Bool)) :=
  if db = "" ∧ table = "" then do
    let rule ← t.getSettedRuleByColumnName column
    .ok (rule.map fun r => (r, false))
  else do
    let r ← t.getSettedRuleFromTable db table
    .ok (some r)

/-- `p.GetRouteResult().Inter(result)`. -/
def inter (t : TableAliasStmtInfo) (indexes : List Int) : TableAliasStmtInfo :=
  { t with result := t.result.inter indexes }

end TableAliasStmtInfo

end DbProxy
