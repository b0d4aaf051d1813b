import DbProxy.Plan.Select

/-!
# The tables of a statement

The planner records the tables of a `FROM` clause one by one.  `Recorded` says what it knows after a list of tables:
their rules by name, and their names by alias.  From it follows which table a column of a condition belongs to.
Subqueries are not among these tables.
-/

namespace DbProxy

open Fallible List

structure Leaf where
  name : String
  asName : String
  rule : Rule

def leafOf (db : String) (router : Router) : TableSource Parsed → Option Leaf
  | .table _ n asName => (router.getShardRule db n.name.l).map fun rule => ⟨n.name.l, asName.l, rule⟩
  | .select .. => none

def Leaf.isGlobal (l : Leaf) : Prop := l.rule.getType = .global

instance (l : Leaf) : Decidable l.isGlobal := inferInstanceAs (Decidable (_ = _))

/-- The planner has recorded the tables `ls`, and nothing else.  Global tables are kept in a map of their own. -/
structure Recorded (db : String) (router : Router) (p : TableAliasStmtInfo) (ls : List Leaf) : Prop where
  database : p.db = db
  routes : p.router = router
  rules : ∀ t r, (t, r) ∈ p.tableRules → ∃ l ∈ ls, l.name = t ∧ l.rule = r ∧ ¬ l.isGlobal
  globals : ∀ t r, (t, r) ∈ p.globalTableRules → ∃ l ∈ ls, l.name = t ∧ l.rule = r ∧ l.isGlobal
  lookup : ∀ l ∈ ls, router.getShardRule db l.name = some l.rule
  named : ∀ l ∈ ls, ¬ l.isGlobal → p.tableRules.get l.name = some l.rule
  globalNamed : ∀ l ∈ ls, l.isGlobal → p.globalTableRules.get l.name = some l.rule
  aliases : ∀ a o, p.tableAlias.get a = some o ↔ ∃ l ∈ ls, l.asName ≠ "" ∧ a = l.asName ∧ o = l.name

variable {db : String} {router : Router} {ls : List Leaf}

section Recording

variable {p p' : TableAliasStmtInfo} {l : Leaf}
variable {m : AssocMap String Rule} {q : Leaf → Prop}

theorem recorded_new (db : String) (router : Router) (order : MapOrder) :
    Recorded db router (newTableAliasStmtInfo db router order) [] := by
  refine ⟨rfl, rfl, ?_, ?_, ?_, ?_, ?_, ?_⟩
  · intro t r h
    cases h
  · intro t r h
    cases h
  · intro l h
    cases h
  · intro l h
    cases h
  · intro l h
    cases h
  · simp [newTableAliasStmtInfo]

theorem mem_set_leaf (h : ∀ t r, (t, r) ∈ m → ∃ l ∈ ls, l.name = t ∧ l.rule = r ∧ q l) (hq : q l) :
    ∀ t r, (t, r) ∈ m.set l.name l.rule → ∃ l' ∈ ls ++ [l], l'.name = t ∧ l'.rule = r ∧ q l' := by
  intro t r hmem
  rcases AssocMap.mem_of_mem_set hmem with heq | hmem
  · cases heq
    exact ⟨l, mem_append_right _ (mem_singleton_self l), rfl, rfl, hq⟩
  · obtain ⟨l', hl', h⟩ := h t r hmem
    exact ⟨l', mem_append_left _ hl', h⟩

theorem get_set_leaf (hlookup : ∀ l ∈ ls, router.getShardRule db l.name = some l.rule)
    (hl : router.getShardRule db l.name = some l.rule) (h : ∀ l ∈ ls, q l → m.get l.name = some l.rule) :
    ∀ l' ∈ ls ++ [l], q l' → (m.set l.name l.rule).get l'.name = some l'.rule := by
  intro l' hl' hq
  rw [AssocMap.get_set]
  rcases mem_append.1 hl' with hl' | hl'
  · split
    · next heq =>
      -- the table was there before: the router gives it the same rule
      have := hlookup l' hl'
      rwa [← heq, hl] at this
    · exact h l' hl' hq
  · rw [mem_singleton.1 hl']
    simp

theorem mem_append_of_mem (h : ∀ t r, (t, r) ∈ m → ∃ l ∈ ls, l.name = t ∧ l.rule = r ∧ q l) :
    ∀ t r, (t, r) ∈ m → ∃ l' ∈ ls ++ [l], l'.name = t ∧ l'.rule = r ∧ q l' := by
  intro t r hmem
  obtain ⟨l', hl', h⟩ := h t r hmem
  exact ⟨l', mem_append_left _ hl', h⟩

theorem get_of_mem_append (hq : ¬ q l)
    (h : ∀ l ∈ ls, q l → m.get l.name = some l.rule) : ∀ l' ∈ ls ++ [l], q l' → m.get l'.name = some l'.rule := by
  intro l' hl' hq'
  rcases mem_append.1 hl' with hl' | hl'
  · exact h l' hl' hq'
  · exact absurd (mem_singleton.1 hl' ▸ hq') hq

/-- What recording a table does: it is added, and the first table that is not global sets the route to all indexes of
its rule. -/
theorem Recorded.record (hp : Recorded db router p ls) {s : TableSource Parsed} {s' : TableSource Planned}
    (hl : leafOf db router s = some l) (h : rewriteTableSource p s = .ok (s', p')) :
    Recorded db router p' (ls ++ [l]) ∧ p'.hintPhyDB = p.hintPhyDB ∧
      (¬ l.isGlobal → p.result.db = "" → p.result.table = "" →
        p'.result = ⟨l.rule.getDB, StmtInfo.ruleTable l.rule, l.rule.getSubTableIndexes⟩) ∧
      (l.isGlobal ∨ p.result.db ≠ "" → p'.result = p.result) := by
  cases s with
  | select s asName => cases hl
  | table a n asName =>
    obtain ⟨rule, hrule, rfl⟩ := Option.map_eq_some_iff.1 hl
    obtain ⟨⟨rule', p₁⟩, hname, h⟩ := bind_eq_ok.1 h
    cases h
    have hrecord := rewriteTableName_eq_ok hname
    have halias := TableAliasStmtInfo.recordShardTable_tableAlias hrecord
    obtain ⟨s, hs, hp'⟩ := TableAliasStmtInfo.recordShardTable_eq_ok hrecord
    generalize TableAliasStmtInfo.recordAlias p.tableAlias n.name.l asName.l = m at hp'
    subst hp'
    obtain ⟨hr, hcheck⟩ := StmtInfo.recordShardTable_eq_ok hs
    rw [hp.routes, hp.database] at hr
    obtain rfl : rule = rule' := Option.mem_unique hrule hr
    have haliases : ∀ a o, m.get a = some o ↔
        ∃ l ∈ ls ++ [⟨n.name.l, asName.l, rule⟩], l.asName ≠ "" ∧ a = l.asName ∧ o = l.name := by
      intro a o
      rw [halias, hp.aliases]
      constructor
      · rintro (⟨l, hl, h⟩ | h)
        · exact ⟨l, mem_append_left _ hl, h⟩
        · exact ⟨_, mem_append_right _ (mem_singleton_self _), h⟩
      · rintro ⟨l, hl, h⟩
        rcases mem_append.1 hl with hl | hl
        · exact .inl ⟨l, hl, h⟩
        · obtain rfl := mem_singleton.1 hl
          exact .inr h
    have hlookup : ∀ l ∈ ls ++ [⟨n.name.l, asName.l, rule⟩], router.getShardRule db l.name = some l.rule := by
      intro l hl
      rcases mem_append.1 hl with hl | hl
      · exact hp.lookup l hl
      · rw [mem_singleton.1 hl]
        exact hrule
    by_cases hg : rule.getType = .global
    · have hset : p.toStmtInfo.recordRule n.name.l rule =
          { p.toStmtInfo with globalTableRules := p.globalTableRules.set n.name.l rule } := by
        simp only [StmtInfo.recordRule]
        exact if_pos hg
      rw [hset, StmtInfo.checkStmtRouteResult_global hg] at hcheck
      obtain rfl := (Except.ok.inj hcheck).symm
      refine ⟨⟨hp.database, hp.routes, mem_append_of_mem hp.rules,
        mem_set_leaf (l := ⟨n.name.l, asName.l, rule⟩) hp.globals hg, hlookup,
        get_of_mem_append (not_not.2 hg) hp.named, get_set_leaf hp.lookup hrule hp.globalNamed, haliases⟩,
        rfl, fun h => absurd hg h, fun _ => rfl⟩
    · have hset : p.toStmtInfo.recordRule n.name.l rule =
          { p.toStmtInfo with tableRules := p.tableRules.set n.name.l rule } := by
        simp only [StmtInfo.recordRule]
        exact if_neg hg
      rw [hset] at hcheck
      have hkeep : s.db = p.db ∧ s.router = p.router ∧ s.tableRules = p.tableRules.set n.name.l rule ∧
          s.globalTableRules = p.globalTableRules := by
        rcases StmtInfo.checkStmtRouteResult_eq_ok hcheck with rfl | ⟨_, _, _, rfl⟩ <;> exact ⟨rfl, rfl, rfl, rfl⟩
      obtain ⟨hdb, hrouter, hrules, hglobals⟩ := hkeep
      refine ⟨⟨hdb.trans hp.database, hrouter.trans hp.routes, ?_, ?_, hlookup, ?_, ?_, haliases⟩, rfl, ?_, ?_⟩
      · exact hrules.symm ▸ mem_set_leaf (l := ⟨n.name.l, asName.l, rule⟩) hp.rules hg
      · exact hglobals.symm ▸ mem_append_of_mem hp.globals
      · exact hrules.symm ▸ get_set_leaf hp.lookup hrule hp.named
      · exact hglobals.symm ▸ get_of_mem_append hg hp.globalNamed
      · intro _ hempty htable
        obtain rfl := StmtInfo.checkStmtRouteResult_fresh hg (by exact hempty) (by exact htable) hcheck
        rfl
      · rintro (h | hne)
        · exact absurd h hg
        · rcases StmtInfo.checkStmtRouteResult_eq_ok hcheck with rfl | ⟨_, hempty, _⟩
          · rfl
          · exact absurd hempty hne

end Recording

/-! ### The table of a column -/

section Resolving

variable {p : TableAliasStmtInfo} {c : ColumnName} {d : ColumnNameDecorator}

/-- How a column found its table `l`: by the name of its sharding column alone, by the table's name, or by its alias
when no table has that name. -/
inductive Owns (ls : List Leaf) (c : ColumnName) (l : Leaf) : Prop where
  | unqualified (hschema : c.schema.o = "") (htable : c.table.l = "") (hg : ¬ l.isGlobal)
      (hc : l.rule.getShardingColumn = c.name.l)
  | byName (hq : ¬ (c.schema.o = "" ∧ c.table.l = "")) (hname : l.name = c.table.l)
  | byAlias (hne : c.table.l ≠ "") (halias : l.asName = c.table.l) (hno : ∀ l' ∈ ls, l'.name ≠ c.table.l)

section

variable (hp : Recorded db router p ls)

include hp

theorem Recorded.rule_eq {l l' : Leaf} (hl : l ∈ ls) (hl' : l' ∈ ls)
    (hname : l.name = l'.name) : l.rule = l'.rule := by
  have := hp.lookup l hl
  rw [hname, hp.lookup l' hl'] at this
  exact (Option.some.inj this).symm

theorem Recorded.name_ne {q : String} (h : p.tableRules.get q = none)
    (hglobal : p.globalTableRules.get q = none) : ∀ l ∈ ls, l.name ≠ q := by
  rintro l hl rfl
  by_cases hg : l.isGlobal
  · simp [hp.globalNamed l hl hg] at hglobal
  · simp [hp.named l hl hg] at h

theorem Recorded.resolve (h : needCreateColumnNameDecorator p c = .ok (some d)) :
    ∃ l ∈ ls, d.rule = l.rule ∧ Owns ls c l := by
  unfold needCreateColumnNameDecorator at h
  obtain ⟨r, hr, h⟩ := bind_eq_ok.1 h
  cases r with
  | none => cases h
  | some r =>
    obtain ⟨r, isAlias⟩ := r
    cases h
    unfold TableAliasStmtInfo.getSettedRuleFromColumnInfo at hr
    split at hr
    · next hunqualified =>
      obtain ⟨r', hr', hr⟩ := bind_eq_ok.1 hr
      cases r' with
      | none => cases hr
      | some r' =>
        cases hr
        unfold TableAliasStmtInfo.getSettedRuleByColumnName at hr'
        split at hr'
        · cases hr'
        · next e hf =>
          cases hr'
          have he : e ∈ p.tableRules.filter (fun e => e.2.getShardingColumn = c.name.l) :=
            hf ▸ mem_singleton_self e
          rw [mem_filter, decide_eq_true_eq] at he
          obtain ⟨l, hl, _, hrule, hg⟩ := hp.rules e.1 e.2 he.1
          exact ⟨l, hl, hrule.symm, .unqualified hunqualified.1 hunqualified.2 hg (by rw [hrule, he.2])⟩
        · cases hr'
    next hq =>
      obtain ⟨r', hr', hr⟩ := bind_eq_ok.1 hr
      cases hr
      unfold TableAliasStmtInfo.getSettedRuleFromTable at hr'
      obtain ⟨_, _, hr'⟩ := bind_eq_ok.1 hr'
      split at hr'
      · next hget =>
        cases hr'
        obtain ⟨l, hl, hname, hrule, _⟩ := hp.rules _ _ (AssocMap.mem_of_get hget)
        exact ⟨l, hl, hrule.symm, .byName hq hname⟩
      next hnone =>
      split at hr'
      · next hget =>
        cases hr'
        obtain ⟨l, hl, hname, hrule, _⟩ := hp.globals _ _ (AssocMap.mem_of_get hget)
        exact ⟨l, hl, hrule.symm, .byName hq hname⟩
      next hglobalNone =>
      split at hr'
      · cases hr'
      next origin halias =>
      -- an alias leads to the name of its table, and from there to the rule
      obtain ⟨l, hl, hne, has, rfl⟩ := (hp.aliases _ _).1 halias
      have hno := hp.name_ne hnone hglobalNone
      have hlookup := hp.lookup l hl
      split at hr'
      · next hget =>
        cases hr'
        obtain ⟨l', hl', hname, rfl, _⟩ := hp.rules _ _ (AssocMap.mem_of_get hget)
        exact ⟨l, hl, hp.rule_eq hl' hl hname, .byAlias (has ▸ hne) has.symm hno⟩
      · split at hr'
        · next hget =>
          cases hr'
          obtain ⟨l', hl', hname, rfl, _⟩ := hp.globals _ _ (AssocMap.mem_of_get hget)
          exact ⟨l, hl, hp.rule_eq hl' hl hname, .byAlias (has ▸ hne) has.symm hno⟩
        · cases hr'

/-- A column stays without a table only when it has no qualifier and is no sharding column. -/
theorem Recorded.resolve_none (h : needCreateColumnNameDecorator p c = .ok none) :
    (c.schema.o = "" ∧ c.table.l = "") ∧ ∀ l ∈ ls, ¬ l.isGlobal → l.rule.getShardingColumn ≠ c.name.l := by
  unfold needCreateColumnNameDecorator TableAliasStmtInfo.getSettedRuleFromColumnInfo
    TableAliasStmtInfo.getSettedRuleByColumnName at h
  obtain ⟨r, hr, h⟩ := bind_eq_ok.1 h
  cases r with
  | some r => cases h
  | none =>
    split at hr
    · next hq =>
      refine ⟨hq, fun l hl hg hc => ?_⟩
      have hmem : (l.name, l.rule) ∈ p.tableRules.filter (fun e => e.2.getShardingColumn = c.name.l) := by
        rw [mem_filter]
        exact ⟨AssocMap.mem_of_get (hp.named l hl hg), by simp [hc]⟩
      obtain ⟨r', hr', hr⟩ := bind_eq_ok.1 hr
      split at hr'
      · next hnil =>
        rw [hnil] at hmem
        cases hmem
      · cases hr'
        cases hr
      · cases hr'
    · obtain ⟨r', _, hr⟩ := bind_eq_ok.1 hr
      cases hr

theorem Recorded.name_eq {l l' : Leaf} (hl : l ∈ ls) (hl' : l' ∈ ls)
    (hne : l.asName ≠ "") (has : l.asName = l'.asName) : l.name = l'.name := by
  have h := (hp.aliases l.asName l.name).2 ⟨l, hl, hne, rfl, rfl⟩
  rw [(hp.aliases l.asName l'.name).2 ⟨l', hl', has ▸ hne, has, rfl⟩] at h
  exact (Option.some.inj h).symm

end

end Resolving

end DbProxy
