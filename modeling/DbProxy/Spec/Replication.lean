import DbProxy.Spec.InsertRows
import DbProxy.Spec.Topology

/-!
# Copies of global tables

A global table has a copy in each database that its rule lists.  A write is sent once for each table index of the
rule, and a copy is a slice with a database, so that the copies stay equal when no two indexes have the same copy.
-/

namespace DbProxy

open Fallible List

variable {env : RuleEnv} {n : NamespaceModel} {parseIPInfo : GoString → Bool} {s : ShardModel}
  {r : BaseRule} {rule : Rule} {router : Router}
variable {σ : Type} {sqls : List ShardSQL} {cs : List Char} {i : Int} {name db : String} {names : List String}
  {restore : Int → Out} {result : RouteResult} {q : ShardSQL} {p p' : TableAliasStmtInfo}

/-! ### Executions and copies -/

/-- A table index is executed on a slice and in a database. -/
def Rule.CopyAt (rule : Rule) (i : Int) (c : String × String) : Prop :=
  rule.getSlice (rule.getSliceIndexFromTableIndex i) = .ok c.1 ∧ rule.getDatabaseNameByTableIndex i = .ok c.2

/-- Where the statement of a table index is sent: without a database when it has none. -/
def Rule.sentTo (rule : Rule) (i : Int) : Except Fail (String × String) := do
  let slice ← rule.getSlice (rule.getSliceIndexFromTableIndex i)
  let db ← match rule.getDatabaseNameByTableIndex i with
    | .error (.error _) => .ok ""
    | r => r
  .ok (slice, db)

/-- The copies of a table: the different pairs of a slice and a database. -/
def Rule.copies (rule : Rule) : Set (String × String) := { c | ∃ i ∈ rule.getSubTableIndexes, rule.CopyAt i c }

def ShardSQL.copy (q : ShardSQL) : String × String := (q.slice, q.db)

def OnceOnEachCopy (rule : Rule) (sqls : List ShardSQL) : Prop :=
  (∀ q ∈ sqls, q.copy ∈ rule.copies) ∧ ∀ c ∈ rule.copies, (sqls.map ShardSQL.copy).count c = 1

/-- What the copies hold after the statements were executed; an `effect` depends on nothing but the copy. -/
def executeOnCopies {σ : Type} (effect : σ → σ) (sqls : List ShardSQL) (state : String × String → σ) :
    String × String → σ :=
  sqls.foldl (fun state q => Function.update state q.copy (effect (state q.copy))) state

/-- A run of writes, each with its effect and its statements. -/
def executeWrites {σ : Type} (writes : List ((σ → σ) × List ShardSQL)) (state : String × String → σ) :
    String × String → σ :=
  writes.foldl (fun state w => executeOnCopies w.1 w.2 state) state

theorem executeOnCopies_apply (effect : σ → σ) (sqls : List ShardSQL) (state : String × String → σ)
    (c : String × String) :
    executeOnCopies effect sqls state c = effect^[(sqls.map ShardSQL.copy).count c] (state c) := by
  induction sqls generalizing state with
  | nil => rfl
  | cons q sqls ih =>
    have hstep : executeOnCopies effect (q :: sqls) state =
      executeOnCopies effect sqls (Function.update state q.copy (effect (state q.copy))) := rfl
    rw [hstep, ih, map_cons, count_cons]
    by_cases hc : q.copy = c
    · rw [← hc, Function.update_self, beq_self_eq_true, if_pos rfl, Function.iterate_succ_apply]
    · rw [Function.update_of_ne (Ne.symm hc), if_neg (by simpa using hc), Nat.add_zero]

theorem executeWrites_eq (writes : List ((σ → σ) × List ShardSQL)) (honce : ∀ w ∈ writes, OnceOnEachCopy rule w.2)
    {state : String × String → σ} (hequal : ∀ c ∈ rule.copies, ∀ c' ∈ rule.copies, state c = state c') :
    ∀ c ∈ rule.copies, ∀ c' ∈ rule.copies, executeWrites writes state c = executeWrites writes state c' := by
  induction writes generalizing state with
  | nil => exact hequal
  | cons w writes ih =>
    obtain ⟨hw, hwrites⟩ := forall_mem_cons.1 honce
    refine ih hwrites fun c hc c' hc' => ?_
    change executeOnCopies w.1 w.2 state c = executeOnCopies w.1 w.2 state c'
    rw [executeOnCopies_apply, executeOnCopies_apply, hw.2 c hc, hw.2 c' hc']
    exact congrArg w.1 (hequal c hc c' hc')

theorem Rule.CopyAt.sentTo {c : String × String} (h : rule.CopyAt i c) : rule.sentTo i = .ok c := by
  unfold Rule.sentTo
  rw [h.1, h.2]
  rfl

theorem nodup_copies_iff {indexes : List Int} (h : Forall₂ (fun i q => rule.sentTo i = .ok q.copy) indexes sqls) :
    (sqls.map ShardSQL.copy).Nodup ↔ (indexes.map rule.sentTo).Nodup := by
  have hmap : indexes.map rule.sentTo = (sqls.map ShardSQL.copy).map .ok := by
    rw [map_map]
    induction h with
    | nil => rfl
    | cons hsent _ ih =>
      rw [map_cons, map_cons, ih, hsent]
      rfl
  rw [hmap]
  exact (nodup_map_iff fun c c' heq => Except.ok.inj heq).symm

/-- Each copy is written once when every index has a copy of its own. -/
theorem onceOnEachCopy_iff (h : Forall₂ (fun i q => rule.sentTo i = .ok q.copy) rule.getSubTableIndexes sqls) :
    OnceOnEachCopy rule sqls ↔
      (∀ i ∈ rule.getSubTableIndexes, ∃ c, rule.CopyAt i c) ∧ (rule.getSubTableIndexes.map rule.sentTo).Nodup := by
  rw [← nodup_copies_iff h]
  constructor
  · rintro ⟨hmem, hcount⟩
    have hnodup : (sqls.map ShardSQL.copy).Nodup := by
      refine nodup_iff_count_le_one.2 fun c => ?_
      by_cases hc : c ∈ sqls.map ShardSQL.copy
      · obtain ⟨q, hq, rfl⟩ := mem_map.1 hc
        exact (hcount _ (hmem q hq)).le
      · rw [count_eq_zero_of_not_mem hc]
        exact Nat.zero_le 1
    refine ⟨fun i hi => ?_, hnodup⟩
    obtain ⟨q, hq, hsent⟩ := exists_of_mem h hi
    obtain ⟨j, hj, hcopy⟩ := hmem q hq
    -- the statement of `i` goes where that of `j` goes, so that they are the same
    obtain rfl := inj_on_of_nodup_map ((nodup_copies_iff h).1 hnodup) hi hj (hsent.trans hcopy.sentTo.symm)
    exact ⟨q.copy, hcopy⟩
  · rintro ⟨hcopies, hnodup⟩
    refine ⟨fun q hq => ?_, fun c hc => count_eq_one_of_mem hnodup ?_⟩
    · obtain ⟨i, hi, hsent⟩ := exists_of_mem h.flip hq
      obtain ⟨c, hcopy⟩ := hcopies i hi
      exact ⟨i, hi, ok_unique hcopy.sentTo hsent ▸ hcopy⟩
    · obtain ⟨i, hi, hcopy⟩ := hc
      obtain ⟨q, hq, hsent⟩ := exists_of_mem h hi
      exact mem_map.2 ⟨q, hq, ok_unique hsent hcopy.sentTo⟩

/-! ### Rules are found again -/

theorem not_mem_of_mem_splitDots {part : List Char} (h : part ∈ splitDots cs) : '.' ∉ part := by
  induction cs generalizing part with
  | nil =>
    rw [mem_singleton.1 h]
    exact not_mem_nil
  | cons c cs ih =>
    unfold splitDots at h
    split at h
    · rcases mem_cons.1 h with rfl | h
      · exact not_mem_nil
      · exact ih h
    · next hc =>
      split at h
      · rw [mem_singleton.1 h]
        exact fun hmem => hc (mem_singleton.1 hmem).symm
      · next part' parts hparts =>
        rw [hparts] at ih
        rcases mem_cons.1 h with rfl | h
        · intro hmem
          rcases mem_cons.1 hmem with heq | hmem
          · exact hc heq.symm
          · exact ih mem_cons_self hmem
        · exact ih (mem_cons_of_mem _ h)

theorem splitDots_of_not_mem (h : '.' ∉ cs) : splitDots cs = [cs] := by
  induction cs with
  | nil => rfl
  | cons c cs ih =>
    unfold splitDots
    have hc : c ≠ '.' := fun hc => h (mem_cons.2 (.inl hc.symm))
    rw [if_neg hc, ih fun hmem => h (mem_cons_of_mem c hmem)]

theorem mem_of_mem_trimBackQuotes {c : Char} (h : c ∈ (trimBackQuotes cs).toList) : c ∈ cs := by
  unfold trimBackQuotes at h
  rw [String.toList_ofList, mem_reverse] at h
  exact (dropWhile_sublist _).subset (mem_reverse.1 ((dropWhile_sublist _).subset h))

section Again

variable {db name : String} (hnamed : ∀ k rule, router.rules.get k = some rule → (rule.getDB, rule.getTable) = k)
include hnamed

theorem getShardRule_getDB (h : router.getShardRule db name = some rule) :
    router.getShardRule rule.getDB name = some rule := by
  unfold Router.getShardRule at h ⊢
  split at h
  · exact h
  · have hname := (Prod.mk.inj (hnamed _ _ h)).1
    rw [hname]
    exact h

theorem getShardRule_getTable (h : router.getShardRule db name = some rule) :
    router.getShardRule rule.getDB rule.getTable = some rule := by
  unfold Router.getShardRule at h
  split at h
  · next d t hsplit =>
    obtain ⟨hd, ht⟩ := Prod.mk.inj (hnamed _ _ h)
    have hdot : '.' ∉ (trimBackQuotes t).toList := fun hmem =>
      not_mem_of_mem_splitDots (hsplit ▸ mem_cons_of_mem _ mem_cons_self) (mem_of_mem_trimBackQuotes hmem)
    rw [hd, ht, getShardRule_of_no_dot]
    · exact h
    · rw [splitDots_of_not_mem hdot, length_singleton]
      decide
  · next hsplit =>
    obtain ⟨hd, ht⟩ := Prod.mk.inj (hnamed _ _ h)
    rw [hd, ht, getShardRule_of_no_dot]
    · exact h
    · intro htwo
      obtain ⟨d, t, hparts⟩ := length_eq_two.1 htwo
      exact hsplit d t hparts

end Again

/-! ### What is generated -/

/-- An index with a slice is an index of the rule, and a hint names no index above their number. -/
structure Rule.Consistent (rule : Rule) : Prop where
  mem : ∀ i name, rule.getSlice (rule.getSliceIndexFromTableIndex i) = .ok name → i ∈ rule.getSubTableIndexes
  hint : isMycatShardingRule rule.getType = true → ∀ phyDB i, rule.getTableIndexByDatabaseName phyDB = some i →
    i ≤ rule.getSubTableIndexes.length

theorem getSliceIndex_of_getSlice
    (h : rule.getSlice (rule.getSliceIndexFromTableIndex i) = .ok name) :
    ∃ k, rule.parent.tableToSlice.get i = some k := by
  unfold Rule.getSlice Rule.getSliceIndexFromTableIndex at h
  cases hget : rule.parent.tableToSlice.get i with
  | some k => exact ⟨k, rfl⟩
  | none =>
    rw [hget] at h
    cases h

theorem copyAt_of_sentTo {c : String × String} (h : rule.sentTo i = .ok c)
    (hle : i ≤ rule.getSubTableIndexes.length) : rule.CopyAt i c := by
  obtain ⟨slice, hslice, h⟩ := bind_eq_ok.1 h
  dsimp only at h
  split at h
  · next e herror =>
    unfold Rule.getDatabaseNameByTableIndex at herror
    split at herror
    · rw [if_neg (not_lt.2 hle)] at herror
      split at herror <;> cases herror
    · cases herror
  · obtain ⟨db, hdb, h⟩ := bind_eq_ok.1 h
    cases h
    exact ⟨hslice, hdb⟩

theorem lt_of_get_databaseToTableIndexMap {databases : List String}
    (h : (databaseToTableIndexMap databases).get name = some i) : i < databases.length := by
  have hfold : databaseToTableIndexMap databases =
      (databases.zipIdx.map fun e => (e.1, (e.2 : Int))).foldl (fun m e => AssocMap.set m e.1 e.2) [] := by
    rw [foldl_map]
    rfl
  rw [hfold] at h
  obtain ⟨e, he, heq⟩ := mem_map.1 ((AssocMap.mem_of_mem_foldl_set (AssocMap.mem_of_get h)).resolve_right nofun)
  cases heq
  have := (mem_zipIdx he).2.1
  omega

theorem consistent_of_builtFrom {shards : List ShardModel} (h : rule.BuiltFrom env names shards) :
    rule.Consistent := by
  obtain ⟨s, -, r, hr, hparent⟩ := h
  have hindexes : rule.getSubTableIndexes = r.subTableIndexes := by
    unfold Rule.getSubTableIndexes BaseRule.inNamespace at *
    rw [hparent]
    split <;> rfl
  have hmap : rule.parent.tableToSlice = r.tableToSlice := by
    unfold BaseRule.inNamespace at hparent
    rw [hparent]
    split <;> rfl
  have htype : rule.getType = r.ruleType := by
    unfold Rule.getType
    rw [hparent, inNamespace_ruleType]
  -- rules with locations and rules with dates keep their tables in the same way
  have hmem : ∀ tables : List (Int × Int), r.subTableIndexes = tables.map Prod.fst →
      r.tableToSlice = tables.foldl (fun m t => AssocMap.set m t.1 t.2) [] →
      ∀ i name, rule.getSlice (rule.getSliceIndexFromTableIndex i) = .ok name → i ∈ rule.getSubTableIndexes := by
    intro tables hsub hto i name hslice
    obtain ⟨k, hk⟩ := getSliceIndex_of_getSlice hslice
    rw [hmap, hto] at hk
    rw [hindexes, hsub]
    exact mem_map_of_mem ((AssocMap.mem_of_mem_foldl_set (AssocMap.mem_of_get hk)).resolve_right nofun)
  cases (s.parseRule_spec hr).2 with
  | located h hparse =>
    obtain ⟨-, hsub, hto⟩ := parseHashRuleSliceInfos_eq_ok.1 hparse
    refine ⟨hmem _ hsub hto, fun hmycat => ?_⟩
    rw [htype] at hmycat
    rcases h with h | h | h <;> rw [h] at hmycat <;> cases hmycat
  | global h hparse =>
    obtain ⟨-, hsub, hto⟩ := parseHashRuleSliceInfos_eq_ok.1 hparse
    refine ⟨hmem _ hsub hto, fun hmycat => ?_⟩
    rw [htype, h] at hmycat
    cases hmycat
  | dated parse h tables _ hsub hto =>
    refine ⟨hmem tables hsub hto, fun hmycat => ?_⟩
    rw [htype] at hmycat
    rcases h with ⟨h, -⟩ | ⟨h, -⟩ | ⟨h, -⟩ <;> rw [h] at hmycat <;> cases hmycat
  | mycat h hparse _ hlength hdatabases =>
    obtain ⟨-, hsub, hto⟩ := parseHashRuleSliceInfos_eq_ok.1 hparse
    refine ⟨hmem _ hsub hto, fun _ phyDB i hget => ?_⟩
    have hne : r.ruleType ≠ .global := fun hg => by rw [hg] at h; cases h
    rw [Rule.getTableIndexByDatabaseName, hparent, inNamespace_of_ne_global hne, hdatabases] at hget
    have hlt := lt_of_get_databaseToTableIndexMap hget
    have hle := AssocMap.length_foldl_set_le (tablesOfLocations 0 0 s.locations) []
    rw [← hto, hlength, length_nil] at hle
    rw [hindexes, hsub, tableNumbers, length_map]
    omega

theorem sentTo_of_shardingSQL (h : shardingSQL restore result router i = .ok q)
    (hrule : router.getShardRule result.db result.table = some rule) : rule.sentTo i = .ok q.copy := by
  unfold shardingSQL at h
  split at h
  · cases h
  rw [hrule] at h
  obtain ⟨slice, hslice, h⟩ := bind_eq_ok.1 h
  unfold Rule.sentTo
  rw [hslice]
  cases hdb : rule.getDatabaseNameByTableIndex i with
  | ok db =>
    rw [hdb] at h
    have h : Except.ok _ = Except.ok q := h
    cases h
    rfl
  | error e =>
    rw [hdb] at h
    cases e with
    | error msg =>
      have h : Except.ok _ = Except.ok q := h
      cases h
      rfl
    | panic msg => cases h

theorem exists_rule_of_shardingSQL
    (h : shardingSQL restore result router i = .ok q) :
    ∃ rule, router.getShardRule result.db result.table = some rule := by
  unfold shardingSQL at h
  split at h
  · cases h
  · split at h
    · cases h
    · next rule hrule => exact ⟨rule, hrule⟩

/-! ### Writes -/

/-- An `INSERT`, an `UPDATE` or a `DELETE` on a table was planned, with the statements it sends. -/
inductive TableWrite (db : String) (router : Router) (order : MapOrder) (seqs : SequenceManager) (table : TableName)
    (asName : CIStr) : List ShardSQL → Prop where
  | insert (stmt : InsertStmt Parsed) (plan : InsertPlan) (hrefs : stmt.tableRefs = singleTable table asName)
      (h : handleInsertStmt (newStmtInfo db router order) seqs stmt = .ok plan) :
      TableWrite db router order seqs table asName plan.sqls
  | update (stmt : UpdateStmt Parsed) (plan : ModifyPlan (UpdateStmt Planned))
      (hrefs : stmt.tableRefs = singleTable table asName)
      (h : handleUpdatePlan (newTableAliasStmtInfo db router order) stmt = .ok plan) :
      TableWrite db router order seqs table asName plan.sqls
  | delete (stmt : DeleteStmt Parsed) (plan : ModifyPlan (DeleteStmt Planned))
      (hrefs : stmt.tableRefs = singleTable table asName)
      (h : handleDeletePlan (newTableAliasStmtInfo db router order) stmt = .ok plan) :
      TableWrite db router order seqs table asName plan.sqls

theorem Recorded.handleWhere {ls : List Leaf} {cond : Option (Expr Parsed)}
    {cond' : Option (Expr Planned)} (hp : Recorded db router p ls) (h : handleWhere p cond = .ok (cond', p')) :
    Recorded db router p' ls := by
  cases cond with
  | none =>
    cases h
    exact hp
  | some e =>
    obtain ⟨c, -, h⟩ := bind_eq_ok.1 h
    cases h
    exact hp.applyCond c

theorem postHandleGlobal_of_recorded {l : Leaf} (hp : Recorded db router p [l])
    (hg : l.isGlobal) : p.toStmtInfo.postHandleGlobalTableRouteResultInModify.result =
      ⟨l.rule.getDB, l.name, l.rule.getSubTableIndexes⟩ := by
  have hempty : p.tableRules = [] := by
    refine eq_nil_iff_forall_not_mem.2 fun e he => ?_
    obtain ⟨l', hl', -, -, hnot⟩ := hp.rules e.1 e.2 he
    exact hnot (mem_singleton.1 hl' ▸ hg)
  have hne : p.globalTableRules ≠ [] :=
    ne_nil_of_mem (AssocMap.mem_of_get (hp.globalNamed l (mem_singleton_self l) hg))
  obtain ⟨⟨t, rule⟩, he⟩ := Option.isSome_iff_exists.1 (p.order.first_isSome _ hne)
  obtain ⟨l', hl', rfl, rfl, -⟩ := hp.globals t rule (p.order.first_mem _ _ he)
  obtain rfl := mem_singleton.1 hl'
  unfold StmtInfo.postHandleGlobalTableRouteResultInModify StmtInfo.postHandleGlobalTableRouteResult
  rw [hempty, isEmpty_nil, if_pos rfl, he]

theorem postHandleGlobal_router (p : StmtInfo) : p.postHandleGlobalTableRouteResultInModify.router = p.router := by
  unfold StmtInfo.postHandleGlobalTableRouteResultInModify StmtInfo.postHandleGlobalTableRouteResult
  split
  · split <;> rfl
  · rfl

variable {db : String}

section Generated

variable {order : MapOrder} {table : TableName} {asName : CIStr}
  (hnamed : ∀ k rule, router.rules.get k = some rule → (rule.getDB, rule.getTable) = k)
  (hrule : router.getShardRule db table.name.l = some rule) (hg : rule.getType = .global)
include hnamed hrule hg

theorem generated_of_modify {j : Join (TableSource Planned) Planned} {p₁ p₂ : TableAliasStmtInfo}
    {cond : Option (Expr Parsed)} {cond' : Option (Expr Planned)} {restore : Int → Out}
    (hjoin : handleJoin (newTableAliasStmtInfo db router order) (singleTable table asName) = .ok (j, p₁))
    (hwhere : handleWhere p₁ cond = .ok (cond', p₂))
    (hsqls : generateShardingSQLs restore p₂.toStmtInfo.postHandleGlobalTableRouteResultInModify.result
      p₂.toStmtInfo.postHandleGlobalTableRouteResultInModify.router = .ok sqls) :
    ∃ restore result, generateShardingSQLs restore result router = .ok sqls ∧
    result.indexes = rule.getSubTableIndexes ∧ router.getShardRule result.db result.table = some rule := by
  have hp := (recorded_of_handleJoin hrule hjoin).1.handleWhere hwhere
  rw [postHandleGlobal_router, hp.routes, postHandleGlobal_of_recorded hp hg] at hsqls
  exact ⟨_, _, hsqls, rfl, getShardRule_getDB hnamed hrule⟩

theorem TableWrite.generated {seqs : SequenceManager} (h : TableWrite db router order seqs table asName sqls) :
    ∃ restore result, generateShardingSQLs restore result router = .ok sqls ∧
    result.indexes = rule.getSubTableIndexes ∧ router.getShardRule result.db result.table = some rule := by
  cases h with
  | insert stmt plan hrefs h =>
    -- an `INSERT` takes the rule from the router once more
    have htable : ∀ {t p₁}, handleInsertTableRefs (newStmtInfo db router order) stmt.tableRefs = .ok (t, p₁) →
        t.rule = rule ∧ p₁.router = router := by
      intro t p₁ ht
      rw [hrefs] at ht
      obtain ⟨-, hlookup, -, hrouter, -⟩ := handleInsertTableRefs_eq_ok ht
      exact ⟨Option.mem_unique hlookup hrule, hrouter⟩
    cases insertRun_of_ok h with
    | onGlobal _ ht _ h =>
      obtain ⟨htrule, hrouter⟩ := htable ht
      obtain ⟨sqls, hsqls, h⟩ := bind_eq_ok.1 h
      cases h
      rw [wrapErr_eq_ok] at hsqls
      rw [htrule, hrouter] at hsqls
      exact ⟨_, _, hsqls, rfl, getShardRule_getTable hnamed hrule⟩
    | onSharded _ ht hnot => exact absurd hg ((htable ht).1 ▸ hnot)
  | update stmt plan hrefs h =>
    cases updateRun_of_ok h with
    | mk hjoin _ hwhere _ hpost _ hsqls =>
      rw [hrefs] at hjoin
      subst hpost
      exact generated_of_modify hnamed hrule hg hjoin hwhere hsqls
  | delete stmt plan hrefs h =>
    cases deleteRun_of_ok h with
    | mk hjoin hwhere _ hpost _ hsqls =>
      rw [hrefs] at hjoin
      subst hpost
      exact generated_of_modify hnamed hrule hg hjoin hwhere hsqls

theorem TableWrite.forall₂_sentTo {seqs : SequenceManager} (h : TableWrite db router order seqs table asName sqls) :
    Forall₂ (fun i q => rule.sentTo i = .ok q.copy) rule.getSubTableIndexes sqls := by
  obtain ⟨restore, result, hsqls, hindexes, hlookup⟩ := h.generated hnamed hrule hg
  rw [← hindexes]
  exact (mapM_eq_ok.1 hsqls).imp fun i q hq => sentTo_of_shardingSQL hq hlookup

end Generated

/-! ### When the copies of a configuration differ -/

/-- The tables are numbered from zero to below their count, each once, and the tables of one location are in different
databases. -/
structure ShardModel.CopiesApart (s : ShardModel) : Prop where
  numbers : (tableNumbers 0 s.locations).Nodup
  range : ∀ i ∈ tableNumbers 0 s.locations, 0 ≤ i ∧ i < (tableNumbers 0 s.locations).length
  databases : ∀ k, ∀ i ∈ locationBlock s.locations k, ∀ j ∈ locationBlock s.locations k,
    s.databaseAt i.toNat = s.databaseAt j.toNat → i = j

structure GlobalParts (s : ShardModel) (names : List String) (rule : Rule) : Prop where
  type : rule.parent.ruleType = .global
  indexes : rule.parent.subTableIndexes = tableNumbers 0 s.locations
  toSlice : rule.parent.tableToSlice = (tablesOfLocations 0 0 s.locations).foldl
    (fun m t => AssocMap.set m t.1 t.2) []
  slices : rule.parent.slices = names
  databases : ∀ p < rule.parent.subTableIndexes.length, s.databaseAt p = rule.parent.mycatDatabases[p]?
  count : rule.parent.subTableIndexes.Nodup → rule.parent.mycatDatabases.length = rule.parent.subTableIndexes.length

theorem globalParts_of_parseRule (htype : s.type = .known .global) (hr : s.parseRule env = .ok r)
    (hparent : rule.parent = r.inNamespace names) : GlobalParts s names rule := by
  obtain ⟨hn, htables⟩ := s.parseRule_spec hr
  have hglobal : r.ruleType = .global := ConfigType.known.inj (hn.type.symm.trans htype)
  rw [inNamespace_of_global hglobal] at hparent
  cases htables with
  | located h => rcases h with h | h | h <;> rw [h] at hglobal <;> cases hglobal
  | mycat h =>
    rw [hglobal] at h
    cases h
  | dated _ h => rcases h with ⟨h, -⟩ | ⟨h, -⟩ | ⟨h, -⟩ <;> rw [h] at hglobal <;> cases hglobal
  | global _ hparse hdatabases =>
    obtain ⟨-, hindexes, hmap⟩ := parseHashRuleSliceInfos_eq_ok.1 hparse
    constructor <;> rw [hparent]
    · exact hglobal
    · exact hindexes
    · exact hmap
    · exact fun p hp => databaseAt_of_global htype hdatabases hp
    · exact length_globalDatabases hparse hdatabases

namespace GlobalParts

variable (h : GlobalParts s names rule)
variable {k : Nat}

include h

theorem indexes_eq : rule.getSubTableIndexes = tableNumbers 0 s.locations := h.indexes

theorem slice_iff (hnodup : rule.getSubTableIndexes.Nodup) (hi : i ∈ locationBlock s.locations k)
    (name : String) : rule.getSlice (rule.getSliceIndexFromTableIndex i) = .ok name ↔ names[k]? = some name := by
  rw [h.indexes_eq] at hnodup
  have htoSlice := h.toSlice
  rw [foldl_set_of_nodup hnodup] at htoSlice
  rw [← h.slices]
  exact getSlice_of_mem rule (htoSlice ▸ hnodup) (htoSlice ▸ mem_tablesOfLocations.2 ⟨k, rfl, hi⟩)

theorem mem_indexes (hi : i ∈ locationBlock s.locations k) : i ∈ rule.getSubTableIndexes := by
  rw [h.indexes_eq]
  exact mem_map_of_mem (mem_tablesOfLocations.2 ⟨k, rfl, hi⟩)

theorem exists_block (hi : i ∈ rule.getSubTableIndexes) : ∃ k, i ∈ locationBlock s.locations k := by
  rw [h.indexes_eq] at hi
  obtain ⟨⟨i, k⟩, hmem, rfl⟩ := mem_map.1 hi
  obtain ⟨k', -, hk'⟩ := mem_tablesOfLocations.1 hmem
  exact ⟨k', hk'⟩

theorem database_iff (hnodup : rule.getSubTableIndexes.Nodup) : rule.getDatabaseNameByTableIndex i = .ok db ↔
    0 ≤ i ∧ i < rule.getSubTableIndexes.length ∧ s.databaseAt i.toNat = some db := by
  refine (getDatabaseNameByTableIndex_eq_ok (r := rule.parent) (.inr h.type)).trans ?_
  constructor
  · rintro ⟨-, hnonneg, hget⟩
    have hlt : i.toNat < rule.getSubTableIndexes.length := h.count hnodup ▸ (List.getElem?_eq_some_iff.1 hget).1
    exact ⟨hnonneg, by omega, (h.databases _ hlt).trans hget⟩
  · rintro ⟨hnonneg, hlt, hget⟩
    exact ⟨le_of_lt hlt, hnonneg,
      (h.databases i.toNat (by change i < rule.parent.subTableIndexes.length at hlt; omega)) ▸ hget⟩

/-- Every index has a copy of its own exactly when the copies of the configuration are apart. -/
theorem copies_iff (hnames : names.Nodup) (hsent : ∀ i ∈ rule.getSubTableIndexes, ∃ c, rule.sentTo i = .ok c) :
    (∀ i ∈ rule.getSubTableIndexes, ∃ c, rule.CopyAt i c) ∧ (rule.getSubTableIndexes.map rule.sentTo).Nodup ↔
      s.CopiesApart := by
  constructor
  · rintro ⟨hcopies, hsentNodup⟩
    have hnodup : rule.getSubTableIndexes.Nodup := Nodup.of_map _ hsentNodup
    refine ⟨h.indexes_eq ▸ hnodup, fun i hi => ?_, fun k i hi j hj heq => ?_⟩
    · rw [← h.indexes_eq] at hi ⊢
      obtain ⟨c, -, hdb⟩ := hcopies i hi
      obtain ⟨hnonneg, hlt, -⟩ := (h.database_iff hnodup).1 hdb
      exact ⟨hnonneg, hlt⟩
    -- two tables of one location in one database have one copy
    obtain ⟨ci, hci⟩ := hcopies i (h.mem_indexes hi)
    obtain ⟨cj, hcj⟩ := hcopies j (h.mem_indexes hj)
    have hslice : ci.1 = cj.1 :=
      Option.mem_unique ((h.slice_iff hnodup hi _).1 hci.1) ((h.slice_iff hnodup hj _).1 hcj.1)
    have hdb : ci.2 = cj.2 := by
      rw [((h.database_iff hnodup).1 hci.2).2.2, ((h.database_iff hnodup).1 hcj.2).2.2] at heq
      exact Option.some.inj heq
    refine inj_on_of_nodup_map hsentNodup (h.mem_indexes hi) (h.mem_indexes hj) ?_
    rw [hci.sentTo, hcj.sentTo, Prod.ext hslice hdb]
  · rintro ⟨hnumbers, hrange, hblocks⟩
    rw [← h.indexes_eq] at hnumbers hrange
    have hcopies : ∀ i ∈ rule.getSubTableIndexes, ∃ c, rule.CopyAt i c := by
      intro i hi
      obtain ⟨c, hc⟩ := hsent i hi
      exact ⟨c, copyAt_of_sentTo hc (le_of_lt (hrange i hi).2)⟩
    refine ⟨hcopies, (nodup_map_iff_inj_on hnumbers).2 fun i hi j hj heq => ?_⟩
    obtain ⟨c, hci⟩ := hcopies i hi
    obtain ⟨c', hcj⟩ := hcopies j hj
    rw [hci.sentTo, hcj.sentTo] at heq
    cases heq
    obtain ⟨k, hk⟩ := h.exists_block hi
    obtain ⟨k', hk'⟩ := h.exists_block hj
    -- the names of the slices are different, so both tables belong to one location
    obtain rfl : k = k' := by
      obtain ⟨hlt, hget⟩ := List.getElem?_eq_some_iff.1 ((h.slice_iff hnumbers hk _).1 hci.1)
      obtain ⟨hlt', hget'⟩ := List.getElem?_eq_some_iff.1 ((h.slice_iff hnumbers hk' _).1 hcj.1)
      exact (Nodup.getElem_inj_iff hnames).1 (hget.trans hget'.symm)
    refine hblocks k i hk j hk' ?_
    rw [((h.database_iff hnumbers).1 hci.2).2.2, ((h.database_iff hnumbers).1 hcj.2).2.2]

end GlobalParts

/-! ### Queries -/

theorem postHandleHint_eq_ok (h : postHandleHintDatabaseFunction p = .ok p') :
    p' = p ∨ ∃ rule i, p.router.getShardRule p.result.db p.result.table = some rule ∧
      isMycatShardingRule rule.getType = true ∧ rule.getTableIndexByDatabaseName p.hintPhyDB = some i ∧
        p' = { p with result := { p.result with indexes := [i] } } := by
  unfold postHandleHintDatabaseFunction at h
  split at h
  · exact .inl (Except.ok.inj h).symm
  · split at h
    · cases h
    · next rule hrule =>
      split at h
      · next hmycat =>
        split at h
        · cases h
        · next i hi => exact .inr ⟨rule, i, hrule, hmycat, hi, (Except.ok.inj h).symm⟩
      · cases h

theorem postHandleGlobalInQuery_of_globals {p : StmtInfo} (hrules : p.tableRules = [])
    (hglobals : p.globalTableRules ≠ []) :
    ∃ db table, p.postHandleGlobalTableRouteResultInQuery = { p with result := ⟨db, table, [0]⟩ } := by
  obtain ⟨⟨table, rule⟩, he⟩ := Option.isSome_iff_exists.1 (p.order.first_isSome _ hglobals)
  refine ⟨rule.getDB, table, ?_⟩
  unfold StmtInfo.postHandleGlobalTableRouteResultInQuery StmtInfo.postHandleGlobalTableRouteResult
  rw [hrules, isEmpty_nil, if_pos rfl, he]

theorem postHandleGlobalInQuery_rules (p : StmtInfo) :
    p.postHandleGlobalTableRouteResultInQuery.tableRules = p.tableRules ∧
      p.postHandleGlobalTableRouteResultInQuery.globalTableRules = p.globalTableRules := by
  unfold StmtInfo.postHandleGlobalTableRouteResultInQuery StmtInfo.postHandleGlobalTableRouteResult
  split
  · split <;> exact ⟨rfl, rfl⟩
  · exact ⟨rfl, rfl⟩

theorem select_one_copy {order : MapOrder} {stmt : SelectStmt Parsed} {plan : SelectPlan}
    (hconsistent : ∀ db name rule, router.getShardRule db name = some rule → rule.Consistent)
    (h : handleSelectStmt (newTableAliasStmtInfo db router order) stmt = .ok plan)
    (hrules : plan.info.tableRules = []) (hglobals : plan.info.globalTableRules ≠ []) :
    ∃ q rule, plan.sqls = [q] ∧ router.getShardRule plan.info.result.db plan.info.result.table = some rule ∧
      q.copy ∈ rule.copies := by
  cases selectRun_of_ok h with
  | @mk tableRefs p₁ p₂ p₃ _ _ _ _ _ _ _ _ _ _ _ _ _ sqls hrefs _ _ _ _ hwhere _ _ hhint _ hsqls =>
    have hrouter : p₂.router = router := (handleWhere_eq_ok hwhere).router_eq.trans (handleTableRefs_router hrefs)
    have hp₃ := postHandleHint_eq_ok hhint
    have hkept := postHandleGlobalInQuery_rules p₂.toStmtInfo
    have hnone : p₂.tableRules = [] := by
      rcases hp₃ with rfl | ⟨_, _, _, _, _, rfl⟩ <;> exact hkept.1.symm.trans hrules
    have hsome : p₂.globalTableRules ≠ [] := by
      rcases hp₃ with rfl | ⟨_, _, _, _, _, rfl⟩ <;> exact hkept.2 ▸ hglobals
    obtain ⟨db', table, hroute⟩ := postHandleGlobalInQuery_of_globals hnone hsome
    rw [hroute] at hp₃
    -- the one index is 0, or the index that a hint names
    have hfound : p₃.router = router ∧ ∃ i, p₃.result.indexes = [i] ∧
        ∀ rule, router.getShardRule p₃.result.db p₃.result.table = some rule →
        i ≤ rule.getSubTableIndexes.length := by
      rcases hp₃ with rfl | ⟨rule, i, hrule, hmycat, hi, rfl⟩
      · exact ⟨hrouter, 0, rfl, fun rule _ => by omega⟩
      · change p₂.router.getShardRule db' table = some rule at hrule
        rw [hrouter] at hrule
        refine ⟨hrouter, i, rfl, fun rule' hrule' => ?_⟩
        obtain rfl := Option.mem_unique hrule hrule'
        exact (hconsistent _ _ _ hrule).hint hmycat _ i hi
    obtain ⟨hrouter, i, hindexes, hle⟩ := hfound
    unfold generateShardingSQLs at hsqls
    rw [hindexes, hrouter] at hsqls
    rcases mapM_eq_ok.1 hsqls with _ | ⟨hq, ⟨⟩⟩
    obtain ⟨rule, hrule⟩ := exists_rule_of_shardingSQL hq
    have hcopy := copyAt_of_sentTo (sentTo_of_shardingSQL hq hrule) (hle rule hrule)
    exact ⟨_, rule, rfl, hrule, i, (hconsistent _ _ _ hrule).mem i _ hcopy.1, hcopy⟩

/-! ### The result -/

theorem getShardRule_eq_get (h : router.getShardRule db name = some rule) :
    ∃ k, router.rules.get k = some rule := by
  unfold Router.getShardRule at h
  split at h
  · exact ⟨_, h⟩
  · exact ⟨_, h⟩

/-- The statements on a global table of an accepted configuration.  A write reaches each copy once exactly when the
tables of the configuration have different copies, and then a run of writes keeps the copies equal; a query goes to
one copy in any case. -/
theorem replicated_iff_copiesApart (hverify : n.verify parseIPInfo = .ok ()) (hrouter : newRouter env n = .ok router)
    (htype : s.type = .known .global) (hr : s.parseRule env = .ok r)
    (hparent : rule.parent = r.inNamespace n.sliceNames) {db : String} {table : TableName}
    (hrule : router.getShardRule db table.name.l = some rule) (order : MapOrder) (seqs : SequenceManager)
    (asName : CIStr) :
    (∀ sqls, TableWrite db router order seqs table asName sqls → (OnceOnEachCopy rule sqls ↔ s.CopiesApart)) ∧
      (s.CopiesApart → ∀ {σ : Type} (writes : List ((σ → σ) × List ShardSQL)) (state : String × String → σ),
        (∀ w ∈ writes, TableWrite db router order seqs table asName w.2) →
        (∀ c ∈ rule.copies, ∀ c' ∈ rule.copies, state c = state c') →
        ∀ c ∈ rule.copies, ∀ c' ∈ rule.copies, executeWrites writes state c = executeWrites writes state c') ∧
      ∀ (stmt : SelectStmt Parsed) (plan : SelectPlan),
        handleSelectStmt (newTableAliasStmtInfo db router order) stmt = .ok plan → plan.info.tableRules = [] →
        plan.info.globalTableRules ≠ [] → ∃ q rule', plan.sqls = [q] ∧
          router.getShardRule plan.info.result.db plan.info.result.table = some rule' ∧ q.copy ∈ rule'.copies := by
  obtain ⟨-, hnamed, -⟩ := newRouter_eq_ok hrouter
  have hconsistent : ∀ db name rule, router.getShardRule db name = some rule → rule.Consistent := by
    intro db name rule hrule
    obtain ⟨k, hk⟩ := getShardRule_eq_get hrule
    exact consistent_of_builtFrom (hnamed.origin k rule hk)
  have hparts := globalParts_of_parseRule htype hr hparent
  have honce : ∀ sqls, TableWrite db router order seqs table asName sqls →
      (OnceOnEachCopy rule sqls ↔ s.CopiesApart) := by
    intro sqls hwrite
    have hsent := hwrite.forall₂_sentTo hnamed.named hrule hparts.type
    rw [onceOnEachCopy_iff hsent]
    refine hparts.copies_iff (verified_of_verify hverify).names_nodup fun i hi => ?_
    obtain ⟨q, -, hq⟩ := exists_of_mem hsent hi
    exact ⟨q.copy, hq⟩
  refine ⟨honce, fun hapart σ writes state hwrites hequal => ?_, fun stmt plan h hrules hglobals => ?_⟩
  · exact executeWrites_eq writes (fun w hw => (honce w.2 (hwrites w hw)).2 hapart) hequal
  · exact select_one_copy hconsistent h hrules hglobals

/-- A global table with one copy on each slice. -/
def copiedGlobal : ShardModel := { swappedGlobal with slices := ["slice-0", "slice-1"] }

/-- A global table with two tables in the one database of one slice. -/
def doubledGlobal : ShardModel := { swappedGlobal with locations := [2], slices := ["slice-0"] }

/-- `DELETE FROM g`. -/
def deleteGlobal : DeleteStmt Parsed := { tableRefs := singleTable (unqualifiedTable "g") .empty }

def selectGlobal : SelectStmt Parsed :=
  { fields := [.expr (.value (.int64 1)) .empty], tableRefs := some (singleTable (unqualifiedTable "g") .empty) }

theorem copiedGlobal_copiesApart : copiedGlobal.CopiesApart := by
  refine ⟨by decide, by decide, fun k => ?_⟩
  unfold locationBlock
  match k with
  | 0 => decide
  | 1 => decide
  | k + 2 => exact nofun

theorem replicated_iff_copiesApart_small : ∃ router r,
    newRouter stillEnv (smallNamespace "slice-0" [copiedGlobal]) = .ok router ∧
      router.getShardRule "db" "g" = some (.base r) ∧
      (∃ plan, handleDeletePlan (newTableAliasStmtInfo "db" router .insertion) deleteGlobal = .ok plan) ∧
      (∀ plan, handleDeletePlan (newTableAliasStmtInfo "db" router .insertion) deleteGlobal = .ok plan →
        OnceOnEachCopy (.base r) plan.sqls ∧
        ∀ (effect : Nat → Nat), ∀ c ∈ (Rule.base r).copies, ∀ c' ∈ (Rule.base r).copies,
          executeWrites [(effect, plan.sqls)] (fun _ => 0) c = executeWrites [(effect, plan.sqls)] (fun _ => 0) c') ∧
      ∃ selected, handleSelectStmt (newTableAliasStmtInfo "db" router .insertion) selectGlobal = .ok selected ∧
        ∃ q rule, selected.sqls = [q] ∧
          router.getShardRule selected.info.result.db selected.info.result.table = some rule ∧
          q.copy ∈ rule.copies := by
  have hverify : (smallNamespace "slice-0" [copiedGlobal]).verify acceptAll = .ok () := by decide +kernel
  obtain ⟨hwrites, hrun, hselect⟩ := @replicated_iff_copiesApart stillEnv _ _ copiedGlobal _ (.base _) _ hverify
    rfl rfl rfl rfl "db"
    (unqualifiedTable "g") rfl .insertion (fun _ _ => none) .empty
  refine ⟨_, _, rfl, rfl, ⟨_, rfl⟩, fun plan hplan => ?_, _, rfl, hselect selectGlobal _ rfl rfl nofun⟩
  have hdelete : TableWrite _ _ _ (fun _ _ => none) _ _ plan.sqls := .delete deleteGlobal plan rfl hplan
  refine ⟨(hwrites _ hdelete).2 copiedGlobal_copiesApart, fun effect => ?_⟩
  refine hrun copiedGlobal_copiesApart _ _ (forall_mem_singleton.2 hdelete) ?_
  exact fun _ _ _ _ => rfl

/-- Two tables in one database of one slice: the copy gets each write twice. -/
theorem write_sent_twice : (smallNamespace "slice-0" [doubledGlobal]).verify acceptAll = .ok () ∧
    ∃ router rule plan, newRouter stillEnv (smallNamespace "slice-0" [doubledGlobal]) = .ok router ∧
      router.getShardRule "db" "g" = some rule ∧
      handleDeletePlan (newTableAliasStmtInfo "db" router .insertion) deleteGlobal = .ok plan ∧
      plan.sqls.map ShardSQL.copy = [("slice-0", "db"), ("slice-0", "db")] :=
  ⟨by decide +kernel, _, _, _, rfl, rfl, rfl, rfl⟩

end DbProxy
