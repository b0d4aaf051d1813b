import DbProxy.Spec.InsertRows
import Mathlib.Data.Set.Basic

/-!
# Placement of rows

Every row of a sharded table should lie in the sub-table that the rule finds for its key: this is what routing relies
on.  The states here are the contents of the sub-tables, and a step is a planned `INSERT`, `REPLACE` or `UPDATE` whose
statements ran on the sub-tables of its route.  What a statement does to a sub-table is described by what it cannot
do: a row that is there afterwards was there before or was inserted, up to the columns that the statement assigns.

An `UPDATE` and an `ON DUPLICATE KEY UPDATE` never assign the sharding column.  An `INSERT` puts literals where they
belong, but a `SET` with any other sharding value goes to all sub-tables.
-/

namespace DbProxy

open Fallible List
variable {column db : String} {router : Router} {rule : Rule}

/-- A stored row: the values of its columns, by their names in lower case. -/
abbrev Row := String → GoVal

abbrev Tables := Int → Set Row

/-! ### What statements do to a sub-table -/

/-- `r'` is `r`, up to the given columns. -/
def changesOnly (columns : List String) (r r' : Row) : Prop := ∀ c, c ∉ columns → r' c = r c

section Effects

variable (stores : String → Expr Parsed → GoVal → Prop)

/-- `r` is a row that the statement for index `i` inserts.  `stores c e v` says that assigning the expression `e` to
the column `c` may store `v`, whatever the type of the column and the state of the database make of it. -/
def Inserted (stmt : InsertStmt Planned) (i : Int) (r : Row) : Prop :=
  if stmt.isAssignment then ∀ a ∈ stmt.setlist, stores a.column.name.l a.expr (r a.column.name.l)
  else ∃ row ∈ stmt.rowsAt i, ∀ (m : Nat) (c : ColumnName) (e : Expr Parsed),
    stmt.columns[m]? = some c → row[m]? = some e → stores c.name.l e (r c.name.l)

/-- A row that is there after the `INSERT` for index `i` was there before or was inserted; on a duplicate key, the
columns of `ON DUPLICATE KEY UPDATE` may have been changed. -/
def InsertEffect (stmt : InsertStmt Planned) (i : Int) (T T' : Set Row) : Prop :=
  ∀ r' ∈ T', ∃ r, (r ∈ T ∨ Inserted stores stmt i r) ∧
    changesOnly ((stmt.onDuplicate.getD []).map fun a => a.column.name.l) r r'

end Effects

def UpdateEffect (stmt : UpdateStmt Planned) (T T' : Set Row) : Prop :=
  ∀ r' ∈ T', ∃ r ∈ T, changesOnly (stmt.list.map fun a => a.column.name.l) r r'

/-- One accepted statement on the table `table`; its effects are confined to the sub-tables of its route.  `ok` says
which `INSERT`s are allowed. -/
inductive Step (stores : String → Expr Parsed → GoVal → Prop) (db : String) (router : Router) (table : String)
    (ok : Option Sequence → InsertStmt Parsed → Prop) (T T' : Tables) : Prop where
  | insert {order : MapOrder} {seqs : SequenceManager} {stmt : InsertStmt Parsed} {plan : InsertPlan} {n : TableName}
      {asName : CIStr} {tail : JoinTail (TableSource Parsed) Parsed} (hname : n.name.l = table)
      (hrefs : stmt.tableRefs = .ofSource (.table () n asName) tail) (hok : ok (seqs db table) stmt)
      (hplan : handleInsertStmt (newStmtInfo db router order) seqs stmt = .ok plan)
      (heffect : ∀ i ∈ plan.info.result.indexes, InsertEffect stores plan.stmt i (T i) (T' i))
      (hframe : ∀ i, i ∉ plan.info.result.indexes → T' i = T i) : Step stores db router table ok T T'
  | update {order : MapOrder} {stmt : UpdateStmt Parsed} {plan : ModifyPlan (UpdateStmt Planned)} {n : TableName}
      {asName : CIStr} (hname : n.name.l = table) (hrefs : stmt.tableRefs = singleTable n asName)
      (hplan : handleUpdatePlan (newTableAliasStmtInfo db router order) stmt = .ok plan)
      (heffect : ∀ i ∈ plan.info.result.indexes, UpdateEffect plan.stmt (T i) (T' i))
      (hframe : ∀ i, i ∉ plan.info.result.indexes → T' i = T i) : Step stores db router table ok T T'

inductive Reachable (stores : String → Expr Parsed → GoVal → Prop) (db : String) (router : Router) (table : String)
    (ok : Option Sequence → InsertStmt Parsed → Prop) : Tables → Prop where
  | start : Reachable stores db router table ok fun _ => ∅
  | step {T T' : Tables} (h : Reachable stores db router table ok T) (hstep : Step stores db router table ok T T') :
      Reachable stores db router table ok T'

/-! ### Values of the sharding column -/

/-- The values that an `INSERT` gives to the column at place `k`. -/
def InsertStmt.valuesAt {P : Phase} (stmt : InsertStmt P) (isAssignmentMode : Bool) (k : Nat) : List (Expr Parsed) :=
  if isAssignmentMode then (stmt.setlist[k]?.map Assignment.expr).toList else stmt.lists.filterMap (·[k]?)

/-- The sharding values of the statement decide where its rows go: that of a `SET` is a literal, and the keys that the
literals are stored as have the same index as the literals. -/
def RoutedByKey (stores : String → Expr Parsed → GoVal → Prop) (rule : Rule) (seq : Option Sequence)
    (stmt : InsertStmt Parsed) : Prop :=
  ∀ stmt₁ k, handleInsertGlobalSequenceValue seq stmt.isAssignment stmt = .ok stmt₁ →
    shardingColumnIndex rule.getShardingColumn 0 none (stmt₁.targets stmt.isAssignment) = some k →
    ∀ e ∈ stmt₁.valuesAt stmt.isAssignment k, (stmt.isAssignment = true → e.isValue = true) ∧
      ∀ v key, e = .value v → stores rule.getShardingColumn e key →
      rule.findTableIndex key = rule.findTableIndex v.value

theorem shardingColumnIndex_eq_some {i k : Nat} {found : Option Nat} {cs : List ColumnName}
    (h : shardingColumnIndex column i found cs = some k) :
    found = some k ∨ ∃ m c, k = i + m ∧ cs[m]? = some c ∧ c.name.l = column := by
  induction cs generalizing i found with
  | nil => exact .inl h
  | cons c cs ih =>
    rcases ih h with hfound | ⟨m, c', rfl, hm, hc'⟩
    · split at hfound
      · next hc => exact .inr ⟨0, c, by simpa using (Option.some.inj hfound).symm, rfl, hc⟩
      · exact .inl hfound
    · exact .inr ⟨m + 1, c', by omega, by simpa using hm, hc'⟩

section Insert

variable {rule : Rule} {stmt₁ : InsertStmt Parsed} {k : Nat} {plan : InsertPlan}

theorem InsertSteps.target {isAssignmentMode : Bool} (h : InsertSteps rule isAssignmentMode stmt₁ k plan) :
    ∃ c, (plan.stmt.targets isAssignmentMode)[k]? = some c ∧ c.name.l = rule.getShardingColumn := by
  rcases shardingColumnIndex_eq_some h.column with hnone | ⟨m, c, rfl, hm, hc⟩
  · cases hnone
  · refine ⟨c.bare, ?_, hc⟩
    rw [h.columns, getElem?_map, Nat.zero_add, hm]
    rfl

theorem InsertSteps.route_of_set (h : InsertSteps rule true stmt₁ k plan) {v : Datum}
    (hv : stmt₁.setlist[k]?.map Assignment.expr = some (.value v)) :
    ∃ j, rule.findTableIndex v.value = .ok j ∧ ∀ i ∈ plan.info.result.indexes, i = j := by
  obtain ⟨p, stmt₂, _, _, hexprs, _, hvalues⟩ := h.values
  unfold handleInsertValues at hvalues
  simp only [if_true] at hvalues
  obtain ⟨p', hset, hvalues⟩ := bind_eq_ok.1 hvalues
  obtain ⟨_, hinfo⟩ := Prod.mk.inj (Except.ok.inj hvalues)
  have hv' : stmt₂.setlist[k]?.map Assignment.expr = some (.value v) := by
    rw [← getElem?_map, hexprs, getElem?_map, hv]
  obtain ⟨a, ha, hav⟩ := Option.map_eq_some_iff.1 hv'
  unfold handleInsertSetlist at hset
  rw [ha] at hset
  simp only [hav] at hset
  obtain ⟨j, hj, hset⟩ := bind_eq_ok.1 hset
  cases hset
  refine ⟨j, (literalIndex_eq_ok hj).2, ?_⟩
  intro i hi
  rw [← hinfo] at hi
  exact mem_singleton.1 (mem_of_mem_interList hi).2

theorem InsertSteps.placed {stores : String → Expr Parsed → GoVal → Prop} {isAssignmentMode : Bool}
    (h : InsertSteps rule isAssignmentMode stmt₁ k plan)
    (hkeys : ∀ e ∈ stmt₁.valuesAt isAssignmentMode k, (isAssignmentMode = true → e.isValue = true) ∧
      ∀ v key, e = .value v → stores rule.getShardingColumn e key →
        rule.findTableIndex key = rule.findTableIndex v.value)
    {i : Int} (hi : i ∈ plan.info.result.indexes) {r : Row} (hr : Inserted stores plan.stmt i r) :
    rule.findTableIndex (r rule.getShardingColumn) = .ok i := by
  obtain ⟨c, hc, hname⟩ := h.target
  unfold Inserted at hr
  rw [h.mode] at hr
  cases isAssignmentMode with
  | true =>
    rw [if_pos rfl] at hr
    obtain ⟨a, ha, rfl⟩ : ∃ a, plan.stmt.setlist[k]? = some a ∧ a.column = c := by
      rw [InsertStmt.targets, if_pos rfl, getElem?_map] at hc
      exact Option.map_eq_some_iff.1 hc
    have hexpr : stmt₁.setlist[k]?.map Assignment.expr = some a.expr := by
      obtain ⟨p, stmt₂, _, _, hexprs, hset, _⟩ := h.values
      rw [← getElem?_map, ← hexprs, getElem?_map, ← hset, ha]
      rfl
    obtain ⟨hvalue, hkey⟩ := hkeys a.expr (by simp [InsertStmt.valuesAt, hexpr])
    cases hv : a.expr with
    | value v =>
      rw [hv] at hexpr
      obtain ⟨j, hj, hroute⟩ := h.route_of_set hexpr
      have hstored := hr a (mem_of_getElem? ha)
      rw [hname] at hstored
      rw [hkey v _ hv hstored, hj, hroute i hi]
    | _ => simp [hv, Expr.isValue] at hvalue
  | false =>
    rw [if_neg Bool.false_ne_true] at hr
    obtain ⟨row, hrow, hstores⟩ := hr
    rw [h.valuesPlan.rowsAt, mem_filter, decide_eq_true_eq] at hrow
    obtain ⟨hmem, hindex⟩ := hrow
    obtain ⟨v, hv, hfind⟩ := literalRowIndex_eq_some.1 hindex
    rw [InsertStmt.targets, if_neg Bool.false_ne_true] at hc
    have hstored := hstores k c _ hc hv
    rw [hname] at hstored
    have hvalue : Expr.value v ∈ stmt₁.valuesAt false k := by
      rw [InsertStmt.valuesAt, if_neg Bool.false_ne_true, mem_filterMap]
      exact ⟨row, hmem, hv⟩
    rw [(hkeys _ hvalue).2 v _ rfl hstored, hfind]

end Insert

/-! ### Updates -/

theorem update_keeps_key {order : MapOrder} {stmt : UpdateStmt Parsed}
    {plan : ModifyPlan (UpdateStmt Planned)} {n : TableName} {asName : CIStr}
    (hrefs : stmt.tableRefs = singleTable n asName) (hrule : router.getShardRule db n.name.l = some rule)
    (hg : rule.getType ≠ .global) (hplan : handleUpdatePlan (newTableAliasStmtInfo db router order) stmt = .ok plan) :
    ∀ a ∈ plan.stmt.list, a.column.name.l ≠ rule.getShardingColumn := by
  cases updateRun_of_ok hplan with
  | mk htable hlist _ _ _ hplanned _ =>
    rw [hrefs] at htable
    have hp := singleTable_of_handleJoin hrule hg htable
    subst hplanned
    intro b hb
    obtain ⟨a, _, hab⟩ := exists_of_mem (mapM_eq_ok.1 hlist).flip hb
    unfold handleUpdateAssignment at hab
    obtain ⟨d, hd, hab⟩ := bind_eq_ok.1 hab
    intro hkey
    -- the planner finds the rule of the sharding column, and refuses it
    have hname : a.column.name.l = rule.getShardingColumn := by
      cases d with
      | none =>
        cases hab
        exact hkey
      | some d =>
        simp only at hab
        split at hab
        · cases hab
        · cases hab
          exact hkey
    obtain ⟨isAlias, rfl⟩ := hp.resolve_key hname hd
    simp [hname] at hab

/-! ### The invariant -/

theorem changesOnly.key {columns : List String} {r r' : Row} (h : changesOnly columns r r')
    (hc : ∀ c ∈ columns, c ≠ column) : r' column = r column :=
  h column fun hmem => hc column hmem rfl

/-- Every row lies in the sub-table of its key. -/
def Placed (rule : Rule) (T : Tables) : Prop :=
  ∀ i, ∀ r ∈ T i, rule.findTableIndex (r rule.getShardingColumn) = .ok i

theorem Step.placed {stores : String → Expr Parsed → GoVal → Prop} {table : String}
    (hrule : router.getShardRule db table = some rule) (hg : rule.getType ≠ .global) {T T' : Tables}
    (h : Step stores db router table (RoutedByKey stores rule) T T') (hT : Placed rule T) : Placed rule T' := by
  cases h with
  | @insert order seqs stmt plan n asName tail hname hrefs hok hplan heffect hframe =>
    subst hname
    obtain ⟨stmt₁, k, hseq, hsteps⟩ := insertSteps_of_ok hrefs hrule hg hplan
    intro i r' hr'
    by_cases hi : i ∈ plan.info.result.indexes
    · obtain ⟨r, hr, hchanges⟩ := heffect i hi r' hr'
      rw [hchanges.key (forall_mem_map.2 hsteps.duplicates)]
      rcases hr with hr | hr
      · exact hT i r hr
      · exact hsteps.placed (hok stmt₁ k hseq hsteps.column) hi hr
    · rw [hframe i hi] at hr'
      exact hT i r' hr'
  | @update order stmt plan n asName hname hrefs hplan heffect hframe =>
    subst hname
    intro i r' hr'
    by_cases hi : i ∈ plan.info.result.indexes
    · obtain ⟨r, hr, hchanges⟩ := heffect i hi r' hr'
      rw [hchanges.key (forall_mem_map.2 (update_keeps_key hrefs hrule hg hplan))]
      exact hT i r hr
    · rw [hframe i hi] at hr'
      exact hT i r' hr'

/-- From empty sub-tables on, every row lies in the sub-table of its key as long as every `INSERT` is routed by it. -/
theorem reachable_placed (stores : String → Expr Parsed → GoVal → Prop) (db : String) (router : Router)
    (table : String)
    (rule : Rule) (hrule : router.getShardRule db table = some rule) (hg : rule.getType ≠ .global) (T : Tables)
    (h : Reachable stores db router table (RoutedByKey stores rule) T) : Placed rule T := by
  induction h with
  | start => exact fun i r hr => absurd hr (Set.notMem_empty r)
  | step _ hstep ih => exact hstep.placed hrule hg ih

/-- A row with an integer key that was stored by such statements is found again: the route of every `SELECT`, `UPDATE`
and `DELETE` whose `WHERE` is true of it has its sub-table. -/
theorem reachable_row_routed (stores : String → Expr Parsed → GoVal → Prop) (rule : Rule) {n : TableName}
    (hrule : router.getShardRule db n.name.l = some rule) (hg : rule.getType ≠ .global)
    (hshard : (∃ m, rule.getShard = hashShard m) ∨ (∃ m, rule.getShard = modShard m) ∨
      ∃ rs, rule.getShard = numRangeShard rs ∧ Ascending rs ∧ ∀ r ∈ rs, 0 ≤ r.start)
    (hsub : Increasing rule.getSubTableIndexes) {T : Tables}
    (h : Reachable stores db router n.name.l (RoutedByKey stores rule) T) {i : Int} (hi : i ∈ rule.getSubTableIndexes)
    {k : Int} (hk : -2 ^ 63 ≤ k ∧ k < 2 ^ 64) {order : MapOrder} {asName : CIStr} {other : Expr Parsed → Kleene.Truth}
    {e : Expr Parsed} (hdb : ∀ a ∈ e.atoms, a.namesDatabase = false)
    (he : ∀ a ∈ e.atoms, keyAtom intLiteral rule.getShardingColumn a = true)
    (htrue : (rowReading rule.getShardingColumn k intLiteral other).truth e = some true) {indexes : List Int}
    (hroute : WhereRoute db router order n asName e indexes) :
    ∀ r ∈ T i, r rule.getShardingColumn = keyVal k → i ∈ indexes := by
  have hplaced : Placed rule T := by
    induction h with
    | start => exact fun i r hr => absurd hr (Set.notMem_empty r)
    | step _ hstep ih => exact hstep.placed hrule hg ih
  intro r hr hkey
  have hfind := hplaced i r hr
  rw [hkey] at hfind
  have hloc : Locates rule intLiteral k i ∧ StartIsLeast rule intLiteral k i := by
    rcases hshard with ⟨m, hm⟩ | ⟨m, hm⟩ | ⟨rs, hm, hasc, hnn⟩
    · exact locates_hash hm hfind
    · exact locates_mod hm hk.1 hfind
    · exact locates_range hm hasc hnn hk.1 hk.2 hfind
  exact hroute.mem hrule hg (finds_of_increasing hsub hi) hloc.1 hloc.2 hdb he htrue

/-- What literals and sums of two integers evaluate to. -/
def sumValue : Expr Parsed → GoVal
  | .value v => v.value
  | .binary (.other "+") (.value (.int64 a)) (.value (.int64 b)) => .int64 (a + b).toInt
  | _ => .nil

/-- `INSERT INTO t SET id = e`. -/
def insertSet (e : Expr Parsed) : InsertStmt Parsed :=
  { listsAssist := (), tableRefs := singleTable (unqualifiedTable "t") .empty, setlist := [⟨bareColumn "id", e⟩] }

/-- The sub-tables in `indexes` have one row each, with the key `k`. -/
def oneKeyIn (indexes : List Int) (k : GoVal) : Tables := fun i => {r | i ∈ indexes ∧ r = fun _ => k}

theorem step_insertSet {e : Expr Parsed} {ok : Option Sequence → InsertStmt Parsed → Prop}
    (hok : ok none (insertSet e))
    {plan : InsertPlan} (hplan : handleInsertStmt (newStmtInfo "db" hashRouter .insertion) (fun _ _ => none)
      (insertSet e) = .ok plan) (hset : plan.stmt.setlist = [⟨bareColumn "id", e⟩]) :
    Step (fun _ e key => key = sumValue e) "db" hashRouter "t" ok (fun _ => ∅)
      (oneKeyIn plan.info.result.indexes (sumValue e)) := by
  refine .insert (n := unqualifiedTable "t") rfl rfl hok hplan ?_ ?_
  · rintro i _ r' ⟨_, rfl⟩
    refine ⟨_, .inr ?_, fun _ _ => rfl⟩
    rw [Inserted, if_pos (by rw [InsertStmt.isAssignment, hset]; rfl), hset]
    intro a ha
    rw [mem_singleton.1 ha]
  · intro i hi
    ext r
    simp [oneKeyIn, hi]

theorem routedByKey_insertSet :
    RoutedByKey (fun _ e key => key = sumValue e) (.base hashRule) none (insertSet (.value (.int64 5))) := by
  rintro stmt₁ k h₁ hk e he
  cases h₁
  cases hk
  obtain rfl := mem_singleton.1 he
  refine ⟨fun _ => rfl, ?_⟩
  rintro v key hv rfl
  cases hv
  rfl

theorem reachable_placed_set :
    Reachable (fun _ e key => key = sumValue e) "db" hashRouter "t"
      (RoutedByKey (fun _ e key => key = sumValue e) (.base hashRule)) (oneKeyIn [1] (.int64 5)) ∧
    Placed (.base hashRule) (oneKeyIn [1] (.int64 5)) := by
  have h := Reachable.step .start (step_insertSet routedByKey_insertSet rfl rfl)
  exact ⟨h, reachable_placed _ "db" hashRouter "t" (.base hashRule) rfl (by decide) _ h⟩

/-- `id IN (5, 6) AND (c = 1 OR 9 > id)`. -/
def hashCondition : Expr Parsed :=
  .binary .logicAnd (.patternIn () (.column () (bareColumn "id")) [.value (.int64 5), .value (.int64 6)] none false)
    (.paren (.binary .logicOr (.binary .eq (.column () (bareColumn "c")) (.value (.int64 1)))
      (.binary .gt (.value (.int64 9)) (.column () (bareColumn "id")))))

/-- `DELETE FROM t WHERE id IN (5, 6) AND (c = 1 OR 9 > id)`. -/
def hashDelete : DeleteStmt Parsed :=
  { tableRefs := singleTable (unqualifiedTable "t") .empty, cond := some hashCondition }

/-- The row of `INSERT INTO t SET id = 5` is found by `hashDelete`. -/
theorem reachable_row_routed_set : ∃ indexes,
    WhereRoute "db" hashRouter .insertion (unqualifiedTable "t") .empty hashCondition indexes ∧ 1 ∈ indexes := by
  have htrue : (rowReading hashRule.shardingColumn 5 intLiteral fun _ => none).truth hashCondition = some true := by
    decide
  obtain ⟨indexes, hroute⟩ : ∃ indexes, WhereRoute "db" hashRouter .insertion
    (unqualifiedTable "t") .empty hashCondition indexes := ⟨_, .delete hashDelete _ rfl rfl rfl⟩
  have h := Reachable.step .start (step_insertSet routedByKey_insertSet rfl rfl)
  exact ⟨indexes, hroute, reachable_row_routed _ (.base hashRule) rfl (by decide) (.inl ⟨4, rfl⟩)
    (by decide) h (i := 1)
    (by decide) (k := 5) (by decide) (by decide) (by decide) htrue hroute (fun _ => .int64 5)
    (.intro (by decide) rfl) rfl⟩

/-- `INSERT INTO t SET id = 1 + 1` stores a row with key 2 in every sub-table. -/
theorem insertSet_misplaces_row : ∃ T r,
    Reachable (fun _ e key => key = sumValue e) "db" hashRouter "t" (fun _ _ => True) T ∧ r ∈ T 0 ∧
    r "id" = .int64 2 ∧ (Rule.base hashRule).findTableIndex (.int64 2) = .ok 2 := by
  have h : Reachable (fun _ e key => key = sumValue e) "db" hashRouter "t" (fun _ _ => True) _ :=
    .step .start (step_insertSet (e := .binary (.other "+") (.value (.int64 1)) (.value (.int64 1))) trivial rfl rfl)
  exact ⟨_, fun _ => .int64 2, h, ⟨by decide, rfl⟩, rfl, rfl⟩

end DbProxy
