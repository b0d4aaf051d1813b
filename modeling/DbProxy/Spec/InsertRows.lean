import DbProxy.Plan.Insert
import DbProxy.Spec.IntegerKeys

/-!
# The rows of an `INSERT`

Where the rows of `INSERT … VALUES` go.  The planner files every row whose sharding value is a literal under the index
of that value, and the statement for an index has the rows filed there, in their order.  Rows with another sharding
value, and rows for an index that is not configured, are in no statement, and nothing is reported.
-/

namespace DbProxy

open Fallible List

/-! ### The table of an `INSERT` -/

variable {db : String} {router : Router} {order : MapOrder} {n : TableName} {asName : CIStr}
  {tail : JoinTail (TableSource Parsed) Parsed}

section Table

variable {t : InsertTable} {p : StmtInfo}

theorem handleInsertTableRefs_eq_ok
    (h : handleInsertTableRefs (newStmtInfo db router order) (.ofSource (.table () n asName) tail) = .ok (t, p)) :
    t.table = n.name.l ∧ router.getShardRule db n.name.l = some t.rule ∧ p.db = db ∧ p.router = router ∧
      (t.rule.getType ≠ .global →
        p.result = ⟨t.rule.getDB, StmtInfo.ruleTable t.rule, t.rule.getSubTableIndexes⟩) := by
  unfold handleInsertTableRefs at h
  split at h
  · cases h
  · simp only at h
    obtain ⟨⟨rule, p₁⟩, hrecord, h⟩ := bind_eq_ok.1 h
    rw [wrapErr_eq_ok] at hrecord
    simp only at h
    split at h
    · cases h
      obtain ⟨hrule, hcheck⟩ := StmtInfo.recordShardTable_eq_ok hrecord
      have hset : ((newStmtInfo db router order).recordRule n.name.l rule).db = db ∧
          ((newStmtInfo db router order).recordRule n.name.l rule).router = router ∧
          ((newStmtInfo db router order).recordRule n.name.l rule).result = {} := by
        unfold StmtInfo.recordRule
        split <;> exact ⟨rfl, rfl, rfl⟩
      obtain ⟨hdb, hrouter, hresult⟩ := hset
      refine ⟨rfl, hrule, ?_, ?_, ?_⟩
      · rcases StmtInfo.checkStmtRouteResult_eq_ok hcheck with rfl | ⟨_, _, _, rfl⟩ <;> exact hdb
      · rcases StmtInfo.checkStmtRouteResult_eq_ok hcheck with rfl | ⟨_, _, _, rfl⟩ <;> exact hrouter
      · intro hg
        rw [StmtInfo.checkStmtRouteResult_fresh hg (by rw [hresult]) (by rw [hresult]) hcheck]
    · cases h

end Table

/-! ### Filing rows -/

/-- The index under which a row is filed, if its sharding value is a literal. -/
def literalRowIndex (rule : Rule) (k : Nat) (row : List (Expr Parsed)) : Option Int :=
  match row[k]? with
  | some (.value v) => (rule.findTableIndex v.value).toOption
  | _ => none

variable {rule : Rule} {k : Nat}

theorem literalRowIndex_eq_some {row : List (Expr Parsed)} {i : Int} :
    literalRowIndex rule k row = some i ↔ ∃ v, row[k]? = some (.value v) ∧ rule.findTableIndex v.value = .ok i := by
  unfold literalRowIndex
  split
  · next v hv =>
    cases hfind : rule.findTableIndex v.value <;> simp [hv, hfind, Except.toOption]
  · next hno =>
    simp only [reduceCtorEq, false_iff]
    rintro ⟨v, hv, _⟩
    exact hno v hv

theorem literalIndex_eq_ok {v : Datum} {i : Int} (h : literalIndex rule v = .ok i) :
    v.value ≠ .nil ∧ rule.findTableIndex v.value = .ok i := by
  unfold literalIndex at h
  split at h
  · cases h
  · next hne => exact ⟨hne, wrapErr_eq_ok.1 h⟩

theorem fileRows_eq_ok {rows : List (List (Expr Parsed))} {s s' : Filing Int (List (Expr Parsed))}
    (h : fileRows rule k s rows = .ok s') :
    s' = s.fileAll (rows.filterMap fun row => (literalRowIndex rule k row).map fun i => (i, row)) := by
  induction rows generalizing s with
  | nil => exact (Except.ok.inj h).symm
  | cons row rows ih =>
    unfold fileRows at h
    split at h
    · cases h
    · next v hv =>
      obtain ⟨i, hi, h⟩ := bind_eq_ok.1 h
      have hindex : literalRowIndex rule k row = some i :=
        literalRowIndex_eq_some.2 ⟨v, hv, (literalIndex_eq_ok hi).2⟩
      rw [ih h, filterMap_cons_some (by rw [hindex]; rfl)]
      rfl
    · next e hno he =>
      have hindex : literalRowIndex rule k row = none := by
        rw [Option.eq_none_iff_forall_ne_some]
        intro i hi
        obtain ⟨v, hv, _⟩ := literalRowIndex_eq_some.1 hi
        exact hno v (Option.mem_unique he hv)
      rw [ih h, filterMap_cons_none (by rw [hindex]; rfl)]

theorem get_filedRows (rows : List (List (Expr Parsed))) (i : Int) :
    ((Filing.empty : Filing Int (List (Expr Parsed))).fileAll
      (rows.filterMap fun row => (literalRowIndex rule k row).map fun i => (i, row))).get i =
      rows.filter (fun row => literalRowIndex rule k row = some i) := by
  rw [Filing.get_fileAll, Filing.get_empty, nil_append]
  induction rows with
  | nil => rfl
  | cons row rows ih =>
    cases hindex : literalRowIndex rule k row with
    | none => simpa [filterMap_cons, hindex] using ih
    | some j => by_cases hj : j = i <;> simpa [filterMap_cons, hindex, hj] using ih

theorem mem_order_filedRows (rows : List (List (Expr Parsed))) (i : Int) :
    i ∈ ((Filing.empty : Filing Int (List (Expr Parsed))).fileAll
      (rows.filterMap fun row => (literalRowIndex rule k row).map fun i => (i, row))).order ↔
      ∃ row ∈ rows, literalRowIndex rule k row = some i := by
  rw [Filing.mem_order_fileAll]
  simp [Filing.empty, mem_filterMap]

/-! ### The plan of an `INSERT … VALUES` -/

def InsertStmt.isAssignment {P : Phase} (stmt : InsertStmt P) : Bool := !stmt.setlist.isEmpty

theorem precheckInsertStmt_eq_ok {stmt : InsertStmt Parsed} {isAssignmentMode : Bool}
    (h : precheckInsertStmt stmt = .ok isAssignmentMode) : isAssignmentMode = stmt.isAssignment := by
  unfold precheckInsertStmt at h
  unfold InsertStmt.isAssignment
  split at h
  · cases h
  · cases hset : stmt.setlist.isEmpty with
    | false =>
      simp only [hset, Bool.not_false, if_true] at h
      exact (Except.ok.inj h).symm
    | true =>
      simp only [hset, Bool.not_true, Bool.false_eq_true, if_false] at h
      split at h
      · cases h
      · split at h
        · cases h
        · split at h
          · cases h
          · exact (Except.ok.inj h).symm

theorem sequenceAssignments_length {seq : Sequence} {as bs : List Assignment}
    (h : sequenceAssignments seq as = .ok bs) : bs.length = as.length := by
  induction as generalizing bs with
  | nil =>
    cases h
    rfl
  | cons a as ih =>
    unfold sequenceAssignments at h
    split at h
    · obtain ⟨id, _, h⟩ := bind_eq_ok.1 h
      cases h
      rfl
    · obtain ⟨bs', hbs', h⟩ := bind_eq_ok.1 h
      cases h
      rw [length_cons, length_cons, ih hbs']

theorem handleInsertGlobalSequenceValue_eq_ok {seq : Option Sequence} {isAssignmentMode : Bool}
    {stmt stmt₁ : InsertStmt Parsed} (h : handleInsertGlobalSequenceValue seq isAssignmentMode stmt = .ok stmt₁) :
    ∃ lists setlist, stmt₁ = { stmt with lists, setlist } ∧ setlist.length = stmt.setlist.length := by
  unfold handleInsertGlobalSequenceValue at h
  cases seq with
  | none => exact ⟨stmt.lists, stmt.setlist, (Except.ok.inj h).symm, rfl⟩
  | some seq =>
    simp only at h
    split at h
    · obtain ⟨setlist, hset, h⟩ := bind_eq_ok.1 h
      exact ⟨stmt.lists, setlist, (Except.ok.inj h).symm, sequenceAssignments_length hset⟩
    · split at h
      · exact ⟨stmt.lists, stmt.setlist, (Except.ok.inj h).symm, rfl⟩
      · obtain ⟨lists, _, h⟩ := bind_eq_ok.1 h
        exact ⟨lists, stmt.setlist, (Except.ok.inj h).symm, rfl⟩

theorem InsertStmt.isAssignment_eq {P Q : Phase} {stmt : InsertStmt P} {stmt' : InsertStmt Q}
    (h : stmt.setlist.length = stmt'.setlist.length) : stmt.isAssignment = stmt'.isAssignment := by
  unfold isAssignment
  cases hs : stmt.setlist <;> cases hs' : stmt'.setlist <;> simp_all

theorem handleInsertOnDuplicate_eq_ok {rule : Rule} {as as' : Option (List Assignment)}
    (h : handleInsertOnDuplicate rule as = .ok as') :
    ∀ a ∈ as'.getD [], a.column.name.l ≠ rule.getShardingColumn := by
  cases as with
  | none =>
    cases h
    simp
  | some as =>
    obtain ⟨bs, hbs, h⟩ := bind_eq_ok.1 h
    cases h
    intro b hb
    obtain ⟨a, _, hab⟩ := exists_of_mem (mapM_eq_ok.1 hbs).flip hb
    unfold handleInsertOnDuplicateAssignment at hab
    split at hab
    · cases hab
    · next hne =>
      cases hab
      exact hne

/-- What the plans of all `INSERT`s on a sharded table have in common.  `stmt₁` has the numbers of a global sequence
in place of `nextval()`; `k` is the place of the sharding column. -/
structure InsertSteps (rule : Rule) (isAssignmentMode : Bool) (stmt₁ : InsertStmt Parsed) (k : Nat)
    (plan : InsertPlan) : Prop where
  mode : plan.stmt.isAssignment = isAssignmentMode
  column : shardingColumnIndex rule.getShardingColumn 0 none (stmt₁.targets isAssignmentMode) = some k
  texts : plan.sqls.map ShardSQL.sql = plan.info.result.indexes.map fun i => (plan.stmt.restore i).toks
  columns : plan.stmt.targets isAssignmentMode = (stmt₁.targets isAssignmentMode).map ColumnName.bare
  duplicates : ∀ a ∈ plan.stmt.onDuplicate.getD [], a.column.name.l ≠ rule.getShardingColumn
  values : ∃ p stmt₂, p.result.indexes = rule.getSubTableIndexes ∧ stmt₂.lists = stmt₁.lists ∧
    stmt₂.setlist.map Assignment.expr = stmt₁.setlist.map Assignment.expr ∧ plan.stmt.setlist = stmt₂.setlist ∧
    handleInsertValues p rule isAssignmentMode k stmt₂ = .ok (plan.stmt.listsAssist, plan.info)

section Plan

variable {seqs : SequenceManager} {stmt stmt₁ : InsertStmt Parsed} {plan : InsertPlan}

theorem insertSteps_of_ok (hrefs : stmt.tableRefs = .ofSource (.table () n asName) tail)
    (hrule : router.getShardRule db n.name.l = some rule) (hg : rule.getType ≠ .global)
    (hplan : handleInsertStmt (newStmtInfo db router order) seqs stmt = .ok plan) :
    ∃ stmt₁ k, handleInsertGlobalSequenceValue (seqs db n.name.l) stmt.isAssignment stmt = .ok stmt₁ ∧
      InsertSteps rule stmt.isAssignment stmt₁ k plan := by
  cases insertRun_of_ok hplan with
  | onGlobal hmode htable hg' h =>
    rw [hrefs] at htable
    obtain ⟨_, hrule', _⟩ := handleInsertTableRefs_eq_ok htable
    obtain rfl := Option.mem_unique hrule hrule'
    exact absurd hg' hg
  | @onSharded mode t p₁ p₂ stmt₁ stmt₂ k onDuplicate listsAssist planned sqls hmode htable _ hseq hcolumns hduplicate
      hvalues hplanned hsqls =>
    rw [hrefs] at htable
    obtain ⟨htableName, hrule', hdb, _, hresult⟩ := handleInsertTableRefs_eq_ok htable
    obtain rfl := Option.mem_unique hrule hrule'
    obtain rfl := precheckInsertStmt_eq_ok hmode
    rw [hdb, htableName] at hseq
    have hindexes : p₁.result.indexes = t.rule.getSubTableIndexes := by rw [hresult hg]
    have htexts := (generateShardingSQLs_eq_ok hsqls).2
    have hduplicates := handleInsertOnDuplicate_eq_ok hduplicate
    have hlength : stmt₁.setlist.length = stmt.setlist.length := by
      obtain ⟨lists, setlist, rfl, hlength⟩ := handleInsertGlobalSequenceValue_eq_ok hseq
      exact hlength
    refine ⟨stmt₁, k, hseq, ?_⟩
    subst hplanned
    unfold handleInsertColumnNames at hcolumns
    split at hcolumns
    · cases hcolumns
    next k' hk =>
    -- the names lose their qualifiers, the values stay
    split at hcolumns
    · next hset =>
      cases hcolumns
      refine ⟨InsertStmt.isAssignment_eq ?_, hk, htexts, ?_, hduplicates, p₁, _, hindexes, ?_, ?_, ?_, hvalues⟩
      · simpa [InsertStmt.planned] using hlength
      · simp [InsertStmt.targets, InsertStmt.planned, hset]
      · rfl
      · simp
      · rfl
    · next hset =>
      cases hcolumns
      refine ⟨InsertStmt.isAssignment_eq hlength, hk, htexts, ?_, hduplicates, p₁, _, hindexes, ?_, ?_, ?_, hvalues⟩
      · simp [InsertStmt.targets, InsertStmt.planned, hset]
      · rfl
      · rfl
      · rfl

/-- What the plan of an `INSERT … VALUES` on a sharded table holds: for each index of the route a statement, with the
rows that were filed under the index. -/
structure ValuesPlan (rule : Rule) (k : Nat) (rows : List (List (Expr Parsed))) (plan : InsertPlan) : Prop where
  rowsAt : ∀ i, plan.stmt.rowsAt i = rows.filter fun row => literalRowIndex rule k row = some i
  increasing : Increasing rule.getSubTableIndexes → Increasing plan.info.result.indexes
  mem_route : Increasing rule.getSubTableIndexes → ∀ i, i ∈ plan.info.result.indexes ↔
    i ∈ rule.getSubTableIndexes ∧ ∃ row ∈ rows, literalRowIndex rule k row = some i

theorem InsertSteps.valuesPlan (h : InsertSteps rule false stmt₁ k plan) : ValuesPlan rule k stmt₁.lists plan := by
  obtain ⟨p, stmt₂, hindexes, hlists, _, _, hvalues⟩ := h.values
  unfold handleInsertValues at hvalues
  simp only [Bool.false_eq_true, if_false] at hvalues
  obtain ⟨⟨d, p'⟩, hvalues', hvalues⟩ := bind_eq_ok.1 hvalues
  obtain ⟨hassist, hinfo⟩ := Prod.mk.inj (Except.ok.inj hvalues)
  obtain ⟨filed, hfiled, hd⟩ := bind_eq_ok.1 hvalues'
  rw [hlists] at hfiled
  have hfiled := fileRows_eq_ok hfiled
  simp only at hd
  split at hd
  · cases hd
  · cases hd
    have hroute : plan.info.result.indexes = interList rule.getSubTableIndexes (sortInts filed.order) := by
      rw [← hinfo, ← hindexes]
      rfl
    have hinc : Increasing (sortInts filed.order) := increasing_sortInts filed.nodup
    refine ⟨?_, ?_, ?_⟩
    · intro i
      rw [InsertStmt.rowsAt, ← hassist, ← get_filedRows, ← hfiled]
      rfl
    · intro hsub
      rw [hroute]
      exact increasing_interList hsub hinc
    · intro hsub i
      rw [hroute, mem_interList hsub hinc, mem_sortInts, hfiled, mem_order_filedRows]

end Plan

/-! ### Conservation of rows -/

/-- The index of a row, when `eval` says what its sharding value evaluates to. -/
def rowIndex (rule : Rule) (k : Nat) (eval : Expr Parsed → GoVal) (row : List (Expr Parsed)) : Option Int :=
  row[k]?.bind fun e => (rule.findTableIndex (eval e)).toOption

/-- Every row is in the statement for its index and in no other one, in the order of the statement, and there are no
other rows. -/
structure RowsConserved (plan : InsertPlan) (index : List (Expr Parsed) → Option Int)
    (rows : List (List (Expr Parsed))) : Prop where
  texts : plan.sqls.map ShardSQL.sql = plan.info.result.indexes.map fun i => (plan.stmt.restore i).toks
  once : plan.info.result.indexes.Nodup
  sent : ∀ i ∈ plan.info.result.indexes, plan.stmt.rowsAt i = rows.filter fun row => index row = some i
  all : ∀ row ∈ rows, ∃ i ∈ plan.info.result.indexes, index row = some i

/-- An accepted `INSERT … VALUES` on a sharded table conserves its rows, exactly when every sharding value is a
literal and its index is configured.  `stmt₁` has the numbers of a global sequence in place of `nextval()`. -/
theorem insert_rows_conserved_iff (db : String) (router : Router) (order : MapOrder) (seqs : SequenceManager)
    (stmt stmt₁ : InsertStmt Parsed) (hset : stmt.setlist = []) (n : TableName) (asName : CIStr)
    (tail : JoinTail (TableSource Parsed) Parsed) (hrefs : stmt.tableRefs = .ofSource (.table () n asName) tail)
    (rule : Rule) (hrule : router.getShardRule db n.name.l = some rule) (hg : rule.getType ≠ .global)
    (hsub : Increasing rule.getSubTableIndexes)
    (hseq : handleInsertGlobalSequenceValue (seqs db n.name.l) false stmt = .ok stmt₁) (k : Nat)
    (hk : shardingColumnIndex rule.getShardingColumn 0 none stmt.columns = some k) (eval : Expr Parsed → GoVal)
    (heval : ∀ v, eval (.value v) = v.value) (plan : InsertPlan)
    (hplan : handleInsertStmt (newStmtInfo db router order) seqs stmt = .ok plan) :
    RowsConserved plan (rowIndex rule k eval) stmt₁.lists ↔
      ∀ row ∈ stmt₁.lists, ∃ v i, row[k]? = some (.value v) ∧ rule.findTableIndex v.value = .ok i ∧
        i ∈ rule.getSubTableIndexes := by
  have hmode : stmt.isAssignment = false := by simp [InsertStmt.isAssignment, hset]
  obtain ⟨stmt₁', k', hseq', hsteps⟩ := insertSteps_of_ok hrefs hrule hg hplan
  rw [hmode] at hseq' hsteps
  obtain rfl : stmt₁ = stmt₁' := ok_unique hseq hseq'
  have hcolumns : stmt₁.columns = stmt.columns := by
    obtain ⟨lists, setlist, rfl, _⟩ := handleInsertGlobalSequenceValue_eq_ok hseq
    rfl
  obtain rfl : k = k' := by
    have hk' := hsteps.column
    rw [InsertStmt.targets, if_neg Bool.false_ne_true, hcolumns, hk] at hk'
    exact Option.some.inj hk'
  have hp := hsteps.valuesPlan
  constructor
  · intro h row hrow
    obtain ⟨i, hi, hindex⟩ := h.all row hrow
    -- the statement for `i` has the row, so the row was filed there
    have hmem : row ∈ plan.stmt.rowsAt i := by
      rw [h.sent i hi, mem_filter]
      exact ⟨hrow, by simpa using hindex⟩
    rw [hp.rowsAt, mem_filter, decide_eq_true_eq] at hmem
    obtain ⟨v, hv, hfind⟩ := literalRowIndex_eq_some.1 hmem.2
    exact ⟨v, i, hv, hfind, ((hp.mem_route hsub i).1 hi).1⟩
  · intro h
    have hindex : ∀ row ∈ stmt₁.lists, rowIndex rule k eval row = literalRowIndex rule k row := by
      intro row hrow
      obtain ⟨v, i, hv, hfind, _⟩ := h row hrow
      simp [rowIndex, literalRowIndex, hv, heval]
    refine ⟨hsteps.texts, (hp.increasing hsub).imp ne_of_lt, ?_, ?_⟩
    · intro i _
      rw [hp.rowsAt]
      apply filter_congr
      intro row hrow
      rw [hindex row hrow]
    · intro row hrow
      obtain ⟨v, i, hv, hfind, hi⟩ := h row hrow
      have hliteral := literalRowIndex_eq_some.2 ⟨v, hv, hfind⟩
      exact ⟨i, (hp.mem_route hsub i).2 ⟨hi, row, hrow, hliteral⟩, by rw [hindex row hrow, hliteral]⟩

/-- `INSERT INTO t (id) VALUES (e₁), (e₂), …`. -/
def insertIds (es : List (Expr Parsed)) : InsertStmt Parsed :=
  { listsAssist := (), tableRefs := singleTable (unqualifiedTable "t") .empty, columns := [bareColumn "id"]
    lists := es.map fun e => [e] }

theorem insert_rows_conserved_literals : ∃ plan,
    handleInsertStmt (newStmtInfo "db" hashRouter .insertion) (fun _ _ => none)
      (insertIds [.value (.int64 5), .value (.int64 6), .value (.int64 9)]) = .ok plan ∧
    RowsConserved plan (rowIndex (.base hashRule) 0 fun
      | .value v => v.value
      | _ => .nil) (insertIds [.value (.int64 5), .value (.int64 6), .value (.int64 9)]).lists := by
  refine exists_ok ⟨_, rfl⟩ fun plan hplan =>
    (insert_rows_conserved_iff "db" hashRouter .insertion (fun _ _ => none) _ _ rfl
    (unqualifiedTable "t") .empty {} rfl (.base hashRule) rfl (by decide) (by decide) rfl 0 rfl _ (fun _ => rfl) plan
    hplan).2 ?_
  intro row hrow
  simp only [insertIds, map_cons, map_nil, mem_cons, not_mem_nil, or_false] at hrow
  rcases hrow with rfl | rfl | rfl
  · exact ⟨.int64 5, 1, rfl, rfl, by decide⟩
  · exact ⟨.int64 6, 2, rfl, rfl, by decide⟩
  · exact ⟨.int64 9, 1, rfl, rfl, by decide⟩

/-- The literal `-6` is a unary operation. -/
def minusSix : Expr Parsed := .node "*ast.UnaryOperationExpr" [.text (.text "-"), .value (.int64 6)]

/-- `INSERT INTO t (id) VALUES (5), (-6)` is accepted, and the row with -6 is in no statement. -/
theorem insertNegative_loses_row : ∃ plan,
    handleInsertStmt (newStmtInfo "db" hashRouter .insertion) (fun _ _ => none)
      (insertIds [.value (.int64 5), minusSix]) = .ok plan ∧
    plan.info.result.indexes = [1] ∧ plan.sqls.length = 1 ∧ plan.stmt.rowsAt 1 = [[.value (.int64 5)]] :=
  ⟨_, rfl, rfl, rfl, rfl⟩

end DbProxy
