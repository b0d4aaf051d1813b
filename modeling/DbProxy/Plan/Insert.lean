import DbProxy.Plan.Modify

/-!
# Planning `INSERT` and `REPLACE`

`HandleInsertStmt` sends each row of `VALUES` to the sub-table of its sharding value, and a `SET` to the sub-table of
the one value that it assigns.  A `nextval()` in the column of a global sequence is replaced by the next number first.
Only literals are routed: a row whose sharding value is any other expression is not filed at all, and a `SET` with
such a value keeps all indexes.
-/

namespace DbProxy

open Fallible

/-- A global sequence: its column, and what each further call of `NextSeq` returns. -/
structure Sequence where
  pkName : String
  nextSeq : Nat → Except Fail Int64

/-- `SequenceManager.GetSequence`. -/
abbrev SequenceManager := String → String → Option Sequence

/-- `precheckInsertStmt`: whether the statement is in assignment mode. -/
def precheckInsertStmt (stmt : InsertStmt Parsed) : Except Fail Bool :=
  if stmt.select then .error (.error "select in insert not allowed")
  else if !stmt.setlist.isEmpty then .ok true
  else if stmt.columns.isEmpty then .error (.error "insert or replace must specify columns")
  else match stmt.lists with
    | [] => .error (.panic "index out of range")
    | values :: _ =>
      if stmt.columns.length ≠ values.length then .error (.error "column count doesn't match value count")
      else .ok false

/-! ### The table -/

/-- The table of the statement with its rule, and the reference with the rule as its decorator. -/
structure InsertTable where
  table : String
  rule : Rule
  tableRefs : Join (TableSource Planned) Planned

def handleInsertTableRefs (p : StmtInfo) (j : Join (TableSource Parsed) Parsed) :
    Except Fail (InsertTable × StmtInfo) :=
  if j.tail.right.isSome then .error (.error "have multi tables in insert")
  else match j with
    | .ofJoin _ _ => .error (.error "not a table source")
    | .ofSource (.select _ _) _ => .error (.panic "interface conversion")
    | .ofSource (.table _ n asName) t => do
      let (rule, p) ← wrapErr
        ("check table name need to decorate error: record shard table in SelectPlan error, db: " ++
        n.schema.o ++ ", table, " ++ n.name.l ++ ", err: ") (p.recordShardTable n.schema.o n.name.l)
      if n.partitionNames.isEmpty then
        .ok ({ table := n.name.l, rule
               tableRefs := .ofSource (.table rule n asName)
                 { tp := t.tp, natural := t.natural, straight := t.straight, on := t.on.map Expr.untouched
                   using_ := t.using_ } }, p)
      else
        .error (.error "create table name decorator error: TableName does not support PartitionNames in sharding")

/-! ### Global sequences -/

def Expr.isNextval : Expr Parsed → Bool
  | .funcCall fnName _ => fnName.l = "nextval"
  | _ => false

/-- The loop over `SET`: the first `nextval()` that is assigned to the column of the sequence is replaced. -/
def sequenceAssignments (seq : Sequence) : List Assignment → Except Fail (List Assignment)
  | [] => .ok []
  | a :: as =>
    if a.column.name.l = seq.pkName ∧ a.expr.isNextval = true then do
      let id ← wrapErr "get next seq error: " (seq.nextSeq 0)
      .ok ({ a with expr := .value (.int64 id) } :: as)
    else do
      let as ← sequenceAssignments seq as
      .ok (a :: as)

/-- The loop over `VALUES`: every `nextval()` in column `k` is replaced.  `n` counts the numbers taken so far. -/
def sequenceRows (seq : Sequence) (k n : Nat) : List (List (Expr Parsed)) → Except Fail (List (List (Expr Parsed)))
  | [] => .ok []
  | row :: rows => match row[k]? with
    | none => .error (.panic "index out of range")
    | some e =>
      if e.isNextval then do
        let id ← wrapErr "get next seq error: " (seq.nextSeq n)
        let rows ← sequenceRows seq k (n + 1) rows
        .ok (row.set k (.value (.int64 id)) :: rows)
      else do
        let rows ← sequenceRows seq k n rows
        .ok (row :: rows)

def handleInsertGlobalSequenceValue (seq : Option Sequence) (isAssignmentMode : Bool) (stmt : InsertStmt Parsed) :
    Except Fail (InsertStmt Parsed) :=
  match seq with
  | none => .ok stmt
  | some seq =>
    if isAssignmentMode then do
      let setlist ← sequenceAssignments seq stmt.setlist
      .ok { stmt with setlist }
    else match stmt.columns.findIdx? (fun c => c.name.l = seq.pkName) with
      | none => .ok stmt
      | some k => do
        let lists ← sequenceRows seq k 0 stmt.lists
        .ok { stmt with lists }

/-! ### Columns -/

/-- The loop that looks for the sharding column; a later match replaces an earlier one. -/
def shardingColumnIndex (column : String) (i : Nat) (found : Option Nat) : List ColumnName → Option Nat
  | [] => found
  | c :: cs => shardingColumnIndex column (i + 1) (if c.name.l = column then some i else found) cs

/-- The names that the statement gives values to. -/
def InsertStmt.targets {P : Phase} (stmt : InsertStmt P) (isAssignmentMode : Bool) : List ColumnName :=
  if isAssignmentMode then stmt.setlist.map Assignment.column else stmt.columns

def handleInsertColumnNames (rule : Rule) (isAssignmentMode : Bool) (stmt : InsertStmt Parsed) :
    Except Fail (Nat × InsertStmt Parsed) :=
  match shardingColumnIndex rule.getShardingColumn 0 none (stmt.targets isAssignmentMode) with
  | none => .error (.error "sharding column not found")
  | some k =>
    if isAssignmentMode then
      .ok (k, { stmt with setlist := stmt.setlist.map fun a => { a with column := a.column.bare } })
    else .ok (k, { stmt with columns := stmt.columns.map ColumnName.bare })

def handleInsertOnDuplicateAssignment (column : String) (a : Assignment) : Except Fail Assignment :=
  if a.column.name.l = column then .error (.error "routing key in update expression")
  else .ok { a with column := a.column.bare }

def handleInsertOnDuplicate (rule : Rule) : Option (List Assignment) → Except Fail (Option (List Assignment))
  | none => .ok none
  | some as => do
    let as ← as.mapM (handleInsertOnDuplicateAssignment rule.getShardingColumn)
    .ok (some as)

/-! ### Values -/

/-- The index of a sharding value, which must not be NULL. -/
def literalIndex (rule : Rule) (v : Datum) : Except Fail Int :=
  match v.value with
  | .nil => .error (.error "sharding value cannot be null")
  | value => wrapErr "find table index error: " (rule.findTableIndex value)

def handleInsertSetlist (p : StmtInfo) (rule : Rule) (k : Nat) (setlist : List Assignment) : Except Fail StmtInfo :=
  match setlist[k]? with
  | none => .error (.panic "index out of range")
  | some a => match a.expr with
    | .value v => do
      let routeIdx ← literalIndex rule v
      .ok { p with result := p.result.inter [routeIdx] }
    | _ => .ok p

/-- The loop that files the rows; one whose sharding value is not a literal is passed over. -/
def fileRows (rule : Rule) (k : Nat) (s : Filing Int (List (Expr Parsed))) :
    List (List (Expr Parsed)) → Except Fail (Filing Int (List (Expr Parsed)))
  | [] => .ok s
  | row :: rows => match row[k]? with
    | none => .error (.panic "index out of range")
    | some (.value v) => do
      let routeIdx ← literalIndex rule v
      fileRows rule k (s.file routeIdx row) rows
    | some _ => fileRows rule k s rows

def handleInsertLists (p : StmtInfo) (rule : Rule) (k : Nat) (lists : List (List (Expr Parsed))) :
    Except Fail (InsertValuesExprDecorator × StmtInfo) := do
  let filed ← fileRows rule k .empty lists
  let p := { p with result := p.result.inter (sortInts filed.order) }
  if p.result.indexes.isEmpty then .error (.error "batch insert has cross slice values or no route found")
  else .ok (⟨filed.map⟩, p)

def handleInsertValues (p : StmtInfo) (rule : Rule) (isAssignmentMode : Bool) (k : Nat) (stmt : InsertStmt Parsed) :
    Except Fail (Option InsertValuesExprDecorator × StmtInfo) :=
  if isAssignmentMode then do
    let p ← handleInsertSetlist p rule k stmt.setlist
    .ok (none, p)
  else do
    let (d, p) ← handleInsertLists p rule k stmt.lists
    .ok (some d, p)

/-! ### The plan -/

structure InsertPlan where
  info : StmtInfo
  stmt : InsertStmt Planned
  sqls : List ShardSQL

/-- The statement with its table, and its rows for each index, replaced by decorators. -/
def InsertStmt.planned (stmt : InsertStmt Parsed) (tableRefs : Join (TableSource Planned) Planned)
    (listsAssist : Option InsertValuesExprDecorator) : InsertStmt Planned :=
  { listsAssist, isReplace := stmt.isReplace, options := stmt.options, tableRefs, columns := stmt.columns
    lists := stmt.lists, setlist := stmt.setlist, onDuplicate := stmt.onDuplicate, select := stmt.select }

/-- The rows of a global table go to all indexes, as they are. -/
def handleInsertGlobal (p : StmtInfo) (t : InsertTable) (stmt : InsertStmt Parsed) : Except Fail InsertPlan := do
  let p := { p with result := ⟨t.rule.getDB, t.rule.getTable, t.rule.getSubTableIndexes⟩ }
  let stmt := stmt.planned t.tableRefs none
  let sqls ← wrapErr "handleInsertTableRefs error: generate global table insert sql error: "
    (generateShardingSQLs (fun i => stmt.restore i) p.result p.router)
  .ok { info := p, stmt, sqls }

def handleInsertSharded (p : StmtInfo) (seqs : SequenceManager) (t : InsertTable) (isAssignmentMode : Bool)
    (stmt : InsertStmt Parsed) : Except Fail InsertPlan := do
  let stmt ← wrapErr "handleInsertGlobalSequenceValue error: "
    (handleInsertGlobalSequenceValue (seqs p.db t.table) isAssignmentMode stmt)
  let (k, stmt) ← wrapErr "handleInsertColumnNames error: " (handleInsertColumnNames t.rule isAssignmentMode stmt)
  let onDuplicate ← wrapErr "handleInsertOnDuplicate error: " (handleInsertOnDuplicate t.rule stmt.onDuplicate)
  let stmt := { stmt with onDuplicate }
  let (listsAssist, p) ← wrapErr "handleInsertValues error: " (handleInsertValues p t.rule isAssignmentMode k stmt)
  let stmt := stmt.planned t.tableRefs listsAssist
  let sqls ← generateShardingSQLs (fun i => stmt.restore i) p.result p.router
  .ok { info := p, stmt, sqls }

/-- `HandleInsertStmt`. -/
def handleInsertStmt (p : StmtInfo) (seqs : SequenceManager) (stmt : InsertStmt Parsed) : Except Fail InsertPlan := do
  let isAssignmentMode ← precheckInsertStmt stmt
  let (t, p) ← wrapErr "handleInsertTableRefs error: " (handleInsertTableRefs p stmt.tableRefs)
  if t.rule.getType = .global then handleInsertGlobal p t stmt
  else handleInsertSharded p seqs t isAssignmentMode stmt

def newStmtInfo (db : String) (router : Router) (order : MapOrder) : StmtInfo := { db, router, order }

/-- The steps of an `INSERT` that was planned. -/
inductive InsertRun (p : StmtInfo) (seqs : SequenceManager) (stmt : InsertStmt Parsed) : InsertPlan → Prop where
  | onGlobal {isAssignmentMode : Bool} {t : InsertTable} {p₁ : StmtInfo} {plan : InsertPlan}
      (hmode : precheckInsertStmt stmt = .ok isAssignmentMode)
      (htable : handleInsertTableRefs p stmt.tableRefs = .ok (t, p₁)) (hg : t.rule.getType = .global)
      (h : handleInsertGlobal p₁ t stmt = .ok plan) : InsertRun p seqs stmt plan
  | onSharded {isAssignmentMode : Bool} {t : InsertTable} {p₁ p₂ : StmtInfo}
      {stmt₁ stmt₂ : InsertStmt Parsed} {k : Nat}
      {onDuplicate : Option (List Assignment)} {listsAssist : Option InsertValuesExprDecorator}
      {planned : InsertStmt Planned} {sqls : List ShardSQL}
      (hmode : precheckInsertStmt stmt = .ok isAssignmentMode)
      (htable : handleInsertTableRefs p stmt.tableRefs = .ok (t, p₁)) (hg : t.rule.getType ≠ .global)
      (hseq : handleInsertGlobalSequenceValue (seqs p₁.db t.table) isAssignmentMode stmt = .ok stmt₁)
      (hcolumns : handleInsertColumnNames t.rule isAssignmentMode stmt₁ = .ok (k, stmt₂))
      (hduplicate : handleInsertOnDuplicate t.rule stmt₂.onDuplicate = .ok onDuplicate)
      (hvalues : handleInsertValues p₁ t.rule isAssignmentMode k { stmt₂ with onDuplicate } = .ok (listsAssist, p₂))
      (hplanned : planned = InsertStmt.planned { stmt₂ with onDuplicate } t.tableRefs listsAssist)
      (hsqls : generateShardingSQLs (fun i => planned.restore i) p₂.result p₂.router = .ok sqls) :
      InsertRun p seqs stmt { info := p₂, stmt := planned, sqls }

theorem insertRun_of_ok {p : StmtInfo} {seqs : SequenceManager} {stmt : InsertStmt Parsed} {plan : InsertPlan}
    (h : handleInsertStmt p seqs stmt = .ok plan) : InsertRun p seqs stmt plan := by
  unfold handleInsertStmt at h
  obtain ⟨isAssignmentMode, hmode, h⟩ := bind_eq_ok.1 h
  obtain ⟨⟨t, p₁⟩, htable, h⟩ := bind_eq_ok.1 h
  rw [wrapErr_eq_ok] at htable
  simp only at h
  split at h
  · next hg => exact .onGlobal hmode htable hg h
  · next hg =>
    unfold handleInsertSharded at h
    simp only [bind_eq_ok, wrapErr_eq_ok, Prod.exists] at h
    obtain ⟨stmt₁, hseq, k, stmt₂, hcolumns, onDuplicate, hduplicate, listsAssist, p₂, hvalues, sqls, hsqls, h⟩ := h
    obtain rfl := Except.ok.inj h
    exact .onSharded hmode htable hg hseq hcolumns hduplicate hvalues rfl hsqls

end DbProxy
