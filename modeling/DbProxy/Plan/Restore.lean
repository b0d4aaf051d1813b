import DbProxy.Plan.Decorator

/-!
# Restoring statements

`Restore` prints a planned tree for one table index.  Printing stops at the first failure, and what was printed
until then stays: a `SELECT` drops the errors of its clauses and goes on, the other statements return them.
-/

namespace DbProxy

open Fallible

/-- What a `Restore` has written, and how it failed, if it did. -/
structure Out where
  toks : List Tok
  fail : Option Fail := none
  deriving DecidableEq, Repr

namespace Out

def nothing : Out := { toks := [] }

def tok (t : Tok) : Out := { toks := [t] }

def text (s : String) : Out := tok (.text s)

/-- Write one after the other; a failure ends the writing. -/
def append (a b : Out) : Out :=
  match a.fail with
  | none => { toks := a.toks ++ b.toks, fail := b.fail }
  | some _ => a

instance : Append Out := ⟨append⟩

/-- An error is dropped; a panic is not. -/
def ignoreErr (a : Out) : Out :=
  match a.fail with
  | some (.error _) => { toks := a.toks }
  | _ => a

/-- Write even after a failure, as a deferred call does. -/
def deferred (a : Out) (t : Tok) : Out := { a with toks := a.toks ++ [t] }

def concat : List Out → Out
  | [] => nothing
  | a :: as => a ++ concat as

def sepBy (sep : String) : List Out → Out
  | [] => nothing
  | [a] => a
  | a :: as => a ++ text sep ++ sepBy sep as

def optional {α : Type} (f : α → Out) : Option α → Out
  | none => nothing
  | some a => f a

end Out

/-! ### Names -/

/-- `fmt.Sprintf("%04d", i)`. -/
def formatIndex (i : Int) : String :=
  let digits := Nat.toDigits 10 i.natAbs
  if i < 0 then String.ofList ('-' :: (List.replicate (3 - digits.length) '0' ++ digits))
  else String.ofList (List.replicate (4 - digits.length) '0' ++ digits)

/-- The name of a sub-table: `fmt.Sprintf("%s_%04d", table, index)`. -/
def CIStr.subTable (t : CIStr) (i : Int) : CIStr := ⟨t.o ++ "_" ++ formatIndex i, t.l ++ "_" ++ formatIndex i⟩

def ColumnName.restore (c : ColumnName) : Out := .tok (.column c.schema.o c.table c.name.o)

/-- The database that a decorator writes before a name, or nothing when the statement has none. -/
def restoreSchema (rule : Rule) (schema : CIStr) (i : Int) : Except Fail String :=
  if schema.o = "" then .ok ""
  else if rule.getType = .global ∨ isMycatShardingRule rule.getType = true then
    wrapErr "get mycat database name error: " (rule.getDatabaseNameByTableIndex i)
  else .ok schema.o

def ColumnNameDecorator.restore (d : ColumnNameDecorator) (c : ColumnName) (i : Int) : Out :=
  match restoreSchema d.rule c.schema i with
  | .error e => { toks := [], fail := some (e.wrap "restore ColumnNameExprDecorator error: ") }
  | .ok schema =>
    let table :=
      if c.table.o = "" ∨ d.rule.getType = .global ∨ isMycatShardingRule d.rule.getType = true ∨ d.isAlias = true
      then c.table else c.table.subTable i
    .tok (.column schema table c.name.o)

def TableName.restoreDecorated (t : TableName) (rule : Rule) (i : Int) : Out :=
  match restoreSchema rule t.schema i with
  | .error e => { toks := [], fail := some e }
  | .ok schema =>
    let name :=
      if rule.getType = .global ∨ isMycatShardingRule rule.getType = true then t.name else t.name.subTable i
    .tok (.table schema name) ++ .concat (t.indexHints.map fun h => .text " " ++ .text h)

def TableName.restore (t : TableName) : Out :=
  .tok (.table t.schema.o t.name) ++
  (if t.partitionNames.isEmpty then .nothing
    else .text " PARTITION(" ++ .sepBy ", " (t.partitionNames.map fun p => .tok (.name p.o)) ++ .text ")") ++
  .concat (t.indexHints.map fun h => .text " " ++ .text h)

/-! ### Expressions -/

def Op.restore : Op → Out
  | .logicAnd => .text " AND "
  | .logicOr => .text " OR "
  | .eq => .text "="
  | .ne => .text "!="
  | .lt => .text "<"
  | .le => .text "<="
  | .gt => .text ">"
  | .ge => .text ">="
  | .other s => .text s

section Expressions

variable {P : Phase} (col : P.Column → ColumnName → Out) (values : P.PatternIn → Option (List Out))

mutual
/-- `Restore` of an expression: `col` prints a column, and `values` is the list that an `IN` prints instead of its
own, if it has another. -/
def Expr.restoreWith : Expr P → Out
  | .value v => .tok (.value v)
  | .column a c => col a c
  | .binary op l r => restoreWith l ++ op.restore ++ restoreWith r
  | .patternIn a e list sel not =>
    restoreWith e ++ .text (if not then " NOT IN " else " IN ") ++
    match values a, sel with
    | some vs, _ => .text "(" ++ .sepBy "," vs ++ .text ")"
    | none, some sel => restoreWith sel
    | none, none => .text "(" ++ .sepBy "," (restoreListWith list) ++ .text ")"
  | .between _ e l r not =>
    restoreWith e ++ .text (if not then " NOT BETWEEN " else " BETWEEN ") ++ restoreWith l ++ .text " AND " ++
    restoreWith r
  | .paren e => .text "(" ++ restoreWith e ++ .text ")"
  | .funcCall _ parts => .concat (restoreListWith parts)
  | .aggregate _ parts => .concat (restoreListWith parts)
  | .valuesOf (some c) => .text "VALUES(" ++ c.restore ++ .text ")"
  | .valuesOf none => { toks := [.text "VALUES("], fail := some (.panic "nil pointer dereference") }
  | .text t => .tok t
  | .node _ parts => .concat (restoreListWith parts)

def Expr.restoreListWith : List (Expr P) → List Out
  | [] => []
  | e :: es => restoreWith e :: restoreListWith es
end

end Expressions

/-- An expression as the parser returned it. -/
def Expr.restorePlain (e : Expr Parsed) : Out := e.restoreWith (fun _ c => c.restore) (fun _ => none)

def restoreColumn (i : Int) (d : Option ColumnNameDecorator) (c : ColumnName) : Out :=
  match d with
  | some d => d.restore c i
  | none => c.restore

/-- `PatternInExprDecorator.Restore` prints the values filed under the current index. -/
def PatternInExprDecorator.values (i : Int) (d : PatternInExprDecorator) : List Out :=
  (d.indexValueMap.getD i).map Expr.restorePlain

/-- A planned expression at index `i`. -/
def Expr.restore (i : Int) (e : Expr Planned) : Out :=
  e.restoreWith (restoreColumn i) (fun d : Option PatternInExprDecorator => d.map (·.values i))

/-! ### Clauses -/

def restoreAs (asName : CIStr) : Out := if asName.o = "" then .nothing else .text " AS " ++ .tok (.name asName.o)

def SelectField.restore (i : Int) : SelectField Planned → Out
  | .wildcard schema table => .tok (.wildcard schema.o table)
  | .expr e asName => e.restore i ++ restoreAs asName

def ByItem.restore (i : Int) (item : ByItem Planned) : Out :=
  item.expr.restore i ++ (if item.desc then .text " DESC" else .nothing)

def restoreByItems (i : Int) (keyword : String) (items : List (ByItem Planned)) : Out :=
  .text keyword ++ .sepBy "," (items.map (ByItem.restore i))

def Limit.restore (l : Limit) : Out :=
  .text "LIMIT " ++ .optional (fun e => e.restorePlain ++ .text ",") l.offset ++ l.count.restorePlain

def Assignment.restore (a : Assignment) : Out := a.column.restore ++ .text "=" ++ a.expr.restorePlain

section Joins

variable {S : Type} (i : Int) (source : S → Out)

/-- The planner has refused a join on the right side before. -/
def JoinRight.restore : JoinRight S → Out
  | .source s => source s
  | .join => .nothing

def JoinType.restore : JoinType → Out
  | .cross => .nothing
  | .left => .text " LEFT"
  | .right => .text " RIGHT"

def JoinTail.restore (t : JoinTail S Planned) : Out :=
  match t.right with
  | none => .nothing
  | some right =>
    (if t.natural then .text " NATURAL" else .nothing) ++ t.tp.restore ++
    .text (if t.straight then " STRAIGHT_JOIN " else " JOIN ") ++ right.restore source ++
    .optional (fun e => .text " ON " ++ e.restore i) t.on ++
    (if t.using_.isEmpty then .nothing
      else .text " USING (" ++ .sepBy "," (t.using_.map ColumnName.restore) ++ .text ")")

def restoreParens (nested : Bool) (out : Out) : Out :=
  if nested then (.text "(" ++ out).deferred (.text ")") else out

def Join.restore (nested : Bool) : Join S Planned → Out
  | .ofSource s tail => restoreParens nested (source s ++ tail.restore i source)
  | .ofJoin j tail => restoreParens nested (Join.restore true j ++ tail.restore i source)

/-- `SelectStmt.Restore`: the error of a clause is dropped. -/
def SelectClauses.restore (nested : Bool) (s : SelectClauses S Planned) : Out :=
  .text "SELECT " ++ .concat (s.options.map .tok) ++ (if s.distinct then .text "DISTINCT " else .nothing) ++
  .sepBy "," (s.fields.map fun f => (f.restore i).ignoreErr) ++
  .optional (fun j => .text " FROM " ++ (j.restore i source nested).ignoreErr) s.tableRefs ++
  (if s.tableRefs.isNone && s.cond.isSome then .text " FROM DUAL" else .nothing) ++
  .optional (fun e => .text " WHERE " ++ (e.restore i).ignoreErr) s.cond ++
  .optional (fun items => .text " " ++ (restoreByItems i "GROUP BY " items).ignoreErr) s.groupBy ++
  .optional (fun e => .text " " ++ (.text "HAVING " ++ e.restore i).ignoreErr) s.having ++
  (if s.windows.isEmpty then .nothing
    else .text " WINDOW " ++ .sepBy "," (s.windows.map fun e => (e.restore i).ignoreErr)) ++
  .optional (fun items => .text " " ++ (restoreByItems i "ORDER BY " items).ignoreErr) s.orderBy ++
  .optional (fun l => .text " " ++ l.restore.ignoreErr) s.limit ++ .concat (s.lock.map .tok)

end Joins

def InnerSource.restore (i : Int) : InnerSource Planned → Out
  | .table rule name asName => name.restoreDecorated rule i ++ restoreAs asName
  | .select => .nothing

def TableSource.restore (i : Int) : TableSource Planned → Out
  | .table rule name asName => name.restoreDecorated rule i ++ restoreAs asName
  | .select s asName =>
    .text "(" ++ s.restore i (InnerSource.restore i) true ++ .text ")" ++ restoreAs asName

def SelectStmt.restore (i : Int) (s : SelectStmt Planned) : Out :=
  SelectClauses.restore i (TableSource.restore i) false s

def restoreJoin (i : Int) (j : Join (TableSource Planned) Planned) : Out := j.restore i (TableSource.restore i) false

def UpdateStmt.restore (i : Int) (s : UpdateStmt Planned) : Out :=
  .text "UPDATE " ++ .concat (s.options.map .tok) ++ restoreJoin i s.tableRefs ++ .text " SET " ++
  .sepBy ", " (s.list.map Assignment.restore) ++ .optional (fun e => .text " WHERE " ++ e.restore i) s.cond ++
  .optional (fun items => .text " " ++ restoreByItems i "ORDER BY " items) s.order ++
  .optional (fun l => .text " " ++ l.restore) s.limit

def DeleteStmt.restore (i : Int) (s : DeleteStmt Planned) : Out :=
  .text "DELETE " ++ .concat (s.options.map .tok) ++
  (if s.tables.isEmpty then .text "FROM " ++ restoreJoin i s.tableRefs
    else .sepBy "," (s.tables.map TableName.restore) ++ .text " FROM " ++ restoreJoin i s.tableRefs) ++
  .optional (fun e => .text " WHERE " ++ e.restore i) s.cond ++
  .optional (fun items => .text " " ++ restoreByItems i "ORDER BY " items) s.order ++
  .optional (fun l => .text " " ++ l.restore) s.limit

/-- The rows that an `INSERT` prints at index `i`. -/
def InsertStmt.rowsAt (i : Int) (s : InsertStmt Planned) : List (List (Expr Parsed)) :=
  match s.listsAssist with
  | some d => d.indexValueMap.getD i
  | none => s.lists

def restoreRow (row : List (Expr Parsed)) : Out :=
  .text "(" ++ .sepBy "," (row.map Expr.restorePlain) ++ .text ")"

def restoreRows (rows : List (List (Expr Parsed))) : Out := .text " VALUES " ++ .sepBy "," (rows.map restoreRow)

/-- The error of `ListsAssist` is dropped. -/
def InsertStmt.restore (i : Int) (s : InsertStmt Planned) : Out :=
  .text (if s.isReplace then "REPLACE " else "INSERT ") ++ .concat (s.options.map .tok) ++ .text "INTO " ++
  restoreJoin i s.tableRefs ++
  (if s.columns.isEmpty then .nothing
    else .text " (" ++ .sepBy "," (s.columns.map ColumnName.restore) ++ .text ")") ++
  (if s.listsAssist.isSome then (restoreRows (s.rowsAt i)).ignoreErr
    else if s.lists.isEmpty then .nothing else restoreRows (s.rowsAt i)) ++
  (if s.setlist.isEmpty then .nothing else .text " SET " ++ .sepBy "," (s.setlist.map Assignment.restore)) ++
  .optional (fun l => .text " ON DUPLICATE KEY UPDATE " ++ .sepBy "," (l.map Assignment.restore)) s.onDuplicate

/-! ### Statements for the shards -/

/-- One generated statement with the slice and the database it goes to. -/
structure ShardSQL where
  slice : String
  db : String
  sql : List Tok
  deriving DecidableEq, Repr

/-- One turn of the loop over the indexes of the route. -/
def shardingSQL (restore : Int → Out) (result : RouteResult) (router : Router) (index : Int) :
    Except Fail ShardSQL :=
  match (restore index).fail with
  | some e => .error e
  | none => match router.getShardRule result.db result.table with
    | none => .error (.error ("cannot find shard rule, db: " ++ result.db ++ ", table: " ++ result.table))
    | some rule => do
      let sliceName ← rule.getSlice (rule.getSliceIndexFromTableIndex index)
      let dbName ← match rule.getDatabaseNameByTableIndex index with
        | .error (.error _) => .ok ""
        | r => r
      .ok ⟨sliceName, dbName, (restore index).toks⟩

/-- `generateShardingSQLs`, with the statements in the order of the route instead of filed by slice and database. -/
def generateShardingSQLs (restore : Int → Out) (result : RouteResult) (router : Router) :
    Except Fail (List ShardSQL) :=
  result.indexes.mapM (shardingSQL restore result router)

theorem shardingSQL_eq_ok {restore : Int → Out} {result : RouteResult} {router : Router} {i : Int} {s : ShardSQL}
    (h : shardingSQL restore result router i = .ok s) : (restore i).fail = none ∧ s.sql = (restore i).toks := by
  unfold shardingSQL at h
  split at h
  · cases h
  · next hfail =>
    split at h
    · cases h
    · obtain ⟨slice, _, h⟩ := bind_eq_ok.1 h
      simp only at h
      split at h
      all_goals
        obtain ⟨db, _, h⟩ := bind_eq_ok.1 h
        cases h
        exact ⟨hfail, rfl⟩

theorem generateShardingSQLs_eq_ok {restore : Int → Out} {result : RouteResult} {router : Router}
    {sqls : List ShardSQL} (h : generateShardingSQLs restore result router = .ok sqls) :
    (∀ i ∈ result.indexes, (restore i).fail = none) ∧
      sqls.map ShardSQL.sql = result.indexes.map fun i => (restore i).toks := by
  replace h := mapM_eq_ok.1 h
  generalize result.indexes = indexes at h
  induction h with
  | nil => simp
  | cons hs _ ih =>
    obtain ⟨hfail, hsql⟩ := shardingSQL_eq_ok hs
    refine ⟨?_, by rw [List.map_cons, List.map_cons, hsql, ih.2]⟩
    intro i hi
    rcases List.mem_cons.1 hi with rfl | hi
    · exact hfail
    · exact ih.1 i hi

end DbProxy
