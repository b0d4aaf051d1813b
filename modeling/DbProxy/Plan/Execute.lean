import DbProxy.Plan.Merge
import DbProxy.Plan.Modify

/-!
# Executing a plan

`ExecuteIn` sends the statements of a plan to the shards and merges what they answer; `executeSQLs` stands for the
session, which runs them.  A plan without statements is not sent anywhere.  The end of `doQuery` then puts the status
of the session into the result.
-/

namespace DbProxy

/-! ### Writes -/

/-- `mysql.Result` of a statement without rows. -/
structure ExecResult where
  status : UInt16 := 0
  insertID : Nat := 0
  affectedRows : Nat := 0
  deriving DecidableEq, Repr

/-- One turn of the loop of `MergeExecResult`; the counters are 64-bit integers. -/
def ExecResult.merge (r v : ExecResult) : ExecResult where
  status := r.status ||| v.status
  affectedRows := (r.affectedRows + v.affectedRows) % 2 ^ 64
  insertID :=
    if r.insertID = 0 then v.insertID
    else if v.insertID ≠ 0 ∧ r.insertID > v.insertID then v.insertID
    else r.insertID

def mergeExecResult (rs : List ExecResult) : ExecResult := rs.foldl ExecResult.merge {}

section Modify

variable {α : Type} (plan : ModifyPlan α) (executeSQLs : List ShardSQL → Except Fail (List ExecResult))

/-- `ExecuteIn` of an `UPDATE` or a `DELETE`: without statements there is no result, and no error either. -/
def ModifyPlan.executeIn : Except Fail (Option ExecResult) :=
  if plan.sqls.isEmpty then .ok none
  else do
    let rs ← wrapErr "execute in UpdatePlan error: " (executeSQLs plan.sqls)
    .ok (some (mergeExecResult rs))

/-- `modifyResultStatus`, which does not ask whether there is a result. -/
def modifyResultStatus (status : UInt16) : Option ExecResult → Except Fail ExecResult
  | some r => .ok { r with status := r.status ||| status }
  | none => .error (.panic "invalid memory address or nil pointer dereference")

/-- The end of `doQuery`. -/
def ModifyPlan.doQuery (status : UInt16) : Except Fail ExecResult := do
  let r ← plan.executeIn executeSQLs
  modifyResultStatus status r

end Modify

/-! ### Queries -/

/-- A column of an empty result. -/
structure EmptyField where
  name : List Tok
  orgName : List Tok := []
  deriving DecidableEq, Repr

/-- What a decorator writes when the route is empty: it finds no current index. -/
def Out.nowhere : Out := { toks := [], fail := some (.error "table index out of range") }

def restoreColumnNowhere (d : Option ColumnNameDecorator) (c : ColumnName) : Out :=
  match d with
  | some _ => .nowhere
  | none => c.restore

def valuesNowhere (d : Option PatternInExprDecorator) : Option (List Out) := d.map fun _ => [.nowhere]

/-- `Restore` when the route is empty. -/
def Expr.restoreNowhere (e : Expr Planned) : Out := e.restoreWith restoreColumnNowhere valuesNowhere

/-- `NodeToStringWithoutQuote`, whose error is dropped. -/
def nodeToStringWithoutQuote (e : Expr Planned) : Except Fail (List Tok) :=
  match e.restoreNowhere.fail with
  | none => .ok e.restoreNowhere.toks
  | some (.error _) => .ok []
  | some (.panic msg) => .error (.panic msg)

def emptyField : SelectField Planned → Except Fail EmptyField
  | .wildcard _ _ => .ok { name := [.text "*"] }
  | .expr e asName => do
    let name ← nodeToStringWithoutQuote e
    .ok (if asName.o ≠ "" then { name := [.name asName.o], orgName := name } else { name })

/-- `newEmptyResultset`: there is room for the fields of the statement, and the loop goes over those that were
appended, too. -/
def newEmptyResultset (p : SelectPlan) : Except Fail (List EmptyField) :=
  let fieldLen : Int := p.stmt.fields.length - ((p.columnCount : Int) - p.originColumnCount)
  p.stmt.fields.zipIdx.mapM fun e =>
    if (e.2 : Int) < fieldLen then emptyField e.1 else .error (.panic "index out of range")

/-- What a `SELECT` is answered with: the merged results, or an empty result of the given columns. -/
inductive SelectAnswer where
  | merged (r : Result)
  | empty (fields : List EmptyField)

/-- `ExecuteIn` of a `SELECT`. -/
def SelectPlan.executeIn (go : Runtime) (p : SelectPlan) (executeSQLs : List ShardSQL → Except Fail (List Result)) :
    Except Fail SelectAnswer :=
  if p.sqls.isEmpty then do
    let fields ← newEmptyResultset p
    .ok (.empty fields)
  else do
    let rs ← wrapErr "execute in SelectPlan error: " (executeSQLs p.sqls)
    let r ← wrapErr "merge select result error: " (mergeSelectResult go p rs)
    .ok (.merged r)

end DbProxy
