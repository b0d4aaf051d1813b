import DbProxy.Backend.Packet

/-!
# Prepared statements

`COM_STMT_EXECUTE` is not passed on to a backend: `GetRewriteSQL` (`proxy/server/executor_stmt.go`) writes the
arguments into the prepared text at the recorded offsets, and the result is executed like a query.
-/

namespace DbProxy

/-- The values `bindStmtArgs` binds.  A float keeps the text `%v` prints of it. -/
inductive StmtArg where
  | nil
  | bytes (v : GoString)
  | int (n : Int)
  | float (text : GoString)
  deriving DecidableEq, Repr

def StmtArg.isFloat : StmtArg → Bool
  | .float _ => true
  | _ => false

/-- `util.ItoString`: whether the value is to be quoted, and its text. -/
def itoString : StmtArg → Bool × GoString
  | .nil => (false, ascii "NULL")
  | .bytes v => (true, v)
  | .int n => (false, ascii (toString n))
  | .float text => (false, text)

/-- `escapeSQL`. -/
def escapeSQL (sql : GoString) : GoString := sql.flatMap fun b => if b = 92 ∨ b = 39 then [92, b] else [b]

/-- The loop of `calcParams` from position `i` on: the offsets of the markers.  A backslash is skipped, but not the
byte behind it. -/
def calcParamsFrom : (quoteChar : Option UInt8) → (i : Nat) → GoString → Except Fail (List Nat)
  | none, _, [] => .ok []
  | some _, _, [] => .error (.error "fatal situation")
  | quoteChar, i, elem :: rest =>
    if elem = 92 then calcParamsFrom quoteChar (i + 1) rest
    else if elem = 34 ∨ elem = 39 then
      calcParamsFrom (if quoteChar = none then some elem else if quoteChar = some elem then none else quoteChar)
        (i + 1) rest
    else if quoteChar = none ∧ elem = 63 then do
      return i :: (← calcParamsFrom quoteChar (i + 1) rest)
    else calcParamsFrom quoteChar (i + 1) rest

/-- `calcParams`: the number of the markers and their offsets. -/
def calcParams (sql : GoString) : Except Fail (Nat × List Nat) := do
  let offsets ← calcParamsFrom none 0 sql
  return (offsets.length, offsets)

/-- The parts of `Stmt` that rewriting reads. -/
structure Stmt where
  sql : GoString
  args : List StmtArg
  paramCount : Nat
  offsets : List Nat
  deriving DecidableEq, Repr

namespace Stmt

/-- What is written for an argument. -/
def argText (arg : StmtArg) : GoString :=
  if (itoString arg).1 then 39 :: escapeSQL (itoString arg).2 ++ [39] else escapeSQL (itoString arg).2

/-- The loop of `GetRewriteSQL` for the `n` arguments from number `i` on. -/
def rewriteFrom (s : Stmt) : (n i startPos : Nat) → (builder : GoString) → Except Fail GoString
  | 0, _, startPos, builder => do
    return builder ++ (← slice s.sql startPos s.sql.length)
  | n + 1, i, startPos, builder =>
    match s.args[i]?, s.offsets[i]? with
    | some arg, some pos => do
      let part ← slice s.sql startPos pos
      rewriteFrom s n (i + 1) (pos + 1) (builder ++ part ++ argText arg)
    | _, _ => .error outOfRange

/-- `GetRewriteSQL`. -/
def getRewriteSQL (s : Stmt) : Except Fail GoString := s.rewriteFrom s.paramCount 0 0 []

end Stmt

end DbProxy
