import DbProxy.Server.Stmt

/-!
# Commands on a prepared statement

`COM_STMT_EXECUTE` carries a bitmap of the arguments that are NULL, the types of the arguments if they are bound anew,
and the other arguments in the binary protocol; `COM_STMT_SEND_LONG_DATA` carries a piece of one argument ahead of
that.  All arguments are collected in the one slice `args` of the statement (`proxy/server/executor_stmt.go`).
-/

namespace DbProxy

open Effect

/-- The text `%v` prints of the `float32` and the `float64` with the given bits. -/
structure FloatText where
  float32 : Nat → GoString
  float64 : Nat → GoString

/-- `Stmt` with the types that were bound last: two bytes for each parameter, the type and a flag byte. -/
structure PreparedStmt extends Stmt where
  id : Nat
  paramTypes : GoString := []
  deriving DecidableEq, Repr

namespace PreparedStmt

def resetParams (s : PreparedStmt) : PreparedStmt := { s with args := List.replicate s.paramCount .nil }

/-- An integer of `width` bytes. -/
def intArg (width : Nat) (isUnsigned : Bool) (n : Nat) : StmtArg :=
  if isUnsigned ∨ n < 2 ^ (8 * width - 1) then .int n else .int (n - 2 ^ (8 * width))

/-- `len(paramValues) < pos + width` is an error. -/
def fixedArg (width : Nat) (paramValues : GoString) (pos : Int) (arg : Nat → StmtArg) : Except Fail (StmtArg × Int) :=
  if paramValues.length < pos + width then .error errMalformPacket
  else do return (arg (← uintAt width paramValues pos), pos + width)

/-- The types whose values are read as strings with their length in front. -/
def stringTypes : List UInt8 :=
  [0, 0xf6, 15, 16, 0xf7, 0xf8, 0xf9, 0xfa, 0xfb, 0xfc, 0xfd, 0xfe, 0xff, 10, 14, 7, 12, 11, 0xf5]

/-- The `switch` of `bindStmtArgs`: the value at a position, and the next position. -/
def readArg (go : FloatText) (tp : UInt8) (isUnsigned : Bool) (paramValues : GoString) (pos : Int) :
    Except Fail (StmtArg × Int) :=
  if tp = 6 then .ok (.nil, pos)
  else if tp = 1 then fixedArg 1 paramValues pos (intArg 1 isUnsigned)
  else if tp = 2 ∨ tp = 13 then fixedArg 2 paramValues pos (intArg 2 isUnsigned)
  else if tp = 9 ∨ tp = 3 then fixedArg 4 paramValues pos (intArg 4 isUnsigned)
  else if tp = 8 then fixedArg 8 paramValues pos (intArg 8 isUnsigned)
  else if tp = 4 then fixedArg 4 paramValues pos fun n => .float (go.float32 n)
  else if tp = 5 then fixedArg 8 paramValues pos fun n => .float (go.float64 n)
  else if tp ∈ stringTypes then
    if paramValues.length < pos + 1 then .error errMalformPacket
    else do
      match ← readLenEncStringAsBytes paramValues pos with
      | none => .error (.error "ReadLenEncStringAsBytes in bindStmtArgs failed")
      | some (v, pos, isNull) => return (if isNull then .nil else .bytes v, pos)
  else .error (.error ("Stmt Unknown FieldType " ++ toString tp.toNat))

/-- The loop of `bindStmtArgs` for the `n` parameters from number `i` on.  An argument that is there already is left
alone, and none of the values is read for it. -/
def bindFrom (go : FloatText) (nullBitmap paramTypes paramValues : GoString) :
    (n i : Nat) → (pos : Int) → Effect Fail (List StmtArg) Unit
  | 0, _, _ => return
  | n + 1, i, pos => do
    let bits ← liftExcept (byteAt nullBitmap (i / 8 : Nat))
    if bits.toNat.testBit (i % 8) then
      modify fun args => args.set i .nil
      bindFrom go nullBitmap paramTypes paramValues n (i + 1) pos
    else if paramTypes.length ≤ 2 * i + 1 then
      throw errMalformPacket
    else
      let tp ← liftExcept (byteAt paramTypes (2 * i : Nat))
      let flags ← liftExcept (byteAt paramTypes (2 * i + 1 : Nat))
      if (← get)[i]? = some .nil then
        let (arg, pos) ← liftExcept (readArg go tp (flags.toNat.testBit 7) paramValues pos)
        modify fun args => args.set i arg
        bindFrom go nullBitmap paramTypes paramValues n (i + 1) pos
      else
        bindFrom go nullBitmap paramTypes paramValues n (i + 1) pos

/-- `bindStmtArgs`: its error, and the arguments it leaves. -/
def bindStmtArgs (go : FloatText) (s : PreparedStmt) (nullBitmap paramTypes paramValues : GoString) :
    Except Fail Unit × List StmtArg :=
  bindFrom go nullBitmap paramTypes paramValues s.paramCount 0 0 s.args

def unknownHandler (command : String) : Fail := .error ("Unknown prepared statement handler given to " ++ command)

/-- The parts of an execute packet behind its head, for a statement with parameters: the bitmap, the types if they are
bound anew, and the values. -/
structure Parts where
  nullBitmaps : GoString
  paramTypes : Option GoString
  paramValues : GoString
  deriving DecidableEq, Repr

def executeParts (paramCount : Nat) (data : GoString) : Except Fail Parts := do
  let nullBitmapLen := (paramCount + 7) / 8
  if data.length < 9 + nullBitmapLen + 1 then
    throw errMalformPacket
  let nullBitmaps ← slice data 9 (9 + nullBitmapLen)
  let pos := 9 + nullBitmapLen
  if (← byteAt data pos) = 1 then
    if data.length < pos + 1 + 2 * paramCount then
      throw errMalformPacket
    let paramTypes ← slice data (pos + 1) (pos + 1 + 2 * paramCount)
    return ⟨nullBitmaps, some paramTypes, ← slice data (pos + 1 + 2 * paramCount) data.length⟩
  else
    return ⟨nullBitmaps, none, ← slice data (pos + 1) data.length⟩

/-- `handleStmtExecute` up to the query it makes: the text of the query, and the statement it leaves.  The arguments
are cleared on the way out when the query was made, whatever becomes of it. -/
def handleStmtExecute (go : FloatText) (s : PreparedStmt) (data : GoString) : Except Fail GoString × PreparedStmt :=
  if data.length < 9 then (.error errMalformPacket, s)
  else if littleEndian (data.take 4) ≠ s.id then (.error (unknownHandler "stmt_execute"), s)
  else if (data.getD 4 0).toNat.testBit 0 then (.error (.error "unsupported flag 1"), s)
  else if s.paramCount = 0 then (.ok s.sql, s.resetParams)
  else match executeParts s.paramCount data with
    | .error e => (.error e, s)
    | .ok parts =>
      let s := { s with paramTypes := parts.paramTypes.getD s.paramTypes }
      match s.bindStmtArgs go parts.nullBitmaps s.paramTypes parts.paramValues with
      | (.error e, args) => (.error e, { s with args })
      | (.ok (), args) =>
        let s := { s with args }
        match s.getRewriteSQL with
        | .error e => (.error e, s)
        | .ok executeSQL => (.ok executeSQL, s.resetParams)

def handleStmtSendLongData (s : PreparedStmt) (data : GoString) : Except Fail Unit × PreparedStmt :=
  if data.length < 6 then (.error errMalformPacket, s)
  else if littleEndian (data.take 4) ≠ s.id then (.error (unknownHandler "stmt_send_longdata"), s)
  else
    let paramID := littleEndian ((data.drop 4).take 2)
    if s.paramCount % 65536 ≤ paramID then (.error (.error "Incorrect arguments to stmt_send_longdata"), s)
    else match s.args[paramID]? with
      | none => (.error outOfRange, s)
      | some .nil => (.ok (), { s with args := s.args.set paramID (.bytes (data.drop 6)) })
      | some (.bytes b) => (.ok (), { s with args := s.args.set paramID (.bytes (b ++ data.drop 6)) })
      | some _ => (.error (.error "invalid param long data type"), s)

def handleStmtReset (s : PreparedStmt) (data : GoString) : Except Fail Unit × PreparedStmt :=
  if data.length < 4 then (.error errMalformPacket, s)
  else if littleEndian (data.take 4) ≠ s.id then (.error (unknownHandler "stmt_reset"), s)
  else (.ok (), s.resetParams)

end PreparedStmt

end DbProxy
