import DbProxy.Backend.Packet
import DbProxy.Mysql.Charset
import DbProxy.Mysql.Variables
import Mathlib.Data.Stream.Defs

/-!
# Connections to a backend

`DirectConnection` is the proxy's end of a session with a MySQL server.  It keeps in memory what it believes about the
session: the status flags of the last answer that had some, the database, the character set and the variables.

The server is a parameter (`Peer`): how it takes up a session, and what it does and sends when a request arrives.
What the network does is decided by `Net`: whether a dial is answered, how a write ends, whether a read gets through.
-/

namespace DbProxy

/-! ### Requests -/

/-- What `WriteSetStatement` puts together. -/
structure SetStatement where
  charset : String
  collation : String
  vars : AssocMap VariableName GoVal
  defaults : List VariableName
  deriving DecidableEq, Repr

/-- The statements that the proxy writes itself, and those that it passes on. -/
inductive Sql where
  | begin
  | commit
  | rollback
  | rollbackTo (savepoint : GoString)
  | savepoint (savepoint : GoString)
  | setAutocommit (on : Bool)
  | setSession (stmt : SetStatement)
  | user (text : GoString)
  deriving DecidableEq, Repr

/-- What `appendSetVariable` writes behind the equals sign. -/
def variableText : GoVal → GoString
  | .string s => if s.map (fun b => if 65 ≤ b && b ≤ 90 then b + 32
      else b) = ascii "default" then s else [39] ++ s ++ [39]
  | .int64 n => ascii (toString n)
  | _ => []

def SetStatement.text (s : SetStatement) : GoString :=
  ascii ("SET NAMES '" ++ s.charset ++ "' COLLATE '" ++ s.collation ++ "'") ++
    s.vars.flatMap (fun v => ascii ("," ++ v.1.text ++ " = ") ++ variableText v.2) ++
    s.defaults.flatMap (fun v => ascii ("," ++ v.text ++ " = DEFAULT"))

def Sql.text : Sql → GoString
  | .begin => ascii "begin"
  | .commit => ascii "commit"
  | .rollback => ascii "rollback"
  | .rollbackTo s => ascii "rollback to " ++ s
  | .savepoint s => ascii "savepoint " ++ s
  | .setAutocommit on => ascii (if on then "set autocommit = 1" else "set autocommit = 0")
  | .setSession s => s.text
  | .user text => text

inductive Request where
  | handshakeResponse (db : GoString) (collation : UInt8)
  | initDB (db : GoString)
  | query (sql : Sql)
  | fieldList (table wildcard : GoString)
  deriving DecidableEq, Repr

/-- The length of the payload.  A handshake response is short. -/
def Request.length : Request → Nat
  | .handshakeResponse db _ => db.length
  | .initDB db => db.length + 1
  | .query sql => sql.text.length + 1
  | .fieldList table wildcard => table.length + wildcard.length + 3

/-- A payload is cut into packets, the last of which is not of the greatest size. -/
def Request.packets (r : Request) : Nat := r.length / Conn.maxPacketSize + 1

/-! ### The other end -/

/-- A MySQL server.  `ι` is what it depends on beside its session. -/
structure Peer (ι σ : Type) where
  accept : ι → σ × GoString
  serve : ι → UInt8 → Request → σ → σ × GoString

/-- How a write ends.  Only a broken pipe makes the connection dial again. -/
inductive Written (ι : Type) where
  | ok (input : ι)
  | brokenPipe
  | failed
  deriving DecidableEq, Repr

/-- What the network will do.  `dials true` are the third dials behind a broken pipe, `dials false` the others. -/
structure Net (ι : Type) where
  dials : Bool → Stream' (Option ι)
  writes : List (Written ι)
  reads : Stream' Bool

structure DirectConnection (σ : Type) where
  conn : Option (Conn σ)
  db : GoString
  capability : Nat
  sessionVariables : SessionVariables
  status : Nat
  collation : CollationID
  charset : String
  closed : Bool
  deriving DecidableEq, Repr

/-- A connection and the network. -/
structure Link (ι σ : Type) where
  dc : DirectConnection σ
  net : Net ι

def nilConn : Fail := .panic "invalid memory address or nil pointer dereference"

abbrev Session (ι σ : Type) := Effect Fail (Link ι σ)

namespace DirectConnection

variable {ι σ α : Type}

def serverStatusInTrans : Nat := 0x0001
def serverStatusAutocommit : Nat := 0x0002

def clientLongPassword : Nat := 2 ^ 0
def clientLongFlag : Nat := 2 ^ 2
def clientConnectWithDB : Nat := 2 ^ 3
def clientProtocol41 : Nat := 2 ^ 9
def clientTransactions : Nat := 2 ^ 13
def clientSecureConnection : Nat := 2 ^ 15

def isAutoCommit (dc : DirectConnection σ) : Bool := dc.status &&& serverStatusAutocommit > 0

def isInTransaction (dc : DirectConnection σ) : Bool := dc.status &&& serverStatusInTrans > 0

/-! ### The socket -/

def modifyDc (f : DirectConnection σ → DirectConnection σ) : Session ι σ Unit :=
  modify fun s => { s with dc := f s.dc }

/-- An operation on `dc.conn`, which may be nil. -/
def onConn (x : Effect Fail (Conn σ) α) : Session ι σ α := Effect.of fun s =>
  match s.dc.conn with
  | none => (.error nilConn, s)
  | some c => ((x c).1, { s with dc := { s.dc with conn := some (x c).2 } })

/-- `dc.conn.Close()` -/
def closeConn : Session ι σ Unit := onConn (modify Conn.close)

/-- `if dc.conn != nil { dc.conn.Close() }` -/
def hangUp : Session ι σ Unit := modifyDc fun dc => { dc with conn := dc.conn.map Conn.close }

/-- `Close` -/
def close : Session ι σ Unit := modifyDc fun dc => { dc with conn := none, closed := true }

def setSequence (n : UInt8) : Session ι σ Unit := onConn (modify (Conn.setSequence n))

def readPacket : Session ι σ GoString := Effect.of fun s =>
  let rest := { s with net := { s.net with reads := s.net.reads.tail } }
  if s.net.reads.head then onConn Conn.readPacket rest
  else (onConn (do modify Conn.close; throw (.error "read failed"))) rest

variable (server : Peer ι σ)

/-- `net.Dial` -/
def dial (third : Bool) : Session ι σ Unit := Effect.of fun s =>
  let dials := s.net.dials third
  let rest := { s with net := { s.net with dials := Function.update s.net.dials third dials.tail } }
  match dials.head with
  | none => (.error (.error "dial failed"), rest)
  | some i =>
    let (peer, greeting) := server.accept i
    (.ok (), { rest with dc := { s.dc with conn := some ⟨some peer, greeting, 0⟩ } })

/-- The request arrives at the server, if there still is one. -/
def deliver (i : ι) (req : Request) (c : Conn σ) : Conn σ :=
  let sequence := c.sequence + UInt8.ofNat req.packets
  match c.peer with
  | none => { c with sequence }
  | some p =>
    let (p, answer) := server.serve i sequence req p
    { peer := some p, unread := c.unread ++ answer, sequence }

/-- `conn.WritePacket`; whether it ends with a broken pipe. -/
def tryWrite (req : Request) : Session ι σ Bool := do
  match (← get).net.writes with
  | [] =>
    closeConn
    throw (.error "Write(packet) failed")
  | w :: rest =>
    modify fun s => { s with net := { s.net with writes := rest } }
    match w with
    | .ok i =>
      onConn (modify (deliver server i req))
      return false
    | .brokenPipe =>
      closeConn
      return true
    | .failed =>
      closeConn
      throw (.error "Write(packet) failed")

/-! ### Answers -/

def okHeader : UInt8 := 0x00
def errHeader : UInt8 := 0xff
def eofHeader : UInt8 := 0xfe
def localInFileHeader : UInt8 := 0xfb

def isEOFPacket (data : GoString) : Except Fail Bool :=
  return (← byteAt data 0) = eofHeader && data.length ≤ 5

/-- `mysql.Result` -/
structure Answer where
  status : Nat
  affectedRows : Nat := 0
  insertID : Nat := 0
  fields : List Field := []
  rowDatas : List GoString := []
  values : List ResultRow := []
  deriving DecidableEq, Repr

def latin1 (s : GoString) : String := String.ofList (s.map fun b => Char.ofNat b.toNat)

/-- The error that the packet stands for. -/
def handleErrorPacket (capability : Nat) (data : GoString) : Except Fail Fail := do
  let code ← uintAt 2 data 1
  if capability &&& clientProtocol41 > 0 then
    let state ← slice data 4 9
    let message ← slice data 9 data.length
    return .error ("ERROR " ++ toString code ++ " (" ++ latin1 state ++ "): " ++ latin1 message)
  else
    let message ← slice data 3 data.length
    return .error ("ERROR " ++ toString code ++ " (): " ++ latin1 message)

/-- A computation on bytes inside a computation on a connection. -/
def purely (r : Except Fail α) : Session ι σ α := Effect.of fun s => (r, s)

def throwErrorPacket (data : GoString) : Session ι σ α := do
  throw (← purely (handleErrorPacket (← get).dc.capability data))

def handleOKPacket (data : GoString) : Session ι σ Answer := do
  let affectedRows ← purely (readLenEncInt data 1)
  let insertID ← purely (readLenEncInt data affectedRows.pos)
  let capability := (← get).dc.capability
  if capability &&& clientProtocol41 > 0 ∨ capability &&& clientTransactions > 0 then
    let status ← purely (uintAt 2 data insertID.pos)
    modifyDc fun dc => { dc with status }
    return { status, affectedRows := affectedRows.value, insertID := insertID.value }
  else
    return { status := 0, affectedRows := affectedRows.value, insertID := insertID.value }

/-- The status in an EOF packet, if the protocol has it there. -/
def readStatus (data : GoString) : Session ι σ Nat := do
  if (← get).dc.capability &&& clientProtocol41 > 0 then
    let status ← purely (uintAt 2 data 3)
    modifyDc fun dc => { dc with status }
    return status
  else
    return 0

/-- The bytes that wait to be read.  Every packet takes some of them, which bounds the loops below. -/
def pending : Session ι σ Nat := return match (← get).dc.conn with
  | none => 0
  | some c => c.unread.length

/-- One round of the loops that read a list of packets: the list goes on until an EOF or an error packet. -/
def readNext (onEOF onBody : GoString → Session ι σ α) : Session ι σ α := do
  let data ← readPacket
  if ← purely (isEOFPacket data) then onEOF data
  else if (← purely (byteAt data 0)) = errHeader then throwErrorPacket data
  else onBody data

/-- `readResultColumns`, with the columns that were read so far.  There is room for `count` columns. -/
def readResultColumns (count : Nat) : Nat → List Field → Session ι σ (List Field)
  | 0, _ => throw errMalformPacket
  | n + 1, fields => readNext
    (fun data => do
      let _ ← readStatus data
      if fields.length ≠ count then throw errMalformPacket else return fields)
    (fun data => do
      if count ≤ fields.length then throw outOfRange
      else readResultColumns count n (fields ++ [← purely (Field.parse data)]))

/-- The rows and the status behind them. -/
def readRowDatas : Nat → List GoString → Session ι σ (List GoString × Nat)
  | 0, _ => throw errMalformPacket
  | n + 1, rows => readNext (fun data => return (rows, ← readStatus data)) fun data => readRowDatas n (rows ++ [data])

/-- The longest slice of pointers that Go makes. -/
def maxSlice : Nat := 2 ^ 45

def readResultset (data : GoString) : Session ι σ Answer := do
  let count ← purely (readLenEncInt data 0)
  if count.pos ≠ data.length then
    throw errMalformPacket
  if maxSlice < count.value then
    throw (.panic "runtime error: makeslice: len out of range")
  let fields ← readResultColumns count.value ((← pending) + 1) []
  let (rowDatas, status) ← readRowDatas ((← pending) + 1) []
  let values ← purely (rowDatas.mapM (parseText · fields))
  return { status, fields, rowDatas, values }

def readResult : Session ι σ Answer := do
  let data ← readPacket
  let header ← purely (byteAt data 0)
  if header = okHeader then
    handleOKPacket data
  else if header = errHeader then
    throwErrorPacket data
  else if header = localInFileHeader then
    throw errMalformPacket
  else
    readResultset data

/-! ### Dialling -/

/-- The first packet of the server. -/
def readInitialHandshake : Session ι σ Unit := do
  let data ← readPacket
  let version ← purely (byteAt data 0)
  if version = errHeader then
    throw (.error "read initial handshake error")
  if version < 10 then
    throw (.error "invalid protocol version, must >= 10")
  let stop : Int := match data.tail.idxOf? 0 with
    | some n => n
    | none => -1
  let pos := 1 + stop + 1 + 4
  let _ ← purely (slice data pos (pos + 8))
  let pos := pos + 9
  let low ← purely (uintAt 2 data pos)
  modifyDc fun dc => { dc with capability := low }
  let pos := pos + 2
  if pos < data.length then
    let status ← purely (uintAt 2 data (pos + 1))
    modifyDc fun dc => { dc with status }
    let high ← purely (uintAt 2 data (pos + 3))
    modifyDc fun dc => { dc with capability := high * 2 ^ 16 ||| low }
    let _ ← purely (slice data (pos + 16) (pos + 28))

/-- What the proxy offers, as far as the server has it. -/
def clientCapability (dc : DirectConnection σ) : Nat :=
  let offered := clientProtocol41 ||| clientSecureConnection ||| clientLongPassword ||| clientTransactions |||
    clientLongFlag
  let capability := offered &&& dc.capability
  if dc.db.isEmpty then capability else capability ||| clientConnectWithDB

variable (write : Request → Session ι σ Unit)

def writeHandshakeResponse41 : Session ι σ Unit := do
  modifyDc fun dc => { dc with capability := clientCapability dc }
  let dc := (← get).dc
  write (.handshakeResponse dc.db (UInt8.ofNat dc.collation))

/-- `if err := …; err != nil { dc.conn.Close(); return err }` -/
def orCloseConn (x : Session ι σ α) : Session ι σ α := do
  match ← attemptErr x with
  | .ok a => return a
  | .error msg =>
    closeConn
    throw (.error msg)

/-- `exec` over a way to write. -/
def execBy (sql : Sql) : Session ι σ Answer := do
  setSequence 0
  write (.query sql)
  readResult

/-- `connect` over a way to write.  A handshake that is turned down does not close the socket. -/
def connectBy (third : Bool) : Session ι σ Unit := do
  hangUp
  dial server third
  orCloseConn readInitialHandshake
  orCloseConn (writeHandshakeResponse41 write)
  let response ← orCloseConn readPacket
  if (← purely (byteAt response 0)) ≠ okHeader then
    throw (.error "dc connection handshake failed with mysql")
  if !(← get).dc.isAutoCommit then
    let _ ← orCloseConn (execBy write (.setAutocommit true))

/-- The loop of `writePacket` behind a broken pipe.  `Close` marks the connection as closed, which nothing undoes. -/
def redial (connect : Bool → Session ι σ Unit) : Nat → Session ι σ Unit
  | 0 => return
  | n + 1 => do
    close
    match ← attemptErr (connect (n == 0)) with
    | .ok _ => return
    | .error _ => redial connect n

/-- `writePacket` and `writeEphemeralPacket`.  Dialling writes again; the recursion is on the number of writes that
the network has left to decide, of which the broken one was the first. -/
def writeN : Nat → Request → Session ι σ Unit
  | 0, req => do
    if ← tryWrite server req then
      modifyDc fun dc => { dc with closed := true }
      throw (.error "Write(packet) failed: broken pipe")
  | n + 1, req => do
    if ← tryWrite server req then
      redial (connectBy server (writeN n)) 3
      throw (.error "Write(packet) failed: broken pipe")

def writePacket (req : Request) : Session ι σ Unit := do
  writeN server (← get).net.writes.length req

def exec (sql : Sql) : Session ι σ Answer := execBy (writePacket server) sql

def connect : Session ι σ Unit := connectBy server (writePacket server) false

/-! ### Operations -/

/-- What `NewDirectConnection` starts with. -/
def fresh (db : GoString) (charset : String) (collation : CollationID) : DirectConnection σ where
  conn := none
  db := db
  capability := 0
  sessionVariables := {}
  status := 0
  collation := collation
  charset := charset
  closed := false

def useDB (dbName : GoString) : Session ι σ Unit := do
  setSequence 0
  if (← get).dc.db = dbName ∨ dbName.isEmpty then
    return
  setSequence 0
  writePacket server (.initDB dbName)
  let r ← readPacket
  if (← purely (byteAt r 0)) ≠ okHeader then
    throw (.error "dc connection use db failed")
  modifyDc fun dc => { dc with db := dbName }

def execute (text : GoString) : Session ι σ Answer := exec server (.user text)

def begin : Session ι σ Unit := do let _ ← exec server .begin

def commit : Session ι σ Unit := do let _ ← exec server .commit

def rollback : Session ι σ Unit := do let _ ← exec server .rollback

def rollbackTo (savepoint : GoString) : Session ι σ Unit := do let _ ← exec server (.rollbackTo savepoint)

def savepoint (savepoint : GoString) : Session ι σ Unit := do let _ ← exec server (.savepoint savepoint)

def setAutoCommit (on : Bool) : Session ι σ Unit := do
  let _ ← orCloseConn (exec server (.setAutocommit on))

/-- `strings.Trim(charset, "\"'`")` -/
def trimCharset (charset : String) : String :=
  let quote := fun c : Char => c = '"' || c = '\'' || c = '`'
  String.ofList ((charset.toList.dropWhile quote).reverse.dropWhile quote).reverse

/-- 0 stands for the default of the character set. -/
def requestedCollation (charset : String) (collation : CollationID) : CollationID :=
  if collation = 0 then ((charsets charset).bind collationNames).getD 0 else collation

/-- Whether something changed.  Nothing is sent. -/
def setCharset (charset : String) (collation : CollationID) : Session ι σ Bool := do
  let charset := trimCharset charset
  let collation := requestedCollation charset collation
  let dc := (← get).dc
  if dc.charset = charset ∧ dc.collation = collation then
    return false
  else if charsetIds charset = none then
    throw (.error ("invalid charset " ++ charset))
  else if collations collation = none then
    throw (.error ("invalid collation " ++ toString collation))
  else
    modifyDc fun dc => { dc with charset, collation }
    return true

/-- Before a connection goes back to its pool. -/
def resetConnection : Session ι σ Unit := do
  if (← get).dc.isInTransaction then
    rollback server
  if !(← get).dc.isAutoCommit then
    setAutoCommit server true

def setSessionVariables (frontend : SessionVariables) : Session ι σ Bool :=
  Effect.zoom (fun s => s.dc.sessionVariables) (fun v s => { s with dc := { s.dc with sessionVariables := v } })
    (SessionVariables.setEqualsWith frontend)

/-- The unused variables are forgotten before the statement is sent. -/
def writeSetStatement : Session ι σ Unit := do
  let dc := (← get).dc
  match collations dc.collation with
  | none => throw (.error ("invalid collationId: " ++ toString dc.collation))
  | some collation =>
    modifyDc fun dc => { dc with sessionVariables := { dc.sessionVariables with unused := [] } }
    let _ ← exec server (.setSession ⟨dc.charset, collation, dc.sessionVariables.vars, dc.sessionVariables.unused⟩)

def readFieldList : Nat → List Field → Session ι σ (List Field)
  | 0, _ => throw errMalformPacket
  | n + 1, fields => readNext (fun _ => return fields) fun data => do
    readFieldList n (fields ++ [← purely (Field.parse data)])

def fieldList (table wildcard : GoString) : Session ι σ (List Field) := do
  setSequence 0
  writePacket server (.fieldList table wildcard)
  readFieldList ((← pending) + 1) []

end DirectConnection

/-- What a session wants of a backend connection before it runs a statement. -/
structure SessionState where
  charset : String
  collation : CollationID
  sessionVariables : SessionVariables
  deriving DecidableEq, Repr

/-- `initBackendConn` -/
def initBackendConn {ι σ : Type} (server : Peer ι σ) (phyDB : GoString) (want : SessionState) : Session ι σ Unit := do
  DirectConnection.useDB server phyDB
  let charsetChanged ← DirectConnection.setCharset want.charset want.collation
  let variablesChanged ← DirectConnection.setSessionVariables want.sessionVariables
  if charsetChanged ∨ variablesChanged then
    DirectConnection.writeSetStatement server

end DbProxy
