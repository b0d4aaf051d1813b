import DbProxy.Backend.Pool

/-!
# The executor of a session

`SessionExecutor` carries out the commands of a client.  While a transaction is open, or autocommit is off, it keeps
one backend connection for each slice in `txConns`; otherwise a connection is taken out of its pool for one statement.
-/

namespace DbProxy

/-- Of the status word only the two bits are used. -/
structure SessionExecutor where
  inTrans : Bool := false
  autocommit : Bool := true
  state : SessionState
  statisticUser : Bool := false
  txConns : AssocMap String ConnId := []
  deriving DecidableEq, Repr

def SessionExecutor.isInTransaction (se : SessionExecutor) : Bool := se.inTrans || !se.autocommit

/-- A session and the connections of the proxy. -/
structure Proxy (ι σ : Type) where
  store : Store ι σ
  se : SessionExecutor

abbrev Executing (ι σ : Type) := Effect Fail (Proxy ι σ)

namespace SessionExecutor

variable {ι σ α : Type}

def onStore (x : Pooling ι σ α) : Executing ι σ α :=
  Effect.zoom (fun t => t.store) (fun store t => { t with store }) x

def onConn (c : ConnId) (x : Session ι σ α) : Executing ι σ α := onStore (Store.onLink c x)

def modifySe (f : SessionExecutor → SessionExecutor) : Executing ι σ Unit := modify fun t => { t with se := f t.se }

variable (server : Peer ι σ)

/-! ### Connections for a statement -/

/-- A transaction is begun on the connection in the way the session is in one. -/
def openTransaction (autocommit : Bool) : Session ι σ Unit :=
  if autocommit then DirectConnection.begin server else DirectConnection.setAutoCommit server false

def getTransactionConn (sliceName : String) : Executing ι σ ConnId := do
  let se := (← get).se
  match se.txConns.get sliceName with
  | some pc => return pc
  | none =>
    let pc ← onStore (Store.getMasterConn server sliceName)
    match ← attemptErr (onConn pc (openTransaction server se.autocommit)) with
    | .ok _ =>
      modifySe fun se => { se with txConns := se.txConns.set sliceName pc }
      return pc
    | .error msg =>
      onConn pc DirectConnection.close
      onStore (Store.recycle server pc)
      throw (.error msg)

def getBackendConn (sliceName : String) (flag : ExecuteFlag) : Executing ι σ ConnId := do
  let se := (← get).se
  if se.isInTransaction then getTransactionConn server sliceName
  else onStore (Store.getSliceConn server sliceName se.statisticUser flag)

/-- The connections in the order of the slices, and the error that ended the loop. -/
def getBackendConns (flag : ExecuteFlag) : List String → Executing ι σ (List ConnId × Option String)
  | [] => return ([], none)
  | sliceName :: rest => do
    match ← attemptErr (getBackendConn server sliceName flag) with
    | .error msg => return ([], some msg)
    | .ok pc =>
      let (pcs, err) ← getBackendConns flag rest
      return (pc :: pcs, err)

def recycleAll : List ConnId → Executing ι σ Unit
  | [] => return
  | pc :: pcs => do
    onStore (Store.recycle server pc)
    recycleAll pcs

/-- `recycleBackendConn` and `recycleBackendConns`, which are never asked to roll back. -/
def recycleBackendConns (pcs : List ConnId) : Executing ι σ Unit := do
  if !(← get).se.isInTransaction then
    recycleAll server pcs

/-! ### Statements -/

/-- The statements for one database, up to its end: an error of one does not stop the next. -/
def executeInDB (pc : ConnId) : List GoString → Executing ι σ (List (Except String DirectConnection.Answer))
  | [] => return []
  | sql :: sqls => do
    let r ← attemptErr (onConn pc (DirectConnection.execute server sql))
    return r :: (← executeInDB pc sqls)

/-- The statements for a physical database.  There is one at least, so that an error of the database has a place among
the results. -/
structure DBSqls where
  db : GoString
  sqls : List GoString
  sqls_ne_nil : sqls ≠ []

/-- The worker of a slice.  A connection that cannot be set up for a database ends it. -/
def executeInSlice (pc : ConnId) : List DBSqls → Executing ι σ (List (Except String DirectConnection.Answer))
  | [] => return []
  | ⟨db, sqls, _⟩ :: rest => do
    match ← attemptErr (onConn pc (initBackendConn server db (← get).se.state)) with
    | .error msg => return [.error msg]
    | .ok _ =>
      let rs ← executeInDB server pc sqls
      return rs ++ (← executeInSlice pc rest)

/-- The workers of all slices.  They share no connection, so the order of their steps does not matter. -/
def executeInSlices :
    List (ConnId × List DBSqls) → Executing ι σ (List (Except String DirectConnection.Answer))
  | [] => return []
  | (pc, sqls) :: rest => do
    let rs ← executeInSlice server pc sqls
    return rs ++ (← executeInSlices rest)

/-- The statements for each slice and each of its physical databases. -/
abbrev Sqls := List (String × List DBSqls)

def executeInMultiSlices (pcs : List ConnId) (sqls : Sqls) : Executing ι σ (List DirectConnection.Answer) := do
  if pcs.length ≠ sqls.length then
    throw (.error "the length of conns not equal sqls")
  else if pcs.isEmpty then
    throw (.error "statement have no plan")
  else
    let rs ← executeInSlices server (pcs.zip (sqls.map Prod.snd))
    match rs.mapM id with
    | .ok answers => return answers
    | .error msg => throw (.error msg)

/-- `ExecuteSQLs`.  A panic of a worker is not recovered: it ends the proxy before the connections are given back. -/
def executeSQLs (flag : ExecuteFlag) (sqls : Sqls) : Executing ι σ (List DirectConnection.Answer) := do
  if sqls.isEmpty then
    throw (.error "no sql to execute")
  else
    let (pcs, err) ← getBackendConns server flag (sqls.map Prod.fst)
    match err with
    | some msg =>
      recycleBackendConns server pcs
      throw (.error msg)
    | none =>
      match ← attemptErr (executeInMultiSlices server pcs sqls) with
      | .ok rs =>
        recycleBackendConns server pcs
        return rs
      | .error msg =>
        recycleBackendConns server pcs
        throw (.error msg)

/-- The connection is given back, also after a panic. -/
def andRecycle (pc : ConnId) (x : Executing ι σ α) : Executing ι σ α := do
  match ← x.attempt with
  | .ok a =>
    recycleBackendConns server [pc]
    return a
  | .error e =>
    recycleBackendConns server [pc]
    throw e

/-- `ExecuteSQL`; `phyDB` is what `GetDefaultPhyDB` returns. -/
def executeSQL (flag : ExecuteFlag) (phyDB : Except String GoString) (sql : GoString) :
    Executing ι σ DirectConnection.Answer := do
  let pc ← getBackendConn server "slice-0" flag
  andRecycle server pc do
    match phyDB with
    | .error msg => throw (.error msg)
    | .ok phyDB =>
      onConn pc (initBackendConn server phyDB (← get).se.state)
      onConn pc (DirectConnection.execute server sql)

/-- `handleFieldList`, with the slice of the table. -/
def handleFieldList (sliceName : String) (flag : ExecuteFlag) (phyDB : Except String GoString)
    (table wildcard : GoString) : Executing ι σ (List Field) := do
  let pc ← getBackendConn server sliceName flag
  andRecycle server pc do
    match phyDB with
    | .error msg => throw (.error msg)
    | .ok phyDB =>
      onConn pc (initBackendConn server phyDB (← get).se.state)
      onConn pc (DirectConnection.fieldList server table wildcard)

/-! ### Variables -/

/-- `setStringSessionVariable` and `setIntSessionVariable`; without a value the variable goes back to its default. -/
def setSessionVariable (name : VariableName) : Option GoVal → Executing ι σ Unit
  | none => modifySe fun se =>
    let vars := se.state.sessionVariables.vars.filter (·.1 ≠ name)
    { se with state := { se.state with sessionVariables := { se.state.sessionVariables with vars } } }
  | some value => Effect.zoom (fun t => t.se.state.sessionVariables)
      (fun v t => { t with se := { t.se with state := { t.se.state with sessionVariables := v } } })
      (SessionVariables.set name value)

/-! ### Transactions -/

def beginAll : List ConnId → Executing ι σ Unit
  | [] => return
  | pc :: pcs => do
    onConn pc (DirectConnection.begin server)
    beginAll pcs

def handleBegin : Executing ι σ Unit := do
  beginAll server ((← get).se.txConns.map Prod.snd)
  modifySe fun se => { se with inTrans := true }

/-- An operation on each connection, which is then given back; the last error. -/
def giveBack (x : Session ι σ Unit) : List ConnId → Executing ι σ (Option String)
  | [] => return none
  | pc :: pcs => do
    let r ← attemptErr (onConn pc x)
    onStore (Store.recycle server pc)
    let err ← giveBack x pcs
    return err <|> match r with
      | .ok _ => none
      | .error msg => some msg

/-- How `commit`, `rollback`, `rollbackTo`, `savepoint` and the end of `handleSetAutoCommit` go over the connections.
`txConns` is emptied behind the loop. -/
def giveBackAll (x : Session ι σ Unit) : Executing ι σ Unit := do
  let err ← giveBack server x ((← get).se.txConns.map Prod.snd)
  modifySe fun se => { se with txConns := [] }
  match err with
  | none => return
  | some msg => throw (.error msg)

def commit : Executing ι σ Unit := do
  modifySe fun se => { se with inTrans := false }
  giveBackAll server (DirectConnection.commit server)

def rollback : Executing ι σ Unit := do
  modifySe fun se => { se with inTrans := false }
  giveBackAll server (DirectConnection.rollback server)

def rollbackTo (savepoint : GoString) : Executing ι σ Unit :=
  giveBackAll server (DirectConnection.rollbackTo server savepoint)

def savepoint (savepoint : GoString) : Executing ι σ Unit :=
  giveBackAll server (DirectConnection.savepoint server savepoint)

def handleSetAutoCommit (autocommit : Bool) : Executing ι σ Unit := do
  if autocommit then
    modifySe fun se => { se with autocommit := true, inTrans := false }
    giveBackAll server (DirectConnection.setAutoCommit server true)
  else
    modifySe fun se => { se with autocommit := false }

end SessionExecutor

/-- What a client asks of its session, once it is parsed and planned.  `close` is the end of the session. -/
inductive Command where
  | executeSQLs (flag : ExecuteFlag) (sqls : SessionExecutor.Sqls)
  | executeSQL (flag : ExecuteFlag) (phyDB : Except String GoString) (sql : GoString)
  | fieldList (sliceName : String) (flag : ExecuteFlag) (phyDB : Except String GoString) (table wildcard : GoString)
  | setCharset (charset : String) (collation : CollationID)
  | setVariable (name : VariableName) (value : Option GoVal)
  | begin
  | commit
  | rollback
  | rollbackTo (name : GoString)
  | savepoint (name : GoString)
  | setAutocommit (on : Bool)
  | close

/-- A command, without the rows that it returns. -/
def Command.run {ι σ : Type} (server : Peer ι σ) : Command → Executing ι σ Unit
  | .executeSQLs flag sqls => do let _ ← SessionExecutor.executeSQLs server flag sqls
  | .executeSQL flag phyDB sql => do let _ ← SessionExecutor.executeSQL server flag phyDB sql
  | .fieldList sliceName flag phyDB table wildcard => do
    let _ ← SessionExecutor.handleFieldList server sliceName flag phyDB table wildcard
  | .setCharset charset collation =>
    SessionExecutor.modifySe fun se => { se with state := { se.state with charset, collation } }
  | .setVariable name value => SessionExecutor.setSessionVariable name value
  | .begin => SessionExecutor.handleBegin server
  | .commit => SessionExecutor.commit server
  | .rollback | .close => SessionExecutor.rollback server
  | .rollbackTo name => SessionExecutor.rollbackTo server name
  | .savepoint name => SessionExecutor.savepoint server name
  | .setAutocommit on => SessionExecutor.handleSetAutoCommit server on

end DbProxy
