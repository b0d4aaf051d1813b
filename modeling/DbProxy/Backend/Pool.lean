import DbProxy.Backend.Connection
import Mathlib.Logic.Function.Basic

/-!
# Connection pools

A pool hands out connections and takes them back.  What it holds are slots: a slot without a connection is filled by
dialling when it is taken out.  A connection is known by its number; the pool that made it is its home.
-/

namespace DbProxy

/-- The pools of a slice. -/
inductive Role where
  | master
  | slave
  | masterDCSlave
  | statisticSlave
  deriving DecidableEq, Repr

structure PoolId where
  slice : String
  role : Role
  index : Nat
  deriving DecidableEq, Repr

abbrev ConnId := Nat

/-- `ConnectionPool` over its `ResourcePool`. -/
structure Pool where
  resources : List (Option ConnId)
  maxCapacity : Nat
  db : GoString
  charset : String
  collationID : CollationID
  deriving DecidableEq, Repr

/-- The round robin over the slaves of one kind. -/
structure Balancer where
  slaves : Nat
  queue : List Nat
  last : Nat
  deriving DecidableEq, Repr

structure Slice where
  slave : Balancer
  masterDCSlave : Balancer
  statisticSlave : Balancer
  deriving DecidableEq, Repr

/-- The connections that were made so far and where they are, and the network. -/
structure Store (ι σ : Type) where
  conns : ConnId → DirectConnection σ
  home : ConnId → PoolId
  next : ConnId
  pools : PoolId → Pool
  slices : String → Slice
  net : Net ι

abbrev Pooling (ι σ : Type) := Effect Fail (Store ι σ)

namespace Store

variable {ι σ α : Type}

/-- An operation on a connection. -/
def onLink (c : ConnId) (x : Session ι σ α) : Pooling ι σ α :=
  Effect.zoom (fun t => ⟨t.conns c, t.net⟩)
    (fun l t => { t with conns := Function.update t.conns c l.dc, net := l.net }) x

def setResources (p : PoolId) (resources : List (Option ConnId)) : Pooling ι σ Unit :=
  modify fun t => { t with pools := Function.update t.pools p { t.pools p with resources } }

/-! ### Taking connections out -/

variable (server : Peer ι σ)

/-- `ConnectionPool.connect` -/
def newConnection (p : PoolId) : Pooling ι σ ConnId := do
  let t ← get
  let c := t.next
  let pool := t.pools p
  set { t with
    conns := Function.update t.conns c (.fresh pool.db pool.charset pool.collationID),
    home := Function.update t.home c p, next := c + 1 }
  onLink c (DirectConnection.connect server)
  return c

/-- `Get`.  A pool that is empty stays so until the call times out. -/
def getConn (p : PoolId) : Pooling ι σ ConnId := do
  match ((← get).pools p).resources with
  | [] => throw (.error "resource pool timed out")
  | some c :: rest =>
    setResources p rest
    return c
  | none :: rest =>
    setResources p rest
    match ← attemptErr (newConnection server p) with
    | .ok c => return c
    | .error msg =>
      setResources p (((← get).pools p).resources ++ [none])
      throw (.error msg)

/-! ### Putting connections back -/

/-- `ResourcePool.Put` -/
def putResource (p : PoolId) (resource : Option ConnId) : Pooling ι σ Unit := do
  let pool := (← get).pools p
  if pool.resources.length < pool.maxCapacity then setResources p (pool.resources ++ [resource])
  else throw (.panic "attempt to Put into a full ResourcePool")

/-- `ConnectionPool.Put`.  A connection that cannot be reset is closed. -/
def put (p : PoolId) : Option ConnId → Pooling ι σ Unit
  | none => putResource p none
  | some c => do
    match ← attemptErr (onLink c (DirectConnection.resetConnection server)) with
    | .ok _ => putResource p (some c)
    | .error _ =>
      onLink c DirectConnection.close
      putResource p none

/-- `PooledConnection.Recycle` -/
def recycle (c : ConnId) : Pooling ι σ Unit := do
  let t ← get
  put server (t.home c) (if (t.conns c).closed then none else some c)

/-! ### Choosing a pool -/

def errNoDatabase : Fail := .error "no database"

/-- `getNextSlave` and `getNextMasterDCSlave`. -/
def Balancer.getNext (b : Balancer) : Except Fail Nat × Balancer :=
  match b.queue with
  | [] => (.error errNoDatabase, b)
  | [index] => (if index < b.slaves then .ok index else .error outOfRange, b)
  | queue =>
    let last := b.last % queue.length
    let index := queue.getD last 0
    if b.slaves ≤ index then (.error errNoDatabase, { b with last })
    else (.ok index, { b with last := (last + 1) % queue.length })

def getNextSlave (s : Slice) : Except Fail Nat × Slice :=
  let (index, slave) := Balancer.getNext s.slave
  (index, { s with slave })

def getNextMasterDCSlave (s : Slice) : Except Fail Nat × Slice :=
  let (index, masterDCSlave) := Balancer.getNext s.masterDCSlave
  (index, { s with masterDCSlave })

/-- The position that is brought into range is that of the other slaves. -/
def getNextStatisticSlave (s : Slice) : Except Fail Nat × Slice :=
  let b := s.statisticSlave
  match b.queue with
  | [] => (.error errNoDatabase, s)
  | [index] => (if index < b.slaves then .ok index else .error outOfRange, s)
  | queue =>
    let s := { s with slave := { s.slave with last := b.last % queue.length } }
    match queue[b.last]? with
    | none => (.error outOfRange, s)
    | some index =>
      if b.slaves ≤ index then (.error errNoDatabase, s)
      else (.ok index, { s with statisticSlave := { b with last := (b.last + 1) % queue.length } })

/-- A connection to the next slave of a kind. -/
def getNextConn (role : Role) (next : Slice → Except Fail Nat × Slice) (slice : String) : Pooling ι σ ConnId := do
  let t ← get
  let (index, s) := next (t.slices slice)
  set { t with slices := Function.update t.slices slice s }
  match index with
  | .ok index => getConn server ⟨slice, role, index⟩
  | .error e => throw e

def getMasterConn (slice : String) : Pooling ι σ ConnId := getConn server ⟨slice, .master, 0⟩

def getSlaveConn : String → Pooling ι σ ConnId := getNextConn server .slave getNextSlave

def getMasterDCSlaveConn : String → Pooling ι σ ConnId := getNextConn server .masterDCSlave getNextMasterDCSlave

def getStatisticSlaveConn : String → Pooling ι σ ConnId := getNextConn server .statisticSlave getNextStatisticSlave

end Store

/-- `MasterFlag`, `SlaveFlag` and `MasterDCFlag`. -/
inductive ExecuteFlag where
  | master
  | slave
  | masterDC
  deriving DecidableEq, Repr

/-- `Slice.GetConn` -/
def Store.getSliceConn {ι σ : Type} (server : Peer ι σ) (slice : String) (statisticUser : Bool) :
    ExecuteFlag → Pooling ι σ ConnId
  | .slave =>
    if statisticUser then getStatisticSlaveConn server slice
    else do
      match ← attemptErr (getSlaveConn server slice) with
      | .ok c => return c
      | .error _ => getMasterConn server slice
  | .masterDC => getMasterDCSlaveConn server slice
  | .master => getMasterConn server slice

end DbProxy
