import DbProxy.Backend.Responder

/-!
# A reference server

A server that keeps for each session what MySQL documents about transactions and about the state of a session, in the
simplest way: statements are only noted down.  Each request is accepted or turned down as the environment says.
-/

namespace DbProxy

open DirectConnection

namespace Reference

structure Session where
  autocommit : Bool := true
  /-- The statements of the transaction that is open. -/
  pending : Option (List GoString) := none
  committed : List GoString := []
  db : GoString := []
  charset : String := "utf8"
  collation : String := "utf8_general_ci"
  vars : AssocMap VariableName GoVal := []
  deriving DecidableEq, Repr

namespace Session

def commit (p : Session) : Session := { p with committed := p.committed ++ p.pending.getD [], pending := none }

/-- Statements outside of a transaction are committed at once. -/
def note (text : GoString) (p : Session) : Session :=
  if p.autocommit && p.pending.isNone then { p with committed := p.committed ++ [text] }
  else { p with pending := some (p.pending.getD [] ++ [text]) }

def setState (s : SetStatement) (p : Session) : Session := { p with
  charset := s.charset, collation := s.collation,
  vars := (s.vars.foldl (fun m e => m.set e.1 e.2) p.vars).filter (·.1 ∉ s.defaults) }

def run : Sql → Session → Session
  | .begin, p => { p.commit with pending := some [] }
  | .commit, p => p.commit
  | .rollback, p => { p with pending := none }
  | .rollbackTo _, p | .savepoint _, p => p
  | .setAutocommit true, p => if p.autocommit then p else { p.commit with autocommit := true }
  | .setAutocommit false, p => { p with autocommit := false }
  | .setSession s, p => p.setState s
  | .user text, p => p.note text

end Session

/-- The byte with the two flags. -/
def flagByte (inTrans autocommit : Bool) : UInt8 := (if inTrans then 1 else 0) + (if autocommit then 2 else 0)

def byte (p : Session) : UInt8 := flagByte p.pending.isSome p.autocommit

def flags (p : Session) : Nat := (byte p).toNat

def okPacket (b : UInt8) : GoString := [okHeader, 0, 0, b, 0, 0, 0]

def errPacket : GoString := [errHeader, 1, 0, 35, 72, 89, 48, 48, 48]

theorem okPacket_spec (b : UInt8) : OkPacket (okPacket b) b.toNat := ⟨rfl, _, _, rfl, rfl, rfl⟩

def eofPacket : GoString := [eofHeader, 0, 0, 2, 0]

theorem eofPacket_spec : EofPacket eofPacket 2 := ⟨0, 0, 2, 0, rfl, rfl⟩

theorem errPacket_spec : ErrPacket errPacket := ⟨rfl, by decide⟩

def ok (p : Session) : Reply := ⟨[okPacket (byte p)], true, some (flags p), .ok (okPacket_spec _)⟩

def refusal : Reply := ⟨[errPacket], false, none, .err errPacket_spec⟩

def short (accepted : Bool) : ShortReply :=
  if accepted then ⟨okPacket 0, some 0, okPacket_spec 0⟩ else ⟨errPacket, none, errPacket_spec⟩

def greeting : Greeting where
  version := 10
  serverVersion := [53]
  connectionId := [0, 0, 0, 0]
  salt := [0, 0, 0, 0, 0, 0, 0, 0]
  filler := 0
  low := (0, 2)
  charset := 0
  status := (2, 0)
  high := (0, 0)
  reserved := List.replicate 11 0
  salt' := List.replicate 12 0
  version_le := by decide
  version_ne := by decide
  serverVersion_ne := by decide
  connectionId_length := rfl
  salt_length := rfl
  reserved_length := rfl
  salt'_length := by decide
  protocol41 := by decide

/-- A request comes with whether it is accepted. -/
def responder : Responder Bool Session where
  flags p status := status = flags p
  greet _ := ({}, greeting)
  login accepted db _ p := ({ p with db }, short accepted)
  initDB accepted db p := (if accepted then { p with db } else p, short accepted)
  query accepted sql p := if accepted then (p.run sql, ok (p.run sql)) else (p, refusal)
  fieldList accepted _ _ p := (p, if accepted then ⟨[eofPacket], .ok .nil eofPacket_spec⟩
    else ⟨[errPacket], .err .nil errPacket_spec⟩)
  greet_flags _ := rfl
  login_flags h := h
  query_flags {accepted sql p status} _ := by
    cases accepted with
    | true => simp [ok, eq_comm]
    | false => simp [refusal]

/-- A connection at rest. -/
def idle : DirectConnection Session where
  conn := some ⟨some {}, [], 0⟩
  db := []
  capability := clientProtocol41
  sessionVariables := {}
  status := 2
  collation := 33
  charset := "utf8"
  closed := false

/-- Every dial is answered and every request gets through. -/
def calm : Net Bool := ⟨fun _ => Stream'.const (some true), List.replicate 16 (.ok true), Stream'.const true⟩

end Reference

end DbProxy
