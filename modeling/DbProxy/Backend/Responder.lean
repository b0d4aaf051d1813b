import DbProxy.Backend.Response

/-!
# Servers that answer completely

A `Responder` greets with a well-formed greeting and answers every request with one complete response, whose status
flags are true of its session if the response is a success.  Everything else about it is open.
-/

namespace DbProxy

open DirectConnection

/-- The first packet of a server. -/
structure Greeting where
  version : UInt8
  serverVersion : GoString
  connectionId : GoString
  salt : GoString
  filler : UInt8
  low : UInt8 × UInt8
  charset : UInt8
  status : UInt8 × UInt8
  high : UInt8 × UInt8
  reserved : GoString
  salt' : GoString
  version_le : 10 ≤ version
  version_ne : version ≠ errHeader
  serverVersion_ne : 0 ∉ serverVersion
  connectionId_length : connectionId.length = 4
  salt_length : salt.length = 8
  reserved_length : reserved.length = 11
  salt'_length : 12 ≤ salt'.length
  protocol41 : littleEndian [low.1, low.2] &&& clientProtocol41 > 0

namespace Greeting

variable (g : Greeting)

def packet : GoString :=
  g.version :: g.serverVersion ++ 0 :: g.connectionId ++ g.salt ++ [g.filler, g.low.1, g.low.2, g.charset, g.status.1,
    g.status.2, g.high.1, g.high.2] ++ g.reserved ++ g.salt'

def statusFlags : Nat := littleEndian [g.status.1, g.status.2]

def capability : Nat := littleEndian [g.high.1, g.high.2] * 2 ^ 16 ||| littleEndian [g.low.1, g.low.2]

end Greeting

/-- One complete response to a query. -/
structure Reply where
  packets : List GoString
  success : Bool
  status : Option Nat
  complete : Response packets success status

/-- The answer to a request that asks for no more than an OK. -/
structure ShortReply where
  packet : GoString
  status : Option Nat
  complete : match status with
    | some status => OkPacket packet status
    | none => ErrPacket packet

def ShortReply.success (r : ShortReply) : Bool := r.status.isSome

structure Responder (ι σ : Type) where
  /-- The status flags are true of the session. -/
  flags : σ → Nat → Prop
  greet : ι → σ × Greeting
  login : ι → GoString → UInt8 → σ → σ × ShortReply
  initDB : ι → GoString → σ → σ × ShortReply
  query : ι → Sql → σ → σ × Reply
  fieldList : ι → GoString → GoString → σ → σ × { packets : List GoString // FieldListResponse packets }
  greet_flags : ∀ i, flags (greet i).1 (greet i).2.statusFlags
  login_flags : ∀ {i db collation p status}, flags p status → flags (login i db collation p).1 status
  query_flags : ∀ {i sql p status}, (query i sql p).2.success → (query i sql p).2.status = some status →
    flags (query i sql p).1 status

/-- What a request does to the session, and the packets that answer it. -/
def Responder.respond {ι σ : Type} (r : Responder ι σ) (i : ι) : Request → σ → σ × List GoString
  | .handshakeResponse db collation, p => ((r.login i db collation p).1, [(r.login i db collation p).2.packet])
  | .initDB db, p => ((r.initDB i db p).1, [(r.initDB i db p).2.packet])
  | .query sql, p => ((r.query i sql p).1, (r.query i sql p).2.packets)
  | .fieldList table wildcard, p => ((r.fieldList i table wildcard p).1, (r.fieldList i table wildcard p).2.1)

/-- A session that was taken up, and the status known of it: logged in, and switched to autocommit if it was not. -/
inductive Responder.Opened {ι σ : Type} (r : Responder ι σ) : σ → Nat → Prop
  | greeted {i j : ι} {db : GoString} {collation : UInt8} : (r.login j db collation (r.greet i).1).2.success →
    (r.greet i).2.statusFlags &&& serverStatusAutocommit > 0 →
    r.Opened (r.login j db collation (r.greet i).1).1 (r.greet i).2.statusFlags
  | switched {i j k : ι} {db : GoString} {collation : UInt8} {status : Nat} :
    (r.login j db collation (r.greet i).1).2.success →
    (r.query k (.setAutocommit true) (r.login j db collation (r.greet i).1).1).2.success →
    (r.query k (.setAutocommit true) (r.login j db collation (r.greet i).1).1).2.status = some status →
    r.Opened (r.query k (.setAutocommit true) (r.login j db collation (r.greet i).1).1).1 status

theorem Reply.status_of_success (r : Reply) (h : r.success = true) : ∃ status, r.status = some status := by
  obtain ⟨packets, success, status, hcomplete⟩ := r
  cases h
  cases hcomplete with
  | ok _ => exact ⟨_, rfl⟩
  | rows _ _ _ _ _ => exact ⟨_, rfl⟩

/-- The server on the wire. -/
def Responder.peer {ι σ : Type} (r : Responder ι σ) : Peer ι σ where
  accept i := ((r.greet i).1, frames 0 [(r.greet i).2.packet])
  serve i sequence req p := ((r.respond i req p).1, frames sequence (r.respond i req p).2)

end DbProxy
