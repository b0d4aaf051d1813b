import DbProxy.Server.Executor

/-!
# The proxy with its sessions

Any number of sessions share the pools.  Their commands do not overlap; each one meets a network of its own.
-/

namespace DbProxy

structure System (ι σ : Type) where
  store : Store ι σ
  sessions : List SessionExecutor

inductive Event (ι : Type) where
  | open (charset : String) (collation : CollationID) (statisticUser : Bool)
  | command (session : Nat) (command : Command) (net : Net ι)

namespace System

variable {ι σ : Type} (server : Peer ι σ)

/-- `newSessionExecutor`, and what the handshake sets. -/
def newSession (charset : String) (collation : CollationID) (statisticUser : Bool) : SessionExecutor :=
  { state := ⟨charset, collation, {}⟩, statisticUser }

def step (s : System ι σ) : Event ι → System ι σ
  | .open charset collation statisticUser =>
    { s with sessions := s.sessions ++ [newSession charset collation statisticUser] }
  | .command i command net => match s.sessions[i]? with
    | none => s
    | some se =>
      let t := (command.run server ⟨{ s.store with net }, se⟩).2
      ⟨t.store, s.sessions.set i t.se⟩

def run (s : System ι σ) (events : List (Event ι)) : System ι σ := events.foldl (step server) s

/-- No session is there, and no pool has made a connection. -/
structure Fresh (s : System ι σ) : Prop where
  sessions : s.sessions = []
  empty : ∀ p, ∀ resource ∈ (s.store.pools p).resources, resource = none
  capacity : ∀ p, (s.store.pools p).resources.length ≤ (s.store.pools p).maxCapacity

end System

end DbProxy
