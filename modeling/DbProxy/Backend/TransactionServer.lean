import DbProxy.Backend.Reference

/-!
# Servers with transactions

What MySQL documents about the transactions of a session, as far as the proxy can rely on it.  An answer without a
status says nothing about the session; all that is known then is that no transaction was opened in autocommit mode.
-/

namespace DbProxy

open DirectConnection

structure TransactionServer (ι σ : Type) extends Responder ι σ where
  autocommit : σ → Bool
  inTrans : σ → Bool
  flags_autocommit : ∀ {p status}, flags p status → (status &&& serverStatusAutocommit > 0 ↔ autocommit p)
  flags_inTrans : ∀ {p status}, flags p status → (status &&& serverStatusInTrans > 0 ↔ inTrans p)
  /-- The status in front of rows that end in an error: the error can end the transaction, but it opens none. -/
  failed_query : ∀ {i sql p status}, (query i sql p).2.success = false → (query i sql p).2.status = some status →
    (status &&& serverStatusAutocommit > 0 ↔ autocommit (query i sql p).1) ∧
      (inTrans (query i sql p).1 → status &&& serverStatusInTrans > 0 ∨ autocommit (query i sql p).1 = false)
  silent_query : ∀ {i sql p}, (query i sql p).2.status = none → autocommit (query i sql p).1 = autocommit p ∧
    (inTrans (query i sql p).1 → inTrans p ∨ autocommit p = false)
  silent_initDB : ∀ i db p, autocommit (initDB i db p).1 = autocommit p ∧
    (inTrans (initDB i db p).1 → inTrans p ∨ autocommit p = false)
  silent_fieldList : ∀ i table wildcard p, autocommit (fieldList i table wildcard p).1 = autocommit p ∧
    (inTrans (fieldList i table wildcard p).1 → inTrans p ∨ autocommit p = false)
  /-- A rollback that succeeds ends the transaction. -/
  rollback_ends : ∀ {i p}, (query i .rollback p).2.success → inTrans (query i .rollback p).1 = false
  /-- A session that goes back to autocommit commits its transaction. -/
  setAutocommit_ends : ∀ {i p}, (query i (.setAutocommit true) p).2.success →
    autocommit (query i (.setAutocommit true) p).1 ∧
    (inTrans (query i (.setAutocommit true) p).1 → inTrans p ∧ autocommit p)

/-- What the last status tells about a session. -/
structure TransactionServer.Synced {ι σ : Type} (server : TransactionServer ι σ) (p : σ) (status : Nat) : Prop where
  autocommit : status &&& serverStatusAutocommit > 0 ↔ server.autocommit p
  inTrans : server.inTrans p → status &&& serverStatusInTrans > 0 ∨ server.autocommit p = false

namespace TransactionServer

variable {ι σ : Type} (server : TransactionServer ι σ)

variable {server} in
theorem Synced.of_flags {p : σ} {status : Nat} (h : server.flags p status) : server.Synced p status :=
  ⟨server.flags_autocommit h, fun hp => .inl ((server.flags_inTrans h).2 hp)⟩

variable {server} in
theorem Synced.of_silent {p p' : σ} {status : Nat} (h : server.Synced p status)
    (hsilent : server.autocommit p' = server.autocommit p ∧
      (server.inTrans p' → server.inTrans p ∨ server.autocommit p = false)) :
    server.Synced p' status := by
  refine ⟨hsilent.1 ▸ h.autocommit, fun hp' => ?_⟩
  rw [hsilent.1]
  rcases hsilent.2 hp' with hp | hp
  · exact h.inTrans hp
  · exact .inr hp

variable {server} in
theorem Synced.of_query {i : ι} {sql : Sql} {p : σ} {status : Nat}
    (h : (server.query i sql p).2.status = some status) : server.Synced (server.query i sql p).1 status := by
  cases hok : (server.query i sql p).2.success with
  | true => exact .of_flags (server.query_flags hok h)
  | false => exact ⟨(server.failed_query hok h).1, (server.failed_query hok h).2⟩

theorem flags_of_opened {p : σ} {status : Nat} (h : server.Opened p status) : server.flags p status := by
  cases h with
  | greeted _ _ => exact server.login_flags (server.greet_flags _)
  | switched _ hok hstatus => exact server.query_flags hok hstatus

end TransactionServer

/-- The reference server is one of them. -/
def Reference.server : TransactionServer Bool Reference.Session where
  toResponder := Reference.responder
  autocommit p := p.autocommit
  inTrans p := p.pending.isSome
  flags_autocommit := by
    rintro p _ rfl
    have h : ∀ inTrans autocommit : Bool,
        (Reference.flagByte inTrans autocommit).toNat &&& serverStatusAutocommit > 0 ↔ autocommit = true := by decide
    exact h p.pending.isSome p.autocommit
  flags_inTrans := by
    rintro p _ rfl
    have h : ∀ inTrans autocommit : Bool,
        (Reference.flagByte inTrans autocommit).toNat &&& serverStatusInTrans > 0 ↔ inTrans = true := by decide
    exact h p.pending.isSome p.autocommit
  failed_query := by
    rintro (_ | _) sql p status hok h
    · cases h
    · cases hok
  silent_query := by
    rintro (_ | _) sql p h
    · exact ⟨rfl, .inl⟩
    · cases h
  silent_initDB := by
    rintro (_ | _) db p
    · exact ⟨rfl, .inl⟩
    · exact ⟨rfl, .inl⟩
  silent_fieldList _ _ _ _ := ⟨rfl, .inl⟩
  rollback_ends := by
    rintro (_ | _) p h
    · cases h
    · rfl
  setAutocommit_ends := by
    rintro (_ | _) ⟨autocommit, pending, _⟩ h
    · cases h
    · cases autocommit with
      | true => exact ⟨rfl, fun h => ⟨h, rfl⟩⟩
      | false => exact ⟨rfl, nofun⟩

end DbProxy
