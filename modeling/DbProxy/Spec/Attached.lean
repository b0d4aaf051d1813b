import DbProxy.Backend.Pool
import DbProxy.Backend.Reference
import DbProxy.Spec.Requests
import DbProxy.Spec.Variables

/-!
# Connections that keep their socket

As long as no third dial behind a broken pipe is refused, no operation leaves a connection without a socket, and what
is known of the session at the other end from its last status stays known.
-/

namespace DbProxy

open Effect

/-- The computation keeps `I`, whether it succeeds or not, and it does not panic. -/
def Keeps {τ α : Type} (I : τ → Prop) (x : Effect Fail τ α) : Prop :=
  Triple I x (fun _ => I) fun e s => IsError e ∧ I s

namespace Keeps

variable {τ α β : Type} {I : τ → Prop}

theorem pure (a : α) : Keeps I (Pure.pure a : Effect Fail τ α) := fun _ hs => hs

theorem throw (msg : String) : Keeps I (MonadExcept.throw (Fail.error msg) : Effect Fail τ α) :=
  fun _ hs => ⟨⟨msg, rfl⟩, hs⟩

theorem bind {x : Effect Fail τ α} {f : α → Effect Fail τ β} (hx : Keeps I x) (hf : ∀ a, Keeps I (f a)) :
    Keeps I (x >>= f) := Triple.bind hx hf

theorem get_bind {f : τ → Effect Fail τ β} (hf : ∀ t, I t → Ends (fun _ => I) (fun e s => IsError e ∧ I s) (f t t)) :
    Keeps I (MonadState.get >>= f) := Triple.get_bind fun t ht => by rintro _ rfl; exact hf _ ht

theorem attempt {x : Effect Fail τ α} (hx : Keeps I x) {E : Fail → τ → Prop} :
    Triple I (attemptErr x) (fun _ => I) E := by
  intro s hs
  refine attemptErr_ends ((hx s hs).weaken (fun _ _ h => h) ?_)
  rintro (msg | msg) s' ⟨⟨msg', he⟩, hs'⟩
  · exact hs'
  · cases he

end Keeps

/-- `K` is known of a session and its last status: at its beginning, and after every request. -/
structure Responder.Tracks {ι σ : Type} (r : Responder ι σ) (K : σ → Nat → Prop) : Prop where
  opened : ∀ {p status}, r.Opened p status → K p status
  query : ∀ {p status} (i sql), K p status → K (r.query i sql p).1 ((r.query i sql p).2.status.getD status)
  initDB : ∀ {p status} (i db), K p status → K (r.initDB i db p).1 status
  fieldList : ∀ {p status} (i table wildcard), K p status → K (r.fieldList i table wildcard p).1 status

/-- It has a socket; and unless the connection dialled again, `K` is known of its session. -/
structure DirectConnection.Known {σ : Type} (K : σ → Nat → Prop) (dc : DirectConnection σ) : Prop where
  conn : dc.conn.isSome
  fit : dc.Fit
  session : dc.closed = false → ∀ c p, dc.conn = some c → c.peer = some p → K p dc.status

structure Link.Sound {ι σ : Type} (K : σ → Nat → Prop) (s : Link ι σ) : Prop where
  reachable : s.net.Reachable
  known : s.dc.Known K

namespace DirectConnection

variable {ι σ α : Type} {K : σ → Nat → Prop}

theorem Known.of_eq {dc dc' : DirectConnection σ} (h : dc.Known K) (hconn : dc'.conn = dc.conn)
    (hcap : dc'.capability = dc.capability) (hstatus : dc'.status = dc.status) (hclosed : dc'.closed = dc.closed) :
    dc'.Known K := by
  refine ⟨hconn ▸ h.conn, ⟨fun c hc => h.fit.unread c (hconn ▸ hc), fun c p hc hp => ?_⟩, fun hc c p hconn' hp => ?_⟩
  · rw [hcap]
    exact h.fit.protocol41 c p (hconn ▸ hc) hp
  · rw [hstatus]
    exact h.session (hclosed ▸ hc) c p (hconn ▸ hconn') hp

theorem known_of_none {dc : DirectConnection σ} {sequence : UInt8} (h : dc.conn = some ⟨none, [], sequence⟩) :
    dc.Known K := by
  refine ⟨by rw [h]; rfl, ⟨fun c hc => ?_, fun c p hc hp => ?_⟩, fun _ c p hc hp => ?_⟩
  · rw [h] at hc
    cases hc
    rfl
  · rw [h] at hc
    cases hc
    cases hp
  · rw [h] at hc
    cases hc
    cases hp

theorem known_of_session {dc : DirectConnection σ} {p : σ} {sequence : UInt8}
    (h : dc.conn = some ⟨some p, [], sequence⟩)
    (hcap : dc.capability &&& clientProtocol41 > 0) (hK : dc.closed = false → K p dc.status) : dc.Known K := by
  refine ⟨by rw [h]; rfl, fit_of_conn_eq h hcap, fun hclosed c p' hc hp => ?_⟩
  rw [h] at hc
  cases hc
  cases hp
  exact hK hclosed

section Ends

variable {s s' : Link ι σ} {e : Fail}

theorem Lost.sound (h : Lost s e s') (hs : s.net.Reachable) : IsError e ∧ s'.Sound K := by
  obtain ⟨sequence, hconn⟩ := h.conn
  exact ⟨h.error, hs.of_dials h.dials, known_of_none hconn⟩

theorem Redialled.sound (h : Redialled s e s') (hs : s.net.Reachable) : IsError e ∧ s'.Sound K := by
  obtain ⟨he, hreach, hconn⟩ := h.reachable hs
  refine ⟨he, hreach, hconn, h.fit, fun hclosed => ?_⟩
  rw [h.closed] at hclosed
  cases hclosed

theorem Unanswered.sound (h : Unanswered s e s') (hs : s.net.Reachable) : IsError e ∧ s'.Sound K :=
  h.elim (·.sound hs) (·.sound hs)

variable {r : Responder ι σ} (hK : r.Tracks K)

include hK

theorem Answered.sound {sql : Sql} {success : Bool} (h : Answered r sql success s s') (hs : s.Sound K) :
    s'.Sound K := by
  obtain ⟨i, c, p, sequence, -, hc, hp, -, hdials, hdc⟩ := h
  refine ⟨hs.reachable.of_dials hdials, ?_⟩
  rw [hdc]
  refine known_of_session rfl (hs.known.fit.protocol41 c p hc hp) fun hclosed => ?_
  exact hK.query i sql (hs.known.session hclosed c p hc hp)

end Ends

/-! ### Operations -/

theorem setCharset_cases (charset : String) (collation : CollationID) (t : Link ι σ) :
    setCharset charset collation t = (.ok false, t) ∧ t.dc.charset = trimCharset charset ∧
        t.dc.collation = requestedCollation (trimCharset charset) collation ∨
      (∃ msg, setCharset charset collation t = (.error (.error msg), t)) ∨
      setCharset charset collation t = (.ok true, { t with dc := { t.dc with
        charset := trimCharset charset, collation := requestedCollation (trimCharset charset) collation } }) ∧
        charsetIds (trimCharset charset) ≠ none ∧
        collations (requestedCollation (trimCharset charset) collation) ≠ none := by
  unfold setCharset
  rw [bind_ok get_apply]
  dsimp only
  by_cases hsame : t.dc.charset = trimCharset charset ∧
    t.dc.collation = requestedCollation (trimCharset charset) collation
  · rw [if_pos hsame]
    exact .inl ⟨rfl, hsame⟩
  by_cases hcharset : charsetIds (trimCharset charset) = none
  · rw [if_neg hsame, if_pos hcharset]
    exact .inr (.inl ⟨_, rfl⟩)
  by_cases hcollation : collations (requestedCollation (trimCharset charset) collation) = none
  · rw [if_neg hsame, if_neg hcharset, if_pos hcollation]
    exact .inr (.inl ⟨_, rfl⟩)
  · rw [if_neg hsame, if_neg hcharset, if_neg hcollation]
    exact .inr (.inr ⟨rfl, hcharset, hcollation⟩)

section Operations

variable {r : Responder ι σ} (hK : r.Tracks K)

include hK

theorem exec_keeps (sql : Sql) : Keeps (Link.Sound K) (exec r.peer sql) := by
  intro s hs
  refine (exec_spec sql hs.known.conn hs.known.fit).weaken (fun _ s' h => h.sound hK hs) fun e s' h => ?_
  rcases h with ⟨he, h⟩ | h
  · exact ⟨he, h.sound hK hs⟩
  · exact h.sound hs.reachable

omit hK in
theorem closeConn_keeps : Keeps (Link.Sound K) (closeConn : Session ι σ Unit) := by
  intro s hs
  obtain ⟨c, hc⟩ := Option.isSome_iff_exists.1 hs.known.conn
  rw [closeConn_eq hc]
  exact ⟨hs.reachable, known_of_none rfl⟩

omit hK in
theorem orCloseConn_ends {x : Session ι σ α} {s : Link ι σ} {Q : α → Link ι σ → Prop}
    (hx : Ends Q (fun e s' => IsError e ∧ s'.Sound K) (x s)) :
    Ends Q (fun e s' => IsError e ∧ s'.Sound K) (orCloseConn x s) := by
  refine Ends.bind (R := fun result s' => Ends Q (fun _ s' => s'.Sound K) (result, s'))
    (attemptErr_ends (hx.weaken (fun _ _ h => h) ?_)) ?_
  · rintro _ s' ⟨⟨msg, rfl⟩, hs'⟩
    exact hs'
  · rintro (msg | a) s' h
    · exact Ends.bind (closeConn_keeps s' h) fun _ _ hs => ⟨⟨msg, rfl⟩, hs⟩
    · exact h

omit hK in
theorem setSequence_keeps (n : UInt8) : Keeps (Link.Sound K) (setSequence n : Session ι σ Unit) := by
  intro s hs
  obtain ⟨c, hc⟩ := Option.isSome_iff_exists.1 hs.known.conn
  rw [setSequence_eq hc]
  refine ⟨hs.reachable, rfl, hs.known.fit.withConn hc rfl rfl, fun hclosed c' p hc' hp => ?_⟩
  cases hc'
  exact hs.known.session hclosed c p hc hp

theorem useDB_keeps (db : GoString) : Keeps (Link.Sound K) (useDB r.peer db) := by
  intro s hs
  obtain ⟨c, hc⟩ := Option.isSome_iff_exists.1 hs.known.conn
  have hswitched : ∀ {success s'}, Switched r db success s s' → s'.Sound K := by
    rintro success s' ⟨i, c, p, sequence, -, hc, hp, -, hdials, hdc⟩
    refine ⟨hs.reachable.of_dials hdials, ?_⟩
    rw [hdc]
    exact known_of_session rfl (hs.known.fit.protocol41 c p hc hp) fun hclosed =>
      hK.initDB i db (hs.known.session hclosed c p hc hp)
  refine (useDB_spec db hc hs.known.fit).weaken ?_ ?_
  · rintro _ s' (⟨-, rfl⟩ | h)
    · have hseq := setSequence_keeps (K := K) 0 s hs
      rw [setSequence_eq hc] at hseq
      exact hseq
    · exact hswitched h
  · rintro e s' (⟨he, h⟩ | h)
    · exact ⟨he, hswitched h⟩
    · exact h.sound hs.reachable

theorem fieldList_keeps (table wildcard : GoString) : Keeps (Link.Sound K) (fieldList r.peer table wildcard) := by
  intro s hs
  obtain ⟨c, hc⟩ := Option.isSome_iff_exists.1 hs.known.conn
  have hlisted : ∀ {s'}, Listed r table wildcard s s' → s'.Sound K := by
    rintro s' ⟨i, c, p, sequence, -, hc, hp, hdials, hdc⟩
    refine ⟨hs.reachable.of_dials hdials, ?_⟩
    rw [hdc]
    exact known_of_session rfl (hs.known.fit.protocol41 c p hc hp) fun hclosed =>
      hK.fieldList i table wildcard (hs.known.session hclosed c p hc hp)
  refine (fieldList_spec table wildcard hc hs.known.fit).weaken (fun _ s' h => hlisted h) ?_
  rintro e s' (⟨he, h⟩ | h)
  · exact ⟨he, hlisted h⟩
  · exact h.sound hs.reachable

omit hK in
theorem setCharset_keeps (charset : String) (collation : CollationID) :
    Keeps (Link.Sound K) (setCharset charset collation : Session ι σ Bool) := by
  intro t ht
  have hcases := setCharset_cases charset collation t
  generalize setCharset charset collation t = result at hcases ⊢
  rcases hcases with ⟨rfl, -⟩ | ⟨msg, rfl⟩ | ⟨rfl, -⟩
  · exact ht
  · exact ⟨⟨msg, rfl⟩, ht⟩
  · exact ⟨ht.reachable, ht.known.of_eq rfl rfl rfl rfl⟩

omit hK in
theorem setSessionVariables_keeps {frontend : SessionVariables} (h : frontend.Verified) :
    Keeps (Link.Sound K) (setSessionVariables frontend : Session ι σ Bool) := by
  intro s hs
  obtain ⟨changed, v, heq, -⟩ := SessionVariables.setEqualsWith_spec h s.dc.sessionVariables
  have hrun : setSessionVariables frontend s =
      (.ok changed, { s with dc := { s.dc with sessionVariables := v } }) := by
    unfold setSessionVariables Effect.zoom
    rw [of_apply, heq]
  rw [hrun]
  exact ⟨hs.reachable, hs.known.of_eq rfl rfl rfl rfl⟩

theorem writeSetStatement_keeps : Keeps (Link.Sound K) (writeSetStatement r.peer) := by
  unfold writeSetStatement
  refine Keeps.get_bind fun t ht => ?_
  dsimp only
  cases collations t.dc.collation with
  | none => exact ⟨⟨_, rfl⟩, ht⟩
  | some collation =>
    have ht' : Link.Sound K { t with dc := { t.dc with
        sessionVariables := { t.dc.sessionVariables with unused := [] } } } :=
      ⟨ht.reachable, ht.known.of_eq rfl rfl rfl rfl⟩
    exact (exec_keeps hK _).bind (fun _ => Keeps.pure _) _ ht'

end Operations

end DirectConnection

open DirectConnection in
theorem initBackendConn_keeps {ι σ : Type} {K : σ → Nat → Prop} {r : Responder ι σ} (hK : r.Tracks K)
    (phyDB : GoString) {want : SessionState} (hwant : want.sessionVariables.Verified) :
    Keeps (Link.Sound K) (initBackendConn r.peer phyDB want) := by
  unfold initBackendConn
  refine Triple.bind (R := fun _ => Link.Sound K) (useDB_keeps hK phyDB) fun _ => ?_
  refine Triple.bind (R := fun _ => Link.Sound K) (setCharset_keeps want.charset want.collation)
    fun charsetChanged => ?_
  refine Triple.bind (R := fun _ => Link.Sound K) (setSessionVariables_keeps hwant) fun variablesChanged => ?_
  split
  · exact writeSetStatement_keeps hK
  · exact Keeps.pure ()

/-! ### One connection among many -/

namespace Store

variable {ι σ α : Type}

def withLink (t : Store ι σ) (c : ConnId) (l : Link ι σ) : Store ι σ :=
  { t with conns := Function.update t.conns c l.dc, net := l.net }

theorem onLink_ends {c : ConnId} {x : Session ι σ α} {t : Store ι σ} {Q : α → Link ι σ → Prop}
    {E : Fail → Link ι σ → Prop} (h : Ends Q E (x ⟨t.conns c, t.net⟩)) :
    Ends (fun a t' => ∃ l, Q a l ∧ t' = t.withLink c l) (fun e t' => ∃ l, E e l ∧ t' = t.withLink c l)
      (onLink c x t) := by
  unfold onLink Effect.zoom
  rw [of_apply]
  generalize x ⟨t.conns c, t.net⟩ = result at h ⊢
  obtain ⟨result, l⟩ := result
  cases result with
  | ok a => exact ⟨l, h, rfl⟩
  | error e => exact ⟨l, h, rfl⟩

end Store

open DirectConnection in
theorem Reference.idle_fit : Reference.idle.Fit where
  unread := by rintro _ ⟨⟩; rfl
  protocol41 _ _ _ _ := by decide

end DbProxy
