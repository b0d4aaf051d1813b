import DbProxy.Backend.Responder
import DbProxy.Spec.Reading
import Mathlib.Data.Nat.Bitwise

/-!
# Writing, dialling and executing

What can happen to a connection whose server answers completely when a request is sent: the request is answered, the
socket fails, or the pipe breaks and the connection dials again.  Dialling writes, and writing dials; the induction is
on the writes that the network has left to decide.
-/

namespace DbProxy

open Effect List

/-- No third dial behind a broken pipe is refused. -/
def Net.Reachable {ι : Type} (net : Net ι) : Prop := ∀ n, ((net.dials true).get n).isSome

theorem Net.Reachable.of_dials {ι : Type} {net net' : Net ι} (h : net.Reachable) (hdials : net'.dials = net.dials) :
    net'.Reachable := by
  unfold Net.Reachable
  rw [hdials]
  exact h

theorem Net.Reachable.tail {ι : Type} {net net' : Net ι} {third : Bool} (h : net.Reachable)
    (hdials : net'.dials = Function.update net.dials third (net.dials third).tail) : net'.Reachable := by
  intro n
  rw [hdials]
  cases third with
  | true => exact h (n + 1)
  | false => exact h n

def Net.Unbroken {ι : Type} (net : Net ι) : Prop := Written.brokenPipe ∉ net.writes

def Link.withConn {ι σ : Type} (s : Link ι σ) (c : Conn σ) : Link ι σ := { s with dc := { s.dc with conn := some c } }

namespace DirectConnection

variable {ι σ α : Type}
variable {s s' : Link ι σ} {e : Fail} {c : Conn σ} {req : Request}

/-- Nothing is left to read, and a session speaks the protocol in which answers have a status. -/
structure Fit (dc : DirectConnection σ) : Prop where
  unread : ∀ c, dc.conn = some c → c.unread = []
  protocol41 : ∀ c p, dc.conn = some c → c.peer = some p → dc.capability &&& clientProtocol41 > 0

structure Lost (s : Link ι σ) (e : Fail) (s' : Link ι σ) : Prop where
  error : IsError e
  dc : s'.dc = { s.dc with conn := s'.dc.conn, status := s'.dc.status }
  conn : ∃ sequence, s'.dc.conn = some ⟨none, [], sequence⟩
  dials : s'.net.dials = s.net.dials
  writes : s'.net.writes <:+ s.net.writes

structure Redialled (s : Link ι σ) (e : Fail) (s' : Link ι σ) : Prop where
  closed : s'.dc.closed = true
  fit : Fit s'.dc
  broken : ¬ s.net.Unbroken
  reachable : s.net.Reachable → IsError e ∧ s'.net.Reachable ∧ s'.dc.conn.isSome

theorem fit_of_hungUp {dc : DirectConnection σ} {sequence : UInt8} (h : dc.conn = some ⟨none, [], sequence⟩) :
    Fit dc := by
  refine ⟨fun c hc => ?_, fun c p hc hp => ?_⟩
  · rw [h] at hc
    cases hc
    rfl
  · rw [h] at hc
    cases hc
    cases hp

theorem Lost.fit (h : Lost s e s') : Fit s'.dc := by
  obtain ⟨sequence, hconn⟩ := h.conn
  exact fit_of_hungUp hconn

/-- The ways in which a request fails to be answered. -/
def Unanswered (s : Link ι σ) (e : Fail) (s' : Link ι σ) : Prop := Lost s e s' ∨ Redialled s e s'

variable (r : Responder ι σ)

/-- The request was written; if there is a session at the other end, it has answered. -/
def Sent (req : Request) (s s' : Link ι σ) : Prop :=
  ∃ i rest c, s.net.writes = .ok i :: rest ∧ s.dc.conn = some c ∧
    s'.dc = { s.dc with conn := some (deliver r.peer i req c) } ∧ s'.net = { s.net with writes := rest }

def WriteSpec (write : Request → Session ι σ Unit) : Prop :=
  ∀ req s, s.dc.conn.isSome → Fit s.dc → Ends (fun _ s' => Sent r req s s') (Unanswered s) (write req s)

/-! ### Executing over a way to write -/

/-- The query was answered; `success` says how. -/
def Answered (sql : Sql) (success : Bool) (s s' : Link ι σ) : Prop :=
  ∃ i c p sequence, s.net.writes = .ok i :: s'.net.writes ∧ s.dc.conn = some c ∧ c.peer = some p ∧
    (r.query i sql p).2.success = success ∧ s'.net.dials = s.net.dials ∧
    s'.dc = { s.dc with conn := some ⟨some (r.query i sql p).1, [], sequence⟩,
                        status := (r.query i sql p).2.status.getD s.dc.status }

variable {r}

theorem setSequence_eq (h : s.dc.conn = some c) (n : UInt8) :
    setSequence n s = (.ok (), s.withConn (c.setSequence n)) := by
  unfold setSequence onConn
  rw [of_apply]
  simp only [h]
  rfl

theorem readPacket_none {sequence : UInt8} (h : s.dc.conn = some ⟨none, [], sequence⟩) :
    ∃ e s', readPacket s = (.error e, s') ∧ Lost s e s' := by
  unfold readPacket
  rw [of_apply]
  split
  · unfold onConn
    rw [of_apply]
    simp only [h]
    exact ⟨_, _, rfl, ⟨_, rfl⟩, rfl, ⟨_, rfl⟩, rfl, suffix_rfl⟩
  · unfold onConn
    rw [of_apply]
    simp only [h]
    exact ⟨_, _, rfl, ⟨_, rfl⟩, rfl, ⟨_, rfl⟩, rfl, suffix_rfl⟩

theorem Unanswered.of_conn (s₁ : Link ι σ) (hdc : s₁.dc = { s.dc with conn := s₁.dc.conn })
    (hnet : s₁.net = s.net) (h : Unanswered s₁ e s') : Unanswered s e s' := by
  rcases h with h | h
  · refine .inl ⟨h.error, ?_, h.conn, hnet ▸ h.dials, hnet ▸ h.writes⟩
    rw [h.dc, hdc]
  · exact .inr ⟨h.closed, h.fit, hnet ▸ h.broken, hnet ▸ h.reachable⟩

theorem Fit.withConn (h : Fit s.dc) {c' : Conn σ} (hc : s.dc.conn = some c)
    (hpeer : c'.peer = c.peer) (hunread : c'.unread = c.unread) : Fit (s.withConn c').dc := by
  refine ⟨?_, ?_⟩
  · rintro _ ⟨⟩
    rw [hunread]
    exact h.unread c hc
  · rintro _ p ⟨⟩ hp
    exact h.protocol41 c p hc (hpeer ▸ hp)

theorem Sent.cases (h : Sent r req s s') (hfit : Fit s.dc) :
    (∃ i c p, s.net.writes = .ok i :: s'.net.writes ∧ s.dc.conn = some c ∧ c.peer = some p ∧
      s.dc.capability &&& clientProtocol41 > 0 ∧
      Waiting s.dc s'.net (r.respond i req p).1 (r.respond i req p).2 s') ∨
    (s'.dc = { s.dc with conn := s'.dc.conn } ∧ s'.net.writes <:+ s.net.writes ∧
      ∃ sequence, s'.dc.conn = some ⟨none, [], sequence⟩) := by
  obtain ⟨i, rest, c, hwrites, hconn, hdc, hnet⟩ := h
  obtain ⟨peer, unread, sequence⟩ := c
  have hunread := hfit.unread _ hconn
  cases hunread
  cases peer with
  | some p =>
    refine .inl ⟨i, _, p, by rw [hnet]; exact hwrites, hconn, rfl, hfit.protocol41 _ p hconn rfl, ?_, ?_, rfl, rfl⟩
    · rw [hdc]
    · rw [hdc]
      exact ⟨_, rfl⟩
  | none =>
    refine .inr ⟨by rw [hdc], ?_, ?_⟩
    · rw [hnet, hwrites]
      exact suffix_cons _ _
    · rw [hdc]
      exact ⟨_, rfl⟩

theorem Sent.dials (h : Sent r req s s') : s'.net.dials = s.net.dials := by
  obtain ⟨i, rest, c, -, -, -, hnet⟩ := h
  rw [hnet]

theorem Gone.lost {dc : DirectConnection σ} {net : Net ι} (he : IsError e)
    (h : Gone dc net s') (hdc : dc = { s.dc with conn := dc.conn }) (hdials : net.dials = s.net.dials)
    (hwrites : net.writes <:+ s.net.writes) : Lost s e s' := by
  refine ⟨he, ?_, h.conn, h.dials.trans hdials, h.writes ▸ hwrites⟩
  rw [h.dc, hdc]

theorem execBy_spec {write : Request → Session ι σ Unit} (hw : WriteSpec r write) (sql : Sql)
    (hconn : s.dc.conn.isSome) (hfit : Fit s.dc) :
    Ends (fun _ s' => Answered r sql true s s')
      (fun e s' => IsError e ∧ Answered r sql false s s' ∨ Unanswered s e s') (execBy write sql s) := by
  obtain ⟨c, hc⟩ := Option.isSome_iff_exists.1 hconn
  unfold execBy
  rw [bind_ok (setSequence_eq hc 0)]
  have hfit₁ : Fit (s.withConn (c.setSequence 0)).dc := hfit.withConn hc rfl rfl
  refine Ends.bind (R := fun _ s₂ => Sent r (.query sql) (s.withConn (c.setSequence 0)) s₂)
    ((hw (.query sql) _ rfl hfit₁).weaken (fun _ _ h => h) fun e s₂ h => .inr ?_) fun _ s₂ hsent => ?_
  · exact Unanswered.of_conn (s.withConn (c.setSequence 0)) rfl rfl h
  have hdials : s₂.net.dials = s.net.dials := hsent.dials
  rcases hsent.cases hfit₁ with ⟨i, c', p, hwrites, hc', hp, hcap, hwait⟩ | ⟨hdc, hsuffix, sequence, hnone⟩
  · cases hc'
    have hdone : ∀ s₃, Read { s.dc with conn := some (c.setSequence 0)
                                        status := (r.query i sql p).2.status.getD s.dc.status }
        s₂.net (r.query i sql p).1 s₃ → Answered r sql (r.query i sql p).2.success s s₃ := by
      intro s₃ hs
      obtain ⟨sequence, hconn₃⟩ := hs.conn
      refine ⟨i, c, p, sequence, hs.writes ▸ hwrites, hc, hp, rfl, hs.dials.trans hdials, ?_⟩
      rw [hs.dc, hconn₃]
      rfl
    refine (readResult_spec hcap (r.query i sql p).2.complete s₂ hwait).weaken ?_ ?_
    · rintro ans s₃ ⟨hsuccess, hs⟩
      exact hsuccess ▸ hdone s₃ hs
    · rintro e s₃ ⟨he, ⟨hfalse, hs⟩ | hs⟩
      · exact .inl ⟨he, hfalse ▸ hdone s₃ hs⟩
      · have hwrites : s.net.writes = .ok i :: s₂.net.writes := hwrites
        exact .inr (.inl (hs.lost he rfl hdials (hwrites ▸ suffix_cons _ _)))
  · obtain ⟨e, s₃, hread, hlost⟩ := readPacket_none hnone
    unfold readResult
    rw [bind_error hread]
    refine .inr (.inl ⟨hlost.error, ?_, hlost.conn, hlost.dials.trans hdials, hlost.writes.trans hsuffix⟩)
    rw [hlost.dc, hdc]
    rfl

/-! ### The greeting -/

theorem uintAt_append (before after : GoString) (a b : UInt8) {pos : Int} (h : pos = before.length) :
    uintAt 2 (before ++ a :: b :: after) pos = .ok (littleEndian [a, b]) := by
  subst h
  have hslice := slice_eq_ok (before ++ a :: b :: after) before.length (before.length + 2) (by omega) (by simp)
  have hslice : slice (before ++ a :: b :: after) before.length (before.length + (2 : Nat)) = _ := hslice
  unfold uintAt
  rw [hslice]
  simp [take_append, take_of_length_le, pure, Except.pure, bind, Except.bind]

theorem idxOf?_append {l : GoString} (h : 0 ∉ l) (rest : GoString) : (l ++ 0 :: rest).idxOf? 0 = some l.length := by
  induction l with
  | nil => rfl
  | cons b l ih =>
    rw [mem_cons, not_or] at h
    rw [cons_append, idxOf?_cons, if_neg (by simpa using Ne.symm h.1), ih h.2]
    rfl

end DirectConnection

namespace Greeting

open DirectConnection

variable (g : Greeting)

theorem packet_version : byteAt g.packet 0 = .ok g.version := rfl

theorem packet_stop : g.packet.tail.idxOf? 0 = some g.serverVersion.length := by
  unfold packet
  simp only [cons_append, append_assoc, tail_cons]
  exact idxOf?_append g.serverVersion_ne _

theorem packet_length : g.packet.length = g.serverVersion.length + 33 + g.salt'.length := by
  have h₁ := g.connectionId_length
  have h₂ := g.salt_length
  have h₃ := g.reserved_length
  simp only [packet, length_append, length_cons, length_nil]
  omega

theorem packet_slice (low high : Nat) (h₁ : low ≤ high) (h₂ : high ≤ g.serverVersion.length + 45) :
    ∃ s, slice g.packet low high = .ok s :=
  ⟨_, slice_eq_ok _ low high h₁ (by
    have := g.packet_length
    have := g.salt'_length
    omega)⟩

def front : GoString := g.version :: g.serverVersion ++ 0 :: g.connectionId ++ g.salt

theorem front_length : g.front.length = g.serverVersion.length + 14 := by
  have h₁ := g.connectionId_length
  have h₂ := g.salt_length
  simp only [front, length_append, length_cons]
  omega

theorem packet_low {pos : Int} (h : pos = g.serverVersion.length + 15) :
    uintAt 2 g.packet pos = .ok (littleEndian [g.low.1, g.low.2]) := by
  have hpacket : g.packet = (g.front ++ [g.filler]) ++ g.low.1 :: g.low.2 :: ([g.charset, g.status.1, g.status.2,
      g.high.1, g.high.2] ++ g.reserved ++ g.salt') := by
    simp [packet, front]
  rw [hpacket]
  exact uintAt_append _ _ _ _ (by simp [g.front_length, h]; omega)

theorem packet_status {pos : Int} (h : pos = g.serverVersion.length + 18) :
    uintAt 2 g.packet pos = .ok g.statusFlags := by
  have hpacket : g.packet = (g.front ++ [g.filler, g.low.1, g.low.2, g.charset]) ++ g.status.1 :: g.status.2 ::
      ([g.high.1, g.high.2] ++ g.reserved ++ g.salt') := by
    simp [packet, front]
  rw [hpacket]
  exact uintAt_append _ _ _ _ (by simp [g.front_length, h]; omega)

theorem packet_high {pos : Int} (h : pos = g.serverVersion.length + 20) :
    uintAt 2 g.packet pos = .ok (littleEndian [g.high.1, g.high.2]) := by
  have hpacket : g.packet = (g.front ++ [g.filler, g.low.1, g.low.2, g.charset, g.status.1, g.status.2]) ++
      g.high.1 :: g.high.2 :: (g.reserved ++ g.salt') := by
    simp [packet, front]
  rw [hpacket]
  exact uintAt_append _ _ _ _ (by simp [g.front_length, h]; omega)

end Greeting

namespace DirectConnection

variable {dc : DirectConnection σ} {net : Net ι} {p : σ} {s t s' : Link ι σ} {e : Fail} {c : Conn σ}
  {connect : Bool → Session ι σ Unit} {third : Bool}

theorem modifyDc_spec {P Q : Link ι σ → Prop} {f : DirectConnection σ → DirectConnection σ}
    {E : Fail → Link ι σ → Prop}
    (h : ∀ s, P s → Q { s with dc := f s.dc }) : Triple P (modifyDc f) (fun _ => Q) E := Triple.modify h

theorem readInitialHandshake_spec (g : Greeting) :
    Triple (Waiting dc net p [g.packet]) readInitialHandshake
      (fun _ => Read { dc with status := g.statusFlags, capability := g.capability } net p) (Fails dc net) := by
  refine Triple.bind (readPacket_spec g.packet) fun data => Triple.of_forall fun s ⟨hdata, hs⟩ => ?_
  subst hdata
  refine triple_purely g.packet_version ?_
  rw [if_neg g.version_ne]
  dsimp only
  rw [if_neg (UInt8.not_lt.2 g.version_le), g.packet_stop]
  dsimp only
  obtain ⟨salt, hsalt⟩ := g.packet_slice (g.serverVersion.length + 6) (g.serverVersion.length + 14)
    (by omega) (by omega)
  obtain ⟨salt', hsalt'⟩ := g.packet_slice (g.serverVersion.length + 33) (g.serverVersion.length + 45)
    (by omega) le_rfl
  have hlength := g.packet_length
  have hsalt'_length := g.salt'_length
  refine triple_purely (a := salt) ?_ (triple_purely (g.packet_low (by omega)) ?_)
  · rw [← hsalt]
    congr 1 <;> (push_cast; omega)
  refine Triple.bind (R := fun _ => Read { dc with capability := littleEndian [g.low.1, g.low.2] } net p)
    ?_ fun _ => ?_
  · refine modifyDc_spec fun t ht => ?_
    subst ht
    refine ⟨?_, hs.conn, hs.dials, hs.writes⟩
    rw [hs.dc]
  rw [if_pos (by push_cast [hlength]; omega)]
  refine triple_purely (g.packet_status (by omega)) ?_
  refine Triple.bind
    (R := fun _ => Read { dc with status := g.statusFlags, capability := littleEndian [g.low.1, g.low.2] } net p)
    (modifyDc_spec fun t ht => ⟨by rw [ht.dc], ht.conn, ht.dials, ht.writes⟩) fun _ => ?_
  refine triple_purely (g.packet_high (by omega)) ?_
  refine Triple.bind (R := fun _ => Read { dc with status := g.statusFlags, capability := g.capability } net p)
    (modifyDc_spec fun t ht => ⟨by rw [ht.dc]; rfl, ht.conn, ht.dials, ht.writes⟩) fun _ => ?_
  refine triple_purely (a := salt') ?_ fun _ ht => ht
  rw [← hsalt']
  congr 1 <;> (push_cast; omega)

/-! ### Dialling over a way to write -/

/-- `t` comes from `s` without a redial. -/
structure Along (s t : Link ι σ) : Prop where
  closed : t.dc.closed = s.dc.closed
  reachable : s.net.Reachable → t.net.Reachable

theorem Waiting.along {ps : List GoString}
    (h : Waiting dc net p ps t) (hclosed : dc.closed = s.dc.closed) (hreachable : s.net.Reachable → net.Reachable) :
    Along s t := by
  refine ⟨?_, fun hr => (hreachable hr).of_dials h.dials⟩
  rw [h.dc]
  exact hclosed

structure Undone (s : Link ι σ) (e : Fail) (s' : Link ι σ) : Prop where
  fit : Fit s'.dc
  closed : s'.dc.closed = s.dc.closed ∨ s'.dc.closed = true
  reachable : s.net.Reachable → IsError e ∧ s'.net.Reachable ∧ s'.dc.conn.isSome

/-- No connection was made.  Only a refused dial can leave the connection without a socket. -/
structure Unopened (third : Bool) (s : Link ι σ) (e : Fail) (s' : Link ι σ) : Prop where
  fit : Fit s'.dc
  closed : s'.dc.closed = s.dc.closed ∨ s'.dc.closed = true
  reachable : s.net.Reachable → IsError e ∧ s'.net.Reachable
  conn : third = true → s.net.Reachable → s'.dc.conn.isSome

theorem Undone.unopened (h : Undone s e s') : Unopened third s e s' :=
  ⟨h.fit, h.closed, fun hr => ⟨(h.reachable hr).1, (h.reachable hr).2.1⟩, fun _ hr => (h.reachable hr).2.2⟩

theorem Lost.undone (h : Lost t e s') (ht : Along s t) : Undone s e s' := by
  refine ⟨h.fit, .inl ?_, fun hr => ⟨h.error, (ht.reachable hr).of_dials h.dials, ?_⟩⟩
  · rw [h.dc]
    exact ht.closed
  · obtain ⟨sequence, hconn⟩ := h.conn
    rw [hconn]
    rfl

theorem Unanswered.undone (h : Unanswered t e s') (ht : Along s t) : Undone s e s' := by
  rcases h with h | h
  · exact h.undone ht
  · exact ⟨h.fit, .inr h.closed, fun hr => h.reachable (ht.reachable hr)⟩

theorem Fails.undone (h : Fails dc net e s')
    (hclosed : dc.closed = s.dc.closed) (hdials : s.net.Reachable → net.Reachable) : Undone s e s' := by
  have hlost : Lost ⟨dc, net⟩ e s' := ⟨h.1, h.2.dc, h.2.conn, h.2.dials, h.2.writes ▸ suffix_rfl⟩
  exact hlost.undone ⟨hclosed, hdials⟩

theorem closeConn_eq (h : s.dc.conn = some c) : closeConn s = (.ok (), s.withConn c.close) := by
  unfold closeConn onConn
  rw [of_apply]
  simp only [h]
  rfl

theorem closeConn_none (h : s.dc.conn = none) : closeConn s = (.error nilConn, s) := by
  unfold closeConn onConn
  rw [of_apply]
  simp only [h]

theorem orCloseConn_undone {x : Session ι σ α} {Q : α → Link ι σ → Prop}
    (h : Ends Q (Undone s) (x t)) : Ends Q (Undone s) (orCloseConn x t) := by
  unfold orCloseConn
  refine Ends.bind (R := fun a t' => Ends Q (fun msg => Undone s (.error msg)) (a, t'))
    (attemptErr_ends (h.weaken (fun _ _ h => h) ?_)) ?_
  · rintro (msg | msg) t' ht'
    · exact ht'
    · exact ht'
  · rintro (msg | a) t' ht'
    · have ht' : Undone s (.error msg) t' := ht'
      dsimp only
      cases hconn : t'.dc.conn with
      | some c =>
        rw [bind_ok (closeConn_eq hconn)]
        exact ⟨fit_of_hungUp rfl, ht'.closed, fun hr => ⟨⟨msg, rfl⟩, (ht'.reachable hr).2.1, rfl⟩⟩
      | none =>
        rw [bind_error (closeConn_none hconn)]
        refine ⟨ht'.fit, ht'.closed, fun hr => ?_⟩
        have := (ht'.reachable hr).2.2
        rw [hconn] at this
        cases this
    · exact ht'

structure Established (r : Responder ι σ) (s s' : Link ι σ) : Prop where
  closed : s'.dc.closed = s.dc.closed
  fit : Fit s'.dc
  opened : ∃ p sequence, s'.dc.conn = some ⟨some p, [], sequence⟩ ∧ r.Opened p s'.dc.status
  reachable : s.net.Reachable → s'.net.Reachable

theorem and_two_pow_pos {n i : Nat} : n &&& 2 ^ i > 0 ↔ n.testBit i = true := by
  rw [Nat.and_two_pow]
  cases n.testBit i with
  | true => simp
  | false => simp

theorem clientCapability_protocol41 (dc : DirectConnection σ) (h : dc.capability &&& clientProtocol41 > 0) :
    clientCapability dc &&& clientProtocol41 > 0 := by
  unfold clientProtocol41 at h ⊢
  rw [and_two_pow_pos] at h ⊢
  unfold clientCapability
  dsimp only
  split
  · rw [Nat.testBit_and, h]
    decide
  · rw [Nat.testBit_or, Nat.testBit_and, h]
    decide

theorem greeting_protocol41 (g : Greeting) : g.capability &&& clientProtocol41 > 0 := by
  have h := g.protocol41
  unfold clientProtocol41 at h ⊢
  rw [and_two_pow_pos] at h ⊢
  unfold Greeting.capability
  rw [Nat.testBit_or, h, Bool.or_true]

variable {r : Responder ι σ} {write : Request → Session ι σ Unit}

theorem fit_of_conn_eq {peer : Option σ} {sequence : UInt8}
    (hconn : dc.conn = some ⟨peer, [], sequence⟩) (hcap : dc.capability &&& clientProtocol41 > 0) : Fit dc := by
  refine ⟨fun c hc => ?_, fun _ _ _ _ => hcap⟩
  rw [hconn] at hc
  cases hc
  rfl

theorem ShortReply.success_iff (reply : ShortReply) :
    ∃ b, byteAt reply.packet 0 = .ok b ∧ (b = okHeader ↔ reply.success = true) := by
  obtain ⟨packet, status, hcomplete⟩ := reply
  cases status with
  | some status => exact ⟨okHeader, byteAt_of_head? hcomplete.1, by simp [ShortReply.success]⟩
  | none => exact ⟨errHeader, byteAt_of_head? hcomplete.1, by simp [ShortReply.success, okHeader, errHeader]⟩

theorem Read.fit (h : Read dc net p s) (hcap : dc.capability &&& clientProtocol41 > 0) : Fit s.dc := by
  obtain ⟨sequence, hconn⟩ := h.conn
  refine fit_of_conn_eq hconn ?_
  rw [h.dc]
  exact hcap

theorem dial_spec (t : Link ι σ) : Ends
    (fun _ t' => (t.net.Reachable → t'.net.Reachable) ∧
      ∃ i, Waiting t.dc t'.net (r.greet i).1 [(r.greet i).2.packet] t')
    (fun e t' => (t.net.Reachable → t'.net.Reachable) ∧ IsError e ∧ (t.net.dials third).head = none ∧ t'.dc = t.dc)
    (dial r.peer third t) := by
  unfold dial
  rw [of_apply]
  dsimp only
  cases hdial : (t.net.dials third).head with
  | none => exact ⟨fun hr => hr.tail rfl, ⟨_, rfl⟩, rfl, rfl⟩
  | some i => exact ⟨fun hr => hr.tail rfl, i, rfl, ⟨_, rfl⟩, rfl, rfl⟩

theorem writeHandshakeResponse41_spec (hw : WriteSpec r write)
    (hs : Along s t) (ht : Read dc net p t) (hcap : dc.capability &&& clientProtocol41 > 0) :
    Ends (fun _ t' => (s.net.Reachable → t'.net.Reachable) ∧ ∃ j db collation,
        Waiting { dc with capability := clientCapability dc } t'.net (r.login j db collation p).1
          [(r.login j db collation p).2.packet] t')
      (Undone s) (writeHandshakeResponse41 write t) := by
  obtain ⟨sequence, hconn⟩ := ht.conn
  let t₁ : Link ι σ := { t with dc := { t.dc with capability := clientCapability t.dc } }
  have hclient : clientCapability t.dc = clientCapability dc := by
    rw [ht.dc]
    rfl
  have hcap₁ : t₁.dc.capability &&& clientProtocol41 > 0 := by
    show clientCapability t.dc &&& _ > 0
    rw [hclient]
    exact clientCapability_protocol41 _ hcap
  have hfit₁ : Fit t₁.dc := fit_of_conn_eq hconn hcap₁
  show Ends _ _ (write (.handshakeResponse t₁.dc.db (UInt8.ofNat t₁.dc.collation)) t₁)
  refine (hw _ t₁ (by show t.dc.conn.isSome; rw [hconn]; rfl) hfit₁).weaken ?_ fun e t' h =>
    h.undone ⟨hs.closed, hs.reachable⟩
  intro _ t' hsent
  rcases hsent.cases hfit₁ with ⟨j, c, p', -, hc, hp', -, hwait⟩ | ⟨-, -, _, hnone⟩
  · have hc : t.dc.conn = some c := hc
    rw [hconn] at hc
    cases hc
    cases hp'
    refine ⟨fun hr => (hs.reachable hr).of_dials hsent.dials, j, _, _, ?_, hwait.conn, rfl, rfl⟩
    rw [hwait.dc]
    show { t.dc with conn := t'.dc.conn, capability := clientCapability t.dc } = _
    rw [hclient, ht.dc]
  · obtain ⟨i, rest, c, -, hc, hdc, -⟩ := hsent
    have hc : t.dc.conn = some c := hc
    rw [hconn] at hc
    cases hc
    rw [hdc] at hnone
    cases hnone

theorem switch_spec (hw : WriteSpec r write) {i j : ι}
    {db : GoString} {collation : UInt8} (hs : Along s t) (hsuccess : (r.login j db collation (r.greet i).1).2.success)
    (ht : Read dc net (r.login j db collation (r.greet i).1).1 t) (hstatus : dc.status = (r.greet i).2.statusFlags)
    (hcap : dc.capability &&& clientProtocol41 > 0) :
    Ends (fun _ s' => Established r s s') (Undone s) ((do
      if !(← get).dc.isAutoCommit then
        let _ ← orCloseConn (execBy write (.setAutocommit true)) : Session ι σ Unit) t) := by
  obtain ⟨sequence, hconn⟩ := ht.conn
  have hfit := Read.fit ht hcap
  have hstatus' : t.dc.status = (r.greet i).2.statusFlags := by
    rw [ht.dc]
    exact hstatus
  rw [bind_ok get_apply]
  by_cases hauto : t.dc.isAutoCommit = true
  · rw [if_neg (by simp [hauto])]
    refine ⟨hs.closed, hfit, ⟨_, sequence, hconn, ?_⟩, hs.reachable⟩
    rw [hstatus']
    refine .greeted hsuccess ?_
    rw [← hstatus']
    exact of_decide_eq_true hauto
  · rw [if_pos (by simpa using hauto)]
    refine Ends.bind (R := fun _ s' => Established r s s') (orCloseConn_undone ?_) fun _ _ h => h
    refine (execBy_spec hw (.setAutocommit true) (by rw [hconn]; rfl) hfit).weaken ?_ ?_
    · rintro _ s' ⟨k, c, p, sequence', -, hc, hp, hok, hdials, hdc⟩
      rw [hconn] at hc
      cases hc
      cases hp
      obtain ⟨status, hstatus₂⟩ := Reply.status_of_success _ hok
      refine ⟨by rw [hdc]; exact hs.closed, ?_, ⟨_, sequence', by rw [hdc], ?_⟩, fun hr => (hs.reachable
        hr).of_dials hdials⟩
      · rw [hdc]
        refine fit_of_conn_eq rfl ?_
        show t.dc.capability &&& _ > 0
        rw [ht.dc]
        exact hcap
      · rw [hdc]
        show r.Opened _ ((r.query k _ _).2.status.getD _)
        rw [hstatus₂]
        exact .switched hsuccess hok hstatus₂
    · rintro e s' (⟨he, k, c, p, sequence', -, hc, hp, hok, hdials, hdc⟩ | h)
      · refine ⟨?_, .inl (by rw [hdc]; exact hs.closed),
          fun hr => ⟨he, (hs.reachable hr).of_dials hdials, by rw [hdc]; rfl⟩⟩
        rw [hdc]
        refine fit_of_conn_eq rfl ?_
        show t.dc.capability &&& _ > 0
        rw [ht.dc]
        exact hcap
      · exact h.undone hs

theorem connectBy_spec (hw : WriteSpec r write) (third : Bool) (s : Link ι σ) :
    Ends (fun _ s' => Established r s s') (Unopened third s) (connectBy r.peer write third s) := by
  let s₁ : Link ι σ := { s with dc := { s.dc with conn := s.dc.conn.map Conn.close } }
  have hs₁ : hangUp s = (.ok (), s₁) := rfl
  unfold connectBy
  rw [bind_ok hs₁]
  -- the dial
  refine Ends.bind ((dial_spec s₁).weaken (fun _ _ h => h) ?_) ?_
  · rintro e t ⟨hreach, he, hnone, hdc⟩
    refine ⟨?_, .inl (by rw [hdc]), fun hr => ⟨he, hreach hr⟩, fun hthird hr => ?_⟩
    · rw [hdc]
      refine ⟨fun c hc => ?_, fun c p hc hp => ?_⟩
      · obtain ⟨c, -, rfl⟩ := Option.map_eq_some_iff.1 hc
        rfl
      · obtain ⟨c, -, rfl⟩ := Option.map_eq_some_iff.1 hc
        cases hp
    · have h0 : (s.net.dials third).head.isSome := hthird ▸ hr 0
      have hnone : (s.net.dials third).head = none := hnone
      rw [hnone] at h0
      cases h0
  rintro _ t₂ ⟨hreach₂, i, hwait₂⟩
  refine Ends.weaken (E := Undone s) ?_ (fun _ _ h => h) fun _ _ h => h.unopened
  have hcap := greeting_protocol41 (r.greet i).2
  -- the greeting
  refine Ends.bind (orCloseConn_undone ((readInitialHandshake_spec (r.greet i).2 t₂ hwait₂).weaken (fun _ _ h => h)
    fun e t ht => ht.undone rfl hreach₂)) ?_
  intro _ t₃ hread₃
  -- the login
  refine Ends.bind (orCloseConn_undone (writeHandshakeResponse41_spec hw (hread₃.along rfl hreach₂) hread₃ hcap)) ?_
  rintro _ t₄ ⟨hreach₄, j, db, collation, hwait₄⟩
  refine Ends.bind (orCloseConn_undone ((readPacket_spec _ t₄ hwait₄).weaken (fun _ _ h => h)
    fun e t ht => ht.undone rfl hreach₄)) ?_
  rintro _ t₅ ⟨rfl, hread₅⟩
  have hcap₅ := clientCapability_protocol41
    { s₁.dc with status := (r.greet i).2.statusFlags, capability := (r.greet i).2.capability } hcap
  have hs₅ := hread₅.along rfl hreach₄
  obtain ⟨b, hb, hiff⟩ := ShortReply.success_iff (r.login j db collation (r.greet i).1).2
  show Ends _ _ ((purely (byteAt _ 0) >>= _) t₅)
  rw [hb]
  by_cases hok : b = okHeader
  · show Ends _ _ ((if b ≠ okHeader then _ else _ : Session ι σ Unit) t₅)
    rw [if_neg (not_not.2 hok)]
    exact switch_spec hw hs₅ (hiff.1 hok) hread₅ rfl hcap₅
  · show Ends _ _ ((if b ≠ okHeader then _ else _ : Session ι σ Unit) t₅)
    rw [if_pos hok]
    obtain ⟨sequence, hconn⟩ := hread₅.conn
    exact ⟨Read.fit hread₅ hcap₅, .inl hs₅.closed, fun hr => ⟨⟨_, rfl⟩, hs₅.reachable hr, by rw [hconn]; rfl⟩⟩

/-! ### Writing -/

theorem close_eq (s : Link ι σ) : close s = (.ok (), { s with dc := { s.dc with conn := none, closed := true } }) :=
  rfl

/-- What holds behind an attempt to connect, or a whole redial, that has or has not left a socket. -/
def Attempted (s : Link ι σ) (socket : Prop) (s' : Link ι σ) : Prop :=
  s'.dc.closed = true ∧ Fit s'.dc ∧ (s.net.Reachable → s'.net.Reachable ∧ (socket → s'.dc.conn.isSome))

theorem attempt_connect_spec
    (h : ∀ third s, Ends (fun _ s' => Established r s s') (Unopened third s) (connect third s))
    (hclosed : s.dc.closed = true) :
    Ends (fun result s' => Attempted s (result.isOk ∨ third = true) s')
      (fun _ s' => s'.dc.closed = true ∧ Fit s'.dc ∧ ¬ s.net.Reachable) (attemptErr (connect third) s) := by
  refine attemptErr_ends ((h third s).weaken ?_ ?_)
  · intro _ s' hs'
    obtain ⟨p, sequence, hconn, -⟩ := hs'.opened
    exact ⟨hs'.closed.trans hclosed, hs'.fit, fun hr => ⟨hs'.reachable hr, fun _ => by rw [hconn]; rfl⟩⟩
  · rintro (msg | msg) s' hs'
    · refine ⟨hs'.closed.elim (·.trans hclosed) id, hs'.fit, fun hr => ⟨(hs'.reachable hr).2, ?_⟩⟩
      rintro (hok | hthird)
      · cases hok
      · exact hs'.conn hthird hr
    · refine ⟨hs'.closed.elim (·.trans hclosed) id, hs'.fit, fun hr => ?_⟩
      obtain ⟨msg', hmsg⟩ := (hs'.reachable hr).1
      cases hmsg

theorem redial_spec (h : ∀ third s, Ends (fun _ s' => Established r s s') (Unopened third s) (connect third s))
    (n : Nat) (s : Link ι σ) : Ends (fun _ s' => Attempted s True s')
      (fun _ s' => s'.dc.closed = true ∧ Fit s'.dc ∧ ¬ s.net.Reachable) (redial connect (n + 1) s) := by
  induction n generalizing s with
  | zero =>
    unfold redial
    rw [bind_ok (close_eq s)]
    refine Ends.bind (attempt_connect_spec h rfl) ?_
    rintro (msg | _) s' ⟨hclosed, hfit, hreach⟩
    · exact ⟨hclosed, hfit, fun hr => ⟨(hreach hr).1, fun _ => (hreach hr).2 (.inr rfl)⟩⟩
    · exact ⟨hclosed, hfit, fun hr => ⟨(hreach hr).1, fun _ => (hreach hr).2 (.inl rfl)⟩⟩
  | succ n ih =>
    unfold redial
    rw [bind_ok (close_eq s)]
    refine Ends.bind (attempt_connect_spec h rfl) ?_
    rintro (msg | _) s' ⟨hclosed, hfit, hreach⟩
    · refine (ih s').weaken (fun _ t ht => ?_) fun _ t ht => ?_
      · exact ⟨ht.1, ht.2.1, fun hr => ht.2.2 (hreach hr).1⟩
      · exact ⟨ht.1, ht.2.1, fun hr => ht.2.2 (hreach hr).1⟩
    · exact ⟨hclosed, hfit, fun hr => ⟨(hreach hr).1, fun _ => (hreach hr).2 (.inl rfl)⟩⟩

theorem tryWrite_spec (req : Request) (hc : s.dc.conn = some c) : Ends
    (fun broken s' => if broken then (¬ s.net.Unbroken ∧ s'.net.dials = s.net.dials ∧ s'.dc = (s.withConn c.close).dc)
      else Sent r req s s') (fun e s' => Lost s e s') (tryWrite r.peer req s) := by
  unfold tryWrite
  rw [bind_ok get_apply]
  cases hwrites : s.net.writes with
  | nil =>
    dsimp only
    rw [bind_ok (closeConn_eq hc)]
    exact ⟨⟨_, rfl⟩, rfl, ⟨_, rfl⟩, rfl, suffix_rfl⟩
  | cons w rest =>
    let s₁ : Link ι σ := { s with net := { s.net with writes := rest } }
    have hs₁ : (modify fun s => { s with net := { s.net with writes := rest } } : Session ι σ Unit) s =
      (.ok (), s₁) := rfl
    have hsuffix : rest <:+ s.net.writes := hwrites ▸ suffix_cons w rest
    dsimp only
    rw [bind_ok hs₁]
    have hc₁ : s₁.dc.conn = some c := hc
    cases w with
    | ok i =>
      have hdeliver : onConn (modify (deliver r.peer i req)) s₁ = (.ok (), s₁.withConn (deliver r.peer i req c)) := by
        unfold onConn
        rw [of_apply]
        simp only [hc₁]
        rfl
      dsimp only
      rw [bind_ok hdeliver]
      exact ⟨i, rest, c, hwrites, hc, rfl, rfl⟩
    | brokenPipe =>
      dsimp only
      rw [bind_ok (closeConn_eq hc₁)]
      refine ⟨fun h => h ?_, rfl, rfl⟩
      rw [hwrites]
      exact mem_cons_self
    | failed =>
      dsimp only
      rw [bind_ok (closeConn_eq hc₁)]
      exact ⟨⟨_, rfl⟩, rfl, ⟨_, rfl⟩, rfl, hsuffix⟩

theorem WriteSpec.of_behind {behind : Session ι σ Unit}
    (h : ∀ {req : Request} {s s₁ : Link ι σ} {c : Conn σ}, ¬ s.net.Unbroken → s₁.net.dials = s.net.dials →
      s₁.dc.conn = some c.close → Ends (fun _ s' => Sent r req s s') (Unanswered s) (behind s₁)) :
    WriteSpec r fun req => (do if ← tryWrite r.peer req then behind) := by
  intro req s hconn hfit
  obtain ⟨c, hc⟩ := Option.isSome_iff_exists.1 hconn
  refine Ends.bind ((tryWrite_spec (r := r) req hc).weaken (fun _ _ h => h) fun _ _ h => .inl h) ?_
  rintro (_ | _) s₁ hs₁
  · exact hs₁
  · rw [if_pos rfl] at hs₁ ⊢
    obtain ⟨hbroken, hdials, hdc⟩ := hs₁
    exact h (c := c) hbroken hdials (by rw [hdc]; rfl)

theorem writeN_spec (n : Nat) : WriteSpec r (writeN r.peer n) := by
  induction n with
  | zero =>
    refine WriteSpec.of_behind fun hbroken hdials hconn => ?_
    refine .inr ⟨rfl, fit_of_hungUp hconn, hbroken, fun hr => ⟨⟨_, rfl⟩, hr.of_dials hdials, ?_⟩⟩
    exact Option.isSome_of_eq_some hconn
  | succ n ih =>
    refine WriteSpec.of_behind fun {_ _ s₁ _} hbroken hdials _ => ?_
    refine Ends.bind ((redial_spec (connectBy_spec ih) 2 s₁).weaken (fun _ _ h => h) ?_) ?_
    · rintro e s' ⟨hclosed, hfit, hnot⟩
      exact .inr ⟨hclosed, hfit, hbroken, fun hr => absurd (hr.of_dials hdials) hnot⟩
    · rintro _ s' ⟨hclosed, hfit, hreach⟩
      refine .inr ⟨hclosed, hfit, hbroken, fun hr => ⟨⟨_, rfl⟩, ?_⟩⟩
      obtain ⟨hr', hconn⟩ := hreach (hr.of_dials hdials)
      exact ⟨hr', hconn trivial⟩

theorem writePacket_spec : WriteSpec r (writePacket r.peer) := fun req s => writeN_spec s.net.writes.length req s

/-! ### Operations -/

theorem exec_spec (sql : Sql) (hconn : s.dc.conn.isSome) (hfit : Fit s.dc) :
    Ends (fun _ s' => Answered r sql true s s')
      (fun e s' => IsError e ∧ Answered r sql false s s' ∨ Unanswered s e s') (exec r.peer sql s) :=
  execBy_spec writePacket_spec sql hconn hfit

theorem connect_spec (s : Link ι σ) :
    Ends (fun _ s' => Established r s s') (Unopened false s) (DirectConnection.connect r.peer s) :=
  connectBy_spec writePacket_spec false s

end DirectConnection

end DbProxy
