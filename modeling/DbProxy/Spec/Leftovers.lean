import DbProxy.Spec.Attached

/-!
# What is left to read

A connection goes from user to user.  If the server answers every request with one complete response, then nothing is
left to read between two requests, so that a result is made of the packets that were sent for it.  An answer that goes
on behind the place where reading stopped is found by the next user: the pool looks at the status flags only.
-/

namespace DbProxy

open Effect DirectConnection

inductive Operation where
  | exec (sql : Sql)
  | setAutoCommit (on : Bool)
  | useDB (db : GoString)
  | fieldList (table wildcard : GoString)
  | init (db : GoString) (want : SessionState)

def Operation.run {ι σ : Type} (server : Peer ι σ) : Operation → Session ι σ Unit
  | .exec sql => do let _ ← DirectConnection.exec server sql
  | .setAutoCommit on => DirectConnection.setAutoCommit server on
  | .useDB db => DirectConnection.useDB server db
  | .fieldList table wildcard => do let _ ← DirectConnection.fieldList server table wildcard
  | .init db want => initBackendConn server db want

/-- A connection is used, or it goes back to its pool. -/
inductive Turn (ι : Type) where
  | use (operation : Operation) (net : Net ι)
  | put (net : Net ι)

variable {ι σ α : Type} {r : Responder ι σ}

namespace DirectConnection

/-- The connection afterwards, unless it is not reused. -/
def turn (server : Peer ι σ) (dc : DirectConnection σ) : Turn ι → Option (DirectConnection σ)
  | .use operation net => some (operation.run server ⟨dc, net⟩).2.dc
  | .put net =>
    if dc.closed then none
    else match resetConnection server ⟨dc, net⟩ with
      | (.ok _, s) => some s.dc
      | (.error _, _) => none

def turns (server : Peer ι σ) (dc : DirectConnection σ) (l : List (Turn ι)) : Option (DirectConnection σ) :=
  l.foldlM (turn server) dc

/-! ### Nothing is left -/

/-- Nothing is left to read afterwards, however the computation ends. -/
def KeepsFit (x : Session ι σ α) : Prop := Triple (fun s => Fit s.dc) x (fun _ s => Fit s.dc) fun _ s => Fit s.dc

theorem Fit.of_eq {dc dc' : DirectConnection σ} (h : Fit dc) (hconn : dc'.conn = dc.conn)
    (hcap : dc'.capability = dc.capability) : Fit dc' := by
  refine ⟨fun c hc => h.unread c (hconn ▸ hc), fun c p hc hp => ?_⟩
  rw [hcap]
  exact h.protocol41 c p (hconn ▸ hc) hp

theorem Unanswered.fit {s s' : Link ι σ} {e : Fail} (h : Unanswered s e s') : Fit s'.dc :=
  h.elim Lost.fit Redialled.fit

theorem setSequence_none {s : Link ι σ} (h : s.dc.conn = none) (n : UInt8) :
    setSequence n s = (.error nilConn, s) := by
  unfold setSequence onConn
  rw [of_apply]
  simp only [h]

theorem closeConn_fit : KeepsFit (closeConn : Session ι σ Unit) := by
  intro s hs
  cases hc : s.dc.conn with
  | none =>
    rw [closeConn_none hc]
    exact hs
  | some c =>
    rw [closeConn_eq hc]
    exact fit_of_hungUp rfl

theorem orCloseConn_fit {x : Session ι σ α} (hx : KeepsFit x) : KeepsFit (orCloseConn x) := by
  refine Triple.bind (R := fun _ s => Fit s.dc)
    (fun s hs => attemptErr_ends ((hx s hs).weaken (fun _ _ h => h) ?_)) ?_
  · rintro (msg | msg) s' hs'
    · exact hs'
    · exact hs'
  · rintro (msg | a)
    · exact Triple.bind closeConn_fit fun _ _ hs => hs
    · exact fun _ hs => hs

theorem exec_fit (sql : Sql) : KeepsFit (exec r.peer sql) := by
  intro s hs
  have hanswered : ∀ {success s'}, Answered r sql success s s' → Fit s'.dc := by
    rintro success s' ⟨i, c, p, sequence, -, hc, hp, -, -, hdc⟩
    rw [hdc]
    exact fit_of_conn_eq rfl (hs.protocol41 c p hc hp)
  cases hc : s.dc.conn with
  | none =>
    unfold exec execBy
    rw [bind_error (setSequence_none hc 0)]
    exact hs
  | some c =>
    refine (exec_spec sql (by rw [hc]; rfl) hs).weaken (fun _ s' h => hanswered h) ?_
    rintro e s' (⟨-, h⟩ | h)
    · exact hanswered h
    · exact h.fit

theorem useDB_fit (db : GoString) : KeepsFit (useDB r.peer db) := by
  intro s hs
  have hswitched : ∀ {success s'}, Switched r db success s s' → Fit s'.dc := by
    rintro success s' ⟨i, c, p, sequence, -, hc, hp, -, -, hdc⟩
    rw [hdc]
    exact fit_of_conn_eq rfl (hs.protocol41 c p hc hp)
  cases hc : s.dc.conn with
  | none =>
    unfold useDB
    rw [bind_error (setSequence_none hc 0)]
    exact hs
  | some c =>
    refine (useDB_spec db hc hs).weaken ?_ ?_
    · rintro _ s' (⟨-, rfl⟩ | h)
      · exact hs.withConn hc rfl rfl
      · exact hswitched h
    · rintro e s' (⟨-, h⟩ | h)
      · exact hswitched h
      · exact h.fit

theorem fieldList_fit (table wildcard : GoString) : KeepsFit (fieldList r.peer table wildcard) := by
  intro s hs
  have hlisted : ∀ {s'}, Listed r table wildcard s s' → Fit s'.dc := by
    rintro s' ⟨i, c, p, sequence, -, hc, hp, -, hdc⟩
    rw [hdc]
    exact fit_of_conn_eq rfl (hs.protocol41 c p hc hp)
  cases hc : s.dc.conn with
  | none =>
    unfold fieldList
    rw [bind_error (setSequence_none hc 0)]
    exact hs
  | some c =>
    refine (fieldList_spec table wildcard hc hs).weaken (fun _ s' h => hlisted h) ?_
    rintro e s' (⟨-, h⟩ | h)
    · exact hlisted h
    · exact h.fit

theorem setAutoCommit_fit (on : Bool) : KeepsFit (setAutoCommit r.peer on) :=
  Triple.bind (orCloseConn_fit (exec_fit _)) fun _ _ hs => hs

theorem resetConnection_fit : KeepsFit (resetConnection r.peer) := by
  have hrest : KeepsFit (do
      if !(← get).dc.isAutoCommit then
        setAutoCommit r.peer true : Session ι σ Unit) := by
    refine Triple.get_bind fun t ht => ?_
    rintro _ rfl
    split
    · exact setAutoCommit_fit true _ ht
    · exact ht
  refine Triple.get_bind fun t ht => ?_
  rintro _ rfl
  split
  · have hrollback : KeepsFit (DirectConnection.rollback r.peer) := Triple.bind (exec_fit .rollback) fun _ _ hs => hs
    exact Ends.bind (hrollback _ ht) fun _ s hs => hrest s hs
  · exact hrest _ ht

theorem initBackendConn_fit (db : GoString) (want : SessionState) : KeepsFit (initBackendConn r.peer db want) := by
  refine Triple.bind (useDB_fit db) fun _ => Triple.bind (R := fun _ s => Fit s.dc) (fun s hs => ?_)
      fun charsetChanged =>
    Triple.bind (R := fun _ s => Fit s.dc) (fun s hs => ?_) fun variablesChanged => ?_
  · have hcases := setCharset_cases want.charset want.collation s
    generalize setCharset want.charset want.collation s = result at hcases ⊢
    rcases hcases with ⟨rfl, -⟩ | ⟨msg, rfl⟩ | ⟨rfl, -⟩
    · exact hs
    · exact hs
    · exact hs.of_eq rfl rfl
  · unfold setSessionVariables Effect.zoom
    rw [of_apply]
    generalize SessionVariables.setEqualsWith want.sessionVariables s.dc.sessionVariables = result
    obtain ⟨result, v⟩ := result
    cases result with
    | ok _ => exact hs.of_eq rfl rfl
    | error _ => exact hs.of_eq rfl rfl
  · split
    · refine Triple.get_bind fun t ht => ?_
      rintro t rfl
      dsimp only
      cases collations t.dc.collation with
      | none => exact ht
      | some collation =>
        refine Ends.bind (R := fun _ s => Fit s.dc) (ht.of_eq rfl rfl) fun _ s hs => ?_
        exact Ends.bind (exec_fit _ s hs) fun _ _ hs => hs
    · exact fun _ hs => hs

end DirectConnection

theorem Operation.run_fit {ι σ : Type} {r : Responder ι σ} (operation : Operation) :
    KeepsFit (operation.run r.peer) := by
  cases operation with
  | exec sql => exact Triple.bind (exec_fit sql) fun _ _ hs => hs
  | setAutoCommit on => exact setAutoCommit_fit on
  | useDB db => exact useDB_fit db
  | fieldList table wildcard => exact Triple.bind (fieldList_fit table wildcard) fun _ _ hs => hs
  | init db want => exact initBackendConn_fit db want

namespace DirectConnection

theorem turn_fit {dc dc' : DirectConnection σ} (h : Fit dc) {t : Turn ι} (ht : dc.turn r.peer t = some dc') :
    Fit dc' := by
  cases t with
  | use operation net =>
    have hend := operation.run_fit (r := r) ⟨dc, net⟩ h
    cases ht
    generalize operation.run r.peer ⟨dc, net⟩ = result at hend ⊢
    obtain ⟨result, s⟩ := result
    cases result with
    | ok _ => exact hend
    | error _ => exact hend
  | put net =>
    have hend := resetConnection_fit (r := r) ⟨dc, net⟩ h
    have ht : (if dc.closed then none else match resetConnection r.peer ⟨dc, net⟩ with
      | (.ok _, s) => some s.dc
      | (.error _, _) => none) = some dc' := ht
    split at ht
    · cases ht
    generalize resetConnection r.peer ⟨dc, net⟩ = result at hend ht
    obtain ⟨result, s⟩ := result
    cases result with
    | ok _ =>
      cases ht
      exact hend
    | error _ => cases ht

theorem turns_fit {dc dc' : DirectConnection σ} (h : Fit dc) {l : List (Turn ι)} (hl : dc.turns r.peer l = some dc') :
    Fit dc' := by
  induction l generalizing dc with
  | nil =>
    cases hl
    exact h
  | cons t l ih =>
    obtain ⟨dc₁, ht, hl⟩ := Option.bind_eq_some_iff.1 hl
    exact ih (turn_fit h ht) hl

/-- The connection with an answer that waits to be read. -/
def withAnswer (dc : DirectConnection σ) (p : σ) (packets : List GoString) (sequence : UInt8) : DirectConnection σ :=
  { dc with conn := some ⟨some p, frames sequence packets, sequence⟩ }

/-- The end of `FieldList`. -/
def readFields : Session ι σ (List Field) := do readFieldList ((← pending) + 1) []

theorem writePacket_own (req : Request) {s : Link ι σ} {c : Conn σ} (hc : s.dc.conn = some c) (hfit : Fit s.dc) :
    Ends (fun _ s' => (∃ i p sequence, c.peer = some p ∧
        s'.dc = s.dc.withAnswer (r.respond i req p).1 (r.respond i req p).2 sequence) ∨
        ∃ e s'', readPacket s' = (.error e, s''))
      (fun _ _ => True) (writePacket r.peer req (s.withConn (c.setSequence 0))) := by
  refine (sendPacket_spec req hc hfit).weaken ?_ fun _ _ _ => trivial
  rintro _ s' ⟨-, ⟨i, p, -, hp, -, hwait⟩ | ⟨e, s'', hread, -⟩⟩
  · obtain ⟨sequence, hconn⟩ := hwait.conn
    refine .inl ⟨i, p, sequence, hp, ?_⟩
    rw [hwait.dc, hconn]
    rfl
  · exact .inr ⟨e, s'', hread⟩

/-- What is read after a request, if it is read at all, is read from the answer to the request. -/
theorem read_own (req : Request) {s s' : Link ι σ} {a : α} {x : Session ι σ α} (hfit : Fit s.dc)
    (hx : ∀ s e s', readPacket s = (.error e, s') → x s = (.error e, s'))
    (h : (do
      setSequence 0
      writePacket r.peer req
      x) s = (.ok a, s')) :
    ∃ i c p sequence net, s.dc.conn = some c ∧ c.peer = some p ∧
      (x ⟨s.dc.withAnswer (r.respond i req p).1 (r.respond i req p).2 sequence, net⟩).1 = .ok a := by
  cases hc : s.dc.conn with
  | none =>
    rw [bind_error (setSequence_none hc 0)] at h
    cases h
  | some c =>
    rw [bind_ok (setSequence_eq hc 0)] at h
    have hwrite := writePacket_own (r := r) req hc hfit
    rw [bind_apply] at h
    generalize writePacket r.peer req (s.withConn (c.setSequence 0)) = written at h hwrite
    obtain ⟨written, s₂⟩ := written
    cases written with
    | error e => cases h
    | ok _ =>
      have h : x s₂ = (.ok a, s') := h
      rcases hwrite with ⟨i, p, sequence, hp, hdc⟩ | ⟨e, s₃, hread⟩
      · refine ⟨i, c, p, sequence, s₂.net, rfl, hp, ?_⟩
        rw [← hdc, h]
      · rw [hx s₂ e s₃ hread] at h
        cases h

/-- If the server answers every request with one complete response, then a connection that is in use or was put back
for reuse has nothing left to read, and who uses it next gets a result that was read from the own answer. -/
theorem turns_own_answers (r : Responder ι σ) {dc dc' : DirectConnection σ} (h : Fit dc) {l : List (Turn ι)}
    (hl : dc.turns r.peer l = some dc') :
    (∀ c, dc'.conn = some c → c.unread = []) ∧
    (∀ sql net a s', exec r.peer sql ⟨dc', net⟩ = (.ok a, s') → ∃ i c p sequence, ∃ net' : Net ι, dc'.conn = some c ∧
      c.peer = some p ∧ (readResult ⟨dc'.withAnswer (r.query i sql p).1 (r.query i sql p).2.packets sequence,
        net'⟩).1 = .ok a) ∧
    ∀ table wildcard net fields s', fieldList r.peer table wildcard ⟨dc', net⟩ = (.ok fields, s') →
      ∃ i c p sequence, ∃ net' : Net ι, dc'.conn = some c ∧ c.peer = some p ∧ (readFields ⟨dc'.withAnswer
        (r.fieldList i table wildcard p).1 (r.fieldList i table wildcard p).2.1 sequence, net'⟩).1 = .ok fields := by
  have hfit := turns_fit h hl
  refine ⟨hfit.unread, fun sql net a s' hrun => ?_, fun table wildcard net fields s' hrun => ?_⟩
  · refine read_own (.query sql) (x := readResult) (s := ⟨dc', net⟩) hfit (fun s e s' hread => ?_) hrun
    unfold readResult
    rw [bind_error hread]
  · refine read_own (.fieldList table wildcard) (x := readFields) (s := ⟨dc', net⟩) hfit (fun s e s' hread => ?_) hrun
    show (readPacket >>= _) _ = _
    rw [bind_error hread]

end DirectConnection

namespace Reference

def twoUsers : List (Turn Bool) := [.use (.exec (.user (ascii "a"))) calm, .put calm]

/-- What the second user gets. -/
def used : DirectConnection Session := (idle.turns responder.peer twoUsers).getD idle

/-- A server that answers `a` with a column count, a column definition that is cut off, and one more packet.  It turns
everything else down. -/
def babbling : Peer Bool Session where
  accept _ := ({}, frames 0 [greeting.packet])
  serve _ sequence req p := (p, match req with
    | .query (.user [97]) => frame 1 [1] ++ frame 2 [0] ++ frame 1 [okHeader, 7, 0, 2, 0, 0, 0]
    | _ => frame sequence errPacket)

end Reference

theorem exists_of_isOk {ε α : Type} {x : Except ε α} (h : x.isOk) : ∃ a, x = .ok a := by
  cases x with
  | ok a => exact ⟨a, rfl⟩
  | error e => cases h

open Reference in
theorem turns_own_answers_reference :
    idle.turns responder.peer twoUsers = some used ∧ (∀ c, used.conn = some c → c.unread = []) ∧
      (∃ a i c p sequence, ∃ net : Net Bool, (exec responder.peer .begin ⟨used, calm⟩).1 = .ok a ∧
        used.conn = some c ∧ c.peer = some p ∧ (readResult ⟨used.withAnswer (responder.query i .begin p).1
          (responder.query i .begin p).2.packets sequence, net⟩).1 = .ok a) ∧
      ∃ fields i c p sequence, ∃ net : Net Bool, (fieldList responder.peer [] [] ⟨used, calm⟩).1 = .ok fields ∧
        used.conn = some c ∧ c.peer = some p ∧ (readFields ⟨used.withAnswer (responder.fieldList i [] [] p).1
          (responder.fieldList i [] [] p).2.1 sequence, net⟩).1 = .ok fields := by
  have hsome : (idle.turns responder.peer twoUsers).isSome := by decide +kernel
  have hused : idle.turns responder.peer twoUsers = some used := by
    unfold used
    obtain ⟨dc, hdc⟩ := Option.isSome_iff_exists.1 hsome
    rw [hdc]
    rfl
  obtain ⟨hunread, hown, hownFields⟩ := turns_own_answers responder idle_fit hused
  refine ⟨hused, hunread, ?_, ?_⟩
  · have hok : (exec responder.peer .begin ⟨used, calm⟩).1.isOk := by decide +kernel
    obtain ⟨a, ha⟩ := exists_of_isOk hok
    obtain ⟨i, c, p, sequence, net, h⟩ := hown .begin calm a _ (Prod.ext ha rfl)
    exact ⟨a, i, c, p, sequence, net, ha, h⟩
  · have hok : (fieldList responder.peer [] [] ⟨used, calm⟩).1.isOk := by decide +kernel
    obtain ⟨fields, hfields⟩ := exists_of_isOk hok
    obtain ⟨i, c, p, sequence, net, h⟩ := hownFields [] [] calm fields _ (Prod.ext hfields rfl)
    exact ⟨fields, i, c, p, sequence, net, hfields, h⟩

open Reference in
/-- The first user gets an error, and the connection goes back with a packet left; the second one, whose statement was
turned down, gets that packet as its result. -/
theorem turns_leftover :
    (idle.turns babbling twoUsers).map (fun dc => (dc.conn.map Conn.unread,
      match (exec babbling (.user (ascii "b")) ⟨dc, calm⟩).1 with
      | .ok a => some a.affectedRows
      | .error _ => none)) = some (some (frame 1 [okHeader, 7, 0, 2, 0, 0, 0]), some 7) := by
  decide +kernel

end DbProxy
