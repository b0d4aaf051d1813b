import DbProxy.Spec.Dialling

/-!
# The other requests

What can happen to a connection whose server answers completely when it changes the database or asks for columns.
-/

namespace DbProxy

open Effect

namespace DirectConnection

variable {ι σ α : Type}
variable {s : Link ι σ} {c : Conn σ}

def Switched (r : Responder ι σ) (db : GoString) (success : Bool) (s s' : Link ι σ) : Prop :=
  ∃ i c p sequence, s.net.writes = .ok i :: s'.net.writes ∧ s.dc.conn = some c ∧ c.peer = some p ∧
    (r.initDB i db p).2.success = success ∧ s'.net.dials = s.net.dials ∧
    s'.dc = { s.dc with conn := some ⟨some (r.initDB i db p).1, [], sequence⟩, db := if success then db else s.dc.db }

def Listed (r : Responder ι σ) (table wildcard : GoString) (s s' : Link ι σ) : Prop :=
  ∃ i c p sequence, s.net.writes = .ok i :: s'.net.writes ∧ s.dc.conn = some c ∧ c.peer = some p ∧
    s'.net.dials = s.net.dials ∧
    s'.dc = { s.dc with conn := some ⟨some (r.fieldList i table wildcard p).1, [], sequence⟩ }

variable {r : Responder ι σ}

theorem sendPacket_spec (req : Request) (hc : s.dc.conn = some c) (hfit : Fit s.dc) :
    Ends (fun _ s₂ => s₂.net.dials = s.net.dials ∧
        ((∃ i p, s.net.writes = .ok i :: s₂.net.writes ∧ c.peer = some p ∧ s.dc.capability &&& clientProtocol41 > 0 ∧
          Waiting s.dc s₂.net (r.respond i req p).1 (r.respond i req p).2 s₂) ∨
        ∃ e s₃, readPacket s₂ = (.error e, s₃) ∧ Lost s e s₃))
      (Unanswered s) (writePacket r.peer req (s.withConn (c.setSequence 0))) := by
  have hfit₁ : Fit (s.withConn (c.setSequence 0)).dc := hfit.withConn hc rfl rfl
  refine (writePacket_spec req _ rfl hfit₁).weaken (fun _ s₂ hsent => ⟨hsent.dials, ?_⟩) fun e s' h =>
    Unanswered.of_conn (s.withConn (c.setSequence 0)) rfl rfl h
  rcases hsent.cases hfit₁ with ⟨i, c', p, hwrites, hc', hp, hcap, hwait⟩ | ⟨hdc, hsuffix, sequence, hnone⟩
  · cases hc'
    exact .inl ⟨i, p, hwrites, hp, hcap, hwait.dc, hwait.conn, hwait.dials, hwait.writes⟩
  · obtain ⟨e, s₃, hread, hlost⟩ := readPacket_none hnone
    refine .inr ⟨e, s₃, hread, hlost.error, ?_, hlost.conn, hlost.dials.trans hsent.dials, hlost.writes.trans hsuffix⟩
    rw [hlost.dc, hdc]
    rfl

theorem useDB_spec (db : GoString) (hc : s.dc.conn = some c) (hfit : Fit s.dc) :
    Ends (fun _ s' => (s.dc.db = db ∨ db.isEmpty) ∧ s' = s.withConn (c.setSequence 0) ∨ Switched r db true s s')
      (fun e s' => IsError e ∧ Switched r db false s s' ∨ Unanswered s e s') (useDB r.peer db s) := by
  unfold useDB
  rw [bind_ok (setSequence_eq hc 0), bind_ok get_apply]
  show Ends _ _ ((if s.dc.db = db ∨ db.isEmpty then _ else _ : Session ι σ Unit) (s.withConn (c.setSequence 0)))
  by_cases hsame : s.dc.db = db ∨ db.isEmpty
  · rw [if_pos hsame]
    exact .inl ⟨hsame, rfl⟩
  rw [if_neg hsame]
  have hself : setSequence 0 (s.withConn (c.setSequence 0)) = (.ok (), s.withConn (c.setSequence 0)) := rfl
  rw [bind_ok hself]
  refine Ends.bind ((sendPacket_spec (.initDB db) hc hfit).weaken (fun _ _ h => h) fun _ _ h => .inr h) ?_
  rintro _ s₂ ⟨hdials, ⟨i, p, hwrites, hp, hcap, hwait⟩ | ⟨e, s₃, hread, hlost⟩⟩
  · refine Ends.bind ((readPacket_spec (r.initDB i db p).2.packet s₂ hwait).weaken (fun _ _ h => h)
      fun _ _ h => ?_) ?_
    · exact .inr (.inl (h.2.lost h.1 rfl hdials (hwrites ▸ List.suffix_cons _ _)))
    rintro _ s₃ ⟨rfl, hread⟩
    obtain ⟨sequence, hconn⟩ := hread.conn
    have hwrites₃ : s.net.writes = .ok i :: s₃.net.writes := by rw [hread.writes, hwrites]
    have hdc : s₃.dc = { s.dc with conn := some ⟨some (r.initDB i db p).1, [], sequence⟩ } := by
      rw [hread.dc, hconn]
      rfl
    obtain ⟨b, hb, hiff⟩ := ShortReply.success_iff (r.initDB i db p).2
    show Ends _ _ ((purely (byteAt _ 0) >>= _) s₃)
    rw [hb]
    by_cases hok : b = okHeader
    · show Ends _ _ ((if b ≠ okHeader then _ else _ : Session ι σ Unit) s₃)
      rw [if_neg (not_not.2 hok)]
      refine .inr ⟨i, c, p, sequence, hwrites₃, hc, hp, hiff.1 hok, hread.dials.trans hdials, ?_⟩
      show { s₃.dc with db := db } = _
      rw [hdc]
      rfl
    · show Ends _ _ ((if b ≠ okHeader then _ else _ : Session ι σ Unit) s₃)
      rw [if_pos hok]
      have hfalse : (r.initDB i db p).2.success = false := by
        rw [← Bool.not_eq_true]
        exact fun h => hok (hiff.2 h)
      exact .inl ⟨⟨_, rfl⟩, i, c, p, sequence, hwrites₃, hc, hp, hfalse, hread.dials.trans hdials, hdc⟩
  · rw [bind_error hread]
    exact .inr (.inl hlost)

theorem fieldList_spec (table wildcard : GoString) (hc : s.dc.conn = some c) (hfit : Fit s.dc) :
    Ends (fun _ s' => Listed r table wildcard s s') (fun e s' => IsError e ∧ Listed r table wildcard s s' ∨
      Unanswered s e s') (fieldList r.peer table wildcard s) := by
  unfold fieldList
  rw [bind_ok (setSequence_eq hc 0)]
  refine Ends.bind ((sendPacket_spec (.fieldList table wildcard) hc hfit).weaken (fun _ _ h => h)
    fun _ _ h => .inr h) ?_
  rintro _ s₂ ⟨hdials, ⟨i, p, hwrites, hp, hcap, hwait⟩ | ⟨e, s₃, hread, hlost⟩⟩
  · have hdone : ∀ s₃, Read s.dc s₂.net (r.fieldList i table wildcard p).1 s₃ → Listed r table wildcard s s₃ := by
      intro s₃ hread
      obtain ⟨sequence, hconn⟩ := hread.conn
      refine ⟨i, c, p, sequence, by rw [hread.writes, hwrites], hc, hp, hread.dials.trans hdials, ?_⟩
      rw [hread.dc, hconn]
      rfl
    refine Ends.bind (pending_spec (E := fun _ _ => False) s₂ hwait |>.weaken (fun _ _ h => h) fun _ _ h => h.elim) ?_
    rintro n s₃ ⟨hn, hwait₃⟩
    refine (readFieldList_spec (r.fieldList i table wildcard p).2.2 n hn s₃ hwait₃).weaken
      (fun _ s₄ h => hdone s₄ h) ?_
    rintro e s₄ ⟨he, h | h⟩
    · exact .inl ⟨he, hdone s₄ h⟩
    · exact .inr (.inl (h.lost he rfl hdials (hwrites ▸ List.suffix_cons _ _)))
  · have hpending : ∃ n, pending s₂ = (.ok n, s₂) := ⟨_, rfl⟩
    obtain ⟨n, hpending⟩ := hpending
    rw [bind_ok hpending]
    show Ends _ _ ((readPacket >>= _) s₂)
    rw [bind_error hread]
    exact .inr (.inl hlost)

end DirectConnection

end DbProxy
