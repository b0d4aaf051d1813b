import DbProxy.Backend.Response

/-!
# Reading responses

A complete response is read to its end: afterwards nothing is left to read, unless the socket failed on the way.
-/

namespace DbProxy

open Effect List

/-- An error, and not a panic. -/
def IsError (e : Fail) : Prop := ∃ msg, e = .error msg

namespace DirectConnection

variable {ι σ α β : Type}
variable {status count : Nat} {s : Link ι σ} {E : Fail → Link ι σ → Prop} {data header last : GoString}
  {rows columns : List GoString} {fields : List Field} {Q : Answer → Link ι σ → Prop}

/-- The packets `ps` wait to be read. -/
structure Waiting (dc : DirectConnection σ) (net : Net ι) (p : σ) (ps : List GoString) (s : Link ι σ) : Prop where
  dc : s.dc = { dc with conn := s.dc.conn }
  conn : ∃ sequence, s.dc.conn = some ⟨some p, frames sequence ps, sequence⟩
  dials : s.net.dials = net.dials
  writes : s.net.writes = net.writes

structure Gone (dc : DirectConnection σ) (net : Net ι) (s : Link ι σ) : Prop where
  dc : s.dc = { dc with conn := s.dc.conn, status := s.dc.status }
  conn : ∃ sequence, s.dc.conn = some ⟨none, [], sequence⟩
  dials : s.net.dials = net.dials
  writes : s.net.writes = net.writes

theorem Gone.of_status {dc : DirectConnection σ} {net : Net ι}
    (h : Gone { dc with status } net s) : Gone dc net s := ⟨h.dc, h.conn, h.dials, h.writes⟩

theorem triple_purely {P : Link ι σ → Prop} {r : Except Fail α} {a : α} {f : α → Session ι σ β}
    {Q : β → Link ι σ → Prop} (hr : r = .ok a) (h : Triple P (f a) Q E) :
    Triple P (purely r >>= f) Q E := by
  subst hr
  exact h

variable {dc : DirectConnection σ} {net : Net ι} {p : σ} {ps : List GoString}

/-- How a computation can end badly on a complete response: the socket fails. -/
def Fails (dc : DirectConnection σ) (net : Net ι) (e : Fail) (s : Link ι σ) : Prop := IsError e ∧ Gone dc net s

theorem readPacket_spec (data : GoString) : Triple (Waiting dc net p (data :: ps)) readPacket
    (fun d s => d = data ∧ Waiting dc net p ps s) (Fails dc net) := by
  intro s hs
  obtain ⟨sequence, hconn⟩ := hs.conn
  unfold readPacket
  rw [of_apply]
  split
  · have hread := Conn.readPacket_frame (some p) sequence data
      (frames (sequence + UInt8.ofNat (packetCount data)) ps)
    unfold onConn
    rw [of_apply]
    simp only [hconn]
    rw [show frames sequence (data :: ps) = frame sequence data ++ frames _ ps from rfl, hread]
    exact ⟨rfl, by rw [hs.dc], ⟨_, rfl⟩, hs.dials, hs.writes⟩
  · unfold onConn
    rw [of_apply]
    simp only [hconn]
    exact ⟨⟨_, rfl⟩, by rw [hs.dc]; exact ⟨rfl, ⟨_, rfl⟩, hs.dials, hs.writes⟩⟩

/-! ### Packets with a meaning of their own -/

abbrev Read (dc : DirectConnection σ) (net : Net ι) (p : σ) : Link ι σ → Prop := Waiting dc net p []

theorem throwErrorPacket_spec (h : ErrPacket data) {Q : α → Link ι σ → Prop} :
    Triple (Waiting dc net p ps) (throwErrorPacket data) Q fun e s => IsError e ∧ Waiting dc net p ps s := by
  refine Triple.get_bind fun t ht => ?_
  obtain ⟨msg, hmsg⟩ := handleErrorPacket_err h t.dc.capability
  refine triple_purely hmsg ?_
  rintro s rfl
  exact ⟨⟨msg, rfl⟩, ht⟩

variable (hcap : dc.capability &&& clientProtocol41 > 0)

include hcap

theorem readStatus_spec (h : EofPacket data status) :
    Triple (Waiting dc net p ps) (readStatus data)
      (fun n s => n = status ∧ Waiting { dc with status } net p ps s) E := by
  refine Triple.get_bind fun t ht => ?_
  have hcap' : t.dc.capability &&& clientProtocol41 > 0 := by
    rw [ht.dc]
    exact hcap
  rw [if_pos hcap']
  refine triple_purely (uintAt_eof h) ?_
  rintro s rfl
  refine ⟨rfl, ?_, ht.conn, ht.dials, ht.writes⟩
  show { s.dc with status } = _
  rw [ht.dc]

theorem handleOKPacket_spec (h : OkPacket data status) :
    Triple (Waiting dc net p ps) (handleOKPacket data)
      (fun ans s => ans.status = status ∧ Waiting { dc with status } net p ps s) E := by
  obtain ⟨-, a, i, ha, hi, hstatus⟩ := h
  refine triple_purely ha (triple_purely hi (Triple.get_bind fun t ht => ?_))
  have hcap' : t.dc.capability &&& clientProtocol41 > 0 := by
    rw [ht.dc]
    exact hcap
  rw [if_pos (.inl hcap')]
  refine triple_purely hstatus ?_
  rintro s rfl
  refine ⟨rfl, ?_, ht.conn, ht.dials, ht.writes⟩
  show { s.dc with status } = _
  rw [ht.dc]

/-! ### Lists of packets -/

omit hcap in
theorem length_frames (sequence : UInt8) (ps : List GoString) : ps.length ≤ (frames sequence ps).length := by
  induction ps generalizing sequence with
  | nil => rfl
  | cons data ps ih =>
    have hdata : data.length < packetCount data * Conn.maxPacketSize := by
      unfold packetCount
      rw [Nat.mul_comm]
      exact Nat.lt_mul_div_succ _ (by decide)
    have hone := Conn.length_frameN (packetCount data) sequence data hdata
    have hrest := ih (sequence + UInt8.ofNat (packetCount data))
    show _ ≤ (frame sequence data ++ frames _ ps).length
    rw [length_append]
    unfold frame
    have := Nat.zero_le (data.length / Conn.maxPacketSize)
    simp only [length_cons]
    omega

omit hcap in
theorem pending_spec : Triple (Waiting dc net p ps) (pending : Session ι σ Nat)
    (fun n s => ps.length ≤ n ∧ Waiting dc net p ps s) E := by
  refine Triple.get_bind fun t ht => ?_
  rintro s rfl
  refine ⟨?_, ht⟩
  obtain ⟨sequence, hconn⟩ := ht.conn
  simp only [hconn]
  exact length_frames sequence ps

omit hcap

/-- How a list of packets ends in a failure. -/
def Refused (dc : DirectConnection σ) (net : Net ι) (p : σ) (ps : List GoString) (e : Fail) (s : Link ι σ) : Prop :=
  IsError e ∧ (Waiting dc net p ps s ∨ Gone dc net s)

theorem Fails.refused {e : Fail} (h : Fails dc net e s) : Refused dc net p ps e s := ⟨h.1, .inr h.2⟩

section Next

variable {data : GoString} {onEOF onBody : GoString → Session ι σ α} {Q : α → Link ι σ → Prop}

theorem readNext_eof {status : Nat} (h : EofPacket data status) (hE : ∀ e s, Fails dc net e s → E e s)
    (hnext : Triple (Waiting dc net p ps) (onEOF data) Q E) :
    Triple (Waiting dc net p (data :: ps)) (readNext onEOF onBody) Q E := by
  refine Triple.bind ((readPacket_spec data).weaken (fun _ h => h) (fun _ _ h => h) hE) fun d => ?_
  rintro s ⟨rfl, hs⟩
  exact triple_purely (isEOFPacket_eof h) hnext s hs

theorem readNext_body (h : BodyPacket data) (hE : ∀ e s, Fails dc net e s → E e s)
    (hnext : Triple (Waiting dc net p ps) (onBody data) Q E) :
    Triple (Waiting dc net p (data :: ps)) (readNext onEOF onBody) Q E := by
  refine Triple.bind ((readPacket_spec data).weaken (fun _ h => h) (fun _ _ h => h) hE) fun d => ?_
  rintro s ⟨rfl, hs⟩
  obtain ⟨b, hb, hne⟩ := byteAt_body h
  refine triple_purely (isEOFPacket_body h) (triple_purely hb ?_) s hs
  rw [if_neg hne]
  exact hnext

theorem readNext_err (h : ErrPacket data) :
    Triple (Waiting dc net p (data :: ps)) (readNext onEOF onBody) Q (Refused dc net p ps) := by
  refine Triple.bind ((readPacket_spec data).weaken (fun _ h => h) (fun _ _ h => h) fun _ _ h => h.refused)
    fun d => ?_
  rintro s ⟨rfl, hs⟩
  refine triple_purely (isEOFPacket_err h) (triple_purely (byteAt_of_head? h.1) ?_) s hs
  rw [if_pos rfl]
  exact (throwErrorPacket_spec h).weaken (fun _ h => h) (fun _ _ h => h) fun _ _ h => ⟨h.1, .inl h.2⟩

end Next

section Lists

variable {Q : List Field → Link ι σ → Prop} (hE : ∀ e s, Fails dc net e s → E e s) {columns : List GoString}
  (hcolumns : Forall₂ ColumnPacket columns fields)

include hE hcolumns

theorem readResultColumns_body {count : Nat} (acc : List Field)
    (hcount : acc.length + fields.length ≤ count) (n : Nat)
    (h : Triple (Waiting dc net p ps) (readResultColumns count n (acc ++ fields)) Q E) :
    Triple (Waiting dc net p (columns ++ ps)) (readResultColumns count (columns.length + n) acc) Q E := by
  induction hcolumns generalizing acc with
  | nil =>
    rw [append_nil] at h
    simpa using h
  | @cons data field columns fields hcolumn _ ih =>
    rw [length_cons] at hcount
    rw [length_cons, Nat.add_right_comm]
    refine readNext_body hcolumn.1 hE ?_
    rw [if_neg (by omega)]
    refine triple_purely hcolumn.2 (ih (acc ++ [field]) (by simp; omega) ?_)
    simpa using h

theorem readFieldList_body (acc : List Field) (n : Nat)
    (h : Triple (Waiting dc net p ps) (readFieldList n (acc ++ fields)) Q E) :
    Triple (Waiting dc net p (columns ++ ps)) (readFieldList (columns.length + n) acc) Q E := by
  induction hcolumns generalizing acc with
  | nil =>
    rw [append_nil] at h
    simpa using h
  | @cons data field columns fields hcolumn _ ih =>
    rw [length_cons, Nat.add_right_comm]
    refine readNext_body hcolumn.1 hE (triple_purely hcolumn.2 (ih (acc ++ [field]) ?_))
    simpa using h

end Lists

theorem readRowDatas_body {Q : List GoString × Nat → Link ι σ → Prop}
    (hE : ∀ e s, Fails dc net e s → E e s) (hrows : ∀ row ∈ rows, BodyPacket row)
    (acc : List GoString) (n : Nat) (h : Triple (Waiting dc net p ps) (readRowDatas n (acc ++ rows)) Q E) :
    Triple (Waiting dc net p (rows ++ ps)) (readRowDatas (rows.length + n) acc) Q E := by
  induction rows generalizing acc with
  | nil =>
    rw [append_nil] at h
    simpa using h
  | cons data rows ih =>
    rw [length_cons, Nat.add_right_comm]
    refine readNext_body (hrows data mem_cons_self) hE ?_
    refine ih (fun row hrow => hrows row (mem_cons_of_mem _ hrow)) (acc ++ [data]) ?_
    simpa using h

/-! ### Responses -/

variable (hcap : dc.capability &&& clientProtocol41 > 0)

include hcap

theorem readResultColumns_eof (h : EofPacket data status) (n : Nat) (acc : List Field) :
    Triple (Waiting dc net p (data :: ps)) (readResultColumns acc.length (n + 1) acc)
      (fun fs s => fs = acc ∧ Waiting { dc with status } net p ps s) (Fails dc net) := by
  refine readNext_eof h (fun _ _ h => h) (Triple.bind (readStatus_spec hcap h) fun st => ?_)
  rw [if_neg (by simp)]
  exact fun s hs => ⟨rfl, hs.2⟩

theorem readRowDatas_eof (h : EofPacket data status) (n : Nat) (acc : List GoString) :
    Triple (Waiting dc net p (data :: ps)) (readRowDatas (n + 1) acc)
      (fun r s => r = (acc, status) ∧ Waiting { dc with status } net p ps s) (Fails dc net) := by
  refine readNext_eof h (fun _ _ h => h) (Triple.bind (readStatus_spec hcap h) fun st => ?_)
  rintro s ⟨rfl, hs⟩
  exact ⟨rfl, hs⟩

theorem readResultset_rows {eof : GoString} {values : List ResultRow} (hheader : CountPacket header fields.length)
    (hcolumns : Forall₂ ColumnPacket columns fields) (heof : EofPacket eof status)
    (hrows : Forall₂ (RowPacket fields) rows values)
    (hE : ∀ e s, Fails dc net e s → E e s)
    (hlast : ∀ n, Triple (Waiting { dc with status } net p [last]) (readRowDatas (n + 1) rows)
      (fun r s => r.1 = rows ∧ Q { status := r.2, fields, rowDatas := rows, values } s) E) :
    Triple (Waiting dc net p (columns ++ eof :: rows ++ [last])) (readResultset header) Q E := by
  obtain ⟨-, ⟨r, hr, hpos, hcount⟩, hmax⟩ := hheader
  refine triple_purely hr ?_
  rw [if_neg (not_not.2 hpos)]
  dsimp only
  rw [if_neg (by omega)]
  have hE' : ∀ e s, Fails { dc with status } net e s → E e s := fun e s h => hE e s ⟨h.1, h.2.of_status⟩
  refine Triple.bind pending_spec fun n => Triple.of_forall fun s ⟨hn, hs⟩ => ?_
  simp only [length_append, length_cons] at hn
  obtain ⟨m, rfl⟩ : ∃ m, n = columns.length + m := ⟨n - columns.length, by omega⟩
  refine Triple.bind (R := fun fs s => fs = fields ∧ Waiting { dc with status } net p (rows ++ [last]) s)
    ?_ fun fs => ?_
  · rintro s rfl
    rw [append_assoc] at hs
    refine readResultColumns_body hE hcolumns [] ?_ (m + 1) ?_ s hs
    · simp [hcount]
    · rw [hcount]
      exact (readResultColumns_eof hcap heof m fields).weaken (fun _ h => h) (fun _ _ h => h) hE
  · refine Triple.of_forall fun s ⟨hfs, hs⟩ => ?_
    subst hfs
    rintro s rfl
    refine Triple.bind (@pending_spec _ _ _ { dc with status } _ _ _)
      (fun n => Triple.of_forall fun s ⟨hn, hs⟩ => ?_) s hs
    simp only [length_append, length_cons] at hn
    obtain ⟨m, rfl⟩ : ∃ m, n = rows.length + m := ⟨n - rows.length, by omega⟩
    refine Triple.bind (R := fun r s => r.1 = rows ∧ Q { status := r.2, fields := fs, rowDatas := rows, values } s) ?_
      fun r => ?_
    · rintro s rfl
      refine readRowDatas_body hE' (fun row hrow => ?_) [] (m + 1) (hlast m) s hs
      obtain ⟨v, -, hv⟩ := Fallible.exists_of_mem hrows hrow
      exact hv.1
    · refine Triple.of_forall fun s ⟨hr, hs⟩ => ?_
      obtain ⟨rs, st⟩ := r
      subst hr
      refine triple_purely (a := values) ?_ ?_
      · rw [Fallible.mapM_eq_ok]
        exact hrows.imp fun _ _ h => h.2
      · rintro s rfl
        exact hs

omit hcap in
theorem readResult_header (h : CountPacket header count) (hE : ∀ e s, Fails dc net e s → E e s)
    (hrest : Triple (Waiting dc net p ps) (readResultset header) Q E) :
    Triple (Waiting dc net p (header :: ps)) readResult Q E := by
  obtain ⟨b, hb, hmem⟩ := h.1
  simp only [mem_cons, not_mem_nil, or_false, not_or] at hmem
  refine Triple.bind ((readPacket_spec header).weaken (fun _ h => h) (fun _ _ h => h) hE) fun d => ?_
  rintro s ⟨rfl, hs⟩
  refine triple_purely (byteAt_of_head? hb) ?_ s hs
  rw [if_neg hmem.1, if_neg hmem.2.1, if_neg hmem.2.2]
  exact hrest

omit hcap in
theorem readResultset_columnsErr (hheader : CountPacket header count) (hcolumns : Forall₂ ColumnPacket columns fields)
    (hcount : fields.length ≤ count) (herr : ErrPacket last) :
    Triple (Waiting dc net p (columns ++ [last])) (readResultset header) Q (Refused dc net p []) := by
  obtain ⟨-, ⟨r, hr, hpos, rfl⟩, hmax⟩ := hheader
  refine triple_purely hr ?_
  rw [if_neg (not_not.2 hpos)]
  dsimp only
  rw [if_neg (by omega)]
  refine Triple.bind pending_spec fun n => Triple.of_forall fun s ⟨hn, hs⟩ => ?_
  simp only [length_append, length_cons] at hn
  obtain ⟨m, rfl⟩ : ∃ m, n = columns.length + m := ⟨n - columns.length, by omega⟩
  refine Triple.bind (R := fun _ _ => False) ?_ fun _ _ h => h.elim
  rintro s rfl
  exact readResultColumns_body (fun _ _ h => h.refused) hcolumns [] (by simpa using hcount) (m + 1)
    (readNext_err herr) s hs

theorem readResult_spec {success : Bool} {status : Option Nat} (h : Response ps success status) :
    Triple (Waiting dc net p ps) readResult
      (fun _ s => success = true ∧ Read { dc with status := status.getD dc.status } net p s)
      (fun e s => IsError e ∧ (success = false ∧ Read { dc with status := status.getD dc.status } net p s ∨
        Gone dc net s)) := by
  have hE : ∀ (e : Fail) (s : Link ι σ), Fails dc net e s → IsError e ∧ (success = false ∧
      Read { dc with status := status.getD dc.status } net p s ∨ Gone dc net s) := fun _ _ h => ⟨h.1, .inr h.2⟩
  cases h with
  | @ok data status hok =>
    refine Triple.bind ((readPacket_spec data).weaken (fun _ h => h) (fun _ _ h => h) hE) fun d => ?_
    rintro s ⟨rfl, hs⟩
    refine triple_purely (byteAt_of_head? hok.1) ?_ s hs
    rw [if_pos rfl]
    exact (handleOKPacket_spec hcap hok).weaken (fun _ h => h) (fun _ _ h => ⟨rfl, h.2⟩) fun _ _ h => h
  | @err data herr =>
    refine Triple.bind ((readPacket_spec data).weaken (fun _ h => h) (fun _ _ h => h) hE) fun d => ?_
    rintro s ⟨rfl, hs⟩
    refine triple_purely (byteAt_of_head? herr.1) ?_ s hs
    rw [if_neg (by decide), if_pos rfl]
    exact (throwErrorPacket_spec herr).weaken (fun _ h => h) (fun _ _ h => h) fun _ _ h => ⟨h.1, .inl ⟨rfl, h.2⟩⟩
  | @columnsErr header count columns fields last hheader hcolumns hcount herr =>
    refine readResult_header hheader hE ?_
    exact (readResultset_columnsErr hheader hcolumns hcount herr).weaken (fun _ h => h) (fun _ _ h => h)
      fun _ _ h => ⟨h.1, h.2.imp_left fun h => ⟨rfl, h⟩⟩
  | @rows header columns fields eof status rows values last status' hheader hcolumns heof hrows hlast =>
    refine readResult_header hheader hE (readResultset_rows hcap hheader hcolumns heof hrows hE fun n => ?_)
    refine (@readRowDatas_eof _ _ _ _ { dc with status } _ _ _ hcap hlast n rows).weaken (fun _ h => h) ?_
      fun e s h => hE e s ⟨h.1, h.2.of_status⟩
    rintro _ s ⟨rfl, hs⟩
    exact ⟨rfl, rfl, hs⟩
  | @rowsErr header columns fields eof status rows values last hheader hcolumns heof hrows hlast =>
    refine readResult_header hheader hE (readResultset_rows hcap hheader hcolumns heof hrows hE fun n => ?_)
    refine (readNext_err (Q := fun _ _ => False) hlast).weaken (fun _ h => h) (fun _ _ h => h.elim) ?_
    rintro e s ⟨he, hs | hs⟩
    · exact ⟨he, .inl ⟨rfl, hs⟩⟩
    · exact ⟨he, .inr hs.of_status⟩

omit hcap in
theorem readFieldList_spec (h : FieldListResponse ps) (n : Nat) (hn : ps.length ≤ n) :
    Triple (Waiting dc net p ps) (readFieldList (n + 1) []) (fun _ => Read dc net p) (Refused dc net p []) := by
  cases h with
  | @ok columns fields eof status hcolumns heof =>
    simp only [length_append, length_cons] at hn
    obtain ⟨m, rfl⟩ : ∃ m, n = columns.length + m := ⟨n - columns.length, by omega⟩
    refine readFieldList_body (fun _ _ h => h.refused) hcolumns [] (m + 1) ?_
    exact readNext_eof heof (fun _ _ h => h.refused) fun _ hs => hs
  | @err columns fields last hcolumns herr =>
    simp only [length_append, length_cons] at hn
    obtain ⟨m, rfl⟩ : ∃ m, n = columns.length + m := ⟨n - columns.length, by omega⟩
    exact readFieldList_body (fun _ _ h => h.refused) hcolumns [] (m + 1) (readNext_err herr)

end DirectConnection

end DbProxy
