import DbProxy.Backend.Connection

/-!
# Complete responses

How a server puts packets on the wire, and which packets are one complete response to a command.  What the proxy reads
of a complete response is all of it.
-/

namespace DbProxy

open Effect List

/-! ### Frames -/

/-- The header of a packet: its length and its sequence number. -/
def packetHeader (length : Nat) (sequence : UInt8) : GoString :=
  [UInt8.ofNat length, UInt8.ofNat (length / 256), UInt8.ofNat (length / 65536), sequence]

/-- The number of packets that a payload is cut into. -/
def packetCount (data : GoString) : Nat := data.length / Conn.maxPacketSize + 1

/-- All but the last packet of a payload are of the greatest size. -/
def frameN : Nat → UInt8 → GoString → GoString
  | 0, _, _ => []
  | n + 1, sequence, data =>
    if data.length < Conn.maxPacketSize then packetHeader data.length sequence ++ data
    else packetHeader Conn.maxPacketSize sequence ++ data.take Conn.maxPacketSize ++
      frameN n (sequence + 1) (data.drop Conn.maxPacketSize)

def frame (sequence : UInt8) (data : GoString) : GoString := frameN (packetCount data) sequence data

/-- Payloads one after the other. -/
def frames (sequence : UInt8) : List GoString → GoString
  | [] => []
  | data :: rest => frame sequence data ++ frames (sequence + UInt8.ofNat (packetCount data)) rest

theorem littleEndian_packetHeader {n : Nat} (h : n ≤ Conn.maxPacketSize) :
    littleEndian [UInt8.ofNat n, UInt8.ofNat (n / 256), UInt8.ofNat (n / 65536)] = n := by
  unfold Conn.maxPacketSize at h
  simp only [littleEndian, foldr_cons, foldr_nil, UInt8.toNat_ofNat']
  omega

namespace Conn

variable {σ : Type}

theorem readOnePacket_frame (peer : Option σ) (sequence : UInt8) (body more : GoString)
    (h : body.length ≤ maxPacketSize) :
    readOnePacket ⟨peer, packetHeader body.length sequence ++ body ++ more, sequence⟩ =
      (.ok body, ⟨peer, more, sequence + 1⟩) := by
  have hheader : readHeader ⟨peer, packetHeader body.length sequence ++ body ++ more, sequence⟩ =
      (.ok body.length, (⟨peer, body ++ more, sequence + 1⟩ : Conn σ)) := by
    simp [readHeader, packetHeader, bind_apply, littleEndian_packetHeader h, -bind_pure_comp]
  unfold readOnePacket
  rw [bind_ok hheader]
  simp [bind_apply, -bind_pure_comp]

theorem length_frameN (n : Nat) (sequence : UInt8) (data : GoString) (h : data.length < n * maxPacketSize) :
    data.length / maxPacketSize + 1 ≤ (frameN n sequence data).length := by
  induction n generalizing sequence data with
  | zero => omega
  | succ n ih =>
    unfold frameN
    split
    · next hlt =>
      rw [Nat.div_eq_of_lt hlt]
      simp [packetHeader]
    · next hge =>
      have hrest := ih (sequence + 1) (data.drop maxPacketSize) (by
        rw [length_drop]
        rw [Nat.succ_mul] at h
        omega)
      rw [length_drop] at hrest
      have hdiv : data.length / maxPacketSize = (data.length - maxPacketSize) / maxPacketSize + 1 := by
        rw [Nat.div_eq_sub_div (by decide) (by omega)]
      simp only [length_append, packetHeader, length_cons, length_nil]
      omega

theorem readRest_frameN (peer : Option σ) (n fuel : Nat) (sequence : UInt8) (acc data more : GoString)
    (hn : data.length < n * maxPacketSize) (hfuel : data.length / maxPacketSize + 1 ≤ fuel) :
    readRest fuel acc ⟨peer, frameN n sequence data ++ more, sequence⟩ =
      (.ok (acc ++ data), ⟨peer, more, sequence + UInt8.ofNat (packetCount data)⟩) := by
  induction n generalizing fuel sequence acc data with
  | zero => omega
  | succ n ih =>
    obtain ⟨fuel, rfl⟩ : ∃ k, fuel = k + 1 :=
      Nat.exists_eq_succ_of_ne_zero (by rintro rfl; exact absurd hfuel (Nat.not_succ_le_zero _))
    unfold frameN readRest
    split
    · next hlt =>
      rw [bind_ok (readOnePacket_frame peer sequence data more hlt.le), if_pos hlt]
      unfold packetCount
      rw [Nat.div_eq_of_lt hlt]
      rfl
    · next hge =>
      have hfull : (data.take maxPacketSize).length = maxPacketSize := by
        rw [length_take]
        omega
      have hdiv : data.length / maxPacketSize = (data.drop maxPacketSize).length / maxPacketSize + 1 := by
        rw [length_drop, Nat.div_eq_sub_div (by decide) (by omega)]
      have hone := readOnePacket_frame peer sequence (data.take maxPacketSize)
        (frameN n (sequence + 1) (data.drop maxPacketSize) ++ more) hfull.le
      rw [hfull] at hone
      rw [append_assoc, bind_ok hone, if_neg (by omega)]
      rw [ih fuel (sequence + 1) (acc ++ data.take maxPacketSize) (data.drop maxPacketSize) (by
        rw [length_drop]
        rw [Nat.succ_mul] at hn
        omega) (by omega)]
      rw [append_assoc, take_append_drop]
      have hcount : packetCount data = packetCount (data.drop maxPacketSize) + 1 := by
        unfold packetCount
        rw [hdiv]
      rw [hcount, Nat.add_comm _ 1, UInt8.ofNat_add, UInt8.add_assoc]
      rfl

theorem readPacket_frame (peer : Option σ) (sequence : UInt8) (data more : GoString) :
    readPacket ⟨peer, frame sequence data ++ more, sequence⟩ =
      (.ok data, ⟨peer, more, sequence + UInt8.ofNat (packetCount data)⟩) := by
  have hdata : data.length < packetCount data * maxPacketSize := by
    unfold packetCount
    rw [Nat.mul_comm]
    exact Nat.lt_mul_div_succ _ (by decide)
  unfold readPacket frame
  by_cases hlt : data.length < maxPacketSize
  · have hcount : packetCount data = 1 := by
      unfold packetCount
      rw [Nat.div_eq_of_lt hlt]
    rw [hcount]
    unfold frameN
    rw [if_pos hlt, bind_ok (readOnePacket_frame peer sequence data more hlt.le), if_pos hlt]
    rfl
  · have hfull : (data.take maxPacketSize).length = maxPacketSize := by
      rw [length_take]
      omega
    obtain ⟨n, hn⟩ : ∃ n, packetCount data = n + 1 := ⟨_, rfl⟩
    have hcount : n = packetCount (data.drop maxPacketSize) := by
      unfold packetCount at hn ⊢
      rw [Nat.div_eq_sub_div (by decide) (by omega)] at hn
      rw [length_drop]
      exact (Nat.succ.inj hn).symm
    have hrest : (data.drop maxPacketSize).length < n * maxPacketSize := by
      rw [hn, Nat.succ_mul] at hdata
      rw [length_drop]
      omega
    have hone := readOnePacket_frame peer sequence (data.take maxPacketSize)
      (frameN n (sequence + 1) (data.drop maxPacketSize) ++ more) hfull.le
    rw [hfull] at hone
    have hlen := length_frameN n (sequence + 1) (data.drop maxPacketSize) hrest
    rw [hn]
    unfold frameN
    rw [if_neg hlt, append_assoc, bind_ok hone, if_neg (by omega), bind_ok get_apply]
    rw [readRest_frameN peer n _ (sequence + 1) _ _ more hrest (by
      rw [length_append]
      omega)]
    rw [take_append_drop, ← hcount, Nat.add_comm n 1, UInt8.ofNat_add, UInt8.add_assoc]
    rfl

end Conn

/-! ### Responses -/

namespace DirectConnection

def OkPacket (data : GoString) (status : Nat) : Prop :=
  data.head? = some okHeader ∧ ∃ a i, readLenEncInt data 1 = .ok a ∧ readLenEncInt data a.pos = .ok i ∧
    uintAt 2 data i.pos = .ok status

def ErrPacket (data : GoString) : Prop := data.head? = some errHeader ∧ 9 ≤ data.length

/-- A header, the number of warnings and the status. -/
def EofPacket (data : GoString) (status : Nat) : Prop :=
  ∃ w₀ w₁ s₀ s₁, data = [eofHeader, w₀, w₁, s₀, s₁] ∧ status = littleEndian [s₀, s₁]

/-- A packet that cannot be taken for the end of a list. -/
def BodyPacket (data : GoString) : Prop :=
  ∃ b rest, data = b :: rest ∧ b ≠ errHeader ∧ (b = eofHeader → 5 < data.length)

def ColumnPacket (data : GoString) (field : Field) : Prop := BodyPacket data ∧ Field.parse data = .ok field

def RowPacket (fields : List Field) (data : GoString) (row : ResultRow) : Prop :=
  BodyPacket data ∧ parseText data fields = .ok row

/-- The packet in front of a result set. -/
def CountPacket (data : GoString) (count : Nat) : Prop :=
  (∃ b, data.head? = some b ∧ b ∉ [okHeader, errHeader, localInFileHeader]) ∧
    (∃ r, readLenEncInt data 0 = .ok r ∧ r.pos = data.length ∧ r.value = count) ∧ count ≤ maxSlice

/-- The packets of one complete response to a query, whether it is a success, and the last status in it. -/
inductive Response : List GoString → Bool → Option Nat → Prop
  | ok {data : GoString} {status : Nat} : OkPacket data status → Response [data] true (some status)
  | err {data : GoString} : ErrPacket data → Response [data] false none
  | columnsErr {header : GoString} {count : Nat} {columns : List GoString} {fields : List Field} {last : GoString} :
    CountPacket header count → Forall₂ ColumnPacket columns fields → fields.length ≤ count → ErrPacket last →
    Response (header :: columns ++ [last]) false none
  | rows {header : GoString} {columns : List GoString} {fields : List Field} {eof : GoString} {status : Nat}
    {rows : List GoString} {values : List ResultRow} {last : GoString} {status' : Nat} :
    CountPacket header fields.length → Forall₂ ColumnPacket columns fields → EofPacket eof status →
    Forall₂ (RowPacket fields) rows values → EofPacket last status' →
    Response (header :: columns ++ eof :: rows ++ [last]) true (some status')
  | rowsErr {header : GoString} {columns : List GoString} {fields : List Field} {eof : GoString} {status : Nat}
    {rows : List GoString} {values : List ResultRow} {last : GoString} :
    CountPacket header fields.length → Forall₂ ColumnPacket columns fields → EofPacket eof status →
    Forall₂ (RowPacket fields) rows values → ErrPacket last →
    Response (header :: columns ++ eof :: rows ++ [last]) false (some status)

/-- The packets of one complete response to a field list command. -/
inductive FieldListResponse : List GoString → Prop
  | ok {columns : List GoString} {fields : List Field} {eof : GoString} {status : Nat} :
    Forall₂ ColumnPacket columns fields → EofPacket eof status → FieldListResponse (columns ++ [eof])
  | err {columns : List GoString} {fields : List Field} {last : GoString} :
    Forall₂ ColumnPacket columns fields → ErrPacket last → FieldListResponse (columns ++ [last])

/-! ### The kinds of packets -/

theorem isEOFPacket_eof {data : GoString} {status : Nat} (h : EofPacket data status) :
    isEOFPacket data = .ok true := by
  obtain ⟨w₀, w₁, s₀, s₁, rfl, rfl⟩ := h
  rfl

theorem uintAt_eof {data : GoString} {status : Nat} (h : EofPacket data status) : uintAt 2 data 3 = .ok status := by
  obtain ⟨w₀, w₁, s₀, s₁, rfl, rfl⟩ := h
  rfl

theorem isEOFPacket_cons (b : UInt8) (rest : GoString) :
    isEOFPacket (b :: rest) = .ok (decide (b = eofHeader) && decide ((b :: rest).length ≤ 5)) := rfl

theorem byteAt_of_head? {data : GoString} {b : UInt8} (h : data.head? = some b) : byteAt data 0 = .ok b := by
  cases data with
  | nil => cases h
  | cons b' rest =>
    cases h
    rfl

theorem isEOFPacket_body {data : GoString} (h : BodyPacket data) : isEOFPacket data = .ok false := by
  obtain ⟨b, rest, rfl, -, hlong⟩ := h
  rw [isEOFPacket_cons]
  by_cases hb : b = eofHeader
  · rw [decide_eq_false (not_le.2 (hlong hb)), Bool.and_false]
  · rw [decide_eq_false hb, Bool.false_and]

theorem byteAt_body {data : GoString} (h : BodyPacket data) : ∃ b, byteAt data 0 = .ok b ∧ b ≠ errHeader := by
  obtain ⟨b, rest, rfl, hb, -⟩ := h
  exact ⟨b, rfl, hb⟩

theorem isEOFPacket_err {data : GoString} (h : ErrPacket data) : isEOFPacket data = .ok false := by
  obtain ⟨hhead, hlen⟩ := h
  cases data with
  | nil => cases hhead
  | cons b rest =>
    cases hhead
    rw [isEOFPacket_cons, decide_eq_false (by decide), Bool.false_and]

theorem handleErrorPacket_err {data : GoString} (h : ErrPacket data) (capability : Nat) :
    ∃ msg, handleErrorPacket capability data = .ok (.error msg) := by
  have h₁ := slice_eq_ok data 1 3 (by omega) (by have := h.2; omega)
  have h₂ := slice_eq_ok data 4 9 (by omega) h.2
  have h₃ := slice_eq_ok data 9 data.length h.2 le_rfl
  have h₄ := slice_eq_ok data 3 data.length (by have := h.2; omega) le_rfl
  have h₁ : slice data 1 (1 + (2 : Nat)) = .ok ((data.take 3).drop 1) := h₁
  unfold handleErrorPacket uintAt
  simp only [h₁, bind, Except.bind, pure, Except.pure]
  split
  · have h₂ : slice data 4 9 = .ok ((data.take 9).drop 4) := h₂
    have h₃ : slice data 9 data.length = .ok ((data.take data.length).drop 9) := h₃
    rw [h₂, h₃]
    exact ⟨_, rfl⟩
  · have h₄ : slice data 3 data.length = .ok ((data.take data.length).drop 3) := h₄
    rw [h₄]
    exact ⟨_, rfl⟩

end DirectConnection

end DbProxy
