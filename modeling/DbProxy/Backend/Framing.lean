import DbProxy.Backend.Response

/-!
# Writing and reading packets

`WritePacket` cuts a payload into packets, with an empty one behind a last packet of the greatest size.  `readPacket`
and `ReadEphemeralPacket` put the packets together again: whatever the payload, they return it, read just the bytes
that were written and arrive at the sequence number of the writer.
-/

namespace DbProxy

open Effect Fallible List

namespace Conn

variable {σ : Type}

/-- The loop of `WritePacket`: the bytes it writes for the `length` bytes of `data` from `index` on, and the sequence
number it leaves. -/
def writePacketFrom (data : GoString) (index length : Nat) (sequence : UInt8) : Except Fail (GoString × UInt8) := do
  let packetLength := min length maxPacketSize
  let body ← slice data index (index + packetLength)
  let packet := packetHeader packetLength sequence ++ body
  if h : length - packetLength = 0 then
    if packetLength = maxPacketSize then
      return (packet ++ packetHeader 0 (sequence + 1), sequence + 1 + 1)
    else
      return (packet, sequence + 1)
  else
    let (rest, sequence') ← writePacketFrom data (index + packetLength) (length - packetLength) (sequence + 1)
    return (packet ++ rest, sequence')
termination_by length
decreasing_by
  have : 0 < maxPacketSize := by decide
  omega

def writePacket (data : GoString) (sequence : UInt8) : Except Fail (GoString × UInt8) :=
  writePacketFrom data 0 data.length sequence

/-- What the shared buffer of a connection is in use for. -/
inductive EphemeralPolicy where
  | unused
  | write
  | read
  deriving DecidableEq, Repr

/-- A connection with the use of its buffer. -/
structure Buffered (σ : Type) where
  conn : Conn σ
  currentEphemeralPolicy : EphemeralPolicy
  deriving DecidableEq, Repr

/-- `io.ReadFull` into a buffer of the given length. -/
def readBody (length : Nat) : Effect Fail (Conn σ) GoString := do
  let c ← get
  if c.unread.length < length then
    set c.close
    throw (.error "io.ReadFull(packet body) failed")
  set { c with unread := c.unread.drop length }
  return c.unread.take length

def onConn {α : Type} (x : Effect Fail (Conn σ) α) : Effect Fail (Buffered σ) α :=
  Effect.zoom (fun b => b.conn) (fun conn b => { b with conn }) x

def readEphemeralPacket : Effect Fail (Buffered σ) GoString := do
  if (← get).currentEphemeralPolicy ≠ .unused then
    throw (.panic "ReadEphemeralPacket: unexpected currentEphemeralPolicy")
  let length ← onConn readHeader
  modify fun b => { b with currentEphemeralPolicy := .read }
  if length = 0 then
    return []
  let data ← onConn (readBody length)
  if length < maxPacketSize then
    return data
  onConn (readRest ((← get).conn.unread.length + 1) data)

/-! ### The bytes that are written -/

theorem slice_take {data : GoString} {index k : Nat} (h : index + k ≤ data.length) :
    slice data index (index + k) = .ok ((data.drop index).take k) := by
  have hslice := slice_eq_ok data index (index + k) (Nat.le_add_right _ _) h
  rw [Nat.cast_add, drop_take, Nat.add_sub_cancel_left] at hslice
  exact hslice

theorem writePacketFrom_last {data : GoString} {index length : Nat} {sequence : UInt8}
    (h : index + length = data.length) (hlt : length < maxPacketSize) :
    writePacketFrom data index length sequence =
      .ok (packetHeader length sequence ++ (data.drop index).take length, sequence + 1) := by
  have hmin : min length maxPacketSize = length := Nat.min_eq_left hlt.le
  rw [writePacketFrom, hmin]
  refine bind_eq_ok.2 ⟨_, slice_take h.le, ?_⟩
  rw [dif_pos (Nat.sub_self _), if_neg hlt.ne]
  rfl

theorem writePacketFrom_exact {data : GoString} {index length : Nat} {sequence : UInt8}
    (h : index + length = data.length) (heq : length = maxPacketSize) :
    writePacketFrom data index length sequence =
      .ok (packetHeader maxPacketSize sequence ++ (data.drop index).take maxPacketSize ++
        packetHeader 0 (sequence + 1), sequence + 1 + 1) := by
  have hmin : min length maxPacketSize = maxPacketSize := Nat.min_eq_right heq.ge
  rw [writePacketFrom, hmin]
  refine bind_eq_ok.2 ⟨_, slice_take (heq ▸ h.le), ?_⟩
  rw [dif_pos (by rw [heq, Nat.sub_self]), if_pos rfl]
  rfl

theorem writePacketFrom_more {data rest : GoString} {index length : Nat} {sequence sequence' : UInt8}
    (h : index + length = data.length) (hgt : maxPacketSize < length)
    (hrest : writePacketFrom data (index + maxPacketSize) (length - maxPacketSize) (sequence + 1) =
      .ok (rest, sequence')) : writePacketFrom data index length sequence =
      .ok (packetHeader maxPacketSize sequence ++ (data.drop index).take maxPacketSize ++ rest, sequence') := by
  have hmin : min length maxPacketSize = maxPacketSize := Nat.min_eq_right hgt.le
  have hle : index + maxPacketSize ≤ data.length := by omega
  rw [writePacketFrom, hmin]
  refine bind_eq_ok.2 ⟨_, slice_take hle, ?_⟩
  rw [dif_neg (Nat.sub_ne_zero_of_lt hgt)]
  exact bind_eq_ok.2 ⟨_, hrest, rfl⟩

theorem writePacketFrom_eq (data : GoString) (n : Nat) : ∀ index sequence, index ≤ data.length →
    (data.drop index).length < n * maxPacketSize →
    writePacketFrom data index (data.length - index) sequence =
      .ok (frameN n sequence (data.drop index), sequence + UInt8.ofNat (packetCount (data.drop index))) := by
  have hpos : 0 < maxPacketSize := by decide
  induction n with
  | zero =>
    intro index sequence _ hn
    omega
  | succ n ih =>
    intro index sequence hindex hn
    have hsum : index + (data.length - index) = data.length := by omega
    have hlength : (data.drop index).length = data.length - index := length_drop
    unfold frameN
    by_cases hlt : (data.drop index).length < maxPacketSize
    · rw [writePacketFrom_last hsum (by omega), if_pos hlt, packetCount, Nat.div_eq_of_lt hlt, ← hlength, take_length]
      rfl
    · have hcount : packetCount (data.drop index) = 1 + packetCount (data.drop (index + maxPacketSize)) := by
        unfold packetCount
        rw [Nat.div_eq_sub_div hpos (by omega), hlength, length_drop, Nat.sub_sub]
        omega
      have hdrop : (data.drop index).drop maxPacketSize = data.drop (index + maxPacketSize) := drop_drop
      have hn' : (data.drop (index + maxPacketSize)).length < n * maxPacketSize := by
        rw [Nat.succ_mul] at hn
        rw [length_drop]
        omega
      rw [if_neg hlt, hdrop, hcount, UInt8.ofNat_add, ← UInt8.add_assoc]
      by_cases heq : data.length - index = maxPacketSize
      · have hnil : data.drop (index + maxPacketSize) = [] := drop_eq_nil_of_le (by omega)
        obtain ⟨m, rfl⟩ : ∃ m, n = m + 1 := Nat.exists_eq_succ_of_ne_zero (by rintro rfl; omega)
        rw [writePacketFrom_exact hsum heq, hnil, frameN,
          if_pos (show ([] : GoString).length < maxPacketSize from hpos)]
        rfl
      · have hrest := ih (index + maxPacketSize) (sequence + 1) (by omega) hn'
        rw [Nat.sub_add_eq] at hrest
        exact writePacketFrom_more hsum (by omega) hrest

theorem writePacket_eq (data : GoString) (sequence : UInt8) :
    writePacket data sequence = .ok (frame sequence data, sequence + UInt8.ofNat (packetCount data)) := by
  have hdata : data.length < packetCount data * maxPacketSize := by
    unfold packetCount
    rw [Nat.mul_comm]
    exact Nat.lt_mul_div_succ _ (by decide)
  exact writePacketFrom_eq data (packetCount data) 0 sequence (Nat.zero_le _) hdata

/-! ### Reading them -/

theorem onConn_apply {α : Type} (x : Effect Fail (Conn σ) α) (c : Conn σ) (policy : EphemeralPolicy) :
    onConn x ⟨c, policy⟩ = ((x c).1, ⟨(x c).2, policy⟩) := rfl

theorem readBody_ok {length : Nat} {c c' : Conn σ} {body : GoString} (h : readBody length c = (.ok body, c')) :
    body = c.unread.take length ∧ body.length = length ∧ c' = { c with unread := c.unread.drop length } := by
  unfold readBody at h
  rw [bind_ok get_apply] at h
  by_cases hshort : c.unread.length < length
  · rw [if_pos hshort] at h
    cases h
  · rw [if_neg hshort] at h
    cases h
    refine ⟨rfl, ?_, rfl⟩
    rw [length_take]
    omega

theorem readEphemeralPacket_of_readPacket {c c' : Conn σ} {data : GoString} (h : readPacket c = (.ok data, c')) :
    readEphemeralPacket ⟨c, .unused⟩ = (.ok data, ⟨c', .read⟩) := by
  have hone : (readOnePacket : Effect Fail (Conn σ) GoString) = readHeader >>= readBody := rfl
  unfold readPacket at h
  rw [hone] at h
  cases hheader : readHeader c with
  | mk r c₁ => cases r with
    | error e =>
      rw [bind_error (bind_error hheader)] at h
      cases h
    | ok length => cases hbody : readBody length c₁ with
      | mk r c₂ => cases r with
        | error e =>
          rw [bind_error ((bind_ok hheader).trans hbody)] at h
          cases h
        | ok body =>
          obtain ⟨hbytes, hlength, hrest⟩ := readBody_ok hbody
          rw [bind_ok ((bind_ok hheader).trans hbody)] at h
          have hread : (onConn readHeader : Effect Fail (Buffered σ) Nat) ⟨c, .unused⟩ =
              (.ok length, ⟨c₁, .unused⟩) := by
            rw [onConn_apply, hheader]
          have hread' : (onConn (readBody length) : Effect Fail (Buffered σ) GoString) ⟨c₁, .read⟩ =
              (.ok body, ⟨c₂, .read⟩) := by
            rw [onConn_apply, hbody]
          unfold readEphemeralPacket
          rw [bind_ok get_apply, if_neg (by simp)]
          beta_reduce
          rw [bind_ok hread, bind_ok (modify_apply _)]
          by_cases hzero : length = 0
          · subst hzero
            obtain rfl : c₂ = c₁ := hrest
            obtain rfl : body = [] := hbytes
            rw [if_pos (by decide)] at h
            cases h
            rfl
          · rw [if_neg hzero, bind_ok hread']
            rw [hlength] at h
            by_cases hlt : length < maxPacketSize
            · rw [if_pos hlt] at h ⊢
              cases h
              rfl
            · rw [if_neg hlt] at h ⊢
              rw [bind_ok get_apply] at h ⊢
              rw [onConn_apply, h]

/-- Reading returns the payload that was written, leaves what comes behind it, and ends at the writer's number. -/
theorem readPacket_writePacket (peer : Option σ) (data more : GoString) (sequence : UInt8) :
    ∃ bytes sequence', writePacket data sequence = .ok (bytes, sequence') ∧
      readPacket ⟨peer, bytes ++ more, sequence⟩ = (.ok data, ⟨peer, more, sequence'⟩) ∧
      readEphemeralPacket ⟨⟨peer, bytes ++ more, sequence⟩, .unused⟩ =
        (.ok data, ⟨⟨peer, more, sequence'⟩, .read⟩) := by
  have hread := readPacket_frame peer sequence data more
  exact ⟨_, _, writePacket_eq data sequence, hread, readEphemeralPacket_of_readPacket hread⟩

end Conn

end DbProxy
