import DbProxy.Plan.Merge
import DbProxy.Lib.Effect

/-!
# Packets

The decoding functions of the protocol, and how packets are read off a socket.  A packet is a header of four bytes,
three for the length and one for the sequence number, and its payload.

Positions are `int`s as in the source: a length that the server sends is converted to one and may come out negative.
Reading beyond the end of a slice is a panic.
-/

namespace DbProxy

/-! ### Slices of bytes -/

def outOfRange : Fail := .panic "index out of range"

/-- `data[pos]` -/
def byteAt (data : GoString) (pos : Int) : Except Fail UInt8 :=
  if pos < 0 then .error outOfRange
  else match data[pos.toNat]? with
    | some b => .ok b
    | none => .error outOfRange

/-- `data[low:high]` -/
def slice (data : GoString) (low high : Int) : Except Fail GoString :=
  if 0 ≤ low ∧ low ≤ high ∧ high ≤ data.length then .ok ((data.take high.toNat).drop low.toNat)
  else .error outOfRange

theorem slice_eq_ok (data : GoString) (low high : Nat) (h₁ : low ≤ high) (h₂ : high ≤ data.length) :
    slice data low high = .ok ((data.take high).drop low) := by
  unfold slice
  rw [if_pos (by omega), Int.toNat_natCast, Int.toNat_natCast]

def littleEndian (bs : GoString) : Nat := bs.foldr (fun b n => b.toNat + 256 * n) 0

/-- `binary.LittleEndian.Uint16(data[pos:])` for two bytes, and so on. -/
def uintAt (width : Nat) (data : GoString) (pos : Int) : Except Fail Nat :=
  return littleEndian (← slice data pos (pos + width))

/-! ### Length encoded integers and strings -/

/-- The four results of `ReadLenEncInt`. -/
structure LenEncInt where
  value : Nat
  pos : Int
  isNull : Bool
  ok : Bool
  deriving DecidableEq, Repr

def LenEncInt.failed : LenEncInt := ⟨0, 0, false, false⟩

/-- The integer is in the next `width` bytes. -/
def readWideInt (width : Nat) (data : GoString) (pos : Int) : Except Fail LenEncInt :=
  if data.length ≤ pos + width then .ok .failed
  else return ⟨← uintAt width data (pos + 1), pos + 1 + width, false, true⟩

def readLenEncInt (data : GoString) (pos : Int) : Except Fail LenEncInt := do
  if data.length ≤ pos then
    return .failed
  let b ← byteAt data pos
  if b = 0xfb then
    return ⟨0, pos + 1, true, true⟩
  else if b = 0xfc then
    readWideInt 2 data pos
  else if b = 0xfd then
    readWideInt 3 data pos
  else if b = 0xfe then
    readWideInt 8 data pos
  else
    return ⟨b.toNat, pos + 1, false, true⟩

def lenEncIntSize (i : Nat) : Nat :=
  if i < 251 then 1 else if i < 2 ^ 16 then 3 else if i < 2 ^ 24 then 4 else 9

/-- `data[pos] = b₀`, `data[pos+1] = b₁`, and so on. -/
def setBytes (data : GoString) (pos : Int) (bs : GoString) : Except Fail GoString :=
  if 0 ≤ pos ∧ pos + bs.length ≤ data.length then
    .ok (data.take pos.toNat ++ (bs ++ data.drop (pos.toNat + bs.length)))
  else .error outOfRange

/-- The buffer, and the next position. -/
def writeLenEncInt (data : GoString) (pos : Int) (i : Nat) : Except Fail (GoString × Int) := do
  let byte (shift : Nat) := UInt8.ofNat (i >>> shift)
  if i < 251 then
    return (← setBytes data pos [byte 0], pos + 1)
  else if i < 2 ^ 16 then
    return (← setBytes data pos [0xfc, byte 0, byte 8], pos + 3)
  else if i < 2 ^ 24 then
    return (← setBytes data pos [0xfd, byte 0, byte 8, byte 16], pos + 4)
  else
    return (← setBytes data pos [0xfe, byte 0, byte 8, byte 16, byte 24, byte 32, byte 40, byte 48, byte 56], pos + 9)

/-- The next position, unless the string does not fit. -/
def skipLenEncString (data : GoString) (pos : Int) : Except Fail (Option Int) := do
  let size ← readLenEncInt data pos
  if !size.ok then
    return none
  let s := toInt64 size.value
  if data.length ≤ toInt64 (size.pos + s - 1) then
    return none
  return some (toInt64 (size.pos + s))

/-- The string, the next position, and whether the value is null. -/
def readLenEncStringAsBytes (data : GoString) (pos : Int) : Except Fail (Option (GoString × Int × Bool)) := do
  let size ← readLenEncInt data pos
  if !size.ok then
    return none
  let s := toInt64 size.value
  if data.length ≤ toInt64 (size.pos + s - 1) then
    return none
  return some (← slice data size.pos (toInt64 (size.pos + s)), toInt64 (size.pos + s), size.isNull)

def readLenEncString (data : GoString) (pos : Int) : Except Fail (Option (GoString × Int)) := do
  let size ← readLenEncInt data pos
  if !size.ok then
    return none
  let s := toInt64 size.value
  if data.length ≤ toInt64 (size.pos + s - 1) then
    return none
  return some (← slice data size.pos (toInt64 (size.pos + s)), toInt64 (size.pos + s))

/-! ### Column definitions and rows -/

structure Field where
  schema : GoString
  table : GoString
  orgTable : GoString
  name : GoString
  orgName : GoString
  charset : Nat
  columnLength : Nat
  type : Nat
  flag : Nat
  decimal : Nat
  defaultValue : Option GoString
  deriving DecidableEq, Repr

def errMalformPacket : Fail := .error "Malform packet error"

def readFieldString (what : String) (data : GoString) (pos : Int) : Except Fail (GoString × Int) := do
  match ← readLenEncStringAsBytes data pos with
  | some (s, pos, _) => return (s, pos)
  | none => throw (.error ("read " ++ what ++ " failed"))

/-- Only the answer to a field list command has a default value. -/
def readDefaultValue (data : GoString) (pos : Int) : Except Fail (Option GoString) := do
  if data.length ≤ pos then
    return none
  let size ← readLenEncInt data pos
  let stop := toInt64 (size.pos + toInt64 size.value)
  if data.length < stop then
    throw errMalformPacket
  return some (← slice data size.pos stop)

/-- `FieldData.Parse` -/
def Field.parse (p : GoString) : Except Fail Field := do
  let some pos ← skipLenEncString p 0 | throw (.error "skipLenEncString in Parse failed")
  let (schema, pos) ← readFieldString "Schema" p pos
  let (table, pos) ← readFieldString "Table" p pos
  let (orgTable, pos) ← readFieldString "OrgTable" p pos
  let (name, pos) ← readFieldString "Name" p pos
  let (orgName, pos) ← readFieldString "OrgName" p pos
  let charset ← uintAt 2 p (pos + 1)
  let columnLength ← uintAt 4 p (pos + 3)
  let type ← byteAt p (pos + 7)
  let flag ← uintAt 2 p (pos + 8)
  let decimal ← byteAt p (pos + 10)
  let defaultValue ← readDefaultValue p (pos + 13)
  return { schema, table, orgTable, name, orgName, charset, columnLength, type := type.toNat, flag,
           decimal := decimal.toNat, defaultValue }

def unsignedFlag : Nat := 32

/-- The value of a column in the text protocol, by the type of the column. -/
def Field.textValue (f : Field) (v : GoString) : Except Fail Cell :=
  if f.type ∈ [1, 2, 3, 9, 8, 13] then
    if f.flag &&& unsignedFlag > 0 then
      if (parseUint v).2 then .ok (.uint64 (parseUint v).1) else .error (.error "strconv.ParseUint")
    else
      if (parseInt v).2 then .ok (.int64 (parseInt v).1) else .error (.error "strconv.ParseInt")
  else if f.type ∈ [4, 5, 246] then
    match parseFloat v with
    | some x => .ok (.float64 x)
    | none => .error (.error "strconv.ParseFloat")
  else if f.type ∈ [15, 253, 254, 12, 10, 11, 7] then .ok (.string v)
  else .ok (.bytes v)

/-- `RowData.ParseText` from a position on. -/
def parseTextFrom (p : GoString) : Int → List Field → Except Fail ResultRow
  | _, [] => .ok []
  | pos, f :: fs => do
    match ← readLenEncStringAsBytes p pos with
    | none => throw (.error "ReadLenEncStringAsBytes in ParseText failed")
    | some (v, pos, isNull) =>
      let cell ← (if isNull then return .null else f.textValue v)
      return cell :: (← parseTextFrom p pos fs)

def parseText (p : GoString) (fs : List Field) : Except Fail ResultRow := parseTextFrom p 0 fs

/-! ### The socket -/

/-- The proxy's end of a socket: what the server sent and was not read yet, the sequence number of the next packet,
and the session of the server at the other end as long as there is one. -/
structure Conn (σ : Type) where
  peer : Option σ
  unread : GoString
  sequence : UInt8
  deriving DecidableEq, Repr

namespace Conn

variable {σ : Type}

/-- The socket is closed, by the proxy or by a failure.  The server ends its session. -/
def close (c : Conn σ) : Conn σ := { c with peer := none, unread := [] }

def setSequence (n : UInt8) (c : Conn σ) : Conn σ := { c with sequence := n }

def maxPacketSize : Nat := 2 ^ 24 - 1

/-- The length of the packet that comes next.  The header is read before its sequence number is checked. -/
def readHeader : Effect Fail (Conn σ) Nat := do
  let c ← get
  match c.unread with
  | b₀ :: b₁ :: b₂ :: n :: rest =>
    set { c with unread := rest }
    if n ≠ c.sequence then
      throw (.error "invalid sequence")
    set { c with unread := rest, sequence := c.sequence + 1 }
    return littleEndian [b₀, b₁, b₂]
  | _ =>
    set c.close
    throw (.error "io.ReadFull(header size) failed")

def readOnePacket : Effect Fail (Conn σ) GoString := do
  let length ← readHeader
  let c ← get
  if c.unread.length < length then
    set c.close
    throw (.error "io.ReadFull(packet body) failed")
  set { c with unread := c.unread.drop length }
  return c.unread.take length

/-- The packets that go on with a packet of the greatest size. -/
def readRest : Nat → GoString → Effect Fail (Conn σ) GoString
  | 0, data => return data
  | n + 1, data => do
    let next ← readOnePacket
    if next.length < maxPacketSize then return data ++ next else readRest n (data ++ next)

/-- Each round reads a header, so that there are fewer rounds than unread bytes. -/
def readPacket : Effect Fail (Conn σ) GoString := do
  let data ← readOnePacket
  if data.length < maxPacketSize then
    return data
  readRest ((← get).unread.length + 1) data

end Conn

end DbProxy
