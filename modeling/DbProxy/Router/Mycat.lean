import DbProxy.Lib.AssocMap
import DbProxy.Router.Shard

/-!
# The shards of mycat

The five ways of mycat to find the database of a key (`proxy/router/shard_mycat.go`), and their parameters.
-/

namespace DbProxy

/-! ### Texts -/

/-- `strconv.Atoi` with its error. -/
def atoiErr (s : GoString) : Except Fail Int :=
  match atoi s with
  | some n => .ok n
  | none => .error (.error "strconv.Atoi")

/-- `toIntArray`: numbers with commas between them; spaces do not count. -/
def toIntArray (s : GoString) : Except Fail (List Int) := ((s.filter (· ≠ 32)).splitOn 44).mapM atoiErr

def isSpace (b : UInt8) : Bool := b = 32 || (9 ≤ b && b ≤ 13)

/-- `strings.TrimSpace` -/
def trimSpace (s : GoString) : GoString := ((s.dropWhile isSpace).reverse.dropWhile isSpace).reverse

def getString : GoVal → Except Fail GoString
  | .int n | .int64 n | .uint64 n => .ok (ascii (toString n))
  | .string s | .bytes s => .ok s
  | v => .error (.panic ("Unexpected key variable type " ++ v.typeName))

def isContinuation (b : UInt8) : Bool := 0x80 ≤ b && b ≤ 0xbf

/-- The least and the greatest second byte behind a first byte of three or four. -/
def secondByte (b : UInt8) : UInt8 × UInt8 :=
  if b = 0xe0 then (0xa0, 0xbf) else if b = 0xed then (0x80, 0x9f)
  else if b = 0xf0 then (0x90, 0xbf) else if b = 0xf4 then (0x80, 0x8f) else (0x80, 0xbf)

/-- The first rune of a string and the number of its bytes; a byte that starts no rune is `U+FFFD`. -/
def decodeRune (b₀ : UInt8) (rest : GoString) : UInt32 × Nat :=
  let invalid := ((0xfffd : UInt32), 1)
  if b₀ < 0x80 then (b₀.toUInt32, 1)
  else if 0xc2 ≤ b₀ ∧ b₀ ≤ 0xdf then
    match rest with
    | b₁ :: _ => if isContinuation b₁ then ((b₀.toUInt32 &&& 0x1f) <<< 6 ||| (b₁.toUInt32 &&& 0x3f), 2) else invalid
    | _ => invalid
  else if 0xe0 ≤ b₀ ∧ b₀ ≤ 0xef then
    match rest with
    | b₁ :: b₂ :: _ =>
      if (secondByte b₀).1 ≤ b₁ ∧ b₁ ≤ (secondByte b₀).2 ∧ isContinuation b₂ then
        ((b₀.toUInt32 &&& 0xf) <<< 12 ||| (b₁.toUInt32 &&& 0x3f) <<< 6 ||| (b₂.toUInt32 &&& 0x3f), 3)
      else invalid
    | _ => invalid
  else if 0xf0 ≤ b₀ ∧ b₀ ≤ 0xf4 then
    match rest with
    | b₁ :: b₂ :: b₃ :: _ =>
      if (secondByte b₀).1 ≤ b₁ ∧ b₁ ≤ (secondByte b₀).2 ∧ isContinuation b₂ ∧ isContinuation b₃ then
        ((b₀.toUInt32 &&& 0x7) <<< 18 ||| (b₁.toUInt32 &&& 0x3f) <<< 12 ||| (b₂.toUInt32 &&& 0x3f) <<< 6 |||
          (b₃.toUInt32 &&& 0x3f), 4)
      else invalid
    | _ => invalid
  else invalid

/-- `[]rune(s)`; `skip` bytes belong to the rune before. -/
def runesFrom : Nat → GoString → List UInt32
  | _, [] => []
  | 0, b :: rest => (decodeRune b rest).1 :: runesFrom ((decodeRune b rest).2 - 1) rest
  | skip + 1, _ :: rest => runesFrom skip rest

def runes (s : GoString) : List UInt32 := runesFrom 0 s

/-! ### Modulo -/

def mycatPartitionModShard (shardNum : Nat) : Shard where
  findForKey key := do
    let h := abs (← numValue key)
    if shardNum = 0 then .error (.panic "integer divide by zero") else .ok (h.tmod shardNum)
  equalStart := none

/-! ### Segments -/

def partitionLength : Int := 1024

/-- The lengths of the segments: each length as often as its count says. -/
def segmentLengths (counts lengths : List Int) : List Int :=
  (counts.zip lengths).flatMap fun (count, length) => List.replicate count.toNat length

/-- The boundaries of the segments, starting at zero.  More segments than there are shards do not fit into the slice
that was made for their ends; places that are not reached stay zero. -/
def boundaries (shardNum : Nat) (counts lengths : List Int) : Except Fail (List Int) :=
  if shardNum < (segmentLengths counts lengths).length then .error (.panic "index out of range")
  else .ok ((segmentLengths counts lengths).scanl (fun a length => toInt64 (a + length)) 0 ++
    List.replicate (shardNum - (segmentLengths counts lengths).length) 0)

/-- The part of `MycatPartitionLongShard.Init` that `verifyMycatPatitionLongShard` has as well. -/
def partitionBoundaries (shardNum : Nat) (partitionCount partitionLengths : GoString) : Except Fail (List Int) := do
  let countList ← toIntArray partitionCount
  let lengthList ← toIntArray partitionLengths
  if countList.length ≠ lengthList.length then
    .error (.error "error, check your scope & scopeLength definition")
  else if toInt64 countList.sum ≠ shardNum then
    .error (.error "segmentLength is not equal to shardNum")
  else do
    let ai ← boundaries shardNum countList lengthList
    if ai.getLast? ≠ some partitionLength then .error (.error "error, check your partitionScope definition")
    else .ok ai

/-- `segment[j] = i` for `j` from `low` up to `high`. -/
def fillSegment (segment : List Int) (i : Int) (low high : Int) : Except Fail (List Int) :=
  if low < high ∧ (low < 0 ∨ segment.length < high) then .error (.panic "index out of range")
  else .ok (segment.mapIdx fun j v => if low ≤ j ∧ j < high then i else v)

/-- The segments between the boundaries, numbered from `i` on. -/
def fillSegments (segment : List Int) (i : Int) : List Int → Except Fail (List Int)
  | low :: high :: ai => do fillSegments (← fillSegment segment i low high) (i + 1) (high :: ai)
  | _ => .ok segment

/-- `MycatPartitionLongShard.Init`: which shard each remainder belongs to. -/
def initPartitionLong (shardNum : Nat) (partitionCount partitionLengths : GoString) : Except Fail (List Int) := do
  let ai ← partitionBoundaries shardNum partitionCount partitionLengths
  fillSegments (List.replicate partitionLength.toNat 0) 0 ai

/-- `segment[h & 1023]` -/
def segmentAt (segment : List Int) (h : Int) : Except Fail Int :=
  match segment[(h % partitionLength).toNat]? with
  | some i => .ok i
  | none => .error (.panic "index out of range")

def mycatPartitionLongShard (segment : List Int) : Shard where
  findForKey key := do segmentAt segment (← numValue key)
  equalStart := none

/-! ### Segments of a part of the text -/

def parseHashSliceValue (s : GoString) : Except Fail Int := if s = [] then .ok 0 else atoiErr s

/-- `"2"` is `(0, 2)`, `"1:2"` is `(1, 2)`, `"1:"` is `(1, 0)`, `":-1"` is `(0, -1)`, and so on. -/
def parseHashSliceStartEnd (hashSlice : GoString) : Except Fail (Int × Int) :=
  match (trimSpace hashSlice).splitOn 58 with
  | [s] => do
    let v ← atoiErr s
    .ok (if 0 ≤ v then (0, v) else (v, 0))
  | [s, t] => do
    let start ← wrapErr "parse hash slice start error: " (parseHashSliceValue s)
    let stop ← wrapErr "parse hash slice end error: " (parseHashSliceValue t)
    .ok (start, stop)
  | _ => .error (.error "invalid hash slice str")

def stringHash (s : GoString) (start stop : Int) : Int :=
  ((runes s).take stop.toNat |>.drop start.toNat).foldl (fun h r => toInt64 (h * 32 - h + r.toInt32.toInt)) 0

def mycatPartitionStringShard (segment : List Int) (hashSlice : Int × Int) : Shard where
  findForKey key := do
    let keyStr ← getString key
    let start := if 0 ≤ hashSlice.1 then hashSlice.1 else keyStr.length + hashSlice.1
    let stop := if 0 < hashSlice.2 then hashSlice.2 else keyStr.length + hashSlice.2
    segmentAt segment (stringHash keyStr start stop)
  equalStart := none

/-! ### Murmur hash -/

/-- The ordered maps of `gods/maps/treemap` with the keys and values that the buckets have. -/
structure TreeMap where
  Map : Type
  newWithIntComparator : Map
  put : Map → Int → Int → Map
  get : Map → Int → Option Int
  ceiling : Map → Int → Option (Int × Int)
  min : Map → Option (Int × Int)

namespace Murmur

def rotateLeft (i distance : Int32) : Int32 :=
  (i.toUInt32 <<< distance.toUInt32 ||| i.toUInt32 >>> (32 - distance.toUInt32)).toInt32

@[irreducible] def mixK1 (k1 : Int32) : Int32 :=
  ((rotateLeft (k1.toInt64 * 0xcc9e2d51).toInt32 15).toInt64 * 0x1b873593).toInt32

@[irreducible] def mixH1 (h1 k1 : Int32) : Int32 := ((rotateLeft (h1 ^^^ k1) 13).toInt64 * 5 + 0xe6546b64).toInt32

def fmix (h1 length : Int32) : Int32 :=
  let h := h1.toUInt32 ^^^ length.toUInt32
  let h := (h ^^^ (h >>> 16)) * 0x85ebca6b
  let h := (h ^^^ (h >>> 13)) * 0xc2b2ae35
  (h ^^^ (h >>> 16)).toInt32

/-- The runes in pairs; a last one alone is not mixed further. -/
def mix : Int32 → List UInt32 → Int32
  | h1, a :: b :: input => mix (mixH1 h1 (mixK1 (a ||| (b <<< 16)).toInt32)) input
  | h1, [a] => h1 ^^^ mixK1 a.toInt32
  | h1, [] => h1

def hashUnencodedChars (seed : Int) (s : GoString) : Int :=
  (fmix (mix (Int32.ofInt seed) (runes s)) (Int32.ofNat (2 * (runes s).length))).toInt

variable (T : TreeMap)

/-- The buckets of one shard; the text grows with every bucket. -/
def bucketsFrom (seed : Int) (i : Nat) : (times n : Nat) → GoString → T.Map → T.Map
  | 0, _, _, m => m
  | times + 1, n, buf, m =>
    let buf := buf ++ ascii ("-NODE-" ++ toString n)
    bucketsFrom seed i times (n + 1) buf (T.put m (hashUnencodedChars seed buf) i)

def generateBucketMap (seed virtualBucketTimes : Int) (count : Nat) : T.Map :=
  (List.range count).foldl
    (fun m i => bucketsFrom T seed i virtualBucketTimes.toNat 0 (ascii ("SHARD-" ++ toString i)) m)
      T.newWithIntComparator

end Murmur

def newMycatPartitionMurmurHash (seed virtualBucketTimes : GoString) : Except Fail (Int × Int) := do
  let seed ← atoiErr seed
  let virtualBucketTimes ← atoiErr (if virtualBucketTimes = [] then ascii "160" else virtualBucketTimes)
  .ok (seed, virtualBucketTimes)

def mycatPartitionMurmurHashShard (T : TreeMap) (seed virtualBucketTimes : Int) (count : Nat) : Shard where
  findForKey key := do
    let bucketMap := Murmur.generateBucketMap T seed virtualBucketTimes count
    let hashKey := Murmur.hashUnencodedChars seed (← getString key)
    match T.ceiling bucketMap hashKey with
    | some (_, ret) => .ok ret
    | none =>
      match T.min bucketMap with
      | some (_, v) => .ok v
      | none => .error (.error "bucket map is empty")
  equalStart := none

/-! ### Modulo of some digits -/

structure PaddingMod where
  padFrom : Int
  padLength : Int
  modBegin : Int
  modEnd : Int
  mod : Nat
  deriving DecidableEq, Repr

def getMycatPartitionPaddingModShard (padFrom padLength modBegin modEnd : GoString)
    (mod : Nat) : Except Fail PaddingMod := do
  let padFrom ← atoiErr padFrom
  let padLength ← atoiErr padLength
  let modBegin ← atoiErr modBegin
  let modEnd ← atoiErr modEnd
  .ok { padFrom, padLength, modBegin, modEnd, mod }

def PaddingMod.checkParam (m : PaddingMod) : Except Fail Unit :=
  if m.padFrom ≠ 0 ∧ m.padFrom ≠ 1 then .error (.error "invalid padding mod mode")
  else if m.mod < 2 then .error (.error "invalid padding mod number")
  else if m.modBegin < 0 ∨ m.modEnd ≤ m.modBegin then .error (.error "invalid padding modBegin or modEnd")
  else if m.padLength ≤ 0 then .error (.error "invalid padding mod padLength")
  else if m.padLength < toInt64 (m.modEnd - m.modBegin) then
    .error (.error "invalid padding mod, padLength is less than modBegin - modEnd")
  else .ok ()

def mycatPartitionPaddingModShard (m : PaddingMod) : Shard where
  findForKey key := do
    let h ← numValue key
    let keyStr := ascii (toString h)
    let padding := List.replicate (m.padLength - keyStr.length).toNat 48
    let paddingKey ← (
      if m.padLength < keyStr.length then .ok (keyStr.take m.padLength.toNat)
      else if m.padFrom = 0 then
        if h < 0 then .error (.error "padding left to a negative is not allowed") else .ok (padding ++ keyStr)
      else .ok (keyStr ++ padding))
    if m.modBegin < 0 ∨ m.modEnd < m.modBegin ∨ paddingKey.length < m.modEnd then
      .error (.panic "slice bounds out of range")
    else
      let bigNum := parseInt ((paddingKey.take m.modEnd.toNat).drop m.modBegin.toNat)
      if !bigNum.2 then .error (.error "strconv.ParseInt")
      else if m.mod = 0 then .error (.panic "integer divide by zero")
      else .ok ((abs bigNum.1).tmod m.mod)
  equalStart := none

end DbProxy
