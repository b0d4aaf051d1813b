import DbProxy.Router.Value

/-!
# Shards

A shard finds the sub-table of a key.  The Go interface `Shard` is the record of its functions here, and a type
that also implements `RangeShard` is one whose `equalStart` is present.  This file has the shards of the kingshard
rules: hash, mod, numeric ranges, and the three calendars; the global table's shard panics.
-/

namespace DbProxy

/-- `Shard`, and `RangeShard` when `equalStart` is present. -/
structure Shard where
  findForKey : GoVal → Except Fail Int
  equalStart : Option (GoVal → Int → Except Fail Bool)

def errKeyOutOfRange : Fail := .error "shard key not in key range"

/-! ### Hash and mod -/

def hashShard (shardNum : Nat) : Shard where
  findForKey key := do
    let h ← hashValue key
    if shardNum = 0 then .error (.panic "integer divide by zero") else .ok (h % shardNum)
  equalStart := none

/-- Go's `%` truncates towards zero, so a negative `abs` gives a negative index. -/
def modShard (shardNum : Nat) : Shard where
  findForKey key := do
    let h := abs (← numValue key)
    if shardNum = 0 then .error (.panic "integer divide by zero") else .ok (h.tmod shardNum)
  equalStart := none

/-! ### Numeric ranges -/

def maxNumKey : Int := 2 ^ 63 - 1

/-- The keys from `start` up to, and without, `stop`; the greatest 64-bit integer as `stop` means no upper end. -/
structure NumKeyRange where
  start : Int
  stop : Int
  deriving DecidableEq, Repr

def NumKeyRange.contains (kr : NumKeyRange) (i : Int) : Bool :=
  kr.start ≤ i && (kr.stop = maxNumKey || i < kr.stop)

def numRangeFindForKey (shards : List NumKeyRange) (key : GoVal) : Except Fail Int := do
  let v ← numValue key
  match shards.findIdx? (·.contains v) with
  | some i => .ok i
  | none => .error errKeyOutOfRange

def numRangeEqualStart (shards : List NumKeyRange) (key : GoVal) (index : Int) : Except Fail Bool := do
  let v ← numValue key
  match (if index < 0 then none else shards[index.toNat]?) with
  | some r => .ok (r.start == v)
  | none => .error (.panic "index out of range")

def numRangeShard (shards : List NumKeyRange) : Shard where
  findForKey := numRangeFindForKey shards
  equalStart := some (numRangeEqualStart shards)

/-! ### Calendars -/

structure CivilDate where
  year : Int
  month : Nat
  day : Nat
  deriving DecidableEq, Repr

/-- Years, months and days in one number, ordered as the dates are. -/
def CivilDate.num (d : CivilDate) : Int := d.year * 10000 + d.month * 100 + d.day

/-- The local time zone of the process: the calendar date that `time.Unix` gives each Unix time.  Where clocks are set
back at midnight a later time has an earlier date. -/
structure Zone where
  date : Int → CivilDate
  valid : ∀ t, 1 ≤ (date t).month ∧ (date t).month ≤ 12 ∧ 1 ≤ (date t).day ∧ (date t).day ≤ 31

/-- The last `w` decimal digits of a number. -/
def padDigits : Nat → Nat → GoString
  | 0, _ => []
  | w + 1, n => padDigits w (n / 10) ++ [UInt8.ofNat (48 + n % 10)]

/-- Decimal digits, padded with zeros to width `w`, as `time.Format` writes the parts of a date. -/
def appendInt (w : Nat) (n : Int) : GoString :=
  (if n < 0 then [45] else []) ++
    (if n.natAbs < 10 ^ w then padDigits w n.natAbs else ascii (toString n.natAbs))

/-- `tm.Format("2006-01-02")`. -/
def formatDate (d : CivilDate) : GoString :=
  appendInt 4 d.year ++ [45] ++ appendInt 2 d.month ++ [45] ++ appendInt 2 d.day

def textOf (s : GoString) : String := String.ofList (s.map (fun b => Char.ofNat b.toNat))

/-- What `%v` prints of a key. -/
def GoVal.text : GoVal → String
  | .nil => "<nil>"
  | .int n => toString n
  | .int64 n => toString n
  | .uint64 n => toString n
  | .float32 s => textOf s
  | .float64 s => textOf s
  | .string s => textOf s
  | .bytes s => textOf s

def newInvalidDateFormatKeyError (key : GoVal) : Fail := .error ("invalid date format " ++ key.text)

/-- The Unix time of an integer key. -/
def unixTime : GoVal → Option Int
  | .int n => some n
  | .uint64 n => some (toInt64 n)
  | .int64 n => some n
  | _ => none

def getNumYear (z : Zone) (key : GoVal) : Except Fail Int :=
  match unixTime key with
  | some t => .ok (z.date t).year
  | none =>
    match key with
    | .string val =>
      if val.length < 4 then .error (.panic "slice bounds out of range")
      else match atoi (val.take 4) with
        | some v => .ok v
        | none => .error (newInvalidDateFormatKeyError key)
    | _ => .error (.error ("Unexpected key variable type " ++ key.typeName))

/-- `getNumYearMonth` and `getNumYearMonthDay`: a Unix time is written as a date first, then both kinds of key
are cut into the parts that `cut` takes. -/
def getNumOfText (z : Zone) (cut : GoString → GoString) (key : GoVal) : Except Fail Int :=
  match unixTime key with
  | some t =>
    match atoi (cut (formatDate (z.date t))) with
    | some v => .ok v
    | none => .error (newInvalidDateFormatKeyError key)
  | none =>
    match key with
    | .string val =>
      if val.length < 10 then .error (newInvalidDateFormatKeyError key)
      else match atoi (cut val) with
        | some v => .ok v
        | none => .error (newInvalidDateFormatKeyError key)
    | _ => .error (.error ("Unexpected key variable type " ++ key.typeName))

/-- `s[:4] + s[5:7]`. -/
def cutYearMonth (s : GoString) : GoString := s.take 4 ++ (s.drop 5).take 2

/-- `s[:4] + s[5:7] + s[8:10]`. -/
def cutYearMonthDay (s : GoString) : GoString := s.take 4 ++ (s.drop 5).take 2 ++ (s.drop 8).take 2

def getNumYearMonth (z : Zone) (key : GoVal) : Except Fail Int := getNumOfText z cutYearMonth key

def getNumYearMonthDay (z : Zone) (key : GoVal) : Except Fail Int := getNumOfText z cutYearMonthDay key

/-- The three `EqualStart`s of the calendars: the period number of the key is the index. -/
def dateEqualStart (getNum : GoVal → Except Fail Int) (key : GoVal) (index : Int) : Except Fail Bool :=
  match getNum key with
  | .ok num => .ok (num == index)
  | .error (.error _) => .ok false
  | .error (.panic msg) => .error (.panic msg)

def dateShard (getNum : GoVal → Except Fail Int) : Shard where
  findForKey := getNum
  equalStart := some (dateEqualStart getNum)

def dateYearShard (z : Zone) : Shard := dateShard (getNumYear z)

def dateMonthShard (z : Zone) : Shard := dateShard (getNumYearMonth z)

def dateDayShard (z : Zone) : Shard := dateShard (getNumYearMonthDay z)

/-! ### Tables on all slices -/

def globalTableShard : Shard where
  findForKey _ := .error (.panic "global table cannot find key")
  equalStart := none

end DbProxy
