import DbProxy.Lib.Fallible
import Mathlib.Algebra.Ring.Int.Defs
import Mathlib.Algebra.Ring.Nat
import Mathlib.Data.List.Basic

/-!
# Key values and their numbers

The values a sharding key can arrive with, and the two functions that turn a key into a number: `hashValue` for
hash rules and `numValue` for mod and range rules.  Go's machine integers are integers here, with the conversions
`toInt64` and `toUint64` where the source converts; a Go string is the list of its bytes.
-/

namespace DbProxy

/-- How a Go function fails: with an `error` value, or by panicking.  `handleQuery` recovers a panic of the planner
and answers the client with an error, so neither kind produces a plan. -/
inductive Fail where
  | error (msg : String)
  | panic (msg : String)
  deriving DecidableEq, Repr

/-- `fmt.Errorf("…: %v", err)`: an error gets a longer text, a panic passes through. -/
def Fail.wrap (text : String) : Fail → Fail
  | .error msg => .error (text ++ msg)
  | .panic msg => .panic msg

/-- `defer func() { if e := recover() … }`: a panic becomes an error. -/
def Fail.recover (text : String) : Fail → Fail
  | .error msg => .error msg
  | .panic msg => .error (text ++ msg)

def wrapErr {α : Type} (text : String) (r : Except Fail α) : Except Fail α := r.mapError (Fail.wrap text)

def recoverErr {α : Type} (text : String) (r : Except Fail α) : Except Fail α := r.mapError (Fail.recover text)

@[simp] theorem wrapErr_eq_ok {α : Type} {text : String} {r : Except Fail α} {a : α} :
    wrapErr text r = .ok a ↔ r = .ok a := Fallible.mapError_eq_ok

@[simp] theorem recoverErr_eq_ok {α : Type} {text : String} {r : Except Fail α} {a : α} :
    recoverErr text r = .ok a ↔ r = .ok a := Fallible.mapError_eq_ok

abbrev GoString := List UInt8

instance : LawfulBEq GoString := List.instLawfulBEq

/-- The bytes of an ASCII text. -/
def ascii (s : String) : GoString := s.toList.map (fun c => UInt8.ofNat c.toNat)

/-- The dynamic types of `interface{}` values that reach the router as keys.  Floats keep their text only: no
router function computes with one. -/
inductive GoVal where
  | nil
  | int (n : Int)
  | int64 (n : Int)
  | uint64 (n : Int)
  | float32 (text : GoString)
  | float64 (text : GoString)
  | string (s : GoString)
  | bytes (s : GoString)
  deriving DecidableEq, Repr

/-- What `%T` prints. -/
def GoVal.typeName : GoVal → String
  | .nil => "<nil>"
  | .int _ => "int"
  | .int64 _ => "int64"
  | .uint64 _ => "uint64"
  | .float32 _ => "float32"
  | .float64 _ => "float64"
  | .string _ => "string"
  | .bytes _ => "[]uint8"

/-! ### Machine integers -/

/-- `uint64(n)` of a 64-bit integer. -/
def toUint64 (n : Int) : Int := n % 2 ^ 64

/-- `int64(n)` of a 64-bit integer. -/
def toInt64 (n : Int) : Int := if n % 2 ^ 64 < 2 ^ 63 then n % 2 ^ 64 else n % 2 ^ 64 - 2 ^ 64

theorem toInt64_of_range {n : Int} (h₁ : -2 ^ 63 ≤ n) (h₂ : n < 2 ^ 63) : toInt64 n = n := by
  unfold toInt64
  split <;> omega

theorem toInt64_range (n : Int) : -2 ^ 63 ≤ toInt64 n ∧ toInt64 n < 2 ^ 63 := by
  unfold toInt64
  split <;> omega

/-- `hack.Abs`, by `y := n >> 63; (n ^ y) - y`.  The least 64-bit integer is its own absolute value. -/
def abs (n : Int) : Int := if n < 0 then toInt64 (-n) else n

/-! ### Reading numbers -/

def isDigit (b : UInt8) : Bool := 48 ≤ b && b ≤ 57

def natOfDigits (s : GoString) : Nat := s.foldl (fun n b => 10 * n + (b.toNat - 48)) 0

/-- `strconv.ParseUint(s, 10, 64)`; on overflow the value is the greatest one and the flag is false. -/
def parseUint (s : GoString) : Int × Bool :=
  if s.isEmpty || !s.all isDigit then (0, false)
  else if natOfDigits s < 2 ^ 64 then (natOfDigits s, true)
  else (2 ^ 64 - 1, false)

/-- `strconv.ParseInt(s, 10, 64)`: an optional sign, then digits. -/
def parseInt (s : GoString) : Int × Bool :=
  let body := if s.head? = some 43 || s.head? = some 45 then s.tail else s
  if body.isEmpty || !body.all isDigit then (0, false)
  else if s.head? = some 45 then
    if natOfDigits body ≤ 2 ^ 63 then (-natOfDigits body, true) else (-2 ^ 63, false)
  else if natOfDigits body < 2 ^ 63 then (natOfDigits body, true)
  else (2 ^ 63 - 1, false)

/-- `strconv.Atoi`, without the value it returns beside an error. -/
def atoi (s : GoString) : Option Int := if (parseInt s).2 then some (parseInt s).1 else none

/-! ### The two key numbers -/

/-- One bit of `crc32.ChecksumIEEE`, with the reflected polynomial. -/
def crc32Bit (crc : Nat) : Nat := if crc % 2 = 1 then (crc / 2) ^^^ 0xEDB88320 else crc / 2

def crc32Byte (crc : Nat) (b : UInt8) : Nat := Nat.repeat crc32Bit 8 (crc ^^^ b.toNat)

def crc32 (s : GoString) : Nat := (s.foldl crc32Byte 0xFFFFFFFF) ^^^ 0xFFFFFFFF

/-- `HashValue`: integers count as they are, strings of digits by their number, other strings by checksum. -/
def hashValue : GoVal → Except Fail Int
  | .int n => .ok (toUint64 n)
  | .uint64 n => .ok (toUint64 n)
  | .int64 n => .ok (toUint64 n)
  | .string s => .ok (if (parseUint s).2 then (parseUint s).1 else crc32 s)
  | .bytes s => .ok (crc32 s)
  | v => .error (.panic ("Unexpected key variable type " ++ v.typeName))

/-- `NumValue`. -/
def numValue : GoVal → Except Fail Int
  | .int n => .ok n
  | .uint64 n => .ok (toInt64 n)
  | .int64 n => .ok n
  | .string s =>
    if (parseInt s).2 then .ok (parseInt s).1
    else .error (.panic ("invalid num format " ++ toString (parseInt s).1))
  | .bytes s =>
    if (parseInt s).2 then .ok (parseInt s).1
    else .error (.panic ("invalid num format " ++ toString (parseInt s).1))
  | v => .error (.panic ("Unexpected key variable type " ++ v.typeName))

/-- The Go value of an integer key: `int64` when it fits, else `uint64`. -/
def keyVal (k : Int) : GoVal := if k < 2 ^ 63 then .int64 k else .uint64 k

theorem hashValue_keyVal (k : Int) : hashValue (keyVal k) = .ok (toUint64 k) := by
  unfold keyVal
  split <;> rfl

theorem numValue_keyVal {k : Int} (h : -2 ^ 63 ≤ k) : numValue (keyVal k) = .ok (toInt64 k) := by
  unfold keyVal
  split
  · next hk => simp only [numValue]; rw [toInt64_of_range h hk]
  · rfl

end DbProxy
