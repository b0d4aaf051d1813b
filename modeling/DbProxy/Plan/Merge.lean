import DbProxy.Lib.Binary64
import DbProxy.Plan.Select

/-!
# Merging the results of the shards

`MergeSelectResult` puts the rows that the shards returned together: it drops duplicates, merges groups, sorts,
applies the limit, takes out the columns that planning had appended, and encodes the rows.

Two things are left open by Go and are parameters here: which of several sorted orders `sort.Sort` leaves, and the
order in which a `range` visits a map.
-/

namespace DbProxy

open List

/-- A value of a result row.  A double is the number it stands for. -/
inductive Cell where
  | null
  | int64 (n : Int)
  | uint64 (n : Int)
  | float64 (x : ℚ)
  | string (s : GoString)
  | bytes (s : GoString)
  deriving DecidableEq, Repr

/-- What `%T` prints. -/
def Cell.typeName : Cell → String
  | .null => "<nil>"
  | .int64 _ => "int64"
  | .uint64 _ => "uint64"
  | .float64 _ => "float64"
  | .string _ => "string"
  | .bytes _ => "[]uint8"

abbrev ResultRow := List Cell

/-- `fields` are the names of the columns. -/
structure Result where
  status : UInt16 := 0
  fields : List String
  values : List ResultRow
  rowDatas : List GoString := []
  deriving DecidableEq, Repr

/-- What the runtime leaves open, or has no model here: the order of rows that compare equal, the order of a map, and
the text of a double. -/
structure Runtime where
  sort : (ResultRow → ResultRow → Except Fail Bool) → List ResultRow → Except Fail (List ResultRow)
  sort_perm : ∀ {less l s}, sort less l = .ok s → s.Perm l
  sort_sorted : ∀ {less l} {le : ResultRow → ResultRow → Prop}, (∀ a b, le a b ∨ le b a) →
    (∀ a b c, le a b → le b c → le a c) → (∀ a ∈ l, ∀ b ∈ l, ∃ r : Bool, less a b = .ok r ∧ (r = true ↔ ¬ le b a)) →
    ∃ s, sort less l = .ok s ∧ s.Pairwise le
  range : List ResultRow → List ResultRow
  range_perm : ∀ l, (range l).Perm l
  formatFloat : ℚ → GoString

section Reference

variable (less : ResultRow → ResultRow → Except Fail Bool)

/-- `b` does not come before `a`. -/
def notAfter (a b : ResultRow) : Bool := match less b a with
  | .ok r => !r
  | .error _ => true

/-- Insertion sort by a comparison that may panic. -/
def referenceSort (l : List ResultRow) : Except Fail (List ResultRow) :=
  if l.all fun a => l.all fun b => (less a b).isOk then
    .ok ((l.attach.insertionSort fun a b => notAfter less a.1 b.1).map Subtype.val)
  else .error (.panic "interface conversion")

variable {less} {l s : List ResultRow}

theorem referenceSort_perm (h : referenceSort less l = .ok s) : s.Perm l := by
  unfold referenceSort at h
  split at h
  · cases h
    have hperm := (perm_insertionSort (fun a b : {x // x ∈ l} => notAfter less a.1 b.1) l.attach).map Subtype.val
    rwa [attach_map_subtype_val] at hperm
  · cases h

section Ordered

variable {le : ResultRow → ResultRow → Prop}
  (hless : ∀ a ∈ l, ∀ b ∈ l, ∃ r : Bool, less a b = .ok r ∧ (r = true ↔ ¬ le b a))
include hless

theorem notAfter_iff (a b : {x // x ∈ l}) : notAfter less a.1 b.1 = true ↔ le a.1 b.1 := by
  obtain ⟨r, hr, hiff⟩ := hless b.1 b.2 a.1 a.2
  unfold notAfter
  rw [hr]
  cases r with
  | true => simpa using hiff
  | false => simpa using hiff

theorem referenceSort_eq :
    referenceSort less l = .ok ((l.attach.insertionSort fun a b => notAfter less a.1 b.1).map Subtype.val) := by
  refine if_pos ?_
  simp only [all_eq_true]
  intro a ha b hb
  obtain ⟨r, hr, _⟩ := hless a ha b hb
  rw [hr]
  rfl

theorem referenceSort_sorted (htotal : ∀ a b, le a b ∨ le b a) (htrans : ∀ a b c, le a b → le b c → le a c) :
    ∃ s, referenceSort less l = .ok s ∧ s.Pairwise le := by
  have hle := notAfter_iff hless
  refine ⟨_, referenceSort_eq hless, ?_⟩
  rw [pairwise_map]
  have : Std.Total fun a b : {x // x ∈ l} => notAfter less a.1 b.1 = true :=
    ⟨fun a b => (htotal a.1 b.1).imp (hle a b).2 (hle b a).2⟩
  have : IsTrans {x // x ∈ l} fun a b => notAfter less a.1 b.1 = true :=
    ⟨fun a b c hab hbc => (hle a c).2 (htrans _ _ _ ((hle a b).1 hab) ((hle b c).1 hbc))⟩
  refine (pairwise_insertionSort (fun a b : {x // x ∈ l} => notAfter less a.1 b.1 = true) l.attach).imp ?_
  exact fun {a b} hab => (hle a b).1 hab

theorem referenceSort_of_pairwise (hs : l.Pairwise le) : referenceSort less l = .ok l := by
  have hsorted : l.attach.Pairwise fun a b => notAfter less a.1 b.1 = true := by
    rw [← attach_map_subtype_val l] at hs
    exact (pairwise_map.1 hs).imp fun {a b} hab => (notAfter_iff hless a b).2 hab
  rw [referenceSort_eq hless, hsorted.insertionSort_eq, attach_map_subtype_val]

end Ordered

end Reference

/-- A runtime that sorts by insertion and visits maps in the order of their entries. -/
def Runtime.reference : Runtime where
  sort := referenceSort
  sort_perm := referenceSort_perm
  sort_sorted htotal htrans hless := referenceSort_sorted hless htotal htrans
  range l := l
  range_perm _ := .refl _
  formatFloat x := ascii (toString x)

/-! ### Reading numbers -/

/-- The integer part. -/
def truncate (x : ℚ) : Int := if 0 ≤ x then ⌊x⌋ else ⌈x⌉

/-- The digits of a decimal number before and behind the point, as a number and a count. -/
def decimalDigits (s : GoString) : Option (Nat × Nat) :=
  let whole := s.takeWhile isDigit
  let frac := match s.drop whole.length with
    | 46 :: rest => some rest
    | [] => some []
    | _ => none
  match frac with
  | some frac =>
    if frac.all isDigit && !(whole ++ frac).isEmpty then some (natOfDigits (whole ++ frac), frac.length) else none
  | none => none

/-- `strconv.ParseFloat(s, 64)` of a decimal number: a sign, digits with a point, and an exponent. -/
def parseFloat (s : GoString) : Option ℚ :=
  let negative := s.head? = some 45
  let body := if s.head? = some 43 || s.head? = some 45 then s.tail else s
  let mantissa := body.takeWhile fun b => b ≠ 101 && b ≠ 69
  let exponent : Option Int := match body.drop mantissa.length with
    | [] => some 0
    | _ :: e => atoi e
  match decimalDigits mantissa, exponent with
  | some (digits, places), some e =>
    let x : ℚ := digits * (10 : ℚ) ^ (e - places)
    some (Binary64.round (if negative then -x else x))
  | _, _ => none

def Cell.getInt : Cell → Except Fail Int
  | .uint64 v => .ok (toInt64 v)
  | .int64 v => .ok v
  | .float64 v => .ok (toInt64 (truncate v))
  | .string s | .bytes s => if (parseInt s).2 then .ok (parseInt s).1 else .error (.error "strconv.ParseInt")
  | .null => .ok 0

def Cell.getUint : Cell → Except Fail Int
  | .uint64 v => .ok v
  | .int64 v => .ok (toUint64 v)
  | .float64 v => .ok (toUint64 (truncate v))
  | .string s | .bytes s => if (parseUint s).2 then .ok (parseUint s).1 else .error (.error "strconv.ParseUint")
  | .null => .ok 0

def Cell.getFloat : Cell → Except Fail ℚ
  | .float64 v => .ok v
  | .uint64 v | .int64 v => .ok (Binary64.round v)
  | .string s | .bytes s => match parseFloat s with
    | some x => .ok x
    | none => .error (.error "strconv.ParseFloat")
  | .null => .ok 0

/-! ### Aggregate functions -/

/-- `bytes.Compare`, and the order of Go strings. -/
def compareBytes : GoString → GoString → Int
  | [], [] => 0
  | [], _ :: _ => -1
  | _ :: _, [] => 1
  | a :: s, b :: t => if a < b then -1 else if b < a then 1 else compareBytes s t

/-- The numbers of a column are added up in the type that `get` reads. -/
def sumWith {N : Type} (get : Cell → Except Fail N) (add : N → N → Cell) (v acc : Cell) : Except Fail Cell := do
  let valueToMerge ← wrapErr "get from int value error: " (get v)
  let originValue ← wrapErr "get to int value error: " (get acc)
  .ok (add originValue valueToMerge)

def mergeCount : Cell → Cell → Except Fail Cell := sumWith Cell.getInt fun a b => .int64 (toInt64 (a + b))

def mergeSum (v acc : Cell) : Except Fail Cell :=
  if v = .null then .ok acc
  else match acc with
    | .int64 _ => sumWith Cell.getInt (fun a b => .int64 (toInt64 (a + b))) v acc
    | .uint64 _ => sumWith Cell.getUint (fun a b => .uint64 (toUint64 (a + b))) v acc
    | .float64 _ | .string _ | .bytes _ | .null =>
      sumWith Cell.getFloat (fun a b => .float64 (Binary64.round (a + b))) v acc

/-- `MergeTo` of `MAX` and `MIN`; `wins` says for the order of two values whether the new one replaces the old one.  A
value of another type than the first one panics. -/
def mergeExtremum (wins : Ordering → Bool) (v acc : Cell) : Except Fail Cell :=
  if v = .null then .ok acc
  else match acc, v with
    | .null, v => .ok v
    | .int64 t, .int64 f => .ok (if wins (compare f t) then v else acc)
    | .uint64 t, .uint64 f => .ok (if wins (compare f t) then v else acc)
    | .float64 t, .float64 f => .ok (if wins (compare f t) then v else acc)
    | .string t, .string f => .ok (if wins (compare (compareBytes f t) 0) then v else acc)
    | .bytes _, v => .error (.error ("cannot compare value (" ++ v.typeName ++ ") to ([]uint8)"))
    | acc, v => .error (.panic ("interface conversion: " ++ v.typeName ++ ", not " ++ acc.typeName))

/-- A new value replaces a smaller one. -/
def mergeMax : Cell → Cell → Except Fail Cell := mergeExtremum fun o => o = .gt

/-- A new value replaces a greater one. -/
def mergeMin : Cell → Cell → Except Fail Cell := mergeExtremum fun o => o = .lt

def AggregateFunc.merge : AggregateFunc → Cell → Cell → Except Fail Cell
  | .count => mergeCount
  | .sum => mergeSum
  | .max => mergeMax
  | .min => mergeMin

/-- `MergeTo`: the value of column `idx` is merged into the row `acc`. -/
def mergeTo (idx : Nat) (f : AggregateFunc) (v acc : ResultRow) : Except Fail ResultRow :=
  match v[idx]?, acc[idx]? with
  | some a, some b => do
    let c ← f.merge a b
    .ok (acc.set idx c)
  | _, _ => .error (.error ("field index out of bound: " ++ toString idx))

/-- One row into another, column by column. -/
def mergeRow : List (Nat × AggregateFunc) → ResultRow → ResultRow → Except Fail ResultRow
  | [], _, acc => .ok acc
  | (idx, f) :: fs, v, acc => do
    let acc ← wrapErr "MergeTo error, err: " (mergeTo idx f v acc)
    mergeRow fs v acc

/-! ### Keys -/

def formatValue (go : Runtime) : Cell → GoString
  | .null => ascii "NULL"
  | .int64 n | .uint64 n => ascii (toString n)
  | .float64 x => go.formatFloat x
  | .bytes s | .string s => s

def generateMapKey (go : Runtime) (groupColumns : List Cell) : GoString :=
  groupColumns.flatMap fun v => formatValue go v ++ ascii "+"

/-- `row[i]`. -/
def ResultRow.cell (row : ResultRow) (i : Int) : Except Fail Cell :=
  match (if 0 ≤ i then row[i.toNat]? else none) with
  | some c => .ok c
  | none => .error (.panic "index out of range")

/-- `row[0:n]`. -/
def sliceTo {α : Type} (n : Int) (l : List α) : Except Fail (List α) :=
  if 0 ≤ n ∧ n ≤ l.length then .ok (l.take n.toNat) else .error (.panic "slice bounds out of range")

/-! ### The steps of the merge -/

def mergeMultiResultSet : List Result → Except Fail Result
  | [] => .error (.panic "index out of range")
  | r :: rs => .ok (rs.foldl
      (fun r r' => { r with status := r.status ||| r'.status, values := r.values ++ r'.values }) r)

/-- By how many columns the result is wider than the statement; a wildcard makes it wider. -/
def deltaColumnCount (p : SelectPlan) (r : Result) : Int := r.fields.length - p.columnCount

/-- The loop that looks for rows whose key was seen before. -/
def distinctRows (go : Runtime) (colCnt : Int) (seen : List GoString) : List ResultRow → Except Fail (List ResultRow)
  | [] => .ok []
  | row :: rows => do
    let key := generateMapKey go (← sliceTo colCnt row)
    if key ∈ seen then distinctRows go colCnt seen rows
    else
      let rows ← distinctRows go colCnt (key :: seen) rows
      .ok (row :: rows)

def removeDistinctRowInResult (go : Runtime) (p : SelectPlan) (r : Result) : Except Fail Result := do
  let values ← distinctRows go (p.originColumnCount + deltaColumnCount p r) [] r.values
  .ok { r with values }

/-- The loop over the rows: the first row of a group stands for it, the others are merged into it. -/
def groupRows (go : Runtime) (fs : List (Nat × AggregateFunc)) (columns : List Int)
    (m : AssocMap GoString ResultRow) : List ResultRow → Except Fail (AssocMap GoString ResultRow)
  | [] => .ok m
  | row :: rows => do
    let key := generateMapKey go (← columns.mapM row.cell)
    match m.get key with
    | none => groupRows go fs columns (m.set key row) rows
    | some acc =>
      let acc ← mergeRow fs row acc
      groupRows go fs columns (m.set key acc) rows

def buildSelectGroupByResult (go : Runtime) (p : SelectPlan) (r : Result) : Except Fail Result := do
  let columns := p.groupByColumn.map fun (index : Nat) => (index : Int) + deltaColumnCount p r
  let resultMap ← groupRows go p.aggregateFuncs columns [] r.values
  if resultMap.isEmpty then .ok r else .ok { r with values := go.range (resultMap.map Prod.snd) }

/-- The loop that merges all rows into the first one. -/
def mergeRows (fs : List (Nat × AggregateFunc)) (acc : ResultRow) : List ResultRow → Except Fail ResultRow
  | [] => .ok acc
  | row :: rows => do
    let acc ← mergeRow fs row acc
    mergeRows fs acc rows

/-- With no row at all, the result is a row without columns. -/
def buildSelectOnlyResult (p : SelectPlan) (r : Result) : Except Fail Result :=
  if p.aggregateFuncs.isEmpty then .ok r
  else match r.values with
    | [] => .ok { r with values := [[]] }
    | row :: rows => do
      let row ← mergeRows p.aggregateFuncs row rows
      .ok { r with values := [row] }

/-- `cmpValue`: NULL comes first, and values of different types panic. -/
def cmpValue : Cell → Cell → Except Fail Int
  | .null, .null => .ok 0
  | .null, _ => .ok (-1)
  | _, .null => .ok 1
  | .string v, .string s => .ok (compareBytes v s)
  | .bytes v, .bytes s => .ok (compareBytes v s)
  | .int64 v, .int64 s => .ok (if v < s then -1 else if v > s then 1 else 0)
  | .uint64 v, .uint64 s => .ok (if v < s then -1 else if v > s then 1 else 0)
  | .float64 v, .float64 s => .ok (if v < s then -1 else if v > s then 1 else 0)
  | v, s => .error (.panic ("interface conversion: " ++ s.typeName ++ ", not " ++ v.typeName))

structure SortKey where
  column : Int
  desc : Bool

/-- `ResultsetSorter.Less`. -/
def less : List SortKey → ResultRow → ResultRow → Except Fail Bool
  | [], _, _ => .ok false
  | k :: ks, v1, v2 => do
    let a ← v1.cell k.column
    let b ← v2.cell k.column
    let v ← cmpValue a b
    let v := if k.desc then -v else v
    if v < 0 then .ok true
    else if v > 0 then .ok false
    else less ks v1 v2

def sortKeys (p : SelectPlan) (r : Result) : List SortKey :=
  List.zipWith (fun (column : Nat) desc => ⟨column + deltaColumnCount p r, desc⟩) p.orderByColumn p.orderByDirections

def sortSelectResult (go : Runtime) (p : SelectPlan) (r : Result) : Except Fail Result :=
  if p.orderByDirections.isEmpty then .ok r
  else do
    let values ← go.sort (less (sortKeys p r)) r.values
    .ok { r with values }

/-- A count of -1 stands for no limit. -/
def limitSelectResult (p : SelectPlan) (r : Result) : Except Fail Result :=
  if p.count = -1 then .ok r
  else
    let rowLen : Int := r.values.length
    let last := min (toInt64 (p.offset + p.count)) rowLen
    if p.offset ≥ rowLen then .ok { r with values := [] }
    else if 0 ≤ p.offset ∧ p.offset ≤ last then
      .ok { r with values := (r.values.take last.toNat).drop p.offset.toNat }
    else .error (.panic "slice bounds out of range")

def trimExtraFields (p : SelectPlan) (r : Result) : Except Fail Result :=
  let start := deltaColumnCount p r + p.originColumnCount
  if start ≠ -1 then do
    let fields ← sliceTo start r.fields
    let values ← r.values.mapM (sliceTo start)
    .ok { r with fields, values }
  else .ok r

/-- `AppendLenEncInt`: the length as one byte, or a mark and two, three or eight bytes. -/
def lenEncInt (n : Nat) : GoString :=
  let le (k : Nat) : GoString := (range k).map fun i => UInt8.ofNat (n / 256 ^ i)
  if n ≤ 250 then le 1
  else if n ≤ 0xffff then 0xfc :: le 2
  else if n ≤ 0xffffff then 0xfd :: le 3
  else 0xfe :: le 8

def lenEncString (b : GoString) : GoString := lenEncInt b.length ++ b

def rowData (go : Runtime) (row : ResultRow) : GoString :=
  row.flatMap fun c => if c = .null then [0xfb] else lenEncString (formatValue go c)

def generateSelectResultRowData (go : Runtime) (r : Result) : Except Fail Result :=
  match r.values.zipIdx.find? (fun e => e.1.length ≠ r.fields.length) with
  | some (vs, i) => .error (.error ("row " ++ toString i ++ " has " ++ toString vs.length ++ " column not equal " ++
      toString r.fields.length))
  | none => .ok { r with rowDatas := r.values.map (rowData go) }

/-- `MergeSelectResult`. -/
def mergeSelectResult (go : Runtime) (p : SelectPlan) (rs : List Result) : Except Fail Result := do
  let r ← mergeMultiResultSet rs
  let r ← (if p.stmt.distinct then removeDistinctRowInResult go p r else .ok r)
  let r ← (if p.stmt.groupBy.isSome then buildSelectGroupByResult go p r else buildSelectOnlyResult p r)
  let r ← sortSelectResult go p r
  let r ← limitSelectResult p r
  let r ← wrapErr "trimExtraFields error: " (trimExtraFields p r)
  wrapErr "generate RowData error: " (generateSelectResultRowData go r)

end DbProxy
