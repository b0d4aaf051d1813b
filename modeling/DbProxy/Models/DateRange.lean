import DbProxy.Router.Mycat

/-!
# Ranges of dates

The periods a range of dates stands for, as numbers: `20151201-20151205` are five days, `201510-201512` three months,
`2013-2015` three years.  `models/numkey.go` and `proxy/router/numkey.go` have one copy of each function; the first
checks texts with `time.Parse` where the second takes them as they are, so that `check` is a parameter here.
-/

namespace DbProxy

def errDateRangeIllegal : Fail := .error "date range format illegal"
def errDateRangeCount : Fail := .error "date range count is not equal"
def errDateRangeOverlap : Fail := .error "date range is overlapped"

/-! ### The calendar -/

def isLeap (year : Int) : Bool := year % 4 = 0 && (year % 100 ≠ 0 || year % 400 = 0)

def daysIn (year : Int) (month : Nat) : Nat :=
  if month = 2 then (if isLeap year then 29 else 28) else if month ∈ [4, 6, 9, 11] then 30 else 31

namespace CivilDate

def nextDay (d : CivilDate) : CivilDate :=
  if d.day < daysIn d.year d.month then { d with day := d.day + 1 }
  else if d.month < 12 then { d with month := d.month + 1, day := 1 }
  else { year := d.year + 1, month := 1, day := 1 }

/-- `begin.Add(time.Hour * time.Duration(24*i))` -/
def addDays (d : CivilDate) (n : Nat) : CivilDate := Nat.repeat nextDay n d

/-- The days since the first day of the year zero. -/
def dayCount (d : CivilDate) : Int :=
  365 * d.year + (d.year + 3) / 4 - (d.year + 99) / 100 + (d.year + 399) / 400 +
    ((List.range (d.month - 1)).map fun m => daysIn d.year (m + 1)).sum + d.day - 1

end CivilDate

/-- `time.Parse("20060102", s)` -/
def timeParseDay (s : GoString) : Option CivilDate :=
  let d : CivilDate := ⟨natOfDigits (s.take 4), natOfDigits ((s.drop 4).take 2), natOfDigits (s.drop 6)⟩
  if s.length = 8 ∧ s.all isDigit ∧ 1 ≤ d.month ∧ d.month ≤ 12 ∧ 1 ≤ d.day ∧ d.day ≤ daysIn d.year d.month then
    some d else none

/-- Whether `time.Parse("200601", s)` succeeds. -/
def isMonthText (s : GoString) : Bool :=
  s.length = 6 && s.all isDigit && 1 ≤ natOfDigits (s.drop 4) && natOfDigits (s.drop 4) ≤ 12

/-- Whether `time.Parse("2006", s)` succeeds. -/
def isYearText (s : GoString) : Bool := s.length = 4 && s.all isDigit

/-! ### Ranges -/

/-- `strings.SplitN(s, "-", 2)` -/
def splitDash (s : GoString) : GoString × Option GoString := (s.takeWhile (· ≠ 45), (s.dropWhile (· ≠ 45)).tail?)

/-- The earlier text first. -/
def inOrder (a b : GoString) : GoString × GoString := if b < a then (b, a) else (a, b)

/-- A range of one period. -/
def parsePeriod (check : GoString → Bool) (dateLength : Nat) (s : GoString) : Except Fail (List Int) :=
  if s.length ≠ dateLength ∨ check s = false then .error errDateRangeIllegal
  else do
    let dateNum ← atoiErr s
    .ok [dateNum]

/-- `end.Sub(begin)` in days: a `time.Duration` ends after 106751 of them. -/
def daysBetween (first last : CivilDate) : Int := min 106751 (last.dayCount - first.dayCount)

def dayNumbers (first last : CivilDate) : List Int :=
  (List.range (daysBetween first last + 1).toNat).map fun i => (first.addDays i).num

def parseDayRangeWith (check : GoString → Bool) (dateRange : GoString) : Except Fail (List Int) :=
  match splitDash dateRange with
  | (s, none) => parsePeriod check 8 s
  | (s, some t) =>
    if s.length ≠ 8 ∨ t.length ≠ 8 then .error errDateRangeIllegal
    else match timeParseDay (inOrder s t).1, timeParseDay (inOrder s t).2 with
      | some first, some last => .ok (dayNumbers first last)
      | _, _ => .error (.error "parsing time")

/-- The loop over `n` months from a month on. -/
def monthNumbers : Nat → Int → Int → List Int
  | 0, _, _ => []
  | n + 1, year, month =>
    if 12 < month then ((year + 1) * 100 + month.tmod 12) :: monthNumbers n (year + 1) (month.tmod 12 + 1)
    else (year * 100 + month) :: monthNumbers n year (month + 1)

def parseMonthRangeWith (check : GoString → Bool) (dateRange : GoString) : Except Fail (List Int) :=
  match splitDash dateRange with
  | (s, none) => parsePeriod check 6 s
  | (s, some t) =>
    if s.length ≠ 6 ∨ t.length ≠ 6 then .error errDateRangeIllegal
    else
      let (s, t) := inOrder s t
      if check s = false then .error errDateRangeIllegal
      else do
        let beginYear ← atoiErr (s.take 4)
        let beginMonth ← atoiErr (s.drop 4)
        if check t = false then .error errDateRangeIllegal
        else do
          let endYear ← atoiErr (t.take 4)
          let endMonth ← atoiErr (t.drop 4)
          .ok (monthNumbers ((endYear - beginYear) * 12 + endMonth - beginMonth + 1).toNat beginYear beginMonth)

def yearNumbers (beginYear endYear : Int) : List Int :=
  (List.range (endYear - beginYear + 1).toNat).map fun i : Nat => beginYear + i

def parseYearRangeWith (check : GoString → Bool) (dateRange : GoString) : Except Fail (List Int) :=
  match splitDash dateRange with
  | (s, none) => parsePeriod check 4 s
  | (s, some t) =>
    let (s, t) := inOrder s t
    if check s = false then .error errDateRangeIllegal
    else do
      let beginYear ← atoiErr s
      if check t = false then .error errDateRangeIllegal
      else do
        let endYear ← atoiErr t
        .ok (yearNumbers beginYear endYear)

namespace Models

def parseDayRange : GoString → Except Fail (List Int) := parseDayRangeWith fun s => (timeParseDay s).isSome
def parseMonthRange : GoString → Except Fail (List Int) := parseMonthRangeWith isMonthText
def parseYearRange : GoString → Except Fail (List Int) := parseYearRangeWith isYearText

end Models

namespace RouterPackage

def parseDayRange : GoString → Except Fail (List Int) := parseDayRangeWith fun _ => true
def parseMonthRange : GoString → Except Fail (List Int) := parseMonthRangeWith fun _ => true
def parseYearRange : GoString → Except Fail (List Int) := parseYearRangeWith fun _ => true

end RouterPackage

/-! ### The tables of the ranges -/

/-- The tables of the ranges, each with its slice; `i` is that of the first range, `tables` are those in front. -/
def tablesOfRanges (parse : GoString → Except Fail (List Int)) : Nat → List (Int × Int) → List GoString →
    Except Fail (List (Int × Int))
  | _, tables, [] => .ok tables
  | i, tables, dateRange :: ranges => do
    let numbers ← parse dateRange
    match tables.getLast?, numbers with
    | none, _ => tablesOfRanges parse (i + 1) (tables ++ numbers.map (·, (i : Int))) ranges
    | some _, [] => .error (.panic "index out of range")
    | some last, number :: _ =>
      if number ≤ last.1 then .error errDateRangeOverlap
      else tablesOfRanges parse (i + 1) (tables ++ numbers.map (·, (i : Int))) ranges

/-- `parseDateDayRuleSliceInfos`, `parseDateMonthRuleSliceInfos` and `parseDateYearRuleSliceInfos`. -/
def parseDateRuleSliceInfos (parse : GoString → Except Fail (List Int)) (dateRange : List GoString)
    (slices : List String) : Except Fail (List (Int × Int)) :=
  if dateRange.length ≠ slices.length then .error errDateRangeCount else tablesOfRanges parse 0 [] dateRange

end DbProxy
