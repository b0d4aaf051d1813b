import DbProxy.Spec.Between
import DbProxy.Spec.Numerals

/-!
# Calendar rules

Year, month and day rules locate dates.  A key column holds either dates and times, compared with literals in the
forms `YYYY-MM-DD` and `YYYY-MM-DD HH:MM:SS`, or Unix times, compared with integers.  In both cases a literal stands
for an instant, and the rule numbers the period that the instant lies in.

`EqualStart` is meant to tell whether a literal is the first instant of its period.  The calendars answer yes for
every instant of the period, so `<` and `NOT BETWEEN` leave out the period of their bound.  Where clocks are set back
over midnight, the periods of Unix times do not follow their order, and then other predicates lose keys too.
-/

namespace DbProxy

open List

variable {z : Zone} {column : DateColumn} {k n num : Int} {u : Period} {s text rest : GoString} {year month : Nat}

/-! ### Decimal digits -/

theorem natOfDigits_padDigits (w n : Nat) : natOfDigits (padDigits w n) = n % 10 ^ w := by
  induction w generalizing n with
  | zero => simp [padDigits, natOfDigits, Nat.mod_one]
  | succ w ih =>
    have hb : natOfDigits [UInt8.ofNat (48 + n % 10)] = n % 10 := by
      have : n % 10 < 10 := Nat.mod_lt n (by omega)
      simp only [natOfDigits, foldl_cons, foldl_nil, UInt8.toNat_ofNat']
      omega
    rw [padDigits, natOfDigits_append, ih, hb, length_singleton, pow_one, pow_succ, Nat.mul_comm (10 ^ w) 10,
      Nat.mod_mul]
    omega

theorem all_padDigits (w n : Nat) : (padDigits w n).all isDigit = true := by
  induction w generalizing n with
  | zero => rfl
  | succ w ih =>
    have : n % 10 < 10 := Nat.mod_lt n (by omega)
    rw [padDigits, all_append, ih, Bool.true_and]
    simp only [all_cons, all_nil, Bool.and_true, isDigit, Bool.and_eq_true, decide_eq_true_eq,
      UInt8.le_iff_toNat_le, UInt8.toNat_ofNat']
    simp
    omega

/-! ### Instants -/

def daysInMonth (year month : Nat) : Nat :=
  if month = 2 then if year % 4 = 0 ∧ (year % 100 ≠ 0 ∨ year % 400 = 0) then 29 else 28
  else if month = 4 ∨ month = 6 ∨ month = 9 ∨ month = 11 then 30 else 31

/-- The number of a date in the form `YYYY-MM-DD`, and the text behind it. -/
def readDate : GoString → Option (Int × GoString)
  | y₁ :: y₂ :: y₃ :: y₄ :: s₁ :: m₁ :: m₂ :: s₂ :: d₁ :: d₂ :: rest =>
    let year := natOfDigits [y₁, y₂, y₃, y₄]
    let month := natOfDigits [m₁, m₂]
    let day := natOfDigits [d₁, d₂]
    if [y₁, y₂, y₃, y₄].all isDigit ∧ s₁ = 45 ∧ [m₁, m₂].all isDigit ∧ s₂ = 45 ∧ [d₁, d₂].all isDigit ∧
        1 ≤ month ∧ month ≤ 12 ∧ 1 ≤ day ∧ day ≤ daysInMonth year month then
      some (CivilDate.num ⟨year, month, day⟩, rest)
    else none
  | _ => none

/-- The number of a time in the form ` HH:MM:SS`; without one it is midnight. -/
def readTime : GoString → Option Int
  | [] => some 0
  | [sp, h₁, h₂, c₁, m₁, m₂, c₂, s₁, s₂] =>
    let hour := natOfDigits [h₁, h₂]
    let minute := natOfDigits [m₁, m₂]
    let second := natOfDigits [s₁, s₂]
    if sp = 32 ∧ c₁ = 58 ∧ c₂ = 58 ∧ [h₁, h₂, m₁, m₂, s₁, s₂].all isDigit ∧ hour < 24 ∧ minute < 60 ∧ second < 60 then
      some (hour * 10000 + minute * 100 + second)
    else none
  | _ => none

inductive DateColumn where
  | datetime
  | unix
  deriving DecidableEq

/-- The instant of a literal: all its digits in one number, or the Unix time.  MySQL's years have four digits. -/
def DateColumn.instant (z : Zone) : DateColumn → Datum → Option Int
  | .datetime, .string s => do
    let (day, rest) ← readDate s
    let time ← readTime rest
    some (day * 10 ^ 6 + time)
  | .unix, v => do
    let t ← intLiteral v
    if t < 2 ^ 63 ∧ 0 ≤ (z.date t).year ∧ (z.date t).year ≤ 9999 then some t else none
  | _, _ => none

def DateColumn.day (z : Zone) : DateColumn → Int → Int
  | .datetime, n => n / 10 ^ 6
  | .unix, t => (z.date t).num

inductive Period where
  | year
  | month
  | day
  deriving DecidableEq

/-- What the number of a day is divided by to get the number of its period. -/
def Period.size : Period → Int
  | .year => 10000
  | .month => 100
  | .day => 1

def Period.shard (z : Zone) : Period → Shard
  | .year => dateYearShard z
  | .month => dateMonthShard z
  | .day => dateDayShard z

def Period.ruleType : Period → RuleType
  | .year => .dateYear
  | .month => .dateMonth
  | .day => .dateDay

def Period.of (u : Period) (z : Zone) (column : DateColumn) (n : Int) : Int := column.day z n / u.size

theorem readTime_range {t : Int} (h : readTime s = some t) : 0 ≤ t ∧ t < 10 ^ 6 := by
  unfold readTime at h
  split at h
  · cases h
    omega
  · simp only at h
    split at h
    · next hvalid =>
      cases h
      omega
    · cases h
  · cases h

/-! ### The period that a calendar finds -/

/-- The part of a text that a calendar reads. -/
def Period.cut : Period → GoString → GoString
  | .year => List.take 4
  | .month => cutYearMonth
  | .day => cutYearMonthDay

/-- A text that begins with a date in the form `YYYY-MM-DD`. -/
def DateText (text : GoString) (year month day : Nat) : Prop :=
  ∃ y m d rest : GoString, text = y ++ [45] ++ m ++ [45] ++ d ++ rest ∧ y.length = 4 ∧ m.length = 2 ∧
    d.length = 2 ∧ y.all isDigit = true ∧ m.all isDigit = true ∧ d.all isDigit = true ∧ natOfDigits y = year ∧
    natOfDigits m = month ∧ natOfDigits d = day

theorem DateText.atoi_cut {day : Nat} (h : DateText text year month day) (u : Period) :
    atoi (u.cut text) = some (CivilDate.num ⟨year, month, day⟩ / u.size) := by
  obtain ⟨y, m, d, rest, rfl, hy, hm, hd, hyd, hmd, hdd, rfl, rfl, rfl⟩ := h
  have hmlt := natOfDigits_lt hmd
  have hdlt := natOfDigits_lt hdd
  rw [hm] at hmlt
  rw [hd] at hdlt
  have htake : (y ++ [45] ++ m ++ [45] ++ d ++ rest).take 4 = y := by simp [← hy]
  have hmonth : ((y ++ [45] ++ m ++ [45] ++ d ++ rest).drop 5).take 2 = m := by
    have : (y ++ [45] ++ m ++ [45] ++ d ++ rest) = (y ++ [45]) ++ (m ++ ([45] ++ d ++ rest)) := by simp
    rw [this, drop_append_of_le_length (by simp [hy]), drop_of_length_le (by simp [hy]), nil_append,
      take_append_of_le_length (by simp [hm]), take_of_length_le (by simp [hm])]
  have hday : ((y ++ [45] ++ m ++ [45] ++ d ++ rest).drop 8).take 2 = d := by
    have : (y ++ [45] ++ m ++ [45] ++ d ++ rest) = (y ++ [45] ++ m ++ [45]) ++ (d ++ rest) := by simp
    rw [this, drop_append_of_le_length (by simp [hy, hm]), drop_of_length_le (by simp [hy, hm]),
      nil_append, take_append_of_le_length (by simp [hd]), take_of_length_le (by simp [hd])]
  cases u with
  | year =>
    show atoi (List.take 4 _) = _
    rw [htake, atoi_digits (by rintro rfl; simp at hy) hyd (by omega)]
    simp only [CivilDate.num, Period.size, Option.some.injEq]
    omega
  | month =>
    show atoi (List.take 4 _ ++ List.take 2 (List.drop 5 _)) = _
    rw [htake, hmonth, atoi_digits (by rintro h; simp_all) (by simp [hyd, hmd]) (by simp [hy, hm]),
      natOfDigits_append, hm]
    simp only [CivilDate.num, Period.size, Option.some.injEq, Nat.cast_add, Nat.cast_mul, Nat.cast_pow]
    omega
  | day =>
    show atoi (List.take 4 _ ++ List.take 2 (List.drop 5 _) ++ List.take 2 (List.drop 8 _)) = _
    rw [htake, hmonth, hday, atoi_digits (by rintro h; simp_all) (by simp [hyd, hmd, hdd]) (by simp [hy, hm, hd]),
      natOfDigits_append, natOfDigits_append, hm, hd]
    simp only [CivilDate.num, Period.size, Option.some.injEq, Nat.cast_add, Nat.cast_mul, Nat.cast_pow]
    omega

theorem DateText.length_le {day : Nat} (h : DateText text year month day) :
    10 ≤ text.length := by
  obtain ⟨y, m, d, rest, rfl, hy, hm, hd, _⟩ := h
  simp only [length_append, length_singleton]
  omega

theorem dateText_of_readDate (h : readDate s = some (num, rest)) :
    ∃ year month day, DateText s year month day ∧ num = CivilDate.num ⟨year, month, day⟩ := by
  unfold readDate at h
  split at h
  · next y₁ y₂ y₃ y₄ s₁ m₁ m₂ s₂ d₁ d₂ rest' =>
    simp only at h
    split at h
    · next hvalid =>
      obtain ⟨hy, rfl, hm, rfl, hd, _⟩ := hvalid
      cases h
      exact ⟨_, _, _, ⟨[y₁, y₂, y₃, y₄], [m₁, m₂], [d₁, d₂], rest, rfl, rfl, rfl, rfl, hy, hm, hd, rfl,
        rfl, rfl⟩, rfl⟩
    · cases h
  · cases h

theorem length_padDigits (w n : Nat) : (padDigits w n).length = w := by
  induction w generalizing n with
  | zero => rfl
  | succ w ih => rw [padDigits, length_append, ih, length_singleton]

theorem appendInt_eq {w n : Nat} (h : n < 10 ^ w) : appendInt w n = padDigits w n := by
  simp [appendInt, h]

theorem dateText_formatDate {d : CivilDate} (hyear : d.year = year) (hy : year ≤ 9999) (hm : d.month ≤ 12)
    (hd : d.day ≤ 31) : DateText (formatDate d) year d.month d.day := by
  refine ⟨padDigits 4 year, padDigits 2 d.month, padDigits 2 d.day, [], ?_, length_padDigits 4 _,
    length_padDigits 2 _, length_padDigits 2 _, all_padDigits 4 _, all_padDigits 2 _, all_padDigits 2 _, ?_, ?_, ?_⟩
  · rw [formatDate, hyear, appendInt_eq (by omega), appendInt_eq (by omega), appendInt_eq (by omega), append_nil]
  · rw [natOfDigits_padDigits]
    omega
  · rw [natOfDigits_padDigits]
    omega
  · rw [natOfDigits_padDigits]
    omega

/-- How many bytes a calendar needs of a text. -/
def Period.width : Period → Nat
  | .year => 4
  | .month | .day => 10

theorem findForKey_long {s : GoString} (h : u.width ≤ s.length) : (u.shard z).findForKey (.string s) =
    (atoi (u.cut s)).elim (.error (newInvalidDateFormatKeyError (.string s))) .ok := by
  have hlong : ¬ s.length < u.width := not_lt.2 h
  cases u <;> simp only [Period.width] at hlong <;>
    simp only [Period.shard, dateYearShard, dateMonthShard, dateDayShard, dateShard, getNumYear, getNumYearMonth,
      getNumYearMonthDay, getNumOfText, unixTime, hlong, if_false, Period.cut] <;>
    split <;> simp [*]

theorem findForKey_short {s : GoString} (h : s.length < u.width) : (u.shard z).findForKey (.string s) =
    .error (if u = .year then .panic "slice bounds out of range" else newInvalidDateFormatKeyError (.string s)) := by
  cases u <;> exact if_pos h

theorem findForKey_text {s : GoString} {year month day : Nat} (h : DateText s year month day) :
    (u.shard z).findForKey (.string s) = .ok (CivilDate.num ⟨year, month, day⟩ / u.size) := by
  have hwidth : u.width ≤ 10 := by cases u <;> decide
  rw [findForKey_long (hwidth.trans h.length_le), h.atoi_cut u]
  rfl

theorem findForKey_unix {key : GoVal} {t : Int} (ht : unixTime key = some t) (h₀ : 0 ≤ (z.date t).year)
    (h₁ : (z.date t).year ≤ 9999) : (u.shard z).findForKey key = .ok ((z.date t).num / u.size) := by
  obtain ⟨year, hyear⟩ := Int.eq_ofNat_of_zero_le h₀
  obtain ⟨_, hm, _, hd⟩ := z.valid t
  have htext := dateText_formatDate hyear (by omega) hm hd
  have hatoi := htext.atoi_cut u
  have hnum : CivilDate.num ⟨year, (z.date t).month, (z.date t).day⟩ = (z.date t).num := by
    rw [CivilDate.num, CivilDate.num, hyear]
  rw [hnum] at hatoi
  cases u with
  | year =>
    have : (z.date t).year = (z.date t).num / 10000 := by
      rw [CivilDate.num]
      omega
    simp [Period.shard, dateYearShard, dateShard, getNumYear, ht, Period.size, this]
  | month =>
    simp only [Period.cut] at hatoi
    simp [Period.shard, dateMonthShard, dateShard, getNumYearMonth, getNumOfText, ht, hatoi]
  | day =>
    simp only [Period.cut] at hatoi
    simp [Period.shard, dateDayShard, dateShard, getNumYearMonthDay, getNumOfText, ht, hatoi]

theorem findForKey_instant {column : DateColumn} {v : Datum} {n : Int} (h : column.instant z v = some n) :
    (u.shard z).findForKey v.value = .ok (u.of z column n) := by
  cases column with
  | datetime =>
    cases v with
    | string s =>
      obtain ⟨⟨day, rest⟩, hdate, h⟩ := Option.bind_eq_some_iff.1 h
      obtain ⟨time, htime, h⟩ := Option.bind_eq_some_iff.1 h
      cases h
      obtain ⟨year, month, d, htext, rfl⟩ := dateText_of_readDate hdate
      rw [Datum.value, findForKey_text htext]
      have hrange := readTime_range htime
      simp only [Period.of, DateColumn.day]
      congr 2
      omega
    | _ => cases h
  | unix =>
    simp only [DateColumn.instant] at h
    obtain ⟨t, ht, h⟩ := Option.bind_eq_some_iff.1 h
    split at h
    · next hrange =>
      cases h
      refine findForKey_unix ?_ hrange.2.1 hrange.2.2
      cases v with
      | int64 m => exact ht
      | uint64 m =>
        have hm : (m.toNat : Int) = n := Option.some.inj ht
        simp only [Datum.value, unixTime, hm]
        rw [toInt64_of_range (by omega) hrange.1]
      | _ => cases ht
    · cases h

/-! ### Calendar rules locate instants -/

variable {rule : Rule}

section Locating

variable {v : Datum} {n j : Int}

theorem findTableIndex_instant (hshard : rule.getShard = u.shard z) (hv : column.instant z v = some n) :
    rule.findTableIndex v.value = .ok (u.of z column n) := by
  rw [Rule.findTableIndex, hshard, findForKey_instant hv]

theorem equalStart_date (hshard : rule.getShard = u.shard z) :
    ∃ equalStart, rule.getShard.equalStart = some equalStart ∧
      ∀ key j, rule.findTableIndex key = .ok j → equalStart key j = .ok true := by
  have hdate : ∀ (getNum : GoVal → Except Fail Int), rule.getShard = dateShard getNum →
      ∃ equalStart, rule.getShard.equalStart = some equalStart ∧
        ∀ key j, rule.findTableIndex key = .ok j → equalStart key j = .ok true := by
    intro getNum h
    refine ⟨dateEqualStart getNum, by rw [h]; rfl, ?_⟩
    intro key j hj
    rw [Rule.findTableIndex, h] at hj
    have hnum : getNum key = .ok j := hj
    simp [dateEqualStart, hnum]
  cases u with
  | year => exact hdate _ hshard
  | month => exact hdate _ hshard
  | day => exact hdate _ hshard

/-- Every instant counts as the start of its period. -/
theorem firstLeftOut_date (hshard : rule.getShard = u.shard z) {key : GoVal} (hj : rule.findTableIndex key = .ok j) :
    rule.getShard.equalStart ≠ none ∧ firstLeftOut rule key j = j := by
  obtain ⟨equalStart, hs, hstart⟩ := equalStart_date hshard
  simp [firstLeftOut, hs, hstart key j hj]

end Locating

/-! ### Soundness of predicates on dates -/

/-- A predicate that compares the key column with literals. -/
inductive KeyPredicate where
  | compare (op : Op) (v : Datum)
  | between (isNot : Bool) (a b : Datum)

def KeyPredicate.expr (c : ColumnName) : KeyPredicate → Expr Parsed
  | compare op v => .binary op (.column () c) (.value v)
  | between isNot a b => .between () (.column () c) (.value a) (.value b) isNot

def KeyPredicate.literals : KeyPredicate → List Datum
  | compare _ v => [v]
  | between _ a b => [a, b]

/-- The period `p` of an instant `k` is one that the route of a comparison with `n`, in the period `q`, keeps, if the
comparison holds. -/
def Op.onSide (k n p q : Int) : Op → Prop
  | .lt => k < n → p < q
  | .le => k < n → p ≤ q
  | .gt | .ge => n < k → q ≤ p
  | _ => True

section Lossless

variable (u : Period) (z : Zone) (column : DateColumn) (rule : Rule)

/-- When the route of a predicate on dates loses nothing: no instant `k` of a configured period lies on the side of
the bounds that the predicate asks for, and its period on another. -/
def KeyPredicate.lossless : KeyPredicate → Prop
  | compare op v => ∀ n w k, column.instant z v = some n → column.instant z w = some k →
      u.of z column k ∈ rule.getSubTableIndexes → op.onSide k n (u.of z column k) (u.of z column n)
  | between isNot va vb => ∀ a b w k, column.instant z va = some a → column.instant z vb = some b →
      column.instant z w = some k → u.of z column k ∈ rule.getSubTableIndexes → cond isNot
        (k < a ∨ b < k → u.of z column k < min (u.of z column a) (u.of z column b) ∨
          max (u.of z column a) (u.of z column b) ≤ u.of z column k)
        (a ≤ k ∧ k ≤ b → min (u.of z column a) (u.of z column b) ≤ u.of z column k ∧
          u.of z column k ≤ max (u.of z column a) (u.of z column b))

/-- The days of the column follow the order of its instants, as days without a zone do. -/
def DateColumn.Forward : Prop :=
  ∀ v w k n, column.instant z v = some k → column.instant z w = some n → k ≤ n → column.day z k ≤ column.day z n

/-- The period of `v` has no instant before `v`, or is not configured. -/
def startsPeriod (v : Datum) : Prop :=
  ∀ n w k, column.instant z v = some n → column.instant z w = some k → u.of z column n ∈ rule.getSubTableIndexes →
    k < n → u.of z column k ≠ u.of z column n

/-- Only `<` and `NOT BETWEEN` ask for anything when the days follow the instants: the bound that ends the part below
is the first instant of its period, and the bounds are not in reversed periods with a configured period from the lower
one up to the upper one. -/
def KeyPredicate.onPeriods : KeyPredicate → Prop
  | compare op v => op = .lt → startsPeriod u z column rule v
  | between isNot va vb => isNot = true → ∀ a b, column.instant z va = some a → column.instant z vb = some b →
      (u.of z column a < u.of z column b → startsPeriod u z column rule va) ∧
      (u.of z column b < u.of z column a → ∀ w k, column.instant z w = some k →
        u.of z column k ∈ rule.getSubTableIndexes →
          u.of z column k < u.of z column b ∨ u.of z column a ≤ u.of z column k)

end Lossless

theorem forward_datetime : DateColumn.datetime.Forward z := fun _ _ _ _ _ _ h => Int.ediv_le_ediv (by decide) h

section Forward

variable (hforward : column.Forward z)

include hforward

theorem Period.of_mono {v w : Datum} (hk : column.instant z v = some k) (hn : column.instant z w = some n)
    (h : k ≤ n) : u.of z column k ≤ u.of z column n := by
  have hpos : 0 < u.size := by cases u <;> decide
  exact Int.ediv_le_ediv hpos (hforward v w k n hk hn h)

theorem lossless_lt_iff {v : Datum} :
    (KeyPredicate.compare .lt v).lossless u z column rule ↔ startsPeriod u z column rule v := by
  constructor
  · intro h n w k hv hw hconf hkn heq
    exact absurd heq (h n w k hv hw (heq ▸ hconf) hkn).ne
  · intro h n w k hv hw hconf hkn
    refine lt_of_le_of_ne (Period.of_mono hforward hw hv hkn.le) fun heq => ?_
    exact h n w k hv hw (heq ▸ hconf) hkn heq

theorem lossless_notBetween_iff {va vb : Datum} :
    (KeyPredicate.between true va vb).lossless u z column rule ↔
      (KeyPredicate.between true va vb).onPeriods u z column rule := by
  constructor
  · intro h _ a b ha hb
    constructor
    · intro hlt n w k hn hw hconf hkn heq
      obtain rfl : a = n := Option.mem_unique ha hn
      have := h a b w k ha hb hw (heq ▸ hconf) (.inl hkn)
      omega
    · intro hlt w k hw hconf
      by_contra hout
      have hka : k < a := by
        by_contra hak
        exact hout (.inr (Period.of_mono hforward ha hw (not_lt.1 hak)))
      have := h a b w k ha hb hw hconf (.inl hka)
      omega
  · intro h a b w k ha hb hw hconf hk
    obtain ⟨hordered, hreversed⟩ := h rfl a b ha hb
    rcases lt_trichotomy (u.of z column a) (u.of z column b) with hlt | heq | hgt
    · rcases hk with hka | hbk
      · have hle : u.of z column k ≤ u.of z column a := Period.of_mono hforward hw ha hka.le
        have hne : u.of z column k ≠ u.of z column a := by
          intro heq
          exact hordered hlt a w k ha hw (heq ▸ hconf) hka heq
        omega
      · have hle : u.of z column b ≤ u.of z column k := Period.of_mono hforward hb hw hbk.le
        omega
    · -- both bounds in one period: the upper part has it
      omega
    · have := hreversed hgt w k hw hconf
      omega

/-- Without clocks that are set back, the condition is one on the bounds. -/
theorem lossless_iff_of_forward (pred : KeyPredicate) :
    pred.lossless u z column rule ↔ pred.onPeriods u z column rule := by
  cases pred with
  | compare op v =>
    by_cases hlt : op = .lt
    · subst hlt
      exact (lossless_lt_iff hforward).trans ⟨fun h _ => h, fun h => h rfl⟩
    · refine iff_of_true (fun n w k hv hw _ => ?_) (fun h => absurd h hlt)
      cases op with
      | lt => exact absurd rfl hlt
      | le => exact fun h => Period.of_mono hforward hw hv h.le
      | gt | ge => exact fun h => Period.of_mono hforward hv hw h.le
      | _ => trivial
  | between isNot va vb =>
    cases isNot with
    | true => exact lossless_notBetween_iff hforward
    | false =>
      refine iff_of_true (fun a b w k ha hb hw _ hk => ?_) nofun
      have hle : u.of z column a ≤ u.of z column k := Period.of_mono hforward ha hw hk.1
      have hge : u.of z column k ≤ u.of z column b := Period.of_mono hforward hw hb hk.2
      exact ⟨(min_le_left _ _).trans hle, hge.trans (le_max_right _ _)⟩

end Forward

/-- The number of the first day of a period, within the period. -/
def Period.first : Period → Int
  | .year => 101
  | .month => 1
  | .day => 0

theorem first_le_of_readDate (h : readDate s = some (num, rest)) (u : Period) :
    u.first ≤ num % u.size := by
  unfold readDate at h
  split at h
  · simp only at h
    split at h
    · next hvalid =>
      obtain ⟨_, _, hm, _, hd, hm₁, _, hd₁, _⟩ := hvalid
      have hmlt := natOfDigits_lt hm
      have hdlt := natOfDigits_lt hd
      simp only [length_cons, length_nil] at hmlt hdlt
      cases h
      cases u <;> simp only [Period.first, Period.size, CivilDate.num] <;> omega
    · cases h
  · cases h

theorem startsPeriod_first {rule : Rule} {v : Datum}
    (hv : DateColumn.datetime.instant z v = some n) (hn : n % (u.size * 10 ^ 6) = u.first * 10 ^ 6) :
    startsPeriod u z .datetime rule v := by
  intro n' w k hv' hw _ hkn heq
  obtain rfl : n = n' := Option.mem_unique hv hv'
  cases w with
  | string s =>
    obtain ⟨⟨day, rest⟩, hdate, hw⟩ := Option.bind_eq_some_iff.1 hw
    obtain ⟨time, htime, hw⟩ := Option.bind_eq_some_iff.1 hw
    cases hw
    have hfirst := first_le_of_readDate hdate u
    have htime := readTime_range htime
    simp only [Period.of, DateColumn.day] at heq
    cases u <;> simp only [Period.first, Period.size] at hn hfirst heq <;> omega
  | _ => cases hw

section Sound

variable {c : ColumnName} {route : List Int}

/-- Every key at a configured period that satisfies the predicate has its period in `indexes`. -/
def KeepsKeys (z : Zone) (column : DateColumn) (rule : Rule) (c : ColumnName) (pred : KeyPredicate)
    (indexes : List Int) : Prop :=
  ∀ w k i other, column.instant z w = some k → rule.findTableIndex w.value = .ok i → i ∈ rule.getSubTableIndexes →
    (rowReading rule.getShardingColumn k (column.instant z) other).truth (pred.expr c) = some true → i ∈ indexes

theorem keepsKeys_iff (hshard : rule.getShard = u.shard z) {pred : KeyPredicate} {indexes : List Int} :
    KeepsKeys z column rule c pred indexes ↔ ∀ w k other, column.instant z w = some k →
      u.of z column k ∈ rule.getSubTableIndexes →
      (rowReading rule.getShardingColumn k (column.instant z) other).truth (pred.expr c) = some true →
        u.of z column k ∈ indexes := by
  constructor
  · intro h w k other hw
    exact h w k _ other hw (findTableIndex_instant hshard hw)
  · intro h w k i other hw hi
    rw [findTableIndex_instant hshard hw] at hi
    obtain rfl : u.of z column k = i := Except.ok.inj hi
    exact h w k other hw

theorem truth_keyCompare (other : Expr Parsed → Kleene.Truth) {op : Op} (hop : op.isCompare = true)
    (hc : c.name.l = rule.getShardingColumn) {k n : Int} {v : Datum} (hv : column.instant z v = some n) :
    (rowReading rule.getShardingColumn k (column.instant z) other).truth (.binary op (.column () c) (.value v)) =
      some true ↔ op.holds k n = true := by
  rw [truth_compare hop]
  simp [Reading.compare, rowReading, hc, hv]

theorem keepsKeys_compare_iff (hshard : rule.getShard = u.shard z) (hsub : Increasing rule.getSubTableIndexes)
    (hc : c.name.l = rule.getShardingColumn) {op : Op} (hop : op.isCompare = true) {v : Datum} {n : Int}
    (hv : column.instant z v = some n) (h : CompareRoute rule op c.name.l v.value route) :
    KeepsKeys z column rule c (.compare op v) route ↔ (KeyPredicate.compare op v).lossless u z column rule := by
  have hfind := findTableIndex_instant hshard hv
  obtain ⟨hs, hfirst⟩ := firstLeftOut_date hshard hfind
  have hone : ∀ w k, column.instant z w = some k → u.of z column k ∈ rule.getSubTableIndexes →
      ((op.holds k n = true → u.of z column k ∈ route) ↔ op.onSide k n (u.of z column k) (u.of z column n)) := by
    intro w k hw hconf
    have heq : k = n → u.of z column k = u.of z column n := congrArg _
    rw [← reaches_iff_mem (h.increasing hsub), h.reaches_iff hc.symm (finds_of_increasing hsub hconf),
      Rule.admits_iff hfind fun _ => hs]
    cases op <;> simp only [Op.holds, Op.onSide, Rule.admitsAt, hfirst, decide_eq_true_eq, iff_true,
      implies_true] <;> omega
  rw [keepsKeys_iff hshard]
  constructor
  · intro h n' w k hv' hw hconf
    obtain rfl : n = n' := Option.mem_unique hv hv'
    rw [← hone w k hw hconf]
    exact fun hholds => h w k (fun _ => none) hw hconf ((truth_keyCompare _ hop hc hv).2 hholds)
  · intro h w k other hw hconf htrue
    exact (hone w k hw hconf).2 (h n w k hv hw hconf) ((truth_keyCompare other hop hc hv).1 htrue)

theorem keepsKeys_between_iff (hshard : rule.getShard = u.shard z) (hg : rule.getType ≠ .global)
    (hsub : Increasing rule.getSubTableIndexes) (hc : c.name.l = rule.getShardingColumn) {isNot : Bool}
    {va vb : Datum} {a b : Int} (ha : column.instant z va = some a) (hb : column.instant z vb = some b)
    (h : BetweenRoute rule c (.value va) (.value vb) isNot route) :
    KeepsKeys z column rule c (.between isNot va vb) route ↔
      (KeyPredicate.between isNot va vb).lossless u z column rule := by
  have hja := findTableIndex_instant hshard ha
  have hjb := findTableIndex_instant hshard hb
  have hfirst : firstLeftOut rule (if u.of z column a > u.of z column b then vb.value else va.value)
      (min (u.of z column a) (u.of z column b)) = min (u.of z column a) (u.of z column b) := by
    -- whichever bound is the lower one, it is taken for the start of its period
    split
    · next hgt => rw [min_eq_right hgt.le, (firstLeftOut_date hshard hjb).2]
    · next hle => rw [min_eq_left (not_lt.1 hle), (firstLeftOut_date hshard hja).2]
  have hmem : ∀ k, u.of z column k ∈ rule.getSubTableIndexes → (u.of z column k ∈ route ↔ cond isNot
      (u.of z column k < min (u.of z column a) (u.of z column b) ∨
        max (u.of z column a) (u.of z column b) ≤ u.of z column k)
      (min (u.of z column a) (u.of z column b) ≤ u.of z column k ∧
        u.of z column k ≤ max (u.of z column a) (u.of z column b))) := by
    intro k hconf
    rw [← reaches_iff_mem (h.increasing hsub), h.reaches_iff hg hc.symm (finds_of_increasing hsub hconf),
      Rule.admitsBetween_iff (firstLeftOut_date hshard hja).1 hja hjb, hfirst]
  rw [keepsKeys_iff hshard]
  constructor
  · intro h a' b' w k ha' hb' hw hconf
    obtain rfl : a = a' := Option.mem_unique ha ha'
    obtain rfl : b = b' := Option.mem_unique hb hb'
    have h := h w k (fun _ => none) hw hconf
    rw [hmem k hconf] at h
    cases isNot with
    | true => exact fun hk => h ((truth_notBetween _ hc ha hb).2 hk)
    | false => exact fun hk => h ((truth_between _ hc ha hb).2 hk)
  · intro h w k other hw hconf htrue
    have h := h a b w k ha hb hw hconf
    rw [hmem k hconf]
    cases isNot with
    | true => exact h ((truth_notBetween other hc ha hb).1 htrue)
    | false => exact h ((truth_between other hc ha hb).1 htrue)

end Sound

/-- The route of a predicate on dates keeps every stored key that satisfies it, exactly when the predicate is lossless
in the sense of `KeyPredicate.lossless`. -/
theorem date_route_sound_iff (z : Zone) (u : Period) (column : DateColumn) (rule : Rule)
    (htype : rule.getType = u.ruleType) (hshard : rule.getShard = u.shard z)
    (hsub : Increasing rule.getSubTableIndexes) (db : String) (router : Router) (order : MapOrder) (n : TableName)
    (asName : CIStr) (hrule : router.getShardRule db n.name.l = some rule) (c : ColumnName)
    (hc : c.name.l = rule.getShardingColumn) (pred : KeyPredicate) (hop : ∀ op v, pred = .compare op v → op.isCompare)
    (hlit : ∀ v ∈ pred.literals, (column.instant z v).isSome) (indexes : List Int)
    (hroute : WhereRoute db router order n asName (pred.expr c) indexes) :
    KeepsKeys z column rule c pred indexes ↔ pred.lossless u z column rule := by
  have hg : rule.getType ≠ .global := by
    rw [htype]
    cases u <;> simp [Period.ruleType]
  have hinter : ∀ route, Increasing route →
    (KeepsKeys z column rule c pred (interList rule.getSubTableIndexes route) ↔
      KeepsKeys z column rule c pred route) := by
    intro route hinc
    constructor
    · intro h w k i other hw hi hconf htrue
      exact ((mem_interList hsub hinc).1 (h w k i other hw hi hconf htrue)).2
    · intro h w k i other hw hi hconf htrue
      exact (mem_interList hsub hinc).2 ⟨hconf, h w k i other hw hi hconf htrue⟩
  cases pred with
  | compare op v =>
    obtain ⟨t, ht⟩ := Option.isSome_iff_exists.1 (hlit v mem_cons_self)
    obtain ⟨route, hcompare, rfl⟩ := hroute.compare hrule hg (hop op v rfl) hc
    rw [hinter route (hcompare.increasing hsub)]
    exact keepsKeys_compare_iff hshard hsub hc (hop op v rfl) ht hcompare
  | between isNot va vb =>
    obtain ⟨a, ha⟩ := Option.isSome_iff_exists.1 (hlit va mem_cons_self)
    obtain ⟨b, hb⟩ := Option.isSome_iff_exists.1 (hlit vb (mem_cons_of_mem va mem_cons_self))
    obtain ⟨route, hbetween, rfl⟩ := hroute.between hrule hg hc
    rw [hinter route (hbetween.increasing hsub)]
    exact keepsKeys_between_iff hshard hg hsub hc ha hb hbetween

/-- A table `t` with sub-tables for three months, on the column `ts`. -/
def monthRule (z : Zone) : BaseRule :=
  { db := "db", table := "t", shardingColumn := "ts", ruleType := .dateMonth, slices := ["s0"]
    subTableIndexes := [201605, 201606, 201607], tableToSlice := [(201605, 0), (201606, 0), (201607, 0)]
    shard := dateMonthShard z }

def monthRouter (z : Zone) : Router := ⟨[(("db", "t"), .base (monthRule z))]⟩

/-- A zone in which it is always the same day; columns with dates and times do not use the zone. -/
def stillZone : Zone where
  date _ := ⟨2016, 1, 1⟩
  valid _ := by decide

/-- `DELETE FROM t WHERE ts < text`. -/
def deleteBefore (text : String) : DeleteStmt Parsed :=
  { tableRefs := singleTable (unqualifiedTable "t") .empty
    cond := some ((KeyPredicate.compare .lt (.string (ascii text))).expr (bareColumn "ts")) }

theorem date_route_sound_first : ∃ indexes,
    WhereRoute "db" (monthRouter stillZone) .insertion (unqualifiedTable "t") .empty
      ((KeyPredicate.compare .lt (.string (ascii "2016-06-01"))).expr (bareColumn "ts")) indexes ∧
    KeepsKeys stillZone .datetime (.base (monthRule stillZone)) (bareColumn "ts")
      (.compare .lt (.string (ascii "2016-06-01"))) indexes := by
  refine ⟨_, .delete (deleteBefore "2016-06-01") _ rfl rfl rfl, ?_⟩
  refine (date_route_sound_iff stillZone .month .datetime (.base (monthRule stillZone)) rfl rfl (by decide) "db"
    (monthRouter stillZone) .insertion (unqualifiedTable "t") .empty rfl (bareColumn "ts") rfl
    (.compare .lt (.string (ascii "2016-06-01"))) ?_ (by decide) _
    (.delete (deleteBefore "2016-06-01") _ rfl rfl rfl)).2 ?_
  · intro op v h
    cases h
    rfl
  · exact (lossless_lt_iff forward_datetime).2 (startsPeriod_first (n := 20160601000000) rfl rfl)

/-- `ts < '2016-06-15'` is true of the tenth of June, but the statement does not go to the sub-table of June. -/
theorem deleteBefore_loses_month : ∃ indexes,
    WhereRoute "db" (monthRouter stillZone) .insertion (unqualifiedTable "t") .empty
      ((KeyPredicate.compare .lt (.string (ascii "2016-06-15"))).expr (bareColumn "ts")) indexes ∧
    DateColumn.datetime.instant stillZone (.string (ascii "2016-06-10")) = some 20160610000000 ∧
    (Rule.base (monthRule stillZone)).findTableIndex (.string (ascii "2016-06-10")) = .ok 201606 ∧
    201606 ∈ (Rule.base (monthRule stillZone)).getSubTableIndexes ∧
    (rowReading "ts" 20160610000000 (DateColumn.datetime.instant stillZone) (fun _ => none)).truth
      ((KeyPredicate.compare .lt (.string (ascii "2016-06-15"))).expr (bareColumn "ts")) = some true ∧
    201606 ∉ indexes :=
  ⟨_, .delete (deleteBefore "2016-06-15") _ rfl rfl rfl, by decide, by decide, by decide, by decide, by decide⟩

/-! ### Texts that are no dates -/

/-- The number of the period exactly for the texts that begin with a date, and no panic for any other text: this holds
for dates, and for texts that are long enough and whose cut is no number; a short text is no harm to months and
days. -/
theorem date_text_checked_iff (z : Zone) (u : Period) (s : GoString) :
    ((∀ msg, (u.shard z).findForKey (.string s) ≠ .error (.panic msg)) ∧
      ∀ i, (u.shard z).findForKey (.string s) = .ok i ↔
        ∃ n, DateColumn.datetime.instant z (.string s) = some n ∧ i = u.of z .datetime n) ↔
      (DateColumn.datetime.instant z (.string s)).isSome ∨
        (u = .year → 4 ≤ s.length) ∧ (s.length < u.width ∨ atoi (u.cut s) = none) := by
  have hdate {n : Int} (hn : DateColumn.datetime.instant z (.string s) = some n) :
      (u.shard z).findForKey (.string s) = .ok (u.of z .datetime n) := findForKey_instant hn
  have hnone {e : Fail} (he : (u.shard z).findForKey (.string s) = .error e) :
      DateColumn.datetime.instant z (.string s) = none := by
    refine Option.eq_none_iff_forall_ne_some.2 fun n hn => ?_
    rw [hdate hn] at he
    cases he
  rcases Nat.lt_or_ge s.length u.width with hshort | hlong
  · rw [hnone (findForKey_short hshort), findForKey_short hshort]
    cases u with
    | year => simp [Period.width] at hshort ⊢; omega
    | month | day => simp [newInvalidDateFormatKeyError, hshort]
  · cases hatoi : atoi (u.cut s) with
    | none =>
      have hfind : (u.shard z).findForKey (.string s) = .error (newInvalidDateFormatKeyError (.string s)) := by
        rw [findForKey_long hlong, hatoi]
        rfl
      rw [hnone hfind, hfind]
      have hyear : u = .year → 4 ≤ s.length := fun h => by rwa [h] at hlong
      simpa [newInvalidDateFormatKeyError] using hyear
    | some v =>
      have hfind : (u.shard z).findForKey (.string s) = .ok v := by
        rw [findForKey_long hlong, hatoi]
        rfl
      cases hinstant : DateColumn.datetime.instant z (.string s) with
      | none => simp [hfind, not_lt.2 hlong]
      | some n =>
        have hv : v = u.of z .datetime n := Fallible.ok_unique hfind (hdate hinstant)
        simp [hfind, hv, eq_comm]

/-- A text that is too short, one with other separators, and one that is no date of the calendar. -/
theorem date_text_unchecked :
    (Period.year.shard stillZone).findForKey (.string (ascii "206")) = .error (.panic "slice bounds out of range") ∧
    (Period.month.shard stillZone).findForKey (.string (ascii "2016/06/01")) = .ok 201606 ∧
    (Period.day.shard stillZone).findForKey (.string (ascii "2016-02-31")) = .ok 20160231 := by
  decide +kernel

end DbProxy
