import DbProxy.Models.DateRange
import DbProxy.Plan.Util
import DbProxy.Spec.Numerals
import Mathlib.Data.Int.ConditionallyCompleteOrder
import Mathlib.Order.ConditionallyCompleteLattice.Basic

/-!
# Numbers of days, months and years

The numbers of the periods of an accepted range increase: `20151231` is followed by `20160101`.
-/

namespace DbProxy

open Fallible List
variable {s dateRange : GoString} {numbers : List Int}

namespace CivilDate

structure Valid (d : CivilDate) : Prop where
  month_pos : 1 ≤ d.month
  month_le : d.month ≤ 12
  day_pos : 1 ≤ d.day
  day_le : d.day ≤ daysIn d.year d.month

end CivilDate

theorem daysIn_bounds (year : Int) (month : Nat) : 28 ≤ daysIn year month ∧ daysIn year month ≤ 31 := by
  unfold daysIn
  split
  · split <;> omega
  · split <;> omega

namespace CivilDate

variable {d : CivilDate}

theorem Valid.nextDay (h : d.Valid) : d.nextDay.Valid := by
  have hmonth := h.month_le
  have hone := (daysIn_bounds (d.year + 1) 1).1
  have hnext := (daysIn_bounds d.year (d.month + 1)).1
  unfold CivilDate.nextDay
  split
  · exact ⟨h.month_pos, h.month_le, by simp, by simpa using ‹_›⟩
  · split
    · exact ⟨by simp, by simp only; omega, le_refl _, by simp only; omega⟩
    · exact ⟨le_refl _, by simp, le_refl _, by simp only; omega⟩

theorem Valid.num_lt_nextDay (h : d.Valid) : d.num < d.nextDay.num := by
  have hday := h.day_le
  have hmonth := h.month_le
  have hbound := (daysIn_bounds d.year d.month).2
  have hpos := h.day_pos
  unfold CivilDate.nextDay CivilDate.num
  split
  · simp
  · split
    · push_cast
      omega
    · push_cast
      omega

theorem Valid.addDays (h : d.Valid) (n : Nat) : (d.addDays n).Valid := by
  induction n with
  | zero => exact h
  | succ n ih => exact ih.nextDay

theorem Valid.strictMono_addDays (h : d.Valid) : StrictMono fun n => (d.addDays n).num :=
  strictMono_nat_of_lt_succ fun n => (h.addDays n).num_lt_nextDay

end CivilDate

theorem increasing_map_range {f : Nat → Int} (hf : StrictMono f) (n : Nat) : Increasing ((range n).map f) := by
  unfold Increasing
  rw [pairwise_map]
  exact pairwise_lt_range.imp fun h => hf h

theorem increasing_dayNumbers {first last : CivilDate} (h : first.Valid) : Increasing (dayNumbers first last) :=
  increasing_map_range h.strictMono_addDays _

theorem increasing_yearNumbers (beginYear endYear : Int) : Increasing (yearNumbers beginYear endYear) :=
  increasing_map_range (fun a b h => by simpa using h) _

theorem increasing_monthNumbers (n : Nat) (year month : Int) (h₁ : 1 ≤ month) (h₁₃ : month ≤ 13) :
    Increasing (monthNumbers n year month) ∧ ∀ x ∈ monthNumbers n year month, year * 100 + month ≤ x := by
  have hcons : ∀ {x low l}, low ≤ x → Increasing l → (∀ y ∈ l, x < y) → Increasing (x :: l) ∧ ∀ y ∈ x :: l, low ≤ y :=
    fun hx hinc hl => ⟨pairwise_cons.2 ⟨hl, hinc⟩, forall_mem_cons.2 ⟨hx, fun y hy => hx.trans (hl y hy).le⟩⟩
  induction n generalizing year month with
  | zero => exact ⟨.nil, nofun⟩
  | succ n ih =>
    unfold monthNumbers
    split
    · obtain rfl : month = 13 := by omega
      have hone : Int.tmod 13 12 = 1 := by decide
      obtain ⟨hinc, hle⟩ := ih (year + 1) 2 (by decide) (by decide)
      rw [hone]
      exact hcons (by omega) hinc fun x hx => by have := hle x hx; omega
    · obtain ⟨hinc, hle⟩ := ih year (month + 1) (by omega) (by omega)
      exact hcons le_rfl hinc fun x hx => by have := hle x hx; omega

theorem timeParseDay_valid {d : CivilDate} (h : timeParseDay s = some d) : d.Valid := by
  unfold timeParseDay at h
  dsimp only at h
  split at h
  · next hok =>
    cases h
    exact ⟨hok.2.2.1, hok.2.2.2.1, hok.2.2.2.2.1, hok.2.2.2.2.2⟩
  · cases h

theorem increasing_parsePeriod {check : GoString → Bool} {dateLength : Nat} {text : GoString}
    (h : parsePeriod check dateLength text = .ok numbers) : Increasing numbers := by
  unfold parsePeriod at h
  split at h
  · cases h
  · obtain ⟨n, -, h⟩ := bind_eq_ok.1 h
    cases h
    exact pairwise_singleton _ _

theorem increasing_parseDayRange (h : Models.parseDayRange dateRange = .ok numbers) : Increasing numbers := by
  unfold Models.parseDayRange parseDayRangeWith at h
  split at h
  · exact increasing_parsePeriod h
  · split at h
    · cases h
    · split at h
      · next hfirst _ =>
        cases h
        exact increasing_dayNumbers (timeParseDay_valid hfirst)
      · cases h

theorem atoiErr_month {month : Int} (h : isMonthText s = true) (hmonth : atoiErr (s.drop 4) = .ok month) :
    1 ≤ month ∧ month ≤ 12 := by
  unfold isMonthText at h
  simp only [Bool.and_eq_true, decide_eq_true_eq] at h
  obtain ⟨⟨⟨hlen, hdigits⟩, hlow⟩, hhigh⟩ := h
  have hne : s.drop 4 ≠ [] := by
    refine ne_nil_of_length_pos ?_
    rw [length_drop]
    omega
  have hatoi : atoi (s.drop 4) = some (natOfDigits (s.drop 4) : Int) := by
    refine atoi_digits hne ?_ ?_
    · exact all_eq_true.2 fun b hb => all_eq_true.1 hdigits b (mem_of_mem_drop hb)
    · rw [length_drop]
      omega
  unfold atoiErr at hmonth
  rw [hatoi] at hmonth
  cases hmonth
  omega

theorem increasing_parseMonthRange (h : Models.parseMonthRange dateRange = .ok numbers) : Increasing numbers := by
  unfold Models.parseMonthRange parseMonthRangeWith at h
  split at h
  · exact increasing_parsePeriod h
  · split at h
    · cases h
    · dsimp only at h
      split at h
      · cases h
      next hcheck =>
      obtain ⟨beginYear, -, h⟩ := bind_eq_ok.1 h
      obtain ⟨beginMonth, hmonth, h⟩ := bind_eq_ok.1 h
      split at h
      · cases h
      obtain ⟨endYear, -, h⟩ := bind_eq_ok.1 h
      obtain ⟨endMonth, -, h⟩ := bind_eq_ok.1 h
      cases h
      obtain ⟨h₁, h₁₂⟩ := atoiErr_month (Bool.not_eq_false _ ▸ hcheck) hmonth
      exact (increasing_monthNumbers _ _ _ h₁ (by omega)).1

theorem increasing_parseYearRange (h : Models.parseYearRange dateRange = .ok numbers) : Increasing numbers := by
  unfold Models.parseYearRange parseYearRangeWith at h
  split at h
  · exact increasing_parsePeriod h
  · dsimp only at h
    split at h
    · cases h
    obtain ⟨beginYear, -, h⟩ := bind_eq_ok.1 h
    split at h
    · cases h
    obtain ⟨endYear, -, h⟩ := bind_eq_ok.1 h
    cases h
    exact increasing_yearNumbers _ _

end DbProxy
