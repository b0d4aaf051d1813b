import DbProxy.Spec.RowOrder
import Mathlib.Algebra.Order.BigOperators.Group.List
import Mathlib.Data.List.Dedup

/-!
# Aggregate functions and their merging

What an aggregate function says about the values of a group, and that merging the values for two groups gives the
value for both together: for `COUNT`, for `SUM` of integers that a double holds exactly, for `MAX` and `MIN`.
-/

namespace DbProxy

open List

variable {distinct : Bool} {xs ys : List Cell} {c a b : Cell} {f : AggregateFunc}

/-! ### What they mean -/

/-- The values that an aggregate function looks at: not NULL, and each one only once if duplicates are left out. -/
def counted (distinct : Bool) (xs : List Cell) : List Cell :=
  if distinct then (xs.filter (· ≠ .null)).dedup else xs.filter (· ≠ .null)

/-- `c` is the last of the values by `le`, or NULL if there is none. -/
def IsLast (le : Cell → Cell → Prop) (xs : List Cell) (c : Cell) : Prop :=
  (∀ x ∈ xs, x = .null) ∧ c = .null ∨ c ∈ xs ∧ c ≠ .null ∧ ∀ x ∈ xs, x ≠ .null → le x c

/-- The value of an aggregate function on the values of a group.  A sum of integers comes as a decimal number, which
is read as a double. -/
def AggregateFunc.IsValue (distinct : Bool) (xs : List Cell) (c : Cell) : AggregateFunc → Prop
  | .count => c = .int64 (counted distinct xs).length
  | .sum => c = if counted distinct xs = [] then .null else
      .float64 (Binary64.round ((counted distinct xs).map Cell.number).sum)
  | .max => IsLast (fun x y => x.rank ≤ y.rank) xs c
  | .min => IsLast (fun x y => y.rank ≤ x.rank) xs c

def Cell.isInteger (c : Cell) : Prop := c.kind ≤ 2

theorem Cell.isInteger_int64 (n : Int) : (Cell.int64 n).isInteger := Nat.le_succ 1

/-- The values for two groups are enough to know the value for both: not so if a count or a sum leaves out
duplicates. -/
def AggregateFunc.Merges (distinct : Bool) : AggregateFunc → Prop
  | .count | .sum => distinct = false
  | .max | .min => True

/-- Values that can be merged: counts below `2 ^ 63`, sums of integers below `2 ^ 53`, and integers of one type. -/
def AggregateFunc.Fits (xs : List Cell) : AggregateFunc → Prop
  | .count => xs.countP (· ≠ .null) < 2 ^ 63
  | .sum => (∀ x ∈ xs, x.isInteger) ∧ (xs.map fun x => |x.number|).sum < 2 ^ 53
  | .max | .min => ∀ x ∈ xs, x.isInteger ∧ ∀ y ∈ xs, x.comparable y

theorem AggregateFunc.Fits.subperm (h : f.Fits ys) (hsub : xs.Subperm ys) :
    f.Fits xs := by
  have hmem : ∀ x ∈ xs, x ∈ ys := fun x hx => hsub.subset hx
  cases f with
  | count => exact (hsub.countP_le _).trans_lt h
  | sum =>
    refine ⟨fun x hx => h.1 x (hmem x hx), lt_of_le_of_lt ?_ h.2⟩
    obtain ⟨zs, hzs, hsublist⟩ := hsub
    rw [← (hzs.map _).sum_eq]
    exact (hsublist.map _).sum_le_sum fun q hq => by
      obtain ⟨x, _, rfl⟩ := mem_map.1 hq
      exact abs_nonneg _
  | max => exact fun x hx => ⟨(h x (hmem x hx)).1, fun y hy => (h x (hmem x hx)).2 y (hmem y hy)⟩
  | min => exact fun x hx => ⟨(h x (hmem x hx)).1, fun y hy => (h x (hmem x hx)).2 y (hmem y hy)⟩

/-! ### Counts and sums -/

theorem counted_append (xs ys : List Cell) : counted false (xs ++ ys) = counted false xs ++ counted false ys :=
  filter_append ..

theorem mergeCount_spec (ha : AggregateFunc.IsValue false xs a .count)
    (hb : AggregateFunc.IsValue false ys b .count) (hfits : AggregateFunc.Fits (xs ++ ys) .count) :
    ∃ c, mergeCount b a = .ok c ∧ AggregateFunc.IsValue false (xs ++ ys) c .count := by
  have hlt : (counted false xs).length + (counted false ys).length < 2 ^ 63 := by
    have : (xs ++ ys).countP (· ≠ .null) < 2 ^ 63 := hfits
    rw [countP_eq_length_filter] at this
    rwa [← length_append, ← counted_append]
  refine ⟨.int64 (toInt64 ((counted false xs).length + (counted false ys).length)), ?_, ?_⟩
  · rw [show a = _ from ha, show b = _ from hb]
    rfl
  · show _ = Cell.int64 _
    rw [toInt64_of_range (by omega) (by omega), counted_append, length_append, Nat.cast_add]

theorem exists_int_of_isInteger {x : Cell} (h : x.isInteger) : ∃ n : Int, x.number = n := by
  cases x with
  | null => exact ⟨0, rfl⟩
  | int64 n | uint64 n => exact ⟨n, rfl⟩
  | _ => simp [Cell.isInteger, Cell.kind] at h

theorem round_sum (hint : ∀ x ∈ xs, x.isInteger) (hsum : (xs.map fun x => |x.number|).sum < 2 ^ 53) :
    Binary64.round (xs.map Cell.number).sum = (xs.map Cell.number).sum := by
  have hexists : ∀ l : List Cell, (∀ x ∈ l, x.isInteger) →
      ∃ n : Int, (l.map Cell.number).sum = n ∧ ((n.natAbs : ℕ) : ℚ) ≤ (l.map fun x => |x.number|).sum := by
    intro l hl
    induction l with
    | nil => exact ⟨0, by simp, by simp⟩
    | cons x l ih =>
      obtain ⟨m, hm⟩ := exists_int_of_isInteger (hl x mem_cons_self)
      obtain ⟨n, hn, hle⟩ := ih fun x hx => hl x (mem_cons_of_mem _ hx)
      refine ⟨m + n, by rw [map_cons, sum_cons, hm, hn]; push_cast; rfl, ?_⟩
      rw [map_cons, sum_cons, hm, Nat.cast_natAbs]
      rw [Nat.cast_natAbs] at hle
      push_cast at hle ⊢
      exact (abs_add_le _ _).trans (by gcongr)
  obtain ⟨n, hn, hle⟩ := hexists xs hint
  rw [hn, Binary64.round_intCast]
  have : ((n.natAbs : ℕ) : ℚ) < (2 ^ 53 : ℕ) := by
    push_cast
    exact hle.trans_lt hsum
  exact_mod_cast this

theorem counted_fits (h : AggregateFunc.Fits xs .sum) :
    Binary64.round ((counted false xs).map Cell.number).sum = ((counted false xs).map Cell.number).sum := by
  have hsub : AggregateFunc.Fits (counted false xs) .sum := h.subperm filter_sublist.subperm
  exact round_sum hsub.1 hsub.2

theorem mergeSum_spec (ha : AggregateFunc.IsValue false xs a .sum)
    (hb : AggregateFunc.IsValue false ys b .sum) (hfits : AggregateFunc.Fits (xs ++ ys) .sum) :
    ∃ c, mergeSum b a = .ok c ∧ AggregateFunc.IsValue false (xs ++ ys) c .sum := by
  have hxs := counted_fits (hfits.subperm (sublist_append_left xs ys).subperm)
  have hys := counted_fits (hfits.subperm (sublist_append_right xs ys).subperm)
  have hall := counted_fits hfits
  unfold AggregateFunc.IsValue at ha hb ⊢
  rw [counted_append, map_append, sum_append] at hall
  simp only [counted_append, map_append, sum_append, append_eq_nil_iff]
  rw [hxs] at ha
  rw [hys] at hb
  rw [hall]
  by_cases hy : counted false ys = []
  · rw [if_pos hy] at hb
    refine ⟨a, by rw [hb]; rfl, ?_⟩
    rw [ha, hy]
    simp
  · rw [if_neg hy] at hb
    rw [if_neg (fun h => hy h.2)]
    refine ⟨_, ?_, rfl⟩
    by_cases hx : counted false xs = []
    · rw [if_pos hx] at ha
      rw [ha, hb, hx, map_nil, sum_nil, zero_add]
      show Except.ok (Cell.float64 (Binary64.round (0 + _))) = _
      rw [zero_add, hys]
    · rw [if_neg hx] at ha
      rw [ha, hb]
      show Except.ok (Cell.float64 (Binary64.round (_ + _))) = _
      rw [hall]

/-! ### The greatest and the least value -/

theorem Cell.rank_le_iff (hkind : a.kind = b.kind) (htext : a.text = b.text) :
    a.rank ≤ b.rank ↔ a.number ≤ b.number := by
  rw [← not_lt, Cell.rank_lt, hkind, htext, ← not_lt]
  simp

theorem mergeExtremum_integer (wins : Ordering → Bool) (ha : a ≠ .null) (hb : b ≠ .null) (hint : a.isInteger)
    (hcomp : a.comparable b) :
    ∃ m n : Int, a.number = m ∧ b.number = n ∧ a.kind = b.kind ∧ a.text = [] ∧ b.text = [] ∧
      mergeExtremum wins b a = .ok (if wins (compare n m) then b else a) := by
  cases a with
  | null => exact absurd rfl ha
  | int64 m =>
    cases b with
    | int64 n => exact ⟨m, n, rfl, rfl, rfl, rfl, rfl, rfl⟩
    | null => exact absurd rfl hb
    | _ => simp [Cell.comparable, Cell.kind] at hcomp
  | uint64 m =>
    cases b with
    | uint64 n => exact ⟨m, n, rfl, rfl, rfl, rfl, rfl, rfl⟩
    | null => exact absurd rfl hb
    | _ => simp [Cell.comparable, Cell.kind] at hcomp
  | _ => simp [Cell.isInteger, Cell.kind] at hint

section Extremum

variable {le : Cell → Cell → Prop} {xs ys : List Cell} {a b : Cell}

theorem IsLast.append_null (ha : IsLast le xs a) (hys : ∀ y ∈ ys, y = .null) : IsLast le (xs ++ ys) a := by
  rcases ha with ⟨hxs, ha⟩ | ⟨hmem, hne, hle⟩
  · exact .inl ⟨fun x hx => (mem_append.1 hx).elim (hxs x) (hys x), ha⟩
  · refine .inr ⟨mem_append_left _ hmem, hne, fun x hx hx' => ?_⟩
    rcases mem_append.1 hx with hx | hx
    · exact hle x hx hx'
    · exact absurd (hys x hx) hx'

theorem IsLast.perm {c : Cell} (h : IsLast le xs c) (hperm : xs.Perm ys) : IsLast le ys c := by
  rcases h with ⟨hxs, hc⟩ | ⟨hmem, hne, hle⟩
  · exact .inl ⟨fun x hx => hxs x (hperm.mem_iff.2 hx), hc⟩
  · exact .inr ⟨hperm.mem_iff.1 hmem, hne, fun x hx => hle x (hperm.mem_iff.2 hx)⟩

theorem IsLast.all_null (h : IsLast le xs .null) : ∀ x ∈ xs, x = .null := by
  rcases h with ⟨hxs, _⟩ | ⟨_, hne, _⟩
  · exact hxs
  · exact absurd rfl hne

theorem IsLast.mem (h : IsLast le xs a) (ha : a ≠ .null) : a ∈ xs ∧ ∀ x ∈ xs, x ≠ .null → le x a := by
  rcases h with ⟨_, hnull⟩ | ⟨hmem, _, hle⟩
  · exact absurd hnull ha
  · exact ⟨hmem, hle⟩

theorem IsLast.append (ha : IsLast le xs a) (hb : IsLast le ys b) (hane : a ≠ .null) (hbne : b ≠ .null)
    (htrans : ∀ x y z, le x y → le y z → le x z) (hle : le a b) : IsLast le (xs ++ ys) b := by
  obtain ⟨_, hxs⟩ := ha.mem hane
  obtain ⟨hmem, hys⟩ := hb.mem hbne
  refine .inr ⟨mem_append_right _ hmem, hbne, fun x hx hx' => ?_⟩
  rcases mem_append.1 hx with hx | hx
  · exact htrans x a b (hxs x hx hx') hle
  · exact hys x hx hx'

theorem mergeExtremum_spec {wins : Ordering → Bool} (htrans : ∀ x y z, le x y → le y z → le x z)
    (hwins : ∀ x y : Cell, x.kind = y.kind → x.text = y.text → ∀ m n : Int, x.number = m → y.number = n →
      if wins (compare n m) then le x y else le y x)
    (ha : IsLast le xs a) (hb : IsLast le ys b)
    (hfits : ∀ x ∈ xs ++ ys, x.isInteger ∧ ∀ y ∈ xs ++ ys, x.comparable y) :
    ∃ c, mergeExtremum wins b a = .ok c ∧ IsLast le (xs ++ ys) c := by
  by_cases hbne : b = .null
  · subst hbne
    exact ⟨a, if_pos rfl, ha.append_null hb.all_null⟩
  · by_cases hane : a = .null
    · subst hane
      refine ⟨b, ?_, (hb.append_null ha.all_null).perm perm_append_comm⟩
      unfold mergeExtremum
      rw [if_neg hbne]
    · have hamem := (ha.mem hane).1
      have hbmem := (hb.mem hbne).1
      obtain ⟨hint, hcomp⟩ := hfits a (mem_append_left _ hamem)
      obtain ⟨m, n, hm, hn, hkind, hatext, hbtext, hmerge⟩ := mergeExtremum_integer wins hane hbne hint
        (hcomp b (mem_append_right _ hbmem))
      have hle := hwins a b hkind (hatext.trans hbtext.symm) m n hm hn
      refine ⟨_, hmerge, ?_⟩
      split at hle
      · next hwin =>
        rw [if_pos hwin]
        exact ha.append hb hane hbne htrans hle
      · next hlose =>
        rw [if_neg hlose]
        exact (hb.append ha hbne hane htrans hle).perm perm_append_comm

section Integers

variable (hfits : ∀ x ∈ xs ++ ys, x.isInteger ∧ ∀ y ∈ xs ++ ys, x.comparable y)
include hfits

theorem mergeMax_spec (ha : IsLast (fun x y => x.rank ≤ y.rank) xs a)
    (hb : IsLast (fun x y => x.rank ≤ y.rank) ys b) :
    ∃ c, mergeMax b a = .ok c ∧ IsLast (fun x y => x.rank ≤ y.rank) (xs ++ ys) c := by
  unfold mergeMax
  refine mergeExtremum_spec (fun x y z hxy hyz => le_trans hxy hyz) (fun x y hkind htext m n hm hn => ?_) ha hb hfits
  rw [Cell.rank_le_iff hkind htext, Cell.rank_le_iff hkind.symm htext.symm, hm, hn, Int.cast_le, Int.cast_le]
  simp only [decide_eq_true_eq, compare_gt_iff_gt]
  split <;> omega

theorem mergeMin_spec (ha : IsLast (fun x y => y.rank ≤ x.rank) xs a)
    (hb : IsLast (fun x y => y.rank ≤ x.rank) ys b) :
    ∃ c, mergeMin b a = .ok c ∧ IsLast (fun x y => y.rank ≤ x.rank) (xs ++ ys) c := by
  unfold mergeMin
  refine mergeExtremum_spec (fun x y z hxy hyz => le_trans hyz hxy) (fun x y hkind htext m n hm hn => ?_) ha hb hfits
  rw [Cell.rank_le_iff hkind htext, Cell.rank_le_iff hkind.symm htext.symm, hm, hn, Int.cast_le, Int.cast_le]
  simp only [decide_eq_true_eq, compare_lt_iff_lt]
  split <;> omega

end Integers

end Extremum

theorem AggregateFunc.IsValue.perm (h : f.IsValue distinct xs c) (hperm : xs.Perm ys) : f.IsValue distinct ys c := by
  have hcounted : (counted distinct xs).Perm (counted distinct ys) := by
    unfold counted
    split
    · exact (hperm.filter _).dedup
    · exact hperm.filter _
  cases f with
  | count =>
    show c = _
    rw [show c = _ from h, hcounted.length_eq]
  | sum =>
    show c = _
    rw [show c = _ from h, (hcounted.map Cell.number).sum_eq]
    by_cases hnil : counted distinct xs = []
    · rw [if_pos hnil, if_pos (hnil ▸ hcounted).nil_eq.symm]
    · rw [if_neg hnil, if_neg fun h => hnil (h ▸ hcounted).eq_nil]
  | max | min =>
    unfold AggregateFunc.IsValue at h ⊢
    exact h.perm hperm

theorem AggregateFunc.merge_spec (hmerges : f.Merges distinct) (ha : f.IsValue distinct xs a)
    (hb : f.IsValue distinct ys b)
    (hfits : f.Fits (xs ++ ys)) : ∃ c, f.merge b a = .ok c ∧ f.IsValue distinct (xs ++ ys) c := by
  cases f with
  | count =>
    obtain rfl : distinct = false := hmerges
    exact mergeCount_spec ha hb hfits
  | sum =>
    obtain rfl : distinct = false := hmerges
    exact mergeSum_spec ha hb hfits
  | max => exact mergeMax_spec hfits ha hb
  | min => exact mergeMin_spec hfits ha hb

end DbProxy
