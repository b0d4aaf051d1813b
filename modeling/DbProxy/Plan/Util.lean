import DbProxy.Lib.SortedMerge
import Mathlib.Data.List.Sort
import Mathlib.Data.Int.Order.Basic

/-!
# Lists of table indexes

The lists that routing computes with.  A route is a strictly increasing list of indexes; the functions here keep
it so, and their membership lemmas say which indexes they keep.
-/

namespace DbProxy

open List
open SortedMerge (Reaches)

/-- A route: indexes in strictly increasing order. -/
abbrev Increasing (l : List Int) : Prop := l.Pairwise (· < ·)

/-- The integers from `start` up to, and without, `stop`. -/
def makeList (start stop : Int) : List Int :=
  if start ≥ stop then [] else (range (stop - start).toNat).map (fun i : Nat => start + i)

def interList (l1 l2 : List Int) : List Int :=
  if l1.isEmpty || l2.isEmpty then [] else SortedMerge.inter l1 l2

def unionList (l1 l2 : List Int) : List Int :=
  if l1.isEmpty then l2 else if l2.isEmpty then l1 else SortedMerge.union l1 l2

def differentList (l1 l2 : List Int) : List Int :=
  if l1.isEmpty then [] else if l2.isEmpty then l1 else SortedMerge.diff l1 l2

/-- `sort.Ints`. -/
def sortInts (l : List Int) : List Int := l.insertionSort (· ≤ ·)

/-! ### Intervals -/

theorem mem_makeList {start stop i : Int} : i ∈ makeList start stop ↔ start ≤ i ∧ i < stop := by
  unfold makeList
  split
  · simp only [not_mem_nil, false_iff]
    omega
  · simp only [mem_map, mem_range]
    constructor
    · rintro ⟨j, hj, rfl⟩
      omega
    · intro h
      exact ⟨(i - start).toNat, by omega, by omega⟩

theorem increasing_makeList (start stop : Int) : Increasing (makeList start stop) := by
  unfold makeList
  split
  · exact Pairwise.nil
  · rw [Increasing, pairwise_map]
    exact pairwise_lt_range.imp (fun h => by omega)

/-! ### Intersection and union -/

theorem interList_eq (l1 l2 : List Int) : interList l1 l2 = SortedMerge.inter l1 l2 := by
  unfold interList
  cases l1 <;> cases l2 <;> simp

theorem unionList_eq (l1 l2 : List Int) : unionList l1 l2 = SortedMerge.union l1 l2 := by
  unfold unionList
  cases l1 <;> cases l2 <;> simp

theorem mem_interList {l1 l2 : List Int} (h1 : Increasing l1) (h2 : Increasing l2) {i : Int} :
    i ∈ interList l1 l2 ↔ i ∈ l1 ∧ i ∈ l2 := by
  rw [interList_eq]
  exact SortedMerge.mem_inter h1 h2

theorem mem_of_mem_interList {l1 l2 : List Int} {i : Int} (h : i ∈ interList l1 l2) : i ∈ l1 ∧ i ∈ l2 := by
  rw [interList_eq] at h
  exact SortedMerge.mem_of_mem_inter h

theorem increasing_interList {l1 l2 : List Int} (h1 : Increasing l1) (h2 : Increasing l2) :
    Increasing (interList l1 l2) := by
  rw [interList_eq]
  exact SortedMerge.inter_pairwise h1 h2

theorem mem_unionList {l1 l2 : List Int} {i : Int} : i ∈ unionList l1 l2 ↔ i ∈ l1 ∨ i ∈ l2 := by
  rw [unionList_eq]
  exact SortedMerge.mem_union

theorem increasing_unionList {l1 l2 : List Int} (h1 : Increasing l1) (h2 : Increasing l2) :
    Increasing (unionList l1 l2) := by
  rw [unionList_eq]
  exact SortedMerge.union_pairwise h1 h2

theorem reaches_interList {l1 l2 : List Int} {i : Int} (h1 : Reaches i l1) (h2 : Reaches i l2) :
    Reaches i (interList l1 l2) := by
  rw [interList_eq]
  exact h1.inter h2

theorem reaches_unionList {l1 l2 : List Int} {i : Int} (h : Reaches i l1 ∨ Reaches i l2) :
    Reaches i (unionList l1 l2) := by
  rw [unionList_eq]
  exact h.elim (·.union_left l2) (·.union_right l1)

theorem differentList_eq (l1 l2 : List Int) : differentList l1 l2 = SortedMerge.diff l1 l2 := by
  unfold differentList
  cases l1 <;> cases l2 <;> simp

/-- The lists of indexes are sets, and the functions on them are those of sets. -/
theorem index_sets (l1 l2 : List Int) (h1 : Increasing l1) (h2 : Increasing l2) :
    (Increasing (interList l1 l2) ∧ ∀ i, i ∈ interList l1 l2 ↔ i ∈ l1 ∧ i ∈ l2) ∧
      (Increasing (unionList l1 l2) ∧ ∀ i, i ∈ unionList l1 l2 ↔ i ∈ l1 ∨ i ∈ l2) ∧
      Increasing (differentList l1 l2) ∧ ∀ i, i ∈ differentList l1 l2 ↔ i ∈ l1 ∧ i ∉ l2 := by
  have hdiff : Increasing (differentList l1 l2) ∧ ∀ i, i ∈ differentList l1 l2 ↔ i ∈ l1 ∧ i ∉ l2 := by
    rw [differentList_eq]
    exact ⟨h1.sublist SortedMerge.diff_sublist, fun i => SortedMerge.mem_diff h1 h2⟩
  exact ⟨⟨increasing_interList h1 h2, fun i => mem_interList h1 h2⟩,
    ⟨increasing_unionList h1 h2, fun i => mem_unionList⟩, hdiff⟩

theorem index_sets_three : Increasing [1, 2, 4] ∧ Increasing [2, 3] ∧ 4 ∈ differentList [1, 2, 4] [2, 3] :=
  ⟨by decide, by decide, ((index_sets [1, 2, 4] [2, 3] (by decide) (by decide)).2.2.2 4).2 (by decide)⟩

/-! ### Sorting -/

theorem mem_sortInts {l : List Int} {i : Int} : i ∈ sortInts l ↔ i ∈ l :=
  (perm_insertionSort _ l).mem_iff

theorem increasing_sortInts {l : List Int} (h : l.Nodup) : Increasing (sortInts l) := by
  have hle : (sortInts l).Pairwise (· ≤ ·) := pairwise_insertionSort _ l
  have hne : (sortInts l).Nodup := (perm_insertionSort _ l).nodup_iff.2 h
  exact (hle.and hne).imp fun h => lt_of_le_of_ne h.1 h.2

end DbProxy
