import DbProxy.Router.Mycat
import DbProxy.Spec.Numerals

/-!
# Segments

The segments of a partition are read from two lists of numbers.  The check of a configuration compares only the end of
the last segment with 1024; filling the table of segments also needs that no boundary lies outside of it.
-/

namespace DbProxy

open Fallible List
variable {segment lengths xs ai counts : List Int} {i a : Int} {s partitionCount partitionLengths : GoString}
  {shardNum : Nat} {e : Fail}

def SegmentsInRange (counts lengths : List Int) : Prop :=
  ∀ a ∈ (segmentLengths counts lengths).scanl (· + ·) 0, 0 ≤ a ∧ a ≤ partitionLength

instance (counts lengths : List Int) : Decidable (SegmentsInRange counts lengths) :=
  inferInstanceAs (Decidable (∀ a ∈ (segmentLengths counts lengths).scanl (· + ·) 0, 0 ≤ a ∧ a ≤ partitionLength))

/-! ### Filling the table -/

theorem fillSegment_eq_ok {segment' : List Int} {low high : Int} : fillSegment segment i low high = .ok segment' ↔
    (low < high → 0 ≤ low ∧ high ≤ segment.length) ∧
      segment' = segment.mapIdx fun j v => if low ≤ j ∧ j < high then i else v := by
  unfold fillSegment
  split
  · next h =>
    refine iff_of_false (fun heq => by cases heq) fun hok => ?_
    have := hok.1 h.1
    omega
  · next h =>
    rw [Except.ok.injEq, eq_comm (a := segment'), and_iff_right]
    intro hlt
    omega

theorem fillSegments_ok_iff (ai : List Int) (segment : List Int) (i : Int) :
    (∃ segment', fillSegments segment i ai = .ok segment') ↔
    ai.IsChain fun low high : Int => low < high → 0 ≤ low ∧ high ≤ segment.length := by
  induction ai generalizing segment i with
  | nil => exact iff_of_true ⟨segment, rfl⟩ .nil
  | cons low ai ih =>
    cases ai with
    | nil => exact iff_of_true ⟨segment, rfl⟩ (.singleton low)
    | cons high ai =>
      rw [isChain_cons_cons]
      constructor
      · rintro ⟨segment', h⟩
        obtain ⟨filled, hfill, hrest⟩ := bind_eq_ok.1 h
        obtain ⟨hfits, rfl⟩ := fillSegment_eq_ok.1 hfill
        have hchain := (ih _ _).1 ⟨segment', hrest⟩
        rw [length_mapIdx] at hchain
        exact ⟨hfits, hchain⟩
      · rintro ⟨hfits, hchain⟩
        have hfill := (fillSegment_eq_ok (i := i)).2 ⟨hfits, rfl⟩
        rw [← length_mapIdx (f := fun j v => if low ≤ j ∧ j < high then i else v)] at hchain
        obtain ⟨segment', hrest⟩ := (ih _ (i + 1)).2 hchain
        exact ⟨segment', bind_eq_ok.2 ⟨_, hfill, hrest⟩⟩

/-! ### Boundaries -/

/-- Boundaries that only grow inside of the table and end in it never leave it: no way leads back from below. -/
theorem inRange_of_chain {f : Int → Int → Int} {bound : Int} (lengths : List Int) (ha : a ≤ bound)
    (hchain : (lengths.scanl f a).IsChain fun low high : Int => low < high → 0 ≤ low ∧ high ≤ bound)
    (hlast : ∀ b ∈ (lengths.scanl f a).getLast?, 0 ≤ b) : ∀ b ∈ lengths.scanl f a, 0 ≤ b ∧ b ≤ bound := by
  induction lengths generalizing a with
  | nil =>
    intro b hb
    obtain rfl := mem_singleton.1 hb
    exact ⟨hlast b rfl, ha⟩
  | cons length lengths ih =>
    rw [scanl_cons] at hchain hlast ⊢
    obtain ⟨tail, htail⟩ : ∃ tail, lengths.scanl f (f a length) = f a length :: tail := by
      cases lengths with
      | nil => exact ⟨[], rfl⟩
      | cons x xs => exact ⟨_, scanl_cons⟩
    obtain ⟨hstep, hchain⟩ : (a < f a length → 0 ≤ a ∧ f a length ≤ bound) ∧
        (lengths.scanl f (f a length)).IsChain fun low high : Int => low < high → 0 ≤ low ∧ high ≤ bound := by
      rw [htail] at hchain ⊢
      exact isChain_cons_cons.1 hchain
    have hrest : ∀ b ∈ lengths.scanl f (f a length), 0 ≤ b ∧ b ≤ bound := by
      refine ih (by omega) hchain ?_
      intro b hb
      refine hlast b ?_
      rw [htail] at hb ⊢
      rw [getLast?_cons_cons]
      exact hb
    have hnext := hrest (f a length) (htail ▸ mem_cons_self)
    intro b hb
    rcases mem_cons.1 hb with rfl | hb
    · omega
    · exact hrest b hb

theorem scanl_toInt64_inRange (lengths : List Int) (hlengths : ∀ x ∈ lengths, -2 ^ 63 ≤ x ∧ x < 2 ^ 63) (h₀ : 0 ≤ a)
    (h₁ : a ≤ 1024) : (∀ b ∈ lengths.scanl (fun a x => toInt64 (a + x)) a, 0 ≤ b ∧ b ≤ 1024) ↔
      ∀ b ∈ lengths.scanl (· + ·) a, 0 ≤ b ∧ b ≤ 1024 := by
  induction lengths generalizing a with
  | nil => exact Iff.rfl
  | cons x lengths ih =>
    obtain ⟨hx, hlengths⟩ := forall_mem_cons.1 hlengths
    rw [scanl_cons, scanl_cons, forall_mem_cons, forall_mem_cons]
    refine and_congr_right fun _ => ?_
    have hhead : ∀ {f : Int → Int → Int} {b : Int}, b ∈ lengths.scanl f b := by
      intro f b
      cases lengths with
      | nil => exact mem_singleton_self b
      | cons y ys => exact scanl_cons ▸ mem_cons_self
    by_cases hin : 0 ≤ a + x ∧ a + x ≤ 1024
    · rw [toInt64_of_range (by omega) (by omega)]
      exact ih hlengths hin.1 hin.2
    · refine iff_of_false (fun h => hin ?_) fun h => hin (h _ hhead)
      obtain ⟨hlow, hhigh⟩ := h _ hhead
      unfold toInt64 at hlow hhigh
      split at hlow <;> omega

theorem toIntArray_range {numbers : List Int} (h : toIntArray s = .ok numbers) :
    ∀ x ∈ numbers, -2 ^ 63 ≤ x ∧ x < 2 ^ 63 := by
  intro x hx
  obtain ⟨text, -, htext⟩ := exists_of_mem (mapM_eq_ok.1 h).flip hx
  unfold atoiErr atoi at htext
  split at htext
  · next n hn =>
    split at hn
    · cases hn
      cases htext
      exact parseInt_range text
    · cases hn
  · cases htext

theorem segmentLengths_range (counts : List Int) (h : toIntArray s = .ok lengths) :
    ∀ x ∈ segmentLengths counts lengths, -2 ^ 63 ≤ x ∧ x < 2 ^ 63 := by
  intro x hx
  obtain ⟨⟨count, length⟩, hmem, hx⟩ := mem_flatMap.1 hx
  obtain rfl := (mem_replicate.1 hx).2
  exact toIntArray_range h x (of_mem_zip hmem).2

theorem getLast?_boundaries (xs : List Int) (ha : toInt64 a = a) :
    (xs.scanl (fun a x => toInt64 (a + x)) a).getLast? = some (toInt64 (a + xs.sum)) := by
  induction xs generalizing a with
  | nil => rw [sum_nil, Int.add_zero, ha]; rfl
  | cons x xs ih =>
    have hwrap : toInt64 (toInt64 (a + x)) = toInt64 (a + x) :=
      toInt64_of_range (toInt64_range _).1 (toInt64_range _).2
    have hsum : toInt64 (toInt64 (a + x) + xs.sum) = toInt64 (a + (x + xs.sum)) := by
      unfold toInt64
      split_ifs <;> omega
    rw [scanl_cons, getLast?_cons, ih hwrap, sum_cons, hsum]
    rfl

theorem getLast?_boundaries_iff (hfit : xs.length ≤ shardNum) :
    (xs.scanl (fun a length => toInt64 (a + length)) 0 ++ replicate (shardNum - xs.length) 0).getLast? =
      some partitionLength ↔ xs.length = shardNum ∧ toInt64 xs.sum = partitionLength := by
  rw [getLast?_append, getLast?_replicate, getLast?_boundaries _ rfl, Int.zero_add]
  split
  · next hfull => exact Option.some_inj.trans (and_iff_right (by omega)).symm
  · next hplaces => exact iff_of_false (fun h => by cases h) fun h => hplaces (by omega)

theorem sum_mem_scanl (xs : List Int) (a : Int) : a + xs.sum ∈ xs.scanl (· + ·) a := by
  induction xs generalizing a with
  | nil => exact mem_singleton.2 (Int.add_zero a)
  | cons x xs ih =>
    rw [scanl_cons, sum_cons, ← Int.add_assoc]
    exact mem_cons_of_mem _ (ih (a + x))

theorem fillSegments_inRange_iff (hrange : ∀ x ∈ xs, -2 ^ 63 ≤ x ∧ x < 2 ^ 63)
    (hend : toInt64 xs.sum = partitionLength) : (∃ segment, fillSegments (replicate partitionLength.toNat 0) 0
      (xs.scanl (fun a length => toInt64 (a + length)) 0) = .ok segment) ↔
    ∀ a ∈ xs.scanl (· + ·) 0, 0 ≤ a ∧ a ≤ partitionLength := by
  rw [fillSegments_ok_iff, length_replicate]
  refine Iff.trans ?_ (scanl_toInt64_inRange xs hrange le_rfl (by decide))
  constructor
  · intro hchain
    refine inRange_of_chain _ (by decide) hchain fun b hb => ?_
    rw [getLast?_boundaries _ rfl, Int.zero_add, hend] at hb
    cases hb
    decide
  · intro hin
    refine Pairwise.isChain (pairwise_of_forall_mem_list fun low hlow high hhigh _ => ?_)
    exact ⟨(hin low hlow).1, (hin high hhigh).2⟩

/-- The boundaries of an accepted partition: there are no places behind the last segment, which ends at 1024. -/
theorem partitionBoundaries_eq
    (h : partitionBoundaries shardNum partitionCount partitionLengths = .ok ai)
    (hcounts : toIntArray partitionCount = .ok counts) (hlengths : toIntArray partitionLengths = .ok lengths) :
    ai = (segmentLengths counts lengths).scanl (fun a x => toInt64 (a + x)) 0 ∧
      toInt64 (segmentLengths counts lengths).sum = partitionLength := by
  unfold partitionBoundaries at h
  rw [bind_of_ok hcounts, bind_of_ok hlengths] at h
  split at h
  · cases h
  split at h
  · cases h
  obtain ⟨ai', hboundaries, h⟩ := bind_eq_ok.1 h
  split at h
  · cases h
  next hlast =>
  cases h
  unfold boundaries at hboundaries
  split at hboundaries
  · cases hboundaries
  next hfit =>
  cases hboundaries
  obtain ⟨hfull, hend⟩ := (getLast?_boundaries_iff (Nat.not_lt.1 hfit)).1 (not_not.1 hlast)
  rw [hfull, Nat.sub_self, replicate_zero, append_nil]
  exact ⟨rfl, hend⟩

theorem initPartitionLong_ok_iff
    (h : partitionBoundaries shardNum partitionCount partitionLengths = .ok ai)
    (hcounts : toIntArray partitionCount = .ok counts) (hlengths : toIntArray partitionLengths = .ok lengths) :
    (∃ segment, initPartitionLong shardNum partitionCount partitionLengths = .ok segment) ↔
    SegmentsInRange counts lengths := by
  obtain ⟨rfl, hend⟩ := partitionBoundaries_eq h hcounts hlengths
  unfold initPartitionLong
  rw [bind_of_ok h]
  exact fillSegments_inRange_iff (segmentLengths_range counts hlengths) hend

/-! ### The filled table -/

/-- A table of segments with these lengths: the shards in their order, each as often as its segment is long. -/
structure SegmentTable (shardNum : Nat) (lengths segment : List Int) : Prop where
  size : segment.length = partitionLength
  sorted : segment.Pairwise (· ≤ ·)
  values : ∀ i ∈ segment, 0 ≤ i ∧ i < shardNum
  counts : ∀ (k : Nat) (length : Int), lengths[k]? = some length → segment.count (k : Int) = length

/-- The segments one after the other, numbered from `i` on. -/
def segmentBlocks : Int → List Int → List Int
  | _, [] => []
  | i, x :: xs => replicate x.toNat i ++ segmentBlocks (i + 1) xs

theorem mem_segmentBlocks {v : Int} (h : v ∈ segmentBlocks i xs) : i ≤ v ∧ v < i + xs.length := by
  induction xs generalizing i with
  | nil => cases h
  | cons x xs ih =>
    rw [length_cons]
    rcases mem_append.1 h with h | h
    · obtain rfl := (mem_replicate.1 h).2
      omega
    · have := ih h
      omega

theorem segmentBlocks_sorted (i : Int) (xs : List Int) : (segmentBlocks i xs).Pairwise (· ≤ ·) := by
  induction xs generalizing i with
  | nil => exact .nil
  | cons x xs ih =>
    refine pairwise_append.2 ⟨pairwise_replicate.2 (.inr le_rfl), ih (i + 1), ?_⟩
    intro a ha b hb
    obtain rfl := (mem_replicate.1 ha).2
    have := mem_segmentBlocks hb
    omega

theorem length_segmentBlocks (i : Int) (h : ∀ x ∈ xs, 0 ≤ x) : (segmentBlocks i xs).length = xs.sum := by
  induction xs generalizing i with
  | nil => rfl
  | cons x xs ih =>
    obtain ⟨hx, h⟩ := forall_mem_cons.1 h
    have hrest := ih (i + 1) h
    rw [segmentBlocks, length_append, length_replicate, sum_cons]
    omega

theorem count_segmentBlocks {x : Int} {k : Nat} (h : xs[k]? = some x) (hx : 0 ≤ x) :
    (segmentBlocks i xs).count (i + k) = x := by
  induction xs generalizing i k with
  | nil => cases h
  | cons y xs ih =>
    rw [segmentBlocks, count_append, count_replicate]
    cases k with
    | zero =>
      obtain rfl := Option.some.inj h
      have hrest : (segmentBlocks (i + 1) xs).count (i + (0 : Nat)) = 0 := by
        refine count_eq_zero.2 fun hmem => ?_
        have := mem_segmentBlocks hmem
        omega
      rw [hrest, if_pos (by simp)]
      omega
    | succ k =>
      have hrest := ih (i := i + 1) h
      have hindex : i + 1 + (k : Int) = i + (k + 1 : Nat) := by omega
      rw [hindex] at hrest
      rw [if_neg (by simp; omega), Nat.zero_add, hrest]

theorem fillSegment_block (front : List Int) (i : Int) (x n : Nat) :
    fillSegment (front ++ replicate (x + n) 0) i front.length (front.length + x) =
      .ok (front ++ replicate x i ++ replicate n 0) := by
  refine fillSegment_eq_ok.2 ⟨fun _ => ⟨by omega, by simp⟩, ?_⟩
  refine ext_getElem (by simp) fun j h₁ h₂ => ?_
  rw [getElem_mapIdx]
  simp only [getElem_append, getElem_replicate, length_append, length_replicate]
  split_ifs <;> first | rfl | omega

theorem fillSegments_blocks (xs : List Int) (front : List Int) (i : Int) (h : ∀ x ∈ xs, 0 ≤ x)
    (hsum : front.length + xs.sum = partitionLength) :
    fillSegments (front ++ replicate xs.sum.toNat 0) i (xs.scanl (fun a x => toInt64 (a + x)) front.length) =
      .ok (front ++ segmentBlocks i xs) := by
  induction xs generalizing front i with
  | nil => rfl
  | cons x xs ih =>
    obtain ⟨hx, h⟩ := forall_mem_cons.1 h
    have hnonneg : 0 ≤ xs.sum := length_segmentBlocks 0 h ▸ Int.natCast_nonneg _
    rw [sum_cons] at hsum ⊢
    unfold partitionLength at hsum
    have hnext : toInt64 (front.length + x) = (front ++ replicate x.toNat i).length := by
      rw [toInt64_of_range (by omega) (by omega), length_append, length_replicate]
      omega
    have hplaces : (x + xs.sum).toNat = x.toNat + xs.sum.toNat := by omega
    have hstop : (front.length : Int) + x.toNat = (front ++ replicate x.toNat i).length := by
      rw [length_append, length_replicate]
      rfl
    have hfill := fillSegment_block front i x.toNat xs.sum.toNat
    have hrest := ih (front ++ replicate x.toNat i) (i + 1) h (by rw [← hstop]; unfold partitionLength; omega)
    obtain ⟨tail, htail⟩ : ∃ tail, xs.scanl (fun a x => toInt64 (a + x))
      ((front ++ replicate x.toNat i).length : Int) = ((front ++ replicate x.toNat i).length : Int) :: tail := by
      cases xs with
      | nil => exact ⟨[], rfl⟩
      | cons y ys => exact ⟨_, scanl_cons⟩
    rw [scanl_cons, hnext, htail, hplaces]
    rw [hstop] at hfill
    rw [htail] at hrest
    refine (bind_of_ok hfill).trans (hrest.trans ?_)
    rw [segmentBlocks, append_assoc]

theorem fillSegments_error (h : fillSegments segment i ai = .error e) :
    ∃ msg, e = .panic msg := by
  induction ai generalizing segment i with
  | nil => cases h
  | cons low ai ih =>
    cases ai with
    | nil => cases h
    | cons high ai =>
      unfold fillSegments at h
      cases hfill : fillSegment segment i low high with
      | ok filled => exact ih ((bind_of_ok hfill).symm.trans h)
      | error e' =>
        cases (bind_of_error hfill).symm.trans h
        unfold fillSegment at hfill
        split at hfill
        · cases hfill
          exact ⟨_, rfl⟩
        · cases hfill

/-- The lengths that an accepted partition declares: there are no more segments than shards, and when they end at 1024
in 64 bits, none is negative and they fill the table. -/
def SegmentsDeclared (shardNum : Nat) (partitionCount partitionLengths : GoString) : Prop :=
  ∀ counts, toIntArray partitionCount = .ok counts → ∀ lengths, toIntArray partitionLengths = .ok lengths →
    counts.length = lengths.length → toInt64 counts.sum = shardNum →
    (segmentLengths counts lengths).length ≤ shardNum ∧
      ((segmentLengths counts lengths).length = shardNum → toInt64 (segmentLengths counts lengths).sum =
        partitionLength →
        (∀ x ∈ segmentLengths counts lengths, 0 ≤ x) ∧ (segmentLengths counts lengths).sum = partitionLength)

theorem toIntArray_error (h : toIntArray s = .error e) : ∃ msg, e = .error msg := by
  unfold toIntArray at h
  generalize (s.filter (· ≠ 32)).splitOn 44 = texts at h
  induction texts with
  | nil => cases h
  | cons text texts ih =>
    rw [mapM_cons] at h
    cases htext : atoiErr text with
    | error e' =>
      cases (bind_of_error htext).symm.trans h
      unfold atoiErr at htext
      split at htext
      · cases htext
      · cases htext
        exact ⟨_, rfl⟩
    | ok n =>
      rw [bind_of_ok htext] at h
      cases hrest : texts.mapM atoiErr with
      | error e' =>
        cases (bind_of_error hrest).symm.trans h
        exact ih hrest
      | ok ns => cases (bind_of_ok hrest).symm.trans h

/-- Which partitions are refused or filled in as they are declared. -/
theorem initPartitionLong_declared_iff (shardNum : Nat) (partitionCount partitionLengths : GoString) :
    Wp (fun e => ∃ msg, e = .error msg) (fun segment => ∀ counts, toIntArray partitionCount = .ok counts →
        ∀ lengths, toIntArray partitionLengths = .ok lengths →
        SegmentTable shardNum (segmentLengths counts lengths) segment)
      (initPartitionLong shardNum partitionCount partitionLengths) ↔
    SegmentsDeclared shardNum partitionCount partitionLengths := by
  unfold initPartitionLong partitionBoundaries SegmentsDeclared
  cases hcounts : toIntArray partitionCount with
  | error e => exact iff_of_true (toIntArray_error hcounts) fun _ h => by cases h
  | ok counts =>
  cases hlengths : toIntArray partitionLengths with
  | error e => exact iff_of_true (toIntArray_error hlengths) fun _ _ _ h => by cases h
  | ok lengths =>
  simp only [Except.ok.injEq, forall_eq', bind, Except.bind]
  by_cases hlen : counts.length = lengths.length
  swap
  · rw [if_pos hlen]
    exact iff_of_true ⟨_, rfl⟩ fun h => absurd h hlen
  by_cases hsum : toInt64 counts.sum = shardNum
  swap
  · rw [if_neg (not_not.2 hlen), if_pos hsum]
    exact iff_of_true ⟨_, rfl⟩ fun _ h => absurd h hsum
  rw [if_neg (not_not.2 hlen), if_neg (not_not.2 hsum), forall_prop_of_true hlen, forall_prop_of_true hsum]
  have hrange := segmentLengths_range counts hlengths
  unfold boundaries
  generalize segmentLengths counts lengths = xs at *
  by_cases hfit : xs.length ≤ shardNum
  swap
  · rw [if_pos (Nat.not_le.1 hfit)]
    exact iff_of_false (by rintro ⟨msg, h⟩; cases h) fun h => hfit h.1
  rw [if_neg (Nat.not_lt.2 hfit)]
  simp only [ne_eq, getLast?_boundaries_iff hfit]
  by_cases hend : xs.length = shardNum ∧ toInt64 xs.sum = partitionLength
  swap
  · rw [if_pos hend]
    exact iff_of_true ⟨_, rfl⟩ ⟨hfit, fun h₁ h₂ => absurd ⟨h₁, h₂⟩ hend⟩
  rw [if_neg (not_not.2 hend)]
  obtain ⟨rfl, hend⟩ := hend
  rw [Nat.sub_self, replicate_zero, append_nil]
  constructor
  · intro hwp
    refine ⟨hfit, fun _ _ => ?_⟩
    dsimp only at hwp
    cases hfill : fillSegments (replicate partitionLength.toNat 0) 0
      (xs.scanl (fun a length => toInt64 (a + length)) 0) with
    | error e =>
      obtain ⟨msg, rfl⟩ := fillSegments_error hfill
      rw [hfill] at hwp
      obtain ⟨msg', h⟩ := hwp
      cases h
    | ok segment =>
      rw [hfill] at hwp
      have hsum := (fillSegments_inRange_iff hrange hend).1 ⟨segment, hfill⟩ _ (sum_mem_scanl xs 0)
      unfold partitionLength at hsum
      rw [toInt64_of_range (by omega) (by omega)] at hend
      refine ⟨fun x hx => ?_, hend⟩
      obtain ⟨k, hk⟩ := mem_iff_getElem?.1 hx
      rw [← hwp.counts k x hk]
      exact Int.natCast_nonneg _
  · rintro ⟨-, h⟩
    obtain ⟨hnonneg, htotal⟩ := h rfl hend
    have hfill := fillSegments_blocks xs [] 0 hnonneg (by rw [htotal]; rfl)
    rw [htotal, nil_append, nil_append] at hfill
    have hfill' : fillSegments (replicate partitionLength.toNat 0) 0
        (xs.scanl (fun a length => toInt64 (a + length)) 0) = _ := hfill
    dsimp only
    rw [hfill']
    refine ⟨(length_segmentBlocks 0 hnonneg).trans htotal, segmentBlocks_sorted 0 _, fun i hi => ?_,
      fun k length hk => ?_⟩
    · have := mem_segmentBlocks hi
      omega
    · have := count_segmentBlocks (i := 0) hk (hnonneg length (mem_of_getElem? hk))
      rwa [Int.zero_add] at this

/-- A segment that leaves the table, and a segment more than there are shards. -/
theorem initPartitionLong_undeclared :
    initPartitionLong 2 (ascii "1,1") (ascii "2048,-1024") = .error (.panic "index out of range") ∧
    initPartitionLong 1 (ascii "-1,2") (ascii "0,512") = .error (.panic "index out of range") := by
  decide +kernel

end DbProxy
