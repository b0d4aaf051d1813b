import DbProxy.Backend.Packet

/-!
# Lengths and texts on the wire

The readers of the protocol read back what its encoding wrote, at any position between other bytes.
-/

namespace DbProxy

open List

theorem bytes_succ (k n : Nat) : (range (k + 1)).map (fun i => UInt8.ofNat (n / 256 ^ i)) =
    UInt8.ofNat n :: (range k).map fun i => UInt8.ofNat (n / 256 / 256 ^ i) := by
  rw [range_succ_eq_map, map_cons, map_map, Nat.pow_zero, Nat.div_one]
  refine congrArg _ (map_congr_left fun i _ => ?_)
  show UInt8.ofNat (n / 256 ^ (i + 1)) = _
  rw [Nat.pow_succ', Nat.div_div_eq_div_mul]

theorem littleEndian_bytes (k : Nat) : ∀ n : Nat,
    littleEndian ((range k).map fun i => UInt8.ofNat (n / 256 ^ i)) = n % 256 ^ k := by
  induction k with
  | zero => exact fun n => (Nat.mod_one n).symm
  | succ k ih =>
    intro n
    have hcons : ∀ (b : UInt8) bs, littleEndian (b :: bs) = b.toNat + 256 * littleEndian bs := fun _ _ => rfl
    have hsplit : n % 256 ^ (k + 1) = n % 256 + 256 * (n / 256 % 256 ^ k) := by
      rw [Nat.pow_succ', Nat.mod_mul]
    rw [bytes_succ, hcons, ih, hsplit, UInt8.toNat_ofNat']

theorem slice_append (front middle back : GoString) {low high : Int} (hlow : low = front.length)
    (hhigh : high = (front.length + middle.length : Nat)) :
    slice (front ++ (middle ++ back)) low high = .ok middle := by
  subst hlow hhigh
  rw [slice_eq_ok _ _ _ (Nat.le_add_right _ _) (by simp), ← append_assoc, ← length_append, take_left,
    drop_left]

theorem byteAt_append (front back : GoString) (b : UInt8) : byteAt (front ++ b :: back) front.length = .ok b := by
  unfold byteAt
  rw [if_neg (by omega), Int.toNat_natCast, getElem?_append_right le_rfl, Nat.sub_self]
  rfl

theorem readWideInt_bytes {width n : Nat} (h : n < 256 ^ width) (front back : GoString) (b : UInt8) :
    readWideInt width (front ++ (b :: (range width).map (fun i => UInt8.ofNat (n / 256 ^ i)) ++ back)) front.length =
      .ok ⟨n, front.length + 1 + width, false, true⟩ := by
  have hdata : front ++ (b :: (range width).map (fun i => UInt8.ofNat (n / 256 ^ i)) ++ back) =
      (front ++ [b]) ++ ((range width).map (fun i => UInt8.ofNat (n / 256 ^ i)) ++ back) := by simp
  unfold readWideInt
  rw [if_neg (by simp only [length_append, length_cons, length_map, length_range]; omega)]
  unfold uintAt
  rw [hdata, slice_append (front ++ [b]) _ back (by simp) (by simp)]
  show Except.ok _ = _
  rw [littleEndian_bytes, Nat.mod_eq_of_lt h]

theorem readLenEncInt_lenEncInt {n : Nat} (h : n < 2 ^ 64) (front back : GoString) :
    readLenEncInt (front ++ (lenEncInt n ++ back)) front.length =
      .ok ⟨n, front.length + (lenEncInt n).length, false, true⟩ := by
  have hlength : ¬ ((front ++ (lenEncInt n ++ back)).length : Int) ≤ front.length := by
    unfold lenEncInt
    simp only [length_append]
    split_ifs <;> simp <;> omega
  have hwide : ∀ (width : Nat) (b : UInt8), n < 256 ^ width →
      lenEncInt n = b :: (range width).map (fun i => UInt8.ofNat (n / 256 ^ i)) →
      readWideInt width (front ++ (lenEncInt n ++ back)) front.length = .ok ⟨n, front.length + (lenEncInt n).length,
        false, true⟩ ∧ byteAt (front ++ (lenEncInt n ++ back)) front.length = .ok b := by
    intro width b hn hcode
    rw [hcode, readWideInt_bytes hn]
    refine ⟨?_, byteAt_append front _ b⟩
    rw [length_cons, length_map, length_range]
    congr 2
    omega
  unfold readLenEncInt
  rw [if_neg hlength]
  by_cases h₁ : n ≤ 250
  · have hcode : lenEncInt n = [UInt8.ofNat (n / 256 ^ 0)] := if_pos h₁
    have hb : (UInt8.ofNat (n / 256 ^ 0)).toNat = n := by
      rw [UInt8.toNat_ofNat', Nat.pow_zero, Nat.div_one, Nat.mod_eq_of_lt (by omega)]
    have hne : ∀ b : UInt8, 250 < b.toNat → UInt8.ofNat (n / 256 ^ 0) ≠ b := by
      rintro b hlt rfl
      omega
    rw [hcode, singleton_append, byteAt_append]
    simp only [pure, Except.pure, bind, Except.bind]
    rw [if_neg (hne _ (by decide)), if_neg (hne _ (by decide)), if_neg (hne _ (by decide)),
      if_neg (hne _ (by decide)), hb]
    rfl
  by_cases h₂ : n ≤ 0xffff
  · obtain ⟨hread, hbyte⟩ := hwide 2 0xfc (by omega) ((if_neg h₁).trans (if_pos h₂))
    rw [hbyte]
    exact hread
  by_cases h₃ : n ≤ 0xffffff
  · obtain ⟨hread, hbyte⟩ := hwide 3 0xfd (by omega) ((if_neg h₁).trans ((if_neg h₂).trans (if_pos h₃)))
    rw [hbyte]
    exact hread
  · obtain ⟨hread, hbyte⟩ := hwide 8 0xfe (by omega) ((if_neg h₁).trans ((if_neg h₂).trans (if_neg h₃)))
    rw [hbyte]
    exact hread

theorem readLenEncStringAsBytes_eq {data t : GoString} {pos start next : Int} {value : Nat} {isNull : Bool}
    (hread : readLenEncInt data pos = .ok ⟨value, start, isNull, true⟩)
    (hnext : next = toInt64 (start + toInt64 value))
    (hfits : toInt64 (start + toInt64 value - 1) < data.length) (hslice : slice data start next = .ok t) :
    readLenEncStringAsBytes data pos = .ok (some (t, next, isNull)) := by
  subst hnext
  refine Fallible.bind_eq_ok.2 ⟨_, hread, ?_⟩
  refine (if_neg Bool.false_ne_true).trans ((if_neg (Int.not_le.2 hfits)).trans ?_)
  exact Fallible.bind_eq_ok.2 ⟨t, hslice, rfl⟩

theorem readLenEncStringAsBytes_lenEncString {front back t : GoString}
    (h : (front ++ (lenEncString t ++ back)).length < 2 ^ 63) :
    readLenEncStringAsBytes (front ++ (lenEncString t ++ back)) front.length =
      .ok (some (t, (front ++ lenEncString t).length, false)) := by
  have hlength : (front ++ (lenEncString t ++ back)).length =
      front.length + (lenEncInt t.length).length + t.length + back.length := by
    simp only [lenEncString, length_append]
    omega
  have hpos : 0 < (lenEncInt t.length).length := by
    unfold lenEncInt
    dsimp only
    split_ifs <;> simp
  have hlength' : ((front ++ lenEncString t).length : Int) = front.length + (lenEncInt t.length).length +
      t.length := by
    simp only [lenEncString, length_append]
    omega
  have hdata : front ++ (lenEncString t ++ back) = (front ++ lenEncInt t.length) ++ (t ++ back) := by
    simp [lenEncString]
  rw [hlength] at h
  have hread := readLenEncInt_lenEncInt (n := t.length) (by omega) front (t ++ back)
  rw [← append_assoc, ← hdata] at hread
  refine readLenEncStringAsBytes_eq hread ?_ ?_ ?_
  · rw [hlength', toInt64_of_range (n := t.length) (by omega) (by omega), toInt64_of_range (by omega) (by omega)]
  · rw [hlength, toInt64_of_range (n := t.length) (by omega) (by omega), toInt64_of_range (by omega) (by omega)]
    omega
  · rw [hdata]
    exact slice_append (front ++ lenEncInt t.length) t back (by simp) (by simp [lenEncString, Int.add_assoc])

theorem readLenEncStringAsBytes_null {front back : GoString} (h : (front ++ 0xfb :: back).length < 2 ^ 63) :
    readLenEncStringAsBytes (front ++ 0xfb :: back) front.length =
      .ok (some ([], (front ++ [0xfb]).length, true)) := by
  have hlength : (front ++ 0xfb :: back).length = front.length + 1 + back.length := by
    simp
    omega
  have hread : readLenEncInt (front ++ 0xfb :: back) front.length = .ok ⟨0, front.length + 1, true, true⟩ := by
    unfold readLenEncInt
    rw [hlength, if_neg (by omega), byteAt_append]
    rfl
  have hdata : front ++ 0xfb :: back = (front ++ [0xfb]) ++ ([] ++ back) := by simp
  rw [hlength] at h
  refine readLenEncStringAsBytes_eq hread ?_ ?_ ?_
  · rw [toInt64_of_range (n := (0 : Nat)) (by omega) (by omega), toInt64_of_range (by omega) (by omega)]
    simp
  · rw [hlength, toInt64_of_range (n := (0 : Nat)) (by omega) (by omega), toInt64_of_range (by omega) (by omega)]
    omega
  · rw [hdata]
    exact slice_append (front ++ [0xfb]) [] back (by simp) (by simp)

/-! ### Widths -/

theorem length_lenEncInt (i : Nat) : (lenEncInt i).length = lenEncIntSize i := by
  unfold lenEncInt lenEncIntSize
  dsimp only
  split_ifs <;> first | omega | simp

theorem setBytes_append (front space back bs : GoString) (h : space.length = bs.length) :
    setBytes (front ++ (space ++ back)) front.length bs = .ok (front ++ (bs ++ back)) := by
  have hdrop : (front ++ (space ++ back)).drop (front.length + bs.length) = back := by
    rw [← h, ← append_assoc, ← length_append, drop_left]
  unfold setBytes
  rw [if_pos (by simp only [length_append]; omega), Int.toNat_natCast, take_left, hdrop]

theorem map_setBytes (data bs : GoString) (pos next : Int) :
    (do return (← setBytes data pos bs, next) : Except Fail (GoString × Int)) =
      (setBytes data pos bs).map fun data => (data, next) := by
  cases setBytes data pos bs <;> rfl

theorem writeLenEncInt_eq (data : GoString) (pos : Int) (i : Nat) :
    writeLenEncInt data pos i = (setBytes data pos (lenEncInt i)).map fun data => (data, pos + lenEncIntSize i) := by
  unfold writeLenEncInt lenEncInt lenEncIntSize
  simp only [Nat.shiftRight_eq_div_pow]
  split_ifs <;> first | omega | exact map_setBytes _ _ _ _

/-- Lengths and texts are written and read alike, at any place in a buffer. -/
theorem lenEnc_spec (i : UInt64) (front space back : GoString) (hspace : space.length = lenEncIntSize i.toNat) :
    (lenEncInt i.toNat).length = lenEncIntSize i.toNat ∧
      writeLenEncInt (front ++ (space ++ back)) front.length i.toNat =
        .ok (front ++ (lenEncInt i.toNat ++ back), front.length + lenEncIntSize i.toNat) ∧
      readLenEncInt (front ++ (lenEncInt i.toNat ++ back)) front.length =
        .ok ⟨i.toNat, front.length + lenEncIntSize i.toNat, false, true⟩ ∧
      ∀ s : GoString, (front ++ (lenEncString s ++ back)).length < 2 ^ 63 →
        readLenEncStringAsBytes (front ++ (lenEncString s ++ back)) front.length =
          .ok (some (s, (front ++ lenEncString s).length, false)) := by
  refine ⟨length_lenEncInt _, ?_, ?_, fun s hs => readLenEncStringAsBytes_lenEncString hs⟩
  · rw [writeLenEncInt_eq, setBytes_append _ _ _ _ (hspace.trans (length_lenEncInt _).symm)]
    rfl
  · rw [readLenEncInt_lenEncInt i.toNat_lt, length_lenEncInt]

theorem lenEnc_spec_letters :
    readLenEncStringAsBytes (lenEncString (ascii "ab") ++ [0]) 0 = .ok (some (ascii "ab", 3, false)) :=
  (lenEnc_spec 7 [] [0] [0] rfl).2.2.2 (ascii "ab") (by decide +kernel)

end DbProxy
