import DbProxy.Server.ClientConn
import DbProxy.Spec.Encoding

/-!
# Decoders on arbitrary bytes

The decoders against the protocol read with natural numbers: the length of a text, and the text behind it.  The source
converts a length to an `int` and adds it to a position, so that a length for which this overflows is not noticed as
too long: the slice is out of range.
-/

namespace DbProxy

open Fallible List

/-- No panic, and a result that meets `Q` if there is one. -/
def Safely {α : Type} (Q : α → Prop) (x : Except Fail α) : Prop := Fallible.Wp (fun e => ∃ msg, e = .error msg) Q x

/-! ### The protocol -/

namespace Wire

def wideLength (width : Nat) (rest : GoString) : Option (Nat × Bool × GoString) :=
  if rest.length < width then none else some (littleEndian (rest.take width), false, rest.drop width)

/-- The length in front of the bytes, whether it stands for NULL, and the bytes behind it. -/
def length : GoString → Option (Nat × Bool × GoString)
  | [] => none
  | b :: rest =>
    if b = 0xfb then some (0, true, rest)
    else if b = 0xfc then wideLength 2 rest
    else if b = 0xfd then wideLength 3 rest
    else if b = 0xfe then wideLength 8 rest
    else some (b.toNat, false, rest)

theorem length_cons (b : UInt8) (rest : GoString) : length (b :: rest) =
    if b = 0xfb then some (0, true, rest)
    else if b = 0xfc then wideLength 2 rest
    else if b = 0xfd then wideLength 3 rest
    else if b = 0xfe then wideLength 8 rest
    else some (b.toNat, false, rest) := rfl

/-- The length in front of `rest`, the end of an input of `total` bytes, ends at most at `2 ^ 63`, and `K` holds of
what follows. -/
def Fits (total : Nat) (rest : GoString) (K : Nat → Bool → GoString → Prop) : Prop :=
  match length rest with
  | none => True
  | some (n, isNull, rest) => total - rest.length + n ≤ 2 ^ 63 ∧ K n isNull rest

/-- The same for a text with its length in front: `K` holds of the text and of what follows, if it is all there. -/
def TextFits (total : Nat) (rest : GoString) (K : GoString → Bool → GoString → Prop) : Prop :=
  Fits total rest fun n isNull rest => n ≤ rest.length → K (rest.take n) isNull (rest.drop n)

def TextsFit (total : Nat) : Nat → GoString → (GoString → Prop) → Prop
  | 0, rest, K => K rest
  | m + 1, rest, K => TextFits total rest fun _ _ rest => TextsFit total m rest K

/-- The columns of a row, up to the first value that is not one of its column. -/
def RowFits (total : Nat) : GoString → List Field → Prop
  | _, [] => True
  | rest, f :: fs => TextFits total rest fun v isNull rest =>
    (isNull = true ∨ ∃ cell, f.textValue v = .ok cell) → RowFits total rest fs

/-- The fixed part of a column definition is there, and the length of the default value fits. -/
def FixedFits (total : Nat) (rest : GoString) : Prop :=
  11 ≤ rest.length ∧ (13 < rest.length → ∀ n isNull after, length (rest.drop 13) = some (n, isNull, after) →
    total - after.length + n < 2 ^ 63)

/-- A column definition.  The catalog is skipped without a look at it: with a length that goes around, the schema is
read from a position further in front. -/
def FieldFits (p : GoString) : Prop :=
  ∀ n isNull after, length p = some (n, isNull, after) →
    if n ≤ after.length then TextsFit p.length 5 (after.drop n) (FixedFits p.length)
    else p.length - after.length + n ≤ 2 ^ 63 ∨
      2 ^ 64 ≤ p.length - after.length + n ∧
        TextsFit p.length 5 (p.drop (p.length - after.length + n - 2 ^ 64)) (FixedFits p.length)

/-- The answer to the handshake: the user name starts behind 32 bytes, the length of the password stands behind it. -/
def HandshakeFits (data : GoString) : Prop :=
  9 ≤ data.length → (littleEndian (data.take 4)).testBit clientProtocol41 → 32 ≤ data.length ∧
    (0 ∈ data.drop 32 → Fits data.length ((data.drop 32).drop ((data.drop 32).idxOf 0 + 1)) fun _ _ _ => True)

theorem wideLength_eq_some {width n : Nat} {isNull : Bool} {rest after : GoString}
    (h : wideLength width rest = some (n, isNull, after)) : width ≤ rest.length ∧ n = littleEndian (rest.take width) ∧
      isNull = false ∧ after = rest.drop width := by
  unfold wideLength at h
  split at h
  · cases h
  · next hlt =>
    cases h
    exact ⟨Nat.not_lt.1 hlt, rfl, rfl, rfl⟩

theorem littleEndian_lt (bs : GoString) : littleEndian bs < 256 ^ bs.length := by
  induction bs with
  | nil => exact Nat.one_pos
  | cons b bs ih =>
    have hb := b.toNat_lt
    have hcons : littleEndian (b :: bs) = b.toNat + 256 * littleEndian bs := rfl
    rw [hcons, List.length_cons, Nat.pow_succ]
    omega

theorem length_spec {n : Nat} {isNull : Bool} {rest after : GoString} (h : length rest = some (n, isNull, after)) :
    n < 2 ^ 64 ∧ ∃ b head, rest = b :: head ++ after := by
  cases rest with
  | nil => cases h
  | cons b rest =>
    have hwide : ∀ {width : Nat}, width ≤ 8 → wideLength width rest = some (n, isNull, after) →
        n < 2 ^ 64 ∧ ∃ b' head, b :: rest = b' :: head ++ after := by
      intro width hwidth h
      obtain ⟨hle, rfl, -, rfl⟩ := wideLength_eq_some h
      have hlt := littleEndian_lt (rest.take width)
      rw [length_take, Nat.min_eq_left hle] at hlt
      refine ⟨Nat.lt_of_lt_of_le hlt (Nat.le_trans (Nat.pow_le_pow_right (by decide) hwidth) (by decide)), b,
        rest.take width, ?_⟩
      rw [cons_append, take_append_drop]
    rw [length_cons] at h
    split at h
    · cases h
      exact ⟨by decide, b, [], rfl⟩
    · split at h
      · exact hwide (by decide) h
      · split at h
        · exact hwide (by decide) h
        · split at h
          · exact hwide (by decide) h
          · cases h
            exact ⟨Nat.lt_trans b.toNat_lt (by decide), b, [], rfl⟩

end Wire

/-! ### Lengths and texts -/

section Readers

variable {front rest : GoString}

theorem readWideInt_rest (width : Nat) (b : UInt8) : readWideInt width (front ++ b :: rest) front.length =
    .ok (match Wire.wideLength width rest with
      | none => .failed
      | some (n, isNull, after) => ⟨n, (front ++ b :: rest).length - after.length, isNull, true⟩) := by
  unfold readWideInt Wire.wideLength
  by_cases hshort : rest.length < width
  · rw [if_pos hshort, if_pos (by simp; omega)]
  · have hsplit : front ++ b :: rest = (front ++ [b]) ++ (rest.take width ++ rest.drop width) := by simp
    rw [if_neg hshort, if_neg (by simp; omega)]
    refine bind_eq_ok.2 ⟨littleEndian (rest.take width), bind_eq_ok.2 ⟨rest.take width, ?_, rfl⟩, ?_⟩
    · rw [hsplit]
      exact slice_append _ _ _ (by simp) (by simp; omega)
    · show Except.ok _ = Except.ok _
      congr 2
      simp
      omega

theorem readLenEncInt_rest (front rest : GoString) : readLenEncInt (front ++ rest) front.length =
    .ok (match Wire.length rest with
      | none => .failed
      | some (n, isNull, after) => ⟨n, (front ++ rest).length - after.length, isNull, true⟩) := by
  unfold readLenEncInt
  cases rest with
  | nil => rw [if_pos (by simp)]; rfl
  | cons b rest =>
    rw [if_neg (by simp)]
    refine bind_eq_ok.2 ⟨b, byteAt_append _ _ _, ?_⟩
    have hpos : ((front ++ b :: rest).length : Int) - rest.length = front.length + 1 := by
      simp
      omega
    rw [Wire.length_cons]
    split
    · show Except.ok _ = Except.ok _
      rw [← hpos]
    · split
      · exact readWideInt_rest 2 b
      · split
        · exact readWideInt_rest 3 b
        · split
          · exact readWideInt_rest 8 b
          · show Except.ok _ = Except.ok _
            rw [← hpos]

theorem readLenEncInt_of_none (h : Wire.length rest = none) :
    readLenEncInt (front ++ rest) front.length = .ok .failed := by
  rw [readLenEncInt_rest, h]

theorem readLenEncInt_of_some {head after : GoString} {n : Nat} {isNull : Bool}
    (h : Wire.length (head ++ after) = some (n, isNull, after)) :
    readLenEncInt (front ++ (head ++ after)) front.length = .ok ⟨n, (front ++ head).length, isNull, true⟩ := by
  have hpos : ((front ++ (head ++ after)).length : Int) - after.length = (front ++ head).length := by
    simp only [length_append, Nat.cast_add]
    omega
  rw [readLenEncInt_rest, h, ← hpos]

theorem toInt64_add (pos n k : Int) : toInt64 (pos + toInt64 n + k) = toInt64 (pos + n + k) := by
  unfold toInt64
  split_ifs <;> omega

theorem toInt64_of_wrap {n : Int} (h₁ : 2 ^ 63 ≤ n) (h₂ : n < 2 ^ 64 + 2 ^ 63) : toInt64 n = n - 2 ^ 64 := by
  unfold toInt64
  split_ifs <;> omega

theorem length_check {after : GoString} {n : Nat} (hn : n < 2 ^ 64) (hlen : (front ++ after).length < 2 ^ 63) :
    (2 ^ 63 < front.length + n ∧ ¬((front ++ after).length : Int) ≤ toInt64 (front.length + toInt64 n - 1) ∧
      toInt64 (front.length + toInt64 n) = front.length + n - 2 ^ 64 ∧
      slice (front ++ after) front.length (toInt64 (front.length + toInt64 n)) = .error outOfRange) ∨
    (front.length + n ≤ 2 ^ 63 ∧ after.length < n ∧
      ((front ++ after).length : Int) ≤ toInt64 (front.length + toInt64 n - 1)) ∨
    (front.length + n ≤ 2 ^ 63 ∧ n ≤ after.length ∧
      ¬((front ++ after).length : Int) ≤ toInt64 (front.length + toInt64 n - 1) ∧
      toInt64 (front.length + toInt64 n) = (front.length + n : Nat) ∧
      slice (front ++ after) front.length (toInt64 (front.length + toInt64 n)) = .ok (after.take n)) := by
  have hlength : (front ++ after).length = front.length + after.length := length_append
  have hstop : toInt64 (front.length + toInt64 n) = toInt64 (front.length + n) := by
    have h := toInt64_add front.length n 0
    rwa [Int.add_zero, Int.add_zero] at h
  have hlast : toInt64 (front.length + toInt64 n - 1) = toInt64 (front.length + n - 1) := by
    rw [Int.sub_eq_add_neg, Int.sub_eq_add_neg, toInt64_add]
  rw [hstop, hlast, hlength]
  rw [hlength] at hlen
  rcases Nat.lt_or_ge (2 ^ 63) (front.length + n) with hwrap | hfits
  · have hstop' : toInt64 (front.length + n) = front.length + n - 2 ^ 64 := toInt64_of_wrap (by omega) (by omega)
    refine .inl ⟨hwrap, ?_, hstop', ?_⟩
    · rw [toInt64_of_wrap (by omega) (by omega)]
      omega
    · rw [hstop']
      exact if_neg (by omega)
  rcases Nat.lt_or_ge after.length n with hshort | hlong
  · refine .inr (.inl ⟨hfits, hshort, ?_⟩)
    rw [toInt64_of_range (by omega) (by omega)]
    omega
  · have hstop' : toInt64 (front.length + n) = (front.length + n : Nat) := toInt64_of_range (by omega) (by omega)
    refine .inr (.inr ⟨hfits, hlong, ?_, hstop', ?_⟩)
    · rw [toInt64_of_range (by omega) (by omega)]
      omega
    · have hslice : slice (front ++ (after.take n ++ after.drop n)) front.length (front.length + n : Nat) =
          .ok (after.take n) :=
        slice_append front (after.take n) (after.drop n) rfl (by rw [length_take, Nat.min_eq_left hlong])
      rw [take_append_drop] at hslice
      rw [hstop', hslice]

theorem readLenEncStringAsBytes_cases (front rest : GoString) (hlen : (front ++ rest).length < 2 ^ 63) :
    (Wire.length rest = none ∧ readLenEncStringAsBytes (front ++ rest) front.length = .ok none ∧
      skipLenEncString (front ++ rest) front.length = .ok none) ∨
    ∃ n isNull head after, Wire.length rest = some (n, isNull, after) ∧ rest = head ++ after ∧ n < 2 ^ 64 ∧
      ((2 ^ 63 < (front ++ head).length + n ∧
          readLenEncStringAsBytes (front ++ rest) front.length = .error outOfRange ∧
          skipLenEncString (front ++ rest) front.length = .ok (some ((front ++ head).length + n - 2 ^ 64))) ∨
        ((front ++ head).length + n ≤ 2 ^ 63 ∧ after.length < n ∧
          readLenEncStringAsBytes (front ++ rest) front.length = .ok none ∧
          skipLenEncString (front ++ rest) front.length = .ok none) ∨
        ((front ++ head).length + n ≤ 2 ^ 63 ∧ n ≤ after.length ∧
          readLenEncStringAsBytes (front ++ rest) front.length =
            .ok (some (after.take n, (front ++ head ++ after.take n).length, isNull)) ∧
          skipLenEncString (front ++ rest) front.length = .ok (some (front ++ head ++ after.take n).length))) := by
  cases hlength : Wire.length rest with
  | none =>
    have hread : readLenEncInt (front ++ rest) front.length = _ := readLenEncInt_of_none hlength
    refine .inl ⟨rfl, bind_eq_ok.2 ⟨_, hread, rfl⟩, bind_eq_ok.2 ⟨_, hread, rfl⟩⟩
  | some l =>
    obtain ⟨n, isNull, after⟩ := l
    obtain ⟨hn, b, head, rfl⟩ := Wire.length_spec hlength
    refine .inr ⟨n, isNull, b :: head, after, rfl, rfl, hn, ?_⟩
    have hread : readLenEncInt (front ++ (b :: head ++ after)) front.length = _ := readLenEncInt_of_some hlength
    rw [← append_assoc] at hread hlen ⊢
    have htotal : (front ++ b :: head ++ after.take n).length = (front ++ b :: head).length + min n after.length := by
      rw [length_append, length_take]
    rcases length_check hn hlen with ⟨hwrap, hcheck, hstop, hslice⟩ | ⟨hfits, hshort, hcheck⟩ | ⟨hfits, hlong, hcheck,
      hstop, hslice⟩
    · refine .inl ⟨hwrap, ?_, ?_⟩
      · refine (bind_of_ok hread).trans ((if_neg Bool.false_ne_true).trans ((if_neg hcheck).trans ?_))
        exact bind_of_error hslice
      · rw [← hstop]
        refine bind_eq_ok.2 ⟨_, hread, ?_⟩
        exact (if_neg Bool.false_ne_true).trans (if_neg hcheck)
    · refine .inr (.inl ⟨hfits, hshort, ?_, ?_⟩)
      · refine bind_eq_ok.2 ⟨_, hread, ?_⟩
        exact (if_neg Bool.false_ne_true).trans (if_pos hcheck)
      · refine bind_eq_ok.2 ⟨_, hread, ?_⟩
        exact (if_neg Bool.false_ne_true).trans (if_pos hcheck)
    · rw [Nat.min_eq_left hlong] at htotal
      refine .inr (.inr ⟨hfits, hlong, ?_, ?_⟩)
      · refine bind_eq_ok.2 ⟨_, hread, ?_⟩
        refine (if_neg Bool.false_ne_true).trans ((if_neg hcheck).trans ?_)
        refine bind_eq_ok.2 ⟨_, hslice, ?_⟩
        rw [hstop, htotal]
        rfl
      · refine bind_eq_ok.2 ⟨_, hread, ?_⟩
        refine (if_neg Bool.false_ne_true).trans ((if_neg hcheck).trans ?_)
        rw [hstop, htotal]
        rfl

theorem readLenEncString_eq (data : GoString) (pos : Int) :
    readLenEncString data pos =
      (readLenEncStringAsBytes data pos).map (Option.map fun r : GoString × Int × Bool => (r.1, r.2.1)) := by
  unfold readLenEncString readLenEncStringAsBytes
  cases readLenEncInt data pos with
  | error e => rfl
  | ok size =>
    show (if _ then _ else if _ then _ else _) = Except.map _ (if _ then _ else if _ then _ else _)
    split
    · rfl
    · split
      · rfl
      · cases slice data size.pos (toInt64 (size.pos + toInt64 size.value)) <;> rfl

theorem safely_readLenEncStringAsBytes_iff (hlen : (front ++ rest).length < 2 ^ 63)
    {Q : Option (GoString × Int × Bool) → Prop} {K : GoString → Bool → GoString → Prop} (hnone : Q none)
    (hsome : ∀ v isNull front' rest', front ++ rest = front' ++ rest' → v <:+: front ++ rest →
      (Q (some (v, front'.length, isNull)) ↔ K v isNull rest')) :
    Safely Q (readLenEncStringAsBytes (front ++ rest) front.length) ↔
    Wire.TextFits (front ++ rest).length rest K := by
  unfold Wire.TextFits Wire.Fits
  rcases readLenEncStringAsBytes_cases front rest hlen with ⟨hlength, hread, -⟩ | ⟨n, isNull, head, after, hlength,
    rfl, hn, hcase⟩
  · rw [hlength, hread]
    exact iff_of_true hnone trivial
  rw [hlength]
  dsimp only
  have hpos : (front ++ (head ++ after)).length - after.length = (front ++ head).length := by
    simp only [length_append]
    omega
  rw [hpos]
  rcases hcase with ⟨hwrap, hread, -⟩ | ⟨hfits, hshort, hread, -⟩ | ⟨hfits, hlong, hread, -⟩
  · rw [hread]
    refine iff_of_false ?_ fun h => Nat.not_le.2 hwrap h.1
    rintro ⟨msg, h⟩
    cases h
  · rw [hread]
    exact iff_of_true hnone ⟨hfits, fun h => absurd h (Nat.not_le.2 hshort)⟩
  · have hsplit : front ++ (head ++ after) = (front ++ head ++ after.take n) ++ after.drop n := by simp
    rw [hread]
    refine (hsome _ _ _ _ hsplit ⟨front ++ head, after.drop n, hsplit.symm⟩).trans ?_
    exact ⟨fun h => ⟨hfits, fun _ => h⟩, fun h => h.2 hlong⟩

end Readers

/-! ### Rows -/

theorem safely_bind {α β : Type} {Q : β → Prop} {x : Except Fail α} {f : α → Except Fail β} :
    Safely Q (x >>= f) ↔ Safely (fun a => Safely Q (f a)) x := wp_bind

theorem safely_error {α : Type} {Q : α → Prop} (msg : String) : Safely Q (.error (.error msg) : Except Fail α) :=
  ⟨msg, rfl⟩

theorem textValue_safely (f : Field) (v : GoString) : Safely (fun _ => True) (f.textValue v) := by
  unfold Field.textValue
  split_ifs
  · trivial
  · exact safely_error _
  · trivial
  · exact safely_error _
  · split
    · trivial
    · exact safely_error _
  · trivial
  · trivial

def Taken (data : GoString) (f : Field) (cell : Cell) : Prop :=
  cell = .null ∨ ∃ v, v <:+: data ∧ f.textValue v = .ok cell

theorem safely_parseTextFrom_iff {data : GoString} (hlen : data.length < 2 ^ 63) (fs : List Field) :
    ∀ front rest, data = front ++ rest →
      (Safely (Forall₂ (Taken data) fs) (parseTextFrom data front.length fs) ↔ Wire.RowFits data.length rest fs) := by
  induction fs with
  | nil => exact fun front rest _ => iff_of_true Forall₂.nil trivial
  | cons f fs ih =>
    rintro front rest rfl
    unfold parseTextFrom
    rw [safely_bind]
    refine safely_readLenEncStringAsBytes_iff hlen (safely_error _) ?_
    intro v isNull front' rest' hsplit hv
    have hrest := ih front' rest' hsplit
    have hcons : ∀ cell, Taken (front ++ rest) f cell →
        (Safely (Forall₂ (Taken (front ++ rest)) (f :: fs))
            (do return cell :: (← parseTextFrom (front ++ rest) front'.length fs)) ↔
          Wire.RowFits (front ++ rest).length rest' fs) := by
      intro cell hcell
      rw [← hrest, safely_bind]
      refine wp_congr fun row _ => ?_
      exact forall₂_cons.trans (and_iff_right hcell)
    dsimp only
    cases isNull with
    | true =>
      refine (hcons .null (.inl rfl)).trans ?_
      exact ⟨fun h _ => h, fun h => h (.inl rfl)⟩
    | false =>
      have hvalue := textValue_safely f v
      rw [if_neg Bool.false_ne_true, safely_bind]
      cases htext : f.textValue v with
      | error e =>
        rw [htext] at hvalue
        refine iff_of_true hvalue ?_
        rintro (h | ⟨cell, h⟩)
        · cases h
        · cases h
      | ok cell =>
        refine (hcons cell (.inr ⟨v, hv, htext⟩)).trans ?_
        exact ⟨fun h _ => h, fun h => h (.inr ⟨cell, rfl⟩)⟩

/-! ### Column definitions -/

structure Field.Within (f : Field) (data : GoString) : Prop where
  schema : f.schema <:+: data
  table : f.table <:+: data
  orgTable : f.orgTable <:+: data
  name : f.name <:+: data
  orgName : f.orgName <:+: data
  defaultValue : ∀ v ∈ f.defaultValue, v <:+: data

section Definitions

variable {data front rest : GoString}

theorem safely_readFieldString_iff (hlen : data.length < 2 ^ 63) (hdata : data = front ++ rest) (what : String)
    {Q : GoString × Int → Prop} {K : GoString → Prop}
    (h : ∀ v front' rest', data = front' ++ rest' → v <:+: data → (Q (v, front'.length) ↔ K rest')) :
    Safely Q (readFieldString what data front.length) ↔ Wire.TextFits data.length rest fun _ _ rest => K rest := by
  subst hdata
  unfold readFieldString
  rw [safely_bind]
  exact safely_readLenEncStringAsBytes_iff hlen (safely_error _) fun v isNull front' rest' hsplit hv =>
    h v front' rest' hsplit hv

theorem safely_uintAt_iff (hdata : data = front ++ rest) (width k : Nat) {Q : Nat → Prop} :
    Safely Q (uintAt width data (front.length + k : Nat)) ↔
      k + width ≤ rest.length ∧ Q (littleEndian ((rest.drop k).take width)) := by
  subst hdata
  unfold uintAt
  rw [safely_bind]
  by_cases hlong : k + width ≤ rest.length
  · have hsplit : front ++ rest = (front ++ rest.take k) ++
        ((rest.drop k).take width ++ (rest.drop k).drop width) := by
      rw [take_append_drop, append_assoc, take_append_drop]
    have hslice : slice (front ++ rest) (front.length + k : Nat) ((front.length + k : Nat) + width) =
        .ok ((rest.drop k).take width) := by
      rw [hsplit]
      exact slice_append _ _ _ (by simp; omega) (by simp; omega)
    rw [hslice]
    exact (and_iff_right hlong).symm
  · have hslice : slice (front ++ rest) (front.length + k : Nat) ((front.length + k : Nat) + width) =
      .error outOfRange :=
      if_neg (by simp only [length_append]; omega)
    rw [hslice]
    exact iff_of_false (by rintro ⟨msg, h⟩; cases h) fun h => hlong h.1

theorem safely_byteAt_iff (hdata : data = front ++ rest) (k : Nat) {Q : UInt8 → Prop} :
    Safely Q (byteAt data (front.length + k : Nat)) ↔ k < rest.length ∧ Q (rest.getD k 0) := by
  subst hdata
  unfold byteAt
  rw [if_neg (by omega), Int.toNat_natCast, getElem?_append_right (Nat.le_add_right _ _), Nat.add_sub_cancel_left,
    getD_eq_getElem?_getD]
  by_cases hlong : k < rest.length
  · rw [getElem?_eq_getElem hlong]
    exact (and_iff_right hlong).symm
  · rw [getElem?_eq_none (Nat.not_lt.1 hlong)]
    exact iff_of_false (by rintro ⟨msg, h⟩; cases h) fun h => hlong h.1

theorem readDefaultValue_of_ok {pos start : Int} {value : Nat} {isNull ok : Bool} (hpos : ¬(data.length : Int) ≤ pos)
    (hread : readLenEncInt data pos = .ok ⟨value, start, isNull, ok⟩) :
    readDefaultValue data pos =
      if data.length < toInt64 (start + toInt64 value) then .error errMalformPacket
      else (slice data start (toInt64 (start + toInt64 value))).map some := by
  unfold readDefaultValue
  rw [if_neg hpos]
  refine (bind_of_ok hread).trans ?_
  by_cases hlt : (data.length : Int) < toInt64 (start + toInt64 value)
  · exact (if_pos hlt).trans (if_pos hlt).symm
  · refine (if_neg hlt).trans (Eq.trans ?_ (if_neg hlt).symm)
    cases slice data start (toInt64 (start + toInt64 value)) <;> rfl

theorem readDefaultValue_of_some {n : Nat} {isNull : Bool} {after : GoString} (hlen : (front ++ rest).length < 2 ^ 63)
    (hwire : Wire.length rest = some (n, isNull, after)) :
    readDefaultValue (front ++ rest) front.length =
      if 2 ^ 63 ≤ (front ++ rest).length - after.length + n then .error outOfRange
      else if after.length < n then .error errMalformPacket else .ok (some (after.take n)) := by
  obtain ⟨hn, b, head, rfl⟩ := Wire.length_spec hwire
  have hbehind : ¬((front ++ (b :: head ++ after)).length : Int) ≤ front.length := by
    simp only [length_append, List.length_cons, Nat.cast_add]
    omega
  rw [readDefaultValue_of_ok hbehind (readLenEncInt_of_some hwire)]
  rw [← append_assoc] at hlen ⊢
  generalize front ++ b :: head = front at *
  have hstop : toInt64 (front.length + toInt64 n) = toInt64 (front.length + n) := by
    have h := toInt64_add front.length n 0
    rwa [Int.add_zero, Int.add_zero] at h
  rw [length_append] at hlen ⊢
  rw [hstop, Nat.add_sub_cancel]
  rcases Nat.lt_or_ge (front.length + n) (2 ^ 63) with hfits | hwrap
  · rw [toInt64_of_range (by omega) (by omega), if_neg (Nat.not_le.2 hfits)]
    rcases Nat.lt_or_ge after.length n with hshort | hlong
    · rw [if_pos (by omega), if_pos hshort]
    · have hsplit : front ++ after = front ++ (after.take n ++ after.drop n) := by rw [take_append_drop]
      have hslice : slice (front ++ after) front.length (front.length + n) = .ok (after.take n) := by
        rw [hsplit]
        exact slice_append _ _ _ rfl (by rw [length_take, Nat.min_eq_left hlong]; rfl)
      rw [if_neg (by omega), if_neg (by omega), hslice]
      rfl
  · have hslice : slice (front ++ after) front.length (front.length + n - 2 ^ 64) = .error outOfRange :=
      if_neg (by omega)
    rw [toInt64_of_wrap (by omega) (by omega), if_neg (by omega), if_pos hwrap, hslice]
    rfl

theorem safely_readDefaultValue_iff (hlen : data.length < 2 ^ 63) (hdata : data = front ++ rest) :
    Safely (fun value => ∀ v ∈ value, v <:+: data) (readDefaultValue data front.length) ↔
      ∀ n isNull after, Wire.length rest = some (n, isNull, after) → data.length - after.length + n < 2 ^ 63 := by
  subst hdata
  cases hwire : Wire.length rest with
  | none =>
    refine iff_of_true ?_ nofun
    by_cases hbehind : ((front ++ rest).length : Int) ≤ front.length
    · unfold readDefaultValue
      rw [if_pos hbehind]
      exact nofun
    · have hzero : toInt64 (0 + toInt64 (0 : Nat)) = 0 := rfl
      rw [readDefaultValue_of_ok hbehind (readLenEncInt_of_none hwire), hzero, if_neg (by omega)]
      intro v hv
      cases hv
      exact ⟨[], _, rfl⟩
  | some l =>
    obtain ⟨n, isNull, after⟩ := l
    obtain ⟨-, b, head, hrest⟩ := Wire.length_spec hwire
    rw [readDefaultValue_of_some hlen hwire]
    split_ifs with hwrap hshort
    · refine iff_of_false ?_ fun h => Nat.not_lt.2 hwrap (h _ _ _ rfl)
      rintro ⟨msg, h⟩
      cases h
    · exact iff_of_true (safely_error _) (by rintro _ _ _ ⟨⟩; exact Nat.not_le.1 hwrap)
    · refine iff_of_true ?_ (by rintro _ _ _ ⟨⟩; exact Nat.not_le.1 hwrap)
      intro v hv
      cases hv
      exact ⟨front ++ b :: head, after.drop n, by rw [append_assoc, take_append_drop, hrest, append_assoc]⟩

theorem safely_readDefaultValue_behind_iff (hlen : data.length < 2 ^ 63) (hdata : data = front ++ rest) (k : Nat)
    {Q : Option GoString → Prop} (hQ : ∀ value, Q value ↔ ∀ v ∈ value, v <:+: data) :
    Safely Q (readDefaultValue data (front.length + k : Nat)) ↔
      (k < rest.length → ∀ n isNull after, Wire.length (rest.drop k) = some (n, isNull, after) →
        data.length - after.length + n < 2 ^ 63) := by
  refine (wp_congr fun value _ => hQ value).trans ?_
  by_cases hlong : k < rest.length
  · have hsplit : data = (front ++ rest.take k) ++ rest.drop k := by
      rw [append_assoc, take_append_drop, hdata]
    have hpos : (front ++ rest.take k).length = front.length + k := by
      rw [length_append, length_take, Nat.min_eq_left (Nat.le_of_lt hlong)]
    rw [← hpos]
    exact (safely_readDefaultValue_iff hlen hsplit).trans ⟨fun h _ => h, fun h => h hlong⟩
  · refine iff_of_true ?_ fun h => absurd h hlong
    unfold readDefaultValue
    rw [if_pos (by rw [hdata, length_append]; omega)]
    exact nofun

/-- `FieldData.Parse` behind the catalog. -/
def Field.parseFrom (p : GoString) (pos : Int) : Except Fail Field := do
  let (schema, pos) ← readFieldString "Schema" p pos
  let (table, pos) ← readFieldString "Table" p pos
  let (orgTable, pos) ← readFieldString "OrgTable" p pos
  let (name, pos) ← readFieldString "Name" p pos
  let (orgName, pos) ← readFieldString "OrgName" p pos
  let charset ← uintAt 2 p (pos + 1)
  let columnLength ← uintAt 4 p (pos + 3)
  let type ← byteAt p (pos + 7)
  let flag ← uintAt 2 p (pos + 8)
  let decimal ← byteAt p (pos + 10)
  let defaultValue ← readDefaultValue p (pos + 13)
  return { schema, table, orgTable, name, orgName, charset, columnLength, type := type.toNat, flag,
           decimal := decimal.toNat, defaultValue }

theorem Field.parse_eq (p : GoString) : Field.parse p = (skipLenEncString p 0 >>= fun pos =>
    match pos with
    | some pos => Field.parseFrom p pos
    | none => throw (.error "skipLenEncString in Parse failed")) := by
  unfold Field.parse
  cases skipLenEncString p 0 with
  | error e => rfl
  | ok pos => cases pos <;> rfl

theorem safely_parseFrom_iff (hlen : data.length < 2 ^ 63) (hdata : data = front ++ rest) :
    Safely (Field.Within · data) (Field.parseFrom data front.length) ↔
      Wire.TextsFit data.length 5 rest (Wire.FixedFits data.length) := by
  unfold Field.parseFrom
  rw [safely_bind]
  refine safely_readFieldString_iff hlen hdata "Schema" fun schema front rest hdata hschema => ?_
  rw [safely_bind]
  refine safely_readFieldString_iff hlen hdata "Table" fun table front rest hdata htable => ?_
  rw [safely_bind]
  refine safely_readFieldString_iff hlen hdata "OrgTable" fun orgTable front rest hdata horgTable => ?_
  rw [safely_bind]
  refine safely_readFieldString_iff hlen hdata "Name" fun name front rest hdata hname => ?_
  rw [safely_bind]
  refine safely_readFieldString_iff hlen hdata "OrgName" fun orgName front rest hdata horgName => ?_
  -- The reads of the fixed part reach up to its eleventh byte.
  rw [safely_bind]
  refine (safely_uintAt_iff hdata 2 1).trans ?_
  rw [safely_bind]
  refine (and_congr_right' (safely_uintAt_iff hdata 4 3)).trans ?_
  rw [safely_bind]
  refine (and_congr_right' (and_congr_right' (safely_byteAt_iff hdata 7))).trans ?_
  rw [safely_bind]
  refine (and_congr_right' (and_congr_right' (and_congr_right' (safely_uintAt_iff hdata 2 8)))).trans ?_
  rw [safely_bind]
  refine (and_congr_right'
    (and_congr_right' (and_congr_right' (and_congr_right' (safely_byteAt_iff hdata 10))))).trans ?_
  rw [safely_bind]
  refine (and_congr_right' (and_congr_right' (and_congr_right' (and_congr_right' (and_congr_right'
    (safely_readDefaultValue_behind_iff hlen hdata 13 fun value => ⟨Field.Within.defaultValue,
      fun h => ⟨hschema, htable, horgTable, hname, horgName, h⟩⟩)))))).trans ?_
  constructor
  · rintro ⟨-, -, -, -, h₁, h₂⟩
    exact ⟨h₁, h₂⟩
  · rintro ⟨h₁, h₂⟩
    exact ⟨by omega, by omega, by omega, by omega, h₁, h₂⟩

theorem parseFrom_negative {p : GoString} {pos : Int} (h : pos < 0) (Q : Field → Prop) :
    ¬Safely Q (Field.parseFrom p pos) := by
  have hread : readLenEncInt p pos = .error outOfRange := by
    unfold readLenEncInt
    rw [if_neg (by omega)]
    exact bind_of_error (if_pos h)
  have hparse : Field.parseFrom p pos = .error outOfRange :=
    bind_of_error (bind_of_error (bind_of_error hread))
  rw [hparse]
  rintro ⟨msg, h⟩
  cases h

theorem safely_parse_iff (hlen : data.length < 2 ^ 63) : Safely (Field.Within · data) (Field.parse data) ↔
    Wire.FieldFits data := by
  rw [Field.parse_eq, safely_bind]
  rcases readLenEncStringAsBytes_cases [] data hlen with
    ⟨hlength, -, hskip⟩ | ⟨n, isNull, head, after, hlength, hsplit, hn, hcase⟩
  · have hskip' : skipLenEncString data 0 = .ok none := hskip
    rw [hskip']
    refine iff_of_true ⟨_, rfl⟩ ?_
    intro n isNull after h
    cases hlength.symm.trans h
  have hiff : Wire.FieldFits data ↔
      if n ≤ after.length then Wire.TextsFit data.length 5 (after.drop n) (Wire.FixedFits data.length)
      else data.length - after.length + n ≤ 2 ^ 63 ∨ 2 ^ 64 ≤ data.length - after.length + n ∧
        Wire.TextsFit data.length 5 (data.drop (data.length - after.length + n - 2 ^ 64))
          (Wire.FixedFits data.length) := by
    constructor
    · exact fun h => h n isNull after hlength
    · intro h n' isNull' after' h'
      cases hlength.symm.trans h'
      exact h
  have hlength' : data.length = head.length + after.length := by rw [hsplit, length_append]
  have hhead : data.length - after.length = head.length := by omega
  rw [hiff, hhead]
  rcases hcase with ⟨hwrap, -, hskip⟩ | ⟨hfits, hshort, -, hskip⟩ | ⟨hfits, hlong, -, hskip⟩
  · have hskip' : skipLenEncString data 0 = .ok (some (head.length + n - 2 ^ 64)) := hskip
    rw [nil_append] at hwrap
    rw [hskip', if_neg (by omega)]
    show Safely _ (Field.parseFrom data (head.length + n - 2 ^ 64)) ↔ _
    rcases Nat.lt_or_ge (head.length + n) (2 ^ 64) with hneg | hback
    · refine iff_of_false (parseFrom_negative (by omega) _) ?_
      rintro (h | ⟨h, -⟩) <;> omega
    · -- The length goes around: the next position lies in front of the catalog's end.
      have hfits : ¬head.length + n ≤ 2 ^ 63 := by omega
      rw [or_iff_right hfits, and_iff_right hback]
      have hpos : ((head.length + n : Int) - 2 ^ 64) = ((data.take (head.length + n - 2 ^ 64)).length : Nat) := by
        rw [length_take, Nat.min_eq_left (by omega)]
        omega
      rw [hpos]
      exact safely_parseFrom_iff hlen (take_append_drop _ data).symm
  · have hskip' : skipLenEncString data 0 = .ok none := hskip
    rw [hskip', if_neg (Nat.not_le.2 hshort)]
    exact iff_of_true ⟨_, rfl⟩ (.inl hfits)
  · have hskip' : skipLenEncString data 0 = .ok (some ((head ++ after.take n).length : Nat)) := hskip
    have hdata : data = (head ++ after.take n) ++ after.drop n := by
      rw [append_assoc, take_append_drop, hsplit]
    rw [hskip', if_pos hlong]
    exact safely_parseFrom_iff hlen hdata

end Definitions

/-! ### The handshake -/

section Handshake

variable {data front rest : GoString}

structure HandshakeResponse.Within (r : HandshakeResponse) (data : GoString) : Prop where
  user : r.user <:+: data
  authResponse : r.authResponse <:+: data
  database : r.database <:+: data
  authPluginName : r.authPluginName <:+: data

theorem readNullString_rest (hdata : data = front ++ rest) : readNullString data front.length =
    .ok (if 0 ∈ rest then some (rest.take (rest.idxOf 0), (front.length + (rest.idxOf 0 + 1) : Nat)) else none) := by
  subst hdata
  have hslice : slice (front ++ (rest ++ [])) front.length (front ++ rest).length = .ok rest :=
    slice_append front rest [] rfl (by rw [length_append])
  rw [append_nil] at hslice
  refine (bind_of_ok hslice).trans ?_
  by_cases hmem : 0 ∈ rest
  · have hlt : rest.idxOf 0 < rest.length := idxOf_lt_length_of_mem hmem
    have hidx : rest.idxOf? 0 = some (rest.idxOf 0) := by
      obtain ⟨i, hi⟩ := Option.isSome_iff_exists.1 (isSome_idxOf?.2 hmem)
      rw [idxOf_eq_getD_idxOf?, hi, Option.getD_some]
    have htake : slice (front ++ (rest.take (rest.idxOf 0) ++ rest.drop (rest.idxOf 0))) front.length
        (front.length + rest.idxOf 0) = .ok (rest.take (rest.idxOf 0)) :=
      slice_append _ _ _ rfl (by rw [length_take, Nat.min_eq_left (Nat.le_of_lt hlt)]; rfl)
    rw [take_append_drop] at htake
    rw [hidx, if_pos hmem]
    refine (bind_of_ok htake).trans ?_
    show Except.ok _ = Except.ok _
    rw [Int.add_assoc]
    rfl
  · rw [idxOf?_eq_none_iff.2 hmem, if_neg hmem]
    rfl

theorem split_at {k : Nat} (hdata : data = front ++ rest) (hk : k ≤ rest.length) :
    ∃ front' rest', data = front' ++ rest' ∧ front'.length = front.length + k ∧ rest' = rest.drop k := by
  refine ⟨front ++ rest.take k, rest.drop k, ?_, ?_, rfl⟩
  · rw [append_assoc, take_append_drop, hdata]
  · rw [length_append, length_take, Nat.min_eq_left hk]

theorem Safely.bind {α β : Type} {P : α → Prop} {Q : β → Prop} {x : Except Fail α} {f : α → Except Fail β}
    (hx : Safely P x) (hf : ∀ a, P a → Safely Q (f a)) : Safely Q (x >>= f) := by
  cases x with
  | error e => exact hx
  | ok a => exact hf a hx

theorem isInfix_take {n : Nat} {l : GoString} : l.take n <:+: l := ⟨[], l.drop n, take_append_drop n l⟩

theorem safely_readOptionalString (isPresent : Bool) (what : String) (hdata : data = front ++ rest) :
    Safely (fun r : GoString × Int => r.1 <:+: data ∧ ∃ front' rest' : GoString, data = front' ++ rest' ∧
      r.2 = front'.length) (readOptionalString isPresent what data front.length) := by
  unfold readOptionalString
  cases isPresent with
  | false => exact ⟨⟨[], data, rfl⟩, front, rest, hdata, rfl⟩
  | true =>
    rw [if_pos rfl, readNullString_rest hdata]
    by_cases hmem : 0 ∈ rest
    · rw [if_pos hmem]
      obtain ⟨front', rest', hsplit, hpos, -⟩ := split_at hdata (idxOf_lt_length_of_mem hmem)
      refine ⟨isInfix_take.trans ⟨front, [], by rw [hdata, append_nil]⟩, front', rest', hsplit, ?_⟩
      rw [hpos]
    · rw [if_neg hmem]
      exact safely_error _

theorem safely_ok {α : Type} {Q : α → Prop} {a : α} : Safely Q (.ok a) ↔ Q a := Iff.rfl

theorem readUint32_at (data : GoString) (k : Nat) : readUint32 data k =
    .ok (if k + 4 ≤ data.length then some (littleEndian ((data.drop k).take 4), (k + 4 : Nat)) else none) := by
  unfold readUint32
  by_cases hlong : k + 4 ≤ data.length
  · have hslice : slice (data.take k ++ ((data.drop k).take 4 ++ (data.drop k).drop 4)) k (k + (4 : Nat)) =
        .ok ((data.drop k).take 4) :=
      slice_append _ _ _ (by rw [length_take, Nat.min_eq_left (by omega)]) (by simp; omega)
    rw [take_append_drop, take_append_drop] at hslice
    rw [if_neg (by omega), if_pos hlong]
    exact bind_of_ok (bind_of_ok hslice)
  · rw [if_pos (by omega), if_neg hlong]
    rfl

theorem readByte_at (data : GoString) (k : Nat) : readByte data k =
    .ok (if k < data.length then some (data.getD k 0, (k + 1 : Nat)) else none) := by
  unfold readByte byteAt
  by_cases hlong : k < data.length
  · rw [if_neg (by omega), if_neg (by omega), if_pos hlong, Int.toNat_natCast, getD_eq_getElem?_getD,
      getElem?_eq_getElem hlong]
    rfl
  · rw [if_pos (by omega), if_neg hlong]
    rfl

theorem readBytesCopy_cases {after : GoString} {n : Nat} (hn : n < 2 ^ 64) (hlen : (front ++ after).length < 2 ^ 63) :
    (2 ^ 63 < front.length + n ∧ ∃ msg, readBytesCopy (front ++ after) front.length (toInt64 n) =
      .error (.panic msg)) ∨
    (front.length + n ≤ 2 ^ 63 ∧ readBytesCopy (front ++ after) front.length (toInt64 n) = .ok none) ∨
    (front.length + n ≤ 2 ^ 63 ∧ n ≤ after.length ∧
      readBytesCopy (front ++ after) front.length (toInt64 n) =
        .ok (some (after.take n, (front.length + n : Nat)))) := by
  unfold readBytesCopy
  rcases length_check hn hlen with ⟨hwrap, hcheck, -, hslice⟩ | ⟨hfits, -, hcheck⟩ | ⟨hfits, hlong, hcheck,
    hstop, hslice⟩
  · rw [if_neg hcheck]
    refine .inl ⟨hwrap, ?_⟩
    by_cases hneg : toInt64 n < 0
    · exact ⟨_, if_pos hneg⟩
    · exact ⟨_, (if_neg hneg).trans (bind_of_error hslice)⟩
  · rw [if_pos hcheck]
    exact .inr (.inl ⟨hfits, rfl⟩)
  · have hnonneg : ¬toInt64 n < 0 := by
      rw [length_append] at hlen
      rw [toInt64_of_range (by omega) (by omega)]
      omega
    rw [if_neg hcheck]
    refine .inr (.inr ⟨hfits, hlong, ?_⟩)
    rw [← hstop]
    exact (if_neg hnonneg).trans (bind_of_ok hslice)

theorem safely_readAuthResponse_iff (hlen : data.length < 2 ^ 63) (hdata : data = front ++ rest)
    {Q : GoString × Int → Prop} (hQ : ∀ v front' rest', data = front' ++ rest' → v <:+: data → Q (v, front'.length)) :
    Safely Q (readAuthResponse data front.length) ↔ Wire.Fits data.length rest fun _ _ _ => True := by
  subst hdata
  unfold Wire.Fits
  cases hwire : Wire.length rest with
  | none =>
    have hread : readAuthResponse (front ++ rest) front.length =
      .error (cannotRead "auth-response variable length") :=
      bind_of_ok (readLenEncInt_of_none hwire)
    rw [hread]
    exact iff_of_true (safely_error _) trivial
  | some l =>
    obtain ⟨n, isNull, after⟩ := l
    obtain ⟨hn, b, head, rfl⟩ := Wire.length_spec hwire
    have hpos : (front ++ (b :: head ++ after)).length - after.length = (front ++ b :: head).length := by
      simp only [length_append]
      omega
    have hread : readAuthResponse (front ++ (b :: head ++ after)) front.length = _ :=
      (bind_of_ok (readLenEncInt_of_some hwire)).trans (if_pos rfl)
    rw [hread]
    dsimp only
    rw [hpos, and_true]
    rw [← append_assoc] at hlen ⊢
    rcases readBytesCopy_cases hn hlen with ⟨hwrap, msg, hcopy⟩ | ⟨hfits, hcopy⟩ | ⟨hfits, hlong, hcopy⟩
    · refine iff_of_false ?_ (Nat.not_le.2 hwrap)
      rw [hcopy]
      rintro ⟨msg, h⟩
      cases h
    · rw [hcopy]
      exact iff_of_true ⟨_, rfl⟩ hfits
    · obtain ⟨front', rest', hsplit, hlength, -⟩ := split_at rfl hlong
      refine iff_of_true ?_ hfits
      rw [hcopy]
      rw [← hlength]
      rw [append_assoc] at hsplit
      refine hQ _ front' rest' hsplit ?_
      rw [← append_assoc]
      exact isInfix_take.trans (suffix_append _ _).isInfix

theorem safely_readLogin_iff (hlen : data.length < 2 ^ 63) (hdata : data = front ++ rest) (capability : Nat)
    (collationID : UInt8) :
    Safely (HandshakeResponse.Within · data) (readLogin capability collationID data front.length) ↔
      (0 ∈ rest → Wire.Fits data.length (rest.drop (rest.idxOf 0 + 1)) fun _ _ _ => True) := by
  unfold readLogin
  rw [readNullString_rest hdata]
  by_cases hmem : 0 ∈ rest
  · obtain ⟨front', rest', hsplit, hpos, hrest⟩ := split_at hdata (idxOf_lt_length_of_mem hmem)
    have huser : rest.take (rest.idxOf 0) <:+: data :=
      isInfix_take.trans ⟨front, [], by rw [hdata, append_nil]⟩
    rw [if_pos hmem, ← hpos, ← hrest]
    rw [safely_bind, safely_ok, safely_bind]
    refine (safely_readAuthResponse_iff hlen hsplit ?_).trans ⟨fun h _ => h, fun h => h hmem⟩
    intro authResponse front₁ rest₁ hsplit₁ hauth
    refine (safely_readOptionalString _ _ hsplit₁).bind ?_
    rintro ⟨database, pos⟩ ⟨hdatabase, front₂, rest₂, hsplit₂, rfl⟩
    refine (safely_readOptionalString _ _ hsplit₂).bind ?_
    rintro ⟨authPluginName, pos⟩ ⟨hplugin, -⟩
    exact ⟨huser, hauth, hdatabase, hplugin⟩
  · rw [if_neg hmem]
    exact iff_of_true ⟨_, rfl⟩ fun h => absurd h hmem

theorem safely_readHandshakeResponse_iff (hlen : data.length < 2 ^ 63) :
    Safely (HandshakeResponse.Within · data) (readHandshakeResponse data) ↔ Wire.HandshakeFits data := by
  have h0 : readUint32 data 0 = _ := readUint32_at data 0
  have h4 : readUint32 data (0 + 4 : Nat) = _ := readUint32_at data 4
  have h8 : readByte data (4 + 4 : Nat) = _ := readByte_at data 8
  have h32 : ((8 + 1 : Nat) : Int) + 23 = (32 : Nat) := rfl
  unfold readHandshakeResponse Wire.HandshakeFits
  rw [safely_bind, h0, safely_ok]
  by_cases hcapability : 0 + 4 ≤ data.length
  swap
  · rw [if_neg hcapability]
    exact iff_of_true ⟨_, rfl⟩ fun h => by omega
  rw [if_pos hcapability, drop_zero]
  dsimp only
  by_cases hflag : (littleEndian (data.take 4)).testBit clientProtocol41 = true
  swap
  · rw [if_neg hflag]
    exact iff_of_true ⟨_, rfl⟩ fun _ h => absurd h hflag
  rw [if_pos hflag, safely_bind, h4, safely_ok]
  by_cases hsize : 4 + 4 ≤ data.length
  swap
  · rw [if_neg hsize]
    exact iff_of_true ⟨_, rfl⟩ fun h => by omega
  rw [if_pos hsize]
  dsimp only
  rw [safely_bind, h8, safely_ok]
  by_cases hcollation : 8 < data.length
  swap
  · rw [if_neg hcollation]
    exact iff_of_true ⟨_, rfl⟩ fun h => by omega
  rw [if_pos hcollation]
  dsimp only
  rw [h32]
  by_cases huser : 32 ≤ data.length
  · have hpos : (data.take 32).length = 32 := by rw [length_take, Nat.min_eq_left huser]
    have hlogin := safely_readLogin_iff hlen (take_append_drop 32 data).symm (littleEndian (data.take 4))
      (data.getD 8 0)
    rw [hpos] at hlogin
    refine hlogin.trans ?_
    exact ⟨fun h _ _ => ⟨huser, h⟩, fun h => (h hcollation hflag).2⟩
  · have hslice : slice data (32 : Nat) data.length = .error outOfRange := if_neg (by omega)
    have hlogin : readLogin (littleEndian (data.take 4)) (data.getD 8 0) data (32 : Nat) = .error outOfRange :=
      bind_of_error (bind_of_error hslice)
    rw [hlogin]
    refine iff_of_false ?_ fun h => huser (h hcollation hflag).1
    rintro ⟨msg, h⟩
    cases h

end Handshake

/-! ### All decoders -/

end DbProxy
