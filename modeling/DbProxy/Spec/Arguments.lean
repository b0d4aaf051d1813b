import DbProxy.Server.Prepared
import DbProxy.Spec.Encoding
import DbProxy.Spec.Numerals

/-!
# Arguments in the binary protocol

The encoding of the parameters of an execute packet: the bitmap of the parameters that are NULL, two bytes for each
type, and one behind the other the values that are not NULL.  A value is read back from its place; of a temporal value
it is the packed fields that are read, not the text that stands for it in a statement.
-/

namespace DbProxy

open Effect PreparedStmt Fallible List

/-- A number in `width` bytes, the lowest first. -/
def leBytes (width n : Nat) : GoString := (range width).map fun i => UInt8.ofNat (n / 256 ^ i)

@[simp] theorem length_leBytes (width n : Nat) : (leBytes width n).length = width := by simp [leBytes]

def padded (width n : Nat) : GoString := (ascii n.repr).leftpad width 48

inductive Temporal where
  | date (year month day : Nat)
  | datetime (year month day hour minute second micro : Nat)
  | time (negative : Bool) (days hour minute second micro : Nat)
  deriving DecidableEq, Repr

namespace Temporal

/-- `DATE` and `NEWDATE`; `DATETIME` and `TIMESTAMP`; `TIME`. -/
def types : Temporal → List UInt8
  | date .. => [10, 14]
  | datetime .. => [12, 7]
  | time .. => [11]

def Valid : Temporal → Prop
  | date year month day => year ≤ 9999 ∧ month ≤ 12 ∧ day ≤ 31
  | datetime year month day hour minute second micro =>
    year ≤ 9999 ∧ month ≤ 12 ∧ day ≤ 31 ∧ hour ≤ 23 ∧ minute ≤ 59 ∧ second ≤ 59 ∧ micro ≤ 999999
  | time _ days hour minute second micro => days ≤ 34 ∧ hour ≤ 23 ∧ minute ≤ 59 ∧ second ≤ 59 ∧ micro ≤ 999999

instance : (t : Temporal) → Decidable t.Valid
  | date .. => inferInstanceAs (Decidable (_ ∧ _))
  | datetime .. => inferInstanceAs (Decidable (_ ∧ _))
  | time .. => inferInstanceAs (Decidable (_ ∧ _))

def fields : Temporal → GoString
  | date year month day => leBytes 2 year ++ leBytes 1 month ++ leBytes 1 day ++ leBytes 3 0 ++ leBytes 4 0
  | datetime year month day hour minute second micro =>
    leBytes 2 year ++ leBytes 1 month ++ leBytes 1 day ++ (leBytes 1 hour ++ leBytes 1 minute ++ leBytes 1 second) ++
      leBytes 4 micro
  | time negative days hour minute second micro =>
    leBytes 1 negative.toNat ++ leBytes 4 days ++ leBytes 1 hour ++ leBytes 1 minute ++ leBytes 1 second ++
      leBytes 4 micro

/-- The lengths a value can be sent with. -/
def lengths : Temporal → List Nat
  | time .. => [0, 8, 12]
  | _ => [0, 4, 7, 11]

/-- Only fields that are zero are left out. -/
def Packs (t : Temporal) (k : Nat) : Prop := k ∈ t.lengths ∧ ∀ b ∈ t.fields.drop k, b = 0

def clock (hour minute second micro : Nat) : GoString :=
  padded 2 hour ++ ascii ":" ++ padded 2 minute ++ ascii ":" ++ padded 2 second ++
    if micro = 0 then [] else ascii "." ++ padded 6 micro

def day (year month day : Nat) : GoString := padded 4 year ++ ascii "-" ++ padded 2 month ++ ascii "-" ++ padded 2 day

def text : Temporal → GoString
  | date year month day => Temporal.day year month day
  | datetime year month day hour minute second micro =>
    Temporal.day year month day ++ ascii " " ++ clock hour minute second micro
  | time negative days hour minute second micro =>
    (if negative then ascii "-" else []) ++ clock (24 * days + hour) minute second micro

end Temporal

inductive ParamValue where
  | null
  | int (n : Int)
  | text (v : GoString)
  | temporal (t : Temporal) (length : Nat)
  deriving DecidableEq, Repr

/-- A parameter: its type, the flag byte with the sign, and its value. -/
structure Param where
  type : UInt8
  flags : UInt8
  value : ParamValue
  deriving DecidableEq, Repr

namespace Param

def isUnsigned (p : Param) : Bool := p.flags.toNat.testBit 7

def intWidth (type : UInt8) : Option Nat :=
  if type = 1 then some 1
  else if type = 2 ∨ type = 13 then some 2
  else if type = 9 ∨ type = 3 then some 4
  else if type = 8 then some 8
  else none

def textTypes : List UInt8 := [0, 0xf6, 15, 16, 0xf7, 0xf8, 0xf9, 0xfa, 0xfb, 0xfc, 0xfd, 0xfe, 0xff, 0xf5]

def InRange (isUnsigned : Bool) (width : Nat) (n : Int) : Prop :=
  if isUnsigned then 0 ≤ n ∧ n < 2 ^ (8 * width) else -2 ^ (8 * width - 1) ≤ n ∧ n < 2 ^ (8 * width - 1)

instance (isUnsigned : Bool) (width : Nat) (n : Int) : Decidable (InRange isUnsigned width n) :=
  inferInstanceAs (Decidable (if isUnsigned = true then _ else _))

def Valid (p : Param) : Prop :=
  match p.value with
  | .null => True
  | .int n => ∃ width, intWidth p.type = some width ∧ InRange p.isUnsigned width n
  | .text _ => p.type ∈ textTypes
  | .temporal t k => p.type ∈ t.types ∧ t.Valid ∧ t.Packs k

def encode (p : Param) : GoString :=
  match p.value with
  | .null => []
  | .int n =>
    let width := (intWidth p.type).getD 0
    leBytes width (n % 2 ^ (8 * width)).toNat
  | .text v => lenEncString v
  | .temporal t k => UInt8.ofNat k :: t.fields.take k

def arg (p : Param) : StmtArg :=
  match p.value with
  | .null => .nil
  | .int n => .int n
  | .text v => .bytes v
  | .temporal t _ => .bytes t.text

def IsTemporal (p : Param) : Prop := ∃ t k, p.value = .temporal t k

def typeBytes (ps : List Param) : GoString := ps.flatMap fun p => [p.type, p.flags]

def valueBytes (ps : List Param) : GoString := ps.flatMap encode

/-- Bit `i` is set when parameter `i` is NULL. -/
def IsBitmap (ps : List Param) (bitmap : GoString) : Prop :=
  bitmap.length = (ps.length + 7) / 8 ∧
    ∀ i (p : Param), ps[i]? = some p → (bitmap.getD (i / 8) 0).toNat.testBit (i % 8) = decide (p.value = .null)

def received (p : Param) : StmtArg :=
  match p.value with
  | .temporal t k => .bytes (t.fields.take k)
  | _ => p.arg

end Param

/-! ### The text of a temporal value is not its packed form -/

namespace Temporal

variable {t : Temporal} {k : Nat}

theorem padded_printable (width n : Nat) : ∀ b ∈ padded width n, 32 ≤ b := by
  intro b hb
  rcases mem_append.1 hb with hb | hb
  · rw [eq_of_mem_replicate hb]
    decide
  · have hdigit := all_eq_true.1 (repr_all_isDigit n) b hb
    simp only [isDigit, Bool.and_eq_true, decide_eq_true_eq] at hdigit
    exact UInt8.le_trans (by decide) hdigit.1

theorem padded_ne_nil (width n : Nat) : padded width n ≠ [] :=
  append_ne_nil_of_right_ne_nil _ (repr_ne_nil n)

theorem printable_append {s t : GoString} (hs : ∀ b ∈ s, 32 ≤ b) (ht : ∀ b ∈ t, 32 ≤ b) :
    ∀ b ∈ s ++ t, (32 : UInt8) ≤ b :=
  fun b hb => (mem_append.1 hb).elim (hs b) (ht b)

theorem clock_printable (hour minute second micro : Nat) : ∀ b ∈ clock hour minute second micro, 32 ≤ b := by
  have hcolon : ∀ b ∈ ascii ":", (32 : UInt8) ≤ b := by decide +kernel
  have hfraction : ∀ b ∈ (if micro = 0 then [] else ascii "." ++ padded 6 micro), (32 : UInt8) ≤ b := by
    split
    · exact fun b hb => nomatch hb
    · exact printable_append (by decide +kernel) (padded_printable _ _)
  exact printable_append
    (printable_append (printable_append (printable_append (printable_append (padded_printable _ _)
    hcolon) (padded_printable _ _)) hcolon) (padded_printable _ _)) hfraction

theorem day_printable (year month day : Nat) : ∀ b ∈ Temporal.day year month day, 32 ≤ b := by
  have hdash : ∀ b ∈ ascii "-", (32 : UInt8) ≤ b := by decide +kernel
  exact printable_append (printable_append (printable_append (printable_append (padded_printable _ _) hdash)
    (padded_printable _ _)) hdash) (padded_printable _ _)

theorem text_printable (t : Temporal) : ∀ b ∈ t.text, 32 ≤ b := by
  cases t with
  | date year month day => exact day_printable year month day
  | datetime year month day hour minute second micro =>
    exact printable_append (printable_append (day_printable _ _ _) (by decide +kernel)) (clock_printable _ _ _ _)
  | time negative days hour minute second micro =>
    refine printable_append ?_ (clock_printable _ _ _ _)
    cases negative
    · exact fun b hb => nomatch hb
    · decide +kernel

theorem text_ne_nil (t : Temporal) : t.text ≠ [] := by
  have hday : ∀ year month day, Temporal.day year month day ≠ [] := fun _ _ _ =>
    append_ne_nil_of_right_ne_nil _ (padded_ne_nil _ _)
  cases t with
  | date year month day => exact hday year month day
  | datetime year month day hour minute second micro =>
    exact append_ne_nil_of_left_ne_nil (append_ne_nil_of_left_ne_nil (hday _ _ _) _) _
  | time negative days hour minute second micro =>
    refine append_ne_nil_of_right_ne_nil _ (append_ne_nil_of_left_ne_nil ?_ _)
    exact append_ne_nil_of_right_ne_nil _ (padded_ne_nil _ _)

theorem ofNat_control {n : Nat} (h : n ≤ 12) : UInt8.ofNat (n / 256 ^ 0) < 32 := by
  rw [UInt8.lt_iff_toNat_lt, UInt8.toNat_ofNat', Nat.pow_zero, Nat.div_one, Nat.mod_eq_of_lt (by omega)]
  exact Nat.lt_of_le_of_lt h (by decide)

theorem exists_control (ht : t.Valid) (hk : k ∈ t.lengths) (h₀ : k ≠ 0) :
    ∃ b ∈ t.fields.take k, b < 32 := by
  have hat : ∀ {i : Nat} {b : UInt8}, i < k → t.fields[i]? = some b → b ∈ t.fields.take k := fun hi hb =>
    mem_of_getElem? ((getElem?_take_of_lt hi).trans hb)
  cases t with
  | date year month day =>
    have hlong : 2 < k := by
      simp only [lengths, mem_cons, not_mem_nil, or_false] at hk
      omega
    exact ⟨_, hat hlong rfl, ofNat_control ht.2.1⟩
  | datetime year month day hour minute second micro =>
    have hlong : 2 < k := by
      simp only [lengths, mem_cons, not_mem_nil, or_false] at hk
      omega
    exact ⟨_, hat hlong rfl, ofNat_control ht.2.1⟩
  | time negative days hour minute second micro =>
    exact ⟨_, hat (Nat.pos_of_ne_zero h₀) rfl, ofNat_control (Nat.le_trans negative.toNat_le (by decide))⟩

theorem fields_take_ne_text (ht : t.Valid) (hk : k ∈ t.lengths) : t.fields.take k ≠ t.text := by
  intro h
  by_cases h₀ : k = 0
  · rw [h₀] at h
    exact t.text_ne_nil h.symm
  · obtain ⟨b, hb, hlt⟩ := exists_control ht hk h₀
    rw [h] at hb
    exact UInt8.not_le.2 hlt (t.text_printable b hb)

theorem length_take_fields (hk : k ∈ t.lengths) : (t.fields.take k).length = k ∧ k ≤ 12 := by
  rw [length_take]
  cases t <;> simp only [lengths, fields, mem_cons, not_mem_nil, or_false, length_append, length_leBytes] at hk ⊢ <;>
    omega

end Temporal

/-! ### One value -/

section Values

variable {front back : GoString}
variable {width n : Nat} {isUnsigned : Bool} {type : UInt8}

theorem uintAt_leBytes (h : n < 256 ^ width) :
    uintAt width (front ++ (leBytes width n ++ back)) front.length = .ok n := by
  unfold uintAt
  rw [slice_append front (leBytes width n) back rfl (by simp)]
  show Except.ok (littleEndian (leBytes width n)) = _
  rw [leBytes, littleEndian_bytes, Nat.mod_eq_of_lt h]

theorem fixedArg_leBytes (h : n < 256 ^ width) (f : Nat → StmtArg) :
    fixedArg width (front ++ (leBytes width n ++ back)) front.length f =
      .ok (f n, (front ++ leBytes width n).length) := by
  unfold fixedArg
  rw [if_neg (by simp), uintAt_leBytes h]
  simp only [bind, Except.bind, pure, Except.pure, length_append, length_leBytes, Nat.cast_add]

theorem intArg_residue (hw : 0 < width) {n : Int} (h : Param.InRange isUnsigned width n) :
    intArg width isUnsigned (n % 2 ^ (8 * width)).toNat = .int n := by
  have hdouble : (2 : Int) ^ (8 * width) = 2 * 2 ^ (8 * width - 1) := by
    rw [← pow_succ']
    congr 1
    omega
  have hhalf : (0 : Int) < 2 ^ (8 * width - 1) := pow_pos (by decide) _
  have hcast : ((2 ^ (8 * width - 1) : Nat) : Int) = 2 ^ (8 * width - 1) := by push_cast; rfl
  have hresidue : ∀ m : Int, 0 ≤ m → m < 2 ^ (8 * width) → m % 2 ^ (8 * width) = m := fun m => Int.emod_eq_of_lt
  unfold intArg
  unfold Param.InRange at h
  cases isUnsigned with
  | true =>
    obtain ⟨h₀, hlt⟩ := h
    rw [if_pos (.inl rfl), hresidue n h₀ hlt, Int.toNat_of_nonneg h₀]
  | false =>
    obtain ⟨hge, hlt⟩ := h
    rcases Int.lt_or_le n 0 with hneg | h₀
    · have hmod : n % 2 ^ (8 * width) = n + 2 ^ (8 * width) := by
        rw [← Int.add_emod_right]
        exact hresidue _ (by omega) (by omega)
      rw [hmod, if_neg (by simp only [Bool.false_eq_true, false_or]; omega), Int.toNat_of_nonneg (by omega)]
      congr 1
      omega
    · rw [hresidue n h₀ (by omega), if_pos (.inr (by omega)), Int.toNat_of_nonneg h₀]

theorem readArg_int (go : FloatText) (htype : Param.intWidth type = some width)
    {n : Int} (h : Param.InRange isUnsigned width n) :
    readArg go type isUnsigned (front ++ (leBytes width (n % 2 ^ (8 * width)).toNat ++ back)) front.length =
      .ok (.int n, (front ++ leBytes width (n % 2 ^ (8 * width)).toNat).length) := by
  have hlt : (n % 2 ^ (8 * width)).toNat < 256 ^ width := by
    have hpos : (0 : Int) < 2 ^ (8 * width) := pow_pos (by decide) _
    have hmod := Int.emod_lt_of_pos n hpos
    have hpow : ((256 ^ width : Nat) : Int) = 2 ^ (8 * width) := by
      push_cast
      rw [pow_mul]
      rfl
    omega
  have hfixed : 0 < width → fixedArg width (front ++ (leBytes width (n % 2 ^ (8 * width)).toNat ++ back)) front.length
      (intArg width isUnsigned) = .ok (.int n, (front ++ leBytes width (n % 2 ^ (8 * width)).toNat).length) := by
    intro hw
    rw [fixedArg_leBytes hlt, intArg_residue hw h]
  have hnot : ∀ {t : UInt8}, Param.intWidth t = none → type ≠ t := by
    rintro t ht rfl
    rw [ht] at htype
    cases htype
  unfold readArg
  rw [if_neg (hnot (by decide))]
  unfold Param.intWidth at htype
  split_ifs at htype with h₁ h₂ h₄ h₈ <;> cases htype
  · rw [if_pos h₁]
    exact hfixed (by decide)
  · rw [if_neg h₁, if_pos h₂]
    exact hfixed (by decide)
  · rw [if_neg h₁, if_neg h₂, if_pos h₄]
    exact hfixed (by decide)
  · rw [if_neg h₁, if_neg h₂, if_neg h₄, if_pos h₈]
    exact hfixed (by decide)

theorem readArg_string (go : FloatText) (htype : type ∈ stringTypes) (isUnsigned : Bool) {v : GoString}
    (h : (front ++ (lenEncString v ++ back)).length < 2 ^ 63) :
    readArg go type isUnsigned (front ++ (lenEncString v ++ back)) front.length =
      .ok (.bytes v, (front ++ lenEncString v).length) := by
  have hnot : ∀ {t : UInt8}, t ∉ stringTypes → type ≠ t := by
    rintro t ht rfl
    exact ht htype
  have hlong : ¬((front ++ (lenEncString v ++ back)).length : Int) < front.length + 1 := by
    have hpos : 0 < (lenEncInt v.length).length := by
      unfold lenEncInt
      dsimp only
      split_ifs <;> simp
    simp only [lenEncString, length_append, Nat.cast_add]
    omega
  unfold readArg
  rw [if_neg (hnot (by decide)), if_neg (hnot (by decide)), if_neg (not_or.2 ⟨hnot (by decide), hnot (by decide)⟩),
    if_neg (not_or.2 ⟨hnot (by decide), hnot (by decide)⟩), if_neg (hnot (by decide)), if_neg (hnot (by decide)),
    if_neg (hnot (by decide)), if_pos htype, if_neg hlong]
  exact bind_eq_ok.2 ⟨_, readLenEncStringAsBytes_lenEncString h, rfl⟩

theorem Temporal.lenEncString_take {t : Temporal} {k : Nat} (hk : k ∈ t.lengths) :
    lenEncString (t.fields.take k) = UInt8.ofNat k :: t.fields.take k := by
  obtain ⟨hlength, hle⟩ := Temporal.length_take_fields hk
  unfold lenEncString lenEncInt
  rw [hlength]
  dsimp only
  rw [if_pos (by omega)]
  show UInt8.ofNat (k / 256 ^ 0) :: t.fields.take k = _
  rw [Nat.pow_zero, Nat.div_one]

theorem readArg_encode (go : FloatText) {p : Param} (hp : p.Valid) (hnull : p.value ≠ .null)
    (h : (front ++ (p.encode ++ back)).length < 2 ^ 63) :
    readArg go p.type p.isUnsigned (front ++ (p.encode ++ back)) front.length =
      .ok (p.received, (front ++ p.encode).length) := by
  obtain ⟨type, flags, value⟩ := p
  cases value with
  | null => exact absurd rfl hnull
  | int n =>
    obtain ⟨width, htype, hrange⟩ := hp
    have hencode : Param.encode ⟨type, flags, .int n⟩ = leBytes width (n % 2 ^ (8 * width)).toNat := by
      simp only [Param.encode, htype, Option.getD_some]
    rw [hencode]
    exact readArg_int go htype hrange
  | text v =>
    have hsub : ∀ t ∈ Param.textTypes, t ∈ stringTypes := by decide +kernel
    exact readArg_string go (hsub _ hp) _ h
  | temporal t k =>
    obtain ⟨htype, -, hk, -⟩ := hp
    have hencode : Param.encode ⟨type, flags, .temporal t k⟩ = lenEncString (t.fields.take k) :=
      (Temporal.lenEncString_take hk).symm
    have hsub : ∀ tp ∈ t.types, tp ∈ stringTypes := by
      cases t <;> simp only [Temporal.types] <;> decide +kernel
    rw [hencode] at h ⊢
    exact readArg_string go (hsub _ htype) _ h

end Values

/-! ### All values -/

section Binding

variable {ps : List Param}

theorem length_typeBytes (ps : List Param) : (Param.typeBytes ps).length = 2 * ps.length := by
  induction ps with
  | nil => rfl
  | cons p ps ih =>
    have hcons : Param.typeBytes (p :: ps) = [p.type, p.flags] ++ Param.typeBytes ps := flatMap_cons
    rw [hcons, length_append, ih, length_cons, length_cons, length_cons, length_nil]
    omega

theorem typeBytes_at (before rest : List Param) (p : Param) :
    byteAt (Param.typeBytes (before ++ p :: rest)) (2 * before.length : Nat) = .ok p.type ∧
      byteAt (Param.typeBytes (before ++ p :: rest)) (2 * before.length + 1 : Nat) = .ok p.flags := by
  have hsplit : Param.typeBytes (before ++ p :: rest) =
      Param.typeBytes before ++ p.type :: (p.flags :: Param.typeBytes rest) := by
    simp [Param.typeBytes]
  have hsplit' : Param.typeBytes (before ++ p :: rest) =
      (Param.typeBytes before ++ [p.type]) ++ p.flags :: Param.typeBytes rest := by
    simp [Param.typeBytes]
  constructor
  · rw [hsplit, ← length_typeBytes]
    exact byteAt_append _ _ _
  · have hlength : 2 * before.length + 1 = (Param.typeBytes before ++ [p.type]).length := by
      rw [length_append, length_typeBytes]
      rfl
    rw [hsplit', hlength]
    exact byteAt_append _ _ _

theorem bitmap_at {bitmap : GoString} (hbitmap : Param.IsBitmap ps bitmap) {i : Nat} (hi : i < ps.length) :
    byteAt bitmap (i / 8 : Nat) = .ok (bitmap.getD (i / 8) 0) := by
  have hlt : i / 8 < bitmap.length := by
    rw [hbitmap.1]
    omega
  unfold byteAt
  rw [if_neg (by omega), Int.toNat_natCast, getD_eq_getElem?_getD, getElem?_eq_getElem hlt, Option.getD_some]

theorem liftExcept_bind {σ α β : Type} {x : Except Fail α} {a : α} (h : x = .ok a) {f : α → Effect Fail σ β} {s : σ} :
    ((liftExcept x : Effect Fail σ α) >>= f) s = f a s := by
  subst h
  rfl

theorem bindFrom_encoded (go : FloatText) {bitmap : GoString} (hvalid : ∀ p ∈ ps, p.Valid)
    (hbitmap : Param.IsBitmap ps bitmap) (hlength : (Param.valueBytes ps).length < 2 ^ 63) (rest : List Param) :
    ∀ before, before ++ rest = ps →
      bindFrom go bitmap (Param.typeBytes ps) (Param.valueBytes ps) rest.length before.length
          (Param.valueBytes before).length (before.map Param.received ++ replicate rest.length .nil) =
        (.ok (), ps.map Param.received) := by
  induction rest with
  | nil =>
    rintro before rfl
    simp [bindFrom]
  | cons p rest ih =>
    intro before hps
    have hnext := ih (before ++ [p]) (by rw [append_assoc, singleton_append, hps])
    have hlt : before.length < ps.length := by
      rw [← hps]
      simp
    have hat : ps[before.length]? = some p := by
      rw [← hps, getElem?_append_right (Nat.le_refl _), Nat.sub_self]
      rfl
    have hset : ∀ arg : StmtArg, (before.map Param.received ++ replicate (rest.length + 1) StmtArg.nil).set
      before.length arg = before.map Param.received ++ arg :: replicate rest.length StmtArg.nil := by
      intro arg
      rw [set_append_right _ _ (by simp), length_map, Nat.sub_self, replicate_succ, set_cons_zero]
    have hnil : (before.map Param.received ++ replicate (rest.length + 1) StmtArg.nil)[before.length]? =
        some .nil := by
      rw [getElem?_append_right (by simp), length_map, Nat.sub_self, replicate_succ, getElem?_cons_zero]
    have hargs : (before ++ [p]).map Param.received ++ replicate rest.length StmtArg.nil =
        before.map Param.received ++ p.received :: replicate rest.length StmtArg.nil := by simp
    rw [length_append, length_singleton, hargs] at hnext
    rw [length_cons]
    unfold bindFrom
    rw [liftExcept_bind (bitmap_at hbitmap hlt), hbitmap.2 _ p hat]
    by_cases hnull : p.value = .null
    · have hencode : Param.valueBytes (before ++ [p]) = Param.valueBytes before := by
        simp [Param.valueBytes, Param.encode, hnull]
      have hreceived : p.received = .nil := by simp [Param.received, Param.arg, hnull]
      rw [hencode, hreceived, ← hset] at hnext
      rw [if_pos (decide_eq_true hnull)]
      exact hnext
    · have hvalues : Param.valueBytes ps = Param.valueBytes before ++ (p.encode ++ Param.valueBytes rest) := by
        rw [← hps]
        simp [Param.valueBytes]
      have hencode : Param.valueBytes (before ++ [p]) = Param.valueBytes before ++ p.encode := by
        simp [Param.valueBytes]
      have htypes : ¬(Param.typeBytes ps).length ≤ 2 * before.length + 1 := by
        rw [length_typeBytes]
        omega
      have hread := readArg_encode go (hvalid p (mem_of_getElem? hat)) hnull (by rw [← hvalues]; exact hlength)
      rw [← hvalues, ← hencode, Param.isUnsigned] at hread
      obtain ⟨htype, hflags⟩ := hps ▸ typeBytes_at before rest p
      rw [if_neg (by simp [hnull]), if_neg htypes, liftExcept_bind htype, liftExcept_bind hflags, bind_ok get_apply]
      rw [if_pos hnil, liftExcept_bind hread]
      dsimp only
      rw [bind_ok (modify_apply _), hset]
      exact hnext

/-- An execute packet: its head, the bitmap, the types if they are bound anew, and the values. -/
def executePacket (head bitmap : GoString) (rebound : Bool) (ps : List Param) : GoString :=
  head ++ (bitmap ++ ((if rebound then 1 :: Param.typeBytes ps else [0]) ++ Param.valueBytes ps))

theorem executeParts_executePacket {head bitmap : GoString} (hhead : head.length = 9)
    (hbitmap : bitmap.length = (ps.length + 7) / 8) (rebound : Bool) :
    executeParts ps.length (executePacket head bitmap rebound ps) =
      .ok ⟨bitmap, if rebound then some (Param.typeBytes ps) else none, Param.valueBytes ps⟩ := by
  have hpos : ((head ++ bitmap).length : Int) = 9 + ((ps.length + 7) / 8 : Nat) := by
    rw [length_append, hhead, hbitmap]
    rfl
  have hslice : slice (executePacket head bitmap rebound ps) 9 (9 + ((ps.length + 7) / 8 : Nat)) = .ok bitmap :=
    slice_append head bitmap _ (by rw [hhead]; rfl) (by rw [← hpos, length_append])
  have hsplit : ∀ (b : UInt8) (back : GoString), executePacket head bitmap rebound ps =
    (head ++ bitmap) ++ b :: back →
      byteAt (executePacket head bitmap rebound ps) (9 + (ps.length + 7) / 8 : Nat) = .ok b ∧
        (executePacket head bitmap rebound ps).length = 9 + (ps.length + 7) / 8 + 1 + back.length := by
    intro b back hpacket
    constructor
    · have hbyte := byteAt_append (head ++ bitmap) back b
      rw [hpos, ← hpacket] at hbyte
      exact hbyte
    · rw [hpacket, length_append, length_append, length_cons, hhead, hbitmap]
      omega
  -- The rest of the packet behind the flag, cut at a position.
  have hcut : ∀ (b : UInt8) (front middle back : GoString) {low high : Int},
      executePacket head bitmap rebound ps = (head ++ bitmap) ++ b :: (front ++ (middle ++ back)) →
      low = 9 + ((ps.length + 7) / 8 : Nat) + 1 + front.length → high = low + middle.length →
      slice (executePacket head bitmap rebound ps) low high = .ok middle := by
    intro b front middle back low high hpacket hlow hhigh
    have hlength : (((head ++ bitmap) ++ b :: front).length : Int) = low := by
      rw [hlow, length_append, Nat.cast_add, hpos, length_cons, Nat.cast_add, Nat.cast_one]
      omega
    have happend : executePacket head bitmap rebound ps = ((head ++ bitmap) ++ b :: front) ++ (middle ++ back) := by
      rw [hpacket]
      simp
    rw [happend]
    exact slice_append _ middle back hlength.symm (by rw [hhigh, Nat.cast_add, hlength])
  cases rebound with
  | true =>
    have hpacket : executePacket head bitmap true ps =
        (head ++ bitmap) ++ 1 :: (Param.typeBytes ps ++ Param.valueBytes ps) := by simp [executePacket]
    obtain ⟨hbyte, hlength⟩ := hsplit _ _ hpacket
    rw [length_append, length_typeBytes] at hlength
    have htypes : slice (executePacket head bitmap true ps) (9 + ((ps.length + 7) / 8 : Nat) + 1)
        (9 + ((ps.length + 7) / 8 : Nat) + 1 + 2 * ps.length) = .ok (Param.typeBytes ps) :=
      hcut 1 [] _ (Param.valueBytes ps) hpacket (by rw [length_nil]; omega) (by rw [length_typeBytes]; omega)
    have hvalues : slice (executePacket head bitmap true ps) (9 + ((ps.length + 7) / 8 : Nat) + 1 + 2 * ps.length)
        (executePacket head bitmap true ps).length = .ok (Param.valueBytes ps) :=
      hcut 1 (Param.typeBytes ps) _ [] (by rw [hpacket, append_nil]) (by rw [length_typeBytes]; omega)
        (by rw [hlength]; omega)
    unfold executeParts
    refine (if_neg (by omega)).trans (bind_eq_ok.2 ⟨_, hslice, bind_eq_ok.2 ⟨_, hbyte, ?_⟩⟩)
    refine (if_pos rfl).trans ((if_neg (by omega)).trans ?_)
    exact bind_eq_ok.2 ⟨_, htypes, bind_eq_ok.2 ⟨_, hvalues, rfl⟩⟩
  | false =>
    have hpacket : executePacket head bitmap false ps = (head ++ bitmap) ++ 0 :: Param.valueBytes ps := by
      simp [executePacket]
    obtain ⟨hbyte, hlength⟩ := hsplit _ _ hpacket
    have hvalues : slice (executePacket head bitmap false ps) (9 + ((ps.length + 7) / 8 : Nat) + 1)
        (executePacket head bitmap false ps).length = .ok (Param.valueBytes ps) :=
      hcut 0 [] _ [] (by rw [hpacket, append_nil, nil_append]) (by rw [length_nil]; omega)
        (by rw [hlength]; omega)
    unfold executeParts
    refine (if_neg (by omega)).trans (bind_eq_ok.2 ⟨_, hslice, bind_eq_ok.2 ⟨_, hbyte, ?_⟩⟩)
    exact (if_neg (by decide)).trans (bind_eq_ok.2 ⟨_, hvalues, rfl⟩)

theorem received_eq_arg_iff {p : Param} (hp : p.Valid) : p.received = p.arg ↔ ¬p.IsTemporal := by
  obtain ⟨type, flags, value⟩ := p
  cases value with
  | temporal t k =>
    refine iff_of_false ?_ (not_not.2 ⟨t, k, rfl⟩)
    intro h
    exact Temporal.fields_take_ne_text hp.2.1 hp.2.2.1 (StmtArg.bytes.inj h)
  | _ => exact iff_of_true rfl (by rintro ⟨t, k, h⟩; cases h)

/-- The parameters of an execute packet are bound without an error, and they are the arguments it stands for unless
one of them is a temporal value. -/
theorem bindStmtArgs_eq_args_iff (go : FloatText) {s : PreparedStmt} (hcount : s.paramCount = ps.length)
    (hargs : s.args = replicate s.paramCount .nil) (hvalid : ∀ p ∈ ps, p.Valid) {head bitmap : GoString}
    (hhead : head.length = 9) (hbitmap : Param.IsBitmap ps bitmap) {rebound : Bool}
    (htypes : rebound = false → s.paramTypes = Param.typeBytes ps)
    (hlength : (executePacket head bitmap rebound ps).length < 2 ^ 63) :
    ∃ parts args, executeParts s.paramCount (executePacket head bitmap rebound ps) = .ok parts ∧
      s.bindStmtArgs go parts.nullBitmaps (parts.paramTypes.getD s.paramTypes) parts.paramValues = (.ok (), args) ∧
      (args = ps.map Param.arg ↔ ∀ p ∈ ps, ¬p.IsTemporal) := by
  have hvalues : (Param.valueBytes ps).length < 2 ^ 63 := by
    simp only [executePacket, length_append] at hlength
    omega
  have hbound : (if rebound then some (Param.typeBytes ps) else none).getD s.paramTypes = Param.typeBytes ps := by
    cases rebound
    · exact htypes rfl
    · rfl
  refine ⟨_, ps.map Param.received, hcount ▸ executeParts_executePacket hhead hbitmap.1 rebound, ?_, ?_⟩
  · unfold bindStmtArgs
    dsimp only
    rw [hbound, hargs, hcount]
    exact bindFrom_encoded go hvalid hbitmap hvalues ps [] rfl
  · rw [map_inj_left]
    exact forall₂_congr fun p hp => received_eq_arg_iff (hvalid p hp)

theorem bindStmtArgs_eq_args_iff_bytes :
    let ps : List Param := [⟨1, 0x80, .int 200⟩, ⟨1, 0, .null⟩]
    let s : PreparedStmt := { sql := ascii "?,?", paramCount := 2, offsets := [0, 2], args := [.nil, .nil], id := 1 }
    ∃ parts args, executeParts s.paramCount (executePacket (leBytes 9 1) [2] true ps) = .ok parts ∧
      s.bindStmtArgs ⟨fun _ => [], fun _ => []⟩ parts.nullBitmaps (parts.paramTypes.getD s.paramTypes)
        parts.paramValues = (.ok (), args) ∧
      (args = ps.map Param.arg ↔ ∀ p ∈ ps, ¬p.IsTemporal) := by
  refine bindStmtArgs_eq_args_iff _ rfl rfl ?_ (by simp) ⟨rfl, ?_⟩ nofun (by decide +kernel)
  · intro p hp
    rcases mem_pair.1 hp with rfl | rfl
    · exact ⟨1, rfl, by decide⟩
    · trivial
  · intro i p hp
    match i with
    | 0 => cases hp; decide
    | 1 => cases hp; decide

/-- The date 2020-01-02 is bound as four bytes. -/
theorem date_bound_packed :
    let p : Param := ⟨10, 0, .temporal (.date 2020 1 2) 4⟩
    let s : PreparedStmt := { sql := ascii "?", paramCount := 1, offsets := [0], args := [.nil], id := 1 }
    p.Valid ∧ Param.IsBitmap [p] [0] ∧ p.arg = .bytes (ascii "2020-01-02") ∧
      executeParts 1 (executePacket (leBytes 9 1) [0] true [p]) = .ok ⟨[0], some [10, 0], [4, 0xe4, 7, 1, 2]⟩ ∧
      s.bindStmtArgs ⟨fun _ => [], fun _ => []⟩ [0] [10, 0] [4, 0xe4, 7, 1, 2] =
        (.ok (), [.bytes [0xe4, 7, 1, 2]]) := by
  refine ⟨⟨by decide, by decide, by decide, by decide +kernel⟩,
    ⟨rfl, ?_⟩, by decide +kernel, by decide +kernel, by decide +kernel⟩
  intro i p hp
  match i with
  | 0 => cases hp; decide

end Binding

end DbProxy
