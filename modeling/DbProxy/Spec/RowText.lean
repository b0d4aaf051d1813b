import DbProxy.Spec.Encoding
import DbProxy.Spec.TypedMerge

/-!
# Rows that pass through

A row that a shard returns is decoded to values (`ParseText`), merged, and encoded again from the values alone.  The
encoding reads back what it wrote, so a row comes out as it came in if each text is the one that its value is
formatted to.  Integers and texts are; zeros in front of a number, the places of a `DECIMAL`, and its digits beyond
those of a double are not.
-/

namespace DbProxy

open Fallible List
variable {fs : List Field} {whole text : GoString} {f : Field} {c : Cell}

/-! ### Rows of texts -/

/-- A row as it is sent: each text behind its length, and a mark for NULL. -/
def encodeRow (row : List (Option GoString)) : GoString := row.flatMap fun
  | none => [0xfb]
  | some t => lenEncString t

/-- The value that `ParseText` makes of a column. -/
def Field.read (f : Field) : Option GoString → Except Fail Cell
  | none => .ok .null
  | some t => f.textValue t

theorem parseTextFrom_cons {data v : GoString} {pos next : Int} {isNull : Bool}
    (h : readLenEncStringAsBytes data pos = .ok (some (v, next, isNull))) (f : Field) (fs : List Field) :
    parseTextFrom data pos (f :: fs) =
      (do let c ← f.read (if isNull then none else some v); return c :: (← parseTextFrom data next fs)) := by
  rw [parseTextFrom, h]
  cases isNull with
  | true => rfl
  | false => rfl

theorem parseTextFrom_encodeRow : ∀ {row : List (Option GoString)} {front : GoString}, row.length = fs.length →
    (front ++ encodeRow row).length < 2 ^ 63 → ∀ {cells : List Cell},
      parseTextFrom (front ++ encodeRow row) front.length fs = .ok cells ↔
        Forall₂ (fun e c => e.1.read e.2 = .ok c) (fs.zip row) cells := by
  induction fs with
  | nil =>
    intro row front _ _ cells
    rw [zip_nil_left, forall₂_nil_left_iff]
    exact ⟨fun h => (Except.ok.inj h).symm, fun h => congrArg _ h.symm⟩
  | cons f fs ih =>
    intro row front hlength hsize cells
    obtain ⟨t, row, rfl⟩ := exists_cons_of_length_eq_add_one hlength
    have hrest := Nat.succ.inj hlength
    have hbind : ∀ (x : Except Fail Cell) (y : Except Fail ResultRow), (do let c ← x; return c :: (← y)) = .ok cells ↔
        ∃ c cs, x = .ok c ∧ y = .ok cs ∧ cells = c :: cs := by
      intro x y
      simp only [bind_eq_ok]
      constructor
      · rintro ⟨c, hc, cs, hcs, h⟩
        cases h
        exact ⟨c, cs, hc, hcs, rfl⟩
      · rintro ⟨c, cs, hc, hcs, rfl⟩
        exact ⟨c, hc, cs, hcs, rfl⟩
    have hstep : ∃ front', front ++ encodeRow (t :: row) = front' ++ encodeRow row ∧
        parseTextFrom (front ++ encodeRow (t :: row)) front.length (f :: fs) =
          (do let c ← f.read t; return c :: (← parseTextFrom (front' ++ encodeRow row) front'.length fs)) := by
      cases t with
      | none =>
        have hdata : front ++ encodeRow (none :: row) = (front ++ [0xfb]) ++ encodeRow row := by
          rw [append_assoc]
          rfl
        refine ⟨front ++ [0xfb], hdata, ?_⟩
        have hread : readLenEncStringAsBytes (front ++ encodeRow (none :: row)) front.length =
          .ok (some ([], (front ++ [0xfb]).length, true)) := readLenEncStringAsBytes_null hsize
        rw [parseTextFrom_cons hread, hdata]
        rfl
      | some t =>
        have hdata : front ++ encodeRow (some t :: row) = (front ++ lenEncString t) ++ encodeRow row := by
          rw [append_assoc]
          rfl
        refine ⟨front ++ lenEncString t, hdata, ?_⟩
        have hread : readLenEncStringAsBytes (front ++ encodeRow (some t :: row)) front.length =
          .ok (some (t, (front ++ lenEncString t).length, false)) := readLenEncStringAsBytes_lenEncString hsize
        rw [parseTextFrom_cons hread, hdata]
        rfl
    obtain ⟨front', hdata, hstep⟩ := hstep
    rw [hstep, hbind, zip_cons_cons, forall₂_cons_left_iff]
    refine exists_congr fun c => exists_congr fun cs => and_congr_right fun _ => and_congr ?_ Iff.rfl
    exact ih hrest (hdata ▸ hsize)

theorem parseText_encodeRow {row : List (Option GoString)} (hlength : row.length = fs.length)
    (hsize : (encodeRow row).length < 2 ^ 63) {cells : List Cell} :
    parseText (encodeRow row) fs = .ok cells ↔ Forall₂ (fun e c => e.1.read e.2 = .ok c) (fs.zip row) cells :=
  @parseTextFrom_encodeRow fs row [] hlength hsize cells

/-! ### Texts that the database sends -/

namespace Field

variable (f : Field)

def isInteger : Prop := f.type ∈ [1, 2, 3, 9, 8, 13]

def isDecimal : Prop := f.type = 246

def isUnsigned : Prop := f.flag &&& unsignedFlag > 0

def isZerofill : Prop := f.flag &&& 64 > 0

instance : Decidable f.isInteger := inferInstanceAs (Decidable (_ ∈ _))

instance : Decidable f.isDecimal := inferInstanceAs (Decidable (_ = _))

instance : Decidable f.isUnsigned := inferInstanceAs (Decidable (_ > _))

instance : Decidable f.isZerofill := inferInstanceAs (Decidable (_ > _))

/-- A zero-filled column is padded to its display width. -/
def padded (text : GoString) : GoString := if f.isZerofill then text.leftpad f.columnLength 48 else text

/-- The number of digits of a `DECIMAL`: its width is that of the digits, of the point, and of a sign. -/
def precision : Nat := f.columnLength - (if f.decimal > 0 then 1 else 0) - (if f.isUnsigned then 0 else 1)

end Field

/-- The text of `n / 10 ^ scale` with all its places. -/
def decimalText (scale : Nat) (n : Int) : GoString :=
  if scale = 0 then ascii (toString n)
  else (if n < 0 then [45] else []) ++ ascii (n.natAbs / 10 ^ scale).repr ++ 46 ::
    (ascii (n.natAbs % 10 ^ scale).repr).leftpad scale 48

namespace Field

/-- The database sends this text for a value of the column.  A `YEAR` is 0 or one of those from 1901 to 2155. -/
def Sends (f : Field) (text : GoString) : Prop :=
  if f.isInteger then ∃ n : Int, text = f.padded (ascii (toString n)) ∧
    (if f.isUnsigned then 0 ≤ n ∧ n < 2 ^ 64 else -2 ^ 63 ≤ n ∧ n < 2 ^ 63) ∧
    (f.type = 13 → n = 0 ∨ 1901 ≤ n ∧ n ≤ 2155)
  else if f.isDecimal then ∃ n : Int, text = f.padded (decimalText f.decimal n) ∧ n.natAbs < 10 ^ f.precision ∧
    (f.isUnsigned → 0 ≤ n)
  else True

/-- What the protocol promises of a column that is not `FLOAT` or `DOUBLE`.  Zero-filled columns are unsigned. -/
structure Valid (f : Field) : Prop where
  exact : f.type ≠ 4 ∧ f.type ≠ 5
  zerofill : f.isZerofill → f.isUnsigned
  columnLength : f.columnLength < 2 ^ 32
  decimal : f.decimal < 2 ^ 8

/-- All texts of the column come out as they came in: no zeros are filled in, and a `DECIMAL` is an integer that a
double can hold. -/
structure Unaltered (f : Field) : Prop where
  integer : f.isInteger → f.isZerofill → f.columnLength ≤ 1
  decimal : f.isDecimal → f.decimal = 0 ∧ f.precision ≤ 15 ∧ (f.isZerofill → f.columnLength ≤ 1)

end Field

/-- `strconv.AppendFloat` writes an integer that a double holds with its digits. -/
def Runtime.FormatsIntegers (go : Runtime) : Prop :=
  ∀ n : Int, n.natAbs ≤ 2 ^ 53 → go.formatFloat n = ascii (toString n)

theorem Runtime.short_formatsIntegers : Runtime.short.FormatsIntegers := by
  intro n _
  have hint : toString ((n : Int) : ℚ) = toString n := by
    show (if ((n : Int) : ℚ).den = 1 then _ else _) = _
    rw [if_pos (Rat.den_intCast n)]
    rfl
  exact congrArg ascii hint

theorem takeWhile_digits (h : whole.all isDigit = true) (rest : GoString)
    (hrest : ∀ b ∈ rest.head?, ¬ isDigit b = true) : (whole ++ rest).takeWhile isDigit = whole := by
  rw [takeWhile_append_of_pos (all_eq_true.1 h)]
  cases rest with
  | nil => rw [takeWhile_nil, append_nil]
  | cons b rest => rw [takeWhile_cons_of_neg (hrest b rfl), append_nil]

theorem decimalDigits_whole (h : whole.all isDigit = true) (hne : whole ≠ []) :
    decimalDigits whole = some (natOfDigits whole, 0) := by
  have htake := takeWhile_digits h [] nofun
  rw [append_nil] at htake
  unfold decimalDigits
  simp [htake, hne]

theorem decimalDigits_point {frac : GoString} (hwhole : whole.all isDigit = true) (hne : whole ≠ [])
    (hfrac : frac.all isDigit = true) :
    decimalDigits (whole ++ 46 :: frac) = some (natOfDigits (whole ++ frac), frac.length) := by
  have htake := takeWhile_digits hwhole (46 :: frac) (by rintro b hb; cases hb; decide)
  unfold decimalDigits
  simp [htake, hne, hfrac]

theorem parseFloat_decimalDigits {body : GoString} (hhead : body.head? ≠ some 43 ∧ body.head? ≠ some 45)
    (hbody : ∀ b ∈ body, b ≠ 101 ∧ b ≠ 69) {digits places : Nat} (h : decimalDigits body = some (digits, places)) :
    parseFloat body = some (Binary64.round (digits * (10 : ℚ) ^ (0 - places : Int))) ∧
      parseFloat (45 :: body) = some (Binary64.round (-(digits * (10 : ℚ) ^ (0 - places : Int)))) := by
  have htake : (body.takeWhile fun b => !decide (b = 101) && !decide (b = 69)) = body := by
    have happend : ((body ++ []).takeWhile fun b => !decide (b = 101) && !decide (b = 69)) =
        body ++ [].takeWhile fun b => !decide (b = 101) && !decide (b = 69) :=
      takeWhile_append_of_pos fun b hb => by simp [hbody b hb]
    rwa [takeWhile_nil, append_nil] at happend
  constructor
  · unfold parseFloat
    simp [hhead.1, hhead.2, htake, h]
  · unfold parseFloat
    simp [htake, h]

theorem not_exponent_of_isDigit (h : text.all isDigit = true) : ∀ b ∈ text, b ≠ 101 ∧ b ≠ 69 := by
  intro b hb
  have hdigit := all_eq_true.1 h b hb
  constructor
  · rintro rfl
    exact absurd hdigit (by decide)
  · rintro rfl
    exact absurd hdigit (by decide)

theorem parseFloat_int (n : Int) : parseFloat (ascii (toString n)) = some (Binary64.round n) := by
  have hparse : ∀ m : Nat, parseFloat (ascii m.repr) = some (Binary64.round m) ∧
      parseFloat (45 :: ascii m.repr) = some (Binary64.round (-m)) := by
    intro m
    have hdigits := repr_all_isDigit m
    obtain ⟨hplus, hminus⟩ := parseFloat_decimalDigits (isDigit_head hdigits) (not_exponent_of_isDigit hdigits)
      (decimalDigits_whole hdigits (repr_ne_nil m))
    rw [natOfDigits_repr] at hplus hminus
    simp only [Nat.cast_zero, sub_zero, zpow_zero, mul_one] at hplus hminus
    exact ⟨hplus, hminus⟩
  rcases ascii_int n with ⟨hn, htext⟩ | ⟨hn, htext⟩
  · rw [htext, (hparse _).1]
    congr 2
    exact_mod_cast Int.toNat_of_nonneg hn
  · rw [htext, (hparse _).2]
    congr 2
    have hneg : ((-n).toNat : Int) = -n := Int.toNat_of_nonneg (by omega)
    rw [neg_eq_iff_eq_neg]
    exact_mod_cast hneg

theorem leftpad_of_le (hne : text ≠ []) {n : Nat} (hn : n ≤ 1) : text.leftpad n 48 = text := by
  have hpos : 0 < text.length := length_pos_iff.2 hne
  unfold List.leftpad
  rw [Nat.sub_eq_zero_of_le (by omega)]
  rfl

theorem ascii_int_ne_nil (n : Int) : ascii (toString n) ≠ [] := by
  rcases ascii_int n with ⟨_, h⟩ | ⟨_, h⟩
  · rw [h]
    exact repr_ne_nil _
  · rw [h]
    exact cons_ne_nil _ _

variable {text : GoString}

theorem textValue_unsigned (h : f.isInteger) (hunsigned : f.isUnsigned) {n : Int}
    (hparse : parseUint text = (n, true)) : f.textValue text = .ok (.uint64 n) := by
  refine (if_pos h).trans ((if_pos hunsigned).trans ?_)
  rw [hparse]
  rfl

theorem textValue_signed (h : f.isInteger) (hsigned : ¬ f.isUnsigned) {n : Int} (hparse : parseInt text = (n, true)) :
    f.textValue text = .ok (.int64 n) := by
  refine (if_pos h).trans ((if_neg hsigned).trans ?_)
  rw [hparse]
  rfl

theorem textValue_decimal (h : f.isDecimal) {x : ℚ} (hparse : parseFloat text = some x) :
    f.textValue text = .ok (.float64 x) := by
  have htype : f.type = 246 := h
  unfold Field.textValue
  rw [htype, if_neg (by decide), if_pos (by decide), hparse]

theorem textValue_other (text : GoString) (hvalid : f.Valid) (hinteger : ¬ f.isInteger) (hdecimal : ¬ f.isDecimal) :
    f.textValue text = .ok (.string text) ∨ f.textValue text = .ok (.bytes text) := by
  have hfloat : f.type ∉ [4, 5, 246] := by
    intro hmem
    simp only [mem_cons, not_mem_nil, or_false] at hmem
    rcases hmem with hmem | hmem | hmem
    · exact hvalid.exact.1 hmem
    · exact hvalid.exact.2 hmem
    · exact hdecimal hmem
  by_cases hstring : f.type ∈ [15, 253, 254, 12, 10, 11, 7]
  · exact .inl ((if_neg hinteger).trans ((if_neg hfloat).trans (if_pos hstring)))
  · exact .inr ((if_neg hinteger).trans ((if_neg hfloat).trans (if_neg hstring)))

theorem Field.Unaltered.textValue (h : f.Unaltered) (hvalid : f.Valid) {go : Runtime} (hgo : go.FormatsIntegers)
    (hsends : f.Sends text) (hc : f.textValue text = .ok c) : c ≠ .null ∧ formatValue go c = text := by
  have hpadded : ∀ n : Int, (f.isZerofill → f.columnLength ≤ 1) →
      f.padded (ascii (toString n)) = ascii (toString n) := by
    intro n hwidth
    unfold Field.padded
    split
    · next hzero => exact leftpad_of_le (ascii_int_ne_nil n) (hwidth hzero)
    · rfl
  have hvalue : ∀ {c' : Cell}, f.textValue text = .ok c' → c' ≠ .null → formatValue go c' = text → c ≠ .null ∧
      formatValue go c = text := by
    intro c' hc' hne hformat
    obtain rfl := ok_unique hc' hc
    exact ⟨hne, hformat⟩
  unfold Field.Sends at hsends
  by_cases hinteger : f.isInteger
  · rw [if_pos hinteger] at hsends
    obtain ⟨n, htext, hrange, _⟩ := hsends
    rw [hpadded n (h.integer hinteger)] at htext
    by_cases hunsigned : f.isUnsigned
    · rw [if_pos hunsigned] at hrange
      exact hvalue (textValue_unsigned hinteger hunsigned (htext ▸ parseUint_int hrange.1 hrange.2)) nofun htext.symm
    · rw [if_neg hunsigned] at hrange
      exact hvalue (textValue_signed hinteger hunsigned (htext ▸ parseInt_int hrange.1 hrange.2)) nofun htext.symm
  · rw [if_neg hinteger] at hsends
    by_cases hdecimal : f.isDecimal
    · obtain ⟨hscale, hprecision, hwidth⟩ := h.decimal hdecimal
      rw [if_pos hdecimal] at hsends
      obtain ⟨n, htext, hsize, _⟩ := hsends
      have hsmall : n.natAbs < 2 ^ 53 := by
        have : 10 ^ f.precision ≤ 10 ^ 15 := Nat.pow_le_pow_right (by decide) hprecision
        omega
      have hplain : decimalText f.decimal n = ascii (toString n) := if_pos hscale
      rw [hplain, hpadded n hwidth] at htext
      have hparse : parseFloat text = some (n : ℚ) := by
        rw [htext, parseFloat_int, Binary64.round_intCast hsmall]
      exact hvalue (textValue_decimal hdecimal hparse) nofun ((hgo n hsmall.le).trans htext.symm)
    · rcases textValue_other text hvalid hinteger hdecimal with htext | htext
      · exact hvalue htext nofun rfl
      · exact hvalue htext nofun rfl

/-! ### Texts that come out changed -/

theorem natOfDigits_zeros (h : ∀ b ∈ text, b = 48) : natOfDigits text = 0 := by
  induction text with
  | nil => rfl
  | cons b text ih =>
    obtain ⟨rfl, htext⟩ := forall_mem_cons.1 h
    rw [← singleton_append, natOfDigits_append, ih htext]
    simp [natOfDigits]

theorem isDigit_zeros (h : ∀ b ∈ text, b = 48) : text.all isDigit = true :=
  all_eq_true.2 fun b hb => by
    rw [h b hb]
    decide

theorem leftpad_zeros (h : ∀ b ∈ text, b = 48) (n : Nat) : ∀ b ∈ text.leftpad n 48, b = 48 := by
  intro b hb
  rcases mem_append.1 hb with hb | hb
  · exact eq_of_mem_replicate hb
  · exact h b hb

/-- A text that is long and stands for zero: it comes out as one digit. -/
theorem formatValue_zero_ne (hc : c = .uint64 0 ∨ c = .float64 0) (htext : 1 < text.length) :
    c ≠ .null ∧ formatValue .short c = ascii "0" ∧ formatValue .short c ≠ text := by
  have hformat : formatValue .short c = ascii "0" := by
    rcases hc with rfl | rfl
    · rfl
    · exact Runtime.short_formatsIntegers 0 (by decide)
  refine ⟨by rcases hc with rfl | rfl <;> exact nofun, hformat, ?_⟩
  rintro rfl
  rw [hformat] at htext
  exact absurd htext (by decide)

theorem Binary64.round_zero : Binary64.round 0 = 0 := by
  exact_mod_cast Binary64.round_intCast (n := 0) (by decide)

/-- Some text of the column comes out as another one. -/
def Field.Alters (f : Field) : Prop :=
  ∃ text c, f.Sends text ∧ f.textValue text = .ok c ∧ c ≠ .null ∧ formatValue .short c ≠ text ∧ text.length < 2 ^ 34 ∧
    (formatValue .short c).length < 2 ^ 34

section Alters

variable (hvalid : f.Valid)

theorem Field.alters_of_zero {text : GoString} {c : Cell} (hsends : f.Sends text) (hvalue : f.textValue text = .ok c)
    (hc : c = .uint64 0 ∨ c = .float64 0) (hlong : 1 < text.length) (hshort : text.length < 2 ^ 34) : f.Alters := by
  obtain ⟨hnull, hformat, hne⟩ := formatValue_zero_ne hc hlong
  refine ⟨text, c, hsends, hvalue, hnull, hne, hshort, ?_⟩
  rw [hformat]
  decide

theorem Field.sends_decimal (hdecimal : f.isDecimal) {n : Int} (hn : n.natAbs < 10 ^ f.precision) (hsign : 0 ≤ n) :
    f.Sends (f.padded (decimalText f.decimal n)) := by
  have hinteger : ¬ f.isInteger := by
    have htype : f.type = 246 := hdecimal
    unfold Field.isInteger
    rw [htype]
    decide
  unfold Field.Sends
  rw [if_neg hinteger, if_pos hdecimal]
  exact ⟨n, rfl, hn, fun _ => hsign⟩

theorem Field.padded_zero (hfill : f.isZerofill) (hwide : 1 < f.columnLength) :
    ∃ text, f.padded (ascii (toString (0 : Int))) = text ∧
    (∀ b ∈ text, b = 48) ∧ text.length = f.columnLength ∧ text ≠ [] := by
  have hlength : ((ascii (toString (0 : Int))).leftpad f.columnLength 48).length = f.columnLength := by
    rw [length_leftpad, show (ascii (toString (0 : Int))).length = 1 by decide]
    omega
  refine ⟨_, if_pos hfill, leftpad_zeros (by decide +kernel) _, hlength, ?_⟩
  rw [← length_pos_iff, hlength]
  omega

include hvalid

theorem Field.alters_of_zerofill (hinteger : f.isInteger) (hfill : f.isZerofill) (hwide : 1 < f.columnLength) :
    f.Alters := by
  obtain ⟨text, htext, hzeros, hlength, hne⟩ := padded_zero hfill hwide
  have hwidth := hvalid.columnLength
  have hunsigned := hvalid.zerofill hfill
  have hparse : parseUint text = (0, true) := by
    rw [parseUint_digits hne (isDigit_zeros hzeros) (by rw [natOfDigits_zeros hzeros]; decide),
      natOfDigits_zeros hzeros]
    rfl
  refine alters_of_zero ?_ (textValue_unsigned hinteger hunsigned hparse) (.inl rfl) (by omega) (by omega)
  unfold Field.Sends
  rw [if_pos hinteger]
  refine ⟨0, htext.symm, ?_, fun _ => .inl rfl⟩
  rw [if_pos hunsigned]
  decide

theorem Field.alters_of_zerofill_decimal (hdecimal : f.isDecimal) (hscale : f.decimal = 0) (hfill : f.isZerofill)
    (hwide : 1 < f.columnLength) : f.Alters := by
  obtain ⟨text, htext, hzeros, hlength, hne⟩ := padded_zero hfill hwide
  have hwidth := hvalid.columnLength
  have hdigits := isDigit_zeros hzeros
  have hparse : parseFloat text = some 0 := by
    rw [(parseFloat_decimalDigits (isDigit_head hdigits) (not_exponent_of_isDigit hdigits)
      (decimalDigits_whole hdigits hne)).1, natOfDigits_zeros hzeros, Nat.cast_zero, zero_mul, Binary64.round_zero]
  have hsends := sends_decimal hdecimal (n := 0) (Nat.pow_pos (by decide)) le_rfl
  rw [show decimalText f.decimal 0 = ascii (toString (0 : Int)) from if_pos hscale, htext] at hsends
  exact alters_of_zero hsends (textValue_decimal hdecimal hparse) (.inr rfl) (by omega) (by omega)

theorem Field.alters_of_places (hdecimal : f.isDecimal) (hscale : f.decimal ≠ 0) : f.Alters := by
  have hwidth := hvalid.columnLength
  have hplaces := hvalid.decimal
  obtain ⟨frac, htext, hfrac, hlength⟩ : ∃ frac, decimalText f.decimal 0 = [48] ++ 46 :: frac ∧ (∀ b ∈ frac, b = 48) ∧
      frac.length = f.decimal := by
    refine ⟨[48].leftpad f.decimal 48, ?_, leftpad_zeros (by decide +kernel) _, ?_⟩
    · unfold decimalText
      rw [if_neg hscale, Int.natAbs_zero, Nat.zero_div, Nat.zero_mod]
      rfl
    · rw [length_leftpad, length_singleton]
      omega
  obtain ⟨whole, hpadded, hwhole, hne, hshort⟩ : ∃ whole : GoString, f.padded (decimalText f.decimal 0) =
    whole ++ 46 :: frac ∧ (∀ b ∈ whole, b = 48) ∧ whole ≠ [] ∧ whole.length < 2 ^ 33 := by
    rw [htext]
    unfold Field.padded
    split
    · refine ⟨replicate (f.columnLength - ([48] ++ 46 :: frac : GoString).length) 48 ++ [48], ?_,
        ?_, by simp, by simp; omega⟩
      · rw [append_assoc]
        rfl
      · intro b hb
        rcases mem_append.1 hb with hb | hb
        · exact eq_of_mem_replicate hb
        · exact mem_singleton.1 hb
    · exact ⟨[48], rfl, by decide +kernel, by decide +kernel, by decide⟩
  have hparse : parseFloat (whole ++ 46 :: frac) = some 0 := by
    have hdigits : ∀ b ∈ whole ++ frac, b = 48 := forall_mem_append.2 ⟨hwhole, hfrac⟩
    have hhead : (whole ++ 46 :: frac).head? ≠ some 43 ∧ (whole ++ 46 :: frac).head? ≠ some 45 := by
      rw [head?_append_of_ne_nil _ hne]
      exact isDigit_head (isDigit_zeros hwhole)
    have hexponent : ∀ b ∈ whole ++ 46 :: frac, b ≠ 101 ∧ b ≠ 69 := by
      refine forall_mem_append.2 ⟨not_exponent_of_isDigit (isDigit_zeros hwhole), forall_mem_cons.2 ⟨by decide, ?_⟩⟩
      exact not_exponent_of_isDigit (isDigit_zeros hfrac)
    rw [(parseFloat_decimalDigits hhead hexponent
      (decimalDigits_point (isDigit_zeros hwhole) hne (isDigit_zeros hfrac))).1,
      natOfDigits_zeros hdigits, Nat.cast_zero, zero_mul, Binary64.round_zero]
  have hsends := sends_decimal hdecimal (n := 0) (Nat.pow_pos (by decide)) le_rfl
  rw [hpadded] at hsends
  have hpos := length_pos_iff.2 hne
  have htotal : (whole ++ 46 :: frac).length = whole.length + 1 + f.decimal := by
    rw [length_append, length_cons, hlength]
    omega
  exact alters_of_zero hsends (textValue_decimal hdecimal hparse) (.inr rfl) (by omega) (by omega)

omit hvalid in
theorem Field.alters_of_digits (hdecimal : f.isDecimal) (hscale : f.decimal = 0) (hfill : ¬ f.isZerofill)
    (hprecision : 15 < f.precision) : f.Alters := by
  have htext : f.padded (decimalText f.decimal 9007199254740993) = ascii (toString (9007199254740993 : Int)) := by
    unfold Field.padded decimalText
    rw [if_neg hfill, if_pos hscale]
  have hround : Binary64.round ((9007199254740993 : Int) : ℚ) = ((9007199254740992 : Int) : ℚ) := by
    decide +kernel
  have hformat : formatValue .short (.float64 ((9007199254740992 : Int) : ℚ)) =
    ascii (toString (9007199254740992 : Int)) :=
    Runtime.short_formatsIntegers _ (by decide)
  have hsize : (9007199254740993 : Int).natAbs < 10 ^ f.precision :=
    lt_of_lt_of_le (b := 10 ^ 16) (by decide) (Nat.pow_le_pow_right (by decide) hprecision)
  have hparse : parseFloat (ascii (toString (9007199254740993 : Int))) = some ((9007199254740992 : Int) : ℚ) := by
    rw [parseFloat_int, hround]
  refine ⟨_, _, htext ▸ sends_decimal hdecimal hsize (by decide), textValue_decimal hdecimal hparse, nofun,
    ?_, by decide, ?_⟩
  · rw [hformat]
    exact fun h => absurd (ascii_int_injective h) (by decide)
  · rw [hformat]
    decide

theorem Field.alters_of_not_unaltered (h : ¬ f.Unaltered) : f.Alters := by
  by_contra hnot
  refine h ⟨fun hinteger hfill => ?_, fun hdecimal => ?_⟩
  · by_contra hwide
    exact hnot (alters_of_zerofill hvalid hinteger hfill (Nat.not_le.1 hwide))
  · have hscale : f.decimal = 0 := by_contra fun hscale => hnot (alters_of_places hvalid hdecimal hscale)
    have hwidth : f.isZerofill → f.columnLength ≤ 1 := fun hfill => by
      by_contra hwide
      exact hnot (alters_of_zerofill_decimal hvalid hdecimal hscale hfill (Nat.not_le.1 hwide))
    refine ⟨hscale, ?_, hwidth⟩
    by_contra hprecision
    by_cases hfill : f.isZerofill
    · have hle : f.precision ≤ f.columnLength := (Nat.sub_le _ _).trans (Nat.sub_le _ _)
      have := hwidth hfill
      omega
    · exact hnot (alters_of_digits hdecimal hscale hfill (Nat.not_le.1 hprecision))

end Alters

/-! ### Rows through the merge -/

/-- The type of the values that `ParseText` makes. -/
def Field.columnType (f : Field) : ColumnType :=
  if f.type ∈ [1, 2, 3, 9, 8, 13] then if f.flag &&& unsignedFlag > 0 then .uint64 else .int64
  else if f.type ∈ [4, 5, 246] then .float64
  else if f.type ∈ [15, 253, 254, 12, 10, 11, 7] then .string
  else .bytes

theorem Field.textValue_ofType (h : f.textValue text = .ok c) : c.OfType f.columnType := by
  unfold Field.textValue at h
  unfold Field.columnType
  split_ifs at h ⊢
  · cases h
    exact .inr rfl
  · cases h
    exact .inr rfl
  · cases hparse : parseFloat text with
    | none =>
      rw [hparse] at h
      cases h
    | some x =>
      rw [hparse] at h
      cases h
      exact .inr rfl
  · cases h
    exact .inr rfl
  · cases h
    exact .inr rfl

theorem rowTyped_of_read : ∀ {row : List (Option GoString)} {cells : List Cell}, row.length = fs.length →
    Forall₂ (fun e c => e.1.read e.2 = .ok c) (fs.zip row) cells → RowTyped (fs.map Field.columnType) cells := by
  induction fs with
  | nil =>
    intro row cells _ h
    rw [zip_nil_left, forall₂_nil_left_iff] at h
    rw [h]
    exact .nil
  | cons f fs ih =>
    intro row cells hlength h
    obtain ⟨t, row, rfl⟩ := exists_cons_of_length_eq_add_one hlength
    rw [zip_cons_cons] at h
    obtain ⟨c, cs, hread, hrest, rfl⟩ := forall₂_cons_left_iff.1 h
    refine .cons ?_ (ih (Nat.succ.inj hlength) hrest)
    cases t with
    | none =>
      cases hread
      exact .inl rfl
    | some t => exact Field.textValue_ofType hread

/-- What a shard sent: rows of texts, and the result that was read from them. -/
structure Received (fs : List Field) (rows : List (List (Option GoString))) (r : Result) : Prop where
  fields : r.fields.length = fs.length
  sent : ∀ row ∈ rows, row.length = fs.length ∧ ∀ e ∈ fs.zip row, ∀ text ∈ e.2, e.1.Sends text
  size : ∀ row ∈ rows, (encodeRow row).length < 2 ^ 63
  values : Forall₂ (fun row cells => parseText (encodeRow row) fs = .ok cells) rows r.values

/-- Each row that is sent to the client is one that a shard sent, without the appended columns. -/
def SelectPlan.PassesThrough (plan : SelectPlan) (fs : List Field) (kept : Nat) : Prop :=
  ∀ go : Runtime, go.FormatsIntegers → ∀ rowss rs, Forall₂ (Received fs) rowss rs →
    ∀ res, mergeSelectResult go plan rs = .ok res →
      ∀ data ∈ res.rowDatas, ∃ rows ∈ rowss, ∃ row ∈ rows, data = encodeRow (row.take kept)

section Merge

variable {plan : SelectPlan} {kept : Nat} {go : Runtime}
variable {r r' : Result} {cells : List Cell} {types : List ColumnType} {front back : List Field}

theorem Received.rows {rows : List (List (Option GoString))} (h : Received fs rows r)
    (hcells : cells ∈ r.values) : ∃ row ∈ rows, row.length = fs.length ∧
    (∀ e ∈ fs.zip row, ∀ text ∈ e.2, e.1.Sends text) ∧
      Forall₂ (fun e c => e.1.read e.2 = .ok c) (fs.zip row) cells := by
  obtain ⟨row, hrow, hparse⟩ := exists_of_mem h.values.flip hcells
  obtain ⟨hlength, hsent⟩ := h.sent row hrow
  exact ⟨row, hrow, hlength, hsent, (parseText_encodeRow hlength (h.size row hrow)).1 hparse⟩

theorem Received.typed {rows : List (List (Option GoString))} (h : Received fs rows r) :
    TypedResult (fs.map Field.columnType) r := by
  refine ⟨h.fields.trans (length_map _).symm, fun cells hcells => ?_⟩
  obtain ⟨row, _, hlength, _, hread⟩ := h.rows hcells
  exact rowTyped_of_read hlength hread

theorem groupRows_subset {columns : List Int} {rows : List ResultRow} : ∀ {m m' : AssocMap GoString ResultRow},
    groupRows go [] columns m rows = .ok m' → ∀ e ∈ m', e ∈ m ∨ e.2 ∈ rows := by
  induction rows with
  | nil =>
    intro m m' h e he
    cases h
    exact .inl he
  | cons row rows ih =>
    intro m m' h e he
    obtain ⟨cells, hcells, h⟩ := bind_eq_ok.1 h
    -- the row or the one that stands for its group already
    have hset : ∃ acc : ResultRow, (acc = row ∨ (generateMapKey go cells, acc) ∈ m) ∧
        groupRows go [] columns (m.set (generateMapKey go cells) acc) rows = .ok m' := by
      simp only at h
      cases hget : m.get (generateMapKey go cells) with
      | none =>
        rw [hget] at h
        exact ⟨row, .inl rfl, h⟩
      | some acc =>
        rw [hget] at h
        exact ⟨acc, .inr (AssocMap.mem_of_get hget), h⟩
    obtain ⟨acc, hacc, h⟩ := hset
    rcases ih h e he with hmem | hmem
    · rcases AssocMap.mem_of_mem_set hmem with rfl | hmem
      · rcases hacc with rfl | hacc
        · exact .inr mem_cons_self
        · exact .inl hacc
      · exact .inl hmem
    · exact .inr (mem_cons_of_mem _ hmem)

theorem group_subset (hnone : plan.aggregateFuncs = [])
    (h : (if plan.stmt.groupBy.isSome then buildSelectGroupByResult go plan r else buildSelectOnlyResult plan r) =
      .ok r') : r'.fields = r.fields ∧ ∀ row ∈ r'.values, row ∈ r.values := by
  split at h
  · obtain ⟨m, hm, h⟩ := bind_eq_ok.1 h
    rw [hnone] at hm
    split at h
    · cases h
      exact ⟨rfl, fun _ hrow => hrow⟩
    · cases h
      refine ⟨rfl, fun row hrow => ?_⟩
      obtain ⟨e, he, rfl⟩ := mem_map.1 ((go.range_perm _).mem_iff.1 hrow)
      exact (groupRows_subset hm e he).resolve_left not_mem_nil
  · unfold buildSelectOnlyResult at h
    rw [hnone] at h
    cases h
    exact ⟨rfl, fun _ hrow => hrow⟩

theorem limitSelectResult_subset (h : limitSelectResult plan r = .ok r') :
    r'.fields = r.fields ∧ ∀ row ∈ r'.values, row ∈ r.values := by
  unfold limitSelectResult at h
  split at h
  · cases h
    exact ⟨rfl, fun _ hrow => hrow⟩
  · simp only at h
    split at h
    · cases h
      exact ⟨rfl, fun _ hrow => by cases hrow⟩
    · split at h
      · cases h
        exact ⟨rfl, fun _ hrow => mem_of_mem_take (mem_of_mem_drop hrow)⟩
      · cases h

theorem mem_rowDatas_of_merge (hfits : plan.FitsIn types kept) (hnone : plan.aggregateFuncs = [])
    {rs : List Result} (hrs : ∀ r ∈ rs, TypedResult types r) {res : Result}
    (hres : mergeSelectResult go plan rs = .ok res) :
    ∀ data ∈ res.rowDatas, ∃ r ∈ rs, ∃ row ∈ r.values, data = rowData go (row.take kept) := by
  have hne : rs ≠ [] := by
    rintro rfl
    cases hres
  obtain ⟨r₀, h₀, htab₀, hvalues₀⟩ := mergeMultiResultSet_spec hne fun r hr => (hrs r hr).tabular
  have hmem₀ : ∀ row ∈ r₀.values, ∃ r ∈ rs, row ∈ r.values := by
    intro row hrow
    rw [hvalues₀] at hrow
    obtain ⟨values, hmem, hrow⟩ := mem_flatten.1 hrow
    obtain ⟨r, hr, rfl⟩ := mem_map.1 hmem
    exact ⟨r, hr, hrow⟩
  have htyped₀ : TypedResult types r₀ := ⟨htab₀.fields, fun row hrow => by
    obtain ⟨r, hr, hrow⟩ := hmem₀ row hrow
    exact (hrs r hr).rows row hrow⟩
  obtain ⟨r₁, h₁, htyped₁, hsub₁, _⟩ := distinct_typed go hfits htyped₀
  obtain ⟨r₂, r₃, h₂, h₃, hres⟩ := exists_group_of_merge go h₀ h₁ hres
  obtain ⟨hfields₂, hsub₂⟩ := group_subset hnone h₂
  obtain ⟨hfields₃, hperm⟩ := sortSelectResult_perm go h₃
  obtain ⟨r₄, h₄, hres⟩ := bind_eq_ok.1 hres
  obtain ⟨hfields₄, hsub₄⟩ := limitSelectResult_subset h₄
  have hsub : ∀ row ∈ r₄.values, row ∈ r₁.values := fun row hrow => hsub₂ row (hperm.mem_iff.1 (hsub₄ row hrow))
  have htab₄ : r₄.Tabular types.length := by
    refine ⟨?_, fun row hrow => (htyped₁.rows row (hsub row hrow)).length_eq.symm⟩
    rw [hfields₄, hfields₃, hfields₂, htyped₁.fields]
  obtain ⟨res', hres', _, hvalues, hdatas⟩ := finishResult_wide go htab₄ hfits.width hfits.origin
  obtain rfl := ok_unique hres' hres
  rw [hdatas, hvalues, hfits.kept, map_map]
  intro data hdata
  obtain ⟨row, hrow, rfl⟩ := mem_map.1 hdata
  obtain ⟨r, hr, hmem⟩ := hmem₀ row (hsub₁.subset (hsub row hrow))
  exact ⟨r, hr, row, hmem, rfl⟩

theorem encodeRow_cons (t : Option GoString) (row : List (Option GoString)) :
    encodeRow (t :: row) = encodeRow [t] ++ encodeRow row := by
  unfold encodeRow
  rw [← flatMap_append, singleton_append]

theorem encodeRow_append (row row' : List (Option GoString)) :
    encodeRow (row ++ row') = encodeRow row ++ encodeRow row' :=
  flatMap_append

theorem rowData_append (row row' : ResultRow) : rowData go (row ++ row') = rowData go row ++ rowData go row' :=
  flatMap_append

theorem rowData_of_read (hgo : go.FormatsIntegers) {es : List (Field × Option GoString)}
    (h : Forall₂ (fun e c => e.1.read e.2 = .ok c) es cells)
    (hes : ∀ e ∈ es, e.1.Valid ∧ e.1.Unaltered ∧ ∀ text ∈ e.2, e.1.Sends text) :
    rowData go cells = encodeRow (es.map Prod.snd) := by
  induction h with
  | nil => rfl
  | @cons e c es cells hread _ ih =>
    obtain ⟨⟨hvalid, hunaltered, hsends⟩, hes⟩ := forall_mem_cons.1 hes
    rw [map_cons, encodeRow_cons, ← ih hes, ← singleton_append, rowData_append]
    congr 1
    obtain ⟨f, t⟩ := e
    cases t with
    | none =>
      cases hread
      rfl
    | some t =>
      obtain ⟨hnull, hformat⟩ := hunaltered.textValue hvalid hgo (hsends t rfl) hread
      unfold rowData encodeRow
      rw [flatMap_singleton, flatMap_singleton, if_neg hnull, hformat]

theorem SelectPlan.passesThrough_of_unaltered (hfits : plan.FitsIn (fs.map Field.columnType) kept)
    (hnone : plan.aggregateFuncs = [])
    (hvalid : ∀ f ∈ fs, f.Valid) (h : ∀ f ∈ fs.take kept, f.Unaltered) : plan.PassesThrough fs kept := by
  intro go hgo rowss rs hreceived res hres data hdata
  obtain ⟨r, hr, cells, hcells, rfl⟩ := mem_rowDatas_of_merge hfits hnone (fun r hr => by
    obtain ⟨rows, _, hrows⟩ := exists_of_mem hreceived.flip hr
    exact hrows.typed) hres data hdata
  obtain ⟨rows, hrows, hrec⟩ := exists_of_mem hreceived.flip hr
  obtain ⟨row, hrow, hlength, hsent, hread⟩ := hrec.rows hcells
  refine ⟨rows, hrows, row, hrow, ?_⟩
  rw [rowData_of_read hgo (forall₂_take kept hread)]
  · rw [map_take, map_snd_zip hlength.le]
  · intro e he
    have hmem : e ∈ (fs.take kept).zip (row.take kept) := by
      unfold List.zip at he ⊢
      rwa [take_zipWith] at he
    have hfield := of_mem_zip hmem
    exact ⟨hvalid _ (mem_of_mem_take hfield.1), h _ hfield.1, hsent e (mem_of_mem_take he)⟩

/-! ### Rows with one text -/

theorem encodeRow_replicate (n : Nat) : encodeRow (replicate n none) = replicate n 0xfb := by
  induction n with
  | zero => rfl
  | succ n ih => rw [replicate_succ, encodeRow_cons, ih, replicate_succ]; rfl

theorem rowData_replicate (n : Nat) : rowData go (replicate n .null) = replicate n 0xfb := by
  induction n with
  | zero => rfl
  | succ n ih => rw [replicate_succ, ← singleton_append, rowData_append, ih, replicate_succ]; rfl

theorem read_nulls (fs : List Field) :
    Forall₂ (fun e c => e.1.read e.2 = .ok c) (fs.zip (replicate fs.length none))
      (replicate fs.length Cell.null) := by
  induction fs with
  | nil => exact .nil
  | cons f fs ih => exact .cons rfl ih

theorem length_lenEncString_le (t : GoString) : (lenEncString t).length ≤ 9 + t.length := by
  unfold lenEncString lenEncInt
  rw [length_append]
  dsimp only
  split_ifs <;> simp

theorem lenEncString_injective {s t : GoString} (hs : s.length < 2 ^ 34) (ht : t.length < 2 ^ 34)
    (h : lenEncString s = lenEncString t) : s = t := by
  have hread : ∀ u : GoString, u.length < 2 ^ 34 → readLenEncStringAsBytes (lenEncString u) 0 =
      .ok (some (u, (lenEncString u).length, false)) := by
    intro u hu
    have hle := length_lenEncString_le u
    have hsize : ([] ++ (lenEncString u ++ [])).length < 2 ^ 63 := by
      rw [nil_append, append_nil]
      omega
    have hread := readLenEncStringAsBytes_lenEncString hsize
    rwa [nil_append, append_nil] at hread
  have hboth := (hread s hs).symm.trans (h ▸ hread t ht)
  simp only [Except.ok.injEq, Option.some.injEq, Prod.mk.injEq] at hboth
  exact hboth.1

/-- A row with one text, behind `a` columns and before `b` columns with NULL. -/
def lonelyText (a b : Nat) (text : GoString) : List (Option GoString) :=
  replicate a none ++ some text :: replicate b none

def lonelyCell (a b : Nat) (c : Cell) : ResultRow := replicate a .null ++ c :: replicate b .null

theorem encodeRow_lonelyText (a b : Nat) (text : GoString) :
    encodeRow (lonelyText a b text) = replicate a 0xfb ++ (lenEncString text ++ replicate b 0xfb) := by
  unfold lonelyText
  rw [encodeRow_append, encodeRow_cons, encodeRow_replicate, encodeRow_replicate]
  simp [encodeRow]

theorem rowData_lonelyCell (a b : Nat) (hc : c ≠ .null) :
    rowData go (lonelyCell a b c) = replicate a 0xfb ++ (lenEncString (formatValue go c) ++ replicate b 0xfb) := by
  unfold lonelyCell
  rw [rowData_append, ← singleton_append, rowData_append, rowData_replicate, rowData_replicate]
  simp [rowData, hc]

theorem read_lonely (h : f.textValue text = .ok c) :
    Forall₂ (fun e c => e.1.read e.2 = .ok c) ((front ++ f :: back).zip (lonelyText front.length back.length text))
      (lonelyCell front.length back.length c) := by
  unfold lonelyText lonelyCell
  rw [zip_append (length_replicate).symm, zip_cons_cons]
  exact rel_append (read_nulls front) (.cons h (read_nulls back))

theorem sends_lonely (h : f.Sends text) :
    ∀ e ∈ (front ++ f :: back).zip (lonelyText front.length back.length text), ∀ text' ∈ e.2, e.1.Sends text' := by
  have hnulls : ∀ fs : List Field, ∀ e ∈ fs.zip (replicate fs.length (none : Option GoString)), e.2 = none :=
    fun fs e he => eq_of_mem_replicate (of_mem_zip (a := e.1) (b := e.2) he).2
  unfold lonelyText
  rw [zip_append (length_replicate).symm, zip_cons_cons]
  intro e he text' htext'
  rcases mem_append.1 he with he | he
  · rw [hnulls front e he] at htext'
    cases htext'
  · rcases mem_cons.1 he with rfl | he
    · obtain rfl := Option.some.inj htext'
      exact h
    · rw [hnulls back e he] at htext'
      cases htext'

theorem mergeSelectResult_single (hfits : plan.FitsIn types kept) (hkeeps : plan.KeepsRow) {row : ResultRow}
    (hrow : RowTyped types row) :
    ∃ res, mergeSelectResult .short plan [resultOf types [row]] = .ok res ∧
    res.rowDatas = [rowData .short (row.take kept)] := by
  have htyped := forall_mem_singleton.2 hrow
  rw [mergeSelectResult_of_steps .short rfl (distinct_resultOf hfits htyped fun _ => nodup_singleton _)
    (group_single hfits hrow)
    (sortSelectResult_short .short Runtime.short_sortsShort le_rfl), (limitSelectResult_single plan rfl).2.1 hkeeps]
  obtain ⟨res, hres, _, hvalues, hdatas⟩ :=
    finishResult_wide .short (typedResult_resultOf htyped).tabular hfits.width hfits.origin
  refine ⟨res, hres, ?_⟩
  rw [hdatas, hvalues, hfits.kept]
  rfl

theorem SelectPlan.PassesThrough.unaltered (h : plan.PassesThrough fs kept)
    (hfits : plan.FitsIn (fs.map Field.columnType) kept)
    (hkeeps : plan.KeepsRow) (hvalid : ∀ f ∈ fs, f.Valid) (hcolumns : fs.length < 2 ^ 16) :
    ∀ f ∈ fs.take kept, f.Unaltered := by
  intro f hf
  by_contra hnot
  obtain ⟨text, c, hsends, hvalue, hnull, hformat, htext, hshort⟩ :=
    Field.alters_of_not_unaltered (hvalid f (mem_of_mem_take hf)) hnot
  -- the column, those before it, and those behind it that are kept and that are not
  obtain ⟨front, back, hsplit⟩ := append_of_mem hf
  obtain ⟨rest, hfs⟩ : ∃ rest, fs = front ++ f :: (back ++ rest) :=
    ⟨fs.drop kept, by rw [← cons_append, ← append_assoc, ← hsplit, take_append_drop]⟩
  have hkept : kept = front.length + (1 + back.length) := by
    have hle := hfits.kept_le
    have hlength := congrArg List.length hsplit
    rw [length_map] at hle
    rw [length_take, min_eq_left hle, length_append, length_cons] at hlength
    omega
  let row := lonelyText front.length (back ++ rest).length text
  let cells := lonelyCell front.length (back ++ rest).length c
  have hlength : row.length = fs.length := by simp [row, lonelyText, hfs]
  have hread : Forall₂ (fun e c => e.1.read e.2 = .ok c) (fs.zip row) cells := by
    rw [hfs]
    exact read_lonely hvalue
  have hsize : (encodeRow row).length < 2 ^ 63 := by
    have hle := length_lenEncString_le text
    have hcount := congrArg List.length hfs
    rw [length_append, length_cons] at hcount
    rw [encodeRow_lonelyText, length_append, length_append, length_replicate, length_replicate]
    omega
  have htyped : RowTyped (fs.map Field.columnType) cells := rowTyped_of_read hlength hread
  have hreceived : Received fs [row] (resultOf (fs.map Field.columnType) [cells]) :=
    { fields := length_replicate.trans (length_map _)
      sent := forall_mem_singleton.2 ⟨hlength, by rw [hfs]; exact sends_lonely hsends⟩
      size := forall_mem_singleton.2 hsize
      values := .cons ((parseText_encodeRow hlength hsize).2 hread) .nil }
  obtain ⟨res, hres, hdatas⟩ := mergeSelectResult_single hfits hkeeps htyped
  obtain ⟨rows, hrows, row', hrow', hdata⟩ :=
    h .short Runtime.short_formatsIntegers [[row]] _ (.cons hreceived .nil) res hres
    (rowData .short (cells.take kept)) (hdatas ▸ mem_singleton_self _)
  obtain rfl := mem_singleton.1 hrows
  obtain rfl := mem_singleton.1 hrow'
  have htake : ∀ {α : Type} (x y : α), (replicate front.length x ++ y :: replicate (back ++ rest).length x).take
    kept = replicate front.length x ++ y :: replicate back.length x := by
    intro α x y
    rw [hkept, take_append, length_replicate, take_of_length_le (by simp), Nat.add_sub_cancel_left, Nat.add_comm 1,
      take_succ_cons, take_replicate, length_append, min_eq_left (Nat.le_add_right _ _)]
  have hrow : row.take kept = lonelyText front.length back.length text := htake _ _
  have hcells : cells.take kept = lonelyCell front.length back.length c := htake _ _
  rw [hrow, hcells, rowData_lonelyCell _ _ hnull, encodeRow_lonelyText] at hdata
  exact hformat (lenEncString_injective hshort htext (append_cancel_right (append_cancel_left hdata)))

end Merge

/-- The rows of a `SELECT` without aggregate functions pass through the merge unchanged if no kept column alters its
texts, and, if the limit keeps a single row, only then. -/
theorem rows_pass_through_iff {p : TableAliasStmtInfo} {stmt : SelectStmt Parsed} {plan : SelectPlan}
    {wildcard : CIStr → CIStr → Nat}
    {fs : List Field} (hplan : handleSelectStmt p stmt = .ok plan) (hnone : plan.aggregateFuncs = [])
    (hwild : ∀ schema table, 0 < wildcard schema table) (hwidth : fs.length = columnsOf wildcard plan.stmt.fields)
    (hcolumns : fs.length < 2 ^ 16) (hvalid : ∀ f ∈ fs, f.Valid) :
    ((∀ f ∈ fs.take (columnsOf wildcard (plan.stmt.fields.take plan.originColumnCount)), f.Unaltered) →
      plan.PassesThrough fs (columnsOf wildcard (plan.stmt.fields.take plan.originColumnCount))) ∧
    (plan.KeepsRow → plan.PassesThrough fs (columnsOf wildcard (plan.stmt.fields.take plan.originColumnCount)) →
      ∀ f ∈ fs.take (columnsOf wildcard (plan.stmt.fields.take plan.originColumnCount)), f.Unaltered) := by
  obtain ⟨p₁, planned, h⟩ := selectLayout_of_ok hplan
  have hlength : (fs.map Field.columnType).length = columnsOf wildcard plan.stmt.fields := (length_map _).trans hwidth
  have hfits := h.fitsIn hwild hlength
  exact ⟨SelectPlan.passesThrough_of_unaltered hfits hnone hvalid,
    fun hkeeps hpasses => hpasses.unaltered hfits hkeeps hvalid hcolumns⟩

def columnOf (type flag columnLength decimal : Nat) : Field :=
  { schema := [], table := [], orgTable := [], name := [], orgName := [], charset := 33, columnLength,
    type, flag, decimal
    defaultValue := none }

/-- `SELECT a, b FROM t ORDER BY c`, where `a` is an `INT`, `b` is a `VARCHAR`, and `c` is zero-filled. -/
theorem rows_pass_through_iff_int_and_text : ∃ plan,
    handleSelectStmt (newTableAliasStmtInfo "db" hashRouter .insertion)
      (selectOrdered [.expr (.column () (bareColumn "a")) .empty, .expr (.column () (bareColumn "b")) .empty] "c") =
        .ok plan ∧
    plan.PassesThrough [columnOf 3 0 11 0, columnOf 253 0 20 0, columnOf 3 96 5 0] 2 := by
  refine exists_ok_of (fun plan => plan.aggregateFuncs = [] ∧ plan.stmt.fields.length = 3 ∧
    plan.originColumnCount = 2) ⟨_, rfl, rfl, rfl, rfl⟩ ?_
  rintro plan hplan ⟨hnone, hwidth, hkept⟩
  have hvalid : ∀ f ∈ [columnOf 3 0 11 0, columnOf 253 0 20 0, columnOf 3 96 5 0], f.Valid := by
    intro f hf
    simp only [mem_cons, not_mem_nil, or_false] at hf
    rcases hf with rfl | rfl | rfl
    · exact ⟨by decide, by decide, by decide, by decide⟩
    · exact ⟨by decide, by decide, by decide, by decide⟩
    · exact ⟨by decide, by decide, by decide, by decide⟩
  have hcolumns : [columnOf 3 0 11 0, columnOf 253 0 20 0, columnOf 3 96 5 0].length = columnsOf (fun _ _ => 1)
      plan.stmt.fields := by
    rw [columnsOf_one, hwidth]
    rfl
  have h := (rows_pass_through_iff hplan hnone (fun _ _ => Nat.one_pos) hcolumns (by decide) hvalid).1
  rw [columnsOf_one, length_take, hwidth, hkept] at h
  refine h fun f hf => ?_
  rcases mem_pair.1 hf with rfl | rfl
  · exact ⟨by decide, fun h => absurd h (by decide)⟩
  · exact ⟨fun h => absurd h (by decide), fun h => absurd h (by decide)⟩

/-- `SELECT a FROM t ORDER BY a`, where `a` is an `INT(5) ZEROFILL`: a shard sends `00042`, the client gets `42`. -/
theorem zerofill_lost : ∃ plan r res,
    handleSelectStmt (newTableAliasStmtInfo "db" hashRouter .insertion)
      (selectOrdered [.expr (.column () (bareColumn "a")) .empty] "a") = .ok plan ∧
    Received [columnOf 3 96 5 0] [[some (ascii "00042")]] r ∧ mergeSelectResult .short plan [r] = .ok res ∧
    res.rowDatas = [encodeRow [some (ascii "42")]] ∧
    encodeRow [some (ascii "42")] ≠ encodeRow [some (ascii "00042")] := by
  refine ⟨_, { fields := ["a"], values := [[.uint64 42]] }, _, rfl, ⟨rfl, ?_, ?_, ?_⟩, rfl, rfl, by decide⟩
  · refine forall_mem_singleton.2 ⟨rfl, forall_mem_singleton.2 fun text htext => ?_⟩
    obtain rfl := Option.some.inj htext
    exact ⟨42, by decide, by decide, by decide⟩
  · exact forall_mem_singleton.2 (by decide)
  · exact .cons (by decide) .nil

end DbProxy
