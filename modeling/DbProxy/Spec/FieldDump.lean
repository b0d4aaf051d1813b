import DbProxy.Spec.Decoders

/-!
# Column definitions, written and read

`Field.Dump` writes the length of a default value as eight bytes, and `FieldData.Parse` reads it as a length encoded
integer: seven bytes of the length are taken for the first bytes of the value.
-/

namespace DbProxy

open Fallible List

/-- `AppendUint16`, `AppendUint32` and `AppendUint64`, by the number of bytes. -/
def appendUint (width n : Nat) : GoString := (range width).map fun i => UInt8.ofNat (n / 256 ^ i)

def Field.dumpDefault (f : Field) : GoString := f.defaultValue.elim [] fun v => appendUint 8 v.length ++ v

/-- `Field.Dump` of a field without raw data.  `DefaultValueLength` is the length of the default value. -/
def Field.dump (f : Field) : GoString :=
  lenEncString (ascii "def") ++ (lenEncString f.schema ++ (lenEncString f.table ++ (lenEncString f.orgTable ++
    (lenEncString f.name ++
      (lenEncString f.orgName ++ ([0x0c] ++ (appendUint 2 f.charset ++ (appendUint 4 f.columnLength ++
      ([UInt8.ofNat f.type] ++
        (appendUint 2 f.flag ++ ([UInt8.ofNat f.decimal] ++ ([0, 0] ++ f.dumpDefault))))))))))))

/-- The attributes have the widths of their types. -/
structure Field.Sized (f : Field) : Prop where
  charset : f.charset < 2 ^ 16
  columnLength : f.columnLength < 2 ^ 32
  type : f.type < 2 ^ 8
  flag : f.flag < 2 ^ 16
  decimal : f.decimal < 2 ^ 8

section Parts

variable {data front back t : GoString}

theorem readFieldString_bytes (hlen : data.length < 2 ^ 63) (hdata : data = front ++ (lenEncString t ++ back))
    (what : String) : readFieldString what data front.length = .ok (t, (front ++ lenEncString t).length) ∧
      data = (front ++ lenEncString t) ++ back := by
  subst hdata
  exact ⟨bind_of_ok (readLenEncStringAsBytes_lenEncString hlen), (append_assoc ..).symm⟩

theorem skipLenEncString_bytes (hlen : (lenEncString t ++ back).length < 2 ^ 63) :
    skipLenEncString (lenEncString t ++ back) 0 = .ok (some (lenEncString t).length) := by
  have hread := @readLenEncStringAsBytes_lenEncString [] back t hlen
  rcases readLenEncStringAsBytes_cases [] (lenEncString t ++ back) hlen with
    ⟨-, h, -⟩ | ⟨n, isNull, head, after, -, -, -, ⟨-, h, -⟩ | ⟨-, -, h, -⟩ | ⟨-, -, h, hskip⟩⟩
  · cases hread.symm.trans h
  · cases hread.symm.trans h
  · cases hread.symm.trans h
  · have hpos : ((lenEncString t).length : Int) = _ := congrArg (·.2.1) (Option.some.inj (ok_unique hread h))
    rw [hpos]
    exact hskip

theorem uintAt_bytes {width n : Nat} {pos : Int} (hn : n < 256 ^ width)
    (hdata : data = front ++ (appendUint width n ++ back))
    (hpos : pos = front.length) : uintAt width data pos = .ok n := by
  subst hdata hpos
  refine (bind_of_ok (slice_append front _ back rfl (by simp [appendUint]))).trans ?_
  exact congrArg Except.ok ((littleEndian_bytes width n).trans (Nat.mod_eq_of_lt hn))

theorem byteAt_bytes {b : UInt8} {pos : Int} (hdata : data = front ++ ([b] ++ back)) (hpos : pos = front.length) :
    byteAt data pos = .ok b := by
  subst hdata hpos
  exact byteAt_append front back b

theorem parseFixed_bytes {f : Field} (hf : f.Sized) (hdata : data = front ++ ([0x0c] ++ (appendUint 2 f.charset ++
      (appendUint 4 f.columnLength ++ ([UInt8.ofNat f.type] ++ (appendUint 2 f.flag ++ ([UInt8.ofNat f.decimal] ++
        ([0, 0] ++ back)))))))) :
    (uintAt 2 data (front.length + 1) = .ok f.charset ∧ uintAt 4 data (front.length + 3) = .ok f.columnLength ∧
      byteAt data (front.length + 7) = .ok (UInt8.ofNat f.type) ∧ uintAt 2 data (front.length + 8) = .ok f.flag ∧
      byteAt data (front.length + 10) = .ok (UInt8.ofNat f.decimal)) ∧
    ∃ head : GoString, data = head ++ back ∧ (front.length + 13 : Int) = head.length := by
  have hnext : ∀ {front m rest : GoString}, data = front ++ (m ++ rest) → data = (front ++ m) ++ rest :=
    fun h => h.trans (append_assoc ..).symm
  have hlength : ∀ width n, (appendUint width n).length = width := fun width n => by simp [appendUint]
  have h₁ := hnext hdata
  have h₂ := hnext h₁
  have h₃ := hnext h₂
  have h₄ := hnext h₃
  have h₅ := hnext h₄
  have h₆ := hnext h₅
  refine ⟨⟨uintAt_bytes hf.charset h₁ ?_, uintAt_bytes hf.columnLength h₂ ?_, byteAt_bytes h₃ ?_,
    uintAt_bytes hf.flag h₄ ?_, byteAt_bytes h₅ ?_⟩, _, hnext h₆, ?_⟩
  all_goals
    simp only [length_append, hlength, List.length_cons, List.length_nil]
    omega

end Parts

theorem Field.parse_dump {f : Field} (hf : f.Sized) (hlen : f.dump.length < 2 ^ 63) :
    ∃ front : GoString, f.dump = front ++ f.dumpDefault ∧
      Field.parse f.dump = (readDefaultValue f.dump front.length).map fun d => { f with defaultValue := d } := by
  have hskip : skipLenEncString f.dump 0 = .ok (some (lenEncString (ascii "def")).length) :=
    skipLenEncString_bytes hlen
  obtain ⟨data, hdata⟩ : ∃ data, data = f.dump := ⟨_, rfl⟩
  rw [← hdata] at hlen hskip ⊢
  obtain ⟨hschema, hdata⟩ := readFieldString_bytes hlen hdata "Schema"
  obtain ⟨htable, hdata⟩ := readFieldString_bytes hlen hdata "Table"
  obtain ⟨horgTable, hdata⟩ := readFieldString_bytes hlen hdata "OrgTable"
  obtain ⟨hname, hdata⟩ := readFieldString_bytes hlen hdata "Name"
  obtain ⟨horgName, hdata⟩ := readFieldString_bytes hlen hdata "OrgName"
  obtain ⟨⟨hcharset, hcolumnLength, htype, hflag, hdecimal⟩, head, hhead, hpos⟩ := parseFixed_bytes hf hdata
  have hbyte : ∀ n : Nat, n < 2 ^ 8 → (UInt8.ofNat n).toNat = n := fun n hn => by
    rw [UInt8.toNat_ofNat', Nat.mod_eq_of_lt hn]
  refine ⟨head, hhead, ?_⟩
  rw [Field.parse_eq, bind_of_ok hskip]
  unfold Field.parseFrom
  simp only [bind_of_ok hschema, bind_of_ok htable, bind_of_ok horgTable, bind_of_ok hname, bind_of_ok horgName,
    bind_of_ok hcharset, bind_of_ok hcolumnLength, bind_of_ok htype, bind_of_ok hflag, bind_of_ok hdecimal, hpos,
    hbyte _ hf.type, hbyte _ hf.decimal]
  cases readDefaultValue data head.length <;> rfl

/-! ### The default value -/

theorem appendUint_succ (k n : Nat) : appendUint (k + 1) n = UInt8.ofNat n :: appendUint k (n / 256) :=
  bytes_succ k n

theorem take_replicate_append_iff {α : Type} (z : α) {k : Nat} (hk : 0 < k) (v : List α) :
    (replicate k z ++ v).take v.length = v ↔ ∀ b ∈ v, b = z := by
  constructor
  · intro h b hb
    obtain ⟨i, hi, rfl⟩ := mem_iff_getElem.1 hb
    induction i using Nat.strongRecOn with
    | ind i ih =>
      have hget : ((replicate k z ++ v).take v.length)[i]? = v[i]? := by rw [h]
      rw [getElem?_take_of_lt hi, getElem?_append, length_replicate, getElem?_eq_getElem hi] at hget
      split at hget
      · next hlt =>
        rw [getElem?_replicate_of_lt hlt] at hget
        exact (Option.some.inj hget).symm
      · next hge =>
        have hlt : i - k < v.length := by omega
        rw [getElem?_eq_getElem hlt] at hget
        rw [← Option.some.inj hget]
        exact ih (i - k) (by omega) hlt (getElem_mem hlt)
  · intro h
    rw [eq_replicate_of_mem h, length_replicate, replicate_append_replicate, take_replicate]
    congr 1
    omega

theorem Wire.length_dumpDefault {v : GoString} (hv : v.length < 2 ^ 63) :
    ∃ n isNull after, Wire.length (appendUint 8 v.length ++ v) = some (n, isNull, after) ∧
      (n ≤ after.length ∧ after.take n = v ↔ (v.length ≤ 250 ∨ v.length = 255) ∧ ∀ b ∈ v, b = 0) := by
  have hb : (UInt8.ofNat v.length).toNat = v.length % 256 := UInt8.toNat_ofNat'
  rw [appendUint_succ, cons_append, Wire.length_cons]
  by_cases hshort : v.length ≤ 250 ∨ v.length = 255
  · have hne : ∀ b : UInt8, 250 < b.toNat → b.toNat < 255 → UInt8.ofNat v.length ≠ b := by
      rintro b hlow hhigh rfl
      omega
    rw [if_neg (hne _ (by decide) (by decide)), if_neg (hne _ (by decide) (by decide)),
      if_neg (hne _ (by decide) (by decide)), if_neg (hne _ (by decide) (by decide))]
    refine ⟨_, _, _, rfl, ?_⟩
    rw [hb, Nat.mod_eq_of_lt (by omega), Nat.div_eq_of_lt (by omega), and_iff_right (by simp), and_iff_right hshort]
    exact take_replicate_append_iff 0 (k := 7) (by decide) v
  have hfalse : ∀ {n : Nat} {after : GoString}, (n = v.length → n ≤ after.length → False) →
      (n ≤ after.length ∧ after.take n = v ↔ (v.length ≤ 250 ∨ v.length = 255) ∧ ∀ b ∈ v, b = 0) := by
    refine fun h => iff_of_false ?_ fun h' => hshort h'.1
    rintro ⟨hle, htake⟩
    refine h ?_ hle
    rw [← htake, length_take, Nat.min_eq_left hle]
  have hlength : (appendUint 7 (v.length / 256) ++ v).length = 7 + v.length := by simp [appendUint]
  have hwide : ∀ width, width ≤ 8 → ∃ n isNull after, wideLength width (appendUint 7 (v.length / 256) ++ v) =
      some (n, isNull, after) ∧
        (n ≤ after.length ∧ after.take n = v ↔ (v.length ≤ 250 ∨ v.length = 255) ∧ ∀ b ∈ v, b = 0) := by
    intro width hwidth
    refine ⟨_, _, _, if_neg (by omega), hfalse ?_⟩
    intro hn hle
    rw [length_drop, hlength] at hle
    rcases Nat.lt_or_ge 7 width with hlong | hwidth
    · omega
    · have htake : (appendUint 7 (v.length / 256) ++ v).take width = appendUint width (v.length / 256) := by
        rw [take_append_of_le_length (by simpa [appendUint] using hwidth), appendUint, ← map_take, take_range,
          Nat.min_eq_left hwidth, appendUint]
      have hvalue : littleEndian (appendUint width (v.length / 256)) = v.length / 256 % 256 ^ width :=
        littleEndian_bytes ..
      have hmod := Nat.mod_le (v.length / 256) (256 ^ width)
      rw [htake, hvalue] at hn
      omega
  split_ifs with h₁ h₂ h₃ h₄
  · exact ⟨_, _, _, rfl, hfalse (by omega)⟩
  · exact hwide 2 (by decide)
  · exact hwide 3 (by decide)
  · exact hwide 8 (by decide)
  · refine ⟨_, _, _, rfl, hfalse fun hn _ => ?_⟩
    have hmarks : v.length = 251 ∨ v.length = 252 ∨ v.length = 253 ∨ v.length = 254 := by omega
    rcases hmarks with h | h | h | h <;> rw [h] at h₁ h₂ h₃ h₄ <;> contradiction

theorem readDefaultValue_dumpDefault {front v : GoString}
    (hlen : (front ++ (appendUint 8 v.length ++ v)).length < 2 ^ 63) :
    readDefaultValue (front ++ (appendUint 8 v.length ++ v)) front.length = .ok (some v) ↔
      (v.length ≤ 250 ∨ v.length = 255) ∧ ∀ b ∈ v, b = 0 := by
  have hv : v.length < 2 ^ 63 := by
    simp only [length_append] at hlen
    omega
  obtain ⟨n, isNull, after, hwire, hiff⟩ := Wire.length_dumpDefault hv
  obtain ⟨-, b, head, hrest⟩ := Wire.length_spec hwire
  rw [readDefaultValue_of_some hlen hwire, ← hiff]
  have hlength : after.length ≤ (front ++ (appendUint 8 v.length ++ v)).length := by
    rw [hrest]
    simp only [length_append]
    omega
  split_ifs with hwrap hshort
  · exact iff_of_false nofun (by omega)
  · exact iff_of_false nofun (by omega)
  · rw [and_iff_right (Nat.not_lt.1 hshort), Except.ok.injEq, Option.some.injEq]

/-- A dumped field is read back if, and only if, it has no default value, or one of zero bytes whose length is one
byte without a special meaning. -/
theorem Field.parse_dump_iff (f : Field) (hf : f.Sized) (hlen : f.dump.length < 2 ^ 63) :
    Field.parse f.dump = .ok f ↔
      ∀ v, f.defaultValue = some v → (v.length ≤ 250 ∨ v.length = 255) ∧ ∀ b ∈ v, b = 0 := by
  obtain ⟨front, hdump, hparse⟩ := Field.parse_dump hf hlen
  have hiff : Field.parse f.dump = .ok f ↔ readDefaultValue f.dump front.length = .ok f.defaultValue := by
    rw [hparse]
    constructor
    · intro h
      cases hread : readDefaultValue f.dump front.length with
      | error e => rw [hread] at h; cases h
      | ok d =>
        rw [hread] at h
        exact congrArg Except.ok (congrArg Field.defaultValue (Except.ok.inj h))
    · intro h
      rw [h]
      rfl
  rw [hiff, hdump]
  rw [hdump] at hlen
  unfold Field.dumpDefault at *
  cases hv : f.defaultValue with
  | none =>
    refine iff_of_true ?_ nofun
    unfold readDefaultValue
    rw [Option.elim_none, append_nil, if_pos le_rfl]
    rfl
  | some v =>
    rw [hv] at hlen
    refine (readDefaultValue_dumpDefault hlen).trans ⟨?_, fun h => h v rfl⟩
    rintro h _ ⟨⟩
    exact h

def column (defaultValue : Option GoString) : Field :=
  ⟨ascii "d", ascii "t", ascii "t", ascii "a", ascii "a", 33, 10, 253, 1, 0, defaultValue⟩

theorem Field.parse_dump_iff_plain : Field.parse (column none).dump = .ok (column none) :=
  (Field.parse_dump_iff (column none) ⟨by decide, by decide, by decide, by decide, by decide⟩
    (by decide +kernel)).2 nofun

theorem Field.parse_dump_letter : (column (some (ascii "a"))).Sized ∧
    Field.parse (column (some (ascii "a"))).dump = .ok (column (some [0])) ∧
    column (some [0]) ≠ column (some (ascii "a")) :=
  ⟨⟨by decide, by decide, by decide, by decide, by decide⟩, by decide +kernel, by decide +kernel⟩

end DbProxy
