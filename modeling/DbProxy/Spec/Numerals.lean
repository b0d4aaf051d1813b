import Mathlib.Algebra.Order.Ring.Nat
import Mathlib.Tactic.Ring
import DbProxy.Router.Value

/-!
# Numerals

The decimal text of an integer, and what `strconv.ParseInt` reads in a text of digits.
-/

namespace DbProxy

open List

variable {s : GoString} {n m : Int} {c : Char}

/-! ### Reading digits -/

theorem natOfDigits_append (s t : GoString) :
    natOfDigits (s ++ t) = natOfDigits s * 10 ^ t.length + natOfDigits t := by
  have shift : ∀ (t : GoString) (n : Nat), t.foldl (fun n b => 10 * n + (b.toNat - 48)) n =
      n * 10 ^ t.length + natOfDigits t := by
    intro t
    induction t with
    | nil => simp [natOfDigits]
    | cons b t ih =>
      intro n
      have hcons : natOfDigits (b :: t) = (10 * 0 + (b.toNat - 48)) * 10 ^ t.length + natOfDigits t := ih _
      rw [foldl_cons, ih, hcons, length_cons, pow_succ]
      ring
  rw [natOfDigits, foldl_append, shift]
  rfl

theorem natOfDigits_lt (h : s.all isDigit = true) : natOfDigits s < 10 ^ s.length := by
  induction s with
  | nil => simp [natOfDigits]
  | cons b t ih =>
    rw [all_cons, Bool.and_eq_true] at h
    have hb : natOfDigits [b] ≤ 9 := by
      have hle : b.toNat ≤ 57 := by
        have := h.1
        simp only [isDigit, Bool.and_eq_true, decide_eq_true_eq, UInt8.le_iff_toNat_le] at this
        exact this.2
      simp only [natOfDigits, foldl_cons, foldl_nil]
      omega
    calc natOfDigits ([b] ++ t) = natOfDigits [b] * 10 ^ t.length + natOfDigits t := natOfDigits_append [b] t
      _ < 9 * 10 ^ t.length + 10 ^ t.length := Nat.add_lt_add_of_le_of_lt (Nat.mul_le_mul_right _ hb) (ih h.2)
      _ = 10 ^ (b :: t).length := by rw [length_cons, pow_succ]; ring

section

variable (hne : s ≠ []) (hd : s.all isDigit = true)

include hne hd

theorem parseUint_digits (hlt : natOfDigits s < 2 ^ 64) :
    parseUint s = ((natOfDigits s : Int), true) := by
  unfold parseUint
  rw [if_neg (by simp [hne, hd]), if_pos hlt]

omit hne in
theorem isDigit_head : s.head? ≠ some 43 ∧ s.head? ≠ some 45 := by
  cases s with
  | nil => exact ⟨nofun, nofun⟩
  | cons b t =>
    rw [all_cons, Bool.and_eq_true] at hd
    constructor
    · intro h
      rw [Option.some.inj h] at hd
      exact absurd hd.1 (by decide)
    · intro h
      rw [Option.some.inj h] at hd
      exact absurd hd.1 (by decide)

theorem parseInt_digits (hlt : natOfDigits s < 2 ^ 63) :
    parseInt s = ((natOfDigits s : Int), true) := by
  obtain ⟨hplus, hminus⟩ := isDigit_head hd
  unfold parseInt
  simp [hplus, hminus, hne, hd]
  exact hlt

theorem parseInt_minus (hle : natOfDigits s ≤ 2 ^ 63) :
    parseInt (45 :: s) = (-(natOfDigits s : Int), true) := by
  unfold parseInt
  simp [hne, hd]
  exact hle

theorem atoi_digits (hlen : s.length ≤ 18) :
    atoi s = some (natOfDigits s : Int) := by
  have hlt : natOfDigits s < 2 ^ 63 := by
    have h₁ := natOfDigits_lt hd
    have h₂ : 10 ^ s.length ≤ 10 ^ 18 := Nat.pow_le_pow_right (by omega) hlen
    omega
  simp [atoi, parseInt_digits hne hd hlt]

end

theorem parseInt_range (text : GoString) : -2 ^ 63 ≤ (parseInt text).1 ∧ (parseInt text).1 < 2 ^ 63 := by
  unfold parseInt
  extract_lets body
  clear_value body
  split_ifs <;> constructor <;> (dsimp only; omega)

/-! ### The text of an integer -/

theorem mem_repr_nat {n : Nat} (h : c ∈ n.repr.toList) : 48 ≤ c.toNat ∧ c.toNat ≤ 57 := by
  rw [Nat.repr_eq_ofList_toDigits, String.toList_ofList] at h
  have hc := Nat.isDigit_of_mem_toDigits (by decide) (by decide) h
  unfold Char.isDigit at hc
  rw [Bool.and_eq_true, decide_eq_true_eq, decide_eq_true_eq] at hc
  exact ⟨UInt32.le_iff_toNat_le.1 hc.1, UInt32.le_iff_toNat_le.1 hc.2⟩

theorem toString_int (n : Int) : (0 ≤ n ∧ (toString n).toList = n.toNat.repr.toList) ∨
    (n < 0 ∧ (toString n).toList = '-' :: (-n).toNat.repr.toList) := by
  have htext : (toString n).toList = n.repr.toList := rfl
  rw [htext, Int.repr_eq_if]
  split
  · next h => exact .inl ⟨h, rfl⟩
  · next h => exact .inr ⟨by omega, String.toList_append⟩

theorem mem_toString_int (h : c ∈ (toString n).toList) : c = '-' ∨ (48 ≤ c.toNat ∧ c.toNat ≤ 57) := by
  rcases toString_int n with ⟨_, htext⟩ | ⟨_, htext⟩
  · rw [htext] at h
    exact .inr (mem_repr_nat h)
  · rw [htext] at h
    exact (mem_cons.1 h).imp id mem_repr_nat

theorem repr_nat_injective {m n : Nat} (h : m.repr.toList = n.repr.toList) : m = n := by
  rw [Nat.repr_eq_ofList_toDigits, Nat.repr_eq_ofList_toDigits, String.toList_ofList, String.toList_ofList] at h
  rw [← Nat.ofDigitChars_ten_toDigits (n := m), h, Nat.ofDigitChars_ten_toDigits]

theorem toString_int_injective (h : (toString m).toList = (toString n).toList) : m = n := by
  have hminus : ∀ k : Nat, '-' ∉ k.repr.toList := fun k hk => absurd (mem_repr_nat hk).1 (by decide)
  rcases toString_int m with ⟨hm, hmt⟩ | ⟨hm, hmt⟩
  · rcases toString_int n with ⟨hn, hnt⟩ | ⟨hn, hnt⟩
    · have := repr_nat_injective ((hmt.symm.trans h).trans hnt)
      omega
    · exact absurd ((hmt.symm.trans h).trans hnt ▸ mem_cons_self) (hminus _)
  · rcases toString_int n with ⟨hn, hnt⟩ | ⟨hn, hnt⟩
    · exact absurd ((hnt.symm.trans h.symm).trans hmt ▸ mem_cons_self) (hminus _)
    · have := repr_nat_injective (List.cons.inj ((hmt.symm.trans h).trans hnt)).2
      omega

theorem mem_ascii_int {b : UInt8} (h : b ∈ ascii (toString n)) : b = 45 ∨ (48 ≤ b.toNat ∧ b.toNat ≤ 57) := by
  obtain ⟨c, hc, rfl⟩ := mem_map.1 h
  rcases mem_toString_int hc with rfl | hc
  · exact .inl rfl
  · right
    rw [UInt8.toNat_ofNat', Nat.mod_eq_of_lt (by omega)]
    exact hc

theorem ascii_int_injective (h : ascii (toString m) = ascii (toString n)) : m = n := by
  -- the characters can be read back from the bytes
  have hback : ∀ k : Int, (ascii (toString k)).map (fun b => Char.ofNat b.toNat) = (toString k).toList := by
    intro k
    unfold ascii
    rw [map_map]
    refine (map_congr_left fun c hc => ?_).trans (map_id _)
    have hlt : c.toNat < 256 := by
      rcases mem_toString_int hc with rfl | hc
      · decide
      · omega
    show Char.ofNat (UInt8.ofNat c.toNat).toNat = c
    rw [UInt8.toNat_ofNat', Nat.mod_eq_of_lt hlt, Char.ofNat_toNat]
  exact toString_int_injective (by rw [← hback, ← hback, h])

theorem repr_all_isDigit (n : Nat) : (ascii n.repr).all isDigit = true := by
  refine all_eq_true.2 fun b hb => ?_
  obtain ⟨c, hc, rfl⟩ := mem_map.1 hb
  obtain ⟨hlow, hhigh⟩ := mem_repr_nat hc
  have hnat : (UInt8.ofNat c.toNat).toNat = c.toNat := by
    rw [UInt8.toNat_ofNat', Nat.mod_eq_of_lt (by omega)]
  unfold isDigit
  rw [Bool.and_eq_true, decide_eq_true_eq, decide_eq_true_eq, UInt8.le_iff_toNat_le, UInt8.le_iff_toNat_le, hnat]
  exact ⟨hlow, hhigh⟩

theorem repr_ne_nil (n : Nat) : ascii n.repr ≠ [] := by
  intro h
  have htext : n.repr.toList = [] := map_eq_nil_iff.1 h
  rw [Nat.repr_eq_ofList_toDigits, String.toList_ofList] at htext
  exact Nat.toDigits_ne_nil htext

theorem natOfDigits_repr (n : Nat) : natOfDigits (ascii n.repr) = n := by
  have hfold : ∀ (cs : List Char) (m : Nat), (∀ c ∈ cs, 48 ≤ c.toNat ∧ c.toNat ≤ 57) →
      (cs.map fun c => UInt8.ofNat c.toNat).foldl (fun n b => 10 * n + (b.toNat - 48)) m =
        Nat.ofDigitChars 10 cs m := by
    intro cs
    induction cs with
    | nil => intro m _; rfl
    | cons c cs ih =>
      intro m hcs
      have hc := hcs c mem_cons_self
      rw [map_cons, foldl_cons, ih _ fun c hc => hcs c (mem_cons_of_mem _ hc), Nat.ofDigitChars_cons,
        UInt8.toNat_ofNat', Nat.mod_eq_of_lt (by omega)]
      rfl
  unfold natOfDigits ascii
  rw [hfold _ 0 fun c hc => mem_repr_nat hc, Nat.repr_eq_ofList_toDigits, String.toList_ofList,
    Nat.ofDigitChars_ten_toDigits]

theorem ascii_int (n : Int) : (0 ≤ n ∧ ascii (toString n) = ascii n.toNat.repr) ∨
    (n < 0 ∧ ascii (toString n) = 45 :: ascii (-n).toNat.repr) := by
  unfold ascii
  rcases toString_int n with ⟨hn, htext⟩ | ⟨hn, htext⟩
  · exact .inl ⟨hn, by rw [htext]⟩
  · exact .inr ⟨hn, by rw [htext, map_cons]; rfl⟩

theorem parseUint_int (h₀ : 0 ≤ n) (h : n < 2 ^ 64) : parseUint (ascii (toString n)) = (n, true) := by
  rcases ascii_int n with ⟨_, htext⟩ | ⟨hneg, _⟩
  · rw [htext, parseUint_digits (repr_ne_nil _) (repr_all_isDigit _) (by rw [natOfDigits_repr]; omega),
      natOfDigits_repr, Int.toNat_of_nonneg h₀]
  · omega

theorem parseInt_int (h₀ : -2 ^ 63 ≤ n) (h : n < 2 ^ 63) : parseInt (ascii (toString n)) = (n, true) := by
  rcases ascii_int n with ⟨hn, htext⟩ | ⟨hn, htext⟩
  · rw [htext, parseInt_digits (repr_ne_nil _) (repr_all_isDigit _) (by rw [natOfDigits_repr]; omega),
      natOfDigits_repr, Int.toNat_of_nonneg hn]
  · rw [htext, parseInt_minus (repr_ne_nil _) (repr_all_isDigit _) (by rw [natOfDigits_repr]; omega),
      natOfDigits_repr, Int.toNat_of_nonneg (by omega), Int.neg_neg]

end DbProxy
