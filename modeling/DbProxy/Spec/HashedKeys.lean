import DbProxy.Spec.Rules

/-!
# Keys of the hashing rules

Which index a key gets.  The absolute value of the least 64-bit integer is negative, and the length of a text is
counted in bytes while its characters are hashed.
-/

namespace DbProxy

open Fallible List

/-! ### Remainders -/

theorem abs_tmod_inRange_iff {n : Int} (h₁ : -2 ^ 63 ≤ n) (h₂ : n < 2 ^ 63) {k : Nat} (hk : 0 < k) :
    (0 ≤ (abs n).tmod k ∧ (abs n).tmod k < k) ↔ ¬(n = -2 ^ 63 ∧ ¬(k : Int) ∣ 2 ^ 63) := by
  by_cases hn : n = -2 ^ 63
  · have habs : abs n = -2 ^ 63 := by rw [hn]; decide
    have hneg : (-2 ^ 63 : Int).tmod k = -(2 ^ 63 % k) := by rw [Int.neg_tmod, Int.tmod_eq_emod_of_nonneg (by decide)]
    have hnonneg : 0 ≤ (2 ^ 63 : Int) % k := Int.emod_nonneg _ (by omega)
    rw [habs, hneg, and_iff_right hn, not_not, Int.dvd_iff_emod_eq_zero]
    omega
  · have habs : 0 ≤ abs n := by
      unfold abs
      split
      · rw [toInt64_of_range (by omega) (by omega)]
        omega
      · omega
    refine iff_of_true ?_ fun h => hn h.1
    rw [Int.tmod_eq_emod_of_nonneg habs]
    exact ⟨Int.emod_nonneg _ (by omega), Int.emod_lt_of_pos _ (by omega)⟩

theorem wp_bind_iff {ε α β : Type} {E : ε → Prop} {Q : β → Prop} {G : α → Prop} {x : Except ε α}
    {f : α → Except ε β} {c : Prop}
    (hx : ∃ a, x = .ok a ∧ G a) (h : ∀ a, G a → (Wp E Q (f a) ↔ c)) : Wp E Q (x >>= f) ↔ c := by
  obtain ⟨a, rfl, ha⟩ := hx
  exact h a ha

/-! ### Some digits of a padded key -/

theorem parseInt_nonneg {s : GoString} (h : s.head? ≠ some 45) : 0 ≤ (parseInt s).1 := by
  unfold parseInt
  dsimp only
  rw [if_neg h]
  split_ifs <;> simp

theorem natOfDigits_padded {D : GoString} {k l : Nat} (hle : natOfDigits D ≤ 2 ^ 63) (hl : l ≤ D.length + k)
    (h : natOfDigits ((D ++ replicate k 48).take l) = 2 ^ 63) : l = D.length ∧ natOfDigits D = 2 ^ 63 := by
  rcases Nat.lt_trichotomy l D.length with hlt | rfl | hgt
  · rw [take_append_of_le_length hlt.le] at h
    have hsplit := natOfDigits_append (D.take l) (D.drop l)
    rw [take_append_drop, h, length_drop] at hsplit
    have hpow : 10 ^ 1 ≤ 10 ^ (D.length - l) := Nat.pow_le_pow_right (by decide) (by omega)
    have := Nat.mul_le_mul_left (2 ^ 63) hpow
    omega
  · rw [take_append_of_le_length le_rfl, take_length] at h
    exact ⟨rfl, h⟩
  · obtain ⟨j, rfl⟩ : ∃ j, l = D.length + (j + 1) := ⟨l - D.length - 1, by omega⟩
    rw [take_length_add_append, take_replicate, natOfDigits_append, Nat.min_eq_left (by omega)] at h
    have hzeros : natOfDigits (replicate (j + 1) 48) = 10 * natOfDigits (replicate j 48) := by
      rw [replicate_succ', natOfDigits_append]
      simp [natOfDigits, Nat.mul_comm]
    rw [hzeros, length_replicate, Nat.pow_succ, ← Nat.mul_assoc] at h
    omega

theorem checkParam_eq_ok {m : PaddingMod} (h : m.checkParam = .ok ()) :
    0 < m.mod ∧ 0 ≤ m.modBegin ∧ m.modBegin < m.modEnd ∧ 0 < m.padLength := by
  unfold PaddingMod.checkParam at h
  split_ifs at h
  omega

theorem parseInt_minus_eq {t : GoString} (h : parseInt (45 :: t) = (-2 ^ 63, true)) : natOfDigits t = 2 ^ 63 := by
  unfold parseInt at h
  simp only [head?_cons, tail_cons, decide_true, Bool.or_true, if_true] at h
  split_ifs at h <;> simp at h
  omega

theorem parseInt_cut_ne {s : GoString} (h : 45 ∉ s) (b e : Nat) : parseInt ((s.take e).drop b) ≠ (-2 ^ 63, true) := by
  intro hs
  have hhead : ((s.take e).drop b).head? ≠ some 45 := fun hhead =>
    h (mem_of_mem_take (mem_of_mem_drop (mem_of_mem_head? hhead)))
  have := parseInt_nonneg hhead
  rw [hs] at this
  omega

theorem parseInt_padded {h : Int} (h₁ : -2 ^ 63 ≤ h) {k b e : Nat} (he : e ≤ (ascii (toString h)).length + k) :
    parseInt (((ascii (toString h) ++ replicate k 48).take e).drop b) = (-2 ^ 63, true) ↔
      h = -2 ^ 63 ∧ b = 0 ∧ e = 20 := by
  constructor
  · intro hparse
    have hdigits : ∀ n : Nat, 45 ∉ ascii n.repr ++ replicate k 48 := by
      intro n hmem
      rcases mem_append.1 hmem with hmem | hmem
      · exact absurd (all_eq_true.1 (repr_all_isDigit n) _ hmem) (by decide)
      · exact absurd (mem_replicate.1 hmem).2 (by decide)
    rcases ascii_int h with ⟨hn, htext⟩ | ⟨hn, htext⟩
    · rw [htext] at hparse
      exact absurd hparse (parseInt_cut_ne (hdigits _) b e)
    rw [htext, length_cons] at he
    rw [htext, cons_append] at hparse
    cases e with
    | zero => exact absurd hparse (by simp [parseInt])
    | succ e =>
      rw [take_succ_cons] at hparse
      cases b with
      | succ b => exact absurd hparse (parseInt_cut_ne (hdigits _) b e)
      | zero =>
        obtain ⟨rfl, hvalue⟩ :=
          natOfDigits_padded (by rw [natOfDigits_repr]; omega) (by omega) (parseInt_minus_eq hparse)
        rw [natOfDigits_repr] at hvalue
        refine ⟨by omega, rfl, ?_⟩
        rw [hvalue]
        decide +kernel
  · rintro ⟨rfl, rfl, rfl⟩
    have hlen : (ascii (toString (-2 ^ 63 : Int))).length = 20 := by decide +kernel
    rw [drop_zero, take_append_of_le_length hlen.ge, take_of_length_le hlen.le]
    exact parseInt_int (by decide) (by decide)

/-- When a key gets an index: the cut lies inside of the padded text, and it is not the whole text of the least
integer with a remainder; a negative key that would be padded on the left is refused. -/
theorem paddingMod_total_iff {m : PaddingMod} (hm : m.checkParam = .ok ()) {key : GoVal} {h : Int}
    (hkey : numValue key = .ok h) (h₁ : -2 ^ 63 ≤ h) :
    Wp (fun e : Fail => ∃ msg, e = .error msg) (fun i : Int => 0 ≤ i ∧ i < m.mod)
      ((mycatPartitionPaddingModShard m).findForKey key) ↔
    m.padFrom = 0 ∧ h < 0 ∧ (ascii (toString h)).length ≤ m.padLength ∨
      m.modEnd ≤ m.padLength ∧ ¬(h = -2 ^ 63 ∧ m.modBegin = 0 ∧ m.modEnd = 20 ∧ ¬(m.mod : Int) ∣ 2 ^ 63) := by
  obtain ⟨hmod, hbegin, hend, hpad⟩ := checkParam_eq_ok hm
  show Wp _ _ (numValue key >>= _) ↔ _
  rw [bind_of_ok hkey]
  dsimp only
  by_cases hleft : m.padFrom = 0 ∧ h < 0 ∧ (ascii (toString h)).length ≤ m.padLength
  · rw [if_neg (by omega), if_pos hleft.1, if_pos hleft.2.1]
    exact iff_of_true ⟨_, rfl⟩ (.inl hleft)
  rw [or_iff_right hleft]
  refine wp_bind_iff (G := fun P => (P.length : Int) = m.padLength ∧ ∀ b e : Nat, e ≤ P.length →
    (parseInt ((P.take e).drop b) = (-2 ^ 63, true) ↔ h = -2 ^ 63 ∧ b = 0 ∧ e = 20)) ?_ ?_
  · split_ifs with hlong hside hneg
    · refine ⟨_, rfl, by rw [length_take]; omega, fun b e he => ?_⟩
      rw [length_take] at he
      rw [take_take, Nat.min_eq_left (by omega), ← append_nil (ascii _), ← replicate_zero]
      exact parseInt_padded h₁ (by omega)
    · omega
    · have hdigits : 45 ∉ replicate (m.padLength - (ascii (toString h)).length).toNat 48 ++ ascii (toString h) := by
        intro hmem
        rcases mem_append.1 hmem with hmem | hmem
        · exact absurd (mem_replicate.1 hmem).2 (by decide)
        · rcases ascii_int h with ⟨-, htext⟩ | ⟨hn, -⟩
          · rw [htext] at hmem
            exact absurd (all_eq_true.1 (repr_all_isDigit _) _ hmem) (by decide)
          · omega
      refine ⟨_, rfl, by rw [length_append, length_replicate]; omega,
        fun b e _ => iff_of_false (parseInt_cut_ne hdigits b e) fun h => by omega⟩
    · refine ⟨_, rfl, by rw [length_append, length_replicate]; omega, fun b e he => parseInt_padded h₁ ?_⟩
      rwa [length_append, length_replicate] at he
  · rintro P ⟨hlen, hcut⟩
    by_cases hin : m.modEnd ≤ m.padLength
    swap
    · rw [if_pos (by omega)]
      exact iff_of_false (by rintro ⟨msg, h⟩; cases h) fun h => hin h.1
    rw [if_neg (by omega), and_iff_right hin]
    have hcut := hcut m.modBegin.toNat m.modEnd.toNat (by omega)
    have hrange := parseInt_range ((P.take m.modEnd.toNat).drop m.modBegin.toNat)
    generalize parseInt ((P.take m.modEnd.toNat).drop m.modBegin.toNat) = number at hcut hrange ⊢
    obtain ⟨n, ok⟩ := number
    cases ok with
    | false => exact iff_of_true ⟨_, rfl⟩ fun h => absurd (hcut.2 (by omega)) (by simp)
    | true =>
      have hif : (if (!true) = true then Except.error (.error "strconv.ParseInt") else if m.mod = 0 then
        .error (.panic "integer divide by zero") else .ok ((abs n).tmod m.mod) : Except Fail Int) =
          .ok ((abs n).tmod m.mod) :=
        (if_neg Bool.noConfusion).trans (if_neg (by omega))
      rw [hif]
      refine (abs_tmod_inRange_iff hrange.1 hrange.2 hmod).trans (not_congr ?_)
      rw [Prod.mk.injEq, and_iff_left rfl] at hcut
      dsimp only
      rw [hcut]
      constructor <;> rintro h <;> omega

theorem paddingMod_total_six : ∃ i, (mycatPartitionPaddingModShard ⟨1, 18, 10, 16, 2⟩).findForKey (.int64 7) = .ok i ∧
    0 ≤ i ∧ i < 2 := by
  refine ⟨_, rfl, (@paddingMod_total_iff ⟨1, 18, 10, 16, 2⟩ rfl (.int64 7) 7 rfl (by decide)).2 (.inr (by decide))⟩

/-- A cut behind the padded text, and the least integer modulo three. -/
theorem paddingMod_fails : PaddingMod.checkParam ⟨1, 5, 5, 10, 2⟩ = .ok () ∧
    PaddingMod.checkParam ⟨1, 20, 0, 20, 3⟩ = .ok () ∧
    (mycatPartitionPaddingModShard ⟨1, 5, 5, 10, 2⟩).findForKey
    (.int64 7) = .error (.panic "slice bounds out of range") ∧
    (mycatPartitionPaddingModShard ⟨1, 20, 0, 20, 3⟩).findForKey (.int64 (-2 ^ 63)) = .ok (-2) := by
  decide +kernel

end DbProxy
