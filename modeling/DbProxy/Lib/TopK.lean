import Mathlib.Data.List.Forall2
import Mathlib.Data.List.Perm.Basic
import Mathlib.Order.Lattice
import Mathlib.Tactic.ByContra

/-!
# The first rows of a sorted union

Rows are ordered by a list of keys, each ascending or descending (`keysLe`).  One list of keys refines another one for
all rows exactly if the other one is a prefix of it, once repeated keys are left out (`keysLe_of_prefix`,
`exists_separating`).

To find the first `k` rows of the union of some lists it is enough to know the first `k` rows of each list: whatever
sorted order of those is taken, its first `k` rows are the first `k` rows of a sorted order of the union
(`exists_sortsTo_take`).
-/

namespace TopK

open List

variable {α β : Type*}

/-! ### Ordering by keys -/

/-- `a` may come before `b`: at the first key where they differ, `a` is smaller, or greater if the key descends. -/
def keysLe [LinearOrder β] : List (Bool × (α → β)) → α → α → Prop
  | [], _, _ => True
  | (desc, f) :: ks, a, b => (if desc then f b < f a else f a < f b) ∨ (f a = f b ∧ keysLe ks a b)

section Keys

variable [LinearOrder β]

theorem keysLe_total (ks : List (Bool × (α → β))) (a b : α) : keysLe ks a b ∨ keysLe ks b a := by
  induction ks with
  | nil => exact .inl trivial
  | cons k ks ih =>
    obtain ⟨desc, f⟩ := k
    unfold keysLe
    rcases lt_trichotomy (f a) (f b) with h | h | h
    · cases desc with
      | false => exact .inl (.inl h)
      | true => exact .inr (.inl h)
    · exact ih.imp (fun h' => .inr ⟨h, h'⟩) (fun h' => .inr ⟨h.symm, h'⟩)
    · cases desc with
      | false => exact .inr (.inl h)
      | true => exact .inl (.inl h)

theorem keysLe_trans {ks : List (Bool × (α → β))} {a b c : α} (hab : keysLe ks a b) (hbc : keysLe ks b c) :
    keysLe ks a c := by
  induction ks with
  | nil => trivial
  | cons k ks ih =>
    obtain ⟨desc, f⟩ := k
    unfold keysLe at hab hbc ⊢
    rcases hab with hab | ⟨hab, hab'⟩
    · rcases hbc with hbc | ⟨hbc, _⟩
      · left
        cases desc with
        | false => exact lt_trans hab hbc
        | true => exact lt_trans hbc hab
      · left
        rwa [← hbc]
    · rcases hbc with hbc | ⟨hbc, hbc'⟩
      · left
        rwa [hab]
      · exact .inr ⟨hab.trans hbc, ih hab' hbc'⟩

end Keys

/-! ### Keys by name -/

section Named

variable {κ : Type*} [LinearOrder β] {v : κ → α → β} {a b : α}

/-- The keys as functions of the row; `v` gives the value of a key. -/
def valued (v : κ → α → β) (ks : List (Bool × κ)) : List (Bool × (α → β)) := ks.map fun k => (k.1, v k.2)

open Classical in
/-- The keys that can decide: a key that was compared before does not. -/
noncomputable def distinctKeys : List (Bool × κ) → List (Bool × κ)
  | [] => []
  | k :: ks => k :: (distinctKeys ks).filter fun k' => k'.2 ≠ k.2

open Classical in
theorem keysLe_filter {e : κ} (htie : v e a = v e b) (ks : List (Bool × κ)) :
    keysLe (valued v (ks.filter fun k => k.2 ≠ e)) a b ↔ keysLe (valued v ks) a b := by
  induction ks with
  | nil => exact Iff.rfl
  | cons k ks ih =>
    by_cases hk : k.2 = e
    · rw [filter_cons_of_neg (by simpa using hk), ih]
      have hdecides : keysLe (valued v (k :: ks)) a b ↔
          (if k.1 then v k.2 b < v k.2 a else v k.2 a < v k.2 b) ∨ (v k.2 a = v k.2 b ∧ keysLe (valued v ks) a b) :=
        Iff.rfl
      rw [hdecides, hk, htie]
      simp
    · rw [filter_cons_of_pos (by simpa using hk)]
      exact or_congr Iff.rfl (and_congr_right fun _ => ih)

theorem keysLe_distinctKeys (ks : List (Bool × κ)) :
    keysLe (valued v (distinctKeys ks)) a b ↔ keysLe (valued v ks) a b := by
  induction ks with
  | nil => exact Iff.rfl
  | cons k ks ih => exact or_congr Iff.rfl (and_congr_right fun htie => (keysLe_filter htie _).trans ih)

theorem distinctKeys_pairwise (ks : List (Bool × κ)) : (distinctKeys ks).Pairwise fun k k' => k.2 ≠ k'.2 := by
  induction ks with
  | nil => exact Pairwise.nil
  | cons k ks ih =>
    refine pairwise_cons.2 ⟨?_, ih.filter _⟩
    intro k' hk'
    have hne : k'.2 ≠ k.2 := by simpa using (mem_filter.1 hk').2
    exact hne.symm

theorem keysLe_of_prefix {xs ks : List (Bool × κ)} (h : xs <+: ks) (hle : keysLe (valued v ks) a b) :
    keysLe (valued v xs) a b := by
  obtain ⟨more, rfl⟩ := h
  induction xs with
  | nil => trivial
  | cons x xs ih => exact hle.imp id (And.imp_right ih)

section Separate

variable {g : Bool → β} {p : κ → Bool → Bool} {k : Bool × κ}

theorem keysLe_head (hg : g false < g true) (hp : ∀ r, p k.2 r = (r == k.1)) (ks : List (Bool × κ)) :
    keysLe (valued (fun e r => g (p e r)) (k :: ks)) true false := by
  left
  simp only [hp]
  cases k.1 with
  | false => exact hg
  | true => exact hg

theorem not_keysLe_head (hg : g false < g true) (hp : ∀ r, p k.2 r = (r != k.1)) (ks : List (Bool × κ)) :
    ¬ keysLe (valued (fun e r => g (p e r)) (k :: ks)) true false := by
  rintro (h | ⟨h, _⟩)
  · simp only [hp] at h
    revert h
    cases k.1 with
    | false => exact hg.not_gt
    | true => exact hg.not_gt
  · simp only [hp] at h
    revert h
    cases k.1 with
    | false => exact hg.ne'
    | true => exact hg.ne

/-- Where one list of keys is not a prefix of the other, two rows can be told apart: by the keys `ks` the row `true`
may come first, by the keys `xs` it may not. -/
theorem exists_separating (hg : g false < g true) {xs : List (Bool × κ)} :
    ∀ {ks : List (Bool × κ)}, xs.Pairwise (fun k k' => k.2 ≠ k'.2) → ks.Pairwise (fun k k' => k.2 ≠ k'.2) →
      ¬ xs <+: ks → ∃ p : κ → Bool → Bool, keysLe (valued (fun e r => g (p e r)) ks) true false ∧
        ¬ keysLe (valued (fun e r => g (p e r)) xs) true false := by
  classical
  induction xs with
  | nil => exact fun _ _ h => absurd nil_prefix h
  | cons x xs ih =>
    intro ks hxs hks h
    cases ks with
    | nil => exact ⟨fun _ r => r != x.1, trivial, not_keysLe_head hg (fun _ => rfl) xs⟩
    | cons k ks =>
      by_cases hkx : k = x
      · -- both lists start with the same key: the rows agree there
        subst hkx
        obtain ⟨hk, hxs⟩ := pairwise_cons.1 hxs
        obtain ⟨hk', hks⟩ := pairwise_cons.1 hks
        obtain ⟨p, hle, hnot⟩ := ih hxs hks fun hprefix => h ((prefix_cons_inj k).2 hprefix)
        let p' : κ → Bool → Bool := fun e r => if e = k.2 then false else p e r
        have hsame : ∀ l : List (Bool × κ), (∀ k' ∈ l, k.2 ≠ k'.2) →
            valued (fun e r => g (p' e r)) l = valued (fun e r => g (p e r)) l := by
          intro l hl
          refine map_congr_left fun k' hk' => ?_
          simp only [p', if_neg (hl k' hk').symm]
        have htie : ∀ l : List (Bool × κ), keysLe (valued (fun e r => g (p' e r)) (k :: l)) true false ↔
            keysLe (valued (fun e r => g (p' e r)) l) true false := by
          intro l
          have hdecides : keysLe (valued (fun e r => g (p' e r)) (k :: l)) true false ↔
              (if k.1 then g (p' k.2 false) < g (p' k.2 true) else g (p' k.2 true) < g (p' k.2 false)) ∨
                (g (p' k.2 true) = g (p' k.2 false) ∧ keysLe (valued (fun e r => g (p' e r)) l) true false) :=
            Iff.rfl
          rw [hdecides]
          simp [p']
        refine ⟨p', ?_, ?_⟩
        · rw [htie, hsame ks hk']
          exact hle
        · rw [htie, hsame xs hk]
          exact hnot
      · refine ⟨fun e r => if e = x.2 then r != x.1 else r == k.1, keysLe_head hg ?_ ks, not_keysLe_head hg ?_ xs⟩
        · intro r
          by_cases hname : k.2 = x.2
          · have hdesc : k.1 ≠ x.1 := fun hdesc => hkx (Prod.ext hdesc hname)
            rw [if_pos hname]
            revert hdesc
            cases r <;> cases k.1 <;> cases x.1 <;> simp
          · rw [if_neg hname]
        · exact fun r => if_pos rfl

end Separate

end Named

/-! ### Sorted orders -/

/-- `s` is an order of `l` that is sorted by `le`. -/
structure SortsTo (le : α → α → Prop) (l s : List α) : Prop where
  perm : s.Perm l
  sorted : s.Pairwise le

section Union

variable {le : α → α → Prop}
variable {lists outs : List (List α)} {merged : List α} {k : Nat}

theorem SortsTo.flatten (houts : Forall₂ (SortsTo le) lists outs)
    (hmerged : SortsTo le outs.flatten merged) : SortsTo le lists.flatten merged := by
  refine ⟨hmerged.perm.trans ?_, hmerged.sorted⟩
  exact Perm.flatten_congr (houts.flip.imp fun _ _ h => h.perm)

theorem exists_map_of_perm {γ : Type*} {f : α → γ} {s : List γ} {l : List α} (h : s.Perm (l.map f)) :
    ∃ l' : List α, l'.Perm l ∧ s = l'.map f := by
  have hmap : Forall₂ (fun c a => c = f a) (l.map f) l := forall₂_map_left_iff.2 (forall₂_same.2 fun _ _ => rfl)
  obtain ⟨l', hl', hperm⟩ := perm_comp_forall₂ h hmap
  refine ⟨l', hperm, ?_⟩
  rwa [← forall₂_eq_eq_eq, forall₂_map_right_iff]

theorem exists_sortsTo (htotal : ∀ a b, le a b ∨ le b a) (htrans : ∀ a b c, le a b → le b c → le a c) (l : List α) :
    ∃ s, SortsTo le l s := by
  classical
  refine ⟨l.mergeSort fun a b => decide (le a b), mergeSort_perm l _, ?_⟩
  have h : (l.mergeSort fun a b => decide (le a b)).Pairwise fun a b => decide (le a b) = true :=
    pairwise_mergeSort
      (fun a b c hab hbc => decide_eq_true (htrans a b c (of_decide_eq_true hab) (of_decide_eq_true hbc)))
      (fun a b => by simpa using htotal a b) l
  exact h.imp fun hab => of_decide_eq_true hab

/-- Whoever is among the first rows comes before a row that has at least as many rows before it. -/
theorem le_of_mem_take (htotal : ∀ a b, le a b ∨ le b a) (htrans : ∀ a b c, le a b → le b c → le a c) {s : List α}
    (hs : s.Pairwise le) {x y : α} (hx : x ∈ s.take k) (p : α → Bool) (hp : ∀ a, p a = true ↔ le a y)
    (hcount : k ≤ s.countP p) : le x y := by
  by_contra hxy
  obtain ⟨l, r, htake⟩ := append_of_mem hx
  have hsplit : s = l ++ x :: (r ++ s.drop k) := by
    rw [← cons_append, ← append_assoc, ← htake, take_append_drop]
  have hshort : l.length < k := by
    have := congrArg List.length htake
    rw [length_take, length_append, length_cons] at this
    omega
  -- nothing from `x` on comes before `y`
  have hnone : (x :: (r ++ s.drop k)).countP p = 0 := by
    rw [countP_eq_zero]
    intro b hb hpb
    have hxb : le x b := by
      rw [hsplit] at hs
      rcases mem_cons.1 hb with rfl | hb
      · exact (htotal b b).elim id id
      · exact (pairwise_cons.1 (pairwise_append.1 hs).2.1).1 b hb
    exact hxy (htrans x b y hxb ((hp b).1 hpb))
  rw [hsplit, countP_append, hnone] at hcount
  have := countP_le_length (p := p) (l := l)
  omega

/-- The rows that are not among the first `k` of their list: each of them has `k` of the taken rows before it. -/
theorem exists_left_behind (houts : Forall₂ (fun l out => ∃ s, SortsTo le l s ∧ out = s.take k) lists outs) :
    ∃ dropped, (outs.flatten ++ dropped).Perm lists.flatten ∧
      ∀ y ∈ dropped, ∀ p : α → Bool, (∀ a, p a = true ↔ le a y) → k ≤ outs.flatten.countP p := by
  induction houts with
  | nil => exact ⟨[], .refl _, fun y hy => absurd hy not_mem_nil⟩
  | @cons l out lists outs hout _ ih =>
    obtain ⟨s, hs, rfl⟩ := hout
    obtain ⟨dropped, hperm, hdropped⟩ := ih
    refine ⟨s.drop k ++ dropped, ?_, ?_⟩
    · rw [flatten_cons, flatten_cons]
      have hswap : (outs.flatten ++ (s.drop k ++ dropped)).Perm (s.drop k ++ (outs.flatten ++ dropped)) := by
        rw [← append_assoc, ← append_assoc]
        exact perm_append_comm.append_right _
      have hjoin : s.take k ++ (s.drop k ++ (outs.flatten ++ dropped)) = s ++ (outs.flatten ++ dropped) := by
        rw [← append_assoc, take_append_drop]
      rw [append_assoc]
      exact (hswap.append_left _).trans (hjoin ▸ hs.perm.append hperm)
    · intro y hy p hp
      rw [flatten_cons, countP_append]
      rcases mem_append.1 hy with hy | hy
      · have hlong : k < s.length := by
          by_contra hshort
          rw [drop_eq_nil_of_le (by omega)] at hy
          exact absurd hy not_mem_nil
        have hall : (s.take k).countP p = (s.take k).length := by
          rw [countP_eq_length]
          intro x hx
          have hsorted := hs.sorted
          rw [← take_append_drop k s, pairwise_append] at hsorted
          exact (hp x).2 (hsorted.2.2 x hx y hy)
        rw [hall, length_take]
        omega
      · have := hdropped y hy p hp
        omega

theorem exists_sortsTo_take (htotal : ∀ a b, le a b ∨ le b a) (htrans : ∀ a b c, le a b → le b c → le a c)
    (houts : Forall₂ (fun l out => ∃ s, SortsTo le l s ∧ out = s.take k) lists outs)
    (hmerged : SortsTo le outs.flatten merged) :
    ∃ s, SortsTo le lists.flatten s ∧ s.take k = merged.take k := by
  classical
  obtain ⟨dropped, hperm, hdropped⟩ := exists_left_behind houts
  have hcount : ∀ y ∈ dropped, k ≤ merged.countP fun a => decide (le a y) := by
    intro y hy
    rw [hmerged.perm.countP_eq]
    exact hdropped y hy _ fun a => decide_eq_true_iff
  obtain ⟨rest, hrest⟩ := exists_sortsTo htotal htrans (merged.drop k ++ dropped)
  refine ⟨merged.take k ++ rest, ⟨?_, ?_⟩, ?_⟩
  · have hjoin : merged.take k ++ (merged.drop k ++ dropped) = merged ++ dropped := by
      rw [← append_assoc, take_append_drop]
    exact (hrest.perm.append_left _).trans (hjoin ▸ (hmerged.perm.append_right _).trans hperm)
  · have hsorted := hmerged.sorted
    rw [← take_append_drop k merged, pairwise_append] at hsorted
    refine pairwise_append.2 ⟨hsorted.1, hrest.sorted, ?_⟩
    intro x hx y hy
    rcases mem_append.1 (hrest.perm.mem_iff.1 hy) with hy | hy
    · exact hsorted.2.2 x hx y hy
    · exact le_of_mem_take htotal htrans hmerged.sorted hx _ (fun a => decide_eq_true_iff) (hcount y hy)
  · by_cases hlong : k ≤ merged.length
    · rw [take_append_of_le_length (by rw [length_take]; omega), take_take, Nat.min_self]
    · -- with fewer than `k` rows, nothing was left behind
      have hnone : merged.drop k ++ dropped = [] := by
        rw [drop_eq_nil_of_le (by omega), nil_append]
        by_contra hne
        obtain ⟨y, hy⟩ := exists_mem_of_ne_nil _ hne
        have := hcount y hy
        have := countP_le_length (p := fun a => decide (le a y)) (l := merged)
        omega
      have hempty : rest = [] := perm_nil.1 (hnone ▸ hrest.perm)
      rw [hempty, append_nil, take_take, Nat.min_self]

end Union

end TopK
