import Mathlib.Order.Lattice
import Mathlib.Data.List.Basic

/-!
# Merging strictly increasing lists

Intersection, union and difference of two lists by one simultaneous walk, as one writes them for sorted arrays.  They
never look back, so `inter` and `diff` find all common elements only when both lists are strictly increasing
(`mem_inter`, `mem_diff`), and of other lists `inter` keeps what the walk through each of them reaches
(`Reaches.inter`).  `union` loses no element of any two lists (`mem_union`), and all keep strictly increasing lists
strictly increasing.

The recursions are structural on the first list; the walk through the second list while the head of the first one
waits is `interWait`, `unionWait` and `diffWait`.
-/

namespace SortedMerge

open List

variable {α : Type*} [LinearOrder α]
variable {x : α} {l₁ l₂ : List α}

/-- Walk through the second list while `a` is the head of the first one; `k` continues behind `a`. -/
def interWait (a : α) (k : List α → List α) : List α → List α
  | [] => []
  | b :: bs => if a = b then a :: k bs else if a < b then k (b :: bs) else interWait a k bs

def inter : List α → List α → List α
  | [] => fun _ => []
  | a :: as => interWait a (inter as)

/-- Walk through the second list while `a` is the head of the first one; `k` continues behind `a`, and `as` is
what is left when the second list ends. -/
def unionWait (a : α) (as : List α) (k : List α → List α) : List α → List α
  | [] => a :: as
  | b :: bs => if a < b then a :: k (b :: bs) else if b < a then b :: unionWait a as k bs else a :: k bs

def union : List α → List α → List α
  | [] => fun l => l
  | a :: as => unionWait a as (union as)

def diffWait (a : α) (as : List α) (k : List α → List α) : List α → List α
  | [] => a :: as
  | b :: bs => if a < b then a :: k (b :: bs) else if b < a then diffWait a as k bs else k bs

def diff : List α → List α → List α
  | [] => fun _ => []
  | a :: as => diffWait a as (diff as)

/-! ### Equations -/

@[simp] theorem inter_nil_left (l : List α) : inter [] l = [] := rfl

@[simp] theorem inter_nil_right (l : List α) : inter l [] = [] := by cases l <;> rfl

theorem inter_cons_cons (a b : α) (as bs : List α) :
    inter (a :: as) (b :: bs) =
      if a = b then a :: inter as bs else if a < b then inter as (b :: bs) else inter (a :: as) bs := rfl

@[simp] theorem union_nil_left (l : List α) : union [] l = l := rfl

@[simp] theorem union_nil_right (l : List α) : union l [] = l := by cases l <;> rfl

theorem union_cons_cons (a b : α) (as bs : List α) :
    union (a :: as) (b :: bs) =
      if a < b then a :: union as (b :: bs) else if b < a then b :: union (a :: as) bs
      else a :: union as bs := rfl

@[simp] theorem diff_nil_left (l : List α) : diff [] l = [] := rfl

@[simp] theorem diff_nil_right (l : List α) : diff l [] = l := by cases l <;> rfl

theorem diff_cons_cons (a b : α) (as bs : List α) :
    diff (a :: as) (b :: bs) =
      if a < b then a :: diff as (b :: bs) else if b < a then diff (a :: as) bs else diff as bs := rfl

omit [LinearOrder α] in
/-- Induction along the walk: each step drops a head of one list or both heads. -/
theorem walk_induction {motive : List α → List α → Prop} (nil_left : ∀ l, motive [] l)
    (nil_right : ∀ a as, motive (a :: as) [])
    (cons_cons : ∀ a as b bs, motive as (b :: bs) → motive (a :: as) bs → motive as bs →
      motive (a :: as) (b :: bs)) (l₁ l₂ : List α) : motive l₁ l₂ := by
  induction l₁ generalizing l₂ with
  | nil => exact nil_left l₂
  | cons a as ih =>
    induction l₂ with
    | nil => exact nil_right a as
    | cons b bs ihb => exact cons_cons a as b bs (ih _) ihb (ih _)

/-! ### Intersection -/

theorem mem_of_mem_inter (h : x ∈ inter l₁ l₂) : x ∈ l₁ ∧ x ∈ l₂ := by
  induction l₁, l₂ using walk_induction with
  | nil_left l => simp at h
  | nil_right a as => simp at h
  | cons_cons a as b bs ih1 ih2 ih3 =>
    rw [inter_cons_cons] at h
    split at h
    · next hab =>
      rcases mem_cons.1 h with rfl | h
      · exact ⟨by simp, by simp [hab]⟩
      · have := ih3 h
        exact ⟨by simp [this.1], by simp [this.2]⟩
    · split at h
      · have := ih1 h
        exact ⟨by simp [this.1], this.2⟩
      · have := ih2 h
        exact ⟨this.1, by simp [this.2]⟩

/-- The walk comes to `x`: the list has it, with only smaller elements in front of it. -/
def Reaches (x : α) : List α → Prop
  | [] => False
  | a :: as => a = x ∨ a < x ∧ Reaches x as

theorem Reaches.mem (h : Reaches x l₁) : x ∈ l₁ := by
  induction l₁ with
  | nil => exact h.elim
  | cons a as ih =>
    rcases h with rfl | ⟨_, h⟩
    · exact mem_cons_self
    · exact mem_cons_of_mem _ (ih h)

theorem Reaches.head_le {a : α} {as : List α} (h : Reaches x (a :: as)) : a ≤ x := h.elim le_of_eq (·.1.le)

theorem reaches_of_mem (h : l₁.Pairwise (· < ·)) (hx : x ∈ l₁) : Reaches x l₁ := by
  induction l₁ with
  | nil => cases hx
  | cons a as ih =>
    rw [pairwise_cons] at h
    rcases mem_cons.1 hx with rfl | hx
    · exact .inl rfl
    · exact .inr ⟨h.1 x hx, ih h.2 hx⟩

theorem Reaches.inter (h₁ : Reaches x l₁) (h₂ : Reaches x l₂) : Reaches x (inter l₁ l₂) := by
  induction l₁, l₂ using walk_induction with
  | nil_left l => exact h₁.elim
  | nil_right a as => exact h₂.elim
  | cons_cons a as b bs ih1 ih2 ih3 =>
    rw [inter_cons_cons]
    by_cases hab : a = b
    · subst hab
      rw [if_pos rfl]
      rcases h₁ with h₁ | ⟨hlt, h₁⟩
      · exact .inl h₁
      · exact .inr ⟨hlt, ih3 h₁ (h₂.resolve_left hlt.ne).2⟩
    · rw [if_neg hab]
      by_cases hlt : a < b
      · rw [if_pos hlt]
        exact ih1 (h₁.resolve_left (hlt.trans_le h₂.head_le).ne).2 h₂
      · rw [if_neg hlt]
        have hba : b < a := lt_of_le_of_ne (not_lt.1 hlt) (Ne.symm hab)
        exact ih2 h₁ (h₂.resolve_left (hba.trans_le h₁.head_le).ne).2

theorem mem_inter (h₁ : l₁.Pairwise (· < ·)) (h₂ : l₂.Pairwise (· < ·)) :
    x ∈ inter l₁ l₂ ↔ x ∈ l₁ ∧ x ∈ l₂ :=
  ⟨mem_of_mem_inter, fun h => ((reaches_of_mem h₁ h.1).inter (reaches_of_mem h₂ h.2)).mem⟩

theorem mem_inter_singleton : x ∈ inter l₁ [x] ↔ Reaches x l₁ := by
  induction l₁ with
  | nil => simp [Reaches]
  | cons a as ih =>
    rw [inter_cons_cons]
    by_cases ha : a = x
    · simp [ha, Reaches]
    · by_cases hlt : a < x <;> simp [ha, hlt, ih, Reaches]

theorem inter_pairwise (h₁ : l₁.Pairwise (· < ·)) (h₂ : l₂.Pairwise (· < ·)) :
    (inter l₁ l₂).Pairwise (· < ·) := by
  induction l₁, l₂ using walk_induction with
  | nil_left l => simp
  | nil_right a as => simp
  | cons_cons a as b bs ih1 ih2 ih3 =>
    have ha := pairwise_cons.1 h₁
    have hb := pairwise_cons.1 h₂
    rw [inter_cons_cons]
    split
    · rw [pairwise_cons]
      exact ⟨fun x hx => ha.1 x (mem_of_mem_inter hx).1, ih3 ha.2 hb.2⟩
    · split
      · exact ih1 ha.2 h₂
      · exact ih2 h₁ hb.2

/-! ### Union -/

theorem mem_union : x ∈ union l₁ l₂ ↔ x ∈ l₁ ∨ x ∈ l₂ := by
  induction l₁, l₂ using walk_induction with
  | nil_left l => simp
  | nil_right a as => simp
  | cons_cons a as b bs ih1 ih2 ih3 =>
    rw [union_cons_cons]
    split
    · rw [mem_cons, ih1, mem_cons (l := as), or_assoc]
    · next hab =>
      split
      · rw [mem_cons, ih2, mem_cons (l := bs)]
        exact or_left_comm
      · next hba =>
        have : a = b := le_antisymm (not_lt.1 hba) (not_lt.1 hab)
        subst this
        rw [mem_cons, ih3]
        simp only [mem_cons]
        tauto

theorem Reaches.union_left (h : Reaches x l₁) (l₂ : List α) : Reaches x (union l₁ l₂) := by
  induction l₁, l₂ using walk_induction with
  | nil_left l => exact h.elim
  | nil_right a as => exact h
  | cons_cons a as b bs ih1 ih2 ih3 =>
    rw [union_cons_cons]
    split
    · exact h.imp_right fun h => ⟨h.1, ih1 h.2⟩
    · split
      · next hba => exact .inr ⟨hba.trans_le h.head_le, ih2 h⟩
      · exact h.imp_right fun h => ⟨h.1, ih3 h.2⟩

theorem Reaches.union_right (l₁ : List α) (h : Reaches x l₂) : Reaches x (union l₁ l₂) := by
  induction l₁, l₂ using walk_induction with
  | nil_left l => exact h
  | nil_right a as => exact h.elim
  | cons_cons a as b bs ih1 ih2 ih3 =>
    rw [union_cons_cons]
    split
    · next hab => exact .inr ⟨hab.trans_le h.head_le, ih1 h⟩
    · next hab =>
      split
      · exact h.imp_right fun h => ⟨h.1, ih2 h.2⟩
      · next hba =>
        obtain rfl : a = b := le_antisymm (not_lt.1 hba) (not_lt.1 hab)
        exact h.imp_right fun h => ⟨h.1, ih3 h.2⟩

theorem union_pairwise (h₁ : l₁.Pairwise (· < ·)) (h₂ : l₂.Pairwise (· < ·)) :
    (union l₁ l₂).Pairwise (· < ·) := by
  induction l₁, l₂ using walk_induction with
  | nil_left l => simpa using h₂
  | nil_right a as => simpa using h₁
  | cons_cons a as b bs ih1 ih2 ih3 =>
    have ha := pairwise_cons.1 h₁
    have hb := pairwise_cons.1 h₂
    rw [union_cons_cons]
    split
    · next hab =>
      refine pairwise_cons.2 ⟨fun x hx => ?_, ih1 ha.2 h₂⟩
      rcases mem_union.1 hx with hx | hx
      · exact ha.1 x hx
      rcases mem_cons.1 hx with rfl | hx
      · exact hab
      · exact lt_trans hab (hb.1 x hx)
    · next hab =>
      split
      · next hba =>
        refine pairwise_cons.2 ⟨fun x hx => ?_, ih2 h₁ hb.2⟩
        rcases mem_union.1 hx with hx | hx
        · rcases mem_cons.1 hx with rfl | hx
          · exact hba
          · exact lt_trans hba (ha.1 x hx)
        · exact hb.1 x hx
      · next hba =>
        have : a = b := le_antisymm (not_lt.1 hba) (not_lt.1 hab)
        subst this
        refine pairwise_cons.2 ⟨fun x hx => ?_, ih3 ha.2 hb.2⟩
        rcases mem_union.1 hx with hx | hx
        · exact ha.1 x hx
        · exact hb.1 x hx

/-! ### Difference -/

theorem diff_sublist : diff l₁ l₂ <+ l₁ := by
  induction l₁, l₂ using walk_induction with
  | nil_left l => simp
  | nil_right a as => simp
  | cons_cons a as b bs ih1 ih2 ih3 =>
    rw [diff_cons_cons]
    split
    · exact ih1.cons_cons a
    · split
      · exact ih2
      · exact ih3.cons a

theorem mem_diff (h₁ : l₁.Pairwise (· < ·)) (h₂ : l₂.Pairwise (· < ·)) :
    x ∈ diff l₁ l₂ ↔ x ∈ l₁ ∧ x ∉ l₂ := by
  induction l₁, l₂ using walk_induction with
  | nil_left l => simp
  | nil_right a as => simp
  | cons_cons a as b bs ih1 ih2 ih3 =>
    have ha := pairwise_cons.1 h₁
    have hb := pairwise_cons.1 h₂
    rw [diff_cons_cons]
    split
    · next hab =>
      -- `a` is below everything left in the second list
      have hnot : a ∉ b :: bs := by
        intro hmem
        rcases mem_cons.1 hmem with rfl | hmem
        · exact lt_irrefl _ hab
        · exact lt_asymm hab (hb.1 a hmem)
      rw [mem_cons, ih1 ha.2 h₂, mem_cons (l := as)]
      constructor
      · rintro (rfl | ⟨hx, hx'⟩)
        · exact ⟨.inl rfl, hnot⟩
        · exact ⟨.inr hx, hx'⟩
      · rintro ⟨rfl | hx, hx'⟩
        · exact .inl rfl
        · exact .inr ⟨hx, hx'⟩
    · next hab =>
      have hbelow : ∀ {y}, y ∈ as → y ≠ b := by
        rintro _ hy rfl
        exact hab (ha.1 _ hy)
      split
      · next hba =>
        have hne : x ∈ a :: as → x ≠ b := by
          intro hx
          rcases mem_cons.1 hx with rfl | hx
          · exact hba.ne'
          · exact hbelow hx
        rw [ih2 h₁ hb.2, mem_cons (l := bs), not_or]
        exact and_congr_right fun hx => (and_iff_right (hne hx)).symm
      · next hba =>
        obtain rfl : a = b := le_antisymm (not_lt.1 hba) (not_lt.1 hab)
        rw [ih3 ha.2 hb.2, mem_cons (l := as), mem_cons (l := bs), not_or]
        constructor
        · rintro ⟨hx, hx'⟩
          exact ⟨.inr hx, hbelow hx, hx'⟩
        · rintro ⟨hx, hne, hx'⟩
          exact ⟨hx.resolve_left hne, hx'⟩

end SortedMerge
