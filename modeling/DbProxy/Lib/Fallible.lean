import Mathlib.Data.List.Forall2
import Mathlib.Data.List.Perm.Basic

/-!
# Computations that can fail

Inversion of `Except` computations: what must have happened for a composed computation to succeed.  A traversal
relates two lists element by element.
-/

namespace Fallible

open List

variable {ε ε' : Type*} {α β : Type}
variable {x : Except ε α} {f : α → Except ε β} {a : α} {E : ε → Prop} {R S : α → β → Prop} {as : List α} {bs : List β}

theorem bind_eq_ok {b : β} :
    (x >>= f) = .ok b ↔ ∃ a, x = .ok a ∧ f a = .ok b := by
  cases x with
  | error e => simp [bind, Except.bind]
  | ok a => simp [bind, Except.bind]

theorem mapError_eq_ok {f : ε → ε'} : x.mapError f = .ok a ↔ x = .ok a := by
  cases x with
  | error e => simp [Except.mapError]
  | ok a => simp [Except.mapError]

theorem bind_of_ok (h : x = .ok a) : (x >>= f) = f a := by
  rw [h]
  rfl

theorem bind_of_error {e : ε} (h : x = .error e) : (x >>= f) = .error e := by
  rw [h]
  rfl

theorem exists_bind_iff (h : ∀ a, ∃ b, f a = .ok b) :
    (∃ b, (x >>= f) = .ok b) ↔ ∃ a, x = .ok a := by
  constructor
  · rintro ⟨b, hb⟩
    obtain ⟨a, ha, -⟩ := bind_eq_ok.1 hb
    exact ⟨a, ha⟩
  · rintro ⟨a, ha⟩
    obtain ⟨b, hb⟩ := h a
    exact ⟨b, bind_eq_ok.2 ⟨a, ha, hb⟩⟩

theorem ok_unique {b : α} (h : x = .ok a) (h' : x = .ok b) : a = b := Except.ok.inj (h.symm.trans h')

theorem exists_ok_of {P : α → Prop} (Q : α → Prop) (h : ∃ a, x = .ok a ∧ Q a) (hP : ∀ a, x = .ok a → Q a → P a) :
    ∃ a, x = .ok a ∧ P a := by
  obtain ⟨a, ha, hQ⟩ := h
  exact ⟨a, ha, hP a ha hQ⟩

theorem exists_ok {P : α → Prop} (h : ∃ a, x = .ok a) (hP : ∀ a, x = .ok a → P a) : ∃ a, x = .ok a ∧ P a := by
  obtain ⟨a, ha⟩ := h
  exact ⟨a, ha, hP a ha⟩

/-- The computation ends with a result in `Q` or with an error in `E`. -/
def Wp (E : ε → Prop) (Q : α → Prop) : Except ε α → Prop
  | .ok a => Q a
  | .error e => E e

theorem wp_bind {Q : β → Prop} :
    Wp E Q (x >>= f) ↔ Wp E (fun a => Wp E Q (f a)) x := by
  cases x with
  | error e => exact Iff.rfl
  | ok a => exact Iff.rfl

theorem wp_congr {Q Q' : α → Prop} (h : ∀ a, x = .ok a → (Q a ↔ Q' a)) :
    Wp E Q x ↔ Wp E Q' x := by
  cases x with
  | error e => exact Iff.rfl
  | ok a => exact h a rfl

theorem mapM_eq_ok {l : List α} {l' : List β} :
    l.mapM f = .ok l' ↔ Forall₂ (fun a b => f a = .ok b) l l' := by
  induction l generalizing l' with
  | nil =>
    rw [mapM_nil, forall₂_nil_left_iff]
    exact ⟨fun h => (Except.ok.inj h).symm, fun h => h ▸ rfl⟩
  | cons a l ih =>
    rw [mapM_cons, bind_eq_ok, forall₂_cons_left_iff]
    constructor
    · rintro ⟨b, hb, h⟩
      obtain ⟨bs, hbs, h⟩ := bind_eq_ok.1 h
      exact ⟨b, bs, hb, ih.1 hbs, (Except.ok.inj h).symm⟩
    · rintro ⟨b, bs, hb, hbs, rfl⟩
      exact ⟨b, hb, bind_eq_ok.2 ⟨bs, ih.2 hbs, rfl⟩⟩

section Fold

variable {σ : Type} {f : σ → α → Except ε σ} {I : List α → σ → Prop}

/-- What every turn of a loop keeps, where `I front s` speaks of the state behind the turns of `front`. -/
theorem foldlM_inv (hstep : ∀ front a s s', I front s → f s a = .ok s' → I (front ++ [a]) s') (l : List α)
    {front : List α} {s s' : σ} (h : I front s) (hrun : l.foldlM f s = .ok s') : I (front ++ l) s' := by
  induction l generalizing front s with
  | nil =>
    cases hrun
    rwa [append_nil]
  | cons a l ih =>
    rw [foldlM_cons] at hrun
    obtain ⟨s₁, hs₁, hrun⟩ := bind_eq_ok.1 hrun
    have := ih (hstep front a s s₁ h hs₁) hrun
    rwa [append_assoc] at this

/-- A loop in which every turn can be made comes to its end. -/
theorem exists_foldlM (l : List α) {front : List α} {s : σ} (h : I front s)
    (hstep : ∀ l₁ a l₂ s, l = l₁ ++ a :: l₂ → I (front ++ l₁) s → ∃ s', f s a = .ok s' ∧ I (front ++ l₁ ++ [a]) s') :
    ∃ s', l.foldlM f s = .ok s' ∧ I (front ++ l) s' := by
  induction l generalizing front s with
  | nil => exact ⟨s, rfl, by rwa [append_nil]⟩
  | cons a l ih =>
    obtain ⟨s₁, hs₁, h₁⟩ := hstep [] a l s rfl (by rwa [append_nil])
    rw [append_nil] at h₁
    obtain ⟨s', hrun, h'⟩ := ih h₁ fun l₁ a' l₂ s hl hI => by
      have := hstep (a :: l₁) a' l₂ s (by rw [hl, cons_append]) (by rwa [append_assoc] at hI)
      rwa [← singleton_append, ← append_assoc] at this
    rw [append_assoc] at h'
    refine ⟨s', ?_, h'⟩
    rw [foldlM_cons]
    exact bind_eq_ok.2 ⟨s₁, hs₁, hrun⟩

end Fold

theorem exists_of_mem (h : Forall₂ R as bs) (ha : a ∈ as) :
    ∃ b ∈ bs, R a b := by
  induction h with
  | nil => cases ha
  | cons hab _ ih =>
    rcases mem_cons.1 ha with rfl | ha
    · exact ⟨_, mem_cons_self, hab⟩
    · obtain ⟨b, hb, hR⟩ := ih ha
      exact ⟨b, mem_cons_of_mem _ hb, hR⟩

theorem forall₂_iff_getElem? : Forall₂ R as bs ↔
    as.length = bs.length ∧ ∀ (i : Nat) a b, as[i]? = some a → bs[i]? = some b → R a b := by
  rw [forall₂_iff_get]
  refine and_congr_right fun _ => ⟨fun h i a b ha hb => ?_, fun h i hi hi' => ?_⟩
  · obtain ⟨hi, rfl⟩ := List.getElem?_eq_some_iff.1 ha
    obtain ⟨hi', rfl⟩ := List.getElem?_eq_some_iff.1 hb
    exact h i hi hi'
  · exact h i _ _ (getElem?_eq_getElem hi) (getElem?_eq_getElem hi')

theorem exists_of_forall₂_append {as₁ as₂ : List α} (h : Forall₂ R (as₁ ++ a :: as₂) bs) :
    ∃ bs₁ b bs₂, bs = bs₁ ++ b :: bs₂ ∧ Forall₂ R as₁ bs₁ ∧ R a b ∧ Forall₂ R as₂ bs₂ := by
  induction as₁ generalizing bs with
  | nil =>
    obtain ⟨b, bs₂, hb, hbs₂, rfl⟩ := forall₂_cons_left_iff.1 h
    exact ⟨[], b, bs₂, rfl, .nil, hb, hbs₂⟩
  | cons a' as₁ ih =>
    obtain ⟨b', rest, hb', hrest, rfl⟩ := forall₂_cons_left_iff.1 h
    obtain ⟨bs₁, b, bs₂, rfl, hbs₁, hb, hbs₂⟩ := ih hrest
    exact ⟨b' :: bs₁, b, bs₂, rfl, .cons hb' hbs₁, hb, hbs₂⟩

theorem forall₂_congr_of_mem (h : ∀ a ∈ as, ∀ b, R a b ↔ S a b) :
    Forall₂ R as bs ↔ Forall₂ S as bs := by
  induction as generalizing bs with
  | nil => rw [forall₂_nil_left_iff, forall₂_nil_left_iff]
  | cons a as ih =>
    obtain ⟨ha, has⟩ := forall_mem_cons.1 h
    rw [forall₂_cons_left_iff, forall₂_cons_left_iff]
    exact exists₂_congr fun b bs => and_congr (ha b) (and_congr_left' (ih has))

theorem exists_perm_of_forall₂ {bs' : List β} (h : Forall₂ R as bs)
    (hperm : bs'.Perm bs) : ∃ as', as'.Perm as ∧ Forall₂ R as' bs' := by
  obtain ⟨as', has', hperm'⟩ := perm_comp_forall₂ hperm h.flip
  exact ⟨as', hperm', has'.flip⟩

theorem forall₂_of_forall₂ {γ : Type} {S : α → γ → Prop} {T : β → γ → Prop}
    {cs : List γ} (h : Forall₂ R as bs) (h' : Forall₂ S as cs) (hT : ∀ a b c, R a b → S a c → T b c) :
    Forall₂ T bs cs := by
  induction h generalizing cs with
  | nil =>
    cases h'
    exact .nil
  | cons hab _ ih =>
    obtain ⟨c, cs, hc, hcs, rfl⟩ := forall₂_cons_left_iff.1 h'
    exact .cons (hT _ _ _ hab hc) (ih hcs)

theorem forall₂_iff_forall {T : α → Prop} (h : Forall₂ R as bs)
    (hST : ∀ a b, R a b → (S a b ↔ T a)) : Forall₂ S as bs ↔ ∀ a ∈ as, T a := by
  induction h with
  | nil => simp
  | cons hab _ ih => rw [forall₂_cons, forall_mem_cons, hST _ _ hab, ih]

end Fallible
