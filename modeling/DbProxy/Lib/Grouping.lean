import Mathlib.Data.List.Forall2
import Mathlib.Data.List.Induction
import Mathlib.Data.List.Pairwise
import Mathlib.Data.List.Perm.Basic

/-!
# Groups of rows

The rows of a list by a key: every group has rows of one key, and no two groups have the same one.  Groups can be
built up part by part: a part whose key is new becomes a group of its own, another one joins the group of its key.
-/

namespace Grouping

open List

variable {α κ κ' : Type*} {key : α → κ}

def SameKey (key : α → κ) (g : List α) : Prop := ∀ a ∈ g, ∀ b ∈ g, key a = key b

/-- No row of one list has the key of a row of the other one. -/
def Apart (key : α → κ) (g g' : List α) : Prop := ∀ a ∈ g, ∀ b ∈ g', key a ≠ key b

structure Groups (key : α → κ) (rows : List α) (gs : List (List α)) : Prop where
  perm : gs.flatten.Perm rows
  nonempty : ∀ g ∈ gs, g ≠ []
  same : ∀ g ∈ gs, SameKey key g
  apart : gs.Pairwise (Apart key)

theorem Apart.symm {g g' : List α} (h : Apart key g g') : Apart key g' g := fun a ha b hb hab => h b hb a ha hab.symm

theorem Groups.nil (key : α → κ) : Groups key [] [] :=
  ⟨.refl _, fun _ h => absurd h not_mem_nil, fun _ h => absurd h not_mem_nil, .nil⟩

section Build

variable {rows g : List α} {gs : List (List α)}
variable {a : α} {g' rows' : List α} {gs' : List (List α)}

section

variable (h : Groups key rows gs)

include h

theorem Groups.mem (hg : g ∈ gs) (ha : a ∈ g) : a ∈ rows :=
  h.perm.mem_iff.1 (mem_flatten.2 ⟨g, hg, ha⟩)

theorem Groups.subperm (hg : g ∈ gs) : g.Subperm rows :=
  (sublist_flatten_of_mem hg).subperm.trans h.perm.subperm

theorem Groups.add (hne : g ≠ []) (hsame : SameKey key g) (hnew : ∀ g' ∈ gs, Apart key g' g) :
    Groups key (rows ++ g) (gs ++ [g]) := by
  refine ⟨?_, ?_, ?_, ?_⟩
  · rw [flatten_append, flatten_singleton]
    exact h.perm.append_right g
  · intro g' hg'
    rcases mem_append.1 hg' with hg' | hg'
    · exact h.nonempty g' hg'
    · rwa [mem_singleton.1 hg']
  · intro g' hg'
    rcases mem_append.1 hg' with hg' | hg'
    · exact h.same g' hg'
    · rwa [mem_singleton.1 hg']
  · refine pairwise_append.2 ⟨h.apart, pairwise_singleton _ _, fun g₁ hg₁ g₂ hg₂ => ?_⟩
    rw [mem_singleton.1 hg₂]
    exact hnew g₁ hg₁

omit h in
theorem Groups.extend {gs₁ gs₂ : List (List α)} (h : Groups key rows (gs₁ ++ g' :: gs₂))
    (hsame : SameKey key (g' ++ g)) : Groups key (rows ++ g) (gs₁ ++ (g' ++ g) :: gs₂) := by
  obtain ⟨a, ha⟩ := exists_mem_of_ne_nil g' (h.nonempty g' (by simp))
  -- whatever was apart from the group is apart from the part
  have hapart : ∀ g₀, Apart key g₀ g' → Apart key g₀ (g' ++ g) := by
    intro g₀ h₀ x hx y hy
    rw [hsame y hy a (mem_append_left _ ha)]
    exact h₀ x hx a ha
  have hmem : ∀ g₀, g₀ ∈ gs₁ ++ (g' ++ g) :: gs₂ → g₀ = g' ++ g ∨ g₀ ∈ gs₁ ++ g' :: gs₂ := by
    intro g₀ hg₀
    simp only [mem_append, mem_cons] at hg₀ ⊢
    tauto
  obtain ⟨h₁, h₂, h₁₂⟩ := pairwise_append.1 h.apart
  obtain ⟨h', h₂⟩ := pairwise_cons.1 h₂
  refine ⟨?_, ?_, ?_, ?_⟩
  · have hperm := h.perm.append_right g
    rw [flatten_append, flatten_cons] at hperm ⊢
    refine Perm.trans ?_ hperm
    simp only [append_assoc]
    exact (perm_append_comm.append_left g').append_left _
  · intro g₀ hg₀
    rcases hmem g₀ hg₀ with rfl | hg₀
    · exact ne_nil_of_mem (mem_append_left _ ha)
    · exact h.nonempty g₀ hg₀
  · intro g₀ hg₀
    rcases hmem g₀ hg₀ with rfl | hg₀
    · exact hsame
    · exact h.same g₀ hg₀
  · refine pairwise_append.2 ⟨h₁, pairwise_cons.2 ⟨fun g₀ hg₀ => ?_, h₂⟩, fun g₀ hg₀ g₁ hg₁ => ?_⟩
    · exact (hapart g₀ (h' g₀ hg₀).symm).symm
    · rcases mem_cons.1 hg₁ with rfl | hg₁
      · exact hapart g₀ (h₁₂ g₀ hg₀ g' mem_cons_self)
      · exact h₁₂ g₀ hg₀ g₁ (mem_cons_of_mem _ hg₁)

/-- Keys that tell the same rows apart have the same groups. -/
theorem Groups.congr {key' : α → κ'}
    (hkey : ∀ a ∈ rows, ∀ b ∈ rows, key a = key b ↔ key' a = key' b) : Groups key' rows gs := by
  refine ⟨h.perm, h.nonempty, ?_, ?_⟩
  · exact fun g hg a ha b hb => (hkey a (h.mem hg ha) b (h.mem hg hb)).1 (h.same g hg a ha b hb)
  · refine h.apart.imp_of_mem fun {g g'} hg hg' hapart a ha b hb heq => ?_
    exact hapart a ha b hb ((hkey a (h.mem hg ha) b (h.mem hg' hb)).2 heq)

theorem Groups.reorder (hperm : gs'.Perm gs) : Groups key rows gs' := by
  refine ⟨hperm.flatten.trans h.perm, ?_, ?_, ?_⟩
  · exact fun g hg => h.nonempty g (hperm.mem_iff.1 hg)
  · exact fun g hg => h.same g (hperm.mem_iff.1 hg)
  · exact (hperm.pairwise_iff fun {g g'} h => h.symm).2 h.apart

/-- If what belongs to a group determines its key, no two groups have the same. -/
theorem Groups.nodup {β : Type*} {R : List α → β → Prop} {bs : List β} (hbs : Forall₂ R gs bs)
    (hinj : ∀ g ∈ gs, ∀ g' ∈ gs, ∀ b, R g b → R g' b → ∀ a ∈ g, ∀ a' ∈ g', key a = key a') : bs.Nodup := by
  obtain ⟨-, hnonempty, -, hapart⟩ := h
  induction hbs with
  | nil => exact nodup_nil
  | @cons g b gs bs hg hgs ih =>
    obtain ⟨hfirst, hapart⟩ := pairwise_cons.1 hapart
    refine nodup_cons.2 ⟨fun hb => ?_, ?_⟩
    · obtain ⟨g', hg', hR⟩ : ∃ g' ∈ gs, R g' b := by
        obtain ⟨i, hi, rfl⟩ := getElem_of_mem hb
        exact ⟨_, getElem_mem _, hgs.get (hgs.length_eq ▸ hi) hi⟩
      obtain ⟨a, ha⟩ := exists_mem_of_ne_nil g (hnonempty g mem_cons_self)
      obtain ⟨a', ha'⟩ := exists_mem_of_ne_nil g' (hnonempty g' (mem_cons_of_mem _ hg'))
      exact hfirst g' hg' a ha a' ha' (hinj g mem_cons_self g' (mem_cons_of_mem _ hg') b hg hR a ha a' ha')
    · exact ih (fun g hg g' hg' => hinj g (mem_cons_of_mem _ hg) g' (mem_cons_of_mem _ hg'))
        (fun g hg => hnonempty g (mem_cons_of_mem _ hg)) hapart

omit h in
theorem exists_groups (key : α → κ) (rows : List α) : ∃ gs, Groups key rows gs := by
  induction rows using List.reverseRecOn with
  | nil => exact ⟨[], .nil key⟩
  | append_singleton rows a ih =>
    obtain ⟨gs, hgs⟩ := ih
    by_cases hold : ∃ g ∈ gs, ∃ b ∈ g, key b = key a
    · obtain ⟨g, hg, b, hb, hkey⟩ := hold
      obtain ⟨gs₁, gs₂, rfl⟩ := append_of_mem hg
      have hall : ∀ c ∈ g ++ [a], key c = key a := by
        intro c hc
        rcases mem_append.1 hc with hc | hc
        · exact (hgs.same g hg c hc b hb).trans hkey
        · rw [mem_singleton.1 hc]
      exact ⟨_, hgs.extend fun c hc d hd => (hall c hc).trans (hall d hd).symm⟩
    · refine ⟨_, hgs.add (cons_ne_nil a []) ?_ ?_⟩
      · intro c hc d hd
        rw [mem_singleton.1 hc, mem_singleton.1 hd]
      · intro g hg b hb c hc hkey
        rw [mem_singleton.1 hc] at hkey
        exact hold ⟨g, hg, b, hb, hkey⟩

theorem Groups.eq_singleton (hsame : SameKey key rows) (hne : rows ≠ []) :
    ∃ g, gs = [g] ∧ g.Perm rows := by
  have hperm := h.perm
  cases gs with
  | nil => exact absurd (nil_perm.1 hperm) hne
  | cons g gs =>
    cases gs with
    | nil => exact ⟨g, rfl, by rwa [flatten_singleton] at hperm⟩
    | cons g' gs =>
      obtain ⟨a, ha⟩ := exists_mem_of_ne_nil g (h.nonempty g mem_cons_self)
      have hg' : g' ∈ g :: g' :: gs := mem_cons_of_mem _ mem_cons_self
      obtain ⟨b, hb⟩ := exists_mem_of_ne_nil g' (h.nonempty g' hg')
      refine absurd (hsame a (h.mem mem_cons_self ha) b (h.mem hg' hb)) ?_
      exact (pairwise_cons.1 h.apart).1 g' mem_cons_self a ha b hb

theorem Groups.append (h' : Groups key rows' gs')
    (hapart : ∀ g ∈ gs, ∀ g' ∈ gs', Apart key g g') : Groups key (rows ++ rows') (gs ++ gs') := by
  refine ⟨?_, ?_, ?_, pairwise_append.2 ⟨h.apart, h'.apart, hapart⟩⟩
  · rw [flatten_append]
    exact h.perm.append h'.perm
  · exact fun g hg => (mem_append.1 hg).elim (h.nonempty g) (h'.nonempty g)
  · exact fun g hg => (mem_append.1 hg).elim (h.same g) (h'.same g)

theorem Groups.of_perm (hperm : rows.Perm rows') : Groups key rows' gs :=
  ⟨h.perm.trans hperm, h.nonempty, h.same, h.apart⟩

end

end Build

end Grouping
