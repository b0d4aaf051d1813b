import DbProxy.Lib.Grouping
import DbProxy.Lib.TopK
import Mathlib.Data.List.Perm.Subperm

/-!
# The first groups of lists that are cut

Every list returns the first `k` of its groups, sorted by their keys, and the groups that come back are put together
and sorted again.  The first `k` of them are the first `k` groups of all rows (`exists_sortedGroups`).  They may be
incomplete where several keys tie: if the order tells all keys apart, they are complete.
-/

namespace Grouping

open List

open TopK (SortsTo exists_sortsTo)

variable {α κ : Type*} {key : α → κ} {le : α → α → Prop}

/-- All rows of one group may come before all rows of the other one. -/
def Before (le : α → α → Prop) (g g' : List α) : Prop := ∀ a ∈ g, ∀ b ∈ g', le a b

structure SortedGroups (key : α → κ) (le : α → α → Prop) (rows : List α) (gs : List (List α)) : Prop
    extends Groups key rows gs where
  sorted : gs.Pairwise (Before le)

theorem exists_forall₂ {β γ : Type*} [Nonempty γ] {R : β → γ → Prop} {l : List β} (h : ∀ b ∈ l, ∃ c, R b c) :
    ∃ cs, Forall₂ R l cs := by
  choose! f hf using h
  exact ⟨l.map f, forall₂_map_right_iff.2 (forall₂_same.2 hf)⟩

theorem Groups.perm_filter [DecidableEq κ] {rows g : List α} {gs : List (List α)}
    (h : Groups key rows gs) (hg : g ∈ gs) {a : α} (ha : a ∈ g) : g.Perm (rows.filter fun b => key b = key a) := by
  obtain ⟨gs₁, gs₂, rfl⟩ := append_of_mem hg
  obtain ⟨_, h₂, h₁⟩ := pairwise_append.1 h.apart
  have hother : ∀ gs' : List (List α), (∀ g' ∈ gs', Apart key g' g) →
      gs'.flatten.filter (fun b => decide (key b = key a)) = [] := by
    intro gs' hgs'
    rw [filter_eq_nil_iff]
    intro b hb heq
    obtain ⟨g', hg', hb⟩ := mem_flatten.1 hb
    exact hgs' g' hg' b hb a ha (of_decide_eq_true heq)
  have hself : g.filter (fun b => decide (key b = key a)) = g := by
    rw [filter_eq_self]
    exact fun b hb => decide_eq_true (h.same g hg b hb a ha)
  have hfilter := h.perm.filter fun b => decide (key b = key a)
  rw [flatten_append, filter_append, hother gs₁ fun g' hg' => h₁ g' hg' g mem_cons_self, nil_append,
    flatten_cons, filter_append, hself,
    hother gs₂ fun g' hg' => ((pairwise_cons.1 h₂).1 g' hg').symm, append_nil] at hfilter
  exact hfilter

section Top

variable {k : Nat} {M : List (List α)}
variable {β : Type*} {l : List β} {rows : List α} {ps : List (List α)}

theorem mem_drop_or_forall_mem {ms : List β} (hnodup : ms.Nodup) (hlength : ms.length = k)
    (hsub : ∀ m ∈ ms, m ∈ l) : (∃ m ∈ ms, m ∈ l.drop k) ∨ ∀ m ∈ l.take k, m ∈ ms := by
  by_cases hlate : ∃ m ∈ ms, m ∈ l.drop k
  · exact .inl hlate
  · right
    have hfirst : ms ⊆ l.take k := by
      intro m hm
      have hmem := hsub m hm
      rw [← take_append_drop k l] at hmem
      exact (mem_append.1 hmem).resolve_right fun hdrop => hlate ⟨m, hm, hdrop⟩
    have hperm := (subperm_of_subset hnodup hfirst).perm_of_length_le (by rw [hlength, length_take]; omega)
    exact fun m hm => hperm.mem_iff.2 hm

theorem length_of_mem_drop {b : β} (h : b ∈ l.drop k) : k ≤ l.length := by
  by_contra hshort
  rw [drop_eq_nil_of_le (by omega)] at h
  exact absurd h not_mem_nil

theorem exists_taken (hps : Groups key rows ps) (hlong : k ≤ ps.length)
    (hkept : ∀ p ∈ ps.take k, ∀ x ∈ p, ∃ m ∈ M, x ∈ m) (hsame : ∀ m ∈ M, SameKey key m) :
    ∃ ms : List (List α), ms.Nodup ∧ ms.length = k ∧ ∀ m ∈ ms, m ∈ M ∧ ∃ p ∈ ps.take k, ∃ x ∈ p, x ∈ m := by
  have hmem : ∀ p ∈ ps.take k, p ∈ ps := fun p hp => mem_of_mem_take hp
  obtain ⟨ms, hms⟩ : ∃ ms, Forall₂ (fun p m => m ∈ M ∧ ∃ x ∈ p, x ∈ m) (ps.take k) ms := by
    refine exists_forall₂ fun p hp => ?_
    obtain ⟨x, hx⟩ := exists_mem_of_ne_nil p (hps.nonempty p (hmem p hp))
    obtain ⟨m, hm, hxm⟩ := hkept p hp x hx
    exact ⟨m, hm, x, hx, hxm⟩
  have htake : Groups key (ps.take k).flatten (ps.take k) :=
    ⟨.refl _, fun p hp => hps.nonempty p (hmem p hp), fun p hp => hps.same p (hmem p hp),
      hps.apart.sublist (take_sublist k ps)⟩
  refine ⟨ms, ?_, ?_, ?_⟩
  · refine htake.nodup hms fun p hp p' hp' m hm hm' a ha b hb => ?_
    obtain ⟨hmM, x, hx, hxm⟩ := hm
    obtain ⟨_, y, hy, hym⟩ := hm'
    exact (htake.same p hp a ha x hx).trans ((hsame m hmM x hxm y hym).trans (htake.same p' hp' y hy b hb))
  · rw [← hms.length_eq, length_take]
    omega
  · intro m hm
    obtain ⟨i, hi, rfl⟩ := getElem_of_mem hm
    obtain ⟨hmM, x, hx, hxm⟩ := hms.get (hms.length_eq ▸ hi) hi
    exact ⟨hmM, _, get_mem _ _, x, hx, hxm⟩

/-- Where a group was cut off, the first of the groups that were put together do not come after it. -/
theorem exists_between (hps : Groups key rows ps) {q : List α} (hq : q ∈ ps.drop k)
    (hkept : ∀ p ∈ ps.take k, ∀ x ∈ p, ∃ m ∈ M, x ∈ m) (hsame : ∀ m ∈ M, SameKey key m) (hM : M.Pairwise (Before le))
    (htie : ∀ a b, key a = key b → le a b) {m : List α} (hm : m ∈ M.take k) :
    ∃ p ∈ ps.take k, ∃ x ∈ p, ∀ a ∈ m, le a x := by
  obtain ⟨ms, hnodup, hlength, hms⟩ := exists_taken hps (length_of_mem_drop hq) hkept hsame
  rcases mem_drop_or_forall_mem hnodup hlength fun m hm => (hms m hm).1 with ⟨m', hm', hlate⟩ | hall
  · obtain ⟨_, p, hp, x, hx, hxm'⟩ := hms m' hm'
    rw [← take_append_drop k M] at hM
    exact ⟨p, hp, x, hx, fun a ha => (pairwise_append.1 hM).2.2 m hm m' hlate a ha x hxm'⟩
  · obtain ⟨hmM, p, hp, x, hx, hxm⟩ := hms m (hall m hm)
    exact ⟨p, hp, x, hx, fun a ha => htie a x (hsame m hmM a ha x hxm)⟩

theorem exists_sorted (htotal : ∀ a b, le a b ∨ le b a) (htrans : ∀ a b c, le a b → le b c → le a c)
    (htie : ∀ a b, key a = key b → le a b) {gs : List (List α)} (hne : ∀ g ∈ gs, g ≠ [])
    (hsame : ∀ g ∈ gs, SameKey key g) : ∃ s, SortsTo (Before le) gs s := by
  let heads := gs.attachWith (fun g => g ≠ []) hne
  obtain ⟨s, hs⟩ : ∃ s, SortsTo (fun g g' : {g : List α // g ≠ []} => le (g.1.head g.2) (g'.1.head g'.2)) heads s :=
    exists_sortsTo (fun g g' => htotal (g.1.head g.2) (g'.1.head g'.2))
      (fun g g' g'' => htrans (g.1.head g.2) (g'.1.head g'.2) (g''.1.head g''.2)) heads
  have hperm : (s.map Subtype.val).Perm gs := by
    have := hs.perm.map Subtype.val
    rwa [attachWith_map_subtype_val] at this
  refine ⟨s.map Subtype.val, hperm, pairwise_map.2 (hs.sorted.imp_of_mem fun {g g'} hg hg' hle a ha b hb => ?_)⟩
  have hin : ∀ g ∈ s, g.1 ∈ gs := fun g hg => hperm.mem_iff.1 (mem_map_of_mem hg)
  have hfirst := htie a (g.1.head g.2) (hsame g.1 (hin g hg) a ha _ (head_mem g.2))
  have hlast := htie (g'.1.head g'.2) b (hsame g'.1 (hin g' hg') _ (head_mem g'.2) b hb)
  exact htrans _ _ _ hfirst (htrans _ _ _ hle hlast)

variable {rowss : List (List α)} {pss : List (List (List α))}

theorem flatten_groups (h : Forall₂ (SortedGroups key le) rowss pss) : pss.flatten.flatten.Perm rowss.flatten := by
  induction h with
  | nil => exact .refl _
  | cons hps _ ih =>
    rw [flatten_cons, flatten_append, flatten_cons]
    exact hps.perm.append ih

theorem mem_groups (h : Forall₂ (SortedGroups key le) rowss pss) (hps : ps ∈ pss) :
    ∃ rows, SortedGroups key le rows ps := by
  obtain ⟨i, hi, rfl⟩ := getElem_of_mem hps
  exact ⟨_, h.get (h.length_eq ▸ hi) hi⟩

theorem mem_taken (hps : ps ∈ pss) {p : List α} (hp : p ∈ ps.take k) {x : α} (hx : x ∈ p) :
    x ∈ (pss.map (List.take k)).flatten.flatten :=
  mem_flatten.2 ⟨p, mem_flatten.2 ⟨ps.take k, mem_map_of_mem hps, hp⟩, hx⟩

theorem filter_taken {P : α → Bool} (h : ∀ ps ∈ pss, ∀ q ∈ ps.drop k, ∀ x ∈ q, P x = false) :
    (pss.map (List.take k)).flatten.flatten.filter P = pss.flatten.flatten.filter P := by
  rw [flatten_flatten, flatten_flatten, filter_flatten, filter_flatten, map_map, map_map, map_map]
  refine congrArg _ (map_congr_left fun ps hps => ?_)
  have hdrop : (ps.drop k).flatten.filter P = [] := by
    rw [filter_eq_nil_iff]
    intro x hx
    obtain ⟨q, hq, hx⟩ := mem_flatten.1 hx
    rw [h ps hps q hq x hx]
    exact Bool.false_ne_true
  show (ps.take k).flatten.filter P = ps.flatten.filter P
  conv_rhs => rw [← take_append_drop k ps, flatten_append, filter_append, hdrop, append_nil]

theorem sublist_taken : (pss.map (List.take k)).flatten.flatten.Sublist pss.flatten.flatten := by
  induction pss with
  | nil => exact .refl _
  | cons ps pss ih =>
    rw [map_cons, flatten_cons, flatten_cons, flatten_append, flatten_append]
    have htake : (ps.take k).flatten.Sublist ps.flatten := by
      conv_rhs => rw [← take_append_drop k ps, flatten_append]
      exact sublist_append_left _ _
    exact htake.append ih

section Cut

variable {ps : List (List α)} {q : List α} (hM : SortedGroups key le (pss.map (List.take k)).flatten.flatten M)

include hM

theorem exists_kept (hps : ps ∈ pss) {p : List α} (hp : p ∈ ps.take k) {x : α} (hx : x ∈ p) : ∃ m ∈ M, x ∈ m := by
  obtain ⟨m, hm, hxm⟩ := mem_flatten.1 (hM.perm.mem_iff.2 (mem_taken hps hp hx))
  exact ⟨m, hm, hxm⟩

/-- The groups of all rows: first those that the first `k` groups belong to, then the others. -/
theorem exists_split : ∃ first rest, Groups key pss.flatten.flatten (first ++ rest) ∧
      Forall₂ (fun m u => ∃ a ∈ m, a ∈ u) (M.take k) first := by
  have hMtake : ∀ m ∈ M.take k, m ∈ M := fun m hm => mem_of_mem_take hm
  obtain ⟨U, hU⟩ := exists_groups key pss.flatten.flatten
  obtain ⟨first, hfirst⟩ : ∃ first, Forall₂ (fun m u => u ∈ U ∧ ∃ a ∈ m, a ∈ u) (M.take k) first := by
    refine exists_forall₂ fun m hm => ?_
    obtain ⟨a, ha⟩ := exists_mem_of_ne_nil m (hM.nonempty m (hMtake m hm))
    obtain ⟨u, hu, hau⟩ := mem_flatten.1 (hU.perm.mem_iff.2 (sublist_taken.subset (hM.mem (hMtake m hm) ha)))
    exact ⟨u, hu, a, ha, hau⟩
  have htake : Groups key (M.take k).flatten (M.take k) :=
    ⟨.refl _, fun m hm => hM.nonempty m (hMtake m hm), fun m hm => hM.same m (hMtake m hm),
      hM.apart.sublist (take_sublist k M)⟩
  have hnodup : first.Nodup := by
    refine htake.nodup hfirst fun m hm m' hm' u hu hu' a ha b hb => ?_
    obtain ⟨huU, x, hx, hxu⟩ := hu
    obtain ⟨_, y, hy, hyu⟩ := hu'
    exact (htake.same m hm a ha x hx).trans ((hU.same u huU x hxu y hyu).trans (htake.same m' hm' y hy b hb))
  have hsub : first ⊆ U := by
    intro u hu
    obtain ⟨i, hi, rfl⟩ := getElem_of_mem hu
    exact (hfirst.get (hfirst.length_eq ▸ hi) hi).1
  obtain ⟨l, hl, hsublist⟩ := subperm_of_subset hnodup hsub
  obtain ⟨rest, hrest⟩ := hsublist.exists_perm_append
  exact ⟨first, rest, hU.reorder (hrest.trans (hl.append_right rest)).symm, hfirst.imp fun _ _ h => h.2⟩

variable (hpss : Forall₂ (SortedGroups key le) rowss pss)

include hpss

theorem le_length_of_cut (hps : ps ∈ pss) (hq : q ∈ ps.drop k) : k ≤ M.length := by
  obtain ⟨rows, hgroups⟩ := mem_groups hpss hps
  obtain ⟨ms, hnodup, hlength, hms⟩ := exists_taken hgroups.toGroups (length_of_mem_drop hq)
    (fun p hp x hx => exists_kept hM hps hp hx) hM.same
  exact hlength ▸ (subperm_of_subset hnodup fun m hm => (hms m hm).1).length_le

variable (htie : ∀ a b, key a = key b → le a b)

include htie

/-- A group that was cut off comes after the first ones, and a row of another key is between them. -/
theorem exists_between_cut (hps : ps ∈ pss) (hq : q ∈ ps.drop k) {m : List α} (hm : m ∈ M.take k) {b : α}
    (hb : b ∈ q) : ∃ x, (∀ a ∈ m, le a x) ∧ le x b ∧ key x ≠ key b := by
  obtain ⟨rows, hgroups⟩ := mem_groups hpss hps
  obtain ⟨p, hp, x, hx, hle⟩ := exists_between hgroups.toGroups hq (fun p hp x hx => exists_kept hM hps hp hx) hM.same
    hM.sorted htie hm
  have hsorted := hgroups.sorted
  have hapart := hgroups.apart
  rw [← take_append_drop k ps] at hsorted hapart
  exact ⟨x, hle, (pairwise_append.1 hsorted).2.2 p hp q hq x hx b hb,
    (pairwise_append.1 hapart).2.2 p hp q hq x hx b hb⟩

variable (htrans : ∀ a b c, le a b → le b c → le a c)

include htrans

/-- The other groups come after the first ones, and there are others only if there are `k` first ones. -/
theorem le_of_mem_rest {first rest : List (List α)} (hall : Groups key pss.flatten.flatten (first ++ rest))
    (hfirst : Forall₂ (fun m u => ∃ a ∈ m, a ∈ u) (M.take k) first) {u : List α} (hu : u ∈ rest) {b : α}
    (hb : b ∈ u) : k ≤ M.length ∧ ∀ m ∈ M.take k, ∀ a ∈ m, le a b := by
  obtain ⟨q, hq, hbq⟩ := mem_flatten.1 (hall.mem (mem_append_right _ hu) hb)
  obtain ⟨ps, hps, hq⟩ := mem_flatten.1 hq
  rw [← take_append_drop k ps] at hq
  rcases mem_append.1 hq with hq | hq
  · obtain ⟨m', hm', hbm'⟩ := exists_kept hM hps hq hbq
    have hlate : m' ∈ M.drop k := by
      have hmem := hm'
      rw [← take_append_drop k M] at hmem
      refine (mem_append.1 hmem).resolve_left fun htake => ?_
      -- otherwise `u` would be one of the first groups
      obtain ⟨i, hi, rfl⟩ := getElem_of_mem htake
      obtain ⟨a, ha, hau⟩ := hfirst.get hi (hfirst.length_eq ▸ hi)
      exact (pairwise_append.1 hall.apart).2.2 _ (get_mem _ _) u hu a hau b hb (hM.same _ hm' a ha b hbm')
    have hsorted := hM.sorted
    rw [← take_append_drop k M] at hsorted
    exact ⟨length_of_mem_drop hlate, fun m hm a ha => (pairwise_append.1 hsorted).2.2 m hm m' hlate a ha b hbm'⟩
  · refine ⟨le_length_of_cut hM hpss hps hq, fun m hm a ha => ?_⟩
    obtain ⟨x, hle, hxb, _⟩ := exists_between_cut hM hpss htie hps hq hm hbq
    exact htrans a x b (hle a ha) hxb

/-- The first `k` groups of what the lists returned are the first `k` groups of all rows. -/
theorem exists_sortedGroups (htotal : ∀ a b, le a b ∨ le b a) :
    ∃ S, SortedGroups key le rowss.flatten S ∧ Forall₂ (fun g g' => g.Subperm g' ∧
      ((∀ a b, le a b → le b a → key a = key b) → g.Perm g')) (M.take k) (S.take k) := by
  classical
  obtain ⟨first, rest, hall, hfirst⟩ := exists_split hM
  have hlength : first.length = min k M.length := by rw [← hfirst.length_eq, length_take]
  have hin : ∀ u ∈ rest, u ∈ first ++ rest := fun u hu => mem_append_right _ hu
  have hlater := fun u hu b hb => le_of_mem_rest hM hpss htie htrans hall hfirst (u := u) hu (b := b) hb
  obtain ⟨rest', hrest'⟩ := exists_sorted htotal htrans htie (fun u hu => hall.nonempty u (hin u hu))
    fun u hu => hall.same u (hin u hu)
  have hfirstAt : ∀ i (hi : i < first.length), ∃ a ∈ (M.take k).get ⟨i, hfirst.length_eq ▸ hi⟩,
    a ∈ first.get ⟨i, hi⟩ :=
    fun i hi => hfirst.get (hfirst.length_eq ▸ hi) hi
  have hsame : ∀ u ∈ first, SameKey key u := fun u hu => hall.same u (mem_append_left _ hu)
  refine ⟨first ++ rest', ⟨(hall.reorder (hrest'.perm.append_left first)).of_perm (flatten_groups hpss), ?_⟩, ?_⟩
  · refine pairwise_append.2 ⟨?_, hrest'.sorted, ?_⟩
    · -- the first groups are in the order of `M`
      have hsorted := hM.sorted.sublist (take_sublist k M)
      rw [pairwise_iff_getElem] at hsorted ⊢
      intro i j hi hj hij a ha b hb
      obtain ⟨x, hx, hxu⟩ := hfirstAt i hi
      obtain ⟨y, hy, hyu⟩ := hfirstAt j hj
      have hxy := hsorted i j (hfirst.length_eq ▸ hi) (hfirst.length_eq ▸ hj) hij x hx y hy
      exact htrans a x b (htie a x (hsame _ (get_mem _ _) a ha x hxu))
        (htrans x y b hxy (htie y b (hsame _ (get_mem _ _) y hyu b hb)))
    · intro u hu u' hu' a ha b hb
      obtain ⟨i, hi, rfl⟩ := getElem_of_mem hu
      obtain ⟨x, hx, hxu⟩ := hfirstAt i hi
      exact htrans a x b (htie a x (hsame _ hu a ha x hxu))
        ((hlater u' (hrest'.perm.mem_iff.1 hu') b hb).2 _ (get_mem _ _) x hx)
  · have htake : (first ++ rest').take k = first := by
      by_cases hempty : rest' = []
      · rw [hempty, append_nil, take_of_length_le (by omega)]
      · obtain ⟨u, hu⟩ := exists_mem_of_ne_nil _ hempty
        have hu' := hrest'.perm.mem_iff.1 hu
        obtain ⟨b, hb⟩ := exists_mem_of_ne_nil u (hall.nonempty u (hin u hu'))
        have hlong := (hlater u hu' b hb).1
        rw [take_append_of_le_length (by omega), take_of_length_le (by omega)]
    rw [htake]
    refine forall₂_iff_get.2 ⟨hfirst.length_eq, fun i hi hi' => ?_⟩
    obtain ⟨a, ha, hau⟩ := hfirst.get hi hi'
    have hm : (M.take k).get ⟨i, hi⟩ ∈ M.take k := get_mem _ _
    -- both are all rows of their key
    have hmfilter := hM.toGroups.perm_filter (mem_of_mem_take hm) ha
    have hufilter := hall.perm_filter (mem_append_left _ (get_mem _ _)) hau
    refine ⟨(hmfilter.subperm.trans (sublist_taken.filter _).subperm).trans hufilter.symm.subperm, fun hanti => ?_⟩
    rw [filter_taken] at hmfilter
    · exact hmfilter.trans hufilter.symm
    · intro ps hps q hq b hb
      refine decide_eq_false fun hkey => ?_
      obtain ⟨x, hle, hxb, hne⟩ := exists_between_cut hM hpss htie hps hq hm hb
      exact hne ((hanti x a (htrans x b a hxb (htie b a hkey)) (hle a ha)).trans hkey.symm)

end Cut

end Top

end Grouping
