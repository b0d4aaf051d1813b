import DbProxy.Lib.Grouping
import DbProxy.Spec.Aggregates
import DbProxy.Spec.Numerals

/-!
# Merging rows of groups

The loops of `buildSelectGroupByResult` and `buildSelectOnlyResult`, for any relation between a group and its row that
merging two rows keeps.  The groups are told apart by the text of their key; for integers and NULL the text determines
the key.
-/

namespace DbProxy

open Fallible List

open Grouping (Groups SameKey Apart)

/-! ### The text of a key -/

section Integers

variable (go : Runtime) {x y : Cell}

theorem formatValue_integer (h : x.isInteger) :
    (x = .null ∧ formatValue go x = ascii "NULL") ∨ ∃ n : Int, (x = .int64 n ∨ x = .uint64 n) ∧
      formatValue go x = ascii (toString n) := by
  cases x with
  | null => exact .inl ⟨rfl, rfl⟩
  | int64 n => exact .inr ⟨n, .inl rfl, rfl⟩
  | uint64 n => exact .inr ⟨n, .inr rfl, rfl⟩
  | _ => simp [Cell.isInteger, Cell.kind] at h

theorem separator_not_mem (h : x.isInteger) : (43 : UInt8) ∉ formatValue go x := by
  intro hmem
  rcases formatValue_integer go h with ⟨_, hx⟩ | ⟨n, _, hx⟩
  · rw [hx] at hmem
    revert hmem
    decide
  · rw [hx] at hmem
    rcases mem_ascii_int hmem with h | h
    · cases h
    · exact absurd h.1 (by decide)

theorem null_ne_int (n : Int) : ascii "NULL" ≠ ascii (toString n) := by
  intro h
  have hmem : (78 : UInt8) ∈ ascii (toString n) := by
    rw [← h]
    decide
  rcases mem_ascii_int hmem with h | h
  · cases h
  · exact absurd h.2 (by decide)

theorem formatValue_injective (hx : x.isInteger) (hy : y.isInteger) (hcomp : x.comparable y)
    (h : formatValue go x = formatValue go y) : x = y := by
  rcases formatValue_integer go hx with ⟨hx, hfx⟩ | ⟨m, hx, hfx⟩
  · rcases formatValue_integer go hy with ⟨hy, _⟩ | ⟨n, _, hfy⟩
    · rw [hx, hy]
    · rw [hfx, hfy] at h
      exact absurd h (null_ne_int n)
  · rcases formatValue_integer go hy with ⟨_, hfy⟩ | ⟨n, hy, hfy⟩
    · rw [hfx, hfy] at h
      exact absurd h.symm (null_ne_int m)
    · rw [hfx, hfy] at h
      obtain rfl := ascii_int_injective h
      rcases hx with rfl | rfl
      · rcases hy with rfl | rfl
        · rfl
        · simp [Cell.comparable, Cell.kind] at hcomp
      · rcases hy with rfl | rfl
        · simp [Cell.comparable, Cell.kind] at hcomp
        · rfl

end Integers

theorem append_separator_inj {a b s t : GoString} (ha : (43 : UInt8) ∉ a) (hb : (43 : UInt8) ∉ b)
    (h : a ++ 43 :: s = b ++ 43 :: t) : a = b ∧ s = t := by
  have htake : ∀ {l r : GoString}, (43 : UInt8) ∉ l → (l ++ 43 :: r).takeWhile (· ≠ 43) = l := by
    intro l r hl
    have hne : ∀ x ∈ l, decide (x ≠ 43) = true := fun x hx => decide_eq_true fun h => hl (h ▸ hx)
    rw [takeWhile_append_of_pos hne, takeWhile_cons_of_neg (by simp), append_nil]
  obtain rfl : a = b := by rw [← htake ha, h, htake hb]
  exact ⟨rfl, (List.cons.inj (append_cancel_left h)).2⟩

theorem generateMapKey_injective (go : Runtime) {xs ys : List Cell}
    (hcells : Forall₂ (fun x y => x.isInteger ∧ y.isInteger ∧ x.comparable y) xs ys)
    (h : generateMapKey go xs = generateMapKey go ys) : xs = ys := by
  induction hcells with
  | nil => rfl
  | @cons x y xs ys hxy _ ih =>
    have hsplit : ∀ (z : Cell) (zs : List Cell),
        generateMapKey go (z :: zs) = formatValue go z ++ 43 :: generateMapKey go zs := by
      intro z zs
      unfold generateMapKey
      rw [flatMap_cons, append_assoc]
      rfl
    rw [hsplit, hsplit] at h
    obtain ⟨hfirst, hrest⟩ := append_separator_inj (separator_not_mem go hxy.1) (separator_not_mem go hxy.2.1) h
    rw [formatValue_injective go hxy.1 hxy.2.1 hxy.2.2 hfirst, ih hrest]

/-! ### Merging two rows -/

theorem mergeRow_spec {v : ResultRow} {fs : List (Nat × AggregateFunc)} :
    ∀ (acc : ResultRow), (fs.map Prod.fst).Nodup →
      (∀ e ∈ fs, ∃ a b c, v[e.1]? = some a ∧ acc[e.1]? = some b ∧ e.2.merge a b = .ok c) →
      ∃ row, mergeRow fs v acc = .ok row ∧ row.length = acc.length ∧
        (∀ e ∈ fs, ∃ a b c, v[e.1]? = some a ∧ acc[e.1]? = some b ∧ e.2.merge a b = .ok c ∧ row[e.1]? = some c) ∧
        ∀ i, i ∉ fs.map Prod.fst → row[i]? = acc[i]? := by
  induction fs with
  | nil => exact fun _ _ _ => ⟨_, rfl, rfl, fun e he => absurd he not_mem_nil, fun _ _ => rfl⟩
  | cons e fs ih =>
    obtain ⟨idx, f⟩ := e
    intro acc hnodup h
    obtain ⟨hidx, hnodup⟩ := nodup_cons.1 hnodup
    obtain ⟨a, b, c, ha, hb, hc⟩ := h (idx, f) mem_cons_self
    have hstep : mergeTo idx f v acc = .ok (acc.set idx c) := by
      simp only [mergeTo, ha, hb, hc, bind, Except.bind]
    have hother : ∀ i, i ≠ idx → (acc.set idx c)[i]? = acc[i]? := fun i hi => getElem?_set_ne (Ne.symm hi)
    have hne : ∀ e ∈ fs, e.1 ≠ idx := by
      intro e he heq
      have hmem : e.1 ∈ fs.map Prod.fst := mem_map_of_mem he
      rw [heq] at hmem
      exact hidx hmem
    obtain ⟨row, hrow, hlength, hmerged, hkept⟩ := ih (acc.set idx c) hnodup fun e he => by
      obtain ⟨a, b, c, ha, hb, hc⟩ := h e (mem_cons_of_mem _ he)
      exact ⟨a, b, c, ha, (hother e.1 (hne e he)).trans hb, hc⟩
    refine ⟨row, ?_, hlength.trans (length_set ..), ?_, ?_⟩
    · exact bind_eq_ok.2 ⟨_, wrapErr_eq_ok.2 hstep, hrow⟩
    · intro e he
      rcases mem_cons.1 he with rfl | he
      · refine ⟨a, b, c, ha, hb, hc, ?_⟩
        rw [hkept idx hidx, getElem?_set_self (List.getElem?_eq_some_iff.1 hb).1]
      · obtain ⟨a, b, c, ha, hb, hc, hcell⟩ := hmerged e he
        exact ⟨a, b, c, ha, (hother e.1 (hne e he)).symm.trans hb, hc, hcell⟩
    · intro i hi
      rw [map_cons, mem_cons, not_or] at hi
      rw [hkept i hi.2, hother i hi.1]

/-! ### The loops -/

variable {fs : List (Nat × AggregateFunc)} {rows : List ResultRow}

section Steps

variable {go : Runtime} {columns : List Int} {m : AssocMap GoString ResultRow} {row : ResultRow} {cells : List Cell}

theorem groupRows_new (hcells : columns.mapM row.cell = .ok cells) (hget : m.get (generateMapKey go cells) = none) :
    groupRows go fs columns m (row :: rows) = groupRows go fs columns (m.set (generateMapKey go cells) row) rows := by
  simp only [groupRows, hcells, bind, Except.bind, hget]

theorem groupRows_old {acc acc' : ResultRow} (hcells : columns.mapM row.cell = .ok cells)
    (hget : m.get (generateMapKey go cells) = some acc) (hmerge : mergeRow fs row acc = .ok acc') :
    groupRows go fs columns m (row :: rows) = groupRows go fs columns
      (m.set (generateMapKey go cells) acc') rows := by
  simp only [groupRows, hcells, bind, Except.bind, hget, hmerge]

end Steps

section Loops

variable {Src : Type} {R : List Src → ResultRow → Prop} {fits : List Src → Prop}
  (hmerge : ∀ g g' acc row, R g acc → R g' row → fits (g ++ g') → ∃ acc', mergeRow fs row acc = .ok acc' ∧
    R (g ++ g') acc')
variable {parts : List (List Src)}

include hmerge

theorem mergeRows_spec (h : Forall₂ R parts rows) :
    ∀ {g : List Src} {acc : ResultRow}, R g acc → (∀ g', g' <+: g ++ parts.flatten → fits g') →
      ∃ row, mergeRows fs acc rows = .ok row ∧ R (g ++ parts.flatten) row := by
  induction h with
  | nil =>
    intro g acc hacc _
    rw [flatten_nil, append_nil]
    exact ⟨acc, rfl, hacc⟩
  | @cons g' row parts rows hrow _ ih =>
    intro g acc hacc hfits
    rw [flatten_cons, ← append_assoc] at hfits ⊢
    obtain ⟨acc', hstep, hacc'⟩ := hmerge g g' acc row hacc hrow (hfits _ (prefix_append _ _))
    obtain ⟨row', hrest, hrow'⟩ := ih hacc' hfits
    exact ⟨row', bind_eq_ok.2 ⟨acc', hstep, hrest⟩, hrow'⟩

theorem groupRows_spec {go : Runtime} (columns : List Int) (text : Src → GoString) (total : List Src)
    (hkey : ∀ g row, R g row → g.Subperm total → SameKey text g → ∀ r ∈ g,
      ∃ cells, columns.mapM row.cell = .ok cells ∧ generateMapKey go cells = text r)
    (hfits : ∀ g, g.Subperm total → SameKey text g → fits g)
    (h : Forall₂ R parts rows) :
    ∀ {m : AssocMap GoString ResultRow} {gs : List (List Src)} {done : List Src},
      (∀ g ∈ parts, g ≠ [] ∧ SameKey text g) →
      Forall₂ (fun e g => R g e.2 ∧ ∀ r ∈ g, text r = e.1) m gs → Groups text done gs →
      (done ++ parts.flatten).Subperm total →
      ∃ m' gs', groupRows go fs columns m rows = .ok m' ∧
        Forall₂ (fun e g => R g e.2 ∧ ∀ r ∈ g, text r = e.1) m' gs' ∧ Groups text (done ++ parts.flatten) gs' := by
  induction h with
  | nil =>
    intro m gs done _ hm hgs _
    rw [flatten_nil, append_nil]
    exact ⟨m, gs, rfl, hm, hgs⟩
  | @cons g row parts rows hrow _ ih =>
    intro m gs done hparts hm hgs htotal
    obtain ⟨⟨hne, hsame⟩, hparts⟩ := forall_mem_cons.1 hparts
    rw [flatten_cons, ← append_assoc] at htotal ⊢
    have hdone : (done ++ g).Subperm total := (sublist_append_left _ _).subperm.trans htotal
    have hg : g.Subperm total := (sublist_append_right _ _).subperm.trans hdone
    obtain ⟨r, hr⟩ := exists_mem_of_ne_nil g hne
    obtain ⟨cells, hcells, htext⟩ := hkey g row hrow hg hsame r hr
    cases hget : m.get (text r) with
    | none =>
      -- a new group
      have hnew : ∀ g' ∈ gs, Apart text g' g := by
        intro g' hg' a ha b hb hab
        obtain ⟨e, he, _, hekey⟩ := exists_of_mem hm.flip hg'
        have hmem : text r ∈ AssocMap.keys m := by
          rw [← hsame b hb r hr, ← hab, hekey a ha]
          exact mem_map_of_mem he
        rw [← AssocMap.get_isSome, hget] at hmem
        cases hmem
      rw [groupRows_new hcells (htext ▸ hget), htext, AssocMap.set_of_get_eq_none hget]
      refine ih hparts ?_ (hgs.add hne hsame hnew) htotal
      exact rel_append hm (.cons ⟨hrow, fun a ha => hsame a ha r hr⟩ .nil)
    | some acc =>
      -- the group of this key
      obtain ⟨m₁, m₂, rfl, hset⟩ := AssocMap.exists_set_of_get hget
      obtain ⟨gs₁, g', gs₂, rfl, hm₁, ⟨hacc, hekey⟩, hm₂⟩ := exists_of_forall₂_append hm
      have hboth : ∀ a ∈ g' ++ g, text a = text r := by
        intro a ha
        rcases mem_append.1 ha with ha | ha
        · exact hekey a ha
        · exact hsame a ha r hr
      have hsame' : SameKey text (g' ++ g) := fun a ha b hb => (hboth a ha).trans (hboth b hb).symm
      have hgs' := hgs.extend hsame'
      have hsub : (g' ++ g).Subperm total :=
        (hgs'.subperm (mem_append_right _ mem_cons_self)).trans hdone
      obtain ⟨acc', hstep, hacc'⟩ := hmerge g' g acc row hacc hrow (hfits _ hsub hsame')
      rw [groupRows_old hcells (htext ▸ hget) hstep, htext, hset]
      exact ih hparts (rel_append hm₁ (.cons ⟨hacc', hboth⟩ hm₂)) hgs' htotal

end Loops

end DbProxy
