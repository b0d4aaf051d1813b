import DbProxy.Spec.FieldNames
import DbProxy.Spec.GroupFields

/-!
# The groups of all shards

A shard returns one row for each of its groups.  The merge puts the rows of one group together, so that its result has
one row for each group of the rows of all shards, with the aggregate functions taken over the whole group.
-/

namespace DbProxy

open Fallible List

open Grouping (Groups)
open TopK (SortsTo keysLe)

/-! ### The merge -/

theorem Expr.call_plain (e : Expr Planned) : e.plain.call = e.call := by
  cases e with
  | column d c =>
    cases d with
    | none => rfl
    | some d => rfl
  | _ => rfl

/-- A plan whose rows can be merged group by group: aggregate functions can be merged, and the columns that
planning found for `GROUP BY` are those that the statement groups by. -/
structure SelectPlan.Groupable (plan : SelectPlan) (hasColumn : String → Bool) : Prop where
  merges : AggregatesMerge plan.selected
  single : plan.stmt.groupBy = none → ∃ f ∈ plan.selected, f.isCall
  keys : ∀ e ∈ plan.groupKeys hasColumn, e.call = none
  names : ∀ item ∈ plan.groupItems,
    (groupKey hasColumn plan.selected item.expr).plain = (foundKey plan.selected item.expr).plain

/-- What the rows must be like: integers of one type or NULL as keys, one type in each column, and values that the
aggregate functions can merge on any rows of one group. -/
structure GroupData {Src : Type} (E : Evaluation Src) (plan : SelectPlan) (rows : List Src) : Prop where
  keys : ∀ e ∈ plan.groupKeys E.hasColumn, ∀ r ∈ rows,
    (E.eval e r).isInteger ∧ ∀ r' ∈ rows, (E.eval e r).comparable (E.eval e r')
  columns : ∀ f ∈ plan.stmt.fields, ∀ r ∈ rows, ∀ r' ∈ rows, (f.operand E r).comparable (f.operand E r')
  fits : ∀ f ∈ plan.selected, ∀ g : List Src, g.Subperm rows → Grouping.SameKey (E.keys plan) g → f.FitsOn E g

theorem GroupData.subperm {Src : Type} {E : Evaluation Src} {plan : SelectPlan} {rows rows' : List Src}
    (h : GroupData E plan rows) (hsub : rows'.Subperm rows) : GroupData E plan rows' where
  keys e he r hr := ⟨(h.keys e he r (hsub.subset hr)).1, fun r' hr' => (h.keys e he r (hsub.subset hr)).2 r'
    (hsub.subset hr')⟩
  columns f hf r hr r' hr' := h.columns f hf r (hsub.subset hr) r' (hsub.subset hr')
  fits f hf g hg hsame := h.fits f hf g (hg.trans hsub) hsame

variable {Src : Type} {E : Evaluation Src}

section Values

variable {g g' : List Src}

theorem IsLast.comparable {le le' : Cell → Cell → Prop} {xs ys : List Cell} {a b : Cell} (ha : IsLast le xs a)
    (hb : IsLast le' ys b) (h : ∀ x ∈ xs, ∀ y ∈ ys, x.comparable y) : a.comparable b := by
  rcases ha with ⟨_, rfl⟩ | ⟨hmem, _⟩
  · exact .inl rfl
  · rcases hb with ⟨_, rfl⟩ | ⟨hmem', _⟩
    · exact .inr (.inl rfl)
    · exact h a hmem b hmem'

theorem AggregateFunc.IsValue.comparable {f : AggregateFunc} {distinct : Bool} {xs ys : List Cell} {a b : Cell}
    (ha : f.IsValue distinct xs a) (hb : f.IsValue distinct ys b) (h : ∀ x ∈ xs, ∀ y ∈ ys, x.comparable y) :
    a.comparable b := by
  cases f with
  | count =>
    rw [show a = _ from ha, show b = _ from hb]
    exact .inr (.inr rfl)
  | sum =>
    rw [show a = _ from ha, show b = _ from hb]
    split
    · exact .inl rfl
    · split
      · exact .inr (.inl rfl)
      · exact .inr (.inr rfl)
  | max | min =>
    unfold AggregateFunc.IsValue at ha hb
    exact ha.comparable hb h

theorem SelectField.IsValueOn.comparable {f : SelectField Planned} {c c' : Cell} (hc : f.IsValueOn E g c)
    (hc' : f.IsValueOn E g' c') (h : ∀ r ∈ g, ∀ r' ∈ g', (f.operand E r).comparable (f.operand E r')) :
    c.comparable c' := by
  cases f with
  | wildcard schema table => exact hc.elim
  | expr e asName =>
    cases hcall : e.call with
    | none =>
      obtain ⟨r, hr, rfl⟩ := (isValueOn_expr hcall).1 hc
      obtain ⟨r', hr', rfl⟩ := (isValueOn_expr hcall).1 hc'
      have := h r hr r' hr'
      rwa [operand_expr hcall, operand_expr hcall] at this
    | some call =>
      obtain ⟨fn, distinct, arg⟩ := call
      obtain ⟨m, hm, hc⟩ := (isValueOn_call hcall).1 hc
      obtain ⟨m', hm', hc'⟩ := (isValueOn_call hcall).1 hc'
      obtain rfl := ok_unique hm hm'
      refine hc.comparable hc' fun x hx y hy => ?_
      obtain ⟨r, hr, rfl⟩ := mem_map.1 hx
      obtain ⟨r', hr', rfl⟩ := mem_map.1 hy
      have := h r hr r' hr'
      rwa [operand_call hcall, operand_call hcall] at this

end Values

variable {p : TableAliasStmtInfo} {stmt : SelectStmt Parsed} {plan : SelectPlan} {fs : List (SelectField Planned)}

section Layout

variable {rows g : List Src} {row : ResultRow} {gs : List (List Src)} {rs : List Result} {r₀ : Result}

theorem GroupData.text_injective (h : GroupData E plan rows) (go : Runtime) {a b : Src} (ha : a ∈ rows)
    (hb : b ∈ rows) : generateMapKey go (E.keys plan a) = generateMapKey go (E.keys plan b) ↔
      E.keys plan a = E.keys plan b := by
  refine ⟨generateMapKey_injective go ?_, congrArg _⟩
  unfold Evaluation.keys
  rw [forall₂_map_left_iff, forall₂_map_right_iff, forall₂_same]
  exact fun e he => ⟨(h.keys e he a ha).1, (h.keys e he b hb).1, (h.keys e he a ha).2 b hb⟩

theorem SelectLayout.keyCells (h : SelectLayout p stmt plan fs) (hplan : plan.Groupable E.hasColumn)
    (hgroup : plan.stmt.groupBy.isSome)
    (hrow : GroupRow E plan plan.stmt.fields g row) (hsame : Grouping.SameKey (E.keys plan) g)
    {r : Src} (hr : r ∈ g) :
    (plan.groupByColumn.map fun (c : Nat) => (c : Int)).mapM (ResultRow.cell row) = .ok (E.keys plan r) := by
  obtain ⟨hlength, hrow⟩ := forall₂_iff_getElem?.1 hrow
  have hcolumns := forall₂_map_right_iff.1 h.groupColumns
  obtain ⟨hcount, hcolumns⟩ := forall₂_iff_getElem?.1 hcolumns
  have hkeys : E.keys plan r = plan.groupItems.map fun item =>
    E.eval (groupKey E.hasColumn plan.selected item.expr) r :=
    map_map
  rw [mapM_eq_ok, hkeys, forall₂_map_left_iff, forall₂_map_right_iff]
  refine forall₂_iff_getElem?.2 ⟨hcount, fun i c item hc hitem => ?_⟩
  have hmem : item ∈ plan.groupItems := mem_of_getElem? hitem
  obtain ⟨asName, hfield⟩ := h.getElem?_found (hcolumns i c item hc hitem)
  have hnames := hplan.names item hmem
  rw [h.selected_eq] at hnames ⊢
  have hcall : (foundKey fs item.expr).call = none := by
    rw [← Expr.call_plain, ← hnames, Expr.call_plain, ← h.selected_eq]
    exact hplan.keys _ (mem_map_of_mem hmem)
  have hcell := getElem?_eq_getElem (hlength ▸ (List.getElem?_eq_some_iff.1 hfield).1)
  obtain ⟨r', hr', hvalue⟩ := (isValueOn_expr hcall).1 (hrow c _ _ hfield hcell (.inl hgroup))
  have hkey : E.eval (foundKey fs item.expr) r' = E.eval (groupKey E.hasColumn fs item.expr) r := by
    have hsame := hsame r' hr' r hr
    unfold Evaluation.keys SelectPlan.groupKeys at hsame
    rw [map_map, map_map, h.selected_eq] at hsame
    rw [← E.plain, ← hnames, E.plain]
    exact map_inj_left.1 hsame item hmem
  unfold ResultRow.cell
  rw [if_pos (Int.natCast_nonneg c), Int.toNat_natCast, hcell, hvalue, hkey]

theorem SelectLayout.rowsCompare_groups (h : SelectLayout p stmt plan fs) {r : Result}
    (hfields : r.fields.length = plan.columnCount) (hdata : GroupData E plan rows) {g' : List Src}
    (hg : ∀ a ∈ g, a ∈ rows) (hg' : ∀ a ∈ g', a ∈ rows) {row' : ResultRow}
    (hrow : GroupRow E plan plan.stmt.fields g row) (hrow' : GroupRow E plan plan.stmt.fields g' row')
    (hsingle : plan.stmt.groupBy.isSome ∨ row = row') : RowsCompare (sortKeys plan r) row row' := by
  obtain ⟨hlength, hrow⟩ := forall₂_iff_getElem?.1 hrow
  obtain ⟨hlength', hrow'⟩ := forall₂_iff_getElem?.1 hrow'
  intro k hk
  obtain ⟨c, hc, hcolumn⟩ := exists_of_mem_sortKeys hk
  rw [deltaColumnCount_eq_zero hfields, add_zero] at hcolumn
  obtain ⟨item, _, hfound⟩ := exists_of_mem (forall₂_map_right_iff.1 h.orderColumns) hc
  obtain ⟨asName, hfield⟩ := h.getElem?_found hfound
  have hlt := (List.getElem?_eq_some_iff.1 hfield).1
  have hcell := getElem?_eq_getElem (hlength ▸ hlt)
  have hcell' := getElem?_eq_getElem (hlength' ▸ hlt)
  rw [hcolumn]
  refine ⟨row[c], row'[c], ?_, ?_, ?_⟩
  · unfold ResultRow.cell
    rw [if_pos (Int.natCast_nonneg c), Int.toNat_natCast, hcell]
  · unfold ResultRow.cell
    rw [if_pos (Int.natCast_nonneg c), Int.toNat_natCast, hcell']
  · rcases hsingle with hgroup | rfl
    · refine (hrow c _ _ hfield hcell (.inl hgroup)).comparable (hrow' c _ _ hfield hcell' (.inl hgroup)) ?_
      exact fun a ha b hb => hdata.columns _ (mem_of_getElem? hfield) a (hg a ha) b (hg' b hb)
    · exact .inr (.inr rfl)

theorem Grouped.reorder {gs' : List (List Src)} (h : Grouped E plan rows gs) (hperm : gs'.Perm gs) :
    Grouped E plan rows gs' := by
  unfold Grouped at h ⊢
  split at h
  · next hgroup =>
    rw [if_pos hgroup]
    exact h.reorder hperm
  · next hgroup =>
    subst h
    rw [if_neg hgroup]
    exact perm_singleton.1 hperm

theorem SelectLayout.groupRow_merge (h : SelectLayout p stmt plan fs) (hplan : plan.Groupable E.hasColumn)
    (g g' : List Src)
    (acc row : ResultRow) (hacc : GroupRow E plan plan.stmt.fields g acc)
    (hrow : GroupRow E plan plan.stmt.fields g' row) (hfits : ∀ f ∈ plan.selected, f.FitsOn E (g ++ g')) :
    ∃ acc', mergeRow plan.aggregateFuncs row acc = .ok acc' ∧ GroupRow E plan plan.stmt.fields (g ++ g') acc' := by
  rw [h.selected_eq] at hfits
  refine hacc.merge h.aggregateMergers_fields (h.aggregatesMerge (h.selected_eq ▸ hplan.merges)) hrow ?_
  exact fun f hf => h.fitsOn hfits hf

variable (go : Runtime) {parts : List (List Src)} {r : Result}

theorem SelectLayout.buildSelectGroupByResult_spec (h : SelectLayout p stmt plan fs)
    (hplan : plan.Groupable E.hasColumn)
    (hgroup : plan.stmt.groupBy.isSome) (hfields : r.fields.length = plan.columnCount)
    (hvalues : Forall₂ (GroupRow E plan plan.stmt.fields) parts r.values)
    (hparts : ∀ g ∈ parts, g ≠ [] ∧ Grouping.SameKey (E.keys plan) g) (hdata : GroupData E plan parts.flatten) :
    ∃ values gs, buildSelectGroupByResult go plan r = .ok { r with values } ∧ Groups (E.keys plan) parts.flatten gs ∧
      Forall₂ (GroupRow E plan plan.stmt.fields) gs values := by
  have hsame : ∀ g : List Src, g.Subperm parts.flatten →
      (Grouping.SameKey (fun r => generateMapKey go (E.keys plan r)) g ↔ Grouping.SameKey (E.keys plan) g) := by
    intro g hg
    unfold Grouping.SameKey
    exact forall₂_congr fun a ha => forall₂_congr fun b hb => hdata.text_injective go (hg.subset ha) (hg.subset hb)
  obtain ⟨m, gs, hm, hrows, hgs⟩ := groupRows_spec (h.groupRow_merge hplan)
    (plan.groupByColumn.map fun (c : Nat) => (c : Int)) (fun r => generateMapKey go (E.keys plan r)) parts.flatten
    (fun g row hrow hsub hg r hr => ⟨_, h.keyCells hplan hgroup hrow ((hsame g hsub).1 hg) hr, rfl⟩)
    (fun g hsub hg f hf => hdata.fits f hf g hsub ((hsame g hsub).1 hg)) hvalues (m := [])
    (fun g hg => ⟨(hparts g hg).1, (hsame g (sublist_flatten_of_mem hg).subperm).2 (hparts g hg).2⟩)
    .nil (Groups.nil _) (.refl _)
  have hgs : Groups (E.keys plan) parts.flatten gs := hgs.congr fun a ha b hb => hdata.text_injective go ha hb
  have hbuild : buildSelectGroupByResult go plan r =
      if m.isEmpty then .ok r else .ok { r with values := go.range (m.map Prod.snd) } := by
    unfold buildSelectGroupByResult
    rw [deltaColumnCount_eq_zero hfields]
    simp only [Int.add_zero, hm, bind, Except.bind]
  rw [hbuild]
  cases m with
  | nil =>
    -- no group, so there was no part
    cases hrows
    have hempty : parts = [] := by
      refine eq_nil_iff_forall_not_mem.2 fun g hg => (hparts g hg).1 ?_
      exact flatten_eq_nil_iff.1 (nil_perm.1 hgs.perm) g hg
    subst hempty
    exact ⟨r.values, [], rfl, hgs, hvalues⟩
  | cons e m =>
    have hrows : Forall₂ (GroupRow E plan plan.stmt.fields) gs ((e :: m).map Prod.snd) :=
      forall₂_map_right_iff.2 (hrows.imp fun _ _ h => h.1).flip
    obtain ⟨gs', hperm, hrows'⟩ := exists_perm_of_forall₂ hrows (go.range_perm _)
    exact ⟨_, gs', rfl, hgs.reorder hperm, hrows'⟩

theorem SelectLayout.buildSelectOnlyResult_spec (h : SelectLayout p stmt plan fs) (hplan : plan.Groupable E.hasColumn)
    (hgroup : plan.stmt.groupBy = none) (hvalues : Forall₂ (GroupRow E plan plan.stmt.fields) parts r.values)
    (hparts : parts ≠ []) (hdata : GroupData E plan parts.flatten) :
    ∃ values, buildSelectOnlyResult plan r = .ok { r with values } ∧
      Forall₂ (GroupRow E plan plan.stmt.fields) [parts.flatten] values := by
  have hsame : ∀ g : List Src, Grouping.SameKey (E.keys plan) g := by
    intro g a _ b _
    unfold Evaluation.keys SelectPlan.groupKeys SelectPlan.groupItems
    rw [hgroup]
    rfl
  generalize hr : r.values = values at hvalues
  cases hvalues with
  | nil => exact absurd rfl hparts
  | @cons g row parts rows hrow hrows =>
    have hmergers : plan.aggregateFuncs.isEmpty = false := by
      obtain ⟨f, hf, hcall⟩ := hplan.single hgroup
      obtain ⟨i, hi⟩ := getElem?_of_mem (mem_of_mem_take hf)
      obtain ⟨hlength, hrow⟩ := forall₂_iff_getElem?.1 hrow
      have hcell := getElem?_eq_getElem (hlength ▸ (List.getElem?_eq_some_iff.1 hi).1)
      obtain ⟨m, hm⟩ := (hrow i f _ hi hcell (.inr hcall)).exists_merger h.aggregateMergers_fields hi hcall
      rw [isEmpty_eq_false_iff]
      exact ne_nil_of_mem hm
    obtain ⟨row', hmerge, hrow'⟩ := mergeRows_spec (h.groupRow_merge hplan) hrows hrow fun g' hg' f hf =>
      hdata.fits f hf g' hg'.sublist.subperm (hsame g')
    refine ⟨[row'], ?_, .cons hrow' .nil⟩
    unfold buildSelectOnlyResult
    rw [hmergers, hr]
    exact bind_eq_ok.2 ⟨row', hmerge, rfl⟩

theorem GroupRow.length {fields : List (SelectField Planned)}
    (h : GroupRow E plan fields g row) : row.length = fields.length :=
  (Forall₂.length_eq h).symm

theorem SelectLayout.exists_parts (h : SelectLayout p stmt plan fs) {partss : List (List (List Src))}
    (hne : rs ≠ []) (ha : Forall₂ (GroupAnswers E plan) partss rs) :
    ∃ r, mergeMultiResultSet rs = .ok r ∧ r.fields.length = plan.columnCount ∧
      Forall₂ (GroupRow E plan plan.stmt.fields) partss.flatten r.values := by
  have htab : ∀ r ∈ rs, r.Tabular plan.columnCount := by
    intro r hr
    obtain ⟨gs, _, hgs⟩ := exists_of_mem ha.flip hr
    refine ⟨hgs.fields, fun row hrow => ?_⟩
    obtain ⟨g, _, hg⟩ := exists_of_mem hgs.values.flip hrow
    exact (GroupRow.length hg).trans h.count.symm
  obtain ⟨r, hr, hrtab, hvalues⟩ := mergeMultiResultSet_spec hne htab
  refine ⟨r, hr, hrtab.fields, ?_⟩
  rw [hvalues]
  exact rel_flatten (forall₂_map_right_iff.2 (ha.imp fun _ _ h => h.values))

theorem SelectLayout.finish_groups (h : SelectLayout p stmt plan fs)
    (hfields : r.fields.length = plan.columnCount)
    (hgroups : Forall₂ (GroupRow E plan plan.stmt.fields) gs r.values) :
    ∃ res, finishResult go plan r = .ok res ∧ Forall₂ (GroupRow E plan plan.selected) gs res.values := by
  obtain ⟨res, hres, hvalues⟩ := finishResult_spec go (p := plan) (r := r) ⟨hfields, fun row hrow => by
    obtain ⟨g, _, hg⟩ := exists_of_mem hgroups.flip hrow
    exact (GroupRow.length hg).trans h.count.symm⟩ h.origin_le
  refine ⟨res, hres, ?_⟩
  rw [hvalues, forall₂_map_right_iff]
  exact hgroups.imp fun g row hrow => forall₂_take _ hrow

section

variable (h : SelectLayout p stmt plan fs) (hplan : plan.Groupable E.hasColumn) (h₀ : mergeMultiResultSet rs = .ok r₀)
  (h₁ : (if plan.stmt.distinct then removeDistinctRowInResult go plan r₀ else .ok r₀) = .ok r)
  (hfields : r.fields.length = plan.columnCount)
  (hrows : Forall₂ (GroupRow E plan plan.stmt.fields) parts r.values)
  (hparts : if plan.stmt.groupBy.isSome then ∀ g ∈ parts, g ≠ [] ∧ Grouping.SameKey (E.keys plan) g else parts ≠ [])
  (hdata : GroupData E plan parts.flatten)

include h hplan h₀ h₁ hfields hrows hparts hdata

/-- Rows of parts of groups are merged into a sorted row for each group; the limit comes next. -/
theorem SelectLayout.exists_groups_from :
    ∃ r' gs, mergeSelectResult go plan rs = limitSelectResult plan r' >>= finishResult go plan ∧
      r'.fields.length = plan.columnCount ∧ Grouped E plan parts.flatten gs ∧
      Forall₂ (GroupRow E plan plan.stmt.fields) gs r'.values ∧
      r'.values.Pairwise (keysLe (rowKeys (sortKeys plan r'))) := by
  obtain ⟨values, gs, hbuild, hgs, hgroups⟩ : ∃ values gs,
      (if plan.stmt.groupBy.isSome then buildSelectGroupByResult go plan r else buildSelectOnlyResult plan r) =
        .ok { r with values } ∧ Grouped E plan parts.flatten gs ∧
      Forall₂ (GroupRow E plan plan.stmt.fields) gs values := by
    by_cases hgroup : plan.stmt.groupBy.isSome
    · rw [if_pos hgroup] at hparts ⊢
      obtain ⟨values, gs, hbuild, hgs, hgroups⟩ :=
        h.buildSelectGroupByResult_spec go hplan hgroup hfields hrows hparts hdata
      exact ⟨values, gs, hbuild, by rwa [Grouped, if_pos hgroup], hgroups⟩
    · rw [if_neg hgroup] at hparts ⊢
      obtain ⟨values, hbuild, hgroups⟩ :=
        h.buildSelectOnlyResult_spec hplan (Option.not_isSome_iff_eq_none.1 hgroup) hrows hparts hdata
      exact ⟨values, _, hbuild, by rw [Grouped, if_neg hgroup], hgroups⟩
  have hmem : ∀ g ∈ gs, ∀ a ∈ g, a ∈ parts.flatten := by
    intro g hg a ha
    unfold Grouped at hgs
    split at hgs
    · exact hgs.mem hg ha
    · rw [hgs] at hg
      exact mem_singleton.1 hg ▸ ha
  obtain ⟨s, hs, hperm, hsorted⟩ := sortSelectResult_spec go (p := plan) (r := { r with values }) (by
    intro row hrow row' hrow'
    obtain ⟨g, hg, hgrow⟩ := exists_of_mem hgroups.flip hrow
    obtain ⟨g', hg', hgrow'⟩ := exists_of_mem hgroups.flip hrow'
    refine h.rowsCompare_groups hfields hdata (hmem g hg) (hmem g' hg') hgrow hgrow' ?_
    by_cases hgroup : plan.stmt.groupBy.isSome
    · exact .inl hgroup
    · rw [Grouped, if_neg hgroup] at hgs
      subst hgs
      obtain ⟨row₀, rfl⟩ := length_eq_one_iff.1 hgroups.length_eq.symm
      exact .inr ((mem_singleton.1 hrow).trans (mem_singleton.1 hrow').symm))
  obtain ⟨gs', hgsPerm, hgroups'⟩ := exists_perm_of_forall₂ hgroups hperm
  exact ⟨{ r with values := s }, gs', mergeSelectResult_of_steps go h₀ h₁ hbuild hs, hfields,
    hgs.reorder hgsPerm, hgroups', hsorted⟩

theorem SelectLayout.merge_groups (hlimit : stmt.limit = none) :
    ∃ res gs, mergeSelectResult go plan rs = .ok res ∧ Grouped E plan parts.flatten gs ∧
      Forall₂ (GroupRow E plan plan.selected) gs res.values := by
  obtain ⟨r', gs, hmerge, hfields', hgs, hgroups, _⟩ := h.exists_groups_from go hplan h₀ h₁ hfields hrows hparts hdata
  have hcut : limitSelectResult plan r' = .ok r' :=
    limitSelectResult_none (hlimit ▸ h.limit)
  obtain ⟨res, hres, hvalues⟩ := h.finish_groups go hfields' hgroups
  refine ⟨res, gs, ?_, hgs, hvalues⟩
  rw [hmerge, hcut]
  exact hres

end

end Layout

/-! ### Statements with aggregate functions -/

/-- Whatever the shards hold: if each returns one row for each of its groups, the merged rows are those of the groups
of all rows. -/
def MergesGroups (hasColumn : String → Bool) (plan : SelectPlan) : Prop :=
  ∀ (Src : Type) (E : Evaluation Src) (go : Runtime) (shards : List (List Src)) (partss : List (List (List Src)))
    (rs : List Result), E.hasColumn = hasColumn → shards ≠ [] → Forall₂ (Grouped E plan) shards partss →
    Forall₂ (GroupAnswers E plan) partss rs → GroupData E plan shards.flatten →
    ∃ res gs, mergeSelectResult go plan rs = .ok res ∧ Grouped E plan shards.flatten gs ∧
      Forall₂ (GroupRow E plan plan.selected) gs res.values

/-- An alias is not the alias, nor the column name, of another field. -/
def NamesApart (stmt : SelectStmt Parsed) : Prop :=
  ∀ e asName e' asName', SelectField.expr e asName ∈ stmt.fields → SelectField.expr e' asName' ∈ stmt.fields →
    asName.l ≠ "" → asName'.l = asName.l ∨ e'.isColumn asName.l = true → e = e'

/-- No name in `GROUP BY` is the alias of an aggregate function, or that of a column of the tables and the alias of
another field. -/
def GroupsByColumns (hasColumn : String → Bool) (stmt : SelectStmt Parsed) : Prop :=
  ∀ item ∈ stmt.groupBy.getD [], ∀ c, item.expr = .column () c → ¬ c.Qualified → ∀ e asName,
    SelectField.expr e asName ∈ stmt.fields → asName.l ≠ "" → asName.l = c.name.l →
      (∀ fn, e.outermost ≠ some (.inr fn)) ∧
        (hasColumn c.name.l = true → (SelectField.expr e asName).NamesColumn c.name.l)

theorem namesApart_of_no_alias (h : ∀ e asName, SelectField.expr e asName ∈ stmt.fields → asName.l = "") :
    NamesApart stmt := fun e asName _ _ he _ hne => absurd (h e asName he) hne

theorem groupsByColumns_of_no_alias (h : ∀ e asName, SelectField.expr e asName ∈ stmt.fields → asName.l = "")
    (hasColumn : String → Bool) : GroupsByColumns hasColumn stmt :=
  fun _ _ _ _ _ e asName he hne => absurd (h e asName he) hne

/-- `COUNT`, `MAX` or `MIN` of all values. -/
def Expr.isCountMaxMin (e : Expr Parsed) : Prop :=
  ∃ fn arg, e.call = some (fn, false, arg) ∧ toLower fn ∈ ["count", "max", "min"]

/-- A `SELECT` of columns and of `COUNT`, `MAX` and `MIN`, without `DISTINCT`, `HAVING` and `LIMIT`.  Without `GROUP
BY` there are no columns. -/
structure AggregateSelect (hasColumn : String → Bool) (stmt : SelectStmt Parsed) : Prop where
  fields : ∀ f ∈ stmt.fields, ∃ e asName, f = .expr e asName ∧
    (stmt.groupBy.isSome ∧ (∃ c, e = .column () c) ∨ e.isCountMaxMin)
  nonempty : stmt.fields ≠ []
  distinct : stmt.distinct = false
  having : stmt.having = none
  limit : stmt.limit = none
  names : NamesApart stmt
  groupBy : GroupsByColumns hasColumn stmt

section Statement

variable {e' : Expr Planned} {f : ColumnName → Except Fail (Option ColumnNameDecorator)} {hasColumn : String → Bool}

theorem forall₂_acceptList {es : List (Expr Parsed)} :
    ∀ {es' : List (Expr Planned)}, Expr.acceptList f es = .ok es' →
      Forall₂ (fun e e' => e.accept f = .ok e') es es' := by
  induction es with
  | nil =>
    intro es' h
    cases h
    exact .nil
  | cons e es ih =>
    intro es' h
    obtain ⟨e', he, h⟩ := bind_eq_ok.1 h
    obtain ⟨rest, hrest, h⟩ := bind_eq_ok.1 h
    cases h
    exact .cons he (ih hrest)

theorem call_accept {e : Expr Parsed} (h : e.accept f = .ok e') {fn : String} {distinct : Bool} {arg : Expr Parsed}
    (hcall : e.call = some (fn, distinct, arg)) :
    ∃ arg', e'.call = some (fn, distinct, arg') ∧ arg.accept f = .ok arg' := by
  unfold Expr.call at hcall
  split at hcall
  · cases hcall
    obtain ⟨parts, hparts, h⟩ := bind_eq_ok.1 h
    cases h
    obtain - | ⟨htext, - | ⟨harg, - | ⟨htext', - | _⟩⟩⟩ := forall₂_acceptList hparts
    cases htext
    cases htext'
    exact ⟨_, rfl, harg⟩
  · cases hcall
    obtain ⟨parts, hparts, h⟩ := bind_eq_ok.1 h
    cases h
    obtain - | ⟨htext, - | ⟨hdistinct, - | ⟨harg, - | ⟨htext', - | _⟩⟩⟩⟩ := forall₂_acceptList hparts
    cases htext
    cases hdistinct
    cases htext'
    exact ⟨_, Expr.call_distinct .., harg⟩
  · cases hcall

theorem Expr.merges.accept {e : Expr Parsed} (hmerges : e.merges) (h : e.accept f = .ok e') : e'.merges := by
  obtain ⟨fn, distinct, arg, hcall, hmerges⟩ := hmerges
  obtain ⟨arg', hcall', _⟩ := call_accept h hcall
  exact ⟨fn, distinct, arg', hcall', hmerges⟩

section

variable (h : SelectLayout p stmt plan fs)

include h

theorem SelectLayout.orderKey_eq_foundKey (hnames : NamesApart stmt) (e : Expr Planned) :
    (orderKey fs e).plain = (foundKey fs e).plain := by
  rcases orderKey_or_selected fs e with hsame | ⟨asName, hmem, hne, f, hf, hnamed⟩
  · exact hsame
  · obtain ⟨asName', rfl, hname⟩ := SelectField.eq_of_named hnamed
    obtain ⟨e₁, hmem₁, haccept₁⟩ := h.exists_field hmem
    obtain ⟨e₂, hmem₂, haccept₂⟩ := h.exists_field hf
    have hnamed₂ : asName'.l = asName.l ∨ e₂.isColumn asName.l = true := by
      refine hname.imp And.right fun hcolumn => ?_
      have houter := outermost_accept haccept₂
      unfold Expr.isColumnNamed at hcolumn
      split at hcolumn
      · next heq =>
        rw [heq] at houter
        cases e₂ with
        | column a c' =>
          cases houter
          exact hcolumn
        | _ => cases houter
      · cases hcolumn
    rw [hnames e₁ asName e₂ asName' hmem₁ hmem₂ hne hnamed₂, haccept₂] at haccept₁
    rw [Except.ok.inj haccept₁]

theorem SelectLayout.bare_item {item' : ByItem Planned} (hitem : item' ∈ plan.groupItems) {c : ColumnName}
    (hexpr : item'.expr = .column none c) :
    ∃ item ∈ stmt.groupBy.getD [], item.expr = .column () c ∧ ¬ c.Qualified := by
  obtain ⟨item, hmem, hcreate⟩ := exists_item_of_mem h.groupBy hitem
  rcases createSelectFieldFromByItem_cases hcreate with ⟨_, _, _, heq⟩ | ⟨_, _, _, heq, _⟩ | ⟨c', hitem, heq, hbare⟩
  · rw [hexpr] at heq
    cases heq
  · rw [hexpr] at heq
    cases heq
  · rw [hexpr] at heq
    cases heq
    exact ⟨item, hmem, hitem, hbare⟩

theorem SelectLayout.groupKeys_call (hgroup : GroupsByColumns hasColumn stmt) {e : Expr Planned}
    (he : e ∈ plan.groupKeys hasColumn) : e.call = none := by
  obtain ⟨item', hitem', rfl⟩ := mem_map.1 he
  have hnot : ∀ e : Expr Planned, (∀ fn, e.outermost ≠ some (.inr fn)) → e.call = none := by
    intro e he
    cases hcall : e.call with
    | none => rfl
    | some c =>
      obtain ⟨parts, rfl⟩ := Expr.aggregate_of_call hcall
      exact absurd rfl (he _)
  rw [h.selected_eq]
  refine hnot _ ?_
  unfold groupKey
  split
  · next c heq =>
    split
    · intro fn hfn
      cases hfn
    · obtain ⟨item, hitem, hexpr, hbare⟩ := h.bare_item hitem' heq
      rw [orderKey]
      cases halias : fs.findSome? (SelectField.aliased c.name.l) with
      | none =>
        intro fn hfn
        cases hfn
      | some e =>
        obtain ⟨asName, hmem, hne, hname⟩ := exists_aliased halias
        obtain ⟨e₀, hmem₀, haccept⟩ := h.exists_field hmem
        rw [Option.getD_some, outermost_accept haccept]
        exact (hgroup item hitem c hexpr hbare e₀ asName hmem₀ hne hname).1
  · obtain ⟨item, hitem, hcreate⟩ := exists_item_of_mem h.groupBy hitem'
    exact (createSelectFieldFromByItem_outermost hcreate).2

/-- Planning takes an item of `GROUP BY` for what it stands for. -/
theorem SelectLayout.groupKey_eq_foundKey (hnames : NamesApart stmt) (hgroup : GroupsByColumns hasColumn stmt)
    {item' : ByItem Planned} (hitem : item' ∈ plan.groupItems) :
    (groupKey hasColumn fs item'.expr).plain = (foundKey fs item'.expr).plain := by
  rw [← h.orderKey_eq_foundKey hnames]
  unfold groupKey
  split
  · next c heq =>
    split
    · next hcolumn =>
      obtain ⟨item, hitem, hexpr, hbare⟩ := h.bare_item hitem heq
      rw [heq, orderKey]
      cases halias : fs.findSome? (SelectField.aliased c.name.l) with
      | none => rfl
      | some e =>
        -- the field with this alias is the column itself
        obtain ⟨asName, hmem, hne, hname⟩ := exists_aliased halias
        obtain ⟨e₀, hmem₀, haccept⟩ := h.exists_field hmem
        have hnamed := (isColumnNamed_accept haccept).2
          ((hgroup item hitem c hexpr hbare e₀ asName hmem₀ hne hname).2 hcolumn)
        unfold Expr.isColumnNamed at hnamed
        split at hnamed
        · next c' =>
          have hl : c'.name.l = c.name.l := of_decide_eq_true hnamed
          rw [Option.getD_some, Expr.plain, Expr.plain, hl]
        · cases hnamed
    · rw [heq]
  · next hother =>
    unfold orderKey
    split
    · next c heq => exact absurd heq (hother c)
    · rfl

theorem SelectLayout.groupBy_isSome : plan.stmt.groupBy.isSome = stmt.groupBy.isSome := by
  have hgroup := h.groupBy
  cases hs : stmt.groupBy with
  | none =>
    rw [hs] at hgroup
    rw [← Except.ok.inj hgroup]
    rfl
  | some items =>
    rw [hs] at hgroup
    obtain ⟨l, _, hgroup⟩ := bind_eq_ok.1 hgroup
    rw [← Except.ok.inj hgroup]
    rfl

/-- Fields whose outermost aggregate functions can be merged, and one of them if there is no `GROUP BY`. -/
theorem SelectLayout.groupable_of
    (hfields : ∀ f ∈ stmt.fields, ∃ e asName, f = .expr e asName ∧ ∀ fn, e.outermost = some (.inr fn) → e.merges)
    (hsingle : stmt.groupBy = none → ∃ e asName, SelectField.expr e asName ∈ stmt.fields ∧ e.merges)
    (hnames : NamesApart stmt) (hgroupBy : GroupsByColumns hasColumn stmt) : plan.Groupable hasColumn := by
  refine ⟨?_, ?_, fun e he => h.groupKeys_call hgroupBy he, ?_⟩
  · intro f hf
    rw [h.selected_eq] at hf
    obtain ⟨e, e', asName, rfl, he', he⟩ := h.exists_expr hf hfields
    refine ⟨e', asName, rfl, fun fn hfn => (he fn ?_).accept he'⟩
    rwa [← outermost_accept he']
  · intro hgroup
    have hnone : stmt.groupBy = none := by
      rw [← Option.not_isSome_iff_eq_none, ← h.groupBy_isSome, hgroup]
      exact Bool.false_ne_true
    obtain ⟨e, asName, hmem, hmerges⟩ := hsingle hnone
    obtain ⟨f', hf', haccept⟩ := exists_of_mem h.fields hmem
    obtain ⟨e', he', haccept⟩ := bind_eq_ok.1 haccept
    cases haccept
    rw [← h.selected_eq] at hf'
    exact ⟨_, hf', (hmerges.accept he').isSome⟩
  · intro item hitem
    rw [h.selected_eq]
    exact h.groupKey_eq_foundKey hnames hgroupBy hitem

theorem SelectLayout.groupable (hstmt : AggregateSelect hasColumn stmt) : plan.Groupable hasColumn := by
  have hmerges : ∀ e : Expr Parsed, e.isCountMaxMin → e.merges := by
    rintro e ⟨fn, arg, hcall, _⟩
    refine ⟨fn, false, arg, hcall, fun m _ => ?_⟩
    cases m with
    | count | sum => rfl
    | max | min => trivial
  refine h.groupable_of ?_ ?_ hstmt.names hstmt.groupBy
  · intro f hf
    obtain ⟨e, asName, rfl, he⟩ := hstmt.fields f hf
    refine ⟨e, asName, rfl, fun fn hfn => ?_⟩
    rcases he with ⟨_, c, rfl⟩ | he
    · cases hfn
    · exact hmerges e he
  · intro hnone
    obtain ⟨f, hf⟩ := exists_mem_of_ne_nil _ hstmt.nonempty
    obtain ⟨e, asName, rfl, he⟩ := hstmt.fields f hf
    refine ⟨e, asName, hf, hmerges e (he.resolve_left fun hsome => ?_)⟩
    rw [hnone] at hsome
    cases hsome.1

end

end Statement

section Shards

variable {shards : List (List Src)} {partss : List (List (List Src))}

section

variable (h : Forall₂ (Grouped E plan) shards partss)

include h

theorem flatten_parts :
    partss.flatten.flatten.Perm shards.flatten := by
  induction h with
  | nil => exact .refl _
  | @cons rows parts shards partss hparts _ ih =>
    rw [flatten_cons, flatten_append, flatten_cons]
    refine .append ?_ ih
    unfold Grouped at hparts
    split at hparts
    · exact hparts.perm
    · rw [hparts, flatten_singleton]

theorem flatten_single (hgroup : ¬ plan.stmt.groupBy.isSome) :
    partss.flatten = shards := by
  induction h with
  | nil => rfl
  | cons hparts _ ih =>
    rw [Grouped, if_neg hgroup] at hparts
    rw [flatten_cons, ih, hparts, singleton_append]

theorem mergeable_parts (hne : shards ≠ []) :
    if plan.stmt.groupBy.isSome then ∀ g ∈ partss.flatten, g ≠ [] ∧ Grouping.SameKey (E.keys plan) g
      else partss.flatten ≠ [] := by
  split
  · next hgroup =>
    intro g hg
    obtain ⟨parts, hparts, hg⟩ := mem_flatten.1 hg
    obtain ⟨rows, _, hgroups⟩ := exists_of_mem h.flip hparts
    rw [if_pos hgroup] at hgroups
    exact ⟨hgroups.nonempty g hg, hgroups.same g hg⟩
  · next hgroup => rwa [flatten_single h hgroup]

theorem Grouped.of_parts {gs : List (List Src)}
    (hgs : Grouped E plan partss.flatten.flatten gs) : Grouped E plan shards.flatten gs := by
  unfold Grouped at hgs ⊢
  split at hgs
  · next hgroup =>
    rw [if_pos hgroup]
    exact hgs.of_perm (flatten_parts h)
  · next hgroup =>
    rw [if_neg hgroup]
    rwa [flatten_single h hgroup] at hgs

end

end Shards

theorem SelectLayout.mergesGroups {p : TableAliasStmtInfo} {stmt : SelectStmt Parsed} {plan : SelectPlan}
    {fs : List (SelectField Planned)} {hasColumn : String → Bool} (h : SelectLayout p stmt plan fs)
    (hplan : plan.Groupable hasColumn) (hdistinct : stmt.distinct = false) (hlimit : stmt.limit = none) :
    MergesGroups hasColumn plan := by
  rintro Src E go shards partss rs rfl hne hparts ha hdata
  have hrs : rs ≠ [] := by
    rintro rfl
    cases ha
    cases hparts
    exact hne rfl
  obtain ⟨r₀, h₀, hfields₀, hrows⟩ := h.exists_parts hrs ha
  have h₁ : (if plan.stmt.distinct then removeDistinctRowInResult go plan r₀ else .ok r₀) = .ok r₀ := by
    rw [h.distinct, hdistinct]
    rfl
  obtain ⟨res, gs, hres, hgs, hvalues⟩ := h.merge_groups go hplan h₀ h₁ hfields₀ hrows (mergeable_parts hparts hne)
    (hdata.subperm (flatten_parts hparts).subperm) hlimit
  exact ⟨res, gs, hres, Grouped.of_parts hparts hgs, hvalues⟩

/-- The results of all shards for a `SELECT` of group columns and of `COUNT`, `MAX` and `MIN` are merged into one row
for each group of the rows of all shards. -/
theorem mergesGroups_of_ok {db : String} {router : Router} {order : MapOrder} {stmt : SelectStmt Parsed}
    {plan : SelectPlan} {hasColumn : String → Bool}
    (hplan : handleSelectStmt (newTableAliasStmtInfo db router order) stmt = .ok plan)
    (hstmt : AggregateSelect hasColumn stmt) : MergesGroups hasColumn plan := by
  obtain ⟨p, fs, hlayout⟩ := selectLayout_of_ok hplan
  exact hlayout.mergesGroups (hlayout.groupable hstmt) hstmt.distinct hstmt.limit

/-- The table `t` has the columns `a` and `x`. -/
def columnsOfT (name : String) : Bool := name = "a" || name = "x"

def callOn (fn column : String) : Expr Parsed :=
  .aggregate fn [.text (.text (fn ++ "(")), .column () (bareColumn column), .text (.text ")")]

/-- `SELECT a, COUNT(x), MAX(x) FROM t GROUP BY a`. -/
def selectCountMax : SelectStmt Parsed :=
  { fields := [.expr (.column () (bareColumn "a")) .empty, .expr (callOn "COUNT" "x") .empty,
    .expr (callOn "MAX" "x") .empty]
    tableRefs := some (singleTable (unqualifiedTable "t") .empty)
    groupBy := some [⟨.column () (bareColumn "a"), false⟩] }

theorem selectCountMax_aggregate (hasColumn : String → Bool) : AggregateSelect hasColumn selectCountMax := by
  have hno : ∀ e asName, SelectField.expr e asName ∈ selectCountMax.fields → asName.l = "" := by
    intro e asName he
    simp only [selectCountMax, mem_cons, not_mem_nil, or_false] at he
    rcases he with he | he | he <;> cases he <;> rfl
  refine ⟨fun f hf => ?_, cons_ne_nil _ _, rfl, rfl, rfl, namesApart_of_no_alias hno,
    groupsByColumns_of_no_alias hno _⟩
  simp only [selectCountMax, mem_cons, not_mem_nil, or_false] at hf
  rcases hf with rfl | rfl | rfl
  · exact ⟨_, _, rfl, .inl ⟨rfl, _, rfl⟩⟩
  · exact ⟨_, _, rfl, .inr ⟨"COUNT", _, rfl, by decide⟩⟩
  · exact ⟨_, _, rfl, .inr ⟨"MAX", _, rfl, by decide⟩⟩

theorem mergesGroups_selectCountMax : ∃ plan,
    handleSelectStmt (newTableAliasStmtInfo "db" hashRouter .insertion) selectCountMax = .ok plan ∧
      MergesGroups columnsOfT plan := by
  exact exists_ok ⟨_, rfl⟩ fun plan hplan => mergesGroups_of_ok hplan (selectCountMax_aggregate columnsOfT)

end DbProxy
