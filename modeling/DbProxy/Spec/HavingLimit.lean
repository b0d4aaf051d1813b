import DbProxy.Lib.TopGroups
import DbProxy.Spec.AnyAggregate

/-!
# `HAVING` and `LIMIT` on groups

`HAVING` and `LIMIT` are sent to the shards, which hold parts of groups only.  The result is that of the statement on
all rows if `HAVING` reads group columns only, and the shards cut their groups by the group columns: then a group is
in the result of every shard that holds a part of it, or of none that matters (`mergesHavingLimit_of_keys`).
-/

namespace DbProxy

open Fallible List

open Grouping (Groups Apart SortedGroups Before)
open TopK (keysLe)

/-! ### What the statement asks for -/

mutual
/-- All columns of an expression are of a kind.  A name inside of a subquery is of no kind. -/
def Expr.overColumns (p : Expr Planned → Prop) : Expr Planned → Prop
  | .column d c => p (.column d c)
  | .binary _ l r => l.overColumns p ∧ r.overColumns p
  | .patternIn _ e list sel _ => e.overColumns p ∧ overColumnsList p list ∧ overColumnsOption p sel
  | .between _ e l r _ => e.overColumns p ∧ l.overColumns p ∧ r.overColumns p
  | .paren e => e.overColumns p
  | .funcCall _ parts | .aggregate _ parts | .node _ parts => overColumnsList p parts
  | .text (.column _ _ _) | .text (.wildcard _ _) | .text (.table _ _) => False
  | .value _ | .valuesOf _ | .text _ => True

def Expr.overColumnsList (p : Expr Planned → Prop) : List (Expr Planned) → Prop
  | [] => True
  | e :: es => e.overColumns p ∧ overColumnsList p es

def Expr.overColumnsOption (p : Expr Planned → Prop) : Option (Expr Planned) → Prop
  | none => True
  | some e => e.overColumns p
end

section Mono

variable {p q : Expr Planned → Prop}

mutual
theorem overColumns_mono (h : ∀ e, p e → q e) : (e : Expr Planned) → e.overColumns p → e.overColumns q
  | .column _ _ => h _
  | .binary _ l r => And.imp (overColumns_mono h l) (overColumns_mono h r)
  | .patternIn _ e list sel _ =>
    And.imp (overColumns_mono h e) (And.imp (overColumnsList_mono h list) (overColumnsOption_mono h sel))
  | .between _ e l r _ => And.imp (overColumns_mono h e) (And.imp (overColumns_mono h l) (overColumns_mono h r))
  | .paren e => overColumns_mono h e
  | .funcCall _ parts | .aggregate _ parts | .node _ parts => overColumnsList_mono h parts
  | .text (.column _ _ _) | .text (.wildcard _ _) | .text (.table _ _) => id
  | .value _ | .valuesOf _ | .text (.text _) | .text (.name _) | .text (.value _) => fun _ => trivial

theorem overColumnsList_mono (h : ∀ e, p e → q e) :
    (es : List (Expr Planned)) → Expr.overColumnsList p es → Expr.overColumnsList q es
  | [] => id
  | e :: es => And.imp (overColumns_mono h e) (overColumnsList_mono h es)

theorem overColumnsOption_mono (h : ∀ e, p e → q e) :
    (e : Option (Expr Planned)) → Expr.overColumnsOption p e → Expr.overColumnsOption q e
  | none => id
  | some e => overColumns_mono h e
end

end Mono

/-- What the database makes of a condition on a group, given the fields of the statement.  The order of the rows does
not matter, and a condition without aggregate functions depends on the values of its columns only. -/
structure Conditions (Src : Type) extends Evaluation Src where
  holds : List (SelectField Planned) → Expr Planned → List Src → Prop
  perm : ∀ fields e {g g' : List Src}, g.Perm g' → holds fields e g → holds fields e g'
  columns : ∀ fields e {g g' : List Src}, e.hasAggregate = false → g ≠ [] → g' ≠ [] →
    (e.overColumns fun c => ∀ a ∈ g, ∀ b ∈ g', eval (orderKey fields c) a = eval (orderKey fields c) b) →
    holds fields e g → holds fields e g'

/-- `cells` may come before `cells'`; `descs` are the directions. -/
def cellsLe : List Bool → List Cell → List Cell → Prop
  | desc :: descs, a :: as, b :: bs => (if desc then b.rank < a.rank else a.rank < b.rank) ∨
      (a.rank = b.rank ∧ cellsLe descs as bs)
  | _, _, _ => True

def SelectPlan.orderFields (plan : SelectPlan) : List (SelectField Planned) :=
  plan.orderItems.map fun item => .expr (orderKey plan.selected item.expr) .empty

variable {Src : Type}

section Groups

variable (C : Conditions Src) (plan : SelectPlan)

def Conditions.passes (g : List Src) : Prop := ∀ e, plan.stmt.having = some e → C.holds plan.selected e g

def GroupsSorted (E : Evaluation Src) (gs : List (List Src)) : Prop :=
  ∃ cells, Forall₂ (GroupRow E plan plan.orderFields) gs cells ∧
    cells.Pairwise (cellsLe (plan.orderItems.map ByItem.desc))

/-- `gs` are the groups of `rows` that pass the condition, in the order of the statement. -/
structure SelectedGroups (rows : List Src) (gs : List (List Src)) : Prop where
  grouped : ∃ rest, Grouped C.toEvaluation plan rows (gs ++ rest) ∧ ∀ g ∈ rest, ¬ C.passes plan g
  passes : ∀ g ∈ gs, C.passes plan g
  sorted : GroupsSorted plan C.toEvaluation gs

end Groups

/-- Whatever the shards hold: if each returns the first of its groups that pass the condition, the merged rows are the
window of the groups of all rows that pass it. -/
def MergesHavingLimit (hasColumn : String → Bool) (bounds : Option (Option UInt64 × UInt64)) (plan : SelectPlan) :
    Prop :=
  ∀ (Src : Type) (C : Conditions Src) (go : Runtime) (shards : List (List Src)) (partss : List (List (List Src)))
    (rs : List Result), C.hasColumn = hasColumn → shards ≠ [] → Forall₂ (SelectedGroups C plan) shards partss →
    Forall₂ (GroupAnswers C.toEvaluation plan) (partss.map (firstRows bounds)) rs →
    GroupData C.toEvaluation plan shards.flatten →
    ∃ res gs, mergeSelectResult go plan rs = .ok res ∧ SelectedGroups C plan shards.flatten gs ∧
      Forall₂ (GroupRow C.toEvaluation plan plan.selected) (window bounds gs) res.values

/-- A `SELECT` of expressions and of aggregate functions that can be merged, without `DISTINCT`.  Without `GROUP BY`
there is an aggregate function. -/
structure GroupSelect (hasColumn : String → Bool) (stmt : SelectStmt Parsed) : Prop where
  fields : ∀ f ∈ stmt.fields, ∃ e asName, f = .expr e asName ∧ ∀ fn, e.outermost = some (.inr fn) → e.merges
  single : stmt.groupBy = none → ∃ e asName, SelectField.expr e asName ∈ stmt.fields ∧ e.merges
  distinct : stmt.distinct = false
  names : NamesApart stmt
  groupBy : GroupsByColumns hasColumn stmt

namespace SelectPlan

variable (plan : SelectPlan) (hasColumn : String → Bool)

def keySet : List (Expr Planned) := (plan.groupKeys hasColumn).map Expr.plain

/-- `HAVING` has no aggregate function and reads group columns only. -/
def HavingOnKeys : Prop :=
  ∀ e, plan.stmt.having = some e → plan.stmt.groupBy.isSome ∧ e.hasAggregate = false ∧
    e.overColumns fun c => (orderKey plan.selected c).plain ∈ plan.keySet hasColumn

/-- The groups are cut by group columns: either by all of them, or there is nothing to merge in a group.  Without
`GROUP BY`, the limit leaves the only row of a shard. -/
def LimitOnKeys (bounds : Option (Option UInt64 × UInt64)) : Prop :=
  ∀ offset count, bounds = some (offset, count) →
    if plan.stmt.groupBy.isSome then
      (∀ item ∈ plan.orderItems, (orderKey plan.selected item.expr).plain ∈ plan.keySet hasColumn) ∧
        ((∀ f ∈ plan.selected, ¬ f.isCall) ∨
          ∀ k ∈ plan.keySet hasColumn, ∃ item ∈ plan.orderItems, (orderKey plan.selected item.expr).plain = k)
    else 0 < skipped offset + count.toNat

end SelectPlan

/-! ### The order of groups -/

variable {E : Evaluation Src}

theorem Cell.rank_injective {a b : Cell} (h : a.rank = b.rank) : a = b := by
  have hkind : a.kind = b.kind := congrArg (fun x => (ofLex x).1) h
  have hnumber : a.number = b.number := congrArg (fun x => (ofLex (ofLex x).2).1) h
  have htext : a.text = b.text := congrArg (fun x => (ofLex (ofLex x).2).2) h
  have hbytes : ∀ s t : GoString, s.map UInt8.toNat = t.map UInt8.toNat → s = t :=
    fun s t heq => map_injective_iff.2 (fun _ _ h => UInt8.toNat_inj.1 h) heq
  cases a with
  | null => cases b with
    | null => rfl
    | _ => cases hkind
  | int64 n => cases b with
    | int64 m => exact congrArg Cell.int64 (Int.cast_injective hnumber)
    | _ => cases hkind
  | uint64 n => cases b with
    | uint64 m => exact congrArg Cell.uint64 (Int.cast_injective hnumber)
    | _ => cases hkind
  | float64 x => cases b with
    | float64 y => exact congrArg Cell.float64 hnumber
    | _ => cases hkind
  | string s => cases b with
    | string t => exact congrArg Cell.string (hbytes s t htext)
    | _ => cases hkind
  | bytes s => cases b with
    | bytes t => exact congrArg Cell.bytes (hbytes s t htext)
    | _ => cases hkind

theorem cellsLe_antisymm {descs : List Bool} : ∀ {xs ys : List Cell}, xs.length = descs.length →
    ys.length = descs.length → cellsLe descs xs ys → cellsLe descs ys xs → xs = ys := by
  induction descs with
  | nil =>
    intro xs ys hx hy _ _
    rw [length_eq_zero_iff.1 hx, length_eq_zero_iff.1 hy]
  | cons desc descs ih =>
    intro xs ys hx hy hxy hyx
    obtain ⟨x, xs, rfl⟩ := exists_cons_of_length_eq_add_one hx
    obtain ⟨y, ys, rfl⟩ := exists_cons_of_length_eq_add_one hy
    have hrank : x.rank = y.rank ∧ cellsLe descs xs ys ∧ cellsLe descs ys xs := by
      rcases hxy with hlt | ⟨heq, hle⟩
      · rcases hyx with hlt' | ⟨heq', _⟩
        · cases desc with
          | true => exact absurd hlt (lt_asymm hlt')
          | false => exact absurd hlt (lt_asymm hlt')
        · rw [heq'] at hlt
          cases desc with
          | true => exact absurd hlt (lt_irrefl _)
          | false => exact absurd hlt (lt_irrefl _)
      · rcases hyx with hlt' | ⟨_, hle'⟩
        · rw [heq] at hlt'
          cases desc with
          | true => exact absurd hlt' (lt_irrefl _)
          | false => exact absurd hlt' (lt_irrefl _)
        · exact ⟨heq, hle, hle'⟩
    rw [Cell.rank_injective hrank.1, ih (Nat.succ.inj hx) (Nat.succ.inj hy) hrank.2.1 hrank.2.2]

theorem keysLe_cells {row row' : ResultRow} (columns : List Nat) : ∀ (descs : List Bool),
    keysLe (rowKeys (List.zipWith (fun (c : Nat) d => ⟨c, d⟩) columns descs)) row row' ↔
      cellsLe descs (columns.map fun (c : Nat) => row.at c) (columns.map fun (c : Nat) => row'.at c) := by
  induction columns with
  | nil =>
    intro descs
    cases descs with
    | nil => exact Iff.rfl
    | cons desc descs => exact Iff.rfl
  | cons c columns ih =>
    intro descs
    cases descs with
    | nil => exact Iff.rfl
    | cons desc descs => exact or_congr Iff.rfl (and_congr Iff.rfl (ih descs))

theorem le_cells (key : Expr Planned → Expr Planned) (items : List (ByItem Planned)) (a b : Src) :
    E.le (itemKeys key items) a b ↔ cellsLe (items.map ByItem.desc) (items.map fun item => E.eval (key item.expr) a)
      (items.map fun item => E.eval (key item.expr) b) := by
  induction items with
  | nil => exact Iff.rfl
  | cons item items ih =>
    rw [map_cons, map_cons, map_cons]
    unfold cellsLe
    rw [← ih, ← E.plain (key item.expr)]
    exact Iff.rfl

theorem isValueOn_plain {e e' : Expr Planned} (h : e.plain = e'.plain) {asName asName' : CIStr}
    {g : List Src} {c : Cell} :
    (SelectField.expr e asName).IsValueOn E g c ↔ (SelectField.expr e' asName').IsValueOn E g c := by
  have hcall : e.call = e'.call := by rw [← Expr.call_plain, h, Expr.call_plain]
  cases hcall' : e'.call with
  | none =>
    rw [isValueOn_expr (hcall.trans hcall'), isValueOn_expr hcall', ← E.plain e, h, E.plain e']
  | some call => rw [isValueOn_call (hcall.trans hcall'), isValueOn_call hcall']

variable {p : TableAliasStmtInfo} {stmt : SelectStmt Parsed} {plan : SelectPlan} {fs : List (SelectField Planned)}

theorem SelectLayout.orderCells_groupRow (h : SelectLayout p stmt plan fs) (hnames : NamesApart stmt) {g : List Src}
    {row : ResultRow} (hrow : GroupRow E plan plan.stmt.fields g row) :
    GroupRow E plan plan.orderFields g (plan.orderByColumn.map fun (c : Nat) => row.at c) := by
  obtain ⟨hlength, hrow⟩ := forall₂_iff_getElem?.1 hrow
  unfold GroupRow SelectPlan.orderFields
  rw [forall₂_map_left_iff, forall₂_map_right_iff]
  refine (forall₂_map_right_iff.1 h.orderColumns).flip.imp fun item c hfound hgroup => ?_
  obtain ⟨asName, hfield⟩ := h.getElem?_found hfound
  obtain ⟨cell, hcell⟩ : ∃ cell, row[c]? = some cell :=
    ⟨_, getElem?_eq_getElem (hlength ▸ (List.getElem?_eq_some_iff.1 hfield).1)⟩
  have hplain : (foundKey fs item.expr).plain = (orderKey plan.selected item.expr).plain := by
    rw [h.selected_eq, h.orderKey_eq_foundKey hnames]
  have hcalls : (SelectField.expr (foundKey fs item.expr) asName).isCall ↔
      (SelectField.expr (orderKey plan.selected item.expr) .empty).isCall := by
    show (foundKey fs item.expr).call.isSome = true ↔ (orderKey plan.selected item.expr).call.isSome = true
    rw [← Expr.call_plain, hplain, Expr.call_plain]
  have hat : row.at c = cell := by
    refine ResultRow.at_eq ?_
    unfold ResultRow.cell
    rw [if_pos (Int.natCast_nonneg c), Int.toNat_natCast, hcell]
  rw [hat]
  exact (isValueOn_plain hplain).1 (hrow c _ _ hfield hcell (hgroup.imp id hcalls.2))

theorem SelectLayout.groupsSorted (h : SelectLayout p stmt plan fs) (hnames : NamesApart stmt) {r : Result}
    (hfields : r.fields.length = plan.columnCount) {gs : List (List Src)}
    (hgroups : Forall₂ (GroupRow E plan plan.stmt.fields) gs r.values)
    (hsorted : r.values.Pairwise (keysLe (rowKeys (sortKeys plan r)))) : GroupsSorted plan E gs := by
  refine ⟨r.values.map fun row => plan.orderByColumn.map fun (c : Nat) => row.at c, ?_, ?_⟩
  · rw [forall₂_map_right_iff]
    exact hgroups.imp fun g row hrow => h.orderCells_groupRow hnames hrow
  · rw [h.sortKeys_eq hfields] at hsorted
    exact pairwise_map.2 (hsorted.imp fun hle => (keysLe_cells _ _).1 hle)

/-! ### Conditions on group columns -/

variable {C : Conditions Src}

section Passes

variable {shards : List (List Src)} {partss : List (List (List Src))}

theorem SelectPlan.HavingOnKeys.passes (h : plan.HavingOnKeys C.hasColumn) {g g' : List Src} (hne : g ≠ [])
    (hne' : g' ≠ [])
    (hkeys : ∀ a ∈ g, ∀ b ∈ g', C.keys plan a = C.keys plan b) (hpasses : C.passes plan g) : C.passes plan g' := by
  intro e he
  obtain ⟨_, hagg, hcolumns⟩ := h e he
  refine C.columns plan.selected e hagg hne hne' ?_ (hpasses e he)
  refine overColumns_mono (fun c hc a ha b hb => ?_) e hcolumns
  obtain ⟨k, hk, heq⟩ := mem_map.1 hc
  rw [← C.plain (orderKey plan.selected c), ← heq, C.plain]
  exact map_inj_left.1 (hkeys a ha b hb) k hk

theorem exists_left_out (hgroup : plan.stmt.groupBy.isSome) (h : Forall₂ (SelectedGroups C plan) shards partss) :
    ∃ rest : List (List Src), (partss.flatten ++ rest).flatten.Perm shards.flatten ∧
      (∀ g ∈ partss.flatten, g ≠ [] ∧ Grouping.SameKey (C.keys plan) g ∧ C.passes plan g) ∧
      ∀ g ∈ rest, g ≠ [] ∧ Grouping.SameKey (C.keys plan) g ∧ ¬ C.passes plan g := by
  induction h with
  | nil => exact ⟨[], .refl _, nofun, nofun⟩
  | @cons rows ps shards partss hps _ ih =>
    obtain ⟨rest, hperm, hparts, hrest⟩ := ih
    obtain ⟨rest₁, hgrouped, hfail⟩ := hps.grouped
    rw [Grouped, if_pos hgroup] at hgrouped
    refine ⟨rest₁ ++ rest, ?_, ?_, ?_⟩
    · rw [flatten_cons (l := ps), flatten_cons (l := rows)]
      have hswap : (ps ++ partss.flatten ++ (rest₁ ++ rest)).Perm (ps ++ rest₁ ++ (partss.flatten ++ rest)) := by
        rw [append_assoc, append_assoc, ← append_assoc partss.flatten, ← append_assoc rest₁]
        exact (perm_append_comm.append_right rest).append_left ps
      refine hswap.flatten.trans ?_
      rw [flatten_append]
      exact hgrouped.perm.append hperm
    · intro g hg
      rw [flatten_cons] at hg
      rcases mem_append.1 hg with hg | hg
      · have hmem : g ∈ ps ++ rest₁ := mem_append_left _ hg
        exact ⟨hgrouped.nonempty g hmem, hgrouped.same g hmem, hps.passes g hg⟩
      · exact hparts g hg
    · intro g hg
      rcases mem_append.1 hg with hg | hg
      · have hmem : g ∈ ps ++ rest₁ := mem_append_right _ hg
        exact ⟨hgrouped.nonempty g hmem, hgrouped.same g hmem, hfail g hg⟩
      · exact hrest g hg

theorem SelectPlan.HavingOnKeys.selectedGroups (h : plan.HavingOnKeys C.hasColumn) (hgroup : plan.stmt.groupBy.isSome)
    (hparts : Forall₂ (SelectedGroups C plan) shards partss)
    {gs : List (List Src)} (hgs : Groups (C.keys plan) partss.flatten.flatten gs)
    (hsorted : GroupsSorted plan C.toEvaluation gs) : SelectedGroups C plan shards.flatten gs := by
  obtain ⟨rest, hperm, hpass, hfail⟩ := exists_left_out hgroup hparts
  obtain ⟨others, hothers⟩ := Grouping.exists_groups (C.keys plan) rest.flatten
  have hpasses : ∀ g ∈ gs, C.passes plan g := by
    intro g hg
    obtain ⟨a, ha⟩ := exists_mem_of_ne_nil g (hgs.nonempty g hg)
    obtain ⟨part, hpart, hapart⟩ := mem_flatten.1 (hgs.mem hg ha)
    obtain ⟨hne, hsame, hp⟩ := hpass part hpart
    exact h.passes hne (hgs.nonempty g hg) (fun x hx y hy => (hsame x hx a hapart).trans (hgs.same g hg a ha y hy)) hp
  have hfails : ∀ g ∈ others, ¬ C.passes plan g := by
    intro g hg hp
    obtain ⟨a, ha⟩ := exists_mem_of_ne_nil g (hothers.nonempty g hg)
    obtain ⟨part, hpart, hapart⟩ := mem_flatten.1 (hothers.mem hg ha)
    obtain ⟨hne, hsame, hnot⟩ := hfail part hpart
    exact hnot (h.passes (hothers.nonempty g hg) hne
      (fun x hx y hy => (hothers.same g hg x hx a ha).trans (hsame a hapart y hy)) hp)
  refine ⟨⟨others, ?_, hfails⟩, hpasses, hsorted⟩
  rw [Grouped, if_pos hgroup]
  rw [flatten_append] at hperm
  refine (hgs.append hothers fun g hg g' hg' a ha b hb hkey => ?_).of_perm hperm
  refine hfails g' hg' (h.passes (hgs.nonempty g hg) (hothers.nonempty g' hg') (fun x hx y hy => ?_) (hpasses g hg))
  exact (hgs.same g hg x hx a ha).trans (hkey.trans (hothers.same g' hg' b hb y hy))

end Passes

/-! ### Groups in the order of group columns -/

section Keys

theorem le_iff_cells (a b : Src) : E.le plan.orderKeys a b ↔ cellsLe (plan.orderItems.map ByItem.desc)
    (plan.orderItems.map fun item => E.eval (orderKey plan.selected item.expr) a)
    (plan.orderItems.map fun item => E.eval (orderKey plan.selected item.expr) b) :=
  le_cells _ _ a b

theorem keys_eq_of_eval {a b : Src} (h : ∀ k ∈ plan.keySet E.hasColumn, E.eval k a = E.eval k b) :
    E.keys plan a = E.keys plan b := by
  refine map_congr_left fun e he => ?_
  rw [← E.plain]
  exact h _ (mem_map_of_mem he)

theorem keys_eq_of_le
    (hall : ∀ k ∈ plan.keySet E.hasColumn, ∃ item ∈ plan.orderItems, (orderKey plan.selected item.expr).plain = k)
    {a b : Src} (hab : E.le plan.orderKeys a b) (hba : E.le plan.orderKeys b a) : E.keys plan a = E.keys plan b := by
  rw [le_iff_cells] at hab hba
  have hcells := cellsLe_antisymm (by simp) (by simp) hab hba
  refine keys_eq_of_eval fun k hk => ?_
  obtain ⟨item, hitem, rfl⟩ := hall k hk
  rw [E.plain]
  exact map_inj_left.1 hcells item hitem

variable (hitems : ∀ item ∈ plan.orderItems, (orderKey plan.selected item.expr).plain ∈ plan.keySet E.hasColumn)

include hitems

theorem orderCells_eq_of_keys {a b : Src} (hkeys : E.keys plan a = E.keys plan b) :
    (plan.orderItems.map fun item => E.eval (orderKey plan.selected item.expr) a) =
      plan.orderItems.map fun item => E.eval (orderKey plan.selected item.expr) b := by
  refine map_congr_left fun item hitem => ?_
  obtain ⟨k, hk, heq⟩ := mem_map.1 (hitems item hitem)
  rw [← E.plain (orderKey plan.selected item.expr), ← heq, E.plain]
  exact map_inj_left.1 hkeys k hk

theorem le_of_keys {a b : Src} (hkeys : E.keys plan a = E.keys plan b) : E.le plan.orderKeys a b := by
  have hrefl : E.le plan.orderKeys a a := (Evaluation.le_total plan.orderKeys a a).elim id id
  rw [le_iff_cells] at hrefl ⊢
  rwa [← orderCells_eq_of_keys hitems hkeys]

theorem groupRow_orderFields (hplan : plan.Groupable E.hasColumn) (hgroup : plan.stmt.groupBy.isSome) {g : List Src}
    (hsame : Grouping.SameKey (E.keys plan) g) {a : Src} (ha : a ∈ g) {cells : List Cell} :
    GroupRow E plan plan.orderFields g cells ↔
      (plan.orderItems.map fun item => E.eval (orderKey plan.selected item.expr) a) = cells := by
  unfold GroupRow SelectPlan.orderFields
  rw [← forall₂_eq_eq_eq, forall₂_map_left_iff, forall₂_map_left_iff]
  refine forall₂_congr_of_mem fun item hitem c => ?_
  obtain ⟨k, hk, heq⟩ := mem_map.1 (hitems item hitem)
  have hcall : (orderKey plan.selected item.expr).call = none := by
    rw [← Expr.call_plain, ← heq, Expr.call_plain]
    exact hplan.keys k hk
  rw [isValueOn_expr hcall]
  constructor
  · intro hvalue
    obtain ⟨r, hr, rfl⟩ := hvalue (.inl hgroup)
    rw [← E.plain (orderKey plan.selected item.expr), ← heq, E.plain]
    exact map_inj_left.1 (hsame a ha r hr) k hk
  · rintro rfl _
    exact ⟨a, ha, rfl⟩

theorem groupsSorted_iff (hplan : plan.Groupable E.hasColumn) (hgroup : plan.stmt.groupBy.isSome)
    {gs : List (List Src)} (hne : ∀ g ∈ gs, g ≠ []) (hsame : ∀ g ∈ gs, Grouping.SameKey (E.keys plan) g) :
    GroupsSorted plan E gs ↔ gs.Pairwise (Before (E.le plan.orderKeys)) := by
  let f (g : List Src) : List Cell :=
    (g.head?.map fun a => plan.orderItems.map fun item => E.eval (orderKey plan.selected item.expr) a).getD []
  have hf : ∀ g ∈ gs, ∀ a ∈ g, f g = plan.orderItems.map fun item => E.eval (orderKey plan.selected item.expr) a := by
    intro g hg a ha
    cases g with
    | nil => exact absurd rfl (hne _ hg)
    | cons b g => exact orderCells_eq_of_keys hitems (hsame _ hg b mem_cons_self a ha)
  have hcells : ∀ cells, Forall₂ (GroupRow E plan plan.orderFields) gs cells ↔ gs.map f = cells := by
    intro cells
    rw [← forall₂_eq_eq_eq, forall₂_map_left_iff]
    refine forall₂_congr_of_mem fun g hg c => ?_
    obtain ⟨a, ha⟩ := exists_mem_of_ne_nil g (hne g hg)
    rw [groupRow_orderFields hitems hplan hgroup (hsame g hg) ha, hf g hg a ha]
  unfold GroupsSorted
  simp only [hcells, exists_eq_left', pairwise_map]
  constructor
  · refine fun h => h.imp_of_mem fun {g g'} hg hg' hle a ha b hb => ?_
    rw [le_iff_cells, ← hf g hg a ha, ← hf g' hg' b hb]
    exact hle
  · refine fun h => h.imp_of_mem fun {g g'} hg hg' hle => ?_
    obtain ⟨a, ha⟩ := exists_mem_of_ne_nil g (hne g hg)
    obtain ⟨b, hb⟩ := exists_mem_of_ne_nil g' (hne g' hg')
    rw [hf g hg a ha, hf g' hg' b hb, ← le_iff_cells]
    exact hle a ha b hb

end Keys

/-! ### The merge -/

theorem forall₂_window {α β : Type} {R : α → β → Prop} {as : List α} {bs : List β} (h : Forall₂ R as bs)
    (bounds : Option (Option UInt64 × UInt64)) : Forall₂ R (window bounds as) (window bounds bs) := by
  cases bounds with
  | none => exact h
  | some b => exact forall₂_take _ (forall₂_drop _ h)

theorem firstRows_sublist {α : Type} (bounds : Option (Option UInt64 × UInt64)) (s : List α) :
    (firstRows bounds s).Sublist s := by
  cases bounds with
  | none => exact .refl _
  | some b => exact take_sublist _ _

theorem window_eq_drop {α : Type} (offset : Option UInt64) (count : UInt64) (s : List α) :
    window (some (offset, count)) s = (s.take (skipped offset + count.toNat)).drop (skipped offset) := by
  rw [window, drop_take, Nat.add_sub_cancel_left]

section Merge

variable {bounds : Option (Option UInt64 × UInt64)} {hasColumn : String → Bool}

theorem SelectLayout.merge_window (h : SelectLayout p stmt plan fs) (hstmt : GroupSelect E.hasColumn stmt)
    (hlimit : stmt.limit = limitOf bounds) (hbounds : ∀ o c, bounds = some (o, c) → skipped o + c.toNat < 2 ^ 63)
    (go : Runtime) {outs : List (List (List Src))} {rs : List Result} (hne : rs ≠ [])
    (ha : Forall₂ (GroupAnswers E plan) outs rs)
    (hparts : if plan.stmt.groupBy.isSome then ∀ g ∈ outs.flatten, g ≠ [] ∧
      Grouping.SameKey (E.keys plan) g else outs.flatten ≠ []) (hdata : GroupData E plan outs.flatten.flatten) :
    ∃ res gs, mergeSelectResult go plan rs = .ok res ∧ Grouped E plan outs.flatten.flatten gs ∧
    GroupsSorted plan E gs ∧ Forall₂ (GroupRow E plan plan.selected) (window bounds gs) res.values := by
  obtain ⟨r₀, h₀, hfields₀, hrows⟩ := h.exists_parts hne ha
  have h₁ : (if plan.stmt.distinct then removeDistinctRowInResult go plan r₀ else .ok r₀) = .ok r₀ := by
    rw [h.distinct, hstmt.distinct]
    rfl
  obtain ⟨r, gs, hmerge, hfields, hgs, hgroups, hsorted⟩ := h.exists_groups_from go
    (h.groupable_of hstmt.fields hstmt.single hstmt.names hstmt.groupBy) h₀ h₁ hfields₀ hrows hparts hdata
  obtain ⟨res, hres, hvalues⟩ := h.finish_groups go (r := { r with values := window bounds r.values }) hfields
    (forall₂_window hgroups bounds)
  refine ⟨res, gs, ?_, hgs, h.groupsSorted hstmt.names hfields hgroups hsorted, hvalues⟩
  rw [hmerge, limitSelectResult_spec hbounds (hlimit ▸ h.limit)]
  exact hres

theorem GroupRow.of_subperm {fields : List (SelectField Planned)} (hfields : ∀ f ∈ fields, ¬ f.isCall)
    {g g' : List Src}
    {row : ResultRow} (h : GroupRow E plan fields g row) (hsub : g.Subperm g') : GroupRow E plan fields g' row := by
  obtain ⟨l, hl, hsublist⟩ := hsub
  obtain ⟨rest, hrest⟩ := hsublist.exists_perm_append
  obtain ⟨hlength, h⟩ := forall₂_iff_getElem?.1 h
  refine GroupRow.perm ?_ (hrest.trans (hl.append_right rest)).symm
  refine forall₂_iff_getElem?.2 ⟨hlength, fun i f c hf hc hgroup => ?_⟩
  exact (h i f c hf hc hgroup).append (hfields f (mem_of_getElem? hf))

theorem SelectedGroups.eq_singleton (hhaving : plan.HavingOnKeys C.hasColumn) (hgroup : ¬ plan.stmt.groupBy.isSome)
    {rows : List Src} {gs : List (List Src)} (h : SelectedGroups C plan rows gs) : gs = [rows] := by
  obtain ⟨rest, hgrouped, hfail⟩ := h.grouped
  rw [Grouped, if_neg hgroup] at hgrouped
  have hrest : rest = [] := by
    refine eq_nil_iff_forall_not_mem.2 fun g hg => hfail g hg fun e he => ?_
    exact absurd (hhaving e he).1 hgroup
  rwa [hrest, append_nil] at hgrouped

section OnKeys

variable (h : SelectLayout p stmt plan fs) (hstmt : GroupSelect hasColumn stmt) (hlimit : stmt.limit = limitOf bounds)
  (hbounds : ∀ o c, bounds = some (o, c) → skipped o + c.toNat < 2 ^ 63)
  (hhaving : plan.HavingOnKeys hasColumn) (hkeys : plan.LimitOnKeys hasColumn bounds)

include h hstmt hlimit hbounds hhaving hkeys

theorem SelectLayout.mergesHavingLimit_single (hgroup : ¬ plan.stmt.groupBy.isSome) :
    MergesHavingLimit hasColumn bounds plan := by
  rintro Src C go shards partss rs rfl hne hparts ha hdata
  -- every shard returns its only row
  have houts : (partss.map (firstRows bounds)).flatten = shards := by
    clear hne ha hdata
    induction hparts with
    | nil => rfl
    | cons hps _ ih =>
      rw [map_cons, flatten_cons, ih, hps.eq_singleton hhaving hgroup]
      cases hb : bounds with
      | none => rfl
      | some b =>
        obtain ⟨offset, count⟩ := b
        have hpos := hkeys offset count hb
        rw [if_neg hgroup] at hpos
        rw [firstRows, take_of_length_le (show 1 ≤ _ from hpos)]
        rfl
  have hrs : rs ≠ [] := by
    rintro rfl
    rw [forall₂_nil_right_iff.1 ha] at houts
    exact hne houts.symm
  obtain ⟨res, gs, hres, hgs, hsorted, hrows⟩ := h.merge_window hstmt hlimit hbounds go hrs ha
    (by rw [if_neg hgroup, houts]; exact hne) (by rw [houts]; exact hdata)
  rw [houts] at hgs
  refine ⟨res, gs, hres, ⟨⟨[], by rwa [append_nil], nofun⟩, fun g _ e he => ?_, hsorted⟩, hrows⟩
  exact absurd (hhaving e he).1 hgroup

theorem SelectLayout.mergesHavingLimit_groups (hgroup : plan.stmt.groupBy.isSome) :
    MergesHavingLimit hasColumn bounds plan := by
  rintro Src C go shards partss rs rfl hne hparts ha hdata
  obtain ⟨rest, hperm, hpass, _⟩ := exists_left_out hgroup hparts
  have hsubset : ∀ ps ∈ partss.map (firstRows bounds), ∀ g ∈ ps, g ∈ partss.flatten := by
    intro ps hps g hg
    obtain ⟨ps', hps', rfl⟩ := mem_map.1 hps
    exact mem_flatten.2 ⟨ps', hps', (firstRows_sublist bounds ps').subset hg⟩
  have hsub : (partss.map (firstRows bounds)).flatten.flatten.Subperm shards.flatten := by
    refine List.Subperm.trans (Sublist.subperm ?_) hperm.subperm
    rw [flatten_append]
    refine Sublist.trans ?_ (sublist_append_left _ _)
    cases bounds with
    | none => rw [show (firstRows none : List (List Src) → List (List Src)) = id from rfl, map_id]
    | some b => exact Grouping.sublist_taken
  have hrs : rs ≠ [] := by
    rintro rfl
    rw [map_eq_nil_iff.1 (forall₂_nil_right_iff.1 ha), forall₂_nil_right_iff] at hparts
    exact hne hparts
  obtain ⟨res, M, hres, hM, hMsorted, hrows⟩ := h.merge_window hstmt hlimit hbounds go hrs ha (by
    rw [if_pos hgroup]
    intro g hg
    obtain ⟨ps, hps, hg⟩ := mem_flatten.1 hg
    have := hpass g (hsubset ps hps g hg)
    exact ⟨this.1, this.2.1⟩) (hdata.subperm hsub)
  rw [Grouped, if_pos hgroup] at hM
  cases bounds with
  | none =>
    rw [show (firstRows none : List (List Src) → List (List Src)) = id from rfl, map_id] at hM
    exact ⟨res, M, hres, hhaving.selectedGroups hgroup hparts hM hMsorted, hrows⟩
  | some b =>
    obtain ⟨offset, count⟩ := b
    have hcut := hkeys offset count rfl
    rw [if_pos hgroup] at hcut
    obtain ⟨hitems, hcomplete⟩ := hcut
    have hplan := h.groupable_of hstmt.fields hstmt.single hstmt.names hstmt.groupBy
    have hsortedPs : Forall₂ (SortedGroups (C.keys plan) (C.le plan.orderKeys)) (partss.map List.flatten) partss := by
      rw [forall₂_map_left_iff, forall₂_same]
      intro ps hps
      obtain ⟨rows, _, hselected⟩ := exists_of_mem hparts.flip hps
      obtain ⟨rest, hgrouped, _⟩ := hselected.grouped
      rw [Grouped, if_pos hgroup] at hgrouped
      have hin : ∀ g ∈ ps, g ∈ ps ++ rest := fun g hg => mem_append_left _ hg
      refine ⟨⟨.refl _, fun g hg => hgrouped.nonempty g (hin g hg), fun g hg => hgrouped.same g (hin g hg),
        (pairwise_append.1 hgrouped.apart).1⟩, ?_⟩
      exact (groupsSorted_iff hitems hplan hgroup (fun g hg => hgrouped.nonempty g (hin g hg))
        fun g hg => hgrouped.same g (hin g hg)).1 hselected.sorted
    have hMsorted' := (groupsSorted_iff hitems hplan hgroup hM.nonempty hM.same).1 hMsorted
    obtain ⟨S, hS, hrel⟩ := Grouping.exists_sortedGroups (k := skipped offset + count.toNat) ⟨hM, hMsorted'⟩ hsortedPs
      (fun a b => le_of_keys hitems) Evaluation.le_trans (Evaluation.le_total _)
    rw [← flatten_flatten] at hS
    refine ⟨res, S, hres, hhaving.selectedGroups hgroup hparts hS.toGroups
      ((groupsSorted_iff hitems hplan hgroup hS.nonempty hS.same).2 hS.sorted), ?_⟩
    rw [window_eq_drop] at hrows ⊢
    refine forall₂_of_forall₂ (forall₂_drop _ hrel) hrows fun g g' row hgg' hrow => ?_
    rcases hcomplete with hplain | hall
    · exact GroupRow.of_subperm hplain hrow hgg'.1
    · exact GroupRow.perm hrow (hgg'.2 fun a b => keys_eq_of_le hall)

end OnKeys

end Merge

/-- `SELECT a, COUNT(x) FROM t GROUP BY a` with `HAVING`, `ORDER BY` and `LIMIT`. -/
def selectCounts (having : Expr Parsed) (orderBy : Option (List (ByItem Parsed))) (limit : Option Limit) :
    SelectStmt Parsed :=
  { fields := [.expr (.column () (bareColumn "a")) .empty, .expr (callOn "COUNT" "x") .empty]
    tableRefs := some (singleTable (unqualifiedTable "t") .empty)
    groupBy := some [⟨.column () (bareColumn "a"), false⟩], having := some having, orderBy, limit }

theorem selectCounts_groupSelect (hasColumn : String → Bool) (having : Expr Parsed)
    (orderBy : Option (List (ByItem Parsed)))
    (limit : Option Limit) : GroupSelect hasColumn (selectCounts having orderBy limit) := by
  have hno : ∀ e asName, SelectField.expr e asName ∈ (selectCounts having orderBy limit).fields → asName.l = "" := by
    intro e asName he
    simp only [selectCounts, mem_cons, not_mem_nil, or_false] at he
    rcases he with he | he <;> cases he <;> rfl
  refine ⟨fun f hf => ?_, nofun, rfl, namesApart_of_no_alias hno, groupsByColumns_of_no_alias hno _⟩
  simp only [selectCounts, mem_cons, not_mem_nil, or_false] at hf
  rcases hf with rfl | rfl
  · exact ⟨_, _, rfl, nofun⟩
  · refine ⟨_, _, rfl, fun fn _ => ⟨"COUNT", false, _, rfl, fun m hm => ?_⟩⟩
    cases hm
    rfl

/-- `SELECT a, COUNT(x) FROM t GROUP BY a HAVING a > 1 ORDER BY a LIMIT 2`. -/
def selectFirstCounts : SelectStmt Parsed :=
  selectCounts (.binary .gt (.column () (bareColumn "a")) (.value (.int64 1)))
    (some [⟨.column () (bareColumn "a"), false⟩]) (limitOf (some (none, 2)))

/-- Rows of ones, and a condition with aggregate functions that a group passes if it has two rows. -/
def Conditions.twoRows : Conditions Unit where
  toEvaluation := (GroupEvaluation.square columnsOfT).toEvaluation
  holds _ e g := e.hasAggregate = true → 2 ≤ g.length
  perm _ _ _ _ hperm h hagg := hperm.length_eq ▸ h hagg
  columns _ _ _ _ hnone _ _ _ _ hagg := absurd (hnone.symm.trans hagg) Bool.false_ne_true

def SelectField.isExpr {P : Phase} : SelectField P → Bool
  | .expr _ _ => true
  | .wildcard _ _ => false

end DbProxy
