import DbProxy.Spec.GroupRows
import DbProxy.Spec.TopRows

/-!
# The fields of a group

The value of a field on a group of rows: that of an aggregate function on the whole group, or that of an expression on
one of the rows.  Merging the rows of two parts of a group gives the row of both together (`GroupRow.merge`).
-/

namespace DbProxy

open Fallible List

open Grouping (Groups SameKey)
open TopK (SortsTo keysLe)
variable {P : Phase} {fs : List (SelectField Planned)} {fn : String} {e : Expr P} {p : TableAliasStmtInfo}
  {item' : ByItem Planned}

/-! ### Values on a group -/

/-- The name of an aggregate function, whether duplicates are left out, and its only argument. -/
def Expr.call {P : Phase} : Expr P → Option (String × Bool × Expr P)
  | .aggregate fn [.text _, arg, .text _] => some (fn, false, arg)
  | .aggregate fn [.text _, .text (.text "DISTINCT "), arg, .text _] => some (fn, true, arg)
  | _ => none

theorem Expr.call_distinct (fn : String) (t t' : Tok) (arg : Expr P) :
    (Expr.aggregate fn [.text t, .text (.text "DISTINCT "), arg, .text t']).call = some (fn, true, arg) := by
  simp only [Expr.call]

variable {Src : Type}

section Values

variable (E : Evaluation Src)

/-- `c` is the value of a field on a group: that of an aggregate function on the whole group, otherwise that of the
expression on some row. -/
def SelectField.IsValueOn (g : List Src) (c : Cell) : SelectField Planned → Prop
  | .expr e _ => match e.call with
    | some (fn, distinct, arg) =>
      ∃ f, createAggregateFunctionMerger fn = .ok f ∧ f.IsValue distinct (g.map (E.eval arg)) c
    | none => ∃ r ∈ g, c = E.eval e r
  | .wildcard _ _ => False

def SelectField.FitsOn (g : List Src) : SelectField Planned → Prop
  | .expr e _ => match e.call with
    | some (fn, _, arg) => ∀ f, createAggregateFunctionMerger fn = .ok f → f.Fits (g.map (E.eval arg))
    | none => True
  | .wildcard _ _ => False

/-- What a field reads from a row: the argument of the aggregate function, or the expression itself. -/
def SelectField.operand (r : Src) : SelectField Planned → Cell
  | .expr e _ => match e.call with
    | some (_, _, arg) => E.eval arg r
    | none => E.eval e r
  | .wildcard _ _ => .null

variable {E} {e : Expr Planned} {asName : CIStr} {distinct : Bool} {arg : Expr Planned} {g : List Src}

theorem isValueOn_call (h : e.call = some (fn, distinct, arg)) {c : Cell} :
    (SelectField.expr e asName).IsValueOn E g c ↔
    ∃ f, createAggregateFunctionMerger fn = .ok f ∧ f.IsValue distinct (g.map (E.eval arg)) c := by
  simp only [SelectField.IsValueOn, h]

theorem isValueOn_expr (h : e.call = none) {c : Cell} : (SelectField.expr e asName).IsValueOn E g c ↔
    ∃ r ∈ g, c = E.eval e r := by
  simp only [SelectField.IsValueOn, h]

theorem fitsOn_call (h : e.call = some (fn, distinct, arg)) : (SelectField.expr e asName).FitsOn E g ↔
    ∀ f, createAggregateFunctionMerger fn = .ok f → f.Fits (g.map (E.eval arg)) := by
  simp only [SelectField.FitsOn, h]

theorem fitsOn_expr (h : e.call = none) : (SelectField.expr e asName).FitsOn E g := by
  simp only [SelectField.FitsOn, h]

theorem operand_call (h : e.call = some (fn, distinct, arg)) (r : Src) :
    (SelectField.expr e asName).operand E r = E.eval arg r := by
  simp only [SelectField.operand, h]

theorem operand_expr (h : e.call = none) (r : Src) : (SelectField.expr e asName).operand E r = E.eval e r := by
  simp only [SelectField.operand, h]

end Values

def SelectField.isCall : SelectField Planned → Prop
  | .expr e _ => e.call.isSome
  | .wildcard _ _ => False

/-- What an item of `GROUP BY` stands for: a name without a qualifier is that of a column, and is looked up among the
aliases only if the tables have no such column. -/
def groupKey (hasColumn : String → Bool) (fields : List (SelectField Planned)) : Expr Planned → Expr Planned
  | .column none c => if hasColumn c.name.l then .column none c else orderKey fields (.column none c)
  | e => e

namespace SelectPlan

variable (plan : SelectPlan)

def groupItems : List (ByItem Planned) := plan.stmt.groupBy.getD []

def groupKeys (hasColumn : String → Bool) : List (Expr Planned) :=
  plan.groupItems.map fun item => groupKey hasColumn plan.selected item.expr

end SelectPlan

section Groups

variable (E : Evaluation Src) (plan : SelectPlan)

def Evaluation.keys (r : Src) : List Cell := (plan.groupKeys E.hasColumn).map fun e => E.eval e r

/-- The groups of a statement: without `GROUP BY`, all rows are one group. -/
def Grouped (rows : List Src) (gs : List (List Src)) : Prop :=
  if plan.stmt.groupBy.isSome then Groups (E.keys plan) rows gs else gs = [rows]

/-- The row of a group.  Without `GROUP BY`, only aggregate functions have a value. -/
def GroupRow (fields : List (SelectField Planned)) (g : List Src) (row : ResultRow) : Prop :=
  Forall₂ (fun f c => plan.stmt.groupBy.isSome ∨ f.isCall → f.IsValueOn E g c) fields row

structure GroupAnswers (gs : List (List Src)) (r : Result) : Prop where
  fields : r.fields.length = plan.columnCount
  values : Forall₂ (GroupRow E plan plan.stmt.fields) gs r.values

end Groups

/-! ### The aggregate functions of a plan -/

theorem aggregateMergers_spec :
    ∀ {i : Nat} {ms : AssocMap Nat AggregateFunc}, aggregateMergers i fs = .ok ms →
      (ms.map Prod.fst).Nodup ∧ (∀ e ∈ ms, i ≤ e.1) ∧ ∀ j f, (i + j, f) ∈ ms ↔
        ∃ fn parts asName, fs[j]? = some (.expr (.aggregate fn parts) asName) ∧
        createAggregateFunctionMerger fn = .ok f := by
  induction fs with
  | nil =>
    intro i ms h
    cases h
    exact ⟨nodup_nil, fun e he => absurd he not_mem_nil, fun j f => by simp⟩
  | cons f fs ih =>
    intro i ms h
    have hskip : aggregateMergers (i + 1) fs = .ok ms → (∀ fn parts asName, f ≠ .expr (.aggregate fn parts) asName) →
        (ms.map Prod.fst).Nodup ∧ (∀ e ∈ ms, i ≤ e.1) ∧ ∀ j g, (i + j, g) ∈ ms ↔ ∃ fn parts asName,
          (f :: fs)[j]? = some (.expr (.aggregate fn parts) asName) ∧ createAggregateFunctionMerger fn = .ok g := by
      intro h hf
      obtain ⟨hnodup, hge, hmem⟩ := ih h
      refine ⟨hnodup, fun e he => (Nat.le_succ i).trans (hge e he), fun j g => ?_⟩
      cases j with
      | zero =>
        constructor
        · exact fun hmem => absurd (hge _ hmem) (by omega)
        · rintro ⟨fn, parts, asName, hget, _⟩
          exact absurd (Option.some.inj hget) (hf fn parts asName)
      | succ j =>
        rw [show i + (j + 1) = i + 1 + j by omega, hmem, getElem?_cons_succ]
    unfold aggregateMergers at h
    split at h
    · next heq => cases heq
    · next fn parts asName fields heq =>
      cases heq
      obtain ⟨merger, hmerger, h⟩ := bind_eq_ok.1 h
      obtain ⟨ms', hms', h⟩ := bind_eq_ok.1 h
      cases h
      have hmerger := wrapErr_eq_ok.1 hmerger
      obtain ⟨hnodup, hge, hmem⟩ := ih hms'
      refine ⟨?_, ?_, ?_⟩
      · rw [map_cons, nodup_cons]
        refine ⟨fun hi => ?_, hnodup⟩
        obtain ⟨e, he, heq⟩ := mem_map.1 hi
        have := hge e he
        omega
      · intro e he
        rcases mem_cons.1 he with rfl | he
        · exact le_rfl
        · exact (Nat.le_succ i).trans (hge e he)
      · intro j g
        cases j with
        | zero =>
          rw [mem_cons]
          constructor
          · rintro (heq | hin)
            · cases heq
              exact ⟨fn, parts, asName, rfl, hmerger⟩
            · exact absurd (hge _ hin) (by omega)
          · rintro ⟨fn', parts', asName', hget, hg⟩
            cases hget
            rw [hmerger] at hg
            cases hg
            exact .inl rfl
        | succ j =>
          rw [show i + (j + 1) = i + 1 + j by omega, mem_cons, hmem, getElem?_cons_succ]
          constructor
          · rintro (heq | hin)
            · have := congrArg Prod.fst heq
              omega
            · exact hin
          · exact .inr
    · next fields hother heq =>
      cases heq
      exact hskip h fun fn parts asName hf => hother fn parts asName hf

theorem exists_merger_of_mem {parts : List (Expr Planned)} {asName : CIStr} :
    ∀ {i : Nat} {ms : AssocMap Nat AggregateFunc}, aggregateMergers i fs = .ok ms →
      SelectField.expr (.aggregate fn parts) asName ∈ fs → ∃ m, createAggregateFunctionMerger fn = .ok m := by
  induction fs with
  | nil => exact fun _ hmem => absurd hmem not_mem_nil
  | cons f fs ih =>
    intro i ms h hmem
    unfold aggregateMergers at h
    split at h
    · next heq => cases heq
    · next heq =>
      cases heq
      obtain ⟨merger, hmerger, h⟩ := bind_eq_ok.1 h
      obtain ⟨ms', hms', h⟩ := bind_eq_ok.1 h
      rcases mem_cons.1 hmem with heq | hmem
      · cases heq
        exact ⟨merger, wrapErr_eq_ok.1 hmerger⟩
      · exact ih hms' hmem
    · next hother heq =>
      cases heq
      rcases mem_cons.1 hmem with heq | hmem
      · exact absurd heq.symm (hother _ _ _)
      · exact ih h hmem

/-! ### Merging the rows of a group -/

theorem Expr.aggregate_of_call {distinct : Bool} {arg : Expr P}
    (h : e.call = some (fn, distinct, arg)) : ∃ parts, e = .aggregate fn parts := by
  unfold Expr.call at h
  split at h
  · cases h
    exact ⟨_, rfl⟩
  · cases h
    exact ⟨_, rfl⟩
  · cases h

def Expr.merges {P : Phase} (e : Expr P) : Prop :=
  ∃ fn distinct arg, e.call = some (fn, distinct, arg) ∧
    ∀ m, createAggregateFunctionMerger fn = .ok m → m.Merges distinct

theorem Expr.merges.isSome (h : e.merges) : e.call.isSome := by
  obtain ⟨fn, distinct, arg, hcall, _⟩ := h
  rw [hcall]
  rfl

def AggregatesMerge (fields : List (SelectField Planned)) : Prop :=
  ∀ f ∈ fields, ∃ e asName, f = .expr e asName ∧ ∀ fn, e.outermost = some (.inr fn) → e.merges

variable {plan : SelectPlan} {f : SelectField Planned}

section Merge

variable {E : Evaluation Src} {g g' : List Src}
variable {c : Cell} {row : ResultRow}

theorem SelectField.IsValueOn.append (h : f.IsValueOn E g c) (hf : ¬ f.isCall) :
    f.IsValueOn E (g ++ g') c := by
  cases f with
  | wildcard schema table => exact h
  | expr e asName =>
    have hcall : e.call = none := Option.not_isSome_iff_eq_none.1 hf
    obtain ⟨r, hr, hc⟩ := (isValueOn_expr hcall).1 h
    exact (isValueOn_expr hcall).2 ⟨r, mem_append_left _ hr, hc⟩

theorem SelectField.IsValueOn.perm (h : f.IsValueOn E g c) (hperm : g.Perm g') :
    f.IsValueOn E g' c := by
  cases f with
  | wildcard schema table => exact h
  | expr e asName =>
    cases hcall : e.call with
    | none =>
      obtain ⟨r, hr, hc⟩ := (isValueOn_expr hcall).1 h
      exact (isValueOn_expr hcall).2 ⟨r, hperm.mem_iff.1 hr, hc⟩
    | some call =>
      obtain ⟨m, hm, hc⟩ := (isValueOn_call hcall).1 h
      exact (isValueOn_call hcall).2 ⟨m, hm, hc.perm (hperm.map _)⟩

theorem GroupRow.perm {fields : List (SelectField Planned)} (h : GroupRow E plan fields g row)
    (hperm : g.Perm g') : GroupRow E plan fields g' row :=
  Forall₂.imp (fun _ _ hf hgroup => (hf hgroup).perm hperm) h

theorem SelectField.IsValueOn.merge {e : Expr Planned} {asName : CIStr} {fn : String} {m : AggregateFunc} {a b : Cell}
    (hmerges : e.merges) (hfn : e.outermost = some (.inr fn)) (hm : createAggregateFunctionMerger fn = .ok m)
    (ha : (SelectField.expr e asName).IsValueOn E g a) (hb : (SelectField.expr e asName).IsValueOn E g' b)
    (hfits : (SelectField.expr e asName).FitsOn E (g ++ g')) :
    ∃ c, m.merge b a = .ok c ∧ (SelectField.expr e asName).IsValueOn E (g ++ g') c := by
  obtain ⟨fn', distinct, arg, hcall, hmerges⟩ := hmerges
  obtain ⟨parts, rfl⟩ := Expr.aggregate_of_call hcall
  cases hfn
  obtain ⟨_, hm₁, ha⟩ := (isValueOn_call hcall).1 ha
  obtain rfl := ok_unique hm hm₁
  obtain ⟨_, hm₂, hb⟩ := (isValueOn_call hcall).1 hb
  obtain rfl := ok_unique hm hm₂
  have hfits := (fitsOn_call hcall).1 hfits m hm
  rw [map_append] at hfits
  obtain ⟨c, hc, hvalue⟩ := AggregateFunc.merge_spec (hmerges m hm) ha hb hfits
  exact ⟨c, hc, (isValueOn_call hcall).2 ⟨m, hm, by rwa [map_append]⟩⟩

variable {fields : List (SelectField Planned)} {ms : AssocMap Nat AggregateFunc}

theorem SelectField.IsValueOn.exists_merger (hms : aggregateMergers 0 fields = .ok ms) {i : Nat}
    (h : f.IsValueOn E g c) (hf : fields[i]? = some f) (hcall : f.isCall) : ∃ m, (i, m) ∈ ms := by
  cases f with
  | wildcard schema table => exact hcall.elim
  | expr e asName =>
    obtain ⟨⟨fn, distinct, arg⟩, hcall⟩ := Option.isSome_iff_exists.1 hcall
    obtain ⟨m, hm, _⟩ := (isValueOn_call hcall).1 h
    obtain ⟨parts, rfl⟩ := Expr.aggregate_of_call hcall
    have hmem := (aggregateMergers_spec hms).2.2 i m
    rw [Nat.zero_add] at hmem
    exact ⟨m, hmem.2 ⟨fn, parts, asName, hf, hm⟩⟩

/-- Merging the rows of two parts of a group gives the row of both together. -/
theorem GroupRow.merge (hms : aggregateMergers 0 fields = .ok ms) (hmerges : AggregatesMerge fields)
    {acc : ResultRow} (hacc : GroupRow E plan fields g acc) (hrow : GroupRow E plan fields g' row)
    (hfits : ∀ f ∈ fields, f.FitsOn E (g ++ g')) :
    ∃ acc', mergeRow ms row acc = .ok acc' ∧ GroupRow E plan fields (g ++ g') acc' := by
  obtain ⟨hnodup, _, hmem⟩ := aggregateMergers_spec hms
  simp only [Nat.zero_add] at hmem
  obtain ⟨haccLength, hacc⟩ := forall₂_iff_getElem?.1 hacc
  obtain ⟨hrowLength, hrow⟩ := forall₂_iff_getElem?.1 hrow
  -- the values of each function can be merged
  have hmerge : ∀ e ∈ ms, ∃ a b c f, fields[e.1]? = some f ∧ row[e.1]? = some a ∧ acc[e.1]? = some b ∧
      e.2.merge a b = .ok c ∧ f.IsValueOn E (g ++ g') c := by
    rintro ⟨j, m⟩ he
    obtain ⟨fn, parts, asName, hget, hm⟩ := (hmem j m).1 he
    have hj := (List.getElem?_eq_some_iff.1 hget).1
    obtain ⟨_, _, heq, hmerges⟩ := hmerges _ (mem_of_getElem? hget)
    cases heq
    have hmerges := hmerges fn rfl
    have hb := getElem?_eq_getElem (haccLength ▸ hj)
    have ha := getElem?_eq_getElem (hrowLength ▸ hj)
    obtain ⟨c, hc, hvalue⟩ := SelectField.IsValueOn.merge hmerges rfl hm (hacc j _ _ hget hb (.inr hmerges.isSome))
      (hrow j _ _ hget ha (.inr hmerges.isSome)) (hfits _ (mem_of_getElem? hget))
    exact ⟨_, _, c, _, hget, ha, hb, hc, hvalue⟩
  obtain ⟨acc', hacc', hlength, hmerged, hkept⟩ := mergeRow_spec (v := row) acc hnodup fun e he => by
    obtain ⟨a, b, c, _, _, ha, hb, hc, _⟩ := hmerge e he
    exact ⟨a, b, c, ha, hb, hc⟩
  refine ⟨acc', hacc', forall₂_iff_getElem?.2 ⟨haccLength.trans hlength.symm, ?_⟩⟩
  intro i f c hf hc hgroup
  by_cases hi : i ∈ ms.map Prod.fst
  · obtain ⟨e, he, rfl⟩ := mem_map.1 hi
    obtain ⟨a, b, c', f', hf', ha, hb, hc', hvalue⟩ := hmerge e he
    obtain ⟨a', b', c'', ha', hb', hc'', hcell⟩ := hmerged e he
    obtain rfl := Option.mem_unique ha ha'
    obtain rfl := Option.mem_unique hb hb'
    obtain rfl := ok_unique hc' hc''
    obtain rfl := Option.mem_unique hc hcell
    obtain rfl := Option.mem_unique hf hf'
    exact hvalue
  · rw [hkept i hi] at hc
    have hvalue := hacc i f c hf hc hgroup
    refine hvalue.append fun hcall => hi ?_
    obtain ⟨m, hm⟩ := hvalue.exists_merger hms hf hcall
    exact mem_map.2 ⟨(i, m), hm, rfl⟩

end Merge

/-! ### The planned fields -/

theorem aggregateMergers_append {more : List (SelectField Planned)}
    (hmore : ∀ e asName, SelectField.expr e asName ∈ more → ∀ name, e.outermost ≠ some (.inr name)) :
    ∀ {i : Nat} {ms : AssocMap Nat AggregateFunc}, aggregateMergers i fs = .ok ms →
      aggregateMergers i (fs ++ more) = .ok ms := by
  induction fs with
  | nil =>
    intro i ms h
    cases h
    exact aggregateMergers_eq_nil hmore i
  | cons f fs ih =>
    intro i ms h
    rw [cons_append]
    unfold aggregateMergers at h ⊢
    split at h
    · next heq => cases heq
    · next heq =>
      cases heq
      obtain ⟨merger, hmerger, h⟩ := bind_eq_ok.1 h
      obtain ⟨ms', hms', h⟩ := bind_eq_ok.1 h
      exact bind_eq_ok.2 ⟨merger, hmerger, bind_eq_ok.2 ⟨ms', ih hms', h⟩⟩
    · next hother heq =>
      cases heq
      split
      · next heq => cases heq
      · next heq =>
        cases heq
        exact absurd rfl (hother _ _ _)
      · next heq =>
        cases heq
        exact ih h

theorem createSelectFieldFromByItem_outermost {item : ByItem Parsed}
    (h : createSelectFieldFromByItem p item = .ok item') : item'.expr.outermost = item.expr.outermost ∧
      ∀ name, item'.expr.outermost ≠ some (.inr name) := by
  unfold createSelectFieldFromByItem at h
  split at h
  · next heq =>
    rw [heq]
    split at h
    · cases h
      exact ⟨rfl, fun name hname => by cases hname⟩
    · cases h
  · next heq =>
    rw [heq]
    obtain ⟨d, _, h⟩ := bind_eq_ok.1 h
    cases h
    exact ⟨rfl, fun name hname => by cases hname⟩
  · cases h

theorem exists_item_of_mem {items : Option (List (ByItem Parsed))}
    {items' : Option (List (ByItem Planned))} (h : createSelectFieldsFromByItems p items = .ok items')
    (hitem : item' ∈ items'.getD []) :
    ∃ item ∈ items.getD [], createSelectFieldFromByItem p item = .ok item' :=
  exists_of_mem (createSelectFieldsFromByItems_forall₂ h).flip hitem

section Layout

variable {stmt : SelectStmt Parsed}

section

variable (h : SelectLayout p stmt plan fs)

include h

/-- The fields behind those of the statement come from its `GROUP BY` and its `ORDER BY`. -/
theorem SelectLayout.exists_item (hf : f ∈ plan.stmt.fields.drop fs.length) :
    ∃ item ∈ stmt.groupBy.getD [] ++ stmt.orderBy.getD [], ∃ item', createSelectFieldFromByItem p item = .ok item' ∧
      f = .expr item'.expr .empty := by
  rcases h.extras f hf with hf | hf <;> obtain ⟨item', hitem', rfl⟩ := mem_map.1 hf
  · obtain ⟨item, hitem, hcreate⟩ := exists_item_of_mem h.groupBy hitem'
    exact ⟨item, mem_append_left _ hitem, item', hcreate, rfl⟩
  · obtain ⟨item, hitem, hcreate⟩ := exists_item_of_mem h.orderBy hitem'
    exact ⟨item, mem_append_right _ hitem, item', hcreate, rfl⟩

theorem SelectLayout.appended (hf : f ∈ plan.stmt.fields.drop fs.length) :
    ∃ e asName, f = .expr e asName ∧ ∀ name, e.outermost ≠ some (.inr name) := by
  obtain ⟨item, -, item', hcreate, rfl⟩ := h.exists_item hf
  exact ⟨_, _, rfl, (createSelectFieldFromByItem_outermost hcreate).2⟩

theorem SelectLayout.fields_eq :
    plan.stmt.fields = fs ++ plan.stmt.fields.drop fs.length := by
  obtain ⟨more, hmore⟩ := h.front
  rw [← hmore, drop_left]

theorem SelectLayout.aggregateMergers_fields :
    aggregateMergers 0 plan.stmt.fields = .ok plan.aggregateFuncs := by
  rw [h.fields_eq]
  refine aggregateMergers_append ?_ h.aggregates
  intro e asName hmem
  obtain ⟨_, _, heq, houter⟩ := h.appended hmem
  cases heq
  exact houter

theorem SelectLayout.mem_fields (hf : f ∈ plan.stmt.fields) :
    f ∈ fs ∨ ∃ e asName, f = .expr e asName ∧ ∀ name, e.outermost ≠ some (.inr name) := by
  rw [h.fields_eq] at hf
  exact (mem_append.1 hf).imp id h.appended

theorem SelectLayout.aggregatesMerge (hfs : AggregatesMerge fs) :
    AggregatesMerge plan.stmt.fields := by
  intro f hf
  rcases h.mem_fields hf with hf | ⟨e, asName, rfl, houter⟩
  · exact hfs f hf
  · exact ⟨e, asName, rfl, fun fn hfn => absurd hfn (houter fn)⟩

theorem SelectLayout.fitsOn {Src : Type} {E : Evaluation Src} {g : List Src}
    (hfits : ∀ f ∈ fs, f.FitsOn E g) (hf : f ∈ plan.stmt.fields) : f.FitsOn E g := by
  rcases h.mem_fields hf with hf | ⟨e, asName, rfl, houter⟩
  · exact hfits f hf
  · refine fitsOn_expr ?_
    cases hcall : e.call with
    | none => rfl
    | some c =>
      obtain ⟨parts, rfl⟩ := Expr.aggregate_of_call hcall
      exact absurd rfl (houter _)

end

end Layout

end DbProxy
