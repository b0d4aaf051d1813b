import DbProxy.Spec.GroupMerge

/-!
# Aggregate functions anywhere

The planner looks at the outermost node of a field only.  An aggregate function below it is not merged at all, and one
that leaves out duplicates is merged as if it did not.  A statement with aggregate functions is merged right for all
data exactly if each of them stands alone in its field and has values that can be merged (`mergesAggregates_iff`).
-/

namespace DbProxy

open Fallible List

open Grouping (Groups SameKey)
variable {c : Cell} {e : Expr Planned} {asName : CIStr} {stmt : SelectStmt Parsed} {hasColumn : String → Bool}

/-! ### Expressions with aggregate functions -/

theorem hasAggregate_untouched (e : Expr Parsed) : e.untouched.hasAggregate = e.hasAggregate :=
  hasAggregate_accept (.ok Fail) (fun _ _ _ => trivial) e _ (accept_none e)

/-! ### What the statement asks for -/

/-- An evaluation that also gives a value on a group to expressions with aggregate functions inside. -/
structure GroupEvaluation (Src : Type) extends Evaluation Src where
  onGroup : Expr Planned → List Src → Cell
  perm : ∀ e {g g' : List Src}, g.Perm g' → onGroup e g = onGroup e g'

def SelectField.hasAggregate {P : Phase} : SelectField P → Bool
  | .expr e _ => e.hasAggregate
  | .wildcard _ _ => false

section Rows

variable {Src : Type} (G : GroupEvaluation Src)
variable {g : List Src}

/-- `c` is the value of a field on a group, with aggregate functions at any depth. -/
def SelectField.IsAnswerOn (g : List Src) (c : Cell) : SelectField Planned → Prop
  | .expr e asName =>
    if e.hasAggregate ∧ e.call = none then c = G.onGroup e g
    else (SelectField.expr e asName).IsValueOn G.toEvaluation g c
  | .wildcard _ _ => False

variable {G} in
theorem isAnswerOn_nested (h : e.hasAggregate = true ∧ e.call = none) :
    (SelectField.expr e asName).IsAnswerOn G g c ↔ c = G.onGroup e g := by
  rw [SelectField.IsAnswerOn, if_pos h]

variable {G} in
theorem isAnswerOn_value (h : ¬ (e.hasAggregate = true ∧ e.call = none)) :
    (SelectField.expr e asName).IsAnswerOn G g c ↔ (SelectField.expr e asName).IsValueOn G.toEvaluation g c := by
  rw [SelectField.IsAnswerOn, if_neg h]

variable (plan : SelectPlan)

/-- The row of a group.  Without `GROUP BY`, only fields with aggregate functions have a value. -/
def AnswerRow (fields : List (SelectField Planned)) (g : List Src) (row : ResultRow) : Prop :=
  Forall₂ (fun f c => plan.stmt.groupBy.isSome ∨ f.hasAggregate = true → f.IsAnswerOn G g c) fields row

/-- The answer of a shard: one row for each of the groups. -/
structure AggregateAnswers (gs : List (List Src)) (r : Result) : Prop where
  fields : r.fields.length = plan.columnCount
  values : Forall₂ (AnswerRow G plan plan.stmt.fields) gs r.values

end Rows

/-- Whatever two or more shards hold: if each returns one row for each of its groups, the merged rows are those of the
groups of all rows. -/
def MergesAggregates (hasColumn : String → Bool) (plan : SelectPlan) : Prop :=
  ∀ (Src : Type) (G : GroupEvaluation Src) (go : Runtime) (shards : List (List Src)) (partss : List (List (List Src)))
    (rs : List Result), G.hasColumn = hasColumn → 2 ≤ shards.length →
    Forall₂ (Grouped G.toEvaluation plan) shards partss →
    Forall₂ (AggregateAnswers G plan) partss rs → GroupData G.toEvaluation plan shards.flatten →
    ∃ res gs, mergeSelectResult go plan rs = .ok res ∧ Grouped G.toEvaluation plan shards.flatten gs ∧
      Forall₂ (AnswerRow G plan plan.selected) gs res.values

/-- A `SELECT` with an aggregate function somewhere in its fields, without wildcards, `DISTINCT`, `HAVING` and
`LIMIT`.  Without `GROUP BY` every field has an aggregate function; what it groups and orders by has none. -/
structure AggregatesAnywhere (hasColumn : String → Bool) (stmt : SelectStmt Parsed) : Prop where
  fields : ∀ f ∈ stmt.fields, ∃ e asName, f = .expr e asName ∧ (stmt.groupBy.isSome ∨ e.hasAggregate = true)
  aggregate : ∃ f ∈ stmt.fields, f.hasAggregate = true
  distinct : stmt.distinct = false
  having : stmt.having = none
  limit : stmt.limit = none
  names : NamesApart stmt
  groupBy : GroupsByColumns hasColumn stmt
  items : ∀ item ∈ stmt.groupBy.getD [] ++ stmt.orderBy.getD [], item.expr.hasAggregate = false

/-- Every aggregate function is a field of its own, and its values can be merged. -/
def MergeableAggregates (stmt : SelectStmt Parsed) : Prop :=
  ∀ e asName, SelectField.expr e asName ∈ stmt.fields → e.hasAggregate = true → e.merges

/-! ### Fields that can be merged -/

variable {p : TableAliasStmtInfo} {plan : SelectPlan} {fs : List (SelectField Planned)}

section Planned

variable {f : ColumnName → Except Fail (Option ColumnNameDecorator)} {e : Expr Parsed}
  {e' : Expr Planned} {fn : String}

theorem hasAggregate_of_accept (h : e.accept f = .ok e') : e'.hasAggregate = e.hasAggregate :=
  hasAggregate_accept (.ok Fail) (fun _ _ _ => trivial) e e' h

theorem text_of_accept {t : Tok} (h : e.accept f = .ok (.text t)) : e = .text t := by
  cases e with
  | text t' =>
    cases h
    rfl
  | value v => cases h
  | column a c | paren e | funcCall fn parts | aggregate fn parts | node type parts =>
    obtain ⟨x, _, h⟩ := bind_eq_ok.1 h
    cases h
  | binary op l r =>
    obtain ⟨x, _, h⟩ := bind_eq_ok.1 h
    obtain ⟨y, _, h⟩ := bind_eq_ok.1 h
    cases h
  | patternIn a e list sel isNot | between a e l r isNot =>
    obtain ⟨x, _, h⟩ := bind_eq_ok.1 h
    obtain ⟨y, _, h⟩ := bind_eq_ok.1 h
    obtain ⟨z, _, h⟩ := bind_eq_ok.1 h
    cases h
  | valuesOf c =>
    cases c with
    | none => cases h
    | some c =>
      obtain ⟨x, _, h⟩ := bind_eq_ok.1 h
      cases h

theorem exists_call_of_accept (h : e.accept f = .ok e') {distinct : Bool} {arg' : Expr Planned}
    (hcall : e'.call = some (fn, distinct, arg')) : ∃ arg, e.call = some (fn, distinct, arg) := by
  obtain ⟨parts', rfl⟩ := Expr.aggregate_of_call hcall
  have houter := outermost_accept h
  cases e with
  | aggregate fn' parts =>
    cases houter
    obtain ⟨es, hparts, h⟩ := bind_eq_ok.1 h
    cases h
    have hrel := forall₂_acceptList hparts
    unfold Expr.call at hcall
    split at hcall
    · next heq =>
      cases heq
      cases hcall
      obtain - | ⟨htext, - | ⟨harg, - | ⟨htext', - | _⟩⟩⟩ := hrel
      rw [text_of_accept htext, text_of_accept htext']
      exact ⟨_, rfl⟩
    · next heq =>
      cases heq
      cases hcall
      obtain - | ⟨htext, - | ⟨hdistinct, - | ⟨harg, - | ⟨htext', - | _⟩⟩⟩⟩ := hrel
      rw [text_of_accept htext, text_of_accept hdistinct, text_of_accept htext']
      exact ⟨_, Expr.call_distinct ..⟩
    · cases hcall
  | _ => cases houter

theorem merges_accept (h : e.accept f = .ok e') : e'.merges ↔ e.merges := by
  constructor
  · rintro ⟨fn, distinct, arg', hcall, hmerges⟩
    obtain ⟨arg, hcall⟩ := exists_call_of_accept h hcall
    exact ⟨fn, distinct, arg, hcall, hmerges⟩
  · exact fun hmerges => hmerges.accept h

theorem hasAggregate_of_outermost {P : Phase} {e : Expr P} (h : e.outermost = some (.inr fn)) :
    e.hasAggregate = true := by
  cases e with
  | aggregate fn' parts => rfl
  | _ => cases h

theorem answerRow_iff {Src : Type} {G : GroupEvaluation Src} {fields : List (SelectField Planned)}
    (hfields : ∀ e asName, SelectField.expr e asName ∈ fields → e.hasAggregate = true → e.call.isSome) {g : List Src}
    {row : ResultRow} : AnswerRow G plan fields g row ↔ GroupRow G.toEvaluation plan fields g row := by
  refine forall₂_congr_of_mem fun f hf c => ?_
  cases f with
  | wildcard schema table =>
    refine Iff.of_eq ?_
    simp only [SelectField.hasAggregate, SelectField.isCall, Bool.false_eq_true]
    rfl
  | expr e asName =>
    have hiff : e.hasAggregate = true ↔ e.call.isSome := by
      refine ⟨hfields e asName hf, fun hcall => ?_⟩
      obtain ⟨⟨fn, distinct, arg⟩, hcall⟩ := Option.isSome_iff_exists.1 hcall
      obtain ⟨parts, rfl⟩ := Expr.aggregate_of_call hcall
      rfl
    have hanswer : (SelectField.expr e asName).IsAnswerOn G g c ↔
        (SelectField.expr e asName).IsValueOn G.toEvaluation g c := by
      refine isAnswerOn_value ?_
      rintro ⟨hagg, hnone⟩
      rw [hiff, hnone] at hagg
      cases hagg
    exact imp_congr (or_congr_right hiff) hanswer

theorem createSelectFieldFromByItem_hasAggregate {item : ByItem Parsed} {item' : ByItem Planned}
    (h : createSelectFieldFromByItem p item = .ok item') : item'.expr.hasAggregate = item.expr.hasAggregate := by
  unfold createSelectFieldFromByItem at h
  split at h
  · next heq =>
    rw [heq]
    split at h
    · cases h
      exact hasAggregate_untouched _
    · cases h
  · next heq =>
    rw [heq]
    obtain ⟨d, _, h⟩ := bind_eq_ok.1 h
    cases h
    rfl
  · cases h

section

variable (h : SelectLayout p stmt plan fs) (hstmt : AggregatesAnywhere hasColumn stmt)

include h hstmt

omit hstmt in
theorem SelectLayout.hasAggregate_merges :
    MergeableAggregates stmt ↔ ∀ e asName, SelectField.expr e asName ∈ fs → e.hasAggregate = true → e.merges := by
  constructor
  · intro hmerges e' asName hmem hagg
    obtain ⟨e, hmem, haccept⟩ := h.exists_field hmem
    rw [hasAggregate_of_accept haccept] at hagg
    exact (merges_accept haccept).2 (hmerges e asName hmem hagg)
  · intro hmerges e asName hmem hagg
    obtain ⟨f', hf', haccept⟩ := exists_of_mem h.fields hmem
    obtain ⟨e', he', haccept⟩ := bind_eq_ok.1 haccept
    cases haccept
    rw [← hasAggregate_of_accept he'] at hagg
    exact (merges_accept he').1 (hmerges e' asName hf' hagg)

theorem SelectLayout.groupable_of_mergeable (hmerges : MergeableAggregates stmt) : plan.Groupable hasColumn := by
  refine h.groupable_of ?_ ?_ hstmt.names hstmt.groupBy
  · intro f hf
    obtain ⟨e, asName, rfl, _⟩ := hstmt.fields f hf
    exact ⟨e, asName, rfl, fun fn hfn => hmerges e asName hf (hasAggregate_of_outermost hfn)⟩
  · intro _
    obtain ⟨f, hf, hagg⟩ := hstmt.aggregate
    obtain ⟨e, asName, rfl, _⟩ := hstmt.fields f hf
    exact ⟨e, asName, hf, hmerges e asName hf hagg⟩

theorem SelectLayout.appended_hasAggregate
    {f : SelectField Planned} (hf : f ∈ plan.stmt.fields.drop fs.length) : f.hasAggregate = false := by
  obtain ⟨item, hitem, item', hcreate, rfl⟩ := h.exists_item hf
  exact (createSelectFieldFromByItem_hasAggregate hcreate).trans (hstmt.items item hitem)

theorem SelectLayout.mergesAggregates (hmerges : MergeableAggregates stmt) : MergesAggregates hasColumn plan := by
  rintro Src G go shards partss rs rfl hlength hparts ha hdata
  have hselected : ∀ e asName, SelectField.expr e asName ∈ plan.selected → e.hasAggregate = true → e.call.isSome := by
    rw [h.selected_eq]
    exact fun e asName hmem hagg => (h.hasAggregate_merges.1 hmerges e asName hmem hagg).isSome
  have hfields : ∀ e asName, SelectField.expr e asName ∈ plan.stmt.fields → e.hasAggregate = true →
      e.call.isSome := by
    intro e asName hmem hagg
    rw [h.fields_eq] at hmem
    rcases mem_append.1 hmem with hmem | hmem
    · exact hselected e asName (h.selected_eq ▸ hmem) hagg
    · have hnone : e.hasAggregate = false := h.appended_hasAggregate hstmt hmem
      rw [hagg] at hnone
      cases hnone
  have hne : shards ≠ [] := ne_nil_of_length_pos (by omega)
  obtain ⟨res, gs, hres, hgs, hvalues⟩ := h.mergesGroups (h.groupable_of_mergeable hstmt hmerges) hstmt.distinct
    hstmt.limit Src G.toEvaluation go shards partss rs rfl hne hparts
    (ha.imp fun gs r hr => ⟨hr.fields, hr.values.imp fun g row => (answerRow_iff hfields).1⟩) hdata
  exact ⟨res, gs, hres, hgs, hvalues.imp fun g row => (answerRow_iff hselected).2⟩

end

end Planned

/-! ### Where a field cannot be merged -/

/-- One row that all tables consist of: every column is 1, and an expression with aggregate functions inside is the
square of the number of rows. -/
def GroupEvaluation.square (hasColumn : String → Bool) : GroupEvaluation Unit where
  eval _ _ := .int64 1
  plain _ := rfl
  hasColumn := hasColumn
  onGroup _ g := .int64 (g.length ^ 2 : ℕ)
  perm _ _ _ hperm := by rw [hperm.length_eq]

def SelectField.unitCell : SelectField Planned → Cell
  | .expr e _ => match e.call with
    | some (fn, _, _) => if createAggregateFunctionMerger fn = .ok .sum then .float64 1 else .int64 1
    | none => .int64 1
  | .wildcard _ _ => .int64 1

theorem unitCell_expr (h : e.call = none) : (SelectField.expr e asName).unitCell = .int64 1 := by
  simp only [SelectField.unitCell, h]

theorem unitCell_call {fn : String} {distinct : Bool} {arg : Expr Planned} {m : AggregateFunc}
    (h : e.call = some (fn, distinct, arg)) (hm : createAggregateFunctionMerger fn = .ok m) :
    (SelectField.expr e asName).unitCell = if m = .sum then .float64 1 else .int64 1 := by
  simp only [SelectField.unitCell, h, hm, Except.ok.injEq]

theorem round_one : Binary64.round 1 = 1 := by
  have := Binary64.round_intCast (n := 1) (by decide)
  exact_mod_cast this

theorem round_two : Binary64.round 2 = 2 := by
  have := Binary64.round_intCast (n := 2) (by decide)
  exact_mod_cast this

theorem unitCell_cases (f : SelectField Planned) : f.unitCell = .int64 1 ∨ f.unitCell = .float64 1 := by
  unfold SelectField.unitCell
  split
  · split
    · split
      · exact .inr rfl
      · exact .inl rfl
    · exact .inl rfl
  · exact .inl rfl

theorem merge_unitCell (m : AggregateFunc) (hc : c = .int64 1 ∨ c = .float64 1) : ∃ c', m.merge c c = .ok c' := by
  rcases hc with rfl | rfl
  · cases m with
    | count | sum | max | min => exact ⟨_, rfl⟩
  · cases m with
    | count | sum | max | min => exact ⟨_, rfl⟩

theorem unitCell_isValue
    (hmerger : ∀ fn, e.outermost = some (.inr fn) → ∃ m, createAggregateFunctionMerger fn = .ok m) :
    (SelectField.expr e asName).IsValueOn (GroupEvaluation.square hasColumn).toEvaluation [()]
    (SelectField.expr e asName).unitCell := by
  cases hcall : e.call with
  | none =>
    rw [unitCell_expr hcall]
    exact (isValueOn_expr hcall).2 ⟨(), mem_singleton_self _, rfl⟩
  | some call =>
    obtain ⟨fn, distinct, arg⟩ := call
    obtain ⟨parts, rfl⟩ := Expr.aggregate_of_call hcall
    obtain ⟨m, hm⟩ := hmerger fn rfl
    rw [unitCell_call hcall hm]
    refine (isValueOn_call hcall).2 ⟨m, hm, ?_⟩
    have hcounted : counted distinct [Cell.int64 1] = [.int64 1] := by
      cases distinct with
      | false => rfl
      | true => rfl
    show m.IsValue distinct [.int64 1] _
    cases m with
    | count =>
      show _ = Cell.int64 _
      rw [hcounted]
      rfl
    | sum =>
      show _ = ite _ _ _
      rw [hcounted]
      simp [Cell.number, round_one]
    | max | min =>
      refine .inr ⟨mem_singleton_self _, by decide, fun x hx _ => ?_⟩
      rw [mem_singleton.1 hx]
      exact le_rfl

theorem unitCell_isAnswer
    (hmerger : ∀ fn, e.outermost = some (.inr fn) → ∃ m, createAggregateFunctionMerger fn = .ok m) :
    (SelectField.expr e asName).IsAnswerOn (.square hasColumn) [()] (SelectField.expr e asName).unitCell := by
  by_cases hnested : e.hasAggregate = true ∧ e.call = none
  · rw [unitCell_expr hnested.2]
    exact (isAnswerOn_nested hnested).2 rfl
  · exact (isAnswerOn_value hnested).2 (unitCell_isValue hmerger)

/-- On two such rows, neither keeping the value of one nor merging the values of both gives the value. -/
theorem unitCell_wrong (hagg : e.hasAggregate = true) (hbad : ¬ e.merges) {g : List Unit}
    (hg : g.length = 2) (hc : (SelectField.expr e asName).IsAnswerOn (.square hasColumn) g c) :
    (e.call = none → c ≠ (SelectField.expr e asName).unitCell) ∧
      ∀ fn m, e.outermost = some (.inr fn) → createAggregateFunctionMerger fn = .ok m →
        m.merge (SelectField.expr e asName).unitCell (SelectField.expr e asName).unitCell ≠ .ok c := by
  obtain rfl : g = [(), ()] := by
    rw [length_eq_two] at hg
    obtain ⟨_, _, rfl⟩ := hg
    rfl
  cases hcall : e.call with
  | none =>
    obtain rfl : c = .int64 4 := (isAnswerOn_nested ⟨hagg, hcall⟩).1 hc
    rw [unitCell_expr hcall]
    refine ⟨fun _ => by decide, fun fn m _ _ => ?_⟩
    cases m with
    | count | sum | max | min => decide +kernel
  | some call =>
    obtain ⟨fn, distinct, arg⟩ := call
    refine ⟨nofun, fun fn' m hfn hm => ?_⟩
    obtain ⟨parts, rfl⟩ := Expr.aggregate_of_call hcall
    cases hfn
    have hnot : ¬ m.Merges distinct := by
      intro hmerges
      refine hbad ⟨fn, distinct, arg, hcall, fun m' hm' => ?_⟩
      rw [hm] at hm'
      cases hm'
      exact hmerges
    obtain ⟨m', hm', hvalue⟩ :=
      (isValueOn_call hcall).1 ((isAnswerOn_value fun h => by rw [hcall] at h; cases h.2).1 hc)
    obtain rfl := ok_unique hm hm'
    have hvalue : m.IsValue distinct [.int64 1, .int64 1] c := hvalue
    cases m with
    | max | min => exact absurd trivial hnot
    | count =>
      obtain rfl : distinct = true := by
        cases distinct with
        | true => rfl
        | false => exact absurd rfl hnot
      rw [unitCell_call hcall hm, if_neg (by decide), show c = .int64 1 from hvalue]
      decide +kernel
    | sum =>
      obtain rfl : distinct = true := by
        cases distinct with
        | true => rfl
        | false => exact absurd rfl hnot
      have hcounted : counted true [Cell.int64 1, .int64 1] = [.int64 1] := by decide
      have hc : c = .float64 1 := by
        have hvalue : c = ite _ _ _ := hvalue
        rw [hcounted] at hvalue
        simpa [Cell.number, round_one] using hvalue
      rw [unitCell_call hcall hm, if_pos rfl, hc]
      show Except.ok (Cell.float64 (Binary64.round (1 + 1))) ≠ _
      rw [one_add_one_eq_two, round_two]
      simp

theorem groupRows_twice {go : Runtime} {ms : List (Nat × AggregateFunc)} {columns : List Int} {row row' : ResultRow}
    {m : AssocMap GoString ResultRow} (hmerge : mergeRow ms row row = .ok row')
    (h : groupRows go ms columns [] [row, row] = .ok m) : m.map Prod.snd = [row'] := by
  obtain ⟨cells, hcells, _⟩ := bind_eq_ok.1 h
  rw [groupRows_new hcells rfl, groupRows_old hcells (AssocMap.get_set_self ..) hmerge] at h
  cases h
  simp [AssocMap.set]

def rowAnswer (plan : SelectPlan) (row : ResultRow) : Result :=
  { fields := replicate plan.columnCount "", values := [row] }

theorem unit_data (hexpr : ∀ f ∈ plan.stmt.fields, ∃ e asName, f = SelectField.expr e asName) :
    GroupData (GroupEvaluation.square hasColumn).toEvaluation plan [(), ()] where
  keys _ _ _ _ := ⟨Cell.isInteger_int64 1, fun _ _ => .inr (.inr rfl)⟩
  columns f hf r _ r' _ := .inr (.inr rfl)
  fits f hf g hg _ := by
    obtain ⟨e, asName, rfl⟩ := hexpr f (mem_of_mem_take hf)
    cases hcall : e.call with
    | none => exact fitsOn_expr hcall
    | some call =>
      refine (fitsOn_call hcall).2 fun m _ => ?_
      have hlength : g.length ≤ 2 := hg.length_le
      have hmap : g.map ((GroupEvaluation.square hasColumn).eval call.2.2) = replicate g.length (.int64 1) :=
        map_const' ..
      rw [hmap]
      cases m with
      | count =>
        refine (countP_le_length).trans_lt ?_
        rw [length_replicate]
        omega
      | sum =>
        refine ⟨fun x hx => ?_, ?_⟩
        · rw [eq_of_mem_replicate hx]
          exact Cell.isInteger_int64 1
        · rw [map_replicate, sum_replicate]
          have hone : |(Cell.int64 1).number| = 1 := by simp [Cell.number]
          have hle : (g.length : ℚ) ≤ 2 := by exact_mod_cast hlength
          rw [hone, nsmul_eq_mul, mul_one]
          exact hle.trans_lt (by norm_num)
      | max | min =>
        refine fun x hx => ⟨?_, fun y hy => ?_⟩
        · rw [eq_of_mem_replicate hx]
          exact Cell.isInteger_int64 1
        · rw [eq_of_mem_replicate hx, eq_of_mem_replicate hy]
          exact .inr (.inr rfl)

theorem grouped_unit (plan : SelectPlan) :
    Grouped (GroupEvaluation.square hasColumn).toEvaluation plan [()] [[()]] := by
  unfold Grouped
  split
  · exact ⟨.refl _, by simp, fun _ _ _ _ _ _ => rfl, pairwise_singleton _ _⟩
  · rfl

theorem Grouped.eq_singleton {gs : List (List Unit)}
    (h : Grouped (GroupEvaluation.square hasColumn).toEvaluation plan [(), ()] gs) :
    ∃ g, gs = [g] ∧ g.length = 2 := by
  unfold Grouped at h
  split at h
  · obtain ⟨g, rfl, hperm⟩ := h.eq_singleton (fun _ _ _ _ => rfl) (cons_ne_nil _ _)
    exact ⟨g, rfl, hperm.length_eq⟩
  · exact ⟨_, h, rfl⟩

section

variable (h : SelectLayout p stmt plan fs) (hstmt : AggregatesAnywhere hasColumn stmt)

include h hstmt

omit hstmt in
/-- Two shards that return the same row: the rows are merged, or both are left. -/
theorem SelectLayout.merge_twice (hdistinct : stmt.distinct = false)
    (hlimit : stmt.limit = none) {go : Runtime} {row row' : ResultRow} (hlength : row.length = plan.columnCount)
    (hmerge : mergeRow plan.aggregateFuncs row row = .ok row') (hlength' : row'.length = plan.columnCount)
    {res : Result} (hres : mergeSelectResult go plan [rowAnswer plan row, rowAnswer plan row] = .ok res) :
    res.values = [row'.take plan.originColumnCount] ∨ res.values.length = 2 := by
  let r : Result := { rowAnswer plan row with values := [row, row] }
  have h₀ : mergeMultiResultSet [rowAnswer plan row, rowAnswer plan row] = .ok r := by
    simp [mergeMultiResultSet, r, rowAnswer]
  have h₁ : (if plan.stmt.distinct then removeDistinctRowInResult go plan r else .ok r) = .ok r := by
    rw [h.distinct, hdistinct]
    rfl
  have hcut : ∀ r, limitSelectResult plan r = .ok r := fun r =>
    limitSelectResult_none (hlimit ▸ h.limit)
  obtain ⟨r₂, h₂, hperm⟩ := exists_perm_of_merge go h₀ h₁ h.origin_le hcut hres
  by_cases hgroup : plan.stmt.groupBy.isSome
  · left
    rw [if_pos hgroup] at h₂
    obtain ⟨m, hm, h₂⟩ := bind_eq_ok.1 h₂
    have hrows := groupRows_twice hmerge hm
    rw [if_neg (by cases m with
      | nil => cases hrows
      | cons e m => simp), hrows, perm_singleton.1 (go.range_perm [row'])] at h₂
    cases h₂
    exact perm_singleton.1 (hperm ⟨length_replicate, fun x hx => mem_singleton.1 hx ▸ hlength'⟩)
  · rw [if_neg hgroup] at h₂
    unfold buildSelectOnlyResult at h₂
    split at h₂
    · right
      cases h₂
      refine (hperm ⟨length_replicate, fun x hx => ?_⟩).length_eq
      rcases mem_cons.1 hx with rfl | hx
      · exact hlength
      · rwa [mem_singleton.1 hx]
    · left
      have h₂ : mergeRows plan.aggregateFuncs row [row] >>= (fun row => Except.ok { r with values := [row] }) =
        .ok r₂ := h₂
      have hrows : mergeRows plan.aggregateFuncs row [row] = .ok row' := bind_eq_ok.2 ⟨row', hmerge, rfl⟩
      rw [hrows] at h₂
      cases h₂
      exact perm_singleton.1 (hperm ⟨length_replicate, fun x hx => mem_singleton.1 hx ▸ hlength'⟩)

theorem SelectLayout.fields_expr {f : SelectField Planned}
    (hf : f ∈ plan.stmt.fields) : ∃ e asName, f = .expr e asName := by
  rcases h.mem_fields hf with hf | ⟨e, asName, rfl, _⟩
  · obtain ⟨_, e', asName, rfl, -⟩ := h.exists_expr hf hstmt.fields
    exact ⟨e', asName, rfl⟩
  · exact ⟨e, asName, rfl⟩

theorem SelectLayout.unit_answers :
    AggregateAnswers (.square hasColumn) plan [[()]]
      (rowAnswer plan (plan.stmt.fields.map SelectField.unitCell)) := by
  refine ⟨length_replicate, .cons ?_ .nil⟩
  unfold AnswerRow
  rw [forall₂_map_right_iff, forall₂_same]
  intro f hf _
  obtain ⟨e, asName, rfl⟩ := h.fields_expr hstmt hf
  refine unitCell_isAnswer fun fn hfn => ?_
  cases e with
  | aggregate fn' parts =>
    cases hfn
    exact exists_merger_of_mem h.aggregateMergers_fields hf
  | _ => cases hfn

/-- Where two shards hold one row each, a field that cannot be merged gets a wrong value. -/
theorem SelectLayout.mergeable_of_mergesAggregates (hmerges : MergesAggregates hasColumn plan) :
    MergeableAggregates stmt := by
  rw [h.hasAggregate_merges]
  intro e asName hmem hagg
  by_contra hbad
  rw [← h.selected_eq] at hmem
  obtain ⟨j, hj⟩ := getElem?_of_mem hmem
  have hjn : j < plan.originColumnCount := by
    have := (List.getElem?_eq_some_iff.1 hj).1
    rw [h.selected_eq, ← h.origin] at this
    exact this
  have hfield : plan.stmt.fields[j]? = some (.expr e asName) := by
    rw [← hj]
    exact (getElem?_take_of_lt hjn).symm
  let row := plan.stmt.fields.map SelectField.unitCell
  have hcell : ∀ (i : Nat) (f : SelectField Planned), plan.stmt.fields[i]? = some f → row[i]? = some f.unitCell := by
    intro i f hf
    rw [getElem?_map, hf]
    rfl
  -- the two rows are merged
  obtain ⟨hnodup, _, hms⟩ := aggregateMergers_spec h.aggregateMergers_fields
  simp only [Nat.zero_add] at hms
  obtain ⟨row', hrow', hlength, hmerged, hkept⟩ := mergeRow_spec (v := row) row hnodup fun m hm => by
    obtain ⟨fn, parts, asName, hget, _⟩ := (hms m.1 m.2).1 hm
    obtain ⟨c, hc⟩ := merge_unitCell m.2 (unitCell_cases (.expr (.aggregate fn parts) asName))
    exact ⟨_, _, c, hcell _ _ hget, hcell _ _ hget, hc⟩
  have hrowLength : row.length = plan.columnCount := by rw [length_map, h.count]
  obtain ⟨res, gs, hres, hgs, hvalues⟩ := hmerges Unit (.square hasColumn) .reference [[()], [()]] [[[()]], [[()]]]
    [rowAnswer plan row, rowAnswer plan row] rfl le_rfl (.cons (grouped_unit plan) (.cons (grouped_unit plan) .nil))
    (.cons (h.unit_answers hstmt) (.cons (h.unit_answers hstmt) .nil)) (unit_data fun f hf => h.fields_expr hstmt hf)
  obtain ⟨g, rfl, hg⟩ := hgs.eq_singleton
  rcases h.merge_twice hstmt.distinct hstmt.limit hrowLength hrow' (hlength.trans hrowLength) hres with heq | htwo
  · rw [heq] at hvalues
    obtain - | ⟨hvalues, _⟩ := hvalues
    obtain ⟨_, hvalues⟩ := forall₂_iff_getElem?.1 hvalues
    have hwrong : ∀ c, row'[j]? = some c → _ ∧ _ := fun c hc =>
      unitCell_wrong hagg hbad hg (hvalues j _ c hj (by rwa [getElem?_take_of_lt hjn]) (.inr hagg))
    by_cases hin : j ∈ plan.aggregateFuncs.map Prod.fst
    · obtain ⟨⟨_, m⟩, hm, rfl⟩ := mem_map.1 hin
      obtain ⟨fn, parts, asName', hget, hfn⟩ := (hms _ m).1 hm
      cases hfield.symm.trans hget
      obtain ⟨a, b, c, ha, hb, hc, hcell'⟩ := hmerged _ hm
      obtain rfl := Option.mem_unique ha (hcell _ _ hfield)
      obtain rfl := Option.mem_unique hb (hcell _ _ hfield)
      exact (hwrong c hcell').2 fn m rfl hfn hc
    · refine (hwrong _ ((hkept j hin).trans (hcell _ _ hfield))).1 ?_ rfl
      -- a call would have been merged
      cases hcall : e.call with
      | none => rfl
      | some call =>
        obtain ⟨parts, rfl⟩ := Expr.aggregate_of_call hcall
        obtain ⟨m, hm⟩ := exists_merger_of_mem h.aggregateMergers_fields (mem_of_getElem? hfield)
        exact absurd (mem_map.2 ⟨(j, m), (hms j m).2 ⟨_, parts, asName, hfield, hm⟩, rfl⟩) hin
  · rw [← hvalues.length_eq] at htwo
    cases htwo

end

/-- A planned statement with aggregate functions is merged right for all data exactly if each of them is a field of
its own and can be merged. -/
theorem mergesAggregates_iff {db : String} {router : Router} {order : MapOrder} {stmt : SelectStmt Parsed}
    {plan : SelectPlan} {hasColumn : String → Bool}
    (hplan : handleSelectStmt (newTableAliasStmtInfo db router order) stmt = .ok plan)
    (hstmt : AggregatesAnywhere hasColumn stmt) : MergesAggregates hasColumn plan ↔ MergeableAggregates stmt := by
  obtain ⟨p, fs, hlayout⟩ := selectLayout_of_ok hplan
  exact ⟨hlayout.mergeable_of_mergesAggregates hstmt, hlayout.mergesAggregates hstmt⟩

theorem AggregateSelect.anywhere (h : AggregateSelect hasColumn stmt)
    (haggregate : ∃ f ∈ stmt.fields, f.hasAggregate = true)
    (hitems : ∀ item ∈ stmt.groupBy.getD [] ++ stmt.orderBy.getD [], item.expr.hasAggregate = false) :
    AggregatesAnywhere hasColumn stmt where
  fields f hf := by
    obtain ⟨e, asName, rfl, he⟩ := h.fields f hf
    refine ⟨e, asName, rfl, he.imp And.left ?_⟩
    rintro ⟨fn, arg, hcall, _⟩
    obtain ⟨parts, rfl⟩ := Expr.aggregate_of_call hcall
    rfl
  aggregate := haggregate
  distinct := h.distinct
  having := h.having
  limit := h.limit
  names := h.names
  groupBy := h.groupBy
  items := hitems

theorem AggregateSelect.mergeable (h : AggregateSelect hasColumn stmt) : MergeableAggregates stmt := by
  intro e asName hmem hagg
  obtain ⟨_, _, heq, he⟩ := h.fields _ hmem
  cases heq
  rcases he with ⟨_, c, rfl⟩ | ⟨fn, arg, hcall, _⟩
  · cases hagg
  · refine ⟨fn, false, arg, hcall, fun m _ => ?_⟩
    cases m with
    | count | sum => rfl
    | max | min => trivial

theorem mergesAggregates_selectCountMax : ∃ plan,
    handleSelectStmt (newTableAliasStmtInfo "db" hashRouter .insertion) selectCountMax = .ok plan ∧
      MergesAggregates columnsOfT plan := by
  refine exists_ok ⟨_, rfl⟩ fun plan hplan => (mergesAggregates_iff hplan ?_).2
    (selectCountMax_aggregate columnsOfT).mergeable
  refine (selectCountMax_aggregate columnsOfT).anywhere ⟨_, mem_cons_of_mem _ mem_cons_self, rfl⟩ ?_
  intro item hitem
  obtain rfl := mem_singleton.1 hitem
  rfl

/-- `SELECT COUNT(x) + 1 FROM t`. -/
def selectCountPlusOne : SelectStmt Parsed :=
  { fields := [.expr (.binary (.other "+") (callOn "COUNT" "x") (.value (.int64 1))) .empty]
    tableRefs := some (singleTable (unqualifiedTable "t") .empty) }

/-- Two shards with 2 and 3 rows: the statement is accepted, and instead of one row with 6 there are two, 3 and 4. -/
theorem nested_count_not_merged : ∃ plan,
    handleSelectStmt (newTableAliasStmtInfo "db" hashRouter .insertion) selectCountPlusOne = .ok plan ∧
    mergeSelectResult .reference plan
      [{ fields := ["COUNT(x)+1"], values := [[.int64 3]] }, { fields := ["COUNT(x)+1"], values := [[.int64 4]] }] =
      .ok { fields := ["COUNT(x)+1"], values := [[.int64 3], [.int64 4]], rowDatas := [[1, 51], [1, 52]] } :=
  ⟨_, rfl, by decide +kernel⟩

end DbProxy
