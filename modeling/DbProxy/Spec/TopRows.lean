import DbProxy.Spec.IntegerKeys
import DbProxy.Spec.Limits
import DbProxy.Spec.MergeSteps

/-!
# The first rows of a plain `SELECT`

A `SELECT` with `ORDER BY` and `LIMIT` is sent to every shard with the limit `offset + count`, and the rows that come
back are sorted again and cut.  The result is a window of a sorted order of all rows of all shards, for all data,
exactly if the columns that planning finds for the items of `ORDER BY` order the rows at least as finely as the items
themselves (`mergesTopRows_iff`).  They may not: a name is looked up among the aliases by SQL, and among aliases and
column names by planning.
-/

namespace DbProxy

open Fallible List

open TopK (SortsTo keysLe valued distinctKeys)

/-! ### What the statement asks for -/

def SelectField.aliased (name : String) : SelectField Planned → Option (Expr Planned)
  | .expr e asName => if asName.l ≠ "" ∧ asName.l = name then some e else none
  | .wildcard _ _ => none

/-- What an item of `ORDER BY` stands for: a name without a qualifier is looked up among the aliases first. -/
def orderKey (fields : List (SelectField Planned)) : Expr Planned → Expr Planned
  | .column none c => (fields.findSome? (SelectField.aliased c.name.l)).getD (.column none c)
  | e => e

/-- An expression up to the spelling of a column name.  A column without a decorator has no qualifier. -/
def Expr.plain : Expr Planned → Expr Planned
  | .column none c => .column none ⟨.empty, .empty, ⟨c.name.l, c.name.l⟩⟩
  | e => e

/-- The value of an expression on a row of the tables of a shard.  Names of columns are case-insensitive, and
`hasColumn` says which names the columns of the tables have. -/
structure Evaluation (Src : Type) where
  eval : Expr Planned → Src → Cell
  plain : ∀ e, eval e.plain = eval e
  hasColumn : String → Bool

def itemKeys (key : Expr Planned → Expr Planned) (items : List (ByItem Planned)) : List (Bool × Expr Planned) :=
  items.map fun item => (item.desc, (key item.expr).plain)

namespace SelectPlan

variable (plan : SelectPlan)

def selected : List (SelectField Planned) := plan.stmt.fields.take plan.originColumnCount

def orderItems : List (ByItem Planned) := plan.stmt.orderBy.getD []

def orderKeys : List (Bool × Expr Planned) := itemKeys (orderKey plan.selected) plan.orderItems

def foundKeys : List (Bool × Expr Planned) := itemKeys (foundKey plan.selected) plan.orderItems

/-- The merge orders by the keys of the statement first; repeated keys do not count. -/
def KeysAgree : Prop := distinctKeys plan.orderKeys <+: distinctKeys plan.foundKeys

end SelectPlan

variable {Src : Type}

section Order

variable (E : Evaluation Src)

def Evaluation.le (keys : List (Bool × Expr Planned)) : Src → Src → Prop :=
  keysLe (valued (fun e r => (E.eval e r).rank) keys)

/-- The answer of a shard to the planned statement: its rows `out`, as values of the planned fields. -/
structure Answers (plan : SelectPlan) (out : List Src) (r : Result) : Prop where
  fields : r.fields.length = plan.columnCount
  values : r.values = out.map (rowOf E.eval plan.stmt.fields)

/-- Each column of the results has one type. -/
def Typed (plan : SelectPlan) (rows : List Src) : Prop :=
  ∀ f ∈ plan.stmt.fields, ∀ r ∈ rows, ∀ r' ∈ rows, (f.value E.eval r).comparable (f.value E.eval r')

end Order

/-- Whatever the shards hold: if each returns the first of its rows, the merged rows are the window of a sorted order
of all rows. -/
def MergesTopRows (bounds : Option (Option UInt64 × UInt64)) (plan : SelectPlan) : Prop :=
  ∀ (Src : Type) (E : Evaluation Src) (go : Runtime) (shards outs : List (List Src)) (rs : List Result), shards ≠ [] →
    Forall₂ (fun rows out => ∃ s, SortsTo (E.le plan.orderKeys) rows s ∧ out = firstRows bounds s) shards outs →
    Forall₂ (Answers E plan) outs rs → Typed E plan shards.flatten →
    ∃ res, mergeSelectResult go plan rs = .ok res ∧ ∃ s, SortsTo (E.le plan.orderKeys) shards.flatten s ∧
      res.values = (window bounds s).map (rowOf E.eval plan.selected)

/-- No aggregate function, no wildcard, no `DISTINCT` and no `GROUP BY`. -/
structure PlainSelect (stmt : SelectStmt Parsed) : Prop where
  fields : ∀ f ∈ stmt.fields, ∃ e asName, f = .expr e asName ∧ ∀ name, e.outermost ≠ some (.inr name)
  distinct : stmt.distinct = false
  groupBy : stmt.groupBy = none

/-! ### Keys -/

variable {E : Evaluation Src}

theorem Expr.plain_plain (e : Expr Planned) : e.plain.plain = e.plain := by
  cases e with
  | column d c =>
    cases d with
    | none => rfl
    | some d => rfl
  | _ => rfl

theorem Evaluation.le_total (keys : List (Bool × Expr Planned)) (a b : Src) : E.le keys a b ∨ E.le keys b a :=
  TopK.keysLe_total _ a b

theorem Evaluation.le_trans {keys : List (Bool × Expr Planned)} (a b c : Src) (hab : E.le keys a b)
    (hbc : E.le keys b c) : E.le keys a c :=
  TopK.keysLe_trans hab hbc

theorem SelectPlan.KeysAgree.le {plan : SelectPlan} (h : plan.KeysAgree) {a b : Src} (hle : E.le plan.foundKeys a b) :
    E.le plan.orderKeys a b :=
  (TopK.keysLe_distinctKeys _).1 (TopK.keysLe_of_prefix h ((TopK.keysLe_distinctKeys _).2 hle))

theorem exists_aliased {fs : List (SelectField Planned)} {name : String} {e : Expr Planned}
    (h : fs.findSome? (SelectField.aliased name) = some e) :
    ∃ asName, SelectField.expr e asName ∈ fs ∧ asName.l ≠ "" ∧ asName.l = name := by
  obtain ⟨f, hf, he⟩ := exists_of_findSome?_eq_some h
  cases f with
  | wildcard schema table => cases he
  | expr e' asName =>
    obtain ⟨hname, he⟩ := Option.ite_none_right_eq_some.1 he
    cases he
    exact ⟨asName, hf, hname⟩

/-- Where planning and the statement take an item for different expressions, both are selected: one has the name as
its alias, the other one goes by the name. -/
theorem orderKey_or_selected (fs : List (SelectField Planned)) (e : Expr Planned) :
    (orderKey fs e).plain = (foundKey fs e).plain ∨
      ∃ asName, SelectField.expr (orderKey fs e) asName ∈ fs ∧ asName.l ≠ "" ∧
        ∃ f ∈ fs, f.named asName.l = some (foundKey fs e) := by
  unfold orderKey
  split
  · next c =>
    have hfound : foundKey fs (.column none c) = (lastNamed c.name.l fs).getD (.column none c) := rfl
    rw [hfound]
    cases hlast : lastNamed c.name.l fs with
    | none =>
      cases halias : fs.findSome? (SelectField.aliased c.name.l) with
      | none => exact .inl rfl
      | some e =>
        obtain ⟨asName, hmem, hname⟩ := exists_aliased halias
        have hnamed : (SelectField.expr e asName).named c.name.l = some e := if_pos (.inl hname)
        have hnone := lastNamed_eq_none.1 hlast _ hmem
        rw [hnone] at hnamed
        cases hnamed
    | some e' =>
      obtain ⟨f, hf, hnamed⟩ := exists_lastNamed hlast
      cases halias : fs.findSome? (SelectField.aliased c.name.l) with
      | some e =>
        obtain ⟨asName, hmem, hne, hname⟩ := exists_aliased halias
        exact .inr ⟨asName, hmem, hne, f, hf, hname ▸ hnamed⟩
      | none =>
        -- the field that was found is the column itself
        left
        obtain ⟨asName', rfl, hname'⟩ := SelectField.eq_of_named hnamed
        rcases hname' with hname' | hcolumn
        · have hsome : SelectField.aliased c.name.l (.expr e' asName') = some e' := if_pos hname'
          rw [findSome?_eq_none_iff.1 halias _ hf] at hsome
          cases hsome
        · unfold Expr.isColumnNamed at hcolumn
          split at hcolumn
          · next c' =>
            have hc' : c'.name.l = c.name.l := of_decide_eq_true hcolumn
            exact congrArg (fun name => Expr.column (P := Planned) none ⟨.empty, .empty, ⟨name, name⟩⟩) hc'.symm
          · cases hcolumn
  · next hcolumn =>
    left
    unfold foundKey
    split
    · next c => exact absurd rfl (hcolumn c)
    · rfl

theorem le_iff_of_selected {plan : SelectPlan} {a b : Src}
    (h : ∀ e asName, SelectField.expr e asName ∈ plan.selected → E.eval e a = E.eval e b) :
    E.le plan.orderKeys a b ↔ E.le plan.foundKeys a b := by
  unfold SelectPlan.orderKeys SelectPlan.foundKeys
  induction plan.orderItems with
  | nil => exact Iff.rfl
  | cons item items ih =>
    have hdecides : ∀ key : Expr Planned → Expr Planned, E.le (itemKeys key (item :: items)) a b ↔
        (if item.desc then (E.eval (key item.expr) b).rank < (E.eval (key item.expr) a).rank
          else (E.eval (key item.expr) a).rank < (E.eval (key item.expr) b).rank) ∨
        ((E.eval (key item.expr) a).rank = (E.eval (key item.expr) b).rank ∧ E.le (itemKeys key items) a b) := by
      intro key
      rw [← E.plain (key item.expr)]
      exact Iff.rfl
    rw [hdecides, hdecides, ih]
    rcases orderKey_or_selected plan.selected item.expr with hsame | ⟨asName, hmem, _, f, hf, hnamed⟩
    · rw [← E.plain (orderKey _ _), ← E.plain (foundKey _ _), hsame]
    · obtain ⟨asName', rfl, _⟩ := SelectField.eq_of_named hnamed
      rw [h _ _ hmem, h _ _ hf]
      simp

section Columns

variable {row : Src → ResultRow} {key : Expr Planned → Expr Planned} {columns : List Nat}
  {items : List (ByItem Planned)}

theorem keysLe_rows (h : Forall₂ (fun (c : Nat) item => ∀ r, (row r).cell c = .ok (E.eval (key item.expr) r))
      columns items) (a b : Src) :
    keysLe (rowKeys (List.zipWith (fun (c : Nat) d => ⟨c, d⟩) columns (items.map ByItem.desc))) (row a) (row b) ↔
      E.le (itemKeys key items) a b := by
  induction h with
  | nil => exact Iff.rfl
  | @cons c item cs items hc _ ih =>
    have hrows : ∀ rest, keysLe (rowKeys (⟨c, item.desc⟩ :: rest)) (row a) (row b) ↔
        (if item.desc then (E.eval (key item.expr) b).rank < (E.eval (key item.expr) a).rank
          else (E.eval (key item.expr) a).rank < (E.eval (key item.expr) b).rank) ∨
        ((E.eval (key item.expr) a).rank = (E.eval (key item.expr) b).rank ∧
          keysLe (rowKeys rest) (row a) (row b)) := by
      intro rest
      rw [← ResultRow.at_eq (hc a), ← ResultRow.at_eq (hc b)]
      exact Iff.rfl
    rw [map_cons, zipWith_cons_cons, hrows, ih, ← E.plain (key item.expr)]
    exact Iff.rfl

end Columns

/-! ### The merge of a plain `SELECT` -/

theorem aggregateMergers_eq_nil {fs : List (SelectField Planned)}
    (h : ∀ e asName, SelectField.expr e asName ∈ fs → ∀ name, e.outermost ≠ some (.inr name)) (i : Nat) :
    aggregateMergers i fs = .ok [] := by
  induction fs generalizing i with
  | nil => rfl
  | cons f fs ih =>
    have hrest := ih (fun e asName hmem => h e asName (mem_cons_of_mem _ hmem)) (i + 1)
    unfold aggregateMergers
    split
    · next heq => cases heq
    · next heq =>
      cases heq
      exact absurd rfl (h _ _ mem_cons_self _)
    · next heq =>
      cases heq
      exact hrest

variable {stmt : SelectStmt Parsed} {plan : SelectPlan} {bounds : Option (Option UInt64 × UInt64)}

section Plain

variable {p : TableAliasStmtInfo} {fs : List (SelectField Planned)}

theorem SelectLayout.selected_eq (h : SelectLayout p stmt plan fs) : plan.selected = fs := by
  obtain ⟨more, hmore⟩ := h.front
  unfold SelectPlan.selected
  rw [← hmore, h.origin, take_left]

theorem SelectLayout.origin_le (h : SelectLayout p stmt plan fs) : plan.originColumnCount ≤ plan.columnCount := by
  rw [h.origin, h.count]
  exact h.front.length_le

theorem SelectLayout.exists_field (h : SelectLayout p stmt plan fs) {e' : Expr Planned} {asName : CIStr}
    (hf : SelectField.expr e' asName ∈ fs) :
    ∃ e, SelectField.expr e asName ∈ stmt.fields ∧ e.accept (columnNameRewriteVisitor p) = .ok e' := by
  obtain ⟨f, hmem, haccept⟩ := exists_of_mem h.fields.flip hf
  cases f with
  | wildcard schema table => cases haccept
  | expr e asName' =>
    obtain ⟨e'', he, haccept⟩ := bind_eq_ok.1 haccept
    cases haccept
    exact ⟨e, hmem, he⟩

theorem SelectLayout.aggregateFuncs_eq_nil (h : SelectLayout p stmt plan fs)
    (hno : ∀ e asName, SelectField.expr e asName ∈ stmt.fields → ∀ name, e.outermost ≠ some (.inr name)) :
    plan.aggregateFuncs = [] := by
  have hnil : aggregateMergers 0 fs = .ok [] := by
    refine aggregateMergers_eq_nil ?_ 0
    intro e' asName hmem name houter
    obtain ⟨e, hmem, he⟩ := h.exists_field hmem
    rw [outermost_accept he] at houter
    exact hno e asName hmem name houter
  rw [h.aggregates] at hnil
  exact Except.ok.inj hnil

/-- Without `DISTINCT`, `GROUP BY` and aggregate functions, the rows that come together are sorted, and the limit
comes next. -/
theorem SelectLayout.merge_ungrouped (h : SelectLayout p stmt plan fs)
    (hno : ∀ e asName, SelectField.expr e asName ∈ stmt.fields → ∀ name, e.outermost ≠ some (.inr name))
    (hdistinct : stmt.distinct = false) (hgroupBy : stmt.groupBy = none) (go : Runtime) {rs : List Result}
    {r r' : Result} (hr : mergeMultiResultSet rs = .ok r) (hsort : sortSelectResult go plan r = .ok r') :
    mergeSelectResult go plan rs = limitSelectResult plan r' >>= finishResult go plan := by
  have hwhole : (if plan.stmt.distinct then removeDistinctRowInResult go plan r else .ok r) = .ok r := by
    rw [h.distinct, hdistinct]
    rfl
  have hgroup : plan.stmt.groupBy = none := by
    have := h.groupBy
    rw [hgroupBy] at this
    exact (Except.ok.inj this).symm
  have hungrouped : (if plan.stmt.groupBy.isSome then buildSelectGroupByResult go plan r
    else buildSelectOnlyResult plan r) =
      .ok r := by
    unfold buildSelectOnlyResult
    rw [hgroup, h.aggregateFuncs_eq_nil hno]
    rfl
  exact mergeSelectResult_of_steps go hr hwhole hungrouped hsort

theorem answers_flatten {outs : List (List Src)} {rs : List Result} (h : Forall₂ (Answers E plan) outs rs) :
    (rs.map Result.values).flatten = outs.flatten.map (rowOf E.eval plan.stmt.fields) := by
  induction h with
  | nil => rfl
  | cons ha _ ih => rw [map_cons, flatten_cons, flatten_cons, map_append, ih, ha.values]

theorem cell_rowOf_eq_ok {eval : Expr Planned → Src → Cell} {fields : List (SelectField Planned)} {i : Nat} {r : Src}
    {x : Cell} (h : (rowOf eval fields r).cell i = .ok x) :
    ∃ f ∈ fields, ∀ r', (rowOf eval fields r').cell i = .ok (f.value eval r') := by
  cases hi : fields[i]? with
  | some f => exact ⟨f, mem_of_getElem? hi, cell_rowOf eval hi⟩
  | none =>
    unfold ResultRow.cell rowOf at h
    rw [if_pos (Int.natCast_nonneg i), Int.toNat_natCast, getElem?_map, hi] at h
    cases h

section

variable (h : SelectLayout p stmt plan fs)

include h

theorem Answers.tabular {out : List Src} {r : Result} (ha : Answers E plan out r) :
    r.Tabular plan.columnCount := by
  refine ⟨ha.fields, ?_⟩
  intro row hrow
  rw [ha.values] at hrow
  obtain ⟨x, _, rfl⟩ := mem_map.1 hrow
  unfold rowOf
  rw [length_map, h.count]

theorem SelectLayout.orderColumns_cell (E : Evaluation Src) :
    Forall₂ (fun (c : Nat) item => ∀ r, (rowOf E.eval plan.stmt.fields r).cell c =
      .ok (E.eval (foundKey plan.selected item.expr) r)) plan.orderByColumn plan.orderItems := by
  rw [h.selected_eq]
  exact (forall₂_map_right_iff.1 h.orderColumns).imp fun c item hfound r => h.cell_found E.eval hfound r

theorem SelectLayout.sortKeys_eq {r : Result} (hfields : r.fields.length = plan.columnCount) :
    sortKeys plan r = List.zipWith (fun (c : Nat) d => ⟨c, d⟩) plan.orderByColumn
      (plan.orderItems.map ByItem.desc) := by
  unfold sortKeys
  rw [deltaColumnCount_eq_zero hfields, h.directions]
  simp only [Int.add_zero]
  rfl

theorem SelectLayout.rowsCompare {r : Result} (hfields : r.fields.length = plan.columnCount)
    {rows : List Src} (htyped : Typed E plan rows) (hvalues : r.values = rows.map (rowOf E.eval plan.stmt.fields)) :
    ∀ row ∈ r.values, ∀ row' ∈ r.values, RowsCompare (sortKeys plan r) row row' := by
  rw [hvalues]
  refine forall_mem_map.2 fun a ha => forall_mem_map.2 fun b hb k hk => ?_
  obtain ⟨c, hc, hcolumn⟩ := exists_of_mem_sortKeys hk
  rw [deltaColumnCount_eq_zero hfields, add_zero] at hcolumn
  obtain ⟨item, _, hcell⟩ := exists_of_mem (h.orderColumns_cell E) hc
  obtain ⟨f, hf, hvalue⟩ := cell_rowOf_eq_ok (hcell a)
  rw [hcolumn]
  exact ⟨_, _, hvalue a, hvalue b, htyped f hf a ha b hb⟩

theorem SelectLayout.merge_plain (hplain : PlainSelect stmt) (go : Runtime)
    {outs : List (List Src)} {rs : List Result} (hne : rs ≠ []) (ha : Forall₂ (Answers E plan) outs rs) :
    ∃ r : Result, r.fields.length = plan.columnCount ∧ r.values = outs.flatten.map (rowOf E.eval plan.stmt.fields) ∧
      ∀ l : List Src, sortSelectResult go plan r = .ok { r with values := l.map (rowOf E.eval plan.stmt.fields) } →
        mergeSelectResult go plan rs = limitSelectResult plan
          { r with values := l.map (rowOf E.eval plan.stmt.fields) } >>=
          finishResult go plan := by
  have htab : ∀ r ∈ rs, r.Tabular plan.columnCount := by
    intro r hr
    obtain ⟨out, _, hout⟩ := exists_of_mem ha.flip hr
    exact hout.tabular h
  obtain ⟨r, hr, hrtab, hvalues⟩ := mergeMultiResultSet_spec hne htab
  refine ⟨r, hrtab.fields, hvalues.trans (answers_flatten ha), ?_⟩
  refine fun l hsort => h.merge_ungrouped (fun e asName hmem => ?_) hplain.distinct hplain.groupBy go hr hsort
  obtain ⟨_, _, heq, hno⟩ := hplain.fields _ hmem
  cases heq
  exact hno

end

theorem SelectLayout.finish_plain (h : SelectLayout p stmt plan fs)
    (hcut : ∀ r, limitSelectResult plan r = .ok { r with values := window bounds r.values })
    (go : Runtime) {r : Result} (hfields : r.fields.length = plan.columnCount) (l : List Src) :
    ∃ res, (limitSelectResult plan { r with values := l.map (rowOf E.eval plan.stmt.fields) } >>=
      finishResult go plan) = .ok res ∧ res.values = (window bounds l).map (rowOf E.eval plan.selected) := by
  rw [hcut, window_map]
  obtain ⟨res, hres, hvalues⟩ := finishResult_spec go (p := plan)
    (r := { r with values := (window bounds l).map (rowOf E.eval plan.stmt.fields) }) ⟨hfields, fun row hrow => by
      obtain ⟨x, _, rfl⟩ := mem_map.1 hrow
      unfold rowOf
      rw [length_map, h.count]⟩ h.origin_le
  refine ⟨res, hres, hvalues.trans ?_⟩
  rw [map_map]
  exact map_congr_left fun x _ => map_take.symm

theorem SelectLayout.exists_merged (h : SelectLayout p stmt plan fs) (hplain : PlainSelect stmt)
    (hcut : ∀ r, limitSelectResult plan r = .ok { r with values := window bounds r.values }) (go : Runtime)
    {outs : List (List Src)} {rs : List Result} (hne : rs ≠ []) (ha : Forall₂ (Answers E plan) outs rs)
    (htyped : Typed E plan outs.flatten) :
    ∃ res merged, mergeSelectResult go plan rs = .ok res ∧ SortsTo (E.le plan.foundKeys) outs.flatten merged ∧
      res.values = (window bounds merged).map (rowOf E.eval plan.selected) := by
  obtain ⟨r, hfields, hvalues, hmerge⟩ := h.merge_plain hplain go hne ha
  obtain ⟨s, hs, hperm, hsorted⟩ :=
    sortSelectResult_spec go (p := plan) (r := r) (h.rowsCompare hfields htyped hvalues)
  rw [hvalues] at hperm
  obtain ⟨merged, hmerged, rfl⟩ := TopK.exists_map_of_perm hperm
  obtain ⟨res, hres, hresValues⟩ := h.finish_plain hcut go hfields merged
  refine ⟨res, merged, (hmerge merged hs).trans hres, ⟨hmerged, ?_⟩, hresValues⟩
  refine (pairwise_map.1 hsorted).imp fun {a b} hab => ?_
  rw [h.sortKeys_eq hfields, keysLe_rows (h.orderColumns_cell E)] at hab
  exact hab

theorem typed_outs {shards outs : List (List Src)} {le : Src → Src → Prop}
    (houts : Forall₂ (fun rows out => ∃ s, SortsTo le rows s ∧ out = firstRows bounds s) shards outs)
    (htyped : Typed E plan shards.flatten) : Typed E plan outs.flatten := by
  have hsub : ∀ x ∈ outs.flatten, x ∈ shards.flatten := by
    intro x hx
    obtain ⟨out, hout, hx⟩ := mem_flatten.1 hx
    obtain ⟨rows, hrows, s, hs, rfl⟩ := exists_of_mem houts.flip hout
    refine mem_flatten.2 ⟨rows, hrows, hs.perm.mem_iff.1 ?_⟩
    unfold firstRows at hx
    split at hx
    · exact hx
    · exact mem_of_mem_take hx
  exact fun f hf r hr r' hr' => htyped f hf r (hsub r hr) r' (hsub r' hr')

theorem exists_window {le : Src → Src → Prop} (htotal : ∀ a b, le a b ∨ le b a)
    (htrans : ∀ a b c, le a b → le b c → le a c) {shards outs : List (List Src)} {merged : List Src}
    (houts : Forall₂ (fun rows out => ∃ s, SortsTo le rows s ∧ out = firstRows bounds s) shards outs)
    (hmerged : SortsTo le outs.flatten merged) :
    ∃ s, SortsTo le shards.flatten s ∧ window bounds s = window bounds merged := by
  cases bounds with
  | none =>
    refine ⟨merged, SortsTo.flatten (houts.imp fun rows out h => ?_) hmerged, rfl⟩
    obtain ⟨s, hs, rfl⟩ := h
    exact hs
  | some b =>
    obtain ⟨s, hs, htake⟩ := TopK.exists_sortsTo_take htotal htrans houts hmerged
    refine ⟨s, hs, ?_⟩
    have hcut : ∀ l : List Src, window (some b) l = (l.take (skipped b.1 + b.2.toNat)).drop (skipped b.1) := by
      intro l
      rw [drop_take, Nat.add_sub_cancel_left]
      rfl
    rw [hcut, hcut, htake]

theorem SelectLayout.mergesTopRows (h : SelectLayout p stmt plan fs) (hplain : PlainSelect stmt)
    (hlimit : stmt.limit = limitOf bounds) (hbounds : ∀ o c, bounds = some (o, c) → skipped o + c.toNat < 2 ^ 63)
    (hagree : (∃ o, bounds = some (o, 0)) ∨ plan.KeysAgree) : MergesTopRows bounds plan := by
  intro Src E go shards outs rs hne houts ha htyped
  have hrs : rs ≠ [] := by
    rintro rfl
    cases ha
    cases houts
    exact hne rfl
  have hcut := fun r => limitSelectResult_spec (r := r) hbounds (hlimit ▸ h.limit)
  obtain ⟨res, merged, hres, hmerged, hvalues⟩ := h.exists_merged hplain hcut go hrs ha (typed_outs houts htyped)
  refine ⟨res, hres, ?_⟩
  rcases hagree with ⟨o, rfl⟩ | hagree
  · -- an empty window
    obtain ⟨s, hs⟩ := TopK.exists_sortsTo (E.le_total plan.orderKeys) E.le_trans shards.flatten
    refine ⟨s, hs, hvalues.trans ?_⟩
    simp [window]
  · have hfine : SortsTo (E.le plan.orderKeys) outs.flatten merged := ⟨hmerged.perm, hmerged.sorted.imp hagree.le⟩
    obtain ⟨s, hs, hwindow⟩ := exists_window (E.le_total plan.orderKeys) E.le_trans houts hfine
    exact ⟨s, hs, hwindow ▸ hvalues⟩

/-! ### Where the keys do not agree -/

theorem getElem?_window {α : Type} (hcount : ¬ ∃ o, bounds = some (o, 0)) (l : List α) :
    (window bounds l)[0]? = l[(bounds.map fun b => skipped b.1).getD 0]? := by
  cases bounds with
  | none => rfl
  | some b =>
    obtain ⟨offset, count⟩ := b
    have hpos : 0 < count.toNat := by
      refine Nat.pos_of_ne_zero fun hzero => hcount ⟨offset, ?_⟩
      rw [show count = 0 from UInt64.toNat_inj.1 hzero]
    show ((l.drop (skipped offset)).take count.toNat)[0]? = l[skipped offset]?
    rw [getElem?_take_of_lt hpos, getElem?_drop, Nat.add_zero]

theorem sortsTo_replicate {le : Bool → Bool → Prop} (htotal : ∀ a b, le a b ∨ le b a)
    (hcount : ¬ ∃ o, bounds = some (o, 0)) (r : Bool) :
    ∃ s, SortsTo le (replicate ((bounds.map fun b => skipped b.1).getD 0 + 1) r) s ∧
      replicate ((bounds.map fun b => skipped b.1).getD 0 + 1) r = firstRows bounds s := by
  refine ⟨_, ⟨.refl _, ?_⟩, ?_⟩
  · exact pairwise_replicate.2 (.inr ((htotal r r).elim id id))
  · cases bounds with
    | none => rfl
    | some b =>
      obtain ⟨offset, count⟩ := b
      have hpos : 0 < count.toNat := by
        refine Nat.pos_of_ne_zero fun hzero => hcount ⟨offset, ?_⟩
        rw [show count = 0 from UInt64.toNat_inj.1 hzero]
      refine (take_of_length_le ?_).symm
      rw [length_replicate]
      show skipped offset + 1 ≤ skipped offset + count.toNat
      omega

/-- In a sorted order, `n + 1` rows that must come first fill the places up to `n`. -/
theorem getElem?_sorted {le : Bool → Bool → Prop} (hle : ¬ le true false) {n : Nat} {s : List Bool}
    (hs : SortsTo le (replicate (n + 1) true ++ replicate (n + 1) false) s) : s[n]? = some false := by
  have hlength : n < s.length := by
    rw [hs.perm.length_eq, length_append, length_replicate]
    omega
  rw [getElem?_eq_getElem hlength]
  by_contra hne
  have htrue : s[n] = true := by
    cases h : s[n] with
    | true => rfl
    | false => exact absurd (congrArg some h) hne
  have hsplit : s = s.take n ++ true :: s.drop (n + 1) := by
    rw [← htrue, cons_getElem_drop_succ, take_append_drop]
  have hafter : (s.drop (n + 1)).count false = 0 := by
    rw [count_eq_zero]
    intro hmem
    have hsorted := hs.sorted
    rw [hsplit] at hsorted
    exact hle ((pairwise_cons.1 (pairwise_append.1 hsorted).2.1).1 false hmem)
  have hcount : s.count false = n + 1 := by
    rw [hs.perm.count_eq, count_append, count_replicate, count_replicate]
    simp
  rw [hsplit, count_append, count_cons, hafter] at hcount
  have := count_le_length (a := false) (l := s.take n)
  have := length_take_le n s
  simp at hcount
  omega

/-- An evaluation on two rows that gives each key 0 or 1. -/
def Evaluation.ofBits (bit : Expr Planned → Bool → Bool) : Evaluation Bool where
  eval e r := .int64 (if bit e.plain r then 1 else 0)
  plain e := by rw [e.plain_plain]
  hasColumn _ := false

/-- Two rows that the merge may leave in an order that the statement does not allow. -/
theorem exists_misordered (h : ¬ plan.KeysAgree) :
    ∃ E : Evaluation Bool, (∀ e r, ∃ n, E.eval e r = .int64 n) ∧ E.le plan.foundKeys true false ∧
      ¬ E.le plan.orderKeys true false := by
  have hlt : (Cell.int64 (if false then 1 else 0)).rank < (Cell.int64 (if true then 1 else 0)).rank := by
    rw [Cell.rank_lt]
    simp [Cell.kind, Cell.number]
  obtain ⟨bit, hfound, horder⟩ :=
    TopK.exists_separating (g := fun b : Bool => (Cell.int64 (if b then 1 else 0)).rank) hlt
    (TopK.distinctKeys_pairwise plan.orderKeys) (TopK.distinctKeys_pairwise plan.foundKeys) h
  rw [TopK.keysLe_distinctKeys] at hfound horder
  have hvalued : ∀ key items, valued (fun e r => ((Evaluation.ofBits bit).eval e r).rank) (itemKeys key items) =
      valued (fun e r => (Cell.int64 (if bit e r then 1 else 0)).rank) (itemKeys key items) := by
    intro key items
    refine map_congr_left fun k hk => ?_
    obtain ⟨item, _, rfl⟩ := mem_map.1 hk
    simp only [Evaluation.ofBits, Expr.plain_plain]
  refine ⟨.ofBits bit, fun e r => ⟨_, rfl⟩, ?_, ?_⟩
  · unfold Evaluation.le SelectPlan.foundKeys
    rw [hvalued]
    exact hfound
  · unfold Evaluation.le SelectPlan.orderKeys
    rw [hvalued]
    exact horder

/-- If the merge is right for all data, the keys agree: otherwise two shards, one of rows that must come last and one
of rows that must come first, stay in this order. -/
theorem SelectLayout.keysAgree (h : SelectLayout p stmt plan fs) (hplain : PlainSelect stmt)
    (hlimit : stmt.limit = limitOf bounds) (hbounds : ∀ o c, bounds = some (o, c) → skipped o + c.toNat < 2 ^ 63)
    (hmerges : MergesTopRows bounds plan) : (∃ o, bounds = some (o, 0)) ∨ plan.KeysAgree := by
  by_contra hnot
  obtain ⟨hcount, hagree⟩ := not_or.1 hnot
  obtain ⟨E, hint, hfound, horder⟩ := exists_misordered hagree
  let n := (bounds.map fun b => skipped b.1).getD 0
  let shards : List (List Bool) := [replicate (n + 1) true, replicate (n + 1) false]
  let answer (out : List Bool) : Result :=
    { fields := replicate plan.columnCount "", values := out.map (rowOf E.eval plan.stmt.fields) }
  have ha : Forall₂ (Answers E plan) shards (shards.map answer) := by
    rw [forall₂_map_right_iff, forall₂_same]
    exact fun out _ => ⟨length_replicate, rfl⟩
  have houts : Forall₂ (fun rows out => ∃ s, SortsTo (E.le plan.orderKeys) rows s ∧ out = firstRows bounds s)
      shards shards :=
    .cons (sortsTo_replicate (E.le_total _) hcount true) (.cons (sortsTo_replicate (E.le_total _) hcount false) .nil)
  have htyped : Typed E plan shards.flatten := by
    intro f _ r _ r' _
    cases f with
    | wildcard schema table => exact .inl rfl
    | expr e asName =>
      obtain ⟨x, hx⟩ := hint e r
      obtain ⟨y, hy⟩ := hint e r'
      exact .inr (.inr (by simp only [SelectField.value, hx, hy, Cell.kind]))
  obtain ⟨r, hfields, hvalues, hmerge⟩ := h.merge_plain hplain .reference (cons_ne_nil _ _) ha
  -- the rows are sorted already, by the keys that were found
  have hsorted : shards.flatten.Pairwise (E.le plan.foundKeys) := by
    have hsame : ∀ r, (replicate (n + 1) r).Pairwise (E.le plan.foundKeys) :=
      fun r => pairwise_replicate.2 (.inr ((E.le_total _ r r).elim id id))
    rw [flatten_cons, flatten_singleton]
    refine pairwise_append.2 ⟨hsame true, hsame false, fun a ha b hb => ?_⟩
    rw [eq_of_mem_replicate ha, eq_of_mem_replicate hb]
    exact hfound
  have hsort : sortSelectResult .reference plan r = .ok r := by
    refine sortSelectResult_of_pairwise (h.rowsCompare hfields htyped hvalues) ?_
    rw [hvalues, pairwise_map]
    refine hsorted.imp fun {a b} hab => ?_
    rw [h.sortKeys_eq hfields, keysLe_rows (h.orderColumns_cell E)]
    exact hab
  have hcut := fun r => limitSelectResult_spec (r := r) hbounds (hlimit ▸ h.limit)
  obtain ⟨res, hres, hresValues⟩ := h.finish_plain hcut .reference hfields shards.flatten
  obtain ⟨res', hres', s, hs, hspec⟩ := hmerges Bool E .reference shards shards _ (cons_ne_nil _ _) houts ha htyped
  obtain rfl := ok_unique ((hmerge shards.flatten (by rw [hsort, ← hvalues])).trans hres) hres'
  -- compare the first row of the window
  have hfirst := congrArg (·[0]?) (hresValues.symm.trans hspec)
  simp only [getElem?_map, getElem?_window hcount] at hfirst
  rw [flatten_cons, flatten_singleton] at hs
  rw [getElem?_sorted horder hs] at hfirst
  have htrue : shards.flatten[n]? = some true := by
    rw [flatten_cons, flatten_singleton, getElem?_append_left (by rw [length_replicate]; omega),
      getElem?_replicate_of_lt (Nat.lt_succ_self n)]
  rw [htrue] at hfirst
  have hrow : rowOf E.eval plan.selected true = rowOf E.eval plan.selected false := Option.some.inj hfirst
  refine horder ((le_iff_of_selected ?_).2 hfound)
  exact fun e asName hmem => map_inj_left.1 hrow _ hmem

end Plain

section Merged

variable {db : String} {router : Router} {order : MapOrder}

/-- A planned plain `SELECT` is merged right for all data exactly if the limit is empty or the keys agree. -/
theorem mergesTopRows_iff (hplan : handleSelectStmt (newTableAliasStmtInfo db router order) stmt = .ok plan)
    (hplain : PlainSelect stmt) (hlimit : stmt.limit = limitOf bounds)
    (hbounds : ∀ o c, bounds = some (o, c) → skipped o + c.toNat < 2 ^ 63) :
    MergesTopRows bounds plan ↔ (∃ o, bounds = some (o, 0)) ∨ plan.KeysAgree := by
  obtain ⟨p, fs, hlayout⟩ := selectLayout_of_ok hplan
  exact ⟨hlayout.keysAgree hplain hlimit hbounds, hlayout.mergesTopRows hplain hlimit hbounds⟩

end Merged

/-- `SELECT first AS name, second AS x FROM t ORDER BY name LIMIT bounds`. -/
def selectByName (first second : String) (bounds : Option (Option UInt64 × UInt64)) : SelectStmt Parsed :=
  { fields := [.expr (.column () (bareColumn first)) ⟨"name", "name"⟩,
    .expr (.column () (bareColumn second)) ⟨"x", "x"⟩]
    tableRefs := some (singleTable (unqualifiedTable "t") .empty)
    orderBy := some [⟨.column () (bareColumn "name"), false⟩], limit := limitOf bounds }

theorem selectByName_plain (first second : String) (bounds : Option (Option UInt64 × UInt64)) :
    PlainSelect (selectByName first second bounds) := by
  refine ⟨?_, rfl, rfl⟩
  intro f hf
  rcases mem_cons.1 hf with rfl | hf
  · exact ⟨_, _, rfl, fun name => by simp [Expr.outermost]⟩
  · obtain rfl := mem_singleton.1 hf
    exact ⟨_, _, rfl, fun name => by simp [Expr.outermost]⟩

theorem mergesTopRows_alias : ∃ plan,
    handleSelectStmt (newTableAliasStmtInfo "db" hashRouter .insertion) (selectByName "id" "c" (some (some 1, 2))) =
      .ok plan ∧ MergesTopRows (some (some 1, 2)) plan := by
  refine exists_ok_of (fun plan => plan.orderKeys = plan.foundKeys) ⟨_, rfl, rfl⟩ fun plan hplan hkeys => ?_
  refine (mergesTopRows_iff hplan (selectByName_plain ..) rfl ?_).2 (.inr ?_)
  · rintro o c h
    cases h
    decide
  · unfold SelectPlan.KeysAgree
    exact hkeys ▸ prefix_rfl

/-- `SELECT id AS name, name AS x FROM t ORDER BY name LIMIT 1`.  Of the rows with the ids 4 and 5 the first one comes
first, but the merge goes by the column `name`. -/
theorem order_by_alias_takes_column : ∃ plan,
    handleSelectStmt (newTableAliasStmtInfo "db" hashRouter .insertion) (selectByName "id" "name" (some (none, 1))) =
      .ok plan ∧
    mergeSelectResult .reference plan
      [{ fields := ["name", "x"], values := [[.int64 4, .int64 9]] },
        { fields := ["name", "x"], values := [[.int64 5, .int64 1]] }] =
      .ok { fields := ["name", "x"], values := [[.int64 5, .int64 1]], rowDatas := [[1, 53, 1, 49]] } :=
  ⟨_, rfl, by decide +kernel⟩

end DbProxy
