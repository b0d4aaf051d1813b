import DbProxy.Spec.FieldNames
import DbProxy.Spec.GroupFields

/-!
# Result columns with wildcards

A wildcard stands for any number of columns, so behind it the columns of a result are not numbered like the fields.
The merge shifts the positions of `GROUP BY` and `ORDER BY` by the number of columns that the result has more than the
statement, which is right behind the last wildcard only; the aggregate functions keep the positions of their fields,
which are right before the first one.
-/

namespace DbProxy

open Fallible List

/-! ### Columns of fields -/

def SelectField.IsWildcard {P : Phase} : SelectField P → Prop
  | .wildcard _ _ => True
  | .expr _ _ => False

/-- How many columns a field has in the result; `wildcard` says it for a wildcard. -/
def SelectField.width {P : Phase} (wildcard : CIStr → CIStr → Nat) : SelectField P → Nat
  | .wildcard schema table => wildcard schema table
  | .expr _ _ => 1

def columnsOf (wildcard : CIStr → CIStr → Nat) (fields : List (SelectField Planned)) : Nat :=
  (fields.map (SelectField.width wildcard)).sum

/-- The first column of the field at position `k`. -/
def resultColumn (wildcard : CIStr → CIStr → Nat) (fields : List (SelectField Planned)) (k : Nat) : Nat :=
  columnsOf wildcard (fields.take k)

theorem columnsOf_append (wildcard : CIStr → CIStr → Nat) (fields fields' : List (SelectField Planned)) :
    columnsOf wildcard (fields ++ fields') = columnsOf wildcard fields + columnsOf wildcard fields' := by
  unfold columnsOf
  rw [map_append, sum_append]

theorem columnsOf_of_forall {wildcard : CIStr → CIStr → Nat} {fields : List (SelectField Planned)}
    (h : ∀ f ∈ fields, ¬ f.IsWildcard) : columnsOf wildcard fields = fields.length := by
  induction fields with
  | nil => rfl
  | cons f fields ih =>
    obtain ⟨hf, hfields⟩ := forall_mem_cons.1 h
    cases f with
    | wildcard schema table => exact absurd trivial hf
    | expr e asName =>
      have := ih hfields
      unfold columnsOf at this ⊢
      rw [map_cons, sum_cons, this, length_cons, Nat.add_comm]
      rfl

theorem columnsOf_two (fields : List (SelectField Planned)) :
    fields.length ≤ columnsOf (fun _ _ => 2) fields ∧
      (columnsOf (fun _ _ => 2) fields = fields.length → ∀ f ∈ fields, ¬ f.IsWildcard) := by
  induction fields with
  | nil => exact ⟨le_rfl, fun _ => nofun⟩
  | cons f fields ih =>
    obtain ⟨hle, hnone⟩ := ih
    have hsum : columnsOf (fun _ _ => 2) (f :: fields) = f.width (fun _ _ => 2) + columnsOf
      (fun _ _ => 2) fields := rfl
    rw [hsum, length_cons, forall_mem_cons]
    cases f with
    | wildcard schema table =>
      have : SelectField.width (P := Planned) (fun _ _ => 2) (.wildcard schema table) = 2 := rfl
      exact ⟨by omega, fun h => by omega⟩
    | expr e asName =>
      have : SelectField.width (P := Planned) (fun _ _ => 2) (.expr e asName) = 1 := rfl
      exact ⟨by omega, fun h => ⟨id, hnone (by omega)⟩⟩

theorem columnsOf_one (fields : List (SelectField Planned)) : columnsOf (fun _ _ => 1) fields = fields.length := by
  induction fields with
  | nil => rfl
  | cons f fields ih =>
    have hf : f.width (fun _ _ => 1) = 1 := by cases f <;> rfl
    have hsum : columnsOf (fun _ _ => 1) (f :: fields) = f.width (fun _ _ => 1) + columnsOf
      (fun _ _ => 1) fields := rfl
    rw [hsum, hf, ih, length_cons, Nat.add_comm]

/-! ### Positions -/

section Positions

variable (plan : SelectPlan) (stmt : SelectStmt Parsed)

def SelectPlan.groupColumnsIn (r : Result) : List Int :=
  plan.groupByColumn.map fun (index : Nat) => (index : Int) + deltaColumnCount plan r

/-- Column `column` of the result is that of a field that the item means. -/
def SelectPlan.Addresses (wildcard : CIStr → CIStr → Nat) (aliasFirst : String → Prop) (item : ByItem Parsed)
    (column : Int) : Prop :=
  ∃ k, plan.Holds stmt aliasFirst item k ∧ column = resultColumn wildcard plan.stmt.fields k

/-- Every aggregate function, every item of `GROUP BY` and every item of `ORDER BY` is looked for in its column. -/
structure SelectPlan.AddressesColumns (hasColumn : String → Prop) (wildcard : CIStr → CIStr → Nat) (r : Result) :
    Prop where
  aggregates : ∀ i f, (i, f) ∈ plan.aggregateFuncs → i = resultColumn wildcard plan.stmt.fields i
  group : Forall₂ (plan.Addresses stmt wildcard fun name => ¬ hasColumn name) (stmt.groupBy.getD [])
    (plan.groupColumnsIn r)
  order : Forall₂ (plan.Addresses stmt wildcard fun _ => True) (stmt.orderBy.getD [])
    ((sortKeys plan r).map SortKey.column)

/-- No wildcard stands behind the last field that goes by the name of the item. -/
def NoWildcardBehind (item : ByItem Parsed) : Prop :=
  ∀ c, item.expr = .column () c → ¬ c.Qualified → ∀ front f back, stmt.fields = front ++ f :: back →
    f.GoesBy c.name.l → (∀ g ∈ back, ¬ g.GoesBy c.name.l) → ∀ g ∈ back, ¬ g.IsWildcard

/-- No wildcard stands before an aggregate function. -/
def NoWildcardBefore : Prop :=
  ∀ front f parts asName back, stmt.fields = front ++ .expr (.aggregate f parts) asName :: back →
  ∀ g ∈ front, ¬ g.IsWildcard

end Positions

section Layout

variable {p : TableAliasStmtInfo} {stmt : SelectStmt Parsed} {plan : SelectPlan} {fs : List (SelectField Planned)}
variable {g : Nat} {aliasFirst : String → Prop} {item : ByItem Parsed} {item' : ByItem Planned}

theorem isWildcard_accept {f : SelectField Parsed} {f' : SelectField Planned}
    (h : f.accept (columnNameRewriteVisitor p) = .ok f') : f'.IsWildcard ↔ f.IsWildcard := by
  cases f with
  | wildcard schema table =>
    cases h
    exact Iff.rfl
  | expr e asName =>
    obtain ⟨e', _, h⟩ := bind_eq_ok.1 h
    cases h
    exact Iff.rfl

theorem forall_not_wildcard_iff {fields : List (SelectField Parsed)} {fs : List (SelectField Planned)}
    (h : Forall₂ (fun a b => a.accept (columnNameRewriteVisitor p) = .ok b) fields fs) :
    (∀ f ∈ fs, ¬ f.IsWildcard) ↔ ∀ f ∈ fields, ¬ f.IsWildcard := by
  constructor
  · intro hfs f hf
    obtain ⟨f', hf', haccept⟩ := exists_of_mem h hf
    exact fun hwild => hfs f' hf' ((isWildcard_accept haccept).2 hwild)
  · intro hfields f' hf'
    obtain ⟨f, hf, haccept⟩ := exists_of_mem h.flip hf'
    exact fun hwild => hfields f hf ((isWildcard_accept haccept).1 hwild)

section

variable (h : SelectLayout p stmt plan fs)

include h

theorem SelectLayout.mem_drop (hg : g ≤ fs.length) {f : SelectField Planned}
    (hf : f ∈ plan.stmt.fields.drop g) (hwild : f.IsWildcard) : f ∈ fs.drop g := by
  rw [h.fields_eq, drop_append_of_le_length hg] at hf
  rcases mem_append.1 hf with hf | hf
  · exact hf
  · obtain ⟨e, asName, rfl, _⟩ := h.appended hf
    exact absurd hwild id

theorem SelectLayout.shift_eq {wildcard : CIStr → CIStr → Nat} {r : Result}
    (hr : r.fields.length = columnsOf wildcard plan.stmt.fields) (hg : g ≤ plan.stmt.fields.length)
    (hbehind : ∀ f ∈ plan.stmt.fields.drop g, ¬ f.IsWildcard) :
    (g : Int) + deltaColumnCount plan r = resultColumn wildcard plan.stmt.fields g := by
  have hsplit : columnsOf wildcard plan.stmt.fields =
      columnsOf wildcard (plan.stmt.fields.take g) + columnsOf wildcard (plan.stmt.fields.drop g) := by
    rw [← columnsOf_append, take_append_drop]
  rw [columnsOf_of_forall hbehind, length_drop] at hsplit
  unfold deltaColumnCount resultColumn
  rw [hr, h.count]
  omega

theorem SelectLayout.le_of_holds {c : ColumnName} (hexpr : item.expr = .column () c) (hbare : ¬ c.Qualified) {k : Nat}
    (hget : (selectFieldIndexes 0 [] fs).get c.name.l = some g) (hk : plan.Holds stmt aliasFirst item k) : k ≤ g := by
  obtain ⟨e, asName, hget', hmeans⟩ := hk
  rw [hexpr] at hmeans
  obtain ⟨_, halias, hcolumn⟩ := hmeans
  have hgoes : (asName.l ≠ "" ∧ asName.l = c.name.l) ∨ e.isColumnNamed c.name.l = true := by
    by_cases hm : MeansAlias stmt aliasFirst c.name.l
    · exact .inl (halias hbare hm)
    · exact .inr (hcolumn hbare hm)
  have hnamed : ((SelectField.expr e asName).named c.name.l).isSome := by
    unfold SelectField.named
    simp [hgoes]
  rcases Nat.lt_or_ge k fs.length with hlt | hge
  · -- a field of the statement
    rw [h.fields_eq, getElem?_append_left hlt] at hget'
    rcases selectFieldIndexes_last hget with ⟨hnil, _⟩ | ⟨front, f, back, hfs, hg, _, hback⟩
    · cases hnil
    · by_contra hkg
      have hmem : SelectField.expr e asName ∈ back := by
        have hdrop : fs.drop (front.length + 1) = back := by
          rw [hfs]
          simp
        rw [← hdrop]
        refine mem_iff_getElem?.2 ⟨k - (front.length + 1), ?_⟩
        rw [getElem?_drop, ← hget']
        congr 1
        omega
      exact hback _ hmem hnamed
  · -- an appended one: it would not have been appended
    have hmem : SelectField.expr e asName ∈ plan.stmt.fields.drop fs.length := by
      refine mem_iff_getElem?.2 ⟨k - fs.length, ?_⟩
      rw [getElem?_drop, Nat.add_sub_cancel' hge, hget']
    have hnot : ∀ items, SelectField.expr e asName ∉ notSelected (selectFieldIndexes 0 [] fs)
        (extraFields items) := by
      intro items hmem
      obtain ⟨hextra, hnone⟩ := mem_filter.1 hmem
      obtain ⟨item', _, heq⟩ := mem_map.1 hextra
      cases heq
      rcases hgoes with ⟨hne, _⟩ | hcolumn
      · exact hne rfl
      · unfold Expr.isColumnNamed at hcolumn
        split at hcolumn
        · next c' heq =>
          rw [heq] at hnone
          have hname : c'.name.l = c.name.l := of_decide_eq_true hcolumn
          simp [selectedAt, hname, hget] at hnone
        · cases hcolumn
    rw [h.all, append_assoc, drop_left] at hmem
    rcases mem_append.1 hmem with hmem | hmem
    · exact absurd hmem (hnot _)
    · exact absurd hmem (hnot _)

theorem SelectLayout.not_wildcard_behind (hitem : createSelectFieldFromByItem p item = .ok item')
    (hfound : FoundAt fs.length (selectFieldIndexes 0 [] fs) plan.stmt.fields g (.expr item'.expr .empty))
    (hbehind : NoWildcardBehind stmt item) : ∀ f ∈ plan.stmt.fields.drop g, ¬ f.IsWildcard := by
  generalize hfield : SelectField.expr item'.expr .empty = field at hfound
  cases hfound with
  | appended hle _ _ =>
    intro f hf hwild
    obtain ⟨d, hd⟩ := Nat.exists_eq_add_of_le hle
    rw [hd, ← drop_drop] at hf
    have hmem := h.mem_drop le_rfl (mem_of_mem_drop hf) hwild
    rw [drop_length] at hmem
    cases hmem
  | @selected c asName hget =>
    obtain ⟨hexpr, hbare⟩ : item.expr = .column () c ∧ ¬ c.Qualified := by
      have hexpr' : item'.expr = .column none c := (SelectField.expr.inj hfield).1
      rcases createSelectFieldFromByItem_cases hitem with ⟨_, _, _, heq⟩ | ⟨_, _, _, heq, _⟩ | ⟨c', hexpr, heq, hbare⟩
      · cases hexpr'.symm.trans heq
      · cases hexpr'.symm.trans heq
      · cases hexpr'.symm.trans heq
        exact ⟨hexpr, hbare⟩
    obtain ⟨front, f, back, e, asName, hfields, hg, hgoes, hback, _, _⟩ := h.last_of_get hget
    have hlength : front.length < fs.length := by
      rw [← h.fields.length_eq, hfields]
      simp
    intro x hx hwild
    have hmem := h.mem_drop (by omega) hx hwild
    have hrest : ∀ y ∈ stmt.fields.drop g, ¬ y.IsWildcard := by
      rw [hfields, hg, drop_left]
      refine forall_mem_cons.2 ⟨?_, hbehind c hexpr hbare front f back hfields hgoes hback⟩
      cases f with
      | wildcard schema table => exact absurd hgoes (Or.rec id id)
      | expr e asName => exact id
    exact (forall_not_wildcard_iff (forall₂_drop g h.fields)).2 hrest x hmem hwild

end

def resultFor (wildcard : CIStr → CIStr → Nat) (fields : List (SelectField Planned)) : Result :=
  { fields := replicate (columnsOf wildcard fields) "", values := [] }

/-- If an item is looked for in its column however many columns the wildcards have, it was found right, and no
wildcard stands behind the field. -/
theorem SelectLayout.found_of_addresses (h : SelectLayout p stmt plan fs)
    (hitem : createSelectFieldFromByItem p item = .ok item')
    (hfound : FoundAt fs.length (selectFieldIndexes 0 [] fs) plan.stmt.fields g (.expr item'.expr .empty))
    (haddresses : ∀ wildcard, plan.Addresses stmt wildcard aliasFirst item
      (g + deltaColumnCount plan (resultFor wildcard plan.stmt.fields))) :
    LastMeant stmt aliasFirst item ∧ NoWildcardBehind stmt item := by
  have hdelta : ∀ wildcard, deltaColumnCount plan (resultFor wildcard plan.stmt.fields) =
      columnsOf wildcard plan.stmt.fields - plan.stmt.fields.length := by
    intro wildcard
    unfold deltaColumnCount resultFor
    rw [length_replicate, h.count]
  have hlt : ∀ {k}, plan.Holds stmt aliasFirst item k → k < plan.stmt.fields.length := by
    rintro k ⟨e, asName, hk, _⟩
    exact (List.getElem?_eq_some_iff.1 hk).1
  refine ⟨?_, ?_⟩
  · -- with one column for every field the columns are numbered like the fields
    obtain ⟨k, hholds, hcolumn⟩ := haddresses fun _ _ => 1
    have hk := hlt hholds
    rw [hdelta, columnsOf_one, resultColumn, columnsOf_one, length_take] at hcolumn
    have hgk : g = k := by omega
    exact (h.holds_iff aliasFirst hitem hfound).1 (hgk ▸ hholds)
  · -- with two columns for a wildcard the shift goes too far
    intro c hexpr hbare front f back hfields hgoes hback x hx
    obtain ⟨k, hholds, hcolumn⟩ := haddresses fun _ _ => 2
    have hget : (selectFieldIndexes 0 [] fs).get c.name.l = some g := by
      obtain ⟨i, hi⟩ := Option.isSome_iff_exists.1 ((selected_isSome_iff h.fields c.name.l).2
        ⟨f, hfields ▸ mem_append_cons_self, hgoes⟩)
      rcases createSelectFieldFromByItem_cases hitem with ⟨_, _, heq, _⟩ | ⟨_, _, heq, _, hqualified⟩ | ⟨_,
        heq, hexpr', _⟩
      · cases hexpr.symm.trans heq
      · cases hexpr.symm.trans heq
        exact absurd hqualified hbare
      · cases hexpr.symm.trans heq
        rw [hexpr'] at hfound
        cases hfound with
        | selected hget => exact hget
        | appended _ _ hnone => exact absurd (hi.symm.trans (hnone c _ rfl)) nofun
    have hkg := h.le_of_holds hexpr hbare hget hholds
    obtain ⟨front', f', back', e, asName, hfields', rfl, hgoes', hback', hi, _⟩ := h.last_of_get hget
    obtain ⟨rfl, rfl, rfl⟩ := split_unique (hfields'.symm.trans hfields) hgoes' hgoes hback' hback
    have hsplit : columnsOf (fun _ _ => 2) plan.stmt.fields = columnsOf (fun _ _ => 2)
      (plan.stmt.fields.take front'.length) + columnsOf (fun _ _ => 2) (plan.stmt.fields.drop front'.length) := by
      rw [← columnsOf_append, take_append_drop]
    have hmono : columnsOf (fun _ _ => 2) (plan.stmt.fields.take k) ≤
        columnsOf (fun _ _ => 2) (plan.stmt.fields.take front'.length) := by
      obtain ⟨rest, hrest⟩ := take_prefix_take_left hkg (l := plan.stmt.fields)
      rw [← hrest, columnsOf_append]
      exact Nat.le_add_right _ _
    obtain ⟨hle, hnone⟩ := columnsOf_two (plan.stmt.fields.drop front'.length)
    rw [hdelta, resultColumn] at hcolumn
    rw [length_drop] at hle hnone
    have hdrop := hnone (by omega)
    have hfs : ∀ f ∈ fs.drop front'.length, ¬ f.IsWildcard := by
      intro f hf
      rw [h.fields_eq, drop_append] at hdrop
      exact hdrop f (mem_append_left _ hf)
    rw [forall_not_wildcard_iff (forall₂_drop front'.length h.fields), hfields, drop_left] at hfs
    exact hfs x (mem_cons_of_mem _ hx)

theorem SelectLayout.aggregates_iff (h : SelectLayout p stmt plan fs) :
    (∀ wildcard i f, (i, f) ∈ plan.aggregateFuncs → i = resultColumn wildcard plan.stmt.fields i) ↔
    NoWildcardBefore stmt := by
  obtain ⟨_, _, hmem⟩ := aggregateMergers_spec h.aggregates
  simp only [Nat.zero_add] at hmem
  have htake : ∀ i ≤ fs.length, plan.stmt.fields.take i = fs.take i := by
    intro i hi
    rw [h.fields_eq, take_append_of_le_length hi]
  constructor
  · intro hcolumns front fn parts asName back hfields
    -- the function has a merger, because the statement was planned
    have hsplit := h.fields
    rw [hfields] at hsplit
    obtain ⟨front', f', back', rfl, hfront, haccept, _⟩ := exists_of_forall₂_append hsplit
    obtain ⟨e', he', hf'⟩ := bind_eq_ok.1 haccept
    obtain ⟨parts', _, he'⟩ := bind_eq_ok.1 he'
    cases he'
    cases hf'
    obtain ⟨m, hm⟩ := exists_merger_of_mem h.aggregates mem_append_cons_self
    have hi := hcolumns (fun _ _ => 2) front'.length m ((hmem _ _).2 ⟨fn, parts', asName, by simp, hm⟩)
    rw [resultColumn, htake _ (by simp), take_left] at hi
    exact (forall_not_wildcard_iff hfront).1 ((columnsOf_two front').2 hi.symm)
  · intro hbefore wildcard i f hentry
    obtain ⟨fn, parts, asName, hi, _⟩ := (hmem i f).1 hentry
    obtain ⟨hlt, hget⟩ := List.getElem?_eq_some_iff.1 hi
    have hsplit : fs = fs.take i ++ .expr (.aggregate fn parts) asName :: fs.drop (i + 1) := by
      rw [← hget, ← drop_eq_getElem_cons, take_append_drop]
    have hfields := h.fields.flip
    rw [hsplit] at hfields
    obtain ⟨front, f', back, hstmt, hfront, haccept, _⟩ := exists_of_forall₂_append hfields
    obtain ⟨parts', rfl⟩ : ∃ parts', f' = .expr (.aggregate fn parts') asName := by
      cases f' with
      | wildcard schema table => cases haccept
      | expr e asName' =>
        obtain ⟨e', he', heq⟩ := bind_eq_ok.1 haccept
        cases heq
        have houter := outermost_accept he'
        cases e with
        | aggregate fn' parts' =>
          cases houter
          exact ⟨parts', rfl⟩
        | _ => cases houter
    have hnone := (forall_not_wildcard_iff hfront.flip).2 (hbefore front fn parts' asName back hstmt)
    rw [resultColumn, htake i hlt.le, columnsOf_of_forall hnone, length_take]
    omega

theorem SelectLayout.addresses_iff (h : SelectLayout p stmt plan fs)
    {items : Option (List (ByItem Parsed))} {items' : Option (List (ByItem Planned))} {columns : List Nat}
    (hitems : createSelectFieldsFromByItems p items = .ok items')
    (hfound : Forall₂ (FoundAt fs.length (selectFieldIndexes 0 [] fs) plan.stmt.fields) columns
      (extraFields items')) : (∀ wildcard r, r.fields.length = columnsOf wildcard plan.stmt.fields →
      Forall₂ (plan.Addresses stmt wildcard aliasFirst) (items.getD [])
        (columns.map fun (index : Nat) => (index : Int) + deltaColumnCount plan r)) ↔
      ∀ item ∈ items.getD [], LastMeant stmt aliasFirst item ∧ NoWildcardBehind stmt item := by
  simp only [forall₂_map_right_iff]
  simp only [forall₂_iff_getElem?]
  obtain ⟨hlength, hpairs⟩ := forall₂_iff_getElem?.1 (found_items hitems hfound)
  constructor
  · intro haddresses item hitem
    obtain ⟨j, hj⟩ := mem_iff_getElem?.1 hitem
    have hlt : j < columns.length := hlength ▸ (List.getElem?_eq_some_iff.1 hj).1
    obtain ⟨item', hcreated, hfoundAt⟩ := hpairs j item columns[j] hj (getElem?_eq_getElem hlt)
    refine h.found_of_addresses hcreated hfoundAt fun wildcard => ?_
    have hr : (resultFor wildcard plan.stmt.fields).fields.length = columnsOf wildcard plan.stmt.fields :=
      length_replicate
    exact (haddresses wildcard _ hr).2 j item columns[j] hj (getElem?_eq_getElem hlt)
  · intro hright wildcard r hr
    refine ⟨hlength, fun j item g hj hg => ?_⟩
    obtain ⟨item', hcreated, hfoundAt⟩ := hpairs j item g hj hg
    obtain ⟨hmeant, hbehind⟩ := hright item (mem_of_getElem? hj)
    have hholds := (h.holds_iff aliasFirst hcreated hfoundAt).2 hmeant
    have hholds' := hholds
    obtain ⟨e, asName, hget, _⟩ := hholds'
    exact ⟨g, hholds, h.shift_eq hr (List.getElem?_eq_some_iff.1 hget).1.le
      (h.not_wildcard_behind hcreated hfoundAt hbehind)⟩

/-- Aggregate functions, `GROUP BY` and `ORDER BY` are looked for in their columns, however many columns the wildcards
have, exactly if no wildcard stands before a function, and the last field that goes by the name of an item is one that
the item means, with no wildcard behind it. -/
theorem wildcard_columns_iff (hasColumn : String → Prop) (hplan : handleSelectStmt p stmt = .ok plan) :
    (∀ wildcard r, r.fields.length = columnsOf wildcard plan.stmt.fields →
      plan.AddressesColumns stmt hasColumn wildcard r) ↔
    NoWildcardBefore stmt ∧
      (∀ item ∈ stmt.groupBy.getD [], LastMeant stmt (fun name => ¬ hasColumn name) item ∧
        NoWildcardBehind stmt item) ∧
      ∀ item ∈ stmt.orderBy.getD [], LastMeant stmt (fun _ => True) item ∧ NoWildcardBehind stmt item := by
  obtain ⟨p₁, fs, h⟩ := selectLayout_of_ok hplan
  have hsort : ∀ r, (sortKeys plan r).map SortKey.column =
      plan.orderByColumn.map fun (index : Nat) => (index : Int) + deltaColumnCount plan r := by
    intro r
    have hlength : plan.orderByDirections.length = plan.orderByColumn.length := by
      rw [h.directions, length_map, h.orderColumns.length_eq, extraFields, length_map]
    unfold sortKeys
    refine ext_getElem (by simp [hlength]) fun i hi hi' => ?_
    simp
  rw [← h.aggregates_iff, ← h.addresses_iff h.groupBy h.groupColumns, ← h.addresses_iff h.orderBy h.orderColumns]
  constructor
  · intro hall
    refine ⟨fun wildcard i f hentry => ?_, fun wildcard r hr => (hall wildcard r hr).group, fun wildcard r hr => ?_⟩
    · have hr : (resultFor wildcard plan.stmt.fields).fields.length = columnsOf wildcard plan.stmt.fields :=
        length_replicate
      exact (hall wildcard _ hr).aggregates i f hentry
    · rw [← hsort]
      exact (hall wildcard r hr).order
  · rintro ⟨haggregates, hgroup, horder⟩ wildcard r hr
    exact ⟨haggregates wildcard, hgroup wildcard r hr, hsort r ▸ horder wildcard r hr⟩

end Layout

/-- `SELECT … FROM t ORDER BY name`. -/
def selectOrdered (fields : List (SelectField Parsed)) (name : String) : SelectStmt Parsed :=
  { fields, tableRefs := some (singleTable (unqualifiedTable "t") .empty)
    orderBy := some [⟨.column () (bareColumn name), false⟩] }

/-- `SELECT *, a AS b FROM t ORDER BY b`. -/
def selectBehindWildcard : SelectStmt Parsed :=
  selectOrdered [.wildcard .empty .empty, .expr (.column () (bareColumn "a")) ⟨"b", "b"⟩] "b"

theorem wildcard_columns_iff_behind : ∃ plan,
    handleSelectStmt (newTableAliasStmtInfo "db" hashRouter .insertion) selectBehindWildcard = .ok plan ∧
    ∀ wildcard r, r.fields.length = columnsOf wildcard plan.stmt.fields →
      plan.AddressesColumns selectBehindWildcard (· ∈ ["id", "a"]) wildcard r := by
  have hlast : ∀ front f back, selectBehindWildcard.fields = front ++ f :: back → f.GoesBy "b" →
      f = .expr (.column () (bareColumn "a")) ⟨"b", "b"⟩ ∧ back = [] := by
    intro front f back hfields hgoes
    match front, hfields with
    | [], hfields =>
      cases hfields
      exact absurd hgoes (Or.rec id id)
    | [_], hfields =>
      cases hfields
      exact ⟨rfl, rfl⟩
    | _ :: _ :: _, hfields => simp [selectBehindWildcard, selectOrdered] at hfields
  refine exists_ok ⟨_, rfl⟩ fun plan hplan => (wildcard_columns_iff _ hplan).2
    ⟨?_, fun item hitem => ?_, fun item hitem => ?_⟩
  · intro front fn parts asName back hfields
    match front, hfields with
    | [], hfields => cases hfields
    | [_], hfields => cases hfields
    | _ :: _ :: _, hfields => simp [selectBehindWildcard, selectOrdered] at hfields
  · cases hitem
  · obtain rfl := mem_singleton.1 hitem
    constructor
    · rintro c hc _ f ⟨front, back, hfields, hgoes, _⟩
      cases hc
      obtain ⟨rfl, _⟩ := hlast front f back hfields hgoes
      exact ⟨fun _ => ⟨by decide, rfl⟩,
        fun hnot => absurd ⟨trivial, _, mem_cons_of_mem _ mem_cons_self, by decide, rfl⟩ hnot⟩
    · intro c hc _ front f back hfields hgoes _ x hx
      cases hc
      obtain ⟨_, rfl⟩ := hlast front f back hfields hgoes
      cases hx

/-- `SELECT a, t.* FROM t ORDER BY a`, where `t` has two columns: the rows have three columns, and are sorted by the
second one. -/
theorem order_by_shifted : ∃ plan,
    handleSelectStmt (newTableAliasStmtInfo "db" hashRouter .insertion)
      (selectOrdered [.expr (.column () (bareColumn "a")) .empty, .wildcard .empty ⟨"t", "t"⟩] "a") = .ok plan ∧
    columnsOf (fun _ _ => 2) plan.stmt.fields = 3 ∧
    (sortKeys plan { fields := ["a", "id", "a"], values := [] }).map SortKey.column = [1] ∧
    ¬ plan.AddressesColumns
      (selectOrdered [.expr (.column () (bareColumn "a")) .empty, .wildcard .empty ⟨"t", "t"⟩] "a")
      (· ∈ ["id", "a"]) (fun _ _ => 2) { fields := ["a", "id", "a"], values := [] } := by
  refine ⟨_, rfl, rfl, rfl, fun h => ?_⟩
  obtain ⟨⟨k, ⟨e, asName, hget, _⟩, hcolumn⟩, _⟩ := forall₂_cons.1 h.order
  match k, hget, hcolumn with
  | 0, _, hcolumn => exact absurd hcolumn (by decide)
  | 1, hget, _ => cases hget

end DbProxy
