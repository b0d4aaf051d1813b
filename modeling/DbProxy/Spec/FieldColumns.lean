import DbProxy.Plan.Merge

/-!
# The columns of a result

Planning appends the columns that `GROUP BY` and `ORDER BY` need to the field list.  This file says which column of a
row that a shard returns holds the value of which item: a field of its own at the end, or the last field that goes by
the name of the item.
-/

namespace DbProxy

open Fallible List
variable {name : String} {e : Expr Planned} {fields : List (SelectField Planned)} {p : TableAliasStmtInfo}

/-- The column or the aggregate function that an expression is. -/
def Expr.outermost {P : Phase} : Expr P → Option (ColumnName ⊕ String)
  | .column _ c => some (.inl c)
  | .aggregate f _ => some (.inr f)
  | _ => none

theorem outermost_accept {f : ColumnName → Except Fail (Option ColumnNameDecorator)} {e : Expr Parsed}
    {e' : Expr Planned} (h : e.accept f = .ok e') : e'.outermost = e.outermost := by
  cases e with
  | value | text =>
    cases h
    rfl
  | column a c | paren e | funcCall fn parts | aggregate fn parts | node type parts =>
    obtain ⟨x, _, h⟩ := bind_eq_ok.1 h
    cases h
    rfl
  | binary op l r =>
    obtain ⟨x, _, h⟩ := bind_eq_ok.1 h
    obtain ⟨y, _, h⟩ := bind_eq_ok.1 h
    cases h
    rfl
  | patternIn a e list sel isNot | between a e l r isNot =>
    obtain ⟨x, _, h⟩ := bind_eq_ok.1 h
    obtain ⟨y, _, h⟩ := bind_eq_ok.1 h
    obtain ⟨z, _, h⟩ := bind_eq_ok.1 h
    cases h
    rfl
  | valuesOf c =>
    cases c with
    | none =>
      cases h
      rfl
    | some c =>
      obtain ⟨x, _, h⟩ := bind_eq_ok.1 h
      cases h
      rfl

/-! ### Rows of a shard -/

section Rows

variable {Src : Type} (eval : Expr Planned → Src → Cell)

def SelectField.value (f : SelectField Planned) (r : Src) : Cell :=
  match f with
  | .expr e _ => eval e r
  | .wildcard _ _ => .null

def rowOf (fields : List (SelectField Planned)) (r : Src) : ResultRow := fields.map fun f => f.value eval r

theorem cell_rowOf {fields : List (SelectField Planned)} {i : Nat} {f : SelectField Planned} (h : fields[i]? = some f)
    (r : Src) : (rowOf eval fields r).cell i = .ok (f.value eval r) := by
  unfold ResultRow.cell rowOf
  rw [if_pos (Int.natCast_nonneg i), Int.toNat_natCast, getElem?_map, h]
  rfl

end Rows

/-! ### Names -/

/-- A column of this name that planning left as it was. -/
def Expr.isColumnNamed (name : String) : Expr Planned → Bool
  | .column none c => c.name.l = name
  | _ => false

/-- The expression of a field that goes by this name: its alias, or a column of this name without a qualifier. -/
def SelectField.named (name : String) : SelectField Planned → Option (Expr Planned)
  | .expr e asName => if (asName.l ≠ "" ∧ asName.l = name) ∨ e.isColumnNamed name = true then some e else none
  | .wildcard _ _ => none

def lastNamed (name : String) : List (SelectField Planned) → Option (Expr Planned)
  | [] => none
  | f :: fields => (lastNamed name fields).or (f.named name)

/-- What planning takes an item of `GROUP BY` or `ORDER BY` for. -/
def foundKey (fields : List (SelectField Planned)) : Expr Planned → Expr Planned
  | .column none c => (lastNamed c.name.l fields).getD (.column none c)
  | e => e

theorem SelectField.eq_of_named {f : SelectField Planned} (h : f.named name = some e) :
    ∃ asName, f = .expr e asName ∧ ((asName.l ≠ "" ∧ asName.l = name) ∨ e.isColumnNamed name = true) := by
  cases f with
  | wildcard schema table => cases h
  | expr e' asName =>
    obtain ⟨hnamed, he⟩ := Option.ite_none_right_eq_some.1 h
    cases he
    exact ⟨asName, rfl, hnamed⟩

theorem exists_lastNamed (h : lastNamed name fields = some e) : ∃ f ∈ fields, f.named name = some e := by
  induction fields with
  | nil => cases h
  | cons f fields ih =>
    rcases Option.or_eq_some_iff.1 h with h | ⟨_, h⟩
    · obtain ⟨f', hf', he⟩ := ih h
      exact ⟨f', mem_cons_of_mem _ hf', he⟩
    · exact ⟨f, mem_cons_self, h⟩

theorem lastNamed_eq_none :
    lastNamed name fields = none ↔ ∀ f ∈ fields, f.named name = none := by
  induction fields with
  | nil => simp [lastNamed]
  | cons f fields ih =>
    unfold lastNamed
    rw [Option.or_eq_none_iff, ih, forall_mem_cons, and_comm]

theorem selectFieldIndexes_cons (i : Nat) (m : AssocMap String Nat) (f : SelectField Planned)
    (fields : List (SelectField Planned)) (name : String) :
    ∃ m' : AssocMap String Nat, selectFieldIndexes i m (f :: fields) = selectFieldIndexes (i + 1) m' fields ∧
      m'.get name = if (f.named name).isSome then some i else m.get name := by
  cases f with
  | wildcard schema table => exact ⟨m, rfl, rfl⟩
  | expr e asName =>
    refine ⟨_, rfl, ?_⟩
    have hAlias : (if asName.l ≠ "" then m.set asName.l i else m).get name =
        if asName.l ≠ "" ∧ asName.l = name then some i else m.get name := by
      by_cases hne : asName.l = ""
      · simp [hne]
      · simp [hne, AssocMap.get_set]
    unfold SelectField.named Expr.isColumnNamed
    split
    · next c =>
      rw [AssocMap.get_set, hAlias]
      by_cases hc : c.name.l = name
      · simp [hc]
      · by_cases ha : asName.l ≠ "" ∧ asName.l = name
        · simp [hc, ha]
        · simp [hc, ha]
    · rw [hAlias]
      by_cases ha : asName.l ≠ "" ∧ asName.l = name
      · simp [ha]
      · simp [ha]

theorem selectFieldIndexes_get :
    ∀ {i : Nat} {m : AssocMap String Nat}, match lastNamed name fields with
      | some e => ∃ j asName, (selectFieldIndexes i m fields).get name = some (i + j) ∧
          fields[j]? = some (.expr e asName)
      | none => (selectFieldIndexes i m fields).get name = m.get name := by
  induction fields with
  | nil => exact rfl
  | cons f fields ih =>
    intro i m
    obtain ⟨m', hm', hget⟩ := selectFieldIndexes_cons i m f fields name
    have hlater := @ih (i + 1) m'
    rw [hm']
    unfold lastNamed
    cases hlast : lastNamed name fields with
    | some e =>
      rw [hlast] at hlater
      obtain ⟨j, asName, hindex, hj⟩ := hlater
      exact ⟨j + 1, asName, by rw [hindex, Nat.add_assoc, Nat.add_comm 1], hj⟩
    | none =>
      rw [hlast] at hlater
      rw [Option.none_or]
      cases hnamed : f.named name with
      | none =>
        rw [hnamed] at hget
        exact hlater.trans hget
      | some e =>
        rw [hnamed] at hget
        obtain ⟨asName, rfl, _⟩ := SelectField.eq_of_named hnamed
        exact ⟨0, asName, hlater.trans hget, rfl⟩

/-! ### The layout of a planned `SELECT` -/

/-- How the fields of a planned `SELECT` are laid out; `fs` are the fields of the statement itself. -/
structure SelectLayout (p : TableAliasStmtInfo) (stmt : SelectStmt Parsed) (plan : SelectPlan)
    (fs : List (SelectField Planned)) : Prop where
  fields : Forall₂ (fun a b => a.accept (columnNameRewriteVisitor p) = .ok b) stmt.fields fs
  front : fs <+: plan.stmt.fields
  extras : ∀ f ∈ plan.stmt.fields.drop fs.length, f ∈ extraFields plan.stmt.groupBy ∨
  f ∈ extraFields plan.stmt.orderBy
  all : plan.stmt.fields = fs ++ notSelected (selectFieldIndexes 0 [] fs) (extraFields plan.stmt.groupBy) ++
    notSelected (selectFieldIndexes 0 [] fs) (extraFields plan.stmt.orderBy)
  origin : plan.originColumnCount = fs.length
  count : plan.columnCount = plan.stmt.fields.length
  aggregates : aggregateMergers 0 fs = .ok plan.aggregateFuncs
  groupBy : createSelectFieldsFromByItems p stmt.groupBy = .ok plan.stmt.groupBy
  orderBy : createSelectFieldsFromByItems p stmt.orderBy = .ok plan.stmt.orderBy
  groupColumns : Forall₂ (FoundAt fs.length (selectFieldIndexes 0 [] fs) plan.stmt.fields) plan.groupByColumn
    (extraFields plan.stmt.groupBy)
  orderColumns : Forall₂ (FoundAt fs.length (selectFieldIndexes 0 [] fs) plan.stmt.fields) plan.orderByColumn
    (extraFields plan.stmt.orderBy)
  directions : plan.orderByDirections = (plan.stmt.orderBy.getD []).map ByItem.desc
  limit : rewriteLimit stmt.limit = .ok (plan.offset, plan.count, plan.stmt.limit)
  distinct : plan.stmt.distinct = stmt.distinct

theorem selectLayout_of_ok {stmt : SelectStmt Parsed} {plan : SelectPlan}
    (h : handleSelectStmt p stmt = .ok plan) : ∃ p₁ fs, SelectLayout p₁ stmt plan fs := by
  obtain ⟨hrefs, hfields, hgroup, horder, hextra, hwhere, hhaving, hlimit, hhint, rfl, hsqls⟩ := selectRun_of_ok h
  rename_i tableRefs p₁ p₂ p₃ fields aggregateFuncs groupBy orderBy _ _ _ _ _ _ _ allFields _
  obtain ⟨fs, hfs, hfields⟩ := bind_eq_ok.1 (recoverErr_eq_ok.1 hfields)
  obtain ⟨ms, hms, hfields⟩ := bind_eq_ok.1 hfields
  cases hfields
  have hlength : ∀ items, (extraFields items).length = (items.getD []).length := fun items => length_map _
  rw [← hlength groupBy, ← hlength orderBy] at hextra
  obtain ⟨hall, hgroupColumns, horderColumns⟩ := handleExtraFieldList_spec hextra
  refine ⟨p₁, fields, mapM_eq_ok.1 hfs, ?_, ?_, hall, rfl, rfl, hms, hgroup, horder, hgroupColumns,
    horderColumns, rfl, hlimit, rfl⟩
  · exact ⟨_, by rw [← append_assoc]; exact hall.symm⟩
  · intro f hf
    simp only [hall, append_assoc, drop_left] at hf
    exact (mem_append.1 hf).imp mem_of_mem_filter mem_of_mem_filter

theorem createSelectFieldsFromByItems_forall₂ {items : Option (List (ByItem Parsed))}
    {items' : Option (List (ByItem Planned))} (h : createSelectFieldsFromByItems p items = .ok items') :
    Forall₂ (fun item item' => createSelectFieldFromByItem p item = .ok item') (items.getD []) (items'.getD []) := by
  cases items with
  | none =>
    cases h
    exact .nil
  | some items =>
    obtain ⟨created, hcreated, h⟩ := bind_eq_ok.1 h
    cases h
    exact mapM_eq_ok.1 hcreated

section Found

variable {p : TableAliasStmtInfo} {stmt : SelectStmt Parsed} {plan : SelectPlan} {fs : List (SelectField Planned)}

theorem SelectLayout.exists_expr (h : SelectLayout p stmt plan fs) {f : SelectField Planned} (hf : f ∈ fs)
    {P : Expr Parsed → Prop} (hstmt : ∀ f ∈ stmt.fields, ∃ e asName, f = .expr e asName ∧ P e) :
    ∃ e e' asName, f = .expr e' asName ∧ e.accept (columnNameRewriteVisitor p) = .ok e' ∧ P e := by
  obtain ⟨f₀, hf₀, haccept⟩ := exists_of_mem h.fields.flip hf
  obtain ⟨e, asName, rfl, he⟩ := hstmt f₀ hf₀
  obtain ⟨e', he', haccept⟩ := bind_eq_ok.1 haccept
  cases haccept
  exact ⟨e, e', asName, rfl, he', he⟩

theorem SelectLayout.getElem?_found (h : SelectLayout p stmt plan fs) {e : Expr Planned} {asName : CIStr} {i : Nat}
    (hfound : FoundAt fs.length (selectFieldIndexes 0 [] fs) plan.stmt.fields i (.expr e asName)) :
    ∃ asName', plan.stmt.fields[i]? = some (.expr (foundKey fs e) asName') := by
  generalize hf : SelectField.expr e asName = f at hfound
  cases hfound with
  | @selected c asName' hget =>
    cases hf
    have hspec := @selectFieldIndexes_get c.name.l fs 0 []
    cases hlast : lastNamed c.name.l fs with
    | none =>
      rw [hlast] at hspec
      rw [hspec] at hget
      cases hget
    | some e =>
      rw [hlast] at hspec
      obtain ⟨j, asName, hindex, hj⟩ := hspec
      rw [hindex, Nat.zero_add] at hget
      obtain rfl := Option.some.inj hget
      obtain ⟨more, hmore⟩ := h.front
      have hkey : foundKey fs (.column none c) = e := by simp only [foundKey, hlast, Option.getD_some]
      refine ⟨asName, ?_⟩
      rw [← hmore, getElem?_append_left (List.getElem?_eq_some_iff.1 hj).1, hj, hkey]
  | appended _ hcell hnone =>
    subst hf
    refine ⟨asName, hcell.trans ?_⟩
    unfold foundKey
    split
    · next c =>
      have hspec := @selectFieldIndexes_get c.name.l fs 0 []
      cases hlast : lastNamed c.name.l fs with
      | none => rfl
      | some e =>
        rw [hlast] at hspec
        obtain ⟨j, _, hindex, _⟩ := hspec
        rw [hnone c asName rfl] at hindex
        cases hindex
    · rfl

theorem SelectLayout.cell_found (h : SelectLayout p stmt plan fs) {Src : Type} (eval : Expr Planned → Src → Cell)
    {e : Expr Planned} {asName : CIStr} {i : Nat}
    (hfound : FoundAt fs.length (selectFieldIndexes 0 [] fs) plan.stmt.fields i (.expr e asName)) (r : Src) :
    (rowOf eval plan.stmt.fields r).cell i = .ok (eval (foundKey fs e) r) := by
  obtain ⟨asName', hget⟩ := h.getElem?_found hfound
  exact cell_rowOf eval hget r

end Found

end DbProxy
