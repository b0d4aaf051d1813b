import DbProxy.Spec.FieldColumns
import DbProxy.Spec.IntegerKeys

/-!
# Names in `GROUP BY` and `ORDER BY`

An item without a qualifier can mean a field by its alias or a column of the tables.  `ORDER BY` takes the alias
first, `GROUP BY` the column.  The planner has one map for both, with aliases and column names, in which a later field
takes the place of an earlier one: an item is found right exactly if the last field that goes by its name is one that
the item means (`names_resolved_iff`).
-/

namespace DbProxy

open Fallible List
variable {p : TableAliasStmtInfo} {e' : Expr Planned} {name : String} {f : SelectField Parsed}
  {f' : SelectField Planned} {α : Type} {P : α → Prop} {a : α}

/-! ### Qualified columns -/

def ColumnName.Qualified (c : ColumnName) : Prop := ¬ (c.schema.o = "" ∧ c.table.l = "")

instance (c : ColumnName) : Decidable c.Qualified := inferInstanceAs (Decidable (¬ _))

theorem needCreateColumnNameExprDecoratorInField_isSome {c : ColumnName}
    {d : Option ColumnNameDecorator} (h : needCreateColumnNameExprDecoratorInField p c = .ok d) :
    d.isSome = decide c.Qualified := by
  unfold needCreateColumnNameExprDecoratorInField at h
  split at h
  · next hbare =>
    cases h
    exact (decide_eq_false (not_not_intro hbare)).symm
  · next hqualified =>
    obtain ⟨r, hr, h⟩ := bind_eq_ok.1 h
    unfold TableAliasStmtInfo.getSettedRuleFromColumnInfo at hr
    rw [if_neg hqualified] at hr
    obtain ⟨rule, _, hr⟩ := bind_eq_ok.1 hr
    cases hr
    cases h
    exact (decide_eq_true hqualified).symm

theorem columnNameRewriteVisitor_isSome (p : TableAliasStmtInfo) (c : ColumnName) :
    (Post.ok Fail).holds (columnNameRewriteVisitor p c) fun d => d.isSome = decide c.Qualified := by
  intro d hd
  unfold columnNameRewriteVisitor at hd
  split at hd
  · next hneed =>
    cases hd
    exact needCreateColumnNameExprDecoratorInField_isSome hneed
  · cases hd
  · cases hd

theorem createSelectFieldFromByItem_cases {item : ByItem Parsed} {item' : ByItem Planned}
    (h : createSelectFieldFromByItem p item = .ok item') :
    (∃ fnName parts, item.expr = .funcCall fnName parts ∧ item'.expr = (Expr.funcCall fnName parts).untouched) ∨
    (∃ c d, item.expr = .column () c ∧ item'.expr = .column (some d) c ∧ c.Qualified) ∨
    ∃ c, item.expr = .column () c ∧ item'.expr = .column none c ∧ ¬ c.Qualified := by
  unfold createSelectFieldFromByItem at h
  split at h
  · next fnName parts hexpr =>
    split at h
    · cases h
      exact .inl ⟨fnName, parts, hexpr, rfl⟩
    · cases h
  · next a c hexpr =>
    obtain ⟨d, hd, h⟩ := bind_eq_ok.1 h
    cases h
    have hsome := needCreateColumnNameExprDecoratorInField_isSome hd
    cases d with
    | some d => exact .inr (.inl ⟨c, d, hexpr, rfl, of_decide_eq_true hsome.symm⟩)
    | none => exact .inr (.inr ⟨c, hexpr, rfl, of_decide_eq_false hsome.symm⟩)
  · cases h

/-! ### Names of fields -/

def SelectField.HasAlias {P : Phase} (name : String) : SelectField P → Prop
  | .wildcard _ _ => False
  | .expr _ asName => asName.l ≠ "" ∧ asName.l = name

def SelectField.NamesColumn (name : String) : SelectField Parsed → Prop
  | .wildcard _ _ => False
  | .expr e _ => ∃ c, e = .column () c ∧ ¬ c.Qualified ∧ c.name.l = name

def SelectField.GoesBy (name : String) (f : SelectField Parsed) : Prop := f.HasAlias name ∨ f.NamesColumn name

theorem isColumnNamed_accept {e : Expr Parsed} (h : e.accept (columnNameRewriteVisitor p) = .ok e') :
    e'.isColumnNamed name = true ↔ ∃ c, e = .column () c ∧ ¬ c.Qualified ∧ c.name.l = name := by
  have houter := outermost_accept h
  cases e with
  | column a c =>
    obtain ⟨d, hd, h⟩ := bind_eq_ok.1 h
    cases h
    have hsome := columnNameRewriteVisitor_isSome p c d hd
    cases d with
    | none =>
      have hbare : ¬ c.Qualified := of_decide_eq_false hsome.symm
      simp [Expr.isColumnNamed, hbare]
    | some d =>
      have hqualified : c.Qualified := of_decide_eq_true hsome.symm
      simp [Expr.isColumnNamed, hqualified]
  | _ =>
    refine iff_of_false ?_ nofun
    unfold Expr.isColumnNamed
    split
    · cases houter
    · exact Bool.false_ne_true

theorem named_accept (h : f.accept (columnNameRewriteVisitor p) = .ok f') :
    (f'.named name).isSome ↔ f.GoesBy name := by
  cases f with
  | wildcard schema table =>
    cases h
    exact iff_of_false Bool.false_ne_true (Or.rec id id)
  | expr e asName =>
    obtain ⟨e', he', h⟩ := bind_eq_ok.1 h
    cases h
    simp only [SelectField.named, SelectField.GoesBy, SelectField.HasAlias, SelectField.NamesColumn,
      ← isColumnNamed_accept he']
    split
    · next hnamed => exact iff_of_true rfl hnamed
    · next hnamed => exact iff_of_false Bool.false_ne_true hnamed

theorem selected_isSome_iff {fields : List (SelectField Parsed)} {fs : List (SelectField Planned)}
    (h : Forall₂ (fun a b => a.accept (columnNameRewriteVisitor p) = .ok b) fields fs) (name : String) :
    ((selectFieldIndexes 0 [] fs).get name).isSome ↔ ∃ f ∈ fields, f.GoesBy name := by
  have hget : ((selectFieldIndexes 0 [] fs).get name).isSome ↔ lastNamed name fs ≠ none := by
    have hspec := @selectFieldIndexes_get name fs 0 []
    split at hspec
    · next hlast =>
      obtain ⟨j, asName, hj, _⟩ := hspec
      simp [hj, hlast]
    · next hlast => simp [hspec, hlast]
  have hlast : lastNamed name fs ≠ none ↔ ∃ f ∈ fs, (f.named name).isSome := by
    simp [lastNamed_eq_none, Option.isSome_iff_ne_none]
  rw [hget, hlast]
  constructor
  · rintro ⟨f', hf', hnamed⟩
    obtain ⟨f, hf, haccept⟩ := exists_of_mem h.flip hf'
    exact ⟨f, hf, (named_accept haccept).1 hnamed⟩
  · rintro ⟨f, hf, hnamed⟩
    obtain ⟨f', hf', haccept⟩ := exists_of_mem h hf
    exact ⟨f', hf', (named_accept haccept).2 hnamed⟩

theorem namesColumn_accept {asName : CIStr} (h : f.accept (columnNameRewriteVisitor p) = .ok (.expr e' asName)) :
    e'.isColumnNamed name = true ↔ f.NamesColumn name := by
  cases f with
  | wildcard schema table => cases h
  | expr e asName =>
    obtain ⟨e', he', h⟩ := bind_eq_ok.1 h
    cases h
    exact isColumnNamed_accept he'

theorem hasAlias_accept (h : f.accept (columnNameRewriteVisitor p) = .ok f') :
    f'.HasAlias name ↔ f.HasAlias name := by
  cases f with
  | wildcard schema table =>
    cases h
    exact Iff.rfl
  | expr e asName =>
    obtain ⟨e', _, h⟩ := bind_eq_ok.1 h
    cases h
    exact Iff.rfl

/-! ### The last field that goes by a name -/

def LastWith {α : Type} (P : α → Prop) (l : List α) (a : α) : Prop :=
  ∃ front back, l = front ++ a :: back ∧ P a ∧ ∀ b ∈ back, ¬ P b

theorem LastWith.mem {l : List α} (h : LastWith P l a) : a ∈ l ∧ P a := by
  obtain ⟨front, back, rfl, hP, _⟩ := h
  exact ⟨mem_append_cons_self, hP⟩

theorem split_unique {front front' back back' : List α} {b : α}
    (heq : front ++ a :: back = front' ++ b :: back') (hPa : P a) (hPb : P b) (hback : ∀ x ∈ back, ¬ P x)
    (hback' : ∀ x ∈ back', ¬ P x) : front = front' ∧ a = b ∧ back = back' := by
  rcases append_eq_append_iff.1 heq with ⟨between, hfront, hrest⟩ | ⟨between, hfront, hrest⟩
  · cases between with
    | nil =>
      obtain ⟨rfl, rfl⟩ := List.cons.inj hrest
      exact ⟨(hfront.trans (append_nil _)).symm, rfl, rfl⟩
    | cons x between =>
      obtain ⟨_, rfl⟩ := List.cons.inj hrest
      exact absurd hPb (hback b mem_append_cons_self)
  · cases between with
    | nil =>
      obtain ⟨rfl, rfl⟩ := List.cons.inj hrest
      exact ⟨hfront.trans (append_nil _), rfl, rfl⟩
    | cons x between =>
      obtain ⟨_, rfl⟩ := List.cons.inj hrest
      exact absurd hPa (hback' a mem_append_cons_self)

theorem selectFieldIndexes_last {fields : List (SelectField Planned)} {k : Nat} :
    ∀ {i : Nat} {m : AssocMap String Nat}, (selectFieldIndexes i m fields).get name = some k →
      (m.get name = some k ∧ ∀ f ∈ fields, ¬ (f.named name).isSome) ∨
      ∃ front f back, fields = front ++ f :: back ∧ k = i + front.length ∧ (f.named name).isSome ∧
        ∀ g ∈ back, ¬ (g.named name).isSome := by
  induction fields with
  | nil => exact fun h => .inl ⟨h, nofun⟩
  | cons f fields ih =>
    intro i m h
    obtain ⟨m', hm', hget⟩ := selectFieldIndexes_cons i m f fields name
    rw [hm'] at h
    rcases ih h with ⟨hk, hnone⟩ | ⟨front, g, back, rfl, rfl, hg, hback⟩
    · rw [hget] at hk
      split at hk
      · next hf => exact .inr ⟨[], f, fields, rfl, (Option.some.inj hk).symm, hf, hnone⟩
      · next hf => exact .inl ⟨hk, forall_mem_cons.2 ⟨hf, hnone⟩⟩
    · exact .inr ⟨f :: front, g, back, rfl, by rw [length_cons]; omega, hg, hback⟩

/-! ### What an item means -/

section Meaning

variable (plan : SelectPlan) (stmt : SelectStmt Parsed)

/-- An item with this name means the field with this alias.  The alias counts only if `aliasFirst` says so. -/
def MeansAlias (aliasFirst : String → Prop) (name : String) : Prop :=
  aliasFirst name ∧ ∃ f ∈ stmt.fields, f.HasAlias name

/-- The field at position `i` is the one that an item means: for a name without a qualifier, the field with this alias
or the column of this name; for other items the item itself. -/
def SelectPlan.Holds (aliasFirst : String → Prop) (item : ByItem Parsed) (i : Nat) : Prop :=
  ∃ e asName, plan.stmt.fields[i]? = some (.expr e asName) ∧ match item.expr with
    | .column _ c =>
      (c.Qualified → ∃ d, e = .column (some d) c) ∧
      (¬ c.Qualified → MeansAlias stmt aliasFirst c.name.l → asName.l ≠ "" ∧ asName.l = c.name.l) ∧
      (¬ c.Qualified → ¬ MeansAlias stmt aliasFirst c.name.l → e.isColumnNamed c.name.l = true)
    | item => e = item.untouched

/-- The first fields are those of the statement, and every item has the position of the field that it means.
`hasColumn` says which names the columns of the tables have: in `GROUP BY` they come before the aliases. -/
structure SelectPlan.ResolvesNames (hasColumn : String → Prop) : Prop where
  count : plan.originColumnCount = stmt.fields.length
  fields : ∃ p, Forall₂ (fun a b => a.accept (columnNameRewriteVisitor p) = .ok b) stmt.fields
    (plan.stmt.fields.take plan.originColumnCount)
  group : Forall₂ (plan.Holds stmt fun name => ¬ hasColumn name) (stmt.groupBy.getD []) plan.groupByColumn
  order : Forall₂ (plan.Holds stmt fun _ => True) (stmt.orderBy.getD []) plan.orderByColumn

/-- The last field that goes by the name of the item is one that the item means. -/
def LastMeant (aliasFirst : String → Prop) (item : ByItem Parsed) : Prop :=
  ∀ c, item.expr = .column () c → ¬ c.Qualified → ∀ f, LastWith (SelectField.GoesBy c.name.l) stmt.fields f →
    (MeansAlias stmt aliasFirst c.name.l → f.HasAlias c.name.l) ∧
    (¬ MeansAlias stmt aliasFirst c.name.l → f.NamesColumn c.name.l)

end Meaning

section Resolved

variable {p : TableAliasStmtInfo} {stmt : SelectStmt Parsed} {plan : SelectPlan} {fs : List (SelectField Planned)}
variable {i : Nat} {item : ByItem Parsed} {items : Option (List (ByItem Parsed))}
  {items' : Option (List (ByItem Planned))} {columns : List Nat}

theorem SelectLayout.last_of_get (h : SelectLayout p stmt plan fs) {name : String}
    (hget : (selectFieldIndexes 0 [] fs).get name = some i) :
    ∃ front f back e asName, stmt.fields = front ++ f :: back ∧ i = front.length ∧ f.GoesBy name ∧
      (∀ g ∈ back, ¬ g.GoesBy name) ∧ plan.stmt.fields[i]? = some (.expr e asName) ∧
      f.accept (columnNameRewriteVisitor p) = .ok (.expr e asName) := by
  rcases selectFieldIndexes_last hget with ⟨hnil, _⟩ | ⟨front', f', back', hfs, rfl, hf', hback'⟩
  · cases hnil
  · have hfields := h.fields.flip
    rw [hfs] at hfields
    obtain ⟨front, f, back, hstmt, hfront, haccept, hback⟩ := exists_of_forall₂_append hfields
    obtain ⟨e, asName, rfl, _⟩ : ∃ e asName, f' = .expr e asName ∧ True := by
      cases f' with
      | wildcard schema table => cases hf'
      | expr e asName => exact ⟨e, asName, rfl, trivial⟩
    refine ⟨front, f, back, e, asName, hstmt, ?_, (named_accept haccept).1 hf', ?_, ?_, haccept⟩
    · rw [Nat.zero_add, hfront.length_eq]
    · intro g hg hgoes
      obtain ⟨g', hg', hacceptg⟩ := exists_of_mem hback.flip hg
      exact hback' g' hg' ((named_accept hacceptg).2 hgoes)
    · obtain ⟨more, hmore⟩ := h.front
      rw [← hmore, hfs]
      simp

theorem SelectPlan.holds_column {aliasFirst : String → Prop} {a : Unit} {c : ColumnName}
    (hitem : item.expr = .column a c) {e : Expr Planned} {asName : CIStr}
    (hi : plan.stmt.fields[i]? = some (.expr e asName)) :
    plan.Holds stmt aliasFirst item i ↔ (c.Qualified → ∃ d, e = .column (some d) c) ∧
      (¬ c.Qualified → MeansAlias stmt aliasFirst c.name.l → asName.l ≠ "" ∧ asName.l = c.name.l) ∧
      (¬ c.Qualified → ¬ MeansAlias stmt aliasFirst c.name.l → e.isColumnNamed c.name.l = true) := by
  unfold SelectPlan.Holds
  rw [hitem]
  constructor
  · rintro ⟨e', asName', hi', hholds⟩
    cases hi.symm.trans hi'
    exact hholds
  · exact fun hholds => ⟨e, asName, hi, hholds⟩

/-- An item has the position of the field that it means exactly if that is the last field that goes by its name. -/
theorem SelectLayout.holds_iff (h : SelectLayout p stmt plan fs) (aliasFirst : String → Prop)
    {item' : ByItem Planned} (hitem : createSelectFieldFromByItem p item = .ok item')
    (hfound : FoundAt fs.length (selectFieldIndexes 0 [] fs) plan.stmt.fields i (.expr item'.expr .empty)) :
    plan.Holds stmt aliasFirst item i ↔ LastMeant stmt aliasFirst item := by
  rcases createSelectFieldFromByItem_cases hitem with ⟨fnName, parts, hexpr, hexpr'⟩ | ⟨c, d, hexpr,
    hexpr', hqualified⟩ | ⟨c, hexpr, hexpr', hbare⟩
  · -- `DATABASE()` has a field of its own
    rw [hexpr'] at hfound
    cases hfound with
    | appended _ hi _ =>
      refine iff_of_true ⟨_, _, hi, ?_⟩ fun c hc => by cases hexpr.symm.trans hc
      rw [hexpr]
  · -- a qualified column, too
    rw [hexpr'] at hfound
    cases hfound with
    | appended _ hi _ =>
      rw [SelectPlan.holds_column hexpr hi]
      refine iff_of_true ⟨fun _ => ⟨d, rfl⟩, fun hbare => absurd hqualified hbare,
        fun hbare => absurd hqualified hbare⟩ ?_
      intro c' hc' hbare
      cases hexpr.symm.trans hc'
      exact absurd hqualified hbare
  · rw [hexpr'] at hfound
    cases hfound with
    | selected hget =>
      obtain ⟨front, f, back, e, asName, hfields, _, hgoes, hback, hi, haccept⟩ := h.last_of_get hget
      have hcolumn : e.isColumnNamed c.name.l = true ↔ f.NamesColumn c.name.l := namesColumn_accept haccept
      have halias : asName.l ≠ "" ∧ asName.l = c.name.l ↔ f.HasAlias c.name.l := hasAlias_accept haccept
      rw [SelectPlan.holds_column hexpr hi, hcolumn, halias]
      constructor
      · rintro ⟨_, hmeans, hnot⟩ c' hc' _ f' ⟨front', back', hfields', hgoes', hback'⟩
        cases hexpr.symm.trans hc'
        obtain ⟨_, rfl, _⟩ := split_unique (hfields.symm.trans hfields') hgoes hgoes' hback hback'
        exact ⟨hmeans hbare, hnot hbare⟩
      · intro hmeant
        obtain ⟨hmeans, hnot⟩ := hmeant c hexpr hbare f ⟨front, back, hfields, hgoes, hback⟩
        exact ⟨fun hqualified => absurd hqualified hbare, fun _ => hmeans, fun _ => hnot⟩
    | appended _ hi hnone =>
      have hnobody : ¬ ∃ f ∈ stmt.fields, f.GoesBy c.name.l := by
        rw [← selected_isSome_iff h.fields, hnone c _ rfl]
        exact Bool.false_ne_true
      rw [SelectPlan.holds_column hexpr hi]
      refine iff_of_true ⟨fun hqualified => absurd hqualified hbare, ?_, fun _ _ => decide_eq_true rfl⟩ ?_
      · rintro _ ⟨_, f, hf, halias⟩
        exact absurd ⟨f, hf, .inl halias⟩ hnobody
      · intro c' hc' _ f hf
        cases hexpr.symm.trans hc'
        exact absurd ⟨f, hf.mem⟩ hnobody

theorem found_items (hitems : createSelectFieldsFromByItems p items = .ok items')
    (hfound : Forall₂ (FoundAt fs.length (selectFieldIndexes 0 [] fs) plan.stmt.fields) columns
      (extraFields items')) : Forall₂ (fun item i => ∃ item', createSelectFieldFromByItem p item = .ok item' ∧
      FoundAt fs.length (selectFieldIndexes 0 [] fs) plan.stmt.fields i (.expr item'.expr .empty))
        (items.getD []) columns := by
  have hcolumns := forall₂_map_left_iff.1 hfound.flip
  exact forall₂_of_forall₂ (createSelectFieldsFromByItems_forall₂ hitems).flip hcolumns
    fun item' item i hitem hi => ⟨item', hitem, hi⟩

theorem SelectLayout.forall_holds_iff (h : SelectLayout p stmt plan fs) (aliasFirst : String → Prop)
    (hitems : createSelectFieldsFromByItems p items = .ok items')
    (hfound : Forall₂ (FoundAt fs.length (selectFieldIndexes 0 [] fs) plan.stmt.fields) columns
      (extraFields items')) : Forall₂ (plan.Holds stmt aliasFirst) (items.getD []) columns ↔
      ∀ item ∈ items.getD [], LastMeant stmt aliasFirst item := by
  refine forall₂_iff_forall (found_items hitems hfound) ?_
  rintro item i ⟨item', hitem, hi⟩
  exact h.holds_iff aliasFirst hitem hi

/-- The items of `GROUP BY` and `ORDER BY` have the positions of the fields that they mean, behind fields that stay as
they were, exactly if the last field that goes by the name of an item is always one that the item means. -/
theorem names_resolved_iff (hasColumn : String → Prop) (hplan : handleSelectStmt p stmt = .ok plan) :
    plan.ResolvesNames stmt hasColumn ↔
      (∀ item ∈ stmt.groupBy.getD [], LastMeant stmt (fun name => ¬ hasColumn name) item) ∧
      ∀ item ∈ stmt.orderBy.getD [], LastMeant stmt (fun _ => True) item := by
  obtain ⟨p₁, fs, h⟩ := selectLayout_of_ok hplan
  have hgroup := h.forall_holds_iff (fun name => ¬ hasColumn name) h.groupBy h.groupColumns
  have horder := h.forall_holds_iff (fun _ => True) h.orderBy h.orderColumns
  have htake : plan.stmt.fields.take plan.originColumnCount = fs := by
    obtain ⟨more, hmore⟩ := h.front
    rw [h.origin, ← hmore, take_left]
  constructor
  · intro hresolves
    exact ⟨hgroup.1 hresolves.group, horder.1 hresolves.order⟩
  · rintro ⟨hg, ho⟩
    exact ⟨h.origin.trans h.fields.length_eq.symm, ⟨p₁, htake ▸ h.fields⟩, hgroup.2 hg, horder.2 ho⟩

end Resolved

/-- `SELECT x AS a, y AS b FROM t GROUP BY … ORDER BY …`; the items are names without qualifiers. -/
def selectAs (x a y b : String) (groupBy : Option String) (orderBy : String) : SelectStmt Parsed :=
  { fields := [.expr (.column () (bareColumn x)) ⟨a, a⟩, .expr (.column () (bareColumn y)) ⟨b, b⟩]
    tableRefs := some (singleTable (unqualifiedTable "t") .empty)
    groupBy := groupBy.map fun name => [⟨.column () (bareColumn name), false⟩]
    orderBy := some [⟨.column () (bareColumn orderBy), false⟩] }

/-- `SELECT a AS x, b AS y FROM t GROUP BY a ORDER BY y`. -/
theorem names_resolved_iff_alias : ∃ plan,
    handleSelectStmt (newTableAliasStmtInfo "db" hashRouter .insertion) (selectAs "a" "x" "b" "y" (some "a") "y") =
      .ok plan ∧ plan.ResolvesNames (selectAs "a" "x" "b" "y" (some "a") "y") (· ∈ ["id", "a", "b"]) := by
  have hgoes : ∀ name f, LastWith (SelectField.GoesBy name) (selectAs "a" "x" "b" "y" (some "a") "y").fields f →
      f = .expr (.column () (bareColumn "a")) ⟨"x", "x"⟩ ∧ name ∈ ["x", "a"] ∨
      f = .expr (.column () (bareColumn "b")) ⟨"y", "y"⟩ ∧ name ∈ ["y", "b"] := by
    intro name f hf
    obtain ⟨hmem, hname⟩ := hf.mem
    rcases mem_pair.1 hmem with rfl | rfl
    · rcases hname with ⟨_, rfl⟩ | ⟨c, hc, _, rfl⟩
      · exact .inl ⟨rfl, by decide⟩
      · cases hc
        exact .inl ⟨rfl, by decide⟩
    · rcases hname with ⟨_, rfl⟩ | ⟨c, hc, _, rfl⟩
      · exact .inr ⟨rfl, by decide⟩
      · cases hc
        exact .inr ⟨rfl, by decide⟩
  refine exists_ok ⟨_, rfl⟩ fun plan hplan => (names_resolved_iff _ hplan).2 ⟨?_, ?_⟩
  · intro item hitem c hc _ f hf
    obtain rfl := mem_singleton.1 hitem
    cases hc
    rcases hgoes _ f hf with ⟨rfl, _⟩ | ⟨_, hname⟩
    · exact ⟨fun hmeans => absurd (by decide) hmeans.1, fun _ => ⟨_, rfl, by decide, rfl⟩⟩
    · exact absurd hname (by decide)
  · intro item hitem c hc _ f hf
    obtain rfl := mem_singleton.1 hitem
    cases hc
    rcases hgoes _ f hf with ⟨_, hname⟩ | ⟨rfl, _⟩
    · exact absurd hname (by decide)
    · exact ⟨fun _ => ⟨by decide, rfl⟩,
        fun hnot => absurd ⟨trivial, _, mem_cons_of_mem _ mem_cons_self, by decide, rfl⟩ hnot⟩

/-- `SELECT a AS b, b AS c FROM t ORDER BY b` orders by the field with the alias `b`, but the planner has the position
of the other one. -/
theorem order_by_alias_misplaced : ∃ plan,
    handleSelectStmt (newTableAliasStmtInfo "db" hashRouter .insertion) (selectAs "a" "b" "b" "c" none "b") =
      .ok plan ∧
    plan.orderByColumn = [1] ∧ ¬ plan.ResolvesNames (selectAs "a" "b" "b" "c" none "b") (· ∈ ["id", "a", "b"]) := by
  refine ⟨_, rfl, rfl, fun h => ?_⟩
  obtain ⟨⟨e, asName, hi, _, halias, _⟩, _⟩ := forall₂_cons.1 h.order
  cases hi
  -- the second field has the alias `c`
  obtain ⟨_, hname⟩ := halias (by decide) ⟨trivial, _, mem_cons_self, by decide, rfl⟩
  exact absurd hname (by decide)

end DbProxy
