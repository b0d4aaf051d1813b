import DbProxy.Spec.AnyAggregate
import DbProxy.Spec.FieldNames
import DbProxy.Spec.WriteLimits

/-!
# Statements that no shard has to answer

When the conditions leave no shard, nothing is sent.  A `SELECT` makes up an empty result: its names come from
restoring the fields, which fails at a qualified column because there is no current index, and the loop runs over the
appended fields, for which there is no room.  An `UPDATE` or `DELETE` has no result at all, and `modifyResultStatus`
looks into it.  So only some `SELECT`s are answered (`empty_route_iff`).
-/

namespace DbProxy

open Fallible List
variable {e : Expr Parsed} {e' : Expr Planned} {p : TableAliasStmtInfo} {fields : List (SelectField Parsed)}
  {fs : List (SelectField Planned)} {stmt : SelectStmt Parsed} {plan : SelectPlan}

/-! ### Restoring without a current index -/

/-- What stops a `Restore`: a decorated column, with an error, or a `VALUES` without its column, with a panic. -/
inductive Obstacle where
  | column
  | values
  deriving DecidableEq, Repr

mutual
/-- The first obstacle that `Restore` comes to. -/
def Expr.obstacle : Expr Parsed → Option Obstacle
  | .column _ c => if c.Qualified then some .column else none
  | .binary _ l r => l.obstacle.or r.obstacle
  | .patternIn _ e list none _ => e.obstacle.or (obstacleList list)
  | .patternIn _ e _ (some sel) _ => e.obstacle.or sel.obstacle
  | .between _ e l r _ => e.obstacle.or (l.obstacle.or r.obstacle)
  | .paren e => e.obstacle
  | .funcCall _ parts | .aggregate _ parts | .node _ parts => obstacleList parts
  | .valuesOf (some c) => if c.Qualified then some .values else none
  | .valuesOf none => some .values
  | .value _ | .text _ => none

def Expr.obstacleList : List (Expr Parsed) → Option Obstacle
  | [] => none
  | e :: es => e.obstacle.or (obstacleList es)
end

/-- The text `out` of an expression that was visited, beside the text `plain` that it had before. -/
def Out.Meets (out plain : Out) : Option Obstacle → Prop
  | none => out = plain ∧ plain.fail = none
  | some .column => (∃ msg, out.fail = some (.error msg)) ∧ plain.toks ≠ []
  | some .values => (∃ msg, out.fail = some (.panic msg)) ∧ plain.toks ≠ []

namespace Out.Meets

theorem tok (t : Tok) : Out.Meets (.tok t) (.tok t) none := ⟨rfl, rfl⟩

theorem text (s : String) : Out.Meets (.text s) (.text s) none := tok _

theorem nothing : Out.Meets .nothing .nothing none := ⟨rfl, rfl⟩

theorem append_of_fail {a : Out} {e : Fail} (h : a.fail = some e) (b : Out) : a ++ b = a := by
  have hsum : a ++ b = Out.append a b := rfl
  rw [hsum]
  unfold Out.append
  rw [h]

theorem append_of_ok {a : Out} (h : a.fail = none) (b : Out) :
    a ++ b = { toks := a.toks ++ b.toks, fail := b.fail } := by
  have hsum : a ++ b = Out.append a b := rfl
  rw [hsum]
  unfold Out.append
  rw [h]

theorem toks_append_ne_nil {a : Out} (h : a.toks ≠ []) (b : Out) : (a ++ b).toks ≠ [] := by
  cases hfail : a.fail with
  | none =>
    rw [append_of_ok hfail]
    simp [h]
  | some e => rwa [append_of_fail hfail]

theorem append {a a' b b' : Out} {o o' : Option Obstacle} (ha : Out.Meets a a' o) (hb : Out.Meets b b' o') :
    Out.Meets (a ++ b) (a' ++ b') (o.or o') := by
  match o with
  | none =>
    obtain ⟨rfl, hfail⟩ := ha
    rw [append_of_ok hfail, append_of_ok hfail]
    match o' with
    | none =>
      obtain ⟨rfl, hfail'⟩ := hb
      exact ⟨rfl, hfail'⟩
    | some .column | some .values => exact ⟨hb.1, append_ne_nil_of_right_ne_nil _ hb.2⟩
  | some .column | some .values =>
    obtain ⟨⟨msg, hfail⟩, htoks⟩ := ha
    rw [append_of_fail hfail]
    exact ⟨⟨msg, hfail⟩, toks_append_ne_nil htoks b'⟩

theorem append_text {a a' : Out} {o : Option Obstacle} (ha : Out.Meets a a' o) (s : String) :
    Out.Meets (a ++ .text s) (a' ++ .text s) o := by
  have h := ha.append (text s)
  rwa [Option.or_none] at h

end Out.Meets

section Visit

/-- The lists of what was written for the expressions of a list, and the first obstacle in them. -/
inductive MeetsList : List Out → List Out → Option Obstacle → Prop where
  | nil : MeetsList [] [] none
  | cons {a a' : Out} {as as' : List Out} {o o' : Option Obstacle} :
      Out.Meets a a' o → MeetsList as as' o' → MeetsList (a :: as) (a' :: as') (o.or o')

theorem MeetsList.concat {as as' : List Out} {o : Option Obstacle} (h : MeetsList as as' o) :
    Out.Meets (.concat as) (.concat as') o := by
  induction h with
  | nil => exact .nothing
  | cons ha _ ih => exact ha.append ih

theorem MeetsList.sepBy (sep : String) {as as' : List Out} {o : Option Obstacle} (h : MeetsList as as' o) :
    Out.Meets (.sepBy sep as) (.sepBy sep as') o := by
  induction h with
  | nil => exact .nothing
  | cons ha hrest ih =>
    cases hrest with
    | nil => rwa [Option.or_none]
    | cons _ _ => exact (ha.append_text sep).append ih

variable {m : Type → Type} [Monad m] (post : Post m) {f : ColumnName → m (Option ColumnNameDecorator)}

mutual
/-- A visited expression is written as it was up to the first obstacle. -/
theorem restoreNowhere_accept (hf : ∀ c, post.holds (f c) fun d => d.isSome = decide c.Qualified) :
    (e : Expr Parsed) → post.holds (e.accept f) fun e' => Out.Meets e'.restoreNowhere e.restorePlain e.obstacle
  | .value v => post.of_pure (.tok _)
  | .column _ c => post.of_bind (hf c) fun d hd => post.of_pure (by
      unfold Expr.obstacle
      cases d with
      | none =>
        rw [if_neg (of_decide_eq_false hd.symm)]
        exact .tok _
      | some d =>
        rw [if_pos (of_decide_eq_true hd.symm)]
        exact ⟨⟨_, rfl⟩, cons_ne_nil _ _⟩)
  | .binary op l r =>
    post.of_bind (restoreNowhere_accept hf l) fun _ hl =>
      post.of_bind (restoreNowhere_accept hf r) fun _ hr =>
        post.of_pure (by
          have hop : Out.Meets op.restore op.restore none := by cases op <;> exact .text _
          have h := (hl.append hop).append hr
          rwa [Option.or_none] at h)
  | .patternIn _ e list none isNot =>
    post.of_bind (restoreNowhere_accept hf e) fun _ he =>
      post.of_bind (restoreNowhere_acceptList hf list) fun _ hlist =>
        post.of_bind (post.of_pure rfl) fun _ hsel => post.of_pure (by
          subst hsel
          exact (he.append_text _).append (((Out.Meets.text _).append (hlist.sepBy _)).append_text _))
  | .patternIn _ e list (some sel) isNot =>
    post.of_bind (restoreNowhere_accept hf e) fun _ he =>
      post.of_bind (restoreNowhere_acceptList hf list) fun _ _ =>
        post.of_bind (restoreNowhere_acceptSome hf sel) fun _ ⟨_, heq, hsel⟩ => post.of_pure (by
          subst heq
          exact (he.append_text _).append hsel)
  | .between _ e l r isNot =>
    post.of_bind (restoreNowhere_accept hf e) fun _ he =>
      post.of_bind (restoreNowhere_accept hf l) fun _ hl =>
        post.of_bind (restoreNowhere_accept hf r) fun _ hr => post.of_pure (by
          unfold Expr.obstacle
          rw [← Option.or_assoc]
          exact (((he.append_text _).append hl).append_text _).append hr)
  | .paren e => post.of_bind (restoreNowhere_accept hf e) fun _ he =>
      post.of_pure (((Out.Meets.text _).append he).append_text _)
  | .funcCall _ parts | .aggregate _ parts | .node _ parts =>
    post.of_bind (restoreNowhere_acceptList hf parts) fun _ h => post.of_pure h.concat
  | .valuesOf none => post.of_pure ⟨⟨_, rfl⟩, cons_ne_nil _ _⟩
  | .valuesOf (some c) => post.of_bind (hf c) fun d hd => post.of_pure (by
      unfold Expr.obstacle
      cases d with
      | none =>
        rw [if_neg (of_decide_eq_false hd.symm)]
        exact ((Out.Meets.text _).append (.tok _)).append_text _
      | some d =>
        rw [if_pos (of_decide_eq_true hd.symm)]
        exact ⟨⟨_, rfl⟩, cons_ne_nil _ _⟩)
  | .text t => post.of_pure (.tok t)

theorem restoreNowhere_acceptList (hf : ∀ c, post.holds (f c) fun d => d.isSome = decide c.Qualified) :
    (es : List (Expr Parsed)) → post.holds (Expr.acceptList f es) fun es' =>
      MeetsList (Expr.restoreListWith restoreColumnNowhere valuesNowhere es')
        (Expr.restoreListWith (fun _ c => c.restore) (fun _ => none) es) (Expr.obstacleList es)
  | [] => post.of_pure .nil
  | e :: es =>
    post.of_bind (restoreNowhere_accept hf e) fun _ he =>
      post.of_bind (restoreNowhere_acceptList hf es) fun _ hes => post.of_pure (.cons he hes)

theorem restoreNowhere_acceptSome (hf : ∀ c, post.holds (f c) fun d => d.isSome = decide c.Qualified)
    (e : Expr Parsed) : post.holds (Expr.acceptOption f (some e)) fun o =>
      ∃ e', o = some e' ∧ Out.Meets e'.restoreNowhere e.restorePlain e.obstacle :=
  post.of_bind (restoreNowhere_accept hf e) fun e' he => post.of_pure ⟨e', rfl, he⟩

end

end Visit

/-! ### The fields of an empty result -/

def Expr.shown : Expr Parsed → List Tok
  | .column _ c => c.bare.restore.toks
  | e => e.restorePlain.toks

/-- The names that a field has in a result; `columns` are those that a wildcard stands for. -/
def SelectField.shown (columns : CIStr → CIStr → List String) : SelectField Parsed → List (List Tok)
  | .wildcard schema table => (columns schema table).map fun c => [.name c]
  | .expr e asName => [if asName.o ≠ "" then [.name asName.o] else e.shown]

/-- The field gets its own name in an empty result. -/
def SelectField.NamedAlone : SelectField Parsed → Prop
  | .wildcard _ _ => False
  | .expr e asName =>
    if asName.o ≠ "" then e.obstacle ≠ some .values
    else e.obstacle = none ∧ ∀ a c, e = .column a c → c.table = .empty

theorem shown_ne_nil (h : e.restorePlain.toks ≠ []) : e.shown ≠ [] := by
  unfold Expr.shown
  split
  · exact cons_ne_nil _ _
  · exact h

theorem nodeToStringWithoutQuote_of_meets (h : Out.Meets e'.restoreNowhere e.restorePlain e.obstacle) :
    (e.obstacle = none → nodeToStringWithoutQuote e' = .ok e.restorePlain.toks) ∧
    (e.obstacle = some .column → nodeToStringWithoutQuote e' = .ok [] ∧ e.restorePlain.toks ≠ []) ∧
    (e.obstacle = some .values → ∃ msg, nodeToStringWithoutQuote e' = .error (.panic msg)) := by
  unfold nodeToStringWithoutQuote
  refine ⟨fun ho => ?_, fun ho => ?_, fun ho => ?_⟩
  · rw [ho] at h
    obtain ⟨heq, hfail⟩ := h
    rw [heq, hfail]
  · rw [ho] at h
    obtain ⟨⟨msg, hfail⟩, htoks⟩ := h
    rw [hfail]
    exact ⟨rfl, htoks⟩
  · rw [ho] at h
    obtain ⟨⟨msg, hfail⟩, _⟩ := h
    rw [hfail]
    exact ⟨msg, rfl⟩

theorem shown_eq_iff (h : e.obstacle = none) :
    e.restorePlain.toks = e.shown ↔ ∀ a c, e = .column a c → c.table = .empty := by
  cases e with
  | column a c =>
    have hbare : c.schema.o = "" := by
      unfold Expr.obstacle at h
      split at h
      · cases h
      · next hbare => exact (not_not.1 hbare).1
    constructor
    · rintro heq _ _ ⟨⟩
      injection heq with heq
      injection heq
    · intro htable
      have htable := htable a c rfl
      simp only [Expr.shown, Expr.restorePlain, Expr.restoreWith, ColumnName.restore, ColumnName.bare, htable, hbare]
      rfl
  | _ =>
    refine ⟨fun _ a c heq => ?_, fun _ => rfl⟩
    cases heq

theorem emptyField_named_iff {asName : CIStr} (h : Out.Meets e'.restoreNowhere e.restorePlain e.obstacle) :
    (∃ field, emptyField (.expr e' asName) = .ok field ∧
        field.name = if asName.o ≠ "" then [.name asName.o] else e.shown) ↔
      SelectField.NamedAlone (.expr e asName) := by
  obtain ⟨hnone, hcolumn, hvalues⟩ := nodeToStringWithoutQuote_of_meets h
  have hfield : (∃ field, emptyField (.expr e' asName) = .ok field ∧
      field.name = if asName.o ≠ "" then [.name asName.o] else e.shown) ↔
        ∃ name, nodeToStringWithoutQuote e' = .ok name ∧ (asName.o = "" → name = e.shown) := by
    unfold emptyField
    simp only [bind_eq_ok]
    constructor
    · rintro ⟨field, ⟨name, hname, hok⟩, hshown⟩
      cases hok
      refine ⟨name, hname, fun ho => ?_⟩
      simpa [ho] using hshown
    · rintro ⟨name, hname, hshown⟩
      refine ⟨_, ⟨name, hname, rfl⟩, ?_⟩
      by_cases ho : asName.o = ""
      · simp [ho, hshown ho]
      · simp [ho]
  rw [hfield]
  unfold SelectField.NamedAlone
  match ho : e.obstacle with
  | none =>
    rw [hnone ho]
    by_cases has : asName.o = ""
    · simp [has, ho, shown_eq_iff ho]
    · simp [has, ho]
  | some .column =>
    obtain ⟨hempty, htoks⟩ := hcolumn ho
    rw [hempty]
    by_cases has : asName.o = ""
    · simp [has, ho, Ne.symm (shown_ne_nil htoks)]
    · simp [has, ho]
  | some .values =>
    obtain ⟨msg, hpanic⟩ := hvalues ho
    rw [hpanic]
    by_cases has : asName.o = ""
    · simp [has, ho]
    · simp [has, ho]

section Columns

variable {columns : CIStr → CIStr → List String} (hcolumns : ∀ schema table, columns schema table ≠ [])
include hcolumns

theorem emptyFields_named_iff {p : TableAliasStmtInfo} {fields : List (SelectField Parsed)}
    {fs : List (SelectField Planned)}
    (h : Forall₂ (fun a b => a.accept (columnNameRewriteVisitor p) = .ok b) fields fs) :
    (∃ named, fs.mapM emptyField = .ok named ∧
      named.map EmptyField.name = fields.flatMap (SelectField.shown columns)) ↔
      ∀ f ∈ fields, f.NamedAlone := by
  simp only [mapM_eq_ok]
  induction h with
  | nil => simp
  | @cons f f' fields fs hf _ ih =>
    simp only [forall₂_cons_left_iff, forall_mem_cons, flatMap_cons]
    cases f with
    | wildcard schema table =>
      cases hf
      obtain ⟨c, cs, hc⟩ := exists_cons_of_ne_nil (hcolumns schema table)
      refine iff_of_false ?_ fun h => h.1
      -- the first name is a star, and no column is named so
      rintro ⟨_, ⟨field, named, hfield, _, rfl⟩, hnames⟩
      cases hfield
      rw [SelectField.shown, hc] at hnames
      cases hnames
    | expr e asName =>
      obtain ⟨e', he', hf⟩ := bind_eq_ok.1 hf
      cases hf
      have hmeets := restoreNowhere_accept (.ok Fail) (columnNameRewriteVisitor_isSome p) e e' he'
      rw [← emptyField_named_iff hmeets, ← ih]
      constructor
      · rintro ⟨_, ⟨field, named, hfield, hnamed, rfl⟩, hnames⟩
        obtain ⟨hname, hnames⟩ := List.cons.inj hnames
        exact ⟨⟨field, hfield, hname⟩, named, hnamed, hnames⟩
      · rintro ⟨⟨field, hfield, hname⟩, named, hnamed, hnames⟩
        exact ⟨_, ⟨field, named, hfield, hnamed, rfl⟩, congrArg₂ List.cons hname hnames⟩

end Columns

/-! ### Appended fields -/

/-- The item is an unqualified column, and a field goes by its name. -/
def ByItem.SelectedIn (fields : List (SelectField Parsed)) (item : ByItem Parsed) : Prop :=
  ∃ c, item.expr = .column () c ∧ ¬ c.Qualified ∧ ∃ f ∈ fields, f.GoesBy c.name.l

/-- `GROUP BY` and `ORDER BY` need no field of their own. -/
def SelectStmt.NothingAppended (stmt : SelectStmt Parsed) : Prop :=
  ∀ item ∈ stmt.groupBy.getD [] ++ stmt.orderBy.getD [], item.SelectedIn stmt.fields

section

variable (h : Forall₂ (fun a b => a.accept (columnNameRewriteVisitor p) = .ok b) fields fs)

include h

theorem selectedAt_isSome_iff {item : ByItem Parsed}
    {item' : ByItem Planned} (hitem : createSelectFieldFromByItem p item = .ok item') (asName : CIStr) :
    (selectedAt (selectFieldIndexes 0 [] fs) (.expr item'.expr asName)).isSome ↔ item.SelectedIn fields := by
  unfold ByItem.SelectedIn
  rcases createSelectFieldFromByItem_cases hitem with ⟨fnName, parts, hexpr, hexpr'⟩ | ⟨c, d, hexpr,
    hexpr', hqualified⟩ | ⟨c, hexpr, hexpr', hbare⟩
  · rw [hexpr', hexpr]
    exact iff_of_false Bool.false_ne_true fun ⟨c, hc, _⟩ => by cases hc
  · rw [hexpr', hexpr]
    refine iff_of_false Bool.false_ne_true ?_
    rintro ⟨_, ⟨⟩, hbare, _⟩
    exact hbare hqualified
  · rw [hexpr', hexpr, show selectedAt _ _ = (selectFieldIndexes 0 [] fs).get c.name.l from rfl,
      selected_isSome_iff h]
    simp [hbare]

theorem notSelected_eq_nil_iff {items : Option (List (ByItem Parsed))} {items' : Option (List (ByItem Planned))}
    (hitems : createSelectFieldsFromByItems p items = .ok items') :
    notSelected (selectFieldIndexes 0 [] fs) (extraFields items') = [] ↔
    ∀ item ∈ items.getD [], item.SelectedIn fields := by
  have hforall := createSelectFieldsFromByItems_forall₂ hitems
  unfold notSelected extraFields
  simp only [filter_eq_nil_iff, forall_mem_map, Option.isNone_iff_eq_none, ← Option.isSome_iff_ne_none]
  constructor
  · intro hselected item hitem
    obtain ⟨item', hitem', hcreated⟩ := exists_of_mem hforall hitem
    exact (selectedAt_isSome_iff h hcreated _).1 (hselected item' hitem')
  · intro hselected item' hitem'
    obtain ⟨item, hitem, hcreated⟩ := exists_of_mem hforall.flip hitem'
    exact (selectedAt_isSome_iff h hcreated _).2 (hselected item hitem)

end

theorem SelectLayout.nothingAppended_iff (h : SelectLayout p stmt plan fs) :
    plan.stmt.fields = fs ↔ stmt.NothingAppended := by
  unfold SelectStmt.NothingAppended
  rw [forall_mem_append, ← notSelected_eq_nil_iff h.fields h.groupBy, ← notSelected_eq_nil_iff h.fields
    h.orderBy, h.all, append_assoc, append_right_eq_self, append_eq_nil_iff]

/-! ### Answers -/

def Limit.keepsFirst : Option Limit → Bool
  | none => true
  | some l => match l.count, l.offset with
    | .value count, none => count.getInt64 ≠ 0
    | .value count, some (.value offset) => count.getInt64 ≠ 0 ∧ offset.getInt64 = 0
    | _, _ => false

/-- The statement has a row in its result even where it reads none: it aggregates all rows into one.  `holds` says
whether a `HAVING` is true of that row. -/
def SelectStmt.ReturnsRow (holds : Expr Parsed → Bool) (stmt : SelectStmt Parsed) : Prop :=
  stmt.groupBy = none ∧ ((∃ f ∈ stmt.fields, f.hasAggregate = true) ∨ ∃ e ∈ stmt.having, e.hasAggregate = true) ∧
    (∀ e ∈ stmt.having, holds e = true) ∧ Limit.keepsFirst stmt.limit = true

/-- The answer to a statement that reads no rows: the selected columns, and no row. -/
def SelectAnswer.OfNothing (columns : CIStr → CIStr → List String) (holds : Expr Parsed → Bool)
    (stmt : SelectStmt Parsed) : SelectAnswer → Prop
  | .merged _ => False
  | .empty fields => fields.map EmptyField.name = stmt.fields.flatMap (SelectField.shown columns) ∧
      ¬ stmt.ReturnsRow holds

theorem generateShardingSQLs_nil {restore : Int → Out} {result : RouteResult} {router : Router} {sqls : List ShardSQL}
    (h : generateShardingSQLs restore result router = .ok sqls) (hempty : result.indexes = []) : sqls = [] := by
  unfold generateShardingSQLs at h
  rw [hempty, mapM_nil] at h
  exact (Except.ok.inj h).symm

theorem newEmptyResultset_eq_ok {named : List EmptyField} (hcount : plan.columnCount = plan.stmt.fields.length) :
    newEmptyResultset plan = .ok named ↔
      plan.stmt.fields.length ≤ plan.originColumnCount ∧ plan.stmt.fields.mapM emptyField = .ok named := by
  unfold newEmptyResultset
  simp only [mapM_eq_ok, hcount]
  have hroom : ∀ i : Nat, (i : Int) < plan.stmt.fields.length - (plan.stmt.fields.length - plan.originColumnCount) ↔
      i < plan.originColumnCount := by omega
  simp only [hroom]
  have hinside : plan.stmt.fields.length ≤ plan.originColumnCount → ∀ e ∈ plan.stmt.fields.zipIdx,
      e.2 < plan.originColumnCount := by
    intro hle e he
    have := snd_lt_of_mem_zipIdx he
    omega
  have hplain : plan.stmt.fields.length ≤ plan.originColumnCount →
      (Forall₂ (fun e field => (if e.2 < plan.originColumnCount then emptyField e.1
          else .error (.panic "index out of range")) =
        .ok field) plan.stmt.fields.zipIdx named ↔
      Forall₂ (fun f field => emptyField f = .ok field) plan.stmt.fields named) := by
    intro hle
    rw [← zipIdx_map_fst 0 plan.stmt.fields, forall₂_map_left_iff, zipIdx_map_fst]
    exact forall₂_congr_of_mem fun e he field => by rw [if_pos (hinside hle e he)]
  constructor
  · intro h
    have hle : plan.stmt.fields.length ≤ plan.originColumnCount := by
      by_contra hlt
      have hmem : (plan.stmt.fields[plan.originColumnCount], plan.originColumnCount) ∈ plan.stmt.fields.zipIdx :=
        mk_mem_zipIdx_iff_getElem?.2 (getElem?_eq_getElem _)
      obtain ⟨field, _, hfield⟩ := exists_of_mem h hmem
      rw [if_neg (lt_irrefl _)] at hfield
      cases hfield
    exact ⟨hle, (hplain hle).1 h⟩
  · rintro ⟨hle, h⟩
    exact (hplain hle).2 h

theorem ModifyPlan.doQuery_nil {α : Type} {plan : ModifyPlan α} (h : plan.sqls = []) (status : UInt16)
    (executeSQLs : List ShardSQL → Except Fail (List ExecResult)) :
    ∃ msg, plan.doQuery executeSQLs status = .error (.panic msg) := by
  unfold ModifyPlan.doQuery ModifyPlan.executeIn
  rw [h]
  exact ⟨_, rfl⟩

/-- A `SELECT` whose route is empty is answered with the selected columns exactly if no field is appended, every field
is named and no row is due. -/
theorem executeIn_of_empty {columns : CIStr → CIStr → List String}
    (hcolumns : ∀ schema table, columns schema table ≠ []) (holds : Expr Parsed → Bool)
    (hplan : handleSelectStmt p stmt = .ok plan) (hempty : plan.info.result.indexes = []) (go : Runtime)
    (executeSQLs : List ShardSQL → Except Fail (List Result)) :
    (∃ answer, plan.executeIn go executeSQLs = .ok answer ∧ answer.OfNothing columns holds stmt) ↔
      stmt.NothingAppended ∧ (∀ f ∈ stmt.fields, f.NamedAlone) ∧ ¬ stmt.ReturnsRow holds := by
  obtain ⟨p₁, fs, hlayout⟩ := selectLayout_of_ok hplan
  have hsqls : plan.sqls = [] := by
    obtain ⟨-, -, -, -, -, -, -, -, -, -, hsqls⟩ := selectRun_of_ok hplan
    exact generateShardingSQLs_nil hsqls hempty
  have hanswer : (∃ answer, plan.executeIn go executeSQLs = .ok answer ∧ answer.OfNothing columns holds stmt) ↔
      ∃ named, newEmptyResultset plan = .ok named ∧
        named.map EmptyField.name = stmt.fields.flatMap (SelectField.shown columns) ∧ ¬ stmt.ReturnsRow holds := by
    unfold SelectPlan.executeIn
    simp only [hsqls, isEmpty_nil, if_true, bind_eq_ok]
    constructor
    · rintro ⟨answer, ⟨named, hnamed, hok⟩, hof⟩
      cases hok
      exact ⟨named, hnamed, hof⟩
    · rintro ⟨named, hnamed, hof⟩
      exact ⟨_, ⟨named, hnamed, rfl⟩, hof⟩
  have hle : plan.stmt.fields.length ≤ plan.originColumnCount ↔ plan.stmt.fields = fs := by
    rw [hlayout.origin]
    exact ⟨fun h => (hlayout.front.eq_of_length_le h).symm, fun h => h ▸ le_rfl⟩
  rw [hanswer]
  simp only [newEmptyResultset_eq_ok hlayout.count, hle, ← hlayout.nothingAppended_iff,
    ← emptyFields_named_iff hcolumns hlayout.fields]
  constructor
  · rintro ⟨named, ⟨hfields, hnamed⟩, hnames, hrow⟩
    exact ⟨hfields, ⟨named, hfields ▸ hnamed, hnames⟩, hrow⟩
  · rintro ⟨hfields, ⟨named, hnamed, hnames⟩, hrow⟩
    exact ⟨named, ⟨hfields, hfields ▸ hnamed⟩, hnames, hrow⟩

/-- Statements whose conditions leave no shard: a `SELECT` is answered with an empty result exactly if no field is
appended, every field can be named without a current index, and it does not aggregate into one row; an `UPDATE` or
`DELETE` never is. -/
theorem empty_route_iff {columns : CIStr → CIStr → List String} (hcolumns : ∀ schema table, columns schema table ≠ [])
    (holds : Expr Parsed → Bool) (p : TableAliasStmtInfo) :
    (∀ stmt plan, handleSelectStmt p stmt = .ok plan → plan.info.result.indexes = [] → ∀ go executeSQLs,
      ((∃ answer, plan.executeIn go executeSQLs = .ok answer ∧ answer.OfNothing columns holds stmt) ↔
        stmt.NothingAppended ∧ (∀ f ∈ stmt.fields, f.NamedAlone) ∧ ¬ stmt.ReturnsRow holds)) ∧
    (∀ stmt plan, handleUpdatePlan p stmt = .ok plan → plan.info.result.indexes = [] → ∀ executeSQLs status,
      ¬ ∃ r, plan.doQuery executeSQLs status = .ok r ∧ r.affectedRows = 0) ∧
    ∀ stmt plan, handleDeletePlan p stmt = .ok plan → plan.info.result.indexes = [] → ∀ executeSQLs status,
      ¬ ∃ r, plan.doQuery executeSQLs status = .ok r ∧ r.affectedRows = 0 := by
  refine ⟨fun stmt plan hplan hempty go executeSQLs => executeIn_of_empty hcolumns holds hplan hempty go
    executeSQLs, ?_, ?_⟩
  · rintro stmt plan hplan hempty executeSQLs status ⟨r, hr, _⟩
    have hnil : plan.sqls = [] := by
      obtain ⟨-, -, -, -, -, -, hsqls⟩ := updateRun_of_ok hplan
      exact generateShardingSQLs_nil hsqls hempty
    obtain ⟨msg, hpanic⟩ := ModifyPlan.doQuery_nil hnil status executeSQLs
    cases hpanic.symm.trans hr
  · rintro stmt plan hplan hempty executeSQLs status ⟨r, hr, _⟩
    have hnil : plan.sqls = [] := by
      obtain ⟨-, -, -, -, -, hsqls⟩ := deleteRun_of_ok hplan
      exact generateShardingSQLs_nil hsqls hempty
    obtain ⟨msg, hpanic⟩ := ModifyPlan.doQuery_nil hnil status executeSQLs
    cases hpanic.symm.trans hr

/-- `id = 4 AND id = 5`. -/
def idIsFourAndFive : Expr Parsed :=
  .binary .logicAnd (.binary .eq (.column () (bareColumn "id")) (.value (.int64 4))) idIsFive

/-- `SELECT id FROM t WHERE id = 4 AND id = 5`, with an `ORDER BY`. -/
def selectNothing (orderBy : Option (List (ByItem Parsed))) : SelectStmt Parsed :=
  { fields := [.expr (.column () (bareColumn "id")) .empty],
    tableRefs := some (singleTable (unqualifiedTable "t") .empty)
    cond := some idIsFourAndFive, orderBy }

/-- `DELETE FROM t WHERE id = 4 AND id = 5`. -/
def deleteNothing : DeleteStmt Parsed :=
  { tableRefs := singleTable (unqualifiedTable "t") .empty, cond := some idIsFourAndFive }

/-- `UPDATE t SET a = 1 WHERE id = 4 AND id = 5`. -/
def updateNothing : UpdateStmt Parsed :=
  { tableRefs := singleTable (unqualifiedTable "t") .empty, list := [⟨bareColumn "a", .value (.int64 1)⟩],
    cond := some idIsFourAndFive }

theorem empty_route_iff_four_and_five :
    (∃ plan, handleSelectStmt (newTableAliasStmtInfo "db" hashRouter .insertion) (selectNothing none) = .ok plan ∧
      plan.info.result.indexes = [] ∧
      ∃ answer, plan.executeIn .reference (fun _ => .ok []) = .ok answer ∧
        answer.OfNothing (fun _ _ => ["id"]) (fun _ => true) (selectNothing none)) ∧
    (∃ plan, handleUpdatePlan (newTableAliasStmtInfo "db" hashRouter .insertion) updateNothing = .ok plan ∧
      plan.info.result.indexes = [] ∧ ¬ ∃ r, plan.doQuery (fun _ => .ok []) 0 = .ok r ∧ r.affectedRows = 0) ∧
    ∃ plan, handleDeletePlan (newTableAliasStmtInfo "db" hashRouter .insertion) deleteNothing = .ok plan ∧
      plan.info.result.indexes = [] ∧ ¬ ∃ r, plan.doQuery (fun _ => .ok []) 0 = .ok r ∧ r.affectedRows = 0 := by
  have hcolumns : ∀ schema table : CIStr, (fun _ _ => ["id"] : CIStr → CIStr → List String) schema table ≠ [] :=
    fun _ _ => cons_ne_nil _ _
  have h := empty_route_iff hcolumns (fun _ => true) (newTableAliasStmtInfo "db" hashRouter .insertion)
  refine ⟨?_, ?_, ?_⟩
  · refine exists_ok_of (·.info.result.indexes = []) ⟨_, rfl, rfl⟩ fun plan hplan hempty =>
      ⟨hempty, (h.1 _ plan hplan hempty _ _).2 ⟨nofun, ?_, ?_⟩⟩
    · intro f hf
      obtain rfl := mem_singleton.1 hf
      exact ⟨rfl, fun _ _ hc => by cases hc; rfl⟩
    · rintro ⟨_, ⟨f, hf, haggregate⟩ | ⟨_, ⟨⟩, _⟩, _⟩
      obtain rfl := mem_singleton.1 hf
      cases haggregate
  · exact exists_ok_of (·.info.result.indexes = []) ⟨_, rfl, rfl⟩ fun plan hplan hempty =>
      ⟨hempty, h.2.1 _ plan hplan hempty _ _⟩
  · exact exists_ok_of (·.info.result.indexes = []) ⟨_, rfl, rfl⟩ fun plan hplan hempty =>
      ⟨hempty, h.2.2 _ plan hplan hempty _ _⟩

/-- `DELETE FROM t WHERE id = 4 AND id = 5` and `SELECT id FROM t WHERE id = 4 AND id = 5 ORDER BY name` are accepted,
reach no shard, and panic. -/
theorem empty_route_panics :
    (∃ plan, handleDeletePlan (newTableAliasStmtInfo "db" hashRouter .insertion) deleteNothing = .ok plan ∧
      plan.info.result.indexes = [] ∧
      plan.doQuery (fun _ => .ok []) 0 = .error (.panic "invalid memory address or nil pointer dereference")) ∧
    ∃ plan, handleSelectStmt (newTableAliasStmtInfo "db" hashRouter .insertion)
        (selectNothing (some [⟨.column () (bareColumn "name"), false⟩])) = .ok plan ∧ plan.info.result.indexes = [] ∧
      plan.executeIn .reference (fun _ => .ok []) = .error (.panic "index out of range") :=
  ⟨⟨_, rfl, rfl, rfl⟩, ⟨_, rfl, rfl, rfl⟩⟩

end DbProxy
