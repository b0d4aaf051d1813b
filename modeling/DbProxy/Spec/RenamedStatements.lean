import DbProxy.Spec.Renaming

/-!
# Renaming tables in whole statements

The planner walks through the tables and joins of a statement and then through its clauses.  Along the walk it takes
the name of the table `t` for nothing else (`Clean`), so every clause is covered: all but its blind names is renamed.
-/

namespace DbProxy

open Fallible List

/-! ### Tables -/

variable {db : String} {router : Router} {t : String} {p p' : TableAliasStmtInfo} {i : Int} {rule : Rule}
  {n : TableName}

section Tables

variable {table asName : String}

def numbersTables (db : String) (router : Router) (t : String) : Prop :=
  ∃ r, router.getShardRule db t = some r ∧ isKingshardRule r.getType = true

theorem numbersTables.kingshard (h : numbersTables db router t)
    (hrule : router.getShardRule db t = some rule) : isKingshardRule rule.getType = true := by
  obtain ⟨r, hr, hking⟩ := h
  obtain rfl := Option.mem_unique hr hrule
  exact hking

theorem clean_new (db : String) (router : Router) (order : MapOrder) (t : String) :
    Clean db router t (newTableAliasStmtInfo db router order) := by
  refine ⟨rfl, rfl, ?_, rfl, rfl⟩
  intro r h
  cases h

section

variable (hp : Clean db router t p)

include hp

theorem Clean.recordRule (hking : numbersTables db router t)
    (hrule : router.getShardRule db table = some rule) :
    Clean db router t { p with toStmtInfo := p.toStmtInfo.recordRule table rule } := by
  unfold StmtInfo.recordRule
  split
  · next hg =>
    refine ⟨hp.database, hp.routes, hp.rules, ?_, hp.noAlias⟩
    show AssocMap.get (AssocMap.set p.globalTableRules table rule) t = none
    rw [AssocMap.get_set]
    split
    · next htable =>
      subst htable
      exact absurd hg (not_global_of_kingshard (hking.kingshard hrule)).1
    · exact hp.globals
  · refine ⟨hp.database, hp.routes, ?_, hp.globals, hp.noAlias⟩
    intro r hr
    have hget : AssocMap.get (AssocMap.set p.tableRules table rule) t = some r := hr
    rw [AssocMap.get_set] at hget
    split at hget
    · next htable =>
      subst htable
      cases hget
      exact hking.kingshard hrule
    · exact hp.rules r hget

theorem Clean.of_result {s : StmtInfo} (hs : ∃ result, s = { p.toStmtInfo with result }) :
    Clean db router t { p with toStmtInfo := s } := by
  obtain ⟨result, rfl⟩ := hs
  exact ⟨hp.database, hp.routes, hp.rules, hp.globals, hp.noAlias⟩

theorem Clean.applyCond (c : Cond) : Clean db router t (p.applyCond c) := by
  obtain ⟨hdb, hrouter, hrules, hglobals, halias⟩ := hp
  unfold TableAliasStmtInfo.applyCond
  cases c.has <;> exact ⟨hdb, hrouter, hrules, hglobals, halias⟩

theorem Clean.setTableAlias (hne : asName ≠ t)
    (h : p.setTableAlias table asName = .ok p') : Clean db router t p' := by
  unfold TableAliasStmtInfo.setTableAlias at h
  split at h
  · cases h
    refine ⟨hp.database, hp.routes, hp.rules, hp.globals, ?_⟩
    show AssocMap.get (AssocMap.set p.tableAlias asName table) t = none
    rw [AssocMap.get_set, if_neg hne]
    exact hp.noAlias
  · split at h
    · cases h
    · cases h
      exact hp

theorem Clean.rewriteTableName (hking : numbersTables db router t)
    (hne : asName ≠ t) (h : rewriteTableName p n asName = .ok (rule, p')) :
    Clean db router t p' ∧ router.getShardRule db n.name.l = some rule := by
  have h := rewriteTableName_eq_ok h
  unfold TableAliasStmtInfo.recordShardTable at h
  obtain ⟨⟨r, s⟩, hs, h⟩ := bind_eq_ok.1 h
  obtain ⟨hr, hcheck⟩ := StmtInfo.recordShardTable_eq_ok (wrapErr_eq_ok.1 hs)
  rw [hp.routes, hp.database] at hr
  have hrecorded := hp.recordRule hking hr
  have hchecked : Clean db router t { p with toStmtInfo := s } := by
    rcases StmtInfo.checkStmtRouteResult_eq_ok hcheck with rfl | ⟨_, _, _, rfl⟩
    · exact hrecorded
    · exact hrecorded.of_result ⟨_, rfl⟩
  simp only at h
  split at h
  · obtain ⟨p₁, hp₁, h⟩ := bind_eq_ok.1 h
    cases h
    exact ⟨hchecked.setTableAlias hne (wrapErr_eq_ok.1 hp₁), hr⟩
  · cases h
    exact ⟨hchecked, hr⟩

end

theorem tableName_renamed (hking : numbersTables db router t)
    (hrule : router.getShardRule db n.name.l = some rule) : ∀ r ∈ n.refs rule i, Renamed t i r := by
  intro r hr htable
  have hsource := source_of_mem_refsTo hr
  rw [hsource] at htable ⊢
  have hrule' := hking.kingshard (htable.2 ▸ hrule)
  obtain ⟨hg, hm⟩ := not_global_of_kingshard hrule'
  obtain ⟨q, hq, rfl⟩ := mem_map.1 hr
  simp only [TableName.restoreDecorated, restoreSchema_kingshard hrule', hg, hm] at hq
  rcases mem_qualifiers_append hq with hq | hq
  · exact (Option.some.inj (mem_qualifiers_tok hq)).symm
  · obtain ⟨o, ho, hq⟩ := mem_qualifiers_concat hq
    obtain ⟨hint, _, rfl⟩ := mem_map.1 ho
    rcases mem_qualifiers_append hq with hq | hq <;> exact absurd hq not_mem_qualifiers_text

end Tables

/-! ### Joins -/

variable {S T : Type}

section Joins

variable (source : S → List CIStr) (on : Expr Parsed → List CIStr)

def JoinRight.blind : JoinRight S → List CIStr
  | .source s => source s
  | .join => []

def JoinTail.blind (tail : JoinTail S Parsed) : List CIStr :=
  match tail.right with
  | none => []
  | some right => right.blind source ++ tail.on.toList.flatMap on

/-- The names that are left in the sources and the conditions of a join. -/
def Join.blind : Join S Parsed → List CIStr
  | .ofSource s tail => source s ++ tail.blind source on
  | .ofJoin j tail => Join.blind j ++ tail.blind source on

end Joins

section Walk

variable {I : TableAliasStmtInfo → Prop} {allowed : S → Prop}
  {source : TableAliasStmtInfo → S → Except Fail (T × TableAliasStmtInfo)}
  {on : TableAliasStmtInfo → Expr Parsed → Except Fail (Expr Planned × TableAliasStmtInfo)}
  {sourceBlind : S → List CIStr} {onBlind : Expr Parsed → List CIStr} {sourceRefs : T → List Ref}

/-- What a join needs of its sources and conditions: they keep the invariant of the walk and are covered. -/
structure WalkCovers (t : String) (i : Int) (I : TableAliasStmtInfo → Prop) (allowed : S → Prop)
    (source : TableAliasStmtInfo → S → Except Fail (T × TableAliasStmtInfo))
    (on : TableAliasStmtInfo → Expr Parsed → Except Fail (Expr Planned × TableAliasStmtInfo))
    (sourceBlind : S → List CIStr) (onBlind : Expr Parsed → List CIStr) (sourceRefs : T → List Ref) : Prop where
  source : ∀ {p p' s s'}, I p → allowed s → source p s = .ok (s', p') →
    I p' ∧ Covers t i (sourceBlind s) (sourceRefs s')
  on : ∀ {p p' e e'}, I p → on p e = .ok (e', p') → I p' ∧ Covers t i (onBlind e) (e'.refs i)

theorem using_renamed {columns : List ColumnName} (h : precheckJoinClause columns = .ok ()) :
    ∀ r ∈ columns.map (fun c => Ref.same c.table), Renamed t i r := by
  intro r hr
  obtain ⟨c, hc, rfl⟩ := mem_map.1 hr
  refine renamed_of_not_isTable fun htable => ?_
  unfold precheckJoinClause at h
  split at h
  · next hnone =>
    have := find?_eq_none.1 hnone c hc
    simp only [decide_eq_true_eq, not_or, not_not] at this
    exact htable.1 this.2
  · split at h <;> cases h

theorem handleJoinTail_covers
    (hw : WalkCovers t i I allowed source on sourceBlind onBlind sourceRefs) {p p' : TableAliasStmtInfo} (hp : I p)
    {tail : JoinTail S Parsed} {tail' : JoinTail T Planned} (hsources : ∀ s ∈ tail.sources, allowed s)
    (husing : precheckJoinClause tail.using_ = .ok ()) (h : handleJoinTail source on p tail = .ok (tail', p')) :
    I p' ∧ Covers t i (tail.blind sourceBlind onBlind) (tail'.refs i sourceRefs) := by
  obtain ⟨⟨right, p₁⟩, hright, h⟩ := bind_eq_ok.1 h
  obtain ⟨⟨cond, p₂⟩, hcond, h⟩ := bind_eq_ok.1 h
  cases h
  have hon : I p₁ → I p' ∧ Covers t i (tail.on.toList.flatMap onBlind) (condRefs i cond) := by
    intro hp₁
    unfold handleJoinOn at hcond
    split at hcond
    · next hnone =>
      cases hcond
      rw [hnone]
      exact ⟨hp₁, .nil⟩
    · next e hsome =>
      obtain ⟨⟨e', p₃⟩, he', hcond⟩ := bind_eq_ok.1 hcond
      cases hcond
      obtain ⟨hp', hcovers⟩ := hw.on hp₁ he'
      rw [hsome]
      exact ⟨hp', .flatMap (.cons hcovers .nil)⟩
  unfold JoinTail.blind JoinTail.refs
  cases hr : tail.right with
  | none =>
    rw [hr] at hright
    cases hright
    exact ⟨(hon hp).1, .nil⟩
  | some r =>
    rw [hr] at hright
    cases r with
    | join => cases hright
    | source s =>
      obtain ⟨⟨s', p₃⟩, hs', hright⟩ := bind_eq_ok.1 hright
      cases hright
      have hallowed : allowed s := hsources s (by simp [JoinTail.sources, hr])
      obtain ⟨hp₁, hcovers⟩ := hw.source hp hallowed (wrapErr_eq_ok.1 hs')
      obtain ⟨hp', hcond⟩ := hon hp₁
      exact ⟨hp', (hcovers.append hcond).append_renamed (using_renamed husing)⟩

theorem handleJoinWith_covers (hw : WalkCovers t i I allowed source on sourceBlind onBlind sourceRefs)
    {j : Join S Parsed} : ∀ {p p' : TableAliasStmtInfo} {j' : Join T Planned}, I p → (∀ s ∈ j.sources, allowed s) →
      handleJoinWith source on p j = .ok (j', p') →
      I p' ∧ Covers t i (j.blind sourceBlind onBlind) (j'.refs i sourceRefs) := by
  induction j with
  | ofSource left tail =>
    intro p p' j' hp hsources h
    obtain ⟨left', p₁, tail', hleft, htail, husing, rfl⟩ := handleJoin_ofSource h
    obtain ⟨hp₁, hcovers⟩ := hw.source hp (hsources left mem_cons_self) hleft
    obtain ⟨hp', htail⟩ :=
      handleJoinTail_covers hw hp₁ (fun s hs => hsources s (mem_cons_of_mem left hs)) husing htail
    exact ⟨hp', hcovers.append htail⟩
  | ofJoin left tail ih =>
    intro p p' j' hp hsources h
    obtain ⟨left', p₁, tail', hleft, htail, husing, rfl⟩ := handleJoin_ofJoin h
    obtain ⟨hp₁, hcovers⟩ := ih hp (fun s hs => hsources s (mem_append_left _ hs)) hleft
    obtain ⟨hp', htail⟩ := handleJoinTail_covers hw hp₁ (fun s hs => hsources s (mem_append_right _ hs)) husing htail
    exact ⟨hp', hcovers.append htail⟩

end Walk

/-! ### Clauses -/

/-- The names that are left of a column by a visitor, and of a condition, an `ON`, an item and a table source. -/
structure ClauseBlind (S : Type) where
  column : ColumnName → List CIStr
  cond : Expr Parsed → List CIStr
  on : Expr Parsed → List CIStr
  item : Expr Parsed → List CIStr
  source : S → List CIStr

def SelectField.blind (column : ColumnName → List CIStr) : SelectField Parsed → List CIStr
  | .wildcard _ table => [table]
  | .expr e _ => e.leftBy column

def byItemsBlind (item : Expr Parsed → List CIStr) (items : Option (List (ByItem Parsed))) : List CIStr :=
  (items.getD []).flatMap fun i => item i.expr

def SelectClauses.blind {S : Type} (b : ClauseBlind S) (s : SelectClauses S Parsed) : List CIStr :=
  qualifiers s.options ++ s.fields.flatMap (SelectField.blind b.column) ++
  s.tableRefs.toList.flatMap (Join.blind b.source b.on) ++ s.cond.toList.flatMap b.cond ++
  byItemsBlind b.item s.groupBy ++ s.having.toList.flatMap (Expr.leftBy b.column) ++ s.windows.flatMap Expr.names ++
  byItemsBlind b.item s.orderBy ++ s.limit.toList.flatMap Limit.names ++ qualifiers s.lock

section Clauses

variable {m : Type → Type} [Monad m] {f : ColumnName → m (Option ColumnNameDecorator)}
  {column : ColumnName → List CIStr}

theorem fieldAccept_covers (post : Post m) (hf : ∀ c, post.holds (f c) (Visits t i column c))
    (field : SelectField Parsed) :
    post.holds (field.accept f) (fun field' => Covers t i (field.blind column) (field'.refs i)) := by
  cases field with
  | wildcard schema table => exact post.of_pure (.same [table])
  | expr e asName => exact post.of_bind (accept_covers post hf e) fun _ he => post.of_pure he

theorem byItemAccept_covers (post : Post m) (hf : ∀ c, post.holds (f c) (Visits t i column c))
    (item : ByItem Parsed) :
    post.holds (item.accept f) (fun item' => Covers t i (item.expr.leftBy column) (item'.refs i)) :=
  post.of_bind (accept_covers post hf item.expr) fun _ he => post.of_pure he

theorem Covers.of_rel {α β : Type} {blind : α → List CIStr} {refs : β → List Ref} {o : Option α} {o' : Option β}
    (h : Option.Rel (fun a b => Covers t i (blind a) (refs b)) o o') :
    Covers t i (o.toList.flatMap blind) (o'.toList.flatMap refs) := by
  cases h with
  | none => exact .nil
  | some hab => exact .flatMap (.cons hab .nil)

theorem byItems_covers {item : Expr Parsed → List CIStr} {items : Option (List (ByItem Parsed))}
    {items' : Option (List (ByItem Planned))}
    (h : Option.Rel (Forall₂ fun a b => Covers t i (item a.expr) (b.refs i)) items items') :
    Covers t i (byItemsBlind item items) (byItemsRefs i items') := by
  cases h with
  | none => exact .nil
  | some hall => exact .flatMap hall

theorem windows_covers (windows : List (Expr Parsed)) :
    Covers t i (windows.flatMap Expr.names) ((windows.map Expr.untouched).flatMap (Expr.refs i)) := by
  refine .flatMap (forall₂_map_right_iff.2 (forall₂_same.2 ?_))
  exact fun e _ => covers_untouched e

end Clauses

/-! ### Subqueries -/

/-- In a subquery a column of another database is left. -/
def foreignBlind (db : String) (c : ColumnName) : List CIStr :=
  if c.schema.o ≠ "" ∧ c.schema.o ≠ db then [c.table] else []

/-- In a subquery everything goes through the visitor. -/
def innerBlind (db : String) : ClauseBlind (InnerSource Parsed) where
  column := foreignBlind db
  cond := Expr.leftByRoot (foreignBlind db)
  on := Expr.leftBy (foreignBlind db)
  item := Expr.leftBy (foreignBlind db)
  source _ := []

section

variable (hking : numbersTables db router t) (ht : t ≠ "")

include hking ht

omit ht in
theorem visits_subquery (c : ColumnName) :
    (Post.state (Clean db router t)).holds (subqueryColumnNameRewriteVisitor c) (Visits t i (foreignBlind db) c) := by
  have visits : ∀ {names d}, foreignBlind db c = names → Covers t i names (refsTo c.table (restoreColumn i d c)) →
      Covers t i names (if d.isSome then [] else [.same c.table]) → Visits t i (foreignBlind db) c d :=
    fun hnames hcolumn hvalues => ⟨hnames ▸ hcolumn, hnames ▸ hvalues⟩
  intro p hp
  unfold subqueryColumnNameRewriteVisitor StmtInfo.getShardRule StmtInfo.checkAndGetDB
  rw [hp.database, hp.routes]
  by_cases hforeign : c.schema.o ≠ "" ∧ c.schema.o ≠ db
  · rw [if_pos hforeign]
    exact ⟨hp, visits (if_pos hforeign) (.same [c.table]) (.same [c.table])⟩
  · rw [if_neg hforeign]
    have undecorated : ¬ c.table.isTable t → Visits t i (foreignBlind db) c none := by
      intro hno
      have h : ∀ r ∈ [Ref.same c.table], Renamed t i r := by
        intro r hr
        rw [mem_singleton.1 hr]
        exact renamed_of_not_isTable hno
      exact visits (if_neg hforeign) (.renamed h) (.renamed h)
    simp only [bind, Except.bind]
    cases hget : router.getShardRule db c.table.l with
    | none =>
      refine ⟨hp, undecorated fun htable => ?_⟩
      obtain ⟨r, hr, _⟩ := hking
      rw [← htable.2, hget] at hr
      cases hr
    | some rule =>
      refine ⟨hp.recordRule hking hget, ?_⟩
      simp only
      split
      · next hg =>
        exact undecorated fun htable => (not_global_of_kingshard (hking.kingshard (htable.2 ▸ hget))).1 hg
      · refine visits (if_neg hforeign) (.renamed ?_) .nil
        intro r hr htable
        rw [source_of_mem_refsTo hr] at htable ⊢
        rw [refsTo_kingshard (hking.kingshard (htable.2 ▸ hget)) htable.1] at hr
        rw [mem_singleton.1 hr]

theorem walkCovers_subquery :
    WalkCovers t i (Clean db router t) (fun _ => True) rewriteSubqueryTableSource
      (fun p e => .ok (Expr.accept subqueryColumnNameRewriteVisitor e p)) (innerBlind db).source (innerBlind db).on
      (InnerSource.refs i) := by
  constructor
  · intro p p' s s' hp _ h
    cases s with
    | select => cases h
    | table a n asName =>
      obtain ⟨⟨rule, p₁⟩, hrule, h⟩ := bind_eq_ok.1 h
      cases h
      obtain ⟨hp', hrule⟩ := hp.rewriteTableName hking (Ne.symm ht) hrule
      exact ⟨hp', .renamed (tableName_renamed hking hrule)⟩
  · intro p p' e e' hp h
    have hstep := accept_covers (Post.state (Clean db router t)) (visits_subquery (i := i) hking) e p hp
    rw [Except.ok.inj h] at hstep
    exact hstep

omit ht in
/-- The clauses of a subquery behind its `FROM`, each visited in the state that the one before it left. -/
theorem subqueryClauses_covers (hp : Clean db router t p)
    (s : SelectClauses (InnerSource Parsed) Parsed) {tableRefs : Option (Join (InnerSource Planned) Planned)}
    (hfrom : Covers t i (s.tableRefs.toList.flatMap (Join.blind (innerBlind db).source (innerBlind db).on))
      (tableRefs.toList.flatMap (Join.refs i (InnerSource.refs i)))) :
    let visitor := subqueryColumnNameRewriteVisitor
    let cond := acceptOption (Expr.acceptRoot visitor) s.cond p
    let fields := s.fields.mapM (SelectField.accept visitor) cond.2
    let groupBy := acceptOption (List.mapM (ByItem.accept visitor)) s.groupBy fields.2
    let having := acceptOption (Expr.accept visitor) s.having groupBy.2
    let orderBy := acceptOption (List.mapM (ByItem.accept visitor)) s.orderBy having.2
    let visited : SelectClauses (InnerSource Planned) Planned :=
      { options := s.options, distinct := s.distinct, fields := fields.1, tableRefs, cond := cond.1
        groupBy := groupBy.1, having := having.1, windows := s.windows.map Expr.untouched, orderBy := orderBy.1
        limit := s.limit, lock := s.lock }
    Clean db router t orderBy.2 ∧ Covers t i (s.blind (innerBlind db)) (visited.refs i (InnerSource.refs i)) := by
  let post := Post.state (Clean db router t)
  have visits : ∀ c, post.holds (subqueryColumnNameRewriteVisitor c) (Visits t i (foreignBlind db) c) :=
    visits_subquery hking
  obtain ⟨hp₂, hcond⟩ := acceptOption_holds post (acceptRoot_covers post visits) s.cond p hp
  obtain ⟨hp₃, hfields⟩ := post.of_mapM (fieldAccept_covers post visits) s.fields _ hp₂
  obtain ⟨hp₄, hgroup⟩ := acceptOption_holds post (post.of_mapM (byItemAccept_covers post visits)) s.groupBy _ hp₃
  obtain ⟨hp₅, hhaving⟩ := acceptOption_holds post (accept_covers post visits) s.having _ hp₄
  obtain ⟨hp₆, horder⟩ := acceptOption_holds post (post.of_mapM (byItemAccept_covers post visits)) s.orderBy _ hp₅
  refine ⟨hp₆, ?_⟩
  have hselect := (Covers.same (qualifiers s.options)).append (Covers.flatMap hfields)
  exact (((((((hselect.append hfrom).append (.of_rel hcond)).append (byItems_covers hgroup)).append
    (.of_rel hhaving)).append (windows_covers s.windows)).append (byItems_covers horder)).append
    (.same _)).append (.same _)

theorem handleSubquerySelectStmt_covers (hp : Clean db router t p)
    {s : SelectClauses (InnerSource Parsed) Parsed} {s' : SelectClauses (InnerSource Planned) Planned}
    (h : handleSubquerySelectStmt p s = .ok (s', p')) :
    Clean db router t p' ∧ Covers t i (s.blind (innerBlind db)) (s'.refs i (InnerSource.refs i)) := by
  unfold handleSubquerySelectStmt at h
  rw [recoverErr_eq_ok] at h
  simp only at h
  split at h
  · next hnone =>
    cases h
    refine subqueryClauses_covers hking hp s ?_
    rw [hnone]
    exact .nil
  · next j hsome =>
    obtain ⟨⟨j', p₁⟩, hj, h⟩ := bind_eq_ok.1 h
    cases h
    obtain ⟨hp₁, hj⟩ := handleJoinWith_covers (walkCovers_subquery (i := i) hking ht) hp (fun _ _ => trivial)
      (wrapErr_eq_ok.1 hj)
    refine subqueryClauses_covers hking hp₁ s ?_
    rw [hsome]
    exact .flatMap (.cons hj .nil)

end

/-! ### Table sources -/

/-- The names that a table source introduces; the planner keeps a subquery under a second name. -/
def TableSource.aliases : TableSource Parsed → List String
  | .table _ _ asName => [asName.l]
  | .select _ asName => [asName.l, "gaea_subquery_" ++ asName.l]

def TableSource.blind (db : String) : TableSource Parsed → List CIStr
  | .table _ _ _ => []
  | .select s _ => s.blind (innerBlind db)

/-- In a `SELECT` itself conditions and items have handlers of their own. -/
def outerBlind (db : String) : ClauseBlind (TableSource Parsed) where
  column _ := []
  cond := Expr.condBlind
  on := Expr.condBlind
  item := Expr.operandBlind
  source := TableSource.blind db

theorem Clean.recordSubqueryTableAlias (hp : Clean db router t p) {asName : String} (hne : asName ≠ t)
    (hne' : "gaea_subquery_" ++ asName ≠ t) (h : p.recordSubqueryTableAlias asName = .ok p') :
    Clean db router t p' := by
  unfold TableAliasStmtInfo.recordSubqueryTableAlias at h
  split at h
  · cases h
  · split at h
    · cases h
    · obtain ⟨p₁, hp₁, h⟩ := bind_eq_ok.1 h
      cases h
      have hp₁ := hp.setTableAlias hne (wrapErr_eq_ok.1 hp₁)
      refine ⟨hp₁.database, hp₁.routes, ?_, hp₁.globals, hp₁.noAlias⟩
      intro r hr
      have hget : AssocMap.get (AssocMap.set p₁.tableRules _ _) t = some r := hr
      rw [AssocMap.get_set_ne _ hne'] at hget
      exact hp₁.rules r hget

theorem walkCovers_statement (hking : numbersTables db router t) (ht : t ≠ "") :
    WalkCovers t i (Clean db router t) (fun s => ∀ a ∈ s.aliases, a ≠ t) rewriteTableSource rewriteOnCondition
      (TableSource.blind db) Expr.condBlind (TableSource.refs i) := by
  constructor
  · intro p p' s s' hp hallowed h
    cases s with
    | table a n asName =>
      obtain ⟨⟨rule, p₁⟩, hrule, h⟩ := bind_eq_ok.1 h
      cases h
      obtain ⟨hp', hrule⟩ := hp.rewriteTableName hking (hallowed _ mem_cons_self) hrule
      exact ⟨hp', .renamed (tableName_renamed hking hrule)⟩
    | select s asName =>
      obtain ⟨⟨s₁, p₁⟩, hs, h⟩ := bind_eq_ok.1 h
      obtain ⟨hp₁, hcovers⟩ := handleSubquerySelectStmt_covers hking ht hp (wrapErr_eq_ok.1 hs)
      simp only at h
      split at h
      · obtain ⟨p₂, hp₂, h⟩ := bind_eq_ok.1 h
        cases h
        refine ⟨hp₁.recordSubqueryTableAlias (hallowed _ ?_) (hallowed _ ?_) (wrapErr_eq_ok.1 hp₂), hcovers⟩
        · exact mem_cons_self
        · exact mem_cons_of_mem _ mem_cons_self
      · cases h
        exact ⟨hp₁, hcovers⟩
  · intro p p' e e' hp h
    obtain ⟨c, hc, h⟩ := bind_eq_ok.1 (wrapErr_eq_ok.1 h)
    cases h
    exact ⟨hp.applyCond c, handleComparisonExpr_covers hp ht (wrapErr_eq_ok.1 hc)⟩

theorem handleWhere_covers (ht : t ≠ "") (hp : Clean db router t p) {e : Option (Expr Parsed)}
    {e' : Option (Expr Planned)} (h : handleWhere p e = .ok (e', p')) :
    Clean db router t p' ∧ Covers t i (e.toList.flatMap Expr.condBlind) (condRefs i e') := by
  cases e with
  | none =>
    cases h
    exact ⟨hp, .nil⟩
  | some e =>
    obtain ⟨c, hc, h⟩ := bind_eq_ok.1 h
    cases h
    exact ⟨hp.applyCond c, .flatMap (.cons (handleComparisonExpr_covers hp ht (wrapErr_eq_ok.1 hc)) .nil)⟩

theorem byColumn_covers (ht : t ≠ "") (hp : Clean db router t p) {c : ColumnName} {d : Option ColumnNameDecorator}
    (h : needCreateColumnNameExprDecoratorInField p c = .ok d) :
    Covers t i [] (refsTo c.table (restoreColumn i d c)) := .renamed (hp.renamed_field ht h).1

/-! ### `SELECT` -/

variable {order : MapOrder}

section Select

variable {p : TableAliasStmtInfo}

theorem handleFieldList_covers (ht : t ≠ "") (hp : Clean db router t p) {fields : List (SelectField Parsed)}
    {fields' : List (SelectField Planned)} {mergers : AssocMap Nat AggregateFunc}
    (h : handleFieldList p fields = .ok (fields', mergers)) :
    Covers t i (fields.flatMap (SelectField.blind fun _ => [])) (fields'.flatMap (SelectField.refs i)) := by
  obtain ⟨fs, hfs, h⟩ := bind_eq_ok.1 (recoverErr_eq_ok.1 h)
  obtain ⟨ms, _, h⟩ := bind_eq_ok.1 h
  cases h
  exact .flatMap ((Post.ok Fail).of_mapM (fieldAccept_covers _ (visits_rewriteVisitor hp ht)) fields _ hfs)

theorem createSelectFieldsFromByItems_covers (ht : t ≠ "") (hp : Clean db router t p)
    {items : Option (List (ByItem Parsed))} {items' : Option (List (ByItem Planned))}
    (h : createSelectFieldsFromByItems p items = .ok items') :
    Covers t i (byItemsBlind Expr.operandBlind items) (byItemsRefs i items') := by
  refine byItems_covers ?_
  cases items with
  | none =>
    cases h
    exact .none
  | some items =>
    obtain ⟨bs, hbs, h⟩ := bind_eq_ok.1 h
    cases h
    refine .some (((mapM_eq_ok.1 hbs)).imp ?_)
    intro a b hab
    unfold createSelectFieldFromByItem at hab
    split at hab
    · next heq =>
      split at hab
      · cases hab
        rw [heq]
        exact covers_untouched _
      · cases hab
    · next heq =>
      obtain ⟨d, hd, hab⟩ := bind_eq_ok.1 hab
      cases hab
      rw [heq]
      exact byColumn_covers ht hp hd
    · cases hab

theorem rewriteLimit_names {limit limit' : Option Limit} {offset count : Int}
    (h : rewriteLimit limit = .ok (offset, count, limit')) :
    limit.toList.flatMap Limit.names = [] ∧ limit'.toList.flatMap Limit.names = [] := by
  unfold rewriteLimit at h
  split at h
  · cases h
    exact ⟨rfl, rfl⟩
  · next l =>
    have literals : ∀ l : Limit, (∃ v, l.count = .value v) → (∀ e ∈ l.offset, ∃ v, e = .value v) → l.names = [] := by
      rintro ⟨count, offset⟩ ⟨v, rfl⟩ hoffset
      cases offset with
      | none => rfl
      | some e =>
        obtain ⟨w, rfl⟩ := hoffset e rfl
        rfl
    have hnames : ∀ l : Limit, l.names = [] → (some l).toList.flatMap Limit.names = [] := by
      intro l hl
      simpa using hl
    split at h
    · next count hcount hoffset =>
      cases h
      have := hnames l (literals l ⟨_, hcount⟩ (by simp [hoffset]))
      exact ⟨this, this⟩
    · next count offset hcount hoffset =>
      have := hnames l (literals l ⟨_, hcount⟩ (by simp [hoffset]))
      split at h
      · cases h
        exact ⟨this, this⟩
      · cases h
        exact ⟨this, rfl⟩
    · cases h

theorem extraFields_refs (items : Option (List (ByItem Planned))) :
    (extraFields items).flatMap (SelectField.refs i) = byItemsRefs i items := by
  unfold extraFields byItemsRefs
  rw [flatMap_map]
  rfl

theorem Covers.widen {b : List CIStr} {r f f' r' : List Ref} (h : Covers t i b (r ++ (f ++ r')))
    (hkept : ∀ x ∈ f, x ∈ f') (hadded : ∀ x ∈ f', x ∈ f ++ r') : Covers t i b (r ++ (f' ++ r')) := by
  constructor
  · intro x hx
    refine h.sound x ?_
    rcases mem_append.1 hx with hx | hx
    · exact mem_append_left _ hx
    · rcases mem_append.1 hx with hx | hx
      · exact mem_append_right _ (hadded x hx)
      · exact mem_append_right _ (mem_append_right _ hx)
  · intro q hq
    rcases mem_append.1 (h.complete q hq) with hx | hx
    · exact mem_append_left _ hx
    · rcases mem_append.1 hx with hx | hx
      · exact mem_append_right _ (mem_append_left _ (hkept _ hx))
      · exact mem_append_right _ (mem_append_right _ hx)

theorem select_covers (hking : numbersTables db router t) (ht : t ≠ "") {stmt : SelectStmt Parsed} {plan : SelectPlan}
    (haliases : ∀ j ∈ stmt.tableRefs, ∀ s ∈ j.sources, ∀ a ∈ s.aliases, a ≠ t)
    (h : SelectRun (newTableAliasStmtInfo db router order) stmt plan) :
    Covers t i (stmt.blind (outerBlind db)) (plan.stmt.refs i) := by
  obtain ⟨hrefs, hfields, hgroup, horder, hextra, hwhere, hhaving, hlimit, hhint, rfl, hsqls⟩ := h
  rename_i tableRefs p₁ p₂ p₃ fields aggregateFuncs groupBy orderBy cond having offset count limit _ _ allFields _
  have hfrom : Clean db router t p₁ ∧ Covers t i (stmt.tableRefs.toList.flatMap
      (Join.blind (TableSource.blind db) Expr.condBlind)) (tableRefs.toList.flatMap
      (Join.refs i (TableSource.refs i))) := by
    cases hs : stmt.tableRefs with
    | none =>
      rw [hs] at hrefs
      cases hrefs
      exact ⟨clean_new db router order t, .nil⟩
    | some j =>
      rw [hs] at hrefs
      obtain ⟨⟨j', p₄⟩, hj, hrefs⟩ := bind_eq_ok.1 hrefs
      cases hrefs
      obtain ⟨hp₁, hj⟩ := handleJoinWith_covers (walkCovers_statement (i := i) hking ht)
        (clean_new db router order t) (haliases j hs) hj
      exact ⟨hp₁, .flatMap (.cons hj .nil)⟩
  obtain ⟨hp₁, hfrom⟩ := hfrom
  obtain ⟨hp₂, hcond⟩ := handleWhere_covers (i := i) ht hp₁ hwhere
  have hfields := handleFieldList_covers (i := i) ht hp₁ hfields
  have hgroup := createSelectFieldsFromByItems_covers (i := i) ht hp₁ hgroup
  have horder := createSelectFieldsFromByItems_covers (i := i) ht hp₁ horder
  have hhaving : Covers t i (stmt.having.toList.flatMap (Expr.leftBy fun _ => [])) (condRefs i having) :=
    .of_rel (acceptOption_holds (Post.ok Fail) (accept_covers _ (visits_rewriteVisitor hp₂ ht)) stmt.having _
      (recoverErr_eq_ok.1 hhaving))
  have hlimit : Covers t i (stmt.limit.toList.flatMap Limit.names)
      ((limit.toList.flatMap Limit.names).map .same) := by
    obtain ⟨hbefore, hafter⟩ := rewriteLimit_names hlimit
    rw [hbefore, hafter]
    exact .nil
  have hselect := (Covers.same (qualifiers stmt.options)).append hfields
  have hall : Covers t i (stmt.blind (outerBlind db)) _ :=
    (((((((hselect.append hfrom).append hcond).append hgroup).append hhaving).append
    (windows_covers stmt.windows)).append horder).append hlimit).append (.same (qualifiers stmt.lock))
  -- the appended fields refer to what the items refer to
  have hlength : ∀ items, (extraFields items).length = (items.getD []).length := fun items => length_map _
  rw [← hlength groupBy, ← hlength orderBy] at hextra
  obtain ⟨hfields', _, _⟩ := handleExtraFieldList_spec hextra
  have hkept : ∀ x ∈ fields.flatMap (SelectField.refs i), x ∈ allFields.flatMap (SelectField.refs i) := by
    intro x hx
    rw [hfields', flatMap_append, flatMap_append]
    exact mem_append_left _ (mem_append_left _ hx)
  have hadded : ∀ x ∈ allFields.flatMap (SelectField.refs i),
      (x ∈ fields.flatMap (SelectField.refs i) ∨ x ∈ byItemsRefs i groupBy) ∨ x ∈ byItemsRefs i orderBy := by
    intro x hx
    obtain ⟨f, hf, hx⟩ := mem_flatMap.1 hx
    rw [hfields', mem_append, mem_append] at hf
    rw [← extraFields_refs, ← extraFields_refs]
    exact hf.imp (Or.imp (fun hf => mem_flatMap.2 ⟨f, hf, hx⟩)
      fun hf => mem_flatMap.2 ⟨f, mem_of_mem_filter hf, hx⟩)
      fun hf => mem_flatMap.2 ⟨f, mem_of_mem_filter hf, hx⟩
  simp only [SelectStmt.refs, SelectClauses.refs, tokRefs, append_assoc] at hall ⊢
  refine Covers.widen hall hkept fun x hx => ?_
  rcases hadded x hx with (hx | hx) | hx <;> simp only [mem_append, hx, true_or, or_true]

end Select

/-! ### `UPDATE` and `DELETE` -/

def assignmentsBlind (as : List Assignment) : List CIStr := as.flatMap fun a => a.expr.names

def UpdateStmt.blind (db : String) (s : UpdateStmt Parsed) : List CIStr :=
  qualifiers s.options ++ s.tableRefs.blind (TableSource.blind db) Expr.condBlind ++ assignmentsBlind s.list ++
  s.cond.toList.flatMap Expr.condBlind ++ s.limit.toList.flatMap Limit.names

def DeleteStmt.blind (db : String) (s : DeleteStmt Parsed) : List CIStr :=
  qualifiers s.options ++ s.tables.map TableName.name ++ s.tableRefs.blind (TableSource.blind db) Expr.condBlind ++
  s.cond.toList.flatMap Expr.condBlind ++ s.limit.toList.flatMap Limit.names

section Modify

variable {p : TableAliasStmtInfo}

theorem renamed_empty : Renamed t i (.same .empty) := renamed_of_not_isTable fun htable => htable.1 rfl

theorem assignments_covers {as as' : List Assignment}
    (h : Forall₂ (fun a a' => a' = { a with column := a.column.bare }) as as') :
    Covers t i (assignmentsBlind as) ((as'.flatMap Assignment.names).map .same) := by
  unfold assignmentsBlind
  rw [map_flatMap]
  refine .flatMap (h.imp ?_)
  rintro a _ rfl
  have hcolumn : Covers t i [] [.same .empty] := .renamed fun r hr => mem_singleton.1 hr ▸ renamed_empty
  exact hcolumn.append (.same a.expr.names)

theorem handleUpdateAssignment_eq_ok {a a' : Assignment} (h : handleUpdateAssignment p a = .ok a') :
    a' = { a with column := a.column.bare } := by
  obtain ⟨d, _, h⟩ := bind_eq_ok.1 h
  cases d with
  | none => exact (Except.ok.inj h).symm
  | some d =>
    simp only at h
    split at h
    · cases h
    · exact (Except.ok.inj h).symm

theorem handleModifyOrderBy_covers (ht : t ≠ "") (hp : Clean db router t p) {items : Option (List (ByItem Parsed))}
    {items' : Option (List (ByItem Planned))} (h : handleModifyOrderBy p items = .ok items') :
    ∀ r ∈ byItemsRefs i items', Renamed t i r := by
  cases items with
  | none =>
    cases h
    exact fun r hr => absurd hr not_mem_nil
  | some items =>
    obtain ⟨bs, hbs, h⟩ := bind_eq_ok.1 h
    cases h
    intro r hr
    obtain ⟨b, hb, hr⟩ := mem_flatMap.1 hr
    obtain ⟨a, _, hab⟩ := exists_of_mem (mapM_eq_ok.1 hbs).flip hb
    unfold handleModifyByItem at hab
    split at hab
    · obtain ⟨d, hd, hab⟩ := bind_eq_ok.1 hab
      cases hab
      exact (hp.renamed_field ht hd).1 r hr
    · cases hab

theorem handleModifyTableRefs_covers (hking : numbersTables db router t) (ht : t ≠ "")
    {j : Join (TableSource Parsed) Parsed} {j' : Join (TableSource Planned) Planned}
    (haliases : ∀ s ∈ j.sources, ∀ a ∈ s.aliases, a ≠ t)
    (h : handleModifyTableRefs (newTableAliasStmtInfo db router order) j = .ok (j', p)) :
    Clean db router t p ∧ Covers t i (j.blind (TableSource.blind db) Expr.condBlind)
      (j'.refs i (TableSource.refs i)) := by
  unfold handleModifyTableRefs at h
  split at h
  · cases h
  · exact handleJoinWith_covers (walkCovers_statement hking ht) (clean_new db router order t) haliases h

theorem update_covers (hking : numbersTables db router t) (ht : t ≠ "") {stmt : UpdateStmt Parsed}
    {plan : ModifyPlan (UpdateStmt Planned)} (haliases : ∀ s ∈ stmt.tableRefs.sources, ∀ a ∈ s.aliases, a ≠ t)
    (h : UpdateRun (newTableAliasStmtInfo db router order) stmt plan) :
    Covers t i (stmt.blind db) (plan.stmt.refs i) := by
  obtain ⟨hrefs, hlist, hwhere, horder, _, rfl, _⟩ := h
  obtain ⟨hp₁, hfrom⟩ := handleModifyTableRefs_covers (i := i) hking ht haliases hrefs
  obtain ⟨hp₂, hcond⟩ := handleWhere_covers (i := i) ht hp₁ hwhere
  have hlist := (mapM_eq_ok.1 hlist).imp fun _ _ h => handleUpdateAssignment_eq_ok h
  have hhead := ((Covers.same (qualifiers stmt.options)).append hfrom).append
    (assignments_covers (t := t) (i := i) hlist)
  exact ((hhead.append hcond).append_renamed (handleModifyOrderBy_covers ht hp₂ horder)).append (.same _)

theorem delete_covers (hking : numbersTables db router t) (ht : t ≠ "") {stmt : DeleteStmt Parsed}
    {plan : ModifyPlan (DeleteStmt Planned)} (haliases : ∀ s ∈ stmt.tableRefs.sources, ∀ a ∈ s.aliases, a ≠ t)
    (h : DeleteRun (newTableAliasStmtInfo db router order) stmt plan) :
    Covers t i (stmt.blind db) (plan.stmt.refs i) := by
  obtain ⟨hrefs, hwhere, horder, _, rfl, _⟩ := h
  obtain ⟨hp₁, hfrom⟩ := handleModifyTableRefs_covers (i := i) hking ht haliases hrefs
  obtain ⟨hp₂, hcond⟩ := handleWhere_covers (i := i) ht hp₁ hwhere
  have hhead := ((Covers.same (qualifiers stmt.options)).append (.same (stmt.tables.map TableName.name))).append hfrom
  exact ((hhead.append hcond).append_renamed (handleModifyOrderBy_covers ht hp₂ horder)).append (.same _)

end Modify

/-! ### `INSERT` -/

/-- The rows that are sent to the sub-table `i`. -/
def InsertStmt.rowsFor (rule : Rule) (i : Int) (s : InsertStmt Parsed) : List (List (Expr Parsed)) :=
  if s.isAssignment then s.lists
  else match shardingColumnIndex rule.getShardingColumn 0 none s.columns with
    | some k => s.lists.filter fun row => literalRowIndex rule k row = some i
    | none => []

def InsertStmt.blind (rule : Rule) (i : Int) (s : InsertStmt Parsed) : List CIStr :=
  qualifiers s.options ++ (if s.isAssignment then s.columns.map ColumnName.table else []) ++
  rowNames (s.rowsFor rule i) ++ assignmentsBlind s.setlist ++ assignmentsBlind (s.onDuplicate.getD [])

section Insert

variable {seqs : SequenceManager} {stmt stmt₁ : InsertStmt Parsed} {asName : CIStr}
  {tail : JoinTail (TableSource Parsed) Parsed} {plan : InsertPlan}

theorem handleInsertTableRefs_refs {p p' : StmtInfo} {table : InsertTable}
    (h : handleInsertTableRefs p (.ofSource (.table () n asName) tail) = .ok (table, p')) :
    table.tableRefs.refs i (TableSource.refs i) = n.refs table.rule i := by
  unfold handleInsertTableRefs at h
  split at h
  · cases h
  · simp only at h
    obtain ⟨⟨r, p₁⟩, _, h⟩ := bind_eq_ok.1 h
    simp only at h
    split at h
    · cases h
      exact append_nil _
    · cases h

theorem handleInsertOnDuplicate_covers {as as' : Option (List Assignment)}
    (h : handleInsertOnDuplicate rule as = .ok as') :
    Covers t i (assignmentsBlind (as.getD [])) (((as'.getD []).flatMap Assignment.names).map .same) := by
  cases as with
  | none =>
    cases h
    exact .nil
  | some as =>
    obtain ⟨bs, hbs, h⟩ := bind_eq_ok.1 h
    cases h
    refine assignments_covers ((mapM_eq_ok.1 hbs).imp ?_)
    intro a a' h
    unfold handleInsertOnDuplicateAssignment at h
    split at h
    · cases h
    · exact (Except.ok.inj h).symm

theorem bareColumns_renamed (columns : List ColumnName) :
    ∀ r ∈ ((columns.map ColumnName.bare).map ColumnName.table).map Ref.same, Renamed t i r := by
  intro r hr
  obtain ⟨q, hq, rfl⟩ := mem_map.1 hr
  obtain ⟨c, hc, rfl⟩ := mem_map.1 hq
  obtain ⟨c', _, rfl⟩ := mem_map.1 hc
  exact renamed_empty

theorem insert_covers (hking : numbersTables db router t)
    (hrefs : stmt.tableRefs = .ofSource (.table () n asName) tail)
    (hname : n.name.l = t) (hrule : router.getShardRule db t = some rule)
    (hseq : handleInsertGlobalSequenceValue (seqs db t) stmt.isAssignment stmt = .ok stmt₁)
    (hplan : handleInsertStmt (newStmtInfo db router order) seqs stmt = .ok plan) :
    Covers t i (stmt₁.blind rule i) (plan.stmt.refs i) := by
  subst hname
  have hg := (not_global_of_kingshard (hking.kingshard hrule)).1
  -- the rows are those of the steps of the plan
  obtain ⟨stmt', k, hseq', hsteps⟩ := insertSteps_of_ok hrefs hrule hg hplan
  obtain rfl := ok_unique hseq hseq'
  have hlength : stmt₁.setlist.length = stmt.setlist.length := by
    obtain ⟨lists, setlist, rfl, hlength⟩ := handleInsertGlobalSequenceValue_eq_ok hseq
    exact hlength
  have hmode : stmt₁.isAssignment = stmt.isAssignment := InsertStmt.isAssignment_eq hlength
  rw [← hmode] at hsteps
  cases insertRun_of_ok hplan with
  | onGlobal _ htable hg' _ =>
    rw [hrefs] at htable
    obtain ⟨_, hrule', _⟩ := handleInsertTableRefs_eq_ok htable
    obtain rfl := Option.mem_unique hrule hrule'
    exact absurd hg' hg
  | @onSharded mode table p₁ p₂ stmt₁' stmt₂ k' onDuplicate listsAssist planned sqls hmode' htable _ hseq' hcolumns
      hduplicate hvalues hplanned hsqls =>
    rw [hrefs] at htable
    obtain ⟨htableName, hrule', hdb, _, _⟩ := handleInsertTableRefs_eq_ok htable
    obtain rfl := Option.mem_unique hrule hrule'
    obtain rfl := precheckInsertStmt_eq_ok hmode'
    rw [hdb, htableName] at hseq'
    obtain rfl := ok_unique hseq hseq'
    rw [← hmode] at hcolumns hvalues
    have htable : ∀ r ∈ table.tableRefs.refs i (TableSource.refs i), Renamed n.name.l i r := by
      rw [handleInsertTableRefs_refs htable]
      exact tableName_renamed hking hrule
    have hduplicate := handleInsertOnDuplicate_covers (t := n.name.l) (i := i) hduplicate
    have hhead := (Covers.same (qualifiers stmt₁.options)).append_renamed htable
    unfold InsertStmt.blind InsertStmt.rowsFor
    unfold handleInsertColumnNames at hcolumns
    split at hcolumns
    · cases hcolumns
    cases hassign : stmt₁.isAssignment with
    | true =>
      rw [hassign] at hcolumns hvalues
      cases hcolumns
      obtain ⟨p₃, _, hvalues⟩ := bind_eq_ok.1 hvalues
      cases hvalues
      subst hplanned
      have hset : Covers n.name.l i (assignmentsBlind stmt₁.setlist) _ :=
        assignments_covers (forall₂_map_right_iff.2 (forall₂_same.2 fun _ _ => rfl))
      exact ((((hhead.append (.same _)).append (.same _)).append hset).append hduplicate)
    | false =>
      rw [hassign] at hcolumns hsteps
      cases hcolumns
      have hrows : planned.rowsAt i = stmt₁.lists.filter fun row => literalRowIndex table.rule k row = some i :=
        hsteps.valuesPlan.rowsAt i
      have hrows : Covers n.name.l i
        (rowNames (stmt₁.lists.filter fun row => literalRowIndex table.rule k row = some i))
          ((rowNames (planned.rowsAt i)).map .same) := by
        rw [hrows]
        exact .same _
      have hkey : shardingColumnIndex table.rule.getShardingColumn 0 none stmt₁.columns = some k := hsteps.column
      have hset : stmt₁.setlist = [] := by simpa [InsertStmt.isAssignment] using hassign
      subst hplanned
      rw [hkey]
      have hset : Covers n.name.l i (assignmentsBlind stmt₁.setlist)
          ((stmt₁.setlist.flatMap Assignment.names).map .same) := by
        rw [hset]
        exact .nil
      have hcolumns : Covers n.name.l i [] _ := .renamed (bareColumns_renamed stmt₁.columns)
      exact ((((hhead.append hcolumns).append hrows).append hset).append hduplicate)

end Insert

/-! ### Completeness of the renaming -/

/-- A planned statement on the table `t`, with its blind names and its references at each index.  No table source has
`t` for an alias.  In an `INSERT`, `stmt₁` has the numbers of a global sequence in place of `nextval()`. -/
inductive RenamePlan (db : String) (router : Router) (order : MapOrder) (t : String) (rule : Rule) :
    (Int → List CIStr) → (Int → List Ref) → List Int → List ShardSQL → Prop where
  | select {stmt : SelectStmt Parsed} {plan : SelectPlan}
      (haliases : ∀ j ∈ stmt.tableRefs, ∀ s ∈ j.sources, ∀ a ∈ s.aliases, a ≠ t)
      (hplan : handleSelectStmt (newTableAliasStmtInfo db router order) stmt = .ok plan) :
      RenamePlan db router order t rule (fun _ => stmt.blind (outerBlind db)) (fun i => plan.stmt.refs i)
        plan.info.result.indexes plan.sqls
  | update {stmt : UpdateStmt Parsed} {plan : ModifyPlan (UpdateStmt Planned)}
      (haliases : ∀ s ∈ stmt.tableRefs.sources, ∀ a ∈ s.aliases, a ≠ t)
      (hplan : handleUpdatePlan (newTableAliasStmtInfo db router order) stmt = .ok plan) :
      RenamePlan db router order t rule (fun _ => stmt.blind db) (fun i => plan.stmt.refs i)
        plan.info.result.indexes plan.sqls
  | delete {stmt : DeleteStmt Parsed} {plan : ModifyPlan (DeleteStmt Planned)}
      (haliases : ∀ s ∈ stmt.tableRefs.sources, ∀ a ∈ s.aliases, a ≠ t)
      (hplan : handleDeletePlan (newTableAliasStmtInfo db router order) stmt = .ok plan) :
      RenamePlan db router order t rule (fun _ => stmt.blind db) (fun i => plan.stmt.refs i)
        plan.info.result.indexes plan.sqls
  | insert {seqs : SequenceManager} {stmt stmt₁ : InsertStmt Parsed} {n : TableName} {asName : CIStr}
      {tail : JoinTail (TableSource Parsed) Parsed} {plan : InsertPlan}
      (hrefs : stmt.tableRefs = .ofSource (.table () n asName) tail) (hname : n.name.l = t)
      (hseq : handleInsertGlobalSequenceValue (seqs db t) stmt.isAssignment stmt = .ok stmt₁)
      (hplan : handleInsertStmt (newStmtInfo db router order) seqs stmt = .ok plan) :
      RenamePlan db router order t rule (fun i => stmt₁.blind rule i) (fun i => plan.stmt.refs i)
        plan.info.result.indexes plan.sqls

section Complete

variable {blind : Int → List CIStr} {refs : Int → List Ref} {indexes : List Int} {sqls : List ShardSQL}

theorem RenamePlan.covers (h : RenamePlan db router order t rule blind refs indexes sqls) (ht : t ≠ "")
    (hrule : router.getShardRule db t = some rule) (hking : isKingshardRule rule.getType = true) (i : Int) :
    Covers t i (blind i) (refs i) := by
  have hking : numbersTables db router t := ⟨rule, hrule, hking⟩
  cases h with
  | select haliases hplan => exact select_covers hking ht haliases (selectRun_of_ok hplan)
  | update haliases hplan => exact update_covers hking ht haliases (updateRun_of_ok hplan)
  | delete haliases hplan => exact delete_covers hking ht haliases (deleteRun_of_ok hplan)
  | insert hrefs hname hseq hplan => exact insert_covers hking hrefs hname hrule hseq hplan

theorem RenamePlan.prints (h : RenamePlan db router order t rule blind refs indexes sqls) :
    ∃ out : Int → Out, sqls.map ShardSQL.sql = indexes.map (fun i => (out i).toks) ∧
    ∀ i, Prints (out i) (refs i) := by
  cases h with
  | select _ hplan =>
    obtain ⟨hrefs, hfields, hgroup, horder, hextra, hwhere, hhaving, hlimit, hhint, hplanned, hsqls⟩ :=
      selectRun_of_ok hplan
    exact ⟨_, (generateShardingSQLs_eq_ok hsqls).2, fun i => prints_select _⟩
  | update _ hplan =>
    obtain ⟨hrefs, hlist, hwhere, horder, hpost, hplanned, hsqls⟩ := updateRun_of_ok hplan
    exact ⟨_, (generateShardingSQLs_eq_ok hsqls).2, fun i => prints_update _⟩
  | delete _ hplan =>
    obtain ⟨hrefs, hwhere, horder, hpost, hplanned, hsqls⟩ := deleteRun_of_ok hplan
    exact ⟨_, (generateShardingSQLs_eq_ok hsqls).2, fun i => prints_delete _⟩
  | insert _ _ _ hplan =>
    cases insertRun_of_ok hplan with
    | onGlobal _ _ _ h =>
      obtain ⟨sqls', hsqls, h⟩ := bind_eq_ok.1 h
      cases h
      exact ⟨_, (generateShardingSQLs_eq_ok (wrapErr_eq_ok.1 hsqls)).2, fun i => prints_insert _⟩
    | onSharded _ _ _ _ _ _ _ _ hsqls =>
      exact ⟨_, (generateShardingSQLs_eq_ok hsqls).2, fun i => prints_insert _⟩

/-- Every reference to `t` in the statement for a sub-table is renamed, exactly when `t` is not among the names that
the planner does not look at; and the statement prints no table names but those of its references. -/
theorem renaming_complete_iff (h : RenamePlan db router order t rule blind refs indexes sqls) (ht : t ≠ "")
    (hrule : router.getShardRule db t = some rule) (hking : isKingshardRule rule.getType = true) :
    (∃ out : Int → Out, sqls.map ShardSQL.sql = indexes.map (fun i => (out i).toks) ∧ ∀ i, Prints (out i) (refs i)) ∧
      ∀ i ∈ indexes, (∀ r ∈ refs i, Renamed t i r) ↔ ∀ q ∈ blind i, ¬ q.isTable t :=
  ⟨h.prints, fun i _ => (h.covers ht hrule hking i).renamed_iff⟩

end Complete

def selectFive (field : SelectField Parsed) : SelectStmt Parsed :=
  { fields := [field], tableRefs := some (singleTable (unqualifiedTable "t") .empty)
    cond := some (columnEq "t" "id" 5) }

theorem renaming_complete_column : ∃ plan,
    handleSelectStmt (newTableAliasStmtInfo "db" hashRouter .insertion)
      (selectFive (.expr (.column () (qualifiedColumn "t" "name")) .empty)) = .ok plan ∧
    ∀ i ∈ plan.info.result.indexes, ∀ r ∈ plan.stmt.refs i, Renamed "t" i r := by
  refine exists_ok ⟨_, rfl⟩ fun plan hplan i hi => ?_
  have haliases : ∀ j ∈ (selectFive (.expr (.column () (qualifiedColumn "t" "name")) .empty)).tableRefs,
      ∀ s ∈ j.sources, ∀ a ∈ s.aliases, a ≠ "t" := by
    rintro j hj s hs a ha
    obtain rfl := Option.some.inj hj
    obtain rfl := mem_singleton.1 hs
    obtain rfl := mem_singleton.1 ha
    decide
  have hrule : hashRouter.getShardRule "db" "t" = some (.base hashRule) := rfl
  refine ((renaming_complete_iff (.select haliases hplan) (by decide) hrule rfl).2 i hi).2 ?_
  intro q hq
  exact absurd hq not_mem_nil

/-- `SELECT t.* FROM t WHERE t.id = 5` still selects `t.*`, from the table `t_0001`. -/
theorem wildcard_keeps_table_name : ∃ plan,
    handleSelectStmt (newTableAliasStmtInfo "db" hashRouter .insertion)
      (selectFive (.wildcard .empty ⟨"t", "t"⟩)) = .ok plan ∧
    plan.info.result.indexes = [1] ∧
    plan.sqls.map ShardSQL.sql =
      [[.text "SELECT ", .wildcard "" ⟨"t", "t"⟩, .text " FROM ", .table "" ⟨"t_0001", "t_0001"⟩, .text " WHERE ",
        .column "" ⟨"t_0001", "t_0001"⟩ "id", .text "=", .value (.int64 5)]] :=
  ⟨_, rfl, rfl, rfl⟩

end DbProxy
