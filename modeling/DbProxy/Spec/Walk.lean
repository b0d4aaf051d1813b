import DbProxy.Lib.Post
import DbProxy.Spec.KeyAtom
import DbProxy.Spec.Tables

/-!
# The walk through a `FROM` clause

The planner visits the tables of a join from left to right and narrows the route by each `ON` condition on its way.
`Walked` is what holds at every point of the walk: the tables are recorded, the route is increasing and is set once a
table that is not global has been met, and a database hint is there if a condition has named one.
-/

namespace DbProxy

open Fallible List
variable {p : TableAliasStmtInfo} {op : Op} {cond : Cond} {l r e : Expr Parsed}

/-! ### Parts of a join -/

def JoinTail.sources {S : Type} {P : Phase} (t : JoinTail S P) : List S :=
  match t.right with
  | some (.source s) => [s]
  | _ => []

def Join.sources {S : Type} {P : Phase} : Join S P → List S
  | .ofSource left t => left :: t.sources
  | .ofJoin left t => left.sources ++ t.sources

theorem Join.sources_ne_nil {S : Type} {P : Phase} (j : Join S P) : j.sources ≠ [] := by
  induction j with
  | ofSource left t => exact cons_ne_nil _ _
  | ofJoin left t ih => exact append_ne_nil_of_left_ne_nil ih _

def Join.ons {S : Type} {P : Phase} : Join S P → List (Expr P)
  | .ofSource _ t => t.on.toList
  | .ofJoin left t => left.ons ++ t.on.toList

def leaves (db : String) (router : Router) (j : Join (TableSource Parsed) Parsed) : List Leaf :=
  j.sources.filterMap (leafOf db router)

/-! ### Database hints -/

def Expr.isDatabaseCall : Expr Parsed → Bool
  | .funcCall fnName _ => fnName.l = "database"
  | _ => false

/-- An atom that may name a physical database: it compares something with `DATABASE()`. -/
def Expr.namesDatabase : Expr Parsed → Bool
  | .binary _ l r => l.isDatabaseCall || r.isDatabaseCall
  | _ => false

/-- The physical database that a condition names. -/
def Expr.databaseName : Expr Parsed → Option String
  | .binary op l r =>
    if op.isLogic then r.databaseName.or l.databaseName
    else match databaseHint op l r with
      | .ok s => if s = "" then none else some s
      | .error _ => none
  | .paren e => e.databaseName
  | _ => none

theorem Comparison.databaseName_eq {c : ColumnName} {v : Datum} {build : Expr Planned → Expr Planned}
    (h : Comparison c v e op build) : e.databaseName = none := by
  cases h with
  | @columnValue op hop | @valueColumn op hop => cases op <;> rfl

theorem hint_of_atom (he : e.isAtom = true) (h : handleComparisonExpr p e = .ok cond) :
    cond.hint = e.databaseName := by
  cases atomRun_of_ok he h with
  | hinted hop hhint hname => simp [Expr.databaseName, hop, hhint, hname]
  | operands hop hhint => simp [Expr.databaseName, hop, hhint, Cond.noRoute]
  | compared hcomparison hcompare =>
    rw [hcomparison.databaseName_eq]
    obtain ⟨d, _, ⟨rfl, _⟩ | ⟨_, _, _, _, _, rfl⟩⟩ := handleCompareColumnValue_eq_ok hcompare <;> rfl
  | visited hplain => cases e <;> first | rfl | cases hplain
  | _ => rfl

theorem hint_eq (h : handleComparisonExpr p e = .ok cond) :
    cond.hint = e.databaseName := by
  induction e using Expr.conditionInduction generalizing cond with
  | logic op l r hop ihl ihr =>
    obtain ⟨lc, rc, hlc, hrc, rfl⟩ := (handleComparisonExpr_logic hop).1 h
    simp [Cond.merge, Expr.databaseName, hop, ihl hlc, ihr hrc]
  | paren e ih =>
    obtain ⟨c, hc, rfl⟩ := handleComparisonExpr_paren.1 h
    show c.hint = e.databaseName
    exact ih hc
  | atom e hatom => exact hint_of_atom hatom h

theorem databaseHint_eq_ok {hint : String} (hl : l.isDatabaseCall = false)
    (hr : r.isDatabaseCall = false) (h : databaseHint op l r = .ok hint) : hint = "" := by
  have call : ∀ (f : CIStr) (parts : List (Expr Parsed)) (v : Expr Parsed),
      (Expr.funcCall f parts : Expr Parsed).isDatabaseCall = false → getDatabaseFuncHint f v = .ok "" := by
    intro f parts v hf
    have hf : f.l ≠ "database" := by simpa [Expr.isDatabaseCall] using hf
    simp [getDatabaseFuncHint, hf]
  unfold databaseHint at h
  split at h
  · exact (Except.ok.inj h).symm
  · split at h
    · rw [call _ _ _ hl] at h
      exact (Except.ok.inj h).symm
    · rw [call _ _ _ hr] at h
      exact (Except.ok.inj h).symm
    · exact (Except.ok.inj h).symm

theorem databaseName_eq_none (he : ∀ a ∈ e.atoms, a.namesDatabase = false) :
    e.databaseName = none := by
  induction e using Expr.conditionInduction with
  | logic op l r hop ihl ihr =>
    rw [Expr.atoms_logic hop] at he
    have hl := ihl fun a ha => he a (mem_append_left _ ha)
    have hr := ihr fun a ha => he a (mem_append_right _ ha)
    simp [Expr.databaseName, hop, hl, hr]
  | paren e ih => exact ih he
  | atom e hatom =>
    cases e with
    | binary op l r =>
      have hop : op.isLogic = false := by simpa [Expr.isAtom] using hatom
      have hcalls := he _ (by rw [Expr.atoms_atom hatom]; exact mem_singleton_self _)
      rw [Expr.namesDatabase, Bool.or_eq_false_iff] at hcalls
      simp only [Expr.databaseName, hop, Bool.false_eq_true, if_false]
      split
      · next s hs => rw [if_pos (databaseHint_eq_ok hcalls.1 hcalls.2 hs)]
      · rfl
    | paren e => simp [Expr.isAtom] at hatom
    | _ => rfl

theorem databaseName_ne_empty (e : Expr Parsed) : e.databaseName ≠ some "" := by
  induction e using Expr.conditionInduction with
  | logic op l r hop ihl ihr =>
    simp only [Expr.databaseName, hop, if_true]
    cases hr : r.databaseName with
    | none => simpa using ihl
    | some s => simpa [hr] using ihr
  | paren e ih => exact ih
  | atom e hatom =>
    cases e with
    | binary op l r =>
      have hop : op.isLogic = false := by simpa [Expr.isAtom] using hatom
      simp only [Expr.databaseName, hop, Bool.false_eq_true, if_false]
      split
      · split
        · simp
        · next hne => simpa using hne
      · simp
    | paren e => simp [Expr.isAtom] at hatom
    | _ => simp [Expr.databaseName]

/-! ### Steps of the walk -/

variable {p p' : TableAliasStmtInfo}

section Joins

variable {S T : Type} {source : TableAliasStmtInfo → S → Except Fail (T × TableAliasStmtInfo)}
  {on : TableAliasStmtInfo → Expr Parsed → Except Fail (Expr Planned × TableAliasStmtInfo)} {t : JoinTail S Parsed}
  {j' : Join T Planned}

theorem handleJoin_ofSource {s : S} (h : handleJoinWith source on p (.ofSource s t) = .ok (j', p')) :
    ∃ s' p₁ t', source p s = .ok (s', p₁) ∧ handleJoinTail source on p₁ t = .ok (t', p') ∧
      precheckJoinClause t.using_ = .ok () ∧ j' = .ofSource s' t' := by
  obtain ⟨_, husing, h⟩ := bind_eq_ok.1 h
  obtain ⟨⟨s', p₁⟩, hs, h⟩ := bind_eq_ok.1 h
  obtain ⟨⟨t', p''⟩, ht, h⟩ := bind_eq_ok.1 h
  cases h
  exact ⟨s', p₁, t', wrapErr_eq_ok.1 hs, ht, wrapErr_eq_ok.1 husing, rfl⟩

theorem handleJoin_ofJoin {left : Join S Parsed} (h : handleJoinWith source on p (.ofJoin left t) = .ok (j', p')) :
    ∃ left' p₁ t', handleJoinWith source on p left = .ok (left', p₁) ∧ handleJoinTail source on p₁ t = .ok (t', p') ∧
      precheckJoinClause t.using_ = .ok () ∧ j' = .ofJoin left' t' := by
  obtain ⟨_, husing, h⟩ := bind_eq_ok.1 h
  obtain ⟨⟨left', p₁⟩, hl, h⟩ := bind_eq_ok.1 h
  obtain ⟨⟨t', p''⟩, ht, h⟩ := bind_eq_ok.1 h
  cases h
  exact ⟨left', p₁, t', wrapErr_eq_ok.1 hl, ht, wrapErr_eq_ok.1 husing, rfl⟩

theorem handleJoinRight_eq_ok {right : Option (JoinRight S)} {right' : Option (JoinRight T)}
    (h : handleJoinRight source p right = .ok (right', p')) :
    (right = none ∧ p' = p) ∨ ∃ s s', right = some (.source s) ∧ source p s = .ok (s', p') := by
  unfold handleJoinRight at h
  split at h
  · cases h
    exact .inl ⟨rfl, rfl⟩
  · cases h
  · next s =>
    obtain ⟨⟨s', p₁⟩, hs, h⟩ := bind_eq_ok.1 h
    cases h
    exact .inr ⟨s, s', rfl, wrapErr_eq_ok.1 hs⟩

/-- Any walk over a join keeps what its sources and its conditions keep. -/
theorem handleJoinWith_inv {I : TableAliasStmtInfo → Prop}
    (hsource : ∀ {p p' s s'}, I p → source p s = .ok (s', p') → I p')
    (hon : ∀ {p p' e e'}, I p → on p e = .ok (e', p') → I p') {j : Join S Parsed} :
    ∀ {p p' : TableAliasStmtInfo} {j' : Join T Planned}, I p →
    handleJoinWith source on p j = .ok (j', p') → I p' := by
  have htail : ∀ {p p' : TableAliasStmtInfo} {tail : JoinTail S Parsed} {tail' : JoinTail T Planned}, I p →
      handleJoinTail source on p tail = .ok (tail', p') → I p' := by
    intro p p' tail tail' hp h
    obtain ⟨⟨right, p₁⟩, hright, h⟩ := bind_eq_ok.1 h
    obtain ⟨⟨cond, p₂⟩, hcond, h⟩ := bind_eq_ok.1 h
    cases h
    have hp₁ : I p₁ := by
      rcases handleJoinRight_eq_ok hright with ⟨-, rfl⟩ | ⟨s, s', -, hs⟩
      · exact hp
      · exact hsource hp hs
    unfold handleJoinOn at hcond
    split at hcond
    · cases hcond
      exact hp₁
    · obtain ⟨⟨e', p₃⟩, he, hcond⟩ := bind_eq_ok.1 hcond
      cases hcond
      exact hon hp₁ he
  induction j with
  | ofSource left tail =>
    intro p p' j' hp h
    obtain ⟨_, _, _, hleft, ht, -⟩ := handleJoin_ofSource h
    exact htail (hsource hp hleft) ht
  | ofJoin left tail ih =>
    intro p p' j' hp h
    obtain ⟨_, _, _, hleft, ht, -⟩ := handleJoin_ofJoin h
    exact htail (ih hp hleft) ht

end Joins

variable {t : JoinTail (TableSource Parsed) Parsed}

section Steps

variable {t' : JoinTail (TableSource Planned) Planned} {j' : Join (TableSource Planned) Planned}

/-- The condition of a node, or a `WHERE`, applied to what the planner knows. -/
inductive Applied (p : TableAliasStmtInfo) : Option (Expr Parsed) → TableAliasStmtInfo → Prop where
  | none : Applied p none p
  | some {e : Expr Parsed} {c : Cond} (h : handleComparisonExpr p e = .ok c) : Applied p (some e) (p.applyCond c)

theorem Applied.eq {on : Option (Expr Parsed)} (h : Applied p on p') :
    (on = Option.none ∧ p' = p) ∨
      ∃ e c, on = Option.some e ∧ handleComparisonExpr p e = .ok c ∧ p' = p.applyCond c := by
  cases h with
  | none => exact .inl ⟨rfl, rfl⟩
  | some h => exact .inr ⟨_, _, rfl, h, rfl⟩

/-- The node's own part of the walk: its right table, then its condition. -/
theorem handleJoinTail_eq_ok (h : handleJoinTail rewriteTableSource rewriteOnCondition p t = .ok (t', p')) :
    ∃ right' p₂, handleJoinRight rewriteTableSource p t.right = .ok (right', p₂) ∧ Applied p₂ t.on p' := by
  unfold handleJoinTail at h
  obtain ⟨⟨right', p₂⟩, hright, h⟩ := bind_eq_ok.1 h
  obtain ⟨⟨cond, p₃⟩, hon, h⟩ := bind_eq_ok.1 h
  cases h
  refine ⟨right', p₂, hright, ?_⟩
  generalize t.on = on at hon
  unfold handleJoinOn at hon
  split at hon
  · cases hon
    exact .none
  · obtain ⟨⟨e', p₄⟩, he, hon⟩ := bind_eq_ok.1 hon
    cases hon
    obtain ⟨c, hc, he⟩ := bind_eq_ok.1 (wrapErr_eq_ok.1 he)
    cases he
    exact .some (wrapErr_eq_ok.1 hc)

theorem handleWhere_eq_ok {e : Option (Expr Parsed)} {cond : Option (Expr Planned)}
    (h : handleWhere p e = .ok (cond, p')) : Applied p e p' := by
  unfold handleWhere at h
  split at h
  · cases h
    exact .none
  · obtain ⟨c, hc, h⟩ := bind_eq_ok.1 h
    cases h
    exact .some (wrapErr_eq_ok.1 hc)

end Steps

/-! ### The router -/

section Syntax

variable {P : Phase}

mutual
def Expr.hasAggregate : Expr P → Bool
  | .binary _ l r => l.hasAggregate || r.hasAggregate
  | .patternIn _ e list sel _ => e.hasAggregate || hasAggregateList list || hasAggregateOption sel
  | .between _ e l r _ => e.hasAggregate || l.hasAggregate || r.hasAggregate
  | .paren e => e.hasAggregate
  | .funcCall _ parts | .node _ parts => hasAggregateList parts
  | .aggregate _ _ => true
  | .value _ | .column _ _ | .valuesOf _ | .text _ => false

def Expr.hasAggregateList : List (Expr P) → Bool
  | [] => false
  | e :: es => e.hasAggregate || hasAggregateList es

def Expr.hasAggregateOption : Option (Expr P) → Bool
  | none => false
  | some e => e.hasAggregate
end

end Syntax

section Visitors

variable {m : Type → Type} [Monad m] (post : Post m) {f : ColumnName → m (Option ColumnNameDecorator)}

theorem acceptOption_holds {α β : Type} {g : α → m β} {R : α → β → Prop}
    (hg : ∀ a, post.holds (g a) (R a)) (o : Option α) : post.holds (acceptOption g o) (Option.Rel R o) := by
  cases o with
  | none => exact post.of_pure .none
  | some a => exact post.of_bind (hg a) fun _ hb => post.of_pure (.some hb)

mutual
/-- A visitor keeps the aggregate functions of an expression, and its own invariant. -/
theorem hasAggregate_accept (hf : ∀ c, post.holds (f c) fun _ => True) :
    (e : Expr Parsed) → post.holds (e.accept f) (fun e' => e'.hasAggregate = e.hasAggregate)
  | .value _ => post.of_pure rfl
  | .column _ c => post.of_bind (hf c) fun _ _ => post.of_pure rfl
  | .binary _ l r =>
    post.of_bind (hasAggregate_accept hf l) fun _ hl =>
      post.of_bind (hasAggregate_accept hf r) fun _ hr => post.of_pure (congrArg₂ or hl hr)
  | .patternIn _ e list sel _ =>
    post.of_bind (hasAggregate_accept hf e) fun _ he =>
      post.of_bind (hasAggregateList_accept hf list) fun _ hlist =>
        post.of_bind (hasAggregateOption_accept hf sel) fun _ hsel =>
          post.of_pure (congrArg₂ or (congrArg₂ or he hlist) hsel)
  | .between _ e l r _ =>
    post.of_bind (hasAggregate_accept hf e) fun _ he =>
      post.of_bind (hasAggregate_accept hf l) fun _ hl =>
        post.of_bind (hasAggregate_accept hf r) fun _ hr => post.of_pure (congrArg₂ or (congrArg₂ or he hl) hr)
  | .paren e => post.of_bind (hasAggregate_accept hf e) fun _ he => post.of_pure he
  | .funcCall _ parts => post.of_bind (hasAggregateList_accept hf parts) fun _ h => post.of_pure h
  | .aggregate _ parts => post.of_bind (hasAggregateList_accept hf parts) fun _ _ => post.of_pure rfl
  | .valuesOf none => post.of_pure rfl
  | .valuesOf (some c) => post.of_bind (hf c) fun _ _ => post.of_pure rfl
  | .text _ => post.of_pure rfl
  | .node _ parts => post.of_bind (hasAggregateList_accept hf parts) fun _ h => post.of_pure h

theorem hasAggregateList_accept (hf : ∀ c, post.holds (f c) fun _ => True) :
    (es : List (Expr Parsed)) →
      post.holds (Expr.acceptList f es) (fun es' => Expr.hasAggregateList es' = Expr.hasAggregateList es)
  | [] => post.of_pure rfl
  | e :: es =>
    post.of_bind (hasAggregate_accept hf e) fun _ he =>
      post.of_bind (hasAggregateList_accept hf es) fun _ hes => post.of_pure (congrArg₂ or he hes)

theorem hasAggregateOption_accept (hf : ∀ c, post.holds (f c) fun _ => True) :
    (o : Option (Expr Parsed)) →
      post.holds (Expr.acceptOption f o) (fun o' => Expr.hasAggregateOption o' = Expr.hasAggregateOption o)
  | none => post.of_pure rfl
  | some e => post.of_bind (hasAggregate_accept hf e) fun _ he => post.of_pure he
end

mutual
/-- A visitor that decorates no column changes nothing. -/
theorem accept_none : (e : Expr Parsed) → e.accept (fun _ => .ok none) = (.ok e.untouched : Except Fail _)
  | .value _ | .column _ _ | .valuesOf none | .valuesOf (some _) | .text _ => rfl
  | .binary _ l r => by
    rw [Expr.accept, accept_none l, accept_none r]
    rfl
  | .patternIn _ e list sel _ => by
    rw [Expr.accept, accept_none e, acceptList_none list, acceptOption_none sel]
    rfl
  | .between _ e l r _ => by
    rw [Expr.accept, accept_none e, accept_none l, accept_none r]
    rfl
  | .paren e => by
    rw [Expr.accept, accept_none e]
    rfl
  | .funcCall _ parts | .aggregate _ parts | .node _ parts => by
    rw [Expr.accept, acceptList_none parts]
    rfl

theorem acceptList_none : (es : List (Expr Parsed)) →
    Expr.acceptList (fun _ => .ok none) es = (.ok (Expr.untouchedList es) : Except Fail _)
  | [] => rfl
  | e :: es => by
    rw [Expr.acceptList, accept_none e, acceptList_none es]
    rfl

theorem acceptOption_none : (o : Option (Expr Parsed)) →
    Expr.acceptOption (fun _ => .ok none) o = (.ok (Expr.untouchedOption o) : Except Fail _)
  | none => rfl
  | some e => by
    rw [Expr.acceptOption, accept_none e]
    rfl
end

variable (hf : ∀ c, post.holds (f c) fun _ => True)

include hf

theorem acceptRoot_keeps (e : Expr Parsed) :
    post.holds (e.acceptRoot f) fun e' => e'.hasAggregate = e.hasAggregate := by
  cases e with
  | column _ c => exact post.of_bind (hf c) fun _ _ => post.of_pure rfl
  | _ => exact hasAggregate_accept post hf _

theorem fieldAccept_keeps (field : SelectField Parsed) : post.holds (field.accept f) fun _ => True := by
  cases field with
  | wildcard schema table => exact post.of_pure trivial
  | expr e asName => exact post.of_bind (hasAggregate_accept post hf e) fun _ _ => post.of_pure trivial

theorem byItemAccept_keeps (item : ByItem Parsed) : post.holds (item.accept f) fun _ => True :=
  post.of_bind (hasAggregate_accept post hf item.expr) fun _ _ => post.of_pure trivial

end Visitors

theorem recordRule_router (s : StmtInfo) (table : String) (rule : Rule) :
    (s.recordRule table rule).router = s.router := by
  unfold StmtInfo.recordRule
  split <;> rfl

theorem applyCond_router (p : TableAliasStmtInfo) (c : Cond) : (p.applyCond c).router = p.router := by
  unfold TableAliasStmtInfo.applyCond
  cases c.has <;> rfl

theorem rewriteTableName_router {n : TableName} {asName : String} {rule : Rule}
    (h : rewriteTableName p n asName = .ok (rule, p')) : p'.router = p.router := by
  obtain ⟨s, hs, rfl⟩ := TableAliasStmtInfo.recordShardTable_eq_ok (rewriteTableName_eq_ok h)
  obtain ⟨-, hcheck⟩ := StmtInfo.recordShardTable_eq_ok hs
  rcases StmtInfo.checkStmtRouteResult_eq_ok hcheck with rfl | ⟨_, _, _, rfl⟩ <;> exact recordRule_router _ _ _

theorem recordSubqueryTableAlias_router {asName : String} (h : p.recordSubqueryTableAlias asName = .ok p') :
    p'.router = p.router := by
  unfold TableAliasStmtInfo.recordSubqueryTableAlias at h
  split at h
  · cases h
  · next hne =>
    split at h
    · cases h
    · obtain ⟨p₁, hp₁, h⟩ := bind_eq_ok.1 h
      cases h
      rw [TableAliasStmtInfo.setTableAlias_eq_ok hne (wrapErr_eq_ok.1 hp₁)]

theorem handleSubquerySelectStmt_router {s : SelectClauses (InnerSource Parsed) Parsed}
    {s' : SelectClauses (InnerSource Planned) Planned} (h : handleSubquerySelectStmt p s = .ok (s', p')) :
    p'.router = p.router := by
  let post := Post.state fun q : TableAliasStmtInfo => q.router = p.router
  have visits : ∀ c, post.holds (subqueryColumnNameRewriteVisitor c) fun _ => True := by
    intro c q hq
    unfold subqueryColumnNameRewriteVisitor
    split
    · exact ⟨hq, trivial⟩
    · next hrule =>
      obtain ⟨-, rfl⟩ := StmtInfo.getShardRule_eq_ok hrule
      exact ⟨(recordRule_router _ _ _).trans hq, trivial⟩
  have clauses : ∀ q : TableAliasStmtInfo, q.router = p.router →
      (let visitor := subqueryColumnNameRewriteVisitor
       let cond := acceptOption (Expr.acceptRoot visitor) s.cond q
       let fields := s.fields.mapM (SelectField.accept visitor) cond.2
       let groupBy := acceptOption (List.mapM (ByItem.accept visitor)) s.groupBy fields.2
       let having := acceptOption (Expr.accept visitor) s.having groupBy.2
       let orderBy := acceptOption (List.mapM (ByItem.accept visitor)) s.orderBy having.2
       orderBy.2.router = p.router) := by
    intro q hq
    have hcond := acceptOption_holds post (acceptRoot_keeps post visits) s.cond _ hq
    have hfields := post.of_mapM (fieldAccept_keeps post visits) s.fields _ hcond.1
    have hgroup := acceptOption_holds post (post.of_mapM (byItemAccept_keeps post visits)) s.groupBy _ hfields.1
    have hhaving := acceptOption_holds post (hasAggregate_accept post visits) s.having _ hgroup.1
    exact (acceptOption_holds post (post.of_mapM (byItemAccept_keeps post visits)) s.orderBy _ hhaving.1).1
  unfold handleSubquerySelectStmt at h
  rw [recoverErr_eq_ok] at h
  simp only at h
  split at h
  · cases h
    exact clauses p rfl
  · obtain ⟨⟨j', p₁⟩, hj, h⟩ := bind_eq_ok.1 h
    cases h
    refine clauses p₁ (handleJoinWith_inv (I := fun q => q.router = p.router) ?_ ?_ rfl (wrapErr_eq_ok.1 hj))
    · intro q q' source source' hq hs
      cases source with
      | table a n asName =>
        obtain ⟨⟨rule, q₁⟩, hrule, hs⟩ := bind_eq_ok.1 hs
        cases hs
        exact (rewriteTableName_router hrule).trans hq
      | select => cases hs
    · intro q q' e e' hq he
      have hkeeps := hasAggregate_accept post visits e q hq
      rw [Except.ok.inj he] at hkeeps
      exact hkeeps.1

theorem rewriteTableSource_router {s : TableSource Parsed} {s' : TableSource Planned}
    (h : rewriteTableSource p s = .ok (s', p')) : p'.router = p.router := by
  cases s with
  | table a n asName =>
    obtain ⟨⟨rule, p₁⟩, hrule, h⟩ := bind_eq_ok.1 h
    cases h
    exact rewriteTableName_router hrule
  | select s asName =>
    obtain ⟨⟨s₁, p₁⟩, hs, h⟩ := bind_eq_ok.1 h
    have hp₁ := handleSubquerySelectStmt_router (wrapErr_eq_ok.1 hs)
    simp only at h
    split at h
    · obtain ⟨p₂, hp₂, h⟩ := bind_eq_ok.1 h
      cases h
      exact (recordSubqueryTableAlias_router (wrapErr_eq_ok.1 hp₂)).trans hp₁
    · cases h
      exact hp₁

theorem handleTableRefs_router {refs : Option (Join (TableSource Parsed) Parsed)}
    {refs' : Option (Join (TableSource Planned) Planned)} (h : handleTableRefs p refs = .ok (refs', p')) :
    p'.router = p.router := by
  cases refs with
  | none =>
    cases h
    rfl
  | some j =>
    obtain ⟨⟨j', p₁⟩, hj, h⟩ := bind_eq_ok.1 h
    cases h
    refine handleJoinWith_inv (I := fun q => q.router = p.router) ?_ ?_ rfl hj
    · intro q q' s s' hq hs
      exact (rewriteTableSource_router hs).trans hq
    · intro q q' e e' hq he
      obtain ⟨c, _, he⟩ := bind_eq_ok.1 (wrapErr_eq_ok.1 he)
      cases he
      exact (applyCond_router q c).trans hq

theorem Applied.router_eq {on : Option (Expr Parsed)} (h : Applied p on p') : p'.router = p.router := by
  rcases h.eq with ⟨_, rfl⟩ | ⟨e, c, _, _, rfl⟩
  · rfl
  · exact applyCond_router p c

/-! ### The invariant -/

/-- What holds after the tables `ls` and the conditions `es`. -/
structure Walked (db : String) (router : Router) (p : TableAliasStmtInfo) (ls : List Leaf) (es : List (Expr Parsed)) :
    Prop where
  recorded : Recorded db router p ls
  rules : ∀ l ∈ ls, Increasing l.rule.getSubTableIndexes
  increasing : Increasing p.result.indexes
  started : (∃ l ∈ ls, ¬ l.isGlobal) → p.result.db ≠ ""
  unset : (∀ l ∈ ls, l.isGlobal) → p.result = {}
  hint : p.hintPhyDB = "" ↔ ∀ e ∈ es, e.databaseName = none

/-- A source that is a table, under a rule with a database and increasing indexes. -/
def plainSource (db : String) (router : Router) (s : TableSource Parsed) : Prop :=
  ∃ l, leafOf db router s = some l ∧ l.rule.getDB ≠ "" ∧ Increasing l.rule.getSubTableIndexes

section Walk

variable {db : String} {router : Router} {ls : List Leaf} {es : List (Expr Parsed)}
variable {s : TableSource Parsed} {s' : TableSource Planned} {c : Cond}
  {right' : Option (JoinRight (TableSource Planned))} {order : MapOrder}

theorem walked_new (db : String) (router : Router) (order : MapOrder) :
    Walked db router (newTableAliasStmtInfo db router order) [] [] :=
  ⟨recorded_new db router order, by simp, Pairwise.nil, by simp, fun _ => rfl, by simp [newTableAliasStmtInfo]⟩

theorem Walked.record (hp : Walked db router p ls es) {l : Leaf}
    (hl : leafOf db router s = some l) (hdb : l.rule.getDB ≠ "") (hinc : Increasing l.rule.getSubTableIndexes)
    (h : rewriteTableSource p s = .ok (s', p')) : Walked db router p' (ls ++ [l]) es := by
  obtain ⟨hrecorded, hhint, hfresh, hkeep⟩ := hp.recorded.record hl h
  have hhint' : p'.hintPhyDB = "" ↔ ∀ e ∈ es, e.databaseName = none := by
    rw [hhint]
    exact hp.hint
  have hrules : ∀ l' ∈ ls ++ [l], Increasing l'.rule.getSubTableIndexes := by
    intro l' hl'
    rcases mem_append.1 hl' with hl' | hl'
    · exact hp.rules l' hl'
    · rwa [mem_singleton.1 hl']
  by_cases hls : ∀ l ∈ ls, l.isGlobal
  · have hunset := hp.unset hls
    by_cases hg : l.isGlobal
    · -- still nothing but global tables
      have hresult : p'.result = {} := by rw [hkeep (.inl hg), hunset]
      have hall : ∀ l' ∈ ls ++ [l], l'.isGlobal := by
        intro l' hl'
        rcases mem_append.1 hl' with hl' | hl'
        · exact hls l' hl'
        · rwa [mem_singleton.1 hl']
      refine ⟨hrecorded, hrules, ?_, ?_, fun _ => hresult, hhint'⟩
      · rw [hresult]
        exact Pairwise.nil
      · rintro ⟨l', hl', hg'⟩
        exact absurd (hall l' hl') hg'
    · have hresult := hfresh hg (by rw [hunset]) (by rw [hunset])
      refine ⟨hrecorded, hrules, ?_, ?_, ?_, hhint'⟩
      · rw [hresult]
        exact hinc
      · intro _
        rw [hresult]
        exact hdb
      · intro hall
        exact absurd (hall l (mem_append_right _ (mem_singleton_self l))) hg
  · have hsharded : ∃ l ∈ ls, ¬ l.isGlobal := by simpa using hls
    have hresult := hkeep (.inr (hp.started hsharded))
    refine ⟨hrecorded, hrules, ?_, ?_, ?_, hhint'⟩
    · rw [hresult]
      exact hp.increasing
    · intro _
      rw [hresult]
      exact hp.started hsharded
    · intro hall
      exact absurd (fun l hl => hall l (mem_append_left _ hl)) hls

theorem mem_applyCond (hinc : Increasing p.result.indexes) (hinc' : c.has = true → Increasing c.indexes)
    {i : Int} : i ∈ (p.applyCond c).result.indexes ↔ i ∈ p.result.indexes ∧ (c.has = true → i ∈ c.indexes) := by
  unfold TableAliasStmtInfo.applyCond
  cases hhas : c.has with
  | false => simp
  | true => simpa [TableAliasStmtInfo.inter, RouteResult.inter] using mem_interList hinc (hinc' hhas)

theorem increasing_applyCond (hinc : Increasing p.result.indexes)
    (hinc' : c.has = true → Increasing c.indexes) : Increasing (p.applyCond c).result.indexes := by
  unfold TableAliasStmtInfo.applyCond
  cases hhas : c.has with
  | false => simpa using hinc
  | true => simpa [TableAliasStmtInfo.inter, RouteResult.inter] using increasing_interList hinc (hinc' hhas)

theorem Recorded.applyCond (hp : Recorded db router p ls) (c : Cond) : Recorded db router (p.applyCond c) ls := by
  obtain ⟨hdb, hrouter, hrules, hglobals, hlookup, hnamed, hglobalNamed, haliases⟩ := hp
  unfold TableAliasStmtInfo.applyCond
  cases c.has <;> exact ⟨hdb, hrouter, hrules, hglobals, hlookup, hnamed, hglobalNamed, haliases⟩

theorem hintPhyDB_applyCond (c : Cond) : (p.applyCond c).hintPhyDB = c.hint.getD p.hintPhyDB := by
  unfold TableAliasStmtInfo.applyCond
  cases c.has <;> rfl

theorem Walked.increasing_route (hp : Walked db router p ls es) (e : Expr Parsed) :
    ∀ c, handleComparisonExpr p e = .ok c → c.has = true → Increasing c.indexes := by
  refine DbProxy.increasing_route ?_ e
  intro c d hd
  obtain ⟨l, hl, hrule, _⟩ := hp.recorded.resolve hd
  rw [hrule]
  exact hp.rules l hl

theorem Walked.applyCond (hp : Walked db router p ls es) {e : Expr Parsed}
    (h : handleComparisonExpr p e = .ok c) : Walked db router (p.applyCond c) ls (es ++ [e]) := by
  have hinc := hp.increasing_route e c h
  refine ⟨hp.recorded.applyCond c, hp.rules, increasing_applyCond hp.increasing hinc, ?_, ?_, ?_⟩
  · intro hsharded
    have := hp.started hsharded
    unfold TableAliasStmtInfo.applyCond
    cases c.has <;> exact this
  · intro hall
    have hunset := hp.unset hall
    unfold TableAliasStmtInfo.applyCond
    cases c.has with
    | false => exact hunset
    | true => simp [TableAliasStmtInfo.inter, RouteResult.inter, hunset, interList]
  · rw [hintPhyDB_applyCond, hint_eq h]
    cases hname : e.databaseName with
    | none => simp [hp.hint, or_imp, forall_and, hname]
    | some s =>
      have hs : s ≠ "" := by
        rintro rfl
        exact databaseName_ne_empty e hname
      simp only [Option.getD_some, hs, false_iff]
      intro hall
      simp [hall e (by simp)] at hname

theorem Walked.applied (hp : Walked db router p ls es) {on : Option (Expr Parsed)} (h : Applied p on p') :
    Walked db router p' ls (es ++ on.toList) := by
  cases h with
  | none =>
    rw [Option.toList_none, append_nil]
    exact hp
  | some h => exact hp.applyCond h

theorem Walked.right (hp : Walked db router p ls es) (hsrc : ∀ s ∈ t.sources, plainSource db router s)
    (h : handleJoinRight rewriteTableSource p t.right = .ok (right', p')) :
    Walked db router p' (ls ++ t.sources.filterMap (leafOf db router)) es := by
  rcases handleJoinRight_eq_ok h with ⟨hnone, rfl⟩ | ⟨s, s', hsome, hs⟩
  · have hsources : t.sources = [] := by simp [JoinTail.sources, hnone]
    rw [hsources, filterMap_nil, append_nil]
    exact hp
  · have hsources : t.sources = [s] := by simp [JoinTail.sources, hsome]
    rw [hsources] at hsrc ⊢
    obtain ⟨l, hl, hdb, hinc⟩ := hsrc s mem_cons_self
    rw [filterMap_cons_some hl, filterMap_nil]
    exact hp.record hl hdb hinc hs

theorem walked_first {p₁ p₂ : TableAliasStmtInfo} (hsrc : ∀ s' ∈ s :: t.sources, plainSource db router s')
    (hs : rewriteTableSource (newTableAliasStmtInfo db router order) s = .ok (s', p₁))
    (hright : handleJoinRight rewriteTableSource p₁ t.right = .ok (right', p₂)) :
    Walked db router p₂ ((s :: t.sources).filterMap (leafOf db router)) [] := by
  obtain ⟨l, hl, hdb, hinc⟩ := hsrc s mem_cons_self
  have hp₁ := (walked_new db router order).record hl hdb hinc hs
  rw [filterMap_cons_some hl]
  exact hp₁.right (fun s' hs' => hsrc s' (mem_cons_of_mem s hs')) hright

theorem handleJoin_walked {j : Join (TableSource Parsed) Parsed}
    (hsrc : ∀ s ∈ j.sources, plainSource db router s) {j' : Join (TableSource Planned) Planned}
    (h : handleJoin (newTableAliasStmtInfo db router order) j = .ok (j', p')) :
    Walked db router p' (leaves db router j) j.ons := by
  induction j generalizing j' p' with
  | ofSource s t =>
    obtain ⟨s', p₁, t', hs, ht, -⟩ := handleJoin_ofSource h
    obtain ⟨right', p₂, hright, hon⟩ := handleJoinTail_eq_ok ht
    exact (walked_first hsrc hs hright).applied hon
  | ofJoin left t ih =>
    obtain ⟨left', p₁, t', hl, ht, -⟩ := handleJoin_ofJoin h
    obtain ⟨right', p₂, hright, hon⟩ := handleJoinTail_eq_ok ht
    have hp₁ := ih (fun s hs => hsrc s (mem_append_left _ hs)) hl
    have hp₂ := hp₁.right (fun s hs => hsrc s (mem_append_right _ hs)) hright
    rw [leaves, Join.sources, filterMap_append]
    exact hp₂.applied hon

end Walk

end DbProxy
