import DbProxy.Spec.Truth

/-!
# Routes of atoms

Only four kinds of atoms say anything about the route: a column compared with a literal, in either order, an `IN`
and a `BETWEEN` on a column.  `RouteUnder` lists them with the route each one gets under a rule; what follows about
routes starts from it and not from the handlers.
-/

namespace DbProxy

open Fallible

def Op.isCompare : Op → Bool
  | .eq | .ne | .lt | .le | .gt | .ge => true
  | _ => false

/-- The column that an atom tests, in the four kinds of atoms. -/
def Expr.testedColumn : Expr Parsed → Option ColumnName
  | .binary _ (.column _ c) (.value _) => some c
  | .binary _ (.value _) (.column _ c) => some c
  | .patternIn _ (.column _ c) _ _ _ => some c
  | .between _ (.column _ c) _ _ _ => some c
  | _ => none

/-- The route of an atom whose column belongs to a table under `rule`. -/
inductive RouteUnder (rule : Rule) : Expr Parsed → List Int → Prop where
  | columnValue {op : Op} {c : ColumnName} {v : Datum} {indexes : List Int} (hop : op.isCompare = true)
      (hr : rule.getType ≠ .global) (hi : findTableIndexes op rule c.name.l v.value = .ok indexes) :
      RouteUnder rule (.binary op (.column () c) (.value v)) indexes
  | valueColumn {op : Op} {c : ColumnName} {v : Datum} {indexes : List Int} (hop : op.isCompare = true)
      (hr : rule.getType ≠ .global)
      (hi : findTableIndexes (inverseOperator op) rule c.name.l v.value = .ok indexes) :
      RouteUnder rule (.binary op (.value v) (.column () c)) indexes
  | patternIn {c : ColumnName} {list : List (Expr Parsed)} {isNot : Bool} {dec : PatternInExprDecorator}
      (hi : getPatternInRouteResult c isNot rule list = .ok dec) :
      RouteUnder rule (.patternIn () (.column () c) list none isNot) dec.tableIndexes
  | between {c : ColumnName} {left right : Expr Parsed} {isNot : Bool} {indexes : List Int}
      (hi : getBetweenExprRouteResult rule c left right isNot = .ok indexes) :
      RouteUnder rule (.between () (.column () c) left right isNot) indexes

/-- The planner gives the atom `e` the route `indexes`, under the rule that the column of `e` resolves to. -/
def RoutedAtom (p : TableAliasStmtInfo) (e : Expr Parsed) (indexes : List Int) : Prop :=
  ∃ c d, e.testedColumn = some c ∧ needCreateColumnNameDecorator p c = .ok (some d) ∧ RouteUnder d.rule e indexes

section Inversion

variable {p : TableAliasStmtInfo} {cond : Cond}
variable {op : Op} {side : String} {c : ColumnName} {v : Datum} {build : Expr Planned → Expr Planned}
  {l r e : Expr Parsed} {isNot : Bool} {indexes : List Int}

theorem handleComparisonExpr_columnValue (hop : op.isCompare = true) (c : ColumnName) (v : Datum) :
    handleComparisonExpr p (.binary op (.column () c) (.value v)) =
      handleCompareColumnValue p "L" op c v (fun l => .binary op l (.value v)) := by
  cases op <;> first | rfl | simp [Op.isCompare] at hop

theorem handleComparisonExpr_valueColumn (hop : op.isCompare = true) (c : ColumnName) (v : Datum) :
    handleComparisonExpr p (.binary op (.value v) (.column () c)) =
      handleCompareColumnValue p "R" (inverseOperator op) c v (fun r => .binary op (.value v) r) := by
  cases op <;> first | rfl | simp [Op.isCompare] at hop

theorem handleCompareColumnValue_eq_ok (h : handleCompareColumnValue p side op c v build = .ok cond) :
    ∃ d, needCreateColumnNameDecorator p c = .ok d ∧
      ((cond = .noRoute (build (.column d c)) ∧ ∀ d' ∈ d, d'.rule.getType = .global) ∨
        ∃ d' indexes, d = some d' ∧ d'.rule.getType ≠ .global ∧
        findTableIndexes op d'.rule c.name.l v.value = .ok indexes ∧
          cond = { has := true, indexes, expr := build (.column d c) }) := by
  obtain ⟨d, hd, h⟩ := bind_eq_ok.1 h
  refine ⟨d, wrapErr_eq_ok.1 hd, ?_⟩
  cases d with
  | none =>
    cases h
    exact .inl ⟨rfl, by simp⟩
  | some d =>
    simp only at h
    split at h
    · next hg =>
      cases h
      exact .inl ⟨rfl, by simpa using hg⟩
    · next hg =>
      obtain ⟨indexes, hi, h⟩ := bind_eq_ok.1 h
      cases h
      exact .inr ⟨d, indexes, rfl, hg, wrapErr_eq_ok.1 hi, rfl⟩

/-- A column compared with a literal, in either order: `op` has the column on the left, and `build` puts it back. -/
inductive Comparison (c : ColumnName) (v : Datum) : Expr Parsed → Op → (Expr Planned → Expr Planned) → Prop where
  | columnValue {op : Op} (hop : op.isCompare = true) :
      Comparison c v (.binary op (.column () c) (.value v)) op (fun l => .binary op l (.value v))
  | valueColumn {op : Op} (hop : op.isCompare = true) :
      Comparison c v (.binary op (.value v) (.column () c)) (inverseOperator op) (fun r => .binary op (.value v) r)

/-- An expression that is visited as a whole. -/
def Expr.isPlain : Expr Parsed → Bool
  | .binary .. | .patternIn .. | .between .. | .paren _ => false
  | _ => true

/-- What `handleComparisonExpr` does with an atom. -/
inductive AtomRun (p : TableAliasStmtInfo) : Expr Parsed → Cond → Prop where
  | hinted {op : Op} {l r : Expr Parsed} {name : String} (hop : op.isLogic = false)
      (hhint : databaseHint op l r = .ok name) (hname : name ≠ "") :
      AtomRun p (.binary op l r) { Cond.noRoute (.binary op l.untouched r.untouched) with hint := some name }
  | operands {op : Op} {l r : Expr Parsed} {l' r' : Expr Planned} (hop : op.isLogic = false)
      (hhint : databaseHint op l r = .ok "") (hl : decorateOperand p "L" l = .ok l')
      (hr : decorateOperand p "R" r = .ok r') : AtomRun p (.binary op l r) (.noRoute (.binary op l' r'))
  | compared {e : Expr Parsed} {c : ColumnName} {v : Datum} {op : Op} {build : Expr Planned →
      Expr Planned} {cond : Cond}
      {side : String} (hcomparison : Comparison c v e op build)
      (hcompare : handleCompareColumnValue p side op c v build = .ok cond) :
      AtomRun p e cond
  | inUnrouted {e : Expr Parsed} {list : List (Expr Parsed)} {isNot : Bool}
      (hno : ∀ c, e = .column () c → needCreateColumnNameDecorator p c = .ok none) :
      AtomRun p (.patternIn () e list none isNot) (.noRoute (Expr.untouched (.patternIn () e list none isNot)))
  | inRouted {c : ColumnName} {d : ColumnNameDecorator} {dec : PatternInExprDecorator} {list : List (Expr Parsed)}
      {isNot : Bool}
      (hd : needCreateColumnNameDecorator p c = .ok (some d))
      (hi : getPatternInRouteResult c isNot d.rule list = .ok dec) :
      AtomRun p (.patternIn () (.column () c) list none isNot)
        { has := true, indexes := dec.tableIndexes
          expr := .patternIn (some dec) (.column (some d) c) (Expr.untouchedList list) none isNot }
  | betweenUnrouted {e left right : Expr Parsed} {isNot : Bool}
      (hno : ∀ c, e = .column () c → needCreateColumnNameDecorator p c = .ok none) :
      AtomRun p (.between () e left right isNot) (.noRoute (Expr.untouched (.between () e left right isNot)))
  | betweenRouted {c : ColumnName} {d : ColumnNameDecorator} {left right : Expr Parsed} {isNot : Bool}
      {indexes : List Int}
      (hd : needCreateColumnNameDecorator p c = .ok (some d))
      (hi : getBetweenExprRouteResult d.rule c left right isNot = .ok indexes) :
      AtomRun p (.between () (.column () c) left right isNot)
        { has := true, indexes
          expr := .between (some ⟨indexes⟩) (.column (some d) c) left.untouched right.untouched isNot }
  | visited {e : Expr Parsed} {e' : Expr Planned} (hplain : e.isPlain = true)
      (hvisit : Expr.acceptRoot (columnNameRewriteVisitor p) e = .ok e') :
      AtomRun p e { has := false, indexes := p.result.indexes, expr := e' }

theorem atomRun_of_other (hop : op.isLogic = false) (hhint : databaseHint op l r = .ok "")
    (h : handleBinaryOperationExprOther p op l r = .ok cond) : AtomRun p (.binary op l r) cond := by
  obtain ⟨l', hl, h⟩ := bind_eq_ok.1 h
  obtain ⟨r', hr, h⟩ := bind_eq_ok.1 h
  cases h
  exact .operands hop hhint hl hr

theorem atomRun_of_mathCompare (hop : op.isCompare = true)
    (h : handleBinaryOperationExprMathCompare p op l r = .ok cond) : AtomRun p (.binary op l r) cond := by
  have hlogic : op.isLogic = false := by cases op <;> first | rfl | cases hop
  obtain ⟨name, hhint, h⟩ := bind_eq_ok.1 h
  split at h
  · next hname =>
    cases h
    exact .hinted hlogic hhint hname
  · next hname =>
    obtain rfl := not_not.1 hname
    split at h
    · exact .compared (.columnValue hop) h
    · exact .compared (.valueColumn hop) h
    · exact atomRun_of_other hlogic hhint h

theorem atomRun_of_patternIn {list : List (Expr Parsed)} {sel : Option (Expr Parsed)}
    (h : handlePatternInExpr p e list sel isNot = .ok cond) : AtomRun p (.patternIn () e list sel isNot) cond := by
  unfold handlePatternInExpr at h
  split at h
  · cases h
  · next hsel =>
    obtain rfl : sel = none := by simpa using hsel
    split at h
    · obtain ⟨d, hd, h⟩ := bind_eq_ok.1 h
      rw [wrapErr_eq_ok] at hd
      cases d with
      | none =>
        cases h
        exact .inUnrouted (by rintro _ ⟨⟩; exact hd)
      | some d =>
        obtain ⟨dec, hi, h⟩ := bind_eq_ok.1 h
        cases h
        exact .inRouted hd (wrapErr_eq_ok.1 hi)
    · next hno =>
      cases h
      exact .inUnrouted fun c heq => absurd heq (hno () c)

theorem atomRun_of_between {left right : Expr Parsed} (h : handleBetweenExpr p e left right isNot = .ok cond) :
    AtomRun p (.between () e left right isNot) cond := by
  unfold handleBetweenExpr at h
  split at h
  · obtain ⟨d, hd, h⟩ := bind_eq_ok.1 h
    rw [wrapErr_eq_ok] at hd
    cases d with
    | none =>
      cases h
      exact .betweenUnrouted (by rintro _ ⟨⟩; exact hd)
    | some d =>
      obtain ⟨indexes, hi, h⟩ := bind_eq_ok.1 h
      cases h
      exact .betweenRouted hd (wrapErr_eq_ok.1 hi)
  · next hno =>
    cases h
    exact .betweenUnrouted fun c heq => absurd heq (hno () c)

section

variable (he : e.isAtom = true) (h : handleComparisonExpr p e = .ok cond)

include he h

theorem atomRun_of_ok : AtomRun p e cond := by
  cases e with
  | binary op l r =>
    cases op with
    | logicAnd | logicOr => simp [Expr.isAtom, Op.isLogic] at he
    | other s => exact atomRun_of_other rfl rfl h
    | _ => exact atomRun_of_mathCompare rfl h
  | patternIn a e list sel isNot => exact atomRun_of_patternIn h
  | between a e left right isNot => exact atomRun_of_between h
  | paren e => simp [Expr.isAtom] at he
  | _ =>
    obtain ⟨e', he', h⟩ := bind_eq_ok.1 h
    cases h
    exact .visited rfl he'

theorem routedAtom_of_has (hhas : cond.has = true) : RoutedAtom p e cond.indexes := by
  cases atomRun_of_ok he h with
  | compared hcomparison hcompare =>
    obtain ⟨d, hd, ⟨rfl, _⟩ | ⟨d, indexes, rfl, hg, hi, rfl⟩⟩ := handleCompareColumnValue_eq_ok hcompare
    · cases hhas
    · cases hcomparison with
      | columnValue hop => exact ⟨_, d, rfl, hd, .columnValue hop hg hi⟩
      | valueColumn hop => exact ⟨_, d, rfl, hd, .valueColumn hop hg hi⟩
  | inRouted hd hi => exact ⟨_, _, rfl, hd, .patternIn hi⟩
  | betweenRouted hd hi => exact ⟨_, _, rfl, hd, .between hi⟩
  | _ => cases hhas

theorem column_of_ok (hc : e.testedColumn = some c)
    : ∃ d, needCreateColumnNameDecorator p c = .ok d := by
  have looked : ∀ {side : String} {d : Option ColumnNameDecorator}, decorateColumn p side c = .ok d →
      ∃ d, needCreateColumnNameDecorator p c = .ok d := fun h => ⟨_, wrapErr_eq_ok.1 h⟩
  have compared : ∀ {side : String} {op : Op} {v : Datum} {build : Expr Planned → Expr Planned},
      handleCompareColumnValue p side op c v build = .ok cond → ∃ d, needCreateColumnNameDecorator p c = .ok d := by
    intro side op v build h
    obtain ⟨d, hd, _⟩ := bind_eq_ok.1 h
    exact looked hd
  unfold Expr.testedColumn at hc
  split at hc
  · next op _ c' v =>
    cases hc
    cases op with
    | logicAnd | logicOr => simp [Expr.isAtom, Op.isLogic] at he
    | other s =>
      obtain ⟨l, hl, _⟩ := bind_eq_ok.1 h
      obtain ⟨d, hd, _⟩ := bind_eq_ok.1 hl
      exact looked hd
    | _ => exact compared (by rwa [handleComparisonExpr_columnValue rfl] at h)
  · next op v _ c' =>
    cases hc
    cases op with
    | logicAnd | logicOr => simp [Expr.isAtom, Op.isLogic] at he
    | other s =>
      obtain ⟨l, _, h⟩ := bind_eq_ok.1 h
      obtain ⟨r, hr, _⟩ := bind_eq_ok.1 h
      obtain ⟨d, hd, _⟩ := bind_eq_ok.1 hr
      exact looked hd
    | _ => exact compared (by rwa [handleComparisonExpr_valueColumn rfl] at h)
  · next _ c' list sel isNot =>
    cases hc
    simp only [handleComparisonExpr, handlePatternInExpr] at h
    split at h
    · cases h
    · obtain ⟨d, hd, _⟩ := bind_eq_ok.1 h
      exact ⟨d, wrapErr_eq_ok.1 hd⟩
  · cases hc
    obtain ⟨d, hd, _⟩ := bind_eq_ok.1 h
    exact ⟨d, wrapErr_eq_ok.1 hd⟩
  · cases hc

end

theorem handleCompareColumnValue_eq {d : ColumnNameDecorator}
    (hd : needCreateColumnNameDecorator p c = .ok (some d)) (hr : d.rule.getType ≠ .global)
    (hi : findTableIndexes op d.rule c.name.l v.value = .ok indexes)
    (h : handleCompareColumnValue p side op c v build = .ok cond) : cond.has = true ∧ cond.indexes = indexes := by
  unfold handleCompareColumnValue decorateColumn at h
  obtain ⟨d', hd', h⟩ := bind_eq_ok.1 h
  obtain rfl : some d = d' := ok_unique hd (wrapErr_eq_ok.1 hd')
  simp only [hr, if_false] at h
  obtain ⟨indexes', hi', h⟩ := bind_eq_ok.1 h
  cases h
  exact ⟨rfl, ok_unique (wrapErr_eq_ok.1 hi') hi⟩

/-- An atom of the four kinds whose column has a rule gets a route under it. -/
theorem routeUnder_of_ok {d : ColumnNameDecorator} (hc : e.testedColumn = some c)
    (he : ∀ op l r, e = .binary op l r → op.isCompare)
    (hd : needCreateColumnNameDecorator p c = .ok (some d)) (hr : d.rule.getType ≠ .global)
    (h : handleComparisonExpr p e = .ok cond) : cond.has = true ∧ RouteUnder d.rule e cond.indexes := by
  have compared : ∀ {side op v build}, handleCompareColumnValue p side op c v build = .ok cond →
      cond.has = true ∧ findTableIndexes op d.rule c.name.l v.value = .ok cond.indexes := by
    intro side op v build h
    obtain ⟨d', hd', ⟨-, hg⟩ | ⟨d'', indexes, rfl, -, hi, rfl⟩⟩ := handleCompareColumnValue_eq_ok h
    · obtain rfl := ok_unique hd hd'
      exact absurd (hg d rfl) hr
    · cases ok_unique hd hd'
      exact ⟨rfl, hi⟩
  unfold Expr.testedColumn at hc
  split at hc
  · cases hc
    have hop := he _ _ _ rfl
    rw [handleComparisonExpr_columnValue hop] at h
    exact ⟨(compared h).1, .columnValue hop hr (compared h).2⟩
  · cases hc
    have hop := he _ _ _ rfl
    rw [handleComparisonExpr_valueColumn hop] at h
    exact ⟨(compared h).1, .valueColumn hop hr (compared h).2⟩
  · cases hc
    simp only [handleComparisonExpr, handlePatternInExpr] at h
    split at h
    · cases h
    · next hsel =>
      obtain ⟨d', hd', h⟩ := bind_eq_ok.1 h
      obtain rfl : some d = d' := ok_unique hd (wrapErr_eq_ok.1 hd')
      obtain ⟨dec, hi, h⟩ := bind_eq_ok.1 h
      cases h
      rw [Option.not_isSome_iff_eq_none.1 hsel]
      exact ⟨rfl, .patternIn (wrapErr_eq_ok.1 hi)⟩
  · cases hc
    obtain ⟨d', hd', h⟩ := bind_eq_ok.1 h
    obtain rfl : some d = d' := ok_unique hd (wrapErr_eq_ok.1 hd')
    obtain ⟨indexes, hi, h⟩ := bind_eq_ok.1 h
    cases h
    exact ⟨rfl, .between (wrapErr_eq_ok.1 hi)⟩
  · cases hc

theorem has_of_routedAtom (hroute : RoutedAtom p e indexes)
    (h : handleComparisonExpr p e = .ok cond) : cond.has = true ∧ cond.indexes = indexes := by
  obtain ⟨c, d, hc, hd, hroute⟩ := hroute
  cases hroute with
  | columnValue hop hr hi =>
    cases hc
    rw [handleComparisonExpr_columnValue hop] at h
    exact handleCompareColumnValue_eq hd hr hi h
  | valueColumn hop hr hi =>
    cases hc
    rw [handleComparisonExpr_valueColumn hop] at h
    exact handleCompareColumnValue_eq hd hr hi h
  | patternIn hi =>
    cases hc
    obtain ⟨d', hd', h⟩ := bind_eq_ok.1 h
    obtain rfl : some d = d' := ok_unique hd (wrapErr_eq_ok.1 hd')
    obtain ⟨dec, hi', h⟩ := bind_eq_ok.1 h
    cases h
    obtain rfl := ok_unique (wrapErr_eq_ok.1 hi') hi
    exact ⟨rfl, rfl⟩
  | between hi =>
    cases hc
    obtain ⟨d', hd', h⟩ := bind_eq_ok.1 h
    obtain rfl : some d = d' := ok_unique hd (wrapErr_eq_ok.1 hd')
    obtain ⟨indexes', hi', h⟩ := bind_eq_ok.1 h
    cases h
    exact ⟨rfl, ok_unique (wrapErr_eq_ok.1 hi') hi⟩

end Inversion

end DbProxy
