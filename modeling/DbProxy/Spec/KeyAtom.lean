import DbProxy.Spec.Locate

/-!
# Conditions on the key

What a condition leaves of a route, read off the indexes of its literals: `Expr.admits`.  The planner keeps exactly
the indexes that the condition admits, as long as the configured indexes are in order (`Resolves.admits_iff`); and a
condition that is true of rows at an index admits it (`admits_of_truth`), if it compares sharding columns only with
literals that the rule places in order.  All tables of a statement follow one parent rule, so a sharding column of any
of them says the same about the indexes.
-/

namespace DbProxy

open SortedMerge (Reaches)

/-! ### Atoms on the key -/

def Expr.isColumn (column : String) : Expr Parsed → Bool
  | .column _ c => c.name.l = column
  | _ => false

def Expr.isValue : Expr Parsed → Bool
  | .value _ => true
  | _ => false

def Expr.isLiteral (literal : Datum → Option Int) : Expr Parsed → Bool
  | .value v => (literal v).isSome
  | _ => false

/-- An atom that compares the key `column` only with the literals that `literal` reads, and has no `BETWEEN` on it.
Anything may be said about other columns. -/
def keyAtom (literal : Datum → Option Int) (column : String) : Expr Parsed → Bool
  | .binary op l r =>
    !op.isCompare || ((!l.isColumn column || !r.isValue || r.isLiteral literal) &&
      (!r.isColumn column || !l.isValue || l.isLiteral literal))
  | .patternIn _ e list _ _ => !e.isColumn column || list.all (Expr.isLiteral literal)
  | .between _ e _ _ _ => !e.isColumn column
  | _ => true

/-- A `BETWEEN` with literals that `literal` reads; the bounds of a `NOT BETWEEN` are not in reversed sub-tables. -/
def orderedBetween (literal : Datum → Option Int) (parent : BaseRule) : Expr Parsed → Prop
  | .between _ _ (.value a) (.value b) isNot => (literal a).isSome ∧ (literal b).isSome ∧
      (isNot = true → ∀ ja jb, parent.shard.findForKey a.value = .ok ja → parent.shard.findForKey b.value = .ok jb →
        ja ≤ jb)
  | _ => False

/-- An atom whose route is sound: it is a `keyAtom` for all sharding columns, or a `BETWEEN` that is in order. -/
def soundAtom (literal : Datum → Option Int) (parent : BaseRule) (columns : List String) (e : Expr Parsed) : Prop :=
  (∀ column ∈ columns, keyAtom literal column e = true) ∨ orderedBetween literal parent e

/-! ### Admitted indexes -/

section Admits

variable (rule : Rule) (keyed : ColumnName → Bool) (i : Int)

/-- As far as indexes tell, rows at index `i` may satisfy the atom; `keyed` are the sharding columns. -/
def Expr.atomAdmits : Expr Parsed → Prop
  | .binary op (.column _ c) (.value v) => keyed c = true → rule.admits op v.value i
  | .binary op (.value v) (.column _ c) => keyed c = true → rule.admits (inverseOperator op) v.value i
  | .patternIn _ (.column _ c) list none isNot =>
    keyed c = true → isNot = false → ∃ e ∈ list, ∀ j, e.tableIndex rule = some j → i = j
  | .between _ (.column _ c) (.value a) (.value b) isNot =>
    keyed c = true → rule.admitsBetween isNot a.value b.value i
  | _ => True

def Expr.admits : Expr Parsed → Prop
  | .binary op l r => match op with
    | .logicAnd => admits l ∧ admits r
    | .logicOr => admits l ∨ admits r
    | op => atomAdmits rule keyed i (.binary op l r)
  | .paren e => admits e
  | e => atomAdmits rule keyed i e

variable {rule keyed i}

theorem Expr.admits_atom {e : Expr Parsed} (he : e.isAtom = true) :
    e.admits rule keyed i ↔ e.atomAdmits rule keyed i := by
  cases e with
  | binary op l r =>
    cases op with
    | logicAnd | logicOr => simp [isAtom, Op.isLogic] at he
    | _ => exact Iff.rfl
  | paren e => simp [isAtom] at he
  | _ => exact Iff.rfl

end Admits

/-! ### Truth of atoms -/

theorem truth_compare {ρ : Reading} {op : Op} (hop : op.isCompare = true) (l r : Expr Parsed) :
    ρ.truth (.binary op l r) = ρ.compare op l r := by
  cases op <;> first | rfl | simp [Op.isCompare] at hop

theorem literals_isSome {ρ : Reading} {list : List (Expr Parsed)}
    (h : list.all (Expr.isLiteral ρ.literal) = true) : ∃ ns, ρ.literals list = some ns := by
  induction list with
  | nil => exact ⟨[], rfl⟩
  | cons e es ih =>
    rw [List.all_cons, Bool.and_eq_true] at h
    obtain ⟨ns, hns⟩ := ih h.2
    cases e with
    | value v =>
      obtain ⟨n, hn⟩ := Option.isSome_iff_exists.1 h.1
      exact ⟨n :: ns, by simp [Reading.literals, hn, hns]⟩
    | _ => simp [Expr.isLiteral] at h

theorem exists_literal {ρ : Reading} {list : List (Expr Parsed)} {ns : List Int} (h : ρ.literals list = some ns)
    {n : Int} (hn : n ∈ ns) : ∃ v, .value v ∈ list ∧ ρ.literal v = some n := by
  induction list generalizing ns with
  | nil =>
    cases h
    cases hn
  | cons e es ih =>
    cases e with
    | value v =>
      obtain ⟨m, ms, hm, hms, rfl⟩ := Option.map₂_eq_some_iff.1 h
      rcases List.mem_cons.1 hn with rfl | hn
      · exact ⟨v, List.mem_cons_self, hm⟩
      · obtain ⟨w, hw, hwn⟩ := ih hms hn
        exact ⟨w, List.mem_cons_of_mem _ hw, hwn⟩
    | _ => cases h

section Truth

variable {ρ : Reading} {c : ColumnName} {key : Option Int} (hkey : ρ.key c = some key)

include hkey

theorem holds_of_columnValue {op : Op} {v : Datum} {n : Int} (hop : op.isCompare = true) (hv : ρ.literal v = some n)
    (ht : ρ.truth (.binary op (.column () c) (.value v)) = some true) : ∃ k, key = some k ∧ op.holds k n = true := by
  rw [truth_compare hop] at ht
  simpa only [Reading.compare, hkey, hv, Option.map_eq_some_iff] using ht

theorem holds_of_valueColumn {op : Op} {v : Datum} {n : Int} (hop : op.isCompare = true) (hv : ρ.literal v = some n)
    (ht : ρ.truth (.binary op (.value v) (.column () c)) = some true) : ∃ k, key = some k ∧ op.holds n k = true := by
  rw [truth_compare hop] at ht
  simpa only [Reading.compare, hkey, hv, Option.map_eq_some_iff] using ht

theorem mem_of_isIn {list : List (Expr Parsed)} {ns : List Int} (hns : ρ.literals list = some ns)
    (ht : ρ.truth (.patternIn () (.column () c) list none false) = some true) : ∃ k, key = some k ∧ k ∈ ns := by
  simp only [Reading.truth, Reading.isIn, hkey, hns, Option.map_eq_some_iff] at ht
  obtain ⟨k, hk, ht⟩ := ht
  exact ⟨k, hk, by simpa using ht⟩

theorem holds_of_between {a b : Datum} {isNot : Bool} {x y : Int} (ha : ρ.literal a = some x)
    (hb : ρ.literal b = some y) (ht : ρ.truth (.between () (.column () c) (.value a) (.value b) isNot) = some true) :
    ∃ k, key = some k ∧ (decide (x ≤ k ∧ k ≤ y) != isNot) = true := by
  simpa only [Reading.truth, Reading.isBetween, hkey, ha, hb, Option.map_eq_some_iff] using ht

end Truth

/-- The sharding columns, whose names are in `columns`, read as keys that lie at `i`, or as NULL. -/
structure ReadsKeys (rule : Rule) (keyed : ColumnName → Bool) (columns : List String) (ρ : Reading) (i : Int) :
    Prop where
  column : ∀ c, keyed c = true → c.name.l ∈ columns
  key : ∀ c, keyed c = true → ∃ key, ρ.key c = some key ∧
    ∀ k, key = some k → Locates rule ρ.literal k i ∧ StartIsLeast rule ρ.literal k i

section Sound

variable {rule : Rule} {keyed : ColumnName → Bool} {columns : List String} {ρ : Reading} {i : Int}
  {e : Expr Parsed}

theorem ReadsKeys.admits (hreads : ReadsKeys rule keyed columns ρ i) {c : ColumnName} {v : Datum} {op : Op}
    (hc : keyed c = true) (hv : (ρ.literal v).isSome)
    (hholds : ∀ key n, ρ.key c = some key → ρ.literal v = some n → ∃ k, key = some k ∧ op.holds k n = true) :
    rule.admits op v.value i := by
  obtain ⟨key, hkey, hlocates⟩ := hreads.key c hc
  obtain ⟨n, hn⟩ := Option.isSome_iff_exists.1 hv
  obtain ⟨k, hk, hholds⟩ := hholds key n hkey hn
  obtain ⟨hloc, hstart⟩ := hlocates k hk
  exact admits_of_holds hloc hstart hn hholds

theorem atomAdmits_of_truth (hreads : ReadsKeys rule keyed columns ρ i)
    (he : soundAtom ρ.literal rule.parent columns e) (ht : ρ.truth e = some true) :
    e.atomAdmits rule keyed i := by
  unfold Expr.atomAdmits
  split
  · next op _ c v =>
    intro hc
    by_cases hop : op.isCompare = true
    · refine hreads.admits hc ?_ fun key n hkey hn => holds_of_columnValue hkey hop hn ht
      simpa [keyAtom, hop, Expr.isColumn, Expr.isValue, Expr.isLiteral] using
        (he.resolve_right id) _ (hreads.column c hc)
    · exact (Rule.admits_of_other (by simpa using hop) _ i).1
  · next op v _ c =>
    intro hc
    by_cases hop : op.isCompare = true
    · refine hreads.admits hc ?_ fun key n hkey hn => ?_
      · simpa [keyAtom, hop, Expr.isColumn, Expr.isValue, Expr.isLiteral] using
          (he.resolve_right id) _ (hreads.column c hc)
      · simp only [holds_inverseOperator hop]
        exact holds_of_valueColumn hkey hop hn ht
    · exact (Rule.admits_of_other (by simpa using hop) _ i).2
  · next _ c list isNot =>
    rintro hc rfl
    obtain ⟨key, hkey, hlocates⟩ := hreads.key c hc
    have hlits : list.all (Expr.isLiteral ρ.literal) = true := by
      simpa [keyAtom, Expr.isColumn] using (he.resolve_right id) _ (hreads.column c hc)
    obtain ⟨ns, hns⟩ := literals_isSome hlits
    obtain ⟨k, hk, hmem⟩ := mem_of_isIn hkey hns ht
    obtain ⟨v, hv, hvk⟩ := exists_literal hns hmem
    exact ⟨.value v, hv, fun j hj => (hlocates k hk).1.eq v j hvk (tableIndex_value.1 hj)⟩
  · next _ c a b isNot =>
    intro hc
    obtain ⟨key, hkey, hlocates⟩ := hreads.key c hc
    rcases he with he | ⟨hx, hy, hord⟩
    · have hatom := he _ (hreads.column c hc)
      simp [keyAtom, Expr.isColumn] at hatom
    obtain ⟨x, hx⟩ := Option.isSome_iff_exists.1 hx
    obtain ⟨y, hy⟩ := Option.isSome_iff_exists.1 hy
    obtain ⟨k, hk, hholds⟩ := holds_of_between hkey hx hy ht
    obtain ⟨hloc, hstart⟩ := hlocates k hk
    cases isNot with
    | false =>
      obtain ⟨hxk, hky⟩ : x ≤ k ∧ k ≤ y := by simpa using hholds
      exact admitsBetween_inside hloc hx hy hxk hky
    | true =>
      have hout : k < x ∨ y < k := by
        rw [Bool.bne_true, Bool.not_eq_true', decide_eq_false_iff_not] at hholds
        omega
      exact admitsBetween_ordered hloc hstart hx hy (hord rfl) hout
  · trivial

/-- A condition that is true of rows at an index admits it. -/
theorem admits_of_truth (hreads : ReadsKeys rule keyed columns ρ i)
    (he : ∀ a ∈ e.atoms, soundAtom ρ.literal rule.parent columns a) (ht : ρ.truth e = some true) :
    e.admits rule keyed i := by
  induction e using Expr.conditionInduction with
  | logic op l r hop ihl ihr =>
    rw [Expr.atoms_logic hop] at he
    have hl := ihl fun a ha => he a (List.mem_append_left _ ha)
    have hr := ihr fun a ha => he a (List.mem_append_right _ ha)
    cases op with
    | logicAnd => exact (Kleene.and_eq_true.1 ht).imp hl hr
    | logicOr => exact (Kleene.or_eq_true.1 ht).imp hl hr
    | _ => simp [Op.isLogic] at hop
  | paren e ih => exact ih he ht
  | atom e hatom =>
    rw [Expr.admits_atom hatom]
    exact atomAdmits_of_truth hreads (he e (by rw [Expr.atoms_atom hatom]; exact List.mem_singleton_self e)) ht

end Sound

/-! ### Routes of conditions -/

section Routes

variable {rule : Rule}
variable {indexes : List Int} {c : ColumnName} {isNot : Bool} {e : Expr Parsed}

theorem CompareRoute.eq_all {op : Op} {column : String} {v : GoVal}
    (h : CompareRoute rule op column v indexes) (hc : rule.getShardingColumn ≠ column) :
    indexes = rule.getSubTableIndexes := by
  cases h with
  | all => rfl
  | eq h | lt h | le h => exact absurd h hc
  | above _ h => exact absurd h hc

theorem InRoute.eq_all {list : List (Expr Parsed)} {dec : PatternInExprDecorator}
    (h : InRoute rule c list isNot dec) (hc : rule.getShardingColumn ≠ c.name.l) :
    dec.tableIndexes = rule.getSubTableIndexes := by
  cases h with
  | broadcast => rfl
  | filed _ h => exact absurd h hc

theorem BetweenRoute.eq_all {left right : Expr Parsed}
    (h : BetweenRoute rule c left right isNot indexes) (hc : rule.getShardingColumn ≠ c.name.l) :
    indexes = rule.getSubTableIndexes := by
  cases h with
  | all => rfl
  | inside _ h => exact absurd h hc
  | outside _ h => exact absurd h hc

theorem RouteUnder.eq_all (h : RouteUnder rule e indexes) :
    ∃ c, e.testedColumn = some c ∧ (rule.getShardingColumn ≠ c.name.l → indexes = rule.getSubTableIndexes) := by
  cases h with
  | columnValue _ _ hi => exact ⟨_, rfl, (compareRoute_of_ok hi).eq_all⟩
  | valueColumn _ _ hi => exact ⟨_, rfl, (compareRoute_of_ok hi).eq_all⟩
  | patternIn hi => exact ⟨_, rfl, (inRoute_of_ok hi).eq_all⟩
  | between hi => exact ⟨_, rfl, (betweenRoute_of_ok hi).eq_all⟩

variable {p : TableAliasStmtInfo} {keyed : ColumnName → Bool} {i : Int} {cond : Cond}

theorem increasing_of_routedAtom
    (hrules : ∀ c d, needCreateColumnNameDecorator p c = .ok (some d) → Increasing d.rule.getSubTableIndexes)
    (h : RoutedAtom p e indexes) : Increasing indexes := by
  obtain ⟨c, d, _, hd, h⟩ := h
  have hsub := hrules c d hd
  cases h with
  | columnValue _ _ hroute => exact (compareRoute_of_ok hroute).increasing hsub
  | valueColumn _ _ hroute => exact (compareRoute_of_ok hroute).increasing hsub
  | patternIn hroute => exact (inRoute_of_ok hroute).increasing hsub
  | between hroute => exact (betweenRoute_of_ok hroute).increasing hsub

theorem increasing_route
    (hrules : ∀ c d, needCreateColumnNameDecorator p c = .ok (some d) → Increasing d.rule.getSubTableIndexes)
    (e : Expr Parsed) : ∀ c, handleComparisonExpr p e = .ok c → c.has = true → Increasing c.indexes := by
  apply increasing_of_atoms
  intro a c ha hc hhas
  exact increasing_of_routedAtom hrules (routedAtom_of_has ha hc hhas)

/-- The route of an atom under a rule with the parent of `rule` has the indexes that the atom admits. -/
theorem RouteUnder.reaches_iff {rule' : Rule} (h : RouteUnder rule' e indexes) (hg : rule'.getType ≠ .global)
    (hparent : rule'.parent = rule.parent) (hi : rule.Finds i) (hc : e.testedColumn = some c)
    (hkeyed : keyed c = true ↔ rule'.getShardingColumn = c.name.l) :
    Reaches i indexes ↔ e.atomAdmits rule keyed i := by
  have hi' : rule'.Finds i := hi.of_parent hparent.symm
  by_cases hname : rule'.getShardingColumn = c.name.l
  swap
  · obtain ⟨c', hc', hall⟩ := h.eq_all
    obtain rfl : c = c' := Option.mem_unique hc hc'
    have hnot : keyed c ≠ true := fun h => hname (hkeyed.1 h)
    rw [hall hname]
    refine iff_of_true hi'.reaches ?_
    unfold Expr.atomAdmits
    split <;> first | trivial | (cases hc; exact fun h => absurd h hnot)
  have hk : keyed c = true := hkeyed.2 hname
  cases h with
  | columnValue _ _ hroute =>
    cases hc
    rw [(compareRoute_of_ok hroute).reaches_iff hname hi', Rule.admits_of_parent hparent]
    exact ⟨fun h _ => h, fun h => h hk⟩
  | valueColumn _ _ hroute =>
    cases hc
    rw [(compareRoute_of_ok hroute).reaches_iff hname hi', Rule.admits_of_parent hparent]
    exact ⟨fun h _ => h, fun h => h hk⟩
  | patternIn hroute =>
    cases hc
    rw [(inRoute_of_ok hroute).reaches_iff hg hname hi']
    simp only [tableIndex_of_parent hparent]
    exact ⟨fun h _ => h, fun h => h hk⟩
  | @between _ left right isNot _ hroute =>
    cases hc
    have hroute := betweenRoute_of_ok hroute
    by_cases hlit : ∃ a b, left = .value a ∧ right = .value b
    · obtain ⟨a, b, rfl, rfl⟩ := hlit
      rw [hroute.reaches_iff hg hname hi', Rule.admitsBetween_of_parent hparent]
      exact ⟨fun h _ => h, fun h => h hk⟩
    · -- bounds that are no literals leave all indexes
      refine iff_of_true ?_ ?_
      · cases hroute with
        | all => exact hi'.reaches
        | inside | outside => exact absurd ⟨_, _, rfl, rfl⟩ hlit
      · unfold Expr.atomAdmits
        split
        · next heq => cases heq
        · next heq => cases heq
        · next heq => cases heq
        · next heq =>
          cases heq
          exact absurd ⟨_, _, rfl, rfl⟩ hlit
        · trivial

/-- The columns that the planner resolves belong to tables under one parent rule, and `keyed` are the sharding columns
among them. -/
structure Resolves (p : TableAliasStmtInfo) (rule : Rule) (keyed : ColumnName → Bool) : Prop where
  sharded : rule.getType ≠ .global
  parent : ∀ c d, needCreateColumnNameDecorator p c = .ok (some d) → d.rule.parent = rule.parent
  keyed : ∀ c d, needCreateColumnNameDecorator p c = .ok d →
    (keyed c = true ↔ ∃ d', d = some d' ∧ d'.rule.getShardingColumn = c.name.l)

section

variable (hp : Resolves p rule keyed)

include hp

theorem Resolves.reaches_atom_iff (hi : rule.Finds i) (he : e.isAtom = true)
    (h : handleComparisonExpr p e = .ok cond) :
    (cond.has = true → Reaches i cond.indexes) ↔ e.atomAdmits rule keyed i := by
  by_cases hroutable : ∃ c d, e.testedColumn = some c ∧ needCreateColumnNameDecorator p c = .ok (some d) ∧
      ∀ op l r, e = .binary op l r → op.isCompare
  · obtain ⟨c, d, hc, hd, hop⟩ := hroutable
    have hg : d.rule.getType ≠ .global := by
      rw [Rule.getType, hp.parent c d hd]
      exact hp.sharded
    obtain ⟨hhas, hunder⟩ := routeUnder_of_ok hc hop hd hg h
    rw [forall_prop_of_true hhas]
    exact hunder.reaches_iff hg (hp.parent c d hd) hi hc ((hp.keyed c _ hd).trans (by simp))
  · -- the planner does not look at the atom, and the atom does not say anything
    refine iff_of_true (fun hhas => ?_) ?_
    · obtain ⟨c, d, hc, hd, hunder⟩ := routedAtom_of_has he h hhas
      refine absurd ⟨c, d, hc, hd, ?_⟩ hroutable
      rintro op l r rfl
      cases hunder <;> assumption
    · have hkeyed : ∀ c, e.testedColumn = some c → keyed c = true → ∃ op l r, e = .binary op l r ∧
          op.isCompare = false := by
        intro c hc hk
        obtain ⟨d, hd⟩ := column_of_ok he h hc
        obtain ⟨d', rfl, -⟩ := (hp.keyed c d hd).1 hk
        by_contra hno
        refine hroutable ⟨c, d', hc, hd, fun op l r heq => ?_⟩
        by_contra hop
        exact hno ⟨op, l, r, heq, by simpa using hop⟩
      unfold Expr.atomAdmits
      split
      · intro hk
        obtain ⟨op, l, r, heq, hop⟩ := hkeyed _ rfl hk
        cases heq
        exact (Rule.admits_of_other hop _ i).1
      · intro hk
        obtain ⟨op, l, r, heq, hop⟩ := hkeyed _ rfl hk
        cases heq
        exact (Rule.admits_of_other hop _ i).2
      · intro hk
        obtain ⟨op, l, r, heq, hop⟩ := hkeyed _ rfl hk
        cases heq
      · intro hk
        obtain ⟨op, l, r, heq, hop⟩ := hkeyed _ rfl hk
        cases heq
      · trivial

/-- The route of a condition does not pass over an index that the condition admits. -/
theorem Resolves.reaches_of_admits (hi : rule.Finds i) (h : handleComparisonExpr p e = .ok cond)
    (he : e.admits rule keyed i) : cond.has = true → Reaches i cond.indexes := by
  induction e using Expr.conditionInduction generalizing cond with
  | logic op l r hop ihl ihr =>
    obtain ⟨lc, rc, hlc, hrc, rfl⟩ := (handleComparisonExpr_logic hop).1 h
    cases op with
    | logicAnd => exact reaches_merge_and (ihl hlc he.1) (ihr hrc he.2)
    | logicOr => exact reaches_merge_or (he.imp (ihl hlc) (ihr hrc))
    | _ => simp [Op.isLogic] at hop
  | paren e ih =>
    obtain ⟨c, hc, rfl⟩ := handleComparisonExpr_paren.1 h
    show c.has = true → Reaches i c.indexes
    exact ih hc he
  | atom e hatom => exact (hp.reaches_atom_iff hi hatom h).2 ((Expr.admits_atom hatom).1 he)

theorem Resolves.increasing_route (hsub : Increasing rule.getSubTableIndexes) (e : Expr Parsed) :
    ∀ c, handleComparisonExpr p e = .ok c → c.has = true → Increasing c.indexes := by
  refine DbProxy.increasing_route ?_ e
  intro c d hd
  rwa [Rule.getSubTableIndexes, hp.parent c d hd]

theorem Resolves.admits_iff (hsub : Increasing rule.getSubTableIndexes) (hi : i ∈ rule.getSubTableIndexes)
    (h : handleComparisonExpr p e = .ok cond) :
    (cond.has = true → i ∈ cond.indexes) ↔ e.admits rule keyed i := by
  have hfinds := finds_of_increasing hsub hi
  induction e using Expr.conditionInduction generalizing cond with
  | logic op l r hop ihl ihr =>
    obtain ⟨lc, rc, hlc, hrc, rfl⟩ := (handleComparisonExpr_logic hop).1 h
    cases op with
    | logicAnd =>
      exact (mem_merge_and (hp.increasing_route hsub l lc hlc) (hp.increasing_route hsub r rc hrc)).trans
        (and_congr (ihl hlc) (ihr hrc))
    | logicOr => exact mem_merge_or.trans (or_congr (ihl hlc) (ihr hrc))
    | _ => simp [Op.isLogic] at hop
  | paren e ih =>
    obtain ⟨c, hc, rfl⟩ := handleComparisonExpr_paren.1 h
    show (c.has = true → i ∈ c.indexes) ↔ e.admits rule keyed i
    exact ih hc
  | atom e he =>
    rw [Expr.admits_atom he, ← hp.reaches_atom_iff hfinds he h]
    exact forall_congr' fun hhas => (reaches_iff_mem (hp.increasing_route hsub e cond h hhas)).symm

end

end Routes

end DbProxy
