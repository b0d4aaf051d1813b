import DbProxy.Spec.IntegerKeys

/-!
# Predicates on global tables

A global table has the same rows on every slice, so a predicate on it says nothing about where the rows of the
sharded tables are.  This file compares the plans of two statements that differ in one predicate, conjoined to `WHERE`
or to an `ON` condition.  The two walks run side by side: from the predicate on, the second state is the first one
with fewer indexes (`Narrowed`).

Comparisons on a global table have no route, but `IN` and `BETWEEN` get all indexes of its rule as their route, and
lose what the sharded tables have beyond them.
-/

namespace DbProxy

open Fallible List

/-! ### States that differ in the route -/

def TableAliasStmtInfo.withIndexes (p : TableAliasStmtInfo) (indexes : List Int) : TableAliasStmtInfo :=
  { p with result := { p.result with indexes } }

section WithIndexes

variable {p p₁ p₂ : TableAliasStmtInfo} {indexes : List Int}

theorem handleComparisonExpr_withIndexes {e : Expr Parsed} {c c' : Cond} (h : handleComparisonExpr p e = .ok c)
    (h' : handleComparisonExpr (p.withIndexes indexes) e = .ok c') :
    c'.has = c.has ∧ (c.has = true → c'.indexes = c.indexes) := by
  induction e using Expr.conditionInduction generalizing c c' with
  | logic op l r hop ihl ihr =>
    obtain ⟨lc, rc, hlc, hrc, rfl⟩ := (handleComparisonExpr_logic hop).1 h
    obtain ⟨lc', rc', hlc', hrc', rfl⟩ := (handleComparisonExpr_logic hop).1 h'
    obtain ⟨hl, hli⟩ := ihl hlc hlc'
    obtain ⟨hr, hri⟩ := ihr hrc hrc'
    simp only [Cond.merge, mergeBinaryOperationRouteResult, hl, hr]
    cases op <;> cases hlh : lc.has <;> cases hrh : rc.has <;> simp_all
  | paren e ih =>
    obtain ⟨c₁, hc₁, rfl⟩ := handleComparisonExpr_paren.1 h
    obtain ⟨c₂, hc₂, rfl⟩ := handleComparisonExpr_paren.1 h'
    show c₂.has = c₁.has ∧ (c₁.has = true → c₂.indexes = c₁.indexes)
    exact ih hc₁ hc₂
  | atom e he =>
    have same : handleComparisonExpr (p.withIndexes indexes) e = handleComparisonExpr p e →
        c'.has = c.has ∧ (c.has = true → c'.indexes = c.indexes) := by
      intro heq
      obtain rfl : c = c' := ok_unique h (heq.symm.trans h')
      exact ⟨rfl, fun _ => rfl⟩
    cases e with
    | binary op l r =>
      cases op with
      | logicAnd | logicOr => simp [Expr.isAtom, Op.isLogic] at he
      | _ => exact same rfl
    | patternIn a e list sel isNot => exact same rfl
    | between a e left right isNot => exact same rfl
    | paren e => simp [Expr.isAtom] at he
    | _ =>
      obtain ⟨e₁, _, h⟩ := bind_eq_ok.1 h
      obtain ⟨e₂, _, h'⟩ := bind_eq_ok.1 h'
      cases h
      cases h'
      exact ⟨rfl, fun h => by cases h⟩

theorem rewriteTableSource_withIndexes {db : String} {router : Router} {s : TableSource Parsed} {l : Leaf}
    (hl : leafOf db router s = some l) (hdb : p.result.db ≠ "") {s₁ s₂ : TableSource Planned}
    (h₁ : rewriteTableSource p s = .ok (s₁, p₁)) (h₂ : rewriteTableSource (p.withIndexes indexes) s = .ok (s₂, p₂)) :
    p₂ = p₁.withIndexes indexes := by
  cases s with
  | select s asName => cases hl
  | table a n asName =>
    have record : ∀ {q q' : TableAliasStmtInfo} {s' : TableSource Planned}, q.result.db ≠ "" →
        rewriteTableSource q (.table a n asName) = .ok (s', q') → ∃ rule,
          q.router.getShardRule q.db n.name.l = some rule ∧
          q' = { q with toStmtInfo := q.toStmtInfo.recordRule n.name.l rule
                        tableAlias := TableAliasStmtInfo.recordAlias q.tableAlias n.name.l asName.l } := by
      intro q q' s' hq h
      obtain ⟨⟨rule, q₁⟩, hname, h⟩ := bind_eq_ok.1 h
      cases h
      obtain ⟨s, hs, rfl⟩ := TableAliasStmtInfo.recordShardTable_eq_ok (rewriteTableName_eq_ok hname)
      obtain ⟨hrule, hcheck⟩ := StmtInfo.recordShardTable_eq_ok hs
      refine ⟨rule, hrule, ?_⟩
      have hresult : (q.toStmtInfo.recordRule n.name.l rule).result = q.result := by
        unfold StmtInfo.recordRule
        split <;> rfl
      rcases StmtInfo.checkStmtRouteResult_eq_ok hcheck with rfl | ⟨_, hempty, _⟩
      · rfl
      · rw [hresult] at hempty
        exact absurd hempty hq
    obtain ⟨rule, hrule, rfl⟩ := record hdb h₁
    obtain ⟨rule', hrule', rfl⟩ := record (by exact hdb) h₂
    obtain rfl : rule = rule' := Option.mem_unique hrule hrule'
    unfold StmtInfo.recordRule
    split <;> rfl

end WithIndexes

/-- `q'` is `q` with the indexes that satisfy `K`. -/
structure Narrowed (K : Int → Prop) (q q' : TableAliasStmtInfo) : Prop where
  same : q' = q.withIndexes q'.result.indexes
  increasing : Increasing q'.result.indexes
  mem : ∀ i, i ∈ q'.result.indexes ↔ i ∈ q.result.indexes ∧ K i

variable {db : String} {router : Router} {ls : List Leaf} {es : List (Expr Parsed)}

section Narrowed

variable {K : Int → Prop} {q q' q₁ q₁' : TableAliasStmtInfo}

theorem applyCond_withIndexes (q : TableAliasStmtInfo) (indexes : List Int) {c c' : Cond} (hhint : c'.hint = c.hint) :
    (q.withIndexes indexes).applyCond c' =
      (q.applyCond c).withIndexes ((q.withIndexes indexes).applyCond c').result.indexes := by
  unfold TableAliasStmtInfo.applyCond
  rw [hhint]
  cases c.has <;> cases c'.has <;> rfl

theorem Narrowed.applied (hq : Walked db router q ls es) (hn : Narrowed K q q') {on : Option (Expr Parsed)}
    (h : Applied q on q₁) (h' : Applied q' on q₁') : Narrowed K q₁ q₁' := by
  rcases h.eq with ⟨rfl, rfl⟩ | ⟨e, c, rfl, hc, rfl⟩
  · rcases h'.eq with ⟨_, rfl⟩ | ⟨e, c, he, _⟩
    · exact hn
    · cases he
  · rcases h'.eq with ⟨he, _⟩ | ⟨e', c', he, hc', rfl⟩
    · cases he
    · cases he
      have hc'' : handleComparisonExpr (q.withIndexes q'.result.indexes) e = .ok c' := by
        rw [← hn.same]
        exact hc'
      obtain ⟨hhas, hindexes⟩ := handleComparisonExpr_withIndexes hc hc''
      have hinc := hq.increasing_route e c hc
      have hinc' : c'.has = true → Increasing c'.indexes := by
        intro h
        rw [hindexes (hhas ▸ h)]
        exact hinc (hhas ▸ h)
      refine ⟨?_, increasing_applyCond hn.increasing hinc', ?_⟩
      · have hhint : c'.hint = c.hint := (hint_eq hc').trans (hint_eq hc).symm
        have := applyCond_withIndexes q q'.result.indexes hhint
        rwa [← hn.same] at this
      · intro i
        rw [mem_applyCond hn.increasing hinc', mem_applyCond hq.increasing hinc, hn.mem i, hhas]
        constructor
        · rintro ⟨⟨hi, hK⟩, hroute⟩
          exact ⟨⟨hi, fun h => hindexes h ▸ hroute h⟩, hK⟩
        · rintro ⟨⟨hi, hroute⟩, hK⟩
          exact ⟨⟨hi, hK⟩, fun h => (hindexes h).symm ▸ hroute h⟩

theorem Narrowed.record (hq : Walked db router q ls es) (hstarted : ∃ l ∈ ls, ¬ l.isGlobal) (hn : Narrowed K q q')
    {s : TableSource Parsed} {l : Leaf} (hl : leafOf db router s = some l) {s₁ s₂ : TableSource Planned}
    (h : rewriteTableSource q s = .ok (s₁, q₁)) (h' : rewriteTableSource q' s = .ok (s₂, q₁')) :
    Narrowed K q₁ q₁' := by
  have hdb := hq.started hstarted
  obtain ⟨_, _, _, hkeep⟩ := hq.recorded.record hl h
  have hresult := hkeep (.inr hdb)
  rw [hn.same] at h'
  obtain rfl := rewriteTableSource_withIndexes hl hdb h h'
  refine ⟨rfl, hn.increasing, ?_⟩
  intro i
  rw [hresult]
  exact hn.mem i

theorem Narrowed.right (hq : Walked db router q ls es) (hstarted : ∃ l ∈ ls, ¬ l.isGlobal) (hn : Narrowed K q q')
    {t : JoinTail (TableSource Parsed) Parsed} (hsrc : ∀ s ∈ t.sources, plainSource db router s)
    {r₁ r₂ : Option (JoinRight (TableSource Planned))}
    (h : handleJoinRight rewriteTableSource q t.right = .ok (r₁, q₁))
    (h' : handleJoinRight rewriteTableSource q' t.right = .ok (r₂, q₁')) : Narrowed K q₁ q₁' := by
  rcases handleJoinRight_eq_ok h with ⟨hnone, rfl⟩ | ⟨s, s₁, hsome, hs⟩
  · rcases handleJoinRight_eq_ok h' with ⟨_, rfl⟩ | ⟨s', _, hsome, _⟩
    · exact hn
    · simp [hnone] at hsome
  · rcases handleJoinRight_eq_ok h' with ⟨hnone, _⟩ | ⟨s', s₂, hsome', hs'⟩
    · simp [hnone] at hsome
    · obtain rfl : s = s' := by simpa [hsome] using hsome'
      obtain ⟨l, hl, _⟩ := hsrc s (by simp [JoinTail.sources, hsome])
      exact hn.record hq hstarted hl hs hs'

theorem Narrowed.eq_of_unset (hn : Narrowed K q q') (h : q.result = {}) : q' = q := by
  have hempty : q'.result.indexes = [] := by
    rw [eq_nil_iff_forall_not_mem]
    intro i hi
    have := ((hn.mem i).1 hi).1
    rw [h] at this
    cases this
  calc q' = q.withIndexes q'.result.indexes := hn.same
    _ = q.withIndexes q.result.indexes := by rw [hempty, h]
    _ = q := rfl

end Narrowed

/-! ### Conjoining a predicate -/

/-- The condition `e`, or none, with the predicate `P` conjoined. -/
inductive Conj (P : Expr Parsed) : Option (Expr Parsed) → Expr Parsed → Prop where
  | alone : Conj P none P
  | right (e : Expr Parsed) : Conj P (some e) (.binary .logicAnd e P)
  | parenRight (e : Expr Parsed) : Conj P (some e) (.binary .logicAnd (.paren e) P)
  | left (e : Expr Parsed) : Conj P (some e) (.binary .logicAnd P e)
  | parenLeft (e : Expr Parsed) : Conj P (some e) (.binary .logicAnd P (.paren e))

/-- The join with `P` conjoined to the `ON` condition of one node; `ss` are the sources of that node. -/
inductive OnConjoined (P : Expr Parsed) : List (TableSource Parsed) → Join (TableSource Parsed) Parsed →
    Join (TableSource Parsed) Parsed → Prop where
  | ofSource (s : TableSource Parsed) (t : JoinTail (TableSource Parsed) Parsed) {e : Expr Parsed}
      (h : Conj P t.on e) : OnConjoined P (s :: t.sources) (.ofSource s t) (.ofSource s { t with on := some e })
  | ofJoin (left : Join (TableSource Parsed) Parsed) (t : JoinTail (TableSource Parsed) Parsed) {e : Expr Parsed}
      (h : Conj P t.on e) :
      OnConjoined P (left.sources ++ t.sources) (.ofJoin left t) (.ofJoin left { t with on := some e })
  | inLeft {ss : List (TableSource Parsed)} {left left' : Join (TableSource Parsed) Parsed}
      (t : JoinTail (TableSource Parsed) Parsed) (h : OnConjoined P ss left left') :
      OnConjoined P ss (.ofJoin left t) (.ofJoin left' t)

/-- The statement with `P` conjoined to `WHERE` or to an `ON` condition; `ss` are the tables that `P` can refer to. -/
inductive Conjoined (P : Expr Parsed) (ss : List (TableSource Parsed)) (stmt : SelectStmt Parsed) :
    SelectStmt Parsed → Prop where
  | inWhere {j : Join (TableSource Parsed) Parsed} {e : Expr Parsed} (hrefs : stmt.tableRefs = some j)
      (hss : ss = j.sources) (h : Conj P stmt.cond e) : Conjoined P ss stmt { stmt with cond := some e }
  | inOn {j j' : Join (TableSource Parsed) Parsed} (hrefs : stmt.tableRefs = some j) (h : OnConjoined P ss j j') :
      Conjoined P ss stmt { stmt with tableRefs := some j' }

variable {P : Expr Parsed} {p q q' : TableAliasStmtInfo}

section Conjoined

variable {e' : Expr Parsed} {on : Option (Expr Parsed)} {ss : List (TableSource Parsed)}
  {j j' : Join (TableSource Parsed) Parsed}

/-- What the planner makes of a conjunction with `P`: the indexes that both sides keep. -/
theorem Conj.route (hp : Walked db router p ls es) (hname : P.databaseName = none) {e : Expr Parsed}
    (h : Conj P (some e) e') {c c' : Cond} (hc : handleComparisonExpr p e = .ok c)
    (hc' : handleComparisonExpr p e' = .ok c') :
    ∃ cP, handleComparisonExpr p P = .ok cP ∧ c'.hint = c.hint ∧
      ∀ i, (c'.has = true → i ∈ c'.indexes) ↔ (c.has = true → i ∈ c.indexes) ∧ (cP.has = true → i ∈ cP.indexes) := by
  have hhint : c'.hint = c.hint := by
    rw [hint_eq hc, hint_eq hc']
    cases h <;> simp [Expr.databaseName, Op.isLogic, hname]
  -- on either side of `AND`, and with or without parentheses
  cases h with
  | right =>
    obtain ⟨lc, cP, hlc, hcP, rfl⟩ := (handleComparisonExpr_logic rfl).1 hc'
    obtain rfl : c = lc := ok_unique hc hlc
    exact ⟨cP, hcP, hhint, fun i => mem_merge_and (hp.increasing_route _ _ hlc) (hp.increasing_route _ _ hcP)⟩
  | parenRight =>
    obtain ⟨lc, cP, hlc, hcP, rfl⟩ := (handleComparisonExpr_logic rfl).1 hc'
    obtain ⟨c₁, hc₁, rfl⟩ := handleComparisonExpr_paren.1 hlc
    obtain rfl : c = c₁ := ok_unique hc hc₁
    exact ⟨cP, hcP, hhint, fun i => mem_merge_and (hp.increasing_route _ _ hlc) (hp.increasing_route _ _ hcP)⟩
  | left =>
    obtain ⟨cP, rc, hcP, hrc, rfl⟩ := (handleComparisonExpr_logic rfl).1 hc'
    obtain rfl : c = rc := ok_unique hc hrc
    refine ⟨cP, hcP, hhint, fun i => ?_⟩
    rw [and_comm]
    exact mem_merge_and (hp.increasing_route _ _ hcP) (hp.increasing_route _ _ hrc)
  | parenLeft =>
    obtain ⟨cP, rc, hcP, hrc, rfl⟩ := (handleComparisonExpr_logic rfl).1 hc'
    obtain ⟨c₁, hc₁, rfl⟩ := handleComparisonExpr_paren.1 hrc
    obtain rfl : c = c₁ := ok_unique hc hc₁
    refine ⟨cP, hcP, hhint, fun i => ?_⟩
    rw [and_comm]
    exact mem_merge_and (hp.increasing_route _ _ hcP) (hp.increasing_route _ _ hrc)

/-- From the predicate on, the second walk has the indexes that the route of the predicate keeps. -/
theorem narrowed_of_conj (hp : Walked db router p ls es) (hname : P.databaseName = none)
    (hconj : Conj P on e') (h : Applied p on q) (h' : Applied p (some e') q') :
    ∃ cP, handleComparisonExpr p P = .ok cP ∧ Narrowed (fun i => cP.has = true → i ∈ cP.indexes) q q' := by
  rcases h'.eq with ⟨he, _⟩ | ⟨e'', c', he, hc', rfl⟩
  · cases he
  cases he
  have hinc' := hp.increasing_route e' c' hc'
  rcases h.eq with ⟨rfl, rfl⟩ | ⟨e, c, rfl, hc, rfl⟩
  · cases hconj
    refine ⟨c', hc', ?_, increasing_applyCond hp.increasing hinc', fun i => mem_applyCond hp.increasing hinc'⟩
    have hnone : c'.hint = none := (hint_eq hc').trans hname
    unfold TableAliasStmtInfo.applyCond
    rw [hnone]
    cases c'.has <;> rfl
  · obtain ⟨cP, hcP, hhint, hroute⟩ := hconj.route hp hname hc hc'
    refine ⟨cP, hcP, applyCond_withIndexes p p.result.indexes hhint, increasing_applyCond hp.increasing hinc', ?_⟩
    intro i
    rw [mem_applyCond hp.increasing hinc', mem_applyCond hp.increasing (hp.increasing_route e c hc),
      hroute i, and_assoc]

/-- How the two walks end: with the same state if all tables that `P` can refer to are global, otherwise with the
indexes that the route of `P` keeps. -/
def WalksApart (db : String) (router : Router) (P : Expr Parsed) (ls : List Leaf) (q q' : TableAliasStmtInfo) :
    Prop :=
  ((∀ l ∈ ls, l.isGlobal) ∧ q' = q) ∨
    ((∃ l ∈ ls, ¬ l.isGlobal) ∧ ∃ p cP, Recorded db router p ls ∧ handleComparisonExpr p P = .ok cP ∧
      Narrowed (fun i => cP.has = true → i ∈ cP.indexes) q q')

theorem walksApart_of_conj (hp : Walked db router p ls es) (hname : P.databaseName = none)
    (hconj : Conj P on e') (h : Applied p on q) (h' : Applied p (some e') q') :
    WalksApart db router P ls q q' := by
  obtain ⟨cP, hcP, hn⟩ := narrowed_of_conj hp hname hconj h h'
  by_cases hall : ∀ l ∈ ls, l.isGlobal
  · exact .inl ⟨hall, hn.eq_of_unset ((hp.applied h).unset hall)⟩
  · have hsharded : ∃ l ∈ ls, ¬ l.isGlobal := by simpa using hall
    exact .inr ⟨hsharded, p, cP, hp.recorded, hcP, hn⟩

theorem OnConjoined.sources (h : OnConjoined P ss j j') : ∀ s ∈ ss, s ∈ j.sources := by
  induction h with
  | ofSource s t => exact fun _ h => h
  | ofJoin left t => exact fun _ h => h
  | inLeft t _ ih => exact fun s hs => mem_append_left _ (ih s hs)

theorem OnConjoined.walksApart {order : MapOrder} (hname : P.databaseName = none) (h : OnConjoined P ss j j')
    (hsrc : ∀ s ∈ j.sources, plainSource db router s) {r r' : Join (TableSource Planned) Planned}
    (hj : handleJoin (newTableAliasStmtInfo db router order) j = .ok (r, q))
    (hj' : handleJoin (newTableAliasStmtInfo db router order) j' = .ok (r', q')) :
    WalksApart db router P (ss.filterMap (leafOf db router)) q q' := by
  induction h generalizing q q' r r' with
  | ofSource s t hconj =>
    obtain ⟨s₁, p₁, t₁, hs, ht, -⟩ := handleJoin_ofSource hj
    obtain ⟨s₂, p₂, t₂, hs', ht', -⟩ := handleJoin_ofSource hj'
    cases hs.symm.trans hs'
    obtain ⟨right, p₂, hright, hon⟩ := handleJoinTail_eq_ok ht
    obtain ⟨right', p₂', hright', hon'⟩ := handleJoinTail_eq_ok ht'
    cases hright.symm.trans hright'
    exact walksApart_of_conj (walked_first hsrc hs hright) hname hconj hon hon'
  | ofJoin left t hconj =>
    obtain ⟨l₁, p₁, t₁, hl, ht, -⟩ := handleJoin_ofJoin hj
    obtain ⟨l₂, p₂, t₂, hl', ht', -⟩ := handleJoin_ofJoin hj'
    cases hl.symm.trans hl'
    obtain ⟨right, p₂, hright, hon⟩ := handleJoinTail_eq_ok ht
    obtain ⟨right', p₂', hright', hon'⟩ := handleJoinTail_eq_ok ht'
    cases hright.symm.trans hright'
    have hp₁ := handleJoin_walked (fun s hs => hsrc s (mem_append_left _ hs)) hl
    have hp₂ := hp₁.right (fun s hs => hsrc s (mem_append_right _ hs)) hright
    rw [filterMap_append]
    exact walksApart_of_conj hp₂ hname hconj hon hon'
  | @inLeft ss left left' t hleft ih =>
    obtain ⟨l₁, p₁, t₁, hl, ht, -⟩ := handleJoin_ofJoin hj
    obtain ⟨l₂, p₁', t₂, hl', ht', -⟩ := handleJoin_ofJoin hj'
    have hsrcl : ∀ s ∈ left.sources, plainSource db router s := fun s hs => hsrc s (mem_append_left _ hs)
    rcases ih hsrcl hl hl' with ⟨hall, rfl⟩ | ⟨hsharded, p, cP, hp, hcP, hn⟩
    · cases ht.symm.trans ht'
      exact .inl ⟨hall, rfl⟩
    · obtain ⟨right, p₂, hright, hon⟩ := handleJoinTail_eq_ok ht
      obtain ⟨right', p₂', hright', hon'⟩ := handleJoinTail_eq_ok ht'
      have hsrcr : ∀ s ∈ t.sources, plainSource db router s := fun s hs => hsrc s (mem_append_right _ hs)
      have hp₁ := handleJoin_walked hsrcl hl
      have hstarted : ∃ l ∈ leaves db router left, ¬ l.isGlobal := by
        obtain ⟨l, hlmem, hg⟩ := hsharded
        obtain ⟨s, hs, hleaf⟩ := mem_filterMap.1 hlmem
        exact ⟨l, mem_filterMap.2 ⟨s, hleft.sources s hs, hleaf⟩, hg⟩
      have hn₂ := hn.right hp₁ hstarted hsrcr hright hright'
      exact .inr ⟨hsharded, p, cP, hp, hcP, hn₂.applied (hp₁.right hsrcr hright) hon hon'⟩

end Conjoined

/-! ### The route of the predicate -/

def Expr.isListing : Expr Parsed → Bool
  | .patternIn .. | .between .. => true
  | _ => false

/-- The rule that a table name in a condition stands for: names come before aliases. -/
def namedRule (ls : List Leaf) (table : String) : Option Rule :=
  ((ls.find? (fun l => l.name = table)).or (ls.find? (fun l => l.asName = table))).map Leaf.rule

/-- The predicate `P`, on a column of a table under `rule`, keeps the index `i`.  Under a global rule a comparison
keeps every index, `IN` and `BETWEEN` keep those of the global table. -/
def keepsIndex (rule : Rule) (P : Expr Parsed) (i : Int) : Prop :=
  if rule.getType = .global then P.isListing = true → i ∈ rule.getSubTableIndexes
  else ∀ indexes, RouteUnder rule P indexes → i ∈ indexes

variable {i : Int}

section Predicate

variable {p : TableAliasStmtInfo} {c : ColumnName} {d : ColumnNameDecorator} {cond : Cond}

theorem Recorded.namedRule_eq (hp : Recorded db router p ls) (hq : c.table.l ≠ "")
    (hd : needCreateColumnNameDecorator p c = .ok (some d)) : namedRule ls c.table.l = some d.rule := by
  obtain ⟨l, hl, hrule, howns⟩ := hp.resolve hd
  have found : ∀ q : Leaf → Bool, q l = true → ∃ l' ∈ ls, ls.find? q = some l' ∧ q l' = true := by
    intro q hql
    obtain ⟨l', hfind⟩ := Option.isSome_iff_exists.1 (find?_isSome.2 ⟨l, hl, hql⟩)
    exact ⟨l', mem_of_find?_eq_some hfind, hfind, find?_some hfind⟩
  unfold namedRule
  cases howns with
  | unqualified _ h => exact absurd h hq
  | byName _ hname =>
    obtain ⟨l', hl', hfind, hq'⟩ := found (fun l => l.name = c.table.l) (by simp [hname])
    have hname' : l'.name = c.table.l := by simpa using hq'
    rw [hfind, Option.some_or, Option.map_some, hrule, hp.rule_eq hl' hl (hname'.trans hname.symm)]
  | byAlias hne halias hno =>
    have hnone : ls.find? (fun l => l.name = c.table.l) = none := by
      rw [find?_eq_none]
      intro l' hl'
      simpa using hno l' hl'
    obtain ⟨l', hl', hfind, hq'⟩ := found (fun l => l.asName = c.table.l) (by simp [halias])
    have halias' : l'.asName = c.table.l := by simpa using hq'
    have hname := hp.name_eq hl' hl (by rwa [halias']) (halias'.trans halias.symm)
    rw [hnone, Option.none_or, hfind, Option.map_some, hrule, hp.rule_eq hl' hl hname]

theorem routeUnder_global {rule : Rule} (hg : rule.getType = .global) {indexes : List Int}
    (h : RouteUnder rule P indexes) : P.isListing = true ∧ indexes = rule.getSubTableIndexes := by
  cases h with
  | columnValue _ hr => exact absurd hg hr
  | valueColumn _ hr => exact absurd hg hr
  | patternIn hi =>
    simp only [getPatternInRouteResult, hg, if_true] at hi
    cases hi
    exact ⟨rfl, rfl⟩
  | between hi =>
    simp only [getBetweenExprRouteResult, hg, if_true] at hi
    cases hi
    exact ⟨rfl, rfl⟩

theorem routeUnder_of_listing {rule : Rule} (hg : rule.getType = .global) (hlist : P.isListing = true)
    (hc : P.testedColumn = some c) (h : handleComparisonExpr p P = .ok cond) :
    RouteUnder rule P rule.getSubTableIndexes := by
  cases P with
  | patternIn a e list sel isNot =>
    cases e with
    | column _ c' =>
      simp only [handleComparisonExpr, handlePatternInExpr] at h
      split at h
      · cases h
      · next hsel =>
        obtain rfl : sel = none := by simpa using hsel
        have hi : getPatternInRouteResult c' isNot rule list =
            .ok ⟨rule.getSubTableIndexes, getBroadcastValueMap rule.getSubTableIndexes list⟩ := by
          simp only [getPatternInRouteResult, hg, if_true]
        exact .patternIn hi
    | _ => simp [Expr.testedColumn] at hc
  | between a e left right isNot =>
    cases e with
    | column _ c' =>
      refine RouteUnder.between ?_
      simp only [getBetweenExprRouteResult, hg, if_true]
    | _ => simp [Expr.testedColumn] at hc
  | _ => cases hlist

theorem mem_predicate_iff (hP : P.isAtom = true) (hc : P.testedColumn = some c)
    (hd : needCreateColumnNameDecorator p c = .ok (some d)) (h : handleComparisonExpr p P = .ok cond) :
    (cond.has = true → i ∈ cond.indexes) ↔ keepsIndex d.rule P i := by
  have hroute : cond.has = true → RouteUnder d.rule P cond.indexes := by
    intro hhas
    obtain ⟨c', d', hc', hd', hroute⟩ := routedAtom_of_has hP h hhas
    obtain rfl : c = c' := Option.mem_unique hc hc'
    obtain rfl : d = d' := by simpa using hd.symm.trans hd'
    exact hroute
  unfold keepsIndex
  by_cases hg : d.rule.getType = .global
  · rw [if_pos hg]
    constructor
    · intro hmem hlist
      obtain ⟨hhas, hindexes⟩ := has_of_routedAtom ⟨c, d, hc, hd, routeUnder_of_listing hg hlist hc h⟩ h
      exact hindexes ▸ hmem hhas
    · intro hmem hhas
      obtain ⟨hlist, hindexes⟩ := routeUnder_global hg (hroute hhas)
      exact hindexes ▸ hmem hlist
  · rw [if_neg hg]
    constructor
    · intro hmem indexes hunder
      obtain ⟨hhas, hindexes⟩ := has_of_routedAtom ⟨c, d, hc, hd, hunder⟩ h
      exact hindexes ▸ hmem hhas
    · intro hmem hhas
      exact hmem _ (hroute hhas)

end Predicate

/-! ### The two plans -/

def Leaf.exposedName (l : Leaf) : String := if l.asName = "" then l.name else l.asName

/-- The column `c` belongs to a global table: it is qualified by the name of one, or it has no qualifier and is not
the sharding column of a sharded table. -/
def mentionsGlobal (ls : List Leaf) (c : ColumnName) : Prop :=
  (c.table.l ≠ "" ∧ ∃ l ∈ ls, l.isGlobal ∧ l.exposedName = c.table.l) ∨
    (c.schema.o = "" ∧ c.table.l = "" ∧ ∀ l ∈ ls, ¬ l.isGlobal → l.rule.getShardingColumn ≠ c.name.l)

theorem mem_mentioned_iff (hp : Recorded db router p ls) (hP : P.isAtom = true)
    (hmention : ∀ c, P.testedColumn = some c → mentionsGlobal ls c) {cond : Cond}
    (h : handleComparisonExpr p P = .ok cond) :
    (cond.has = true → i ∈ cond.indexes) ↔
      ∀ c r, P.testedColumn = some c → namedRule ls c.table.l = some r → c.table.l ≠ "" → keepsIndex r P i := by
  constructor
  · intro hmem c r hc hr hq
    obtain ⟨d, hd⟩ := column_of_ok hP h hc
    obtain ⟨d, rfl⟩ : ∃ d', d = some d' := by
      unfold needCreateColumnNameDecorator TableAliasStmtInfo.getSettedRuleFromColumnInfo at hd
      obtain ⟨r', hr', hd⟩ := bind_eq_ok.1 hd
      rw [if_neg (by simp [hq])] at hr'
      obtain ⟨r'', _, hr'⟩ := bind_eq_ok.1 hr'
      cases hr'
      exact ⟨_, (Except.ok.inj hd).symm⟩
    obtain rfl : r = d.rule := Option.mem_unique hr (hp.namedRule_eq hq hd)
    exact (mem_predicate_iff hP hc hd h).1 hmem
  · intro hkeep hhas
    obtain ⟨c, d, hc, hd, _⟩ := routedAtom_of_has hP h hhas
    refine (mem_predicate_iff hP hc hd h).2 ?_ hhas
    rcases hmention c hc with ⟨hq, _⟩ | ⟨hschema, htable, hno⟩
    · exact hkeep c d.rule hc (hp.namedRule_eq hq hd) hq
    · -- an unqualified column of the global table does not resolve
      obtain ⟨l, hl, hrule, howns⟩ := hp.resolve hd
      cases howns with
      | unqualified _ _ hg hkey => exact absurd hkey (hno l hl hg)
      | byName hq => exact absurd ⟨hschema, htable⟩ hq
      | byAlias hne => exact absurd htable hne

theorem indexes_of_hint {indexes : List Int} {q₁ q₁' : TableAliasStmtInfo}
    (h : postHandleHintDatabaseFunction q = .ok q₁)
    (h' : postHandleHintDatabaseFunction (q.withIndexes indexes) = .ok q₁') :
    if q.hintPhyDB = "" then q₁ = q ∧ q₁' = q.withIndexes indexes else q₁'.result.indexes = q₁.result.indexes := by
  unfold postHandleHintDatabaseFunction at h h'
  by_cases hempty : q.hintPhyDB = ""
  · have hempty' : (q.withIndexes indexes).hintPhyDB = "" := hempty
    rw [if_pos hempty] at h ⊢
    rw [if_pos hempty'] at h'
    exact ⟨(Except.ok.inj h).symm, (Except.ok.inj h').symm⟩
  · have hempty' : ¬ (q.withIndexes indexes).hintPhyDB = "" := hempty
    rw [if_neg hempty] at h ⊢
    rw [if_neg hempty'] at h'
    have hsame : (q.withIndexes indexes).router.getShardRule (q.withIndexes indexes).result.db
        (q.withIndexes indexes).result.table = q.router.getShardRule q.result.db q.result.table := rfl
    rw [hsame] at h'
    cases hrule : q.router.getShardRule q.result.db q.result.table with
    | none =>
      rw [hrule] at h
      cases h
    | some rule =>
      rw [hrule] at h h'
      simp only at h h'
      split at h
      · next hmycat =>
        rw [if_pos hmycat] at h'
        have hname : (q.withIndexes indexes).hintPhyDB = q.hintPhyDB := rfl
        rw [hname] at h'
        split at h
        · cases h
        · next idx hidx =>
          rw [hidx] at h'
          cases h
          cases h'
          rfl
      · cases h

theorem Conjoined.walksApart {order : MapOrder} {ss : List (TableSource Parsed)} {stmt stmt' : SelectStmt Parsed}
    {j : Join (TableSource Parsed) Parsed} (h : Conjoined P ss stmt stmt') (hname : P.databaseName = none)
    (hrefs : stmt.tableRefs = some j) (hsrc : ∀ s ∈ j.sources, plainSource db router s)
    {refs refs' : Option (Join (TableSource Planned) Planned)} {p p' : TableAliasStmtInfo}
    {cond cond' : Option (Expr Planned)}
    (h₁ : handleTableRefs (newTableAliasStmtInfo db router order) stmt.tableRefs = .ok (refs, p))
    (h₁' : handleTableRefs (newTableAliasStmtInfo db router order) stmt'.tableRefs = .ok (refs', p'))
    (h₂ : handleWhere p stmt.cond = .ok (cond, q)) (h₂' : handleWhere p' stmt'.cond = .ok (cond', q')) :
    Walked db router q (leaves db router j) (j.ons ++ stmt.cond.toList) ∧
      WalksApart db router P (ss.filterMap (leafOf db router)) q q' := by
  rw [hrefs] at h₁
  obtain ⟨⟨r, p₁⟩, hj, h₁⟩ := bind_eq_ok.1 h₁
  cases h₁
  have hp := handleJoin_walked hsrc hj
  have hwhere := handleWhere_eq_ok h₂
  refine ⟨hp.applied hwhere, ?_⟩
  cases h with
  | @inWhere j₁ e hrefs₁ hss hconj =>
    obtain rfl : j = j₁ := Option.mem_unique hrefs hrefs₁
    rw [hrefs] at h₁'
    obtain ⟨⟨r', p₁'⟩, hj', h₁'⟩ := bind_eq_ok.1 h₁'
    cases h₁'
    cases hj.symm.trans hj'
    rw [hss]
    exact walksApart_of_conj hp hname hconj hwhere (handleWhere_eq_ok h₂')
  | @inOn j₁ j' hrefs₁ hon =>
    obtain rfl : j = j₁ := Option.mem_unique hrefs hrefs₁
    obtain ⟨⟨r', p₁'⟩, hj', h₁'⟩ := bind_eq_ok.1 h₁'
    cases h₁'
    rcases hon.walksApart hname hsrc hj hj' with ⟨hall, rfl⟩ | ⟨hsharded, p₀, cP, hp₀, hcP, hn⟩
    · cases h₂.symm.trans h₂'
      exact .inl ⟨hall, rfl⟩
    · exact .inr ⟨hsharded, p₀, cP, hp₀, hcP, hn.applied hp hwhere (handleWhere_eq_ok h₂')⟩

/-- Conjoining a predicate on a global table to `WHERE` or to an `ON` condition leaves the route as it is, exactly
when one of these holds: a condition names a database, which then is the route; no sharded table comes before the
predicate; or the predicate keeps every index of the route.  A comparison on a global table does, `IN` and `BETWEEN`
only if the global table has those indexes.  A table name stands for the rule that `namedRule` finds, which is another
than that of the global table when a sharded table hides its name behind an alias. -/
theorem global_predicate_route_iff (db : String) (router : Router) (order : MapOrder) (P : Expr Parsed)
    (hP : P.isAtom = true) (hdb : P.namesDatabase = false) (stmt stmt' : SelectStmt Parsed)
    (ss : List (TableSource Parsed)) (hconj : Conjoined P ss stmt stmt') (j : Join (TableSource Parsed) Parsed)
    (hrefs : stmt.tableRefs = some j) (hsrc : ∀ s ∈ j.sources, plainSource db router s)
    (hsharded : ∃ l ∈ leaves db router j, ¬ l.isGlobal)
    (hmention : ∀ c, P.testedColumn = some c → mentionsGlobal (ss.filterMap (leafOf db router)) c)
    (plan plan' : SelectPlan) (hplan : handleSelectStmt (newTableAliasStmtInfo db router order) stmt = .ok plan)
    (hplan' : handleSelectStmt (newTableAliasStmtInfo db router order) stmt' = .ok plan') :
    (∀ i, i ∈ plan'.info.result.indexes ↔ i ∈ plan.info.result.indexes) ↔
      ((∀ e ∈ j.ons ++ stmt.cond.toList, e.databaseName = none) →
        (∃ l ∈ ss.filterMap (leafOf db router), ¬ l.isGlobal) →
        ∀ c r, P.testedColumn = some c → namedRule (ss.filterMap (leafOf db router)) c.table.l = some r →
          c.table.l ≠ "" → ∀ i ∈ plan.info.result.indexes, keepsIndex r P i) := by
  have hname : P.databaseName = none := by
    apply databaseName_eq_none
    rw [Expr.atoms_atom hP]
    intro a ha
    rw [mem_singleton.1 ha]
    exact hdb
  cases selectRun_of_ok hplan with
  | @mk _ p₁ q p₃ _ _ _ _ _ _ _ _ _ _ _ _ _ _ hrefs₁ _ _ _ _ hwhere _ _ hhint _ _ =>
  cases selectRun_of_ok hplan' with
  | @mk _ p₁' q' p₃' _ _ _ _ _ _ _ _ _ _ _ _ _ _ hrefs₁' _ _ _ _ hwhere' _ _ hhint' _ _ =>
    obtain ⟨hq, hapart⟩ := hconj.walksApart hname hrefs hsrc hrefs₁ hrefs₁' hwhere hwhere'
    have hne : q.tableRules ≠ [] := by
      obtain ⟨l, hl, hg⟩ := hsharded
      exact ne_nil_of_mem (AssocMap.mem_of_get (hq.recorded.named l hl hg))
    rw [StmtInfo.postHandleGlobalTableRouteResultInQuery, postHandleGlobal_of_tableRules hne] at hhint
    rcases hapart with ⟨hall, rfl⟩ | ⟨hss, p, cP, hp, hcP, hn⟩
    · rw [StmtInfo.postHandleGlobalTableRouteResultInQuery, postHandleGlobal_of_tableRules hne] at hhint'
      obtain rfl := ok_unique hhint hhint'
      refine ⟨?_, fun _ i => Iff.rfl⟩
      rintro _ _ ⟨l, hl, hg⟩
      exact absurd (hall l hl) hg
    · have hne' : q'.tableRules ≠ [] := by
        rw [hn.same]
        exact hne
      rw [StmtInfo.postHandleGlobalTableRouteResultInQuery, postHandleGlobal_of_tableRules hne'] at hhint'
      have hhint'' : postHandleHintDatabaseFunction (q.withIndexes q'.result.indexes) = .ok p₃' := by
        rw [← hn.same]
        exact hhint'
      have hresult := indexes_of_hint hhint hhint''
      by_cases hempty : q.hintPhyDB = ""
      · rw [if_pos hempty] at hresult
        obtain ⟨rfl, rfl⟩ := hresult
        have hkeep := fun i => mem_mentioned_iff (i := i) hp hP hmention hcP
        constructor
        · intro h _ _ c r hc hr hqual i hi
          exact (hkeep i).1 ((hn.mem i).1 ((h i).2 hi)).2 c r hc hr hqual
        · intro h i
          refine (hn.mem i).trans (and_iff_left_of_imp fun hi => ?_)
          exact (hkeep i).2 fun c r hc hr hqual => h (hq.hint.1 hempty) hss c r hc hr hqual i hi
      · rw [if_neg hempty] at hresult
        refine ⟨fun _ hno => absurd (hq.hint.2 hno) hempty, fun _ i => ?_⟩
        show i ∈ p₃'.result.indexes ↔ i ∈ p₃.result.indexes
        rw [hresult]

/-- A global table `g` on two slices. -/
def globalRule : BaseRule :=
  { db := "db", table := "g", shardingColumn := "", ruleType := .global, slices := ["s0", "s1"]
    subTableIndexes := [0, 1], tableToSlice := [(0, 0), (1, 1)], shard := globalTableShard
    mycatDatabases := ["db", "db"] }

def globalRouter : Router := ⟨[(("db", "t"), .base hashRule), (("db", "g"), .base globalRule)]⟩

def shardedJoinGlobal : Join (TableSource Parsed) Parsed :=
  .ofSource (.table () (unqualifiedTable "t") .empty)
    { right := some (.source (.table () (unqualifiedTable "g") .empty)) }

/-- `SELECT 1 FROM t JOIN g WHERE cond`. -/
def selectJoinGlobal (cond : Option (Expr Parsed)) : SelectStmt Parsed :=
  { fields := [.expr (.value (.int64 1)) .empty], tableRefs := some shardedJoinGlobal, cond }

theorem plainSource_shardedJoinGlobal : ∀ s ∈ shardedJoinGlobal.sources, plainSource "db" globalRouter s := by
  intro s hs
  rcases mem_cons.1 hs with rfl | hs
  · exact ⟨_, rfl, by decide, by decide⟩
  · obtain rfl := mem_singleton.1 hs
    exact ⟨_, rfl, by decide, by decide⟩

theorem leaves_shardedJoinGlobal :
    leaves "db" globalRouter shardedJoinGlobal = [⟨"t", "", .base hashRule⟩, ⟨"g", "", .base globalRule⟩] := rfl

theorem mentionsGlobal_shardedJoinGlobal (name : String) :
    mentionsGlobal (leaves "db" globalRouter shardedJoinGlobal) (qualifiedColumn "g" name) := by
  rw [leaves_shardedJoinGlobal]
  exact .inl ⟨(by decide : "g" ≠ ""), _, mem_cons_of_mem _ mem_cons_self, rfl, rfl⟩

/-- `SELECT 1 FROM t JOIN g` with and without `WHERE g.c = 1`. -/
theorem global_predicate_route_eq : ∃ plan plan',
    handleSelectStmt (newTableAliasStmtInfo "db" globalRouter .insertion) (selectJoinGlobal none) = .ok plan ∧
    handleSelectStmt (newTableAliasStmtInfo "db" globalRouter .insertion)
      (selectJoinGlobal (some (columnEq "g" "c" 1))) = .ok plan' ∧
    ∀ i, i ∈ plan'.info.result.indexes ↔ i ∈ plan.info.result.indexes := by
  obtain ⟨plan, hplan⟩ : ∃ plan, handleSelectStmt (newTableAliasStmtInfo "db" globalRouter .insertion)
    (selectJoinGlobal none) = .ok plan := ⟨_, rfl⟩
  obtain ⟨plan', hplan'⟩ : ∃ plan', handleSelectStmt (newTableAliasStmtInfo "db" globalRouter .insertion)
    (selectJoinGlobal (some (columnEq "g" "c" 1))) = .ok plan' := ⟨_, rfl⟩
  refine ⟨plan, plan', hplan, hplan', ?_⟩
  refine (global_predicate_route_iff "db" globalRouter .insertion (columnEq "g" "c" 1) rfl rfl (selectJoinGlobal none)
    (selectJoinGlobal (some (columnEq "g" "c" 1))) shardedJoinGlobal.sources (.inWhere rfl rfl .alone)
      shardedJoinGlobal
    rfl plainSource_shardedJoinGlobal ⟨_, mem_cons_self, by decide⟩ ?_ plan plan' hplan hplan').2 ?_
  · rintro c hc
    cases hc
    exact mentionsGlobal_shardedJoinGlobal "c"
  · rintro _ _ c r hc hr _ i _
    cases hc
    cases hr
    simp [keepsIndex, Expr.isListing, columnEq, Rule.getType, Rule.parent, globalRule]

/-- `SELECT 1 FROM t JOIN g` goes to all four sub-tables of `t`, and with `WHERE g.c IN (1)` only to two. -/
theorem globalIn_loses_tables : ∃ plan plan',
    handleSelectStmt (newTableAliasStmtInfo "db" globalRouter .insertion) (selectJoinGlobal none) = .ok plan ∧
    handleSelectStmt (newTableAliasStmtInfo "db" globalRouter .insertion)
      (selectJoinGlobal
        (some (.patternIn () (.column () (qualifiedColumn "g" "c")) [.value (.int64 1)] none false))) =
      .ok plan' ∧
    plan.info.result.indexes = [0, 1, 2, 3] ∧ plan'.info.result.indexes = [0, 1] :=
  ⟨_, _, rfl, rfl, by decide, by decide⟩

end DbProxy
