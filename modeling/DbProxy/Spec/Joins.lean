import DbProxy.Spec.IntegerKeys
import Mathlib.Data.Set.Basic

/-!
# Joins

What a join of a sharded table with the tables linked to it means, and which shards its rows come from.  A join tree
grows to the left: the rows of a node are those of its left part, extended by a row of its right table.  An outer join
also keeps rows that found no partner, with NULL for the other side.

The planner narrows the route by every `ON` condition and by `WHERE`, whatever the type of the join and whichever
table a condition is about.  That is right for rows that satisfy the condition, when those of its tables lie at one
index.  It is wrong for the others that an outer join keeps, and for partners that lie elsewhere.
-/

namespace DbProxy

open List

open Kleene (Truth)

/-! ### Rows of a join -/

/-- The data that a join is evaluated on: the rows of each table, the sharding key of a row and the index of the
sub-table that holds it, what literals stand for, and the truth of other predicates, of `USING` and of `NATURAL`. -/
structure JoinData (α : Type) where
  rows : TableSource Parsed → Set α
  key : α → Int
  index : α → Int
  literal : Datum → Option Int
  other : List (Option α) → Expr Parsed → Truth
  shared : JoinTail (TableSource Parsed) Parsed → List (Option α) → Prop

variable {α : Type}

/-- The position of the table that a column belongs to: by the name of a table, by an alias or, without a qualifier,
as the sharding column of a table. -/
def ownerOf (ls : List Leaf) (c : ColumnName) : Option Nat :=
  if c.schema.o = "" ∧ c.table.l = "" then ls.findIdx? (fun l => l.rule.getShardingColumn = c.name.l)
  else (ls.findIdx? (fun l => l.name = c.table.l)).or (ls.findIdx? (fun l => l.asName ≠ "" ∧ l.asName = c.table.l))

/-- The position of the table whose sharding column a column is. -/
def keyOwner (ls : List Leaf) (c : ColumnName) : Option Nat :=
  (ownerOf ls c).filter fun m => (ls[m]?).any (·.rule.getShardingColumn = c.name.l)

def isKeyOf (ls : List Leaf) (c : ColumnName) : Bool := (keyOwner ls c).isSome

section Meaning

variable (D : JoinData α)

/-- How a tuple of rows, one for each table or NULL, reads a condition. -/
def tupleReading (ls : List Leaf) (T : List (Option α)) : Reading where
  key c := (keyOwner ls c).map fun m => (T[m]?.join).map D.key
  literal := D.literal
  other := D.other T

def meets (ls : List Leaf) (t : JoinTail (TableSource Parsed) Parsed) (T : List (Option α)) : Prop :=
  (∀ e, t.on = some e → (tupleReading D ls T).truth e = some true) ∧ D.shared t T

variable (db : String) (router : Router)

/-- The rows of a join node over the rows `left` of its left part. -/
inductive TailRow (ls : List Leaf) (left : List (Option α) → Prop) (t : JoinTail (TableSource Parsed) Parsed) :
    List (Option α) → Prop where
  | single {T : List (Option α)} (hright : t.right = none) (hon : t.on = none) (h : left T) : TailRow ls left t T
  | matched {s : TableSource Parsed} {l : List (Option α)} {r : α} (hright : t.right = some (.source s)) (hl : left l)
      (hr : r ∈ D.rows s) (h : meets D (ls ++ (leafOf db router s).toList) t (l ++ [some r])) :
      TailRow ls left t (l ++ [some r])
  | leftOnly {s : TableSource Parsed} {l : List (Option α)} (hright : t.right = some (.source s)) (htp : t.tp = .left)
      (hl : left l) (h : ∀ r ∈ D.rows s, ¬ meets D (ls ++ (leafOf db router s).toList) t (l ++ [some r])) :
      TailRow ls left t (l ++ [none])
  | rightOnly {s : TableSource Parsed} {r : α} (hright : t.right = some (.source s)) (htp : t.tp = .right)
      (hr : r ∈ D.rows s) (h : ∀ l, left l → ¬ meets D (ls ++ (leafOf db router s).toList) t (l ++ [some r])) :
      TailRow ls left t (ls.map (fun _ => none) ++ [some r])

/-- The rows of a join, as tuples with one row or NULL for each table. -/
def JoinRow : Join (TableSource Parsed) Parsed → List (Option α) → Prop
  | .ofSource s t => TailRow D db router (leafOf db router s).toList (fun T => ∃ r ∈ D.rows s, T = [some r]) t
  | .ofJoin left t => TailRow D db router (leaves db router left) (JoinRow left) t

end Meaning

/-! ### Columns of a tuple -/

variable {D : JoinData α} {ls : List Leaf} {T : List (Option α)} {db : String} {router : Router} {parent : BaseRule}
  {p p' : TableAliasStmtInfo} {i : Int}

theorem exists_findIdx {q : Leaf → Bool} {l : Leaf} (hl : l ∈ ls) (hq : q l = true) :
    ∃ m l', ls.findIdx? q = some m ∧ ls[m]? = some l' ∧ l' ∈ ls ∧ q l' = true := by
  obtain ⟨m, hm⟩ := Option.isSome_iff_exists.1 (findIdx?_isSome.trans (any_eq_true.2 ⟨l, hl, hq⟩))
  obtain ⟨hlt, hm', _⟩ := findIdx?_eq_some_iff_getElem.1 hm
  exact ⟨m, ls[m], hm, getElem?_eq_getElem hlt, getElem_mem hlt, hm'⟩

theorem Recorded.ownerOf_eq (hp : Recorded db router p ls) {c : ColumnName} {d : ColumnNameDecorator}
    (hd : needCreateColumnNameDecorator p c = .ok (some d)) :
    ∃ m l, ownerOf ls c = some m ∧ ls[m]? = some l ∧ l.rule.getShardingColumn = d.rule.getShardingColumn := by
  obtain ⟨l, hl, hrule, howns⟩ := hp.resolve hd
  rw [hrule]
  unfold ownerOf
  cases howns with
  | unqualified hschema htable _ hc =>
    -- whichever table has this sharding column first
    obtain ⟨m, l', hm, hget, _, hq⟩ := exists_findIdx (q := fun l => l.rule.getShardingColumn = c.name.l) hl
      (by simp [hc])
    exact ⟨m, l', by rw [if_pos ⟨hschema, htable⟩, hm], hget, (of_decide_eq_true hq).trans hc.symm⟩
  | byName hq hname =>
    obtain ⟨m, l', hm, hget, hl', hq'⟩ := exists_findIdx (q := fun l => l.name = c.table.l) hl (by simp [hname])
    refine ⟨m, l', by rw [if_neg hq, hm]; rfl, hget, ?_⟩
    rw [hp.rule_eq hl' hl ((of_decide_eq_true hq').trans hname.symm)]
  | byAlias hne halias hno =>
    have hnone : ls.findIdx? (fun l => decide (l.name = c.table.l)) = none :=
      findIdx?_eq_none_iff.2 fun l' hl' => by simpa using hno l' hl'
    obtain ⟨m, l', hm, hget, hl', hq'⟩ := exists_findIdx (q := fun l => l.asName ≠ "" ∧ l.asName = c.table.l) hl
      (by simp [halias, hne])
    obtain ⟨hne', halias'⟩ := of_decide_eq_true hq'
    refine ⟨m, l', by rw [if_neg (fun h => hne h.2), hnone, hm]; rfl, hget, ?_⟩
    rw [hp.rule_eq hl' hl (hp.name_eq hl' hl hne' (halias'.trans halias.symm))]

theorem Recorded.resolves (hp : Recorded db router p ls) (hparent : ∀ l ∈ ls, l.rule.parent = parent)
    (hg : parent.ruleType ≠ .global) : Resolves p (.base parent) (isKeyOf ls) := by
  refine ⟨hg, fun c d hd => ?_, fun c d hd => ?_⟩
  · obtain ⟨l, hl, hrule, _⟩ := hp.resolve hd
    rw [hrule]
    exact hparent l hl
  · cases d with
    | none =>
      obtain ⟨hq, hno⟩ := hp.resolve_none hd
      have hnone : ls.findIdx? (fun l => decide (l.rule.getShardingColumn = c.name.l)) = none := by
        refine findIdx?_eq_none_iff.2 fun l hl => decide_eq_false (hno l hl ?_)
        rwa [Leaf.isGlobal, Rule.getType, hparent l hl]
      simp [isKeyOf, keyOwner, ownerOf, hq, hnone]
    | some d =>
      obtain ⟨m, l, howner, hget, hcolumn⟩ := hp.ownerOf_eq hd
      simp [isKeyOf, keyOwner, howner, Option.filter, hget, hcolumn]

/-- The condition was met by the rows of its tables, and those lie at `i`; its predicates on keys are of the kinds
that a route follows. -/
structure Together (D : JoinData α) (parent : BaseRule) (T : List (Option α)) (i : Int)
    (s : List Leaf × Expr Parsed) : Prop where
  sound : ∀ a ∈ s.2.atoms, soundAtom D.literal parent (s.1.map fun l => l.rule.getShardingColumn) a
  holds : (tupleReading D s.1 (T.take s.1.length)).truth s.2 = some true
  rows : ∀ r, some r ∈ T.take s.1.length → D.index r = i

theorem Together.admits {s : List Leaf × Expr Parsed} (h : Together D parent T i s)
    (hplaced : ∀ r, Locates (.base parent) D.literal (D.key r) (D.index r) ∧
      StartIsLeast (.base parent) D.literal (D.key r) (D.index r)) :
    s.2.admits (.base parent) (isKeyOf s.1) i := by
  refine admits_of_truth ⟨fun c hc => ?_, fun c hc => ?_⟩ h.sound h.holds
  · obtain ⟨m, hm⟩ := Option.isSome_iff_exists.1 hc
    obtain ⟨_, hm⟩ := Option.filter_eq_some_iff.1 hm
    obtain ⟨l, hl, hcolumn⟩ := (Option.any_eq_true _ _).1 hm
    exact mem_map.2 ⟨l, mem_of_getElem? hl, of_decide_eq_true hcolumn⟩
  · obtain ⟨m, hm⟩ := Option.isSome_iff_exists.1 hc
    refine ⟨((T.take s.1.length)[m]?.join).map D.key, by simp [tupleReading, hm], fun k hk => ?_⟩
    obtain ⟨r, hr, rfl⟩ := Option.map_eq_some_iff.1 hk
    have hmem : some r ∈ T.take s.1.length := mem_of_getElem? (Option.join_eq_some_iff.1 hr)
    rw [← h.rows r hmem]
    exact hplaced r

/-! ### The walk through a join -/

/-- The planner has recorded tables under one parent rule, and has a route. -/
structure Joined (db : String) (router : Router) (parent : BaseRule) (p : TableAliasStmtInfo) (ls : List Leaf) :
    Prop where
  recorded : Recorded db router p ls
  parents : ∀ l ∈ ls, l.rule.parent = parent
  started : p.result.db ≠ ""
  increasing : Increasing p.result.indexes
  noHint : p.hintPhyDB = ""

theorem Joined.record (hp : Joined db router parent p ls) {s : TableSource Parsed}
    {s' : TableSource Planned} {l : Leaf} (hl : leafOf db router s = some l) (hparent : l.rule.parent = parent)
    (h : rewriteTableSource p s = .ok (s', p')) :
    Joined db router parent p' (ls ++ [l]) ∧ p'.result = p.result := by
  obtain ⟨hrecorded, hhint, _, hkeep⟩ := hp.recorded.record hl h
  have hkeep := hkeep (.inr hp.started)
  refine ⟨⟨hrecorded, ?_, ?_, ?_, hhint.trans hp.noHint⟩, hkeep⟩
  · intro l' hl'
    rcases mem_append.1 hl' with hl' | hl'
    · exact hp.parents l' hl'
    · rw [mem_singleton.1 hl', hparent]
  · rw [hkeep]
    exact hp.started
  · rw [hkeep]
    exact hp.increasing

theorem Joined.applyCond (hp : Joined db router parent p ls) {c : Cond} (hhint : c.hint = none)
    (hinc : c.has = true → Increasing c.indexes) : Joined db router parent (p.applyCond c) ls := by
  refine ⟨hp.recorded.applyCond c, hp.parents, ?_, increasing_applyCond hp.increasing hinc, ?_⟩
  · have hstarted := hp.started
    unfold TableAliasStmtInfo.applyCond
    cases c.has <;> exact hstarted
  · rw [hintPhyDB_applyCond, hhint]
    exact hp.noHint

/-! ### The route of a join -/

/-- A table source that stands for a table under the parent rule. -/
def linkedSource (db : String) (router : Router) (parent : BaseRule) (s : TableSource Parsed) : Prop :=
  ∃ l, leafOf db router s = some l ∧ l.rule.parent = parent ∧ l.rule.getDB ≠ ""

/-- The `ON` conditions of a join, each with the tables it can speak of. -/
def scopes (db : String) (router : Router) : Join (TableSource Parsed) Parsed → List (List Leaf × Expr Parsed)
  | .ofSource s t => t.on.toList.map (leaves db router (.ofSource s t), ·)
  | .ofJoin left t => scopes db router left ++ t.on.toList.map (leaves db router (.ofJoin left t), ·)

theorem forall_on {on : Option (Expr Parsed)} {q : List Leaf × Expr Parsed → Prop} :
    (∀ s ∈ on.toList.map (ls, ·), q s) ↔ ∀ e, on = some e → q (ls, e) := by
  cases on <;> simp

section Route

variable {t : JoinTail (TableSource Parsed) Parsed} {t' : JoinTail (TableSource Planned) Planned}

theorem Joined.right (hp : Joined db router parent p ls) (hsrc : ∀ s ∈ t.sources, linkedSource db router parent s)
    {right' : Option (JoinRight (TableSource Planned))}
    (h : handleJoinRight rewriteTableSource p t.right = .ok (right', p')) :
    Joined db router parent p' (ls ++ t.sources.filterMap (leafOf db router)) ∧ p'.result = p.result := by
  rcases handleJoinRight_eq_ok h with ⟨hnone, rfl⟩ | ⟨s, s', hsome, hs⟩
  · have : t.sources = [] := by simp [JoinTail.sources, hnone]
    rw [this, filterMap_nil, append_nil]
    exact ⟨hp, rfl⟩
  · have hsources : t.sources = [s] := by simp [JoinTail.sources, hsome]
    rw [hsources] at hsrc ⊢
    obtain ⟨l, hl, hparent, _⟩ := hsrc s mem_cons_self
    rw [filterMap_cons_some hl, filterMap_nil]
    exact hp.record hl hparent hs

variable (hg : parent.ruleType ≠ .global) (hsub : Increasing parent.subTableIndexes)

include hg hsub

/-- A condition narrows the route to the indexes that it admits. -/
theorem Joined.applied {on : Option (Expr Parsed)} (hp : Joined db router parent p ls) (h : Applied p on p')
    (hdb : ∀ e, on = some e → ∀ a ∈ e.atoms, a.namesDatabase = false) :
    Joined db router parent p' ls ∧ ∀ i ∈ parent.subTableIndexes, (i ∈ p'.result.indexes ↔
      i ∈ p.result.indexes ∧ ∀ e, on = some e → e.admits (.base parent) (isKeyOf ls) i) := by
  rcases h.eq with ⟨rfl, rfl⟩ | ⟨e, c, rfl, hc, rfl⟩
  · exact ⟨hp, by simp⟩
  · have hresolves := hp.recorded.resolves hp.parents hg
    have hinc := hresolves.increasing_route hsub e c hc
    refine ⟨hp.applyCond ((hint_eq hc).trans (databaseName_eq_none (hdb e rfl))) hinc, fun i hi => ?_⟩
    rw [mem_applyCond hp.increasing hinc, hresolves.admits_iff hsub hi hc]
    simp

theorem Joined.tail (hp : Joined db router parent p ls) (hsrc : ∀ s ∈ t.sources, linkedSource db router parent s)
    (hdb : ∀ e, t.on = some e → ∀ a ∈ e.atoms, a.namesDatabase = false)
    (h : handleJoinTail rewriteTableSource rewriteOnCondition p t = .ok (t', p')) :
    Joined db router parent p' (ls ++ t.sources.filterMap (leafOf db router)) ∧
      ∀ i ∈ parent.subTableIndexes, (i ∈ p'.result.indexes ↔ i ∈ p.result.indexes ∧ ∀ e, t.on = some e →
        e.admits (.base parent) (isKeyOf (ls ++ t.sources.filterMap (leafOf db router))) i) := by
  obtain ⟨right', p₂, hright, hon⟩ := handleJoinTail_eq_ok h
  obtain ⟨hp₂, hresult⟩ := hp.right hsrc hright
  rw [← hresult]
  exact hp₂.applied hg hsub hon hdb

/-- The route after a join has the indexes that all its conditions admit. -/
theorem handleJoin_route (order : MapOrder) {j : Join (TableSource Parsed) Parsed}
    (hsrc : ∀ s ∈ j.sources, linkedSource db router parent s)
    (hdb : ∀ s ∈ scopes db router j, ∀ a ∈ s.2.atoms, a.namesDatabase = false)
    {j' : Join (TableSource Planned) Planned}
    (h : handleJoin (newTableAliasStmtInfo db router order) j = .ok (j', p')) :
    Joined db router parent p' (leaves db router j) ∧ ∀ i ∈ parent.subTableIndexes,
      (i ∈ p'.result.indexes ↔ ∀ s ∈ scopes db router j, s.2.admits (.base parent) (isKeyOf s.1) i) := by
  induction j generalizing j' p' with
  | ofSource s t =>
    obtain ⟨l, hl, hparent, hname⟩ := hsrc s mem_cons_self
    obtain ⟨s', p₁, t', hs, ht, -⟩ := handleJoin_ofSource h
    obtain ⟨hrecorded, hhint, hfresh, _⟩ := (recorded_new db router order).record hl hs
    have hresult := hfresh (by rwa [Leaf.isGlobal, Rule.getType, hparent]) rfl rfl
    have hindexes : p₁.result.indexes = parent.subTableIndexes := by
      rw [hresult, Rule.getSubTableIndexes, hparent]
    have hp₁ : Joined db router parent p₁ [l] := by
      refine ⟨hrecorded, by simp [hparent], ?_, ?_, hhint⟩
      · rw [hresult]
        exact hname
      · rwa [hindexes]
    have hleaves : leaves db router (.ofSource s t) = [l] ++ t.sources.filterMap (leafOf db router) :=
      filterMap_cons_some hl
    obtain ⟨hp', hroute⟩ := hp₁.tail hg hsub (fun s' hs' => hsrc s' (mem_cons_of_mem s hs'))
      (forall_on.1 hdb) ht
    rw [hindexes, ← hleaves] at hroute
    refine ⟨hleaves ▸ hp', fun i hi => ?_⟩
    rw [hroute i hi, and_iff_right hi, scopes, forall_on]
  | ofJoin left t ih =>
    obtain ⟨left', p₁, t', hl, ht, -⟩ := handleJoin_ofJoin h
    obtain ⟨hdbl, hdbr⟩ := forall_mem_append.1 hdb
    obtain ⟨hp₁, hleft⟩ := ih (fun s hs => hsrc s (mem_append_left _ hs)) hdbl hl
    have hleaves : leaves db router (.ofJoin left t) =
        leaves db router left ++ t.sources.filterMap (leafOf db router) := filterMap_append
    obtain ⟨hp', hroute⟩ := hp₁.tail hg hsub (fun s hs => hsrc s (mem_append_right _ hs)) (forall_on.1 hdbr) ht
    rw [← hleaves] at hroute
    refine ⟨hleaves ▸ hp', fun i hi => ?_⟩
    rw [hroute i hi, hleft i hi, scopes, forall_mem_append, forall_on]

end Route

/-! ### Soundness of joins -/

/-- All conditions that narrow the route of a `SELECT` from the join `j`. -/
def conditions (db : String) (router : Router) (stmt : SelectStmt Parsed) (j : Join (TableSource Parsed) Parsed) :
    List (List Leaf × Expr Parsed) :=
  scopes db router j ++ stmt.cond.toList.map (leaves db router j, ·)

/-- The row `r`, at a configured index, is part of a row `T` of the join that satisfies `WHERE`. -/
structure Contributes (D : JoinData α) (db : String) (router : Router) (parent : BaseRule) (stmt : SelectStmt Parsed)
    (j : Join (TableSource Parsed) Parsed) (T : List (Option α)) (r : α) : Prop where
  row : JoinRow D db router j T
  met : ∀ e, stmt.cond = some e → (tupleReading D (leaves db router j) T).truth e = some true
  mem : some r ∈ T
  configured : D.index r ∈ parent.subTableIndexes

/-- A table `u`, split by `tid` as its parent `t` is by `id`. -/
def linkedRule : LinkedRule := { db := "db", table := "u", shardingColumn := "tid", linkToRule := hashRule }

def linkedRouter : Router := ⟨[(("db", "t"), .base hashRule), (("db", "u"), .linked linkedRule)]⟩

def joinOn (tp : JoinType) (e : Expr Parsed) : Join (TableSource Parsed) Parsed :=
  .ofSource (.table () (unqualifiedTable "t") .empty)
    { right := some (.source (.table () (unqualifiedTable "u") .empty)), tp, on := some e }

def selectJoin (j : Join (TableSource Parsed) Parsed) (cond : Option (Expr Parsed)) : SelectStmt Parsed :=
  { fields := [.expr (.value (.int64 1)) .empty], tableRefs := some j, cond }

def columnsEq (table name table' name' : String) : Expr Parsed :=
  .binary .eq (.column () (qualifiedColumn table name)) (.column () (qualifiedColumn table' name'))

/-- `t LEFT JOIN u ON t.id = u.tid AND e`. -/
def leftJoinOn (e : Expr Parsed) : Join (TableSource Parsed) Parsed :=
  joinOn .left (.binary .logicAnd (columnsEq "t" "id" "u" "tid") e)

/-- The rows of `t` and `u`, given by their keys. -/
def rowsOf (t u : Set Int) : JoinData Int where
  rows
    | .table _ n _ => if n.name.l = "t" then t else u
    | .select .. => ∅
  key := id
  index k := ((Rule.base hashRule).findTableIndex (keyVal k)).toOption.getD 0
  literal := intLiteral
  other _ _ := some true
  shared _ _ := True

theorem rowsOf_placed (t u : Set Int) (k : Int) : Locates (.base hashRule) intLiteral k ((rowsOf t u).index k) ∧
    StartIsLeast (.base hashRule) intLiteral k ((rowsOf t u).index k) := by
  refine locates_hash (m := 4) rfl ?_
  have hfind : (Rule.base hashRule).findTableIndex (keyVal k) = .ok (toUint64 k % 4) := by
    show (do let h ← hashValue (keyVal k); if 4 = 0 then _ else .ok (h % 4)) = _
    rw [hashValue_keyVal]
    rfl
  show _ = Except.ok (((Rule.base hashRule).findTableIndex (keyVal k)).toOption.getD 0)
  rw [hfind]
  rfl

theorem contributes_leftJoinOn {e : Expr Parsed} {cond : Option (Expr Parsed)} {k r : Int} {T : List (Option Int)}
    (h : Contributes (rowsOf {k} ∅) "db" linkedRouter hashRule (selectJoin (leftJoinOn e) cond) (leftJoinOn e) T r) :
    T = [some k, none] ∧ r = k := by
  cases h.row with
  | matched hright _ hr =>
    cases hright
    exact absurd hr (Set.notMem_empty _)
  | leftOnly hright _ hl =>
    obtain ⟨k', hk', rfl⟩ := hl
    obtain rfl : k' = k := hk'
    exact ⟨rfl, by simpa using h.mem⟩
  | rightOnly _ htp => cases htp
  | single hright => cases hright

end DbProxy
