import DbProxy.Spec.InsertRows
import DbProxy.Spec.References

/-!
# Renaming tables

A reference to a table `t` under a rule that numbers its tables should be printed with the name of the sub-table.  The
planner renames what its visitors and handlers reach.  The names that they do not reach are printed as they are; they
are collected from the statement as its blind names.  `Covers` says that the references of a planned part are its
blind names and renamed references, and nothing else; it is shown clause by clause, and put together for whole
statements.
-/

namespace DbProxy

open Fallible List

/-- The name is written, and is that of the table `t`. -/
def CIStr.isTable (t : String) (q : CIStr) : Prop := q.o ≠ "" ∧ q.l = t

/-- A reference to `t` prints the name of the sub-table `i`. -/
def Renamed (t : String) (i : Int) (r : Ref) : Prop := r.source.isTable t → r.printed = r.source.subTable i

theorem subTable_ne (q : CIStr) (i : Int) : q.subTable i ≠ q := by
  intro h
  have hlen := congrArg (fun c : CIStr => c.o.length) h
  simp only [CIStr.subTable, String.length_append] at hlen
  have : "_".length = 1 := rfl
  omega

/-! ### Blind names and renamed references -/

/-- The references are the names in `blind`, printed as they are, and references that are renamed. -/
structure Covers (t : String) (i : Int) (blind : List CIStr) (refs : List Ref) : Prop where
  sound : ∀ r ∈ refs, (∃ q ∈ blind, r = .same q) ∨ Renamed t i r
  complete : ∀ q ∈ blind, .same q ∈ refs

variable {t : String} {i : Int}

namespace Covers

variable {b b' : List CIStr} {r r' : List Ref}

theorem append (h : Covers t i b r) (h' : Covers t i b' r') : Covers t i (b ++ b') (r ++ r') := by
  constructor
  · intro x hx
    rcases mem_append.1 hx with hx | hx
    · exact (h.sound x hx).imp (fun ⟨q, hq, heq⟩ => ⟨q, mem_append_left _ hq, heq⟩) id
    · exact (h'.sound x hx).imp (fun ⟨q, hq, heq⟩ => ⟨q, mem_append_right _ hq, heq⟩) id
  · intro q hq
    rcases mem_append.1 hq with hq | hq
    · exact mem_append_left _ (h.complete q hq)
    · exact mem_append_right _ (h'.complete q hq)

theorem renamed (h : ∀ x ∈ r, Renamed t i x) : Covers t i [] r :=
  ⟨fun x hx => .inr (h x hx), fun _ hq => absurd hq not_mem_nil⟩

theorem nil : Covers t i [] [] := renamed fun _ hx => absurd hx not_mem_nil

theorem same (b : List CIStr) : Covers t i b (b.map .same) := by
  constructor
  · intro x hx
    obtain ⟨q, hq, rfl⟩ := mem_map.1 hx
    exact .inl ⟨q, hq, rfl⟩
  · exact fun q hq => mem_map.2 ⟨q, hq, rfl⟩

theorem append_renamed (h : Covers t i b r) (h' : ∀ x ∈ r', Renamed t i x) : Covers t i b (r ++ r') := by
  have := h.append (renamed h')
  rwa [append_nil] at this

theorem flatMap {α β : Type} {blind : α → List CIStr} {refs : β → List Ref} {l : List α} {l' : List β}
    (h : Forall₂ (fun a b => Covers t i (blind a) (refs b)) l l') :
    Covers t i (l.flatMap blind) (l'.flatMap refs) := by
  induction h with
  | nil => exact nil
  | cons hab _ ih =>
    rw [flatMap_cons, flatMap_cons]
    exact hab.append ih

theorem renamed_iff (h : Covers t i b r) : (∀ x ∈ r, Renamed t i x) ↔ ∀ q ∈ b, ¬ q.isTable t := by
  constructor
  · intro hall q hq htable
    exact subTable_ne q i (hall _ (h.complete q hq) htable).symm
  · intro hblind x hx
    rcases h.sound x hx with ⟨q, hq, rfl⟩ | hx
    · exact fun htable => absurd htable (hblind q hq)
    · exact hx

end Covers

theorem renamed_of_not_isTable {t : String} {i : Int} {r : Ref} (h : ¬ r.source.isTable t) : Renamed t i r :=
  fun htable => absurd htable h

/-! ### Columns -/

/-- The planner takes `t` only for the table: what it has recorded under that name numbers its tables. -/
structure Clean (db : String) (router : Router) (t : String) (p : TableAliasStmtInfo) : Prop where
  database : p.db = db
  routes : p.router = router
  rules : ∀ r, p.tableRules.get t = some r → isKingshardRule r.getType = true
  globals : p.globalTableRules.get t = none
  noAlias : p.tableAlias.get t = none

theorem not_global_of_kingshard {ty : RuleType} (h : isKingshardRule ty = true) :
    ty ≠ .global ∧ isMycatShardingRule ty = false := by
  cases ty <;> simp_all [isKingshardRule, isMycatShardingRule]

theorem restoreSchema_kingshard {rule : Rule} (h : isKingshardRule rule.getType = true) (schema : CIStr) (i : Int) :
    restoreSchema rule schema i = .ok schema.o := by
  obtain ⟨hg, hm⟩ := not_global_of_kingshard h
  unfold restoreSchema
  split
  · next hempty => rw [hempty]
  · simp [hg, hm]

theorem refsTo_kingshard {rule : Rule} (h : isKingshardRule rule.getType = true) {c : ColumnName}
    (hc : c.table.o ≠ "")
    (i : Int) : refsTo c.table (restoreColumn i (some ⟨rule, false⟩) c) = [⟨c.table, c.table.subTable i⟩] := by
  obtain ⟨hg, hm⟩ := not_global_of_kingshard h
  simp only [restoreColumn, ColumnNameDecorator.restore, restoreSchema_kingshard h, hg, hm, hc]
  simp [refsTo, qualifiers, Out.tok, Tok.qualifier]

variable {db : String} {router : Router} {p : TableAliasStmtInfo} {c : ColumnName}

section Columns

variable {d : Option ColumnNameDecorator}

theorem source_of_mem_refsTo {source : CIStr} {out : Out} {r : Ref} (h : r ∈ refsTo source out) :
    r.source = source := by
  obtain ⟨q, _, rfl⟩ := mem_map.1 h
  rfl

theorem Clean.resolve (hp : Clean db router t p) (ht : t ≠ "") (hc : c.table.l = t)
    (h : needCreateColumnNameDecorator p c = .ok d) :
    ∃ rule, d = some ⟨rule, false⟩ ∧ isKingshardRule rule.getType = true := by
  unfold needCreateColumnNameDecorator at h
  obtain ⟨r, hr, h⟩ := bind_eq_ok.1 h
  cases h
  unfold TableAliasStmtInfo.getSettedRuleFromColumnInfo at hr
  rw [if_neg (fun h => ht (hc ▸ h.2))] at hr
  obtain ⟨⟨rule, isAlias⟩, hrule, hr⟩ := bind_eq_ok.1 hr
  cases hr
  unfold TableAliasStmtInfo.getSettedRuleFromTable at hrule
  obtain ⟨_, _, hrule⟩ := bind_eq_ok.1 hrule
  rw [hc, hp.globals, hp.noAlias] at hrule
  split at hrule
  · next hget =>
    cases hrule
    exact ⟨_, rfl, hp.rules _ hget⟩
  · cases hrule

theorem Clean.renamed_column (hp : Clean db router t p) (ht : t ≠ "")
    (h : needCreateColumnNameDecorator p c = .ok d) : ∀ r ∈ refsTo c.table (restoreColumn i d c), Renamed t i r := by
  intro r hr htable
  rw [source_of_mem_refsTo hr] at htable ⊢
  obtain ⟨rule, rfl, hking⟩ := hp.resolve ht htable.2 h
  rw [refsTo_kingshard hking htable.1] at hr
  rw [mem_singleton.1 hr]

theorem Clean.renamed_field (hp : Clean db router t p) (ht : t ≠ "")
    (h : needCreateColumnNameExprDecoratorInField p c = .ok d) :
    (∀ r ∈ refsTo c.table (restoreColumn i d c), Renamed t i r) ∧ (d = none → ¬ c.table.isTable t) := by
  unfold needCreateColumnNameExprDecoratorInField at h
  split at h
  · next hempty =>
    have hno : ¬ c.table.isTable t := fun htable => ht (htable.2 ▸ hempty.2)
    refine ⟨?_, fun _ => hno⟩
    intro r hr
    exact renamed_of_not_isTable (source_of_mem_refsTo hr ▸ hno)
  · refine ⟨hp.renamed_column ht h, ?_⟩
    rintro rfl htable
    obtain ⟨_, hd, _⟩ := hp.resolve ht htable.2 h
    cases hd

end Columns

/-! ### Visitors -/

/-- The names that a visitor leaves: texts, and the columns for which `blind` says so. -/
def Expr.leftBy (blind : ColumnName → List CIStr) : Expr Parsed → List CIStr :=
  Expr.gather (fun _ c => blind c) (fun t => t.qualifier.toList) blind (fun _ => [])

structure Visits (t : String) (i : Int) (blind : ColumnName → List CIStr) (c : ColumnName)
    (d : Option ColumnNameDecorator) : Prop where
  column : Covers t i (blind c) (refsTo c.table (restoreColumn i d c))
  values : Covers t i (blind c) (if d.isSome then [] else [.same c.table])

section Visitors

variable {m : Type → Type} [Monad m] {f : ColumnName → m (Option ColumnNameDecorator)}
  {blind : ColumnName → List CIStr}

variable (post : Post m)

mutual
theorem accept_covers (hf : ∀ c, post.holds (f c) (Visits t i blind c)) :
    (e : Expr Parsed) → post.holds (e.accept f) (fun e' => Covers t i (e.leftBy blind) (e'.refs i))
  | .value v => post.of_pure .nil
  | .column _ c => post.of_bind (hf c) fun _ hd => post.of_pure hd.column
  | .binary op l r =>
    post.of_bind (accept_covers hf l) fun _ hl =>
      post.of_bind (accept_covers hf r) fun _ hr => post.of_pure (hl.append hr)
  | .patternIn _ e list sel isNot =>
    post.of_bind (accept_covers hf e) fun _ he =>
      post.of_bind (acceptList_covers hf list) fun _ hlist =>
        post.of_bind (acceptOption_covers hf sel) fun _ hsel =>
          post.of_pure (((he.append hlist).append hsel).append .nil)
  | .between _ e l r isNot =>
    post.of_bind (accept_covers hf e) fun _ he =>
      post.of_bind (accept_covers hf l) fun _ hl =>
        post.of_bind (accept_covers hf r) fun _ hr => post.of_pure ((he.append hl).append hr)
  | .paren e => post.of_bind (accept_covers hf e) fun _ he => post.of_pure he
  | .funcCall fn parts => post.of_bind (acceptList_covers hf parts) fun _ h => post.of_pure h
  | .aggregate fn parts => post.of_bind (acceptList_covers hf parts) fun _ h => post.of_pure h
  | .valuesOf none => post.of_pure .nil
  | .valuesOf (some c) => post.of_bind (hf c) fun d hd => post.of_pure (by
      have h := hd.values
      cases d with
      | none => exact h
      | some d => exact h)
  | .text tok => post.of_pure (.same _)
  | .node type parts => post.of_bind (acceptList_covers hf parts) fun _ h => post.of_pure h

theorem acceptList_covers (hf : ∀ c, post.holds (f c) (Visits t i blind c)) :
    (es : List (Expr Parsed)) → post.holds (Expr.acceptList f es) (fun es' => Covers t i
      (Expr.gatherList (P := Parsed) (fun _ c => blind c) (fun t => t.qualifier.toList) blind (fun _ => []) es)
      (Expr.gatherList (fun d c => refsTo c.table (restoreColumn i d c)) (fun t => t.qualifier.toList.map .same)
        (fun c => [.same c.table]) (fun d : Option PatternInExprDecorator => (d.toList.flatMap (·.names i)).map .same)
        es'))
  | [] => post.of_pure .nil
  | e :: es =>
    post.of_bind (accept_covers hf e) fun _ he =>
      post.of_bind (acceptList_covers hf es) fun _ hes => post.of_pure (he.append hes)

theorem acceptOption_covers (hf : ∀ c, post.holds (f c) (Visits t i blind c)) :
    (o : Option (Expr Parsed)) → post.holds (Expr.acceptOption f o) (fun o' => Covers t i
      (Expr.gatherOption (P := Parsed) (fun _ c => blind c) (fun t => t.qualifier.toList) blind (fun _ => []) o)
      (Expr.gatherOption (fun d c => refsTo c.table (restoreColumn i d c)) (fun t => t.qualifier.toList.map .same)
        (fun c => [.same c.table]) (fun d : Option PatternInExprDecorator => (d.toList.flatMap (·.names i)).map .same)
        o'))
  | none => post.of_pure .nil
  | some e => post.of_bind (accept_covers hf e) fun _ he => post.of_pure he
end

theorem visits_none : ∀ c, (Post.ok Fail).holds (.ok none) (Visits t i (fun c => [c.table]) c) := by
  rintro c _ ⟨⟩
  exact ⟨.same [c.table], .same [c.table]⟩

theorem covers_untouched (e : Expr Parsed) : Covers t i e.names (e.untouched.refs i) :=
  accept_covers (.ok Fail) visits_none e _ (accept_none e)

/-- A root that is a column is left as well. -/
def Expr.leftByRoot (blind : ColumnName → List CIStr) : Expr Parsed → List CIStr
  | .column _ c => [c.table]
  | e => e.leftBy blind

theorem acceptRoot_covers (post : Post m) (hf : ∀ c, post.holds (f c) (Visits t i blind c)) (e : Expr Parsed) :
    post.holds (e.acceptRoot f) (fun e' => Covers t i (e.leftByRoot blind) (e'.refs i)) := by
  cases e with
  | column _ c => exact post.of_bind (hf c) fun _ _ => post.of_pure (.same [c.table])
  | _ => exact accept_covers post hf _

end Visitors

/-! ### Conditions -/

/-- An equality names a physical database. -/
def hasHint (op : Op) (l r : Expr Parsed) : Bool :=
  match databaseHint op l r with
  | .ok s => s ≠ ""
  | .error _ => false

/-- An operand is renamed only if it is a column. -/
def Expr.operandBlind : Expr Parsed → List CIStr
  | .column _ _ => []
  | e => e.names

def Expr.condBlind : Expr Parsed → List CIStr
  | .binary op l r => match op with
    | .logicAnd | .logicOr => condBlind l ++ condBlind r
    | op => if hasHint op l r then l.names ++ r.names else l.operandBlind ++ r.operandBlind
  | .patternIn _ e list _ _ => e.operandBlind ++ list.flatMap Expr.names
  | .between _ e left right _ => e.operandBlind ++ left.names ++ right.names
  | .paren e => condBlind e
  | e => e.leftByRoot fun _ => []

section Conditions

variable {cond : Cond}
variable {side : String} {e l r v : Expr Parsed} {op : Op} {list : List (Expr Parsed)} {isNot : Bool}

theorem gatherList_eq_flatMap {P : Phase} {β : Type} (col : P.Column → ColumnName → List β) (tok : Tok → List β)
    (values : ColumnName → List β) (lists : P.PatternIn → List β) (es : List (Expr P)) :
    Expr.gatherList col tok values lists es = es.flatMap (Expr.gather col tok values lists) := by
  induction es with
  | nil => rfl
  | cons e es ih => rw [flatMap_cons, ← ih, Expr.gatherList]

theorem covers_untouchedList (list : List (Expr Parsed)) :
    Covers t i (list.flatMap Expr.names)
      (Expr.gatherList (fun d c => refsTo c.table (restoreColumn i d c)) (fun t => t.qualifier.toList.map .same)
        (fun c => [.same c.table]) (fun d : Option PatternInExprDecorator => (d.toList.flatMap (·.names i)).map .same)
        (Expr.untouchedList list)) := by
  have h := acceptList_covers (t := t) (i := i) (.ok Fail) visits_none list _ (acceptList_none list)
  rwa [gatherList_eq_flatMap (P := Parsed)] at h

theorem Comparison.blind {v : Datum} {build : Expr Planned → Expr Planned} (h : Comparison c v e op build) :
    e.condBlind = [] ∧ ∀ e' : Expr Planned, (build e').refs i = e'.refs i := by
  cases h with
  | @columnValue op hop => exact ⟨by (cases op <;> first | rfl | cases hop), fun _ => append_nil _⟩
  | @valueColumn op hop => exact ⟨by (cases op <;> first | rfl | cases hop), fun _ => rfl⟩

theorem condBlind_binary (hop : op.isLogic = false) : (Expr.binary op l r).condBlind =
    if hasHint op l r then l.names ++ r.names else l.operandBlind ++ r.operandBlind := by
  cases op <;> first | rfl | cases hop

theorem mem_broadcast {indexes : List Int} {m : AssocMap Int (List (Expr Parsed))}
    (h : v ∈ (indexes.foldl (fun m idx => m.set idx (m.getD idx ++ list)) m).getD i) :
    v ∈ m.getD i ∨ v ∈ list := by
  induction indexes generalizing m with
  | nil => exact .inl h
  | cons j js ih =>
    rcases ih h with hmem | hmem
    · rw [AssocMap.getD, AssocMap.get_set] at hmem
      split at hmem
      · next hj =>
        subst hj
        exact mem_append.1 hmem
      · exact .inl hmem
    · exact .inr hmem

theorem InRoute.mem_list {rule : Rule} {dec : PatternInExprDecorator} (h : InRoute rule c list isNot dec)
    (hv : v ∈ dec.indexValueMap.getD i) : v ∈ list := by
  cases h with
  | broadcast => exact (mem_broadcast hv).resolve_left not_mem_nil
  | @filed vs js =>
    have hv : v ∈ (Filing.empty.fileAll (js.zip list)).get i := hv
    rw [Filing.get_fileAll, Filing.get_empty, nil_append] at hv
    obtain ⟨⟨j, w⟩, hw, rfl⟩ := mem_map.1 hv
    exact (of_mem_zip (mem_filter.1 hw).1).2

section

variable (hp : Clean db router t p) (ht : t ≠ "")

include hp ht

theorem visits_rewriteVisitor (c : ColumnName) :
    (Post.ok Fail).holds (columnNameRewriteVisitor p c) (Visits t i (fun _ => []) c) := by
  intro d hd
  have h : needCreateColumnNameExprDecoratorInField p c = .ok d := by
    unfold columnNameRewriteVisitor at hd
    split at hd
    · next hok =>
      cases hd
      exact hok
    · cases hd
    · cases hd
  obtain ⟨hcolumn, hnone⟩ := hp.renamed_field (i := i) ht h
  refine ⟨.renamed hcolumn, ?_⟩
  cases d with
  | none =>
    refine .renamed fun r hr => renamed_of_not_isTable ?_
    rw [mem_singleton.1 hr]
    exact hnone rfl
  | some d => exact .nil

theorem decorateOperand_covers
    {e' : Expr Planned} (h : decorateOperand p side e = .ok e') : Covers t i e.operandBlind (e'.refs i) := by
  unfold decorateOperand at h
  split at h
  · obtain ⟨d, hd, h⟩ := bind_eq_ok.1 h
    cases h
    exact .renamed (hp.renamed_column ht (wrapErr_eq_ok.1 hd))
  · next hno =>
    cases h
    have hblind : e.operandBlind = e.names := by
      unfold Expr.operandBlind
      split
      · next c => exact absurd rfl (hno () c)
      · rfl
    rw [hblind]
    exact covers_untouched e

theorem handleCompareColumnValue_covers {v : Datum} {build : Expr Planned → Expr Planned}
    (hbuild : ∀ e : Expr Planned, (build e).refs i = e.refs i)
    (h : handleCompareColumnValue p side op c v build = .ok cond) : Covers t i [] (cond.expr.refs i) := by
  obtain ⟨d, hd, h⟩ := handleCompareColumnValue_eq_ok h
  have hcolumn : Covers t i [] ((build (.column d c)).refs i) := by
    rw [hbuild]
    exact .renamed (hp.renamed_column ht hd)
  obtain ⟨rfl, _⟩ | ⟨_, _, _, _, _, rfl⟩ := h <;> exact hcolumn

theorem covers_operand (hnone : ∀ c, e = .column () c → needCreateColumnNameDecorator p c = .ok none) :
    Covers t i e.operandBlind (e.untouched.refs i) := by
  cases e with
  | column a c => exact .renamed (hp.renamed_column ht (hnone c rfl))
  | _ => exact covers_untouched _

theorem inRouted_covers {d : ColumnNameDecorator} {dec : PatternInExprDecorator}
    (hd : needCreateColumnNameDecorator p c = .ok (some d))
    (hi : getPatternInRouteResult c isNot d.rule list = .ok dec) : Covers t i (list.flatMap Expr.names)
      (Expr.refs i (.patternIn (some dec) (.column (some d) c) (Expr.untouchedList list) none isNot)) := by
  have hcolumn : Covers t i [] (Expr.refs i (.column (some d) c)) := .renamed (hp.renamed_column ht hd)
  have hall := (hcolumn.append (covers_untouchedList list)).append .nil
  rw [append_nil] at hall
  refine ⟨?_, fun q hq => mem_append_left _ (hall.complete q hq)⟩
  intro x hx
  rcases mem_append.1 hx with hx | hx
  · exact hall.sound x hx
  · -- a name in a value that is printed is a name in the list
    obtain ⟨q, hq, rfl⟩ := mem_map.1 hx
    have hq : q ∈ dec.names i := by simpa using hq
    obtain ⟨v, hv, hq⟩ := mem_flatMap.1 hq
    exact .inl ⟨q, mem_flatMap.2 ⟨v, (inRoute_of_ok hi).mem_list hv, hq⟩, rfl⟩

theorem atom_covers (h : AtomRun p e cond) :
    Covers t i e.condBlind (cond.expr.refs i) := by
  cases h with
  | hinted hop hhint hname =>
    rw [condBlind_binary hop, hasHint, hhint, if_pos (by simpa using hname)]
    exact (covers_untouched _).append (covers_untouched _)
  | operands hop hhint hl hr =>
    rw [condBlind_binary hop, hasHint, hhint, if_neg (by simp)]
    exact (decorateOperand_covers hp ht hl).append (decorateOperand_covers hp ht hr)
  | compared hcomparison hcompare =>
    obtain ⟨hblind, hbuild⟩ := hcomparison.blind
    rw [hblind]
    exact handleCompareColumnValue_covers hp ht hbuild hcompare
  | @inUnrouted e list isNot hno =>
    have hall := (covers_operand (i := i) hp ht hno).append (covers_untouchedList list)
    exact (hall.append_renamed (fun x hx => absurd hx not_mem_nil)).append_renamed (fun x hx => absurd hx not_mem_nil)
  | inRouted hd hi => exact inRouted_covers hp ht hd hi
  | betweenUnrouted hno => exact ((covers_operand hp ht hno).append (covers_untouched _)).append (covers_untouched _)
  | @betweenRouted c d left right isNot indexes hd hi =>
    have hcolumn : Covers t i [] (Expr.refs i (.column (some d) c)) := .renamed (hp.renamed_column ht hd)
    exact (hcolumn.append (covers_untouched left)).append (covers_untouched right)
  | @visited e e' hplain hvisit =>
    have hvisited := acceptRoot_covers (Post.ok Fail) (visits_rewriteVisitor (i := i) hp ht) e e' hvisit
    cases e <;> first | exact hvisited | cases hplain

theorem handleComparisonExpr_covers (h : handleComparisonExpr p e = .ok cond) :
    Covers t i e.condBlind (cond.expr.refs i) := by
  induction e using Expr.conditionInduction generalizing cond with
  | logic op l r hop ihl ihr =>
    obtain ⟨lc, rc, hlc, hrc, rfl⟩ := (handleComparisonExpr_logic hop).1 h
    have hblind : (Expr.binary op l r).condBlind = l.condBlind ++ r.condBlind := by
      cases op <;> first | rfl | simp [Op.isLogic] at hop
    rw [hblind]
    exact (ihl hlc).append (ihr hrc)
  | paren e ih =>
    obtain ⟨c, hc, rfl⟩ := handleComparisonExpr_paren.1 h
    show Covers t i e.condBlind (c.expr.refs i)
    exact ih hc
  | atom e he => exact atom_covers hp ht (atomRun_of_ok he h)

end

end Conditions

end DbProxy
