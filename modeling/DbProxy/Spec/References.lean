import DbProxy.Plan.Insert

/-!
# References to tables

The places of a statement that name a table: a qualified column, a wildcard, a table reference, and names inside parts
that the planner prints as they are.  A `Ref` pairs the name in the source with the name that is printed for a table
index.  Whatever table name a generated statement prints belongs to a reference (`qualifiers_subset_refs` and the
lemmas for the statements).
-/

namespace DbProxy

open List

/-- The name of a table in a piece of SQL. -/
def Tok.qualifier : Tok → Option CIStr
  | .column _ t _ => some t
  | .wildcard _ t => some t
  | .table _ t => some t
  | _ => none

def qualifiers (toks : List Tok) : List CIStr := toks.filterMap Tok.qualifier

/-- A table name as the source has it, and as it is printed. -/
structure Ref where
  source : CIStr
  printed : CIStr

def Ref.same (q : CIStr) : Ref := ⟨q, q⟩

/-- The references that a printed piece makes of one name. -/
def refsTo (source : CIStr) (out : Out) : List Ref := (qualifiers out.toks).map fun q => ⟨source, q⟩

/-! ### Expressions -/

section Gather

variable {P : Phase} {β : Type} (col : P.Column → ColumnName → List β) (tok : Tok → List β)
  (values : ColumnName → List β) (lists : P.PatternIn → List β)

mutual
/-- Collect something at the columns, the texts, the columns of `VALUES` and the decorators of `IN`. -/
def Expr.gather : Expr P → List β
  | .value _ => []
  | .column a c => col a c
  | .binary _ l r => l.gather ++ r.gather
  | .patternIn a e list sel _ => e.gather ++ gatherList list ++ gatherOption sel ++ lists a
  | .between _ e l r _ => e.gather ++ l.gather ++ r.gather
  | .paren e => e.gather
  | .funcCall _ parts => gatherList parts
  | .aggregate _ parts => gatherList parts
  | .valuesOf none => []
  | .valuesOf (some c) => values c
  | .text t => tok t
  | .node _ parts => gatherList parts

def Expr.gatherList : List (Expr P) → List β
  | [] => []
  | e :: es => e.gather ++ gatherList es

def Expr.gatherOption : Option (Expr P) → List β
  | none => []
  | some e => e.gather
end

end Gather

def Expr.names : Expr Parsed → List CIStr :=
  Expr.gather (fun _ c => [c.table]) (fun t => t.qualifier.toList) (fun c => [c.table]) (fun _ => [])

def PatternInExprDecorator.names (i : Int) (d : PatternInExprDecorator) : List CIStr :=
  (d.indexValueMap.getD i).flatMap Expr.names

/-- The references of a planned expression at index `i`. -/
def Expr.refs (i : Int) : Expr Planned → List Ref :=
  Expr.gather (fun d c => refsTo c.table (restoreColumn i d c)) (fun t => t.qualifier.toList.map .same)
    (fun c => [.same c.table]) (fun d : Option PatternInExprDecorator => (d.toList.flatMap (·.names i)).map .same)

/-! ### What is printed -/

section Printed

variable {a b : Out} {q : CIStr}

theorem qualifiers_append (l l' : List Tok) : qualifiers (l ++ l') = qualifiers l ++ qualifiers l' :=
  filterMap_append

theorem mem_qualifiers_append (h : q ∈ qualifiers (a ++ b).toks) : q ∈ qualifiers a.toks ∨ q ∈ qualifiers b.toks := by
  have happend : (a ++ b).toks = a.toks ++ b.toks ∨ (a ++ b).toks = a.toks := by
    show (Out.append a b).toks = _ ∨ (Out.append a b).toks = _
    unfold Out.append
    split
    · exact .inl rfl
    · exact .inr rfl
  rcases happend with heq | heq <;> rw [heq] at h
  · rw [qualifiers_append] at h
    exact mem_append.1 h
  · exact .inl h

theorem mem_qualifiers_concat {as : List Out} (h : q ∈ qualifiers (Out.concat as).toks) :
    ∃ a ∈ as, q ∈ qualifiers a.toks := by
  induction as with
  | nil => cases h
  | cons a as ih =>
    rcases mem_qualifiers_append h with h | h
    · exact ⟨a, mem_cons_self, h⟩
    · obtain ⟨a', ha', hq⟩ := ih h
      exact ⟨a', mem_cons_of_mem a ha', hq⟩

theorem not_mem_qualifiers_text {s : String} : q ∉ qualifiers (Out.text s).toks := not_mem_nil

theorem mem_qualifiers_sepBy {sep : String} {as : List Out} (h : q ∈ qualifiers (Out.sepBy sep as).toks) :
    ∃ a ∈ as, q ∈ qualifiers a.toks := by
  induction as with
  | nil => cases h
  | cons a as ih =>
    cases as with
    | nil => exact ⟨a, mem_cons_self, h⟩
    | cons a' as =>
      rcases mem_qualifiers_append h with h | h
      · rcases mem_qualifiers_append h with h | h
        · exact ⟨a, mem_cons_self, h⟩
        · exact absurd h not_mem_qualifiers_text
      · obtain ⟨b, hb, hq⟩ := ih h
        exact ⟨b, mem_cons_of_mem a hb, hq⟩

theorem mem_qualifiers_list {sep l r : String} {as : List Out}
    (h : q ∈ qualifiers (Out.text l ++ Out.sepBy sep as ++ Out.text r).toks) : ∃ a ∈ as, q ∈ qualifiers a.toks := by
  rcases mem_qualifiers_append h with h | h
  · rcases mem_qualifiers_append h with h | h
    · exact absurd h not_mem_qualifiers_text
    · exact mem_qualifiers_sepBy h
  · exact absurd h not_mem_qualifiers_text

theorem toks_ignoreErr (a : Out) : a.ignoreErr.toks = a.toks := by
  unfold Out.ignoreErr
  split <;> rfl

theorem mem_qualifiers_tok {t : Tok} (h : q ∈ qualifiers (Out.tok t).toks) : t.qualifier = some q := by
  obtain ⟨t', ht', hq⟩ := mem_filterMap.1 h
  obtain rfl := mem_singleton.1 ht'
  exact hq

end Printed

section RestoreWith

/-- What is gathered has every table name that the parameters of `restoreWith` print. -/
structure Gathers {P : Phase} {β : Type} (printed : β → CIStr) (colOut : P.Column → ColumnName → Out)
    (valuesOut : P.PatternIn → Option (List Out)) (col : P.Column → ColumnName → List β) (tok : Tok → List β)
    (values : ColumnName → List β) (lists : P.PatternIn → List β) : Prop where
  column : ∀ a c q, q ∈ qualifiers (colOut a c).toks → ∃ r ∈ col a c, printed r = q
  text : ∀ t q, Tok.qualifier t = some q → ∃ r ∈ tok t, printed r = q
  valuesOf : ∀ c : ColumnName, ∃ r ∈ values c, printed r = c.table
  list : ∀ a outs, valuesOut a = some outs → ∀ o ∈ outs, ∀ q ∈ qualifiers o.toks, ∃ r ∈ lists a, printed r = q

variable {P : Phase} {β : Type} {printed : β → CIStr} {colOut : P.Column → ColumnName → Out}
  {valuesOut : P.PatternIn → Option (List Out)} {col : P.Column → ColumnName → List β} {tok : Tok → List β}
  {values : ColumnName → List β} {lists : P.PatternIn → List β}

mutual
/-- Every table name that `restoreWith` prints is gathered. -/
theorem mem_gather_of_restoreWith (hg : Gathers printed colOut valuesOut col tok values lists) {q : CIStr} :
    (e : Expr P) → q ∈ qualifiers (e.restoreWith colOut valuesOut).toks →
    ∃ r ∈ e.gather col tok values lists, printed r = q
  | .value v, h => absurd h not_mem_nil
  | .column a c, h => hg.column a c q h
  | .binary op l r, h => by
    unfold Expr.restoreWith at h
    unfold Expr.gather
    simp only [mem_append, or_and_right, exists_or]
    rcases mem_qualifiers_append h with h | h
    · rcases mem_qualifiers_append h with h | h
      · exact .inl (mem_gather_of_restoreWith hg l h)
      · cases op <;> exact absurd h not_mem_qualifiers_text
    · exact .inr (mem_gather_of_restoreWith hg r h)
  | .patternIn a e list sel isNot, h => by
    unfold Expr.restoreWith at h
    unfold Expr.gather
    simp only [mem_append, or_and_right, exists_or]
    rcases mem_qualifiers_append h with h | h
    · rcases mem_qualifiers_append h with h | h
      · exact .inl (.inl (.inl (mem_gather_of_restoreWith hg e h)))
      · exact absurd h not_mem_qualifiers_text
    · cases houts : valuesOut a with
      | some outs =>
        rw [houts] at h
        obtain ⟨o, ho, hq⟩ := mem_qualifiers_list h
        exact .inr (hg.list a outs houts o ho q hq)
      | none =>
        rw [houts] at h
        cases sel with
        | some sel => exact .inl (.inr (mem_gather_of_restoreWith hg sel h))
        | none =>
          obtain ⟨o, ho, hq⟩ := mem_qualifiers_list h
          exact .inl (.inl (.inr (mem_gatherList_of_restoreListWith hg list ho hq)))
  | .between _ e l r isNot, h => by
    unfold Expr.restoreWith at h
    unfold Expr.gather
    simp only [mem_append, or_and_right, exists_or]
    rcases mem_qualifiers_append h with h | h
    · rcases mem_qualifiers_append h with h | h
      · rcases mem_qualifiers_append h with h | h
        · rcases mem_qualifiers_append h with h | h
          · exact .inl (.inl (mem_gather_of_restoreWith hg e h))
          · exact absurd h not_mem_qualifiers_text
        · exact .inl (.inr (mem_gather_of_restoreWith hg l h))
      · exact absurd h not_mem_qualifiers_text
    · exact .inr (mem_gather_of_restoreWith hg r h)
  | .paren e, h => by
    unfold Expr.restoreWith at h
    rcases mem_qualifiers_append h with h | h
    · rcases mem_qualifiers_append h with h | h
      · exact absurd h not_mem_qualifiers_text
      · exact mem_gather_of_restoreWith hg e h
    · exact absurd h not_mem_qualifiers_text
  | .funcCall f parts, h => by
    obtain ⟨o, ho, hq⟩ := mem_qualifiers_concat h
    exact mem_gatherList_of_restoreListWith hg parts ho hq
  | .aggregate f parts, h => by
    obtain ⟨o, ho, hq⟩ := mem_qualifiers_concat h
    exact mem_gatherList_of_restoreListWith hg parts ho hq
  | .valuesOf none, h => absurd h not_mem_nil
  | .valuesOf (some c), h => by
    unfold Expr.restoreWith at h
    rcases mem_qualifiers_append h with h | h
    · rcases mem_qualifiers_append h with h | h
      · exact absurd h not_mem_qualifiers_text
      · cases mem_qualifiers_tok h
        exact hg.valuesOf c
    · exact absurd h not_mem_qualifiers_text
  | .text t, h => hg.text t q (mem_qualifiers_tok h)
  | .node type parts, h => by
    obtain ⟨o, ho, hq⟩ := mem_qualifiers_concat h
    exact mem_gatherList_of_restoreListWith hg parts ho hq

theorem mem_gatherList_of_restoreListWith (hg : Gathers printed colOut valuesOut col tok values lists) {q : CIStr}
    {o : Out} : (es : List (Expr P)) →
    o ∈ Expr.restoreListWith colOut valuesOut es → q ∈ qualifiers o.toks →
    ∃ r ∈ Expr.gatherList col tok values lists es, printed r = q
  | [], ho, _ => by cases ho
  | e :: es, ho, hq => by
    unfold Expr.gatherList
    simp only [mem_append, or_and_right, exists_or]
    rcases mem_cons.1 ho with rfl | ho
    · exact .inl (mem_gather_of_restoreWith hg e hq)
    · exact .inr (mem_gatherList_of_restoreListWith hg es ho hq)
end

end RestoreWith

theorem mem_names_of_restorePlain {e : Expr Parsed} {q : CIStr} (h : q ∈ qualifiers e.restorePlain.toks) :
    q ∈ e.names := by
  have hg : Gathers (P := Parsed) id (fun _ c => c.restore) (fun _ => none) (fun _ c => [c.table])
      (fun t => t.qualifier.toList) (fun c => [c.table]) (fun _ => []) := by
    refine ⟨?_, ?_, ?_, ?_⟩
    · intro a c q hq
      cases mem_qualifiers_tok hq
      exact ⟨_, mem_singleton_self _, rfl⟩
    · intro t q hq
      exact ⟨q, by simp [hq], rfl⟩
    · exact fun c => ⟨_, mem_singleton_self _, rfl⟩
    · intro a outs houts
      cases houts
  obtain ⟨r, hr, rfl⟩ := mem_gather_of_restoreWith hg e h
  exact hr

theorem mem_refs_of_restore {i : Int} {e : Expr Planned} {q : CIStr} (h : q ∈ qualifiers (e.restore i).toks) :
    ∃ r ∈ e.refs i, r.printed = q := by
  refine mem_gather_of_restoreWith ⟨?_, ?_, ?_, ?_⟩ e h
  · intro d c q hq
    exact ⟨⟨c.table, q⟩, mem_map.2 ⟨q, hq, rfl⟩, rfl⟩
  · intro t q hq
    exact ⟨.same q, by simp [hq], rfl⟩
  · exact fun c => ⟨_, mem_singleton_self _, rfl⟩
  · intro d outs houts o ho q hq
    obtain ⟨dec, rfl, rfl⟩ := Option.map_eq_some_iff.1 houts
    obtain ⟨v, hv, rfl⟩ := mem_map.1 ho
    have hmem : q ∈ dec.names i := mem_flatMap.2 ⟨v, hv, mem_names_of_restorePlain hq⟩
    exact ⟨.same q, mem_map.2 ⟨q, by simpa using hmem, rfl⟩, rfl⟩

/-! ### Clauses -/

def tokRefs (toks : List Tok) : List Ref := (qualifiers toks).map .same

def SelectField.refs (i : Int) : SelectField Planned → List Ref
  | .wildcard _ table => [.same table]
  | .expr e _ => e.refs i

def ByItem.refs (i : Int) (item : ByItem Planned) : List Ref := item.expr.refs i

def byItemsRefs (i : Int) (items : Option (List (ByItem Planned))) : List Ref :=
  (items.getD []).flatMap (ByItem.refs i)

def condRefs (i : Int) (e : Option (Expr Planned)) : List Ref := e.toList.flatMap (Expr.refs i)

def Limit.names (l : Limit) : List CIStr := l.offset.toList.flatMap Expr.names ++ l.count.names

def Assignment.names (a : Assignment) : List CIStr := a.column.table :: a.expr.names

def TableName.refs (t : TableName) (rule : Rule) (i : Int) : List Ref := refsTo t.name (t.restoreDecorated rule i)

section Joins

variable {S : Type} (i : Int) (source : S → List Ref)

def JoinRight.refs : JoinRight S → List Ref
  | .source s => source s
  | .join => []

/-- A join without a right side prints neither `ON` nor `USING`. -/
def JoinTail.refs (t : JoinTail S Planned) : List Ref :=
  match t.right with
  | none => []
  | some right => right.refs source ++ condRefs i t.on ++ t.using_.map fun c => .same c.table

def Join.refs : Join S Planned → List Ref
  | .ofSource s tail => source s ++ tail.refs i source
  | .ofJoin j tail => Join.refs j ++ tail.refs i source

def SelectClauses.refs (s : SelectClauses S Planned) : List Ref :=
  tokRefs s.options ++ s.fields.flatMap (SelectField.refs i) ++ s.tableRefs.toList.flatMap (Join.refs i source) ++
  condRefs i s.cond ++ byItemsRefs i s.groupBy ++ condRefs i s.having ++ s.windows.flatMap (Expr.refs i) ++
  byItemsRefs i s.orderBy ++ (s.limit.toList.flatMap Limit.names).map .same ++ tokRefs s.lock

end Joins

def InnerSource.refs (i : Int) : InnerSource Planned → List Ref
  | .table rule name _ => name.refs rule i
  | .select => []

def TableSource.refs (i : Int) : TableSource Planned → List Ref
  | .table rule name _ => name.refs rule i
  | .select s _ => s.refs i (InnerSource.refs i)

/-! ### Statements -/

def SelectStmt.refs (i : Int) (s : SelectStmt Planned) : List Ref := SelectClauses.refs i (TableSource.refs i) s

def UpdateStmt.refs (i : Int) (s : UpdateStmt Planned) : List Ref :=
  tokRefs s.options ++ s.tableRefs.refs i (TableSource.refs i) ++ (s.list.flatMap Assignment.names).map .same ++
  condRefs i s.cond ++ byItemsRefs i s.order ++ (s.limit.toList.flatMap Limit.names).map .same

def DeleteStmt.refs (i : Int) (s : DeleteStmt Planned) : List Ref :=
  tokRefs s.options ++ (s.tables.map TableName.name).map .same ++ s.tableRefs.refs i (TableSource.refs i) ++
  condRefs i s.cond ++ byItemsRefs i s.order ++ (s.limit.toList.flatMap Limit.names).map .same

def rowNames (rows : List (List (Expr Parsed))) : List CIStr := rows.flatMap (List.flatMap Expr.names)

def InsertStmt.refs (i : Int) (s : InsertStmt Planned) : List Ref :=
  tokRefs s.options ++ s.tableRefs.refs i (TableSource.refs i) ++ (s.columns.map ColumnName.table).map .same ++
  (rowNames (s.rowsAt i)).map .same ++ (s.setlist.flatMap Assignment.names).map .same ++
  ((s.onDuplicate.getD []).flatMap Assignment.names).map .same

/-! ### Statements print their references -/

/-- Every table name in `out` is that of a reference. -/
def Prints (out : Out) (refs : List Ref) : Prop := ∀ q ∈ qualifiers out.toks, ∃ r ∈ refs, r.printed = q

namespace Prints

variable {a b : Out} {r r' : List Ref}

theorem append (ha : Prints a r) (hb : Prints b r') : Prints (a ++ b) (r ++ r') := by
  intro q hq
  rcases mem_qualifiers_append hq with hq | hq
  · obtain ⟨x, hx, hxq⟩ := ha q hq
    exact ⟨x, mem_append_left _ hx, hxq⟩
  · obtain ⟨x, hx, hxq⟩ := hb q hq
    exact ⟨x, mem_append_right _ hx, hxq⟩

theorem text (s : String) : Prints (.text s) [] := fun _ hq => absurd hq not_mem_qualifiers_text

theorem nothing : Prints .nothing [] := fun _ hq => absurd hq not_mem_nil

theorem text_append (s : String) (ha : Prints a r) : Prints (.text s ++ a) r := (text s).append ha

theorem append_text (ha : Prints a r) (s : String) : Prints (a ++ .text s) r := by
  have h := ha.append (text s)
  rwa [append_nil] at h

theorem mono (ha : Prints a r) (h : ∀ x ∈ r, x ∈ r') : Prints a r' := by
  intro q hq
  obtain ⟨x, hx, hxq⟩ := ha q hq
  exact ⟨x, h x hx, hxq⟩

theorem ignoreErr (ha : Prints a r) : Prints a.ignoreErr r := by
  unfold Prints
  rwa [toks_ignoreErr]

theorem same {q : CIStr} {t : Tok} (h : t.qualifier = some q) : Prints (.tok t) [.same q] := by
  intro q' hq'
  have heq : q = q' := Option.mem_unique h (mem_qualifiers_tok hq')
  exact ⟨.same q, mem_singleton_self _, heq⟩

theorem name (s : String) : Prints (.tok (.name s)) [] := by
  intro q hq
  cases mem_qualifiers_tok hq

section Lists

variable {α : Type} {f : α → Out} {g : α → List Ref}

theorem sepBy (h : ∀ x, Prints (f x) (g x)) (sep : String) (l : List α) :
    Prints (.sepBy sep (l.map f)) (l.flatMap g) := by
  intro q hq
  obtain ⟨o, ho, hq⟩ := mem_qualifiers_sepBy hq
  obtain ⟨x, hx, rfl⟩ := mem_map.1 ho
  obtain ⟨y, hy, hyq⟩ := h x q hq
  exact ⟨y, mem_flatMap.2 ⟨x, hx, hy⟩, hyq⟩

theorem concat (h : ∀ x, Prints (f x) (g x)) (l : List α) : Prints (.concat (l.map f)) (l.flatMap g) := by
  intro q hq
  obtain ⟨o, ho, hq⟩ := mem_qualifiers_concat hq
  obtain ⟨x, hx, rfl⟩ := mem_map.1 ho
  obtain ⟨y, hy, hyq⟩ := h x q hq
  exact ⟨y, mem_flatMap.2 ⟨x, hx, hy⟩, hyq⟩

theorem optional (h : ∀ x, Prints (f x) (g x)) (o : Option α) : Prints (.optional f o) (o.toList.flatMap g) := by
  cases o with
  | none => exact nothing
  | some x => exact (h x).mono fun y hy => by simpa using hy

end Lists

theorem toks (l : List Tok) : Prints (.concat (l.map .tok)) (tokRefs l) := by
  intro q hq
  obtain ⟨o, ho, hq⟩ := mem_qualifiers_concat hq
  obtain ⟨t, ht, rfl⟩ := mem_map.1 ho
  exact ⟨.same q, mem_map.2 ⟨q, mem_filterMap.2 ⟨t, ht, mem_qualifiers_tok hq⟩, rfl⟩, rfl⟩

theorem plain (e : Expr Parsed) : Prints e.restorePlain (e.names.map .same) := by
  intro q hq
  exact ⟨.same q, mem_map.2 ⟨q, mem_names_of_restorePlain hq, rfl⟩, rfl⟩

theorem expr (i : Int) (e : Expr Planned) : Prints (e.restore i) (e.refs i) := fun _ hq => mem_refs_of_restore hq

theorem refsTo (source : CIStr) (out : Out) : Prints out (DbProxy.refsTo source out) :=
  fun q hq => ⟨⟨source, q⟩, mem_map.2 ⟨q, hq, rfl⟩, rfl⟩

end Prints

section Clauses

variable {S : Type} {i : Int}

theorem prints_as (asName : CIStr) : Prints (restoreAs asName) [] := by
  unfold restoreAs
  split
  · exact .nothing
  · exact (Prints.name asName.o).text_append " AS "

theorem prints_field (f : SelectField Planned) : Prints (f.restore i) (f.refs i) := by
  cases f with
  | wildcard schema table => exact .same rfl
  | expr e asName =>
    have h := (Prints.expr i e).append (prints_as asName)
    rwa [append_nil] at h

theorem prints_byItem (item : ByItem Planned) : Prints (item.restore i) (item.refs i) := by
  unfold ByItem.restore
  split
  · exact (Prints.expr i item.expr).append_text " DESC"
  · have h := (Prints.expr i item.expr).append .nothing
    rwa [append_nil] at h

theorem prints_byItems (keyword : String) (items : List (ByItem Planned)) :
    Prints (restoreByItems i keyword items) (items.flatMap (ByItem.refs i)) :=
  (Prints.sepBy prints_byItem "," items).text_append keyword

theorem prints_column (c : ColumnName) : Prints c.restore [.same c.table] := .same rfl

theorem prints_limit (l : Limit) : Prints l.restore (l.names.map .same) := by
  unfold Limit.restore Limit.names
  rw [map_append, map_flatMap]
  have hoffset := Prints.optional (fun e => (Prints.plain e).append_text ",") l.offset
  exact (hoffset.text_append "LIMIT ").append (Prints.plain l.count)

theorem prints_assignment (a : Assignment) : Prints a.restore (a.names.map .same) :=
  ((prints_column a.column).append_text "=").append (Prints.plain a.expr)

theorem prints_assignments (sep : String) (as : List Assignment) :
    Prints (.sepBy sep (as.map Assignment.restore)) ((as.flatMap Assignment.names).map .same) := by
  rw [map_flatMap]
  exact Prints.sepBy prints_assignment sep as

theorem prints_parens {out : Out} {r : List Ref} (nested : Bool) (h : Prints out r) :
    Prints (restoreParens nested out) r := by
  unfold restoreParens
  split
  · intro q hq
    -- the closing parenthesis is written even after a failure
    have hq : q ∈ qualifiers ((Out.text "(" ++ out).toks ++ [.text ")"]) := hq
    rw [qualifiers_append] at hq
    rcases mem_append.1 hq with hq | hq
    · exact h.text_append "(" q hq
    · exact absurd hq not_mem_nil
  · exact h

variable {source : S → Out} {refs : S → List Ref} (hsource : ∀ s, Prints (source s) (refs s))

include hsource

theorem prints_joinTail (t : JoinTail S Planned) : Prints (t.restore i source) (t.refs i refs) := by
  unfold JoinTail.restore JoinTail.refs
  cases t.right with
  | none => exact .nothing
  | some right =>
    simp only
    have hnatural : Prints (if t.natural then .text " NATURAL" else .nothing) [] := by
      split
      · exact .text _
      · exact .nothing
    have htype : Prints t.tp.restore [] := by
      cases t.tp
      · exact .nothing
      · exact .text _
      · exact .text _
    have hright : Prints (right.restore source) (right.refs refs) := by
      cases right with
      | source s => exact hsource s
      | join => exact .nothing
    have hon := Prints.optional (fun e => (Prints.expr i e).text_append " ON ") t.on
    have husing : Prints (if t.using_.isEmpty then .nothing
        else .text " USING (" ++ .sepBy "," (t.using_.map ColumnName.restore) ++ .text ")")
        (t.using_.map fun c => .same c.table) := by
      split
      · exact Prints.nothing.mono fun x hx => absurd hx not_mem_nil
      · have h := ((Prints.sepBy prints_column "," t.using_).text_append " USING (").append_text ")"
        exact h.mono fun x hx => by simpa [eq_comm] using hx
    exact ((((hnatural.append htype).append (.text _)).append hright).append hon).append husing

theorem prints_join (nested : Bool) (j : Join S Planned) : Prints (j.restore i source nested) (j.refs i refs) := by
  induction j generalizing nested with
  | ofSource s t => exact prints_parens nested ((hsource s).append (prints_joinTail hsource t))
  | ofJoin j t ih => exact prints_parens nested ((ih true).append (prints_joinTail hsource t))

theorem prints_selectClauses (nested : Bool) (s : SelectClauses S Planned) :
    Prints (s.restore i source nested) (s.refs i refs) := by
  have hdistinct : Prints (if s.distinct then .text "DISTINCT " else .nothing) [] := by
    split
    · exact .text _
    · exact .nothing
  have hfields := Prints.sepBy (fun f => (prints_field (i := i) f).ignoreErr) "," s.fields
  have hfrom := Prints.optional (fun j => (prints_join (i := i) hsource nested j).ignoreErr.text_append " FROM ")
    s.tableRefs
  have hdual : Prints (if s.tableRefs.isNone && s.cond.isSome then .text " FROM DUAL" else .nothing) [] := by
    split
    · exact .text _
    · exact .nothing
  have hcond := Prints.optional (fun e => (Prints.expr i e).ignoreErr.text_append " WHERE ") s.cond
  have hby : ∀ (keyword : String) (items : Option (List (ByItem Planned))),
      Prints (.optional (fun items => .text " " ++ (restoreByItems i keyword items).ignoreErr) items)
        (byItemsRefs i items) := by
    intro keyword items
    cases items with
    | none => exact .nothing
    | some items => exact (prints_byItems keyword items).ignoreErr.text_append " "
  have hhaving := Prints.optional
    (fun e => ((Prints.expr i e).text_append "HAVING ").ignoreErr.text_append " ") s.having
  have hwindows : Prints (if s.windows.isEmpty then .nothing
      else .text " WINDOW " ++ .sepBy "," (s.windows.map fun e => (e.restore i).ignoreErr))
      (s.windows.flatMap (Expr.refs i)) := by
    split
    · exact Prints.nothing.mono fun x hx => absurd hx not_mem_nil
    · exact (Prints.sepBy (fun e => (Prints.expr i e).ignoreErr) "," s.windows).text_append " WINDOW "
  have hlimit : Prints (.optional (fun l => .text " " ++ l.restore.ignoreErr) s.limit)
      ((s.limit.toList.flatMap Limit.names).map .same) := by
    rw [map_flatMap]
    exact Prints.optional (fun l => (prints_limit l).ignoreErr.text_append " ") s.limit
  have hselect := ((Prints.toks s.options).text_append "SELECT ").append hdistinct
  rw [append_nil] at hselect
  have hhead := ((hselect.append hfields).append hfrom).append hdual
  rw [append_nil] at hhead
  exact ((((((hhead.append hcond).append (hby "GROUP BY " s.groupBy)).append hhaving).append hwindows).append
    (hby "ORDER BY " s.orderBy)).append hlimit).append (Prints.toks s.lock)

end Clauses

section Statements

variable {i : Int}

theorem prints_tableName (t : TableName) (rule : Rule) (asName : CIStr) :
    Prints (t.restoreDecorated rule i ++ restoreAs asName) (t.refs rule i) := by
  have h := (Prints.refsTo t.name (t.restoreDecorated rule i)).append (prints_as asName)
  rwa [append_nil] at h

theorem prints_innerSource (s : InnerSource Planned) : Prints (s.restore i) (s.refs i) := by
  cases s with
  | table rule name asName => exact prints_tableName name rule asName
  | select => exact .nothing

theorem prints_tableSource (s : TableSource Planned) : Prints (s.restore i) (s.refs i) := by
  cases s with
  | table rule name asName => exact prints_tableName name rule asName
  | select s asName =>
    have h := (((prints_selectClauses (i := i) (prints_innerSource (i := i)) true s).text_append "(").append_text
      ")").append (prints_as asName)
    rwa [append_nil] at h

theorem prints_select (s : SelectStmt Planned) : Prints (s.restore i) (s.refs i) :=
  prints_selectClauses prints_tableSource false s

theorem prints_modifyTail (cond : Option (Expr Planned)) (order : Option (List (ByItem Planned)))
    (limit : Option Limit) {out : Out} {r : List Ref} (h : Prints out r) :
    Prints (out ++ .optional (fun e => .text " WHERE " ++ e.restore i) cond ++
      .optional (fun items => .text " " ++ restoreByItems i "ORDER BY " items) order ++
      .optional (fun l => .text " " ++ l.restore) limit)
      (r ++ condRefs i cond ++ byItemsRefs i order ++ (limit.toList.flatMap Limit.names).map .same) := by
  have hcond := Prints.optional (fun e => (Prints.expr i e).text_append " WHERE ") cond
  have horder : Prints (.optional (fun items => .text " " ++ restoreByItems i "ORDER BY " items) order)
      (byItemsRefs i order) := by
    cases order with
    | none => exact .nothing
    | some items => exact (prints_byItems "ORDER BY " items).text_append " "
  have hlimit := Prints.optional (fun l => (prints_limit l).text_append " ") limit
  rw [← map_flatMap] at hlimit
  exact ((h.append hcond).append horder).append hlimit

theorem prints_update (s : UpdateStmt Planned) : Prints (s.restore i) (s.refs i) := by
  have hhead := (((Prints.toks s.options).text_append "UPDATE ").append
    (prints_join (i := i) (prints_tableSource (i := i)) false s.tableRefs)).append_text " SET "
  exact prints_modifyTail s.cond s.order s.limit (hhead.append (prints_assignments ", " s.list))

theorem prints_targets (t : TableName) : Prints t.restore [.same t.name] := by
  unfold TableName.restore
  have hpartitions : Prints (if t.partitionNames.isEmpty then .nothing
      else .text " PARTITION(" ++ .sepBy ", " (t.partitionNames.map fun p => .tok (.name p.o)) ++ .text ")") [] := by
    split
    · exact .nothing
    · have h := Prints.sepBy (fun p : CIStr => Prints.name p.o) ", " t.partitionNames
      exact ((h.text_append " PARTITION(").append_text ")").mono fun x hx => by simp at hx
  have hhints := Prints.concat (fun h : String => (Prints.text h).text_append " ") t.indexHints
  have h := ((Prints.same (t := .table t.schema.o t.name) rfl).append hpartitions).append hhints
  exact h.mono fun x hx => by simpa using hx

theorem prints_delete (s : DeleteStmt Planned) : Prints (s.restore i) (s.refs i) := by
  have hjoin := prints_join (i := i) (prints_tableSource (i := i)) false s.tableRefs
  have htables : Prints (if s.tables.isEmpty then .text "FROM " ++ restoreJoin i s.tableRefs
      else .sepBy "," (s.tables.map TableName.restore) ++ .text " FROM " ++ restoreJoin i s.tableRefs)
      ((s.tables.map TableName.name).map .same ++ s.tableRefs.refs i (TableSource.refs i)) := by
    split
    · exact (hjoin.text_append "FROM ").mono fun x hx => mem_append_right _ hx
    · have h := ((Prints.sepBy prints_targets "," s.tables).append_text " FROM ").append hjoin
      exact h.mono fun x hx => by simpa [eq_comm] using hx
  have hhead := ((Prints.toks s.options).text_append "DELETE ").append htables
  rw [← append_assoc] at hhead
  exact prints_modifyTail s.cond s.order s.limit hhead

theorem prints_rows (rows : List (List (Expr Parsed))) : Prints (restoreRows rows) ((rowNames rows).map .same) := by
  have hrow : ∀ row, Prints (restoreRow row) ((row.flatMap Expr.names).map .same) := by
    intro row
    rw [map_flatMap]
    exact ((Prints.sepBy Prints.plain "," row).text_append "(").append_text ")"
  unfold rowNames
  rw [map_flatMap]
  exact (Prints.sepBy hrow "," rows).text_append " VALUES "

theorem prints_insert (s : InsertStmt Planned) : Prints (s.restore i) (s.refs i) := by
  have hhead := ((Prints.toks s.options).text_append (if s.isReplace then "REPLACE " else "INSERT ")).append_text
    "INTO "
  have hjoin := prints_join (i := i) (prints_tableSource (i := i)) false s.tableRefs
  have hcolumns : Prints (if s.columns.isEmpty then .nothing
      else .text " (" ++ .sepBy "," (s.columns.map ColumnName.restore) ++ .text ")")
      ((s.columns.map ColumnName.table).map .same) := by
    split
    · exact Prints.nothing.mono fun x hx => absurd hx not_mem_nil
    · have h := ((Prints.sepBy prints_column "," s.columns).text_append " (").append_text ")"
      exact h.mono fun x hx => by simpa [eq_comm] using hx
  have hrows : Prints (if s.listsAssist.isSome then (restoreRows (s.rowsAt i)).ignoreErr
      else if s.lists.isEmpty then .nothing else restoreRows (s.rowsAt i)) ((rowNames (s.rowsAt i)).map .same) := by
    split
    · exact (prints_rows _).ignoreErr
    · split
      · exact Prints.nothing.mono fun x hx => absurd hx not_mem_nil
      · exact prints_rows _
  have hset : Prints (if s.setlist.isEmpty then .nothing
      else .text " SET " ++ .sepBy "," (s.setlist.map Assignment.restore))
      ((s.setlist.flatMap Assignment.names).map .same) := by
    split
    · exact Prints.nothing.mono fun x hx => absurd hx not_mem_nil
    · exact (prints_assignments "," s.setlist).text_append " SET "
  have hduplicate : Prints (.optional (fun l => .text " ON DUPLICATE KEY UPDATE " ++
      .sepBy "," (l.map Assignment.restore)) s.onDuplicate)
      (((s.onDuplicate.getD []).flatMap Assignment.names).map .same) := by
    cases s.onDuplicate with
    | none => exact .nothing
    | some l => exact (prints_assignments "," l).text_append " ON DUPLICATE KEY UPDATE "
  exact ((((hhead.append hjoin).append hcolumns).append hrows).append hset).append hduplicate

end Statements

end DbProxy
