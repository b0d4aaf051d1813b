import DbProxy.Spec.Keys
import DbProxy.Spec.WildcardColumns

/-!
# Merging never fails

The rows that the shards return have one type in each column.  The steps of the merge keep that, as long as an
aggregate function is merged in a column that it can read, so rows can be compared, cut and encoded.  What remains are
the rows that no shard returned: a statement with aggregate functions and without `GROUP BY` makes a row of nothing,
which has no columns to cut.
-/

namespace DbProxy

open Fallible List
variable {t : ColumnType} {types : List ColumnType} {row : ResultRow} {i k : Nat} {v acc : Cell}

/-! ### Types of columns -/

/-- What `ParseText` makes of the values of a column, unless they are NULL. -/
inductive ColumnType where
  | int64
  | uint64
  | float64
  | string
  | bytes
  deriving DecidableEq, Repr

def ColumnType.kind : ColumnType → ℕ
  | .int64 => 1
  | .uint64 => 2
  | .float64 => 3
  | .string => 4
  | .bytes => 5

def Cell.OfType (t : ColumnType) (c : Cell) : Prop := c.kind = 0 ∨ c.kind = t.kind

theorem Cell.OfType.comparable {a b : Cell} (ha : a.OfType t) (hb : b.OfType t) : a.comparable b := by
  unfold Cell.OfType at ha hb
  unfold Cell.comparable
  omega

abbrev RowTyped (types : List ColumnType) (row : ResultRow) : Prop := Forall₂ (fun t c => c.OfType t) types row

theorem RowTyped.exists_cell (h : RowTyped types row) (ht : types[i]? = some t) :
    ∃ c, row[i]? = some c ∧ c.OfType t := by
  obtain ⟨hlength, hcells⟩ := forall₂_iff_getElem?.1 h
  have hi : i < row.length := hlength ▸ (List.getElem?_eq_some_iff.1 ht).1
  exact ⟨row[i], getElem?_eq_getElem hi, hcells i t row[i] ht (getElem?_eq_getElem hi)⟩

theorem RowTyped.cell (h : RowTyped types row) {i : Int} (hi : 0 ≤ i)
    (hlt : i < types.length) : ∃ t c, types[i.toNat]? = some t ∧ row.cell i = .ok c ∧ c.OfType t := by
  have hlt : i.toNat < types.length := by omega
  obtain ⟨c, hc, htype⟩ := h.exists_cell (getElem?_eq_getElem hlt)
  refine ⟨_, c, getElem?_eq_getElem hlt, ?_, htype⟩
  unfold ResultRow.cell
  rw [if_pos hi, hc]

/-- The function finds values in a column of this type that it can merge, and leaves values of this type there. -/
def AggregateFunc.Accepts : AggregateFunc → ColumnType → Prop
  | .count, t => t = .int64
  | .sum, t => t = .float64
  | .max, t | .min, t => t ≠ .bytes

theorem mergeExtremum_ofType (wins : Ordering → Bool) (ht : t ≠ .bytes) (hv : v.OfType t)
    (hacc : acc.OfType t) : ∃ c, mergeExtremum wins v acc = .ok c ∧ c.OfType t := by
  have hwinner : ∀ b : Bool, Cell.OfType t (if b then v else acc) := by
    intro b
    cases b with
    | true => exact hv
    | false => exact hacc
  cases v with
  | null => exact ⟨acc, rfl, hacc⟩
  | int64 n | uint64 n | float64 n | string n =>
    cases acc with
    | null => exact ⟨_, rfl, hv⟩
    | int64 m | uint64 m | float64 m | string m =>
      first
        | exact ⟨_, rfl, hwinner _⟩
        | (cases t <;> simp [Cell.OfType, Cell.kind, ColumnType.kind] at hv hacc)
    | bytes m => cases t <;> simp [Cell.OfType, Cell.kind, ColumnType.kind] at hacc ht
  | bytes n => cases t <;> simp [Cell.OfType, Cell.kind, ColumnType.kind] at hv ht

theorem AggregateFunc.Accepts.merge {f : AggregateFunc} (h : f.Accepts t) (hv : v.OfType t)
    (hacc : acc.OfType t) : ∃ c, f.merge v acc = .ok c ∧ c.OfType t := by
  cases f with
  | count =>
    subst h
    cases v with
    | null | int64 =>
      cases acc with
      | null | int64 => exact ⟨_, rfl, .inr rfl⟩
      | _ => simp [Cell.OfType, Cell.kind, ColumnType.kind] at hacc
    | _ => simp [Cell.OfType, Cell.kind, ColumnType.kind] at hv
  | sum =>
    subst h
    cases v with
    | null => exact ⟨acc, rfl, hacc⟩
    | float64 =>
      cases acc with
      | null | float64 => exact ⟨_, rfl, .inr rfl⟩
      | _ => simp [Cell.OfType, Cell.kind, ColumnType.kind] at hacc
    | _ => simp [Cell.OfType, Cell.kind, ColumnType.kind] at hv
  | max => exact mergeExtremum_ofType (fun o => o = .gt) h hv hacc
  | min => exact mergeExtremum_ofType (fun o => o = .lt) h hv hacc

/-! ### The loops -/

variable {n : Nat}

section Loops

variable {fs : List (Nat × AggregateFunc)}
variable {rows : List ResultRow} {columns : List Int}

theorem mergeRow_typed (hnodup : (fs.map Prod.fst).Nodup) (hfs : ∀ e ∈ fs, ∃ t, types[e.1]? = some t ∧ e.2.Accepts t)
    {acc : ResultRow} (hrow : RowTyped types row) (hacc : RowTyped types acc) :
    ∃ acc', mergeRow fs row acc = .ok acc' ∧ RowTyped types acc' := by
  obtain ⟨acc', hmerge, hlength, hmerged, hother⟩ := mergeRow_spec (v := row) acc hnodup fun e he => by
    obtain ⟨t, ht, haccepts⟩ := hfs e he
    obtain ⟨a, ha, hatype⟩ := hrow.exists_cell ht
    obtain ⟨b, hb, hbtype⟩ := hacc.exists_cell ht
    obtain ⟨c, hc, _⟩ := haccepts.merge hatype hbtype
    exact ⟨a, b, c, ha, hb, hc⟩
  refine ⟨acc', hmerge, forall₂_iff_getElem?.2 ⟨hacc.length_eq.trans hlength.symm, fun i t c ht hc => ?_⟩⟩
  obtain ⟨b, hb, hbtype⟩ := hacc.exists_cell ht
  by_cases hi : i ∈ fs.map Prod.fst
  · -- a merged column
    obtain ⟨e, he, rfl⟩ := mem_map.1 hi
    obtain ⟨a, b', c', ha, hb', hc', hcell⟩ := hmerged e he
    obtain ⟨t', ht', haccepts⟩ := hfs e he
    obtain rfl := Option.mem_unique ht ht'
    obtain ⟨a', ha', hatype⟩ := hrow.exists_cell ht
    obtain rfl := Option.mem_unique ha' ha
    obtain rfl := Option.mem_unique hb' hb
    obtain ⟨c'', hc'', hctype⟩ := haccepts.merge hatype hbtype
    obtain rfl := ok_unique hc'' hc'
    obtain rfl := Option.mem_unique hcell hc
    exact hctype
  · rw [hother i hi, hb] at hc
    obtain rfl := Option.some.inj hc
    exact hbtype

theorem mergeRows_typed (hnodup : (fs.map Prod.fst).Nodup) (hfs : ∀ e ∈ fs, ∃ t, types[e.1]? = some t ∧ e.2.Accepts t)
    (hrows : ∀ row ∈ rows, RowTyped types row) :
    ∀ {acc : ResultRow}, RowTyped types acc → ∃ acc', mergeRows fs acc rows = .ok acc' ∧ RowTyped types acc' := by
  induction rows with
  | nil => exact fun hacc => ⟨_, rfl, hacc⟩
  | cons row rows ih =>
    intro acc hacc
    obtain ⟨hrow, hrows⟩ := forall_mem_cons.1 hrows
    obtain ⟨acc₁, hmerge, hacc₁⟩ := mergeRow_typed hnodup hfs hrow hacc
    obtain ⟨acc', hrest, hacc'⟩ := ih hrows hacc₁
    exact ⟨acc', bind_eq_ok.2 ⟨acc₁, hmerge, hrest⟩, hacc'⟩

variable (go : Runtime)

theorem mapM_cell_typed (hcolumns : ∀ i ∈ columns, 0 ≤ i ∧ i < types.length)
    (hrow : RowTyped types row) : columns.mapM row.cell = .ok (columns.map row.at) := by
  refine mapM_eq_ok.2 (forall₂_map_right_iff.2 (forall₂_same.2 fun i hi => ?_))
  obtain ⟨_, c, _, hc, _⟩ := hrow.cell (hcolumns i hi).1 (hcolumns i hi).2
  rw [hc, ResultRow.at_eq hc]

theorem groupRows_typed (hnodup : (fs.map Prod.fst).Nodup) (hfs : ∀ e ∈ fs, ∃ t, types[e.1]? = some t ∧ e.2.Accepts t)
    (hcolumns : ∀ i ∈ columns, 0 ≤ i ∧ i < types.length)
    (hrows : ∀ row ∈ rows, RowTyped types row) : ∀ {m : AssocMap GoString ResultRow}, (∀ e ∈ m, RowTyped types e.2) →
      ∃ m', groupRows go fs columns m rows = .ok m' ∧ ∀ e ∈ m', RowTyped types e.2 := by
  induction rows with
  | nil => exact fun hm => ⟨_, rfl, hm⟩
  | cons row rows ih =>
    intro m hm
    obtain ⟨hrow, hrows⟩ := forall_mem_cons.1 hrows
    have hcells := mapM_cell_typed hcolumns hrow
    have hset : ∀ {acc : ResultRow}, RowTyped types acc → ∀ e ∈ m.set (generateMapKey go (columns.map row.at)) acc,
        RowTyped types e.2 := by
      intro acc hacc e he
      rcases AssocMap.mem_of_mem_set he with rfl | he
      · exact hacc
      · exact hm e he
    cases hget : m.get (generateMapKey go (columns.map row.at)) with
    | none =>
      rw [groupRows_new hcells hget]
      exact ih hrows (hset hrow)
    | some acc =>
      obtain ⟨acc', hmerge, hacc'⟩ := mergeRow_typed hnodup hfs hrow (hm _ (AssocMap.mem_of_get hget))
      rw [groupRows_old hcells hget hmerge]
      exact ih hrows (hset hacc')

theorem distinctRows_sublist (hrows : ∀ row ∈ rows, n ≤ row.length) :
    ∀ (seen : List GoString), ∃ kept, distinctRows go n seen rows = .ok kept ∧ kept.Sublist rows ∧
      (seen = [] → rows ≠ [] → kept ≠ []) := by
  induction rows with
  | nil => exact fun _ => ⟨[], rfl, .slnil, fun _ hne => hne⟩
  | cons row rows ih =>
    intro seen
    obtain ⟨hrow, hrows⟩ := forall_mem_cons.1 hrows
    by_cases hseen : generateMapKey go (row.take n) ∈ seen
    · obtain ⟨kept, hkept, hsub, _⟩ := ih hrows seen
      refine ⟨kept, bind_eq_ok.2 ⟨_, sliceTo_eq hrow, ?_⟩, hsub.cons row, ?_⟩
      · exact (if_pos hseen).trans hkept
      · rintro rfl
        cases hseen
    · obtain ⟨kept, hkept, hsub, _⟩ := ih hrows (generateMapKey go (row.take n) :: seen)
      refine ⟨row :: kept, bind_eq_ok.2 ⟨_, sliceTo_eq hrow, ?_⟩, hsub.cons_cons row, fun _ _ => cons_ne_nil _ _⟩
      exact (if_neg hseen).trans (bind_eq_ok.2 ⟨kept, hkept, rfl⟩)

theorem distinctRows_of_nodup (hrows : ∀ row ∈ rows, n ≤ row.length) :
    ∀ (seen : List GoString), ((seen.reverse ++ rows.map fun row => generateMapKey go (row.take n))).Nodup →
      distinctRows go n seen rows = .ok rows := by
  induction rows with
  | nil => exact fun _ _ => rfl
  | cons row rows ih =>
    intro seen hnodup
    obtain ⟨hrow, hrows⟩ := forall_mem_cons.1 hrows
    have hnew : generateMapKey go (row.take n) ∉ seen := by
      intro hmem
      exact (nodup_append.1 hnodup).2.2 _ (mem_reverse.2 hmem) _ mem_cons_self rfl
    refine bind_eq_ok.2 ⟨_, sliceTo_eq hrow, (if_neg hnew).trans ?_⟩
    refine bind_eq_ok.2 ⟨rows, ih hrows _ ?_, rfl⟩
    rwa [reverse_cons, append_assoc, singleton_append]

theorem groupRows_of_nodup (fs : List (Nat × AggregateFunc)) (columns : List Int) (key : ResultRow → List Cell)
    (hkey : ∀ row ∈ rows, columns.mapM row.cell = .ok (key row)) : ∀ {m : AssocMap GoString ResultRow},
      (m.map Prod.fst ++ rows.map fun row => generateMapKey go (key row)).Nodup →
      groupRows go fs columns m rows = .ok (m ++ rows.map fun row => (generateMapKey go (key row), row)) := by
  induction rows with
  | nil =>
    intro m _
    exact congrArg _ (append_nil m).symm
  | cons row rows ih =>
    intro m hnodup
    obtain ⟨hrow, hrows⟩ := forall_mem_cons.1 hkey
    have hget : m.get (generateMapKey go (key row)) = none := by
      rw [← Option.not_isSome_iff_eq_none, AssocMap.get_isSome]
      intro hmem
      exact (nodup_append.1 hnodup).2.2 _ hmem _ mem_cons_self rfl
    rw [groupRows_new hrow hget, AssocMap.set_of_get_eq_none hget, ih hrows, append_assoc]
    · rfl
    · rw [map_append, append_assoc]
      exact hnodup

end Loops

/-! ### Answers of the shards -/

/-- Go's `sort.Sort` compares nothing if there are fewer than two rows. -/
def Runtime.SortsShort (go : Runtime) : Prop := ∀ less l, l.length ≤ 1 → go.sort less l = .ok l

/-- The reference runtime, which leaves a single row alone. -/
def Runtime.short : Runtime := { Runtime.reference with
  sort := fun less l => if l.length ≤ 1 then .ok l else referenceSort less l
  sort_perm := by
    intro less l s h
    split at h
    · cases h
      exact .refl _
    · exact referenceSort_perm h
  sort_sorted := by
    intro less l le htotal htrans hless
    split
    · next hshort =>
      refine ⟨l, rfl, ?_⟩
      match l, hshort with
      | [], _ => exact .nil
      | [_], _ => exact pairwise_singleton _ _
    · exact referenceSort_sorted hless htotal htrans }

theorem Runtime.short_sortsShort : Runtime.short.SortsShort := fun _ _ h => if_pos h

section Plan

variable (plan : SelectPlan) (types : List ColumnType)

/-- Aggregate functions without `GROUP BY`: all rows are merged into one. -/
def SelectPlan.Single : Prop := plan.stmt.groupBy = none ∧ plan.aggregateFuncs ≠ []

/-- The database returns a row for the statement of a shard whatever the tables hold. -/
def SelectPlan.ReturnsRow : Prop :=
  plan.Single ∧ plan.stmt.having = none ∧ limitRows plan.stmt.limit [()] = some [()]

/-- The types of the columns of the shards' results.  The database counts in a signed integer, and sums up in a
`DECIMAL` or in a `DOUBLE`. -/
structure SelectPlan.ShardTypes (wildcard : CIStr → CIStr → Nat) : Prop where
  length : types.length = columnsOf wildcard plan.stmt.fields
  count : ∀ k fn parts asName, plan.stmt.fields[k]? = some (.expr (.aggregate fn parts) asName) →
    createAggregateFunctionMerger fn = .ok .count → types[resultColumn wildcard plan.stmt.fields k]? = some .int64
  sum : ∀ k fn parts asName, plan.stmt.fields[k]? = some (.expr (.aggregate fn parts) asName) →
    createAggregateFunctionMerger fn = .ok .sum → types[resultColumn wildcard plan.stmt.fields k]? = some .float64

/-- Results that the shards may return: one field list, and rows of its types. -/
structure SelectPlan.ShardResults (rs : List Result) : Prop where
  nonempty : rs ≠ []
  fields : ∃ names : List String, names.length = types.length ∧ ∀ r ∈ rs, r.fields = names
  rows : ∀ r ∈ rs, ∀ row ∈ r.values, RowTyped types row
  row : plan.ReturnsRow → ∀ r ∈ rs, r.values ≠ []

/-- The merge of whatever the shards return has a result, whose rows have `kept` columns. -/
def SelectPlan.AlwaysMerges (kept : Nat) : Prop :=
  ∀ go : Runtime, go.SortsShort → ∀ rs, plan.ShardResults types rs → ∃ res, mergeSelectResult go plan rs = .ok res ∧
  res.Tabular kept

/-- The limit is one that can be cut out of any number of rows. -/
def SelectPlan.LimitFits : Prop :=
  plan.count = -1 ∨ 0 ≤ plan.offset ∧ plan.offset ≤ toInt64 (plan.offset + plan.count)

/-- The limit leaves nothing of a single row. -/
def SelectPlan.DropsRow : Prop :=
  plan.count ≠ -1 ∧ (1 ≤ plan.offset ∨ plan.offset = 0 ∧ toInt64 (plan.offset + plan.count) = 0)

def SelectPlan.KeepsRow : Prop :=
  plan.count = -1 ∨ plan.offset = 0 ∧ 1 ≤ toInt64 (plan.offset + plan.count)

structure SelectPlan.MergesSafely : Prop where
  aggregates : ∀ e ∈ plan.aggregateFuncs, ∃ t, types[e.1]? = some t ∧ e.2.Accepts t
  single : plan.Single → plan.DropsRow ∨ plan.ReturnsRow ∧ plan.KeepsRow
  limit : ¬ plan.Single → plan.LimitFits

/-- Column `k` of the result is one that rows are grouped by. -/
def SelectPlan.GroupsByColumn (k : Nat) : Prop := ∃ i ∈ plan.groupByColumn, i + types.length = k + plan.columnCount

structure SelectPlan.FitsIn (kept : Nat) : Prop where
  origin : plan.originColumnCount ≤ plan.columnCount
  width : plan.columnCount ≤ types.length
  kept : plan.keptColumns types.length = kept
  group : ∀ i ∈ plan.groupByColumn, i < plan.columnCount
  order : ∀ i ∈ plan.orderByColumn, i < plan.columnCount
  nodup : (plan.aggregateFuncs.map Prod.fst).Nodup
  aggregates : ∀ e ∈ plan.aggregateFuncs, e.1 < plan.originColumnCount

end Plan

variable {plan : SelectPlan}

section Layout

variable {p : TableAliasStmtInfo} {stmt : SelectStmt Parsed} {fs : List (SelectField Planned)}

theorem length_le_columnsOf {wildcard : CIStr → CIStr → Nat} (hwild : ∀ schema table, 0 < wildcard schema table)
    (fields : List (SelectField Planned)) : fields.length ≤ columnsOf wildcard fields := by
  induction fields with
  | nil => exact le_rfl
  | cons f fields ih =>
    have hsum : columnsOf wildcard (f :: fields) = f.width wildcard + columnsOf wildcard fields := rfl
    have hf : 0 < f.width wildcard := by
      cases f with
      | wildcard schema table => exact hwild schema table
      | expr e asName => exact Nat.one_pos
    rw [hsum, length_cons]
    omega

theorem SelectLayout.lt_of_found (h : SelectLayout p stmt plan fs) {i : Nat} {f : SelectField Planned}
    (hfound : FoundAt fs.length (selectFieldIndexes 0 [] fs) plan.stmt.fields i f) : i < plan.columnCount := by
  rw [h.count]
  cases hfound with
  | selected hget =>
    have hle : fs.length ≤ plan.stmt.fields.length := h.front.length_le
    rcases selectFieldIndexes_last hget with ⟨hnil, _⟩ | ⟨front, f, back, rfl, rfl, _⟩
    · cases hnil
    · rw [length_append, length_cons] at hle
      omega
  | appended _ hget _ => exact (List.getElem?_eq_some_iff.1 hget).1

theorem SelectLayout.fitsIn (h : SelectLayout p stmt plan fs) {wildcard : CIStr → CIStr → Nat}
    {types : List ColumnType}
    (hwild : ∀ schema table, 0 < wildcard schema table)
    (htypes : types.length = columnsOf wildcard plan.stmt.fields) :
    plan.FitsIn types (columnsOf wildcard (plan.stmt.fields.take plan.originColumnCount)) := by
  have horigin : plan.originColumnCount ≤ plan.columnCount := by
    rw [h.origin, h.count]
    exact h.front.length_le
  have hsplit : columnsOf wildcard plan.stmt.fields = columnsOf wildcard
    (plan.stmt.fields.take plan.originColumnCount) +
      columnsOf wildcard (plan.stmt.fields.drop plan.originColumnCount) := by
    rw [← columnsOf_append, take_append_drop]
  have hbehind : ∀ f ∈ plan.stmt.fields.drop plan.originColumnCount, ¬ f.IsWildcard := by
    intro f hf hwild
    rw [h.origin] at hf
    obtain ⟨e, asName, rfl, _⟩ := h.appended hf
    exact hwild
  have hfound : ∀ {indexes : List Nat} {items : List (SelectField Planned)},
      Forall₂ (FoundAt fs.length (selectFieldIndexes 0 [] fs) plan.stmt.fields) indexes items →
      ∀ i ∈ indexes, i < plan.columnCount := by
    intro indexes items hitems i hi
    obtain ⟨f, _, hfound⟩ := exists_of_mem hitems hi
    exact h.lt_of_found hfound
  obtain ⟨hnodup, _, hmem⟩ := aggregateMergers_spec h.aggregates
  rw [columnsOf_of_forall hbehind, length_drop, ← h.count] at hsplit
  refine ⟨horigin, ?_, ?_, hfound h.groupColumns, hfound h.orderColumns, hnodup, ?_⟩
  · rw [htypes, h.count]
    exact length_le_columnsOf hwild _
  · unfold SelectPlan.keptColumns
    rw [htypes, hsplit]
    omega
  · rintro ⟨i, f⟩ he
    obtain ⟨fn, parts, asName, hget, _⟩ := (hmem i f).1 (by rwa [Nat.zero_add])
    rw [h.origin]
    exact (List.getElem?_eq_some_iff.1 hget).1

end Layout

/-! ### The steps on typed rows -/

structure TypedResult (types : List ColumnType) (r : Result) : Prop where
  fields : r.fields.length = types.length
  rows : ∀ row ∈ r.values, RowTyped types row

theorem TypedResult.tabular {r : Result} (h : TypedResult types r) : r.Tabular types.length :=
  ⟨h.fields, fun row hrow => (h.rows row hrow).length_eq.symm⟩

variable {kept : Nat}

section Steps

variable {r : Result} (go : Runtime)

section

variable (hfits : plan.FitsIn types kept)

include hfits

theorem SelectPlan.FitsIn.kept_le : kept ≤ types.length := by
  rw [← hfits.kept]
  exact Nat.sub_le _ _

theorem SelectPlan.FitsIn.shift (hr : r.fields.length = types.length) {i : Nat}
    (hi : i < plan.columnCount) :
    0 ≤ (i : Int) + deltaColumnCount plan r ∧ (i : Int) + deltaColumnCount plan r < types.length := by
  have := hfits.width
  unfold deltaColumnCount
  rw [hr]
  omega

theorem SelectPlan.FitsIn.groupColumns (hr : r.fields.length = types.length) :
    ∀ i ∈ plan.groupColumnsIn r, 0 ≤ i ∧ i < types.length := by
  intro i hi
  obtain ⟨index, hindex, rfl⟩ := mem_map.1 hi
  exact hfits.shift hr (hfits.group index hindex)

theorem SelectPlan.FitsIn.distinctColumns (hr : r.fields.length = types.length) :
    plan.originColumnCount + deltaColumnCount plan r = kept := by
  have := hfits.width
  have := hfits.origin
  rw [← hfits.kept]
  unfold deltaColumnCount SelectPlan.keptColumns
  rw [hr]
  omega

theorem distinct_typed (hr : TypedResult types r) :
    ∃ r', (if plan.stmt.distinct then removeDistinctRowInResult go plan r else .ok r) = .ok r' ∧
    TypedResult types r' ∧ r'.values.Sublist r.values ∧ (r.values ≠ [] → r'.values ≠ []) := by
  split
  · obtain ⟨rows, hrows, hsub, hne⟩ := distinctRows_sublist go (n := kept)
      (fun row hrow => (hr.rows row hrow).length_eq ▸ hfits.kept_le) []
    refine ⟨{ r with values := rows }, ?_, ⟨hr.fields, fun row hrow => hr.rows row (hsub.subset hrow)⟩, hsub, hne rfl⟩
    unfold removeDistinctRowInResult
    rw [hfits.distinctColumns hr.fields, hrows]
    rfl
  · exact ⟨r, rfl, hr, .refl _, id⟩

theorem group_typed
    (haggregates : ∀ e ∈ plan.aggregateFuncs, ∃ t, types[e.1]? = some t ∧ e.2.Accepts t) (hr : TypedResult types r) :
    ∃ r', (if plan.stmt.groupBy.isSome then buildSelectGroupByResult go plan r else buildSelectOnlyResult plan r) =
      .ok r' ∧
      r'.fields = r.fields ∧ (plan.Single → r'.values.length = 1) ∧
      (¬ plan.Single ∨ r.values ≠ [] → TypedResult types r') := by
  split
  · next hgroup =>
    have hsingle : ¬ plan.Single := fun h => by simp [h.1] at hgroup
    obtain ⟨m, hm, htyped⟩ := groupRows_typed go hfits.nodup haggregates (hfits.groupColumns hr.fields)
      hr.rows (m := []) (fun e he => by cases he)
    unfold buildSelectGroupByResult
    refine ⟨if m.isEmpty then r else { r with values := go.range (m.map Prod.snd) }, ?_, ?_,
      fun h => absurd h hsingle, fun _ => ?_⟩
    · refine bind_eq_ok.2 ⟨m, hm, ?_⟩
      split <;> rfl
    · split <;> rfl
    · split
      · exact hr
      · refine ⟨hr.fields, fun row hrow => ?_⟩
        obtain ⟨e, he, rfl⟩ := mem_map.1 ((go.range_perm _).mem_iff.1 hrow)
        exact htyped e he
  · next hgroup =>
    unfold buildSelectOnlyResult
    by_cases hnone : plan.aggregateFuncs = []
    · rw [hnone]
      exact ⟨r, rfl, rfl, fun h => absurd hnone h.2, fun _ => hr⟩
    · rw [if_neg (by simpa using hnone)]
      have hsingle : plan.Single := ⟨Option.not_isSome_iff_eq_none.1 (by simpa using hgroup), hnone⟩
      cases hvalues : r.values with
      | nil => exact ⟨_, rfl, rfl, fun _ => rfl, fun h => absurd h (by simp [hsingle])⟩
      | cons row rows =>
        obtain ⟨hrow, hrows⟩ := forall_mem_cons.1 (hvalues ▸ hr.rows)
        obtain ⟨acc, hacc, htyped⟩ := mergeRows_typed hfits.nodup haggregates hrows hrow
        refine ⟨{ r with values := [acc] }, bind_eq_ok.2 ⟨acc, hacc, rfl⟩, rfl, fun _ => rfl,
          fun _ => ⟨hr.fields, ?_⟩⟩
        exact forall_mem_singleton.2 htyped

theorem sortSelectResult_typed (hr : TypedResult types r) :
    ∃ r', sortSelectResult go plan r = .ok r' ∧ TypedResult types r' ∧ r'.values.length = r.values.length := by
  obtain ⟨s, hs, hsorted⟩ := sortSelectResult_spec go (p := plan) (r := r) fun a ha b hb k hk => by
    obtain ⟨i, hi, hcolumn⟩ := exists_of_mem_sortKeys hk
    obtain ⟨hlow, hhigh⟩ := hfits.shift hr.fields (hfits.order i hi)
    rw [hcolumn]
    obtain ⟨t, x, ht, hx, hxtype⟩ := (hr.rows a ha).cell hlow hhigh
    obtain ⟨t', y, ht', hy, hytype⟩ := (hr.rows b hb).cell hlow hhigh
    obtain rfl := Option.mem_unique ht ht'
    exact ⟨x, y, hx, hy, hxtype.comparable hytype⟩
  obtain ⟨_, hperm⟩ := sortSelectResult_perm go hs
  exact ⟨_, hs, ⟨hr.fields, fun row hrow => hr.rows row (hperm.mem_iff.1 hrow)⟩, hperm.length_eq⟩

end

theorem sortSelectResult_short (hshort : go.SortsShort) (hlength : r.values.length ≤ 1) :
    sortSelectResult go plan r = .ok r := by
  unfold sortSelectResult
  split
  · rfl
  · rw [hshort _ _ hlength]
    rfl

theorem limitSelectResult_fits (h : plan.LimitFits) :
    ∃ r', limitSelectResult plan r = .ok r' ∧ r'.fields = r.fields ∧ ∀ row ∈ r'.values, row ∈ r.values := by
  unfold limitSelectResult
  split
  · exact ⟨r, rfl, rfl, fun _ h => h⟩
  · next hcount =>
    obtain ⟨hoffset, hle⟩ := h.resolve_left hcount
    simp only
    split
    · exact ⟨_, rfl, rfl, fun row hrow => by cases hrow⟩
    · rw [if_pos (by omega)]
      exact ⟨_, rfl, rfl, fun row hrow => mem_of_mem_take (mem_of_mem_drop hrow)⟩

theorem limitSelectResult_single (plan : SelectPlan) (hlength : r.values.length = 1) :
    (plan.DropsRow → limitSelectResult plan r = .ok { r with values := [] }) ∧
    (plan.KeepsRow → limitSelectResult plan r = .ok r) ∧
    (¬ plan.DropsRow → ¬ plan.KeepsRow → ∀ r', limitSelectResult plan r ≠ .ok r') := by
  obtain ⟨row, hrow⟩ := length_eq_one_iff.1 hlength
  unfold SelectPlan.DropsRow SelectPlan.KeepsRow limitSelectResult
  refine ⟨fun hdrop => ?_, fun hkeep => ?_, fun hdrop hkeep r' => ?_⟩
  · rw [if_neg hdrop.1]
    simp only [hlength, Nat.cast_one]
    rcases hdrop.2 with hoffset | ⟨hoffset, hlast⟩
    · rw [if_pos hoffset]
    · rw [if_neg (by omega), if_pos (by omega), hlast, hoffset]
      rfl
  · split
    · rfl
    · next hcount =>
      obtain ⟨hoffset, hlast⟩ := hkeep.resolve_left hcount
      simp only [hlength, Nat.cast_one]
      rw [if_neg (by omega), if_pos (by omega), min_eq_right hlast, hoffset, hrow]
      simp only [Int.toNat_one, Int.toNat_zero, take_one, drop_zero, head?_cons, Option.toList_some]
      rw [← hrow]
  · rw [if_neg fun hcount => hkeep (.inl hcount)]
    simp only [hlength, Nat.cast_one]
    have hcount : plan.count ≠ -1 := fun hcount => hkeep (.inl hcount)
    rw [if_neg (fun hoffset => hdrop ⟨hcount, .inl hoffset⟩), if_neg]
    · exact nofun
    · rintro ⟨hoffset, hlast⟩
      have hzero : plan.offset = 0 := by
        have : ¬ 1 ≤ plan.offset := fun hoffset => hdrop ⟨hcount, .inl hoffset⟩
        omega
      rcases Int.lt_or_le (toInt64 (plan.offset + plan.count)) 1 with hlt | hge
      · exact hdrop ⟨hcount, .inr ⟨hzero, by omega⟩⟩
      · exact hkeep (.inr ⟨hzero, hge⟩)

theorem SelectPlan.ShardResults.merged {rs : List Result} (h : plan.ShardResults types rs) :
    ∃ r, mergeMultiResultSet rs = .ok r ∧ TypedResult types r ∧ (plan.ReturnsRow → r.values ≠ []) := by
  obtain ⟨names, hnames, hfields⟩ := h.fields
  obtain ⟨r, hr, htab, hvalues⟩ := mergeMultiResultSet_spec (n := types.length) h.nonempty fun r hr =>
    ⟨(congrArg _ (hfields r hr)).trans hnames, fun row hrow => (h.rows r hr row hrow).length_eq.symm⟩
  refine ⟨r, hr, ⟨htab.fields, fun row hrow => ?_⟩, fun hreturns hnil => ?_⟩
  · rw [hvalues] at hrow
    obtain ⟨values, hmem, hrow⟩ := mem_flatten.1 hrow
    obtain ⟨r', hr', rfl⟩ := mem_map.1 hmem
    exact h.rows r' hr' row hrow
  · obtain ⟨r', hr'⟩ := exists_mem_of_ne_nil rs h.nonempty
    rw [hvalues, flatten_eq_nil_iff] at hnil
    exact h.row hreturns r' hr' (hnil _ (mem_map_of_mem hr'))

theorem SelectPlan.MergesSafely.alwaysMerges (h : plan.MergesSafely types) (hfits : plan.FitsIn types kept) :
    plan.AlwaysMerges types kept := by
  intro go hshort rs hrs
  obtain ⟨r₀, h₀, htyped₀, hreturns₀⟩ := hrs.merged
  obtain ⟨r₁, h₁, htyped₁, _, hne₁⟩ := distinct_typed go hfits htyped₀
  obtain ⟨r₂, h₂, hfields₂, hone, htyped₂⟩ := group_typed go hfits h.aggregates htyped₁
  have hfinish : ∀ {r : Result}, r.Tabular types.length → ∃ res, finishResult go plan r = .ok res ∧
      res.Tabular kept := by
    intro r htab
    obtain ⟨res, hres, htab, _⟩ := finishResult_wide go htab hfits.width hfits.origin
    exact ⟨res, hres, hfits.kept ▸ htab⟩
  by_cases hsingle : plan.Single
  · -- one row, which may have no columns
    rw [mergeSelectResult_of_steps go h₀ h₁ h₂ (sortSelectResult_short go hshort (hone hsingle).le)]
    obtain ⟨hdrops, hkeeps, _⟩ := limitSelectResult_single plan (hone hsingle)
    rcases h.single hsingle with hdrop | ⟨hreturns, hkeep⟩
    · rw [hdrops hdrop]
      exact hfinish ⟨(congrArg _ hfields₂).trans htyped₁.fields, fun row hrow => by cases hrow⟩
    · rw [hkeeps hkeep]
      exact hfinish (htyped₂ (.inr (hne₁ (hreturns₀ hreturns)))).tabular
  · obtain ⟨r₃, h₃, htyped₃, _⟩ := sortSelectResult_typed go hfits (htyped₂ (.inl hsingle))
    obtain ⟨r₄, h₄, hfields₄, hsub⟩ := limitSelectResult_fits (r := r₃) (h.limit hsingle)
    rw [mergeSelectResult_of_steps go h₀ h₁ h₂ h₃, h₄]
    refine hfinish ⟨(congrArg _ hfields₄).trans htyped₃.fields, fun row hrow => ?_⟩
    exact (htyped₃.rows row (hsub row hrow)).length_eq.symm

end Steps

/-! ### Results that cannot be merged -/

/-- A value of a column whose text is the number `i`. -/
def ColumnType.value (i : Nat) : ColumnType → Cell
  | .int64 => .int64 i
  | .uint64 => .uint64 i
  | .float64 => .float64 i
  | .string => .string (ascii (toString (i : Int)))
  | .bytes => .bytes (ascii (toString (i : Int)))

/-- The row with the number `i` in each column. -/
def numberRow (types : List ColumnType) (i : Nat) : ResultRow := types.map (ColumnType.value i)

theorem ColumnType.value_ofType (t : ColumnType) (i : Nat) : (t.value i).OfType t := by
  cases t <;> exact .inr rfl

theorem formatValue_value (t : ColumnType) (i : Nat) :
    formatValue .short (t.value i) = ascii (toString (i : Int)) := by
  cases t with
  | float64 =>
    have hint : toString ((i : ℕ) : ℚ) = toString (i : Int) := by
      show (if ((i : ℕ) : ℚ).den = 1 then _ else _) = _
      rw [if_pos (Rat.den_natCast i)]
      rfl
    exact congrArg ascii hint
  | _ => rfl

theorem numberRow_typed (types : List ColumnType) (i : Nat) : RowTyped types (numberRow types i) :=
  forall₂_map_right_iff.2 (forall₂_same.2 fun t _ => t.value_ofType i)

theorem getElem?_numberRow (h : types[k]? = some t) (i : Nat) :
    (numberRow types i)[k]? = some (t.value i) := by
  unfold numberRow
  rw [getElem?_map, h]
  rfl

theorem cell_numberRow {k : Int} (hk : 0 ≤ k) (ht : types[k.toNat]? = some t) (i : Nat) :
    (numberRow types i).cell k = .ok (t.value i) := by
  unfold ResultRow.cell
  rw [if_pos hk, getElem?_numberRow ht]

theorem separator_not_mem_value (t : ColumnType) (i : Nat) : (43 : UInt8) ∉ formatValue .short (t.value i) := by
  intro hmem
  rw [formatValue_value] at hmem
  rcases mem_ascii_int hmem with h | h
  · cases h
  · exact absurd h.1 (by decide)

theorem exists_of_mem_numberRow {c : Cell} (h : c ∈ numberRow types i) :
    ∃ t : ColumnType, c = t.value i := by
  obtain ⟨t, _, rfl⟩ := mem_map.1 h
  exact ⟨t, rfl⟩

theorem key_ne_of_cell {u v : List Cell} {j : Nat} (hlength : u.length = v.length)
    (hplus : ∀ c ∈ u, ∃ t : ColumnType, c = t.value i) (hu : u[k]? = some (t.value i)) (hv : v[k]? = some (t.value j))
    (hne : i ≠ j) : generateMapKey .short u ≠ generateMapKey .short v := by
  intro h
  have hplus : ∀ c ∈ u, (43 : UInt8) ∉ formatValue .short c := by
    intro c hc
    obtain ⟨t', rfl⟩ := hplus c hc
    exact separator_not_mem_value t' i
  have htexts := (forall₂_iff_getElem?.1 (forall₂_of_key_eq _ hlength h hplus)).2 k _ _ hu hv
  rw [formatValue_value, formatValue_value] at htexts
  exact hne (Int.ofNat_inj.1 (ascii_int_injective htexts))

theorem merge_of_mergeRow {v : ResultRow} {fs : List (Nat × AggregateFunc)} :
    ∀ {acc : ResultRow}, (fs.map Prod.fst).Nodup → mergeRow fs v acc = .ok row →
      ∀ e ∈ fs, ∃ a b c, v[e.1]? = some a ∧ acc[e.1]? = some b ∧ e.2.merge a b = .ok c := by
  induction fs with
  | nil => exact fun _ _ e he => by cases he
  | cons e fs ih =>
    obtain ⟨idx, f⟩ := e
    intro acc hnodup h
    obtain ⟨hidx, hnodup⟩ := nodup_cons.1 hnodup
    obtain ⟨acc', hstep, hrest⟩ := bind_eq_ok.1 h
    obtain ⟨a, b, c, ha, hb, hc, rfl⟩ : ∃ a b c, v[idx]? = some a ∧ acc[idx]? = some b ∧ f.merge a b = .ok c ∧
        acc' = acc.set idx c := by
      have hstep := wrapErr_eq_ok.1 hstep
      unfold mergeTo at hstep
      split at hstep
      · next a b ha hb =>
        obtain ⟨c, hc, hset⟩ := bind_eq_ok.1 hstep
        cases hset
        exact ⟨a, b, c, ha, hb, hc, rfl⟩
      · cases hstep
    intro e he
    rcases mem_cons.1 he with rfl | htail
    · exact ⟨a, b, c, ha, hb, hc⟩
    · obtain ⟨a', b', c', ha', hb', hc'⟩ := ih hnodup hrest e htail
      have hne : idx ≠ e.1 := by
        rintro rfl
        exact hidx (mem_map.2 ⟨e, htail, rfl⟩)
      exact ⟨a', b', c', ha', by rwa [getElem?_set_ne hne] at hb', hc'⟩

section Necessary

variable {values : List ResultRow}

def resultOf (types : List ColumnType) (values : List ResultRow) : Result :=
  { fields := replicate types.length "", values }

theorem typedResult_resultOf (h : ∀ row ∈ values, RowTyped types row) :
    TypedResult types (resultOf types values) := ⟨length_replicate, h⟩

theorem shardResults_resultOf (h : ∀ row ∈ values, RowTyped types row)
    (hreturns : plan.ReturnsRow → values ≠ []) : plan.ShardResults types [resultOf types values] :=
  { nonempty := cons_ne_nil _ _
    fields := ⟨_, length_replicate, forall_mem_singleton.2 rfl⟩
    rows := forall_mem_singleton.2 h
    row := fun hplan => forall_mem_singleton.2 (hreturns hplan) }

theorem distinct_resultOf (hfits : plan.FitsIn types kept) (h : ∀ row ∈ values, RowTyped types row)
    (hnodup : plan.stmt.distinct → (values.map fun row => generateMapKey .short (row.take kept)).Nodup) :
    (if plan.stmt.distinct then removeDistinctRowInResult .short plan (resultOf types values)
      else .ok (resultOf types values)) =
      .ok (resultOf types values) := by
  split
  · next hdistinct =>
    unfold removeDistinctRowInResult
    rw [hfits.distinctColumns length_replicate]
    have hrows : distinctRows .short kept [] values = .ok values :=
      distinctRows_of_nodup .short (fun row hrow => (h row hrow).length_eq ▸ hfits.kept_le) [] (hnodup hdistinct)
    show distinctRows _ _ _ values >>= _ = _
    rw [hrows]
    rfl
  · rfl

/-- The rows with the numbers below `n`. -/
def numberRows (types : List ColumnType) (n : Nat) : List ResultRow := (range n).map (numberRow types)

theorem numberRows_typed : ∀ row ∈ numberRows types n, RowTyped types row := by
  intro row hrow
  obtain ⟨i, _, rfl⟩ := mem_map.1 hrow
  exact numberRow_typed types i

theorem nodup_keys_numberRows (key : ResultRow → List Cell) {k : Nat}
    (hcells : ∀ i, ∀ c ∈ key (numberRow types i), ∃ t : ColumnType, c = t.value i)
    (hlength : ∀ i j, (key (numberRow types i)).length = (key (numberRow types j)).length)
    (hkey : ∀ i, (key (numberRow types i))[k]? = some (t.value i)) :
    ((numberRows types n).map fun row => generateMapKey .short (key row)).Nodup := by
  unfold numberRows
  rw [map_map]
  refine nodup_range.map fun i j hij => by_contra fun hne => ?_
  exact key_ne_of_cell (hlength i j) (hcells i) (hkey i) (hkey j) hne hij

section

variable (hfits : plan.FitsIn types kept)

include hfits

theorem distinct_numberRows (hkept : 0 < kept) (n : Nat) :
    (if plan.stmt.distinct then removeDistinctRowInResult .short plan (resultOf types (numberRows types n))
      else .ok (resultOf types (numberRows types n))) = .ok (resultOf types (numberRows types n)) := by
  obtain ⟨t, hfirst⟩ : ∃ t, types[0]? = some t := ⟨_, getElem?_eq_getElem (hkept.trans_le hfits.kept_le)⟩
  refine distinct_resultOf hfits numberRows_typed fun _ => nodup_keys_numberRows (List.take kept) (k := 0)
    (t := t) ?_ ?_ ?_
  · exact fun i c hc => exists_of_mem_numberRow (mem_of_mem_take hc)
  · exact fun i j => by simp [numberRow]
  · intro i
    rw [getElem?_take_of_lt hkept, getElem?_numberRow hfirst]

theorem group_numberRows (hsingle : ¬ plan.Single)
    (hgroup : plan.stmt.groupBy.isSome → plan.groupByColumn ≠ []) (hn : 0 < n) :
    (if plan.stmt.groupBy.isSome then buildSelectGroupByResult .short plan (resultOf types (numberRows types n))
      else buildSelectOnlyResult plan (resultOf types (numberRows types n))) =
        .ok (resultOf types (numberRows types n)) := by
  split
  · next hsome =>
    obtain ⟨k, columns, hcolumns⟩ : ∃ k columns, plan.groupColumnsIn (resultOf types (numberRows types n)) =
      k :: columns :=
      exists_cons_of_ne_nil fun hnil => hgroup hsome (map_eq_nil_iff.1 hnil)
    have hrange : ∀ k' ∈ k :: columns, 0 ≤ k' ∧ k' < types.length := by
      rw [← hcolumns]
      exact hfits.groupColumns length_replicate
    have hat : ∀ k' ∈ k :: columns, ∃ t : ColumnType, ∀ i, (numberRow types i).at k' = t.value i := by
      intro k' hk'
      obtain ⟨hlow, hhigh⟩ := hrange k' hk'
      obtain ⟨t, _, ht, _⟩ := (numberRow_typed types 0).cell hlow hhigh
      exact ⟨t, fun i => ResultRow.at_eq (cell_numberRow hlow ht i)⟩
    obtain ⟨t, ht⟩ := hat k mem_cons_self
    have hgroups := groupRows_of_nodup .short plan.aggregateFuncs (k :: columns)
      (fun row => (k :: columns).map row.at) (m := [])
      (fun row hrow => mapM_cell_typed hrange (numberRows_typed row hrow))
      (nodup_keys_numberRows _ (n := n) (k := 0) (t := t) (fun i c hc => by
          obtain ⟨k', hk', rfl⟩ := mem_map.1 hc
          obtain ⟨t', ht'⟩ := hat k' hk'
          exact ⟨t', ht' i⟩) (fun i j => by simp) fun i => congrArg some (ht i))
    refine bind_eq_ok.2 ⟨_, (congrArg (groupRows _ _ · _ _) hcolumns).trans hgroups, ?_⟩
    have hpairs : ((numberRows types n).map fun row => (generateMapKey .short ((k :: columns).map row.at), row)).map
      Prod.snd =
        numberRows types n := by
      rw [map_map]
      exact map_id _
    rw [nil_append, if_neg]
    · rw [hpairs]
      rfl
    · simp [numberRows, hn.ne']
  · next hnone =>
    have hempty : plan.aggregateFuncs = [] := by
      by_contra hne
      exact hsingle ⟨Option.not_isSome_iff_eq_none.1 (by simpa using hnone), hne⟩
    unfold buildSelectOnlyResult
    rw [hempty]
    rfl

theorem group_single {row : ResultRow} (hrow : RowTyped types row) :
    (if plan.stmt.groupBy.isSome then buildSelectGroupByResult .short plan (resultOf types [row])
      else buildSelectOnlyResult plan (resultOf types [row])) = .ok (resultOf types [row]) := by
  split
  · have hcells := mapM_cell_typed (hfits.groupColumns (r := resultOf types [row]) length_replicate) hrow
    have hgroups := groupRows_of_nodup .short plan.aggregateFuncs (plan.groupColumnsIn (resultOf types [row]))
      (fun row' => (plan.groupColumnsIn (resultOf types [row])).map row'.at) (m := []) (forall_mem_singleton.2 hcells)
      (nodup_singleton _)
    exact bind_eq_ok.2 ⟨_, hgroups, rfl⟩
  · unfold buildSelectOnlyResult
    split <;> rfl

theorem SelectPlan.AlwaysMerges.limitFits (h : plan.AlwaysMerges types kept) (hkept : 0 < kept)
    (hsingle : ¬ plan.Single) (hgroup : plan.stmt.groupBy.isSome → plan.groupByColumn ≠ []) : plan.LimitFits := by
  have hlength : (numberRows types (plan.offset.toNat + 1)).length = plan.offset.toNat + 1 := by simp [numberRows]
  obtain ⟨r₃, h₃, _, hlength₃⟩ := sortSelectResult_typed .short hfits
    (typedResult_resultOf (numberRows_typed (n := plan.offset.toNat + 1)))
  obtain ⟨res, hres, _⟩ := h .short Runtime.short_sortsShort _
    (shardResults_resultOf (numberRows_typed (n := plan.offset.toNat + 1)) fun hreturns => absurd hreturns.1 hsingle)
  rw [mergeSelectResult_of_steps .short rfl (distinct_numberRows hfits hkept _)
    (group_numberRows hfits hsingle hgroup (Nat.succ_pos _)) h₃] at hres
  obtain ⟨r₄, h₄, _⟩ := bind_eq_ok.1 hres
  have hlength₃ : r₃.values.length = plan.offset.toNat + 1 := hlength₃.trans hlength
  rcases limitSelectResult_length h₄ with ⟨hcount, _⟩ | ⟨_, ⟨hshort, _⟩ | ⟨hoffset, hlast, _⟩⟩
  · exact .inl hcount
  · omega
  · exact .inr ⟨hoffset, hlast⟩

theorem trimExtraFields_nil (hkept : 0 < kept) (r : Result) :
    trimExtraFields plan (resultOf types [[]]) ≠ .ok r := by
  intro h
  have hstart : deltaColumnCount plan (resultOf types [[]]) + plan.originColumnCount = kept := by
    rw [add_comm, hfits.distinctColumns length_replicate]
  unfold trimExtraFields at h
  rw [hstart] at h
  simp only at h
  rw [if_pos (by omega)] at h
  obtain ⟨_, _, h⟩ := bind_eq_ok.1 h
  obtain ⟨values, hvalues, _⟩ := bind_eq_ok.1 h
  obtain ⟨row, _, hrow⟩ := exists_of_mem (mapM_eq_ok.1 hvalues) (mem_singleton_self [])
  unfold sliceTo at hrow
  rw [if_neg (by rw [length_nil]; omega)] at hrow
  cases hrow

/-- The row that is made of no rows has to be dropped, and a single merged row may not stand in the limit's way. -/
theorem SelectPlan.AlwaysMerges.single (h : plan.AlwaysMerges types kept) (hsingle : plan.Single)
    (hkept : 0 < kept) : plan.DropsRow ∨ plan.ReturnsRow ∧ plan.KeepsRow := by
  obtain ⟨hgroup, haggregates⟩ := hsingle
  have honly : ∀ r, (if plan.stmt.groupBy.isSome then buildSelectGroupByResult .short plan r
    else buildSelectOnlyResult plan r) =
      buildSelectOnlyResult plan r := by
    intro r
    rw [hgroup]
    rfl
  by_cases hdrop : plan.DropsRow
  · exact .inl hdrop
  refine .inr ?_
  by_cases hreturns : plan.ReturnsRow
  · -- one row from one shard
    refine ⟨hreturns, by_contra fun hkeep => ?_⟩
    have htyped : ∀ row ∈ [numberRow types 0], RowTyped types row := forall_mem_singleton.2 (numberRow_typed types 0)
    obtain ⟨res, hres, _⟩ :=
      h .short Runtime.short_sortsShort _ (shardResults_resultOf htyped fun _ => cons_ne_nil _ _)
    have h₁ := distinct_resultOf hfits htyped fun _ => nodup_singleton _
    rw [mergeSelectResult_of_steps .short rfl h₁ (group_single hfits (numberRow_typed types 0))
      (sortSelectResult_short .short Runtime.short_sortsShort le_rfl)] at hres
    obtain ⟨r', hr', _⟩ := bind_eq_ok.1 hres
    exact (limitSelectResult_single plan rfl).2.2 hdrop hkeep r' hr'
  · -- no row from the shards
    exfalso
    have hnil : ∀ row ∈ ([] : List ResultRow), RowTyped types row := fun row hrow => by cases hrow
    obtain ⟨res, hres, _⟩ :=
      h .short Runtime.short_sortsShort _ (shardResults_resultOf hnil fun hplan => absurd hplan hreturns)
    have h₁ := distinct_resultOf hfits hnil fun _ => nodup_nil
    have h₂ : buildSelectOnlyResult plan (resultOf types []) = .ok (resultOf types [[]]) := by
      unfold buildSelectOnlyResult
      rw [if_neg (by simpa using haggregates)]
      rfl
    rw [mergeSelectResult_of_steps .short rfl h₁ ((honly _).trans h₂)
      (sortSelectResult_short .short Runtime.short_sortsShort le_rfl)] at hres
    obtain ⟨r', hr', hres⟩ := bind_eq_ok.1 hres
    obtain ⟨_, hkeeps, hneither⟩ := limitSelectResult_single plan (r := resultOf types [[]]) rfl
    by_cases hkeep : plan.KeepsRow
    · obtain rfl := ok_unique (hkeeps hkeep) hr'
      obtain ⟨trimmed, htrimmed, _⟩ := bind_eq_ok.1 hres
      exact trimExtraFields_nil hfits hkept trimmed (wrapErr_eq_ok.1 htrimmed)
    · exact hneither hdrop hkeep r' hr'

/-- A row of numbers in the group of the first one, and with another text if duplicates are dropped. -/
theorem exists_row_of_group (hdistinct : plan.stmt.distinct → ∃ k < kept, ¬ plan.GroupsByColumn types k) {idx : Nat}
    (ht : types[idx]? = some t) :
    ∃ row, RowTyped types row ∧ (∃ i, row[idx]? = some (t.value i)) ∧
      (∀ r : Result, r.fields.length = types.length →
        (plan.groupColumnsIn r).map row.at = (plan.groupColumnsIn r).map (numberRow types 0).at) ∧
      (plan.stmt.distinct → generateMapKey .short ((numberRow types 0).take kept) ≠ generateMapKey .short
        (row.take kept)) := by
  by_cases hd : plan.stmt.distinct
  · obtain ⟨k, hk, hgroup⟩ := hdistinct hd
    obtain ⟨t', ht'⟩ : ∃ t', types[k]? = some t' := ⟨_, getElem?_eq_getElem (hk.trans_le hfits.kept_le)⟩
    have hlength : k < (numberRow types 0).length := (List.getElem?_eq_some_iff.1 (getElem?_numberRow ht' 0)).1
    refine ⟨(numberRow types 0).set k (t'.value 1), ?_, ?_, ?_, fun _ => ?_⟩
    · refine forall₂_iff_getElem?.2 ⟨?_, fun i t c ht hc => ?_⟩
      · rw [length_set]
        exact (numberRow_typed types 0).length_eq
      · by_cases hi : k = i
        · subst hi
          rw [getElem?_set_self hlength] at hc
          obtain rfl := Option.some.inj hc
          obtain rfl := Option.mem_unique ht ht'
          exact t.value_ofType 1
        · rw [getElem?_set_ne hi, getElem?_numberRow ht] at hc
          obtain rfl := Option.some.inj hc
          exact t.value_ofType 0
    · by_cases hi : k = idx
      · subst hi
        obtain rfl := Option.mem_unique ht ht'
        exact ⟨1, getElem?_set_self hlength⟩
      · exact ⟨0, by rw [getElem?_set_ne hi, getElem?_numberRow ht]⟩
    · intro r hr
      refine map_congr_left fun i hi => ?_
      obtain ⟨index, hindex, rfl⟩ := mem_map.1 hi
      obtain ⟨hlow, _⟩ := hfits.shift hr (hfits.group index hindex)
      have hne : k ≠ ((index : Int) + deltaColumnCount plan r).toNat := by
        intro heq
        refine hgroup ⟨index, hindex, ?_⟩
        unfold deltaColumnCount at heq hlow
        omega
      unfold ResultRow.at ResultRow.cell
      rw [if_pos hlow, getElem?_set_ne hne, if_pos hlow]
    · refine key_ne_of_cell (k := k) (t := t') (i := 0) (j := 1) (by simp)
        (fun c hc => exists_of_mem_numberRow (mem_of_mem_take hc)) ?_ ?_ Nat.zero_ne_one
      · rw [getElem?_take_of_lt hk, getElem?_numberRow ht']
      · rw [getElem?_take_of_lt hk, getElem?_set_self hlength]
  · exact ⟨_, numberRow_typed types 0, ⟨0, getElem?_numberRow ht 0⟩, fun _ _ => rfl, fun h => absurd h hd⟩

/-- Two rows of one group are merged: each function has to accept two values of its column. -/
theorem SelectPlan.AlwaysMerges.accepts (h : plan.AlwaysMerges types kept)
    (hdistinct : plan.stmt.distinct → ∃ k < kept, ¬ plan.GroupsByColumn types k) {e : Nat × AggregateFunc}
    (he : e ∈ plan.aggregateFuncs) (ht : types[e.1]? = some t) :
    ∃ i j c, e.2.merge (t.value i) (t.value j) = .ok c := by
  have htyped : RowTyped types (numberRow types 0) := numberRow_typed types 0
  obtain ⟨row, hrow, ⟨i, hcell⟩, hsame, hother⟩ := exists_row_of_group hfits hdistinct ht
  have hrows : ∀ row' ∈ [numberRow types 0, row], RowTyped types row' := by
    intro row' hrow'
    rcases mem_pair.1 hrow' with rfl | rfl
    · exact htyped
    · exact hrow
  have h₁ := distinct_resultOf hfits hrows fun hd => by simpa using hother hd
  obtain ⟨res, hres, _⟩ := h .short Runtime.short_sortsShort _ (shardResults_resultOf hrows fun _ => cons_ne_nil _ _)
  obtain ⟨r₂, _, h₂, _⟩ := exists_group_of_merge .short rfl h₁ hres
  obtain ⟨acc, hacc⟩ : ∃ acc, mergeRow plan.aggregateFuncs row (numberRow types 0) = .ok acc := by
    split at h₂
    · have hcolumns := hfits.groupColumns (r := resultOf types [numberRow types 0, row]) length_replicate
      have hcells := mapM_cell_typed hcolumns htyped
      have hcells' := mapM_cell_typed hcolumns hrow
      rw [hsame _ length_replicate] at hcells'
      obtain ⟨m, hm, _⟩ := bind_eq_ok.1 h₂
      have hm : groupRows .short plan.aggregateFuncs
        (plan.groupColumnsIn (resultOf types [numberRow types 0, row])) []
        [numberRow types 0, row] = .ok m := hm
      rw [groupRows_new hcells rfl] at hm
      obtain ⟨cells, hcells₂, hm⟩ := bind_eq_ok.1 hm
      obtain rfl := ok_unique hcells' hcells₂
      simp only [AssocMap.get_set_self] at hm
      obtain ⟨acc, hacc, _⟩ := bind_eq_ok.1 hm
      exact ⟨acc, hacc⟩
    · unfold buildSelectOnlyResult at h₂
      rw [if_neg (by simpa using ne_nil_of_mem he)] at h₂
      obtain ⟨_, h₂, _⟩ := bind_eq_ok.1 h₂
      obtain ⟨acc, hacc, _⟩ := bind_eq_ok.1 h₂
      exact ⟨acc, hacc⟩
  obtain ⟨a, b, c, ha, hb, hc⟩ := merge_of_mergeRow hfits.nodup hacc e he
  obtain rfl := Option.mem_unique hcell ha
  obtain rfl := Option.mem_unique (getElem?_numberRow ht 0) hb
  exact ⟨i, 0, c, hc⟩

end

theorem AggregateFunc.accepts_of_merge {f : AggregateFunc} (hf : f = .max ∨ f = .min) {i j : Nat} {c : Cell}
    (h : f.merge (t.value i) (t.value j) = .ok c) : f.Accepts t := by
  rcases hf with rfl | rfl
  · rintro rfl
    cases h
  · rintro rfl
    cases h

end Necessary

/-- The merge never fails on what the shards return if the plan is safe.  If aggregate functions are merged in their
own columns, and `DISTINCT` does not keep the rows of a group apart from each other, nothing less will do.  The parser
makes no empty lists of fields and of `GROUP BY` items. -/
theorem merge_never_fails {p : TableAliasStmtInfo} {stmt : SelectStmt Parsed} {plan : SelectPlan}
    {wildcard : CIStr → CIStr → Nat}
    {types : List ColumnType} (hplan : handleSelectStmt p stmt = .ok plan) (hfields : stmt.fields ≠ [])
    (hgroup : stmt.groupBy ≠ some [])
    (hwild : ∀ schema table, 0 < wildcard schema table) (htypes : plan.ShardTypes types wildcard) :
    (plan.MergesSafely types →
      plan.AlwaysMerges types (columnsOf wildcard (plan.stmt.fields.take plan.originColumnCount))) ∧
    (NoWildcardBefore stmt →
      (stmt.distinct → ∃ k < columnsOf wildcard (plan.stmt.fields.take plan.originColumnCount),
        ¬ plan.GroupsByColumn types k) →
      plan.AlwaysMerges types (columnsOf wildcard (plan.stmt.fields.take plan.originColumnCount)) →
      plan.MergesSafely types) := by
  obtain ⟨p₁, fs, h⟩ := selectLayout_of_ok hplan
  have hfits := h.fitsIn hwild htypes.length
  refine ⟨fun hsafe => hsafe.alwaysMerges hfits, fun hwildcards hdistinct hmerges => ?_⟩
  have hkept : 0 < columnsOf wildcard (plan.stmt.fields.take plan.originColumnCount) := by
    refine lt_of_lt_of_le ?_ (length_le_columnsOf hwild _)
    have hle := h.front.length_le
    rw [length_take, h.origin, min_eq_left hle, ← h.fields.length_eq]
    exact length_pos_iff.2 hfields
  refine ⟨fun e he => ?_, fun hsingle => hmerges.single hfits hsingle hkept, fun hsingle => hmerges.limitFits hfits
    hkept hsingle ?_⟩
  · obtain ⟨i, f⟩ := e
    have hcolumn : i = resultColumn wildcard plan.stmt.fields i := h.aggregates_iff.2 hwildcards wildcard i f he
    obtain ⟨_, _, hmem⟩ := aggregateMergers_spec h.aggregates
    obtain ⟨fn, parts, asName, hget, hcreate⟩ := (hmem i f).1 (by rwa [Nat.zero_add])
    have hget : plan.stmt.fields[i]? = some (.expr (.aggregate fn parts) asName) := by
      rw [h.fields_eq, getElem?_append_left (List.getElem?_eq_some_iff.1 hget).1, hget]
    have hextremum : f = .max ∨ f = .min → ∃ t, types[i]? = some t ∧ f.Accepts t := by
      intro hf
      have hlt : i < types.length := (hfits.aggregates _ he).trans_le (hfits.origin.trans hfits.width)
      obtain ⟨_, _, _, hmerge⟩ := hmerges.accepts hfits (h.distinct ▸ hdistinct) he (getElem?_eq_getElem hlt)
      exact ⟨_, getElem?_eq_getElem hlt, AggregateFunc.accepts_of_merge hf hmerge⟩
    cases f with
    | count =>
      have htype := htypes.count i fn parts asName hget hcreate
      rw [← hcolumn] at htype
      exact ⟨.int64, htype, rfl⟩
    | sum =>
      have htype := htypes.sum i fn parts asName hget hcreate
      rw [← hcolumn] at htype
      exact ⟨.float64, htype, rfl⟩
    | max => exact hextremum (.inl rfl)
    | min => exact hextremum (.inr rfl)
  · intro hsome hnil
    have hcolumns := h.groupColumns
    obtain ⟨items, hitems⟩ := Option.isSome_iff_exists.1 hsome
    rw [hnil, hitems, forall₂_nil_left_iff, extraFields, map_eq_nil_iff] at hcolumns
    have hby := createSelectFieldsFromByItems_forall₂ h.groupBy
    rw [hitems, Option.getD_some, show items = [] from hcolumns, forall₂_nil_right_iff] at hby
    cases hstmt : stmt.groupBy with
    | none =>
      have hnone := h.groupBy
      rw [hstmt] at hnone
      cases (Except.ok.inj hnone).trans hitems
    | some items' =>
      rw [hstmt] at hby
      exact hgroup (hstmt.trans (congrArg some hby))

def countRows : Expr Parsed := .aggregate "COUNT" [.text (.text "COUNT("), .value (.int64 1), .text (.text ")")]

/-- `SELECT COUNT(1) FROM t`. -/
def selectCount (having : Option (Expr Parsed)) : SelectStmt Parsed :=
  { fields := [.expr countRows .empty], tableRefs := some (singleTable (unqualifiedTable "t") .empty), having }

theorem merge_never_fails_count : ∃ plan,
    handleSelectStmt (newTableAliasStmtInfo "db" hashRouter .insertion) (selectCount none) = .ok plan ∧
    plan.MergesSafely [.int64] ∧ plan.AlwaysMerges [.int64] 1 := by
  refine exists_ok_of (fun plan =>
    plan.stmt.fields = [.expr (.aggregate "COUNT" [.text (.text "COUNT("), .value (.int64 1), .text (.text ")")])
      .empty] ∧
    plan.aggregateFuncs = [(0, .count)] ∧ plan.stmt.groupBy = none ∧ plan.stmt.having = none ∧
    plan.stmt.limit = none ∧ plan.count = -1) ⟨_, rfl, rfl, rfl, rfl, rfl, rfl, rfl⟩ ?_
  rintro plan hplan ⟨hfields, haggregates, hgroup, hhaving, hlimit, hcount⟩
  have horigin : plan.originColumnCount = 1 := by
    obtain ⟨_, fs, h⟩ := selectLayout_of_ok hplan
    rw [h.origin, ← h.fields.length_eq]
    rfl
  have hsingle : plan.Single := ⟨hgroup, by rw [haggregates]; exact cons_ne_nil _ _⟩
  have htypes : plan.ShardTypes [.int64] fun _ _ => 1 := by
    refine ⟨?_, ?_, ?_⟩
    · rw [hfields]
      rfl
    · intro k fn parts asName hk _
      rw [hfields] at hk ⊢
      match k, hk with
      | 0, _ => rfl
    · intro k fn parts asName hk hcreate
      rw [hfields] at hk
      match k, hk with
      | 0, hk =>
        cases hk
        cases hcreate
  have hsafe : plan.MergesSafely [.int64] := by
    refine ⟨?_, fun _ => .inr ⟨⟨hsingle, hhaving, by rw [hlimit]; rfl⟩, .inl hcount⟩, fun h => absurd hsingle h⟩
    rw [haggregates]
    exact forall_mem_singleton.2 ⟨.int64, rfl, rfl⟩
  have hmerges := (merge_never_fails hplan (cons_ne_nil _ _) nofun (fun _ _ => Nat.one_pos) htypes).1 hsafe
  rw [columnsOf_one, hfields, horigin] at hmerges
  exact ⟨hsafe, hmerges⟩

/-- `SELECT COUNT(1) FROM t HAVING COUNT(1) > 0`, where no row of `t` is on any shard: the merge panics. -/
theorem merge_of_nothing_panics : ∃ plan,
    handleSelectStmt (newTableAliasStmtInfo "db" hashRouter .insertion)
      (selectCount (some (.binary .gt countRows (.value (.int64 0))))) = .ok plan ∧
    plan.ShardResults [.int64] [{ fields := ["COUNT(1)"], values := [] }, { fields := ["COUNT(1)"], values := [] }] ∧
    mergeSelectResult .short plan [{ fields := ["COUNT(1)"], values := [] },
      { fields := ["COUNT(1)"], values := [] }] = .error (.panic "slice bounds out of range") := by
  refine ⟨_, rfl, ⟨cons_ne_nil _ _, ⟨["COUNT(1)"], rfl, ?_⟩, ?_, ?_⟩, rfl⟩
  · intro r hr
    rcases mem_pair.1 hr with rfl | rfl <;> rfl
  · intro r hr row hrow
    rcases mem_pair.1 hr with rfl | rfl <;> cases hrow
  · rintro ⟨_, hhaving, _⟩
    cases hhaving

end DbProxy
