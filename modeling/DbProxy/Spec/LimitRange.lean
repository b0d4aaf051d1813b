import DbProxy.Spec.TopRows

/-!
# The range of a limit

Which limits are right for all data: those whose offset and count add up to a signed 64-bit number, and the limit
`0, 18446744073709551615`, whose count planning takes for "no limit" (`limitsRows_iff`).
-/

namespace DbProxy

open Fallible List


/-- Rows of `n` cells, with one type in each column.  A field has one column, a wildcard at least one. -/
structure Table (plan : SelectPlan) (n : Nat) (rows : List ResultRow) : Prop where
  columns : plan.columnCount ≤ n
  length : ∀ row ∈ rows, row.length = n
  typed : ∀ row ∈ rows, ∀ row' ∈ rows, Forall₂ Cell.comparable row row'

theorem Table.subset {plan : SelectPlan} {n : Nat} {rows rows' : List ResultRow} (h : Table plan n rows)
    (hsub : ∀ row ∈ rows', row ∈ rows) : Table plan n rows' where
  columns := h.columns
  length row hrow := h.length row (hsub row hrow)
  typed row hrow row' hrow' := h.typed row (hsub row hrow) row' (hsub row' hrow')

/-- Whatever the shards hold: each of them returns as many of its rows as the limit may need, and the merged result
has the number of rows that the limit asks for.  A result is a Go slice, so there are fewer than `2 ^ 63` rows. -/
def LimitsRows (offset count : Nat) (plan : SelectPlan) : Prop :=
  ∀ (go : Runtime) (n : Nat) (shards : List (List ResultRow)), shards ≠ [] → shards.flatten.length < 2 ^ 63 →
    Table plan n shards.flatten →
    ∃ outs, Forall₂ (fun rows out => limitRows plan.stmt.limit rows = some out ∧
        min (offset + count) rows.length ≤ out.length) shards outs ∧
      ∀ rs, Forall₂ (fun out r => r.fields.length = n ∧ r.values = out) outs rs →
        ∃ res, mergeSelectResult go plan rs = .ok res ∧ res.values.length = min count (shards.flatten.length - offset)

/-- No aggregate function, no `DISTINCT` and no `GROUP BY`. -/
structure UngroupedSelect (stmt : SelectStmt Parsed) : Prop where
  fields : ∀ e asName, SelectField.expr e asName ∈ stmt.fields → ∀ name, e.outermost ≠ some (.inr name)
  distinct : stmt.distinct = false
  groupBy : stmt.groupBy = none

section Range

variable {p : TableAliasStmtInfo} {stmt : SelectStmt Parsed} {plan : SelectPlan} {fs : List (SelectField Planned)}
  {offset : Option UInt64} {count : UInt64}

theorem ne_nil_of_forall₂ {α β : Type} {R : α → β → Prop} {as : List α} {bs : List β} (h : Forall₂ R as bs)
    (hne : as ≠ []) : bs ≠ [] := by
  rintro rfl
  cases h
  exact hne rfl

/-! ### Limits that are right -/

/-- Reading a number as a signed one changes it by a multiple of `2 ^ 64`. -/
theorem toInt64_near {n : Int} (h₁ : -2 ^ 64 ≤ n) (h₂ : n < 2 ^ 64) :
    -2 ^ 63 ≤ toInt64 n ∧ toInt64 n < 2 ^ 63 ∧
      (toInt64 n = n ∨ toInt64 n = n - 2 ^ 64 ∨ toInt64 n = n + 2 ^ 64) := by
  unfold toInt64
  split <;> omega

theorem finishResult_length {go : Runtime} {r res : Result} (h : finishResult go plan r = .ok res) :
    res.values.length = r.values.length := by
  obtain ⟨r', htrim, hrow⟩ := bind_eq_ok.1 h
  have hkept : res.values = r'.values := by
    have hrow := wrapErr_eq_ok.1 hrow
    unfold generateSelectResultRowData at hrow
    split at hrow
    · cases hrow
    · cases hrow
      rfl
  rw [hkept]
  have htrim := wrapErr_eq_ok.1 htrim
  unfold trimExtraFields at htrim
  simp only at htrim
  split at htrim
  · obtain ⟨fields, _, htrim⟩ := bind_eq_ok.1 htrim
    obtain ⟨values, hvalues, htrim⟩ := bind_eq_ok.1 htrim
    cases htrim
    exact (mapM_eq_ok.1 hvalues).length_eq.symm
  · cases htrim
    rfl

theorem SelectLayout.rowsCompare_table (h : SelectLayout p stmt plan fs) {n : Nat} {r : Result}
    (hfields : r.fields.length = n) {rows : List ResultRow} (htable : Table plan n rows) :
    ∀ row ∈ rows, ∀ row' ∈ rows, RowsCompare (sortKeys plan r) row row' := by
  intro row hrow row' hrow' k hk
  obtain ⟨c, hc, hcolumn⟩ := exists_of_mem_sortKeys hk
  obtain ⟨item, -, hfound⟩ := exists_of_mem (forall₂_map_right_iff.1 h.orderColumns) hc
  obtain ⟨asName, hfield⟩ := h.getElem?_found hfound
  have hlt := (List.getElem?_eq_some_iff.1 hfield).1
  rw [← h.count] at hlt
  have hcolumns := htable.columns
  obtain ⟨i, hi, hin⟩ : ∃ i : Nat, k.column = i ∧ i < n := by
    refine ⟨c + (n - plan.columnCount), ?_, by omega⟩
    unfold deltaColumnCount at hcolumn
    omega
  have hcell : ∀ x : ResultRow, x.length = n → ∃ y, x[i]? = some y ∧ x.cell k.column = .ok y := by
    intro x hx
    have hget := getElem?_eq_getElem (show i < x.length by omega)
    refine ⟨_, hget, ?_⟩
    unfold ResultRow.cell
    rw [hi, if_pos (Int.natCast_nonneg i), Int.toNat_natCast, hget]
  obtain ⟨x, hget, hx⟩ := hcell row (htable.length row hrow)
  obtain ⟨y, hget', hy⟩ := hcell row' (htable.length row' hrow')
  exact ⟨x, y, hx, hy, (forall₂_iff_getElem?.1 (htable.typed row hrow row' hrow')).2 i x y hget hget'⟩

theorem mem_of_limitRows {α : Type} {limit : Option Limit} {rows out : List α}
    (h : limitRows limit rows = some out) {a : α} (ha : a ∈ out) : a ∈ rows := by
  unfold limitRows at h
  split at h
  · cases h
    exact ha
  · have hcut : ∀ {k c : Nat}, some ((rows.drop k).take c) = some out → a ∈ rows := by
      rintro k c ⟨⟩
      exact mem_of_mem_drop (mem_of_mem_take ha)
    dsimp only [bind] at h
    split at h
    all_goals
      obtain ⟨k, -, h⟩ := Option.bind_eq_some_iff.1 h
      obtain ⟨c, -, h⟩ := Option.bind_eq_some_iff.1 h
      exact hcut h

theorem length_flatten_take (k : Nat) (shards : List (List ResultRow)) :
    min k (shards.map (take k)).flatten.length = min k shards.flatten.length := by
  induction shards with
  | nil => rfl
  | cons rows shards ih =>
    rw [map_cons, flatten_cons, flatten_cons, length_append, length_append, length_take]
    omega

section

variable (h : SelectLayout p stmt plan fs) (hstmt : UngroupedSelect stmt)
  (hlimit : stmt.limit = limitOf (some (offset, count)))

include h hstmt hlimit

omit hlimit in
theorem SelectLayout.merge_table (go : Runtime) {n : Nat} {outs : List (List ResultRow)} {rs : List Result}
    (hne : outs ≠ [])
    (htable : Table plan n outs.flatten) (ha : Forall₂ (fun out r => r.fields.length = n ∧ r.values = out) outs rs) :
    ∃ r : Result, r.Tabular n ∧ r.values.length = outs.flatten.length ∧
      mergeSelectResult go plan rs = limitSelectResult plan r >>= finishResult go plan := by
  have hvalues : rs.map Result.values = outs := by
    rw [← forall₂_eq_eq_eq, forall₂_map_left_iff]
    exact ha.flip.imp fun r out h => h.2
  have htab : ∀ r ∈ rs, r.Tabular n := by
    intro r hr
    obtain ⟨out, hout, hfields, rfl⟩ := exists_of_mem ha.flip hr
    exact ⟨hfields, fun row hrow => htable.length row (mem_flatten.2 ⟨_, hout, hrow⟩)⟩
  obtain ⟨r, hr, hrtab, hrvalues⟩ := mergeMultiResultSet_spec (ne_nil_of_forall₂ ha hne) htab
  rw [hvalues] at hrvalues
  obtain ⟨s, hs, hperm, -⟩ := sortSelectResult_spec go (p := plan) (r := r)
    (hrvalues ▸ h.rowsCompare_table hrtab.fields htable)
  refine ⟨{ r with values := s }, ⟨hrtab.fields, fun row hrow => hrtab.values row (hperm.mem_iff.1 hrow)⟩, ?_, ?_⟩
  · rw [hperm.length_eq, hrvalues]
  · exact h.merge_ungrouped hstmt.fields hstmt.distinct hstmt.groupBy go hr hs

omit hlimit in
/-- The rows that are left behind a limit that is a window. -/
theorem SelectLayout.length_of_window (go : Runtime) {bounds : Option (Option UInt64 × UInt64)}
    (hcut : ∀ r, limitSelectResult plan r = .ok { r with values := window bounds r.values }) {n : Nat}
    {outs : List (List ResultRow)} {rs : List Result} (hne : outs ≠ []) (htable : Table plan n outs.flatten)
    (ha : Forall₂ (fun out r => r.fields.length = n ∧ r.values = out) outs rs) :
    ∃ res, mergeSelectResult go plan rs = .ok res ∧
      res.values.length = (window bounds (replicate outs.flatten.length ())).length := by
  obtain ⟨r, htab, hlength, hmerge⟩ := h.merge_table hstmt go hne htable ha
  have hwindow : ∀ row ∈ window bounds r.values, row ∈ r.values := by
    cases bounds with
    | none => exact fun _ => id
    | some b => exact fun row hrow => mem_of_mem_drop (mem_of_mem_take hrow)
  obtain ⟨res, hres, -, hvalues, -⟩ :=
    finishResult_wide go (p := plan) (r := { r with values := window bounds r.values })
    ⟨htab.fields, fun row hrow => htab.values row (hwindow row hrow)⟩ htable.columns h.origin_le
  refine ⟨res, ?_, ?_⟩
  · rw [hmerge, hcut]
    exact hres
  · rw [hvalues, length_map]
    cases bounds with
    | none => rw [window, window, hlength, length_replicate]
    | some b => rw [window, window, length_take, length_drop, length_take, length_drop, hlength, length_replicate]

theorem SelectLayout.limitsRows (hsmall : skipped offset + count.toNat < 2 ^ 63) :
    LimitsRows (skipped offset) count.toNat plan := by
  intro go n shards hne hlen htable
  have hrewrite := hlimit ▸ h.limit
  have hrows : ∀ rows : List ResultRow,
      limitRows plan.stmt.limit rows = some (rows.take (skipped offset + count.toNat)) := by
    intro rows
    obtain ⟨hc, ⟨hzero, _, hl⟩ | ⟨_, ho, hl⟩⟩ := rewriteLimit_cases hrewrite
    · rw [hl, hzero, Nat.zero_add]
    · have hsum : toInt64 (plan.count + plan.offset) = (skipped offset + count.toNat : Nat) := by
        rw [hc, ho, toInt64_of_lt (by omega), toInt64_of_lt (by omega), ← Nat.cast_add, Nat.add_comm,
          toInt64_of_lt hsmall]
      rw [hl, hsum, if_pos (Int.natCast_nonneg _), Int.toNat_natCast]
  refine ⟨shards.map (take (skipped offset + count.toNat)), ?_, fun rs ha => ?_⟩
  · rw [forall₂_map_right_iff, forall₂_same]
    exact fun rows _ => ⟨hrows rows, by rw [length_take]⟩
  have hcut : ∀ r, limitSelectResult plan r = .ok { r with values := window (some (offset, count)) r.values } :=
    fun r => limitSelectResult_spec (by rintro o c ⟨⟩; exact hsmall) hrewrite
  have hsub : ∀ row ∈ (shards.map (take (skipped offset + count.toNat))).flatten, row ∈ shards.flatten := by
    intro row hrow
    obtain ⟨_, hout, hrow⟩ := mem_flatten.1 hrow
    obtain ⟨rows, hrows, rfl⟩ := mem_map.1 hout
    exact mem_flatten.2 ⟨rows, hrows, mem_of_mem_take hrow⟩
  obtain ⟨res, hres, hlength⟩ := h.length_of_window hstmt go hcut (by simpa using hne) (htable.subset hsub) ha
  refine ⟨res, hres, ?_⟩
  have htaken := length_flatten_take (skipped offset + count.toNat) shards
  rw [hlength, window, length_take, length_drop, length_replicate]
  omega

theorem SelectLayout.limitsRows_all (hzero : skipped offset = 0)
    (hcount : count.toNat = 2 ^ 64 - 1) : LimitsRows (skipped offset) count.toNat plan := by
  intro go n shards hne hlen htable
  obtain ⟨hc, ⟨_, ho, hl⟩ | ⟨hpos, _, _⟩⟩ := rewriteLimit_cases (hlimit ▸ h.limit)
  · have hnone : plan.count = -1 := by
      rw [hc, hcount]
      decide
    refine ⟨shards, ?_, fun rs ha => ?_⟩
    · rw [forall₂_same]
      intro rows hrows
      refine ⟨?_, Nat.min_le_right _ _⟩
      have := (sublist_flatten_of_mem hrows).length_le
      rw [hl, take_of_length_le (by omega)]
    · have hcut : ∀ r, limitSelectResult plan r = .ok { r with values := window none r.values } :=
        fun r => if_pos hnone
      obtain ⟨res, hres, hlength⟩ := h.length_of_window hstmt go hcut hne htable ha
      refine ⟨res, hres, ?_⟩
      rw [window, length_replicate] at hlength
      omega
  · exact absurd hzero hpos

/-! ### Limits that are not -/

omit hlimit in
/-- What `n` equal rows on a single shard tell about a limit that is right. -/
theorem SelectLayout.single_shard (hlimits : LimitsRows (skipped offset) count.toNat plan) {n : Nat}
    (hn : n < 2 ^ 63) : ∃ (out : List ResultRow) (r r' : Result),
      limitRows plan.stmt.limit (replicate n (replicate plan.columnCount .null)) = some out ∧
      min (skipped offset + count.toNat) n ≤ out.length ∧ r.values.length = out.length ∧
      limitSelectResult plan r = .ok r' ∧ r'.values.length = min count.toNat (n - skipped offset) := by
  have htable : ∀ rows : List ResultRow, (∀ row ∈ rows, row = replicate plan.columnCount .null) →
      Table plan plan.columnCount rows := by
    intro rows hrows
    refine ⟨le_rfl, fun row hrow => by rw [hrows row hrow, length_replicate], fun row hrow row' hrow' => ?_⟩
    rw [hrows row hrow, hrows row' hrow', forall₂_same]
    exact fun c _ => .inr (.inr rfl)
  obtain ⟨outs, houts, hmerge⟩ := hlimits .reference plan.columnCount [replicate n (replicate plan.columnCount .null)]
    (cons_ne_nil _ _) (by rw [flatten_singleton, length_replicate]; exact hn)
    (htable _ (by rw [flatten_singleton]; exact fun row hrow => eq_of_mem_replicate hrow))
  obtain ⟨out, rest, hout, hrest, rfl⟩ := forall₂_cons_left_iff.1 houts
  cases hrest
  have hsub : ∀ row ∈ out, row = replicate plan.columnCount .null := fun row hrow =>
    eq_of_mem_replicate (mem_of_limitRows hout.1 hrow)
  have ha : Forall₂ (fun (out : List ResultRow) (r : Result) => r.fields.length = plan.columnCount ∧
    r.values = out) [out]
      [{ fields := replicate plan.columnCount "", values := out }] := .cons ⟨length_replicate, rfl⟩ .nil
  obtain ⟨res, hres, hlength⟩ := hmerge _ ha
  obtain ⟨r, -, hvalues, hsteps⟩ := h.merge_table hstmt .reference (cons_ne_nil _ _)
    (htable _ (by rwa [flatten_singleton])) ha
  rw [hsteps] at hres
  obtain ⟨r', hr', hfinish⟩ := bind_eq_ok.1 hres
  rw [finishResult_length hfinish, flatten_singleton, length_replicate] at hlength
  rw [length_replicate] at hout
  exact ⟨out, r, r', hout.1, hout.2, by rw [hvalues, flatten_singleton], hr', hlength⟩

/-- One row, or as many rows as are skipped, show that other bounds are not right. -/
theorem SelectLayout.bounds_of_limitsRows (hlimits : LimitsRows (skipped offset) count.toNat plan) :
    skipped offset + count.toNat < 2 ^ 63 ∨ (skipped offset = 0 ∧ count.toNat = 2 ^ 64 - 1) := by
  have hcount := count.toNat_lt
  have hoffset : skipped offset < 2 ^ 64 := by
    cases offset with
    | none => decide
    | some offset => exact offset.toNat_lt
  obtain ⟨n, hn, hchoice⟩ : ∃ n < 2 ^ 63, (skipped offset < 2 ^ 63 ∧ n = max 1 (skipped offset)) ∨
      (2 ^ 63 ≤ skipped offset ∧ n = 1) := by
    by_cases hfits : skipped offset < 2 ^ 63
    · exact ⟨_, by omega, .inl ⟨hfits, rfl⟩⟩
    · exact ⟨1, by omega, .inr ⟨by omega, rfl⟩⟩
  obtain ⟨out, r, r', hrows, hkept, hlength, hr', hlength'⟩ := h.single_shard hstmt hlimits hn
  have hleft := limitSelectResult_length hr'
  have hsigned := toInt64_near (n := count.toNat) (by omega) (by omega)
  have hsigned' := toInt64_near (n := skipped offset) (by omega) (by omega)
  obtain ⟨hc, ⟨hzero, ho, hl⟩ | ⟨hpos, ho, hl⟩⟩ := rewriteLimit_cases (hlimit ▸ h.limit)
  · have hsum := toInt64_near (n := plan.offset + plan.count) (by omega) (by omega)
    rw [hl] at hrows
    have hout := congrArg List.length (Option.some.inj hrows)
    rw [length_take, length_replicate] at hout
    omega
  · have hsum := toInt64_near (n := plan.count + plan.offset) (by omega) (by omega)
    rw [Int.add_comm plan.offset] at hleft
    rw [hl] at hrows
    split at hrows
    · have hout := congrArg List.length (Option.some.inj hrows)
      rw [length_take, length_replicate] at hout
      omega
    · cases hrows

end

end Range

/-- A limit is right for all data exactly if offset and count add up to a signed number, or nothing is skipped and the
count is the greatest one. -/
theorem limitsRows_iff {db : String} {router : Router} {order : MapOrder} {stmt : SelectStmt Parsed}
    {plan : SelectPlan} {offset : Option UInt64} {count : UInt64}
    (hplan : handleSelectStmt (newTableAliasStmtInfo db router order) stmt = .ok plan) (hstmt : UngroupedSelect stmt)
    (hlimit : stmt.limit = limitOf (some (offset, count))) :
    LimitsRows (skipped offset) count.toNat plan ↔
      skipped offset + count.toNat < 2 ^ 63 ∨ (skipped offset = 0 ∧ count.toNat = 2 ^ 64 - 1) := by
  obtain ⟨p, fs, hlayout⟩ := selectLayout_of_ok hplan
  refine ⟨hlayout.bounds_of_limitsRows hstmt hlimit, ?_⟩
  rintro (hsmall | ⟨hzero, hcount⟩)
  · exact hlayout.limitsRows hstmt hlimit hsmall
  · exact hlayout.limitsRows_all hstmt hlimit hzero hcount

theorem limitsRows_greatest : ∃ plan,
    handleSelectStmt (newTableAliasStmtInfo "db" hashRouter .insertion)
      (selectByName "id" "c" (some (none, 18446744073709551615))) = .ok plan ∧
    LimitsRows (skipped none) (18446744073709551615 : UInt64).toNat plan := by
  refine exists_ok ⟨_, rfl⟩ fun plan hplan => (limitsRows_iff hplan ⟨fun e asName hmem => ?_, rfl, rfl⟩ rfl).2
    (.inr ⟨rfl, rfl⟩)
  obtain ⟨_, _, heq, hno⟩ := (selectByName_plain ..).fields _ hmem
  cases heq
  exact hno

/-- `SELECT id AS name, c AS x FROM t ORDER BY name LIMIT 2, 18446744073709551615`.  A shard with three rows is asked
for one row, and all rows that come back are returned. -/
theorem greatest_count_loses_rows : ∃ plan,
    handleSelectStmt (newTableAliasStmtInfo "db" hashRouter .insertion)
      (selectByName "id" "c" (some (some 2, 18446744073709551615))) = .ok plan ∧
    limitRows plan.stmt.limit [4, 8, 12] = some [4] ∧
    mergeSelectResult .reference plan [{ fields := ["name", "x"], values := [[.int64 4, .int64 0]] }] =
      .ok { fields := ["name", "x"], values := [[.int64 4, .int64 0]], rowDatas := [[1, 52, 1, 48]] } :=
  ⟨_, rfl, by decide +kernel, by decide +kernel⟩

end DbProxy
