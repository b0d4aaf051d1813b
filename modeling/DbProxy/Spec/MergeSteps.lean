import DbProxy.Spec.FieldColumns
import DbProxy.Spec.RowOrder

/-!
# The steps of the merge

What each step of `MergeSelectResult` does to a result whose rows are as wide as planning expects them to be.
-/

namespace DbProxy

open Fallible List

open TopK (SortsTo keysLe)

structure Result.Tabular (n : Nat) (r : Result) : Prop where
  fields : r.fields.length = n
  values : ∀ row ∈ r.values, row.length = n

/-! ### The results put together -/

theorem foldl_results (r : Result) (rs : List Result) :
    (rs.foldl (fun r r' => { r with status := r.status ||| r'.status, values := r.values ++ r'.values }) r).fields =
      r.fields ∧
      (rs.foldl (fun r r' => { r with status := r.status ||| r'.status, values := r.values ++ r'.values }) r).values =
        r.values ++ (rs.map Result.values).flatten := by
  induction rs generalizing r with
  | nil => exact ⟨rfl, (append_nil _).symm⟩
  | cons r' rs ih =>
    obtain ⟨hfields, hvalues⟩ := ih { r with status := r.status ||| r'.status, values := r.values ++ r'.values }
    exact ⟨hfields, hvalues.trans (append_assoc ..)⟩

theorem mergeMultiResultSet_spec {n : Nat} {rs : List Result} (hne : rs ≠ []) (h : ∀ r ∈ rs, r.Tabular n) :
    ∃ r, mergeMultiResultSet rs = .ok r ∧ r.Tabular n ∧ r.values = (rs.map Result.values).flatten := by
  cases rs with
  | nil => exact absurd rfl hne
  | cons r rs =>
    obtain ⟨hfields, hvalues⟩ := foldl_results r rs
    refine ⟨_, rfl, ⟨?_, ?_⟩, hvalues⟩
    · rw [hfields]
      exact (h r mem_cons_self).fields
    · intro row hrow
      have hmem : row ∈ ((r :: rs).map Result.values).flatten := by rwa [hvalues] at hrow
      obtain ⟨values, hmem, hrow⟩ := mem_flatten.1 hmem
      obtain ⟨r', hr', rfl⟩ := mem_map.1 hmem
      exact (h r' hr').values row hrow

/-! ### Sorting -/

section Steps

variable (go : Runtime) {p : SelectPlan} {r : Result}
variable {n : Nat} {rs : List Result} {r₀ r₁ res : Result}

theorem deltaColumnCount_eq_zero (h : r.fields.length = p.columnCount) : deltaColumnCount p r = 0 := by
  unfold deltaColumnCount
  omega

theorem exists_of_mem_sortKeys {k : SortKey} (h : k ∈ sortKeys p r) :
    ∃ c ∈ p.orderByColumn, k.column = (c : Int) + deltaColumnCount p r := by
  unfold sortKeys at h
  obtain ⟨i, hi, rfl⟩ := getElem_of_mem h
  rw [getElem_zipWith]
  exact ⟨_, getElem_mem _, rfl⟩

theorem sortSelectResult_spec (h : ∀ a ∈ r.values, ∀ b ∈ r.values, RowsCompare (sortKeys p r) a b) :
    ∃ s, sortSelectResult go p r = .ok { r with values := s } ∧
    SortsTo (keysLe (rowKeys (sortKeys p r))) r.values s := by
  unfold sortSelectResult
  split
  · next hempty =>
    have hkeys : sortKeys p r = [] := by
      unfold sortKeys
      rw [isEmpty_iff.1 hempty, zipWith_nil_right]
    refine ⟨r.values, rfl, .refl _, ?_⟩
    rw [hkeys]
    exact pairwise_of_forall fun _ _ => trivial
  · obtain ⟨s, hs, hsorted⟩ := go.sort_sorted (TopK.keysLe_total (rowKeys (sortKeys p r)))
      (fun _ _ _ => TopK.keysLe_trans) fun a ha b hb => less_spec (h a ha b hb)
    exact ⟨s, by rw [hs]; rfl, go.sort_perm hs, hsorted⟩

theorem sortSelectResult_perm {s : Result} (h : sortSelectResult go p r = .ok s) :
    s.fields = r.fields ∧ s.values.Perm r.values := by
  unfold sortSelectResult at h
  split at h
  · cases h
    exact ⟨rfl, .refl _⟩
  · obtain ⟨values, hvalues, h⟩ := bind_eq_ok.1 h
    cases h
    exact ⟨rfl, go.sort_perm hvalues⟩

theorem sortSelectResult_of_pairwise (h : ∀ a ∈ r.values, ∀ b ∈ r.values, RowsCompare (sortKeys p r) a b)
    (hs : r.values.Pairwise (keysLe (rowKeys (sortKeys p r)))) : sortSelectResult .reference p r = .ok r := by
  unfold sortSelectResult
  split
  · rfl
  · have hsort : Runtime.reference.sort (less (sortKeys p r)) r.values = .ok r.values :=
      referenceSort_of_pairwise (fun a ha b hb => less_spec (h a ha b hb)) hs
    rw [hsort]
    rfl

/-! ### The end -/

theorem sliceTo_eq {α : Type} {l : List α} (h : n ≤ l.length) : sliceTo n l = .ok (l.take n) := by
  unfold sliceTo
  rw [if_pos ⟨Int.natCast_nonneg n, Int.ofNat_le.2 h⟩, Int.toNat_natCast]

/-- How many of the `n` columns of a row belong to the fields of the statement. -/
def SelectPlan.keptColumns (p : SelectPlan) (n : Nat) : Nat := n - (p.columnCount - p.originColumnCount)

theorem trimExtraFields_spec (h : r.Tabular n) (hn : p.columnCount ≤ n)
    (horigin : p.originColumnCount ≤ p.columnCount) : trimExtraFields p r = .ok { r with
      fields := r.fields.take (p.keptColumns n), values := r.values.map (List.take (p.keptColumns n)) } := by
  have hkept : p.keptColumns n ≤ n := Nat.sub_le _ _
  have hstart : deltaColumnCount p r + p.originColumnCount = p.keptColumns n := by
    unfold deltaColumnCount SelectPlan.keptColumns
    rw [h.fields]
    omega
  unfold trimExtraFields
  rw [hstart]
  simp only
  rw [if_pos (by omega), sliceTo_eq (h.fields ▸ hkept)]
  have hvalues : r.values.mapM (sliceTo (p.keptColumns n : Int)) =
      .ok (r.values.map (List.take (p.keptColumns n))) := by
    rw [mapM_eq_ok, forall₂_map_right_iff, forall₂_same]
    exact fun row hrow => sliceTo_eq (h.values row hrow ▸ hkept)
  rw [hvalues]
  rfl

theorem generateSelectResultRowData_spec (h : r.Tabular n) :
    generateSelectResultRowData go r = .ok { r with rowDatas := r.values.map (rowData go) } := by
  have hnone : r.values.zipIdx.find? (fun e => e.1.length ≠ r.fields.length) = none := by
    rw [find?_eq_none]
    intro e he
    have hmem : e.1 ∈ r.values := (mem_zipIdx he).2.2 ▸ getElem_mem _
    simp [h.values e.1 hmem, h.fields]
  unfold generateSelectResultRowData
  rw [hnone]

def finishResult (p : SelectPlan) (r : Result) : Except Fail Result := do
  let r ← wrapErr "trimExtraFields error: " (trimExtraFields p r)
  wrapErr "generate RowData error: " (generateSelectResultRowData go r)

theorem finishResult_wide (h : r.Tabular n) (hn : p.columnCount ≤ n) (horigin : p.originColumnCount ≤ p.columnCount) :
    ∃ res, finishResult go p r = .ok res ∧ res.Tabular (p.keptColumns n) ∧
      res.values = r.values.map (List.take (p.keptColumns n)) ∧ res.rowDatas = res.values.map (rowData go) := by
  let trimmed : Result := { r with
    fields := r.fields.take (p.keptColumns n), values := r.values.map (List.take (p.keptColumns n)) }
  have hkept : p.keptColumns n ≤ n := Nat.sub_le _ _
  have htrimmed : trimmed.Tabular (p.keptColumns n) := by
    refine ⟨?_, ?_⟩
    · rw [length_take, h.fields, Nat.min_eq_left hkept]
    · intro row hrow
      obtain ⟨row', hrow', rfl⟩ := mem_map.1 hrow
      rw [length_take, h.values row' hrow', Nat.min_eq_left hkept]
  refine ⟨{ trimmed with rowDatas := trimmed.values.map (rowData go) }, ?_,
    ⟨htrimmed.fields, htrimmed.values⟩, rfl, rfl⟩
  refine bind_eq_ok.2 ⟨trimmed, ?_, ?_⟩
  · exact wrapErr_eq_ok.2 (trimExtraFields_spec h hn horigin)
  · exact wrapErr_eq_ok.2 (generateSelectResultRowData_spec go htrimmed)

theorem finishResult_spec (h : r.Tabular p.columnCount) (horigin : p.originColumnCount ≤ p.columnCount) :
    ∃ res, finishResult go p r = .ok res ∧ res.values = r.values.map (List.take p.originColumnCount) := by
  obtain ⟨res, hres, _, hvalues, _⟩ := finishResult_wide go h le_rfl horigin
  rw [show p.keptColumns p.columnCount = p.originColumnCount from Nat.sub_sub_self horigin] at hvalues
  exact ⟨res, hres, hvalues⟩

section

variable (h₀ : mergeMultiResultSet rs = .ok r₀)
  (h₁ : (if p.stmt.distinct then removeDistinctRowInResult go p r₀ else .ok r₀) = .ok r₁)

include h₀ h₁

theorem mergeSelectResult_of_steps {r₂ r₃ : Result}
    (h₂ : (if p.stmt.groupBy.isSome then buildSelectGroupByResult go p r₁ else buildSelectOnlyResult p r₁) = .ok r₂)
    (h₃ : sortSelectResult go p r₂ = .ok r₃) :
    mergeSelectResult go p rs = limitSelectResult p r₃ >>= finishResult go p := by
  unfold mergeSelectResult
  simp only [h₀, h₁, h₂, h₃, bind, Except.bind]
  rfl

theorem exists_group_of_merge
    (hres : mergeSelectResult go p rs = .ok res) :
    ∃ r₂ r₃, (if p.stmt.groupBy.isSome then buildSelectGroupByResult go p r₁ else buildSelectOnlyResult p r₁) =
      .ok r₂ ∧ sortSelectResult go p r₂ = .ok r₃ ∧ (limitSelectResult p r₃ >>= finishResult go p) = .ok res := by
  unfold mergeSelectResult at hres
  obtain ⟨_, h₀', hres⟩ := bind_eq_ok.1 hres
  obtain rfl := ok_unique h₀ h₀'
  obtain ⟨_, h₁', hres⟩ := bind_eq_ok.1 hres
  obtain rfl := ok_unique h₁ h₁'
  obtain ⟨r₂, h₂, hres⟩ := bind_eq_ok.1 hres
  obtain ⟨r₃, h₃, hres⟩ := bind_eq_ok.1 hres
  exact ⟨r₂, r₃, h₂, h₃, hres⟩

theorem exists_perm_of_merge
    (horigin : p.originColumnCount ≤ p.columnCount) (hlimit : ∀ r, limitSelectResult p r = .ok r)
    (hres : mergeSelectResult go p rs = .ok res) :
    ∃ r₂, (if p.stmt.groupBy.isSome then buildSelectGroupByResult go p r₁ else buildSelectOnlyResult p r₁) = .ok r₂ ∧
      (r₂.Tabular p.columnCount → res.values.Perm (r₂.values.map (List.take p.originColumnCount))) := by
  obtain ⟨r₂, s, h₂, hs, hres⟩ := exists_group_of_merge go h₀ h₁ hres
  refine ⟨r₂, h₂, fun htab => ?_⟩
  obtain ⟨hfields, hperm⟩ := sortSelectResult_perm go hs
  rw [hlimit s] at hres
  obtain ⟨res', hres', hvalues⟩ := finishResult_spec go (p := p) (r := s)
    ⟨hfields ▸ htab.fields, fun row hrow => htab.values row (hperm.mem_iff.1 hrow)⟩ horigin
  obtain rfl := ok_unique hres' hres
  rw [hvalues]
  exact hperm.map _

end

end Steps

end DbProxy
