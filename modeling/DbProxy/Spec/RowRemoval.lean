import DbProxy.Plan.Merge

/-!
# Removing rows in place

`removeDistinctRowInResult` lists the rows to remove, and then moves the others to the front of the array that it
reads them from.  No row is overwritten before it is read, and the first row of each key is left.
-/

namespace DbProxy

open Fallible List

/-- The first loop: the numbers of the rows whose key was seen before. -/
def rowsToRemove (go : Runtime) (colCnt : Int) (seen : List GoString) (i : Nat) :
    List ResultRow → Except Fail (List Nat)
  | [] => .ok []
  | row :: rows => do
    let key := generateMapKey go (← sliceTo colCnt row)
    if key ∈ seen then
      let rest ← rowsToRemove go colCnt seen (i + 1) rows
      .ok (i :: rest)
    else rowsToRemove go colCnt (key :: seen) (i + 1) rows

/-- The second loop, from row `i` on with `count` rows to go.  The result is in the first `n` places of the array
`rows`, and `append` writes the places behind them. -/
def compactRows (rows : List ResultRow) (n i : Nat) : (rowToRemove : List Nat) → (count : Nat) → List ResultRow
  | _, 0 => rows.take n
  | [], _ + 1 => rows.take n ++ rows.drop i
  | j :: js, count + 1 =>
    if i = j then compactRows rows n (i + 1) js count
    else compactRows (rows.set n (rows.getD i [])) (n + 1) (i + 1) (j :: js) count

/-- `removeDistinctRowInResult` on the array of the rows. -/
def removeDistinctRowInPlace (go : Runtime) (p : SelectPlan) (r : Result) : Except Fail Result := do
  let rowToRemove ← rowsToRemove go (p.originColumnCount + deltaColumnCount p r) [] 0 r.values
  if rowToRemove.isEmpty then .ok r
  else .ok { r with values := compactRows r.values 0 0 rowToRemove r.values.length, rowDatas := [] }

section Loops

variable (go : Runtime) (colCnt : Int)

def rowKey (row : ResultRow) : GoString := generateMapKey go (row.take colCnt.toNat)

theorem generateMapKey_of_slice {row : ResultRow} {cells : List Cell} (h : sliceTo colCnt row = .ok cells) :
    generateMapKey go cells = rowKey go colCnt row := by
  unfold sliceTo at h
  split at h
  · cases h
    rfl
  · cases h

-- A row is written to a place before those that are still to be read.
theorem compactRows_keep {mem rows kept : List ResultRow} {row : ResultRow} {remove : List Nat}
    {n i : Nat} (hn : n ≤ i)
    (hdrop : mem.drop i = row :: rows) (hle : ∀ j ∈ remove, i + 1 ≤ j) (hall : remove = [] → kept = rows)
    (hrest : ∀ {mem : List ResultRow} {n : Nat}, n ≤ i + 1 → mem.drop (i + 1) = rows →
      compactRows mem n (i + 1) remove rows.length = mem.take n ++ kept) :
    compactRows mem n i remove (rows.length + 1) = mem.take n ++ row :: kept := by
  have hi : i < mem.length := by
    by_contra hge
    rw [drop_eq_nil_of_le (Nat.le_of_not_lt hge)] at hdrop
    cases hdrop
  rw [drop_eq_getElem_cons hi] at hdrop
  obtain ⟨rfl, rfl⟩ := cons.inj hdrop
  cases remove with
  | nil => rw [compactRows, drop_eq_getElem_cons hi, hall rfl]
  | cons j js =>
    rw [compactRows, if_neg (Nat.ne_of_lt (hle j mem_cons_self)), ← getElem_eq_getD [], hrest (Nat.succ_le_succ hn),
      take_succ_eq_append_getElem (by rw [length_set]; exact hn.trans_lt hi), getElem_set_self,
      take_set_of_le le_rfl, append_assoc]
    · rfl
    · exact drop_set_of_lt (Nat.lt_succ_of_le hn)

theorem rowsToRemove_cases (rows : List ResultRow) : ∀ (done : List ResultRow) {seen : List GoString} (i : Nat),
    seen = done.map (rowKey go colCnt) →
    (∃ e, rows.mapM (sliceTo colCnt) = .error e ∧ rowsToRemove go colCnt seen i rows = .error e ∧
      distinctRows go colCnt seen rows = .error e) ∨
    ∃ cells remove kept, rows.mapM (sliceTo colCnt) = .ok cells ∧ rowsToRemove go colCnt seen i rows = .ok remove ∧
      distinctRows go colCnt seen rows = .ok kept ∧ (∀ j ∈ remove, i ≤ j) ∧ (remove = [] → kept = rows) ∧
      eraseDupsBy.loop (fun a b => rowKey go colCnt a == rowKey go colCnt b) rows done = done.reverse ++ kept ∧
      ∀ {mem : List ResultRow} {n : Nat}, n ≤ i → mem.drop i = rows →
        compactRows mem n i remove rows.length = mem.take n ++ kept := by
  induction rows with
  | nil =>
    intro done seen i _
    exact .inr ⟨[], [], [], rfl, rfl, rfl, by simp, fun _ => rfl, (append_nil _).symm, fun _ _ => (append_nil _).symm⟩
  | cons row rows ih =>
    intro done seen i hseen
    have hany : done.any (fun b => rowKey go colCnt row == rowKey go colCnt b) =
        decide (rowKey go colCnt row ∈ seen) := by
      rw [Bool.eq_iff_iff, any_eq_true, decide_eq_true_iff, hseen, mem_map]
      simp only [beq_iff_eq, eq_comm (b := rowKey go colCnt row)]
    rw [mapM_cons, rowsToRemove, distinctRows, eraseDupsBy.loop, hany]
    cases hslice : sliceTo colCnt row with
    | error e => exact .inl ⟨e, rfl, rfl, rfl⟩
    | ok cells =>
      simp only [bind_of_ok rfl, generateMapKey_of_slice go colCnt hslice]
      by_cases hold : rowKey go colCnt row ∈ seen
      · rw [if_pos hold, if_pos hold, decide_eq_true hold]
        rcases ih done (i + 1) hseen with ⟨e, hcells, hrest, hkept⟩ | ⟨cells', remove, kept, hcells, hrest, hkept,
          hle, _, hloop, hmem⟩
        · exact .inl ⟨e, by rw [hcells]; rfl, by rw [hrest]; rfl, hkept⟩
        · refine .inr ⟨cells :: cells', i :: remove,
            kept, by rw [hcells]; rfl, by rw [hrest]; rfl, hkept, ?_, by simp, hloop, ?_⟩
          · intro j hj
            rcases mem_cons.1 hj with rfl | hj
            · exact le_rfl
            · exact Nat.le_of_succ_le (hle j hj)
          · intro mem n hn hdrop
            rw [length_cons, compactRows, if_pos rfl]
            exact hmem (Nat.le_succ_of_le hn) (by rw [← tail_drop, hdrop]; rfl)
      · rw [if_neg hold, if_neg hold, decide_eq_false hold]
        rcases ih (row :: done) (i + 1) (congrArg (_ :: ·) hseen) with
          ⟨e, hcells, hrest, hkept⟩ | ⟨cells', remove, kept, hcells, hrest, hkept, hle, hall, hloop, hmem⟩
        · exact .inl ⟨e, by rw [hcells]; rfl, hrest, bind_of_error hkept⟩
        · refine .inr ⟨cells :: cells', remove, row ::
            kept, by rw [hcells]; rfl, hrest, bind_of_ok hkept, ?_, ?_, ?_, ?_⟩
          · exact fun j hj => Nat.le_of_succ_le (hle j hj)
          · exact fun hnil => by rw [hall hnil]
          · rw [hloop, reverse_cons, append_assoc, singleton_append]
          · exact fun hn hdrop => compactRows_keep hn hdrop hle hall hmem

end Loops

/-- The rows are left as `removeDistinctRowInResult` leaves them, and these are the first rows of their keys in their
order.  It fails if a row has not the columns of the statement. -/
theorem removeDistinctRowInPlace_spec (go : Runtime) (p : SelectPlan) (r : Result) :
    (removeDistinctRowInPlace go p r).map (·.values) = (removeDistinctRowInResult go p r).map (·.values) ∧
      (removeDistinctRowInPlace go p r).map (·.values) =
        r.values.mapM (sliceTo (p.originColumnCount + deltaColumnCount p r)) >>= fun _ =>
          .ok (r.values.eraseDupsBy fun a b =>
            rowKey go (p.originColumnCount + deltaColumnCount p r) a == rowKey go
              (p.originColumnCount + deltaColumnCount p r) b) := by
  unfold removeDistinctRowInPlace removeDistinctRowInResult eraseDupsBy
  generalize (p.originColumnCount : Int) + deltaColumnCount p r = colCnt
  have hseen : [] = map (rowKey go colCnt) [] := rfl
  rcases rowsToRemove_cases go colCnt r.values [] 0 hseen with
    ⟨e, hcells, hrest, hkept⟩ | ⟨cells, remove, kept, hcells, hrest, hkept, -, hall, hloop, hmem⟩
  · rw [hcells, hrest, hkept]
    exact ⟨rfl, rfl⟩
  · rw [hcells, hrest, hkept, hloop]
    have hvalues : compactRows r.values 0 0 remove r.values.length = kept := hmem le_rfl rfl
    cases remove with
    | nil =>
      rw [hall rfl]
      exact ⟨rfl, rfl⟩
    | cons j js =>
      rw [← hvalues]
      exact ⟨rfl, rfl⟩

end DbProxy
