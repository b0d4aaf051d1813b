import DbProxy.Plan.Merge

/-!
# Limits

A `LIMIT` of a statement has unsigned 64-bit literals for its bounds.  Planning reads them as signed numbers, sends
their sum to the shards, and uses -1 for "no limit"; the merge cuts the rows again.  This file says what a limit means
for the database, and what planning makes of one.
-/

namespace DbProxy

open List

variable {α : Type} {l : Option Limit} {p : SelectPlan} {r : Result}

/-! ### What a limit means -/

/-- The parser makes the bounds of a limit unsigned literals. -/
def limitOf (bounds : Option (Option UInt64 × UInt64)) : Option Limit :=
  bounds.map fun (offset, count) => ⟨.value (.uint64 count), offset.map fun o => .value (.uint64 o)⟩

def skipped (offset : Option UInt64) : Nat := (offset.map UInt64.toNat).getD 0

def window {α : Type} (bounds : Option (Option UInt64 × UInt64)) (s : List α) : List α :=
  match bounds with
  | none => s
  | some (offset, count) => (s.drop (skipped offset)).take count.toNat

/-- What a shard returns of its sorted rows: as many as are skipped and kept altogether. -/
def firstRows {α : Type} (bounds : Option (Option UInt64 × UInt64)) (s : List α) : List α :=
  match bounds with
  | none => s
  | some (offset, count) => s.take (skipped offset + count.toNat)

/-- A bound, as the database reads it: a negative number is refused. -/
def limitBound : Expr Parsed → Option Nat
  | .value (.uint64 n) => some n.toNat
  | .value (.int64 n) => if 0 ≤ n.toInt then some n.toInt.toNat else none
  | _ => none

/-- The rows that the database returns of the rows `s` under a limit. -/
def limitRows {α : Type} (limit : Option Limit) (s : List α) : Option (List α) :=
  match limit with
  | none => some s
  | some l => do
    let offset ← match l.offset with
      | none => some 0
      | some e => limitBound e
    let count ← limitBound l.count
    some ((s.drop offset).take count)

theorem window_map {β : Type} (bounds : Option (Option UInt64 × UInt64)) (f : α → β) (l : List α) :
    window bounds (l.map f) = (window bounds l).map f := by
  cases bounds with
  | none => rfl
  | some b => simp only [window, map_take, map_drop]

/-! ### What planning makes of it -/

theorem toInt64_of_lt {n : Nat} (h : n < 2 ^ 63) : toInt64 n = n := by
  unfold toInt64
  omega

theorem toInt_ofInt (n : Int) : (Int64.ofInt n).toInt = toInt64 n := by
  rw [Int64.toInt_ofInt, Int.bmod_def]
  rfl

theorem limitRows_int64 (n : Int) (s : List α) :
    limitRows (some ⟨.value (.int64 (Int64.ofInt n)), none⟩) s =
      if 0 ≤ toInt64 n then some (s.take (toInt64 n).toNat) else none := by
  rw [← toInt_ofInt]
  generalize Int64.ofInt n = m
  show ((if 0 ≤ m.toInt then some m.toInt.toNat else none) >>= fun k => some (s.take k)) = _
  split
  · rfl
  · rfl

theorem rewriteLimit_cases {offset : Option UInt64} {count : UInt64} {o c : Int}
    (h : rewriteLimit (limitOf (some (offset, count))) = .ok (o, c, l)) :
    c = toInt64 count.toNat ∧
      ((skipped offset = 0 ∧ o = 0 ∧ ∀ (α : Type) (s : List α), limitRows l s = some (s.take count.toNat)) ∨
        (skipped offset ≠ 0 ∧ o = toInt64 (skipped offset) ∧ ∀ (α : Type) (s : List α), limitRows l s =
          if 0 ≤ toInt64 (c + o) then some (s.take (toInt64 (c + o)).toNat) else none)) := by
  have parts : ∀ {o' c' : Int} {l' : Option Limit}, (.ok (o', c', l') : Except Fail _) = .ok (o, c, l) →
      o = o' ∧ c = c' ∧ l = l' := by
    intro o' c' l' h
    have h := Except.ok.inj h
    exact ⟨(congrArg (·.1) h).symm, (congrArg (·.2.1) h).symm, (congrArg (·.2.2) h).symm⟩
  cases offset with
  | none =>
    obtain ⟨ho, hc, hl⟩ := parts h
    subst hl
    exact ⟨hc, .inl ⟨rfl, ho, fun α s => rfl⟩⟩
  | some offset =>
    have hrun : rewriteLimit (limitOf (some (some offset, count))) =
        if toInt64 offset.toNat = 0 then .ok (0, toInt64 count.toNat, limitOf (some (some offset, count)))
        else .ok (toInt64 offset.toNat, toInt64 count.toNat, some { count := .value (Datum.int64
          (Int64.ofInt (toInt64 count.toNat + toInt64 offset.toNat))), offset := none }) := rfl
    have hsize := offset.toNat_lt
    have hskipped : skipped (some offset) = offset.toNat := rfl
    rw [hrun] at h
    split at h
    · next hzero =>
      obtain ⟨ho, hc, hl⟩ := parts h
      have hoffset : offset.toNat = 0 := by
        unfold toInt64 at hzero
        omega
      subst hl
      refine ⟨hc, .inl ⟨hoffset, ho, fun α s => ?_⟩⟩
      show some ((s.drop offset.toNat).take count.toNat) = _
      rw [hoffset, drop_zero]
    · next hpos =>
      obtain ⟨ho, hc, hl⟩ := parts h
      have hoffset : offset.toNat ≠ 0 := by
        intro hzero
        rw [hzero] at hpos
        exact hpos rfl
      subst hl
      refine ⟨hc, .inr ⟨hoffset, ho, fun α s => ?_⟩⟩
      rw [hc, ho]
      exact limitRows_int64 _ s

theorem limitSelectResult_spec {bounds : Option (Option UInt64 × UInt64)}
    (hbounds : ∀ o c, bounds = some (o, c) → skipped o + c.toNat < 2 ^ 63)
    (h : rewriteLimit (limitOf bounds) = .ok (p.offset, p.count, l)) :
    limitSelectResult p r = .ok { r with values := window bounds r.values } := by
  unfold limitSelectResult
  cases bounds with
  | none =>
    have hcount : p.count = -1 := (congrArg (fun x => x.2.1) (Except.ok.inj h)).symm
    rw [if_pos hcount]
    rfl
  | some b =>
    obtain ⟨offset, count⟩ := b
    have hsmall := hbounds offset count rfl
    have hoc : p.offset = skipped offset ∧ p.count = count.toNat := by
      obtain ⟨hc, ⟨hzero, ho, _⟩ | ⟨_, ho, _⟩⟩ := rewriteLimit_cases h
      · exact ⟨by omega, hc.trans (toInt64_of_lt (by omega))⟩
      · exact ⟨ho.trans (toInt64_of_lt (by omega)), hc.trans (toInt64_of_lt (by omega))⟩
    obtain ⟨ho, hc⟩ := hoc
    have hsum : toInt64 (p.offset + p.count) = (skipped offset + count.toNat : Nat) := by
      rw [ho, hc, ← Nat.cast_add, toInt64_of_lt hsmall]
    rw [if_neg (by omega), hsum]
    simp only [ho]
    split
    · next hlong =>
      have hnone : r.values.drop (skipped offset) = [] := drop_eq_nil_of_le (by omega)
      simp only [window, hnone, take_nil]
    · rw [if_pos (by omega)]
      have hcut : (r.values.take (min (skipped offset + count.toNat) r.values.length)).drop (skipped offset) =
          (r.values.drop (skipped offset)).take count.toNat := by
        rw [drop_take, take_eq_take_iff, length_drop]
        omega
      rw [← Nat.cast_min, Int.toNat_natCast, Int.toNat_natCast, hcut]
      rfl

theorem limitSelectResult_none (h : rewriteLimit none = .ok (p.offset, p.count, l)) :
    limitSelectResult p r = .ok r := by
  have h : rewriteLimit (limitOf none) = .ok (p.offset, p.count, l) := h
  exact limitSelectResult_spec (fun _ _ hb => by cases hb) h

theorem limitSelectResult_length {r' : Result} (h : limitSelectResult p r = .ok r') :
    (p.count = -1 ∧ r'.values.length = r.values.length) ∨
      (p.count ≠ -1 ∧ (r.values.length ≤ p.offset ∧ r'.values.length = 0 ∨
        0 ≤ p.offset ∧ p.offset ≤ toInt64 (p.offset + p.count) ∧
          (r'.values.length : Int) = min (toInt64 (p.offset + p.count)) r.values.length - p.offset)) := by
  unfold limitSelectResult at h
  split at h
  · next hcount =>
    cases h
    exact .inl ⟨hcount, rfl⟩
  · next hcount =>
    refine .inr ⟨hcount, ?_⟩
    simp only at h
    split at h
    · next hshort =>
      cases h
      exact .inl ⟨hshort, rfl⟩
    · split at h
      · next hshort hrange =>
        cases h
        refine .inr ⟨hrange.1, hrange.2.trans (min_le_left _ _), ?_⟩
        rw [length_drop, length_take]
        omega
      · cases h

end DbProxy
