import DbProxy.Lib.TopK
import DbProxy.Plan.Merge
import Mathlib.Data.List.Lex
import Mathlib.Data.Prod.Lex

/-!
# The order of rows

`Less` compares rows by their keys.  Values of one type, and NULL before them, are linearly ordered (`Cell.rank`), so
the comparison of rows is a total preorder, whatever the directions of the keys are.
-/

namespace DbProxy

namespace Cell

/-- The type of a value, with NULL first. -/
def kind : Cell → ℕ
  | .null => 0
  | .int64 _ => 1
  | .uint64 _ => 2
  | .float64 _ => 3
  | .string _ => 4
  | .bytes _ => 5

def number : Cell → ℚ
  | .int64 n | .uint64 n => n
  | .float64 x => x
  | _ => 0

def text : Cell → List ℕ
  | .string s | .bytes s => s.map UInt8.toNat
  | _ => []

/-- The place of a value in a linear order of all values: by type, then by number, then by bytes. -/
def rank (c : Cell) : ℕ ×ₗ ℚ ×ₗ List ℕ := toLex (c.kind, toLex (c.number, c.text))

/-- The values have one type, or one of them is NULL. -/
def comparable (a b : Cell) : Prop := a.kind = 0 ∨ b.kind = 0 ∨ a.kind = b.kind

theorem rank_lt {a b : Cell} : a.rank < b.rank ↔
    a.kind < b.kind ∨ a.kind = b.kind ∧ (a.number < b.number ∨ a.number = b.number ∧ a.text < b.text) := by
  unfold rank
  rw [Prod.Lex.lt_iff, Prod.Lex.lt_iff]
  rfl

end Cell

theorem compareBytes_spec (s t : GoString) :
    (compareBytes s t < 0 ↔ s.map UInt8.toNat < t.map UInt8.toNat) ∧
      (0 < compareBytes s t ↔ t.map UInt8.toNat < s.map UInt8.toNat) := by
  induction s generalizing t with
  | nil => cases t <;> simp [compareBytes]
  | cons a s ih =>
    cases t with
    | nil => simp [compareBytes]
    | cons b t =>
      unfold compareBytes
      rw [List.map_cons, List.map_cons, List.cons_lt_cons_iff, List.cons_lt_cons_iff, ← UInt8.lt_iff_toNat_lt,
        ← UInt8.lt_iff_toNat_lt]
      have hlt := UInt8.lt_iff_toNat_lt (a := a) (b := b)
      have hgt := UInt8.lt_iff_toNat_lt (a := b) (b := a)
      have := ih t
      split_ifs <;> grind

def Compares (v : Int) (a b : Cell) : Prop := (v < 0 ↔ a.rank < b.rank) ∧ (0 < v ↔ b.rank < a.rank)

theorem compares_number {a b : Cell} (hkind : a.kind = b.kind) (htext : a.text = b.text) {v : Int}
    (hv : v = if a.number < b.number then -1 else if a.number > b.number then 1 else 0) : Compares v a b := by
  unfold Compares
  rw [Cell.rank_lt, Cell.rank_lt, hkind, htext, hv]
  rcases lt_trichotomy a.number b.number with h | h | h
  · simp [h, h.not_gt, h.ne']
  · simp [h]
  · simp [h, h.not_gt, h.ne']

theorem compares_text {a b : Cell} (hkind : a.kind = b.kind) (hnumber : a.number = b.number) {s t : GoString}
    (hs : a.text = s.map UInt8.toNat) (ht : b.text = t.map UInt8.toNat) : Compares (compareBytes s t) a b := by
  unfold Compares
  rw [Cell.rank_lt, Cell.rank_lt, hkind, hnumber, hs, ht]
  simpa using compareBytes_spec s t

theorem cmpValue_spec {a b : Cell} (h : a.comparable b) : ∃ v, cmpValue a b = .ok v ∧ Compares v a b := by
  unfold Cell.comparable at h
  cases a <;> cases b
  case null.null => exact ⟨0, rfl, by simp [Compares]⟩
  case int64.int64 n m =>
    refine ⟨_, rfl, compares_number (a := .int64 n) (b := .int64 m) rfl rfl ?_⟩
    simp only [Cell.number, gt_iff_lt, Int.cast_lt]
  case uint64.uint64 n m =>
    refine ⟨_, rfl, compares_number (a := .uint64 n) (b := .uint64 m) rfl rfl ?_⟩
    simp only [Cell.number, gt_iff_lt, Int.cast_lt]
  case float64.float64 x y =>
    refine ⟨_, rfl, compares_number (a := .float64 x) (b := .float64 y) rfl rfl ?_⟩
    simp only [Cell.number]
    congr
  case string.string s t => exact ⟨_, rfl, compares_text (a := .string s) (b := .string t) rfl rfl rfl rfl⟩
  case bytes.bytes s t => exact ⟨_, rfl, compares_text (a := .bytes s) (b := .bytes t) rfl rfl rfl rfl⟩
  -- NULL comes first, and no other two kinds can be compared
  all_goals
    first
    | exact ⟨-1, rfl, by simp [Compares, Cell.rank_lt, Cell.kind]⟩
    | exact ⟨1, rfl, by simp [Compares, Cell.rank_lt, Cell.kind]⟩
    | simp [Cell.kind] at h

/-! ### Rows -/

/-- The value in a column; a column that the row does not have counts as NULL. -/
def ResultRow.at (row : ResultRow) (i : Int) : Cell := (row.cell i).toOption.getD .null

def rowKeys (ks : List SortKey) : List (Bool × (ResultRow → ℕ ×ₗ ℚ ×ₗ List ℕ)) :=
  ks.map fun k => (k.desc, fun row => (row.at k.column).rank)

/-- The rows have the columns of the keys, and values there that can be compared. -/
def RowsCompare (ks : List SortKey) (a b : ResultRow) : Prop :=
  ∀ k ∈ ks, ∃ x y, a.cell k.column = .ok x ∧ b.cell k.column = .ok y ∧ x.comparable y

theorem ResultRow.at_eq {row : ResultRow} {i : Int} {c : Cell} (h : row.cell i = .ok c) : row.at i = c := by
  unfold ResultRow.at
  rw [h]
  rfl

theorem less_spec {ks : List SortKey} {a b : ResultRow} (h : RowsCompare ks a b) :
    ∃ r : Bool, less ks a b = .ok r ∧ (r = true ↔ ¬ TopK.keysLe (rowKeys ks) b a) := by
  induction ks with
  | nil => exact ⟨false, rfl, by simp [rowKeys, TopK.keysLe]⟩
  | cons k ks ih =>
    obtain ⟨x, y, hx, hy, hxy⟩ := h k List.mem_cons_self
    obtain ⟨r, hr, hless⟩ := ih fun k hk => h k (List.mem_cons_of_mem _ hk)
    obtain ⟨v, hv, hneg, hpos⟩ := cmpValue_spec hxy
    have hstep : less (k :: ks) a b = if (if k.desc then -v else v) < 0 then .ok true
        else if (if k.desc then -v else v) > 0 then .ok false else less ks a b := by
      simp only [less, hx, hy, hv, bind, Except.bind]
    have hkeys : TopK.keysLe (rowKeys (k :: ks)) b a ↔
        (if k.desc then x.rank < y.rank else y.rank < x.rank) ∨ (y.rank = x.rank ∧ TopK.keysLe (rowKeys ks) b a) := by
      rw [← ResultRow.at_eq hx, ← ResultRow.at_eq hy]
      rfl
    rw [hstep, hkeys, hr]
    rcases lt_trichotomy x.rank y.rank with h | h | h
    · have := hneg.2 h
      cases k.desc with
      | false => exact ⟨true, by simp [this], by simp [h.not_gt, h.ne']⟩
      | true => exact ⟨false, by simp [this, this.le], by simp [h]⟩
    · have hzero : v = 0 := by
        have h₁ : ¬ v < 0 := fun hv => (hneg.1 hv).ne h
        have h₂ : ¬ 0 < v := fun hv => (hpos.1 hv).ne h.symm
        omega
      exact ⟨r, by simp [hzero], by simp [h, hless]⟩
    · have := hpos.2 h
      cases k.desc with
      | false => exact ⟨false, by simp [this, this.le], by simp [h]⟩
      | true => exact ⟨true, by simp [this], by simp [h.not_gt, h.ne]⟩

end DbProxy
