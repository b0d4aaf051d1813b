import DbProxy.Router.Rule
import DbProxy.Plan.Util

/-!
# Tables of locations

A rule numbers the tables of its locations on from the sum of the locations in front, in Go's `int`.  A negative
location has no tables but still lowers that sum, so that later tables may get numbers that are taken.
-/

namespace DbProxy

open List

variable {locations : List Int}
variable {e sumTables n x : Int}

def tableNumbers (sumTables : Int) (locations : List Int) : List Int :=
  (tablesOfLocations sumTables 0 locations).map Prod.fst

/-- In front of every location with tables, the sum of the locations follows the end `e` of the tables before as `ok`
says, and the tables of the location end within the integers. -/
def TablesFollow (ok : Int → Int → Prop) : (e sumTables : Int) → List Int → Prop
  | _, _, [] => True
  | e, sumTables, n :: ns => (0 < n → ok e sumTables ∧ sumTables + n ≤ 2 ^ 63) ∧
      TablesFollow ok (if 0 < n then sumTables + n else e) (toInt64 (sumTables + n)) ns

theorem TablesFollow.imp {ok ok' : Int → Int → Prop} {e' : Int} (h : TablesFollow ok e sumTables locations)
    (hok : ∀ a b, ok a b → ok' a b) (hfirst : ∀ b, ok e b → ok' e' b) : TablesFollow ok' e' sumTables locations := by
  induction locations generalizing e e' sumTables with
  | nil => trivial
  | cons n ns ih =>
    refine ⟨fun hn => ⟨hfirst _ (h.1 hn).1, (h.1 hn).2⟩, ih h.2 fun b => ?_⟩
    split
    · exact hok _ b
    · exact hfirst b

theorem map_fst_tablesOfLocations (sumTables : Int) (i : Nat) (locations : List Int) :
    (tablesOfLocations sumTables i locations).map Prod.fst = tableNumbers sumTables locations := by
  unfold tableNumbers
  generalize 0 = j
  induction locations generalizing sumTables i j with
  | nil => rfl
  | cons n ns ih =>
    unfold tablesOfLocations
    rw [map_append, map_append, ih _ (i + 1) (j + 1), map_map, map_map]
    rfl

theorem tableNumbers_cons (sumTables n : Int) (ns : List Int) : tableNumbers sumTables (n :: ns) =
    (range n.toNat).map (fun j : Nat => toInt64 (j + sumTables)) ++ tableNumbers (toInt64 (sumTables + n)) ns := by
  unfold tableNumbers
  rw [tablesOfLocations, map_append, map_map, map_fst_tablesOfLocations]
  rfl

theorem tableNumbers_cons_of_nonpos (h : n ≤ 0) (ns : List Int) :
    tableNumbers sumTables (n :: ns) = tableNumbers (toInt64 (sumTables + n)) ns := by
  rw [tableNumbers_cons, Int.toNat_of_nonpos h]
  rfl

/-! ### Increasing numbers -/

theorem map_toInt64_range (hlow : -2 ^ 63 ≤ sumTables) (hend : sumTables + n ≤ 2 ^ 63) :
    (range n.toNat).map (fun j : Nat => toInt64 (j + sumTables)) = (range n.toNat).map fun j : Nat =>
      (j : Int) + sumTables := by
  refine map_congr_left fun j hj => ?_
  have := mem_range.1 hj
  exact toInt64_of_range (by omega) (by omega)

/-- The numbers of one location increase unless they run over the greatest integer. -/
theorem increasing_map_toInt64_iff (hlow : -2 ^ 63 ≤ sumTables) (hhigh : sumTables < 2 ^ 63) (hn : 0 < n) :
    ((range n.toNat).map fun j : Nat => toInt64 (j + sumTables)).Pairwise (· < ·) ↔ sumTables + n ≤ 2 ^ 63 := by
  constructor
  · intro hinc
    by_contra hover
    have hlt := pairwise_iff_getElem.1 hinc (2 ^ 63 - 1 - sumTables).toNat (2 ^ 63 - sumTables).toNat
      (by rw [length_map, length_range]; omega) (by rw [length_map, length_range]; omega) (by omega)
    rw [getElem_map, getElem_map, getElem_range, getElem_range, Int.toNat_of_nonneg (by omega),
      Int.toNat_of_nonneg (by omega)] at hlt
    unfold toInt64 at hlt
    split at hlt <;> split at hlt <;> omega
  · intro hend
    rw [map_toInt64_range hlow hend, pairwise_map]
    exact pairwise_lt_range.imp fun h => by omega

theorem increasing_tableNumbers_iff (hlow : -2 ^ 63 ≤ sumTables) (hhigh : sumTables < 2 ^ 63) :
    (Increasing (tableNumbers sumTables locations) ∧ ∀ x ∈ tableNumbers sumTables locations, e ≤ x) ↔
      TablesFollow (· ≤ ·) e sumTables locations := by
  induction locations generalizing e sumTables with
  | nil => exact iff_of_true ⟨.nil, nofun⟩ trivial
  | cons n ns ih =>
    obtain ⟨hlow', hhigh'⟩ := toInt64_range (sumTables + n)
    rw [TablesFollow, ← ih hlow' hhigh']
    by_cases hn : 0 < n
    · rw [if_pos hn, tableNumbers_cons, Increasing, pairwise_append, forall_mem_append,
        increasing_map_toInt64_iff hlow hhigh hn]
      constructor
      · rintro ⟨⟨hend, hinc, hlt⟩, hfirst, -⟩
        rw [map_toInt64_range hlow hend] at hlt hfirst
        have hstart := hfirst (0 + sumTables) (mem_map.2 ⟨0, mem_range.2 (by omega), rfl⟩)
        refine ⟨fun _ => ⟨by omega, hend⟩, hinc, fun x hx => ?_⟩
        have := hlt (((n.toNat - 1 : Nat) : Int) + sumTables) (mem_map.2 ⟨_, mem_range.2 (by omega), rfl⟩) x hx
        omega
      · rintro ⟨hfollow, hinc, hle⟩
        obtain ⟨hstart, hend⟩ := hfollow hn
        rw [map_toInt64_range hlow hend]
        refine ⟨⟨hend, hinc, fun x hx y hy => ?_⟩, fun x hx => ?_, fun x hx => ?_⟩
        · obtain ⟨j, hj, rfl⟩ := mem_map.1 hx
          have := mem_range.1 hj
          have := hle y hy
          omega
        · obtain ⟨j, hj, rfl⟩ := mem_map.1 hx
          omega
        · have := hle x hx
          omega
    · rw [if_neg hn, tableNumbers_cons_of_nonpos (not_lt.1 hn), and_iff_right fun h => absurd h hn]

/-! ### Numbers without a gap -/

theorem getElem?_tableNumbers_iff (hlow : -2 ^ 63 ≤ sumTables) (hhigh : sumTables < 2 ^ 63) :
    (∀ (p : Nat) x, (tableNumbers sumTables locations)[p]? = some x → x = e + p) ↔
      TablesFollow (· = ·) e sumTables locations := by
  induction locations generalizing e sumTables with
  | nil => exact iff_of_true (fun p x h => by simp [tableNumbers, tablesOfLocations] at h) trivial
  | cons n ns ih =>
    obtain ⟨hlow', hhigh'⟩ := toInt64_range (sumTables + n)
    rw [TablesFollow, ← ih hlow' hhigh']
    by_cases hn : 0 < n
    · have hlen : ((range n.toNat).map fun j : Nat => toInt64 (j + sumTables)).length = n.toNat := by
        rw [length_map, length_range]
      rw [if_pos hn, tableNumbers_cons]
      constructor
      · intro h
        have hblock : ∀ j < n.toNat, toInt64 (j + sumTables) = e + j := by
          intro j hj
          refine h j _ ?_
          rw [getElem?_append_left (by omega), getElem?_map, getElem?_range hj]
          rfl
        have hstart := hblock 0 (by omega)
        rw [toInt64_of_range (by omega) (by omega)] at hstart
        have hend := hblock (n.toNat - 1) (by omega)
        have := toInt64_range (((n.toNat - 1 : Nat) : Int) + sumTables)
        refine ⟨fun _ => ⟨by omega, by omega⟩, fun p x hx => ?_⟩
        have := h (n.toNat + p) x (by rwa [getElem?_append_right (by omega), hlen, Nat.add_sub_cancel_left])
        omega
      · rintro ⟨hfollow, hrest⟩ p x hx
        obtain ⟨rfl, hend⟩ := hfollow hn
        rcases Nat.lt_or_ge p n.toNat with hp | hp
        · rw [getElem?_append_left (by omega), getElem?_map, getElem?_range hp] at hx
          have hx : toInt64 (p + e) = x := Option.some.inj hx
          rw [← hx, toInt64_of_range (by omega) (by omega)]
          omega
        · rw [getElem?_append_right (by omega), hlen] at hx
          have := hrest _ x hx
          omega
    · rw [if_neg hn, tableNumbers_cons_of_nonpos (not_lt.1 hn), and_iff_right fun h => absurd h hn]

/-- An increasing list of as many numbers as there are from zero up to its length has all of them. -/
theorem getElem_of_increasing {l : List Int} (hinc : Increasing l) (hrange : ∀ x ∈ l, 0 ≤ x ∧ x < l.length) {p : Nat}
    (hp : p < l.length) : l[p] = p := by
  have hstep : ∀ (d p : Nat) (hp : p < l.length) (hq : p + d < l.length), l[p] + d ≤ l[p + d] := by
    intro d p hp
    induction d with
    | zero => intro _; simp
    | succ d ih =>
      intro hq
      have := ih (by omega)
      have := pairwise_iff_getElem.1 hinc (p + d) (p + (d + 1)) (by omega) hq (by omega)
      omega
  have hfirst := hstep p 0 (by omega) (by omega)
  have hlast := hstep (l.length - 1 - p) p hp (by omega)
  have := (hrange _ (getElem_mem (show 0 < l.length by omega))).1
  have := (hrange _ (getElem_mem (show p + (l.length - 1 - p) < l.length by omega))).2
  simp only [Nat.zero_add] at hfirst
  omega

/-! ### Slices -/

def locationBlock (locations : List Int) (k : Nat) : List Int :=
  match locations[k]? with
  | some count => (range count.toNat).map fun j : Nat => toInt64 (j + (locations.take k).sum)
  | none => []

theorem toInt64_add_toInt64 (a b : Int) : toInt64 (a + toInt64 b) = toInt64 (a + b) := by
  unfold toInt64
  split <;> split <;> split <;> omega

theorem mem_locationBlock {k : Nat} : x ∈ locationBlock locations k ↔
    ∃ (count : Int) (j : Nat), locations[k]? = some count ∧ j < count.toNat ∧
    x = toInt64 (j + (locations.take k).sum) := by
  unfold locationBlock
  cases locations[k]? with
  | none => simp
  | some count =>
    simp only [mem_map, mem_range, Option.some.injEq]
    constructor
    · rintro ⟨j, hj, rfl⟩
      exact ⟨count, j, rfl, hj, rfl⟩
    · rintro ⟨_, j, rfl, hj, rfl⟩
      exact ⟨j, hj, rfl⟩

theorem mem_tablesOfLocations_iff {i : Nat} {t : Int × Int} : t ∈ tablesOfLocations sumTables i locations ↔
    ∃ (k : Nat) (count : Int) (j : Nat), locations[k]? = some count ∧ j < count.toNat ∧
      t = (toInt64 (j + (sumTables + (locations.take k).sum)), ((i + k : Nat) : Int)) := by
  induction locations generalizing sumTables i with
  | nil => simp [tablesOfLocations]
  | cons n ns ih =>
    rw [tablesOfLocations, mem_append, ih, mem_map]
    constructor
    · rintro (⟨j, hj, rfl⟩ | ⟨k, count, j, hcount, hj, rfl⟩)
      · exact ⟨0, n, j, rfl, mem_range.1 hj, by simp⟩
      · refine ⟨k + 1, count, j, hcount, hj, Prod.ext ?_ (congrArg Nat.cast (by omega))⟩
        rw [take_succ_cons, sum_cons, ← Int.add_assoc, Int.add_right_comm, toInt64_add_toInt64]
        exact congrArg toInt64 (by omega)
    · rintro ⟨k, count, j, hcount, hj, rfl⟩
      cases k with
      | zero =>
        cases hcount
        exact .inl ⟨j, mem_range.2 hj, by simp⟩
      | succ k =>
        refine .inr ⟨k, count, j, hcount, hj, Prod.ext ?_ (congrArg Nat.cast (by omega))⟩
        rw [take_succ_cons, sum_cons, ← Int.add_assoc (j : Int) (toInt64 _), Int.add_right_comm (j : Int),
          toInt64_add_toInt64]
        exact congrArg toInt64 (by omega)

theorem mem_tablesOfLocations {k : Int} :
    (x, k) ∈ tablesOfLocations 0 0 locations ↔ ∃ k' : Nat, k = k' ∧ x ∈ locationBlock locations k' := by
  simp only [mem_tablesOfLocations_iff, mem_locationBlock, Prod.mk.injEq, Int.zero_add, Nat.zero_add]
  constructor
  · rintro ⟨k', count, j, hcount, hj, hx, hk⟩
    exact ⟨k', hk, count, j, hcount, hj, hx⟩
  · rintro ⟨k', hk, count, j, hcount, hj, hx⟩
    exact ⟨k', count, j, hcount, hj, hx, hk⟩

end DbProxy
