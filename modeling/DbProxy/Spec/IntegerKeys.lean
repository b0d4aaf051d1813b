import DbProxy.Spec.SingleTable
import Mathlib.Algebra.Order.BigOperators.Group.List

/-!
# Integer keys

Hash, mod and numeric range rules locate integer keys.  Literals and stored keys are 64-bit integers, signed or
unsigned; both arrive as numbers that the shards convert in the same way, so a literal lies where an equal key lies.
A range rule locates in order when its ranges ascend.
-/

namespace DbProxy

open Fallible List

def intLiteral : Datum → Option Int
  | .int64 n => some n.toInt
  | .uint64 n => some n.toNat
  | _ => none

def Ascending (rs : List NumKeyRange) : Prop :=
  rs.Pairwise (fun a b => a.stop ≤ b.start) ∧ ∀ r ∈ rs, r.start ≤ r.stop

instance (rs : List NumKeyRange) : Decidable (Ascending rs) := inferInstanceAs (Decidable (_ ∧ _))

/-! ### Numbers of literals -/

section Literals

variable {v : Datum} {n : Int}

theorem intLiteral_range (h : intLiteral v = some n) : -2 ^ 63 ≤ n ∧ n < 2 ^ 64 := by
  cases v with
  | int64 m =>
    obtain rfl : m.toInt = n := Option.some.inj h
    have h₁ := m.le_toInt
    have h₂ := m.toInt_lt
    omega
  | uint64 m =>
    obtain rfl : (m.toNat : Int) = n := Option.some.inj h
    have := m.toNat_lt
    omega
  | _ => cases h

theorem hashValue_literal (h : intLiteral v = some n) : hashValue v.value = .ok (toUint64 n) := by
  cases v with
  | int64 m =>
    obtain rfl : m.toInt = n := Option.some.inj h
    rfl
  | uint64 m =>
    obtain rfl : (m.toNat : Int) = n := Option.some.inj h
    rfl
  | _ => cases h

theorem numValue_literal (h : intLiteral v = some n) : numValue v.value = .ok (toInt64 n) := by
  cases v with
  | int64 m =>
    obtain rfl : m.toInt = n := Option.some.inj h
    have hm : toInt64 m.toInt = m.toInt := toInt64_of_range m.le_toInt m.toInt_lt
    rw [hm]
    rfl
  | uint64 m =>
    obtain rfl : (m.toNat : Int) = n := Option.some.inj h
    rfl
  | _ => cases h

end Literals

/-! ### Ranges -/

section Ranges

variable {rs : List NumKeyRange} {a b : Int} {i j : Nat}

theorem contains_iff {r : NumKeyRange} {x : Int} :
    r.contains x = true ↔ r.start ≤ x ∧ (r.stop = maxNumKey ∨ x < r.stop) := by
  simp [NumKeyRange.contains]

theorem findIdx_le (hasc : Ascending rs) (hi : rs.findIdx? (·.contains a) = some i)
    (hj : rs.findIdx? (·.contains b) = some j) (hab : a ≤ b) : i ≤ j := by
  obtain ⟨hil, hai, hfirst⟩ := findIdx?_eq_some_iff_getElem.1 hi
  obtain ⟨hjl, hbj, _⟩ := findIdx?_eq_some_iff_getElem.1 hj
  by_contra hlt
  have hlt : j < i := not_le.1 hlt
  have hgap : rs[j].stop ≤ rs[i].start := pairwise_iff_getElem.1 hasc.1 j i hjl hil hlt
  have hne : rs[j].start ≤ rs[j].stop := hasc.2 _ (getElem_mem hjl)
  rw [contains_iff] at hai hbj
  -- the range of `b` begins below `a`; as the first range with `a` comes later, `a` is above its end
  have hnot : ¬ (rs[j].contains a = true) := hfirst j hlt
  rw [contains_iff] at hnot
  omega

theorem findIdx_lt_of_lt_start (hasc : Ascending rs) (hi : rs.findIdx? (·.contains a) = some i) (hjl : j < rs.length)
    (ha : a < rs[j].start) : i < j := by
  obtain ⟨hil, hai, _⟩ := findIdx?_eq_some_iff_getElem.1 hi
  rw [contains_iff] at hai
  by_contra hle
  rcases Nat.eq_or_lt_of_le (not_lt.1 hle) with rfl | hlt
  · omega
  · have hgap : rs[j].stop ≤ rs[i].start := pairwise_iff_getElem.1 hasc.1 j i hjl hil hlt
    have hne : rs[j].start ≤ rs[j].stop := hasc.2 _ (getElem_mem hjl)
    omega

theorem numRangeFindForKey_eq_ok {key : GoVal} {x i : Int} (hx : numValue key = .ok x)
    (h : numRangeFindForKey rs key = .ok i) : ∃ m : Nat, rs.findIdx? (·.contains x) = some m ∧ i = m := by
  unfold numRangeFindForKey at h
  obtain ⟨y, hy, h⟩ := bind_eq_ok.1 h
  obtain rfl : x = y := ok_unique hx hy
  split at h
  · next m hm => exact ⟨m, hm, (Except.ok.inj h).symm⟩
  · cases h

end Ranges

/-! ### The three rules locate integer keys -/

section Locating

variable {rule : Rule} {k i : Int}
variable {m : Nat} {key key' : GoVal} {n : Int} {rs : List NumKeyRange}

theorem findForKey_hash_congr (h : hashValue key = hashValue key') :
    (hashShard m).findForKey key = (hashShard m).findForKey key' := by
  simp only [hashShard, h]

theorem findForKey_mod_congr (h : numValue key = numValue key') :
    (modShard m).findForKey key = (modShard m).findForKey key' := by
  simp only [modShard, h]

theorem locates_of_noRange (hnone : rule.getShard.equalStart = none)
    (heq : ∀ v j, intLiteral v = some k → rule.findTableIndex v.value = .ok j → i = j) :
    Locates rule intLiteral k i ∧ StartIsLeast rule intLiteral k i := by
  refine ⟨⟨heq, ?_, ?_⟩, ?_⟩
  · intro v n j hs
    exact absurd hnone hs
  · intro v n j hs
    exact absurd hnone hs
  · intro equalStart v n j hs
    rw [hnone] at hs
    cases hs

theorem locates_hash (hshard : rule.getShard = hashShard m) (hfind : rule.findTableIndex (keyVal k) = .ok i) :
    Locates rule intLiteral k i ∧ StartIsLeast rule intLiteral k i := by
  refine locates_of_noRange (by rw [hshard]; rfl) ?_
  intro v j hv hj
  have hval : hashValue (keyVal k) = hashValue v.value := by rw [hashValue_keyVal, hashValue_literal hv]
  unfold Rule.findTableIndex at hfind hj
  rw [hshard] at hfind hj
  rw [findForKey_hash_congr hval] at hfind
  exact ok_unique hfind hj

theorem locates_mod (hshard : rule.getShard = modShard m) (hk : -2 ^ 63 ≤ k)
    (hfind : rule.findTableIndex (keyVal k) = .ok i) :
    Locates rule intLiteral k i ∧ StartIsLeast rule intLiteral k i := by
  refine locates_of_noRange (by rw [hshard]; rfl) ?_
  intro v j hv hj
  have hval : numValue (keyVal k) = numValue v.value := by rw [numValue_keyVal hk, numValue_literal hv]
  unfold Rule.findTableIndex at hfind hj
  rw [hshard] at hfind hj
  rw [findForKey_mod_congr hval] at hfind
  exact ok_unique hfind hj

theorem toInt64_of_nonneg (h₁ : -2 ^ 63 ≤ n) (h₂ : n < 2 ^ 64) (h : 0 ≤ toInt64 n) : toInt64 n = n := by
  unfold toInt64 at h ⊢
  split at h <;> split <;> omega

/-- Ranges that start at zero or above hold a 64-bit number only as itself: an unsigned number from `2 ^ 63` on
becomes negative. -/
theorem findIdx_of_numRange (hnn : ∀ r ∈ rs, 0 ≤ r.start) {j : Int}
    (h₁ : -2 ^ 63 ≤ n) (h₂ : n < 2 ^ 64) (hval : numValue key = .ok (toInt64 n))
    (h : numRangeFindForKey rs key = .ok j) :
    toInt64 n = n ∧ ∃ m : Nat, rs.findIdx? (·.contains n) = some m ∧ j = m := by
  obtain ⟨m, hm, hj⟩ := numRangeFindForKey_eq_ok hval h
  obtain ⟨hml, hcontains, _⟩ := findIdx?_eq_some_iff_getElem.1 hm
  have hstart := hnn _ (getElem_mem hml)
  rw [contains_iff] at hcontains
  have hn := toInt64_of_nonneg h₁ h₂ (by omega)
  rw [hn] at hm
  exact ⟨hn, m, hm, hj⟩

theorem locates_range (hshard : rule.getShard = numRangeShard rs) (hasc : Ascending rs)
    (hnn : ∀ r ∈ rs, 0 ≤ r.start) (hk₁ : -2 ^ 63 ≤ k) (hk₂ : k < 2 ^ 64)
    (hfind : rule.findTableIndex (keyVal k) = .ok i) :
    Locates rule intLiteral k i ∧ StartIsLeast rule intLiteral k i := by
  unfold Rule.findTableIndex at hfind
  rw [hshard] at hfind
  obtain ⟨_, mi, hmi, hi⟩ := findIdx_of_numRange hnn hk₁ hk₂ (numValue_keyVal hk₁) hfind
  have hlit : ∀ v n j, intLiteral v = some n → rule.findTableIndex v.value = .ok j →
      toInt64 n = n ∧ ∃ m : Nat, rs.findIdx? (·.contains n) = some m ∧ j = m := by
    intro v n j hv hj
    unfold Rule.findTableIndex at hj
    rw [hshard] at hj
    have hr := intLiteral_range hv
    exact findIdx_of_numRange hnn hr.1 hr.2 (numValue_literal hv) hj
  refine ⟨⟨?_, ?_, ?_⟩, ?_⟩
  · intro v j hv hj
    obtain ⟨_, m, hm, hjm⟩ := hlit v k j hv hj
    rw [hmi] at hm
    cases hm
    omega
  · intro v n j _ hv hj hkn
    obtain ⟨_, m, hm, hjm⟩ := hlit v n j hv hj
    have := findIdx_le hasc hmi hm hkn
    omega
  · intro v n j _ hv hj hnk
    obtain ⟨_, m, hm, hjm⟩ := hlit v n j hv hj
    have := findIdx_le hasc hm hmi hnk
    omega
  · intro equalStart v n j hs hv hj hstart hkn
    obtain ⟨hn, m, hm, hjm⟩ := hlit v n j hv hj
    obtain ⟨hml, _, _⟩ := findIdx?_eq_some_iff_getElem.1 hm
    rw [hshard] at hs
    obtain rfl : numRangeEqualStart rs = equalStart := Option.some.inj hs
    have hneg : ¬ ((m : Int) < 0) := by omega
    have hmstart : rs[m].start = n := by
      simp only [numRangeEqualStart, numValue_literal hv, hn, hjm] at hstart
      simpa [bind, Except.bind, hneg, getElem?_eq_getElem hml] using hstart
    have := findIdx_lt_of_lt_start hasc hmi hml (by omega)
    omega

end Locating

/-! ### The ranges of a configuration -/

section Sharding

variable {locations : List Int} {limit : Int} {rs : List NumKeyRange}

section

variable (h : parseNumSharding locations limit = .ok rs)

include h

theorem parseNumSharding_getElem {m : Nat} (hm : m < rs.length) :
    rs[m].start = toInt64 (m * limit) ∧ rs[m].stop = toInt64 ((m + 1) * limit) := by
  unfold parseNumSharding at h
  split at h
  · cases h
  · have hrs := (Except.ok.inj h).symm
    simp [hrs]

theorem parseNumSharding_nonneg (hasc : Ascending rs) :
    ∀ r ∈ rs, 0 ≤ r.start := by
  intro r hr
  obtain ⟨m, hm, rfl⟩ := mem_iff_getElem.1 hr
  have hlen : 0 < rs.length := by omega
  have hzero : rs[0].start = 0 := by rw [(parseNumSharding_getElem h hlen).1, Int.ofNat_zero, Int.zero_mul]; rfl
  rcases Nat.eq_zero_or_pos m with rfl | hpos
  · omega
  · have hgap : rs[0].stop ≤ rs[m].start := pairwise_iff_getElem.1 hasc.1 0 m hlen hm hpos
    have hne : rs[0].start ≤ rs[0].stop := hasc.2 _ (getElem_mem hlen)
    omega

theorem parseNumSharding_length : (rs.length : Int) = toInt64 locations.sum := by
  unfold parseNumSharding at h
  split at h
  · cases h
  · rw [← Except.ok.inj h, length_map, length_range]
    omega

theorem contains_iff_ediv (hlength : (rs.length : Int) = locations.sum) (hlimit : 0 < limit)
    (hsmall : locations.sum * limit < maxNumKey) {m : Nat} (hm : m < rs.length) (v : Int) :
    rs[m].contains v = true ↔ v / limit = m := by
  obtain ⟨hstart, hstop⟩ := parseNumSharding_getElem h hm
  have hle : (m + 1) * limit ≤ locations.sum * limit := Int.mul_le_mul_of_nonneg_right (by omega) hlimit.le
  have hnonneg : 0 ≤ m * limit := Int.mul_nonneg (by omega) hlimit.le
  have hsucc : ((m : Int) + 1) * limit = m * limit + limit := by rw [Int.add_mul, Int.one_mul]
  unfold maxNumKey at hsmall
  rw [contains_iff, hstart, hstop, toInt64_of_range (by omega) (by omega), toInt64_of_range (by omega) (by omega),
    Int.ediv_eq_iff_of_pos hlimit]
  unfold maxNumKey
  omega

theorem numRangeFindForKey_eq (hlength : (rs.length : Int) = locations.sum) (hlimit : 0 < limit)
    (hsmall : locations.sum * limit < maxNumKey) {key : GoVal} {v : Int} (hv : numValue key = .ok v) :
    numRangeFindForKey rs key =
      if 0 ≤ v ∧ v < locations.sum * limit then .ok (v / limit) else .error errKeyOutOfRange := by
  have hcontains (m : Nat) (hm : m < rs.length) := contains_iff_ediv h hlength hlimit hsmall hm v
  simp only [numRangeFindForKey, hv, bind, Except.bind]
  by_cases hin : 0 ≤ v ∧ v < locations.sum * limit
  · have hlt := Int.ediv_lt_of_lt_mul hlimit hin.2
    have hnonneg := Int.ediv_nonneg hin.1 hlimit.le
    have hfind : rs.findIdx? (·.contains v) = some (v / limit).toNat := by
      refine findIdx?_eq_some_iff_getElem.2 ⟨by omega, (hcontains _ _).2 (by omega), fun j hj h => ?_⟩
      have := (hcontains j (by omega)).1 h
      omega
    rw [hfind, if_pos hin]
    exact congrArg Except.ok (Int.toNat_of_nonneg hnonneg)
  · have hfind : rs.findIdx? (·.contains v) = none := by
      refine findIdx?_eq_none_iff.2 fun r hr => Bool.eq_false_iff.2 fun h => hin ?_
      obtain ⟨m, hm, rfl⟩ := mem_iff_getElem.1 hr
      obtain ⟨hle, hgt⟩ := (Int.ediv_eq_iff_of_pos hlimit).1 ((hcontains m hm).1 h)
      have hnonneg : 0 ≤ m * limit := Int.mul_nonneg (by omega) hlimit.le
      have hlast : (m + 1) * limit ≤ locations.sum * limit := Int.mul_le_mul_of_nonneg_right (by omega) hlimit.le
      rw [Int.add_mul, Int.one_mul] at hlast
      omega
    rw [hfind, if_neg hin]

end

/-- The keys below the number of tables times the row limit lie in their tables, and no other key in any, exactly if
this product is below the greatest integer. -/
theorem numRange_exact_iff (hlocations : ∀ l ∈ locations, 0 ≤ l) (hlimit : 0 < limit) (hword : limit < 2 ^ 63) :
    (∃ rs, parseNumSharding locations limit = .ok rs ∧ ∀ key v, numValue key = .ok v →
      numRangeFindForKey rs key =
        if 0 ≤ v ∧ v < locations.sum * limit then .ok (v / limit) else .error errKeyOutOfRange) ↔
      locations.sum * limit < maxNumKey := by
  have hnonneg : 0 ≤ locations.sum := List.sum_nonneg hlocations
  -- a product within the integers is one of a sum within the integers
  have hsum (h : locations.sum * limit ≤ maxNumKey) : toInt64 locations.sum = locations.sum := by
    have hle : locations.sum * 1 ≤ locations.sum * limit := Int.mul_le_mul_of_nonneg_left (by omega) hnonneg
    unfold maxNumKey at h
    exact toInt64_of_range (by omega) (by omega)
  constructor
  · rintro ⟨rs, hrs, hfind⟩
    by_contra hge
    have hmax := hfind (.int64 maxNumKey) maxNumKey rfl
    rcases Int.lt_or_eq_of_le (not_lt.1 hge) with hlt | heq
    · -- the greatest integer has a table, whose end wraps
      rw [if_pos ⟨by decide, hlt⟩] at hmax
      obtain ⟨m, hm, heq⟩ := numRangeFindForKey_eq_ok rfl hmax
      obtain ⟨hm, hcontains, -⟩ := findIdx?_eq_some_iff_getElem.1 hm
      obtain ⟨hle, hgt⟩ := (Int.ediv_eq_iff_of_pos hlimit).1 heq
      have hsucc : ((m : Int) + 1) * limit = m * limit + limit := by rw [Int.add_mul, Int.one_mul]
      rw [contains_iff, (parseNumSharding_getElem hrs hm).2] at hcontains
      unfold maxNumKey at hcontains hle hgt
      unfold toInt64 at hcontains
      split at hcontains <;> omega
    · -- the end of the last table means that there is none
      have hlength := (parseNumSharding_length hrs).trans (hsum heq.ge)
      obtain ⟨n, hn⟩ : ∃ n, rs.length = n + 1 := Nat.exists_eq_succ_of_ne_zero fun h => by
        rw [← hlength, h, Int.ofNat_zero, Int.zero_mul] at heq
        exact absurd heq (by decide)
      have hcontains : rs[n].contains maxNumKey = true := by
        obtain ⟨hstart, hstop⟩ := parseNumSharding_getElem hrs (m := n) (by omega)
        rw [contains_iff, hstart, hstop, show ((n : Int) + 1) = locations.sum by omega, ← heq]
        exact ⟨Int.le_sub_one_of_lt (toInt64_range _).2, .inl (by decide)⟩
      rw [if_neg (by omega)] at hmax
      simp only [numRangeFindForKey, numValue, bind, Except.bind] at hmax
      split at hmax
      · cases hmax
      · next hnone =>
        rw [findIdx?_eq_none_iff.1 hnone _ (getElem_mem _)] at hcontains
        cases hcontains
  · intro hsmall
    obtain ⟨rs, hrs⟩ : ∃ rs, parseNumSharding locations limit = .ok rs :=
      ⟨_, if_neg (by rw [hsum hsmall.le]; exact not_lt.2 hnonneg)⟩
    have hlength := (parseNumSharding_length hrs).trans (hsum hsmall.le)
    exact ⟨rs, hrs, fun key v hv => numRangeFindForKey_eq hrs hlength hlimit hsmall hv⟩

theorem numRange_exact_hundred : (2 + 2) * 100 < maxNumKey ∧ ∃ rs, parseNumSharding [2, 2] 100 = .ok rs ∧
    ∀ key v, numValue key = .ok v → numRangeFindForKey rs key =
      if 0 ≤ v ∧ v < [2, 2].sum * 100 then .ok (v / 100) else .error errKeyOutOfRange :=
  ⟨by decide, (numRange_exact_iff (by decide) (by decide) (by decide)).2 (by decide)⟩

/-- An end that wraps leaves out keys, and an end at the greatest integer lets in one too many. -/
theorem numRange_inexact : (parseNumSharding [2] (2 ^ 62)).bind (numRangeFindForKey · (.int64 (2 ^ 62))) =
    .error errKeyOutOfRange ∧
    (parseNumSharding [1] (2 ^ 63 - 1)).bind (numRangeFindForKey · (.int64 (2 ^ 63 - 1))) = .ok 0 := by
  decide +kernel

end Sharding

/-! ### Rules built from a configuration -/

section Parsed

variable {toLower : String → String} {rest : ShardConfig → Except Fail BaseRule} {cfg : ShardConfig} {b : BaseRule}

theorem parseRule_eq_ok (h : parseRule toLower rest cfg = .ok b)
    (htype : cfg.type = .hash ∨ cfg.type = .mod ∨ cfg.type = .range) : b.ruleType = cfg.type ∧
      parseHashRuleSliceInfos cfg.locations cfg.slices = .ok (b.subTableIndexes, b.tableToSlice) ∧
      ((cfg.type = .hash ∧ ∃ m, b.shard = hashShard m) ∨ (cfg.type = .mod ∧ ∃ m, b.shard = modShard m) ∨
        (cfg.type = .range ∧ ∃ rs, parseNumSharding cfg.locations cfg.tableRowLimit = .ok rs ∧
          b.shard = numRangeShard rs)) := by
  unfold parseRule parseRuleSliceInfos at h
  rcases htype with ht | ht | ht <;> simp only [ht] at h <;>
    obtain ⟨⟨idx, m, shard⟩, hinfo, h⟩ := bind_eq_ok.1 h <;>
    obtain ⟨⟨idx', m'⟩, hidx, hinfo⟩ := bind_eq_ok.1 hinfo
  · cases hinfo
    cases h
    exact ⟨ht.symm, hidx, .inl ⟨ht, _, rfl⟩⟩
  · cases hinfo
    cases h
    exact ⟨ht.symm, hidx, .inr (.inl ⟨ht, _, rfl⟩)⟩
  · obtain ⟨rs, hrs, hinfo⟩ := bind_eq_ok.1 hinfo
    simp only at hinfo
    split at hinfo
    · cases hinfo
    · cases hinfo
      cases h
      exact ⟨ht.symm, hidx, .inr (.inr ⟨ht, rs, hrs, rfl⟩)⟩

end Parsed

/-! ### Soundness of `WHERE` -/

def bareColumn (name : String) : ColumnName := ⟨.empty, .empty, ⟨name, name⟩⟩

def qualifiedColumn (table name : String) : ColumnName := ⟨.empty, ⟨table, table⟩, ⟨name, name⟩⟩

def unqualifiedTable (name : String) : TableName := { schema := .empty, name := ⟨name, name⟩ }

/-- No `WHERE` loses a row at index `i`: when it is true of a row whose key lies there, the plan of a `SELECT`,
`UPDATE` or `DELETE` on the table keeps the index. -/
def Rule.LosesNoRow (rule : Rule) (i : Int) : Prop :=
  ∀ k : Int, -2 ^ 63 ≤ k → k < 2 ^ 64 → rule.findTableIndex (keyVal k) = .ok i →
    ∀ (db : String) (router : Router) order (n : TableName) asName, router.getShardRule db n.name.l = some rule →
      ∀ other (e : Expr Parsed) indexes,
        (∀ a ∈ e.atoms, a.namesDatabase = false ∧ keyAtom intLiteral rule.getShardingColumn a = true) →
        (rowReading rule.getShardingColumn k intLiteral other).truth e = some true →
        WhereRoute db router order n asName e indexes → i ∈ indexes

section Sound

variable {rule : Rule} {i k : Int} {toLower : String → String} {rest : ShardConfig → Except Fail BaseRule}
  {cfg : ShardConfig} {b : BaseRule}

theorem locates_parsed (hparse : parseRule toLower rest cfg = .ok b)
    (htype : cfg.type = .hash ∨ cfg.type = .mod ∨ cfg.type = .range)
    (hasc : cfg.type = .range → ∀ rs, parseNumSharding cfg.locations cfg.tableRowLimit = .ok rs → Ascending rs)
    (hparent : rule.parent = b) (hk₁ : -2 ^ 63 ≤ k) (hk₂ : k < 2 ^ 64)
    (hfind : rule.findTableIndex (keyVal k) = .ok i) :
    Locates rule intLiteral k i ∧ StartIsLeast rule intLiteral k i := by
  have hgetShard : rule.getShard = b.shard := by rw [Rule.getShard, hparent]
  obtain ⟨_, _, hshard⟩ := parseRule_eq_ok hparse htype
  rcases hshard with ⟨_, m, hm⟩ | ⟨_, m, hm⟩ | ⟨ht, rs, hrs, hm⟩
  · exact locates_hash (hgetShard.trans hm) hfind
  · exact locates_mod (hgetShard.trans hm) hk₁ hfind
  · exact locates_range (hgetShard.trans hm) (hasc ht rs hrs) (parseNumSharding_nonneg hrs (hasc ht rs hrs)) hk₁ hk₂
      hfind

theorem findTableIndex_congr (hparse : parseRule toLower rest cfg = .ok b)
    (htype : cfg.type = .hash ∨ cfg.type = .mod ∨ cfg.type = .range) (hparent : rule.parent = b) {key key' : GoVal}
    (hhash : hashValue key = hashValue key') (hnum : numValue key = numValue key') :
    rule.findTableIndex key = rule.findTableIndex key' := by
  obtain ⟨_, _, hshard⟩ := parseRule_eq_ok hparse htype
  rw [Rule.findTableIndex, Rule.findTableIndex, Rule.getShard, hparent]
  rcases hshard with ⟨_, m, hm⟩ | ⟨_, m, hm⟩ | ⟨_, rs, _, hm⟩ <;> rw [hm]
  · exact findForKey_hash_congr hhash
  · exact findForKey_mod_congr hnum
  · simp only [numRangeShard, numRangeFindForKey, hnum]

/-- The literal for a number: the parser has no negative ones. -/
def natLiteral (n : Int) : Datum := if n < 2 ^ 63 then .int64 (.ofInt n) else .uint64 (.ofNat n.toNat)

theorem intLiteral_natLiteral (h₀ : 0 ≤ k) (h : k < 2 ^ 64) :
    intLiteral (natLiteral k) = some k ∧ (natLiteral k).value = keyVal k := by
  unfold natLiteral keyVal
  split
  · have hk : (Int64.ofInt k).toInt = k := Int64.toInt_ofInt_of_le (by omega) (by omega)
    exact ⟨congrArg some hk, congrArg GoVal.int64 hk⟩
  · have hk : ((UInt64.ofNat k.toNat).toNat : Int) = k := by
      rw [UInt64.toNat_ofNat_of_lt' (by unfold UInt64.size; omega)]
      omega
    exact ⟨congrArg some hk, congrArg GoVal.uint64 hk⟩

/-- A key from `2 ^ 63` on lies where the negative one with the same bits does. -/
theorem exists_nonneg_key (hparse : parseRule toLower rest cfg = .ok b)
    (htype : cfg.type = .hash ∨ cfg.type = .mod ∨ cfg.type = .range) (hparent : rule.parent = b) (hk₁ : -2 ^ 63 ≤ k)
    (hk₂ : k < 2 ^ 64) (hfind : rule.findTableIndex (keyVal k) = .ok i) :
    ∃ n, 0 ≤ n ∧ n < 2 ^ 64 ∧ rule.findTableIndex (keyVal n) = .ok i := by
  by_cases hk : 0 ≤ k
  · exact ⟨k, hk, hk₂, hfind⟩
  · refine ⟨k + 2 ^ 64, by omega, by omega, ?_⟩
    refine (findTableIndex_congr hparse htype hparent ?_ ?_).trans hfind
    · rw [hashValue_keyVal, hashValue_keyVal, toUint64, toUint64, Int.add_emod_right]
    · rw [numValue_keyVal (by omega), numValue_keyVal hk₁, toInt64, toInt64, Int.add_emod_right]

/-- `DELETE FROM t WHERE column op n`. -/
def deleteWhere (column : String) (op : Op) (n : Int) : DeleteStmt Parsed :=
  { tableRefs := singleTable (unqualifiedTable "t") .empty
    cond := some (.binary op (.column () (bareColumn column)) (.value (natLiteral n))) }

theorem whereRoute_nil {op : Op} {route : List Int} (hop : op = .eq ∨ op = .ge) (hg : rule.getType ≠ .global)
    (hroute : findTableIndexes op rule rule.getShardingColumn (natLiteral k).value = .ok route)
    (hnil : interList rule.getSubTableIndexes route = []) :
    WhereRoute "db" ⟨[(("db", "t"), rule)]⟩ .insertion (unqualifiedTable "t") .empty
      (.binary op (.column () (bareColumn rule.getShardingColumn)) (.value (natLiteral k))) [] := by
  let p₀ := newTableAliasStmtInfo "db" ⟨[(("db", "t"), rule)]⟩ .insertion
  let p : TableAliasStmtInfo := { p₀ with
    tableRules := [("t", rule)], result := ⟨rule.getDB, StmtInfo.ruleTable rule, rule.getSubTableIndexes⟩ }
  have hrecord : p₀.toStmtInfo.recordShardTable "" "t" = .ok (rule, p.toStmtInfo) := by
    have hget : p₀.toStmtInfo.getShardRule "" "t" = .ok (rule, { p₀.toStmtInfo with tableRules := [("t", rule)] }) :=
      congrArg (fun s => Except.ok (rule, s)) (if_neg hg)
    refine bind_eq_ok.2 ⟨_, wrapErr_eq_ok.2 hget, ?_⟩
    exact bind_eq_ok.2 ⟨_, wrapErr_eq_ok.2 ((if_neg hg).trans (if_pos ⟨rfl, rfl⟩)), rfl⟩
  have hrefs : handleModifyTableRefs p₀ (singleTable (unqualifiedTable "t") .empty) =
      .ok (.ofSource (.table rule (unqualifiedTable "t") .empty) {}, p) := by
    have htable : p₀.recordShardTable "" "t" "" = .ok (rule, p) := bind_eq_ok.2 ⟨_, wrapErr_eq_ok.2 hrecord, rfl⟩
    have hsource : rewriteTableSource p₀ (.table () (unqualifiedTable "t") .empty) =
        .ok (.table rule (unqualifiedTable "t") .empty, p) :=
      bind_eq_ok.2 ⟨_, bind_eq_ok.2 ⟨_, wrapErr_eq_ok.2 htable, rfl⟩, rfl⟩
    exact bind_eq_ok.2 ⟨(), rfl, bind_eq_ok.2 ⟨_, wrapErr_eq_ok.2 hsource, rfl⟩⟩
  have hcolumn : needCreateColumnNameDecorator p (bareColumn rule.getShardingColumn) = .ok (some ⟨rule, false⟩) := by
    have hname : p.getSettedRuleByColumnName rule.getShardingColumn = .ok (some rule) := by
      simp [TableAliasStmtInfo.getSettedRuleByColumnName, p]
    exact bind_eq_ok.2 ⟨_, bind_eq_ok.2 ⟨_, hname, rfl⟩, rfl⟩
  have hcond : ∃ cond, handleWhere p (some (.binary op (.column () (bareColumn rule.getShardingColumn))
      (.value (natLiteral k)))) = .ok (cond, p.inter route) := by
    have hcompare : ∃ c, handleBinaryOperationExprMathCompare p op (.column () (bareColumn rule.getShardingColumn))
        (.value (natLiteral k)) = .ok c ∧ p.applyCond c = p.inter route := by
      have hhint : databaseHint op (.column () (bareColumn rule.getShardingColumn))
          (.value (natLiteral k)) = .ok "" := by
        rcases hop with rfl | rfl <;> rfl
      refine ⟨_, bind_eq_ok.2 ⟨_, hhint, bind_eq_ok.2 ⟨_, wrapErr_eq_ok.2 hcolumn, (if_neg hg).trans
        (bind_eq_ok.2 ⟨_, wrapErr_eq_ok.2 hroute, rfl⟩)⟩⟩, rfl⟩
    obtain ⟨c, hc, happly⟩ := hcompare
    refine ⟨some c.expr, bind_eq_ok.2 ⟨c, wrapErr_eq_ok.2 ?_, happly ▸ rfl⟩⟩
    rcases hop with rfl | rfl <;> exact hc
  obtain ⟨cond, hcond⟩ := hcond
  have hindexes : (p.inter route).result.indexes = [] := hnil
  have hplan : ∃ plan, handleDeletePlan p₀ (deleteWhere rule.getShardingColumn op k) = .ok plan ∧
      plan.info = p.inter route := by
    have hsqls : ∀ restore, generateShardingSQLs restore (p.inter route).result p.router = .ok [] := by
      intro restore
      rw [generateShardingSQLs, hindexes]
      rfl
    exact ⟨_, bind_eq_ok.2 ⟨_, wrapErr_eq_ok.2 hrefs, bind_eq_ok.2 ⟨_, wrapErr_eq_ok.2 hcond, bind_eq_ok.2
      ⟨none, rfl, bind_eq_ok.2 ⟨[], wrapErr_eq_ok.2 (hsqls _), rfl⟩⟩⟩⟩, rfl⟩
  obtain ⟨plan, hplan, hinfo⟩ := hplan
  have := WhereRoute.delete (deleteWhere rule.getShardingColumn op k) plan rfl rfl hplan
  rwa [hinfo, hindexes] at this

end Sound

/-- The rows at an index are never lost exactly if the rule's routes do not pass over it. -/
theorem where_route_sound_iff (toLower : String → String) (rest : ShardConfig → Except Fail BaseRule)
    (cfg : ShardConfig) (b : BaseRule) (hparse : parseRule toLower rest cfg = .ok b)
    (htype : cfg.type = .hash ∨ cfg.type = .mod ∨ cfg.type = .range)
    (hasc : cfg.type = .range → ∀ rs, parseNumSharding cfg.locations cfg.tableRowLimit = .ok rs → Ascending rs)
    (rule : Rule) (hparent : rule.parent = b) (i : Int)
    (hkey : ∃ k : Int, -2 ^ 63 ≤ k ∧ k < 2 ^ 64 ∧ rule.findTableIndex (keyVal k) = .ok i) :
    rule.LosesNoRow i ↔ rule.Finds i := by
  have hg : rule.getType ≠ .global := by
    rw [Rule.getType, hparent, (parseRule_eq_ok hparse htype).1]
    rcases htype with ht | ht | ht <;> simp [ht]
  constructor
  · intro h
    obtain ⟨k, hk₁, hk₂, hfind⟩ := hkey
    obtain ⟨n, hn, hn₂, hfind⟩ := exists_nonneg_key hparse htype hparent hk₁ hk₂ hfind
    obtain ⟨hliteral, hvalue⟩ := intLiteral_natLiteral hn hn₂
    -- a comparison with the key itself whose route misses the index
    have hlost : ∀ op route, op = .eq ∨ op = .ge →
        findTableIndexes op rule rule.getShardingColumn (natLiteral n).value = .ok route →
        interList rule.getSubTableIndexes route ≠ [] := by
      intro op route hop hroute hnil
      have hrow := h n (by omega) hn₂ hfind "db" ⟨[(("db", "t"), rule)]⟩ .insertion (unqualifiedTable "t") .empty rfl
        (fun _ => none) _ [] ?_ ?_ (whereRoute_nil hop hg hroute hnil)
      · cases hrow
      · rcases hop with rfl | rfl <;>
          simp [Expr.atoms, Op.isLogic, Expr.namesDatabase, Expr.isDatabaseCall, keyAtom, Op.isCompare, Expr.isColumn,
            Expr.isValue, Expr.isLiteral, hliteral, bareColumn]
      · rcases hop with rfl | rfl <;>
          simp [Reading.truth, Reading.compare, rowReading, bareColumn, hliteral, Op.holds]
    refine ⟨?_, ?_⟩
    · have hroute : findTableIndexes .eq rule rule.getShardingColumn (natLiteral n).value = .ok [i] := by
        rw [findTableIndexes, if_neg (by simp), hvalue]
        exact bind_eq_ok.2 ⟨i, hfind, rfl⟩
      obtain ⟨j, hj⟩ := exists_mem_of_ne_nil _ (hlost .eq [i] (.inl rfl) hroute)
      obtain rfl := mem_singleton.1 (mem_of_mem_interList hj).2
      rwa [interList_eq, SortedMerge.mem_inter_singleton] at hj
    · intro hs j hj
      obtain ⟨equalStart, hs⟩ := Option.ne_none_iff_exists'.1 hs
      have hroute : findTableIndexes .ge rule rule.getShardingColumn (natLiteral n).value =
          .ok (makeList i (j + 1)) := by
        rw [findTableIndexes, if_neg (by simp), hvalue]
        simp only [hs]
        exact bind_eq_ok.2 ⟨i, hfind, bind_eq_ok.2 ⟨j, hj, rfl⟩⟩
      obtain ⟨x, hx⟩ := exists_mem_of_ne_nil _ (hlost .ge _ (.inr rfl) hroute)
      have := mem_makeList.1 (mem_of_mem_interList hx).2
      omega
  · intro hfinds k hk₁ hk₂ hfind db router order n asName hrule other e indexes he htrue hroute
    obtain ⟨hloc, hstart⟩ := locates_parsed hparse htype hasc hparent hk₁ hk₂ hfind
    exact hroute.mem hrule hg hfinds hloc hstart (fun a ha => (he a ha).1) (fun a ha => (he a ha).2) htrue

/-- A table `t` of four sub-tables on two slices, split by the hash of `id`. -/
def hashConfig : ShardConfig :=
  { db := "db", table := "t", key := "id", type := .hash, locations := [2, 2], slices := ["s0", "s1"]
    tableRowLimit := 0 }

def hashRule : BaseRule :=
  { db := "db", table := "t", shardingColumn := "id", ruleType := .hash, slices := ["s0", "s1"]
    subTableIndexes := [0, 1, 2, 3], tableToSlice := [(0, 0), (1, 0), (2, 1), (3, 1)], shard := hashShard 4 }

def hashRouter : Router := ⟨[(("db", "t"), .base hashRule)]⟩

theorem where_route_sound_hash :
    (Rule.base hashRule).findTableIndex (keyVal 5) = .ok 1 ∧ (Rule.base hashRule).LosesNoRow 1 := by
  refine ⟨rfl, (where_route_sound_iff id (fun _ => .error (.error "")) hashConfig hashRule rfl (.inl rfl)
    (fun h => by cases h) (.base hashRule) rfl 1 ⟨5, by decide, by decide, rfl⟩).2 ?_⟩
  exact finds_of_increasing (by decide) (by decide)

/-- The tables of a mod rule with a negative location are 0, 1 and -2, and the key `2 ^ 63` lies at -2. -/
def negativeConfig : ShardConfig :=
  { db := "db", table := "t", key := "id", type := .mod, locations := [2, -4, 1], slices := ["s0", "s1", "s2"]
    tableRowLimit := 0 }

def negativeRule : BaseRule :=
  { db := "db", table := "t", shardingColumn := "id", ruleType := .mod, slices := ["s0", "s1", "s2"]
    subTableIndexes := [0, 1, -2], tableToSlice := [(0, 0), (1, 0), (-2, 2)], shard := modShard 3 }

/-- `DELETE FROM t WHERE id = 9223372036854775808` goes nowhere. -/
theorem equality_loses_row : parseRule id (fun _ => .error (.error "")) negativeConfig = .ok negativeRule ∧
    (Rule.base negativeRule).findTableIndex (keyVal (2 ^ 63)) = .ok (-2) ∧ -2 ∈ negativeRule.subTableIndexes ∧
    (∃ cond, (deleteWhere "id" .eq (2 ^ 63)).cond = some cond ∧
      (rowReading "id" (2 ^ 63) intLiteral fun _ => none).truth cond = some true) ∧
    ∃ plan, handleDeletePlan (newTableAliasStmtInfo "db" ⟨[(("db", "t"), .base negativeRule)]⟩ .insertion)
      (deleteWhere "id" .eq (2 ^ 63)) = .ok plan ∧ plan.info.result.indexes = [] := by
  refine ⟨rfl, by decide +kernel, by decide, ?_, ?_⟩
  · exact ⟨_, rfl, by decide +kernel⟩
  · exact ⟨_, rfl, by decide +kernel⟩

def columnEq (table name : String) (n : Int64) : Expr Parsed :=
  .binary .eq (.column () (qualifiedColumn table name)) (.value (.int64 n))

end DbProxy
