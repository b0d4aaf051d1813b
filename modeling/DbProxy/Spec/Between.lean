import DbProxy.Spec.IntegerKeys
import Mathlib.Tactic.Ring

/-!
# `BETWEEN` on numeric ranges

The route of `BETWEEN` on a numeric range rule is sound in all cases but one.  `NOT BETWEEN a AND b` with `b` in an
earlier sub-table than `a` is true of every key, but the bounds are swapped and the sub-tables between them are left
out, as they would be for `NOT BETWEEN b AND a`.
-/

namespace DbProxy

/-! ### Every configured range holds its start -/

variable {locations : List Int} {limit : Int} {rs : List NumKeyRange}

theorem toInt64_eq_zero_of_dvd {n : Int} (h : (2 ^ 64 : Int) ∣ n) : toInt64 n = 0 := by
  unfold toInt64
  split <;> omega

theorem dvd_of_toInt64_eq {x l : Int} (h : toInt64 x = toInt64 (x + l)) : (2 ^ 64 : Int) ∣ l := by
  apply Int.dvd_of_emod_eq_zero
  unfold toInt64 at h
  split at h <;> split at h <;> omega

theorem start_lt_stop (h : parseNumSharding locations limit = .ok rs) (hasc : Ascending rs) {j m : Nat}
    (hj : j < rs.length) {x : Int} (hx : rs[j].contains x = true) (hm : m < rs.length) :
    rs[m].start < rs[m].stop := by
  have hle : rs[m].start ≤ rs[m].stop := hasc.2 _ (List.getElem_mem hm)
  obtain ⟨hstart, hstop⟩ := parseNumSharding_getElem h hm
  obtain ⟨hstart', hstop'⟩ := parseNumSharding_getElem h hj
  rcases lt_or_eq_of_le hle with hlt | heq
  · exact hlt
  · -- an empty range means that the row limit is zero modulo `2 ^ 64`, and then all ranges are empty
    have hdvd : (2 ^ 64 : Int) ∣ limit := by
      apply dvd_of_toInt64_eq (x := m * limit)
      rw [← hstart, heq, hstop]
      congr 1
      ring
    rw [contains_iff, hstart', hstop', toInt64_eq_zero_of_dvd (hdvd.mul_left _),
      toInt64_eq_zero_of_dvd (hdvd.mul_left _)] at hx
    unfold maxNumKey at hx
    omega

theorem findIdx_start (h : parseNumSharding locations limit = .ok rs) (hasc : Ascending rs) {m : Nat}
    (hm : m < rs.length) (hne : rs[m].start < rs[m].stop) :
    rs.findIdx? (·.contains rs[m].start) = some m := by
  rw [List.findIdx?_eq_some_iff_getElem]
  refine ⟨hm, ?_, ?_⟩
  · rw [contains_iff]
    omega
  · intro j hj
    have hgap : rs[j].stop ≤ rs[m].start := List.pairwise_iff_getElem.1 hasc.1 j m (by omega) hm hj
    have hbound : rs[m].stop < 2 ^ 63 := by
      rw [(parseNumSharding_getElem h hm).2]
      exact (toInt64_range _).2
    rw [contains_iff]
    unfold maxNumKey
    omega

/-! ### Range rules -/

section RangeRule

variable {toLower : String → String} {rest : ShardConfig → Except Fail BaseRule} {cfg : ShardConfig} {b : BaseRule}
  {rule : Rule}

theorem rangeRule_of_parse (hparse : parseRule toLower rest cfg = .ok b) (htype : cfg.type = .range)
    (hparent : rule.parent = b) :
    rule.getType ≠ .global ∧ ∃ rs, parseNumSharding cfg.locations cfg.tableRowLimit = .ok rs ∧
      rule.getShard = numRangeShard rs := by
  obtain ⟨hruleType, _, hshard⟩ := parseRule_eq_ok hparse (.inr (.inr htype))
  rw [Rule.getType, Rule.getShard, hparent, hruleType, htype]
  rcases hshard with ⟨ht, _⟩ | ⟨ht, _⟩ | ⟨_, rs, hrs, hshard⟩
  · simp [htype] at ht
  · simp [htype] at ht
  · exact ⟨by simp, rs, hrs, hshard⟩

theorem findTableIndex_nonneg (hshard : rule.getShard = numRangeShard rs) {key : GoVal} {j : Int}
    (hj : rule.findTableIndex key = .ok j) : 0 ≤ j := by
  unfold Rule.findTableIndex at hj
  rw [hshard] at hj
  obtain ⟨x, hx, _⟩ := Fallible.bind_eq_ok.1 hj
  obtain ⟨m, _, rfl⟩ := numRangeFindForKey_eq_ok hx hj
  exact Int.natCast_nonneg m

/-- When `v` lies above the configured index `m`, the start of `m` is a key below `v` that is stored there. -/
theorem exists_key_at (hrs : parseNumSharding locations limit = .ok rs) (hasc : Ascending rs)
    (hshard : rule.getShard = numRangeShard rs) {v : Datum} {x j m : Int} (hv : intLiteral v = some x)
    (hj : rule.findTableIndex v.value = .ok j) (hm : 0 ≤ m) (hmj : m < j) :
    ∃ k, -2 ^ 63 ≤ k ∧ k < 2 ^ 64 ∧ rule.findTableIndex (keyVal k) = .ok m ∧ k < x := by
  have hnn := parseNumSharding_nonneg hrs hasc
  unfold Rule.findTableIndex at hj ⊢
  rw [hshard] at hj ⊢
  have hr := intLiteral_range hv
  obtain ⟨_, j, hfind, rfl⟩ := findIdx_of_numRange hnn hr.1 hr.2 (numValue_literal hv) hj
  obtain ⟨m, rfl⟩ := Int.eq_ofNat_of_zero_le hm
  obtain ⟨hjl, hcontains, _⟩ := List.findIdx?_eq_some_iff_getElem.1 hfind
  have hml : m < rs.length := by omega
  have hne := start_lt_stop hrs hasc hjl hcontains hml
  have hgap : rs[m].stop ≤ rs[j].start := List.pairwise_iff_getElem.1 hasc.1 m j hml hjl (by omega)
  have hbound : -2 ^ 63 ≤ rs[m].start ∧ rs[m].start < 2 ^ 63 := by
    rw [(parseNumSharding_getElem hrs hml).1]
    exact toInt64_range _
  rw [contains_iff] at hcontains
  refine ⟨rs[m].start, hbound.1, by omega, ?_, by omega⟩
  have hval : numValue (keyVal rs[m].start) = .ok rs[m].start := by
    rw [numValue_keyVal hbound.1, toInt64_of_range hbound.1 hbound.2]
  show numRangeFindForKey rs (keyVal rs[m].start) = .ok m
  simp only [numRangeFindForKey, hval, bind, Except.bind]
  rw [findIdx_start hrs hasc hml hne]

end RangeRule

/-! ### Soundness of `BETWEEN` -/

section Truth

variable {column : String} {k a b : Int} {literal : Datum → Option Int} (other : Expr Parsed → Kleene.Truth)
  {c : ColumnName} {va vb : Datum}

theorem truth_between (hc : c.name.l = column) (ha : literal va = some a) (hb : literal vb = some b) :
    (rowReading column k literal other).truth (.between () (.column () c) (.value va) (.value vb) false) = some true ↔
      a ≤ k ∧ k ≤ b := by
  simp [Reading.truth, Reading.isBetween, rowReading, hc, ha, hb]

theorem truth_notBetween (hc : c.name.l = column) (ha : literal va = some a) (hb : literal vb = some b) :
    (rowReading column k literal other).truth (.between () (.column () c) (.value va) (.value vb) true) = some true ↔
      k < a ∨ b < k := by
  simp only [Reading.truth, Reading.isBetween, rowReading, hc, if_true, ha, hb, Option.map_some, Option.some.injEq,
    Bool.bne_true, Bool.not_eq_true', decide_eq_false_iff_not]
  omega

end Truth

/-- The route of `[NOT] BETWEEN` keeps every stored key that satisfies it, exactly when it is not a `NOT BETWEEN` with
bounds in reversed sub-tables and a configured index from the lower to the upper one that is left out. -/
theorem between_route_sound_iff (toLower : String → String) (rest : ShardConfig → Except Fail BaseRule)
    (cfg : ShardConfig) (base : BaseRule) (hparse : parseRule toLower rest cfg = .ok base) (htype : cfg.type = .range)
    (hasc : ∀ rs, parseNumSharding cfg.locations cfg.tableRowLimit = .ok rs → Ascending rs)
    (hsub : Increasing base.subTableIndexes) (rule : Rule) (hparent : rule.parent = base) (db : String)
    (router : Router) (order : MapOrder) (n : TableName) (asName : CIStr)
    (hrule : router.getShardRule db n.name.l = some rule) (c : ColumnName) (hc : c.name.l = rule.getShardingColumn)
    (va vb : Datum) (a b ja jb : Int) (ha : intLiteral va = some a) (hb : intLiteral vb = some b)
    (hja : rule.findTableIndex va.value = .ok ja) (hjb : rule.findTableIndex vb.value = .ok jb) (isNot : Bool)
    (indexes : List Int)
    (hroute : WhereRoute db router order n asName (.between () (.column () c) (.value va) (.value vb) isNot)
      indexes) :
    (∀ k i other, -2 ^ 63 ≤ k → k < 2 ^ 64 → rule.findTableIndex (keyVal k) = .ok i → i ∈ rule.getSubTableIndexes →
        (rowReading rule.getShardingColumn k intLiteral other).truth
          (.between () (.column () c) (.value va) (.value vb) isNot) = some true → i ∈ indexes) ↔
      (isNot = true → jb < ja → ∀ m ∈ rule.getSubTableIndexes, m < firstLeftOut rule vb.value jb ∨ ja ≤ m) := by
  obtain ⟨hg, rs, hrs, hshard⟩ := rangeRule_of_parse hparse htype hparent
  have hasc := hasc rs hrs
  have hnn := parseNumSharding_nonneg hrs hasc
  have hsub : Increasing rule.getSubTableIndexes := by rwa [Rule.getSubTableIndexes, hparent]
  have hs : rule.getShard.equalStart = some (numRangeEqualStart rs) := by rw [hshard]; rfl
  obtain ⟨route, hbetween, rfl⟩ := hroute.between hrule hg hc
  have hmem : ∀ i ∈ rule.getSubTableIndexes, (i ∈ interList rule.getSubTableIndexes route ↔
      rule.admitsBetween isNot va.value vb.value i) := by
    intro i hi
    have hinc := hbetween.increasing hsub
    rw [mem_interList hsub hinc, and_iff_right hi, ← reaches_iff_mem hinc]
    exact hbetween.reaches_iff hg hc.symm (finds_of_increasing hsub hi)
  cases isNot with
  | false =>
    simp only [Bool.false_eq_true, false_implies, iff_true]
    intro k i other hk₁ hk₂ hfind hi htrue
    obtain ⟨hak, hkb⟩ := (truth_between other hc ha hb).1 htrue
    exact (hmem i hi).2 (admitsBetween_inside (locates_range hshard hasc hnn hk₁ hk₂ hfind).1 ha hb hak hkb)
  | true =>
    constructor
    · -- the start of a range that is left out is a key that satisfies the condition and is lost
      intro hsound _ hlt m hm
      by_contra hout
      rw [not_or, not_lt, not_le] at hout
      have hjb₀ := findTableIndex_nonneg hshard hjb
      have hle := le_firstLeftOut rule vb.value jb
      obtain ⟨k, hk₁, hk₂, hfind, hka⟩ := exists_key_at hrs hasc hshard ha hja (by omega) hout.2
      have htrue := (truth_notBetween (fun _ => none) hc ha hb).2 (.inl hka)
      have hadmits := (hmem m hm).1 (hsound k m _ hk₁ hk₂ hfind hm htrue)
      rw [Rule.admitsBetween_iff (by simp [hs]) hja hjb, if_pos hlt, min_eq_right hlt.le, max_eq_left hlt.le,
        cond_true] at hadmits
      omega
    · intro hcond k i other hk₁ hk₂ hfind hi htrue
      rw [hmem i hi]
      by_cases hlt : jb < ja
      · -- the bounds are reversed: only the condition helps
        rw [Rule.admitsBetween_iff (by simp [hs]) hja hjb, if_pos hlt, min_eq_right hlt.le, max_eq_left hlt.le]
        exact hcond rfl hlt i hi
      · obtain ⟨hloc, hstart⟩ := locates_range hshard hasc hnn hk₁ hk₂ hfind
        refine admitsBetween_ordered hloc hstart ha hb ?_ ((truth_notBetween other hc ha hb).1 htrue)
        intro ja' jb' hja' hjb'
        obtain rfl := Fallible.ok_unique hja hja'
        obtain rfl := Fallible.ok_unique hjb hjb'
        exact not_lt.1 hlt

/-- A table `t` of three sub-tables with a hundred keys each. -/
def rangeConfig : ShardConfig :=
  { db := "db", table := "t", key := "id", type := .range, locations := [3], slices := ["s0"], tableRowLimit := 100 }

def rangeRule : BaseRule :=
  { db := "db", table := "t", shardingColumn := "id", ruleType := .range, slices := ["s0"]
    subTableIndexes := [0, 1, 2], tableToSlice := [(0, 0), (1, 0), (2, 0)]
    shard := numRangeShard [⟨0, 100⟩, ⟨100, 200⟩, ⟨200, 300⟩] }

def rangeRouter : Router := ⟨[(("db", "t"), .base rangeRule)]⟩

/-- `id NOT BETWEEN a AND b`. -/
def notBetween (a b : Int64) : Expr Parsed :=
  .between () (.column () (bareColumn "id")) (.value (.int64 a)) (.value (.int64 b)) true

/-- `DELETE FROM t WHERE id NOT BETWEEN a AND b`. -/
def deleteNotBetween (a b : Int64) : DeleteStmt Parsed :=
  { tableRefs := singleTable (unqualifiedTable "t") .empty, cond := some (notBetween a b) }

/-- With the bounds in order no key is lost, whichever sub-tables they lie in. -/
theorem between_route_sound_ordered : ∃ indexes,
    WhereRoute "db" rangeRouter .insertion (unqualifiedTable "t") .empty (notBetween 50 250) indexes ∧
      ∀ k i other, -2 ^ 63 ≤ k → k < 2 ^ 64 → (Rule.base rangeRule).findTableIndex (keyVal k) = .ok i →
      i ∈ [0, 1, 2] → (rowReading "id" k intLiteral other).truth (notBetween 50 250) = some true → i ∈ indexes := by
  refine ⟨_, .delete (deleteNotBetween 50 250) _ rfl rfl rfl, ?_⟩
  refine (between_route_sound_iff id (fun _ => .error (.error "")) rangeConfig rangeRule rfl rfl ?_ (by decide)
    (.base rangeRule) rfl "db" rangeRouter .insertion (unqualifiedTable "t") .empty rfl (bareColumn "id")
      rfl (.int64 50)
    (.int64 250) 50 250 0 2 rfl rfl rfl rfl true _ (.delete (deleteNotBetween 50 250) _ rfl rfl rfl)).2 ?_
  · intro rs hrs
    cases hrs
    decide
  · intro _ h
    exact absurd h (by decide)

/-- `id NOT BETWEEN 250 AND 50` is true of every key, but the statement does not go to the sub-table of key 150. -/
theorem notBetween_reversed_loses_key : ∃ indexes,
    WhereRoute "db" rangeRouter .insertion (unqualifiedTable "t") .empty (notBetween 250 50) indexes ∧
      (Rule.base rangeRule).findTableIndex (keyVal 150) = .ok 1 ∧ 1 ∈ (Rule.base rangeRule).getSubTableIndexes ∧
      (rowReading "id" 150 intLiteral (fun _ => none)).truth (notBetween 250 50) = some true ∧ 1 ∉ indexes :=
  ⟨_, .delete (deleteNotBetween 250 50) _ rfl rfl rfl, rfl, by decide, by decide, by decide⟩

end DbProxy
