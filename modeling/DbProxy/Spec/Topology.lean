import DbProxy.Spec.Calendar
import DbProxy.Spec.Configuration
import DbProxy.Spec.Locations

/-!
# Where the tables of a rule are

Each location of a rule, or each of its ranges of dates, stands opposite a slice.  Whether a rule sends a table to
that slice, and to the database at the position of the table, depends on its locations and, for a global rule, on the
order of the slices in the namespace.
-/

namespace DbProxy

open List

variable {env : RuleEnv} {n : NamespaceModel} {parseIPInfo : GoString → Bool} {s : ShardModel} {r : BaseRule}
variable {i : Int} {k : Nat} {parse parse' : GoString → Except Fail (List Int)} {tables : List (Int × Int)}
  {slices names : List String} {locations : List Int}

def periodBlock (parse : GoString → Except Fail (List Int)) (dateRange : List GoString) (k : Nat) : List Int :=
  match dateRange[k]? with
  | some range => match parse range with
    | .ok numbers => numbers
    | .error _ => []
  | none => []

/-- The tables that belong to the slice at position `k`. -/
def ShardModel.block (s : ShardModel) (k : Nat) : List Int :=
  match s.type with
  | .known .dateDay => periodBlock RouterPackage.parseDayRange s.dateRange k
  | .known .dateMonth => periodBlock RouterPackage.parseMonthRange s.dateRange k
  | .known .dateYear => periodBlock RouterPackage.parseYearRange s.dateRange k
  | _ => locationBlock s.locations k

/-- The database at a position of the expanded list; a global rule may do without a list. -/
def ShardModel.databaseAt (s : ShardModel) (p : Nat) : Option String :=
  if s.type = .known .global ∧ s.databases = [] then some s.db
  else match getRealDatabases s.databases with
    | .ok databases => databases[p]?
    | .error _ => none

structure ShardModel.Placed (s : ShardModel) (rule : Rule) : Prop where
  increasing : Increasing rule.getSubTableIndexes
  one_slice : ∀ i ∈ rule.getSubTableIndexes, ∃! k, (i, k) ∈ rule.parent.tableToSlice
  slice : ∀ k, ∀ i ∈ s.block k, i ∈ rule.getSubTableIndexes ∧
    ∃ name, s.slices[k]? = some name ∧ rule.getSlice (rule.getSliceIndexFromTableIndex i) = .ok name
  database : isMycatShardingRule rule.getType = true ∨ rule.getType = .global → ∀ (p : Nat) i,
    rule.getSubTableIndexes[p]? = some i → ∃ db, s.databaseAt p = some db ∧
    rule.getDatabaseNameByTableIndex i = .ok db

/-- In front of every location with tables the sum of the locations is not below the end of the tables so far; for
rules with databases it is their number. -/
def ShardModel.Ordered (s : ShardModel) (sliceNames : List String) : Prop :=
  match s.type with
  | .known .dateDay | .known .dateMonth | .known .dateYear => True
  | .known .hash | .known .mod | .known .range => TablesFollow (· ≤ ·) (-2 ^ 63) 0 s.locations
  | .known .global => TablesFollow (· = ·) 0 0 s.locations ∧
      ∀ k : Nat, (∃ count ∈ s.locations[k]?, 0 < count) → sliceNames[k]? = s.slices[k]?
  | _ => TablesFollow (· = ·) 0 0 s.locations

/-! ### Maps of tables with different numbers -/

theorem nodup_of_increasing {l : List Int} (h : Increasing l) : l.Nodup := h.imp fun hlt => ne_of_lt hlt

theorem foldl_set_of_nodup (h : (tables.map Prod.fst).Nodup) :
    tables.foldl (fun m t => AssocMap.set m t.1 t.2) [] = tables :=
  AssocMap.foldl_set_eq_append tables [] h

theorem existsUnique_of_nodup (h : (tables.map Prod.fst).Nodup) (hi : i ∈ tables.map Prod.fst) :
    ∃! k, (i, k) ∈ tables := by
  obtain ⟨⟨i, k⟩, hmem, rfl⟩ := mem_map.1 hi
  refine ⟨k, hmem, fun k' hmem' => ?_⟩
  have := ((AssocMap.get_eq_some_iff h).2 hmem').symm.trans ((AssocMap.get_eq_some_iff h).2 hmem)
  exact Option.some.inj this

theorem getSlice_of_mem (rule : Rule) (hnodup : (rule.parent.tableToSlice.map Prod.fst).Nodup)
    (hmem : (i, (k : Int)) ∈ rule.parent.tableToSlice) {name : String} :
    rule.getSlice (rule.getSliceIndexFromTableIndex i) = .ok name ↔ rule.parent.slices[k]? = some name := by
  have hget := (AssocMap.get_eq_some_iff hnodup).2 hmem
  unfold Rule.getSlice Rule.getSliceIndexFromTableIndex
  rw [hget, Option.getD_some, if_neg (by omega), Int.toNat_natCast]
  cases rule.parent.slices[k]? with
  | none => exact iff_of_false nofun nofun
  | some x => simp

/-! ### Ranges of dates -/

theorem tablesOfRanges_spec
    (hparse : ∀ range numbers, parse range = .ok numbers → Increasing numbers ∧ parse' range = .ok numbers)
    (ranges : List GoString)
    {i : Nat} {tables' : List (Int × Int)} (h : tablesOfRanges parse i tables ranges = .ok tables')
    (hinc : Increasing (tables.map Prod.fst)) : Increasing (tables'.map Prod.fst) ∧ tables ⊆ tables' ∧
      ∀ k, ∀ x ∈ periodBlock parse' ranges k, (x, ((i + k : Nat) : Int)) ∈ tables' := by
  induction ranges generalizing i tables with
  | nil =>
    cases h
    exact ⟨hinc, List.Subset.refl _, nofun⟩
  | cons range ranges ih =>
    obtain ⟨numbers, hnumbers, h⟩ := Fallible.bind_eq_ok.1 h
    obtain ⟨hnumInc, hparse'⟩ := hparse range numbers hnumbers
    have hfst : (numbers.map (·, (i : Int))).map Prod.fst = numbers := by
      rw [map_map]
      exact map_id numbers
    have hblock : Increasing ((numbers.map (·, (i : Int))).map Prod.fst) := by rwa [hfst]
    obtain ⟨hnext, hrun⟩ : Increasing ((tables ++ numbers.map (·, (i : Int))).map Prod.fst) ∧
        tablesOfRanges parse (i + 1) (tables ++ numbers.map (·, (i : Int))) ranges = .ok tables' := by
      split at h
      · next hlast =>
        obtain rfl := getLast?_eq_none_iff.1 hlast
        exact ⟨hblock, h⟩
      · cases h
      · next last number rest hlast =>
        split at h
        · cases h
        next hlt =>
        refine ⟨?_, h⟩
        rw [map_append]
        refine pairwise_append.2 ⟨hinc, hblock, fun x hx y hy => ?_⟩
        -- the last of the tables in front is below the first of the new ones
        obtain ⟨front, rfl⟩ := getLast?_eq_some_iff.1 hlast
        have hx : x ≤ last.1 := by
          rw [map_append] at hx hinc
          rcases mem_append.1 hx with hx | hx
          · exact ((pairwise_append.1 hinc).2.2 x hx last.1 (mem_singleton_self _)).le
          · exact (mem_singleton.1 hx).le
        have hy : number ≤ y := by
          rw [hfst] at hy
          rcases mem_cons.1 hy with rfl | hy
          · exact le_refl _
          · exact ((pairwise_cons.1 hnumInc).1 y hy).le
        omega
    obtain ⟨hinc', hsub, hblocks⟩ := ih hrun hnext
    refine ⟨hinc', fun t ht => hsub (mem_append_left _ ht), fun k x hx => ?_⟩
    cases k with
    | zero =>
      unfold periodBlock at hx
      rw [getElem?_cons_zero] at hx
      simp only [hparse'] at hx
      exact hsub (mem_append_right _ (mem_map_of_mem hx))
    | succ k =>
      rw [show i + (k + 1) = i + 1 + k by omega]
      exact hblocks k x hx

theorem parseDateRuleSliceInfos_eq_ok {dateRange : List GoString}
    : parseDateRuleSliceInfos parse dateRange slices = .ok tables ↔
      dateRange.length = slices.length ∧ tablesOfRanges parse 0 [] dateRange = .ok tables := by
  unfold parseDateRuleSliceInfos
  split
  · next hne => exact iff_of_false nofun fun h => hne h.1
  · next heq => rw [and_iff_right (not_not.1 heq)]

theorem placed_of_dates (hparse : ∀ range numbers, parse range = .ok numbers → Increasing numbers ∧
      parse' range = .ok numbers) (hverify : s.verifyDateRule parse = .ok ())
    (htables : parseDateRuleSliceInfos parse' s.dateRange s.slices = .ok tables)
    (hindexes : r.subTableIndexes = tables.map Prod.fst)
    (hmap : r.tableToSlice = tables.foldl (fun m t => AssocMap.set m t.1 t.2) []) (hslices : r.slices = s.slices)
    (hblock : ∀ k, s.block k = periodBlock parse' s.dateRange k)
    (hplain : ¬ (isMycatShardingRule r.ruleType = true ∨ r.ruleType = .global)) : s.Placed (.base r) := by
  obtain ⟨tables₀, htables₀, -⟩ := Fallible.bind_eq_ok.1 hverify
  obtain ⟨hlength, hrun⟩ := parseDateRuleSliceInfos_eq_ok.1 htables₀
  have hrun' := tablesOfRanges_mono (fun range numbers h => (hparse range numbers h).2) _ hrun
  cases (parseDateRuleSliceInfos_eq_ok.1 htables).2.symm.trans hrun'
  obtain ⟨hinc, -, hblocks⟩ := tablesOfRanges_spec hparse s.dateRange hrun .nil
  have hnodup := nodup_of_increasing hinc
  rw [foldl_set_of_nodup hnodup] at hmap
  refine ⟨?_, fun i hi => ?_, fun k i hi => ?_, fun h => absurd h hplain⟩
  · change Increasing r.subTableIndexes
    rwa [hindexes]
  · change ∃! k, (i, k) ∈ r.tableToSlice
    rw [hmap]
    exact existsUnique_of_nodup hnodup (hindexes ▸ hi)
  · rw [hblock] at hi
    have hmem := hblocks k i hi
    rw [Nat.zero_add] at hmem
    have hindex : i ∈ r.subTableIndexes := hindexes ▸ mem_map_of_mem hmem
    refine ⟨hindex, ?_⟩
    have hk : k < s.slices.length := by
      rw [← hlength]
      unfold periodBlock at hi
      split at hi
      · next hrange => exact (List.getElem?_eq_some_iff.1 hrange).1
      · cases hi
    refine ⟨s.slices[k], getElem?_eq_getElem hk, ?_⟩
    refine (getSlice_of_mem (.base r) (hmap ▸ hnodup) (hmap ▸ hmem)).2 ?_
    rw [show (Rule.base r).parent.slices = s.slices from hslices]
    exact getElem?_eq_getElem hk

/-! ### Locations -/

theorem parseHashRuleSliceInfos_eq_ok {subTableIndexs : List Int}
    {tableToSlice : AssocMap Int Int} :
    parseHashRuleSliceInfos locations slices = .ok (subTableIndexs, tableToSlice) ↔
      locations.length = slices.length ∧ subTableIndexs = tableNumbers 0 locations ∧
        tableToSlice = (tablesOfLocations 0 0 locations).foldl (fun m t => AssocMap.set m t.1 t.2) [] := by
  unfold parseHashRuleSliceInfos
  split
  · next hne => exact iff_of_false nofun fun h => hne h.1
  · next heq =>
    rw [and_iff_right (not_not.1 heq)]
    constructor
    · intro h
      cases h
      exact ⟨rfl, rfl⟩
    · rintro ⟨rfl, rfl⟩
      rfl

theorem exists_mem_locationBlock :
    (∃ i, i ∈ locationBlock locations k) ↔ ∃ count ∈ locations[k]?, 0 < count := by
  simp only [mem_locationBlock]
  constructor
  · rintro ⟨i, count, j, hcount, hj, -⟩
    exact ⟨count, hcount, by omega⟩
  · rintro ⟨count, hcount, hpos⟩
    exact ⟨_, count, 0, hcount, by omega, rfl⟩

theorem getDatabaseNameByTableIndex_eq_ok (htype : isMycatShardingRule r.ruleType = true ∨ r.ruleType = .global)
    {db : String} : (Rule.base r).getDatabaseNameByTableIndex i = .ok db ↔
      i ≤ r.subTableIndexes.length ∧ 0 ≤ i ∧ r.mycatDatabases[i.toNat]? = some db := by
  have hdatabases : (isMycatShardingRule (Rule.base r).getType || decide ((Rule.base r).getType = .global)) =
      true := by
    rcases htype with h | h <;> simp [Rule.getType, Rule.parent, h]
  unfold Rule.getDatabaseNameByTableIndex
  rw [if_pos hdatabases]
  split
  · next hgt =>
    refine iff_of_false (fun h => ?_) fun h => absurd h.1 (not_le.2 hgt)
    cases h
  · next hle =>
    rw [and_iff_right (show i ≤ (r.subTableIndexes.length : Int) from not_lt.1 hle)]
    by_cases hneg : i < 0
    · rw [if_pos hneg]
      refine iff_of_false (fun h => ?_) fun h => absurd hneg (not_lt.2 h.1)
      cases h
    · rw [if_neg hneg, and_iff_right (not_lt.1 hneg)]
      cases hget : r.mycatDatabases[i.toNat]? with
      | none => simp [Rule.parent, hget]
      | some x => simp [Rule.parent, hget]

theorem inNamespace_of_ne_global (h : r.ruleType ≠ .global) : r.inNamespace names = r := if_neg h

theorem inNamespace_of_global (h : r.ruleType = .global) :
    r.inNamespace names = { r with slices := names } := if_pos h

theorem databaseAt_of_ok {databases : List String} (hne : ¬ (s.type = .known .global ∧ s.databases = []))
    (h : getRealDatabases s.databases = .ok databases) (p : Nat) : s.databaseAt p = databases[p]? := by
  unfold ShardModel.databaseAt
  rw [if_neg hne, h]

section

variable (hparse : parseHashRuleSliceInfos s.locations s.slices = .ok (r.subTableIndexes, r.tableToSlice))

include hparse

theorem located_of_increasing (hinc : Increasing r.subTableIndexes) :
    (∀ i ∈ r.subTableIndexes, ∃! k, (i, k) ∈ r.tableToSlice) ∧
      ∀ k, ∀ i ∈ locationBlock s.locations k, i ∈ r.subTableIndexes ∧ k < s.slices.length ∧
        ∀ name, (Rule.base r).getSlice ((Rule.base r).getSliceIndexFromTableIndex i) = .ok name ↔
        r.slices[k]? = some name := by
  obtain ⟨hlength, hindexes, hmap⟩ := parseHashRuleSliceInfos_eq_ok.1 hparse
  rw [hindexes] at hinc
  have hnodup := nodup_of_increasing hinc
  rw [foldl_set_of_nodup hnodup] at hmap
  refine ⟨fun i hi => ?_, fun k i hi => ?_⟩
  · rw [hindexes] at hi
    exact hmap ▸ existsUnique_of_nodup hnodup hi
  have hmem := mem_tablesOfLocations.2 ⟨k, rfl, hi⟩
  refine ⟨hindexes ▸ mem_map_of_mem hmem, ?_, fun name => getSlice_of_mem (.base r) (hmap ▸ hnodup) (hmap ▸ hmem)⟩
  obtain ⟨count, j, hcount, -⟩ := mem_locationBlock.1 hi
  rw [← hlength]
  exact (List.getElem?_eq_some_iff.1 hcount).1

theorem slices_iff_of_located (hinc : Increasing r.subTableIndexes) :
    (∀ k, ∀ i ∈ locationBlock s.locations k, i ∈ (Rule.base r).getSubTableIndexes ∧ ∃ name, s.slices[k]? = some name ∧
      (Rule.base r).getSlice ((Rule.base r).getSliceIndexFromTableIndex i) = .ok name) ↔
        ∀ k : Nat, (∃ count ∈ s.locations[k]?, 0 < count) → r.slices[k]? = s.slices[k]? := by
  obtain ⟨-, hblocks⟩ := located_of_increasing hparse hinc
  constructor
  · intro h k hpos
    obtain ⟨i, hi⟩ := exists_mem_locationBlock.2 hpos
    obtain ⟨-, name, hname, hslice⟩ := h k i hi
    exact (((hblocks k i hi).2.2 name).1 hslice).trans hname.symm
  · intro h k i hi
    obtain ⟨hmem, hk, hslice⟩ := hblocks k i hi
    refine ⟨hmem, s.slices[k], getElem?_eq_getElem hk, (hslice _).2 ?_⟩
    exact (h k (exists_mem_locationBlock.1 ⟨i, hi⟩)).trans (getElem?_eq_getElem hk)

theorem databases_iff_of_located
    (hinc : Increasing r.subTableIndexes) (htype : isMycatShardingRule r.ruleType = true ∨ r.ruleType = .global)
    (hat : ∀ p < r.subTableIndexes.length, s.databaseAt p = r.mycatDatabases[p]?)
    (hlength : r.mycatDatabases.length = r.subTableIndexes.length) :
    (∀ (p : Nat) i, (Rule.base r).getSubTableIndexes[p]? = some i →
      ∃ db, s.databaseAt p = some db ∧ (Rule.base r).getDatabaseNameByTableIndex i = .ok db) ↔
        TablesFollow (· = ·) 0 0 s.locations := by
  have hindexes := (parseHashRuleSliceInfos_eq_ok.1 hparse).2.1
  rw [← getElem?_tableNumbers_iff (by decide) (by decide), ← hindexes]
  constructor
  · intro h p x hx
    have hrange : ∀ i ∈ r.subTableIndexes, 0 ≤ i ∧ i < r.subTableIndexes.length := by
      intro i hi
      obtain ⟨p, hp⟩ := mem_iff_getElem?.1 hi
      obtain ⟨db, -, hdb⟩ := h p i hp
      obtain ⟨-, hnonneg, hget⟩ := (getDatabaseNameByTableIndex_eq_ok htype).1 hdb
      have := (List.getElem?_eq_some_iff.1 hget).1
      exact ⟨hnonneg, by omega⟩
    obtain ⟨hp, rfl⟩ := List.getElem?_eq_some_iff.1 hx
    rw [getElem_of_increasing hinc hrange hp, Int.zero_add]
  · intro h p i hi
    obtain rfl : i = p := (h p i hi).trans (Int.zero_add _)
    have hp := (List.getElem?_eq_some_iff.1 hi).1
    have hlt : p < r.mycatDatabases.length := hlength ▸ hp
    refine ⟨r.mycatDatabases[p], (hat p hp).trans (getElem?_eq_getElem hlt), ?_⟩
    refine (getDatabaseNameByTableIndex_eq_ok htype).2 ⟨by omega, by omega, ?_⟩
    rw [Int.toNat_natCast]
    exact getElem?_eq_getElem hlt

/-! ### All rules -/

theorem increasing_subTableIndexes_iff :
    Increasing r.subTableIndexes ↔ TablesFollow (· ≤ ·) (-2 ^ 63) 0 s.locations := by
  have hlow : ∀ x ∈ tableNumbers 0 s.locations, -2 ^ 63 ≤ x := by
    intro x hx
    obtain ⟨t, ht, rfl⟩ := mem_map.1 hx
    obtain ⟨_, _, _, _, _, rfl⟩ := mem_tablesOfLocations_iff.1 ht
    exact (toInt64_range _).1
  rw [(parseHashRuleSliceInfos_eq_ok.1 hparse).2.1, ← increasing_tableNumbers_iff (by decide) (by decide)]
  exact (and_iff_left hlow).symm

/-- A rule with locations is placed when its numbers increase, its slices stand where they do in the configuration,
and, if it has databases, its tables are numbered from zero without a gap. -/
theorem placed_iff_of_located (hblock : ∀ k, s.block k = locationBlock s.locations k)
    (hat : isMycatShardingRule r.ruleType = true ∨ r.ruleType = .global → Increasing r.subTableIndexes →
      (∀ p < r.subTableIndexes.length, s.databaseAt p = r.mycatDatabases[p]?) ∧
        r.mycatDatabases.length = r.subTableIndexes.length) :
    s.Placed (.base r) ↔ TablesFollow (· ≤ ·) (-2 ^ 63) 0 s.locations ∧
      (∀ k : Nat, (∃ count ∈ s.locations[k]?, 0 < count) → r.slices[k]? = s.slices[k]?) ∧
      (isMycatShardingRule r.ruleType = true ∨ r.ruleType = .global → TablesFollow (· = ·) 0 0 s.locations) := by
  rw [← increasing_subTableIndexes_iff hparse]
  constructor
  · intro h
    have hinc : Increasing r.subTableIndexes := h.increasing
    refine ⟨hinc, (slices_iff_of_located hparse hinc).1 fun k i hi => h.slice k i (hblock k ▸ hi), fun htype => ?_⟩
    exact (databases_iff_of_located hparse hinc htype (hat htype hinc).1 (hat htype hinc).2).1 (h.database htype)
  · rintro ⟨hinc, hslices, hdatabases⟩
    refine ⟨hinc, (located_of_increasing hparse hinc).1, fun k i hi => ?_, fun htype => ?_⟩
    · exact (slices_iff_of_located hparse hinc).2 hslices k i (hblock k ▸ hi)
    · exact (databases_iff_of_located hparse hinc htype (hat htype hinc).1 (hat htype hinc).2).2 (hdatabases htype)

theorem length_tableToSlice (hnodup : r.subTableIndexes.Nodup) :
    r.tableToSlice.length = r.subTableIndexes.length := by
  obtain ⟨-, hindexes, hmap⟩ := parseHashRuleSliceInfos_eq_ok.1 hparse
  rw [hindexes] at hnodup
  rw [hindexes, hmap, foldl_set_of_nodup hnodup, tableNumbers, length_map]

omit hparse in
theorem databaseAt_of_global (htype : s.type = .known .global)
    (hdatabases : s.GlobalDatabases r.subTableIndexes r.tableToSlice r.mycatDatabases) {p : Nat}
    (hp : p < r.subTableIndexes.length) : s.databaseAt p = r.mycatDatabases[p]? := by
  unfold ShardModel.GlobalDatabases at hdatabases
  split at hdatabases
  · next hnil =>
    unfold ShardModel.databaseAt
    rw [if_pos ⟨htype, hnil⟩, hdatabases, getElem?_replicate, if_pos hp]
  · next hne => exact databaseAt_of_ok (fun h => hne h.2) hdatabases.1 p

theorem length_globalDatabases (hdatabases : s.GlobalDatabases r.subTableIndexes r.tableToSlice r.mycatDatabases)
    (hnodup : r.subTableIndexes.Nodup) : r.mycatDatabases.length = r.subTableIndexes.length := by
  unfold ShardModel.GlobalDatabases at hdatabases
  split at hdatabases
  · rw [hdatabases, length_replicate]
  · rw [← hdatabases.2, length_tableToSlice hparse hnodup]

end

theorem placed_iff_of_parseRule (hverify : s.verify = .ok ()) (hr : s.parseRule env = .ok r)
    (sliceNames : List String) : s.Placed (.base (r.inNamespace sliceNames)) ↔ s.Ordered sliceNames := by
  obtain ⟨hnames, htables⟩ := s.parseRule_spec hr
  have htype := hnames.type
  cases htables with
  | located hlocated hparse =>
    have hplain : ¬ (isMycatShardingRule r.ruleType = true ∨ r.ruleType = .global) := by
      rcases hlocated with h | h | h <;> rw [h] <;> decide
    rw [inNamespace_of_ne_global fun h => hplain (.inr h)]
    have hblock : ∀ k, s.block k = locationBlock s.locations k := by
      intro k
      unfold ShardModel.block
      rw [htype]
      rcases hlocated with h | h | h <;> rw [h]
    have hordered : s.Ordered sliceNames ↔ TablesFollow (· ≤ ·) (-2 ^ 63) 0 s.locations := by
      unfold ShardModel.Ordered
      rw [htype]
      rcases hlocated with h | h | h <;> rw [h]
    rw [placed_iff_of_located hparse hblock fun h => absurd h hplain, hordered]
    refine ⟨fun h => h.1, fun h => ⟨h, fun k _ => by rw [hnames.slices], fun h => absurd h hplain⟩⟩
  | mycat hmycat hparse hdatabases hlength hmap =>
    have hne : r.ruleType ≠ .global := by
      intro h
      rw [h] at hmycat
      cases hmycat
    rw [inNamespace_of_ne_global hne]
    have hblock : ∀ k, s.block k = locationBlock s.locations k := by
      intro k
      unfold ShardModel.block
      rw [htype]
      cases htype' : r.ruleType <;> first | rfl | (rw [htype'] at hmycat; cases hmycat)
    have hordered : s.Ordered sliceNames ↔ TablesFollow (· = ·) 0 0 s.locations := by
      unfold ShardModel.Ordered
      rw [htype]
      cases htype' : r.ruleType <;> first | exact Iff.rfl | (rw [htype'] at hmycat; cases hmycat)
    have hat : isMycatShardingRule r.ruleType = true ∨ r.ruleType = .global → Increasing r.subTableIndexes →
        (∀ p < r.subTableIndexes.length, s.databaseAt p = r.mycatDatabases[p]?) ∧
          r.mycatDatabases.length = r.subTableIndexes.length := by
      intro _ hinc
      refine ⟨fun p _ => databaseAt_of_ok (fun h => hne ?_) hdatabases p, ?_⟩
      · rw [htype] at h
        exact ConfigType.known.inj h.1
      · rw [← hlength, length_tableToSlice hparse (nodup_of_increasing hinc)]
    rw [placed_iff_of_located hparse hblock hat, hordered]
    refine ⟨fun h => h.2.2 (.inl hmycat), fun h => ⟨?_, fun k _ => by rw [hnames.slices], fun _ => h⟩⟩
    exact h.imp (fun a b heq => heq.le) fun b heq => by omega
  | global hglobal hparse hdatabases =>
    rw [hglobal] at htype
    rw [inNamespace_of_global hglobal]
    have hblock : ∀ k, s.block k = locationBlock s.locations k := by
      intro k
      unfold ShardModel.block
      rw [htype]
    have hordered : s.Ordered sliceNames ↔ TablesFollow (· = ·) 0 0 s.locations ∧
        ∀ k : Nat, (∃ count ∈ s.locations[k]?, 0 < count) → sliceNames[k]? = s.slices[k]? := by
      unfold ShardModel.Ordered
      rw [htype]
    rw [placed_iff_of_located (r := { r with slices := sliceNames }) hparse hblock fun _ hinc =>
      ⟨fun p hp => databaseAt_of_global htype hdatabases hp,
        length_globalDatabases hparse hdatabases (nodup_of_increasing hinc)⟩, hordered]
    refine ⟨fun h => ⟨h.2.2 (.inr hglobal), h.2.1⟩, fun h => ⟨?_, h.2, fun _ => h.1⟩⟩
    exact h.1.imp (fun a b heq => heq.le) fun b heq => by omega
  | dated parse hdated tables hparse hindexes hmap =>
    have hplain : ¬ (isMycatShardingRule r.ruleType = true ∨ r.ruleType = .global) := by
      rcases hdated with ⟨h, -⟩ | ⟨h, -⟩ | ⟨h, -⟩ <;> rw [h] <;> decide
    rw [inNamespace_of_ne_global fun h => hplain (.inr h)]
    unfold ShardModel.verify at hverify
    unfold ShardModel.Ordered
    rcases hdated with ⟨h, rfl⟩ | ⟨h, rfl⟩ | ⟨h, rfl⟩ <;> rw [htype, h] at hverify ⊢ <;> refine iff_of_true ?_ trivial
    · refine placed_of_dates (fun range numbers hok => ⟨increasing_parseDayRange hok, parseDayRange_of_check hok⟩)
        hverify hparse hindexes hmap hnames.slices (fun k => ?_) hplain
      unfold ShardModel.block
      rw [htype, h]
    · refine placed_of_dates (fun range numbers hok => ⟨increasing_parseMonthRange hok, parseMonthRange_of_check hok⟩)
        hverify hparse hindexes hmap hnames.slices (fun k => ?_) hplain
      unfold ShardModel.block
      rw [htype, h]
    · refine placed_of_dates (fun range numbers hok => ⟨increasing_parseYearRange hok, parseYearRange_of_check hok⟩)
        hverify hparse hindexes hmap hnames.slices (fun k => ?_) hplain
      unfold ShardModel.block
      rw [htype, h]

/-- A rule of an accepted configuration sends its tables where the configuration says, exactly when the tables of each
location follow those in front, for rules with databases without a gap, and a global rule lists its slices as the
namespace does. -/
theorem placed_iff_ordered (hverify : n.verify parseIPInfo = .ok ()) {router : Router}
    (hrouter : newRouter env n = .ok router) (hs : s ∈ n.shardRules) (htype : s.type ≠ .known .linked)
    (hget : router.rules.get (s.place env) = some (.base r)) : s.Placed (.base r) ↔ s.Ordered n.sliceNames := by
  obtain ⟨r₀, hr₀, hkept⟩ := (newRouter_eq_ok hrouter).2.2 s hs htype
  rw [hkept r hget]
  exact placed_iff_of_parseRule ((verified_of_verify hverify).rules s hs htype) hr₀ n.sliceNames

theorem placed_iff_ordered_small :
    ∃ router r, newRouter stillEnv (smallNamespace "slice-0" [smallHash "t"]) = .ok router ∧
    router.rules.get ((smallHash "t").place stillEnv) = some (.base r) ∧ (smallHash "t").Placed (.base r) := by
  have hverify : (smallNamespace "slice-0" [smallHash "t"]).verify acceptAll = .ok () := by decide +kernel
  refine ⟨_, _, rfl, rfl, (@placed_iff_ordered stillEnv _ _ _ _ hverify _ rfl mem_cons_self nofun rfl).2 ?_⟩
  change TablesFollow _ _ _ [2, 2]
  simp [TablesFollow, toInt64]

def negativeHash : ShardModel :=
  { smallHash "h" with locations := [2, -1, 2], slices := ["slice-0", "slice-1", "slice-0"] }

/-- A global table on the slices of the namespace, listed in another order. -/
def swappedGlobal : ShardModel where
  db := "db"
  table := "g"
  type := .known .global
  locations := [1, 1]
  slices := ["slice-1", "slice-0"]

/-- Behind a negative location a number is given again; and the first copy of a global table is expected on `slice-1`,
but is looked for on `slice-0`. -/
theorem tables_misplaced : (smallNamespace "slice-0" [negativeHash, swappedGlobal]).verify acceptAll = .ok () ∧
    ∃ router h g, newRouter stillEnv (smallNamespace "slice-0" [negativeHash, swappedGlobal]) = .ok router ∧
      router.rules.get (negativeHash.place stillEnv) = some (.base h) ∧ h.subTableIndexes = [0, 1, 1, 2] ∧
      router.rules.get (swappedGlobal.place stillEnv) = some (.base g) ∧ swappedGlobal.block 0 = [0] ∧
      swappedGlobal.slices[0]? = some "slice-1" ∧
      (Rule.base g).getSlice ((Rule.base g).getSliceIndexFromTableIndex 0) = .ok "slice-0" :=
  ⟨by decide +kernel, _, _, _, rfl, rfl, rfl, rfl, rfl, rfl, rfl⟩

end DbProxy
