import DbProxy.Router.Build
import DbProxy.Spec.Segments

/-!
# Rules of an accepted configuration

The check of a rule and its construction read the same fields with the same functions, but for the table of segments
of two mycat rules, which is filled only when the rule is built.
-/

namespace DbProxy

open Fallible

variable {env : RuleEnv} {s : ShardModel} {r : BaseRule}
variable {tables : Nat} {subTableIndexs numbers : List Int} {tableToSlice : AssocMap Int Int}
  {databases : List String}
  {type : RuleType} {check : GoString → Bool} {dateRange : GoString} {parse parse' : GoString →
    Except Fail (List Int)}

structure ShardModel.Names (env : RuleEnv) (s : ShardModel) (r : BaseRule) : Prop where
  db : r.db = s.db
  table : r.table = env.toLower s.table
  shardingColumn : r.shardingColumn = env.toLower s.key
  type : s.type = .known r.ruleType
  slices : r.slices = s.slices
  not_default : r.ruleType ≠ .default

/-! ### Rules with locations -/

theorem verifyHashRuleSliceInfos_eq_ok : s.verifyHashRuleSliceInfos = .ok tables ↔
    ∃ subTableIndexs tableToSlice, parseHashRuleSliceInfos s.locations s.slices = .ok (subTableIndexs, tableToSlice) ∧
      tableToSlice.length = tables := by
  unfold ShardModel.verifyHashRuleSliceInfos
  rw [bind_eq_ok]
  constructor
  · rintro ⟨⟨subTableIndexs, tableToSlice⟩, h, hlen⟩
    exact ⟨subTableIndexs, tableToSlice, h, Except.ok.inj hlen⟩
  · rintro ⟨subTableIndexs, tableToSlice, h, hlen⟩
    exact ⟨(subTableIndexs, tableToSlice), h, congrArg Except.ok hlen⟩

theorem parseMycatHashRuleSliceInfos_eq_ok :
    parseMycatHashRuleSliceInfos s = .ok (subTableIndexs, tableToSlice, databases) ↔
      parseHashRuleSliceInfos s.locations s.slices = .ok (subTableIndexs, tableToSlice) ∧
        getRealDatabases s.databases = .ok databases ∧ tableToSlice.length = databases.length := by
  unfold parseMycatHashRuleSliceInfos
  rw [bind_eq_ok]
  constructor
  · rintro ⟨⟨i, m⟩, h, hrest⟩
    obtain ⟨dbs, hdbs, hrest⟩ := bind_eq_ok.1 hrest
    split at hrest
    · cases hrest
    · next hlen =>
      cases hrest
      exact ⟨h, hdbs, not_not.1 hlen⟩
  · rintro ⟨h, hdbs, hlen⟩
    refine ⟨_, h, bind_eq_ok.2 ⟨databases, hdbs, ?_⟩⟩
    exact if_neg (not_not.2 hlen)

theorem verifyMycatHashRuleSliceInfos_eq_ok : s.verifyMycatHashRuleSliceInfos = .ok tables ↔
    ∃ subTableIndexs tableToSlice databases, parseMycatHashRuleSliceInfos s =
      .ok (subTableIndexs, tableToSlice, databases) ∧ tableToSlice.length = tables := by
  unfold ShardModel.verifyMycatHashRuleSliceInfos
  rw [bind_eq_ok]
  constructor
  · rintro ⟨tables', h, hrest⟩
    obtain ⟨subTableIndexs, tableToSlice, hparse, rfl⟩ := verifyHashRuleSliceInfos_eq_ok.1 h
    obtain ⟨databases, hdbs, hrest⟩ := bind_eq_ok.1 hrest
    split at hrest
    · cases hrest
    · next hlen =>
      cases hrest
      exact ⟨subTableIndexs, tableToSlice, databases,
        parseMycatHashRuleSliceInfos_eq_ok.2 ⟨hparse, hdbs, not_not.1 hlen⟩, rfl⟩
  · rintro ⟨subTableIndexs, tableToSlice, databases, h, rfl⟩
    obtain ⟨h, hdbs, hlen⟩ := parseMycatHashRuleSliceInfos_eq_ok.1 h
    refine ⟨_, verifyHashRuleSliceInfos_eq_ok.2 ⟨_, _, h, rfl⟩, bind_eq_ok.2 ⟨databases, hdbs, ?_⟩⟩
    exact if_neg (not_not.2 hlen)

theorem parseMycatRule_eq_ok : parseMycatRule env s type = .ok r ↔
    ∃ subTableIndexs tableToSlice databases shard,
      parseMycatHashRuleSliceInfos s = .ok (subTableIndexs, tableToSlice, databases) ∧
        mycatShard env s tableToSlice.length type = .ok shard ∧
          r = ruleWithDatabases env s type subTableIndexs tableToSlice databases shard := by
  unfold parseMycatRule
  rw [bind_eq_ok]
  constructor
  · rintro ⟨⟨i, m, dbs⟩, h, hrest⟩
    obtain ⟨shard, hshard, hrest⟩ := bind_eq_ok.1 hrest
    exact ⟨i, m, dbs, shard, h, hshard, (Except.ok.inj hrest).symm⟩
  · rintro ⟨i, m, dbs, shard, h, hshard, rfl⟩
    exact ⟨_, h, bind_eq_ok.2 ⟨shard, hshard, rfl⟩⟩

theorem parseMycatRule_ok_iff (h : s.verifyMycatHashRuleSliceInfos = .ok tables) :
    (∃ r, parseMycatRule env s type = .ok r) ↔ ∃ shard, mycatShard env s tables type = .ok shard := by
  obtain ⟨subTableIndexs, tableToSlice, databases, hparse, rfl⟩ := verifyMycatHashRuleSliceInfos_eq_ok.1 h
  constructor
  · rintro ⟨r, hr⟩
    obtain ⟨_, _, _, shard, hparse', hshard, -⟩ := parseMycatRule_eq_ok.1 hr
    cases hparse.symm.trans hparse'
    exact ⟨shard, hshard⟩
  · rintro ⟨shard, hshard⟩
    exact ⟨_, parseMycatRule_eq_ok.2 ⟨_, _, _, shard, hparse, hshard, rfl⟩⟩

def ShardModel.GlobalDatabases (s : ShardModel) (subTableIndexs : List Int) (tableToSlice : AssocMap Int Int)
    (databases : List String) : Prop :=
  if s.databases = [] then databases = List.replicate subTableIndexs.length s.db
  else getRealDatabases s.databases = .ok databases ∧ tableToSlice.length = databases.length

theorem parseGlobalTableRuleSliceInfos_eq_ok :
    parseGlobalTableRuleSliceInfos s = .ok (subTableIndexs, tableToSlice, databases) ↔
      parseHashRuleSliceInfos s.locations s.slices = .ok (subTableIndexs, tableToSlice) ∧
        s.GlobalDatabases subTableIndexs tableToSlice databases := by
  unfold parseGlobalTableRuleSliceInfos ShardModel.GlobalDatabases
  rw [bind_eq_ok]
  constructor
  · rintro ⟨⟨i, m⟩, h, hrest⟩
    dsimp only at hrest
    split at hrest
    · next hnil =>
      cases hrest
      exact ⟨h, (if_pos hnil).mpr rfl⟩
    · next hne =>
      obtain ⟨dbs, hdbs, hrest⟩ := bind_eq_ok.1 hrest
      split at hrest
      · cases hrest
      · next hlen =>
        cases hrest
        exact ⟨h, (if_neg hne).mpr ⟨hdbs, not_not.1 hlen⟩⟩
  · rintro ⟨h, hdbs⟩
    refine ⟨_, h, ?_⟩
    dsimp only
    split at hdbs
    · next hnil =>
      rw [if_pos hnil, hdbs]
    · next hne =>
      rw [if_neg hne, bind_eq_ok]
      exact ⟨databases, hdbs.1, if_neg (not_not.2 hdbs.2)⟩

theorem parseGlobalRule_eq_ok : parseGlobalRule env s = .ok r ↔ ∃ subTableIndexs tableToSlice databases,
    parseHashRuleSliceInfos s.locations s.slices = .ok (subTableIndexs, tableToSlice) ∧
      s.GlobalDatabases subTableIndexs tableToSlice databases ∧
        r = ruleWithDatabases env s .global subTableIndexs tableToSlice databases globalTableShard := by
  unfold parseGlobalRule
  rw [bind_eq_ok]
  constructor
  · rintro ⟨⟨i, m, dbs⟩, h, hr⟩
    obtain ⟨hparse, hdbs⟩ := parseGlobalTableRuleSliceInfos_eq_ok.1 h
    exact ⟨i, m, dbs, hparse, hdbs, (Except.ok.inj hr).symm⟩
  · rintro ⟨i, m, dbs, hparse, hdbs, rfl⟩
    exact ⟨_, parseGlobalTableRuleSliceInfos_eq_ok.2 ⟨hparse, hdbs⟩, rfl⟩

theorem exists_parseGlobalRule (h : s.verifyGlobalRule = .ok ()) : ∃ r, parseGlobalRule env s = .ok r := by
  obtain ⟨tables, htables, h⟩ := bind_eq_ok.1 h
  obtain ⟨i, m, hparse, rfl⟩ := verifyHashRuleSliceInfos_eq_ok.1 htables
  have hdbs : ∃ dbs, s.GlobalDatabases i m dbs := by
    unfold ShardModel.GlobalDatabases
    split at h
    · next hnil => exact ⟨_, (if_pos hnil).mpr rfl⟩
    · next hne =>
      obtain ⟨dbs, hdbs, h⟩ := bind_eq_ok.1 h
      split at h
      · cases h
      · next hlen => exact ⟨dbs, (if_neg hne).mpr ⟨hdbs, not_not.1 hlen⟩⟩
  obtain ⟨dbs, hdbs⟩ := hdbs
  exact ⟨_, parseGlobalRule_eq_ok.2 ⟨i, m, dbs, hparse, hdbs, rfl⟩⟩

/-! ### Rules with ranges of dates -/

theorem parsePeriod_of_check {dateLength : Nat} {text : GoString}
    (h : parsePeriod check dateLength text = .ok numbers) :
    parsePeriod (fun _ => true) dateLength text = .ok numbers := by
  unfold parsePeriod at h ⊢
  split at h
  · cases h
  · next hok =>
    rw [if_neg fun hbad => hok (.inl (hbad.resolve_right Bool.noConfusion))]
    exact h

theorem parseDayRange_of_check
    (h : parseDayRangeWith check dateRange = .ok numbers) : RouterPackage.parseDayRange dateRange = .ok numbers := by
  unfold RouterPackage.parseDayRange parseDayRangeWith at *
  split at h
  · exact parsePeriod_of_check h
  · exact h

theorem parseMonthRange_of_check
    (h : parseMonthRangeWith check dateRange = .ok numbers) :
    RouterPackage.parseMonthRange dateRange = .ok numbers := by
  unfold RouterPackage.parseMonthRange parseMonthRangeWith at *
  split at h
  · exact parsePeriod_of_check h
  · split at h
    · cases h
    · next hlen =>
      rw [if_neg hlen]
      dsimp only at h ⊢
      split at h
      · cases h
      obtain ⟨beginYear, hby, h⟩ := bind_eq_ok.1 h
      obtain ⟨beginMonth, hbm, h⟩ := bind_eq_ok.1 h
      split at h
      · cases h
      rw [if_neg Bool.noConfusion, bind_of_ok hby, bind_of_ok hbm, if_neg Bool.noConfusion]
      exact h

theorem parseYearRange_of_check
    (h : parseYearRangeWith check dateRange = .ok numbers) :
    RouterPackage.parseYearRange dateRange = .ok numbers := by
  unfold RouterPackage.parseYearRange parseYearRangeWith at *
  split at h
  · exact parsePeriod_of_check h
  · dsimp only at h ⊢
    split at h
    · cases h
    obtain ⟨beginYear, hby, h⟩ := bind_eq_ok.1 h
    split at h
    · cases h
    rw [if_neg Bool.noConfusion, bind_of_ok hby, if_neg Bool.noConfusion]
    exact h

theorem tablesOfRanges_mono
    (hparse : ∀ dateRange numbers, parse dateRange = .ok numbers → parse' dateRange = .ok numbers)
    (ranges : List GoString)
    {i : Nat} {tables tables' : List (Int × Int)} (h : tablesOfRanges parse i tables ranges = .ok tables') :
    tablesOfRanges parse' i tables ranges = .ok tables' := by
  induction ranges generalizing i tables with
  | nil => exact h
  | cons dateRange ranges ih =>
    obtain ⟨numbers, hnumbers, h⟩ := bind_eq_ok.1 h
    refine bind_eq_ok.2 ⟨numbers, hparse _ _ hnumbers, ?_⟩
    split at h
    · exact ih h
    · cases h
    · split at h
      · cases h
      · next hlt => exact (if_neg hlt).trans (ih h)

theorem exists_parseDateRule {shard : Shard}
    (hparse : ∀ dateRange numbers, parse dateRange = .ok numbers → parse' dateRange = .ok numbers)
    (h : s.verifyDateRule parse = .ok ()) : ∃ r, parseDateRule env s type parse' shard = .ok r := by
  obtain ⟨tables, htables, -⟩ := bind_eq_ok.1 h
  refine ⟨dateRule env s type tables shard, bind_eq_ok.2 ⟨tables, ?_, rfl⟩⟩
  unfold parseDateRuleSliceInfos at htables ⊢
  split at htables
  · cases htables
  · next hcount =>
    rw [if_neg hcount]
    exact tablesOfRanges_mono hparse _ htables

/-! ### All rules -/

/-- The segments of a rule that has segments lie in their table. -/
def ShardModel.SegmentsFit (s : ShardModel) : Prop :=
  s.type = .known .mycatLong ∨ s.type = .known .mycatString → ∀ counts lengths,
    toIntArray s.partitionCount = .ok counts → toIntArray s.partitionLength = .ok lengths →
    SegmentsInRange counts lengths

theorem initPartitionLong_ok_iff_segmentsFit {ai : List Int}
    (htype : s.type = .known .mycatLong ∨ s.type = .known .mycatString)
    (h : partitionBoundaries tables s.partitionCount s.partitionLength = .ok ai) :
    (∃ segment, initPartitionLong tables s.partitionCount s.partitionLength = .ok segment) ↔ s.SegmentsFit := by
  obtain ⟨counts, hcounts, h'⟩ := bind_eq_ok.1 h
  obtain ⟨lengths, hlengths, -⟩ := bind_eq_ok.1 h'
  rw [initPartitionLong_ok_iff h hcounts hlengths]
  constructor
  · intro hin _ counts' lengths' hcounts' hlengths'
    cases hcounts.symm.trans hcounts'
    cases hlengths.symm.trans hlengths'
    exact hin
  · intro hfit
    exact hfit htype counts lengths hcounts hlengths

theorem ShardModel.exists_parseRule (h : s.verify = .ok ()) (hlong : s.type ≠ .known .mycatLong)
    (hstring : s.type ≠ .known .mycatString) : ∃ r, s.parseRule env = .ok r := by
  unfold ShardModel.verify at h
  unfold ShardModel.parseRule
  generalize s.type = configType at h hlong hstring ⊢
  rcases configType with type | name
  case unknown => cases h
  cases type
  case hash | mod =>
    obtain ⟨tables, htables, -⟩ := bind_eq_ok.1 h
    obtain ⟨i, m, hparse, -⟩ := verifyHashRuleSliceInfos_eq_ok.1 htables
    exact ⟨_, bind_eq_ok.2 ⟨_, bind_eq_ok.2 ⟨_, hparse, rfl⟩, rfl⟩⟩
  case range =>
    obtain ⟨tables, htables, h⟩ := bind_eq_ok.1 h
    obtain ⟨i, m, hparse, rfl⟩ := verifyHashRuleSliceInfos_eq_ok.1 htables
    obtain ⟨ranges, hranges, h⟩ := bind_eq_ok.1 h
    split at h
    · cases h
    · next hlen =>
      have hinfos : parseRuleSliceInfos (s.config .range) = .ok (i, m, numRangeShard ranges) :=
        bind_eq_ok.2 ⟨_, hparse, bind_eq_ok.2 ⟨_, hranges, if_neg hlen⟩⟩
      exact ⟨_, bind_eq_ok.2 ⟨_, hinfos, rfl⟩⟩
  case dateDay => exact exists_parseDateRule (fun _ _ => parseDayRange_of_check) h
  case dateMonth => exact exists_parseDateRule (fun _ _ => parseMonthRange_of_check) h
  case dateYear => exact exists_parseDateRule (fun _ _ => parseYearRange_of_check) h
  case mycatMod =>
    obtain ⟨tables, htables, -⟩ := bind_eq_ok.1 h
    exact (parseMycatRule_ok_iff htables).2 ⟨_, rfl⟩
  case mycatMurmur =>
    obtain ⟨tables, htables, h⟩ := bind_eq_ok.1 h
    obtain ⟨⟨seed, times⟩, hseed, -⟩ := bind_eq_ok.1 h
    exact (parseMycatRule_ok_iff htables).2 ⟨_, bind_eq_ok.2 ⟨_, hseed, rfl⟩⟩
  case mycatPaddingMod =>
    obtain ⟨tables, htables, h⟩ := bind_eq_ok.1 h
    obtain ⟨shard, hshard, h⟩ := bind_eq_ok.1 h
    refine (parseMycatRule_ok_iff htables).2 ⟨mycatPartitionPaddingModShard shard, ?_⟩
    exact bind_eq_ok.2 ⟨shard, hshard, bind_eq_ok.2 ⟨(), h, rfl⟩⟩
  case global => exact exists_parseGlobalRule h
  case mycatLong => exact absurd rfl hlong
  case mycatString => exact absurd rfl hstring
  case default | linked => cases h

/-- A rule that passes its check can be built, but for its segments. -/
theorem ShardModel.parseRule_ok_iff (h : s.verify = .ok ()) : (∃ r, s.parseRule env = .ok r) ↔ s.SegmentsFit := by
  by_cases hlong : s.type = .known .mycatLong
  · unfold ShardModel.verify at h
    unfold ShardModel.parseRule
    rw [hlong] at h ⊢
    obtain ⟨tables, htables, h⟩ := bind_eq_ok.1 h
    obtain ⟨ai, hai, -⟩ := bind_eq_ok.1 h
    refine (parseMycatRule_ok_iff htables).trans
      (Iff.trans ?_ (initPartitionLong_ok_iff_segmentsFit (.inl hlong) hai))
    exact exists_bind_iff fun segment => ⟨_, rfl⟩
  by_cases hstring : s.type = .known .mycatString
  · unfold ShardModel.verify at h
    unfold ShardModel.parseRule
    rw [hstring] at h ⊢
    obtain ⟨tables, htables, h⟩ := bind_eq_ok.1 h
    obtain ⟨ai, hai, h⟩ := bind_eq_ok.1 h
    obtain ⟨hashSlice, hhashSlice, -⟩ := bind_eq_ok.1 h
    refine (parseMycatRule_ok_iff htables).trans
      (Iff.trans ?_ (initPartitionLong_ok_iff_segmentsFit (.inr hstring) hai))
    exact exists_bind_iff fun segment => ⟨_, bind_eq_ok.2 ⟨hashSlice, hhashSlice, rfl⟩⟩
  · exact iff_of_true (s.exists_parseRule h hlong hstring) fun htype => absurd htype (not_or.2 ⟨hlong, hstring⟩)

/-- How the tables of a rule come from its configuration: from its locations, with databases for the rules that have
them, or from its ranges of dates. -/
inductive ShardModel.Tables (s : ShardModel) (r : BaseRule) : Prop
  | located (htype : r.ruleType = .hash ∨ r.ruleType = .mod ∨ r.ruleType = .range)
      (hparse : parseHashRuleSliceInfos s.locations s.slices = .ok (r.subTableIndexes, r.tableToSlice))
  | mycat (htype : isMycatShardingRule r.ruleType = true)
      (hparse : parseHashRuleSliceInfos s.locations s.slices = .ok (r.subTableIndexes, r.tableToSlice))
      (hdatabases : getRealDatabases s.databases = .ok r.mycatDatabases)
      (hlength : r.tableToSlice.length = r.mycatDatabases.length)
      (hmap : r.mycatDatabaseToTableIndexMap = databaseToTableIndexMap r.mycatDatabases)
  | global (htype : r.ruleType = .global)
      (hparse : parseHashRuleSliceInfos s.locations s.slices = .ok (r.subTableIndexes, r.tableToSlice))
      (hdatabases : s.GlobalDatabases r.subTableIndexes r.tableToSlice r.mycatDatabases)
  | dated (parse : GoString → Except Fail (List Int))
      (htype : r.ruleType = .dateDay ∧ parse = RouterPackage.parseDayRange ∨
        r.ruleType = .dateMonth ∧ parse = RouterPackage.parseMonthRange ∨
        r.ruleType = .dateYear ∧ parse = RouterPackage.parseYearRange) (tables : List (Int × Int))
      (hparse : parseDateRuleSliceInfos parse s.dateRange s.slices = .ok tables)
      (hindexes : r.subTableIndexes = tables.map Prod.fst)
      (hslices : r.tableToSlice = tables.foldl (fun m t => AssocMap.set m t.1 t.2) [])

theorem parseMycatRule_spec (htype : isMycatShardingRule type = true) (hs : s.type = .known type)
    (h : parseMycatRule env s type = .ok r) : s.Names env r ∧ s.Tables r := by
  obtain ⟨i, m, dbs, shard, hparse, -, rfl⟩ := parseMycatRule_eq_ok.1 h
  obtain ⟨hparse, hdbs, hlen⟩ := parseMycatHashRuleSliceInfos_eq_ok.1 hparse
  have hne : type ≠ .default := by
    rintro rfl
    cases htype
  exact ⟨⟨rfl, rfl, rfl, hs, rfl, hne⟩, .mycat htype hparse hdbs hlen rfl⟩

theorem ShardModel.parseRule_spec (h : s.parseRule env = .ok r) : s.Names env r ∧ s.Tables r := by
  unfold ShardModel.parseRule at h
  split at h
  case h_2 => cases h
  next type htype =>
  cases type
  case hash | mod =>
    obtain ⟨⟨i, m, shard⟩, hinfos, hr⟩ := bind_eq_ok.1 h
    obtain ⟨⟨i', m'⟩, hparse, hshard⟩ := bind_eq_ok.1 hinfos
    cases hshard
    cases hr
    exact ⟨⟨rfl, rfl, rfl, htype, rfl, nofun⟩, .located (by simp [ShardModel.config]) hparse⟩
  case range =>
    obtain ⟨⟨i, m, shard⟩, hinfos, hr⟩ := bind_eq_ok.1 h
    obtain ⟨⟨i', m'⟩, hparse, hshard⟩ := bind_eq_ok.1 hinfos
    obtain ⟨ranges, -, hshard⟩ := bind_eq_ok.1 hshard
    split at hshard
    · cases hshard
    cases hshard
    cases hr
    exact ⟨⟨rfl, rfl, rfl, htype, rfl, nofun⟩, .located (.inr (.inr rfl)) hparse⟩
  case dateDay =>
    obtain ⟨tables, htables, hr⟩ := bind_eq_ok.1 h
    cases hr
    exact ⟨⟨rfl, rfl, rfl, htype, rfl, nofun⟩, .dated _ (.inl ⟨rfl, rfl⟩) tables htables rfl rfl⟩
  case dateMonth =>
    obtain ⟨tables, htables, hr⟩ := bind_eq_ok.1 h
    cases hr
    exact ⟨⟨rfl, rfl, rfl, htype, rfl, nofun⟩, .dated _ (.inr (.inl ⟨rfl, rfl⟩)) tables htables rfl rfl⟩
  case dateYear =>
    obtain ⟨tables, htables, hr⟩ := bind_eq_ok.1 h
    cases hr
    exact ⟨⟨rfl, rfl, rfl, htype, rfl, nofun⟩, .dated _ (.inr (.inr ⟨rfl, rfl⟩)) tables htables rfl rfl⟩
  case global =>
    obtain ⟨i, m, dbs, hparse, hdbs, rfl⟩ := parseGlobalRule_eq_ok.1 h
    exact ⟨⟨rfl, rfl, rfl, htype, rfl, nofun⟩, .global rfl hparse hdbs⟩
  case mycatMod | mycatLong | mycatString | mycatMurmur | mycatPaddingMod => exact parseMycatRule_spec rfl htype h
  case default | linked => cases h

end DbProxy
