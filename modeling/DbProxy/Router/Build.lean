import DbProxy.Models.Namespace

/-!
# Building the router

`NewRouter` (`proxy/router/router.go`) builds the rules of a namespace: first those of the tables that are split or
kept on all slices, then the linked ones.
-/

namespace DbProxy

/-- The part of the configuration that the hash, mod and range rules read. -/
def ShardModel.config (s : ShardModel) (type : RuleType) : ShardConfig where
  db := s.db
  table := s.table
  key := s.key
  type := type
  locations := s.locations
  slices := s.slices
  tableRowLimit := s.tableRowLimit

/-- The tables of a rule with locations, as many as there are databases. -/
def parseMycatHashRuleSliceInfos (s : ShardModel) : Except Fail (List Int × AssocMap Int Int × List String) := do
  let (subTableIndexs, tableToSlice) ← parseHashRuleSliceInfos s.locations s.slices
  let realDatabaseList ← getRealDatabases s.databases
  if tableToSlice.length ≠ realDatabaseList.length then .error errLocationsCount
  else .ok (subTableIndexs, tableToSlice, realDatabaseList)

/-- Without a list of databases each table is in the database of the rule. -/
def parseGlobalTableRuleSliceInfos (s : ShardModel) : Except Fail (List Int × AssocMap Int Int × List String) := do
  let (subTableIndexs, tableToSlice) ← parseHashRuleSliceInfos s.locations s.slices
  if s.databases = [] then .ok (subTableIndexs, tableToSlice, List.replicate subTableIndexs.length s.db)
  else do
    let realDatabaseList ← getRealDatabases s.databases
    if tableToSlice.length ≠ realDatabaseList.length then .error errLocationsCount
    else .ok (subTableIndexs, tableToSlice, realDatabaseList)

/-- `r.mycatDatabaseToTableIndexMap[db] = i`: of databases with one name the last stays. -/
def databaseToTableIndexMap (databases : List String) : AssocMap String Int :=
  (databases.zipIdx).foldl (fun m e => m.set e.1 (e.2 : Int)) []

section Rules

/-- What the rules take from outside: the local time zone, `strings.ToLower` and the package `treemap`. -/
structure RuleEnv where
  zone : Zone
  toLower : String → String
  treeMap : TreeMap

variable (env : RuleEnv)

/-- A rule of mycat or of a global table. -/
def ruleWithDatabases (s : ShardModel) (type : RuleType) (subTableIndexs : List Int) (tableToSlice : AssocMap Int Int)
    (databases : List String) (shard : Shard) : BaseRule where
  db := s.db
  table := env.toLower s.table
  shardingColumn := env.toLower s.key
  ruleType := type
  slices := s.slices
  subTableIndexes := subTableIndexs
  tableToSlice := tableToSlice
  shard := shard
  mycatDatabases := databases
  mycatDatabaseToTableIndexMap := databaseToTableIndexMap databases

/-- The shard of a mycat rule with `shardNum` tables, after its `Init`. -/
def mycatShard (s : ShardModel) (shardNum : Nat) : RuleType → Except Fail Shard
  | .mycatMod => .ok (mycatPartitionModShard shardNum)
  | .mycatLong => do
    let segment ← initPartitionLong shardNum s.partitionCount s.partitionLength
    .ok (mycatPartitionLongShard segment)
  | .mycatString => do
    let segment ← initPartitionLong shardNum s.partitionCount s.partitionLength
    let hashSlice ← parseHashSliceStartEnd s.hashSlice
    .ok (mycatPartitionStringShard segment hashSlice)
  | .mycatMurmur => do
    let (seed, virtualBucketTimes) ← newMycatPartitionMurmurHash s.seed s.virtualBucketTimes
    .ok (mycatPartitionMurmurHashShard env.treeMap seed virtualBucketTimes shardNum)
  | .mycatPaddingMod => do
    let shard ← getMycatPartitionPaddingModShard s.padFrom s.padLength s.modBegin s.modEnd shardNum
    shard.checkParam
    .ok (mycatPartitionPaddingModShard shard)
  | _ => .error errUnknownRuleType

def parseMycatRule (s : ShardModel) (type : RuleType) : Except Fail BaseRule := do
  let (subTableIndexs, tableToSlice, databases) ← parseMycatHashRuleSliceInfos s
  let shard ← mycatShard env s tableToSlice.length type
  .ok (ruleWithDatabases env s type subTableIndexs tableToSlice databases shard)

def parseGlobalRule (s : ShardModel) : Except Fail BaseRule := do
  let (subTableIndexs, tableToSlice, databases) ← parseGlobalTableRuleSliceInfos s
  .ok (ruleWithDatabases env s .global subTableIndexs tableToSlice databases globalTableShard)

/-- A rule of dates, with the slice of each of its tables. -/
def dateRule (s : ShardModel) (type : RuleType) (tables : List (Int × Int)) (shard : Shard) : BaseRule where
  db := s.db
  table := env.toLower s.table
  shardingColumn := env.toLower s.key
  ruleType := type
  slices := s.slices
  subTableIndexes := tables.map Prod.fst
  tableToSlice := tables.foldl (fun m t => AssocMap.set m t.1 t.2) []
  shard := shard

def parseDateRule (s : ShardModel) (type : RuleType) (parse : GoString → Except Fail (List Int)) (shard : Shard) :
    Except Fail BaseRule := do
  let tables ← parseDateRuleSliceInfos parse s.dateRange s.slices
  .ok (dateRule env s type tables shard)

/-- The rules that `parseRule` of the hash, mod and range rules leaves to others. -/
def parseOtherRule (s : ShardModel) : RuleType → Except Fail BaseRule
  | .dateDay => parseDateRule env s .dateDay RouterPackage.parseDayRange (dateDayShard env.zone)
  | .dateMonth => parseDateRule env s .dateMonth RouterPackage.parseMonthRange (dateMonthShard env.zone)
  | .dateYear => parseDateRule env s .dateYear RouterPackage.parseYearRange (dateYearShard env.zone)
  | .global => parseGlobalRule env s
  | .mycatMod => parseMycatRule env s .mycatMod
  | .mycatLong => parseMycatRule env s .mycatLong
  | .mycatString => parseMycatRule env s .mycatString
  | .mycatMurmur => parseMycatRule env s .mycatMurmur
  | .mycatPaddingMod => parseMycatRule env s .mycatPaddingMod
  | _ => .error errUnknownRuleType

def ShardModel.parseRule (s : ShardModel) : Except Fail BaseRule :=
  match s.type with
  | .known type => DbProxy.parseRule env.toLower (fun _ => parseOtherRule env s type) (s.config type)
  | .unknown _ => .error errUnknownRuleType

def createLinkedRule (rules : AssocMap (String × String) Rule) (s : ShardModel) : Except Fail LinkedRule :=
  match rules.get (s.db, env.toLower s.parentTable) with
  | none => .error (linkedRuleNotFound rules s.db)
  | some (.linked _) => .error (.error "LinkedRule must link to a BaseRule")
  | some (.base linkToRule) =>
    .ok { db := s.db, table := env.toLower s.table, shardingColumn := env.toLower s.key, linkToRule }

/-- A global rule gets the slices of the namespace. -/
def BaseRule.inNamespace (sliceNames : List String) (rule : BaseRule) : BaseRule :=
  if rule.ruleType = .global then { rule with slices := sliceNames } else rule

/-- One turn of the loop over the rules; those that are linked come later. -/
def addRule (sliceNames : List String) (rules : AssocMap (String × String) Rule) (s : ShardModel) :
    Except Fail (AssocMap (String × String) Rule) :=
  if !s.slices.all (· ∈ sliceNames) then
    .error (.error ("shard table[" ++ s.table ++ "] slice not in the namespace.slices list"))
  else if s.type = .known .linked then .ok rules
  else do
    let rule ← s.parseRule env
    let rule := rule.inNamespace sliceNames
    if rule.ruleType = .default then .error (.error "[default-rule] duplicate, must only one")
    else if (rules.get (rule.db, rule.table)).isSome then
      .error (.error ("table " ++ rule.table ++ " rule in " ++ rule.db ++ " duplicate"))
    else .ok (rules.set (rule.db, rule.table) (.base rule))

/-- One turn of the loop over the linked rules. -/
def addLinkedRule (rules : AssocMap (String × String) Rule) (s : ShardModel) :
    Except Fail (AssocMap (String × String) Rule) := do
  let rule ← wrapErr "create linked rule error: " (createLinkedRule env rules s)
  .ok (rules.set (rule.db, rule.table) (.linked rule))

def newRouter (n : NamespaceModel) : Except Fail Router :=
  if n.defaultSlice ∉ n.sliceNames then
    .error (.error ("default slice[" ++ n.defaultSlice ++ "] not in the slice list"))
  else do
    let rules ← n.shardRules.foldlM (addRule env n.sliceNames) []
    let rules ← (n.shardRules.filter (·.type = .known .linked)).foldlM (addLinkedRule env) rules
    .ok ⟨rules⟩

end Rules

end DbProxy
