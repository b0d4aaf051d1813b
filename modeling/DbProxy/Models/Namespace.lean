import DbProxy.Models.DateRange
import DbProxy.Mysql.Charset
import DbProxy.Router.Rule

/-!
# The configuration of a namespace

`models.Namespace` and its check `Verify` (`models/namespace.go`, `models/shard_rule.go`), which the control plane
runs before it stores a configuration.
-/

namespace DbProxy

def errLocationsCount : Fail := .error "locations count is not equal"
def errUnknownRuleType : Fail := .error "unknown rule type"

/-- The text in the field `type` of a rule. -/
inductive ConfigType where
  | known (type : RuleType)
  | unknown (name : String)
  deriving DecidableEq, Repr

/-- `models.Shard` -/
structure ShardModel where
  db : String
  table : String
  parentTable : String := ""
  type : ConfigType
  key : String := ""
  locations : List Int := []
  slices : List String := []
  dateRange : List GoString := []
  tableRowLimit : Int := 0
  databases : List String := []
  partitionCount : GoString := []
  partitionLength : GoString := []
  hashSlice : GoString := []
  seed : GoString := []
  virtualBucketTimes : GoString := []
  padFrom : GoString := []
  padLength : GoString := []
  modBegin : GoString := []
  modEnd : GoString := []
  deriving DecidableEq, Repr

/-- `models.Slice`; `StatisticSlaves`, the password and the idle timeout are not checked. -/
structure SliceModel where
  name : String
  userName : String
  master : String
  slaves : List String
  slaveDCMaster : String
  slaveDCSlaves : List String
  capacity : Int
  maxCapacity : Int
  deriving DecidableEq, Repr

/-- `models.User` -/
structure UserModel where
  userName : GoString
  password : GoString
  namespaceName : GoString
  rwFlag : Int
  rwSplit : Int
  otherProperty : Int
  deriving DecidableEq, Repr

/-- The fields of `models.Namespace` that are checked or that a router is built from, and two flags. -/
structure NamespaceModel where
  name : GoString
  masterDCOrigin : Bool := false
  masterDC : Bool := true
  allowedDBS : AssocMap String Bool
  defaultPhyDBS : AssocMap String String := []
  slowSQLTime : GoString := []
  allowedIP : List GoString := []
  slices : List SliceModel
  shardRules : List ShardModel
  users : List UserModel
  defaultSlice : String
  defaultCharset : String := ""
  defaultCollation : String := ""
  deriving DecidableEq, Repr

/-! ### Databases of a rule -/

/-- A name `prefix[left-right]`: `^(\S+?)\[(\d+)-(\d+)\]$`, read from its end. -/
def rangeDatabase (db : List Char) : Option (List Char × List Char × List Char) :=
  match db.reverse with
  | ']' :: rest =>
    let right := rest.takeWhile Char.isDigit
    match rest.dropWhile Char.isDigit with
    | '-' :: rest =>
      let left := rest.takeWhile Char.isDigit
      match rest.dropWhile Char.isDigit with
      | '[' :: front =>
        if right = [] ∨ left = [] ∨ front = [] ∨ front.any (· ∈ ['\t', '\n', '\x0c', '\r', ' ']) then none
        else some (front.reverse, left.reverse, right.reverse)
      | _ => none
    | _ => none
  | _ => none

/-- The databases of one entry of the list. -/
def realDatabases (db : String) : Except Fail (List String) :=
  match rangeDatabase db.toList with
  | none => .ok [db]
  | some (dbPrefix, left, right) =>
    match atoi (ascii (String.ofList left)), atoi (ascii (String.ofList right)) with
    | none, _ => .error (.error ("invalid left bound value of database list: " ++ db))
    | _, none => .error (.error ("invalid right bound value of database list: " ++ db))
    | some leftBound, some rightBound =>
      if rightBound ≤ leftBound then .error (.error ("invalid bound value of database list: " ++ db))
      else .ok ((List.range (rightBound - leftBound + 1).toNat).map fun i : Nat =>
        String.ofList dbPrefix ++ toString (leftBound + i))

def getRealDatabases (dbs : List String) : Except Fail (List String) := do
  let lists ← dbs.mapM realDatabases
  .ok lists.flatten

/-! ### Rules -/

/-- The error for a linked rule whose parent has no rule. -/
def linkedRuleNotFound {V : Type} (rules : AssocMap (String × String) V) (db : String) : Fail :=
  if rules.any (·.1.1 = db) then .error "parent table of LinkedRule is not found in parent rules"
  else .error "db of LinkedRule is not found in parent rules"

namespace ShardModel

/-- `verifyHashRuleSliceInfos`: the number of tables. -/
def verifyHashRuleSliceInfos (s : ShardModel) : Except Fail Nat := do
  let (_, tableToSlice) ← parseHashRuleSliceInfos s.locations s.slices
  .ok tableToSlice.length

def verifyMycatHashRuleSliceInfos (s : ShardModel) : Except Fail Nat := do
  let tables ← s.verifyHashRuleSliceInfos
  let realDatabaseList ← getRealDatabases s.databases
  if tables ≠ realDatabaseList.length then .error errLocationsCount else .ok tables

/-- The text that `fmt` makes of the ranges. -/
def numKeyRangesText (ranges : List NumKeyRange) : String :=
  "[" ++ " ".intercalate (ranges.map fun r => "\x7b" ++ toString r.start ++ " " ++ toString r.stop ++ "\x7d") ++ "]"

def verifyRangeRule (s : ShardModel) : Except Fail Unit := do
  let tables ← s.verifyHashRuleSliceInfos
  let tableCount ← parseNumSharding s.locations s.tableRowLimit
  if tableCount.length ≠ tables then
    .error (.error ("range space " ++ numKeyRangesText tableCount ++ " not equal tables " ++ toString tables))
  else .ok ()

def verifyDateRule (parse : GoString → Except Fail (List Int)) (s : ShardModel) : Except Fail Unit := do
  let _ ← parseDateRuleSliceInfos parse s.dateRange s.slices
  .ok ()

def verifyMycatModRule (s : ShardModel) : Except Fail Unit := do
  let _ ← s.verifyMycatHashRuleSliceInfos
  .ok ()

def verifyMycatLongRule (s : ShardModel) : Except Fail Unit := do
  let tables ← s.verifyMycatHashRuleSliceInfos
  let _ ← partitionBoundaries tables s.partitionCount s.partitionLength
  .ok ()

def verifyMycatStringRule (s : ShardModel) : Except Fail Unit := do
  let tables ← s.verifyMycatHashRuleSliceInfos
  let _ ← partitionBoundaries tables s.partitionCount s.partitionLength
  let _ ← parseHashSliceStartEnd s.hashSlice
  .ok ()

def verifyMycatMURMURRule (s : ShardModel) : Except Fail Unit := do
  let _ ← s.verifyMycatHashRuleSliceInfos
  let _ ← newMycatPartitionMurmurHash s.seed s.virtualBucketTimes
  .ok ()

def verifyMycatPaddingRule (s : ShardModel) : Except Fail Unit := do
  let tables ← s.verifyMycatHashRuleSliceInfos
  let shard ← getMycatPartitionPaddingModShard s.padFrom s.padLength s.modBegin s.modEnd tables
  shard.checkParam

def verifyGlobalRule (s : ShardModel) : Except Fail Unit := do
  let tables ← s.verifyHashRuleSliceInfos
  if s.databases = [] then .ok ()
  else do
    let realDatabaseList ← getRealDatabases s.databases
    if tables ≠ realDatabaseList.length then .error errLocationsCount else .ok ()

/-- `ruleVerifyFuncMapping` -/
def verify (s : ShardModel) : Except Fail Unit :=
  match s.type with
  | .known .hash | .known .mod => do
    let _ ← s.verifyHashRuleSliceInfos
    .ok ()
  | .known .range => s.verifyRangeRule
  | .known .dateDay => s.verifyDateRule Models.parseDayRange
  | .known .dateMonth => s.verifyDateRule Models.parseMonthRange
  | .known .dateYear => s.verifyDateRule Models.parseYearRange
  | .known .mycatMod => s.verifyMycatModRule
  | .known .mycatLong => s.verifyMycatLongRule
  | .known .mycatString => s.verifyMycatStringRule
  | .known .mycatMurmur => s.verifyMycatMURMURRule
  | .known .mycatPaddingMod => s.verifyMycatPaddingRule
  | .known .global => s.verifyGlobalRule
  | .known .default | .known .linked | .unknown _ => .error errUnknownRuleType

end ShardModel

/-! ### The namespace -/

namespace SliceModel

def verify (s : SliceModel) : Except Fail Unit :=
  if s.name = "" then .error (.error "must specify slice name")
  else if s.userName = "" then .error (.error "missing user")
  else if s.master = "" ∧ s.slaves = [] then .error (.error "both master and slaves empty")
  else if "" ∈ s.slaves then .error (.error "illegal slave addr")
  else if "" ∈ s.slaveDCSlaves then .error (.error "illegal slave dc slave addr")
  else if s.capacity ≤ 0 then .error (.error "connection pool capacity should be > 0")
  else if s.maxCapacity ≤ 0 then .error (.error "max connection pool capactiy should be > 0")
  else .ok ()

end SliceModel

namespace UserModel

/-- `User.verify`: the name as it is afterwards. -/
def verify (u : UserModel) : Except Fail GoString :=
  if u.userName = [] then .error (.error "missing user name")
  else if u.namespaceName = [] then .error (.error "missing namespace name")
  else if u.password = [] then .error (.error "missing password")
  else if u.rwFlag ≠ 1 ∧ u.rwFlag ≠ 2 then .error (.error "invalid RWFlag")
  else if u.rwSplit ≠ 0 ∧ u.rwSplit ≠ 1 then .error (.error "invalid RWSplit")
  else if u.otherProperty ≠ 1 ∧ u.otherProperty ≠ 0 then .error (.error "invalid other property")
  else .ok (trimSpace u.userName)

end UserModel

/-- `mysql.VerifyCharset` -/
def verifyCharset (charset collation : String) : Except Fail Unit :=
  if charset = "" ∧ collation = "" then .ok ()
  else if charset = "" then .error (.error "cannot set collation without charset")
  else if (charsets charset).isNone then .error (.error "invalid charset")
  else if collation = "" then .ok ()
  else match collationNameToCharset collation with
    | none => .error (.error "invalid collation")
    | some relativeCharset =>
      if charset ≠ relativeCharset then .error (.error "charset and collation does not match") else .ok ()

namespace NamespaceModel

variable (n : NamespaceModel)

def verifyName : Except Fail Unit := if n.name = [] then .error (.error "must specify namespace name") else .ok ()

def verifyAllowDBS : Except Fail Unit :=
  if n.allowedDBS = [] then .error (.error "must specify usable dbs") else .ok ()

/-- The loop over the users; `seen` are the names of those in front.  A user without a namespace gets that of the
configuration. -/
def verifyUsersFrom (seen : List GoString) : List UserModel → Except Fail Unit
  | [] => .ok ()
  | u :: users =>
    if u.namespaceName ≠ [] ∧ u.namespaceName ≠ n.name then .error (.error "user's namespace name mismatch")
    else do
      let userName ← wrapErr "user config error, " ({ u with namespaceName := n.name }).verify
      if userName ∈ seen then .error (.error "user duped") else verifyUsersFrom (seen ++ [userName]) users

def verifyUsers : Except Fail Unit :=
  if n.users = [] then .error (.error "must specify proxy access users") else n.verifyUsersFrom [] n.users

def verifySlowSQLTime : Except Fail Unit :=
  if n.slowSQLTime = [] then .ok ()
  else if (parseInt n.slowSQLTime).2 = false ∨ (parseInt n.slowSQLTime).1 < 0 then
    .error (.error "invalid slow sql time")
  else .ok ()

def verifyDBs : Except Fail Unit :=
  if n.defaultPhyDBS = [] then .ok ()
  else if n.allowedDBS.all fun e => (n.defaultPhyDBS.get e.1).isSome then .ok ()
  else .error (.error "db have no phy db")

/-- `parseIPInfo` stands for `util.ParseIPInfo`. -/
def verifyAllowIps (parseIPInfo : GoString → Bool) : Except Fail Unit :=
  if n.allowedIP.all fun ip => trimSpace ip = [] || parseIPInfo (trimSpace ip) then .ok ()
  else .error (.error "verify allowips error: invalid ip address")

/-- The loop over the slices; `seen` are the names of those in front. -/
def verifySlicesFrom (seen : List String) : List SliceModel → Except Fail Unit
  | [] => .ok ()
  | s :: slices => do
    wrapErr "slice cfg error, " s.verify
    if s.name ∈ seen then .error (.error "slice name duped") else verifySlicesFrom (seen ++ [s.name]) slices

def verifySlices : Except Fail Unit :=
  if n.slices = [] then .error (.error "empty slices") else verifySlicesFrom [] n.slices

def sliceNames : List String := n.slices.map SliceModel.name

def verifyDefaultSlice : Except Fail Unit :=
  if n.defaultSlice ≠ "" ∧ n.defaultSlice ∉ n.sliceNames then
    .error (.error ("invalid default slice: " ++ n.defaultSlice))
  else .ok ()

/-- The check of one rule; a linked one is checked when all rules are known. -/
def verifyRuleType (s : ShardModel) : Except Fail Unit :=
  match s.type with
  | .known .default => .error (.error "[default-rule] duplicate, must only one")
  | .known .linked => .ok ()
  | _ => s.verify

/-- One turn of the loop over the rules; `rules` has the type of each table met so far. -/
def verifyShardRule (rules : AssocMap (String × String) ConfigType) (s : ShardModel) :
    Except Fail (AssocMap (String × String) ConfigType) :=
  if !s.slices.all (· ∈ n.sliceNames) then
    .error (.error ("shard table[" ++ s.table ++ "] slice not in the namespace.slices list"))
  else do
    verifyRuleType s
    if (rules.get (s.db, s.table)).isSome then
      .error (.error ("table " ++ s.table ++ " rule in " ++ s.db ++ " duplicate"))
    else .ok (rules.set (s.db, s.table) s.type)

/-- The check of a linked rule, when the types of all tables are known. -/
def verifyLinkedRule (rules : AssocMap (String × String) ConfigType) (s : ShardModel) : Except Fail Unit :=
  match rules.get (s.db, s.parentTable) with
  | none => .error (linkedRuleNotFound rules s.db)
  | some type =>
    if type = .known .linked then .error (.error "LinkedRule cannot link to another LinkedRule") else .ok ()

def verifyShardRules : Except Fail Unit := do
  let rules ← n.shardRules.foldlM n.verifyShardRule []
  (n.shardRules.filter (·.type = .known .linked)).forM (verifyLinkedRule rules)

def verify (parseIPInfo : GoString → Bool) : Except Fail Unit := do
  n.verifyName
  n.verifyAllowDBS
  n.verifyUsers
  n.verifySlowSQLTime
  n.verifyDBs
  n.verifyAllowIps parseIPInfo
  wrapErr "verify charset error: " (verifyCharset n.defaultCharset n.defaultCollation)
  n.verifySlices
  n.verifyDefaultSlice
  n.verifyShardRules

end NamespaceModel

end DbProxy
