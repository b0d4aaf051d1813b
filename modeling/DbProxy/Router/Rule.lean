import DbProxy.Lib.AssocMap
import DbProxy.Router.Shard

/-!
# Rules and the router

A rule says how one logical table is split: its sharding column, the indexes of its sub-tables, the slice of each
index, and the shard that finds the index of a key.  A linked rule belongs to a child table and takes everything
but its names and its sharding column from the rule of its parent.

`parseRule` builds the rule of a configuration.  The hash, mod and range rules are read here; `rest` stands for the
reading of the calendar, mycat and global rules.
-/

namespace DbProxy

/-- `models.ShardHash`, `models.ShardMod`, …: the types a rule can have. -/
inductive RuleType where
  | default
  | global
  | linked
  | hash
  | range
  | mod
  | dateYear
  | dateMonth
  | dateDay
  | mycatMod
  | mycatLong
  | mycatString
  | mycatMurmur
  | mycatPaddingMod
  deriving DecidableEq, Repr

def isMycatShardingRule : RuleType → Bool
  | .mycatMod | .mycatLong | .mycatMurmur | .mycatPaddingMod | .mycatString => true
  | _ => false

/-- The rules that keep the database name and number the tables: `t_0000`, `t_0001`, … -/
def isKingshardRule : RuleType → Bool
  | .hash | .range | .mod | .dateYear | .dateMonth | .dateDay => true
  | _ => false

structure BaseRule where
  db : String
  table : String
  shardingColumn : String
  ruleType : RuleType
  slices : List String
  subTableIndexes : List Int
  tableToSlice : AssocMap Int Int
  shard : Shard
  mycatDatabases : List String := []
  mycatDatabaseToTableIndexMap : AssocMap String Int := []

structure LinkedRule where
  db : String
  table : String
  shardingColumn : String
  linkToRule : BaseRule

inductive Rule where
  | base (r : BaseRule)
  | linked (l : LinkedRule)

namespace Rule

def getDB : Rule → String
  | base r => r.db
  | linked l => l.db

def getTable : Rule → String
  | base r => r.table
  | linked l => l.table

def getShardingColumn : Rule → String
  | base r => r.shardingColumn
  | linked l => l.shardingColumn

/-- The rule that a linked rule delegates to; a base rule is its own. -/
def parent : Rule → BaseRule
  | base r => r
  | linked l => l.linkToRule

def getShard (r : Rule) : Shard := r.parent.shard

def findTableIndex (r : Rule) (key : GoVal) : Except Fail Int := r.getShard.findForKey key

def getType (r : Rule) : RuleType := r.parent.ruleType

def getSubTableIndexes (r : Rule) : List Int := r.parent.subTableIndexes

def getFirstTableIndex (r : Rule) : Except Fail Int :=
  match r.getSubTableIndexes.head? with
  | some i => .ok i
  | none => .error (.panic "index out of range")

def getLastTableIndex (r : Rule) : Except Fail Int :=
  match r.getSubTableIndexes.getLast? with
  | some i => .ok i
  | none => .error (.panic "index out of range")

def getSliceIndexFromTableIndex (r : Rule) (i : Int) : Int := (r.parent.tableToSlice.get i).getD (-1)

def getSlice (r : Rule) (i : Int) : Except Fail String :=
  match (if i < 0 then none else r.parent.slices[i.toNat]?) with
  | some s => .ok s
  | none => .error (.panic "index out of range")

/-- The test lets `index` equal the number of sub-tables, where the list of databases has already ended. -/
def getDatabaseNameByTableIndex (r : Rule) (index : Int) : Except Fail String :=
  if isMycatShardingRule r.getType || r.getType = .global then
    if index > r.getSubTableIndexes.length then .error (.error "argument is invalid")
    else match (if index < 0 then none else r.parent.mycatDatabases[index.toNat]?) with
      | some db => .ok db
      | none => .error (.panic "index out of range")
  else .ok r.parent.db

def getTableIndexByDatabaseName (r : Rule) (phyDB : String) : Option Int :=
  r.parent.mycatDatabaseToTableIndexMap.get phyDB

end Rule

/-! ### Reading a configuration -/

/-- The part of `models.Shard` that the hash, mod and range rules read. -/
structure ShardConfig where
  db : String
  table : String
  key : String
  type : RuleType
  locations : List Int
  slices : List String
  tableRowLimit : Int

/-- The tables of the locations, each with its slice, numbered on from `sumTables`; `i` is the first slice. -/
def tablesOfLocations (sumTables : Int) (i : Nat) : List Int → List (Int × Int)
  | [] => []
  | n :: ns =>
    (List.range n.toNat).map (fun j : Nat => (toInt64 (j + sumTables), (i : Int))) ++
      tablesOfLocations (toInt64 (sumTables + n)) (i + 1) ns

def parseHashRuleSliceInfos (locations : List Int) (slices : List String) :
    Except Fail (List Int × AssocMap Int Int) :=
  if locations.length ≠ slices.length then .error (.error "locations count is not equal")
  else
    let tables := tablesOfLocations 0 0 locations
    .ok (tables.map Prod.fst, tables.foldl (fun m t => AssocMap.set m t.1 t.2) [])

def parseNumSharding (locations : List Int) (tableRowLimit : Int) : Except Fail (List NumKeyRange) :=
  if toInt64 locations.sum < 0 then .error (.panic "makeslice: len out of range")
  else .ok ((List.range (toInt64 locations.sum).toNat).map fun i : Nat =>
    { start := toInt64 (i * tableRowLimit), stop := toInt64 ((i + 1) * tableRowLimit) })

def parseRuleSliceInfos (cfg : ShardConfig) : Except Fail (List Int × AssocMap Int Int × Shard) :=
  match cfg.type with
  | .hash => do
    let (subTableIndexs, tableToSlice) ← parseHashRuleSliceInfos cfg.locations cfg.slices
    .ok (subTableIndexs, tableToSlice, hashShard tableToSlice.length)
  | .mod => do
    let (subTableIndexs, tableToSlice) ← parseHashRuleSliceInfos cfg.locations cfg.slices
    .ok (subTableIndexs, tableToSlice, modShard tableToSlice.length)
  | .range => do
    let (subTableIndexs, tableToSlice) ← parseHashRuleSliceInfos cfg.locations cfg.slices
    let rs ← parseNumSharding cfg.locations cfg.tableRowLimit
    if rs.length ≠ tableToSlice.length then
      .error (.error ("range space " ++ toString rs.length ++ " not equal tables " ++
        toString tableToSlice.length))
    else .ok (subTableIndexs, tableToSlice, numRangeShard rs)
  | _ => .error (.error "unknown rule type")

/-- `parseRule`, with `rest` for the types that `parseRuleSliceInfos` does not read here; `toLower` is
`strings.ToLower`. -/
def parseRule (toLower : String → String) (rest : ShardConfig → Except Fail BaseRule) (cfg : ShardConfig) :
    Except Fail BaseRule :=
  match cfg.type with
  | .hash | .mod | .range => do
    let (subTableIndexs, tableToSlice, shard) ← parseRuleSliceInfos cfg
    .ok { db := cfg.db, table := toLower cfg.table, shardingColumn := toLower cfg.key, ruleType := cfg.type
          slices := cfg.slices, subTableIndexes := subTableIndexs, tableToSlice := tableToSlice, shard := shard }
  | _ => rest cfg

/-! ### The router -/

/-- The rules of all split tables, by database and table name. -/
structure Router where
  rules : AssocMap (String × String) Rule

/-- `strings.Split(s, ".")`. -/
def splitDots : List Char → List (List Char)
  | [] => [[]]
  | c :: cs =>
    if c = '.' then [] :: splitDots cs
    else match splitDots cs with
      | [] => [[c]]
      | part :: parts => (c :: part) :: parts

/-- `strings.Trim` of back quotes. -/
def trimBackQuotes (s : List Char) : String :=
  String.ofList (((s.dropWhile (· == Char.ofNat 96)).reverse.dropWhile (· == Char.ofNat 96)).reverse)

def Router.getShardRule (r : Router) (db table : String) : Option Rule :=
  match splitDots table.toList with
  | [d, t] => r.rules.get (trimBackQuotes d, trimBackQuotes t)
  | _ => r.rules.get (db, table)

end DbProxy
