import DbProxy.Plan.Restore

/-!
# The cursor of a route

`generateShardingSQLs` as the code runs it: every decorator of the statement reads the current index from the one
`RouteResult` of the statement, the loop restores the statement first and moves the cursor on after that, and the
statements are filed by slice and physical database.
-/

namespace DbProxy

open List

/-- `RouteResult` with its cursor. -/
structure RouteCursor extends RouteResult where
  currentIndex : Nat := 0
  deriving DecidableEq, Repr

/-- The result of `generateShardingSQLs`: the statements by slice and database. -/
abbrev SQLMap := AssocMap String (AssocMap String (List (List Tok)))

namespace SQLMap

/-- `ret[sliceName][dbName] = append(ret[sliceName][dbName], sql)`. -/
def file (m : SQLMap) (s : ShardSQL) : SQLMap :=
  AssocMap.set m s.slice (AssocMap.push ((AssocMap.get m s.slice).getD []) s.db s.sql)

/-- The statements for a database of a slice. -/
def filed (m : SQLMap) (slice db : String) : List (List Tok) := AssocMap.getD ((AssocMap.get m slice).getD []) db

/-- How many statements there are. -/
def count (m : SQLMap) : Nat := (m.map fun e => (e.2.map fun e => e.2.length).sum).sum

theorem filed_file (m : SQLMap) (s : ShardSQL) (slice db : String) :
    (m.file s).filed slice db = m.filed slice db ++ if s.slice = slice ∧ s.db = db then [s.sql] else [] := by
  unfold filed file
  rw [AssocMap.get_set]
  by_cases hslice : s.slice = slice
  · subst hslice
    rw [if_pos rfl, Option.getD_some, AssocMap.getD_push]
    by_cases hdb : s.db = db
    · rw [if_pos hdb, if_pos ⟨rfl, hdb⟩]
    · rw [if_neg hdb, if_neg fun h => hdb h.2, append_nil]
  · rw [if_neg hslice, if_neg fun h => hslice h.1, append_nil]

theorem count_push {ν : Type} (m : AssocMap String (List ν)) (k : String) (x : ν) :
    ((AssocMap.push m k x).map fun e => e.2.length).sum = (m.map fun e => e.2.length).sum + 1 := by
  unfold AssocMap.push AssocMap.getD
  cases hget : AssocMap.get m k with
  | none => simp [AssocMap.set_of_get_eq_none hget]
  | some l =>
    obtain ⟨m₁, m₂, rfl, hset⟩ := AssocMap.exists_set_of_get hget
    rw [hset]
    simp only [map_append, map_cons, sum_append, sum_cons, Option.getD_some, length_append,
      length_cons, length_nil]
    omega

theorem count_file (m : SQLMap) (s : ShardSQL) : (m.file s).count = m.count + 1 := by
  unfold count file
  have hpush := count_push ((AssocMap.get m s.slice).getD []) s.db s.sql
  generalize AssocMap.push ((AssocMap.get m s.slice).getD []) s.db s.sql = pushed at hpush
  cases hget : AssocMap.get m s.slice with
  | none =>
    rw [hget] at hpush
    rw [AssocMap.set_of_get_eq_none hget, map_append, sum_append, map_singleton, sum_singleton, hpush]
    rfl
  | some sqls =>
    rw [hget, Option.getD_some] at hpush
    obtain ⟨m₁, m₂, rfl, hset⟩ := AssocMap.exists_set_of_get hget
    rw [hset]
    simp only [map_append, map_cons, sum_append, sum_cons, hpush]
    omega

theorem filed_foldl (sqls : List ShardSQL) (m : SQLMap) (slice db : String) :
    (sqls.foldl file m).filed slice db =
      m.filed slice db ++ (sqls.filter fun s => s.slice = slice ∧ s.db = db).map ShardSQL.sql := by
  induction sqls generalizing m with
  | nil => exact (append_nil _).symm
  | cons s sqls ih =>
    rw [foldl_cons, ih, filed_file, append_assoc, filter_cons]
    by_cases hs : s.slice = slice ∧ s.db = db
    · rw [if_pos hs, if_pos (by exact decide_eq_true hs), map_cons, singleton_append]
    · rw [if_neg hs, if_neg (by simpa using hs), nil_append]

theorem count_foldl (sqls : List ShardSQL) (m : SQLMap) : (sqls.foldl file m).count = m.count + sqls.length := by
  induction sqls generalizing m with
  | nil => rfl
  | cons s sqls ih => rw [foldl_cons, ih, count_file, length_cons, Nat.add_right_comm, Nat.add_assoc]

end SQLMap

namespace RouteCursor

def getCurrentTableIndex (c : RouteCursor) : Except Fail Int :=
  match c.indexes[c.currentIndex]? with
  | some i => .ok i
  | none => .error (.error "table index out of range")

def hasNext (c : RouteCursor) : Bool := c.currentIndex < c.indexes.length

def next (c : RouteCursor) : Except Fail Int × RouteCursor :=
  (match c.indexes[c.currentIndex]? with
    | some i => .ok i
    | none => .error (.panic "index out of range"),
   { c with currentIndex := c.currentIndex + 1 })

def reset (c : RouteCursor) : RouteCursor := { c with currentIndex := 0 }

/-- `stmt.Restore`, for a statement whose decorators take their index from the cursor. -/
def restoreCurrent (c : RouteCursor) (restore : Int → Out) : Out :=
  match c.getCurrentTableIndex with
  | .ok i => restore i
  | .error e => { toks := [], fail := some e }

/-- The loop of `generateShardingSQLs` from the cursor on. -/
def fileSQLs (restore : Int → Out) (router : Router) (c : RouteCursor) (ret : SQLMap) :
    Except Fail SQLMap × RouteCursor :=
  if c.hasNext then
    match (c.restoreCurrent restore).fail with
    | some e => (.error e, c)
    | none => match c.next.1 with
      | .error e => (.error e, c.next.2)
      | .ok index => match shardingSQL (fun _ => c.restoreCurrent restore) c.toRouteResult router index with
        | .error e => (.error e, c.next.2)
        | .ok s => fileSQLs restore router c.next.2 (ret.file s)
  else (.ok ret, c.reset)
termination_by c.indexes.length - c.currentIndex
decreasing_by
  simp_all [hasNext, next]
  omega

/-- `generateShardingSQLs`. -/
def generateShardingSQLs (c : RouteCursor) (restore : Int → Out) (router : Router) :
    Except Fail SQLMap × RouteCursor :=
  c.fileSQLs restore router []

end RouteCursor

end DbProxy
