import DbProxy.Lib.Effect
import DbProxy.Plan.Cursor

/-!
# The statements of a plan

`generateShardingSQLs` makes one statement for every index of the route.  The loop and the list of statements it
stands for are compared first; what lies under a slice and a database, and how much there is in all, is then read off
the list.
-/

namespace DbProxy

open Effect List
variable {rule : Rule} {slice db : Int → String} {result : RouteResult} {router : Router}

/-- Every sub-table has a slice and a physical database. -/
structure Rule.Located (rule : Rule) (slice db : Int → String) : Prop where
  slice : ∀ i ∈ rule.getSubTableIndexes, rule.getSlice (rule.getSliceIndexFromTableIndex i) = .ok (slice i)
  db : ∀ i ∈ rule.getSubTableIndexes, rule.getDatabaseNameByTableIndex i = .ok (db i)

theorem shardingSQL_located (h : rule.Located slice db) {restore : Int → Out}
    (hrule : router.getShardRule result.db result.table = some rule) {i : Int}
    (hi : i ∈ rule.getSubTableIndexes) :
    shardingSQL restore result router i =
      match (restore i).fail with
      | some e => .error e
      | none => .ok ⟨slice i, db i, (restore i).toks⟩ := by
  unfold shardingSQL
  cases (restore i).fail with
  | some e => rfl
  | none =>
    simp only [hrule, h.slice i hi, h.db i hi]
    rfl

theorem mapM_shardingSQL (h : rule.Located slice db) (restore : Int → Out)
    (hrule : router.getShardRule result.db result.table = some rule)
    {indexes : List Int} (hindexes : ∀ i ∈ indexes, i ∈ rule.getSubTableIndexes) :
    match indexes.mapM (shardingSQL restore result router) with
    | .ok sqls => sqls = indexes.map fun i => ⟨slice i, db i, (restore i).toks⟩
    | .error e => ∃ i ∈ indexes, (restore i).fail = some e := by
  induction indexes with
  | nil => rfl
  | cons i indexes ih =>
    have ih := ih fun i hi => hindexes i (mem_cons_of_mem _ hi)
    rw [mapM_cons, shardingSQL_located h hrule (hindexes i mem_cons_self)]
    cases hfail : (restore i).fail with
    | some e => exact ⟨i, mem_cons_self, hfail⟩
    | none =>
      cases hrest : indexes.mapM (shardingSQL restore result router) with
      | error e =>
        rw [hrest] at ih
        obtain ⟨j, hj, hfail⟩ := ih
        exact ⟨j, mem_cons_of_mem _ hj, hfail⟩
      | ok sqls =>
        rw [hrest] at ih
        exact congrArg (_ :: ·) ih

namespace RouteCursor

variable (restore : Int → Out) (router : Router)

theorem fileSQLs_spec {rest : List Int} {c : RouteCursor} (hrest : c.indexes.drop c.currentIndex = rest)
    (ret : SQLMap) : Ends (fun m c' => c' = c.reset ∧
        ∃ sqls, rest.mapM (shardingSQL restore c.toRouteResult router) = .ok sqls ∧ m = sqls.foldl SQLMap.file ret)
      (fun e _ => rest.mapM (shardingSQL restore c.toRouteResult router) = .error e)
      (c.fileSQLs restore router ret) := by
  induction rest generalizing c ret with
  | nil =>
    have hend : ¬c.hasNext := by
      have := drop_eq_nil_iff.1 hrest
      simp only [hasNext, decide_eq_true_eq]
      omega
    rw [fileSQLs, if_neg hend]
    exact ⟨rfl, [], rfl, rfl⟩
  | cons i rest ih =>
    have hcurrent : c.indexes[c.currentIndex]? = some i := by
      rw [← head?_drop, hrest, head?_cons]
    have hnext : c.hasNext := decide_eq_true (List.getElem?_eq_some_iff.1 hcurrent).1
    have hrestore : c.restoreCurrent restore = restore i := by
      simp only [restoreCurrent, getCurrentTableIndex, hcurrent]
    have hindex : c.next.1 = .ok i := by
      simp only [next, hcurrent]
    have hdrop : c.next.2.indexes.drop c.next.2.currentIndex = rest := by
      show c.indexes.drop (c.currentIndex + 1) = rest
      rw [← tail_drop, hrest, tail_cons]
    rw [fileSQLs, if_pos hnext, hrestore, hindex, mapM_cons]
    cases hfail : (restore i).fail with
    | some e =>
      have hturn : shardingSQL restore c.toRouteResult router i = .error e := by
        simp only [shardingSQL, hfail]
      show (shardingSQL restore c.toRouteResult router i >>= _) = Except.error e
      rw [hturn]
      rfl
    | none =>
      have hsame : shardingSQL (fun _ => restore i) c.toRouteResult router i = shardingSQL restore c.toRouteResult
        router i := rfl
      dsimp only
      rw [hsame]
      cases hturn : shardingSQL restore c.toRouteResult router i with
      | error e => rfl
      | ok s =>
        refine (ih hdrop (ret.file s)).weaken ?_ ?_
        · rintro m c' ⟨rfl, sqls, hsqls, rfl⟩
          refine ⟨rfl, s :: sqls, ?_, rfl⟩
          show (rest.mapM (shardingSQL restore c.next.2.toRouteResult router) >>= _) = _
          rw [hsqls]
          rfl
        · intro e _ herror
          show (rest.mapM (shardingSQL restore c.next.2.toRouteResult router) >>= _) = _
          rw [herror]
          rfl

def fourParts : Rule := .base {
  db := "db", table := "t", shardingColumn := "id", ruleType := .hash, slices := ["slice-0", "slice-1"]
  subTableIndexes := [0, 1, 2, 3], tableToSlice := [(0, 0), (1, 0), (2, 1), (3, 1)], shard := hashShard 4 }

def threeOfFour : RouteCursor := { db := "db", table := "t", indexes := [0, 1, 3] }

end RouteCursor

end DbProxy
