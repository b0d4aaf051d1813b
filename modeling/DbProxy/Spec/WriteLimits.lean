import DbProxy.Plan.Execute
import DbProxy.Spec.IntegerKeys

/-!
# Results of writes

`MergeExecResult` adds up what the shards changed, in whatever order they answer.  `UPDATE` and `DELETE` hand their
`LIMIT` on to every shard.  Each shard keeps to the limit, all of them together need not: the limit holds for the
whole statement exactly if it is 0 or the statement goes to one shard at most.
-/

namespace DbProxy

open List

def Limit.upTo (n : UInt64) : Limit := ⟨.value (.uint64 n), none⟩

/-- A shard changed no more rows than the `LIMIT` of its statement allows. -/
def Limit.Allows (limit : Option Limit) (r : ExecResult) : Prop :=
  ∀ n, limit = some (.upTo n) → r.affectedRows ≤ n.toNat

def totalAffected (rs : List ExecResult) : Nat := (rs.map ExecResult.affectedRows).sum

theorem mergeExecResult_affectedRows (rs : List ExecResult) :
    (mergeExecResult rs).affectedRows = totalAffected rs % 2 ^ 64 := by
  have hfold : ∀ (rs : List ExecResult) (r : ExecResult), r.affectedRows < 2 ^ 64 →
      (rs.foldl ExecResult.merge r).affectedRows = (r.affectedRows + totalAffected rs) % 2 ^ 64 := by
    intro rs
    induction rs with
    | nil => exact fun r hr => (Nat.mod_eq_of_lt hr).symm
    | cons v rs ih =>
      intro r hr
      rw [foldl_cons, ih _ (Nat.mod_lt _ (by decide))]
      show ((r.affectedRows + v.affectedRows) % 2 ^ 64 + totalAffected rs) % 2 ^ 64 =
        (r.affectedRows + (v.affectedRows + totalAffected rs)) % 2 ^ 64
      rw [Nat.mod_add_mod, Nat.add_assoc]
  exact (hfold rs {} (by decide)).trans (by rw [Nat.zero_add])

theorem mergeExecResult_status (rs : List ExecResult) (i : Nat) :
    (mergeExecResult rs).status.toNat.testBit i = rs.any fun r => r.status.toNat.testBit i := by
  have hfold : ∀ (rs : List ExecResult) (r : ExecResult), (rs.foldl ExecResult.merge r).status.toNat.testBit i =
      (r.status.toNat.testBit i || rs.any fun r => r.status.toNat.testBit i) := by
    intro rs
    induction rs with
    | nil => simp
    | cons v rs ih =>
      intro r
      rw [foldl_cons, ih]
      show ((r.status ||| v.status).toNat.testBit i || _) = _
      rw [UInt16.toNat_or, Nat.testBit_or, any_cons, Bool.or_assoc]
  rw [mergeExecResult, hfold]
  simp

theorem mergeExecResult_insertID (rs : List ExecResult) :
    (mergeExecResult rs).insertID = ((rs.map ExecResult.insertID).filter (· ≠ 0)).min?.getD 0 := by
  have hkeep : ∀ {n : Nat} {ns : List Nat}, n ≠ 0 → (n :: ns).filter (· ≠ 0) = n :: ns.filter (· ≠ 0) := fun hn =>
    filter_cons_of_pos (by simpa using hn)
  have hfold : ∀ (rs : List ExecResult) (r : ExecResult), (rs.foldl ExecResult.merge r).insertID =
      ((r.insertID :: rs.map ExecResult.insertID).filter (· ≠ 0)).min?.getD 0 := by
    intro rs
    induction rs with
    | nil =>
      intro r
      by_cases hr : r.insertID = 0 <;> simp [hr]
    | cons v rs ih =>
      intro r
      rw [foldl_cons, ih]
      by_cases hr : r.insertID = 0
      · simp [ExecResult.merge, hr]
      by_cases hv : v.insertID = 0
      · simp [ExecResult.merge, hr, hv]
      · have hmin : (r.merge v).insertID = min r.insertID v.insertID := by
          simp only [ExecResult.merge, hr, hv, if_false, ne_eq, not_false_eq_true, true_and]
          split <;> omega
        have hne : min r.insertID v.insertID ≠ 0 := by omega
        rw [map_cons, hkeep hr, hkeep hv, hmin, hkeep hne, min?_cons', min?_cons', foldl_cons]
  rw [mergeExecResult, hfold]
  simp

theorem ExecResult.merge_right_comm (r v w : ExecResult) : (r.merge v).merge w = (r.merge w).merge v := by
  have hstatus : r.status ||| v.status ||| w.status = r.status ||| w.status ||| v.status := by
    rw [UInt16.or_assoc, UInt16.or_comm v.status, UInt16.or_assoc]
  have hrows : ((r.affectedRows + v.affectedRows) % 2 ^ 64 + w.affectedRows) % 2 ^ 64 =
      ((r.affectedRows + w.affectedRows) % 2 ^ 64 + v.affectedRows) % 2 ^ 64 := by omega
  simp only [ExecResult.merge, hstatus, hrows, ExecResult.mk.injEq, true_and, and_true]
  split_ifs <;> omega

/-- The result of a write is the same in whatever order the shards answer. -/
theorem mergeExecResult_spec (rs : List ExecResult) :
    (mergeExecResult rs).affectedRows = (rs.map ExecResult.affectedRows).sum % 2 ^ 64 ∧
      (∀ i, (mergeExecResult rs).status.toNat.testBit i = rs.any fun r => r.status.toNat.testBit i) ∧
      (mergeExecResult rs).insertID = ((rs.map ExecResult.insertID).filter (· ≠ 0)).min?.getD 0 ∧
      ∀ rs', rs.Perm rs' → mergeExecResult rs' = mergeExecResult rs := by
  refine ⟨mergeExecResult_affectedRows rs, mergeExecResult_status rs, mergeExecResult_insertID rs,
    fun rs' hperm => ?_⟩
  exact (hperm.foldl_eq' (fun v _ w _ r => r.merge_right_comm v w) _).symm

/-- However many rows the shards change, they are at most as many as the statement allows, and are reported. -/
def KeepsLimit {α : Type} (plan : ModifyPlan α) (limit : Option Limit) (n : UInt64) : Prop :=
  ∀ rs : List ExecResult, rs.length = plan.sqls.length → (∀ r ∈ rs, Limit.Allows limit r) →
    totalAffected rs ≤ n.toNat ∧ (mergeExecResult rs).affectedRows = totalAffected rs

theorem totalAffected_le {rs : List ExecResult} {n : UInt64} (h : ∀ r ∈ rs, Limit.Allows (some (.upTo n)) r) :
    totalAffected rs ≤ rs.length * n.toNat := by
  induction rs with
  | nil => exact Nat.zero_le _
  | cons r rs ih =>
    have hr : r.affectedRows ≤ n.toNat := h r mem_cons_self n rfl
    have hrs := ih fun r hr => h r (mem_cons_of_mem _ hr)
    show r.affectedRows + totalAffected rs ≤ (rs.length + 1) * n.toNat
    rw [Nat.add_mul, Nat.one_mul, Nat.add_comm]
    exact Nat.add_le_add hrs hr

theorem keepsLimit_iff {α : Type} (plan : ModifyPlan α) (n : UInt64) :
    KeepsLimit plan (some (.upTo n)) n ↔ n = 0 ∨ plan.sqls.length ≤ 1 := by
  constructor
  · intro h
    -- every shard changes as many rows as it may
    have hall := (h (replicate plan.sqls.length { affectedRows := n.toNat }) length_replicate fun r hr m hm => by
      rw [eq_of_mem_replicate hr]
      cases hm
      exact le_rfl).1
    have htotal : totalAffected (replicate plan.sqls.length { affectedRows := n.toNat }) =
        plan.sqls.length * n.toNat := by
      simp [totalAffected]
    rw [htotal] at hall
    by_cases hn : n = 0
    · exact .inl hn
    · have hpos : 0 < n.toNat := Nat.pos_of_ne_zero fun h0 => hn (UInt64.toNat_inj.1 h0)
      right
      by_contra hmany
      have htwo : 2 * n.toNat ≤ plan.sqls.length * n.toNat := Nat.mul_le_mul_right _ (by omega)
      omega
  · intro h rs hlength hrs
    have hle := totalAffected_le hrs
    have htotal : totalAffected rs ≤ n.toNat := by
      rcases h with rfl | h
      · exact hle.trans (by simp)
      · calc totalAffected rs ≤ rs.length * n.toNat := hle
          _ ≤ 1 * n.toNat := Nat.mul_le_mul_right _ (by omega)
          _ = n.toNat := Nat.one_mul _
    refine ⟨htotal, ?_⟩
    rw [mergeExecResult_affectedRows, Nat.mod_eq_of_lt (htotal.trans_lt n.toNat_lt)]

/-- An accepted `UPDATE` or `DELETE` with `LIMIT n` changes at most `n` rows, whatever the shards hold, exactly if `n`
is 0 or it goes to one shard at most. -/
theorem write_limit_iff (p : TableAliasStmtInfo) (n : UInt64) :
    (∀ stmt plan, handleUpdatePlan p stmt = .ok plan → stmt.limit = some (.upTo n) →
      (KeepsLimit plan plan.stmt.limit n ↔ n = 0 ∨ plan.sqls.length ≤ 1)) ∧
    ∀ stmt plan, handleDeletePlan p stmt = .ok plan → stmt.limit = some (.upTo n) →
      (KeepsLimit plan plan.stmt.limit n ↔ n = 0 ∨ plan.sqls.length ≤ 1) := by
  constructor
  · intro stmt plan hplan hlimit
    obtain ⟨-, -, -, -, -, hplanned, -⟩ := updateRun_of_ok hplan
    rw [show _ = some (Limit.upTo n) from (congrArg UpdateStmt.limit hplanned).trans hlimit]
    exact keepsLimit_iff _ n
  · intro stmt plan hplan hlimit
    obtain ⟨-, -, -, -, hplanned, -⟩ := deleteRun_of_ok hplan
    rw [show _ = some (Limit.upTo n) from (congrArg DeleteStmt.limit hplanned).trans hlimit]
    exact keepsLimit_iff _ n

/-- `DELETE FROM t WHERE … LIMIT n`. -/
def deleteUpTo (cond : Option (Expr Parsed)) (n : UInt64) : DeleteStmt Parsed :=
  { tableRefs := singleTable (unqualifiedTable "t") .empty, cond, limit := some (.upTo n) }

def idIsFive : Expr Parsed := .binary .eq (.column () (bareColumn "id")) (.value (.int64 5))

theorem write_limit_iff_one_shard : ∃ plan,
    handleDeletePlan (newTableAliasStmtInfo "db" hashRouter .insertion) (deleteUpTo (some idIsFive) 1) = .ok plan ∧
    KeepsLimit plan plan.stmt.limit 1 := by
  exact Fallible.exists_ok_of (·.sqls.length ≤ 1) ⟨_, rfl, le_rfl⟩ fun plan hplan hlength =>
    ((write_limit_iff _ 1).2 _ plan hplan rfl).2 (.inr hlength)

/-- `DELETE FROM t LIMIT 1` is accepted and sent to all four sub-tables, each of which may lose a row. -/
theorem delete_limit_exceeded : ∃ plan,
    handleDeletePlan (newTableAliasStmtInfo "db" hashRouter .insertion) (deleteUpTo none 1) = .ok plan ∧
    plan.sqls.length = 4 ∧ (∀ r ∈ replicate 4 { affectedRows := 1 }, Limit.Allows plan.stmt.limit r) ∧
    totalAffected (replicate 4 { affectedRows := 1 }) = 4 := by
  refine ⟨_, rfl, rfl, fun r hr m hm => ?_, rfl⟩
  rw [eq_of_mem_replicate hr]
  cases hm
  decide

end DbProxy
