import DbProxy.Backend.Pool

/-!
# Round robin over slaves

Each group of slaves of a slice has a cursor of its own.  A request for a slave of one group leaves the cursors of the
other groups alone, but for `getNextStatisticSlave`, which writes to the cursor of the slaves: as long as there is no
choice between statistic slaves, or none is asked for, the groups rotate independently (`picks_filter`).
-/

namespace DbProxy.Slice

open List

variable {s s' : Slice} {r r' : Role}

def pick (s : Slice) : Role → Except Fail Nat × Slice
  | .master => (.ok 0, s)
  | .slave => Store.getNextSlave s
  | .masterDCSlave => Store.getNextMasterDCSlave s
  | .statisticSlave => Store.getNextStatisticSlave s

def picks : Slice → List Role → List (Role × Except Fail Nat)
  | _, [] => []
  | s, r :: reqs => (r, (s.pick r).1) :: (s.pick r).2.picks reqs

def group (s : Slice) : Role → Option Balancer
  | .master => none
  | .slave => some s.slave
  | .masterDCSlave => some s.masterDCSlave
  | .statisticSlave => some s.statisticSlave

/-- A request that leaves the cursors of other groups alone: none for statistic slaves, unless there is no choice. -/
def Contained (s : Slice) (r : Role) : Prop := r = .statisticSlave → s.statisticSlave.queue.length ≤ 1

theorem pick_congr (h : s.group r = s'.group r) :
    (s.pick r).1 = (s'.pick r).1 ∧ (s.pick r).2.group r = (s'.pick r).2.group r := by
  cases r with
  | master => exact ⟨rfl, rfl⟩
  | slave | masterDCSlave =>
    simp only [group, Option.some.injEq] at h
    simp [pick, Store.getNextSlave, Store.getNextMasterDCSlave, group, h]
  | statisticSlave =>
    simp only [group, Option.some.injEq] at h
    simp only [pick, Store.getNextStatisticSlave, group, h]
    split
    · simp [h]
    · simp [h]
    · split
      · simp
      · split <;> simp

theorem pick_statistic (h : s.Contained .statisticSlave) : (s.pick .statisticSlave).2 = s := by
  simp only [pick, Store.getNextStatisticSlave]
  split
  · rfl
  · rfl
  · next hnil hone =>
    have hle := h rfl
    rcases hq : s.statisticSlave.queue with _ | ⟨i, _ | ⟨j, q⟩⟩
    · exact absurd hq hnil
    · exact absurd hq (hone i)
    · rw [hq, length_cons, length_cons] at hle
      omega

theorem contained_pick (h : s.Contained r) : (s.pick r).2.Contained r' ↔ s.Contained r' := by
  cases r with
  | statisticSlave => rw [pick_statistic h]
  | master | slave | masterDCSlave => exact .rfl

theorem group_pick (hr : r ≠ r') (h : s.Contained r) : (s.pick r).2.group r' = s.group r' := by
  cases r with
  | statisticSlave => rw [pick_statistic h]
  | master => rfl
  | slave | masterDCSlave => cases r' <;> first | rfl | exact absurd rfl hr

theorem picks_filter (reqs : List Role) (h : ∀ r ∈ reqs, s.Contained r) (r : Role) :
    (s.picks reqs).filter (fun p => p.1 = r) = s.picks (reqs.filter (· = r)) := by
  -- the second run is in another state, which has the same group of slaves for `r`
  suffices hrun : ∀ s s' : Slice, s.group r = s'.group r → (∀ r ∈ reqs, s.Contained r) →
      (s.picks reqs).filter (fun p => p.1 = r) = s'.picks (reqs.filter (· = r)) from hrun s s rfl h
  clear h
  induction reqs with
  | nil => exact fun _ _ _ _ => rfl
  | cons r' reqs ih =>
    intro s s' hgroup h
    obtain ⟨hr', hreqs⟩ := forall_mem_cons.1 h
    have hrest : ∀ r ∈ reqs, (s.pick r').2.Contained r := fun r hr => (contained_pick hr').2 (hreqs r hr)
    by_cases heq : r' = r
    · subst heq
      obtain ⟨hfst, hsnd⟩ := pick_congr hgroup
      simp only [picks, filter_cons, decide_true, if_true, hfst]
      rw [ih _ _ hsnd hrest]
    · simp only [picks, filter_cons, heq, decide_false, Bool.false_eq_true, if_false]
      exact ih _ _ ((group_pick heq hr').trans hgroup) hrest

def twoByTwo : Slice := ⟨⟨2, [0, 1], 0⟩, ⟨0, [], 0⟩, ⟨2, [0, 1], 0⟩⟩

theorem picks_filter_plain : (∀ r ∈ [Role.slave, .masterDCSlave, .slave], twoByTwo.Contained r) ∧
    (twoByTwo.picks [.slave, .masterDCSlave, .slave]).filter (fun p => p.1 = .slave) =
      twoByTwo.picks ([.slave, .masterDCSlave, .slave].filter (· = Role.slave)) :=
  ⟨by simp [Contained], picks_filter _ (by simp [Contained]) _⟩

/-- The request for a statistic slave turns the cursor of the slaves back. -/
theorem picks_disturbed : (twoByTwo.picks [.slave, .statisticSlave, .slave]).filter (fun p => p.1 = .slave) =
    [(.slave, .ok 0), (.slave, .ok 0)] ∧ twoByTwo.picks [.slave, .slave] = [(.slave, .ok 0), (.slave, .ok 1)] := by
  decide

end DbProxy.Slice
