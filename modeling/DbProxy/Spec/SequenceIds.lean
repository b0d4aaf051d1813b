import Mathlib.Data.Int.ConditionallyCompleteOrder
import Mathlib.Data.Set.Lattice
import Mathlib.Data.Set.Pairwise.Basic
import Mathlib.Order.CompletePartialOrder
import Mathlib.Order.ConditionallyCompleteLattice.Basic
import Mathlib.Order.Interval.Set.Basic
import DbProxy.Lib.Effect
import DbProxy.Server.Sequence
import DbProxy.Spec.Numerals

/-!
# The ids of a global sequence

Every id that `NextSeq` returns is to come from a window the database handed out, and no two calls may return the same
id, on whichever proxies they run.  The proof follows what the proxies still have to give: the rest of a proxy's
window lies in a window of the database, holds no id that was returned, and no id that another proxy may return.

A reply of two fields that are not two numbers with a positive increment is not refused.  The mark of
`mycat_seq_nextval` for a sequence it does not know, `-999999999,null`, gives the id -999999998, and gives it again at
the next call.
-/

namespace DbProxy

namespace MySQLSequence

def pair (ret : GoString) : Option (Int × Int) :=
  match ret.splitOn 44 with
  | [value, increment] => match atoi value, atoi increment with
    | some value, some increment => some (value, increment)
    | _, _ => none
  | _ => none

def window (ret : GoString) : Set Int := { id | ∃ p, pair ret = some p ∧ p.1 < id ∧ id ≤ p.1 + p.2 }

/-- A reply of two fields is a pair with a positive increment, and the id behind its value is a 64-bit integer. -/
def Proper (ret : GoString) : Prop :=
  (ret.splitOn 44).length = 2 → ∃ p, pair ret = some p ∧ 0 < p.2 ∧ p.1 + 1 < 2 ^ 63

/-- The ids a sequence may return before it asks the database again. -/
def rest (s : MySQLSequence) : Set Int := Set.Ioc s.curr s.max

variable {s s' : MySQLSequence} {ret value increment : GoString} {reply : Except Fail GoString} {id : Int}

theorem pair_eq_some {p : Int × Int} (hsplit : ret.splitOn 44 = [value, increment]) (h : pair ret = some p) :
    (parseInt value).1 = p.1 ∧ (parseInt increment).1 = p.2 := by
  unfold pair atoi at h
  rw [hsplit] at h
  dsimp only at h
  split_ifs at h
  cases h
  exact ⟨rfl, rfl⟩

theorem nextSeq_fetch (hs : s.curr ≥ s.max) (h : s.nextSeq reply = (.ok id, s')) :
    ∃ ret value increment, reply = .ok ret ∧ ret.splitOn 44 = [value, increment] ∧
    id = toInt64 ((parseInt value).1 + 1) ∧
      s'.curr = id ∧ s'.max = toInt64 ((parseInt value).1 + (parseInt increment).1) := by
  unfold nextSeq at h
  rw [if_pos hs] at h
  cases reply with
  | error e => cases h
  | ok ret =>
    unfold getSeqFromDB at h
    simp only [bind, Except.bind] at h
    match hsplit : ret.splitOn 44 with
    | [value, increment] =>
      rw [hsplit] at h
      cases h
      exact ⟨ret, value, increment, rfl, hsplit, rfl, rfl, rfl⟩
    | [] | [_] | _ :: _ :: _ :: _ =>
      rw [hsplit] at h
      cases h

theorem nextSeq_fetch_ok (hs : s.curr ≥ s.max) (hsplit : ret.splitOn 44 = [value, increment]) :
    (s.nextSeq (.ok ret)).1 = .ok (toInt64 ((parseInt value).1 + 1)) := by
  unfold nextSeq getSeqFromDB
  rw [if_pos hs]
  simp only [bind, Except.bind, hsplit]

theorem nextSeq_rest (hs : ¬s.curr ≥ s.max) (hmax : s.max < 2 ^ 63) (hcurr : -2 ^ 63 ≤ s.curr)
    (h : s.nextSeq reply = (.ok id, s')) : id = s.curr + 1 ∧ s' = { s with curr := s.curr + 1 } := by
  unfold nextSeq at h
  rw [if_neg hs] at h
  dsimp only at h
  have hid : toInt64 (s.curr + 1) = s.curr + 1 := toInt64_of_range (by omega) (by omega)
  rw [hid] at h
  cases h
  exact ⟨rfl, rfl⟩

theorem nextSeq_error {e : Fail} (h : s.nextSeq reply = (.error e, s')) : s' = s := by
  unfold nextSeq at h
  split at h
  · cases h
    rfl
  · cases h

theorem fetch_window (hproper : Proper ret) (hsplit : ret.splitOn 44 = [value, increment])
    (hid : id = toInt64 ((parseInt value).1 + 1)) (hcurr : s'.curr = id)
    (hmax : s'.max = toInt64 ((parseInt value).1 + (parseInt increment).1)) :
    id ∈ window ret ∧ s'.rest ⊆ window ret := by
  obtain ⟨p, hp, hpos, hlt⟩ := hproper (by rw [hsplit]; rfl)
  obtain ⟨hvalue, hincrement⟩ := pair_eq_some hsplit hp
  have hlow := (parseInt_range value).1
  have hhigh := (parseInt_range increment).2
  rw [hvalue] at hid hmax hlow
  rw [hincrement] at hmax hhigh
  rw [toInt64_of_range (by omega) hlt] at hid
  refine ⟨⟨p, hp, by omega, by omega⟩, ?_⟩
  rintro x ⟨hx₁, hx₂⟩
  refine ⟨p, hp, by omega, ?_⟩
  -- a sum that does not fit becomes negative, and then nothing is left
  have hsum : toInt64 (p.1 + p.2) ≤ p.1 + p.2 := by
    unfold toInt64
    split <;> omega
  omega

theorem nextSeq_window_iff (hs : s.curr ≥ s.max) :
    (∀ id, (s.nextSeq (.ok ret)).1 = .ok id → id ∈ window ret) ↔ Proper ret := by
  constructor
  · intro h hlength
    obtain ⟨value, increment, hsplit⟩ := List.length_eq_two.1 hlength
    obtain ⟨p, hp, hlow, hhigh⟩ := h _ (nextSeq_fetch_ok hs hsplit)
    have hvalue := (pair_eq_some hsplit hp).1
    have hrange := parseInt_range value
    rw [hvalue] at hlow hhigh hrange
    refine ⟨p, hp, by omega, ?_⟩
    by_contra hmax
    have hwrap : toInt64 (p.1 + 1) = -2 ^ 63 := by
      rw [show p.1 + 1 = 2 ^ 63 by omega]
      rfl
    omega
  · intro hproper id h
    obtain ⟨ret', value, increment, hret, hsplit, hid, hcurr, hmax⟩ := nextSeq_fetch hs (Prod.ext h rfl)
    cases hret
    exact (fetch_window hproper hsplit hid hcurr hmax).1

end MySQLSequence

open Effect MySQLSequence

namespace SequenceUsers

/-- The ids the database hands out at its call number `n`. -/
def windows (db : Nat → Except Fail GoString) (n : Nat) : Set Int :=
  { id | ∃ ret, db n = .ok ret ∧ id ∈ MySQLSequence.window ret }

/-- What the proxies may still return, when the ids of `issued` were returned. -/
structure Allotted (db : Nat → Except Fail GoString) (u : SequenceUsers) (issued : Set Int) : Prop where
  range : ∀ i, -2 ^ 63 ≤ (u.proxies i).curr ∧ (u.proxies i).max < 2 ^ 63
  issued_windows : ∀ id ∈ issued, ∃ n < u.fetches, id ∈ windows db n
  rest_windows : ∀ i, ∀ id ∈ (u.proxies i).rest, ∃ n < u.fetches, id ∈ windows db n
  rest_issued : ∀ i, Disjoint (u.proxies i).rest issued
  rest_disjoint : ∀ i j, i ≠ j → Disjoint (u.proxies i).rest (u.proxies j).rest

def start (seqName : String) : SequenceUsers := { proxies := fun _ => { seqName } }

variable {db : Nat → Except Fail GoString} {u : SequenceUsers} {issued : Set Int}

theorem start_allotted (seqName : String) : Allotted db (start seqName) ∅ where
  range _ := ⟨show -2 ^ 63 ≤ (0 : Int) by decide, show (0 : Int) < 2 ^ 63 by decide⟩
  issued_windows _ h := h.elim
  rest_windows i id h := by
    have hempty : id ∈ Set.Ioc (0 : Int) 0 := h
    simp at hempty
  rest_issued _ := Set.disjoint_empty _
  rest_disjoint i _ _ := by
    have hempty : ((start seqName).proxies i).rest = Set.Ioc (0 : Int) 0 := rfl
    rw [hempty, Set.Ioc_self]
    exact Set.empty_disjoint _

/-- Proxy `i` returns an id of `A` and keeps other ids of `A`, where `A` is the rest of its window or a new one. -/
theorem Allotted.give (h : Allotted db u issued) {i fetches : Nat} {id : Int} {s' : MySQLSequence} {A : Set Int}
    (hfetches : u.fetches ≤ fetches) (hwindows : ∀ x ∈ A, ∃ n < fetches, x ∈ windows db n)
    (hissued : Disjoint A issued)
    (hothers : ∀ j, j ≠ i → Disjoint A (u.proxies j).rest) (hid : id ∈ A) (hrest : s'.rest ⊆ A) (hnew : id ∉ s'.rest)
    (hrange : -2 ^ 63 ≤ s'.curr ∧ s'.max < 2 ^ 63) :
    Allotted db { proxies := Function.update u.proxies i s', fetches } (insert id issued) := by
  have hlater : ∀ x, (∃ n < u.fetches, x ∈ windows db n) → ∃ n < fetches, x ∈ windows db n :=
    fun x ⟨n, hn, hx⟩ => ⟨n, by omega, hx⟩
  refine ⟨fun j => ?_, ?_, fun j x hx => ?_, fun j => ?_, fun j k hjk => ?_⟩
  · dsimp only
    by_cases hj : j = i
    · subst hj
      rwa [Function.update_self]
    · rw [Function.update_of_ne hj]
      exact h.range j
  · rintro x (rfl | hx)
    · exact hwindows x hid
    · exact hlater x (h.issued_windows x hx)
  · dsimp only at hx
    by_cases hj : j = i
    · subst hj
      rw [Function.update_self] at hx
      exact hwindows x (hrest hx)
    · rw [Function.update_of_ne hj] at hx
      exact hlater x (h.rest_windows j x hx)
  · dsimp only
    rw [Set.disjoint_insert_right]
    by_cases hj : j = i
    · subst hj
      rw [Function.update_self]
      exact ⟨hnew, hissued.mono_left hrest⟩
    · rw [Function.update_of_ne hj]
      exact ⟨Set.disjoint_left.1 (hothers j hj) hid, h.rest_issued j⟩
  · dsimp only
    by_cases hj : j = i
    · subst hj
      rw [Function.update_self, Function.update_of_ne hjk.symm]
      exact (hothers k hjk.symm).mono_left hrest
    · rw [Function.update_of_ne hj]
      by_cases hk : k = i
      · subst hk
        rw [Function.update_self]
        exact ((hothers j hj).mono_left hrest).symm
      · rw [Function.update_of_ne hk]
        exact h.rest_disjoint j k hjk

theorem Allotted.fail (h : Allotted db u issued) {i fetches : Nat} (hfetches : u.fetches ≤ fetches) :
    Allotted db { proxies := Function.update u.proxies i (u.proxies i), fetches } issued := by
  rw [Function.update_eq_self]
  exact ⟨h.range, fun x hx => (h.issued_windows x hx).imp fun n hn => ⟨hn.1.trans_le hfetches, hn.2⟩,
    fun j x hx => (h.rest_windows j x hx).imp fun n hn => ⟨hn.1.trans_le hfetches, hn.2⟩, h.rest_issued,
    h.rest_disjoint⟩

variable (hproper : ∀ n ret, db n = .ok ret → Proper ret) (hdisjoint : ∀ m n, m ≠ n →
  Disjoint (windows db m) (windows db n))
include hproper hdisjoint

/-- One call: a failed one changes nothing, another one returns an id that was not returned before. -/
theorem nextSeq_allotted (h : Allotted db u issued) (i : Nat) :
    Ends (fun id u' => id ∉ issued ∧ (∃ n, id ∈ windows db n) ∧ Allotted db u' (insert id issued))
      (fun _ u' => Allotted db u' issued) (u.nextSeq db i) := by
  unfold nextSeq
  generalize hcall : (u.proxies i).nextSeq (db u.fetches) = call
  obtain ⟨result, s'⟩ := call
  dsimp only
  cases result with
  | error e =>
    rw [nextSeq_error hcall]
    exact h.fail (by split <;> omega)
  | ok id =>
    obtain ⟨hcurr, hmax⟩ := h.range i
    by_cases hs : (u.proxies i).curr ≥ (u.proxies i).max
    · -- a window that was handed out now has nothing in common with what was returned or may be returned
      obtain ⟨ret, value, increment, hret, hsplit, hid, hcurr', hmax'⟩ := nextSeq_fetch hs hcall
      obtain ⟨hmem, hrest⟩ := fetch_window (hproper _ _ hret) hsplit hid hcurr' hmax'
      have hwindow : windows db u.fetches = MySQLSequence.window ret := by
        unfold windows
        simp [hret]
      rw [if_pos hs]
      have hnew : ∀ x ∈ MySQLSequence.window ret, ¬∃ n < u.fetches, x ∈ windows db n := by
        rintro x hx ⟨n, hn, hx'⟩
        rw [← hwindow] at hx
        exact Set.disjoint_left.1 (hdisjoint n u.fetches (by omega)) hx' hx
      have hissued : Disjoint (MySQLSequence.window ret) issued :=
        Set.disjoint_left.2 fun x hx hx' => hnew x hx (h.issued_windows x hx')
      have hothers : ∀ j, j ≠ i → Disjoint (MySQLSequence.window ret) (u.proxies j).rest := fun j _ =>
        Set.disjoint_left.2 fun x hx hx' => hnew x hx (h.rest_windows j x hx')
      refine ⟨Set.disjoint_left.1 hissued hmem, ⟨u.fetches, hwindow ▸ hmem⟩, h.give (by omega)
        (fun x hx => ⟨u.fetches, by omega, hwindow ▸ hx⟩) hissued hothers hmem hrest ?_ ?_⟩
      · rintro ⟨hlow, -⟩
        omega
      · rw [hcurr', hmax', hid]
        exact ⟨(toInt64_range _).1, (toInt64_range _).2⟩
    · obtain ⟨rfl, rfl⟩ := nextSeq_rest hs hmax hcurr hcall
      rw [if_neg hs]
      have hmem : (u.proxies i).curr + 1 ∈ (u.proxies i).rest := ⟨by omega, by omega⟩
      refine ⟨Set.disjoint_left.1 (h.rest_issued i) hmem, ?_, h.give le_rfl (h.rest_windows i) (h.rest_issued i)
        (fun j hj => h.rest_disjoint i j hj.symm) hmem ?_ ?_ ⟨?_, hmax⟩⟩
      · obtain ⟨n, -, hn⟩ := h.rest_windows i _ hmem
        exact ⟨n, hn⟩
      · rintro x ⟨hx₁, hx₂⟩
        refine ⟨?_, hx₂⟩
        dsimp only at hx₁
        omega
      · rintro ⟨hlow, -⟩
        dsimp only at hlow
        omega
      · dsimp only
        omega

theorem ids_allotted (h : Allotted db u issued) (is : List Nat) :
    (ids db u is).Nodup ∧ ∀ id ∈ ids db u is, id ∉ issued ∧ ∃ n, id ∈ windows db n := by
  induction is generalizing u issued with
  | nil => exact ⟨List.nodup_nil, nofun⟩
  | cons i is ih =>
    unfold ids
    cases hcall : u.nextSeq db i with
    | mk result u' =>
      have hstep := nextSeq_allotted hproper hdisjoint h i
      rw [hcall] at hstep
      cases result with
      | error e => exact ih hstep
      | ok id =>
        obtain ⟨hnew, hwindow, hnext⟩ := hstep
        obtain ⟨hnodup, hids⟩ := ih hnext
        refine ⟨List.nodup_cons.2 ⟨fun hid => (hids id hid).1 (Set.mem_insert _ _), hnodup⟩, ?_⟩
        intro x hx
        rcases List.mem_cons.1 hx with rfl | hx
        · exact ⟨hnew, hwindow⟩
        · exact ⟨fun hx' => (hids x hx).1 (Set.mem_insert_of_mem _ hx'), (hids x hx).2⟩

omit hproper hdisjoint

/-- Whichever proxies call `NextSeq` in whichever order, no id is returned twice and every id lies in a window the
database handed out, if every reply of two fields is a pair of numbers with a positive increment.  A fetch keeps to
the window of its reply in no other case. -/
theorem ids_distinct (db : Nat → Except Fail GoString)
    (hdisjoint : ∀ m n, m ≠ n → Disjoint (windows db m) (windows db n)) :
    ((∀ n ret, db n = .ok ret → Proper ret) → ∀ seqName is,
      (ids db (start seqName) is).Nodup ∧ ∀ id ∈ ids db (start seqName) is, ∃ n, id ∈ windows db n) ∧
    ∀ (s : MySQLSequence) (ret : GoString), s.curr ≥ s.max →
      ((∀ id, (s.nextSeq (.ok ret)).1 = .ok id → id ∈ MySQLSequence.window ret) ↔ Proper ret) := by
  refine ⟨fun hproper seqName is => ?_, fun s ret hs => nextSeq_window_iff hs⟩
  obtain ⟨hnodup, hids⟩ := ids_allotted hproper hdisjoint (start_allotted seqName) is
  exact ⟨hnodup, fun id hid => (hids id hid).2⟩

/-- A database function that hands out the ids up to 104 in two windows. -/
def twoWindows : Nat → Except Fail GoString
  | 0 => .ok (ascii "100,2")
  | 1 => .ok (ascii "102,2")
  | _ => .error (.error "connection was bad")

theorem ids_distinct_twoWindows :
    (ids twoWindows (start "orders") [0, 1, 0, 1, 0]).Nodup ∧ ids twoWindows (start "orders") [0, 1, 0, 1, 0] =
    [101, 103, 102, 104] := by
  have hpair : pair (ascii "100,2") = some (100, 2) ∧ pair (ascii "102,2") = some (102, 2) := by decide +kernel
  have hwindow : ∀ n id, id ∈ windows twoWindows n → n = 0 ∧ 100 < id ∧ id ≤ 102 ∨ n = 1 ∧ 102 < id ∧ id ≤ 104 := by
    rintro n id ⟨ret, hret, p, hp, hlow, hhigh⟩
    match n, hret with
    | 0, rfl =>
      cases hpair.1.symm.trans hp
      exact .inl ⟨rfl, hlow, hhigh⟩
    | 1, rfl =>
      cases hpair.2.symm.trans hp
      exact .inr ⟨rfl, hlow, hhigh⟩
    | n + 2, hret => cases hret
  refine ⟨((ids_distinct twoWindows fun m n hmn => ?_).1 (fun n ret hret => ?_) "orders"
    [0, 1, 0, 1, 0]).1, by decide +kernel⟩
  · refine Set.disjoint_left.2 fun id hm hn => ?_
    have := hwindow m id hm
    have := hwindow n id hn
    omega
  · match n, hret with
    | 0, rfl => exact fun _ => ⟨_, hpair.1, by decide, by decide⟩
    | 1, rfl => exact fun _ => ⟨_, hpair.2, by decide, by decide⟩
    | n + 2, hret => cases hret

/-- What `mycat_seq_nextval` answers for a sequence it does not know. -/
def unknownSequence : Nat → Except Fail GoString := fun _ => .ok (ascii "-999999999,null")

/-- Two proxies get the same id, which no window holds. -/
theorem ids_unknownSequence :
    (∀ m n, m ≠ n → Disjoint (windows unknownSequence m) (windows unknownSequence n)) ∧
    ids unknownSequence (start "orders") [0, 1] = [-999999998, -999999998] ∧
    ∀ n, -999999998 ∉ windows unknownSequence n := by
  have hpair : pair (ascii "-999999999,null") = none := by decide +kernel
  have hempty : ∀ n id, id ∉ windows unknownSequence n := by
    rintro n id ⟨ret, hret, p, hp, -⟩
    cases hret
    rw [hpair] at hp
    cases hp
  exact ⟨fun m n _ => Set.disjoint_left.2 fun id hm => (hempty m id hm).elim, by decide +kernel, fun n => hempty n _⟩

end SequenceUsers

end DbProxy
