import DbProxy.Models.Namespace

/-!
# Changes of the topology

The four operations of the control centre that change the addresses of the slices of all namespaces.  Each goes over
the slices with one flag, and a namespace is written back if the flag is set after its slices.
-/

namespace DbProxy

open List

/-- `Online`, `Offline`, or another text. -/
inductive SlaveAction where
  | online
  | offline
  | other
  deriving DecidableEq, Repr

/-- `SwitchMasterSlave`, `ReplaceMasterIp`, `OnlineOrOfflineSlaveIpMasterDC` and
`OnlineOrOfflineSlaveIpNotMasterDC` -/
inductive TopologyEdit where
  | switchMasterSlave (oldAddr newAddr : String)
  | replaceMasterIp (oldAddr newAddr : String)
  | masterDC (oldAddr : String) (action : SlaveAction)
  | notMasterDC (oldAddr : String) (action : SlaveAction)
  deriving DecidableEq, Repr

/-- The loop that leaves the number of the last place of the address. -/
def lastIndex (addr : String) (addrs : List String) : Option Nat :=
  ((range addrs.length).filter fun k => addrs[k]? = some addr).getLast?

def dropAt (addrs : List String) : Option Nat → List String
  | none => addrs
  | some index => addrs.take index ++ addrs.drop (index + 1)

namespace TopologyEdit

/-- The body of the loop over the slices: the slice, and whether the flag is set. -/
def editSlice (slice : SliceModel) : TopologyEdit → SliceModel × Bool
  | switchMasterSlave oldAddr newAddr =>
    if slice.master = oldAddr then ({ slice with master := newAddr }, true)
    else
      ({ slice with slaves := slice.slaves.map fun slaveNode => if slaveNode = oldAddr then newAddr else slaveNode },
        slice.slaves.any (· = oldAddr))
  | replaceMasterIp oldAddr newAddr =>
    if slice.master = oldAddr then ({ slice with master := newAddr }, true) else (slice, false)
  | masterDC oldAddr action =>
    let index := lastIndex oldAddr slice.slaves
    if action = .online ∧ index = none then ({ slice with slaves := slice.slaves ++ [oldAddr] }, true)
    else if action = .offline ∧ index ≠ none then ({ slice with slaves := dropAt slice.slaves index }, true)
    else (slice, false)
  | notMasterDC oldAddr action =>
    let index := lastIndex oldAddr slice.slaveDCSlaves
    if action = .online then
      let slice := if slice.slaveDCMaster = "" then { slice with slaveDCMaster := oldAddr } else slice
      if index = none then ({ slice with slaveDCSlaves := slice.slaveDCSlaves ++ [oldAddr] }, true)
      else (slice, false)
    else if action = .offline then
      let isModify := decide (slice.slaveDCMaster = oldAddr)
      let slice := if isModify then { slice with slaveDCMaster := "" } else slice
      if index ≠ none then ({ slice with slaveDCSlaves := dropAt slice.slaveDCSlaves index }, true)
      else (slice, isModify)
    else (slice, false)

/-- The loop over the slices of a namespace. -/
def editSlices (op : TopologyEdit) : List SliceModel → (isModify : Bool) → List SliceModel × Bool
  | [], isModify => ([], isModify)
  | slice :: slices, isModify =>
    let (slice, modified) := op.editSlice slice
    let (slices, isModify) := op.editSlices slices (isModify || modified)
    (slice :: slices, isModify)

/-- The loop over the namespaces: what `ModifyNamespace` is called with for each, if it is called, and the result. -/
def run (op : TopologyEdit) (modifyNamespace : NamespaceModel → Except String Unit) :
    List NamespaceModel → (isModify : Bool) → List (Option NamespaceModel) × Except String Unit
  | [], _ => ([], .ok ())
  | namespace_ :: namespaces, isModify =>
    let (slices, isModify) := op.editSlices namespace_.slices isModify
    let namespace_ := { namespace_ with slices }
    if isModify then
      match modifyNamespace namespace_ with
      | .error err => ([some namespace_], .error err)
      | .ok _ =>
        let (calls, result) := op.run modifyNamespace namespaces false
        (some namespace_ :: calls, result)
    else
      let (calls, result) := op.run modifyNamespace namespaces isModify
      (none :: calls, result)

/-! ### Slices -/

theorem lastIndex_eq_none {addr : String} {addrs : List String} : lastIndex addr addrs = none ↔ addr ∉ addrs := by
  rw [lastIndex, getLast?_eq_none_iff, filter_eq_nil_iff, mem_iff_getElem?]
  constructor
  · rintro h ⟨k, hk⟩
    exact h k (mem_range.2 (List.getElem?_eq_some_iff.1 hk).1) (decide_eq_true hk)
  · exact fun h k _ hk => h ⟨k, of_decide_eq_true hk⟩

theorem dropAt_lastIndex {addr : String} {addrs : List String} (h : addr ∈ addrs) :
    dropAt addrs (lastIndex addr addrs) ≠ addrs := by
  cases hindex : lastIndex addr addrs with
  | none => exact absurd h (lastIndex_eq_none.1 hindex)
  | some k =>
    have hk : k < addrs.length := mem_range.1 (mem_of_mem_filter (mem_of_getLast? hindex))
    intro heq
    have := congrArg length heq
    rw [dropAt, length_append, length_take, length_drop] at this
    omega

theorem map_eq_self {α : Type} {f : α → α} {l : List α} : l.map f = l ↔ ∀ a ∈ l, f a = a := by
  simpa using map_inj_left (f := f) (g := id) (l := l)

def Flags (slice : SliceModel) : TopologyEdit → Prop
  | switchMasterSlave oldAddr _ => slice.master = oldAddr ∨ oldAddr ∈ slice.slaves
  | replaceMasterIp oldAddr _ => slice.master = oldAddr
  | masterDC oldAddr .online => oldAddr ∉ slice.slaves
  | masterDC oldAddr .offline => oldAddr ∈ slice.slaves
  | notMasterDC oldAddr .online => oldAddr ∉ slice.slaveDCSlaves
  | notMasterDC oldAddr .offline => slice.slaveDCMaster = oldAddr ∨ oldAddr ∈ slice.slaveDCSlaves
  | _ => False

def Changes (slice : SliceModel) : TopologyEdit → Prop
  | switchMasterSlave oldAddr newAddr => oldAddr ≠ newAddr ∧ (slice.master = oldAddr ∨ oldAddr ∈ slice.slaves)
  | replaceMasterIp oldAddr newAddr => oldAddr ≠ newAddr ∧ slice.master = oldAddr
  | notMasterDC oldAddr .online => oldAddr ∉ slice.slaveDCSlaves ∨ oldAddr ≠ "" ∧ slice.slaveDCMaster = ""
  | notMasterDC oldAddr .offline => oldAddr ∈ slice.slaveDCSlaves ∨ oldAddr ≠ "" ∧ slice.slaveDCMaster = oldAddr
  | op => op.Flags slice

theorem flag_iff (op : TopologyEdit) (slice : SliceModel) : (op.editSlice slice).2 = true ↔ op.Flags slice := by
  rcases op with ⟨oldAddr, newAddr⟩ | ⟨oldAddr, newAddr⟩ | ⟨oldAddr, _ | _ | _⟩ | ⟨oldAddr, _ | _ | _⟩ <;>
    simp only [editSlice, Flags, lastIndex_eq_none, ne_eq] <;> grind

theorem changed_iff (op : TopologyEdit) (slice : SliceModel) : (op.editSlice slice).1 ≠ slice ↔ op.Changes slice := by
  cases slice with
  | mk _ _ _ slaves =>
    rcases op with ⟨oldAddr, newAddr⟩ | ⟨oldAddr, newAddr⟩ | ⟨oldAddr, _ | _ | _⟩ | ⟨oldAddr, _ | _ | _⟩
    case switchMasterSlave =>
      have hmap := map_eq_self (f := fun addr => if addr = oldAddr then newAddr else addr) (l := slaves)
      simp only [editSlice, Changes, ne_eq]
      grind
    all_goals
      simp only [editSlice, Changes, Flags, lastIndex_eq_none, ne_eq]
      grind [dropAt_lastIndex]

/-! ### Namespaces -/

theorem editSlices_eq (op : TopologyEdit) (slices : List SliceModel) (isModify : Bool) :
    op.editSlices slices isModify =
      (slices.map fun slice => (op.editSlice slice).1,
        isModify || slices.any fun slice => (op.editSlice slice).2) := by
  induction slices generalizing isModify with
  | nil => rw [editSlices, any_nil, Bool.or_false, map_nil]
  | cons slice slices ih => simp only [editSlices, ih, any_cons, Bool.or_assoc, map_cons]

def edited (op : TopologyEdit) (ns : NamespaceModel) : NamespaceModel :=
  { ns with slices := ns.slices.map fun slice => (op.editSlice slice).1 }

/-- As long as no call fails, `ModifyNamespace` is called once for each namespace that is changed, for no other. -/
def Persisted (op : TopologyEdit) (namespaces : List NamespaceModel) : Prop :=
  ∀ modifyNamespace, (∀ ns, modifyNamespace ns = .ok ()) → op.run modifyNamespace namespaces false =
    (namespaces.map fun ns => if op.edited ns ≠ ns then some (op.edited ns) else none, .ok ())

/-- The address that is switched is another one; an address that is put into a list is not in that list of all slices,
or no slice is without a master in its place. -/
def Noticed (ns : NamespaceModel) : TopologyEdit → Prop
  | switchMasterSlave oldAddr newAddr =>
    oldAddr ≠ newAddr ∨ ∀ slice ∈ ns.slices, slice.master ≠ oldAddr ∧ oldAddr ∉ slice.slaves
  | replaceMasterIp oldAddr newAddr => oldAddr ≠ newAddr ∨ ∀ slice ∈ ns.slices, slice.master ≠ oldAddr
  | notMasterDC oldAddr .online =>
    oldAddr = "" ∨ (∃ slice ∈ ns.slices, oldAddr ∉ slice.slaveDCSlaves) ∨
    ∀ slice ∈ ns.slices, slice.slaveDCMaster ≠ ""
  | notMasterDC oldAddr .offline =>
    oldAddr ≠ "" ∨ (∃ slice ∈ ns.slices, oldAddr ∈ slice.slaveDCSlaves) ∨
    ∀ slice ∈ ns.slices, slice.slaveDCMaster ≠ ""
  | _ => True

theorem run_eq (op : TopologyEdit) {modifyNamespace : NamespaceModel → Except String Unit}
    (namespaces : List NamespaceModel)
    (hok : ∀ ns, modifyNamespace ns = .ok ()) : op.run modifyNamespace namespaces false =
      (namespaces.map fun ns => if ns.slices.any fun slice => (op.editSlice slice).2 then some (op.edited ns)
        else none, .ok ()) := by
  induction namespaces with
  | nil => rfl
  | cons ns namespaces ih =>
    rw [run, editSlices_eq, Bool.false_or]
    cases hflag : ns.slices.any fun slice => (op.editSlice slice).2 with
    | false =>
      simp only [ih, map_cons, hflag]
      rfl
    | true =>
      simp only [ih, hok, map_cons, hflag]
      rfl

theorem edited_ne_iff (op : TopologyEdit) (ns : NamespaceModel) :
    op.edited ns ≠ ns ↔ ∃ slice ∈ ns.slices, op.Changes slice := by
  have hslices : op.edited ns = ns ↔ ns.slices.map (fun slice => (op.editSlice slice).1) = ns.slices :=
    ⟨congrArg NamespaceModel.slices, fun h => by rw [edited, h]⟩
  rw [Ne, hslices, map_eq_self]
  simp only [← changed_iff, not_forall, exists_prop, Ne]

theorem noticed_iff (op : TopologyEdit) (ns : NamespaceModel) :
    op.Noticed ns ↔ ((∃ slice ∈ ns.slices, op.Flags slice) ↔ ∃ slice ∈ ns.slices, op.Changes slice) := by
  rcases op with ⟨oldAddr, newAddr⟩ | ⟨oldAddr, newAddr⟩ | ⟨oldAddr, _ | _ | _⟩ | ⟨oldAddr, _ | _ | _⟩ <;>
    simp only [Noticed, Flags, Changes] <;> grind

theorem persisted_iff (op : TopologyEdit) (namespaces : List NamespaceModel) :
    op.Persisted namespaces ↔ ∀ ns ∈ namespaces, op.Noticed ns := by
  have hns (ns : NamespaceModel) :
    (if ns.slices.any fun slice => (op.editSlice slice).2 then some (op.edited ns) else none) =
      (if op.edited ns ≠ ns then some (op.edited ns) else none) ↔ op.Noticed ns := by
    rw [noticed_iff, ← edited_ne_iff]
    simp only [← flag_iff, ← any_eq_true]
    cases ns.slices.any fun slice => (op.editSlice slice).2 <;> by_cases hsame : op.edited ns = ns <;> simp [hsame]
  simp only [← hns, ← map_inj_left]
  constructor
  · intro h
    have hcalls := h (fun _ => .ok ()) fun _ => rfl
    rw [run_eq op namespaces fun _ => rfl] at hcalls
    exact (Prod.mk.inj hcalls).1
  · intro h modifyNamespace hok
    rw [run_eq op namespaces hok, h]

/-- A slice without a master in the other place gets one, and nothing is written back. -/
theorem not_persisted_online :
    ¬ (notMasterDC "b:3306" .online).Persisted
      [⟨[], false, true, [], [], [], [], [⟨"slice-0", "u", "a:3306", [], "", ["b:3306"], 1, 1⟩], [], [], "slice-0",
        "", ""⟩] := by
  intro h
  have hcalls := h (fun _ => .ok ()) fun _ => rfl
  revert hcalls
  decide

end TopologyEdit

end DbProxy
