import DbProxy.Server.Manager

/-!
# Reloads

A history follows the manager through any sequence of calls, and notes beside it which configuration was prepared last
for each name, which names were deleted since, and for which name the spare table waits (`History.waiting`).  A commit
is linear just when it is for that name: otherwise the spare table holds another namespace anew, or one that was
closed or deleted.
-/

namespace DbProxy

variable {κ : Type}

def Manager.serving (m : Manager κ) (name : String) : Option (Namespace κ) := m.current.bind fun nsMgr => nsMgr name

/-- `waiting` is the name of the last successful preparation, until it is committed, a serving namespace is deleted,
or the name itself is deleted. -/
structure History (κ : Type) where
  manager : Manager κ
  lastPrepared : String → Option κ := fun _ => none
  deleted : String → Bool := fun _ => false
  waiting : Option String := none

namespace History

def step (h : History κ) : ReloadCall κ → History κ
  | .prepare config => match h.manager.reloadNamespacePrepare config with
    | (.ok (), manager) => {
        manager
        lastPrepared := Function.update h.lastPrepared config.name (some config.config)
        deleted := Function.update h.deleted config.name false
        waiting := some config.name }
    | (.error _, manager) => { h with manager }
  | .commit name => match h.manager.reloadNamespaceCommit name with
    | (.ok (), manager) => { h with manager, waiting := none }
    | (.error _, manager) => { h with manager }
  | .delete name => {
      manager := (h.manager.deleteNamespace name).2
      lastPrepared := h.lastPrepared
      deleted := Function.update h.deleted name true
      waiting := if (h.manager.serving name).isSome ∨ h.waiting = some name then none else h.waiting }

def start (configs : List (Manager.Config κ)) : History κ := { manager := .createManager configs }

def run (h : History κ) (calls : List (ReloadCall κ)) : History κ := calls.foldl step h

/-- The call does what a reload should do: a commit serves the last configuration prepared for its name and leaves the
other names alone, a name that is deleted is not served, and nothing that is served is being closed. -/
structure Linear (h : History κ) (call : ReloadCall κ) : Prop where
  commit : ∀ name, call = .commit name → (call.run h.manager).1 = .ok () →
    (∃ ns, (h.step call).manager.serving name = some ns ∧ h.lastPrepared name = some ns.config) ∧
    ∀ other, other ≠ name → (h.step call).manager.serving other = h.manager.serving other
  deleted : ∀ name, (h.step call).deleted name = true → (h.step call).manager.serving name = none
  open_ : ∀ name ns, (h.step call).manager.serving name = some ns → ns ∉ (h.step call).manager.closing

/-- A commit that finds a preparation is for the name that waits. -/
def InTurn (h : History κ) (call : ReloadCall κ) : Prop :=
  ∀ name, call = .commit name → h.manager.reloadPrepared = true → h.waiting = some name

/-- What the spare table holds while a preparation waits for its commit: the serving table with one new object, or,
after a deletion, a namespace that must not be served again. -/
def Spare (h : History κ) (cur next : NamespaceManager κ) : Prop := match h.waiting with
  | some name => ∃ ns : Namespace κ, next = Function.update cur name (some ns) ∧ ns.name = name ∧
      ns.id < h.manager.created ∧
      h.lastPrepared name = some ns.config ∧ ns ∉ h.manager.closing ∧ cur name ≠ some ns ∧ h.deleted name = false
  | none => ∃ name ns, next name = some ns ∧ (ns ∈ h.manager.closing ∨ h.deleted name = true)

structure Consistent (h : History κ) (cur : NamespaceManager κ) : Prop where
  current : h.manager.current = some cur
  named : ∀ name ns, cur name = some ns → ns.name = name ∧ ns.id < h.manager.created
  closing : ∀ ns ∈ h.manager.closing, ns.id < h.manager.created ∧ cur ns.name ≠ some ns
  deleted : ∀ name, h.deleted name = true → cur name = none
  other : h.manager.reloadPrepared = true →
    ∃ next, h.manager.namespaces (!h.manager.switchIndex) = some next ∧ h.Spare cur next

theorem consistent_start (configs : List (Manager.Config κ)) :
    (start configs).Consistent (Manager.createNamespaceManager configs).1 := by
  let create := fun (made : NamespaceManager κ × Nat) (config : Manager.Config κ) =>
    if config.valid then (Function.update made.1 config.name (some ⟨made.2, config.name, config.config⟩), made.2 + 1)
    else made
  have hnamed : ∀ (configs : List (Manager.Config κ)) (nsMgr : NamespaceManager κ) (n : Nat),
      (∀ name ns, nsMgr name = some ns → ns.name = name ∧ ns.id < n) →
      ∀ name ns, (configs.foldl create (nsMgr, n)).1 name = some ns → ns.name = name ∧
        ns.id < (configs.foldl create (nsMgr, n)).2 := by
    intro configs
    induction configs with
    | nil => exact fun nsMgr n h => h
    | cons config configs ih =>
      intro nsMgr n h
      rw [List.foldl_cons]
      by_cases hv : config.valid = true
      · rw [show create (nsMgr, n) config = _ from if_pos hv]
        refine ih _ _ fun name ns hns => ?_
        by_cases hname : name = config.name
        · subst hname
          rw [Function.update_self, Option.some.injEq] at hns
          subst hns
          exact ⟨rfl, n.lt_succ_self⟩
        · rw [Function.update_of_ne hname] at hns
          exact ⟨(h name ns hns).1, Nat.lt_succ_of_lt (h name ns hns).2⟩
      · rw [show create (nsMgr, n) config = _ from if_neg hv]
        exact ih _ _ h
  exact {
    current := rfl
    named := hnamed configs _ 0 fun _ _ h => by cases h
    closing := fun ns hns => by cases hns
    deleted := fun name hname => by cases hname
    other := fun h => by cases h }

namespace Consistent

variable {h : History κ} {cur : NamespaceManager κ}
variable {name : String} {ns : Namespace κ} {next : NamespaceManager κ} {call : ReloadCall κ}

section

variable (hc : h.Consistent cur)

include hc

theorem serving (name : String) : h.manager.serving name = cur name := by
  rw [Manager.serving, hc.current, Option.bind_some]

theorem not_mem_closing (hns : cur name = some ns) :
    ns ∉ h.manager.closing := fun hmem => (hc.closing ns hmem).2 ((hc.named name ns hns).1 ▸ hns)

theorem prepare (config : Manager.Config κ) : (h.step (.prepare config)).Consistent cur := by
  unfold step Manager.reloadNamespacePrepare
  rw [hc.current]
  by_cases hv : config.valid = true
  · simp only [hv, if_true]
    refine ⟨?_, ?_, ?_, ?_, ?_⟩
    · show Function.update h.manager.namespaces (!h.manager.switchIndex) _ h.manager.switchIndex = some cur
      rw [Function.update_of_ne (by simp)]
      exact hc.current
    · exact fun name ns hns => ⟨(hc.named name ns hns).1, Nat.lt_succ_of_lt (hc.named name ns hns).2⟩
    · exact fun ns hns => ⟨Nat.lt_succ_of_lt (hc.closing ns hns).1, (hc.closing ns hns).2⟩
    · intro name hname
      by_cases heq : name = config.name
      · rw [heq] at hname
        simp at hname
      · exact hc.deleted name (by simpa [Function.update_of_ne heq] using hname)
    · intro _
      refine ⟨_, Function.update_self _ _ _, ⟨h.manager.created, config.name, config.config⟩, rfl, rfl,
        Nat.lt_succ_self _, ?_, fun hmem => ?_, fun hcur => ?_, ?_⟩
      · exact Function.update_self _ _ _
      · exact Nat.lt_irrefl _ (hc.closing _ hmem).1
      · exact Nat.lt_irrefl _ (hc.named _ _ hcur).2
      · exact Function.update_self _ _ _
  · simp only [hv]
    exact hc

theorem commit_eq (name : String)
    (hprepared : h.manager.reloadPrepared = true)
    (hnext : h.manager.namespaces (!h.manager.switchIndex) = some next) :
    (ReloadCall.run h.manager (.commit name)).1 = .ok () ∧ h.step (.commit name) = { h with
      manager := { h.manager with
        reloadPrepared := false, switchIndex := !h.manager.switchIndex,
        closing := h.manager.closing ++ (cur name).toList }
      waiting := none } := by
  have hrun : h.manager.reloadNamespaceCommit name = (.ok (), { h.manager with
      reloadPrepared := false, switchIndex := !h.manager.switchIndex,
      closing := h.manager.closing ++ (cur name).toList }) := by
    unfold Manager.reloadNamespaceCommit
    rw [if_pos hprepared, hc.current]
    simp [Manager.current, hnext]
  exact ⟨by simp only [ReloadCall.run, hrun], by simp only [step, hrun]⟩

theorem commit (hprepared : h.manager.reloadPrepared = true)
    (hnext : h.manager.namespaces (!h.manager.switchIndex) = some next)
    (hspare : next = Function.update cur name (some ns)) (hname : ns.name = name) (hid : ns.id < h.manager.created)
    (hopen : ns ∉ h.manager.closing) (hne : cur name ≠ some ns) (hdeleted : h.deleted name = false) :
    (h.step (.commit name)).Consistent next := by
  rw [(hc.commit_eq name hprepared hnext).2]
  subst hspare
  refine ⟨hnext, ?_, ?_, ?_, fun hfalse => by cases hfalse⟩
  · intro name' ns' hns'
    by_cases heq : name' = name
    · subst heq
      rw [Function.update_self, Option.some.injEq] at hns'
      exact hns' ▸ ⟨hname, hid⟩
    · rw [Function.update_of_ne heq] at hns'
      exact hc.named name' ns' hns'
  · intro ns' hns'
    rcases List.mem_append.1 hns' with hmem | hmem
    · refine ⟨(hc.closing ns' hmem).1, ?_⟩
      by_cases heq : ns'.name = name
      · rw [heq, Function.update_self]
        exact fun hsame => hopen (Option.some.inj hsame ▸ hmem)
      · rw [Function.update_of_ne heq]
        exact (hc.closing ns' hmem).2
    · have hold := Option.mem_toList.1 hmem
      refine ⟨(hc.named name ns' hold).2, ?_⟩
      rw [(hc.named name ns' hold).1, Function.update_self]
      exact fun hsame => hne (hsame ▸ hold)
  · intro name' hdel
    have heq : name' ≠ name := fun heq => by
      rw [heq] at hdel
      exact absurd hdel (by simp [hdeleted])
    rw [Function.update_of_ne heq]
    exact hc.deleted name' hdel

theorem delete (name : String) :
    (h.step (.delete name)).Consistent (Function.update cur name none) := by
  have hserving := hc.serving name
  cases hcur : cur name with
  | none =>
    have hsame : Function.update cur name none = cur := by rw [← hcur, Function.update_eq_self]
    have hunchanged : (h.manager.deleteNamespace name).2 = h.manager := by
      unfold Manager.deleteNamespace
      rw [hc.current]
      simp [hcur]
    rw [hcur] at hserving
    simp only [step, hsame, hunchanged, hserving]
    refine ⟨hc.current, hc.named, hc.closing, ?_, fun hprepared => ?_⟩
    · intro name' hdel
      by_cases heq : name' = name
      · rw [heq, hcur]
      · exact hc.deleted name' (by simpa [Function.update_of_ne heq] using hdel)
    · obtain ⟨next, hnext, hspare⟩ := hc.other hprepared
      refine ⟨next, hnext, ?_⟩
      unfold Spare at hspare ⊢
      cases hw : h.waiting with
      | none =>
        obtain ⟨name', ns, hns, hgone⟩ := by simpa [hw] using hspare
        refine ⟨name', ns, hns, hgone.imp id fun hdel => ?_⟩
        by_cases heq : name' = name
        · rw [heq]
          exact Function.update_self _ _ _
        · exact (Function.update_of_ne heq _ _).trans hdel
      | some waiting =>
        rw [hw] at hspare
        obtain ⟨ns, rfl, hname, hid, hlast, hopen, hne, hdel⟩ := hspare
        by_cases heq : waiting = name
        · -- the name that waits is deleted while it is not served
          subst heq
          simp only [Option.isSome_none, Bool.false_eq_true, false_or, if_true]
          exact ⟨waiting, ns, Function.update_self _ _ _, .inr (Function.update_self _ _ _)⟩
        · simp only [Option.isSome_none, Bool.false_eq_true, false_or, Option.some.injEq, heq, if_false]
          exact ⟨ns, rfl, hname, hid, hlast, hopen, hne, (Function.update_of_ne heq _ _).trans hdel⟩
  | some ns =>
    have hswitched : (h.manager.deleteNamespace name).2 = { h.manager.setOther (Function.update cur name none) with
        switchIndex := !h.manager.switchIndex, closing := h.manager.closing ++ [ns] } := by
      unfold Manager.deleteNamespace
      rw [hc.current]
      simp [hcur]
    rw [hcur] at hserving
    simp only [step, hswitched, hserving]
    refine ⟨?_, ?_, ?_, ?_, fun _ => ⟨cur, ?_, ?_⟩⟩
    · exact Function.update_self _ _ _
    · intro name' ns' hns'
      by_cases heq : name' = name
      · rw [heq, Function.update_self] at hns'
        cases hns'
      · rw [Function.update_of_ne heq] at hns'
        exact hc.named name' ns' hns'
    · intro ns' hns'
      rcases List.mem_append.1 hns' with hmem | hmem
      · refine ⟨(hc.closing ns' hmem).1, ?_⟩
        by_cases heq : ns'.name = name
        · rw [heq, Function.update_self]
          exact nofun
        · rw [Function.update_of_ne heq]
          exact (hc.closing ns' hmem).2
      · obtain rfl := List.mem_singleton.1 hmem
        refine ⟨(hc.named name ns' hcur).2, ?_⟩
        rw [(hc.named name ns' hcur).1, Function.update_self]
        exact nofun
    · intro name' hdel
      by_cases heq : name' = name
      · rw [heq, Function.update_self]
      · rw [Function.update_of_ne heq]
        exact hc.deleted name' (by simpa [Function.update_of_ne heq] using hdel)
    · show Function.update h.manager.namespaces (!h.manager.switchIndex) _ (!(!h.manager.switchIndex)) = some cur
      rw [Bool.not_not, Function.update_of_ne (by simp)]
      exact hc.current
    · simp only [Spare, Option.isSome_some, true_or, if_true]
      exact ⟨name, ns, hcur, .inl (by simp)⟩

/-- A commit that is not for the name that waits serves something it should not. -/
theorem inTurn_of_linear (hlinear : h.Linear call) : h.InTurn call := by
  rintro name rfl hprepared
  obtain ⟨next, hnext, hspare⟩ := hc.other hprepared
  obtain ⟨hok, hstep⟩ := hc.commit_eq name hprepared hnext
  have hserving : ∀ other, (h.step (.commit name)).manager.serving other = next other := by
    intro other
    rw [hstep]
    simp [Manager.serving, Manager.current, hnext]
  unfold Spare at hspare
  cases hw : h.waiting with
  | none =>
    rw [hw] at hspare
    obtain ⟨name', ns, hns, hgone⟩ := hspare
    have hserved := (hserving name').trans hns
    rcases hgone with hclosing | hdel
    · refine absurd ?_ (hlinear.open_ name' ns hserved)
      rw [hstep]
      exact List.mem_append_left _ hclosing
    · have hnone := hlinear.deleted name' (by rw [hstep]; exact hdel)
      rw [hserved] at hnone
      cases hnone
  | some waiting =>
    rw [hw] at hspare
    obtain ⟨ns, rfl, -, -, -, -, hne, -⟩ := hspare
    by_contra hother
    have hkept := (hlinear.commit name rfl hok).2 waiting fun heq => hother (by rw [heq])
    rw [hserving, hc.serving, Function.update_self] at hkept
    exact hne hkept.symm

theorem linear_of_inTurn (hturn : h.InTurn call) :
    h.Linear call ∧ ∃ cur', (h.step call).Consistent cur' := by
  -- what is deleted or being closed is not served in any consistent state
  have hsafe : ∀ {cur'}, (h.step call).Consistent cur' →
      (∀ name, (h.step call).deleted name = true → (h.step call).manager.serving name = none) ∧
      ∀ name ns, (h.step call).manager.serving name = some ns → ns ∉ (h.step call).manager.closing := by
    intro cur' hc'
    refine ⟨fun name hdel => (hc'.serving name).trans (hc'.deleted name hdel), fun name ns hns => ?_⟩
    exact hc'.not_mem_closing ((hc'.serving name).symm.trans hns)
  cases call with
  | prepare config =>
    have hc' := hc.prepare config
    exact ⟨⟨fun name hcall => (by cases hcall), (hsafe hc').1, (hsafe hc').2⟩, cur, hc'⟩
  | delete name =>
    have hc' := hc.delete name
    exact ⟨⟨fun name hcall => (by cases hcall), (hsafe hc').1, (hsafe hc').2⟩, _, hc'⟩
  | commit name =>
    by_cases hprepared : h.manager.reloadPrepared = true
    · obtain ⟨next, hnext, hspare⟩ := hc.other hprepared
      rw [Spare, hturn name rfl hprepared] at hspare
      obtain ⟨ns, rfl, hname, hid, hlast, hopen, hne, hdel⟩ := hspare
      have hc' := hc.commit hprepared hnext rfl hname hid hopen hne hdel
      refine ⟨⟨?_, (hsafe hc').1, (hsafe hc').2⟩, _, hc'⟩
      intro name' hcall _
      cases hcall
      refine ⟨⟨ns, (hc'.serving name).trans (Function.update_self _ _ _), hlast⟩, fun other hother => ?_⟩
      rw [hc'.serving, hc.serving, Function.update_of_ne hother]
    · -- nothing was prepared
      have hrefused : h.manager.reloadNamespaceCommit name =
        (.error (.error "namespace is not prepared"), h.manager) :=
        if_neg hprepared
      have hsame : h.step (.commit name) = h := by simp only [step, hrefused]
      have hc' : (h.step (.commit name)).Consistent cur := by
        rw [hsame]
        exact hc
      refine ⟨⟨?_, (hsafe hc').1, (hsafe hc').2⟩, cur, hc'⟩
      intro name' hcall hok
      cases hcall
      rw [ReloadCall.run, hrefused] at hok
      cases hok

end

end Consistent

theorem linear_iff_of_consistent (calls : List (ReloadCall κ)) {h : History κ} {cur : NamespaceManager κ}
    (hc : h.Consistent cur) :
    (∀ k call, calls[k]? = some call → (h.run (calls.take k)).Linear call) ↔
      ∀ k call, calls[k]? = some call → (h.run (calls.take k)).InTurn call := by
  induction calls generalizing h cur with
  | nil => simp
  | cons call calls ih =>
    -- the first call, and the others from the state it leaves
    have hsplit : ∀ P : History κ → ReloadCall κ → Prop,
        (∀ k c, (call :: calls)[k]? = some c → P (h.run ((call :: calls).take k)) c) ↔
          P h call ∧ ∀ k c, calls[k]? = some c → P ((h.step call).run (calls.take k)) c := by
      intro P
      refine ⟨fun hall => ⟨hall 0 call rfl, fun k c hk => hall (k + 1) c hk⟩, fun ⟨hfirst, hrest⟩ k c hk => ?_⟩
      cases k with
      | zero =>
        cases hk
        exact hfirst
      | succ k => exact hrest k c hk
    rw [hsplit, hsplit]
    constructor
    · rintro ⟨hfirst, hrest⟩
      have hturn := hc.inTurn_of_linear hfirst
      obtain ⟨-, cur', hc'⟩ := hc.linear_of_inTurn hturn
      exact ⟨hturn, (ih hc').1 hrest⟩
    · rintro ⟨hturn, hrest⟩
      obtain ⟨hfirst, cur', hc'⟩ := hc.linear_of_inTurn hturn
      exact ⟨hfirst, (ih hc').2 hrest⟩

/-- From the start of the proxy, all calls are linear just when every commit that finds a preparation is for the name
that was prepared last, with no deletion in between. -/
theorem reloads_linear_iff (configs : List (Manager.Config κ)) (calls : List (ReloadCall κ)) :
    (∀ k call, calls[k]? = some call → ((start configs).run (calls.take k)).Linear call) ↔
      ∀ k call, calls[k]? = some call → ((start configs).run (calls.take k)).InTurn call :=
  linear_iff_of_consistent calls (consistent_start configs)

/-- Two preparations, and a commit of the first: the serving table still holds the object of `a` being closed. -/
theorem second_prepare_overtakes :
    let calls : List (ReloadCall Nat) := [.prepare ⟨"a", 1, true⟩, .prepare ⟨"b", 1, true⟩, .commit "a"]
    let before := (start [⟨"a", 0, true⟩, ⟨"b", 0, true⟩]).run (calls.take 2)
    let after := (start [⟨"a", 0, true⟩, ⟨"b", 0, true⟩]).run calls
    (ReloadCall.run before.manager (.commit "a")).1 = .ok () ∧
    before.lastPrepared "a" = some 1 ∧ after.manager.serving "a" = some ⟨0, "a", 0⟩ ∧
    after.manager.serving "b" ≠ before.manager.serving "b" ∧ ⟨0, "a", 0⟩ ∈ after.manager.closing := by
  decide +kernel

end History

/-! ### Other namespaces -/

def ReloadCall.name : ReloadCall κ → String
  | .prepare config => config.name
  | .commit name | .delete name => name

namespace Manager

/-- The serving table, and one that waits for its commit, have `ns` under the name. -/
def Keeps (name : String) (ns : Option (Namespace κ)) (m : Manager κ) : Prop :=
  m.current.map (· name) = some ns ∧ (m.reloadPrepared = true → (m.namespaces !m.switchIndex).map (· name) = some ns)

variable {name : String} {ns : Option (Namespace κ)} {m : Manager κ}

theorem Keeps.run (h : m.Keeps name ns) {call : ReloadCall κ} (hcall : call.name ≠ name) :
    (call.run m).2.Keeps name ns := by
  obtain ⟨cur, hcur, rfl⟩ := Option.map_eq_some_iff.1 h.1
  cases call with
  | prepare config =>
    have hupdate := Function.update_of_ne hcall.symm (some ⟨m.created, config.name, config.config⟩) cur
    simp only [ReloadCall.run, reloadNamespacePrepare, hcur]
    split
    · simp_all [Keeps, setOther, current, ReloadCall.name]
    · exact h
  | commit =>
    simp only [ReloadCall.run, reloadNamespaceCommit, hcur]
    split
    · next hprepared =>
      obtain ⟨next, hnext, hname⟩ := Option.map_eq_some_iff.1 (h.2 hprepared)
      simp [Keeps, current, hnext, hname]
    · exact h
  | delete =>
    have hupdate := Function.update_of_ne hcall.symm none cur
    simp only [ReloadCall.run, deleteNamespace, hcur]
    split
    · exact h
    · simp_all [Keeps, setOther, current, ReloadCall.name]

/-- Calls for other namespaces, in whatever order and also such that fail, leave the object of a namespace in service,
if nothing is prepared when they begin. -/
theorem serving_of_other_calls (hcur : m.current.isSome) (hidle : m.reloadPrepared = false)
    {calls : List (ReloadCall κ)} (hcalls : ∀ call ∈ calls, call.name ≠ name) :
    (calls.foldl (fun m call => (call.run m).2) m).serving name = m.serving name := by
  obtain ⟨cur, hcur⟩ := Option.isSome_iff_exists.1 hcur
  have hstart : m.Keeps name (cur name) := by simp [Keeps, hcur, hidle]
  have hend : Keeps name (cur name) (calls.foldl (fun m call => (call.run m).2) m) :=
    List.foldlRecOn calls _ hstart fun m h call hcall => h.run (hcalls call hcall)
  obtain ⟨cur', hcur', hname⟩ := Option.map_eq_some_iff.1 hend.1
  rw [serving, serving, hcur, hcur', Option.bind_some, Option.bind_some, hname]

theorem serving_of_other_calls_two :
    ([.prepare ⟨"b", 1, true⟩, .delete "b", .commit "c"].foldl (fun m call => (ReloadCall.run m call).2)
      (createManager [⟨"a", 0, true⟩, ⟨"b", 0, true⟩])).serving "a" = some ⟨0, "a", 0⟩ :=
  serving_of_other_calls rfl rfl (by decide)

end Manager

end DbProxy
