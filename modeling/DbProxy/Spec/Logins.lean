import Mathlib.Data.List.Nodup
import DbProxy.Server.Users

/-!
# Logins

The users of all namespaces are followed through any sequence of operations on a user manager (`configured`).  While
no user name and no password holds a colon, the keys of the manager can be taken apart again, and the two maps of the
manager hold what is configured (`UserManager.Holds`).  The handshake then accepts just the configured users.
-/

namespace DbProxy

open List

/-! ### Keys -/

theorem getUserAndPasswordFromKey_getUserKey {username password : GoString} (hu : 58 ∉ username)
    (hp : 58 ∉ password) : getUserAndPasswordFromKey (getUserKey username password) = some (username, password) := by
  have hsplit : (getUserKey username password).splitOn 58 = [username, password] := by
    unfold getUserKey
    rw [splitOn_append_cons_self_of_not_mem hu, splitOn_eq_singleton hp]
  unfold getUserAndPasswordFromKey
  rw [hsplit]

/-! ### What is configured -/

def NamespaceUsers.entries (ns : NamespaceUsers) : List (String × User) := ns.users.map fun user => (ns.name, user)

inductive UserOp where
  | clone (rangeKeys : MapRange (GoString × String)) (rangeUsers : MapRange (GoString × List GoString))
  | rebuild (range : MapRange (GoString × String)) (ns : NamespaceUsers)
  | clear (range : MapRange (GoString × String)) (name : String)

namespace UserOp

def apply (u : UserManager) : UserOp → Option UserManager
  | clone rangeKeys rangeUsers => some (u.cloneUserManager rangeKeys rangeUsers)
  | rebuild range ns => u.rebuildNamespaceUsers range ns
  | clear range name => u.clearNamespaceUsers range name

/-- What is configured after the operation: the namespace that is rebuilt or cleared is replaced. -/
def configure (entries : List (String × User)) : UserOp → List (String × User)
  | clone _ _ => entries
  | rebuild _ ns => entries.filter (·.1 ≠ ns.name) ++ ns.entries
  | clear _ name => entries.filter (·.1 ≠ name)

def target : UserOp → Option String
  | clone _ _ => none
  | rebuild _ ns => some ns.name
  | clear _ name => some name

end UserOp

def UserManager.run (u : UserManager) (ops : List UserOp) : Option UserManager := ops.foldlM UserOp.apply u

/-- The users of each namespace after the operations on the manager that was created for `namespaces`. -/
def configured (namespaces : List NamespaceUsers) (ops : List UserOp) : List (String × User) :=
  ops.foldl UserOp.configure (namespaces.flatMap NamespaceUsers.entries)

/-- The users of all namespaces differ in their name or their password. -/
def Distinct (entries : List (String × User)) : Prop := (entries.map Prod.snd).Nodup

def ColonFree (entries : List (String × User)) : Prop := ∀ e ∈ entries, 58 ∉ e.2.userName ∧ 58 ∉ e.2.password

theorem Distinct.eq_of_snd {entries : List (String × User)} (h : Distinct entries) {e e' : String × User}
    (he : e ∈ entries) (he' : e' ∈ entries) (heq : e.2 = e'.2) : e = e' :=
  inj_on_of_nodup_map h he he' heq

theorem Distinct.nodup {entries : List (String × User)} (h : Distinct entries) : entries.Nodup := h.of_map _

def keyEntry (e : String × User) : GoString × String := (getUserKey e.2.userName e.2.password, e.1)

theorem ColonFree.eq_of_keyEntry {entries : List (String × User)} (h : ColonFree entries) (e e' : String × User)
    (he : e ∈ entries) (he' : e' ∈ entries) (heq : (keyEntry e).1 = (keyEntry e').1) : e.2 = e'.2 := by
  have hread := getUserAndPasswordFromKey_getUserKey (h e he).1 (h e he).2
  have hread' := getUserAndPasswordFromKey_getUserKey (h e' he').1 (h e' he').2
  have hkeys : getUserKey e.2.userName e.2.password = getUserKey e'.2.userName e'.2.password := heq
  rw [hkeys, hread', Option.some.injEq, Prod.mk.injEq] at hread
  obtain ⟨_, name, password⟩ := e
  obtain ⟨_, name', password'⟩ := e'
  exact (User.mk.injEq ..).mpr ⟨hread.1.symm, hread.2.symm⟩

theorem Distinct.sublist {entries entries' : List (String × User)} (h : Distinct entries)
    (hs : entries'.Sublist entries) : Distinct entries' := Nodup.sublist (hs.map _) h

theorem ColonFree.subset {entries entries' : List (String × User)} (h : ColonFree entries) (hs : entries' ⊆ entries) :
    ColonFree entries' := fun e he => h e (hs he)

/-! ### The maps of the manager -/

namespace UserManager

variable {u : UserManager} {name : String} {password : GoString} {passwords s : List GoString} {is : List Nat}
  {e : String × User} {entries : List (String × User)}

structure Holds (u : UserManager) (entries : List (String × User)) : Prop where
  keys : u.userNamespaces.Perm (entries.map keyEntry)
  nodup : (AssocMap.keys u.users).Nodup
  passwords : ∀ name, (u.users.getD name).Perm ((entries.filter (·.2.userName = name)).map (·.2.password))

theorem holds_nil : Holds {} [] := ⟨Perm.refl _, nodup_nil, fun _ => Perm.refl _⟩

theorem Holds.addUser (h : u.Holds entries) {user : User}
    (hd : Distinct (entries ++ [(name, user)])) (hc : ColonFree (entries ++ [(name, user)])) :
    (u.addUser name user).Holds (entries ++ [(name, user)]) := by
  refine ⟨?_, AssocMap.nodup_keys_set h.nodup _ _, fun username => ?_⟩
  · -- the key of the user is not there yet
    have hnew : u.userNamespaces.get (getUserKey user.userName user.password) = none := by
      by_contra hget
      obtain ⟨ns, hns⟩ := Option.ne_none_iff_exists'.1 hget
      obtain ⟨e, he, hkey⟩ := mem_map.1 (h.keys.mem_iff.1 (AssocMap.mem_of_get hns))
      have hsame : e.2 = user :=
        hc.eq_of_keyEntry e (name, user) (mem_append_left _ he) (by simp) (by rw [hkey]; rfl)
      have hnot : user ∉ entries.map Prod.snd := by
        have hd' : (entries.map Prod.snd ++ [user]).Nodup := by simpa [Distinct] using hd
        exact fun hmem => disjoint_of_nodup_append hd' hmem (by simp)
      exact hnot (mem_map.2 ⟨e, he, hsame⟩)
    show (u.userNamespaces.set _ _).Perm _
    rw [AssocMap.set_of_get_eq_none hnew, map_append]
    exact h.keys.append_right _
  · show ((u.users.push user.userName user.password).getD username).Perm _
    rw [AssocMap.getD_push]
    by_cases hname : user.userName = username
    · simpa [hname] using (h.passwords username).append_right [user.password]
    · simpa [hname] using h.passwords username

theorem Holds.addUsers (users : List User)
    (h : u.Holds entries) (hd : Distinct (entries ++ users.map fun user => (name, user)))
    (hc : ColonFree (entries ++ users.map fun user => (name, user))) :
    (users.foldl (fun u user => u.addUser name user) u).Holds (entries ++ users.map fun user => (name, user)) := by
  induction users generalizing u entries with
  | nil => simpa using h
  | cons user users ih =>
    have hone : (entries ++ [(name, user)]).Sublist (entries ++ (user :: users).map fun user => (name, user)) := by
      simp
    have happend : entries ++ (user :: users).map (fun user => (name, user)) =
        (entries ++ [(name, user)]) ++ users.map fun user => (name, user) := by simp
    have hadd := h.addUser (hd.sublist hone) (hc.subset hone.subset)
    rw [happend] at hd hc ⊢
    exact ih hadd hd hc

theorem Holds.addNamespaceUsers (h : u.Holds entries)
    {ns : NamespaceUsers} (hd : Distinct (entries ++ ns.entries)) (hc : ColonFree (entries ++ ns.entries)) :
    (u.addNamespaceUsers ns).Holds (entries ++ ns.entries) := h.addUsers ns.users hd hc

theorem holds_createUserManager {namespaces : List NamespaceUsers}
    (hd : Distinct (namespaces.flatMap NamespaceUsers.entries))
    (hc : ColonFree (namespaces.flatMap NamespaceUsers.entries)) :
    (createUserManager namespaces).Holds (namespaces.flatMap NamespaceUsers.entries) := by
  have hadd : ∀ (namespaces : List NamespaceUsers) {u : UserManager} {entries : List (String × User)},
    u.Holds entries → Distinct (entries ++ namespaces.flatMap NamespaceUsers.entries) →
      ColonFree (entries ++ namespaces.flatMap NamespaceUsers.entries) →
      (namespaces.foldl UserManager.addNamespaceUsers u).Holds
      (entries ++ namespaces.flatMap NamespaceUsers.entries) := by
    intro namespaces
    induction namespaces with
    | nil => intro u entries h _ _; simpa using h
    | cons ns namespaces ih =>
      intro u entries h hd hc
      rw [flatMap_cons, ← append_assoc] at hd hc ⊢
      have hone := sublist_append_left (entries ++ ns.entries) (namespaces.flatMap NamespaceUsers.entries)
      exact ih (h.addNamespaceUsers (hd.sublist hone) (hc.subset hone.subset)) hd hc
  exact hadd namespaces holds_nil hd hc

theorem Holds.nodup_keys (h : u.Holds entries) (hd : Distinct entries)
    (hc : ColonFree entries) : (AssocMap.keys u.userNamespaces).Nodup := by
  refine (h.keys.map Prod.fst).nodup_iff.2 ?_
  rw [map_map]
  refine Nodup.map_on (fun e he e' he' heq => ?_) hd.nodup
  exact hd.eq_of_snd he he' (hc.eq_of_keyEntry e e' he he' heq)

theorem Holds.clone (h : u.Holds entries) (hd : Distinct entries)
    (hc : ColonFree entries) (rangeKeys : MapRange (GoString × String))
    (rangeUsers : MapRange (GoString × List GoString)) : (u.cloneUserManager rangeKeys rangeUsers).Holds entries := by
  have hcopy : (u.cloneUserManager rangeKeys rangeUsers).userNamespaces = rangeKeys.order u.userNamespaces :=
    AssocMap.foldl_set_eq_append _ [] (((rangeKeys.perm _).map Prod.fst).nodup_iff.2 (h.nodup_keys hd hc))
  have hnodup : (AssocMap.keys (rangeUsers.order u.users)).Nodup :=
    ((rangeUsers.perm _).map Prod.fst).nodup_iff.2 h.nodup
  have husers : (u.cloneUserManager rangeKeys rangeUsers).users = rangeUsers.order u.users :=
    AssocMap.foldl_set_eq_append _ [] hnodup
  refine ⟨hcopy ▸ (rangeKeys.perm _).trans h.keys, husers ▸ hnodup, fun name => ?_⟩
  have hget : AssocMap.getD (rangeUsers.order u.users) name = u.users.getD name := by
    unfold AssocMap.getD
    rw [AssocMap.get_eq_of_perm hnodup (rangeUsers.perm _)]
  rw [husers, hget]
  exact h.passwords name

/-! ### Clearing a namespace -/

theorem removeFrom_of_ne (h : ∀ i ∈ is, passwords[i]? ≠ some password) : removeFrom password passwords s is = s := by
  induction is with
  | nil => rfl
  | cons i is ih =>
    unfold removeFrom
    rw [if_neg (h i mem_cons_self), ih fun j hj => h j (mem_cons_of_mem i hj)]

theorem removeFrom_append {js : List Nat} (h : ∀ i ∈ is, passwords[i]? ≠ some password) :
    removeFrom password passwords s (is ++ js) = removeFrom password passwords s js := by
  induction is with
  | nil => rfl
  | cons i is ih =>
    rw [cons_append, removeFrom, if_neg (h i mem_cons_self), ih fun j hj => h j (mem_cons_of_mem i hj)]

/-- A password that occurs once is taken out.  Behind it the loop meets entries that have moved to the left, and the
last one a second time. -/
theorem removePassword_of_nodup (hnd : passwords.Nodup)
    (h : password ∈ passwords) : removePassword passwords password = passwords.filter (· ≠ password) := by
  obtain ⟨l, r, rfl⟩ := append_of_mem h
  obtain ⟨hl, hr⟩ : password ∉ l ∧ password ∉ r := by
    have := nodup_middle.1 hnd
    simp_all
  have hrange : range (l ++ password :: r).length =
      range l.length ++ (l.length :: (range r.length).map (l.length + 1 + ·)) := by
    rw [length_append, length_cons, range_add, range_succ_eq_map, map_cons, map_map]
    congr 2
    exact map_congr_left fun i _ => by simp; omega
  have hfirst : ∀ i ∈ range l.length, (l ++ password :: r)[i]? ≠ some password := by
    intro i hi heq
    rw [getElem?_append_left (mem_range.1 hi)] at heq
    exact hl (mem_of_getElem? heq)
  have hcut : (l ++ password :: r).take l.length ++ (l ++ password :: r).drop (l.length + 1) = l ++ r := by simp
  have hfilter : (l ++ password :: r).filter (· ≠ password) = l ++ r := by
    rw [filter_append, filter_cons]
    simp only [ne_eq, not_true_eq_false, decide_false, Bool.false_eq_true, if_false]
    rw [filter_eq_self.2 fun x hx => by simpa using fun e : x = password => hl (e ▸ hx),
      filter_eq_self.2 fun x hx => by simpa using fun e : x = password => hr (e ▸ hx)]
  unfold removePassword
  rw [hrange, removeFrom_append hfirst, removeFrom, if_pos (by simp), hcut, hfilter]
  refine removeFrom_of_ne fun i hi heq => ?_
  -- there is a position behind the password, so that the last entry is another one
  obtain ⟨j, hj, rfl⟩ := mem_map.1 hi
  have hlast : (l ++ password :: r).drop ((l ++ password :: r).length - 1) ⊆ r := by
    intro x hx
    have hlen : (l ++ password :: r).length - 1 = (l ++ [password]).length + (r.length - 1) := by
      have := mem_range.1 hj
      simp
      omega
    have hsplit : l ++ password :: r = (l ++ [password]) ++ r := by simp
    rw [hlen, hsplit, drop_length_add_append] at hx
    exact mem_of_mem_drop hx
  have hmem := mem_of_getElem? heq
  rcases mem_append.1 hmem with hmem | hmem
  · exact (mem_append.1 hmem).elim hl hr
  · exact hr (hlast hmem)

theorem Holds.clearKey (h : u.Holds entries) (hd : Distinct entries)
    (hc : ColonFree entries) (he : e ∈ entries) :
    ∃ u', u.clearKey (keyEntry e).1 = some u' ∧ u'.Holds (entries.filter (· ≠ e)) := by
  have hread := getUserAndPasswordFromKey_getUserKey (hc e he).1 (hc e he).2
  refine ⟨_, Option.bind_eq_some_iff.2 ⟨_, hread, rfl⟩, ?_, AssocMap.nodup_keys_set h.nodup _ _, fun name => ?_⟩
  · have hothers : (entries.map keyEntry).filter (fun k => k.1 ≠ (keyEntry e).1) = (entries.filter (· ≠ e)).map
        keyEntry := by
      rw [filter_map]
      congr 1
      refine filter_congr fun e' he' => ?_
      have hiff : (keyEntry e').1 = (keyEntry e).1 ↔ e' = e :=
        ⟨fun heq => hd.eq_of_snd he' he (hc.eq_of_keyEntry e' e he' he heq), fun heq => by rw [heq]⟩
      simp [hiff]
    exact hothers ▸ h.keys.filter _
  · show (AssocMap.getD (u.users.set _ _) name).Perm _
    rw [AssocMap.getD, AssocMap.get_set]
    have hone : ∀ e' ∈ entries, e'.2.userName = e.2.userName → (e'.2.password = e.2.password ↔ e' = e) := by
      intro e' he' hname
      refine ⟨fun hpw => hd.eq_of_snd he' he ?_, fun heq => by rw [heq]⟩
      obtain ⟨_, name, password⟩ := e
      obtain ⟨_, name', password'⟩ := e'
      exact (User.mk.injEq ..).mpr ⟨hname, hpw⟩
    by_cases hname : e.2.userName = name
    · subst hname
      have hnd : (u.users.getD e.2.userName).Nodup := by
        refine (h.passwords _).nodup_iff.2 (Nodup.map_on (fun a ha b hb heq => ?_) (hd.nodup.filter _))
        obtain ⟨ha, haname⟩ := mem_filter.1 ha
        obtain ⟨hb, hbname⟩ := mem_filter.1 hb
        refine hd.eq_of_snd ha hb ?_
        obtain ⟨_, name, password⟩ := a
        obtain ⟨_, name', password'⟩ := b
        exact (User.mk.injEq ..).mpr ⟨(of_decide_eq_true haname).trans (of_decide_eq_true hbname).symm, heq⟩
      have hmem : e.2.password ∈ u.users.getD e.2.userName :=
        (h.passwords _).mem_iff.2 (mem_map.2 ⟨e, mem_filter.2 ⟨he, by simp⟩, rfl⟩)
      rw [if_pos rfl, Option.getD_some, removePassword_of_nodup hnd hmem]
      refine ((h.passwords _).filter _).trans (Perm.of_eq ?_)
      rw [filter_map, filter_filter, filter_filter]
      congr 1
      refine filter_congr fun e' he' => ?_
      by_cases hsame : e'.2.userName = e.2.userName
      · have := hone e' he' hsame
        simp [hsame, this]
      · simp [hsame]
    · rw [if_neg hname]
      refine (h.passwords name).trans (Perm.of_eq ?_)
      rw [filter_filter]
      congr 1
      refine filter_congr fun e' _ => ?_
      have hne : e'.2.userName = name → e' ≠ e := fun hsame heq => hname (heq ▸ hsame)
      by_cases hsame : e'.2.userName = name
      · simp [hsame, hne hsame]
      · simp [hsame]

theorem Holds.clearKeys (name : String) (es : List (String × User))
    (h : u.Holds entries) (hd : Distinct entries) (hc : ColonFree entries) (hes : ∀ e ∈ es, e ∈ entries)
    (hnd : es.Nodup) :
    ∃ u', u.clearKeys name (es.map keyEntry) = some u' ∧
    u'.Holds (entries.filter fun e => ¬(e.1 = name ∧ e ∈ es)) := by
  induction es generalizing u entries with
  | nil => exact ⟨u, rfl, by simpa using h⟩
  | cons e es ih =>
    obtain ⟨he, hnd⟩ := nodup_cons.1 hnd
    rw [map_cons]
    unfold UserManager.clearKeys keyEntry
    by_cases hname : e.1 = name
    · obtain ⟨u', hu', hholds⟩ := h.clearKey hd hc (hes e mem_cons_self)
      have hsub : (entries.filter (· ≠ e)).Sublist entries := filter_sublist
      have hes' : ∀ e' ∈ es, e' ∈ entries.filter (· ≠ e) := fun e' he' =>
        mem_filter.2 ⟨hes e' (mem_cons_of_mem e he'), by simpa using fun heq : e' = e => he (heq ▸ he')⟩
      obtain ⟨u'', hu'', hrest⟩ := ih hholds (hd.sublist hsub) (hc.subset hsub.subset) hes' hnd
      refine ⟨u'', ?_, ?_⟩
      · rw [if_pos hname]
        exact Option.bind_eq_some_iff.2 ⟨u', hu', hu''⟩
      · rw [filter_filter] at hrest
        convert hrest using 2
        funext e'
        by_cases heq : e' = e
        · simp [heq, hname]
        · simp [heq]
    · obtain ⟨u', hu', hholds⟩ := ih h hd hc (fun e' he' => hes e' (mem_cons_of_mem e he')) hnd
      refine ⟨u', by rw [if_neg hname]; exact hu', ?_⟩
      convert hholds using 2
      funext e'
      by_cases heq : e' = e
      · simp [heq, hname]
      · simp [heq]

theorem Holds.clearNamespaceUsers (h : u.Holds entries)
    (hd : Distinct entries) (hc : ColonFree entries) (range : MapRange (GoString × String)) (name : String) :
    ∃ u', u.clearNamespaceUsers range name = some u' ∧ u'.Holds (entries.filter (·.1 ≠ name)) := by
  -- the range goes over the keys of the entries in some order
  obtain ⟨es, hperm, hkeys⟩ : ∃ es : List (String × User), es.Perm entries ∧
      es.map keyEntry = range.order u.userNamespaces := by
    have hsame : Forall₂ (fun e k => keyEntry e = k) entries (entries.map keyEntry) :=
      forall₂_map_right_iff.2 (forall₂_same.2 fun _ _ => rfl)
    obtain ⟨es, hperm, heq⟩ := Fallible.exists_perm_of_forall₂ hsame ((range.perm _).trans h.keys)
    exact ⟨es, hperm, forall₂_eq_eq_eq ▸ forall₂_map_left_iff.2 heq⟩
  obtain ⟨u', hu', hholds⟩ := h.clearKeys name es hd hc (fun e he => hperm.subset he) (hperm.nodup_iff.2 hd.nodup)
  refine ⟨u', by rw [UserManager.clearNamespaceUsers, ← hkeys]; exact hu', ?_⟩
  convert hholds using 1
  refine filter_congr fun e he => ?_
  simp [hperm.mem_iff.2 he]

theorem Holds.apply (h : u.Holds entries) (op : UserOp)
    (hd : Distinct entries) (hc : ColonFree entries) (hd' : Distinct (op.configure entries))
    (hc' : ColonFree (op.configure entries)) : ∃ u', op.apply u = some u' ∧ u'.Holds (op.configure entries) := by
  cases op with
  | clone rangeKeys rangeUsers => exact ⟨_, rfl, h.clone hd hc rangeKeys rangeUsers⟩
  | clear range name => exact h.clearNamespaceUsers hd hc range name
  | rebuild range ns =>
    obtain ⟨u', hu', hholds⟩ := h.clearNamespaceUsers hd hc range ns.name
    exact ⟨_, Option.bind_eq_some_iff.2 ⟨u', hu', rfl⟩, hholds.addNamespaceUsers hd' hc'⟩

/-- The manager holds what is configured, throughout a run. -/
theorem Holds.run (ops : List UserOp) (h : u.Holds entries)
    (hd : ∀ k, Distinct ((ops.take k).foldl UserOp.configure entries))
    (hc : ∀ k, ColonFree ((ops.take k).foldl UserOp.configure entries)) :
    ∃ u', u.run ops = some u' ∧ u'.Holds (ops.foldl UserOp.configure entries) := by
  induction ops generalizing u entries with
  | nil => exact ⟨u, rfl, h⟩
  | cons op ops ih =>
    obtain ⟨u', hu', hholds⟩ := h.apply op (hd 0) (hc 0) (hd 1) (hc 1)
    obtain ⟨u'', hu'', hrun⟩ := ih hholds (fun k => hd (k + 1)) (fun k => hc (k + 1))
    exact ⟨u'', Option.bind_eq_some_iff.2 ⟨u', hu', hu''⟩, hrun⟩

/-! ### The handshake -/

theorem Holds.getNamespaceByUser (h : u.Holds entries)
    (hd : Distinct entries) (hc : ColonFree entries) (he : e ∈ entries) :
    u.getNamespaceByUser e.2.userName e.2.password = e.1 := by
  have hget : u.userNamespaces.get (getUserKey e.2.userName e.2.password) = some e.1 :=
    (AssocMap.get_eq_some_iff (h.nodup_keys hd hc)).2 (h.keys.mem_iff.2 (mem_map.2 ⟨e, he, rfl⟩))
  rw [UserManager.getNamespaceByUser, hget, Option.getD_some]

end UserManager

/-- A client with this handshake is let in and belongs to the namespace. -/
def LogsIn (calcPassword : GoString → GoString → GoString) (u : UserManager) (info : HandshakeResponseInfo)
    (name : String) :
    Prop := ∃ handshake, handleHandshakeResponse calcPassword u info = .ok handshake ∧ handshake.namespaceName = name

/-- The client sends a collation the proxy knows and the scrambled `password`, and no other password that is
configured for its user looks the same after scrambling. -/
structure Presents (calcPassword : GoString → GoString → GoString) (info : HandshakeResponseInfo)
    (password : GoString) (entries : List (String × User)) : Prop where
  collation : ((collations info.collationID).bind collationNameToCharset).isSome
  auth : info.authResponse = calcPassword info.salt password
  noCollision : ∀ e ∈ entries, e.2.userName = info.user → info.authResponse = calcPassword info.salt e.2.password →
    e.2.password = password

theorem logsIn_iff_of_holds {calcPassword : GoString → GoString → GoString} {u : UserManager}
    {entries : List (String × User)} (h : u.Holds entries) (hd : Distinct entries) (hc : ColonFree entries)
    {info : HandshakeResponseInfo} {password : GoString} (hp : Presents calcPassword info password entries)
    (name : String) : LogsIn calcPassword u info name ↔ (name, ⟨info.user, password⟩) ∈ entries := by
  have hmem : ∀ pw, pw ∈ u.users.getD info.user ↔ ∃ name, (name, ⟨info.user, pw⟩) ∈ entries := by
    intro pw
    rw [(h.passwords info.user).mem_iff, mem_map]
    constructor
    · rintro ⟨⟨ns, username, password⟩, he, rfl⟩
      obtain ⟨he, hname⟩ := mem_filter.1 he
      cases of_decide_eq_true hname
      exact ⟨ns, he⟩
    · rintro ⟨ns, he⟩
      exact ⟨_, mem_filter.2 ⟨he, by simp⟩, rfl⟩
  have hfind : ∀ pw, u.checkPassword calcPassword info.user info.salt info.authResponse = some pw →
      pw = password := by
    intro pw hpw
    obtain ⟨ns, he⟩ := (hmem pw).1 (mem_of_find?_eq_some hpw)
    exact hp.noCollision _ he rfl (by simpa using find?_some hpw)
  obtain ⟨charset, hcharset⟩ := Option.isSome_iff_exists.1 hp.collation
  obtain ⟨collationName, hname, hcharset⟩ := Option.bind_eq_some_iff.1 hcharset
  unfold LogsIn handleHandshakeResponse
  constructor
  · rintro ⟨handshake, hok, rfl⟩
    split at hok
    · cases hok
    · cases hcheck : u.checkPassword calcPassword info.user info.salt info.authResponse with
      | none =>
        rw [hcheck] at hok
        cases hok
      | some pw =>
        obtain rfl := hfind pw hcheck
        obtain ⟨ns, he⟩ := (hmem pw).1 (mem_of_find?_eq_some hcheck)
        rw [hcheck] at hok
        simp only [hname, hcharset] at hok
        cases hok
        have hns := h.getNamespaceByUser hd hc he
        simpa [hns] using he
  · intro he
    have hin := (hmem password).2 ⟨name, he⟩
    have hcheck : u.checkPassword calcPassword info.user info.salt info.authResponse = some password := by
      cases hcheck : u.checkPassword calcPassword info.user info.salt info.authResponse with
      | none => exact absurd (find?_eq_none.1 hcheck password hin) (by simpa using hp.auth)
      | some pw => rw [hfind pw hcheck]
    have huser : u.checkUser info.user = true := by
      cases hget : u.users.get info.user with
      | none => simp [AssocMap.getD, hget] at hin
      | some passwords => simp [UserManager.checkUser, hget]
    rw [huser, hcheck]
    simp only [hname, hcharset]
    exact ⟨_, rfl, h.getNamespaceByUser hd hc he⟩

/-- In every state of a run a client is let in with a name and a password and belongs to a namespace just when they
are configured there, as long as no name and no password holds a colon.  An operation on one namespace leaves the
clients of the others alone. -/
theorem logsIn_iff_configured (calcPassword : GoString → GoString → GoString) (namespaces : List NamespaceUsers)
    (ops : List UserOp) (hdistinct : ∀ k, Distinct (configured namespaces (ops.take k)))
    (hcolon : ∀ k, ColonFree (configured namespaces (ops.take k))) :
    (∀ k, ∃ u, (UserManager.createUserManager namespaces).run (ops.take k) = some u ∧
      ∀ info password, Presents calcPassword info password (configured namespaces (ops.take k)) → ∀ name,
        (LogsIn calcPassword u info name ↔ (name, ⟨info.user, password⟩) ∈ configured namespaces (ops.take k))) ∧
    ∀ k op u u', ops[k]? = some op → (UserManager.createUserManager namespaces).run (ops.take k) = some u →
      (UserManager.createUserManager namespaces).run (ops.take (k + 1)) = some u' →
      ∀ info password, Presents calcPassword info password (configured namespaces (ops.take k)) →
        Presents calcPassword info password (configured namespaces (ops.take (k + 1))) →
        ∀ name, op.target ≠ some name → (LogsIn calcPassword u info name ↔ LogsIn calcPassword u' info name) := by
  have hholds : ∀ k, ∃ u, (UserManager.createUserManager namespaces).run (ops.take k) = some u ∧
      u.Holds (configured namespaces (ops.take k)) := by
    intro k
    refine (UserManager.holds_createUserManager (hdistinct 0) (hcolon 0)).run (ops.take k) (fun j => ?_) fun j => ?_
    · rw [take_take]
      exact hdistinct _
    · rw [take_take]
      exact hcolon _
  refine ⟨fun k => ?_, ?_⟩
  · obtain ⟨u, hu, h⟩ := hholds k
    exact ⟨u, hu, fun info password hp name => logsIn_iff_of_holds h (hdistinct k) (hcolon k) hp name⟩
  · intro k op u u' hop hu hu' info password hp hp' name htarget
    obtain ⟨v, hv, h⟩ := hholds k
    obtain ⟨v', hv', h'⟩ := hholds (k + 1)
    cases hu.symm.trans hv
    cases hu'.symm.trans hv'
    rw [logsIn_iff_of_holds h (hdistinct k) (hcolon k) hp, logsIn_iff_of_holds h' (hdistinct _) (hcolon _) hp']
    have hnext : configured namespaces (ops.take (k + 1)) = op.configure (configured namespaces (ops.take k)) := by
      rw [take_add_one, hop, Option.toList_some, configured, foldl_append]
      rfl
    rw [hnext]
    cases op with
    | clone => rfl
    | clear range ns =>
      have hne : name ≠ ns := fun heq => htarget (by rw [heq]; rfl)
      simp [UserOp.configure, hne]
    | rebuild range ns =>
      have hne : name ≠ ns.name := fun heq => htarget (by rw [heq]; rfl)
      have hother : (name, (⟨info.user, password⟩ : User)) ∉ ns.entries := by simp [NamespaceUsers.entries, hne.symm]
      simp [UserOp.configure, hne, hother]

/-- Two namespaces with the same user name and one password each, and a client that sends `password` as it is. -/
def twoNamespaces (password password' : GoString) : List NamespaceUsers :=
  [⟨"a", [⟨ascii "u", password⟩]⟩, ⟨"b", [⟨ascii "u", password'⟩]⟩]

def plainClient (password : GoString) : HandshakeResponseInfo :=
  { user := ascii "u", salt := [], authResponse := password, collationID := 33, database := "" }

theorem configured_twoNamespaces (password password' : GoString) (k : Nat) :
    configured (twoNamespaces password password') ([UserOp.clear (.inOrder _) "a"].take k) =
      if k = 0 then [("a", ⟨ascii "u", password⟩), ("b", ⟨ascii "u", password'⟩)]
        else [("b", ⟨ascii "u", password'⟩)] := by
  cases k with
  | zero => rfl
  | succ k => simp [configured, twoNamespaces, NamespaceUsers.entries, UserOp.configure]

/-- A digest of twenty bytes. -/
def checksum (data : GoString) : GoString :=
  (range 20).map fun i => data.foldl (fun sum b => sum * 31 + b) (UInt8.ofNat i)

theorem logsIn_iff_configured_after_delete :
    let client := { plainClient (calcPassword checksum (ascii "salt") (ascii "b")) with salt := ascii "salt" }
    ∃ u, (UserManager.createUserManager (twoNamespaces (ascii "a") (ascii "b"))).run
      [.clear (.inOrder _) "a"] = some u ∧
      LogsIn (calcPassword checksum) u client "b" ∧ ¬LogsIn (calcPassword checksum) u client "a" := by
  intro client
  have hstates := configured_twoNamespaces (ascii "a") (ascii "b")
  have hrun := logsIn_iff_configured (calcPassword checksum) (twoNamespaces (ascii "a") (ascii "b"))
    [.clear (.inOrder _) "a"]
    (fun k => by rw [hstates]; split <;> unfold Distinct <;> decide)
    (fun k => by rw [hstates]; split <;> unfold ColonFree <;> decide)
  obtain ⟨u, hu, hiff⟩ := hrun.1 1
  have hpresents : Presents (calcPassword checksum) client (ascii "b")
      (configured (twoNamespaces (ascii "a") (ascii "b")) ([UserOp.clear (.inOrder _) "a"].take 1)) := by
    refine ⟨by decide +kernel, rfl, ?_⟩
    rw [hstates]
    decide +kernel
  refine ⟨u, hu, (hiff _ _ hpresents "b").2 (by rw [hstates]; decide), fun hlogs => ?_⟩
  have hmem := (hiff _ _ hpresents "a").1 hlogs
  rw [hstates] at hmem
  exact absurd hmem (by decide)

/-- With the password `a:b` in the namespace `a`, deleting `a` takes the password of the same user in `b` away: the
key `u:a:b` is read as the name `u` and the password `a`, which is not found. -/
theorem colon_locks_out : ∃ u,
    (UserManager.createUserManager (twoNamespaces (ascii "a:b") (ascii "b"))).run [.clear (.inOrder _) "a"] = some u ∧
    (∀ k, Distinct (configured (twoNamespaces (ascii "a:b") (ascii "b")) ([UserOp.clear (.inOrder _) "a"].take k))) ∧
    ("b", ⟨ascii "u", ascii "b"⟩) ∈ configured (twoNamespaces (ascii "a:b") (ascii "b")) [.clear (.inOrder _) "a"] ∧
    ∀ calcPassword salt, ¬LogsIn calcPassword u { plainClient (calcPassword salt (ascii "b")) with salt } "b" := by
  refine ⟨⟨[(ascii "u", [])], [(ascii "u:b", "b")]⟩, by decide +kernel, fun k => ?_, ?_, fun calcPassword salt => ?_⟩
  · rw [configured_twoNamespaces]
    split <;> unfold Distinct <;> decide
  · decide
  · rintro ⟨handshake, hok, -⟩
    cases hok

end DbProxy
