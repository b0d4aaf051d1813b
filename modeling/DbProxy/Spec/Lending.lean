import DbProxy.Backend.TransactionServer
import DbProxy.Spec.Attached
import Mathlib.Data.List.Count
import Mathlib.Data.List.ReduceOption

/-!
# Connections in and out of their pools

A connection is in its pool, at rest, or it is lent; never both.  What is lent comes back through `Recycle`, which
finds room for it, and which puts a connection back only after a rollback and in autocommit mode, as far as the last
status tells.
-/

namespace DbProxy

open Effect DirectConnection List

section Reset

variable {ι σ : Type} {server : TransactionServer ι σ}

theorem TransactionServer.tracks (server : TransactionServer ι σ) : server.Tracks server.Synced where
  opened h := .of_flags (server.flags_of_opened h)
  query {p status} i sql h := by
    cases hstatus : (server.query i sql p).2.status with
    | none => exact h.of_silent (server.silent_query hstatus)
    | some status' => exact .of_query hstatus
  initDB i db h := h.of_silent (server.silent_initDB i db _)
  fieldList i table wildcard h := h.of_silent (server.silent_fieldList i table wildcard _)

structure DirectConnection.AtRest (server : TransactionServer ι σ) (dc : DirectConnection σ) : Prop where
  known : dc.Known server.Synced
  opened : dc.closed = false
  notInTrans : dc.isInTransaction = false
  autocommit : dc.isAutoCommit = true

theorem DirectConnection.AtRest.session {dc : DirectConnection σ} (h : dc.AtRest server) {c : Conn σ} {p : σ}
    (hc : dc.conn = some c) (hp : c.peer = some p) : server.inTrans p = false ∧ server.autocommit p = true := by
  have hsynced := h.known.session h.opened c p hc hp
  have hauto : server.autocommit p = true := hsynced.autocommit.1 (of_decide_eq_true h.autocommit)
  refine ⟨?_, hauto⟩
  by_contra hp
  rw [Bool.not_eq_false] at hp
  rcases hsynced.inTrans hp with hbit | hoff
  · exact absurd hbit (of_decide_eq_false h.notInTrans)
  · rw [hauto] at hoff
    cases hoff

theorem DirectConnection.Answered.flags {sql : Sql} {s s' : Link ι σ}
    (h : Answered server.toResponder sql true s s') :
    ∃ i c p sequence, s.dc.conn = some c ∧ c.peer = some p ∧ (server.query i sql p).2.success = true ∧
      s'.dc.conn = some ⟨some (server.query i sql p).1, [], sequence⟩ ∧ s'.dc.closed = s.dc.closed ∧
      server.flags (server.query i sql p).1 s'.dc.status := by
  obtain ⟨i, c, p, sequence, -, hc, hp, hok, -, hdc⟩ := h
  obtain ⟨status, hstatus⟩ := Reply.status_of_success _ hok
  refine ⟨i, c, p, sequence, hc, hp, hok, by rw [hdc], by rw [hdc], ?_⟩
  rw [hdc]
  show server.flags _ ((server.query i sql p).2.status.getD _)
  rw [hstatus]
  exact server.query_flags hok hstatus

theorem rollback_reset {s : Link ι σ} (hs : s.Sound server.Synced) :
    Ends (fun _ s' => s'.Sound server.Synced ∧ s'.dc.closed = s.dc.closed ∧ s'.dc.isInTransaction = false)
      (fun e s' => IsError e ∧ s'.Sound server.Synced) (DirectConnection.rollback server.peer s) := by
  unfold DirectConnection.rollback
  refine Ends.bind (R := fun _ s' => Answered server.toResponder .rollback true s s')
    ((exec_spec .rollback hs.known.conn hs.known.fit).weaken (fun _ _ h => h) ?_) fun _ s' h => ?_
  · rintro e s' (⟨he, h⟩ | h)
    · exact ⟨he, h.sound server.tracks hs⟩
    · exact h.sound hs.reachable
  · obtain ⟨i, c, p, sequence, -, -, hok, -, hclosed, hflags⟩ := h.flags
    refine ⟨h.sound server.tracks hs, hclosed, decide_eq_false fun hbit => ?_⟩
    have hin := (server.flags_inTrans hflags).1 hbit
    rw [server.rollback_ends hok] at hin
    cases hin

theorem setAutoCommit_reset {s : Link ι σ} (hs : s.Sound server.Synced) (hclosed : s.dc.closed = false)
    (hauto : s.dc.isAutoCommit = false) :
    Ends (fun _ s' => s'.Sound server.Synced ∧ s'.dc.closed = false ∧ s'.dc.isInTransaction = false ∧
      s'.dc.isAutoCommit = true)
      (fun e s' => IsError e ∧ s'.Sound server.Synced) (DirectConnection.setAutoCommit server.peer true s) := by
  unfold DirectConnection.setAutoCommit
  refine Ends.bind (R := fun _ s' => Answered server.toResponder (.setAutocommit true) true s s')
    (orCloseConn_ends ((exec_spec _ hs.known.conn hs.known.fit).weaken (fun _ _ h => h) ?_)) fun _ s' h => ?_
  · rintro e s' (⟨he, h⟩ | h)
    · exact ⟨he, h.sound server.tracks hs⟩
    · exact h.sound hs.reachable
  · obtain ⟨i, c, p, sequence, hc, hp, hok, -, hclosed', hflags⟩ := h.flags
    obtain ⟨hon, hends⟩ := server.setAutocommit_ends hok
    refine ⟨h.sound server.tracks hs, hclosed'.trans hclosed, decide_eq_false fun hbit => ?_, ?_⟩
    · have hp' := (hends ((server.flags_inTrans hflags).1 hbit)).2
      exact of_decide_eq_false hauto ((hs.known.session hclosed c p hc hp).autocommit.2 hp')
    · exact decide_eq_true ((server.flags_autocommit hflags).2 hon)

theorem resetConnection_spec {s : Link ι σ} (hs : s.Sound server.Synced) (hclosed : s.dc.closed = false) :
    Ends (fun _ s' => s'.net.Reachable ∧ s'.dc.AtRest server) (fun e s' => IsError e ∧ s'.net.Reachable)
      (DirectConnection.resetConnection server.peer s) := by
  have hrest : ∀ s : Link ι σ, s.Sound server.Synced → s.dc.closed = false → s.dc.isInTransaction = false →
      Ends (fun _ s' => s'.net.Reachable ∧ s'.dc.AtRest server) (fun e s' => IsError e ∧ s'.net.Reachable) ((do
        if !(← get).dc.isAutoCommit then
          DirectConnection.setAutoCommit server.peer true : Session ι σ Unit) s) := by
    intro s hs hclosed hin
    rw [bind_ok get_apply]
    by_cases hauto : s.dc.isAutoCommit = true
    · rw [if_neg (by simp [hauto])]
      exact ⟨hs.reachable, hs.known, hclosed, hin, hauto⟩
    · rw [if_pos (by simpa using hauto)]
      refine (setAutoCommit_reset hs hclosed (by simpa using hauto)).weaken ?_ fun e s' h => ⟨h.1, h.2.reachable⟩
      exact fun _ s' ⟨hs', hclosed', hin', hauto'⟩ => ⟨hs'.reachable, hs'.known, hclosed', hin', hauto'⟩
  unfold DirectConnection.resetConnection
  rw [bind_ok get_apply]
  by_cases hin : s.dc.isInTransaction = true
  · rw [if_pos hin]
    refine Ends.bind ((rollback_reset hs).weaken (fun _ _ h => h) fun e s' h => ⟨h.1, h.2.reachable⟩) ?_
    exact fun _ s' ⟨hs', hclosed', hin'⟩ => hrest s' hs' (hclosed'.trans hclosed) hin'
  · rw [if_neg hin]
    exact hrest s hs hclosed (by simpa using hin)

end Reset

/-! ### Connections in and out -/

namespace Store

variable {ι σ α : Type}

def withResources (t : Store ι σ) (p : PoolId) (resources : List (Option ConnId)) : Store ι σ :=
  { t with pools := Function.update t.pools p { t.pools p with resources } }

/-- The connections `out` are lent, and the others are at rest in their pools or gone. -/
structure Lending (server : TransactionServer ι σ) (out : List ConnId) (t : Store ι σ) : Prop where
  pooled : ∀ p c, some c ∈ (t.pools p).resources → t.home c = p ∧ c < t.next ∧ (t.conns c).AtRest server
  nodup : ∀ p, (t.pools p).resources.reduceOption.Nodup
  lent : ∀ c ∈ out, c < t.next ∧ (t.conns c).Known server.Synced ∧ ∀ p, some c ∉ (t.pools p).resources
  out_nodup : out.Nodup
  capacity : ∀ p, (t.pools p).resources.length + out.countP (t.home · = p) ≤ (t.pools p).maxCapacity

/-- The same, with a network on which no third dial behind a broken pipe is refused. -/
structure Running (server : TransactionServer ι σ) (out : List ConnId) (t : Store ι σ) : Prop where
  reachable : t.net.Reachable
  lending : t.Lending server out

def Room (out : List ConnId) (p : PoolId) (t : Store ι σ) : Prop :=
  (t.pools p).resources.length + out.countP (t.home · = p) < (t.pools p).maxCapacity

variable {out : List ConnId} {t : Store ι σ} {c : ConnId}

namespace Lending

variable {server : TransactionServer ι σ}

section

variable (h : t.Lending server out)

include h

theorem not_mem_of_pooled {p : PoolId} (hc : some c ∈ (t.pools p).resources) : c ∉ out :=
  fun hout => (h.lent c hout).2.2 p hc

theorem withLink_of_not_mem (hout : c ∉ out) (hpool : ∀ p, some c ∉ (t.pools p).resources)
    (l : Link ι σ) : (t.withLink c l).Lending server out := by
  have hne : ∀ c', c' ≠ c → (t.withLink c l).conns c' = t.conns c' := fun c' hne => Function.update_of_ne hne _ _
  refine ⟨fun p c' hc' => ?_, h.nodup, fun c' hc' => ?_, h.out_nodup, h.capacity⟩
  · rw [hne c' fun heq => hpool p (heq ▸ hc')]
    exact h.pooled p c' hc'
  · rw [hne c' fun heq => hout (heq ▸ hc')]
    exact h.lent c' hc'

theorem withLink (hc : c ∈ out) {l : Link ι σ} (hl : l.dc.Known server.Synced) :
    (t.withLink c l).Lending server out := by
  have hne : ∀ c', c' ≠ c → (t.withLink c l).conns c' = t.conns c' := fun c' hne => Function.update_of_ne hne _ _
  have hself : (t.withLink c l).conns c = l.dc := Function.update_self _ _ _
  refine ⟨fun p c' hc' => ?_, h.nodup, fun c' hc' => ?_, h.out_nodup, h.capacity⟩
  · rw [hne c' fun heq => (h.lent c hc).2.2 p (heq ▸ hc')]
    exact h.pooled p c' hc'
  · obtain ⟨hlt, hknown, hpool⟩ := h.lent c' hc'
    refine ⟨hlt, ?_, hpool⟩
    by_cases heq : c' = c
    · rw [heq, hself]
      exact hl
    · rw [hne c' heq]
      exact hknown

theorem of_subset {out' : List ConnId} (hsub : out'.Sublist out) : t.Lending server out' :=
  ⟨h.pooled, h.nodup, fun c hc => h.lent c (hsub.subset hc), h.out_nodup.sublist hsub,
    fun p => (Nat.add_le_add_left hsub.countP_le _).trans (h.capacity p)⟩

theorem of_perm {out' : List ConnId} (hperm : out'.Perm out) : t.Lending server out' :=
  ⟨h.pooled, h.nodup, fun c hc => h.lent c (hperm.mem_iff.1 hc), hperm.nodup_iff.2 h.out_nodup,
    fun p => hperm.countP_eq (t.home · = p) ▸ h.capacity p⟩

theorem withResources {p : PoolId} {resources : List (Option ConnId)}
    (hmem : ∀ c, some c ∈ resources → t.home c = p ∧ c < t.next ∧ (t.conns c).AtRest server ∧ c ∉ out)
    (hnodup : resources.reduceOption.Nodup)
    (hcap : resources.length + out.countP (t.home · = p) ≤ (t.pools p).maxCapacity) :
    (t.withResources p resources).Lending server out := by
  have hself : (t.withResources p resources).pools p = { t.pools p with resources } := Function.update_self _ _ _
  have hne : ∀ q, q ≠ p → (t.withResources p resources).pools q = t.pools q :=
    fun q hne => Function.update_of_ne hne _ _
  refine ⟨fun q c hc => ?_, fun q => ?_, fun c hc => ?_, h.out_nodup, fun q => ?_⟩
  · by_cases hq : q = p
    · subst hq
      rw [hself] at hc
      obtain ⟨hhome, hlt, hrest, -⟩ := hmem c hc
      exact ⟨hhome, hlt, hrest⟩
    · rw [hne q hq] at hc
      exact h.pooled q c hc
  · by_cases hq : q = p
    · subst hq
      rw [hself]
      exact hnodup
    · rw [hne q hq]
      exact h.nodup q
  · obtain ⟨hlt, hknown, hpool⟩ := h.lent c hc
    refine ⟨hlt, hknown, fun q hq' => ?_⟩
    by_cases hq : q = p
    · subst hq
      rw [hself] at hq'
      exact (hmem c hq').2.2.2 hc
    · rw [hne q hq] at hq'
      exact hpool q hq'
  · by_cases hq : q = p
    · subst hq
      rw [hself]
      exact hcap
    · rw [hne q hq]
      exact h.capacity q

end

end Lending

section Operations

variable {server : TransactionServer ι σ}

theorem onLink_keeps (hc : c ∈ out) {x : Session ι σ α} (hx : Keeps (Link.Sound server.Synced) x) :
    Keeps (Running server out) (onLink c x) := by
  intro t ht
  refine (onLink_ends (hx ⟨t.conns c, t.net⟩ ⟨ht.reachable, (ht.lending.lent c hc).2.1⟩)).weaken ?_ ?_
  · rintro a _ ⟨l, hl, rfl⟩
    exact ⟨hl.reachable, ht.lending.withLink hc hl.known⟩
  · rintro e _ ⟨l, ⟨he, hl⟩, rfl⟩
    exact ⟨he, hl.reachable, ht.lending.withLink hc hl.known⟩

/-! ### Giving back -/

theorem putResource_eq {p : PoolId} (hroom : t.Room out p) (resource : Option ConnId) :
    putResource p resource t = (.ok (), t.withResources p ((t.pools p).resources ++ [resource])) := by
  have hlt : (t.pools p).resources.length < (t.pools p).maxCapacity := Nat.lt_of_le_of_lt (Nat.le_add_right _ _) hroom
  unfold putResource
  rw [bind_ok get_apply, if_pos hlt]
  rfl

theorem Lending.putNone (h : t.Lending server out) {p : PoolId} (hroom : t.Room out p) :
    (t.withResources p ((t.pools p).resources ++ [none])).Lending server out := by
  refine h.withResources (fun c hc => ?_) ?_ ?_
  · have hc : some c ∈ (t.pools p).resources := by simpa using hc
    obtain ⟨hhome, hlt, hrest⟩ := h.pooled p c hc
    exact ⟨hhome, hlt, hrest, h.not_mem_of_pooled hc⟩
  · rw [reduceOption_append]
    simpa using h.nodup p
  · unfold Room at hroom
    rw [length_append, length_singleton]
    omega

theorem Lending.putSome (h : t.Lending server out) {p : PoolId} (hroom : t.Room out p) (hhome : t.home c = p)
    (hlt : c < t.next) (hrest : (t.conns c).AtRest server) (hout : c ∉ out) (hpool : some c ∉ (t.pools p).resources) :
    (t.withResources p ((t.pools p).resources ++ [some c])).Lending server out := by
  refine h.withResources (fun c' hc' => ?_) ?_ ?_
  · rw [mem_append, mem_singleton, Option.some_inj] at hc'
    rcases hc' with hc' | rfl
    · obtain ⟨hhome, hlt, hrest⟩ := h.pooled p c' hc'
      exact ⟨hhome, hlt, hrest, h.not_mem_of_pooled hc'⟩
    · exact ⟨hhome, hlt, hrest, hout⟩
  · rw [reduceOption_append]
    refine nodup_append.2 ⟨h.nodup p, nodup_singleton c, ?_⟩
    rintro c' hc' _ hc'' rfl
    obtain rfl : c' = c := by simpa using hc''
    exact hpool (reduceOption_mem_iff.1 hc')
  · unfold Room at hroom
    rw [length_append, length_singleton]
    omega

theorem Lending.room (h : t.Lending server (c :: out)) : t.Room out (t.home c) := by
  have hcap := h.capacity (t.home c)
  rw [countP_cons_of_pos (by simp)] at hcap
  unfold Room
  omega

theorem Lending.tail (h : t.Lending server (c :: out)) : t.Lending server out := h.of_subset (sublist_cons_self c out)

theorem put_none (h : t.Running server (c :: out)) (l : Link ι σ) (hl : l.net.Reachable) :
    Ends (fun _ t' => t'.Running server out) (fun _ _ => False) (putResource (t.home c) none (t.withLink c l)) := by
  obtain ⟨-, -, hpool⟩ := h.lending.lent c mem_cons_self
  have hout : c ∉ out := (nodup_cons.1 h.lending.out_nodup).1
  have hroom : (t.withLink c l).Room out (t.home c) := h.lending.room
  rw [putResource_eq hroom]
  exact ⟨hl, (h.lending.tail.withLink_of_not_mem hout hpool l).putNone hroom⟩

theorem recycle_spec (h : t.Running server (c :: out)) :
    Ends (fun _ t' => t'.Running server out) (fun _ _ => False) (recycle server.peer c t) := by
  obtain ⟨hlt, hknown, hpool⟩ := h.lending.lent c mem_cons_self
  have hout : c ∉ out := (nodup_cons.1 h.lending.out_nodup).1
  unfold recycle
  rw [bind_ok get_apply]
  cases hclosed : (t.conns c).closed with
  | true =>
    have hsame : t.withLink c ⟨t.conns c, t.net⟩ = t := by
      unfold Store.withLink
      rw [Function.update_eq_self]
    have hput := put_none h ⟨t.conns c, t.net⟩ h.reachable
    rw [hsame] at hput
    exact hput
  | false =>
    have hreset := resetConnection_spec (s := ⟨t.conns c, t.net⟩) ⟨h.reachable, hknown⟩ hclosed
    refine Ends.bind (R := fun result t' => ∃ l : Link ι σ, l.net.Reachable ∧ t' = t.withLink c l ∧
      ∀ a, result = .ok a → l.dc.AtRest server) (attemptErr_ends ((onLink_ends hreset).weaken ?_ ?_)) ?_
    · rintro _ _ ⟨l, ⟨hreach, hrest⟩, rfl⟩
      exact ⟨l, hreach, rfl, fun _ _ => hrest⟩
    · rintro _ _ ⟨l, ⟨⟨msg, rfl⟩, hreach⟩, rfl⟩
      exact ⟨l, hreach, rfl, nofun⟩
    · rintro (msg | a) _ ⟨l, hreach, rfl, hrest⟩
      · have hclose : onLink c close (t.withLink c l) =
            (.ok (), t.withLink c ⟨{ l.dc with conn := none, closed := true }, l.net⟩) := by
          unfold onLink Effect.zoom Store.withLink
          rw [of_apply]
          simp only [Function.update_self, Function.update_idem]
          rfl
        show Ends _ _ ((onLink c close >>= _) (t.withLink c l))
        rw [bind_ok hclose]
        exact put_none h _ hreach
      · have hroom : (t.withLink c l).Room out (t.home c) := h.lending.room
        have hself : (t.withLink c l).conns c = l.dc := Function.update_self _ _ _
        show Ends _ _ (putResource (t.home c) (some c) (t.withLink c l))
        rw [putResource_eq hroom]
        refine ⟨hreach, (h.lending.tail.withLink_of_not_mem hout hpool l).putSome hroom rfl hlt ?_ hout (hpool _)⟩
        rw [hself]
        exact hrest a rfl

/-! ### Taking out -/

theorem newConnection_spec {p : PoolId} (h : t.Running server out) (hroom : t.Room out p) :
    Ends (fun c t' => t'.Running server (c :: out)) (fun e t' => IsError e ∧ t'.Running server out ∧ t'.Room out p)
      (newConnection server.peer p t) := by
  let t₁ : Store ι σ := { t with
    conns := Function.update t.conns t.next (.fresh (t.pools p).db (t.pools p).charset (t.pools p).collationID),
    home := Function.update t.home t.next p, next := t.next + 1 }
  have hconns : ∀ c, c < t.next → t₁.conns c = t.conns c := fun c hc => Function.update_of_ne (Nat.ne_of_lt hc) _ _
  have hhome : ∀ c, c < t.next → t₁.home c = t.home c := fun c hc => Function.update_of_ne (Nat.ne_of_lt hc) _ _
  have hself : t₁.home t.next = p := Function.update_self _ _ _
  have hcount : ∀ q, out.countP (t₁.home · = q) = out.countP (t.home · = q) := fun q =>
    countP_congr fun c hc => by rw [hhome c (h.lending.lent c hc).1]
  have hout : t.next ∉ out := fun hc => Nat.lt_irrefl _ (h.lending.lent _ hc).1
  have hpool : ∀ q, some t.next ∉ (t₁.pools q).resources := fun q hc =>
    Nat.lt_irrefl _ (h.lending.pooled q _ hc).2.1
  have hlending₁ : t₁.Lending server out := by
    refine ⟨fun q c hc => ?_, h.lending.nodup, fun c hc => ?_, h.lending.out_nodup, fun q => ?_⟩
    · obtain ⟨hq, hlt, hrest⟩ := h.lending.pooled q c hc
      rw [hhome c hlt, hconns c hlt]
      exact ⟨hq, Nat.lt_succ_of_lt hlt, hrest⟩
    · obtain ⟨hlt, hknown, hpool⟩ := h.lending.lent c hc
      rw [hconns c hlt]
      exact ⟨Nat.lt_succ_of_lt hlt, hknown, hpool⟩
    · rw [hcount q]
      exact h.lending.capacity q
  have hroom₁ : t₁.Room out p := by
    unfold Room
    rw [hcount p]
    exact hroom
  show Ends _ _ ((onLink t.next (connect server.peer) >>= fun _ => pure t.next) t₁)
  have hconnect := connect_spec (r := server.toResponder) ⟨t₁.conns t.next, t.net⟩
  refine Ends.bind (R := fun _ t' => t'.Running server (t.next :: out)) ((onLink_ends hconnect).weaken ?_ ?_)
    fun _ _ h => h
  · rintro _ _ ⟨l, hl, rfl⟩
    have hknown : l.dc.Known server.Synced := by
      obtain ⟨p', sequence, hconn, hopened⟩ := hl.opened
      exact known_of_session hconn (hl.fit.protocol41 _ p' hconn rfl) fun _ => server.tracks.opened hopened
    have hself' : (t₁.withLink t.next l).conns t.next = l.dc := Function.update_self _ _ _
    have hnew := hlending₁.withLink_of_not_mem hout hpool l
    refine ⟨hl.reachable h.reachable, hnew.pooled, hnew.nodup, fun c hc => ?_,
      nodup_cons.2 ⟨hout, h.lending.out_nodup⟩, fun q => ?_⟩
    · rcases mem_cons.1 hc with rfl | hc
      · rw [hself']
        exact ⟨Nat.lt_succ_self _, hknown, hpool⟩
      · exact hnew.lent c hc
    · by_cases hq : q = p
      · subst hq
        rw [countP_cons_of_pos (by exact decide_eq_true hself)]
        exact hroom₁
      · rw [countP_cons_of_neg (by simpa using fun heq => hq (heq.symm.trans hself))]
        exact hnew.capacity q
  · rintro e _ ⟨l, hl, rfl⟩
    obtain ⟨he, hreach⟩ := hl.reachable h.reachable
    exact ⟨he, ⟨hreach, hlending₁.withLink_of_not_mem hout hpool l⟩, hroom₁⟩

theorem getConn_spec (p : PoolId) (h : t.Running server out) :
    Ends (fun c t' => t'.Running server (c :: out)) (fun e t' => IsError e ∧ t'.Running server out)
      (getConn server.peer p t) := by
  have hmem : ∀ {resource rest}, (t.pools p).resources = resource :: rest → ∀ c, some c ∈ rest →
      t.home c = p ∧ c < t.next ∧ (t.conns c).AtRest server ∧ c ∉ out := by
    intro resource rest hres c hc
    have hc : some c ∈ (t.pools p).resources := hres ▸ mem_cons_of_mem _ hc
    obtain ⟨hhome, hlt, hrest⟩ := h.lending.pooled p c hc
    exact ⟨hhome, hlt, hrest, h.lending.not_mem_of_pooled hc⟩
  have hcap := h.lending.capacity p
  have hnodup := h.lending.nodup p
  unfold getConn
  rw [bind_ok get_apply]
  cases hres : (t.pools p).resources with
  | nil => exact ⟨⟨_, rfl⟩, h⟩
  | cons resource rest =>
    rw [hres] at hcap hnodup
    rw [length_cons] at hcap
    have hself : (t.withResources p rest).pools p = { t.pools p with resources := rest } := Function.update_self _ _ _
    cases resource with
    | some c =>
      rw [reduceOption_cons_of_some, nodup_cons] at hnodup
      have hnew := h.lending.withResources (hmem hres) hnodup.2 (by omega)
      have hc : some c ∈ (t.pools p).resources := hres ▸ mem_cons_self
      obtain ⟨hhome, hlt, hrest⟩ := h.lending.pooled p c hc
      have hout := h.lending.not_mem_of_pooled hc
      show Running server (c :: out) (t.withResources p rest)
      refine ⟨h.reachable, hnew.pooled, hnew.nodup, fun c' hc' => ?_,
        nodup_cons.2 ⟨hout, h.lending.out_nodup⟩, fun q => ?_⟩
      · rcases mem_cons.1 hc' with rfl | hc'
        · refine ⟨hlt, hrest.known, fun q hq => ?_⟩
          have hq' : q = p := (hnew.pooled q _ hq).1.symm.trans hhome
          subst hq'
          rw [hself] at hq
          exact hnodup.1 (reduceOption_mem_iff.2 hq)
        · exact hnew.lent c' hc'
      · by_cases hq : q = p
        · subst hq
          rw [countP_cons_of_pos (by exact decide_eq_true hhome), hself]
          show rest.length + _ ≤ (t.pools q).maxCapacity
          have : (out.countP (t.home · = q)) = out.countP ((t.withResources q rest).home · = q) := rfl
          omega
        · rw [countP_cons_of_neg (by simpa using fun heq => hq (heq.symm.trans hhome))]
          exact hnew.capacity q
    | none =>
      rw [reduceOption_cons_of_none] at hnodup
      have hnew : (t.withResources p rest).Running server out :=
        ⟨h.reachable, h.lending.withResources (hmem hres) hnodup (by omega)⟩
      have hroom : (t.withResources p rest).Room out p := by
        unfold Room
        rw [hself]
        show rest.length + out.countP (t.home · = p) < (t.pools p).maxCapacity
        omega
      show Ends _ _ ((attemptErr (newConnection server.peer p) >>= _) (t.withResources p rest))
      refine Ends.bind (R := fun result t' => Ends (fun c => Running server (c :: out))
        (fun _ t' => Running server out t' ∧ Room out p t') (result, t'))
        (attemptErr_ends ((newConnection_spec hnew hroom).weaken (fun _ _ h => h) ?_)) ?_
      · rintro _ t' ⟨⟨msg, rfl⟩, ht'⟩
        exact ht'
      · rintro (msg | c) t' ht'
        · exact ⟨⟨msg, rfl⟩, ht'.1.reachable, ht'.1.lending.putNone ht'.2⟩
        · exact ht'

end Operations

end Store

end DbProxy
