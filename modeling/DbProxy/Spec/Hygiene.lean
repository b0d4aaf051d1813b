import DbProxy.Server.System
import DbProxy.Spec.Lending
import DbProxy.Spec.Workers

/-!
# Pool hygiene

What a session holds are the connections in `txConns`, and during a statement outside of a transaction those that it
took for it.  Every command keeps to this, also when it fails; so a connection in a pool stays at rest.
-/

namespace DbProxy

open Effect DirectConnection List

namespace SessionExecutor

variable {ι σ α : Type} {server : TransactionServer ι σ} {se : SessionExecutor} {out others : List ConnId}
variable {t : Proxy ι σ} {out' pcs : List ConnId} {c : ConnId} {y : Session ι σ α} {x : Session ι σ Unit}

def tx (se : SessionExecutor) : List ConnId := se.txConns.map Prod.snd

/-- The session is `se`, and `out` is what is lent. -/
structure Has (server : TransactionServer ι σ) (se : SessionExecutor) (out : List ConnId) (t : Proxy ι σ) : Prop where
  se : t.se = se
  running : t.store.Running server out

/-- The session holds what is in its transaction, and others hold `others`. -/
structure Held (server : TransactionServer ι σ) (others : List ConnId) (t : Proxy ι σ) : Prop where
  running : t.store.Running server (t.se.tx ++ others)
  verified : t.se.state.sessionVariables.Verified

theorem Has.of_subset (h : Has server se out t) (hsub : out'.Sublist out) :
    Has server se out' t := ⟨h.se, h.running.reachable, h.running.lending.of_subset hsub⟩

theorem Has.of_perm (h : Has server se out t) (hperm : out'.Perm out) :
    Has server se out' t := ⟨h.se, h.running.reachable, h.running.lending.of_perm hperm⟩

theorem Has.held (h : Has server se (se.tx ++ others) t) (hse : se.state.sessionVariables.Verified) :
    Held server others t := by
  obtain ⟨rfl, hrunning⟩ := h
  exact ⟨hrunning, hse⟩

/-! ### Operations on connections -/

theorem onStore_has {x : Pooling ι σ α} {out' : α → List ConnId} {P : Fail → Prop}
    (hx : Triple (Store.Running server out) x (fun a => Store.Running server (out' a))
      fun e t => P e ∧ t.Running server out) :
    Triple (Has server se out) (onStore x) (fun a => Has server se (out' a)) fun e t => P e ∧
    Has server se out t := by
  intro t ht
  refine (onStore_ends (hx t.store ht.running)).weaken ?_ ?_
  · rintro a t' ⟨hrunning, hse⟩
    exact ⟨hse.trans ht.se, hrunning⟩
  · rintro e t' ⟨⟨he, hrunning⟩, hse⟩
    exact ⟨he, hse.trans ht.se, hrunning⟩

theorem onConn_has (hc : c ∈ out) {x : Session ι σ α} (hx : Keeps (Link.Sound server.Synced) x) :
    Keeps (Has server se out) (onConn c x) := onStore_has (Store.onLink_keeps hc hx)

theorem has_carries (hpcs : ∀ c ∈ pcs, c ∈ out) (hse : se.state.sessionVariables.Verified) :
    Carries server.Synced pcs (Has (ι := ι) server se out) where
  onConn c hc _ _ hx := onConn_has (hpcs c hc) hx
  verified _ ht := ht.se ▸ hse

theorem recycle_has (c : ConnId) : Triple (Has server se (c :: out)) (onStore (Store.recycle server.peer c))
    (fun _ => Has server se out) fun _ _ => False := by
  intro t ht
  refine (onStore_ends (Store.recycle_spec ht.running)).weaken ?_ fun _ _ h => h.1
  rintro _ t' ⟨hrunning, hse⟩
  exact ⟨hse.trans ht.se, hrunning⟩

theorem recycleAll_has (pcs : List ConnId) : Triple (Has server se (pcs ++ out)) (recycleAll server.peer pcs)
    (fun _ => Has server se out) fun _ _ => False := by
  induction pcs with
  | nil => exact fun _ ht => ht
  | cons pc pcs ih => exact Triple.bind (recycle_has pc) fun _ => ih

theorem close_recycle_has (c : ConnId) : Triple (Has server se (c :: out))
    (do onConn c close; onStore (Store.recycle server.peer c)) (fun _ => Has server se out) fun _ _ => False := by
  intro t ht
  let l : Link ι σ := ⟨{ t.store.conns c with conn := none, closed := true }, t.store.net⟩
  have hclose : onConn c close t = (.ok (), { t with store := t.store.withLink c l }) := rfl
  rw [bind_ok hclose]
  have hself : (t.store.withLink c l).conns c = l.dc := Function.update_self _ _ _
  have hput := Store.put_none ht.running l ht.running.reachable
  refine (onStore_ends (t := { t with store := t.store.withLink c l }) (x := Store.recycle server.peer c)
    (Q := fun _ => Store.Running server out) (E := fun _ _ => False) ?_).weaken ?_ fun _ _ h => h.1
  · unfold Store.recycle
    rw [bind_ok get_apply]
    show Ends _ _ (Store.put server.peer _ (if ((t.store.withLink c l).conns c).closed = true then none
      else some c) _)
    rw [hself, if_pos rfl]
    exact hput
  · rintro _ t' ⟨hrunning, hse⟩
    exact ⟨hse.trans ht.se, hrunning⟩

/-! ### Connections for a statement -/

theorem getNextConn_spec (role : Role) (next : Slice → Except Fail Nat × Slice) (slice : String) :
    Triple (Store.Running server out) (Store.getNextConn server.peer role next slice)
      (fun c => Store.Running server (c :: out)) fun _ => Store.Running server out := by
  intro t ht
  unfold Store.getNextConn
  rw [bind_ok get_apply]
  cases hnext : next (t.slices slice) with
  | mk index s =>
    dsimp only
    rw [bind_ok (set_apply)]
    have ht' : Store.Running server out { t with slices := Function.update t.slices slice s } :=
      ⟨ht.reachable, ht.lending.pooled, ht.lending.nodup, ht.lending.lent, ht.lending.out_nodup, ht.lending.capacity⟩
    cases index with
    | ok index => exact (Store.getConn_spec _ ht').weaken (fun _ _ h => h) fun _ _ h => h.2
    | error e => exact ht'

theorem getSliceConn_spec (slice : String) (statisticUser : Bool) (flag : ExecuteFlag) :
    Triple (Store.Running server out) (Store.getSliceConn server.peer slice statisticUser flag)
      (fun c => Store.Running server (c :: out)) fun _ => Store.Running server out := by
  have hmaster : Triple (Store.Running server out) (Store.getMasterConn server.peer slice)
      (fun c => Store.Running server (c :: out)) fun _ => Store.Running server out :=
    fun t ht => (Store.getConn_spec _ ht).weaken (fun _ _ h => h) fun _ _ h => h.2
  unfold Store.getSliceConn
  cases flag with
  | master => exact hmaster
  | masterDC => exact getNextConn_spec .masterDCSlave Store.getNextMasterDCSlave slice
  | slave =>
    dsimp only
    split
    · exact getNextConn_spec .statisticSlave Store.getNextStatisticSlave slice
    · refine Triple.bind (R := fun result t => Ends (fun c t => t.Running server (c :: out))
        (fun _ t => t.Running server out) (result, t)) ?_ ?_
      · intro t ht
        refine attemptErr_ends ((getNextConn_spec .slave Store.getNextSlave slice t ht).weaken (fun _ _ h => h) ?_)
        rintro (msg | msg) t' ht'
        · exact ht'
        · exact ht'
      · rintro (msg | c)
        · exact hmaster
        · exact fun t ht => ht

theorem getBackendConn_plain (hplain : se.isInTransaction = false) (sliceName : String) (flag : ExecuteFlag) :
    Triple (Has server se out) (getBackendConn server.peer sliceName flag) (fun c => Has server se (c :: out))
      fun _ => Has server se out := by
  refine Triple.get_bind fun t ht => ?_
  rintro _ rfl
  rw [ht.se, if_neg (by simp [hplain])]
  exact (onStore_has (P := fun _ => True) ((getSliceConn_spec sliceName se.statisticUser flag).weaken (fun _ h => h)
    (fun _ _ h => h) fun _ _ h => ⟨trivial, h⟩) _ ht).weaken (fun _ _ h => h) fun _ _ h => h.2

theorem getBackendConns_plain (hplain : se.isInTransaction = false) (flag : ExecuteFlag) (slices : List String) :
    Triple (Has server se out) (getBackendConns server.peer flag slices) (fun r => Has server se (r.1 ++ out))
      fun _ => Has server se out := by
  induction slices generalizing out with
  | nil => exact fun _ ht => ht
  | cons sliceName slices ih =>
    refine Triple.bind (R := fun result t => Ends (fun c => Has server se (c :: out)) (fun _ => Has server se out)
      (result, t)) ?_ ?_
    · intro t ht
      refine attemptErr_ends ((getBackendConn_plain hplain sliceName flag t ht).weaken (fun _ _ h => h) ?_)
      rintro (msg | msg) t' ht'
      · exact ht'
      · exact ht'
    · rintro (msg | c)
      · exact fun t ht => ht
      · refine Triple.bind (ih.weaken (fun _ h => h) (fun _ _ h => h) fun _ _ h => h.of_subset
          (sublist_cons_self c out)) ?_
        exact fun r t ht => ht.of_perm perm_middle.symm

structure Grown (server : TransactionServer ι σ) (se₀ : SessionExecutor) (others : List ConnId) (t : Proxy ι σ) :
    Prop where
  running : t.store.Running server (t.se.tx ++ others)
  se : t.se = { se₀ with txConns := t.se.txConns }
  mono : ∀ c ∈ se₀.tx, c ∈ t.se.tx

theorem Grown.trans {t' : Proxy ι σ} (h : Grown server se others t) (h' : Grown server t.se others t') :
    Grown server se others t' :=
  ⟨h'.running, by rw [h'.se, h.se], fun c hc => h'.mono c (h.mono c hc)⟩

theorem Has.grown (h : Has server se (se.tx ++ others) t) : Grown server se others t := by
  obtain ⟨rfl, hrunning⟩ := h
  exact ⟨hrunning, rfl, fun _ hc => hc⟩

theorem Grown.held (h : Grown server se others t) (hse : se.state.sessionVariables.Verified) :
    Held server others t := ⟨h.running, by rw [h.se]; exact hse⟩

theorem Grown.has (h : Grown server se others t) : Has server t.se (t.se.tx ++ others) t :=
  ⟨rfl, h.running⟩

theorem exec_unit_keeps (sql : Sql) : Keeps (Link.Sound server.Synced) (do let _ ← exec server.peer sql) :=
  (exec_keeps server.tracks sql).bind fun _ => Keeps.pure ()

theorem setAutoCommit_keeps (on : Bool) :
    Keeps (Link.Sound server.Synced) (DirectConnection.setAutoCommit server.peer on) :=
  Keeps.bind (fun s hs => orCloseConn_ends (exec_keeps server.tracks _ s hs)) fun _ => Keeps.pure ()

theorem openTransaction_keeps (autocommit : Bool) :
    Keeps (Link.Sound server.Synced) (openTransaction server.peer autocommit) := by
  unfold openTransaction
  split
  · exact exec_unit_keeps .begin
  · exact setAutoCommit_keeps false

theorem getTransactionConn_spec (sliceName : String) (ht : Has server se (se.tx ++ others) t) :
    Ends (fun c t' => Grown server se others t' ∧ c ∈ t'.se.tx) (fun _ t' => Grown server se others t')
      (getTransactionConn server.peer sliceName t) := by
  unfold getTransactionConn
  rw [bind_ok get_apply, ht.se]
  cases hget : se.txConns.get sliceName with
  | some pc => exact ⟨ht.grown, by rw [ht.se]; exact mem_map_of_mem (AssocMap.mem_of_get hget)⟩
  | none =>
    refine Ends.bind ((onStore_has (P := IsError) (fun t ht => Store.getConn_spec _ ht) t ht).weaken
      (fun _ _ h => h) fun _ _ h => h.2.grown) fun pc t₁ ht₁ => ?_
    refine Ends.bind ((onConn_has mem_cons_self (openTransaction_keeps se.autocommit)).attempt t₁ ht₁) ?_
    rintro (msg | _) t₂ ht₂
    · have hback := close_recycle_has pc t₂ ht₂
      show Ends _ _ ((do
        onConn pc close
        onStore (Store.recycle server.peer pc)
        throw (.error msg) : Executing ι σ ConnId) t₂)
      rw [← bind_assoc]
      exact Ends.bind (hback.weaken (fun _ _ h => h) fun _ _ h => h.elim) fun _ t₃ ht₃ => ht₃.grown
    · have htx : (se.txConns.set sliceName pc).map Prod.snd = se.tx ++ [pc] := by
        rw [AssocMap.set_of_get_eq_none hget, map_append]
        rfl
      obtain ⟨store₂, se₂⟩ := t₂
      obtain ⟨rfl, hrunning⟩ := ht₂
      refine ⟨⟨⟨hrunning.reachable, hrunning.lending.of_perm ?_⟩, rfl, fun c hc => ?_⟩, ?_⟩
      · show (List.map Prod.snd (se₂.txConns.set sliceName pc) ++ others).Perm _
        rw [htx, append_assoc]
        exact perm_middle
      · show c ∈ List.map Prod.snd (se₂.txConns.set sliceName pc)
        rw [htx]
        exact mem_append_left _ hc
      · show pc ∈ List.map Prod.snd (se₂.txConns.set sliceName pc)
        rw [htx]
        exact mem_append_right _ (mem_singleton_self pc)

theorem getBackendConn_tx (htx : se.isInTransaction = true) (sliceName : String) (flag : ExecuteFlag)
    (ht : Has server se (se.tx ++ others) t) :
    Ends (fun c t' => Grown server se others t' ∧ c ∈ t'.se.tx) (fun _ t' => Grown server se others t')
      (getBackendConn server.peer sliceName flag t) := by
  unfold getBackendConn
  rw [bind_ok get_apply, ht.se]
  rw [if_pos htx]
  exact getTransactionConn_spec sliceName ht

theorem Grown.isInTransaction (h : Grown server se others t) :
    t.se.isInTransaction = se.isInTransaction := by
  rw [h.se]
  rfl

theorem getBackendConns_tx (flag : ExecuteFlag) (slices : List String) (htx : se.isInTransaction = true)
    (ht : Has server se (se.tx ++ others) t) :
    Ends (fun r t' => Grown server se others t' ∧ ∀ c ∈ r.1, c ∈ t'.se.tx) (fun _ t' => Grown server se others t')
      (getBackendConns server.peer flag slices t) := by
  induction slices generalizing se t with
  | nil => exact ⟨ht.grown, nofun⟩
  | cons sliceName slices ih =>
    refine Ends.bind (R := fun result t' => Grown server se others t' ∧ ∀ c, result = .ok c → c ∈ t'.se.tx)
      (attemptErr_ends ((getBackendConn_tx htx sliceName flag ht).weaken ?_ ?_)) ?_
    · rintro c t' ⟨ht', hc⟩
      refine ⟨ht', ?_⟩
      rintro _ ⟨⟩
      exact hc
    · rintro (msg | msg) t' ht'
      · exact ⟨ht', nofun⟩
      · exact ht'
    · rintro (msg | c) t₁ ⟨ht₁, hc⟩
      · exact ⟨ht₁, nofun⟩
      · refine Ends.bind ((ih (ht₁.isInTransaction.trans htx) ht₁.has).weaken (fun _ _ h => h)
          fun _ _ h => ht₁.trans h) ?_
        rintro r t₂ ⟨ht₂, hr⟩
        refine ⟨ht₁.trans ht₂, fun c' hc' => ?_⟩
        rcases mem_cons.1 hc' with rfl | hc'
        · exact ht₂.mono _ (hc _ rfl)
        · exact hr c' hc'

/-! ### Statements -/

theorem recycleBackendConns_plain (hplain : se.isInTransaction = false) (pcs : List ConnId) :
    Triple (Has server se (pcs ++ out)) (recycleBackendConns server.peer pcs) (fun _ => Has server se out)
      fun _ _ => False := by
  refine Triple.get_bind fun t ht => ?_
  rintro _ rfl
  rw [ht.se, if_pos (by simp [hplain])]
  exact recycleAll_has pcs _ ht

theorem recycleBackendConns_tx (htx : se.isInTransaction = true) (pcs : List ConnId) :
    Triple (Has server se out) (recycleBackendConns server.peer pcs) (fun _ => Has server se out)
      fun _ _ => False := by
  refine Triple.get_bind fun t ht => ?_
  rintro _ rfl
  rw [ht.se, if_neg (by simp [htx])]
  exact ht

theorem executeSQLs_plain (hplain : se.isInTransaction = false) (hse : se.state.sessionVariables.Verified)
    (flag : ExecuteFlag)
    (sqls : Sqls) : Triple (Has server se out) (executeSQLs server.peer flag sqls) (fun _ => Has server se out)
      fun _ => Has server se out := by
  intro t ht
  unfold executeSQLs
  split
  · exact ht
  refine Ends.bind (getBackendConns_plain hplain flag _ t ht) ?_
  rintro ⟨pcs, err⟩ t₁ ht₁
  have hrecycle : Triple (Has server se (pcs ++ out)) _ _ _ := recycleBackendConns_plain hplain pcs
  cases err with
  | some msg =>
    exact Ends.bind ((hrecycle t₁ ht₁).weaken (fun _ _ h => h) fun _ _ h => h.elim) fun _ _ ht => ht
  | none =>
    have hpcs : ∀ c ∈ pcs, c ∈ pcs ++ out := fun c hc => mem_append_left _ hc
    refine Ends.bind ((executeInMultiSlices_keeps server.tracks (has_carries hpcs hse) sqls).attempt t₁ ht₁) ?_
    rintro (msg | rs) t₂ ht₂
    · exact Ends.bind ((hrecycle t₂ ht₂).weaken (fun _ _ h => h) fun _ _ h => h.elim) fun _ _ ht => ht
    · exact Ends.bind ((hrecycle t₂ ht₂).weaken (fun _ _ h => h) fun _ _ h => h.elim) fun _ _ ht => ht

theorem executeSQLs_tx (htx : se.isInTransaction = true) (hse : se.state.sessionVariables.Verified)
    (flag : ExecuteFlag) (sqls : Sqls) (ht : Has server se (se.tx ++ others) t) :
    Ends (fun _ t' => Grown server se others t') (fun _ t' => Grown server se others t')
      (executeSQLs server.peer flag sqls t) := by
  unfold executeSQLs
  split
  · exact ht.grown
  refine Ends.bind (getBackendConns_tx flag _ htx ht) ?_
  rintro ⟨pcs, err⟩ t₁ ⟨ht₁, hpcs⟩
  have hdone : ∀ t', Has server t₁.se (t₁.se.tx ++ others) t' → Grown server se others t' :=
    fun t' ht' => ht₁.trans ht'.grown
  have hrecycle : Triple (Has server t₁.se (t₁.se.tx ++ others)) _ _ _ :=
    recycleBackendConns_tx (ht₁.isInTransaction.trans htx) pcs
  cases err with
  | some msg =>
    exact Ends.bind ((hrecycle t₁ ht₁.has).weaken (fun _ _ h => h) fun _ _ h => h.elim) fun _ _ ht => hdone _ ht
  | none =>
    have hpcs : ∀ c ∈ pcs, c ∈ t₁.se.tx ++ others := fun c hc => mem_append_left _ (hpcs c hc)
    have hverified : t₁.se.state.sessionVariables.Verified := by
      rw [ht₁.se]
      exact hse
    refine Ends.bind ((executeInMultiSlices_keeps server.tracks (has_carries hpcs hverified) sqls).attempt
      t₁ ht₁.has) ?_
    rintro (msg | rs) t₂ ht₂
    · exact Ends.bind ((hrecycle t₂ ht₂).weaken (fun _ _ h => h) fun _ _ h => h.elim) fun _ _ ht => hdone _ ht
    · exact Ends.bind ((hrecycle t₂ ht₂).weaken (fun _ _ h => h) fun _ _ h => h.elim) fun _ _ ht => hdone _ ht

theorem use_keeps (hc : c ∈ out) (hse : se.state.sessionVariables.Verified) (phyDB : Except String GoString)
    (hy : Keeps (Link.Sound server.Synced) y) :
    Keeps (Has server se out) (do
      match phyDB with
      | .error msg => throw (.error msg)
      | .ok phyDB =>
        onConn c (initBackendConn server.peer phyDB (← get).se.state)
        onConn c y) := by
  cases phyDB with
  | error msg => exact Keeps.throw msg
  | ok phyDB =>
    refine Keeps.get_bind fun t ht => ?_
    have hinit : Keeps (Link.Sound server.Synced) (initBackendConn server.peer phyDB t.se.state) :=
      initBackendConn_keeps server.tracks phyDB (ht.se ▸ hse)
    exact ((onConn_has hc hinit).bind fun _ => onConn_has hc hy) t ht

theorem andRecycle_spec {P : Proxy ι σ → Prop} {x : Executing ι σ α} (hx : Keeps (Has server se out) x)
    (hrecycle : Triple (Has server se out) (recycleBackendConns server.peer [c]) (fun _ => P) fun _ _ => False) :
    Triple (Has server se out) (andRecycle server.peer c x) (fun _ => P) fun _ => P := by
  refine Triple.bind (R := fun _ => Has server se out) (Triple.attempt (hx.weaken (fun _ h => h) (fun _ _ h => h)
    fun _ _ h => h.2)) ?_
  rintro (e | a)
  · exact Triple.bind (hrecycle.weaken (fun _ h => h) (fun _ _ h => h) fun _ _ h => h.elim) fun _ _ ht => ht
  · exact Triple.bind (hrecycle.weaken (fun _ h => h) (fun _ _ h => h) fun _ _ h => h.elim) fun _ _ ht => ht

theorem useSlice_held (ht : Held server others t) (sliceName : String) (flag : ExecuteFlag)
    (phyDB : Except String GoString) (hy : Keeps (Link.Sound server.Synced) y) :
    Ends (fun _ t' => Held server others t') (fun _ t' => Held server others t') ((do
      let pc ← getBackendConn server.peer sliceName flag
      andRecycle server.peer pc do
        match phyDB with
        | .error msg => throw (.error msg)
        | .ok phyDB =>
          onConn pc (initBackendConn server.peer phyDB (← get).se.state)
          onConn pc y : Executing ι σ α) t) := by
  have hhas : Has server t.se (t.se.tx ++ others) t := ⟨rfl, ht.running⟩
  cases hmode : t.se.isInTransaction with
  | false =>
    refine Ends.bind ((getBackendConn_plain hmode sliceName flag t hhas).weaken (fun _ _ h => h)
      fun _ _ h => h.held ht.verified) fun pc t₁ ht₁ => ?_
    refine (andRecycle_spec (use_keeps mem_cons_self ht.verified phyDB hy)
      (recycleBackendConns_plain hmode [pc]) t₁ ht₁).weaken (fun _ _ h => h.held ht.verified) fun _ _ h =>
        h.held ht.verified
  | true =>
    refine Ends.bind ((getBackendConn_tx hmode sliceName flag hhas).weaken (fun _ _ h => h)
      fun _ _ h => h.held ht.verified) ?_
    rintro pc t₁ ⟨ht₁, hpc⟩
    refine (andRecycle_spec (use_keeps (mem_append_left _ hpc) (ht₁.held ht.verified).verified phyDB hy)
      (recycleBackendConns_tx (ht₁.isInTransaction.trans hmode) [pc]) t₁ ht₁.has).weaken ?_ ?_
    · exact fun _ t' ht' => (ht₁.trans ht'.grown).held ht.verified
    · exact fun _ t' ht' => (ht₁.trans ht'.grown).held ht.verified

theorem executeSQLs_held (flag : ExecuteFlag) (sqls : Sqls) :
    Triple (Held server others) (executeSQLs server.peer flag sqls)
    (fun _ => Held server others) fun _ => Held server others := by
  intro t ht
  have hhas : Has server t.se (t.se.tx ++ others) t := ⟨rfl, ht.running⟩
  cases hmode : t.se.isInTransaction with
  | false =>
    exact (executeSQLs_plain hmode ht.verified flag sqls t hhas).weaken (fun _ _ h => h.held ht.verified)
      fun _ _ h => h.held ht.verified
  | true =>
    exact (executeSQLs_tx hmode ht.verified flag sqls hhas).weaken (fun _ _ h => h.held ht.verified)
      fun _ _ h => h.held ht.verified

/-! ### Transactions -/

theorem beginAll_keeps (hpcs : ∀ c ∈ pcs, c ∈ out) :
    Keeps (Has server se out) (beginAll server.peer pcs) := by
  induction pcs with
  | nil => exact Keeps.pure ()
  | cons pc pcs ih =>
    refine (onConn_has (hpcs pc mem_cons_self) (exec_unit_keeps .begin)).bind fun _ => ?_
    exact ih fun c hc => hpcs c (mem_cons_of_mem _ hc)

theorem handleBegin_held : Triple (Held server others) (handleBegin server.peer) (fun _ => Held server others)
    fun _ => Held server others := by
  refine Triple.get_bind fun _ ht => ?_
  rintro t rfl
  have hkeeps : Keeps (Has server t.se (t.se.tx ++ others)) (beginAll server.peer t.se.tx) :=
    beginAll_keeps fun c hc => mem_append_left _ hc
  have hbegin := hkeeps t ⟨rfl, ht.running⟩
  refine Ends.bind (hbegin.weaken (fun _ _ h => h) fun _ _ h => h.2.held ht.verified) fun _ t₁ ht₁ => ?_
  obtain ⟨store, se₁⟩ := t₁
  obtain ⟨rfl, hrunning⟩ := ht₁
  exact ⟨hrunning, ht.verified⟩

theorem giveBack_has (hx : Keeps (Link.Sound server.Synced) x) (pcs : List ConnId) :
    Triple (Has server se (pcs ++ out)) (giveBack server.peer x pcs) (fun _ => Has server se out)
      fun _ _ => False := by
  induction pcs with
  | nil => exact fun _ ht => ht
  | cons pc pcs ih =>
    refine Triple.bind (onConn_has mem_cons_self hx).attempt fun result => ?_
    exact Triple.bind (recycle_has pc) fun _ => Triple.bind ih fun _ _ ht => ht

theorem giveBackAll_held (hx : Keeps (Link.Sound server.Synced) x) :
    Triple (Held server others) (giveBackAll server.peer x) (fun _ => Held server others) fun _ =>
      Held server others := by
  refine Triple.get_bind fun _ ht => ?_
  rintro t rfl
  refine Ends.bind ((giveBack_has hx t.se.tx t ⟨rfl, ht.running⟩).weaken (fun _ _ h => h) fun _ _ h => h.elim)
    fun err t₁ ht₁ => ?_
  obtain ⟨store, se₁⟩ := t₁
  obtain ⟨rfl, hrunning⟩ := ht₁
  have hheld : Held server others ⟨store, { t.se with txConns := [] }⟩ := ⟨hrunning, ht.verified⟩
  cases err with
  | none => exact hheld
  | some msg => exact hheld

theorem setSessionVariable_held (name : VariableName) (value : Option GoVal) :
    Triple (Held server others) (setSessionVariable name value) (fun _ => Held server others) fun _ =>
      Held server others := by
  cases value with
  | none =>
    intro t ht
    refine ⟨ht.running, ?_, fun e he => ?_⟩
    · exact ht.verified.keys.sublist (filter_sublist.map _)
    · exact ht.verified.verify e (mem_of_mem_filter he)
  | some value =>
    intro t ht
    unfold setSessionVariable Effect.zoom SessionVariables.set
    dsimp only
    rw [of_apply]
    cases hverify : name.verify value with
    | error e => exact ⟨ht.running, ht.verified⟩
    | ok _ =>
      refine ⟨ht.running, AssocMap.nodup_keys_set ht.verified.keys name value, fun e he => ?_⟩
      rcases AssocMap.mem_of_mem_set he with rfl | he
      · exact hverify
      · exact ht.verified.verify e he

end SessionExecutor

open SessionExecutor in
theorem Command.run_held {ι σ : Type} {server : TransactionServer ι σ} {others : List ConnId} (command : Command) :
    Triple (Held server others) (command.run server.peer) (fun _ => Held server others) fun _ =>
      Held server others := by
  cases command with
  | executeSQLs flag sqls => exact Triple.bind (executeSQLs_held flag sqls) fun _ _ ht => ht
  | executeSQL flag phyDB sql =>
    exact Triple.bind (fun t ht => useSlice_held ht "slice-0" flag phyDB (exec_keeps server.tracks (.user sql)))
      fun _ _ ht => ht
  | fieldList sliceName flag phyDB table wildcard =>
    exact Triple.bind (fun t ht => useSlice_held ht sliceName flag phyDB
      (fieldList_keeps server.tracks table wildcard)) fun _ _ ht => ht
  | setCharset charset collation => exact fun _ ht => ⟨ht.running, ht.verified⟩
  | setVariable name value => exact setSessionVariable_held name value
  | begin => exact handleBegin_held
  | commit => exact Triple.bind (R := fun _ => Held server others) (fun _ ht => ⟨ht.running,
      ht.verified⟩) fun _ => giveBackAll_held (exec_unit_keeps .commit)
  | rollback => exact Triple.bind (R := fun _ => Held server others) (fun _ ht => ⟨ht.running,
      ht.verified⟩) fun _ => giveBackAll_held (exec_unit_keeps .rollback)
  | rollbackTo name => exact giveBackAll_held (exec_unit_keeps (.rollbackTo name))
  | savepoint name => exact giveBackAll_held (exec_unit_keeps (.savepoint name))
  | setAutocommit on =>
    cases on with
    | true =>
      exact Triple.bind (R := fun _ => Held server others) (fun _ ht => ⟨ht.running, ht.verified⟩) fun _ =>
        giveBackAll_held (setAutoCommit_keeps true)
    | false => exact fun _ ht => ⟨ht.running, ht.verified⟩
  | close => exact Triple.bind (R := fun _ => Held server others) (fun _ ht => ⟨ht.running,
      ht.verified⟩) fun _ => giveBackAll_held (exec_unit_keeps .rollback)

/-! ### Runs -/

namespace System

variable {ι σ : Type} {server : TransactionServer ι σ}

/-- Each session holds what is in its transaction, and the rest is at rest. -/
structure Clean (server : TransactionServer ι σ) (s : System ι σ) : Prop where
  lending : s.store.Lending server (s.sessions.flatMap SessionExecutor.tx)
  verified : ∀ se ∈ s.sessions, se.state.sessionVariables.Verified

/-- No third dial behind a broken pipe is refused. -/
def Reachable : Event ι → Prop
  | .open _ _ _ => True
  | .command _ _ net => net.Reachable

theorem step_clean {s : System ι σ} (hs : s.Clean server) {event : Event ι} (hevent : Reachable event) :
    (s.step server.peer event).Clean server := by
  cases event with
  | «open» charset collation statisticUser =>
    refine ⟨?_, fun se hse => ?_⟩
    · show s.store.Lending server ((s.sessions ++ [_]).flatMap SessionExecutor.tx)
      rw [flatMap_append]
      simpa [newSession, SessionExecutor.tx] using hs.lending
    · rcases mem_append.1 hse with hse | hse
      · exact hs.verified se hse
      · rw [mem_singleton.1 hse]
        exact ⟨nodup_nil, nofun⟩
  | command i command net =>
    cases hi : s.sessions[i]? with
    | none =>
      have hstep : s.step server.peer (.command i command net) = s := by simp only [step, hi]
      rw [hstep]
      exact hs
    | some se =>
      have hstep : s.step server.peer (.command i command net) =
          ⟨(command.run server.peer ⟨{ s.store with net }, se⟩).2.store,
            s.sessions.set i (command.run server.peer ⟨{ s.store with net }, se⟩).2.se⟩ := by
        simp only [step, hi]
      rw [hstep]
      obtain ⟨hlt, hget⟩ := List.getElem?_eq_some_iff.1 hi
      -- the other sessions are a frame around the command
      let others := (s.sessions.take i).flatMap SessionExecutor.tx ++ (s.sessions.drop (i + 1)).flatMap
        SessionExecutor.tx
      have hperm : ∀ se', ((s.sessions.set i se').flatMap SessionExecutor.tx).Perm (se'.tx ++ others) := by
        intro se'
        rw [set_eq_take_append_cons_drop, if_pos hlt, flatMap_append, flatMap_cons]
        exact perm_append_comm_assoc _ _ _
      have hself : s.sessions.set i se = s.sessions := by rw [← hget, set_getElem_self]
      have hheld : SessionExecutor.Held server others ⟨{ s.store with net }, se⟩ := by
        have hlend := hs.lending.of_perm (hself ▸ hperm se).symm
        refine ⟨⟨hevent, hlend.pooled, hlend.nodup, hlend.lent, hlend.out_nodup, hlend.capacity⟩, ?_⟩
        exact hs.verified se (mem_of_getElem? hi)
      have hend := command.run_held _ hheld
      dsimp only
      generalize command.run server.peer ⟨{ s.store with net }, se⟩ = result at hend ⊢
      obtain ⟨result, t⟩ := result
      have ht : SessionExecutor.Held server others t := by
        cases result with
        | ok _ => exact hend
        | error _ => exact hend
      refine ⟨ht.running.lending.of_perm (hperm t.se), fun se' hse' => ?_⟩
      rcases mem_or_eq_of_mem_set hse' with hse' | rfl
      · exact hs.verified se' hse'
      · exact ht.verified

theorem run_clean {s : System ι σ} (hs : s.Clean server) {events : List (Event ι)}
    (hevents : ∀ e ∈ events, Reachable e) : (s.run server.peer events).Clean server := by
  induction events generalizing s with
  | nil => exact hs
  | cons event events ih =>
    exact ih (step_clean hs (hevents event mem_cons_self)) fun e he => hevents e (mem_cons_of_mem _ he)

theorem Fresh.clean {s : System ι σ} (h : s.Fresh) : s.Clean server := by
  have hnone : ∀ p c, some c ∉ (s.store.pools p).resources := fun p c hc => nomatch h.empty p _ hc
  refine ⟨⟨fun p c hc => (hnone p c hc).elim, fun p => ?_, ?_, ?_, fun p => ?_⟩, ?_⟩
  · have hempty : (s.store.pools p).resources.reduceOption = [] :=
      eq_nil_iff_forall_not_mem.2 fun c hc => hnone p c (reduceOption_mem_iff.1 hc)
    rw [hempty]
    exact nodup_nil
  · rw [h.sessions]
    nofun
  · rw [h.sessions]
    exact nodup_nil
  · rw [h.sessions]
    exact h.capacity p
  · rw [h.sessions]
    nofun

/-- However the commands of the sessions follow each other, a connection in a pool has no open transaction and is in
autocommit mode, if no third dial behind a broken pipe is refused. -/
theorem run_pools_idle (server : TransactionServer ι σ) {s : System ι σ} (hs : s.Fresh) {events : List (Event ι)}
    (hevents : ∀ e ∈ events, Reachable e) {p : PoolId} {c : ConnId}
    (hc : some c ∈ ((s.run server.peer events).store.pools p).resources) {conn : Conn σ} {session : σ}
    (hconn : ((s.run server.peer events).store.conns c).conn = some conn) (hsession : conn.peer = some session) :
    server.inTrans session = false ∧ server.autocommit session = true :=
  ((run_clean hs.clean hevents).lending.pooled p c hc).2.2.session hconn hsession

/-- However the commands of the sessions follow each other, a connection is in one place: with one session for one
slice, or once in one pool.  With those that are out, a pool never has more than its capacity. -/
theorem run_conns_exclusive (server : TransactionServer ι σ) {s : System ι σ} (hs : s.Fresh) {events : List (Event ι)}
    (hevents : ∀ e ∈ events, Reachable e) :
    let t := s.run server.peer events
    let out := t.sessions.flatMap SessionExecutor.tx
    out.Nodup ∧ (∀ p, (t.store.pools p).resources.reduceOption.Nodup) ∧
      (∀ p c, some c ∈ (t.store.pools p).resources → c ∉ out ∧ ∀ q, some c ∈ (t.store.pools q).resources → q = p) ∧
      ∀ p, (t.store.pools p).resources.length + out.countP (t.store.home · = p) ≤ (t.store.pools p).maxCapacity := by
  have hclean : s.Clean server := hs.clean
  have h := (run_clean hclean hevents).lending
  refine ⟨h.out_nodup, h.nodup, fun p c hc => ⟨h.not_mem_of_pooled hc, fun q hq => ?_⟩, h.capacity⟩
  exact (h.pooled q c hq).1.symm.trans (h.pooled p c hc).1

end System

namespace Reference

/-- A proxy in front of reference servers, with one connection for each pool. -/
def system : System Bool Session where
  store := {
    conns := fun _ => .fresh [] "utf8" 33
    home := fun _ => ⟨"slice-0", .master, 0⟩
    next := 0
    pools := fun _ => ⟨[none], 1, [], "utf8", 33⟩
    slices := fun _ => ⟨⟨0, [], 0⟩, ⟨0, [], 0⟩, ⟨0, [], 0⟩⟩
    net := calm }
  sessions := []

theorem system_fresh : system.Fresh := ⟨rfl, fun _ _ h => mem_singleton.1 h, fun _ => le_rfl⟩

def oneStatement : List (Event Bool) := [
  .open "utf8" 33 false,
  .command 0 (.executeSQL .master (.ok []) (ascii "a")) calm]

def single (sql : String) : SessionExecutor.DBSqls := ⟨[], [ascii sql], cons_ne_nil _ _⟩

/-- One session is in a transaction on a slice, another one has used the other slice. -/
def twoSessions : List (Event Bool) := [
  .open "utf8" 33 false,
  .command 0 .begin calm,
  .command 0 (.executeSQLs .master [("slice-0", [single "a"])]) calm,
  .open "utf8" 33 false,
  .command 1 (.executeSQLs .master [("slice-1", [single "b"])]) calm]

/-- A transaction over two slices.  The connection of the second one is lost for good during a statement. -/
def lostInTransaction : List (Event Bool) := [
  .open "utf8" 33 false,
  .command 0 .begin calm,
  .command 0 (.executeSQLs .master [("slice-0", [single "a"]), ("slice-1", [single "b"])]) calm,
  .command 0 (.executeSQLs .master [("slice-1", [single "c"])]) (broken none),
  .command 0 .commit calm,
  .command 0 .begin calm]

end Reference

open Reference in
theorem run_pools_idle_reference :
    ∃ conn session, ((system.run server.peer oneStatement).store.conns 0).conn = some conn ∧
    conn.peer = some session ∧ server.inTrans session = false ∧ server.autocommit session = true := by
  have hc : some 0 ∈ ((system.run server.peer oneStatement).store.pools ⟨"slice-0", .master, 0⟩).resources := by
    decide +kernel
  have hsession : (((system.run server.peer oneStatement).store.conns 0).conn.bind Conn.peer).isSome := by
    decide +kernel
  obtain ⟨session, hsession⟩ := Option.isSome_iff_exists.1 hsession
  obtain ⟨conn, hconn, hpeer⟩ := Option.bind_eq_some_iff.1 hsession
  refine ⟨conn, session, hconn, hpeer, System.run_pools_idle server system_fresh ?_ hc hconn hpeer⟩
  intro e he
  simp only [oneStatement, mem_cons, not_mem_nil, or_false] at he
  rcases he with rfl | rfl
  · trivial
  · exact fun _ => rfl

open Reference in
theorem run_conns_exclusive_reference :
    let t := system.run server.peer twoSessions
    let out := t.sessions.flatMap SessionExecutor.tx
    let pool := t.store.pools ⟨"slice-1", .master, 0⟩
    out = [0] ∧ pool.resources = [some 1] ∧ out.Nodup ∧ pool.resources.reduceOption.Nodup ∧ 1 ∉ out ∧
      (∀ q, some 1 ∈ (t.store.pools q).resources → q = ⟨"slice-1", .master, 0⟩) ∧
      pool.resources.length + out.countP (t.store.home · = ⟨"slice-1", .master, 0⟩) ≤ pool.maxCapacity := by
  intro t out pool
  have hpool : pool.resources = [some 1] := by decide +kernel
  have hevents : ∀ e ∈ twoSessions, System.Reachable e := by
    intro e he
    simp only [twoSessions, mem_cons, not_mem_nil, or_false] at he
    rcases he with rfl | rfl | rfl | rfl | rfl
    · trivial
    · exact fun _ => rfl
    · exact fun _ => rfl
    · trivial
    · exact fun _ => rfl
  obtain ⟨hout, hnodup, hpooled, hcapacity⟩ := System.run_conns_exclusive server system_fresh hevents
  obtain ⟨hmem, honly⟩ := hpooled ⟨"slice-1", .master, 0⟩ 1 (hpool ▸ mem_singleton_self _)
  exact ⟨by decide +kernel, hpool, hout, hnodup _, hmem, honly, hcapacity _⟩

open Reference in
/-- `COMMIT` panics at the lost connection behind the other one, on which the next `BEGIN` opens a transaction. -/
theorem run_pools_not_idle :
    some 0 ∈ ((system.run server.peer lostInTransaction).store.pools ⟨"slice-0", .master, 0⟩).resources ∧
      (((system.run server.peer lostInTransaction).store.conns 0).conn.bind Conn.peer).map server.inTrans =
        some true := by
  decide +kernel

end DbProxy
