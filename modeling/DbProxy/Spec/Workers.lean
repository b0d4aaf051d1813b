import DbProxy.Server.Executor
import DbProxy.Spec.Attached

/-!
# The workers of a statement

`executeInMultiSlices` goes on with the next statement of a slice after an error.  A connection that could not be
dialled again after a broken pipe has no socket then.
-/

namespace DbProxy

open Effect

namespace SessionExecutor

variable {ι σ α : Type}

/-- `I` holds between the operations on the connections `pcs`. -/
structure Carries (K : σ → Nat → Prop) (pcs : List ConnId) (I : Proxy ι σ → Prop) : Prop where
  onConn : ∀ c ∈ pcs, ∀ {α : Type} {x : Session ι σ α}, Keeps (Link.Sound K) x → Keeps I (onConn c x)
  verified : ∀ t, I t → t.se.state.sessionVariables.Verified

section Carries

variable {K : σ → Nat → Prop} {pcs : List ConnId} {I : Proxy ι σ → Prop} {r : Responder ι σ} (hK : r.Tracks K)
  (hI : Carries K pcs I)

include hK hI

theorem executeInDB_keeps {c : ConnId} (hc : c ∈ pcs) (sqls : List GoString) :
    Triple I (executeInDB r.peer c sqls) (fun _ => I) fun _ _ => False := by
  induction sqls with
  | nil => exact fun _ ht => ht
  | cons sql sqls ih =>
    refine Triple.bind (hI.onConn c hc (DirectConnection.exec_keeps hK _)).attempt fun result => ?_
    exact Triple.bind ih fun _ _ ht => ht

theorem executeInSlice_keeps {c : ConnId} (hc : c ∈ pcs) (sqls : List DBSqls) :
    Triple I (executeInSlice r.peer c sqls) (fun _ => I) fun _ _ => False := by
  induction sqls with
  | nil => exact fun _ ht => ht
  | cons e sqls ih =>
    obtain ⟨db, sqls', -⟩ := e
    refine Triple.get_bind fun t ht => ?_
    rintro _ rfl
    have hinit := hI.onConn c hc (initBackendConn_keeps hK db (hI.verified _ ht))
    refine Ends.bind (hinit.attempt _ ht) fun result t' ht' => ?_
    cases result with
    | error msg => exact ht'
    | ok _ =>
      refine Ends.bind (executeInDB_keeps hK hI hc sqls' t' ht') fun rs t₂ ht₂ => ?_
      exact Ends.bind (ih t₂ ht₂) fun _ _ h => h

theorem executeInSlices_keeps (work : List (ConnId × List DBSqls)) (hwork : ∀ w ∈ work, w.1 ∈ pcs) :
    Triple I (executeInSlices r.peer work) (fun _ => I) fun _ _ => False := by
  induction work with
  | nil => exact fun _ ht => ht
  | cons w work ih =>
    obtain ⟨pc, sqls⟩ := w
    refine Triple.bind (executeInSlice_keeps hK hI (hwork (pc, sqls) List.mem_cons_self) sqls) fun rs => ?_
    exact Triple.bind (ih fun w hw => hwork w (List.mem_cons_of_mem _ hw)) fun _ _ ht => ht

theorem executeInMultiSlices_keeps (sqls : Sqls) : Keeps I (executeInMultiSlices r.peer pcs sqls) := by
  intro t ht
  unfold executeInMultiSlices
  split
  · exact ⟨⟨_, rfl⟩, ht⟩
  split
  · exact ⟨⟨_, rfl⟩, ht⟩
  have hwork : ∀ w ∈ pcs.zip (sqls.map Prod.snd), w.1 ∈ pcs := fun w hw => (List.of_mem_zip hw).1
  refine Ends.bind ((executeInSlices_keeps hK hI _ hwork t ht).weaken (fun _ _ h => h) fun _ _ h => h.elim)
    fun rs t' ht' => ?_
  cases rs.mapM id with
  | ok answers => exact ht'
  | error msg => exact ⟨⟨msg, rfl⟩, ht'⟩

end Carries

/-- The connections that are in use have sockets, and the session has verified variables. -/
structure Afloat (K : σ → Nat → Prop) (pcs : List ConnId) (t : Proxy ι σ) : Prop where
  reachable : t.store.net.Reachable
  known : ∀ c ∈ pcs, (t.store.conns c).Known K
  verified : t.se.state.sessionVariables.Verified

theorem onStore_ends {x : Pooling ι σ α} {t : Proxy ι σ} {Q : α → Store ι σ → Prop} {E : Fail → Store ι σ → Prop}
    (h : Ends Q E (x t.store)) :
    Ends (fun a t' => Q a t'.store ∧ t'.se = t.se) (fun e t' => E e t'.store ∧ t'.se = t.se)
      (onStore x t) := by
  unfold onStore Effect.zoom
  rw [of_apply]
  generalize x t.store = result at h ⊢
  obtain ⟨result, store⟩ := result
  cases result with
  | ok a => exact ⟨h, rfl⟩
  | error e => exact ⟨h, rfl⟩

theorem afloat_carries (K : σ → Nat → Prop) (pcs : List ConnId) : Carries K pcs (Afloat (ι := ι) K pcs) where
  verified _ ht := ht.verified
  onConn c hc α x hx := by
    intro t ht
    have hlink := Store.onLink_ends (hx ⟨t.store.conns c, t.store.net⟩ ⟨ht.reachable, ht.known c hc⟩)
    have hnew : ∀ (t' : Proxy ι σ) (l : Link ι σ), l.Sound K → t'.store = t.store.withLink c l → t'.se = t.se →
        Afloat K pcs t' := by
      intro t' l hl hstore hse
      refine ⟨hstore ▸ hl.reachable, fun c' hc' => ?_, hse ▸ ht.verified⟩
      rw [hstore]
      show (Function.update t.store.conns c l.dc c').Known K
      by_cases heq : c' = c
      · rw [heq, Function.update_self]
        exact hl.known
      · rw [Function.update_of_ne heq]
        exact ht.known c' hc'
    refine (onStore_ends hlink).weaken ?_ ?_
    · rintro a t' ⟨⟨l, hl, hstore⟩, hse⟩
      exact hnew t' l hl hstore hse
    · rintro e t' ⟨⟨l, ⟨he, hl⟩, hstore⟩, hse⟩
      exact ⟨he, hnew t' l hl hstore hse⟩

theorem tracks_true (r : Responder ι σ) : r.Tracks fun _ _ => True :=
  ⟨fun _ => trivial, fun _ _ _ => trivial, fun _ _ _ => trivial, fun _ _ _ _ => trivial⟩

/-- If no third dial behind a broken pipe is refused, a statement ends in results or in an error, and every connection
still has a socket. -/
theorem executeInMultiSlices_sockets (r : Responder ι σ) (pcs : List ConnId) (sqls : Sqls) (t : Proxy ι σ)
    (hverified : t.se.state.sessionVariables.Verified)
    (hconns : ∀ c ∈ pcs, (t.store.conns c).conn.isSome ∧ (t.store.conns c).Fit) (hdials : t.store.net.Reachable) :
    Ends (fun _ t' => ∀ c ∈ pcs, (t'.store.conns c).conn.isSome)
      (fun e t' => IsError e ∧ ∀ c ∈ pcs, (t'.store.conns c).conn.isSome)
      (executeInMultiSlices r.peer pcs sqls t) := by
  have ht : Afloat (fun _ _ => True) pcs t :=
    ⟨hdials, fun c hc => ⟨(hconns c hc).1, (hconns c hc).2, fun _ _ _ _ _ => trivial⟩, hverified⟩
  refine (executeInMultiSlices_keeps (tracks_true r) (afloat_carries _ pcs) sqls t ht).weaken
    (fun _ t' ht' c hc => ?_) fun e t' h => ⟨h.1, fun c hc => ?_⟩
  · exact (ht'.known c hc).conn
  · exact (h.2.known c hc).conn

end SessionExecutor

namespace Reference

/-- A session that is about to use two connections. -/
def proxy (net : Net Bool) : Proxy Bool Session where
  store := {
    conns := fun _ => idle
    home := fun _ => ⟨"slice-0", .master, 0⟩
    next := 2
    pools := fun _ => ⟨[], 2, [], "utf8", 33⟩
    slices := fun _ => ⟨⟨0, [], 0⟩, ⟨0, [], 0⟩, ⟨0, [], 0⟩⟩
    net := net }
  se := { state := ⟨"utf8", 33, {}⟩ }

def twoStatements : SessionExecutor.Sqls := [("slice-0", [⟨[], [ascii "a", ascii "b"], List.cons_ne_nil _ _⟩])]

/-- The first write finds the pipe broken, two dials are refused, and the third ends in `dial`. -/
def broken (dial : Option Bool) : Net Bool :=
  ⟨fun third => Stream'.const (if third then dial else none), [.brokenPipe], Stream'.const true⟩

end Reference

open Reference in
theorem executeInMultiSlices_sockets_reference :
    Ends (fun _ t' => ∀ c ∈ [0], (t'.store.conns c).conn.isSome)
      (fun e t' => IsError e ∧ ∀ c ∈ [0], (t'.store.conns c).conn.isSome)
      (SessionExecutor.executeInMultiSlices responder.peer [0] twoStatements (proxy (broken (some true)))) :=
  SessionExecutor.executeInMultiSlices_sockets responder [0] twoStatements (proxy (broken (some true)))
    ⟨List.nodup_nil, nofun⟩ (fun _ _ => ⟨rfl, idle_fit⟩) fun _ => rfl

open Reference in
/-- The pipe is broken at the first statement and three dials are refused: the second statement finds no socket. -/
theorem executeInMultiSlices_nilConn :
    (SessionExecutor.executeInMultiSlices responder.peer [0] twoStatements (proxy (broken none))).1 =
      .error nilConn := by
  rfl

end DbProxy
