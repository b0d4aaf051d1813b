import Mathlib.Logic.Basic

/-!
# Computations with a state that can fail

A computation reads and changes a state, and ends with a result or with a failure; the state it leaves behind is there
in both cases.  `Triple P x Q E` says what holds after `x` was started in a state with `P`: `Q` of the result and the
state, or `E` of the failure and the state.
-/

/-- `x s` is the result, or the failure, and the state that is left behind. -/
abbrev Effect (ε σ α : Type) := ExceptT ε (StateM σ) α

namespace Effect

variable {ε ε' σ τ α β : Type}

def of (f : σ → Except ε α × σ) : Effect ε σ α := f

def attempt (x : Effect ε σ α) : Effect ε' σ (Except ε α) := of fun s =>
  ((.ok (x s).1), (x s).2)

def zoom (part : τ → σ) (put : σ → τ → τ) (x : Effect ε σ α) : Effect ε τ α := of fun t =>
  ((x (part t)).1, put (x (part t)).2 t)

/-! ### Running -/

section Run

variable {s s' : σ}

@[simp] theorem pure_apply (a : α) : (pure a : Effect ε σ α) s = (.ok a, s) := rfl

@[simp] theorem throw_apply (e : ε) : (throw e : Effect ε σ α) s = (.error e, s) := rfl

@[simp] theorem get_apply : (get : Effect ε σ σ) s = (.ok s, s) := rfl

@[simp] theorem set_apply : (set s' : Effect ε σ PUnit) s = (.ok ⟨⟩, s') := rfl

@[simp] theorem modify_apply (f : σ → σ) : (modify f : Effect ε σ PUnit) s = (.ok ⟨⟩, f s) := rfl

@[simp] theorem of_apply (f : σ → Except ε α × σ) : of f s = f s := rfl

theorem bind_apply (x : Effect ε σ α) (f : α → Effect ε σ β) : (x >>= f) s = match x s with
    | (.ok a, s') => f a s'
    | (.error e, s') => (.error e, s') := by
  show (ExceptT.bindCont f (x s).1) (x s).2 = _
  generalize x s = r
  obtain ⟨r, s'⟩ := r
  cases r <;> rfl

theorem bind_ok {x : Effect ε σ α} {f : α → Effect ε σ β} {a : α} (h : x s = (.ok a, s')) : (x >>= f) s = f a s' := by
  rw [bind_apply, h]

theorem bind_error {x : Effect ε σ α} {f : α → Effect ε σ β} {e : ε} (h : x s = (.error e, s')) :
    (x >>= f) s = (.error e, s') := by
  rw [bind_apply, h]

end Run

/-! ### Triples -/

def Ends (Q : α → σ → Prop) (E : ε → σ → Prop) : Except ε α × σ → Prop
  | (.ok a, s) => Q a s
  | (.error e, s) => E e s

variable {Q Q' : α → σ → Prop} {R : β → σ → Prop} {E E' : ε → σ → Prop}

namespace Ends

variable {s : σ}

theorem weaken {r : Except ε α × σ} (h : Ends Q E r) (hQ : ∀ a s, Q a s → Q' a s) (hE : ∀ e s, E e s → E' e s) :
    Ends Q' E' r := by
  obtain ⟨r, s⟩ := r
  cases r with
  | ok a => exact hQ a s h
  | error e => exact hE e s h

theorem bind {x : Effect ε σ β} {f : β → Effect ε σ α} (hx : Ends R E (x s))
    (hf : ∀ b s', R b s' → Ends Q E (f b s')) : Ends Q E ((x >>= f) s) := by
  rw [bind_apply]
  generalize x s = r at hx ⊢
  obtain ⟨r, s'⟩ := r
  cases r with
  | ok b => exact hf b s' hx
  | error e => exact hx

theorem attempt {x : Effect ε σ α} {Q : Except ε α → σ → Prop} {E : ε' → σ → Prop}
    (h : Ends (fun a => Q (.ok a)) (fun e => Q (.error e)) (x s)) : Ends Q E (Effect.attempt x s) := by
  show Q (x s).1 (x s).2
  generalize x s = r at h ⊢
  obtain ⟨r, s'⟩ := r
  cases r with
  | ok a => exact h
  | error e => exact h

end Ends

def Triple (P : σ → Prop) (x : Effect ε σ α) (Q : α → σ → Prop) (E : ε → σ → Prop) : Prop :=
  ∀ s, P s → Ends Q E (x s)

namespace Triple

variable {P P' : σ → Prop}

theorem weaken {x : Effect ε σ α} (h : Triple P x Q E) (hP : ∀ s, P' s → P s) (hQ : ∀ a s, Q a s → Q' a s)
    (hE : ∀ e s, E e s → E' e s) : Triple P' x Q' E' := fun s hs => (h s (hP s hs)).weaken hQ hE

theorem of_forall {x : Effect ε σ α} (h : ∀ s, P s → Triple (· = s) x Q E) : Triple P x Q E :=
  fun s hs => h s hs s rfl

theorem bind {x : Effect ε σ β} {f : β → Effect ε σ α} (hx : Triple P x R E) (hf : ∀ b, Triple (R b) (f b) Q E) :
    Triple P (x >>= f) Q E := fun s hs => (hx s hs).bind fun b s' hb => hf b s' hb

theorem get {P : σ → Prop} {Q : σ → σ → Prop} (h : ∀ s, P s → Q s s) : Triple P (MonadState.get : Effect ε σ σ) Q E :=
  fun s hs => h s hs

theorem get_bind {f : σ → Effect ε σ α} (h : ∀ t, P t → Triple (· = t) (f t) Q E) :
    Triple P (MonadState.get >>= f) Q E :=
  bind (R := fun t s => s = t ∧ P t) (get fun _ hs => ⟨rfl, hs⟩) fun t s hs => h t hs.2 s hs.1

theorem modify {f : σ → σ} {Q : Unit → σ → Prop} (h : ∀ s, P s → Q () (f s)) :
    Triple P (modify f : Effect ε σ Unit) Q E := fun s hs => h s hs

theorem attempt {x : Effect ε σ α} {Q : Except ε α → σ → Prop} {E : ε' → σ → Prop}
    (h : Triple P x (fun a => Q (.ok a)) fun e => Q (.error e)) : Triple P (Effect.attempt x) Q E :=
  fun s hs => (h s hs).attempt

end Triple

end Effect
