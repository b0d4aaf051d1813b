import Mathlib.Data.List.Forall2

/-!
# Postconditions

What a computation in a monad guarantees about its result.  A `Post` says for a monad when a predicate holds of the
result of a computation, in a way that goes through `pure` and `bind`: for a computation that can fail, whenever there
is a result (`Post.ok`); for one with a state, whenever it starts in a state with an invariant, which it must then
keep (`Post.state`).  A walk over a tree that is written for any monad needs its rule only once.
-/

structure Post (m : Type → Type) [Monad m] where
  holds : {α : Type} → m α → (α → Prop) → Prop
  of_pure : ∀ {α : Type} {a : α} {Q : α → Prop}, Q a → holds (pure a) Q
  of_bind : ∀ {α β : Type} {x : m α} {f : α → m β} {R : α → Prop} {Q : β → Prop},
    holds x R → (∀ a, R a → holds (f a) Q) → holds (x >>= f) Q

namespace Post

variable {m : Type → Type} [Monad m]

theorem of_mapM [LawfulMonad m] (post : Post m) {α β : Type} {f : α → m β} {R : α → β → Prop}
    (h : ∀ a, post.holds (f a) (R a)) (l : List α) : post.holds (l.mapM f) (List.Forall₂ R l) := by
  induction l with
  | nil =>
    rw [List.mapM_nil]
    exact post.of_pure List.Forall₂.nil
  | cons a l ih =>
    rw [List.mapM_cons]
    refine post.of_bind (h a) ?_
    intro b hb
    refine post.of_bind ih ?_
    intro bs hbs
    exact post.of_pure (List.Forall₂.cons hb hbs)

def ok (ε : Type) : Post (Except ε) where
  holds x Q := ∀ a, x = .ok a → Q a
  of_pure := by
    rintro α a Q hQ b hb
    cases hb
    exact hQ
  of_bind := by
    rintro α β x f R Q hx hf b hb
    cases x with
    | error e => cases hb
    | ok a => exact hf a (hx a rfl) b hb

/-- From a state with the invariant, which is kept. -/
def state {σ : Type} (I : σ → Prop) : Post (StateM σ) where
  holds x Q := ∀ s, I s → I (x s).2 ∧ Q (x s).1
  of_pure := fun hQ _ hs => ⟨hs, hQ⟩
  of_bind := by
    rintro α β x f R Q hx hf s hs
    obtain ⟨hs', hR⟩ := hx s hs
    exact hf _ hR _ hs'

end Post
