import Mathlib.Data.Option.NAry
import Mathlib.Tactic.ByContra

/-!
# Three-valued logic

The truth values of SQL: true, false, and `none` for unknown.  The disjunction of a list is true if one member is, and
false if all are; leaving members out changes nothing as long as what stays outweighs them (`any_filter_eq_iff`).
-/

namespace Kleene

variable {a b : Truth} {ts : List Truth}

abbrev Truth := Option Bool

def and : Truth → Truth → Truth
  | some false, _ => some false
  | _, some false => some false
  | some true, some true => some true
  | _, _ => none

def or : Truth → Truth → Truth
  | some true, _ => some true
  | _, some true => some true
  | some false, some false => some false
  | _, _ => none

theorem and_eq_true : and a b = some true ↔ a = some true ∧ b = some true := by
  rcases a with _ | _ | _ <;> rcases b with _ | _ | _ <;> simp [and]

theorem or_eq_true : or a b = some true ↔ a = some true ∨ b = some true := by
  rcases a with _ | _ | _ <;> rcases b with _ | _ | _ <;> simp [or]

theorem or_eq_false : or a b = some false ↔ a = some false ∧ b = some false := by
  rcases a with _ | _ | _ <;> rcases b with _ | _ | _ <;> simp [or]

theorem eq_iff : a = b ↔ (a = some true ↔ b = some true) ∧ (a = some false ↔ b = some false) := by
  rcases a with _ | _ | _ <;> rcases b with _ | _ | _ <;> simp

def any : List Truth → Truth
  | [] => some false
  | t :: ts => or t (any ts)

theorem any_eq_true : any ts = some true ↔ some true ∈ ts := by
  induction ts with
  | nil => simp [any]
  | cons t ts ih => rw [any, or_eq_true, ih, List.mem_cons, eq_comm]

theorem any_eq_false : any ts = some false ↔ ∀ t ∈ ts, t = some false := by
  induction ts with
  | nil => simp [any]
  | cons t ts ih => rw [any, or_eq_false, ih, List.forall_mem_cons]

/-- A disjunction keeps its value without the members that are false, and without those that another member, which
stays, outweighs. -/
theorem any_filter_eq_iff {α : Type*} (f : α → Truth) (q : α → Bool) (l : List α) :
    any ((l.filter q).map f) = any (l.map f) ↔
      ∀ a ∈ l, q a = false → f a = some false ∨ ∃ b ∈ l, q b = true ∧ (f b = some true ∨ f b = f a) := by
  rw [eq_iff, any_eq_true, any_eq_true, any_eq_false, any_eq_false]
  rw [List.forall_mem_map, List.forall_mem_map]
  simp only [List.mem_map, List.mem_filter, and_imp]
  constructor
  · rintro ⟨htrue, hfalse⟩ a ha hq
    rcases hfa : f a with _ | _ | _
    · -- unknown: the members that stay are not all false
      right
      by_contra hno
      have hall : ∀ b ∈ l, q b = true → f b = some false := by
        intro b hb hqb
        rcases hfb : f b with _ | _ | _
        · exact absurd ⟨b, hb, hqb, .inr hfb⟩ hno
        · rfl
        · exact absurd ⟨b, hb, hqb, .inl hfb⟩ hno
      rw [hfalse.1 hall a ha] at hfa
      cases hfa
    · exact .inl rfl
    · obtain ⟨b, ⟨hb, hqb⟩, hfb⟩ := htrue.2 ⟨a, ha, hfa⟩
      exact .inr ⟨b, hb, hqb, .inl hfb⟩
  · intro h
    refine ⟨⟨?_, ?_⟩, ?_, ?_⟩
    · rintro ⟨b, ⟨hb, _⟩, hfb⟩
      exact ⟨b, hb, hfb⟩
    · rintro ⟨a, ha, hfa⟩
      by_cases hq : q a = true
      · exact ⟨a, ⟨ha, hq⟩, hfa⟩
      · rcases h a ha (Bool.not_eq_true _ ▸ hq) with hf | ⟨b, hb, hqb, hfb⟩
        · rw [hfa] at hf
          cases hf
        · exact ⟨b, ⟨hb, hqb⟩, hfb.elim id (·.trans hfa)⟩
    · intro hall a ha
      by_cases hq : q a = true
      · exact hall a ha hq
      · rcases h a ha (Bool.not_eq_true _ ▸ hq) with hf | ⟨b, hb, hqb, hfb⟩
        · exact hf
        · rcases hfb with hfb | hfb
          · rw [hall b hb hqb] at hfb
            cases hfb
          · rw [← hfb, hall b hb hqb]
    · exact fun hall a ha _ => hall a ha

end Kleene
