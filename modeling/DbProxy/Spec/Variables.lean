import DbProxy.Mysql.Variables

/-!
# What `SetEqualsWith` does

The variables become those of the session that is about to use the connection, and the ones that are no longer set are
remembered as unused.
-/

namespace DbProxy

open Effect List

namespace SessionVariables

variable {v dst : SessionVariables} {name : VariableName} {value : GoVal} {l : AssocMap VariableName GoVal}

/-- What `Set` lets in: one value for each variable, and a verified one. -/
structure Verified (v : SessionVariables) : Prop where
  keys : v.vars.keys.Nodup
  verify : ∀ e ∈ v.vars, e.1.verify e.2 = .ok ()

theorem Verified.of_get (h : v.Verified) (hget : v.vars.get name = some value) : name.verify value = .ok () :=
  h.verify (name, value) (AssocMap.mem_of_get hget)

theorem set_eq (h : name.verify value = .ok ()) (v : SessionVariables) :
    set name value v = (.ok (), { v with vars := v.vars.set name value }) := by
  unfold set
  rw [h]
  rfl

theorem attempt_set_eq (h : name.verify value = .ok ()) (v : SessionVariables) :
    attemptErr (set name value) v = (.ok (.ok ()), { v with vars := v.vars.set name value }) := by
  unfold attemptErr Effect.attempt
  rw [bind_apply, of_apply, set_eq h]
  rfl

/-- From `v` to `v'` the variables became those of `dst`, as far as `names` goes; `changed` says whether some did. -/
structure Aligned (dst : SessionVariables) (names : List VariableName) (v : SessionVariables) (changed : Bool)
    (v' : SessionVariables) : Prop where
  get : ∀ name, v'.vars.get name = if name ∈ names then dst.vars.get name else v.vars.get name
  unused : ∀ name, name ∈ v'.unused ↔
    name ∈ v.unused ∨ name ∈ names ∧ v.vars.get name ≠ none ∧ dst.vars.get name = none
  unchanged : changed = false → v' = v

theorem get_filter_ne (m : AssocMap VariableName GoVal) (name name' : VariableName) :
    AssocMap.get (m.filter (·.1 ≠ name)) name' = if name = name' then none else m.get name' := by
  induction m with
  | nil => simp
  | cons e m ih =>
    obtain ⟨k, value⟩ := e
    by_cases hk : k = name
    · subst hk
      rw [filter_cons_of_neg (by simp), ih, AssocMap.get_cons]
      split <;> rfl
    · rw [filter_cons_of_pos (by simpa using hk), AssocMap.get_cons, AssocMap.get_cons, ih]
      by_cases hk' : k = name'
      · subst hk'
        rw [if_pos rfl, if_pos rfl, if_neg (Ne.symm hk)]
      · rw [if_neg hk', if_neg hk']

theorem mem_retire {name' : VariableName} :
    name' ∈ (v.retire name).unused ↔ name' ∈ v.unused ∨ name' = name := by
  unfold retire
  dsimp only
  split
  · next h =>
    constructor
    · exact .inl
    · rintro (h' | rfl)
      · exact h'
      · exact h
  · rw [mem_append, mem_singleton]

theorem align_spec (hdst : dst.Verified) (name : VariableName) (v : SessionVariables) :
    ∃ changed v', align dst name v = (.ok changed, v') ∧ Aligned dst [name] v changed v' := by
  have hset : ∀ value, dst.vars.get name = some value →
      Aligned dst [name] v true { v with vars := v.vars.set name value } := by
    intro value hvalue
    refine ⟨fun name' => ?_, fun name' => ?_, nofun⟩
    · rw [AssocMap.get_set]
      by_cases hname : name = name'
      · subst hname
        simp [hvalue]
      · simp [hname, Ne.symm hname]
    · constructor
      · exact .inl
      · rintro (h | ⟨hmem, -, hnone⟩)
        · exact h
        · rw [mem_singleton.1 hmem, hvalue] at hnone
          cases hnone
  unfold align
  rw [bind_ok get_apply]
  cases hsrc : v.vars.get name with
  | none =>
    cases hvalue : dst.vars.get name with
    | none =>
      refine ⟨false, v, rfl, fun name' => ?_, fun name' => ?_, fun _ => rfl⟩
      · by_cases hname : name' = name
        · subst hname
          simp [hsrc, hvalue]
        · simp [hname]
      · constructor
        · exact .inl
        · rintro (h | ⟨hmem, hne, -⟩)
          · exact h
          · rw [mem_singleton.1 hmem] at hne
            exact absurd hsrc hne
    | some value =>
      dsimp only
      rw [bind_ok (attempt_set_eq (hdst.of_get hvalue) v)]
      exact ⟨true, _, rfl, hset value hvalue⟩
  | some src =>
    cases hvalue : dst.vars.get name with
    | none =>
      refine ⟨true, v.retire name, rfl, fun name' => ?_, fun name' => ?_, nofun⟩
      · show AssocMap.get (v.vars.filter (·.1 ≠ name)) name' = _
        rw [get_filter_ne]
        by_cases hname : name = name'
        · subst hname
          simp [hvalue]
        · simp [hname, Ne.symm hname]
      · rw [mem_retire, mem_singleton]
        refine or_congr_right ⟨?_, fun h => h.1⟩
        rintro rfl
        exact ⟨rfl, by simp [hsrc], hvalue⟩
    | some value =>
      dsimp only
      by_cases heq : src = value
      · rw [if_neg (not_not.2 heq)]
        refine ⟨false, v, rfl, fun name' => ?_, fun name' => ?_, fun _ => rfl⟩
        · by_cases hname : name' = name
          · subst hname
            simp [hsrc, hvalue, heq]
          · simp [hname]
        · constructor
          · exact .inl
          · rintro (h | ⟨hmem, -, hnone⟩)
            · exact h
            · rw [mem_singleton.1 hmem, hvalue] at hnone
              cases hnone
      · rw [if_pos heq, bind_ok (attempt_set_eq (hdst.of_get hvalue) v)]
        exact ⟨true, _, rfl, hset value hvalue⟩

theorem alignAll_spec (hdst : dst.Verified) (names : List VariableName) (v : SessionVariables) :
    ∃ changed v', alignAll dst names v = (.ok changed, v') ∧ Aligned dst names v changed v' := by
  induction names generalizing v with
  | nil => exact ⟨false, v, rfl, by simp, by simp, fun _ => rfl⟩
  | cons name names ih =>
    obtain ⟨changed, v₁, heq, h₁⟩ := align_spec hdst name v
    obtain ⟨changed', v₂, heq', h₂⟩ := ih v₁
    refine ⟨changed' || changed, v₂, ?_, fun name' => ?_, fun name' => ?_, fun h => ?_⟩
    · unfold alignAll
      rw [bind_ok heq, bind_ok heq']
      rfl
    · rw [h₂.get, h₁.get]
      by_cases hmem : name' ∈ names
      · simp [hmem]
      · simp [hmem]
    · rw [h₂.unused, h₁.unused, h₁.get]
      by_cases hname : name' = name
      · subst hname
        simp
      · simp [hname]
    · rw [Bool.or_eq_false_iff] at h
      rw [h₂.unchanged h.1, h₁.unchanged h.2]

theorem setAll_eq (h : ∀ e ∈ l, e.1.verify e.2 = .ok ()) (v : SessionVariables) :
    setAll l v = (.ok (), { v with vars := l.foldl (fun m e => AssocMap.set m e.1 e.2) v.vars }) := by
  induction l generalizing v with
  | nil => rfl
  | cons e l ih =>
    obtain ⟨name, value⟩ := e
    unfold setAll
    rw [bind_ok (set_eq (h (name, value) mem_cons_self) v), ih fun e he => h e (mem_cons_of_mem _ he)]
    rfl

theorem get_foldl_set (hl : l.keys.Nodup) (m : AssocMap VariableName GoVal) (name : VariableName) :
    AssocMap.get (l.foldl (fun m e => AssocMap.set m e.1 e.2) m) name = (l.get name).or (m.get name) := by
  induction l generalizing m with
  | nil => rfl
  | cons e l ih =>
    obtain ⟨k, value⟩ := e
    obtain ⟨hk, hl⟩ := nodup_cons.1 hl
    rw [foldl_cons, ih hl, AssocMap.get_cons, AssocMap.get_set]
    by_cases hname : k = name
    · subst hname
      have hnone : AssocMap.get l k = none := by
        rw [← Option.not_isSome_iff_eq_none, AssocMap.get_isSome]
        exact hk
      simp [hnone]
    · simp [hname]

theorem foldl_retire (names : List VariableName) (v : SessionVariables) (name : VariableName) :
    (names.foldl retire v).vars.get name = (if name ∈ names then none else v.vars.get name) ∧
      (name ∈ (names.foldl retire v).unused ↔ name ∈ v.unused ∨ name ∈ names) := by
  induction names generalizing v with
  | nil => simp
  | cons k names ih =>
    obtain ⟨hget, hunused⟩ := ih (v.retire k)
    have hretire : (v.retire k).vars.get name = if k = name then none else v.vars.get name := get_filter_ne _ _ _
    refine ⟨?_, ?_⟩
    · rw [foldl_cons, hget, hretire]
      by_cases hname : name = k
      · simp [hname]
      · simp [hname, Ne.symm hname]
    · rw [foldl_cons, hunused, mem_retire, mem_cons, or_assoc]

theorem mem_all (name : VariableName) : name ∈ VariableName.all := by cases name <;> decide

theorem setEqualsWith_spec (hdst : dst.Verified) (v : SessionVariables) :
    ∃ changed v', setEqualsWith dst v = (.ok changed, v') ∧ Aligned dst VariableName.all v changed v' := by
  unfold setEqualsWith
  rw [bind_ok get_apply]
  by_cases hfirst : v.vars.isEmpty ∧ !dst.vars.isEmpty
  · rw [if_pos hfirst, bind_ok (setAll_eq hdst.verify v)]
    have hempty : v.vars = [] := isEmpty_iff.1 hfirst.1
    refine ⟨true, _, rfl, fun name => ?_, fun name => ?_, nofun⟩
    · show AssocMap.get (dst.vars.foldl _ v.vars) name = _
      rw [get_foldl_set hdst.keys, if_pos (mem_all name), hempty]
      simp
    · simp [hempty]
  rw [if_neg hfirst]
  by_cases hsecond : !v.vars.isEmpty ∧ dst.vars.isEmpty
  · rw [if_pos hsecond]
    have hempty : dst.vars = [] := isEmpty_iff.1 hsecond.2
    refine ⟨true, _, rfl, fun name => ?_, fun name => ?_, nofun⟩
    · rw [(foldl_retire _ v name).1, if_pos (mem_all name), hempty]
      split
      · rfl
      · next h => simpa [← AssocMap.get_isSome] using h
    · rw [(foldl_retire _ v name).2, hempty, ← AssocMap.get_isSome, Option.isSome_iff_ne_none]
      simp [mem_all]
  · rw [if_neg hsecond]
    exact alignAll_spec hdst VariableName.all v

end SessionVariables

end DbProxy
