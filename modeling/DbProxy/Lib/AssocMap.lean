import Mathlib.Data.List.Basic

/-!
# Finite maps as association lists

A map is the list of its entries in the order the keys were first set.  `get` reads, `set` writes, and `push`
appends to the list stored at a key, with a missing key read as the empty list (`getD`).  Filing the elements of a
list one by one groups them: under each key lie the elements filed there, in their order
(`Filing.get_fileAll`).
-/

abbrev AssocMap (κ ν : Type*) := List (κ × ν)

namespace AssocMap

variable {κ ν : Type*} [DecidableEq κ]
variable {m : AssocMap κ ν} {k : κ} {v : ν}

def get (m : AssocMap κ ν) (k : κ) : Option ν := List.lookup k m

def set (m : AssocMap κ ν) (k : κ) (v : ν) : AssocMap κ ν :=
  match m with
  | [] => [(k, v)]
  | (k', v') :: m => if k' = k then (k, v) :: m else (k', v') :: set m k v

def keys (m : AssocMap κ ν) : List κ := m.map Prod.fst

/-- The list stored at a key; a missing key holds the empty list. -/
def getD (m : AssocMap κ (List ν)) (k : κ) : List ν := (get m k).getD []

def push (m : AssocMap κ (List ν)) (k : κ) (x : ν) : AssocMap κ (List ν) := set m k (getD m k ++ [x])

@[simp] theorem get_nil (k : κ) : get ([] : AssocMap κ ν) k = none := rfl

theorem get_cons (k k' : κ) (v : ν) (m : AssocMap κ ν) :
    get ((k', v) :: m) k = if k' = k then some v else get m k := by
  unfold get
  rw [List.lookup_cons]
  by_cases h : k' = k
  · simp [h]
  · have : (k == k') = false := by simpa using Ne.symm h
    simp [h, this]

theorem get_set (m : AssocMap κ ν) (k k' : κ) (v : ν) :
    get (set m k v) k' = if k = k' then some v else get m k' := by
  induction m with
  | nil => simp [set, get_cons]
  | cons e m ih =>
    obtain ⟨k₀, v₀⟩ := e
    unfold set
    by_cases h : k₀ = k
    · subst h
      by_cases h' : k₀ = k' <;> simp [get_cons, h']
    · by_cases h' : k₀ = k'
      · subst h'
        simp [get_cons, h, Ne.symm h]
      · simp [get_cons, h, h', ih]

theorem mem_of_mem_set {e : κ × ν} (h : e ∈ set m k v) : e = (k, v) ∨ e ∈ m := by
  induction m with
  | nil => exact .inl (List.mem_singleton.1 h)
  | cons e₀ m ih =>
    unfold set at h
    split at h
    · exact (List.mem_cons.1 h).imp id (List.mem_cons_of_mem e₀)
    · rcases List.mem_cons.1 h with rfl | h
      · exact .inr List.mem_cons_self
      · exact (ih h).imp id (List.mem_cons_of_mem e₀)

@[simp] theorem get_set_self (m : AssocMap κ ν) (k : κ) (v : ν) : get (set m k v) k = some v := by
  simp [get_set]

theorem get_set_ne (m : AssocMap κ ν) {k' : κ} (h : k ≠ k') (v : ν) : get (set m k v) k' = get m k' := by
  simp [get_set, h]

theorem mem_of_get (h : get m k = some v) : (k, v) ∈ m := by
  induction m with
  | nil => simp at h
  | cons e m ih =>
    obtain ⟨k₀, v₀⟩ := e
    rw [get_cons] at h
    split at h
    · simp_all
    · exact List.mem_cons_of_mem _ (ih h)

theorem get_isSome : (get m k).isSome ↔ k ∈ keys m := by
  induction m with
  | nil => simp [keys]
  | cons e m ih =>
    obtain ⟨k₀, v₀⟩ := e
    rw [get_cons]
    unfold keys at ih ⊢
    by_cases h : k₀ = k
    · simp [h]
    · simp [h, ih, Ne.symm h]

theorem set_of_get_eq_none (h : get m k = none) (v : ν) : set m k v = m ++ [(k, v)] := by
  induction m with
  | nil => rfl
  | cons e m ih =>
    obtain ⟨k₀, v₀⟩ := e
    rw [get_cons] at h
    split at h
    · cases h
    · next hne =>
      unfold set
      rw [if_neg hne, ih h, List.cons_append]

theorem exists_set_of_get (h : get m k = some v) :
    ∃ m₁ m₂, m = m₁ ++ (k, v) :: m₂ ∧ ∀ v', set m k v' = m₁ ++ (k, v') :: m₂ := by
  induction m with
  | nil => cases h
  | cons e m ih =>
    obtain ⟨k₀, v₀⟩ := e
    rw [get_cons] at h
    split at h
    · next heq =>
      cases h
      subst heq
      exact ⟨[], m, rfl, fun v' => by unfold set; rw [if_pos rfl, List.nil_append]⟩
    · next hne =>
      obtain ⟨m₁, m₂, rfl, hset⟩ := ih h
      exact ⟨(k₀, v₀) :: m₁, m₂, rfl, fun v' => by unfold set; rw [if_neg hne, hset, List.cons_append]⟩

theorem nodup_keys_set (h : (keys m).Nodup) (k : κ) (v : ν) : (keys (set m k v)).Nodup := by
  cases hget : get m k with
  | none =>
    have hk : k ∉ keys m := fun hk => by
      have hsome := get_isSome.2 hk
      rw [hget] at hsome
      cases hsome
    rw [set_of_get_eq_none hget, keys, List.map_append]
    exact List.nodup_append.2 ⟨h, by simp, fun a ha b hb e => hk (by simp_all [keys])⟩
  | some w =>
    obtain ⟨m₁, m₂, rfl, hset⟩ := exists_set_of_get hget
    rw [hset]
    simpa [keys] using h

theorem get_eq_some_iff (h : (keys m).Nodup) : get m k = some v ↔ (k, v) ∈ m := by
  refine ⟨mem_of_get, fun hmem => ?_⟩
  induction m with
  | nil => cases hmem
  | cons e m ih =>
    obtain ⟨k₀, v₀⟩ := e
    obtain ⟨hk, h⟩ := List.nodup_cons.1 (show (k₀ :: keys m).Nodup from h)
    rw [get_cons]
    rcases List.mem_cons.1 hmem with heq | hmem
    · cases heq
      rw [if_pos rfl]
    · have hne : k₀ ≠ k := fun heq => hk (heq ▸ List.mem_map.2 ⟨(k, v), hmem, rfl⟩)
      rw [if_neg hne, ih h hmem]

theorem get_eq_of_perm {m' : AssocMap κ ν} (h : (keys m).Nodup) (hp : m.Perm m') (k : κ) : get m k = get m' k := by
  have h' : (keys m').Nodup := (hp.map Prod.fst).nodup_iff.1 h
  refine Option.ext fun v => ?_
  rw [get_eq_some_iff h, get_eq_some_iff h', hp.mem_iff]

theorem foldl_set_eq_append (entries m : AssocMap κ ν) (h : (keys (m ++ entries)).Nodup) :
    entries.foldl (fun m e => set m e.1 e.2) m = m ++ entries := by
  induction entries generalizing m with
  | nil => rw [List.foldl_nil, List.append_nil]
  | cons e entries ih =>
    have hnew : get m e.1 = none := by
      by_contra hget
      have hmem := get_isSome.1 (Option.isSome_iff_ne_none.2 hget)
      have hkeys : (keys m ++ e.1 :: keys entries).Nodup := by simpa [keys] using h
      exact (List.nodup_append.1 hkeys).2.2 e.1 hmem e.1 List.mem_cons_self rfl
    have hassoc : m ++ [e] ++ entries = m ++ e :: entries := by simp
    rw [List.foldl_cons, set_of_get_eq_none hnew, ih _ (hassoc ▸ h), hassoc]

theorem length_set_le (m : AssocMap κ ν) (k : κ) (v : ν) : (set m k v).length ≤ m.length + 1 := by
  cases hget : get m k with
  | none => simp [set_of_get_eq_none hget]
  | some w =>
    obtain ⟨m₁, m₂, rfl, hset⟩ := exists_set_of_get hget
    simp [hset]

theorem length_foldl_set_le (entries m : AssocMap κ ν) :
    (entries.foldl (fun m e => set m e.1 e.2) m).length ≤ m.length + entries.length := by
  induction entries generalizing m with
  | nil => exact Nat.le_refl _
  | cons e entries ih =>
    have hstep := ih (set m e.1 e.2)
    have hset := length_set_le m e.1 e.2
    rw [List.foldl_cons, List.length_cons]
    omega

theorem mem_of_mem_foldl_set {entries m : AssocMap κ ν} {e : κ × ν}
    (h : e ∈ entries.foldl (fun m e => set m e.1 e.2) m) : e ∈ entries ∨ e ∈ m := by
  induction entries generalizing m with
  | nil => exact .inr h
  | cons e₀ entries ih =>
    rcases ih h with hmem | hmem
    · exact .inl (List.mem_cons_of_mem _ hmem)
    · rcases mem_of_mem_set hmem with rfl | hmem
      · exact .inl List.mem_cons_self
      · exact .inr hmem

@[simp] theorem getD_nil (k : κ) : getD ([] : AssocMap κ (List ν)) k = [] := rfl

theorem getD_push (m : AssocMap κ (List ν)) (k k' : κ) (x : ν) :
    getD (push m k x) k' = if k = k' then getD m k' ++ [x] else getD m k' := by
  unfold push
  rw [getD, get_set]
  by_cases h : k = k' <;> simp [h, getD]

theorem get_push_isSome (m : AssocMap κ (List ν)) (k k' : κ) (x : ν) :
    (get (push m k x) k').isSome ↔ k = k' ∨ (get m k').isSome := by
  unfold push
  rw [get_set]
  by_cases h : k = k' <;> simp [h]

end AssocMap

/-- Elements filed under keys: the keys in the order of their first use, and the elements under each key. -/
structure Filing (κ ν : Type*) [DecidableEq κ] where
  order : List κ
  map : AssocMap κ (List ν)
  nodup : order.Nodup
  mem_order : ∀ k, k ∈ order ↔ (map.get k).isSome

namespace Filing

variable {κ ν : Type*} [DecidableEq κ]

def empty : Filing κ ν where
  order := []
  map := []
  nodup := List.nodup_nil
  mem_order := by simp

def file (s : Filing κ ν) (k : κ) (x : ν) : Filing κ ν where
  order := if (s.map.get k).isSome then s.order else s.order ++ [k]
  map := s.map.push k x
  nodup := by
    split
    · exact s.nodup
    · next h =>
      have hk : k ∉ s.order := fun hk => h ((s.mem_order k).1 hk)
      simpa [List.nodup_append] using ⟨s.nodup, fun a ha e => hk (e ▸ ha)⟩
  mem_order := by
    intro k'
    rw [AssocMap.get_push_isSome, ← s.mem_order k']
    split
    · next h =>
      constructor
      · exact Or.inr
      · rintro (rfl | h')
        · exact (s.mem_order k).2 h
        · exact h'
    · simp [or_comm, eq_comm]

def get (s : Filing κ ν) (k : κ) : List ν := s.map.getD k

def fileAll (s : Filing κ ν) (l : List (κ × ν)) : Filing κ ν := l.foldl (fun s e => s.file e.1 e.2) s

@[simp] theorem get_empty (k : κ) : (empty : Filing κ ν).get k = [] := rfl

theorem get_file (s : Filing κ ν) (k k' : κ) (x : ν) :
    (s.file k x).get k' = if k = k' then s.get k' ++ [x] else s.get k' :=
  AssocMap.getD_push s.map k k' x

theorem mem_order_file (s : Filing κ ν) (k k' : κ) (x : ν) : k' ∈ (s.file k x).order ↔ k = k' ∨ k' ∈ s.order := by
  rw [(s.file k x).mem_order, s.mem_order]
  exact AssocMap.get_push_isSome s.map k k' x

theorem get_fileAll (s : Filing κ ν) (l : List (κ × ν)) (k : κ) :
    (s.fileAll l).get k = s.get k ++ (l.filter (fun e => e.1 = k)).map Prod.snd := by
  induction l generalizing s with
  | nil => simp [fileAll]
  | cons e l ih =>
    have h : s.fileAll (e :: l) = (s.file e.1 e.2).fileAll l := rfl
    rw [h, ih, get_file]
    by_cases he : e.1 = k <;> simp [he]

theorem mem_order_fileAll (s : Filing κ ν) (l : List (κ × ν)) (k : κ) :
    k ∈ (s.fileAll l).order ↔ k ∈ s.order ∨ k ∈ l.map Prod.fst := by
  induction l generalizing s with
  | nil => simp [fileAll]
  | cons e l ih =>
    have h : s.fileAll (e :: l) = (s.file e.1 e.2).fileAll l := rfl
    rw [h, ih, mem_order_file, List.map_cons, List.mem_cons, eq_comm]
    tauto

end Filing
