import DbProxy.Spec.GroupRows

/-!
# Keys of rows

`generateMapKey` joins the texts of the values, each with a `+` behind it, and writes `NULL` for NULL.  A row without
a `+` in its texts can be read back from its key, up to a NULL and the text `NULL`.  For a row of texts nothing less
will do: a `+` in one of them can be moved into the next column.
-/

namespace DbProxy

open List

variable (go : Runtime)
variable {u v : List Cell} {c : Cell}

/-- NULL, and a text that looks the same in a key. -/
def Cell.NullClash (x y : Cell) : Prop :=
  (x = .null ∧ (y = .string (ascii "NULL") ∨ y = .bytes (ascii "NULL"))) ∨
  (y = .null ∧ (x = .string (ascii "NULL") ∨ x = .bytes (ascii "NULL")))

/-- A double: its text is left to the runtime. -/
def Cell.isFloat (c : Cell) : Prop := c.kind = 3

theorem formatValue_clash {x y : Cell} (hx : ¬x.isFloat) (hy : ¬y.isFloat) (hcomp : x.comparable y)
    (h : formatValue go x = formatValue go y) : x = y ∨ x.NullClash y := by
  by_cases hint : x.isInteger ∧ y.isInteger
  · exact .inl (formatValue_injective go hint.1 hint.2 hcomp h)
  cases x with
  | float64 => exact absurd rfl hx
  | null =>
    cases y with
    | float64 => exact absurd rfl hy
    | null => exact .inl rfl
    | int64 | uint64 => simp [Cell.isInteger, Cell.kind] at hint
    | string t => exact .inr (.inl ⟨rfl, .inl (congrArg _ h.symm)⟩)
    | bytes t => exact .inr (.inl ⟨rfl, .inr (congrArg _ h.symm)⟩)
  | int64 | uint64 =>
    cases y with
    | float64 => exact absurd rfl hy
    | null | int64 | uint64 => simp [Cell.isInteger, Cell.kind] at hint
    | string | bytes => simp [Cell.comparable, Cell.kind] at hcomp
  | string t =>
    cases y with
    | float64 => exact absurd rfl hy
    | null => exact .inr (.inr ⟨rfl, .inl (congrArg _ h)⟩)
    | string t' => exact .inl (congrArg _ h)
    | int64 | uint64 | bytes => simp [Cell.comparable, Cell.kind] at hcomp
  | bytes t =>
    cases y with
    | float64 => exact absurd rfl hy
    | null => exact .inr (.inr ⟨rfl, .inr (congrArg _ h)⟩)
    | bytes t' => exact .inl (congrArg _ h)
    | int64 | uint64 | string => simp [Cell.comparable, Cell.kind] at hcomp

theorem generateMapKey_cons (c : Cell) (cs : List Cell) :
    generateMapKey go (c :: cs) = formatValue go c ++ 43 :: generateMapKey go cs := by
  unfold generateMapKey
  rw [flatMap_cons, append_assoc]
  rfl

theorem generateMapKey_append (cs ds : List Cell) :
    generateMapKey go (cs ++ ds) = generateMapKey go cs ++ generateMapKey go ds := flatMap_append

theorem count_generateMapKey (cs : List Cell) :
    (generateMapKey go cs).count 43 = cs.length + (cs.map fun c => (formatValue go c).count 43).sum := by
  induction cs with
  | nil => rfl
  | cons c cs ih =>
    rw [generateMapKey_cons, count_append, count_cons_self, ih, length_cons, map_cons, sum_cons]
    omega

/-- If one of two rows has no separator in its texts, then neither has the other one with the same key. -/
theorem plusFree_of_key_eq (hlength : u.length = v.length) (h : generateMapKey go u = generateMapKey go v)
    (hu : ∀ c ∈ u, (43 : UInt8) ∉ formatValue go c) : ∀ c ∈ v, (43 : UInt8) ∉ formatValue go c := by
  have hcount := congrArg (List.count 43) h
  rw [count_generateMapKey, count_generateMapKey] at hcount
  have hzero : (u.map fun c => (formatValue go c).count 43).sum = 0 :=
    sum_eq_zero fun n hn => by
      obtain ⟨c, hc, rfl⟩ := mem_map.1 hn
      exact count_eq_zero_of_not_mem (hu c hc)
  intro c hc hmem
  have hle := single_le_sum (fun _ _ => Nat.zero_le _) _
    (mem_map_of_mem (f := fun c => (formatValue go c).count 43) hc)
  have hpos := count_pos_iff.2 hmem
  omega

theorem forall₂_of_key_eq (hlength : u.length = v.length) (h : generateMapKey go u = generateMapKey go v)
    (hu : ∀ c ∈ u, (43 : UInt8) ∉ formatValue go c) :
    Forall₂ (fun x y => formatValue go x = formatValue go y) u v := by
  have hv := plusFree_of_key_eq go hlength h hu
  induction u generalizing v with
  | nil =>
    cases v with
    | nil => exact .nil
    | cons _ _ => cases hlength
  | cons x u ih =>
    cases v with
    | nil => cases hlength
    | cons y v =>
      rw [generateMapKey_cons, generateMapKey_cons] at h
      obtain ⟨hfirst, hrest⟩ := append_separator_inj (hu x mem_cons_self) (hv y mem_cons_self) h
      exact .cons hfirst (ih (Nat.succ.inj hlength) hrest (fun c hc => hu c (mem_cons_of_mem _ hc))
        fun c hc => hv c (mem_cons_of_mem _ hc))

theorem generateMapKey_eq_of_plusFree (hu : ∀ c ∈ u, ¬c.isFloat) (hv : ∀ c ∈ v, ¬c.isFloat)
    (hcells : Forall₂ (fun x y => x.comparable y ∧ ¬x.NullClash y) u v)
    (hplus : ∀ c ∈ u, (43 : UInt8) ∉ formatValue go c) : generateMapKey go u = generateMapKey go v ↔ u = v := by
  refine ⟨fun h => ?_, fun h => by rw [h]⟩
  have htexts := forall₂_of_key_eq go hcells.length_eq h hplus
  clear h hplus
  induction hcells with
  | nil => rfl
  | @cons x y u v hxy _ ih =>
    obtain ⟨htext, htexts⟩ := forall₂_cons.1 htexts
    have hcell := formatValue_clash go (hu x mem_cons_self) (hv y mem_cons_self) hxy.1 htext
    rw [hcell.resolve_right hxy.2, ih (fun c hc => hu c (mem_cons_of_mem _ hc))
      (fun c hc => hv c (mem_cons_of_mem _ hc)) htexts]

/-! ### Rows of texts -/

def Cell.isText (c : Cell) : Prop := 4 ≤ c.kind

def Cell.withText : Cell → GoString → Cell
  | .bytes _, t => .bytes t
  | _, t => .string t

theorem formatValue_withText (c : Cell) (t : GoString) : formatValue go (c.withText t) = t := by
  cases c <;> rfl

theorem kind_withText (h : c.isText) (t : GoString) : (c.withText t).kind = c.kind := by
  cases c with
  | string | bytes => rfl
  | _ => simp [Cell.isText, Cell.kind] at h

theorem isFloat_withText (c : Cell) (t : GoString) : ¬(c.withText t).isFloat := by
  cases c <;> simp [Cell.withText, Cell.isFloat, Cell.kind]

theorem comparable_withText (h : c.isText) (t : GoString) : c.comparable (c.withText t) :=
  .inr (.inr (kind_withText h t).symm)

theorem not_isFloat_of_isText (h : c.isText) : ¬c.isFloat := by
  unfold Cell.isText Cell.isFloat at *
  omega

/-- Another row of the same type with the same key. -/
def SameKey (u v : List Cell) : Prop :=
  Forall₂ Cell.comparable u v ∧ (∀ c ∈ v, ¬c.isFloat) ∧ generateMapKey go u = generateMapKey go v ∧ u ≠ v

theorem sameKey_cut {l r : List Cell} {d : Cell} (hu : ∀ e ∈ l ++ c :: d :: r, ¬e.isFloat) (hc : c.isText)
    (hd : d.isText)
    {t s : GoString} (hcut : formatValue go c ++ 43 :: formatValue go d = t ++ 43 :: s) (hne : t ≠ formatValue go c) :
    SameKey go (l ++ c :: d :: r) (l ++ c.withText t :: d.withText s :: r) := by
  have hrefl : ∀ k : List Cell, Forall₂ Cell.comparable k k := fun k => forall₂_same.2 fun _ _ => .inr (.inr rfl)
  refine ⟨?_, fun e he => ?_, ?_, fun heq => hne ?_⟩
  · exact rel_append (hrefl l) (.cons (comparable_withText hc t) (.cons (comparable_withText hd s) (hrefl r)))
  · rcases mem_append.1 he with he | he
    · exact hu e (mem_append_left _ he)
    · rcases mem_cons.1 he with rfl | he
      · exact isFloat_withText c t
      · rcases mem_cons.1 he with rfl | he
        · exact isFloat_withText d s
        · exact hu e (by simp [he])
  · rw [generateMapKey_append, generateMapKey_append]
    simp only [generateMapKey_cons, formatValue_withText]
    rw [← cons_append, ← append_assoc (formatValue go c), hcut, append_assoc, cons_append]
  · have hcell := (List.cons.inj (append_cancel_left heq)).1
    rw [hcell, formatValue_withText]

/-- A separator in a text can be moved into the column beside it. -/
theorem exists_sameKey_of_plus (hu : ∀ c ∈ u, c.isText) (hlength : 2 ≤ u.length) (hc : c ∈ u)
    (hplus : (43 : UInt8) ∈ formatValue go c) : ∃ v, SameKey go u v := by
  have hfloat : ∀ d ∈ u, ¬d.isFloat := fun d hd => not_isFloat_of_isText (hu d hd)
  obtain ⟨a, b, hab⟩ := append_of_mem hplus
  obtain ⟨l, r, rfl⟩ := append_of_mem hc
  rcases r with _ | ⟨d, r⟩
  · rcases eq_nil_or_concat l with rfl | ⟨l, d, rfl⟩
    · simp at hlength
    · -- the last column: what is in front of the separator goes to the column before
      rw [concat_eq_append, append_assoc, singleton_append] at hu hfloat ⊢
      refine ⟨_, sameKey_cut go (t := formatValue go d ++ 43 :: a) (s := b) hfloat (hu d (by simp))
        (hu c (by simp)) ?_ ?_⟩
      · rw [hab, append_assoc, cons_append]
      · simp
  · refine ⟨_, sameKey_cut go (t := a) (s := b ++ 43 :: formatValue go d) hfloat (hu c (by simp))
      (hu d (by simp)) ?_ ?_⟩
    · rw [hab, append_assoc, cons_append]
    · rw [hab]
      simp

theorem exists_sameKey_of_null (hu : ∀ c ∈ u, c.isText) (hc : c ∈ u)
    (hnull : formatValue go c = ascii "NULL") : ∃ v, SameKey go u v := by
  obtain ⟨l, r, rfl⟩ := append_of_mem hc
  have hrefl : ∀ k : List Cell, Forall₂ Cell.comparable k k := fun k => forall₂_same.2 fun _ _ => .inr (.inr rfl)
  refine ⟨l ++ .null :: r, rel_append (hrefl l) (.cons (.inr (.inl rfl)) (hrefl r)), fun d hd => ?_, ?_,
    fun heq => ?_⟩
  · rcases mem_append.1 hd with hd | hd
    · exact not_isFloat_of_isText (hu d (mem_append_left _ hd))
    · rcases mem_cons.1 hd with rfl | hd
      · simp [Cell.isFloat, Cell.kind]
      · exact not_isFloat_of_isText (hu d (by simp [hd]))
  · rw [generateMapKey_append, generateMapKey_append, generateMapKey_cons, generateMapKey_cons, hnull]
    rfl
  · have hcell := (List.cons.inj (append_cancel_left heq)).1
    have htext := hu c (by simp)
    rw [hcell] at htext
    simp [Cell.isText, Cell.kind] at htext

/-- A row whose texts have no `+` shares its key with no other row, if no column holds NULL in one row and the text
`NULL` in the other.  For a row of two or more texts this is needed: it shares its key with no other row exactly if
none of its texts has a `+` or is `NULL`. -/
theorem generateMapKey_eq_iff {u : ResultRow} (hu : ∀ c ∈ u, ¬c.isFloat) :
    (∀ v : ResultRow, (∀ c ∈ v, ¬c.isFloat) → Forall₂ (fun x y => x.comparable y ∧ ¬x.NullClash y) u v →
      (∀ c ∈ u, (43 : UInt8) ∉ formatValue go c) → (generateMapKey go u = generateMapKey go v ↔ u = v)) ∧
    (2 ≤ u.length → (∀ c ∈ u, c.isText) →
      ((∀ v : ResultRow, (∀ c ∈ v, ¬c.isFloat) → Forall₂ Cell.comparable u v →
          (generateMapKey go u = generateMapKey go v ↔ u = v)) ↔
        ∀ c ∈ u, (43 : UInt8) ∉ formatValue go c ∧ formatValue go c ≠ ascii "NULL")) := by
  refine ⟨fun v hv hcells hplus => generateMapKey_eq_of_plusFree go hu hv hcells hplus,
    fun hlength htexts => ⟨fun h => ?_, ?_⟩⟩
  · have hnone : ¬∃ v, SameKey go u v := fun ⟨v, hcomp, hv, hkey, hne⟩ => hne ((h v hv hcomp).1 hkey)
    exact fun c hc => ⟨fun hplus => hnone (exists_sameKey_of_plus go htexts hlength hc hplus),
      fun hnull => hnone (exists_sameKey_of_null go htexts hc hnull)⟩
  · intro h v hv hcomp
    refine generateMapKey_eq_of_plusFree go hu hv ?_ fun c hc => (h c hc).1
    refine (Fallible.forall₂_congr_of_mem fun c hc d => ⟨fun hcd => ⟨hcd, ?_⟩, And.left⟩).1 hcomp
    rintro (⟨rfl, -⟩ | ⟨-, rfl | rfl⟩)
    · exact (h _ hc).2 rfl
    · exact (h _ hc).2 rfl
    · exact (h _ hc).2 rfl

theorem generateMapKey_eq_iff_texts : (∀ c ∈ [Cell.string (ascii "a"), .bytes (ascii "b")], c.isText) ∧
    ∀ v : ResultRow, (∀ c ∈ v, ¬c.isFloat) → Forall₂ Cell.comparable [.string (ascii "a"), .bytes (ascii "b")] v →
      (generateMapKey .reference [.string (ascii "a"), .bytes (ascii "b")] = generateMapKey .reference v ↔
        [.string (ascii "a"), .bytes (ascii "b")] = v) := by
  have htexts : ∀ c ∈ [Cell.string (ascii "a"), .bytes (ascii "b")], c.isText := by
    simp [Cell.isText, Cell.kind]
  have hplain : ∀ c ∈ [Cell.string (ascii "a"), .bytes (ascii "b")], ¬c.isFloat :=
    fun c hc => not_isFloat_of_isText (htexts c hc)
  refine ⟨htexts, ((generateMapKey_eq_iff .reference hplain).2 le_rfl htexts).2 fun c hc => ?_⟩
  rcases mem_cons.1 hc with rfl | hc
  · exact ⟨by decide, by decide⟩
  · obtain rfl := mem_singleton.1 hc
    exact ⟨by decide, by decide⟩

/-- Two rows of two strings, and a row with NULL, with the keys of other rows. -/
theorem generateMapKey_collisions :
    generateMapKey .reference [.string (ascii "a+b"), .string (ascii "c")] =
      generateMapKey .reference [.string (ascii "a"), .string (ascii "b+c")] ∧
    generateMapKey .reference [.null] = generateMapKey .reference [.string (ascii "NULL")] := by
  exact ⟨by decide, by decide⟩

end DbProxy
