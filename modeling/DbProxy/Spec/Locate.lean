import DbProxy.Spec.Atom

/-!
# Routes of single predicates

Which indexes the routes of comparisons, `IN` lists and `BETWEEN` keep: those where, as far as the indexes of the
literals tell, a key may satisfy the predicate (`Rule.admits`, `Rule.admitsBetween`).  All that is used of a rule to
see that the index of a key that does satisfy it is kept is that the rule locates keys in order (`Locates`): equal
keys at the same index and, where the rule is a range rule, smaller keys at smaller indexes.
-/

namespace DbProxy

open Fallible List
open SortedMerge (Reaches reaches_of_mem)
variable {rule rule' : Rule} {literal : Datum → Option Int} {k i : Int}

/-- The rule locates literals as it does the key `k`, which lies at index `i`. -/
structure Locates (rule : Rule) (literal : Datum → Option Int) (k i : Int) : Prop where
  eq : ∀ v j, literal v = some k → rule.findTableIndex v.value = .ok j → i = j
  le : ∀ v n j, rule.getShard.equalStart ≠ none → literal v = some n → rule.findTableIndex v.value = .ok j →
    k ≤ n → i ≤ j
  ge : ∀ v n j, rule.getShard.equalStart ≠ none → literal v = some n → rule.findTableIndex v.value = .ok j →
    n ≤ k → j ≤ i

/-- The start of a sub-table is its least key: a key below it lies at a smaller index. -/
def StartIsLeast (rule : Rule) (literal : Datum → Option Int) (k i : Int) : Prop :=
  ∀ equalStart v n j, rule.getShard.equalStart = some equalStart → literal v = some n →
    rule.findTableIndex v.value = .ok j → equalStart v.value j = .ok true → k < n → i < j

theorem getShard_of_parent (h : rule.parent = rule'.parent) : rule.getShard = rule'.getShard := by
  rw [Rule.getShard, Rule.getShard, h]

/-! ### The configured indexes -/

variable {rule : Rule}

section Configured

variable {i j : Int}

/-- The routes of a rule do not pass over the index `i`: the configured indexes in front of it are smaller, and an
interval that goes up to the last one has it. -/
structure Rule.Finds (rule : Rule) (i : Int) : Prop where
  reaches : Reaches i rule.getSubTableIndexes
  last : rule.getShard.equalStart ≠ none → ∀ j, rule.getLastTableIndex = .ok j → i ≤ j

theorem Rule.Finds.of_parent (h : rule.parent = rule'.parent) (hi : rule.Finds i) : rule'.Finds i := by
  obtain ⟨hreaches, hlast⟩ := hi
  unfold Rule.getLastTableIndex Rule.getSubTableIndexes at hlast
  rw [getShard_of_parent h, h] at hlast
  rw [Rule.getSubTableIndexes, h] at hreaches
  exact ⟨hreaches, hlast⟩

theorem Rule.Finds.first_le (h : rule.Finds i) (hj : rule.getFirstTableIndex = .ok j) : j ≤ i := by
  have hreaches := h.reaches
  unfold Rule.getFirstTableIndex at hj
  cases hl : rule.getSubTableIndexes with
  | nil => simp [hl] at hj
  | cons a l =>
    rw [hl] at hreaches hj
    obtain rfl : a = j := Except.ok.inj hj
    exact hreaches.head_le

theorem finds_of_increasing (h : Increasing rule.getSubTableIndexes) (hi : i ∈ rule.getSubTableIndexes) :
    rule.Finds i := by
  refine ⟨reaches_of_mem h hi, ?_⟩
  intro _ j hj
  unfold Rule.getLastTableIndex at hj
  cases hl : rule.getSubTableIndexes.getLast? with
  | none => simp [hl] at hj
  | some a =>
    rw [hl] at hj
    obtain rfl : a = j := Except.ok.inj hj
    obtain ⟨l, hl⟩ := getLast?_eq_some_iff.1 hl
    rw [hl] at h hi
    rcases mem_append.1 hi with hi | hi
    · exact le_of_lt ((pairwise_append.1 h).2.2 i hi a (mem_singleton_self a))
    · exact le_of_eq (mem_singleton.1 hi)

theorem reaches_iff_mem {l : List Int} (h : Increasing l) : Reaches i l ↔ i ∈ l := ⟨Reaches.mem, reaches_of_mem h⟩

theorem reaches_makeList {a b : Int} : Reaches i (makeList a b) ↔ a ≤ i ∧ i < b :=
  (reaches_iff_mem (increasing_makeList a b)).trans mem_makeList

end Configured

/-! ### Comparisons -/

variable {indexes : List Int}

section Compare

variable {op : Op} {column : String} {v : Datum}

theorem adjustShardIndex_cases {equalStart : GoVal → Int → Except Fail Bool} {v : GoVal} {j j' : Int}
    (h : adjustShardIndex equalStart v j = .ok j') :
    (equalStart v j = .ok true ∧ j' = j - 1) ∨ (equalStart v j = .ok false ∧ j' = j) := by
  unfold adjustShardIndex at h
  obtain ⟨b, hb, h⟩ := bind_eq_ok.1 h
  cases b with
  | true => exact .inl ⟨hb, (Except.ok.inj h).symm⟩
  | false => exact .inr ⟨hb, (Except.ok.inj h).symm⟩

def Op.isOrder : Op → Bool
  | .lt | .le | .gt | .ge => true
  | _ => false

/-- The first index above those where `key < v` may hold, when `v` lies at `j`: `j` itself when `v` starts its
sub-table. -/
def firstLeftOut (rule : Rule) (v : GoVal) (j : Int) : Int :=
  match rule.getShard.equalStart with
  | some equalStart => if equalStart v j = .ok true then j else j + 1
  | none => j + 1

theorem firstLeftOut_eq {equalStart : GoVal → Int → Except Fail Bool} {v : GoVal} {j j' : Int}
    (hs : rule.getShard.equalStart = some equalStart) (h : adjustShardIndex equalStart v j = .ok j') :
    firstLeftOut rule v j = j' + 1 := by
  rcases adjustShardIndex_cases h with ⟨hstart, rfl⟩ | ⟨hstart, rfl⟩ <;> simp [firstLeftOut, hs, hstart]

theorem le_firstLeftOut (rule : Rule) (v : GoVal) (j : Int) : j ≤ firstLeftOut rule v j := by
  unfold firstLeftOut
  split
  · split <;> omega
  · omega

def Rule.admitsAt (rule : Rule) (v : GoVal) (i j : Int) : Op → Prop
  | .eq => i = j
  | .lt => i < firstLeftOut rule v j
  | .le => i ≤ j
  | .gt | .ge => j ≤ i
  | _ => True

/-- As far as indexes tell, a key at index `i` may compare with the literal `v` as `op` says. -/
def Rule.admits (rule : Rule) (op : Op) (v : GoVal) (i : Int) : Prop :=
  ∀ j, rule.findTableIndex v = .ok j → (op.isOrder = true → rule.getShard.equalStart ≠ none) → rule.admitsAt v i j op

theorem Rule.admits_iff {v : GoVal} {i j : Int} (hj : rule.findTableIndex v = .ok j)
    (hs : op.isOrder = true → rule.getShard.equalStart ≠ none) : rule.admits op v i ↔ rule.admitsAt v i j op := by
  refine ⟨fun h => h j hj hs, fun h j' hj' _ => ?_⟩
  obtain rfl := ok_unique hj hj'
  exact h

theorem Rule.admits_of_other (hop : op.isCompare = false) (v : GoVal) (i : Int) :
    rule.admits op v i ∧ rule.admits (inverseOperator op) v i := by
  cases op <;> first | exact ⟨fun _ _ _ => trivial, fun _ _ _ => trivial⟩ | cases hop

theorem firstLeftOut_of_parent (h : rule.parent = rule'.parent) : firstLeftOut rule = firstLeftOut rule' := by
  unfold firstLeftOut
  rw [getShard_of_parent h]

theorem Rule.admits_of_parent (h : rule.parent = rule'.parent) : rule.admits = rule'.admits := by
  have hat : rule.admitsAt = rule'.admitsAt := by
    funext v i j op
    cases op <;> simp only [Rule.admitsAt, firstLeftOut_of_parent h]
  unfold Rule.admits Rule.findTableIndex
  rw [getShard_of_parent h, hat]

/-- The route of a comparison: all indexes, one index, or an interval up to or from the index of the literal. -/
inductive CompareRoute (rule : Rule) : Op → String → GoVal → List Int → Prop where
  | all {op : Op} {column : String} {v : GoVal}
      (h : rule.getShardingColumn ≠ column ∨ op ≠ .eq ∧ (rule.getShard.equalStart = none ∨ op.isOrder = false)) :
      CompareRoute rule op column v rule.getSubTableIndexes
  | eq {column : String} {v : GoVal} {j : Int} (hc : rule.getShardingColumn = column)
      (hj : rule.findTableIndex v = .ok j) : CompareRoute rule .eq column v [j]
  | lt {column : String} {v : GoVal} {j j' a : Int} {equalStart : GoVal → Int → Except Fail Bool}
      (hc : rule.getShardingColumn = column) (hs : rule.getShard.equalStart = some equalStart)
      (hj : rule.findTableIndex v = .ok j) (hj' : adjustShardIndex equalStart v j = .ok j')
      (ha : rule.getFirstTableIndex = .ok a) : CompareRoute rule .lt column v (makeList a (j' + 1))
  | le {column : String} {v : GoVal} {j a : Int} {equalStart : GoVal → Int → Except Fail Bool}
      (hc : rule.getShardingColumn = column) (hs : rule.getShard.equalStart = some equalStart)
      (hj : rule.findTableIndex v = .ok j) (ha : rule.getFirstTableIndex = .ok a) :
      CompareRoute rule .le column v (makeList a (j + 1))
  | above {op : Op} {column : String} {v : GoVal} {j b : Int} {equalStart : GoVal → Int → Except Fail Bool}
      (hop : op = .gt ∨ op = .ge) (hc : rule.getShardingColumn = column)
      (hs : rule.getShard.equalStart = some equalStart) (hj : rule.findTableIndex v = .ok j)
      (hb : rule.getLastTableIndex = .ok b) : CompareRoute rule op column v (makeList j (b + 1))

theorem compareRoute_of_ok {v : GoVal} (h : findTableIndexes op rule column v = .ok indexes) :
    CompareRoute rule op column v indexes := by
  unfold findTableIndexes at h
  split at h
  · next hc =>
    cases h
    exact .all (.inl hc)
  next hc =>
  rw [not_not] at hc
  cases op with
  | eq =>
    obtain ⟨j, hj, h⟩ := bind_eq_ok.1 h
    cases h
    exact .eq hc hj
  | lt | le | gt | ge =>
    simp only at h
    split at h
    · next hs =>
      cases h
      exact .all (.inr ⟨by simp, .inl hs⟩)
    next equalStart hs =>
    obtain ⟨j, hj, h⟩ := bind_eq_ok.1 h
    first
    | -- upwards from the index of the literal
      obtain ⟨b, hb, h⟩ := bind_eq_ok.1 h
      cases h
      exact .above (by simp) hc hs hj hb
    | -- downwards, after the adjustment that only `<` makes
      obtain ⟨j', hj', h⟩ := bind_eq_ok.1 h
      obtain ⟨a, ha, h⟩ := bind_eq_ok.1 h
      first
      | cases h
        exact .lt hc hs hj hj' ha
      | cases hj'
        cases h
        exact .le hc hs hj ha
  | _ =>
    cases h
    exact .all (.inr ⟨by simp, .inr rfl⟩)

theorem CompareRoute.increasing {v : GoVal} (h : CompareRoute rule op column v indexes)
    (hsub : Increasing rule.getSubTableIndexes) : Increasing indexes := by
  cases h with
  | all => exact hsub
  | eq => exact pairwise_singleton _ _
  | lt | le | above => exact increasing_makeList _ _

theorem CompareRoute.reaches_iff {v : GoVal} {i : Int} (h : CompareRoute rule op column v indexes)
    (hc : rule.getShardingColumn = column) (hi : rule.Finds i) : Reaches i indexes ↔ rule.admits op v i := by
  cases h with
  | all h =>
    refine iff_of_true hi.reaches fun j _ hs => ?_
    obtain ⟨hne, h⟩ := h.resolve_left (not_not.2 hc)
    cases op with
    | eq => exact absurd rfl hne
    | lt | le | gt | ge => exact absurd (h.resolve_right (by simp [Op.isOrder])) (hs rfl)
    | _ => trivial
  | @eq _ _ j _ hj =>
    rw [Rule.admits_iff hj (by simp [Op.isOrder])]
    simp [Reaches, Rule.admitsAt, eq_comm]
  | @lt _ _ j j' a equalStart _ hs hj hj' ha =>
    rw [Rule.admits_iff hj (by simp [hs]), reaches_makeList, Rule.admitsAt, firstLeftOut_eq hs hj']
    exact and_iff_right (hi.first_le ha)
  | @le _ _ j a equalStart _ hs hj ha =>
    rw [Rule.admits_iff hj (by simp [hs]), reaches_makeList, Int.lt_add_one_iff]
    exact and_iff_right (hi.first_le ha)
  | @above _ _ _ j b equalStart hop' _ hs hj hb =>
    have := hi.last (by simp [hs]) b hb
    rw [Rule.admits_iff hj (by simp [hs]), reaches_makeList]
    rcases hop' with rfl | rfl <;> exact and_iff_left (by omega)

theorem holds_inverseOperator (hop : op.isCompare = true) (a b : Int) :
    (inverseOperator op).holds a b = op.holds b a := by
  cases op with
  | eq | ne => simp [inverseOperator, Op.holds, eq_comm]
  | lt | le | gt | ge => simp [inverseOperator, Op.holds]
  | _ => simp [Op.isCompare] at hop

variable {literal : Datum → Option Int} {k i n : Int} (hloc : Locates rule literal k i)
  (hstart : StartIsLeast rule literal k i)

include hloc hstart

theorem lt_firstLeftOut {j : Int} (hs : rule.getShard.equalStart ≠ none) (hv : literal v = some n)
    (hj : rule.findTableIndex v.value = .ok j) (hlt : k < n) : i < firstLeftOut rule v.value j := by
  obtain ⟨equalStart, hs'⟩ := Option.ne_none_iff_exists'.1 hs
  have hij := hloc.le v n j hs hv hj hlt.le
  unfold firstLeftOut
  rw [hs']
  simp only
  split
  · next h => exact hstart equalStart v n j hs' hv hj h hlt
  · omega

theorem admits_of_holds (hv : literal v = some n) (hop : op.holds k n = true) : rule.admits op v.value i := by
  intro j hj hs
  cases op with
  | eq =>
    have hk : k = n := by simpa [Op.holds] using hop
    exact hloc.eq v j (hk ▸ hv) hj
  | lt => exact lt_firstLeftOut hloc hstart (hs rfl) hv hj (by simpa [Op.holds] using hop)
  | le => exact hloc.le v n j (hs rfl) hv hj (by simpa [Op.holds] using hop)
  | gt => exact hloc.ge v n j (hs rfl) hv hj (le_of_lt (by simpa [Op.holds] using hop))
  | ge => exact hloc.ge v n j (hs rfl) hv hj (by simpa [Op.holds] using hop)
  | _ => trivial

end Compare

/-! ### `IN` lists -/

variable {c : ColumnName} {isNot : Bool}

section PatternIn

variable {list : List (Expr Parsed)} {dec : PatternInExprDecorator}
variable {vs : List Datum} {ρ : Reading} {ns : List Int}

theorem checkValueType_eq {n : Nat} (h : checkValueType n list = .ok vs) :
    list = vs.map Expr.value := by
  induction list generalizing n vs with
  | nil =>
    cases h
    rfl
  | cons e es ih =>
    cases e with
    | value v =>
      obtain ⟨ws, hws, h⟩ := bind_eq_ok.1 h
      cases h
      rw [ih hws, map_cons]
    | _ => cases h

theorem fileValues_eq_ok {s s' : Filing Int (Expr Parsed)} :
    fileValues rule s vs = .ok s' ↔
      ∃ js, Forall₂ (fun v j => rule.findTableIndex v.value = .ok j) vs js ∧
        s' = s.fileAll (js.zip (vs.map Expr.value)) := by
  induction vs generalizing s with
  | nil => simp [fileValues, Filing.fileAll, eq_comm]
  | cons v vs ih =>
    simp only [fileValues, bind_eq_ok, ih]
    constructor
    · rintro ⟨j, hj, js, hjs, rfl⟩
      exact ⟨j :: js, Forall₂.cons hj hjs, rfl⟩
    · rintro ⟨js, hjs, rfl⟩
      cases hjs with
      | cons hj hjs => exact ⟨_, hj, _, hjs, rfl⟩

def Expr.tableIndex (rule : Rule) : Expr Parsed → Option Int
  | .value v => (rule.findTableIndex v.value).toOption
  | _ => none

theorem tableIndex_of_parent (h : rule.parent = rule'.parent) (e : Expr Parsed) :
    e.tableIndex rule = e.tableIndex rule' := by
  cases e <;> simp only [Expr.tableIndex, Rule.findTableIndex, getShard_of_parent h]

theorem tableIndex_value {v : Datum} {j : Int} :
    (Expr.value v).tableIndex rule = some j ↔ rule.findTableIndex v.value = .ok j := by
  rw [Expr.tableIndex]
  cases rule.findTableIndex v.value <;> simp [Except.toOption]

/-- The route of an `IN`: all indexes, or the indexes of its values. -/
inductive InRoute (rule : Rule) (c : ColumnName) (list : List (Expr Parsed)) :
    Bool → PatternInExprDecorator → Prop where
  | broadcast {isNot : Bool} (h : rule.getType = .global ∨ isNot = true ∨ rule.getShardingColumn ≠ c.name.l) :
      InRoute rule c list isNot
        ⟨rule.getSubTableIndexes, getBroadcastValueMap rule.getSubTableIndexes list⟩
  | filed {vs : List Datum} {js : List Int} (hr : rule.getType ≠ .global) (hc : rule.getShardingColumn = c.name.l)
      (hvs : list = vs.map Expr.value)
      (hjs : Forall₂ (fun v j => rule.findTableIndex v.value = .ok j) vs js) :
      InRoute rule c list false
        ⟨sortInts (Filing.empty.fileAll (js.zip list)).order, (Filing.empty.fileAll (js.zip list)).map⟩

theorem inRoute_of_ok (h : getPatternInRouteResult c isNot rule list = .ok dec) :
    InRoute rule c list isNot dec := by
  unfold getPatternInRouteResult at h
  simp only at h
  split at h
  · next hg =>
    cases h
    exact .broadcast (.inl hg)
  · next hg =>
    obtain ⟨vs, hvs, h⟩ := bind_eq_ok.1 h
    rw [wrapErr_eq_ok] at hvs
    split at h
    · next hn =>
      cases h
      exact .broadcast (.inr (.inl hn))
    · next hn =>
      split at h
      · next hc =>
        cases h
        exact .broadcast (.inr (.inr hc))
      · next hc =>
        rw [not_not] at hc
        obtain ⟨filed, hfiled, h⟩ := bind_eq_ok.1 h
        obtain ⟨js, hjs, rfl⟩ := fileValues_eq_ok.1 hfiled
        cases h
        rw [Bool.not_eq_true] at hn
        subst hn
        rw [← checkValueType_eq hvs]
        exact .filed hg hc (checkValueType_eq hvs) hjs

theorem InRoute.increasing (h : InRoute rule c list isNot dec)
    (hsub : Increasing rule.getSubTableIndexes) : Increasing dec.tableIndexes := by
  cases h with
  | broadcast => exact hsub
  | filed => exact increasing_sortInts (Filing.nodup _)

theorem mem_order_filed {js : List Int} (hjs : Forall₂ (fun v j => rule.findTableIndex v.value = .ok j) vs js)
    {j : Int} : j ∈ (Filing.empty.fileAll (js.zip (vs.map (Expr.value (P := Parsed))))).order ↔ j ∈ js := by
  have hlen : js.length ≤ (vs.map (Expr.value (P := Parsed))).length := by
    rw [length_map, hjs.length_eq]
  rw [Filing.mem_order_fileAll, map_fst_zip hlen]
  simp [Filing.empty]

theorem InRoute.reaches_iff {i : Int} (h : InRoute rule c list isNot dec) (hg : rule.getType ≠ .global)
    (hc : rule.getShardingColumn = c.name.l) (hi : rule.Finds i) : Reaches i dec.tableIndexes ↔
      (isNot = false → ∃ e ∈ list, ∀ j, e.tableIndex rule = some j → i = j) := by
  cases h with
  | broadcast h =>
    refine iff_of_true hi.reaches fun hn => ?_
    rcases h with h | h | h
    · exact absurd h hg
    · simp [hn] at h
    · exact absurd hc h
  | @filed vs js _ _ hvs hjs =>
    subst hvs
    rw [forall_prop_of_true rfl, reaches_iff_mem (increasing_sortInts (Filing.nodup _)), mem_sortInts,
      mem_order_filed hjs]
    constructor
    · intro hi
      obtain ⟨v, hv, hfind⟩ := exists_of_mem hjs.flip hi
      refine ⟨.value v, mem_map_of_mem hv, fun j hj => ?_⟩
      exact ok_unique hfind (tableIndex_value.1 hj)
    · rintro ⟨_, he, hall⟩
      obtain ⟨v, hv, rfl⟩ := mem_map.1 he
      obtain ⟨j, hj, hfind⟩ := exists_of_mem hjs hv
      rwa [hall j (tableIndex_value.2 hfind)]

end PatternIn

/-! ### `BETWEEN` -/

section Between

variable {left right : Expr Parsed}
variable {k x y : Int}

/-- The route of a `BETWEEN`: all indexes; the interval between the indexes of the bounds; or, for `NOT BETWEEN`,
what lies up to the lower and from the upper of the two, the lower one adjusted by the bound that lies there. -/
inductive BetweenRoute (rule : Rule) (c : ColumnName) : Expr Parsed → Expr Parsed → Bool → List Int → Prop where
  | all {left right : Expr Parsed} {isNot : Bool}
      (h : rule.getType = .global ∨ rule.getShardingColumn ≠ c.name.l ∨ rule.getShard.equalStart = none) :
      BetweenRoute rule c left right isNot rule.getSubTableIndexes
  | inside {a b : Datum} {ja jb : Int} {equalStart : GoVal → Int → Except Fail Bool}
      (hs : rule.getShard.equalStart = some equalStart) (hc : rule.getShardingColumn = c.name.l)
      (ha : rule.findTableIndex a.value = .ok ja) (hb : rule.findTableIndex b.value = .ok jb) :
      BetweenRoute rule c (.value a) (.value b) false (makeList (min ja jb) (max ja jb + 1))
  | outside {a b : Datum} {ja jb j f l : Int} {equalStart : GoVal → Int → Except Fail Bool}
      (hs : rule.getShard.equalStart = some equalStart) (hc : rule.getShardingColumn = c.name.l)
      (ha : rule.findTableIndex a.value = .ok ja) (hb : rule.findTableIndex b.value = .ok jb)
      (hj : adjustShardIndex equalStart (if ja > jb then b.value else a.value) (min ja jb) = .ok j)
      (hf : rule.getFirstTableIndex = .ok f) (hl : rule.getLastTableIndex = .ok l) :
      BetweenRoute rule c (.value a) (.value b) true
        (unionList (makeList f (j + 1)) (makeList (max ja jb) (l + 1)))

theorem betweenRoute_of_ok (h : getBetweenExprRouteResult rule c left right isNot = .ok indexes) :
    BetweenRoute rule c left right isNot indexes := by
  unfold getBetweenExprRouteResult at h
  split at h
  · next hg =>
    cases h
    exact .all (.inl hg)
  split at h
  · next hc =>
    cases h
    exact .all (.inr (.inl hc))
  next hc =>
  rw [not_not] at hc
  split at h
  · next equalStart hs =>
    unfold getShardBetweenExprRouteResult at h
    split at h
    · next a b =>
      obtain ⟨ja, ha, h⟩ := bind_eq_ok.1 h
      obtain ⟨jb, hb, h⟩ := bind_eq_ok.1 h
      rw [wrapErr_eq_ok] at ha hb
      cases isNot with
      | true =>
        rw [if_pos rfl] at h
        obtain ⟨⟨start, last⟩, hsl, h⟩ := bind_eq_ok.1 h
        obtain ⟨f, hf, h⟩ := bind_eq_ok.1 h
        obtain ⟨l, hl, h⟩ := bind_eq_ok.1 h
        cases h
        unfold notBetweenBounds at hsl
        split at hsl
        · next hgt =>
          obtain ⟨j, hj, hsl⟩ := bind_eq_ok.1 hsl
          cases hsl
          have hmin : min ja jb = jb := min_eq_right (le_of_lt hgt)
          have hmax : max ja jb = ja := max_eq_left (le_of_lt hgt)
          have hroute := BetweenRoute.outside (j := start) hs hc ha hb (by rw [if_pos hgt, hmin]; exact hj) hf hl
          rwa [hmax] at hroute
        · next hle =>
          obtain ⟨j, hj, hsl⟩ := bind_eq_ok.1 hsl
          cases hsl
          have hmin : min ja jb = ja := min_eq_left (not_lt.1 hle)
          have hmax : max ja jb = jb := max_eq_right (not_lt.1 hle)
          have hroute := BetweenRoute.outside (j := start) hs hc ha hb (by rw [if_neg hle, hmin]; exact hj) hf hl
          rwa [hmax] at hroute
      | false =>
        have hroute := BetweenRoute.inside hs hc ha hb
        simp only [Bool.false_eq_true, if_false] at h
        split at h
        · next hgt =>
          cases h
          rwa [min_eq_right (le_of_lt hgt), max_eq_left (le_of_lt hgt)] at hroute
        · next hle =>
          cases h
          rwa [min_eq_left (not_lt.1 hle), max_eq_right (not_lt.1 hle)] at hroute
    · cases h
    · cases h
  · next hs =>
    cases h
    exact .all (.inr (.inr hs))

theorem BetweenRoute.increasing (h : BetweenRoute rule c left right isNot indexes)
    (hsub : Increasing rule.getSubTableIndexes) : Increasing indexes := by
  cases h with
  | all => exact hsub
  | inside => exact increasing_makeList _ _
  | outside => exact increasing_unionList (increasing_makeList _ _) (increasing_makeList _ _)

variable {a b : Datum} {i : Int}

/-- As far as indexes tell, a key at index `i` may satisfy the `BETWEEN`. -/
def Rule.admitsBetween (rule : Rule) (isNot : Bool) (a b : GoVal) (i : Int) : Prop :=
  rule.getShard.equalStart ≠ none → ∀ ja jb, rule.findTableIndex a = .ok ja → rule.findTableIndex b = .ok jb →
    cond isNot (i < firstLeftOut rule (if ja > jb then b else a) (min ja jb) ∨ max ja jb ≤ i)
      (min ja jb ≤ i ∧ i ≤ max ja jb)

theorem Rule.admitsBetween_iff {a b : GoVal} {ja jb : Int} (hs : rule.getShard.equalStart ≠ none)
    (hja : rule.findTableIndex a = .ok ja) (hjb : rule.findTableIndex b = .ok jb) :
    rule.admitsBetween isNot a b i ↔
      cond isNot (i < firstLeftOut rule (if ja > jb then b else a) (min ja jb) ∨ max ja jb ≤ i)
        (min ja jb ≤ i ∧ i ≤ max ja jb) := by
  refine ⟨fun h => h hs ja jb hja hjb, fun h _ ja' jb' hja' hjb' => ?_⟩
  obtain rfl := ok_unique hja hja'
  obtain rfl := ok_unique hjb hjb'
  exact h

theorem Rule.admitsBetween_of_parent (h : rule.parent = rule'.parent) : rule.admitsBetween = rule'.admitsBetween := by
  unfold Rule.admitsBetween Rule.findTableIndex
  rw [getShard_of_parent h, firstLeftOut_of_parent h]

theorem BetweenRoute.reaches_iff (h : BetweenRoute rule c (.value a) (.value b) isNot indexes)
    (hg : rule.getType ≠ .global) (hc : rule.getShardingColumn = c.name.l) (hi : rule.Finds i) :
    Reaches i indexes ↔ rule.admitsBetween isNot a.value b.value i := by
  cases h with
  | all h =>
    refine iff_of_true hi.reaches fun hs => ?_
    rcases h with h | h | h
    · exact absurd h hg
    · exact absurd hc h
    · exact absurd h hs
  | @inside _ _ ja jb equalStart hs _ hja hjb =>
    rw [Rule.admitsBetween_iff (by simp [hs]) hja hjb, reaches_makeList, Int.lt_add_one_iff]
    rfl
  | @outside _ _ ja jb j f l equalStart hs _ hja hjb hj hf hl =>
    have := hi.first_le hf
    have := hi.last (by simp [hs]) l hl
    rw [Rule.admitsBetween_iff (by simp [hs]) hja hjb, firstLeftOut_eq hs hj,
      reaches_iff_mem (increasing_unionList (increasing_makeList _ _) (increasing_makeList _ _)), mem_unionList,
      mem_makeList, mem_makeList]
    show _ ↔ _ ∨ _
    omega

theorem admitsBetween_inside (hloc : Locates rule literal k i) (ha : literal a = some x) (hb : literal b = some y)
    (hx : x ≤ k) (hy : k ≤ y) : rule.admitsBetween false a.value b.value i := by
  intro hs ja jb hja hjb
  have := hloc.ge a x ja hs ha hja hx
  have := hloc.le b y jb hs hb hjb hy
  show _ ∧ _
  omega

/-- A `NOT BETWEEN` that a key satisfies admits the index of the key, if the bounds are not reversed. -/
theorem admitsBetween_ordered (hloc : Locates rule literal k i) (hstart : StartIsLeast rule literal k i)
    (ha : literal a = some x) (hb : literal b = some y)
    (hord : ∀ ja jb, rule.findTableIndex a.value = .ok ja → rule.findTableIndex b.value = .ok jb → ja ≤ jb)
    (hk : k < x ∨ y < k) : rule.admitsBetween true a.value b.value i := by
  intro hs ja jb hja hjb
  have hle := hord ja jb hja hjb
  rw [if_neg (not_lt.2 hle), min_eq_left hle, max_eq_right hle]
  rcases hk with hkx | hyk
  · exact .inl (lt_firstLeftOut hloc hstart hs ha hja hkx)
  · exact .inr (hloc.ge b y jb hs hb hjb hyk.le)

end Between

end DbProxy
