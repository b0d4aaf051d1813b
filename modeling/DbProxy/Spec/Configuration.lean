import DbProxy.Spec.Dates
import DbProxy.Spec.Murmur
import DbProxy.Spec.Rules

/-!
# Accepted configurations and their routers

The control plane stores a configuration when `Verify` accepts it, and the proxies build a router from what is stored.
Whether they can, and whether every rule of the configuration is then found, depends on more than `Verify` looks at.
-/

namespace DbProxy

open Fallible List

variable {env : RuleEnv} {n : NamespaceModel} {parseIPInfo : GoString → Bool}
variable {front : List ShardModel} {s : ShardModel} {rule : Rule} {names : List String}
  {rules rules' : AssocMap (String × String) Rule} {router : Router} {db table : String}

def ShardModel.place (env : RuleEnv) (s : ShardModel) : String × String := (s.db, env.toLower s.table)

inductive NamespaceModel.Configured (env : RuleEnv) (n : NamespaceModel) : ShardModel → Rule → Prop
  | base {s : ShardModel} {r : BaseRule} (htype : s.type ≠ .known .linked) (hr : s.parseRule env = .ok r) :
      Configured env n s (.base (r.inNamespace n.sliceNames))
  | linked {s p : ShardModel} {r : BaseRule} (htype : s.type = .known .linked) (hp : p ∈ n.shardRules)
      (hdb : p.db = s.db) (htable : p.table = s.parentTable) (hparent : Configured env n p (.base r)) :
      Configured env n s
        (.linked { db := s.db, table := env.toLower s.table, shardingColumn := env.toLower s.key, linkToRule := r })

/-- The router can be built, it has as many rules as the configuration, and each of them is found under its name. -/
def NamespaceModel.Routed (env : RuleEnv) (n : NamespaceModel) : Prop :=
  ∃ router, newRouter env n = .ok router ∧ router.rules.length = n.shardRules.length ∧
    ∀ s ∈ n.shardRules, ∃ rule, n.Configured env s rule ∧ router.getShardRule s.db (env.toLower s.table) = some rule

structure NamespaceModel.Buildable (env : RuleEnv) (n : NamespaceModel) : Prop where
  default_slice : n.defaultSlice ≠ ""
  places_nodup : (n.shardRules.map (ShardModel.place env)).Nodup
  no_dot : ∀ s ∈ n.shardRules, (splitDots (env.toLower s.table).toList).length ≠ 2
  segments : ∀ s ∈ n.shardRules, s.SegmentsFit

/-! ### What `Verify` checks -/

structure NamespaceModel.Verified (n : NamespaceModel) : Prop where
  names : "" ∉ n.sliceNames
  names_nodup : n.sliceNames.Nodup
  default : n.defaultSlice = "" ∨ n.defaultSlice ∈ n.sliceNames
  slices : ∀ s ∈ n.shardRules, ∀ slice ∈ s.slices, slice ∈ n.sliceNames
  rules : ∀ s ∈ n.shardRules, s.type ≠ .known .linked → s.verify = .ok ()
  parents : ∀ s ∈ n.shardRules, s.type = .known .linked →
    ∃ p ∈ n.shardRules, p.db = s.db ∧ p.table = s.parentTable ∧ p.type ≠ .known .linked

theorem names_of_verifySlicesFrom {seen : List String} {slices : List SliceModel}
    (h : NamespaceModel.verifySlicesFrom seen slices = .ok ()) : (∀ s ∈ slices, s.name ≠ "") ∧
      (seen.Nodup → (seen ++ slices.map SliceModel.name).Nodup) := by
  induction slices generalizing seen with
  | nil => exact ⟨nofun, fun hseen => by simpa using hseen⟩
  | cons s slices ih =>
    obtain ⟨_, hs, h⟩ := bind_eq_ok.1 h
    rw [wrapErr_eq_ok] at hs
    split at h
    · cases h
    next hnew =>
    obtain ⟨hnames, hnodup⟩ := ih h
    refine ⟨forall_mem_cons.2 ⟨fun hname => ?_, hnames⟩, fun hseen => ?_⟩
    · unfold SliceModel.verify at hs
      rw [if_pos hname] at hs
      cases hs
    · have hmore : (seen ++ [s.name]).Nodup := nodup_append.2 ⟨hseen, nodup_singleton _, fun a ha b hb heq => by
        rw [mem_singleton.1 hb] at heq
        exact hnew (heq ▸ ha)⟩
      simpa using hnodup hmore

/-- What is known behind the rules of `front`: they passed their checks, and the map has the types of their tables. -/
structure RulesVerified (n : NamespaceModel) (front : List ShardModel)
    (rules : AssocMap (String × String) ConfigType) : Prop where
  slices : ∀ s ∈ front, ∀ slice ∈ s.slices, slice ∈ n.sliceNames
  verified : ∀ s ∈ front, s.type ≠ .known .linked → s.verify = .ok ()
  types : ∀ k type, rules.get k = some type → ∃ s ∈ front, (s.db, s.table) = k ∧ s.type = type

theorem RulesVerified.step {rules rules' : AssocMap (String × String) ConfigType}
    (hI : RulesVerified n front rules) (h : n.verifyShardRule rules s = .ok rules') :
    RulesVerified n (front ++ [s]) rules' := by
  unfold NamespaceModel.verifyShardRule at h
  split at h
  · cases h
  next hslices =>
  obtain ⟨_, hverify, h⟩ := bind_eq_ok.1 h
  split at h
  · cases h
  cases h
  refine ⟨?_, ?_, ?_⟩
  · refine forall_mem_append.2 ⟨hI.slices, forall_mem_singleton.2 ?_⟩
    simpa using hslices
  · refine forall_mem_append.2 ⟨hI.verified, forall_mem_singleton.2 fun hlinked => ?_⟩
    unfold NamespaceModel.verifyRuleType at hverify
    split at hverify
    · cases hverify
    · next htype => exact absurd htype hlinked
    · exact hverify
  · intro k type hget
    rw [AssocMap.get_set] at hget
    split at hget
    · next heq =>
      cases hget
      exact ⟨s, mem_append_right _ mem_cons_self, heq, rfl⟩
    · obtain ⟨s', hs', hk⟩ := hI.types k type hget
      exact ⟨s', mem_append_left _ hs', hk⟩

theorem forM_eq_ok {α : Type} {f : α → Except Fail Unit} {l : List α} :
    l.forM f = .ok () ↔ ∀ a ∈ l, f a = .ok () := by
  induction l with
  | nil => exact iff_of_true rfl fun a ha => absurd ha not_mem_nil
  | cons a l ih =>
    rw [forall_mem_cons, ← ih]
    constructor
    · intro h
      obtain ⟨⟨⟩, ha, hl⟩ := bind_eq_ok.1 h
      exact ⟨ha, hl⟩
    · rintro ⟨ha, hl⟩
      exact bind_eq_ok.2 ⟨(), ha, hl⟩

theorem verified_of_verify (h : n.verify parseIPInfo = .ok ()) : n.Verified := by
  obtain ⟨_, -, h⟩ := bind_eq_ok.1 h
  obtain ⟨_, -, h⟩ := bind_eq_ok.1 h
  obtain ⟨_, -, h⟩ := bind_eq_ok.1 h
  obtain ⟨_, -, h⟩ := bind_eq_ok.1 h
  obtain ⟨_, -, h⟩ := bind_eq_ok.1 h
  obtain ⟨_, -, h⟩ := bind_eq_ok.1 h
  obtain ⟨_, -, h⟩ := bind_eq_ok.1 h
  obtain ⟨_, hslices, h⟩ := bind_eq_ok.1 h
  obtain ⟨_, hdefault, h⟩ := bind_eq_ok.1 h
  obtain ⟨rules, hrules, hlinked⟩ := bind_eq_ok.1 h
  have hstart : RulesVerified n [] [] := ⟨nofun, nofun, nofun⟩
  have hI : RulesVerified n n.shardRules rules :=
    foldlM_inv (fun front s rules rules' hI h => hI.step h) n.shardRules hstart hrules
  unfold NamespaceModel.verifySlices at hslices
  split at hslices
  · cases hslices
  obtain ⟨hnames, hnodup⟩ := names_of_verifySlicesFrom hslices
  refine ⟨?_, hnodup nodup_nil, ?_, hI.slices, hI.verified, ?_⟩
  · intro hmem
    obtain ⟨s, hs, hname⟩ := mem_map.1 hmem
    exact hnames s hs hname
  · unfold NamespaceModel.verifyDefaultSlice at hdefault
    split at hdefault
    · cases hdefault
    · next hin => exact or_iff_not_imp_left.2 fun hne => not_not.1 fun hnot => hin ⟨hne, hnot⟩
  · intro s hs htype
    have hparent := forM_eq_ok.1 hlinked s (mem_filter.2 ⟨hs, decide_eq_true htype⟩)
    unfold NamespaceModel.verifyLinkedRule at hparent
    split at hparent
    · cases hparent
    next type hget =>
    split at hparent
    · cases hparent
    next hne =>
    obtain ⟨p, hp, hk, rfl⟩ := hI.types _ _ hget
    exact ⟨p, hp, (Prod.mk.inj hk).1, (Prod.mk.inj hk).2, hne⟩

/-! ### Names in the router -/

@[simp] theorem inNamespace_db (names : List String) (r : BaseRule) : (r.inNamespace names).db = r.db := by
  unfold BaseRule.inNamespace
  split <;> rfl

@[simp] theorem inNamespace_table (names : List String) (r : BaseRule) : (r.inNamespace names).table = r.table := by
  unfold BaseRule.inNamespace
  split <;> rfl

@[simp] theorem inNamespace_ruleType (names : List String) (r : BaseRule) :
    (r.inNamespace names).ruleType = r.ruleType := by
  unfold BaseRule.inNamespace
  split <;> rfl

theorem NamespaceModel.Configured.place_eq (h : n.Configured env s rule) :
    (rule.getDB, rule.getTable) = s.place env := by
  cases h with
  | base htype hr =>
    have hnames := (s.parseRule_spec hr).1
    exact Prod.ext ((inNamespace_db ..).trans hnames.db) ((inNamespace_table ..).trans hnames.table)
  | linked => rfl

/-- A turn of the first loop that succeeds: a linked rule is left for later, another one is added under its name. -/
theorem addRule_eq_ok :
    addRule env names rules s = .ok rules' ↔ (∀ slice ∈ s.slices, slice ∈ names) ∧
      (s.type = .known .linked ∧ rules' = rules ∨
        s.type ≠ .known .linked ∧ rules.get (s.place env) = none ∧
          ∃ r, s.parseRule env = .ok r ∧ rules' = rules.set (s.place env) (.base (r.inNamespace names))) := by
  unfold addRule
  split
  · next hslices =>
    refine iff_of_false (fun h => by cases h) fun h => ?_
    have hall : s.slices.all (· ∈ names) = true := by simpa using h.1
    rw [hall] at hslices
    cases hslices
  next hslices =>
  rw [and_iff_right (by simpa using hslices)]
  split
  · next hlinked => simp [hlinked, eq_comm]
  next hlinked =>
  rw [bind_eq_ok, or_iff_right fun h => hlinked h.1, and_iff_right hlinked]
  constructor
  · rintro ⟨r, hr, h⟩
    have hnames := (s.parseRule_spec hr).1
    have hplace : (r.db, r.table) = s.place env := Prod.ext hnames.db hnames.table
    dsimp only at h
    rw [inNamespace_ruleType, inNamespace_db, inNamespace_table, if_neg hnames.not_default, hplace] at h
    split at h
    · cases h
    · next hget =>
      cases h
      exact ⟨by simpa using hget, r, hr, rfl⟩
  · rintro ⟨hget, r, hr, rfl⟩
    have hnames := (s.parseRule_spec hr).1
    have hplace : (r.db, r.table) = s.place env := Prod.ext hnames.db hnames.table
    refine ⟨r, hr, ?_⟩
    dsimp only
    rw [inNamespace_ruleType, inNamespace_db, inNamespace_table, if_neg hnames.not_default, hplace, hget]
    exact if_neg Bool.noConfusion

theorem addLinkedRule_eq_ok :
    addLinkedRule env rules s = .ok rules' ↔ ∃ r, rules.get (s.db, env.toLower s.parentTable) = some (.base r) ∧
      rules' = rules.set (s.place env)
        (.linked { db := s.db, table := env.toLower s.table, shardingColumn := env.toLower s.key,
                   linkToRule := r }) := by
  unfold addLinkedRule createLinkedRule
  rw [bind_eq_ok]
  constructor
  · rintro ⟨l, hl, h⟩
    rw [wrapErr_eq_ok] at hl
    split at hl
    · cases hl
    · cases hl
    · next r hget =>
      cases hl
      cases h
      exact ⟨r, hget, rfl⟩
  · rintro ⟨r, hget, rfl⟩
    rw [hget]
    exact ⟨_, wrapErr_eq_ok.2 rfl, rfl⟩

/-! ### Building -/

/-- What the map is once the rules of `front` are built: their places in order, each with its rule. -/
structure RulesBuilt (env : RuleEnv) (n : NamespaceModel) (front : List ShardModel)
    (rules : AssocMap (String × String) Rule) : Prop where
  keys : rules.keys = front.map (ShardModel.place env)
  get : ∀ s ∈ front, ∃ rule, n.Configured env s rule ∧ rules.get (s.place env) = some rule

theorem RulesBuilt.set
    (hI : RulesBuilt env n front rules) (hrule : n.Configured env s rule)
    (hnew : s.place env ∉ front.map (ShardModel.place env)) :
    RulesBuilt env n (front ++ [s]) (rules.set (s.place env) rule) := by
  have hnone : rules.get (s.place env) = none := by
    by_contra hget
    exact hnew (hI.keys ▸ AssocMap.get_isSome.1 (Option.isSome_iff_ne_none.2 hget))
  constructor
  · rw [AssocMap.set_of_get_eq_none hnone, map_append, ← hI.keys]
    simp [AssocMap.keys]
  · refine forall_mem_append.2 ⟨fun s' hs' => ?_, forall_mem_singleton.2 ⟨rule, hrule, AssocMap.get_set_self ..⟩⟩
    obtain ⟨rule', hrule', hget⟩ := hI.get s' hs'
    have hne : s.place env ≠ s'.place env := fun heq => hnew (heq ▸ mem_map_of_mem hs')
    exact ⟨rule', hrule', (AssocMap.get_set_ne _ hne _).trans hget⟩

def ShardModel.isLinked (s : ShardModel) : Bool := s.type = .known .linked

theorem places_of_nodup {l₁ l₂ : List ShardModel} (h : ((l₁ ++ s :: l₂).map (ShardModel.place env)).Nodup) :
    s.place env ∉ l₁.map (ShardModel.place env) := by
  rw [map_append, map_cons] at h
  exact fun hmem => (nodup_append.1 h).2.2 (s.place env) hmem (s.place env) mem_cons_self rfl

theorem exists_baseRules (env : RuleEnv) (hv : n.Verified) (hb : n.Buildable env) : ∃ rules,
    n.shardRules.foldlM (addRule env n.sliceNames) [] = .ok rules ∧
      RulesBuilt env n (n.shardRules.filter fun s => !s.isLinked) rules := by
  have hstart : RulesBuilt env n (([] : List ShardModel).filter fun s => !s.isLinked) [] := ⟨rfl, nofun⟩
  refine exists_foldlM (I := fun front rules => RulesBuilt env n (front.filter fun s => !s.isLinked) rules)
    n.shardRules hstart fun l₁ s l₂ rules hl hI => ?_
  have hs : s ∈ n.shardRules := hl ▸ mem_append_right _ mem_cons_self
  rw [filter_append]
  by_cases hlinked : s.type = .known .linked
  · refine ⟨rules, addRule_eq_ok.2 ⟨hv.slices s hs, .inl ⟨hlinked, rfl⟩⟩, ?_⟩
    have hskip : [s].filter (fun s => !s.isLinked) = [] := by simp [ShardModel.isLinked, hlinked]
    rw [hskip, append_nil]
    exact hI
  · obtain ⟨r, hr⟩ : ∃ r, s.parseRule env = .ok r :=
      (s.parseRule_ok_iff (hv.rules s hs hlinked)).2 (hb.segments s hs)
    have hnew : s.place env ∉ (l₁.filter fun s => !s.isLinked).map (ShardModel.place env) := by
      have hnodup := hb.places_nodup
      rw [hl] at hnodup
      exact fun hmem => places_of_nodup hnodup (map_subset _ filter_sublist.subset hmem)
    have hkeep : [s].filter (fun s => !s.isLinked) = [s] := by simp [ShardModel.isLinked, hlinked]
    rw [hkeep]
    have hbuilt := hI.set (.base hlinked hr) hnew
    refine ⟨_, addRule_eq_ok.2 ⟨hv.slices s hs, .inr ⟨hlinked, ?_, r, hr, rfl⟩⟩, hbuilt⟩
    by_contra hget
    exact hnew (hI.keys ▸ AssocMap.get_isSome.1 (Option.isSome_iff_ne_none.2 hget))

theorem exists_linkedRules (hv : n.Verified) (hb : n.Buildable env)
    (h : RulesBuilt env n (n.shardRules.filter fun s => !s.isLinked) rules) : ∃ rules',
      (n.shardRules.filter (·.type = .known .linked)).foldlM (addLinkedRule env) rules = .ok rules' ∧
        RulesBuilt env n ((n.shardRules.filter fun s => !s.isLinked) ++ n.shardRules.filter ShardModel.isLinked)
          rules' := by
  have hperm := (perm_append_comm.trans (filter_append_perm ShardModel.isLinked n.shardRules))
  have hnodup := (hperm.map (ShardModel.place env)).nodup_iff.2 hb.places_nodup
  refine exists_foldlM (I := RulesBuilt env n) _ h fun l₁ s l₂ rules hl hI => ?_
  have hmem : s ∈ n.shardRules.filter (·.type = .known .linked) := hl ▸ mem_append_right _ mem_cons_self
  obtain ⟨hs, htype⟩ := mem_filter.1 hmem
  have htype := of_decide_eq_true htype
  obtain ⟨p, hp, hdb, htable, hbase⟩ := hv.parents s hs htype
  have hpfront : p ∈ (n.shardRules.filter fun s => !s.isLinked) ++ l₁ :=
    mem_append_left _ (mem_filter.2 ⟨hp, by simp [ShardModel.isLinked, hbase]⟩)
  obtain ⟨rule, hrule, hget⟩ := hI.get p hpfront
  have hplace : p.place env = (s.db, env.toLower s.parentTable) := by rw [ShardModel.place, hdb, htable]
  rw [hplace] at hget
  cases hrule with
  | linked htype' => exact absurd htype' hbase
  | base hbase hr =>
    have hconfigured := NamespaceModel.Configured.linked htype hp hdb htable (.base hbase hr)
    refine ⟨_, addLinkedRule_eq_ok.2 ⟨_, hget, rfl⟩, hI.set hconfigured ?_⟩
    rw [show n.shardRules.filter ShardModel.isLinked = l₁ ++ s :: l₂ from hl, ← append_assoc] at hnodup
    exact places_of_nodup hnodup

theorem getShardRule_of_no_dot (h : (splitDots table.toList).length ≠ 2) :
    router.getShardRule db table = router.rules.get (db, table) := by
  unfold Router.getShardRule
  split
  · next hsplit => exact absurd (congrArg List.length hsplit) h
  · rfl

theorem routed_of_buildable (hv : n.Verified) (hb : n.Buildable env) : n.Routed env := by
  obtain ⟨rules, hrules, hbuilt⟩ := exists_baseRules env hv hb
  obtain ⟨rules', hrules', hbuilt'⟩ := exists_linkedRules hv hb hbuilt
  have hperm := (perm_append_comm.trans (filter_append_perm ShardModel.isLinked n.shardRules))
  refine ⟨⟨rules'⟩, ?_, ?_, fun s hs => ?_⟩
  · unfold newRouter
    rw [if_neg (not_not.2 (hv.default.resolve_left hb.default_slice))]
    exact bind_eq_ok.2 ⟨rules, hrules, bind_eq_ok.2 ⟨rules', hrules', rfl⟩⟩
  · have hlength := congrArg List.length hbuilt'.keys
    rw [AssocMap.keys, length_map, length_map, hperm.length_eq] at hlength
    exact hlength
  · obtain ⟨rule, hrule, hget⟩ := hbuilt'.get s (hperm.mem_iff.2 hs)
    exact ⟨rule, hrule, (getShardRule_of_no_dot (hb.no_dot s hs)).trans hget⟩

/-! ### What a router says about its configuration -/

/-- The rule that a rule delegates to was built from its configuration. -/
def Rule.BuiltFrom (env : RuleEnv) (names : List String) (shards : List ShardModel) (rule : Rule) : Prop :=
  ∃ s ∈ shards, ∃ r, s.parseRule env = .ok r ∧ rule.parent = r.inNamespace names

/-- The places of the map are places of rules, each used once and by a rule of that name. -/
structure RulesNamed (env : RuleEnv) (names : List String) (shards : List ShardModel)
    (rules : AssocMap (String × String) Rule) : Prop where
  nodup : rules.keys.Nodup
  places : ∀ k ∈ rules.keys, k ∈ shards.map (ShardModel.place env)
  named : ∀ k rule, rules.get k = some rule → (rule.getDB, rule.getTable) = k
  origin : ∀ k rule, rules.get k = some rule → rule.BuiltFrom env names shards

theorem RulesNamed.set {shards : List ShardModel} (hI : RulesNamed env names shards rules) (hs : s ∈ shards)
    (hrule : (rule.getDB, rule.getTable) = s.place env) (horigin : rule.BuiltFrom env names shards) :
    RulesNamed env names shards (rules.set (s.place env) rule) := by
  refine ⟨AssocMap.nodup_keys_set hI.nodup _ _, fun k hk => ?_, fun k rule' hget => ?_, fun k rule' hget => ?_⟩
  · have hsome := AssocMap.get_isSome.2 hk
    rw [AssocMap.get_set] at hsome
    split at hsome
    · next heq => exact heq ▸ mem_map_of_mem hs
    · exact hI.places k (AssocMap.get_isSome.1 hsome)
  · rw [AssocMap.get_set] at hget
    split at hget
    · next heq =>
      cases hget
      exact hrule.trans heq
    · exact hI.named k rule' hget
  · rw [AssocMap.get_set] at hget
    split at hget
    · cases hget
      exact horigin
    · exact hI.origin k rule' hget

/-- The first loop, seen from its result: the rules in front were built, and each is kept under its name. -/
theorem baseRules_of_ok
    (h : n.shardRules.foldlM (addRule env n.sliceNames) [] = .ok rules) :
    RulesNamed env n.sliceNames n.shardRules rules ∧ ∀ s ∈ n.shardRules, s.type ≠ .known .linked →
        ∃ r, s.parseRule env = .ok r ∧ rules.get (s.place env) = some (.base (r.inNamespace n.sliceNames)) := by
  have hstart : RulesNamed env n.sliceNames [] ([] : AssocMap (String × String) Rule) ∧ ∀ s ∈ ([] : List ShardModel),
    s.type ≠ .known .linked →
      ∃ r, s.parseRule env = .ok r ∧ AssocMap.get [] (s.place env) = some (Rule.base (r.inNamespace n.sliceNames)) :=
    ⟨⟨nodup_nil, nofun, nofun, nofun⟩, nofun⟩
  refine foldlM_inv (I := fun front rules => RulesNamed env n.sliceNames front rules ∧
    ∀ s ∈ front, s.type ≠ .known .linked →
    ∃ r, s.parseRule env = .ok r ∧ rules.get (s.place env) = some (.base (r.inNamespace n.sliceNames))) ?_
      n.shardRules hstart h
  rintro front s rules rules' ⟨hI, hbuilt⟩ hstep
  have hmore : RulesNamed env n.sliceNames (front ++ [s]) rules := by
    refine ⟨hI.nodup, fun k hk => map_subset _ (subset_append_left _ _) (hI.places k hk), hI.named, ?_⟩
    intro k rule hget
    obtain ⟨s', hs', horigin⟩ := hI.origin k rule hget
    exact ⟨s', mem_append_left _ hs', horigin⟩
  obtain ⟨-, ⟨hlinked, rfl⟩ | ⟨-, hnone, r, hr, rfl⟩⟩ := addRule_eq_ok.1 hstep
  · exact ⟨hmore, forall_mem_append.2 ⟨hbuilt, forall_mem_singleton.2 fun hne => absurd hlinked hne⟩⟩
  · have hnames := (s.parseRule_spec hr).1
    have hplace : ((r.inNamespace n.sliceNames).db, (r.inNamespace n.sliceNames).table) = s.place env :=
      Prod.ext ((inNamespace_db ..).trans hnames.db) ((inNamespace_table ..).trans hnames.table)
    have hlast : s ∈ front ++ [s] := mem_append_right _ mem_cons_self
    refine ⟨hmore.set hlast hplace ⟨s, hlast, r, hr, rfl⟩, forall_mem_append.2 ⟨?_, ?_⟩⟩
    · intro s' hs' hne
      obtain ⟨r', hr', hget⟩ := hbuilt s' hs' hne
      refine ⟨r', hr', (AssocMap.get_set_ne _ (fun heq => ?_) _).trans hget⟩
      rw [← heq, hnone] at hget
      cases hget
    · exact forall_mem_singleton.2 fun _ => ⟨r, hr, AssocMap.get_set_self ..⟩

theorem linkedRules_of_ok (hI : RulesNamed env n.sliceNames n.shardRules rules)
    (h : (n.shardRules.filter (·.type = .known .linked)).foldlM (addLinkedRule env) rules = .ok rules') :
    RulesNamed env n.sliceNames n.shardRules rules' ∧ ∀ k r, rules'.get k = some (.base r) →
    rules.get k = some (.base r) := by
  have hloop : ∀ l : List ShardModel, (∀ s ∈ l, s ∈ n.shardRules) →
    ∀ rules, RulesNamed env n.sliceNames n.shardRules rules → l.foldlM (addLinkedRule env) rules = .ok rules' →
        RulesNamed env n.sliceNames n.shardRules rules' ∧ ∀ k r, rules'.get k = some (.base r) →
        rules.get k = some (.base r) := by
    intro l
    induction l with
    | nil =>
      intro _ rules hI h
      cases h
      exact ⟨hI, fun _ _ => id⟩
    | cons s l ih =>
      intro hl rules hI h
      rw [foldlM_cons] at h
      obtain ⟨rules₁, hstep, h⟩ := bind_eq_ok.1 h
      obtain ⟨r, hparent, rfl⟩ := addLinkedRule_eq_ok.1 hstep
      obtain ⟨hs, hl⟩ := forall_mem_cons.1 hl
      obtain ⟨p, hp, r', hr', hbuilt⟩ := hI.origin _ _ hparent
      obtain ⟨hI', hkept⟩ := ih hl _ (hI.set hs (by rfl) ⟨p, hp, r', hr', by exact hbuilt⟩) h
      refine ⟨hI', fun k r hget => ?_⟩
      have hget := hkept k r hget
      rw [AssocMap.get_set] at hget
      split at hget
      · cases hget
      · exact hget
  exact hloop _ (fun s hs => (mem_filter.1 hs).1) rules hI h

theorem newRouter_eq_ok (h : newRouter env n = .ok router) : n.defaultSlice ∈ n.sliceNames ∧
    RulesNamed env n.sliceNames n.shardRules router.rules ∧ ∀ s ∈ n.shardRules, s.type ≠ .known .linked →
      ∃ r, s.parseRule env = .ok r ∧
        ∀ b, router.rules.get (s.place env) = some (.base b) → b = r.inNamespace n.sliceNames := by
  unfold newRouter at h
  split at h
  · cases h
  next hdefault =>
  obtain ⟨rules, hrules, h⟩ := bind_eq_ok.1 h
  obtain ⟨rules', hrules', h⟩ := bind_eq_ok.1 h
  cases h
  obtain ⟨hbase, hbuilt⟩ := baseRules_of_ok hrules
  obtain ⟨hI, hkept⟩ := linkedRules_of_ok hbase hrules'
  refine ⟨not_not.1 hdefault, hI, fun s hs hne => ?_⟩
  obtain ⟨r, hr, hget⟩ := hbuilt s hs hne
  refine ⟨r, hr, fun b hb => ?_⟩
  have := (hkept _ b hb).symm.trans hget
  cases this
  rfl

theorem splitDots_length (cs : List Char) :
    ((splitDots cs).map List.length).sum + (splitDots cs).length = cs.length + 1 := by
  induction cs with
  | nil => rfl
  | cons c cs ih =>
    unfold splitDots
    split
    · simp only [map_cons, sum_cons, length_cons, length_nil]
      omega
    · split
      · next hnil =>
        rw [hnil] at ih
        simp at ih
      · next hparts =>
        rw [hparts] at ih
        simp only [map_cons, sum_cons, length_cons] at ih ⊢
        omega

theorem trimBackQuotes_length_le (cs : List Char) : (trimBackQuotes cs).toList.length ≤ cs.length := by
  unfold trimBackQuotes
  rw [String.toList_ofList, length_reverse]
  refine (dropWhile_suffix _).length_le.trans ?_
  rw [length_reverse]
  exact (dropWhile_suffix _).length_le

theorem no_dot_of_getShardRule (hI : ∀ k rule, router.rules.get k = some rule →
    (rule.getDB, rule.getTable) = k) (hget : router.getShardRule db table = some rule)
      (htable : rule.getTable = table) : (splitDots table.toList).length ≠ 2 := by
  intro htwo
  obtain ⟨d, t, hsplit⟩ := length_eq_two.1 htwo
  unfold Router.getShardRule at hget
  rw [hsplit] at hget
  have hname := (Prod.mk.inj (hI _ _ hget)).2
  have hlen := splitDots_length table.toList
  have hle := trimBackQuotes_length_le t
  rw [hsplit] at hlen
  rw [← hname, htable] at hle
  simp only [map_cons, map_nil, sum_cons, sum_nil, length_cons, length_nil] at hlen
  omega

theorem buildable_of_routed (hv : n.Verified) (h : n.Routed env) : n.Buildable env := by
  obtain ⟨router, hrouter, hlength, hfound⟩ := h
  obtain ⟨hdefault, hI, hbuilt⟩ := newRouter_eq_ok hrouter
  refine ⟨fun hempty => hv.names (hempty ▸ hdefault), ?_, fun s hs => ?_, fun s hs => ?_⟩
  · -- the places of the map are all different and as many as there are rules
    have hsub : router.rules.keys.Subperm (n.shardRules.map (ShardModel.place env)) :=
      subperm_of_subset hI.nodup hI.places
    have hlen : (n.shardRules.map (ShardModel.place env)).length ≤ router.rules.keys.length := by
      rw [AssocMap.keys, length_map, length_map]
      exact hlength.ge
    exact (hsub.perm_of_length_le hlen).nodup_iff.1 hI.nodup
  · obtain ⟨rule, hrule, hget⟩ := hfound s hs
    exact no_dot_of_getShardRule hI.named hget (Prod.mk.inj hrule.place_eq).2
  · intro htype
    have hnot : s.type ≠ .known .linked := by
      rcases htype with htype | htype <;> rw [htype] <;> intro hlinked <;> cases hlinked
    obtain ⟨r, hr, -⟩ := hbuilt s hs hnot
    exact (s.parseRule_ok_iff (hv.rules s hs hnot)).1 ⟨r, hr⟩ htype

/-- An accepted configuration can be built, with all its rules, exactly when it has a default slice, no two rules
whose names differ only in case, no table name with one dot, and no segment outside of the table of segments. -/
theorem routed_iff_buildable (h : n.verify parseIPInfo = .ok ()) : n.Routed env ↔ n.Buildable env :=
  ⟨buildable_of_routed (verified_of_verify h), routed_of_buildable (verified_of_verify h)⟩

/-! ### Small configurations -/

def smallSlice (name : String) : SliceModel where
  name := name
  userName := "root"
  master := "127.0.0.1:3306"
  slaves := []
  slaveDCMaster := ""
  slaveDCSlaves := []
  capacity := 12
  maxCapacity := 24

def smallUser : UserModel where
  userName := ascii "user"
  password := ascii "password"
  namespaceName := []
  rwFlag := 2
  rwSplit := 0
  otherProperty := 0

def smallNamespace (defaultSlice : String) (shardRules : List ShardModel) : NamespaceModel where
  name := ascii "ns"
  allowedDBS := [("db", true)]
  slices := [smallSlice "slice-0", smallSlice "slice-1"]
  shardRules := shardRules
  users := [smallUser]
  defaultSlice := defaultSlice

def smallHash (table : String) : ShardModel where
  db := "db"
  table := table
  type := .known .hash
  key := "id"
  locations := [2, 2]
  slices := ["slice-0", "slice-1"]

def smallLinked (table parentTable : String) : ShardModel where
  db := "db"
  table := table
  parentTable := parentTable
  type := .known .linked
  key := "id"

def smallLong (partitionLength : String) : ShardModel where
  db := "db"
  table := "t"
  type := .known .mycatLong
  key := "id"
  locations := [1, 1]
  slices := ["slice-0", "slice-1"]
  databases := ["db_[0-1]"]
  partitionCount := ascii "1,1"
  partitionLength := ascii partitionLength

def acceptAll (_ : GoString) : Bool := true

def stillEnv : RuleEnv := ⟨stillZone, toLower, listTreeMap⟩

theorem smallLong_segmentsFit : (smallLong "512,512").SegmentsFit := by
  intro _ counts lengths hcounts hlengths
  have hones : toIntArray (ascii "1,1") = .ok [1, 1] := by decide +kernel
  have hhalves : toIntArray (ascii "512,512") = .ok [512, 512] := by decide +kernel
  cases hones.symm.trans hcounts
  cases hhalves.symm.trans hlengths
  decide

theorem smallLong_panics : newRouter stillEnv (smallNamespace "slice-0" [smallLong "2048,-1024"]) =
    .error (.panic "index out of range") := by
  have htables : parseMycatHashRuleSliceInfos (smallLong "2048,-1024") =
      .ok ([0, 1], [(0, 0), (1, 1)], ["db_0", "db_1"]) := by
    decide +kernel
  have hinit : initPartitionLong 2 (ascii "1,1") (ascii "2048,-1024") = .error (.panic "index out of range") := by
    decide +kernel
  have hrule : (smallLong "2048,-1024").parseRule stillEnv = .error (.panic "index out of range") :=
    (bind_of_ok htables).trans (bind_of_error (bind_of_error hinit))
  have hadd : addRule stillEnv ["slice-0", "slice-1"] [] (smallLong "2048,-1024") =
    .error (.panic "index out of range") :=
    (if_neg (by decide)).trans ((if_neg (by decide)).trans (bind_of_error hrule))
  exact (if_neg (by decide)).trans (bind_of_error (bind_of_error hadd))

theorem routed_iff_buildable_small : (smallNamespace "slice-0" [smallHash "Orders", smallLinked "Items" "Orders",
    smallLong "512,512"]).Routed stillEnv := by
  have hverify : (smallNamespace "slice-0" [smallHash "Orders", smallLinked "Items" "Orders",
    smallLong "512,512"]).verify acceptAll = .ok () := by decide +kernel
  refine (routed_iff_buildable hverify).2 ⟨by decide, by decide +kernel, by decide +kernel, ?_⟩
  refine forall_mem_cons.2 ⟨nofun, forall_mem_cons.2 ⟨nofun, forall_mem_singleton.2 smallLong_segmentsFit⟩⟩

/-- Four accepted configurations without a router of all their rules: there is no default slice; the names of two
tables differ in case; the first segment ends outside of the table; one linked rule takes the place of another. -/
theorem verify_accepts_unbuildable :
    (smallNamespace "" []).verify acceptAll = .ok () ∧
    newRouter stillEnv (smallNamespace "" []) = .error (.error "default slice[] not in the slice list") ∧
    (smallNamespace "slice-0" [smallHash "T", smallHash "t"]).verify acceptAll = .ok () ∧
    newRouter stillEnv (smallNamespace "slice-0" [smallHash "T", smallHash "t"]) =
      .error (.error "table t rule in db duplicate") ∧
    (smallNamespace "slice-0" [smallLong "2048,-1024"]).verify acceptAll = .ok () ∧
    newRouter stillEnv (smallNamespace "slice-0" [smallLong "2048,-1024"]) = .error (.panic "index out of range") ∧
    (smallNamespace "slice-0" [smallHash "p", smallLinked "C" "p", smallLinked "c" "p"]).verify acceptAll = .ok () ∧
    ∃ router, newRouter stillEnv
      (smallNamespace "slice-0" [smallHash "p", smallLinked "C" "p", smallLinked "c" "p"]) = .ok router ∧
      router.rules.length = 2 :=
  ⟨by decide +kernel, rfl, by decide +kernel, rfl, by decide +kernel, smallLong_panics, by decide +kernel, _, rfl,
    rfl⟩

end DbProxy
