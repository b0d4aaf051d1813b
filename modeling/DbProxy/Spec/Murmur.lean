import DbProxy.Router.Mycat
import Mathlib

/-!
# The murmur rule

The hash of a key is the Murmur3 hash of its UTF-16 code units, if each of its characters is one unit
(`hashUnencodedChars_eq`).  A key lies in the bucket with the least point at or above its hash, and behind the last
point in the first bucket.  The ring of one more shard has the points of the smaller ring and those of the new shard,
which win where both have a point: so a key stays where it was or moves to the new shard (`murmur_find_succ`).
-/

namespace DbProxy

open Fallible List

/-! ### The ordered map -/

/-- `found` is the entry of the least key that `p` takes, if there is one. -/
def LeastEntry (get : Int → Option Int) (p : Int → Prop) : Option (Int × Int) → Prop
  | some (k, v) => get k = some v ∧ p k ∧ ∀ k', p k' → (get k').isSome → k ≤ k'
  | none => ∀ k, p k → get k = none

/-- What `gods/maps/treemap` says of its functions: `Put` adds or replaces one entry, `Ceiling` finds the least key at
or above the given one, and `Min` the least key. -/
structure TreeMap.Lawful (T : TreeMap) : Prop where
  get_put : ∀ m k v k', T.get (T.put m k v) k' = if k = k' then some v else T.get m k'
  ceiling_least : ∀ m k, LeastEntry (T.get m) (k ≤ ·) (T.ceiling m k)
  min_least : ∀ m, LeastEntry (T.get m) (fun _ => True) (T.min m)

/-- The points of the one map, and points of the shard `n` over them. -/
def Extends (n : Int) (get get' : Int → Option Int) : Prop := ∀ k, get' k = get k ∨ get' k = some n

section Ring

variable {get get' : Int → Option Int} {p : Int → Prop} {n : Int}

/-- The least point of the larger ring is one of the new shard, or it was the least one before. -/
theorem LeastEntry.eq_or_new {found found' : Option (Int × Int)} (hext : Extends n get get')
    (h : LeastEntry get p found) (h' : LeastEntry get' p found') : found' = found ∨ ∃ k, found' = some (k, n) := by
  have hsome : ∀ k, (get k).isSome → (get' k).isSome := by
    intro k hk
    rcases hext k with heq | heq
    · rwa [heq]
    · rw [heq, Option.isSome_some]
  cases found' with
  | none =>
    left
    cases found with
    | none => rfl
    | some e =>
      have hget' := hsome e.1 (by rw [h.1, Option.isSome_some])
      rw [h' e.1 h.2.1] at hget'
      cases hget'
  | some e' =>
    obtain ⟨hget', hp', hmin'⟩ := h'
    rcases hext e'.1 with hold | hnew
    · left
      rw [hold] at hget'
      cases found with
      | none =>
        rw [h e'.1 hp'] at hget'
        cases hget'
      | some e =>
        obtain ⟨hget, hp, hmin⟩ := h
        have hle := hmin' e.1 hp (hsome e.1 (by rw [hget, Option.isSome_some]))
        have hge := hmin e'.1 hp' (by rw [hget', Option.isSome_some])
        have hkey : e'.1 = e.1 := Int.le_antisymm hle hge
        rw [hkey, hget] at hget'
        exact congrArg some (Prod.ext hkey (Option.some.inj hget').symm)
    · right
      rw [hget'] at hnew
      exact ⟨e'.1, congrArg some (Prod.ext rfl (Option.some.inj hnew))⟩

end Ring

/-! ### One more shard -/

section Succ

variable {T : TreeMap}

namespace Murmur

theorem bucketsFrom_extends (hT : T.Lawful) (seed : Int) (i : Nat) {get : Int → Option Int} {m : T.Map}
    (h : Extends i get (T.get m)) (times j : Nat) (buf : GoString) :
    Extends i get (T.get (bucketsFrom T seed i times j buf m)) := by
  induction times generalizing j buf m with
  | zero => exact h
  | succ times ih =>
    apply ih
    intro k
    rw [hT.get_put]
    split
    · exact .inr rfl
    · exact h k

theorem generateBucketMap_succ (hT : T.Lawful) (seed times : Int) (count : Nat) :
    Extends count (T.get (generateBucketMap T seed times count))
      (T.get (generateBucketMap T seed times (count + 1))) := by
  rw [generateBucketMap, generateBucketMap, range_succ, foldl_append]
  exact bucketsFrom_extends hT seed count (fun _ => .inl rfl) _ _ _

end Murmur

/-- With one more shard a key stays where it was, or it moves to the new shard. -/
theorem murmur_find_succ (hT : T.Lawful) (seed virtualBucketTimes : Int) (count : Nat) (key : GoVal) {a b : Int}
    (ha : (mycatPartitionMurmurHashShard T seed virtualBucketTimes count).findForKey key = .ok a)
    (hb : (mycatPartitionMurmurHashShard T seed virtualBucketTimes (count + 1)).findForKey key = .ok b) :
    b = a ∨ b = count := by
  obtain ⟨text, htext, ha⟩ := bind_eq_ok.1 ha
  obtain ⟨text', htext', hb⟩ := bind_eq_ok.1 hb
  obtain rfl : text = text' := ok_unique htext htext'
  have hext := Murmur.generateBucketMap_succ hT seed virtualBucketTimes count
  have hceiling := (hT.ceiling_least _ (Murmur.hashUnencodedChars seed text)).eq_or_new hext (hT.ceiling_least _ _)
  have hmin := (hT.min_least _).eq_or_new hext (hT.min_least _)
  simp only at ha hb
  rcases hceiling with heq | ⟨k, hnew⟩
  · rw [heq] at hb
    split at ha
    · next hfound =>
      rw [hfound] at hb
      exact .inl (ok_unique hb ha)
    · next hfound =>
      -- behind the last point of both rings
      rw [hfound] at hb
      rcases hmin with heq | ⟨k, hnew⟩
      · rw [heq] at hb
        exact .inl (ok_unique hb ha)
      · rw [hnew] at hb
        exact .inr (Except.ok.inj hb).symm
  · rw [hnew] at hb
    exact .inr (Except.ok.inj hb).symm

end Succ

/-! ### A map in a list -/

def leastOf (m : AssocMap Int Int) : Option (Int × Int) :=
  m.foldl (fun best e => match best with
    | some b => if e.1 < b.1 then some e else best
    | none => some e) none

theorem leastOf_eq_argmin (m : AssocMap Int Int) : leastOf m = m.argmin Prod.fst := by
  unfold leastOf argmin
  congr 1
  funext best e
  cases best <;> rfl

/-- Entries with different keys; the least one is found by looking at all. -/
def listTreeMap : TreeMap where
  Map := { m : AssocMap Int Int // m.keys.Nodup }
  newWithIntComparator := ⟨[], nodup_nil⟩
  put m k v := ⟨m.1.set k v, AssocMap.nodup_keys_set m.2 k v⟩
  get m := m.1.get
  ceiling m k := leastOf (m.1.filter fun e => k ≤ e.1)
  min m := leastOf m.1

theorem leastEntry_leastOf (m : listTreeMap.Map) (p : Int → Prop) [DecidablePred p] :
    LeastEntry (listTreeMap.get m) p (leastOf (m.1.filter fun e => p e.1)) := by
  rw [leastOf_eq_argmin]
  cases hmin : (m.1.filter fun e => p e.1).argmin Prod.fst with
  | none =>
    intro k hk
    by_contra hget
    obtain ⟨v, hv⟩ := Option.ne_none_iff_exists'.1 hget
    have hmem : (k, v) ∈ m.1.filter fun e => p e.1 := mem_filter.2 ⟨AssocMap.mem_of_get hv, decide_eq_true hk⟩
    rw [argmin_eq_none.1 hmin] at hmem
    cases hmem
  | some e =>
    obtain ⟨he, hp⟩ := mem_filter.1 (argmin_mem hmin)
    refine ⟨(AssocMap.get_eq_some_iff m.2).2 he, of_decide_eq_true hp, fun k hk hsome => ?_⟩
    obtain ⟨v, hv⟩ := Option.isSome_iff_exists.1 hsome
    have hmem : (k, v) ∈ m.1.filter fun e => p e.1 := mem_filter.2 ⟨AssocMap.mem_of_get hv, decide_eq_true hk⟩
    exact le_of_mem_argmin hmem hmin

theorem listTreeMap_lawful : listTreeMap.Lawful where
  get_put m k v k' := AssocMap.get_set ..
  ceiling_least m k := leastEntry_leastOf m (k ≤ ·)
  min_least m := by simpa [listTreeMap] using leastEntry_leastOf m fun _ => True

theorem murmur_find_succ_two :
    (mycatPartitionMurmurHashShard listTreeMap 0 2 3).findForKey (.string (ascii "c")) = .ok 2 ∧
      ((2 : Int) = 1 ∨ (2 : Int) = (2 : Nat)) :=
  ⟨by decide +kernel,
    murmur_find_succ listTreeMap_lawful 0 2 2 (.string (ascii "c")) (by decide +kernel) (by decide +kernel)⟩

/-! ### The hash of the code units -/

/-- The UTF-16 code units of code points. -/
def utf16 : List UInt32 → List UInt16
  | [] => []
  | c :: cs =>
    if c < 0x10000 then c.toUInt16 :: utf16 cs
    else (((c - 0x10000) >>> 10) + 0xd800).toUInt16 :: (((c - 0x10000) &&& 0x3ff) + 0xdc00).toUInt16 :: utf16 cs

namespace Murmur3

def rotl (x r : UInt32) : UInt32 := x <<< r ||| x >>> (32 - r)

@[irreducible] def scramble (k : UInt32) : UInt32 := rotl (k * 0xcc9e2d51) 15 * 0x1b873593

@[irreducible] def round (h k : UInt32) : UInt32 := rotl (h ^^^ k) 13 * 5 + 0xe6546b64

def body : UInt32 → List UInt16 → UInt32
  | h, a :: b :: units => body (round h (scramble (a.toUInt32 ||| b.toUInt32 <<< 16))) units
  | h, [a] => h ^^^ scramble a.toUInt32
  | h, [] => h

/-- The 32-bit Murmur3 hash of code units: blocks of two, a tail of one, and the length in bytes. -/
def hash (seed : UInt32) (units : List UInt16) : UInt32 :=
  let h := body seed units ^^^ UInt32.ofNat (2 * units.length)
  let h := (h ^^^ h >>> 16) * 0x85ebca6b
  let h := (h ^^^ h >>> 13) * 0xc2b2ae35
  h ^^^ h >>> 16

end Murmur3

theorem utf16_eq_map {cs : List UInt32} (h : ∀ c ∈ cs, c < 0x10000) : utf16 cs = cs.map UInt32.toUInt16 := by
  induction cs with
  | nil => rfl
  | cons c cs ih =>
    obtain ⟨hc, hcs⟩ := forall_mem_cons.1 h
    rw [utf16, if_pos hc, ih hcs, map_cons]

namespace Murmur

-- Signed products in 64 bits, cut to 32, are the unsigned products.
theorem toUInt32_mixK1 (k : Int32) : (mixK1 k).toUInt32 = Murmur3.scramble k.toUInt32 := by
  unfold mixK1 Murmur3.scramble
  simp only [rotateLeft, Int64.toInt32_mul, Int32.toInt32_toInt64, Int32.toUInt32_mul, UInt32.toUInt32_toInt32]
  rfl

theorem toUInt32_mixH1 (h k : Int32) : (mixH1 h k).toUInt32 = Murmur3.round h.toUInt32 k.toUInt32 := by
  unfold mixH1 Murmur3.round
  simp only [rotateLeft, Int64.toInt32_add, Int64.toInt32_mul, Int32.toInt32_toInt64, Int32.toUInt32_add,
    Int32.toUInt32_mul, Int32.toUInt32_xor, UInt32.toUInt32_toInt32]
  rfl

theorem toUInt32_toUInt16 {c : UInt32} (hc : c < 0x10000) : c.toUInt16.toUInt32 = c :=
  (UInt32.toUInt32_toUInt16 c).trans (UInt32.mod_eq_of_lt hc)

theorem toUInt32_mix (h : Int32) {cs : List UInt32} (hcs : ∀ c ∈ cs, c < 0x10000) :
    (mix h cs).toUInt32 = Murmur3.body h.toUInt32 (cs.map UInt32.toUInt16) := by
  induction h, cs using mix.induct with
  | case1 h a b cs ih =>
    have ha := toUInt32_toUInt16 (hcs a mem_cons_self)
    have hb := toUInt32_toUInt16 (hcs b (mem_cons_of_mem a mem_cons_self))
    have hmix := ih fun c hc => hcs c (mem_cons_of_mem a (mem_cons_of_mem b hc))
    rw [mix, hmix, toUInt32_mixH1, toUInt32_mixK1, UInt32.toUInt32_toInt32]
    rw [map_cons, map_cons, Murmur3.body, ha, hb]
  | case2 h a =>
    have ha := toUInt32_toUInt16 (hcs a mem_cons_self)
    rw [mix, Int32.toUInt32_xor, toUInt32_mixK1, UInt32.toUInt32_toInt32, map_singleton, Murmur3.body, ha]
  | case3 h => rfl

theorem hashUnencodedChars_eq (seed : Int) {s : GoString} (h : ∀ c ∈ runes s, c < 0x10000) :
    hashUnencodedChars seed s = (Murmur3.hash (Int32.ofInt seed).toUInt32 (utf16 (runes s))).toInt32.toInt := by
  rw [hashUnencodedChars, Murmur3.hash, fmix, toUInt32_mix _ h, utf16_eq_map h, length_map]
  rfl

theorem hashUnencodedChars_eq_ab : (∀ c ∈ runes (ascii "ab"), c < 0x10000) ∧ hashUnencodedChars 7 (ascii "ab") =
    (Murmur3.hash (Int32.ofInt 7).toUInt32 (utf16 (runes (ascii "ab")))).toInt32.toInt :=
  have h := forall_iff_forall_mem.1 (by decide +kernel)
  ⟨h, hashUnencodedChars_eq 7 h⟩

/-- A character beyond `U+FFFF` is two code units and one rune. -/
theorem hashUnencodedChars_ne : hashUnencodedChars 0 [0xf0, 0x9f, 0x98, 0x80] ≠
    (Murmur3.hash 0 (utf16 (runes [0xf0, 0x9f, 0x98, 0x80]))).toInt32.toInt := by
  decide +kernel

end Murmur

end DbProxy
