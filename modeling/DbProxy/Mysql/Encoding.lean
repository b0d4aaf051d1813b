import DbProxy.Mysql.Scanner

/-!
# Texts in the character set of a session

MySQL reads a statement in the character set of the client.  In words, string literals and quoted identifiers a
character of several bytes is read whole, also where one of its bytes is a quote or a backslash by itself; comments
and the byte behind a backslash are read byte by byte.  Where no such character has a byte that begins anything, the
scanner that reads byte by byte finds the same (`scanIn_eq`).
-/

namespace DbProxy

open List

namespace Scanner

/-- The character sets a client may have.  `singleByte` stands for all that have one byte for each character. -/
inductive Encoding where
  | singleByte | utf8 | utf8mb4 | gb2312 | gbk | gb18030 | big5 | euckr | ujis | eucjpms | sjis | cp932
  deriving DecidableEq, Repr

/-- The bytes of a range. -/
abbrev ByteRange := UInt8 × UInt8

def inRanges (ranges : List ByteRange) (b : UInt8) : Bool := ranges.any fun r => r.1 ≤ b && b ≤ r.2

namespace Encoding

def threeBytes : List (List (List ByteRange)) := [
  [[(0xC2, 0xDF)], [(0x80, 0xBF)]],
  [[(0xE0, 0xE0)], [(0xA0, 0xBF)], [(0x80, 0xBF)]],
  [[(0xE1, 0xEC), (0xEE, 0xEF)], [(0x80, 0xBF)], [(0x80, 0xBF)]],
  [[(0xED, 0xED)], [(0x80, 0x9F)], [(0x80, 0xBF)]]]

def fourBytes : List (List (List ByteRange)) := [
  [[(0xF0, 0xF0)], [(0x90, 0xBF)], [(0x80, 0xBF)], [(0x80, 0xBF)]],
  [[(0xF1, 0xF3)], [(0x80, 0xBF)], [(0x80, 0xBF)], [(0x80, 0xBF)]],
  [[(0xF4, 0xF4)], [(0x80, 0x8F)], [(0x80, 0xBF)], [(0x80, 0xBF)]]]

def japanese : List (List (List ByteRange)) := [
  [[(0xA1, 0xFE)], [(0xA1, 0xFE)]], [[(0x8E, 0x8E)], [(0xA1, 0xDF)]],
  [[(0x8F, 0x8F)], [(0xA1, 0xFE)], [(0xA1, 0xFE)]]]

def shifted : List (List (List ByteRange)) := [[[(0x81, 0x9F), (0xE0, 0xFC)], [(0x40, 0x7E), (0x80, 0xFC)]]]

/-- The characters of several bytes, by what each of their bytes can be. -/
def characters : Encoding → List (List (List ByteRange))
  | singleByte => []
  | utf8 => threeBytes
  | utf8mb4 => threeBytes ++ fourBytes
  | gb2312 => [[[(0xA1, 0xF7)], [(0xA1, 0xFE)]]]
  | gbk => [[[(0x81, 0xFE)], [(0x40, 0x7E), (0x80, 0xFE)]]]
  | gb18030 => [[[(0x81, 0xFE)], [(0x40, 0x7E), (0x80, 0xFE)]],
      [[(0x81, 0xFE)], [(0x30, 0x39)], [(0x81, 0xFE)], [(0x30, 0x39)]]]
  | big5 => [[[(0xA1, 0xF9)], [(0x40, 0x7E), (0xA1, 0xFE)]]]
  | euckr => [[[(0x81, 0xFE)], [(0x41, 0x5A), (0x61, 0x7A), (0x81, 0xFE)]]]
  | ujis | eucjpms => japanese
  | sjis | cp932 => shifted

/-- Some character has a backslash behind its first byte. -/
def hidesBackslash (e : Encoding) : Bool := e.characters.any fun c => c.tail.any fun ranges => inRanges ranges 92

theorem hidesBackslash_iff (e : Encoding) : e.hidesBackslash = true ↔ e ∈ [gbk, gb18030, big5, sjis, cp932] := by
  cases e <;> decide +kernel

end Encoding

/-- The text begins with such a character. -/
def beginsWith : List (List ByteRange) → GoString → Bool
  | [], _ => true
  | _ :: _, [] => false
  | ranges :: c, b :: text => inRanges ranges b && beginsWith c text

/-- The number of bytes behind the first one of the character that the text begins with. -/
def Encoding.following (e : Encoding) (text : GoString) : Nat :=
  ((e.characters.find? fun c => beginsWith c text).map fun c => c.tail.length).getD 0

/-- Where characters of several bytes are read whole. -/
def State.readsCharacters : State → Bool
  | .escape _ _ | .lineComment | .opening | .comment _ => false
  | _ => true

/-- A byte behind the first one of a character. -/
def follow : State → UInt8 → State × List Token
  | .word text, b => (.word (text ++ [b]), [])
  | .literal quote content, b => (.literal quote (content ++ [b]), [])
  | s, b => (s, [.byte b])

/-- The tokens of a text whose first `left` bytes belong to the character before. -/
def scanInFrom (e : Encoding) (runs : Bool) : Nat → State → GoString → List Token
  | _, s, [] => finish s
  | left + 1, s, b :: text => (follow s b).2 ++ scanInFrom e runs left (follow s b).1 text
  | 0, s, b :: text => (step runs s b).2 ++
      scanInFrom e runs (if s.readsCharacters then e.following (b :: text) else 0) (step runs s b).1 text

def scanIn (e : Encoding) (runs : Bool) (text : GoString) : List Token := scanInFrom e runs 0 (.code .other) text

def markersInFrom (e : Encoding) (runs : Bool) : Nat → State → Nat → GoString → List Nat
  | _, _, _, [] => []
  | left + 1, s, pos, b :: text => markersInFrom e runs left (follow s b).1 (pos + 1) text
  | 0, s, pos, b :: text =>
    let rest := markersInFrom e runs (if s.readsCharacters then e.following (b :: text) else 0) (step runs s b).1
      (pos + 1) text
    if Marks runs s b then pos :: rest else rest

/-- The positions of the parameter markers of a text. -/
def markersIn (e : Encoding) (runs : Bool) (text : GoString) : List Nat :=
  markersInFrom e runs 0 (.code .other) 0 text

/-! ### Characters of word bytes -/

variable {e : Encoding} {runs : Bool} {s : State} {b : UInt8} {text : GoString} {left : Nat}

/-- Inside of a character: in a word, a literal or a quoted identifier. -/
def State.HoldsCharacter : State → Prop
  | .word _ | .literal _ _ | .identifier => True
  | _ => False

def ByteRange.inWords (r : ByteRange) : Bool := 128 ≤ r.1 || (65 ≤ r.1 && r.2 ≤ 90) || (97 ≤ r.1 && r.2 ≤ 122)

theorem characters_inWords (h : e.hidesBackslash = false) : ∀ c ∈ e.characters,
    (∀ ranges ∈ c.head?, ∀ r ∈ ranges, 128 ≤ r.1) ∧ ∀ ranges ∈ c.tail, ∀ r ∈ ranges, r.inWords = true := by
  have hall : e.characters.all (fun c =>
      c.head?.all (·.all fun r => 128 ≤ r.1) && c.tail.all (·.all ByteRange.inWords)) = true := by
    cases e with
    | gbk | gb18030 | big5 | sjis | cp932 => cases h
    | _ => rfl
  intro c hc
  have hc := all_eq_true.1 hall c hc
  simp only [Bool.and_eq_true, Option.all_eq_true, all_eq_true, decide_eq_true_eq] at hc
  exact hc

theorem isWord_of_inRanges {ranges : List ByteRange} (hranges : ∀ r ∈ ranges, r.inWords = true)
    (h : inRanges ranges b = true) : isWord b = true := by
  obtain ⟨r, hr, hb⟩ := any_eq_true.1 h
  have hwords := hranges r hr
  unfold ByteRange.inWords at hwords
  unfold isWord
  simp only [Bool.and_eq_true, Bool.or_eq_true, decide_eq_true_eq] at hb hwords ⊢
  rcases hwords with (hlow | ⟨hlow, hhigh⟩) | ⟨hlow, hhigh⟩
  · exact .inr (UInt8.le_trans hlow hb.1)
  · exact .inl (.inl (.inl (.inl (.inr ⟨UInt8.le_trans hlow hb.1, UInt8.le_trans hb.2 hhigh⟩))))
  · exact .inl (.inl (.inl (.inr ⟨UInt8.le_trans hlow hb.1, UInt8.le_trans hb.2 hhigh⟩)))

theorem characters_spec (h : e.hidesBackslash = false) : ∀ c ∈ e.characters,
    (∀ ranges ∈ c.head?, ∀ b, inRanges ranges b = true → 128 ≤ b) ∧
      ∀ ranges ∈ c.tail, ∀ b, inRanges ranges b = true → isWord b = true := by
  intro c hc
  obtain ⟨hhead, htail⟩ := characters_inWords h c hc
  refine ⟨fun ranges hranges b hb => ?_, fun ranges hranges b hb => isWord_of_inRanges (htail ranges hranges) hb⟩
  obtain ⟨r, hr, hb⟩ := any_eq_true.1 hb
  have hlow : r.1 ≤ b := of_decide_eq_true (Bool.and_eq_true_iff.1 hb).1
  exact UInt8.le_trans (hhead ranges hranges r hr) hlow

theorem forall_of_beginsWith {P : UInt8 → Prop} {c : List (List ByteRange)}
    (hc : ∀ ranges ∈ c, ∀ b, inRanges ranges b = true → P b) (h : beginsWith c text = true) :
    ∀ b ∈ text.take c.length, P b := by
  induction c generalizing text with
  | nil => nofun
  | cons ranges c ih =>
    cases text with
    | nil => nofun
    | cons b text =>
      obtain ⟨hb, h⟩ := Bool.and_eq_true_iff.1 h
      exact forall_mem_cons.2 ⟨hc ranges mem_cons_self b hb, ih (fun r hr => hc r (mem_cons_of_mem _ hr)) h⟩

/-- Behind the first byte of a character come bytes of words, and the first byte is beyond ASCII. -/
theorem following_spec (h : e.hidesBackslash = false) (hpos : 0 < e.following (b :: text)) :
    128 ≤ b ∧ ∀ x ∈ text.take (e.following (b :: text)), isWord x = true := by
  unfold Encoding.following at hpos ⊢
  cases hfind : e.characters.find? fun c => beginsWith c (b :: text) with
  | none =>
    rw [hfind] at hpos
    cases hpos
  | some c =>
    obtain ⟨hhead, htail⟩ := characters_spec h c (mem_of_find?_eq_some hfind)
    have hbegins : beginsWith c (b :: text) = true := find?_some (p := fun c => beginsWith c (b :: text)) hfind
    cases c with
    | nil =>
      rw [hfind] at hpos
      cases hpos
    | cons ranges c =>
      obtain ⟨hb, hbegins⟩ := Bool.and_eq_true_iff.1 hbegins
      exact ⟨hhead ranges rfl b hb, forall_of_beginsWith htail hbegins⟩

theorem follow_eq_step (hs : s.HoldsCharacter) (hb : isWord b = true) : follow s b = step runs s b := by
  have hspecial : b ≠ 39 ∧ b ≠ 34 ∧ b ≠ 92 ∧ b ≠ 96 := by
    refine ⟨?_, ?_, ?_, ?_⟩ <;> rintro rfl <;> cases hb
  obtain ⟨hsingle, hdouble, hslash, hback⟩ := hspecial
  cases s with
  | word w => exact (if_pos hb).symm
  | literal quote content =>
    have hquote : b ≠ quote.byte := by cases quote <;> assumption
    simp only [follow, step, hquote, hslash, if_false]
  | identifier => simp only [follow, step, hback, if_false]
  | _ => exact hs.elim

theorem holdsCharacter_follow (hs : s.HoldsCharacter) : (follow s b).1.HoldsCharacter := by
  cases s <;> first | exact hs.elim | trivial

theorem holdsCharacter_step (hs : s.readsCharacters = true) (hb : 128 ≤ b) : (step runs s b).1.HoldsCharacter := by
  have hword : isWord b = true := by simp [isWord, hb]
  have hcode : ∀ last, (readCode last b).1 = .word [b] := by
    intro last
    have hspecial : b ≠ 39 ∧ b ≠ 34 ∧ b ≠ 63 := by
      refine ⟨?_, ?_, ?_⟩ <;> rintro rfl <;> exact absurd hb (by decide)
    simp only [readCode, hspecial, hword, if_false, if_true]
  cases s with
  | code last => simp only [step, hcode, State.HoldsCharacter]
  | word w => simp only [step, hword, if_true, State.HoldsCharacter]
  | literal quote content =>
    rw [← follow_eq_step (s := .literal quote content) trivial hword]
    trivial
  | identifier =>
    rw [← follow_eq_step (s := .identifier) trivial hword]
    trivial
  | closed quote content =>
    have hquote : b ≠ quote.byte := by
      rintro rfl
      cases quote <;> exact absurd hb (by decide)
    simp only [step, hquote, if_false, hcode, State.HoldsCharacter]
  | _ => cases hs

/-- What the scanners share: bytes behind the first one of a character are bytes of words. -/
def Inside (left : Nat) (s : State) (text : GoString) : Prop :=
  0 < left → s.HoldsCharacter ∧ ∀ b ∈ text.take left, isWord b = true

theorem Inside.step (h : e.hidesBackslash = false) :
    Inside (if s.readsCharacters then e.following (b :: text) else 0) (step runs s b).1 text := by
  intro hpos
  split at hpos
  · next hs =>
    obtain ⟨hb, hrest⟩ := following_spec h hpos
    rw [if_pos hs]
    exact ⟨holdsCharacter_step hs hb, hrest⟩
  · cases hpos

theorem Inside.follow (h : Inside (left + 1) s (b :: text)) :
    follow s b = Scanner.step runs s b ∧ Inside left (Scanner.step runs s b).1 text := by
  obtain ⟨hs, hbytes⟩ := h (Nat.succ_pos left)
  obtain ⟨hb, hbytes⟩ := forall_mem_cons.1 hbytes
  have heq : Scanner.follow s b = Scanner.step runs s b := follow_eq_step hs hb
  exact ⟨heq, fun _ => ⟨heq ▸ holdsCharacter_follow hs, hbytes⟩⟩

theorem scanInFrom_eq (h : e.hidesBackslash = false) (hin : Inside left s text) :
    scanInFrom e runs left s text = scanFrom runs s text := by
  induction text generalizing left s with
  | nil => cases left <;> rfl
  | cons b text ih =>
    cases left with
    | zero => rw [scanInFrom, scanFrom, ih (.step h)]
    | succ left =>
      obtain ⟨hfollow, hin⟩ := hin.follow
      rw [scanInFrom, scanFrom, hfollow, ih hin]

theorem markersInFrom_eq (h : e.hidesBackslash = false) (hin : Inside left s text) (pos : Nat) :
    markersInFrom e runs left s pos text = markersFrom runs s pos text := by
  induction text generalizing left s pos with
  | nil => cases left <;> rfl
  | cons b text ih =>
    cases left with
    | zero =>
      simp only [markersInFrom, markersFrom]
      rw [ih (.step h)]
    | succ left =>
      obtain ⟨hs, hbytes⟩ := hin (Nat.succ_pos left)
      have hmark : ¬ Marks runs s b := by
        intro hmark
        have hb := (forall_mem_cons.1 hbytes).1
        rw [(hmark.cases).1] at hb
        cases hb
      obtain ⟨hfollow, hin⟩ := hin.follow
      rw [markersInFrom, markersFrom, if_neg hmark, hfollow, ih hin]

theorem scanIn_eq (h : e.hidesBackslash = false) (runs : Bool) (text : GoString) :
    scanIn e runs text = scan runs text :=
  scanInFrom_eq h (fun hpos => absurd hpos (Nat.lt_irrefl 0))

theorem markersIn_eq (h : e.hidesBackslash = false) (runs : Bool) (text : GoString) :
    markersIn e runs text = markers runs text :=
  markersInFrom_eq h (fun hpos => absurd hpos (Nat.lt_irrefl 0)) 0

end Scanner

end DbProxy
