import DbProxy.Mysql.Scanner
import DbProxy.Server.Stmt

/-!
# Parameter markers

`calcParams` follows the two kinds of quotes only.  As long as no quote is escaped by a backslash and none stands in a
quoted identifier or in a comment, it knows at every byte whether the byte lies in a string literal
(`Scanner.State.quoteChar`), and what it finds are the markers together with the question marks in identifiers and
comments.
-/

namespace DbProxy

open List

namespace Scanner

/-- The quote of the literal the scanner is in. -/
def State.quoteChar : State → Option UInt8
  | .literal quote _ => some quote.byte
  | .escape quote _ => some quote.byte
  | _ => none

/-- The scanner is in a quoted identifier or in a comment. -/
def State.hidden : State → Bool
  | .identifier | .lineComment | .opening | .comment _ => true
  | _ => false

/-- No literal, identifier or comment is cut off by the end of the text. -/
def State.complete : State → Bool
  | .code _ | .word _ | .closed _ _ | .lineComment => true
  | _ => false

/-- The quotes that would neither open nor end a literal, and that `calcParams` takes for such: one that is escaped,
and those in identifiers and comments. -/
def State.strayQuotes : State → List UInt8
  | .escape quote _ => [quote.byte]
  | .identifier | .lineComment | .opening | .comment _ => [34, 39]
  | _ => []

/-- `P` holds of every byte of the text and the state it is read in. -/
def Throughout (runs : Bool) (P : State → UInt8 → Prop) : State → GoString → Prop
  | _, [] => True
  | s, b :: text => P s b ∧ Throughout runs P (step runs s b).1 text

instance decidableThroughout (runs : Bool) (P : State → UInt8 → Prop) [∀ s b, Decidable (P s b)] :
    ∀ s text, Decidable (Throughout runs P s text)
  | _, [] => isTrue trivial
  | s, b :: text =>
    have := decidableThroughout runs P (step runs s b).1 text
    inferInstanceAs (Decidable (P s b ∧ Throughout runs P (step runs s b).1 text))

variable {runs : Bool} {s : State} {b : UInt8}

/-- What `calcParams` makes of its `quoteChar` at a byte. -/
def nextQuoteChar (quoteChar : Option UInt8) (elem : UInt8) : Option UInt8 :=
  if elem = 34 ∨ elem = 39 then
    if quoteChar = none then some elem else if quoteChar = some elem then none else quoteChar
  else quoteChar

theorem calcParamsFrom_cons (quoteChar : Option UInt8) (i : Nat) (elem : UInt8) (rest : GoString) :
    calcParamsFrom quoteChar i (elem :: rest) =
      (calcParamsFrom (nextQuoteChar quoteChar elem) (i + 1) rest).map fun offsets =>
        if quoteChar = none ∧ elem = 63 then i :: offsets else offsets := by
  have hsame : ∀ x : Except Fail (List Nat), x.map (fun offsets => offsets) = x := by
    intro x
    cases x <;> rfl
  have hloop : calcParamsFrom quoteChar i (elem :: rest) =
      if elem = 92 then calcParamsFrom quoteChar (i + 1) rest
      else if elem = 34 ∨ elem = 39 then
        calcParamsFrom (if quoteChar = none then some elem else if quoteChar = some elem then none else quoteChar)
          (i + 1) rest
      else if quoteChar = none ∧ elem = 63 then
        (calcParamsFrom quoteChar (i + 1) rest).map fun offsets => i :: offsets
      else calcParamsFrom quoteChar (i + 1) rest := by
    cases quoteChar <;> rfl
  rw [hloop]
  unfold nextQuoteChar
  by_cases hback : elem = 92
  · subst hback
    simp [hsame]
  · by_cases hquote : elem = 34 ∨ elem = 39
    · have hmark : elem ≠ 63 := by
        rcases hquote with rfl | rfl <;> decide
      simp [hback, hquote, hmark, hsame]
    · by_cases hmark : quoteChar = none ∧ elem = 63
      · rw [if_neg hback, if_neg hquote, if_pos hmark, if_neg hquote]
        simp only [if_pos hmark]
      · rw [if_neg hback, if_neg hquote, if_neg hmark, if_neg hquote]
        simp only [if_neg hmark, hsame]

theorem quoteChar_afterByte (last : Last) (b : UInt8) : (afterByte last b).quoteChar = none := by
  unfold afterByte
  split_ifs <;> rfl

theorem quoteChar_readCode (last : Last) (b : UInt8) : (readCode last b).1.quoteChar = nextQuoteChar none b := by
  unfold readCode nextQuoteChar
  by_cases hsingle : b = 39
  · simp [hsingle, State.quoteChar, Quote.byte]
  · by_cases hdouble : b = 34
    · simp [hdouble, State.quoteChar, Quote.byte]
    · simp only [hsingle, hdouble, or_self, if_false]
      split_ifs
      · rfl
      · rfl
      · exact quoteChar_afterByte last b

theorem Quote.byte_eq (quote : Quote) : quote.byte = 34 ∨ quote.byte = 39 := by
  cases quote <;> simp [Quote.byte]

/-- Only a stray quote makes `calcParams` lose the literal it is in. -/
theorem quoteChar_step (h : b ∉ s.strayQuotes) : (step runs s b).1.quoteChar = nextQuoteChar s.quoteChar b := by
  have hhidden : s.strayQuotes = [34, 39] → nextQuoteChar none b = none := by
    intro hs
    have hb : ¬(b = 34 ∨ b = 39) := by simpa [hs] using h
    rw [nextQuoteChar, if_neg hb]
  cases s with
  | code last => exact quoteChar_readCode last b
  | word text =>
    simp only [step]
    split_ifs with hword
    · have hb : ¬(b = 34 ∨ b = 39) := by
        rintro (rfl | rfl) <;> exact absurd hword (by decide)
      simp [State.quoteChar, nextQuoteChar, hb]
    · exact quoteChar_readCode .other b
  | literal quote content =>
    simp only [step, State.quoteChar, nextQuoteChar]
    by_cases hend : b = quote.byte
    · have hb := Quote.byte_eq quote
      simp [hend, hb]
    · have hne : quote.byte ≠ b := fun heq => hend heq.symm
      simp only [hend, if_false]
      split_ifs <;> simp_all
  | escape quote content =>
    have hne : quote.byte ≠ b := fun heq => h (mem_singleton.2 heq.symm)
    simp [step, State.quoteChar, nextQuoteChar, hne]
  | closed quote content =>
    simp only [step]
    split_ifs with hagain
    · have hb := Quote.byte_eq quote
      simp [State.quoteChar, nextQuoteChar, hagain, hb]
    · exact quoteChar_readCode .other b
  | identifier =>
    refine Eq.trans ?_ (hhidden rfl).symm
    simp only [step]
    split_ifs <;> rfl
  | lineComment =>
    refine Eq.trans ?_ (hhidden rfl).symm
    simp only [step]
    split_ifs <;> rfl
  | opening =>
    refine Eq.trans ?_ (hhidden rfl).symm
    simp only [step]
    split_ifs <;> rfl
  | comment star =>
    refine Eq.trans ?_ (hhidden rfl).symm
    simp only [step]
    split_ifs <;> rfl

theorem marks_iff : Marks runs s b ↔ s.quoteChar = none ∧ b = 63 ∧ s.hidden = false := by
  constructor
  · intro h
    obtain ⟨hb, ⟨last, rfl⟩ | ⟨text, rfl⟩ | ⟨quote, content, rfl⟩⟩ := h.cases <;> exact ⟨rfl, hb, rfl⟩
  · rintro ⟨hquote, rfl, hhidden⟩
    cases s with
    | code last => exact mem_singleton.2 rfl
    | word text => exact mem_cons_of_mem _ (mem_singleton.2 rfl)
    | closed quote content =>
      cases quote <;> exact mem_cons_of_mem _ (mem_singleton.2 rfl)
    | literal | escape => cases hquote
    | identifier | lineComment | opening | comment => cases hhidden

theorem le_of_mem_markersFrom {text : GoString} :
    ∀ {s : State} {i j : Nat}, j ∈ markersFrom runs s i text → i ≤ j := by
  induction text with
  | nil =>
    intro s i j h
    cases h
  | cons b text ih =>
    intro s i j h
    unfold markersFrom at h
    split_ifs at h
    · rcases mem_cons.1 h with rfl | h
      · exact le_rfl
      · exact (Nat.le_succ i).trans (ih h)
    · exact (Nat.le_succ i).trans (ih h)

theorem map_eq_ok_iff {f : List Nat → List Nat} (hf : Function.Injective f) {x : Except Fail (List Nat)}
    {l : List Nat} : x.map f = .ok (f l) ↔ x = .ok l := by
  cases x with
  | error e => simp [Except.map]
  | ok l' => simp [Except.map, hf.eq_iff]

/-- The offsets are those of the markers when no question mark is hidden, and have others among them when one is. -/
theorem calcParamsFrom_eq_iff {text : GoString} :
    ∀ {s : State} (i : Nat), Throughout runs (fun s b => b ∉ s.strayQuotes) s text →
    (after runs s text).quoteChar = none →
    (calcParamsFrom s.quoteChar i text = .ok (markersFrom runs s i text) ↔
      Throughout runs (fun s b => ¬(s.hidden = true ∧ b = 63)) s text) := by
  induction text with
  | nil =>
    intro s i _ hcomplete
    have hquote : s.quoteChar = none := hcomplete
    rw [hquote]
    exact iff_of_true rfl trivial
  | cons b text ih =>
    rintro s i ⟨hstray, hrest⟩ hcomplete
    have hih := ih (i + 1) hrest hcomplete
    rw [calcParamsFrom_cons, ← quoteChar_step hstray]
    unfold Throughout markersFrom
    by_cases hmark : s.quoteChar = none ∧ b = 63
    · simp only [if_pos hmark]
      by_cases hhidden : s.hidden = true
      · -- the offset of a hidden question mark is not among those of the markers
        rw [if_neg fun h => Bool.false_ne_true ((marks_iff.1 h).2.2.symm.trans hhidden)]
        refine iff_of_false (fun heq => ?_) fun h => h.1 ⟨hhidden, hmark.2⟩
        cases hcalc : calcParamsFrom (step runs s b).1.quoteChar (i + 1) text with
        | error e =>
          rw [hcalc] at heq
          cases heq
        | ok offsets =>
          rw [hcalc] at heq
          have hmem : i ∈ markersFrom runs (step runs s b).1 (i + 1) text :=
            Except.ok.inj heq ▸ (mem_cons_self : i ∈ i :: offsets)
          exact absurd (le_of_mem_markersFrom hmem) (Nat.not_succ_le_self i)
      · rw [if_pos (marks_iff.2 ⟨hmark.1, hmark.2, Bool.not_eq_true _ ▸ hhidden⟩),
          map_eq_ok_iff (f := fun offsets => i :: offsets) fun _ _ h => (List.cons.inj h).2, hih]
        exact (and_iff_right fun h => hhidden h.1).symm
    · simp only [if_neg hmark]
      have hhidden : ¬(s.hidden = true ∧ b = 63) := by
        rintro ⟨hs, hb⟩
        refine hmark ⟨?_, hb⟩
        cases s <;> first | rfl | cases hs
      rw [if_neg fun h => hmark ⟨(marks_iff.1 h).1, (marks_iff.1 h).2.1⟩, map_eq_ok_iff (f := fun offsets => offsets)
        fun _ _ h => h, hih]
      exact (and_iff_right hhidden).symm

/-- `calcParams` finds just the markers of a text in which no quote is escaped by a backslash or stands in an
identifier or a comment, if and only if no question mark stands in an identifier or a comment. -/
theorem calcParams_eq_markers_iff (runs : Bool) (sql : GoString)
    (hvalid : (after runs (.code .other) sql).complete = true)
    (hstray : Throughout runs (fun s b => b ∉ s.strayQuotes) (.code .other) sql) :
    calcParams sql = .ok ((markers runs sql).length, markers runs sql) ↔
      Throughout runs (fun s b => ¬(s.hidden = true ∧ b = 63)) (.code .other) sql := by
  have hcomplete : (after runs (.code .other) sql).quoteChar = none := by
    cases hend : after runs (.code .other) sql <;> first | rfl | (rw [hend] at hvalid; cases hvalid)
  rw [← calcParamsFrom_eq_iff 0 hstray hcomplete]
  show calcParams sql = .ok ((markers runs sql).length, markers runs sql) ↔
    calcParamsFrom none 0 sql = .ok (markers runs sql)
  unfold calcParams
  cases calcParamsFrom none 0 sql with
  | error e => exact iff_of_false (by rintro ⟨⟩) (by rintro ⟨⟩)
  | ok offsets =>
    constructor
    · intro h
      rw [show offsets = markers runs sql from congrArg Prod.snd (Except.ok.inj h)]
    · intro h
      rw [Except.ok.inj h]
      rfl

/-- Two markers, with quotes of both kinds, a doubled quote and a comment between them. -/
theorem calcParams_eq_markers_iff_comment :
    calcParams (ascii "select 'it''s ?', \"a'b?\" from `t` where a = ? /* so */ and b=?") =
      .ok (2, [44, 61]) := by
  have hiff := calcParams_eq_markers_iff false
    (ascii "select 'it''s ?', \"a'b?\" from `t` where a = ? /* so */ and b=?")
    (by decide +kernel) (by decide +kernel)
  have hmarkers : markers false (ascii "select 'it''s ?', \"a'b?\" from `t` where a = ? /* so */ and b=?") =
      [44, 61] := by
    decide +kernel
  rw [hmarkers] at hiff
  exact hiff.2 (by decide +kernel)

/-- Behind an escaped quote a question mark in the literal counts as a marker and the real one does not; a quote in a
comment makes the statement fail; a question mark in a quoted identifier counts as a marker. -/
theorem calcParams_escaped_quote :
    (after false (.code .other) (ascii "select 'it\\'s ?', ?, 'x'")).complete = true ∧
    markers false (ascii "select 'it\\'s ?', ?, 'x'") = [18] ∧
    calcParams (ascii "select 'it\\'s ?', ?, 'x'") ≠ .ok (1, [18]) ∧
    (after false (.code .other) (ascii "select ? -- don't")).complete = true ∧
    calcParams (ascii "select ? -- don't") = .error (.error "fatal situation") ∧
    markers false (ascii "select `?`") = [] ∧ calcParams (ascii "select `?`") = .ok (1, [8]) := by
  decide +kernel

end Scanner

end DbProxy
