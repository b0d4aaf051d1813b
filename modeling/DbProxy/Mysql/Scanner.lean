import DbProxy.Router.Value

/-!
# The lexical structure of a statement

How MySQL reads the text of a statement, as far as string literals go: single and double quotes with backslash escapes
and doubled quotes, identifiers in backquotes, and the three kinds of comments.  Outside of these a question mark is a
parameter marker, and letters and digits that touch each other make one word.  The scanner reads byte by byte; what
depends on the next byte (a quote that may be doubled, a dash that may begin a comment) waits in the state.

The text of `/*! … */` belongs to the statement or not as the version of the server wants it: `runs` says which.
-/

namespace DbProxy

open List

namespace Scanner

inductive Token where
  /-- A string literal, by the string it stands for. -/
  | literal (content : GoString)
  | word (text : GoString)
  | marker
  /-- Any other byte, those of comments and of quoted identifiers included. -/
  | byte (b : UInt8)
  /-- A literal the end of the text cuts off. -/
  | unclosed (content : GoString)
  deriving DecidableEq, Repr

/-- What the last byte outside of literals may begin. -/
inductive Last where
  | other
  | dash
  | dashes
  | slash
  deriving DecidableEq, Repr

inductive Quote where
  | single
  | double
  deriving DecidableEq, Repr

def Quote.byte : Quote → UInt8
  | .single => 39
  | .double => 34

inductive State where
  | code (last : Last)
  | word (text : GoString)
  | literal (quote : Quote) (content : GoString)
  /-- Behind a backslash. -/
  | escape (quote : Quote) (content : GoString)
  /-- Behind a quote that ends the literal, if it is not doubled. -/
  | closed (quote : Quote) (content : GoString)
  | identifier
  | lineComment
  /-- Behind the two bytes that open a comment. -/
  | opening
  | comment (star : Bool)
  deriving DecidableEq, Repr

/-- Bytes of words and numbers: letters, digits, `_`, `$` and everything beyond ASCII. -/
def isWord (b : UInt8) : Bool :=
  isDigit b || (65 ≤ b && b ≤ 90) || (97 ≤ b && b ≤ 122) || b == 95 || b == 36 || 128 ≤ b

/-- White space and control bytes, one of which two dashes need to begin a comment. -/
def isBlank (b : UInt8) : Bool := b ≤ 32 || b == 127

/-- What a backslash and a byte stand for. -/
def unescape (b : UInt8) : GoString :=
  if b = 48 then [0]
  else if b = 98 then [8]
  else if b = 110 then [10]
  else if b = 114 then [13]
  else if b = 116 then [9]
  else if b = 90 then [26]
  else if b = 37 ∨ b = 95 then [92, b]
  else [b]

def afterByte (last : Last) (b : UInt8) : State :=
  if b = 96 then .identifier
  else if b = 35 then .lineComment
  else if b = 45 then .code (if last = .dash ∨ last = .dashes then .dashes else .dash)
  else if last = .dashes ∧ isBlank b ∧ b ≠ 10 then .lineComment
  else if last = .slash ∧ b = 42 then .opening
  else if b = 47 then .code .slash
  else .code .other

def readCode (last : Last) (b : UInt8) : State × List Token :=
  if b = 39 then (.literal .single [], [])
  else if b = 34 then (.literal .double [], [])
  else if b = 63 then (.code .other, [.marker])
  else if isWord b then (.word [b], [])
  else (afterByte last b, [.byte b])

/-- One byte: the next state and the tokens that are complete. -/
def step (runs : Bool) : State → UInt8 → State × List Token
  | .code last, b => readCode last b
  | .word text, b =>
    if isWord b then (.word (text ++ [b]), [])
    else ((readCode .other b).1, .word text :: (readCode .other b).2)
  | .literal quote content, b =>
    if b = quote.byte then (.closed quote content, [])
    else if b = 92 then (.escape quote content, [])
    else (.literal quote (content ++ [b]), [])
  | .escape quote content, b => (.literal quote (content ++ unescape b), [])
  | .closed quote content, b =>
    if b = quote.byte then (.literal quote (content ++ [b]), [])
    else ((readCode .other b).1, .literal content :: (readCode .other b).2)
  | .identifier, b => (if b = 96 then .code .other else .identifier, [.byte b])
  | .lineComment, b => (if b = 10 then .code .other else .lineComment, [.byte b])
  | .opening, b => (if b = 33 ∧ runs then .code .other else .comment (b = 42), [.byte b])
  | .comment star, b => (if star ∧ b = 47 then .code .other else .comment (b = 42), [.byte b])

/-- The tokens the end of the text completes. -/
def finish : State → List Token
  | .word text => [.word text]
  | .literal _ content => [.unclosed content]
  | .escape _ content => [.unclosed content]
  | .closed _ content => [.literal content]
  | _ => []

def scanFrom (runs : Bool) : State → GoString → List Token
  | s, [] => finish s
  | s, b :: text => (step runs s b).2 ++ scanFrom runs (step runs s b).1 text

def scan (runs : Bool) (text : GoString) : List Token := scanFrom runs (.code .other) text

/-- The state behind a text. -/
def after (runs : Bool) (s : State) (text : GoString) : State := text.foldl (fun s b => (step runs s b).1) s

/-- Byte `b` is a parameter marker when it is read in state `s`. -/
def Marks (runs : Bool) (s : State) (b : UInt8) : Prop := Token.marker ∈ (step runs s b).2

instance (runs : Bool) (s : State) (b : UInt8) : Decidable (Marks runs s b) :=
  inferInstanceAs (Decidable (Token.marker ∈ (step runs s b).2))

def markersFrom (runs : Bool) : State → Nat → GoString → List Nat
  | _, _, [] => []
  | s, pos, b :: text =>
    if Marks runs s b then pos :: markersFrom runs (step runs s b).1 (pos + 1) text
    else markersFrom runs (step runs s b).1 (pos + 1) text

/-- The positions of the parameter markers of a text. -/
def markers (runs : Bool) (text : GoString) : List Nat := markersFrom runs (.code .other) 0 text

/-- The tokens with each marker replaced by the tokens given for it, in order. -/
def fill : List (List Token) → List Token → List Token
  | _, [] => []
  | value :: values, .marker :: tokens => value ++ fill values tokens
  | values, token :: tokens => token :: fill values tokens

/-! ### Which states a marker is read in -/

variable {runs : Bool} {s : State} {b : UInt8}

theorem readCode_marks {last : Last} (h : Token.marker ∈ (readCode last b).2) : b = 63 := by
  unfold readCode at h
  split_ifs at h with hsingle hdouble hmark hword
  · cases h
  · cases h
  · exact hmark
  · cases h
  · cases mem_singleton.1 h

theorem Marks.cases (h : Marks runs s b) :
    b = 63 ∧ ((∃ last, s = .code last) ∨ (∃ text, s = .word text) ∨ ∃ quote content, s = .closed quote content) := by
  unfold Marks at h
  cases s with
  | code last => exact ⟨readCode_marks h, .inl ⟨last, rfl⟩⟩
  | word text =>
    simp only [step] at h
    split_ifs at h
    · cases h
    · rcases mem_cons.1 h with h | h
      · cases h
      · exact ⟨readCode_marks h, .inr (.inl ⟨text, rfl⟩)⟩
  | closed quote content =>
    simp only [step] at h
    split_ifs at h
    · cases h
    · rcases mem_cons.1 h with h | h
      · cases h
      · exact ⟨readCode_marks h, .inr (.inr ⟨quote, content, rfl⟩)⟩
  | literal quote content =>
    simp only [step] at h
    split_ifs at h <;> cases h
  | escape quote content => cases h
  | identifier | lineComment | opening | comment => cases mem_singleton.1 h

theorem step_marker (last : Last) : step runs (.code last) 63 = (.code .other, [.marker]) := rfl

/-! ### Filling in -/

theorem fill_append_of_not_mem (values : List (List Token)) {tokens : List Token} (h : Token.marker ∉ tokens)
    (rest : List Token) : fill values (tokens ++ rest) = tokens ++ fill values rest := by
  induction tokens with
  | nil => rfl
  | cons token tokens ih =>
    obtain ⟨htoken, htokens⟩ := not_or.1 (mem_cons.not.1 h)
    rw [cons_append, cons_append, ← ih htokens]
    cases token with
    | marker => exact absurd rfl htoken
    | _ => cases values <;> rfl

theorem fill_finish (values : List (List Token)) (s : State) : fill values (finish s) = finish s := by
  have hmark : Token.marker ∉ finish s := by
    cases s <;> simp [finish]
  have hfill := fill_append_of_not_mem values hmark []
  rw [append_nil] at hfill
  rw [hfill]
  cases values <;> simp [fill]

/-! ### Words -/

theorem scanFrom_word {w : GoString} (hw : ∀ b ∈ w, isWord b) (text rest : GoString) :
    scanFrom runs (.word text) (w ++ rest) = scanFrom runs (.word (text ++ w)) rest := by
  induction w generalizing text with
  | nil => rw [append_nil, nil_append]
  | cons b w ih =>
    have hb : isWord b = true := hw b mem_cons_self
    have hstep : step runs (.word text) b = (.word (text ++ [b]), []) := if_pos hb
    rw [cons_append, scanFrom, hstep, nil_append, ih (fun b hb => hw b (mem_cons_of_mem _ hb)),
      append_assoc, singleton_append]

end Scanner

end DbProxy
