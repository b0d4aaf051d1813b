import DbProxy.Mysql.Encoding
import DbProxy.Server.Stmt
import DbProxy.Spec.Numerals

/-!
# Arguments of prepared statements

Whatever the arguments are, MySQL reads the rewritten statement as the prepared one with a literal in the place of
each marker: the scanner is in the code in front of an argument, and behind it.  Between the quotes of a byte string
the escapes lead the scanner past every quote and backslash of the argument; a number is a word of its own because the
bytes around the marker belong to no word.  This needs a character set in which the backslash of an escape is never
the second byte of a character (`getRewriteSQL_scan_iff`).
-/

namespace DbProxy

open Scanner List

namespace Stmt

variable {arg : StmtArg} {rest w text before : GoString} {s : State} {b : UInt8} {args : List StmtArg} {i : Nat}

/-- White space, commas, parentheses and the bytes of operators. -/
def separators : GoString := [32, 9, 10, 11, 12, 13] ++ ascii ",()+-*/%=<>!&|^~"

/-- The byte at position `i` has separators, or the ends of the text, on both sides. -/
def Separated (sql : GoString) (i : Nat) : Prop :=
  (i ≠ 0 → ∀ b ∈ sql[i - 1]?, b ∈ separators) ∧ ∀ b ∈ sql[i + 1]?, b ∈ separators

instance (sql : GoString) (i : Nat) : Decidable (Separated sql i) :=
  inferInstanceAs (Decidable ((i ≠ 0 → ∀ b ∈ sql[i - 1]?, b ∈ separators) ∧ ∀ b ∈ sql[i + 1]?, b ∈ separators))

/-- The argument that the tokens of a literal stand for.  MySQL reads a negative number as a minus sign and a
numeral. -/
def decode : List Token → Option StmtArg
  | [.literal v] => some (.bytes v)
  | [.word text] =>
    if text = ascii "NULL" then some .nil
    else if text.all isDigit then some (.int (natOfDigits text)) else none
  | [.byte 45, .word text] => if text.all isDigit then some (.int (-natOfDigits text)) else none
  | _ => none

def tokens : StmtArg → List Token
  | .nil => [.word (ascii "NULL")]
  | .bytes v => [.literal v]
  | .int n => if 0 ≤ n then [.word (ascii n.toNat.repr)] else [.byte 45, .word (ascii (-n).toNat.repr)]
  | .float text => [.word text]

theorem decode_tokens (h : arg.isFloat = false) : decode (tokens arg) = some arg := by
  cases arg with
  | nil => rfl
  | bytes v => rfl
  | float text => cases h
  | int n =>
    simp only [tokens]
    split
    · next hn =>
      have hnull : ascii n.toNat.repr ≠ ascii "NULL" := by
        intro hnull
        have hdigits := repr_all_isDigit n.toNat
        rw [hnull] at hdigits
        exact absurd hdigits (by decide)
      simp only [decode, hnull, if_false, repr_all_isDigit, if_true, natOfDigits_repr]
      rw [Int.toNat_of_nonneg hn]
    · next hn =>
      simp only [decode, repr_all_isDigit, if_true, natOfDigits_repr]
      rw [Int.toNat_of_nonneg (by omega), neg_neg]

/-! ### Reading an argument -/

variable {runs : Bool}

/-- A text that begins with a separator, if it is not empty. -/
def Parted (text : GoString) : Prop := ∀ b, text.head? = some b → b ∈ separators

theorem separators_spec : ∀ b ∈ separators, b ≠ 39 ∧ b ≠ 34 ∧ b ≠ 63 ∧ isWord b = false := by decide +kernel

theorem scanFrom_escapeSQL (v content rest : GoString) :
    scanFrom runs (.literal .single content) (escapeSQL v ++ rest) = scanFrom runs
      (.literal .single (content ++ v)) rest := by
  induction v generalizing content with
  | nil => rw [append_nil]; rfl
  | cons b v ih =>
    have hcons : escapeSQL (b :: v) = (if b = 92 ∨ b = 39 then [92, b] else [b]) ++ escapeSQL v := flatMap_cons
    rw [hcons, append_assoc, append_cons content b v]
    by_cases hb : b = 92 ∨ b = 39
    · have hunescape : unescape b = [b] := by
        rcases hb with rfl | rfl <;> rfl
      rw [if_pos hb]
      show scanFrom runs (.literal .single (content ++ unescape b)) (escapeSQL v ++ rest) = _
      rw [hunescape, ih]
    · obtain ⟨hslash, hquote⟩ := not_or.1 hb
      have hstep : step runs (.literal .single content) b = (.literal .single (content ++ [b]), []) := by
        simp only [step, Quote.byte, hquote, hslash, if_false]
      rw [if_neg hb, singleton_append, scanFrom, hstep, nil_append, ih]

theorem scanFrom_closed {v : GoString} (hrest : Parted rest) :
    scanFrom runs (.closed .single v) rest = .literal v :: scanFrom runs (.code .other) rest := by
  cases rest with
  | nil => rfl
  | cons b rest =>
    have hb := (separators_spec b (hrest b rfl)).1
    simp only [scanFrom, step, Quote.byte, hb, if_false, cons_append]

theorem scanFrom_word_end (hrest : Parted rest) :
    scanFrom runs (.word w) rest = .word w :: scanFrom runs (.code .other) rest := by
  cases rest with
  | nil => rfl
  | cons b rest =>
    have hb := (separators_spec b (hrest b rfl)).2.2.2
    simp only [scanFrom, step, hb, Bool.false_eq_true, if_false, cons_append]

theorem isWord_spec (b : UInt8) (h : isWord b) : b ≠ 39 ∧ b ≠ 34 ∧ b ≠ 63 ∧ b ≠ 92 := by
  refine ⟨?_, ?_, ?_, ?_⟩ <;> rintro rfl <;> exact absurd h (by decide)

theorem scanFrom_code_word (hne : w ≠ []) (hw : ∀ b ∈ w, isWord b) (hrest : Parted rest) (last : Last) :
    scanFrom runs (.code last) (w ++ rest) = .word w :: scanFrom runs (.code .other) rest := by
  obtain ⟨b, w, rfl⟩ := exists_cons_of_ne_nil hne
  have hb := hw b mem_cons_self
  obtain ⟨hsingle, hdouble, hmark, -⟩ := isWord_spec b hb
  have hstep : step runs (.code last) b = (.word [b], []) := by
    simp only [step, readCode, hsingle, hdouble, hmark, hb, if_false, if_true]
  rw [cons_append, scanFrom, hstep, nil_append, scanFrom_word (fun b hb => hw b (mem_cons_of_mem _ hb)),
    singleton_append, scanFrom_word_end hrest]

theorem escapeSQL_word (hw : ∀ b ∈ w, isWord b) : escapeSQL w = w := by
  induction w with
  | nil => rfl
  | cons b w ih =>
    obtain ⟨hquote, -, -, hslash⟩ := isWord_spec b (hw b mem_cons_self)
    have hcons : escapeSQL (b :: w) = (if b = 92 ∨ b = 39 then [92, b] else [b]) ++ escapeSQL w := flatMap_cons
    rw [hcons, if_neg (by simp [hquote, hslash]), ih fun b hb => hw b (mem_cons_of_mem _ hb), singleton_append]

theorem repr_isWord (n : Nat) : ∀ b ∈ ascii n.repr, isWord b := by
  intro b hb
  have hdigit := all_eq_true.1 (repr_all_isDigit n) b hb
  unfold isWord
  rw [hdigit]
  rfl

theorem scanFrom_argText (h : arg.isFloat = false) (hrest : Parted rest) (last : Last) :
    scanFrom runs (.code last) (argText arg ++ rest) = tokens arg ++ scanFrom runs (.code .other) rest := by
  cases arg with
  | float text => cases h
  | nil => exact scanFrom_code_word (w := ascii "NULL") (by decide) (by decide +kernel) hrest last
  | bytes v =>
    have htext : argText (.bytes v) ++ rest = 39 :: (escapeSQL v ++ 39 :: rest) := by
      show 39 :: (escapeSQL v ++ [39]) ++ rest = _
      rw [cons_append, append_assoc, singleton_append]
    rw [htext]
    show scanFrom runs (.literal .single []) (escapeSQL v ++ 39 :: rest) = _
    rw [scanFrom_escapeSQL, nil_append]
    exact scanFrom_closed hrest
  | int n =>
    simp only [tokens]
    rcases toString_int n with ⟨hn, htext⟩ | ⟨hn, htext⟩
    · have hargText : argText (.int n) = ascii n.toNat.repr := by
        show escapeSQL (ascii (toString n)) = _
        unfold ascii
        rw [htext]
        exact escapeSQL_word (repr_isWord _)
      rw [hargText, if_pos hn]
      exact scanFrom_code_word (repr_ne_nil _) (repr_isWord _) hrest last
    · have hargText : argText (.int n) = 45 :: ascii (-n).toNat.repr := by
        show escapeSQL (ascii (toString n)) = _
        unfold ascii
        rw [htext]
        exact congrArg (45 :: ·) (escapeSQL_word (repr_isWord _))
      have hminus : ∃ last', step runs (.code last) 45 = (.code last', [.byte 45]) := by
        cases last <;> exact ⟨_, rfl⟩
      obtain ⟨last', hminus⟩ := hminus
      rw [hargText, if_neg (by omega), cons_append, scanFrom, hminus,
        scanFrom_code_word (repr_ne_nil _) (repr_isWord _) hrest]
      rfl

/-! ### Rewriting along the scanner -/

/-- The text with each marker replaced by an argument, found by the scanner. -/
def splice (runs : Bool) : State → GoString → List StmtArg → GoString
  | _, [], _ => []
  | s, b :: text, args =>
    if Marks runs s b then args.head?.elim [] argText ++ splice runs (step runs s b).1 text args.tail
    else b :: splice runs (step runs s b).1 text args

/-- Every marker is read in the code and followed by a separator. -/
def Apart (runs : Bool) (s : State) (text : GoString) : Prop :=
  ∀ before b rest, text = before ++ b :: rest → Marks runs (after runs s before) b →
    (∃ last, after runs s before = .code last) ∧ Parted rest

theorem Apart.tail (h : Apart runs s (b :: text)) :
    Apart runs (step runs s b).1 text :=
  fun before c rest htext hmarks => h (b :: before) c rest (by rw [htext]; rfl) hmarks

theorem splice_parted (h : Parted text) : Parted (splice runs s text args) := by
  cases text with
  | nil => exact nofun
  | cons b text =>
    have hsep := h b rfl
    have hmarks : ¬Marks runs s b := fun hmarks => (separators_spec b hsep).2.2.1 hmarks.cases.1
    rw [splice, if_neg hmarks]
    intro c hc
    cases hc
    exact hsep

/-- The scanner reads the spliced text like the text itself, with the arguments in the place of the markers. -/
theorem scanFrom_splice (hargs : ∀ arg ∈ args, arg.isFloat = false)
    {pos : Nat} (hlength : args.length = (markersFrom runs s pos text).length) (h : Apart runs s text) :
    scanFrom runs s (splice runs s text args) = fill (args.map tokens) (scanFrom runs s text) := by
  induction text generalizing s args pos with
  | nil => exact (fill_finish _ s).symm
  | cons b text ih =>
    rw [splice]
    rw [markersFrom] at hlength
    by_cases hmarks : Marks runs s b
    · obtain ⟨⟨last, hlast⟩, hparted⟩ := h [] b text rfl hmarks
      have hlast : s = .code last := hlast
      obtain rfl := hmarks.cases.1
      have htail := h.tail
      subst hlast
      rw [if_pos hmarks] at hlength ⊢
      cases args with
      | nil => cases hlength
      | cons arg args =>
        have hlength := Nat.succ.inj hlength
        rw [step_marker] at hlength htail ⊢
        show scanFrom runs (.code last) (argText arg ++ splice runs (.code .other) text args) =
          tokens arg ++ fill (args.map tokens) (scanFrom runs (.code .other) text)
        rw [scanFrom_argText (hargs arg mem_cons_self) (splice_parted hparted),
          ih (fun arg harg => hargs arg (mem_cons_of_mem _ harg)) hlength htail]
    · rw [if_neg hmarks] at hlength ⊢
      rw [scanFrom, scanFrom, ih hargs hlength h.tail, fill_append_of_not_mem _ hmarks]

theorem getElem?_of_drop {α : Type} {l rest : List α} {a : α} (h : l.drop i = a :: rest) :
    l[i]? = some a ∧ l.drop (i + 1) = rest := by
  constructor
  · rw [← head?_drop, h, head?_cons]
  · rw [← tail_drop, h, tail_cons]

/-- The loop finds the markers at the recorded offsets.  `before` is what the loop has copied, `middle` what it has
passed since the last marker. -/
theorem rewriteFrom_splice (t : Stmt) {middle : GoString} (hsql : t.sql = before ++ middle ++ text)
    (hargs : t.args.drop i = args)
    (hoffsets : t.offsets.drop i = markersFrom runs s (before.length + middle.length) text)
    (hlength : args.length = (markersFrom runs s (before.length + middle.length) text).length) (builder : GoString) :
    t.rewriteFrom args.length i before.length builder = .ok (builder ++ middle ++ splice runs s text args) := by
  induction text generalizing s before middle i args builder with
  | nil =>
    cases args with
    | cons arg args => cases hlength
    | nil =>
      have hslice : slice t.sql before.length t.sql.length = .ok middle := by
        rw [slice_eq_ok _ _ _ (by rw [hsql]; simp) le_rfl, take_length, hsql]
        simp
      rw [length_nil, rewriteFrom, hslice, splice, append_nil]
      rfl
  | cons b text ih =>
    rw [splice]
    rw [markersFrom] at hlength hoffsets
    by_cases hmarks : Marks runs s b
    · rw [if_pos hmarks] at hlength hoffsets ⊢
      cases args with
      | nil => cases hlength
      | cons arg args =>
        have hlength := Nat.succ.inj hlength
        obtain ⟨harg, hargs⟩ := getElem?_of_drop hargs
        obtain ⟨hpos, hoffsets⟩ := getElem?_of_drop hoffsets
        have hslice : slice t.sql before.length (before.length + middle.length : Nat) = .ok middle := by
          rw [slice_eq_ok _ _ _ (by omega) (by rw [hsql]; simp), hsql, ← length_append, take_left, drop_left]
        have hpos' : before.length + middle.length + 1 = (before ++ middle ++ [b]).length +
            ([] : GoString).length := by
          simp only [length_append, length_cons, length_nil]
        rw [hpos'] at hlength hoffsets
        have hsplit : t.sql = before ++ middle ++ [b] ++ [] ++ text := by
          rw [hsql]
          simp
        have hrest := ih hsplit hargs hoffsets hlength (builder ++ middle ++ argText arg)
        rw [length_cons, rewriteFrom, harg, hpos]
        dsimp only
        rw [hslice]
        refine Eq.trans ?_ (hrest.trans ?_)
        · rw [hpos', length_nil, Nat.add_zero]
          rfl
        · simp
    · rw [if_neg hmarks] at hlength hoffsets ⊢
      have hpos : before.length + middle.length + 1 = before.length + (middle ++ [b]).length := by
        simp only [length_append, length_cons, length_nil, Nat.add_assoc]
      rw [hpos] at hlength hoffsets
      rw [ih (by rw [hsql]; simp) hargs hoffsets hlength]
      simp

/-! ### The rewritten statement -/

theorem after_concat (s : State) (text : GoString) (b : UInt8) :
    after runs s (text ++ [b]) = (step runs (after runs s text) b).1 := foldl_concat ..

theorem step_separator (hb : b ∈ separators) {c : UInt8} (h : Marks runs (step runs s b).1 c) :
    ∃ last, (step runs s b).1 = .code last := by
  obtain ⟨hsingle, hdouble, hmark, hword⟩ := separators_spec b hb
  have hcode : ∀ last, readCode last b = (afterByte last b, [.byte b]) := by
    intro last
    simp [readCode, hsingle, hdouble, hmark, hword]
  have hafter : ∀ last text quote content, afterByte last b ≠ .word text ∧
      afterByte last b ≠ .closed quote content := by
    intro last text quote content
    unfold afterByte
    split_ifs <;> constructor <;> intro h <;> cases h
  have hquote : ∀ quote : Quote, b ≠ quote.byte := by
    intro quote
    cases quote
    · exact hsingle
    · exact hdouble
  have hnext : ∀ text quote content, (step runs s b).1 ≠ .word text ∧ (step runs s b).1 ≠ .closed quote content := by
    intro text quote content
    cases s with
    | code last =>
      simp only [step, hcode]
      exact hafter last text quote content
    | word | closed =>
      simp only [step, hword, hquote, hcode, Bool.false_eq_true, if_false]
      exact hafter .other text quote content
    | literal =>
      simp only [step, hquote, if_false]
      split_ifs <;> constructor <;> intro h <;> cases h
    | escape => constructor <;> intro h <;> cases h
    | identifier | lineComment | opening | comment =>
      simp only [step]
      split_ifs <;> constructor <;> intro h <;> cases h
  rcases h.cases.2 with hlast | ⟨text, htext⟩ | ⟨quote, content, hclosed⟩
  · exact hlast
  · exact absurd htext (hnext text .single []).1
  · exact absurd hclosed (hnext [] quote content).2

theorem mem_markersFrom (hmarks : Marks runs (after runs s before) b)
    (rest : GoString) (pos : Nat) : pos + before.length ∈ markersFrom runs s pos (before ++ b :: rest) := by
  induction before generalizing s pos with
  | nil =>
    have hmarks : Marks runs s b := hmarks
    rw [nil_append, markersFrom, if_pos hmarks]
    exact mem_cons_self
  | cons c before ih =>
    have hmem := ih hmarks (pos + 1)
    rw [cons_append, markersFrom, length_cons, Nat.add_comm before.length 1, ← Nat.add_assoc]
    split
    · exact mem_cons_of_mem _ hmem
    · exact hmem

theorem apart_of_separated {sql : GoString} (h : ∀ i ∈ markers runs sql, Separated sql i) :
    Apart runs (.code .other) sql := by
  rintro before b rest rfl hmarks
  have hmem := mem_markersFrom hmarks rest 0
  rw [Nat.zero_add] at hmem
  obtain ⟨hbefore, hrest⟩ := h before.length hmem
  constructor
  · rcases eq_nil_or_concat before with rfl | ⟨before, c, rfl⟩
    · exact ⟨_, rfl⟩
    · rw [concat_eq_append, after_concat] at hmarks ⊢
      exact step_separator (hbefore (by simp) c (by simp)) hmarks
  · intro c hc
    refine hrest c ?_
    rw [getElem?_append_right (by omega), Nat.add_sub_cancel_left, getElem?_cons_succ, ← head?_eq_getElem?]
    exact hc

/-- A statement with its markers found, and an argument for each of them. -/
structure Bound (e : Encoding) (runs : Bool) (s : Stmt) : Prop where
  offsets : s.offsets = markersIn e runs s.sql
  count : s.paramCount = s.offsets.length
  args : s.args.length = s.paramCount
  separated : ∀ i ∈ s.offsets, Separated s.sql i
  values : ∀ arg ∈ s.args, arg.isFloat = false

/-- The rewritten statement is read like the prepared one, with a literal in the place of each marker that stands for
the argument. -/
def ReadsFilled (e : Encoding) (runs : Bool) (s : Stmt) : Prop :=
  ∃ sql values, s.getRewriteSQL = .ok sql ∧ values.map decode = s.args.map some ∧
    scanIn e runs sql = fill values (scanIn e runs s.sql)

theorem Bound.readsFilled {e : Encoding} {s : Stmt} (he : e.hidesBackslash = false) (h : Bound e runs s) :
    ReadsFilled e runs s := by
  have hoffsets : s.offsets = markers runs s.sql := h.offsets.trans (markersIn_eq he runs s.sql)
  have hlength : s.args.length = (markersFrom runs (.code .other) 0 s.sql).length := by
    rw [h.args, h.count, hoffsets]
    rfl
  refine ⟨splice runs (.code .other) s.sql s.args, s.args.map tokens, ?_, ?_, ?_⟩
  · unfold getRewriteSQL
    rw [← h.args]
    have hempty : s.sql = [] ++ [] ++ s.sql := rfl
    have hdrop : s.offsets.drop 0 = markersFrom runs (.code .other) 0 s.sql := hoffsets
    exact rewriteFrom_splice s hempty rfl hdrop hlength []
  · rw [map_map]
    exact map_congr_left fun arg harg => decode_tokens (h.values arg harg)
  · have hseparated := h.separated
    rw [hoffsets] at hseparated
    rw [scanIn_eq he, scanIn_eq he]
    exact scanFrom_splice h.values hlength (apart_of_separated hseparated)

/-- `select c from t where c = ?` with an argument whose quote stands behind the first byte of a character. -/
def lookup : Stmt where
  sql := ascii "select c from t where c = ?"
  args := [.bytes (224 :: ascii "' or 1=1 -- ")]
  paramCount := 1
  offsets := [26]

def lookupRewritten : GoString := ascii "select c from t where c = '" ++ 224 :: ascii "\\' or 1=1 -- '"

theorem lookup_bound (e : Encoding) (runs : Bool) : Bound e runs lookup := by
  refine ⟨?_, rfl, rfl, by decide +kernel, by decide⟩
  cases e <;> cases runs <;> decide +kernel

theorem lookup_rewritten : lookup.getRewriteSQL = .ok lookupRewritten := by decide +kernel

/-- The literal ends in front of the quote of the argument. -/
theorem lookup_scan {e : Encoding} (he : e ∈ [Encoding.gbk, .gb18030, .big5, .sjis, .cp932]) (runs : Bool) :
    Token.literal [224, 92] ∈ scanIn e runs lookupRewritten ∧
      ∀ token ∈ scanIn e runs lookup.sql, ∀ v, token ≠ .literal v := by
  have hall : ∀ e ∈ [Encoding.gbk, .gb18030, .big5, .sjis, .cp932], ∀ runs,
      Token.literal [224, 92] ∈ scanIn e runs lookupRewritten ∧ (scanIn e runs lookup.sql).all fun
        | .literal _ => false
        | _ => true := by decide +kernel
  refine ⟨(hall e he runs).1, fun token htoken v hv => ?_⟩
  have := all_eq_true.1 (hall e he runs).2 token htoken
  rw [hv] at this
  cases this

theorem eq_literal_of_decode {ts : List Token} {v : GoString} (h : decode ts = some (.bytes v)) :
    ts = [.literal v] := by
  unfold decode at h
  split at h
  · cases h
    rfl
  · split at h
    · cases h
    · split at h <;> cases h
  · split at h <;> cases h
  · cases h

theorem mem_fill {values : List (List Token)} {ts : List Token} {token : Token} (h : token ∈ fill values ts) :
    token ∈ ts ∨ ∃ value ∈ values, token ∈ value := by
  induction ts generalizing values with
  | nil => cases values <;> cases h
  | cons t ts ih =>
    have hkeep : ∀ {values}, token ∈ t :: fill values ts → token ∈ t :: ts ∨ ∃ value ∈ values, token ∈ value := by
      intro values h
      rcases mem_cons.1 h with rfl | h
      · exact .inl mem_cons_self
      · exact (ih h).imp (mem_cons_of_mem t) id
    cases values with
    | nil =>
      rw [fill.eq_def] at h
      cases t <;> exact hkeep h
    | cons value values =>
      cases t with
      | marker =>
        rcases mem_append.1 h with h | h
        · exact .inr ⟨value, mem_cons_self, h⟩
        · rcases ih h with h | ⟨v, hv, h⟩
          · exact .inl (mem_cons_of_mem _ h)
          · exact .inr ⟨v, mem_cons_of_mem _ hv, h⟩
      | _ => exact hkeep h

theorem lookup_not_readsFilled {e : Encoding} (he : e ∈ [Encoding.gbk, .gb18030, .big5, .sjis, .cp932])
    (runs : Bool) : ¬ ReadsFilled e runs lookup := by
  rintro ⟨sql, values, hsql, hdecode, hscan⟩
  obtain rfl := Except.ok.inj (lookup_rewritten.symm.trans hsql)
  obtain ⟨hliteral, hnone⟩ := lookup_scan he runs
  rw [hscan] at hliteral
  rcases mem_fill hliteral with hmem | ⟨value, hvalue, hmem⟩
  · exact hnone _ hmem _ rfl
  · have hbytes : decode value ∈ lookup.args.map some := hdecode ▸ mem_map_of_mem hvalue
    rw [eq_literal_of_decode (mem_singleton.1 hbytes)] at hmem
    exact absurd hmem (by decide)

/-- Every prepared statement is read as filled in, whatever its arguments, exactly in the character sets in which no
character of several bytes has a backslash. -/
theorem getRewriteSQL_scan_iff (e : Encoding) (runs : Bool) :
    (∀ s, Bound e runs s → ReadsFilled e runs s) ↔ e ∉ [Encoding.gbk, .gb18030, .big5, .sjis, .cp932] := by
  constructor
  · exact fun h he => lookup_not_readsFilled he runs (h lookup (lookup_bound e runs))
  · intro he s hs
    rw [← Encoding.hidesBackslash_iff, Bool.not_eq_true] at he
    exact hs.readsFilled he

/-- In GBK the backslash of the escape becomes the second byte of a character: the quote behind it ends the literal,
and the rest of the argument is read as a condition and a comment. -/
theorem argument_leaves_literal : Bound .gbk true lookup ∧ lookup.getRewriteSQL = .ok lookupRewritten ∧
    (scanIn .gbk true lookupRewritten).filter (fun
      | .byte _ => false
      | _ => true) =
      ["select", "c", "from", "t", "where", "c"].map (fun w => Token.word (ascii w)) ++
        [.literal [224, 92], .word (ascii "or"), .word (ascii "1"), .word (ascii "1")] := by
  exact ⟨lookup_bound .gbk true, lookup_rewritten, by decide +kernel⟩

end Stmt

end DbProxy
