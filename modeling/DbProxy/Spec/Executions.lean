import DbProxy.Server.Prepared

/-!
# Executions of a prepared statement

What an execute may depend on besides its own packet is followed along the commands (`Pending`): the types that were
bound last, and the long data that came after the last execute or reset.  The statement agrees with it as long as no
execute leaves arguments behind; one that fails in the middle of its values does, and its arguments take the place of
later ones.
-/

namespace DbProxy

open Effect PreparedStmt List

inductive StmtCommand where
  | execute (data : GoString)
  | sendLongData (data : GoString)
  | reset (data : GoString)
  deriving DecidableEq, Repr

/-- The types that were bound last, and for each parameter the long data since the last execute or reset. -/
structure Pending where
  types : GoString
  long : List (Option GoString)
  deriving DecidableEq, Repr

namespace Pending

/-- The packet is long enough for its kind and is about another statement. -/
def Elsewhere (s : PreparedStmt) (length : Nat) (data : GoString) : Prop :=
  length ≤ data.length ∧ littleEndian (data.take 4) ≠ s.id

instance (s : PreparedStmt) (length : Nat) (data : GoString) : Decidable (Elsewhere s length data) :=
  inferInstanceAs (Decidable (_ ∧ _))

def packetTypes (s : PreparedStmt) (data : GoString) : Option GoString :=
  if data.length < 9 ∨ (data.getD 4 0).toNat.testBit 0 ∨ s.paramCount = 0 then none
  else match executeParts s.paramCount data with
    | .error _ => none
    | .ok parts => parts.paramTypes

def cleared (s : PreparedStmt) : List (Option GoString) := replicate s.paramCount none

/-- Every execute and every reset ends the long data sent so far. -/
def step (s : PreparedStmt) (p : Pending) : StmtCommand → Pending
  | .execute data =>
    if Elsewhere s 9 data then p else ⟨(packetTypes s data).getD p.types, cleared s⟩
  | .sendLongData data =>
    let paramID := littleEndian ((data.drop 4).take 2)
    if data.length < 6 ∨ Elsewhere s 6 data ∨ s.paramCount % 65536 ≤ paramID then p
    else { p with long := p.long.set paramID (some ((p.long[paramID]?.join).getD [] ++ data.drop 6)) }
  | .reset data => if data.length < 4 ∨ Elsewhere s 4 data then p else { p with long := cleared s }

def after (s : PreparedStmt) (commands : List StmtCommand) : Pending :=
  commands.foldl (step s) ⟨s.paramTypes, cleared s⟩

def toArg : Option GoString → StmtArg
  | none => .nil
  | some b => .bytes b

def stmt (s : PreparedStmt) (p : Pending) : PreparedStmt := { s with args := p.long.map toArg, paramTypes := p.types }

end Pending

namespace StmtCommand

variable (go : FloatText)

def run (s : PreparedStmt) : StmtCommand → PreparedStmt
  | .execute data => (s.handleStmtExecute go data).2
  | .sendLongData data => (s.handleStmtSendLongData data).2
  | .reset data => (s.handleStmtReset data).2

def runAll (s : PreparedStmt) (commands : List StmtCommand) : PreparedStmt := commands.foldl (run go) s

end StmtCommand

section Steps

variable {go : FloatText} {s : PreparedStmt} {data : GoString}

theorem liftExcept_length {α : Type} (x : Except Fail α) (m : Nat) :
    Triple (fun args => args.length = m) (liftExcept x : Effect Fail (List StmtArg) α) (fun _ args => args.length = m)
      fun _ args => args.length = m := by
  intro args h
  cases x <;> exact h

theorem set_length (i : Nat) (arg : StmtArg) (m : Nat) :
    Triple (fun args => args.length = m) (modify fun args => args.set i arg : Effect Fail (List StmtArg) Unit)
      (fun _ args => args.length = m) fun _ args => args.length = m :=
  Triple.modify fun args h => by rw [length_set, h]

theorem bindFrom_length (go : FloatText) (nullBitmap paramTypes paramValues : GoString) (m : Nat) : ∀ n i pos,
    Triple (fun args => args.length = m) (bindFrom go nullBitmap paramTypes paramValues n i pos)
      (fun _ args => args.length = m) fun _ args => args.length = m := by
  intro n
  induction n with
  | zero => exact fun i pos args h => h
  | succ n ih =>
    intro i pos
    unfold bindFrom
    refine (liftExcept_length _ m).bind fun bits => ?_
    split
    · exact (set_length i .nil m).bind fun _ => ih (i + 1) pos
    · split
      · exact fun args h => h
      · refine (liftExcept_length _ m).bind fun tp => (liftExcept_length _ m).bind fun flags => ?_
        refine (Triple.get (Q := fun _ (args : List StmtArg) => args.length = m) fun _ h => h).bind fun args => ?_
        split
        · refine (liftExcept_length _ m).bind fun read => ?_
          exact (set_length i read.1 m).bind fun _ => ih (i + 1) read.2
        · exact ih (i + 1) pos

theorem length_bindStmtArgs (go : FloatText) (s : PreparedStmt) (nullBitmap paramTypes paramValues : GoString) :
    (s.bindStmtArgs go nullBitmap paramTypes paramValues).2.length = s.args.length := by
  have hends := bindFrom_length go nullBitmap paramTypes paramValues s.args.length s.paramCount 0 0 s.args rfl
  unfold bindStmtArgs
  generalize bindFrom go nullBitmap paramTypes paramValues s.paramCount 0 0 s.args = r at hends ⊢
  obtain ⟨r, args⟩ := r
  cases r <;> exact hends

theorem handleStmtExecute_spec (go : FloatText) (hhere : ¬Pending.Elsewhere s 9 data)
    (hargs : s.args.length = s.paramCount) : ∃ args, (s.handleStmtExecute go data).2 =
        { s with args, paramTypes := (Pending.packetTypes s data).getD s.paramTypes } ∧
        args.length = s.paramCount := by
  unfold handleStmtExecute Pending.packetTypes
  by_cases hshort : data.length < 9
  · rw [if_pos hshort, if_pos (.inl hshort)]
    exact ⟨s.args, rfl, hargs⟩
  have hid : ¬littleEndian (data.take 4) ≠ s.id := fun hne => hhere ⟨Nat.not_lt.1 hshort, hne⟩
  rw [if_neg hshort, if_neg hid]
  by_cases hflag : (data.getD 4 0).toNat.testBit 0 = true
  · rw [if_pos hflag, if_pos (.inr (.inl hflag))]
    exact ⟨s.args, rfl, hargs⟩
  rw [if_neg hflag]
  by_cases hcount : s.paramCount = 0
  · rw [if_pos hcount, if_pos (.inr (.inr hcount))]
    exact ⟨_, rfl, length_replicate⟩
  rw [if_neg hcount, if_neg (not_or.2 ⟨hshort, not_or.2 ⟨hflag, hcount⟩⟩)]
  cases executeParts s.paramCount data with
  | error e => exact ⟨s.args, rfl, hargs⟩
  | ok parts =>
    dsimp only
    have hlength := length_bindStmtArgs go { s with paramTypes := parts.paramTypes.getD s.paramTypes }
      parts.nullBitmaps (parts.paramTypes.getD s.paramTypes) parts.paramValues
    split
    · next hbind => exact ⟨_, rfl, by rw [hbind] at hlength; exact hlength.trans hargs⟩
    · next hbind =>
      split
      · exact ⟨_, rfl, by rw [hbind] at hlength; exact hlength.trans hargs⟩
      · exact ⟨_, rfl, length_replicate⟩

theorem handleStmtExecute_elsewhere (h : Pending.Elsewhere s 9 data) :
    s.handleStmtExecute go data = (.error (unknownHandler "stmt_execute"), s) := by
  unfold handleStmtExecute
  rw [if_neg (Nat.not_lt.2 h.1), if_pos h.2]

theorem handleStmtSendLongData_elsewhere (h : Pending.Elsewhere s 6 data) :
    (s.handleStmtSendLongData data).2 = s := by
  unfold handleStmtSendLongData
  rw [if_neg (Nat.not_lt.2 h.1), if_pos h.2]

theorem handleStmtReset_eq (s : PreparedStmt) (data : GoString) : (s.handleStmtReset data).2 =
    if data.length < 4 ∨ Pending.Elsewhere s 4 data then s else s.resetParams := by
  unfold handleStmtReset Pending.Elsewhere
  by_cases hshort : data.length < 4
  · simp [hshort]
  · by_cases hid : littleEndian (data.take 4) = s.id
    · simp [hshort, hid]
    · simp [hshort, hid, Nat.not_lt.1 hshort]

theorem handleStmtSendLongData_pending {p : Pending} (data : GoString) (hlong : p.long.length = s.paramCount) :
    ((p.stmt s).handleStmtSendLongData data).2 = (Pending.step s p (.sendLongData data)).stmt s := by
  unfold handleStmtSendLongData Pending.step
  by_cases hshort : data.length < 6
  · rw [if_pos hshort]
    simp [hshort]
  by_cases hid : littleEndian (data.take 4) = s.id
  · rw [if_neg hshort, if_neg (show ¬littleEndian (data.take 4) ≠ (p.stmt s).id from fun h => h hid)]
    have helse : ¬Pending.Elsewhere s 6 data := fun h => h.2 hid
    by_cases hbig : s.paramCount % 65536 ≤ littleEndian ((data.drop 4).take 2)
    · dsimp only
      rw [if_pos (show (p.stmt s).paramCount % 65536 ≤ _ from hbig), if_pos (.inr (.inr hbig))]
    · have hlt : littleEndian ((data.drop 4).take 2) < p.long.length := by
        have := Nat.mod_le s.paramCount 65536
        omega
      dsimp only
      rw [if_neg (show ¬(p.stmt s).paramCount % 65536 ≤ _ from hbig), if_neg (by simp [hshort, helse, hbig])]
      have hget : (p.stmt s).args[littleEndian ((data.drop 4).take 2)]? =
          some (Pending.toArg p.long[littleEndian ((data.drop 4).take 2)]) := by
        show (p.long.map Pending.toArg)[_]? = _
        rw [getElem?_map, getElem?_eq_getElem hlt, Option.map_some]
      rw [hget, getElem?_eq_getElem hlt]
      cases p.long[littleEndian ((data.drop 4).take 2)] with
      | none => simp [Pending.stmt, Pending.toArg, map_set]
      | some b => simp [Pending.stmt, Pending.toArg, map_set]
  · have helse : Pending.Elsewhere s 6 data := ⟨Nat.not_lt.1 hshort, hid⟩
    rw [if_neg hshort, if_pos (show littleEndian (data.take 4) ≠ (p.stmt s).id from hid)]
    simp [helse]

end Steps

/-! ### Sequences of commands -/

section Runs

variable (go : FloatText) (s : PreparedStmt)

/-- Whether an execute has left arguments behind that no reset has cleared yet. -/
def StmtCommand.leaves (dirty : Bool) (t : PreparedStmt) : StmtCommand → Bool
  | .execute data => if Pending.Elsewhere t 9 data then dirty else (t.handleStmtExecute go data).2.args.any (· ≠ .nil)
  | .sendLongData _ => dirty
  | .reset data => if data.length < 4 ∨ Pending.Elsewhere t 4 data then dirty else false

/-- The packet of an execute or of long data is about another statement. -/
def StmtCommand.Elsewhere (t : PreparedStmt) : StmtCommand → Prop
  | .execute data => Pending.Elsewhere t 9 data
  | .sendLongData data => Pending.Elsewhere t 6 data
  | .reset _ => False

/-- Behind an execute that leaves arguments there comes a reset before anything else on the statement. -/
def Orderly (dirty : Bool) (t : PreparedStmt) : List StmtCommand → Prop
  | [] => True
  | c :: cs => (dirty = true → c.Elsewhere t ∨ ∃ data, c = .reset data) ∧
      Orderly (c.leaves go dirty t) (c.run go t) cs

/-- The statement `t` is `s` with what is pending, or with the arguments an execute left. -/
structure Follows (dirty : Bool) (p : Pending) (t : PreparedStmt) : Prop where
  length : p.long.length = s.paramCount
  types : ∃ args, t = { s with args, paramTypes := p.types }
  clean : dirty = false → t = p.stmt s
  dirty : dirty = true → p.long = Pending.cleared s

variable {go s} {dirty : Bool} {p : Pending} {t : PreparedStmt}

theorem stmt_cleared (types : GoString) :
    Pending.stmt s ⟨types, Pending.cleared s⟩ =
      { s with args := replicate s.paramCount .nil, paramTypes := types } := by
  simp [Pending.stmt, Pending.cleared, Pending.toArg]

section

variable (h : Follows s dirty p t)

include h

theorem Follows.elsewhere_iff (length : Nat) (data : GoString) :
    Pending.Elsewhere t length data ↔ Pending.Elsewhere s length data := by
  obtain ⟨args, rfl⟩ := h.types
  rfl

theorem Follows.execute (hdirty : dirty = false) (data : GoString) :
    Follows s (StmtCommand.leaves go dirty t (.execute data)) (p.step s (.execute data))
      (StmtCommand.run go t (.execute data)) := by
  obtain rfl := h.clean hdirty
  by_cases helse : Pending.Elsewhere s 9 data
  · have helse' : Pending.Elsewhere (p.stmt s) 9 data := helse
    simp only [StmtCommand.leaves, StmtCommand.run, Pending.step, if_pos helse, if_pos helse',
      handleStmtExecute_elsewhere helse']
    exact h
  · have helse' : ¬Pending.Elsewhere (p.stmt s) 9 data := helse
    have hlength : (p.stmt s).args.length = s.paramCount := by
      show (p.long.map Pending.toArg).length = s.paramCount
      rw [length_map, h.length]
    obtain ⟨args, hleft, hargs⟩ := handleStmtExecute_spec go helse' hlength
    simp only [StmtCommand.leaves, StmtCommand.run, Pending.step, if_neg helse, if_neg helse', hleft]
    refine ⟨length_replicate, ⟨args, rfl⟩, fun hclean => ?_, fun _ => rfl⟩
    have hnil : args = replicate s.paramCount .nil := by
      refine eq_replicate_iff.2 ⟨hargs, fun arg harg => ?_⟩
      have hany := any_eq_false.1 hclean arg harg
      simpa using hany
    rw [stmt_cleared, hnil]
    rfl

theorem Follows.reset (data : GoString) :
    Follows s (StmtCommand.leaves go dirty t (.reset data)) (p.step s (.reset data))
      (StmtCommand.run go t (.reset data)) := by
  have helse := h.elsewhere_iff 4 data
  simp only [StmtCommand.leaves, StmtCommand.run, Pending.step, handleStmtReset_eq, helse]
  split
  · exact h
  · obtain ⟨args, rfl⟩ := h.types
    refine ⟨length_replicate, ⟨_, rfl⟩, fun _ => ?_, fun _ => rfl⟩
    rw [stmt_cleared]
    rfl

theorem Follows.elsewhere {c : StmtCommand} (hc : c.Elsewhere t) :
    Follows s (c.leaves go dirty t) (p.step s c) (c.run go t) := by
  cases c with
  | execute data =>
    have helse : Pending.Elsewhere t 9 data := hc
    simp only [StmtCommand.leaves, StmtCommand.run, Pending.step, if_pos helse,
      if_pos ((h.elsewhere_iff 9 data).1 hc), handleStmtExecute_elsewhere helse]
    exact h
  | sendLongData data =>
    simp only [StmtCommand.leaves, StmtCommand.run, Pending.step, handleStmtSendLongData_elsewhere hc,
      (h.elsewhere_iff 6 data).1 hc, true_or, or_true, if_true]
    exact h
  | reset data => exact hc.elim

theorem Follows.step {c : StmtCommand} (hc : dirty = true → c.Elsewhere t ∨ ∃ data, c = .reset data) :
    Follows s (c.leaves go dirty t) (p.step s c) (c.run go t) := by
  by_cases helse : c.Elsewhere t
  · exact h.elsewhere helse
  cases c with
  | reset data => exact h.reset data
  | execute data =>
    have hdirty : dirty = false := by
      by_contra hne
      obtain ⟨_, hreset⟩ := (hc (Bool.not_eq_false _ ▸ hne)).resolve_left helse
      cases hreset
    exact h.execute hdirty data
  | sendLongData data =>
    have hdirty : dirty = false := by
      by_contra hne
      obtain ⟨_, hreset⟩ := (hc (Bool.not_eq_false _ ▸ hne)).resolve_left helse
      cases hreset
    obtain rfl := h.clean hdirty
    have hlong := handleStmtSendLongData_pending data h.length
    simp only [StmtCommand.leaves, StmtCommand.run, hlong]
    refine ⟨?_, ⟨_, rfl⟩, fun _ => rfl, fun htrue => by rw [hdirty] at htrue; cases htrue⟩
    simp only [Pending.step]
    split
    · exact h.length
    · rw [length_set, h.length]

end

/-- What an execute makes of its packet is what it would make with just the types and long data that are pending. -/
theorem execute_of_follows (commands : List StmtCommand) : ∀ {dirty : Bool} {p : Pending} {t : PreparedStmt},
    Follows s dirty p t → Orderly go dirty t commands → ∀ k data, commands[k]? = some (.execute data) →
      ((StmtCommand.runAll go t (commands.take k)).handleStmtExecute go data).1 =
        ((Pending.stmt s ((commands.take k).foldl (Pending.step s) p)).handleStmtExecute go data).1 := by
  induction commands with
  | nil =>
    intro dirty p t _ _ k data hk
    cases hk
  | cons c commands ih =>
    rintro dirty p t h ⟨hc, horderly⟩ k data hk
    cases k with
    | zero =>
      cases hk
      by_cases helse : Pending.Elsewhere t 9 data
      · have helse' : Pending.Elsewhere (p.stmt s) 9 data := (h.elsewhere_iff 9 data).1 helse
        show (t.handleStmtExecute go data).1 = ((p.stmt s).handleStmtExecute go data).1
        rw [handleStmtExecute_elsewhere helse, handleStmtExecute_elsewhere helse']
      have hdirty : dirty = false := by
        by_contra hne
        obtain ⟨_, hreset⟩ := (hc (Bool.not_eq_false _ ▸ hne)).resolve_left helse
        cases hreset
      rw [h.clean hdirty]
      rfl
    | succ k => exact ih (h.step hc) horderly k data hk

end Runs

/-- The query of an execute depends on its own packet, the types bound last and the long data since the last execute
or reset: as long as an execute that leaves arguments behind is followed by a reset. -/
theorem executes_independent (go : FloatText) (s : PreparedStmt) (hfresh : s.args = replicate s.paramCount .nil)
    (commands : List StmtCommand) (horderly : Orderly go false s commands) (k : Nat) (data : GoString)
    (hk : commands[k]? = some (.execute data)) :
    ((StmtCommand.runAll go s (commands.take k)).handleStmtExecute go data).1 =
      ((Pending.stmt s (Pending.after s (commands.take k))).handleStmtExecute go data).1 := by
  have hfollows : Follows s false ⟨s.paramTypes, Pending.cleared s⟩ s := by
    refine ⟨length_replicate, ⟨s.args, rfl⟩, fun _ => ?_, fun h => by cases h⟩
    rw [stmt_cleared, ← hfresh]
  exact execute_of_follows commands hfollows horderly k data hk

/-- `select ?,?`, and an execute of it with two one-byte integers. -/
def twoParams : PreparedStmt :=
  { sql := ascii "select ?,?", args := [.nil, .nil], paramCount := 2, offsets := [7, 9], id := 1 }

def executeTiny (values : GoString) : GoString := [1, 0, 0, 0, 0, 1, 0, 0, 0, 0, 1, 1, 0, 1, 0] ++ values

def noFloats : FloatText := ⟨fun _ => [], fun _ => []⟩

/-- Long data for the second parameter, used by the first execute and not by the second. -/
theorem executes_independent_long_data :
    ((StmtCommand.runAll noFloats twoParams [.sendLongData [1, 0, 0, 0, 1, 0, 120],
      .execute (executeTiny [5])]).handleStmtExecute noFloats (executeTiny [7, 8])).1 = .ok (ascii "select 7,8") := by
  refine (executes_independent noFloats twoParams rfl
    [.sendLongData [1, 0, 0, 0, 1, 0, 120], .execute (executeTiny [5]), .execute (executeTiny [7, 8])]
    ⟨nofun, nofun, fun h => absurd h (by decide +kernel), trivial⟩ 2 (executeTiny [7, 8]) rfl).trans ?_
  decide +kernel

/-- An execute whose second value is missing leaves the first one, which the next execute then takes for its own. -/
theorem failed_execute_leaves_argument :
    ((twoParams.handleStmtExecute noFloats (executeTiny [5])).1.isOk = false ∧
    ((StmtCommand.runAll noFloats twoParams [.execute (executeTiny [5])]).handleStmtExecute noFloats
      (executeTiny [7, 8])).1 = .ok (ascii "select 5,7") ∧
    ((Pending.stmt twoParams (Pending.after twoParams [.execute (executeTiny [5])])).handleStmtExecute noFloats
      (executeTiny [7, 8])).1 = .ok (ascii "select 7,8")) := by
  decide +kernel

end DbProxy
