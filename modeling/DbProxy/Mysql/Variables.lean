import DbProxy.Lib.AssocMap
import DbProxy.Lib.Effect
import DbProxy.Router.Value

/-!
# Session variables

The variables that a session may set, and the set of variables that a backend connection was last told.
-/

namespace DbProxy

/-- `x, err := …`: an error is handed on as a value, a panic passes through. -/
def attemptErr {σ α : Type} (x : Effect Fail σ α) : Effect Fail σ (Except String α) := do
  match ← x.attempt with
  | .ok a => return .ok a
  | .error (.error msg) => return .error msg
  | .error (.panic msg) => throw (.panic msg)

theorem attemptErr_ends {σ α : Type} {x : Effect Fail σ α} {s : σ} {Q : Except String α → σ → Prop}
    {E : Fail → σ → Prop} (h : Effect.Ends (fun a => Q (.ok a)) (fun e s' => match e with
      | .error msg => Q (.error msg) s'
      | .panic msg => E (.panic msg) s') (x s)) : Effect.Ends Q E (attemptErr x s) := by
  unfold attemptErr Effect.attempt
  rw [Effect.bind_apply, Effect.of_apply]
  generalize x s = result at h ⊢
  obtain ⟨result, s'⟩ := result
  cases result with
  | ok a => exact h
  | error e =>
    cases e with
    | error msg => exact h
    | panic msg => exact h

/-- The keys of `variableVerifyFuncMap`. -/
inductive VariableName where
  | sqlMode
  | sqlSafeUpdates
  | timeZone
  deriving DecidableEq, Repr

def VariableName.text : VariableName → String
  | .sqlMode => "sql_mode"
  | .sqlSafeUpdates => "sql_safe_updates"
  | .timeZone => "time_zone"

def VariableName.all : List VariableName := [.sqlMode, .sqlSafeUpdates, .timeZone]

/-! ### Which values a variable takes -/

/-- `strings.Trim(s, "'`\"")` -/
def trimQuotes (s : GoString) : GoString :=
  let quote := fun b : UInt8 => b = 39 || b = 96 || b = 34
  ((s.dropWhile quote).reverse.dropWhile quote).reverse

/-- `strings.ToUpper`, as far as it leads to ASCII: from the small letters there, and from `ſ` and `ı`. -/
def toUpper : GoString → GoString
  | 0xC5 :: 0xBF :: s => 83 :: toUpper s
  | 0xC4 :: 0xB1 :: s => 73 :: toUpper s
  | b :: s => (if 97 ≤ b && b ≤ 122 then b - 32 else b) :: toUpper s
  | [] => []

def sqlModeSet : List String := [
  "ALLOW_INVALID_DATES", "ANSI_QUOTES", "ERROR_FOR_DIVISION_BY_ZERO", "HIGH_NOT_PRECEDENCE", "IGNORE_SPACE",
  "NO_AUTO_CREATE_USER", "NO_AUTO_VALUE_ON_ZERO", "NO_BACKSLASH_ESCAPES", "NO_DIR_IN_CREATE",
  "NO_ENGINE_SUBSTITUTION",
  "NO_FIELD_OPTIONS", "NO_KEY_OPTIONS", "NO_TABLE_OPTIONS", "NO_UNSIGNED_SUBTRACTION", "NO_ZERO_DATE",
  "NO_ZERO_IN_DATE",
  "ONLY_FULL_GROUP_BY", "PAD_CHAR_TO_FULL_LENGTH", "PIPES_AS_CONCAT", "REAL_AS_FLOAT", "STRICT_ALL_TABLES",
  "STRICT_TRANS_TABLES", "ANSI", "DB2", "MAXDB", "MSSQL", "MYSQL323", "MYSQL40", "ORACLE", "POSTGRESQL",
  "TRADITIONAL"]

def verifySQLMode : GoVal → Except Fail Unit
  | .string value =>
    if value.isEmpty then .ok ()
    else if ((toUpper (trimQuotes value)).splitOn 44).all (· ∈ sqlModeSet.map ascii) then .ok ()
    else .error (.error "invalid sql mode")
  | _ => .error (.error "invalid type of sql mode")

def verifyOnOffInteger : GoVal → Except Fail Unit
  | .int64 val => if val ≠ 0 ∧ val ≠ 1 then .error (.error "value is not 0 or 1") else .ok ()
  | _ => .error (.error "value is not int64")

/-- The first character of the hours is read before it is known that there is one. -/
def verifyTimeZone : GoVal → Except Fail Unit
  | .string value => match value.splitOn 58 with
    | [hours, minutes] => do
      let sign ← (match hours with
        | b :: _ => .ok b
        | [] => .error (.panic "index out of range"))
      if sign ≠ 43 ∧ sign ≠ 45 then
        throw (.error "invalid format of time_zone")
      let some hour := atoi hours | throw (.error "invalid hour of time_zone")
      let some minute := atoi minutes | throw (.error "invalid minute of time_zone")
      let directMinute := if hour < 0 then toInt64 (hour * 60 - minute) else toInt64 (hour * 60 + minute)
      if directMinute < -779 ∨ directMinute > 780 then
        throw (.error "exceed limit of time_zone")
    | _ => .error (.error "invalid format of time_zone")
  | _ => .error (.error "invalid type of time_zone")

/-- `variableVerifyFuncMap` -/
def VariableName.verify : VariableName → GoVal → Except Fail Unit
  | .sqlMode => verifySQLMode
  | .sqlSafeUpdates => verifyOnOffInteger
  | .timeZone => verifyTimeZone

/-! ### The variables of a session -/

/-- The variables that are set, and those that were set and have to go back to their defaults. -/
structure SessionVariables where
  vars : AssocMap VariableName GoVal := []
  unused : List VariableName := []
  deriving DecidableEq, Repr

namespace SessionVariables

/-- `Set` and `Variable.Set`: a value is verified before it is stored. -/
def set (name : VariableName) (value : GoVal) : Effect Fail SessionVariables Unit := do
  match name.verify value with
  | .ok _ => modify fun s => { s with vars := s.vars.set name value }
  | .error e => throw e

/-- A variable becomes unused. -/
def retire (s : SessionVariables) (name : VariableName) : SessionVariables where
  vars := s.vars.filter (·.1 ≠ name)
  unused := if name ∈ s.unused then s.unused else s.unused ++ [name]

def setAll : AssocMap VariableName GoVal → Effect Fail SessionVariables Unit
  | [] => return
  | (name, value) :: rest => do
    set name value
    setAll rest

/-- One variable is made equal to that of `dst`; whether it changed.  An error of the check is not looked at. -/
def align (dst : SessionVariables) (name : VariableName) : Effect Fail SessionVariables Bool := do
  let s ← get
  match s.vars.get name, dst.vars.get name with
  | some src, some value =>
    if src ≠ value then
      let _ ← attemptErr (set name value)
      return true
    return false
  | some _, none =>
    modify (retire · name)
    return true
  | none, some value =>
    let _ ← attemptErr (set name value)
    return true
  | none, none => return false

def alignAll (dst : SessionVariables) : List VariableName → Effect Fail SessionVariables Bool
  | [] => return false
  | name :: rest => do
    let changed ← align dst name
    return (← alignAll dst rest) || changed

/-- Whether something changed.  After an error the variables that were set before it are kept. -/
def setEqualsWith (dst : SessionVariables) : Effect Fail SessionVariables Bool := do
  let s ← get
  if s.vars.isEmpty ∧ !dst.vars.isEmpty then
    setAll dst.vars
    return true
  if !s.vars.isEmpty ∧ dst.vars.isEmpty then
    modify fun s => s.vars.keys.foldl retire s
    return true
  alignAll dst VariableName.all

end SessionVariables

end DbProxy
