import Mathlib.Logic.Function.Basic
import DbProxy.Router.Value

/-!
# Reloading namespaces

`Manager` (`proxy/server/manager.go`) keeps two tables of namespaces, one of them serving.  A new configuration is
prepared in the other table, as a copy of the serving one with one namespace rebuilt, and committed by changing the
roles of the two tables; a namespace is deleted by filling and serving the other table at once.  Which table serves is
`switchIndex` (`util.BoolIndex`), and `reloadPrepared` says that a preparation waits for its commit.  The tables of
users are switched together with those of the namespaces and are left out here.
-/

namespace DbProxy

/-- A namespace object.  `id` tells objects apart that were built from the same configuration. -/
structure Namespace (κ : Type) where
  id : Nat
  name : String
  config : κ
  deriving DecidableEq, Repr

/-- `NamespaceManager`, the map from names to objects. -/
abbrev NamespaceManager (κ : Type) := String → Option (Namespace κ)

/-- `namespaces` are the two slots; the spare one is nil at the start.  `created` counts the namespace objects built
so far, and `closing` lists those that were handed to `go Close(true)`. -/
structure Manager (κ : Type) where
  reloadPrepared : Bool := false
  switchIndex : Bool := false
  namespaces : Bool → Option (NamespaceManager κ)
  created : Nat := 0
  closing : List (Namespace κ) := []

namespace Manager

variable {κ : Type}

/-- A configuration with its name, and whether `NewNamespace` builds an object from it. -/
structure Config (κ : Type) where
  name : String
  config : κ
  valid : Bool := true
  deriving DecidableEq, Repr

/-- The loop of `CreateNamespaceManager`, with the number of objects built. -/
def createNamespaceManager (configs : List (Config κ)) : NamespaceManager κ × Nat :=
  configs.foldl (fun (nsMgr, n) config =>
    if config.valid then (Function.update nsMgr config.name (some ⟨n, config.name, config.config⟩), n + 1)
    else (nsMgr, n))
    (fun _ => none, 0)

def createManager (configs : List (Config κ)) : Manager κ where
  namespaces := fun slot => if slot then none else some (createNamespaceManager configs).1
  created := (createNamespaceManager configs).2

/-- The table that serves. -/
def current (m : Manager κ) : Option (NamespaceManager κ) := m.namespaces m.switchIndex

def setOther (m : Manager κ) (nsMgr : NamespaceManager κ) : Manager κ :=
  { m with namespaces := Function.update m.namespaces (!m.switchIndex) (some nsMgr) }

def nilPointer : Fail := .panic "invalid memory address or nil pointer dereference"

def reloadNamespacePrepare (m : Manager κ) (config : Config κ) : Except Fail Unit × Manager κ :=
  match m.current with
  | none => (.error nilPointer, m)
  | some nsMgr =>
    if config.valid then
      let namespace_ : Namespace κ := ⟨m.created, config.name, config.config⟩
      (.ok (), { m.setOther (Function.update nsMgr config.name (some namespace_)) with
        created := m.created + 1, reloadPrepared := true })
    else (.error (.error "create namespace failed"), m)

/-- The object the name stands for before the switch is closed, whatever the other table holds. -/
def reloadNamespaceCommit (m : Manager κ) (name : String) : Except Fail Unit × Manager κ :=
  if m.reloadPrepared then match m.current with
    | none => (.error nilPointer, { m with reloadPrepared := false })
    | some nsMgr =>
      let m' := { m with
        reloadPrepared := false, switchIndex := !m.switchIndex, closing := m.closing ++ (nsMgr name).toList }
      match m'.current with
      | none => (.error nilPointer, m')
      | some _ => (.ok (), m')
  else (.error (.error "namespace is not prepared"), m)

def deleteNamespace (m : Manager κ) (name : String) : Except Fail Unit × Manager κ :=
  match m.current with
  | none => (.error nilPointer, m)
  | some nsMgr => match nsMgr name with
    | none => (.ok (), m)
    | some namespace_ =>
      (.ok (), { m.setOther (Function.update nsMgr name none) with
        switchIndex := !m.switchIndex, closing := m.closing ++ [namespace_] })

end Manager

inductive ReloadCall (κ : Type) where
  | prepare (config : Manager.Config κ)
  | commit (name : String)
  | delete (name : String)
  deriving DecidableEq, Repr

def ReloadCall.run {κ : Type} (m : Manager κ) : ReloadCall κ → Except Fail Unit × Manager κ
  | prepare config => m.reloadNamespacePrepare config
  | commit name => m.reloadNamespaceCommit name
  | delete name => m.deleteNamespace name

end DbProxy
