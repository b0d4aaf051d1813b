import DbProxy.Lib.AssocMap
import DbProxy.Mysql.Charset
import DbProxy.Router.Value

/-!
# Users

`UserManager` (`proxy/server/manager.go`) knows the passwords of each user name, and for each name and password the
namespace they belong to.  The second map is keyed by the name and the password with a colon between them.
`handleHandshakeResponse` (`proxy/server/session.go`) looks a client up in both.
-/

namespace DbProxy

/-- `models.User`, without its permissions. -/
structure User where
  userName : GoString
  password : GoString
  deriving DecidableEq, Repr

/-- What the user manager reads of a `models.Namespace`. -/
structure NamespaceUsers where
  name : String
  users : List User
  deriving DecidableEq, Repr

/-- An order in which a `for range` goes over a map. -/
structure MapRange (α : Type) where
  order : List α → List α
  perm : ∀ entries, (order entries).Perm entries

def MapRange.inOrder (α : Type) : MapRange α := ⟨id, fun _ => List.Perm.refl _⟩

structure UserManager where
  users : AssocMap GoString (List GoString) := []
  userNamespaces : AssocMap GoString String := []
  deriving DecidableEq, Repr

def getUserKey (username password : GoString) : GoString := username ++ 58 :: password

/-- `none` where `strs[1]` is out of range. -/
def getUserAndPasswordFromKey (key : GoString) : Option (GoString × GoString) := match key.splitOn 58 with
  | username :: password :: _ => some (username, password)
  | _ => none

namespace UserManager

def addUser (u : UserManager) (name : String) (user : User) : UserManager where
  userNamespaces := u.userNamespaces.set (getUserKey user.userName user.password) name
  users := u.users.push user.userName user.password

def addNamespaceUsers (u : UserManager) (ns : NamespaceUsers) : UserManager :=
  ns.users.foldl (fun u user => u.addUser ns.name user) u

/-- The namespaces come in the order of the range over `namespaceConfigs`. -/
def createUserManager (namespaceConfigs : List NamespaceUsers) : UserManager :=
  namespaceConfigs.foldl addNamespaceUsers {}

/-- Each of the two loops goes over a map of the old manager and sets the same entries in the new one. -/
def cloneUserManager (rangeKeys : MapRange (GoString × String)) (rangeUsers : MapRange (GoString × List GoString))
    (user : UserManager) : UserManager where
  userNamespaces := (rangeKeys.order user.userNamespaces).foldl (fun m e => m.set e.1 e.2) []
  users := (rangeUsers.order user.users).foldl (fun m e => m.set e.1 e.2) []

/-- The loop of `ClearNamespaceUsers` over the positions `is` of the passwords of a user, with the result `s` so far.
`append(passwords[:i], passwords[i+1:]...)` writes into the array of `passwords`, over which the loop goes on at its
old length; the last entry of the array stays where it is. -/
def removeFrom (password : GoString) (passwords s : List GoString) : List Nat → List GoString
  | [] => s
  | i :: is =>
    if passwords[i]? = some password then
      removeFrom password (passwords.take i ++ passwords.drop (i + 1) ++ passwords.drop (passwords.length - 1))
        (passwords.take i ++ passwords.drop (i + 1)) is
    else removeFrom password passwords s is

def removePassword (passwords : List GoString) (password : GoString) : List GoString :=
  removeFrom password passwords [] (List.range passwords.length)

/-- The body of the loop of `ClearNamespaceUsers`, for a key of the namespace. -/
def clearKey (u : UserManager) (key : GoString) : Option UserManager := do
  let (username, password) ← getUserAndPasswordFromKey key
  return {
    userNamespaces := u.userNamespaces.filter fun e => e.1 ≠ key
    users := u.users.set username (removePassword (u.users.getD username) password) }

def clearKeys (name : String) (u : UserManager) : List (GoString × String) → Option UserManager
  | [] => some u
  | (key, ns) :: rest =>
    if ns = name then do clearKeys name (← u.clearKey key) rest else clearKeys name u rest

/-- An entry is deleted when the loop has reached it, so the loop goes over the entries of its start. -/
def clearNamespaceUsers (range : MapRange (GoString × String)) (u : UserManager) (name : String) :
    Option UserManager :=
  u.clearKeys name (range.order u.userNamespaces)

def rebuildNamespaceUsers (range : MapRange (GoString × String)) (u : UserManager) (ns : NamespaceUsers) :
    Option UserManager := do
  return (← u.clearNamespaceUsers range ns.name).addNamespaceUsers ns

def checkUser (u : UserManager) (user : GoString) : Bool := (u.users.get user).isSome

/-- `calcPassword` is `mysql.CalcPassword`, which scrambles a password with the salt. -/
def checkPassword (calcPassword : GoString → GoString → GoString) (u : UserManager) (user salt auth : GoString) :
    Option GoString :=
  (u.users.getD user).find? fun password => auth = calcPassword salt password

def getNamespaceByUser (u : UserManager) (userName password : GoString) : String :=
  (u.userNamespaces.get (getUserKey userName password)).getD ""

end UserManager

/-- `CalcPassword` of `mysql/util.go`. -/
def calcPassword (sha1 : GoString → GoString) (scramble password : GoString) : GoString :=
  if password.isEmpty then []
  else
    let stage1 := sha1 password
    List.zipWith (· ^^^ ·) (sha1 (scramble ++ sha1 stage1)) stage1

structure HandshakeResponseInfo where
  user : GoString
  salt : GoString
  authResponse : GoString
  collationID : CollationID
  database : String
  deriving DecidableEq, Repr

/-- What the handshake sets in the session. -/
structure Handshake where
  user : GoString
  collation : CollationID
  charset : String
  db : String
  namespaceName : String
  deriving DecidableEq, Repr

def handleHandshakeResponse (calcPassword : GoString → GoString → GoString) (u : UserManager)
    (info : HandshakeResponseInfo) : Except Fail Handshake :=
  if !u.checkUser info.user then .error (.error "Access denied")
  else match u.checkPassword calcPassword info.user info.salt info.authResponse with
    | none => .error (.error "Access denied")
    | some password => match collations info.collationID with
      | none => .error (.error "invalid collation")
      | some collationName => match collationNameToCharset collationName with
        | none => .error (.error "invalid collation")
        | some charset => .ok {
            user := info.user
            collation := info.collationID
            charset
            db := info.database
            namespaceName := u.getNamespaceByUser info.user password }

end DbProxy
