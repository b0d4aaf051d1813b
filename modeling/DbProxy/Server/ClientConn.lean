import DbProxy.Backend.Packet
import DbProxy.Mysql.Charset

/-!
# The answer of the client to the handshake

`readHandshakeResponse` (`proxy/server/client_conn.go`) reads the first packet of a client.
-/

namespace DbProxy

/-! ### Decoding -/

def readByte (data : GoString) (pos : Int) : Except Fail (Option (UInt8 × Int)) := do
  if data.length ≤ pos then
    return none
  return some (← byteAt data pos, pos + 1)

def readUint32 (data : GoString) (pos : Int) : Except Fail (Option (Nat × Int)) := do
  if data.length ≤ pos + 3 then
    return none
  return some (← uintAt 4 data pos, pos + 4)

/-- A copy is made of the bytes: a negative size is a panic of `make`. -/
def readBytesCopy (data : GoString) (pos size : Int) : Except Fail (Option (GoString × Int)) := do
  if data.length ≤ toInt64 (pos + size - 1) then
    return none
  if size < 0 then
    throw (.panic "makeslice: len out of range")
  return some (← slice data pos (toInt64 (pos + size)), toInt64 (pos + size))

def readNullString (data : GoString) (pos : Int) : Except Fail (Option (GoString × Int)) := do
  match (← slice data pos data.length).idxOf? 0 with
  | none => return none
  | some stop => return some (← slice data pos (pos + stop), pos + stop + 1)

/-! ### The packet -/

def clientConnectWithDB : Nat := 3
def clientProtocol41 : Nat := 9
def clientInteractive : Nat := 10
def clientPluginAuth : Nat := 19

structure HandshakeResponse where
  interactive : Bool
  collationID : CollationID
  user : GoString
  authResponse : GoString
  database : GoString
  authPluginName : GoString
  deriving DecidableEq, Repr

def cannotRead (what : String) : Fail := .error ("readHandshakeResponse: can't read " ++ what)

/-- A string that is there when the client says so. -/
def readOptionalString (isPresent : Bool) (what : String) (data : GoString)
    (pos : Int) : Except Fail (GoString × Int) := do
  if isPresent then
    let some (s, pos) ← readNullString data pos | throw (cannotRead what)
    return (s, pos)
  else
    return ([], pos)

/-- The length of the authentication data, and the data. -/
def readAuthResponse (data : GoString) (pos : Int) : Except Fail (GoString × Int) := do
  let l ← readLenEncInt data pos
  if l.ok then
    let some authResponse ← readBytesCopy data l.pos (toInt64 l.value) | throw (cannotRead "auth-response")
    return authResponse
  else
    throw (cannotRead "auth-response variable length")

/-- `readHandshakeResponse` from the user name on. -/
def readLogin (capability : Nat) (collationID : UInt8) (data : GoString)
    (pos : Int) : Except Fail HandshakeResponse := do
  let some (user, pos) ← readNullString data pos | throw (cannotRead "username")
  let (authResponse, pos) ← readAuthResponse data pos
  let (database, pos) ← readOptionalString (capability.testBit clientConnectWithDB) "db" data pos
  let (authPluginName, _) ← readOptionalString (capability.testBit clientPluginAuth) "auth plubin name" data pos
  return { interactive := capability.testBit clientInteractive, collationID := collationID.toNat, user,
           authResponse, database, authPluginName }

def readHandshakeResponse (data : GoString) : Except Fail HandshakeResponse := do
  let some (capability, pos) ← readUint32 data 0 | throw (cannotRead "client flags")
  if capability.testBit clientProtocol41 then
    let some (_, pos) ← readUint32 data pos | throw (cannotRead "maxPacketSize")
    let some (collationID, pos) ← readByte data pos | throw (cannotRead "characterSet")
    -- 23 reserved bytes are skipped.
    readLogin capability collationID data (pos + 23)
  else
    throw (.error "readHandshakeResponse: only support protocol 4.1")

end DbProxy
