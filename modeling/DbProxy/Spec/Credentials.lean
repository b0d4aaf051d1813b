import DbProxy.Router.Value

/-!
# Credentials of a namespace

The user names and the passwords of the users and the slices of a namespace are stored encrypted, block by block, and
as text.  The block cipher and the text encoding are parameters.
-/

namespace DbProxy

open Fallible List

/-- The block cipher of `crypto/aes`, and the two functions of `base64.StdEncoding`, without an error. -/
structure Ciphers where
  encrypt : (key block : GoString) → GoString
  decrypt : (key block : GoString) → GoString
  encodeToString : GoString → GoString
  decodeString : GoString → GoString

/-- `aes.NewCipher` -/
def newCipher (key : GoString) : Except String Unit :=
  if key.length = 16 ∨ key.length = 24 ∨ key.length = 32 then .ok () else .error "invalid key size"

def pkcs5Padding (ciphertext : GoString) (blockSize : Nat) : GoString :=
  let padding := blockSize - ciphertext.length % blockSize
  ciphertext ++ replicate padding (UInt8.ofNat padding)

def pkcs5UnPadding (origData : GoString) : Except String GoString :=
  match origData.getLast? with
  | none => .ok origData
  | some unpadding =>
    if origData.length < unpadding.toNat then .error "pkcs5UnPadding failed, invalid padding length"
    else .ok (origData.take (origData.length - unpadding.toNat))

/-- The loop of `cryptBlocks` with `count` blocks to go.  The places `dst` and `src` lie in one memory: they are one
array, or two that follow one another. -/
def cryptLoop (crypt : GoString → GoString) (mem : GoString) (dst src : Nat) : (count : Nat) → GoString
  | 0 => mem
  | count + 1 =>
    cryptLoop crypt (mem.take dst ++ crypt ((mem.drop src).take 16) ++ mem.drop (dst + 16)) (dst + 16)
      (src + 16) count

/-- `cryptBlocks`, with the lengths of the two slices. -/
def cryptBlocks (crypt : GoString → GoString) (mem : GoString) (dst dstLen src srcLen : Nat) :
    Except String GoString :=
  if srcLen % 16 ≠ 0 then .error "not full blocks"
  else if dstLen < srcLen then .error "output is smaller than input"
  else .ok (cryptLoop crypt mem dst src (srcLen / 16))

structure Credential where
  userName : GoString
  password : GoString
  deriving DecidableEq, Repr

/-- The fields of `models.Namespace` that are encrypted. -/
structure Credentials where
  isEncrypt : Bool
  users : List Credential
  slices : List Credential
  deriving DecidableEq, Repr

namespace Ciphers

variable (c : Ciphers) (key : GoString)

def encryptECB (data : GoString) : Except String GoString := do
  newCipher key
  let dataPadding := pkcs5Padding data 16
  let n := dataPadding.length
  let mem ← cryptBlocks (c.encrypt key) (replicate n 0 ++ dataPadding) 0 n n n
  .ok (mem.take n)

def decryptECB (data : GoString) : Except String GoString := do
  newCipher key
  pkcs5UnPadding (← cryptBlocks (c.decrypt key) data 0 data.length 0 data.length)

/-- `encrypt` of the models. -/
def encryptText (data : GoString) : Except String GoString := do
  return c.encodeToString (← c.encryptECB key data)

def decryptText (data : GoString) : Except String GoString :=
  c.decryptECB key (c.decodeString data)

end Ciphers

def Credential.mapM (crypt : GoString → Except String GoString) (a : Credential) : Except String Credential := do
  let userName ← crypt a.userName
  let password ← crypt a.password
  .ok ⟨userName, password⟩

namespace Credentials

variable (c : Ciphers) (key : GoString)

/-- `Namespace.Encrypt` -/
def encrypt (n : Credentials) : Except String Credentials := do
  let users ← n.users.mapM (Credential.mapM (c.encryptText key))
  let slices ← n.slices.mapM (Credential.mapM (c.encryptText key))
  .ok ⟨true, users, slices⟩

/-- `Namespace.Decrypt` -/
def decrypt (n : Credentials) : Except String Credentials := do
  if !n.isEncrypt then return n
  let users ← n.users.mapM (Credential.mapM (c.decryptText key))
  let slices ← n.slices.mapM (Credential.mapM (c.decryptText key))
  .ok ⟨true, users, slices⟩

end Credentials

/-! ### Blocks -/

def mapBlocks (crypt : GoString → GoString) (data : GoString) : (count : Nat) → GoString
  | 0 => []
  | count + 1 => crypt (data.take 16) ++ mapBlocks crypt (data.drop 16) count

section Blocks

variable {crypt : GoString → GoString} (hcrypt : ∀ block : GoString, block.length = 16 → (crypt block).length = 16)

include hcrypt

theorem length_mapBlocks {count : Nat} : ∀ {data : GoString}, 16 * count ≤ data.length →
    (mapBlocks crypt data count).length = 16 * count := by
  induction count with
  | zero => exact fun _ => rfl
  | succ count ih =>
    intro data h
    rw [mapBlocks, length_append, hcrypt _ (length_take_of_le (by omega)), ih (by rw [length_drop]; omega)]
    omega

/-- No block is written to a place that is still to be read. -/
theorem cryptLoop_eq {count : Nat} : ∀ {mem : GoString} {dst src : Nat}, dst ≤ src → src + 16 * count ≤ mem.length →
    cryptLoop crypt mem dst src count = mem.take dst ++ mapBlocks crypt (mem.drop src) count ++
      mem.drop (dst + 16 * count) := by
  induction count with
  | zero =>
    intro mem dst src _ _
    rw [cryptLoop, mapBlocks, append_nil, Nat.mul_zero, Nat.add_zero, take_append_drop]
  | succ count ih =>
    intro mem dst src hle hlen
    have hblock : (crypt ((mem.drop src).take 16)).length = 16 :=
      hcrypt _ (length_take_of_le (by rw [length_drop]; omega))
    have htake : (mem.take dst).length = dst := length_take_of_le (by omega)
    generalize hb : crypt ((mem.drop src).take 16) = block at hblock
    have hfront : (mem.take dst ++ block).length = dst + 16 := by rw [length_append, htake, hblock]
    have hdrop (k : Nat) : (mem.take dst ++ block ++ mem.drop (dst + 16)).drop (dst + 16 + k) =
        mem.drop (dst + 16 + k) := by
      rw [← hfront, drop_length_add_append, hfront, drop_drop]
    rw [cryptLoop, hb, ih (by omega) (by simp only [length_append, length_drop, htake, hblock]; omega), mapBlocks,
      hb, drop_drop,
      take_left' hfront, hdrop, show src + 16 = dst + 16 + (src - dst) by omega, hdrop, append_assoc (mem.take dst),
      show dst + 16 * (count + 1) = dst + 16 + 16 * count by omega]

theorem cryptBlocks_eq (mem : GoString) {dst src n : Nat} (hn : n % 16 = 0) (hle : dst ≤ src)
    (hlen : src + n ≤ mem.length) :
    cryptBlocks crypt mem dst n src n = .ok (mem.take dst ++ mapBlocks crypt (mem.drop src) (n / 16) ++
      mem.drop (dst + n)) := by
  have hblocks : 16 * (n / 16) = n := by omega
  rw [cryptBlocks, if_neg (not_not.2 hn), if_neg (Nat.lt_irrefl n),
    cryptLoop_eq hcrypt hle (by rwa [hblocks]), hblocks]

theorem mapBlocks_inverse {inverse : GoString → GoString}
    (hinv : ∀ block : GoString, block.length = 16 → inverse (crypt block) = block)
    {count : Nat} : ∀ {data : GoString}, data.length = 16 * count →
    mapBlocks inverse (mapBlocks crypt data count) count = data := by
  induction count with
  | zero => exact fun h => (length_eq_zero_iff.1 h).symm
  | succ count ih =>
    intro data h
    have hblock : (data.take 16).length = 16 := length_take_of_le (by omega)
    rw [mapBlocks, mapBlocks, take_left' (hcrypt _ hblock), drop_left' (hcrypt _ hblock), hinv _ hblock,
      ih (by rw [length_drop]; omega), take_append_drop]

end Blocks

/-! ### Texts -/

theorem length_pkcs5Padding (data : GoString) : (pkcs5Padding data 16).length % 16 = 0 := by
  rw [pkcs5Padding, length_append, length_replicate]
  omega

theorem pkcs5UnPadding_pkcs5Padding (data : GoString) : pkcs5UnPadding (pkcs5Padding data 16) = .ok data := by
  obtain ⟨p, hp⟩ : ∃ p, 16 - data.length % 16 = p + 1 := ⟨15 - data.length % 16, by omega⟩
  have hbyte : (UInt8.ofNat (p + 1)).toNat = p + 1 := Nat.mod_eq_of_lt (by omega)
  have hlast : (data ++ replicate (p + 1) (UInt8.ofNat (p + 1))).getLast? = some (UInt8.ofNat (p + 1)) := by
    rw [getLast?_append, getLast?_replicate]
    rfl
  simp only [pkcs5Padding, hp, pkcs5UnPadding, hlast, hbyte, length_append, length_replicate,
    Nat.add_sub_cancel, take_left]
  exact if_neg (by omega)

/-- The cipher and the text encoding can be undone. -/
structure Ciphers.Lawful (c : Ciphers) (key : GoString) : Prop where
  key_size : newCipher key = .ok ()
  encrypt_length : ∀ block : GoString, block.length = 16 → (c.encrypt key block).length = 16
  decrypt_length : ∀ block : GoString, block.length = 16 → (c.decrypt key block).length = 16
  decrypt_encrypt : ∀ block : GoString, block.length = 16 → c.decrypt key (c.encrypt key block) = block
  decode_encode : ∀ data, c.decodeString (c.encodeToString data) = data

namespace Ciphers.Lawful

variable {c : Ciphers} {key : GoString} (h : c.Lawful key)

include h

theorem decryptText_encryptText (data : GoString) : ∃ text, c.encryptText key data = .ok text ∧
    c.decryptText key text = .ok data := by
  have hpad := length_pkcs5Padding data
  have hunpad := pkcs5UnPadding_pkcs5Padding data
  generalize hpadded : pkcs5Padding data 16 = padded at hpad hunpad
  have hn : padded.length = 16 * (padded.length / 16) := by omega
  have hlen := length_mapBlocks h.encrypt_length (Nat.le_of_eq hn.symm)
  refine ⟨c.encodeToString (mapBlocks (c.encrypt key) padded (padded.length / 16)), ?_, ?_⟩
  · have hblocks := cryptBlocks_eq h.encrypt_length (replicate padded.length 0 ++ padded) hpad
      (Nat.zero_le padded.length) (by rw [length_append, length_replicate])
    rw [take_zero, nil_append, drop_left' length_replicate] at hblocks
    simp only [encryptText, encryptECB, h.key_size, hpadded, hblocks, bind_of_ok rfl]
    rw [take_left' (hlen.trans hn.symm)]
    rfl
  · rw [decryptText, decryptECB, h.key_size, h.decode_encode, bind_of_ok rfl, hlen, ← hn,
      cryptBlocks_eq h.decrypt_length _ hpad le_rfl (by omega), bind_of_ok rfl, take_zero, nil_append, drop_zero,
      mapBlocks_inverse h.encrypt_length h.decrypt_encrypt hn, drop_eq_nil_of_le (by omega), append_nil, hunpad]

theorem exists_mapM (as : List Credential) : ∃ bs, as.mapM (Credential.mapM (c.encryptText key)) = .ok bs ∧
    bs.mapM (Credential.mapM (c.decryptText key)) = .ok as := by
  induction as with
  | nil => exact ⟨[], rfl, rfl⟩
  | cons a as ih =>
    obtain ⟨bs, hbs, has⟩ := ih
    obtain ⟨userName, huser, huser'⟩ := h.decryptText_encryptText a.userName
    obtain ⟨password, hpass, hpass'⟩ := h.decryptText_encryptText a.password
    refine ⟨⟨userName, password⟩ :: bs, ?_, ?_⟩
    · rw [mapM_cons, hbs, Credential.mapM, huser, hpass]
      rfl
    · rw [mapM_cons, has, Credential.mapM, huser', hpass']
      rfl

end Ciphers.Lawful

/-- Whatever was encrypted with a key is restored with this key. -/
theorem Credentials.decrypt_encrypt {c : Ciphers} {key : GoString} (h : c.Lawful key) (n : Credentials) :
    ∃ n', n.encrypt c key = .ok n' ∧ n'.decrypt c key = .ok { n with isEncrypt := true } := by
  obtain ⟨users, husers, husers'⟩ := h.exists_mapM n.users
  obtain ⟨slices, hslices, hslices'⟩ := h.exists_mapM n.slices
  refine ⟨⟨true, users, slices⟩, ?_, ?_⟩
  · rw [encrypt, husers, hslices]
    rfl
  · rw [decrypt, husers', hslices']
    rfl

namespace Ciphers

def ofLetters : GoString → GoString
  | a :: b :: text => ((a - 65) * 16 + (b - 65)) :: ofLetters text
  | _ => []

/-- A cipher that mixes the key into a block, with two letters for each byte. -/
def mixing : Ciphers where
  encrypt key block := zipWith (· ^^^ ·) block key
  decrypt key block := zipWith (· ^^^ ·) block key
  encodeToString data := data.flatMap fun b => [b / 16 + 65, b % 16 + 65]
  decodeString := ofLetters

theorem mixing_lawful {key : GoString} (hkey : key.length = 16) : mixing.Lawful key := by
  have hlength : ∀ block : GoString, block.length = 16 → (zipWith (· ^^^ ·) block key).length = 16 := by
    intro block hblock
    rw [length_zipWith, hblock, hkey, Nat.min_self]
  refine ⟨if_pos (.inl hkey), hlength, hlength, fun block hblock => ?_, fun data => ?_⟩
  · refine ext_getElem ((hlength _ (hlength block hblock)).trans hblock.symm) fun i _ _ => ?_
    simp only [mixing, getElem_zipWith, UInt8.xor_assoc, UInt8.xor_self, UInt8.xor_zero]
  · induction data with
    | nil => rfl
    | cons b data ih =>
      have hb : (b / 16 + 65 - 65) * 16 + (b % 16 + 65 - 65) = b := by
        rw [UInt8.add_sub_cancel, UInt8.add_sub_cancel, UInt8.mul_comm]
        exact UInt8.toNat_inj.1 (by simp [Nat.div_add_mod])
      exact congrArg₂ List.cons hb ih

end Ciphers

theorem Credentials.decrypt_encrypt_plain :
    let n : Credentials := ⟨false, [⟨ascii "user", ascii "password"⟩], [⟨ascii "root", []⟩]⟩
    let key := ascii "1234abcd5678efg*"
    n.encrypt .mixing key ≠ .ok { n with isEncrypt := true } ∧
      ∃ n', n.encrypt .mixing key = .ok n' ∧ n'.decrypt .mixing key = .ok { n with isEncrypt := true } :=
  ⟨by decide +kernel, decrypt_encrypt (Ciphers.mixing_lawful rfl) _⟩

end DbProxy
