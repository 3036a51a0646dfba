import JamScript.Auth.Envelopes
import JamScript.Auth.Base64
import JamScript.Guest.Nonces

/-!
# The encodings of the TypeScript client

`packages/client/src/crypto.ts`: how the client writes ownership values, envelopes, digests,
messages and state keys. A `Uint8Array` is a byte string, a `number` that is written as bytes a
natural number and a `bigint` an integer; `DataView` writes integers modulo their width. A function
that throws returns an error with the text of the exception.
-/

namespace JamScript.Client

open Codec

/-! ## Bytes -/

def concat (parts : List Bytes) : Bytes := parts.flatten

def u32 (value : ℕ) : Bytes := toLe 4 value

/-- Two bytes, lowest first. -/
def u16 (value : ℕ) : Bytes := [UInt8.ofNat (value &&& 0xff), UInt8.ofNat ((value >>> 8) &&& 0xff)]

/-- A negative number is written in two's complement. -/
def u64 (value : ℤ) : Bytes := toLe 8 (value % 2 ^ 64).toNat

def byte (value : ℕ) : Bytes := [UInt8.ofNat value]

/-! ## Ownership values -/

/-- An account, as the client holds it. -/
structure Ownership where
  version : ℕ
  kind : OwnershipKind
  publicValue : Bytes

def ownershipPublicLength (kind : OwnershipKind) : ℕ :=
  if kind = .secp256k1Key then 33 else if kind = .secp256k1Keccak20 then 20 else 32

def encodeOwnership (ownership : Ownership) : Except String Bytes := do
  ensure (ownership.version = 1 ∧
    ownership.publicValue.length = ownershipPublicLength ownership.kind)
    "invalid Ownership public value"
  ensure (¬ (ownership.kind = .secp256k1Key ∧ ownership.publicValue[0]? ≠ some 2 ∧
    ownership.publicValue[0]? ≠ some 3)) "invalid compressed secp256k1 public key"
  ensure (ownership.publicValue.length ≤ 0xffff ∧
    ownership.publicValue.length + 4 ≤ maxOwnershipBytes) "Ownership is too large"
  pure (concat [byte 1, byte ownership.kind.toU8.toNat,
    [UInt8.ofNat (ownership.publicValue.length &&& 0xff),
      UInt8.ofNat (ownership.publicValue.length >>> 8)],
    ownership.publicValue])

def decodeOwnership (bytes : Bytes) : Except String Ownership := do
  ensure (¬ (bytes.length < 4 ∨ maxOwnershipBytes < bytes.length ∨ bytes[0]? ≠ some 1))
    "invalid Ownership encoding"
  let kind ← (OwnershipKind.tryFrom (bytes.getD 1 0)).mapError fun _ => "unsupported Ownership kind"
  let length := (bytes.getD 2 0).toNat ||| (bytes.getD 3 0).toNat <<< 8
  ensure (length = ownershipPublicLength kind ∧ bytes.length = 4 + length)
    "invalid Ownership length"
  ensure (¬ (kind = .secp256k1Key ∧ bytes[4]? ≠ some 2 ∧ bytes[4]? ≠ some 3))
    "invalid compressed secp256k1 public key"
  pure ⟨1, kind, bytes.drop 4⟩

def ownershipKey (blake2AsU8a : Bytes → FixedBytes 32) (ownership : Ownership) :
    Except String Bytes := do
  let encoded ← encodeOwnership ownership
  pure (blake2AsU8a (concat [ascii "OWNERSHIP_ABSTRACTION_KEY_V1", encoded])).toList

def ownershipNonceKey (blake2AsU8a : Bytes → FixedBytes 32) (ownership : Ownership) :
    Except String Bytes := do
  let key ← ownershipKey blake2AsU8a ownership
  pure (concat [byte 0x00, byte 0x01, ascii "__jamscript/runtime/ownership/nonces/", key])

def nonceKey (publicKey : Bytes) : Except String Bytes := do
  ensure (publicKey.length = 32) "wallet account must be 32 bytes"
  pure (concat [byte 0x00, byte 0x01, publicKey])

/-! ## Version 1 -/

/-- The type of the client fixes the version and the signer scheme. -/
structure SignedActionV1 where
  version : ℕ
  networkDomain : Bytes
  serviceKey : Bytes
  actionSelector : Bytes
  signerScheme : ℕ
  publicKey : Bytes
  nonce : ℤ
  validUntil : ℤ
  payloadHash : Bytes
  signature : Bytes
  payload : Bytes
  version_eq : version = 1
  signerScheme_eq : signerScheme = 0

def maxActionPayloadBytes : ℕ := 1048576

def signingDigestV1 (blake2AsU8a : Bytes → FixedBytes 32) (action : SignedActionV1) :
    Except String Bytes := do
  ensure (action.networkDomain.length = 32 ∧ action.serviceKey.length = 32 ∧
    action.actionSelector.length = 8) "invalid SignedActionV1 fixed-width field"
  pure (blake2AsU8a (concat [ascii "JAMSCRIPT_ACTION_V1", byte action.version, action.networkDomain,
    action.serviceKey, action.actionSelector, byte action.signerScheme, u64 action.nonce,
    u64 action.validUntil, action.payloadHash])).toList

def encodeSignedActionV1 (action : SignedActionV1) : Except String Bytes := do
  ensure (action.networkDomain.length = 32 ∧ action.serviceKey.length = 32 ∧
    action.actionSelector.length = 8) "invalid SignedActionV1 fixed-width field"
  ensure (action.publicKey.length ≤ 32 ∧ action.signature.length ≤ 64)
    "SignedActionV1 variable-width field is too large"
  ensure (action.payload.length ≤ maxActionPayloadBytes) "SignedActionV1 payload is too large"
  pure (concat [byte action.version, action.networkDomain, action.serviceKey, action.actionSelector,
    byte action.signerScheme, byte action.publicKey.length, action.publicKey, u64 action.nonce,
    u64 action.validUntil, action.payloadHash, byte action.signature.length, action.signature,
    u32 action.payload.length, action.payload])

/-! ## Version 2 -/

structure SignedActionV2 where
  version : ℕ
  networkDomain : Bytes
  serviceKey : Bytes
  actionSelector : Bytes
  controller : Ownership
  actAs : Option Ownership
  nonce : ℤ
  validUntil : ℤ
  payloadHash : Bytes
  authorizationProof : Bytes
  payload : Bytes

/-- An ownership value that may be `null`. -/
def encodeOptional : Option Ownership → Except String (Option Bytes)
  | none => pure none
  | some ownership => do
    let encoded ← encodeOwnership ownership
    pure (some encoded)

def actionCommitmentV2 (blake2AsU8a : Bytes → FixedBytes 32) (action : SignedActionV2) :
    Except String Bytes := do
  ensure (action.networkDomain.length = 32 ∧ action.serviceKey.length = 32 ∧
    action.actionSelector.length = 8) "invalid SignedActionV2 fixed-width field"
  let controller ← encodeOwnership action.controller
  let actAs ← encodeOptional action.actAs
  pure (blake2AsU8a (concat ([ascii "JAMSCRIPT_ACTION_V2", action.networkDomain, action.serviceKey,
    action.actionSelector, controller, byte (if action.actAs.isNone then 0 else 1)] ++
    actAs.toList ++
    [u64 action.nonce, u64 action.validUntil, action.payloadHash]))).toList

/-- Four characters for up to three bytes; a byte that is missing counts as zero. -/
def base64Block (a : ℕ) (next afterNext : Option ℕ) : List Char :=
  let alphabet := "ABCDEFGHIJKLMNOPQRSTUVWXYZabcdefghijklmnopqrstuvwxyz0123456789+/".toList
  let b := next.getD 0
  let c := afterNext.getD 0
  [alphabet.getD (a >>> 2) ' ', alphabet.getD ((a &&& 3) <<< 4 ||| b >>> 4) ' ',
    if next.isSome then alphabet.getD ((b &&& 15) <<< 2 ||| c >>> 6) ' ' else '=',
    if afterNext.isSome then alphabet.getD (c &&& 63) ' ' else '=']

/-- The loop over the bytes, three at a time. -/
def base64Blocks : Bytes → List Char
  | a :: b :: c :: rest => base64Block a.toNat (some b.toNat) (some c.toNat) ++ base64Blocks rest
  | [a, b] => base64Block a.toNat (some b.toNat) none
  | [a] => base64Block a.toNat none none
  | [] => []

def base64Url (bytes : Bytes) : List Char :=
  let replaced := ((base64Blocks bytes).map fun char => if char = '+' then '-' else char).map
    fun char => if char = '/' then '_' else char
  replaced.rdropWhile (· = '=')

/-- `TextEncoder`, on texts of ASCII characters. -/
def encodeText (text : List Char) : Bytes := text.map fun char => UInt8.ofNat char.toNat

def signingMessageV2 (blake2AsU8a : Bytes → FixedBytes 32) (action : SignedActionV2) :
    Except String Bytes := do
  let commitment ← actionCommitmentV2 blake2AsU8a action
  pure (encodeText ("JAMSCRIPT_ACTION_V2:".toList ++ base64Url commitment))

def encodeSignedActionV2 (action : SignedActionV2) : Except String Bytes := do
  ensure (action.version = 2 ∧ action.networkDomain.length = 32 ∧ action.serviceKey.length = 32 ∧
    action.actionSelector.length = 8) "invalid SignedActionV2 fixed-width field"
  let controller ← encodeOwnership action.controller
  let actAs ← encodeOptional action.actAs
  ensure (action.authorizationProof.length ≤ 65536)
    "SignedActionV2 authorization proof is too large"
  ensure (action.payload.length ≤ maxActionPayloadBytes) "SignedActionV2 payload is too large"
  pure (concat ([byte 2, action.networkDomain, action.serviceKey, action.actionSelector,
    u16 controller.length, controller, byte (if actAs.isNone then 0 else 1)] ++
    (match actAs with
      | none => []
      | some encoded => [u16 encoded.length, encoded]) ++
    [u64 action.nonce, u64 action.validUntil, action.payloadHash,
      u32 action.authorizationProof.length, action.authorizationProof, u32 action.payload.length,
      action.payload]))

/-! ## The client's bytes are the runtime's -/

theorem ofNat_and_255 (n : ℕ) : UInt8.ofNat (n &&& 0xff) = UInt8.ofNat n := by
  apply UInt8.toNat_inj.mp
  rw [UInt8.toNat_ofNat', UInt8.toNat_ofNat', show (0xff : ℕ) = 2 ^ 8 - 1 from rfl,
    Nat.and_two_pow_sub_one_eq_mod, Nat.mod_mod]

theorem u16_eq {n : ℕ} (h : n < 2 ^ 16) : u16 n = u16ToLe (UInt16.ofNat n) := by
  have hnat : (UInt16.ofNat n).toNat = n := UInt16.toNat_ofNat_of_lt' h
  rw [u16, ofNat_and_255, ofNat_and_255, u16ToLe, hnat, Nat.shiftRight_eq_div_pow]
  rfl

theorem u32_eq {n : ℕ} (h : n < 2 ^ 32) : u32 n = u32ToLe (UInt32.ofNat n) := by
  have hnat : (UInt32.ofNat n).toNat = n := UInt32.toNat_ofNat_of_lt' h
  rw [u32, u32ToLe, hnat]

/-- A `bigint` that fits 64 bits, as the integer of the runtime. -/
def toU64 (value : ℤ) : UInt64 := UInt64.ofNat value.toNat

theorem toNat_toU64 {value : ℤ} (h : value ∈ Set.Ico 0 (2 ^ 64)) :
    ((toU64 value).toNat : ℤ) = value := by
  obtain ⟨hnonneg, hlt⟩ := h
  have hfits : value.toNat < 2 ^ 64 := by omega
  rw [toU64, UInt64.toNat_ofNat_of_lt' hfits]
  omega

theorem u64_eq {value : ℤ} (h : value ∈ Set.Ico 0 (2 ^ 64)) : u64 value = u64ToLe
    (toU64 value) := by
  have hnat := toNat_toU64 h
  obtain ⟨hnonneg, hlt⟩ := h
  rw [u64, u64ToLe, Int.emod_eq_of_lt hnonneg hlt]
  congr 1
  omega

/-! ### Ownership values -/

/-- The same value in the runtime. -/
def Ownership.toRuntime (ownership : Ownership) : JamScript.Ownership :=
  ⟨UInt8.ofNat ownership.version, ownership.kind, ownership.publicValue⟩

theorem ownershipPublicLength_eq (kind : OwnershipKind) :
    ownershipPublicLength kind = kind.publicLen := by
  cases kind <;> rfl

theorem length_bytes_eq {n : ℕ} (h : n ≤ 0xffff) :
    [UInt8.ofNat (n &&& 0xff), UInt8.ofNat (n >>> 8)] = u16ToLe (UInt16.ofNat n) := by
  rw [← u16_eq (by omega), u16, ofNat_and_255 (n >>> 8)]

/-- The client encodes the values that the runtime does, to the same bytes. -/
theorem encodeOwnership_eq_ok {ownership : Ownership} {encoded : Bytes} :
    encodeOwnership ownership = .ok encoded ↔ ownership.version = 1 ∧
      ownership.toRuntime.validate = .ok () ∧ encoded = ownership.toRuntime.bytes := by
  have hbytes (hversion : ownership.version = 1) (hlength : ownership.publicValue.length ≤ 0xffff) :
      concat [byte 1, byte ownership.kind.toU8.toNat,
        [UInt8.ofNat (ownership.publicValue.length &&& 0xff),
          UInt8.ofNat (ownership.publicValue.length >>> 8)], ownership.publicValue] =
        ownership.toRuntime.bytes := by
    rw [length_bytes_eq hlength]
    simp [concat, byte, Ownership.toRuntime, JamScript.Ownership.bytes, hversion]
  have hhead (value : UInt8) : ownership.publicValue[0]? = some value ↔
      ownership.toRuntime.publicValue.head? = some value := by
    rw [List.head?_eq_getElem?]
    rfl
  rw [JamScript.Ownership.validate_eq_ok]
  unfold encodeOwnership
  simp only [bind_eq_ok, ensure_eq_ok, exists_const, ownershipPublicLength_eq]
  constructor
  · rintro ⟨⟨hversion, hlength⟩, hkey, ⟨hshort, -⟩, h⟩
    refine ⟨hversion, ⟨by simp [Ownership.toRuntime, hversion, ownershipVersionV1], hlength, ?_⟩,
      ?_⟩
    · intro hkind
      by_contra hnot
      rw [not_or, ← hhead, ← hhead] at hnot
      exact hkey ⟨hkind, hnot⟩
    · rw [← hbytes hversion hshort]
      exact (Except.ok.inj h).symm
  · rintro ⟨hversion, ⟨-, hlength, hkey⟩, rfl⟩
    have hshort : ownership.publicValue.length ≤ 33 := by
      have hlength : ownership.publicValue.length = ownership.kind.publicLen := hlength
      rw [hlength]
      cases ownership.kind <;> decide
    refine ⟨⟨hversion, hlength⟩, ?_, ⟨by omega, by simp only [maxOwnershipBytes]; omega⟩, ?_⟩
    · rintro ⟨hkind, hnot⟩
      rw [ne_eq, ne_eq, hhead, hhead, ← not_or] at hnot
      exact hnot (hkey hkind)
    · rw [hbytes hversion (by omega)]
      rfl

theorem or_shiftLeft_eq_u16OfLe (low high : UInt8) :
    low.toNat ||| high.toNat <<< 8 = (u16OfLe [low, high]).toNat := by
  have hlow : low.toNat < 2 ^ 8 := low.toNat_lt
  have hhigh : high.toNat < 2 ^ 8 := high.toNat_lt
  rw [Nat.or_comm, ← Nat.shiftLeft_add_eq_or_of_lt hlow, u16OfLe, UInt16.toNat_ofNat']
  simp only [ofLe, Nat.shiftLeft_eq]
  omega

/-- The client reads the byte strings that the runtime reads, and gets the same values. -/
theorem ownership_decoders_agree (bytes : Bytes) (ownership : Ownership) :
    decodeOwnership bytes = .ok ownership ↔
      ownership.version = 1 ∧ JamScript.Ownership.decode bytes = .ok ownership.toRuntime := by
  obtain ⟨version, kind, publicValue⟩ := ownership
  simp only [decodeOwnership, JamScript.Ownership.decode, bind_eq_ok, ensure_eq_ok, exists_const,
    mapError_eq_ok]
  rcases bytes with _ | ⟨first, _ | ⟨second, _ | ⟨low, _ | ⟨high, rest⟩⟩⟩⟩
  case cons.cons.cons.cons =>
    have hhead : ∀ value, (first :: second :: low :: high :: rest)[4]? = some value ↔
      rest.head? = some value := by
      cases rest <;> simp
    simp only [List.getD_cons_succ, List.getD_cons_zero, or_shiftLeft_eq_u16OfLe,
      List.length_cons, bind_eq_ok,
      ensure_eq_ok, exists_const, JamScript.Ownership.new, ownershipPublicLength_eq, ne_eq, hhead]
    constructor
    · rintro ⟨hstart, kind, hkind, ⟨hpublic, hlength⟩, hkey, hfields⟩
      cases hfields
      obtain ⟨-, hsize, hfirst⟩ := not_or.mp hstart |>.imp_right not_or.mp
      refine ⟨rfl, by omega, by simpa [ownershipVersionV1] using hfirst, kind, hkind, ⟨hpublic, by
        omega⟩, (),
        JamScript.Ownership.validate_eq_ok.mpr ⟨rfl, by dsimp only; omega, fun hsecp => ?_⟩, rfl⟩
      by_contra hnot
      exact hkey ⟨hsecp, not_or.mp hnot⟩
    · rintro ⟨rfl, hsize, rfl, kind, hkind, ⟨hpublic, hlength⟩, _, hvalid, hfields⟩
      cases hfields
      obtain ⟨-, -, hkey⟩ := JamScript.Ownership.validate_eq_ok.mp hvalid
      refine ⟨by dsimp only at hsize; simp [ownershipVersionV1]; omega, kind, hkind,
        ⟨hpublic, by omega⟩, ?_, rfl⟩
      rintro ⟨hsecp, hnot⟩
      exact not_or.mpr hnot (hkey hsecp)
  all_goals simp

/-- The keys of an account agree with those of the runtime. -/
theorem ownershipKey_of_encode {blake2 : Bytes → FixedBytes 32} {ownership : Ownership}
    {encoded : Bytes} (h : encodeOwnership ownership = .ok encoded) :
    ∃ key, ownership.toRuntime.key blake2 = .ok key ∧
      ownershipKey blake2 ownership = .ok key.toList ∧
      ∃ nonceKey, JamScript.ownershipNonceKey blake2 ownership.toRuntime = .ok nonceKey ∧
        ownershipNonceKey blake2 ownership = .ok nonceKey := by
  obtain ⟨-, hvalid, hencoded⟩ := encodeOwnership_eq_ok.mp h
  have hruntime := JamScript.Ownership.encode_eq_ok_iff.mpr ⟨hvalid, hencoded⟩
  have hconcat : concat [ascii "OWNERSHIP_ABSTRACTION_KEY_V1", encoded] =
      ownershipKeyDomainV1 ++ encoded := by
    rw [concat, List.flatten_cons, List.flatten_cons, List.flatten_nil, List.append_nil]
    rfl
  refine ⟨blake2 (ownershipKeyDomainV1 ++ encoded), ?_, ?_, ?_⟩
  · rw [JamScript.Ownership.key, hruntime]
    rfl
  · rw [ownershipKey, h, ← hconcat]
    rfl
  · rw [JamScript.ownershipNonceKey, JamScript.Ownership.key, hruntime,
      ownershipNonceKey, ownershipKey, h]
    refine ⟨_, rfl, ?_⟩
    change Except.ok (concat [byte 0x00, byte 0x01, ascii "__jamscript/runtime/ownership/nonces/",
      (blake2 (concat [ascii "OWNERSHIP_ABSTRACTION_KEY_V1", encoded])).toList]) = _
    rw [hconcat, concat, List.flatten_cons, List.flatten_cons, List.flatten_cons, List.flatten_cons,
      List.flatten_nil, List.append_nil]
    rfl

/-! ### Texts -/

/-- The characters as `base64Url` replaces them. -/
def urlChar (char : Char) : Char :=
  let char := if char = '+' then '-' else char
  if char = '/' then '_' else char

def standardAlphabet : List Char :=
  "ABCDEFGHIJKLMNOPQRSTUVWXYZabcdefghijklmnopqrstuvwxyz0123456789+/".toList

theorem urlChar_standardAlphabet : ∀ i : Fin 64,
    UInt8.ofNat (urlChar (standardAlphabet.getD i ' ')).toNat = base64Alphabet.getD i 0 ∧
      urlChar (standardAlphabet.getD i ' ') ≠ '=' := by
  decide +kernel

/-- One character of the text, from the value of its group. -/
theorem urlChar_group {value : ℕ} {group : UInt8} (h : value = group.toNat)
    (hlt : group.toNat < 64) :
    UInt8.ofNat (urlChar (standardAlphabet.getD value ' ')).toNat = base64Char group ∧
      urlChar (standardAlphabet.getD value ' ') ≠ '=' := by
  subst h
  exact urlChar_standardAlphabet ⟨group.toNat, hlt⟩

theorem joined_eq (x y mask : ℕ) (kept shift back : ℕ) (hmask : mask = 2 ^ kept - 1)
    (hroom : y / 2 ^ back < 2 ^ shift) :
    (x &&& mask) <<< shift ||| y >>> back = x % 2 ^ kept * 2 ^ shift + y / 2 ^ back := by
  rw [hmask, Nat.and_two_pow_sub_one_eq_mod, Nat.shiftRight_eq_div_pow,
    ← Nat.shiftLeft_add_eq_or_of_lt hroom, Nat.shiftLeft_eq]

/-- The characters for the four groups of three bytes. -/
theorem urlChar_groups (a b c : UInt8) :
    let first := urlChar (standardAlphabet.getD (a.toNat >>> 2) ' ')
    let second := urlChar (standardAlphabet.getD ((a.toNat &&& 3) <<< 4 ||| b.toNat >>> 4) ' ')
    let third := urlChar (standardAlphabet.getD ((b.toNat &&& 15) <<< 2 ||| c.toNat >>> 6) ' ')
    let fourth := urlChar (standardAlphabet.getD (c.toNat &&& 63) ' ')
    encodeText [first, second, third, fourth] =
        [base64Char (a >>> 2), base64Char ((a &&& 3) <<< 4 ||| b >>> 4),
          base64Char ((b &&& 15) <<< 2 ||| c >>> 6), base64Char (c &&& 63)] ∧
      ∀ char ∈ [first, second, third, fourth], char ≠ '=' := by
  have ha : a.toNat < 256 := a.toNat_lt
  have hb : b.toNat < 256 := b.toNat_lt
  have hc : c.toNat < 256 := c.toNat_lt
  have h₁ := toNat_firstGroup a
  have h₂ := toNat_secondGroup a b
  have h₃ := toNat_thirdGroup b c
  have h₄ := toNat_fourthGroup c
  have hvalue₁ : a.toNat >>> 2 = (a >>> 2).toNat := (Nat.shiftRight_eq_div_pow _ _).trans h₁.symm
  have hvalue₂ := (joined_eq a.toNat b.toNat 3 2 4 4 rfl (by omega)).trans h₂.symm
  have hvalue₃ := (joined_eq b.toNat c.toNat 15 4 2 6 rfl (by omega)).trans h₃.symm
  have hvalue₄ := (Nat.and_two_pow_sub_one_eq_mod c.toNat 6).trans h₄.symm
  obtain ⟨htext₁, hne₁⟩ := urlChar_group hvalue₁ (by omega)
  obtain ⟨htext₂, hne₂⟩ := urlChar_group hvalue₂ (by omega)
  obtain ⟨htext₃, hne₃⟩ := urlChar_group hvalue₃ (by omega)
  obtain ⟨htext₄, hne₄⟩ := urlChar_group hvalue₄ (by omega)
  refine ⟨?_, by simpa using ⟨hne₁, hne₂, hne₃, hne₄⟩⟩
  simp only [encodeText, List.map_cons, List.map_nil]
  rw [htext₁, htext₂, htext₃, htext₄]

/-- The characters of the loop are the text of the runtime, with padding at the end only. -/
theorem base64Blocks_split (bytes : Bytes) : ∃ text pad,
    (base64Blocks bytes).map urlChar = text ++ pad ∧ encodeText text = urlSafeNoPad bytes ∧
      (∀ char ∈ text, char ≠ '=') ∧ ∀ char ∈ pad, char = '=' := by
  induction bytes using base64Blocks.induct with
  | case1 a b c rest ih =>
    obtain ⟨text, pad, hsplit, htext, hne, hpad⟩ := ih
    obtain ⟨hblock, hneBlock⟩ := urlChar_groups a b c
    refine ⟨_ ++ text, pad, ?_, ?_, List.forall_mem_append.mpr ⟨hneBlock, hne⟩, hpad⟩
    · rw [base64Blocks, List.map_append, hsplit, List.append_assoc]
      rfl
    · rw [encodeText, List.map_append, urlSafeNoPad]
      exact congrArg₂ (· ++ ·) hblock htext
  | case2 a b =>
    -- the missing byte counts as zero, and its character is padding
    obtain ⟨hblock, hneBlock⟩ := urlChar_groups a b 0
    refine ⟨_, ['='], rfl, ?_, fun char hmem => hneBlock char (List.mem_of_mem_take (i := 3) hmem),
      by simp⟩
    have hthree := congrArg (List.take 3) hblock
    simpa [urlSafeNoPad, encodeText] using hthree
  | case3 a =>
    obtain ⟨hblock, hneBlock⟩ := urlChar_groups a 0 0
    refine ⟨_, ['=', '='], rfl, ?_, fun char hmem => hneBlock char
      (List.mem_of_mem_take (i := 2) hmem), by simp⟩
    have htwo := congrArg (List.take 2) hblock
    simpa [urlSafeNoPad, encodeText] using htwo
  | case4 => exact ⟨[], [], rfl, rfl, by simp, by simp⟩

/-- The text of the client is the text of the runtime. -/
theorem base64Url_eq (bytes : Bytes) : encodeText (base64Url bytes) = urlSafeNoPad bytes := by
  obtain ⟨text, pad, hsplit, htext, hne, hpad⟩ := base64Blocks_split bytes
  have hmap : ((base64Blocks bytes).map fun char => if char = '+' then '-' else char).map
      (fun char => if char = '/' then '_' else char) = text ++ pad := by
    rw [List.map_map, ← hsplit]
    rfl
  rw [← htext, base64Url, hmap, List.rdropWhile, List.reverse_append,
    List.dropWhile_append_of_pos (by simpa using hpad), List.dropWhile_eq_self_iff.mpr,
    List.reverse_reverse]
  intro hpos
  simpa using hne _ (List.mem_reverse.mp (List.getElem_mem hpos))

/-! ### Envelopes -/

/-- The guest reads the action's own fields. -/
structure SignedActionV1.Matches (action : SignedActionV1) (view : SignedActionV1View) : Prop where
  version : view.version.toNat = action.version
  networkDomain : view.networkDomain.toList = action.networkDomain
  serviceKey : view.serviceKey.toList = action.serviceKey
  actionSelector : view.actionSelector.toList = action.actionSelector
  signerScheme : view.signerScheme.toNat = action.signerScheme
  publicKey : view.publicKey = action.publicKey
  nonce : (view.nonce.toNat : ℤ) = action.nonce
  validUntil : (view.validUntil.toNat : ℤ) = action.validUntil
  payloadHash : view.payloadHash.toList = action.payloadHash
  signature : view.signature = action.signature
  payload : view.payload = action.payload

/-- The guest reads the action's own fields. -/
structure SignedActionV2.Matches (action : SignedActionV2) (view : SignedActionV2View) : Prop where
  version : view.version.toNat = action.version
  networkDomain : view.networkDomain.toList = action.networkDomain
  serviceKey : view.serviceKey.toList = action.serviceKey
  actionSelector : view.actionSelector.toList = action.actionSelector
  controller : view.controller = action.controller.toRuntime
  actAs : view.actAs = action.actAs.map Ownership.toRuntime
  nonce : (view.nonce.toNat : ℤ) = action.nonce
  validUntil : (view.validUntil.toNat : ℤ) = action.validUntil
  payloadHash : view.payloadHash.toList = action.payloadHash
  authorizationProof : view.authorizationProof = action.authorizationProof
  payload : view.payload = action.payload

/-- The envelope the client writes is read back by the guest, which signs the same digest. -/
theorem encodeSignedActionV1_decodes {crypto : CryptoLibrary} {action : SignedActionV1}
    (hhash : action.payloadHash.length = 32) (hnonce : action.nonce ∈ Set.Ico 0 (2 ^ 64))
    (hvalid : action.validUntil ∈ Set.Ico 0 (2 ^ 64)) {encoded : Bytes}
    (hencoded : encodeSignedActionV1 action = .ok encoded)
    (hfits : encoded.length ≤ maxActionBytes) :
    ∃ view, decodeSignedActionV1 encoded = .ok view ∧ action.Matches view ∧
      signingDigestV1 crypto.blake2_256 action = .ok (crypto.signingDigestV1 view).toList := by
  unfold encodeSignedActionV1 at hencoded
  simp only [bind_eq_ok, ensure_eq_ok, exists_const] at hencoded
  obtain ⟨⟨hdomain, hservice, hselector⟩, ⟨hkey, hsignature⟩, hpayload, h⟩ := hencoded
  let view : SignedActionV1View :=
    { version := 1, networkDomain := ⟨action.networkDomain, hdomain⟩
      serviceKey := ⟨action.serviceKey, hservice⟩
      actionSelector := ⟨action.actionSelector, hselector⟩
      signerScheme := 0, publicKey := action.publicKey, nonce := toU64 action.nonce
      validUntil := toU64 action.validUntil, payloadHash := ⟨action.payloadHash, hhash⟩
      signature := action.signature, payload := action.payload, encoded := encoded }
  have hbytes : view.contents.bytes = encoded := by
    rw [← Except.ok.inj h, u64_eq hnonce, u64_eq hvalid,
      u32_eq (hpayload.trans_lt (by decide : maxActionPayloadBytes < 2 ^ 32)), action.version_eq,
      action.signerScheme_eq]
    simp only [concat, byte, List.flatten_cons, List.flatten_nil, List.append_nil, List.cons_append,
      List.nil_append]
    rfl
  refine ⟨view, decodeSignedActionV1_eq_ok.mpr ⟨rfl, hbytes,
    ⟨rfl, hkey, hsignature, hpayload⟩, hfits⟩, ?_, ?_⟩
  · exact ⟨action.version_eq.symm, rfl, rfl, rfl, action.signerScheme_eq.symm, rfl,
      toNat_toU64 hnonce, toNat_toU64 hvalid, rfl, rfl, rfl⟩
  · unfold signingDigestV1
    rw [u64_eq hnonce, u64_eq hvalid, action.version_eq, action.signerScheme_eq]
    refine bind_eq_ok.mpr ⟨(), ensure_eq_ok.mpr ⟨hdomain, hservice, hselector⟩, ?_⟩
    simp only [concat, byte, List.flatten_cons, List.flatten_nil, List.append_nil]
    rw [CryptoLibrary.signingDigestV1_eq]
    simp only [EnvelopeV1.digestPreimage, List.append_assoc]
    rfl

theorem nonceKey_eq {publicKey : Bytes} {account : FixedBytes 32} (h : account.toList = publicKey) :
    nonceKey publicKey = .ok (JamScript.nonceKey account) := by
  subst h
  rw [nonceKey]
  refine bind_eq_ok.mpr ⟨(), ensure_eq_ok.mpr account.toList_length, ?_⟩
  simp only [concat, byte, List.flatten_cons, List.flatten_nil, List.append_nil]
  rfl

theorem encodeOptional_eq_ok {ownership : Option Ownership} {encoded : Option Bytes} :
    encodeOptional ownership = .ok encoded ↔
      (∀ owner ∈ ownership, owner.version = 1 ∧ owner.toRuntime.validate = .ok ()) ∧
        encoded = ownership.map (·.toRuntime.bytes) := by
  cases ownership with
  | none => exact ⟨fun h => ⟨nofun, (Except.ok.inj h).symm⟩, fun h => h.2 ▸ rfl⟩
  | some owner =>
    rw [encodeOptional, bind_eq_ok]
    constructor
    · rintro ⟨bytes, hbytes, h⟩
      obtain ⟨hversion, hvalid, rfl⟩ := encodeOwnership_eq_ok.mp hbytes
      exact ⟨fun _ hmem => Option.some.inj hmem ▸ ⟨hversion, hvalid⟩, (Except.ok.inj h).symm⟩
    · rintro ⟨hvalid, rfl⟩
      obtain ⟨hversion, hvalid⟩ := hvalid owner rfl
      exact ⟨_, encodeOwnership_eq_ok.mpr ⟨hversion, hvalid, rfl⟩, rfl⟩

theorem optionalField_eq {actAs : Option Ownership}
    (h : ∀ owner ∈ actAs, owner.version = 1 ∧ owner.toRuntime.validate = .ok ()) :
    byte (if (actAs.map fun owner : Ownership => owner.toRuntime.bytes).isNone then 0 else 1) ++
      (match actAs.map fun owner : Ownership => owner.toRuntime.bytes with
        | none => []
        | some encoded => [u16 encoded.length, encoded] : List Bytes).flatten =
      actAsField (actAs.map Ownership.toRuntime) := by
  cases actAs with
  | none => rfl
  | some owner =>
    have hshort := JamScript.Ownership.length_bytes_lt (h owner rfl).2
    simp only [Option.map_some, u16_eq hshort, List.flatten_cons, List.flatten_nil, List.append_nil]
    rfl

theorem optionalCommitted_eq (actAs : Option Ownership) :
    byte (if actAs.isNone then 0 else 1) ++
      (actAs.map fun owner : Ownership => owner.toRuntime.bytes).toList.flatten =
      actAsCommitted (actAs.map Ownership.toRuntime) := by
  cases actAs with
  | none => rfl
  | some owner =>
    simp only [Option.map_some, Option.toList_some, List.flatten_cons, List.flatten_nil,
      List.append_nil]
    rfl

/-- The envelope of version 2 is read back, with the same commitment and message. -/
theorem encodeSignedActionV2_decodes {crypto : CryptoLibrary} {action : SignedActionV2}
    (hhash : action.payloadHash.length = 32) (hnonce : action.nonce ∈ Set.Ico 0 (2 ^ 64))
    (hvalid : action.validUntil ∈ Set.Ico 0 (2 ^ 64)) {encoded : Bytes}
    (hencoded : encodeSignedActionV2 action = .ok encoded)
    (hfits : encoded.length ≤ maxActionBytes) :
    ∃ view, decodeSignedActionV2 encoded = .ok view ∧ action.Matches view ∧
      ∃ commitment, crypto.actionCommitmentV2 view = .ok commitment ∧
        actionCommitmentV2 crypto.blake2_256 action = .ok commitment.toList ∧
        signingMessageV2 crypto.blake2_256 action =
          .ok (JamScript.signingMessageV2 commitment) := by
  unfold encodeSignedActionV2 at hencoded
  simp only [bind_eq_ok, ensure_eq_ok, exists_const] at hencoded
  obtain ⟨⟨hversion, hdomain, hservice, hselector⟩, controller, hcontroller, actAs, hactAs, hproof,
    hpayload, h⟩ := hencoded
  have hcontrollerEncoded := hcontroller
  have hactAsEncoded := hactAs
  obtain ⟨hone, hcontrollerValid, rfl⟩ := encodeOwnership_eq_ok.mp hcontroller
  obtain ⟨hactAsValid, rfl⟩ := encodeOptional_eq_ok.mp hactAs
  let view : SignedActionV2View :=
    { version := 2, networkDomain := ⟨action.networkDomain, hdomain⟩
      serviceKey := ⟨action.serviceKey, hservice⟩
      actionSelector := ⟨action.actionSelector, hselector⟩
      controller := action.controller.toRuntime, actAs := action.actAs.map Ownership.toRuntime
      nonce := toU64 action.nonce, validUntil := toU64 action.validUntil
      payloadHash := ⟨action.payloadHash, hhash⟩, authorizationProof := action.authorizationProof
      payload := action.payload, encoded := encoded }
  have hcontrollerShort := JamScript.Ownership.length_bytes_lt hcontrollerValid
  have hbytes : view.contents.bytes = encoded := by
    rw [← Except.ok.inj h, u64_eq hnonce, u64_eq hvalid, u16_eq hcontrollerShort,
      u32_eq (hpayload.trans_lt (by decide : maxActionPayloadBytes < 2 ^ 32)),
      u32_eq (hproof.trans_lt (by decide : 65536 < 2 ^ 32))]
    simp only [concat, List.flatten_append, List.flatten_cons, List.flatten_nil, List.append_nil,
      List.append_assoc]
    rw [← List.append_assoc (byte (ite _ _ _)), optionalField_eq hactAsValid]
    simp only [EnvelopeV2.bytes, SignedActionV2View.contents, ownershipField, List.append_assoc]
    rfl
  have hview : view.contents.Fits := by
    refine ⟨rfl, hcontrollerValid, ?_, hproof, hpayload⟩
    intro owner howner
    obtain ⟨source, hsource, rfl⟩ := Option.mem_map.mp howner
    exact (hactAsValid source hsource).2
  refine ⟨view, decodeSignedActionV2_eq_ok.mpr ⟨rfl, hbytes, hview, hfits⟩, ?_, _,
    CryptoLibrary.actionCommitmentV2_eq_ok.mpr ⟨hview.controller, hview.actAs, rfl⟩, ?_⟩
  · exact ⟨hversion.symm, rfl, rfl, rfl, rfl, rfl, toNat_toU64 hnonce, toNat_toU64 hvalid, rfl, rfl,
      rfl⟩
  have hcommitment : actionCommitmentV2 crypto.blake2_256 action =
      .ok (crypto.blake2_256 view.contents.commitmentPreimage).toList := by
    unfold actionCommitmentV2
    rw [u64_eq hnonce, u64_eq hvalid, hcontrollerEncoded, hactAsEncoded]
    refine bind_eq_ok.mpr ⟨(), ensure_eq_ok.mpr ⟨hdomain, hservice, hselector⟩, ?_⟩
    refine congrArg (fun input => Except.ok (crypto.blake2_256 input).toList) ?_
    simp only [concat, List.flatten_append, List.flatten_cons, List.flatten_nil, List.append_nil,
      List.append_assoc]
    rw [← List.append_assoc (byte (ite _ _ _)), optionalCommitted_eq]
    simp only [EnvelopeV2.commitmentPreimage, SignedActionV2View.contents, List.append_assoc]
    rfl
  refine ⟨hcommitment, ?_⟩
  rw [signingMessageV2, hcommitment]
  refine congrArg Except.ok ?_
  rw [JamScript.signingMessageV2, encodeText, List.map_append, ← base64Url_eq]
  rfl

/-- An envelope is only written for ownership values that have an encoding. -/
theorem encodable_of_encodeSignedActionV2 {action : SignedActionV2} {encoded : Bytes}
    (h : encodeSignedActionV2 action = .ok encoded) {ownership : Ownership}
    (howner : ownership = action.controller ∨ some ownership = action.actAs) :
    ∃ encoded, encodeOwnership ownership = .ok encoded := by
  obtain ⟨_, _, h⟩ := bind_eq_ok.mp h
  obtain ⟨controller, hcontroller, h⟩ := bind_eq_ok.mp h
  obtain ⟨actAs, hactAs, _⟩ := bind_eq_ok.mp h
  obtain rfl | howner := howner
  · exact ⟨controller, hcontroller⟩
  · obtain ⟨hversion, hvalid⟩ := (encodeOptional_eq_ok.mp hactAs).1 ownership howner.symm
    exact ⟨_, encodeOwnership_eq_ok.mpr ⟨hversion, hvalid, rfl⟩⟩

/-- What the client encodes, the guest reads back with the same fields, and every digest, message
and key of the client is the one of the runtime. The selector that the guest dispatches on is the
one it decodes. -/
theorem client_matches_guest (crypto : CryptoLibrary) :
    (∀ (action : SignedActionV1) (encoded : Bytes), action.payloadHash.length = 32 →
      action.nonce ∈ Set.Ico 0 (2 ^ 64) → action.validUntil ∈ Set.Ico 0 (2 ^ 64) →
      encodeSignedActionV1 action = .ok encoded → encoded.length ≤ maxActionBytes →
        ∃ view, decodeSignedActionV1 encoded = .ok view ∧ action.Matches view ∧
          signingDigestV1 crypto.blake2_256 action = .ok (crypto.signingDigestV1 view).toList ∧
          ∀ account : FixedBytes 32, account.toList = view.publicKey →
            nonceKey action.publicKey = .ok (JamScript.nonceKey account)) ∧
    (∀ (action : SignedActionV2) (encoded : Bytes), action.payloadHash.length = 32 →
      action.nonce ∈ Set.Ico 0 (2 ^ 64) → action.validUntil ∈ Set.Ico 0 (2 ^ 64) →
      encodeSignedActionV2 action = .ok encoded → encoded.length ≤ maxActionBytes →
        ∃ view, decodeSignedActionV2 encoded = .ok view ∧ action.Matches view ∧
          (∃ commitment, crypto.actionCommitmentV2 view = .ok commitment ∧
            actionCommitmentV2 crypto.blake2_256 action = .ok commitment.toList ∧
            signingMessageV2 crypto.blake2_256 action =
              .ok (JamScript.signingMessageV2 commitment)) ∧
          ∀ ownership, ownership = action.controller ∨ some ownership = action.actAs →
            ∃ key, ownership.toRuntime.key crypto.blake2_256 = .ok key ∧
              ownershipKey crypto.blake2_256 ownership = .ok key.toList ∧
              ∃ nonceKey,
                JamScript.ownershipNonceKey crypto.blake2_256 ownership.toRuntime = .ok nonceKey ∧
                ownershipNonceKey crypto.blake2_256 ownership = .ok nonceKey) ∧
    (∀ (bytes : Bytes) (view : SignedActionV1View), decodeSignedActionV1 bytes = .ok view →
      JamScriptServiceDescriptorV2.signedSelector bytes = .ok view.actionSelector) ∧
    (∀ (bytes : Bytes) (view : SignedActionV2View), decodeSignedActionV2 bytes = .ok view →
      JamScriptServiceDescriptorV2.signedSelector bytes = .ok view.actionSelector) := by
  have hselector {bytes : Bytes} {selector : FixedBytes 8}
      (h : (bytes.drop 65).take 8 = selector.toList) :
      JamScriptServiceDescriptorV2.signedSelector bytes = .ok selector := by
    unfold JamScriptServiceDescriptorV2.signedSelector tryIntoArray
    rw [h, dif_pos selector.toList_length]
    rfl
  refine ⟨?_, ?_, fun bytes view h => hselector (decodeSignedActionV1_selector h),
    fun bytes view h => hselector (decodeSignedActionV2_selector h).1⟩
  · intro action encoded hhash hnonce hvalid hencoded hfits
    obtain ⟨view, hdecode, hmatches, hdigest⟩ :=
      encodeSignedActionV1_decodes hhash hnonce hvalid hencoded hfits
    exact ⟨view, hdecode, hmatches, hdigest, fun account h =>
      nonceKey_eq (h.trans hmatches.publicKey)⟩
  · intro action encoded hhash hnonce hvalid hencoded hfits
    obtain ⟨view, hdecode, hmatches, hcommitment⟩ :=
      encodeSignedActionV2_decodes hhash hnonce hvalid hencoded hfits
    refine ⟨view, hdecode, hmatches, hcommitment, fun ownership howner => ?_⟩
    obtain ⟨_, hownership⟩ := encodable_of_encodeSignedActionV2 hencoded howner
    exact ownershipKey_of_encode hownership

/-- The client's side of `pingAction`. -/
def pingRequest : SignedActionV2 where
  version := 2
  networkDomain := List.replicate 32 0
  serviceKey := List.replicate 32 7
  actionSelector := [1, 2, 3, 4, 5, 6, 7, 8]
  controller := ⟨1, .ed25519Key, pingPublicKey⟩
  actAs := none
  nonce := 0
  validUntil := 9
  payloadHash := pingPayloadHash.toList
  authorizationProof := pingSignature
  payload := [42]

/-- An action of version 1, for the same service. -/
def walletRequest : SignedActionV1 where
  version := 1
  networkDomain := List.replicate 32 0
  serviceKey := List.replicate 32 7
  actionSelector := [1, 2, 3, 4, 5, 6, 7, 8]
  signerScheme := 0
  publicKey := pingPublicKey
  nonce := 3
  validUntil := 9
  payloadHash := pingPayloadHash.toList
  signature := pingSignature
  payload := [42]
  version_eq := rfl
  signerScheme_eq := rfl

/-- The client writes the envelope of the example, and the text its controller has signed; and the
guest reads the action of version 1 back. -/
theorem client_matches_guest_ping : encodeSignedActionV2 pingRequest = .ok pingAction ∧
    signingMessageV2 pingCrypto.blake2_256 pingRequest = .ok pingMessage ∧
    (∃ view, decodeSignedActionV2 pingAction = .ok view ∧ pingRequest.Matches view) ∧
    ∃ encoded view, encodeSignedActionV1 walletRequest = .ok encoded ∧
      decodeSignedActionV1 encoded = .ok view ∧ walletRequest.Matches view ∧
      signingDigestV1 pingCrypto.blake2_256 walletRequest =
        .ok (pingCrypto.signingDigestV1 view).toList := by
  have hencoded : encodeSignedActionV2 pingRequest = .ok pingAction := by decide +kernel
  obtain ⟨view, hdecode, hmatches, -⟩ :=
    (client_matches_guest pingCrypto).2.1 pingRequest pingAction
    (by decide +kernel) ⟨by decide, by decide⟩ ⟨by decide, by decide⟩ hencoded (by decide +kernel)
  obtain ⟨walletView, hwallet, hfields, hdigest, -⟩ :=
    (client_matches_guest pingCrypto).1 walletRequest _
    (by decide +kernel) ⟨by decide, by decide⟩ ⟨by decide, by decide⟩ rfl (by decide +kernel)
  exact ⟨hencoded, by decide +kernel, ⟨view, hdecode,
    hmatches⟩, _, walletView, rfl, hwallet, hfields, hdigest⟩

end JamScript.Client
