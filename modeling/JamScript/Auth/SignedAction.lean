import JamScript.Auth.Crypto

/-!
# Signed actions

`jamscript-runtime-core`: the two envelopes in which a signed action arrives, their decoders, the
checks that make one a verified action, and the keys under which the nonces of its signer are kept.
Version 1 is signed by an sr25519 wallet account, version 2 by the controller of an ownership value.
-/

namespace JamScript

open Codec

/-- The errors of the envelope decoders and of the authentication of actions. -/
inductive RuntimeError where
  | invalidEnvelope
  | unsupportedVersion
  | wrongNetwork
  | wrongService
  | unknownAction
  | payloadTooLarge
  | payloadHashMismatch
  | invalidSignature
  | nonceMismatch
  | unsupportedSigner
  | invalidOwnershipEncoding
  | invalidOwnershipAuthorization
  | ownershipNonceMismatch
  | polkadotInvalidSignature
  | evmInvalidSignature
  | evmAddressMismatch
  | actAsUnsupported
  deriving DecidableEq, Repr

/-- The code under which an error appears in a receipt. -/
def RuntimeError.code : RuntimeError → UInt32
  | .invalidEnvelope => 1
  | .unsupportedVersion => 2
  | .wrongNetwork => 3
  | .wrongService => 4
  | .unknownAction => 5
  | .payloadTooLarge => 6
  | .payloadHashMismatch => 7
  | .invalidSignature => 8
  | .nonceMismatch => 10
  | .unsupportedSigner => 11
  | .invalidOwnershipEncoding => 15
  | .invalidOwnershipAuthorization => 16
  | .ownershipNonceMismatch => 17
  | .polkadotInvalidSignature => 25
  | .evmInvalidSignature => 26
  | .evmAddressMismatch => 27
  | .actAsUnsupported => 34

def maxActionBytes : ℕ := 1048576
def maxAuthorizationProofBytes : ℕ := 65536
/-- What is hashed first in a digest of version 1. -/
def actionDomainV1 : Bytes := ascii "JAMSCRIPT_ACTION_V1"
/-- What is hashed first in a commitment of version 2. -/
def actionCommitmentDomainV2 : Bytes := ascii "JAMSCRIPT_ACTION_V2"
/-- Where the nonces of owners are kept. -/
def ownershipNonceSchemaV1 : Bytes := ascii "__jamscript/runtime/ownership/nonces/"

/-! ## Envelopes -/

/-- The fields of an envelope of version 1, and its bytes. -/
structure SignedActionV1View where
  version : UInt8
  networkDomain : FixedBytes 32
  serviceKey : FixedBytes 32
  actionSelector : FixedBytes 8
  signerScheme : UInt8
  publicKey : Bytes
  nonce : UInt64
  validUntil : UInt64
  payloadHash : FixedBytes 32
  signature : Bytes
  payload : Bytes
  encoded : Bytes
  deriving DecidableEq

/-- The fields of an envelope of version 2, and its bytes. -/
structure SignedActionV2View where
  version : UInt8
  networkDomain : FixedBytes 32
  serviceKey : FixedBytes 32
  actionSelector : FixedBytes 8
  controller : Ownership
  actAs : Option Ownership
  nonce : UInt64
  validUntil : UInt64
  payloadHash : FixedBytes 32
  authorizationProof : Bytes
  payload : Bytes
  encoded : Bytes
  deriving DecidableEq

/-- The reader of the envelopes; running out of bytes makes the envelope invalid. -/
abbrev EnvelopeReader (α : Type) := Parser RuntimeError α

namespace EnvelopeReader

def take (length : ℕ) : EnvelopeReader Bytes := Parser.take .invalidEnvelope length

def array (n : ℕ) : EnvelopeReader (FixedBytes n) := Parser.array .invalidEnvelope n

def u8 : EnvelopeReader UInt8 := do
  let bytes ← take 1
  match bytes with
  | byte :: _ => pure byte
  | [] => throw .invalidEnvelope

def u32 : EnvelopeReader UInt32 := do
  let bytes ← take 4
  pure (u32OfLe bytes)

def u64 : EnvelopeReader UInt64 := do
  let bytes ← take 8
  pure (u64OfLe bytes)

/-- Bytes behind a length of one byte. -/
def bytesU8 : EnvelopeReader Bytes := do
  let length ← u8
  take length.toNat

/-- Bytes behind a length of two bytes. -/
def bytesU16 : EnvelopeReader Bytes := do
  let length ← take 2
  take (u16OfLe length).toNat

/-- Bytes behind a length of four bytes that is checked first. -/
def bytesU32Limited (limit : ℕ) : EnvelopeReader Bytes := do
  let length ← u32
  Parser.check (length.toNat ≤ limit) .payloadTooLarge
  take length.toNat

def bytesU32 : EnvelopeReader Bytes := bytesU32Limited maxActionBytes

end EnvelopeReader

open EnvelopeReader in
/-- `decode_signed_action_v1`. -/
def decodeSignedActionV1 (bytes : Bytes) : Except RuntimeError SignedActionV1View := do
  ensure (bytes.length ≤ maxActionBytes) RuntimeError.payloadTooLarge
  let view ← Parser.whole .invalidEnvelope (do
    let version ← u8
    Parser.check (version = 1) .unsupportedVersion
    let networkDomain ← array 32
    let serviceKey ← array 32
    let actionSelector ← array 8
    let signerScheme ← u8
    let publicKey ← bytesU8
    let nonce ← u64
    let validUntil ← u64
    let payloadHash ← array 32
    let signature ← bytesU8
    let payload ← bytesU32
    pure { version, networkDomain, serviceKey, actionSelector, signerScheme, publicKey, nonce,
           validUntil, payloadHash, signature, payload, encoded := bytes }) bytes
  ensure (view.publicKey.length ≤ 32 ∧ view.signature.length ≤ 64) RuntimeError.invalidEnvelope
  pure view

open EnvelopeReader in
/-- A length-prefixed ownership value. -/
def EnvelopeReader.ownership : EnvelopeReader Ownership := do
  let bytes ← bytesU16
  (Ownership.decode bytes).mapError fun _ => RuntimeError.invalidOwnershipEncoding

open EnvelopeReader in
/-- `decode_signed_action_v2`. -/
def decodeSignedActionV2 (bytes : Bytes) : Except RuntimeError SignedActionV2View := do
  ensure (bytes.length ≤ maxActionBytes) RuntimeError.payloadTooLarge
  Parser.whole .invalidEnvelope (do
    let version ← u8
    Parser.check (version = 2) .unsupportedVersion
    let networkDomain ← array 32
    let serviceKey ← array 32
    let actionSelector ← array 8
    let controller ← ownership
    let actAs ← (do
      match ← u8 with
      | 0 => pure none
      | 1 => do
        let owner ← ownership
        pure (some owner)
      | _ => throw .invalidEnvelope : EnvelopeReader (Option Ownership))
    let nonce ← u64
    let validUntil ← u64
    let payloadHash ← array 32
    let authorizationProof ← bytesU32Limited maxAuthorizationProofBytes
    let payload ← bytesU32
    pure { version, networkDomain, serviceKey, actionSelector, controller, actAs, nonce, validUntil,
           payloadHash, authorizationProof, payload, encoded := bytes }) bytes

/-! ## Verification -/

/-- What is known of an action of version 1 once it is verified. -/
structure VerifiedAction where
  sender : FixedBytes 32
  actionHash : FixedBytes 32
  actionSelector : FixedBytes 8
  nonce : UInt64
  validUntil : UInt64
  payload : Bytes
  deriving DecidableEq

/-- What is known of an action of version 2 once it is verified. -/
structure VerifiedOwnershipAction where
  owner : Ownership
  controller : Ownership
  actionHash : FixedBytes 32
  actionSelector : FixedBytes 8
  nonce : UInt64
  validUntil : UInt64
  payload : Bytes
  deriving DecidableEq

/-- The alphabet for URLs and file names, section 5 of RFC 4648. -/
def base64Alphabet : Bytes :=
  ascii "ABCDEFGHIJKLMNOPQRSTUVWXYZabcdefghijklmnopqrstuvwxyz0123456789-_"

/-- The character of a 6-bit group. -/
def base64Char (group : UInt8) : UInt8 := base64Alphabet.getD group.toNat 0

/-- `URL_SAFE_NO_PAD.encode` of the `base64` crate, which follows RFC 4648: three bytes are four
groups of six bits, a group that is begun is filled with zeros, and no padding follows. -/
def urlSafeNoPad : Bytes → Bytes
  | a :: b :: c :: rest =>
    [base64Char (a >>> 2), base64Char ((a &&& 3) <<< 4 ||| b >>> 4),
      base64Char ((b &&& 15) <<< 2 ||| c >>> 6), base64Char (c &&& 63)] ++ urlSafeNoPad rest
  | [a, b] =>
    [base64Char (a >>> 2), base64Char ((a &&& 3) <<< 4 ||| b >>> 4), base64Char ((b &&& 15) <<< 2)]
  | [a] => [base64Char (a >>> 2), base64Char ((a &&& 3) <<< 4)]
  | [] => []

/-- The text that the controller of a version 2 action signs. -/
def signingMessageV2 (commitment : FixedBytes 32) : Bytes :=
  ascii "JAMSCRIPT_ACTION_V2:" ++ urlSafeNoPad commitment.toList

/-- `map_ownership_auth_error`. -/
def mapOwnershipAuthError : CryptoError → RuntimeError
  | .evmAddressMismatch => .evmAddressMismatch
  | .evmHighS | .invalidEcdsaSignature | .ecdsaRecoveryFailed => .evmInvalidSignature
  | .invalidPolkadotAuthorization | .polkadotAddressMismatch => .polkadotInvalidSignature
  | _ => .invalidOwnershipAuthorization

namespace CryptoLibrary

variable (crypto : CryptoLibrary)

/-- What the wallet signs. -/
def signingDigestV1 (action : SignedActionV1View) : FixedBytes 32 :=
  crypto.blake2_256 (actionDomainV1 ++ [action.version] ++ action.networkDomain.toList ++
    action.serviceKey.toList ++ action.actionSelector.toList ++ [action.signerScheme] ++
    u64ToLe action.nonce ++ u64ToLe action.validUntil ++ action.payloadHash.toList)

/-- `verify_signed_action_v1`. -/
def verifySignedActionV1 (action : SignedActionV1View)
    (expectedNetworkDomain expectedServiceKey : FixedBytes 32)
    (expectedActionSelector : FixedBytes 8) : Except RuntimeError VerifiedAction := do
  ensure (action.version = 1) RuntimeError.unsupportedVersion
  ensure (action.networkDomain = expectedNetworkDomain) RuntimeError.wrongNetwork
  ensure (action.serviceKey = expectedServiceKey) RuntimeError.wrongService
  ensure (action.actionSelector = expectedActionSelector) RuntimeError.unknownAction
  ensure (action.signerScheme = 0) RuntimeError.unsupportedSigner
  ensure (action.publicKey.length = 32 ∧ action.signature.length = 64) RuntimeError.invalidSignature
  ensure (crypto.blake2_256 action.payload = action.payloadHash) RuntimeError.payloadHashMismatch
  let sender ← (crypto.verifySr25519 action.publicKey action.signature
    (crypto.signingDigestV1 action).toList).mapError fun _ => RuntimeError.invalidSignature
  pure { sender
         actionHash := crypto.blake2_256 action.encoded
         actionSelector := action.actionSelector
         nonce := action.nonce
         validUntil := action.validUntil
         payload := action.payload }

/-- The commitment an owner's controller signs. -/
def actionCommitmentV2 (action : SignedActionV2View) : Except RuntimeError (FixedBytes 32) := do
  let controller ← action.controller.encode.mapError fun _ => RuntimeError.invalidOwnershipEncoding
  let actAs ← (match action.actAs with
    | some owner => do
      let owner ← owner.encode.mapError fun _ => RuntimeError.invalidOwnershipEncoding
      pure (1 :: owner)
    | none => pure [0] : Except RuntimeError Bytes)
  pure (crypto.blake2_256 (actionCommitmentDomainV2 ++ action.networkDomain.toList ++
    action.serviceKey.toList ++ action.actionSelector.toList ++ controller ++ actAs ++
    u64ToLe action.nonce ++ u64ToLe action.validUntil ++ action.payloadHash.toList))

/-- The check of the authorization proof, by the kind of the controller. -/
def verifyControllerProof (action : SignedActionV2View) (commitment : FixedBytes 32) :
    Except CryptoError Unit :=
  let message := signingMessageV2 commitment
  match action.controller.kind with
  | .secp256k1Keccak20 => crypto.verifyEvmOwnership action.controller action.authorizationProof
      action.networkDomain commitment
  | .multicryptoAccount32 =>
    crypto.verifyPolkadotOwnership action.controller action.authorizationProof message
  | _ => crypto.verifyOwnership action.controller action.authorizationProof message

/-- `verify_signed_action_v2`. -/
def verifySignedActionV2 (action : SignedActionV2View)
    (expectedNetworkDomain expectedServiceKey : FixedBytes 32)
    (expectedActionSelector : FixedBytes 8) (expectedNonce : Option UInt64) :
    Except RuntimeError VerifiedOwnershipAction := do
  ensure (action.networkDomain = expectedNetworkDomain) RuntimeError.wrongNetwork
  ensure (action.serviceKey = expectedServiceKey) RuntimeError.wrongService
  ensure (action.actionSelector = expectedActionSelector) RuntimeError.unknownAction
  ensure (crypto.blake2_256 action.payload = action.payloadHash) RuntimeError.payloadHashMismatch
  ensure (expectedNonce = none ∨ expectedNonce = some action.nonce)
    RuntimeError.ownershipNonceMismatch
  ensure (action.actAs = none) RuntimeError.actAsUnsupported
  ensure (action.authorizationProof ≠ []) RuntimeError.invalidOwnershipAuthorization
  let commitment ← crypto.actionCommitmentV2 action
  (crypto.verifyControllerProof action commitment).mapError mapOwnershipAuthError
  pure { owner := action.controller
         controller := action.controller
         actionHash := crypto.blake2_256 action.encoded
         actionSelector := action.actionSelector
         nonce := action.nonce
         validUntil := action.validUntil
         payload := action.payload }

/-- A verified action names the signer of its digest and carries the nonce of the envelope. -/
theorem verifySignedActionV1_eq_ok {crypto : CryptoLibrary} {action : SignedActionV1View}
    {networkDomain serviceKey : FixedBytes 32} {selector : FixedBytes 8} {verified : VerifiedAction}
    (h : crypto.verifySignedActionV1 action networkDomain serviceKey selector = .ok verified) :
    crypto.verifySr25519 action.publicKey action.signature (crypto.signingDigestV1 action).toList
      = .ok verified.sender ∧ verified.nonce = action.nonce := by
  obtain ⟨_, _, h⟩ := bind_eq_ok.mp h
  obtain ⟨_, _, h⟩ := bind_eq_ok.mp h
  obtain ⟨_, _, h⟩ := bind_eq_ok.mp h
  obtain ⟨_, _, h⟩ := bind_eq_ok.mp h
  obtain ⟨_, _, h⟩ := bind_eq_ok.mp h
  obtain ⟨_, _, h⟩ := bind_eq_ok.mp h
  obtain ⟨_, _, h⟩ := bind_eq_ok.mp h
  obtain ⟨sender, hsender, h⟩ := bind_eq_ok.mp h
  rw [mapError_eq_ok] at hsender
  cases h
  exact ⟨hsender, rfl⟩

/-- A verified action carries the nonce it was checked against. -/
theorem verifySignedActionV2_nonce {crypto : CryptoLibrary} {action : SignedActionV2View}
    {networkDomain serviceKey : FixedBytes 32} {selector : FixedBytes 8} {nonce : UInt64}
    {verified : VerifiedOwnershipAction}
    (h : crypto.verifySignedActionV2 action networkDomain serviceKey selector (some nonce)
      = .ok verified) : action.nonce = nonce := by
  obtain ⟨_, _, h⟩ := bind_eq_ok.mp h
  obtain ⟨_, _, h⟩ := bind_eq_ok.mp h
  obtain ⟨_, _, h⟩ := bind_eq_ok.mp h
  obtain ⟨_, _, h⟩ := bind_eq_ok.mp h
  obtain ⟨_, hnonce, _⟩ := bind_eq_ok.mp h
  rw [ensure_eq_ok] at hnonce
  rcases hnonce with hnone | hsome
  · cases hnone
  · exact (Option.some.inj hsome).symm

end CryptoLibrary

/-! ## Nonce keys -/

/-- `nonce_key`: the key of a wallet account's nonce. -/
def nonceKey (account : FixedBytes 32) : Bytes :=
  [runtimeKeyClassV1, walletAuthModuleV1] ++ account.toList

/-- `ownership_nonce_key`: the key of a controller's nonce. -/
def ownershipNonceKey (blake2_256 : Bytes → FixedBytes 32) (owner : Ownership) :
    Except RuntimeError Bytes := do
  let key ← (owner.key blake2_256).mapError fun _ => RuntimeError.invalidOwnershipEncoding
  pure ([runtimeKeyClassV1, walletAuthModuleV1] ++ ownershipNonceSchemaV1 ++ key.toList)

/-- A valid owner has a nonce key. -/
theorem ownershipNonceKey_of_validate (blake2_256 : Bytes → FixedBytes 32) {owner : Ownership}
    (h : owner.validate = .ok ()) : ∃ key, ownershipNonceKey blake2_256 owner = .ok key := by
  obtain ⟨encoded, hencoded⟩ := Ownership.encode_of_validate h
  unfold ownershipNonceKey Ownership.key
  rw [hencoded]
  exact ⟨_, rfl⟩

/-! ## Values that the fixtures share -/

def pingSelector : FixedBytes 8 := ⟨[1, 2, 3, 4, 5, 6, 7, 8], rfl⟩

/-- The hash of the payload `[42]`. -/
def pingPayloadHash : FixedBytes 32 :=
  ⟨[0x39, 0x5a, 0x12, 0x2e, 0xb1, 0x40, 0x2b, 0xf2, 0x56, 0xd8, 0x6e, 0x3f, 0xa4, 0x47, 0x64, 0xcf,
    0x9a, 0xcc, 0x55, 0x90, 0x17, 0xa0, 0x0b, 0x2b, 0x9e, 0xe1, 0x24, 0x98, 0xe7, 0x3e, 0xf2, 0xb5],
    rfl⟩

end JamScript
