import JamScript.Auth.Ownership

/-!
# Signature checks

`jamscript-crypto`: the checks that tie a signed message to an ownership value. The curve and hash
libraries are a parameter, `CryptoLibrary`; the code around them (which bytes are signed, in which
order inputs are rejected, and with which error) is given as the source has it.
-/

namespace JamScript

open Codec

/-- The operations of the curve and hash crates that the runtime calls. -/
structure CryptoLibrary where
  blake2_256 : Bytes → FixedBytes 32
  keccak256 : Bytes → FixedBytes 32
  /-- `schnorrkel::PublicKey::from_bytes`, by the bytes of the key it returns. -/
  sr25519PublicKey : Bytes → Option (FixedBytes 32)
  sr25519Signature : Bytes → Bool
  /-- Verification of a message under a signing context. -/
  sr25519Verify : Bytes → FixedBytes 32 → Bytes → Bytes → Bool
  ed25519VerifyingKey : FixedBytes 32 → Bool
  ed25519Signature : Bytes → Bool
  ed25519Verify : FixedBytes 32 → Bytes → Bytes → Bool
  /-- The 64 bytes are a compact ECDSA signature. -/
  ecdsaSignature : Bytes → Bool
  /-- `normalize_s` has something to normalise. -/
  ecdsaHighS : Bytes → Bool
  /-- `recover_from_prehash`, by the compressed point of the key it returns. -/
  recoverFromPrehash : FixedBytes 32 → Bytes → UInt8 → Option (FixedBytes 33)
  /-- The uncompressed point of a key given by its compressed point. -/
  uncompressedPoint : FixedBytes 33 → Option (FixedBytes 65)

/-- Why a proof of ownership is refused. -/
inductive CryptoError where
  | invalidPublicKey
  | invalidSignature
  | verificationFailed
  | invalidEd25519PublicKey
  | invalidEd25519Signature
  | ed25519VerificationFailed
  | invalidEcdsaSignature
  | ecdsaRecoveryFailed
  | unsupportedOwnershipKind
  | invalidPolkadotAuthorization
  | polkadotAddressMismatch
  | evmHighS
  | evmAddressMismatch
  deriving DecidableEq, Repr

def sr25519Context : Bytes := ascii "substrate"

/-- The bytes as an array, when there are exactly `n` of them. -/
def tryIntoArray (n : ℕ) (bytes : Bytes) : Option (FixedBytes n) :=
  if h : bytes.length = n then some ⟨bytes, h⟩ else none

namespace CryptoLibrary

variable (crypto : CryptoLibrary)

/-- `verify_sr25519`. -/
def verifySr25519 (publicKey signature message : Bytes) : Except CryptoError (FixedBytes 32) :=
  match crypto.sr25519PublicKey publicKey with
  | none => .error .invalidPublicKey
  | some key =>
    if ¬ crypto.sr25519Signature signature then .error .invalidSignature
    else if ¬ crypto.sr25519Verify sr25519Context key message signature then
      .error .verificationFailed
    else .ok key

/-- `verify_ed25519`. -/
def verifyEd25519 (publicKey signature message : Bytes) : Except CryptoError (FixedBytes 32) :=
  match tryIntoArray 32 publicKey with
  | none => .error .invalidEd25519PublicKey
  | some key =>
    if ¬ crypto.ed25519VerifyingKey key then .error .invalidEd25519PublicKey
    else if ¬ crypto.ed25519Signature signature then .error .invalidEd25519Signature
    else if ¬ crypto.ed25519Verify key message signature then .error .ed25519VerificationFailed
    else .ok key

/-- The recovery id of a wire signature: 0 or 1, also written 27 or 28. -/
def recoveryId (byte : UInt8) : Option UInt8 :=
  if byte = 0 ∨ byte = 1 then some byte
  else if byte = 27 ∨ byte = 28 then some (byte - 27)
  else none

/-- `recover_secp256k1`. -/
def recoverSecp256k1 (digest : FixedBytes 32) (signature : Bytes) :
    Except CryptoError (FixedBytes 33) :=
  if signature.length ≠ 65 then .error .invalidEcdsaSignature
  else
    let ecdsa := signature.take 64
    if ¬ crypto.ecdsaSignature ecdsa then .error .invalidEcdsaSignature
    else if crypto.ecdsaHighS ecdsa then .error .evmHighS
    else
      match signature[64]?.bind recoveryId with
      | none => .error .invalidEcdsaSignature
      | some recovery =>
        match crypto.recoverFromPrehash digest ecdsa recovery with
        | none => .error .ecdsaRecoveryFailed
        | some key => .ok key

/-- The EIP-712 digest of an action commitment; the network domain is the salt. -/
def evmActionDigest (networkDomain commitment : FixedBytes 32) : FixedBytes 32 :=
  let domainType :=
    crypto.keccak256 (ascii "EIP712Domain(string name,string version,bytes32 salt)")
  let name := crypto.keccak256 (ascii "JamScript")
  let version := crypto.keccak256 (ascii "1")
  let domainSeparator := crypto.keccak256
    (domainType.toList ++ name.toList ++ version.toList ++ networkDomain.toList)
  let actionType := crypto.keccak256 (ascii "JamScriptAction(bytes32 commitment)")
  let structHash := crypto.keccak256 (actionType.toList ++ commitment.toList)
  crypto.keccak256 ([0x19, 0x01] ++ domainSeparator.toList ++ structHash.toList)

/-- The address of a recovered key: the last 20 bytes of the hash of its point. -/
def evmAddress (recovered : FixedBytes 33) : Except CryptoError Bytes :=
  match crypto.uncompressedPoint recovered with
  | none => .error .ecdsaRecoveryFailed
  | some point => .ok ((crypto.keccak256 (point.toList.drop 1)).toList.drop 12)

/-- `verify_evm_ownership`. -/
def verifyEvmOwnership (ownership : Ownership) (signature : Bytes)
    (networkDomain commitment : FixedBytes 32) : Except CryptoError Unit := do
  ensure (ownership.kind = .secp256k1Keccak20) CryptoError.unsupportedOwnershipKind
  let recovered ←
    crypto.recoverSecp256k1 (crypto.evmActionDigest networkDomain commitment) signature
  let address ← crypto.evmAddress recovered
  ensure (address = ownership.publicValue) CryptoError.evmAddressMismatch

/-- What `signRaw` of the browser extensions signs. -/
def polkadotSignRawMessage (message : Bytes) : Bytes :=
  ascii "<Bytes>" ++ message ++ ascii "</Bytes>"

/-- The loop over the candidate messages of a recoverable signature. -/
def matchRecovered (publicValue signature : Bytes) :
    List Bytes → Bool → Option CryptoError → Except CryptoError Unit
  | [], recoveredAny, recoveryError =>
    match recoveredAny, recoveryError with
    | false, some error => .error error
    | _, _ => .error .polkadotAddressMismatch
  | candidate :: candidates, recoveredAny, recoveryError =>
    match crypto.recoverSecp256k1 (crypto.blake2_256 candidate) signature with
    | .ok recovered =>
      if (crypto.blake2_256 recovered.toList).toList = publicValue then .ok ()
      else matchRecovered publicValue signature candidates true recoveryError
    | .error error =>
      matchRecovered publicValue signature candidates recoveredAny (recoveryError.or (some error))

/-- `verify_polkadot_ownership`. -/
def verifyPolkadotOwnership (ownership : Ownership) (authorizationProof message : Bytes) :
    Except CryptoError Unit := do
  ensure (ownership.kind = .multicryptoAccount32 ∧ ownership.publicValue.length = 32)
    CryptoError.invalidPolkadotAuthorization
  let wrappedMessage := polkadotSignRawMessage message
  match authorizationProof with
  | [] => .error .invalidPolkadotAuthorization
  | scheme :: signature =>
    if scheme = 0 then
      ensure (signature.length = 64 ∧
          ((crypto.verifyEd25519 ownership.publicValue signature message).isOk ∨
            (crypto.verifyEd25519 ownership.publicValue signature wrappedMessage).isOk))
        CryptoError.invalidPolkadotAuthorization
    else if scheme = 1 then
      ensure (signature.length = 64 ∧
          ((crypto.verifySr25519 ownership.publicValue signature message).isOk ∨
            (crypto.verifySr25519 ownership.publicValue signature wrappedMessage).isOk))
        CryptoError.invalidPolkadotAuthorization
    else if scheme = 2 then do
      ensure (signature.length = 65) CryptoError.invalidPolkadotAuthorization
      crypto.matchRecovered ownership.publicValue signature [message, wrappedMessage] false none
    else .error .invalidPolkadotAuthorization

/-- `verify_ownership`. -/
def verifyOwnership (ownership : Ownership) (signature message : Bytes) :
    Except CryptoError Unit := do
  ownership.validate.mapError fun _ => CryptoError.unsupportedOwnershipKind
  match ownership.kind with
  | .ed25519Key => do
    let _ ← crypto.verifyEd25519 ownership.publicValue signature message
  | .sr25519Key => do
    let _ ← crypto.verifySr25519 ownership.publicValue signature message
  | .secp256k1Key => do
    let recovered ← crypto.recoverSecp256k1 (crypto.blake2_256 message) signature
    ensure (recovered.toList = ownership.publicValue) CryptoError.ecdsaRecoveryFailed
  | .secp256k1Keccak20 => do
    let recovered ← crypto.recoverSecp256k1 (crypto.blake2_256 message) signature
    let address ← crypto.evmAddress recovered
    ensure (address = ownership.publicValue) CryptoError.ecdsaRecoveryFailed
  | .multicryptoAccount32 => crypto.verifyPolkadotOwnership ownership signature message

end CryptoLibrary

end JamScript
