import JamScript.Auth.SignedAction

/-!
# The envelope formats

What a signed action says, without the byte string it was read from, and the one byte string that
says it. The guest's decoders accept exactly these byte strings (`decodeSignedActionV1_eq_ok`,
`decodeSignedActionV2_eq_ok`), so every other reader or writer of envelopes is compared with the
format and never with the guest's code.
-/

namespace JamScript

open Codec

/-! ## Version 1 -/

structure EnvelopeV1 where
  version : UInt8
  networkDomain : FixedBytes 32
  serviceKey : FixedBytes 32
  actionSelector : FixedBytes 8
  signerScheme : UInt8
  publicKey : Bytes
  nonce : UInt64
  validUntil : UInt64
  payloadHash : FixedBytes 32
  signature : Bytes
  payload : Bytes
  deriving DecidableEq

namespace EnvelopeV1

def bytes (envelope : EnvelopeV1) : Bytes :=
  [envelope.version] ++ (envelope.networkDomain.toList ++ (envelope.serviceKey.toList ++
    (envelope.actionSelector.toList ++ ([envelope.signerScheme] ++
      ((UInt8.ofNat envelope.publicKey.length :: envelope.publicKey) ++ (u64ToLe envelope.nonce ++
        (u64ToLe envelope.validUntil ++ (envelope.payloadHash.toList ++
          ((UInt8.ofNat envelope.signature.length :: envelope.signature) ++
            (u32ToLe (UInt32.ofNat envelope.payload.length) ++ envelope.payload))))))))))

/-- The bounds of the format. -/
structure Fits (envelope : EnvelopeV1) : Prop where
  version : envelope.version = 1
  publicKey : envelope.publicKey.length ≤ 32
  signature : envelope.signature.length ≤ 64
  payload : envelope.payload.length ≤ maxActionBytes

end EnvelopeV1

def SignedActionV1View.contents (view : SignedActionV1View) : EnvelopeV1 where
  version := view.version
  networkDomain := view.networkDomain
  serviceKey := view.serviceKey
  actionSelector := view.actionSelector
  signerScheme := view.signerScheme
  publicKey := view.publicKey
  nonce := view.nonce
  validUntil := view.validUntil
  payloadHash := view.payloadHash
  signature := view.signature
  payload := view.payload

theorem maxActionBytes_lt : maxActionBytes < 2 ^ 32 := by decide

theorem maxAuthorizationProofBytes_lt : maxAuthorizationProofBytes < 2 ^ 32 := by decide

namespace EnvelopeReader

variable {bytes rest : Bytes}

theorem u8_iff {byte : UInt8} : u8 bytes = .ok (byte, rest) ↔ bytes = [byte] ++ rest :=
  (Parser.recognizes_u8 _).total_eq_ok

theorem u64_iff {value : UInt64} : u64 bytes = .ok (value, rest) ↔ bytes = u64ToLe value ++ rest :=
  (Parser.recognizes_u64 _).total_eq_ok

theorem array_iff {n : ℕ} {value : FixedBytes n} :
    array n bytes = .ok (value, rest) ↔ bytes = value.toList ++ rest := Parser.array_eq_ok

theorem bytesU8_iff {value : Bytes} : bytesU8 bytes = .ok (value, rest) ↔
    value.length < 2 ^ 8 ∧ bytes = UInt8.ofNat value.length :: value ++ rest :=
  (Parser.recognizes_bytesU8 _).eq_ok

theorem bytesU32Limited_iff {limit : ℕ} (hlimit : limit < 2 ^ 32) {value : Bytes} :
    bytesU32Limited limit bytes = .ok (value, rest) ↔
      value.length ≤ limit ∧ bytes = u32ToLe (UInt32.ofNat value.length) ++ value ++ rest :=
  (Parser.recognizes_bytesU32 _ _ hlimit).eq_ok

end EnvelopeReader

/-- The selector of either envelope stands behind the version and two 32-byte names. -/
theorem selector_of_header (version : UInt8) (networkDomain serviceKey : FixedBytes 32)
    (selector : FixedBytes 8) (rest : Bytes) :
    (([version] ++
      (networkDomain.toList ++ (serviceKey.toList ++ (selector.toList ++ rest)))).drop 65).take 8 =
      selector.toList := by
  have hlong : ([version] ++ networkDomain.toList ++ serviceKey.toList).length = 65 := by simp
  rw [← List.append_assoc, ← List.append_assoc, List.drop_left' hlong]
  exact List.take_left' selector.toList_length

/-- The guest accepts the envelopes of the format that are short enough as a whole. -/
theorem decodeSignedActionV1_eq_ok {input : Bytes} {view : SignedActionV1View} :
    decodeSignedActionV1 input = .ok view ↔ view.encoded = input ∧ view.contents.bytes = input ∧
      view.contents.Fits ∧ input.length ≤ maxActionBytes := by
  simp only [decodeSignedActionV1, bind_eq_ok, ensure_eq_ok, exists_const, Parser.whole_eq_ok,
    Parser.bind_eq_ok, Parser.check_eq_ok, Parser.pure_eq_ok, EnvelopeReader.u8_iff,
    EnvelopeReader.array_iff, EnvelopeReader.u64_iff, EnvelopeReader.bytesU8_iff,
    EnvelopeReader.bytesU32,
    EnvelopeReader.bytesU32Limited_iff maxActionBytes_lt]
  constructor
  · rintro ⟨hlength, _, ⟨_, _, hinput, _, ⟨hversion, rfl⟩, _, _, rfl, _, _, rfl, _, _, rfl,
      _, _, rfl, _, _,
      ⟨-, rfl⟩, _, _, rfl, _, _, rfl, _, _, rfl, _, _, ⟨-, rfl⟩, _, _, ⟨hpayload, rfl⟩, rfl, rfl⟩,
      ⟨hkey, hsignature⟩, h⟩
    cases h
    rw [List.append_nil] at hinput
    exact ⟨rfl, hinput.symm, ⟨hversion, hkey, hsignature, hpayload⟩, hlength⟩
  · rintro ⟨rfl, hbytes, hfits, hlength⟩
    have hkey : view.publicKey.length < 2 ^ 8 := hfits.publicKey.trans_lt (by decide)
    have hsignature : view.signature.length < 2 ^ 8 := hfits.signature.trans_lt (by decide)
    exact ⟨hlength, view, ⟨_, _, hbytes.symm, _, ⟨hfits.version, rfl⟩, _, _, rfl, _, _, rfl,
      _, _, rfl, _, _,
      rfl, _, _, ⟨hkey, rfl⟩, _, _, rfl, _, _, rfl, _, _, rfl, _, _, ⟨hsignature, rfl⟩, _, [],
      ⟨hfits.payload, (List.append_nil _).symm⟩, rfl, rfl⟩, ⟨hfits.publicKey, hfits.signature⟩, rfl⟩

theorem decodeSignedActionV1_selector {bytes : Bytes} {signed : SignedActionV1View}
    (h : decodeSignedActionV1 bytes = .ok signed) :
    (bytes.drop 65).take 8 = signed.actionSelector.toList := by
  obtain ⟨-, hbytes, -⟩ := decodeSignedActionV1_eq_ok.mp h
  rw [← hbytes]
  exact selector_of_header ..

/-! ## Version 2 -/

structure EnvelopeV2 where
  version : UInt8
  networkDomain : FixedBytes 32
  serviceKey : FixedBytes 32
  actionSelector : FixedBytes 8
  controller : Ownership
  actAs : Option Ownership
  nonce : UInt64
  validUntil : UInt64
  payloadHash : FixedBytes 32
  authorizationProof : Bytes
  payload : Bytes
  deriving DecidableEq

/-- An ownership value behind the length of its encoding. -/
def ownershipField (ownership : Ownership) : Bytes :=
  u16ToLe (UInt16.ofNat ownership.bytes.length) ++ ownership.bytes

def actAsField : Option Ownership → Bytes
  | none => [0]
  | some owner => 1 :: ownershipField owner

namespace EnvelopeV2

def bytes (envelope : EnvelopeV2) : Bytes :=
  [envelope.version] ++ (envelope.networkDomain.toList ++ (envelope.serviceKey.toList ++
    (envelope.actionSelector.toList ++ (ownershipField envelope.controller ++
      (actAsField envelope.actAs ++ (u64ToLe envelope.nonce ++ (u64ToLe envelope.validUntil ++
        (envelope.payloadHash.toList ++
          ((u32ToLe (UInt32.ofNat envelope.authorizationProof.length) ++
            envelope.authorizationProof) ++
            (u32ToLe (UInt32.ofNat envelope.payload.length) ++ envelope.payload))))))))))

/-- The bounds of the format. -/
structure Fits (envelope : EnvelopeV2) : Prop where
  version : envelope.version = 2
  controller : envelope.controller.validate = .ok ()
  actAs : ∀ owner ∈ envelope.actAs, owner.validate = .ok ()
  authorizationProof : envelope.authorizationProof.length ≤ maxAuthorizationProofBytes
  payload : envelope.payload.length ≤ maxActionBytes

end EnvelopeV2

def SignedActionV2View.contents (view : SignedActionV2View) : EnvelopeV2 where
  version := view.version
  networkDomain := view.networkDomain
  serviceKey := view.serviceKey
  actionSelector := view.actionSelector
  controller := view.controller
  actAs := view.actAs
  nonce := view.nonce
  validUntil := view.validUntil
  payloadHash := view.payloadHash
  authorizationProof := view.authorizationProof
  payload := view.payload

/-- Reading a length and an encoded value accepts the valid ownership values, whatever the errors
are called. -/
theorem recognizes_ownership {ε : Type} (eof : ε) (onError : OwnershipError → ε) :
    Recognizes (do
        let bytes ← Parser.bytesU16 eof
        (Ownership.decode bytes).mapError onError : Parser ε Ownership)
      ownershipField fun owner => owner.validate = .ok () := by
  constructor
  intro bs rest owner
  rw [Parser.bind_eq_ok]
  constructor
  · rintro ⟨encoded, mid, hread, h⟩
    obtain ⟨hdecode, rfl⟩ := Parser.lift_eq_ok.mp h
    rw [mapError_eq_ok, Ownership.decode_eq_ok, Ownership.encode_eq_ok_iff] at hdecode
    obtain ⟨hvalid, rfl⟩ := hdecode
    exact ⟨hvalid, ((Parser.recognizes_bytesU16 eof).eq_ok.mp hread).2⟩
  · rintro ⟨hvalid, rfl⟩
    refine ⟨owner.bytes, rest, (Parser.recognizes_bytesU16 eof).eq_ok.mpr
      ⟨Ownership.length_bytes_lt hvalid, rfl⟩, Parser.lift_eq_ok.mpr ⟨?_, rfl⟩⟩
    rw [mapError_eq_ok, Ownership.decode_eq_ok, Ownership.encode_eq_ok_iff]
    exact ⟨hvalid, rfl⟩

/-- The flag and the owner acted for, whatever the readers' errors are called. -/
theorem recognizes_actAs {ε : Type} (eof badFlag : ε) {owner : Parser ε Ownership}
    (howner : Recognizes owner ownershipField fun owner => owner.validate = .ok ()) :
    Recognizes (do
        match ← Parser.u8 eof with
        | 0 => pure none
        | 1 => do
          let owner ← owner
          pure (some owner)
        | _ => throw badFlag : Parser ε (Option Ownership))
      actAsField fun actAs => ∀ owner ∈ actAs, owner.validate = .ok () := by
  constructor
  intro bs rest actAs
  rw [Parser.bind_eq_ok]
  constructor
  · rintro ⟨flag, mid, hflag, h⟩
    obtain ⟨-, rfl⟩ := (Parser.recognizes_u8 eof).eq_ok.mp hflag
    split at h
    · obtain ⟨rfl, rfl⟩ := Parser.pure_eq_ok.mp h
      exact ⟨nofun, rfl⟩
    · obtain ⟨value, _, hvalue, hpure⟩ := Parser.bind_eq_ok.mp h
      obtain ⟨rfl, rfl⟩ := Parser.pure_eq_ok.mp hpure
      obtain ⟨hvalid, rfl⟩ := howner.eq_ok.mp hvalue
      exact ⟨fun _ hmem => Option.some.inj hmem ▸ hvalid, rfl⟩
    · cases h
  · rintro ⟨hvalid, rfl⟩
    cases actAs with
    | none => exact ⟨0, rest, (Parser.recognizes_u8 eof).eq_ok.mpr ⟨trivial, rfl⟩, rfl⟩
    | some value =>
      exact ⟨1, _, (Parser.recognizes_u8 eof).eq_ok.mpr ⟨trivial, rfl⟩, Parser.bind_eq_ok.mpr
        ⟨value, rest, howner.eq_ok.mpr ⟨hvalid value rfl, rfl⟩, rfl⟩⟩

/-- The guest accepts the envelopes of the format that are short enough as a whole. -/
theorem decodeSignedActionV2_eq_ok {input : Bytes} {view : SignedActionV2View} :
    decodeSignedActionV2 input = .ok view ↔ view.encoded = input ∧ view.contents.bytes = input ∧
      view.contents.Fits ∧ input.length ≤ maxActionBytes := by
  have howner : Recognizes EnvelopeReader.ownership ownershipField
      fun owner => owner.validate = .ok () := recognizes_ownership _ _
  simp only [decodeSignedActionV2, bind_eq_ok, ensure_eq_ok, exists_const, Parser.whole_eq_ok,
    Parser.bind_eq_ok, Parser.check_eq_ok, Parser.pure_eq_ok, EnvelopeReader.array_iff,
    EnvelopeReader.u64_iff, howner.eq_ok, EnvelopeReader.bytesU32,
    EnvelopeReader.bytesU32Limited_iff maxAuthorizationProofBytes_lt,
    EnvelopeReader.bytesU32Limited_iff maxActionBytes_lt]
  constructor
  · rintro ⟨hlength, _, _, hinput, _, ⟨hversion, rfl⟩, _, _, rfl, _, _, rfl, _, _, rfl, _, _,
      ⟨hcontroller, rfl⟩, _, _, hread, _, _, rfl, _, _, rfl, _, _, rfl, _, _, ⟨hproof, rfl⟩, _, _,
      ⟨hpayload, rfl⟩, rfl, rfl⟩
    obtain ⟨hactAs, rfl⟩ := (recognizes_actAs _ _ howner).eq_ok.mp (Parser.bind_eq_ok.mpr hread)
    rw [EnvelopeReader.u8_iff, List.append_nil] at hinput
    exact ⟨rfl, hinput.symm, ⟨hversion, hcontroller, hactAs, hproof, hpayload⟩, hlength⟩
  · rintro ⟨rfl, hbytes, hfits, hlength⟩
    exact ⟨hlength, _, _, EnvelopeReader.u8_iff.mpr hbytes.symm, _, ⟨hfits.version, rfl⟩, _, _,
      rfl, _, _, rfl,
      _, _, rfl, _, _, ⟨hfits.controller, rfl⟩, _, _,
      Parser.bind_eq_ok.mp ((recognizes_actAs _ _ howner).eq_ok.mpr ⟨hfits.actAs, rfl⟩), _, _, rfl,
      _, _, rfl, _, _,
      rfl, _, _, ⟨hfits.authorizationProof, rfl⟩, _, [], ⟨hfits.payload, (List.append_nil _).symm⟩,
      rfl, rfl⟩

theorem decodeSignedActionV2_selector {bytes : Bytes} {signed : SignedActionV2View}
    (h : decodeSignedActionV2 bytes = .ok signed) :
    (bytes.drop 65).take 8 = signed.actionSelector.toList ∧
      signed.controller.validate = .ok () := by
  obtain ⟨-, hbytes, hfits, -⟩ := decodeSignedActionV2_eq_ok.mp h
  rw [← hbytes]
  exact ⟨selector_of_header .., hfits.controller⟩

/-! ## What is signed -/

/-- What is hashed into the digest of a version 1 envelope. -/
def EnvelopeV1.digestPreimage (envelope : EnvelopeV1) : Bytes :=
  actionDomainV1 ++ [envelope.version] ++ envelope.networkDomain.toList ++
    envelope.serviceKey.toList ++ envelope.actionSelector.toList ++ [envelope.signerScheme] ++
    u64ToLe envelope.nonce ++ u64ToLe envelope.validUntil ++ envelope.payloadHash.toList

/-- The owner acted for, in the commitment: without a length. -/
def actAsCommitted : Option Ownership → Bytes
  | none => [0]
  | some owner => 1 :: owner.bytes

/-- What is hashed into the commitment of a version 2 envelope. -/
def EnvelopeV2.commitmentPreimage (envelope : EnvelopeV2) : Bytes :=
  actionCommitmentDomainV2 ++ envelope.networkDomain.toList ++ envelope.serviceKey.toList ++
    envelope.actionSelector.toList ++ envelope.controller.bytes ++ actAsCommitted envelope.actAs ++
    u64ToLe envelope.nonce ++ u64ToLe envelope.validUntil ++ envelope.payloadHash.toList

/-- An owner that is written behind a flag, for writers that fail on invalid owners. -/
theorem flagged_eq_ok {ε : Type} {encode : Ownership → Except ε Bytes}
    (hencode : ∀ {owner encoded}, encode owner = .ok encoded ↔
      owner.validate = .ok () ∧ encoded = owner.bytes)
    (flagged : Option Ownership → Bytes) (write : Bytes → Bytes) (hnone : flagged none = [0])
    (hsome : ∀ owner, flagged (some owner) = write owner.bytes) {actAs : Option Ownership}
    {field : Bytes} :
    (match actAs with
      | some owner => do
        let owner ← encode owner
        pure (write owner)
      | none => pure [0] : Except ε Bytes) = .ok field ↔
      (∀ owner ∈ actAs, owner.validate = .ok ()) ∧ field = flagged actAs := by
  cases actAs with
  | none => exact ⟨fun h => ⟨nofun, (Except.ok.inj h).symm.trans hnone.symm⟩, fun h =>
    h.2 ▸ hnone ▸ rfl⟩
  | some owner =>
    dsimp only
    rw [bind_eq_ok, hsome]
    constructor
    · rintro ⟨encoded, hencoded, h⟩
      obtain ⟨hvalid, rfl⟩ := hencode.mp hencoded
      exact ⟨fun _ hmem => Option.some.inj hmem ▸ hvalid, (Except.ok.inj h).symm⟩
    · rintro ⟨hvalid, rfl⟩
      exact ⟨owner.bytes, hencode.mpr ⟨hvalid owner rfl, rfl⟩, rfl⟩

namespace CryptoLibrary

theorem signingDigestV1_eq (crypto : CryptoLibrary) (view : SignedActionV1View) :
    crypto.signingDigestV1 view = crypto.blake2_256 view.contents.digestPreimage := rfl

theorem actionCommitmentV2_eq_ok {crypto : CryptoLibrary} {view : SignedActionV2View}
    {commitment : FixedBytes 32} :
    crypto.actionCommitmentV2 view = .ok commitment ↔ view.controller.validate = .ok () ∧
      (∀ owner ∈ view.actAs, owner.validate = .ok ()) ∧
      commitment = crypto.blake2_256 view.contents.commitmentPreimage := by
  have hencode {owner : Ownership} {encoded : Bytes} :
      (owner.encode.mapError fun _ => RuntimeError.invalidOwnershipEncoding) = .ok encoded ↔
        owner.validate = .ok () ∧ encoded = owner.bytes := by
    rw [mapError_eq_ok, Ownership.encode_eq_ok_iff]
  rw [actionCommitmentV2, bind_eq_ok]
  constructor
  · rintro ⟨_, hcontroller, h⟩
    obtain ⟨_, hactAs, h⟩ := bind_eq_ok.mp h
    obtain ⟨hvalid, rfl⟩ := hencode.mp hcontroller
    obtain ⟨howner, rfl⟩ := (flagged_eq_ok hencode actAsCommitted _ rfl fun _ => rfl).mp hactAs
    exact ⟨hvalid, howner, (Except.ok.inj h).symm⟩
  · rintro ⟨hvalid, howner, rfl⟩
    exact ⟨_, hencode.mpr ⟨hvalid, rfl⟩, bind_eq_ok.mpr ⟨_,
      (flagged_eq_ok hencode actAsCommitted _ rfl fun _ => rfl).mpr ⟨howner, rfl⟩, rfl⟩⟩

end CryptoLibrary

end JamScript
