import JamScript.Auth.Management
import JamScript.State.LeafTrie
import JamScript.Auth.Base64

/-!
# What a signature authorizes

The runtime checks signatures over five kinds of messages: the digest of a version 1 envelope, the
text of a version 2 commitment (also wrapped as browser extensions do, and hashed for recoverable
signatures), its EIP-712 digest, and the digest of a management action. `forms` lists them per
action, each as what is hashed or signed; `accepted_of_authorized` shows that the runtime accepts no
signature over anything else. An action is determined by each of its forms up to what is not signed
(`same_of_form`), and a message determines its form as long as the hashes keep the inputs at hand
apart.
-/

namespace JamScript

open Codec

/-! ## Messages -/

/-- The actions that a signature authorizes. A management action is signed for the network with the
given genesis hash. -/
inductive AuthorizedAction where
  | v1 (view : SignedActionV1View)
  | v2 (view : SignedActionV2View)
  | management (genesisHash : FixedBytes 32) (envelope : ManagementEnvelopeV1)

/-- What a signature is over: a text, or the hash of an input. -/
inductive SignedForm where
  | plain (text : Bytes)
  | blake2 (input : Bytes)
  | keccak (input : Bytes)
  deriving DecidableEq

def SignedForm.message (crypto : CryptoLibrary) : SignedForm → Bytes
  | plain text => text
  | blake2 input => (crypto.blake2_256 input).toList
  | keccak input => (crypto.keccak256 input).toList

namespace CryptoLibrary

variable (crypto : CryptoLibrary)

/-- The input of the struct hash inside the EIP-712 digest. -/
def evmStructInput (commitment : FixedBytes 32) : Bytes :=
  (crypto.keccak256 (ascii "JamScriptAction(bytes32 commitment)")).toList ++ commitment.toList

/-- The input of the EIP-712 digest. -/
def evmDigestInput (networkDomain commitment : FixedBytes 32) : Bytes :=
  [0x19, 0x01] ++ (crypto.keccak256
    ((crypto.keccak256 (ascii "EIP712Domain(string name,string version,bytes32 salt)")).toList ++
      (crypto.keccak256 (ascii "JamScript")).toList ++ (crypto.keccak256 (ascii "1")).toList ++
      networkDomain.toList)).toList ++ (crypto.keccak256 (crypto.evmStructInput commitment)).toList

/-- What the controller of a version 2 action may sign, by its kind. -/
def controllerForms (kind : OwnershipKind) (networkDomain commitment : FixedBytes 32) :
    List SignedForm :=
  let message := signingMessageV2 commitment
  match kind with
  | .ed25519Key | .sr25519Key => [.plain message]
  | .secp256k1Key => [.plain message, .blake2 message]
  | .secp256k1Keccak20 => [.keccak (crypto.evmDigestInput networkDomain commitment)]
  | .multicryptoAccount32 => [.plain message, .plain (polkadotSignRawMessage message),
      .blake2 message, .blake2 (polkadotSignRawMessage message)]

end CryptoLibrary

namespace AuthorizedAction

def forms (crypto : CryptoLibrary) : AuthorizedAction → List SignedForm
  | v1 view => [.blake2 view.contents.digestPreimage]
  | v2 view =>
    match crypto.actionCommitmentV2 view with
    | .ok commitment => crypto.controllerForms view.controller.kind view.networkDomain commitment
    | .error _ => []
  | management genesisHash envelope => [.blake2 (envelope.digestPreimage genesisHash)]

/-- The messages the runtime accepts a signature on. -/
def messages (crypto : CryptoLibrary) (action : AuthorizedAction) : List Bytes :=
  (action.forms crypto).map (·.message crypto)

/-- The same kind of action with the same signed fields. -/
def SameSigned : AuthorizedAction → AuthorizedAction → Prop
  | v1 first, v1 second =>
    first.networkDomain = second.networkDomain ∧ first.serviceKey = second.serviceKey ∧
      first.actionSelector = second.actionSelector ∧ first.nonce = second.nonce ∧
      first.validUntil = second.validUntil ∧ first.payloadHash = second.payloadHash
  | v2 first, v2 second =>
    first.networkDomain = second.networkDomain ∧ first.serviceKey = second.serviceKey ∧
      first.actionSelector = second.actionSelector ∧ first.controller = second.controller ∧
      first.actAs = second.actAs ∧ first.nonce = second.nonce ∧
      first.validUntil = second.validUntil ∧ first.payloadHash = second.payloadHash
  | management genesis first, management genesis' second =>
    genesis = genesis' ∧ first.instanceId = second.instanceId ∧ first.nonce = second.nonce ∧
      first.action = second.action
  | _, _ => False

/-! ## Hashes -/

/-- The inputs of blake2 in the messages of an action. -/
def blake2Inputs (crypto : CryptoLibrary) (action : AuthorizedAction) : Set Bytes :=
  {input | .blake2 input ∈ action.forms crypto} ∪
    {input | ∃ view, action = v2 view ∧ input = view.contents.commitmentPreimage}

/-- The inputs of keccak in the messages of an action that depend on the action. -/
def keccakInputs (crypto : CryptoLibrary) (action : AuthorizedAction) : Set Bytes :=
  {input | .keccak input ∈ action.forms crypto} ∪
    {input | ∃ view commitment, action = v2 view ∧
      crypto.actionCommitmentV2 view = .ok commitment ∧ input = crypto.evmStructInput commitment}

/-- The hashes collide neither with themselves nor with each other on what two actions hash. -/
structure HashesApart (crypto : CryptoLibrary) (first second : AuthorizedAction) : Prop where
  blake2 : Set.InjOn crypto.blake2_256 (first.blake2Inputs crypto ∪ second.blake2Inputs crypto)
  keccak : Set.InjOn crypto.keccak256 (first.keccakInputs crypto ∪ second.keccakInputs crypto)
  apart : ∀ left ∈ first.blake2Inputs crypto ∪ second.blake2Inputs crypto,
    ∀ right ∈ first.keccakInputs crypto ∪ second.keccakInputs crypto,
      crypto.blake2_256 left ≠ crypto.keccak256 right

end AuthorizedAction

/-! ## A message determines its form -/

theorem length_signingMessageV2 (commitment : FixedBytes 32) :
    (signingMessageV2 commitment).length = 63 := by
  rw [signingMessageV2, List.length_append, length_urlSafeNoPad, commitment.toList_length]
  rfl

theorem signingMessageV2_injective : Function.Injective signingMessageV2 := by
  intro left right h
  exact Subtype.ext (urlSafeNoPad_injective (List.append_cancel_left h))

theorem polkadotSignRawMessage_injective :
    Function.Injective CryptoLibrary.polkadotSignRawMessage := by
  intro left right h
  unfold CryptoLibrary.polkadotSignRawMessage at h
  rw [List.append_assoc, List.append_assoc] at h
  exact List.append_cancel_right (List.append_cancel_left h)

theorem length_polkadotSignRawMessage (commitment : FixedBytes 32) :
    (CryptoLibrary.polkadotSignRawMessage (signingMessageV2 commitment)).length = 78 := by
  rw [CryptoLibrary.polkadotSignRawMessage, List.length_append, List.length_append,
    length_signingMessageV2]
  rfl

namespace AuthorizedAction

/-- The forms of a version 2 action, by what they are made of. -/
theorem form_of_v2 {crypto : CryptoLibrary} {view : SignedActionV2View} {form : SignedForm}
    (h : form ∈ (v2 view).forms crypto) : ∃ commitment,
      crypto.actionCommitmentV2 view = .ok commitment ∧
      (form = .plain (signingMessageV2 commitment) ∨
        form = .plain (CryptoLibrary.polkadotSignRawMessage (signingMessageV2 commitment)) ∨
        form = .blake2 (signingMessageV2 commitment) ∨
        form = .blake2 (CryptoLibrary.polkadotSignRawMessage (signingMessageV2 commitment)) ∨
        form = .keccak (crypto.evmDigestInput view.networkDomain commitment)) := by
  simp only [forms] at h
  split at h
  case h_1 commitment hcommitment =>
    refine ⟨commitment, hcommitment, ?_⟩
    unfold CryptoLibrary.controllerForms at h
    split at h <;> simp only [List.mem_cons, List.not_mem_nil, or_false] at h <;> tauto
  case h_2 => exact absurd h List.not_mem_nil

/-- No text that is signed as it is has the length of a hash. -/
theorem length_ne_of_plain {crypto : CryptoLibrary} {action : AuthorizedAction} {text : Bytes}
    (h : .plain text ∈ action.forms crypto) : text.length ≠ 32 := by
  cases action with
  | v1 view => simp [forms] at h
  | management genesisHash envelope => simp [forms] at h
  | v2 view =>
    obtain ⟨commitment, -, h⟩ := form_of_v2 h
    simp only [SignedForm.plain.injEq, reduceCtorEq, or_false] at h
    obtain rfl | rfl := h
    · rw [length_signingMessageV2]
      decide
    · rw [length_polkadotSignRawMessage]
      decide

theorem form_eq_of_message {crypto : CryptoLibrary} {first second : AuthorizedAction}
    (happart : HashesApart crypto first second) {left right : SignedForm}
    (hleft : left ∈ first.forms crypto) (hright : right ∈ second.forms crypto)
    (h : left.message crypto = right.message crypto) : left = right := by
  cases left with
  | plain text =>
    cases right with
    | plain text' => exact congrArg _ h
    | blake2 input =>
      exact absurd ((congrArg List.length h).trans (List.Vector.toList_length _))
        (length_ne_of_plain hleft)
    | keccak input =>
      exact absurd ((congrArg List.length h).trans (List.Vector.toList_length _))
        (length_ne_of_plain hleft)
  | blake2 input =>
    have hinput : input ∈ first.blake2Inputs crypto ∪ second.blake2Inputs crypto :=
      .inl (.inl hleft)
    cases right with
    | plain text =>
      exact absurd ((congrArg List.length h).symm.trans (List.Vector.toList_length _))
        (length_ne_of_plain hright)
    | blake2 input' =>
      rw [happart.blake2 hinput (.inr (.inl hright)) (Subtype.ext h)]
    | keccak input' =>
      exact absurd (Subtype.ext h) (happart.apart input hinput input' (.inr (.inl hright)))
  | keccak input =>
    have hinput : input ∈ first.keccakInputs crypto ∪ second.keccakInputs crypto :=
      .inl (.inl hleft)
    cases right with
    | plain text =>
      exact absurd ((congrArg List.length h).symm.trans (List.Vector.toList_length _))
        (length_ne_of_plain hright)
    | blake2 input' =>
      exact absurd (Subtype.ext h.symm) (happart.apart input' (.inr (.inl hright)) input hinput)
    | keccak input' =>
      rw [happart.keccak hinput (.inr (.inl hright)) (Subtype.ext h)]

end AuthorizedAction

/-! ## A form determines the signed fields -/

theorem EnvelopeV1.digestPreimage_inj {left right : EnvelopeV1}
    (h : left.digestPreimage = right.digestPreimage) :
    left.networkDomain = right.networkDomain ∧ left.serviceKey = right.serviceKey ∧
      left.actionSelector = right.actionSelector ∧ left.nonce = right.nonce ∧
      left.validUntil = right.validUntil ∧ left.payloadHash = right.payloadHash := by
  simp only [digestPreimage, List.append_assoc, List.append_cancel_left_eq, List.cons_append,
    List.nil_append, List.cons.injEq] at h
  obtain ⟨-, h⟩ := h
  obtain ⟨hdomain, h⟩ := Parser.array_append_inj h
  obtain ⟨hservice, h⟩ := Parser.array_append_inj h
  obtain ⟨hselector, h⟩ := Parser.array_append_inj h
  obtain ⟨-, h⟩ := List.cons.inj h
  obtain ⟨hnonce, h⟩ := Parser.u64_append_inj h
  obtain ⟨hvalid, h⟩ := Parser.u64_append_inj h
  exact ⟨hdomain, hservice, hselector, hnonce, hvalid, Subtype.ext h⟩

theorem actAsCommitted_append_inj {left right : Option Ownership} {s t : Bytes}
    (hleft : ∀ owner ∈ left, owner.validate = .ok ())
    (hright : ∀ owner ∈ right, owner.validate = .ok ())
    (h : actAsCommitted left ++ s = actAsCommitted right ++ t) : left = right ∧ s = t := by
  cases left with
  | none =>
    cases right with
    | none => exact ⟨rfl, (List.cons.inj h).2⟩
    | some owner => exact absurd (List.cons.inj h).1 (by decide)
  | some owner =>
    cases right with
    | none => exact absurd (List.cons.inj h).1 (by decide)
    | some owner' =>
      obtain ⟨rfl, rfl⟩ := Ownership.bytes_append_inj (hleft owner rfl) (hright owner' rfl)
        (List.cons.inj h).2
      exact ⟨rfl, rfl⟩

/-- Nothing in the commitment says where an ownership value ends except the value itself. -/
theorem EnvelopeV2.commitmentPreimage_inj {left right : EnvelopeV2}
    (hleft : left.controller.validate = .ok ()) (hright : right.controller.validate = .ok ())
    (hleftActAs : ∀ owner ∈ left.actAs, owner.validate = .ok ())
    (hrightActAs : ∀ owner ∈ right.actAs, owner.validate = .ok ())
    (h : left.commitmentPreimage = right.commitmentPreimage) :
    left.networkDomain = right.networkDomain ∧ left.serviceKey = right.serviceKey ∧
      left.actionSelector = right.actionSelector ∧ left.controller = right.controller ∧
      left.actAs = right.actAs ∧ left.nonce = right.nonce ∧
      left.validUntil = right.validUntil ∧ left.payloadHash = right.payloadHash := by
  simp only [commitmentPreimage, List.append_assoc, List.append_cancel_left_eq] at h
  obtain ⟨hdomain, h⟩ := Parser.array_append_inj h
  obtain ⟨hservice, h⟩ := Parser.array_append_inj h
  obtain ⟨hselector, h⟩ := Parser.array_append_inj h
  obtain ⟨hcontroller, h⟩ := Ownership.bytes_append_inj hleft hright h
  obtain ⟨hactAs, h⟩ := actAsCommitted_append_inj hleftActAs hrightActAs h
  obtain ⟨hnonce, h⟩ := Parser.u64_append_inj h
  obtain ⟨hvalid, h⟩ := Parser.u64_append_inj h
  exact ⟨hdomain, hservice, hselector, hcontroller, hactAs, hnonce, hvalid, Subtype.ext h⟩

theorem ManagementEnvelopeV1.digestPreimage_inj {left right : ManagementEnvelopeV1}
    {genesis genesis' : FixedBytes 32}
    (h : left.digestPreimage genesis = right.digestPreimage genesis') :
    genesis = genesis' ∧ left.instanceId = right.instanceId ∧ left.nonce = right.nonce ∧
      left.action = right.action := by
  simp only [digestPreimage, List.append_assoc, List.append_cancel_left_eq] at h
  obtain ⟨hgenesis, h⟩ := Parser.array_append_inj h
  obtain ⟨hinstance, h⟩ := Parser.array_append_inj h
  obtain ⟨hnonce, h⟩ := Parser.u64_append_inj h
  exact ⟨hgenesis, hinstance, hnonce, ManagementActionV1.encode_injective h⟩

/-- The digest input ends with the hash of the struct, which ends with the commitment. -/
theorem CryptoLibrary.evmDigestInput_inj {crypto : CryptoLibrary}
    {domain domain' commitment commitment' : FixedBytes 32}
    (hinj : crypto.keccak256 (crypto.evmStructInput commitment) =
      crypto.keccak256 (crypto.evmStructInput commitment') →
        crypto.evmStructInput commitment = crypto.evmStructInput commitment')
    (h : crypto.evmDigestInput domain commitment = crypto.evmDigestInput domain' commitment') :
    commitment = commitment' := by
  obtain ⟨-, hstruct⟩ := List.append_inj' h (by simp)
  have hinput := hinj (Subtype.ext hstruct)
  exact Subtype.ext (List.append_cancel_left hinput)

namespace AuthorizedAction

/-- The kinds of actions, and how what they hash begins. -/
inductive Kind where
  | v1
  | v2
  | management
  deriving DecidableEq

def Kind.openings : Kind → List Bytes
  | v1 => [ascii "JAMSCRIPT_ACTION_V1"]
  | v2 => [ascii "JAMSCRIPT_ACTION_V2", ascii "<Bytes>JAMSCRIPT_AC"]
  | management => [ascii "jamscript/managemen"]

theorem Kind.eq_of_opening : ∀ kind kind' : Kind, ∀ opening ∈ kind.openings,
    opening ∈ kind'.openings → kind = kind' := by
  intro kind kind'
  cases kind <;> cases kind' <;> decide +kernel

def kind : AuthorizedAction → Kind
  | v1 _ => .v1
  | v2 _ => .v2
  | management _ _ => .management

theorem opening_of_blake2 {crypto : CryptoLibrary} {action : AuthorizedAction} {input : Bytes}
    (h : .blake2 input ∈ action.forms crypto) : input.take 19 ∈ action.kind.openings := by
  cases action with
  | v1 view =>
    obtain rfl : input = view.contents.digestPreimage := by simpa [forms] using h
    simp only [kind, Kind.openings, EnvelopeV1.digestPreimage, List.append_assoc,
      List.mem_singleton]
    exact List.take_left' rfl
  | management genesisHash envelope =>
    obtain rfl : input = envelope.digestPreimage genesisHash := by simpa [forms] using h
    simp only [kind, Kind.openings, ManagementEnvelopeV1.digestPreimage, List.append_assoc,
      List.mem_singleton]
    exact List.take_append_of_le_length (by decide)
  | v2 view =>
    obtain ⟨commitment, -, h⟩ := form_of_v2 h
    simp only [SignedForm.blake2.injEq, reduceCtorEq, false_or, or_false] at h
    obtain rfl | rfl := h
    · exact List.mem_cons.mpr (.inl (List.take_append_of_le_length (by decide)))
    · refine List.mem_cons_of_mem _ (List.mem_singleton.mpr ?_)
      simp only [CryptoLibrary.polkadotSignRawMessage, signingMessageV2, List.append_assoc]
      rw [← List.append_assoc]
      exact List.take_append_of_le_length (by decide)

/-- Two version 2 actions with a form in common have the same commitment. -/
theorem commitment_eq_of_form {crypto : CryptoLibrary} {first second : SignedActionV2View}
    (happart : HashesApart crypto (v2 first) (v2 second)) {form : SignedForm}
    (hfirst : form ∈ (v2 first).forms crypto) (hsecond : form ∈ (v2 second).forms crypto) :
    ∃ commitment, crypto.actionCommitmentV2 first = .ok commitment ∧
      crypto.actionCommitmentV2 second = .ok commitment := by
  obtain ⟨commitment, hcommitment, hform⟩ := form_of_v2 hfirst
  obtain ⟨commitment', hcommitment', hform'⟩ := form_of_v2 hsecond
  have hwrapped (left right : FixedBytes 32) :
      signingMessageV2 left ≠ CryptoLibrary.polkadotSignRawMessage (signingMessageV2 right) := by
    intro h
    have hlength := congrArg List.length h
    rw [length_signingMessageV2, length_polkadotSignRawMessage] at hlength
    exact absurd hlength (by decide)
  have hstruct : crypto.evmDigestInput first.networkDomain commitment =
      crypto.evmDigestInput second.networkDomain commitment' → commitment = commitment' :=
    CryptoLibrary.evmDigestInput_inj (happart.keccak (.inl (.inr ⟨_, _, rfl, hcommitment, rfl⟩))
      (.inr (.inr ⟨_, _, rfl, hcommitment', rfl⟩)))
  have heq : commitment = commitment' := by
    obtain rfl | rfl | rfl | rfl | rfl := hform <;>
      simp only [SignedForm.plain.injEq, SignedForm.blake2.injEq, SignedForm.keccak.injEq,
        reduceCtorEq, false_or, or_false] at hform'
    · obtain h | h := hform'
      · exact signingMessageV2_injective h
      · exact absurd h (hwrapped _ _)
    · obtain h | h := hform'
      · exact absurd h.symm (hwrapped _ _)
      · exact signingMessageV2_injective (polkadotSignRawMessage_injective h)
    · obtain h | h := hform'
      · exact signingMessageV2_injective h
      · exact absurd h (hwrapped _ _)
    · obtain h | h := hform'
      · exact absurd h.symm (hwrapped _ _)
      · exact signingMessageV2_injective (polkadotSignRawMessage_injective h)
    · exact hstruct hform'
  exact ⟨commitment, hcommitment, heq ▸ hcommitment'⟩

/-- A form belongs to one action, up to what is not signed. -/
theorem same_of_form {crypto : CryptoLibrary} {first second : AuthorizedAction}
    (happart : HashesApart crypto first second) {form : SignedForm}
    (hfirst : form ∈ first.forms crypto) (hsecond : form ∈ second.forms crypto) :
    first.SameSigned second := by
  -- a form of a version 1 or management action is a blake2 hash, so kinds are told apart by
  -- openings
  have hkinds : ∀ {input : Bytes}, form = .blake2 input → first.kind = second.kind := by
    rintro input rfl
    exact Kind.eq_of_opening _ _ _ (opening_of_blake2 hfirst) (opening_of_blake2 hsecond)
  cases first with
  | v1 view =>
    have hform : form = .blake2 view.contents.digestPreimage := by simpa [forms] using hfirst
    cases second with
    | v1 view' =>
      have hform' : form = .blake2 view'.contents.digestPreimage := by simpa [forms] using hsecond
      exact EnvelopeV1.digestPreimage_inj (SignedForm.blake2.inj (hform.symm.trans hform'))
    | v2 view' => exact absurd (hkinds hform) nofun
    | management genesis' envelope' => exact absurd (hkinds hform) nofun
  | management genesis envelope =>
    have hform : form = .blake2 (envelope.digestPreimage genesis) := by simpa [forms] using hfirst
    cases second with
    | v1 view' => exact absurd (hkinds hform) nofun
    | v2 view' => exact absurd (hkinds hform) nofun
    | management genesis' envelope' =>
      have hform' : form = .blake2 (envelope'.digestPreimage genesis') := by
        simpa [forms] using hsecond
      exact ManagementEnvelopeV1.digestPreimage_inj
        (SignedForm.blake2.inj (hform.symm.trans hform'))
  | v2 view =>
    cases second with
    | v1 view' =>
      have hform' : form = .blake2 view'.contents.digestPreimage := by simpa [forms] using hsecond
      exact absurd (hkinds hform') nofun
    | management genesis' envelope' =>
      have hform' : form = .blake2 (envelope'.digestPreimage genesis') := by
        simpa [forms] using hsecond
      exact absurd (hkinds hform') nofun
    | v2 view' =>
      obtain ⟨commitment, hfirst, hsecond⟩ := commitment_eq_of_form happart hfirst hsecond
      obtain ⟨hvalid, hactAs, rfl⟩ := CryptoLibrary.actionCommitmentV2_eq_ok.mp hfirst
      obtain ⟨hvalid', hactAs', heq⟩ := CryptoLibrary.actionCommitmentV2_eq_ok.mp hsecond
      exact EnvelopeV2.commitmentPreimage_inj hvalid hvalid' hactAs hactAs'
        (happart.blake2 (.inl (.inr ⟨view, rfl, rfl⟩)) (.inr (.inr ⟨view', rfl, rfl⟩)) heq)

/-! ## What the runtime accepts -/

/-- The key that an action is signed with. -/
def key : AuthorizedAction → Bytes
  | v1 view => view.publicKey
  | v2 view => view.controller.publicValue
  | management _ envelope => envelope.signer.toList

/-- The signature of an action; in the proof of a multicrypto account it follows the scheme. -/
def signature : AuthorizedAction → Bytes
  | v1 view => view.signature
  | v2 view =>
    if view.controller.kind = .multicryptoAccount32 then view.authorizationProof.tail
    else view.authorizationProof
  | management _ envelope => envelope.signature

/-- The runtime accepts the action, in some context. -/
def Authorized (crypto : CryptoLibrary) : AuthorizedAction → Prop
  | v1 view => ∃ networkDomain serviceKey selector verified,
      crypto.verifySignedActionV1 view networkDomain serviceKey selector = .ok verified
  | v2 view => ∃ networkDomain serviceKey selector nonce verified,
      crypto.verifySignedActionV2 view networkDomain serviceKey selector nonce = .ok verified
  | management genesisHash envelope => ∃ instanceId nonce policy,
      envelope.verify crypto genesisHash instanceId nonce policy = .ok ()

end AuthorizedAction

/-- A curve library takes the signature for one of the key over the message. -/
inductive SignatureAccepted (crypto : CryptoLibrary) (key signature : Bytes) : Bytes → Prop
  | sr25519 {message : Bytes} {sender : FixedBytes 32}
      (h : crypto.verifySr25519 key signature message = .ok sender) :
      SignatureAccepted crypto key signature message
  | ed25519 {message : Bytes} {verified : FixedBytes 32}
      (h : crypto.verifyEd25519 key signature message = .ok verified) :
      SignatureAccepted crypto key signature message
  | ecdsa {digest : FixedBytes 32} {recovered : FixedBytes 33}
      (h : crypto.recoverSecp256k1 digest signature = .ok recovered)
      (hkey : recovered.toList = key ∨ crypto.evmAddress recovered = .ok key ∨
        (crypto.blake2_256 recovered.toList).toList = key) :
      SignatureAccepted crypto key signature digest.toList

namespace CryptoLibrary

variable {crypto : CryptoLibrary} {owner : Ownership} {proof : Bytes}

theorem accepted_of_verifyEvmOwnership {networkDomain commitment : FixedBytes 32}
    (h : crypto.verifyEvmOwnership owner proof networkDomain commitment = .ok ()) :
    SignatureAccepted crypto owner.publicValue proof
      (crypto.evmActionDigest networkDomain commitment).toList := by
  obtain ⟨_, _, h⟩ := bind_eq_ok.mp h
  obtain ⟨recovered, hrecovered, h⟩ := bind_eq_ok.mp h
  obtain ⟨address, haddress, h⟩ := bind_eq_ok.mp h
  rw [ensure_eq_ok] at h
  exact .ecdsa hrecovered (.inr (.inl (h ▸ haddress)))

/-- The loop over the candidates stops at one of them. -/
theorem accepted_of_matchRecovered {publicValue signature : Bytes} {candidates : List Bytes}
    {recoveredAny : Bool} {recoveryError : Option CryptoError}
    (h : crypto.matchRecovered publicValue signature candidates recoveredAny
      recoveryError = .ok ()) :
    ∃ candidate ∈ candidates,
      SignatureAccepted crypto publicValue signature (crypto.blake2_256 candidate).toList := by
  induction candidates generalizing recoveredAny recoveryError with
  | nil =>
    unfold matchRecovered at h
    split at h <;> cases h
  | cons candidate candidates ih =>
    unfold matchRecovered at h
    split at h
    case h_1 recovered hrecovered =>
      split at h
      case isTrue hkey =>
        exact ⟨candidate, List.mem_cons_self, .ecdsa hrecovered (.inr (.inr hkey))⟩
      case isFalse =>
        obtain ⟨found, hmem, haccepted⟩ := ih h
        exact ⟨found, List.mem_cons_of_mem _ hmem, haccepted⟩
    case h_2 =>
      obtain ⟨found, hmem, haccepted⟩ := ih h
      exact ⟨found, List.mem_cons_of_mem _ hmem, haccepted⟩

theorem exists_ok_of_isOk {ε α : Type} {x : Except ε α} (h : x.isOk = true) : ∃ a, x = .ok a := by
  cases x with
  | error e => cases h
  | ok a => exact ⟨a, rfl⟩

theorem accepted_of_verifyPolkadotOwnership {message : Bytes}
    (h : crypto.verifyPolkadotOwnership owner proof message = .ok ()) :
    ∃ form ∈ ([.plain message, .plain (polkadotSignRawMessage message), .blake2 message,
        .blake2 (polkadotSignRawMessage message)] : List SignedForm),
      SignatureAccepted crypto owner.publicValue proof.tail (form.message crypto) := by
  obtain ⟨_, _, h⟩ := bind_eq_ok.mp h
  match proof, h with
  | scheme :: signature, h =>
    dsimp only at h
    split at h
    · rw [ensure_eq_ok] at h
      obtain ⟨-, h | h⟩ := h
      · obtain ⟨_, h⟩ := exists_ok_of_isOk h
        exact ⟨.plain message, by simp, .ed25519 h⟩
      · obtain ⟨_, h⟩ := exists_ok_of_isOk h
        exact ⟨.plain (polkadotSignRawMessage message), by simp, .ed25519 h⟩
    · split at h
      · rw [ensure_eq_ok] at h
        obtain ⟨-, h | h⟩ := h
        · obtain ⟨_, h⟩ := exists_ok_of_isOk h
          exact ⟨.plain message, by simp, .sr25519 h⟩
        · obtain ⟨_, h⟩ := exists_ok_of_isOk h
          exact ⟨.plain (polkadotSignRawMessage message), by simp, .sr25519 h⟩
      · split at h
        · obtain ⟨_, _, h⟩ := bind_eq_ok.mp h
          obtain ⟨candidate, hmem, haccepted⟩ := accepted_of_matchRecovered h
          exact ⟨.blake2 candidate, by simpa using hmem, haccepted⟩
        · cases h

/-- The proof of a controller is accepted over one of the forms for its kind. -/
theorem accepted_of_verifyControllerProof {action : SignedActionV2View} {commitment : FixedBytes 32}
    (h : crypto.verifyControllerProof action commitment = .ok ()) :
    ∃ form ∈ crypto.controllerForms action.controller.kind action.networkDomain commitment,
      SignatureAccepted crypto action.controller.publicValue (AuthorizedAction.v2 action).signature
        (form.message crypto) := by
  have hsignature : (AuthorizedAction.v2 action).signature =
      if action.controller.kind = .multicryptoAccount32 then action.authorizationProof.tail
      else action.authorizationProof := rfl
  rw [hsignature]
  unfold verifyControllerProof at h
  cases hkind : action.controller.kind with
  | secp256k1Keccak20 =>
    rw [hkind] at h
    rw [if_neg (by decide)]
    exact ⟨_, List.mem_singleton.mpr rfl, accepted_of_verifyEvmOwnership h⟩
  | multicryptoAccount32 =>
    rw [hkind] at h
    rw [if_pos rfl]
    exact accepted_of_verifyPolkadotOwnership h
  | ed25519Key =>
    rw [hkind] at h
    rw [if_neg (by decide)]
    obtain ⟨_, _, h⟩ := bind_eq_ok.mp h
    rw [hkind] at h
    obtain ⟨_, hverified, _⟩ := bind_eq_ok.mp h
    exact ⟨_, List.mem_singleton.mpr rfl, .ed25519 hverified⟩
  | sr25519Key =>
    rw [hkind] at h
    rw [if_neg (by decide)]
    obtain ⟨_, _, h⟩ := bind_eq_ok.mp h
    rw [hkind] at h
    obtain ⟨_, hverified, _⟩ := bind_eq_ok.mp h
    exact ⟨_, List.mem_singleton.mpr rfl, .sr25519 hverified⟩
  | secp256k1Key =>
    rw [hkind] at h
    rw [if_neg (by decide)]
    obtain ⟨_, _, h⟩ := bind_eq_ok.mp h
    rw [hkind] at h
    obtain ⟨recovered, hrecovered, hkey⟩ := bind_eq_ok.mp h
    exact ⟨.blake2 _, List.mem_cons_of_mem _ (List.mem_singleton.mpr rfl),
      .ecdsa hrecovered (.inl (ensure_eq_ok.mp hkey))⟩

end CryptoLibrary

namespace AuthorizedAction

/-- The runtime accepts an action only on a signature of its key over one of its messages. -/
theorem accepted_of_authorized {crypto : CryptoLibrary} {action : AuthorizedAction}
    (h : action.Authorized crypto) : ∃ message ∈ action.messages crypto,
      SignatureAccepted crypto action.key action.signature message := by
  cases action with
  | v1 view =>
    obtain ⟨_, _, _, _, h⟩ := h
    obtain ⟨hsender, -⟩ := CryptoLibrary.verifySignedActionV1_eq_ok h
    exact ⟨_, List.mem_singleton.mpr rfl, .sr25519 hsender⟩
  | management genesisHash envelope =>
    obtain ⟨_, _, policy, h⟩ := h
    obtain ⟨_, _, h⟩ := bind_eq_ok.mp h
    obtain ⟨_, _, h⟩ := bind_eq_ok.mp h
    cases policy with
    | immutable => cases h
    | key account =>
      obtain ⟨_, _, h⟩ := bind_eq_ok.mp h
      obtain ⟨_, _, h⟩ := bind_eq_ok.mp h
      obtain ⟨sender, hsender, -⟩ := bind_eq_ok.mp h
      rw [mapError_eq_ok] at hsender
      exact ⟨_, List.mem_singleton.mpr rfl, .sr25519 hsender⟩
  | v2 view =>
    obtain ⟨_, _, _, _, _, h⟩ := h
    obtain ⟨_, _, h⟩ := bind_eq_ok.mp h
    obtain ⟨_, _, h⟩ := bind_eq_ok.mp h
    obtain ⟨_, _, h⟩ := bind_eq_ok.mp h
    obtain ⟨_, _, h⟩ := bind_eq_ok.mp h
    obtain ⟨_, _, h⟩ := bind_eq_ok.mp h
    obtain ⟨_, _, h⟩ := bind_eq_ok.mp h
    obtain ⟨_, _, h⟩ := bind_eq_ok.mp h
    obtain ⟨commitment, hcommitment, h⟩ := bind_eq_ok.mp h
    obtain ⟨_, hproof, -⟩ := bind_eq_ok.mp h
    rw [mapError_eq_ok] at hproof
    obtain ⟨form, hform, haccepted⟩ := CryptoLibrary.accepted_of_verifyControllerProof hproof
    refine ⟨form.message crypto, List.mem_map_of_mem ?_, haccepted⟩
    simp only [forms, hcommitment]
    exact hform

/-- A message that is signed for two actions is signed for one, and a signature that the runtime
accepts for two different actions of one key is accepted by the curves over two messages. -/
theorem signatures_bind_actions (crypto : CryptoLibrary) (first second : AuthorizedAction)
    (happart : HashesApart crypto first second) :
    (∀ message ∈ first.messages crypto, message ∈ second.messages crypto →
        first.SameSigned second) ∧
      (first.Authorized crypto → second.Authorized crypto → first.key = second.key →
        first.signature = second.signature → ¬ first.SameSigned second →
          ∃ message message', message ≠ message' ∧
            SignatureAccepted crypto first.key first.signature message ∧
            SignatureAccepted crypto first.key first.signature message') := by
  have hbinds : ∀ message ∈ first.messages crypto, message ∈ second.messages crypto →
      first.SameSigned second := by
    intro message hfirst hsecond
    obtain ⟨left, hleft, rfl⟩ := List.mem_map.mp hfirst
    obtain ⟨right, hright, heq⟩ := List.mem_map.mp hsecond
    obtain rfl := form_eq_of_message happart hleft hright heq.symm
    exact same_of_form happart hleft hright
  refine ⟨hbinds, fun hfirst hsecond hkey hsignature hdifferent => ?_⟩
  obtain ⟨message, hmem, haccepted⟩ := accepted_of_authorized hfirst
  obtain ⟨message', hmem', haccepted'⟩ := accepted_of_authorized hsecond
  rw [← hkey, ← hsignature] at haccepted'
  refine ⟨message, message', ?_, haccepted, haccepted'⟩
  rintro rfl
  exact hdifferent (hbinds message hmem hmem')

/-! ### Two proofs for one action

An action of an account that signs EIP-712 digests, with two proofs: what is signed is the same.
-/

def evmCommitment : FixedBytes 32 :=
  ⟨[0xce, 0xaa, 0x51, 0xf7, 0x1f, 0xa8, 0x25, 0x0d, 0xdd, 0xff, 0x30, 0xcb, 0xf0, 0xd5, 0x8b, 0x16,
    0xca, 0x25, 0xfd, 0x2f, 0x2f, 0x18, 0xce, 0x45, 0x8c, 0x89, 0x7c, 0x02, 0xef, 0xf4, 0x48, 0xc5],
    rfl⟩

def evmDomainType : FixedBytes 32 :=
  ⟨[0x59, 0x9a, 0x80, 0xfc, 0xaa, 0x47, 0xb9, 0x5e, 0x23, 0x23, 0xab, 0x4d, 0x34, 0xd3, 0x4e, 0x0c,
    0xc9, 0xfe, 0xda, 0x4b, 0x84, 0x3e, 0xda, 0xfc, 0xc3, 0x0c, 0x7b, 0xdf, 0x60, 0xea, 0x15, 0xbf],
    rfl⟩

def evmName : FixedBytes 32 :=
  ⟨[0xe9, 0x6a, 0xe1, 0x0c, 0xbe, 0xbb, 0xa5, 0xe5, 0x56, 0x31, 0x8e, 0x59, 0xe6, 0x63, 0x2c, 0x7b,
    0x45, 0xc7, 0x42, 0xb6, 0xd0, 0x19, 0xcd, 0x50, 0x2f, 0x46, 0x7b, 0x7a, 0x68, 0x44, 0xbc, 0xa3],
    rfl⟩

def evmVersion : FixedBytes 32 :=
  ⟨[0xc8, 0x9e, 0xfd, 0xaa, 0x54, 0xc0, 0xf2, 0x0c, 0x7a, 0xdf, 0x61, 0x28, 0x82, 0xdf, 0x09, 0x50,
    0xf5, 0xa9, 0x51, 0x63, 0x7e, 0x03, 0x07, 0xcd, 0xcb, 0x4c, 0x67, 0x2f, 0x29, 0x8b, 0x8b, 0xc6],
    rfl⟩

def evmDomainSeparator : FixedBytes 32 :=
  ⟨[0x06, 0x33, 0xfe, 0x40, 0x30, 0x10, 0xae, 0x2e, 0xd8, 0x02, 0xb3, 0x56, 0x0f, 0xb5, 0x23, 0x0e,
    0x9e, 0xba, 0xf5, 0xe8, 0xfc, 0xc0, 0x49, 0x20, 0x2e, 0x08, 0x77, 0x43, 0x88, 0x38, 0x19, 0xec],
    rfl⟩

def evmActionType : FixedBytes 32 :=
  ⟨[0x9c, 0x2c, 0x90, 0x3e, 0x18, 0xc3, 0xa6, 0x02, 0x01, 0xd0, 0x93, 0x6d, 0x5a, 0x55, 0x91, 0xbc,
    0x50, 0x12, 0x90, 0x20, 0xff, 0x61, 0x87, 0x23, 0x2f, 0xda, 0x56, 0x28, 0x6e, 0xa8, 0xab, 0x19],
    rfl⟩

def evmStructHash : FixedBytes 32 :=
  ⟨[0x37, 0x04, 0xcb, 0xab, 0x3f, 0x74, 0x48, 0xd1, 0x2c, 0xc4, 0x03, 0x06, 0x02, 0x7e, 0xc4, 0x84,
    0x54, 0x1e, 0xdb, 0x91, 0x81, 0x60, 0x4a, 0x86, 0x9b, 0xe7, 0x3b, 0xc5, 0x4a, 0x61, 0x8c, 0xeb],
    rfl⟩

def evmDigest : FixedBytes 32 :=
  ⟨[0x53, 0xbf, 0xae, 0x96, 0xf4, 0x5d, 0xa3, 0x26, 0x72, 0x4d, 0x0f, 0x21, 0x29, 0x51, 0xfb, 0x29,
    0xe9, 0x0c, 0xac, 0x98, 0x94, 0x98, 0x1f, 0x5e, 0xd6, 0x18, 0xa5, 0xb2, 0x4f, 0x67, 0x41, 0x52],
    rfl⟩

def evmAction (authorizationProof : Bytes) : SignedActionV2View where
  version := 2
  networkDomain := List.Vector.replicate 32 0
  serviceKey := List.Vector.replicate 32 7
  actionSelector := pingSelector
  controller := ⟨1, .secp256k1Keccak20, [0x60, 0x61, 0x62, 0x63, 0x64, 0x65, 0x66, 0x67, 0x68, 0x69,
    0x6a, 0x6b, 0x6c, 0x6d, 0x6e, 0x6f, 0x70, 0x71, 0x72, 0x73]⟩
  actAs := none
  nonce := 0
  validUntil := 9
  payloadHash := pingPayloadHash
  authorizationProof := authorizationProof
  payload := [42]
  encoded := []

def evmCrypto : CryptoLibrary where
  blake2_256 := tableHash [((evmAction []).contents.commitmentPreimage, evmCommitment)]
  keccak256 := tableHash
    [(ascii "EIP712Domain(string name,string version,bytes32 salt)", evmDomainType),
      (ascii "JamScript", evmName), (ascii "1", evmVersion),
      (evmDomainType.toList ++ evmName.toList ++ evmVersion.toList ++ List.replicate 32 0,
        evmDomainSeparator),
      (ascii "JamScriptAction(bytes32 commitment)", evmActionType),
      (evmActionType.toList ++ evmCommitment.toList, evmStructHash),
      ([0x19, 0x01] ++ evmDomainSeparator.toList ++ evmStructHash.toList, evmDigest)]
  -- no curve is asked
  ed25519VerifyingKey _ := false
  ed25519Signature _ := false
  ed25519Verify _ _ _ := false
  sr25519PublicKey _ := none
  sr25519Signature _ := false
  sr25519Verify _ _ _ _ := false
  ecdsaSignature _ := false
  ecdsaHighS _ := false
  recoverFromPrehash _ _ _ := none
  uncompressedPoint _ := none

theorem evmAction_commitment (authorizationProof : Bytes) :
    evmCrypto.actionCommitmentV2 (evmAction authorizationProof) = .ok evmCommitment :=
  (by decide +kernel : evmCrypto.actionCommitmentV2 (evmAction []) = .ok evmCommitment)

theorem evmAction_forms (authorizationProof : Bytes) :
    (v2 (evmAction authorizationProof)).forms evmCrypto =
    [.keccak ([0x19, 0x01] ++ evmDomainSeparator.toList ++ evmStructHash.toList)] := by
  simp only [forms, evmAction_commitment]
  exact (by decide +kernel : evmCrypto.controllerForms .secp256k1Keccak20
    (List.Vector.replicate 32 0)
    evmCommitment = [.keccak ([0x19, 0x01] ++ evmDomainSeparator.toList ++ evmStructHash.toList)])

theorem blake2Inputs_evmAction {authorizationProof input : Bytes}
    (h : input ∈ (v2 (evmAction authorizationProof)).blake2Inputs evmCrypto) :
    input = (evmAction []).contents.commitmentPreimage := by
  obtain h | ⟨view, hview, rfl⟩ := h
  · rw [Set.mem_ofPred_eq, evmAction_forms] at h
    simp at h
  · cases hview
    rfl

theorem keccakInputs_evmAction {authorizationProof input : Bytes}
    (h : input ∈ (v2 (evmAction authorizationProof)).keccakInputs evmCrypto) :
    input ∈ [[0x19, 0x01] ++ evmDomainSeparator.toList ++ evmStructHash.toList,
      evmActionType.toList ++ evmCommitment.toList] := by
  obtain h | ⟨view, commitment, hview, hcommitment, rfl⟩ := h
  · rw [Set.mem_ofPred_eq, evmAction_forms] at h
    simpa using Or.inl h
  · cases hview
    rw [evmAction_commitment] at hcommitment
    cases hcommitment
    decide +kernel

theorem evmAction_hashesApart (proof proof' : Bytes) :
    HashesApart evmCrypto (v2 (evmAction proof)) (v2 (evmAction proof')) where
  blake2 := by
    rintro left (hleft | hleft) right (hright | hright) -
    all_goals rw [blake2Inputs_evmAction hleft, blake2Inputs_evmAction hright]
  keccak := by
    have hinj : ∀ left ∈ [[0x19, 0x01] ++ evmDomainSeparator.toList ++ evmStructHash.toList,
        evmActionType.toList ++ evmCommitment.toList],
        ∀ right ∈ [[0x19, 0x01] ++ evmDomainSeparator.toList ++ evmStructHash.toList,
          evmActionType.toList ++ evmCommitment.toList],
        evmCrypto.keccak256 left = evmCrypto.keccak256 right → left = right := by decide +kernel
    rintro left (hleft | hleft) right (hright | hright)
    all_goals exact hinj _ (keccakInputs_evmAction hleft) _ (keccakInputs_evmAction hright)
  apart := by
    have hne : ∀ right ∈ [[0x19, 0x01] ++ evmDomainSeparator.toList ++ evmStructHash.toList,
        evmActionType.toList ++ evmCommitment.toList],
        evmCrypto.blake2_256 (evmAction []).contents.commitmentPreimage ≠
        evmCrypto.keccak256 right := by
      decide +kernel
    rintro left (hleft | hleft) right (hright | hright)
    all_goals
      rw [blake2Inputs_evmAction hleft]
      exact hne _ (keccakInputs_evmAction hright)

/-- The message is the EIP-712 digest, and both actions have the fields it was made of. -/
theorem signatures_bind_actions_evm :
    (v2 (evmAction [1])).messages evmCrypto = [evmDigest.toList] ∧
      (v2 (evmAction [1])).SameSigned (v2 (evmAction [2])) := by
  have hmessages (proof : Bytes) : (v2 (evmAction proof)).messages evmCrypto =
    [evmDigest.toList] := by
    rw [messages, evmAction_forms]
    decide +kernel
  refine ⟨hmessages [1], (signatures_bind_actions evmCrypto _ _ (evmAction_hashesApart [1] [2])).1
    evmDigest.toList ?_ ?_⟩
  · rw [hmessages]
    exact List.mem_singleton_self _
  · rw [hmessages]
    exact List.mem_singleton_self _

end AuthorizedAction

end JamScript
