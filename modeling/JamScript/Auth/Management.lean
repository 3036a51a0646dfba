import JamScript.Auth.Envelopes

/-!
# Management actions

`jamscript-runtime-core`: the actions by which the key of a service's management policy replaces its
code or its policy, the envelope they arrive in, and its verification. The envelope has no version
and no lengths: its layout follows from the tags of the action, and what is signed is the digest of
the envelope's fields together with the genesis hash of the network.
-/

namespace JamScript

open Codec

def managementDomainV1 : Bytes := ascii "jamscript/management/v1"

/-- Who may manage a service: nobody, or the holder of a key. -/
inductive ManagementPolicyV1 where
  | immutable
  | key (account : FixedBytes 32)
  deriving DecidableEq

/-- What the manager of a service may do. -/
inductive ManagementActionV1 where
  | upgradeCode (codeHash : FixedBytes 32) (codeLen : UInt32) (minItemGas minMemoGas : UInt64)
  | setPolicy (newPolicy : ManagementPolicyV1)
  deriving DecidableEq

/-- A signed management action. -/
structure ManagementEnvelopeV1 where
  instanceId : FixedBytes 32
  nonce : UInt64
  action : ManagementActionV1
  signer : FixedBytes 32
  signature : Bytes
  deriving DecidableEq

/-- Why a management action is refused. -/
inductive ManagementError where
  | invalidEncoding
  | wrongInstance
  | wrongNonce
  | immutable
  | unauthorized
  | invalidSignature
  deriving DecidableEq, Repr

namespace ManagementPolicyV1

/-- `ManagementPolicyV1::encode`. -/
def encode : ManagementPolicyV1 → Bytes
  | immutable => [0]
  | key account => 1 :: account.toList

/-- `ManagementPolicyV1::decode`. -/
def decode (input : Bytes) : Except ManagementError ManagementPolicyV1 :=
  match input with
  | [0] => .ok .immutable
  | 1 :: account =>
    match tryIntoArray 32 account with
    | some account => .ok (.key account)
    | none => .error .invalidEncoding
  | _ => .error .invalidEncoding

end ManagementPolicyV1

namespace ManagementActionV1

/-- `ManagementActionV1::encode`. -/
def encode : ManagementActionV1 → Bytes
  | upgradeCode codeHash codeLen minItemGas minMemoGas =>
    [0] ++ codeHash.toList ++ u32ToLe codeLen ++ u64ToLe minItemGas ++ u64ToLe minMemoGas
  | setPolicy newPolicy => 1 :: newPolicy.encode

/-- The reader of a policy inside an action. -/
def policy : Parser ManagementError ManagementPolicyV1 := do
  match ← Parser.u8 .invalidEncoding with
  | 0 => pure .immutable
  | 1 => do
    let account ← Parser.array .invalidEncoding 32
    pure (.key account)
  | _ => throw .invalidEncoding

/-- The reader of an action inside an envelope. -/
def action : Parser ManagementError ManagementActionV1 := do
  match ← Parser.u8 .invalidEncoding with
  | 0 => do
    let codeHash ← Parser.array .invalidEncoding 32
    let codeLen ← Parser.u32 .invalidEncoding
    let minItemGas ← Parser.u64 .invalidEncoding
    let minMemoGas ← Parser.u64 .invalidEncoding
    pure (.upgradeCode codeHash codeLen minItemGas minMemoGas)
  | 1 => do
    let newPolicy ← policy
    pure (.setPolicy newPolicy)
  | _ => throw .invalidEncoding

def decode (input : Bytes) : Except ManagementError ManagementActionV1 :=
  Parser.whole .invalidEncoding action input

/-- The reader of a policy reads what is written, and nothing else. -/
theorem recognizes_policy : Recognizes policy ManagementPolicyV1.encode fun _ => True := by
  constructor
  intro bs rest newPolicy
  rw [policy, Parser.bind_eq_ok]
  constructor
  · rintro ⟨tag, mid, htag, h⟩
    obtain ⟨-, rfl⟩ := (Parser.recognizes_u8 _).eq_ok.mp htag
    split at h
    · obtain ⟨rfl, rfl⟩ := Parser.pure_eq_ok.mp h
      exact ⟨trivial, rfl⟩
    · obtain ⟨account, _, haccount, hpure⟩ := Parser.bind_eq_ok.mp h
      obtain ⟨rfl, rfl⟩ := Parser.pure_eq_ok.mp hpure
      obtain rfl := Parser.array_eq_ok.mp haccount
      exact ⟨trivial, rfl⟩
    · cases h
  · rintro ⟨-, rfl⟩
    cases newPolicy with
    | immutable => exact ⟨0, rest, (Parser.recognizes_u8 _).eq_ok.mpr ⟨trivial, rfl⟩, rfl⟩
    | key account =>
      exact ⟨1, account.toList ++ rest, (Parser.recognizes_u8 _).eq_ok.mpr ⟨trivial, rfl⟩,
        Parser.bind_eq_ok.mpr ⟨account, rest, Parser.array_eq_ok.mpr rfl, rfl⟩⟩

/-- The decoder of a policy on its own accepts what the reader inside an action accepts. -/
theorem decode_policy_eq_ok {input : Bytes} {newPolicy : ManagementPolicyV1} :
    ManagementPolicyV1.decode input = .ok newPolicy ↔
      Parser.whole .invalidEncoding policy input = .ok newPolicy := by
  have hpolicy : Parser.whole .invalidEncoding policy input = .ok newPolicy ↔
    input = newPolicy.encode := by
    rw [Parser.whole_eq_ok, recognizes_policy.eq_ok, List.append_nil]
    exact ⟨fun h => h.2, fun h => ⟨trivial, h⟩⟩
  rw [hpolicy]
  constructor
  · unfold ManagementPolicyV1.decode tryIntoArray
    intro h
    split at h
    next => exact (Except.ok.inj h).symm ▸ rfl
    next account =>
      by_cases hlength : account.length = 32
      · rw [dif_pos hlength] at h
        exact (Except.ok.inj h).symm ▸ rfl
      · rw [dif_neg hlength] at h
        cases h
    next => cases h
  · rintro rfl
    cases newPolicy with
    | immutable => rfl
    | key account =>
      unfold ManagementPolicyV1.decode tryIntoArray
      simp only [ManagementPolicyV1.encode, dif_pos account.toList_length]
      rfl

/-- The decoder of actions accepts their encodings and nothing else. -/
theorem recognizes_action : Recognizes action encode fun _ => True := by
  constructor
  intro bs rest decoded
  rw [action, Parser.bind_eq_ok]
  constructor
  · rintro ⟨tag, mid, htag, h⟩
    obtain ⟨-, rfl⟩ := (Parser.recognizes_u8 _).eq_ok.mp htag
    split at h
    · obtain ⟨_, _, hhash, h⟩ := Parser.bind_eq_ok.mp h
      obtain ⟨_, _, hlength, h⟩ := Parser.bind_eq_ok.mp h
      obtain ⟨_, _, hitem, h⟩ := Parser.bind_eq_ok.mp h
      obtain ⟨_, _, hmemo, h⟩ := Parser.bind_eq_ok.mp h
      obtain ⟨rfl, hend⟩ := Parser.pure_eq_ok.mp h
      rw [Parser.array_eq_ok.mp hhash, ((Parser.recognizes_u32 _).eq_ok.mp hlength).2,
        ((Parser.recognizes_u64 _).eq_ok.mp hitem).2, ((Parser.recognizes_u64 _).eq_ok.mp hmemo).2,
        hend]
      simp only [encode, List.append_assoc, true_and]
    · obtain ⟨newPolicy, _, hpolicy, hpure⟩ := Parser.bind_eq_ok.mp h
      obtain ⟨rfl, rfl⟩ := Parser.pure_eq_ok.mp hpure
      obtain ⟨-, rfl⟩ := recognizes_policy.eq_ok.mp hpolicy
      exact ⟨trivial, rfl⟩
    · cases h
  · rintro ⟨-, rfl⟩
    cases decoded with
    | upgradeCode codeHash codeLen minItemGas minMemoGas =>
      simp only [encode, List.append_assoc]
      exact ⟨0, _, (Parser.recognizes_u8 _).eq_ok.mpr ⟨trivial, rfl⟩, Parser.bind_eq_ok.mpr
        ⟨codeHash, _, Parser.array_eq_ok.mpr rfl, Parser.bind_eq_ok.mpr
          ⟨codeLen, _, (Parser.recognizes_u32 _).eq_ok.mpr ⟨trivial, rfl⟩, Parser.bind_eq_ok.mpr
            ⟨minItemGas, _, (Parser.recognizes_u64 _).eq_ok.mpr ⟨trivial, rfl⟩,
              Parser.bind_eq_ok.mpr
              ⟨minMemoGas, rest, (Parser.recognizes_u64 _).eq_ok.mpr ⟨trivial, rfl⟩, rfl⟩⟩⟩⟩⟩
    | setPolicy newPolicy =>
      exact ⟨1, newPolicy.encode ++ rest, (Parser.recognizes_u8 _).eq_ok.mpr ⟨trivial, rfl⟩,
        Parser.bind_eq_ok.mpr ⟨newPolicy, rest, recognizes_policy.eq_ok.mpr ⟨trivial, rfl⟩, rfl⟩⟩

/-- Different actions have different encodings. -/
theorem encode_injective : Function.Injective encode := by
  intro left right h
  exact (recognizes_action.append_inj (s := []) (t := []) trivial trivial (by rw [h])).1

end ManagementActionV1

namespace ManagementEnvelopeV1

/-- What is signed of an envelope. -/
def encodeUnsigned (envelope : ManagementEnvelopeV1) : Bytes :=
  envelope.instanceId.toList ++ u64ToLe envelope.nonce ++ envelope.action.encode ++
    envelope.signer.toList

def encode (envelope : ManagementEnvelopeV1) : Bytes :=
  envelope.encodeUnsigned ++ envelope.signature

/-- The length of the action that starts at byte 40, by its tags. -/
def actionLen (bytes : Bytes) : Except ManagementError ℕ :=
  match (bytes[40]? : Option UInt8) with
  | some 0 => .ok (1 + 32 + 4 + 8 + 8)
  | some 1 =>
    match (bytes[41]? : Option UInt8) with
    | some 0 => .ok 2
    | some 1 => .ok (2 + 32)
    | _ => .error .invalidEncoding
  | _ => .error .invalidEncoding

/-- Bytes `start` up to `stop`, as an array. -/
def slice (n : ℕ) (bytes : Bytes) (start stop : ℕ) : Except ManagementError (FixedBytes n) :=
  match tryIntoArray n ((bytes.take stop).drop start) with
  | some array => .ok array
  | none => .error .invalidEncoding

/-- The action is what lies between fields of known size. -/
def decode (bytes : Bytes) : Except ManagementError ManagementEnvelopeV1 := do
  ensure (32 + 8 + 1 + 32 + 64 ≤ bytes.length) ManagementError.invalidEncoding
  let instanceId ← slice 32 bytes 0 32
  let nonce ← slice 8 bytes 32 40
  let actionStart := 40
  let actionLen ← actionLen bytes
  let signerStart := actionStart + actionLen
  let signatureStart := signerStart + 32
  ensure (bytes.length = signatureStart + 64) ManagementError.invalidEncoding
  let action ← ManagementActionV1.decode ((bytes.take signerStart).drop actionStart)
  let signer ← slice 32 bytes signerStart signatureStart
  pure { instanceId, nonce := u64OfLe nonce.toList, action, signer,
         signature := bytes.drop signatureStart }

/-- What is hashed into the digest that is signed. -/
def digestPreimage (envelope : ManagementEnvelopeV1) (genesisHash : FixedBytes 32) : Bytes :=
  managementDomainV1 ++ genesisHash.toList ++ envelope.instanceId.toList ++
    u64ToLe envelope.nonce ++ envelope.action.encode

/-- `signing_digest`, for one network. -/
def signingDigest (crypto : CryptoLibrary) (envelope : ManagementEnvelopeV1)
    (genesisHash : FixedBytes 32) : FixedBytes 32 :=
  crypto.blake2_256 (envelope.digestPreimage genesisHash)

/-- `verify`: the policy is looked at before the signature. -/
def verify (crypto : CryptoLibrary) (envelope : ManagementEnvelopeV1)
    (genesisHash expectedInstance : FixedBytes 32) (expectedNonce : UInt64)
    (policy : ManagementPolicyV1) : Except ManagementError Unit := do
  ensure (envelope.instanceId = expectedInstance) ManagementError.wrongInstance
  ensure (envelope.nonce = expectedNonce) ManagementError.wrongNonce
  match policy with
  | .immutable => throw .immutable
  | .key account => do
    ensure (envelope.signer = account) ManagementError.unauthorized
    ensure (envelope.signature.length = 64) ManagementError.invalidSignature
    let _ ← (crypto.verifySr25519 envelope.signer.toList envelope.signature
      (envelope.signingDigest crypto genesisHash).toList).mapError fun _ =>
        ManagementError.invalidSignature

/-! ### The layout of an envelope -/

theorem slice_eq_ok {n start stop : ℕ} {bytes : Bytes} {array : FixedBytes n} :
    slice n bytes start stop = .ok array ↔ (bytes.take stop).drop start = array.toList := by
  unfold slice tryIntoArray
  constructor
  · intro h
    split at h
    · rename_i found hfound
      split at hfound
      · cases h
        exact congrArg List.Vector.toList (Option.some.inj hfound)
      · cases hfound
    · cases h
  · intro h
    rw [dif_pos (by rw [h]; exact array.toList_length)]
    exact congrArg Except.ok (List.Vector.toList_injective h)

/-- Bytes `start` up to `stop` of a text that has `part` there. -/
theorem take_drop_append {start stop : ℕ} {before part after : Bytes}
    (hbefore : before.length = start) (hpart : before.length + part.length = stop) :
    ((before ++ (part ++ after)).take stop).drop start = part := by
  rw [← List.append_assoc, List.take_left' (by rw [List.length_append, hpart]),
    List.drop_left' hbefore]

/-- The tags of an action give its length. -/
theorem actionLen_eq {before after : Bytes} (hbefore : before.length = 40)
    (action : ManagementActionV1) :
    actionLen (before ++ (action.encode ++ after)) = .ok action.encode.length := by
  have hbyte : ∀ i, (before ++ (action.encode ++ after))[40 + i]? =
    (action.encode ++ after)[i]? := by
    intro i
    rw [← hbefore, List.getElem?_append_right (Nat.le_add_right _ _), Nat.add_sub_cancel_left]
  have htag := hbyte 0
  have hpolicy := hbyte 1
  unfold actionLen
  rw [htag, hpolicy]
  rcases action with _ | _ | _ <;> simp [ManagementActionV1.encode, ManagementPolicyV1.encode]

theorem recognizes_nil (action : ManagementActionV1) : ManagementActionV1.action action.encode =
    .ok (action, []) := by
  have hread := ManagementActionV1.recognizes_action.reads (a := action) trivial []
  rwa [List.append_nil] at hread

/-- An envelope with a whole signature is read back. -/
theorem decode_encode {envelope : ManagementEnvelopeV1} (h : envelope.signature.length = 64) :
    decode envelope.encode = .ok envelope := by
  obtain ⟨instanceId, nonce, action, signer, signature⟩ := envelope
  have hlength : (encode ⟨instanceId, nonce, action, signer, signature⟩).length =
      40 + action.encode.length + 32 + 64 := by
    simp only [encode, encodeUnsigned, List.length_append, List.Vector.toList_length,
      length_u64ToLe, h]
  have hlayout : encode ⟨instanceId, nonce, action, signer, signature⟩ =
      (instanceId.toList ++ u64ToLe nonce) ++ (action.encode ++ (signer.toList ++ signature)) := by
    simp only [encode, encodeUnsigned, List.append_assoc]
  have hhead : (instanceId.toList ++ u64ToLe nonce).length = 40 := by simp
  have htag : 0 < action.encode.length := by
    rcases action with _ | _ | _ <;> simp [ManagementActionV1.encode]
  have hlen := @actionLen_eq _ (signer.toList ++ signature) hhead action
  rw [← hlayout] at hlen
  generalize hbytes : encode ⟨instanceId, nonce, action, signer, signature⟩ =
    bytes at hlength hlayout hlen
  have hid : (bytes.take 32).drop 0 = instanceId.toList := by
    rw [hlayout, List.append_assoc]
    exact @take_drop_append _ _ [] _ _ rfl (by simp)
  have hnonce : (bytes.take 40).drop 32 = u64ToLe nonce := by
    rw [hlayout, List.append_assoc]
    exact take_drop_append (by simp) (by simp)
  have haction : (bytes.take (40 + action.encode.length)).drop 40 = action.encode := by
    rw [hlayout]
    exact take_drop_append hhead (by rw [hhead])
  have hsigner : (bytes.take (40 + action.encode.length + 32)).drop (40 + action.encode.length) =
    signer.toList := by
    rw [hlayout, ← List.append_assoc]
    exact take_drop_append (by rw [List.length_append, hhead])
      (by rw [List.length_append, hhead, signer.toList_length])
  have hsignature : bytes.drop (40 + action.encode.length + 32) = signature := by
    rw [hlayout, ← List.append_assoc, ← List.append_assoc]
    exact List.drop_left' (by rw [List.length_append, List.length_append, hhead,
      signer.toList_length])
  unfold decode
  refine bind_eq_ok.mpr ⟨(), ensure_eq_ok.mpr (by omega),
    bind_eq_ok.mpr ⟨instanceId, slice_eq_ok.mpr hid,
    bind_eq_ok.mpr ⟨⟨u64ToLe nonce, length_u64ToLe nonce⟩, slice_eq_ok.mpr hnonce,
      bind_eq_ok.mpr ⟨_, hlen,
      bind_eq_ok.mpr ⟨(), ensure_eq_ok.mpr hlength, bind_eq_ok.mpr ⟨action, ?_,
        bind_eq_ok.mpr ⟨signer, slice_eq_ok.mpr hsigner, ?_⟩⟩⟩⟩⟩⟩⟩
  · rw [haction]
    exact Parser.whole_eq_ok.mpr (recognizes_nil action)
  · rw [hsignature]
    exact congrArg (fun nonce => Except.ok (ManagementEnvelopeV1.mk instanceId nonce action
      signer signature)) (u64OfLe_u64ToLe nonce)

theorem take_append_drop_take {start stop : ℕ} (bytes : Bytes) (h : start ≤ stop) :
    bytes.take start ++ (bytes.take stop).drop start = bytes.take stop := by
  conv_rhs => rw [← List.take_append_drop start (bytes.take stop), List.take_take, min_eq_left h]

/-- What is decoded has the encoding that was read. -/
theorem encode_of_decode {bytes : Bytes} {envelope : ManagementEnvelopeV1}
    (h : decode bytes = .ok envelope) :
    envelope.signature.length = 64 ∧ envelope.encode = bytes := by
  obtain ⟨_, -, h⟩ := bind_eq_ok.mp h
  obtain ⟨instanceId, hid, h⟩ := bind_eq_ok.mp h
  obtain ⟨nonce, hnonce, h⟩ := bind_eq_ok.mp h
  obtain ⟨length, -, h⟩ := bind_eq_ok.mp h
  obtain ⟨_, hlength, h⟩ := bind_eq_ok.mp h
  obtain ⟨action, haction, h⟩ := bind_eq_ok.mp h
  obtain ⟨signer, hsigner, h⟩ := bind_eq_ok.mp h
  cases h
  rw [ensure_eq_ok] at hlength
  obtain ⟨-, haction⟩ := ManagementActionV1.recognizes_action.eq_ok.mp
    (Parser.whole_eq_ok.mp haction)
  rw [List.append_nil] at haction
  refine ⟨by rw [List.length_drop, hlength]; omega, ?_⟩
  unfold encode encodeUnsigned
  rw [u64ToLe_u64OfLe nonce.toList_length, ← slice_eq_ok.mp hid, ← slice_eq_ok.mp hnonce, ← haction,
    ← slice_eq_ok.mp hsigner, List.drop_zero, take_append_drop_take bytes (by omega),
    take_append_drop_take bytes (by omega), take_append_drop_take bytes (by omega),
    List.take_append_drop]

/-- Envelopes with a signature of 64 bytes are read back as they were written, nothing else is read,
and no accepted text continues another one. -/
theorem envelopes_canonical :
    (∀ envelope : ManagementEnvelopeV1, envelope.signature.length = 64 →
      decode envelope.encode = .ok envelope) ∧
    (∀ bytes envelope, decode bytes = .ok envelope → envelope.signature.length = 64 ∧
      envelope.encode = bytes) ∧
    ∀ bytes more envelope extended, decode bytes = .ok envelope →
      decode (bytes ++ more) = .ok extended →
      more = [] := by
  refine ⟨fun _ => decode_encode, fun _ _ => encode_of_decode, ?_⟩
  intro bytes more envelope extended hshort hlong
  obtain ⟨hsignature, rfl⟩ := encode_of_decode hshort
  obtain ⟨hsignature', hextended⟩ := encode_of_decode hlong
  simp only [encode, encodeUnsigned, List.append_assoc] at hextended
  obtain ⟨-, hextended⟩ := List.append_inj hextended (by simp)
  obtain ⟨-, hextended⟩ := List.append_inj hextended (by simp)
  -- the tags decide where the action ends
  obtain ⟨-, hrest⟩ := ManagementActionV1.recognizes_action.append_inj trivial trivial hextended
  have hlengths := congrArg List.length hrest
  simp only [List.length_append, List.Vector.toList_length, hsignature, hsignature'] at hlengths
  exact List.eq_nil_of_length_eq_zero (by omega)

end ManagementEnvelopeV1

/-- The action of a management envelope that the policy of the service authorizes. -/
def verifySignedManagementAction (crypto : CryptoLibrary) (bytes : Bytes)
    (genesisHash expectedInstance : FixedBytes 32) (expectedNonce : UInt64)
    (policy : ManagementPolicyV1) : Except ManagementError ManagementActionV1 := do
  let envelope ← ManagementEnvelopeV1.decode bytes
  envelope.verify crypto genesisHash expectedInstance expectedNonce policy
  pure envelope.action

/-- Which bytes authorize a management action: those of the one envelope that carries it for this
instance and nonce with a signature of the account in the policy. -/
theorem verifySignedManagementAction_eq_ok {crypto : CryptoLibrary} {bytes : Bytes}
    {genesisHash instanceId : FixedBytes 32} {nonce : UInt64} {policy : ManagementPolicyV1}
    {action : ManagementActionV1} :
    verifySignedManagementAction crypto bytes genesisHash instanceId nonce policy = .ok action ↔
      ∃ account signature, policy = .key account ∧ signature.length = 64 ∧
        bytes = (ManagementEnvelopeV1.mk instanceId nonce action account signature).encode ∧
        ∃ sender, crypto.verifySr25519 account.toList signature
          (crypto.blake2_256 (managementDomainV1 ++ genesisHash.toList ++ instanceId.toList ++
            u64ToLe nonce ++
            action.encode)).toList = .ok sender := by
  constructor
  · intro h
    obtain ⟨envelope, hdecode, h⟩ := bind_eq_ok.mp h
    obtain ⟨_, hverify, haction⟩ := bind_eq_ok.mp h
    obtain ⟨_, hinstance, hrest⟩ := bind_eq_ok.mp hverify
    obtain ⟨_, hnonce, hpolicy⟩ := bind_eq_ok.mp hrest
    cases policy with
    | immutable => cases hpolicy
    | key account =>
      obtain ⟨_, hsigner, hsigned⟩ := bind_eq_ok.mp hpolicy
      obtain ⟨_, hlength, hcheck⟩ := bind_eq_ok.mp hsigned
      obtain ⟨sender, hsender, -⟩ := bind_eq_ok.mp hcheck
      obtain rfl : envelope.action = action := Except.ok.inj haction
      rw [ensure_eq_ok] at hinstance hnonce hsigner hlength
      subst hinstance hnonce hsigner
      exact ⟨_, _, rfl, hlength, (ManagementEnvelopeV1.encode_of_decode hdecode).2.symm, sender,
        mapError_eq_ok.mp hsender⟩
  · rintro ⟨account, signature, rfl, hlength, rfl, sender, hsender⟩
    refine bind_eq_ok.mpr ⟨_, ManagementEnvelopeV1.decode_encode hlength,
      bind_eq_ok.mpr ⟨(), ?_, rfl⟩⟩
    refine bind_eq_ok.mpr ⟨(), ensure_eq_ok.mpr rfl, bind_eq_ok.mpr ⟨(), ensure_eq_ok.mpr rfl, ?_⟩⟩
    refine bind_eq_ok.mpr ⟨(), ensure_eq_ok.mpr rfl, bind_eq_ok.mpr
      ⟨(), ensure_eq_ok.mpr hlength, ?_⟩⟩
    exact bind_eq_ok.mpr ⟨sender, mapError_eq_ok.mpr hsender, rfl⟩

end JamScript
