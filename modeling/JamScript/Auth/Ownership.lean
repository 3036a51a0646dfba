import JamScript.Core.Wire
import JamScript.Common.Fields

/-!
# Ownership values

`ownership-core`: a public value tagged with its kind, its canonical encoding, and the hash that
names it in a service's state. Every value `decode` accepts passes `validate`, and `encode` is
injective on valid values, so two controllers share a nonce key only through a hash collision.
-/

namespace JamScript

open Codec

/-- The only version of an ownership value. -/
def ownershipVersionV1 : UInt8 := 1
/-- The longest encoding of an ownership value. -/
def maxOwnershipBytes : ℕ := 4096
/-- What is hashed before an ownership value to get its key. -/
def ownershipKeyDomainV1 : Bytes := ascii "OWNERSHIP_ABSTRACTION_KEY_V1"

/-- How an account proves that it is its own. -/
inductive OwnershipKind where
  | ed25519Key
  | sr25519Key
  | secp256k1Key
  | secp256k1Keccak20
  | multicryptoAccount32
  deriving DecidableEq, Repr

/-- Why an ownership value or its encoding is refused. -/
inductive OwnershipError where
  | invalidVersion
  | unsupportedKind (kind : UInt8)
  | invalidPublicLength
  | invalidPublicValue
  | invalidEncoding
  | tooLarge
  deriving DecidableEq, Repr

namespace OwnershipKind

/-- The `repr(u8)` discriminant. -/
def toU8 : OwnershipKind → UInt8
  | .ed25519Key => 0
  | .sr25519Key => 1
  | .secp256k1Key => 2
  | .secp256k1Keccak20 => 3
  | .multicryptoAccount32 => 4

/-- `OwnershipKind::try_from`. -/
def tryFrom (value : UInt8) : Except OwnershipError OwnershipKind :=
  match value with
  | 0 => .ok .ed25519Key
  | 1 => .ok .sr25519Key
  | 2 => .ok .secp256k1Key
  | 3 => .ok .secp256k1Keccak20
  | 4 => .ok .multicryptoAccount32
  | _ => .error (.unsupportedKind value)

/-- The length of a public value, by its kind. -/
def publicLen : OwnershipKind → ℕ
  | .ed25519Key | .sr25519Key | .multicryptoAccount32 => 32
  | .secp256k1Key => 33
  | .secp256k1Keccak20 => 20

/-- Different kinds have different codes. -/
theorem toU8_injective : Function.Injective toU8 := by
  intro a b h
  cases a <;> cases b <;> first | rfl | exact absurd h (by decide)

/-- A code is read as the kind it stands for. -/
theorem tryFrom_toU8 (kind : OwnershipKind) : tryFrom kind.toU8 = .ok kind := by
  cases kind <;> rfl

/-- A code that is read stands for the kind that is returned. -/
theorem tryFrom_eq_ok {value : UInt8} {kind : OwnershipKind} (h : tryFrom value = .ok kind) :
    value = kind.toU8 := by
  unfold tryFrom at h
  split at h <;> cases h <;> rfl

end OwnershipKind

/-- An account, by its public value. -/
structure Ownership where
  version : UInt8
  kind : OwnershipKind
  publicValue : Bytes
  deriving DecidableEq, Repr

namespace Ownership

/-- A compressed curve point begins with 2 or 3; nothing else of a public value is checked. -/
def validate (ownership : Ownership) : Except OwnershipError Unit := do
  ensure (ownership.version = ownershipVersionV1) OwnershipError.invalidVersion
  ensure (ownership.publicValue.length = ownership.kind.publicLen)
    OwnershipError.invalidPublicLength
  ensure (ownership.kind = .secp256k1Key →
    ownership.publicValue.head? = some 2 ∨ ownership.publicValue.head? = some 3)
    OwnershipError.invalidPublicValue

/-- `Ownership::new`. -/
def new (kind : OwnershipKind) (publicValue : Bytes) : Except OwnershipError Ownership := do
  let ownership : Ownership := ⟨ownershipVersionV1, kind, publicValue⟩
  ownership.validate
  pure ownership

/-- `Ownership::encode`. -/
def encode (ownership : Ownership) : Except OwnershipError Bytes := do
  ownership.validate
  ensure (ownership.publicValue.length < 2 ^ 16) OwnershipError.tooLarge
  let encoded := [ownership.version, ownership.kind.toU8] ++
    u16ToLe (UInt16.ofNat ownership.publicValue.length) ++ ownership.publicValue
  ensure (encoded.length ≤ maxOwnershipBytes) OwnershipError.tooLarge
  pure encoded

/-- `Ownership::decode`. -/
def decode (bytes : Bytes) : Except OwnershipError Ownership := do
  ensure (bytes.length ≤ maxOwnershipBytes) OwnershipError.tooLarge
  match bytes with
  | version :: kind :: low :: high :: publicValue => do
    ensure (version = ownershipVersionV1) OwnershipError.invalidVersion
    let kind ← OwnershipKind.tryFrom kind
    let length := (u16OfLe [low, high]).toNat
    ensure (length = kind.publicLen ∧ publicValue.length = length) OwnershipError.invalidEncoding
    new kind publicValue
  | _ => throw .invalidEncoding

/-- The hash that names an ownership value in a service's state. -/
def key (blake2_256 : Bytes → FixedBytes 32) (ownership : Ownership) :
    Except OwnershipError (FixedBytes 32) := do
  let canonical ← ownership.encode
  pure (blake2_256 (ownershipKeyDomainV1 ++ canonical))

/-- The bytes of an encoding. -/
theorem encode_eq_ok {ownership : Ownership} {encoded : Bytes}
    (h : ownership.encode = .ok encoded) :
    encoded = [ownership.version, ownership.kind.toU8] ++
      u16ToLe (UInt16.ofNat ownership.publicValue.length) ++ ownership.publicValue := by
  obtain ⟨_, _, h⟩ := bind_eq_ok.mp h
  obtain ⟨_, _, h⟩ := bind_eq_ok.mp h
  obtain ⟨_, _, h⟩ := bind_eq_ok.mp h
  cases h
  rfl

/-- Only valid values are decoded. -/
theorem validate_of_decode {bytes : Bytes} {ownership : Ownership}
    (h : decode bytes = .ok ownership) : ownership.validate = .ok () := by
  obtain ⟨_, _, h⟩ := bind_eq_ok.mp h
  match bytes, h with
  | version :: kind :: low :: high :: publicValue, h =>
    -- the last step of the decoder is `Ownership::new`, which validates
    obtain ⟨_, _, h⟩ := bind_eq_ok.mp h
    obtain ⟨kind, _, h⟩ := bind_eq_ok.mp h
    obtain ⟨_, _, h⟩ := bind_eq_ok.mp h
    obtain ⟨_, hvalid, h⟩ := bind_eq_ok.mp h
    cases h
    exact hvalid

/-- The longest public value is a compressed curve point. -/
theorem length_of_validate {ownership : Ownership} (h : ownership.validate = .ok ()) :
    ownership.publicValue.length ≤ 33 := by
  obtain ⟨_, _, h⟩ := bind_eq_ok.mp h
  obtain ⟨_, hlength, _⟩ := bind_eq_ok.mp h
  rw [ensure_eq_ok] at hlength
  rw [hlength]
  cases ownership.kind <;> decide

/-- Valid values can be encoded: every kind has a short public value. -/
theorem encode_of_validate {ownership : Ownership} (h : ownership.validate = .ok ()) :
    ∃ encoded, ownership.encode = .ok encoded := by
  have hlength := length_of_validate h
  have hshort : ownership.publicValue.length < 2 ^ 16 := by omega
  have hsize : ([ownership.version, ownership.kind.toU8] ++
      u16ToLe (UInt16.ofNat ownership.publicValue.length) ++ ownership.publicValue).length
        ≤ maxOwnershipBytes := by
    simp only [List.length_append, length_u16ToLe, List.length_cons, List.length_nil,
      maxOwnershipBytes]
    omega
  exact ⟨_, bind_eq_ok.mpr ⟨(), h, bind_eq_ok.mpr ⟨(), ensure_eq_ok.mpr hshort,
    bind_eq_ok.mpr ⟨(), ensure_eq_ok.mpr hsize, rfl⟩⟩⟩⟩

/-- Different ownership values have different canonical encodings. -/
theorem encode_injective {left right : Ownership} {encoded : Bytes}
    (hleft : left.encode = .ok encoded) (hright : right.encode = .ok encoded) : left = right := by
  have h := (encode_eq_ok hleft).symm.trans (encode_eq_ok hright)
  simp only [List.cons_append, List.nil_append, List.cons.injEq] at h
  obtain ⟨hversion, hkind, htail⟩ := h
  -- the length field has two bytes, so the public values begin at the same place
  obtain ⟨_, hpublic⟩ := List.append_inj htail (by simp)
  have hkind := OwnershipKind.toU8_injective hkind
  cases left
  cases right
  simp_all

/-- What makes a value valid. -/
theorem validate_eq_ok {ownership : Ownership} : ownership.validate = .ok () ↔
    ownership.version = ownershipVersionV1 ∧
      ownership.publicValue.length = ownership.kind.publicLen ∧
      (ownership.kind = .secp256k1Key →
        ownership.publicValue.head? = some 2 ∨ ownership.publicValue.head? = some 3) := by
  unfold validate
  simp only [bind_eq_ok, ensure_eq_ok, exists_const]

/-- The decoder accepts the canonical encodings and nothing else. -/
theorem decode_eq_ok {bytes : Bytes} {ownership : Ownership} :
    decode bytes = .ok ownership ↔ ownership.encode = .ok bytes := by
  constructor
  · intro h
    have hvalid := validate_of_decode h
    obtain ⟨encoded, hencoded⟩ := encode_of_validate hvalid
    rw [hencoded, encode_eq_ok hencoded]
    -- every field of the encoding is the one that was read
    congr 1
    obtain ⟨_, _, h⟩ := bind_eq_ok.mp h
    match bytes, h with
    | version :: kindByte :: low :: high :: publicValue, h =>
      obtain ⟨_, hversion, h⟩ := bind_eq_ok.mp h
      obtain ⟨kind, hkind, h⟩ := bind_eq_ok.mp h
      obtain ⟨_, hlength, h⟩ := bind_eq_ok.mp h
      obtain ⟨_, _, h⟩ := bind_eq_ok.mp h
      cases h
      obtain ⟨-, hpublic⟩ := ensure_eq_ok.mp hlength
      have hle : u16ToLe (UInt16.ofNat publicValue.length) = [low, high] := by
        rw [hpublic, UInt16.ofNat_toNat, u16ToLe_u16OfLe rfl]
      dsimp only
      rw [hle, OwnershipKind.tryFrom_eq_ok hkind, ensure_eq_ok.mp hversion]
      rfl
  · intro h
    obtain ⟨_, hvalid, hrest⟩ := bind_eq_ok.mp h
    obtain ⟨_, hshort, hrest⟩ := bind_eq_ok.mp hrest
    obtain ⟨_, hsize, _⟩ := bind_eq_ok.mp hrest
    rw [ensure_eq_ok] at hshort hsize
    have hnat : (UInt16.ofNat ownership.publicValue.length).toNat = ownership.publicValue.length :=
      UInt16.toNat_ofNat_of_lt' hshort
    obtain ⟨low, high, hle⟩ := List.length_eq_two.mp
      (length_u16ToLe (UInt16.ofNat ownership.publicValue.length))
    have hof : (u16OfLe [low, high]).toNat = ownership.publicValue.length := by
      rw [← hle, u16OfLe_u16ToLe, hnat]
    have hfields := validate_eq_ok.mp hvalid
    obtain ⟨version, kind, publicValue⟩ := ownership
    obtain ⟨hversion, hlength, -⟩ := hfields
    dsimp only at hversion hlength hof hle
    subst hversion
    rw [encode_eq_ok h]
    dsimp only at hsize ⊢
    rw [hle] at hsize ⊢
    refine bind_eq_ok.mpr ⟨(), ensure_eq_ok.mpr hsize, bind_eq_ok.mpr ⟨(), ensure_eq_ok.mpr rfl,
      bind_eq_ok.mpr ⟨kind, kind.tryFrom_toU8, bind_eq_ok.mpr ⟨(), ensure_eq_ok.mpr ?_,
        bind_eq_ok.mpr ⟨(), hvalid, rfl⟩⟩⟩⟩⟩
    exact ⟨hof.trans hlength, hof.symm⟩

/-- The canonical encoding, also of values that are not valid. -/
def bytes (ownership : Ownership) : Bytes :=
  [ownership.version, ownership.kind.toU8] ++
    u16ToLe (UInt16.ofNat ownership.publicValue.length) ++ ownership.publicValue

/-- The valid values have an encoding, and no others. -/
theorem encode_eq_ok_iff {ownership : Ownership} {encoded : Bytes} :
    ownership.encode = .ok encoded ↔ ownership.validate = .ok () ∧ encoded = ownership.bytes := by
  constructor
  · intro h
    exact ⟨(bind_eq_ok.mp h).choose_spec.1, encode_eq_ok h⟩
  · rintro ⟨hvalid, rfl⟩
    obtain ⟨encoded, hencoded⟩ := encode_of_validate hvalid
    rw [hencoded, encode_eq_ok hencoded, bytes]

/-- The encoding of a valid value can be split off the front of a byte string in one way only. -/
theorem bytes_append_inj {left right : Ownership} {s t : Bytes} (hleft : left.validate = .ok ())
    (hright : right.validate = .ok ()) (h : left.bytes ++ s = right.bytes ++ t) :
    left = right ∧ s = t := by
  obtain ⟨-, hlengthLeft, -⟩ := validate_eq_ok.mp hleft
  obtain ⟨-, hlengthRight, -⟩ := validate_eq_ok.mp hright
  obtain ⟨version, kind, publicValue⟩ := left
  obtain ⟨version', kind', publicValue'⟩ := right
  simp only [bytes, List.cons_append, List.nil_append, List.append_assoc, List.cons.injEq] at h
  obtain ⟨rfl, hkind, h⟩ := h
  obtain rfl := OwnershipKind.toU8_injective hkind
  obtain ⟨-, h⟩ := List.append_inj h (by simp)
  obtain ⟨rfl, rfl⟩ := List.append_inj h (hlengthLeft.trans hlengthRight.symm)
  exact ⟨rfl, rfl⟩

/-- The length of an encoding fits the field before it in an envelope. -/
theorem length_bytes_lt {ownership : Ownership} (h : ownership.validate = .ok ()) :
    ownership.bytes.length < 2 ^ 16 := by
  have hlength := length_of_validate h
  simp only [bytes, List.length_append, List.length_cons, List.length_nil, length_u16ToLe]
  omega

end Ownership

end JamScript
