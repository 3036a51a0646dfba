import JamScript.Common.Inverse

/-!
# Wire primitives of the service runtime

The constants, the error type and the `Reader` and `Writer` of `service-runtime-core`, together with
the 34-byte commitment a service keeps in its storage. A `Reader` is a byte parser; a `Writer` is
the byte string written so far, so each of its methods is given as the bytes it appends.
-/

namespace JamScript

open Codec

/-- The root of a service's state trie. -/
abbrev StateRoot := FixedBytes 32

/-- The bytes of an ASCII string constant. -/
def ascii (text : String) : Bytes := text.toList.map fun c => UInt8.ofNat c.toNat

/-- The first byte of a commitment. -/
def managedStateProtocolVersion : UInt8 := 1
/-- The second byte of a commitment. -/
def managedStateLayoutVersion : UInt8 := 1
/-- The first byte of a recovery payload. -/
def recoveryFormatVersion : UInt8 := 1
/-- The first byte of a state view. -/
def stateViewVersion : UInt8 := 1
/-- The first byte of what a script returns. -/
def scriptActionResultVersion : UInt8 := 1

/-- The root of the trie with no keys. -/
def emptyStateRootV1 : StateRoot :=
  ⟨[0x03, 0x17, 0x0a, 0x2e, 0x75, 0x97, 0xb7, 0xb7, 0xe3, 0xd8, 0x4c, 0x05, 0x39, 0x1d, 0x13, 0x9a,
    0x62, 0xb1, 0x57, 0xe7, 0x87, 0x86, 0xd8, 0xc0, 0x82, 0xf2, 0x9d, 0xcf, 0x4c, 0x11, 0x13, 0x14],
    rfl⟩

/-- Where a service keeps the commitment to its state. -/
def managedStateCommitmentKeyV1 : Bytes := ascii ":jam-service-runtime:managed-state:v1"
/-- Where a service keeps the version of its management record. -/
def managementVersionKeyV1 : Bytes := ascii "__jamscript/management/version"
/-- Where a service marks that its management record exists. -/
def managementInitializedKeyV1 : Bytes := ascii "__jamscript/management/initialized"
/-- Where a service keeps who may manage it. -/
def managementPolicyKeyV1 : Bytes := ascii "__jamscript/management/policy"
/-- Where a service keeps the nonce of its next management action. -/
def managementNonceKeyV1 : Bytes := ascii "__jamscript/management/nonce"

/-- The first byte of the keys that scripts may write. -/
def applicationKeyClassV1 : UInt8 := 0x01
/-- The first byte of the keys that only the runtime writes. -/
def runtimeKeyClassV1 : UInt8 := 0x00
/-- The second byte of the keys under which the runtime keeps nonces. -/
def walletAuthModuleV1 : UInt8 := 0x01

/-- Actions in a batch. -/
def maxRuntimeActions : ℕ := 1024
/-- Changes in a recovery payload. -/
def maxRecoveryChanges : ℕ := 4096
/-- Bytes in a recovery payload. -/
def maxRecoveryBytes : ℕ := 1024 * 1024
/-- Bytes in a state key. -/
def maxStateKeyBytes : ℕ := 4096
/-- Bytes in a state value. -/
def maxStateValueBytes : ℕ := 64 * 1024
/-- Entries in a state view. -/
def maxStateViewEntries : ℕ := maxRecoveryChanges
/-- Bytes in a state view. -/
def maxStateViewBytes : ℕ := 1024 * 1024
/-- Bytes in what a script returns. -/
def maxScriptActionResultBytes : ℕ := maxRecoveryBytes
/-- Foreign services that a batch may read. -/
def maxExternalStateWitnesses : ℕ := 64

/-- `is_reserved_service_storage_key`: keys that applications may never write. -/
def isReservedServiceStorageKey (key : Bytes) : Bool :=
  key == managedStateCommitmentKeyV1 || key == managementVersionKeyV1 ||
    key == managementInitializedKeyV1 || key == managementPolicyKeyV1 || key == managementNonceKeyV1

/-- Why a byte string is not a valid encoding, or a value has none. -/
inductive WireError where
  | invalidLength
  | unexpectedEof
  | invalidEncoding
  | unsupportedVersion
  | lengthOverflow
  | duplicateKey
  | unsortedKeys
  | tooManyItems
  | reservedKey
  | duplicateServiceId
  | unsortedDependencies
  deriving DecidableEq, Repr

/-! ## Reader and Writer -/

/-- A reader over the bytes that are left. -/
abbrev Reader (α : Type) := Parser WireError α

namespace Reader

/-- `Reader::take`. -/
def take (length : ℕ) : Reader Bytes := Parser.take .unexpectedEof length

/-- `Reader::array`. -/
def array (n : ℕ) : Reader (FixedBytes n) := Parser.array .unexpectedEof n

/-- `Reader::u8`. -/
def u8 : Reader UInt8 := do
  let bytes ← take 1
  match bytes with
  | byte :: _ => pure byte
  | [] => throw .unexpectedEof

/-- `Reader::u32`. -/
def u32 : Reader UInt32 := do
  let bytes ← take 4
  pure (u32OfLe bytes)

/-- `Reader::u64`. -/
def u64 : Reader UInt64 := do
  let bytes ← take 8
  pure (u64OfLe bytes)

/-- `Reader::bytes_limited`: the length is checked before the bytes are taken. -/
def bytesLimited (maximum : ℕ) : Reader Bytes := do
  let length ← u32
  Parser.check (length.toNat ≤ maximum) .tooManyItems
  take length.toNat

/-- A flag byte and, when it is 1, a value; the source writes these lines out for each type of
value. -/
def optional {α : Type} (value : Reader α) : Reader (Option α) := do
  match ← u8 with
  | 0 => pure none
  | 1 => do
    let value ← value
    pure (some value)
  | _ => throw .invalidEncoding

end Reader

namespace Writer

/-- `Writer::bytes_u32`: a 32-bit length and the bytes. -/
def bytesU32 (value : Bytes) : Except WireError Bytes :=
  if value.length < 2 ^ 32 then pure (u32ToLe (UInt32.ofNat value.length) ++ value)
  else throw .lengthOverflow

/-- Only the length can be refused. -/
theorem bytesU32_eq_ok {value written : Bytes} : bytesU32 value = .ok written ↔
    value.length < 2 ^ 32 ∧ written = u32ToLe (UInt32.ofNat value.length) ++ value := by
  unfold bytesU32
  split
  case isTrue h => exact ⟨fun heq => ⟨h, (Except.ok.inj heq).symm⟩, fun heq =>
    congrArg Except.ok heq.2.symm⟩
  case isFalse h => exact ⟨nofun, fun heq => absurd heq.1 h⟩

theorem bytesU32_of_le {value : Bytes} {maximum : ℕ} (h : value.length ≤ maximum)
    (hmax : maximum < 2 ^ 32) : bytesU32 value =
      .ok (u32ToLe (UInt32.ofNat value.length) ++ value) :=
  bytesU32_eq_ok.mpr ⟨h.trans_lt hmax, rfl⟩

/-- Four bytes of length come first. -/
theorem length_bytesU32 {value written : Bytes} (h : bytesU32 value = .ok written) :
    written.length = 4 + value.length := by
  rw [(bytesU32_eq_ok.mp h).2, List.length_append, length_u32ToLe]

end Writer

/-- A count within its limit is written as it is. -/
theorem toNat_count {count maximum : ℕ} (h : count ≤ maximum) (hmax : maximum < 2 ^ 32) :
    (UInt32.ofNat count).toNat = count :=
  UInt32.toNat_ofNat_of_lt' (h.trans_lt hmax)

/-! ### What a reader that succeeds has read -/

namespace Reader

/-- Taking bytes, by what is left of the input. -/
theorem take_eq_ok {length : ℕ} {bytes value rest : Bytes} :
    take length bytes = .ok (value, rest) ↔
      length ≤ bytes.length ∧ value = bytes.take length ∧ rest = bytes.drop length := by
  unfold take Parser.take
  split <;> simp_all [eq_comm]

theorem u8_eq_ok {bytes rest : Bytes} {byte : UInt8} :
    u8 bytes = .ok (byte, rest) ↔ bytes = byte :: rest :=
  (Parser.recognizes_u8 WireError.unexpectedEof).total_eq_ok

theorem u32_iff {bytes rest : Bytes} {value : UInt32} :
    u32 bytes = .ok (value, rest) ↔ bytes = u32ToLe value ++ rest :=
  (Parser.recognizes_u32 WireError.unexpectedEof).total_eq_ok

theorem u64_iff {bytes rest : Bytes} {value : UInt64} :
    u64 bytes = .ok (value, rest) ↔ bytes = u64ToLe value ++ rest :=
  (Parser.recognizes_u64 WireError.unexpectedEof).total_eq_ok

theorem array_eq_ok {n : ℕ} {bytes rest : Bytes} {value : FixedBytes n} :
    array n bytes = .ok (value, rest) ↔ bytes = value.toList ++ rest := Parser.array_eq_ok

/-- What `bytes_u32` writes, `bytes_limited` reads back when it is within the limit, and nothing
else. -/
theorem invertsOn_bytesLimited (maximum : ℕ) :
    InvertsOn (bytesLimited maximum) (fun value => value.length ≤ maximum) Writer.bytesU32 := by
  constructor
  intro bytes rest value
  simp only [bytesLimited, Parser.bind_eq_ok, Parser.check_eq_ok, u32_iff, exists_const, take,
    Parser.take_eq_ok]
  constructor
  · rintro ⟨length, _, rfl, _, ⟨hmax, rfl⟩, hvalue, rfl⟩
    refine ⟨hvalue ▸ hmax, _, Writer.bytesU32_eq_ok.mpr ⟨hvalue ▸ length.toNat_lt, rfl⟩, ?_⟩
    rw [hvalue, UInt32.ofNat_toNat, List.append_assoc]
  · rintro ⟨hmax, written, hwritten, rfl⟩
    obtain ⟨hlt, rfl⟩ := Writer.bytesU32_eq_ok.mp hwritten
    -- the length has come through the four bytes unchanged
    have hnat : (UInt32.ofNat value.length).toNat = value.length := UInt32.toNat_ofNat_of_lt' hlt
    exact ⟨_, _, List.append_assoc _ _ _, _, ⟨hnat.trans_le hmax, rfl⟩, hnat.symm, rfl⟩

/-- What is read within a limit is what the writer wrote, if it keeps the limit. -/
theorem bytesLimited_iff {maximum : ℕ} {bytes value rest : Bytes} :
    bytesLimited maximum bytes = .ok (value, rest) ↔ value.length ≤ maximum ∧
      ∃ written, Writer.bytesU32 value = .ok written ∧ bytes = written ++ rest :=
  (invertsOn_bytesLimited maximum).eq_ok

/-- An encoder that checks the limit itself. -/
theorem inverts_bytesLimited (maximum : ℕ) (e : WireError) :
    Inverts (bytesLimited maximum) fun value =>
    ensure (value.length ≤ maximum) e >>= fun _ => Writer.bytesU32 value := by
  intro bytes rest value
  simp only [bytesLimited_iff, bind_eq_ok, ensure_eq_ok, exists_const, and_assoc, exists_and_left]

/-- A flag byte other than 0 and 1 is not accepted, so the flag is the one that is written. -/
theorem optional_eq_ok {α : Type} {p : Reader α} {bytes rest : Bytes} {value : Option α} :
    optional p bytes = .ok (value, rest) ↔ ∃ mid, match value with
      | none => bytes = 0 :: rest ∧ mid = rest
      | some a => bytes = 1 :: mid ∧ p mid = .ok (a, rest) := by
  rw [optional, Parser.bind_eq_ok]
  constructor
  · rintro ⟨flag, mid, hflag, h⟩
    obtain rfl := u8_eq_ok.mp hflag
    -- absent, present, or a flag that is refused
    split at h
    · obtain ⟨rfl, rfl⟩ := Parser.pure_eq_ok.mp h
      exact ⟨mid, rfl, rfl⟩
    · obtain ⟨a, _, ha, h⟩ := Parser.bind_eq_ok.mp h
      obtain ⟨rfl, rfl⟩ := Parser.pure_eq_ok.mp h
      exact ⟨mid, rfl, ha⟩
    · cases h
  · rintro ⟨mid, h⟩
    cases value with
    | none =>
      obtain ⟨rfl, rfl⟩ := h
      exact ⟨0, mid, rfl, rfl⟩
    | some a =>
      obtain ⟨rfl, ha⟩ := h
      exact ⟨1, mid, rfl, Parser.bind_eq_ok.mpr ⟨a, rest, ha, rfl⟩⟩

/-- Continuing after an optional field, one branch at a time. -/
theorem optional_bind {α β : Type} (p : Reader α) (f : Option α → Reader β) :
    (optional p >>= f) = (do
      match ← u8 with
      | 0 => f none
      | 1 => do
        let value ← p
        f (some value)
      | _ => throw .invalidEncoding) := by
  rw [optional, bind_assoc]
  refine bind_congr fun flag => ?_
  split
  · rfl
  · simp
  · rfl

/-- Reading a number, by positions in the input. -/
theorem u32_eq_ok {bytes rest : Bytes} {value : UInt32} :
    u32 bytes = .ok (value, rest) ↔
      4 ≤ bytes.length ∧ value.toNat = ofLe (bytes.take 4) ∧ rest = bytes.drop 4 := by
  have hlt : 4 ≤ bytes.length → ofLe (bytes.take 4) < 2 ^ 32 := fun h => by
    have := ofLe_lt (bytes.take 4)
    rwa [List.length_take_of_le h] at this
  unfold u32
  rw [Parser.bind_eq_ok]
  constructor
  · rintro ⟨_, _, htake, hvalue⟩
    obtain ⟨h, rfl, rfl⟩ := take_eq_ok.mp htake
    obtain ⟨rfl, rfl⟩ := Parser.pure_eq_ok.mp hvalue
    exact ⟨h, UInt32.toNat_ofNat_of_lt' (hlt h), rfl⟩
  · rintro ⟨h, hvalue, rfl⟩
    refine ⟨_, _, take_eq_ok.mpr ⟨h, rfl, rfl⟩, Parser.pure_eq_ok.mpr ⟨?_, rfl⟩⟩
    rw [u32OfLe, ← hvalue, UInt32.ofNat_toNat]

/-- Reading within a limit, by positions in the input. -/
theorem bytesLimited_eq_ok {maximum : ℕ} {bytes value rest : Bytes} :
    bytesLimited maximum bytes = .ok (value, rest) ↔
      ofLe (bytes.take 4) ≤ maximum ∧ 4 + ofLe (bytes.take 4) ≤ bytes.length ∧
        value = (bytes.drop 4).take (ofLe (bytes.take 4)) ∧
        rest = bytes.drop (4 + ofLe (bytes.take 4)) := by
  unfold bytesLimited
  rw [Parser.bind_eq_ok]
  constructor
  · rintro ⟨length, _, hlength, h⟩
    obtain ⟨hfour, hnat, rfl⟩ := u32_eq_ok.mp hlength
    obtain ⟨_, _, hcheck, h⟩ := Parser.bind_eq_ok.mp h
    obtain ⟨hmax, rfl⟩ := Parser.check_eq_ok.mp hcheck
    obtain ⟨hlong, rfl, rfl⟩ := take_eq_ok.mp h
    rw [List.length_drop] at hlong
    rw [List.drop_drop, hnat]
    exact ⟨by omega, by omega, rfl, rfl⟩
  · -- four bytes always make a length, so only the limit and the end of the input matter
    rintro ⟨hmax, hlong, rfl, rfl⟩
    have hfour : 4 ≤ bytes.length := by omega
    have hlt : ofLe (bytes.take 4) < 2 ^ 32 := by
      have := ofLe_lt (bytes.take 4)
      rwa [List.length_take_of_le hfour] at this
    have hnat : (UInt32.ofNat (ofLe (bytes.take 4))).toNat = ofLe (bytes.take 4) :=
      UInt32.toNat_ofNat_of_lt' hlt
    refine ⟨_, _, u32_eq_ok.mpr ⟨hfour, hnat, rfl⟩, Parser.bind_eq_ok.mpr ⟨(), _,
      Parser.check_eq_ok.mpr ⟨by omega, rfl⟩, take_eq_ok.mpr ⟨?_, ?_, ?_⟩⟩⟩
    · rw [List.length_drop]
      omega
    · rw [hnat]
    · rw [hnat, List.drop_drop]

theorem consumes_u8 : Consumes u8 fun byte => [byte] := u8_eq_ok.mp

theorem consumes_u32 : Consumes u32 u32ToLe := u32_iff.mp

theorem consumes_bytesLimited (maximum : ℕ) : Consumes (bytesLimited maximum)
    fun value => u32ToLe (UInt32.ofNat value.length) ++ value := by
  intro bytes rest value h
  obtain ⟨-, written, hwritten, rfl⟩ := bytesLimited_iff.mp h
  rw [(Writer.bytesU32_eq_ok.mp hwritten).2]

theorem length_le_of_bytesLimited {maximum : ℕ} {bytes value rest : Bytes}
    (h : bytesLimited maximum bytes = .ok (value, rest)) : value.length ≤ maximum :=
  (bytesLimited_iff.mp h).1

end Reader

theorem reads_u8 (x : UInt8) : Reads Reader.u8 [x] x := fun _ => rfl

theorem reads_u32 (x : UInt32) : Reads Reader.u32 (u32ToLe x) x := fun _ => Reader.u32_iff.mpr rfl

/-- The bytes of a root are read as that root. -/
theorem reads_rootArray (root : StateRoot) : Reads (Reader.array 32) root.toList root :=
  reads_array WireError.unexpectedEof root

theorem reads_bytesLimited {value written : Bytes} {maximum : ℕ}
    (hwrite : Writer.bytesU32 value = .ok written) (hmax : value.length ≤ maximum) :
    Reads (Reader.bytesLimited maximum) written value :=
  fun _ => Reader.bytesLimited_iff.mpr ⟨hmax, written, hwrite, rfl⟩

/-! ## The commitment of a service -/

/-- The value a service keeps under `managedStateCommitmentKeyV1`. -/
structure ManagedStateCommitmentV1 where
  protocolVersion : UInt8
  layoutVersion : UInt8
  root : StateRoot
  deriving DecidableEq

namespace ManagedStateCommitmentV1

/-- `ManagedStateCommitmentV1::new`. -/
def new (root : StateRoot) : ManagedStateCommitmentV1 :=
  ⟨managedStateProtocolVersion, managedStateLayoutVersion, root⟩

/-- `ManagedStateCommitmentV1::encode`. -/
def encode (commitment : ManagedStateCommitmentV1) : FixedBytes 34 :=
  ⟨commitment.protocolVersion :: commitment.layoutVersion :: commitment.root.toList, by simp⟩

/-- `ManagedStateCommitmentV1::decode`. -/
def decode (bytes : Bytes) : Except WireError ManagedStateCommitmentV1 :=
  match bytes with
  | protocolVersion :: layoutVersion :: root =>
    if hroot : root.length = 32 then
      if protocolVersion ≠ managedStateProtocolVersion ∨
        layoutVersion ≠ managedStateLayoutVersion then
        .error .unsupportedVersion
      else .ok ⟨protocolVersion, layoutVersion, ⟨root, hroot⟩⟩
    else .error .invalidLength
  | _ => .error .invalidLength

/-- A byte string is a commitment exactly when it is the encoding of one. -/
theorem decode_eq_ok {bytes : Bytes} {commitment : ManagedStateCommitmentV1} :
    decode bytes = .ok commitment ↔
      commitment = new commitment.root ∧ bytes = commitment.encode.toList := by
  constructor
  · intro h
    unfold decode at h
    split at h
    case h_2 => cases h
    case h_1 protocolVersion layoutVersion root =>
      split at h
      case isFalse => cases h
      case isTrue hroot =>
        split at h
        case isTrue => cases h
        case isFalse hversion =>
          simp only [not_or, not_not] at hversion
          obtain ⟨rfl, rfl⟩ := hversion
          cases h
          exact ⟨rfl, rfl⟩
  · rintro ⟨hnew, rfl⟩
    rw [hnew]
    have hroot : commitment.root.toList.length = 32 := commitment.root.toList_length
    simp only [decode, encode, new, List.Vector.toList_mk, hroot, ↓reduceDIte, ne_eq,
      not_true_eq_false, or_self, ↓reduceIte]
    rfl

end ManagedStateCommitmentV1

end JamScript
