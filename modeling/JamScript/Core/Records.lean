import JamScript.Core.Wire

/-!
# State views, diffs, recovery payloads and script results

The records of `service-runtime-core` that travel between the host, the guest and a script: the
state view a script reads, the diff a batch produces, the recovery payload that carries the diff,
and the result record a script returns. Keyed records are canonical: sorted by key, without
duplicates.
-/

namespace JamScript

open Codec

/-- The check both keyed records make on adjacent keys (`windows(2)`). -/
def validateKeyOrder : List Bytes → Except WireError Unit
  | left :: right :: rest => do
    ensure (left ≠ right) WireError.duplicateKey
    ensure (compare left right ≠ .gt) WireError.unsortedKeys
    validateKeyOrder (right :: rest)
  | _ => pure ()

/-- The keyed records' optional value: a flag byte and, for a present value, its bytes. -/
def writeOptionalValue : Option Bytes → Except WireError Bytes
  | some value => do
    let written ← Writer.bytesU32 value
    pure (1 :: written)
  | none => pure [0]

/-- A flag byte and, when it is 1, a bounded value. -/
def readOptionalValue (maximum : ℕ) : Reader (Option Bytes) :=
  Reader.optional (Reader.bytesLimited maximum)

/-- An optional value is read back if it keeps the limit. -/
theorem invertsOn_readOptionalValue (maximum : ℕ) : InvertsOn (readOptionalValue maximum)
    (fun value => ∀ stored ∈ value, stored.length ≤ maximum) writeOptionalValue := by
  constructor
  intro bytes rest value
  rw [readOptionalValue, Reader.optional_eq_ok]
  cases value with
  | none => simp [writeOptionalValue, pure_eq_ok]
  | some stored =>
    simp only [Reader.bytesLimited_iff, writeOptionalValue, bind_eq_ok, pure_eq_ok]
    constructor
    · rintro ⟨_, rfl, hmax, written, hwritten, rfl⟩
      exact ⟨fun _ h => Option.some.inj h ▸ hmax, _, ⟨written, hwritten, rfl⟩, rfl⟩
    · rintro ⟨hmax, _, ⟨written, hwritten, rfl⟩, rfl⟩
      exact ⟨_, rfl, hmax stored rfl, written, hwritten, rfl⟩

/-- An entry of a keyed record is a key and an optional value within the limits. -/
theorem invertsOn_keyedEntry {α : Type} {entry : Bytes → Option Bytes → α} {key : α → Bytes}
    {value : α → Option Bytes} (hentry : ∀ {a k v}, entry k v = a ↔ key a = k ∧ value a = v) :
    InvertsOn (do
        let key ← Reader.bytesLimited maxStateKeyBytes
        let value ← readOptionalValue maxStateValueBytes
        pure (entry key value) : Reader α)
      (fun a => (key a).length ≤ maxStateKeyBytes ∧
        ∀ stored ∈ value a, stored.length ≤ maxStateValueBytes)
      (fun a => do
        let key ← Writer.bytesU32 (key a)
        let value ← writeOptionalValue (value a)
        pure (key ++ value)) := by
  constructor
  intro bytes rest a
  simp only [Parser.bind_eq_ok, Parser.pure_eq_ok, Reader.bytesLimited_iff,
    (invertsOn_readOptionalValue _).eq_ok, hentry, bind_eq_ok, pure_eq_ok]
  constructor
  · rintro ⟨_, _, ⟨hkey, key, hwritten, rfl⟩, _, _, ⟨hvalue, value, hvalueWritten, rfl⟩,
      ⟨rfl, rfl⟩, rfl⟩
    exact ⟨⟨hkey, hvalue⟩, _, ⟨key, hwritten, value, hvalueWritten, rfl⟩,
      (List.append_assoc _ _ _).symm⟩
  · rintro ⟨⟨hkey, hvalue⟩, _, ⟨key, hwritten, value, hvalueWritten, rfl⟩, rfl⟩
    exact ⟨_, _, ⟨hkey, key, hwritten, List.append_assoc _ _ _⟩, _, _,
      ⟨hvalue, value, hvalueWritten, rfl⟩, ⟨rfl, rfl⟩, rfl⟩

/-- Adjacent keys in order are keys in strictly increasing order. -/
theorem validateKeyOrder_eq_ok {keys : List Bytes} :
    validateKeyOrder keys = .ok () ↔ keys.Pairwise fun left right => compare left right = .lt := by
  have htrans : IsTrans Bytes fun left right => compare left right = .lt :=
    ⟨fun _ _ _ => Std.TransCmp.lt_trans⟩
  rw [← List.isChain_iff_pairwise]
  induction keys with
  | nil => simp [validateKeyOrder, Pure.pure, Except.pure]
  | cons left rest ih =>
    cases rest with
    | nil => simp [validateKeyOrder, Pure.pure, Except.pure]
    | cons right rest =>
      have heq : compare left right = .eq ↔ left = right := Std.compare_eq_iff_eq
      have hlt : left ≠ right ∧ compare left right ≠ .gt ↔ compare left right = .lt := by
        rw [ne_eq, ← heq]
        cases compare left right <;> simp
      rw [List.isChain_cons_cons, ← hlt, validateKeyOrder]
      simp [bind_eq_ok, and_assoc, ih]

/-- Sorting by key does not move keys that are in order. -/
theorem insertionSort_of_ordered {α : Type} (key : α → Bytes) {entries : List α}
    (h : (entries.map key).Pairwise fun left right => compare left right = .lt) :
    entries.insertionSort (fun left right => (compare (key left) (key right)).isLE) = entries := by
  refine List.Pairwise.insertionSort_eq ((List.pairwise_map.mp h).imp fun hlt => ?_)
  simp [hlt]

/-! ## State views -/

/-- One key of a state view; `none` means the key was proven absent. -/
structure StateViewEntryV1 where
  key : Bytes
  value : Option Bytes
  deriving DecidableEq, Repr

/-- What a script is shown of the state, in the order of the keys. -/
structure StateViewV1 where
  version : UInt8
  entries : List StateViewEntryV1
  deriving DecidableEq, Repr

namespace StateViewV1

/-- `StateViewV1::validate_canonical`. -/
def validateCanonical (view : StateViewV1) : Except WireError Unit := do
  ensure (view.version = stateViewVersion) WireError.unsupportedVersion
  ensure (view.entries.length ≤ maxStateViewEntries) WireError.tooManyItems
  view.entries.forM fun entry =>
    ensure (entry.key.length ≤ maxStateKeyBytes ∧
      ∀ value ∈ entry.value, value.length ≤ maxStateValueBytes) WireError.tooManyItems
  validateKeyOrder (view.entries.map (·.key))

/-- Sort the entries by key and check the result. -/
def fromEntries (entries : List StateViewEntryV1) : Except WireError StateViewV1 := do
  let view : StateViewV1 :=
    { version := stateViewVersion
      entries := entries.insertionSort fun left right => (compare left.key right.key).isLE }
  view.validateCanonical
  pure view

/-- The binary search of the source, on entries without duplicate keys: `none` for a key that is not
part of the view. -/
def get (view : StateViewV1) (key : Bytes) : Option (Option Bytes) :=
  (view.entries.find? fun entry => entry.key == key).map (·.value)

/-- `StateViewV1::encode`. -/
def encode (view : StateViewV1) : Except WireError Bytes := do
  view.validateCanonical
  let entries ← view.entries.mapM fun entry => do
    let key ← Writer.bytesU32 entry.key
    let value ← writeOptionalValue entry.value
    pure (key ++ value)
  let encoded := view.version :: u32ToLe (UInt32.ofNat view.entries.length) ++ entries.flatten
  ensure (encoded.length ≤ maxStateViewBytes) WireError.tooManyItems
  pure encoded

/-- A key and what is stored there, if anything. -/
def readEntry : Reader StateViewEntryV1 := do
  let key ← Reader.bytesLimited maxStateKeyBytes
  let value ← readOptionalValue maxStateValueBytes
  pure ⟨key, value⟩

/-- `StateViewV1::decode`. -/
def decode (bytes : Bytes) : Except WireError StateViewV1 := do
  ensure (bytes.length ≤ maxStateViewBytes) WireError.tooManyItems
  let view ← Parser.whole .invalidEncoding (do
    let version ← Reader.u8
    Parser.check (version = stateViewVersion) .unsupportedVersion
    let count ← Reader.u32
    Parser.check (count.toNat ≤ maxStateViewEntries) .tooManyItems
    let entries ← Parser.many readEntry count.toNat
    pure (⟨version, entries⟩ : StateViewV1)) bytes
  view.validateCanonical
  pure view

/-- What makes a view canonical. -/
theorem validateCanonical_eq_ok {view : StateViewV1} :
    view.validateCanonical = .ok () ↔ view.version = stateViewVersion ∧
      view.entries.length ≤ maxStateViewEntries ∧
      (∀ entry ∈ view.entries, entry.key.length ≤ maxStateKeyBytes ∧
        ∀ value ∈ entry.value, value.length ≤ maxStateValueBytes) ∧
      (view.entries.map (·.key)).Pairwise fun left right => compare left right = .lt := by
  simp only [validateCanonical, bind_eq_ok, ensure_eq_ok, exists_const, forM_eq_ok,
    validateKeyOrder_eq_ok]

theorem invertsOn_readEntry : InvertsOn readEntry
    (fun entry => entry.key.length ≤ maxStateKeyBytes ∧
      ∀ value ∈ entry.value, value.length ≤ maxStateValueBytes)
    (fun entry => do
      let key ← Writer.bytesU32 entry.key
      let value ← writeOptionalValue entry.value
      pure (key ++ value)) :=
  invertsOn_keyedEntry fun {entry k v} => by
    cases entry
    simp [eq_comm]

/-- What the decoder accepts: the header, the announced number of entries, and their order. -/
theorem decode_eq_ok {bytes : Bytes} {view : StateViewV1} :
    decode bytes = .ok view ↔ bytes.length ≤ maxStateViewBytes ∧ view.version = stateViewVersion ∧
      ∃ rest, bytes = stateViewVersion :: rest ∧ 4 ≤ rest.length ∧
        ofLe (rest.take 4) ≤ maxStateViewEntries ∧
        Parser.many readEntry (ofLe (rest.take 4)) (rest.drop 4) = .ok (view.entries, []) ∧
        (view.entries.map (·.key)).Pairwise fun left right => compare left right = .lt := by
  simp only [decode, bind_eq_ok, ensure_eq_ok, exists_const, pure_eq_ok, Parser.whole_eq_ok,
    Parser.bind_eq_ok, Parser.check_eq_ok, Parser.pure_eq_ok, Reader.u8_eq_ok, Reader.u32_eq_ok]
  refine and_congr_right fun _ => ⟨?_, ?_⟩
  · rintro ⟨_, ⟨_, rest, rfl, _, ⟨rfl, rfl⟩, count, _, ⟨hfour, hnat, rfl⟩, _,
      ⟨hmax, rfl⟩, entries, _, hentries, rfl, rfl⟩, _, hcanonical, rfl⟩
    rw [hnat] at hmax hentries
    exact ⟨rfl, rest, rfl, hfour, hmax, hentries, (validateCanonical_eq_ok.mp hcanonical).2.2.2⟩
  · rintro ⟨hversion, rest, rfl, hfour, hmax, hentries, horder⟩
    obtain ⟨hlength, hlimits, -⟩ := invertsOn_readEntry.many_eq_ok.mp hentries
    have hnat := toNat_count hmax (by decide)
    refine ⟨view, ⟨_, rest, rfl, _, ⟨rfl, rfl⟩, _, _, ⟨hfour, hnat, rfl⟩, _,
      ⟨hnat.trans_le hmax, rfl⟩, view.entries, [], hnat.symm ▸ hentries, ?_, rfl⟩, (),
      validateCanonical_eq_ok.mpr ⟨hversion, hlength.trans_le hmax, hlimits, horder⟩, rfl⟩
    rw [← hversion]

/-- The decoder accepts the encodings of views, and nothing else. -/
theorem decode_iff {bytes : Bytes} {view : StateViewV1} :
    decode bytes = .ok view ↔ view.encode = .ok bytes := by
  simp only [decode, encode, bind_eq_ok, ensure_eq_ok, exists_const, pure_eq_ok, Parser.whole_eq_ok,
    Parser.bind_eq_ok, Parser.check_eq_ok, Parser.pure_eq_ok, Reader.u8_eq_ok, Reader.u32_iff,
    invertsOn_readEntry.many_eq_ok]
  constructor
  · rintro ⟨hsize, _, ⟨version, _, rfl, _, ⟨-, rfl⟩, count, _, rfl, _, ⟨-, rfl⟩, entries, _,
      ⟨hlength, -, written, hwritten, rfl⟩, rfl, rfl⟩, _, hcanonical, rfl⟩
    have hcount : UInt32.ofNat entries.length = count := by rw [hlength, UInt32.ofNat_toNat]
    rw [List.append_nil, ← hcount] at hsize ⊢
    exact ⟨(), hcanonical, written, hwritten, hsize, rfl⟩
  · rintro ⟨_, hcanonical, written, hwritten, hsize, rfl⟩
    obtain ⟨hversion, hcount, hlimits, -⟩ := validateCanonical_eq_ok.mp hcanonical
    have hnat := toNat_count hcount (by decide)
    exact ⟨hsize, view, ⟨_, _, rfl, _, ⟨hversion, rfl⟩, _, _, rfl, _,
      ⟨hnat.trans_le hcount, rfl⟩, _, _,
      ⟨hnat.symm, hlimits, written, hwritten, (List.append_nil _).symm⟩, rfl, rfl⟩, (),
      hcanonical, rfl⟩

end StateViewV1

/-! ## Diffs -/

/-- A key with its new value, or without one when it is deleted. -/
structure StateChangeV1 where
  key : Bytes
  value : Option Bytes
  deriving DecidableEq, Repr

/-- Changes of a state. -/
structure StateDiffV1 where
  changes : List StateChangeV1
  deriving DecidableEq, Repr

namespace StateDiffV1

/-- The limits, for changes in any order. -/
def validateLimits (diff : StateDiffV1) : Except WireError Unit := do
  ensure (diff.changes.length ≤ maxRecoveryChanges) WireError.tooManyItems
  diff.changes.forM fun change => do
    ensure (isReservedServiceStorageKey change.key = false) WireError.reservedKey
    ensure (change.key.length ≤ maxStateKeyBytes) WireError.tooManyItems
    ensure (∀ value ∈ change.value, value.length ≤ maxStateValueBytes) WireError.tooManyItems

/-- In a canonical list every key is greater than the one before it. -/
def validateCanonical (diff : StateDiffV1) : Except WireError Unit := do
  diff.validateLimits
  validateKeyOrder (diff.changes.map (·.key))

/-- The stable sort by key of `canonicalize`. -/
def sorted (diff : StateDiffV1) : StateDiffV1 :=
  ⟨diff.changes.insertionSort fun left right => (compare left.key right.key).isLE⟩

/-- Sorting is all that is done to a list; one that names a key twice is refused. -/
def canonicalize (diff : StateDiffV1) : Except WireError StateDiffV1 := do
  diff.sorted.validateCanonical
  pure diff.sorted

/-- `StateDiffV1::encode_canonical_checked`. -/
def encodeCanonicalChecked (diff : StateDiffV1) : Except WireError Bytes := do
  diff.validateCanonical
  let changes ← diff.changes.mapM fun change => do
    let key ← Writer.bytesU32 change.key
    let value ← writeOptionalValue change.value
    pure (key ++ value)
  pure (managedStateProtocolVersion :: u32ToLe (UInt32.ofNat diff.changes.length) ++
    changes.flatten)

/-- `StateDiffV1::encode`: the list is brought into order first. -/
def encode (diff : StateDiffV1) : Except WireError Bytes := do
  diff.validateLimits
  let canonical ← diff.canonicalize
  canonical.encodeCanonicalChecked

/-- `StateDiffV1::decode`. -/
def decode (bytes : Bytes) : Except WireError StateDiffV1 := do
  let changes ← Parser.whole .invalidEncoding (do
    let version ← Reader.u8
    Parser.check (version = managedStateProtocolVersion) .unsupportedVersion
    let count ← Reader.u32
    Parser.check (count.toNat ≤ maxRecoveryChanges) .tooManyItems
    Parser.many (do
      let key ← Reader.bytesLimited maxStateKeyBytes
      let value ← readOptionalValue maxStateValueBytes
      pure (⟨key, value⟩ : StateChangeV1)) count.toNat) bytes
  let diff : StateDiffV1 := ⟨changes⟩
  diff.validateLimits
  let sorted ← diff.canonicalize
  ensure (sorted = diff) WireError.unsortedKeys
  pure diff

theorem validateLimits_eq_ok {diff : StateDiffV1} :
    diff.validateLimits = .ok () ↔ diff.changes.length ≤ maxRecoveryChanges ∧
      ∀ change ∈ diff.changes, isReservedServiceStorageKey change.key = false ∧
        change.key.length ≤ maxStateKeyBytes ∧
        ∀ value ∈ change.value, value.length ≤ maxStateValueBytes := by
  simp only [validateLimits, bind_eq_ok, ensure_eq_ok, forM_eq_ok, exists_const]

/-- What makes a list of changes canonical. -/
theorem validateCanonical_eq_ok {diff : StateDiffV1} :
    diff.validateCanonical = .ok () ↔ diff.validateLimits = .ok () ∧
      (diff.changes.map (·.key)).Pairwise fun left right => compare left right = .lt := by
  rw [validateCanonical, bind_eq_ok, ← validateKeyOrder_eq_ok]
  exact ⟨fun ⟨_, hlimits, horder⟩ => ⟨hlimits, horder⟩, fun ⟨hlimits, horder⟩ =>
    ⟨(), hlimits, horder⟩⟩

/-- A canonical list stays as it is. -/
theorem canonicalize_of_canonical {diff : StateDiffV1} (h : diff.validateCanonical = .ok ()) :
    diff.canonicalize = .ok diff := by
  have hsorted : diff.sorted = diff :=
    congrArg StateDiffV1.mk (insertionSort_of_ordered StateChangeV1.key
      (validateCanonical_eq_ok.mp h).2)
  unfold canonicalize
  rw [hsorted, h]
  rfl

theorem invertsOn_readChange : InvertsOn (do
      let key ← Reader.bytesLimited maxStateKeyBytes
      let value ← readOptionalValue maxStateValueBytes
      pure (⟨key, value⟩ : StateChangeV1) : Reader StateChangeV1)
    (fun change => change.key.length ≤ maxStateKeyBytes ∧
      ∀ value ∈ change.value, value.length ≤ maxStateValueBytes)
    (fun change => do
      let key ← Writer.bytesU32 change.key
      let value ← writeOptionalValue change.value
      pure (key ++ value)) :=
  invertsOn_keyedEntry fun {change k v} => by
    cases change
    simp [eq_comm]

/-- The decoder accepts the encodings of canonical diffs, and nothing else. -/
theorem decode_iff {bytes : Bytes} {diff : StateDiffV1} :
    decode bytes = .ok diff ↔ diff.encodeCanonicalChecked = .ok bytes := by
  simp only [decode, encodeCanonicalChecked, bind_eq_ok, ensure_eq_ok, exists_const, pure_eq_ok,
    Parser.whole_eq_ok, Parser.bind_eq_ok, Parser.check_eq_ok, Reader.u8_eq_ok, Reader.u32_iff,
    invertsOn_readChange.many_eq_ok]
  constructor
  · rintro ⟨changes, ⟨_, _, rfl, _, ⟨rfl, rfl⟩, count, _, rfl, _, ⟨-, rfl⟩, hlength, -,
      written, hwritten, rfl⟩, _, -, sorted, hsorted, rfl, rfl⟩
    obtain ⟨_, hcanonical, hsorted⟩ := bind_eq_ok.mp hsorted
    have hcount : UInt32.ofNat changes.length = count := by rw [hlength, UInt32.ofNat_toNat]
    rw [pure_eq_ok.mp hsorted] at hcanonical
    rw [List.append_nil, ← hcount]
    exact ⟨(), hcanonical, written, hwritten, rfl⟩
  · rintro ⟨_, hcanonical, written, hwritten, rfl⟩
    have hlimits := (validateCanonical_eq_ok.mp hcanonical).1
    obtain ⟨hcount, hchanges⟩ := validateLimits_eq_ok.mp hlimits
    have hnat := toNat_count hcount (by decide)
    exact ⟨diff.changes, ⟨_, _, rfl, _, ⟨rfl, rfl⟩, _, _, rfl, _,
      ⟨hnat.trans_le hcount, rfl⟩, hnat.symm,
      fun change hmem => (hchanges change hmem).2, written, hwritten, (List.append_nil _).symm⟩, (),
      hlimits, diff, canonicalize_of_canonical hcanonical, rfl, rfl⟩

/-- Only canonical lists are decoded. -/
theorem validateCanonical_of_decode {bytes : Bytes} {diff : StateDiffV1}
    (h : decode bytes = .ok diff) :
    diff.validateCanonical = .ok () := by
  obtain ⟨_, hcanonical, -⟩ := bind_eq_ok.mp (decode_iff.mp h)
  exact hcanonical

end StateDiffV1

/-! ## Recovery payloads -/

/-- The changes of a batch, with the version of their format. -/
structure StateRecoveryV1 where
  version : UInt8
  diff : StateDiffV1
  deriving DecidableEq, Repr

namespace StateRecoveryV1

/-- `StateRecoveryV1::new`. -/
def new (diff : StateDiffV1) : Except WireError StateRecoveryV1 := do
  diff.validateLimits
  let canonical ← diff.canonicalize
  pure ⟨recoveryFormatVersion, canonical⟩

/-- `StateRecoveryV1::encode`. -/
def encode (recovery : StateRecoveryV1) : Except WireError Bytes := do
  ensure (recovery.version = recoveryFormatVersion) WireError.unsupportedVersion
  let diff ← recovery.diff.encodeCanonicalChecked
  let written ← Writer.bytesU32 diff
  let encoded := recovery.version :: written
  ensure (encoded.length ≤ maxRecoveryBytes) WireError.tooManyItems
  pure encoded

/-- `StateRecoveryV1::decode`. -/
def decode (bytes : Bytes) : Except WireError StateRecoveryV1 := do
  ensure (bytes.length ≤ maxRecoveryBytes) WireError.tooManyItems
  Parser.whole .invalidEncoding (do
    let version ← Reader.u8
    Parser.check (version = recoveryFormatVersion) .unsupportedVersion
    let inner ← Reader.bytesLimited maxRecoveryBytes
    let diff ← (StateDiffV1.decode inner : Except WireError StateDiffV1)
    pure ⟨version, diff⟩) bytes

/-- The decoder accepts the encodings and nothing else. -/
theorem decode_iff {bytes : Bytes} {recovery : StateRecoveryV1} :
    decode bytes = .ok recovery ↔ recovery.encode = .ok bytes := by
  simp only [decode, encode, bind_eq_ok, ensure_eq_ok, exists_const, pure_eq_ok, Parser.whole_eq_ok,
    Parser.bind_eq_ok, Parser.check_eq_ok, Parser.lift_eq_ok, Parser.pure_eq_ok, Reader.u8_eq_ok,
    Reader.bytesLimited_iff, StateDiffV1.decode_iff]
  constructor
  · rintro ⟨hsize, version, _, rfl, _, ⟨hversion, rfl⟩, inner, _,
      ⟨-, written, hwritten, rfl⟩, diff, _, ⟨hdiff, rfl⟩, rfl, rfl⟩
    rw [List.append_nil] at hsize ⊢
    exact ⟨hversion, inner, hdiff, written, hwritten, hsize, rfl⟩
  · rintro ⟨hversion, inner, hinner, written, hwritten, hsize, rfl⟩
    have hlength := Writer.length_bytesU32 hwritten
    refine ⟨hsize, _, _, rfl, _, ⟨hversion, rfl⟩, inner, [], ⟨?_, written, hwritten, ?_⟩, _, _,
      ⟨hinner, rfl⟩, rfl, rfl⟩
    · rw [List.length_cons] at hsize
      omega
    · rw [List.append_nil]

theorem encode_eq_ok {recovery : StateRecoveryV1} {bytes : Bytes}
    (h : recovery.encode = .ok bytes) :
    bytes.length ≤ maxRecoveryBytes ∧ decode bytes = .ok recovery := by
  have hdecode := decode_iff.mpr h
  obtain ⟨_, hsize, -⟩ := bind_eq_ok.mp hdecode
  exact ⟨ensure_eq_ok.mp hsize, hdecode⟩

end StateRecoveryV1

/-! ## Script results -/

/-- The greatest code that a script may abort with. -/
def maxApplicationAbortCode : UInt32 := 0x00ffffff
/-- The smallest code of a fatal result. -/
def minFatalErrorCode : UInt32 := 0x80000000

/-- What a script wants to happen. -/
inductive ScriptActionResultV1 where
  | applied (diff : StateDiffV1)
  | abort (code : UInt32)
  | needState (key : Bytes)
  | fatal (code : UInt32)
  deriving DecidableEq, Repr

/-- A script may only change keys of the application class. -/
def validateApplicationDiff (diff : StateDiffV1) : Except WireError Unit := do
  diff.validateCanonical
  ensure (∀ change ∈ diff.changes, change.key.head? = some applicationKeyClassV1)
    WireError.reservedKey

namespace ScriptActionResultV1

/-- The body of a result record, by its kind byte. -/
def decodeBody : Reader ScriptActionResultV1 := do
  match ← Reader.u8 with
  | 0 => do
    let bytes ← Reader.bytesLimited maxRecoveryBytes
    let diff ← (StateDiffV1.decode bytes : Except WireError StateDiffV1)
    (validateApplicationDiff diff : Except WireError Unit)
    pure (.applied diff)
  | 1 => do
    let code ← Reader.u32
    Parser.check (1 ≤ code ∧ code ≤ maxApplicationAbortCode) .invalidEncoding
    pure (.abort code)
  | 2 => do
    let key ← Reader.bytesLimited maxStateKeyBytes
    pure (.needState key)
  | 3 => do
    let code ← Reader.u32
    Parser.check (minFatalErrorCode ≤ code) .invalidEncoding
    pure (.fatal code)
  | _ => throw .invalidEncoding

/-- `ScriptActionResultV1::decode`. -/
def decode (bytes : Bytes) : Except WireError ScriptActionResultV1 := do
  ensure (bytes.length ≤ maxScriptActionResultBytes) WireError.tooManyItems
  Parser.whole .invalidEncoding (do
    let version ← Reader.u8
    Parser.check (version = scriptActionResultVersion) .unsupportedVersion
    decodeBody) bytes

end ScriptActionResultV1

end JamScript
