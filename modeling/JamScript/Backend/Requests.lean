import JamScript.Core.Wire

/-!
# Requests to the backend

The errors of the backend, hashes in the hexadecimal form in which requests and records carry them,
and the fields of a submission's parameters that the backend looks at. A field of a JSON object that
is missing or has another type than the one asked for is `none`; text is kept as its bytes.
-/

namespace JamScript

open Codec

inductive PlannerError where
  | invalidArtifact
  | applicationRejected
  | backend
  deriving DecidableEq, Repr

/-- What the guest reports about itself when it faults. -/
structure GuestFaultContext where
  code : String
  message : String
  deriving DecidableEq, Repr

inductive BackendError where
  | registry
  | provider
  | wire (error : WireError)
  | invalidEnvelope
  | entryTooLarge
  | unknownService
  | serviceKeyMismatch
  | recoveryNotCanonical
  | planner (error : PlannerError)
  | notSubmitted (cause : BackendError)
  | database (message : String)
  | schemaMismatch
  | serviceStateCorrupt (serviceId : UInt32)
  | stateNotMaterialized
  | serviceCorrupt (serviceId : UInt32)
  | pvm
  | pvmOutOfGas
  | notSubmittedPvmOutOfGas
  | guestFault (fault : GuestFaultContext)
  | notSubmittedGuestFault (fault : GuestFaultContext)
  | codeHashMismatch
  | wrongNetwork
  | staleContext
  | queueFull (retryAfterMs : ℕ)
  | predictionStale
  | workNotFound
  | rpc (message : String)
  deriving DecidableEq, Repr

/-! ## Hashes in hexadecimal form -/

def nibble (value : UInt8) : Except BackendError UInt8 :=
  if 0x30 ≤ value ∧ value ≤ 0x39 then .ok (value - 0x30)
  else if 0x61 ≤ value ∧ value ≤ 0x66 then .ok (value - 0x61 + 10)
  else if 0x41 ≤ value ∧ value ≤ 0x46 then .ok (value - 0x41 + 10)
  else .error (.rpc "invalid hexadecimal value")

/-- The bytes of consecutive pairs of digits. -/
def parsePairs : Bytes → Except BackendError Bytes
  | high :: low :: rest => do
    let high ← nibble high
    let low ← nibble low
    let bytes ← parsePairs rest
    pure ((high <<< 4 ||| low) :: bytes)
  | _ => pure []

/-- `strip_prefix("0x")`, or the text itself. -/
def withoutMarker : Bytes → Bytes
  | 0x30 :: 0x78 :: rest => rest
  | text => text

def parseHash (value : Bytes) : Except BackendError StateRoot := do
  let digits := withoutMarker value
  if digits.length ≠ 64 then .error (.rpc "expected a 32-byte hexadecimal value")
  else do
    let bytes ← parsePairs digits
    if h : bytes.length = 32 then pure ⟨bytes, h⟩
    else .error (.rpc "expected a 32-byte hexadecimal value")

/-- A digit of `{:02x}`. -/
def hexDigit (value : UInt8) : UInt8 := if value < 10 then 0x30 + value else 0x61 + (value - 10)

def hexPair (byte : UInt8) : Bytes := [hexDigit (byte >>> 4), hexDigit (byte &&& 15)]

def hashHex (bytes : Bytes) : Bytes := [0x30, 0x78] ++ bytes.flatMap hexPair

theorem nibble_hexDigit (value : UInt8) (h : value < 16) : nibble (hexDigit value) = .ok value := by
  revert value
  decide +kernel

theorem join_nibbles (byte : UInt8) : (byte >>> 4) <<< 4 ||| (byte &&& 15) = byte := by
  revert byte
  decide +kernel

theorem nibbles_lt (byte : UInt8) : byte >>> 4 < 16 ∧ byte &&& 15 < 16 := by
  revert byte
  decide +kernel

theorem parsePairs_hexPair (bytes : Bytes) : parsePairs (bytes.flatMap hexPair) = .ok bytes := by
  induction bytes with
  | nil => rfl
  | cons byte bytes ih =>
    rw [List.flatMap_cons, hexPair, List.cons_append, List.cons_append, List.nil_append, parsePairs,
      nibble_hexDigit _ (nibbles_lt byte).1, nibble_hexDigit _ (nibbles_lt byte).2, ih]
    exact congrArg (fun head => Except.ok (head :: bytes)) (join_nibbles byte)

/-- A hash survives being written and read. -/
theorem parseHash_hashHex (hash : StateRoot) : parseHash (hashHex hash.toList) = .ok hash := by
  have hlength : (hash.toList.flatMap hexPair).length = 64 := by
    rw [List.length_flatMap]
    simp [hexPair]
  unfold parseHash hashHex
  simp only [List.cons_append, List.nil_append, withoutMarker, hlength, ne_eq, not_true_eq_false,
    if_false, parsePairs_hexPair]
  obtain ⟨bytes, hbytes⟩ := hash
  exact dif_pos hbytes

/-! ## The hashes of the deployment crate

`normalize_hash` cuts the text at byte offsets, which panics inside a character, and reads each
piece with `u8::from_str_radix`, which takes a plus sign in front of a digit. -/

inductive DeploymentError
  | artifactInvalid (message : String)
  deriving DecidableEq

/-- `u8::from_str_radix(_, 16)` on a text of two bytes. -/
def fromStrRadix (high low : UInt8) : Option UInt8 :=
  if high = 0x2b then (nibble low).toOption
  else do return (← (nibble high).toOption) * 16 + (← (nibble low).toOption)

/-- The bytes that do not start a character. -/
def IsContinuation (byte : UInt8) : Prop := 0x80 ≤ byte ∧ byte < 0xc0

instance (byte : UInt8) : Decidable (IsContinuation byte) := inferInstanceAs (Decidable (_ ∧ _))

/-- A text cannot be cut in front of `rest`. -/
def InsideCharacter (rest : Bytes) : Prop := ∃ byte ∈ rest.head?, IsContinuation byte

instance (rest : Bytes) : Decidable (InsideCharacter rest) :=
  inferInstanceAs (Decidable (∃ byte ∈ rest.head?, IsContinuation byte))

/-- The loop of `normalize_hash`; there is no result when it panics. -/
def normalizePairs : Bytes → Option (Except DeploymentError Bytes)
  | high :: low :: rest =>
    if InsideCharacter rest then none
    else
      match fromStrRadix high low with
      | none => some (.error (.artifactInvalid "hash contains invalid hexadecimal data"))
      | some byte => (normalizePairs rest).map (Except.map (byte :: ·))
  | _ => some (.ok [])

def normalizeHash (value : Bytes) : Option (Except DeploymentError Bytes) :=
  let digits := withoutMarker value
  if digits.length ≠ 64 then
    some (.error (.artifactInvalid "hash must contain exactly 32 bytes of hexadecimal data"))
  else normalizePairs digits

def IsHex (digit : UInt8) : Prop := (nibble digit).isOk = true

instance (digit : UInt8) : Decidable (IsHex digit) := inferInstanceAs (Decidable (_ = true))

/-- `char::to_ascii_lowercase`. -/
def lowercase (byte : UInt8) : UInt8 := if 0x41 ≤ byte ∧ byte ≤ 0x5a then byte + 32 else byte

/-- What the loop reads: two digits, or a plus sign and a digit. -/
def IsPair (high low : UInt8) : Prop := (IsHex high ∨ high = 0x2b) ∧ IsHex low

/-- Every piece can be read. -/
def ReadableDigits : Bytes → Prop
  | high :: low :: rest => IsPair high low ∧ ReadableDigits rest
  | _ => True

/-- A cut inside a character comes before any piece that cannot be read. -/
def Splits : Bytes → Prop
  | high :: low :: rest => InsideCharacter rest ∨ IsPair high low ∧ Splits rest
  | _ => False

theorem fromStrRadix_isSome_iff (high low : UInt8) : (fromStrRadix high low).isSome ↔
    IsPair high low := by
  have hplus : ¬ IsHex 0x2b := by decide
  unfold fromStrRadix IsPair IsHex
  by_cases h : high = 0x2b
  · subst h
    cases nibble low <;> simp [Except.isOk, Except.toBool, Except.toOption]
  · cases nibble high <;> cases nibble low <;> simp [h, Except.isOk, Except.toBool, Except.toOption]

theorem normalizePairs_eq_none_iff (digits : Bytes) : normalizePairs digits = none ↔
    Splits digits := by
  induction digits using normalizePairs.induct with
  | case1 high low rest hinside => simp [normalizePairs, Splits, hinside]
  | case2 high low rest hinside hpair =>
    have hnone : ¬ IsPair high low := by simp [← fromStrRadix_isSome_iff, hpair]
    simp [normalizePairs, Splits, hinside, hpair, hnone]
  | case3 high low rest hinside byte hpair ih =>
    have hsome : IsPair high low := by simp [← fromStrRadix_isSome_iff, hpair]
    simp [normalizePairs, Splits, hinside, hpair, hsome, ih]
  | case4 digits hshort =>
    rw [normalizePairs.eq_2 _ hshort, Splits.eq_2 _ hshort]
    simp

theorem readableDigits_of_normalizePairs {digits bytes : Bytes}
    (h : normalizePairs digits = some (.ok bytes)) :
    ReadableDigits digits := by
  induction digits using normalizePairs.induct generalizing bytes with
  | case1 high low rest hinside => simp [normalizePairs, hinside] at h
  | case2 high low rest hinside hpair => simp [normalizePairs, hinside, hpair] at h
  | case3 high low rest hinside byte hpair ih =>
    simp only [normalizePairs, hinside, if_false, hpair, Option.map_eq_some_iff] at h
    obtain ⟨_ | bytes, hrest, hresult⟩ := h
    · cases hresult
    · exact ⟨(fromStrRadix_isSome_iff high low).mp (by simp [hpair]), ih hrest⟩
  | case4 digits hshort =>
    rw [ReadableDigits.eq_2 _ hshort]
    trivial

/-- What is readable starts a character everywhere, so that the loop does not stop. -/
theorem normalizePairs_of_readableDigits {digits : Bytes} (h : ReadableDigits digits) :
    ¬ Splits digits → ∃ bytes, normalizePairs digits = some (.ok bytes) := by
  induction digits using normalizePairs.induct with
  | case1 high low rest hinside => exact fun hsplits => absurd (.inl hinside) hsplits
  | case2 high low rest hinside hpair =>
    exact absurd ((fromStrRadix_isSome_iff high low).mpr h.1) (by simp [hpair])
  | case3 high low rest hinside byte hpair ih =>
    intro hsplits
    obtain ⟨bytes, hbytes⟩ := ih h.2 fun hrest => hsplits (.inr ⟨h.1, hrest⟩)
    exact ⟨byte :: bytes, by simp [normalizePairs, hinside, hpair, hbytes, Except.map]⟩
  | case4 digits hshort => exact fun _ => ⟨[], normalizePairs.eq_2 _ hshort⟩

private theorem nibble_cases : ∀ digit : UInt8, IsHex digit →
    nibble digit = .ok ((nibble digit).toOption.getD 0) ∧ (nibble digit).toOption.getD 0 < 16 ∧
      hexDigit ((nibble digit).toOption.getD 0) = lowercase digit ∧ ¬ IsContinuation digit ∧
      digit ≠ 0x2b := by
  decide +kernel

theorem nibble_of_isHex {digit : UInt8} (h : IsHex digit) :
    ∃ value < 16, nibble digit = .ok value ∧ hexDigit value = lowercase digit ∧
      ¬ IsContinuation digit ∧
      digit ≠ 0x2b := by
  obtain ⟨hvalue, hlt, hrest⟩ := nibble_cases digit h
  exact ⟨_, hlt, hvalue, hrest⟩

private theorem join_pair : ∀ high : UInt8, high < 16 → ∀ low : UInt8, low < 16 →
    high * (16 : UInt8) + low = high <<< 4 ||| low ∧ (high <<< 4 ||| low) >>> 4 = high ∧
      (high <<< 4 ||| low) &&& 15 = low := by
  decide +kernel

/-- Both functions read digits alike, and what they read is written in lower case. -/
theorem pairs_of_isHex {digits : Bytes} (hdigits : ∀ digit ∈ digits, IsHex digit)
    (heven : 2 ∣ digits.length) : ∃ bytes, parsePairs digits = .ok bytes ∧
      normalizePairs digits = some (.ok bytes) ∧ bytes.flatMap hexPair = digits.map lowercase := by
  induction digits using normalizePairs.induct with
  | case1 high low rest hinside =>
    obtain ⟨byte, hbyte, hcontinuation⟩ := hinside
    have hmem : byte ∈ high :: low :: rest := .tail _ (.tail _ (List.mem_of_mem_head? hbyte))
    obtain ⟨_, _, _, _, hnot, _⟩ := nibble_of_isHex (hdigits byte hmem)
    exact absurd hcontinuation hnot
  | case2 high low rest hinside hpair =>
    have h : IsPair high low := ⟨.inl (hdigits high (by simp)), hdigits low (by simp)⟩
    exact absurd ((fromStrRadix_isSome_iff high low).mpr h) (by simp [hpair])
  | case3 high low rest hinside byte hpair ih =>
    obtain ⟨bytes, hparse, hnormalize, hlower⟩ := ih
      (fun digit hmem => hdigits digit (.tail _ (.tail _ hmem))) (by simpa using heven)
    obtain ⟨x, hx, hhigh, hxdigit, -, hplus⟩ := nibble_of_isHex (hdigits high (by simp))
    obtain ⟨y, hy, hlow, hydigit, -⟩ := nibble_of_isHex (hdigits low (by simp))
    obtain ⟨hjoin, hfirst, hsecond⟩ := join_pair x hx y hy
    have hbyte : byte = x <<< 4 ||| y := by
      simp only [fromStrRadix, if_neg hplus, hhigh, hlow] at hpair
      rw [← hjoin]
      exact (Option.some.inj hpair).symm
    refine ⟨byte :: bytes, ?_, by simp [normalizePairs, hinside, hpair, hnormalize, Except.map], ?_⟩
    · rw [parsePairs, hhigh, hlow, hparse, hbyte]
      rfl
    · rw [List.flatMap_cons, hlower, hexPair, hbyte, hfirst, hsecond, hxdigit, hydigit]
      rfl
  | case4 digits hshort =>
    match digits, hshort with
    | [], _ => exact ⟨[], rfl, rfl, rfl⟩
    | [_], _ => exact absurd heven (by simp)
    | high :: low :: rest, hshort => exact absurd rfl (hshort high low rest)

theorem isHex_of_parsePairs {digits bytes : Bytes} (h : parsePairs digits = .ok bytes)
    (heven : 2 ∣ digits.length) : ∀ digit ∈ digits, IsHex digit := by
  induction digits using parsePairs.induct generalizing bytes with
  | case1 high low rest ih =>
    simp only [parsePairs, bind_eq_ok] at h
    obtain ⟨x, hhigh, y, hlow, bytes, hrest, -⟩ := h
    intro digit hmem
    rcases List.mem_cons.mp hmem with rfl | hmem
    · rw [IsHex, hhigh]; rfl
    rcases List.mem_cons.mp hmem with rfl | hmem
    · rw [IsHex, hlow]; rfl
    · exact ih hrest (by simpa using heven) digit hmem
  | case2 digits hshort =>
    match digits, hshort with
    | [], _ => simp
    | [_], _ => exact absurd heven (by simp)
    | high :: low :: rest, hshort => exact absurd rfl (hshort high low rest)

/-- `normalize_hash` returns, accepts 64 digits and nothing else, gives the digits back in lower
case and agrees with `parse_hash`, exactly when it is not led to a cut inside a character and a text
of which it can read every piece has no plus sign. -/
theorem normalizeHash_agrees_iff (value : Bytes) :
    (∃ result, normalizeHash value = some result ∧
      result.toOption = (parseHash value).toOption.map (·.toList) ∧
      (result.isOk = true ↔ (withoutMarker value).length = 64 ∧ ∀ digit ∈ withoutMarker value,
        IsHex digit) ∧
      ∀ bytes, result = .ok bytes →
        hashHex bytes = [0x30, 0x78] ++ (withoutMarker value).map lowercase) ↔
    ((withoutMarker value).length = 64 → ¬ Splits (withoutMarker value) ∧
      (ReadableDigits (withoutMarker value) → ∀ digit ∈ withoutMarker value, IsHex digit)) := by
  unfold normalizeHash parseHash
  generalize withoutMarker value = digits
  by_cases hlength : digits.length = 64
  · have heven : 2 ∣ digits.length := by omega
    simp only [hlength, ne_eq, not_true_eq_false, if_false, true_and, true_implies]
    constructor
    · rintro ⟨result, hresult, -, haccept, -⟩
      have hsplits : ¬ Splits digits := by simp [← normalizePairs_eq_none_iff, hresult]
      refine ⟨hsplits, fun hreadable => haccept.mp ?_⟩
      obtain ⟨bytes, hbytes⟩ := normalizePairs_of_readableDigits hreadable hsplits
      rw [hbytes] at hresult
      cases hresult
      rfl
    · rintro ⟨hsplits, hplus⟩
      by_cases hhex : ∀ digit ∈ digits, IsHex digit
      · obtain ⟨bytes, hparse, hnormalize, hlower⟩ := pairs_of_isHex hhex heven
        have hbytes : bytes.length = 32 := by
          have h : bytes.length * 2 = 64 := by
            simpa [List.length_flatMap, hexPair, hlength] using congrArg List.length hlower
          omega
        refine ⟨_, hnormalize, ?_, iff_of_true rfl hhex, ?_⟩
        · have hroot : (do
              let bytes ← parsePairs digits
              if h : bytes.length = 32 then pure ⟨bytes, h⟩
              else .error (.rpc "expected a 32-byte hexadecimal value") : Except
              BackendError StateRoot) =
                .ok ⟨bytes, hbytes⟩ := by
            rw [hparse]
            exact dif_pos hbytes
          rw [hroot]
          rfl
        · rintro _ ⟨⟩
          rw [hashHex, hlower]
      · -- neither accepts: what `parse_hash` takes is digits, and so is what the loop can read
        have hreject : ∀ bytes, normalizePairs digits ≠ some (.ok bytes) :=
          fun bytes h => hhex (hplus (readableDigits_of_normalizePairs h))
        rcases hparse : parsePairs digits with e | bytes
        · rcases hnormalize : normalizePairs digits with _ | (e' | bytes)
          · exact absurd ((normalizePairs_eq_none_iff digits).mp hnormalize) hsplits
          · exact ⟨_, rfl, rfl, iff_of_false nofun hhex, nofun⟩
          · exact absurd hnormalize (hreject bytes)
        · exact absurd (isHex_of_parsePairs hparse heven) hhex
  · simp [hlength, Except.isOk, Except.toBool, Except.toOption]

/-- A zero, a character of two bytes and zeros: the first cut falls into the character. And a plus
sign in front of a digit is read, although `parse_hash` refuses it. -/
theorem normalizeHash_disagrees :
    normalizeHash (0x30 :: 0xc3 :: 0xa9 :: List.replicate 61 0x30) = none ∧
    normalizeHash (0x2b :: List.replicate 63 0x30) = some (.ok (List.replicate 32 0)) ∧
    (parseHash (0x2b :: List.replicate 63 0x30)).toOption = none := by
  decide +kernel

/-! ## Parameters of a submission -/

/-- The fields of `context` that a submission compares with the finalized context. -/
structure RequestContext where
  blockHash : Option Bytes
  stateRoot : Option Bytes
  slot : Option UInt32
  deriving DecidableEq, Repr

structure RequestParams where
  serviceId : Option UInt32
  serviceCodeHash : Option Bytes
  /-- Present when `context` is an object. -/
  context : Option RequestContext
  /-- The text members of `extrinsicsBase64`. -/
  extrinsicsBase64 : List Bytes
  deriving DecidableEq, Repr

structure FinalizedContextV1 where
  blockHash : StateRoot
  blockNumber : UInt32
  stateRoot : StateRoot
  slot : UInt32
  deriving DecidableEq

end JamScript
