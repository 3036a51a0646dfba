import JamScript.Auth.Base64
import JamScript.Common.Delimited
import JamScript.Common.Fields

/-!
# Matrix cross-signing proofs

`ownership-matrix` verifies that a Matrix master key signed a self-signing key, and that the
self-signing key signed a device. What is signed are two JSON objects that are put together from the
ids and keys in the proof. A text is the list of its bytes here: the decoder only lets ASCII
through.

No two accepted proofs with different ids or keys have an object in common
(`signing_objects_injective`). The ids cannot contain a quotation mark, so each of them ends where
the next quotation mark stands.
-/

namespace JamScript

open Codec

inductive MatrixProofError where
  | invalidMatrixProof
  | matrixProofVerificationFailed
  deriving DecidableEq, Repr

def maxMatrixTextBytes : ℕ := 255
def maxMatrixAlgorithms : ℕ := 8
def maxMatrixAlgorithmBytes : ℕ := 128

/-- A chain from a master key to a device key. -/
structure MatrixControlClaimProofV1 where
  userId : Bytes
  selfSigningPublicKey : FixedBytes 32
  masterSignature : FixedBytes 64
  deviceId : Bytes
  algorithms : List Bytes
  deviceCurve25519Key : FixedBytes 32
  deviceEd25519Key : FixedBytes 32
  selfSigningSignature : FixedBytes 64
  deriving DecidableEq

/-- The quotation mark. -/
def quote : UInt8 := 0x22

/-- `is_ascii`. -/
def isAscii (text : Bytes) : Bool := text.all fun byte => byte < 0x80

/-- Some byte of the text would have to be escaped. -/
def needsEscape (text : Bytes) : Bool :=
  text.any fun byte => byte < 0x20 || byte == quote || byte == 0x5c

/-! ### Base64 with the standard alphabet -/

/-- The two characters in which the standard alphabet differs from the one for URLs. -/
def standardChar (char : UInt8) : UInt8 := if char = 0x2d then 0x2b else if char =
    0x5f then 0x2f else char

/-- `STANDARD_NO_PAD.encode` of the `base64` crate: section 4 of RFC 4648, without padding. -/
def standardNoPad (bytes : Bytes) : Bytes := (urlSafeNoPad bytes).map standardChar

/-! ### The objects that are signed -/

/-- `format_matrix_self_object`. -/
def formatMatrixSelfObject (userId key : Bytes) : Bytes :=
  ascii "\x7b\"keys\":\x7b\"ed25519:" ++ key ++ ascii "\":\"" ++ key ++
    ascii "\"\x7d,\"usage\":[\"self_signing\"],\"user_id\":\"" ++ userId ++ ascii "\"\x7d"

/-- The algorithms as the entries of a JSON array. -/
def formatAlgorithms (algorithms : List Bytes) : Bytes :=
  (ascii ",").intercalate (algorithms.map fun value => quote :: (value ++ [quote]))

/-- `format_matrix_device_object`. -/
def formatMatrixDeviceObject (userId deviceId : Bytes) (algorithms : List Bytes)
    (curve ed : Bytes) : Bytes :=
  ascii "\x7b\"algorithms\":[" ++ formatAlgorithms algorithms ++
    ascii "],\"device_id\":\"" ++ deviceId ++
    ascii "\",\"keys\":\x7b\"curve25519:" ++ deviceId ++ ascii "\":\"" ++ curve ++
    ascii "\",\"ed25519:" ++
    deviceId ++ ascii "\":\"" ++ ed ++ ascii "\"\x7d,\"user_id\":\"" ++ userId ++ ascii "\"\x7d"

namespace MatrixReader

def take (length : ℕ) : Parser MatrixProofError Bytes := Parser.take .invalidMatrixProof length

def u8 : Parser MatrixProofError UInt8 := Parser.u8 .invalidMatrixProof

def array (n : ℕ) : Parser MatrixProofError (FixedBytes n) := Parser.array .invalidMatrixProof n

/-- A text that needs no escape in JSON. -/
def textBounded (max : ℕ) : Parser MatrixProofError Bytes := do
  let length ← take 2
  Parser.check ((u16OfLe length).toNat ≤ max) .invalidMatrixProof
  let bytes ← take (u16OfLe length).toNat
  Parser.check (isAscii bytes) .invalidMatrixProof
  Parser.check (¬ needsEscape bytes) .invalidMatrixProof
  pure bytes

def text : Parser MatrixProofError Bytes := textBounded maxMatrixTextBytes

end MatrixReader

namespace MatrixControlClaimProofV1

def decode (bytes : Bytes) : Except MatrixProofError MatrixControlClaimProofV1 :=
  Parser.whole .invalidMatrixProof (do
    let version ← MatrixReader.u8
    Parser.check (version = 1) .invalidMatrixProof
    let userId ← MatrixReader.text
    let selfSigningPublicKey ← MatrixReader.array 32
    let masterSignature ← MatrixReader.array 64
    let deviceId ← MatrixReader.text
    let count ← MatrixReader.u8
    Parser.check (count.toNat ≤ maxMatrixAlgorithms) .invalidMatrixProof
    let algorithms ← Parser.many (MatrixReader.textBounded maxMatrixAlgorithmBytes) count.toNat
    let deviceCurve25519Key ← MatrixReader.array 32
    let deviceEd25519Key ← MatrixReader.array 32
    let selfSigningSignature ← MatrixReader.array 64
    pure { userId, selfSigningPublicKey, masterSignature, deviceId, algorithms, deviceCurve25519Key,
           deviceEd25519Key, selfSigningSignature }) bytes

/-- What the master key signs. -/
def canonicalSelfSigningObject (proof : MatrixControlClaimProofV1) :
    Except MatrixProofError Bytes :=
  .ok (formatMatrixSelfObject proof.userId (standardNoPad proof.selfSigningPublicKey.toList))

/-- What the self-signing key signs. -/
def canonicalDeviceKeysObject (proof : MatrixControlClaimProofV1) :
    Except MatrixProofError Bytes := do
  let curve := standardNoPad proof.deviceCurve25519Key.toList
  let ed := standardNoPad proof.deviceEd25519Key.toList
  ensure (isAscii proof.userId ∧ isAscii proof.deviceId ∧ ∀ value ∈ proof.algorithms, isAscii value)
    MatrixProofError.invalidMatrixProof
  pure (formatMatrixDeviceObject proof.userId proof.deviceId proof.algorithms curve ed)

/-- Both signatures, over the two objects. -/
def verify (verifyEd25519 : FixedBytes 32 → FixedBytes 64 → Bytes → Bool)
    (proof : MatrixControlClaimProofV1) (masterPublicKey : FixedBytes 32) :
    Except MatrixProofError Unit := do
  let selfObject ← proof.canonicalSelfSigningObject
  ensure (verifyEd25519 masterPublicKey proof.masterSignature selfObject)
    MatrixProofError.matrixProofVerificationFailed
  let deviceObject ← proof.canonicalDeviceKeysObject
  ensure (verifyEd25519 proof.selfSigningPublicKey proof.selfSigningSignature deviceObject)
    MatrixProofError.matrixProofVerificationFailed

/-- `verify_for`: the device key is compared last. -/
def verifyFor (verifyEd25519 : FixedBytes 32 → FixedBytes 64 → Bytes → Bool)
    (proof : MatrixControlClaimProofV1) (masterPublicKey expectedDevicePublicKey : FixedBytes 32) :
    Except MatrixProofError Unit := do
  proof.verify verifyEd25519 masterPublicKey
  ensure (proof.deviceEd25519Key = expectedDevicePublicKey)
    MatrixProofError.matrixProofVerificationFailed

end MatrixControlClaimProofV1

/-! ### What the decoder lets through -/

/-- Every byte of an accepted text is ASCII and stands for itself in JSON. -/
def PlainText (text : Bytes) : Prop := isAscii text = true ∧ quote ∉ text

theorem MatrixReader.textBounded_plain {max : ℕ} {bytes rest text : Bytes}
    (h : MatrixReader.textBounded max bytes = .ok (text, rest)) : PlainText text := by
  obtain ⟨length, _, -, h⟩ := Parser.bind_eq_ok.mp h
  obtain ⟨_, _, -, h⟩ := Parser.bind_eq_ok.mp h
  obtain ⟨read, _, -, h⟩ := Parser.bind_eq_ok.mp h
  obtain ⟨_, _, hascii, h⟩ := Parser.bind_eq_ok.mp h
  obtain ⟨_, _, hescape, h⟩ := Parser.bind_eq_ok.mp h
  obtain ⟨rfl, -⟩ := Parser.pure_eq_ok.mp h
  refine ⟨(Parser.check_eq_ok.mp hascii).1, fun hquote => (Parser.check_eq_ok.mp hescape).1 ?_⟩
  exact List.any_eq_true.mpr ⟨quote, hquote, by decide⟩

namespace MatrixControlClaimProofV1

/-- The texts of a proof are plain. -/
structure Plain (proof : MatrixControlClaimProofV1) : Prop where
  userId : PlainText proof.userId
  deviceId : PlainText proof.deviceId
  algorithms : ∀ algorithm ∈ proof.algorithms, PlainText algorithm

/-- What is decoded has plain texts only. -/
theorem plain_of_decode {bytes : Bytes} {proof : MatrixControlClaimProofV1}
    (h : decode bytes = .ok proof) :
    proof.Plain := by
  replace h := Parser.whole_eq_ok.mp h
  obtain ⟨version, _, -, h⟩ := Parser.bind_eq_ok.mp h
  obtain ⟨_, _, -, h⟩ := Parser.bind_eq_ok.mp h
  obtain ⟨userId, _, huser, h⟩ := Parser.bind_eq_ok.mp h
  obtain ⟨selfSigningPublicKey, _, -, h⟩ := Parser.bind_eq_ok.mp h
  obtain ⟨masterSignature, _, -, h⟩ := Parser.bind_eq_ok.mp h
  obtain ⟨deviceId, _, hdevice, h⟩ := Parser.bind_eq_ok.mp h
  obtain ⟨count, _, -, h⟩ := Parser.bind_eq_ok.mp h
  obtain ⟨_, _, -, h⟩ := Parser.bind_eq_ok.mp h
  obtain ⟨algorithms, _, halgorithms, h⟩ := Parser.bind_eq_ok.mp h
  obtain ⟨curve, _, -, h⟩ := Parser.bind_eq_ok.mp h
  obtain ⟨ed, _, -, h⟩ := Parser.bind_eq_ok.mp h
  obtain ⟨signature, _, -, h⟩ := Parser.bind_eq_ok.mp h
  obtain ⟨rfl, -⟩ := Parser.pure_eq_ok.mp h
  refine ⟨MatrixReader.textBounded_plain huser, MatrixReader.textBounded_plain hdevice, ?_⟩
  intro algorithm hmem
  obtain ⟨_, _, hread⟩ := (Parser.many_eq_ok halgorithms).2 algorithm hmem
  exact MatrixReader.textBounded_plain hread

theorem Plain.canonicalDeviceKeysObject_eq {proof : MatrixControlClaimProofV1} (h : proof.Plain) :
    proof.canonicalDeviceKeysObject = .ok (formatMatrixDeviceObject proof.userId proof.deviceId
      proof.algorithms (standardNoPad proof.deviceCurve25519Key.toList)
      (standardNoPad proof.deviceEd25519Key.toList)) :=
  bind_eq_ok.mpr ⟨(), ensure_eq_ok.mpr ⟨h.userId.1, h.deviceId.1, fun value hvalue =>
    (h.algorithms value hvalue).1⟩, rfl⟩

end MatrixControlClaimProofV1

/-! ### Keys in base64 -/

theorem base64Char_mem {group : UInt8} (h : group.toNat < 64) :
    base64Char group ∈ base64Alphabet := by
  have hlength : group.toNat < base64Alphabet.length := h
  rw [base64Char, List.getD_eq_getElem _ _ hlength]
  exact List.getElem_mem hlength

theorem mem_base64Alphabet {bytes : Bytes} {char : UInt8} (h : char ∈ urlSafeNoPad bytes) :
    char ∈ base64Alphabet := by
  have hfirst (a : UInt8) : base64Char (a >>> 2) ∈ base64Alphabet :=
    base64Char_mem (by rw [toNat_firstGroup]; have := a.toNat_lt; omega)
  have hsecond (a b : UInt8) : base64Char ((a &&& 3) <<< 4 ||| b >>> 4) ∈ base64Alphabet :=
    base64Char_mem (by rw [toNat_secondGroup]; have := b.toNat_lt; omega)
  have hthird (b c : UInt8) : base64Char ((b &&& 15) <<< 2 ||| c >>> 6) ∈ base64Alphabet :=
    base64Char_mem (by rw [toNat_thirdGroup]; have := c.toNat_lt; omega)
  have hfourth (c : UInt8) : base64Char (c &&& 63) ∈ base64Alphabet :=
    base64Char_mem (by rw [toNat_fourthGroup]; omega)
  induction bytes using urlSafeNoPad.induct with
  | case1 a b c rest ih =>
    simp only [urlSafeNoPad, List.mem_append, List.mem_cons, List.not_mem_nil, or_false] at h
    rcases h with (rfl | rfl | rfl | rfl) | hrest
    · exact hfirst a
    · exact hsecond a b
    · exact hthird b c
    · exact hfourth c
    · exact ih hrest
  | case2 a b =>
    simp only [urlSafeNoPad, List.mem_cons, List.not_mem_nil, or_false] at h
    rcases h with rfl | rfl | rfl
    · exact hfirst a
    · exact hsecond a b
    · simpa using hthird b 0
  | case3 a =>
    simp only [urlSafeNoPad, List.mem_cons, List.not_mem_nil, or_false] at h
    rcases h with rfl | rfl
    · exact hfirst a
    · simpa using hsecond a 0
  | case4 => cases h

/-- The character of the alphabet for URLs that a character of the standard alphabet replaces. -/
private def urlSafeChar (char : UInt8) : UInt8 :=
  if char = 0x2b then 0x2d else if char = 0x2f then 0x5f else char

private theorem notMem_base64Alphabet :
    quote ∉ base64Alphabet ∧ 0x2b ∉ base64Alphabet ∧ 0x2f ∉ base64Alphabet := by
  decide +kernel

private theorem standardChar_spec {char : UInt8} (h : char ∈ base64Alphabet) :
    urlSafeChar (standardChar char) = char ∧ standardChar char ≠ quote := by
  obtain ⟨hquote, hplus, hslash⟩ := notMem_base64Alphabet
  have hne {other : UInt8} (hother : other ∉ base64Alphabet) : char ≠ other :=
    fun heq => hother (heq ▸ h)
  unfold standardChar
  split
  case isTrue hminus => exact ⟨hminus ▸ rfl, by decide⟩
  case isFalse =>
    split
    case isTrue hunderscore => exact ⟨hunderscore ▸ rfl, by decide⟩
    case isFalse => exact ⟨by rw [urlSafeChar, if_neg (hne hplus), if_neg (hne hslash)], hne hquote⟩

/-- Different keys have different texts. -/
theorem standardNoPad_injective : Function.Injective standardNoPad := by
  intro left right h
  apply urlSafeNoPad_injective
  have hback : ∀ bytes, (standardNoPad bytes).map urlSafeChar = urlSafeNoPad bytes := by
    intro bytes
    rw [standardNoPad, List.map_map]
    refine (List.map_congr_left fun char hchar => ?_).trans (List.map_id _)
    exact (standardChar_spec (mem_base64Alphabet hchar)).1
  rw [← hback left, h, hback right]

theorem quote_notMem_standardNoPad (bytes : Bytes) : quote ∉ standardNoPad bytes := by
  intro h
  obtain ⟨char, hchar, heq⟩ := List.mem_map.mp h
  exact (standardChar_spec (mem_base64Alphabet hchar)).2 heq

/-! ### The objects taken apart -/

theorem formatMatrixSelfObject_eq (userId key : Bytes) :
    formatMatrixSelfObject userId key = ascii "\x7b\"keys\":\x7b\"ed25519:" ++ (key ++ quote ::
      (ascii ":\"" ++ (key ++ quote :: (ascii "\x7d,\"usage\":[\"self_signing\"],\"user_id\":\"" ++
        (userId ++ quote :: ascii "\x7d"))))) := by
  simp only [formatMatrixSelfObject, List.append_assoc]
  rfl

theorem formatMatrixDeviceObject_eq (userId deviceId : Bytes) (algorithms : List Bytes)
    (curve ed : Bytes) :
    formatMatrixDeviceObject userId deviceId algorithms curve ed =
      ascii "\x7b\"algorithms\":[" ++
        (formatAlgorithms algorithms ++ 0x5d :: (ascii ",\"device_id\":\"" ++
        (deviceId ++ quote :: (ascii ",\"keys\":\x7b\"curve25519:" ++
          (deviceId ++ quote :: (ascii ":\"" ++
          (curve ++ quote :: (ascii ",\"ed25519:" ++
            (deviceId ++ quote :: (ascii ":\"" ++ (ed ++ quote ::
            (ascii "\x7d,\"user_id\":\"" ++ (userId ++ quote :: ascii "\x7d"))))))))))))) := by
  simp only [formatMatrixDeviceObject, List.append_assoc]
  rfl

theorem formatMatrixSelfObject_inj {userId userId' key key' : Bytes} (huser : quote ∉ userId)
    (huser' : quote ∉ userId') (hkey : quote ∉ key) (hkey' : quote ∉ key')
    (h : formatMatrixSelfObject userId key = formatMatrixSelfObject userId' key') :
    userId = userId' ∧ key = key' := by
  rw [formatMatrixSelfObject_eq, formatMatrixSelfObject_eq] at h
  obtain ⟨hsame, hrest⟩ := append_delimiter_inj hkey hkey' (List.append_cancel_left h)
  obtain ⟨-, hrest⟩ := append_delimiter_inj hkey hkey' (List.append_cancel_left hrest)
  obtain ⟨hid, -⟩ := append_delimiter_inj huser huser' (List.append_cancel_left hrest)
  exact ⟨hid, hsame⟩

/-- The list of algorithms ends at the bracket that closes it. -/
theorem formatAlgorithms_append_inj {algorithms algorithms' : List Bytes} {x y : Bytes}
    (halgorithms : ∀ algorithm ∈ algorithms, quote ∉ algorithm)
    (halgorithms' : ∀ algorithm ∈ algorithms', quote ∉ algorithm)
    (h : formatAlgorithms algorithms ++ 0x5d :: x = formatAlgorithms algorithms' ++ 0x5d :: y) :
    algorithms = algorithms' ∧ x = y := by
  refine intercalate_append_inj (fun algorithm => quote ∉ algorithm)
    (fun algorithm => quote ∉ algorithm) (by decide) ?_ ?_ halgorithms halgorithms' h
  · intro algorithm x _ hhead
    exact absurd (Option.some.inj hhead) (by decide)
  · intro algorithm algorithm' x y hvalid hvalid' heq
    simp only [List.cons_append, List.append_assoc, List.nil_append, List.cons.injEq,
      true_and] at heq
    exact append_delimiter_inj hvalid hvalid' heq

theorem formatMatrixDeviceObject_inj {userId userId' deviceId deviceId' curve curve' ed ed' : Bytes}
    {algorithms algorithms' : List Bytes} (huser : quote ∉ userId) (huser' : quote ∉ userId')
    (hdevice : quote ∉ deviceId) (hdevice' : quote ∉ deviceId')
    (halgorithms : ∀ algorithm ∈ algorithms, quote ∉ algorithm)
    (halgorithms' : ∀ algorithm ∈ algorithms', quote ∉ algorithm) (hcurve : quote ∉ curve)
    (hcurve' : quote ∉ curve') (hed : quote ∉ ed) (hed' : quote ∉ ed')
    (h : formatMatrixDeviceObject userId deviceId algorithms curve ed =
      formatMatrixDeviceObject userId' deviceId' algorithms' curve' ed') :
    userId = userId' ∧ deviceId = deviceId' ∧ algorithms = algorithms' ∧ curve = curve' ∧
    ed = ed' := by
  rw [formatMatrixDeviceObject_eq, formatMatrixDeviceObject_eq] at h
  obtain ⟨hlist, hrest⟩ := formatAlgorithms_append_inj halgorithms halgorithms'
    (List.append_cancel_left h)
  -- the device id stands in the object three times
  obtain ⟨hid, hrest⟩ := append_delimiter_inj hdevice hdevice' (List.append_cancel_left hrest)
  obtain ⟨-, hrest⟩ := append_delimiter_inj hdevice hdevice' (List.append_cancel_left hrest)
  obtain ⟨hcurveEq, hrest⟩ := append_delimiter_inj hcurve hcurve' (List.append_cancel_left hrest)
  obtain ⟨-, hrest⟩ := append_delimiter_inj hdevice hdevice' (List.append_cancel_left hrest)
  obtain ⟨hedEq, hrest⟩ := append_delimiter_inj hed hed' (List.append_cancel_left hrest)
  obtain ⟨huserEq, -⟩ := append_delimiter_inj huser huser' (List.append_cancel_left hrest)
  exact ⟨huserEq, hid, hlist, hcurveEq, hedEq⟩

/-- The third character tells the objects apart. -/
theorem formatMatrixSelfObject_ne_device (userId key userId' deviceId : Bytes)
    (algorithms : List Bytes) (curve ed : Bytes) :
    formatMatrixSelfObject userId key ≠ formatMatrixDeviceObject userId' deviceId algorithms
      curve ed := by
  intro h
  rw [formatMatrixSelfObject_eq, formatMatrixDeviceObject_eq] at h
  have hthird : some (0x6b : UInt8) = some 0x61 := congrArg (·[2]?) h
  exact absurd hthird (by decide)

namespace MatrixControlClaimProofV1

variable {bytes bytes' : Bytes} {proof proof' : MatrixControlClaimProofV1}

theorem key_of_standardNoPad {key key' : FixedBytes 32}
    (h : standardNoPad key.toList = standardNoPad key'.toList) : key = key' :=
  List.Vector.toList_injective (standardNoPad_injective h)

theorem Plain.selfSigningObject_inj (h : proof.Plain) (h' : proof'.Plain)
    (heq : proof.canonicalSelfSigningObject = proof'.canonicalSelfSigningObject) :
    proof.userId = proof'.userId ∧ proof.selfSigningPublicKey = proof'.selfSigningPublicKey := by
  obtain ⟨huser, hself⟩ := formatMatrixSelfObject_inj h.userId.2 h'.userId.2
    (quote_notMem_standardNoPad _) (quote_notMem_standardNoPad _) (Except.ok.inj heq)
  exact ⟨huser, key_of_standardNoPad hself⟩

theorem Plain.deviceKeysObject_inj (h : proof.Plain) (h' : proof'.Plain)
    (heq : proof.canonicalDeviceKeysObject = proof'.canonicalDeviceKeysObject) :
    proof.userId = proof'.userId ∧ proof.deviceId = proof'.deviceId ∧
      proof.algorithms = proof'.algorithms ∧ proof.deviceCurve25519Key =
        proof'.deviceCurve25519Key ∧
      proof.deviceEd25519Key = proof'.deviceEd25519Key := by
  rw [h.canonicalDeviceKeysObject_eq, h'.canonicalDeviceKeysObject_eq] at heq
  obtain ⟨huser, hdevice, halgorithms, hcurve, hed⟩ := formatMatrixDeviceObject_inj h.userId.2
    h'.userId.2 h.deviceId.2 h'.deviceId.2
    (fun algorithm hmem => (h.algorithms algorithm hmem).2)
    (fun algorithm hmem => (h'.algorithms algorithm hmem).2) (quote_notMem_standardNoPad _)
    (quote_notMem_standardNoPad _) (quote_notMem_standardNoPad _) (quote_notMem_standardNoPad _)
    (Except.ok.inj heq)
  exact ⟨huser, hdevice, halgorithms, key_of_standardNoPad hcurve, key_of_standardNoPad hed⟩

/-- Accepted proofs that have an object in common agree in everything that it vouches for. -/
theorem signing_objects_injective {bytes bytes' : Bytes} {proof proof' : MatrixControlClaimProofV1}
    (h : decode bytes = .ok proof) (h' : decode bytes' = .ok proof') :
    (proof.canonicalSelfSigningObject = proof'.canonicalSelfSigningObject →
      proof.userId = proof'.userId ∧ proof.selfSigningPublicKey = proof'.selfSigningPublicKey) ∧
    (proof.canonicalDeviceKeysObject = proof'.canonicalDeviceKeysObject →
      proof.userId = proof'.userId ∧ proof.deviceId = proof'.deviceId ∧
        proof.algorithms = proof'.algorithms ∧ proof.deviceCurve25519Key =
          proof'.deviceCurve25519Key ∧
        proof.deviceEd25519Key = proof'.deviceEd25519Key) ∧
    proof.canonicalSelfSigningObject ≠ proof'.canonicalDeviceKeysObject := by
  have hplain := plain_of_decode h
  have hplain' := plain_of_decode h'
  refine ⟨hplain.selfSigningObject_inj hplain', hplain.deviceKeysObject_inj hplain', fun heq => ?_⟩
  rw [hplain'.canonicalDeviceKeysObject_eq, canonicalSelfSigningObject] at heq
  exact formatMatrixSelfObject_ne_device _ _ _ _ _ _ _ (Except.ok.inj heq)

/-- A proof for the device `D` of the user `@a:b`. -/
def sampleProof : MatrixControlClaimProofV1 :=
  ⟨ascii "@a:b", .replicate 32 1, .replicate 64 2, ascii "D", [ascii "m.olm", []], .replicate 32 3,
    .replicate 32 4, .replicate 64 5⟩

def sampleProofBytes : Bytes :=
  [1, 4, 0] ++ ascii "@a:b" ++ List.replicate 32 1 ++ List.replicate 64 2 ++ [1, 0] ++ ascii "D" ++
    [2, 5, 0] ++ ascii "m.olm" ++ [0, 0] ++ List.replicate 32 3 ++ List.replicate 32 4 ++
    List.replicate 64 5

theorem signing_objects_injective_sample :
    decode sampleProofBytes = .ok sampleProof ∧
      sampleProof.canonicalSelfSigningObject ≠ sampleProof.canonicalDeviceKeysObject := by
  have h : decode sampleProofBytes = .ok sampleProof := by decide +kernel
  exact ⟨h, (signing_objects_injective h h).2.2⟩

/-! ### What an accepted proof says -/

section Verification

variable {verifyEd25519 : FixedBytes 32 → FixedBytes 64 → Bytes → Bool}
  {masterPublicKey device device' : FixedBytes 32}

/-- What an accepted proof has passed. -/
theorem verifyFor_eq_ok : proof.verifyFor verifyEd25519 masterPublicKey device = .ok () ↔
    (∃ selfObject deviceObject, proof.canonicalSelfSigningObject = .ok selfObject ∧
      proof.canonicalDeviceKeysObject = .ok deviceObject ∧
      verifyEd25519 masterPublicKey proof.masterSignature selfObject = true ∧
      verifyEd25519 proof.selfSigningPublicKey proof.selfSigningSignature deviceObject = true) ∧
    proof.deviceEd25519Key = device := by
  simp only [verifyFor, verify, bind_eq_ok, ensure_eq_ok, exists_const]
  constructor
  · rintro ⟨⟨selfObject, hself, hmaster, deviceObject, hobject, hdevice⟩, hkey⟩
    exact ⟨⟨selfObject, deviceObject, hself, hobject, hmaster, hdevice⟩, hkey⟩
  · rintro ⟨⟨selfObject, deviceObject, hself, hobject, hmaster, hdevice⟩, hkey⟩
    exact ⟨⟨selfObject, hself, hmaster, deviceObject, hobject, hdevice⟩, hkey⟩

/-- Where a signature is good for one message only, the two signatures under a master key determine
the whole proof, and with it the device that it is accepted for. -/
theorem eq_of_verifyFor
    (hunique : ∀ key signature message message', verifyEd25519 key signature message = true →
      verifyEd25519 key signature message' = true → message = message')
    (h : decode bytes = .ok proof) (h' : decode bytes' = .ok proof')
    (haccepted : proof.verifyFor verifyEd25519 masterPublicKey device = .ok ())
    (haccepted' : proof'.verifyFor verifyEd25519 masterPublicKey device' = .ok ())
    (hmaster : proof.masterSignature = proof'.masterSignature)
    (hselfSigning : proof.selfSigningSignature = proof'.selfSigningSignature) :
    proof = proof' ∧ device = device' := by
  obtain ⟨⟨selfObject, deviceObject, hself, hobject, hsigned, hsignedDevice⟩, rfl⟩ :=
    verifyFor_eq_ok.mp haccepted
  obtain ⟨⟨selfObject', deviceObject', hself', hobject', hsigned', hsignedDevice'⟩, rfl⟩ :=
    verifyFor_eq_ok.mp haccepted'
  have hplain := plain_of_decode h
  have hplain' := plain_of_decode h'
  -- the master signature fixes the self-signing key, and the signature of that key the device
  rw [← hmaster] at hsigned'
  obtain rfl := hunique _ _ _ _ hsigned hsigned'
  obtain ⟨-, hkey⟩ := hplain.selfSigningObject_inj hplain' (hself.trans hself'.symm)
  rw [← hselfSigning, ← hkey] at hsignedDevice'
  obtain rfl := hunique _ _ _ _ hsignedDevice hsignedDevice'
  obtain ⟨huser, hdevice, halgorithms, hcurve, hed⟩ :=
    hplain.deviceKeysObject_inj hplain' (hobject.trans hobject'.symm)
  obtain ⟨_, _, _, _, _, _, _, _⟩ := proof
  obtain ⟨_, _, _, _, _, _, _, _⟩ := proof'
  simp only at huser hkey hmaster hdevice halgorithms hcurve hed hselfSigning
  subst huser hkey hmaster hdevice halgorithms hcurve hed hselfSigning
  exact ⟨rfl, rfl⟩

end Verification

end MatrixControlClaimProofV1

end JamScript
