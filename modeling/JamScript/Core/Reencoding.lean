import JamScript.Core.RefineInput

/-!
# What decodes is encoded again

Decoding and encoding of the keyed records, the script results and the refine inputs are inverse to
each other: what the encoder writes is read back in normal form, and a byte string that a decoder
accepts is what the encoder writes for the decoded value. Each format is a `Canonical` one.
-/

namespace JamScript

open Codec

/-! ## Keyed records -/

namespace StateDiffV1

theorem sorted_eq {diff canonical : StateDiffV1} (h : diff.canonicalize = .ok canonical) :
    canonical = diff.sorted ∧ canonical.validateCanonical = .ok () := by
  obtain ⟨_, hcanonical, h⟩ := bind_eq_ok.mp h
  cases h
  exact ⟨rfl, hcanonical⟩

/-- The order in which the changes are listed does not matter for the encoding. -/
theorem decode_encode {diff : StateDiffV1} {bytes : Bytes} (h : diff.encode = .ok bytes) :
    decode bytes = .ok diff.sorted := by
  obtain ⟨_, -, h⟩ := bind_eq_ok.mp h
  obtain ⟨canonical, hcanonical, h⟩ := bind_eq_ok.mp h
  obtain ⟨rfl, -⟩ := sorted_eq hcanonical
  exact decode_iff.mpr h

theorem encode_decode {bytes : Bytes} {diff : StateDiffV1} (h : decode bytes = .ok diff) :
    diff.encode = .ok bytes := by
  have hcanonical := validateCanonical_of_decode h
  refine bind_eq_ok.mpr ⟨(), (validateCanonical_eq_ok.mp hcanonical).1, ?_⟩
  exact bind_eq_ok.mpr ⟨diff, canonicalize_of_canonical hcanonical, decode_iff.mp h⟩

end StateDiffV1

/-! ## Script results -/

namespace ScriptActionResultV1

/-- The kind byte and the body of a result record. -/
def encodeBody (result : ScriptActionResultV1) : Except WireError Bytes :=
  match result with
  | .applied diff => do
    validateApplicationDiff diff
    let encoded ← diff.encode
    let written ← Writer.bytesU32 encoded
    pure (0 :: written)
  | .abort code => do
    ensure (1 ≤ code ∧ code ≤ maxApplicationAbortCode) WireError.invalidEncoding
    pure (1 :: u32ToLe code)
  | .needState key => do
    ensure (key.length ≤ maxStateKeyBytes) WireError.invalidEncoding
    let written ← Writer.bytesU32 key
    pure (2 :: written)
  | .fatal code => do
    ensure (minFatalErrorCode ≤ code) WireError.invalidEncoding
    pure (3 :: u32ToLe code)

def encode (result : ScriptActionResultV1) : Except WireError Bytes := do
  let body ← result.encodeBody
  let encoded := scriptActionResultVersion :: body
  ensure (encoded.length ≤ maxScriptActionResultBytes) WireError.tooManyItems
  pure encoded

/-- A script's diff is canonical, so that it is encoded in the order it has. -/
theorem sorted_of_validateApplicationDiff {diff : StateDiffV1}
    (h : validateApplicationDiff diff = .ok ()) : diff.sorted = diff := by
  obtain ⟨_, hcanonical, -⟩ := bind_eq_ok.mp h
  exact (StateDiffV1.sorted_eq (StateDiffV1.canonicalize_of_canonical hcanonical)).1.symm

/-- A body that is no longer than a whole record may be is read back. -/
theorem reads_decodeBody {result : ScriptActionResultV1} {body : Bytes}
    (h : result.encodeBody = .ok body) (hsize : body.length ≤ maxScriptActionResultBytes) :
    Reads decodeBody body result := by
  cases result with
  | applied diff =>
    obtain ⟨_, hvalid, h⟩ := bind_eq_ok.mp h
    obtain ⟨encoded, hencoded, h⟩ := bind_eq_ok.mp h
    obtain ⟨written, hwritten, h⟩ := bind_eq_ok.mp h
    cases h
    have hlength : encoded.length ≤ maxRecoveryBytes := by
      have hwrittenLength := Writer.length_bytesU32 hwritten
      rw [List.length_cons, hwrittenLength] at hsize
      have : maxScriptActionResultBytes = maxRecoveryBytes := rfl
      omega
    have hdecode : StateDiffV1.decode encoded = .ok diff := by
      rw [StateDiffV1.decode_encode hencoded, sorted_of_validateApplicationDiff hvalid]
    rw [← List.append_nil written]
    refine (reads_u8 0).bind ((reads_bytesLimited hwritten hlength).bind ?_)
    exact Reads.lift_bind hdecode (Reads.lift_bind hvalid (Reads.pure _))
  | abort code =>
    obtain ⟨_, hcode, h⟩ := bind_eq_ok.mp h
    cases h
    rw [← List.append_nil (u32ToLe code)]
    exact (reads_u8 1).bind ((reads_u32 code).bind
      (Reads.check_bind (ensure_eq_ok.mp hcode) (Reads.pure _)))
  | needState key =>
    obtain ⟨_, hkey, h⟩ := bind_eq_ok.mp h
    obtain ⟨written, hwritten, h⟩ := bind_eq_ok.mp h
    cases h
    exact (reads_u8 2).bind ((reads_bytesLimited hwritten (ensure_eq_ok.mp hkey)).bind_pure _)
  | fatal code =>
    obtain ⟨_, hcode, h⟩ := bind_eq_ok.mp h
    cases h
    rw [← List.append_nil (u32ToLe code)]
    exact (reads_u8 3).bind ((reads_u32 code).bind
      (Reads.check_bind (ensure_eq_ok.mp hcode) (Reads.pure _)))

theorem decode_encode {result : ScriptActionResultV1} {bytes : Bytes}
    (h : result.encode = .ok bytes) :
    decode bytes = .ok result := by
  obtain ⟨body, hbody, h⟩ := bind_eq_ok.mp h
  obtain ⟨_, hsize, h⟩ := bind_eq_ok.mp h
  cases h
  refine bind_eq_ok.mpr ⟨(), hsize, Reads.whole _ ?_⟩
  refine (reads_u8 _).bind (Reads.check_bind rfl (reads_decodeBody hbody ?_))
  exact (Nat.le_succ _).trans (ensure_eq_ok.mp hsize)

/-- A body that was read is the one that is written. -/
theorem decodeBody_eq_ok {bytes rest : Bytes} {result : ScriptActionResultV1}
    (h : decodeBody bytes = .ok (result, rest)) :
    ∃ body, result.encodeBody = .ok body ∧ bytes = body ++ rest := by
  obtain ⟨kind, _, hkind, h⟩ := Parser.bind_eq_ok.mp h
  rw [Reader.consumes_u8 hkind]
  split at h
  · obtain ⟨encoded, _, hencoded, h⟩ := Parser.bind_eq_ok.mp h
    obtain ⟨diff, _, hlift, h⟩ := Parser.bind_eq_ok.mp h
    obtain ⟨hdiff, rfl⟩ := Parser.lift_eq_ok.mp hlift
    obtain ⟨_, _, hcheck, h⟩ := Parser.bind_eq_ok.mp h
    obtain ⟨hvalid, rfl⟩ := Parser.lift_eq_ok.mp hcheck
    obtain ⟨rfl, rfl⟩ := Parser.pure_eq_ok.mp h
    refine ⟨_, bind_eq_ok.mpr ⟨(), hvalid, bind_eq_ok.mpr ⟨_, StateDiffV1.encode_decode hdiff,
      bind_eq_ok.mpr ⟨_, ?_, rfl⟩⟩⟩, congrArg (0 :: ·) (Reader.consumes_bytesLimited _ hencoded)⟩
    exact Writer.bytesU32_of_le (Reader.length_le_of_bytesLimited hencoded) (by decide)
  · obtain ⟨code, _, hcode, h⟩ := Parser.bind_eq_ok.mp h
    obtain ⟨_, _, hcheck, h⟩ := Parser.bind_eq_ok.mp h
    obtain ⟨hrange, rfl⟩ := Parser.check_eq_ok.mp hcheck
    obtain ⟨rfl, rfl⟩ := Parser.pure_eq_ok.mp h
    exact ⟨_, bind_eq_ok.mpr ⟨(), ensure_eq_ok.mpr hrange, rfl⟩,
      congrArg (1 :: ·) (Reader.consumes_u32 hcode)⟩
  · obtain ⟨key, _, hkey, h⟩ := Parser.bind_eq_ok.mp h
    obtain ⟨rfl, rfl⟩ := Parser.pure_eq_ok.mp h
    have hlength := Reader.length_le_of_bytesLimited hkey
    exact ⟨_, bind_eq_ok.mpr ⟨(), ensure_eq_ok.mpr hlength, bind_eq_ok.mpr
      ⟨_, Writer.bytesU32_of_le hlength (by decide), rfl⟩⟩,
      congrArg (2 :: ·) (Reader.consumes_bytesLimited _ hkey)⟩
  · obtain ⟨code, _, hcode, h⟩ := Parser.bind_eq_ok.mp h
    obtain ⟨_, _, hcheck, h⟩ := Parser.bind_eq_ok.mp h
    obtain ⟨hrange, rfl⟩ := Parser.check_eq_ok.mp hcheck
    obtain ⟨rfl, rfl⟩ := Parser.pure_eq_ok.mp h
    exact ⟨_, bind_eq_ok.mpr ⟨(), ensure_eq_ok.mpr hrange, rfl⟩,
      congrArg (3 :: ·) (Reader.consumes_u32 hcode)⟩
  · cases h

theorem encode_decode {bytes : Bytes} {result : ScriptActionResultV1}
    (h : decode bytes = .ok result) :
    result.encode = .ok bytes := by
  obtain ⟨_, hsize, h⟩ := bind_eq_ok.mp h
  replace h := Parser.whole_eq_ok.mp h
  obtain ⟨version, _, hread, h⟩ := Parser.bind_eq_ok.mp h
  obtain ⟨_, _, hcheck, h⟩ := Parser.bind_eq_ok.mp h
  obtain ⟨rfl, rfl⟩ := Parser.check_eq_ok.mp hcheck
  obtain ⟨body, hbody, rfl⟩ := decodeBody_eq_ok h
  rw [List.append_nil] at hread
  obtain rfl := Reader.consumes_u8 hread
  exact bind_eq_ok.mpr ⟨body, hbody, bind_eq_ok.mpr ⟨(), hsize, rfl⟩⟩

end ScriptActionResultV1

/-- The four records have one encoding each, and an accepted diff has its keys in strictly
increasing order, none of them reserved, and all within the limits. -/
theorem keyed_records_canonical :
    Canonical StateDiffV1.encode StateDiffV1.decode (fun _ => True) StateDiffV1.sorted ∧
    Canonical StateRecoveryV1.encode StateRecoveryV1.decode (fun _ => True) id ∧
    Canonical ScriptActionResultV1.encode ScriptActionResultV1.decode (fun _ => True) id ∧
    Canonical StateViewV1.encode StateViewV1.decode (fun _ => True) id ∧
    ∀ bytes diff, StateDiffV1.decode bytes = .ok diff →
      ((diff.changes.map (·.key)).Pairwise fun left right => compare left right = .lt) ∧
      diff.changes.length ≤ maxRecoveryChanges ∧
      ∀ change ∈ diff.changes, isReservedServiceStorageKey change.key = false ∧
        change.key.length ≤ maxStateKeyBytes ∧
        ∀ value ∈ change.value, value.length ≤ maxStateValueBytes := by
  refine ⟨⟨fun _ => StateDiffV1.decode_encode, StateDiffV1.encode_decode⟩,
    ⟨fun _ => StateRecoveryV1.decode_iff.mpr, StateRecoveryV1.decode_iff.mp⟩,
    ⟨fun _ => ScriptActionResultV1.decode_encode, ScriptActionResultV1.encode_decode⟩,
    ⟨fun _ => StateViewV1.decode_iff.mpr, StateViewV1.decode_iff.mp⟩, fun bytes diff hdecode => ?_⟩
  obtain ⟨hlimits, hordered⟩ :=
    StateDiffV1.validateCanonical_eq_ok.mp (StateDiffV1.validateCanonical_of_decode hdecode)
  exact ⟨hordered, StateDiffV1.validateLimits_eq_ok.mp hlimits⟩

/-- Two changes that are listed in the wrong order. -/
def swappedDiff : StateDiffV1 := ⟨[⟨[2], some [7]⟩, ⟨[1], none⟩]⟩

theorem keyed_records_canonical_swapped :
    ∃ bytes, swappedDiff.encode = .ok bytes ∧
      StateDiffV1.decode bytes = .ok ⟨[⟨[1], none⟩, ⟨[2], some [7]⟩]⟩ := by
  obtain ⟨bytes, hencode⟩ : ∃ bytes, swappedDiff.encode = .ok bytes := ⟨_, rfl⟩
  exact ⟨bytes, hencode, keyed_records_canonical.1.decode_encode trivial hencode⟩

/-! ## Access plans and witnesses -/

namespace StateAccessPlanV1

/-- The keys are in order and none is repeated. -/
def Ordered (plan : StateAccessPlanV1) : Prop :=
  plan.keys.Pairwise fun left right => compare left right = .lt

instance (plan : StateAccessPlanV1) : Decidable plan.Ordered :=
  inferInstanceAs (Decidable (List.Pairwise _ _))

/-- Sorting and dropping repetitions leaves keys in strictly increasing order. -/
theorem ordered_of_fromKeys {keys : List Bytes} {plan : StateAccessPlanV1}
    (h : fromKeys keys = .ok plan) :
    plan.Ordered := by
  obtain ⟨_, -, h⟩ := bind_eq_ok.mp h
  cases h
  have htotal : Std.Total fun left right : Bytes => (compare left right).isLE = true :=
    ⟨fun left right => by
      have hswap : compare right left = (compare left right).swap := Std.OrientedCmp.eq_swap
      rw [hswap]
      cases compare left right <;> simp⟩
  have htrans : IsTrans Bytes fun left right => (compare left right).isLE = true :=
    ⟨fun _ _ _ => Std.TransCmp.isLE_trans⟩
  have hsorted : (keys.insertionSort fun left right => (compare left right).isLE).Pairwise
      fun left right => (compare left right).isLE = true := List.pairwise_insertionSort _ _
  have hdistinct : ((keys.insertionSort fun left right => (compare left right).isLE).destutter
      (· ≠ ·)).IsChain (· ≠ ·) := List.isChain_destutter _ _
  have hkept := hsorted.sublist (List.destutter_sublist (· ≠ ·) _)
  have hlt : IsTrans Bytes fun left right => compare left right = .lt :=
    ⟨fun _ _ _ => Std.TransCmp.lt_trans⟩
  have hstrict : ∀ left right : Bytes, (compare left right).isLE = true → left ≠ right →
      compare left right = .lt := by
    intro left right hle hne
    rw [ne_eq, ← Std.compare_eq_iff_eq] at hne
    revert hle hne
    cases compare left right <;> simp
  -- neighbours are in order and different
  refine List.isChain_iff_pairwise.mp (List.isChain_iff_getElem.mpr fun i hi => ?_)
  exact hstrict _ _ (List.isChain_iff_getElem.mp hkept.isChain i hi)
    (List.isChain_iff_getElem.mp hdistinct i hi)

theorem mapM_mem {ε α β : Type} {f : α → Except ε β} {xs : List α} {ys : List β}
    (h : xs.mapM f = .ok ys) : ∀ x ∈ xs, ∃ y, f x = .ok y := by
  induction xs generalizing ys with
  | nil => exact nofun
  | cons x xs ih =>
    rw [List.mapM_cons] at h
    obtain ⟨y, hy, h⟩ := bind_eq_ok.mp h
    obtain ⟨rest, hrest, -⟩ := bind_eq_ok.mp h
    exact List.forall_mem_cons.mpr ⟨⟨y, hy⟩, ih hrest⟩

/-- An ordered plan that has an encoding is one that `from_keys` builds. -/
theorem canonical_of_encode {plan : StateAccessPlanV1} {bytes : Bytes} (hordered : plan.Ordered)
    (h : plan.encode = .ok bytes) : plan.Canonical := by
  obtain ⟨_, hchecks, h⟩ := bind_eq_ok.mp h
  obtain ⟨written, hwritten, -⟩ := bind_eq_ok.mp h
  obtain ⟨hversion, hcount⟩ := ensure_eq_ok.mp hchecks
  have hlength : ∀ key ∈ plan.keys, key.length ≤ maxStateKeyBytes := by
    intro key hkey
    obtain ⟨_, hwrite⟩ := mapM_mem hwritten key hkey
    obtain ⟨_, hmax, -⟩ := bind_eq_ok.mp hwrite
    exact ensure_eq_ok.mp hmax
  rw [Canonical, fromKeys_of_ordered hordered hcount hlength, ← hversion]

end StateAccessPlanV1

theorem ManagedStateWitnessV1.canonical_plan {witness : ManagedStateWitnessV1} {bytes : Bytes}
    (hordered : witness.accessPlan.Ordered) (h : witness.encode = .ok bytes) :
    witness.accessPlan.Canonical := by
  obtain ⟨-, plan, hplan, -⟩ := encode_eq_ok.mp h
  exact StateAccessPlanV1.canonical_of_encode hordered hplan

/-! ## Refine inputs -/

namespace RuntimeRefineInputV1

/-- The keys of all access plans of an input are in order. -/
def PlansOrdered (input : RuntimeRefineInputV1) : Prop :=
  input.managedState.accessPlan.Ordered ∧
    ∀ witness ∈ input.externalState, witness.managedState.accessPlan.Ordered

instance (input : RuntimeRefineInputV1) : Decidable input.PlansOrdered :=
  inferInstanceAs (Decidable (_ ∧ _))

theorem writeExternalWitnesses_mem {witnesses : List ExternalStateWitnessV1}
    {previous : Option UInt32} {total : ℕ} {written : Bytes}
    (h : writeExternalWitnesses previous total witnesses = .ok written) :
    ∀ witness ∈ witnesses, ∃ encoded, witness.managedState.encode = .ok encoded := by
  induction witnesses generalizing previous total written with
  | nil => exact nofun
  | cons witness witnesses ih =>
    simp only [writeExternalWitnesses, bind_eq_ok] at h
    obtain ⟨_, -, encoded, hencoded, _, -, _, -, rest, hrest, -⟩ := h
    exact List.forall_mem_cons.mpr ⟨⟨encoded, hencoded⟩, ih hrest⟩

theorem canonical_of_encode {input : RuntimeRefineInputV1} {bytes : Bytes}
    (hplans : input.PlansOrdered) (h : input.encode = .ok bytes) : input.Canonical := by
  obtain ⟨_, -, h⟩ := bind_eq_ok.mp h
  obtain ⟨witness, hwitness, h⟩ := bind_eq_ok.mp h
  obtain ⟨external, hexternal, -⟩ := bind_eq_ok.mp h
  obtain ⟨-, written, hwritten, -⟩ := encodeExternalWitnesses_eq_ok.mp hexternal
  refine ⟨ManagedStateWitnessV1.canonical_plan hplans.1 hwitness, fun other hother => ?_⟩
  obtain ⟨encoded, hencoded⟩ := writeExternalWitnesses_mem hwritten other
    ((List.mem_insertionSort _).mpr hother)
  exact ManagedStateWitnessV1.canonical_plan (hplans.2 other hother) hencoded

end RuntimeRefineInputV1

/-- Inputs, witnesses and plans with their keys in order are read back, an input with its external
witnesses in order of service id, and have one encoding each. `from_keys` builds plans of this
kind. -/
theorem refine_inputs_canonical :
    Canonical RuntimeRefineInputV1.encode RuntimeRefineInputV1.decode
      RuntimeRefineInputV1.PlansOrdered
      RuntimeRefineInputV1.ordered ∧
    Canonical ManagedStateWitnessV1.encode ManagedStateWitnessV1.decode
      (fun witness => witness.accessPlan.Ordered) id ∧
    Canonical StateAccessPlanV1.encode StateAccessPlanV1.decode StateAccessPlanV1.Ordered id ∧
    ∀ keys plan, StateAccessPlanV1.fromKeys keys = .ok plan → plan.Ordered := by
  refine ⟨⟨fun hplans h => ?_, fun h => (RuntimeRefineInputV1.decode_iff.mp h).2.2⟩,
    ⟨fun hordered h => ?_, fun h => (ManagedStateWitnessV1.decode_iff.mp h).2⟩,
    ⟨fun hordered h => ?_, fun h => (StateAccessPlanV1.decode_iff.mp h).2⟩,
    fun _ _ => StateAccessPlanV1.ordered_of_fromKeys⟩
  · exact RuntimeRefineInputV1.decode_encode (RuntimeRefineInputV1.canonical_of_encode hplans h) h
  · exact ManagedStateWitnessV1.decode_iff.mpr ⟨ManagedStateWitnessV1.canonical_plan hordered h, h⟩
  · exact StateAccessPlanV1.decode_iff.mpr ⟨StateAccessPlanV1.canonical_of_encode hordered h, h⟩

/-- A witness of the empty state with two planned keys. -/
def emptyWitness : ManagedStateWitnessV1 := ⟨1, emptyStateRootV1, ⟨1, [[1], [2]]⟩, [[0]]⟩

/-- One action, and the witnesses of two services in the wrong order. -/
def swappedInput : RuntimeRefineInputV1 :=
  ⟨1, emptyWitness, [⟨9, emptyWitness⟩, ⟨7, emptyWitness⟩], [[42]]⟩

set_option maxRecDepth 2000 in
theorem refine_inputs_canonical_swapped :
    ∃ bytes, swappedInput.encode = .ok bytes ∧ RuntimeRefineInputV1.decode bytes =
      .ok ⟨1, emptyWitness, [⟨7, emptyWitness⟩, ⟨9, emptyWitness⟩], [[42]]⟩ := by
  obtain ⟨bytes, hencode⟩ : ∃ bytes, swappedInput.encode = .ok bytes := ⟨_, rfl⟩
  exact ⟨bytes, hencode, refine_inputs_canonical.1.decode_encode (by decide) hencode⟩

end JamScript
