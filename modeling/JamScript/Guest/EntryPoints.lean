import JamScript.Core.OutputDecoders
import JamScript.Core.RefineInput
import JamScript.Guest.Descriptor
import JamScript.Guest.Planner

/-!
# The entry points of a guest

A guest exports `minijam_refine` and `jamscript_plan_v1`. Both read the payload, decode it as a
refine input and run the batch; what differs is the run and the bytes its outcome is turned into.
There are two implementations. One is the template `jamscript-codegen-rust` fills for a service
(`Generated`), the other is the prebuilt guest that reads a descriptor (`Prebuilt`).

They do not write the same bytes. `outputs_agree_iff` lists the outcomes for which they do, and
`generated_hides_refine_output` is a refine run that succeeds and that the generated guest still
answers with an error code.
-/

namespace JamScript

open Codec Effects

/-! ## Running a batch from its payload -/

/-- What the host answers to a guest while one entry point runs. -/
structure GuestHost where
  /-- Whether the heap could be set up for the memory budget of the service. -/
  resetRuntime : Bool
  /-- The payload, unless the host reports a status for it. -/
  payload : Option Bytes
  networkDomain : Option (FixedBytes 32)

section Run

variable (L : TrieLibrary) {M : Type} (blake2_256 : Bytes → StateRoot)
  (application : ServiceApplication M) (memory : M) (host : GuestHost)

/-- The part that all entry points share: set up the heap, read the payload and decode it. -/
def readInput : Except GuestError RuntimeRefineInputV1 := do
  ensure (host.resetRuntime = true) GuestError.environment
  match host.payload with
  | none => throw .invalidInput
  | some bytes => (RuntimeRefineInputV1.decode bytes).mapError fun _ => GuestError.invalidInput

def hostExecutionEnvironment : Except GuestError ExecutionEnvironmentV1 :=
  match host.networkDomain with
  | some networkDomain => .ok ⟨networkDomain⟩
  | none => .error .environment

/-- `run_refine` of a guest with the application compiled in. -/
def runRefine : Except GuestError RuntimeRefineOutputV1 := do
  let input ← readInput host
  let environment ← hostExecutionEnvironment host
  refineWithEnvironment L blake2_256 application memory input environment

/-- `run_plan` of a guest with the application compiled in. -/
def runPlan : Except GuestError Unit := do
  let input ← readInput host
  let environment ← hostExecutionEnvironment host
  planOwnedWithEnvironment L application memory input environment

end Run

/-! ## Outputs -/

def outputCapacity : ℕ := 2097152

def errorOutput (code : UInt32) : Bytes := u32ToLe code

def plannerDoneOutput : Bytes := [0]

/-- Copy an encoded value to the output buffer. -/
def writeOutput (bytes : Bytes) : Bytes :=
  if bytes.length > outputCapacity then errorOutput 14 else bytes

/-- Write the encoding of a value, or the code of a state error when it has none. -/
def writeEncoded : Except WireError Bytes → Bytes
  | .ok bytes => writeOutput bytes
  | .error _ => errorOutput 2

namespace Generated

/-- The error code of the only receipt, when it is fatal. -/
def nativeError (output : RuntimeRefineOutputV1) : Option UInt32 :=
  match output.receipts with
  | [receipt] => receipt.errorCode.filter fun code => code &&& 0x80000000 ≠ 0
  | _ => none

/-- `output_for(true)`, after the check for a fault. -/
def planOutput : Except GuestError Unit → Bytes
  | .ok () => plannerDoneOutput
  | .error (.needState key) => writeEncoded (encodePlannerNeedState key)
  | .error (.needExternalState serviceId key) =>
    writeEncoded (encodePlannerNeedExternalState serviceId key)
  | .error .invalidInput => errorOutput 1
  | .error .environment => errorOutput 2
  | .error .state => errorOutput 2
  | .error .application => errorOutput 3

/-- `output_for(false)`, after the check for a fault. -/
def refineOutput : Except GuestError RuntimeRefineOutputV1 → Bytes
  | .error .invalidInput => errorOutput 1
  | .error .environment => errorOutput 2
  | .error .state => errorOutput 2
  | .error .application => errorOutput 3
  | .error (.needState _) => errorOutput 2
  | .error (.needExternalState _ _) => errorOutput 2
  | .ok output =>
    match nativeError output with
    | some code => errorOutput code
    | none => writeEncoded output.encode

end Generated

namespace Prebuilt

/-- `output_for(true)`, after the check for a fault. -/
def planOutput : Except GuestError Unit → Bytes
  | .ok () => plannerDoneOutput
  | .error (.needState key) => writeEncoded (encodePlannerNeedState key)
  | .error (.needExternalState serviceId key) =>
    writeEncoded (encodePlannerNeedExternalState serviceId key)
  | .error _ => errorOutput 2

/-- `output_for(false)`, after the check for a fault. -/
def refineOutput : Except GuestError RuntimeRefineOutputV1 → Bytes
  | .ok output => writeEncoded output.encode
  | .error (.needState key) => writeEncoded (encodePlannerNeedState key)
  | .error (.needExternalState serviceId key) =>
    writeEncoded (encodePlannerNeedExternalState serviceId key)
  | .error _ => errorOutput 2

variable (L : TrieLibrary) {M : Type} (blake2_256 : Bytes → StateRoot) (crypto : CryptoLibrary)
  (descriptor : JamScriptServiceDescriptorV2 M) (memory : M) (host : GuestHost)

/-- `run_refine` of the prebuilt guest, which checks its descriptor first. -/
def runRefine : Except GuestError RuntimeRefineOutputV1 := do
  descriptor.check
  JamScript.runRefine L blake2_256 (descriptorApplication crypto descriptor) memory host

/-- `run_plan` of the prebuilt guest. -/
def runPlan : Except GuestError Unit := do
  descriptor.check
  JamScript.runPlan L (descriptorApplication crypto descriptor) memory host

end Prebuilt

/-- A guest that has recorded a fault traps instead of returning. -/
def trapOnFault (fault : Bool) (output : Bytes) : Option Bytes :=
  if fault then none else some output

/-! ## Where the two guests agree -/

theorem errorOutput_injective {left right : UInt32} (h : errorOutput left = errorOutput right) :
    left = right := by
  have hle := congrArg u32OfLe h
  rwa [errorOutput, errorOutput, u32OfLe_u32ToLe, u32OfLe_u32ToLe] at hle

theorem writeEncoded_ok {bytes : Bytes} (h : bytes.length ≤ outputCapacity) :
    writeEncoded (.ok bytes) = bytes :=
  if_neg (Nat.not_lt.mpr h)

/-- An encoding that is longer than an error code and fits the buffer is not an error output. -/
theorem writeEncoded_ne_errorOutput {bytes : Bytes} (h : bytes.length ≤ outputCapacity)
    (hlong : 4 < bytes.length) (code : UInt32) : writeEncoded (.ok bytes) ≠ errorOutput code := by
  intro heq
  rw [writeEncoded_ok h] at heq
  have hlength := congrArg List.length heq
  rw [errorOutput, length_u32ToLe] at hlength
  omega

/-- The outcomes of a planning run for which the guests agree. -/
def PlanAgrees : Except GuestError Unit → Prop
  | .error .invalidInput | .error .application => False
  | _ => True

/-- The outcomes of a refine run for which the guests agree: no decoded key is asked for, and a
single receipt does not carry a fatal code. -/
def RefineAgrees : Except GuestError RuntimeRefineOutputV1 → Prop
  | .error .invalidInput | .error .application => False
  | .error (.needState key) | .error (.needExternalState _ key) => maxStateKeyBytes < key.length
  | .error .environment | .error .state => True
  | .ok output => Generated.nativeError output = none

theorem planOutput_eq_iff (planned : Except GuestError Unit) :
    Generated.planOutput planned = Prebuilt.planOutput planned ↔ PlanAgrees planned := by
  rcases planned with e | _
  · cases e with
    | invalidInput | application => exact iff_of_false (by decide) id
    | environment | state | needState | needExternalState => exact iff_of_true rfl trivial
  · exact iff_of_true rfl trivial

/-- A value whose encodings are longer than an error code and fit the buffer is written as the code
of a state error exactly when it has no encoding. -/
theorem errorOutput_eq_writeEncoded_iff {encoded : Except WireError Bytes}
    (hok : ∀ bytes, encoded = .ok bytes → 4 < bytes.length ∧ bytes.length ≤ outputCapacity) :
    errorOutput 2 = writeEncoded encoded ↔ ∀ bytes, encoded ≠ .ok bytes := by
  cases encoded with
  | ok bytes =>
    obtain ⟨hlong, hcapacity⟩ := hok bytes rfl
    refine iff_of_false (fun h => ?_) fun h => h bytes rfl
    exact writeEncoded_ne_errorOutput hcapacity hlong 2 h.symm
  | error e => exact iff_of_true rfl nofun

theorem needState_output_iff (key : Bytes) :
    errorOutput 2 = writeEncoded (encodePlannerNeedState key) ↔ maxStateKeyBytes < key.length := by
  rw [errorOutput_eq_writeEncoded_iff fun bytes h => ?_, ← Nat.not_le, ← encodePlannerNeedState_ok]
  · exact not_exists.symm
  · obtain ⟨hlength, hkey⟩ := length_encodePlannerNeedState h
    unfold maxStateKeyBytes at hkey
    unfold outputCapacity
    omega

theorem needExternalState_output_iff (serviceId : UInt32) (key : Bytes) :
    errorOutput 2 = writeEncoded (encodePlannerNeedExternalState serviceId key) ↔
      maxStateKeyBytes < key.length := by
  rw [errorOutput_eq_writeEncoded_iff fun bytes h => ?_, ← Nat.not_le,
    ← encodePlannerNeedExternalState_ok serviceId]
  · exact not_exists.symm
  · obtain ⟨hlength, hkey⟩ := length_encodePlannerNeedExternalState h
    unfold maxStateKeyBytes at hkey
    unfold outputCapacity
    omega

theorem length_encode_le_capacity {output : RuntimeRefineOutputV1} {bytes : Bytes}
    (h : output.encode = .ok bytes) : 4 < bytes.length ∧ bytes.length ≤ outputCapacity := by
  obtain ⟨hlong, hshort⟩ := RuntimeRefineOutputV1.length_encode_le h
  refine ⟨hlong, hshort.trans ?_⟩
  decide

/-- A fatal code is not the code of an error of the guest itself. -/
theorem nativeError_ne {output : RuntimeRefineOutputV1} {code : UInt32}
    (h : Generated.nativeError output = some code) : code ≠ 2 := by
  unfold Generated.nativeError at h
  split at h
  case h_1 receipt hreceipts =>
    obtain ⟨-, hfatal⟩ := Option.filter_eq_some_iff.mp h
    rintro rfl
    revert hfatal
    decide
  case h_2 => cases h

theorem refineOutput_eq_iff (refined : Except GuestError RuntimeRefineOutputV1) :
    Generated.refineOutput refined = Prebuilt.refineOutput refined ↔ RefineAgrees refined := by
  rcases refined with e | output
  · cases e with
    | invalidInput | application => exact iff_of_false (by decide) id
    | environment | state => exact iff_of_true rfl trivial
    | needState key => exact needState_output_iff key
    | needExternalState serviceId key => exact needExternalState_output_iff serviceId key
  · change _ ↔ Generated.nativeError output = none
    cases hnative : Generated.nativeError output with
    | none =>
      refine iff_of_true ?_ rfl
      simp only [Generated.refineOutput, hnative, Prebuilt.refineOutput]
    | some code =>
      refine iff_of_false (fun h => ?_) (Option.some_ne_none code)
      simp only [Generated.refineOutput, hnative, Prebuilt.refineOutput] at h
      cases hencode : output.encode with
      | ok bytes =>
        obtain ⟨hlong, hcapacity⟩ := length_encode_le_capacity hencode
        rw [hencode] at h
        exact writeEncoded_ne_errorOutput hcapacity hlong code h.symm
      | error e =>
        rw [hencode] at h
        exact nativeError_ne hnative (errorOutput_injective h)

/-! ## Outputs of successful runs -/

section Success

variable {L : TrieLibrary} {M : Type} {blake2_256 : Bytes → StateRoot}
  {application : ServiceApplication M} {memory : M} {host : GuestHost}

theorem length_receipts_refineActions {σ ε : Type} [ManagedStateAccess σ] [ExternalStateAccess ε]
    {setup : BatchSetup M} {actions : List Bytes} {batch after : Batch σ ε M}
    (h : refineActions setup batch actions = .ok after) :
    after.receipts.length = batch.receipts.length + actions.length := by
  induction actions generalizing batch with
  | nil =>
    cases h
    rfl
  | cons action actions ih =>
    obtain ⟨next, hnext, hrest⟩ := bind_eq_ok.mp h
    obtain ⟨-, state, -, rfl⟩ := refineAction_eq_ok hnext
    rw [ih hrest, Batch.advance, List.length_append, List.length_singleton, List.length_cons,
      Nat.add_assoc, Nat.add_comm 1]

/-- A refine call returns a well-built output with one receipt for each action. -/
theorem refineWithEnvironment_built {input : RuntimeRefineInputV1}
    {environment : ExecutionEnvironmentV1} {output : RuntimeRefineOutputV1}
    (h : refineWithEnvironment L blake2_256 application memory input environment = .ok output) :
    output.receipts.length = input.actions.length ∧ output.Built blake2_256 := by
  obtain ⟨transition, hinternal, houtput⟩ := bind_eq_ok.mp h
  obtain ⟨hreceipts, hbuilt⟩ :=
    RuntimeRefineOutputV1.fromDiffWithDependenciesAndValidity_built (mapError_eq_ok.mp houtput)
  obtain ⟨-, batch, hloop, -, -, htransition⟩ := refineInternal_eq_ok hinternal
  have hlength := length_receipts_refineActions hloop
  rw [hreceipts, htransition]
  exact ⟨hlength.trans (Nat.zero_add _), hbuilt⟩

/-- A successful refine run has an encoding that fits the output buffer and that the backend's
decoder and the header decoder of accumulate accept. -/
theorem runRefine_encodes {output : RuntimeRefineOutputV1}
    (h : runRefine L blake2_256 application memory host = .ok output) :
    ∃ bytes, output.encode = .ok bytes ∧ writeEncoded output.encode = bytes ∧
      RuntimeRefineOutputV1.decode blake2_256 bytes = .ok output ∧
      RuntimeRefineOutputV1.decodeTransitionHeader bytes =
        .ok (output.header output.externalDependencies) := by
  obtain ⟨input, hinput, h⟩ := bind_eq_ok.mp h
  obtain ⟨environment, -, h⟩ := bind_eq_ok.mp h
  have hactions : input.actions.length ≤ maxRuntimeActions := by
    obtain ⟨_, -, hinput⟩ := bind_eq_ok.mp hinput
    cases hpayload : host.payload with
    | none =>
      rw [hpayload] at hinput
      cases hinput
    | some bytes =>
      rw [hpayload] at hinput
      exact RuntimeRefineInputV1.length_actions_of_decode (mapError_eq_ok.mp hinput)
  obtain ⟨hreceipts, hbuilt⟩ := refineWithEnvironment_built h
  obtain ⟨bytes, hencode, hdecode, hheader⟩ := hbuilt.encode (hreceipts.trans_le hactions)
  refine ⟨bytes, hencode, ?_, hdecode, hheader⟩
  rw [hencode]
  exact writeEncoded_ok (length_encode_le_capacity hencode).2

namespace Prebuilt

variable {crypto : CryptoLibrary} {descriptor : JamScriptServiceDescriptorV2 M}

/-- What a successful run of the prebuilt guest returns, the backend reads back. -/
theorem decode_refineOutput {output : RuntimeRefineOutputV1}
    (h : runRefine L blake2_256 crypto descriptor memory host = .ok output) :
    RuntimeRefineOutputV1.decode blake2_256
      (refineOutput (runRefine L blake2_256 crypto descriptor memory host)) = .ok output := by
  rw [h]
  obtain ⟨_, -, hrun⟩ := bind_eq_ok.mp h
  obtain ⟨bytes, -, hwritten, hdecode, -⟩ := runRefine_encodes hrun
  rw [refineOutput, hwritten]
  exact hdecode

/-- With a descriptor that fails its checks both entry points return the code of a failed
environment. -/
theorem outputs_of_refused_descriptor {error : GuestError} (h : descriptor.check = .error error) :
    planOutput (runPlan L crypto descriptor memory host) = errorOutput 2 ∧
      refineOutput (runRefine L blake2_256 crypto descriptor memory host) = errorOutput 2 := by
  have herror : error = .invalidInput := by
    unfold JamScriptServiceDescriptorV2.check ensure at h
    split_ifs at h <;> cases h <;> rfl
  subst herror
  unfold runPlan runRefine
  rw [h]
  exact ⟨rfl, rfl⟩

end Prebuilt

variable (L blake2_256 application memory) in
/-- The full decoder and the header decoder accept the same byte strings, up to what the full one
checks of the recovery payload, and agree on the header. What a refine run of a batch within the
limit returns has an encoding of at most 2 MiB that both accept. -/
theorem output_decoders_agree :
    (∀ bytes, RuntimeRefineOutputV1.decodeTransitionHeader bytes =
      (RuntimeRefineOutputV1.decodeHeaderAndPayload bytes).map Prod.fst) ∧
    (∀ bytes, (∃ output, RuntimeRefineOutputV1.decode blake2_256 bytes = .ok output) ↔
      ∃ header payload, RuntimeRefineOutputV1.decodeHeaderAndPayload bytes = .ok (header, payload) ∧
        blake2_256 payload = header.recoveryCommitment ∧
        ∃ recovery, StateRecoveryV1.decode payload = .ok recovery) ∧
    (∀ bytes output header, RuntimeRefineOutputV1.decode blake2_256 bytes = .ok output →
      RuntimeRefineOutputV1.decodeTransitionHeader bytes = .ok header →
        header.parentRoot = output.parentRoot ∧ header.newRoot = output.newRoot ∧
        header.externalDependencies = output.externalDependencies ∧
        header.transitionValidUntil = output.transitionValidUntil ∧
        header.recoveryCommitment = output.recoveryCommitment) ∧
    ∀ input environment output,
      refineWithEnvironment L blake2_256 application memory input environment = .ok output →
      input.actions.length ≤ maxRuntimeActions →
        ∃ bytes, output.encode = .ok bytes ∧ bytes.length ≤ 2 * 1024 * 1024 ∧
          RuntimeRefineOutputV1.decode blake2_256 bytes = .ok output ∧
          RuntimeRefineOutputV1.decodeTransitionHeader bytes =
            .ok (output.header output.externalDependencies) := by
  refine ⟨RuntimeRefineOutputV1.decodeTransitionHeader_eq,
    RuntimeRefineOutputV1.decode_iff_header blake2_256,
    fun bytes output header hdecode hheader => ?_, fun input environment output hrefine hactions =>
    ?_⟩
  · rw [RuntimeRefineOutputV1.header_of_decode hdecode] at hheader
    cases hheader
    exact ⟨rfl, rfl, rfl, rfl, rfl⟩
  · obtain ⟨hreceipts, hbuilt⟩ := refineWithEnvironment_built hrefine
    obtain ⟨bytes, hencode, hdecode, hheader⟩ := hbuilt.encode (hreceipts.trans_le hactions)
    refine ⟨bytes, hencode, (RuntimeRefineOutputV1.length_encode_le hencode).2.trans ?_,
      hdecode, hheader⟩
    decide

/-- The two guests write the same bytes from `jamscript_plan_v1` exactly for the outcomes
`PlanAgrees` lists, and from `minijam_refine` exactly for those `RefineAgrees` lists. A successful
refine run has an encoding that both decoders accept; the prebuilt guest writes it, and the
generated one does unless the only receipt carries a fatal code. -/
theorem outputs_agree_iff (fault : Bool) (planned : Except GuestError Unit)
    (refined : Except GuestError RuntimeRefineOutputV1) :
    (trapOnFault fault (Generated.planOutput planned) =
        trapOnFault fault (Prebuilt.planOutput planned) ↔ fault = true ∨ PlanAgrees planned) ∧
      (trapOnFault fault (Generated.refineOutput refined) =
        trapOnFault fault (Prebuilt.refineOutput refined) ↔ fault = true ∨ RefineAgrees refined) ∧
      ∀ output, runRefine L blake2_256 application memory host = .ok output →
        ∃ bytes, output.encode = .ok bytes ∧ Prebuilt.refineOutput (.ok output) = bytes ∧
          (Generated.refineOutput (.ok output) = bytes ↔ Generated.nativeError output = none) ∧
          RuntimeRefineOutputV1.decode blake2_256 bytes = .ok output ∧
          RuntimeRefineOutputV1.decodeTransitionHeader bytes =
            .ok (output.header output.externalDependencies) := by
  refine ⟨?_, ?_, fun output h => ?_⟩
  · rw [← planOutput_eq_iff]
    cases fault <;> simp [trapOnFault]
  · rw [← refineOutput_eq_iff]
    cases fault <;> simp [trapOnFault]
  · obtain ⟨bytes, hencode, hwritten, hdecode, hheader⟩ := runRefine_encodes h
    have hagrees := refineOutput_eq_iff (.ok output)
    rw [show Prebuilt.refineOutput (.ok output) = bytes from hwritten] at hagrees
    exact ⟨bytes, hencode, hwritten, hagrees, hdecode, hheader⟩

end Success

/-- A host that hands the store's batch of `Guest.Batch` to the guest. -/
def storeHost : GuestHost :=
  ⟨true, (storeInput [[7], [8]]).encode.toOption, some zeroEnvironment.networkDomain⟩

/-- The store's batch: a rejected action is no fatal one, and both guests write the encoding. -/
theorem outputs_agree_store :
    trapOnFault false (Generated.refineOutput (.ok storeOutput)) =
        trapOnFault false (Prebuilt.refineOutput (.ok storeOutput)) ∧
      ∃ bytes, storeOutput.encode = .ok bytes ∧
        RuntimeRefineOutputV1.decode storeHash bytes = .ok storeOutput := by
  have hrun : runRefine (leafTrie storeHash) storeHash storeApplication () storeHost =
      .ok storeOutput := by decide +kernel
  have hnative : Generated.nativeError storeOutput = none := by decide
  obtain ⟨-, hrefine, hruns⟩ := outputs_agree_iff false (.ok ()) (.ok storeOutput)
  obtain ⟨bytes, hencode, -, -, hdecode, -⟩ := hruns storeOutput hrun
  exact ⟨hrefine.mpr (.inr hnative), bytes, hencode, hdecode⟩

theorem output_decoders_agree_store :
    ∃ bytes, storeOutput.encode = .ok bytes ∧ bytes.length ≤ 2 * 1024 * 1024 ∧
      RuntimeRefineOutputV1.decode storeHash bytes = .ok storeOutput := by
  obtain ⟨-, -, -, hrefine⟩ := output_decoders_agree (leafTrie storeHash) storeHash
    storeApplication ()
  obtain ⟨bytes, hencode, hlength, hdecode, -⟩ :=
    hrefine (storeInput [[7], [8]]) zeroEnvironment storeOutput (by decide +kernel) (by decide)
  exact ⟨bytes, hencode, hlength, hdecode⟩

/-! ### A failed action that hides the output

`clearApplication` of `Guest.Planner` is refused its deletion. Refine reports one failed action with
the generic code, which has its highest bit set, and returns an output as for any other batch. The
generated guest drops this output and returns the code; neither decoder accepts the four bytes.
-/

theorem generated_hides_refine_output :
    refineWithEnvironment (leafTrie foreignHash) foreignHash clearApplication () clearInput
        zeroEnvironment = .ok clearOutput ∧
      Generated.refineOutput (.ok clearOutput) = [1, 0, 0, 0x80] ∧
      clearOutput.encode = .ok (Prebuilt.refineOutput (.ok clearOutput)) ∧
      RuntimeRefineOutputV1.decode foreignHash (Prebuilt.refineOutput (.ok clearOutput)) =
        .ok clearOutput ∧
      RuntimeRefineOutputV1.decode foreignHash [1, 0, 0, 0x80] = .error .unexpectedEof ∧
      RuntimeRefineOutputV1.decodeTransitionHeader [1, 0, 0, 0x80] = .error .unexpectedEof := by
  decide +kernel

end JamScript
