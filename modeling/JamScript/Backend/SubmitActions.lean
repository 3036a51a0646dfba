import JamScript.Auth.SignedAction
import JamScript.Backend.Requests
import JamScript.Guest.EntryPoints

/-!
# Submitting a batch from the backend

`submit_actions` finds out which keys a batch touches before it asks the guest to refine it. It
builds witnesses for the keys it knows, calls the guest's planner on them, adds the keys the planner
misses and tries again. A planner stops at the first key it misses, so a batch with many keys takes
many rounds; the loop makes 64 of them and then goes on to refine in any case.

`planning_settles_iff` says what this means for a planner that reports its missing keys one by one:
the loop ends with a planner that misses nothing exactly when there were at most 63 keys to report.
`sweep_refined_unplanned` is a batch of one action with more.
-/

namespace JamScript

open Codec Effects

/-! ## The environment of the backend -/

/-- The exports of a guest that a submission calls. -/
inductive GuestExport where
  | plan
  | refine
  deriving DecidableEq, Repr

/-- What a submission relies on: the finalized state of the network, the registry and the provider
of the backend, and the guest. -/
structure SubmitBackend where
  blake2_256 : Bytes → StateRoot
  networkDomain : FixedBytes 32
  /-- The finalized commitment a service has in its storage. -/
  storedCommitment : UInt32 → Except BackendError (Option Bytes)
  /-- The service key of a registered service. -/
  serviceKey : UInt32 → Except BackendError (FixedBytes 32)
  /-- The root the backend has materialized for a service. -/
  currentRoot : UInt32 → Except BackendError StateRoot
  buildWitness : FixedBytes 32 → StateRoot → StateAccessPlanV1 →
    Except BackendError ManagedStateWitnessV1
  /-- Run an export of the guest of a service on a payload. -/
  invoke : GuestExport → Bytes → Except BackendError Bytes

/-- The keys a submission knows to be touched. -/
structure KeySets where
  localKeys : List Bytes
  externalKeys : Std.ExtTreeMap UInt32 (List Bytes)

structure PlannerResult where
  localAccessKeys : List Bytes
  externalAccessKeys : Std.ExtTreeMap UInt32 (List Bytes)

def PlannerResult.empty : PlannerResult := ⟨[], ∅⟩

/-- The service and the actions of a submission, with the finalized root of the service. -/
structure SubmitRequest where
  serviceId : UInt32
  serviceKey : FixedBytes 32
  parentRoot : StateRoot
  actions : List Bytes

section Submit

variable (backend : SubmitBackend)

/-- The nonce key of the signer of an action, which has to be signed for this network. -/
def signerKey (action : Bytes) : Except BackendError (Option Bytes) :=
  match decodeSignedActionV1 action with
  | .ok signed => do
    ensure (signed.networkDomain = backend.networkDomain) BackendError.wrongNetwork
    pure ((tryIntoArray 32 signed.publicKey).map nonceKey)
  | .error _ =>
    match decodeSignedActionV2 action with
    | .ok signed => do
      ensure (signed.networkDomain = backend.networkDomain) BackendError.wrongNetwork
      pure (ownershipNonceKey backend.blake2_256 signed.controller).toOption
    | .error _ => pure none

/-- The keys known before any planning: the nonces of the signers, each once. -/
def signerKeys (actions : List Bytes) : Except BackendError (List Bytes) :=
  actions.foldlM (fun keys action => do
    match ← signerKey backend action with
    | some key => pure (if key ∈ keys then keys else keys ++ [key])
    | none => pure keys) []

/-- The finalized root of a service; a service without a commitment has the empty state. -/
def finalizedRoot (serviceId : UInt32) : Except BackendError StateRoot := do
  match ← backend.storedCommitment serviceId with
  | some bytes => do
    let commitment ← (ManagedStateCommitmentV1.decode bytes).mapError BackendError.wire
    pure commitment.root
  | none => pure emptyStateRootV1

/-- One witness of `build_external_witnesses`. -/
def buildExternalWitness (requested : UInt32 × List Bytes) :
    Except BackendError ExternalStateWitnessV1 := do
  let serviceKey ← backend.serviceKey requested.1
  let stored ← backend.storedCommitment requested.1
  let bytes ← (match stored with
    | some bytes => .ok bytes
    | none => .error (.rpc ("external Service " ++ toString requested.1.toNat ++
        " has no finalized managed-state commitment")) : Except BackendError Bytes)
  let commitment ← (ManagedStateCommitmentV1.decode bytes).mapError BackendError.wire
  let current ← backend.currentRoot requested.1
  ensure (current = commitment.root) BackendError.stateNotMaterialized
  let accessPlan ← (StateAccessPlanV1.fromKeys requested.2).mapError BackendError.wire
  let managedState ← backend.buildWitness serviceKey commitment.root accessPlan
  pure ⟨requested.1, managedState⟩

def buildExternalWitnesses (requested : Std.ExtTreeMap UInt32 (List Bytes)) :
    Except BackendError (List ExternalStateWitnessV1) :=
  requested.toList.mapM (buildExternalWitness backend)

/-- The input for a set of keys: witnesses of exactly these keys, and the actions. -/
def buildInput (request : SubmitRequest) (sets : KeySets) :
    Except BackendError RuntimeRefineInputV1 := do
  let plan ← (StateAccessPlanV1.fromKeys sets.localKeys).mapError BackendError.wire
  let witness ← backend.buildWitness request.serviceKey request.parentRoot plan
  let external ← buildExternalWitnesses backend sets.externalKeys
  pure ⟨runtimeRefineInputVersion, witness, external, request.actions⟩

/-- How the backend reads the output of a planning call. -/
def decodePlannerOutput (output : Bytes) : Except BackendError PlannerResult :=
  match decodePlannerNeedExternalState output with
  | .ok (serviceId, key) =>
    .ok ⟨[], (∅ : Std.ExtTreeMap UInt32 (List Bytes)).insert serviceId [key]⟩
  | .error _ =>
    match decodePlannerNeedState output with
    | .ok key => .ok ⟨[key], ∅⟩
    | .error _ =>
      if output = [0] ∨ (RuntimeRefineOutputV1.decode backend.blake2_256 output).isOk then
        .ok .empty
      else .error (.planner .applicationRejected)

/-- `plan_with_external_witness_and_network_domain_for_service_id`, on the witnesses of the keys. -/
def planCall (request : SubmitRequest) (sets : KeySets) : Except BackendError PlannerResult := do
  let input ← buildInput backend request sets
  let encoded ← input.encode.mapError BackendError.wire
  let output ← backend.invoke .plan encoded
  decodePlannerOutput backend output

/-! ## The loop -/

/-- A key set under extension, and whether it has been extended. -/
abbrev Discovery := KeySets × Bool

def addLocalKey (discovery : Discovery) (key : Bytes) : Discovery :=
  if key ∈ discovery.1.localKeys then discovery
  else ({ discovery.1 with localKeys := discovery.1.localKeys ++ [key] }, true)

def addExternalKey (serviceId : UInt32) (discovery : Discovery) (key : Bytes) : Discovery :=
  let keys := discovery.1.externalKeys.getD serviceId []
  if key ∈ keys then discovery
  else
    let keys := (keys ++ [key]).insertionSort fun left right => (compare left right).isLE
    ({ discovery.1 with externalKeys := discovery.1.externalKeys.insert serviceId keys }, true)

/-- The keys of one service; the service gets an entry even when it has none. -/
def addExternalKeys (discovery : Discovery) (discovered : UInt32 × List Bytes) : Discovery :=
  let externalKeys := discovery.1.externalKeys.insertIfNew discovered.1 []
  discovered.2.foldl (addExternalKey discovered.1) ({ discovery.1 with externalKeys }, discovery.2)

/-- Add the keys a planner misses to the known ones. -/
def KeySets.discover (sets : KeySets) (planned : PlannerResult) : Discovery :=
  planned.externalAccessKeys.toList.foldl addExternalKeys
    (planned.localAccessKeys.foldl addLocalKey (sets, false))

/-- One round of the loop. -/
def planRound (request : SubmitRequest) (sets : KeySets) : Except BackendError Discovery := do
  let planned ← planCall backend request sets
  pure (sets.discover planned)

/-- The loop with a number of rounds. The flag says whether it was left because a round found no new
key. -/
def planLoop (request : SubmitRequest) : ℕ → KeySets → Except BackendError Discovery
  | 0, sets => pure (sets, false)
  | rounds + 1, sets => do
    let (next, changed) ← planRound backend request sets
    if changed then planLoop request rounds next else pure (next, true)

def maxPlanningRounds : ℕ := 64

/-- Plan the batch, build its witnesses and refine it, starting from the keys known before any
planning: the predicted output of the batch. -/
def planAndRefine (serviceId : UInt32) (actions : List Bytes) (keys : List Bytes) :
    Except BackendError RuntimeRefineOutputV1 := do
  let serviceKey ← backend.serviceKey serviceId
  let parentRoot ← finalizedRoot backend serviceId
  let current ← backend.currentRoot serviceId
  ensure (current = parentRoot) BackendError.stateNotMaterialized
  let request : SubmitRequest := ⟨serviceId, serviceKey, parentRoot, actions⟩
  let (sets, _) ← planLoop backend request maxPlanningRounds ⟨keys, ∅⟩
  let input ← buildInput backend request sets
  let encoded ← input.encode.mapError BackendError.wire
  let output ← backend.invoke .refine encoded
  let prediction ← (RuntimeRefineOutputV1.decode backend.blake2_256 output).mapError
    BackendError.wire
  ensure (prediction.receipts.length = input.actions.length) (BackendError.rpc
    ("PVM returned " ++ toString prediction.receipts.length ++ " action receipts for " ++
      toString input.actions.length ++ " actions"))
  ensure (prediction.parentRoot = parentRoot)
    (BackendError.rpc "PVM parent root disagrees with chain")
  pure prediction

/-- The part of `submit_actions` between loading the guest and handing the batch to the network. -/
def predict (serviceId : UInt32) (actions : List Bytes) :
    Except BackendError RuntimeRefineOutputV1 := do
  let keys ← signerKeys backend actions
  planAndRefine backend serviceId actions keys

end Submit

/-! ## Planners that report one key at a time -/

/-- A key of the service itself or of another service. -/
inductive StateKey where
  | own (key : Bytes)
  | external (serviceId : UInt32) (key : Bytes)
  deriving DecidableEq

/-- The result of a planner that misses one key. -/
def StateKey.report : StateKey → PlannerResult
  | .own key => ⟨[key], ∅⟩
  | .external serviceId key => ⟨[], (∅ : Std.ExtTreeMap UInt32 (List Bytes)).insert serviceId [key]⟩

theorem StateKey.report_ne_empty (key : StateKey) : key.report ≠ .empty := by
  intro h
  cases key with
  | own key => exact absurd (congrArg PlannerResult.localAccessKeys h) (List.cons_ne_nil key [])
  | external serviceId key =>
    have hget := congrArg (fun planned => planned.externalAccessKeys[serviceId]?) h
    simp [report, PlannerResult.empty] at hget

namespace KeySets

/-- The key is among the known ones. -/
def Has (sets : KeySets) : StateKey → Prop
  | .own key => key ∈ sets.localKeys
  | .external serviceId key => key ∈ sets.externalKeys.getD serviceId []

instance (sets : KeySets) (key : StateKey) : Decidable (sets.Has key) := by
  cases key <;> unfold Has <;> infer_instance

/-- A report of nothing changes nothing. -/
theorem discover_empty (sets : KeySets) : sets.discover .empty = (sets, false) := rfl

/-- Giving a service an entry without keys does not change what is known. -/
theorem getD_insertIfNew_nil (keys : Std.ExtTreeMap UInt32 (List Bytes))
    (serviceId other : UInt32) :
    (keys.insertIfNew serviceId []).getD other [] = keys.getD other [] := by
  rw [Std.ExtTreeMap.getD_insertIfNew]
  split
  case isTrue habsent =>
    obtain rfl := Std.LawfulEqOrd.eq_of_compare habsent.1
    exact (Std.ExtTreeMap.getD_eq_fallback habsent.2).symm
  case isFalse => rfl

/-- A report of one unknown key adds exactly this key. -/
theorem discover_report {sets : KeySets} {key : StateKey} (hnew : ¬ sets.Has key) :
    ∃ next, sets.discover key.report = (next, true) ∧
      ∀ other, next.Has other ↔ sets.Has other ∨ other = key := by
  cases key with
  | own key =>
    refine ⟨{ sets with localKeys := sets.localKeys ++ [key] }, if_neg hnew, fun other => ?_⟩
    cases other <;> simp [Has]
  | external serviceId key =>
    have hadded : sets.discover (StateKey.external serviceId key).report =
        addExternalKey serviceId
          ({ sets with externalKeys := sets.externalKeys.insertIfNew serviceId [] }, false) key :=
      rfl
    have hkeys := getD_insertIfNew_nil sets.externalKeys serviceId serviceId
    refine ⟨_, hadded.trans (if_neg (hkeys ▸ hnew)), fun other => ?_⟩
    cases other with
    | own other => simp [Has]
    | external otherId other =>
      change other ∈ Std.ExtTreeMap.getD _ otherId [] ↔
        other ∈ sets.externalKeys.getD otherId [] ∨ _
      rw [Std.ExtTreeMap.getD_insert]
      by_cases hid : compare serviceId otherId = .eq
      · obtain rfl := Std.LawfulEqOrd.eq_of_compare hid
        rw [if_pos hid, List.mem_insertionSort, List.mem_append, List.mem_singleton, hkeys]
        simp
      · have hne : otherId ≠ serviceId := by
          rintro rfl
          exact hid Std.ReflCmp.compare_self
        rw [if_neg hid, getD_insertIfNew_nil]
        simp [hne]

end KeySets

section Planning

variable {backend : SubmitBackend} {request : SubmitRequest}

/-- The planner reports the keys of the list one after the other, starting with the known keys, and
then misses nothing. -/
inductive Reports (backend : SubmitBackend) (request : SubmitRequest) :
    KeySets → List StateKey → KeySets → Prop
  | done {sets : KeySets} (h : planCall backend request sets = .ok .empty) :
      Reports backend request sets [] sets
  | next {sets next final : KeySets} {key : StateKey} {keys : List StateKey}
      (h : planCall backend request sets = .ok key.report) (hnew : ¬ sets.Has key)
      (hnext : sets.discover key.report = (next, true))
      (hrest : Reports backend request next keys final) :
      Reports backend request sets (key :: keys) final

/-- The key sets that can come up when the keys of a set are added one by one. -/
inductive Grown (complete : Finset StateKey) (start : KeySets) : KeySets → Prop
  | start : Grown complete start start
  | add {sets next : KeySets} {key : StateKey} (h : Grown complete start sets)
      (hkey : key ∈ complete)
      (hnew : ¬ sets.Has key) (hnext : sets.discover key.report = (next, true)) :
      Grown complete start next

/-- A planner that stays inside a set of keys and reports at most one missing key per call. All
these calls succeed, so the keys and their witnesses are within the limits. -/
def OneKeyPlanner (backend : SubmitBackend) (request : SubmitRequest) (complete : Finset StateKey)
    (start : KeySets) : Prop :=
  ∀ sets, Grown complete start sets →
    planCall backend request sets = .ok .empty ∨
      ∃ key ∈ complete, ¬ sets.Has key ∧ planCall backend request sets = .ok key.report

/-- Such a planner has reported every key it misses after as many calls as the set has unknown
keys. -/
theorem OneKeyPlanner.reports {complete : Finset StateKey} {start : KeySets}
    (h : OneKeyPlanner backend request complete start) (sets : KeySets)
    (hsets : Grown complete start sets) :
    ∃ keys final, Reports backend request sets keys final ∧
      keys.length ≤ (complete.filter fun key => ¬ sets.Has key).card := by
  -- induction on the keys that are still unknown: a report takes one of them away
  generalize hunknown : (complete.filter fun key => ¬ sets.Has key).card = unknown
  induction unknown generalizing sets with
  | zero =>
    rcases h sets hsets with hdone | ⟨key, hkey, hnew, -⟩
    · exact ⟨[], sets, .done hdone, Nat.le_refl 0⟩
    · rw [Finset.card_eq_zero] at hunknown
      have hmem : key ∈ complete.filter fun key => ¬ sets.Has key :=
      Finset.mem_filter.mpr ⟨hkey, hnew⟩
      rw [hunknown] at hmem
      exact absurd hmem (Finset.notMem_empty key)
  | succ unknown ih =>
    rcases h sets hsets with hdone | ⟨key, hkey, hnew, hreport⟩
    · exact ⟨[], sets, .done hdone, Nat.zero_le _⟩
    · obtain ⟨next, hnext, hhas⟩ := KeySets.discover_report hnew
      have herase : (complete.filter fun other => ¬ next.Has other) =
          (complete.filter fun other => ¬ sets.Has other).erase key := by
        ext other
        simp only [Finset.mem_filter, Finset.mem_erase, hhas, not_or]
        tauto
      have hcard : (complete.filter fun other => ¬ next.Has other).card = unknown := by
        rw [herase, Finset.card_erase_of_mem (Finset.mem_filter.mpr ⟨hkey, hnew⟩), hunknown]
        rfl
      obtain ⟨keys, final, hreports, hlength⟩ := ih next (hsets.add hkey hnew hnext) hcard
      exact ⟨key :: keys, final, .next hreport hnew hnext hreports, Nat.succ_le_succ hlength⟩

theorem planRound_of_call {sets : KeySets} {planned : PlannerResult}
    (h : planCall backend request sets = .ok planned) :
    planRound backend request sets = .ok (sets.discover planned) := by
  unfold planRound
  rw [h]
  rfl

/-- The loop follows the reports until they or its rounds are used up. -/
theorem planLoop_of_reports {sets final : KeySets} {keys : List StateKey}
    (h : Reports backend request sets keys final) (rounds : ℕ) :
    ∃ reached, planLoop backend request rounds sets = .ok (reached, decide (keys.length < rounds)) ∧
      Reports backend request reached (keys.drop rounds) final := by
  induction rounds generalizing sets keys with
  | zero => exact ⟨sets, by rw [planLoop]; simp [Pure.pure, Except.pure], h⟩
  | succ rounds ih =>
    cases h with
    | done hcall =>
      refine ⟨_, ?_, .done hcall⟩
      rw [planLoop, planRound_of_call hcall, KeySets.discover_empty]
      rfl
    | @next _ next _ key keys hcall hnew hnext hrest =>
      obtain ⟨reached, hloop, hreached⟩ := ih hrest
      refine ⟨reached, ?_, hreached⟩
      have hround := planRound_of_call hcall
      rw [hnext] at hround
      rw [planLoop, hround, List.length_cons]
      simp only [Nat.add_lt_add_iff_right]
      exact hloop

/-- What the planner says on a set of keys that it has reports left for. -/
theorem Reports.planCall_iff {sets final : KeySets} {keys : List StateKey}
    (h : Reports backend request sets keys final) :
    (planCall backend request sets = .ok .empty ↔ keys = []) ∧
      (keys ≠ [] → ∃ key, ¬ sets.Has key ∧ planCall backend request sets = .ok key.report) := by
  cases h with
  | done hcall => exact ⟨iff_of_true hcall rfl, absurd rfl⟩
  | @next _ _ _ key keys hcall hnew =>
    refine ⟨iff_of_false (fun hempty => ?_) (List.cons_ne_nil key keys), fun _ =>
      ⟨key, hnew, hcall⟩⟩
    rw [hcall] at hempty
    exact key.report_ne_empty (Except.ok.inj hempty)

/-- For a planner that reports one missing key per call inside a set of keys, the loop before refine
ends with a planner that misses nothing exactly when there are at most 63 keys to report. It then
holds every key the planner asks for; with more than 64 it goes on although the planner misses a
key. -/
theorem planning_settles_iff {complete : Finset StateKey} {start : KeySets}
    (hplanner : OneKeyPlanner backend request complete start) :
    ∃ keys final reached settled, Reports backend request start keys final ∧
      keys.length ≤ (complete.filter fun key => ¬ start.Has key).card ∧
      planLoop backend request maxPlanningRounds start = .ok (reached, settled) ∧
      (settled = true ↔ keys.length ≤ 63) ∧
      (planCall backend request reached = .ok .empty ↔ keys.length ≤ 64) ∧
      (64 < keys.length → ∃ key, ¬ reached.Has key ∧ planCall backend request reached =
        .ok key.report) := by
  obtain ⟨keys, final, hreports, hlength⟩ := hplanner.reports start .start
  obtain ⟨reached, hloop, hreached⟩ := planLoop_of_reports hreports maxPlanningRounds
  obtain ⟨hempty, hmissing⟩ := hreached.planCall_iff
  have hdrop : keys.drop maxPlanningRounds = [] ↔ keys.length ≤ 64 := List.drop_eq_nil_iff
  refine ⟨keys, final, reached, _, hreports, hlength, hloop, ?_, hempty.trans hdrop,
    fun hmore => ?_⟩
  · rw [decide_eq_true_iff]
    exact Nat.lt_succ_iff
  · exact hmissing fun hnil => Nat.not_le.mpr hmore (hdrop.mp hnil)

end Planning

/-- The backend reads the guest's request for a key of the service as a report of this key. -/
theorem decodePlannerOutput_needState (backend : SubmitBackend) {key : Bytes}
    (hkey : key.length ≤ maxStateKeyBytes) :
    decodePlannerOutput backend (Prebuilt.planOutput (.error (.needState key))) =
      .ok (StateKey.own key).report := by
  obtain ⟨bytes, hbytes⟩ := encodePlannerNeedState_ok.mpr hkey
  obtain ⟨hdecode, e, hexternal⟩ := decodePlannerNeedState_encode hbytes
  obtain ⟨hlength, -⟩ := length_encodePlannerNeedState hbytes
  have hwritten : Prebuilt.planOutput (.error (.needState key)) = bytes := by
    change writeEncoded (encodePlannerNeedState key) = bytes
    rw [hbytes]
    refine writeEncoded_ok ?_
    unfold maxStateKeyBytes at hkey
    unfold outputCapacity
    omega
  unfold decodePlannerOutput
  rw [hwritten, hexternal, hdecode]
  rfl

/-! ### A sweep over many keys

`sweepApplication` reads its keys one after the other. On an empty state every witness is an empty
proof, so all calls succeed, and each planning call misses the next key. The guest is the prebuilt
one of `Guest.EntryPoints`.
-/

/-- Read every key of a list. -/
def readAll (keys : List Bytes) : DescriptorProgram Unit Unit :=
  keys.forM fun key => Fallible.ask (.get key) fun value => value.map fun _ => ()

/-- Under the planner, a reader of keys is stopped at the first key that is not known. -/
theorem exec_readAll (keys : List Bytes)
    (context : ExecutionContext (RestrictedState OverlayState) ExternalView)
    (hbase : ∀ key, ∃ value, context.state.proof.get key = .ok value) :
    (Fallible.exec planHandler (readAll keys) () context).1.1 =
      match keys.find? fun key => key ∉ context.state.known with
      | none => .ok ()
      | some key => .error (.needState key) := by
  induction keys with
  | nil => rfl
  | cons key keys ih =>
    have hstep : readAll (key :: keys) =
        (Fallible.ask (.get key) (fun value => value.map fun _ => ()) >>= fun _ => readAll keys :
          DescriptorProgram Unit Unit) := rfl
    rw [hstep, Fallible.exec_bind, Fallible.exec_ask, List.find?_cons]
    by_cases hkey : key ∈ context.state.known
    · obtain ⟨value, hvalue⟩ := hbase key
      have hget : planHandler (.get key) context = (.ok value, context) := by
        change ((RestrictedState.requireKnown key (ManagedStateAccess.get key) context.state).1,
          { context with
            state := (RestrictedState.requireKnown key (ManagedStateAccess.get key) context.state).2
            }) =
          _
        rw [RestrictedState.requireKnown, if_pos hkey]
        exact congrArg (·, context) hvalue
      simp only [hget, hkey, not_true_eq_false, decide_false]
      exact ih
    · have hget : planHandler (.get key) context = (.error (.needState key), context) := by
        change ((RestrictedState.requireKnown key (ManagedStateAccess.get key) context.state).1,
          { context with
            state := (RestrictedState.requireKnown key (ManagedStateAccess.get key) context.state).2
            }) =
          _
        rw [RestrictedState.requireKnown, if_neg hkey]
      simp only [hget, hkey, not_false_eq_true, decide_true]
      rfl

/-- The planner on one action that reads the keys of a list, with witnesses for some of them. -/
theorem planOwned_readAll {L : TrieLibrary} {keys : List Bytes} {input : RuntimeRefineInputV1}
    {action : Bytes} {environment : ExecutionEnvironmentV1}
    (hversion : input.version = runtimeRefineInputVersion ∧
      input.managedState.version = managedStateWitnessVersion)
    (hexternal : input.externalState = []) (haction : input.actions = [action])
    (hopen : ∃ state, ProofState.fromWitness (L := L) input.managedState.parentRoot
      input.managedState.storageProof = .ok state)
    (hlookup : ∀ key, ∃ value, witnessLookup L input.managedState key = .ok value) :
    planOwnedWithEnvironment L (fun _ => readAll keys) () input environment =
      match keys.find? fun key => key ∉ Std.ExtTreeSet.ofList
        input.managedState.accessPlan.keys with
      | none => .ok ()
      | some key => .error (.needState key) := by
  let setup : PlanSetup Unit := ⟨fun _ => readAll keys, input.managedState.accessPlan, environment⟩
  let start := initialPlanning L () input
  have hresult : (start.execute setup action).1.1 = _ :=
    exec_readAll keys (start.context setup) hlookup
  obtain ⟨state, hstate⟩ := (planningNew_ok_iff input.managedState).mpr
    ⟨hopen, fun key _ => hlookup key⟩
  have hnone : PlanningExternalProofStates.new (L := L) input.externalState = .ok ⟨∅⟩ := by
    rw [hexternal]
    rfl
  have houtcome : SameOutcome _
      (planOwnedWithEnvironment L (fun _ => readAll keys) () input environment)
      (planActions setup start input.actions) :=
    planOwnedWithEnvironment_outcome hnone hversion hstate
  have hactions : planActions setup start input.actions = planAction setup start action := by
    rw [haction]
    change planAction setup start action >>= pure = _
    rw [bind_pure]
  rw [hactions] at houtcome
  unfold planAction at houtcome
  generalize start.execute setup action = run at hresult houtcome
  obtain ⟨⟨result, memory⟩, context⟩ := run
  change result = match keys.find? fun key =>
      key ∉ Std.ExtTreeSet.ofList input.managedState.accessPlan.keys with
    | none => .ok ()
    | some key => .error (.needState key) at hresult
  generalize planOwnedWithEnvironment L (fun _ => readAll keys) () input environment = outcome
    at houtcome ⊢
  generalize (keys.find? fun key =>
    key ∉ Std.ExtTreeSet.ofList input.managedState.accessPlan.keys) = missing at hresult ⊢
  subst hresult
  cases missing with
  | none =>
    cases houtcome
    rfl
  | some key =>
    cases houtcome
    rfl

def sweepKey (index : ℕ) : Bytes := [applicationKeyClassV1, UInt8.ofNat index]

def sweepKeys (count : ℕ) : List Bytes := (List.range count).map sweepKey

def sweepApplication (count : ℕ) : ServiceApplication Unit := fun _ => readAll (sweepKeys count)

/-- A backend whose services have empty states, and whose guest runs the sweep. -/
def sweepBackend (count : ℕ) : SubmitBackend where
  blake2_256 := foreignHash
  networkDomain := zeroEnvironment.networkDomain
  storedCommitment _ := .ok none
  serviceKey _ := .ok (List.Vector.replicate 32 0)
  currentRoot _ := .ok emptyStateRootV1
  buildWitness _ root plan := .ok ⟨managedStateWitnessVersion, root, plan, []⟩
  invoke entry payload :=
    let host : GuestHost := ⟨true, some payload, some zeroEnvironment.networkDomain⟩
    match entry with
    | .plan =>
      .ok (Prebuilt.planOutput (runPlan (leafTrie foreignHash) (sweepApplication count) () host))
    | .refine => .ok (Prebuilt.refineOutput
        (runRefine (leafTrie foreignHash) foreignHash (sweepApplication count) () host))

def sweepRequest : SubmitRequest := ⟨5, List.Vector.replicate 32 0, emptyStateRootV1, [[7]]⟩

/-- The input with witnesses for the first keys of the sweep. -/
def sweepInput (known : ℕ) : RuntimeRefineInputV1 :=
  ⟨runtimeRefineInputVersion, ⟨managedStateWitnessVersion, emptyStateRootV1,
    ⟨managedStateProtocolVersion, sweepKeys known⟩, []⟩, [], [[7]]⟩

theorem sweepKey_lt {left right : ℕ} (h : left < right) (hright : right < 256) :
    compare (sweepKey left) (sweepKey right) = .lt := by
  have hlt : UInt8.ofNat left < UInt8.ofNat right := by
    rw [UInt8.lt_iff_toNat_lt, UInt8.toNat_ofNat_of_lt' (h.trans hright),
      UInt8.toNat_ofNat_of_lt' hright]
    exact h
  have hbyte : compare (UInt8.ofNat left) (UInt8.ofNat right) = .lt := if_pos hlt
  rw [sweepKey, sweepKey, List.compare_cons_cons, List.compare_cons_cons, hbyte]
  rfl

theorem sweepKey_injective {left right : ℕ} (hleft : left < 256) (hright : right < 256)
    (h : sweepKey left = sweepKey right) : left = right := by
  rcases Nat.lt_trichotomy left right with hlt | heq | hlt
  · rw [← Std.compare_eq_iff_eq (a := sweepKey left), sweepKey_lt hlt hright] at h
    cases h
  · exact heq
  · rw [eq_comm, ← Std.compare_eq_iff_eq (a := sweepKey right), sweepKey_lt hlt hleft] at h
    cases h

theorem sweepKeys_ordered {count : ℕ} (hcount : count ≤ 256) :
    (sweepKeys count).Pairwise fun left right => compare left right = .lt := by
  refine List.pairwise_map.mpr (List.Pairwise.imp_of_mem ?_ List.pairwise_lt_range)
  intro left right _ hright hlt
  exact sweepKey_lt hlt (lt_of_lt_of_le (List.mem_range.mp hright) hcount)

theorem sweep_plan {count : ℕ} (hcount : count ≤ 256) :
    StateAccessPlanV1.fromKeys (sweepKeys count) =
      .ok ⟨managedStateProtocolVersion, sweepKeys count⟩ := by
  refine StateAccessPlanV1.fromKeys_of_ordered (sweepKeys_ordered hcount) ?_ ?_
  · rw [sweepKeys, List.length_map, List.length_range]
    exact hcount.trans (by decide)
  · intro key hkey
    obtain ⟨index, -, rfl⟩ := List.mem_map.mp hkey
    exact (by decide : 2 ≤ maxStateKeyBytes)

/-- The first key of the sweep that is not among the known ones. -/
theorem find_sweepKeys {known count : ℕ} (hknown : known ≤ count) (hcount : count ≤ 256) :
    ((sweepKeys count).find? fun key => key ∉ Std.ExtTreeSet.ofList (sweepKeys known)) =
      if known < count then some (sweepKey known) else none := by
  have hmem : ∀ index < count,
      (sweepKey index ∈ Std.ExtTreeSet.ofList (sweepKeys known) ↔ index < known) := by
    intro index hindex
    rw [mem_known, sweepKeys, List.mem_map]
    constructor
    · rintro ⟨other, hother, heq⟩
      rw [List.mem_range] at hother
      rwa [← sweepKey_injective (by omega) (by omega) heq]
    · intro hlt
      exact ⟨index, List.mem_range.mpr hlt, rfl⟩
  have hfind : ((List.range count).find? fun index =>
      sweepKey index ∉ Std.ExtTreeSet.ofList (sweepKeys known)) =
        if known < count then some known else none := by
    split
    case isTrue hlt =>
      refine List.find?_range_eq_some.mpr ⟨?_, List.mem_range.mpr hlt, fun index hindex => ?_⟩
      · simp [hmem known hlt]
      · simp [hmem index (by omega), hindex]
    case isFalse hge =>
      refine List.find?_eq_none.mpr fun index hindex => ?_
      rw [List.mem_range] at hindex
      simp [hmem index hindex, show index < known by omega]
  have hmap : ((sweepKeys count).find? fun key => key ∉ Std.ExtTreeSet.ofList (sweepKeys known)) =
      ((List.range count).find? fun index =>
        sweepKey index ∉ Std.ExtTreeSet.ofList (sweepKeys known)).map sweepKey := List.find?_map
  rw [hmap, hfind]
  split <;> rfl

/-- The planner of the sweep misses the first key without a witness. -/
theorem sweep_planOwned {known count : ℕ} (hknown : known ≤ count) (hcount : count ≤ 256) :
    planOwnedWithEnvironment (leafTrie foreignHash) (sweepApplication count) () (sweepInput known)
        zeroEnvironment =
      if known < count then .error (.needState (sweepKey known)) else .ok () := by
  have hplan : planOwnedWithEnvironment (leafTrie foreignHash) (sweepApplication count) ()
      (sweepInput known) zeroEnvironment = _ :=
    planOwned_readAll ⟨rfl, rfl⟩ rfl rfl ⟨_, rfl⟩ fun _ => ⟨none, rfl⟩
  rw [hplan, show (sweepInput known).managedState.accessPlan.keys = sweepKeys known from rfl,
    find_sweepKeys hknown hcount]
  by_cases hlt : known < count
  · rw [if_pos hlt, if_pos hlt]
  · rw [if_neg hlt, if_neg hlt]

/-- The inputs of the sweep have encodings. -/
theorem sweepInput_encode {known : ℕ} (hknown : known ≤ 256) :
    ∃ bytes, (sweepInput known).encode = .ok bytes := by
  have hlength : (sweepKeys known).length = known := by
    rw [sweepKeys, List.length_map, List.length_range]
  have hkeys : ∀ key ∈ sweepKeys known, key.length ≤ 2 := by
    intro key hkey
    obtain ⟨index, -, rfl⟩ := List.mem_map.mp hkey
    exact Nat.le_refl 2
  obtain ⟨plan, hplan, hplanLength⟩ : ∃ bytes,
      (⟨managedStateProtocolVersion, sweepKeys known⟩ : StateAccessPlanV1).encode = .ok bytes ∧
        bytes.length ≤ 5 + (4 + 2) * (sweepKeys known).length :=
    StateAccessPlanV1.encode_ok rfl (hlength.trans_le (hknown.trans (by decide))) (by decide) hkeys
  rw [hlength] at hplanLength
  have hshort : ∀ bytes : Bytes, bytes.length ≤ 2000 → ∃ written, Writer.bytesU32 bytes =
    .ok written :=
    fun bytes hbytes => ⟨_, if_pos (lt_of_le_of_lt hbytes (by decide))⟩
  obtain ⟨planBytes, hplanBytes⟩ := hshort plan (by omega)
  have hwitness : (sweepInput known).managedState.encode = .ok
      ([managedStateWitnessVersion] ++ emptyStateRootV1.toList ++ planBytes ++
        u32ToLe 0 ++ []) := by
    refine bind_eq_ok.mpr ⟨(), ensure_eq_ok.mpr ⟨rfl, Nat.zero_le _⟩,
      bind_eq_ok.mpr ⟨plan, hplan, ?_⟩⟩
    refine bind_eq_ok.mpr ⟨(), ensure_eq_ok.mpr ?_, bind_eq_ok.mpr ⟨planBytes, hplanBytes, rfl⟩⟩
    exact le_trans (by omega : plan.length ≤ 2000) (by decide)
  obtain ⟨witnessBytes, hwitnessBytes⟩ := hshort ([managedStateWitnessVersion] ++
      emptyStateRootV1.toList ++ planBytes ++ u32ToLe 0 ++ []) (by
    simp only [List.length_append, List.length_singleton, List.Vector.toList_length, length_u32ToLe,
      Writer.length_bytesU32 hplanBytes, List.length_nil]
    omega)
  have hcount : (sweepInput known).actions.length ≤ maxRuntimeActions := (by decide : 1 ≤ 1024)
  unfold RuntimeRefineInputV1.encode
  rw [hwitness]
  exact ⟨_, bind_eq_ok.mpr ⟨(), ensure_eq_ok.mpr ⟨rfl, hcount⟩, bind_eq_ok.mpr ⟨_, rfl,
    bind_eq_ok.mpr ⟨_, rfl, bind_eq_ok.mpr ⟨witnessBytes, hwitnessBytes, rfl⟩⟩⟩⟩⟩

theorem sweepInput_canonical {known : ℕ} (hknown : known ≤ 256) : (sweepInput known).Canonical :=
  ⟨sweep_plan hknown, by simp [sweepInput]⟩

/-- A planning call of the sweep. -/
theorem sweep_planCall {known count : ℕ} (hknown : known ≤ count) (hcount : count ≤ 256) :
    planCall (sweepBackend count) sweepRequest ⟨sweepKeys known, ∅⟩ =
      .ok (if known < count then (StateKey.own (sweepKey known)).report else .empty) := by
  obtain ⟨bytes, hbytes⟩ := sweepInput_encode (hknown.trans hcount)
  have hinput : buildInput (sweepBackend count) sweepRequest ⟨sweepKeys known, ∅⟩ =
      .ok (sweepInput known) := by
    unfold buildInput
    rw [sweep_plan (hknown.trans hcount)]
    rfl
  have hdecode : RuntimeRefineInputV1.decode bytes = .ok (sweepInput known) :=
    RuntimeRefineInputV1.decode_encode (sweepInput_canonical (hknown.trans hcount)) hbytes
  unfold planCall
  rw [hinput]
  change ((sweepInput known).encode.mapError BackendError.wire >>= fun encoded =>
    (sweepBackend count).invoke .plan encoded >>= decodePlannerOutput (sweepBackend count)) = _
  rw [hbytes]
  change decodePlannerOutput (sweepBackend count)
    (Prebuilt.planOutput (runPlan (leafTrie foreignHash)
    (sweepApplication count) () ⟨true, some bytes, some zeroEnvironment.networkDomain⟩)) = _
  have hrun : runPlan (leafTrie foreignHash) (sweepApplication count) ()
      ⟨true, some bytes, some zeroEnvironment.networkDomain⟩ =
        if known < count then .error (.needState (sweepKey known)) else .ok () := by
    rw [← sweep_planOwned hknown hcount]
    unfold runPlan readInput
    dsimp only
    rw [hdecode]
    rfl
  rw [hrun]
  split
  · exact decodePlannerOutput_needState _ (by decide : 2 ≤ maxStateKeyBytes)
  · rfl

/-- The planner of the sweep reports all its keys in order. -/
theorem sweep_reports {count : ℕ} (hcount : count ≤ 256) (missing : ℕ) {known : ℕ}
    (hknown : known + missing = count) :
    Reports (sweepBackend count) sweepRequest ⟨sweepKeys known, ∅⟩
      ((List.range' known missing).map fun index => .own (sweepKey index))
        ⟨sweepKeys count, ∅⟩ := by
  have hcall : planCall (sweepBackend count) sweepRequest ⟨sweepKeys known, ∅⟩ = _ :=
    sweep_planCall (by omega) hcount
  induction missing generalizing known with
  | zero =>
    obtain rfl : known = count := hknown
    rw [if_neg (Nat.lt_irrefl known)] at hcall
    exact .done hcall
  | succ missing ih =>
    rw [if_pos (by omega)] at hcall
    have hnew : ¬ (⟨sweepKeys known, ∅⟩ : KeySets).Has (.own (sweepKey known)) := by
      intro hmem
      obtain ⟨index, hindex, heq⟩ := List.mem_map.mp hmem
      rw [List.mem_range] at hindex
      have := sweepKey_injective (by omega) (by omega) heq
      omega
    have hkeys : sweepKeys (known + 1) = sweepKeys known ++ [sweepKey known] := by
      rw [sweepKeys, List.range_succ, List.map_append]
      rfl
    have hnext : (⟨sweepKeys known, ∅⟩ : KeySets).discover (StateKey.own (sweepKey known)).report =
        (⟨sweepKeys (known + 1), ∅⟩, true) := by
      rw [hkeys]
      exact if_neg hnew
    rw [List.range'_succ, List.map_cons]
    exact .next hcall hnew hnext (ih (by omega) (sweep_planCall (by omega) hcount))

/-- A sweep over one key: its planner reports the key, and the loop settles in the second round. -/
theorem planning_settles_sweep :
    ∃ keys final reached settled, Reports (sweepBackend 1) sweepRequest ⟨[], ∅⟩ keys final ∧
      keys.length ≤ 1 ∧
      planLoop (sweepBackend 1) sweepRequest maxPlanningRounds ⟨[], ∅⟩ = .ok (reached, settled) ∧
      (settled = true ↔ keys.length ≤ 63) := by
  have hcall : ∀ known ≤ 1, planCall (sweepBackend 1) sweepRequest ⟨sweepKeys known, ∅⟩ =
      .ok (if known < 1 then (StateKey.own (sweepKey known)).report else .empty) :=
    fun known hknown => sweep_planCall hknown (by decide)
  -- only the empty set of keys and the full one come up
  have hgrown : ∀ sets, Grown {.own (sweepKey 0)} ⟨[], ∅⟩ sets →
      sets = ⟨sweepKeys 0, ∅⟩ ∨ sets = ⟨sweepKeys 1, ∅⟩ := by
    intro sets h
    induction h with
    | start => exact .inl rfl
    | add h hkey hnew hnext ih =>
      obtain rfl := Finset.mem_singleton.mp hkey
      rcases ih with rfl | rfl
      · cases hnext
        exact .inr rfl
      · exact absurd (List.mem_singleton_self (sweepKey 0)) hnew
  have hplanner : OneKeyPlanner (sweepBackend 1) sweepRequest {.own (sweepKey 0)} ⟨[], ∅⟩ := by
    intro sets h
    rcases hgrown sets h with rfl | rfl
    · exact .inr ⟨_, Finset.mem_singleton_self _, by simp [KeySets.Has,
        sweepKeys], hcall 0 (by decide)⟩
    · exact .inl (hcall 1 (by decide))
  obtain ⟨keys, final, reached, settled, hreports, hlength, hloop, hsettled, -⟩ :=
    planning_settles_iff hplanner
  exact ⟨keys, final, reached, settled, hreports, hlength, hloop, hsettled⟩

/-- With 65 keys to read, the loop goes on to refine with witnesses for 64 of them, and the planner
still misses the last one; two more rounds would have found it. -/
theorem sweep_refined_unplanned :
    ∃ reached final, planLoop (sweepBackend 65) sweepRequest maxPlanningRounds ⟨[], ∅⟩ =
        .ok (reached, false) ∧
      planCall (sweepBackend 65) sweepRequest reached = .ok (StateKey.own (sweepKey 64)).report ∧
      planLoop (sweepBackend 65) sweepRequest (maxPlanningRounds + 2) ⟨[], ∅⟩ = .ok (final, true) ∧
      planCall (sweepBackend 65) sweepRequest final = .ok .empty ∧ final.localKeys.length = 65 := by
  have hreports : Reports (sweepBackend 65) sweepRequest ⟨[], ∅⟩ _ ⟨sweepKeys 65, ∅⟩ :=
    sweep_reports (by decide) 65 rfl
  obtain ⟨reached, hloop, hreached⟩ := planLoop_of_reports hreports maxPlanningRounds
  obtain ⟨final, hlonger, hfinal⟩ := planLoop_of_reports hreports (maxPlanningRounds + 2)
  refine ⟨reached, final, hloop, ?_, hlonger, ?_⟩
  · change Reports _ _ _ [StateKey.own (sweepKey 64)] _ at hreached
    cases hreached with
    | next hcall => exact hcall
  · change Reports _ _ _ [] _ at hfinal
    cases hfinal with
    | done hcall => exact ⟨hcall, rfl⟩

end JamScript
