import JamScript.Backend.Requests
import JamScript.Common.OrderedKeys
import JamScript.Core.RefineOutput
import JamScript.State.FullState

/-!
# The backend's state

For each registered service the backend keeps the states it has materialized, the root it takes for
the current one, and the outputs it expects from the works it has submitted. When the network
reports a work as imported, `status` compares the finalized commitment of the service with what was
predicted, and `commitRecovery` moves the head if the prediction has come true.

What the network answers is an argument of each operation. The database is a parameter:
`DurableStore` says what it does when it is told of a registration or of a step of a head.
-/

namespace JamScript

open Codec OrderedMap

/-- The key of a service, which stays when its code changes. -/
abbrev ServiceKeyV1 := FixedBytes 32

inductive ArtifactFormat where
  | jamScriptPvmV1
  deriving DecidableEq

/-- The code of a service, by its digest. -/
structure ApplicationArtifactRef where
  digest : StateRoot
  format : ArtifactFormat
  deriving DecidableEq

structure DeploymentMetadata where
  manifestDigest : Option StateRoot
  registeredAt : Option UInt64
  networkDomain : Option StateRoot
  deriving DecidableEq

/-- A service that the backend knows. -/
structure ServiceRecord where
  serviceId : UInt32
  serviceKey : ServiceKeyV1
  codeHash : StateRoot
  abiVersion : UInt32
  applicationArtifact : ApplicationArtifactRef
  deployment : DeploymentMetadata
  deriving DecidableEq

/-- A package of a service. -/
structure WorkKey where
  serviceId : UInt32
  packageHash : StateRoot
  deriving DecidableEq

instance : Ord WorkKey := ⟨compareLex (compareOn WorkKey.serviceId) (compareOn WorkKey.packageHash)⟩

instance : Std.TransOrd WorkKey :=
  inferInstanceAs (Std.TransCmp (compareLex (compareOn WorkKey.serviceId)
    (compareOn WorkKey.packageHash)))

instance : Std.LawfulEqOrd WorkKey where
  compare_self {key} := by
    have hself : compareLex (compareOn WorkKey.serviceId) (compareOn WorkKey.packageHash) key
      key = .eq := by
      simp [compareLex, compareOn]
    exact hself
  eq_of_compare {left right} h := by
    have hboth : compareLex (compareOn WorkKey.serviceId) (compareOn WorkKey.packageHash) left
      right = .eq := h
    simp only [compareLex, compareOn, Ordering.then_eq_eq,
      Std.LawfulEqOrd.compare_eq_iff_eq] at hboth
    cases left
    cases right
    simp_all

/-! ## Registered services -/

inductive RegistryError where
  | serviceIdAlreadyBound
  | serviceKeyAlreadyBound
  | serviceIdKeyMismatch
  | unknownServiceId
  deriving DecidableEq, Repr

/-- The services, by identifier and by key. -/
structure ServiceRegistry where
  byId : Std.ExtTreeMap UInt32 ServiceRecord
  byKey : Std.ExtTreeMap ServiceKeyV1 UInt32

namespace ServiceRegistry

def empty : ServiceRegistry := ⟨∅, ∅⟩

/-- A service keeps its key; the rest of its record may be replaced. -/
def register (record : ServiceRecord) (registry : ServiceRegistry) :
    Except RegistryError ServiceRegistry :=
  match registry.byId[record.serviceId]? with
  | some existing =>
    if existing.serviceKey ≠ record.serviceKey then .error .serviceIdAlreadyBound
    else .ok { registry with byId := registry.byId.insert record.serviceId record }
  | none =>
    match registry.byKey[record.serviceKey]? with
    | some existingId =>
      if existingId ≠ record.serviceId then .error .serviceKeyAlreadyBound
      else .error .serviceIdKeyMismatch
    | none => .ok ⟨registry.byId.insert record.serviceId record,
        registry.byKey.insert record.serviceKey record.serviceId⟩

def get (serviceId : UInt32) (registry : ServiceRegistry) : Except RegistryError ServiceRecord :=
  match registry.byId[serviceId]? with
  | some record => .ok record
  | none => .error .unknownServiceId

end ServiceRegistry

/-! ## Materialized states -/

/-- The states that the backend holds, with the head and the recent heads of each service. -/
structure FullStateProvider (L : HostTrie) where
  states : Std.ExtTreeMap ServiceKeyV1 (Std.ExtTreeMap StateRoot (FullState L))
  materialized : Std.ExtTreeMap ServiceKeyV1 StateRoot
  history : Std.ExtTreeMap ServiceKeyV1 (List StateRoot)
  snapshotHistory : Std.ExtTreeMap ServiceKeyV1 (List StateRoot)

/-- How many heads of a service stay available. -/
def maxMaterializedRootsPerService : ℕ := 8

namespace FullStateProvider

variable {L : HostTrie}

def empty : FullStateProvider L := ⟨∅, ∅, ∅, ∅⟩

def statesOf (service : ServiceKeyV1) (p : FullStateProvider L) : Std.ExtTreeMap StateRoot
    (FullState L) :=
  (p.states[service]?).getD ∅

/-- Add a root to a history, unless it is there. -/
def remember (root : StateRoot) (history : List StateRoot) : List StateRoot :=
  if root ∈ history then history else history ++ [root]

/-- The oldest roots, as many as the history is too long. -/
def evicted (history : List StateRoot) : List StateRoot :=
  history.take (history.length - maxMaterializedRootsPerService)

/-- The roots that are not evicted. -/
def retained (history : List StateRoot) : List StateRoot :=
  history.drop (history.length - maxMaterializedRootsPerService)

/-- Forget the states of some roots. -/
def forget (roots : List StateRoot) (states : Std.ExtTreeMap StateRoot (FullState L)) :
    Std.ExtTreeMap StateRoot (FullState L) :=
  roots.foldl (fun states root => states.erase root) states

/-- Make a state the head of its service. -/
def insert (service : ServiceKeyV1) (state : FullState L) (p : FullStateProvider L) :
    FullStateProvider L :=
  let history := remember state.root ((p.history[service]?).getD [])
  { p with
    states := p.states.insert service
      (forget ((evicted history).filter (· ≠ state.root))
        ((p.statesOf service).insert state.root state))
    history := p.history.insert service (retained history)
    materialized := p.materialized.insert service state.root }

/-- Keep a state without making it the head. A root that is the head or was one recently is not
evicted. -/
def insertSnapshot (service : ServiceKeyV1) (state : FullState L) (p : FullStateProvider L) :
    FullStateProvider L :=
  let snapshots := remember state.root ((p.snapshotHistory[service]?).getD [])
  let unused := (evicted snapshots).filter fun root =>
    p.materialized[service]? ≠ some root ∧ root ∉ (p.history[service]?).getD []
  { p with
    states := p.states.insert service (forget unused ((p.statesOf service).insert state.root state))
    snapshotHistory := p.snapshotHistory.insert service (retained snapshots) }

/-- The empty state is always there. -/
def containsRoot (service : ServiceKeyV1) (root : StateRoot) (p : FullStateProvider L) : Bool :=
  root = emptyStateRootV1 ∨ root ∈ p.statesOf service

/-- `open` and `state_at`. -/
def stateAt (service : ServiceKeyV1) (root : StateRoot) (p : FullStateProvider L) :
    Except BackendError (FullState L) :=
  if root = emptyStateRootV1 then .ok FullState.empty
  else
    match (p.statesOf service)[root]? with
    | some state => .ok state
    | none => .error .provider

/-- The head of a service. -/
def materializedRoot (service : ServiceKeyV1) (p : FullStateProvider L) : StateRoot :=
  (p.materialized[service]?).getD emptyStateRootV1

end FullStateProvider

/-- A value with a proof, at a root. -/
structure StateQueryResponseV1 where
  serviceKey : ServiceKeyV1
  stateRoot : StateRoot
  key : Bytes
  value : Option Bytes
  proof : List Bytes
  deriving DecidableEq

/-- `ServiceStateProvider::get`. -/
def FullStateProvider.get {L : HostTrie} (service : ServiceKeyV1) (root : StateRoot) (key : Bytes)
    (p : FullStateProvider L) : Except BackendError StateQueryResponseV1 := do
  let state ← p.stateAt service root
  let value ← (state.get key).mapError fun _ => BackendError.provider
  let proof ← (state.proofFor [key]).mapError fun _ => BackendError.provider
  pure ⟨service, root, key, value, proof⟩

/-! ## The state and its transitions -/

/-- An output, with the service it belongs to. -/
structure RecoveryEnvelopeV1 where
  serviceId : UInt32
  serviceKey : ServiceKeyV1
  output : RuntimeRefineOutputV1
  deriving DecidableEq

/-- A step of a head, ready to be written. -/
structure Transition (L : HostTrie) where
  serviceId : UInt32
  serviceKey : ServiceKeyV1
  sequence : UInt64
  output : RuntimeRefineOutputV1
  diff : StateDiffV1
  finalizedContext : Option FinalizedContextV1
  next : FullState L

/-- The database of a backend. -/
structure DurableStore (L : HostTrie) where
  Db : Type
  persistService : ServiceRecord → Db → Except BackendError Unit × Db
  commitTransition : Transition L → Db → Except BackendError Unit × Db

/-- A backend without a database. -/
def DurableStore.none (L : HostTrie) : DurableStore L where
  Db := Unit
  persistService _ db := (.ok (), db)
  commitTransition _ db := (.ok (), db)

/-- What the backend holds between two requests. -/
structure BackendState (L : HostTrie) (D : DurableStore L) where
  registry : ServiceRegistry
  provider : FullStateProvider L
  /-- Predictions that have not been settled. -/
  pending : Std.ExtTreeMap WorkKey RuntimeRefineOutputV1
  predictions : Std.ExtTreeMap WorkKey RuntimeRefineOutputV1
  finalized : Std.ExtTreeSet WorkKey
  headSequences : Std.ExtTreeMap UInt32 UInt64
  finalizedContexts : Std.ExtTreeMap UInt32 FinalizedContextV1
  corruptServices : Std.ExtTreeSet UInt32
  database : D.Db

/-- The hash of an encoded recovery payload. -/
def StateRecoveryV1.commitment (blake2_256 : Bytes → StateRoot) (recovery : StateRecoveryV1) :
    Except WireError StateRoot :=
  recovery.encode.map blake2_256

/-- The diff of a recovery payload that matches its commitment. -/
def recoveredDiff (blake2_256 : Bytes → StateRoot) (output : RuntimeRefineOutputV1) :
    Except BackendError StateDiffV1 := do
  let recovery ← (StateRecoveryV1.decode output.recoveryPayload).mapError fun _ =>
    BackendError.invalidEnvelope
  let commitment ← (recovery.commitment blake2_256).mapError fun _ => BackendError.invalidEnvelope
  ensure (commitment = output.recoveryCommitment) BackendError.invalidEnvelope
  pure recovery.diff

/-- The state that an output leads to from its parent. -/
def FullStateProvider.recoveredState {L : HostTrie} (serviceKey : ServiceKeyV1)
    (output : RuntimeRefineOutputV1) (diff : StateDiffV1) (p : FullStateProvider L) :
    Except BackendError (FullState L) := do
  let parent ← p.stateAt serviceKey output.parentRoot
  let next ← (parent.applyDiff diff).mapError fun _ => BackendError.provider
  ensure (next.root = output.newRoot) BackendError.invalidEnvelope
  pure next

namespace BackendState

variable {L : HostTrie} {D : DurableStore L}

def withRegistry (registry : ServiceRegistry) (database : D.Db) : BackendState L D :=
  ⟨registry, .empty, ∅, ∅, ∅, ∅, ∅, ∅, database⟩

/-- The record of a service, as the methods of the state ask for it. -/
def record (serviceId : UInt32) (s : BackendState L D) : Except BackendError ServiceRecord :=
  (s.registry.get serviceId).mapError fun _ => .registry

/-- A service whose stored state was damaged has no root. -/
def currentRoot (serviceId : UInt32) (s : BackendState L D) : Except BackendError StateRoot := do
  ensure (serviceId ∉ s.corruptServices) (BackendError.serviceCorrupt serviceId)
  let record ← s.record serviceId
  pure (s.provider.materializedRoot record.serviceKey)

/-- The sequence number of a head; 0 before its first step. -/
def headSequence (serviceId : UInt32) (s : BackendState L D) : UInt64 :=
  (s.headSequences[serviceId]?).getD 0

/-- `register`. -/
def register (record : ServiceRecord) (s : BackendState L D) : Except BackendError
    (BackendState L D) := do
  let registry ← (s.registry.register record).mapError fun _ => BackendError.registry
  pure { s with registry }

/-- A service that is registered is only replaced on request, and never under another key. -/
def refusesRecord (allowUpgrade : Bool) (record : ServiceRecord) (s : BackendState L D) : Bool :=
  match s.registry.byId[record.serviceId]? with
  | some existing => existing.serviceKey ≠ record.serviceKey || !allowUpgrade
  | none => false

/-- `register_service` and `discover_service`, once the record has been made and validated. If the
database refuses the record, the service stays registered in memory. -/
def registerService (allowUpgrade : Bool) (record : ServiceRecord) (s : BackendState L D) :
    Except BackendError Unit × BackendState L D :=
  if s.refusesRecord allowUpgrade record then
    (.error (.rpc "Service is already registered; use an explicit validated upgrade"), s)
  else
    match s.register record with
    | .error error => (.error error, s)
    | .ok s =>
      let (result, database) := D.persistService record s.database
      (result, { s with database })

/-- `track_prediction`. -/
def trackPrediction (serviceId : UInt32) (packageHash : StateRoot) (output : RuntimeRefineOutputV1)
    (s : BackendState L D) : Except BackendError (BackendState L D) := do
  let _ ← s.record serviceId
  let key : WorkKey := ⟨serviceId, packageHash⟩
  pure { s with
    finalized := s.finalized.erase key
    pending := s.pending.insert key output
    predictions := s.predictions.insert key output }

variable (blake2_256 : Bytes → StateRoot)

/-- The checks of `commit_recovery`. -/
def prepareRecovery (serviceId : UInt32) (serviceKey : ServiceKeyV1)
    (output : RuntimeRefineOutputV1) (s : BackendState L D) : Except BackendError
    (Transition L) := do
  ensure (serviceId ∉ s.corruptServices) (BackendError.serviceCorrupt serviceId)
  ensure (s.provider.materializedRoot serviceKey = output.parentRoot)
    BackendError.recoveryNotCanonical
  let diff ← recoveredDiff blake2_256 output
  let next ← s.provider.recoveredState serviceKey output diff
  ensure (s.headSequence serviceId ≠ 0xffffffffffffffff) BackendError.entryTooLarge
  pure ⟨serviceId, serviceKey, s.headSequence serviceId + 1, output, diff,
    s.finalizedContexts[serviceId]?, next⟩

/-- Move the head. -/
def install (transition : Transition L) (s : BackendState L D) : BackendState L D :=
  { s with
    provider := s.provider.insert transition.serviceKey transition.next
    headSequences := s.headSequences.insert transition.serviceId transition.sequence }

/-- The state is stored before it becomes the head. -/
def commitRecovery (serviceId : UInt32) (serviceKey : ServiceKeyV1) (output : RuntimeRefineOutputV1)
    (s : BackendState L D) : Except BackendError Unit × BackendState L D :=
  match s.prepareRecovery blake2_256 serviceId serviceKey output with
  | .error error => (.error error, s)
  | .ok transition =>
    match D.commitTransition transition s.database with
    | (.error error, database) => (.error error, { s with database })
    | (.ok (), database) => (.ok (), { s with database }.install transition)

/-- `apply_recovery`. -/
def applyRecovery (envelope : RecoveryEnvelopeV1) (s : BackendState L D) :
    Except BackendError Unit × BackendState L D :=
  match s.registry.get envelope.serviceId with
  | .error _ => (.error .unknownService, s)
  | .ok record =>
    if record.serviceKey ≠ envelope.serviceKey then (.error .serviceKeyMismatch, s)
    else s.commitRecovery blake2_256 record.serviceId record.serviceKey envelope.output

/-- Whether the prediction was settled. -/
def materializeIfCanonical (key : WorkKey) (canonicalRoot : StateRoot) (s : BackendState L D) :
    Except BackendError Bool × BackendState L D :=
  match s.pending[key]? with
  | none => (.ok false, s)
  | some output =>
    if canonicalRoot ≠ output.newRoot then (.ok false, s)
    else
      match s.record key.serviceId with
      | .error error => (.error error, s)
      | .ok record =>
        match s.commitRecovery blake2_256 record.serviceId record.serviceKey output with
        | (.error error, s) => (.error error, s)
        | (.ok (), s) =>
          (.ok true, { s with pending := s.pending.erase key, finalized := s.finalized.insert key })

/-- Keep the state a prediction of the best chain leads to. The first prediction in the order of
work keys counts. -/
def materializePredictionSnapshot (serviceId : UInt32) (root : StateRoot) (s : BackendState L D) :
    Except BackendError (Bool × BackendState L D) :=
  match s.predictions.toList.find? fun entry => entry.1.serviceId = serviceId ∧
    entry.2.newRoot = root with
  | none => .ok (false, s)
  | some (_, output) => do
    let record ← s.record serviceId
    if s.provider.containsRoot record.serviceKey root then .ok (true, s)
    else do
      let diff ← recoveredDiff blake2_256 output
      let next ← s.provider.recoveredState record.serviceKey output diff
      pure (true, { s with provider := s.provider.insertSnapshot record.serviceKey next })

end BackendState

/-! ## The status of a work -/

/-- A receipt as requests show it. -/
structure ActionReceiptJson where
  actionHash : Bytes
  status : String
  errorCode : Option UInt32
  deriving DecidableEq

def canonicalActionReceipts (receipts : List ActionReceiptV1) : List ActionReceiptJson :=
  receipts.map fun receipt =>
    ⟨hashHex receipt.actionHash.toList,
      (match receipt.status with
        | .applied => "applied"
        | .failed => "failed"
        | .rejected => "rejected"),
      receipt.errorCode⟩

/-- The members of a work's report that the backend reads. Those it only hands on are kept as
text. -/
structure WorkReport where
  status : Option String
  error : Option String
  actionReceipts : Option (List ActionReceiptJson)
  itemIndex : Option Bytes
  executionReceipt : Option Bytes
  receipt : Option Bytes
  deriving DecidableEq

/-- What a status request names; both are optional. -/
structure StatusParams where
  packageHash : Option Bytes
  serviceId : Option UInt32
  deriving DecidableEq

/-- The parameters with which the backend itself asks for a work. -/
def WorkKey.params (key : WorkKey) : StatusParams :=
  ⟨some (hashHex key.packageHash.toList), some key.serviceId⟩

/-- What the network answers during a status request. -/
structure StatusAnswers where
  workStatus : Except BackendError WorkReport
  finalizedContext : Except BackendError FinalizedContextV1
  /-- What the service has stored under the commitment key in that context. -/
  commitment : Except BackendError (Option Bytes)

/-- Receipts are canonical only at the root the prediction leads to. -/
def publishReceipts (expected : Option RuntimeRefineOutputV1) (root : StateRoot)
    (report : WorkReport) :
    WorkReport :=
  match expected with
  | some output =>
    if root = output.newRoot then
      { report with actionReceipts := some (canonicalActionReceipts output.receipts) }
    else report
  | none => report

namespace BackendState

variable {L : HostTrie} {D : DurableStore L} (blake2_256 : Bytes → StateRoot)

/-- The part of `status` that knows the finalized root. -/
def settle (key : WorkKey) (context : FinalizedContextV1) (root : StateRoot) (report : WorkReport)
    (s : BackendState L D) : Except BackendError WorkReport × BackendState L D :=
  let expected := s.predictions[key]?
  if expected.any fun output => root ≠ output.parentRoot ∧ root ≠ output.newRoot then
    (.error .predictionStale, { s with pending := s.pending.erase key })
  else
    let s := { s with finalizedContexts := s.finalizedContexts.insert key.serviceId context }
    match s.materializeIfCanonical blake2_256 key root with
    | (.error error, s) => (.error error, s)
    | (.ok _, s) => (.ok (publishReceipts expected root report), s)

/-- `BackendEngine::status`. Receipts in the network's report are dropped first. -/
def status (answers : StatusAnswers) (params : StatusParams) (s : BackendState L D) :
    Except BackendError WorkReport × BackendState L D :=
  match answers.workStatus with
  | .error error => (.error error, s)
  | .ok report =>
    let report := { report with actionReceipts := none }
    match params.packageHash.map parseHash, params.serviceId with
    | none, _ => (.ok report, s)
    | some (.error error), _ => (.error error, s)
    | some (.ok _), none => (.ok report, s)
    | some (.ok packageHash), some serviceId =>
      if report.status ≠ some "imported" then (.ok report, s)
      else
        match answers.finalizedContext, answers.commitment with
        | .error error, _ => (.error error, s)
        | .ok _, .error error => (.error error, s)
        | .ok context, .ok stored =>
          -- a commitment that cannot be decoded counts as none
          match stored.bind fun bytes => (ManagedStateCommitmentV1.decode bytes).toOption with
          | none => (.ok report, s)
          | some commitment =>
            s.settle blake2_256 ⟨serviceId, packageHash⟩ context commitment.root report

end BackendState

/-! ## Queries of the state -/

/-- The root of a stored commitment; a service without one has the empty state. -/
def committedRoot : Option Bytes → Except BackendError StateRoot
  | none => .ok emptyStateRootV1
  | some bytes => do
    let commitment ← (ManagedStateCommitmentV1.decode bytes).mapError BackendError.wire
    pure commitment.root

/-- What the network answers to `canonical_state_root`. -/
structure CanonicalAnswers where
  finalizedContext : Except BackendError FinalizedContextV1
  commitment : Except BackendError (Option Bytes)

/-- An answer to a state query. -/
structure StateAnswer where
  response : StateQueryResponseV1
  withProof : Bool
  context : Option FinalizedContextV1
  deriving DecidableEq

/-- `get_managed_state` asks for a context of one of two kinds. -/
structure ManagedStateContext where
  contextType : String
  blockHash : StateRoot
  blockNumber : UInt32
  stateRoot : StateRoot
  slot : UInt32
  deriving DecidableEq

structure ManagedStateParams where
  serviceId : UInt32
  stateRoot : StateRoot
  key : Bytes
  context : Option ManagedStateContext
  deriving DecidableEq

/-- What the network answers about the requested context. -/
structure ContextAnswers where
  contextAt : Except BackendError FinalizedContextV1
  finalizedContext : Except BackendError FinalizedContextV1
  commitment : Except BackendError (Option Bytes)

/-- The network confirms the context and has the requested root committed in it. -/
def checkManagedContext (network : Option ContextAnswers) (stateRoot : StateRoot)
    (requested : ManagedStateContext) : Except BackendError FinalizedContextV1 := do
  ensure (requested.contextType = "best" ∨ requested.contextType = "finalized")
    (BackendError.rpc "INVALID_CONTEXT_TYPE")
  let answers ← (match network with
    | some answers => .ok answers
    | none => .error (.rpc "network gateway is not configured") :
      Except BackendError ContextAnswers)
  let actual ← answers.contextAt
  ensure (actual.blockNumber = requested.blockNumber ∧ actual.stateRoot = requested.stateRoot ∧
    actual.slot = requested.slot) BackendError.staleContext
  if requested.contextType = "finalized" then do
    let finalized ← answers.finalizedContext
    ensure (actual.blockNumber ≤ finalized.blockNumber) BackendError.staleContext
  let stored ← answers.commitment
  let committed ← committedRoot stored
  ensure (committed = stateRoot) BackendError.staleContext
  pure actual

namespace BackendState

variable {L : HostTrie} {D : DurableStore L}

/-- Without a network the materialized root counts as the canonical one. -/
def canonicalStateRoot (network : Option CanonicalAnswers) (serviceId : UInt32)
    (s : BackendState L D) :
    Except BackendError (Option FinalizedContextV1 × StateRoot) :=
  match network with
  | none => do
    let root ← s.currentRoot serviceId
    pure (none, root)
  | some answers => do
    let context ← answers.finalizedContext
    let stored ← answers.commitment
    let root ← committedRoot stored
    pure (some context, root)

/-- `get_state`. The lock is released while the network is asked, so the state may be another one
when it is taken again. -/
def getState (network : Option CanonicalAnswers) (serviceId : UInt32) (key : Bytes)
    (withProof : Bool) (before during after : BackendState L D) :
    Except BackendError StateAnswer := do
  let record ← before.record serviceId
  let materializedRoot ← before.currentRoot serviceId
  let (context, canonicalRoot) ← during.canonicalStateRoot network serviceId
  ensure (materializedRoot = canonicalRoot) BackendError.stateNotMaterialized
  let current ← after.currentRoot serviceId
  ensure (current = canonicalRoot) BackendError.stateNotMaterialized
  let response ← after.provider.get record.serviceKey canonicalRoot key
  pure ⟨if withProof then response else { response with proof := [] }, withProof, context⟩

/-- The part of `get_managed_state` under the lock. Only a request with a context may make the
backend keep another state. -/
def findManagedState (blake2_256 : Bytes → StateRoot) (params : ManagedStateParams)
    (serviceKey : ServiceKeyV1) (s : BackendState L D) : Except BackendError (BackendState L D) :=
  if s.provider.containsRoot serviceKey params.stateRoot then .ok s
  else if params.context = none then .error .provider
  else
    match s.materializePredictionSnapshot blake2_256 params.serviceId params.stateRoot with
    | .error error => .error error
    | .ok (false, _) => .error .provider
    | .ok (true, s) => .ok s

/-- `get_managed_state`. -/
def getManagedState (blake2_256 : Bytes → StateRoot) (network : Option ContextAnswers)
    (params : ManagedStateParams) (s : BackendState L D) :
    Except BackendError StateAnswer × BackendState L D :=
  match params.context.mapM (checkManagedContext network params.stateRoot),
    s.record params.serviceId with
  | .error error, _ => (.error error, s)
  | .ok _, .error error => (.error error, s)
  | .ok context, .ok record =>
    match s.findManagedState blake2_256 params record.serviceKey with
    | .error error => (.error error, s)
    | .ok s =>
      (do
        let response ← s.provider.get record.serviceKey params.stateRoot params.key
        pure ⟨response, true, context⟩, s)

end BackendState

/-! ## Requests -/

/-- The requests that change the state of the backend. -/
inductive StateRequest where
  | registerService (allowUpgrade : Bool) (record : ServiceRecord)
  | trackPrediction (serviceId : UInt32) (packageHash : StateRoot) (output : RuntimeRefineOutputV1)
  | status (answers : StatusAnswers) (params : StatusParams)
  | applyRecovery (envelope : RecoveryEnvelopeV1)
  | getManagedState (network : Option ContextAnswers) (params : ManagedStateParams)

inductive BackendReply where
  | done
  | report (report : WorkReport)
  | answer (answer : StateAnswer)

namespace BackendState

variable {L : HostTrie} {D : DurableStore L} (blake2_256 : Bytes → StateRoot)

/-- One request, carried out. -/
def perform (request : StateRequest) (s : BackendState L D) :
    Except BackendError BackendReply × BackendState L D :=
  match request with
  | .registerService allowUpgrade record =>
    let (result, s) := s.registerService allowUpgrade record
    (result.map fun _ => .done, s)
  | .trackPrediction serviceId packageHash output =>
    match s.trackPrediction serviceId packageHash output with
    | .error error => (.error error, s)
    | .ok s => (.ok .done, s)
  | .status answers params =>
    let (result, s) := s.status blake2_256 answers params
    (result.map .report, s)
  | .applyRecovery envelope =>
    let (result, s) := s.applyRecovery blake2_256 envelope
    (result.map fun _ => .done, s)
  | .getManagedState network params =>
    let (result, s) := s.getManagedState blake2_256 network params
    (result.map .answer, s)

/-- The state after a sequence of requests. A request that fails does not end the sequence. -/
def run (requests : List StateRequest) (s : BackendState L D) : BackendState L D :=
  requests.foldl (fun s request => (s.perform blake2_256 request).2) s

end BackendState

end JamScript
