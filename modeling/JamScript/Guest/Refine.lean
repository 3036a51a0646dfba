import JamScript.Core.RefineOutput
import JamScript.State.ProofState

/-!
# Refine

`service-runtime-guest`: a batch of actions is executed one after another on a proof-backed state,
each inside a transaction that is committed or rolled back by the outcome of the action. Outcomes
that only say "the witness lacks data" abort the whole batch; every other outcome leaves a receipt.

The loop is written over arbitrary trait objects. `refineInternal` runs it on a `ProofState` and
`ExternalProofStates`, as the source does; `refineActions_simulates` transfers its result along a
simulation of the trait objects, so the loop can be studied on the state without caches.
-/

namespace JamScript

open Codec Effects

inductive GuestError where
  | invalidInput
  | environment
  | state
  | application
  | needState (key : Bytes)
  | needExternalState (serviceId : UInt32) (key : Bytes)
  deriving DecidableEq, Repr

structure RefineTransition where
  parentRoot : StateRoot
  newRoot : StateRoot
  receipts : List ActionReceiptV1
  diff : StateDiffV1
  transitionValidUntil : Option UInt64
  dependencies : List ExternalStateDependencyV1
  deriving DecidableEq

/-! ## Views of other services -/

/-- One proof state per external service. -/
structure ExternalProofStates (L : TrieLibrary) where
  states : Std.ExtTreeMap UInt32 (ProofState L)

/-- Read every planned key once, failing when the witness does not cover it. -/
def preloadPlan {σ : Type} [ManagedStateAccess σ] (keys : List Bytes) (state : σ) :
    Except GuestError σ :=
  keys.foldlM (fun state key =>
    match ManagedStateAccess.get key state with
    | (.error _, _) => .error .state
    | (.ok _, state) => .ok state) state

namespace ExternalProofStates

variable {L : TrieLibrary}

/-- One step of the loop of `from_input`. -/
def insertWitness (ext : ExternalProofStates L) (witness : ExternalStateWitnessV1) :
    Except GuestError (ExternalProofStates L) := do
  ensure (witness.managedState.version = managedStateWitnessVersion ∧
    ext.states[witness.serviceId]?.isNone) GuestError.invalidInput
  let state ← (ProofState.fromWitness (L := L) witness.managedState.parentRoot
    witness.managedState.storageProof).mapError fun _ => GuestError.state
  let state ← preloadPlan witness.managedState.accessPlan.keys state
  pure ⟨ext.states.insert witness.serviceId state⟩

def fromInput (witnesses : List ExternalStateWitnessV1) :
    Except GuestError (ExternalProofStates L) :=
  witnesses.foldlM insertWitness ⟨∅⟩

instance : ExternalStateAccess (ExternalProofStates L) where
  externalGet serviceId key ext :=
    match ext.states[serviceId]? with
    | none => (.error .backend, ext)
    | some state =>
      ((ManagedStateAccess.get key state).1,
        ⟨ext.states.insert serviceId (ManagedStateAccess.get key state).2⟩)

end ExternalProofStates

/-- Read-only views that answer each read on its own. -/
structure ExternalView where
  lookup : UInt32 → Bytes → Except StateAccessError (Option Bytes)

instance : ExternalStateAccess ExternalView where
  externalGet serviceId key view := (view.lookup serviceId key, view)

namespace ExternalProofStates

variable {L : TrieLibrary}

/-- `view` answers what the proof states answer, none of which has been written to. -/
def Represents (ext : ExternalProofStates L) (view : ExternalView) : Prop :=
  ∀ serviceId, match ext.states[serviceId]? with
    | none => ∀ key, view.lookup serviceId key = .error .backend
    | some state => ∃ db root, state.Represents db root ⟨Overlay.empty, L.lookup db root⟩ ∧
        view.lookup serviceId = L.lookup db root

/-- The caches of the external proof states cannot be observed. -/
theorem externalProofStates_simulation : ExternalSimulation (Represents (L := L)) := by
  intro serviceId key ext view h
  have hservice := h serviceId
  simp only [ExternalStateAccess.externalGet]
  cases hstate : ext.states[serviceId]? with
  | none =>
    rw [hstate] at hservice
    exact ⟨(hservice key).symm, h⟩
  | some state =>
    rw [hstate] at hservice
    obtain ⟨db, root, hrep, hview⟩ := hservice
    obtain ⟨hanswer, hnext⟩ := ProofState.get_spec hrep key
    refine ⟨hanswer.trans (congrFun hview key).symm, fun other => ?_⟩
    simp only [Std.ExtTreeMap.getElem?_insert]
    by_cases hother : compare serviceId other = .eq
    · rw [if_pos hother]
      obtain rfl := Std.LawfulEqOrd.eq_of_compare hother
      exact ⟨db, root, hnext, hview⟩
    · rw [if_neg hother]
      exact h other

end ExternalProofStates

/-- `external_dependencies`. -/
def externalDependencies (witnesses : List ExternalStateWitnessV1) :
    List ExternalStateDependencyV1 :=
  witnesses.map fun witness => ⟨witness.serviceId, witness.managedState.parentRoot⟩

/-! ## The batch loop -/

/-- `merge_validity`. -/
def mergeValidity (current action : Option UInt64) : Option UInt64 :=
  match action with
  | none => current
  | some action =>
    match current with
    | none => some action
    | some current => some (min current action)

/-- The local variables of the batch loop. -/
structure Batch (σ ε M : Type) where
  state : σ
  external : ε
  memory : M
  receipts : List ActionReceiptV1
  transitionValidUntil : Option UInt64

/-- The parts of a refine call that do not change along the batch. -/
structure BatchSetup (M : Type) where
  blake2_256 : Bytes → StateRoot
  application : ServiceApplication M
  accessPlan : StateAccessPlanV1
  environment : ExecutionEnvironmentV1

/-- The bit that makes an application failure roll back. -/
def fatalBit : UInt32 := 0x80000000

section Loop

variable {σ ε M : Type} [ManagedStateAccess σ] [ExternalStateAccess ε]

/-- Close the action's transaction; the runtime's own error is a state error. -/
def closeTransaction (method : Method σ Unit) (state : σ) : Except GuestError σ :=
  match method state with
  | (.ok _, state) => .ok state
  | (.error _, _) => .error .state

/-- The context an action of the batch starts in, its transaction already open. -/
def Batch.context (setup : BatchSetup M) (batch : Batch σ ε M) : ExecutionContext σ ε :=
  ExecutionContext.withAccessPlanAndExternalState
    (ManagedStateAccess.beginTransaction batch.state).2 none setup.accessPlan batch.external
    setup.environment

/-- Execute one action: its result, the memory it leaves and the context it leaves. -/
def Batch.execute (setup : BatchSetup M) (batch : Batch σ ε M) (action : Bytes) :
    (Except StateAccessError Unit × M) × ExecutionContext σ ε :=
  Fallible.exec ExecutionContext.handle (setup.application action) batch.memory
    (batch.context setup)

/-- One iteration of the loop of `refine_internal`. -/
def refineAction (setup : BatchSetup M) (batch : Batch σ ε M) (action : Bytes) :
    Except GuestError (Batch σ ε M) := do
  let actionHash := setup.blake2_256 action
  let ((result, memory), context) := batch.execute setup action
  let external := context.externalState.getD batch.external
  match result with
  | .ok () => do
    let state ← closeTransaction ManagedStateAccess.commitTransaction context.state
    pure { state, external, memory
           receipts := batch.receipts ++ [⟨actionHash, .applied, none⟩]
           transitionValidUntil :=
             mergeValidity batch.transitionValidUntil context.transitionValidUntil }
  | .error .missingWitness | .error .invalidProof => do
    let _ ← closeTransaction ManagedStateAccess.rollbackTransaction context.state
    throw .state
  | .error (.needState key) => do
    let _ ← closeTransaction ManagedStateAccess.rollbackTransaction context.state
    throw (.needState key)
  | .error (.applicationFailed errorCode) =>
    if errorCode &&& fatalBit ≠ 0 then do
      let state ← closeTransaction ManagedStateAccess.rollbackTransaction context.state
      pure { state, external, memory
             receipts := batch.receipts ++ [⟨actionHash, .failed, some errorCode⟩]
             transitionValidUntil := batch.transitionValidUntil }
    else do
      let state ← closeTransaction ManagedStateAccess.commitTransaction context.state
      pure { state, external, memory
             receipts := batch.receipts ++ [⟨actionHash, .failed, some errorCode⟩]
             transitionValidUntil :=
               mergeValidity batch.transitionValidUntil context.transitionValidUntil }
  | .error (.rejected errorCode) => do
    let state ← closeTransaction ManagedStateAccess.rollbackTransaction context.state
    pure { state, external, memory
           receipts := batch.receipts ++ [⟨actionHash, .rejected, some errorCode⟩]
           transitionValidUntil := batch.transitionValidUntil }
  | .error _ => do
    let state ← closeTransaction ManagedStateAccess.rollbackTransaction context.state
    pure { state, external, memory
           receipts := batch.receipts ++ [⟨actionHash, .failed, some 0x80000001⟩]
           transitionValidUntil := batch.transitionValidUntil }

/-- The results after which the writes of an action are kept. -/
def commits : Except StateAccessError Unit → Bool
  | .ok () => true
  | .error (.applicationFailed errorCode) => errorCode &&& fatalBit = 0
  | .error _ => false

/-- The results that end the whole batch, and the error they end it with. -/
def abortError : Except StateAccessError Unit → Option GuestError
  | .error .missingWitness | .error .invalidProof => some .state
  | .error (.needState key) => some (.needState key)
  | _ => none

/-- The receipt of an action by its result; `genericCode` reports errors that have no code. -/
def receiptFor (genericCode : UInt32) (actionHash : StateRoot) :
    Except StateAccessError Unit → ActionReceiptV1
  | .ok () => ⟨actionHash, .applied, none⟩
  | .error (.applicationFailed errorCode) => ⟨actionHash, .failed, some errorCode⟩
  | .error (.rejected errorCode) => ⟨actionHash, .rejected, some errorCode⟩
  | .error _ => ⟨actionHash, .failed, some genericCode⟩

theorem receiptFor_actionHash (genericCode : UInt32) (actionHash : StateRoot)
    (result : Except StateAccessError Unit) :
    (receiptFor genericCode actionHash result).actionHash = actionHash := by
  rcases result with e | _
  · cases e <;> rfl
  · rfl

/-- The error code of a receipt for an error without one. -/
def genericErrorCode : UInt32 := 0x80000001

/-- The transaction method that closes an action. -/
def closingMethod (result : Except StateAccessError Unit) : Method σ Unit :=
  if commits result then ManagedStateAccess.commitTransaction
  else ManagedStateAccess.rollbackTransaction

/-- The batch after an action whose transaction was closed. -/
def Batch.advance (setup : BatchSetup M) (batch : Batch σ ε M) (action : Bytes) (state : σ) :
    Batch σ ε M :=
  let run := batch.execute setup action
  { state
    external := run.2.externalState.getD batch.external
    memory := run.1.2
    receipts := batch.receipts ++
      [receiptFor genericErrorCode (setup.blake2_256 action) run.1.1]
    transitionValidUntil :=
      if commits run.1.1 then
        mergeValidity batch.transitionValidUntil run.2.transitionValidUntil
      else batch.transitionValidUntil }

/-- One iteration of the loop, with its seven arms folded into the three questions that decide it:
does the batch end here, are the writes kept, and what does the receipt say. -/
theorem refineAction_eq (setup : BatchSetup M) (batch : Batch σ ε M) (action : Bytes) :
    refineAction setup batch action =
      match abortError (batch.execute setup action).1.1 with
      | some e =>
        closeTransaction ManagedStateAccess.rollbackTransaction
          (batch.execute setup action).2.state >>= fun _ => .error e
      | none =>
        closeTransaction (closingMethod (batch.execute setup action).1.1)
          (batch.execute setup action).2.state >>= fun state =>
            .ok (batch.advance setup action state) := by
  unfold refineAction Batch.advance
  generalize batch.execute setup action = run
  obtain ⟨⟨result, memory⟩, context⟩ := run
  rcases result with e | _
  · cases e with
    | applicationFailed errorCode =>
      by_cases hfatal : errorCode &&& fatalBit = 0
      · simp [abortError, closingMethod, commits, hfatal, receiptFor]
        rfl
      · simp [abortError, closingMethod, commits, hfatal, receiptFor]
        rfl
    | missingWitness | invalidProof | backend | reservedKey | needState | needExternalState
      | rejected => rfl
  · rfl

/-- A successful iteration, read off its run. -/
theorem refineAction_eq_ok {setup : BatchSetup M} {batch next : Batch σ ε M} {action : Bytes}
    (h : refineAction setup batch action = .ok next) :
    abortError (batch.execute setup action).1.1 = none ∧
      ∃ state, closeTransaction (closingMethod (batch.execute setup action).1.1)
          (batch.execute setup action).2.state = .ok state ∧
        next = batch.advance setup action state := by
  rw [refineAction_eq] at h
  cases habort : abortError (batch.execute setup action).1.1 with
  | some e =>
    rw [habort] at h
    obtain ⟨_, _, h⟩ := bind_eq_ok.mp h
    cases h
  | none =>
    rw [habort] at h
    obtain ⟨state, hclose, h⟩ := bind_eq_ok.mp h
    cases h
    exact ⟨rfl, state, hclose, rfl⟩

def refineActions (setup : BatchSetup M) (batch : Batch σ ε M) (actions : List Bytes) :
    Except GuestError (Batch σ ε M) :=
  actions.foldlM (refineAction setup) batch

/-- What an action did: its result, and the operations it performed with their answers. -/
structure ActionTrace where
  action : Bytes
  result : Except StateAccessError Unit
  events : List (Event contextSignature)

def Batch.trace (setup : BatchSetup M) (batch : Batch σ ε M) (action : Bytes) : ActionTrace where
  action
  result := (batch.execute setup action).1.1
  events := Fallible.history ExecutionContext.handle (setup.application action) batch.memory
    (batch.context setup)

/-- The receipt of an action with this trace. -/
def ActionTrace.receipt (blake2_256 : Bytes → StateRoot) (trace : ActionTrace) : ActionReceiptV1 :=
  receiptFor genericErrorCode (blake2_256 trace.action) trace.result

/-- The traces of the actions of a batch, up to the one that ends it. -/
def actionTraces (setup : BatchSetup M) : Batch σ ε M → List Bytes → List ActionTrace
  | _, [] => []
  | batch, action :: actions =>
    batch.trace setup action ::
      match refineAction setup batch action with
      | .error _ => []
      | .ok next => actionTraces setup next actions

end Loop

/-! ## Simulation of the loop -/

section Simulation

variable {σ τ ε δ M : Type} {R : σ → τ → Prop} {Q : ε → δ → Prop}

/-- Batches over related trait objects, alike in everything else. -/
structure BatchRel (R : σ → τ → Prop) (Q : ε → δ → Prop) (b : Batch σ ε M) (c : Batch τ δ M) :
    Prop where
  state : R b.state c.state
  external : Q b.external c.external
  memory : b.memory = c.memory
  receipts : b.receipts = c.receipts
  transitionValidUntil : b.transitionValidUntil = c.transitionValidUntil

theorem closeTransaction_simulates {m : Method σ Unit} {n : Method τ Unit}
    (hmn : MethodSimulates R m n) {s : σ} {t : τ} (hst : R s t) :
    SameOutcome R (closeTransaction m s) (closeTransaction n t) := by
  obtain ⟨hanswer, hnext⟩ := hmn s t hst
  unfold closeTransaction
  generalize m s = x at hanswer hnext ⊢
  generalize n t = y at hanswer hnext ⊢
  obtain ⟨answer, s'⟩ := x
  obtain ⟨answer', t'⟩ := y
  obtain rfl : answer = answer' := hanswer
  cases answer with
  | error e => exact .error _
  | ok u => exact .ok hnext

private theorem getD_related {x : Option ε} {y : Option δ} (hxy : Option.Rel Q x y) {a : ε} {b : δ}
    (hab : Q a b) : Q (x.getD a) (y.getD b) := by
  cases hxy with
  | none => exact hab
  | some h => exact h

variable [ManagedStateAccess σ] [ManagedStateAccess τ]

theorem closingMethod_simulates (hR : StateSimulation R) (result : Except StateAccessError Unit) :
    MethodSimulates R (closingMethod (σ := σ) result) (closingMethod (σ := τ) result) := by
  unfold closingMethod
  split
  · exact hR.commitTransaction
  · exact hR.rollbackTransaction

theorem context_related (hR : StateSimulation R) (setup : BatchSetup M) {b : Batch σ ε M}
    {c : Batch τ δ M} (h : BatchRel R Q b c) : ContextRel R Q (b.context setup)
    (c.context setup) where
  state := (hR.beginTransaction _ _ h.state).2
  external := Option.Rel.some h.external
  accessPlan := rfl
  sender := rfl
  owner := rfl
  controller := rfl
  environment := rfl
  transitionValidUntil := rfl

variable [ExternalStateAccess ε] [ExternalStateAccess δ]

theorem execute_simulates (hR : StateSimulation R) (hQ : ExternalSimulation Q)
    (setup : BatchSetup M) {b : Batch σ ε M} {c : Batch τ δ M} (h : BatchRel R Q b c)
    (action : Bytes) :
    (b.execute setup action).1 = (c.execute setup action).1 ∧
      ContextRel R Q (b.execute setup action).2 (c.execute setup action).2 := by
  unfold Batch.execute Fallible.exec
  rw [h.memory]
  exact Program.run_simulates (ExecutionContext.handle_simulates hR hQ) _
    (context_related hR setup h)

theorem refineAction_simulates (hR : StateSimulation R) (hQ : ExternalSimulation Q)
    (setup : BatchSetup M) (action : Bytes) (b : Batch σ ε M) (c : Batch τ δ M)
    (h : BatchRel R Q b c) :
    SameOutcome (BatchRel R Q) (refineAction setup b action) (refineAction setup c action) := by
  obtain ⟨hresult, hcontext⟩ := execute_simulates hR hQ setup h action
  rw [refineAction_eq, refineAction_eq, hresult]
  split
  · exact (closeTransaction_simulates hR.rollbackTransaction hcontext.state).bind
      fun _ _ _ => .error _
  · refine (closeTransaction_simulates (closingMethod_simulates hR _) hcontext.state).bind
      fun s t hst => .ok ?_
    exact
      { state := hst
        external := getD_related hcontext.external h.external
        memory := congrArg Prod.snd hresult
        receipts := by simp only [Batch.advance, h.receipts, hresult]
        transitionValidUntil := by
          simp only [Batch.advance, h.transitionValidUntil, hresult, hcontext.transitionValidUntil]
            }

theorem refineActions_simulates (hR : StateSimulation R) (hQ : ExternalSimulation Q)
    (setup : BatchSetup M) (actions : List Bytes) {b : Batch σ ε M} {c : Batch τ δ M}
    (h : BatchRel R Q b c) :
    SameOutcome (BatchRel R Q) (refineActions setup b actions) (refineActions setup c actions) :=
  SameOutcome.foldlM (refineAction_simulates hR hQ setup) actions h

/-- Related batches have the same traces. -/
theorem actionTraces_simulates (hR : StateSimulation R) (hQ : ExternalSimulation Q)
    (setup : BatchSetup M) (actions : List Bytes) {b : Batch σ ε M} {c : Batch τ δ M}
    (h : BatchRel R Q b c) : actionTraces setup b actions = actionTraces setup c actions := by
  induction actions generalizing b c with
  | nil => rfl
  | cons action actions ih =>
    have htrace : b.trace setup action = c.trace setup action := by
      have hresult := congrArg Prod.fst (execute_simulates hR hQ setup h action).1
      have hevents := Program.trace_simulates (ExecutionContext.handle_simulates hR hQ)
        (setup.application action c.memory) (context_related hR setup h)
      unfold Batch.trace Fallible.history
      rw [hresult, h.memory, hevents]
    have hstep := refineAction_simulates hR hQ setup action b c h
    rw [actionTraces, actionTraces, htrace]
    generalize refineAction setup b action = next at hstep ⊢
    generalize refineAction setup c action = next' at hstep ⊢
    cases hstep with
    | error e => rfl
    | ok hnext => exact congrArg _ (ih hnext)

end Simulation

/-! ## Refine -/

section Refine

variable (L : TrieLibrary) {M : Type}

/-- Open the witness of the executing service and read every planned key. -/
def openState (witness : ManagedStateWitnessV1) : Except GuestError (ProofState L) := do
  let state ← (ProofState.fromWitness (L := L) witness.parentRoot witness.storageProof).mapError
    fun _ => GuestError.state
  preloadPlan witness.accessPlan.keys state

def refineInternal (blake2_256 : Bytes → StateRoot) (application : ServiceApplication M)
    (memory : M) (input : RuntimeRefineInputV1) (environment : ExecutionEnvironmentV1) :
    Except GuestError RefineTransition := do
  ensure (input.version = runtimeRefineInputVersion ∧
    input.managedState.version = managedStateWitnessVersion) GuestError.invalidInput
  let external ← ExternalProofStates.fromInput (L := L) input.externalState
  let state ← openState L input.managedState
  let parentRoot := state.root
  let batch ← refineActions ⟨blake2_256, application, input.managedState.accessPlan, environment⟩
    ⟨state, external, memory, [], none⟩ input.actions
  let (newRoot, diff) ← batch.state.finish.mapError fun _ => GuestError.state
  pure { parentRoot, newRoot, receipts := batch.receipts, diff
         transitionValidUntil := batch.transitionValidUntil
         dependencies := externalDependencies input.externalState }

def refineWithEnvironment (blake2_256 : Bytes → StateRoot) (application : ServiceApplication M)
    (memory : M) (input : RuntimeRefineInputV1) (environment : ExecutionEnvironmentV1) :
    Except GuestError RuntimeRefineOutputV1 := do
  let transition ← refineInternal L blake2_256 application memory input environment
  (RuntimeRefineOutputV1.fromDiffWithDependenciesAndValidity blake2_256 transition.parentRoot
    transition.newRoot transition.receipts transition.diff transition.dependencies
    transition.transitionValidUntil).mapError fun _ => GuestError.state

/-- The batch a refine call starts with. -/
def openBatch (memory : M) (input : RuntimeRefineInputV1) :
    Except GuestError (Batch (ProofState L) (ExternalProofStates L) M) := do
  let external ← ExternalProofStates.fromInput (L := L) input.externalState
  let state ← openState L input.managedState
  pure ⟨state, external, memory, [], none⟩

/-- The traces of the actions of a refine call. -/
def refineTraces (blake2_256 : Bytes → StateRoot) (application : ServiceApplication M) (memory : M)
    (input : RuntimeRefineInputV1) (environment : ExecutionEnvironmentV1) : List ActionTrace :=
  match openBatch L memory input with
  | .error _ => []
  | .ok batch =>
    actionTraces ⟨blake2_256, application, input.managedState.accessPlan, environment⟩ batch
      input.actions

/-! ## Refine without caches

What a witness answers is fixed by the witness alone, so the whole batch can be run on
`OverlayState` and `ExternalView`, which hold no caches.
-/

/-- What a witness answers for a key. -/
def witnessLookup (witness : ManagedStateWitnessV1) :
    Bytes → Except StateAccessError (Option Bytes) :=
  L.lookup (L.intoMemoryDb witness.storageProof) witness.parentRoot

/-- What a list of external witnesses answers; a service without a witness is a backend error. -/
def externalLookup (witnesses : List ExternalStateWitnessV1) : ExternalView where
  lookup serviceId key :=
    match witnesses.find? fun witness => witness.serviceId = serviceId with
    | none => .error .backend
    | some witness => witnessLookup L witness.managedState key

/-- The batch at its start, without caches. -/
def initialBatch (memory : M) (input : RuntimeRefineInputV1) :
    Batch OverlayState ExternalView M where
  state := ⟨Overlay.empty, witnessLookup L input.managedState⟩
  external := externalLookup L input.externalState
  memory
  receipts := []
  transitionValidUntil := none

/-- The root the trie library reaches from a witness by applying a diff. -/
def rootAfter (witness : ManagedStateWitnessV1) (diff : StateDiffV1) :
    Except L.TrieError StateRoot :=
  if diff.changes = [] then .ok witness.parentRoot
  else
    (L.applyChanges diff.changes
      (L.fromExisting (L.intoMemoryDb witness.storageProof) witness.parentRoot)).map
        fun trie => (L.commit trie).1

variable {L}

/-- Whatever a witness fails with is that it lacks the key. -/
theorem witnessLookup_misses (witness : ManagedStateWitnessV1) (key : Bytes)
    (error : StateAccessError) (h : witnessLookup L witness key = .error error) :
    error = .missingWitness := by
  unfold witnessLookup TrieLibrary.lookup at h
  cases hget : L.get (L.intoMemoryDb witness.storageProof) witness.parentRoot key with
  | error e =>
    rw [hget] at h
    cases h
    rfl
  | ok value =>
    rw [hget] at h
    cases h

/-- A batch without caches that stands for a batch of the runtime over the trie `(db, root)`. -/
def Batch.Realised (db : L.MemoryDB) (root : StateRoot) (c : Batch OverlayState ExternalView M) :
    Prop :=
  ∃ b : Batch (ProofState L) (ExternalProofStates L) M,
    BatchRel (ProofState.Represents db root) ExternalProofStates.Represents b c

theorem Batch.Realised.refineAction {db : L.MemoryDB} {root : StateRoot} {setup : BatchSetup M}
    {c c' : Batch OverlayState ExternalView M} {action : Bytes} (h : c.Realised db root)
    (hstep : refineAction setup c action = .ok c') : c'.Realised db root := by
  obtain ⟨b, hrel⟩ := h
  obtain ⟨b', _, hrel'⟩ := (refineAction_simulates (ProofState.proofState_simulation db root)
    ExternalProofStates.externalProofStates_simulation _ action b c hrel).of_ok_right hstep
  exact ⟨b', hrel'⟩

theorem preloadPlan_represents {db : L.MemoryDB} {root : StateRoot} {t : OverlayState}
    {keys : List Bytes} {s s' : ProofState L} (hs : s.Represents db root t)
    (h : preloadPlan keys s = .ok s') : s'.Represents db root t := by
  refine foldlM_invariant (I := fun _ s => s.Represents db root t) ?_ keys hs h
  intro _ key s s' hs hstep
  have hnext := (ProofState.proofState_simulation db root).get key s t hs
  generalize ManagedStateAccess.get key s = read at hstep hnext
  obtain ⟨answer, next⟩ := read
  cases answer with
  | error e => cases hstep
  | ok value =>
    cases hstep
    exact hnext.2

/-- An opened witness is the empty overlay over what the witness answers. -/
theorem openState_represents {witness : ManagedStateWitnessV1} {s : ProofState L}
    (h : openState L witness = .ok s) :
    s.Represents (L.intoMemoryDb witness.storageProof) witness.parentRoot
      ⟨Overlay.empty, witnessLookup L witness⟩ := by
  obtain ⟨opened, hopen, hpreload⟩ := bind_eq_ok.mp h
  rw [mapError_eq_ok] at hopen
  exact preloadPlan_represents (ProofState.fromWitness_represents hopen) hpreload

/-- A witness appended to a list is found under its service, when the service is new. -/
theorem find_append_self {done : List ExternalStateWitnessV1} {witness : ExternalStateWitnessV1}
    (hnew : ∀ w ∈ done, w.serviceId ≠ witness.serviceId) :
    (done ++ [witness]).find? (fun w => decide (w.serviceId = witness.serviceId)) =
      some witness := by
  have hnone : done.find? (fun w => decide (w.serviceId = witness.serviceId)) = none := by
    simpa using hnew
  rw [List.find?_append, hnone]
  simp

/-- It changes nothing for the other services. -/
theorem find_append_of_ne (done : List ExternalStateWitnessV1) {witness : ExternalStateWitnessV1}
    {id : UInt32} (hne : witness.serviceId ≠ id) :
    (done ++ [witness]).find? (fun w => decide (w.serviceId = id)) =
      done.find? (fun w => decide (w.serviceId = id)) := by
  simp [List.find?_append, hne]

/-- A map with one more service. -/
theorem absent_insert {α : Type} {states : Std.ExtTreeMap UInt32 α}
    {done : List ExternalStateWitnessV1} {witness : ExternalStateWitnessV1}
    (h : ∀ id, states[id]? = none ↔ ∀ w ∈ done, w.serviceId ≠ id) (state : α) (id : UInt32) :
    (states.insert witness.serviceId state)[id]? = none ↔
      ∀ w ∈ done ++ [witness], w.serviceId ≠ id := by
  simp only [Std.ExtTreeMap.getElem?_insert, List.mem_append, List.mem_singleton]
  by_cases hid : compare witness.serviceId id = .eq
  · obtain rfl := Std.LawfulEqOrd.eq_of_compare hid
    simp
  · have hne : witness.serviceId ≠ id := fun heq => hid (heq ▸ Std.ReflCmp.compare_self)
    rw [if_neg hid, h]
    constructor
    · rintro hall w (hw | rfl)
      · exact hall w hw
      · exact hne
    · exact fun hall w hw => hall w (.inl hw)

/-- The external witnesses read so far: what they answer, and that no service occurs twice. -/
structure ExternalsOpened (ext : ExternalProofStates L) (done : List ExternalStateWitnessV1) :
    Prop where
  represents : ext.Represents (externalLookup L done)
  absent : ∀ id, ext.states[id]? = none ↔ ∀ w ∈ done, w.serviceId ≠ id
  nodup : (done.map (·.serviceId)).Nodup

theorem ExternalsOpened.insertWitness {ext ext' : ExternalProofStates L}
    {done : List ExternalStateWitnessV1} (h : ExternalsOpened ext done)
    {witness : ExternalStateWitnessV1} (hstep : ext.insertWitness witness = .ok ext') :
    ExternalsOpened ext' (done ++ [witness]) := by
  obtain ⟨_, hcheck, hstep⟩ := bind_eq_ok.mp hstep
  obtain ⟨opened, hopen, hstep⟩ := bind_eq_ok.mp hstep
  obtain ⟨state, hpreload, hstep⟩ := bind_eq_ok.mp hstep
  cases hstep
  rw [mapError_eq_ok] at hopen
  rw [ensure_eq_ok] at hcheck
  have hnew : ∀ w ∈ done, w.serviceId ≠ witness.serviceId :=
    (h.absent _).mp (Option.isNone_iff_eq_none.mp hcheck.2)
  have hstate := preloadPlan_represents (ProofState.fromWitness_represents hopen) hpreload
  refine ⟨fun id => ?_, absent_insert h.absent state, ?_⟩
  · simp only [Std.ExtTreeMap.getElem?_insert, externalLookup]
    by_cases hid : compare witness.serviceId id = .eq
    · obtain rfl := Std.LawfulEqOrd.eq_of_compare hid
      rw [if_pos hid, find_append_self hnew]
      exact ⟨_, _, hstate, rfl⟩
    · have hne : witness.serviceId ≠ id := fun heq => hid (heq ▸ Std.ReflCmp.compare_self)
      rw [if_neg hid, find_append_of_ne done hne]
      exact h.represents id
  · rw [List.map_append, List.map_singleton, List.nodup_append]
    refine ⟨h.nodup, List.nodup_singleton _, ?_⟩
    intro a ha b hb
    obtain ⟨w, hw, rfl⟩ := List.mem_map.mp ha
    rw [List.mem_singleton.mp hb]
    exact hnew w hw

theorem fromInput_opened {witnesses : List ExternalStateWitnessV1} {ext : ExternalProofStates L}
    (h : ExternalProofStates.fromInput witnesses = .ok ext) : ExternalsOpened ext witnesses := by
  refine foldlM_invariant (I := fun done ext => ExternalsOpened ext done) ?_ witnesses ?_ h
  · exact fun _ _ _ _ hopened hstep => hopened.insertWitness hstep
  · exact ⟨fun id => by simp [externalLookup], by simp, List.nodup_nil⟩

/-- The batch a refine call starts with is the batch without caches. -/
theorem openBatch_related {memory : M} {input : RuntimeRefineInputV1}
    {batch : Batch (ProofState L) (ExternalProofStates L) M}
    (h : openBatch L memory input = .ok batch) :
    (input.externalState.map (·.serviceId)).Nodup ∧
      BatchRel (ProofState.Represents (L.intoMemoryDb input.managedState.storageProof)
        input.managedState.parentRoot) ExternalProofStates.Represents batch
        (initialBatch L memory input) := by
  obtain ⟨external, hexternal, h⟩ := bind_eq_ok.mp h
  obtain ⟨state, hstate, h⟩ := bind_eq_ok.mp h
  cases h
  have hopened := fromInput_opened hexternal
  exact ⟨hopened.nodup, openState_represents hstate, hopened.represents, rfl, rfl, rfl⟩

/-- The traces of a refine call do not depend on the caches. -/
theorem refineTraces_eq {blake2_256 : Bytes → StateRoot} {application : ServiceApplication M}
    {memory : M} {input : RuntimeRefineInputV1} {environment : ExecutionEnvironmentV1}
    {batch : Batch (ProofState L) (ExternalProofStates L) M}
    (h : openBatch L memory input = .ok batch) :
    refineTraces L blake2_256 application memory input environment =
      actionTraces ⟨blake2_256, application, input.managedState.accessPlan, environment⟩
        (initialBatch L memory input) input.actions := by
  unfold refineTraces
  rw [h]
  exact actionTraces_simulates (ProofState.proofState_simulation _ _)
    ExternalProofStates.externalProofStates_simulation _ input.actions (openBatch_related h).2

/-- A successful refine is a successful run of the batch loop without caches, ended by the library's
update of the trie. -/
theorem refineInternal_eq_ok {blake2_256 : Bytes → StateRoot} {application : ServiceApplication M}
    {memory : M} {input : RuntimeRefineInputV1} {environment : ExecutionEnvironmentV1}
    {transition : RefineTransition}
    (h : refineInternal L blake2_256 application memory input environment = .ok transition) :
    (∃ opened, openBatch L memory input = .ok opened) ∧
    ∃ batch : Batch OverlayState ExternalView M,
      refineActions ⟨blake2_256, application, input.managedState.accessPlan, environment⟩
        (initialBatch L memory input) input.actions = .ok batch ∧
      batch.state.transactions = [] ∧
      rootAfter L input.managedState (diffOfWrites batch.state.writes) = .ok transition.newRoot ∧
      transition =
        { parentRoot := input.managedState.parentRoot
          newRoot := transition.newRoot
          receipts := batch.receipts
          diff := diffOfWrites batch.state.writes
          transitionValidUntil := batch.transitionValidUntil
          dependencies := externalDependencies input.externalState } := by
  obtain ⟨_, _, h⟩ := bind_eq_ok.mp h
  obtain ⟨external, hexternal, h⟩ := bind_eq_ok.mp h
  obtain ⟨state, hstate, h⟩ := bind_eq_ok.mp h
  obtain ⟨batch, hbatch, h⟩ := bind_eq_ok.mp h
  obtain ⟨⟨newRoot, diff⟩, hfinish, h⟩ := bind_eq_ok.mp h
  cases h
  rw [mapError_eq_ok] at hfinish
  have hopen : openBatch L memory input = .ok ⟨state, external, memory, [], none⟩ := by
    rw [openBatch, hexternal, hstate]
    rfl
  have hrep := openState_represents hstate
  refine ⟨⟨_, hopen⟩, ?_⟩
  -- run both loops side by side
  obtain ⟨cacheless, hrun, hsame⟩ := (refineActions_simulates
    (ProofState.proofState_simulation _ _) ExternalProofStates.externalProofStates_simulation
    _ input.actions (openBatch_related hopen).2).of_ok hbatch
  obtain ⟨hdb, hroot, hoverlay, -, -⟩ := hsame.state
  refine ⟨cacheless, hrun, ?_⟩
  unfold ProofState.finish at hfinish
  rw [hoverlay, hdb, hroot] at hfinish
  split at hfinish
  case isTrue => cases hfinish
  case isFalse hclosed =>
    refine ⟨not_not.mp hclosed, ?_⟩
    rw [hsame.receipts, hsame.transitionValidUntil, hrep.sameRoot]
    unfold rootAfter
    dsimp only at hfinish
    split at hfinish
    case isTrue hempty =>
      cases hfinish
      exact ⟨if_pos hempty, rfl⟩
    case isFalse hchanges =>
      rw [if_neg hchanges]
      split at hfinish
      case h_1 => cases hfinish
      case h_2 trie htrie =>
        cases hfinish
        rw [htrie]
        exact ⟨rfl, rfl⟩

end Refine

end JamScript
