import JamScript.Guest.Batch

/-!
# Refine under an observer

`refine_internal_owned_with_observer` is the diagnostic twin of `refine_internal`: the same loop,
written a second time, with a call to an observer between its steps. The two agree on everything but
one arm. An error that carries no code of its own is reported as `0x80000001` by the release loop
and as `1` by the diagnostic one, and `observer_agrees_iff` shows that this is the only difference.
-/

namespace JamScript

open Codec Effects

/-- `RefineObserver`: it sees the number of each stage. -/
class RefineObserver (O : Type) where
  stage : UInt8 → O → O

def stageApplication : UInt8 := 4
def stageFinish : UInt8 := 5
def stageFinishDone : UInt8 := 6
def stageApplicationDone : UInt8 := 7
def stageApplicationCommit : UInt8 := 8
def stageApplicationCommitted : UInt8 := 9
def stageStateError : UInt8 := 10

/-- Refine code that reports its progress to an observer. -/
abbrev Observed (O α : Type) := ExceptT GuestError (StateM O) α

namespace Observed

variable {O α β : Type}

/-- What the code returns when its observer starts as `observer`. -/
def outcome (x : Observed O α) (observer : O) : Except GuestError α × O := x observer

/-- Tell the observer that a stage is reached. -/
def stage [RefineObserver O] (number : UInt8) : Observed O Unit :=
  fun observer => (.ok (), RefineObserver.stage number observer)

/-- Code that does not talk to the observer. -/
def quietly (x : Except GuestError α) : Observed O α := fun observer => (x, observer)

/-- Whatever the observer does, the code returns `y`. -/
def Reports (x : Observed O α) (y : Except GuestError α) : Prop :=
  ∀ observer, (x.outcome observer).1 = y

theorem reports_quietly (x : Except GuestError α) : Reports (quietly (O := O) x) x :=
  fun _ => rfl

theorem reports_pure (a : α) : Reports (Pure.pure a : Observed O α) (.ok a) := fun _ => rfl

theorem reports_throw (e : GuestError) : Reports (throw e : Observed O α) (.error e) := fun _ => rfl

/-- Code that fails skips what follows. -/
theorem Reports.error_bind {x : Observed O α} {e : GuestError} {f : α → Observed O β}
    (hx : Reports x (.error e)) : Reports (x >>= f) (.error e) := by
  intro observer
  have hrun := hx observer
  change (ExceptT.bindCont f (x observer).1 (x observer).2).1 = _
  unfold outcome at hrun
  rw [hrun]
  rfl

/-- Code that returns a value hands it on. -/
theorem Reports.ok_bind {x : Observed O α} {a : α} {f : α → Observed O β} {y : Except GuestError β}
    (hx : Reports x (.ok a)) (hf : Reports (f a) y) : Reports (x >>= f) y := by
  intro observer
  have hrun := hx observer
  change (ExceptT.bindCont f (x observer).1 (x observer).2).1 = _
  unfold outcome at hrun
  rw [hrun]
  exact hf _

theorem Reports.bind {x : Observed O α} {y : Except GuestError α} {f : α → Observed O β}
    {g : α → Except GuestError β} (hx : Reports x y) (hf : ∀ a, y = .ok a → Reports (f a) (g a)) :
    Reports (x >>= f) (y >>= g) := by
  cases y with
  | error e => exact hx.error_bind
  | ok a => exact hx.ok_bind (hf a rfl)

/-- A stage changes the observer only. -/
theorem Reports.stage_bind [RefineObserver O] {number : UInt8} {f : Unit → Observed O α}
    {y : Except GuestError α} (hf : Reports (f ()) y) : Reports (stage number >>= f) y :=
  fun observer => hf (RefineObserver.stage number observer)

end Observed

open Observed

section Loop

variable {σ ε M O : Type} [ManagedStateAccess σ] [ExternalStateAccess ε] [RefineObserver O]

/-- One iteration of the loop of `refine_internal_owned_with_observer`. -/
def refineActionWithObserver (setup : BatchSetup M) (batch : Batch σ ε M) (action : Bytes) :
    Observed O (Batch σ ε M) := do
  let actionHash := setup.blake2_256 action
  stage stageApplication
  let ((result, memory), context) := batch.execute setup action
  let external := context.externalState.getD batch.external
  stage stageApplicationDone
  match result with
  | .ok () => do
    stage stageApplicationCommit
    match ManagedStateAccess.commitTransaction context.state with
    | (.error _, _) => do
      stage stageStateError
      throw .state
    | (.ok _, state) => do
      stage stageApplicationCommitted
      pure { state, external, memory
             receipts := batch.receipts ++ [⟨actionHash, .applied, none⟩]
             transitionValidUntil :=
               mergeValidity batch.transitionValidUntil context.transitionValidUntil }
  | .error .missingWitness | .error .invalidProof => do
    let _ ← quietly (closeTransaction ManagedStateAccess.rollbackTransaction context.state)
    throw .state
  | .error (.needState key) => do
    let _ ← quietly (closeTransaction ManagedStateAccess.rollbackTransaction context.state)
    throw (.needState key)
  | .error (.applicationFailed errorCode) =>
    if errorCode &&& fatalBit ≠ 0 then do
      let state ← quietly (closeTransaction ManagedStateAccess.rollbackTransaction context.state)
      pure { state, external, memory
             receipts := batch.receipts ++ [⟨actionHash, .failed, some errorCode⟩]
             transitionValidUntil := batch.transitionValidUntil }
    else do
      let state ← quietly (closeTransaction ManagedStateAccess.commitTransaction context.state)
      pure { state, external, memory
             receipts := batch.receipts ++ [⟨actionHash, .failed, some errorCode⟩]
             transitionValidUntil :=
               mergeValidity batch.transitionValidUntil context.transitionValidUntil }
  | .error (.rejected errorCode) => do
    let state ← quietly (closeTransaction ManagedStateAccess.rollbackTransaction context.state)
    pure { state, external, memory
           receipts := batch.receipts ++ [⟨actionHash, .rejected, some errorCode⟩]
           transitionValidUntil := batch.transitionValidUntil }
  | .error _ => do
    let state ← quietly (closeTransaction ManagedStateAccess.rollbackTransaction context.state)
    pure { state, external, memory
           receipts := batch.receipts ++ [⟨actionHash, .failed, some 1⟩]
           transitionValidUntil := batch.transitionValidUntil }

def refineActionsWithObserver (setup : BatchSetup M) (batch : Batch σ ε M) (actions : List Bytes) :
    Observed O (Batch σ ε M) :=
  actions.foldlM (refineActionWithObserver setup) batch

/-- The code under which the diagnostic loop reports an error that has none. -/
def observerErrorCode : UInt32 := 1

/-- The same batch with other receipts. -/
def Batch.withReceipts (batch : Batch σ ε M) (receipts : List ActionReceiptV1) : Batch σ ε M :=
  { batch with receipts }

/-- One diagnostic iteration is one release iteration, but for the receipt it adds. -/
theorem refineActionWithObserver_reports (setup : BatchSetup M) (batch : Batch σ ε M)
    (receipts : List ActionReceiptV1) (action : Bytes) :
    Reports (refineActionWithObserver (O := O) setup (batch.withReceipts receipts) action)
      (refineAction setup batch action >>= fun next => .ok (next.withReceipts (receipts ++
        [receiptFor observerErrorCode (setup.blake2_256 action)
          (batch.execute setup action).1.1]))) := by
  have hexecute : (batch.withReceipts receipts).execute setup action = batch.execute setup action :=
    rfl
  unfold refineActionWithObserver refineAction
  rw [hexecute]
  generalize batch.execute setup action = run
  obtain ⟨⟨result, memory⟩, context⟩ := run
  dsimp only
  refine Reports.stage_bind (Reports.stage_bind ?_)
  -- an arm that closes the transaction and then goes on without the observer
  have closes : ∀ (method : Method σ Unit) (f : σ → Observed O (Batch σ ε M))
      (g : σ → Except GuestError (Batch σ ε M)) (h : Batch σ ε M → Except GuestError (Batch σ ε M)),
      (∀ state, Reports (f state) (g state >>= h)) →
      Reports (quietly (closeTransaction method context.state) >>= f)
        ((closeTransaction method context.state >>= g) >>= h) := by
    intro method f g h hfg
    have hassoc : ((closeTransaction method context.state >>= g) >>= h) =
        closeTransaction method context.state >>= fun state => g state >>= h := by
      cases closeTransaction method context.state <;> rfl
    rw [hassoc]
    exact (reports_quietly _).bind fun state _ => hfg state
  rcases result with e | ⟨⟩
  · cases e with
    | applicationFailed errorCode =>
      by_cases hfatal : errorCode &&& fatalBit = 0
      · simp only [hfatal, ne_eq, not_true_eq_false, if_false]
        exact closes _ _ _ _ fun state => reports_pure _
      · simp only [hfatal, ne_eq, not_false_eq_true, if_true]
        exact closes _ _ _ _ fun state => reports_pure _
    | missingWitness | invalidProof | needState => exact closes _ _ _ _ fun state => reports_throw _
    | backend | reservedKey | needExternalState | rejected =>
      exact closes _ _ _ _ fun state => reports_pure _
  · refine Reports.stage_bind ?_
    unfold closeTransaction
    rcases ManagedStateAccess.commitTransaction context.state with ⟨_ | _, state⟩
    · exact Reports.stage_bind (reports_throw _)
    · exact Reports.stage_bind (reports_pure _)

/-! ## The whole batch -/

/-- The receipts of a batch whose loop reports errors without a code as `genericCode`. -/
def receiptsFor (genericCode : UInt32) (blake2_256 : Bytes → StateRoot)
    (traces : List ActionTrace) : List ActionReceiptV1 :=
  traces.map fun trace => receiptFor genericCode (blake2_256 trace.action) trace.result

theorem refineActionsWithObserver_reports (setup : BatchSetup M) (actions : List Bytes)
    (batch : Batch σ ε M) (receipts : List ActionReceiptV1) :
    Reports (refineActionsWithObserver (O := O) setup (batch.withReceipts receipts) actions)
      (refineActions setup batch actions >>= fun last => .ok (last.withReceipts (receipts ++
        receiptsFor observerErrorCode setup.blake2_256 (actionTraces setup batch actions)))) := by
  induction actions generalizing batch receipts with
  | nil =>
    rw [actionTraces, receiptsFor, List.map_nil, List.append_nil]
    exact reports_pure _
  | cons action actions ih =>
    unfold refineActionsWithObserver refineActions actionTraces
    rw [List.foldlM_cons, List.foldlM_cons]
    have hstep := refineActionWithObserver_reports (O := O) setup batch receipts action
    cases hnext : refineAction setup batch action with
    | error e =>
      rw [hnext] at hstep
      exact hstep.error_bind
    | ok next =>
      rw [hnext] at hstep
      have hrest := ih next (receipts ++ [receiptFor observerErrorCode (setup.blake2_256 action)
        (batch.execute setup action).1.1])
      rw [List.append_assoc, List.singleton_append] at hrest
      exact hstep.ok_bind hrest

/-- An iteration that does not end the batch adds the release receipt. -/
theorem refineAction_receipts {setup : BatchSetup M} {batch next : Batch σ ε M} {action : Bytes}
    (h : refineAction setup batch action = .ok next) :
    abortError (batch.execute setup action).1.1 = none ∧
      next.receipts = batch.receipts ++
        [receiptFor genericErrorCode (setup.blake2_256 action)
          (batch.execute setup action).1.1] := by
  obtain ⟨habort, _, _, rfl⟩ := refineAction_eq_ok h
  exact ⟨habort, rfl⟩

theorem refineActions_receipts {setup : BatchSetup M} {actions : List Bytes}
    {batch last : Batch σ ε M} (h : refineActions setup batch actions = .ok last) :
    (∀ trace ∈ actionTraces setup batch actions, abortError trace.result = none) ∧
      last.receipts = batch.receipts ++
        receiptsFor genericErrorCode setup.blake2_256 (actionTraces setup batch actions) := by
  induction actions generalizing batch with
  | nil =>
    cases h
    simp [actionTraces, receiptsFor]
  | cons action actions ih =>
    unfold refineActions at h
    rw [List.foldlM_cons] at h
    obtain ⟨next, hnext, hrest⟩ := bind_eq_ok.mp h
    obtain ⟨habort, hreceipts⟩ := refineAction_receipts hnext
    obtain ⟨hall, hlast⟩ := ih hrest
    simp only [actionTraces, hnext, List.forall_mem_cons]
    refine ⟨⟨habort, hall⟩, ?_⟩
    rw [hlast, hreceipts, List.append_assoc]
    rfl

end Loop

/-! ## The two implementations -/

/-- Errors that have no code of their own and do not end the batch. -/
def isCodeless : Except StateAccessError Unit → Bool
  | .error .backend | .error .reservedKey | .error (.needExternalState _ _) => true
  | _ => false

theorem receiptFor_eq_iff {result : Except StateAccessError Unit} (h : abortError result = none)
    (actionHash : StateRoot) :
    receiptFor observerErrorCode actionHash result = receiptFor genericErrorCode actionHash result ↔
      isCodeless result = false := by
  have hcode : observerErrorCode ≠ genericErrorCode := by decide
  rcases result with e | _
  · cases e <;> simp_all [receiptFor, isCodeless, abortError]
  · simp [receiptFor, isCodeless]

section Refine

variable (L : TrieLibrary) {M O : Type} [RefineObserver O] (blake2_256 : Bytes → StateRoot)
  (application : ServiceApplication M) (memory : M) (input : RuntimeRefineInputV1)
  (environment : ExecutionEnvironmentV1)

/-- Open the witness, reporting the stages of the proof to the observer. -/
def openStateWithObserver (witness : ManagedStateWitnessV1) : Observed O (ProofState L) := do
  let state ← fun observer => Prod.map (Except.mapError fun _ => GuestError.state) id
    (ProofState.fromProofWithObserver (L := L) witness.parentRoot witness.storageProof
      RefineObserver.stage observer)
  quietly (preloadPlan witness.accessPlan.keys state)

def refineInternalOwnedWithObserver : Observed O RefineTransition := do
  quietly (ensure (input.version = 1 ∧ input.managedState.version = 1) GuestError.invalidInput)
  let external ← quietly (ExternalProofStates.fromInput (L := L) input.externalState)
  let state ← openStateWithObserver L input.managedState
  let parentRoot := state.root
  let batch ← refineActionsWithObserver
    ⟨blake2_256, application, input.managedState.accessPlan, environment⟩
    ⟨state, external, memory, [], none⟩ input.actions
  stage stageFinish
  let (newRoot, diff) ← quietly (batch.state.finish.mapError fun _ => GuestError.state)
  stage stageFinishDone
  pure { parentRoot, newRoot, receipts := batch.receipts, diff
         transitionValidUntil := batch.transitionValidUntil
         dependencies := externalDependencies input.externalState }

theorem openStateWithObserver_reports (witness : ManagedStateWitnessV1) :
    Reports (openStateWithObserver (O := O) L witness) (openState L witness) := by
  refine Reports.bind (fun observer => ?_) fun state _ => reports_quietly _
  unfold outcome ProofState.fromWitness ProofState.fromProofWithObserver
  dsimp only [Prod.map]
  cases L.get (L.intoMemoryDb witness.storageProof) witness.parentRoot [] <;> rfl

/-- The same transition with other receipts. -/
def RefineTransition.withReceipts (transition : RefineTransition)
    (receipts : List ActionReceiptV1) : RefineTransition :=
  { transition with receipts }

/-- The diagnostic implementation returns what the release one returns, with its own receipts. -/
theorem refineInternalOwnedWithObserver_reports :
    Reports (refineInternalOwnedWithObserver (O := O) L blake2_256 application memory
      input environment)
      (refineInternal L blake2_256 application memory input environment >>= fun transition =>
        .ok (transition.withReceipts (receiptsFor observerErrorCode blake2_256
          (refineTraces L blake2_256 application memory input environment)))) := by
  unfold refineInternal
  simp only [bind_assoc]
  refine (reports_quietly _).bind fun _ _ => ?_
  refine (reports_quietly _).bind fun external hexternal => ?_
  refine (openStateWithObserver_reports L input.managedState).bind fun state hstate => ?_
  have hopen : openBatch L memory input = .ok ⟨state, external, memory, [], none⟩ := by
    rw [openBatch, hexternal, hstate]
    rfl
  have hloop := refineActionsWithObserver_reports (O := O)
    ⟨blake2_256, application, input.managedState.accessPlan, environment⟩ input.actions
    ⟨state, external, memory, [], none⟩ []
  unfold refineTraces
  rw [hopen]
  cases hbatch : refineActions ⟨blake2_256, application, input.managedState.accessPlan, environment⟩
      ⟨state, external, memory, [], none⟩ input.actions with
  | error e =>
    rw [hbatch] at hloop
    exact hloop.error_bind
  | ok batch =>
    rw [hbatch] at hloop
    refine hloop.ok_bind (Reports.stage_bind ?_)
    exact (reports_quietly _).bind fun finished _ => Reports.stage_bind (reports_pure _)

/-- The release receipts of a successful refine, and that none of its actions ended the batch. -/
theorem refineInternal_receipts {transition : RefineTransition}
    (h : refineInternal L blake2_256 application memory input environment = .ok transition) :
    (∀ trace ∈ refineTraces L blake2_256 application memory input environment,
        abortError trace.result = none) ∧
      transition.receipts = receiptsFor genericErrorCode blake2_256
        (refineTraces L blake2_256 application memory input environment) := by
  obtain ⟨⟨opened, hopen⟩, batch, hloop, _, _, htransition⟩ := refineInternal_eq_ok h
  obtain ⟨hall, hreceipts⟩ := refineActions_receipts hloop
  rw [htransition, refineTraces_eq hopen]
  exact ⟨hall, hreceipts⟩

/-- The diagnostic and the release implementation return the same result exactly when the release
one fails or no action of its batch ends in an error without a code. -/
theorem observer_agrees_iff (observer : O) :
    ((refineInternalOwnedWithObserver L blake2_256 application memory input environment).outcome
        observer).1 = refineInternal L blake2_256 application memory input environment ↔
      ∀ transition, refineInternal L blake2_256 application memory input environment =
        .ok transition →
        ∀ trace ∈ refineTraces L blake2_256 application memory input environment,
          isCodeless trace.result = false := by
  rw [refineInternalOwnedWithObserver_reports L blake2_256 application memory input
    environment observer]
  cases hrefine : refineInternal L blake2_256 application memory input environment with
  | error e => simp [Bind.bind, Except.bind]
  | ok transition =>
    obtain ⟨hall, hreceipts⟩ := refineInternal_receipts L blake2_256 application memory input
      environment hrefine
    have hsame : ∀ receipts, (Except.ok (transition.withReceipts receipts) :
        Except GuestError RefineTransition) = .ok transition ↔ receipts = transition.receipts := by
      intro receipts
      rw [Except.ok.injEq]
      constructor
      · exact fun heq => congrArg RefineTransition.receipts heq
      · rintro rfl
        rfl
    refine (hsame _).trans ?_
    rw [hreceipts, receiptsFor, receiptsFor, List.map_inj_left]
    constructor
    · intro heq _ _ trace hmem
      exact (receiptFor_eq_iff (hall trace hmem) _).mp (heq trace hmem)
    · intro hcodes trace hmem
      exact (receiptFor_eq_iff (hall trace hmem) _).mpr (hcodes transition rfl trace hmem)

end Refine

/-! ### A read of a service without a witness

`readForeign` reads a key of service 9. Without a witness for that service the read is a backend
error, and the two implementations write different receipts.
-/

def readForeign : ServiceApplication Unit := fun action => do
  let _ ← Fallible.ask (.externalGet 9 action) id
  pure ()

/-- An observer that counts the stages it has seen. -/
instance : RefineObserver Nat where
  stage _ count := count + 1

theorem observer_disagrees :
    refineInternal (leafTrie storeHash) storeHash readForeign ()
      (storeInput [[7]]) zeroEnvironment =
        .ok { parentRoot := emptyStateRootV1
              newRoot := emptyStateRootV1
              receipts := [⟨storeActionHash, .failed, some 0x80000001⟩]
              diff := ⟨[]⟩
              transitionValidUntil := none
              dependencies := [] } ∧
      (refineInternalOwnedWithObserver (leafTrie storeHash) storeHash readForeign ()
        (storeInput [[7]])
          zeroEnvironment).outcome 0 =
        (.ok { parentRoot := emptyStateRootV1
               newRoot := emptyStateRootV1
               receipts := [⟨storeActionHash, .failed, some 1⟩]
               diff := ⟨[]⟩
               transitionValidUntil := none
               dependencies := [] }, 7) := by
  decide +kernel

end JamScript
