import JamScript.Backend.Coordination
import JamScript.Backend.SubmitActions
import JamScript.Guest.Nonces

/-!
# Transactions that share a batch

Before a batch goes to the network, `submit_actions` checks the request (the service and its code
hash, the finalized context the request was made for, the network of every action), plans the batch,
builds its witnesses and refines it. A batch has the parameters of its first transaction, one action
of another network fails the whole batch, and so does one that cannot be planned or refined together
with the others. So the outcome for a batch says little about its transactions one by one:
`cobatched_isolation_iff` says when they agree.
-/

namespace JamScript

open Codec OrderedMap TransactionCoordinatorState

/-- What the checks of a submission look at. -/
structure SubmitView where
  backend : SubmitBackend
  /-- The code hash in the record of a registered service. -/
  codeHash : UInt32 → Except BackendError StateRoot
  isCorrupt : UInt32 → Bool
  finalizedContext : Except BackendError FinalizedContextV1
  /-- Load the guest of a service. -/
  loadPvm : UInt32 → Except BackendError Unit

section Checks

/-- `.map(parse_hash).transpose()?.ok_or(StaleContext)?` -/
def requestedHash : Option Bytes → Except BackendError StateRoot
  | some text => parseHash text
  | none => .error .staleContext

def checkContext (context : FinalizedContextV1) (request : RequestContext) :
    Except BackendError Unit := do
  let requestedBlock ← requestedHash request.blockHash
  let requestedRoot ← requestedHash request.stateRoot
  let requestedSlot ← (match request.slot with
    | some slot => .ok slot
    | none => .error .staleContext : Except BackendError UInt32)
  ensure (requestedBlock = context.blockHash ∧ requestedRoot = context.stateRoot ∧
    requestedSlot = context.slot) BackendError.staleContext

variable (view : SubmitView)

/-- The checks of the parameters, up to loading the guest of the service that they name. -/
def checkParams (params : RequestParams) : Except BackendError UInt32 := do
  let serviceId ← (match params.serviceId with
    | some serviceId => .ok serviceId
    | none => .error (.rpc "serviceId must be a u32") : Except BackendError UInt32)
  let codeHash ← (match params.serviceCodeHash with
    | some text => parseHash text
    | none => .error (.rpc "serviceCodeHash is required") : Except BackendError StateRoot)
  let recorded ← view.codeHash serviceId
  ensure (view.isCorrupt serviceId = false) (BackendError.serviceCorrupt serviceId)
  ensure (recorded = codeHash) BackendError.codeHashMismatch
  let context ← view.finalizedContext
  (match params.context with
    | some request => checkContext context request
    | none => pure ())
  view.loadPvm serviceId
  pure serviceId

/-- What `submit_actions` does before the network is asked: the checks, then planning, witnesses and
refinement of the batch. -/
def preSubmit (params : RequestParams) (actions : List Bytes) :
    Except BackendError RuntimeRefineOutputV1 := do
  let serviceId ← checkParams view params
  predict view.backend serviceId actions

/-- The transaction can be submitted on its own. -/
def Submittable (item : PendingAction) : Prop :=
  ∃ prediction, preSubmit view item.params [item.action] = .ok prediction

/-- How `submit_actions` hands on an error that comes before the network is asked. -/
def notSubmittedError : BackendError → BackendError
  | .staleContext => .staleContext
  | .guestFault fault => .notSubmittedGuestFault fault
  | .pvmOutOfGas => .notSubmittedPvmOutOfGas
  | error => .notSubmitted error

/-- The batch before the network is asked: one that fails is resolved with the error. -/
def resolvePreSubmit (describe : BackendError → String) (batch : BatchToSubmit)
    (s : TransactionCoordinatorState) : TransactionCoordinatorState :=
  match preSubmit view batch.params batch.actions with
  | .ok _ => s
  | .error error => resolveBatch describe batch.batchId (.error (notSubmittedError error)) s

end Checks

/-! ## A batch and its transactions -/

section Isolation

variable {view : SubmitView}

/-- The extrinsics are not looked at. -/
theorem checkParams_extrinsics (params : RequestParams) (extrinsicsBase64 : List Bytes) :
    checkParams view { params with extrinsicsBase64 } = checkParams view params := rfl

theorem signerKeys_isOk_iff (actions : List Bytes) :
    (∃ keys, signerKeys view.backend actions = .ok keys) ↔
      ∀ action ∈ actions, ∃ key, signerKey view.backend action = .ok key := by
  suffices h : ∀ start : List Bytes, (∃ keys, actions.foldlM (fun keys action => do
      match ← signerKey view.backend action with
      | some key => pure (if key ∈ keys then keys else keys ++ [key])
      | none => pure keys) start = Except.ok keys) ↔
        ∀ action ∈ actions, ∃ key, signerKey view.backend action = .ok key from h []
  induction actions with
  | nil => simp [Pure.pure, Except.pure]
  | cons action rest ih =>
    intro start
    rw [List.foldlM_cons, List.forall_mem_cons]
    cases hkey : signerKey view.backend action with
    | error error => simp [Bind.bind, Except.bind]
    | ok key =>
      cases key with
      | none => exact ⟨fun hkeys => ⟨⟨_, rfl⟩, (ih start).mp hkeys⟩, fun hall =>
        (ih start).mpr hall.2⟩
      | some key => exact ⟨fun hkeys => ⟨⟨_, rfl⟩, (ih _).mp hkeys⟩, fun hall => (ih _).mpr hall.2⟩

/-- A batch passes if the parameters do, every action is for this network, and the actions can be
planned and refined together. -/
theorem preSubmit_isOk_iff (params : RequestParams) (actions : List Bytes) :
    (∃ prediction, preSubmit view params actions = .ok prediction) ↔
      ∃ serviceId, checkParams view params = .ok serviceId ∧
        (∀ action ∈ actions, ∃ key, signerKey view.backend action = .ok key) ∧
        ∀ keys, signerKeys view.backend actions = .ok keys →
          ∃ prediction, planAndRefine view.backend serviceId actions keys = .ok prediction := by
  simp only [← signerKeys_isOk_iff]
  constructor
  · rintro ⟨prediction, h⟩
    obtain ⟨serviceId, hparams, h⟩ := bind_eq_ok.mp h
    obtain ⟨keys, hkeys, h⟩ := bind_eq_ok.mp h
    refine ⟨serviceId, hparams, ⟨keys, hkeys⟩, fun other hother => ?_⟩
    cases hkeys.symm.trans hother
    exact ⟨prediction, h⟩
  · rintro ⟨serviceId, hparams, ⟨keys, hkeys⟩, h⟩
    obtain ⟨prediction, h⟩ := h keys hkeys
    exact ⟨prediction, bind_eq_ok.mpr ⟨serviceId, hparams, bind_eq_ok.mpr ⟨keys, hkeys, h⟩⟩⟩

/-- An error before the network is asked fails the batch, whatever it is. -/
theorem resolveBatch_notSubmitted (describe : BackendError → String) (error : BackendError)
    (batchId : BatchId) (s : TransactionCoordinatorState) :
    ∃ message info, resolveBatch describe batchId (.error (notSubmittedError error)) s =
      s.failBatchWithInfo batchId message info := by
  cases error <;> exact ⟨_, _, rfl⟩

/-- A batch that is handed out is the one that has just been opened, with the parameters of its
first transaction. -/
theorem takeReadyBatch_some {limits : CoordinatorLimits} {now : ℕ} {serviceId : UInt32}
    {expectedNonces : Std.ExtTreeMap (FixedBytes 32) UInt64} {finalizedSlot : UInt64}
    {s s' : TransactionCoordinatorState} {batch : BatchToSubmit}
    (h : s.takeReadyBatch limits now serviceId expectedNonces finalizedSlot = (some batch, s')) :
    let division := divide limits.maxActions expectedNonces finalizedSlot (s.queue serviceId)
    Takes serviceId division s s' ∧ ∃ first, division.selected.head? = some first ∧
      batch = batchOf s.nextBatchId first division.selected := by
  obtain ⟨flushDeadlines, hsame⟩ | ⟨next, htakes, hresult⟩ :=
    takeReadyBatch_cases limits now serviceId s expectedNonces finalizedSlot
  · rw [hsame] at h
    cases h
  · rw [hresult, Prod.mk.injEq, Option.map_eq_some_iff] at h
    obtain ⟨⟨first, hfirst, hbatch⟩, rfl⟩ := h
    exact ⟨htakes, first, hfirst, hbatch.symm⟩

/-- For every batch that the coordinator forms in a run with distinct identifiers: every transaction
that can be submitted on its own is left without an error before the network is asked, exactly when
no transaction can be submitted on its own, or the first transaction's parameters pass, all actions
are for this network, and they can be planned and refined together. -/
theorem cobatched_isolation_iff (view : SubmitView) (describe : BackendError → String)
    (limits : CoordinatorLimits) (blake2_256 : Bytes → StateRoot) (ops : List CoordinatorOp)
    (hdistinct : Coordination.DistinctIds describe limits blake2_256 .initial ops)
    {now : ℕ} {serviceId : UInt32} {expectedNonces : Std.ExtTreeMap (FixedBytes 32) UInt64}
    {finalizedSlot : UInt64} {batch : BatchToSubmit} {s' : TransactionCoordinatorState}
    (htake : (Coordination.initial.run describe limits blake2_256 ops).coordinator.takeReadyBatch
      limits now
      serviceId expectedNonces finalizedSlot = (some batch, s')) :
    let selected := (divide limits.maxActions expectedNonces finalizedSlot
      ((Coordination.initial.run
        describe limits blake2_256 ops).coordinator.queue serviceId)).selected
    let actions := selected.map PendingAction.action
    (∀ item ∈ selected, Submittable view item →
        ∃ transaction : LogicalTransaction,
          (resolvePreSubmit view describe batch s').transactions[item.logicalId]? =
          some transaction ∧
            transaction.error = none) ↔
      (∀ item ∈ selected, ¬ Submittable view item) ∨
      ∃ first requestedId, selected.head? = some first ∧ checkParams view first.params =
      .ok requestedId ∧
        (∀ action ∈ actions, ∃ key, signerKey view.backend action = .ok key) ∧
        ∀ keys, signerKeys view.backend actions = .ok keys →
          ∃ prediction, planAndRefine view.backend requestedId actions keys = .ok prediction := by
  intro selected actions
  set s := (Coordination.initial.run describe limits blake2_256 ops).coordinator
  have hs : Conserved limits s :=
    (Coordination.Consistent.initial.run describe blake2_256 ops hdistinct).conserved
  obtain ⟨htakes, first, hfirst, hbatch⟩ := takeReadyBatch_some htake
  have hs' : Conserved limits s' := hs.takes htakes
  have hopened := htakes.opened_of_selected (fun hnone => by rw [hnone] at hfirst; cases hfirst)
  -- every selected transaction is in the batch, without an error so far
  have hrecord : ∀ item ∈ selected, ∃ transaction : LogicalTransaction,
      s'.transactions[item.logicalId]? = some transaction ∧ transaction.error = none := by
    intro item hitem
    obtain ⟨index, hindex⟩ := List.mem_iff_getElem?.mp hitem
    obtain ⟨queued, hqueued, hwaits⟩ := hs.queued serviceId item
      ((htakes.mem_queue_iff item).mpr (.inl (List.mem_append_right _ hitem)))
    refine ⟨assign s.nextBatchId index queued, ?_, hwaits.error⟩
    rw [htakes.record_selected (hs.queuedOnce serviceId) hindex, hqueued]
    rfl
  have hpasses : (∃ prediction, preSubmit view batch.params batch.actions = .ok prediction) ↔
      ∃ other requestedId, selected.head? = some other ∧ checkParams view other.params =
      .ok requestedId ∧
        (∀ action ∈ actions, ∃ key, signerKey view.backend action = .ok key) ∧
        ∀ keys, signerKeys view.backend actions = .ok keys →
          ∃ prediction, planAndRefine view.backend requestedId actions keys = .ok prediction := by
    rw [preSubmit_isOk_iff, hbatch, batchOf]
    dsimp only
    rw [checkParams_extrinsics]
    constructor
    · rintro ⟨requestedId, hrest⟩
      exact ⟨first, requestedId, hfirst, hrest⟩
    · rintro ⟨other, requestedId, hother, hrest⟩
      cases hfirst.symm.trans hother
      exact ⟨requestedId, hrest⟩
  rw [← hpasses]
  cases hresult : preSubmit view batch.params batch.actions with
  | ok prediction =>
    refine iff_of_true (fun item hitem _ => ?_) (.inr ⟨prediction, rfl⟩)
    rw [resolvePreSubmit, hresult]
    exact hrecord item hitem
  | error error =>
    -- the batch fails, and all its transactions with it
    have hfailed : ∀ item ∈ selected, ∀ transaction : LogicalTransaction,
        (resolvePreSubmit view describe batch s').transactions[item.logicalId]? = some transaction →
          transaction.error ≠ none := by
      intro item hitem transaction htransaction
      obtain ⟨message, info, hfail⟩ := resolveBatch_notSubmitted describe error batch.batchId s'
      rw [resolvePreSubmit, hresult] at htransaction
      dsimp only at htransaction
      rw [hfail] at htransaction
      have hid : batch.batchId = s.nextBatchId := by rw [hbatch, batchOf]
      have hopen : s'.batches[batch.batchId]? = some (Takes.opens serviceId
          (divide limits.maxActions expectedNonces finalizedSlot (s.queue serviceId))) :=
          hid ▸ hopened
      have hrecords : (s'.failBatchWithInfo batch.batchId message info).transactions =
          (s'.modifyTransactions (selected.map PendingAction.logicalId)
            (failOnce message info)).transactions := by
        rw [failBatchWithInfo, hopen]
        rfl
      have hnodup : (selected.map PendingAction.logicalId).Nodup := (hs'.batchKnown _ _ hopen).2
      rw [hrecords, transactions_modifyTransactions_of_mem hnodup (List.mem_map_of_mem hitem),
        Option.map_eq_some_iff] at htransaction
      obtain ⟨old, -, rfl⟩ := htransaction
      exact failOnce_error_ne_none message info old
    constructor
    · refine fun hisolated => .inl fun item hitem halone => ?_
      obtain ⟨transaction, htransaction, herror⟩ := hisolated item hitem halone
      exact hfailed item hitem transaction htransaction herror
    · rintro (hnone | hok) item hitem halone
      · exact absurd halone (hnone item hitem)
      · obtain ⟨prediction, hprediction⟩ := hok
        cases hprediction

end Isolation

/-! ### A stale first transaction -/

def pairCodeHash : StateRoot := List.Vector.replicate 32 5

/-- The finalized context of the network. -/
def latestContext : FinalizedContextV1 :=
  ⟨List.Vector.replicate 32 8, 12, List.Vector.replicate 32 6, 30⟩

/-- Service 7 is registered, its guest does nothing, and the network's domain is not zero. -/
def pairView : SubmitView where
  backend := { sweepBackend 0 with networkDomain := List.Vector.replicate 32 1 }
  codeHash serviceId := if serviceId = 7 then .ok pairCodeHash else .error .registry
  isCorrupt _ := false
  finalizedContext := .ok latestContext
  loadPvm _ := .ok ()

def pairContext (slot : UInt32) : RequestContext :=
  ⟨some (hashHex latestContext.blockHash.toList), some (hashHex latestContext.stateRoot.toList),
    some slot⟩

/-- Parameters of a request made at a slot. -/
def pairParams (slot : UInt32) : RequestParams :=
  ⟨some 7, some (hashHex pairCodeHash.toList), some (pairContext slot), []⟩

/-- The first transaction was made at slot 29, the second one at slot 30, which is the latest. The
checks fail four times, and then the thread gives up. -/
def staleFirstOps : List CoordinatorOp :=
  [.enqueue 0 7 [1] (pairParams 29), .enqueue 0 7 [2] (pairParams 30), .take 0 7 ∅ 0,
    .attempt false (.error .staleContext), .attempt false (.error .staleContext),
    .attempt false (.error .staleContext), .attempt false (.error .staleContext), .resolve]

/-- The second transaction can be submitted, but ends with an error because of the context of the
first; and an action for another network stops one that is for no network at all. -/
theorem stale_first_fails_second :
    let c := Coordination.initial.run (fun _ => "") pairLimits idHash (staleFirstOps.take 3)
    (match c.dispatcher with
      | .submitting batch _ => some (preSubmit pairView batch.params batch.actions)
      | _ => none) = some (.error .staleContext) ∧
    (preSubmit pairView (pairParams 30) [[2]]).isOk ∧
    ((Coordination.initial.run (fun _ => "") pairLimits idHash
        staleFirstOps).coordinator.transactions[secondId]?).map LogicalTransaction.error =
      some (some "STALE_CONTEXT") ∧
    preSubmit pairView (pairParams 30) [[2], pingAction] = .error .wrongNetwork := by
  decide +kernel

/-- Both transactions were made at the latest slot. -/
def freshOps : List CoordinatorOp :=
  [.enqueue 0 7 [1] (pairParams 30), .enqueue 0 7 [2] (pairParams 30)]

theorem cobatched_isolation_fresh :
    let s := (Coordination.initial.run (fun _ => "") pairLimits idHash freshOps).coordinator
    let selected := (divide pairLimits.maxActions ∅ 0 (s.queue 7)).selected
    let taken := s.takeReadyBatch pairLimits 0 7 ∅ 0
    selected.map PendingAction.logicalId = [firstId, secondId] ∧
      ∃ batch, taken.1 = some batch ∧
        ∀ item ∈ selected, Submittable pairView item →
          ∃ transaction : LogicalTransaction,
            (resolvePreSubmit pairView (fun _ => "") batch taken.2).transactions[item.logicalId]? =
              some transaction ∧ transaction.error = none := by
  intro s selected taken
  have hdistinct : Coordination.DistinctIds (fun _ => "") pairLimits idHash .initial freshOps := by
    refine ⟨?_, ?_, trivial⟩
    · rintro _ _ _ _ ⟨⟩
      decide +kernel
    · rintro _ _ _ _ ⟨⟩
      decide +kernel
  have hactions : selected.map PendingAction.action = [[1], [2]] := by decide +kernel
  obtain ⟨first, hfirst⟩ : ∃ first, selected.head? = some first := by
    refine Option.isSome_iff_exists.mp ?_
    decide +kernel
  have hparams : first.params = pairParams 30 := by
    have hhead : selected.head?.map PendingAction.params = some (pairParams 30) := by decide +kernel
    rw [hfirst] at hhead
    exact Option.some.inj hhead
  refine ⟨by decide +kernel, ⟨0, [[1], [2]], pairParams 30, []⟩, by decide +kernel, ?_⟩
  refine (cobatched_isolation_iff pairView (fun _ => "") pairLimits idHash freshOps hdistinct
    (Prod.ext (by decide +kernel) rfl : s.takeReadyBatch pairLimits 0 7 ∅ 0 = (some _, _))).mpr
    (.inr ⟨first, 7, hfirst, by rw [hparams]; decide +kernel, ?_, ?_⟩)
  · rw [hactions]
    have hkeys : ∀ action ∈ [[1], [2]], signerKey pairView.backend action =
    .ok none := by decide +kernel
    exact fun action haction => ⟨none, hkeys action haction⟩
  · rw [hactions]
    intro keys hkeys
    have hnone : signerKeys pairView.backend [[1], [2]] = .ok [] := by decide +kernel
    cases hnone.symm.trans hkeys
    have hrefined : (planAndRefine pairView.backend 7 [[1], [2]] []).isOk =
    true := by decide +kernel
    cases hresult : planAndRefine pairView.backend 7 [[1], [2]] [] with
    | ok prediction => exact ⟨prediction, rfl⟩
    | error error =>
      rw [hresult] at hrefined
      cases hrefined

end JamScript
