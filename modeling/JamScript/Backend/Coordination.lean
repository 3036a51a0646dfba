import JamScript.Backend.Conservation
import JamScript.State.LeafTrie

/-!
# Dispatching batches

One thread takes a batch, hands its actions to the network and records the answer. An answer that
says that the request was made against an old context is tried again, up to three times; every other
answer ends the submission, and `resolveBatch` says what it means for the batch.

`Coordination` is the coordinator with that thread, the works it handed to the network and, for
reference, the action each transaction was admitted with. Between any two steps of the thread the
other operations of the coordinator may happen, on any batch.
-/

namespace JamScript

open Codec OrderedMap TransactionCoordinatorState

/-- What a submission returns: the package hash of the response, if it is a text, and the
prediction. -/
abbrev SubmitResult := Except BackendError (Option Bytes × RuntimeRefineOutputV1)

def maxStaleContextRetries : ℕ := 3

section Dispatcher

-- the text of an error
variable (describe : BackendError → String)

/-- The end of a submission. Only answers that say that no work exists fail the batch; all others
leave it locked. -/
def resolveBatch (batchId : BatchId) (result : SubmitResult) (s : TransactionCoordinatorState) :
    TransactionCoordinatorState :=
  match result with
  | .ok (packageHash, prediction) =>
    match packageHash.map parseHash with
    | some (.ok packageHash) => s.finishBatch batchId packageHash prediction
    | none => s.markBatchSubmissionUnknown batchId
        "Formal may have accepted the Work but omitted packageHash"
    | some (.error error) => s.markBatchSubmissionUnknown batchId
        ("Formal may have accepted the Work but returned an invalid packageHash: " ++
          describe error)
  | .error .staleContext => s.failBatch batchId "STALE_CONTEXT"
  | .error (.notSubmitted cause) => s.failBatch batchId (describe cause)
  | .error (.notSubmittedGuestFault fault) =>
    s.failBatchWithInfo batchId (fault.code ++ ": " ++ fault.message) (some (.guestFault fault))
  | .error .notSubmittedPvmOutOfGas =>
    s.failBatchWithInfo batchId "PVM_OUT_OF_GAS: local guest preflight exceeded its gas budget"
      (some .pvmOutOfGas)
  | .error (.queueFull retryAfterMs) =>
    s.failBatch batchId ("QUEUE_FULL: retry after " ++ toString retryAfterMs ++ " ms")
  | .error error =>
    s.markBatchSubmissionUnknown batchId ("submission outcome unknown: " ++ describe error)

/-- Where the thread is in `dispatch_ready_batches`. -/
inductive Dispatcher where
  | idle
  | submitting (batch : BatchToSubmit) (staleContextRetries : ℕ)
  | resolving (batchId : BatchId) (result : SubmitResult)

/-- The thread after an attempt. -/
def Dispatcher.afterAttempt (batch : BatchToSubmit) (staleContextRetries : ℕ)
    (result : SubmitResult) :
    Dispatcher :=
  match result with
  | .error .staleContext =>
    if staleContextRetries < maxStaleContextRetries then .submitting batch (staleContextRetries + 1)
    else .resolving batch.batchId result
  | _ => .resolving batch.batchId result

theorem Dispatcher.afterAttempt_cases (batch : BatchToSubmit) (retries : ℕ)
    (result : SubmitResult) :
    afterAttempt batch retries result = .submitting batch (retries + 1) ∨
      afterAttempt batch retries result = .resolving batch.batchId result := by
  unfold afterAttempt
  split
  · split
    · exact .inl rfl
    · exact .inr rfl
  · exact .inr rfl

/-- Actions handed to the network. -/
structure Work where
  batchId : BatchId
  actions : List Bytes
  accepted : Bool

structure Coordination where
  coordinator : TransactionCoordinatorState
  dispatcher : Dispatcher
  works : List Work
  /-- The action of each transaction that was admitted. -/
  admittedActions : Std.ExtTreeMap TransactionId Bytes

inductive CoordinatorOp where
  | enqueue (now : ℕ) (serviceId : UInt32) (action : Bytes) (params : RequestParams)
  | take (now : ℕ) (serviceId : UInt32) (expectedNonces : Std.ExtTreeMap (FixedBytes 32) UInt64)
      (finalizedSlot : UInt64)
  | attempt (accepted : Bool) (result : SubmitResult)
  | resolve
  | finish (batchId : BatchId) (packageHash : StateRoot) (prediction : RuntimeRefineOutputV1)
  | fail (batchId : BatchId) (error : String) (errorInfo : Option ErrorInfo)
  | submissionUnknown (batchId : BatchId) (error : String)
  | materialize (batchId : BatchId)
  | bestIncluded (logicalId : TransactionId)
  | recordStatus (batchId : BatchId) (status : String)

/-- What an operation writes into the batch it names. -/
def CoordinatorOp.edit? : CoordinatorOp → Option (BatchId × BatchEdit)
  | .finish batchId packageHash prediction => some (batchId, finishEdit packageHash prediction)
  | .fail batchId error errorInfo => some (batchId, failEdit error errorInfo)
  | .submissionUnknown batchId error => some (batchId, unknownEdit error)
  | .materialize batchId => some (batchId, materializeEdit)
  | .recordStatus batchId status => some (batchId, statusEdit status)
  | .enqueue .. | .take .. | .attempt .. | .resolve | .bestIncluded _ => none

/-- The thread is not where the step would take it on. -/
def CoordinatorOp.Unready (dispatcher : Dispatcher) : CoordinatorOp → Prop
  | .attempt .. => ∀ batch retries, dispatcher ≠ .submitting batch retries
  | .resolve => ∀ batchId result, dispatcher ≠ .resolving batchId result
  | _ => False

/-- The end of a submission is an edit of its batch. The package becomes known only if the answer
names it. -/
theorem resolveBatch_edit (batchId : BatchId) (result : SubmitResult) :
    ∃ edit : BatchEdit, (∀ s, resolveBatch describe batchId result s = edit.apply batchId s) ∧
      ∀ batch, (edit.next batch).packageHash = batch.packageHash ∨ ∃ text prediction packageHash,
        result = .ok (some text, prediction) ∧ parseHash text = .ok packageHash ∧
          (edit.next batch).packageHash = some packageHash := by
  rcases result with error | ⟨_ | text, prediction⟩
  · cases error <;> first
      | exact ⟨failEdit _ _, fun s => failBatchWithInfo_eq s batchId _ _, fun _ => .inl rfl⟩
      | exact ⟨unknownEdit _, fun s => markBatchSubmissionUnknown_eq s batchId _, fun _ => .inl rfl⟩
  · exact ⟨unknownEdit _, fun s => markBatchSubmissionUnknown_eq s batchId _, fun _ => .inl rfl⟩
  · cases hparse : parseHash text with
    | error error =>
      simp only [resolveBatch, Option.map_some, hparse]
      exact ⟨unknownEdit _, fun s => markBatchSubmissionUnknown_eq s batchId _, fun _ => .inl rfl⟩
    | ok packageHash =>
      refine ⟨finishEdit packageHash prediction, fun s => ?_,
        fun _ => .inr ⟨text, prediction, packageHash, rfl, hparse, rfl⟩⟩
      simp only [resolveBatch, Option.map_some, hparse]
      exact finishBatch_eq s batchId packageHash prediction

namespace Coordination

def initial : Coordination := ⟨.initial, .idle, [], ∅⟩

variable (limits : CoordinatorLimits) (blake2_256 : Bytes → StateRoot)

/-- A step of the thread that it is not ready for does nothing. -/
def step (c : Coordination) : CoordinatorOp → Coordination
  | .enqueue now serviceId action params =>
    match c.coordinator.enqueue limits blake2_256 now serviceId action params with
    | (.ok logicalId, coordinator) =>
      { c with coordinator, admittedActions := c.admittedActions.insert logicalId action }
    | (.error _, coordinator) => { c with coordinator }
  | .take now serviceId expectedNonces finalizedSlot =>
    match c.dispatcher with
    | .idle =>
      match c.coordinator.takeReadyBatch limits now serviceId expectedNonces finalizedSlot with
      | (some batch, coordinator) => { c with coordinator, dispatcher := .submitting batch 0 }
      | (none, coordinator) => { c with coordinator }
    | _ => c
  | .attempt accepted result =>
    match c.dispatcher with
    | .submitting batch retries =>
      { c with
        works := c.works ++ [⟨batch.batchId, batch.actions, accepted⟩]
        dispatcher := .afterAttempt batch retries result }
    | _ => c
  | .resolve =>
    match c.dispatcher with
    | .resolving batchId result =>
      { c with
        coordinator := resolveBatch describe batchId result c.coordinator
        dispatcher := .idle }
    | _ => c
  | .finish batchId packageHash prediction =>
    { c with coordinator := c.coordinator.finishBatch batchId packageHash prediction }
  | .fail batchId error errorInfo =>
    { c with coordinator := c.coordinator.failBatchWithInfo batchId error errorInfo }
  | .submissionUnknown batchId error =>
    { c with coordinator := c.coordinator.markBatchSubmissionUnknown batchId error }
  | .materialize batchId => { c with coordinator := c.coordinator.markMaterialized batchId }
  | .bestIncluded logicalId => { c with coordinator := c.coordinator.markBestIncluded logicalId }
  | .recordStatus batchId status =>
    { c with coordinator := c.coordinator.recordBatchStatus batchId status }

def run (c : Coordination) (ops : List CoordinatorOp) : Coordination :=
  ops.foldl (step describe limits blake2_256) c

theorem step_enqueue (c : Coordination) (now : ℕ)
    (serviceId : UInt32) (action : Bytes) (params : RequestParams) :
    let c' := c.step describe limits blake2_256 (.enqueue now serviceId action params)
    c'.coordinator = (c.coordinator.enqueue limits blake2_256 now serviceId action params).2 ∧
      c'.dispatcher = c.dispatcher ∧ c'.works = c.works := by
  intro c'
  simp only [c', step]
  split
  next hresult => exact ⟨congrArg Prod.snd hresult.symm, rfl, rfl⟩
  next hresult => exact ⟨congrArg Prod.snd hresult.symm, rfl, rfl⟩

/-- Nothing but deadlines changes, or the idle thread starts on the batch that is taken, if there is
one. -/
theorem step_take (c : Coordination) (now : ℕ) (serviceId : UInt32)
    (expectedNonces : Std.ExtTreeMap (FixedBytes 32) UInt64) (finalizedSlot : UInt64) :
    let c' := c.step describe limits blake2_256 (.take now serviceId expectedNonces finalizedSlot)
    (∃ flushDeadlines, c' = { c with coordinator := { c.coordinator with flushDeadlines } }) ∨
    c.dispatcher = .idle ∧ ∃ division : Division,
      division = divide limits.maxActions expectedNonces finalizedSlot
      (c.coordinator.queue serviceId) ∧
      Takes serviceId division c.coordinator c'.coordinator ∧ c'.works = c.works ∧
      c'.admittedActions = c.admittedActions ∧
      (division.selected = [] ∧ c'.dispatcher = .idle ∨
        ∃ first rest, division.selected = first :: rest ∧
          c'.dispatcher =
            .submitting (batchOf c.coordinator.nextBatchId first division.selected) 0) := by
  intro c'
  obtain ⟨s, dispatcher, works, admittedActions⟩ := c
  cases dispatcher with
  | submitting _ _ => exact .inl ⟨s.flushDeadlines, rfl⟩
  | resolving _ _ => exact .inl ⟨s.flushDeadlines, rfl⟩
  | idle =>
    obtain ⟨flushDeadlines, hsame⟩ | ⟨s', htakes, hresult⟩ :=
      takeReadyBatch_cases limits now serviceId s expectedNonces finalizedSlot
    · refine .inl ⟨flushDeadlines, ?_⟩
      simp only [c', step, hsame]
    · refine .inr ⟨rfl, divide limits.maxActions expectedNonces finalizedSlot
        (s.queue serviceId), rfl, ?_⟩
      simp only [c', step, hresult]
      generalize divide limits.maxActions expectedNonces finalizedSlot (s.queue serviceId) =
        division at htakes ⊢
      cases hselected : division.selected with
      | nil => exact ⟨htakes, rfl, rfl, .inl ⟨rfl, rfl⟩⟩
      | cons first rest => exact ⟨htakes, rfl, rfl, .inr ⟨first, rest, rfl, rfl⟩⟩

theorem step_attempt {c : Coordination} {batch : BatchToSubmit} {retries : ℕ}
    (h : c.dispatcher = .submitting batch retries) (accepted : Bool) (result : SubmitResult) :
    c.step describe limits blake2_256 (.attempt accepted result) = { c with
      works := c.works ++ [⟨batch.batchId, batch.actions, accepted⟩]
      dispatcher := .afterAttempt batch retries result } := by
  obtain ⟨s, dispatcher, works, admittedActions⟩ := c
  cases h
  rfl

theorem step_resolve {c : Coordination} {batchId : BatchId} {result : SubmitResult}
    (h : c.dispatcher = .resolving batchId result) :
    c.step describe limits blake2_256 .resolve = { c with
      coordinator := resolveBatch describe batchId result c.coordinator
      dispatcher := .idle } := by
  obtain ⟨s, dispatcher, works, admittedActions⟩ := c
  cases h
  rfl

theorem step_unready {c : Coordination} {op : CoordinatorOp} (h : op.Unready c.dispatcher) :
    c.step describe limits blake2_256 op = c := by
  unfold step
  cases op with
  | attempt => cases hdispatcher : c.dispatcher <;> first | rfl | exact absurd hdispatcher (h _ _)
  | resolve => cases hdispatcher : c.dispatcher <;> first | rfl | exact absurd hdispatcher (h _ _)
  | enqueue | take | finish | fail | submissionUnknown | materialize | bestIncluded
    | recordStatus => cases h

theorem step_edit (c : Coordination) {op : CoordinatorOp} {batchId : BatchId} {edit : BatchEdit}
    (h : op.edit? = some (batchId, edit)) :
    c.step describe limits blake2_256 op =
      { c with coordinator := edit.apply batchId c.coordinator } := by
  have hcoordinator : ∀ {left right : TransactionCoordinatorState}, left = right →
      { c with coordinator := left } = { c with coordinator := right } := fun heq => by rw [heq]
  cases op with
  | finish => cases h; exact hcoordinator (finishBatch_eq ..)
  | fail => cases h; exact hcoordinator (failBatchWithInfo_eq ..)
  | submissionUnknown => cases h; exact hcoordinator (markBatchSubmissionUnknown_eq ..)
  | materialize => cases h; exact hcoordinator (markMaterialized_eq ..)
  | recordStatus => cases h; exact hcoordinator (recordBatchStatus_eq ..)
  | enqueue | take | attempt | resolve | bestIncluded => cases h

/-- The operations by what they do. -/
inductive Steps (c : Coordination) : CoordinatorOp → Coordination → Prop
  | unready (op : CoordinatorOp) (h : op.Unready c.dispatcher) : Steps c op c
  | enqueue (now : ℕ) (serviceId : UInt32) (action : Bytes) (params : RequestParams) :
    Steps c (.enqueue now serviceId action params)
      (c.step describe limits blake2_256 (.enqueue now serviceId action params))
  | take (now : ℕ) (serviceId : UInt32) (expectedNonces : Std.ExtTreeMap (FixedBytes 32) UInt64)
      (finalizedSlot : UInt64) :
    Steps c (.take now serviceId expectedNonces finalizedSlot)
      (c.step describe limits blake2_256 (.take now serviceId expectedNonces finalizedSlot))
  | attempt (accepted : Bool) (result : SubmitResult) (batch : BatchToSubmit) (retries : ℕ)
      (h : c.dispatcher = .submitting batch retries) :
    Steps c (.attempt accepted result)
      { c with
        works := c.works ++ [⟨batch.batchId, batch.actions, accepted⟩]
        dispatcher := .afterAttempt batch retries result }
  | resolve (batchId : BatchId) (result : SubmitResult) (edit : BatchEdit)
      (h : c.dispatcher = .resolving batchId result)
      (hedit : ∀ s, resolveBatch describe batchId result s = edit.apply batchId s) :
    Steps c .resolve { c with coordinator := edit.apply batchId c.coordinator, dispatcher := .idle }
  | edit (op : CoordinatorOp) (batchId : BatchId) (edit : BatchEdit)
      (h : op.edit? = some (batchId, edit)) :
    Steps c op { c with coordinator := edit.apply batchId c.coordinator }
  | bestIncluded (logicalId : TransactionId) :
    Steps c (.bestIncluded logicalId)
      { c with coordinator := c.coordinator.markBestIncluded logicalId }

theorem steps (c : Coordination) (op : CoordinatorOp) :
    Steps describe limits blake2_256 c op (c.step describe limits blake2_256 op) := by
  have hunready : op.Unready c.dispatcher →
      Steps describe limits blake2_256 c op (c.step describe limits blake2_256 op) := by
    intro h
    rw [step_unready describe limits blake2_256 h]
    exact .unready op h
  have hedit : ∀ {batchId edit}, op.edit? = some (batchId, edit) →
      Steps describe limits blake2_256 c op (c.step describe limits blake2_256 op) := by
    intro batchId edit h
    rw [step_edit describe limits blake2_256 c h]
    exact .edit op batchId edit h
  cases op with
  | enqueue => exact .enqueue ..
  | take => exact .take ..
  | attempt accepted result =>
    cases hdispatcher : c.dispatcher with
    | submitting batch retries =>
      rw [step_attempt describe limits blake2_256 hdispatcher]
      exact .attempt accepted result batch retries hdispatcher
    | idle => exact hunready (hdispatcher ▸ nofun)
    | resolving _ _ => exact hunready (hdispatcher ▸ nofun)
  | resolve =>
    cases hdispatcher : c.dispatcher with
    | resolving batchId result =>
      obtain ⟨edit, hresolve, -⟩ := resolveBatch_edit describe batchId result
      rw [step_resolve describe limits blake2_256 hdispatcher, hresolve]
      exact .resolve batchId result edit hdispatcher hresolve
    | idle => exact hunready (hdispatcher ▸ nofun)
    | submitting _ _ => exact hunready (hdispatcher ▸ nofun)
  | finish | fail | submissionUnknown | materialize | recordStatus => exact hedit rfl
  | bestIncluded logicalId => exact .bestIncluded logicalId

/-- No counter of the coordinator is above the bound. -/
structure CountersLe (bound : ℕ) (s : TransactionCoordinatorState) : Prop where
  sequences : ∀ serviceId : UInt32, (s.nextSequences[serviceId]?).getD 0 ≤ bound
  arrival : s.nextArrivalSequence ≤ bound
  batch : s.nextBatchId ≤ bound

namespace CountersLe

variable {bound : ℕ} {s s' : TransactionCoordinatorState}

theorem initial : CountersLe 0 .initial := ⟨fun _ => Nat.le_refl 0, Nat.le_refl 0, Nat.le_refl 0⟩

theorem mono {higher : ℕ} (h : CountersLe bound s) (hle : bound ≤ higher) : CountersLe higher s :=
  ⟨fun serviceId => (h.sequences serviceId).trans hle, h.arrival.trans hle, h.batch.trans hle⟩

theorem congr (h : CountersLe bound s) (hsequences : s'.nextSequences = s.nextSequences)
    (harrival : s'.nextArrivalSequence = s.nextArrivalSequence)
    (hbatch : s'.nextBatchId = s.nextBatchId) :
    CountersLe bound s' :=
  ⟨hsequences ▸ h.sequences, harrival ▸ h.arrival, hbatch ▸ h.batch⟩

theorem enqueue (h : CountersLe bound s) (now : ℕ) (serviceId : UInt32) (action : Bytes)
    (params : RequestParams) :
    CountersLe (bound + 1) (s.enqueue limits blake2_256 now serviceId action params).2 := by
  unfold TransactionCoordinatorState.enqueue
  dsimp only
  split
  next => exact h.mono (Nat.le_succ bound)
  next =>
    refine ⟨fun other => ?_, Nat.succ_le_succ h.arrival, h.batch.trans (Nat.le_succ bound)⟩
    rw [Std.ExtTreeMap.getElem?_insert]
    split
    next => exact Nat.succ_le_succ (h.sequences serviceId)
    next => exact (h.sequences other).trans (Nat.le_succ bound)

theorem takeReadyBatch (h : CountersLe bound s) (now : ℕ) (serviceId : UInt32)
    (expectedNonces : Std.ExtTreeMap (FixedBytes 32) UInt64) (finalizedSlot : UInt64) :
    CountersLe (bound + 1)
      (s.takeReadyBatch limits now serviceId expectedNonces finalizedSlot).2 := by
  have hdivision : ∀ division,
      CountersLe bound (s.applyDivision limits now serviceId division) := by
    intro division
    unfold TransactionCoordinatorState.applyDivision
    dsimp only
    split <;> exact h.congr rfl rfl rfl
  unfold TransactionCoordinatorState.takeReadyBatch
  split
  next => exact h.mono (Nat.le_succ bound)
  next =>
    split
    next => exact (h.mono (Nat.le_succ bound)).congr rfl rfl rfl
    next =>
      dsimp only
      split
      next => exact (hdivision _).mono (Nat.le_succ bound)
      next =>
        have hnext := hdivision (divide limits.maxActions expectedNonces
          finalizedSlot (s.queue serviceId))
        have hhigher := hnext.mono (Nat.le_succ bound)
        exact ⟨hhigher.sequences, hhigher.arrival, Nat.succ_le_succ hnext.batch⟩

theorem edit (h : CountersLe bound s) (edit : BatchEdit) (batchId : BatchId) :
    CountersLe bound (edit.apply batchId s) := by
  unfold BatchEdit.apply
  split
  next => split <;> exact h.congr rfl rfl rfl
  next batch _ =>
    split
    next => exact h
    next => cases edit.lane <;> exact h.congr rfl rfl rfl

theorem step {c : Coordination} (h : CountersLe bound c.coordinator) (op : CoordinatorOp) :
    CountersLe (bound + 1) (c.step describe limits blake2_256 op).coordinator := by
  have hsteps := steps describe limits blake2_256 c op
  generalize hc' : c.step describe limits blake2_256 op = c' at hsteps ⊢
  cases hsteps with
  | unready => exact h.mono (Nat.le_succ bound)
  | enqueue now serviceId action params =>
    rw [(step_enqueue describe limits blake2_256 c now serviceId action params).1]
    exact h.enqueue limits blake2_256 now serviceId action params
  | take now serviceId expectedNonces finalizedSlot =>
    have htaken := h.takeReadyBatch limits now serviceId expectedNonces finalizedSlot
    unfold Coordination.step
    dsimp only
    split
    next =>
      split
      next heq =>
        rw [heq] at htaken
        exact htaken
      next heq =>
        rw [heq] at htaken
        exact htaken
    next => exact h.mono (Nat.le_succ bound)
  | attempt => exact h.mono (Nat.le_succ bound)
  | resolve batchId _ edit => exact (h.edit edit batchId).mono (Nat.le_succ bound)
  | edit _ batchId edit => exact (h.edit edit batchId).mono (Nat.le_succ bound)
  | bestIncluded => exact (h.mono (Nat.le_succ bound)).congr rfl rfl rfl

/-- Each operation adds at most one to a counter, so on a run of fewer than `2 ^ 64` operations the
saturating additions of the source never saturate. -/
theorem run {c : Coordination} (h : CountersLe bound c.coordinator) (ops : List CoordinatorOp) :
    CountersLe (bound + ops.length) (c.run describe limits blake2_256 ops).coordinator := by
  induction ops generalizing bound c with
  | nil => exact h
  | cons op ops ih =>
    rw [List.length_cons, Nat.add_comm ops.length, ← Nat.add_assoc]
    exact ih (h.step describe limits blake2_256 op)

end CountersLe

/-- No transaction gets an identifier that is in use. -/
def DistinctIds : Coordination → List CoordinatorOp → Prop
  | _, [] => True
  | c, op :: ops =>
    (∀ now serviceId action params, op = .enqueue now serviceId action params →
      c.coordinator.transactions[c.coordinator.nextId blake2_256 serviceId action]? = none) ∧
    DistinctIds (c.step describe limits blake2_256 op) ops

/-- The action lists that were taken for the network, with their batches. -/
def handedOut (c : Coordination) : List (BatchId × List Bytes) :=
  (match c.dispatcher with
    | .submitting batch _ => [(batch.batchId, batch.actions)]
    | _ => []) ++ c.works.map fun work => (work.batchId, work.actions)

/-- The actions are those of the transactions of a batch, in their order. -/
def HoldsActions (c : Coordination) (batchId : BatchId) (actions : List Bytes) : Prop :=
  ∃ batch : InFlightBatch, c.coordinator.batches[batchId]? = some batch ∧
    batch.logicalTransactionIds.map (fun id => c.admittedActions[id]?) = actions.map some

/-- The invariant of all runs. -/
structure Consistent (c : Coordination) : Prop where
  conserved : Conserved limits c.coordinator
  known : ∀ id : TransactionId,
    (c.admittedActions[id]?).isSome = (c.coordinator.transactions[id]?).isSome
  queued : ∀ serviceId, ∀ item ∈ c.coordinator.queue serviceId,
    c.admittedActions[item.logicalId]? = some item.action
  handed : ∀ entry ∈ c.handedOut, c.HoldsActions entry.1 entry.2

end Coordination

/-- An operation that admits no transaction: it removes nothing but queued actions. -/
structure Keeps (s s' : TransactionCoordinatorState) : Prop where
  batches : ∀ (batchId : BatchId) (batch : InFlightBatch), s.batches[batchId]? = some batch →
    ∃ batch' : InFlightBatch, s'.batches[batchId]? = some batch' ∧
      batch'.logicalTransactionIds = batch.logicalTransactionIds
  transactions : ∀ id : TransactionId, (s'.transactions[id]?).isSome = (s.transactions[id]?).isSome
  queued : ∀ serviceId, ∀ item ∈ s'.queue serviceId, item ∈ s.queue serviceId

namespace Keeps

variable {s s' : TransactionCoordinatorState}

theorem of_batchChange (h : BatchChange s s') : Keeps s s' := by
  rcases h with hsame | ⟨batchId, batch, next, update, hupdate⟩
  · constructor
    · intro batchId batch hbatch
      exact ⟨batch, hsame.batches ▸ hbatch, rfl⟩
    · intro id
      rw [hsame.transactions]
    · intro serviceId item hitem
      rwa [queue, hsame.queued] at hitem
  · constructor
    · intro other otherBatch hother
      rw [hupdate.batches]
      split
      next heq =>
        rw [heq, hupdate.before] at hother
        cases hother
        exact ⟨next, rfl, hupdate.ids⟩
      next => exact ⟨otherBatch, hother, rfl⟩
    · intro id
      by_cases hid : id ∈ batch.logicalTransactionIds
      · rw [hupdate.inside id hid, Option.isSome_map]
      · rw [hupdate.outside id hid]
    · intro serviceId item hitem
      rwa [queue, hupdate.queued] at hitem

theorem markBestIncluded (s : TransactionCoordinatorState) (logicalId : TransactionId) :
    Keeps s (s.markBestIncluded logicalId) := by
  constructor
  · exact fun _ batch hbatch => ⟨batch, hbatch, rfl⟩
  · intro id
    rw [TransactionCoordinatorState.markBestIncluded]
    by_cases heq : logicalId = id
    · subst heq
      rw [getElem?_modify_self, Option.isSome_map]
    · rw [getElem?_modify_of_ne _ _ heq]
  · exact fun _ _ hitem => hitem

theorem of_takes {limits : CoordinatorLimits} {serviceId : UInt32} {division : Division}
    (hconserved : Conserved limits s) (h : Takes serviceId division s s') : Keeps s s' := by
  constructor
  · intro batchId batch hbatch
    exact ⟨batch, h.batches_kept hbatch (hconserved.batchKnown _ _ hbatch).1, rfl⟩
  · intro id
    by_cases hid : id ∈ (divisionUpdates s.nextBatchId division).map Prod.fst
    · obtain ⟨⟨_, update⟩, hupdate, rfl⟩ := List.mem_map.mp hid
      rw [h.record_update (hconserved.queuedOnce serviceId) hupdate, Option.isSome_map]
    · rw [h.record_outside (keys_divisionUpdates s.nextBatchId division ▸ hid)]
  · intro other item hitem
    by_cases heq : other = serviceId
    · subst heq
      exact (h.mem_queue_iff item).mpr (.inr (h.queue ▸ hitem))
    · exact h.others other heq ▸ hitem

end Keeps

namespace Coordination

variable (limits : CoordinatorLimits) (blake2_256 : Bytes → StateRoot)

variable {limits} in
theorem HoldsActions.keeps {c c' : Coordination} {batchId : BatchId} {actions : List Bytes}
    (h : c.HoldsActions batchId actions) (hkeeps : Keeps c.coordinator c'.coordinator)
    (hadmitted : c'.admittedActions = c.admittedActions) : c'.HoldsActions batchId actions := by
  obtain ⟨batch, hbatch, hactions⟩ := h
  obtain ⟨batch', hbatch', hids⟩ := hkeeps.batches batchId batch hbatch
  exact ⟨batch', hbatch', by rw [hids, hadmitted, hactions]⟩

namespace Consistent

variable {limits} {c c' : Coordination}

theorem initial : Consistent limits initial := by
  constructor
  · exact Conserved.initial
  · intro id
    rfl
  · intro serviceId item hitem
    simp [Coordination.initial, TransactionCoordinatorState.initial, queue] at hitem
  · intro entry hentry
    cases hentry

theorem keep' (h : Consistent limits c) (hconserved : Conserved limits c'.coordinator)
    (hkeeps : Keeps c.coordinator c'.coordinator)
    (hadmitted : c'.admittedActions = c.admittedActions)
    (hhanded : ∀ entry ∈ c'.handedOut, c'.HoldsActions entry.1 entry.2) : Consistent limits c' := by
  constructor
  · exact hconserved
  · intro id
    rw [hadmitted, hkeeps.transactions, h.known]
  · intro serviceId item hitem
    rw [hadmitted]
    exact h.queued serviceId item (hkeeps.queued serviceId item hitem)
  · exact hhanded

theorem keep (h : Consistent limits c) (hconserved : Conserved limits c'.coordinator)
    (hkeeps : Keeps c.coordinator c'.coordinator)
    (hadmitted : c'.admittedActions = c.admittedActions)
    (hhanded : ∀ entry ∈ c'.handedOut, entry ∈ c.handedOut) : Consistent limits c' :=
  h.keep' hconserved hkeeps hadmitted fun entry hentry =>
    (h.handed entry (hhanded entry hentry)).keeps hkeeps hadmitted

theorem batchChange (h : Consistent limits c) {s' : TransactionCoordinatorState}
    (hchange : BatchChange c.coordinator s') : Consistent limits { c with coordinator := s' } :=
  h.keep (h.conserved.batchChange hchange) (.of_batchChange hchange) rfl fun _ hentry => hentry

theorem enqueue (h : Consistent limits c) (now : ℕ) (serviceId : UInt32) (action : Bytes)
    (params : RequestParams)
    (hfresh : c.coordinator.transactions[c.coordinator.nextId blake2_256 serviceId action]? =
      none) :
    Consistent limits
      (c.step describe limits blake2_256 (.enqueue now serviceId action params)) := by
  have hconserved := h.conserved.enqueue blake2_256 now serviceId action params hfresh
  obtain hsame | ⟨-, -, nextSequences, flushDeadlines, hnext⟩ :=
    enqueue_cases limits blake2_256 now serviceId action params c.coordinator
  · simp only [step, hsame]
    exact h
  rw [hnext] at hconserved
  simp only [step, hnext]
  set newId := c.coordinator.nextId blake2_256 serviceId action
  obtain ⟨hnotQueued, hnotBatched⟩ := h.conserved.fresh hfresh
  constructor
  · exact hconserved
  · intro id
    by_cases heq : newId = id
    · subst heq
      rw [getElem?_insert_self, getElem?_insert_self]
      rfl
    · rw [getElem?_insert_of_ne _ _ heq, getElem?_insert_of_ne _ _ heq]
      exact h.known id
  · intro other item hitem
    have hcases : item ∈ c.coordinator.queue other ∨
        item = admitted blake2_256 serviceId action params c.coordinator := by
      by_cases heq : serviceId = other
      · subst heq
        rw [queue, getElem?_insert_self,
          Option.getD_some, List.mem_append, List.mem_singleton] at hitem
        exact hitem
      · rw [queue, getElem?_insert_of_ne _ _ heq] at hitem
        exact .inl hitem
    rcases hcases with hbefore | rfl
    · have hne : newId ≠ item.logicalId := by
        intro heq
        exact hnotQueued other (heq ▸ List.mem_map_of_mem hbefore)
      rw [getElem?_insert_of_ne _ _ hne]
      exact h.queued other item hbefore
    · exact getElem?_insert_self _ _ _
  · intro entry hentry
    obtain ⟨batch, hbatch, hactions⟩ := h.handed entry hentry
    refine ⟨batch, hbatch, ?_⟩
    rw [← hactions]
    refine List.map_congr_left fun id hid => ?_
    have hne : newId ≠ id := by
      rintro rfl
      exact hnotBatched _ batch hbatch hid
    exact getElem?_insert_of_ne _ _ hne

/-- The thread starts on a batch that has just been opened. -/
theorem take (h : Consistent limits c) (now : ℕ) (serviceId : UInt32)
    (expectedNonces : Std.ExtTreeMap (FixedBytes 32) UInt64) (finalizedSlot : UInt64) :
    Consistent limits
      (c.step describe limits blake2_256 (.take now serviceId expectedNonces finalizedSlot)) := by
  obtain ⟨flushDeadlines, hsame⟩ | ⟨-, division, -, htakes, hworks, hadmitted, hnext⟩ :=
    c.step_take describe limits blake2_256 now serviceId expectedNonces finalizedSlot
  · rw [hsame]
    exact h.batchChange (.inl ⟨rfl, rfl, rfl, rfl, rfl⟩)
  have hkeeps := Keeps.of_takes h.conserved htakes
  refine h.keep' (h.conserved.takes htakes) hkeeps hadmitted fun entry hentry => ?_
  rw [handedOut, hworks, List.mem_append] at hentry
  rcases hentry with hnew | hold
  · rcases hnext with ⟨-, hidle⟩ | ⟨first, rest, hselected, hstarted⟩
    · rw [hidle] at hnew
      cases hnew
    · rw [hstarted] at hnew
      cases List.mem_singleton.mp hnew
      refine ⟨_, htakes.opened_of_selected (hselected ▸ nofun), ?_⟩
      simp only [Takes.opens, batchOf, List.map_map, hadmitted]
      refine List.map_congr_left fun item hitem => ?_
      refine h.queued serviceId item ((htakes.mem_queue_iff item).mpr (.inl ?_))
      exact List.mem_append_right _ hitem
  · exact (h.handed entry (List.mem_append_right _ hold)).keeps hkeeps hadmitted

theorem attempt (h : Consistent limits c)
    (accepted : Bool) (result : SubmitResult) {batch : BatchToSubmit}
    {retries : ℕ} (hdispatcher : c.dispatcher = .submitting batch retries) :
    Consistent limits { c with
      works := c.works ++ [⟨batch.batchId, batch.actions, accepted⟩]
      dispatcher := .afterAttempt batch retries result } := by
  refine h.keep h.conserved (.of_batchChange (.inl (.refl _))) rfl fun entry hentry => ?_
  have hcurrent : (batch.batchId, batch.actions) ∈ c.handedOut := by
    unfold handedOut
    rw [hdispatcher]
    exact List.mem_cons_self
  rcases List.mem_append.mp hentry with hnext | hold
  · rcases Dispatcher.afterAttempt_cases batch retries result with hretry | hdone
    · simp only [hretry, List.mem_singleton] at hnext
      exact hnext ▸ hcurrent
    · simp only [hdone] at hnext
      cases hnext
  · rw [List.map_append, List.mem_append] at hold
    rcases hold with hearlier | hlast
    · exact List.mem_append_right _ hearlier
    · cases List.mem_singleton.mp hlast
      exact hcurrent

theorem step (h : Consistent limits c) (op : CoordinatorOp)
    (hfresh : ∀ now serviceId action params, op = .enqueue now serviceId action params →
      c.coordinator.transactions[c.coordinator.nextId blake2_256 serviceId action]? = none) :
    Consistent limits (c.step describe limits blake2_256 op) := by
  have hsteps := steps describe limits blake2_256 c op
  generalize c.step describe limits blake2_256 op = c' at hsteps ⊢
  cases hsteps with
  | unready => exact h
  | enqueue now serviceId action params =>
    exact h.enqueue describe blake2_256 now serviceId action params (hfresh _ _ _ _ rfl)
  | take now serviceId expectedNonces finalizedSlot =>
    exact h.take describe blake2_256 now serviceId expectedNonces finalizedSlot
  | attempt accepted result batch retries hdispatcher => exact h.attempt accepted result hdispatcher
  | resolve batchId result edit =>
    have hchange := edit.change h.conserved batchId
    exact h.keep (h.conserved.batchChange hchange) (.of_batchChange hchange) rfl
      fun _ hentry => List.mem_append_right _ hentry
  | edit _ batchId edit => exact h.batchChange (edit.change h.conserved batchId)
  | bestIncluded logicalId =>
    exact h.keep (h.conserved.markBestIncluded logicalId) (.markBestIncluded _ logicalId) rfl
      fun _ hentry => hentry

theorem run (h : Consistent limits c) (ops : List CoordinatorOp)
    (hdistinct : DistinctIds describe limits blake2_256 c ops) :
    Consistent limits (c.run describe limits blake2_256 ops) := by
  induction ops generalizing c with
  | nil => exact h
  | cons op ops ih => exact ih (h.step describe blake2_256 op hdistinct.1) hdistinct.2

theorem works_known (h : Consistent limits c) {work : Work} (hwork : work ∈ c.works) :
    work.batchId < c.coordinator.nextBatchId := by
  obtain ⟨batch, hbatch, -⟩ :=
    h.handed (work.batchId, work.actions) (List.mem_append_right _ (List.mem_map_of_mem hwork))
  exact (h.conserved.batchKnown _ _ hbatch).1

end Consistent

/-- Works of a batch follow each other only when the earlier ones were refused. -/
structure AcceptedOnce (c : Coordination) : Prop where
  works : c.works.Pairwise fun earlier later =>
    earlier.accepted = true → later.accepted = true → earlier.batchId ≠ later.batchId
  submitting : ∀ batch retries, c.dispatcher = .submitting batch retries →
    ∀ work ∈ c.works, work.batchId = batch.batchId → work.accepted = false

/-- The network did not accept what it answered with one of these errors. -/
def RefusalsNotAccepted (ops : List CoordinatorOp) : Prop :=
  ∀ accepted error, CoordinatorOp.attempt accepted (.error error) ∈ ops →
    (error = .staleContext ∨ ∃ retryAfterMs, error = .queueFull retryAfterMs) → accepted = false

namespace AcceptedOnce

variable {limits} {c : Coordination}

theorem initial : AcceptedOnce initial := ⟨.nil, nofun⟩

theorem congr {c' : Coordination} (h : AcceptedOnce c) (hworks : c'.works = c.works)
    (hdispatcher : c'.dispatcher = c.dispatcher) : AcceptedOnce c' :=
  ⟨hworks ▸ h.works, hworks ▸ hdispatcher ▸ h.submitting⟩

theorem attempt (h : AcceptedOnce c)
    (accepted : Bool) (result : SubmitResult) {batch : BatchToSubmit}
    {retries : ℕ} (hdispatcher : c.dispatcher = .submitting batch retries)
    (hrefused : result = .error .staleContext → accepted = false) :
    AcceptedOnce { c with
      works := c.works ++ [⟨batch.batchId, batch.actions, accepted⟩]
      dispatcher := .afterAttempt batch retries result } := by
  have hearlier := h.submitting batch retries hdispatcher
  constructor
  · rw [List.pairwise_append]
    refine ⟨h.works, List.pairwise_singleton _ _, ?_⟩
    intro earlier hmem later hlater haccepted _ hsame
    cases List.mem_singleton.mp hlater
    exact absurd ((hearlier earlier hmem hsame).symm.trans haccepted) nofun
  · -- the thread goes on with this batch only when the answer was a refusal
    intro next nextRetries hnext work hwork hbatch
    dsimp only at hnext
    unfold Dispatcher.afterAttempt at hnext
    split at hnext
    next =>
      split at hnext
      next =>
        cases hnext
        rcases List.mem_append.mp hwork with hold | hlast
        · exact hearlier work hold hbatch
        · cases List.mem_singleton.mp hlast
          exact hrefused rfl
      next => cases hnext
    next => cases hnext

theorem step (h : AcceptedOnce c) (hconsistent : Consistent limits c) (op : CoordinatorOp)
    (hrefused : ∀ accepted, op = .attempt accepted (.error .staleContext) → accepted = false) :
    AcceptedOnce (c.step describe limits blake2_256 op) := by
  have hsteps := steps describe limits blake2_256 c op
  generalize c.step describe limits blake2_256 op = c' at hsteps ⊢
  cases hsteps with
  | enqueue now serviceId action params =>
    obtain ⟨-, hdispatcher, hworks⟩ := c.step_enqueue describe limits blake2_256 now
      serviceId action params
    exact h.congr hworks hdispatcher
  | take now serviceId expectedNonces finalizedSlot =>
    obtain ⟨flushDeadlines, hsame⟩ | ⟨hidle, division, -, -, hworks, -,
      ⟨-, hnext⟩ | ⟨first, rest, -, hnext⟩⟩ :=
      c.step_take describe limits blake2_256 now serviceId expectedNonces finalizedSlot
    · rw [hsame]
      exact h.congr rfl rfl
    · exact h.congr hworks (hnext.trans hidle.symm)
    · refine ⟨hworks ▸ h.works, fun batch retries hbatch work hwork hsame => ?_⟩
      cases hnext.symm.trans hbatch
      exact absurd hsame (hconsistent.works_known (hworks ▸ hwork)).ne
  | attempt accepted result batch retries hdispatcher =>
    exact h.attempt accepted result hdispatcher fun hresult => hrefused accepted (hresult ▸ rfl)
  | resolve => exact ⟨h.works, nofun⟩
  | unready | edit | bestIncluded => exact h.congr rfl rfl

theorem run (h : AcceptedOnce c) (hconsistent : Consistent limits c) (ops : List CoordinatorOp)
    (hdistinct : DistinctIds describe limits blake2_256 c
      ops) (hrefused : RefusalsNotAccepted ops) :
    AcceptedOnce (c.run describe limits blake2_256 ops) := by
  induction ops generalizing c with
  | nil => exact h
  | cons op ops ih =>
    refine ih (h.step describe blake2_256 hconsistent op ?_)
      (hconsistent.step describe blake2_256 op hdistinct.1) hdistinct.2 ?_
    · rintro accepted rfl
      exact hrefused accepted _ List.mem_cons_self (.inl rfl)
    · intro accepted error hmem
      exact hrefused accepted error (List.mem_cons_of_mem _ hmem)

end AcceptedOnce

end Coordination

/-! ## Where a transaction is -/

inductive Place where
  | queue (serviceId : UInt32)
  | batch (batchId : BatchId)
  | ended
  deriving DecidableEq

namespace TransactionCoordinatorState

variable (s : TransactionCoordinatorState)

/-- `ended` is for a transaction with an error that is in no batch. -/
def IsAt (id : TransactionId) : Place → Prop
  | .queue serviceId => id ∈ (s.queue serviceId).map PendingAction.logicalId
  | .batch batchId => ∃ batch : InFlightBatch, s.batches[batchId]? = some batch ∧
      id ∈ batch.logicalTransactionIds
  | .ended => ∃ transaction : LogicalTransaction, s.transactions[id]? = some transaction ∧
      transaction.batchId = none ∧ transaction.error ≠ none

/-- The batch holds the lane of the service, or it belongs to the service and has been neither
materialized nor failed. -/
def IsInFlight (serviceId : UInt32) (batchId : BatchId) : Prop :=
  s.inFlight[serviceId]? = some batchId ∨
    ∃ batch : InFlightBatch, s.batches[batchId]? = some batch ∧ batch.serviceId = serviceId ∧
      batch.materialized = false ∧ ¬ ∀ id ∈ batch.logicalTransactionIds,
        ∃ transaction : LogicalTransaction, s.transactions[id]? = some transaction ∧
        transaction.error ≠ none

end TransactionCoordinatorState

namespace Conserved

variable {limits : CoordinatorLimits} {s : TransactionCoordinatorState} {id : TransactionId}

theorem record_of_queue (h : Conserved limits s) {serviceId : UInt32}
    (hat : s.IsAt id (.queue serviceId)) :
    ∃ transaction : LogicalTransaction, s.transactions[id]? = some transaction ∧
      IsQueued transaction serviceId := by
  obtain ⟨item, hitem, rfl⟩ := List.mem_map.mp hat
  exact h.queued serviceId item hitem

theorem record_of_batch (h : Conserved limits s) {batchId : BatchId}
    (hat : s.IsAt id (.batch batchId)) :
    ∃ transaction : LogicalTransaction, s.transactions[id]? = some transaction ∧
      transaction.batchId = some batchId := by
  obtain ⟨batch, hbatch, hid⟩ := hat
  obtain ⟨index, hindex⟩ := List.mem_iff_getElem?.mp hid
  obtain ⟨transaction, hrecord, hplaced⟩ := h.batched batchId batch index id hbatch hindex
  exact ⟨transaction, hrecord, hplaced.batchId⟩

/-- The record decides the place. -/
theorem existsUnique_place (h : Conserved limits s) {transaction : LogicalTransaction}
    (hrecord : s.transactions[id]? = some transaction) : ∃! place, s.IsAt id place := by
  let place : Place :=
    match transaction.batchId with
    | some batchId => .batch batchId
    | none => if transaction.error = none then .queue transaction.serviceId else .ended
  refine ⟨place, ?_, ?_⟩
  · cases hbatch : transaction.batchId with
    | some batchId =>
      simp only [place, hbatch]
      exact h.inBatch id transaction batchId hrecord hbatch
    | none =>
      by_cases herror : transaction.error = none
      · simp only [place, hbatch, if_pos herror]
        obtain ⟨item, hitem, rfl⟩ := h.waiting id transaction hrecord hbatch herror
        exact List.mem_map_of_mem hitem
      · simp only [place, hbatch, if_neg herror]
        exact ⟨transaction, hrecord, hbatch, herror⟩
  · intro other hat
    cases other with
    | queue serviceId =>
      obtain ⟨record, hsame, hqueued⟩ := h.record_of_queue hat
      cases hrecord.symm.trans hsame
      simp only [place, hqueued.batchId, hqueued.error, if_true, hqueued.service]
    | batch batchId =>
      obtain ⟨record, hsame, hbatch⟩ := h.record_of_batch hat
      cases hrecord.symm.trans hsame
      simp only [place, hbatch]
    | ended =>
      obtain ⟨record, hsame, hbatch, herror⟩ := hat
      cases hrecord.symm.trans hsame
      simp only [place, hbatch, if_neg herror]

theorem inFlight_unique (h : Conserved limits s) {serviceId : UInt32} {left right : BatchId}
    (hleft : s.IsInFlight serviceId left) (hright : s.IsInFlight serviceId right) :
    left = right := by
  -- a batch that is not settled holds the lane
  have hlane : ∀ {batchId}, s.IsInFlight serviceId
    batchId → s.inFlight[serviceId]? = some batchId := by
    rintro batchId (hholds | ⟨batch, hbatch, rfl, hopen, hlive⟩)
    · exact hholds
    · rcases h.settled batchId batch hbatch with hholds | hmaterialized | hfailed
      · exact hholds
      · exact absurd (hopen.symm.trans hmaterialized) nofun
      · exact absurd hfailed hlive
  exact Option.some.inj ((hlane hleft).symm.trans (hlane hright))

end Conserved

namespace Coordination

/-- Over every sequence of operations, with distinct transaction identifiers, every admitted
transaction is in exactly one place, and only once there; a service has at most one batch in flight;
queues keep their bounds; a transaction's action index is the position of its action in the lists
handed out for its batch. If refusals of the network are not acceptances, two accepted works never
carry the same transaction. -/
theorem transactions_conserved (limits : CoordinatorLimits) (blake2_256 : Bytes → StateRoot)
    (ops : List CoordinatorOp) (hdistinct : DistinctIds describe limits blake2_256 initial ops) :
    let c := initial.run describe limits blake2_256 ops
    let s := c.coordinator
    (∀ (id : TransactionId) (action : Bytes), c.admittedActions[id]? = some action →
      (∃! place, s.IsAt id place) ∧
      ∃ transaction : LogicalTransaction, s.transactions[id]? = some transaction ∧
        ∀ serviceId, s.IsAt id (.queue serviceId) → serviceId = transaction.serviceId) ∧
    (∀ serviceId, ((s.queue serviceId).map PendingAction.logicalId).Nodup) ∧
    (∀ (batchId : BatchId) (batch : InFlightBatch), s.batches[batchId]? = some batch →
      batch.logicalTransactionIds.Nodup) ∧
    (∀ serviceId left right, s.IsInFlight serviceId left → s.IsInFlight serviceId
      right → left = right) ∧
    (∀ serviceId, (s.queue serviceId).length ≤ limits.maxQueuedPerService) ∧
    (∀ serviceId sender, s.queuedForSender serviceId sender ≤ limits.maxQueuedPerSender) ∧
    (∀ (id : TransactionId) (transaction : LogicalTransaction) (batchId : BatchId),
      s.transactions[id]? = some transaction → transaction.batchId = some batchId →
        ∃ (batch : InFlightBatch) (index : ℕ), s.batches[batchId]? = some batch ∧
          transaction.actionIndex = some index ∧ batch.logicalTransactionIds[index]? = some id ∧
          ∀ actions, (batchId, actions) ∈ c.handedOut → actions[index]? = c.admittedActions[id]?) ∧
    (RefusalsNotAccepted ops → ∀ (i j : ℕ) (left right : Work) (id : TransactionId),
      c.works[i]? = some left → c.works[j]? = some right → left.accepted =
      true → right.accepted = true →
        s.IsAt id (.batch left.batchId) → s.IsAt id (.batch right.batchId) → i = j) := by
  intro c s
  have hc : Consistent limits c := Consistent.initial.run describe blake2_256 ops hdistinct
  refine ⟨?_, hc.conserved.queuedOnce,
    fun batchId batch hbatch => (hc.conserved.batchKnown _ _ hbatch).2,
    fun _ _ _ hleft hright => hc.conserved.inFlight_unique hleft hright, hc.conserved.queueBound,
    hc.conserved.senderBound, ?_, ?_⟩
  · intro id action hadmitted
    have hknown : (s.transactions[id]?).isSome := by
      rw [← hc.known, hadmitted]
      rfl
    obtain ⟨transaction, hrecord⟩ := Option.isSome_iff_exists.mp hknown
    refine ⟨hc.conserved.existsUnique_place hrecord, transaction, hrecord, fun serviceId hat => ?_⟩
    obtain ⟨record, hsame, hqueued⟩ := hc.conserved.record_of_queue hat
    cases hrecord.symm.trans hsame
    exact hqueued.service.symm
  · intro id transaction batchId hrecord hbatch
    obtain ⟨batch, hknown, hid⟩ := hc.conserved.inBatch id transaction batchId hrecord hbatch
    obtain ⟨index, hindex⟩ := List.mem_iff_getElem?.mp hid
    obtain ⟨record, hsame, hplaced⟩ := hc.conserved.batched batchId batch index id hknown hindex
    cases hrecord.symm.trans hsame
    refine ⟨batch, index, hknown, hplaced.actionIndex, hindex, fun actions hactions => ?_⟩
    obtain ⟨held, hheld, hlist⟩ := hc.handed _ hactions
    cases hknown.symm.trans hheld
    have hposition := congrArg (fun list => list[index]?) hlist
    simp only [List.getElem?_map, hindex, Option.map_some] at hposition
    cases haction : actions[index]? with
    | none =>
      rw [haction] at hposition
      cases hposition
    | some action =>
      rw [haction] at hposition
      exact (Option.some.inj hposition).symm
  · intro hrefused i j left right id hleft hright hacceptedLeft hacceptedRight hatLeft hatRight
    have honce : AcceptedOnce c :=
      AcceptedOnce.initial.run describe blake2_256 .initial ops hdistinct hrefused
    have hsame : left.batchId = right.batchId := by
      have hplace :=
        (hc.conserved.existsUnique_place
          (hc.conserved.record_of_batch hatLeft).choose_spec.1).unique hatLeft hatRight
      exact Place.batch.inj hplace
    have hworks := List.pairwise_iff_getElem.mp honce.works
    obtain ⟨hi, rfl⟩ := List.getElem?_eq_some_iff.mp hleft
    obtain ⟨hj, rfl⟩ := List.getElem?_eq_some_iff.mp hright
    rcases Nat.lt_trichotomy i j with hlt | heq | hgt
    · exact absurd hsame (hworks i j hi hj hlt hacceptedLeft hacceptedRight)
    · exact heq
    · exact absurd hsame.symm (hworks j i hj hi hgt hacceptedRight hacceptedLeft)

end Coordination

end Dispatcher

/-! ## A run with a retry -/

/-- The identifier of the first transaction of service 7 when its action is `[1]`. -/
def firstId : TransactionId :=
  ⟨[0x53, 0x28, 0x25, 0x66, 0x86, 0xa2, 0xb9, 0x4a, 0x20, 0x3e, 0x9c, 0x4e, 0xc3, 0x78, 0x0e, 0xfb,
    0x72, 0x8c, 0x9b, 0x32, 0x97, 0x7e, 0x64, 0xa0, 0x23, 0x54, 0x5a, 0x3f, 0xfd, 0x95, 0x8a, 0x5f],
    rfl⟩

/-- The identifier of the second one when its action is `[2]`. -/
def secondId : TransactionId :=
  ⟨[0xf1, 0x23, 0x2e, 0x1c, 0x7a, 0x1d, 0x86, 0x77, 0x4e, 0x08, 0xfd, 0x63, 0x6e, 0xfc, 0x7f, 0xe5,
    0x13, 0x83, 0xf4, 0x4b, 0x7f, 0x71, 0x7e, 0xaa, 0x32, 0x01, 0x30, 0x6b, 0x57, 0x33, 0xcf, 0xf1],
    rfl⟩

def idHash : Bytes → StateRoot :=
  tableHash [(u32ToLe 7 ++ toLe 8 0 ++ [1], firstId), (u32ToLe 7 ++ toLe 8 1 ++ [2], secondId)]

def pairLimits : CoordinatorLimits := ⟨2, 100, 8, 4, by decide, by decide, by decide⟩

def plainParams : RequestParams := ⟨some 7, none, none, []⟩

def unchangedPrediction : RuntimeRefineOutputV1 :=
  ⟨1, emptyStateRootV1, emptyStateRootV1, [], none, [], emptyStateRootV1, []⟩

/-- Two actions are handed to the network, which refuses them once. -/
def retriedOps : List CoordinatorOp :=
  [.enqueue 0 7 [1] plainParams, .enqueue 0 7 [2] plainParams, .take 0 7 ∅ 0,
    .attempt false (.error .staleContext),
    .attempt true (.ok (some (hashHex firstId.toList), unchangedPrediction)), .resolve]

namespace Coordination

theorem transactions_conserved_retried :
    let c := initial.run (fun _ => "") pairLimits idHash retriedOps
    c.works.map (fun work => (work.actions, work.accepted)) =
        [([[1], [2]], false), ([[1], [2]], true)] ∧
      RefusalsNotAccepted retriedOps ∧ ∃! place, c.coordinator.IsAt secondId place := by
  have hdistinct : DistinctIds (fun _ => "") pairLimits idHash initial retriedOps := by
    refine ⟨?_, ?_, nofun, nofun, nofun, nofun, trivial⟩
    · rintro _ _ _ _ ⟨⟩
      decide +kernel
    · rintro _ _ _ _ ⟨⟩
      decide +kernel
  refine ⟨by decide +kernel, ?_, ?_⟩
  · intro accepted error hmem _
    simp only [retriedOps, List.mem_cons, List.not_mem_nil, reduceCtorEq,
      CoordinatorOp.attempt.injEq, false_or, or_false, and_false] at hmem
    exact hmem.1
  · exact ((transactions_conserved (fun _ => "") pairLimits idHash retriedOps hdistinct).1 secondId
      [2] (by decide +kernel)).1

end Coordination

end JamScript
