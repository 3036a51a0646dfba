import JamScript.Auth.SignedAction
import JamScript.Backend.Requests
import JamScript.Common.OrderedKeys
import JamScript.Core.RefineOutput

/-!
# The transaction coordinator

The backend collects transactions in one queue for each service and hands them to the network in
batches, one batch of a service at a time. `enqueue` admits a transaction, `takeReadyBatch` turns a
queue into a batch, and the remaining operations record what became of the batch.

Selection looks at nonces: an action is selected when its nonce is the one its account has next,
counting the actions already selected, and is dropped as stale when its nonce is lower. `divide` is
what a batch makes of a queue, and `divide_perm` says that nothing is lost or doubled on the way.

Time is in milliseconds. The source counts transactions and batches in `u64` with saturating
additions; here the counters are natural numbers, and `CountersLe.run` bounds them by the number of
operations, so that the two agree on every run of fewer than `2 ^ 64` operations.
-/

namespace JamScript

open Codec

/-- The hash that the source prints in hexadecimal form. -/
abbrev TransactionId := StateRoot

/-- `n` is printed as `batch-n`. -/
abbrev BatchId := ℕ

/-- A queued action, with what its envelope says about its place in a batch. -/
structure PendingAction where
  logicalId : TransactionId
  action : Bytes
  sender : Option (FixedBytes 32)
  nonce : Option UInt64
  nonceStorageKey : Option Bytes
  validUntil : Option UInt64
  arrivalSequence : ℕ
  params : RequestParams
  extrinsics : List Bytes
  deriving DecidableEq

/-- The machine-readable part of an error. -/
inductive ErrorInfo where
  | guestFault (fault : GuestFaultContext)
  | pvmOutOfGas
  deriving DecidableEq, Repr

/-- What the backend remembers of a transaction. -/
structure LogicalTransaction where
  serviceId : UInt32
  batchId : Option BatchId
  packageHash : Option StateRoot
  actionIndex : Option ℕ
  error : Option String
  errorInfo : Option ErrorInfo
  submissionUnknown : Bool
  bestIncluded : Bool
  deriving DecidableEq

/-- A batch that was taken, until its package is settled. -/
structure InFlightBatch where
  serviceId : UInt32
  logicalTransactionIds : List TransactionId
  packageHash : Option StateRoot
  predictedOutput : Option RuntimeRefineOutputV1
  materialized : Bool
  lastStatus : Option String
  deriving DecidableEq

/-- The maps are keyed by service, transaction or batch; a service without an entry has an empty
queue. -/
structure TransactionCoordinatorState where
  nextSequences : Std.ExtTreeMap UInt32 ℕ
  nextArrivalSequence : ℕ
  nextBatchId : ℕ
  queued : Std.ExtTreeMap UInt32 (List PendingAction)
  flushDeadlines : Std.ExtTreeMap UInt32 ℕ
  flushing : Std.ExtTreeSet UInt32
  inFlight : Std.ExtTreeMap UInt32 BatchId
  transactions : Std.ExtTreeMap TransactionId LogicalTransaction
  batches : Std.ExtTreeMap BatchId InFlightBatch

/-- What is handed to the network. -/
structure BatchToSubmit where
  batchId : BatchId
  actions : List Bytes
  params : RequestParams
  extrinsics : List Bytes
  deriving DecidableEq

/-- The limits of a coordinator; its constructor raises each of them to at least one. -/
structure CoordinatorLimits where
  maxActions : ℕ
  flushDelay : ℕ
  maxQueuedPerService : ℕ
  maxQueuedPerSender : ℕ
  maxActions_pos : 0 < maxActions
  maxQueuedPerService_pos : 0 < maxQueuedPerService
  maxQueuedPerSender_pos : 0 < maxQueuedPerSender

/-- How long a queue waits when only later nonces are left. -/
def futureNonceRecheckDelay : ℕ := 1000

namespace TransactionCoordinatorState

/-- No service has sent anything. -/
def initial : TransactionCoordinatorState := ⟨∅, 0, 0, ∅, ∅, ∅, ∅, ∅, ∅⟩

/-- The queue of a service. -/
def queue (s : TransactionCoordinatorState) (serviceId : UInt32) : List PendingAction :=
  (s.queued[serviceId]?).getD []

end TransactionCoordinatorState

/-! ## Selection -/

/-- A queued action with its position in the queue. -/
abbrev QueueEntry := PendingAction × ℕ

/-- A queue divided by its nonces. -/
structure BatchSelection where
  selected : List QueueEntry
  stale : List QueueEntry
  /-- The nonces expected after the selected actions. -/
  tentative : Std.ExtTreeMap (FixedBytes 32) UInt64

/-- What becomes of an action when its turn comes. -/
inductive Verdict where
  | stale
  | eligible (tentative : Std.ExtTreeMap (FixedBytes 32) UInt64)
  | later

/-- `saturating_add(1)`. -/
def saturatingSucc (n : UInt64) : UInt64 := if n = 0xffffffffffffffff then n else n + 1

/-- An action with neither sender nor nonce is always eligible. -/
def verdict (tentative : Std.ExtTreeMap (FixedBytes 32) UInt64) (item : PendingAction) : Verdict :=
  match item.sender, item.nonce with
  | some sender, some nonce =>
    let expected := (tentative[sender]?).getD 0
    if nonce < expected then .stale
    else if nonce = expected then .eligible (tentative.insert sender (saturatingSucc expected))
    else .later
  | none, none => .eligible tentative
  | _, _ => .later

/-- One round of the loop: the entries are those still remaining, in admission order. The result
holds the entries that remain after it, and whether the batch is full. -/
def selectPass (maxActions : ℕ) :
    List QueueEntry → BatchSelection → BatchSelection × List QueueEntry × Bool
  | [], selection => (selection, [], false)
  | entry :: rest, selection =>
    match verdict selection.tentative entry.1 with
    | .stale => selectPass maxActions rest { selection with stale := selection.stale ++ [entry] }
    | .later =>
      let (selection, remaining, full) := selectPass maxActions rest selection
      (selection, entry :: remaining, full)
    | .eligible tentative =>
      let selection := { selection with selected := selection.selected ++ [entry], tentative }
      if selection.selected.length = maxActions then (selection, rest, true)
      else selectPass maxActions rest selection

/-- Rounds are made until the batch is full or a round makes no progress. A round that makes
progress leaves fewer entries, which bounds their number. -/
def selectLoop (maxActions : ℕ) : ℕ → List QueueEntry → BatchSelection → BatchSelection
  | 0, _, selection => selection
  | rounds + 1, entries, selection =>
    let (selection, remaining, full) := selectPass maxActions entries selection
    if full ∨ remaining.length = entries.length then selection
    else selectLoop maxActions rounds remaining selection

/-- Earlier arrivals first, and among those the earlier position. -/
def admittedBefore (left right : QueueEntry) : Prop :=
  left.1.arrivalSequence < right.1.arrivalSequence ∨
    left.1.arrivalSequence = right.1.arrivalSequence ∧ left.2 ≤ right.2

instance (left right : QueueEntry) : Decidable (admittedBefore left right) :=
  inferInstanceAs (Decidable (_ ∨ _))

/-- `select_canonical_indices`. -/
def selectCanonicalIndices (pending : List PendingAction)
    (expectedNonces : Std.ExtTreeMap (FixedBytes 32) UInt64) (maxActions : ℕ) : BatchSelection :=
  selectLoop maxActions (pending.length + 1) (pending.zipIdx.insertionSort admittedBefore)
    ⟨[], [], expectedNonces⟩

/-- What becomes of the actions of a queue when a batch is formed. -/
structure Division where
  expired : List PendingAction
  stale : List PendingAction
  selected : List PendingAction
  remaining : List PendingAction

/-- The finalized slot has passed the limit of the signer. -/
def isExpired (finalizedSlot : UInt64) (item : PendingAction) : Bool :=
  item.validUntil.any fun validUntil => validUntil < finalizedSlot

/-- What is expired goes first; the rest is divided by nonces. -/
def divide (maxActions : ℕ) (expectedNonces : Std.ExtTreeMap (FixedBytes 32) UInt64)
    (finalizedSlot : UInt64) (pending : List PendingAction) : Division :=
  let viable := pending.filter fun item => !isExpired finalizedSlot item
  let selection := selectCanonicalIndices viable expectedNonces maxActions
  let removed := (selection.selected ++ selection.stale).map Prod.snd
  { expired := pending.filter fun item => isExpired finalizedSlot item
    stale := selection.stale.map Prod.fst
    selected := selection.selected.map Prod.fst
    remaining := (viable.zipIdx.filter fun entry => entry.2 ∉ removed).map Prod.fst }

/-! ## Operations -/

/-- The account, nonce and deadline an action claims; nothing of it is verified here. -/
structure Admission where
  sender : Option (FixedBytes 32)
  nonce : Option UInt64
  nonceStorageKey : Option Bytes
  validUntil : Option UInt64
  deriving DecidableEq

/-- What an envelope says about sender, nonce and limit; other bytes are admitted without. -/
def admissionOf (blake2_256 : Bytes → StateRoot) (action : Bytes) : Admission :=
  match decodeSignedActionV1 action with
  | .ok signed =>
    match tryIntoArray 32 signed.publicKey with
    | some sender => ⟨some sender, some signed.nonce, some (nonceKey sender),
      some signed.validUntil⟩
    | none => ⟨none, none, none, some signed.validUntil⟩
  | .error _ =>
    match decodeSignedActionV2 action with
    | .ok signed =>
      let owner := signed.actAs.getD signed.controller
      ⟨(owner.key blake2_256).toOption, some signed.nonce,
        (ownershipNonceKey blake2_256 owner).toOption, some signed.validUntil⟩
    | .error _ => ⟨none, none, none, none⟩

namespace TransactionCoordinatorState

open OrderedMap

/-- The number of queued actions of a sender. -/
def queuedForSender (s : TransactionCoordinatorState) (serviceId : UInt32)
    (sender : FixedBytes 32) : ℕ :=
  (s.queue serviceId).countP fun item => item.sender = some sender

/-- The identifier of the next transaction of a service. -/
def nextId (blake2_256 : Bytes → StateRoot) (s : TransactionCoordinatorState) (serviceId : UInt32)
    (action : Bytes) : TransactionId :=
  blake2_256 (u32ToLe serviceId ++ toLe 8 ((s.nextSequences[serviceId]?).getD 0) ++ action)

/-- The record of a transaction that has just been queued. -/
def queuedTransaction (serviceId : UInt32) : LogicalTransaction :=
  ⟨serviceId, none, none, none, none, none, false, false⟩

/-- A full queue refuses before an identifier is used up. -/
def enqueue (limits : CoordinatorLimits) (blake2_256 : Bytes → StateRoot) (now : ℕ)
    (serviceId : UInt32) (action : Bytes) (params : RequestParams)
    (s : TransactionCoordinatorState) :
    Except BackendError TransactionId × TransactionCoordinatorState :=
  let admission := admissionOf blake2_256 action
  let queue := s.queue serviceId
  let queuedForSender := (admission.sender.map (s.queuedForSender serviceId)).getD 0
  if queue.length ≥ limits.maxQueuedPerService ∨ queuedForSender ≥ limits.maxQueuedPerSender then
    (.error (.queueFull (max limits.flushDelay 100)), s)
  else
    let logicalId := s.nextId blake2_256 serviceId action
    let item : PendingAction :=
      { logicalId, action
        sender := admission.sender
        nonce := admission.nonce
        nonceStorageKey := admission.nonceStorageKey
        validUntil := admission.validUntil
        arrivalSequence := s.nextArrivalSequence
        params
        extrinsics := params.extrinsicsBase64 }
    (.ok logicalId, { s with
      nextSequences := s.nextSequences.insert serviceId ((s.nextSequences[serviceId]?).getD 0 + 1)
      nextArrivalSequence := s.nextArrivalSequence + 1
      transactions := s.transactions.insert logicalId (queuedTransaction serviceId)
      queued := s.queued.insert serviceId (queue ++ [item])
      flushDeadlines := s.flushDeadlines.insertIfNew serviceId (now + limits.flushDelay) })

/-- The service has no batch in flight and none being submitted. -/
def laneFree (s : TransactionCoordinatorState) (serviceId : UInt32) : Prop :=
  s.inFlight[serviceId]? = none ∧ serviceId ∉ s.flushing

instance (s : TransactionCoordinatorState) (serviceId : UInt32) :
    Decidable (s.laneFree serviceId) :=
  inferInstanceAs (Decidable (_ ∧ _))

/-- There are enough actions for a full batch, or the oldest has waited long enough. -/
def flushDue (limits : CoordinatorLimits) (now : ℕ) (s : TransactionCoordinatorState)
    (serviceId : UInt32) : Prop :=
  (s.queue serviceId) ≠ [] ∧ (limits.maxActions ≤ (s.queue serviceId).length ∨
    s.flushDeadlines[serviceId]?.any (· ≤ now))

instance (limits : CoordinatorLimits) (now : ℕ) (s : TransactionCoordinatorState)
    (serviceId : UInt32) :
    Decidable (s.flushDue limits now serviceId) :=
  inferInstanceAs (Decidable (_ ∧ _))

def expiredMessage : String := "EXPIRED_BEFORE_DISPATCH: signed action validity slot has expired"

def staleMessage : String :=
  "STALE_NONCE: signed action nonce is lower than the canonical expected nonce"

/-- Record an error before the transaction is in a batch. -/
def setError (message : String) (transaction : LogicalTransaction) : LogicalTransaction :=
  { transaction with error := some message }

/-- Put a transaction into a batch. -/
def assign (batchId : BatchId) (index : ℕ) (transaction : LogicalTransaction) :
    LogicalTransaction :=
  { transaction with batchId := some batchId, actionIndex := some index }

/-- The queue after a division, and the transactions that ended in it. -/
def applyDivision (limits : CoordinatorLimits) (now : ℕ) (serviceId : UInt32) (division : Division)
    (s : TransactionCoordinatorState) : TransactionCoordinatorState :=
  let transactions := modifyAll s.transactions
    (division.expired.map fun item => (item.logicalId, setError expiredMessage))
  let transactions := modifyAll transactions
    (division.stale.map fun item => (item.logicalId, setError staleMessage))
  if division.remaining = [] then
    { s with
      transactions
      queued := s.queued.erase serviceId
      flushDeadlines := s.flushDeadlines.erase serviceId }
  else
    let delay := if division.selected = [] then futureNonceRecheckDelay else limits.flushDelay
    { s with
      transactions
      queued := s.queued.insert serviceId division.remaining
      flushDeadlines := s.flushDeadlines.insert serviceId (now + delay) }

/-- Record the selected actions as the batch in flight. -/
def openBatch (serviceId : UInt32) (selected : List PendingAction)
    (s : TransactionCoordinatorState) :
    TransactionCoordinatorState :=
  let batchId := s.nextBatchId
  { s with
    nextBatchId := s.nextBatchId + 1
    transactions := modifyAll s.transactions
      (selected.zipIdx.map fun entry => (entry.1.logicalId, assign batchId entry.2))
    flushing := s.flushing.insert serviceId
    inFlight := s.inFlight.insert serviceId batchId
    batches := s.batches.insert batchId
      ⟨serviceId, selected.map PendingAction.logicalId, none, none, false, none⟩ }

/-- The batch of the selected actions: the parameters are those of the first one. -/
def batchOf (batchId : BatchId) (first : PendingAction) (selected : List PendingAction) :
    BatchToSubmit :=
  let extrinsics := selected.flatMap PendingAction.extrinsics
  ⟨batchId, selected.map PendingAction.action, { first.params with extrinsicsBase64 := extrinsics },
    extrinsics⟩

/-- `take_ready_batch`. -/
def takeReadyBatch (limits : CoordinatorLimits) (now : ℕ) (serviceId : UInt32)
    (expectedNonces : Std.ExtTreeMap (FixedBytes 32) UInt64) (finalizedSlot : UInt64)
    (s : TransactionCoordinatorState) : Option BatchToSubmit × TransactionCoordinatorState :=
  if ¬ s.laneFree serviceId ∨ ¬ s.flushDue limits now serviceId then (none, s)
  else if (s.queue serviceId).any fun item => item.sender.any fun sender =>
    sender ∉ expectedNonces then
    -- the queue is taken out and put back as it was
    (none, { s with
      flushDeadlines := s.flushDeadlines.insert serviceId (now + futureNonceRecheckDelay) })
  else
    let division := divide limits.maxActions expectedNonces finalizedSlot (s.queue serviceId)
    let s := s.applyDivision limits now serviceId division
    match division.selected with
    | [] => (none, s)
    | first :: _ =>
      (some (batchOf s.nextBatchId first division.selected),
        s.openBatch serviceId division.selected)

/-- `mark_best_included`. -/
def markBestIncluded (logicalId : TransactionId) (s : TransactionCoordinatorState) :
    TransactionCoordinatorState :=
  { s with transactions := s.transactions.modify logicalId fun transaction =>
      { transaction with bestIncluded := true } }

/-- The transactions of a list, each modified in the same way. -/
def modifyTransactions (ids : List TransactionId) (f : LogicalTransaction → LogicalTransaction)
    (s : TransactionCoordinatorState) : TransactionCoordinatorState :=
  { s with transactions := modifyAll s.transactions (ids.map fun id => (id, f)) }

/-- An unknown batch counts as one of service 0 without transactions. -/
def finishBatch (batchId : BatchId) (packageHash : StateRoot) (prediction : RuntimeRefineOutputV1)
    (s : TransactionCoordinatorState) : TransactionCoordinatorState :=
  match s.batches[batchId]? with
  | none => { s with flushing := s.flushing.erase 0 }
  | some batch =>
    { s.modifyTransactions batch.logicalTransactionIds (fun transaction =>
        { transaction with packageHash := some packageHash }) with
      batches := s.batches.insert batchId
        { batch with predictedOutput := some prediction, packageHash := some packageHash }
      flushing := s.flushing.erase batch.serviceId }

/-- Free the lane of a service if the batch holds it. -/
def releaseLane (serviceId : UInt32) (batchId : BatchId) (s : TransactionCoordinatorState) :
    TransactionCoordinatorState :=
  { s with
    inFlight := if s.inFlight[serviceId]? = some batchId then s.inFlight.erase serviceId
    else s.inFlight
    flushing := s.flushing.erase serviceId }

/-- The first error of a transaction stays. -/
def failOnce (error : String) (errorInfo : Option ErrorInfo) (transaction : LogicalTransaction) :
    LogicalTransaction :=
  if transaction.error = none then { transaction with error := some error, errorInfo }
    else transaction

/-- A batch whose result is materialized does not fail any more. -/
def failBatchWithInfo (batchId : BatchId) (error : String) (errorInfo : Option ErrorInfo)
    (s : TransactionCoordinatorState) : TransactionCoordinatorState :=
  match s.batches[batchId]? with
  | none => s
  | some batch =>
    if batch.materialized then s
    else (s.modifyTransactions batch.logicalTransactionIds (failOnce error errorInfo)).releaseLane
      batch.serviceId batchId

def failBatch (batchId : BatchId) (error : String) : TransactionCoordinatorState →
    TransactionCoordinatorState :=
  failBatchWithInfo batchId error none

/-- The error is overwritten, unlike in `failOnce`. -/
def setUnknown (error : String) (transaction : LogicalTransaction) : LogicalTransaction :=
  { transaction with submissionUnknown := true, error := some error }

/-- The lane stays occupied: the network may have accepted the work. -/
def markBatchSubmissionUnknown (batchId : BatchId) (error : String)
    (s : TransactionCoordinatorState) :
    TransactionCoordinatorState :=
  match s.batches[batchId]? with
  | none => s
  | some batch => s.modifyTransactions batch.logicalTransactionIds (setUnknown error)

/-- The result is the head of its service: the lane is free for the next batch. -/
def markMaterialized (batchId : BatchId) (s : TransactionCoordinatorState) :
    TransactionCoordinatorState :=
  match s.batches[batchId]? with
  | none => s
  | some batch =>
    if batch.materialized then s
    else
      { s with
        batches := s.batches.insert batchId { batch with materialized := true } }.releaseLane
          batch.serviceId batchId

def recordBatchStatus (batchId : BatchId) (status : String) (s : TransactionCoordinatorState) :
    TransactionCoordinatorState :=
  match s.batches[batchId]? with
  | none => s
  | some batch =>
    { s with batches := s.batches.insert batchId { batch with lastStatus := some status } }

end TransactionCoordinatorState

/-! ## A queue is divided, not changed -/

/-- What a round takes from the entries it adds to the selection. -/
theorem selectPass_perm (maxActions : ℕ) (entries : List QueueEntry) (selection : BatchSelection) :
    ((selectPass maxActions entries selection).1.selected ++
        (selectPass maxActions entries selection).1.stale ++
          (selectPass maxActions entries selection).2.1).Perm
      (selection.selected ++ selection.stale ++ entries) := by
  induction entries generalizing selection with
  | nil => exact .refl _
  | cons entry rest ih =>
    unfold selectPass
    cases verdict selection.tentative entry.1 with
    | stale =>
      refine (ih _).trans (.of_eq ?_)
      simp
    | later =>
      refine List.perm_middle.trans (.trans (.cons entry (ih selection)) ?_)
      exact List.perm_middle.symm
    | eligible tentative =>
      have hmoved : (selection.selected ++ [entry] ++ selection.stale ++ rest).Perm
          (selection.selected ++ selection.stale ++ entry :: rest) := by
        simp only [List.append_assoc, List.singleton_append]
        exact List.Perm.append_left _ List.perm_middle.symm
      dsimp only
      split
      · exact hmoved
      · exact (ih _).trans hmoved

/-- Selection loses no entry and doubles none. -/
theorem selectLoop_perm (maxActions rounds : ℕ) (entries : List QueueEntry)
    (selection : BatchSelection) :
    ∃ remaining, ((selectLoop maxActions rounds entries selection).selected ++
        (selectLoop maxActions rounds entries selection).stale ++ remaining).Perm
      (selection.selected ++ selection.stale ++ entries) := by
  induction rounds generalizing entries selection with
  | zero => exact ⟨entries, .refl _⟩
  | succ rounds ih =>
    have hpass := selectPass_perm maxActions entries selection
    unfold selectLoop
    generalize selectPass maxActions entries selection = pass at hpass ⊢
    obtain ⟨next, remaining, full⟩ := pass
    dsimp only
    split
    · exact ⟨remaining, hpass⟩
    · obtain ⟨final, hfinal⟩ := ih remaining next
      exact ⟨final, hfinal.trans hpass⟩

/-- Removing the chosen positions from a list leaves what was not chosen. -/
theorem perm_filter_positions {items : List PendingAction} {chosen rest : List QueueEntry}
    (h : (chosen ++ rest).Perm items.zipIdx) :
    (chosen ++ items.zipIdx.filter fun entry => entry.2 ∉ chosen.map Prod.snd).Perm
      items.zipIdx := by
  have hnodup : ((chosen ++ rest).map Prod.snd).Nodup := by
    rw [(h.map Prod.snd).nodup_iff, List.zipIdx_map_snd]
    exact List.nodup_range'
  rw [List.map_append, List.nodup_append] at hnodup
  have hchosen : chosen.filter (fun entry => entry.2 ∉ chosen.map Prod.snd) = [] := by
    rw [List.filter_eq_nil_iff]
    intro entry hentry
    simpa using ⟨entry.1, hentry⟩
  have hrest : rest.filter (fun entry => entry.2 ∉ chosen.map Prod.snd) = rest := by
    rw [List.filter_eq_self]
    intro entry hentry
    refine decide_eq_true fun hmem => ?_
    exact hnodup.2.2 _ hmem _ (List.mem_map_of_mem hentry) rfl
  have hfilter := h.symm.filter fun entry => entry.2 ∉ chosen.map Prod.snd
  rw [List.filter_append, hchosen, hrest, List.nil_append] at hfilter
  exact (hfilter.append_left chosen).trans h

/-- Every action of the queue goes to exactly one of the four parts. -/
theorem divide_perm (maxActions : ℕ) (expectedNonces : Std.ExtTreeMap (FixedBytes 32) UInt64)
    (finalizedSlot : UInt64) (pending : List PendingAction) :
    let division := divide maxActions expectedNonces finalizedSlot pending
    pending.Perm (division.expired ++ (division.selected ++ division.stale ++
      division.remaining)) := by
  intro division
  let viable := pending.filter fun item => !isExpired finalizedSlot item
  let selection := selectCanonicalIndices viable expectedNonces maxActions
  obtain ⟨rest, hrest⟩ := selectLoop_perm maxActions (viable.length + 1)
    (viable.zipIdx.insertionSort admittedBefore) ⟨[], [], expectedNonces⟩
  have hchosen : (selection.selected ++ selection.stale ++ rest).Perm viable.zipIdx :=
    hrest.trans (List.perm_insertionSort _ _)
  have hviable := (perm_filter_positions hchosen).map Prod.fst
  rw [List.zipIdx_map_fst, List.map_append, List.map_append] at hviable
  have hsplit : (division.expired ++ viable).Perm pending := List.filter_append_perm _ _
  exact hsplit.symm.trans (hviable.symm.append_left _)

end JamScript
