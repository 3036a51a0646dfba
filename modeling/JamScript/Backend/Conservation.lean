import JamScript.Backend.Coordinator

/-!
# No transaction is lost or doubled

An invariant of the coordinator under all its operations, in any order and on any batch: a
transaction is queued, or in one batch, or it ended with an error before it was in one; queues keep
their bounds; and a batch that does not hold the lane of its service has been materialized or has
failed.

`Conserved.enqueue`, `Conserved.takeReadyBatch` and `Conserved.updateBatch` are the steps. The last
one is for every operation on a batch: they all change the records of its transactions alike and
leave everything else of a transaction's place alone, which `UpdatesBatch` says once.
-/

namespace JamScript

open Codec OrderedMap TransactionCoordinatorState

/-- The record of a transaction that waits in a queue. -/
structure IsQueued (transaction : LogicalTransaction) (serviceId : UInt32) : Prop where
  service : transaction.serviceId = serviceId
  batchId : transaction.batchId = none
  error : transaction.error = none
  known : transaction.submissionUnknown = false
  packageHash : transaction.packageHash = none

/-- The record of a transaction that is an action of a batch. -/
structure IsBatched (transaction : LogicalTransaction) (batchId : BatchId) (index : ℕ)
    (batch : InFlightBatch) : Prop where
  batchId : transaction.batchId = some batchId
  actionIndex : transaction.actionIndex = some index
  service : transaction.serviceId = batch.serviceId
  packageHash : transaction.packageHash = batch.packageHash

/-- Every transaction is in one place, and its record says where. -/
structure Conserved (limits : CoordinatorLimits) (s : TransactionCoordinatorState) : Prop where
  queuedOnce : ∀ (serviceId : UInt32), ((s.queue serviceId).map PendingAction.logicalId).Nodup
  queued : ∀ (serviceId : UInt32), ∀ item ∈ s.queue serviceId,
    ∃ transaction : LogicalTransaction, s.transactions[item.logicalId]? = some transaction ∧
    IsQueued transaction serviceId
  batchKnown : ∀ (batchId : BatchId) (batch : InFlightBatch), s.batches[batchId]? = some batch →
    batchId < s.nextBatchId ∧ batch.logicalTransactionIds.Nodup
  batched : ∀ (batchId : BatchId) (batch : InFlightBatch) (index : ℕ) (id : TransactionId),
    s.batches[batchId]? = some batch →
    batch.logicalTransactionIds[index]? = some id →
      ∃ transaction : LogicalTransaction, s.transactions[id]? = some transaction ∧
      IsBatched transaction batchId index batch
  waiting : ∀ (id : TransactionId) (transaction : LogicalTransaction),
    s.transactions[id]? = some transaction → transaction.batchId = none →
    transaction.error = none → ∃ item ∈ s.queue transaction.serviceId, item.logicalId = id
  inBatch : ∀ (id : TransactionId) (transaction : LogicalTransaction) (batchId : BatchId),
    s.transactions[id]? = some transaction →
    transaction.batchId = some batchId →
      ∃ batch : InFlightBatch, s.batches[batchId]? = some batch ∧ id ∈ batch.logicalTransactionIds
  queueBound : ∀ (serviceId : UInt32), (s.queue serviceId).length ≤ limits.maxQueuedPerService
  senderBound : ∀ (serviceId : UInt32) (sender : FixedBytes 32),
    s.queuedForSender serviceId sender ≤ limits.maxQueuedPerSender
  lane : ∀ (serviceId : UInt32) (batchId : BatchId), s.inFlight[serviceId]? = some batchId →
    ∃ batch : InFlightBatch, s.batches[batchId]? = some batch ∧ batch.serviceId = serviceId ∧
    batch.materialized = false
  settled : ∀ (batchId : BatchId) (batch : InFlightBatch), s.batches[batchId]? = some batch →
    s.inFlight[batch.serviceId]? = some batchId ∨ batch.materialized = true ∨
      ∀ id ∈ batch.logicalTransactionIds,
        ∃ transaction : LogicalTransaction, s.transactions[id]? = some transaction ∧
        transaction.error ≠ none

namespace Conserved

variable {limits : CoordinatorLimits} {s s' : TransactionCoordinatorState}

theorem initial : Conserved limits TransactionCoordinatorState.initial := by
  constructor <;> simp [TransactionCoordinatorState.initial, queue, queuedForSender]

/-- A transaction of a batch is in no queue. -/
theorem not_queued (h : Conserved limits s) {batchId : BatchId} {batch : InFlightBatch}
    (hbatch : s.batches[batchId]? = some batch) {serviceId : UInt32} {item : PendingAction}
    (hitem : item ∈ s.queue serviceId) : item.logicalId ∉ batch.logicalTransactionIds := by
  intro hmem
  obtain ⟨index, hindex⟩ := List.mem_iff_getElem?.mp hmem
  obtain ⟨transaction, hrecord, hplaced⟩ := h.batched _ _ _ _ hbatch hindex
  obtain ⟨queued, hqueued, hwaits⟩ := h.queued _ _ hitem
  rw [hrecord] at hqueued
  cases hqueued
  exact absurd (hwaits.batchId.symm.trans hplaced.batchId) nofun

/-- A transaction is in one batch only. -/
theorem batch_unique (h : Conserved limits s) {left right : BatchId}
    {leftBatch rightBatch : InFlightBatch} (hleft : s.batches[left]? = some leftBatch)
    (hright : s.batches[right]? = some rightBatch) {id : TransactionId}
    (hidLeft : id ∈ leftBatch.logicalTransactionIds)
    (hidRight : id ∈ rightBatch.logicalTransactionIds) : left = right := by
  obtain ⟨i, hi⟩ := List.mem_iff_getElem?.mp hidLeft
  obtain ⟨j, hj⟩ := List.mem_iff_getElem?.mp hidRight
  obtain ⟨transaction, hrecord, hplaced⟩ := h.batched _ _ _ _ hleft hi
  obtain ⟨other, hother, hplaced'⟩ := h.batched _ _ _ _ hright hj
  rw [hrecord] at hother
  cases hother
  exact Option.some.inj (hplaced.batchId.symm.trans hplaced'.batchId)

end Conserved

/-! ## Operations on a batch -/

/-- The second state differs from the first by one batch: `update` has been applied to the records
of its transactions and `next` is its new record. -/
structure UpdatesBatch (batchId : BatchId) (batch next : InFlightBatch)
    (update : LogicalTransaction → LogicalTransaction) (s s' : TransactionCoordinatorState) :
    Prop where
  queued : s'.queued = s.queued
  nextBatchId : s'.nextBatchId = s.nextBatchId
  before : s.batches[batchId]? = some batch
  batches : ∀ other : BatchId, s'.batches[other]? = if other = batchId then some next else
    s.batches[other]?
  ids : next.logicalTransactionIds = batch.logicalTransactionIds
  service : next.serviceId = batch.serviceId
  materialized : batch.materialized = true → next.materialized = true
  inside : ∀ id ∈ batch.logicalTransactionIds, s'.transactions[id]? = s.transactions[id]?.map update
  outside : ∀ id ∉ batch.logicalTransactionIds, s'.transactions[id]? = s.transactions[id]?
  /-- The update moves no transaction and clears no error. -/
  keeps : ∀ transaction, (update transaction).serviceId = transaction.serviceId ∧
    (update transaction).batchId = transaction.batchId ∧
    (update transaction).actionIndex = transaction.actionIndex ∧
    (transaction.error ≠ none → (update transaction).error ≠ none)
  packageHash : ∀ transaction, transaction.packageHash = batch.packageHash →
    (update transaction).packageHash = next.packageHash
  /-- No lane but that of the batch is freed, and that one only once the batch is settled. -/
  lanes : ∀ serviceId : UInt32, s'.inFlight[serviceId]? = s.inFlight[serviceId]? ∨
    serviceId = batch.serviceId ∧ s.inFlight[serviceId]? = some batchId ∧
    s'.inFlight[serviceId]? = none
  holds : s'.inFlight[batch.serviceId]? = some batchId → next.materialized = batch.materialized
  freed : s.inFlight[batch.serviceId]? = some batchId → s'.inFlight[batch.serviceId]? = none →
    next.materialized = true ∨ ∀ transaction, (update transaction).error ≠ none

/-- The parts of a state that say where the transactions are. -/
structure SamePlaces (s s' : TransactionCoordinatorState) : Prop where
  queued : s'.queued = s.queued
  transactions : s'.transactions = s.transactions
  batches : s'.batches = s.batches
  inFlight : s'.inFlight = s.inFlight
  nextBatchId : s'.nextBatchId = s.nextBatchId

theorem SamePlaces.refl (s : TransactionCoordinatorState) : SamePlaces s s :=
  ⟨rfl, rfl, rfl, rfl, rfl⟩

/-- What an operation on a batch does: nothing, or an update of the batch. -/
def BatchChange (s s' : TransactionCoordinatorState) : Prop :=
  SamePlaces s s' ∨ ∃ batchId batch next update, UpdatesBatch batchId batch next update s s'

namespace Conserved

variable {limits : CoordinatorLimits} {s s' : TransactionCoordinatorState}

theorem updateBatch (h : Conserved limits s) {batchId : BatchId} {batch next : InFlightBatch}
    {update : LogicalTransaction → LogicalTransaction}
    (hupdate : UpdatesBatch batchId batch next update s s') : Conserved limits s' := by
  have hqueue : ∀ serviceId, s'.queue serviceId = s.queue serviceId := by
    intro serviceId
    rw [queue, queue, hupdate.queued]
  -- every record has a counterpart before the update that agrees on the place
  have hback : ∀ {id : TransactionId} {transaction : LogicalTransaction}, s'.transactions[id]? =
    some transaction →
      ∃ old : LogicalTransaction, s.transactions[id]? = some old ∧
      transaction.serviceId = old.serviceId ∧
        transaction.batchId = old.batchId ∧ (transaction.error = none → old.error = none) := by
    intro id transaction hrecord
    by_cases hid : id ∈ batch.logicalTransactionIds
    · rw [hupdate.inside id hid, Option.map_eq_some_iff] at hrecord
      obtain ⟨old, hold, rfl⟩ := hrecord
      obtain ⟨hservice, hbatch, -, herror⟩ := hupdate.keeps old
      exact ⟨old, hold, hservice, hbatch, fun hnone => by_contra fun hsome => herror hsome hnone⟩
    · rw [hupdate.outside id hid] at hrecord
      exact ⟨transaction, hrecord, rfl, rfl, fun hnone => hnone⟩
  have hforward : ∀ {id : TransactionId} {old : LogicalTransaction},
    s.transactions[id]? = some old →
      ∃ transaction : LogicalTransaction, s'.transactions[id]? = some transaction ∧
        (old.error ≠ none → transaction.error ≠ none) := by
    intro id old hold
    by_cases hid : id ∈ batch.logicalTransactionIds
    · exact ⟨update old, by rw [hupdate.inside id hid, hold]; rfl, (hupdate.keeps old).2.2.2⟩
    · exact ⟨old, by rw [hupdate.outside id hid, hold], fun hsome => hsome⟩
  constructor
  · intro serviceId
    rw [hqueue]
    exact h.queuedOnce serviceId
  · intro serviceId item hitem
    rw [hqueue] at hitem
    obtain ⟨transaction, hrecord, hqueued⟩ := h.queued serviceId item hitem
    refine ⟨transaction, ?_, hqueued⟩
    rw [hupdate.outside _ (h.not_queued hupdate.before hitem), hrecord]
  · intro other otherBatch hother
    rw [hupdate.batches] at hother
    rw [hupdate.nextBatchId]
    split at hother
    next heq =>
      cases hother
      rw [heq, hupdate.ids]
      exact h.batchKnown _ _ hupdate.before
    next => exact h.batchKnown _ _ hother
  · intro other otherBatch index id hother hindex
    rw [hupdate.batches] at hother
    split at hother
    next heq =>
      cases hother
      rw [hupdate.ids] at hindex
      obtain ⟨transaction, hrecord, hplaced⟩ := h.batched _ _ _ _ hupdate.before hindex
      obtain ⟨hservice, hbatch, hposition, -⟩ := hupdate.keeps transaction
      refine ⟨update transaction, ?_, ?_⟩
      · rw [hupdate.inside _ (List.mem_of_getElem? hindex), hrecord]
        rfl
      · exact ⟨heq ▸ hbatch.trans hplaced.batchId, hposition.trans hplaced.actionIndex,
          (hservice.trans hplaced.service).trans hupdate.service.symm,
          hupdate.packageHash _ hplaced.packageHash⟩
    next hne =>
      obtain ⟨transaction, hrecord, hplaced⟩ := h.batched _ _ _ _ hother hindex
      refine ⟨transaction, ?_, hplaced⟩
      rw [hupdate.outside _ fun hid => ?_, hrecord]
      exact hne (h.batch_unique hother hupdate.before (List.mem_of_getElem? hindex) hid)
  · intro id transaction hrecord hbatch herror
    obtain ⟨old, hold, hservice, hbatchOld, herrorOld⟩ := hback hrecord
    rw [hqueue, hservice]
    exact h.waiting id old hold (hbatchOld.symm.trans hbatch) (herrorOld herror)
  · intro id transaction other hrecord hbatch
    obtain ⟨old, hold, -, hbatchOld, -⟩ := hback hrecord
    obtain ⟨otherBatch, hother, hid⟩ := h.inBatch id old other hold (hbatchOld.symm.trans hbatch)
    by_cases heq : other = batchId
    · subst heq
      rw [hupdate.before] at hother
      cases hother
      exact ⟨next, by rw [hupdate.batches, if_pos rfl], hupdate.ids ▸ hid⟩
    · exact ⟨otherBatch, by rw [hupdate.batches, if_neg heq, hother], hid⟩
  · intro serviceId
    rw [hqueue]
    exact h.queueBound serviceId
  · intro serviceId sender
    rw [queuedForSender, hqueue]
    exact h.senderBound serviceId sender
  · intro serviceId holder hholder
    have hholderOld : s.inFlight[serviceId]? = some holder := by
      rcases hupdate.lanes serviceId with hsame | ⟨-, -, hnone⟩
      · rw [← hsame, hholder]
      · rw [hnone] at hholder
        cases hholder
    obtain ⟨held, hheld, hservice, hopen⟩ := h.lane serviceId holder hholderOld
    by_cases heq : holder = batchId
    · subst heq
      rw [hupdate.before] at hheld
      cases hheld
      subst hservice
      exact ⟨next, by rw [hupdate.batches, if_pos rfl], hupdate.service,
        (hupdate.holds hholder).trans hopen⟩
    · exact ⟨held, by rw [hupdate.batches, if_neg heq, hheld], hservice, hopen⟩
  · intro other otherBatch hother
    have herrors : ∀ {ids : List TransactionId}, (∀ id ∈ ids, ∃ transaction : LogicalTransaction,
        s.transactions[id]? = some transaction ∧ transaction.error ≠ none) →
        ∀ id ∈ ids, ∃ transaction : LogicalTransaction, s'.transactions[id]? = some transaction ∧
        transaction.error ≠ none := by
      intro ids hids id hid
      obtain ⟨old, hold, herror⟩ := hids id hid
      obtain ⟨transaction, hrecord, hkeeps⟩ := hforward hold
      exact ⟨transaction, hrecord, hkeeps herror⟩
    rw [hupdate.batches] at hother
    split at hother
    next heq =>
      cases hother
      subst heq
      rw [hupdate.ids, hupdate.service]
      rcases h.settled _ _ hupdate.before with hlane | hmaterialized | hfailed
      · rcases hupdate.lanes batch.serviceId with hsame | ⟨-, -, hnone⟩
        · exact .inl (hsame.trans hlane)
        · rcases hupdate.freed hlane hnone with hmaterialized | hfails
          · exact .inr (.inl hmaterialized)
          · refine .inr (.inr fun id hid => ?_)
            obtain ⟨index, hindex⟩ := List.mem_iff_getElem?.mp hid
            obtain ⟨old, hold, -⟩ := h.batched _ _ _ _ hupdate.before hindex
            exact ⟨update old, by rw [hupdate.inside id hid, hold]; rfl, hfails old⟩
      · exact .inr (.inl (hupdate.materialized hmaterialized))
      · exact .inr (.inr (herrors hfailed))
    next hne =>
      rcases h.settled _ _ hother with hlane | hmaterialized | hfailed
      · rcases hupdate.lanes otherBatch.serviceId with hsame | ⟨-, hheld, -⟩
        · exact .inl (hsame.trans hlane)
        · exact absurd (Option.some.inj (hlane.symm.trans hheld)) hne
      · exact .inr (.inl hmaterialized)
      · exact .inr (.inr (herrors hfailed))

/-- Deadlines, marks and counters of arrival are not part of the invariant. -/
theorem congr (h : Conserved limits s) (hsame : SamePlaces s s') : Conserved limits s' := by
  obtain ⟨_, _, nextBatchId, queued, _, _, inFlight, transactions, batches⟩ := s'
  obtain ⟨rfl, rfl, rfl, rfl, rfl⟩ := hsame
  exact ⟨h.queuedOnce, h.queued, h.batchKnown, h.batched, h.waiting, h.inBatch, h.queueBound,
    h.senderBound, h.lane, h.settled⟩

theorem batchChange (h : Conserved limits s) (hchange : BatchChange s s') :
    Conserved limits s' := by
  rcases hchange with hsame | ⟨_, _, _, _, hupdate⟩
  · exact h.congr hsame
  · exact h.updateBatch hupdate

end Conserved

section Records

variable {s : TransactionCoordinatorState} {ids : List TransactionId}
  {update : LogicalTransaction → LogicalTransaction} {id : TransactionId}

theorem transactions_modifyTransactions_of_mem (hnodup : ids.Nodup) (hid : id ∈ ids) :
    (s.modifyTransactions ids update).transactions[id]? = s.transactions[id]?.map update := by
  refine getElem?_modifyAll_of_mem ?_ (List.mem_map_of_mem hid)
  rw [List.map_map]
  simpa [Function.comp_def] using hnodup

theorem transactions_modifyTransactions_of_notMem (hid : id ∉ ids) :
    (s.modifyTransactions ids update).transactions[id]? = s.transactions[id]? := by
  refine getElem?_modifyAll_of_notMem ?_
  rw [List.map_map]
  simpa [Function.comp_def] using hid

theorem failOnce_error_ne_none (error : String) (errorInfo : Option ErrorInfo)
    (transaction : LogicalTransaction) : (failOnce error errorInfo transaction).error ≠ none := by
  unfold failOnce
  split
  · exact nofun
  · assumption

end Records

/-! ### Edits

The five operations of the source differ in what they write, in whether they touch a materialized
batch and in what they do to the lane. -/

/-- What an operation does to the lane of a service. -/
inductive LaneEdit where
  | keep
  | endFlush
  | release
  deriving DecidableEq

/-- Free the lane of the service if the edit does so and the batch holds it. -/
def LaneEdit.lanes (edit : LaneEdit) (serviceId : UInt32) (batchId : BatchId)
    (inFlight : Std.ExtTreeMap UInt32 BatchId) : Std.ExtTreeMap UInt32 BatchId :=
  if edit = .release ∧ inFlight[serviceId]? = some batchId then inFlight.erase
    serviceId else inFlight

def LaneEdit.apply (serviceId : UInt32) (batchId : BatchId) (s : TransactionCoordinatorState) :
    LaneEdit → TransactionCoordinatorState
  | .keep => s
  | .endFlush => { s with flushing := s.flushing.erase serviceId }
  | .release => s.releaseLane serviceId batchId

namespace LaneEdit

variable {edit : LaneEdit} {held serviceId : UInt32} {batchId : BatchId}

theorem apply_eq (edit : LaneEdit) (serviceId : UInt32) (batchId : BatchId)
    (s : TransactionCoordinatorState) :
    ∃ flushing, edit.apply serviceId batchId s =
      { s with flushing, inFlight := edit.lanes serviceId batchId s.inFlight } := by
  cases edit with
  | keep => exact ⟨s.flushing, rfl⟩
  | endFlush => exact ⟨s.flushing.erase serviceId, rfl⟩
  | release =>
    refine ⟨s.flushing.erase serviceId, ?_⟩
    simp only [apply, releaseLane, lanes, true_and]

theorem lanes_cases (inFlight : Std.ExtTreeMap UInt32 BatchId) :
    (edit.lanes held batchId inFlight)[serviceId]? = inFlight[serviceId]? ∨
      serviceId = held ∧ edit = .release ∧ inFlight[serviceId]? = some batchId ∧
        (edit.lanes held batchId inFlight)[serviceId]? = none := by
  unfold lanes
  split
  next hholds =>
    by_cases heq : serviceId = held
    · subst heq
      exact .inr ⟨rfl, hholds.1, hholds.2, getElem?_erase_self _ _⟩
    · exact .inl (getElem?_erase_of_ne _ (Ne.symm heq))
  next => exact .inl rfl

theorem not_held (inFlight : Std.ExtTreeMap UInt32 BatchId) (h : edit = .release) :
    (edit.lanes held batchId inFlight)[held]? ≠ some batchId := by
  unfold lanes
  split
  next => exact fun hheld => absurd ((getElem?_erase_self _ _).symm.trans hheld) nofun
  next hother => exact fun hheld => hother ⟨h, hheld⟩

end LaneEdit

/-- What an operation writes into a batch and into the records of its transactions. -/
structure BatchEdit where
  next : InFlightBatch → InFlightBatch
  update : LogicalTransaction → LogicalTransaction
  lane : LaneEdit
  onlyOpen : Bool
  same : ∀ batch, (next batch).serviceId = batch.serviceId ∧
    (next batch).logicalTransactionIds = batch.logicalTransactionIds := by exact fun _ => ⟨rfl, rfl⟩
  keeps : ∀ transaction, (update transaction).serviceId = transaction.serviceId ∧
    (update transaction).batchId = transaction.batchId ∧
    (update transaction).actionIndex = transaction.actionIndex ∧
    (transaction.error ≠ none → (update transaction).error ≠ none) := by
      exact fun _ => ⟨rfl, rfl, rfl, fun hsome => hsome⟩
  packageHash : ∀ batch transaction, transaction.packageHash = batch.packageHash →
    (update transaction).packageHash = (next batch).packageHash := by exact fun _ _ hhash => hhash
  stays : lane ≠ .release → ∀ batch, (next batch).materialized = batch.materialized := by
    exact fun _ _ => rfl
  frees : lane = .release → onlyOpen = true ∧
    ((∀ batch, (next batch).materialized = true) ∨
      ∀ transaction, (update transaction).error ≠ none) := by nofun

/-- An unknown batch is left alone, except that finishing it ends the flush of service 0. -/
def BatchEdit.apply (edit : BatchEdit) (batchId : BatchId) (s : TransactionCoordinatorState) :
    TransactionCoordinatorState :=
  match s.batches[batchId]? with
  | none => if edit.lane = .endFlush then { s with flushing := s.flushing.erase 0 } else s
  | some batch =>
    if edit.onlyOpen && batch.materialized then s
    else edit.lane.apply batch.serviceId batchId
      { s.modifyTransactions batch.logicalTransactionIds edit.update with
        batches := s.batches.insert batchId (edit.next batch) }

def finishEdit (packageHash : StateRoot) (prediction : RuntimeRefineOutputV1) : BatchEdit where
  next batch := { batch with predictedOutput := some prediction, packageHash := some packageHash }
  update transaction := { transaction with packageHash := some packageHash }
  lane := .endFlush
  onlyOpen := false
  packageHash _ _ _ := rfl

def failEdit (error : String) (errorInfo : Option ErrorInfo) : BatchEdit where
  next := id
  update := failOnce error errorInfo
  lane := .release
  onlyOpen := true
  keeps transaction := by
    unfold failOnce
    split
    · exact ⟨rfl, rfl, rfl, fun _ => nofun⟩
    · exact ⟨rfl, rfl, rfl, fun hsome => hsome⟩
  packageHash batch transaction hhash := by
    unfold failOnce
    split <;> exact hhash
  frees _ := ⟨rfl, .inr (failOnce_error_ne_none error errorInfo)⟩

def unknownEdit (error : String) : BatchEdit where
  next := id
  update := setUnknown error
  lane := .keep
  onlyOpen := false
  keeps _ := ⟨rfl, rfl, rfl, fun _ => nofun⟩

def materializeEdit : BatchEdit where
  next batch := { batch with materialized := true }
  update := id
  lane := .release
  onlyOpen := true
  stays h := absurd rfl h
  frees _ := ⟨rfl, .inl fun _ => rfl⟩

def statusEdit (status : String) : BatchEdit where
  next batch := { batch with lastStatus := some status }
  update := id
  lane := .keep
  onlyOpen := false

section Operations

variable (s : TransactionCoordinatorState) (batchId : BatchId)

theorem modifyTransactions_id (ids : List TransactionId) : s.modifyTransactions ids id = s := by
  have hrecords : modifyAll s.transactions (ids.map fun key => (key, id)) = s.transactions := by
    induction ids with
    | nil => rfl
    | cons key ids ih =>
      have hfirst : s.transactions.modify key id = s.transactions := by
        refine Std.ExtTreeMap.ext_getElem? fun {other} => ?_
        by_cases heq : key = other
        · rw [heq, getElem?_modify_self, Option.map_id_apply]
        · rw [getElem?_modify_of_ne _ _ heq]
      rw [List.map_cons, modifyAll, List.foldl_cons, hfirst]
      exact ih
  rw [modifyTransactions, hrecords]

theorem finishBatch_eq (packageHash : StateRoot) (prediction : RuntimeRefineOutputV1) :
    s.finishBatch batchId packageHash prediction = (finishEdit packageHash prediction).apply
      batchId s := by
  unfold finishBatch BatchEdit.apply
  cases s.batches[batchId]? <;> rfl

theorem failBatchWithInfo_eq (error : String) (errorInfo : Option ErrorInfo) :
    s.failBatchWithInfo batchId error errorInfo = (failEdit error errorInfo).apply batchId s := by
  unfold failBatchWithInfo BatchEdit.apply
  cases hbatch : s.batches[batchId]? with
  | none => rfl
  | some batch =>
    dsimp only [failEdit, id]
    rw [insert_eq_self hbatch]
    rfl

theorem markBatchSubmissionUnknown_eq (error : String) :
    s.markBatchSubmissionUnknown batchId error = (unknownEdit error).apply batchId s := by
  unfold markBatchSubmissionUnknown BatchEdit.apply
  cases hbatch : s.batches[batchId]? with
  | none => rfl
  | some batch =>
    dsimp only [unknownEdit, id]
    rw [insert_eq_self hbatch]
    rfl

theorem markMaterialized_eq : s.markMaterialized batchId = materializeEdit.apply batchId s := by
  unfold markMaterialized BatchEdit.apply
  cases s.batches[batchId]? with
  | none => rfl
  | some batch =>
    dsimp only [materializeEdit]
    rw [modifyTransactions_id]
    rfl

theorem recordBatchStatus_eq (status : String) :
    s.recordBatchStatus batchId status = (statusEdit status).apply batchId s := by
  unfold recordBatchStatus BatchEdit.apply
  cases s.batches[batchId]? with
  | none => rfl
  | some batch =>
    dsimp only [statusEdit]
    rw [modifyTransactions_id]
    rfl

end Operations

namespace BatchEdit

variable (edit : BatchEdit) {s : TransactionCoordinatorState} {batchId : BatchId}

/-- Nothing but the flushing set changes, or the edit is made. -/
theorem apply_cases (s : TransactionCoordinatorState) (batchId : BatchId) :
    (∃ flushing, edit.apply batchId s = { s with flushing }) ∨
      ∃ (batch : InFlightBatch) (flushing : _), s.batches[batchId]? = some batch ∧
        (edit.onlyOpen = true → batch.materialized = false) ∧
        edit.apply batchId s = { s.modifyTransactions batch.logicalTransactionIds edit.update with
          batches := s.batches.insert batchId (edit.next batch)
          inFlight := edit.lane.lanes batch.serviceId batchId s.inFlight
          flushing } := by
  unfold apply
  cases hbatch : s.batches[batchId]? with
  | none =>
    dsimp only
    split
    · exact .inl ⟨_, rfl⟩
    · exact .inl ⟨s.flushing, rfl⟩
  | some batch =>
    dsimp only
    split
    next => exact .inl ⟨s.flushing, rfl⟩
    next hopen =>
      obtain ⟨flushing, heq⟩ := edit.lane.apply_eq batch.serviceId batchId
        { s.modifyTransactions batch.logicalTransactionIds edit.update with
          batches := s.batches.insert batchId (edit.next batch) }
      exact .inr ⟨batch, flushing, rfl, by simpa using hopen, heq⟩

/-- An edit changes nothing, or it updates the one batch. -/
theorem change {limits : CoordinatorLimits} (h : Conserved limits s) (batchId : BatchId) :
    BatchChange s (edit.apply batchId s) := by
  obtain ⟨flushing, heq⟩ | ⟨batch, flushing, hbatch, hopen, heq⟩ := edit.apply_cases s batchId
  · exact heq ▸ .inl ⟨rfl, rfl, rfl, rfl, rfl⟩
  have hnodup := (h.batchKnown _ _ hbatch).2
  rw [heq]
  exact .inr ⟨batchId, batch, edit.next batch, edit.update, {
    queued := rfl
    nextBatchId := rfl
    before := hbatch
    batches := fun other => getElem?_insert_ite s.batches batchId other _
    ids := (edit.same batch).2
    service := (edit.same batch).1
    materialized := fun hmaterialized => by
      have hkeeps : edit.lane ≠ .release := fun hrelease =>
        absurd ((hopen (edit.frees hrelease).1).symm.trans hmaterialized) nofun
      rw [edit.stays hkeeps, hmaterialized]
    inside := fun _ hid => transactions_modifyTransactions_of_mem hnodup hid
    outside := fun _ hid => transactions_modifyTransactions_of_notMem hid
    keeps := edit.keeps
    packageHash := edit.packageHash batch
    lanes := fun _ => (LaneEdit.lanes_cases s.inFlight).imp_right fun h => ⟨h.1, h.2.2⟩
    holds := fun hheld => edit.stays (fun hrelease => LaneEdit.not_held s.inFlight
      hrelease hheld) batch
    freed := fun hheld hnone => by
      rcases LaneEdit.lanes_cases s.inFlight with hsame | ⟨-, hrelease, -⟩
      · exact absurd ((hsame.trans hheld).symm.trans hnone) nofun
      · exact (edit.frees hrelease).2.imp_left fun hall => hall batch }⟩

end BatchEdit

namespace Conserved

variable {limits : CoordinatorLimits} {s : TransactionCoordinatorState}

theorem markBestIncluded (h : Conserved limits s) (logicalId : TransactionId) :
    Conserved limits (s.markBestIncluded logicalId) := by
  -- the mark is not part of a transaction's place
  have hforward : ∀ {id : TransactionId} {old : LogicalTransaction},
    s.transactions[id]? = some old →
      ∃ transaction : LogicalTransaction, (s.markBestIncluded logicalId).transactions[id]? =
      some transaction ∧
        ∃ mark, transaction = { old with bestIncluded := mark } := by
    intro id old hold
    by_cases heq : logicalId = id
    · subst heq
      refine ⟨_, ?_, true, rfl⟩
      rw [TransactionCoordinatorState.markBestIncluded, getElem?_modify_self, hold]
      rfl
    · refine ⟨old, ?_, old.bestIncluded, rfl⟩
      rw [TransactionCoordinatorState.markBestIncluded, getElem?_modify_of_ne _ _ heq, hold]
  have hback : ∀ {id : TransactionId} {transaction : LogicalTransaction},
      (s.markBestIncluded logicalId).transactions[id]? = some transaction →
      ∃ old : LogicalTransaction, s.transactions[id]? = some old ∧
        ∃ mark, transaction = { old with bestIncluded := mark } := by
    intro id transaction hrecord
    cases hold : s.transactions[id]? with
    | none =>
      by_cases heq : logicalId = id
      · subst heq
        rw [TransactionCoordinatorState.markBestIncluded, getElem?_modify_self, hold] at hrecord
        cases hrecord
      · rw [TransactionCoordinatorState.markBestIncluded, getElem?_modify_of_ne _ _ heq,
          hold] at hrecord
        cases hrecord
    | some old =>
      obtain ⟨other, hother, hmark⟩ := hforward hold
      rw [hrecord] at hother
      cases hother
      exact ⟨old, rfl, hmark⟩
  constructor
  · exact h.queuedOnce
  · intro serviceId item hitem
    obtain ⟨old, hold, hqueued⟩ := h.queued serviceId item hitem
    obtain ⟨transaction, hrecord, mark, rfl⟩ := hforward hold
    exact ⟨_, hrecord, hqueued.service, hqueued.batchId, hqueued.error, hqueued.known,
      hqueued.packageHash⟩
  · exact h.batchKnown
  · intro batchId batch index id hbatch hindex
    obtain ⟨old, hold, hplaced⟩ := h.batched batchId batch index id hbatch hindex
    obtain ⟨transaction, hrecord, mark, rfl⟩ := hforward hold
    exact ⟨_, hrecord, hplaced.batchId, hplaced.actionIndex, hplaced.service, hplaced.packageHash⟩
  · intro id transaction hrecord
    obtain ⟨old, hold, mark, rfl⟩ := hback hrecord
    exact h.waiting id old hold
  · intro id transaction batchId hrecord
    obtain ⟨old, hold, mark, rfl⟩ := hback hrecord
    exact h.inBatch id old batchId hold
  · exact h.queueBound
  · exact h.senderBound
  · exact h.lane
  · intro batchId batch hbatch
    rcases h.settled batchId batch hbatch with hlane | hmaterialized | hfailed
    · exact .inl hlane
    · exact .inr (.inl hmaterialized)
    · refine .inr (.inr fun id hid => ?_)
      obtain ⟨old, hold, herror⟩ := hfailed id hid
      obtain ⟨transaction, hrecord, mark, rfl⟩ := hforward hold
      exact ⟨_, hrecord, herror⟩

end Conserved

/-! ## Admission -/

section Enqueue

variable (limits : CoordinatorLimits) (blake2_256 : Bytes → StateRoot) (now : ℕ)
  (serviceId : UInt32) (action : Bytes) (params : RequestParams) (s : TransactionCoordinatorState)

/-- The action that `enqueue` puts at the end of the queue. -/
def admitted (blake2_256 : Bytes → StateRoot) (serviceId : UInt32) (action : Bytes)
    (params : RequestParams) (s : TransactionCoordinatorState) : PendingAction :=
  let admission := admissionOf blake2_256 action
  { logicalId := s.nextId blake2_256 serviceId action
    action
    sender := admission.sender
    nonce := admission.nonce
    nonceStorageKey := admission.nonceStorageKey
    validUntil := admission.validUntil
    arrivalSequence := s.nextArrivalSequence
    params
    extrinsics := params.extrinsicsBase64 }

/-- A transaction is refused and nothing changes, or both bounds leave room and it goes to the end
of its queue. -/
theorem enqueue_cases :
    s.enqueue limits blake2_256 now serviceId action params =
        (.error (.queueFull (max limits.flushDelay 100)), s) ∨
      (s.queue serviceId).length < limits.maxQueuedPerService ∧
      (∀ sender, (admissionOf blake2_256 action).sender = some sender →
        s.queuedForSender serviceId sender < limits.maxQueuedPerSender) ∧
      ∃ nextSequences flushDeadlines, s.enqueue limits blake2_256 now serviceId action params =
        (.ok (s.nextId blake2_256 serviceId action), { s with
          nextSequences, flushDeadlines
          nextArrivalSequence := s.nextArrivalSequence + 1
          transactions := s.transactions.insert (s.nextId blake2_256 serviceId action)
            (queuedTransaction serviceId)
          queued := s.queued.insert serviceId
            (s.queue serviceId ++ [admitted blake2_256 serviceId action params s]) }) := by
  unfold enqueue
  dsimp only
  split
  next hfull => exact .inl rfl
  next hroom =>
    rw [not_or, not_le, not_le] at hroom
    refine .inr ⟨hroom.1, fun sender hsender => ?_, _, _, rfl⟩
    have hcount := hroom.2
    rw [hsender] at hcount
    exact hcount

end Enqueue

namespace Conserved

variable {limits : CoordinatorLimits} {s : TransactionCoordinatorState}

/-- An identifier that is not in use occurs in no queue and no batch. -/
theorem fresh (h : Conserved limits s) {id : TransactionId} (hfresh : s.transactions[id]? = none) :
    (∀ serviceId, id ∉ (s.queue serviceId).map PendingAction.logicalId) ∧
      ∀ (batchId : BatchId) (batch : InFlightBatch), s.batches[batchId]? = some batch →
        id ∉ batch.logicalTransactionIds := by
  constructor
  · intro serviceId hid
    obtain ⟨item, hitem, rfl⟩ := List.mem_map.mp hid
    obtain ⟨transaction, hrecord, -⟩ := h.queued serviceId item hitem
    exact absurd (hfresh.symm.trans hrecord) nofun
  · intro batchId batch hbatch hid
    obtain ⟨index, hindex⟩ := List.mem_iff_getElem?.mp hid
    obtain ⟨transaction, hrecord, -⟩ := h.batched _ _ _ _ hbatch hindex
    exact absurd (hfresh.symm.trans hrecord) nofun

/-- A transaction with a fresh identifier joins the end of its queue. -/
theorem enqueue (h : Conserved limits s) (blake2_256 : Bytes → StateRoot) (now : ℕ)
    (serviceId : UInt32) (action : Bytes) (params : RequestParams)
    (hfresh : s.transactions[s.nextId blake2_256 serviceId action]? = none) :
    Conserved limits (s.enqueue limits blake2_256 now serviceId action params).2 := by
  obtain hsame | ⟨hlength, hsender, nextSequences, flushDeadlines, hnext⟩ :=
    enqueue_cases limits blake2_256 now serviceId action params s
  · rw [hsame]
    exact h
  rw [hnext]
  set newId := s.nextId blake2_256 serviceId action
  set item := admitted blake2_256 serviceId action params s
  set s' : TransactionCoordinatorState := { s with
    nextSequences, flushDeadlines
    nextArrivalSequence := s.nextArrivalSequence + 1
    transactions := s.transactions.insert newId (queuedTransaction serviceId)
    queued := s.queued.insert serviceId (s.queue serviceId ++ [item]) }
  obtain ⟨hnotQueued, hnotBatched⟩ := h.fresh hfresh
  have hself : s'.queue serviceId = s.queue serviceId ++ [item] := by
    rw [queue, getElem?_insert_self]
    rfl
  have hother : ∀ {other}, other ≠ serviceId → s'.queue other = s.queue other := by
    intro other hne
    rw [queue, queue, getElem?_insert_of_ne _ _ (Ne.symm hne)]
  have hnew : s'.transactions[newId]? = some (queuedTransaction serviceId) :=
    getElem?_insert_self _ _ _
  have hold : ∀ {id : TransactionId}, id ≠ newId → s'.transactions[id]? = s.transactions[id]? := by
    intro id hne
    exact getElem?_insert_of_ne _ _ (Ne.symm hne)
  have hbatchedId : ∀ {batchId : BatchId} {batch : InFlightBatch} {id : TransactionId},
      s.batches[batchId]? = some batch → id ∈ batch.logicalTransactionIds → id ≠ newId := by
    rintro batchId batch id hbatch hid rfl
    exact hnotBatched batchId batch hbatch hid
  constructor
  · intro other
    by_cases heq : other = serviceId
    · subst heq
      rw [hself, List.map_append, List.nodup_append]
      refine ⟨h.queuedOnce other, List.nodup_singleton _, ?_⟩
      rintro id hid _ hlast rfl
      cases List.mem_singleton.mp hlast
      exact hnotQueued other hid
    · rw [hother heq]
      exact h.queuedOnce other
  · intro other waiting hwaiting
    have hcases : waiting ∈ s.queue other ∨ other = serviceId ∧ waiting = item := by
      by_cases heq : other = serviceId
      · subst heq
        rw [hself, List.mem_append, List.mem_singleton] at hwaiting
        exact hwaiting.imp_right fun hlast => ⟨rfl, hlast⟩
      · rw [hother heq] at hwaiting
        exact .inl hwaiting
    rcases hcases with hbefore | ⟨rfl, rfl⟩
    · obtain ⟨transaction, hrecord, hqueued⟩ := h.queued other waiting hbefore
      refine ⟨transaction, ?_, hqueued⟩
      rw [hold, hrecord]
      rintro heq
      exact hnotQueued other (heq ▸ List.mem_map_of_mem hbefore)
    · exact ⟨_, hnew, rfl, rfl, rfl, rfl, rfl⟩
  · exact h.batchKnown
  · intro batchId batch index id hbatch hindex
    obtain ⟨transaction, hrecord, hplaced⟩ := h.batched batchId batch index id hbatch hindex
    exact ⟨transaction, (hold (hbatchedId hbatch (List.mem_of_getElem? hindex))).trans
      hrecord, hplaced⟩
  · intro id transaction hrecord hbatch herror
    by_cases heq : id = newId
    · subst heq
      cases hnew.symm.trans hrecord
      refine ⟨item, ?_, rfl⟩
      exact hself ▸ List.mem_append_right _ (List.mem_singleton_self item)
    · rw [hold heq] at hrecord
      obtain ⟨waiting, hwaiting, hid⟩ := h.waiting id transaction hrecord hbatch herror
      refine ⟨waiting, ?_, hid⟩
      by_cases hservice : transaction.serviceId = serviceId
      · rw [hservice] at hwaiting ⊢
        exact hself ▸ List.mem_append_left _ hwaiting
      · exact hother hservice ▸ hwaiting
  · intro id transaction batchId hrecord hbatch
    by_cases heq : id = newId
    · subst heq
      cases hnew.symm.trans hrecord
      cases hbatch
    · rw [hold heq] at hrecord
      exact h.inBatch id transaction batchId hrecord hbatch
  · intro other
    by_cases heq : other = serviceId
    · subst heq
      rw [hself, List.length_append]
      exact hlength
    · rw [hother heq]
      exact h.queueBound other
  · intro other sender
    by_cases heq : other = serviceId
    · subst heq
      rw [queuedForSender, hself, List.countP_append]
      by_cases hmine : item.sender = some sender
      · rw [List.countP_singleton, if_pos (decide_eq_true hmine)]
        exact hsender sender hmine
      · rw [List.countP_singleton, if_neg (by simpa using hmine)]
        exact h.senderBound other sender
    · rw [queuedForSender, hother heq]
      exact h.senderBound other sender
  · exact h.lane
  · intro batchId batch hbatch
    rcases h.settled batchId batch hbatch with hlane | hmaterialized | hfailed
    · exact .inl hlane
    · exact .inr (.inl hmaterialized)
    · refine .inr (.inr fun id hid => ?_)
      obtain ⟨transaction, hrecord, herror⟩ := hfailed id hid
      exact ⟨transaction, (hold (hbatchedId hbatch hid)).trans hrecord, herror⟩

end Conserved

/-! ## Dispatch -/

/-- What a division does to the records of transactions. -/
def divisionUpdates (batchId : BatchId) (division : Division) :
    List (TransactionId × (LogicalTransaction → LogicalTransaction)) :=
  (division.expired.map fun item => (item.logicalId, setError expiredMessage)) ++
    (division.stale.map fun item => (item.logicalId, setError staleMessage)) ++
      division.selected.zipIdx.map fun entry => (entry.1.logicalId, assign batchId entry.2)

theorem keys_divisionUpdates (batchId : BatchId) (division : Division) :
    (divisionUpdates batchId division).map Prod.fst =
      (division.expired ++ division.stale ++ division.selected).map PendingAction.logicalId := by
  have hselected : division.selected.zipIdx.map (fun entry => entry.1.logicalId) =
      division.selected.map PendingAction.logicalId := by
    conv_rhs => rw [← List.zipIdx_map_fst 0 division.selected, List.map_map]
    rfl
  rw [divisionUpdates, List.map_append, List.map_append, List.map_map, List.map_map, List.map_map,
    List.map_append, List.map_append]
  exact congrArg _ hselected

/-- The second state is the first after a division of the queue of a service: the selected actions,
if there are any, form the batch in flight. -/
structure Takes (serviceId : UInt32) (division : Division) (s s' : TransactionCoordinatorState) :
    Prop where
  parts : (s.queue serviceId).Perm
    (division.expired ++ (division.selected ++ division.stale ++ division.remaining))
  laneFree : s.laneFree serviceId
  nextArrivalSequence : s'.nextArrivalSequence = s.nextArrivalSequence
  queue : s'.queue serviceId = division.remaining
  others : ∀ other, other ≠ serviceId → s'.queue other = s.queue other
  transactions : s'.transactions = modifyAll s.transactions (divisionUpdates s.nextBatchId division)
  opened : division.selected = [] ∧ s'.batches = s.batches ∧ s'.inFlight = s.inFlight ∧
      s'.nextBatchId = s.nextBatchId ∨
    division.selected ≠ [] ∧
      s'.batches = s.batches.insert s.nextBatchId
        ⟨serviceId, division.selected.map PendingAction.logicalId, none, none, false, none⟩ ∧
      s'.inFlight = s.inFlight.insert serviceId s.nextBatchId ∧ s'.nextBatchId = s.nextBatchId + 1

section Take

variable (limits : CoordinatorLimits) (now : ℕ) (serviceId : UInt32) (division : Division)
  (s : TransactionCoordinatorState)

theorem transactions_applyDivision : (s.applyDivision limits now serviceId division).transactions =
    modifyAll s.transactions
      ((division.expired.map fun item => (item.logicalId, setError expiredMessage)) ++
      division.stale.map fun item => (item.logicalId, setError staleMessage)) := by
  unfold applyDivision modifyAll
  rw [List.foldl_append]
  dsimp only
  split <;> rfl

theorem queue_applyDivision_self :
    (s.applyDivision limits now serviceId division).queue serviceId = division.remaining := by
  unfold applyDivision
  dsimp only
  split
  next hnone =>
    rw [queue, getElem?_erase_self, hnone]
    rfl
  next =>
    rw [queue, getElem?_insert_self]
    rfl

theorem queue_applyDivision_of_ne {other : UInt32} (hne : other ≠ serviceId) :
    (s.applyDivision limits now serviceId division).queue other = s.queue other := by
  unfold applyDivision
  dsimp only
  split
  · rw [queue, queue, getElem?_erase_of_ne _ (Ne.symm hne)]
  · rw [queue, queue, getElem?_insert_of_ne _ _ (Ne.symm hne)]

theorem frame_applyDivision : (s.applyDivision limits now serviceId division).batches = s.batches ∧
    (s.applyDivision limits now serviceId division).inFlight = s.inFlight ∧
    (s.applyDivision limits now serviceId division).nextArrivalSequence = s.nextArrivalSequence ∧
    (s.applyDivision limits now serviceId division).nextBatchId = s.nextBatchId := by
  unfold applyDivision
  dsimp only
  split <;> exact ⟨rfl, rfl, rfl, rfl⟩

variable (expectedNonces : Std.ExtTreeMap (FixedBytes 32) UInt64) (finalizedSlot : UInt64)

/-- The queue of the service is divided when the dispatcher comes to it. -/
structure Dispatchable : Prop where
  laneFree : s.laneFree serviceId
  due : s.flushDue limits now serviceId
  nonces : ∀ item ∈ s.queue serviceId, ∀ sender, item.sender = some sender → sender ∈ expectedNonces

/-- The batch that is handed out is made of the selected actions. -/
theorem takeReadyBatch_of_dispatchable (h : Dispatchable limits now serviceId s expectedNonces) :
    let division := divide limits.maxActions expectedNonces finalizedSlot (s.queue serviceId)
    ∃ s', Takes serviceId division s s' ∧
      s.takeReadyBatch limits now serviceId expectedNonces finalizedSlot =
        (division.selected.head?.map fun first => batchOf s.nextBatchId first division.selected,
          s') := by
  have hready : ¬ (¬ s.laneFree serviceId ∨ ¬ s.flushDue limits now serviceId) := by
    rw [not_or, not_not, not_not]
    exact ⟨h.laneFree, h.due⟩
  have hnonces : ¬ ((s.queue serviceId).any fun item =>
      item.sender.any fun sender => sender ∉ expectedNonces) = true := by
    simp only [List.any_eq_true, Option.any_eq_true, decide_eq_true_eq, not_exists,
      not_and, not_not]
    exact fun item hitem sender hsender => h.nonces item hitem sender hsender
  have hparts := divide_perm limits.maxActions expectedNonces finalizedSlot (s.queue serviceId)
  unfold takeReadyBatch
  rw [if_neg hready, if_neg hnonces]
  dsimp only at hparts ⊢
  generalize divide limits.maxActions expectedNonces finalizedSlot (s.queue serviceId) =
    division at hparts ⊢
  obtain ⟨hbatches, hinFlight, harrival, hnextBatchId⟩ :=
    frame_applyDivision limits now serviceId division s
  have htransactions := transactions_applyDivision limits now serviceId division s
  cases hselected : division.selected with
  | nil =>
    refine ⟨_, ⟨hparts, h.laneFree, harrival, queue_applyDivision_self .., ?_, ?_,
      .inl ⟨hselected, ?_, ?_, ?_⟩⟩, rfl⟩
    · intro other hne
      exact queue_applyDivision_of_ne limits now serviceId division s hne
    · rw [divisionUpdates, hselected]
      simpa using htransactions
    · exact hbatches
    · exact hinFlight
    · exact hnextBatchId
  | cons first rest =>
    refine ⟨(s.applyDivision limits now serviceId division).openBatch serviceId division.selected,
      ⟨hparts, h.laneFree, harrival, queue_applyDivision_self limits now serviceId
        division s, ?_, ?_, .inr ⟨?_, ?_, ?_, ?_⟩⟩, ?_⟩
    · intro other hne
      exact queue_applyDivision_of_ne limits now serviceId division s hne
    · rw [divisionUpdates, modifyAll, List.foldl_append]
      dsimp only [openBatch]
      rw [htransactions, hnextBatchId]
      rfl
    · rw [hselected]
      nofun
    · dsimp only [openBatch]
      rw [hbatches, hnextBatchId]
    · dsimp only [openBatch]
      rw [hinFlight, hnextBatchId]
    · dsimp only [openBatch]
      rw [hnextBatchId]
    · rw [hnextBatchId, hselected]
      rfl

/-- Nothing but deadlines changes, or the queue is divided. -/
theorem takeReadyBatch_cases :
    (∃ flushDeadlines, s.takeReadyBatch limits now serviceId expectedNonces finalizedSlot =
      (none, { s with flushDeadlines })) ∨
    let division := divide limits.maxActions expectedNonces finalizedSlot (s.queue serviceId)
    ∃ s', Takes serviceId division s s' ∧
      s.takeReadyBatch limits now serviceId expectedNonces finalizedSlot =
        (division.selected.head?.map fun first => batchOf s.nextBatchId first division.selected,
          s') := by
  by_cases hready : ¬ s.laneFree serviceId ∨ ¬ s.flushDue limits now serviceId
  · refine .inl ⟨s.flushDeadlines, ?_⟩
    rw [takeReadyBatch, if_pos hready]
  by_cases hnonces : ((s.queue serviceId).any fun item =>
      item.sender.any fun sender => sender ∉ expectedNonces) = true
  · refine .inl ⟨s.flushDeadlines.insert serviceId (now + futureNonceRecheckDelay), ?_⟩
    rw [takeReadyBatch, if_neg hready, if_pos hnonces]
  right
  rw [not_or, not_not, not_not] at hready
  simp only [List.any_eq_true, Option.any_eq_true, decide_eq_true_eq, not_exists, not_and,
    not_not] at hnonces
  exact takeReadyBatch_of_dispatchable limits now serviceId s expectedNonces finalizedSlot
    ⟨hready.1, hready.2, hnonces⟩

end Take

namespace Takes

variable {serviceId : UInt32} {division : Division} {s s' : TransactionCoordinatorState}

/-- The actions that leave the queue. -/
theorem parts_removed (h : Takes serviceId division s s') : (s.queue serviceId).Perm
    ((division.expired ++ division.stale ++ division.selected) ++ division.remaining) := by
  refine h.parts.trans ?_
  simp only [List.append_assoc]
  refine List.Perm.append_left _ ?_
  rw [← List.append_assoc, ← List.append_assoc]
  exact List.Perm.append_right _ List.perm_append_comm

/-- The batch that a division opens. -/
def opens (serviceId : UInt32) (division : Division) : InFlightBatch :=
  ⟨serviceId, division.selected.map PendingAction.logicalId, none, none, false, none⟩

theorem batches_cases (h : Takes serviceId division s s') {batchId : BatchId}
    {batch : InFlightBatch} (hbatch : s'.batches[batchId]? = some batch) :
    s.batches[batchId]? = some batch ∨
      batchId = s.nextBatchId ∧ batch = opens serviceId division ∧
      s'.nextBatchId = s.nextBatchId + 1 ∧
        s'.inFlight[serviceId]? = some batchId := by
  rcases h.opened with ⟨-, hbatches, -, -⟩ | ⟨-, hbatches, hinFlight, hnext⟩
  · exact .inl (hbatches ▸ hbatch)
  · rw [hbatches] at hbatch
    by_cases heq : batchId = s.nextBatchId
    · subst heq
      rw [getElem?_insert_self] at hbatch
      refine .inr ⟨rfl, (Option.some.inj hbatch).symm, hnext, ?_⟩
      rw [hinFlight, getElem?_insert_self]
    · rw [getElem?_insert_of_ne _ _ (Ne.symm heq)] at hbatch
      exact .inl hbatch

theorem batches_kept (h : Takes serviceId division s s') {batchId : BatchId} {batch : InFlightBatch}
    (hbatch : s.batches[batchId]? = some batch) (hknown : batchId < s.nextBatchId) :
    s'.batches[batchId]? = some batch := by
  rcases h.opened with ⟨-, hbatches, -, -⟩ | ⟨-, hbatches, -, -⟩
  · rw [hbatches, hbatch]
  · rw [hbatches, getElem?_insert_of_ne _ _ (Nat.ne_of_gt hknown), hbatch]

theorem opened_of_selected (h : Takes serviceId division s s')
    (hselected : division.selected ≠ []) :
    s'.batches[s.nextBatchId]? = some (opens serviceId division) := by
  rcases h.opened with ⟨hnone, -⟩ | ⟨-, hbatches, -, -⟩
  · exact absurd hnone hselected
  · rw [hbatches, getElem?_insert_self]
    rfl

theorem nextBatchId_le (h : Takes serviceId division s s') : s.nextBatchId ≤ s'.nextBatchId := by
  rcases h.opened with ⟨-, -, -, hnext⟩ | ⟨-, -, -, hnext⟩ <;> omega

theorem lanes_cases (h : Takes serviceId division s s') {lane : UInt32} {batchId : BatchId}
    (hlane : s'.inFlight[lane]? = some batchId) :
    s.inFlight[lane]? = some batchId ∨
      lane = serviceId ∧ batchId = s.nextBatchId ∧ division.selected ≠ [] := by
  rcases h.opened with ⟨-, -, hinFlight, -⟩ | ⟨hselected, -, hinFlight, -⟩
  · exact .inl (hinFlight ▸ hlane)
  · rw [hinFlight] at hlane
    by_cases heq : lane = serviceId
    · subst heq
      rw [getElem?_insert_self] at hlane
      exact .inr ⟨rfl, (Option.some.inj hlane).symm, hselected⟩
    · rw [getElem?_insert_of_ne _ _ (Ne.symm heq)] at hlane
      exact .inl hlane

/-- The lane was free, so a lane that is held stays held by the same batch. -/
theorem lanes_kept (h : Takes serviceId division s s') {lane : UInt32} {batchId : BatchId}
    (hlane : s.inFlight[lane]? = some batchId) : s'.inFlight[lane]? = some batchId := by
  rcases h.opened with ⟨-, -, hinFlight, -⟩ | ⟨-, -, hinFlight, -⟩
  · rw [hinFlight, hlane]
  · have hne : serviceId ≠ lane := by
      rintro rfl
      exact absurd (h.laneFree.1.symm.trans hlane) nofun
    rw [hinFlight, getElem?_insert_of_ne _ _ hne, hlane]

/-- What is left in the queue was not divided off. -/
theorem mem_queue_iff (h : Takes serviceId division s s') (item : PendingAction) :
    item ∈ s.queue serviceId ↔
      item ∈ division.expired ++ division.stale ++ division.selected ∨
      item ∈ division.remaining := by
  rw [h.parts_removed.mem_iff, List.mem_append]

variable (h : Takes serviceId division s s')
  (hnodup : ((s.queue serviceId).map PendingAction.logicalId).Nodup)

include h hnodup

theorem removed_nodup :
    ((division.expired ++ division.stale ++ division.selected).map PendingAction.logicalId).Nodup ∧
      (division.remaining.map PendingAction.logicalId).Nodup ∧
      ∀ item ∈ division.expired ++ division.stale ++ division.selected, ∀ kept ∈ division.remaining,
        item.logicalId ≠ kept.logicalId := by
  have hids := (h.parts_removed.map PendingAction.logicalId).nodup_iff.mp hnodup
  rw [List.map_append, List.nodup_append] at hids
  exact ⟨hids.1, hids.2.1, fun item hitem kept hkept =>
    hids.2.2 _ (List.mem_map_of_mem hitem) _ (List.mem_map_of_mem hkept)⟩

theorem record_update {id : TransactionId} {update : LogicalTransaction → LogicalTransaction}
    (hupdate : (id, update) ∈ divisionUpdates s.nextBatchId division) :
    s'.transactions[id]? = s.transactions[id]?.map update := by
  rw [h.transactions]
  refine getElem?_modifyAll_of_mem ?_ hupdate
  rw [keys_divisionUpdates]
  exact (h.removed_nodup hnodup).1

theorem record_ended {item : PendingAction} (hitem : item ∈ division.expired ++ division.stale) :
    ∃ message, s'.transactions[item.logicalId]? = s.transactions[item.logicalId]?.map
      (setError message) := by
  rcases List.mem_append.mp hitem with hexpired | hstale
  · refine ⟨expiredMessage, h.record_update hnodup ?_⟩
    exact List.mem_append_left _ (List.mem_append_left _ (List.mem_map_of_mem hexpired))
  · refine ⟨staleMessage, h.record_update hnodup ?_⟩
    exact List.mem_append_left _ (List.mem_append_right _ (List.mem_map_of_mem hstale))

theorem record_selected {index : ℕ} {item : PendingAction}
    (hitem : division.selected[index]? = some item) :
    s'.transactions[item.logicalId]? =
      s.transactions[item.logicalId]?.map (assign s.nextBatchId index) := by
  refine h.record_update hnodup (List.mem_append_right _ ?_)
  exact List.mem_map.mpr ⟨(item, index), List.mem_zipIdx_iff_getElem?.mpr hitem, rfl⟩

omit hnodup in
theorem record_outside {id : TransactionId}
    (hid : id ∉ (division.expired ++ division.stale ++ division.selected).map
      PendingAction.logicalId) :
    s'.transactions[id]? = s.transactions[id]? := by
  rw [h.transactions]
  exact getElem?_modifyAll_of_notMem (keys_divisionUpdates s.nextBatchId division ▸ hid)

end Takes

namespace Conserved

variable {limits : CoordinatorLimits} {s s' : TransactionCoordinatorState} {serviceId : UInt32}
  {division : Division}

/-- Taking a batch moves its transactions and loses none. -/
theorem takes (h : Conserved limits s) (htakes : Takes serviceId division s s') :
    Conserved limits s' := by
  have hnodup := h.queuedOnce serviceId
  obtain ⟨hremovedOnce, hremainingOnce, hapart⟩ := htakes.removed_nodup hnodup
  have hremaining : division.remaining.Subperm (s.queue serviceId) := by
    exact (List.sublist_append_right _ _).subperm.trans htakes.parts_removed.symm.subperm
  -- what stays in a queue has an unchanged record
  have hqueued : ∀ {other : UInt32} {item : PendingAction}, item ∈ s'.queue other →
      item ∈ s.queue other ∧ s'.transactions[item.logicalId]? =
      s.transactions[item.logicalId]? := by
    intro other item hitem
    by_cases heq : other = serviceId
    · subst heq
      rw [htakes.queue] at hitem
      refine ⟨hremaining.subset hitem, htakes.record_outside fun hid => ?_⟩
      obtain ⟨removed, hremoved, hsame⟩ := List.mem_map.mp hid
      exact hapart removed hremoved item hitem hsame
    · rw [htakes.others other heq] at hitem
      refine ⟨hitem, htakes.record_outside fun hid => heq ?_⟩
      obtain ⟨removed, hremoved, hsame⟩ := List.mem_map.mp hid
      obtain ⟨left, hleft, hleftQueued⟩ := h.queued other item hitem
      obtain ⟨right, hright, hrightQueued⟩ :=
        h.queued serviceId removed ((htakes.mem_queue_iff removed).mpr (.inl hremoved))
      rw [hsame, hleft] at hright
      cases hright
      exact hleftQueued.service.symm.trans hrightQueued.service
  -- a transaction of a batch was in no queue
  have hbatchedOld : ∀ {batchId : BatchId} {batch : InFlightBatch} {id : TransactionId},
      s.batches[batchId]? = some batch → id ∈ batch.logicalTransactionIds →
        s'.transactions[id]? = s.transactions[id]? := by
    intro batchId batch id hbatch hid
    refine htakes.record_outside fun hmem => ?_
    obtain ⟨removed, hremoved, rfl⟩ := List.mem_map.mp hmem
    exact h.not_queued hbatch ((htakes.mem_queue_iff removed).mpr (.inl hremoved)) hid
  have hremovedQueued : ∀ {item : PendingAction},
      item ∈ division.expired ++ division.stale ++ division.selected →
      ∃ old : LogicalTransaction, s.transactions[item.logicalId]? = some old ∧
      IsQueued old serviceId := by
    intro item hitem
    exact h.queued serviceId item ((htakes.mem_queue_iff item).mpr (.inl hitem))
  -- a record changed by the division has an error or is in the new batch
  have hchanged : ∀ {id : TransactionId} {transaction : LogicalTransaction},
      s'.transactions[id]? = some transaction →
      s.transactions[id]? = some transaction ∧
          id ∉ (division.expired ++ division.stale ++ division.selected).map
          PendingAction.logicalId ∨
        transaction.error ≠ none ∧ transaction.batchId = none ∨
        transaction.batchId = some s.nextBatchId ∧
          id ∈ division.selected.map PendingAction.logicalId := by
    intro id transaction hrecord
    by_cases hid : id ∈ (division.expired ++ division.stale ++ division.selected).map
      PendingAction.logicalId
    · obtain ⟨item, hitem, rfl⟩ := List.mem_map.mp hid
      obtain ⟨old, hold, hwaits⟩ := hremovedQueued hitem
      rcases List.mem_append.mp hitem with hended | hselected
      · obtain ⟨message, hupdate⟩ := htakes.record_ended hnodup hended
        rw [hupdate, hold] at hrecord
        cases hrecord
        exact .inr (.inl ⟨nofun, hwaits.batchId⟩)
      · obtain ⟨index, hindex⟩ := List.mem_iff_getElem?.mp hselected
        rw [htakes.record_selected hnodup hindex, hold] at hrecord
        cases hrecord
        exact .inr (.inr ⟨rfl, List.mem_map_of_mem hselected⟩)
    · exact .inl ⟨(htakes.record_outside hid).symm.trans hrecord, hid⟩
  constructor
  · intro other
    by_cases heq : other = serviceId
    · subst heq
      rw [htakes.queue]
      exact hremainingOnce
    · rw [htakes.others other heq]
      exact h.queuedOnce other
  · intro other item hitem
    obtain ⟨hbefore, hsame⟩ := hqueued hitem
    rw [hsame]
    exact h.queued other item hbefore
  · intro batchId batch hbatch
    rcases htakes.batches_cases hbatch with hold | ⟨rfl, rfl, hnext, -⟩
    · obtain ⟨hknown, hids⟩ := h.batchKnown batchId batch hold
      exact ⟨hknown.trans_le htakes.nextBatchId_le, hids⟩
    · refine ⟨hnext ▸ Nat.lt_succ_self _, ?_⟩
      rw [List.map_append, List.nodup_append] at hremovedOnce
      exact hremovedOnce.2.1
  · intro batchId batch index id hbatch hindex
    rcases htakes.batches_cases hbatch with hold | ⟨rfl, rfl, -, -⟩
    · obtain ⟨transaction, hrecord, hplaced⟩ := h.batched batchId batch index id hold hindex
      exact ⟨transaction, (hbatchedOld hold (List.mem_of_getElem? hindex)).trans hrecord, hplaced⟩
    · simp only [Takes.opens, List.getElem?_map, Option.map_eq_some_iff] at hindex
      obtain ⟨item, hitem, rfl⟩ := hindex
      obtain ⟨old, hold, hwaits⟩ :=
        hremovedQueued (List.mem_append_right _ (List.mem_of_getElem? hitem))
      refine ⟨assign s.nextBatchId index old, ?_, rfl, rfl, hwaits.service, hwaits.packageHash⟩
      rw [htakes.record_selected hnodup hitem, hold]
      rfl
  · intro id transaction hrecord hbatch herror
    rcases hchanged hrecord with ⟨hold, houtside⟩ | ⟨hfailed, -⟩ | ⟨hbatched, -⟩
    · obtain ⟨item, hitem, rfl⟩ := h.waiting id transaction hold hbatch herror
      refine ⟨item, ?_, rfl⟩
      by_cases heq : transaction.serviceId = serviceId
      · rw [heq] at hitem ⊢
        rw [htakes.queue]
        exact ((htakes.mem_queue_iff item).mp hitem).resolve_left fun hremoved =>
          houtside (List.mem_map_of_mem hremoved)
      · rw [htakes.others _ heq]
        exact hitem
    · exact absurd herror hfailed
    · exact absurd (hbatch.symm.trans hbatched) nofun
  · intro id transaction batchId hrecord hbatch
    rcases hchanged hrecord with ⟨hold, -⟩ | ⟨-, hnone⟩ | ⟨hbatched, hselected⟩
    · obtain ⟨batch, hknown, hid⟩ := h.inBatch id transaction batchId hold hbatch
      exact ⟨batch, htakes.batches_kept hknown (h.batchKnown _ _ hknown).1, hid⟩
    · exact absurd (hnone.symm.trans hbatch) nofun
    · cases hbatched.symm.trans hbatch
      refine ⟨_, htakes.opened_of_selected ?_, hselected⟩
      rintro hnone
      rw [hnone] at hselected
      cases hselected
  · intro other
    by_cases heq : other = serviceId
    · subst heq
      rw [htakes.queue]
      exact hremaining.length_le.trans (h.queueBound other)
    · rw [htakes.others other heq]
      exact h.queueBound other
  · intro other sender
    by_cases heq : other = serviceId
    · subst heq
      rw [queuedForSender, htakes.queue]
      exact (hremaining.countP_le _).trans (h.senderBound other sender)
    · rw [queuedForSender, htakes.others other heq]
      exact h.senderBound other sender
  · intro lane batchId hlane
    rcases htakes.lanes_cases hlane with hold | ⟨rfl, rfl, hselected⟩
    · obtain ⟨batch, hbatch, hservice, hopen⟩ := h.lane lane batchId hold
      exact ⟨batch, htakes.batches_kept hbatch (h.batchKnown _ _ hbatch).1, hservice, hopen⟩
    · exact ⟨_, htakes.opened_of_selected hselected, rfl, rfl⟩
  · intro batchId batch hbatch
    rcases htakes.batches_cases hbatch with hold | ⟨rfl, rfl, -, hlane⟩
    · rcases h.settled batchId batch hold with hlane | hmaterialized | hfailed
      · exact .inl (htakes.lanes_kept hlane)
      · exact .inr (.inl hmaterialized)
      · refine .inr (.inr fun id hid => ?_)
        obtain ⟨transaction, hrecord, herror⟩ := hfailed id hid
        exact ⟨transaction, (hbatchedOld hold hid).trans hrecord, herror⟩
    · exact .inl hlane

end Conserved

end JamScript
