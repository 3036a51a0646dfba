import JamScript.Backend.State

/-!
# The chain of materialized heads

A head moves in one place only, at the end of `commitRecovery`. `commitRecovery_cases`,
`settle_cases` and `status_cases` say what the functions on the way there can do, and what is known
of a request that got there. `heads_follow_recoveries` is about whole runs of requests: the heads of
a service form a chain of recoveries, and what is published or answered belongs to the finalized
root.
-/

namespace JamScript

open Codec OrderedMap

/-! ## What the functions of the state can do -/

namespace BackendState

variable {L : HostTrie} {D : DurableStore L} (blake2_256 : Bytes → StateRoot)

/-- The head of the service with a key. -/
def head (serviceKey : ServiceKeyV1) (s : BackendState L D) : StateRoot :=
  s.provider.materializedRoot serviceKey

/-- A recovery of the service was committed: it starts at the head, its payload matches its
commitment, and its diff leads from the head's state to the new root. -/
structure Advances (record : ServiceRecord) (output : RuntimeRefineOutputV1)
    (s s' : BackendState L D) :
    Prop where
  parent : s.head record.serviceKey = output.parentRoot
  recovery : ∃ (recovery : StateRecoveryV1) (state next : FullState L)
      (context : Option FinalizedContextV1),
    StateRecoveryV1.decode output.recoveryPayload = .ok recovery ∧
      recovery.commitment blake2_256 = .ok output.recoveryCommitment ∧
      s.provider.stateAt record.serviceKey output.parentRoot = .ok state ∧
      state.applyDiff recovery.diff = .ok next ∧ next.root = output.newRoot ∧
      D.commitTransition ⟨record.serviceId, record.serviceKey,
        s.headSequence record.serviceId + 1, output,
        recovery.diff, context, next⟩ s.database = (.ok (), s'.database) ∧
      s'.provider = s.provider.insert record.serviceKey next
  notLast : s.headSequence record.serviceId ≠ 0xffffffffffffffff
  sequences : s'.headSequences =
    s.headSequences.insert record.serviceId (s.headSequence record.serviceId + 1)

theorem recoveredDiff_eq_ok {output : RuntimeRefineOutputV1} {diff : StateDiffV1}
    (h : recoveredDiff blake2_256 output = .ok diff) :
    ∃ recovery : StateRecoveryV1, StateRecoveryV1.decode output.recoveryPayload = .ok recovery ∧
      recovery.commitment blake2_256 = .ok output.recoveryCommitment ∧ recovery.diff = diff := by
  unfold recoveredDiff at h
  obtain ⟨recovery, hdecode, h⟩ := bind_eq_ok.mp h
  obtain ⟨commitment, hcommitment, h⟩ := bind_eq_ok.mp h
  obtain ⟨_, hmatches, h⟩ := bind_eq_ok.mp h
  exact ⟨recovery, mapError_eq_ok.mp hdecode,
    (mapError_eq_ok.mp hcommitment).trans (congrArg Except.ok (ensure_eq_ok.mp hmatches)),
    Except.ok.inj h⟩

theorem recoveredState_eq_ok {serviceKey : ServiceKeyV1} {output : RuntimeRefineOutputV1}
    {diff : StateDiffV1} {p : FullStateProvider L} {next : FullState L}
    (h : p.recoveredState serviceKey output diff = .ok next) :
    next.root = output.newRoot ∧ ∃ state, p.stateAt serviceKey output.parentRoot = .ok state ∧
      state.applyDiff diff = .ok next := by
  unfold FullStateProvider.recoveredState at h
  obtain ⟨state, hstate, h⟩ := bind_eq_ok.mp h
  obtain ⟨next', happly, h⟩ := bind_eq_ok.mp h
  obtain ⟨_, hroot, h⟩ := bind_eq_ok.mp h
  cases h
  exact ⟨ensure_eq_ok.mp hroot, state, hstate, mapError_eq_ok.mp happly⟩

/-- What a recovery must satisfy to be prepared. -/
theorem prepareRecovery_eq_ok {serviceId : UInt32} {serviceKey : ServiceKeyV1}
    {output : RuntimeRefineOutputV1} {s : BackendState L D} {transition : Transition L}
    (h : s.prepareRecovery blake2_256 serviceId serviceKey output = .ok transition) :
    s.head serviceKey = output.parentRoot ∧ s.headSequence serviceId ≠ 0xffffffffffffffff ∧
      ∃ (recovery : StateRecoveryV1) (state next : FullState L),
        StateRecoveryV1.decode output.recoveryPayload = .ok recovery ∧
          recovery.commitment blake2_256 = .ok output.recoveryCommitment ∧
          s.provider.stateAt serviceKey output.parentRoot = .ok state ∧
          state.applyDiff recovery.diff = .ok next ∧ next.root = output.newRoot ∧
          transition = ⟨serviceId, serviceKey, s.headSequence serviceId + 1, output, recovery.diff,
            s.finalizedContexts[serviceId]?, next⟩ := by
  unfold prepareRecovery at h
  obtain ⟨_, -, h⟩ := bind_eq_ok.mp h
  obtain ⟨_, hparent, h⟩ := bind_eq_ok.mp h
  obtain ⟨diff, hdiff, h⟩ := bind_eq_ok.mp h
  obtain ⟨next, hnext, h⟩ := bind_eq_ok.mp h
  obtain ⟨_, hlast, h⟩ := bind_eq_ok.mp h
  cases h
  obtain ⟨recovery, hdecode, hcommitment, rfl⟩ := recoveredDiff_eq_ok blake2_256 hdiff
  obtain ⟨hroot, state, hstate, happly⟩ := recoveredState_eq_ok hnext
  exact ⟨ensure_eq_ok.mp hparent, ensure_eq_ok.mp hlast, recovery, state, next,
    hdecode, hcommitment, hstate, happly, hroot, rfl⟩

/-- A recovery is refused, with at most the database changed, or it advances the head. -/
theorem commitRecovery_cases (record : ServiceRecord) (output : RuntimeRefineOutputV1)
    (s : BackendState L D) :
    (∃ error database, s.commitRecovery blake2_256 record.serviceId record.serviceKey output =
      (.error error, { s with database })) ∨
    ∃ provider headSequences database,
      s.commitRecovery blake2_256 record.serviceId record.serviceKey output =
        (.ok (), { s with provider, headSequences, database }) ∧
      Advances blake2_256 record output s { s with provider, headSequences, database } := by
  unfold commitRecovery
  cases hprepare : s.prepareRecovery blake2_256 record.serviceId record.serviceKey output with
  | error error => exact .inl ⟨error, s.database, rfl⟩
  | ok transition =>
    obtain ⟨hparent, hlast, recovery, state, next, hdecode, hcommitment, hstate, happly,
      hroot, rfl⟩ :=
      prepareRecovery_eq_ok blake2_256 hprepare
    simp only
    split
    next error database _ => exact .inl ⟨error, database, rfl⟩
    next database hcommit =>
      exact .inr ⟨_, _, database, rfl, hparent,
        ⟨recovery, state, next, _, hdecode, hcommitment, hstate, happly, hroot, hcommit, rfl⟩,
        hlast, rfl⟩

/-- What becomes of a request that knows the finalized root. -/
inductive Settled (key : WorkKey) (context : FinalizedContextV1) (root : StateRoot)
    (report : WorkReport) (s : BackendState L D) :
    Except BackendError WorkReport × BackendState L D → Prop
  | stale (output : RuntimeRefineOutputV1) (hexpected : s.predictions[key]? = some output)
      (hparent : root ≠ output.parentRoot) (hnew : root ≠ output.newRoot) :
      Settled key context root report s (.error .predictionStale,
        { s with pending := s.pending.erase key })
  | refused (error : BackendError) (database : D.Db) :
      Settled key context root report s (.error error,
        { s with finalizedContexts := s.finalizedContexts.insert key.serviceId context, database })
  | kept (hpending : ∀ output, s.pending[key]? = some output → root ≠ output.newRoot) :
      Settled key context root report s (.ok (publishReceipts s.predictions[key]? root report),
        { s with finalizedContexts := s.finalizedContexts.insert key.serviceId context })
  | advanced (record : ServiceRecord) (output : RuntimeRefineOutputV1)
      (provider : FullStateProvider L)
      (headSequences : Std.ExtTreeMap UInt32 UInt64) (database : D.Db)
      (hrecord : s.registry.byId[key.serviceId]? = some record)
      (hpending : s.pending[key]? = some output)
      (hroot : root = output.newRoot)
      (hadvances : Advances blake2_256 record output s
        { s with provider, headSequences, database }) :
      Settled key context root report s (.ok (publishReceipts s.predictions[key]? root report),
        { s with
          finalizedContexts := s.finalizedContexts.insert key.serviceId context
          provider, headSequences, database
          pending := s.pending.erase key
          finalized := s.finalized.insert key })

theorem record_eq_ok {serviceId : UInt32} {record : ServiceRecord} {s : BackendState L D} :
    s.record serviceId = .ok record ↔ s.registry.byId[serviceId]? = some record := by
  unfold BackendState.record ServiceRegistry.get
  rw [mapError_eq_ok]
  cases s.registry.byId[serviceId]? <;> simp

theorem materializeIfCanonical_kept {key : WorkKey} {root : StateRoot} {s : BackendState L D}
    (h : ∀ output, s.pending[key]? = some output → root ≠ output.newRoot) :
    s.materializeIfCanonical blake2_256 key root = (.ok false, s) := by
  unfold materializeIfCanonical
  cases hpending : s.pending[key]? with
  | none => rfl
  | some output => exact if_pos (h output hpending)

theorem settle_cases (key : WorkKey) (context : FinalizedContextV1) (root : StateRoot)
    (report : WorkReport) (s : BackendState L D) :
    Settled blake2_256 key context root report s (s.settle blake2_256 key context root report) := by
  unfold settle
  dsimp only
  split
  next hstale =>
    obtain ⟨output, hexpected, hroots⟩ := (Option.any_eq_true _ _).mp hstale
    obtain ⟨hparent, hnew⟩ := of_decide_eq_true hroots
    exact .stale output hexpected hparent hnew
  next =>
    by_cases hkept : ∀ output, s.pending[key]? = some output → root ≠ output.newRoot
    · have hsame := materializeIfCanonical_kept blake2_256
        (s := { s with finalizedContexts := s.finalizedContexts.insert key.serviceId context })
        hkept
      rw [hsame]
      exact .kept hkept
    push Not at hkept
    obtain ⟨output, hpending, rfl⟩ := hkept
    unfold materializeIfCanonical
    rw [hpending]
    simp only [ne_eq, not_true_eq_false, if_false]
    cases hrecord : ({ s with
        finalizedContexts := s.finalizedContexts.insert key.serviceId context } :
        BackendState L D).record key.serviceId with
    | error error => exact .refused error s.database
    | ok record =>
      simp only
      obtain ⟨error, database, hrefused⟩ | ⟨provider, headSequences, database,
        hcommitted, hadvances⟩ :=
        commitRecovery_cases blake2_256 record output
          { s with finalizedContexts := s.finalizedContexts.insert key.serviceId context }
      · rw [hrefused]
        exact .refused error database
      · rw [hcommitted]
        exact .advanced record output provider headSequences database
          (record_eq_ok.mp hrecord) hpending rfl
          ⟨hadvances.parent, hadvances.recovery, hadvances.notLast, hadvances.sequences⟩

/-- A status request that gets as far as the finalized root: the work is imported and the service
has a commitment. -/
structure Imported (answers : StatusAnswers) (params : StatusParams) (key : WorkKey)
    (context : FinalizedContextV1) (root : StateRoot) (report : WorkReport) : Prop where
  reported : answers.workStatus = .ok report
  packageHash : params.packageHash.map parseHash = some (.ok key.packageHash)
  serviceId : params.serviceId = some key.serviceId
  imported : report.status = some "imported"
  finalizedContext : answers.finalizedContext = .ok context
  commitment : ∃ bytes commitment, answers.commitment = .ok (some bytes) ∧
    ManagedStateCommitmentV1.decode bytes = .ok commitment ∧ commitment.root = root

/-- The report without what the network says about receipts. -/
def withoutReceipts (report : WorkReport) : WorkReport := { report with actionReceipts := none }

theorem status_imported {answers : StatusAnswers} {params : StatusParams} {key : WorkKey}
    {context : FinalizedContextV1} {root : StateRoot} {report : WorkReport}
    (h : Imported answers params key context root report) (s : BackendState L D) :
    s.status blake2_256 answers params =
      s.settle blake2_256 key context root (withoutReceipts report) := by
  obtain ⟨bytes, commitment, hstored, hdecode, rfl⟩ := h.commitment
  unfold status
  simp only [h.reported, h.packageHash, h.serviceId, h.imported, h.finalizedContext, hstored, ne_eq,
    not_true_eq_false, if_false, Option.bind_some, hdecode, Except.toOption, withoutReceipts]

/-- Any other status request leaves the state alone and publishes no receipts. -/
theorem status_cases (answers : StatusAnswers) (params : StatusParams) (s : BackendState L D) :
    ((s.status blake2_256 answers params).2 = s ∧
      ∀ report, (s.status blake2_256 answers params).1 = .ok report →
        report.actionReceipts = none) ∨
    ∃ key context root report, Imported answers params key context root report := by
  by_cases h : ∃ key context root report, Imported answers params key context root report
  · exact .inr h
  refine .inl ?_
  unfold status
  cases hreported : answers.workStatus with
  | error error => exact ⟨rfl, nofun⟩
  | ok report =>
    dsimp only
    split
    next => exact ⟨rfl, by rintro _ ⟨⟩; rfl⟩
    next => exact ⟨rfl, nofun⟩
    next => exact ⟨rfl, by rintro _ ⟨⟩; rfl⟩
    next packageHash serviceId hpackage hservice =>
      split
      next => exact ⟨rfl, by rintro _ ⟨⟩; rfl⟩
      next himported =>
        split
        next => exact ⟨rfl, nofun⟩
        next => exact ⟨rfl, nofun⟩
        next context stored hcontext hstored =>
          split
          next => exact ⟨rfl, by rintro _ ⟨⟩; rfl⟩
          next commitment hcommitment =>
            obtain ⟨bytes, rfl, hdecode⟩ := Option.bind_eq_some_iff.mp hcommitment
            have hdecoded : ManagedStateCommitmentV1.decode bytes = .ok commitment := by
              cases hresult : ManagedStateCommitmentV1.decode bytes with
              | error error =>
                rw [hresult] at hdecode
                cases hdecode
              | ok decoded =>
                rw [hresult] at hdecode
                exact congrArg Except.ok (Option.some.inj hdecode)
            exact absurd ⟨⟨serviceId, packageHash⟩, context, commitment.root, report,
              hreported, hpackage,
              hservice, not_not.mp himported, hcontext, bytes, commitment, hstored, hdecoded, rfl⟩ h

end BackendState

/-! ## Sound states -/

/-- Every service has its own key, and the keys are found under their services. -/
structure ServiceRegistry.Consistent (registry : ServiceRegistry) : Prop where
  ownId : ∀ (serviceId : UInt32) (record : ServiceRecord), registry.byId[serviceId]? = some record →
    record.serviceId = serviceId
  ownKey : ∀ (serviceId : UInt32) (record : ServiceRecord),
    registry.byId[serviceId]? = some record → registry.byKey[record.serviceKey]? = some serviceId

namespace ServiceRegistry

theorem Consistent.empty : ServiceRegistry.empty.Consistent := by
  constructor
  · intro serviceId record h
    simp [ServiceRegistry.empty] at h
  · intro serviceId record h
    simp [ServiceRegistry.empty] at h

theorem Consistent.key_injective {registry : ServiceRegistry} (h : registry.Consistent)
    {left right : UInt32} {leftRecord rightRecord : ServiceRecord}
    (hleft : registry.byId[left]? = some leftRecord)
    (hright : registry.byId[right]? = some rightRecord)
    (hkey : leftRecord.serviceKey = rightRecord.serviceKey) :
    left = right := by
  have hfirst := h.ownKey left leftRecord hleft
  rw [hkey, h.ownKey right rightRecord hright] at hfirst
  exact (Option.some.inj hfirst).symm

/-- A successful registration files the record and nothing else; the key of a service that was there
stays. -/
theorem register_eq_ok {record : ServiceRecord} {registry registry' : ServiceRegistry}
    (h : registry.register record = .ok registry') :
    registry'.byId = registry.byId.insert record.serviceId record ∧
      ((∃ existing : ServiceRecord, registry.byId[record.serviceId]? = some existing ∧
          existing.serviceKey = record.serviceKey ∧ registry'.byKey = registry.byKey) ∨
        registry.byId[record.serviceId]? = none ∧ registry.byKey[record.serviceKey]? = none ∧
          registry'.byKey = registry.byKey.insert record.serviceKey record.serviceId) := by
  unfold register at h
  split at h
  next existing hexisting =>
    split at h
    next => cases h
    next hkey =>
      cases h
      exact ⟨rfl, .inl ⟨existing, hexisting, not_not.mp hkey, rfl⟩⟩
  next hnew =>
    split at h
    next => split at h <;> cases h
    next hfree =>
      cases h
      exact ⟨rfl, .inr ⟨hnew, hfree, rfl⟩⟩

/-- A registration keeps the two maps inverse to each other. -/
theorem Consistent.register {record : ServiceRecord} {registry registry' : ServiceRegistry}
    (hconsistent : registry.Consistent) (h : registry.register record = .ok registry') :
    registry'.Consistent := by
  obtain ⟨hbyId, hbyKey⟩ := register_eq_ok h
  constructor
  · intro serviceId other hother
    rw [hbyId] at hother
    by_cases heq : record.serviceId = serviceId
    · subst heq
      rw [getElem?_insert_self] at hother
      exact Option.some.inj hother ▸ rfl
    · rw [getElem?_insert_of_ne _ _ heq] at hother
      exact hconsistent.ownId serviceId other hother
  · intro serviceId other hother
    rw [hbyId] at hother
    rcases hbyKey with ⟨existing, hexisting, hkey, hsame⟩ | ⟨hnew, hfree, hadded⟩
    · rw [hsame]
      by_cases heq : record.serviceId = serviceId
      · subst heq
        rw [getElem?_insert_self] at hother
        cases hother
        exact hkey ▸ hconsistent.ownKey _ existing hexisting
      · rw [getElem?_insert_of_ne _ _ heq] at hother
        exact hconsistent.ownKey serviceId other hother
    · rw [hadded]
      by_cases heq : record.serviceId = serviceId
      · subst heq
        rw [getElem?_insert_self] at hother
        cases hother
        exact getElem?_insert_self _ _ _
      · rw [getElem?_insert_of_ne _ _ heq] at hother
        have hown := hconsistent.ownKey serviceId other hother
        have hne : record.serviceKey ≠ other.serviceKey := by
          intro hkeys
          rw [hkeys, hown] at hfree
          cases hfree
        rw [getElem?_insert_of_ne _ _ hne]
        exact hown

/-- A registered service stays registered, under its key. -/
theorem register_keeps {record : ServiceRecord} {registry registry' : ServiceRegistry}
    (h : registry.register record = .ok registry') {serviceId : UInt32} {existing : ServiceRecord}
    (hexisting : registry.byId[serviceId]? = some existing) :
    ∃ record' : ServiceRecord, registry'.byId[serviceId]? = some record' ∧
      record'.serviceKey = existing.serviceKey := by
  obtain ⟨hbyId, hbyKey⟩ := register_eq_ok h
  rw [hbyId]
  by_cases heq : record.serviceId = serviceId
  · subst heq
    refine ⟨record, getElem?_insert_self _ _ _, ?_⟩
    rcases hbyKey with ⟨existing', hexisting', hkey, -⟩ | ⟨hnew, -⟩
    · rw [hexisting] at hexisting'
      exact Option.some.inj hexisting' ▸ hkey.symm
    · rw [hexisting] at hnew
      cases hnew
  · exact ⟨existing, (getElem?_insert_of_ne _ _ heq).trans hexisting, rfl⟩

end ServiceRegistry

namespace FullStateProvider

variable {L : HostTrie}

/-- Every state is filed under its own root. -/
def Filed (p : FullStateProvider L) : Prop :=
  ∀ (service : ServiceKeyV1) (root : StateRoot) (state : FullState L),
    (p.statesOf service)[root]? = some state → state.root = root

theorem Filed.empty : (FullStateProvider.empty : FullStateProvider L).Filed := by
  intro service root state h
  simp [FullStateProvider.empty, statesOf] at h

theorem of_getElem?_forget {roots : List StateRoot}
    {states : Std.ExtTreeMap StateRoot (FullState L)} {root : StateRoot} {state : FullState L}
    (h : (forget roots states)[root]? = some state) :
    states[root]? = some state := by
  induction roots generalizing states with
  | nil => exact h
  | cons dropped roots ih =>
    have hrest : (states.erase dropped)[root]? = some state := ih h
    by_cases heq : dropped = root
    · subst heq
      rw [getElem?_erase_self] at hrest
      cases hrest
    · rwa [getElem?_erase_of_ne _ heq] at hrest

/-- Adding a state under its root and forgetting others keeps a provider filed. -/
theorem Filed.update {p p' : FullStateProvider L} (h : p.Filed) {service : ServiceKeyV1}
    {state : FullState L} {roots : List StateRoot} (hstates : p'.states =
      p.states.insert service (forget roots ((p.statesOf service).insert state.root state))) :
        p'.Filed := by
  intro other root found hfound
  rw [statesOf, hstates] at hfound
  by_cases heq : service = other
  · subst heq
    rw [getElem?_insert_self, Option.getD_some] at hfound
    have hbefore := of_getElem?_forget hfound
    by_cases hroot : state.root = root
    · subst hroot
      rw [getElem?_insert_self] at hbefore
      exact Option.some.inj hbefore ▸ rfl
    · rw [getElem?_insert_of_ne _ _ hroot] at hbefore
      exact h service root found hbefore
  · rw [getElem?_insert_of_ne _ _ heq] at hfound
    exact h other root found hfound

theorem Filed.insert {p : FullStateProvider L} (h : p.Filed) (service : ServiceKeyV1)
    (state : FullState L) :
    (p.insert service state).Filed :=
  h.update rfl

theorem Filed.insertSnapshot {p : FullStateProvider L} (h : p.Filed) (service : ServiceKeyV1)
    (state : FullState L) : (p.insertSnapshot service state).Filed :=
  h.update rfl

theorem Filed.stateAt {p : FullStateProvider L} (h : p.Filed) {service : ServiceKeyV1}
    {root : StateRoot} {state : FullState L} (hstate : p.stateAt service root = .ok state) :
    state.root = root := by
  unfold FullStateProvider.stateAt at hstate
  split at hstate
  next hempty =>
    cases hstate
    exact hempty.symm
  next =>
    split at hstate
    next found hfound =>
      cases hstate
      exact h service root state hfound
    next => cases hstate

@[simp]
theorem materializedRoot_insert_self (p : FullStateProvider L) (service : ServiceKeyV1)
    (state : FullState L) :
    (p.insert service state).materializedRoot service = state.root := by
  rw [materializedRoot, FullStateProvider.insert, getElem?_insert_self, Option.getD_some]

theorem materializedRoot_insert_of_ne (p : FullStateProvider L) {service other : ServiceKeyV1}
    (state : FullState L) (h : service ≠ other) :
    (p.insert service state).materializedRoot other = p.materializedRoot other := by
  rw [materializedRoot, FullStateProvider.insert, getElem?_insert_of_ne _ _ h, materializedRoot]

end FullStateProvider

namespace BackendState

variable {L : HostTrie} {D : DurableStore L} (blake2_256 : Bytes → StateRoot)

/-- What holds of every state a backend can be in. -/
structure Sound (s : BackendState L D) : Prop where
  registry : s.registry.Consistent
  filed : s.provider.Filed

/-- The heads and their sequence numbers are the same. -/
structure SameHeads (s s' : BackendState L D) : Prop where
  materialized : s'.provider.materialized = s.provider.materialized
  headSequences : s'.headSequences = s.headSequences

variable {blake2_256}

theorem SameHeads.head {s s' : BackendState L D} (h : SameHeads s s') (serviceKey : ServiceKeyV1) :
    s'.head serviceKey = s.head serviceKey := by
  rw [BackendState.head, FullStateProvider.materializedRoot, h.materialized]
  rfl

theorem SameHeads.headSequence {s s' : BackendState L D} (h : SameHeads s s') (serviceId : UInt32) :
    s'.headSequence serviceId = s.headSequence serviceId := by
  rw [BackendState.headSequence, h.headSequences]
  rfl

namespace Advances

variable {record : ServiceRecord} {output : RuntimeRefineOutputV1} {s s' : BackendState L D}

theorem filed (h : Advances blake2_256 record output s s') (hfiled : s.provider.Filed) :
    s'.provider.Filed := by
  obtain ⟨-, -, next, -, -, -, -, -, -, -, hprovider⟩ := h.recovery
  exact hprovider ▸ hfiled.insert _ next

theorem head (h : Advances blake2_256 record output s s') : s'.head record.serviceKey =
    output.newRoot := by
  obtain ⟨-, -, next, -, -, -, -, -, hroot, -, hprovider⟩ := h.recovery
  rw [BackendState.head, hprovider, FullStateProvider.materializedRoot_insert_self, hroot]

theorem head_of_ne (h : Advances blake2_256 record output s s') {other : ServiceKeyV1}
    (hne : record.serviceKey ≠ other) : s'.head other = s.head other := by
  obtain ⟨-, -, next, -, -, -, -, -, -, -, hprovider⟩ := h.recovery
  rw [BackendState.head, hprovider, FullStateProvider.materializedRoot_insert_of_ne _ _ hne]
  rfl

theorem headSequence (h : Advances blake2_256 record output s s') :
    (s'.headSequence record.serviceId).toNat = (s.headSequence record.serviceId).toNat + 1 := by
  rw [BackendState.headSequence, h.sequences, getElem?_insert_self, Option.getD_some]
  have hne := h.notLast
  have hlt := (s.headSequence record.serviceId).toNat_lt
  rw [ne_eq, ← UInt64.toNat_inj] at hne
  rw [UInt64.toNat_add, UInt64.toNat_one]
  rw [show (0xffffffffffffffff : UInt64).toNat = 2 ^ 64 - 1 from rfl] at hne
  omega

theorem headSequence_of_ne (h : Advances blake2_256 record output s s') {other : UInt32}
    (hne : record.serviceId ≠ other) : s'.headSequence other = s.headSequence other := by
  rw [BackendState.headSequence, h.sequences, getElem?_insert_of_ne _ _ hne]
  rfl

end Advances

/-! ## One request -/

variable (blake2_256) in
/-- What a request may do to heads, registry and states. It moves a head only if it succeeds. -/
inductive HeadStep (s s' : BackendState L D) (succeeded : Prop) : Prop
  | same (hheads : SameHeads s s')
      (hregistry : s'.registry = s.registry ∨ ∃ record, s.registry.register record =
        .ok s'.registry)
      (hfiled : s.provider.Filed → s'.provider.Filed)
  | advanced (serviceId : UInt32) (record : ServiceRecord) (output : RuntimeRefineOutputV1)
      (hsucceeded : succeeded) (hregistry : s'.registry = s.registry)
      (hrecord : s.registry.byId[serviceId]? = some record)
      (hadvances : Advances blake2_256 record output s s')

namespace HeadStep

variable {s s' : BackendState L D} {succeeded : Prop}

theorem of_provider_eq (hprovider : s'.provider = s.provider)
    (hsequences : s'.headSequences = s.headSequences) (hregistry : s'.registry = s.registry) :
    HeadStep blake2_256 s s' succeeded :=
  .same ⟨hprovider ▸ rfl, hsequences⟩ (.inl hregistry) (hprovider ▸ id)

theorem imp {succeeded' : Prop} (h : HeadStep blake2_256 s s' succeeded)
    (himp : succeeded → succeeded') :
    HeadStep blake2_256 s s' succeeded' := by
  cases h with
  | same hheads hregistry hfiled => exact .same hheads hregistry hfiled
  | advanced serviceId record output hsucceeded hregistry hrecord hadvances =>
    exact .advanced serviceId record output (himp hsucceeded) hregistry hrecord hadvances

/-- A step keeps the registry consistent and every state under its own root. -/
theorem sound (h : HeadStep blake2_256 s s' succeeded) (hsound : s.Sound) : s'.Sound := by
  cases h with
  | same hheads hregistry hfiled =>
    refine ⟨?_, hfiled hsound.filed⟩
    rcases hregistry with hsame | ⟨record, hregister⟩
    · exact hsame ▸ hsound.registry
    · exact hsound.registry.register hregister
  | advanced serviceId record output hsucceeded hregistry hrecord hadvances =>
    exact ⟨hregistry ▸ hsound.registry, hadvances.filed hsound.filed⟩

theorem keepsKey (h : HeadStep blake2_256 s s' succeeded) {serviceId : UInt32}
    {record : ServiceRecord} (hrecord : s.registry.byId[serviceId]? = some record) :
    ∃ record' : ServiceRecord, s'.registry.byId[serviceId]? = some record' ∧
      record'.serviceKey = record.serviceKey := by
  cases h with
  | same hheads hregistry hfiled =>
    rcases hregistry with hsame | ⟨added, hregister⟩
    · exact ⟨record, hsame ▸ hrecord, rfl⟩
    · exact ServiceRegistry.register_keeps hregister hrecord
  | advanced _ _ _ _ hregistry _ _ => exact ⟨record, hregistry ▸ hrecord, rfl⟩

/-- A step that fails moves no head. -/
theorem sameHeads_of_failed (h : HeadStep blake2_256 s s' succeeded) (hfailed : ¬ succeeded) :
    SameHeads s s' := by
  cases h with
  | same hheads hregistry hfiled => exact hheads
  | advanced _ _ _ hsucceeded _ _ _ => exact absurd hsucceeded hfailed

end HeadStep

theorem registerService_step (allowUpgrade : Bool) (record : ServiceRecord) (s : BackendState L D)
    (succeeded : Prop) : HeadStep blake2_256 s (s.registerService allowUpgrade record).2
      succeeded := by
  unfold registerService
  dsimp only
  split
  next => exact .of_provider_eq rfl rfl rfl
  next =>
    split
    next => exact .of_provider_eq rfl rfl rfl
    next registered hregistered =>
      unfold register at hregistered
      obtain ⟨registry, hregistry, hregistered⟩ := bind_eq_ok.mp hregistered
      cases hregistered
      exact .same ⟨rfl, rfl⟩ (.inr ⟨record, mapError_eq_ok.mp hregistry⟩) id

theorem trackPrediction_eq_ok {serviceId : UInt32} {packageHash : StateRoot}
    {output : RuntimeRefineOutputV1} {s s' : BackendState L D}
    (h : s.trackPrediction serviceId packageHash output = .ok s') :
    s' = { s with
      finalized := s.finalized.erase ⟨serviceId, packageHash⟩
      pending := s.pending.insert ⟨serviceId, packageHash⟩ output
      predictions := s.predictions.insert ⟨serviceId, packageHash⟩ output } := by
  unfold trackPrediction at h
  obtain ⟨_, _, h⟩ := bind_eq_ok.mp h
  exact (Except.ok.inj h).symm

theorem settle_step (key : WorkKey) (context : FinalizedContextV1) (root : StateRoot)
    (report : WorkReport) (s : BackendState L D) : HeadStep blake2_256 s
    (s.settle blake2_256 key context root report).2
      (∃ report', (s.settle blake2_256 key context root report).1 = .ok report') := by
  have h := settle_cases blake2_256 key context root report s
  generalize s.settle blake2_256 key context root report = result at h
  cases h with
  | stale output hexpected hparent hnew => exact .of_provider_eq rfl rfl rfl
  | refused error database => exact .of_provider_eq rfl rfl rfl
  | kept hpending => exact .of_provider_eq rfl rfl rfl
  | advanced record output provider headSequences database hrecord hpending hroot hadvances =>
    exact .advanced key.serviceId record output ⟨_, rfl⟩ rfl hrecord
      ⟨hadvances.parent, hadvances.recovery, hadvances.notLast, hadvances.sequences⟩

theorem status_step (answers : StatusAnswers) (params : StatusParams) (s : BackendState L D) :
    HeadStep blake2_256 s (s.status blake2_256 answers params).2
      (∃ report, (s.status blake2_256 answers params).1 = .ok report) := by
  rcases status_cases blake2_256 answers params s with ⟨hsame, -⟩ | ⟨key, context, root,
    report, himported⟩
  · exact .of_provider_eq (by rw [hsame]) (by rw [hsame]) (by rw [hsame])
  · rw [status_imported blake2_256 himported]
    exact settle_step key context root _ s

theorem applyRecovery_step (envelope : RecoveryEnvelopeV1) (s : BackendState L D) :
    HeadStep blake2_256 s (s.applyRecovery blake2_256 envelope).2
      ((s.applyRecovery blake2_256 envelope).1 = .ok ()) := by
  unfold applyRecovery ServiceRegistry.get
  cases hrecord : s.registry.byId[envelope.serviceId]? with
  | none => exact .of_provider_eq rfl rfl rfl
  | some record =>
    dsimp only
    split
    next => exact .of_provider_eq rfl rfl rfl
    next =>
      obtain ⟨error, database, hrefused⟩ | ⟨provider, headSequences, database,
        hcommitted, hadvances⟩ :=
        commitRecovery_cases blake2_256 record envelope.output s
      · rw [hrefused]
        exact .of_provider_eq rfl rfl rfl
      · rw [hcommitted]
        exact .advanced envelope.serviceId record envelope.output rfl rfl hrecord hadvances

/-- Keeping another state is all that a query can do. -/
theorem findManagedState_cases {params : ManagedStateParams} {serviceKey : ServiceKeyV1}
    {s s' : BackendState L D} (h : s.findManagedState blake2_256 params serviceKey = .ok s') :
    s' = s ∨ ∃ service state, s' =
      { s with provider := s.provider.insertSnapshot service state } := by
  unfold findManagedState at h
  split at h
  next =>
    cases h
    exact .inl rfl
  next =>
    split at h
    next => cases h
    next =>
      split at h
      next => cases h
      next => cases h
      next found hfound =>
        cases h
        unfold materializePredictionSnapshot at hfound
        split at hfound
        next => cases hfound
        next output _ =>
          obtain ⟨record, -, hfound⟩ := bind_eq_ok.mp hfound
          split at hfound
          next =>
            cases hfound
            exact .inl rfl
          next =>
            obtain ⟨diff, -, hfound⟩ := bind_eq_ok.mp hfound
            obtain ⟨next, -, hfound⟩ := bind_eq_ok.mp hfound
            cases hfound
            exact .inr ⟨record.serviceKey, next, rfl⟩

theorem getManagedState_step (network : Option ContextAnswers) (params : ManagedStateParams)
    (s : BackendState L D) (succeeded : Prop) :
    HeadStep blake2_256 s (s.getManagedState blake2_256 network params).2 succeeded := by
  unfold getManagedState
  split
  next => exact .of_provider_eq rfl rfl rfl
  next => exact .of_provider_eq rfl rfl rfl
  next context record _ _ =>
    split
    next => exact .of_provider_eq rfl rfl rfl
    next found hfound =>
      rcases findManagedState_cases hfound with rfl | ⟨service, state, rfl⟩
      · exact .of_provider_eq rfl rfl rfl
      · exact .same ⟨rfl, rfl⟩ (.inl rfl) fun hfiled => hfiled.insertSnapshot service state

/-- Every request is a step of the heads. -/
theorem perform_step (request : StateRequest) (s : BackendState L D) :
    HeadStep blake2_256 s (s.perform blake2_256 request).2
      (∃ reply, (s.perform blake2_256 request).1 = .ok reply) := by
  cases request with
  | registerService allowUpgrade record => exact registerService_step allowUpgrade record s _
  | trackPrediction serviceId packageHash output =>
    unfold perform
    dsimp only
    split
    next => exact .of_provider_eq rfl rfl rfl
    next tracked htracked =>
      rw [trackPrediction_eq_ok htracked]
      exact .of_provider_eq rfl rfl rfl
  | status answers params =>
    refine (status_step answers params s).imp ?_
    rintro ⟨report, hreport⟩
    exact ⟨.report report, by simp only [perform, hreport, Except.map]⟩
  | applyRecovery envelope =>
    refine (applyRecovery_step envelope s).imp fun hok => ⟨.done, ?_⟩
    simp only [perform, hok, Except.map]
  | getManagedState network params => exact getManagedState_step network params s _

/-! ## Runs -/

/-- The same after any requests. -/
theorem Sound.run {s : BackendState L D} (h : s.Sound) (requests : List StateRequest) :
    (s.run blake2_256 requests).Sound := by
  induction requests generalizing s with
  | nil => exact h
  | cons request requests ih => exact ih ((perform_step request s).sound h)

theorem run_keepsKey (requests : List StateRequest) {s : BackendState L D} {serviceId : UInt32}
    {record : ServiceRecord} (hrecord : s.registry.byId[serviceId]? = some record) :
    ∃ record' : ServiceRecord, (s.run blake2_256 requests).registry.byId[serviceId]? =
      some record' ∧
      record'.serviceKey = record.serviceKey := by
  induction requests generalizing s record with
  | nil => exact ⟨record, hrecord, rfl⟩
  | cons request requests ih =>
    obtain ⟨record', hrecord', hkey⟩ := (perform_step request s).keepsKey hrecord
    obtain ⟨last, hlast, hkeyLast⟩ := ih hrecord'
    exact ⟨last, hlast, hkeyLast.trans hkey⟩

variable (blake2_256) in
/-- The head of a service stays, with its sequence number, or moves by a recovery to the next
one. -/
def HeadFollows (record : ServiceRecord) (s s' : BackendState L D) : Prop :=
  (s'.head record.serviceKey = s.head record.serviceKey ∧
    s'.headSequence record.serviceId = s.headSequence record.serviceId) ∨
  ∃ output, Advances blake2_256 record output s s' ∧ s'.head record.serviceKey = output.newRoot ∧
    (s'.headSequence record.serviceId).toNat = (s.headSequence record.serviceId).toNat + 1

theorem HeadStep.headFollows {s s' : BackendState L D} {succeeded : Prop}
    (h : HeadStep blake2_256 s s' succeeded) (hsound : s.Sound) {serviceId : UInt32}
    {record : ServiceRecord} (hrecord : s'.registry.byId[serviceId]? = some record) :
    HeadFollows blake2_256 record s s' := by
  cases h with
  | same hheads hregistry hfiled => exact .inl ⟨hheads.head _, hheads.headSequence _⟩
  | advanced moved movedRecord output hsucceeded hregistry hmoved hadvances =>
    rw [hregistry] at hrecord
    by_cases heq : moved = serviceId
    · subst heq
      rw [hrecord] at hmoved
      cases hmoved
      exact .inr ⟨output, hadvances, hadvances.head, hadvances.headSequence⟩
    · have hkeys : movedRecord.serviceKey ≠ record.serviceKey := fun hkey =>
        heq (hsound.registry.key_injective hmoved hrecord hkey)
      have hids : movedRecord.serviceId ≠ record.serviceId := by
        rw [hsound.registry.ownId _ _ hmoved, hsound.registry.ownId _ _ hrecord]
        exact heq
      exact .inl ⟨hadvances.head_of_ne hkeys, hadvances.headSequence_of_ne hids⟩

/-- Receipts are published only if the finalized root is the one the prediction of the work leads
to. -/
theorem status_receipts {answers : StatusAnswers} {params : StatusParams} {s : BackendState L D}
    {report : WorkReport} (h : (s.status blake2_256 answers params).1 = .ok report)
    {receipts : List ActionReceiptJson} (hreceipts : report.actionReceipts = some receipts) :
    ∃ key context root reported output, Imported answers params key context root reported ∧
      s.predictions[key]? = some output ∧ root = output.newRoot ∧
      receipts = canonicalActionReceipts output.receipts := by
  rcases status_cases blake2_256 answers params s with ⟨-, hnone⟩ | ⟨key, context, root,
    reported, himported⟩
  · rw [hnone report h] at hreceipts
    cases hreceipts
  rw [status_imported blake2_256 himported] at h
  have hpublished : report = publishReceipts s.predictions[key]? root
    (withoutReceipts reported) := by
    have hsettled := settle_cases blake2_256 key context root (withoutReceipts reported) s
    generalize s.settle blake2_256 key context root (withoutReceipts reported) =
      result at hsettled h
    cases hsettled with
    | stale | refused => cases h
    | kept | advanced => exact (Except.ok.inj h).symm
  rw [hpublished] at hreceipts
  unfold publishReceipts at hreceipts
  split at hreceipts
  next output hexpected =>
    split at hreceipts
    next hroot =>
      exact ⟨key, context, root, reported, output, himported, hexpected, hroot,
        (Option.some.inj hreceipts).symm⟩
    next => cases hreceipts
  next => cases hreceipts

/-- What an answer of `get_state` says: the network's finalized commitment has the root, that root
is the head of the service, and the value is the one in the state materialized for it. -/
structure AnswersAt (answers : CanonicalAnswers) (serviceId : UInt32) (key : Bytes)
    (s : BackendState L D) (answer : StateAnswer) : Prop where
  committed : ∃ context stored, answers.finalizedContext = .ok context ∧
    answers.commitment = .ok stored ∧
    committedRoot stored = .ok answer.response.stateRoot ∧ answer.context = some context
  value : ∃ (record : ServiceRecord) (state : FullState L),
    s.registry.byId[serviceId]? = some record ∧
    s.head record.serviceKey = answer.response.stateRoot ∧
    s.provider.stateAt record.serviceKey answer.response.stateRoot = .ok state ∧
    state.root = answer.response.stateRoot ∧ state.get key = .ok answer.response.value

theorem currentRoot_eq_ok {serviceId : UInt32} {root : StateRoot} {s : BackendState L D}
    (h : s.currentRoot serviceId = .ok root) :
    ∃ record : ServiceRecord, s.registry.byId[serviceId]? = some record ∧
      s.head record.serviceKey = root := by
  unfold currentRoot at h
  obtain ⟨_, -, h⟩ := bind_eq_ok.mp h
  obtain ⟨record, hrecord, h⟩ := bind_eq_ok.mp h
  exact ⟨record, record_eq_ok.mp hrecord, Except.ok.inj h⟩

theorem getState_answersAt {answers : CanonicalAnswers} {serviceId : UInt32} {key : Bytes}
    {withProof : Bool} {before during : BackendState L D} {answer : StateAnswer}
    {requests : List StateRequest} (hfiled : (before.run blake2_256 requests).provider.Filed)
    (h : getState (some answers) serviceId key withProof before during
      (before.run blake2_256 requests) =
      .ok answer) :
    AnswersAt answers serviceId key (before.run blake2_256 requests) answer := by
  unfold getState at h
  obtain ⟨record, hrecord, h⟩ := bind_eq_ok.mp h
  obtain ⟨_, -, h⟩ := bind_eq_ok.mp h
  obtain ⟨⟨context, root⟩, hcanonical, h⟩ := bind_eq_ok.mp h
  obtain ⟨_, -, h⟩ := bind_eq_ok.mp h
  obtain ⟨current, hcurrent, h⟩ := bind_eq_ok.mp h
  obtain ⟨_, hequal, h⟩ := bind_eq_ok.mp h
  obtain ⟨response, hresponse, h⟩ := bind_eq_ok.mp h
  cases h
  obtain rfl := ensure_eq_ok.mp hequal
  -- the key that was looked up before the network was asked is still the key of the service
  obtain ⟨later, hlater, hkey⟩ := run_keepsKey requests (record_eq_ok.mp hrecord)
  obtain ⟨later', hlater', hhead⟩ := currentRoot_eq_ok hcurrent
  obtain rfl : later = later' := Option.some.inj (hlater.symm.trans hlater')
  unfold canonicalStateRoot at hcanonical
  obtain ⟨finalized, hfinalized, hcanonical⟩ := bind_eq_ok.mp hcanonical
  obtain ⟨stored, hstored, hcanonical⟩ := bind_eq_ok.mp hcanonical
  obtain ⟨committed, hcommitted, hcanonical⟩ := bind_eq_ok.mp hcanonical
  cases hcanonical
  unfold FullStateProvider.get at hresponse
  obtain ⟨state, hstate, hresponse⟩ := bind_eq_ok.mp hresponse
  obtain ⟨value, hvalue, hresponse⟩ := bind_eq_ok.mp hresponse
  obtain ⟨proof, -, hresponse⟩ := bind_eq_ok.mp hresponse
  cases hresponse
  have hroot := hfiled.stateAt hstate
  have hget := mapError_eq_ok.mp hvalue
  rw [← hkey] at hstate
  cases withProof with
  | false => exact ⟨⟨finalized, stored, hfinalized, hstored, hcommitted, rfl⟩,
      later, state, hlater, hhead, hstate, hroot, hget⟩
  | true => exact ⟨⟨finalized, stored, hfinalized, hstored, hcommitted, rfl⟩,
      later, state, hlater, hhead, hstate, hroot, hget⟩

/-- In every run, heads move only by committed recoveries, one number at a time, and never in a
request that fails; receipts and answers belong to the finalized root. -/
theorem heads_follow_recoveries {start : BackendState L D} (hstart : start.Sound)
    (requests : List StateRequest) :
    let s := start.run blake2_256 requests
    (∀ request,
      (∀ (serviceId : UInt32) (record : ServiceRecord),
        (s.perform blake2_256 request).2.registry.byId[serviceId]? = some record →
          HeadFollows blake2_256 record s (s.perform blake2_256 request).2) ∧
      ∀ error, (s.perform blake2_256 request).1 = .error error →
        SameHeads s (s.perform blake2_256 request).2) ∧
    (∀ answers params report receipts, (s.status blake2_256 answers params).1 = .ok report →
      report.actionReceipts = some receipts →
        ∃ key context root reported output, Imported answers params key context root reported ∧
          s.predictions[key]? = some output ∧ root = output.newRoot ∧
          receipts = canonicalActionReceipts output.receipts) ∧
    ∀ during later answers serviceId key withProof answer,
      getState (some answers) serviceId key withProof s during (s.run blake2_256 later) =
      .ok answer →
        AnswersAt answers serviceId key (s.run blake2_256 later) answer := by
  intro s
  have hsound : s.Sound := hstart.run requests
  refine ⟨fun request => ⟨fun serviceId record hrecord => ?_, fun error herror => ?_⟩, ?_, ?_⟩
  · exact (perform_step request s).headFollows hsound hrecord
  · refine (perform_step request s).sameHeads_of_failed ?_
    rintro ⟨reply, hreply⟩
    rw [herror] at hreply
    cases hreply
  · intro answers params report receipts hreport hreceipts
    exact status_receipts hreport hreceipts
  · intro during later answers serviceId key withProof answer hanswer
    exact getState_answersAt (hsound.run later).filed hanswer

end BackendState

/-! ### A counter that is set once -/

namespace Counter

/-- The BLAKE2b-256 hash of the leaf node of key `01 00 00` with value 7. -/
def firstRoot : StateRoot := storedRoot

/-- The hash of the leaf node with value 8. -/
def secondRoot : StateRoot :=
  ⟨[0x7a, 0x1c, 0x2e, 0xd8, 0x8d, 0xe1, 0x0a, 0x4a, 0x4e, 0xcd, 0x6e, 0xda, 0xa2, 0xda, 0xb6, 0x4c,
    0xe3, 0xc8, 0xff, 0x2d, 0x43, 0x79, 0x22, 0xdb, 0x36, 0xe5, 0x27, 0xc2, 0xb2, 0xf3, 0x88, 0x81],
    rfl⟩

/-- The hash of the recovery that sets the value 7. -/
def firstCommitment : StateRoot := storedCommitment

/-- The hash of the recovery that sets the value 8. -/
def secondCommitment : StateRoot :=
  ⟨[0x22, 0x39, 0x53, 0x3e, 0xe3, 0x86, 0x12, 0xe1, 0x7c, 0x35, 0xd5, 0x1c, 0x41, 0xdc, 0x6d, 0x6c,
    0xa9, 0x05, 0x9b, 0xff, 0xa3, 0x02, 0x96, 0x95, 0x30, 0xe3, 0x9f, 0xc2, 0x46, 0xff, 0xbe, 0x6c],
    rfl⟩

/-- A recovery that sets the counter. -/
def payload (value : UInt8) : Bytes :=
  [1, 18, 0, 0, 0, 1, 1, 0, 0, 0, 3, 0, 0, 0, 1, 0, 0, 1, 1, 0, 0, 0, value]

def counterHash : Bytes → StateRoot :=
  tableHash [(leafNode [1, 0, 0] [7], firstRoot), (leafNode [1, 0, 0] [8], secondRoot),
    (payload 7, firstCommitment), (payload 8, secondCommitment)]

abbrev trie : HostTrie := hostLeafTrie counterHash

abbrev State := BackendState trie (.none trie)

def record : ServiceRecord where
  serviceId := 7
  serviceKey := List.Vector.replicate 32 1
  codeHash := List.Vector.replicate 32 2
  abiVersion := 1
  applicationArtifact := ⟨List.Vector.replicate 32 3, .jamScriptPvmV1⟩
  deployment := ⟨none, none, none⟩

def start : State := .withRegistry .empty ()

def receipt : ActionReceiptV1 := ⟨List.Vector.replicate 32 4, .applied, none⟩

def firstOutput : RuntimeRefineOutputV1 :=
  ⟨1, emptyStateRootV1, firstRoot, [], none, [receipt], firstCommitment, payload 7⟩

def firstPackage : StateRoot := List.Vector.replicate 32 5

def context : FinalizedContextV1 := ⟨List.Vector.replicate 32 7, 1, List.Vector.replicate 32 8, 10⟩

def importedReport : WorkReport := ⟨some "imported", none, none, none, none, none⟩

def commitmentTo (root : StateRoot) : Except BackendError (Option Bytes) :=
  .ok (some (ManagedStateCommitmentV1.new root).encode.toList)

/-- The work is imported and the service is finalized at a root. -/
def importedAt (root : StateRoot) : StatusAnswers :=
  ⟨.ok importedReport, .ok context, commitmentTo root⟩

def tracked : List StateRequest :=
  [.registerService false record, .trackPrediction 7 firstPackage firstOutput]

def importFirst : StateRequest := .status (importedAt firstRoot) (WorkKey.params ⟨7, firstPackage⟩)

end Counter

open Counter in
/-- The head moves to the predicted root, and is answered from there. -/
theorem heads_follow_recoveries_counter :
    let s := start.run counterHash tracked
    let s' := (s.perform counterHash importFirst).2
    s'.head record.serviceKey = firstRoot ∧
      (∃ output : RuntimeRefineOutputV1, s.head record.serviceKey = output.parentRoot ∧
        output.newRoot = firstRoot) ∧
      (BackendState.getState (some ⟨.ok context, commitmentTo firstRoot⟩) 7 [1, 0, 0]
        false s' s' s').map (fun answer => answer.response.value) = .ok (some [7]) := by
  intro s s'
  have hhead : s'.head record.serviceKey = firstRoot := by decide +kernel
  refine ⟨hhead, ?_, by decide +kernel⟩
  have hstart : start.Sound := ⟨.empty, .empty⟩
  have hrecord : s'.registry.byId[(7 : UInt32)]? = some record := by decide +kernel
  rcases ((BackendState.heads_follow_recoveries hstart tracked).1 importFirst).1
    7 record hrecord with ⟨hsame, -⟩ | ⟨output, hadvances, hnew, -⟩
  · rw [hhead] at hsame
    exact absurd hsame (by decide +kernel)
  · exact ⟨output, hadvances.parent, hnew.symm.trans hhead⟩

end JamScript
