import JamScript.Backend.HeadChain

/-!
# The services of one backend

All services of a backend share its maps. `BackendState.view` is the part of them that belongs to
one service; a request about another service does not change it. This rests on the registry, which
keeps ids and keys of services apart in every run.
-/

namespace JamScript

open Codec OrderedMap

/-! ## The part of one service -/

/-- What a backend keeps for one service. -/
structure ServiceView (L : HostTrie) where
  record : Option ServiceRecord
  states : Option (Std.ExtTreeMap StateRoot (FullState L))
  head : Option StateRoot
  history : Option (List StateRoot)
  snapshots : Option (List StateRoot)
  sequence : Option UInt64
  finalizedContext : Option FinalizedContextV1
  corrupt : Bool
  /-- Each package with its unsettled and its known prediction, and whether it is settled. -/
  books : StateRoot → Option RuntimeRefineOutputV1 × Option RuntimeRefineOutputV1 × Bool

/-- The service a request is about. -/
def StateRequest.target : StateRequest → Option UInt32
  | .registerService _ record => some record.serviceId
  | .trackPrediction serviceId _ _ => some serviceId
  | .status _ params => params.serviceId
  | .applyRecovery envelope => some envelope.serviceId
  | .getManagedState _ params => some params.serviceId

/-! ## The registry -/

namespace ServiceRegistry

/-- The two maps of the registry are inverse to each other. -/
def Bijective (registry : ServiceRegistry) : Prop :=
  ∀ (serviceId : UInt32) (serviceKey : ServiceKeyV1), registry.byKey[serviceKey]? = some serviceId ↔
    ∃ record : ServiceRecord, registry.byId[serviceId]? = some record ∧
    record.serviceKey = serviceKey

theorem Bijective.empty : ServiceRegistry.empty.Bijective := by
  intro serviceId serviceKey
  simp [ServiceRegistry.empty]

theorem Bijective.register {record : ServiceRecord} {registry registry' : ServiceRegistry}
    (hbijective : registry.Bijective) (h : registry.register record = .ok registry') :
    registry'.Bijective := by
  obtain ⟨hbyId, hbyKey⟩ := register_eq_ok h
  intro serviceId serviceKey
  rw [hbyId, getElem?_insert_ite]
  rcases hbyKey with ⟨existing, hexisting, hkey, hsame⟩ | ⟨hnew, hfree, hadded⟩
  · -- a replaced record has the key of the one before
    rw [hsame, hbijective serviceId serviceKey]
    by_cases heq : serviceId = record.serviceId
    · subst heq
      simp [hexisting, hkey]
    · simp [heq]
  · rw [hadded, getElem?_insert_ite]
    by_cases hkeys : serviceKey = record.serviceKey
    · subst hkeys
      by_cases heq : serviceId = record.serviceId
      · simp [heq]
      · have hnone := hbijective serviceId record.serviceKey
        rw [hfree] at hnone
        simpa [heq, Ne.symm heq] using hnone
    · rw [if_neg hkeys, hbijective serviceId serviceKey]
      by_cases heq : serviceId = record.serviceId
      · subst heq
        simp [hnew, Ne.symm hkeys]
      · simp [heq]

end ServiceRegistry

namespace BackendState

variable {L : HostTrie} {D : DurableStore L} (blake2_256 : Bytes → StateRoot)

def view (serviceId : UInt32) (serviceKey : ServiceKeyV1) (s : BackendState L D) :
    ServiceView L where
  record := s.registry.byId[serviceId]?
  states := s.provider.states[serviceKey]?
  head := s.provider.materialized[serviceKey]?
  history := s.provider.history[serviceKey]?
  snapshots := s.provider.snapshotHistory[serviceKey]?
  sequence := s.headSequences[serviceId]?
  finalizedContext := s.finalizedContexts[serviceId]?
  corrupt := serviceId ∈ s.corruptServices
  books packageHash :=
    (s.pending[(⟨serviceId, packageHash⟩ : WorkKey)]?,
      s.predictions[(⟨serviceId, packageHash⟩ : WorkKey)]?,
      (⟨serviceId, packageHash⟩ : WorkKey) ∈ s.finalized)

/-! ## Requests about other services -/

variable {blake2_256} {s t : BackendState L D} {serviceId : UInt32} {serviceKey : ServiceKeyV1}

theorem Advances.view_of_ne {record : ServiceRecord} {output : RuntimeRefineOutputV1}
    (h : Advances blake2_256 record output s t) (hid : record.serviceId ≠ serviceId)
    (hkey : record.serviceKey ≠ serviceKey) :
    ({ s with provider := t.provider, headSequences := t.headSequences } : BackendState L D).view
      serviceId serviceKey = s.view serviceId serviceKey := by
  obtain ⟨-, -, next, -, -, -, -, -, -, -, hprovider⟩ := h.recovery
  simp only [view, hprovider, h.sequences, FullStateProvider.insert, getElem?_insert_of_ne _ _ hkey,
    getElem?_insert_of_ne _ _ hid]

/-- Registered services are told apart by their ids and by their keys. -/
theorem Sound.apart (h : s.Sound) {other : UInt32} {record otherRecord : ServiceRecord}
    (hrecord : s.registry.byId[serviceId]? = some record)
    (hother : s.registry.byId[other]? = some otherRecord) (hne : other ≠ serviceId) :
    otherRecord.serviceId ≠ serviceId ∧ otherRecord.serviceKey ≠ record.serviceKey :=
  ⟨h.registry.ownId _ _ hother ▸ hne, fun hkey =>
    hne (h.registry.key_injective hother hrecord hkey)⟩

theorem settle_view_of_ne (hsound : s.Sound) {record : ServiceRecord}
    (hrecord : s.registry.byId[serviceId]? = some record) {key : WorkKey}
    (hne : key.serviceId ≠ serviceId) (context : FinalizedContextV1) (root : StateRoot)
    (report : WorkReport) :
    (s.settle blake2_256 key context root report).2.view serviceId record.serviceKey =
      s.view serviceId record.serviceKey := by
  have hkeys : ∀ packageHash, key ≠ ⟨serviceId, packageHash⟩ := by
    rintro packageHash rfl
    exact hne rfl
  have h := settle_cases blake2_256 key context root report s
  generalize s.settle blake2_256 key context root report = result at h
  cases h with
  | stale output hexpected hparent hnew => simp [view, Std.ExtTreeMap.getElem?_erase, hkeys]
  | refused error database => simp only [view, getElem?_insert_of_ne _ _ hne]
  | kept hpending => simp only [view, getElem?_insert_of_ne _ _ hne]
  | advanced moved output provider headSequences database hmoved hpending hroot hadvances =>
    obtain ⟨hid, hkey⟩ := hsound.apart hrecord hmoved hne
    have hview := hadvances.view_of_ne hid hkey
    simp only [view, ServiceView.mk.injEq] at hview
    simp [view, hview, getElem?_insert_of_ne _ _ hne, Std.ExtTreeMap.getElem?_erase, hkeys]

theorem findManagedState_eq_ok {params : ManagedStateParams} {record : ServiceRecord}
    (hrecord : s.registry.byId[params.serviceId]? = some record)
    (h : s.findManagedState blake2_256 params record.serviceKey = .ok t) :
    t = s ∨ ∃ state, t =
      { s with provider := s.provider.insertSnapshot record.serviceKey state } := by
  unfold findManagedState materializePredictionSnapshot at h
  split at h
  next => exact .inl (Except.ok.inj h).symm
  next hmissing =>
    split at h
    next => cases h
    next =>
      split at h
      next => cases h
      next => cases h
      next found hfound =>
        cases h
        split at hfound
        next => cases hfound
        next output _ =>
          rw [record_eq_ok.mpr hrecord] at hfound
          obtain ⟨_, ⟨⟩, hfound⟩ := bind_eq_ok.mp hfound
          rw [if_neg hmissing] at hfound
          obtain ⟨diff, -, hfound⟩ := bind_eq_ok.mp hfound
          obtain ⟨next, -, hfound⟩ := bind_eq_ok.mp hfound
          cases hfound
          exact .inr ⟨next, rfl⟩

/-- A request about another service leaves the part of a registered service alone. -/
theorem perform_view_of_ne (hsound : s.Sound) {record : ServiceRecord}
    (hrecord : s.registry.byId[serviceId]? = some record) {request : StateRequest}
    (hne : request.target ≠ some serviceId) :
    (s.perform blake2_256 request).2.view serviceId record.serviceKey = s.view serviceId
      record.serviceKey := by
  cases request with
  | registerService allowUpgrade added =>
    have hother : added.serviceId ≠ serviceId := fun h => hne (congrArg some h)
    unfold perform registerService
    dsimp only
    split
    next => rfl
    next =>
      split
      next => rfl
      next registered hregistered =>
        obtain ⟨registry, hregistry, hregistered⟩ := bind_eq_ok.mp hregistered
        cases hregistered
        obtain ⟨hbyId, -⟩ := ServiceRegistry.register_eq_ok (mapError_eq_ok.mp hregistry)
        simp only [view, hbyId, getElem?_insert_of_ne _ _ hother]
  | trackPrediction other packageHash output =>
    have hkeys : ∀ hash, (⟨other, packageHash⟩ : WorkKey) ≠ ⟨serviceId, hash⟩ := by
      rintro hash ⟨⟩
      exact hne rfl
    unfold perform
    dsimp only
    split
    next => rfl
    next tracked htracked =>
      rw [trackPrediction_eq_ok htracked]
      simp [view, Std.ExtTreeMap.getElem?_insert, hkeys]
  | status answers params =>
    change (s.status blake2_256 answers params).2.view serviceId record.serviceKey = _
    rcases status_cases blake2_256 answers params s with ⟨hsame, -⟩ | ⟨key, context, root,
      report, himported⟩
    · rw [hsame]
    · rw [status_imported blake2_256 himported]
      exact settle_view_of_ne hsound hrecord (fun h =>
        hne (himported.serviceId.trans (congrArg some h))) context root _
  | applyRecovery envelope =>
    have hother : envelope.serviceId ≠ serviceId := fun h => hne (congrArg some h)
    change (s.applyRecovery blake2_256 envelope).2.view serviceId record.serviceKey = _
    unfold applyRecovery ServiceRegistry.get
    cases hmoved : s.registry.byId[envelope.serviceId]? with
    | none => rfl
    | some moved =>
      obtain ⟨hid, hkey⟩ := hsound.apart hrecord hmoved hother
      dsimp only
      split
      next => rfl
      next =>
        obtain ⟨error, database, hrefused⟩ | ⟨provider, headSequences, database,
          hcommitted, hadvances⟩ :=
          commitRecovery_cases blake2_256 moved envelope.output s
        · rw [hrefused]
          rfl
        · rw [hcommitted]
          exact hadvances.view_of_ne hid hkey
  | getManagedState network params =>
    have hother : params.serviceId ≠ serviceId := fun h => hne (congrArg some h)
    unfold perform getManagedState
    dsimp only
    split
    next => rfl
    next => rfl
    next context asked _ hasked =>
      have hasked := record_eq_ok.mp hasked
      obtain ⟨-, hkey⟩ := hsound.apart hrecord hasked hother
      split
      next => rfl
      next found hfound =>
        rcases findManagedState_eq_ok hasked hfound with rfl | ⟨state, rfl⟩
        · rfl
        · simp only [view, FullStateProvider.insertSnapshot, getElem?_insert_of_ne _ _ hkey]

/-! ## Runs -/

/-- In every run the registry is a bijection between the ids and the keys of services. -/
theorem registry_bijective {start : BackendState L D} (hstart : start.registry.Bijective)
    (requests : List StateRequest) : (start.run blake2_256 requests).registry.Bijective := by
  induction requests generalizing start with
  | nil => exact hstart
  | cons request requests ih =>
    refine ih ?_
    cases perform_step request start with
    | same _ hregistry _ =>
      rcases hregistry with hsame | ⟨record, hregister⟩
      · exact hsame ▸ hstart
      · exact hstart.register hregister
    | advanced _ _ _ _ hregistry _ _ => exact hregistry ▸ hstart

open Counter in
theorem registry_bijective_counter :
    (start.run counterHash tracked).registry.byKey[Counter.record.serviceKey]? = some 7 :=
  (registry_bijective .empty tracked 7 Counter.record.serviceKey).mpr
    ⟨Counter.record, by decide +kernel, rfl⟩

/-- Requests about other services leave what the backend keeps for a registered service as it is. -/
theorem services_isolated {start : BackendState L D} (hstart : start.Sound) {record : ServiceRecord}
    (hrecord : start.registry.byId[serviceId]? = some record) {requests : List StateRequest}
    (hother : ∀ request ∈ requests, request.target ≠ some serviceId) :
    (start.run blake2_256 requests).view serviceId record.serviceKey = start.view serviceId
      record.serviceKey := by
  induction requests generalizing start with
  | nil => rfl
  | cons request requests ih =>
    have hstep := @perform_view_of_ne _ _ blake2_256 _ _ hstart _ hrecord _
      (hother request List.mem_cons_self)
    have hrecord' := (congrArg ServiceView.record hstep).trans hrecord
    exact (ih ((perform_step request start).sound hstart) hrecord' fun later hlater =>
      hother later (List.mem_cons_of_mem _ hlater)).trans hstep

open Counter in
/-- A second service is registered and moves its head; the counter stays. -/
theorem services_isolated_counter :
    let s := start.run counterHash (tracked ++ [importFirst])
    let second : ServiceRecord :=
    { Counter.record with serviceId := 8, serviceKey := List.Vector.replicate 32 9 }
    let s' := s.run counterHash [.registerService false second,
      .trackPrediction 8 firstPackage firstOutput,
      .status (importedAt firstRoot) (WorkKey.params ⟨8, firstPackage⟩)]
    s'.head second.serviceKey = firstRoot ∧ s'.view 7 Counter.record.serviceKey =
    s.view 7 Counter.record.serviceKey := by
  have hsound : start.Sound := ⟨.empty, .empty⟩
  refine ⟨by decide +kernel, services_isolated (hsound.run (tracked ++ [importFirst]))
    (by decide +kernel) ?_⟩
  simp [StateRequest.target, WorkKey.params]

end BackendState

end JamScript
