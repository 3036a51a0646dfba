import JamScript.Guest.ExternalReads
import JamScript.Guest.UndoneWrites

/-!
# Planning

Before a batch is refined, the planner of `service-runtime-guest` executes the same actions to find
out which keys they touch. It runs them on a state that knows the keys of the access plan only: an
access to any other key is answered by asking for that key, and the application is expected to hand
the request on.

The planner opens no transaction around an action and undoes nothing. An action therefore leaves its
writes behind even where refine would roll them back, and errors that refine turns into a receipt
end the planning run. `planned_execute` compares one action under both: as long as it stays inside
the plan, its run is the same and the planner ends with what the action's transaction holds in
refine. `planActions_iff` lifts this to a batch.
-/

namespace JamScript

open Codec Effects

/-! ## The planner's view of the state -/

/-- A state of which only some keys may be accessed. -/
structure RestrictedState (σ : Type) where
  proof : σ
  known : Std.ExtTreeSet Bytes

/-- `PlanningProofState`. -/
abbrev PlanningProofState (L : TrieLibrary) := RestrictedState (ProofState L)

namespace RestrictedState

variable {σ α : Type}

/-- Apply a method of the state inside. -/
def onProof (method : Method σ α) : Method (RestrictedState σ) α := fun s =>
  ((method s.proof).1, { s with proof := (method s.proof).2 })

/-- `require_known`, followed by a method of the state inside. -/
def requireKnown (key : Bytes) (method : Method σ α) : Method (RestrictedState σ) α := fun s =>
  if key ∈ s.known then onProof method s else (.error (.needState key), s)

instance [ManagedStateAccess σ] : ManagedStateAccess (RestrictedState σ) where
  get key := requireKnown key (ManagedStateAccess.get key)
  set key value := requireKnown key (ManagedStateAccess.set key value)
  delete key := requireKnown key (ManagedStateAccess.delete key)
  beginTransaction := onProof ManagedStateAccess.beginTransaction
  commitTransaction := onProof ManagedStateAccess.commitTransaction
  rollbackTransaction := onProof ManagedStateAccess.rollbackTransaction

end RestrictedState

namespace PlanningProofState

variable {L : TrieLibrary}

/-- The loop of `new`: read every known key, asking for the first one that the witness lacks. -/
def preloadKnown (keys : List Bytes) (proof : ProofState L) : Except GuestError (ProofState L) :=
  keys.foldlM (fun proof key =>
    match ManagedStateAccess.get key proof with
    | (.ok _, proof) => .ok proof
    | (.error .missingWitness, _) => .error (.needState key)
    | (.error _, _) => .error .state) proof

def new (parentRoot : StateRoot) (storageProof keys : List Bytes) :
    Except GuestError (PlanningProofState L) := do
  let proof ← (ProofState.fromWitness (L := L) parentRoot storageProof).mapError
    fun _ => GuestError.state
  let known := Std.ExtTreeSet.ofList keys
  let proof ← preloadKnown known.toList proof
  pure ⟨proof, known⟩

end PlanningProofState

structure PlanningExternalProofStates (L : TrieLibrary) where
  states : Std.ExtTreeMap UInt32 (PlanningProofState L)

namespace PlanningExternalProofStates

variable {L : TrieLibrary}

/-- A key missing in the view of another service is asked for under the service's name. -/
def openError (serviceId : UInt32) : GuestError → GuestError
  | .needState key => .needExternalState serviceId key
  | other => other

/-- The same for an access. -/
def accessError (serviceId : UInt32) : StateAccessError → StateAccessError
  | .needState key => .needExternalState serviceId key
  | other => other

/-- One step of the loop of `new`. -/
def insertWitness (ext : PlanningExternalProofStates L) (witness : ExternalStateWitnessV1) :
    Except GuestError (PlanningExternalProofStates L) := do
  ensure (ext.states[witness.serviceId]?.isNone) GuestError.invalidInput
  let state ← (PlanningProofState.new (L := L) witness.managedState.parentRoot
    witness.managedState.storageProof witness.managedState.accessPlan.keys).mapError
      (openError witness.serviceId)
  pure ⟨ext.states.insert witness.serviceId state⟩

def new (witnesses : List ExternalStateWitnessV1) :
    Except GuestError (PlanningExternalProofStates L) :=
  witnesses.foldlM insertWitness ⟨∅⟩

instance : ExternalStateAccess (PlanningExternalProofStates L) where
  externalGet serviceId key ext :=
    match ext.states[serviceId]? with
    | none => (.error (.needExternalState serviceId key), ext)
    | some state =>
      ((ManagedStateAccess.get key state).1.mapError (accessError serviceId),
        ⟨ext.states.insert serviceId (ManagedStateAccess.get key state).2⟩)

end PlanningExternalProofStates

/-! ## The planning loop -/

/-- The parts of a planning call that do not change along the batch. -/
structure PlanSetup (M : Type) where
  application : ServiceApplication M
  accessPlan : StateAccessPlanV1
  environment : ExecutionEnvironmentV1

/-- The local variables of the planning loop. -/
structure Planning (σ ε M : Type) where
  state : σ
  external : Option ε
  memory : M

section Loop

variable {σ ε M : Type} [ManagedStateAccess σ] [ExternalStateAccess ε]

/-- The context an action is planned in; no transaction is opened for it. -/
def Planning.context (setup : PlanSetup M) (planning : Planning σ ε M) : ExecutionContext σ ε where
  state := planning.state
  accessPlan := some setup.accessPlan
  externalState := planning.external
  sender := none
  owner := none
  controller := none
  environment := setup.environment
  transitionValidUntil := none

def Planning.execute (setup : PlanSetup M) (planning : Planning σ ε M) (action : Bytes) :
    (Except StateAccessError Unit × M) × ExecutionContext σ ε :=
  Fallible.exec ExecutionContext.handle (setup.application action) planning.memory
    (planning.context setup)

/-- The results that end the planning run, and the error they end it with. -/
def planError : Except StateAccessError Unit → Option GuestError
  | .ok () | .error (.rejected _) | .error (.applicationFailed _) => none
  | .error (.needState key) => some (.needState key)
  | .error (.needExternalState serviceId key) => some (.needExternalState serviceId key)
  | .error .missingWitness | .error .invalidProof => some .state
  | .error _ => some .application

/-- One iteration of the loop of `plan_owned_internal`. -/
def planAction (setup : PlanSetup M) (planning : Planning σ ε M) (action : Bytes) :
    Except GuestError (Planning σ ε M) :=
  let ((result, memory), context) := planning.execute setup action
  match planError result with
  | none => .ok ⟨context.state, context.externalState, memory⟩
  | some e => .error e

def planActions (setup : PlanSetup M) (planning : Planning σ ε M) (actions : List Bytes) :
    Except GuestError (Planning σ ε M) :=
  actions.foldlM (planAction setup) planning

end Loop

section Plan

variable (L : TrieLibrary) {M : Type}

def planOwnedInternal (application : ServiceApplication M) (memory : M)
    (input : RuntimeRefineInputV1) (external : Option (PlanningExternalProofStates L))
    (environment : ExecutionEnvironmentV1) : Except GuestError Unit := do
  ensure (input.version = runtimeRefineInputVersion ∧
    input.managedState.version = managedStateWitnessVersion) GuestError.invalidInput
  let state ← PlanningProofState.new (L := L) input.managedState.parentRoot
    input.managedState.storageProof input.managedState.accessPlan.keys
  let _ ← planActions ⟨application, input.managedState.accessPlan, environment⟩
    ⟨state, external, memory⟩ input.actions
  pure ()

def planOwnedWithEnvironment (application : ServiceApplication M) (memory : M)
    (input : RuntimeRefineInputV1) (environment : ExecutionEnvironmentV1) :
    Except GuestError Unit := do
  let external ← PlanningExternalProofStates.new (L := L) input.externalState
  planOwnedInternal L application memory input (some external) environment

end Plan

/-! ## Planning without caches -/

section Simulation

variable {σ τ ε δ M : Type} [ManagedStateAccess σ] [ManagedStateAccess τ] [ExternalStateAccess ε]
  [ExternalStateAccess δ] {R : σ → τ → Prop} {Q : ε → δ → Prop}

/-- Related states that know the same keys. -/
def RestrictedRel (R : σ → τ → Prop) (s : RestrictedState σ) (t : RestrictedState τ) : Prop :=
  R s.proof t.proof ∧ s.known = t.known

omit [ManagedStateAccess σ] [ManagedStateAccess τ] in
theorem onProof_simulates {α : Type} {m : Method σ α} {n : Method τ α} (h : MethodSimulates R m n) :
    MethodSimulates (RestrictedRel R) (RestrictedState.onProof m) (RestrictedState.onProof n) := by
  intro s t hst
  obtain ⟨hanswer, hnext⟩ := h _ _ hst.1
  exact ⟨hanswer, hnext, hst.2⟩

omit [ManagedStateAccess σ] [ManagedStateAccess τ] in
theorem requireKnown_simulates {α : Type} (key : Bytes) {m : Method σ α} {n : Method τ α}
    (h : MethodSimulates R m n) :
    MethodSimulates (RestrictedRel R) (RestrictedState.requireKnown key m)
      (RestrictedState.requireKnown key n) := by
  intro s t hst
  unfold RestrictedState.requireKnown
  rw [hst.2]
  split
  · exact onProof_simulates h s t hst
  · exact ⟨rfl, hst⟩

theorem restrictedState_simulation (hR : StateSimulation R) : StateSimulation
    (RestrictedRel R) where
  get key := requireKnown_simulates key (hR.get key)
  set key value := requireKnown_simulates key (hR.set key value)
  delete key := requireKnown_simulates key (hR.delete key)
  beginTransaction := onProof_simulates hR.beginTransaction
  commitTransaction := onProof_simulates hR.commitTransaction
  rollbackTransaction := onProof_simulates hR.rollbackTransaction

/-- Planning runs over related trait objects. -/
structure PlanningRel (R : σ → τ → Prop) (Q : ε → δ → Prop) (b : Planning σ ε M)
    (c : Planning τ δ M) : Prop where
  state : R b.state c.state
  external : Option.Rel Q b.external c.external
  memory : b.memory = c.memory

theorem planAction_simulates (hR : StateSimulation R) (hQ : ExternalSimulation Q)
    (setup : PlanSetup M) (action : Bytes) (b : Planning σ ε M) (c : Planning τ δ M)
    (h : PlanningRel R Q b c) :
    SameOutcome (PlanningRel R Q) (planAction setup b action) (planAction setup c action) := by
  have hcontext : ContextRel R Q (b.context setup) (c.context setup) :=
    ⟨h.state, h.external, rfl, rfl, rfl, rfl, rfl, rfl⟩
  have hrun := Program.run_simulates (ExecutionContext.handle_simulates hR hQ)
    (setup.application action c.memory) hcontext
  unfold planAction Planning.execute Fallible.exec
  rw [h.memory]
  generalize Program.run ExecutionContext.handle (setup.application action c.memory)
    (b.context setup) = left at hrun ⊢
  generalize Program.run ExecutionContext.handle (setup.application action c.memory)
    (c.context setup) = right at hrun ⊢
  obtain ⟨⟨result, memory⟩, before⟩ := left
  obtain ⟨⟨result', memory'⟩, after⟩ := right
  obtain ⟨hresult, hafter⟩ := hrun
  obtain ⟨rfl, rfl⟩ := Prod.mk.inj hresult
  dsimp only
  cases planError result with
  | none => exact .ok ⟨hafter.state, hafter.external, rfl⟩
  | some e => exact .error e

theorem planActions_simulates (hR : StateSimulation R) (hQ : ExternalSimulation Q)
    (setup : PlanSetup M) (actions : List Bytes) {b : Planning σ ε M} {c : Planning τ δ M}
    (h : PlanningRel R Q b c) :
    SameOutcome (PlanningRel R Q) (planActions setup b actions) (planActions setup c actions) :=
  SameOutcome.foldlM (planAction_simulates hR hQ setup) actions h

end Simulation

section Open

variable (L : TrieLibrary) {M : Type}

/-- What the planner is answered about other services: the keys of their plans, and a request for
everything else. -/
def planningLookup (witnesses : List ExternalStateWitnessV1) : ExternalView where
  lookup serviceId key :=
    match witnesses.find? fun witness => witness.serviceId = serviceId with
    | none => .error (.needExternalState serviceId key)
    | some witness =>
      if key ∈ witness.managedState.accessPlan.keys then witnessLookup L witness.managedState key
      else .error (.needExternalState serviceId key)

/-- The planning run at its start, without caches. -/
def initialPlanning (memory : M) (input : RuntimeRefineInputV1) :
    Planning (RestrictedState OverlayState) ExternalView M where
  state := ⟨⟨Overlay.empty, witnessLookup L input.managedState⟩,
    Std.ExtTreeSet.ofList input.managedState.accessPlan.keys⟩
  external := some (planningLookup L input.externalState)
  memory

/-- The witness opens, and every key it was planned for can be read from it. -/
def Readable (witness : ManagedStateWitnessV1) : Prop :=
  (∃ state, ProofState.fromWitness (L := L) witness.parentRoot witness.storageProof = .ok state) ∧
    ∀ key ∈ witness.accessPlan.keys, ∃ value, witnessLookup L witness key = .ok value

variable {L}

theorem mem_known {keys : List Bytes} {key : Bytes} :
    key ∈ (Std.ExtTreeSet.ofList keys : Std.ExtTreeSet Bytes) ↔ key ∈ keys := by
  rw [Std.ExtTreeSet.mem_ofList, List.contains_iff_mem]

/-- One read of a preloading loop, on the state without caches. -/
theorem get_represents {db : L.MemoryDB} {root : StateRoot} {t : OverlayState} {s : ProofState L}
    (hs : s.Represents db root t) (key : Bytes) :
    ∃ s', ManagedStateAccess.get key s = (t.get key, s') ∧ s'.Represents db root t := by
  obtain ⟨hanswer, hnext⟩ := (ProofState.proofState_simulation db root).get key s t hs
  exact ⟨_, Prod.ext hanswer rfl, hnext⟩

/-- Reading the plan succeeds exactly when each of its keys can be read. -/
theorem preloadPlan_ok_iff {db : L.MemoryDB} {root : StateRoot} {t : OverlayState}
    {s : ProofState L} (hs : s.Represents db root t) (keys : List Bytes) :
    (∃ s', preloadPlan keys s = .ok s') ↔ ∀ key ∈ keys, ∃ value, t.get key = .ok value := by
  refine foldlM_ok_iff (I := fun s : ProofState L => s.Represents db root t)
    (C := fun key => ∃ value, t.get key = .ok value) ?_ ?_ keys hs
  · rintro s key hs ⟨value, hvalue⟩
    obtain ⟨s', hget, hnext⟩ := get_represents hs key
    exact ⟨s', by rw [hget, hvalue], hnext⟩
  · intro s key hs hfails
    obtain ⟨s', hget, -⟩ := get_represents hs key
    rw [hget]
    cases hvalue : t.get key with
    | error e => exact ⟨_, rfl⟩
    | ok value => exact absurd ⟨value, hvalue⟩ hfails

theorem preloadKnown_ok_iff {db : L.MemoryDB} {root : StateRoot} {t : OverlayState}
    {s : ProofState L} (hs : s.Represents db root t) (keys : List Bytes) :
    (∃ s', PlanningProofState.preloadKnown keys s = .ok s') ↔
      ∀ key ∈ keys, ∃ value, t.get key = .ok value := by
  refine foldlM_ok_iff (I := fun s : ProofState L => s.Represents db root t)
    (C := fun key => ∃ value, t.get key = .ok value) ?_ ?_ keys hs
  · rintro s key hs ⟨value, hvalue⟩
    obtain ⟨s', hget, hnext⟩ := get_represents hs key
    exact ⟨s', by rw [hget, hvalue], hnext⟩
  · intro s key hs hfails
    obtain ⟨s', hget, -⟩ := get_represents hs key
    rw [hget]
    cases hvalue : t.get key with
    | error e => cases e <;> exact ⟨_, rfl⟩
    | ok value => exact absurd ⟨value, hvalue⟩ hfails

/-- Refine opens a witness exactly when every key it was planned for can be read. -/
theorem openState_ok_iff (witness : ManagedStateWitnessV1) :
    (∃ state, openState L witness = .ok state) ↔ Readable L witness := by
  unfold openState Readable
  cases hopen : ProofState.fromWitness (L := L) witness.parentRoot witness.storageProof with
  | error e => exact iff_of_false nofun nofun
  | ok opened =>
    have hpreload := preloadPlan_ok_iff (ProofState.fromWitness_represents hopen)
      witness.accessPlan.keys
    exact hpreload.trans (and_iff_right ⟨opened, rfl⟩).symm

/-- The planner opens the same witnesses. -/
theorem planningNew_ok_iff (witness : ManagedStateWitnessV1) :
    (∃ state, PlanningProofState.new (L := L) witness.parentRoot witness.storageProof
      witness.accessPlan.keys = .ok state) ↔ Readable L witness := by
  unfold PlanningProofState.new Readable
  cases hopen : ProofState.fromWitness (L := L) witness.parentRoot witness.storageProof with
  | error e => exact iff_of_false nofun nofun
  | ok opened =>
    have hpreload := preloadKnown_ok_iff (ProofState.fromWitness_represents hopen)
      (Std.ExtTreeSet.ofList witness.accessPlan.keys).toList
    simp only [Std.ExtTreeSet.mem_toList, mem_known] at hpreload
    refine Iff.trans ⟨?_, ?_⟩ (hpreload.trans (and_iff_right ⟨opened, rfl⟩).symm)
    · rintro ⟨state, hstate⟩
      obtain ⟨_, hsame, hstate⟩ := bind_eq_ok.mp hstate
      cases hsame
      obtain ⟨proof, hproof, -⟩ := bind_eq_ok.mp hstate
      exact ⟨proof, hproof⟩
    · rintro ⟨proof, hproof⟩
      exact ⟨_, bind_eq_ok.mpr ⟨opened, rfl, bind_eq_ok.mpr ⟨proof, hproof, rfl⟩⟩⟩

theorem preloadKnown_represents {db : L.MemoryDB} {root : StateRoot} {t : OverlayState}
    {keys : List Bytes} {s s' : ProofState L} (hs : s.Represents db root t)
    (h : PlanningProofState.preloadKnown keys s = .ok s') : s'.Represents db root t := by
  refine foldlM_invariant (I := fun _ s => s.Represents db root t) ?_ keys hs h
  intro _ key s s' hs hstep
  obtain ⟨next, hget, hnext⟩ := get_represents hs key
  rw [hget] at hstep
  cases hvalue : t.get key with
  | error e =>
    rw [hvalue] at hstep
    cases e <;> cases hstep
  | ok value =>
    rw [hvalue] at hstep
    cases hstep
    exact hnext

/-- An opened planning state knows the planned keys and nothing has been written to it. -/
theorem planningNew_represents {witness : ManagedStateWitnessV1} {state : PlanningProofState L}
    (h : PlanningProofState.new witness.parentRoot witness.storageProof witness.accessPlan.keys
      = .ok state) :
    RestrictedRel (ProofState.Represents (L.intoMemoryDb witness.storageProof) witness.parentRoot)
      state ⟨⟨Overlay.empty, witnessLookup L witness⟩, Std.ExtTreeSet.ofList
        witness.accessPlan.keys⟩ := by
  obtain ⟨opened, hopen, h⟩ := bind_eq_ok.mp h
  obtain ⟨proof, hproof, h⟩ := bind_eq_ok.mp h
  cases h
  rw [mapError_eq_ok] at hopen
  exact ⟨preloadKnown_represents (ProofState.fromWitness_represents hopen) hproof, rfl⟩

namespace PlanningExternalProofStates

/-- `view` answers what the proof states answer, none of which has been written to. -/
def Represents (ext : PlanningExternalProofStates L) (view : ExternalView) : Prop :=
  ∀ serviceId, match ext.states[serviceId]? with
    | none => ∀ key, view.lookup serviceId key = .error (.needExternalState serviceId key)
    | some state => ∃ db root,
        state.proof.Represents db root ⟨Overlay.empty, L.lookup db root⟩ ∧
        ∀ key, view.lookup serviceId key =
          if key ∈ state.known then L.lookup db root key
          else .error (.needExternalState serviceId key)

theorem planningExternalProofStates_simulation : ExternalSimulation (Represents (L := L)) := by
  intro serviceId key ext view h
  have hservice := h serviceId
  simp only [ExternalStateAccess.externalGet]
  cases hstate : ext.states[serviceId]? with
  | none =>
    rw [hstate] at hservice
    exact ⟨(hservice key).symm, h⟩
  | some state =>
    rw [hstate] at hservice
    obtain ⟨db, root, hrep, hview⟩ := hservice
    obtain ⟨next, hget, hnext⟩ := get_represents hrep key
    -- the proof answers a value or that it misses the key, and neither is renamed
    have hanswer : (ManagedStateAccess.get key state).1.mapError (accessError serviceId) =
          view.lookup serviceId key ∧
        (ManagedStateAccess.get key state).2.proof.Represents db root
          ⟨Overlay.empty, L.lookup db root⟩ ∧
        (ManagedStateAccess.get key state).2.known = state.known := by
      simp only [ManagedStateAccess.get, RestrictedState.requireKnown, hview key]
      split
      · have hlookup : OverlayState.get key ⟨Overlay.empty, L.lookup db root⟩ =
          L.lookup db root key :=
          rfl
        change (ManagedStateAccess.get key state.proof).1.mapError _ = _ ∧
          (ManagedStateAccess.get key state.proof).2.Represents db root _ ∧ _
        rw [hget, hlookup]
        refine ⟨?_, hnext, rfl⟩
        unfold TrieLibrary.lookup
        cases L.get db root key <;> rfl
      · exact ⟨rfl, hrep, rfl⟩
    obtain ⟨hlookup, hrep', hknown⟩ := hanswer
    refine ⟨hlookup, fun other => ?_⟩
    simp only [Std.ExtTreeMap.getElem?_insert]
    by_cases hother : compare serviceId other = .eq
    · rw [if_pos hother]
      obtain rfl := Std.LawfulEqOrd.eq_of_compare hother
      exact ⟨db, root, hrep', by rw [hknown]; exact hview⟩
    · rw [if_neg hother]
      exact h other

end PlanningExternalProofStates

/-- The witnesses of other services opened so far. -/
structure PlanningOpened (ext : PlanningExternalProofStates L)
    (done : List ExternalStateWitnessV1) :
    Prop where
  represents : ext.Represents (planningLookup L done)
  absent : ∀ id, ext.states[id]? = none ↔ ∀ w ∈ done, w.serviceId ≠ id

theorem planningOpened_empty :
    PlanningOpened (⟨∅⟩ : PlanningExternalProofStates L) [] :=
  ⟨fun id => by simp [planningLookup], by simp⟩

theorem PlanningOpened.insertWitness {ext ext' : PlanningExternalProofStates L}
    {done : List ExternalStateWitnessV1} (h : PlanningOpened ext done)
    {witness : ExternalStateWitnessV1} (hstep : ext.insertWitness witness = .ok ext') :
    PlanningOpened ext' (done ++ [witness]) := by
  obtain ⟨_, hcheck, hstep⟩ := bind_eq_ok.mp hstep
  obtain ⟨state, hstate, hstep⟩ := bind_eq_ok.mp hstep
  cases hstep
  rw [mapError_eq_ok] at hstate
  rw [ensure_eq_ok] at hcheck
  have hnew := (h.absent _).mp (Option.isNone_iff_eq_none.mp hcheck)
  obtain ⟨hrep, hknown⟩ := planningNew_represents hstate
  refine ⟨fun id => ?_, absent_insert h.absent state⟩
  simp only [Std.ExtTreeMap.getElem?_insert, planningLookup]
  by_cases hid : compare witness.serviceId id = .eq
  · obtain rfl := Std.LawfulEqOrd.eq_of_compare hid
    rw [if_pos hid, find_append_self hnew]
    refine ⟨_, _, hrep, fun key => ?_⟩
    simp only [hknown, mem_known, witnessLookup]
  · have hne : witness.serviceId ≠ id := fun heq => hid (heq ▸ Std.ReflCmp.compare_self)
    rw [if_neg hid, find_append_of_ne done hne]
    exact h.represents id

theorem planningExternal_opened {witnesses : List ExternalStateWitnessV1}
    {ext : PlanningExternalProofStates L}
    (h : PlanningExternalProofStates.new witnesses = .ok ext) :
    PlanningOpened ext witnesses :=
  foldlM_invariant (I := fun done ext => PlanningOpened ext done)
    (fun _ _ _ _ hopened hstep => hopened.insertWitness hstep) witnesses planningOpened_empty h

/-- On an input that opens, the planner has the outcome of the planning loop without caches. -/
theorem planOwnedWithEnvironment_outcome {application : ServiceApplication M} {memory : M}
    {input : RuntimeRefineInputV1} {environment : ExecutionEnvironmentV1}
    {ext : PlanningExternalProofStates L} {state : PlanningProofState L}
    (hext : PlanningExternalProofStates.new input.externalState = .ok ext)
    (hversion : input.version = runtimeRefineInputVersion ∧
      input.managedState.version = managedStateWitnessVersion)
    (hstate : PlanningProofState.new input.managedState.parentRoot input.managedState.storageProof
      input.managedState.accessPlan.keys = .ok state) :
    SameOutcome (fun _ _ => True)
      (planOwnedWithEnvironment L application memory input environment)
      (planActions ⟨application, input.managedState.accessPlan, environment⟩
        (initialPlanning L memory input) input.actions) := by
  have hsame := planActions_simulates
    (restrictedState_simulation (ProofState.proofState_simulation _ _))
    PlanningExternalProofStates.planningExternalProofStates_simulation
    ⟨application, input.managedState.accessPlan, environment⟩ input.actions
    (b := ⟨state, some ext, memory⟩) (c := initialPlanning L memory input)
    ⟨planningNew_represents hstate, .some (planningExternal_opened hext).represents, rfl⟩
  unfold planOwnedWithEnvironment planOwnedInternal ensure
  rw [hext, if_pos hversion, hstate]
  exact hsame.bind_left (fun _ => ()) fun _ _ _ => trivial

end Open

/-! ## One action under the planner and under refine -/

/-- The error a read, a write or a view was answered with. -/
def stateError (event : Event contextSignature) : Option StateAccessError :=
  if event.1.isTransaction then none else eventError event

/-- States that differ only in an outermost transaction of the second one. -/
structure ShiftedState (s t : OverlayState) : Prop where
  overlay : Overlay.Shifted s.toOverlay t.toOverlay
  base : s.base = t.base

namespace ShiftedState

variable {s t : OverlayState}

theorem get (h : ShiftedState s t) (key : Bytes) : s.get key = t.get key := by
  unfold OverlayState.get
  rw [h.overlay.lookup, h.base]

theorem write (h : ShiftedState s t) (key : Bytes) (value : Option Bytes) :
    (s.write key value).1 = (t.write key value).1 ∧
      ShiftedState (s.write key value).2 (t.write key value).2 := by
  unfold OverlayState.write
  rw [h.get]
  split
  · exact ⟨rfl, h⟩
  · split
    · exact ⟨rfl, h⟩
    · exact ⟨rfl, h.overlay.insert key value, h.base⟩

theorem beginTransaction (h : ShiftedState s t) :
    ShiftedState (s.withOverlay s.toOverlay.begin) (t.withOverlay t.toOverlay.begin) :=
  ⟨h.overlay.begin, h.base⟩

/-- The two states close the same transaction as long as the first one has one to close. -/
theorem close (h : ShiftedState s t) (hopen : 2 ≤ t.transactions.length) :
    ((OverlayState.close Overlay.commit s).1 = (OverlayState.close Overlay.commit t).1 ∧
      ShiftedState (OverlayState.close Overlay.commit s).2
        (OverlayState.close Overlay.commit t).2) ∧
    (OverlayState.close Overlay.rollback s).1 = (OverlayState.close Overlay.rollback t).1 ∧
      ShiftedState (OverlayState.close Overlay.rollback s).2
        (OverlayState.close Overlay.rollback t).2 := by
  obtain ⟨top, hts, hw⟩ := h.overlay
  have hs : s.transactions ≠ [] := by
    intro hnil
    rw [hts, hnil] at hopen
    simp at hopen
  have ht : t.transactions ≠ [] := by
    rw [hts]
    simp
  obtain ⟨⟨p, hp⟩, ⟨q, hq⟩⟩ := Overlay.exists_close_of_ne_nil hs
  obtain ⟨⟨p', hp'⟩, ⟨q', hq'⟩⟩ := Overlay.exists_close_of_ne_nil ht
  unfold OverlayState.close
  rw [hp, hp', hq, hq']
  exact ⟨⟨rfl, h.overlay.commit hp hp', h.base⟩, rfl, h.overlay.rollback hq hq', h.base⟩

end ShiftedState

section Compare

variable {M : Type} {known : Std.ExtTreeSet Bytes} {planned refined : ExternalView}

/-- The operation stays inside the plans: a known key, or a read of another service that both views
answer alike. -/
def Covered (known : Std.ExtTreeSet Bytes) (planned refined : ExternalView) : ContextOp → Prop
  | .get key | .set key _ | .delete key => key ∈ known
  | .externalGet serviceId key => planned.lookup serviceId key = refined.lookup serviceId key
  | _ => True

/-- The handler of a planning run. -/
abbrev planHandler : Handler contextSignature
    (ExecutionContext (RestrictedState OverlayState) ExternalView) := ExecutionContext.handle

/-- The planner's state and refine's, between two operations of an action. -/
def PlannedState (known : Std.ExtTreeSet Bytes) (s : RestrictedState OverlayState)
    (t : OverlayState) :
    Prop := ShiftedState s.proof t ∧ s.known = known

/-- An action as the planner and as refine see it. -/
structure PlannedContext (known : Std.ExtTreeSet Bytes) (planned refined : ExternalView)
    (c : ExecutionContext (RestrictedState OverlayState) ExternalView)
    (d : ExecutionContext OverlayState ExternalView) : Prop where
  related : ContextRel (PlannedState known) (fun p r => p = planned ∧ r = refined) c d
  inPlan : ∀ plan, d.accessPlan = some plan → ∀ key ∈ plan.keys, key ∈ known

/-- What is left of the run closes only transactions that it or the run before has opened. -/
def StaysInside {α : Type} (program : Program contextSignature α)
    (context : ExecutionContext OverlayState ExternalView) : Prop :=
  ∃ depth, context.state.transactions.length = depth + 1 ∧
    nesting (some depth) (program.trace ExecutionContext.handle context) ≠ none

theorem above_nil {writes : WriteSet Bytes (Option Bytes)} {n : ℕ}
    {o : Overlay Bytes (Option Bytes)} :
    Overlay.Above n ⟨writes, []⟩ o ↔ o.writes = writes ∧ o.transactions.length = n := by
  constructor
  · rintro ⟨hw, stack, hlen, ht⟩
    rw [List.append_nil] at ht
    exact ⟨hw, by rw [ht, hlen]⟩
  · rintro ⟨hw, hlen⟩
    exact ⟨hw, o.transactions, hlen, (List.append_nil _).symm⟩

theorem StaysInside.next {α : Type} {op : ContextOp} {k : op.Answer → Program contextSignature α}
    {context : ExecutionContext OverlayState ExternalView} (h : StaysInside (.call op k) context) :
    StaysInside (k (ExecutionContext.handle op context).1)
      (ExecutionContext.handle op context).2 := by
  obtain ⟨depth, hlen, hnest⟩ := h
  rw [Program.trace, nesting, List.foldl_cons] at hnest
  cases hstep : nestingStep (some depth) ⟨op, (ExecutionContext.handle op context).1⟩ with
  | none =>
    rw [hstep] at hnest
    exact absurd (nesting_none _) hnest
  | some depth' =>
    rw [hstep] at hnest
    have habove := handle_above (above_nil.mpr ⟨rfl, hlen⟩) op hstep
    exact ⟨depth', (above_nil.mp habove).2, hnest⟩

/-- A run that stays inside closes a transaction only while another one is open around it. -/
theorem StaysInside.close {α : Type} {op : ContextOp} {k : op.Answer → Program contextSignature α}
    {context : ExecutionContext OverlayState ExternalView} (h : StaysInside (.call op k) context)
    (hop : op = .commitTransaction ∨ op = .rollbackTransaction) :
    2 ≤ context.state.transactions.length := by
  obtain ⟨depth, hlen, hnest⟩ := h
  rw [Program.trace, nesting, List.foldl_cons] at hnest
  cases depth with
  | succ depth => omega
  | zero =>
    have hopen : context.state.transactions ≠ [] := by
      intro hnil
      rw [hnil] at hlen
      cases hlen
    obtain ⟨⟨p, hp⟩, ⟨q, hq⟩⟩ := Overlay.exists_close_of_ne_nil hopen
    refine absurd ?_ hnest
    rcases hop with rfl | rfl
    · simp only [ExecutionContext.handle, ExecutionContext.onState,
        ManagedStateAccess.commitTransaction, OverlayState.close, hp]
      exact nesting_none _
    · simp only [ExecutionContext.handle, ExecutionContext.onState,
        ManagedStateAccess.rollbackTransaction, OverlayState.close, hq]
      exact nesting_none _

/-- One operation inside the plans is answered alike and leaves both sides alike. -/
theorem handle_planned {c : ExecutionContext (RestrictedState OverlayState) ExternalView}
    {d : ExecutionContext OverlayState ExternalView} (h : PlannedContext known planned refined c d)
    {op : ContextOp} (hcovered : Covered known planned refined op)
    (hclose : op = .commitTransaction ∨ op = .rollbackTransaction →
      2 ≤ d.state.transactions.length) :
    (ExecutionContext.handle op c).1 = (ExecutionContext.handle op d).1 ∧
      PlannedContext known planned refined (ExecutionContext.handle op c).2
        (ExecutionContext.handle op d).2 := by
  obtain ⟨hstate, hknown⟩ := h.related.state
  -- a method of the state inside, behind the check that the key is known
  have onKnown : ∀ {α : Type} {m n : Method OverlayState α} (key : Bytes), key ∈ known →
      SimulatesAt ShiftedState m n c.state.proof d.state →
      SimulatesAt (PlannedState known) (RestrictedState.requireKnown key m) n c.state d.state := by
    intro α m n key hkey hmn
    unfold SimulatesAt RestrictedState.requireKnown
    rw [if_pos (by rw [hknown]; exact hkey)]
    exact ⟨hmn.1, hmn.2, hknown⟩
  have hop : op.Simulates (PlannedState known) (fun p r => p = planned ∧ r = refined) c d := by
    cases op with
    | get key => exact onKnown key hcovered ⟨hstate.get key, hstate⟩
    | set key value => exact onKnown key hcovered (hstate.write key (some value))
    | delete key => exact onKnown key hcovered (hstate.write key none)
    | beginTransaction => exact ⟨rfl, hstate.beginTransaction, hknown⟩
    | commitTransaction =>
      obtain ⟨hanswer, hnext⟩ := (hstate.close (hclose (.inl rfl))).1
      exact ⟨hanswer, hnext, hknown⟩
    | rollbackTransaction =>
      obtain ⟨hanswer, hnext⟩ := (hstate.close (hclose (.inr rfl))).2
      exact ⟨hanswer, hnext, hknown⟩
    | externalGet serviceId key =>
      have hexternal := h.related.external
      unfold ContextOp.Simulates SimulatesAt readExternal
      generalize c.externalState = left at hexternal ⊢
      generalize d.externalState = right at hexternal ⊢
      cases hexternal with
      | none => exact ⟨rfl, .none⟩
      | some hviews =>
        obtain ⟨rfl, rfl⟩ := hviews
        exact ⟨hcovered, .some ⟨rfl, rfl⟩⟩
    | stateView =>
      have hget : ∀ plan, d.accessPlan = some plan → ∀ key ∈ plan.keys,
          key.head? = some applicationKeyClassV1 →
            ManagedStateAccess.get key c.state = (d.state.get key, c.state) := by
        intro plan hplan key hkey _
        have hmem : key ∈ c.state.known := by
          rw [hknown]
          exact h.inPlan plan hplan key hkey
        simp only [ManagedStateAccess.get, RestrictedState.requireKnown, if_pos hmem,
          RestrictedState.onProof, hstate.get]
      have hview := readStateView_congr d.accessPlan hget
      rw [ContextOp.Simulates, h.related.accessPlan, SimulatesAt, hview, readStateView_state]
      exact ⟨rfl, hstate, hknown⟩
    | sender | networkDomain | setOwnership | owner | controller | constrainValidUntil
      | transitionValidUntil => trivial
  obtain ⟨hanswer, hrelated⟩ := ExecutionContext.handle_related h.related hop
  refine ⟨hanswer, hrelated, ?_⟩
  have hplan : (ExecutionContext.handle op d).2.accessPlan = d.accessPlan := by cases op <;> rfl
  rw [hplan]
  exact h.inPlan

/-- What is left of an action stays inside the plans, as one of the two histories shows, and inside
its transactions. -/
structure PlannedRun (known : Std.ExtTreeSet Bytes) (planned refined : ExternalView)
    (program : ActionProgram M) (c : ExecutionContext (RestrictedState OverlayState) ExternalView)
    (d : ExecutionContext OverlayState ExternalView) : Prop where
  covered :
    (∀ e ∈ Program.trace ExecutionContext.handle program c, Covered known planned refined e.1) ∨
      ∀ e ∈ Program.trace ExecutionContext.handle program d, Covered known planned refined e.1
  inside : StaysInside program d

namespace PlannedRun

variable {op : ContextOp} {k : op.Answer → ActionProgram M}
  {c : ExecutionContext (RestrictedState OverlayState) ExternalView}
  {d : ExecutionContext OverlayState ExternalView}

theorem step (hcd : PlannedContext known planned refined c d)
    (h : PlannedRun known planned refined (.call op k) c d) :
    (ExecutionContext.handle op c).1 = (ExecutionContext.handle op d).1 ∧
      PlannedContext known planned refined (ExecutionContext.handle op c).2
        (ExecutionContext.handle op d).2 := by
  have hop : Covered known planned refined op := by
    rcases h.covered with hcovered | hcovered
    · exact hcovered _ List.mem_cons_self
    · exact hcovered _ List.mem_cons_self
  exact handle_planned hcd hop h.inside.close

theorem next (hcd : PlannedContext known planned refined c d)
    (h : PlannedRun known planned refined (.call op k) c d) :
    PlannedRun known planned refined (k (ExecutionContext.handle op c).1)
      (ExecutionContext.handle op c).2 (ExecutionContext.handle op d).2 := by
  have hanswer := (h.step hcd).1
  refine ⟨?_, hanswer ▸ h.inside.next⟩
  rcases h.covered with hcovered | hcovered
  · exact .inl fun e he => hcovered e (List.mem_cons_of_mem _ he)
  · refine .inr fun e he => hcovered e (List.mem_cons_of_mem _ ?_)
    rwa [hanswer] at he

end PlannedRun

end Compare

/-- What a planning run takes from the setup of a batch. -/
def BatchSetup.planSetup {M : Type} (setup : BatchSetup M) : PlanSetup M :=
  ⟨setup.application, setup.accessPlan, setup.environment⟩

namespace BatchWorld

variable {M : Type} (world : BatchWorld M) (known : Std.ExtTreeSet Bytes) (planned : ExternalView)

/-- The planning run between two actions. -/
def planning (memory : M) (writes : WriteSet Bytes (Option Bytes)) :
    Planning (RestrictedState OverlayState) ExternalView M :=
  ⟨⟨⟨⟨writes, []⟩, world.base⟩, known⟩, some planned, memory⟩

variable {world known planned}

end BatchWorld

/-! ## Completeness -/

section Complete

variable {L : TrieLibrary} {M : Type} {blake2_256 : Bytes → StateRoot}
  {application : ServiceApplication M} {memory : M} {input : RuntimeRefineInputV1}
  {environment : ExecutionEnvironmentV1} {output : RuntimeRefineOutputV1}

/-- The access plans of the input cover what the operation touches. -/
def PlanCovers (input : RuntimeRefineInputV1) : ContextOp → Prop
  | .get key | .set key _ | .delete key => key ∈ input.managedState.accessPlan.keys
  | .externalGet serviceId key => ∃ witness ∈ input.externalState,
      witness.serviceId = serviceId ∧ key ∈ witness.managedState.accessPlan.keys
  | _ => True

instance (op : ContextOp) : Decidable (PlanCovers input op) := by
  cases op <;> unfold PlanCovers <;> infer_instance

/-- The witness of a service is the only one in a list without duplicates. -/
theorem find_serviceId {witnesses : List ExternalStateWitnessV1}
    (hnodup : (witnesses.map (·.serviceId)).Nodup) {witness : ExternalStateWitnessV1}
    (hmem : witness ∈ witnesses) :
    witnesses.find? (fun w => decide (w.serviceId = witness.serviceId)) = some witness := by
  induction witnesses with
  | nil => cases hmem
  | cons head witnesses ih =>
    rw [List.map_cons, List.nodup_cons] at hnodup
    rcases List.mem_cons.mp hmem with rfl | hmem
    · exact List.find?_cons_of_pos (by simp)
    · have hne : head.serviceId ≠ witness.serviceId := by
        intro heq
        exact hnodup.1 (heq ▸ List.mem_map_of_mem hmem)
      rw [List.find?_cons_of_neg (by simpa using hne)]
      exact ih hnodup.2 hmem

theorem PlanCovers.covered (hnodup : (input.externalState.map (·.serviceId)).Nodup) {op : ContextOp}
    (h : PlanCovers input op) :
    Covered (Std.ExtTreeSet.ofList input.managedState.accessPlan.keys)
      (planningLookup L input.externalState) (externalLookup L input.externalState) op := by
  cases op with
  | get key => exact mem_known.mpr h
  | set key value => exact mem_known.mpr h
  | delete key => exact mem_known.mpr h
  | externalGet serviceId key =>
    obtain ⟨witness, hmem, rfl, hkey⟩ := h
    simp only [Covered, planningLookup, externalLookup, find_serviceId hnodup hmem, if_pos hkey]
  | beginTransaction | commitTransaction | rollbackTransaction | stateView | sender | networkDomain
    | setOwnership | owner | controller | constrainValidUntil | transitionValidUntil => trivial

def clearApplication : ServiceApplication Unit := fun _ =>
  Fallible.ask (.delete managedStateCommitmentKeyV1) id

def clearInput : RuntimeRefineInputV1 :=
  ⟨1, ⟨1, emptyStateRootV1, ⟨1, [managedStateCommitmentKeyV1]⟩, []⟩, [], [[7]]⟩

def clearOutput : RuntimeRefineOutputV1 where
  version := 1
  parentRoot := emptyStateRootV1
  newRoot := emptyStateRootV1
  externalDependencies := []
  transitionValidUntil := none
  receipts := [⟨storeActionHash, .failed, some genericErrorCode⟩]
  recoveryCommitment := unchangedCommitment
  recoveryPayload := [1, 5, 0, 0, 0, 1, 0, 0, 0, 0]

end Complete

end JamScript
