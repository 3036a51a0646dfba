import JamScript.Guest.Batch
import JamScript.Guest.Accumulate

/-!
# External reads, from the witness to accumulate

An action reads other services through witnesses that the builder of the input supplies. Each
witness names the root it speaks about, refine lists these roots as dependencies of its output, and
accumulate compares them with the canonical commitments before it applies the output.
`external_reads_bound` puts the three together: what an action has read of a service was in that
service's state.
-/

namespace JamScript

open Codec Effects

/-- An external read of the history was answered by `view`. -/
def AnsweredBy (view : ExternalView) : Event contextSignature → Prop
  | ⟨.externalGet serviceId key, answer⟩ => answer = view.lookup serviceId key
  | _ => True

theorem handle_answeredBy {view : ExternalView} (op : ContextOp)
    (context : ExecutionContext OverlayState ExternalView) (h : context.externalState = some view) :
    AnsweredBy view ⟨op, (ExecutionContext.handle op context).1⟩ := by
  cases op with
  | externalGet serviceId key =>
    change (readExternal serviceId key context.externalState).1 = view.lookup serviceId key
    rw [h]
    rfl
  | get | set | delete | beginTransaction | commitTransaction | rollbackTransaction | stateView
    | sender | networkDomain | setOwnership | owner | controller | constrainValidUntil
    | transitionValidUntil => trivial

section Batch

variable {M : Type} {setup : BatchSetup M}

/-- Along a batch the views of other services stay what they are. -/
theorem refineAction_external {batch next : Batch OverlayState ExternalView M} {action : Bytes}
    (h : refineAction setup batch action = .ok next) : next.external = batch.external := by
  have hexternal : (batch.execute setup action).2.externalState = some batch.external :=
    (run_base (setup.application action batch.memory) (batch.context setup)).2
  obtain ⟨_, _, _, rfl⟩ := refineAction_eq_ok h
  change (batch.execute setup action).2.externalState.getD batch.external = batch.external
  rw [hexternal]
  rfl

theorem actionTraces_answeredBy (actions : List Bytes) (batch : Batch OverlayState ExternalView M) :
    ∀ trace ∈ actionTraces setup batch actions, ∀ event ∈ trace.events,
      AnsweredBy batch.external event := by
  induction actions generalizing batch with
  | nil => simp [actionTraces]
  | cons action actions ih =>
    intro trace htrace
    rw [actionTraces, List.mem_cons] at htrace
    rcases htrace with rfl | htrace
    · refine Program.trace_forall (I := fun context => context.externalState = some batch.external)
        ?_ ?_ (setup.application action batch.memory) rfl
      · intro op context hcontext
        exact (handle_base op context).2.trans hcontext
      · exact fun op context hcontext => handle_answeredBy op context hcontext
    · cases hnext : refineAction setup batch action with
      | error e =>
        rw [hnext] at htrace
        cases htrace
      | ok next =>
        rw [hnext] at htrace
        rw [← refineAction_external hnext]
        exact ih next trace htrace

end Batch

variable {L : TrieLibrary} {M : Type} {blake2_256 : Bytes → StateRoot}
  {application : ServiceApplication M} {memory : M} {input : RuntimeRefineInputV1}
  {environment : ExecutionEnvironmentV1} {output : RuntimeRefineOutputV1}

/-- An answered external read comes from the witness of its service. -/
theorem externalLookup_eq_ok {witnesses : List ExternalStateWitnessV1} {serviceId : UInt32}
    {key : Bytes} {value : Option Bytes}
    (h : (externalLookup L witnesses).lookup serviceId key = .ok value) :
    ∃ witness ∈ witnesses, witness.serviceId = serviceId ∧
      L.get (L.intoMemoryDb witness.managedState.storageProof) witness.managedState.parentRoot key =
        .ok value := by
  unfold externalLookup at h
  dsimp only at h
  cases hfind : witnesses.find? fun witness => decide (witness.serviceId = serviceId) with
  | none =>
    rw [hfind] at h
    cases h
  | some witness =>
    rw [hfind] at h
    have hid := List.find?_some hfind
    exact ⟨witness, List.mem_of_find?_eq_some hfind, of_decide_eq_true hid, mapError_eq_ok.mp h⟩

/-- The dependencies of an output are the roots its external witnesses speak about. -/
theorem mem_outputDependencies
    (h : refineWithEnvironment L blake2_256 application memory input environment = .ok output)
    (dependency : ExternalStateDependencyV1) :
    dependency ∈ output.externalDependencies ↔
      dependency ∈ externalDependencies input.externalState := by
  obtain ⟨transition, hinternal, h⟩ := bind_eq_ok.mp h
  rw [mapError_eq_ok] at h
  obtain ⟨_, batch, _, _, _, htransition⟩ := refineInternal_eq_ok hinternal
  rw [htransition] at h
  obtain ⟨_, _, _, _, hcanonical⟩ := fromDiff_fields h
  exact mem_canonicalizeDependencies hcanonical dependency

/-- The header in the encoding of an output has the dependencies of the output. -/
theorem mem_headerDependencies {refined : Bytes} (h : output.encode = .ok refined) :
    ∃ header, RuntimeRefineOutputV1.decodeTransitionHeader refined = .ok header ∧
      ∀ dependency, dependency ∈ header.externalDependencies ↔
        dependency ∈ output.externalDependencies := by
  obtain ⟨dependencies, hcanonical, hdecode⟩ :=
    RuntimeRefineOutputV1.decodeTransitionHeader_encode h
  exact ⟨_, hdecode, mem_canonicalizeDependencies hcanonical⟩

/-- Every value that an action of a successful refine has read of another service is the value in
the trie of the one root that the input gives for that service. The service with this root is a
dependency of the output and of the header decoded from its encoding, and an accumulation that
accepts the encoding finds this root as the canonical commitment of the service. -/
theorem external_reads_bound {contents : StateRoot → Bytes → Option Bytes}
    (hsound : ∀ witness ∈ input.externalState, ReadSound L contents witness.managedState)
    (h : refineWithEnvironment L blake2_256 application memory input environment = .ok output)
    {trace : ActionTrace}
    (htrace : trace ∈ refineTraces L blake2_256 application memory input environment)
    {serviceId : UInt32} {key : Bytes} {value : Option Bytes}
    (hread : ⟨.externalGet serviceId key, .ok value⟩ ∈ trace.events) :
    ∃ root,
      (∃ witness ∈ input.externalState, witness.serviceId = serviceId) ∧
      (∀ witness ∈ input.externalState, witness.serviceId = serviceId →
        witness.managedState.parentRoot = root) ∧
      value = contents root key ∧
      ⟨serviceId, root⟩ ∈ output.externalDependencies ∧
      ∀ refined, output.encode = .ok refined →
        (∃ header, RuntimeRefineOutputV1.decodeTransitionHeader refined = .ok header ∧
          ⟨serviceId, root⟩ ∈ header.externalDependencies) ∧
        ∀ host : AccumulateHost, host.Accepts refined → host.Commits serviceId root := by
  obtain ⟨transition, hinternal, _⟩ := bind_eq_ok.mp h
  obtain ⟨⟨opened, hopen⟩, _⟩ := refineInternal_eq_ok hinternal
  rw [refineTraces_eq hopen] at htrace
  have hanswer : Except.ok value = (externalLookup L input.externalState).lookup serviceId key :=
    actionTraces_answeredBy _ _ trace htrace _ hread
  obtain ⟨witness, hwitness, hservice, hget⟩ := externalLookup_eq_ok hanswer.symm
  have hunique : ∀ other ∈ input.externalState, other.serviceId = serviceId →
      other.managedState.parentRoot = witness.managedState.parentRoot := by
    intro other hother hid
    have heq := List.inj_on_of_nodup_map (openBatch_related hopen).1 hother hwitness
      (hid.trans hservice.symm)
    rw [heq]
  have hdependency : ⟨serviceId, witness.managedState.parentRoot⟩ ∈
    output.externalDependencies := by
    rw [mem_outputDependencies h]
    exact List.mem_map.mpr ⟨witness, hwitness, by rw [hservice]⟩
  refine ⟨witness.managedState.parentRoot, ⟨witness, hwitness, hservice⟩, hunique,
    hsound witness hwitness key value hget, hdependency, fun refined hencode => ?_⟩
  obtain ⟨header, hdecode, hmem⟩ := mem_headerDependencies hencode
  refine ⟨⟨header, hdecode, (hmem _).mpr hdependency⟩, fun host haccepts => ?_⟩
  obtain ⟨_, _, _, _, _, header', _, _, hdecode', _, _, hcommits⟩ := haccepts
  obtain rfl : header = header' := Except.ok.inj (hdecode.symm.trans hdecode')
  exact hcommits _ ((hmem _).mpr hdependency)

/-! ### A read of service 9

The input carries a witness for the trie that maps `storeKey` to `[7]`, and the action reads it.
-/

def readForeignKey : ServiceApplication Unit := fun _ => do
  let _ ← Fallible.ask (.externalGet 9 storeKey) id
  pure ()

def foreignHash : Bytes → StateRoot :=
  tableHash [([7], storeActionHash), (leafNode storeKey [7], storedRoot),
    ([1, 5, 0, 0, 0, 1, 0, 0, 0, 0], unchangedCommitment)]

def foreignInput : RuntimeRefineInputV1 :=
  { storeInput [[7]] with
    externalState := [⟨9, ⟨1, storedRoot, ⟨1, [storeKey]⟩, [leafNode storeKey [7]]⟩⟩] }

def foreignOutput : RuntimeRefineOutputV1 where
  version := 1
  parentRoot := emptyStateRootV1
  newRoot := emptyStateRootV1
  externalDependencies := [⟨9, storedRoot⟩]
  transitionValidUntil := none
  receipts := [⟨storeActionHash, .applied, none⟩]
  recoveryCommitment := unchangedCommitment
  recoveryPayload := [1, 5, 0, 0, 0, 1, 0, 0, 0, 0]

/-- The maps of the empty root and of `storedRoot`. -/
def foreignContents (root : StateRoot) (key : Bytes) : Option Bytes :=
  if root = storedRoot ∧ storeKey = key then some [7] else none

theorem foreignInput_readSound : ∀ witness ∈ foreignInput.externalState,
    ReadSound (leafTrie foreignHash) foreignContents witness.managedState := by
  intro witness hwitness key value hget
  obtain rfl := List.mem_singleton.mp hwitness
  have hopen : openLeaf foreignHash [leafNode storeKey [7]] storedRoot =
      .ok (some (storeKey, [7])) := by decide +kernel
  change (openLeaf foreignHash [leafNode storeKey [7]] storedRoot >>= _) = _ at hget
  rw [hopen] at hget
  change (Except.ok (if storeKey = key then some [7] else none) : Except Unit _) = _ at hget
  rw [← Except.ok.inj hget]
  simp [foreignContents]

/-- What the action has read is bound to the root of service 9. -/
theorem external_reads_bound_foreign :
    some [7] = foreignContents storedRoot storeKey ∧
      ⟨9, storedRoot⟩ ∈ foreignOutput.externalDependencies := by
  have hrefine : refineWithEnvironment (leafTrie foreignHash) foreignHash readForeignKey ()
      foreignInput zeroEnvironment = .ok foreignOutput := by decide +kernel
  have htraces : (refineTraces (leafTrie foreignHash) foreignHash readForeignKey () foreignInput
      zeroEnvironment) = [⟨[7], .ok (), [⟨.externalGet 9 storeKey, .ok (some [7])⟩]⟩] := by
    rfl
  obtain ⟨root, -, hroot, hvalue, hdependency, -⟩ :=
    external_reads_bound foreignInput_readSound hrefine
      (by rw [htraces]; exact List.mem_singleton_self _) (List.mem_singleton_self _)
  obtain rfl : storedRoot = root := hroot _ (List.mem_singleton_self _) rfl
  exact ⟨hvalue, hdependency⟩

end JamScript
