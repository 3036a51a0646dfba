import JamScript.Common.Program
import JamScript.Core.Records
import JamScript.Auth.Ownership

/-!
# The execution context of an application

An application sees its service only through `ExecutionContext`: the managed state with its nested
transactions, read-only views of other services, a state view over the planned keys, and the
identity and validity data of the current action. The context is generic over the two trait objects
it borrows, `ManagedStateAccess` and `ExternalStateAccess`.

An application is therefore a program over the signature of context operations, with a private
memory for the guest's own statics. `ExecutionContext.handle` gives the operations their meaning,
and `handle_simulates` lifts a simulation between two pairs of trait objects to the whole context.
-/

namespace JamScript

open Codec Effects

/-! ## Inputs -/

/-- The keys that an action may touch. -/
structure StateAccessPlanV1 where
  version : UInt8
  keys : List Bytes
  deriving DecidableEq

/-- A part of a state, with the proof that it is one. -/
structure ManagedStateWitnessV1 where
  version : UInt8
  parentRoot : StateRoot
  accessPlan : StateAccessPlanV1
  storageProof : List Bytes
  deriving DecidableEq

/-- A witness of another service. -/
structure ExternalStateWitnessV1 where
  serviceId : UInt32
  managedState : ManagedStateWitnessV1
  deriving DecidableEq

/-- What refine is given. -/
structure RuntimeRefineInputV1 where
  version : UInt8
  managedState : ManagedStateWitnessV1
  externalState : List ExternalStateWitnessV1
  actions : List Bytes
  deriving DecidableEq

def managedStateWitnessVersion : UInt8 := 1
def runtimeRefineInputVersion : UInt8 := 1

/-- Values supplied by the execution host for one invocation. -/
structure ExecutionEnvironmentV1 where
  networkDomain : FixedBytes 32
  deriving DecidableEq

/-! ## State access -/

/-- Why an action ends early. -/
inductive StateAccessError where
  | missingWitness
  | invalidProof
  | backend
  | reservedKey
  | needState (key : Bytes)
  | needExternalState (serviceId : UInt32) (key : Bytes)
  | rejected (code : UInt32)
  | applicationFailed (code : UInt32)
  deriving DecidableEq, Repr

/-- A method that may fail and may change its receiver either way. -/
abbrev Method (σ α : Type) := σ → Except StateAccessError α × σ

/-- The managed state of the executing service. -/
class ManagedStateAccess (σ : Type) where
  get : Bytes → Method σ (Option Bytes)
  set : Bytes → Bytes → Method σ Unit
  delete : Bytes → Method σ Unit
  beginTransaction : Method σ Unit := fun s => (.error .backend, s)
  commitTransaction : Method σ Unit := fun s => (.error .backend, s)
  rollbackTransaction : Method σ Unit := fun s => (.error .backend, s)

/-- The read-only views of other services. -/
class ExternalStateAccess (ε : Type) where
  externalGet : UInt32 → Bytes → Method ε (Option Bytes)

/-- What an action works on. -/
structure ExecutionContext (σ ε : Type) where
  state : σ
  accessPlan : Option StateAccessPlanV1
  externalState : Option ε
  sender : Option (FixedBytes 32)
  owner : Option Ownership
  controller : Option Ownership
  environment : ExecutionEnvironmentV1
  transitionValidUntil : Option UInt64

/-! ## Operations -/

/-- What an action may do. -/
inductive ContextOp where
  | get (key : Bytes)
  | set (key value : Bytes)
  | delete (key : Bytes)
  | beginTransaction
  | commitTransaction
  | rollbackTransaction
  | externalGet (serviceId : UInt32) (key : Bytes)
  | stateView
  | sender
  | networkDomain
  | setOwnership (owner controller : Ownership)
  | owner
  | controller
  | constrainValidUntil (validUntil : UInt64)
  | transitionValidUntil
  deriving DecidableEq

/-- What each operation returns to the application. -/
@[reducible]
def ContextOp.Answer : ContextOp → Type
  | .get _ | .externalGet _ _ => Except StateAccessError (Option Bytes)
  | .set _ _ | .delete _ => Except StateAccessError Unit
  | .beginTransaction | .commitTransaction | .rollbackTransaction => Except StateAccessError Unit
  | .stateView => Except StateAccessError StateViewV1
  | .sender => Option (FixedBytes 32)
  | .networkDomain => FixedBytes 32
  | .setOwnership _ _ | .constrainValidUntil _ => Unit
  | .owner | .controller => Option Ownership
  | .transitionValidUntil => Option UInt64

/-- The interface of `ExecutionContext`. -/
@[reducible]
def contextSignature : Signature := ⟨ContextOp, ContextOp.Answer⟩

/-- `ServiceApplication::execute`, the application's error already converted. -/
abbrev ServiceApplication (M : Type) := Bytes → Fallible contextSignature StateAccessError M Unit

/-- The program of an action from some point on. -/
abbrev ActionProgram (M : Type) := Program contextSignature (Except StateAccessError Unit × M)

/-- The error an operation was answered with. -/
def eventError : Event contextSignature → Option StateAccessError
  | ⟨.get _, .error e⟩ | ⟨.externalGet _ _, .error e⟩ => some e
  | ⟨.set _ _, .error e⟩ | ⟨.delete _, .error e⟩ => some e
  | ⟨.beginTransaction, .error e⟩ | ⟨.commitTransaction, .error e⟩
  | ⟨.rollbackTransaction, .error e⟩ => some e
  | ⟨.stateView, .error e⟩ => some e
  | _ => none

/-- `constrain_valid_until`: keep the smaller limit. -/
def constrainLimit (current : Option UInt64) (validUntil : UInt64) : Option UInt64 :=
  match current with
  | none => some validUntil
  | some current => some (min current validUntil)

section Handler

variable {σ ε : Type} [ManagedStateAccess σ] [ExternalStateAccess ε]

/-- The loop of `state_view`: read every planned key of the application class. -/
def readViewEntries : List Bytes → Method σ (List StateViewEntryV1)
  | [], s => (.ok [], s)
  | key :: keys, s =>
    if key.head? = some applicationKeyClassV1 then
      match ManagedStateAccess.get key s with
      | (.error e, s) => (.error e, s)
      | (.ok value, s) =>
        match readViewEntries keys s with
        | (.error e, s) => (.error e, s)
        | (.ok entries, s) => (.ok (⟨key, value⟩ :: entries), s)
    else readViewEntries keys s

/-- The keys of the plan and their values, without those of the runtime. -/
def readStateView (plan : Option StateAccessPlanV1) : Method σ StateViewV1 := fun s =>
  match plan with
  | none => (.error .backend, s)
  | some plan =>
    match readViewEntries plan.keys s with
    | (.error e, s) => (.error e, s)
    | (.ok entries, s) => ((StateViewV1.fromEntries entries).mapError fun _ => .backend, s)

/-- Without a view of other services every read fails. -/
def readExternal (serviceId : UInt32) (key : Bytes) : Method (Option ε) (Option Bytes) := fun ext =>
  match ext with
  | none => (.error .backend, none)
  | some ext => Prod.map id some (ExternalStateAccess.externalGet serviceId key ext)

/-- Apply a method of the managed state inside the context. -/
def ExecutionContext.onState {α : Type} (method : Method σ α) (context : ExecutionContext σ ε) :
    Except StateAccessError α × ExecutionContext σ ε :=
  ((method context.state).1, { context with state := (method context.state).2 })

/-- The methods of `ExecutionContext`. -/
def ExecutionContext.handle : Handler contextSignature (ExecutionContext σ ε)
  | .get key, context => context.onState (ManagedStateAccess.get key)
  | .set key value, context => context.onState (ManagedStateAccess.set key value)
  | .delete key, context => context.onState (ManagedStateAccess.delete key)
  | .beginTransaction, context => context.onState ManagedStateAccess.beginTransaction
  | .commitTransaction, context => context.onState ManagedStateAccess.commitTransaction
  | .rollbackTransaction, context => context.onState ManagedStateAccess.rollbackTransaction
  | .externalGet serviceId key, context =>
    ((readExternal serviceId key context.externalState).1,
      { context with externalState := (readExternal serviceId key context.externalState).2 })
  | .stateView, context => context.onState (readStateView context.accessPlan)
  | .sender, context => (context.sender, context)
  | .networkDomain, context => (context.environment.networkDomain, context)
  | .setOwnership owner controller, context =>
    ((), { context with owner := some owner, controller := some controller })
  | .owner, context => (context.owner, context)
  | .controller, context => (context.controller, context)
  | .constrainValidUntil validUntil, context =>
    ((), { context with
      transitionValidUntil := constrainLimit context.transitionValidUntil validUntil })
  | .transitionValidUntil, context => (context.transitionValidUntil, context)

/-- `with_access_plan_and_external_state`. -/
def ExecutionContext.withAccessPlanAndExternalState (state : σ) (sender : Option (FixedBytes 32))
    (accessPlan : StateAccessPlanV1) (externalState : ε) (environment : ExecutionEnvironmentV1) :
    ExecutionContext σ ε :=
  { state
    accessPlan := some accessPlan
    externalState := some externalState
    sender
    owner := none
    controller := none
    environment
    transitionValidUntil := none }

/-- Building a view does to the state what single reads do. -/
theorem readViewEntries_preserves {I : σ → Prop}
    (hget : ∀ key s, I s → I (ManagedStateAccess.get key s).2) (keys : List Bytes)
    {s : σ} (hs : I s) :
    I (readViewEntries keys s).2 := by
  induction keys generalizing s with
  | nil => exact hs
  | cons key keys ih =>
    unfold readViewEntries
    split
    case isFalse => exact ih hs
    case isTrue =>
      have hnext := hget key s hs
      generalize ManagedStateAccess.get key s = read at hnext ⊢
      obtain ⟨answer, s'⟩ := read
      cases answer with
      | error e => exact hnext
      | ok value =>
        have hrest := ih hnext
        dsimp only
        generalize readViewEntries keys s' = rest at hrest ⊢
        obtain ⟨entries, s''⟩ := rest
        cases entries <;> exact hrest

theorem readStateView_preserves {I : σ → Prop}
    (hget : ∀ key s, I s → I (ManagedStateAccess.get key s).2)
    (plan : Option StateAccessPlanV1) {s : σ} (hs : I s) : I (readStateView plan s).2 := by
  cases plan with
  | none => exact hs
  | some plan =>
    have hread := readViewEntries_preserves hget plan.keys hs
    unfold readStateView
    dsimp only
    generalize readViewEntries plan.keys s = read at hread ⊢
    obtain ⟨entries, s'⟩ := read
    cases entries <;> exact hread

end Handler

/-! ## Simulation

Two implementations of the trait objects that answer alike on related states are indistinguishable
for every application.
-/

section Simulation

/-- Two methods that answer alike and stay related. -/
def MethodSimulates {σ τ α : Type} (R : σ → τ → Prop) (m : Method σ α) (n : Method τ α) : Prop :=
  ∀ s t, R s t → (m s).1 = (n t).1 ∧ R (m s).2 (n t).2

/-- `R` is a simulation between two managed states. -/
structure StateSimulation {σ τ : Type} [ManagedStateAccess σ] [ManagedStateAccess τ]
    (R : σ → τ → Prop) : Prop where
  get : ∀ key, MethodSimulates R (ManagedStateAccess.get key) (ManagedStateAccess.get key)
  set : ∀ key value,
    MethodSimulates R (ManagedStateAccess.set key value) (ManagedStateAccess.set key value)
  delete : ∀ key, MethodSimulates R (ManagedStateAccess.delete key) (ManagedStateAccess.delete key)
  beginTransaction :
    MethodSimulates R ManagedStateAccess.beginTransaction ManagedStateAccess.beginTransaction
  commitTransaction :
    MethodSimulates R ManagedStateAccess.commitTransaction ManagedStateAccess.commitTransaction
  rollbackTransaction :
    MethodSimulates R ManagedStateAccess.rollbackTransaction ManagedStateAccess.rollbackTransaction

/-- `Q` is a simulation between two collections of external views. -/
def ExternalSimulation {ε δ : Type} [ExternalStateAccess ε] [ExternalStateAccess δ]
    (Q : ε → δ → Prop) : Prop :=
  ∀ serviceId key, MethodSimulates Q (ExternalStateAccess.externalGet serviceId key)
    (ExternalStateAccess.externalGet serviceId key)

/-- Contexts over related trait objects, alike in everything else. -/
structure ContextRel {σ τ ε δ : Type} (R : σ → τ → Prop) (Q : ε → δ → Prop)
    (c : ExecutionContext σ ε) (d : ExecutionContext τ δ) : Prop where
  state : R c.state d.state
  external : Option.Rel Q c.externalState d.externalState
  accessPlan : c.accessPlan = d.accessPlan
  sender : c.sender = d.sender
  owner : c.owner = d.owner
  controller : c.controller = d.controller
  environment : c.environment = d.environment
  transitionValidUntil : c.transitionValidUntil = d.transitionValidUntil

variable {σ τ ε δ : Type} [ManagedStateAccess σ] [ManagedStateAccess τ] [ExternalStateAccess ε]
  [ExternalStateAccess δ] {R : σ → τ → Prop} {Q : ε → δ → Prop}

/-- Reading the entries of a view keeps the simulation. -/
theorem readViewEntries_simulates (hR : StateSimulation R) (keys : List Bytes) :
    MethodSimulates R (readViewEntries (σ := σ) keys) (readViewEntries (σ := τ) keys) := by
  induction keys with
  | nil => exact fun s t hst => ⟨rfl, hst⟩
  | cons key keys ih =>
    intro s t hst
    unfold readViewEntries
    split
    case isFalse => exact ih s t hst
    case isTrue =>
      obtain ⟨hanswer, hnext⟩ := hR.get key s t hst
      generalize ManagedStateAccess.get key s = read at hanswer hnext ⊢
      generalize ManagedStateAccess.get key t = read' at hanswer hnext ⊢
      obtain ⟨answer, s'⟩ := read
      obtain ⟨answer', t'⟩ := read'
      obtain rfl : answer = answer' := hanswer
      cases answer with
      | error e => exact ⟨rfl, hnext⟩
      | ok value =>
        obtain ⟨hrest, hlast⟩ := ih s' t' hnext
        dsimp only
        generalize readViewEntries keys s' = rest at hrest hlast ⊢
        generalize readViewEntries keys t' = rest' at hrest hlast ⊢
        obtain ⟨entries, s''⟩ := rest
        obtain ⟨entries', t''⟩ := rest'
        obtain rfl : entries = entries' := hrest
        cases entries <;> exact ⟨rfl, hlast⟩

/-- Reading a view keeps the simulation. -/
theorem readStateView_simulates (hR : StateSimulation R) (plan : Option StateAccessPlanV1) :
    MethodSimulates R (readStateView (σ := σ) plan) (readStateView (σ := τ) plan) := by
  intro s t hst
  cases plan with
  | none => exact ⟨rfl, hst⟩
  | some plan =>
    obtain ⟨hentries, hnext⟩ := readViewEntries_simulates hR plan.keys s t hst
    unfold readStateView
    dsimp only
    generalize readViewEntries plan.keys s = read at hentries hnext ⊢
    generalize readViewEntries plan.keys t = read' at hentries hnext ⊢
    obtain ⟨entries, s'⟩ := read
    obtain ⟨entries', t'⟩ := read'
    obtain rfl : entries = entries' := hentries
    cases entries <;> exact ⟨rfl, hnext⟩

/-- Reading another service keeps the simulation. -/
theorem readExternal_simulates (hQ : ExternalSimulation Q) (serviceId : UInt32) (key : Bytes) :
    MethodSimulates (Option.Rel Q) (readExternal serviceId key) (readExternal serviceId key) := by
  rintro _ _ (⟨hst⟩ | _)
  · obtain ⟨hanswer, hnext⟩ := hQ serviceId key _ _ hst
    exact ⟨hanswer, Option.Rel.some hnext⟩
  · exact ⟨rfl, Option.Rel.none⟩

/-- Two methods that answer alike on the given states and leave related ones. -/
def SimulatesAt {σ τ α : Type} (R : σ → τ → Prop) (m : Method σ α) (n : Method τ α)
    (s : σ) (t : τ) :
    Prop := (m s).1 = (n t).1 ∧ R (m s).2 (n t).2

/-- The trait objects of the two contexts treat the operation alike. -/
def ContextOp.Simulates (R : σ → τ → Prop) (Q : ε → δ → Prop) (c : ExecutionContext σ ε)
    (d : ExecutionContext τ δ) : ContextOp → Prop
  | .get key =>
  SimulatesAt R (ManagedStateAccess.get key) (ManagedStateAccess.get key) c.state d.state
  | .set key value => SimulatesAt R (ManagedStateAccess.set key value)
      (ManagedStateAccess.set key value) c.state d.state
  | .delete key => SimulatesAt R (ManagedStateAccess.delete key) (ManagedStateAccess.delete key)
      c.state d.state
  | .beginTransaction => SimulatesAt R ManagedStateAccess.beginTransaction
      ManagedStateAccess.beginTransaction c.state d.state
  | .commitTransaction => SimulatesAt R ManagedStateAccess.commitTransaction
      ManagedStateAccess.commitTransaction c.state d.state
  | .rollbackTransaction => SimulatesAt R ManagedStateAccess.rollbackTransaction
      ManagedStateAccess.rollbackTransaction c.state d.state
  | .externalGet serviceId key => SimulatesAt (Option.Rel Q) (readExternal serviceId key)
      (readExternal serviceId key) c.externalState d.externalState
  | .stateView => SimulatesAt R (readStateView c.accessPlan) (readStateView d.accessPlan) c.state
      d.state
  | _ => True

/-- An operation that the trait objects treat alike is answered alike and keeps the contexts
related: the rest of the context does not depend on the trait objects. -/
theorem ExecutionContext.handle_related {c : ExecutionContext σ ε} {d : ExecutionContext τ δ}
    (h : ContextRel R Q c d) {op : ContextOp} (hop : op.Simulates R Q c d) :
    (ExecutionContext.handle op c).1 = (ExecutionContext.handle op d).1 ∧
      ContextRel R Q (ExecutionContext.handle op c).2 (ExecutionContext.handle op d).2 := by
  cases op with
  | get | set | delete | beginTransaction | commitTransaction | rollbackTransaction | stateView =>
    exact ⟨hop.1, { h with state := hop.2 }⟩
  | externalGet => exact ⟨hop.1, { h with external := hop.2 }⟩
  | sender => exact ⟨h.sender, h⟩
  | networkDomain => exact ⟨congrArg ExecutionEnvironmentV1.networkDomain h.environment, h⟩
  | setOwnership owner controller => exact ⟨rfl, { h with owner := rfl, controller := rfl }⟩
  | owner => exact ⟨h.owner, h⟩
  | controller => exact ⟨h.controller, h⟩
  | constrainValidUntil validUntil =>
    have hlimit : constrainLimit c.transitionValidUntil validUntil
        = constrainLimit d.transitionValidUntil validUntil := by rw [h.transitionValidUntil]
    exact ⟨rfl, { h with transitionValidUntil := hlimit }⟩
  | transitionValidUntil => exact ⟨h.transitionValidUntil, h⟩

/-- The context's operations answer alike on related contexts and keep them related. -/
theorem ExecutionContext.handle_simulates (hR : StateSimulation R) (hQ : ExternalSimulation Q)
    (op : ContextOp) (c : ExecutionContext σ ε) (d : ExecutionContext τ δ)
    (h : ContextRel R Q c d) :
    (ExecutionContext.handle op c).1 = (ExecutionContext.handle op d).1 ∧
      ContextRel R Q (ExecutionContext.handle op c).2 (ExecutionContext.handle op d).2 := by
  refine ExecutionContext.handle_related h ?_
  cases op with
  | get key => exact hR.get key _ _ h.state
  | set key value => exact hR.set key value _ _ h.state
  | delete key => exact hR.delete key _ _ h.state
  | beginTransaction => exact hR.beginTransaction _ _ h.state
  | commitTransaction => exact hR.commitTransaction _ _ h.state
  | rollbackTransaction => exact hR.rollbackTransaction _ _ h.state
  | externalGet serviceId key => exact readExternal_simulates hQ serviceId key _ _ h.external
  | stateView =>
    have hview := readStateView_simulates hR d.accessPlan _ _ h.state
    rw [ContextOp.Simulates, h.accessPlan]
    exact hview
  | sender | networkDomain | setOwnership | owner | controller | constrainValidUntil
    | transitionValidUntil => trivial

end Simulation

end JamScript
