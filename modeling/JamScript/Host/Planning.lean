import JamScript.Guest.Planner

/-!
# Planning on the host

`service-runtime-host` finds the keys of a batch without any trie: it runs the actions on maps of
the values it has fetched so far, and fetches a value whenever an action asks for a key that is not
there. When a run completes, the host asks for a witness of exactly the fetched keys and refines the
batch.

Unlike the guest's planner the host opens a transaction for each action and closes it as refine
does. The two still differ in what the state refuses: the host's state has no reserved keys, accepts
writes inside a transaction only, and does not look whether a rollback has worked.
`host_planning_simulates` says that the planning run is the refine run, operation by operation,
exactly when its actions keep away from these differences; `host_planning_writes_reserved_key` is a
run where they do not.
-/

namespace JamScript

open Codec Effects

/-! ## The host's view of the state -/

/-- Fetched values under pending writes and open transactions. -/
structure PlanningState extends Overlay Bytes (Option Bytes) where
  base : WriteSet Bytes (Option Bytes)

namespace PlanningState

def new (base : WriteSet Bytes (Option Bytes)) : PlanningState := ⟨Overlay.empty, base⟩

/-- `PlanningState::lookup`. -/
def read (key : Bytes) (s : PlanningState) : Except StateAccessError (Option Bytes) :=
  match s.toOverlay.lookup key with
  | some value => .ok value
  | none =>
    match s.base[key]? with
    | some value => .ok value
    | none => .error (.needState key)

/-- The common body of `set` and `delete`: the key must be readable and a transaction must be
open. -/
def write (key : Bytes) (value : Option Bytes) : Method PlanningState Unit := fun s =>
  match s.read key with
  | .error e => (.error e, s)
  | .ok _ =>
    match s.transactions with
    | [] => (.error .backend, s)
    | _ :: _ => (.ok (), ⟨s.toOverlay.insert key value, s.base⟩)

/-- Close the innermost transaction with an overlay operation. -/
def close (operation : Overlay Bytes (Option Bytes) → Option (Overlay Bytes (Option Bytes))) :
    Method PlanningState Unit := fun s =>
  match operation s.toOverlay with
  | none => (.error .backend, s)
  | some overlay => (.ok (), ⟨overlay, s.base⟩)

instance : ManagedStateAccess PlanningState where
  get key s := (s.read key, s)
  set key value := write key (some value)
  delete key := write key none
  beginTransaction s := (.ok (), ⟨s.toOverlay.begin, s.base⟩)
  commitTransaction := close Overlay.commit
  rollbackTransaction := close Overlay.rollback

end PlanningState

/-- Fetched values of other services. -/
structure PlanningExternalState where
  values : Std.ExtTreeMap UInt32 (WriteSet Bytes (Option Bytes))

instance : ExternalStateAccess PlanningExternalState where
  externalGet serviceId key ext :=
    (match ext.values[serviceId]? with
      | none => .error .backend
      | some values =>
        match values[key]? with
        | some value => .ok value
        | none => .error (.needState key), ext)

/-! ## The planning loop -/

inductive PlanningOutcome where
  | complete
  | needState (key : Bytes)
  deriving DecidableEq, Repr

section Loop

variable {σ ε M : Type} [ManagedStateAccess σ] [ExternalStateAccess ε]

/-- The planning run with a transaction opened for the next action. -/
def Planning.opened (planning : Planning σ ε M) : Planning σ ε M :=
  { planning with state := (ManagedStateAccess.beginTransaction planning.state).2 }

/-- One iteration of the loop of `planning_execute`. An error is the early return of the
function. -/
def planningAction (setup : PlanSetup M) (planning : Planning σ ε M) (action : Bytes) :
    Except (Except StateAccessError PlanningOutcome) (Planning σ ε M) :=
  match (ManagedStateAccess.beginTransaction planning.state).1 with
  | .error e => .error (.error e)
  | .ok _ =>
    let ((result, memory), context) := planning.opened.execute setup action
    let commit : Except (Except StateAccessError PlanningOutcome) (Planning σ ε M) :=
      match ManagedStateAccess.commitTransaction context.state with
      | (.ok _, state) => .ok ⟨state, context.externalState, memory⟩
      | (.error e, _) => .error (.error e)
    -- the outcome of a rollback is ignored
    let rollback : Planning σ ε M :=
      ⟨(ManagedStateAccess.rollbackTransaction context.state).2, context.externalState, memory⟩
    match result with
    | .ok () => commit
    | .error (.needState key) => .error (.ok (.needState key))
    | .error (.applicationFailed code) => if code &&& fatalBit = 0 then commit else .ok rollback
    | .error _ => .ok rollback

def planningExecute (setup : PlanSetup M) (planning : Planning σ ε M) (actions : List Bytes) :
    Except StateAccessError PlanningOutcome :=
  match actions.foldlM (planningAction setup) planning with
  | .ok _ => .ok .complete
  | .error outcome => outcome

/-- What an action did in a planning run. -/
def Planning.trace (setup : PlanSetup M) (planning : Planning σ ε M) (action : Bytes) :
    ActionTrace where
  action
  result := (planning.opened.execute setup action).1.1
  events := Fallible.history ExecutionContext.handle (setup.application action) planning.memory
    (planning.opened.context setup)

/-- The traces of the actions of a planning run, up to the one that ends it. -/
def hostTraces (setup : PlanSetup M) : Planning σ ε M → List Bytes → List ActionTrace
  | _, [] => []
  | planning, action :: actions =>
    planning.trace setup action ::
      match planningAction setup planning action with
      | .error _ => []
      | .ok next => hostTraces setup next actions

/-- The points of a planning run at which its actions start, up to the one that ends it. -/
def hostPoints (setup : PlanSetup M) : Planning σ ε M → List Bytes → List (Planning σ ε M × Bytes)
  | _, [] => []
  | planning, action :: actions =>
    (planning, action) ::
      match planningAction setup planning action with
      | .error _ => []
      | .ok next => hostPoints setup next actions

/-- The overlays the actions of a planning run leave. -/
def hostOverlays (setup : PlanSetup M) :
    Planning PlanningState ε M → List Bytes → List (Overlay Bytes (Option Bytes))
  | _, [] => []
  | planning, action :: actions =>
    match planningAction setup planning action with
    | .error _ => []
    | .ok next => next.state.toOverlay :: hostOverlays setup next actions

/-- The overlays the actions of a batch leave. -/
def actionOverlays (overlay : σ → Overlay Bytes (Option Bytes)) (setup : BatchSetup M) :
    Batch σ ε M → List Bytes → List (Overlay Bytes (Option Bytes))
  | _, [] => []
  | batch, action :: actions =>
    match refineAction setup batch action with
    | .error _ => []
    | .ok next => overlay next.state :: actionOverlays overlay setup next actions

/-- The overlays the actions of a refine call leave. -/
def refineOverlays (L : TrieLibrary) (blake2_256 : Bytes → StateRoot)
    (application : ServiceApplication M) (memory : M) (input : RuntimeRefineInputV1)
    (environment : ExecutionEnvironmentV1) : List (Overlay Bytes (Option Bytes)) :=
  match openBatch L memory input with
  | .error _ => []
  | .ok batch =>
    actionOverlays (fun state : ProofState L => state.toOverlay)
      ⟨blake2_256, application, input.managedState.accessPlan, environment⟩ batch input.actions

end Loop

/-- Related batches leave the same overlays. -/
theorem actionOverlays_simulates {σ τ ε δ M : Type} [ManagedStateAccess σ] [ManagedStateAccess τ]
    [ExternalStateAccess ε] [ExternalStateAccess δ] {R : σ → τ → Prop} {Q : ε → δ → Prop}
    (hR : StateSimulation R) (hQ : ExternalSimulation Q) {left : σ → Overlay Bytes (Option Bytes)}
    {right : τ → Overlay Bytes (Option Bytes)} (hsame : ∀ s t, R s t → left s = right t)
    (setup : BatchSetup M) (actions : List Bytes) {b : Batch σ ε M} {c : Batch τ δ M}
    (h : BatchRel R Q b c) :
    actionOverlays left setup b actions = actionOverlays right setup c actions := by
  induction actions generalizing b c with
  | nil => rfl
  | cons action actions ih =>
    have hstep := refineAction_simulates hR hQ setup action b c h
    rw [actionOverlays, actionOverlays]
    generalize refineAction setup b action = next at hstep ⊢
    generalize refineAction setup c action = next' at hstep ⊢
    cases hstep with
    | error e => rfl
    | ok hnext => exact congrArg₂ List.cons (hsame _ _ hnext.state) (ih hnext)

/-! ## One action on the host and under refine -/

section Compare

variable {M : Type} {known : WriteSet Bytes (Option Bytes)}

/-- A write that the host and refine treat alike: the key is not one of the runtime, and a
transaction is open. -/
def WritesAlike : Event contextSignature → Prop
  | ⟨.set key _, answer⟩ | ⟨.delete key, answer⟩ =>
    isReservedServiceStorageKey key = false ∧ answer ≠ .error .backend
  | _ => True

instance (event : Event contextSignature) : Decidable (WritesAlike event) := by
  obtain ⟨op, answer⟩ := event
  cases op <;> unfold WritesAlike <;> infer_instance

/-- The same overlay over values that the base of the right state confirms. -/
structure HostState (known : WriteSet Bytes (Option Bytes)) (s : PlanningState) (t : OverlayState) :
    Prop where
  overlay : s.toOverlay = t.toOverlay
  base : s.base = known
  values : ∀ key value, known[key]? = some value → t.base key = .ok value
  answers : ∀ key, t.base key ≠ .error .backend

/-- The views know the same services, and the right ones confirm the values of the left ones. -/
def HostViews (ext : PlanningExternalState) (view : ExternalView) : Prop :=
  ∀ serviceId, match ext.values[serviceId]? with
    | none => ∀ key, view.lookup serviceId key = .error .backend
    | some values => ∀ key value, values[key]? = some value → view.lookup serviceId key = .ok value

theorem HostState.read {s : PlanningState} {t : OverlayState}
    (h : HostState known s t) {key : Bytes} (hknown : s.read key ≠ .error (.needState key)) :
    s.read key = t.get key := by
  unfold PlanningState.read at hknown ⊢
  unfold OverlayState.get
  rw [h.overlay, h.base] at hknown ⊢
  cases hlookup : t.lookup key with
  | some value => rfl
  | none =>
    rw [hlookup] at hknown
    dsimp only at hknown ⊢
    cases hvalue : known[key]? with
    | some value => exact (h.values key value hvalue).symm
    | none =>
      rw [hvalue] at hknown
      exact absurd rfl hknown

theorem HostState.write {s : PlanningState} {t : OverlayState}
    (h : HostState known s t) {key : Bytes} {value : Option Bytes}
    (hknown : (s.write key value).1 ≠ .error (.needState key))
    (halike : isReservedServiceStorageKey key = false ∧ (s.write key value).1 ≠ .error .backend) :
    (s.write key value).1 = (t.write key value).1 ∧
      HostState known (s.write key value).2 (t.write key value).2 := by
  have hread : s.read key = t.get key := h.read fun hneed =>
    hknown (by unfold PlanningState.write; rw [hneed])
  obtain ⟨hreserved, hopen⟩ := halike
  unfold PlanningState.write at hopen ⊢
  unfold OverlayState.write
  rw [hread, h.overlay] at hopen ⊢
  rw [hreserved]
  simp only [Bool.false_eq_true, if_false]
  cases hget : t.get key with
  | error e => exact ⟨rfl, h⟩
  | ok old =>
    cases htransactions : t.transactions with
    | nil =>
      rw [hget, htransactions] at hopen
      exact absurd rfl hopen
    | cons top rest => exact ⟨rfl, rfl, h.base, h.values, h.answers⟩

theorem HostState.close {s : PlanningState} {t : OverlayState} (h : HostState known s t)
    (operation : Overlay Bytes (Option Bytes) → Option (Overlay Bytes (Option Bytes))) :
    (PlanningState.close operation s).1 = (OverlayState.close operation t).1 ∧
      HostState known (PlanningState.close operation s).2 (OverlayState.close operation t).2 := by
  unfold PlanningState.close OverlayState.close
  rw [h.overlay]
  cases operation t.toOverlay with
  | none => exact ⟨rfl, h⟩
  | some overlay => exact ⟨rfl, rfl, h.base, h.values, h.answers⟩

/-- An action as the host and as refine see it. -/
structure HostContext (known : WriteSet Bytes (Option Bytes))
    (c : ExecutionContext PlanningState PlanningExternalState)
    (d : ExecutionContext OverlayState ExternalView) : Prop where
  related : ContextRel (HostState known) HostViews c d
  inPlan : ∀ plan, d.accessPlan = some plan → ∀ key ∈ plan.keys, ∃ value, known[key]? = some value

variable {c : ExecutionContext PlanningState PlanningExternalState}
  {d : ExecutionContext OverlayState ExternalView}

/-- One operation that asks for nothing, and is no write that they treat differently, is answered
alike and leaves both sides alike. -/
theorem handle_host (h : HostContext known c d) {op : ContextOp}
    (hneed : ∀ key, stateError ⟨op, (ExecutionContext.handle op c).1⟩ ≠ some (.needState key))
    (halike : WritesAlike ⟨op, (ExecutionContext.handle op c).1⟩) :
    (ExecutionContext.handle op c).1 = (ExecutionContext.handle op d).1 ∧
      HostContext known (ExecutionContext.handle op c).2 (ExecutionContext.handle op d).2 := by
  have hstate := h.related.state
  have hop : op.Simulates (HostState known) HostViews c d := by
    cases op with
    | get key =>
      refine ⟨hstate.read fun hread => hneed key ?_, hstate⟩
      change stateError ⟨.get key, c.state.read key⟩ = _
      rw [hread]
      rfl
    | set key value =>
      refine hstate.write (fun hwrite => hneed key ?_) halike
      change stateError ⟨.set key value, (c.state.write key (some value)).1⟩ = _
      rw [hwrite]
      rfl
    | delete key =>
      refine hstate.write (fun hwrite => hneed key ?_) halike
      change stateError ⟨.delete key, (c.state.write key none).1⟩ = _
      rw [hwrite]
      rfl
    | beginTransaction =>
      exact ⟨rfl, congrArg Overlay.begin hstate.overlay, hstate.base, hstate.values, hstate.answers⟩
    | commitTransaction => exact hstate.close Overlay.commit
    | rollbackTransaction => exact hstate.close Overlay.rollback
    | externalGet serviceId key =>
      have hexternal := h.related.external
      have hanswer : ∀ ext, c.externalState = some ext →
          (ExecutionContext.handle (.externalGet serviceId key) c).1 =
            (ExternalStateAccess.externalGet serviceId key ext).1 := by
        intro ext hext
        change (readExternal serviceId key c.externalState).1 = _
        rw [hext]
        rfl
      unfold ContextOp.Simulates SimulatesAt readExternal
      generalize hleft : c.externalState = left at hexternal ⊢
      generalize d.externalState = right at hexternal ⊢
      cases hexternal with
      | none => exact ⟨rfl, .none⟩
      | @some ext view hviews =>
        have hneed' := hneed key
        rw [hanswer ext hleft] at hneed'
        refine ⟨?_, .some hviews⟩
        have hservice := hviews serviceId
        simp only [ExternalStateAccess.externalGet, Prod.map_fst, id] at hneed' ⊢
        cases hvalues : ext.values[serviceId]? with
        | none =>
          rw [hvalues] at hservice
          exact (hservice key).symm
        | some values =>
          rw [hvalues] at hservice hneed'
          dsimp only at hneed' ⊢
          cases hvalue : values[key]? with
          | some value => exact (hservice key value hvalue).symm
          | none =>
            rw [hvalue] at hneed'
            exact absurd rfl hneed'
    | stateView =>
      have hget : ∀ plan, d.accessPlan = some plan → ∀ key ∈ plan.keys,
          key.head? = some applicationKeyClassV1 →
            ManagedStateAccess.get key c.state = (d.state.get key, c.state) := by
        intro plan hplan key hkey _
        obtain ⟨value, hvalue⟩ := h.inPlan plan hplan key hkey
        refine Prod.ext (hstate.read fun hread => ?_) rfl
        unfold PlanningState.read at hread
        rw [hstate.base, hvalue] at hread
        split at hread <;> cases hread
      rw [ContextOp.Simulates, h.related.accessPlan, SimulatesAt, readStateView_congr _ hget,
        readStateView_state]
      exact ⟨rfl, hstate⟩
    | sender | networkDomain | setOwnership | owner | controller | constrainValidUntil
      | transitionValidUntil => trivial
  obtain ⟨hanswer, hrelated⟩ := ExecutionContext.handle_related h.related hop
  refine ⟨hanswer, hrelated, ?_⟩
  have hplan : (ExecutionContext.handle op d).2.accessPlan = d.accessPlan := by cases op <;> rfl
  rw [hplan]
  exact h.inPlan

/-- What is left of an action asks for nothing and makes no write that the two treat differently. -/
structure HostRun (program : ActionProgram M)
    (c : ExecutionContext PlanningState PlanningExternalState) : Prop where
  needs : ∀ e ∈ Program.trace ExecutionContext.handle program c, ∀ key,
    stateError e ≠ some (.needState key)
  alike : ∀ e ∈ Program.trace ExecutionContext.handle program c, WritesAlike e

/-- No write is answered with a reserved key on the host. -/
theorem hostWrite_ne_reservedKey (s : PlanningState) (key : Bytes) (value : Option Bytes) :
    (s.write key value).1 ≠ .error .reservedKey := by
  unfold PlanningState.write PlanningState.read
  cases s.toOverlay.lookup key with
  | some old => cases s.transactions <;> exact nofun
  | none =>
    cases s.base[key]? with
    | some old => cases s.transactions <;> exact nofun
    | none => exact nofun

/-- Under refine a write to a key of the runtime is refused, and none is answered with a backend
error while the base is not. -/
theorem refineWrite_answer {s : OverlayState} (h : ∀ key, s.base key ≠ .error .backend)
    (key : Bytes) (value : Option Bytes) :
    (isReservedServiceStorageKey key = true → (s.write key value).1 = .error .reservedKey) ∧
      (s.write key value).1 ≠ .error .backend := by
  unfold OverlayState.write OverlayState.get
  split
  · refine ⟨fun _ => rfl, ?_⟩
    rintro ⟨⟩
  case isFalse hreserved =>
    refine ⟨fun h => absurd h hreserved, ?_⟩
    cases s.lookup key with
    | some old => rintro ⟨⟩
    | none =>
      dsimp only
      cases hbase : s.base key with
      | error e =>
        rintro ⟨⟩
        exact h key hbase
      | ok old => rintro ⟨⟩

/-- A write with the same answer on both sides is one that they treat alike. -/
theorem alike_of_answer {s : PlanningState} {t : OverlayState}
    (h : ∀ key, t.base key ≠ .error .backend) {key : Bytes} {value : Option Bytes}
    (hanswer : (s.write key value).1 = (t.write key value).1) :
    isReservedServiceStorageKey key = false ∧ (s.write key value).1 ≠ .error .backend := by
  obtain ⟨hrefused, hbackend⟩ := refineWrite_answer h key value
  rw [← hanswer] at hrefused hbackend
  exact ⟨Bool.eq_false_iff.mpr fun hreserved => hostWrite_ne_reservedKey s key value
    (hrefused hreserved), hbackend⟩

/-- Runs with the same operations and answers make only writes that the two treat alike. -/
theorem writesAlike_of_trace (program : ActionProgram M)
    (hbase : ∀ key, d.state.base key ≠ .error .backend)
    (hsame : program.trace ExecutionContext.handle c = program.trace ExecutionContext.handle d) :
    ∀ e ∈ program.trace ExecutionContext.handle c, WritesAlike e := by
  induction program generalizing c d with
  | pure => exact List.forall_mem_nil _
  | call op k ih =>
    obtain ⟨hhead, htail⟩ := List.cons.inj hsame
    have hanswer : (ExecutionContext.handle op c).1 = (ExecutionContext.handle op d).1 :=
      eq_of_heq (Sigma.mk.inj hhead).2
    rw [← hanswer] at htail
    rw [Program.trace, List.forall_mem_cons]
    refine ⟨?_, ih _ ?_ htail⟩
    · cases op with
      | set key value => exact alike_of_answer hbase hanswer
      | delete key => exact alike_of_answer hbase hanswer
      | get | beginTransaction | commitTransaction | rollbackTransaction | externalGet | stateView
        | sender | networkDomain | setOwnership | owner | controller | constrainValidUntil
        | transitionValidUntil => trivial
    · rw [(handle_base op d).1]
      exact hbase

end Compare

/-! ## Whole batches -/

section Batch

variable {M : Type} {known : WriteSet Bytes (Option Bytes)} {setup : BatchSetup M}
  {p : Planning PlanningState PlanningExternalState M} {b : Batch OverlayState ExternalView M}
  {action : Bytes}

/-- The handler of a planning run on the host. -/
abbrev hostHandler :
    Handler contextSignature (ExecutionContext PlanningState PlanningExternalState) :=
  ExecutionContext.handle

/-- An action of a planning run that refine repeats: it makes no write that the two treat
differently, does not say on its own that state is missing, and leaves a transaction to be
closed. -/
def Planning.Repeatable (setup : PlanSetup M)
    (planning : Planning PlanningState PlanningExternalState M) (action : Bytes) : Prop :=
  (∀ e ∈ (planning.trace setup action).events, WritesAlike e) ∧
    ((planning.trace setup action).result ≠ .error .missingWitness ∧
      (planning.trace setup action).result ≠ .error .invalidProof) ∧
    (planning.opened.execute setup action).2.state.transactions ≠ []

instance (setup : PlanSetup M) (planning : Planning PlanningState PlanningExternalState M)
    (action : Bytes) : Decidable (planning.Repeatable setup action) := by
  unfold Planning.Repeatable
  infer_instance

/-- The planning run on the host and the batch under refine, between two actions. -/
structure HostBatch (known : WriteSet Bytes (Option Bytes))
    (p : Planning PlanningState PlanningExternalState M) (b : Batch OverlayState ExternalView M) :
    Prop where
  state : HostState known p.state b.state
  external : Option.Rel HostViews p.external (some b.external)
  memory : p.memory = b.memory

/-- The two start an action alike. -/
theorem HostBatch.context (h : HostBatch known p b)
    (hplan : ∀ key ∈ setup.accessPlan.keys, ∃ value, known[key]? = some value) :
    HostContext known (p.opened.context setup.planSetup) (b.context setup) := by
  obtain ⟨hoverlay, hbase, hvalues, hanswers⟩ := h.state
  refine ⟨⟨⟨congrArg Overlay.begin hoverlay, hbase, hvalues, hanswers⟩, h.external, rfl,
    rfl, rfl, rfl, rfl, rfl⟩, ?_⟩
  intro plan hsome
  cases hsome
  exact hplan

/-- An action that asks for nothing, and makes only writes that the two treat alike, is the same
run. -/
theorem HostBatch.execute (h : HostBatch known p b)
    (hplan : ∀ key ∈ setup.accessPlan.keys, ∃ value, known[key]? = some value)
    (hneeds : ∀ e ∈ (p.trace setup.planSetup action).events, ∀ key,
      stateError e ≠ some (.needState key))
    (halike : ∀ e ∈ (p.trace setup.planSetup action).events, WritesAlike e) :
    p.trace setup.planSetup action = b.trace setup action ∧
      (p.opened.execute setup.planSetup action).1 = (b.execute setup action).1 ∧
      HostContext known (p.opened.execute setup.planSetup action).2 (b.execute setup action).2 := by
  have hrun := Program.simulates_while (h := hostHandler) (g := ExecutionContext.handle)
    (R := HostContext known) (P := fun program c _ => HostRun program c)
    (fun op k c d hcd hrun => handle_host hcd (hrun.needs _ List.mem_cons_self)
      (hrun.alike _ List.mem_cons_self))
    (fun op k c d _ hrun => ⟨fun e he => hrun.needs e (List.mem_cons_of_mem _ he),
      fun e he => hrun.alike e (List.mem_cons_of_mem _ he)⟩)
    (setup.application action p.memory) (h.context hplan) ⟨hneeds, halike⟩
  rw [h.memory] at hrun
  obtain ⟨⟨houtcome, hend⟩, htrace⟩ := hrun
  have hexecute : p.opened.execute setup.planSetup action = (setup.application action b.memory).run
      hostHandler (p.opened.context setup.planSetup) := by rw [← h.memory]; rfl
  refine ⟨?_, ?_, ?_⟩
  · unfold Planning.trace
    rw [hexecute, h.memory]
    exact congrArg₂ (ActionTrace.mk action) (congrArg Prod.fst houtcome) htrace
  · rw [hexecute]
    exact houtcome
  · rw [hexecute]
    exact hend

/-- The host closes an action's transaction as refine does. -/
theorem planningAction_eq {committed undone : PlanningState}
    (hneeds : ∀ key, (p.opened.execute setup.planSetup action).1.1 ≠ .error (.needState key))
    (hcommit : ManagedStateAccess.commitTransaction
      (p.opened.execute setup.planSetup action).2.state = (.ok (), committed))
    (hrollback : (ManagedStateAccess.rollbackTransaction
      (p.opened.execute setup.planSetup action).2.state).2 = undone) :
    planningAction setup.planSetup p action =
      .ok ⟨if commits (p.opened.execute setup.planSetup action).1.1 then committed else undone,
        (p.opened.execute setup.planSetup action).2.externalState,
        (p.opened.execute setup.planSetup action).1.2⟩ := by
  have hbegin : (ManagedStateAccess.beginTransaction p.state).1 = .ok () := rfl
  unfold planningAction
  rw [hbegin]
  generalize p.opened.execute setup.planSetup action = run at hneeds hcommit hrollback ⊢
  obtain ⟨⟨result, memory⟩, context⟩ := run
  dsimp only at hneeds hcommit hrollback ⊢
  rw [hcommit, hrollback]
  rcases result with e | ⟨⟨⟩⟩
  · cases e with
    | needState key => exact absurd rfl (hneeds key)
    | applicationFailed code =>
      by_cases hfatal : code &&& fatalBit = 0 <;> simp [commits, hfatal]
    | missingWitness | invalidProof | backend | reservedKey | needExternalState | rejected => rfl
  · rfl

/-- After an action that ran alike, does not end the batch and leaves a transaction to be closed,
both sides go on alike. -/
theorem HostBatch.close (hsame : (p.opened.execute setup.planSetup action).1 =
    (b.execute setup action).1) (hend : HostContext known
    (p.opened.execute setup.planSetup action).2 (b.execute setup action).2)
    (habort : abortError (b.execute setup action).1.1 = none)
    (hopen : (p.opened.execute setup.planSetup action).2.state.transactions ≠ []) :
    ∃ p' b', planningAction setup.planSetup p action = .ok p' ∧
      refineAction setup b action = .ok b' ∧
      HostBatch known p' b' := by
  have hneeds : ∀ key, (p.opened.execute setup.planSetup action).1.1 ≠ .error (.needState key) := by
    rintro key hneed
    rw [← hsame, hneed] at habort
    cases habort
  have hexternal : (b.execute setup action).2.externalState = some b.external :=
    (run_base (setup.application action b.memory) (b.context setup)).2
  obtain ⟨hoverlay, hbase, hvalues, hanswers⟩ := hend.related.state
  have hviews := hend.related.external
  obtain ⟨⟨committed, hcommit⟩, ⟨undone, hrollback⟩⟩ := Overlay.exists_close_of_ne_nil hopen
  have hcommitted : ManagedStateAccess.commitTransaction
      (p.opened.execute setup.planSetup action).2.state = (.ok (), ⟨committed, known⟩) := by
    simp only [ManagedStateAccess.commitTransaction, PlanningState.close, hcommit, hbase]
  have hundone : (ManagedStateAccess.rollbackTransaction
      (p.opened.execute setup.planSetup action).2.state).2 = ⟨undone, known⟩ := by
    simp only [ManagedStateAccess.rollbackTransaction, PlanningState.close, hrollback, hbase]
  rw [planningAction_eq hneeds hcommitted hundone, refineAction_eq, habort]
  unfold Batch.advance
  generalize p.opened.execute setup.planSetup action = left at *
  generalize b.execute setup action = right at *
  obtain ⟨⟨result, memory⟩, c⟩ := left
  obtain ⟨⟨result', memory'⟩, d⟩ := right
  obtain ⟨rfl, rfl⟩ := Prod.mk.inj hsame
  dsimp only at *
  rw [hoverlay] at hcommit hrollback
  rw [hexternal] at hviews ⊢
  have hright : closeTransaction ManagedStateAccess.commitTransaction d.state =
        .ok (d.state.withOverlay committed) ∧
      closeTransaction ManagedStateAccess.rollbackTransaction d.state =
        .ok (d.state.withOverlay undone) := by
    simp only [closeTransaction, ManagedStateAccess.commitTransaction,
      ManagedStateAccess.rollbackTransaction, OverlayState.close, hcommit, hrollback, and_self]
  unfold closingMethod
  split
  · rw [hright.1]
    exact ⟨_, _, rfl, rfl, ⟨rfl, rfl, hvalues, hanswers⟩, hviews, rfl⟩
  · rw [hright.2]
    exact ⟨_, _, rfl, rfl, ⟨rfl, rfl, hvalues, hanswers⟩, hviews, rfl⟩

/-- The loop goes on only after actions that ask for nothing. -/
theorem planningAction_result {setup : PlanSetup M}
    {planning next : Planning PlanningState PlanningExternalState M} {action : Bytes}
    (h : planningAction setup planning action = .ok next) (key : Bytes) :
    (planning.trace setup action).result ≠ .error (.needState key) := by
  intro hresult
  change (planning.opened.execute setup action).1.1 = _ at hresult
  unfold planningAction at h
  generalize planning.opened.execute setup action = run at hresult h
  obtain ⟨⟨result, memory⟩, context⟩ := run
  obtain rfl : result = _ := hresult
  cases h

/-- The loop returns early with an error or with a request, never with the word that it is
complete. -/
theorem planningAction_fails (setup : PlanSetup M)
    (planning : Planning PlanningState PlanningExternalState M) (action : Bytes) :
    FailsIn (fun outcome => outcome ≠ .ok .complete) (planningAction setup planning action) := by
  unfold planningAction
  generalize planning.opened.execute setup action = run
  obtain ⟨⟨result, memory⟩, context⟩ := run
  split
  · exact .error nofun
  · dsimp only
    generalize ManagedStateAccess.commitTransaction context.state = committed
    obtain ⟨_ | _, state⟩ := committed
    all_goals
      split
      · first | exact .ok _ | exact .error nofun
      · exact .error nofun
      · split
        · first | exact .ok _ | exact .error nofun
        · exact .ok _
      · exact .ok _

theorem planningExecute_complete {setup : PlanSetup M}
    {planning : Planning PlanningState PlanningExternalState M} {actions : List Bytes}
    (h : planningExecute setup planning actions = .ok .complete) :
    ∃ after, actions.foldlM (planningAction setup) planning = .ok after := by
  have hfails := FailsIn.foldlM (planningAction_fails setup) actions planning
  unfold planningExecute at h
  generalize actions.foldlM (planningAction setup) planning = outcome at h hfails ⊢
  cases outcome with
  | ok after => exact ⟨after, rfl⟩
  | error outcome => exact absurd h (hfails outcome rfl)

/-- Refine goes on only from an action that leaves a transaction to be closed. -/
theorem transactions_ne_nil_of_refineAction {b' : Batch OverlayState ExternalView M}
    (h : refineAction setup b action = .ok b') :
    (b.execute setup action).2.state.transactions ≠ [] := by
  obtain ⟨-, state, hclose, -⟩ := refineAction_eq_ok h
  intro hnil
  obtain ⟨hoverlay, -⟩ := closeTransaction_eq_ok hclose
  unfold Overlay.commit Overlay.rollback at hoverlay
  rw [hnil] at hoverlay
  split at hoverlay <;> cases hoverlay

/-- A complete planning run on the host is the run of the batch under refine exactly when refine
repeats each of its actions. -/
theorem host_runs (setup : BatchSetup M)
    (hplan : ∀ key ∈ setup.accessPlan.keys, ∃ value, known[key]? = some value)
    (hreturns : ∀ action, Fallible.Forwards hostHandler stateError (setup.application action))
    (actions : List Bytes) (h : HostBatch known p b)
    (hcomplete : ∃ after, actions.foldlM (planningAction setup.planSetup) p = .ok after) :
    (actionTraces setup b actions = hostTraces setup.planSetup p actions ∧
        actionOverlays (fun state : OverlayState => state.toOverlay) setup b actions =
          hostOverlays setup.planSetup p actions ∧
        ∃ after, refineActions setup b actions = .ok after) ↔
      ∀ point ∈ hostPoints setup.planSetup p actions, point.1.Repeatable
        setup.planSetup point.2 := by
  induction actions generalizing p b with
  | nil => exact iff_of_true ⟨rfl, rfl, b, rfl⟩ (List.forall_mem_nil _)
  | cons action actions ih =>
    obtain ⟨after, hcomplete⟩ := hcomplete
    rw [List.foldlM_cons] at hcomplete
    obtain ⟨next, hnext, hrest⟩ := bind_eq_ok.mp hcomplete
    -- the action has asked for nothing, or it would have handed the request on
    have hneeds : ∀ e ∈ (p.trace setup.planSetup action).events, ∀ key,
        stateError e ≠ some (.needState key) := fun e he key herror =>
      planningAction_result hnext key (hreturns action _ _ e he _ herror)
    -- as soon as the two run the action alike and refine goes on, it depends on the other actions
    have hstep (halike : ∀ e ∈ (p.trace setup.planSetup action).events, WritesAlike e)
        (habort : abortError (p.trace setup.planSetup action).result = none)
        (hopen : (p.opened.execute setup.planSetup action).2.state.transactions ≠ []) :
        (actionTraces setup b (action :: actions) = hostTraces setup.planSetup p
          (action :: actions) ∧
          actionOverlays (fun state : OverlayState => state.toOverlay) setup b (action :: actions) =
            hostOverlays setup.planSetup p (action :: actions) ∧
          ∃ after, refineActions setup b (action :: actions) = .ok after) ↔
        ∀ point ∈ hostPoints setup.planSetup next actions,
          point.1.Repeatable setup.planSetup point.2 := by
      obtain ⟨htrace, hsame, hend⟩ := h.execute hplan hneeds halike
      have habort' : abortError (b.execute setup action).1.1 = none := by
        rw [← hsame]
        exact habort
      obtain ⟨p', b', hhost, hrefine, hbatch⟩ := HostBatch.close hsame hend habort' hopen
      obtain rfl := Except.ok.inj (hhost.symm.trans hnext)
      rw [← ih hbatch ⟨after, hrest⟩, actionTraces, hostTraces, actionOverlays, hostOverlays, hhost,
        hrefine, htrace, refineActions, List.foldlM_cons, hrefine]
      dsimp only
      rw [hbatch.state.overlay, List.cons.injEq, List.cons.injEq, and_iff_right rfl,
        and_iff_right rfl]
      rfl
    rw [hostPoints, hnext, List.forall_mem_cons]
    constructor
    · rintro ⟨htraces, hoverlays, hloop'⟩
      have hloop := hloop'
      have hhead : b.trace setup action = p.trace setup.planSetup action :=
      (List.cons.inj htraces).1
      have halike : ∀ e ∈ (p.trace setup.planSetup action).events, WritesAlike e := by
        refine writesAlike_of_trace (d := b.context setup) _ h.state.answers ?_
        have hevents := congrArg ActionTrace.events hhead
        rw [h.memory]
        unfold Planning.trace at hevents
        rw [h.memory] at hevents
        exact hevents.symm
      obtain ⟨loopEnd, hloop⟩ := hloop
      unfold refineActions at hloop
      rw [List.foldlM_cons] at hloop
      obtain ⟨b', hstep', -⟩ := bind_eq_ok.mp hloop
      have habort : abortError (p.trace setup.planSetup action).result = none := by
        rw [← hhead]
        exact (refineAction_eq_ok hstep').1
      obtain ⟨-, -, hend⟩ := h.execute hplan hneeds halike
      have hopen : (p.opened.execute setup.planSetup action).2.state.transactions ≠ [] := by
        rw [hend.related.state.overlay]
        exact transactions_ne_nil_of_refineAction hstep'
      refine ⟨⟨halike, ?_, hopen⟩, (hstep halike habort hopen).mp ⟨htraces, hoverlays, hloop'⟩⟩
      constructor <;>
      · intro hresult
        rw [hresult] at habort
        cases habort
    · rintro ⟨⟨halike, hresult, hopen⟩, hlater⟩
      refine (hstep halike ?_ hopen).mpr hlater
      have hasks := planningAction_result hnext
      generalize (p.trace setup.planSetup action).result = result at hasks hresult ⊢
      rcases result with e | _
      · cases e with
        | missingWitness => exact absurd rfl hresult.1
        | invalidProof => exact absurd rfl hresult.2
        | needState key => exact absurd rfl (hasks key)
        | backend | reservedKey | needExternalState | rejected | applicationFailed => rfl
      · rfl

end Batch

section Refine

variable {L : TrieLibrary} {M : Type} {blake2_256 : Bytes → StateRoot}
  {application : ServiceApplication M} {memory : M} {input : RuntimeRefineInputV1}
  {environment : ExecutionEnvironmentV1} {known : WriteSet Bytes (Option Bytes)}
  {ext : PlanningExternalState}

/-- The input carries witnesses for exactly the fetched keys; they open and confirm the fetched
values. -/
structure WitnessesFor (L : TrieLibrary) (known : WriteSet Bytes (Option Bytes))
    (ext : PlanningExternalState) (input : RuntimeRefineInputV1) : Prop where
  keys : ∀ key, key ∈ input.managedState.accessPlan.keys ↔ ∃ value, known[key]? = some value
  values : ∀ key value, known[key]? = some value →
    witnessLookup L input.managedState key = .ok value
  external : HostViews ext (externalLookup L input.externalState)
  opens : (∃ views, ExternalProofStates.fromInput (L := L) input.externalState = .ok views) ∧
    ∃ state, openState L input.managedState = .ok state

/-- Let the application hand on the errors it is answered with and the host's planning run complete.
Refine on witnesses of the fetched keys goes through all actions, with the same operations, answers
and results and leaving the same overlays, exactly when each action of the planning run writes no
reserved key and nothing outside a transaction, does not say on its own that state is missing, and
leaves a transaction to be closed. -/
theorem host_planning_simulates
    (hreturns : ∀ action, Fallible.Forwards hostHandler stateError (application action))
    (hwitness : WitnessesFor L known ext input)
    (hcomplete : planningExecute ⟨application, input.managedState.accessPlan, environment⟩
      ⟨PlanningState.new known, some ext, memory⟩ input.actions = .ok .complete) :
    (refineTraces L blake2_256 application memory input environment =
          hostTraces ⟨application, input.managedState.accessPlan, environment⟩
            ⟨PlanningState.new known, some ext, memory⟩ input.actions ∧
        refineOverlays L blake2_256 application memory input environment =
          hostOverlays ⟨application, input.managedState.accessPlan, environment⟩
            ⟨PlanningState.new known, some ext, memory⟩ input.actions ∧
        ∃ batch after, openBatch L memory input = .ok batch ∧
          refineActions ⟨blake2_256, application, input.managedState.accessPlan, environment⟩ batch
            input.actions = .ok after) ↔
      ∀ point ∈ hostPoints ⟨application, input.managedState.accessPlan, environment⟩
        ⟨PlanningState.new known, some ext, memory⟩ input.actions,
        point.1.Repeatable ⟨application, input.managedState.accessPlan, environment⟩ point.2 := by
  obtain ⟨⟨views, hviews⟩, ⟨state, hstate⟩⟩ := hwitness.opens
  have hopen : openBatch L memory input = .ok ⟨state, views, memory, [], none⟩ := by
    unfold openBatch
    rw [hviews, hstate]
    rfl
  obtain ⟨-, hrelated⟩ := openBatch_related hopen
  let setup : BatchSetup M := ⟨blake2_256, application, input.managedState.accessPlan, environment⟩
  have hstart : HostBatch known ⟨PlanningState.new known, some ext, memory⟩
    (initialBatch L memory input) :=
    ⟨⟨rfl, rfl, hwitness.values, fun key herror => nomatch witnessLookup_misses _ key _ herror⟩,
      .some hwitness.external, rfl⟩
  have hruns := host_runs setup (fun key hkey => (hwitness.keys key).mp hkey) hreturns
    input.actions hstart (planningExecute_complete hcomplete)
  -- the runtime's batch, with its caches, is the one without them
  have hoverlays : refineOverlays L blake2_256 application memory input environment =
      actionOverlays (fun state : OverlayState => state.toOverlay) setup
      (initialBatch L memory input)
        input.actions := by
    unfold refineOverlays
    rw [hopen]
    exact actionOverlays_simulates (ProofState.proofState_simulation _ _)
      ExternalProofStates.externalProofStates_simulation (fun _ _ h => h.overlay) _
      input.actions hrelated
  have hloop := refineActions_simulates (ProofState.proofState_simulation _ _)
    ExternalProofStates.externalProofStates_simulation setup input.actions hrelated
  rw [refineTraces_eq hopen, hoverlays, hopen]
  refine Iff.trans (and_congr_right' (and_congr_right' ⟨?_, ?_⟩)) hruns
  · rintro ⟨batch, after, hbatch, hafter⟩
    cases hbatch
    obtain ⟨after', hafter', -⟩ := hloop.of_ok hafter
    exact ⟨after', hafter'⟩
  · rintro ⟨after, hafter⟩
    obtain ⟨after', hafter', -⟩ := hloop.of_ok_right hafter
    exact ⟨_, after', rfl, hafter'⟩

/-! ### Planning the store on the host

The store of `Guest.Batch` on an empty state: one action is kept and one is rolled back.
-/

/-- A planning run that has fetched one key, absent from the state. -/
def fetched (key : Bytes) : Planning PlanningState PlanningExternalState Unit :=
  ⟨PlanningState.new ((∅ : WriteSet Bytes (Option Bytes)).insert key none), some ⟨∅⟩, ()⟩

theorem storeApplication_forwards (action : Bytes) :
    Fallible.Forwards hostHandler stateError (storeApplication action) := by
  refine .bind (.ask ?_) fun _ => .bind (.tell (fun _ => rfl) _) fun _ => ?_
  · rintro (e | _) _ herror <;> cases herror
    rfl
  · split
    · exact .throw _
    · exact .pure _

theorem store_witnesses : WitnessesFor (leafTrie storeHash)
    ((∅ : WriteSet Bytes (Option Bytes)).insert storeKey none) ⟨∅⟩ (storeInput [[7], [8]]) := by
  have hknown : ∀ key : Bytes, ((∅ : WriteSet Bytes (Option Bytes)).insert storeKey none)[key]? =
      if storeKey = key then some none else none := by
    intro key
    rw [Std.ExtTreeMap.getElem?_insert, Std.ExtTreeMap.getElem?_empty]
    exact if_congr Std.compare_eq_iff_eq rfl rfl
  refine ⟨fun key => ?_, fun key value hvalue => ?_, fun serviceId => ?_,
    ⟨_, rfl⟩, (openState_ok_iff _).mpr ⟨⟨_, rfl⟩, fun key _ => ⟨none, ?_⟩⟩⟩
  · rw [hknown]
    by_cases hkey : storeKey = key
    · rw [if_pos hkey, ← hkey]
      exact ⟨fun _ => ⟨none, rfl⟩, fun _ => List.mem_singleton_self _⟩
    · rw [if_neg hkey]
      exact ⟨fun hmem => absurd (List.mem_singleton.mp hmem).symm hkey, nofun⟩
  · rw [hknown] at hvalue
    split at hvalue
    case isTrue hkey =>
      cases hvalue
      rw [← hkey]
      rfl
    case isFalse => cases hvalue
  · have hnone : (∅ : Std.ExtTreeMap UInt32 (WriteSet Bytes (Option Bytes)))[serviceId]? = none :=
      Std.ExtTreeMap.getElem?_empty
    simp only [hnone]
    exact fun key => rfl
  · rfl

theorem host_planning_simulates_store :
    refineTraces (leafTrie storeHash) storeHash storeApplication () (storeInput [[7], [8]])
        zeroEnvironment =
      hostTraces ⟨storeApplication, ⟨1, [storeKey]⟩, zeroEnvironment⟩ (fetched storeKey)
        [[7], [8]] := by
  have hpoints : ∀ point ∈ hostPoints ⟨storeApplication, ⟨1, [storeKey]⟩, zeroEnvironment⟩
      (fetched storeKey) [[7], [8]],
      point.1.Repeatable ⟨storeApplication, ⟨1, [storeKey]⟩, zeroEnvironment⟩ point.2 := by
    decide +kernel
  exact ((host_planning_simulates storeApplication_forwards store_witnesses (by decide +kernel)).mpr
    hpoints).1

/-! ### A write to a key of the runtime

`clearApplication` of `Guest.Planner` deletes the key of the state commitment. The host's state has
no reserved keys: the planning run ends well and with the deletion in its overlay. Refine refuses
it, and the action fails.
-/

theorem clearApplication_forwards (action : Bytes) :
    Fallible.Forwards hostHandler stateError (clearApplication action) := by
  refine .ask ?_
  rintro (e | _) _ herror <;> cases herror
  rfl

theorem host_planning_writes_reserved_key :
    (∀ action, Fallible.Forwards hostHandler stateError (clearApplication action)) ∧
      planningExecute ⟨clearApplication, clearInput.managedState.accessPlan, zeroEnvironment⟩
        (fetched managedStateCommitmentKeyV1) clearInput.actions = .ok .complete ∧
      (hostTraces ⟨clearApplication, clearInput.managedState.accessPlan, zeroEnvironment⟩
        (fetched managedStateCommitmentKeyV1) clearInput.actions).map ActionTrace.result =
          [.ok ()] ∧
      (hostOverlays ⟨clearApplication, clearInput.managedState.accessPlan, zeroEnvironment⟩
        (fetched managedStateCommitmentKeyV1) clearInput.actions).map (·.writes.toList) =
          [[(managedStateCommitmentKeyV1, none)]] ∧
      (refineTraces (leafTrie foreignHash) foreignHash clearApplication () clearInput
        zeroEnvironment).map ActionTrace.result = [.error .reservedKey] ∧
      (refineOverlays (leafTrie foreignHash) foreignHash clearApplication () clearInput
        zeroEnvironment).map (·.writes.toList) = [[]] :=
  ⟨clearApplication_forwards, by decide +kernel⟩

end Refine

end JamScript
