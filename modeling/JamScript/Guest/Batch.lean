import JamScript.Guest.Refine
import JamScript.State.LeafTrie

/-!
# What a batch means

A batch is a sequence of action runs. Each run starts on the writes that the committed runs before
it have left, inside a fresh transaction, and ends with a result, the writes of that transaction and
a validity limit. `batchRuns` is this reading of a batch; it mentions neither transactions nor
caches.

The refine loop computes it for every application that neither closes the transaction it was given
nor leaves one of its own open (`KeepsTransaction`): `refineActions_runs` is the loop invariant and
`refine_batch` the statement about a whole refine. Keeping only the *number* of open transactions is
not enough, as `refine_leaks_rejected_write` shows.
-/

namespace JamScript

open Codec Effects

/-! ## Transactions opened and closed by an application -/

/-- The number of transactions open above the given one, or `none` once the given one was closed. -/
def nestingStep (depth : Option ℕ) (event : Event contextSignature) : Option ℕ :=
  match depth, event with
  | none, _ => none
  | some depth, ⟨.beginTransaction, .ok _⟩ => some (depth + 1)
  | some 0, ⟨.commitTransaction, .ok _⟩ | some 0, ⟨.rollbackTransaction, .ok _⟩ => none
  | some (depth + 1), ⟨.commitTransaction, .ok _⟩
  | some (depth + 1), ⟨.rollbackTransaction, .ok _⟩ => some depth
  | some depth, _ => some depth

/-- The nesting a whole history of operations leaves. -/
def nesting (depth : Option ℕ) (events : List (Event contextSignature)) : Option ℕ :=
  events.foldl nestingStep depth

/-- On this context, the action closes exactly the transactions it opens. -/
def KeepsTransactionOn {σ ε M : Type} [ManagedStateAccess σ] [ExternalStateAccess ε]
    (program : Program contextSignature (Except StateAccessError Unit × M))
    (context : ExecutionContext σ ε) : Prop :=
  nesting (some 0) (program.trace ExecutionContext.handle context) = some 0

/-- The application closes exactly the transactions it opens, whatever state it runs on. -/
def KeepsTransaction (L : TrieLibrary) {M : Type} (application : ServiceApplication M) : Prop :=
  ∀ action memory (context : ExecutionContext (ProofState L) (ExternalProofStates L)),
    KeepsTransactionOn (application action memory) context

theorem nesting_none (events : List (Event contextSignature)) : nesting none events = none := by
  induction events with
  | nil => rfl
  | cons event events ih => exact ih

theorem nesting_append (depth : Option ℕ) (events later : List (Event contextSignature)) :
    nesting depth (events ++ later) = nesting (nesting depth events) later :=
  List.foldl_append

/-- The operations that open or close a transaction. -/
def ContextOp.isTransaction : ContextOp → Bool
  | .beginTransaction | .commitTransaction | .rollbackTransaction => true
  | _ => false

theorem nestingStep_other (depth : ℕ) {op : ContextOp} (hop : op.isTransaction = false)
    (answer : op.Answer) : nestingStep (some depth) ⟨op, answer⟩ = some depth := by
  cases op <;> first | rfl | cases hop

section Balanced

variable {σ ε M α β : Type} [ManagedStateAccess σ] [ExternalStateAccess ε]

/-- On this context, the program closes exactly the transactions it opens. -/
def Balanced (program : Fallible contextSignature StateAccessError M α) (memory : M)
    (context : ExecutionContext σ ε) : Prop :=
  ∀ depth, nesting (some depth) (Fallible.history ExecutionContext.handle program memory context)
    = some depth

variable {memory : M} {context : ExecutionContext σ ε}

theorem Balanced.pure (a : α) : Balanced (Pure.pure a) memory context := fun _ => rfl

theorem Balanced.throw (e : StateAccessError) :
    Balanced (MonadExcept.throw e : Fallible contextSignature StateAccessError M α)
      memory context :=
  fun _ => rfl

theorem Balanced.ask {op : ContextOp} (hop : op.isTransaction = false)
    (f : op.Answer → Except StateAccessError α) : Balanced (Fallible.ask op f) memory context :=
  fun depth => nestingStep_other depth hop _

theorem Balanced.tell {op : ContextOp} (hop : op.isTransaction = false) (f : op.Answer → α) :
    Balanced (Fallible.tell op f) memory context :=
  fun depth => nestingStep_other depth hop _

theorem Balanced.bind {program : Fallible contextSignature StateAccessError M α}
    {next : α → Fallible contextSignature StateAccessError M β}
    (hprogram : Balanced program memory context)
    (hnext : ∀ a memory' (context' : ExecutionContext σ ε), Balanced (next a) memory' context') :
    Balanced (program >>= next) memory context := by
  intro depth
  rw [Fallible.history_bind, nesting_append, hprogram depth]
  cases (Fallible.exec ExecutionContext.handle program memory context).1.1 with
  | ok a => exact hnext a _ _ depth
  | error e => rfl

theorem Balanced.ofExcept (x : Except StateAccessError α) :
    Balanced (Fallible.ofExcept x : Fallible contextSignature StateAccessError M α)
      memory context :=
  fun _ => rfl

/-- A program that can neither open nor close a transaction is balanced. -/
theorem Balanced.of_calls {program : Fallible contextSignature StateAccessError M α}
    (h : Fallible.Calls (fun op : ContextOp => op.isTransaction = false) program) :
    Balanced program memory context := by
  intro depth
  have hevents := (h memory).trace_forall (h := ExecutionContext.handle) context
  unfold Fallible.history
  generalize Program.trace ExecutionContext.handle (program memory) context = events at hevents
  induction events with
  | nil => rfl
  | cons event events ih =>
    rw [nesting, List.foldl_cons, nestingStep_other depth (hevents event (by simp)) event.2]
    exact ih fun e he => hevents e (by simp [he])

end Balanced

section Frame

variable {ε : Type} [ExternalStateAccess ε] {floor : Overlay Bytes (Option Bytes)}

theorem OverlayState.write_above {n : ℕ} {s : OverlayState}
    (h : Overlay.Above (n + 1) floor s.toOverlay) (key : Bytes) (value : Option Bytes) :
    Overlay.Above (n + 1) floor (s.write key value).2.toOverlay := by
  unfold OverlayState.write
  split
  · exact h
  · split
    · exact h
    · exact h.insert key value

/-- Building a view only reads. -/
theorem readViewEntries_state (keys : List Bytes) (s : OverlayState) :
    (readViewEntries keys s).2 = s :=
  readViewEntries_preserves (I := (· = s)) (fun _ _ hs => hs) keys rfl

theorem readStateView_state (plan : Option StateAccessPlanV1) (s : OverlayState) :
    (readStateView plan s).2 = s :=
  readStateView_preserves (I := (· = s)) (fun _ _ hs => hs) plan rfl

/-- No operation reaches below the transactions the application has opened, unless it closes the one
it was given. -/
theorem handle_above {depth depth' : ℕ} {context : ExecutionContext OverlayState ε}
    (habove : Overlay.Above (depth + 1) floor context.state.toOverlay) (op : ContextOp)
    (hnest : nestingStep (some depth) ⟨op, (ExecutionContext.handle op context).1⟩ = some depth') :
    Overlay.Above (depth' + 1) floor (ExecutionContext.handle op context).2.state.toOverlay := by
  cases op with
  | set key value =>
    cases hnest
    exact OverlayState.write_above habove key (some value)
  | delete key =>
    cases hnest
    exact OverlayState.write_above habove key none
  | beginTransaction =>
    cases hnest
    exact habove.begin
  | commitTransaction =>
    cases depth with
    | zero =>
      -- closing the given transaction is what the nesting rules out
      obtain ⟨changes, hone⟩ := Overlay.above_one.mp habove
      obtain ⟨p, hp⟩ : ∃ p, context.state.toOverlay.commit = some p := by
        rw [hone]
        cases floor.transactions <;> exact ⟨_, rfl⟩
      simp [ExecutionContext.handle, ExecutionContext.onState, ManagedStateAccess.commitTransaction,
        OverlayState.close, hp, nestingStep] at hnest
    | succ depth =>
      obtain ⟨p, hp, hbelow⟩ := habove.commit
      simp only [ExecutionContext.handle, ExecutionContext.onState,
        ManagedStateAccess.commitTransaction, OverlayState.close, hp] at hnest ⊢
      cases hnest
      exact hbelow
  | rollbackTransaction =>
    obtain ⟨p, hp, hbelow⟩ := habove.rollback
    simp only [ExecutionContext.handle, ExecutionContext.onState,
      ManagedStateAccess.rollbackTransaction, OverlayState.close, hp] at hnest ⊢
    cases depth with
    | zero => cases hnest
    | succ depth =>
      cases hnest
      exact hbelow
  | stateView =>
    cases hnest
    simp only [ExecutionContext.handle, ExecutionContext.onState, readStateView_state]
    exact habove
  | get | externalGet | sender | networkDomain | setOwnership | owner | controller
    | constrainValidUntil | transitionValidUntil =>
    cases hnest
    exact habove

/-- A whole run that closes only what it opens stays above the floor. -/
theorem run_above {α : Type} (program : Program contextSignature α) {depth depth' : ℕ}
    {context : ExecutionContext OverlayState ε}
    (habove : Overlay.Above (depth + 1) floor context.state.toOverlay)
    (hnest : nesting (some depth) (program.trace ExecutionContext.handle context) = some depth') :
    Overlay.Above (depth' + 1) floor
      (program.run ExecutionContext.handle context).2.state.toOverlay := by
  induction program generalizing depth context with
  | pure a =>
    cases hnest
    exact habove
  | call op k ih =>
    rw [Program.trace, nesting, List.foldl_cons] at hnest
    cases hstep : nestingStep (some depth) ⟨op, (ExecutionContext.handle op context).1⟩ with
    | none =>
      rw [hstep] at hnest
      exact absurd (nesting_none _) (by rw [nesting, hnest]; simp)
    | some next =>
      rw [hstep] at hnest
      exact ih _ (handle_above habove op hstep) hnest

end Frame

/-- An operation changes neither what the base answers nor what other services answer. -/
theorem handle_base (op : ContextOp) (c : ExecutionContext OverlayState ExternalView) :
    (ExecutionContext.handle op c).2.state.base = c.state.base ∧
      (ExecutionContext.handle op c).2.externalState = c.externalState := by
  have write : ∀ key value, (c.state.write key value).2.base = c.state.base := by
    intro key value
    unfold OverlayState.write
    split
    · rfl
    · split <;> rfl
  have close : ∀ operation, (OverlayState.close operation c.state).2.base = c.state.base := by
    intro operation
    unfold OverlayState.close
    split <;> rfl
  cases op with
  | set key value => exact ⟨write key (some value), rfl⟩
  | delete key => exact ⟨write key none, rfl⟩
  | commitTransaction => exact ⟨close Overlay.commit, rfl⟩
  | rollbackTransaction => exact ⟨close Overlay.rollback, rfl⟩
  | stateView =>
    have hview := readStateView_state c.accessPlan c.state
    exact ⟨congrArg OverlayState.base hview, rfl⟩
  | externalGet serviceId key =>
    refine ⟨rfl, ?_⟩
    change (readExternal serviceId key c.externalState).2 = c.externalState
    cases c.externalState <;> rfl
  | get | beginTransaction | sender | networkDomain | setOwnership | owner | controller
    | constrainValidUntil | transitionValidUntil => exact ⟨rfl, rfl⟩

/-- Neither does a whole application. -/
theorem run_base {α : Type} (program : Program contextSignature α)
    (context : ExecutionContext OverlayState ExternalView) :
    (program.run ExecutionContext.handle context).2.state.base = context.state.base ∧
      (program.run ExecutionContext.handle context).2.externalState = context.externalState := by
  refine Program.run_preserves (I := fun c : ExecutionContext OverlayState ExternalView =>
    c.state.base = context.state.base ∧ c.externalState = context.externalState) ?_
      program ⟨rfl, rfl⟩
  intro op c hc
  obtain ⟨hbase, hexternal⟩ := handle_base op c
  exact ⟨hbase.trans hc.1, hexternal.trans hc.2⟩

/-- Closing a transaction of the overlay. -/
theorem closeTransaction_eq_ok {result : Except StateAccessError Unit} {s s' : OverlayState}
    (h : closeTransaction (closingMethod result) s = .ok s') :
    (if commits result then s.toOverlay.commit else s.toOverlay.rollback) = some s'.toOverlay ∧
      s'.base = s.base := by
  have hclose : ∀ operation : Overlay Bytes (Option Bytes) → Option (Overlay Bytes (Option Bytes)),
      closeTransaction (OverlayState.close operation) s = .ok s' →
      operation s.toOverlay = some s'.toOverlay ∧ s'.base = s.base := by
    intro operation hok
    unfold closeTransaction OverlayState.close at hok
    cases hoverlay : operation s.toOverlay with
    | none =>
      rw [hoverlay] at hok
      cases hok
    | some overlay =>
      rw [hoverlay] at hok
      cases hok
      exact ⟨rfl, rfl⟩
  unfold closingMethod at h
  split at h
  case isTrue hcommits =>
    rw [if_pos hcommits]
    exact hclose Overlay.commit h
  case isFalse hcommits =>
    rw [if_neg hcommits]
    exact hclose Overlay.rollback h

/-! ## Batches as sequences of runs -/

/-- Everything that stays fixed along a batch, with what the witnesses answer. -/
structure BatchWorld (M : Type) extends BatchSetup M where
  base : Bytes → Except StateAccessError (Option Bytes)
  external : ExternalView

/-- One action of a batch, as it ended. -/
structure ActionRun where
  action : Bytes
  result : Except StateAccessError Unit
  changes : WriteSet Bytes (Option Bytes)
  validUntil : Option UInt64

namespace ActionRun

/-- The writes of the run are kept. -/
def committed (run : ActionRun) : Bool := commits run.result

def receipt (blake2_256 : Bytes → StateRoot) (run : ActionRun) : ActionReceiptV1 :=
  receiptFor genericErrorCode (blake2_256 run.action) run.result

end ActionRun

/-- The later writer wins: the writes after a sequence of runs. -/
def committedWrites (writes : WriteSet Bytes (Option Bytes)) (runs : List ActionRun) :
    WriteSet Bytes (Option Bytes) :=
  (runs.filter ActionRun.committed).foldl (fun writes run => writes ∪ run.changes) writes

theorem committedWrites_cons (writes : WriteSet Bytes (Option Bytes)) (run : ActionRun)
    (runs : List ActionRun) :
    committedWrites writes (run :: runs) = committedWrites (committedWrites writes [run]) runs := by
  unfold committedWrites
  rw [List.filter_cons, List.filter_singleton]
  cases run.committed <;> rfl

theorem committedWrites_append (writes : WriteSet Bytes (Option Bytes))
    (before after : List ActionRun) :
    committedWrites writes (before ++ after) =
      committedWrites (committedWrites writes before) after := by
  unfold committedWrites
  rw [List.filter_append, List.foldl_append]

/-- A run that is not committed leaves the writes alone. -/
theorem committedWrites_discarded (writes : WriteSet Bytes (Option Bytes)) {run : ActionRun}
    (h : run.committed = false) : committedWrites writes [run] = writes := by
  simp [committedWrites, h]

theorem committedWrites_kept (writes : WriteSet Bytes (Option Bytes)) {run : ActionRun}
    (h : run.committed = true) : committedWrites writes [run] = writes ∪ run.changes := by
  simp [committedWrites, h]

/-- The smallest limit that a committed run has set. -/
def transitionLimit (runs : List ActionRun) : Option UInt64 :=
  ((runs.filter ActionRun.committed).filterMap ActionRun.validUntil).min?

theorem transitionLimit_le {runs : List ActionRun} {run : ActionRun} (hrun : run ∈ runs)
    (hcommitted : run.committed = true) {limit : UInt64} (hlimit : run.validUntil = some limit) :
    ∃ smallest, transitionLimit runs = some smallest ∧ smallest ≤ limit := by
  have hmem : limit ∈ (runs.filter ActionRun.committed).filterMap ActionRun.validUntil :=
    List.mem_filterMap.mpr ⟨run, List.mem_filter.mpr ⟨hrun, hcommitted⟩, hlimit⟩
  unfold transitionLimit
  cases hmin : ((runs.filter ActionRun.committed).filterMap ActionRun.validUntil).min? with
  | none => simp [List.min?_eq_none_iff.mp hmin] at hmem
  | some smallest => exact ⟨smallest, rfl, (List.min?_eq_some_iff.mp hmin).2 limit hmem⟩

namespace BatchWorld

variable {M : Type}

/-- The batch between two actions: the committed writes, and no open transaction. -/
def batch (world : BatchWorld M) (memory : M) (writes : WriteSet Bytes (Option Bytes)) :
    Batch OverlayState ExternalView M :=
  ⟨⟨⟨writes, []⟩, world.base⟩, world.external, memory, [], none⟩

/-- Run one action on the given writes, in a fresh transaction. -/
def runAction (world : BatchWorld M) (memory : M) (writes : WriteSet Bytes (Option Bytes))
    (action : Bytes) : ActionRun × M :=
  let run := (world.batch memory writes).execute world.toBatchSetup action
  (⟨action, run.1.1, run.2.state.transactions.headD ∅, run.2.transitionValidUntil⟩, run.1.2)

/-- Run the actions in order, each on the writes of the committed runs before it. -/
def batchRuns (world : BatchWorld M) :
    M → WriteSet Bytes (Option Bytes) → List Bytes → List ActionRun
  | _, _, [] => []
  | memory, writes, action :: actions =>
    (world.runAction memory writes action).1 ::
      world.batchRuns (world.runAction memory writes action).2
        (committedWrites writes [(world.runAction memory writes action).1]) actions

theorem batchRuns_append (world : BatchWorld M) (memory : M)
    (writes : WriteSet Bytes (Option Bytes)) (actions more : List Bytes) :
    ∃ later, world.batchRuns memory writes (actions ++ more) = world.batchRuns memory writes
      actions ++ later := by
  induction actions generalizing memory writes with
  | nil => exact ⟨_, rfl⟩
  | cons action actions ih =>
    obtain ⟨later, hlater⟩ := ih (world.runAction memory writes action).2
      (committedWrites writes [(world.runAction memory writes action).1])
    exact ⟨later, by rw [List.cons_append, batchRuns, hlater, batchRuns, List.cons_append]⟩

/-- Every run of a batch started on the writes of the committed runs before it. -/
theorem batchRuns_split (world : BatchWorld M) {memory : M}
    {writes : WriteSet Bytes (Option Bytes)} {actions : List Bytes} {before after : List ActionRun}
    {run : ActionRun} (h : world.batchRuns memory writes actions = before ++ run :: after) :
    ∃ memory', run = (world.runAction memory' (committedWrites writes before) run.action).1 := by
  induction before generalizing memory writes actions with
  | nil =>
    match actions, h with
    | action :: actions, h =>
      obtain ⟨rfl, -⟩ := List.cons.inj h
      exact ⟨memory, rfl⟩
  | cons first before ih =>
    match actions, h with
    | action :: actions, h =>
      obtain ⟨rfl, hrest⟩ := List.cons.inj h
      rw [committedWrites_cons]
      exact ih hrest

/-- An action that closes what it opens ends with one transaction on top of the batch's writes. -/
theorem execute_state (world : BatchWorld M) (memory : M) (writes : WriteSet Bytes (Option Bytes))
    (action : Bytes)
    (hkeeps : KeepsTransactionOn (world.application action memory)
      ((world.batch memory writes).context world.toBatchSetup)) :
    ((world.batch memory writes).execute world.toBatchSetup action).2.state =
        ⟨⟨writes, [(world.runAction memory writes action).1.changes]⟩, world.base⟩ ∧
      ((world.batch memory writes).execute world.toBatchSetup action).2.externalState =
        some world.external := by
  have hbegin : Overlay.Above (0 + 1) ⟨writes, []⟩
      ((world.batch memory writes).context world.toBatchSetup).state.toOverlay :=
    Overlay.above_one.mpr ⟨∅, rfl⟩
  obtain ⟨changes, hoverlay⟩ := Overlay.above_one.mp (run_above _ hbegin hkeeps)
  obtain ⟨hbase, hexternal⟩ := run_base (world.application action memory)
    ((world.batch memory writes).context world.toBatchSetup)
  have hstate : ((world.batch memory writes).execute world.toBatchSetup action).2.state =
      ⟨⟨writes, [changes]⟩, world.base⟩ := OverlayState.eq_mk hoverlay hbase
  refine ⟨?_, hexternal⟩
  rw [runAction, hstate]
  rfl

/-- The limit of the batch after a run. -/
def mergeRun (current : Option UInt64) (run : ActionRun) : Option UInt64 :=
  if run.committed then mergeValidity current run.validUntil else current

/-- Closing the transaction of a run leaves the committed writes and no open transaction. -/
theorem closeTransaction_run (writes : WriteSet Bytes (Option Bytes))
    (base : Bytes → Except StateAccessError (Option Bytes)) (run : ActionRun) :
    closeTransaction (closingMethod run.result) ⟨⟨writes, [run.changes]⟩, base⟩ =
      .ok (⟨⟨committedWrites writes [run], []⟩, base⟩ : OverlayState) := by
  unfold closingMethod committedWrites ActionRun.committed
  cases hcommits : commits run.result with
  | true => simp only [List.filter_cons, hcommits]; rfl
  | false => simp only [List.filter_cons, hcommits]; rfl

/-- One iteration of the refine loop is one run. -/
theorem refineAction_runs (world : BatchWorld M) {writes : WriteSet Bytes (Option Bytes)}
    {c c' : Batch OverlayState ExternalView M} {action : Bytes}
    (hstate : c.state = ⟨⟨writes, []⟩, world.base⟩) (hexternal : c.external = world.external)
    (hkeeps : KeepsTransactionOn (world.application action c.memory) (c.context world.toBatchSetup))
    (h : refineAction world.toBatchSetup c action = .ok c') :
    abortError (world.runAction c.memory writes action).1.result = none ∧
      c' = { state := ⟨⟨committedWrites writes [(world.runAction c.memory writes action).1], []⟩,
               world.base⟩
             external := world.external
             memory := (world.runAction c.memory writes action).2
             receipts := c.receipts ++
               [(world.runAction c.memory writes action).1.receipt world.blake2_256]
             transitionValidUntil :=
               mergeRun c.transitionValidUntil (world.runAction c.memory writes action).1 } := by
  obtain ⟨state, external, memory, receipts, validUntil⟩ := c
  obtain rfl : state = _ := hstate
  obtain rfl : external = _ := hexternal
  obtain ⟨hrun, hview⟩ := world.execute_state memory writes action hkeeps
  -- the run does not look at the receipts and the limit collected so far
  have hexecute : Batch.execute world.toBatchSetup
      ⟨⟨⟨writes, []⟩, world.base⟩, world.external, memory, receipts, validUntil⟩ action =
      (world.batch memory writes).execute world.toBatchSetup action := rfl
  obtain ⟨habort, state, hclose, rfl⟩ := refineAction_eq_ok h
  rw [hexecute] at habort hclose
  refine ⟨habort, ?_⟩
  have hclosed := closeTransaction_run writes world.base (world.runAction memory writes action).1
  rw [hrun] at hclose
  obtain rfl := Except.ok.inj (hclose.symm.trans hclosed)
  simp only [Batch.advance, hexecute, hview]
  rfl

/-- A predicate on batches that says the next action closes what it opens, and that the loop
keeps. -/
structure KeepsAlong (setup : BatchSetup M) (P : Batch OverlayState ExternalView M → Prop) :
    Prop where
  keeps : ∀ c, P c → ∀ action,
    KeepsTransactionOn (setup.application action c.memory) (c.context setup)
  step : ∀ c, P c → ∀ action c', refineAction setup c action = .ok c' → P c'

/-- The loop invariant: after any number of actions the batch holds what their runs left. -/
theorem refineActions_runs (world : BatchWorld M) {P : Batch OverlayState ExternalView M → Prop}
    (hP : KeepsAlong world.toBatchSetup P) (actions : List Bytes)
    {writes : WriteSet Bytes (Option Bytes)} {c c' : Batch OverlayState ExternalView M} (hc : P c)
    (hstate : c.state = ⟨⟨writes, []⟩, world.base⟩) (hexternal : c.external = world.external)
    (h : refineActions world.toBatchSetup c actions = .ok c') :
    c'.state = ⟨⟨committedWrites writes (world.batchRuns c.memory writes actions), []⟩,
      world.base⟩ ∧
      c'.receipts = c.receipts ++
        (world.batchRuns c.memory writes actions).map (ActionRun.receipt world.blake2_256) ∧
      c'.transitionValidUntil =
        (world.batchRuns c.memory writes actions).foldl mergeRun c.transitionValidUntil ∧
      ∀ run ∈ world.batchRuns c.memory writes actions, abortError run.result = none := by
  induction actions generalizing writes c with
  | nil =>
    cases h
    simp [batchRuns, committedWrites, hstate]
  | cons action actions ih =>
    unfold refineActions at h
    rw [List.foldlM_cons] at h
    obtain ⟨next, hnext, hrest⟩ := bind_eq_ok.mp h
    obtain ⟨habort, heq⟩ := world.refineAction_runs hstate hexternal (hP.keeps c hc action) hnext
    obtain ⟨hstate', hreceipts, hlimit, hall⟩ :=
      ih (hP.step c hc action next hnext) (congrArg Batch.state heq)
        (congrArg Batch.external heq) hrest
    have hmemory : next.memory = (world.runAction c.memory writes action).2 := by rw [heq]
    rw [hmemory] at hstate' hreceipts hlimit hall
    rw [batchRuns]
    refine ⟨?_, ?_, ?_, ?_⟩
    · rw [hstate', ← committedWrites_cons]
    · rw [hreceipts, heq, List.map_cons, List.append_assoc, List.singleton_append]
    · rw [hlimit, heq, List.foldl_cons]
    · intro run hrun
      rcases List.mem_cons.mp hrun with rfl | hrun
      · exact habort
      · exact hall run hrun

/-- The runs of a batch are one per action, in order. -/
theorem batchRuns_actions (world : BatchWorld M) (memory : M)
    (writes : WriteSet Bytes (Option Bytes)) (actions : List Bytes) :
    (world.batchRuns memory writes actions).map ActionRun.action = actions := by
  induction actions generalizing memory writes with
  | nil => rfl
  | cons action actions ih =>
    rw [batchRuns, List.map_cons, ih]
    rfl

theorem foldl_mergeRun (runs : List ActionRun) (current : Option UInt64) :
    runs.foldl mergeRun current =
      (current.toList ++ (runs.filter ActionRun.committed).filterMap
        ActionRun.validUntil).min? := by
  induction runs generalizing current with
  | nil => cases current <;> simp
  | cons run runs ih =>
    rw [List.foldl_cons, ih, List.filter_cons]
    cases hcommitted : run.committed with
    | false => simp [mergeRun, hcommitted]
    | true =>
      cases hvalid : run.validUntil with
      | none => simp [mergeRun, hcommitted, mergeValidity, hvalid]
      | some limit =>
        cases current with
        | none => simp [mergeRun, hcommitted, mergeValidity, hvalid]
        | some current =>
          have hmerge : mergeRun (some current) run = some (min current limit) := by
            simp [mergeRun, hcommitted, mergeValidity, hvalid]
          rw [hmerge, if_pos rfl, List.filterMap_cons_some hvalid]
          simp only [Option.toList_some, List.singleton_append, List.min?_cons', List.foldl_cons]

end BatchWorld

/-! ## What the library is assumed to do -/

/-- The map after a list of changes. -/
def applyChanges (contents : Bytes → Option Bytes) (changes : List StateChangeV1) :
    Bytes → Option Bytes :=
  changes.foldl (fun contents change => Function.update contents change.key change.value) contents

/-- The map under a set of writes. -/
def applyWrites (contents : Bytes → Option Bytes) (writes : WriteSet Bytes (Option Bytes)) :
    Bytes → Option Bytes := fun key => writes[key]?.getD (contents key)

theorem applyWrites_union (contents : Bytes → Option Bytes)
    (writes changes : WriteSet Bytes (Option Bytes)) (key : Bytes) :
    applyWrites contents (writes ∪ changes) key =
      changes[key]?.getD (applyWrites contents writes key) := by
  unfold applyWrites
  rw [Std.ExtTreeMap.getElem?_union]
  cases changes[key]? <;> rfl

/-- Trie proofs are sound: whatever the library reads from a witness is in the trie of its root.
`contents` says which map a root stands for. -/
def ReadSound (L : TrieLibrary) (contents : StateRoot → Bytes → Option Bytes)
    (witness : ManagedStateWitnessV1) : Prop :=
  ∀ key value, L.get (L.intoMemoryDb witness.storageProof) witness.parentRoot key = .ok value →
    value = contents witness.parentRoot key

/-- The trie update is correct: the root the library reaches from the witness by the diff is the
root of the updated map. -/
def UpdateSound (L : TrieLibrary) (contents : StateRoot → Bytes → Option Bytes)
    (witness : ManagedStateWitnessV1) (diff : StateDiffV1) : Prop :=
  ∀ newRoot, rootAfter L witness diff = .ok newRoot →
    contents newRoot = applyChanges (contents witness.parentRoot) diff.changes

private theorem applyChanges_of_notMem (changes : List StateChangeV1)
    (contents : Bytes → Option Bytes) (key : Bytes) (h : ∀ change ∈ changes, change.key ≠ key) :
    applyChanges contents changes key = contents key := by
  induction changes generalizing contents with
  | nil => rfl
  | cons change changes ih =>
    rw [applyChanges, List.foldl_cons, ← applyChanges, ih _ fun c hc => h c (by simp [hc])]
    exact Function.update_of_ne (h change (by simp)).symm _ _

private theorem applyChanges_of_mem (changes : List StateChangeV1)
    (contents : Bytes → Option Bytes) (change : StateChangeV1) (hmem : change ∈ changes)
    (hdistinct : changes.Pairwise fun left right => left.key ≠ right.key) :
    applyChanges contents changes change.key = change.value := by
  induction changes generalizing contents with
  | nil => cases hmem
  | cons head changes ih =>
    rw [List.pairwise_cons] at hdistinct
    rw [applyChanges, List.foldl_cons, ← applyChanges]
    rcases List.mem_cons.mp hmem with rfl | hmem
    · rw [applyChanges_of_notMem _ _ _ fun c hc => (hdistinct.1 c hc).symm]
      exact Function.update_self _ _ _
    · exact ih _ hmem hdistinct.2

/-- A diff lists each written key once, so applying it is applying the writes. -/
theorem applyChanges_diffOfWrites (contents : Bytes → Option Bytes)
    (writes : WriteSet Bytes (Option Bytes)) :
    applyChanges contents (diffOfWrites writes).changes = applyWrites contents writes := by
  have hdistinct : (diffOfWrites writes).changes.Pairwise fun left right => left.key ≠
    right.key := by
    unfold diffOfWrites
    rw [List.pairwise_map]
    refine (Std.ExtTreeMap.ordered_keys_toList (t := writes)).imp fun {a b} hlt heq => ?_
    change a.1 = b.1 at heq
    rw [heq] at hlt
    exact absurd hlt (by simp)
  funext key
  unfold applyWrites
  cases hkey : writes[key]? with
  | none =>
    refine applyChanges_of_notMem _ _ _ fun change hmem heq => ?_
    obtain ⟨⟨k, v⟩, hkv, rfl⟩ := List.mem_map.mp hmem
    rw [Std.ExtTreeMap.mem_toList_iff_getElem?_eq_some] at hkv
    subst heq
    rw [hkv] at hkey
    cases hkey
  | some value =>
    have hmem : (⟨key, value⟩ : StateChangeV1) ∈ (diffOfWrites writes).changes :=
      List.mem_map.mpr ⟨(key, value), Std.ExtTreeMap.mem_toList_iff_getElem?_eq_some.mpr hkey, rfl⟩
    exact applyChanges_of_mem _ _ _ hmem hdistinct

/-! ## Refine computes the runs of its batch -/

section Refine

variable {L : TrieLibrary} {M : Type} {blake2_256 : Bytes → StateRoot}
  {application : ServiceApplication M} {memory : M} {input : RuntimeRefineInputV1}
  {environment : ExecutionEnvironmentV1} {output : RuntimeRefineOutputV1}

/-- The world of a refine call. -/
def refineWorld (L : TrieLibrary) (blake2_256 : Bytes → StateRoot)
    (application : ServiceApplication M) (input : RuntimeRefineInputV1)
    (environment : ExecutionEnvironmentV1) : BatchWorld M where
  blake2_256
  application
  accessPlan := input.managedState.accessPlan
  environment
  base := witnessLookup L input.managedState
  external := externalLookup L input.externalState

/-- The runs of a refine call. -/
def refineRuns (L : TrieLibrary) (blake2_256 : Bytes → StateRoot)
    (application : ServiceApplication M) (memory : M) (input : RuntimeRefineInputV1)
    (environment : ExecutionEnvironmentV1) : List ActionRun :=
  (refineWorld L blake2_256 application input environment).batchRuns memory ∅ input.actions

/-- The output reports exactly what the runs of its batch have done. -/
structure ReportsRuns (L : TrieLibrary) (blake2_256 : Bytes → StateRoot)
    (input : RuntimeRefineInputV1) (runs : List ActionRun) (output : RuntimeRefineOutputV1) :
    Prop where
  actions : runs.map ActionRun.action = input.actions
  noAbort : ∀ run ∈ runs, abortError run.result = none
  parentRoot : output.parentRoot = input.managedState.parentRoot
  newRoot : rootAfter L input.managedState (diffOfWrites (committedWrites ∅ runs))
    = .ok output.newRoot
  receipts : output.receipts = runs.map (ActionRun.receipt blake2_256)
  validUntil : output.transitionValidUntil = transitionLimit runs
  encodes : RuntimeRefineOutputV1.fromDiffWithDependenciesAndValidity blake2_256 output.parentRoot
    output.newRoot output.receipts (diffOfWrites (committedWrites ∅ runs))
    (externalDependencies input.externalState) output.transitionValidUntil = .ok output

theorem fromDiff_fields {parentRoot newRoot : StateRoot} {receipts : List ActionReceiptV1}
    {diff : StateDiffV1} {dependencies : List ExternalStateDependencyV1} {limit : Option UInt64}
    (h : RuntimeRefineOutputV1.fromDiffWithDependenciesAndValidity blake2_256 parentRoot newRoot
      receipts diff dependencies limit = .ok output) :
    output.parentRoot = parentRoot ∧ output.newRoot = newRoot ∧ output.receipts = receipts ∧
      output.transitionValidUntil = limit ∧
      canonicalizeDependencies dependencies = .ok output.externalDependencies := by
  obtain ⟨canonical, hcanonical, h⟩ := bind_eq_ok.mp h
  obtain ⟨_, _, h⟩ := bind_eq_ok.mp h
  obtain ⟨_, _, h⟩ := bind_eq_ok.mp h
  obtain ⟨_, _, h⟩ := bind_eq_ok.mp h
  cases h
  exact ⟨rfl, rfl, rfl, rfl, hcanonical⟩

/-- A successful refine reports the runs of its batch, for any reason the actions have to close what
they open. -/
theorem refineWithEnvironment_reports {P : Batch OverlayState ExternalView M → Prop}
    (hP : BatchWorld.KeepsAlong
      ⟨blake2_256, application, input.managedState.accessPlan, environment⟩ P)
    (hinit : P (initialBatch L memory input))
    (h : refineWithEnvironment L blake2_256 application memory input environment = .ok output) :
    ReportsRuns L blake2_256 input (refineRuns L blake2_256 application memory input environment)
      output := by
  obtain ⟨transition, hinternal, h⟩ := bind_eq_ok.mp h
  rw [mapError_eq_ok] at h
  obtain ⟨_, batch, hloop, _, hroot, htransition⟩ := refineInternal_eq_ok hinternal
  obtain ⟨hstate, hreceipts, hlimit, hall⟩ :=
    (refineWorld L blake2_256 application input environment).refineActions_runs hP
      input.actions hinit rfl rfl hloop
  rw [hstate] at hroot htransition
  rw [BatchWorld.foldl_mergeRun] at hlimit
  rw [htransition] at h
  obtain ⟨hparent, hnew, hreceipts', hlimit', -⟩ := fromDiff_fields h
  exact
    { actions := BatchWorld.batchRuns_actions _ _ _ _
      noAbort := hall
      parentRoot := hparent
      newRoot := by rw [hnew]; exact hroot
      receipts := hreceipts'.trans hreceipts
      validUntil := hlimit'.trans hlimit
      encodes := by rw [hparent, hnew, hreceipts', hlimit']; exact h }

/-- An application that closes what it opens does so at every point of a batch that refine
reaches. -/
theorem keepsAlong_of_keepsTransaction (happ : KeepsTransaction L application)
    (db : L.MemoryDB) (root : StateRoot) (plan : StateAccessPlanV1) :
    BatchWorld.KeepsAlong ⟨blake2_256, application, plan, environment⟩
      (Batch.Realised db root (L := L)) where
  keeps := by
    rintro c ⟨b, hrel⟩ action
    have htrace := Program.trace_simulates (ExecutionContext.handle_simulates
      (ProofState.proofState_simulation db root) ExternalProofStates.externalProofStates_simulation)
      (application action c.memory)
      (context_related (ProofState.proofState_simulation db root)
        ⟨blake2_256, application, plan, environment⟩ hrel)
    unfold KeepsTransactionOn
    rw [← htrace]
    exact happ action c.memory _
  step _ hrealised _ _ hstep := hrealised.refineAction hstep

/-- A successful refine of an application that closes exactly the transactions it opens returns one
receipt per action, in order and with the action's hash; each action ran on the writes of the
committed actions before it; the diff, the new root and the validity limit are those of the
committed actions alone. -/
theorem refine_batch (happ : KeepsTransaction L application)
    (h : refineWithEnvironment L blake2_256 application memory input environment = .ok output) :
    let runs := refineRuns L blake2_256 application memory input environment
    let diff := diffOfWrites (committedWrites ∅ runs)
    runs.map ActionRun.action = input.actions ∧
    (∀ run ∈ runs, abortError run.result = none) ∧
    output.receipts = runs.map (ActionRun.receipt blake2_256) ∧
    output.receipts.map ActionReceiptV1.actionHash = input.actions.map blake2_256 ∧
    output.transitionValidUntil = transitionLimit runs ∧
    output.parentRoot = input.managedState.parentRoot ∧
    RuntimeRefineOutputV1.fromDiffWithDependenciesAndValidity blake2_256 output.parentRoot
      output.newRoot output.receipts diff (externalDependencies input.externalState)
      output.transitionValidUntil = .ok output ∧
    rootAfter L input.managedState diff = .ok output.newRoot ∧
    ∀ contents, UpdateSound L contents input.managedState diff →
      contents output.newRoot =
        applyWrites (contents input.managedState.parentRoot) (committedWrites ∅ runs) := by
  obtain ⟨transition, hinternal, _⟩ := bind_eq_ok.mp h
  obtain ⟨⟨opened, hopen⟩, _⟩ := refineInternal_eq_ok hinternal
  have hreport := refineWithEnvironment_reports
    (keepsAlong_of_keepsTransaction happ _ _ input.managedState.accessPlan)
    ⟨opened, (openBatch_related hopen).2⟩ h
  refine ⟨hreport.actions, hreport.noAbort, hreport.receipts, ?_, hreport.validUntil,
    hreport.parentRoot, hreport.encodes, hreport.newRoot, ?_⟩
  · rw [hreport.receipts, ← hreport.actions, List.map_map, List.map_map]
    refine List.map_congr_left fun run _ => ?_
    exact receiptFor_actionHash _ _ run.result
  · intro contents hsound
    rw [hsound _ hreport.newRoot, applyChanges_diffOfWrites]

/-- More actions at the end of a batch change no receipt of the others, and can only bring the limit
forward. -/
theorem receipts_of_longer_batch (happ : KeepsTransaction L application)
    (h : refineWithEnvironment L blake2_256 application memory input environment = .ok output)
    {more : List Bytes} {output' : RuntimeRefineOutputV1}
    (h' : refineWithEnvironment L blake2_256 application memory
      { input with actions := input.actions ++ more }
      environment = .ok output') :
    output.receipts <+: output'.receipts ∧
      ∀ limit ∈ output.transitionValidUntil, ∃ limit' ∈ output'.transitionValidUntil,
        limit' ≤ limit := by
  obtain ⟨-, -, hreceipts, -, hlimit, -⟩ := refine_batch happ h
  obtain ⟨-, -, hreceipts', -, hlimit', -⟩ := refine_batch happ h'
  obtain ⟨later, hruns⟩ := (refineWorld L blake2_256 application input environment).batchRuns_append
    memory ∅ input.actions more
  have hruns' : refineRuns L blake2_256 application memory
    { input with actions := input.actions ++ more } environment =
      refineRuns L blake2_256 application memory input environment ++ later := hruns
  rw [hruns'] at hreceipts' hlimit'
  rw [hreceipts, hreceipts', hlimit, hlimit', List.map_append]
  refine ⟨List.prefix_append _ _, fun limit hmem => ?_⟩
  obtain ⟨run, hrun, hvalid⟩ := List.mem_filterMap.mp (List.min?_eq_some_iff.mp hmem).1
  obtain ⟨hrun, hcommitted⟩ := List.mem_filter.mp hrun
  exact transitionLimit_le (List.mem_append_left later hrun) hcommitted hvalid

/-! ### A batch on the empty trie

`storeApplication` stores the action under one key with a validity limit, and rejects one action
after it has written. Its first action is kept, its second one leaves no trace.
-/

def storeKey : Bytes := [1, 0, 0]

/-- The hash of the action `[7]`. -/
def storeActionHash : StateRoot :=
  ⟨[0x87, 0x3e, 0x4f, 0xe9, 0xe4, 0x1e, 0x92, 0x49, 0x11, 0xbb, 0xa3, 0xec, 0x53, 0xff, 0x47, 0x82,
    0xef, 0xc8, 0xc0, 0xf2, 0x44, 0xfb, 0x75, 0xc8, 0x79, 0xf8, 0xa4, 0x32, 0x8d, 0x01, 0x42, 0xca],
    rfl⟩

/-- The hash of the action `[8]`. -/
def refusedActionHash : StateRoot :=
  ⟨[0xfa, 0xdd, 0x21, 0x80, 0xbd, 0x6b, 0x1c, 0xfa, 0x73, 0xa6, 0x7e, 0x78, 0x92, 0xd8, 0x78, 0x52,
    0x1e, 0xf6, 0x99, 0x18, 0x99, 0x50, 0x40, 0xfb, 0x86, 0x61, 0x64, 0x7d, 0x32, 0x1e, 0x0c, 0x55],
    rfl⟩

def storeHash : Bytes → StateRoot :=
  tableHash [([7], storeActionHash), ([8], refusedActionHash),
    (leafNode storeKey [7], storedRoot),
    ([1, 18, 0, 0, 0, 1, 1, 0, 0, 0, 3, 0, 0, 0, 1, 0, 0, 1, 1, 0, 0, 0, 7], storedCommitment)]

def storeApplication : ServiceApplication Unit := fun action => do
  Fallible.ask (.set storeKey action) id
  Fallible.tell (.constrainValidUntil 9) id
  if action = [8] then throw (.rejected 3)

/-- A refine input on the empty trie that plans `storeKey`. -/
def storeInput (actions : List Bytes) : RuntimeRefineInputV1 :=
  ⟨1, ⟨1, emptyStateRootV1, ⟨1, [storeKey]⟩, []⟩, [], actions⟩

def zeroEnvironment : ExecutionEnvironmentV1 := ⟨List.Vector.replicate 32 0⟩

def storeOutput : RuntimeRefineOutputV1 where
  version := 1
  parentRoot := emptyStateRootV1
  newRoot := storedRoot
  externalDependencies := []
  transitionValidUntil := some 9
  receipts := [⟨storeActionHash, .applied, none⟩, ⟨refusedActionHash, .rejected, some 3⟩]
  recoveryCommitment := storedCommitment
  recoveryPayload := [1, 18, 0, 0, 0, 1, 1, 0, 0, 0, 3, 0, 0, 0, 1, 0, 0, 1, 1, 0, 0, 0, 7]

theorem storeApplication_keepsTransaction :
    KeepsTransaction (leafTrie storeHash) storeApplication := by
  intro action memory context
  refine Balanced.bind (Balanced.ask rfl _) (fun _ _ _ => ?_) 0
  refine Balanced.bind (Balanced.tell rfl _) fun _ _ _ => ?_
  split
  · exact Balanced.throw _
  · exact Balanced.pure _

theorem refine_storeInput :
    refineWithEnvironment (leafTrie storeHash) storeHash storeApplication () (storeInput [[7], [8]])
      zeroEnvironment = .ok storeOutput := by
  decide +kernel

/-- The batch of the example: the refused write is neither in the new root nor in the limit. -/
theorem refine_batch_store :
    storeOutput.receipts.map ActionReceiptV1.actionHash = [[7], [8]].map storeHash ∧
      storeOutput.transitionValidUntil = transitionLimit (refineRuns (leafTrie storeHash) storeHash
        storeApplication () (storeInput [[7], [8]]) zeroEnvironment) := by
  have h := refine_batch storeApplication_keepsTransaction refine_storeInput
  exact ⟨h.2.2.2.1, h.2.2.2.2.1⟩

/-- The refused action changes nothing for the one before it. -/
theorem receipts_of_longer_batch_store :
    [⟨storeActionHash, .applied, none⟩] <+: storeOutput.receipts := by
  have hshort : refineWithEnvironment (leafTrie storeHash) storeHash storeApplication ()
      (storeInput [[7]]) zeroEnvironment =
        .ok { storeOutput with receipts := [⟨storeActionHash, .applied, none⟩] } := by
    decide +kernel
  exact (receipts_of_longer_batch storeApplication_keepsTransaction hshort refine_storeInput).1

/-! ### Keeping the number of open transactions is not enough

`leakyApplication` commits the transaction it was given and opens a new one, so it returns at the
depth it started from; the write it made before is then out of reach of the rollback that its
rejection asks for.
-/

/-- Every action returns at the transaction depth it was given. -/
def LeavesDepth (L : TrieLibrary) {M : Type} (application : ServiceApplication M) : Prop :=
  ∀ action memory (context : ExecutionContext (ProofState L) (ExternalProofStates L)),
    (Fallible.exec ExecutionContext.handle (application action) memory
      context).2.state.transactions.length = context.state.transactions.length

def leakyApplication : ServiceApplication Unit := fun action => do
  Fallible.ask (.set storeKey action) id
  Fallible.ask .commitTransaction id
  Fallible.ask .beginTransaction id
  throw (.rejected 3)

theorem leakyApplication_leavesDepth : LeavesDepth L leakyApplication := by
  intro action memory context
  have hset := ProofState.length_write storeKey (some action) context.state
  simp only [leakyApplication, Fallible.exec_bind, Fallible.exec_ask, Fallible.exec_throw,
    ExecutionContext.handle, ExecutionContext.onState, ManagedStateAccess.set,
    ManagedStateAccess.commitTransaction, ManagedStateAccess.beginTransaction,
    ProofState.mapAccessError, id]
  generalize context.state.write storeKey (some action) = written at hset ⊢
  obtain ⟨answer, state⟩ := written
  cases answer with
  | error e => exact hset
  | ok _ =>
    simp only [Except.mapError, ProofState.commitTransaction] at hset ⊢
    cases hcommit : state.toOverlay.commit with
    | none => exact hset
    | some overlay =>
      -- one transaction closed, one opened
      have hlength := Overlay.length_commit hcommit
      simp only [ProofState.beginTransaction, ProofState.withOverlay, Overlay.begin,
        List.length_cons]
      omega

theorem refine_leaks_rejected_write :
    LeavesDepth (leafTrie storeHash) leakyApplication ∧
    refineInternal (leafTrie storeHash) storeHash leakyApplication () (storeInput [[7]])
      zeroEnvironment = .ok
        { parentRoot := emptyStateRootV1
          newRoot := storedRoot
          receipts := [⟨storeActionHash, .rejected, some 3⟩]
          diff := ⟨[⟨storeKey, some [7]⟩]⟩
          transitionValidUntil := none
          dependencies := [] } :=
  ⟨leakyApplication_leavesDepth, by decide +kernel⟩

end Refine

end JamScript
