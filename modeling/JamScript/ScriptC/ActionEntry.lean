import JamScript.Guest.Generated
import JamScript.ScriptC.StateRuntime

/-!
# Action entry points

`compile-service.mjs` wraps the body of every action in an exported function: it initializes the
state view, decodes the authentication context and the input, runs the body, and returns an applied
result; whatever is thrown on the way is turned into the outcome that the runtime has recorded.

A body reaches the runtime through a fixed set of functions, so it is a program over them. It may
catch what they throw. `ScriptAction.pending_outcome_kept_iff` says when a recorded outcome is lost:
exactly when the body goes on to its end after one of them has thrown.
-/

namespace JamScript.ScriptC

open Codec Effects

/-! ## What a body can call -/

inductive RuntimeOp where
  | stateGetRaw (key : Bytes)
  | stateHasRaw (key : Bytes)
  | stateSetRaw (key value : Bytes)
  | stateDeleteRaw (key : Bytes)
  | applicationKeyV1 (namespaceBytes canonicalKey : Bytes)
  | abort (code : ScriptNumber)
  | failNumeric (code : ℕ)
  deriving DecidableEq

@[reducible]
def RuntimeOp.Result : RuntimeOp → Type
  | .stateGetRaw _ => Option Bytes
  | .stateHasRaw _ => Bool
  | .applicationKeyV1 _ _ => Bytes
  | .stateSetRaw _ _ | .stateDeleteRaw _ | .abort _ | .failNumeric _ => Unit

/-- The interface of the runtime: every function returns or throws. -/
@[reducible]
def runtimeSignature : Signature := ⟨RuntimeOp, fun op => Except Thrown op.Result⟩

def runtimeHandle : Handler runtimeSignature StateRuntime
  | .stateGetRaw key => stateGetRaw key
  | .stateHasRaw key => stateHasRaw key
  | .stateSetRaw key value => stateSetRaw key value
  | .stateDeleteRaw key => stateDeleteRaw key
  | .applicationKeyV1 namespaceBytes canonicalKey => applicationKeyV1 namespaceBytes canonicalKey
  | .abort code => abort code
  | .failNumeric code => failNumeric code

/-! ## Authentication contexts -/

structure JamOwnership where
  version : UInt8
  kind : UInt8
  publicValue : Bytes
  deriving DecidableEq, Repr

def ownershipLengths : List ℕ := [32, 32, 33, 20, 32]

def encodeOwnership (value : JamOwnership) : Except Thrown Bytes :=
  if value.version ≠ 1 ∨ value.kind > 4 ∨
      value.publicValue.length ≠ ownershipLengths.getD value.kind.toNat 0 ∨
      (value.kind = 2 ∧ byteAt value.publicValue 0 ≠ 2 ∧ byteAt value.publicValue 0 ≠ 3) then
    .error "invalid Ownership"
  else .ok ([1, value.kind] ++ toLe 2 value.publicValue.length ++ value.publicValue)

/-- The value at an offset, and the offset behind it. -/
def decodeOwnershipAt (input : Bytes) (offset : ℕ) : Except Thrown (JamOwnership × ℕ) := do
  ensure (offset + 4 ≤ input.length) "truncated Ownership"
  let length := byteAt input (offset + 2) + byteAt input (offset + 3) * 256
  let finish := offset + 4 + length
  ensure (finish ≤ input.length) "truncated Ownership"
  let value : JamOwnership :=
    ⟨input.getD offset 0, input.getD (offset + 1) 0, (input.drop (offset + 4)).take length⟩
  let _ ← encodeOwnership value
  pure (value, finish)

/-- The local function `read` of `decodeOwnershipAuthContext`. -/
def readAuthOwnership (raw : Bytes) (offset : ℕ) : Except Thrown (JamOwnership × ℕ) := do
  ensure (offset + 2 ≤ raw.length) "truncated Ownership auth context"
  let length := byteAt raw offset + byteAt raw (offset + 1) * 256
  let start := offset + 2
  ensure (start + length ≤ raw.length) "truncated Ownership auth context"
  let (value, finish) ← decodeOwnershipAt ((raw.drop start).take length) 0
  ensure (finish = length) "invalid Ownership auth context value"
  pure (value, start + length)

def decodeOwnershipAuthContext (raw : Bytes) : Except Thrown (JamOwnership × JamOwnership) := do
  ensure (3 ≤ raw.length ∧ byteAt raw 0 = 1) "invalid Ownership auth context"
  let (owner, offset) ← readAuthOwnership raw 1
  let (controller, offset) ← readAuthOwnership raw offset
  ensure (offset = raw.length) "trailing Ownership auth context"
  pure (owner, controller)

/-- The `ctx` argument of a body. -/
inductive ActionContext where
  | sender (sender : Bytes)
  | ownership (owner controller : JamOwnership)
  deriving DecidableEq

/-- The lines that decode the context, by the authentication of the action. -/
def authDecode (auth : AuthKind) (sender : Bytes) : Except Thrown ActionContext :=
  match auth with
  | .ownership => (decodeOwnershipAuthContext sender).map fun (owner, controller) =>
      .ownership owner controller
  | .wallet => if sender.length ≠ 32 then .error "wallet sender length" else .ok (.sender sender)
  | .public =>
    if sender.length ≠ 0 then .error "public sender must be empty" else .ok (.sender sender)

/-! ## The entry point -/

/-- A generated action: its authentication, its input decoder and its body. -/
structure ScriptAction (M Input : Type) where
  auth : AuthKind
  decodeInput : Bytes → Fallible runtimeSignature Thrown M Input
  execute : ActionContext → Input → Fallible runtimeSignature Thrown M Unit

namespace ScriptAction

variable {M Input : Type} (action : ScriptAction M Input)

/-- The lines of the `try` block between the initialization and the result. -/
def perform (payload sender : Bytes) : Fallible runtimeSignature Thrown M Unit := do
  let context ← Fallible.ofExcept (authDecode action.auth sender)
  let input ← action.decodeInput payload
  action.execute context input

/-- `__jamscript_action_*_v1`: the bytes returned, and the memory and the runtime left behind. -/
def entry (payload sender stateView : Bytes) (memory : M) (runtime : StateRuntime) :
    Bytes × M × StateRuntime :=
  match initializeStateView stateView runtime with
  | (.error _, runtime) => (caughtResult runtime, memory, runtime)
  | (.ok _, runtime) =>
    match Fallible.exec runtimeHandle (action.perform payload sender) memory runtime with
    | ((.ok _, memory), runtime) => (appliedResult runtime, memory, runtime)
    | ((.error _, memory), runtime) => (caughtResult runtime, memory, runtime)

end ScriptAction

/-! ## Pending outcomes -/

/-- The error that a call of the runtime has thrown. -/
def thrown : Event runtimeSignature → Option Thrown
  | ⟨_, .error error⟩ => some error
  | ⟨_, .ok _⟩ => none

/-- A function of the runtime records an outcome when it throws, and only then. -/
def RecordsThrow {α : Type} (call : ScriptCall α) : Prop :=
  ∀ runtime, match call runtime with
    | (.ok _, after) => after.pendingKind = runtime.pendingKind
    | (.error _, after) => after.pendingKind ≠ .applied

theorem recordsThrow_stateGetRaw (key : Bytes) : RecordsThrow (stateGetRaw key) := by
  intro runtime
  unfold stateGetRaw
  cases knownEntry runtime.overlayEntries key with
  | some entry => rfl
  | none =>
    cases knownEntry runtime.baseEntries key with
    | some entry => rfl
    | none => nofun

theorem recordsThrow_stateHasRaw (key : Bytes) : RecordsThrow (stateHasRaw key) := by
  intro runtime
  have hget := recordsThrow_stateGetRaw key runtime
  unfold stateHasRaw
  revert hget
  rcases stateGetRaw key runtime with ⟨_ | _, after⟩ <;> exact id

theorem recordsThrow_writeKnown (key : Bytes) (value : Option Bytes) :
    RecordsThrow (writeKnown key value) := by
  intro runtime
  unfold writeKnown
  split_ifs with hunknown
  · nofun
  · unfold writeOverlay
    split_ifs with hlimits
    · nofun
    · rfl

theorem recordsThrow_applicationKeyV1 (namespaceBytes canonicalKey : Bytes) :
    RecordsThrow (applicationKeyV1 namespaceBytes canonicalKey) := by
  intro runtime
  unfold applicationKeyV1
  split_ifs with hlong
  · nofun
  · rfl

theorem recordsThrow_abort (code : ScriptNumber) : RecordsThrow (abort code : ScriptCall Unit) := by
  intro runtime
  cases code with
  | other => nofun
  | integer value =>
    unfold abort
    dsimp only
    split_ifs with hrange <;> nofun

theorem recordsThrow_runtimeHandle (op : RuntimeOp) : RecordsThrow (runtimeHandle op) := by
  cases op with
  | stateGetRaw key => exact recordsThrow_stateGetRaw key
  | stateHasRaw key => exact recordsThrow_stateHasRaw key
  | stateSetRaw key value => exact recordsThrow_writeKnown key (some value)
  | stateDeleteRaw key => exact recordsThrow_writeKnown key none
  | applicationKeyV1 namespaceBytes canonicalKey =>
    exact recordsThrow_applicationKeyV1 namespaceBytes canonicalKey
  | abort code => exact recordsThrow_abort code
  | failNumeric code => exact fun _ => nofun

/-- Whatever a body does with exceptions, an outcome is pending after it exactly when one of its
calls has thrown. -/
theorem pendingKind_exec_iff {M α : Type} (body : Fallible runtimeSignature Thrown M α) (memory : M)
    {runtime : StateRuntime} (hidle : runtime.pendingKind = .applied) :
    (Fallible.exec runtimeHandle body memory runtime).2.pendingKind ≠ .applied ↔
      ∃ event ∈ Fallible.history runtimeHandle body memory runtime, (thrown event).isSome := by
  have hstep : ∀ op s, (runtimeHandle op s).2.pendingKind ≠ .applied ↔
      s.pendingKind ≠ .applied ∨ (thrown ⟨op, (runtimeHandle op s).1⟩).isSome := by
    intro op s
    have hrecords := recordsThrow_runtimeHandle op s
    rcases hresult : runtimeHandle op s with ⟨error | value, after⟩ <;> rw [hresult] at hrecords
    · simpa [thrown] using hrecords
    · have hkind : after.pendingKind = s.pendingKind := hrecords
      simp [thrown, hkind]
  have hrun : (Fallible.exec runtimeHandle body memory runtime).2.pendingKind ≠ .applied ↔
      runtime.pendingKind ≠ .applied ∨
        ∃ event ∈ Fallible.history runtimeHandle body memory runtime, (thrown event).isSome :=
    Program.run_marks (fun s => s.pendingKind ≠ .applied) (fun event => (thrown event).isSome) hstep
      (body memory) runtime
  rw [hrun, or_iff_right (not_not_intro hidle)]

theorem pendingKind_initializeStateView_ok {stateView : Bytes} {runtime after : StateRuntime}
    (h : initializeStateView stateView runtime = (.ok (), after)) :
    after.pendingKind = .applied := by
  unfold initializeStateView at h
  dsimp only at h
  split at h
  · cases h
  · cases h
    rfl

theorem kind_caughtResult (runtime : StateRuntime) :
    (caughtResult runtime)[1]? ≠ some ResultKind.applied.toU8 := by
  unfold caughtResult
  cases runtime.pendingKind <;> simp [encodeNeedState, encodeCode, ResultKind.toU8]

theorem kind_appliedResult (runtime : StateRuntime) :
    (appliedResult runtime)[1]? = some ResultKind.applied.toU8 := rfl

namespace ScriptAction

variable {M Input : Type}

/-- The bytes are those of an applied result in spite of a pending outcome only when a call has
thrown and the body has still come to its end. -/
theorem pending_outcome_kept_iff (action : ScriptAction M Input) (payload sender stateView : Bytes)
    (memory : M) (runtime : StateRuntime) :
    ((action.entry payload sender stateView memory runtime).2.2.pendingKind ≠ .applied →
      (action.entry payload sender stateView memory runtime).1[1]? ≠ some ResultKind.applied.toU8) ↔
    ∀ start, initializeStateView stateView runtime = (.ok (), start) →
      (∃ event ∈ Fallible.history runtimeHandle (action.perform payload sender) memory start,
        (thrown event).isSome) →
      ∃ error, (Fallible.exec runtimeHandle (action.perform payload sender) memory start).1.1 =
        .error error := by
  unfold entry
  rcases hstart : initializeStateView stateView runtime with ⟨error | value, start⟩
  · -- an invalid view never reaches the body
    refine iff_of_true (fun _ => kind_caughtResult start) ?_
    intro start' h
    cases h
  · have hidle := pendingKind_initializeStateView_ok hstart
    have hpending := pendingKind_exec_iff (action.perform payload sender) memory hidle
    dsimp only
    rcases hexec : Fallible.exec runtimeHandle (action.perform payload sender) memory start with
      ⟨⟨error | value, memory'⟩, after⟩
    · refine iff_of_true (fun _ => kind_caughtResult after) ?_
      intro start' h _
      cases h
      exact ⟨error, by rw [hexec]⟩
    · rw [hexec] at hpending
      constructor
      · intro hkept start' h hthrown
        cases h
        exact absurd (kind_appliedResult after) (hkept (hpending.mpr hthrown))
      · intro hends hkind
        obtain ⟨error, herror⟩ := hends start rfl (hpending.mp hkind)
        rw [hexec] at herror
        cases herror

end ScriptAction

/-! ### A body that swallows a missing key -/

/-- `try { state.get(missing) } catch {}` followed by a write. -/
def swallowingAction : ScriptAction Unit Unit where
  auth := .public
  decodeInput := fun _ => pure ()
  execute := fun _ _ =>
    Fallible.attempt (Fallible.ask (.stateGetRaw [1]) id) fun _ =>
      Fallible.ask (.stateSetRaw counterKey [8]) id

theorem swallowed_need_state_is_applied :
    (swallowingAction.entry [] [] counterViewBytes () idleRuntime).2.2.pendingKind = .needState ∧
      ScriptActionResultV1.decode
        (swallowingAction.entry [] [] counterViewBytes () idleRuntime).1 =
        .ok (.applied ⟨[⟨counterKey, some [8]⟩]⟩) := by
  decide +kernel

end JamScript.ScriptC
