import JamScript.Auth.SignedAction
import JamScript.Guest.Batch

/-!
# The descriptor application

The application that the guest runtime builds from a service descriptor: it finds the action a
selector names, authenticates the caller, and runs the script entry point on a view of the state.
The script answers with bytes, which are decoded and applied in a transaction of their own, so that
a failing script undoes its writes but not the use of its caller's nonce.
-/

namespace JamScript

open Codec Effects

/-! ## Descriptors -/

/-- An array that arrives as a pointer and a count. -/
inductive CSlice (α : Type) where
  | null (count : ℕ)
  | data (items : List α)

namespace CSlice

variable {α : Type}

def count : CSlice α → ℕ
  | .null count => count
  | .data items => items.length

def isNull : CSlice α → Bool
  | .null _ => true
  | .data _ => false

def items : CSlice α → List α
  | .null _ => []
  | .data items => items

end CSlice

/-- A script entry point: it is given the payload, the authentication context and the encoded state
view, works on the guest's memory and answers with an array. -/
abbrev ScriptEntry (M : Type) := Bytes → Bytes → Bytes → M → CSlice UInt8 × M

/-- An action of a service, as the linker finds it. -/
structure JamScriptActionDescriptorV1 (M : Type) where
  selector : FixedBytes 8
  authKind : UInt8
  entry : Option (ScriptEntry M)

/-- A service, as the linker finds it. -/
structure JamScriptServiceDescriptorV2 (M : Type) where
  version : UInt32
  actions : CSlice (JamScriptActionDescriptorV1 M)
  namespaces : CSlice (CSlice UInt8)
  serviceKey : FixedBytes 32
  init : Option (M → M)

def descriptorVersion : UInt32 := 2
def authPublic : UInt8 := 0
def authWallet : UInt8 := 1
def authOwnership : UInt8 := 2
def maxDescriptorActions : ℕ := 1024
def maxDescriptorNamespaces : ℕ := 1024
def maxDescriptorNamespaceBytes : ℕ := 4096

/-- The error of a script that answers with something that is not a result record. -/
def invalidScriptOutputCode : UInt32 := 0x80000002

namespace JamScriptServiceDescriptorV2

variable {M : Type} (descriptor : JamScriptServiceDescriptorV2 M)

/-- The checks of `descriptor()`. -/
def check : Except GuestError Unit := do
  ensure (descriptor.version = descriptorVersion ∧ descriptor.actions.count ≠ 0 ∧
    descriptor.actions.count ≤ maxDescriptorActions ∧ ¬ descriptor.actions.isNull ∧
    descriptor.namespaces.count ≤ maxDescriptorNamespaces ∧
    (descriptor.namespaces.count ≠ 0 → ¬ descriptor.namespaces.isNull)) GuestError.invalidInput
  ensure (∀ action ∈ descriptor.actions.items,
    action.authKind ≤ authOwnership ∧ action.entry.isSome) GuestError.invalidInput
  ensure (∀ entry ∈ descriptor.namespaces.items,
    ¬ entry.isNull ∧ entry.count ≤ maxDescriptorNamespaceBytes) GuestError.invalidInput

/-- The first action with the selector. -/
def findAction (selector : FixedBytes 8) :
    Except StateAccessError (JamScriptActionDescriptorV1 M) :=
  match descriptor.actions.items.find? (·.selector = selector) with
  | some action => .ok action
  | none => .error (.rejected RuntimeError.unknownAction.code)

/-- The selector of a service that has one public action only. -/
def publicSelector : Option (FixedBytes 8) :=
  match descriptor.actions.items with
  | [action] => if action.authKind = authPublic then some action.selector else none
  | _ => none

/-- `signed_selector`. -/
def signedSelector (rawAction : Bytes) : Except StateAccessError (FixedBytes 8) :=
  match tryIntoArray 8 ((rawAction.drop 65).take 8) with
  | some selector => .ok selector
  | none => .error (.rejected RuntimeError.invalidEnvelope.code)

/-- The action of the descriptor that a raw action asks for. -/
def resolveAction (rawAction : Bytes) :
    Except StateAccessError (JamScriptActionDescriptorV1 M) := do
  descriptor.check.mapError fun _ => StateAccessError.backend
  let selector ← (match descriptor.publicSelector with
    | some selector => .ok selector
    | none => signedSelector rawAction : Except StateAccessError (FixedBytes 8))
  descriptor.findAction selector

/-- `application_key_allowed`: a key of the application class in a declared namespace. -/
def applicationKeyAllowed (key : Bytes) : Bool :=
  match key with
  | keyClass :: low :: high :: rest =>
    let namespaceLen := (u16OfLe [low, high]).toNat
    keyClass == applicationKeyClassV1 && decide (namespaceLen ≤ rest.length) &&
      descriptor.namespaces.items.any fun entry =>
        !entry.isNull && entry.items == rest.take namespaceLen
  | _ => false

end JamScriptServiceDescriptorV2

/-! ## Authentication -/

section Application

variable {M : Type}

/-- The programs of the descriptor application. -/
abbrev DescriptorProgram (M α : Type) := Fallible contextSignature StateAccessError M α

/-- A runtime error, as the receipt shows it. -/
def rejectedWith (error : RuntimeError) : StateAccessError := .rejected error.code

/-- The nonce a stored value stands for; `none` when the value is malformed. -/
def parseNonce : Option Bytes → Option UInt64
  | none => some 0
  | some bytes => if bytes.length = 8 then some (u64OfLe bytes) else none

/-- A nonce that is not stored is zero. -/
def readNonce (key : Bytes) : DescriptorProgram M UInt64 := do
  let value ← Fallible.ask (.get key) id
  match parseNonce value with
  | some nonce => pure nonce
  | none => throw .backend

/-- The lines the two signed branches share: keep the action's limit and use up its nonce. -/
def consumeNonce (key : Bytes) (expectedNonce validUntil : UInt64) : DescriptorProgram M Unit := do
  Fallible.tell (.constrainValidUntil validUntil) id
  if expectedNonce.toNat + 1 < 2 ^ 64 then
    Fallible.ask (.set key (u64ToLe (expectedNonce + 1))) id
  else throw .backend

/-- The context a script sees of an ownership action. -/
def encodeAuthContext (owner controller : Ownership) : Except StateAccessError Bytes := do
  let owner ← owner.encode.mapError fun _ => StateAccessError.backend
  let controller ← controller.encode.mapError fun _ => StateAccessError.backend
  ensure (owner.length < 2 ^ 16 ∧ controller.length < 2 ^ 16) StateAccessError.backend
  pure ([1] ++ u16ToLe (UInt16.ofNat owner.length) ++ owner ++
    u16ToLe (UInt16.ofNat controller.length) ++ controller)

variable (crypto : CryptoLibrary) (descriptor : JamScriptServiceDescriptorV2 M)

/-- The `AUTH_WALLET` branch of `authenticate`. -/
def authenticateWallet (action : JamScriptActionDescriptorV1 M) (rawAction : Bytes) :
    DescriptorProgram M (Bytes × Bytes) := do
  let signed ← Fallible.ofExcept ((decodeSignedActionV1 rawAction).mapError rejectedWith)
  let networkDomain ← Fallible.tell .networkDomain id
  let verified ← Fallible.ofExcept ((crypto.verifySignedActionV1 signed networkDomain
    descriptor.serviceKey action.selector).mapError rejectedWith)
  let key := nonceKey verified.sender
  let expectedNonce ← readNonce key
  Fallible.ofExcept (ensure (verified.nonce = expectedNonce) (rejectedWith .nonceMismatch))
  consumeNonce key expectedNonce verified.validUntil
  pure (verified.payload, verified.sender.toList)

/-- The `AUTH_OWNERSHIP` branch of `authenticate`. -/
def authenticateOwnership (action : JamScriptActionDescriptorV1 M) (rawAction : Bytes) :
    DescriptorProgram M (Bytes × Bytes) := do
  let signed ← Fallible.ofExcept ((decodeSignedActionV2 rawAction).mapError rejectedWith)
  Fallible.ofExcept (ensure (signed.actAs = none) (rejectedWith .actAsUnsupported))
  let key ← Fallible.ofExcept
    ((ownershipNonceKey crypto.blake2_256 signed.controller).mapError rejectedWith)
  let expectedNonce ← readNonce key
  let networkDomain ← Fallible.tell .networkDomain id
  let verified ← Fallible.ofExcept ((crypto.verifySignedActionV2 signed networkDomain
    descriptor.serviceKey action.selector (some expectedNonce)).mapError rejectedWith)
  Fallible.tell (.setOwnership verified.owner verified.controller) id
  consumeNonce key expectedNonce verified.validUntil
  let authContext ← Fallible.ofExcept (encodeAuthContext verified.owner verified.controller)
  pure (verified.payload, authContext)

/-- The check of an action, by its kind; the payload and the context for the script are returned. -/
def authenticate (action : JamScriptActionDescriptorV1 M) (rawAction : Bytes) :
    DescriptorProgram M (Bytes × Bytes) :=
  if action.authKind = authPublic then
    if descriptor.actions.count ≠ 1 then throw (rejectedWith .unknownAction)
    else pure (rawAction, [])
  else if action.authKind = authWallet then authenticateWallet crypto descriptor action rawAction
  else if action.authKind = authOwnership then
    authenticateOwnership crypto descriptor action rawAction
  else throw .backend

/-! ## Scripts -/

/-- One change of a script, applied to the managed state. -/
def applyScriptChange (change : StateChangeV1) : DescriptorProgram M Unit :=
  if ¬ descriptor.applicationKeyAllowed change.key then throw .reservedKey
  else
    match change.value with
    | some value => Fallible.ask (.set change.key value) id
    | none => Fallible.ask (.delete change.key) id

/-- What the script wants is done, or ends the action. -/
def applyScriptResult (result : ScriptActionResultV1) : DescriptorProgram M Unit :=
  match result with
  | .applied diff => diff.changes.forM (applyScriptChange descriptor)
  | .abort code => throw (.applicationFailed code)
  | .needState key => throw (.needState key)
  | .fatal code => throw (.applicationFailed code)

/-- The result record in the array a script answers with. -/
def decodeScriptOutput (output : CSlice UInt8) : Except StateAccessError ScriptActionResultV1 := do
  ensure ((output.isNull → output.count = 0) ∧ output.count ≤ maxScriptActionResultBytes)
    (StateAccessError.applicationFailed invalidScriptOutputCode)
  (ScriptActionResultV1.decode output.items).mapError
    fun _ => .applicationFailed invalidScriptOutputCode

/-- The part of `execute_scriptc` that runs inside the script's transaction. -/
def runScript (entry : ScriptEntry M) (payload authContext : Bytes) : DescriptorProgram M Unit := do
  let view ← Fallible.ask .stateView id
  let stateView ← Fallible.ofExcept (view.encode.mapError fun _ => StateAccessError.backend)
  let output ← Fallible.remember fun memory =>
    entry payload authContext stateView (descriptor.init.elim memory (· memory))
  let result ← Fallible.ofExcept (decodeScriptOutput output)
  applyScriptResult descriptor result

/-- Close the script's transaction by its outcome. -/
def closeScript (result : Except StateAccessError Unit) : DescriptorProgram M Unit :=
  match result with
  | .ok _ => Fallible.ask .commitTransaction id
  | .error error => do
    Fallible.ask .rollbackTransaction id
    throw error

/-- Run a program in a transaction of its own. -/
def inTransaction (program : DescriptorProgram M Unit) : DescriptorProgram M Unit := do
  Fallible.ask .beginTransaction id
  Fallible.attempt program closeScript

/-- The script runs in a transaction of its own. -/
def executeScriptc (action : JamScriptActionDescriptorV1 M) (payload authContext : Bytes) :
    DescriptorProgram M Unit := do
  let entry ← Fallible.ofExcept (match action.entry with
    | some entry => .ok entry
    | none => .error .backend)
  Fallible.ofExcept (descriptor.check.mapError fun _ => StateAccessError.backend)
  inTransaction (runScript descriptor entry payload authContext)

/-- `DescriptorApplication::execute`. -/
def descriptorApplication : ServiceApplication M := fun rawAction => do
  let action ← Fallible.ofExcept (descriptor.resolveAction rawAction)
  let (payload, authContext) ← authenticate crypto descriptor action rawAction
  executeScriptc descriptor action payload authContext

end Application

/-! ## What a script can reach

Every operation of a script avoids the keys it is not allowed to write and leaves the transactions
alone. The transaction around it is therefore opened and closed once, and the column of a forbidden
key is the same before and after.
-/

/-- The operation neither writes the key nor opens or closes a transaction. -/
def ContextOp.Avoids (key : Bytes) (op : ContextOp) : Prop :=
  op.isTransaction = false ∧ (∀ value, op ≠ .set key value) ∧ op ≠ .delete key

section Reach

variable {ε M : Type} [ExternalStateAccess ε]

/-- A write touches the column of its own key only. -/
theorem OverlayState.column_write {key key' : Bytes} (hne : key ≠ key') (value : Option Bytes)
    (s : OverlayState) : (s.write key' value).2.column key = s.column key := by
  unfold OverlayState.write
  split
  · rfl
  · split
    · rfl
    · exact Overlay.column_insert_of_ne _ _ hne

/-- An operation that avoids a key leaves its column. -/
theorem handle_column {key : Bytes} {op : ContextOp} (hop : op.Avoids key)
    (context : ExecutionContext OverlayState ε) :
    (ExecutionContext.handle op context).2.state.column key = context.state.column key := by
  obtain ⟨htransaction, hset, hdelete⟩ := hop
  cases op with
  | set key' value =>
    refine OverlayState.column_write (fun heq => ?_) _ _
    subst heq
    exact hset value rfl
  | delete key' =>
    refine OverlayState.column_write (fun heq => ?_) _ _
    subst heq
    exact hdelete rfl
  | beginTransaction | commitTransaction | rollbackTransaction => cases htransaction
  | stateView =>
    simp only [ExecutionContext.handle, ExecutionContext.onState, readStateView_state]
  | get | externalGet | sender | networkDomain | setOwnership | owner | controller
    | constrainValidUntil | transitionValidUntil => rfl

/-- A program whose operations avoid a key leaves the key's column alone. -/
theorem exec_column {α : Type} {key : Bytes} {program : DescriptorProgram M α}
    (h : Fallible.Calls (ContextOp.Avoids key) program) (memory : M)
    (context : ExecutionContext OverlayState ε) :
    (Fallible.exec ExecutionContext.handle program memory context).2.state.column key =
      context.state.column key :=
  (h memory).run_preserves (I := fun c : ExecutionContext OverlayState ε =>
    c.state.column key = context.state.column key)
    (fun _ c hop hc => (handle_column hop c).trans hc) rfl

variable {descriptor : JamScriptServiceDescriptorV2 M} {key : Bytes}

/-- A change of a forbidden key is refused. -/
theorem applyScriptChange_avoids (hkey : descriptor.applicationKeyAllowed key = false)
    (change : StateChangeV1) :
    Fallible.Calls (ContextOp.Avoids key) (applyScriptChange descriptor change) := by
  unfold applyScriptChange
  split
  case isTrue => exact .throw _
  case isFalse hallowed =>
    have hne : change.key ≠ key := by
      rintro rfl
      simp [hkey] at hallowed
    split
    · exact .ask ⟨rfl, fun value heq => hne (ContextOp.set.inj heq).1, nofun⟩ _
    · exact .ask ⟨rfl, nofun, fun heq => hne (ContextOp.delete.inj heq)⟩ _

theorem runScript_avoids (hkey : descriptor.applicationKeyAllowed key = false)
    (entry : ScriptEntry M) (payload authContext : Bytes) :
    Fallible.Calls (ContextOp.Avoids key) (runScript descriptor entry payload authContext) := by
  refine .bind (.ask ⟨rfl, nofun, nofun⟩ _) fun view => ?_
  refine .bind (.ofExcept _) fun stateView => ?_
  refine .bind (.remember _) fun output => ?_
  refine .bind (.ofExcept _) fun result => ?_
  cases result with
  | applied diff => exact .forM fun change _ => applyScriptChange_avoids hkey change
  | abort code => exact .throw _
  | needState key => exact .throw _
  | fatal code => exact .throw _

/-- Closing an open transaction succeeds, with the overlay operation it stands for. -/
theorem handle_close (context : ExecutionContext OverlayState ε)
    (hopen : context.state.transactions ≠ []) :
    (∃ p, context.state.toOverlay.commit = some p ∧
      ExecutionContext.handle .commitTransaction context =
        (.ok (), { context with state := context.state.withOverlay p })) ∧
    ∃ p, context.state.toOverlay.rollback = some p ∧
      ExecutionContext.handle .rollbackTransaction context =
        (.ok (), { context with state := context.state.withOverlay p }) := by
  obtain ⟨⟨p, hp⟩, ⟨q, hq⟩⟩ := Overlay.exists_close_of_ne_nil hopen
  refine ⟨⟨p, hp, ?_⟩, ⟨q, hq, ?_⟩⟩
  · simp only [ExecutionContext.handle, ExecutionContext.onState,
      ManagedStateAccess.commitTransaction, OverlayState.close, hp]
  · simp only [ExecutionContext.handle, ExecutionContext.onState,
      ManagedStateAccess.rollbackTransaction, OverlayState.close, hq]

/-- The body of a transaction ends inside it. -/
theorem column_in_transaction {program : DescriptorProgram M Unit}
    (hprogram : Fallible.Calls (ContextOp.Avoids key) program) (memory : M)
    (context : ExecutionContext OverlayState ε) :
    let ended := Fallible.exec ExecutionContext.handle program memory
      (ExecutionContext.handle .beginTransaction context).2
    ended.2.state.column key = none :: context.state.column key ∧
      ended.2.state.transactions ≠ [] := by
  intro ended
  have hcolumn : ended.2.state.column key = none :: context.state.column key :=
    (exec_column hprogram memory _).trans (Overlay.column_begin _ _)
  refine ⟨hcolumn, fun hnil => ?_⟩
  have hlength := congrArg List.length hcolumn
  rw [List.length_cons, Overlay.length_column, Overlay.length_column, hnil] at hlength
  simp at hlength

theorem inTransaction_column {program : DescriptorProgram M Unit}
    (hprogram : Fallible.Calls (ContextOp.Avoids key) program) (memory : M)
    (context : ExecutionContext OverlayState ε) :
    (Fallible.exec ExecutionContext.handle (inTransaction program) memory context).2.state.column
      key
      = context.state.column key := by
  obtain ⟨hcolumn, hopen⟩ := column_in_transaction hprogram memory context
  have hexec : Fallible.exec ExecutionContext.handle (inTransaction program) memory context =
      Fallible.exec ExecutionContext.handle (Fallible.attempt program closeScript) memory
        (ExecutionContext.handle .beginTransaction context).2 := rfl
  rw [hexec, Fallible.exec_attempt]
  generalize Fallible.exec ExecutionContext.handle program memory
    (ExecutionContext.handle .beginTransaction context).2 = ended at hcolumn hopen ⊢
  obtain ⟨⟨result, memory'⟩, inner⟩ := ended
  obtain ⟨⟨p, hp, hcommit⟩, ⟨q, hq, hrollback⟩⟩ := handle_close inner hopen
  cases result with
  | ok _ =>
    simp only [closeScript, Fallible.exec_ask, hcommit]
    exact Overlay.column_commit hp hcolumn
  | error error =>
    simp only [closeScript, Fallible.exec_bind, Fallible.exec_ask, hrollback, id,
      Fallible.exec_throw]
    exact (Overlay.column_rollback hq key).trans (congrArg List.tail hcolumn)

/-- The transaction of the script is closed however it ends. -/
theorem inTransaction_balanced {program : DescriptorProgram M Unit}
    (hprogram : Fallible.Calls (ContextOp.Avoids key) program) (memory : M)
    (context : ExecutionContext OverlayState ε) :
    Balanced (inTransaction program) memory context := by
  intro depth
  obtain ⟨-, hopen⟩ := column_in_transaction hprogram memory context
  have hbody : Balanced program memory (ExecutionContext.handle .beginTransaction context).2 :=
    .of_calls (hprogram.mono fun _ hop => hop.1)
  have hhistory : Fallible.history ExecutionContext.handle (inTransaction program) memory context =
      ⟨.beginTransaction, .ok ()⟩ :: Fallible.history ExecutionContext.handle
        (Fallible.attempt program closeScript) memory
        (ExecutionContext.handle .beginTransaction context).2 := rfl
  rw [hhistory, Fallible.history_attempt, nesting, List.foldl_cons]
  change nesting (some (depth + 1)) _ = _
  rw [nesting_append, hbody (depth + 1)]
  generalize Fallible.exec ExecutionContext.handle program memory
    (ExecutionContext.handle .beginTransaction context).2 = ended at hopen ⊢
  obtain ⟨⟨result, memory'⟩, inner⟩ := ended
  obtain ⟨⟨p, hp, hcommit⟩, ⟨q, hq, hrollback⟩⟩ := handle_close inner hopen
  cases result with
  | ok _ =>
    simp only [closeScript, Fallible.history_ask, hcommit]
    rfl
  | error error =>
    simp only [closeScript, Fallible.history_bind, Fallible.history_ask,
      Fallible.exec_ask, hrollback, id, Fallible.history_throw]
    rfl

/-- No script output changes a key it is not allowed to write. -/
theorem executeScriptc_column (hkey : descriptor.applicationKeyAllowed key = false)
    (action : JamScriptActionDescriptorV1 M) (payload authContext : Bytes) (memory : M)
    (context : ExecutionContext OverlayState ε) :
    (Fallible.exec ExecutionContext.handle (executeScriptc descriptor action payload authContext)
      memory context).2.state.column key = context.state.column key := by
  simp only [executeScriptc, Fallible.exec_bind, Fallible.exec_ofExcept]
  split
  · split
    · exact inTransaction_column (runScript_avoids hkey _ _ _) _ _
    · rfl
  · rfl

theorem executeScriptc_balanced (action : JamScriptActionDescriptorV1 M)
    (payload authContext : Bytes) (memory : M) (context : ExecutionContext OverlayState ε) :
    Balanced (executeScriptc descriptor action payload authContext) memory context := by
  refine .bind (.ofExcept _) fun entry memory context => ?_
  refine .bind (.ofExcept _) fun _ memory context => ?_
  -- the empty key is never allowed, so the script avoids it
  have hempty : descriptor.applicationKeyAllowed [] = false := rfl
  exact inTransaction_balanced (runScript_avoids hempty _ _ _) _ _

end Reach

end JamScript
