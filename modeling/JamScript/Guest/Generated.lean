import JamScript.Auth.Envelopes
import JamScript.Guest.Nonces

/-!
# The two applications of one service description

A script service reaches a guest in one of two forms: `jamscript-codegen-rust` writes a Rust
application for it, or it writes a descriptor that the prebuilt guest runtime interprets. Both are
linked against the same compiled script. `ServiceIr.generateScriptcApplication` is the program the
first form amounts to, `ServiceIr.generateServiceDescriptor` the descriptor of the second, and
`descriptorApplication` the runtime that reads it.

The two take the same steps, in a different order at three places: the prebuilt runtime checks its
descriptor first, looks up the selector before it decodes the envelope, and reads a stored empty
nonce as malformed. `applications_agree_iff` says that nothing else can tell them apart.
-/

namespace JamScript

open Codec Effects

/-! ## Service descriptions -/

inductive AuthKind where
  | wallet
  | «public»
  | ownership
  deriving DecidableEq, Repr

structure ActionIr where
  name : String
  auth : AuthKind
  deriving DecidableEq, Repr

structure StateIr where
  schema : String
  deriving DecidableEq, Repr

structure ServiceIr where
  states : List StateIr
  actions : List ActionIr
  deriving DecidableEq, Repr

/-- `str::as_bytes`. -/
def asBytes (text : String) : Bytes := text.toUTF8.data.toList

def actionDomain : Bytes := ascii "jamscript/action/v1:"

/-- The first eight bytes of a hash of the action's name. -/
def actionSelector (blake2_256 : Bytes → FixedBytes 32) (name : String) : FixedBytes 8 :=
  ⟨(blake2_256 (actionDomain ++ asBytes name)).toList.take 8, by simp⟩

/-- The compiled script: `jamscript_scriptc_service_init` and one entry symbol for each action
name. -/
structure LinkedScript (M : Type) where
  serviceInit : M → M
  entry : String → ScriptEntry M

/-- What both generators are given besides the description. -/
structure ArtifactBuildContext (M : Type) where
  crypto : CryptoLibrary
  script : LinkedScript M
  serviceKey : FixedBytes 32

namespace ServiceIr

variable {M : Type} (ir : ServiceIr) (build : ArtifactBuildContext M)

def walletOnly : Bool := ir.actions.all (·.auth = .wallet)

def ownershipOnly : Bool := ir.actions.all (·.auth = .ownership)

def singlePublic : Bool :=
  match ir.actions with
  | [action] => action.auth = .public
  | _ => false

/-! ## The generated application -/

/-- The first arm of a generated `match` on selectors that applies. -/
def matchSelector (selector : FixedBytes 8) : Option ActionIr :=
  ir.actions.find? fun action => actionSelector build.crypto.blake2_256 action.name = selector

/-- `application_key_allowed`, with one comparison for each state of the description. -/
def applicationKeyAllowed (key : Bytes) : Bool :=
  match key with
  | keyClass :: low :: high :: rest =>
    let namespaceLen := (u16OfLe [low, high]).toNat
    keyClass == applicationKeyClassV1 && decide (namespaceLen ≤ rest.length) &&
      ir.states.any fun state => asBytes state.schema == rest.take namespaceLen
  | _ => false

/-- One change of a script, applied to the managed state. -/
def applyScriptChange (change : StateChangeV1) : DescriptorProgram M Unit :=
  if ¬ ir.applicationKeyAllowed change.key then throw .reservedKey
  else
    match change.value with
    | some value => Fallible.ask (.set change.key value) id
    | none => Fallible.ask (.delete change.key) id

def applyScriptResult (result : ScriptActionResultV1) : DescriptorProgram M Unit :=
  match result with
  | .applied diff => diff.changes.forM ir.applyScriptChange
  | .abort code => throw (.applicationFailed code)
  | .needState key => throw (.needState key)
  | .fatal code => throw (.applicationFailed code)

/-- The part of `execute_scriptc` that runs inside the script's transaction. -/
def runScript (selector : FixedBytes 8) (payload authContext : Bytes) :
    DescriptorProgram M Unit := do
  let view ← Fallible.ask .stateView id
  let stateView ← Fallible.ofExcept (view.encode.mapError fun _ => StateAccessError.backend)
  Fallible.remember fun memory => ((), build.script.serviceInit memory)
  let output ← (match ir.matchSelector build selector with
    | some action => Fallible.remember (build.script.entry action.name payload
      authContext stateView)
    | none => throw (rejectedWith .unknownAction) : DescriptorProgram M (CSlice UInt8))
  let result ← Fallible.ofExcept (decodeScriptOutput output)
  ir.applyScriptResult result

def executeScriptc (selector : FixedBytes 8) (payload authContext : Bytes) :
    DescriptorProgram M Unit :=
  inTransaction (ir.runScript build selector payload authContext)

end ServiceIr

/-- The generated `match` on the stored nonce; a missing value is read as an empty one. -/
def parseNonceBytes (value : Option Bytes) : Option UInt64 :=
  match value.getD [] with
  | [] => some 0
  | bytes => if bytes.length = 8 then some (u64OfLe bytes) else none

def readNonceBytes {M : Type} (key : Bytes) : DescriptorProgram M UInt64 := do
  let value ← Fallible.ask (.get key) id
  match parseNonceBytes value with
  | some nonce => pure nonce
  | none => throw .backend

namespace ServiceIr

variable {M : Type} (ir : ServiceIr) (build : ArtifactBuildContext M)

/-- The body of `execute` for a service of wallet actions. -/
def executeWallet (rawAction : Bytes) : DescriptorProgram M Unit := do
  let signed ← Fallible.ofExcept ((decodeSignedActionV1 rawAction).mapError rejectedWith)
  Fallible.ofExcept (ensure (ir.matchSelector build signed.actionSelector).isSome
    (rejectedWith .unknownAction))
  let networkDomain ← Fallible.tell .networkDomain id
  let verified ← Fallible.ofExcept ((build.crypto.verifySignedActionV1 signed networkDomain
    build.serviceKey signed.actionSelector).mapError rejectedWith)
  let key := nonceKey verified.sender
  let expectedNonce ← readNonceBytes key
  Fallible.ofExcept (ensure (verified.nonce = expectedNonce) (rejectedWith .nonceMismatch))
  consumeNonce key expectedNonce verified.validUntil
  ir.executeScriptc build signed.actionSelector verified.payload verified.sender.toList

/-- The body of `execute` for a service of ownership actions. -/
def executeOwnership (rawAction : Bytes) : DescriptorProgram M Unit := do
  let signed ← Fallible.ofExcept ((decodeSignedActionV2 rawAction).mapError rejectedWith)
  Fallible.ofExcept (ensure (ir.matchSelector build signed.actionSelector).isSome
    (rejectedWith .unknownAction))
  Fallible.ofExcept (ensure (signed.actAs = none) (rejectedWith .actAsUnsupported))
  let key ← Fallible.ofExcept
    ((ownershipNonceKey build.crypto.blake2_256 signed.controller).mapError
    fun _ => StateAccessError.backend)
  let expectedNonce ← readNonceBytes key
  let networkDomain ← Fallible.tell .networkDomain id
  let verified ← Fallible.ofExcept ((build.crypto.verifySignedActionV2 signed networkDomain
    build.serviceKey signed.actionSelector (some expectedNonce)).mapError rejectedWith)
  Fallible.tell (.setOwnership verified.owner verified.controller) id
  consumeNonce key expectedNonce verified.validUntil
  let authContext ← Fallible.ofExcept (encodeAuthContext verified.owner verified.controller)
  ir.executeScriptc build signed.actionSelector verified.payload authContext

/-- The body of `execute` for a service of one public action. -/
def executePublic (action : ActionIr) (rawAction : Bytes) : DescriptorProgram M Unit :=
  ir.executeScriptc build (actionSelector build.crypto.blake2_256 action.name) rawAction []

/-- `generate_scriptc_application_rust`. -/
def generateScriptcApplication : Except String (ServiceApplication M) :=
  match ir.actions with
  | [] => .error "IR contains no action"
  | first :: _ =>
    if ¬ ir.walletOnly ∧ ¬ ir.ownershipOnly ∧ ¬ ir.singlePublic then
      .error ("ScriptC currently requires wallet-only actions, ownership-only actions, " ++
        "or one public action")
    else if ir.walletOnly then .ok (ir.executeWallet build)
    else if ir.ownershipOnly then .ok (ir.executeOwnership build)
    else .ok (ir.executePublic build first)

/-! ## The generated descriptor -/

/-- The constants of `jam/service-descriptor-v2.h`. -/
def authConstant : AuthKind → UInt8
  | .public => authPublic
  | .wallet => authWallet
  | .ownership => authOwnership

def describeAction (action : ActionIr) : JamScriptActionDescriptorV1 M where
  selector := actionSelector build.crypto.blake2_256 action.name
  authKind := authConstant action.auth
  entry := some (build.script.entry action.name)

/-- The C object of the description. -/
def serviceDescriptor : JamScriptServiceDescriptorV2 M where
  version := descriptorVersion
  actions := .data (ir.actions.map (describeAction build))
  namespaces :=
    if ir.states = [] then .null 0
    else .data (ir.states.map fun state => .data (asBytes state.schema))
  serviceKey := build.serviceKey
  init := some build.script.serviceInit

/-- `generate_service_descriptor_c`. -/
def generateServiceDescriptor : Except String (JamScriptServiceDescriptorV2 M) :=
  if ir.actions = [] then .error "service descriptor requires at least one action"
  else .ok (ir.serviceDescriptor build)

/-! ### The descriptor as the runtime reads it -/

/-- The tables of the descriptor fit the bounds of the prebuilt runtime. -/
def WithinLimits : Prop :=
  ir.actions.length ≤ maxDescriptorActions ∧ ir.states.length ≤ maxDescriptorNamespaces ∧
    ∀ state ∈ ir.states, (asBytes state.schema).length ≤ maxDescriptorNamespaceBytes

theorem namespaces_serviceDescriptor :
    (ir.serviceDescriptor build).namespaces.items =
        ir.states.map (fun state => CSlice.data (asBytes state.schema)) ∧
      (ir.serviceDescriptor build).namespaces.count = ir.states.length ∧
      (ir.serviceDescriptor build).namespaces.isNull = decide (ir.states = []) := by
  unfold serviceDescriptor
  by_cases hstates : ir.states = []
  · simp [hstates, CSlice.items, CSlice.count, CSlice.isNull]
  · simp [hstates, CSlice.items, CSlice.count, CSlice.isNull]

theorem authConstant_le (auth : AuthKind) : authConstant auth ≤ authOwnership := by
  cases auth <;> decide

theorem check_serviceDescriptor (hactions : ir.actions ≠ []) :
    (ir.serviceDescriptor build).check = .ok () ↔ ir.WithinLimits := by
  obtain ⟨hitems, hcount, hnull⟩ := ir.namespaces_serviceDescriptor build
  have hentries : (∀ entry ∈ (ir.serviceDescriptor build).namespaces.items,
      ¬ entry.isNull ∧ entry.count ≤ maxDescriptorNamespaceBytes) ↔
      ∀ state ∈ ir.states, (asBytes state.schema).length ≤ maxDescriptorNamespaceBytes := by
    rw [hitems, List.forall_mem_map]
    simp [CSlice.isNull, CSlice.count]
  have hkinds : ∀ action ∈ (ir.serviceDescriptor build).actions.items,
      action.authKind ≤ authOwnership ∧ action.entry.isSome := by
    intro action haction
    obtain ⟨source, _, rfl⟩ := List.mem_map.mp haction
    exact ⟨authConstant_le source.auth, rfl⟩
  have htables : ((ir.serviceDescriptor build).version = descriptorVersion ∧
      (ir.serviceDescriptor build).actions.count ≠ 0 ∧
      (ir.serviceDescriptor build).actions.count ≤ maxDescriptorActions ∧
      ¬ (ir.serviceDescriptor build).actions.isNull ∧
      (ir.serviceDescriptor build).namespaces.count ≤ maxDescriptorNamespaces ∧
      ((ir.serviceDescriptor build).namespaces.count ≠ 0 →
        ¬ (ir.serviceDescriptor build).namespaces.isNull)) ↔
      ir.actions.length ≤ maxDescriptorActions ∧ ir.states.length ≤ maxDescriptorNamespaces := by
    rw [hcount, hnull]
    simp [serviceDescriptor, CSlice.count, CSlice.isNull, hactions]
  unfold JamScriptServiceDescriptorV2.check WithinLimits
  simp only [bind_eq_ok, ensure_eq_ok]
  rw [hentries, htables]
  constructor
  · rintro ⟨_, htables, _, _, hentries⟩
    exact ⟨htables.1, htables.2, hentries⟩
  · rintro ⟨hcount, hstates, hentries⟩
    exact ⟨(), ⟨hcount, hstates⟩, (), hkinds, hentries⟩

theorem applicationKeyAllowed_serviceDescriptor (key : Bytes) :
    (ir.serviceDescriptor build).applicationKeyAllowed key = ir.applicationKeyAllowed key := by
  match key with
  | [] | [_] | [_, _] => rfl
  | keyClass :: low :: high :: rest =>
    simp only [JamScriptServiceDescriptorV2.applicationKeyAllowed, applicationKeyAllowed,
      (ir.namespaces_serviceDescriptor build).1, List.any_map]
    rfl

theorem applyScriptResult_serviceDescriptor :
    JamScript.applyScriptResult (ir.serviceDescriptor build) = ir.applyScriptResult := by
  have hchange : JamScript.applyScriptChange (ir.serviceDescriptor build) =
    ir.applyScriptChange := by
    funext change
    unfold JamScript.applyScriptChange applyScriptChange
    rewrite [applicationKeyAllowed_serviceDescriptor]
    rfl
  funext result
  cases result with
  | applied diff => exact congrArg (List.forM diff.changes) hchange
  | abort code | needState key | fatal code => rfl

variable {ir build} {selector : FixedBytes 8} {action : ActionIr}

theorem selector_of_matchSelector (hmatch : ir.matchSelector build selector = some action) :
    (describeAction build action).selector = selector := by
  have hselector := List.find?_some hmatch
  exact of_decide_eq_true hselector

theorem findAction_serviceDescriptor (selector : FixedBytes 8) :
    (ir.serviceDescriptor build).findAction selector =
      match ir.matchSelector build selector with
      | some action => .ok (describeAction build action)
      | none => .error (rejectedWith .unknownAction) := by
  have hfind : (ir.serviceDescriptor build).actions.items.find? (·.selector = selector) =
      (ir.matchSelector build selector).map (describeAction build) :=
    List.find?_map ..
  unfold JamScriptServiceDescriptorV2.findAction
  rw [hfind]
  cases ir.matchSelector build selector <;> rfl

/-- The two applications run the script of a known selector alike. -/
theorem executeScriptc_serviceDescriptor (hcheck : (ir.serviceDescriptor build).check = .ok ())
    (hmatch : ir.matchSelector build selector = some action) (payload authContext : Bytes) :
    JamScript.executeScriptc (ir.serviceDescriptor build) (describeAction build action) payload
      authContext = ir.executeScriptc build selector payload authContext := by
  have hrun : JamScript.runScript (ir.serviceDescriptor build)
    (build.script.entry action.name) payload
      authContext = ir.runScript build selector payload authContext := by
    unfold JamScript.runScript runScript
    rw [hmatch, applyScriptResult_serviceDescriptor]
    rfl
  unfold JamScript.executeScriptc executeScriptc
  rw [hcheck, ← hrun]
  rfl

/-! ## Looking up the action

The prebuilt runtime takes the selector from fixed positions of the raw action and then decodes it;
the generated application decodes first.
-/

/-- The action the prebuilt runtime finds for a raw action of a service with signed actions. -/
def lookUp (ir : ServiceIr) (build : ArtifactBuildContext M) (rawAction : Bytes) :
    Except StateAccessError ActionIr := do
  let selector ← JamScriptServiceDescriptorV2.signedSelector rawAction
  match ir.matchSelector build selector with
  | some action => pure action
  | none => throw (rejectedWith .unknownAction)

theorem lookUp_of_selector {rawAction : Bytes} {selector : FixedBytes 8}
    (h : (rawAction.drop 65).take 8 = selector.toList) :
    ir.lookUp build rawAction =
      match ir.matchSelector build selector with
      | some action => .ok action
      | none => .error (rejectedWith .unknownAction) := by
  have hlength : selector.toList.length = 8 := selector.toList_length
  have hselector : JamScriptServiceDescriptorV2.signedSelector rawAction = .ok selector := by
    unfold JamScriptServiceDescriptorV2.signedSelector tryIntoArray
    rw [h, dif_pos hlength]
    rfl
  unfold lookUp
  rw [hselector]
  cases hmatch : ir.matchSelector build selector <;> simp only [Bind.bind, Except.bind, hmatch] <;>
    rfl

theorem publicSelector_serviceDescriptor (hsigned : ir.walletOnly ∨ ir.ownershipOnly) :
    (ir.serviceDescriptor build).publicSelector = none := by
  unfold JamScriptServiceDescriptorV2.publicSelector serviceDescriptor
  simp only [CSlice.items]
  match hactions : ir.actions with
  | [] => rfl
  | [action] =>
    have hauth : action.auth = .wallet ∨ action.auth = .ownership := by
      simpa [walletOnly, ownershipOnly, hactions] using hsigned
    rcases hauth with hauth | hauth <;> simp [describeAction, hauth, authConstant] <;> decide
  | _ :: _ :: _ => rfl

theorem resolveAction_serviceDescriptor (hcheck : (ir.serviceDescriptor build).check = .ok ())
    (hsigned : ir.walletOnly ∨ ir.ownershipOnly) (rawAction : Bytes) :
    (ir.serviceDescriptor build).resolveAction rawAction =
      (ir.lookUp build rawAction).map (describeAction build) := by
  unfold JamScriptServiceDescriptorV2.resolveAction lookUp
  rw [hcheck, publicSelector_serviceDescriptor hsigned]
  change (JamScriptServiceDescriptorV2.signedSelector rawAction >>= _) = _
  cases JamScriptServiceDescriptorV2.signedSelector rawAction with
  | error error => rfl
  | ok selector =>
    change (ir.serviceDescriptor build).findAction selector = _
    rw [findAction_serviceDescriptor]
    change _ = Except.map _ (match ir.matchSelector build selector with
      | some action => .ok action
      | none => .error (rejectedWith .unknownAction))
    cases ir.matchSelector build selector <;> rfl

/-- The prebuilt runtime on a descriptor within the limits, past the look-up. -/
theorem descriptorApplication_serviceDescriptor
    (hcheck : (ir.serviceDescriptor build).check = .ok ())
    (hsigned : ir.walletOnly ∨ ir.ownershipOnly) (rawAction : Bytes) :
    descriptorApplication build.crypto (ir.serviceDescriptor build) rawAction =
      Fallible.ofExcept (ir.lookUp build rawAction) >>= fun action =>
        authenticate build.crypto (ir.serviceDescriptor build)
          (describeAction build action) rawAction
          >>= fun authenticated => JamScript.executeScriptc (ir.serviceDescriptor build)
            (describeAction build action) authenticated.1 authenticated.2 := by
  unfold descriptorApplication
  rw [resolveAction_serviceDescriptor hcheck hsigned]
  cases ir.lookUp build rawAction <;> rfl

end ServiceIr

/-! ## Stored nonces -/

theorem parseNonceBytes_eq {value : Option Bytes} (h : value ≠ some []) :
    parseNonceBytes value = parseNonce value := by
  match value with
  | none => rfl
  | some [] => exact absurd rfl h
  | some (byte :: bytes) => rfl

section Nonces

variable {ε M α : Type} [ExternalStateAccess ε] {key : Bytes} {memory : M}
  {context : ExecutionContext OverlayState ε}

/-- The two readers of a nonce differ on a stored empty value only. -/
theorem sameRun_readNonce (h : context.state.get key ≠ .ok (some []))
    (f : UInt64 → DescriptorProgram M α) :
    Fallible.SameRun ExecutionContext.handle (readNonceBytes key >>= f) (readNonce key >>= f) memory
      context := by
  unfold readNonceBytes readNonce
  rw [bind_assoc, bind_assoc]
  refine Fallible.SameRun.bind fun value hvalue => .of_eq ?_
  have hne : value ≠ some [] := by
    rintro rfl
    exact h hvalue
  rewrite [parseNonceBytes_eq hne]
  rfl

theorem exec_readNonceBytes_empty (h : context.state.get key = .ok (some [])) :
    Fallible.exec ExecutionContext.handle (readNonceBytes key) memory context =
      ((.ok 0, memory), context) := by
  unfold readNonceBytes
  rw [Fallible.exec_bind, Fallible.exec_ask, handle_get, h]
  rfl

theorem exec_readNonce_empty (h : context.state.get key = .ok (some [])) :
    Fallible.exec ExecutionContext.handle (readNonce key) memory context =
      ((.error .backend, memory), context) := by
  unfold readNonce
  rw [Fallible.exec_bind, Fallible.exec_ask, handle_get, h]
  rfl

end Nonces

/-! ## Past the look-up

From here on the two applications differ only in how they read a nonce.
-/

namespace ServiceIr

variable {M : Type} (ir : ServiceIr) (build : ArtifactBuildContext M)
  (read : Bytes → DescriptorProgram M UInt64)

/-- The steps for a decoded wallet action of a known selector, by the reader of the nonce. -/
def walletSteps (signed : SignedActionV1View) : DescriptorProgram M Unit := do
  let networkDomain ← Fallible.tell .networkDomain id
  let verified ← Fallible.ofExcept ((build.crypto.verifySignedActionV1 signed networkDomain
    build.serviceKey signed.actionSelector).mapError rejectedWith)
  let expectedNonce ← read (nonceKey verified.sender)
  Fallible.ofExcept (ensure (verified.nonce = expectedNonce) (rejectedWith .nonceMismatch))
  consumeNonce (nonceKey verified.sender) expectedNonce verified.validUntil
  ir.executeScriptc build signed.actionSelector verified.payload verified.sender.toList

/-- The steps for a decoded ownership action of a known selector, by the reader of the nonce. -/
def ownershipSteps (signed : SignedActionV2View) (key : Bytes) : DescriptorProgram M Unit := do
  let expectedNonce ← read key
  let networkDomain ← Fallible.tell .networkDomain id
  let verified ← Fallible.ofExcept ((build.crypto.verifySignedActionV2 signed networkDomain
    build.serviceKey signed.actionSelector (some expectedNonce)).mapError rejectedWith)
  Fallible.tell (.setOwnership verified.owner verified.controller) id
  consumeNonce key expectedNonce verified.validUntil
  let authContext ← Fallible.ofExcept (encodeAuthContext verified.owner verified.controller)
  ir.executeScriptc build signed.actionSelector verified.payload authContext

variable {ir build} {rawAction : Bytes} {action : ActionIr}

theorem executeWallet_error {error : RuntimeError}
    (hdecode : decodeSignedActionV1 rawAction = .error error) :
    ir.executeWallet build rawAction = throw (rejectedWith error) := by
  unfold executeWallet
  rw [hdecode]
  rfl

theorem executeWallet_unknown {signed : SignedActionV1View}
    (hdecode : decodeSignedActionV1 rawAction = .ok signed)
    (hmatch : ir.matchSelector build signed.actionSelector = none) :
    ir.executeWallet build rawAction = throw (rejectedWith .unknownAction) := by
  unfold executeWallet
  rw [hdecode]
  change Fallible.ofExcept (ensure (ir.matchSelector build signed.actionSelector).isSome _) >>= _ =
    _
  rw [hmatch]
  rfl

theorem executeWallet_known {signed : SignedActionV1View}
    (hdecode : decodeSignedActionV1 rawAction = .ok signed)
    (hmatch : ir.matchSelector build signed.actionSelector = some action) :
    ir.executeWallet build rawAction = ir.walletSteps build readNonceBytes signed := by
  unfold executeWallet
  rw [hdecode]
  change Fallible.ofExcept (ensure (ir.matchSelector build signed.actionSelector).isSome _) >>= _ =
    _
  rw [hmatch]
  rfl

theorem auth_of_lookUp {auth : AuthKind} (hauth : ir.actions.all (·.auth = auth))
    (hlookUp : ir.lookUp build rawAction = .ok action) : action.auth = auth := by
  obtain ⟨selector, _, hlookUp⟩ := bind_eq_ok.mp hlookUp
  cases hmatch : ir.matchSelector build selector with
  | none =>
    rw [hmatch] at hlookUp
    cases hlookUp
  | some found =>
    rw [hmatch] at hlookUp
    cases hlookUp
    exact of_decide_eq_true (List.all_eq_true.mp hauth _ (List.mem_of_find?_eq_some hmatch))

theorem authenticate_wallet (hauth : action.auth = .wallet) :
    authenticate build.crypto (ir.serviceDescriptor build) (describeAction build action) rawAction =
      authenticateWallet build.crypto (ir.serviceDescriptor build) (describeAction build action)
        rawAction := by
  unfold authenticate
  simp only [describeAction, hauth, authConstant]
  rfl

theorem descriptorWallet_error (hcheck : (ir.serviceDescriptor build).check = .ok ())
    (hwallet : ir.walletOnly) {error : RuntimeError}
    (hdecode : decodeSignedActionV1 rawAction = .error error) :
    descriptorApplication build.crypto (ir.serviceDescriptor build) rawAction =
      Fallible.ofExcept (ir.lookUp build rawAction) >>= fun _ => throw (rejectedWith error) := by
  rw [descriptorApplication_serviceDescriptor hcheck (.inl hwallet)]
  cases hlookUp : ir.lookUp build rawAction with
  | error e => rfl
  | ok action =>
    change authenticate build.crypto (ir.serviceDescriptor build)
      (describeAction build action) rawAction >>= _ = throw (rejectedWith error)
    rw [authenticate_wallet (auth_of_lookUp hwallet hlookUp), authenticateWallet, hdecode]
    rfl

theorem descriptorWallet_known (hcheck : (ir.serviceDescriptor build).check = .ok ())
    (hwallet : ir.walletOnly) {signed : SignedActionV1View}
    (hdecode : decodeSignedActionV1 rawAction = .ok signed)
    (hmatch : ir.matchSelector build signed.actionSelector = some action) :
    descriptorApplication build.crypto (ir.serviceDescriptor build) rawAction =
      ir.walletSteps build readNonce signed := by
  have hlookUp : ir.lookUp build rawAction = _ :=
    lookUp_of_selector (decodeSignedActionV1_selector hdecode)
  rw [hmatch] at hlookUp
  have hselector := selector_of_matchSelector hmatch
  rw [descriptorApplication_serviceDescriptor hcheck (.inl hwallet), hlookUp]
  change authenticate build.crypto (ir.serviceDescriptor build)
    (describeAction build action) rawAction >>= _ = _
  rw [authenticate_wallet (auth_of_lookUp hwallet hlookUp), authenticateWallet, hdecode, hselector]
  simp only [executeScriptc_serviceDescriptor hcheck hmatch, bind_assoc, pure_bind]
  rfl

theorem executeOwnership_error {error : RuntimeError}
    (hdecode : decodeSignedActionV2 rawAction = .error error) :
    ir.executeOwnership build rawAction = throw (rejectedWith error) := by
  unfold executeOwnership
  rw [hdecode]
  rfl

theorem executeOwnership_unknown {signed : SignedActionV2View}
    (hdecode : decodeSignedActionV2 rawAction = .ok signed)
    (hmatch : ir.matchSelector build signed.actionSelector = none) :
    ir.executeOwnership build rawAction = throw (rejectedWith .unknownAction) := by
  unfold executeOwnership
  rw [hdecode]
  change Fallible.ofExcept (ensure (ir.matchSelector build signed.actionSelector).isSome _) >>= _ =
    _
  rw [hmatch]
  rfl

/-- An action on behalf of another owner is refused; for any other the nonce key can be computed. -/
theorem executeOwnership_known {signed : SignedActionV2View}
    (hdecode : decodeSignedActionV2 rawAction = .ok signed)
    (hmatch : ir.matchSelector build signed.actionSelector = some action) {key : Bytes}
    (hkey : ownershipNonceKey build.crypto.blake2_256 signed.controller = .ok key) :
    ir.executeOwnership build rawAction =
      Fallible.ofExcept (ensure (signed.actAs = none) (rejectedWith .actAsUnsupported)) >>=
        fun _ => ir.ownershipSteps build readNonceBytes signed key := by
  unfold executeOwnership
  rw [hdecode]
  change Fallible.ofExcept (ensure (ir.matchSelector build signed.actionSelector).isSome _) >>= _ =
    _
  rw [hmatch]
  change Fallible.ofExcept (ensure (signed.actAs = none) _) >>= _ = _
  rw [hkey]
  rfl

theorem authenticate_ownership (hauth : action.auth = .ownership) :
    authenticate build.crypto (ir.serviceDescriptor build) (describeAction build action) rawAction =
      authenticateOwnership build.crypto (ir.serviceDescriptor build) (describeAction build action)
        rawAction := by
  unfold authenticate
  simp only [describeAction, hauth, authConstant]
  rfl

theorem descriptorOwnership_error (hcheck : (ir.serviceDescriptor build).check = .ok ())
    (hownership : ir.ownershipOnly) {error : RuntimeError}
    (hdecode : decodeSignedActionV2 rawAction = .error error) :
    descriptorApplication build.crypto (ir.serviceDescriptor build) rawAction =
      Fallible.ofExcept (ir.lookUp build rawAction) >>= fun _ => throw (rejectedWith error) := by
  rw [descriptorApplication_serviceDescriptor hcheck (.inr hownership)]
  cases hlookUp : ir.lookUp build rawAction with
  | error e => rfl
  | ok action =>
    change authenticate build.crypto (ir.serviceDescriptor build)
      (describeAction build action) rawAction >>= _ = throw (rejectedWith error)
    rw [authenticate_ownership (auth_of_lookUp hownership hlookUp), authenticateOwnership, hdecode]
    rfl

theorem descriptorOwnership_known (hcheck : (ir.serviceDescriptor build).check = .ok ())
    (hownership : ir.ownershipOnly) {signed : SignedActionV2View}
    (hdecode : decodeSignedActionV2 rawAction = .ok signed)
    (hmatch : ir.matchSelector build signed.actionSelector = some action) {key : Bytes}
    (hkey : ownershipNonceKey build.crypto.blake2_256 signed.controller = .ok key) :
    descriptorApplication build.crypto (ir.serviceDescriptor build) rawAction =
      Fallible.ofExcept (ensure (signed.actAs = none) (rejectedWith .actAsUnsupported)) >>=
        fun _ => ir.ownershipSteps build readNonce signed key := by
  have hlookUp : ir.lookUp build rawAction = _ :=
    lookUp_of_selector (decodeSignedActionV2_selector hdecode).1
  rw [hmatch] at hlookUp
  have hselector := selector_of_matchSelector hmatch
  rw [descriptorApplication_serviceDescriptor hcheck (.inr hownership), hlookUp]
  change authenticate build.crypto (ir.serviceDescriptor build)
    (describeAction build action) rawAction >>= _ = _
  rw [authenticate_ownership (auth_of_lookUp hownership hlookUp), authenticateOwnership, hdecode,
    hselector]
  simp only [executeScriptc_serviceDescriptor hcheck hmatch, bind_assoc, pure_bind]
  change Fallible.ofExcept (ensure (signed.actAs = none) _) >>= _ = _
  rw [hkey]
  rfl

/-- A public action is looked up by its own selector. -/
theorem descriptorPublic (hcheck : (ir.serviceDescriptor build).check = .ok ())
    (hactions : ir.actions = [action]) (hauth : action.auth = .public) :
    descriptorApplication build.crypto (ir.serviceDescriptor build) rawAction =
      ir.executePublic build action rawAction := by
  have hmatch : ir.matchSelector build (actionSelector build.crypto.blake2_256 action.name) =
      some action := by
    simp [matchSelector, hactions]
  have hpublic : (ir.serviceDescriptor build).publicSelector =
      some (actionSelector build.crypto.blake2_256 action.name) := by
    unfold JamScriptServiceDescriptorV2.publicSelector serviceDescriptor
    simp [CSlice.items, hactions, describeAction, hauth, authConstant]
  have hresolve : (ir.serviceDescriptor build).resolveAction rawAction =
      .ok (describeAction build action) := by
    unfold JamScriptServiceDescriptorV2.resolveAction
    rw [hcheck, hpublic]
    change (ir.serviceDescriptor build).findAction _ = _
    rw [findAction_serviceDescriptor, hmatch]
  have hauthenticate : authenticate build.crypto (ir.serviceDescriptor build)
      (describeAction build action) rawAction = pure (rawAction, []) := by
    unfold authenticate
    simp only [describeAction, hauth, authConstant, serviceDescriptor, hactions]
    rfl
  unfold descriptorApplication executePublic
  rw [hresolve]
  change authenticate build.crypto (ir.serviceDescriptor build)
    (describeAction build action) rawAction >>= _ = _
  rw [hauthenticate, ← executeScriptc_serviceDescriptor hcheck hmatch]
  rfl

end ServiceIr

/-! ## What can be compared -/

/-- The operations that read managed state, of this service or of another one. -/
def ContextOp.isRead : ContextOp → Bool
  | .get _ | .externalGet _ _ | .stateView => true
  | _ => false

section Comparison

variable {ε M : Type} [ExternalStateAccess ε] {memory : M}
  {context : ExecutionContext OverlayState ε} {p q : DescriptorProgram M Unit}

/-- The reads of a run, in order, with their answers. -/
def readsOf (program : DescriptorProgram M Unit) (memory : M)
    (context : ExecutionContext OverlayState ε) : List (Event contextSignature) :=
  (Fallible.history ExecutionContext.handle program memory context).filter (·.1.isRead)

/-- The programs return the same result, perform the same reads, and leave the same memory and the
same context behind: state, validity limit and ownership. -/
structure Indistinguishable (p q : DescriptorProgram M Unit) (memory : M)
    (context : ExecutionContext OverlayState ε) : Prop where
  ends : Fallible.exec ExecutionContext.handle p memory context =
    Fallible.exec ExecutionContext.handle q memory context
  reads : readsOf p memory context = readsOf q memory context

theorem Indistinguishable.of_sameRun
    (h : Fallible.SameRun ExecutionContext.handle p q memory context) :
    Indistinguishable p q memory context :=
  ⟨h.exec, congrArg (List.filter _) h.history⟩

theorem Indistinguishable.result (h : Indistinguishable p q memory context) :
    (Fallible.exec ExecutionContext.handle p memory context).1.1 =
      (Fallible.exec ExecutionContext.handle q memory context).1.1 :=
  congrArg (·.1.1) h.ends

theorem readsOf_ne_nil {event : Event contextSignature} (hread : event.1.isRead = true)
    (hmem : event ∈ Fallible.history ExecutionContext.handle p memory context) :
    readsOf p memory context ≠ [] :=
  List.ne_nil_of_mem (List.mem_filter.mpr ⟨hmem, hread⟩)

/-- A program that ends without reading is told apart from one that fails otherwise or reads. -/
theorem not_indistinguishable_of_reads (hq : q = throw .backend)
    (hp : (Fallible.exec ExecutionContext.handle p memory context).1.1 = .error .backend →
      readsOf p memory context ≠ []) : ¬ Indistinguishable p q memory context := by
  subst hq
  intro hsame
  exact hp hsame.result hsame.reads

/-- The nonce that follows a nonce of zero is stored under the key. -/
def FirstNonceStored (key : Bytes) (context : ExecutionContext OverlayState ε) : Prop :=
  context.state.toOverlay.lookup key = some (some (u64ToLe 1))

/-- One program takes a stored empty nonce for malformed, the other uses it up. -/
theorem not_indistinguishable_of_stored {key : Bytes}
    (hempty : context.state.get key = .ok (some []))
    (hp : Fallible.wp ExecutionContext.handle p (fun _ _ => FirstNonceStored key)
      (fun error _ after => error ≠ .backend ∨ FirstNonceStored key after) memory context)
    (hq : Fallible.exec ExecutionContext.handle q memory context =
      ((.error .backend, memory), context)) : ¬ Indistinguishable p q memory context := by
  intro hsame
  have hends := hsame.ends.trans hq
  rw [Fallible.wp_iff, hends] at hp
  rcases hp.2 .backend rfl with hne | hstored
  · exact hne rfl
  · unfold OverlayState.get at hempty
    rw [hstored] at hempty
    cases hempty

theorem wp_consumeNonce_zero {post : Unit → M → ExecutionContext OverlayState ε → Prop}
    {fail : StateAccessError → M → ExecutionContext OverlayState ε → Prop} {key : Bytes}
    {validUntil : UInt64} {value : Option Bytes} (hhead : key.head? = some runtimeKeyClassV1)
    (hread : context.state.get key = .ok value)
    (hpost : ∀ after, FirstNonceStored key after → post () memory after) :
    Fallible.wp ExecutionContext.handle (consumeNonce key 0 validUntil) post fail
      memory context := by
  have hset : ExecutionContext.handle (.set key (u64ToLe (0 + 1)))
      (ExecutionContext.handle (.constrainValidUntil validUntil) context).2 = _ :=
    handle_set_eq (isReserved_of_head hhead) hread
  unfold consumeNonce
  rw [Fallible.wp_bind, Fallible.wp_tell, if_pos (by decide), Fallible.wp_ask, hset]
  exact hpost _ (Overlay.lookup_insert_self _ key _)

end Comparison

namespace ServiceIr

section Steps

variable {ε M : Type} [ExternalStateAccess ε] {memory : M}
  {context : ExecutionContext OverlayState ε}
  {ir : ServiceIr} {build : ArtifactBuildContext M} {action : ActionIr} {key : Bytes}

/-- A script does not reach the nonces. -/
theorem wp_executeScriptc_stored (hcheck : (ir.serviceDescriptor build).check = .ok ())
    {selector : FixedBytes 8} (hmatch : ir.matchSelector build selector = some action)
    (hhead : key.head? = some runtimeKeyClassV1) (payload authContext : Bytes)
    (hstored : FirstNonceStored key context) :
    Fallible.wp ExecutionContext.handle (ir.executeScriptc build selector payload authContext)
      (fun _ _ => FirstNonceStored key)
      (fun error _ after => error ≠ .backend ∨ FirstNonceStored key after) memory context := by
  rw [← executeScriptc_serviceDescriptor hcheck hmatch]
  have hcolumn := executeScriptc_column
    (applicationKeyAllowed_of_head (ir.serviceDescriptor build) hhead) (describeAction build action)
    payload authContext memory context
  have hafter : FirstNonceStored key (Fallible.exec ExecutionContext.handle
    (JamScript.executeScriptc
      (ir.serviceDescriptor build) (describeAction build action) payload authContext) memory
        context).2 :=
    (Overlay.lookup_of_column hcolumn).trans hstored
  exact Fallible.wp_mono (Fallible.wp_of_exec hafter) (fun _ _ _ h => h) fun _ _ _ h => .inr h

theorem wp_walletSteps_empty (hcheck : (ir.serviceDescriptor build).check = .ok ())
    {signed : SignedActionV1View}
    (hmatch : ir.matchSelector build signed.actionSelector = some action)
    {verified : VerifiedAction} (hverify : build.crypto.verifySignedActionV1 signed
      context.environment.networkDomain build.serviceKey signed.actionSelector = .ok verified)
    (hempty : context.state.get (nonceKey verified.sender) = .ok (some [])) :
    Fallible.wp ExecutionContext.handle (ir.walletSteps build readNonceBytes signed)
      (fun _ _ => FirstNonceStored (nonceKey verified.sender))
      (fun error _ after => error ≠ .backend ∨ FirstNonceStored (nonceKey verified.sender) after)
      memory context := by
  unfold walletSteps
  rw [Fallible.wp_bind, Fallible.wp_tell, handle_networkDomain, id, Fallible.wp_bind]
  refine Fallible.wp_ofExcept_mapError (fun found hfound => ?_) fun error _ =>
    .inl (by simp [rejectedWith])
  obtain rfl := Except.ok.inj (hverify.symm.trans hfound)
  rw [Fallible.wp_bind, Fallible.wp, exec_readNonceBytes_empty hempty]
  dsimp only
  rw [Fallible.wp_bind]
  by_cases hnonce : verified.nonce = 0
  · rw [Fallible.wp_ofExcept, ensure, if_pos hnonce]
    dsimp only
    rw [Fallible.wp_bind]
    exact wp_consumeNonce_zero rfl hempty fun after hstored =>
      wp_executeScriptc_stored hcheck hmatch rfl _ _ hstored
  · rw [Fallible.wp_ofExcept, ensure, if_neg hnonce]
    exact .inl (by simp [rejectedWith])

theorem wp_ownershipSteps_empty (hcheck : (ir.serviceDescriptor build).check = .ok ())
    {signed : SignedActionV2View}
    (hmatch : ir.matchSelector build signed.actionSelector = some action)
    (hhead : key.head? = some runtimeKeyClassV1) (hempty : context.state.get key = .ok (some [])) :
    Fallible.wp ExecutionContext.handle (ir.ownershipSteps build readNonceBytes signed key)
      (fun _ _ => FirstNonceStored key)
      (fun error _ after => error ≠ .backend ∨ FirstNonceStored key after) memory context := by
  unfold ownershipSteps
  rw [Fallible.wp_bind, Fallible.wp, exec_readNonceBytes_empty hempty]
  dsimp only
  rw [Fallible.wp_bind, Fallible.wp_tell, handle_networkDomain, id, Fallible.wp_bind]
  refine Fallible.wp_ofExcept_mapError (fun verified _ => ?_) fun error _ =>
    .inl (by simp [rejectedWith])
  rw [Fallible.wp_bind, Fallible.wp_tell, Fallible.wp_bind]
  refine wp_consumeNonce_zero hhead hempty fun after hstored => ?_
  rw [Fallible.wp_bind, Fallible.wp_ofExcept]
  cases encodeAuthContext verified.owner verified.controller with
  | error error => exact .inr hstored
  | ok authContext => exact wp_executeScriptc_stored hcheck hmatch hhead _ _ hstored

/-- The generated application does not fail with `backend` before it has read something. -/
theorem executeWallet_reads {rawAction : Bytes}
    (h : (Fallible.exec ExecutionContext.handle (ir.executeWallet build rawAction) memory
      context).1.1 = .error .backend) :
    readsOf (ir.executeWallet build rawAction) memory context ≠ [] := by
  cases hdecode : decodeSignedActionV1 rawAction with
  | error error =>
    rw [executeWallet_error hdecode] at h
    cases h
  | ok signed =>
    cases hmatch : ir.matchSelector build signed.actionSelector with
    | none =>
      rw [executeWallet_unknown hdecode hmatch] at h
      cases h
    | some action =>
      rw [executeWallet_known hdecode hmatch] at h ⊢
      unfold walletSteps at h ⊢
      cases hverify : build.crypto.verifySignedActionV1 signed context.environment.networkDomain
          build.serviceKey signed.actionSelector with
      | error error =>
        simp only [Fallible.exec_bind, Fallible.exec_tell, handle_networkDomain, id, hverify,
          Fallible.exec_ofExcept, Except.mapError] at h
        cases h
      | ok verified =>
        have hmem : ⟨.get (nonceKey verified.sender), context.state.get
          (nonceKey verified.sender)⟩ ∈
            Fallible.history ExecutionContext.handle (readNonceBytes (nonceKey verified.sender))
            memory
              context :=
          Fallible.mem_history_bind_left (List.mem_singleton.mpr rfl)
        refine readsOf_ne_nil rfl (Fallible.mem_history_bind_right rfl
          (Fallible.mem_history_bind_right (a := verified) ?_
            (Fallible.mem_history_bind_left hmem)))
        rw [handle_networkDomain, id, hverify]
        rfl

theorem executeOwnership_reads {rawAction : Bytes}
    (h : (Fallible.exec ExecutionContext.handle (ir.executeOwnership build rawAction) memory
      context).1.1 = .error .backend) :
    readsOf (ir.executeOwnership build rawAction) memory context ≠ [] := by
  cases hdecode : decodeSignedActionV2 rawAction with
  | error error =>
    rw [executeOwnership_error hdecode] at h
    cases h
  | ok signed =>
    cases hmatch : ir.matchSelector build signed.actionSelector with
    | none =>
      rw [executeOwnership_unknown hdecode hmatch] at h
      cases h
    | some action =>
      obtain ⟨key, hkey⟩ := ownershipNonceKey_of_validate build.crypto.blake2_256
        (decodeSignedActionV2_selector hdecode).2
      rw [executeOwnership_known hdecode hmatch hkey] at h ⊢
      by_cases hactAs : signed.actAs = none
      · have hmem : ⟨.get key, context.state.get key⟩ ∈ Fallible.history ExecutionContext.handle
            (readNonceBytes key) memory context :=
          Fallible.mem_history_bind_left (List.mem_singleton.mpr rfl)
        refine readsOf_ne_nil rfl (Fallible.mem_history_bind_right (a := ()) ?_
          (Fallible.mem_history_bind_left hmem))
        rw [ensure, if_pos hactAs]
        rfl
      · rw [ensure, if_neg hactAs] at h
        cases h

theorem executePublic_reads (action : ActionIr) (rawAction : Bytes) :
    readsOf (ir.executePublic build action rawAction) memory context ≠ [] := by
  let opened := (ExecutionContext.handle .beginTransaction context).2
  have hmem : ⟨.stateView, (ExecutionContext.handle .stateView opened).1⟩ ∈
      Fallible.history ExecutionContext.handle (ir.runScript build
        (actionSelector build.crypto.blake2_256 action.name) rawAction []) memory opened :=
    Fallible.mem_history_bind_left (List.mem_singleton.mpr rfl)
  have hattempt : ⟨.stateView, (ExecutionContext.handle .stateView opened).1⟩ ∈
      Fallible.history ExecutionContext.handle (Fallible.attempt (ir.runScript build
        (actionSelector build.crypto.blake2_256 action.name) rawAction []) closeScript) memory
          opened := by
    rw [Fallible.history_attempt]
    exact List.mem_append_left _ hmem
  exact readsOf_ne_nil (by rfl) (Fallible.mem_history_bind_right rfl hattempt)

end Steps

/-! ## When the two applications agree -/

/-- The envelope decoder for the service's kind of action fails. -/
inductive Undecodable (ir : ServiceIr) (rawAction : Bytes) (error : RuntimeError) : Prop where
  | wallet (hkind : ir.walletOnly) (h : decodeSignedActionV1 rawAction = .error error)
  | ownership (hkind : ir.ownershipOnly) (h : decodeSignedActionV2 rawAction = .error error)

/-- The key under which both applications ask for the nonce of an action. -/
inductive AsksNonce {M : Type} (ir : ServiceIr) (build : ArtifactBuildContext M)
    (networkDomain : FixedBytes 32) (rawAction : Bytes) : Bytes → Prop where
  | wallet {signed : SignedActionV1View} {verified : VerifiedAction} (hkind : ir.walletOnly)
      (hdecode : decodeSignedActionV1 rawAction = .ok signed)
      (hknown : (ir.matchSelector build signed.actionSelector).isSome)
      (hverify : build.crypto.verifySignedActionV1 signed networkDomain build.serviceKey
        signed.actionSelector = .ok verified) :
      AsksNonce ir build networkDomain rawAction (nonceKey verified.sender)
  | ownership {signed : SignedActionV2View} {key : Bytes} (hkind : ir.ownershipOnly)
      (hdecode : decodeSignedActionV2 rawAction = .ok signed)
      (hknown : (ir.matchSelector build signed.actionSelector).isSome)
      (hactAs : signed.actAs = none)
      (hkey : ownershipNonceKey build.crypto.blake2_256 signed.controller = .ok key) :
      AsksNonce ir build networkDomain rawAction key

section Agreement

variable {ε M : Type} [ExternalStateAccess ε]

/-- The description fits the tables of the runtime; an envelope that does not decode carries a known
selector at its place, or the look-up fails as the decoder does; and the nonce asked for is not
stored as an empty value. -/
structure Unaffected (ir : ServiceIr) (build : ArtifactBuildContext M) (rawAction : Bytes)
    (context : ExecutionContext OverlayState ε) : Prop where
  limits : ir.WithinLimits
  envelope : ∀ error, Undecodable ir rawAction error →
    (∃ action, ir.lookUp build rawAction = .ok action) ∨
      ir.lookUp build rawAction = .error (rejectedWith error)
  nonce : ∀ key, AsksNonce ir build context.environment.networkDomain rawAction key →
    context.state.get key ≠ .ok (some [])

variable {ir : ServiceIr} {build : ArtifactBuildContext M} {rawAction : Bytes} {memory : M}
  {context : ExecutionContext OverlayState ε}

theorem not_walletOnly_and_ownershipOnly (hactions : ir.actions ≠ []) (hwallet : ir.walletOnly)
    (hownership : ir.ownershipOnly) : False := by
  obtain ⟨action, hmem⟩ := List.exists_mem_of_ne_nil _ hactions
  have hauth := of_decide_eq_true (List.all_eq_true.mp hwallet action hmem)
  have hauth' := of_decide_eq_true (List.all_eq_true.mp hownership action hmem)
  rw [hauth] at hauth'
  cases hauth'

/-- A descriptor beyond the limits is refused at once. -/
theorem descriptorApplication_beyond (hcheck : (ir.serviceDescriptor build).check ≠ .ok ()) :
    descriptorApplication build.crypto (ir.serviceDescriptor build) rawAction = throw .backend := by
  unfold descriptorApplication JamScriptServiceDescriptorV2.resolveAction
  cases hresult : (ir.serviceDescriptor build).check with
  | error error => rfl
  | ok _ => exact absurd hresult hcheck

/-- Failing with the error of the look-up, or else with that of the decoder. -/
theorem indistinguishable_throw_iff {e : StateAccessError} {x : Except StateAccessError ActionIr} :
    Indistinguishable (throw e) (Fallible.ofExcept x >>= fun _ => throw e) memory context ↔
      (∃ action, x = .ok action) ∨ x = .error e := by
  cases x with
  | ok action => exact ⟨fun _ => .inl ⟨action, rfl⟩, fun _ => ⟨rfl, rfl⟩⟩
  | error e' =>
    constructor
    · intro h
      have hresult : (Except.error e : Except StateAccessError Unit) = .error e' := h.result
      cases hresult
      exact .inr rfl
    · rintro (⟨_, h⟩ | h)
      · cases h
      · cases h
        exact ⟨rfl, rfl⟩

theorem walletSteps_agree_iff (hcheck : (ir.serviceDescriptor build).check = .ok ())
    {signed : SignedActionV1View} {action : ActionIr}
    (hmatch : ir.matchSelector build signed.actionSelector = some action) :
    Indistinguishable (ir.walletSteps build readNonceBytes signed)
        (ir.walletSteps build readNonce signed) memory context ↔
      ∀ verified, build.crypto.verifySignedActionV1 signed context.environment.networkDomain
        build.serviceKey signed.actionSelector = .ok verified →
          context.state.get (nonceKey verified.sender) ≠ .ok (some []) := by
  constructor
  · intro hsame verified hverify hempty
    refine not_indistinguishable_of_stored hempty
      (wp_walletSteps_empty hcheck hmatch hverify hempty) ?_ hsame
    unfold walletSteps
    simp only [Fallible.exec_bind, Fallible.exec_tell, handle_networkDomain, id, hverify,
      Fallible.exec_ofExcept, Except.mapError, exec_readNonce_empty hempty]
  · intro hnonce
    refine .of_sameRun (Fallible.SameRun.bind fun networkDomain hdomain => ?_)
    obtain rfl := Except.ok.inj hdomain
    refine Fallible.SameRun.bind fun verified hverified => ?_
    exact sameRun_readNonce (hnonce verified (mapError_eq_ok.mp hverified)) _

theorem ownershipSteps_agree_iff (hcheck : (ir.serviceDescriptor build).check = .ok ())
    {signed : SignedActionV2View} {action : ActionIr} {key : Bytes}
    (hmatch : ir.matchSelector build signed.actionSelector = some action)
    (hkey : ownershipNonceKey build.crypto.blake2_256 signed.controller = .ok key) :
    Indistinguishable (ir.ownershipSteps build readNonceBytes signed key)
        (ir.ownershipSteps build readNonce signed key) memory context ↔
      context.state.get key ≠ .ok (some []) := by
  constructor
  · intro hsame hempty
    have hprincipal : (Principal.controller signed.controller).nonceKey build.crypto.blake2_256 =
        .ok key := hkey
    refine not_indistinguishable_of_stored hempty (wp_ownershipSteps_empty hcheck hmatch
      (Principal.head_nonceKey hprincipal) hempty) ?_ hsame
    unfold ownershipSteps
    rw [Fallible.exec_bind, exec_readNonce_empty hempty]
  · intro hnonce
    exact .of_sameRun (sameRun_readNonce hnonce _)

theorem wallet_agrees_iff (hactions : ir.actions ≠ []) (hwallet : ir.walletOnly) :
    Indistinguishable (ir.executeWallet build rawAction)
        (descriptorApplication build.crypto (ir.serviceDescriptor build) rawAction) memory context ↔
      Unaffected ir build rawAction context := by
  have hkind : ¬ ir.ownershipOnly := not_walletOnly_and_ownershipOnly hactions hwallet
  by_cases hlimits : ir.WithinLimits
  case neg =>
    rw [← ir.check_serviceDescriptor build hactions] at hlimits
    refine iff_of_false (not_indistinguishable_of_reads (descriptorApplication_beyond hlimits)
      executeWallet_reads) fun h => hlimits ?_
    exact (ir.check_serviceDescriptor build hactions).mpr h.limits
  have hcheck := (ir.check_serviceDescriptor build hactions).mpr hlimits
  cases hdecode : decodeSignedActionV1 rawAction with
  | error error =>
    rw [executeWallet_error hdecode, descriptorWallet_error hcheck hwallet hdecode,
      indistinguishable_throw_iff]
    refine ⟨fun hlookUp => ⟨hlimits, ?_, ?_⟩, fun h => h.envelope error (.wallet hwallet hdecode)⟩
    · rintro error' (⟨-, herror⟩ | ⟨hownership, -⟩)
      · rwa [Except.error.inj (herror.symm.trans hdecode)]
      · exact absurd hownership hkind
    · rintro key (⟨-, hdecoded, -, -⟩ | ⟨hownership, -, -, -, -⟩)
      · cases hdecode.symm.trans hdecoded
      · exact absurd hownership hkind
  | ok signed =>
    have henvelope : ∀ error, Undecodable ir rawAction error → False := by
      rintro error (⟨-, herror⟩ | ⟨hownership, -⟩)
      · cases hdecode.symm.trans herror
      · exact hkind hownership
    cases hmatch : ir.matchSelector build signed.actionSelector with
    | none =>
      have hlookUp : ir.lookUp build rawAction = _ :=
        lookUp_of_selector (decodeSignedActionV1_selector hdecode)
      rw [executeWallet_unknown hdecode hmatch,
        descriptorApplication_serviceDescriptor hcheck (.inl hwallet), hlookUp, hmatch]
      refine iff_of_true ⟨rfl, rfl⟩ ⟨hlimits, fun error h => (henvelope error h).elim, ?_⟩
      rintro key (⟨-, hdecoded, hknown, -⟩ | ⟨hownership, -, -, -, -⟩)
      · cases hdecode.symm.trans hdecoded
        rw [hmatch] at hknown
        cases hknown
      · exact absurd hownership hkind
    | some action =>
      rw [executeWallet_known hdecode hmatch, descriptorWallet_known hcheck hwallet hdecode hmatch,
        walletSteps_agree_iff hcheck hmatch]
      constructor
      · refine fun hnonce => ⟨hlimits, fun error h => (henvelope error h).elim, ?_⟩
        rintro key (⟨-, hdecoded, -, hverify⟩ | ⟨hownership, -, -, -, -⟩)
        · cases hdecode.symm.trans hdecoded
          exact hnonce _ hverify
        · exact absurd hownership hkind
      · intro h verified hverify
        exact h.nonce _ (.wallet hwallet hdecode (by rw [hmatch]; rfl) hverify)

theorem ownership_agrees_iff (hactions : ir.actions ≠ []) (hownership : ir.ownershipOnly) :
    Indistinguishable (ir.executeOwnership build rawAction)
        (descriptorApplication build.crypto (ir.serviceDescriptor build) rawAction) memory context ↔
      Unaffected ir build rawAction context := by
  have hkind : ¬ ir.walletOnly :=
    fun hwallet => not_walletOnly_and_ownershipOnly hactions hwallet hownership
  by_cases hlimits : ir.WithinLimits
  case neg =>
    rw [← ir.check_serviceDescriptor build hactions] at hlimits
    refine iff_of_false (not_indistinguishable_of_reads (descriptorApplication_beyond hlimits)
      executeOwnership_reads) fun h => hlimits ?_
    exact (ir.check_serviceDescriptor build hactions).mpr h.limits
  have hcheck := (ir.check_serviceDescriptor build hactions).mpr hlimits
  cases hdecode : decodeSignedActionV2 rawAction with
  | error error =>
    rw [executeOwnership_error hdecode, descriptorOwnership_error hcheck hownership hdecode,
      indistinguishable_throw_iff]
    refine ⟨fun hlookUp => ⟨hlimits, ?_, ?_⟩,
      fun h => h.envelope error (.ownership hownership hdecode)⟩
    · rintro error' (⟨hwallet, -⟩ | ⟨-, herror⟩)
      · exact absurd hwallet hkind
      · rwa [Except.error.inj (herror.symm.trans hdecode)]
    · rintro key (⟨hwallet, -, -, -⟩ | ⟨-, hdecoded, -, -, -⟩)
      · exact absurd hwallet hkind
      · cases hdecode.symm.trans hdecoded
  | ok signed =>
    have henvelope : ∀ error, Undecodable ir rawAction error → False := by
      rintro error (⟨hwallet, -⟩ | ⟨-, herror⟩)
      · exact hkind hwallet
      · cases hdecode.symm.trans herror
    obtain ⟨hselector, hvalid⟩ := decodeSignedActionV2_selector hdecode
    cases hmatch : ir.matchSelector build signed.actionSelector with
    | none =>
      have hlookUp : ir.lookUp build rawAction = _ := lookUp_of_selector hselector
      rw [executeOwnership_unknown hdecode hmatch,
        descriptorApplication_serviceDescriptor hcheck (.inr hownership), hlookUp, hmatch]
      refine iff_of_true ⟨rfl, rfl⟩ ⟨hlimits, fun error h => (henvelope error h).elim, ?_⟩
      rintro key (⟨hwallet, -, -, -⟩ | ⟨-, hdecoded, hknown, -, -⟩)
      · exact absurd hwallet hkind
      · cases hdecode.symm.trans hdecoded
        rw [hmatch] at hknown
        cases hknown
    | some action =>
      obtain ⟨key, hkey⟩ := ownershipNonceKey_of_validate build.crypto.blake2_256 hvalid
      rw [executeOwnership_known hdecode hmatch hkey,
        descriptorOwnership_known hcheck hownership hdecode hmatch hkey]
      by_cases hactAs : signed.actAs = none
      · rw [ensure, if_pos hactAs]
        refine (ownershipSteps_agree_iff hcheck hmatch hkey).trans ⟨fun hnonce => ?_, fun h => ?_⟩
        · refine ⟨hlimits, fun error h => (henvelope error h).elim, ?_⟩
          rintro key' (⟨hwallet, -, -, -⟩ | ⟨-, hdecoded, -, -, hkey'⟩)
          · exact absurd hwallet hkind
          · cases hdecode.symm.trans hdecoded
            rwa [Except.ok.inj (hkey'.symm.trans hkey)]
        · exact h.nonce _ (.ownership hownership hdecode (by rw [hmatch]; rfl) hactAs hkey)
      · rw [ensure, if_neg hactAs]
        refine iff_of_true ⟨rfl, rfl⟩ ⟨hlimits, fun error h => (henvelope error h).elim, ?_⟩
        rintro key' (⟨hwallet, -, -, -⟩ | ⟨-, hdecoded, -, hactAs', -⟩)
        · exact absurd hwallet hkind
        · cases hdecode.symm.trans hdecoded
          exact absurd hactAs' hactAs

theorem public_agrees_iff {action : ActionIr} (hactions : ir.actions = [action])
    (hauth : action.auth = .public) :
    Indistinguishable (ir.executePublic build action rawAction)
        (descriptorApplication build.crypto (ir.serviceDescriptor build) rawAction) memory context ↔
      Unaffected ir build rawAction context := by
  have hne : ir.actions ≠ [] := by simp [hactions]
  have hwallet : ¬ ir.walletOnly := by simp [walletOnly, hactions, hauth]
  have hownership : ¬ ir.ownershipOnly := by simp [ownershipOnly, hactions, hauth]
  by_cases hlimits : ir.WithinLimits
  case neg =>
    rw [← ir.check_serviceDescriptor build hne] at hlimits
    refine iff_of_false (not_indistinguishable_of_reads (descriptorApplication_beyond hlimits)
      fun _ => executePublic_reads action rawAction) fun h => hlimits ?_
    exact (ir.check_serviceDescriptor build hne).mpr h.limits
  rw [descriptorPublic ((ir.check_serviceDescriptor build hne).mpr hlimits) hactions hauth]
  refine iff_of_true ⟨rfl, rfl⟩ ⟨hlimits, ?_, ?_⟩
  · rintro error (⟨hkind, -⟩ | ⟨hkind, -⟩)
    · exact absurd hkind hwallet
    · exact absurd hkind hownership
  · rintro key (⟨hkind, -, -, -⟩ | ⟨hkind, -, -, -, -⟩)
    · exact absurd hkind hwallet
    · exact absurd hkind hownership

/-- What the generator accepts, and the program it writes. -/
theorem generateScriptcApplication_eq_ok {application : ServiceApplication M}
    (h : ir.generateScriptcApplication build = .ok application) : ir.actions ≠ [] ∧
      ((ir.walletOnly ∧ application = ir.executeWallet build) ∨
        (ir.ownershipOnly ∧ application = ir.executeOwnership build) ∨
        ∃ action, ir.actions = [action] ∧ action.auth = .public ∧
          application = ir.executePublic build action) := by
  unfold generateScriptcApplication at h
  match hactions : ir.actions, h with
  | first :: rest, h =>
    refine ⟨List.cons_ne_nil _ _, ?_⟩
    dsimp only at h
    split at h
    · cases h
    next haccepted =>
      split at h
      next hwallet => exact .inl ⟨hwallet, (Except.ok.inj h).symm⟩
      next hwallet =>
        split at h
        next hownership => exact .inr (.inl ⟨hownership, (Except.ok.inj h).symm⟩)
        next hownership =>
          have hpublic : ir.singlePublic := by
            by_contra hpublic
            exact haccepted ⟨hwallet, hownership, hpublic⟩
          unfold singlePublic at hpublic
          rw [hactions] at hpublic
          match rest, hpublic with
          | [], hpublic =>
            exact .inr (.inr ⟨first, rfl, of_decide_eq_true hpublic, (Except.ok.inj h).symm⟩)

/-- The generated application and the prebuilt one on the generated descriptor cannot be told apart,
on an action and a context, exactly when none of their differences is reached. -/
theorem applications_agree_iff {application : ServiceApplication M}
    {descriptor : JamScriptServiceDescriptorV2 M}
    (happlication : ir.generateScriptcApplication build = .ok application)
    (hdescriptor : ir.generateServiceDescriptor build = .ok descriptor) (rawAction : Bytes)
    (memory : M) (context : ExecutionContext OverlayState ε) :
    Indistinguishable (application rawAction)
        (descriptorApplication build.crypto descriptor rawAction) memory context ↔
      Unaffected ir build rawAction context := by
  obtain ⟨hactions, hkind⟩ := generateScriptcApplication_eq_ok happlication
  unfold generateServiceDescriptor at hdescriptor
  rw [if_neg hactions] at hdescriptor
  obtain rfl := Except.ok.inj hdescriptor
  rcases hkind with ⟨hwallet, rfl⟩ | ⟨hownership, rfl⟩ | ⟨action, haction, hauth, rfl⟩
  · exact wallet_agrees_iff hactions hwallet
  · exact ownership_agrees_iff hactions hownership
  · exact public_agrees_iff haction hauth

end Agreement

end ServiceIr

/-! ## A service with one action -/

/-- The hash of the action name `ping` in its domain. -/
def pingNameHash : FixedBytes 32 :=
  ⟨[0xa3, 0x46, 0x61, 0x82, 0x14, 0xdb, 0x4c, 0xf1, 0x95, 0x7e, 0xa7, 0xe1, 0xbd, 0xf7, 0x89, 0xd0,
    0xd4, 0x9c, 0x08, 0xfa, 0x51, 0xa1, 0x4e, 0xe3, 0x92, 0xc3, 0x33, 0x39, 0x8c, 0x92, 0x6e, 0x47],
    rfl⟩

def pingIr (auth : AuthKind) : ServiceIr := ⟨[⟨"counter"⟩], [⟨"ping", auth⟩]⟩

/-- The commitment of `namedAction`. -/
def namedCommitment : FixedBytes 32 :=
  ⟨[0x90, 0xc8, 0xcb, 0x42, 0x9a, 0x2e, 0x64, 0x4e, 0x69, 0x4e, 0x50, 0x1c, 0x43, 0x07, 0x09, 0x28,
    0x19, 0x29, 0x90, 0x9e, 0xee, 0x1f, 0xdc, 0xed, 0xc2, 0x8b, 0x0f, 0x10, 0x68, 0xa3, 0x85, 0x5b],
    rfl⟩

/-- The signature of the commitment's text by the controller of `pingAction`. -/
def namedSignature : Bytes :=
  [0x40, 0xc8, 0x18, 0xce, 0xf5, 0x97, 0x02, 0x5c, 0xb3, 0xc7, 0xa4, 0x48, 0xfd, 0x3d, 0x9b, 0x2d,
   0xd4, 0xee, 0x27, 0xd1, 0xfe, 0xe6, 0x03, 0x78, 0xc5, 0xca, 0x0b, 0xca, 0xcb, 0x2e, 0x47, 0xe6,
   0x46, 0x4e, 0x1e, 0xcc, 0x71, 0x5a, 0x79, 0x51, 0x3a, 0x7a, 0x05, 0xe7, 0x96, 0xd9, 0x28, 0x43,
   0x04, 0x01, 0x6f, 0x22, 0x80, 0x01, 0x80, 0xb4, 0xb9, 0xec, 0x93, 0xb9, 0xbe, 0x0d, 0x97, 0x0e]

/-- The service and the action, by the selector that the generator derives from the name. -/
def namedRoute : Bytes := List.replicate 32 0 ++ List.replicate 32 7 ++ pingNameHash.toList.take 8

/-- A valid action: the controller calls `ping` with its first nonce. -/
def namedAction : Bytes :=
  [2] ++ namedRoute ++ [36, 0, 1, 0, 32, 0] ++ pingPublicKey ++ [0] ++ pingTail ++
    [64, 0, 0, 0] ++ namedSignature ++ [1, 0, 0, 0, 42]

/-- The key of the state `counter`. -/
def counterKey : Bytes := [applicationKeyClassV1, 7, 0] ++ asBytes "counter"

/-- The script stores its payload of one byte under `counterKey`. -/
def pingBuild : ArtifactBuildContext Unit where
  crypto := { pingCrypto with
    blake2_256 := tableHash [(actionDomain ++ asBytes "ping", pingNameHash),
      ([42], pingPayloadHash),
      (ownershipKeyDomainV1 ++ [1, 0, 32, 0] ++ pingPublicKey, pingKeyHash),
      (actionCommitmentDomainV2 ++ namedRoute ++ [1, 0, 32, 0] ++ pingPublicKey ++ [0] ++ pingTail,
        namedCommitment)]
    ed25519Signature := fun signature => signature = namedSignature
    ed25519Verify := fun key message signature => key.toList = pingPublicKey ∧
      message = signingMessageV2 namedCommitment ∧ signature = namedSignature }
  script := ⟨id, fun _ payload _ _ memory =>
    (.data ([1, 0, 25, 0, 0, 0] ++ [1, 1, 0, 0, 0, 10, 0, 0, 0] ++ counterKey ++ [1, 1, 0, 0, 0] ++
      payload), memory)⟩
  serviceKey := List.Vector.replicate 32 7

/-- The start of an action on a service without state. -/
def freshContext : ExecutionContext OverlayState ExternalView where
  state := ⟨Overlay.empty, fun _ => .ok none⟩
  accessPlan := some ⟨1, []⟩
  externalState := none
  sender := none
  owner := none
  controller := none
  environment := zeroEnvironment
  transitionValidUntil := none

theorem pingIr_withinLimits (auth : AuthKind) : (pingIr auth).WithinLimits := by
  refine ⟨by simp [pingIr, maxDescriptorActions], by simp [pingIr, maxDescriptorNamespaces],
    fun state hstate => ?_⟩
  obtain rfl := List.mem_singleton.mp hstate
  decide +kernel

/-- An envelope that breaks off behind the selector of the action. -/
def brokenPing : Bytes := [2] ++ List.replicate 64 0 ++ pingNameHash.toList.take 8

/-- Both applications refuse the broken envelope with the decoder's error; and both carry out the
valid action, which stores its payload and the next nonce. -/
theorem applications_agree_ping :
    (Indistinguishable ((pingIr .ownership).executeOwnership pingBuild brokenPing)
        (descriptorApplication pingBuild.crypto ((pingIr .ownership).serviceDescriptor pingBuild)
          brokenPing) () freshContext ∧
      (Fallible.exec ExecutionContext.handle
        ((pingIr .ownership).executeOwnership pingBuild brokenPing) () freshContext).1.1 =
        .error (.rejected 1)) ∧
    Indistinguishable ((pingIr .ownership).executeOwnership pingBuild namedAction)
        (descriptorApplication pingBuild.crypto ((pingIr .ownership).serviceDescriptor pingBuild)
          namedAction) () freshContext ∧
      let ended := Fallible.exec ExecutionContext.handle
        ((pingIr .ownership).executeOwnership pingBuild namedAction) () freshContext
      ended.1.1 = .ok () ∧ ended.2.state.get counterKey = .ok (some [42]) ∧
        ended.2.state.get pingNonceKey = .ok (some (u64ToLe 1)) := by
  refine ⟨⟨(ServiceIr.applications_agree_iff rfl rfl brokenPing () freshContext).mpr
    ⟨pingIr_withinLimits _, fun error _ => .inl ⟨⟨"ping", .ownership⟩, ?_⟩, fun key _ => nofun⟩,
    ?_⟩,
    (ServiceIr.applications_agree_iff rfl rfl namedAction () freshContext).mpr
    ⟨pingIr_withinLimits _, fun error _ => .inl ⟨⟨"ping", .ownership⟩, ?_⟩, fun key _ => nofun⟩, ?_⟩
  · decide +kernel
  · decide +kernel
  · decide +kernel
  · decide +kernel

/-- Seventy-three zero bytes on a service with a wallet action: the generated application refuses
their version, the prebuilt one their selector. -/
theorem applications_refuse_differently :
    (pingIr .wallet).generateScriptcApplication pingBuild =
        .ok ((pingIr .wallet).executeWallet pingBuild) ∧
      (pingIr .wallet).generateServiceDescriptor pingBuild =
        .ok ((pingIr .wallet).serviceDescriptor pingBuild) ∧
      (Fallible.exec ExecutionContext.handle ((pingIr .wallet).executeWallet pingBuild
        (List.replicate 73 0)) () freshContext).1.1 = .error (.rejected 2) ∧
      (Fallible.exec ExecutionContext.handle (descriptorApplication pingBuild.crypto
        ((pingIr .wallet).serviceDescriptor pingBuild) (List.replicate 73 0)) () freshContext).1.1 =
        .error (.rejected 5) :=
  ⟨rfl, rfl, by decide +kernel, by decide +kernel⟩

end JamScript
