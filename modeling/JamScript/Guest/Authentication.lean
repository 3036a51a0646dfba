import JamScript.Guest.Descriptor

/-!
# What authentication does to the state

A signed action names a principal, a wallet account or the controller of an ownership value, and
carries a nonce. `wp_authenticate` says what authentication does with them,
`wp_descriptorApplication` what a whole action of the descriptor application does, and `KeptRun`
what is left of it in a batch: an action whose writes are kept carried the stored nonce and leaves
its successor, and the rest of its writes are those its script is allowed to make.
-/

namespace JamScript

open Codec Effects

/-! ## Principals -/

/-- Who signs actions. -/
inductive Principal where
  | wallet (account : FixedBytes 32)
  | controller (ownership : Ownership)
  deriving DecidableEq

/-- The key under which the nonce of a principal is stored. -/
def Principal.nonceKey (blake2_256 : Bytes → FixedBytes 32) : Principal → Except RuntimeError Bytes
  | .wallet account => .ok (JamScript.nonceKey account)
  | .controller ownership => ownershipNonceKey blake2_256 ownership

/-- What is hashed to name the given controllers. -/
def ownershipPreimages (controllers : Set Ownership) : Set Bytes :=
  {preimage | ∃ ownership ∈ controllers, ∃ encoded,
    ownership.encode = .ok encoded ∧ preimage = ownershipKeyDomainV1 ++ encoded}

/-- Wallet accounts, and the given controllers. -/
def Principal.Among (controllers : Set Ownership) : Principal → Prop
  | .wallet _ => True
  | .controller ownership => ownership ∈ controllers

theorem ownershipNonceKey_eq_ok {blake2_256 : Bytes → FixedBytes 32} {ownership : Ownership}
    {key : Bytes} (h : ownershipNonceKey blake2_256 ownership = .ok key) :
    ∃ encoded, ownership.encode = .ok encoded ∧
      key = [runtimeKeyClassV1, walletAuthModuleV1] ++ ownershipNonceSchemaV1 ++
        (blake2_256 (ownershipKeyDomainV1 ++ encoded)).toList := by
  obtain ⟨hash, hhash, h⟩ := bind_eq_ok.mp h
  rw [mapError_eq_ok] at hhash
  obtain ⟨encoded, hencoded, hhash⟩ := bind_eq_ok.mp hhash
  cases hhash
  cases h
  exact ⟨encoded, hencoded, rfl⟩

/-- A nonce key belongs to one principal, as long as the hash tells the controllers apart. -/
theorem Principal.eq_of_nonceKey {blake2_256 : Bytes → FixedBytes 32} {controllers : Set Ownership}
    (hhash : Set.InjOn blake2_256 (ownershipPreimages controllers)) {left right : Principal}
    (hleft : left.Among controllers) (hright : right.Among controllers) {key : Bytes}
    (hleftKey : left.nonceKey blake2_256 = .ok key)
    (hrightKey : right.nonceKey blake2_256 = .ok key) : left = right := by
  -- the two kinds of keys differ in length
  have hlength : ∀ (account : FixedBytes 32) (ownership : Ownership) (key : Bytes),
      (Principal.wallet account).nonceKey blake2_256 = .ok key →
      (Principal.controller ownership).nonceKey blake2_256 ≠ .ok key := by
    intro account ownership key hwallet hcontroller
    obtain ⟨encoded, -, rfl⟩ := ownershipNonceKey_eq_ok hcontroller
    have hcongr := congrArg List.length (Except.ok.inj hwallet)
    simp [JamScript.nonceKey, ownershipNonceSchemaV1, ascii] at hcongr
  match left, right with
  | .wallet a, .wallet b =>
    have hkeys := (Except.ok.inj hleftKey).trans (Except.ok.inj hrightKey).symm
    exact congrArg Principal.wallet (List.Vector.toList_injective (List.append_cancel_left hkeys))
  | .wallet a, .controller d => exact absurd hrightKey (hlength a d key hleftKey)
  | .controller c, .wallet b => exact absurd hleftKey (hlength b c key hrightKey)
  | .controller c, .controller d =>
    obtain ⟨encoded, hencoded, rfl⟩ := ownershipNonceKey_eq_ok hleftKey
    obtain ⟨encoded', hencoded', hkeys⟩ := ownershipNonceKey_eq_ok hrightKey
    have hhashes := List.Vector.toList_injective (List.append_cancel_left hkeys)
    have hpreimages := hhash ⟨c, hleft, encoded, hencoded, rfl⟩
      ⟨d, hright, encoded', hencoded', rfl⟩ hhashes
    obtain rfl := List.append_cancel_left hpreimages
    exact congrArg Principal.controller (Ownership.encode_injective hencoded hencoded')

/-- Nonces live in the runtime's own key class. -/
theorem Principal.head_nonceKey {blake2_256 : Bytes → FixedBytes 32} {principal : Principal}
    {key : Bytes} (h : principal.nonceKey blake2_256 = .ok key) :
    key.head? = some runtimeKeyClassV1 := by
  cases principal with
  | wallet account =>
    cases h
    rfl
  | controller ownership =>
    obtain ⟨_, _, h⟩ := bind_eq_ok.mp h
    cases h
    rfl

theorem isReserved_of_head {key : Bytes} (h : key.head? = some runtimeKeyClassV1) :
    isReservedServiceStorageKey key = false := by
  by_contra hreserved
  simp only [isReservedServiceStorageKey, Bool.or_eq_true, beq_iff_eq,
    Bool.not_eq_false] at hreserved
  rcases hreserved with (((rfl | rfl) | rfl) | rfl) | rfl <;> exact absurd h (by decide)

theorem applicationKeyAllowed_of_head {M : Type} (descriptor : JamScriptServiceDescriptorV2 M)
    {key : Bytes} (h : key.head? = some runtimeKeyClassV1) :
    descriptor.applicationKeyAllowed key = false := by
  unfold JamScriptServiceDescriptorV2.applicationKeyAllowed
  split
  case h_2 => rfl
  case h_1 =>
    cases h
    rfl

section Claims

variable {M : Type} (crypto : CryptoLibrary) (descriptor : JamScriptServiceDescriptorV2 M)
  (networkDomain : FixedBytes 32)

/-- The principal and the nonce that a raw action claims, by the way its action authenticates. -/
def claimFor (action : JamScriptActionDescriptorV1 M) (rawAction : Bytes) :
    Option (Principal × UInt64) :=
  if action.authKind = authWallet then
    match decodeSignedActionV1 rawAction >>= fun signed =>
        crypto.verifySignedActionV1 signed networkDomain descriptor.serviceKey action.selector with
    | .ok verified => some (.wallet verified.sender, verified.nonce)
    | .error _ => none
  else if action.authKind = authOwnership then
    match decodeSignedActionV2 rawAction with
    | .ok signed => some (.controller signed.controller, signed.nonce)
    | .error _ => none
  else none

def claimOf (rawAction : Bytes) : Option (Principal × UInt64) :=
  match descriptor.resolveAction rawAction with
  | .ok action => claimFor crypto descriptor networkDomain action rawAction
  | .error _ => none

variable {crypto descriptor}

/-- An action claims the same on every network on which it claims anything. -/
theorem claimOf_unique {networkDomain networkDomain' : FixedBytes 32} {rawAction : Bytes}
    {claim claim' : Principal × UInt64}
    (h : claimOf crypto descriptor networkDomain rawAction = some claim)
    (h' : claimOf crypto descriptor networkDomain' rawAction = some claim') : claim = claim' := by
  unfold claimOf at h h'
  cases hresolve : descriptor.resolveAction rawAction with
  | error e =>
    rw [hresolve] at h
    cases h
  | ok action =>
    rw [hresolve] at h h'
    dsimp only [claimFor] at h h'
    split_ifs at h h'
    · split at h
      case h_2 => cases h
      case h_1 verified hverified =>
        split at h'
        case h_2 => cases h'
        case h_1 verified' hverified' =>
          obtain ⟨signed, hsigned, hverify⟩ := bind_eq_ok.mp hverified
          obtain ⟨signed', hsigned', hverify'⟩ := bind_eq_ok.mp hverified'
          obtain rfl := Except.ok.inj (hsigned.symm.trans hsigned')
          obtain ⟨hsender, hnonce⟩ := CryptoLibrary.verifySignedActionV1_eq_ok hverify
          obtain ⟨hsender', hnonce'⟩ := CryptoLibrary.verifySignedActionV1_eq_ok hverify'
          cases h
          cases h'
          rw [Except.ok.inj (hsender.symm.trans hsender'), hnonce, hnonce']
    · exact Option.some.inj (h.symm.trans h')

end Claims

/-! ## What authentication does -/

/-- An outcome of which nothing is kept. -/
def Discarded (error : StateAccessError) : Prop := commits (.error error) = false

/-- An outcome of which nothing is kept and which has changed nothing, unless it is a backend
error. -/
def Refused (before after : OverlayState) (error : StateAccessError) : Prop :=
  Discarded error ∧ (error = .backend ∨ after = before)

/-- What the state shows of the claimed nonce, and how it changes when the action is
authenticated. -/
inductive Authenticated (blake2_256 : Bytes → FixedBytes 32) (before after : OverlayState) :
    Option (Principal × UInt64) → Prop where
  | anonymous (h : after = before) : Authenticated blake2_256 before after none
  | signed {principal : Principal} {nonce : UInt64} {key : Bytes} {value : Option Bytes}
      (hkey : principal.nonceKey blake2_256 = .ok key) (hread : before.get key = .ok value)
      (hnonce : parseNonce value = some nonce) (hnext : nonce.toNat + 1 < 2 ^ 64)
      (hafter : after =
        before.withOverlay (before.toOverlay.insert key (some (u64ToLe (nonce + 1))))) :
      Authenticated blake2_256 before after (some (principal, nonce))

section Authenticate

variable {ε M : Type} [ExternalStateAccess ε] {memory : M}
  {context : ExecutionContext OverlayState ε}

/-- Whatever the base fails with, the action that ran into it is not kept. -/
def DiscardsFailedReads (state : OverlayState) : Prop :=
  ∀ key error, state.base key = .error error → Discarded error

theorem OverlayState.get_error {state : OverlayState} {key : Bytes} {error : StateAccessError}
    (hbase : DiscardsFailedReads state) (h : state.get key = .error error) : Discarded error := by
  unfold OverlayState.get at h
  split at h
  · cases h
  · exact hbase key error h

theorem handle_get (key : Bytes) (context : ExecutionContext OverlayState ε) :
    ExecutionContext.handle (.get key) context = (context.state.get key, context) := rfl

theorem handle_networkDomain (context : ExecutionContext OverlayState ε) :
    ExecutionContext.handle .networkDomain context = (context.environment.networkDomain, context) :=
  rfl

/-- A write that can be made: the key is not reserved and can be read. -/
theorem handle_set_eq {key value : Bytes} {old : Option Bytes}
    (hreserved : isReservedServiceStorageKey key = false) (hget : context.state.get key = .ok old) :
    ExecutionContext.handle (.set key value) context = (.ok (), { context with
      state := context.state.withOverlay (context.state.toOverlay.insert key (some value)) }) := by
  simp only [ExecutionContext.handle, ExecutionContext.onState, ManagedStateAccess.set,
    OverlayState.write, hreserved, hget]
  rfl

theorem wp_readNonce {post : UInt64 → M → ExecutionContext OverlayState ε → Prop} {key : Bytes}
    (hbase : DiscardsFailedReads context.state)
    (hpost : ∀ value nonce, context.state.get key = .ok value → parseNonce value = some nonce →
      post nonce memory context) :
    Fallible.wp ExecutionContext.handle (readNonce key) post
      (fun error _ after => Refused context.state after.state error) memory context := by
  unfold readNonce
  rw [Fallible.wp_bind, Fallible.wp_ask, handle_get]
  cases hget : context.state.get key with
  | error error => exact ⟨OverlayState.get_error hbase hget, .inr rfl⟩
  | ok value =>
    dsimp only [id]
    cases hnonce : parseNonce value with
    | none => exact ⟨rfl, .inl rfl⟩
    | some nonce => exact hpost value nonce hget hnonce

theorem wp_consumeNonce {post : Unit → M → ExecutionContext OverlayState ε → Prop} {key : Bytes}
    {nonce validUntil : UInt64} {value : Option Bytes}
    (hreserved : isReservedServiceStorageKey key = false)
    (hread : context.state.get key = .ok value)
    (hpost : ∀ after : ExecutionContext OverlayState ε, nonce.toNat + 1 < 2 ^ 64 →
      after.state = context.state.withOverlay
        (context.state.toOverlay.insert key (some (u64ToLe (nonce + 1)))) →
      post () memory after) :
    Fallible.wp ExecutionContext.handle (consumeNonce key nonce validUntil) post
      (fun error _ after => Refused context.state after.state error) memory context := by
  unfold consumeNonce
  rw [Fallible.wp_bind, Fallible.wp_tell]
  split
  case isFalse => exact ⟨rfl, .inl rfl⟩
  case isTrue hnext =>
    have hset : ExecutionContext.handle (.set key (u64ToLe (nonce + 1)))
        (ExecutionContext.handle (.constrainValidUntil validUntil) context).2 = _ :=
      handle_set_eq hreserved hread
    rw [Fallible.wp_ask, hset]
    exact hpost _ hnext rfl

variable (crypto : CryptoLibrary) (descriptor : JamScriptServiceDescriptorV2 M)
  (action : JamScriptActionDescriptorV1 M) (rawAction : Bytes)

theorem wp_authenticateWallet (hkind : action.authKind = authWallet)
    (hbase : DiscardsFailedReads context.state) :
    Fallible.wp ExecutionContext.handle (authenticateWallet crypto descriptor action rawAction)
      (fun _ _ after => Authenticated crypto.blake2_256 context.state after.state
        (claimFor crypto descriptor context.environment.networkDomain action rawAction))
      (fun error _ after => Refused context.state after.state error) memory context := by
  unfold authenticateWallet
  rw [Fallible.wp_bind]
  refine Fallible.wp_ofExcept_mapError (fun signed hdecode => ?_) fun _ _ => ⟨rfl, .inr rfl⟩
  rw [Fallible.wp_bind, Fallible.wp_tell, handle_networkDomain, Fallible.wp_bind]
  refine Fallible.wp_ofExcept_mapError (fun verified hverify => ?_) fun _ _ => ⟨rfl, .inr rfl⟩
  have hclaim : claimFor crypto descriptor context.environment.networkDomain action rawAction =
      some (.wallet verified.sender, verified.nonce) := by
    have hboth : (decodeSignedActionV1 rawAction >>= fun signed =>
      crypto.verifySignedActionV1 signed
        context.environment.networkDomain descriptor.serviceKey action.selector) = .ok verified :=
      bind_eq_ok.mpr ⟨signed, hdecode, hverify⟩
    rw [claimFor, if_pos hkind, hboth]
  rw [Fallible.wp_bind]
  refine wp_readNonce hbase fun value nonce hread hnonce => ?_
  rw [Fallible.wp_bind, Fallible.wp_ofExcept]
  unfold ensure
  split_ifs with heq
  case neg => exact ⟨rfl, .inr rfl⟩
  case pos =>
    obtain rfl : verified.nonce = nonce := heq
    have hkey : (Principal.wallet verified.sender).nonceKey crypto.blake2_256
        = .ok (nonceKey verified.sender) := rfl
    rw [Fallible.wp_bind]
    refine wp_consumeNonce (isReserved_of_head (Principal.head_nonceKey hkey)) hread
      fun after hnext hafter => ?_
    rw [Fallible.wp_pure, hclaim]
    exact .signed hkey hread hnonce hnext hafter

theorem encodeAuthContext_error {owner controller : Ownership} {error : StateAccessError}
    (h : encodeAuthContext owner controller = .error error) : error = .backend := by
  unfold encodeAuthContext at h
  cases howner : owner.encode with
  | error e =>
    rw [howner] at h
    cases h
    rfl
  | ok ownerBytes =>
    cases hcontroller : controller.encode with
    | error e =>
      rw [howner, hcontroller] at h
      cases h
      rfl
    | ok controllerBytes =>
      rw [howner, hcontroller] at h
      change (ensure _ StateAccessError.backend >>= fun _ => _) = _ at h
      unfold ensure at h
      split at h
      · cases h
      · cases h
        rfl

theorem wp_authenticateOwnership (hkind : action.authKind = authOwnership)
    (hbase : DiscardsFailedReads context.state) :
    Fallible.wp ExecutionContext.handle (authenticateOwnership crypto descriptor action rawAction)
      (fun _ _ after => Authenticated crypto.blake2_256 context.state after.state
        (claimFor crypto descriptor context.environment.networkDomain action rawAction))
      (fun error _ after => Refused context.state after.state error) memory context := by
  unfold authenticateOwnership
  rw [Fallible.wp_bind]
  refine Fallible.wp_ofExcept_mapError (fun signed hdecode => ?_) fun _ _ => ⟨rfl, .inr rfl⟩
  have hclaim : claimFor crypto descriptor context.environment.networkDomain action rawAction =
      some (.controller signed.controller, signed.nonce) := by
    rw [claimFor, if_neg (by rw [hkind]; decide), if_pos hkind, hdecode]
  rw [Fallible.wp_bind, Fallible.wp_ofExcept]
  unfold ensure
  split_ifs
  case neg => exact ⟨rfl, .inr rfl⟩
  case pos =>
    dsimp only
    rw [Fallible.wp_bind]
    refine Fallible.wp_ofExcept_mapError (fun key hkey => ?_) fun _ _ => ⟨rfl, .inr rfl⟩
    rw [Fallible.wp_bind]
    refine wp_readNonce hbase fun value nonce hread hnonce => ?_
    rw [Fallible.wp_bind, Fallible.wp_tell, handle_networkDomain, Fallible.wp_bind]
    refine Fallible.wp_ofExcept_mapError (fun verified hverify => ?_) fun _ _ => ⟨rfl, .inr rfl⟩
    obtain rfl : signed.nonce = nonce := CryptoLibrary.verifySignedActionV2_nonce hverify
    rw [Fallible.wp_bind, Fallible.wp_tell, Fallible.wp_bind]
    have hprincipal : (Principal.controller signed.controller).nonceKey
      crypto.blake2_256 = .ok key :=
      hkey
    refine wp_consumeNonce (isReserved_of_head (Principal.head_nonceKey hprincipal)) hread
      fun after hnext hafter => ?_
    rw [Fallible.wp_bind, Fallible.wp_ofExcept]
    cases hcontext : encodeAuthContext verified.owner verified.controller with
    | error error =>
      obtain rfl := encodeAuthContext_error hcontext
      exact ⟨rfl, .inl rfl⟩
    | ok authContext =>
      rw [hclaim]
      exact .signed hprincipal hread hnonce hnext hafter

/-- Authentication either refuses the action or does to the state what the claim says. -/
theorem wp_authenticate (hbase : DiscardsFailedReads context.state) :
    Fallible.wp ExecutionContext.handle (authenticate crypto descriptor action rawAction)
      (fun _ _ after => Authenticated crypto.blake2_256 context.state after.state
        (claimFor crypto descriptor context.environment.networkDomain action rawAction))
      (fun error _ after => Refused context.state after.state error) memory context := by
  unfold authenticate
  split
  case isTrue hkind =>
    have hclaim : claimFor crypto descriptor context.environment.networkDomain action rawAction
        = none := by
      rw [claimFor, if_neg (by rw [hkind]; decide), if_neg (by rw [hkind]; decide)]
    split
    · exact ⟨rfl, .inr rfl⟩
    · rw [hclaim]
      exact .anonymous rfl
  case isFalse =>
    split
    case isTrue hkind => exact wp_authenticateWallet crypto descriptor action rawAction hkind hbase
    case isFalse =>
      split
      case isTrue hkind =>
        exact wp_authenticateOwnership crypto descriptor action rawAction hkind hbase
      case isFalse => exact ⟨rfl, .inl rfl⟩

theorem readNonce_calls (key : Bytes) :
    Fallible.Calls (fun op : ContextOp => op.isTransaction = false) (readNonce key (M := M)) := by
  refine .bind (.ask (by rfl) _) fun value => ?_
  split
  · exact .pure _
  · exact .throw _

theorem consumeNonce_calls (key : Bytes) (nonce validUntil : UInt64) :
    Fallible.Calls (fun op : ContextOp => op.isTransaction = false)
      (consumeNonce key nonce validUntil (M := M)) := by
  refine .bind (.tell (by rfl) _) fun _ => ?_
  split
  · exact .ask (by rfl) _
  · exact .throw _

theorem authenticateWallet_calls :
    Fallible.Calls (fun op : ContextOp => op.isTransaction = false)
      (authenticateWallet crypto descriptor action rawAction) := by
  refine .bind (.ofExcept _) fun signed => .bind (.tell (by rfl) _) fun networkDomain => ?_
  refine .bind (.ofExcept _) fun verified => .bind (readNonce_calls _) fun nonce => ?_
  exact .bind (.ofExcept _) fun _ => .bind (consumeNonce_calls _ _ _) fun _ => .pure _

theorem authenticateOwnership_calls :
    Fallible.Calls (fun op : ContextOp => op.isTransaction = false)
      (authenticateOwnership crypto descriptor action rawAction) := by
  refine .bind (.ofExcept _) fun signed => .bind (.ofExcept _) fun _ => ?_
  refine .bind (.ofExcept _) fun key => .bind (readNonce_calls _) fun nonce => ?_
  refine .bind (.tell (by rfl) _) fun networkDomain => .bind (.ofExcept _) fun verified => ?_
  refine .bind (.tell (by rfl) _) fun _ => .bind (consumeNonce_calls _ _ _) fun _ => ?_
  exact .bind (.ofExcept _) fun _ => .pure _

theorem authenticate_calls : Fallible.Calls (fun op : ContextOp => op.isTransaction = false)
    (authenticate crypto descriptor action rawAction) := by
  unfold authenticate
  split
  · split
    · exact .throw _
    · exact .pure _
  · split
    · exact authenticateWallet_calls crypto descriptor action rawAction
    · split
      · exact authenticateOwnership_calls crypto descriptor action rawAction
      · exact .throw _

/-- The descriptor application closes exactly the transactions it opens. -/
theorem descriptorApplication_balanced (memory : M) (context : ExecutionContext OverlayState ε) :
    Balanced (descriptorApplication crypto descriptor rawAction) memory context := by
  refine .bind (.ofExcept _) fun action memory context => ?_
  refine .bind (.of_calls (authenticate_calls crypto descriptor action rawAction))
    fun authenticated memory context => ?_
  exact executeScriptc_balanced _ _ _ _ _

end Authenticate

/-! ## What a kept action does -/

section Kept

variable {M : Type} (crypto : CryptoLibrary) (descriptor : JamScriptServiceDescriptorV2 M)

/-- The effect of an action whose writes are kept: authentication, and then writes of the script to
keys that it is allowed to write. -/
def Kept (before after : OverlayState) (claim : Option (Principal × UInt64)) : Prop :=
  ∃ middle, Authenticated crypto.blake2_256 before middle claim ∧
    ∀ key, descriptor.applicationKeyAllowed key = false → after.column key = middle.column key

theorem resolveAction_error {rawAction : Bytes} {error : StateAccessError}
    (h : descriptor.resolveAction rawAction = .error error) : Discarded error := by
  unfold JamScriptServiceDescriptorV2.resolveAction at h
  cases hcheck : descriptor.check with
  | error e =>
    rw [hcheck] at h
    cases h
    rfl
  | ok _ =>
    rw [hcheck] at h
    have hfind : ∀ selector, descriptor.findAction selector = .error error → Discarded error := by
      intro selector h
      unfold JamScriptServiceDescriptorV2.findAction at h
      split at h
      · cases h
      · cases h
        rfl
    cases hpublic : descriptor.publicSelector with
    | some selector =>
      rw [hpublic] at h
      exact hfind selector h
    | none =>
      rw [hpublic] at h
      unfold JamScriptServiceDescriptorV2.signedSelector at h
      cases hselector : tryIntoArray 8 ((rawAction.drop 65).take 8) with
      | none =>
        rw [hselector] at h
        cases h
        rfl
      | some selector =>
        rw [hselector] at h
        exact hfind selector h

/-- The descriptor application discards its action or has the effect of a kept one. -/
theorem wp_descriptorApplication {ε : Type} [ExternalStateAccess ε] (rawAction : Bytes) (memory : M)
    (context : ExecutionContext OverlayState ε) (hbase : DiscardsFailedReads context.state) :
    Fallible.wp ExecutionContext.handle (descriptorApplication crypto descriptor rawAction)
      (fun _ _ after => Kept crypto descriptor context.state after.state
        (claimOf crypto descriptor context.environment.networkDomain rawAction))
      (fun error _ after => Discarded error ∨ Kept crypto descriptor context.state after.state
        (claimOf crypto descriptor context.environment.networkDomain rawAction))
      memory context := by
  unfold descriptorApplication
  rw [Fallible.wp_bind, Fallible.wp_ofExcept]
  cases hresolve : descriptor.resolveAction rawAction with
  | error error => exact .inl (resolveAction_error descriptor hresolve)
  | ok action =>
    have hclaim : claimOf crypto descriptor context.environment.networkDomain rawAction =
        claimFor crypto descriptor context.environment.networkDomain action rawAction := by
      rw [claimOf, hresolve]
    dsimp only
    rw [Fallible.wp_bind, hclaim]
    refine Fallible.wp_mono (wp_authenticate crypto descriptor action rawAction hbase) ?_
      fun error _ _ h => .inl h.1
    rintro ⟨payload, authContext⟩ memory' middle hmiddle
    refine Fallible.wp_mono
      (Fallible.wp_of_exec (Q := fun after : ExecutionContext OverlayState ε =>
      ∀ key, descriptor.applicationKeyAllowed key = false →
        after.state.column key = middle.state.column key) ?_) ?_ ?_
    · exact fun key hkey => executeScriptc_column hkey _ _ _ _ _
    · exact fun _ _ _ h => ⟨middle.state, hmiddle, h⟩
    · exact fun _ _ _ h => .inr ⟨middle.state, hmiddle, h⟩

variable {crypto descriptor}

/-- What a run has written when it is kept, on a state whose values `state` gives. -/
inductive KeptRun (blake2_256 : Bytes → FixedBytes 32) (descriptor : JamScriptServiceDescriptorV2 M)
    (state : Bytes → Option Bytes) (run : ActionRun) : Option (Principal × UInt64) → Prop where
  | anonymous (hother : ∀ key, descriptor.applicationKeyAllowed key = false →
    run.changes[key]? = none) :
      KeptRun blake2_256 descriptor state run none
  | signed {principal : Principal} {nonce : UInt64} {key : Bytes}
      (hkey : principal.nonceKey blake2_256 = .ok key)
      (hnonce : parseNonce (state key) = some nonce)
      (hnext : nonce.toNat + 1 < 2 ^ 64)
      (hwrite : run.changes[key]? = some (some (u64ToLe (nonce + 1))))
      (hother : ∀ other, other ≠ key → descriptor.applicationKeyAllowed other = false →
        run.changes[other]? = none) :
      KeptRun blake2_256 descriptor state run (some (principal, nonce))

/-- A kept run writes keys its script is allowed to write, and the nonce of its signer. -/
theorem KeptRun.changed {blake2_256 : Bytes → FixedBytes 32} {state : Bytes → Option Bytes}
    {run : ActionRun} {claim : Option (Principal × UInt64)} {key : Bytes} {value : Option Bytes}
    (h : KeptRun blake2_256 descriptor state run claim)
    (hwritten : run.changes[key]? = some value) :
    descriptor.applicationKeyAllowed key = true ∨ ∃ principal nonce,
      claim = some (principal, nonce) ∧ principal.nonceKey blake2_256 = .ok key ∧
      value = some (u64ToLe (nonce + 1)) := by
  by_cases hallowed : descriptor.applicationKeyAllowed key = true
  · exact .inl hallowed
  rw [Bool.not_eq_true] at hallowed
  cases h with
  | anonymous hother =>
    rw [hother key hallowed] at hwritten
    cases hwritten
  | @signed principal nonce signerKey hkey _ _ hwrite hother =>
    by_cases hsame : key = signerKey
    · subst hsame
      rw [hwrite] at hwritten
      exact .inr ⟨principal, nonce, rfl, hkey, (Option.some.inj hwritten).symm⟩
    · rw [hother key hsame hallowed] at hwritten
      cases hwritten

/-- A read inside a fresh transaction sees the committed writes, or else what the base answers. -/
theorem get_fresh {writes : WriteSet Bytes (Option Bytes)}
    {base : Bytes → Except StateAccessError (Option Bytes)} {contents : Bytes → Option Bytes}
    (hsound : ∀ key value, base key = .ok value → value = contents key) {key : Bytes}
    {value : Option Bytes}
    (h : OverlayState.get key ⟨⟨writes, [∅]⟩, base⟩ = .ok value) :
    value = applyWrites contents writes key := by
  have hlookup : Overlay.lookup ⟨writes, [∅]⟩ key = writes[key]? :=
    Overlay.lookup_begin (K := Bytes) ⟨writes, []⟩ key
  unfold OverlayState.get at h
  rw [hlookup] at h
  unfold applyWrites
  cases hwrite : writes[key]? with
  | some written =>
    rw [hwrite] at h
    cases h
    rfl
  | none =>
    rw [hwrite] at h
    exact hsound key value h

/-- The world of a batch runs the descriptor application, its base fails only in ways that discard
the action, and what it reads is in `contents`. -/
structure DescriptorWorld (crypto : CryptoLibrary) (descriptor : JamScriptServiceDescriptorV2 M)
    (contents : Bytes → Option Bytes) (world : BatchWorld M) : Prop where
  application : world.application = descriptorApplication crypto descriptor
  discards : ∀ key error, world.base key = .error error → Discarded error
  sound : ∀ key value, world.base key = .ok value → value = contents key

variable {contents : Bytes → Option Bytes} {world : BatchWorld M}

theorem DescriptorWorld.keeps (hworld : DescriptorWorld crypto descriptor contents world)
    (c : Batch OverlayState ExternalView M) (action : Bytes) :
    KeepsTransactionOn (world.application action c.memory) (c.context world.toBatchSetup) := by
  rw [hworld.application]
  exact descriptorApplication_balanced crypto descriptor action c.memory _ 0

/-- A kept run has consumed the nonce its action claims and has written nothing else outside the
keys its script is allowed to write. -/
theorem DescriptorWorld.runAction_kept (hworld : DescriptorWorld crypto descriptor contents world)
    (memory : M) (writes : WriteSet Bytes (Option Bytes)) (action : Bytes)
    (hcommitted : (world.runAction memory writes action).1.committed = true) :
    KeptRun crypto.blake2_256 descriptor (applyWrites contents writes)
      (world.runAction memory writes action).1
      (claimOf crypto descriptor world.environment.networkDomain action) := by
  obtain ⟨hstate, -⟩ := world.execute_state memory writes action
    (hworld.keeps (world.batch memory writes) action)
  have hwp := wp_descriptorApplication crypto descriptor action memory
    ((world.batch memory writes).context world.toBatchSetup) hworld.discards
  have hkept : Kept crypto descriptor ⟨⟨writes, [∅]⟩, world.base⟩
      ⟨⟨writes, [(world.runAction memory writes action).1.changes]⟩, world.base⟩
      (claimOf crypto descriptor world.environment.networkDomain action) := by
    rw [← congrFun hworld.application action, Fallible.wp_iff] at hwp
    rw [← hstate]
    cases hresult : ((world.batch memory writes).execute world.toBatchSetup action).1.1 with
    | ok _ => exact hwp.1 _ hresult
    | error error =>
      have hcommits : commits (.error error) = true := hresult ▸ hcommitted
      rcases hwp.2 error hresult with hdiscarded | hkept
      · exact absurd (hcommits.symm.trans hdiscarded) (by decide)
      · exact hkept
  obtain ⟨middle, hauthenticated, hcolumns⟩ := hkept
  generalize claimOf crypto descriptor world.environment.networkDomain action = claim
    at hauthenticated
  -- the column of a key is what the run wrote to it, over what was there before
  cases hauthenticated with
  | anonymous hsame =>
    subst hsame
    refine .anonymous fun key hkey => ?_
    exact (List.cons.inj ((hcolumns key hkey).trans (Overlay.column_begin ⟨writes, []⟩ key))).1
  | @signed principal nonce key value hkey hread hnonce hnext hafter =>
    subst hafter
    have hclass := applicationKeyAllowed_of_head descriptor (Principal.head_nonceKey hkey)
    rw [get_fresh hworld.sound hread] at hnonce
    refine .signed hkey hnonce hnext ?_ fun other hne hother => ?_
    · exact (List.cons.inj (hcolumns key hclass)).1.trans Std.ExtTreeMap.getElem?_insert_self
    · have hinsert := Overlay.column_insert_of_ne ⟨writes, [∅]⟩ (some (u64ToLe (nonce + 1))) hne
      exact (List.cons.inj (((hcolumns other hother).trans hinsert).trans
        (Overlay.column_begin ⟨writes, []⟩ other))).1

end Kept

end JamScript
