import JamScript.Guest.Replay

/-!
# What a history leaves in the state

A history of accumulate calls leaves a commitment in the service's slot. `history_rebuilt` says
which state it stands for: the one that the recovery payloads of the accepted results give, applied
in order to the empty state. `history_values_authorized` says how every value came into it: an
action wrote it that the runtime had verified for this network, this service and its selector, and
the call that accepted the action came no later than the limit its signer had set.
`history_key_spaces` says under which keys.
-/

namespace JamScript

open Codec Effects

/-! ## Limits -/

section Limits

variable {ε M : Type} [ExternalStateAccess ε] {memory : M}
  {context : ExecutionContext OverlayState ε} {validUntil : UInt64}

/-- The context carries a limit that is no later than `validUntil`. -/
def EndsBy (validUntil : UInt64) (context : ExecutionContext OverlayState ε) : Prop :=
  ∃ limit, context.transitionValidUntil = some limit ∧ limit ≤ validUntil

theorem endsBy_constrain (validUntil : UInt64) (context : ExecutionContext OverlayState ε) :
    EndsBy validUntil (ExecutionContext.handle (.constrainValidUntil validUntil) context).2 := by
  unfold EndsBy
  simp only [ExecutionContext.handle]
  cases context.transitionValidUntil with
  | none => exact ⟨validUntil, rfl, UInt64.le_refl _⟩
  | some limit => exact ⟨min limit validUntil, rfl, Std.min_le_right⟩

/-- No operation takes a limit back. -/
theorem EndsBy.handle (h : EndsBy validUntil context) (op : ContextOp) :
    EndsBy validUntil (ExecutionContext.handle op context).2 := by
  obtain ⟨limit, hlimit, hle⟩ := h
  cases op with
  | constrainValidUntil other =>
    refine ⟨min limit other, ?_, UInt64.le_trans Std.min_le_left hle⟩
    simp [ExecutionContext.handle, constrainLimit, hlimit]
  | _ => exact ⟨limit, hlimit, hle⟩

theorem EndsBy.exec {α : Type} (h : EndsBy validUntil context) (program : DescriptorProgram M α)
    (memory : M) :
    EndsBy validUntil (Fallible.exec ExecutionContext.handle program memory context).2 :=
  Program.run_preserves (I := EndsBy validUntil) (fun op _ hc => hc.handle op) (program memory) h

theorem wp_consumeNonce_endsBy {post : Unit → M → ExecutionContext OverlayState ε → Prop}
    {key : Bytes} {nonce : UInt64} (hpost : ∀ after : ExecutionContext OverlayState ε,
      EndsBy validUntil after →
      post () memory after) :
    Fallible.wp ExecutionContext.handle (consumeNonce key nonce validUntil) post
      (fun _ _ _ => True) memory
      context := by
  unfold consumeNonce
  rw [Fallible.wp_bind, Fallible.wp_tell]
  split
  case isFalse => trivial
  case isTrue =>
    rw [Fallible.wp_ask]
    split
    · exact hpost _ ((endsBy_constrain validUntil context).handle _)
    · trivial

end Limits

/-! ## Authorized actions -/

section Authorized

variable {M : Type} (crypto : CryptoLibrary) (descriptor : JamScriptServiceDescriptorV2 M)
  (networkDomain : FixedBytes 32)

/-- What the runtime has checked of an action before it runs its script, with the last tick at which
the action may take effect. -/
inductive Authorized (rawAction : Bytes) : Option UInt64 → Prop where
  | anonymous {action : JamScriptActionDescriptorV1 M}
      (hresolve : descriptor.resolveAction rawAction = .ok action)
      (hkind : action.authKind = authPublic) (honly : descriptor.actions.count = 1) :
      Authorized rawAction none
  | wallet {action : JamScriptActionDescriptorV1 M} {signed : SignedActionV1View}
      {verified : VerifiedAction}
      (hresolve : descriptor.resolveAction rawAction = .ok action)
      (hkind : action.authKind = authWallet)
      (hdecode : decodeSignedActionV1 rawAction = .ok signed)
      (hverify : crypto.verifySignedActionV1 signed networkDomain descriptor.serviceKey
        action.selector = .ok verified) : Authorized rawAction (some verified.validUntil)
  | controller {action : JamScriptActionDescriptorV1 M} {signed : SignedActionV2View}
      {verified : VerifiedOwnershipAction} {nonce : UInt64}
      (hresolve : descriptor.resolveAction rawAction = .ok action)
      (hkind : action.authKind = authOwnership)
      (hdecode : decodeSignedActionV2 rawAction = .ok signed)
      (hverify : crypto.verifySignedActionV2 signed networkDomain descriptor.serviceKey
        action.selector
        (some nonce) = .ok verified) : Authorized rawAction (some verified.validUntil)

/-- The action is authorized, and its limit is kept. -/
def AuthorizedBy (rawAction : Bytes) (keeps : UInt64 → Prop) : Prop :=
  ∃ limit, Authorized crypto descriptor networkDomain rawAction limit ∧
    ∀ validUntil ∈ limit, keeps validUntil

variable {crypto descriptor networkDomain}

theorem AuthorizedBy.mono {rawAction : Bytes} {keeps keeps' : UInt64 → Prop}
    (h : AuthorizedBy crypto descriptor networkDomain rawAction keeps)
    (hkeeps : ∀ validUntil, keeps validUntil → keeps' validUntil) :
    AuthorizedBy crypto descriptor networkDomain rawAction keeps' := by
  obtain ⟨limit, hauthorized, hlimit⟩ := h
  exact ⟨limit, hauthorized, fun validUntil hmem => hkeeps validUntil (hlimit validUntil hmem)⟩

section Programs

variable {ε : Type} [ExternalStateAccess ε] {memory : M} {context : ExecutionContext OverlayState ε}
  {action : JamScriptActionDescriptorV1 M} {rawAction : Bytes}

/-- The action is authorized on the network of the context, and the context carries its limit. -/
def AuthorizedIn (crypto : CryptoLibrary) (descriptor : JamScriptServiceDescriptorV2 M)
    (before : ExecutionContext OverlayState ε) (rawAction : Bytes)
    (after : ExecutionContext OverlayState ε) : Prop :=
  AuthorizedBy crypto descriptor before.environment.networkDomain rawAction (EndsBy · after)

theorem wp_authenticateWallet_authorized
    (hresolve : descriptor.resolveAction rawAction = .ok action)
    (hkind : action.authKind = authWallet) (hbase : DiscardsFailedReads context.state) :
    Fallible.wp ExecutionContext.handle (authenticateWallet crypto descriptor action rawAction)
      (fun _ _ after => AuthorizedIn crypto descriptor context rawAction after)
      (fun _ _ _ => True) memory
      context := by
  unfold authenticateWallet
  rw [Fallible.wp_bind]
  refine Fallible.wp_ofExcept_mapError (fun signed hdecode => ?_) fun _ _ => trivial
  rw [Fallible.wp_bind, Fallible.wp_tell, handle_networkDomain, Fallible.wp_bind]
  refine Fallible.wp_ofExcept_mapError (fun verified hverify => ?_) fun _ _ => trivial
  rw [Fallible.wp_bind]
  refine Fallible.wp_mono (wp_readNonce hbase fun value nonce _ _ => ?_) (fun _ _ _ h => h)
    fun _ _ _ _ => trivial
  rw [Fallible.wp_bind, Fallible.wp_ofExcept]
  unfold ensure
  split_ifs
  case neg => trivial
  case pos =>
    rw [Fallible.wp_bind]
    refine wp_consumeNonce_endsBy fun after hafter => ?_
    exact ⟨_, .wallet hresolve hkind hdecode hverify, by rintro _ ⟨⟩; exact hafter⟩

theorem wp_authenticateOwnership_authorized
    (hresolve : descriptor.resolveAction rawAction = .ok action)
    (hkind : action.authKind = authOwnership) (hbase : DiscardsFailedReads context.state) :
    Fallible.wp ExecutionContext.handle (authenticateOwnership crypto descriptor action rawAction)
      (fun _ _ after => AuthorizedIn crypto descriptor context rawAction after)
      (fun _ _ _ => True) memory
      context := by
  unfold authenticateOwnership
  rw [Fallible.wp_bind]
  refine Fallible.wp_ofExcept_mapError (fun signed hdecode => ?_) fun _ _ => trivial
  rw [Fallible.wp_bind, Fallible.wp_ofExcept]
  unfold ensure
  split_ifs
  case neg => trivial
  case pos =>
    dsimp only
    rw [Fallible.wp_bind]
    refine Fallible.wp_ofExcept_mapError (fun key _ => ?_) fun _ _ => trivial
    rw [Fallible.wp_bind]
    refine Fallible.wp_mono (wp_readNonce hbase fun value nonce _ _ => ?_) (fun _ _ _ h => h)
      fun _ _ _ _ => trivial
    rw [Fallible.wp_bind, Fallible.wp_tell, handle_networkDomain, Fallible.wp_bind]
    refine Fallible.wp_ofExcept_mapError (fun verified hverify => ?_) fun _ _ => trivial
    rw [Fallible.wp_bind, Fallible.wp_tell, Fallible.wp_bind]
    refine wp_consumeNonce_endsBy fun after hafter => ?_
    rw [Fallible.wp_bind, Fallible.wp_ofExcept]
    split
    · exact ⟨_, .controller hresolve hkind hdecode hverify, by rintro _ ⟨⟩; exact hafter⟩
    · trivial

theorem wp_authenticate_authorized (hresolve : descriptor.resolveAction rawAction = .ok action)
    (hbase : DiscardsFailedReads context.state) :
    Fallible.wp ExecutionContext.handle (authenticate crypto descriptor action rawAction)
      (fun _ _ after => AuthorizedIn crypto descriptor context rawAction after)
      (fun error _ _ => Discarded error) memory context := by
  have hpost : Fallible.wp ExecutionContext.handle (authenticate crypto descriptor action rawAction)
      (fun _ _ after => AuthorizedIn crypto descriptor context rawAction after)
      (fun _ _ _ => True) memory
      context := by
    unfold authenticate
    split_ifs with hpublic honly hwallet hownership
    · trivial
    · exact ⟨none, .anonymous hresolve hpublic (not_not.mp honly), by rintro _ ⟨⟩⟩
    · exact wp_authenticateWallet_authorized hresolve hwallet hbase
    · exact wp_authenticateOwnership_authorized hresolve hownership hbase
    · trivial
  have hfail := @wp_authenticate ε M _ memory context crypto descriptor action rawAction hbase
  rw [Fallible.wp_iff] at hpost hfail ⊢
  exact ⟨hpost.1, fun error herror => (hfail.2 error herror).1⟩

/-- An action of the descriptor application is discarded, or it was authorized and its limit is
kept. -/
theorem wp_descriptorApplication_authorized (hbase : DiscardsFailedReads context.state) :
    Fallible.wp ExecutionContext.handle (descriptorApplication crypto descriptor rawAction)
      (fun _ _ after => AuthorizedIn crypto descriptor context rawAction after)
      (fun error _ after => Discarded error ∨ AuthorizedIn crypto descriptor context
        rawAction after) memory
      context := by
  unfold descriptorApplication
  rw [Fallible.wp_bind, Fallible.wp_ofExcept]
  cases hresolve : descriptor.resolveAction rawAction with
  | error error => exact .inl (resolveAction_error descriptor hresolve)
  | ok action =>
    dsimp only
    rw [Fallible.wp_bind]
    refine Fallible.wp_mono (wp_authenticate_authorized hresolve hbase) ?_ fun _ _ _ h => .inl h
    rintro ⟨payload, authContext⟩ memory' middle hmiddle
    refine Fallible.wp_mono (Fallible.wp_of_exec (Q := AuthorizedIn crypto descriptor context
      rawAction) ?_) (fun _ _ _ h => h) fun _ _ _ h => .inr h
    exact hmiddle.mono fun validUntil h => h.exec _ _

end Programs

/-- A run whose writes are kept was authorized, and carries a limit that is no later than its
signer's. -/
theorem DescriptorWorld.runAction_authorized {contents : Bytes → Option Bytes}
    {world : BatchWorld M} (hworld : DescriptorWorld crypto descriptor contents world) (memory : M)
    (writes : WriteSet Bytes (Option Bytes)) (action : Bytes)
    (hcommitted : (world.runAction memory writes action).1.committed = true) :
    AuthorizedBy crypto descriptor world.environment.networkDomain action fun validUntil =>
      ∃ limit, (world.runAction memory writes action).1.validUntil = some limit ∧
        limit ≤ validUntil := by
  have hwp := @wp_descriptorApplication_authorized M crypto descriptor ExternalView _ memory
    ((world.batch memory writes).context world.toBatchSetup) action hworld.discards
  rw [← congrFun hworld.application action, Fallible.wp_iff] at hwp
  cases hresult : ((world.batch memory writes).execute world.toBatchSetup action).1.1 with
  | ok _ => exact hwp.1 _ hresult
  | error error =>
    have hcommits : commits (.error error) = true := hresult ▸ hcommitted
    rcases hwp.2 error hresult with hdiscarded | hauthorized
    · exact absurd (hcommits.symm.trans hdiscarded) (by decide)
    · exact hauthorized

end Authorized

/-! ## Accepted results -/

section History

variable {M : Type} {L : TrieLibrary} {crypto : CryptoLibrary}
  {descriptor : JamScriptServiceDescriptorV2 M} {contents : StateRoot → Bytes → Option Bytes}

/-- The changes of a diff are in order, so sorting them changes nothing. -/
theorem sorted_changes_diffOfWrites (writes : WriteSet Bytes (Option Bytes)) :
    (diffOfWrites writes).sorted.changes = (diffOfWrites writes).changes := by
  refine insertionSort_of_ordered StateChangeV1.key ?_
  rw [diffOfWrites, List.map_map, List.pairwise_map]
  exact Std.ExtTreeMap.ordered_keys_toList

namespace RefinedResult

/-- The runs behind a result. -/
def runs (result : RefinedResult L crypto descriptor) : List ActionRun :=
  descriptorRuns L crypto descriptor result.memory result.input result.environment

/-- The changes in the recovery payload of a result. -/
def recovered (result : RefinedResult L crypto descriptor) : List StateChangeV1 :=
  match StateRecoveryV1.decode result.output.recoveryPayload with
  | .ok recovery => recovery.diff.changes
  | .error _ => []

/-- A run is a run of the descriptor application in the world of its refine call. -/
theorem run_eq (result : RefinedResult L crypto descriptor) {run : ActionRun}
    (hrun : run ∈ result.runs) :
    ∃ (contents : Bytes → Option Bytes) (world : BatchWorld M) (memory : M)
      (writes : WriteSet Bytes (Option Bytes)),
      DescriptorWorld crypto descriptor contents world ∧
        world.environment.networkDomain = result.environment.networkDomain ∧
        run = (world.runAction memory writes run.action).1 := by
  -- what the witness answers is a sound reading of itself
  have hread : ReadSound L (fun _ key =>
    ((L.get (L.intoMemoryDb result.input.managedState.storageProof)
      result.input.managedState.parentRoot key).toOption).getD none) result.input.managedState := by
    intro key value hget
    simp [hget, Except.toOption]
  obtain ⟨before, after, hruns⟩ := List.append_of_mem hrun
  obtain ⟨memory', heq⟩ := BatchWorld.batchRuns_split _ hruns
  exact ⟨_, _, memory', _, descriptorWorld_refine hread, rfl, heq⟩

theorem authorized (result : RefinedResult L crypto descriptor) {run : ActionRun}
    (hrun : run ∈ result.runs) (hcommitted : run.committed = true) :
    AuthorizedBy crypto descriptor result.environment.networkDomain run.action fun validUntil =>
      ∃ limit, result.output.transitionValidUntil = some limit ∧ limit ≤ validUntil := by
  obtain ⟨contents, world, memory, writes, hworld, hdomain, heq⟩ := result.run_eq hrun
  have hauthorized := hworld.runAction_authorized memory writes run.action (heq ▸ hcommitted)
  rw [← heq, hdomain] at hauthorized
  refine hauthorized.mono fun validUntil hlimit => ?_
  obtain ⟨limit, hlimit, hle⟩ := hlimit
  obtain ⟨smallest, hsmallest, hle'⟩ := transitionLimit_le hrun hcommitted hlimit
  exact ⟨smallest, (descriptorRuns_reports result.refined).validUntil.trans hsmallest,
    UInt64.le_trans hle' hle⟩

/-- The recovery payload lists the writes that are kept. -/
theorem recovered_eq (result : RefinedResult L crypto descriptor) :
    result.recovered = (diffOfWrites (committedWrites ∅ result.runs)).changes := by
  obtain ⟨_, -, hbuilt⟩ := bind_eq_ok.mp (descriptorRuns_reports result.refined).encodes
  obtain ⟨_, -, hbuilt⟩ := bind_eq_ok.mp hbuilt
  obtain ⟨recovery, hrecovery, hbuilt⟩ := bind_eq_ok.mp hbuilt
  obtain ⟨payload, hpayload, houtput⟩ := bind_eq_ok.mp hbuilt
  obtain ⟨_, -, hnew⟩ := bind_eq_ok.mp hrecovery
  obtain ⟨canonical, hcanonical, hnew⟩ := bind_eq_ok.mp hnew
  have hpayload' : result.output.recoveryPayload = payload :=
    congrArg RuntimeRefineOutputV1.recoveryPayload (Except.ok.inj houtput).symm
  obtain ⟨_, -, hsorted⟩ := bind_eq_ok.mp hcanonical
  rw [recovered, hpayload', (StateRecoveryV1.encode_eq_ok hpayload).2, ← Except.ok.inj hnew]
  dsimp only
  rw [← Except.ok.inj hsorted]
  exact sorted_changes_diffOfWrites _

end RefinedResult

/-- The commitment slot after a history of calls. -/
def slotAfterHistory (slot : Option Bytes) (calls : List (AccumulateCall L crypto descriptor)) :
    Option Bytes :=
  calls.foldl (fun slot call => slotAfter slot (minijamAccumulate (call.host slot))) slot

/-- The accepted results lead from the root in the slot before a history to the one after it. -/
theorem acceptedHistory_path_slot (calls : List (AccumulateCall L crypto descriptor))
    (stored : Option StateRoot) :
    ∃ stored' : Option StateRoot, slotAfterHistory (stored.map commitmentBytes) calls =
      stored'.map commitmentBytes ∧
      Path (stored.getD emptyStateRootV1) (acceptedHistory (stored.map commitmentBytes) calls)
        (stored'.getD emptyStateRootV1) := by
  induction calls generalizing stored with
  | nil => exact ⟨stored, rfl, .nil _⟩
  | cons call calls ih =>
    obtain ⟨middle, hslot, hpath⟩ := call_path call stored
    obtain ⟨stored', hslot', hrest⟩ := ih middle
    refine ⟨stored', ?_, ?_⟩
    · rw [slotAfterHistory, List.foldl_cons, hslot]
      exact hslot'
    · rw [acceptedHistory, hslot]
      exact hpath.append hrest

/-- Every accepted result was accepted by one of the calls, on the slot that the calls before it
left. -/
theorem mem_acceptedHistory_split {calls : List (AccumulateCall L crypto descriptor)}
    {slot : Option Bytes} {result : RefinedResult L crypto descriptor}
    (h : result ∈ acceptedHistory slot calls) :
    ∃ before call after, calls = before ++ call :: after ∧ result ∈ call.accepted
      (slotAfterHistory slot before) := by
  induction calls generalizing slot with
  | nil => cases h
  | cons call calls ih =>
    rw [acceptedHistory, List.mem_append] at h
    rcases h with h | h
    · exact ⟨[], call, calls, rfl, h⟩
    · obtain ⟨before, later, after, rfl, hmem⟩ := ih h
      exact ⟨call :: before, later, after, rfl, hmem⟩

/-- A call accepts no result after its limit. -/
theorem AccumulateCall.live_of_accepted {call : AccumulateCall L crypto descriptor}
    {slot : Option Bytes} {result : RefinedResult L crypto descriptor}
    (h : result ∈ call.accepted slot) :
    ∃ tick serviceId itemsCount, decodeAccumulateInitInput call.initInput =
      .ok (tick, serviceId, itemsCount) ∧
      ∀ limit ∈ result.output.transitionValidUntil, tick ≤ limit := by
  unfold AccumulateCall.accepted at h
  split at h
  · cases h
  · rename_i tick serviceId itemsCount hdecode
    refine ⟨tick, serviceId, itemsCount, hdecode, ?_⟩
    generalize (call.host slot).startRoot = current at h
    generalize call.results = results at h
    induction results generalizing current with
    | nil => cases h
    | cons first results ih =>
      cases first with
      | none => exact ih current h
      | some first =>
        obtain ⟨dependencies, -, hheader⟩ :=
          RuntimeRefineOutputV1.decodeTransitionHeader_encode first.encoded
        have hheader' : headerOf (some first.bytes) = some (first.output.header dependencies) := by
          rw [headerOf, Option.bind_some, hheader]
          rfl
        rw [acceptedRefined, hheader'] at h
        dsimp only at h
        split_ifs at h with hadvances
        · rcases List.mem_cons.mp h with rfl | h
          · exact hadvances.2.1
          · exact ih _ h
        · exact ih _ h

/-- A write that a batch leaves was made by one of its kept runs. -/
theorem run_of_committedWrites {runs : List ActionRun} {writes : WriteSet Bytes (Option Bytes)}
    {key : Bytes} {value : Option Bytes} (h : (committedWrites writes runs)[key]? = some value) :
    writes[key]? = some value ∨ ∃ run ∈ runs, run.committed = true ∧
    run.changes[key]? = some value := by
  induction runs generalizing writes with
  | nil => exact .inl h
  | cons run runs ih =>
    rw [committedWrites_cons] at h
    rcases ih h with hfirst | ⟨later, hlater, hwritten⟩
    · by_cases hcommitted : run.committed = true
      · rw [committedWrites_kept _ hcommitted, Std.ExtTreeMap.getElem?_union] at hfirst
        cases hchange : run.changes[key]? with
        | none =>
          rw [hchange] at hfirst
          exact .inl hfirst
        | some change =>
          rw [hchange] at hfirst
          exact .inr ⟨run, List.mem_cons_self, hcommitted, hchange.trans hfirst⟩
      · rw [committedWrites_discarded _ (by simpa using hcommitted)] at hfirst
        exact .inl hfirst
    · exact .inr ⟨later, List.mem_cons_of_mem _ hlater, hwritten⟩

namespace Path

variable {start final : StateRoot} {results : List (RefinedResult L crypto descriptor)}

/-- The state at the end of a path is the one that the recovery payloads rebuild from its start. -/
theorem rebuilt (h : Path start results final)
    (hupdate : ∀ result ∈ results, UpdateSound L contents result.input.managedState
      (diffOfWrites (committedWrites ∅ result.runs))) :
    contents final = results.foldl (fun state result => applyChanges state result.recovered)
      (contents start) := by
  induction h with
  | nil root => rfl
  | @cons result results final _ ih =>
    have hnew := contents_newRoot result.refined (hupdate result List.mem_cons_self)
    rw [List.foldl_cons, ih fun later hlater => hupdate later (List.mem_cons_of_mem _ hlater),
      hnew, stateAfter,
      ← applyChanges_diffOfWrites, result.recovered_eq,
      (descriptorRuns_reports result.refined).parentRoot]
    rfl

/-- A value at the end of a path was there at its start, or a kept run wrote it. -/
theorem written (h : Path start results final)
    (hupdate : ∀ result ∈ results, UpdateSound L contents result.input.managedState
      (diffOfWrites (committedWrites ∅ result.runs))) {key value : Bytes}
    (hvalue : contents final key = some value) :
    contents start key = some value ∨ ∃ result ∈ results, ∃ run ∈ result.runs,
      run.committed = true ∧ run.changes[key]? = some (some value) := by
  induction h with
  | nil root => exact .inl hvalue
  | @cons result results final _ ih =>
    rcases ih (fun later hlater => hupdate later (List.mem_cons_of_mem _ hlater)) hvalue with
      hthere | ⟨later, hlater, hwritten⟩
    · rw [contents_newRoot result.refined (hupdate result List.mem_cons_self), stateAfter,
        applyWrites] at hthere
      cases hwrite : (committedWrites ∅ result.runs)[key]? with
      | none =>
        rw [show descriptorRuns L crypto descriptor result.memory result.input
          result.environment = result.runs from rfl, hwrite] at hthere
        rw [(descriptorRuns_reports result.refined).parentRoot]
        exact .inl hthere
      | some change =>
        rw [show descriptorRuns L crypto descriptor result.memory result.input
          result.environment = result.runs from rfl, hwrite] at hthere
        obtain rfl : change = some value := hthere
        obtain hempty | ⟨run, hrun, hwritten⟩ := run_of_committedWrites hwrite
        · exact absurd hempty (by simp)
        · exact .inr ⟨result, List.mem_cons_self, run, hrun, hwritten⟩
    · exact .inr ⟨later, List.mem_cons_of_mem _ hlater, hwritten⟩

end Path

variable {calls : List (AccumulateCall L crypto descriptor)}

/-- The library updates tries correctly on all results that the calls are given. -/
def UpdatesSound (contents : StateRoot → Bytes → Option Bytes)
    (calls : List (AccumulateCall L crypto descriptor)) :
    Prop :=
  ∀ call ∈ calls, ∀ result, some result ∈ call.results →
    UpdateSound L contents result.input.managedState (diffOfWrites (committedWrites ∅ result.runs))

theorem UpdatesSound.accepted (h : UpdatesSound contents calls)
    {result : RefinedResult L crypto descriptor} (hresult : result ∈ acceptedHistory none calls) :
    UpdateSound L contents result.input.managedState
      (diffOfWrites (committedWrites ∅ result.runs)) := by
  obtain ⟨call, hcall, hmem⟩ := mem_acceptedHistory hresult
  exact h call hcall result hmem

/-- The state behind the commitment that a history leaves is the one that the recovery payloads of
the accepted results rebuild from the empty state. -/
theorem history_rebuilt (hempty : ∀ key, contents emptyStateRootV1 key = none)
    (hupdate : UpdatesSound contents calls) :
    ∃ stored : Option StateRoot, slotAfterHistory none calls = stored.map commitmentBytes ∧
      contents (stored.getD emptyStateRootV1) = (acceptedHistory none calls).foldl
        (fun state result => applyChanges state result.recovered) fun _ => none := by
  obtain ⟨stored, hslot, hpath⟩ := acceptedHistory_path_slot calls none
  refine ⟨stored, hslot, ?_⟩
  rw [hpath.rebuilt fun result hresult => hupdate.accepted hresult]
  congr 1
  exact funext hempty

/-- Every value of the state that a history leaves was written by a kept run of an accepted
result. -/
theorem values_written (hempty : ∀ key, contents emptyStateRootV1 key = none)
    (hupdate : UpdatesSound contents calls) :
    ∃ stored : Option StateRoot, slotAfterHistory none calls = stored.map commitmentBytes ∧
      ∀ key value, contents (stored.getD emptyStateRootV1) key = some value →
        ∃ before call after, calls = before ++ call :: after ∧
        ∃ result ∈ call.accepted (slotAfterHistory none before), ∃ run ∈ result.runs,
          run.committed = true ∧ run.changes[key]? = some (some value) := by
  obtain ⟨stored, hslot, hpath⟩ := acceptedHistory_path_slot calls none
  refine ⟨stored, hslot, fun key value hvalue => ?_⟩
  rcases hpath.written (fun result hresult => hupdate.accepted hresult) hvalue with
    hstart | ⟨result, hresult, run, hrun, hwritten⟩
  · rw [Option.getD_none, hempty] at hstart
    cases hstart
  · obtain ⟨before, call, after, hcalls, haccepted⟩ := mem_acceptedHistory_split hresult
    exact ⟨before, call, after, hcalls, result, haccepted, run, hrun, hwritten⟩

/-- Every value of the state that a history leaves was written by an action that the runtime had
verified, in a result that was accepted no later than the action's limit. -/
theorem history_values_authorized (hempty : ∀ key, contents emptyStateRootV1 key = none)
    (hupdate : UpdatesSound contents calls) :
    ∃ stored : Option StateRoot, slotAfterHistory none calls = stored.map commitmentBytes ∧
      ∀ key value, contents (stored.getD emptyStateRootV1) key = some value →
        ∃ before call after, calls = before ++ call :: after ∧
        ∃ result ∈ call.accepted (slotAfterHistory none before), ∃ run ∈ result.runs,
          run.committed = true ∧ run.changes[key]? = some (some value) ∧
          ∃ tick serviceId itemsCount, decodeAccumulateInitInput call.initInput =
            .ok (tick, serviceId, itemsCount) ∧
            AuthorizedBy crypto descriptor result.environment.networkDomain run.action
              (tick ≤ ·) := by
  obtain ⟨stored, hslot, hvalues⟩ := values_written hempty hupdate
  refine ⟨stored, hslot, fun key value hvalue => ?_⟩
  obtain ⟨before, call, after, hcalls, result, haccepted, run, hrun, hcommitted, hwritten⟩ :=
    hvalues key value hvalue
  obtain ⟨tick, serviceId, itemsCount, hinput, hlive⟩ := AccumulateCall.live_of_accepted haccepted
  refine ⟨before, call, after, hcalls, result, haccepted, run, hrun, hcommitted, hwritten,
    tick, serviceId, itemsCount, hinput, (result.authorized hrun hcommitted).mono ?_⟩
  rintro validUntil ⟨limit, hlimit, hle⟩
  exact UInt64.le_trans (hlive limit hlimit) hle

/-- After a history, values are stored under keys that the scripts of the service may write, and
under nonce keys; a nonce key holds the successor of a nonce. -/
theorem history_key_spaces (hempty : ∀ key, contents emptyStateRootV1 key = none)
    (hupdate : UpdatesSound contents calls) :
    ∃ stored : Option StateRoot, slotAfterHistory none calls = stored.map commitmentBytes ∧
      ∀ key value, contents (stored.getD emptyStateRootV1) key = some value →
        descriptor.applicationKeyAllowed key = true ∨ ∃ (principal : Principal) (nonce : UInt64),
          principal.nonceKey crypto.blake2_256 = .ok key ∧ value = u64ToLe (nonce + 1) := by
  obtain ⟨stored, hslot, hvalues⟩ := values_written hempty hupdate
  refine ⟨stored, hslot, fun key value hvalue => ?_⟩
  obtain ⟨_, _, _, _, result, _, run, hrun, hcommitted, hwritten⟩ := hvalues key value hvalue
  obtain ⟨_, _, memory, writes, hworld, _, heq⟩ := result.run_eq hrun
  have hkept := hworld.runAction_kept memory writes run.action (heq ▸ hcommitted)
  rw [← heq] at hkept
  rcases hkept.changed hwritten with hallowed | ⟨principal, nonce, -, hkey, hnext⟩
  · exact .inl hallowed
  · exact .inr ⟨principal, nonce, hkey, Option.some.inj hnext⟩

/-- No call consumes an action that the runtime has not verified, or whose limit is over. -/
theorem consumed_actions_authorized (call : AccumulateCall L crypto descriptor)
    (slot : Option Bytes) {tick serviceId itemsCount : UInt64}
    (hinput : decodeAccumulateInitInput call.initInput = .ok (tick, serviceId, itemsCount)) :
    ∀ result ∈ call.accepted slot, ∀ entry ∈ result.input.actions.zip result.output.receipts,
      entry.2.consumed = true →
        AuthorizedBy crypto descriptor result.environment.networkDomain entry.1 (tick ≤ ·) := by
  rintro result haccepted ⟨action, receipt⟩ hentry hconsumed
  obtain ⟨tick', _, _, hinput', hlive⟩ := AccumulateCall.live_of_accepted haccepted
  obtain rfl : tick = tick' := congrArg Prod.fst (Except.ok.inj (hinput.symm.trans hinput'))
  have hreport := descriptorRuns_reports result.refined
  rw [← hreport.actions, hreport.receipts, List.zip_map', List.mem_map] at hentry
  obtain ⟨run, hrun, hentry⟩ := hentry
  obtain ⟨rfl, rfl⟩ := Prod.mk.inj hentry
  rw [ActionRun.receipt_consumed] at hconsumed
  refine (result.authorized hrun hconsumed).mono ?_
  rintro validUntil ⟨limit, hlimit, hle⟩
  exact UInt64.le_trans (hlive limit hlimit) hle

/-! ### The history of a ping -/

theorem eq_pingResult {copies : ℕ} {result : RefinedResult _ pingCrypto pingDescriptor}
    (h : some result ∈ (pingCall copies).results) : result = pingResult :=
  Option.some.inj (List.eq_of_mem_replicate h)

theorem pingCalls_updatesSound : UpdatesSound pingContents [pingCall 2, pingCall 1] := by
  intro call hcall result hresult
  rcases List.mem_pair.mp hcall with rfl | rfl
  · exact eq_pingResult hresult ▸ pingInput_updateSound
  · exact eq_pingResult hresult ▸ pingInput_updateSound

/-- The slot holds the commitment to the root with the controller's nonce. -/
theorem stored_of_pingCalls {stored : Option StateRoot}
    (h : slotAfterHistory none [pingCall 2, pingCall 1] = stored.map commitmentBytes) :
    stored = some pingRoot := by
  have hslot : slotAfterHistory none [pingCall 2, pingCall 1] =
    some (commitmentBytes pingRoot) := by decide +kernel
  rw [hslot] at h
  cases stored with
  | none => cases h
  | some root =>
    have hbytes : commitmentBytes pingRoot = commitmentBytes root := Option.some.inj h
    exact congrArg some (List.Vector.toList_injective
      (List.cons.inj (List.cons.inj hbytes).2).2).symm

theorem history_rebuilt_ping :
    pingContents pingRoot = (acceptedHistory none [pingCall 2, pingCall 1]).foldl
      (fun state result => applyChanges state result.recovered) fun _ => none := by
  obtain ⟨stored, hslot, hstate⟩ := history_rebuilt pingContents_empty pingCalls_updatesSound
  rw [stored_of_pingCalls hslot] at hstate
  exact hstate

/-- The nonce was written by an accepted action. -/
theorem history_values_authorized_ping :
    ∃ before call after, [pingCall 2, pingCall 1] = before ++ call :: after ∧
      ∃ result ∈ call.accepted (slotAfterHistory none before), ∃ run ∈ result.runs,
        run.committed = true ∧ run.changes[pingNonceKey]? = some (some (u64ToLe 1)) := by
  obtain ⟨stored, hslot, hvalues⟩ := history_values_authorized pingContents_empty
    pingCalls_updatesSound
  rw [stored_of_pingCalls hslot] at hvalues
  obtain ⟨before, call, after, hcalls, result, haccepted, run, hrun, hcommitted, hwritten, -⟩ :=
    hvalues pingNonceKey (u64ToLe 1) (by decide +kernel)
  exact ⟨before, call, after, hcalls, result, haccepted, run, hrun, hcommitted, hwritten⟩

/-- The nonce key is no key of the scripts. -/
theorem history_key_spaces_ping : ∃ (principal : Principal) (nonce : UInt64),
    principal.nonceKey pingCrypto.blake2_256 = .ok pingNonceKey ∧
    u64ToLe 1 = u64ToLe (nonce + 1) := by
  obtain ⟨stored, hslot, hkeys⟩ := history_key_spaces pingContents_empty pingCalls_updatesSound
  rw [stored_of_pingCalls hslot] at hkeys
  rcases hkeys pingNonceKey (u64ToLe 1) (by decide +kernel) with hallowed | hnonce
  · exact absurd hallowed (by decide +kernel)
  · exact hnonce

theorem consumed_actions_authorized_ping :
    AuthorizedBy pingCrypto pingDescriptor zeroEnvironment.networkDomain pingAction
      ((5 : UInt64) ≤ ·) := by
  have hinput : decodeAccumulateInitInput (pingCall 2).initInput = .ok (5, 7, 2) := by
    decide +kernel
  have hone : ((pingCall 2).accepted none).length = 1 := by decide +kernel
  obtain ⟨result, hresult⟩ := List.length_eq_one_iff.mp hone
  have haccepted : result ∈ (pingCall 2).accepted none := hresult ▸ List.mem_singleton_self result
  have hhistory : result ∈ acceptedHistory none [pingCall 2] := by
    rw [acceptedHistory]
    exact List.mem_append_left _ haccepted
  obtain ⟨_, hcall, hmem⟩ := mem_acceptedHistory hhistory
  obtain rfl := List.mem_singleton.mp hcall
  obtain rfl := eq_pingResult hmem
  exact consumed_actions_authorized (pingCall 2) none hinput pingResult haccepted
    (pingAction, ⟨pingActionHash, .failed, some 5⟩) List.mem_cons_self (by decide +kernel)

end History

end JamScript
