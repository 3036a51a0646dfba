import JamScript.Guest.Accumulate
import JamScript.Guest.Nonces

/-!
# Replay protection over a whole history

A service's commitment slot starts absent and is written by accumulate alone. The results it is
given come from refine calls of one descriptor service, in any order and with repetitions. The
results that are accepted form a path of roots from the empty one (`Path`), along which the stored
nonce of every principal is one counter: so its consumed actions carry 0, 1, 2, ... in the order of
acceptance, and no signed action is consumed twice.
-/

namespace JamScript

open Codec Effects

/-! ## Results and calls -/

/-- A result of the service: the bytes of a successful refine call. -/
structure RefinedResult {M : Type} (L : TrieLibrary) (crypto : CryptoLibrary)
    (descriptor : JamScriptServiceDescriptorV2 M) where
  memory : M
  input : RuntimeRefineInputV1
  environment : ExecutionEnvironmentV1
  output : RuntimeRefineOutputV1
  bytes : Bytes
  refined : refineWithEnvironment L crypto.blake2_256 (descriptorApplication crypto descriptor)
    memory input environment = .ok output
  encoded : output.encode = .ok bytes

/-- One accumulate call: what its host supplies besides the commitment slot. A result the host fails
to deliver is `none`. -/
structure AccumulateCall {M : Type} (L : TrieLibrary) (crypto : CryptoLibrary)
    (descriptor : JamScriptServiceDescriptorV2 M) where
  initInput : Bytes
  otherStorage : Bytes → StorageRead
  serviceStorageRead : UInt32 → Bytes → StorageRead
  results : List (Option (RefinedResult L crypto descriptor))

section History

variable {M : Type} {L : TrieLibrary} {crypto : CryptoLibrary}
  {descriptor : JamScriptServiceDescriptorV2 M}

/-- The host of a call when the commitment slot holds `slot`. -/
def AccumulateCall.host (call : AccumulateCall L crypto descriptor) (slot : Option Bytes) :
    AccumulateHost where
  initInput := call.initInput
  storageRead key :=
    if key = managedStateCommitmentKeyV1 then storageReadHost slot else call.otherStorage key
  serviceStorageRead := call.serviceStorageRead
  results := call.results.map fun result => result.map RefinedResult.bytes

/-- The commitment slot after a list of storage writes. -/
def slotAfter (slot : Option Bytes) (writes : List (Bytes × Bytes)) : Option Bytes :=
  writes.foldl (fun slot write =>
    if write.1 = managedStateCommitmentKeyV1 then some write.2 else slot) slot

/-- The results that advance the root, in order. -/
def acceptedRefined (host : AccumulateHost) (tick : UInt64) :
    StateRoot → List (Option (RefinedResult L crypto descriptor)) →
      List (RefinedResult L crypto descriptor)
  | _, [] => []
  | current, none :: results => acceptedRefined host tick current results
  | current, some result :: results =>
    match headerOf (some result.bytes) with
    | none => acceptedRefined host tick current results
    | some header =>
      if host.Advances tick current header then
        result :: acceptedRefined host tick header.newRoot results
      else acceptedRefined host tick current results

/-- The results a call accepts. -/
def AccumulateCall.accepted (call : AccumulateCall L crypto descriptor) (slot : Option Bytes) :
    List (RefinedResult L crypto descriptor) :=
  match decodeAccumulateInitInput call.initInput with
  | .error _ => []
  | .ok (tick, _, _) =>
    acceptedRefined (call.host slot) tick (call.host slot).startRoot call.results

/-- The results a history of calls accepts, each call reading the slot the calls before it left. -/
def acceptedHistory : Option Bytes → List (AccumulateCall L crypto descriptor) →
    List (RefinedResult L crypto descriptor)
  | _, [] => []
  | slot, call :: calls =>
    call.accepted slot ++ acceptedHistory (slotAfter slot (minijamAccumulate (call.host slot)))
      calls

/-! ## Paths of roots -/

/-- Results that lead from one root to another, each starting where the one before it ended. -/
inductive Path : StateRoot → List (RefinedResult L crypto descriptor) → StateRoot → Prop where
  | nil (root : StateRoot) : Path root [] root
  | cons {result : RefinedResult L crypto descriptor}
      {results : List (RefinedResult L crypto descriptor)} {final : StateRoot}
      (rest : Path result.output.newRoot results final) :
      Path result.output.parentRoot (result :: results) final

theorem Path.append {start middle final : StateRoot}
    {results later : List (RefinedResult L crypto descriptor)} (h : Path start results middle)
    (h' : Path middle later final) : Path start (results ++ later) final := by
  induction h with
  | nil root => exact h'
  | cons _ ih => exact .cons (ih h')

/-- The header of a result carries its roots. -/
theorem RefinedResult.headerOf_bytes (result : RefinedResult L crypto descriptor) :
    ∃ header, headerOf (some result.bytes) = some header ∧
      header.parentRoot = result.output.parentRoot ∧ header.newRoot = result.output.newRoot := by
  obtain ⟨dependencies, -, hdecode⟩ :=
    RuntimeRefineOutputV1.decodeTransitionHeader_encode result.encoded
  refine ⟨result.output.header dependencies, ?_, rfl, rfl⟩
  rw [headerOf, Option.bind_some, hdecode]
  rfl

/-- The accepted results of a call lead from the root the loop starts from to the root it
reaches. -/
theorem acceptedRefined_path (host : AccumulateHost) (tick : UInt64) (current : StateRoot)
    (results : List (Option (RefinedResult L crypto descriptor))) :
    Path current (acceptedRefined host tick current results)
      ((results.map fun result => result.map RefinedResult.bytes).foldl (nextRoot host tick)
        current) := by
  induction results generalizing current with
  | nil => exact .nil current
  | cons result results ih =>
    cases result with
    | none => exact ih current
    | some result =>
      obtain ⟨header, hheader, hparent, hnew⟩ := result.headerOf_bytes
      rw [acceptedRefined, List.map_cons, Option.map_some, List.foldl_cons, nextRoot, hheader]
      dsimp only
      split_ifs with hadvances
      · obtain rfl : header.parentRoot = current := hadvances.1
        rw [hparent, hnew]
        exact .cons (ih _)
      · exact ih current

theorem call_path (call : AccumulateCall L crypto descriptor) (stored : Option StateRoot) :
    ∃ stored' : Option StateRoot,
      slotAfter (stored.map commitmentBytes)
        (minijamAccumulate (call.host (stored.map commitmentBytes))) = stored'.map commitmentBytes ∧
      Path (stored.getD emptyStateRootV1) (call.accepted (stored.map commitmentBytes))
        (stored'.getD emptyStateRootV1) := by
  have hstart : (call.host (stored.map commitmentBytes)).startRoot = stored.getD emptyStateRootV1 :=
    startRoot_eq (by simp [AccumulateCall.host])
  unfold AccumulateCall.accepted
  cases hdecode : decodeAccumulateInitInput call.initInput with
  | error e =>
    refine ⟨stored, ?_, .nil _⟩
    have hnone : minijamAccumulate (call.host (stored.map commitmentBytes)) = [] := by
      unfold minijamAccumulate
      rw [show (call.host (stored.map commitmentBytes)).initInput =
        call.initInput from rfl, hdecode]
    rw [hnone]
    rfl
  | ok decoded =>
    obtain ⟨tick, serviceId, itemsCount⟩ := decoded
    have hinput : decodeAccumulateInitInput (call.host (stored.map commitmentBytes)).initInput =
        .ok (tick, serviceId, itemsCount) := hdecode
    have hwrites := minijamAccumulate_eq hinput
    have hpath := acceptedRefined_path (call.host (stored.map commitmentBytes)) tick
      (stored.getD emptyStateRootV1) call.results
    rw [hstart] at hwrites ⊢
    split_ifs at hwrites with haccepted
    · -- nothing is accepted, so the root the loop reaches is the one it started from
      have hsame := foldl_nextRoot_of_accepted_nil haccepted
      refine ⟨stored, by rw [hwrites]; rfl, ?_⟩
      rw [show (call.results.map fun result => result.map RefinedResult.bytes).foldl
        (nextRoot (call.host (stored.map commitmentBytes)) tick) (stored.getD emptyStateRootV1) =
        stored.getD emptyStateRootV1 from hsame] at hpath
      exact hpath
    · refine ⟨some _, ?_, hpath⟩
      rw [hwrites, slotAfter, List.foldl_cons, List.foldl_nil, if_pos rfl]
      rfl

/-- The results a history accepts form a path from the root of the slot it starts with. -/
theorem acceptedHistory_path (calls : List (AccumulateCall L crypto descriptor))
    (stored : Option StateRoot) :
    ∃ final, Path (stored.getD emptyStateRootV1)
      (acceptedHistory (stored.map commitmentBytes) calls) final := by
  induction calls generalizing stored with
  | nil => exact ⟨_, .nil _⟩
  | cons call calls ih =>
    obtain ⟨stored', hslot, hpath⟩ := call_path call stored
    obtain ⟨final, hrest⟩ := ih stored'
    rw [acceptedHistory, hslot]
    exact ⟨final, hpath.append hrest⟩

theorem mem_acceptedRefined {host : AccumulateHost} {tick : UInt64} {current : StateRoot}
    {results : List (Option (RefinedResult L crypto descriptor))}
    {result : RefinedResult L crypto descriptor} :
    result ∈ acceptedRefined host tick current results ↔ ∃ before after,
      results = before ++ some result :: after ∧
      host.Iterates tick
        ((before.map (Option.map RefinedResult.bytes)).foldl (nextRoot host tick) current)
        (some result.bytes) := by
  induction results generalizing current with
  | nil => simp [acceptedRefined]
  | cons first results ih =>
    -- the result is the first one, or it is accepted after the first one
    have hsplit : (∃ before after, first :: results = before ++ some result :: after ∧
          host.Iterates tick ((before.map (Option.map RefinedResult.bytes)).foldl
            (nextRoot host tick) current) (some result.bytes)) ↔
        (first = some result ∧ host.Iterates tick current (some result.bytes)) ∨
          result ∈ acceptedRefined host tick
            (nextRoot host tick current (first.map RefinedResult.bytes)) results := by
      rw [ih]
      constructor
      · rintro ⟨before, after, hresults, hiterates⟩
        rcases before with _ | ⟨head, before⟩
        · cases hresults
          exact .inl ⟨rfl, hiterates⟩
        · cases hresults
          exact .inr ⟨before, after, rfl, hiterates⟩
      · rintro (⟨rfl, hiterates⟩ | ⟨before, after, rfl, hiterates⟩)
        · exact ⟨[], results, rfl, hiterates⟩
        · exact ⟨first :: before, after, rfl, hiterates⟩
    rw [hsplit, host.iterates_iff]
    rcases first with _ | first
    · simp [acceptedRefined, nextRoot, headerOf]
    · rw [acceptedRefined, Option.map_some, nextRoot, Option.some.injEq]
      rcases hheader : headerOf (some first.bytes) with _ | header
      · refine ⟨.inr, ?_⟩
        rintro (⟨rfl, header, hfound, -⟩ | hmem)
        · cases hheader.symm.trans hfound
        · exact hmem
      · dsimp only
        split_ifs with hadvances
        · rw [List.mem_cons, eq_comm]
          refine or_congr_left (iff_self_and.mpr ?_)
          rintro rfl
          exact ⟨header, hheader, hadvances⟩
        · refine ⟨.inr, ?_⟩
          rintro (⟨rfl, _, hfound, habsurd⟩ | hmem)
          · cases hheader.symm.trans hfound
            exact absurd habsurd hadvances
          · exact hmem

/-- A call accepts a result exactly when its loop sets the flag in the iteration over it. -/
theorem AccumulateCall.mem_accepted_iff {call : AccumulateCall L crypto descriptor}
    {slot : Option Bytes} {result : RefinedResult L crypto descriptor} :
    result ∈ call.accepted slot ↔ ∃ tick serviceId itemsCount before after,
      decodeAccumulateInitInput call.initInput = .ok (tick, serviceId, itemsCount) ∧
      call.results = before ++ some result :: after ∧
      (call.host slot).Iterates tick
        ((call.host slot).rootAfter tick (before.map (Option.map RefinedResult.bytes)))
        (some result.bytes) := by
  unfold AccumulateCall.accepted
  cases decodeAccumulateInitInput call.initInput with
  | error e => simp
  | ok decoded =>
    obtain ⟨tick, serviceId, itemsCount⟩ := decoded
    simp only [mem_acceptedRefined, AccumulateHost.rootAfter_eq, Except.ok.injEq, Prod.mk.injEq]
    constructor
    · rintro ⟨before, after, hresults, hiterates⟩
      exact ⟨tick, serviceId, itemsCount, before, after, ⟨rfl, rfl, rfl⟩, hresults, hiterates⟩
    · rintro ⟨_, _, _, before, after, ⟨rfl, rfl, rfl⟩, hresults, hiterates⟩
      exact ⟨before, after, hresults, hiterates⟩

/-- Every accepted result was delivered to one of the calls. -/
theorem mem_acceptedHistory {calls : List (AccumulateCall L crypto descriptor)}
    {slot : Option Bytes} {result : RefinedResult L crypto descriptor}
    (h : result ∈ acceptedHistory slot calls) :
    ∃ call ∈ calls, some result ∈ call.results := by
  induction calls generalizing slot with
  | nil => cases h
  | cons call calls ih =>
    rw [acceptedHistory, List.mem_append] at h
    rcases h with h | h
    · obtain ⟨_, _, _, before, after, -, hresults, -⟩ := AccumulateCall.mem_accepted_iff.mp h
      exact ⟨call, List.mem_cons_self, by simp [hresults]⟩
    · obtain ⟨call', hcall, hresult⟩ := ih h
      exact ⟨call', List.mem_cons_of_mem _ hcall, hresult⟩

/-! ## Nonces along a path -/

namespace RefinedResult

/-- What a raw action of the result claims. -/
def claim (result : RefinedResult L crypto descriptor) : Bytes → Option (Principal × UInt64) :=
  claimOf crypto descriptor result.environment.networkDomain

/-- The nonces a result consumes of a principal, in order. -/
def nonces (result : RefinedResult L crypto descriptor) (principal : Principal) : List ℕ :=
  consumedNonces result.claim principal result.input.actions result.output.receipts

/-- The signed actions a result consumes, in order, each with what it claims. -/
def consumedClaims (result : RefinedResult L crypto descriptor) :
    List (Bytes × Principal × UInt64) :=
  (result.input.actions.zip result.output.receipts).filterMap fun entry =>
    if entry.2.consumed then (result.claim entry.1).map fun claim => (entry.1, claim) else none

/-- What is assumed of the trie library and the hash on this result: the witness reads what its root
stands for, the new root stands for the updated map, and the hash tells the controllers apart. -/
structure Sound (contents : StateRoot → Bytes → Option Bytes) (controllers : Set Ownership)
    (result : RefinedResult L crypto descriptor) : Prop where
  read : ReadSound L contents result.input.managedState
  update : UpdateSound L contents result.input.managedState (diffOfWrites (committedWrites ∅
    (descriptorRuns L crypto descriptor result.memory result.input result.environment)))
  claims : ClaimsAmong controllers result.claim result.input.actions

end RefinedResult

variable {contents : StateRoot → Bytes → Option Bytes} {controllers : Set Ownership}

/-- Along a path the stored nonce of a principal is one counter. -/
theorem Path.counts {start final : StateRoot} {results : List (RefinedResult L crypto descriptor)}
    (h : Path start results final)
    (hhash : Set.InjOn crypto.blake2_256 (ownershipPreimages controllers))
    (hsound : ∀ result ∈ results, result.Sound contents controllers) {principal : Principal}
    (hprincipal : principal.Among controllers) {key : Bytes}
    (hkey : principal.nonceKey crypto.blake2_256 = .ok key) :
    Counts (storedNonce (contents start key)) (storedNonce (contents final key))
      (results.flatMap fun result => result.nonces principal) := by
  induction h with
  | nil root => exact Counts.refl _
  | @cons result results final _ ih =>
    have hfirst := hsound result (by simp)
    have hcounts := refine_counts result.refined hfirst.read hfirst.update hhash hfirst.claims
      hprincipal hkey
    rw [(descriptorRuns_reports result.refined).parentRoot]
    exact hcounts.trans (ih fun later hlater => hsound later (by simp [hlater]))

/-! ## No action twice -/

/-- The nonces of a principal in a list of claims. -/
def noncesIn (principal : Principal) (entries : List (Bytes × Principal × UInt64)) : List ℕ :=
  entries.filterMap fun entry => if entry.2.1 = principal then some entry.2.2.toNat else none

theorem mem_noncesIn {principal : Principal} {nonce : UInt64}
    {entries : List (Bytes × Principal × UInt64)}
    (h : (principal, nonce) ∈ entries.map Prod.snd) : nonce.toNat ∈ noncesIn principal entries := by
  obtain ⟨entry, hentry, heq⟩ := List.mem_map.mp h
  refine List.mem_filterMap.mpr ⟨entry, hentry, ?_⟩
  rw [heq]
  exact if_pos rfl

/-- Claims are distinct when the nonces of every principal are. -/
theorem nodup_claims {entries : List (Bytes × Principal × UInt64)}
    (h : ∀ entry ∈ entries, (noncesIn entry.2.1 entries).Nodup) : (entries.map Prod.snd).Nodup := by
  induction entries with
  | nil => exact List.nodup_nil
  | cons first entries ih =>
    have htail : ∀ principal,
        (noncesIn principal entries).Sublist (noncesIn principal (first :: entries)) :=
      fun principal => (List.sublist_cons_self first entries).filterMap _
    rw [List.map_cons, List.nodup_cons]
    refine ⟨fun hmem => ?_, ih fun entry hentry => ?_⟩
    · have hfirst := h first List.mem_cons_self
      have hcons : noncesIn first.2.1 (first :: entries) =
          first.2.2.toNat :: noncesIn first.2.1 entries := by
        exact List.filterMap_cons_some (if_pos rfl)
      rw [hcons, List.nodup_cons] at hfirst
      exact hfirst.1 (mem_noncesIn hmem)
    · exact (h entry (List.mem_cons_of_mem _ hentry)).sublist (htail _)

namespace RefinedResult

/-- The claims of a result, principal by principal, are the nonces it consumes. -/
theorem noncesIn_consumedClaims (result : RefinedResult L crypto descriptor)
    (principal : Principal) :
    noncesIn principal result.consumedClaims = result.nonces principal := by
  unfold noncesIn consumedClaims nonces consumedNonces
  rw [List.filterMap_filterMap]
  refine List.filterMap_congr fun entry _ => ?_
  unfold consumedNonce
  cases hclaim : result.claim entry.1 with
  | none => cases entry.2.consumed <;> rfl
  | some claimed => cases entry.2.consumed <;> simp

/-- What is known of a consumed claim: its action claims it, and its signer has a nonce key. -/
theorem mem_consumedClaims {result : RefinedResult L crypto descriptor}
    (hsound : result.Sound contents controllers) {entry : Bytes × Principal × UInt64}
    (h : entry ∈ result.consumedClaims) :
    result.claim entry.1 = some entry.2 ∧ entry.2.1.Among controllers ∧
      ∃ key, entry.2.1.nonceKey crypto.blake2_256 = .ok key := by
  obtain ⟨⟨action, receipt⟩, hmem, hentry⟩ := List.mem_filterMap.mp h
  dsimp only at hentry
  split_ifs at hentry with hconsumed
  obtain ⟨⟨signer, nonce⟩, hclaim, rfl⟩ := Option.map_eq_some_iff.mp hentry
  refine ⟨hclaim, hsound.claims action (List.of_mem_zip hmem).1 signer nonce hclaim, ?_⟩
  exact nonceKey_of_consumed result.refined hsound.read hmem hconsumed hclaim

end RefinedResult

theorem noncesIn_flatMap (principal : Principal)
    (results : List (RefinedResult L crypto descriptor)) :
    noncesIn principal (results.flatMap RefinedResult.consumedClaims) =
      results.flatMap fun result => result.nonces principal := by
  induction results with
  | nil => rfl
  | cons result results ih =>
    rw [List.flatMap_cons, List.flatMap_cons, ← ih, ← result.noncesIn_consumedClaims]
    exact List.filterMap_append

/-- Results of one descriptor service, produced by refine on any inputs and delivered to accumulate
in any order and any number of times, on a slot that starts absent and that only accumulate writes.
Over all accepted results together the consumed actions of a principal carry the nonces 0, 1, 2, ...
in the order of acceptance, and no signed action is consumed twice. -/
theorem history_replay_protection {calls : List (AccumulateCall L crypto descriptor)}
    (hempty : ∀ key, contents emptyStateRootV1 key = none)
    (hhash : Set.InjOn crypto.blake2_256 (ownershipPreimages controllers))
    (hsound : ∀ call ∈ calls, ∀ result, some result ∈ call.results →
      result.Sound contents controllers) :
    let consumed := (acceptedHistory none calls).flatMap RefinedResult.consumedClaims
    (∀ principal key, principal.Among controllers →
      principal.nonceKey crypto.blake2_256 = .ok key →
      noncesIn principal consumed = List.range (noncesIn principal consumed).length) ∧
    (consumed.map Prod.fst).Nodup := by
  intro consumed
  obtain ⟨final, hpath⟩ := acceptedHistory_path calls none
  have haccepted : ∀ result ∈ acceptedHistory none calls, result.Sound contents controllers := by
    intro result hresult
    obtain ⟨call, hcall, hmem⟩ := mem_acceptedHistory hresult
    exact hsound call hcall result hmem
  have hnonces : ∀ principal key, principal.Among controllers →
      principal.nonceKey crypto.blake2_256 = .ok key →
      noncesIn principal consumed = List.range (noncesIn principal consumed).length := by
    intro principal key hprincipal hkey
    have hcounts := hpath.counts hhash haccepted hprincipal hkey
    have hzero : storedNonce (contents ((none : Option StateRoot).getD emptyStateRootV1) key)
        = some 0 := by
      rw [Option.getD_none, hempty]
      rfl
    rw [← noncesIn_flatMap] at hcounts
    rw [List.range_eq_range']
    exact hcounts.taken 0 hzero
  refine ⟨hnonces, ?_⟩
  have hentry : ∀ entry ∈ consumed, ∃ result ∈ acceptedHistory none calls,
      result.claim entry.1 = some entry.2 ∧ entry.2.1.Among controllers ∧
        ∃ key, entry.2.1.nonceKey crypto.blake2_256 = .ok key := by
    intro entry hentry
    obtain ⟨result, hresult, hmem⟩ := List.mem_flatMap.mp hentry
    exact ⟨result, hresult, RefinedResult.mem_consumedClaims (haccepted result hresult) hmem⟩
  have hclaims : (consumed.map Prod.snd).Nodup := by
    refine nodup_claims fun entry hmem => ?_
    obtain ⟨_, _, _, hamong, key, hkey⟩ := hentry entry hmem
    rw [hnonces entry.2.1 key hamong hkey]
    exact List.nodup_range
  -- equal actions make equal claims, and the claims are distinct
  rw [List.Nodup, List.pairwise_map] at hclaims ⊢
  refine hclaims.imp_of_mem fun {left right} hleft hright hne heq => hne ?_
  obtain ⟨first, -, hfirst, -⟩ := hentry left hleft
  obtain ⟨second, -, hsecond, -⟩ := hentry right hright
  rw [← heq] at hsecond
  exact claimOf_unique hfirst hsecond

/-! ### A result delivered over and over

The result of the two copies of `pingAction` is delivered twice to a first call and once more to a
second one. It is accepted once.
-/

def pingResult : RefinedResult (leafTrie pingCrypto.blake2_256) pingCrypto pingDescriptor where
  memory := ()
  input := pingInput
  environment := zeroEnvironment
  output := pingOutput
  bytes := pingOutput.encode.toOption.getD []
  refined := refine_pingInput
  encoded := by decide +kernel

/-- A call at tick 5 for service 7, on which no other slot is present. -/
def pingCall (copies : ℕ) :
    AccumulateCall (leafTrie pingCrypto.blake2_256) pingCrypto pingDescriptor where
  initInput := encodeNatural 5 ++ (encodeNatural 7 ++ encodeNatural (UInt64.ofNat copies))
  otherStorage _ := storageReadHost none
  serviceStorageRead _ _ := storageReadHost none
  results := List.replicate copies (some pingResult)

theorem pingResult_sound : pingResult.Sound pingContents {pingController} :=
  ⟨pingInput_readSound, pingInput_updateSound, pingInput_claims⟩

/-- Three deliveries of the result consume the nonce 0 once. -/
theorem history_replay_protection_ping :
    noncesIn (.controller pingController) ((acceptedHistory none [pingCall 2, pingCall 1]).flatMap
      RefinedResult.consumedClaims) = [0] ∧
    (((acceptedHistory none [pingCall 2, pingCall 1]).flatMap
      RefinedResult.consumedClaims).map Prod.fst).Nodup := by
  have hkey : (Principal.controller pingController).nonceKey pingCrypto.blake2_256
      = .ok pingNonceKey := by decide +kernel
  have hone : (noncesIn (.controller pingController)
      ((acceptedHistory none [pingCall 2, pingCall 1]).flatMap
        RefinedResult.consumedClaims)).length = 1 := by decide +kernel
  have hsound : ∀ call ∈ [pingCall 2, pingCall 1], ∀ result, some result ∈ call.results →
      result.Sound pingContents {pingController} := by
    intro call hcall result hresult
    have hreplicate : ∃ copies, call = pingCall copies := by
      rcases List.mem_pair.mp hcall with rfl | rfl
      · exact ⟨2, rfl⟩
      · exact ⟨1, rfl⟩
    obtain ⟨copies, rfl⟩ := hreplicate
    obtain rfl := Option.some.inj (List.eq_of_mem_replicate hresult)
    exact pingResult_sound
  obtain ⟨hnonces, hnodup⟩ :=
    history_replay_protection pingContents_empty (injOn_single _ pingController) hsound
  have hrange := hnonces (.controller pingController) pingNonceKey (Set.mem_singleton _) hkey
  rw [hone] at hrange
  exact ⟨hrange, hnodup⟩

end History

end JamScript
