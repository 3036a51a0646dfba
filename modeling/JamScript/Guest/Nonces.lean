import JamScript.Guest.Authentication

/-!
# Nonces along a batch

The nonce stored for a principal, followed through a refine call of the descriptor application: the
actions that are kept take the numbers of a counter one after the other. `Counts` is the counter,
`runAction_counts` the step of one run, `batchRuns_counts` the whole batch, and `refine_nonces` the
statement about the roots and receipts of a refine call.
-/

namespace JamScript

open Codec Effects

/-! ## Counting

A stored nonce is a counter: the actions that are kept take its values one after the other.
-/

/-- A counter that starts at `start`, hands out the numbers `taken` in order and ends at `finish`.
A malformed counter, `none`, hands out nothing and stays malformed. -/
structure Counts (start finish : Option ℕ) (taken : List ℕ) : Prop where
  finish : finish = start.map (· + taken.length)
  malformed : start = none → taken = []
  taken : ∀ first, start = some first → taken = List.range' first taken.length

namespace Counts

theorem refl (start : Option ℕ) : Counts start start [] :=
  ⟨by cases start <;> rfl, fun _ => rfl, fun _ _ => rfl⟩

theorem one (n : ℕ) : Counts (some n) (some (n + 1)) [n] :=
  ⟨rfl, nofun, fun _ h => by cases h; rfl⟩

theorem trans {start middle finish : Option ℕ} {taken later : List ℕ}
    (h : Counts start middle taken) (h' : Counts middle finish later) :
    Counts start finish (taken ++ later) := by
  obtain ⟨rfl, hmalformed, htaken⟩ := h
  obtain ⟨rfl, hmalformed', hlater⟩ := h'
  cases start with
  | none =>
    rw [hmalformed rfl, hmalformed' rfl]
    exact ⟨rfl, fun _ => rfl, nofun⟩
  | some first =>
    refine ⟨?_, nofun, ?_⟩
    · simp [Nat.add_assoc]
    · intro n hn
      cases hn
      have hfirst := htaken first rfl
      have hsecond := hlater _ rfl
      calc taken ++ later
          = List.range' first taken.length ++ List.range' (first + taken.length) later.length := by
            rw [← hfirst, ← hsecond]
        _ = List.range' first (taken ++ later).length := by
            rw [List.range'_append_1, List.length_append]

end Counts

/-- The number a stored nonce stands for. -/
def storedNonce (value : Option Bytes) : Option ℕ := (parseNonce value).map UInt64.toNat

/-- The value an action leaves is the successor of the nonce it carried. -/
theorem storedNonce_successor {nonce : UInt64} (hnext : nonce.toNat + 1 < 2 ^ 64) :
    storedNonce (some (u64ToLe (nonce + 1))) = some (nonce.toNat + 1) := by
  have hsucc : (nonce + 1).toNat = nonce.toNat + 1 := by
    rw [UInt64.toNat_add]
    exact Nat.mod_eq_of_lt hnext
  simp [storedNonce, parseNonce, u64OfLe_u64ToLe, hsucc]

/-! ## Nonces along a batch -/

/-- The receipt of an action whose writes are kept: applied, or failed without the fatal bit. -/
def ActionReceiptV1.consumed (receipt : ActionReceiptV1) : Bool :=
  match receipt.status, receipt.errorCode with
  | .applied, _ => true
  | .failed, some code => code &&& fatalBit = 0
  | _, _ => false

theorem ActionRun.receipt_consumed (blake2_256 : Bytes → StateRoot) (run : ActionRun) :
    (run.receipt blake2_256).consumed = run.committed := by
  unfold ActionRun.receipt ActionRun.committed
  rcases run.result with e | _
  · cases e <;> rfl
  · rfl

/-- The nonce that an action carried, if it is a kept action of the principal. -/
def consumedNonce (claim : Bytes → Option (Principal × UInt64)) (principal : Principal)
    (action : Bytes) (receipt : ActionReceiptV1) : Option ℕ :=
  match claim action with
  | some (signer, nonce) =>
    if receipt.consumed ∧ signer = principal then some nonce.toNat else none
  | none => none

/-- The nonces that the kept actions of a principal carried, in order. -/
def consumedNonces (claim : Bytes → Option (Principal × UInt64)) (principal : Principal)
    (actions : List Bytes) (receipts : List ActionReceiptV1) : List ℕ :=
  (actions.zip receipts).filterMap fun entry => consumedNonce claim principal entry.1 entry.2

theorem consumedNonces_cons (claim : Bytes → Option (Principal × UInt64)) (principal : Principal)
    (action : Bytes) (actions : List Bytes) (receipt : ActionReceiptV1)
    (receipts : List ActionReceiptV1) :
    consumedNonces claim principal (action :: actions) (receipt :: receipts) =
      (consumedNonce claim principal action receipt).toList ++
        consumedNonces claim principal actions receipts := by
  unfold consumedNonces
  rw [List.zip_cons_cons, List.filterMap_cons]
  cases consumedNonce claim principal action receipt <;> rfl

section Batch

variable {M : Type} {crypto : CryptoLibrary} {descriptor : JamScriptServiceDescriptorV2 M}
  {contents : Bytes → Option Bytes} {world : BatchWorld M} {controllers : Set Ownership}
  {principal : Principal} {key : Bytes}

/-- The principals whose actions a batch holds are among the given ones. -/
def ClaimsAmong (controllers : Set Ownership) (claim : Bytes → Option (Principal × UInt64))
    (actions : List Bytes) : Prop :=
  ∀ action ∈ actions, ∀ signer nonce, claim action = some (signer, nonce) →
    signer.Among controllers

/-- The step lemma: one run moves the nonce of a principal by what its receipt reports. -/
theorem DescriptorWorld.runAction_counts (hworld : DescriptorWorld crypto descriptor contents world)
    (hhash : Set.InjOn crypto.blake2_256 (ownershipPreimages controllers))
    (hprincipal : principal.Among controllers)
    (hkey : principal.nonceKey crypto.blake2_256 = .ok key) (memory : M)
    (writes : WriteSet Bytes (Option Bytes)) (action : Bytes) (hclaims : ClaimsAmong controllers
      (claimOf crypto descriptor world.environment.networkDomain) [action]) :
    let run := (world.runAction memory writes action).1
    Counts (storedNonce (applyWrites contents writes key))
      (storedNonce (applyWrites contents (committedWrites writes [run]) key))
      (consumedNonce (claimOf crypto descriptor world.environment.networkDomain) principal
        run.action (run.receipt world.blake2_256)).toList := by
  intro run
  have haction : run.action = action := rfl
  rw [haction, consumedNonce, run.receipt_consumed world.blake2_256]
  by_cases hcommitted : run.committed = true
  case neg =>
    rw [Bool.not_eq_true] at hcommitted
    rw [committedWrites_discarded writes hcommitted, hcommitted]
    cases claimOf crypto descriptor world.environment.networkDomain action <;> exact Counts.refl _
  case pos =>
    have hkept := hworld.runAction_kept memory writes action hcommitted
    have hclass := applicationKeyAllowed_of_head descriptor (Principal.head_nonceKey hkey)
    rw [committedWrites_kept writes hcommitted, applyWrites_union, hcommitted]
    cases hclaim : claimOf crypto descriptor world.environment.networkDomain action with
    | none =>
      rw [hclaim] at hkept
      obtain ⟨hother⟩ := hkept
      rw [hother key hclass]
      exact Counts.refl _
    | some claim =>
      obtain ⟨signer, nonce⟩ := claim
      rw [hclaim] at hkept
      have hsignerAmong := hclaims action (by simp) signer nonce hclaim
      obtain - | @⟨_, _, signerKey, hsigner, hnonce, hnext, hwrite, hother⟩ := hkept
      dsimp only
      by_cases hsame : signer = principal
      · -- the principal's own action: the stored nonce moves on by one
        subst hsame
        obtain rfl := Except.ok.inj (hsigner.symm.trans hkey)
        rw [hwrite, if_pos ⟨rfl, rfl⟩]
        change Counts _ (storedNonce (some (u64ToLe (nonce + 1)))) _
        rw [storedNonce_successor hnext, storedNonce, hnonce]
        exact Counts.one _
      · -- another principal's action does not reach the key
        have hne : key ≠ signerKey := by
          rintro rfl
          exact hsame (Principal.eq_of_nonceKey hhash hsignerAmong hprincipal hsigner hkey)
        rw [hother key hne hclass, if_neg (by simp [hsame])]
        exact Counts.refl _

/-- The run lemma: a whole batch moves the nonce of a principal by what its receipts report. -/
theorem DescriptorWorld.batchRuns_counts (hworld : DescriptorWorld crypto descriptor contents world)
    (hhash : Set.InjOn crypto.blake2_256 (ownershipPreimages controllers))
    (hprincipal : principal.Among controllers)
    (hkey : principal.nonceKey crypto.blake2_256 = .ok key) (actions : List Bytes)
    (hclaims : ClaimsAmong controllers
      (claimOf crypto descriptor world.environment.networkDomain) actions)
    (memory : M) (writes : WriteSet Bytes (Option Bytes)) :
    let runs := world.batchRuns memory writes actions
    Counts (storedNonce (applyWrites contents writes key))
      (storedNonce (applyWrites contents (committedWrites writes runs) key))
      (consumedNonces (claimOf crypto descriptor world.environment.networkDomain) principal
        actions (runs.map (ActionRun.receipt world.blake2_256))) := by
  intro runs
  induction actions generalizing memory writes with
  | nil => exact Counts.refl _
  | cons action actions ih =>
    have hfirst := hworld.runAction_counts hhash hprincipal hkey memory writes action
      fun a ha => hclaims a (by simp_all)
    have hrest := ih (fun a ha => hclaims a (by simp [ha])) (world.runAction memory writes action).2
      (committedWrites writes [(world.runAction memory writes action).1])
    have hruns : runs = (world.runAction memory writes action).1 ::
        world.batchRuns (world.runAction memory writes action).2
          (committedWrites writes [(world.runAction memory writes action).1]) actions := rfl
    rw [hruns, committedWrites_cons, List.map_cons, consumedNonces_cons]
    exact hfirst.trans hrest

end Batch

/-! ## A refine call of the descriptor application -/

section Refine

variable {L : TrieLibrary} {M : Type} {crypto : CryptoLibrary}
  {descriptor : JamScriptServiceDescriptorV2 M} {memory : M} {input : RuntimeRefineInputV1}
  {environment : ExecutionEnvironmentV1} {output : RuntimeRefineOutputV1}
  {contents : StateRoot → Bytes → Option Bytes} {controllers : Set Ownership}

/-- The runs of a refine call of the descriptor application. -/
def descriptorRuns (L : TrieLibrary) (crypto : CryptoLibrary)
    (descriptor : JamScriptServiceDescriptorV2 M) (memory : M) (input : RuntimeRefineInputV1)
    (environment : ExecutionEnvironmentV1) : List ActionRun :=
  refineRuns L crypto.blake2_256 (descriptorApplication crypto descriptor) memory input environment

/-- The state that a sequence of runs leaves on top of the given one. -/
def stateAfter (initial : Bytes → Option Bytes) (runs : List ActionRun) : Bytes → Option Bytes :=
  applyWrites initial (committedWrites ∅ runs)

theorem descriptorWorld_refine (hread : ReadSound L contents input.managedState) :
    DescriptorWorld crypto descriptor (contents input.managedState.parentRoot)
      (refineWorld L crypto.blake2_256 (descriptorApplication crypto descriptor) input
        environment) where
  application := rfl
  discards key error h := by
    change (L.get _ _ key).mapError _ = _ at h
    cases hget : L.get (L.intoMemoryDb input.managedState.storageProof)
        input.managedState.parentRoot key with
    | error e =>
      rw [hget] at h
      cases h
      rfl
    | ok value =>
      rw [hget] at h
      cases h
  sound key value h := hread key value (mapError_eq_ok.mp h)

theorem descriptorRuns_reports
    (h : refineWithEnvironment L crypto.blake2_256 (descriptorApplication crypto descriptor) memory
      input environment = .ok output) :
    ReportsRuns L crypto.blake2_256 input
      (descriptorRuns L crypto descriptor memory input environment) output :=
  refineWithEnvironment_reports (P := fun _ => True)
    ⟨fun c _ action => descriptorApplication_balanced crypto descriptor action c.memory _ 0,
      fun _ _ _ _ _ => trivial⟩ trivial h

/-- The state behind the new root is the state the runs leave. -/
theorem contents_newRoot (h : refineWithEnvironment L crypto.blake2_256
      (descriptorApplication crypto descriptor) memory input environment = .ok output)
    (hupdate : UpdateSound L contents input.managedState
      (diffOfWrites
        (committedWrites ∅ (descriptorRuns L crypto descriptor memory input environment)))) :
    contents output.newRoot = stateAfter (contents input.managedState.parentRoot)
      (descriptorRuns L crypto descriptor memory input environment) := by
  rw [hupdate _ (descriptorRuns_reports h).newRoot, applyChanges_diffOfWrites, stateAfter]

/-- The nonces a successful refine reports as consumed are those its roots account for. -/
theorem refine_counts
    (h : refineWithEnvironment L crypto.blake2_256 (descriptorApplication crypto descriptor) memory
      input environment = .ok output)
    (hread : ReadSound L contents input.managedState)
    (hupdate : UpdateSound L contents input.managedState
      (diffOfWrites
        (committedWrites ∅ (descriptorRuns L crypto descriptor memory input environment))))
    (hhash : Set.InjOn crypto.blake2_256 (ownershipPreimages controllers))
    (hclaims : ClaimsAmong controllers (claimOf crypto descriptor environment.networkDomain)
      input.actions)
    {principal : Principal} (hprincipal : principal.Among controllers) {key : Bytes}
    (hkey : principal.nonceKey crypto.blake2_256 = .ok key) :
    Counts (storedNonce (contents input.managedState.parentRoot key))
      (storedNonce (contents output.newRoot key))
      (consumedNonces (claimOf crypto descriptor environment.networkDomain) principal input.actions
        output.receipts) := by
  have hworld : DescriptorWorld crypto descriptor (contents input.managedState.parentRoot)
      (refineWorld L crypto.blake2_256 (descriptorApplication crypto descriptor) input
        environment) :=
    descriptorWorld_refine hread
  have hcounts := hworld.batchRuns_counts hhash hprincipal hkey input.actions hclaims memory ∅
  rw [contents_newRoot h hupdate, (descriptorRuns_reports h).receipts]
  exact hcounts

/-- The signer of a consumed action has a key under which its nonce is kept. -/
theorem nonceKey_of_consumed
    (h : refineWithEnvironment L crypto.blake2_256 (descriptorApplication crypto descriptor) memory
      input environment = .ok output)
    (hread : ReadSound L contents input.managedState) {action : Bytes} {receipt : ActionReceiptV1}
    (hmem : (action, receipt) ∈ input.actions.zip output.receipts)
    (hconsumed : receipt.consumed = true) {principal : Principal} {nonce : UInt64}
    (hclaim : claimOf crypto descriptor environment.networkDomain action =
      some (principal, nonce)) :
    ∃ key, principal.nonceKey crypto.blake2_256 = .ok key := by
  have hreport := descriptorRuns_reports h
  rw [← hreport.actions, hreport.receipts, List.zip_map', List.mem_map] at hmem
  obtain ⟨run, hrun, hentry⟩ := hmem
  obtain ⟨rfl, rfl⟩ := Prod.mk.inj hentry
  rw [ActionRun.receipt_consumed] at hconsumed
  obtain ⟨before, after, hruns⟩ := List.append_of_mem hrun
  obtain ⟨memory', hrun⟩ := BatchWorld.batchRuns_split _ hruns
  rw [hrun] at hconsumed
  have hworld : DescriptorWorld crypto descriptor (contents input.managedState.parentRoot)
      (refineWorld L crypto.blake2_256 (descriptorApplication crypto descriptor) input
        environment) :=
    descriptorWorld_refine hread
  have hkept := hworld.runAction_kept memory' _ _ hconsumed
  change KeptRun _ _ _ _ (claimOf crypto descriptor environment.networkDomain run.action) at hkept
  rw [hclaim] at hkept
  obtain - | ⟨hkey, -, -, -, -⟩ := hkept
  exact ⟨_, hkey⟩

/-- In a successful refine of the descriptor application the stored nonce of a principal grows by
the number of its actions that the receipts report as applied or as failed without the fatal bit.
Each of these actions carried the nonce that was stored when it ran. Any other action leaves every
key alone, and besides the nonce of its own signer no action changes a key outside the application
class and the declared namespaces. -/
theorem refine_nonces
    (h : refineWithEnvironment L crypto.blake2_256 (descriptorApplication crypto descriptor) memory
      input environment = .ok output)
    (hread : ReadSound L contents input.managedState)
    (hupdate : UpdateSound L contents input.managedState
      (diffOfWrites
        (committedWrites ∅ (descriptorRuns L crypto descriptor memory input environment))))
    (hhash : Set.InjOn crypto.blake2_256 (ownershipPreimages controllers))
    (hclaims : ClaimsAmong controllers (claimOf crypto descriptor environment.networkDomain)
      input.actions) :
    let claim := claimOf crypto descriptor environment.networkDomain
    let runs := descriptorRuns L crypto descriptor memory input environment
    let initial := contents input.managedState.parentRoot
    runs.map ActionRun.action = input.actions ∧
    output.receipts = runs.map (ActionRun.receipt crypto.blake2_256) ∧
    contents output.newRoot = stateAfter initial runs ∧
    (∀ principal key, principal.Among controllers → principal.nonceKey crypto.blake2_256 = .ok key →
      storedNonce (contents output.newRoot key) = (storedNonce (initial key)).map
        (· + (consumedNonces claim principal input.actions output.receipts).length) ∧
      (storedNonce (initial key) = none →
        consumedNonces claim principal input.actions output.receipts = [])) ∧
    ∀ before run after, runs = before ++ run :: after →
      ((run.receipt crypto.blake2_256).consumed = true → ∀ principal nonce,
        claim run.action = some (principal, nonce) → ∃ key,
          principal.nonceKey crypto.blake2_256 = .ok key ∧
          storedNonce (stateAfter initial before key) = some nonce.toNat) ∧
      ((run.receipt crypto.blake2_256).consumed = false →
        stateAfter initial (before ++ [run]) = stateAfter initial before) ∧
      ∀ key, stateAfter initial (before ++ [run]) key ≠ stateAfter initial before key →
        descriptor.applicationKeyAllowed key = true ∨ ∃ principal nonce,
          claim run.action = some (principal, nonce) ∧
          principal.nonceKey crypto.blake2_256 = .ok key ∧
          stateAfter initial (before ++ [run]) key = some (u64ToLe (nonce + 1)) := by
  intro claim runs initial
  have hreport := descriptorRuns_reports h
  have hworld : DescriptorWorld crypto descriptor initial
      (refineWorld L crypto.blake2_256 (descriptorApplication crypto descriptor) input
        environment) :=
    descriptorWorld_refine hread
  refine ⟨hreport.actions, hreport.receipts, contents_newRoot h hupdate, ?_, ?_⟩
  · intro principal key hprincipal hkey
    have hcounts := refine_counts h hread hupdate hhash hclaims hprincipal hkey
    exact ⟨hcounts.finish, hcounts.malformed⟩
  · intro before run after hruns
    obtain ⟨memory', hrun⟩ := BatchWorld.batchRuns_split _ hruns
    have hkept : run.committed = true →
        KeptRun crypto.blake2_256 descriptor (stateAfter initial before) run
        (claim run.action) := by
      intro hcommitted
      rw [hrun] at hcommitted ⊢
      exact hworld.runAction_kept memory' _ _ hcommitted
    have hstate : ∀ key, stateAfter initial (before ++ [run]) key =
        if run.committed then run.changes[key]?.getD (stateAfter initial before key)
        else stateAfter initial before key := by
      intro key
      unfold stateAfter
      rw [committedWrites_append]
      split_ifs with hcommitted
      · rw [committedWrites_kept _ hcommitted, applyWrites_union]
      · rw [committedWrites_discarded _ (by simpa using hcommitted)]
    rw [ActionRun.receipt_consumed]
    refine ⟨?_, ?_, ?_⟩
    · intro hcommitted principal nonce hclaim
      have hkept := hkept hcommitted
      rw [hclaim] at hkept
      obtain - | ⟨hkey, hnonce, -, -, -⟩ := hkept
      exact ⟨_, hkey, by rw [storedNonce, hnonce]; rfl⟩
    · intro hdiscarded
      funext key
      rw [hstate, hdiscarded]
      rfl
    · intro key hchanged
      rw [hstate] at hchanged ⊢
      split_ifs at hchanged ⊢ with hcommitted
      · cases hwritten : run.changes[key]? with
        | none =>
          rw [hwritten] at hchanged
          exact absurd rfl hchanged
        | some value => exact (hkept hcommitted).changed hwritten
      · exact absurd rfl hchanged

end Refine

/-! ### A signed action and its replay

A service with one ownership action, whose script aborts. The controller is an Ed25519 key; its
action is sent twice. The first copy fails in the script and uses up the nonce, the second one is
rejected.
-/

/-- The Ed25519 key of the seed `00 01 .. 1f`. -/
def pingPublicKey : Bytes :=
  [0x03, 0xa1, 0x07, 0xbf, 0xf3, 0xce, 0x10, 0xbe, 0x1d, 0x70, 0xdd, 0x18, 0xe7, 0x4b, 0xc0, 0x99,
   0x67, 0xe4, 0xd6, 0x30, 0x9b, 0xa5, 0x0d, 0x5f, 0x1d, 0xdc, 0x86, 0x64, 0x12, 0x55, 0x31, 0xb8]

def pingController : Ownership := ⟨1, .ed25519Key, pingPublicKey⟩

/-- The controller's signature of `pingMessage`. -/
def pingSignature : Bytes :=
  [0x0e, 0x17, 0x39, 0x86, 0xed, 0xe3, 0x17, 0x74, 0xe2, 0xda, 0xd9, 0x69, 0x47, 0xf3, 0x87, 0x26,
   0xfd, 0xab, 0xed, 0x6e, 0x0c, 0x45, 0xb0, 0x7d, 0x04, 0x92, 0x5f, 0xf3, 0x38, 0xba, 0x2d, 0xaf,
   0xe2, 0xce, 0xee, 0xb3, 0x19, 0x05, 0x4c, 0xfa, 0x87, 0xab, 0x12, 0xd6, 0xc9, 0xfb, 0x5c, 0xa1,
   0x7d, 0x45, 0x35, 0xed, 0xea, 0xeb, 0xca, 0xca, 0x32, 0x8d, 0x2f, 0xee, 0x11, 0xdc, 0xff, 0x04]

/-- The hash that names the controller. -/
def pingKeyHash : FixedBytes 32 :=
  ⟨[0xe5, 0x90, 0x59, 0x4d, 0xa6, 0x6a, 0x53, 0x32, 0x22, 0x39, 0x42, 0xef, 0x8b, 0x52, 0x7f, 0x99,
    0x18, 0xc0, 0x82, 0x01, 0x88, 0x08, 0xcd, 0x4a, 0x18, 0xc6, 0xe9, 0x61, 0xaa, 0x97, 0x08, 0x92],
    rfl⟩

/-- The commitment of the action. -/
def pingCommitment : FixedBytes 32 :=
  ⟨[0xfb, 0x72, 0x8a, 0x10, 0x48, 0x24, 0xaa, 0xe7, 0xd4, 0xf0, 0xae, 0x09, 0x75, 0x20, 0x5c, 0xb3,
    0x87, 0x2d, 0x2c, 0xf7, 0x94, 0xb1, 0x71, 0x38, 0xe3, 0xab, 0x67, 0x8e, 0xf0, 0xb6, 0xa8, 0x86],
    rfl⟩

/-- The hash of `pingAction`. -/
def pingActionHash : FixedBytes 32 :=
  ⟨[0x32, 0x53, 0x66, 0x47, 0x04, 0x59, 0x76, 0x66, 0xc5, 0x67, 0x7b, 0x92, 0xb2, 0xd9, 0x9d, 0xc4,
    0xa7, 0x61, 0x34, 0x47, 0x8e, 0x65, 0x29, 0x50, 0xfc, 0x3b, 0x51, 0xbc, 0x93, 0xdf, 0x3d, 0x31],
    rfl⟩

/-- The root of the trie that maps `pingNonceKey` to 1. -/
def pingRoot : StateRoot :=
  ⟨[0xdb, 0x1d, 0x77, 0xda, 0xb1, 0x6d, 0xc3, 0x5f, 0xea, 0xab, 0xe8, 0x4c, 0xf3, 0xb1, 0x57, 0x30,
    0x15, 0xf6, 0xad, 0x64, 0x93, 0x07, 0x0c, 0xcf, 0x93, 0x7b, 0x76, 0x08, 0x48, 0xde, 0xec, 0x2f],
    rfl⟩

/-- The hash of `pingRecovery`. -/
def pingRecoveryHash : StateRoot :=
  ⟨[0xa2, 0x7c, 0xdf, 0x21, 0x95, 0x53, 0x8a, 0xaf, 0x61, 0x11, 0x65, 0x4a, 0x56, 0x19, 0x02, 0xd7,
    0xa0, 0x15, 0xd0, 0x15, 0xd7, 0xfe, 0x54, 0xeb, 0x09, 0xd5, 0xe7, 0x77, 0xf2, 0x9e, 0x7e, 0xac],
    rfl⟩

/-- The part of an envelope that names the service and the action. -/
def pingRoute : Bytes := List.replicate 32 0 ++ List.replicate 32 7 ++ [1, 2, 3, 4, 5, 6, 7, 8]

/-- The part of an envelope that carries the nonce, the limit and the payload hash. -/
def pingTail : Bytes := u64ToLe 0 ++ u64ToLe 9 ++ pingPayloadHash.toList

def pingAction : Bytes :=
  [2] ++ pingRoute ++ [36, 0, 1, 0, 32, 0] ++ pingPublicKey ++ [0] ++ pingTail ++
    [64, 0, 0, 0] ++ pingSignature ++ [1, 0, 0, 0, 42]

def pingMessage : Bytes :=
  ascii "JAMSCRIPT_ACTION_V2:-3KKEEgkqufU8K4JdSBcs4ctLPeUsXE446tnjvC2qIY"

def pingNonceKey : Bytes := [0, 1] ++ ownershipNonceSchemaV1 ++ pingKeyHash.toList

def pingRecovery : Bytes :=
  [1, 93, 0, 0, 0, 1, 1, 0, 0, 0, 71, 0, 0, 0] ++ pingNonceKey ++ [1, 8, 0, 0, 0] ++ u64ToLe 1

def pingCrypto : CryptoLibrary where
  blake2_256 := tableHash [([42], pingPayloadHash),
    (ownershipKeyDomainV1 ++ [1, 0, 32, 0] ++ pingPublicKey, pingKeyHash),
    (actionCommitmentDomainV2 ++ pingRoute ++ [1, 0, 32, 0] ++ pingPublicKey ++ [0] ++ pingTail,
      pingCommitment),
    (pingAction, pingActionHash), (leafNode pingNonceKey (u64ToLe 1), pingRoot),
    (pingRecovery, pingRecoveryHash)]
  ed25519VerifyingKey key := key.toList = pingPublicKey
  ed25519Signature signature := signature = pingSignature
  ed25519Verify key message signature :=
    key.toList = pingPublicKey ∧ message = pingMessage ∧ signature = pingSignature
  -- no other scheme is used
  keccak256 _ := List.Vector.replicate 32 0
  sr25519PublicKey _ := none
  sr25519Signature _ := false
  sr25519Verify _ _ _ _ := false
  ecdsaSignature _ := false
  ecdsaHighS _ := false
  recoverFromPrehash _ _ _ := none
  uncompressedPoint _ := none

/-- A service with one ownership action; its script aborts with code 5. -/
def pingDescriptor : JamScriptServiceDescriptorV2 Unit where
  version := 2
  actions := .data [⟨pingSelector, authOwnership,
    some fun _ _ _ memory => (.data [1, 1, 5, 0, 0, 0], memory)⟩]
  namespaces := .null 0
  serviceKey := List.Vector.replicate 32 7
  init := none

def pingInput : RuntimeRefineInputV1 :=
  ⟨1, ⟨1, emptyStateRootV1, ⟨1, [pingNonceKey]⟩, []⟩, [], [pingAction, pingAction]⟩

def pingOutput : RuntimeRefineOutputV1 where
  version := 1
  parentRoot := emptyStateRootV1
  newRoot := pingRoot
  externalDependencies := []
  transitionValidUntil := some 9
  receipts := [⟨pingActionHash, .failed, some 5⟩, ⟨pingActionHash, .rejected, some 17⟩]
  recoveryCommitment := pingRecoveryHash
  recoveryPayload := pingRecovery

/-- The empty root stands for the empty map, `pingRoot` for the map with the controller's nonce. -/
def pingContents (root : StateRoot) (key : Bytes) : Option Bytes :=
  if root = pingRoot ∧ key = pingNonceKey then some (u64ToLe 1) else none

theorem pingContents_empty (key : Bytes) : pingContents emptyStateRootV1 key = none := by
  rw [pingContents, if_neg]
  exact fun h => absurd h.1 (by decide +kernel)

theorem refine_pingInput :
    refineWithEnvironment (leafTrie pingCrypto.blake2_256) pingCrypto.blake2_256
      (descriptorApplication pingCrypto pingDescriptor) () pingInput zeroEnvironment
      = .ok pingOutput := by
  decide +kernel

theorem pingInput_readSound :
    ReadSound (leafTrie pingCrypto.blake2_256) pingContents pingInput.managedState := by
  intro key value hget
  change (Except.ok none : Except Unit _) = .ok value at hget
  rw [← Except.ok.inj hget]
  exact (pingContents_empty key).symm

theorem pingInput_diff : diffOfWrites (committedWrites ∅ (descriptorRuns
    (leafTrie pingCrypto.blake2_256) pingCrypto pingDescriptor () pingInput zeroEnvironment)) =
    ⟨[⟨pingNonceKey, some (u64ToLe 1)⟩]⟩ := by
  decide +kernel

theorem pingInput_updateSound : UpdateSound (leafTrie pingCrypto.blake2_256) pingContents
    pingInput.managedState (diffOfWrites (committedWrites ∅
      (descriptorRuns (leafTrie pingCrypto.blake2_256) pingCrypto pingDescriptor () pingInput
        zeroEnvironment))) := by
  intro newRoot hroot
  obtain rfl := Except.ok.inj ((descriptorRuns_reports refine_pingInput).newRoot.symm.trans hroot)
  rw [pingInput_diff]
  have hne : emptyStateRootV1 ≠ pingRoot := by decide +kernel
  funext key
  change pingContents pingRoot key =
    Function.update (pingContents emptyStateRootV1) pingNonceKey (some (u64ToLe 1)) key
  by_cases hkey : key = pingNonceKey
  · simp [pingContents, hkey]
  · simp [pingContents, hkey, hne]

/-- One controller has one preimage. -/
theorem injOn_single (hash : Bytes → FixedBytes 32) (ownership : Ownership) :
    Set.InjOn hash (ownershipPreimages {ownership}) := by
  rintro _ ⟨_, rfl, encoded, hencoded, rfl⟩ _ ⟨_, rfl, encoded', hencoded', rfl⟩ _
  rw [Except.ok.inj (hencoded.symm.trans hencoded')]

theorem pingInput_claims : ClaimsAmong {pingController}
    (claimOf pingCrypto pingDescriptor zeroEnvironment.networkDomain) pingInput.actions := by
  have hclaim : claimOf pingCrypto pingDescriptor zeroEnvironment.networkDomain pingAction =
      some (.controller pingController, 0) := by decide +kernel
  intro action haction signer nonce h
  have haction : action = pingAction := by simpa [pingInput] using haction
  rw [haction, hclaim] at h
  cases h
  exact Set.mem_singleton _

/-- Two copies of one signed action: the stored nonce moves on by one. -/
theorem refine_nonces_ping :
    consumedNonces (claimOf pingCrypto pingDescriptor zeroEnvironment.networkDomain)
        (.controller pingController) pingInput.actions pingOutput.receipts = [0] ∧
      storedNonce (pingContents pingRoot pingNonceKey) =
        (storedNonce (pingContents emptyStateRootV1 pingNonceKey)).map (· + 1) := by
  have hconsumed : consumedNonces (claimOf pingCrypto pingDescriptor zeroEnvironment.networkDomain)
      (.controller pingController) pingInput.actions pingOutput.receipts = [0] := by decide +kernel
  have hkey : (Principal.controller pingController).nonceKey pingCrypto.blake2_256
      = .ok pingNonceKey := by decide +kernel
  obtain ⟨-, -, -, hnonces, -⟩ := refine_nonces refine_pingInput pingInput_readSound
    pingInput_updateSound (injOn_single _ pingController) pingInput_claims
  refine ⟨hconsumed, ?_⟩
  have hfinal := (hnonces (.controller pingController) pingNonceKey (Set.mem_singleton _) hkey).1
  rw [hconsumed] at hfinal
  exact hfinal

end JamScript
