import JamScript.Core.Natural
import JamScript.Core.RefineOutput

/-!
# Accumulate

`minijam_accumulate` folds the results of one accumulation over the service's state root. A result
advances the root when its header decodes, it starts from the current root, it is still live and
every foreign root it relied on is the canonical one; at the end one write stores the root that was
reached.

The host is a record of what its calls return. Nothing is written before the loop ends, so every
read of the loop sees the storage as it was when the call began. `accepted` lists the results that
advance the root, each with the root it was applied to, and `minijamAccumulate_eq` says that the
code does exactly what this list says.
-/

namespace JamScript

open Codec

/-! ## The host -/

/-- What a storage read returns: its status, the size it reports and the caller's buffer. -/
structure StorageRead where
  status : UInt32
  size : ℕ
  bytes : FixedBytes 34
  deriving DecidableEq

/-- `storage_read_host` of the SDK, for a buffer of 34 bytes. -/
def storageReadHost (value : Option Bytes) : StorageRead :=
  match value with
  | none => ⟨1, 0, List.Vector.replicate 34 0⟩
  | some value =>
    { status := if value.length > 34 then 2 else 0
      size := value.length
      bytes := ⟨(value ++ List.replicate 34 0).take 34, by simp⟩ }

/-- What the host answers during one accumulation. -/
structure AccumulateHost where
  initInput : Bytes
  storageRead : Bytes → StorageRead
  serviceStorageRead : UInt32 → Bytes → StorageRead
  /-- The results in order; `none` is a result the host fails to deliver. -/
  results : List (Option Bytes)

/-- The arms that the two commitment readers share. -/
def StorageRead.commitment (read : StorageRead) : Except Unit StateRoot :=
  if read.status = 0 ∧ read.size = 34 then
    match ManagedStateCommitmentV1.decode read.bytes.toList with
    | .ok commitment => .ok commitment.root
    | .error _ => .error ()
  else .error ()

namespace AccumulateHost

/-- `read_current_commitment`. -/
def readCurrentCommitment (host : AccumulateHost) : Except Unit StateRoot :=
  let read := host.storageRead managedStateCommitmentKeyV1
  if read.status = 1 then .ok emptyStateRootV1 else read.commitment

/-- `read_service_commitment`. -/
def readServiceCommitment (host : AccumulateHost) (serviceId : UInt32) : Except Unit StateRoot :=
  (host.serviceStorageRead serviceId managedStateCommitmentKeyV1).commitment

end AccumulateHost

def decodeAccumulateInitInput (input : Bytes) : Except Unit (UInt64 × UInt64 × UInt64) :=
  Parser.whole () (do
    let tick ← readFnencode
    let serviceId ← readFnencode
    let itemsCount ← readFnencode
    pure (tick, serviceId, itemsCount)) input

/-! ## The loop -/

/-- The inner loop over the dependencies, with its early exits. -/
def dependenciesValid (host : AccumulateHost) : List ExternalStateDependencyV1 → Bool
  | [] => true
  | dependency :: dependencies =>
    match host.readServiceCommitment dependency.serviceId with
    | .error _ => false
    | .ok canonical =>
      if canonical ≠ dependency.stateRoot then false else dependenciesValid host dependencies

/-- The local variables of the loop. -/
structure AccumulateFold where
  current : StateRoot
  advanced : Bool

/-- One iteration over the results; the unchanged fold is the source's `continue`. -/
def accumulateResult (host : AccumulateHost) (authoritativeTick : UInt64) (fold : AccumulateFold)
    (result : Option Bytes) : AccumulateFold :=
  match result with
  | none => fold
  | some refined =>
    match RuntimeRefineOutputV1.decodeTransitionHeader refined with
    | .error _ => fold
    | .ok header =>
      if header.parentRoot ≠ fold.current ∨
          header.transitionValidUntil.any fun validUntil => authoritativeTick > validUntil then fold
      else if ¬ dependenciesValid host header.externalDependencies then fold
      else ⟨header.newRoot, true⟩

/-- `minijam_accumulate`: the storage writes it performs, each a key and a value. -/
def minijamAccumulate (host : AccumulateHost) : List (Bytes × Bytes) :=
  match decodeAccumulateInitInput host.initInput with
  | .error _ => []
  | .ok (authoritativeTick, _, _) =>
    let current := match host.readCurrentCommitment with
      | .ok root => root
      | .error _ => emptyStateRootV1
    let fold := host.results.foldl (accumulateResult host authoritativeTick) ⟨current, false⟩
    if fold.advanced then
      [(managedStateCommitmentKeyV1, (ManagedStateCommitmentV1.new fold.current).encode.toList)]
    else []

namespace Generated

/-- `decode_accumulate_init_input` of the template. -/
def decodeAccumulateInitInput (input : Bytes) : Except Unit (UInt64 × UInt64 × UInt64) :=
  Parser.whole () (do
    let tick ← Generated.readFnencode
    let sid ← Generated.readFnencode
    let itemsCount ← Generated.readFnencode
    pure (tick, sid, itemsCount)) input

/-- One iteration of the template's loop, which passes over another parent root and over a result
that has expired in two steps. -/
def accumulateResult (host : AccumulateHost) (authoritativeTick : UInt64) (fold : AccumulateFold)
    (result : Option Bytes) : AccumulateFold :=
  match result with
  | none => fold
  | some refined =>
    match RuntimeRefineOutputV1.decodeTransitionHeader refined with
    | .error _ => fold
    | .ok header =>
      if header.parentRoot ≠ fold.current then fold
      else if header.transitionValidUntil.any fun validUntil => authoritativeTick >
        validUntil then fold
      else if ¬ dependenciesValid host header.externalDependencies then fold
      else ⟨header.newRoot, true⟩

/-- The `minijam_accumulate` that the Rust generator writes into a service. -/
def minijamAccumulate (host : AccumulateHost) : List (Bytes × Bytes) :=
  match decodeAccumulateInitInput host.initInput with
  | .error _ => []
  | .ok (authoritativeTick, _, _) =>
    let current := match host.readCurrentCommitment with
      | .ok root => root
      | .error _ => emptyStateRootV1
    let fold := host.results.foldl (accumulateResult host authoritativeTick) ⟨current, false⟩
    if fold.advanced then
      [(managedStateCommitmentKeyV1, (ManagedStateCommitmentV1.new fold.current).encode.toList)]
    else []

/-- The two guests accumulate in the same way. -/
theorem minijamAccumulate_eq_prebuilt : minijamAccumulate = JamScript.minijamAccumulate := by
  have hresult : accumulateResult = JamScript.accumulateResult := by
    funext host tick fold result
    rcases result with _ | refined
    · rfl
    · unfold accumulateResult JamScript.accumulateResult
      dsimp only
      cases RuntimeRefineOutputV1.decodeTransitionHeader refined with
      | error e => rfl
      | ok header =>
        by_cases hparent : header.parentRoot = fold.current
        · simp [hparent]
        · simp [hparent]
  funext host
  unfold minijamAccumulate
  rw [hresult]
  rfl

end Generated

/-! ## What the loop is for -/

/-- The read delivered the commitment to `root`. -/
def StorageRead.IsCommitment (read : StorageRead) (root : StateRoot) : Prop :=
  read.status = 0 ∧ read.size = 34 ∧ read.bytes = (ManagedStateCommitmentV1.new root).encode

instance (read : StorageRead) (root : StateRoot) : Decidable (read.IsCommitment root) :=
  inferInstanceAs (Decidable (_ ∧ _ ∧ _))

namespace AccumulateHost

/-- The canonical commitment of a service is `root`. -/
def Commits (host : AccumulateHost) (serviceId : UInt32) (root : StateRoot) : Prop :=
  (host.serviceStorageRead serviceId managedStateCommitmentKeyV1).IsCommitment root

/-- A header may be applied to `current` at `tick`. -/
def Advances (host : AccumulateHost) (tick : UInt64) (current : StateRoot)
    (header : RuntimeRefineTransitionHeaderV1) : Prop :=
  header.parentRoot = current ∧ (∀ validUntil ∈ header.transitionValidUntil, tick ≤ validUntil) ∧
    ∀ dependency ∈ header.externalDependencies,
      host.Commits dependency.serviceId dependency.stateRoot

instance (host : AccumulateHost) (serviceId : UInt32) (root : StateRoot) :
    Decidable (host.Commits serviceId root) :=
  inferInstanceAs (Decidable (StorageRead.IsCommitment _ _))

instance (host : AccumulateHost) (tick : UInt64) (current : StateRoot)
    (header : RuntimeRefineTransitionHeaderV1) : Decidable (host.Advances tick current header) :=
  -- decided on the limit itself; the default instance would try every 64-bit number
  decidable_of_iff (header.parentRoot = current ∧
    (header.transitionValidUntil.all fun validUntil => tick ≤ validUntil) ∧
    ∀ dependency ∈ header.externalDependencies,
      host.Commits dependency.serviceId dependency.stateRoot)
      (by simp [Advances, Option.all_eq_true])

end AccumulateHost

/-- The header of a result that was delivered and decodes. -/
def headerOf (result : Option Bytes) : Option RuntimeRefineTransitionHeaderV1 :=
  result.bind fun refined => (RuntimeRefineOutputV1.decodeTransitionHeader refined).toOption

/-- The root after one result. -/
def nextRoot (host : AccumulateHost) (tick : UInt64) (current : StateRoot) (result : Option Bytes) :
    StateRoot :=
  match headerOf result with
  | none => current
  | some header => if host.Advances tick current header then header.newRoot else current

/-- An accepted result: the root it was applied to and its header. -/
structure AcceptedResult where
  current : StateRoot
  header : RuntimeRefineTransitionHeaderV1
  deriving DecidableEq

/-- The results that advance the root, in order. -/
def accepted (host : AccumulateHost) (tick : UInt64) :
    StateRoot → List (Option Bytes) → List AcceptedResult
  | _, [] => []
  | current, result :: results =>
    match headerOf result with
    | none => accepted host tick current results
    | some header =>
      if host.Advances tick current header then
        ⟨current, header⟩ :: accepted host tick header.newRoot results
      else accepted host tick current results

/-! ## The code does what the list of accepted results says -/

theorem StorageRead.commitment_eq_ok {read : StorageRead} {root : StateRoot} :
    read.commitment = .ok root ↔ read.IsCommitment root := by
  unfold StorageRead.commitment StorageRead.IsCommitment
  constructor
  · intro h
    split at h
    case isFalse => cases h
    case isTrue hread =>
      split at h
      case h_2 => cases h
      case h_1 commitment hdecode =>
        cases h
        obtain ⟨hnew, hbytes⟩ := ManagedStateCommitmentV1.decode_eq_ok.mp hdecode
        rw [← hnew]
        exact ⟨hread.1, hread.2, Subtype.ext hbytes⟩
  · rintro ⟨hstatus, hsize, hbytes⟩
    have hdecode : ManagedStateCommitmentV1.decode read.bytes.toList =
        .ok (ManagedStateCommitmentV1.new root) :=
      ManagedStateCommitmentV1.decode_eq_ok.mpr ⟨rfl, congrArg List.Vector.toList hbytes⟩
    rw [if_pos ⟨hstatus, hsize⟩, hdecode]
    rfl

/-- A slot that holds a commitment reads as that commitment. -/
theorem storageReadHost_isCommitment (root : StateRoot) :
    (storageReadHost (some (ManagedStateCommitmentV1.new root).encode.toList)).IsCommitment
      root := by
  have hlength := (ManagedStateCommitmentV1.new root).encode.toList_length
  refine ⟨?_, hlength, Subtype.ext ?_⟩
  · simp only [storageReadHost, hlength]
    rfl
  · exact List.take_left' hlength

theorem dependenciesValid_iff (host : AccumulateHost)
    (dependencies : List ExternalStateDependencyV1) :
    dependenciesValid host dependencies = true ↔
      ∀ dependency ∈ dependencies, host.Commits dependency.serviceId dependency.stateRoot := by
  induction dependencies with
  | nil => simp [dependenciesValid]
  | cons dependency dependencies ih =>
    have hcommits : host.readServiceCommitment dependency.serviceId = .ok dependency.stateRoot ↔
        host.Commits dependency.serviceId dependency.stateRoot := StorageRead.commitment_eq_ok
    rw [List.forall_mem_cons, ← ih, ← hcommits, dependenciesValid]
    cases host.readServiceCommitment dependency.serviceId with
    | error e => simp
    | ok canonical =>
      by_cases hroot : canonical = dependency.stateRoot
      · simp [hroot]
      · simp [hroot]

/-- One iteration: a result that advances the root is applied, any other one is skipped. -/
theorem accumulateResult_eq (host : AccumulateHost) (tick : UInt64) (fold : AccumulateFold)
    (result : Option Bytes) :
    accumulateResult host tick fold result =
      match headerOf result with
      | none => fold
      | some header =>
        if host.Advances tick fold.current header then ⟨header.newRoot, true⟩ else fold := by
  unfold accumulateResult headerOf
  rcases result with _ | refined
  · rfl
  · rw [Option.bind_some]
    dsimp only
    cases RuntimeRefineOutputV1.decodeTransitionHeader refined with
    | error e => rfl
    | ok header =>
      have hlive : (header.transitionValidUntil.any fun validUntil => decide (tick > validUntil)) =
          true ↔ ¬ ∀ validUntil ∈ header.transitionValidUntil, tick ≤ validUntil := by
        cases header.transitionValidUntil <;> simp
      have hadvances : host.Advances tick fold.current header ↔
          ¬ (header.parentRoot ≠ fold.current ∨
            (header.transitionValidUntil.any fun validUntil => decide (tick > validUntil)) = true) ∧
          dependenciesValid host header.externalDependencies = true := by
        rw [AccumulateHost.Advances, dependenciesValid_iff, hlive]
        tauto
      dsimp only [Except.toOption]
      split
      case isTrue hskip => rw [if_neg fun h => (hadvances.mp h).1 hskip]
      case isFalse hlive' =>
        split
        case isTrue hinvalid => rw [if_neg fun h => hinvalid (hadvances.mp h).2]
        case isFalse hvalid => rw [if_pos (hadvances.mpr ⟨hlive', not_not.mp hvalid⟩)]

/-- The loop invariant: the root is the fold of the results so far, and the flag says whether one of
them was accepted. -/
theorem foldl_accumulateResult (host : AccumulateHost) (tick : UInt64)
    (results : List (Option Bytes)) (fold : AccumulateFold) :
    results.foldl (accumulateResult host tick) fold =
      ⟨results.foldl (nextRoot host tick) fold.current,
        fold.advanced || !(accepted host tick fold.current results).isEmpty⟩ := by
  induction results generalizing fold with
  | nil => simp [accepted]
  | cons result results ih =>
    rw [List.foldl_cons, List.foldl_cons, ih, accumulateResult_eq, nextRoot, accepted]
    cases headerOf result with
    | none => rfl
    | some header =>
      by_cases hadvances : host.Advances tick fold.current header
      · simp [hadvances]
      · simp [hadvances]

/-- Without an accepted result the root stays. -/
theorem foldl_nextRoot_of_accepted_nil {host : AccumulateHost} {tick : UInt64} {start : StateRoot}
    {results : List (Option Bytes)} (h : accepted host tick start results = []) :
    results.foldl (nextRoot host tick) start = start := by
  induction results generalizing start with
  | nil => rfl
  | cons result results ih =>
    rw [accepted] at h
    rw [List.foldl_cons, nextRoot]
    cases hheader : headerOf result with
    | none =>
      rw [hheader] at h
      exact ih h
    | some header =>
      rw [hheader] at h
      by_cases hadvances : host.Advances tick start header
      · simp [hadvances] at h
      · simp only [hadvances, if_false] at h ⊢
        exact ih h

/-- A result is accepted exactly when it advances the root that the results before it reach. -/
theorem mem_accepted {host : AccumulateHost} {tick : UInt64} {start : StateRoot}
    {results : List (Option Bytes)} {entry : AcceptedResult} :
    entry ∈ accepted host tick start results ↔
      ∃ before result after, results = before ++ result :: after ∧
        headerOf result = some entry.header ∧
        entry.current = before.foldl (nextRoot host tick) start ∧
        host.Advances tick entry.current entry.header := by
  induction results generalizing start with
  | nil => simp [accepted]
  | cons result results ih =>
    -- the first result is the accepted one, or it is among those before it
    have hsplit : (∃ before result' after, result :: results = before ++ result' :: after ∧
          headerOf result' = some entry.header ∧
          entry.current = before.foldl (nextRoot host tick) start ∧
          host.Advances tick entry.current entry.header) ↔
        (headerOf result = some entry.header ∧ entry.current = start ∧
          host.Advances tick entry.current entry.header) ∨
        entry ∈ accepted host tick (nextRoot host tick start result) results := by
      rw [ih]
      constructor
      · rintro ⟨before, result', after, hresults, hheader, hcurrent, hadvances⟩
        rcases before with _ | ⟨first, before⟩
        · cases hresults
          exact .inl ⟨hheader, hcurrent, hadvances⟩
        · cases hresults
          exact .inr ⟨before, result', after, rfl, hheader, hcurrent, hadvances⟩
      · rintro (⟨hheader, hcurrent, hadvances⟩ |
          ⟨before, result', after, rfl, hheader, hcurrent, hadvances⟩)
        · exact ⟨[], result, results, rfl, hheader, hcurrent, hadvances⟩
        · exact ⟨result :: before, result', after, rfl, hheader, hcurrent, hadvances⟩
    rw [hsplit, accepted, nextRoot]
    cases hheader : headerOf result with
    | none => simp
    | some header =>
      by_cases hadvances : host.Advances tick start header
      · simp only [hadvances, if_true, List.mem_cons, Option.some.injEq]
        refine or_congr ?_ Iff.rfl
        constructor
        · rintro rfl
          exact ⟨rfl, rfl, hadvances⟩
        · rintro ⟨hentry, hcurrent, -⟩
          cases entry
          simp_all
      · simp only [hadvances, if_false, Option.some.injEq]
        refine ⟨.inr, ?_⟩
        rintro (⟨rfl, hcurrent, habsurd⟩ | hmem)
        · rw [hcurrent] at habsurd
          exact absurd habsurd hadvances
        · exact hmem

namespace AccumulateHost

/-- The root the loop starts from. -/
def startRoot (host : AccumulateHost) : StateRoot :=
  host.readCurrentCommitment.toOption.getD emptyStateRootV1

/-- The call accepts `refined`: at its place in the list it advances the root. -/
def Accepts (host : AccumulateHost) (refined : Bytes) : Prop :=
  ∃ tick serviceId itemsCount before after header,
    decodeAccumulateInitInput host.initInput = .ok (tick, serviceId, itemsCount) ∧
    host.results = before ++ some refined :: after ∧
    RuntimeRefineOutputV1.decodeTransitionHeader refined = .ok header ∧
    host.Advances tick (before.foldl (nextRoot host tick) host.startRoot) header

/-- The results a whole call accepts. -/
def acceptedResults (host : AccumulateHost) : List AcceptedResult :=
  match decodeAccumulateInitInput host.initInput with
  | .error _ => []
  | .ok (tick, _, _) => accepted host tick host.startRoot host.results

end AccumulateHost

/-! ### Acceptance in terms of the loop -/

namespace AccumulateHost

/-- The root the loop has reached after the results `before`. -/
def rootAfter (host : AccumulateHost) (tick : UInt64) (before : List (Option Bytes)) : StateRoot :=
  (before.foldl (accumulateResult host tick) ⟨host.startRoot, false⟩).current

/-- The iteration over `result`, which begins at `current`, sets the flag. -/
def Iterates (host : AccumulateHost) (tick : UInt64) (current : StateRoot)
    (result : Option Bytes) : Prop :=
  (accumulateResult host tick ⟨current, false⟩ result).advanced = true

theorem rootAfter_eq (host : AccumulateHost) (tick : UInt64) (before : List (Option Bytes)) :
    host.rootAfter tick before = before.foldl (nextRoot host tick) host.startRoot := by
  rw [rootAfter, foldl_accumulateResult]

theorem iterates_iff (host : AccumulateHost) (tick : UInt64) (current : StateRoot)
    (result : Option Bytes) :
    host.Iterates tick current result ↔
      ∃ header, headerOf result = some header ∧ host.Advances tick current header := by
  rw [Iterates, accumulateResult_eq]
  cases headerOf result with
  | none => simp
  | some header =>
    by_cases hadvances : host.Advances tick current header
    · simp [hadvances]
    · simp [hadvances]

/-- A call accepts `refined` exactly when its loop sets the flag in the iteration over it. -/
theorem accepts_iff (host : AccumulateHost) (refined : Bytes) :
    host.Accepts refined ↔ ∃ tick serviceId itemsCount before after,
      decodeAccumulateInitInput host.initInput = .ok (tick, serviceId, itemsCount) ∧
      host.results = before ++ some refined :: after ∧
      host.Iterates tick (host.rootAfter tick before) (some refined) := by
  have hheader : ∀ header, headerOf (some refined) = some header ↔
      RuntimeRefineOutputV1.decodeTransitionHeader refined = .ok header := by
    intro header
    rw [headerOf, Option.bind_some]
    cases RuntimeRefineOutputV1.decodeTransitionHeader refined <;> simp [Except.toOption]
  simp only [Accepts, iterates_iff, rootAfter_eq, hheader, ← exists_and_left]

/-- An entry is accepted exactly when its header belongs to a result in whose iteration the loop, at
the entry's root, sets the flag. -/
theorem mem_acceptedResults {host : AccumulateHost} {entry : AcceptedResult} :
    entry ∈ host.acceptedResults ↔ ∃ tick serviceId itemsCount before result after,
      decodeAccumulateInitInput host.initInput = .ok (tick, serviceId, itemsCount) ∧
      host.results = before ++ result :: after ∧ headerOf result = some entry.header ∧
      entry.current = host.rootAfter tick before ∧ host.Iterates tick entry.current result := by
  unfold acceptedResults
  cases decodeAccumulateInitInput host.initInput with
  | error e => simp
  | ok decoded =>
    obtain ⟨tick, serviceId, itemsCount⟩ := decoded
    rw [mem_accepted]
    constructor
    · rintro ⟨before, result, after, hresults, hheader, hcurrent, hadvances⟩
      exact ⟨tick, serviceId, itemsCount, before, result, after, rfl, hresults, hheader,
        hcurrent.trans (host.rootAfter_eq tick before).symm,
        (host.iterates_iff tick _ result).mpr ⟨entry.header, hheader, hadvances⟩⟩
    · rintro ⟨_, _, _, before, result, after, hdecoded, hresults, hheader, hcurrent, hiterates⟩
      cases hdecoded
      obtain ⟨header, hfound, hadvances⟩ := (host.iterates_iff tick _ result).mp hiterates
      cases hheader.symm.trans hfound
      exact ⟨before, result, after, hresults, hheader,
        hcurrent.trans (host.rootAfter_eq tick before), hadvances⟩

end AccumulateHost

/-- A call writes exactly when it accepts a result, and then it writes the root of the fold once. -/
theorem minijamAccumulate_eq {host : AccumulateHost} {tick serviceId itemsCount : UInt64}
    (h : decodeAccumulateInitInput host.initInput = .ok (tick, serviceId, itemsCount)) :
    minijamAccumulate host =
      if accepted host tick host.startRoot host.results = [] then []
      else [(managedStateCommitmentKeyV1, (ManagedStateCommitmentV1.new
        (host.results.foldl (nextRoot host tick) host.startRoot)).encode.toList)] := by
  have hstart : (match host.readCurrentCommitment with
      | .ok root => root
      | .error _ => emptyStateRootV1) = host.startRoot := by
    unfold AccumulateHost.startRoot
    cases host.readCurrentCommitment <;> rfl
  unfold minijamAccumulate
  rw [h]
  dsimp only
  rw [hstart, foldl_accumulateResult]
  cases haccepted : accepted host tick host.startRoot host.results <;> simp

theorem decodeAccumulateInitInput_encode {tick serviceId itemsCount : UInt64}
    (htick : tick.toNat < 2 ^ 56) (hservice : serviceId.toNat < 2 ^ 56)
    (hitems : itemsCount.toNat < 2 ^ 56) :
    decodeAccumulateInitInput
        (encodeNatural tick ++ (encodeNatural serviceId ++ encodeNatural itemsCount)) =
      .ok (tick, serviceId, itemsCount) :=
  Reads.whole _ ((reads_fnencode htick).bind ((reads_fnencode hservice).bind
    ((reads_fnencode hitems).bind_pure fun itemsCount => (tick, serviceId, itemsCount))))

/-- The first number from `2^56` on stops the decoder. -/
theorem decodeAccumulateInitInput_large {tick serviceId itemsCount : UInt64}
    (h : ¬ (tick.toNat < 2 ^ 56 ∧ serviceId.toNat < 2 ^ 56 ∧ itemsCount.toNat < 2 ^ 56)) :
    ∃ e, decodeAccumulateInitInput
      (encodeNatural tick ++ (encodeNatural serviceId ++ encodeNatural itemsCount)) = .error e := by
  have hread : ∀ {value : UInt64} {rest : Bytes}, value.toNat < 2 ^ 56 →
      readFnencode (encodeNatural value ++ rest) = .ok (value, rest) := fun h => reads_fnencode h _
  rcases hdecode : decodeAccumulateInitInput
    (encodeNatural tick ++ (encodeNatural serviceId ++ encodeNatural itemsCount)) with e | decoded
  · exact ⟨e, rfl⟩
  simp only [decodeAccumulateInitInput, Parser.whole_eq_ok, Parser.bind_eq_ok] at hdecode
  obtain ⟨_, _, htick, _, _, hservice, _, _, hitems, -⟩ := hdecode
  rcases Nat.lt_or_ge tick.toNat (2 ^ 56) with hlt | hge
  · rw [hread hlt] at htick
    cases htick
    rcases Nat.lt_or_ge serviceId.toNat (2 ^ 56) with hlt' | hge'
    · rw [hread hlt'] at hservice
      cases hservice
      rw [← List.append_nil (encodeNatural itemsCount),
        readFnencode_large (not_lt.mp fun hlt'' => h ⟨hlt, hlt', hlt''⟩)] at hitems
      cases hitems
    · rw [readFnencode_large hge'] at hservice
      cases hservice
  · rw [readFnencode_large hge] at htick
    cases htick

/-- Naturals are read back exactly below `2^56`: three of them from the init input of accumulation,
and one by each of the decoders, with nothing else consumed. -/
theorem naturals_read_back_iff (tick serviceId itemsCount value : UInt64) (before rest : Bytes) :
    (decodeAccumulateInitInput
        (encodeNatural tick ++ (encodeNatural serviceId ++ encodeNatural itemsCount)) =
      .ok (tick, serviceId, itemsCount) ↔
        tick.toNat < 2 ^ 56 ∧ serviceId.toNat < 2 ^ 56 ∧ itemsCount.toNat < 2 ^ 56) ∧
    (readFnencode (encodeNatural value ++ rest) = .ok (value, rest) ↔ value.toNat < 2 ^ 56) ∧
    (Generated.readFnencode (encodeNatural value ++ rest) = .ok (value, rest) ↔
      value.toNat < 2 ^ 56) ∧
    (decodeFnencode (before ++ (encodeNatural value ++ rest)) before.length =
      some (value, before.length + (encodeNatural value).length) ↔ value.toNat < 2 ^ 56) := by
  refine ⟨⟨fun h => ?_, fun ⟨htick, hservice, hitems⟩ =>
    decodeAccumulateInitInput_encode htick hservice hitems⟩,
    readFnencode_encode_iff, readFnencode_encode_iff, decodeFnencode_encode_iff⟩
  by_contra hlarge
  obtain ⟨e, he⟩ := decodeAccumulateInitInput_large hlarge
  rw [he] at h
  cases h

theorem natural_not_read_back :
    decodeAccumulateInitInput
      (encodeNatural 0x100000000000000 ++ (encodeNatural 1 ++ encodeNatural 1)) =
      .error () ∧
    readFnencode (encodeNatural 0x100000000000000) = .error () ∧
    decodeFnencode (encodeNatural 0x100000000000000) 0 = none := by
  decide +kernel

/-- The storage value of a commitment. -/
def commitmentBytes (root : StateRoot) : Bytes := (ManagedStateCommitmentV1.new root).encode.toList

/-- An absent slot reads as the empty root, a well-formed one as the root it holds. -/
theorem startRoot_eq {host : AccumulateHost} {stored : Option StateRoot}
    (h : host.storageRead managedStateCommitmentKeyV1 = storageReadHost
      (stored.map commitmentBytes)) :
    host.startRoot = stored.getD emptyStateRootV1 := by
  unfold AccumulateHost.startRoot AccumulateHost.readCurrentCommitment
  rw [h]
  cases stored with
  | none => rfl
  | some root =>
    have hread : (storageReadHost (some (commitmentBytes root))).IsCommitment root :=
      storageReadHost_isCommitment root
    have hstatus : (storageReadHost (some (commitmentBytes root))).status ≠ 1 := by
      rw [hread.1]
      decide
    rw [Option.map_some]
    dsimp only
    rw [if_neg hstatus, StorageRead.commitment_eq_ok.mpr hread]
    rfl

/-- From `start` on, accumulate reaches the fold of its results: if one of them advances the root,
one write stores the root that the fold ends in, and otherwise nothing is written. -/
def AccumulateHost.Folds (host : AccumulateHost) (tick : UInt64) (start : StateRoot) : Prop :=
  let final := host.results.foldl (nextRoot host tick) start
  ((∃ before result after header, host.results = before ++ result :: after ∧
        headerOf result = some header ∧
        host.Advances tick (before.foldl (nextRoot host tick) start) header) ∧
      minijamAccumulate host = [(managedStateCommitmentKeyV1, commitmentBytes final)]) ∨
    ((∀ before result after header, host.results = before ++ result :: after →
        headerOf result = some header →
        ¬ host.Advances tick (before.foldl (nextRoot host tick) start) header) ∧
      final = start ∧ minijamAccumulate host = [])

/-- Accumulate folds its results exactly when it writes what the list of accepted results says. -/
theorem folds_iff (host : AccumulateHost) (tick : UInt64) (start : StateRoot) :
    host.Folds tick start ↔ minijamAccumulate host =
      if accepted host tick start host.results = [] then []
      else [(managedStateCommitmentKeyV1,
        commitmentBytes (host.results.foldl (nextRoot host tick) start))] := by
  unfold AccumulateHost.Folds
  rcases haccepted : accepted host tick start host.results with _ | ⟨entry, rest⟩
  · have hnone : ∀ before result after header, host.results = before ++ result :: after →
        headerOf result = some header →
        ¬ host.Advances tick (before.foldl (nextRoot host tick) start) header := by
      intro before result after header hresults hheader hadvances
      have hmem : ⟨_, header⟩ ∈ accepted host tick start host.results :=
        mem_accepted.mpr ⟨before, result, after, hresults, hheader, rfl, hadvances⟩
      rw [haccepted] at hmem
      cases hmem
    rw [if_pos rfl]
    constructor
    · rintro (⟨⟨before, result, after, header, hresults, hheader, hadvances⟩, -⟩ | ⟨-, -, hwrites⟩)
      · exact absurd hadvances (hnone before result after header hresults hheader)
      · exact hwrites
    · intro hwrites
      exact .inr ⟨hnone, foldl_nextRoot_of_accepted_nil haccepted, hwrites⟩
  · have hmem : entry ∈ accepted host tick start host.results := by simp [haccepted]
    obtain ⟨before, result, after, hresults, hheader, hcurrent, hadvances⟩ := mem_accepted.mp hmem
    rw [hcurrent] at hadvances
    rw [if_neg (by simp)]
    constructor
    · rintro (⟨-, hwrites⟩ | ⟨hnone, -, -⟩)
      · exact hwrites
      · exact absurd hadvances (hnone before result after entry.header hresults hheader)
    · intro hwrites
      exact .inl ⟨⟨before, result, after, entry.header, hresults, hheader, hadvances⟩, hwrites⟩

/-- No result is accepted exactly when none of them advances the root the loop starts from. -/
theorem accepted_eq_nil_iff {host : AccumulateHost} {tick : UInt64} {start : StateRoot}
    {results : List (Option Bytes)} :
    accepted host tick start results = [] ↔
      ∀ result ∈ results, ∀ header, headerOf result = some header →
        ¬ host.Advances tick start header := by
  induction results with
  | nil => simp [accepted]
  | cons result results ih =>
    rw [List.forall_mem_cons, ← ih, accepted]
    cases headerOf result with
    | none => simp
    | some header =>
      by_cases hadvances : host.Advances tick start header
      · simp [hadvances]
      · simp [hadvances]

/-- On an absent or well-formed slot, accumulate folds its results exactly when the three numbers of
its init input are below `2^56`, or none of the results advances the stored root anyway. -/
theorem accumulate_folds_iff {host : AccumulateHost} {stored : Option StateRoot}
    {tick serviceId itemsCount : UInt64}
    (hinput : host.initInput =
      encodeNatural tick ++ (encodeNatural serviceId ++ encodeNatural itemsCount))
    (hslot : host.storageRead managedStateCommitmentKeyV1 =
      storageReadHost (stored.map commitmentBytes)) :
    host.Folds tick (stored.getD emptyStateRootV1) ↔
      tick.toNat < 2 ^ 56 ∧ serviceId.toNat < 2 ^ 56 ∧ itemsCount.toNat < 2 ^ 56 ∨
        ∀ result ∈ host.results, ∀ header, headerOf result = some header →
          ¬ host.Advances tick (stored.getD emptyStateRootV1) header := by
  rw [folds_iff, ← accepted_eq_nil_iff]
  by_cases hsmall : tick.toNat < 2 ^ 56 ∧ serviceId.toNat < 2 ^ 56 ∧ itemsCount.toNat < 2 ^ 56
  · have hdecode : decodeAccumulateInitInput host.initInput =
      .ok (tick, serviceId, itemsCount) := by
      rw [hinput]
      exact decodeAccumulateInitInput_encode hsmall.1 hsmall.2.1 hsmall.2.2
    have hwrites := minijamAccumulate_eq hdecode
    rw [startRoot_eq hslot] at hwrites
    exact iff_of_true hwrites (.inl hsmall)
  · -- the init input is refused, so nothing is written
    have hrefused : minijamAccumulate host = [] := by
      obtain ⟨e, he⟩ := decodeAccumulateInitInput_large hsmall
      unfold minijamAccumulate
      rw [hinput, he]
    rw [hrefused, or_iff_right hsmall]
    split_ifs with hnone
    · exact iff_of_true rfl hnone
    · exact iff_of_false (by simp) hnone

/-! ### Sample calls -/

/-- A root that repeats one byte. -/
def sampleRoot (byte : UInt8) : StateRoot := List.Vector.replicate 32 byte

/-- The bytes of a transition without receipts and changes. -/
def transitionBytes (parentRoot newRoot : StateRoot)
    (dependencies : List ExternalStateDependencyV1) : Bytes :=
  (RuntimeRefineOutputV1.encode
    { version := 1, parentRoot, newRoot, externalDependencies := dependencies
      transitionValidUntil := none, receipts := [], recoveryCommitment := sampleRoot 0
      recoveryPayload := [] }).toOption.getD []

/-- The host of service 7, whose slot holds `slot`; no other service has a slot. -/
def sampleHost (tick : UInt64) (slot : Option Bytes) (results : List (Option Bytes)) :
    AccumulateHost where
  initInput := encodeNatural tick ++
    (encodeNatural 7 ++ encodeNatural (UInt64.ofNat results.length))
  storageRead key := storageReadHost (if key = managedStateCommitmentKeyV1 then slot else none)
  serviceStorageRead serviceId key :=
    storageReadHost (if serviceId = 7 ∧ key = managedStateCommitmentKeyV1 then slot else none)
  results

/-- Two results from the empty root, an unreadable one and one that follows the first. -/
def sampleResults : List (Option Bytes) :=
  [some (transitionBytes emptyStateRootV1 (sampleRoot 1) []), none,
    some (transitionBytes emptyStateRootV1 (sampleRoot 2) []),
    some (transitionBytes (sampleRoot 1) (sampleRoot 3) [])]

/-- The sample fold accepts its first and its last result. -/
theorem accumulate_folds_sample :
    (sampleHost 5 none sampleResults).Folds 5 emptyStateRootV1 ∧
      minijamAccumulate (sampleHost 5 none sampleResults) =
        [(managedStateCommitmentKeyV1, commitmentBytes (sampleRoot 3))] := by
  have hinput : (sampleHost 5 none sampleResults).initInput =
      encodeNatural 5 ++ (encodeNatural 7 ++ encodeNatural 4) := rfl
  have hslot : (sampleHost 5 none sampleResults).storageRead managedStateCommitmentKeyV1 =
      storageReadHost ((none : Option StateRoot).map commitmentBytes) := by simp [sampleHost]
  exact ⟨(accumulate_folds_iff hinput hslot).mpr (.inl (by decide)), by decide +kernel⟩

/-- At a tick the decoder cannot read, results that should advance the root are dropped. -/
theorem accumulate_drops_large_tick :
    let host := sampleHost 0x100000000000000 none sampleResults
    sampleResults.foldl (nextRoot host 0x100000000000000) emptyStateRootV1 = sampleRoot 3 ∧
      minijamAccumulate host = [] := by
  decide +kernel

/-! ## A slot that cannot be read -/

/-- The slot holds something that is no commitment: a host error, a wrong length or wrong
versions. -/
def AccumulateHost.Unreadable (host : AccumulateHost) : Prop :=
  (host.storageRead managedStateCommitmentKeyV1).status ≠ 1 ∧
    ∀ root, ¬ (host.storageRead managedStateCommitmentKeyV1).IsCommitment root

/-- An unreadable slot starts the loop from the empty root. -/
theorem startRoot_of_unreadable {host : AccumulateHost} (h : host.Unreadable) :
    host.startRoot = emptyStateRootV1 := by
  unfold AccumulateHost.startRoot AccumulateHost.readCurrentCommitment
  dsimp only
  rw [if_neg h.1]
  cases hread : (host.storageRead managedStateCommitmentKeyV1).commitment with
  | error e => rfl
  | ok root => exact absurd (StorageRead.commitment_eq_ok.mp hread) (h.2 root)

/-- An unreadable slot is left alone exactly when no result of the call advances the empty root. -/
theorem accumulate_keeps_unreadable_iff {host : AccumulateHost} (h : host.Unreadable) :
    minijamAccumulate host = [] ↔
      ∀ tick serviceId itemsCount,
        decodeAccumulateInitInput host.initInput = .ok (tick, serviceId, itemsCount) →
        ∀ result ∈ host.results, ∀ header, headerOf result = some header →
          ¬ host.Advances tick emptyStateRootV1 header := by
  cases hdecode : decodeAccumulateInitInput host.initInput with
  | error e => simp [minijamAccumulate, hdecode]
  | ok decoded =>
    obtain ⟨tick, serviceId, itemsCount⟩ := decoded
    rw [minijamAccumulate_eq hdecode, startRoot_of_unreadable h]
    constructor
    · intro hwrites tick' _ _ heq
      cases heq
      rw [← accepted_eq_nil_iff]
      by_contra hne
      simp [hne] at hwrites
    · intro hnone
      rw [if_pos (accepted_eq_nil_iff.mpr (hnone tick serviceId itemsCount rfl))]

/-- A commitment of protocol version 2. -/
def foreignCommitment : Bytes := [2, 1] ++ (sampleRoot 9).toList

theorem sampleHost_unreadable (results : List (Option Bytes)) :
    (sampleHost 5 (some foreignCommitment) results).Unreadable := by
  have hread : (sampleHost 5 (some foreignCommitment) results).storageRead
      managedStateCommitmentKeyV1 = storageReadHost (some foreignCommitment) := by simp [sampleHost]
  unfold AccumulateHost.Unreadable
  rw [hread]
  refine ⟨by decide, fun root hcommitment => ?_⟩
  have hbytes : (2 : UInt8) = 1 := congrArg (fun bytes => bytes.head) hcommitment.2.2
  exact absurd hbytes (by decide)

/-- A call whose results all start elsewhere leaves the foreign commitment alone. -/
theorem accumulate_keeps_foreign_commitment :
    minijamAccumulate (sampleHost 5 (some foreignCommitment)
      [some (transitionBytes (sampleRoot 1) (sampleRoot 3) []), none]) = [] := by
  rw [accumulate_keeps_unreadable_iff (sampleHost_unreadable _)]
  intro tick _ _ _ result hresult header hheader hadvances
  have hparent : ∀ result ∈ [some (transitionBytes (sampleRoot 1) (sampleRoot 3) []), none],
      (headerOf result).all fun header => header.parentRoot ≠ emptyStateRootV1 := by decide +kernel
  have hne := hparent result hresult
  rw [hheader] at hne
  exact of_decide_eq_true hne hadvances.1

/-- A result from the empty root replaces the foreign commitment. -/
theorem accumulate_overwrites_foreign_commitment :
    (sampleHost 5 (some foreignCommitment) sampleResults).Unreadable ∧
      minijamAccumulate (sampleHost 5 (some foreignCommitment) sampleResults) =
        [(managedStateCommitmentKeyV1, commitmentBytes (sampleRoot 3))] :=
  ⟨sampleHost_unreadable _, by decide +kernel⟩

/-! ## A transition that read its own service -/

/-- What an accepted result is known by. -/
theorem advances_of_accepted {host : AccumulateHost} {entry : AcceptedResult}
    (h : entry ∈ host.acceptedResults) :
    ∃ tick serviceId itemsCount,
      decodeAccumulateInitInput host.initInput = .ok (tick, serviceId, itemsCount) ∧
      host.Advances tick entry.current entry.header := by
  unfold AccumulateHost.acceptedResults at h
  split at h
  case h_1 => cases h
  case h_2 tick serviceId itemsCount hdecode =>
    obtain ⟨_, _, _, _, _, _, hadvances⟩ := mem_accepted.mp h
    exact ⟨tick, serviceId, itemsCount, hdecode, hadvances⟩

/-- Let `selfId` be the accumulating service, so that reading its slot is reading the own slot. The
dependency of an accepted result on `selfId` is the root the result is applied to exactly when that
root is still the stored one. -/
theorem self_dependency_current_iff {host : AccumulateHost} {selfId : UInt32}
    (hself : host.serviceStorageRead selfId managedStateCommitmentKeyV1 =
      host.storageRead managedStateCommitmentKeyV1)
    {entry : AcceptedResult} (hentry : entry ∈ host.acceptedResults)
    {dependency : ExternalStateDependencyV1}
    (hdependency : dependency ∈ entry.header.externalDependencies)
    (hservice : dependency.serviceId = selfId) :
    dependency.stateRoot = entry.current ↔ host.readCurrentCommitment = .ok entry.current := by
  obtain ⟨_, _, _, _, _, _, hcommits⟩ := advances_of_accepted hentry
  have hread : (host.storageRead managedStateCommitmentKeyV1).IsCommitment
    dependency.stateRoot := by
    rw [← hself, ← hservice]
    exact hcommits dependency hdependency
  have hstored : host.readCurrentCommitment = .ok dependency.stateRoot := by
    unfold AccumulateHost.readCurrentCommitment
    dsimp only
    rw [if_neg (by rw [hread.1]; decide), StorageRead.commitment_eq_ok.mpr hread]
  rw [hstored, Except.ok.injEq]

/-- A call of service 7, whose slot holds the commitment to `sampleRoot 0`. -/
def selfReadHost (results : List (Option Bytes)) : AccumulateHost :=
  sampleHost 5 (some (commitmentBytes (sampleRoot 0))) results

theorem selfReadHost_self (results : List (Option Bytes)) :
    (selfReadHost results).serviceStorageRead 7 managedStateCommitmentKeyV1 =
      (selfReadHost results).storageRead managedStateCommitmentKeyV1 := by
  simp [selfReadHost, sampleHost]

/-- The header of a transition from `parentRoot` that read `sampleRoot 0` of service 7. -/
def selfReadHeader (parentRoot newRoot : StateRoot) : RuntimeRefineTransitionHeaderV1 :=
  ⟨1, parentRoot, newRoot, [⟨7, sampleRoot 0⟩], none, sampleRoot 0⟩

/-- The first result of a call still sees the stored root. -/
theorem self_dependency_first_result :
    (⟨7, sampleRoot 0⟩ : ExternalStateDependencyV1).stateRoot = sampleRoot 0 ↔
      (selfReadHost [some (transitionBytes (sampleRoot 0) (sampleRoot 1) [⟨7, sampleRoot 0⟩])]
        ).readCurrentCommitment = .ok (sampleRoot 0) := by
  have hentry : ⟨sampleRoot 0, selfReadHeader (sampleRoot 0) (sampleRoot 1)⟩ ∈
      (selfReadHost [some (transitionBytes (sampleRoot 0) (sampleRoot 1) [⟨7, sampleRoot 0⟩])]
        ).acceptedResults := by decide +kernel
  exact self_dependency_current_iff (selfReadHost_self _) hentry (by simp [selfReadHeader]) rfl

/-- After a first result has moved the fold, a second one that read the stored root is applied to
the moved root. -/
theorem self_dependency_outdated :
    (selfReadHost [some (transitionBytes (sampleRoot 0) (sampleRoot 1) []),
        some (transitionBytes (sampleRoot 1) (sampleRoot 2) [⟨7, sampleRoot 0⟩])]).acceptedResults =
      [⟨sampleRoot 0, ⟨1, sampleRoot 0, sampleRoot 1, [], none, sampleRoot 0⟩⟩,
        ⟨sampleRoot 1, selfReadHeader (sampleRoot 1) (sampleRoot 2)⟩] ∧
    minijamAccumulate (selfReadHost [some (transitionBytes (sampleRoot 0) (sampleRoot 1) []),
        some (transitionBytes (sampleRoot 1) (sampleRoot 2) [⟨7, sampleRoot 0⟩])]) =
      [(managedStateCommitmentKeyV1, commitmentBytes (sampleRoot 2))] ∧
    sampleRoot 0 ≠ sampleRoot 1 := by
  decide +kernel

end JamScript
