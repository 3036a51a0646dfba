import JamScript.Common.Agreement
import JamScript.Core.Records

/-!
# Refine outputs and their transition headers

A refine run ends in a `RuntimeRefineOutputV1`: the roots before and after the batch, the external
roots it relied on, its validity limit, one receipt per action and the recovery payload. Accumulate
reads only its header, through `decodeTransitionHeader`, which still walks over the whole byte
string. `readOutput` is what it has in common with the backend's decoder: the two differ in how they
read a receipt and in what they check afterwards.

`decode_encode` and `decodeTransitionHeader_encode` say that an output, or the header of it, is read
back from its encoding with the dependencies in canonical order. `mem_canonicalizeDependencies` says
that canonical order loses no dependency.
-/

namespace JamScript

open Codec

inductive ActionStatusV1 where
  | applied
  | failed
  | rejected
  deriving DecidableEq, Repr

namespace ActionStatusV1

/-- The `repr(u8)` discriminant. -/
def toU8 : ActionStatusV1 → UInt8
  | .applied => 0
  | .failed => 1
  | .rejected => 2

def ofU8 : UInt8 → Except WireError ActionStatusV1
  | 0 => pure .applied
  | 1 => pure .failed
  | 2 => pure .rejected
  | _ => throw .invalidEncoding

theorem ofU8_toU8 (status : ActionStatusV1) : ofU8 status.toU8 = .ok status := by
  cases status <;> rfl

theorem ofU8_eq_ok {tag : UInt8} {status : ActionStatusV1} : ofU8 tag = .ok status ↔
    tag = status.toU8 := by
  constructor
  · intro h
    unfold ofU8 at h
    split at h <;> cases h <;> rfl
  · rintro rfl
    exact ofU8_toU8 status

/-- The bytes up to 2 are the statuses. -/
theorem exists_toU8 {tag : UInt8} : tag ≤ 2 ↔ ∃ status : ActionStatusV1, tag = status.toU8 := by
  constructor
  · intro h
    have htag : tag.toNat ≤ 2 := UInt8.le_iff_toNat_le.mp h
    interval_cases hnat : tag.toNat
    · exact ⟨.applied, UInt8.toNat_inj.mp hnat⟩
    · exact ⟨.failed, UInt8.toNat_inj.mp hnat⟩
    · exact ⟨.rejected, UInt8.toNat_inj.mp hnat⟩
  · rintro ⟨status, rfl⟩
    cases status <;> decide

end ActionStatusV1

structure ActionReceiptV1 where
  actionHash : StateRoot
  status : ActionStatusV1
  errorCode : Option UInt32
  deriving DecidableEq

/-- A dependency on the canonical managed root of another service. -/
structure ExternalStateDependencyV1 where
  serviceId : UInt32
  stateRoot : StateRoot
  deriving DecidableEq

structure RuntimeRefineOutputV1 where
  version : UInt8
  parentRoot : StateRoot
  newRoot : StateRoot
  externalDependencies : List ExternalStateDependencyV1
  transitionValidUntil : Option UInt64
  receipts : List ActionReceiptV1
  recoveryCommitment : StateRoot
  recoveryPayload : Bytes
  deriving DecidableEq

structure RuntimeRefineTransitionHeaderV1 where
  version : UInt8
  parentRoot : StateRoot
  newRoot : StateRoot
  externalDependencies : List ExternalStateDependencyV1
  transitionValidUntil : Option UInt64
  recoveryCommitment : StateRoot
  deriving DecidableEq

/-! ## Canonical dependencies -/

/-- One step of the de-duplication loop. -/
def pushDependency (canonical : List ExternalStateDependencyV1)
    (dependency : ExternalStateDependencyV1) :
    Except WireError (List ExternalStateDependencyV1) :=
  match canonical.getLast? with
  | some previous =>
    if previous.serviceId = dependency.serviceId then do
      ensure (previous.stateRoot = dependency.stateRoot) WireError.duplicateServiceId
      pure canonical
    else pure (canonical ++ [dependency])
  | none => pure (canonical ++ [dependency])

def canonicalizeDependencies (dependencies : List ExternalStateDependencyV1) :
    Except WireError (List ExternalStateDependencyV1) :=
  (dependencies.insertionSort fun left right => left.serviceId ≤ right.serviceId).foldlM
    pushDependency []

/-- Canonical dependencies: one per service, in order of service id. -/
def DependenciesSorted (dependencies : List ExternalStateDependencyV1) : Prop :=
  dependencies.Pairwise fun left right => left.serviceId < right.serviceId

/-- Pushing a dependency that is not below the last one keeps the list sorted and adds at most
it. -/
theorem pushDependency_spec {canonical next : List ExternalStateDependencyV1}
    {dependency : ExternalStateDependencyV1}
    (hpush : pushDependency canonical dependency = .ok next)
    (hsorted : DependenciesSorted canonical)
    (hbelow : ∀ d ∈ canonical, d.serviceId ≤ dependency.serviceId) :
    DependenciesSorted next ∧ ∀ d, d ∈ next ↔ d ∈ canonical ∨ d = dependency := by
  rcases List.eq_nil_or_concat' canonical with rfl | ⟨front, last, rfl⟩
  · cases hpush
    simp [DependenciesSorted]
  · have hlast : (front ++ [last]).getLast? = some last := by simp
    simp only [pushDependency, hlast] at hpush
    split at hpush
    case isTrue heq =>
      obtain ⟨_, hroot, hnext⟩ := bind_eq_ok.mp hpush
      rw [ensure_eq_ok] at hroot
      cases hnext
      have hdep : dependency = last := by
        cases dependency
        cases last
        simp_all
      refine ⟨hsorted, fun d => ?_⟩
      simp [hdep]
    case isFalse hne =>
      cases hpush
      refine ⟨?_, fun d => by simp [or_assoc]⟩
      unfold DependenciesSorted at hsorted ⊢
      rw [List.pairwise_append] at hsorted ⊢
      refine ⟨List.pairwise_append.mpr hsorted, by simp, fun d hd e he => ?_⟩
      -- every earlier entry is at most the last one, which is strictly below the new one
      obtain rfl := List.mem_singleton.mp he
      have hlastlt : last.serviceId < e.serviceId :=
        UInt32.lt_of_le_of_ne (hbelow last (by simp)) hne
      rcases List.mem_append.mp hd with hd | hd
      · exact UInt32.lt_trans (hsorted.2.2 d hd last (by simp)) hlastlt
      · rw [List.mem_singleton.mp hd]
        exact hlastlt

theorem foldlM_pushDependency_spec {pending canonical result : List ExternalStateDependencyV1}
    (hfold : pending.foldlM pushDependency canonical = .ok result)
    (hpending : pending.Pairwise fun left right => left.serviceId ≤ right.serviceId)
    (hsorted : DependenciesSorted canonical)
    (hbelow : ∀ d ∈ canonical, ∀ e ∈ pending, d.serviceId ≤ e.serviceId) :
    DependenciesSorted result ∧ ∀ d, d ∈ result ↔ d ∈ canonical ∨ d ∈ pending := by
  induction pending generalizing canonical with
  | nil =>
    cases hfold
    exact ⟨hsorted, by simp⟩
  | cons dependency pending ih =>
    rw [List.foldlM_cons] at hfold
    obtain ⟨next, hpush, hrest⟩ := bind_eq_ok.mp hfold
    rw [List.pairwise_cons] at hpending
    obtain ⟨hnext, hmem⟩ := pushDependency_spec hpush hsorted fun d hd => hbelow d hd _ (by simp)
    have hbelow' : ∀ d ∈ next, ∀ e ∈ pending, d.serviceId ≤ e.serviceId := by
      intro d hd e he
      rcases (hmem d).mp hd with hd | rfl
      · exact hbelow d hd e (by simp [he])
      · exact hpending.1 e he
    obtain ⟨hresult, hmem'⟩ := ih hrest hpending.2 hnext hbelow'
    refine ⟨hresult, fun d => ?_⟩
    rw [hmem', hmem, List.mem_cons, or_assoc]

private theorem pairwise_sortedById (dependencies : List ExternalStateDependencyV1) :
    (dependencies.insertionSort fun left right => left.serviceId ≤ right.serviceId).Pairwise
      fun left right => left.serviceId ≤ right.serviceId := by
  have htotal : Std.Total fun left right : ExternalStateDependencyV1 =>
      left.serviceId ≤ right.serviceId := ⟨fun a b => UInt32.le_total a.serviceId b.serviceId⟩
  have htrans : IsTrans ExternalStateDependencyV1 fun left right =>
      left.serviceId ≤ right.serviceId := ⟨fun a b c => UInt32.le_trans⟩
  exact List.pairwise_insertionSort _ dependencies

theorem canonicalizeDependencies_sorted {dependencies canonical : List ExternalStateDependencyV1}
    (h : canonicalizeDependencies dependencies = .ok canonical) : DependenciesSorted canonical :=
  (foldlM_pushDependency_spec h (pairwise_sortedById dependencies) List.Pairwise.nil (by simp)).1

/-- Canonical order keeps exactly the dependencies that were given. -/
theorem mem_canonicalizeDependencies {dependencies canonical : List ExternalStateDependencyV1}
    (h : canonicalizeDependencies dependencies = .ok canonical) (d : ExternalStateDependencyV1) :
    d ∈ canonical ↔ d ∈ dependencies := by
  have hmem := (foldlM_pushDependency_spec h (pairwise_sortedById dependencies)
    List.Pairwise.nil (by simp)).2 d
  rw [hmem, List.mem_insertionSort]
  simp

namespace RuntimeRefineOutputV1

def fromDiffWithDependenciesAndValidity (blake2_256 : Bytes → StateRoot)
    (parentRoot newRoot : StateRoot) (receipts : List ActionReceiptV1) (diff : StateDiffV1)
    (externalDependencies : List ExternalStateDependencyV1)
    (transitionValidUntil : Option UInt64) : Except WireError RuntimeRefineOutputV1 := do
  let dependencies ← canonicalizeDependencies externalDependencies
  ensure (dependencies.length ≤ maxExternalStateWitnesses) WireError.tooManyItems
  let recovery ← StateRecoveryV1.new diff
  let recoveryPayload ← recovery.encode
  pure
    { version := managedStateProtocolVersion
      parentRoot
      newRoot
      externalDependencies := dependencies
      transitionValidUntil
      receipts
      recoveryCommitment := blake2_256 recoveryPayload
      recoveryPayload }

/-- The bytes of one dependency. -/
def writeDependency (dependency : ExternalStateDependencyV1) : Bytes :=
  u32ToLe dependency.serviceId ++ dependency.stateRoot.toList

/-- The bytes of the validity limit. -/
def writeValidUntil : Option UInt64 → Bytes
  | some validUntil => 1 :: u64ToLe validUntil
  | none => [0]

/-- The bytes of one receipt. -/
def writeReceipt (receipt : ActionReceiptV1) : Bytes :=
  receipt.actionHash.toList ++ [receipt.status.toU8] ++
    match receipt.errorCode with
    | some error => 1 :: u32ToLe error
    | none => [0]

def encode (output : RuntimeRefineOutputV1) : Except WireError Bytes := do
  ensure (output.version = managedStateProtocolVersion ∧
    output.receipts.length ≤ maxRuntimeActions ∧
    output.recoveryPayload.length ≤ maxRecoveryBytes) WireError.tooManyItems
  let dependencies ← canonicalizeDependencies output.externalDependencies
  ensure (dependencies.length ≤ maxExternalStateWitnesses) WireError.tooManyItems
  let payload ← Writer.bytesU32 output.recoveryPayload
  pure ([output.version] ++ (output.parentRoot.toList ++ (output.newRoot.toList ++
    (u32ToLe (UInt32.ofNat dependencies.length) ++ (dependencies.flatMap writeDependency ++
    (writeValidUntil output.transitionValidUntil ++ (output.recoveryCommitment.toList ++
    (u32ToLe (UInt32.ofNat output.receipts.length) ++ (output.receipts.flatMap writeReceipt ++
      payload)))))))))

/-- The loop of `decode_dependencies`: `previous` is the last service id pushed. -/
def readDependencies : ℕ → Option UInt32 → List ExternalStateDependencyV1 →
    Reader (List ExternalStateDependencyV1)
  | 0, _, dependencies => pure dependencies
  | count + 1, previous, dependencies => do
    let serviceId ← Reader.u32
    Parser.check (¬ previous.any fun last => serviceId < last) .unsortedDependencies
    let stateRoot ← Reader.array 32
    match dependencies.getLast? with
    | some existing =>
      if existing.serviceId = serviceId then do
        Parser.check (existing.stateRoot = stateRoot) .duplicateServiceId
        readDependencies count previous dependencies
      else readDependencies count (some serviceId) (dependencies ++ [⟨serviceId, stateRoot⟩])
    | none => readDependencies count (some serviceId) (dependencies ++ [⟨serviceId, stateRoot⟩])

def decodeDependencies : Reader (List ExternalStateDependencyV1) := do
  let count ← Reader.u32
  Parser.check (count.toNat ≤ maxExternalStateWitnesses) .tooManyItems
  readDependencies count.toNat none []

def readValidUntil : Reader (Option UInt64) := do
  match ← Reader.u8 with
  | 0 => pure none
  | 1 => do
    let validUntil ← Reader.u64
    pure (some validUntil)
  | _ => throw .invalidEncoding

/-- The header decoder checks a receipt but keeps nothing of it. -/
def skipReceipt : Reader Unit := do
  let _ ← Reader.array 32
  let status ← Reader.u8
  Parser.check (status ≤ ActionStatusV1.rejected.toU8) .invalidEncoding
  match ← Reader.u8 with
  | 0 => pure ()
  | 1 => do
    let _ ← Reader.u32
    pure ()
  | _ => throw .invalidEncoding

def decodeTransitionHeader (bytes : Bytes) : Except WireError RuntimeRefineTransitionHeaderV1 :=
  Parser.whole .invalidEncoding (do
    let version ← Reader.u8
    Parser.check (version = managedStateProtocolVersion) .unsupportedVersion
    let parentRoot ← Reader.array 32
    let newRoot ← Reader.array 32
    let externalDependencies ← decodeDependencies
    let transitionValidUntil ← readValidUntil
    let recoveryCommitment ← Reader.array 32
    let count ← Reader.u32
    Parser.check (count.toNat ≤ maxRuntimeActions) .tooManyItems
    let _ ← Parser.many skipReceipt count.toNat
    let _ ← Reader.bytesLimited maxRecoveryBytes
    pure { version, parentRoot, newRoot, externalDependencies, transitionValidUntil,
           recoveryCommitment }) bytes

def readReceipt : Reader ActionReceiptV1 := do
  let actionHash ← Reader.array 32
  let tag ← Reader.u8
  let status ← (ActionStatusV1.ofU8 tag : Except WireError ActionStatusV1)
  match ← Reader.u8 with
  | 0 => pure ⟨actionHash, status, none⟩
  | 1 => do
    let error ← Reader.u32
    pure ⟨actionHash, status, some error⟩
  | _ => throw .invalidEncoding

/-- The backend's decoder: unlike the header decoder it keeps the receipts, bounds the whole and
opens the recovery payload. -/
def decode (blake2_256 : Bytes → StateRoot) (bytes : Bytes) :
    Except WireError RuntimeRefineOutputV1 := do
  ensure (bytes.length ≤ maxRecoveryBytes + 128 * maxRuntimeActions) WireError.tooManyItems
  let output ← Parser.whole .invalidEncoding (do
    let version ← Reader.u8
    Parser.check (version = managedStateProtocolVersion) .unsupportedVersion
    let parentRoot ← Reader.array 32
    let newRoot ← Reader.array 32
    let externalDependencies ← decodeDependencies
    let transitionValidUntil ← readValidUntil
    let recoveryCommitment ← Reader.array 32
    let count ← Reader.u32
    Parser.check (count.toNat ≤ maxRuntimeActions) .tooManyItems
    let receipts ← Parser.many readReceipt count.toNat
    let recoveryPayload ← Reader.bytesLimited maxRecoveryBytes
    pure { version, parentRoot, newRoot, externalDependencies, transitionValidUntil, receipts,
           recoveryCommitment, recoveryPayload }) bytes
  ensure (blake2_256 output.recoveryPayload = output.recoveryCommitment) WireError.invalidEncoding
  let _ ← StateRecoveryV1.decode output.recoveryPayload
  pure output

/-! ## The common part of the decoders -/

/-- The header an output stands for, its dependencies already canonical. -/
def header (output : RuntimeRefineOutputV1) (dependencies : List ExternalStateDependencyV1) :
    RuntimeRefineTransitionHeaderV1 :=
  { version := output.version
    parentRoot := output.parentRoot
    newRoot := output.newRoot
    externalDependencies := dependencies
    transitionValidUntil := output.transitionValidUntil
    recoveryCommitment := output.recoveryCommitment }

/-- What both decoders read, with the receipts and the recovery payload. -/
def readOutput {γ : Type} (receipt : Reader γ) : Reader
    (RuntimeRefineTransitionHeaderV1 × List γ × Bytes) := do
  let version ← Reader.u8
  Parser.check (version = managedStateProtocolVersion) .unsupportedVersion
  let parentRoot ← Reader.array 32
  let newRoot ← Reader.array 32
  let externalDependencies ← decodeDependencies
  let transitionValidUntil ← readValidUntil
  let recoveryCommitment ← Reader.array 32
  let count ← Reader.u32
  Parser.check (count.toNat ≤ maxRuntimeActions) .tooManyItems
  let receipts ← Parser.many receipt count.toNat
  let recoveryPayload ← Reader.bytesLimited maxRecoveryBytes
  pure (⟨version, parentRoot, newRoot, externalDependencies, transitionValidUntil,
    recoveryCommitment⟩, receipts, recoveryPayload)

/-- The output with the given header. -/
def ofHeader (header : RuntimeRefineTransitionHeaderV1) (receipts : List ActionReceiptV1)
    (payload : Bytes) :
    RuntimeRefineOutputV1 :=
  ⟨header.version, header.parentRoot, header.newRoot, header.externalDependencies,
    header.transitionValidUntil, receipts, header.recoveryCommitment, payload⟩

/-- The header and the recovery payload that the header decoder passes over. -/
def decodeHeaderAndPayload (bytes : Bytes) : Except WireError
    (RuntimeRefineTransitionHeaderV1 × Bytes) :=
  (Parser.whole .invalidEncoding (readOutput skipReceipt) bytes).map fun read => (read.1, read.2.2)

theorem decodeTransitionHeader_eq (bytes : Bytes) :
    decodeTransitionHeader bytes = (decodeHeaderAndPayload bytes).map Prod.fst := by
  have hreader : decodeTransitionHeader bytes =
      Parser.whole .invalidEncoding (readOutput skipReceipt >>= fun read => pure read.1) bytes := by
    simp only [decodeTransitionHeader, readOutput, bind_assoc, pure_bind]
  rw [hreader, Parser.whole_bind_pure, decodeHeaderAndPayload]
  cases Parser.whole .invalidEncoding (readOutput skipReceipt) bytes <;> rfl

theorem decode_eq_ok {blake2_256 : Bytes → StateRoot} {bytes : Bytes}
    {output : RuntimeRefineOutputV1} :
    decode blake2_256 bytes = .ok output ↔
      bytes.length ≤ maxRecoveryBytes + 128 * maxRuntimeActions ∧
      (∃ header receipts payload, readOutput readReceipt bytes =
        .ok ((header, receipts, payload), []) ∧
        output = ofHeader header receipts payload) ∧
      blake2_256 output.recoveryPayload = output.recoveryCommitment ∧
      ∃ recovery, StateRecoveryV1.decode output.recoveryPayload = .ok recovery := by
  have hreader : decode blake2_256 bytes = (do
      ensure (bytes.length ≤ maxRecoveryBytes + 128 * maxRuntimeActions) WireError.tooManyItems
      let output ← Parser.whole .invalidEncoding (readOutput readReceipt >>= fun read =>
        pure (ofHeader read.1 read.2.1 read.2.2)) bytes
      ensure (blake2_256 output.recoveryPayload =
        output.recoveryCommitment) WireError.invalidEncoding
      let _ ← StateRecoveryV1.decode output.recoveryPayload
      pure output) := by
    simp only [decode, readOutput, ofHeader, bind_assoc, pure_bind]
  rw [hreader]
  simp only [bind_eq_ok, ensure_eq_ok, exists_const, Parser.whole_eq_ok]
  refine and_congr_right fun _ => ⟨?_, ?_⟩
  · rintro ⟨read, hread, hcommitment, recovery, hrecovery, hpure⟩
    cases hpure
    obtain ⟨⟨header, receipts, payload⟩, _, hread, hkeep⟩ := Parser.bind_eq_ok.mp hread
    obtain ⟨rfl, rfl⟩ := Parser.pure_eq_ok.mp hkeep
    exact ⟨⟨header, receipts, payload, hread, rfl⟩, hcommitment, recovery, hrecovery⟩
  · rintro ⟨⟨header, receipts, payload, hread, rfl⟩, hcommitment, recovery, hrecovery⟩
    refine ⟨_, Parser.bind_eq_ok.mpr ⟨_, _, hread, rfl⟩, hcommitment, recovery, hrecovery, rfl⟩

/-! ## Receipts -/

theorem recognizes_readValidUntil : Recognizes readValidUntil writeValidUntil fun _ => True := by
  constructor
  intro bytes rest validUntil
  have hread : readValidUntil = Reader.optional Reader.u64 := rfl
  rw [hread, Reader.optional_eq_ok, true_and]
  cases validUntil <;> simp [writeValidUntil, Reader.u64_iff]

theorem readReceipt_eq : readReceipt = (do
    let actionHash ← Reader.array 32
    let tag ← Reader.u8
    let status ← (ActionStatusV1.ofU8 tag : Except WireError ActionStatusV1)
    let errorCode ← Reader.optional Reader.u32
    pure ⟨actionHash, status, errorCode⟩) := by
  simp only [Reader.optional_bind]
  rfl

theorem skipReceipt_eq : skipReceipt = (do
    let _ ← Reader.array 32
    let status ← Reader.u8
    Parser.check (status ≤ ActionStatusV1.rejected.toU8) .invalidEncoding
    let _ ← Reader.optional Reader.u32
    pure ()) := by
  simp only [Reader.optional_bind]
  rfl

theorem recognizes_readReceipt : Recognizes readReceipt writeReceipt fun _ => True := by
  constructor
  intro bytes rest receipt
  obtain ⟨actionHash, status, errorCode⟩ := receipt
  simp only [readReceipt_eq, Parser.bind_eq_ok, Reader.array_eq_ok, Reader.u8_eq_ok,
    Parser.lift_eq_ok,
    ActionStatusV1.ofU8_eq_ok, Reader.optional_eq_ok, Parser.pure_eq_ok, true_and]
  constructor
  · rintro ⟨_, _, rfl, _, _, rfl, _, _, ⟨rfl, rfl⟩, _, _, ⟨_, hcode⟩, hreceipt, rfl⟩
    cases hreceipt
    cases errorCode with
    | none =>
      obtain ⟨rfl, -⟩ := hcode
      simp [writeReceipt]
    | some code =>
      obtain ⟨rfl, hcode⟩ := hcode
      rw [Reader.u32_iff.mp hcode]
      simp [writeReceipt]
  · rintro rfl
    rw [writeReceipt, List.append_assoc, List.append_assoc]
    refine ⟨_, _, rfl, _, _, rfl, _, _, ⟨rfl, rfl⟩, errorCode, rest, ?_, rfl, rfl⟩
    cases errorCode with
    | none => exact ⟨rest, rfl, rfl⟩
    | some code => exact ⟨u32ToLe code ++ rest, rfl, Reader.u32_iff.mpr rfl⟩

/-- A reader that checks the status byte goes on where the one that keeps the status does. -/
theorem agrees_status {ε α β : Type} {tag : UInt8} {condition : Prop} [Decidable condition] {e : ε}
    (hcondition : condition ↔ tag ≤ 2) {f : ActionStatusV1 → Reader α} {g : Unit → Parser ε β}
    {related : α → β → Prop} (hf : ∀ status, status.toU8 = tag →
      Selects (f status) (g ()) related) :
    Selects ((liftM (ActionStatusV1.ofU8 tag) : Reader ActionStatusV1) >>= f)
      (Parser.check condition e >>= g) related := by
  intro bytes rest result
  simp only [Parser.bind_eq_ok, Parser.check_eq_ok, Parser.lift_eq_ok,
    ActionStatusV1.ofU8_eq_ok, hcondition, ActionStatusV1.exists_toU8]
  constructor
  · rintro ⟨_, _, ⟨⟨status, rfl⟩, rfl⟩, hread⟩
    obtain ⟨a, ha, hrelated⟩ := (hf status rfl _ _ _).mp hread
    exact ⟨a, ⟨status, _, ⟨rfl, rfl⟩, ha⟩, hrelated⟩
  · rintro ⟨a, ⟨status, _, ⟨rfl, rfl⟩, ha⟩, hrelated⟩
    exact ⟨(), bytes, ⟨⟨status, rfl⟩, rfl⟩, (hf status rfl _ _ _).mpr ⟨a, ha, hrelated⟩⟩

/-- Skipping a receipt accepts what reading one accepts. -/
theorem agrees_skipReceipt : Agrees readReceipt skipReceipt fun _ => () := by
  rw [readReceipt_eq, skipReceipt_eq]
  refine (Agrees.refl _).bind fun actionHash => (Agrees.refl _).bind fun tag => ?_
  refine agrees_status Iff.rfl fun status _ => (Agrees.refl _).bind fun errorCode => ?_
  exact Agrees.pure _ fun _ => ()

theorem agrees_readOutput_skip : Agrees (readOutput readReceipt) (readOutput skipReceipt)
    fun read => (read.1, read.2.1.map fun _ => (), read.2.2) := by
  refine (Agrees.refl _).bind fun version => .check_bind Iff.rfl fun _ =>
    (Agrees.refl _).bind fun parentRoot => ?_
  refine (Agrees.refl _).bind fun newRoot => (Agrees.refl _).bind fun dependencies => ?_
  refine (Agrees.refl _).bind fun validUntil => (Agrees.refl _).bind fun commitment => ?_
  refine (Agrees.refl _).bind fun count => .check_bind Iff.rfl fun _ => ?_
  refine (agrees_skipReceipt.many _).bind fun receipts => (Agrees.refl _).bind fun payload => ?_
  exact Agrees.pure (_, receipts, payload) fun read => (read.1, read.2.1.map fun _ => (), read.2.2)

theorem decodeHeaderAndPayload_eq_ok {bytes : Bytes} {header : RuntimeRefineTransitionHeaderV1}
    {payload : Bytes} : decodeHeaderAndPayload bytes = .ok (header, payload) ↔
      ∃ receipts, readOutput readReceipt bytes = .ok ((header, receipts, payload), []) := by
  have hwhole := agrees_readOutput_skip.whole .invalidEncoding .invalidEncoding bytes
  rw [decodeHeaderAndPayload]
  cases hread : Parser.whole .invalidEncoding (readOutput skipReceipt) bytes with
  | error error =>
    refine ⟨nofun, ?_⟩
    rintro ⟨receipts, h⟩
    have hread' := (hwhole _).mpr ⟨_, Parser.whole_eq_ok.mpr h, rfl⟩
    cases hread.symm.trans hread'
  | ok read =>
    obtain ⟨⟨header', receipts', payload'⟩, hread', rfl⟩ := (hwhole _).mp hread
    rw [Parser.whole_eq_ok] at hread'
    constructor
    · rintro ⟨⟩
      exact ⟨receipts', hread'⟩
    · rintro ⟨receipts, h⟩
      cases hread'.symm.trans h
      rfl

/-! ## Decoding an encoded output -/

/-- The dependency loop reads back a sorted list behind the entries it already has. -/
theorem reads_readDependencies {pending canonical : List ExternalStateDependencyV1}
    (hsorted : DependenciesSorted (canonical ++ pending)) :
    Reads (readDependencies pending.length (canonical.getLast?.map (·.serviceId)) canonical)
      (pending.flatMap writeDependency) (canonical ++ pending) := by
  induction pending generalizing canonical with
  | nil => simpa [readDependencies] using Reads.pure (ε := WireError) canonical
  | cons dependency pending ih =>
    have hbelow : ∀ d ∈ canonical.getLast?, d.serviceId < dependency.serviceId := by
      intro d hd
      exact (List.pairwise_append.mp hsorted).2.2 d (List.mem_of_getLast? hd) dependency (by simp)
    have hih := @ih (canonical ++ [dependency]) (by simpa using hsorted)
    have hlast : (canonical ++ [dependency]).getLast? = some dependency := by simp
    rw [hlast, Option.map_some, List.append_assoc, List.singleton_append] at hih
    rw [List.flatMap_cons, writeDependency, List.append_assoc, List.length_cons, readDependencies]
    refine (reads_u32 dependency.serviceId).bind (Reads.check_bind ?_
      ((reads_rootArray dependency.stateRoot).bind ?_))
    · rw [Option.any_map, Option.any_eq_true]
      rintro ⟨d, hd, hlt⟩
      have hge := UInt32.le_of_lt (hbelow d hd)
      exact UInt32.not_lt.mpr hge (of_decide_eq_true hlt)
    · cases hgetLast : canonical.getLast? with
      | none => exact hih
      | some existing =>
        have hne : existing.serviceId ≠ dependency.serviceId :=
          UInt32.ne_of_lt (hbelow existing hgetLast)
        simp only [hne, ↓reduceIte]
        exact hih

theorem reads_decodeDependencies {dependencies : List ExternalStateDependencyV1}
    (hsorted : DependenciesSorted dependencies)
    (hlength : dependencies.length ≤ maxExternalStateWitnesses) :
    Reads decodeDependencies
      (u32ToLe (UInt32.ofNat dependencies.length) ++ dependencies.flatMap writeDependency)
      dependencies := by
  have hnat := toNat_count hlength (by decide)
  refine (reads_u32 _).bind (Reads.check_bind (by omega) ?_)
  rw [hnat]
  exact @reads_readDependencies dependencies [] hsorted

theorem reads_readOutput {output : RuntimeRefineOutputV1} {bytes : Bytes}
    (h : output.encode = .ok bytes) :
    ∃ dependencies, canonicalizeDependencies output.externalDependencies = .ok dependencies ∧
      Reads (readOutput readReceipt) bytes
        (output.header dependencies, output.receipts, output.recoveryPayload) := by
  obtain ⟨_, hchecks, h⟩ := bind_eq_ok.mp h
  obtain ⟨dependencies, hdeps, h⟩ := bind_eq_ok.mp h
  obtain ⟨_, hcount, h⟩ := bind_eq_ok.mp h
  obtain ⟨payload, hpayload, h⟩ := bind_eq_ok.mp h
  rw [ensure_eq_ok] at hchecks hcount
  obtain ⟨hversion, hreceipts, hrecovery⟩ := hchecks
  cases h
  refine ⟨dependencies, hdeps, ?_⟩
  have hnat := toNat_count hreceipts (by decide)
  refine (reads_u8 _).bind (Reads.check_bind hversion ?_)
  refine (reads_rootArray _).bind ((reads_rootArray _).bind ?_)
  rw [← List.append_assoc (u32ToLe _)]
  refine (reads_decodeDependencies (canonicalizeDependencies_sorted hdeps) hcount).bind ?_
  refine (recognizes_readValidUntil.reads trivial).bind
    ((reads_rootArray _).bind ((reads_u32 _).bind ?_))
  refine Reads.check_bind (by omega) ?_
  rw [hnat]
  refine (reads_many output.receipts fun receipt _ => recognizes_readReceipt.reads trivial).bind ?_
  exact (reads_bytesLimited hpayload hrecovery).bind_pure _

/-- Encoding an output and decoding its header returns the output's header, with the dependencies in
canonical order. -/
theorem decodeTransitionHeader_encode {output : RuntimeRefineOutputV1} {bytes : Bytes}
    (h : output.encode = .ok bytes) :
    ∃ dependencies, canonicalizeDependencies output.externalDependencies = .ok dependencies ∧
      decodeTransitionHeader bytes = .ok (output.header dependencies) := by
  obtain ⟨dependencies, hdeps, hreads⟩ := reads_readOutput h
  refine ⟨dependencies, hdeps, ?_⟩
  have hread := Parser.whole_eq_ok.mp (hreads.whole .invalidEncoding)
  rw [decodeTransitionHeader_eq, decodeHeaderAndPayload_eq_ok.mpr ⟨_, hread⟩]
  rfl

theorem length_flatMap_le {α : Type} {f : α → Bytes} {bound : ℕ} (items : List α)
    (h : ∀ item ∈ items, (f item).length ≤ bound) :
    (items.flatMap f).length ≤ bound * items.length := by
  induction items with
  | nil => simp
  | cons item items ih =>
    have hitem := h item (by simp)
    have hitems := ih fun other hother => h other (by simp [hother])
    rw [List.flatMap_cons, List.length_append, List.length_cons, Nat.mul_succ]
    omega

theorem length_writeReceipt_le (receipt : ActionReceiptV1) :
    (writeReceipt receipt).length ≤ 38 := by
  unfold writeReceipt
  cases receipt.errorCode <;> simp [length_u32ToLe]

theorem length_encode_le {output : RuntimeRefineOutputV1} {bytes : Bytes}
    (h : output.encode = .ok bytes) :
    4 < bytes.length ∧ bytes.length ≤ maxRecoveryBytes + 128 * maxRuntimeActions := by
  obtain ⟨_, hchecks, h⟩ := bind_eq_ok.mp h
  obtain ⟨dependencies, -, h⟩ := bind_eq_ok.mp h
  obtain ⟨_, hcount, h⟩ := bind_eq_ok.mp h
  obtain ⟨payload, hpayload, h⟩ := bind_eq_ok.mp h
  rw [ensure_eq_ok] at hchecks hcount
  obtain ⟨-, hreceipts, hrecovery⟩ := hchecks
  cases h
  have hdependencies : (dependencies.flatMap writeDependency).length ≤ 36 * dependencies.length :=
    length_flatMap_le _ fun _ _ => by simp [writeDependency, length_u32ToLe]
  have hwritten : (output.receipts.flatMap writeReceipt).length ≤ 38 * output.receipts.length :=
    length_flatMap_le _ fun receipt _ => length_writeReceipt_le receipt
  have hlimit : (writeValidUntil output.transitionValidUntil).length ≤ 9 := by
    cases output.transitionValidUntil <;> simp [writeValidUntil, length_u64ToLe]
  have hpayload := Writer.length_bytesU32 hpayload
  unfold maxExternalStateWitnesses at hcount
  unfold maxRuntimeActions at hreceipts ⊢
  simp only [List.length_append, List.length_singleton, List.Vector.toList_length, length_u32ToLe]
  omega

/-- The output is read back with its dependencies in canonical order. -/
theorem decode_encode {blake2_256 : Bytes → StateRoot} {output : RuntimeRefineOutputV1}
    {bytes : Bytes} (h : output.encode = .ok bytes)
    (hcommitment : blake2_256 output.recoveryPayload = output.recoveryCommitment)
    (hrecovery : ∃ recovery, StateRecoveryV1.decode output.recoveryPayload = .ok recovery) :
    ∃ dependencies, canonicalizeDependencies output.externalDependencies = .ok dependencies ∧
      decode blake2_256 bytes = .ok { output with externalDependencies := dependencies } := by
  obtain ⟨dependencies, hdependencies, hreads⟩ := reads_readOutput h
  refine ⟨dependencies, hdependencies, decode_eq_ok.mpr ⟨(length_encode_le h).2, ?_,
    hcommitment, hrecovery⟩⟩
  exact ⟨_, _, _, Parser.whole_eq_ok.mp (hreads.whole .invalidEncoding), rfl⟩

/-! ## Outputs that a refine run builds -/

/-- Canonical dependencies are left as they are. -/
theorem canonicalizeDependencies_of_sorted {dependencies : List ExternalStateDependencyV1}
    (h : DependenciesSorted dependencies) : canonicalizeDependencies dependencies =
      .ok dependencies := by
  have hsort : (dependencies.insertionSort fun left right => left.serviceId ≤ right.serviceId) =
      dependencies := List.Pairwise.insertionSort_eq (h.imp UInt32.le_of_lt)
  have hfold : ∀ pending canonical, DependenciesSorted (canonical ++ pending) →
      pending.foldlM pushDependency canonical = .ok (canonical ++ pending) := by
    intro pending
    induction pending with
    | nil =>
      intro canonical _
      rw [List.append_nil]
      rfl
    | cons dependency pending ih =>
      intro canonical hsorted
      have hpush : pushDependency canonical dependency = .ok (canonical ++ [dependency]) := by
        unfold pushDependency
        cases hlast : canonical.getLast? with
        | none => rfl
        | some previous =>
          have hlt := (List.pairwise_append.mp hsorted).2.2 previous (List.mem_of_getLast? hlast)
            dependency (by simp)
          have hne : previous.serviceId ≠ dependency.serviceId := UInt32.ne_of_lt hlt
          simp only [hne, ↓reduceIte]
          rfl
      rw [List.foldlM_cons, hpush]
      have hrest := ih (canonical ++ [dependency]) (by simpa using hsorted)
      rw [List.append_assoc] at hrest
      exact hrest
  rw [canonicalizeDependencies, hsort]
  exact hfold dependencies [] h

/-- What a refine run guarantees about the output it returns. -/
structure Built (blake2_256 : Bytes → StateRoot) (output : RuntimeRefineOutputV1) : Prop where
  version : output.version = managedStateProtocolVersion
  sorted : DependenciesSorted output.externalDependencies
  dependencies : output.externalDependencies.length ≤ maxExternalStateWitnesses
  commitment : blake2_256 output.recoveryPayload = output.recoveryCommitment
  payload : ∃ recovery, StateRecoveryV1.decode output.recoveryPayload = .ok recovery
  bounded : output.recoveryPayload.length ≤ maxRecoveryBytes

theorem fromDiffWithDependenciesAndValidity_built {blake2_256 : Bytes → StateRoot}
    {parentRoot newRoot : StateRoot} {receipts : List ActionReceiptV1} {diff : StateDiffV1}
    {externalDependencies : List ExternalStateDependencyV1} {transitionValidUntil : Option UInt64}
    {output : RuntimeRefineOutputV1}
    (h : fromDiffWithDependenciesAndValidity blake2_256 parentRoot newRoot receipts diff
      externalDependencies transitionValidUntil = .ok output) :
    output.receipts = receipts ∧ Built blake2_256 output := by
  obtain ⟨dependencies, hdeps, h⟩ := bind_eq_ok.mp h
  obtain ⟨_, hcount, h⟩ := bind_eq_ok.mp h
  obtain ⟨recovery, _, h⟩ := bind_eq_ok.mp h
  obtain ⟨payload, hpayload, h⟩ := bind_eq_ok.mp h
  cases h
  obtain ⟨hbounded, hdecode⟩ := StateRecoveryV1.encode_eq_ok hpayload
  refine ⟨rfl, rfl, canonicalizeDependencies_sorted hdeps, ensure_eq_ok.mp hcount, rfl,
    ⟨recovery, hdecode⟩, hbounded⟩

/-- An output of a refine run whose receipts are within the limit of a batch has an encoding, and
both decoders accept it. -/
theorem Built.encode {blake2_256 : Bytes → StateRoot} {output : RuntimeRefineOutputV1}
    (h : Built blake2_256 output) (hreceipts : output.receipts.length ≤ maxRuntimeActions) :
    ∃ bytes, output.encode = .ok bytes ∧ decode blake2_256 bytes = .ok output ∧
      decodeTransitionHeader bytes = .ok (output.header output.externalDependencies) := by
  have hcanonical := canonicalizeDependencies_of_sorted h.sorted
  have hpayload := Writer.bytesU32_of_le h.bounded (by decide)
  obtain ⟨bytes, hencode⟩ : ∃ bytes, output.encode = .ok bytes := by
    unfold RuntimeRefineOutputV1.encode ensure
    rw [if_pos ⟨h.version, hreceipts, h.bounded⟩, hcanonical, hpayload]
    refine ⟨_, bind_eq_ok.mpr ⟨(), rfl, bind_eq_ok.mpr ⟨_, rfl, bind_eq_ok.mpr ⟨(), ?_, rfl⟩⟩⟩⟩
    exact if_pos h.dependencies
  obtain ⟨dependencies, hdeps, hheader⟩ := decodeTransitionHeader_encode hencode
  obtain ⟨dependencies', hdeps', hdecode⟩ := decode_encode hencode h.commitment h.payload
  cases hcanonical.symm.trans hdeps
  cases hcanonical.symm.trans hdeps'
  exact ⟨bytes, hencode, hdecode, hheader⟩

end RuntimeRefineOutputV1

/-- The hash of the recovery payload without changes. -/
def unchangedCommitment : StateRoot :=
  ⟨[0x7c, 0x66, 0x57, 0xd1, 0xab, 0x7c, 0x1f, 0x32, 0x02, 0x37, 0x49, 0x54, 0xc3, 0xf4, 0x81, 0xe7,
    0x74, 0xcb, 0xe7, 0x27, 0x27, 0x92, 0x63, 0x7e, 0x8c, 0x7d, 0xd4, 0xc4, 0x02, 0xe0, 0x46, 0xc2],
    rfl⟩

end JamScript
