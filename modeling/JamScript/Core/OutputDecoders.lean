import JamScript.Core.RefineOutput

/-!
# One format, two decoders

The backend and accumulate read refine outputs with two different decoders. `decode_iff_header`
compares them on every byte string.

The encoding is not canonical. `decode_dependencies` passes over a dependency that repeats the one
before it, so that the same output has several accepted encodings. `output_canonical_iff` says which
byte strings are reproduced by the encoder, and `repeated_dependency_accepted` is one that is not.
-/

namespace JamScript

open Codec

namespace RuntimeRefineOutputV1

/-! ## What the common part has read -/

/-- One round of the dependency loop: the entry is added behind smaller ones, or it repeats the last
one. -/
theorem readDependencies_succ {count : ℕ} {canonical dependencies : List ExternalStateDependencyV1}
    {bytes rest : Bytes} (hsorted : DependenciesSorted canonical)
    (h : readDependencies (count + 1) (canonical.getLast?.map (·.serviceId)) canonical bytes =
      .ok (dependencies, rest)) :
    ∃ dependency mid, bytes = writeDependency dependency ++ mid ∧
      (canonical.getLast? = some dependency ∧
          readDependencies count (canonical.getLast?.map (·.serviceId)) canonical mid =
            .ok (dependencies, rest) ∨
        DependenciesSorted (canonical ++ [dependency]) ∧
          readDependencies count (some dependency.serviceId) (canonical ++ [dependency]) mid =
            .ok (dependencies, rest)) := by
  rw [readDependencies] at h
  obtain ⟨serviceId, _, hservice, h⟩ := Parser.bind_eq_ok.mp h
  obtain ⟨_, _, hcheck, h⟩ := Parser.bind_eq_ok.mp h
  obtain ⟨hordered, rfl⟩ := Parser.check_eq_ok.mp hcheck
  obtain ⟨stateRoot, mid, hroot, h⟩ := Parser.bind_eq_ok.mp h
  have hbytes : bytes = writeDependency ⟨serviceId, stateRoot⟩ ++ mid := by
    rw [Reader.consumes_u32 hservice, Parser.array_eq_ok.mp hroot, writeDependency,
      List.append_assoc]
  refine ⟨⟨serviceId, stateRoot⟩, mid, hbytes, ?_⟩
  clear hservice hroot hcheck hbytes
  rcases List.eq_nil_or_concat' canonical with rfl | ⟨front, last, rfl⟩
  · exact .inr ⟨by simp [DependenciesSorted], h⟩
  have hlast : (front ++ [last]).getLast? = some last := by simp
  rw [hlast] at h hordered ⊢
  dsimp only at h
  split at h
  case isTrue heq =>
    obtain ⟨_, _, hcheck, h⟩ := Parser.bind_eq_ok.mp h
    obtain ⟨hroots, rfl⟩ := Parser.check_eq_ok.mp hcheck
    refine .inl ⟨?_, h⟩
    rw [Option.some.injEq, ExternalStateDependencyV1.mk.injEq]
    exact ⟨heq, hroots⟩
  case isFalse hne =>
    refine .inr ⟨?_, h⟩
    have hlt : last.serviceId < serviceId := by
      refine UInt32.lt_of_le_of_ne (UInt32.not_lt.mp fun hlt => hordered ?_) hne
      exact decide_eq_true hlt
    unfold DependenciesSorted at hsorted ⊢
    refine List.pairwise_append.mpr ⟨hsorted, List.pairwise_singleton _ _, fun d hd e he => ?_⟩
    obtain rfl := List.mem_singleton.mp he
    rcases List.mem_append.mp hd with hfront | hsingle
    · exact UInt32.lt_trans ((List.pairwise_append.mp hsorted).2.2 d hfront last (by simp)) hlt
    · rw [List.mem_singleton.mp hsingle]
      exact hlt

/-- What the dependency loop has consumed: `count` entries. It keeps all of them exactly when none
repeats the one before it. -/
theorem readDependencies_eq_ok {count : ℕ} {canonical dependencies : List ExternalStateDependencyV1}
    {bytes rest : Bytes} (hsorted : DependenciesSorted canonical)
    (h : readDependencies count (canonical.getLast?.map (·.serviceId)) canonical bytes =
      .ok (dependencies, rest)) :
    DependenciesSorted dependencies ∧ ∃ added entries, dependencies = canonical ++ added ∧
      bytes = entries.flatMap writeDependency ++ rest ∧ entries.length = count ∧
      (added = entries ∨ added.length < count) ∧
      (added.length = count ↔ (canonical.getLast?.toList ++ entries).IsChain (· ≠ ·)) := by
  induction count generalizing canonical bytes with
  | zero =>
    obtain ⟨rfl, rfl⟩ := Parser.pure_eq_ok.mp h
    refine ⟨hsorted, [], [], (List.append_nil _).symm, rfl, rfl, .inl rfl, iff_of_true rfl ?_⟩
    cases canonical.getLast? <;> simp
  | succ count ih =>
    obtain ⟨dependency, mid, rfl, ⟨hrepeats, hread⟩ | ⟨hnext, hread⟩⟩ :=
      readDependencies_succ hsorted h
    · -- the entry is dropped, so the loop ends with fewer entries than it has read
      obtain ⟨hresult, added, entries, hdependencies, rfl, hentries, hkept, -⟩ := ih hsorted hread
      have hless : added.length < count + 1 := by
        rcases hkept with rfl | hlt
        · omega
        · omega
      refine ⟨hresult, added, dependency :: entries, hdependencies, ?_, congrArg (· + 1) hentries,
        .inr hless, iff_of_false hless.ne ?_⟩
      · rw [List.flatMap_cons, List.append_assoc]
      · simp [hrepeats]
    · have hlast : (canonical ++ [dependency]).getLast? = some dependency := by simp
      obtain ⟨hresult, added, entries, hdependencies, rfl, hentries, hkept, hchain⟩ :=
        ih hnext (by rw [hlast]; exact hread)
      refine ⟨hresult, dependency :: added, dependency :: entries, ?_, ?_,
        congrArg (· + 1) hentries, ?_, ?_⟩
      · rw [hdependencies, List.append_assoc, List.singleton_append]
      · rw [List.flatMap_cons, List.append_assoc]
      · exact hkept.imp (congrArg _) Nat.succ_lt_succ
      · rw [List.length_cons, Nat.succ_inj, hchain, hlast]
        rcases List.eq_nil_or_concat' canonical with rfl | ⟨front, last, rfl⟩
        · simp
        · have hne : last ≠ dependency := by
            rintro rfl
            exact UInt32.lt_irrefl _
              ((List.pairwise_append.mp hnext).2.2 last (by simp) last (by simp))
          simp [hne]

/-- The bytes around the dependencies, which are what the encoder writes there. -/
def surround (header : RuntimeRefineTransitionHeaderV1) (receipts : List ActionReceiptV1)
    (payload : Bytes) (dependencies : Bytes) : Bytes :=
  [header.version] ++ (header.parentRoot.toList ++ (header.newRoot.toList ++ (dependencies ++
    (writeValidUntil header.transitionValidUntil ++ (header.recoveryCommitment.toList ++
    (u32ToLe (UInt32.ofNat receipts.length) ++ (receipts.flatMap writeReceipt ++
      (u32ToLe (UInt32.ofNat payload.length) ++ payload))))))))

/-- What the backend's decoder has consumed. -/
structure Consumed (bytes : Bytes) (header : RuntimeRefineTransitionHeaderV1)
    (receipts : List ActionReceiptV1) (payload : Bytes) (count : UInt32)
    (entries : List ExternalStateDependencyV1) : Prop where
  version : header.version = managedStateProtocolVersion
  sorted : DependenciesSorted header.externalDependencies
  bytes_eq : bytes =
    surround header receipts payload (u32ToLe count ++ entries.flatMap writeDependency)
  count_le : count.toNat ≤ maxExternalStateWitnesses
  entries_length : entries.length = count.toNat
  /-- The decoder keeps the entries that were read, or fewer. -/
  kept : header.externalDependencies = entries ∨ header.externalDependencies.length < count.toNat
  unrepeated : header.externalDependencies.length = count.toNat ↔ entries.IsChain (· ≠ ·)
  receipts_le : receipts.length ≤ maxRuntimeActions
  payload_le : payload.length ≤ maxRecoveryBytes

theorem readOutput_consumed {bytes : Bytes} {header : RuntimeRefineTransitionHeaderV1}
    {receipts : List ActionReceiptV1} {payload : Bytes}
    (h : readOutput readReceipt bytes = .ok ((header, receipts, payload), [])) :
    ∃ count entries, Consumed bytes header receipts payload count entries := by
  simp only [readOutput, decodeDependencies, Parser.bind_eq_ok, Parser.check_eq_ok,
    Parser.pure_eq_ok,
    Reader.u8_eq_ok, Reader.array_eq_ok, Reader.u32_iff, recognizes_readValidUntil.total_eq_ok,
    Reader.bytesLimited_iff, Writer.bytesU32_eq_ok] at h
  obtain ⟨_, _, rfl, _, _, ⟨hsupported, rfl⟩, _, _, rfl, _, _, rfl, dependencies, _,
    ⟨count, _, rfl, _, _, ⟨hcount, rfl⟩, hdependencies⟩, _, _, rfl, _, _, rfl, number, _, rfl, _, _,
    ⟨hreceipts, rfl⟩, read, _, hread, _, _, ⟨hpayload, _, ⟨-, rfl⟩, rfl⟩, hkept, rfl⟩ := h
  cases hkept
  obtain ⟨hsorted, added, entries, rfl, rfl, hlength, hkept, hchain⟩ :=
    @readDependencies_eq_ok count.toNat [] _ _ _ List.Pairwise.nil hdependencies
  have hreceiptsLength := (Parser.many_eq_ok hread).1
  refine ⟨count, entries, hsupported, hsorted, ?_, hcount, hlength, hkept, hchain,
    hreceiptsLength.trans_le hreceipts, hpayload⟩
  rw [Consumes.many recognizes_readReceipt.consumes _ hread, surround, hreceiptsLength,
    UInt32.ofNat_toNat]
  simp only [List.append_assoc, List.append_nil, List.singleton_append]

/-! ## Encodings that are reproduced -/

/-- The number of dependencies that an encoded output announces. -/
def dependencyCount (bytes : Bytes) : ℕ := ofLe ((bytes.drop 65).take 4)

/-- The bytes at the place of dependency `i`, behind the version, the two roots and the count. -/
def dependencyEntry (bytes : Bytes) (i : ℕ) : Bytes := (bytes.drop (69 + 36 * i)).take 36

/-- No announced dependency is, byte for byte, the one before it. -/
def Unrepeated (bytes : Bytes) : Prop :=
  ∀ i, i + 1 < dependencyCount bytes → dependencyEntry bytes i ≠ dependencyEntry bytes (i + 1)

instance (bytes : Bytes) : Decidable (Unrepeated bytes) :=
  decidable_of_iff (∀ i < dependencyCount bytes - 1, dependencyEntry bytes i ≠
    dependencyEntry bytes (i + 1)) (forall_congr' fun _ => imp_congr_left Nat.lt_sub_iff_add_lt)

/-- The fixed front of an output, up to the count. -/
theorem surround_front (header : RuntimeRefineTransitionHeaderV1) (receipts : List ActionReceiptV1)
    (payload dependencies : Bytes) :
    ∃ front tail, front.length = 65 ∧
      surround header receipts payload dependencies = front ++ (dependencies ++ tail) :=
  ⟨[header.version] ++ (header.parentRoot.toList ++ header.newRoot.toList), _, by simp,
    by simp only [surround, List.append_assoc]; rfl⟩

theorem dependencyCount_surround (header : RuntimeRefineTransitionHeaderV1)
    (receipts : List ActionReceiptV1) (payload : Bytes) (count : UInt32) (written : Bytes) :
    dependencyCount (surround header receipts payload (u32ToLe count ++ written)) =
      count.toNat := by
  obtain ⟨front, tail, hfront, hsplit⟩ :=
    surround_front header receipts payload (u32ToLe count ++ written)
  rw [dependencyCount, hsplit, List.drop_left' hfront, List.append_assoc,
    List.take_left' (length_u32ToLe count), u32ToLe, ofLe_toLe]
  exact Nat.mod_eq_of_lt count.toNat_lt

theorem length_writeDependency (dependency : ExternalStateDependencyV1) :
    (writeDependency dependency).length = 36 := by
  simp [writeDependency]

theorem writeDependency_injective : Function.Injective writeDependency := by
  intro left right h
  obtain ⟨hservice, hroot⟩ := List.append_inj h (by rw [length_u32ToLe, length_u32ToLe])
  cases left
  cases right
  rw [ExternalStateDependencyV1.mk.injEq]
  have hdecoded := congrArg u32OfLe hservice
  rw [u32OfLe_u32ToLe, u32OfLe_u32ToLe] at hdecoded
  exact ⟨hdecoded, Subtype.ext hroot⟩

/-- Entry `i` of a list of dependencies that are written one after the other. -/
theorem take_drop_flatMap_writeDependency {entries : List ExternalStateDependencyV1} {i : ℕ}
    {tail : Bytes} (h : i < entries.length) :
    ((entries.flatMap writeDependency ++ tail).drop (36 * i)).take 36 =
      writeDependency entries[i] := by
  induction entries generalizing i with
  | nil => cases h
  | cons entry entries ih =>
    rw [List.flatMap_cons, List.append_assoc]
    rcases i with _ | i
    · rw [Nat.mul_zero, List.drop_zero, List.take_left' (length_writeDependency entry)]
      rfl
    · rw [Nat.mul_succ, Nat.add_comm, ← List.drop_drop,
        List.drop_left' (length_writeDependency entry)]
      exact ih (Nat.lt_of_succ_lt_succ h)

theorem Consumed.dependencyEntry_eq {bytes : Bytes} {header : RuntimeRefineTransitionHeaderV1}
    {receipts : List ActionReceiptV1} {payload : Bytes} {count : UInt32}
    {entries : List ExternalStateDependencyV1}
    (h : Consumed bytes header receipts payload count entries) {i : ℕ} (hi : i < entries.length) :
    dependencyEntry bytes i = writeDependency entries[i] := by
  obtain ⟨front, tail, hfront, hsplit⟩ :=
    surround_front header receipts payload (u32ToLe count ++ entries.flatMap writeDependency)
  have hcount : (front ++ u32ToLe count).length = 69 := by
    rw [List.length_append, hfront, length_u32ToLe]
  rw [dependencyEntry, h.bytes_eq, hsplit, List.append_assoc, ← List.append_assoc
    front, ← List.drop_drop, List.drop_left' hcount, take_drop_flatMap_writeDependency hi]

/-- On the bytes of an output, entries without repetitions are those of which none is dropped. -/
theorem Consumed.unrepeated_iff {bytes : Bytes} {header : RuntimeRefineTransitionHeaderV1}
    {receipts : List ActionReceiptV1} {payload : Bytes} {count : UInt32}
    {entries : List ExternalStateDependencyV1}
    (h : Consumed bytes header receipts payload count entries) :
    Unrepeated bytes ↔ header.externalDependencies.length = count.toNat := by
  have hcount : dependencyCount bytes = entries.length := by
    rw [h.bytes_eq, dependencyCount_surround, h.entries_length]
  rw [h.unrepeated, List.isChain_iff_getElem, Unrepeated, hcount]
  refine forall_congr' fun i => forall_congr' fun hi => ?_
  rw [h.dependencyEntry_eq hi, h.dependencyEntry_eq (Nat.lt_of_succ_lt hi)]
  exact writeDependency_injective.ne_iff

theorem Consumed.dependencies_le {bytes : Bytes} {header : RuntimeRefineTransitionHeaderV1}
    {receipts : List ActionReceiptV1} {payload : Bytes} {count : UInt32}
    {entries : List ExternalStateDependencyV1}
    (h : Consumed bytes header receipts payload count entries) :
    header.externalDependencies.length ≤ count.toNat := by
  rcases h.kept with hall | hlt
  · rw [hall, h.entries_length]
  · exact hlt.le

/-- A decoded output has an encoding: that of its dependencies without repetitions. -/
theorem Consumed.encode {bytes : Bytes} {header : RuntimeRefineTransitionHeaderV1}
    {receipts : List ActionReceiptV1} {payload : Bytes} {count : UInt32}
    {entries : List ExternalStateDependencyV1}
    (h : Consumed bytes header receipts payload count entries) :
    (ofHeader header receipts payload).encode = .ok (surround header receipts payload
      (u32ToLe (UInt32.ofNat header.externalDependencies.length) ++
        header.externalDependencies.flatMap writeDependency)) := by
  have hpayload : Writer.bytesU32 payload =
    .ok (u32ToLe (UInt32.ofNat payload.length) ++ payload) :=
    Writer.bytesU32_of_le h.payload_le (by decide)
  refine bind_eq_ok.mpr ⟨(), ensure_eq_ok.mpr ⟨h.version, h.receipts_le, h.payload_le⟩, ?_⟩
  refine bind_eq_ok.mpr ⟨_, canonicalizeDependencies_of_sorted h.sorted, ?_⟩
  refine bind_eq_ok.mpr ⟨(), ensure_eq_ok.mpr (h.dependencies_le.trans h.count_le), ?_⟩
  refine bind_eq_ok.mpr ⟨_, hpayload, congrArg Except.ok ?_⟩
  simp only [surround, ofHeader, List.append_assoc]

/-- An output with a valid recovery is read back with its dependencies sorted and without
repetitions. A byte string that is accepted is reproduced exactly when no dependency in it repeats
the one before it. -/
theorem output_canonical_iff (blake2_256 : Bytes → StateRoot) :
    (∀ output bytes, encode output = .ok bytes →
      blake2_256 output.recoveryPayload = output.recoveryCommitment →
      (∃ recovery, StateRecoveryV1.decode output.recoveryPayload = .ok recovery) →
        ∃ dependencies, DependenciesSorted dependencies ∧
          (∀ dependency, dependency ∈ dependencies ↔ dependency ∈ output.externalDependencies) ∧
          decode blake2_256 bytes = .ok { output with externalDependencies := dependencies }) ∧
    ∀ bytes output, decode blake2_256 bytes = .ok output →
      (output.encode = .ok bytes ↔ Unrepeated bytes) := by
  refine ⟨fun output bytes hencode hcommitment hrecovery => ?_, fun bytes output hdecode => ?_⟩
  · obtain ⟨dependencies, hdependencies, hdecode⟩ := decode_encode hencode hcommitment hrecovery
    exact ⟨dependencies, canonicalizeDependencies_sorted hdependencies,
      mem_canonicalizeDependencies hdependencies, hdecode⟩
  · obtain ⟨-, ⟨header, receipts, payload, hread, rfl⟩, -⟩ := decode_eq_ok.mp hdecode
    obtain ⟨count, entries, hconsumed⟩ := readOutput_consumed hread
    have hlength := toNat_count (hconsumed.dependencies_le.trans hconsumed.count_le) (by decide)
    rw [hconsumed.encode, hconsumed.unrepeated_iff, hconsumed.bytes_eq, Except.ok.injEq]
    constructor
    · intro hsame
      have hcounts := congrArg dependencyCount hsame
      rwa [dependencyCount_surround, dependencyCount_surround, hlength] at hcounts
    · intro hcounts
      rcases hconsumed.kept with hall | hlt
      · rw [hcounts, UInt32.ofNat_toNat, hall]
      · exact absurd hcounts hlt.ne

/-! ## The decoders compared -/

theorem length_surround_le {bytes : Bytes} {header : RuntimeRefineTransitionHeaderV1}
    {receipts : List ActionReceiptV1} {payload : Bytes} {count : UInt32}
    {entries : List ExternalStateDependencyV1}
    (h : Consumed bytes header receipts payload count entries) :
    bytes.length ≤ maxRecoveryBytes + 128 * maxRuntimeActions := by
  have hreceipts : (receipts.flatMap writeReceipt).length ≤ 38 * receipts.length :=
    length_flatMap_le _ fun receipt _ => length_writeReceipt_le receipt
  have hlimit : (writeValidUntil header.transitionValidUntil).length ≤ 9 := by
    cases header.transitionValidUntil <;> simp [writeValidUntil, length_u64ToLe]
  have hcount := h.count_le
  have hreceiptsLe := h.receipts_le
  have hpayload := h.payload_le
  have hwritten : (entries.flatMap writeDependency).length ≤ 36 * count.toNat := by
    rw [← h.entries_length]
    exact length_flatMap_le _ fun entry _ => (length_writeDependency entry).le
  unfold maxExternalStateWitnesses at hcount
  unfold maxRuntimeActions at hreceiptsLe ⊢
  rw [h.bytes_eq]
  simp only [surround, List.length_append, List.length_singleton, List.Vector.toList_length,
    length_u32ToLe]
  omega

/-- The full decoder accepts what the header decoder accepts if the payload is a recovery that
matches the commitment; its size limit excludes nothing. -/
theorem decode_iff_header (blake2_256 : Bytes → StateRoot) (bytes : Bytes) :
    (∃ output, decode blake2_256 bytes = .ok output) ↔
      ∃ header payload, decodeHeaderAndPayload bytes = .ok (header, payload) ∧
        blake2_256 payload = header.recoveryCommitment ∧
        ∃ recovery, StateRecoveryV1.decode payload = .ok recovery := by
  constructor
  · rintro ⟨output, hdecode⟩
    obtain ⟨-, ⟨header, receipts, payload, hread, rfl⟩, hcommitment, hrecovery⟩ :=
    decode_eq_ok.mp hdecode
    exact ⟨header, payload, decodeHeaderAndPayload_eq_ok.mpr ⟨receipts, hread⟩,
      hcommitment, hrecovery⟩
  · rintro ⟨header, payload, hheader, hcommitment, hrecovery⟩
    obtain ⟨receipts, hread⟩ := decodeHeaderAndPayload_eq_ok.mp hheader
    obtain ⟨count, entries, hconsumed⟩ := readOutput_consumed hread
    exact ⟨ofHeader header receipts payload, decode_eq_ok.mpr ⟨length_surround_le hconsumed,
      ⟨header, receipts, payload, hread, rfl⟩, hcommitment, hrecovery⟩⟩

/-- Where both decoders accept, they report the same header. -/
theorem header_of_decode {blake2_256 : Bytes → StateRoot} {bytes : Bytes}
    {output : RuntimeRefineOutputV1} (h : decode blake2_256 bytes = .ok output) :
    decodeTransitionHeader bytes = .ok (output.header output.externalDependencies) := by
  obtain ⟨-, ⟨header, receipts, payload, hread, rfl⟩, -⟩ := decode_eq_ok.mp h
  rw [decodeTransitionHeader_eq, decodeHeaderAndPayload_eq_ok.mpr ⟨receipts, hread⟩]
  rfl

/-! ### A repeated dependency -/

/-- The recovery without changes. -/
def emptyRecovery : Bytes := [1, 5, 0, 0, 0, 1, 0, 0, 0, 0]

/-- The hash of the recovery without changes; nothing else is hashed below. -/
def recoveryHash : Bytes → StateRoot := fun bytes =>
  if bytes = emptyRecovery then unchangedCommitment else List.Vector.replicate 32 0

/-- A batch without actions that relies on the empty state of service 7. -/
def idleOutput : RuntimeRefineOutputV1 :=
  ⟨1, emptyStateRootV1, emptyStateRootV1, [⟨7, emptyStateRootV1⟩], none, [],
    recoveryHash emptyRecovery, emptyRecovery⟩

/-- Its encoding with the dependency written twice. -/
def idleBytesTwice : Bytes :=
  surround (idleOutput.header idleOutput.externalDependencies) [] emptyRecovery
    (u32ToLe 2 ++ (writeDependency ⟨7, emptyStateRootV1⟩ ++ writeDependency ⟨7, emptyStateRootV1⟩))

theorem output_canonical_idle :
    ∃ bytes, idleOutput.encode = .ok bytes ∧ decode recoveryHash bytes = .ok idleOutput ∧
      Unrepeated bytes := by
  obtain ⟨bytes, hencode, hdecode⟩ : ∃ bytes, idleOutput.encode = .ok bytes ∧
      decode recoveryHash bytes = .ok idleOutput := ⟨_, rfl, by decide +kernel⟩
  exact ⟨bytes, hencode, hdecode, ((output_canonical_iff recoveryHash).2 bytes idleOutput
    hdecode).mp hencode⟩

/-- The repetition is accepted, and the decoded output has another, shorter encoding. -/
theorem repeated_dependency_accepted :
    decode recoveryHash idleBytesTwice = .ok idleOutput ∧ idleOutput.encode ≠ .ok idleBytesTwice ∧
      ¬ Unrepeated idleBytesTwice := by
  decide +kernel

end RuntimeRefineOutputV1

end JamScript
