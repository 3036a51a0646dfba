import JamScript.Core.Context

/-!
# What the backend and the guest exchange

A guest is invoked with an encoded `RuntimeRefineInputV1`: the witness of the service's own state,
the witnesses of the other services it reads, and the actions. A planning call answers with one byte
when nothing is missing, and otherwise with an envelope that names the first missing key.

For each format `decode_iff` says that the decoder accepts the encodings of values in normal form,
and nothing else. `decode_encode` says that the guest decodes what the backend encodes, with the
external witnesses in order of service id, and `length_actions_of_decode` that it never sees more
actions than a batch may have.

The limits are checked at different places. An encoder adds up what it has written, a decoder
subtracts from what may still come, and the limit on all external witnesses is a limit on the
section that holds them. The loops are therefore compared with their running totals.
-/

namespace JamScript

open Codec

def maxWitnessNodes : ℕ := 4096
def maxWitnessNodeBytes : ℕ := 64 * 1024
def maxWitnessBytes : ℕ := 1024 * 1024
def maxExternalWitnessTotalBytes : ℕ := 2 * 1024 * 1024
def maxRuntimeActionBytes : ℕ := maxRecoveryBytes
def maxRuntimeActionTotalBytes : ℕ := 4 * 1024 * 1024
def maxPlannerOutputBytes : ℕ := 4 + 1 + 4 + maxStateKeyBytes
def maxAccessPlanEncodedBytes : ℕ := maxStateViewBytes
def maxWitnessV1EncodedBytes : ℕ :=
  1 + 32 + 4 + maxAccessPlanEncodedBytes + 4 + maxWitnessNodes * 4 + maxWitnessBytes

/-- The bytes of a list of byte strings, each bounded and bounded in total; `total` counts what is
written already. -/
def writeBounded (itemMax totalMax : ℕ) : ℕ → List Bytes → Except WireError Bytes
  | _, [] => pure []
  | total, item :: items => do
    ensure (item.length ≤ itemMax) WireError.tooManyItems
    ensure (total + item.length ≤ totalMax) WireError.tooManyItems
    let written ← Writer.bytesU32 item
    let rest ← writeBounded itemMax totalMax (total + item.length) items
    pure (written ++ rest)

theorem writeBounded_cons_eq_ok {itemMax totalMax total : ℕ} {item : Bytes} {items : List Bytes}
    {written : Bytes} : writeBounded itemMax totalMax total (item :: items) = .ok written ↔
      item.length ≤ itemMax ∧ total + item.length ≤ totalMax ∧
      ∃ head, Writer.bytesU32 item = .ok head ∧
        ∃ rest, writeBounded itemMax totalMax (total + item.length) items = .ok rest ∧
          head ++ rest = written := by
  simp only [writeBounded, bind_eq_ok, ensure_eq_ok, exists_const, pure_eq_ok]

/-- A bounded list takes at most its total limit and four bytes per item. -/
theorem length_writeBounded {itemMax totalMax total : ℕ} {items : List Bytes} {written : Bytes}
    (h : writeBounded itemMax totalMax total items = .ok written) (htotal : total ≤ totalMax) :
    total + written.length ≤ 4 * items.length + totalMax := by
  induction items generalizing total written with
  | nil =>
    cases h
    exact htotal.trans (Nat.le_add_left _ _)
  | cons item items ih =>
    obtain ⟨-, hsum, head, hhead, rest, hrest, rfl⟩ := writeBounded_cons_eq_ok.mp h
    have hlength := ih hrest hsum
    rw [List.length_append, Writer.length_bytesU32 hhead, List.length_cons]
    omega

/-- A loop that reads byte strings one by one, each bounded and bounded in total, reads what
`writeBounded` writes from the same total on, and nothing else. -/
theorem boundedLoop_eq_ok {ε : Type} {itemMax totalMax : ℕ} {read : ℕ → ℕ → Parser ε (List Bytes)}
    (hzero : ∀ total, read 0 total = pure [])
    (hsucc : ∀ {count total bytes rest items}, total ≤ totalMax →
      (read (count + 1) total bytes = .ok (items, rest) ↔ ∃ item others head mid, items =
        item :: others ∧
        item.length ≤ itemMax ∧ total + item.length ≤ totalMax ∧ Writer.bytesU32 item = .ok head ∧
        bytes = head ++ mid ∧ read count (total + item.length) mid = .ok (others, rest)))
    {count total : ℕ} {bytes rest : Bytes} {items : List Bytes} (htotal : total ≤ totalMax) :
    read count total bytes = .ok (items, rest) ↔ items.length = count ∧
      ∃ written, writeBounded itemMax totalMax total items = .ok written ∧
        bytes = written ++ rest := by
  induction count generalizing total bytes items with
  | zero =>
    rw [hzero, Parser.pure_eq_ok]
    constructor
    · rintro ⟨rfl, rfl⟩
      exact ⟨rfl, [], rfl, rfl⟩
    · rintro ⟨hlength, written, hwritten, rfl⟩
      obtain rfl := List.length_eq_zero_iff.mp hlength
      cases hwritten
      exact ⟨rfl, rfl⟩
  | succ count ih =>
    rw [hsucc htotal]
    constructor
    · rintro ⟨item, others, head, _, rfl, hitem, hsum, hhead, rfl, hrest⟩
      obtain ⟨hlength, written, hwritten, rfl⟩ := (ih hsum).mp hrest
      exact ⟨congrArg (· + 1) hlength, _, writeBounded_cons_eq_ok.mpr
        ⟨hitem, hsum, head, hhead, written, hwritten, rfl⟩, (List.append_assoc _ _ _).symm⟩
    · rintro ⟨hlength, written, hwritten, rfl⟩
      obtain ⟨item, others, rfl⟩ := List.exists_cons_of_length_eq_add_one hlength
      obtain ⟨hitem, hsum, head, hhead, tail, htail, rfl⟩ := writeBounded_cons_eq_ok.mp hwritten
      exact ⟨item, others, head, _, rfl, hitem, hsum, hhead, List.append_assoc _ _ _,
        (ih hsum).mpr ⟨Nat.succ.inj hlength, tail, htail, rfl⟩⟩

/-! ## Access plans -/

namespace StateAccessPlanV1

/-- Sort the keys, drop repeated ones and check the limits. -/
def fromKeys (keys : List Bytes) : Except WireError StateAccessPlanV1 := do
  let keys := (keys.insertionSort fun left right => (compare left right).isLE).destutter (· ≠ ·)
  ensure (keys.length ≤ maxRecoveryChanges ∧ ∀ key ∈ keys, key.length ≤ maxStateKeyBytes)
    WireError.tooManyItems
  pure ⟨managedStateProtocolVersion, keys⟩

def encode (plan : StateAccessPlanV1) : Except WireError Bytes := do
  ensure (plan.version = managedStateProtocolVersion ∧ plan.keys.length ≤ maxRecoveryChanges)
    WireError.tooManyItems
  let keys ← plan.keys.mapM fun key => do
    ensure (key.length ≤ maxStateKeyBytes) WireError.tooManyItems
    Writer.bytesU32 key
  pure (plan.version :: u32ToLe (UInt32.ofNat plan.keys.length) ++ keys.flatten)

def decode (bytes : Bytes) : Except WireError StateAccessPlanV1 := do
  let plan ← Parser.whole .invalidEncoding (do
    let version ← Reader.u8
    Parser.check (version = managedStateProtocolVersion) .unsupportedVersion
    let count ← Reader.u32
    Parser.check (count.toNat ≤ maxRecoveryChanges) .tooManyItems
    let keys ← Parser.many (Reader.bytesLimited maxStateKeyBytes) count.toNat
    pure (⟨version, keys⟩ : StateAccessPlanV1)) bytes
  let canonical ← fromKeys plan.keys
  ensure (canonical.keys = plan.keys) WireError.unsortedKeys
  pure plan

/-- Keys that are in order and within the limits make a plan as they are. -/
theorem fromKeys_of_ordered {keys : List Bytes}
    (hordered : keys.Pairwise fun left right => compare left right = .lt)
    (hcount : keys.length ≤ maxRecoveryChanges)
    (hlength : ∀ key ∈ keys, key.length ≤ maxStateKeyBytes) :
    fromKeys keys = .ok ⟨managedStateProtocolVersion, keys⟩ := by
  have hsorted : keys.insertionSort (fun left right => (compare left right).isLE) = keys :=
    insertionSort_of_ordered id (by rwa [List.map_id])
  have hdistinct : keys.destutter (· ≠ ·) = keys := by
    refine List.destutter_of_isChain _ _ ((hordered.imp fun {left right} hlt => ?_).isChain)
    rintro rfl
    have hself : compare left left = .eq := Std.ReflCmp.compare_self
    rw [hlt] at hself
    cases hself
  unfold fromKeys
  rw [hsorted, hdistinct]
  exact bind_eq_ok.mpr ⟨(), ensure_eq_ok.mpr ⟨hcount, hlength⟩, rfl⟩

/-- The plan lists its keys as `from_keys` does. -/
def Canonical (plan : StateAccessPlanV1) : Prop := fromKeys plan.keys = .ok plan

/-- A plan within the limits has an encoding, of four bytes and the key for each key. -/
theorem encode_ok {plan : StateAccessPlanV1} {bound : ℕ}
    (hversion : plan.version = managedStateProtocolVersion)
    (hcount : plan.keys.length ≤ maxRecoveryChanges) (hbound : bound ≤ maxStateKeyBytes)
    (hlength : ∀ key ∈ plan.keys, key.length ≤ bound) :
    ∃ bytes, plan.encode = .ok bytes ∧ bytes.length ≤ 5 + (4 + bound) * plan.keys.length := by
  have hwritten : ∀ keys : List Bytes, (∀ key ∈ keys, key.length ≤ bound) →
      ∃ written, (keys.mapM fun key => (do
          ensure (key.length ≤ maxStateKeyBytes) WireError.tooManyItems
          Writer.bytesU32 key : Except WireError Bytes)) = .ok written ∧
        written.flatten.length ≤ (4 + bound) * keys.length := by
    intro keys hkeys
    induction keys with
    | nil => exact ⟨[], rfl, Nat.zero_le _⟩
    | cons key keys ih =>
      obtain ⟨hkey, hkeys⟩ := List.forall_mem_cons.mp hkeys
      obtain ⟨written, hwritten, hlength⟩ := ih hkeys
      obtain ⟨head, hhead⟩ : ∃ head, Writer.bytesU32 key = .ok head :=
        ⟨_, if_pos (lt_of_le_of_lt (hkey.trans hbound) (by decide))⟩
      refine ⟨head :: written, ?_, ?_⟩
      · rw [List.mapM_cons]
        refine bind_eq_ok.mpr ⟨head, ?_, bind_eq_ok.mpr ⟨written, hwritten, rfl⟩⟩
        exact bind_eq_ok.mpr ⟨(), ensure_eq_ok.mpr (hkey.trans hbound), hhead⟩
      · rw [List.flatten_cons, List.length_append, Writer.length_bytesU32 hhead, List.length_cons,
          Nat.mul_succ]
        omega
  obtain ⟨written, hwritten, hwrittenLength⟩ := hwritten plan.keys hlength
  refine ⟨_, bind_eq_ok.mpr ⟨(), ensure_eq_ok.mpr ⟨hversion, hcount⟩,
    bind_eq_ok.mpr ⟨written, hwritten, rfl⟩⟩, ?_⟩
  rw [List.length_append, List.length_cons, length_u32ToLe]
  omega

/-- The decoder accepts the encodings of plans that list their keys as `from_keys` does, and nothing
else. -/
theorem decode_iff {bytes : Bytes} {plan : StateAccessPlanV1} :
    decode bytes = .ok plan ↔ plan.Canonical ∧ plan.encode = .ok bytes := by
  simp only [decode, encode, bind_eq_ok, ensure_eq_ok, exists_const, pure_eq_ok, Parser.whole_eq_ok,
    Parser.bind_eq_ok, Parser.check_eq_ok, Parser.pure_eq_ok, Reader.u8_eq_ok, Reader.u32_iff,
    (Reader.inverts_bytesLimited maxStateKeyBytes WireError.tooManyItems).many_eq_ok]
  constructor
  · rintro ⟨_, ⟨_, _, rfl, _, ⟨rfl, rfl⟩, count, _, rfl, _, ⟨hcount, rfl⟩, keys, _,
      ⟨hlength, written, hwritten, rfl⟩, rfl, rfl⟩, canonical, hcanonical, hkeys, rfl⟩
    have hversion : canonical.version = managedStateProtocolVersion := by
      obtain ⟨_, -, h⟩ := bind_eq_ok.mp hcanonical
      cases h
      rfl
    rw [List.append_nil, ← UInt32.ofNat_toNat (x := count), ← hlength]
    refine ⟨hcanonical.trans (congrArg Except.ok ?_), ⟨rfl, hlength.trans_le hcount⟩, written,
      hwritten, rfl⟩
    rw [← hversion]
    exact congrArg (StateAccessPlanV1.mk canonical.version) hkeys
  · rintro ⟨hcanonical, ⟨hversion, hcount⟩, written, hwritten, rfl⟩
    have hnat := toNat_count hcount (by decide)
    exact ⟨plan, ⟨_, _, rfl, _, ⟨hversion, rfl⟩, _, _, rfl, _, ⟨hnat.trans_le hcount, rfl⟩, _, _,
      ⟨hnat.symm, written, hwritten, (List.append_nil _).symm⟩, rfl, rfl⟩, plan,
      hcanonical, rfl, rfl⟩

end StateAccessPlanV1

/-! ## Witnesses -/

namespace ManagedStateWitnessV1

def encode (witness : ManagedStateWitnessV1) : Except WireError Bytes := do
  ensure (witness.version = managedStateWitnessVersion ∧
    witness.storageProof.length ≤ maxWitnessNodes) WireError.unsupportedVersion
  let plan ← witness.accessPlan.encode
  ensure (plan.length ≤ maxAccessPlanEncodedBytes) WireError.tooManyItems
  let written ← Writer.bytesU32 plan
  let nodes ← writeBounded maxWitnessNodeBytes maxWitnessBytes 0 witness.storageProof
  pure ([witness.version] ++ witness.parentRoot.toList ++ written ++
    u32ToLe (UInt32.ofNat witness.storageProof.length) ++ nodes)

/-- The node loop of `decode`: a node may take what the earlier ones have left. -/
def readNodes : ℕ → ℕ → Reader (List Bytes)
  | 0, _ => pure []
  | count + 1, total => do
    Parser.check (total ≤ maxWitnessBytes) .tooManyItems
    let node ← Reader.bytesLimited (min (maxWitnessBytes - total) maxWitnessNodeBytes)
    let nodes ← readNodes count (total + node.length)
    pure (node :: nodes)

def decode (bytes : Bytes) : Except WireError ManagedStateWitnessV1 := do
  ensure (bytes.length ≤ maxWitnessV1EncodedBytes) WireError.tooManyItems
  Parser.whole .invalidEncoding (do
    let version ← Reader.u8
    Parser.check (version = managedStateWitnessVersion) .unsupportedVersion
    let parentRoot ← Reader.array 32
    let planBytes ← Reader.bytesLimited maxAccessPlanEncodedBytes
    let accessPlan ← (StateAccessPlanV1.decode planBytes : Except WireError StateAccessPlanV1)
    let count ← Reader.u32
    Parser.check (count.toNat ≤ maxWitnessNodes) .tooManyItems
    let storageProof ← readNodes count.toNat 0
    pure { version, parentRoot, accessPlan, storageProof }) bytes

theorem readNodes_eq_ok {count : ℕ} {bytes rest : Bytes} {nodes : List Bytes} :
    readNodes count 0 bytes = .ok (nodes, rest) ↔ nodes.length = count ∧ ∃ written,
      writeBounded maxWitnessNodeBytes maxWitnessBytes 0 nodes = .ok written ∧
      bytes = written ++ rest := by
  refine boundedLoop_eq_ok (fun _ => rfl) (fun {count total bytes rest nodes} htotal => ?_)
    (Nat.zero_le _)
  simp only [readNodes, Parser.bind_eq_ok, Parser.check_eq_ok, Parser.pure_eq_ok,
    Reader.bytesLimited_iff, le_min_iff, exists_const]
  constructor
  · rintro ⟨_, ⟨-, rfl⟩, node, mid, ⟨⟨hleft, hmax⟩, head, hhead, rfl⟩, others, _, hothers, rfl, rfl⟩
    exact ⟨node, others, head, mid, rfl, hmax, by omega, hhead, rfl, hothers⟩
  · rintro ⟨node, others, head, mid, rfl, hmax, hsum, hhead, rfl, hothers⟩
    exact ⟨_, ⟨htotal, rfl⟩, node, mid, ⟨⟨by omega, hmax⟩, head, hhead, rfl⟩, others, rest,
      hothers, rfl, rfl⟩

theorem encode_eq_ok {witness : ManagedStateWitnessV1} {bytes : Bytes} :
    witness.encode = .ok bytes ↔ (witness.version = managedStateWitnessVersion ∧
      witness.storageProof.length ≤ maxWitnessNodes) ∧
      ∃ plan, witness.accessPlan.encode = .ok plan ∧
      plan.length ≤ maxAccessPlanEncodedBytes ∧ ∃ written, Writer.bytesU32 plan = .ok written ∧
      ∃ nodes,
      writeBounded maxWitnessNodeBytes maxWitnessBytes 0 witness.storageProof = .ok nodes ∧
      [witness.version] ++ witness.parentRoot.toList ++ written ++
        u32ToLe (UInt32.ofNat witness.storageProof.length) ++ nodes = bytes := by
  simp only [encode, bind_eq_ok, ensure_eq_ok, exists_const, pure_eq_ok]

theorem length_encode_le {witness : ManagedStateWitnessV1} {bytes : Bytes}
    (h : witness.encode = .ok bytes) :
    bytes.length ≤ maxWitnessV1EncodedBytes := by
  obtain ⟨⟨-, hcount⟩, plan, -, hbound, written, hwritten, nodes, hnodes, rfl⟩ := encode_eq_ok.mp h
  have hlength := length_writeBounded hnodes (Nat.zero_le _)
  have hplanLength := Writer.length_bytesU32 hwritten
  simp only [List.length_append, List.length_singleton, List.Vector.toList_length, length_u32ToLe]
  unfold maxWitnessV1EncodedBytes
  omega

/-- The decoder accepts the encodings of witnesses with a canonical plan, and nothing else. -/
theorem decode_iff {bytes : Bytes} {witness : ManagedStateWitnessV1} :
    decode bytes = .ok witness ↔ witness.accessPlan.Canonical ∧ witness.encode = .ok bytes := by
  simp only [decode, bind_eq_ok, ensure_eq_ok, exists_const, Parser.whole_eq_ok, Parser.bind_eq_ok,
    Parser.check_eq_ok, Parser.lift_eq_ok, Parser.pure_eq_ok, Reader.u8_eq_ok, Reader.u32_iff,
    Reader.array_eq_ok, Reader.bytesLimited_iff, StateAccessPlanV1.decode_iff, readNodes_eq_ok]
  constructor
  · rintro ⟨-, version, _, rfl, _, ⟨hversion, rfl⟩, parentRoot, _, rfl, plan, _,
      ⟨hbound, written, hwritten, rfl⟩, accessPlan, _, ⟨⟨hplan, hencoded⟩, rfl⟩, count, _, rfl, _,
      ⟨hcount, rfl⟩, storageProof, _, ⟨hlength, nodes, hnodes, rfl⟩, rfl, rfl⟩
    refine ⟨hplan, encode_eq_ok.mpr ⟨⟨hversion, hlength.trans_le hcount⟩, plan, hencoded,
      hbound, written, hwritten, nodes, hnodes, ?_⟩⟩
    rw [hlength, UInt32.ofNat_toNat]
    simp only [List.append_assoc, List.append_nil, List.cons_append, List.nil_append]
  · rintro ⟨hplan, h⟩
    have hfits := length_encode_le h
    obtain ⟨⟨hversion, hcount⟩, plan, hencoded, hbound, written, hwritten, nodes, hnodes, rfl⟩ :=
      encode_eq_ok.mp h
    have hnat := toNat_count hcount (by decide)
    simp only [List.append_assoc] at hfits ⊢
    exact ⟨hfits, _, _, rfl, _, ⟨hversion, rfl⟩, _, _, rfl, plan, _,
      ⟨hbound, written, hwritten, rfl⟩, _, _,
      ⟨⟨hplan, hencoded⟩, rfl⟩, _, _, rfl, _, ⟨hnat.trans_le hcount, rfl⟩, _, _,
      ⟨hnat.symm, nodes, hnodes, (List.append_nil _).symm⟩, rfl, rfl⟩

end ManagedStateWitnessV1

/-- The loop of `encode_external_witnesses`, over witnesses in order of service id. -/
def writeExternalWitnesses : Option UInt32 → ℕ → List ExternalStateWitnessV1 →
    Except WireError Bytes
  | _, _, [] => pure []
  | previous, total, witness :: witnesses => do
    ensure (previous ≠ some witness.serviceId) WireError.duplicateServiceId
    let encoded ← witness.managedState.encode
    ensure (total + encoded.length ≤ maxExternalWitnessTotalBytes) WireError.tooManyItems
    let written ← Writer.bytesU32 encoded
    let rest ← writeExternalWitnesses (some witness.serviceId) (total + encoded.length) witnesses
    pure (u32ToLe witness.serviceId ++ written ++ rest)

/-- The witnesses in the order in which they are encoded. -/
def orderedWitnesses (witnesses : List ExternalStateWitnessV1) : List ExternalStateWitnessV1 :=
  witnesses.insertionSort fun left right => left.serviceId ≤ right.serviceId

def encodeExternalWitnesses (witnesses : List ExternalStateWitnessV1) : Except WireError Bytes := do
  ensure (witnesses.length ≤ maxExternalStateWitnesses) WireError.tooManyItems
  let written ← writeExternalWitnesses none 0 (orderedWitnesses witnesses)
  let encoded := u32ToLe (UInt32.ofNat (orderedWitnesses witnesses).length) ++ written
  ensure (encoded.length ≤ maxExternalWitnessTotalBytes) WireError.tooManyItems
  pure encoded

/-- The loop of `decode_external_witnesses`: service ids increase strictly. -/
def readExternalWitnesses : ℕ → Option UInt32 → Reader (List ExternalStateWitnessV1)
  | 0, _ => pure []
  | count + 1, previous => do
    let serviceId ← Reader.u32
    Parser.check (previous ≠ some serviceId) .duplicateServiceId
    Parser.check (¬ previous.any fun last => serviceId < last) .unsortedDependencies
    let bytes ← Reader.bytesLimited maxWitnessV1EncodedBytes
    let managedState ← (ManagedStateWitnessV1.decode bytes : Except WireError ManagedStateWitnessV1)
    let witnesses ← readExternalWitnesses count (some serviceId)
    pure (⟨serviceId, managedState⟩ :: witnesses)

def decodeExternalWitnesses (bytes : Bytes) : Except WireError (List ExternalStateWitnessV1) :=
  Parser.whole .invalidEncoding (do
    let count ← Reader.u32
    Parser.check (count.toNat ≤ maxExternalStateWitnesses) .tooManyItems
    readExternalWitnesses count.toNat none) bytes

/-- Service ids do not decrease, from `previous` on. -/
def SortedFrom (previous : Option UInt32) (witnesses : List ExternalStateWitnessV1) : Prop :=
  (∀ last ∈ previous, ∀ witness ∈ witnesses, last ≤ witness.serviceId) ∧
    witnesses.Pairwise fun left right => left.serviceId ≤ right.serviceId

/-- The reader accepts the witnesses that the writer writes in order of service id. That their
encodings fit into the limit in total is known from the section they are read from, of which `total`
bytes have been used before. -/
theorem readExternalWitnesses_eq_ok {count total : ℕ} {previous : Option UInt32}
    {bytes rest : Bytes} {witnesses : List ExternalStateWitnessV1}
    (htotal : total + bytes.length ≤ maxExternalWitnessTotalBytes) :
    readExternalWitnesses count previous bytes = .ok (witnesses, rest) ↔ witnesses.length = count ∧
      SortedFrom previous witnesses ∧
      (∀ witness ∈ witnesses, witness.managedState.accessPlan.Canonical) ∧
      ∃ written, writeExternalWitnesses previous total witnesses =
        .ok written ∧ bytes = written ++ rest := by
  induction count generalizing total previous bytes witnesses with
  | zero =>
    rw [readExternalWitnesses, Parser.pure_eq_ok]
    constructor
    · rintro ⟨rfl, rfl⟩
      exact ⟨rfl, ⟨fun _ _ => nofun, List.Pairwise.nil⟩, nofun, [], rfl, rfl⟩
    · rintro ⟨hlength, -, -, written, hwritten, rfl⟩
      obtain rfl := List.length_eq_zero_iff.mp hlength
      cases hwritten
      exact ⟨rfl, rfl⟩
  | succ count ih =>
    simp only [readExternalWitnesses, Parser.bind_eq_ok, Parser.check_eq_ok, Parser.lift_eq_ok,
      Parser.pure_eq_ok, Reader.u32_iff, Reader.bytesLimited_iff, ManagedStateWitnessV1.decode_iff,
      exists_const]
    have hlast : ∀ serviceId, (¬ previous.any fun last => serviceId < last) ↔
        ∀ last ∈ previous, last ≤ serviceId := by
      intro serviceId
      cases previous <;> simp
    constructor
    · rintro ⟨serviceId, _, rfl, _, ⟨hnew, rfl⟩, _, ⟨hordered, rfl⟩,
        encoded, _, ⟨-, head, hhead, rfl⟩,
        managedState, _, ⟨⟨hplan, hencoded⟩, rfl⟩, others, _, hothers, rfl, rfl⟩
      have hsize := Writer.length_bytesU32 hhead
      simp only [List.length_append, length_u32ToLe] at htotal
      obtain ⟨hlength, hsorted, hplans, written, hwritten, rfl⟩ :=
        (@ih (total + encoded.length) _ _ _ (by omega)).mp hothers
      have hle := (hlast serviceId).mp hordered
      refine ⟨congrArg (· + 1) hlength,
        ⟨fun last hmem => List.forall_mem_cons.mpr ⟨hle last hmem, ?_⟩,
        List.pairwise_cons.mpr ⟨hsorted.1 serviceId rfl, hsorted.2⟩⟩,
        List.forall_mem_cons.mpr ⟨hplan, hplans⟩, u32ToLe serviceId ++ head ++ written, ?_, ?_⟩
      · exact fun other hother => UInt32.le_trans (hle last hmem) (hsorted.1 serviceId
          rfl other hother)
      · simp only [writeExternalWitnesses, bind_eq_ok, ensure_eq_ok, exists_const, pure_eq_ok]
        exact ⟨hnew, encoded, hencoded, by omega, head, hhead, written, hwritten, rfl⟩
      · simp only [List.append_assoc]
    · rintro ⟨hlength, hsorted, hplans, written, hwritten, rfl⟩
      obtain ⟨witness, others, rfl⟩ := List.exists_cons_of_length_eq_add_one hlength
      simp only [writeExternalWitnesses, bind_eq_ok, ensure_eq_ok, exists_const,
        pure_eq_ok] at hwritten
      obtain ⟨hnew, encoded, hencoded, -, head, hhead, tail, htail, rfl⟩ := hwritten
      obtain ⟨hplan, hplans⟩ := List.forall_mem_cons.mp hplans
      obtain ⟨hbelow, hpairwise⟩ := List.pairwise_cons.mp hsorted.2
      have hsize := Writer.length_bytesU32 hhead
      simp only [List.append_assoc, List.length_append, length_u32ToLe] at htotal ⊢
      refine ⟨_, _, rfl, _, ⟨hnew, rfl⟩, _, ⟨(hlast _).mpr fun last hmem => ?_, rfl⟩, encoded, _,
        ⟨ManagedStateWitnessV1.length_encode_le hencoded, head, hhead, rfl⟩, _, _,
        ⟨⟨hplan, hencoded⟩, rfl⟩,
        others, _, (@ih (total + encoded.length) _ _ _ ?_).mpr ⟨Nat.succ.inj hlength,
          ⟨fun _ hmem => Option.some.inj hmem ▸ hbelow, hpairwise⟩, hplans, tail, htail, rfl⟩, rfl,
          rfl⟩
      · exact hsorted.1 last hmem witness List.mem_cons_self
      · rw [List.length_append]
        omega

theorem encodeExternalWitnesses_eq_ok {witnesses : List ExternalStateWitnessV1} {bytes : Bytes} :
    encodeExternalWitnesses witnesses = .ok bytes ↔ witnesses.length ≤ maxExternalStateWitnesses ∧
      ∃ written, writeExternalWitnesses none 0 (orderedWitnesses witnesses) = .ok written ∧
        bytes.length ≤ maxExternalWitnessTotalBytes ∧
        u32ToLe (UInt32.ofNat witnesses.length) ++ written = bytes := by
  have hlength : (orderedWitnesses witnesses).length = witnesses.length :=
    List.length_insertionSort _ _
  simp only [encodeExternalWitnesses, bind_eq_ok, ensure_eq_ok, exists_const, pure_eq_ok, hlength]
  constructor
  · rintro ⟨hcount, written, hwritten, hsize, rfl⟩
    exact ⟨hcount, written, hwritten, hsize, rfl⟩
  · rintro ⟨hcount, written, hwritten, hsize, rfl⟩
    exact ⟨hcount, written, hwritten, hsize, rfl⟩

theorem sorted_orderedWitnesses (witnesses : List ExternalStateWitnessV1) :
    (orderedWitnesses witnesses).Pairwise fun left right => left.serviceId ≤ right.serviceId := by
  have htotal : Std.Total fun left right : ExternalStateWitnessV1 => left.serviceId ≤
    right.serviceId :=
    ⟨fun left right => UInt32.le_total left.serviceId right.serviceId⟩
  have htrans : IsTrans ExternalStateWitnessV1 fun left right => left.serviceId ≤ right.serviceId :=
    ⟨fun _ _ _ => UInt32.le_trans⟩
  exact List.pairwise_insertionSort _ _

theorem orderedWitnesses_ordered (witnesses : List ExternalStateWitnessV1) :
    orderedWitnesses (orderedWitnesses witnesses) = orderedWitnesses witnesses :=
  List.Pairwise.insertionSort_eq (sorted_orderedWitnesses witnesses)

theorem encodeExternalWitnesses_ordered (witnesses : List ExternalStateWitnessV1) :
    encodeExternalWitnesses (orderedWitnesses witnesses) = encodeExternalWitnesses witnesses := by
  have hlength : (orderedWitnesses witnesses).length = witnesses.length :=
    List.length_insertionSort _ _
  rw [encodeExternalWitnesses, encodeExternalWitnesses, orderedWitnesses_ordered, hlength]

/-- A section within its limit is accepted when it is the encoding of witnesses in order of service
id. -/
theorem decodeExternalWitnesses_iff {bytes : Bytes} {witnesses : List ExternalStateWitnessV1}
    (hsize : bytes.length ≤ maxExternalWitnessTotalBytes) :
    decodeExternalWitnesses bytes = .ok witnesses ↔ orderedWitnesses witnesses = witnesses ∧
      (∀ witness ∈ witnesses, witness.managedState.accessPlan.Canonical) ∧
      encodeExternalWitnesses witnesses = .ok bytes := by
  simp only [decodeExternalWitnesses, Parser.whole_eq_ok, Parser.bind_eq_ok, Parser.check_eq_ok,
    Reader.u32_iff, exists_const]
  constructor
  · rintro ⟨count, mid, rfl, _, ⟨hcount, rfl⟩, hread⟩
    have hmid : 0 + mid.length ≤ maxExternalWitnessTotalBytes := by
      rw [List.length_append] at hsize
      omega
    obtain ⟨hlength, hsorted, hplans, written, hwritten, rfl⟩ :=
    (readExternalWitnesses_eq_ok hmid).mp hread
    have hordered : orderedWitnesses witnesses = witnesses :=
    List.Pairwise.insertionSort_eq hsorted.2
    refine ⟨hordered, hplans, encodeExternalWitnesses_eq_ok.mpr
      ⟨hlength.trans_le hcount, written, ?_, hsize, ?_⟩⟩
    · rw [hordered, hwritten]
    · rw [hlength, UInt32.ofNat_toNat, List.append_nil]
  · rintro ⟨hordered, hplans, hencode⟩
    obtain ⟨hcount, written, hwritten, -, rfl⟩ := encodeExternalWitnesses_eq_ok.mp hencode
    have hnat := toNat_count hcount (by decide)
    rw [hordered] at hwritten
    refine ⟨_, _, rfl, _, ⟨hnat.trans_le hcount, rfl⟩,
      (@readExternalWitnesses_eq_ok _ 0 _ _ _ _ ?_).mpr
      ⟨hnat.symm, ⟨fun _ h => absurd h (Option.not_mem_none _), hordered ▸ sorted_orderedWitnesses
        witnesses⟩, hplans, written, hwritten, (List.append_nil _).symm⟩⟩
    rw [List.length_append] at hsize
    omega

/-! ## Inputs -/

namespace RuntimeRefineInputV1

def encode (input : RuntimeRefineInputV1) : Except WireError Bytes := do
  ensure (input.version = runtimeRefineInputVersion ∧ input.actions.length ≤ maxRuntimeActions)
    WireError.unsupportedVersion
  let witness ← input.managedState.encode
  let externalState ← encodeExternalWitnesses input.externalState
  let witness ← Writer.bytesU32 witness
  let externalState ← Writer.bytesU32 externalState
  let actions ← writeBounded maxRuntimeActionBytes maxRuntimeActionTotalBytes 0 input.actions
  pure ([input.version] ++ witness ++ externalState ++
    u32ToLe (UInt32.ofNat input.actions.length) ++ actions)

/-- The action loop of `decode`. -/
def readActions : ℕ → ℕ → Reader (List Bytes)
  | 0, _ => pure []
  | count + 1, total => do
    let action ← Reader.bytesLimited maxRuntimeActionBytes
    Parser.check (total + action.length ≤ maxRuntimeActionTotalBytes) .tooManyItems
    let actions ← readActions count (total + action.length)
    pure (action :: actions)

def decode (bytes : Bytes) : Except WireError RuntimeRefineInputV1 :=
  Parser.whole .invalidEncoding (do
    let version ← Reader.u8
    Parser.check (version = runtimeRefineInputVersion) .unsupportedVersion
    let witness ← Reader.bytesLimited maxWitnessV1EncodedBytes
    let managedState ← (ManagedStateWitnessV1.decode witness :
      Except WireError ManagedStateWitnessV1)
    let external ← Reader.bytesLimited maxExternalWitnessTotalBytes
    let externalState ← (decodeExternalWitnesses external :
      Except WireError (List ExternalStateWitnessV1))
    let count ← Reader.u32
    Parser.check (count.toNat ≤ maxRuntimeActions) .tooManyItems
    let actions ← readActions count.toNat 0
    pure { version, managedState, externalState, actions }) bytes

theorem readActions_eq_ok {count : ℕ} {bytes rest : Bytes} {actions : List Bytes} :
    readActions count 0 bytes = .ok (actions, rest) ↔ actions.length = count ∧ ∃ written,
      writeBounded maxRuntimeActionBytes maxRuntimeActionTotalBytes 0 actions = .ok written ∧
        bytes = written ++ rest := by
  refine boundedLoop_eq_ok (fun _ => rfl) (fun {count total bytes rest actions} _ => ?_)
    (Nat.zero_le _)
  simp only [readActions, Parser.bind_eq_ok, Parser.check_eq_ok, Parser.pure_eq_ok,
    Reader.bytesLimited_iff, exists_const]
  constructor
  · rintro ⟨action, mid, ⟨hmax, head, hhead, rfl⟩, _, ⟨hsum, rfl⟩, others, _, hothers, rfl, rfl⟩
    exact ⟨action, others, head, mid, rfl, hmax, hsum, hhead, rfl, hothers⟩
  · rintro ⟨action, others, head, mid, rfl, hmax, hsum, hhead, rfl, hothers⟩
    exact ⟨action, mid, ⟨hmax, head, hhead, rfl⟩, _, ⟨hsum, rfl⟩, others, rest, hothers, rfl, rfl⟩

/-- The access plans of an input list their keys as `from_keys` does. -/
def Canonical (input : RuntimeRefineInputV1) : Prop :=
  input.managedState.accessPlan.Canonical ∧
    ∀ witness ∈ input.externalState, witness.managedState.accessPlan.Canonical

/-- The input as it arrives, with the external witnesses in order of service id. -/
def ordered (input : RuntimeRefineInputV1) : RuntimeRefineInputV1 :=
  { input with externalState := orderedWitnesses input.externalState }

/-- The decoder accepts the encodings of inputs with canonical plans and the witnesses in order, and
nothing else. -/
theorem decode_iff {bytes : Bytes} {input : RuntimeRefineInputV1} :
    decode bytes = .ok input ↔ input.ordered = input ∧ input.Canonical ∧
    input.encode = .ok bytes := by
  have hordered : input.ordered = input ↔ orderedWitnesses input.externalState =
    input.externalState :=
    ⟨congrArg externalState, fun h => by rw [ordered, h]⟩
  simp only [decode, encode, Canonical, hordered, bind_eq_ok, ensure_eq_ok,
    exists_const, pure_eq_ok,
    Parser.whole_eq_ok, Parser.bind_eq_ok, Parser.check_eq_ok, Parser.lift_eq_ok, Parser.pure_eq_ok,
    Reader.u8_eq_ok, Reader.u32_iff, Reader.bytesLimited_iff, ManagedStateWitnessV1.decode_iff,
    readActions_eq_ok]
  constructor
  · rintro ⟨version, _, rfl, _, ⟨hversion, rfl⟩, witness, _, ⟨-, witnessBytes, hwitnessBytes, rfl⟩,
      managedState, _, ⟨⟨hplan, hwitness⟩, rfl⟩, external, _,
      ⟨hsize, externalBytes, hexternalBytes, rfl⟩,
      externalState, _, ⟨hdecode, rfl⟩, count, _, rfl, _, ⟨hcount, rfl⟩, actions, _,
      ⟨hlength, written, hwritten, rfl⟩, rfl, rfl⟩
    obtain ⟨hordered, hplans, hexternal⟩ := (decodeExternalWitnesses_iff hsize).mp hdecode
    refine ⟨hordered, ⟨hplan, hplans⟩, ⟨hversion, hlength.trans_le hcount⟩, witness,
      hwitness, external,
      hexternal, witnessBytes, hwitnessBytes, externalBytes, hexternalBytes, written, hwritten, ?_⟩
    rw [hlength, UInt32.ofNat_toNat]
    simp only [List.append_assoc, List.append_nil, List.cons_append, List.nil_append]
  · rintro ⟨hordered, ⟨hplan, hplans⟩, ⟨hversion, hcount⟩, witness, hwitness, external, hexternal,
      witnessBytes, hwitnessBytes, externalBytes, hexternalBytes, written, hwritten, rfl⟩
    obtain ⟨-, -, -, hsize, -⟩ := encodeExternalWitnesses_eq_ok.mp hexternal
    have hnat := toNat_count hcount (by decide)
    simp only [List.append_assoc]
    exact ⟨_, _, rfl, _, ⟨hversion, rfl⟩, witness, _,
      ⟨ManagedStateWitnessV1.length_encode_le hwitness,
      witnessBytes, hwitnessBytes, rfl⟩, _, _, ⟨⟨hplan, hwitness⟩, rfl⟩, external, _,
      ⟨hsize, externalBytes, hexternalBytes, rfl⟩, _, _,
      ⟨(decodeExternalWitnesses_iff hsize).mpr ⟨hordered, hplans, hexternal⟩, rfl⟩, _, _, rfl, _,
      ⟨hnat.trans_le hcount, rfl⟩, _, _, ⟨hnat.symm, written, hwritten, (List.append_nil _).symm⟩,
      rfl, rfl⟩

/-- The guest decodes what the backend encodes. -/
theorem decode_encode {input : RuntimeRefineInputV1} {bytes : Bytes} (hinput : input.Canonical)
    (h : input.encode = .ok bytes) : decode bytes = .ok input.ordered := by
  refine decode_iff.mpr ⟨?_, ⟨hinput.1, fun witness hmem => ?_⟩, ?_⟩
  · rw [ordered, ordered, orderedWitnesses_ordered]
  · exact hinput.2 witness ((List.mem_insertionSort _).mp hmem)
  · rw [encode, ordered, encodeExternalWitnesses_ordered]
    exact h

/-- An input that decodes holds no more actions than a batch may. -/
theorem length_actions_of_decode {bytes : Bytes} {input : RuntimeRefineInputV1}
    (h : decode bytes = .ok input) : input.actions.length ≤ maxRuntimeActions := by
  obtain ⟨_, hchecks, -⟩ := bind_eq_ok.mp (decode_iff.mp h).2.2
  exact (ensure_eq_ok.mp hchecks).2

end RuntimeRefineInputV1

/-! ## Answers of a planning call -/

def plannerNeedStateVersion : UInt8 := 1
def plannerNeedStateMagic : Bytes := ascii "JSP1"
def plannerNeedExternalStateMagic : Bytes := ascii "JSE1"

def encodePlannerNeedState (key : Bytes) : Except WireError Bytes := do
  ensure (key.length ≤ maxStateKeyBytes) WireError.tooManyItems
  pure (plannerNeedStateMagic ++ [plannerNeedStateVersion] ++
    u32ToLe (UInt32.ofNat key.length) ++ key)

def decodePlannerNeedState (bytes : Bytes) : Except WireError Bytes := do
  ensure (9 ≤ bytes.length ∧ bytes.length ≤ maxPlannerOutputBytes) WireError.invalidLength
  ensure (bytes.take 4 = plannerNeedStateMagic ∧ bytes[4]? = some plannerNeedStateVersion)
    WireError.invalidEncoding
  let length := (u32OfLe ((bytes.drop 5).take 4)).toNat
  ensure (length ≤ maxStateKeyBytes ∧ bytes.length = 9 + length) WireError.invalidEncoding
  pure (bytes.drop 9)

def encodePlannerNeedExternalState (serviceId : UInt32) (key : Bytes) : Except WireError Bytes := do
  ensure (key.length ≤ maxStateKeyBytes) WireError.tooManyItems
  pure (plannerNeedExternalStateMagic ++ [plannerNeedStateVersion] ++ u32ToLe serviceId ++
    u32ToLe (UInt32.ofNat key.length) ++ key)

def decodePlannerNeedExternalState (bytes : Bytes) : Except WireError (UInt32 × Bytes) := do
  ensure (13 ≤ bytes.length ∧ bytes.length ≤ maxPlannerOutputBytes + 4) WireError.invalidLength
  ensure (bytes.take 4 = plannerNeedExternalStateMagic ∧ bytes[4]? = some plannerNeedStateVersion)
    WireError.invalidEncoding
  let serviceId := u32OfLe ((bytes.drop 5).take 4)
  let length := (u32OfLe ((bytes.drop 9).take 4)).toNat
  ensure (length ≤ maxStateKeyBytes ∧ bytes.length = 13 + length) WireError.invalidEncoding
  pure (serviceId, bytes.drop 13)

/-- A key has an envelope unless it is too long. -/
theorem encodePlannerNeedState_ok {key : Bytes} :
    (∃ bytes, encodePlannerNeedState key = .ok bytes) ↔ key.length ≤ maxStateKeyBytes := by
  unfold encodePlannerNeedState
  simp [bind_eq_ok, Pure.pure, Except.pure]

theorem encodePlannerNeedExternalState_ok (serviceId : UInt32) {key : Bytes} :
    (∃ bytes, encodePlannerNeedExternalState serviceId key = .ok bytes) ↔
      key.length ≤ maxStateKeyBytes := by
  unfold encodePlannerNeedExternalState
  simp [bind_eq_ok, Pure.pure, Except.pure]

/-- An envelope is longer than any error output and short enough for the guest's output buffer. -/
theorem length_encodePlannerNeedState {key bytes : Bytes}
    (h : encodePlannerNeedState key = .ok bytes) :
    bytes.length = 9 + key.length ∧ key.length ≤ maxStateKeyBytes := by
  obtain ⟨_, hlength, h⟩ := bind_eq_ok.mp h
  cases h
  refine ⟨?_, ensure_eq_ok.mp hlength⟩
  simp [plannerNeedStateMagic, ascii, length_u32ToLe]
  omega

theorem length_encodePlannerNeedExternalState {serviceId : UInt32} {key bytes : Bytes}
    (h : encodePlannerNeedExternalState serviceId key = .ok bytes) :
    bytes.length = 13 + key.length ∧ key.length ≤ maxStateKeyBytes := by
  obtain ⟨_, hlength, h⟩ := bind_eq_ok.mp h
  cases h
  refine ⟨?_, ensure_eq_ok.mp hlength⟩
  simp [plannerNeedExternalStateMagic, ascii, length_u32ToLe]
  omega

/-- The request for a key is read back as such, and not as one for a key of another service. -/
theorem decodePlannerNeedState_encode {key bytes : Bytes}
    (h : encodePlannerNeedState key = .ok bytes) :
    decodePlannerNeedState bytes = .ok key ∧
      ∃ e, decodePlannerNeedExternalState bytes = .error e := by
  obtain ⟨hlength, hkey⟩ := length_encodePlannerNeedState h
  obtain ⟨_, -, h⟩ := bind_eq_ok.mp h
  cases h
  have hnat : (UInt32.ofNat key.length).toNat = key.length :=
    UInt32.toNat_ofNat_of_lt' (lt_of_le_of_lt hkey (by decide))
  have hdrop : (plannerNeedStateMagic ++ [plannerNeedStateVersion] ++
      u32ToLe (UInt32.ofNat key.length) ++ key).drop 9 = key := List.drop_left' (by
    rw [List.length_append, length_u32ToLe]
    rfl)
  have hsize : ((plannerNeedStateMagic ++ [plannerNeedStateVersion] ++
      u32ToLe (UInt32.ofNat key.length) ++ key).drop 5).take 4 =
      u32ToLe (UInt32.ofNat key.length) := by
    have hprefix : (plannerNeedStateMagic ++ [plannerNeedStateVersion]).length = 5 := rfl
    rw [List.append_assoc, List.drop_left' hprefix, List.take_left' (length_u32ToLe _)]
  constructor
  · unfold decodePlannerNeedState
    rw [hsize, hdrop, u32OfLe_u32ToLe, hnat, hlength]
    refine bind_eq_ok.mpr ⟨(), ensure_eq_ok.mpr ⟨by omega, ?_⟩, ?_⟩
    · unfold maxPlannerOutputBytes
      omega
    · exact bind_eq_ok.mpr ⟨(), ensure_eq_ok.mpr ⟨rfl, rfl⟩,
        bind_eq_ok.mpr ⟨(), ensure_eq_ok.mpr ⟨hkey, rfl⟩, rfl⟩⟩
  · cases hdecode : decodePlannerNeedExternalState (plannerNeedStateMagic ++
      [plannerNeedStateVersion] ++
        u32ToLe (UInt32.ofNat key.length) ++ key) with
    | error e => exact ⟨e, rfl⟩
    | ok found =>
      obtain ⟨_, -, hdecode⟩ := bind_eq_ok.mp hdecode
      obtain ⟨_, hmagic, -⟩ := bind_eq_ok.mp hdecode
      have hmagic : plannerNeedStateMagic = plannerNeedExternalStateMagic :=
        (ensure_eq_ok.mp hmagic).1
      exact absurd hmagic (by decide)

end JamScript
