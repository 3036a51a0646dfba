import JamScript.Common.Overlay
import JamScript.Core.Context

/-!
# Proof-backed state

`service-runtime-state`'s `ProofState`: a partial trie rebuilt from a storage proof, a cache of the
values read from it, and a stack of write overlays. The trie library is a parameter, `TrieLibrary`;
what is assumed of it is stated where it is needed and never more than about the trie operations a
run performs.

The cache is an implementation detail. `OverlayState` is the same state without it, over an
arbitrary base lookup, and `proofState_simulation` shows that no client can tell the two apart.
-/

namespace JamScript

open Codec Effects

/-- The operations of `sp_trie` that the runtime calls. -/
structure TrieLibrary where
  TrieError : Type
  /-- A node database. -/
  MemoryDB : Type
  /-- A trie opened for modification. -/
  TrieDBMut : Type
  intoMemoryDb : List Bytes → MemoryDB
  get : MemoryDB → StateRoot → Bytes → Except TrieError (Option Bytes)
  fromExisting : MemoryDB → StateRoot → TrieDBMut
  insert : Bytes → Bytes → TrieDBMut → Except TrieError TrieDBMut
  remove : Bytes → TrieDBMut → Except TrieError TrieDBMut
  /-- What dropping the trie leaves behind: its root and the database with its nodes. -/
  commit : TrieDBMut → StateRoot × MemoryDB

inductive StateError where
  | invalidRoot
  | missingWitness
  | invalidProof
  | backend
  | unsupported
  | reservedKey
  deriving DecidableEq, Repr

def stateAccessError : StateError → StateAccessError
  | .missingWitness => .missingWitness
  | .invalidProof => .invalidProof
  | .reservedKey => .reservedKey
  | _ => .backend

/-- The loop that applies a diff to an open trie. -/
def TrieLibrary.applyChanges (L : TrieLibrary) (changes : List StateChangeV1) (trie : L.TrieDBMut) :
    Except L.TrieError L.TrieDBMut :=
  changes.foldlM (fun trie change =>
    match change.value with
    | some value => L.insert change.key value trie
    | none => L.remove change.key trie) trie

/-- What a trie answers for a key; a missing node is a missing witness. -/
def TrieLibrary.lookup (L : TrieLibrary) (db : L.MemoryDB) (root : StateRoot) (key : Bytes) :
    Except StateAccessError (Option Bytes) :=
  (L.get db root key).mapError fun _ => .missingWitness

/-- A diff lists a map of writes in key order. -/
def diffOfWrites (writes : WriteSet Bytes (Option Bytes)) : StateDiffV1 :=
  ⟨writes.toList.map fun (key, value) => ⟨key, value⟩⟩

structure ProofState (L : TrieLibrary) extends Overlay Bytes (Option Bytes) where
  db : L.MemoryDB
  root : StateRoot
  baseCache : WriteSet Bytes (Option Bytes)

namespace ProofState

variable {L : TrieLibrary}

/-- The same state with another overlay. -/
def withOverlay (s : ProofState L) (overlay : Overlay Bytes (Option Bytes)) : ProofState L :=
  ⟨overlay, s.db, s.root, s.baseCache⟩

/-- `from_proof_with_observer`: the observer sees the stages of opening the proof. -/
def fromProofWithObserver {O : Type} (root : StateRoot) (proof : List Bytes)
    (stage : UInt8 → O → O) (observer : O) : Except StateError (ProofState L) × O :=
  let db := L.intoMemoryDb proof
  let observer := stage 2 (stage 1 observer)
  match L.get db root [] with
  | .error _ => (.error .missingWitness, observer)
  | .ok _ =>
    (.ok { writes := ∅, transactions := [], db, root, baseCache := ∅ }, stage 3 observer)

def fromWitness (root : StateRoot) (proof : List Bytes) : Except StateError (ProofState L) :=
  (fromProofWithObserver root proof (fun _ (_ : Unit) => ()) ()).1

def baseValue (key : Bytes) (s : ProofState L) : Except StateError (Option Bytes) × ProofState L :=
  match s.baseCache[key]? with
  | some value => (.ok value, s)
  | none =>
    match L.get s.db s.root key with
    | .error _ => (.error .missingWitness, s)
    | .ok value => (.ok value, { s with baseCache := s.baseCache.insert key value })

/-- `ManagedState::get`. -/
def get (key : Bytes) (s : ProofState L) : Except StateError (Option Bytes) × ProofState L :=
  match s.lookup key with
  | some value => (.ok value, s)
  | none => s.baseValue key

/-- The common body of `ManagedState::set` and `ManagedState::delete`. -/
def write (key : Bytes) (value : Option Bytes) (s : ProofState L) :
    Except StateError Unit × ProofState L :=
  if isReservedServiceStorageKey key then (.error .reservedKey, s)
  else if s.lookup key = none ∧ s.baseCache[key]? = none then
    match s.baseValue key with
    | (.error e, s) => (.error e, s)
    | (.ok _, s) => (.ok (), s.withOverlay (s.toOverlay.insert key value))
  else (.ok (), s.withOverlay (s.toOverlay.insert key value))

/-- A write opens and closes no transaction. -/
theorem length_write (key : Bytes) (value : Option Bytes) (s : ProofState L) :
    (s.write key value).2.transactions.length = s.transactions.length := by
  have hread : (s.baseValue key).2.toOverlay = s.toOverlay := by
    unfold baseValue
    split
    · rfl
    · split <;> rfl
  have hinsert := Overlay.length_insert s.toOverlay key value
  unfold write
  split
  · rfl
  · split
    · generalize s.baseValue key = read at hread ⊢
      obtain ⟨answer, s'⟩ := read
      obtain hread : s'.toOverlay = s.toOverlay := hread
      cases answer with
      | error e => exact congrArg (fun o => o.transactions.length) hread
      | ok base => simpa only [withOverlay, hread] using hinsert
    · exact hinsert

def beginTransaction (s : ProofState L) : ProofState L := s.withOverlay s.toOverlay.begin

def commitTransaction (s : ProofState L) : Except StateError Unit × ProofState L :=
  match s.toOverlay.commit with
  | none => (.error .backend, s)
  | some overlay => (.ok (), s.withOverlay overlay)

def rollbackTransaction (s : ProofState L) : Except StateError Unit × ProofState L :=
  match s.toOverlay.rollback with
  | none => (.error .backend, s)
  | some overlay => (.ok (), s.withOverlay overlay)

def finish (s : ProofState L) : Except StateError (StateRoot × StateDiffV1) :=
  if s.transactions ≠ [] then .error .backend
  else
    let diff := diffOfWrites s.writes
    if diff.changes = [] then .ok (s.root, diff)
    else
      match L.applyChanges diff.changes (L.fromExisting s.db s.root) with
      | .error _ => .error .backend
      | .ok trie => .ok ((L.commit trie).1, diff)

/-- Convert the error of a method, as the trait implementation does. -/
def mapAccessError {α : Type} (convert : StateError → StateAccessError)
    (method : ProofState L → Except StateError α × ProofState L) : Method (ProofState L) α :=
  fun s => ((method s).1.mapError convert, (method s).2)

instance : ManagedStateAccess (ProofState L) where
  get key := mapAccessError stateAccessError (get key)
  set key value := mapAccessError stateAccessError (write key (some value))
  delete key := mapAccessError stateAccessError (write key none)
  beginTransaction s := (.ok (), s.beginTransaction)
  commitTransaction := mapAccessError (fun _ => .backend) commitTransaction
  rollbackTransaction := mapAccessError (fun _ => .backend) rollbackTransaction

end ProofState

/-! ## The state without its cache -/

/-- A stack of overlays over a base lookup. -/
structure OverlayState extends Overlay Bytes (Option Bytes) where
  base : Bytes → Except StateAccessError (Option Bytes)

namespace OverlayState

/-- The same state with another overlay. -/
def withOverlay (s : OverlayState) (overlay : Overlay Bytes (Option Bytes)) : OverlayState :=
  ⟨overlay, s.base⟩

theorem eq_mk {s : OverlayState} {overlay : Overlay Bytes (Option Bytes)}
    {base : Bytes → Except StateAccessError (Option Bytes)} (hoverlay : s.toOverlay = overlay)
    (hbase : s.base = base) : s = ⟨overlay, base⟩ := by
  subst hoverlay hbase
  rfl

/-- The value a reader sees: the overlay's, or else the base's. -/
def get (key : Bytes) (s : OverlayState) : Except StateAccessError (Option Bytes) :=
  match s.lookup key with
  | some value => .ok value
  | none => s.base key

/-- A write first makes sure that the key can be read. -/
def write (key : Bytes) (value : Option Bytes) : Method OverlayState Unit := fun s =>
  if isReservedServiceStorageKey key then (.error .reservedKey, s)
  else
    match s.get key with
    | .error e => (.error e, s)
    | .ok _ => (.ok (), s.withOverlay (s.toOverlay.insert key value))

/-- Close the innermost transaction with an overlay operation. -/
def close (operation : Overlay Bytes (Option Bytes) → Option (Overlay Bytes (Option Bytes))) :
    Method OverlayState Unit := fun s =>
  match operation s.toOverlay with
  | none => (.error .backend, s)
  | some overlay => (.ok (), s.withOverlay overlay)

instance : ManagedStateAccess OverlayState where
  get key s := (s.get key, s)
  set key value := write key (some value)
  delete key := write key none
  beginTransaction s := (.ok (), s.withOverlay s.toOverlay.begin)
  commitTransaction := close Overlay.commit
  rollbackTransaction := close Overlay.rollback

end OverlayState

namespace ProofState

variable {L : TrieLibrary} {db : L.MemoryDB} {root : StateRoot} {s : ProofState L}
  {t : OverlayState}

/-- `t` is the state `s` over the trie `(db, root)` without its cache, every cached value being what
that trie answers. -/
structure Represents (db : L.MemoryDB) (root : StateRoot) (s : ProofState L) (t : OverlayState) :
    Prop where
  sameDb : s.db = db
  sameRoot : s.root = root
  overlay : s.toOverlay = t.toOverlay
  base : t.base = L.lookup db root
  cache : ∀ key value, s.baseCache[key]? = some value → L.get db root key = .ok value

/-- A freshly opened proof state has nothing cached and nothing written. -/
theorem fromWitness_represents {proof : List Bytes} (h : fromWitness root proof = .ok s) :
    s.Represents (L.intoMemoryDb proof) root
      ⟨Overlay.empty, L.lookup (L.intoMemoryDb proof) root⟩ := by
  unfold fromWitness fromProofWithObserver at h
  dsimp only at h
  split at h
  · cases h
  · cases h
    exact ⟨rfl, rfl, rfl, rfl, by simp⟩

/-- Reading through the cache answers what the trie answers. -/
theorem baseValue_spec (h : s.Represents db root t) (key : Bytes) :
    (s.baseValue key).1.mapError stateAccessError = t.base key ∧
      (s.baseValue key).2.Represents db root t := by
  obtain ⟨rfl, rfl, hoverlay, hbase, hcache⟩ := h
  rw [hbase]
  unfold baseValue TrieLibrary.lookup
  split
  case h_1 value hcached =>
    rw [hcache key value hcached]
    exact ⟨rfl, rfl, rfl, hoverlay, hbase, hcache⟩
  case h_2 =>
    cases hget : L.get s.db s.root key with
    | error e => exact ⟨rfl, rfl, rfl, hoverlay, hbase, hcache⟩
    | ok value =>
      refine ⟨rfl, rfl, rfl, hoverlay, hbase, fun key' value' hcached => ?_⟩
      rw [Std.ExtTreeMap.getElem?_insert] at hcached
      split at hcached
      case isTrue heq =>
        cases hcached
        rw [← Std.LawfulEqOrd.eq_of_compare heq]
        exact hget
      case isFalse => exact hcache key' value' hcached

theorem get_spec (h : s.Represents db root t) (key : Bytes) :
    (s.get key).1.mapError stateAccessError = t.get key ∧ (s.get key).2.Represents db root t := by
  unfold ProofState.get OverlayState.get
  rw [h.overlay]
  cases t.lookup key with
  | some value => exact ⟨rfl, h⟩
  | none => exact baseValue_spec h key

/-- A change to the overlay alone keeps the two states related. -/
theorem Represents.setOverlay (h : s.Represents db root t)
    (overlay : Overlay Bytes (Option Bytes)) :
    Represents db root (s.withOverlay overlay) (t.withOverlay overlay) :=
  ⟨h.sameDb, h.sameRoot, rfl, h.base, h.cache⟩

theorem write_spec (h : s.Represents db root t) (key : Bytes) (value : Option Bytes) :
    (s.write key value).1.mapError stateAccessError = (t.write key value).1 ∧
      (s.write key value).2.Represents db root (t.write key value).2 := by
  have hinsert : Represents db root (s.withOverlay (s.toOverlay.insert key value))
      (t.withOverlay (t.toOverlay.insert key value)) := by
    rw [h.overlay]
    exact h.setOverlay _
  unfold ProofState.write OverlayState.write
  split
  case isTrue => exact ⟨rfl, h⟩
  case isFalse =>
    split
    case isTrue hunread =>
      -- neither written nor cached: both sides consult the trie
      obtain ⟨hanswer, hnext⟩ := baseValue_spec h key
      have hget : t.get key = t.base key := by
        rw [OverlayState.get, ← h.overlay, hunread.1]
      rw [hget, ← hanswer]
      generalize s.baseValue key = read at hanswer hnext ⊢
      obtain ⟨answer, s'⟩ := read
      cases answer with
      | error e => exact ⟨rfl, hnext⟩
      | ok base =>
        refine ⟨rfl, ?_⟩
        have hsame : s'.toOverlay = t.toOverlay := hnext.overlay
        change Represents db root (s'.withOverlay (s'.toOverlay.insert key value)) _
        rw [hsame]
        exact hnext.setOverlay _
    case isFalse hread =>
      -- written or cached: the lookup without a cache succeeds as well
      have hget : ∃ base, t.get key = .ok base := by
        unfold OverlayState.get
        rw [← h.overlay]
        cases hlookup : s.lookup key with
        | some base => exact ⟨base, rfl⟩
        | none =>
          cases hcached : s.baseCache[key]? with
          | none => exact absurd ⟨hlookup, hcached⟩ hread
          | some base =>
            refine ⟨base, ?_⟩
            simp only [h.base, TrieLibrary.lookup, h.cache key base hcached]
            rfl
      obtain ⟨base, hget⟩ := hget
      rw [hget]
      exact ⟨rfl, hinsert⟩

/-- Closing a transaction is the same overlay operation on both sides. -/
theorem close_spec (h : s.Represents db root t)
    (operation : Overlay Bytes (Option Bytes) → Option (Overlay Bytes (Option Bytes)))
    {method : ProofState L → Except StateError Unit × ProofState L}
    (hmethod : method s = match operation s.toOverlay with
      | none => (.error .backend, s)
      | some overlay => (.ok (), s.withOverlay overlay)) :
    (mapAccessError (fun _ => .backend) method s).1 = (OverlayState.close operation t).1 ∧
      (mapAccessError (fun _ => .backend) method s).2.Represents db root
        (OverlayState.close operation t).2 := by
  unfold mapAccessError OverlayState.close
  rw [hmethod, h.overlay]
  cases operation t.toOverlay with
  | none => exact ⟨rfl, h⟩
  | some overlay => exact ⟨rfl, h.setOverlay overlay⟩

/-- Dropping the cache changes nothing a client can observe. -/
theorem proofState_simulation (db : L.MemoryDB) (root : StateRoot) :
    StateSimulation (Represents db root) where
  get key _ _ h := get_spec h key
  set key value _ _ h := write_spec h key (some value)
  delete key _ _ h := write_spec h key none
  beginTransaction s t h := by
    refine ⟨rfl, ?_⟩
    have hbegin : s.toOverlay.begin = t.toOverlay.begin := congrArg Overlay.begin h.overlay
    change Represents db root (s.withOverlay s.toOverlay.begin) _
    rw [hbegin]
    exact h.setOverlay _
  commitTransaction _ _ h := close_spec h Overlay.commit rfl
  rollbackTransaction _ _ h := close_spec h Overlay.rollback rfl

end ProofState

end JamScript
