import JamScript.Common.Snapshots
import JamScript.State.LeafTrie

/-!
# The host's state and its transactions

`service-runtime-state`'s `FullState` is a complete trie, and `StateTransaction` a stack of write
overlays on top of one that remembers the keys it has touched, so that a proof can be made for them.

Both it and the guest's `ProofState` are meant to behave as if every open transaction had put a copy
of the whole map aside. `StateTransaction.perform_snapshots` and `ProofState.perform_snapshots` say
so of one operation, `nested_transactions_match_snapshots` of every sequence of them.
-/

namespace JamScript

open Codec

/-- The operations of `sp_trie` that only the host calls. -/
structure HostTrie extends TrieLibrary where
  /-- `MemoryDB::default()`. -/
  emptyDb : MemoryDB
  /-- An empty trie opened for modification. -/
  create : MemoryDB → TrieDBMut
  /-- The nodes a recorder collects while the keys are read one after the other. -/
  record : MemoryDB → StateRoot → List Bytes → Except TrieError (List Bytes)

structure FullState (L : HostTrie) where
  db : L.MemoryDB
  root : StateRoot

namespace FullState

variable {L : HostTrie}

def empty : FullState L := ⟨L.emptyDb, emptyStateRootV1⟩

/-- What dropping an open trie leaves behind. -/
def ofTrie (trie : L.TrieDBMut) : FullState L := ⟨(L.commit trie).2, (L.commit trie).1⟩

def get (key : Bytes) (s : FullState L) : Except StateError (Option Bytes) :=
  (L.get s.db s.root key).mapError fun _ => .backend

def proofFor (keys : List Bytes) (s : FullState L) : Except StateError (List Bytes) :=
  (L.record s.db s.root keys).mapError fun _ => .backend

def applyDiff (diff : StateDiffV1) (s : FullState L) : Except StateError (FullState L) :=
  if diff.changes = [] then .ok s
  else ((L.applyChanges diff.changes (L.fromExisting s.db s.root)).mapError
    fun _ => StateError.backend).map ofTrie

end FullState

structure StateTransaction (L : HostTrie) extends Overlay Bytes (Option Bytes) where
  base : FullState L
  touched : Std.ExtTreeSet Bytes

namespace StateTransaction

variable {L : HostTrie}

def new (base : FullState L) : StateTransaction L := ⟨Overlay.empty, base, ∅⟩

/-- The same transaction with another overlay. -/
def withOverlay (s : StateTransaction L) (overlay : Overlay Bytes (Option Bytes)) :
    StateTransaction L :=
  { s with toOverlay := overlay }

def beginTransaction (s : StateTransaction L) : StateTransaction L :=
  s.withOverlay s.toOverlay.begin

/-- The common body of `commit_transaction` and `rollback_transaction`. -/
def close (operation : Overlay Bytes (Option Bytes) → Option (Overlay Bytes (Option Bytes)))
    (s : StateTransaction L) : Except StateError Unit × StateTransaction L :=
  match operation s.toOverlay with
  | none => (.error .backend, s)
  | some overlay => (.ok (), s.withOverlay overlay)

def commitTransaction : StateTransaction L → Except StateError Unit × StateTransaction L :=
  close Overlay.commit

def rollbackTransaction : StateTransaction L → Except StateError Unit × StateTransaction L :=
  close Overlay.rollback

def finishWithProof (s : StateTransaction L) :
    Except StateError (FullState L × StateDiffV1 × List Bytes) :=
  if s.transactions ≠ [] then .error .backend
  else do
    let proof ← s.base.proofFor s.touched.toList
    let diff := diffOfWrites s.writes
    let next ← s.base.applyDiff diff
    pure (next, diff, proof)

/-- `ManagedState::get`. -/
def get (key : Bytes) (s : StateTransaction L) : Except StateError
    (Option Bytes) × StateTransaction L :=
  match s.lookup key with
  | some value => (.ok value, s)
  | none => (s.base.get key, { s with touched := s.touched.insert key })

/-- The common body of `ManagedState::set` and `ManagedState::delete`. -/
def write (key : Bytes) (value : Option Bytes) (s : StateTransaction L) :
    Except StateError Unit × StateTransaction L :=
  if isReservedServiceStorageKey key then (.error .reservedKey, s)
  else (.ok (), { s with
    toOverlay := s.toOverlay.insert key value, touched := s.touched.insert key })

/-- Convert the error of a method, as the trait implementation does. -/
def mapAccessError {α : Type} (convert : StateError → StateAccessError)
    (method : StateTransaction L → Except StateError α × StateTransaction L) :
    Method (StateTransaction L) α :=
  fun s => ((method s).1.mapError convert, (method s).2)

instance : ManagedStateAccess (StateTransaction L) where
  get key := mapAccessError stateAccessError (get key)
  set key value := mapAccessError stateAccessError (write key (some value))
  delete key := mapAccessError stateAccessError (write key none)
  beginTransaction s := (.ok (), s.beginTransaction)
  commitTransaction := mapAccessError (fun _ => .backend) commitTransaction
  rollbackTransaction := mapAccessError (fun _ => .backend) rollbackTransaction

end StateTransaction

/-! ## Sequences of operations -/

/-- The operations of the state traits. -/
inductive StateOp where
  | get (key : Bytes)
  | set (key value : Bytes)
  | delete (key : Bytes)
  | beginTransaction
  | commitTransaction
  | rollbackTransaction
  deriving DecidableEq

inductive StateReply where
  | done
  | value (value : Option Bytes)
  deriving DecidableEq

namespace StateOp

variable {σ : Type} [ManagedStateAccess σ]

/-- Call a method and name its answer. -/
def reply {α : Type} (name : α → StateReply) (method : Method σ α) : Method σ StateReply :=
  fun s => ((method s).1.map name, (method s).2)

def perform : StateOp → Method σ StateReply
  | .get key => reply .value (ManagedStateAccess.get key)
  | .set key value => reply (fun _ => .done) (ManagedStateAccess.set key value)
  | .delete key => reply (fun _ => .done) (ManagedStateAccess.delete key)
  | .beginTransaction => reply (fun _ => .done) ManagedStateAccess.beginTransaction
  | .commitTransaction => reply (fun _ => .done) ManagedStateAccess.commitTransaction
  | .rollbackTransaction => reply (fun _ => .done) ManagedStateAccess.rollbackTransaction

/-- The answers of a sequence of operations and the state after them. An operation that fails does
not end the sequence. -/
def performAll : List StateOp → σ → List (Except StateAccessError StateReply) × σ
  | [], s => ([], s)
  | op :: ops, s =>
    let rest := performAll ops (op.perform s).2
    ((op.perform s).1 :: rest.1, rest.2)

end StateOp

/-! ## The reference -/

abbrev StateSnapshots := Snapshots Bytes (Option Bytes)

namespace StateSnapshots

def write (key : Bytes) (value : Option Bytes) : Method StateSnapshots Unit := fun s =>
  if isReservedServiceStorageKey key then (.error .reservedKey, s)
  else (.ok (), Snapshots.write s key value)

def close (operation : StateSnapshots → Option StateSnapshots) : Method StateSnapshots Unit :=
    fun s =>
  match operation s with
  | none => (.error .backend, s)
  | some s => (.ok (), s)

instance : ManagedStateAccess StateSnapshots where
  get key s := (.ok (s.current.values key), s)
  set key value := write key (some value)
  delete key := write key none
  beginTransaction s := (.ok (), s.begin)
  commitTransaction := close Snapshots.commit
  rollbackTransaction := close Snapshots.rollback

/-- The key whose value an operation reads from below all writes, or that it writes. -/
def uses (s : StateSnapshots) : StateOp → Option Bytes
  | .get key => if s.lastWrite key = none then some key else none
  | .set key _ | .delete key => if isReservedServiceStorageKey key then none else some key
  | .beginTransaction | .commitTransaction | .rollbackTransaction => none

/-- The keys a sequence of operations uses. -/
def usedKeys : List StateOp → StateSnapshots → List Bytes
  | [], _ => []
  | op :: ops, s => (s.uses op).toList ++ usedKeys ops (op.perform s).2

end StateSnapshots

/-! ## The host against the reference -/

namespace StateTransaction

open StateSnapshots

variable {L : HostTrie} {base : FullState L} {values : Bytes → Option Bytes}
  {s : StateTransaction L} {t : StateSnapshots}

/-- The transaction is over the given state, and its overlay shows what the snapshots hold. -/
structure FollowsSnapshots (base : FullState L) (values : Bytes → Option Bytes)
    (s : StateTransaction L) (t : StateSnapshots) : Prop where
  base : s.base = base
  overlay : Snapshots.Matches values s.toOverlay t

theorem close_snapshots (h : FollowsSnapshots base values s t)
    {operation : Overlay Bytes (Option Bytes) → Option (Overlay Bytes (Option Bytes))}
    {reference : StateSnapshots → Option StateSnapshots}
    (hclose : Option.Rel (Snapshots.Matches values) (operation s.toOverlay) (reference t)) :
    (mapAccessError (fun _ => .backend) (close operation) s).1 =
    (StateSnapshots.close reference t).1 ∧
      FollowsSnapshots base values (close operation s).2 (StateSnapshots.close reference t).2 ∧
      (close operation s).2.touched = s.touched := by
  unfold mapAccessError close StateSnapshots.close
  generalize operation s.toOverlay = closed, reference t = expected at hclose ⊢
  cases hclose with
  | none => exact ⟨rfl, h, rfl⟩
  | some hmatches => exact ⟨rfl, ⟨h.base, hmatches⟩, rfl⟩

theorem write_snapshots (h : FollowsSnapshots base values s t) (key : Bytes)
    (value : Option Bytes) :
    (mapAccessError stateAccessError (write key value) s).1 = (StateSnapshots.write key value t).1 ∧
      FollowsSnapshots base values (write key value s).2 (StateSnapshots.write key value t).2 ∧
      ∀ other, other ∈ (write key value s).2.touched ↔ other ∈ s.touched ∨
        (if isReservedServiceStorageKey key then none else some key) = some other := by
  unfold mapAccessError write StateSnapshots.write
  by_cases hreserved : isReservedServiceStorageKey key = true
  · simp only [if_pos hreserved]
    exact ⟨rfl, h, by simp⟩
  · simp only [if_neg hreserved]
    refine ⟨rfl, ⟨h.base, h.overlay.write key value⟩, fun other => ?_⟩
    simp [Std.ExtTreeSet.mem_insert, or_comm]

theorem get_snapshots (hbase : ∀ key, base.get key = .ok (values key))
    (h : FollowsSnapshots base values s t) (key : Bytes) :
    (mapAccessError stateAccessError (get key) s).1 = .ok (t.current.values key) ∧
      FollowsSnapshots base values (get key s).2 t ∧
      ∀ other, other ∈ (get key s).2.touched ↔ other ∈ s.touched ∨
        (if t.lastWrite key = none then some key else none) = some other := by
  have hvalue := h.overlay.agrees.values key
  rw [← h.overlay.agrees.writes key]
  unfold mapAccessError get
  cases hlookup : s.lookup key with
  | some value =>
    rw [hlookup] at hvalue
    refine ⟨?_, h, by simp⟩
    rw [hvalue]
    rfl
  | none =>
    rw [hlookup] at hvalue
    refine ⟨?_, ⟨h.base, h.overlay⟩, fun other => ?_⟩
    · rw [h.base, hbase, hvalue]
      rfl
    · simp [Std.ExtTreeSet.mem_insert, or_comm]

/-- One operation answers as on the snapshots and touches the key it uses. -/
theorem perform_snapshots (hbase : ∀ key, base.get key = .ok (values key))
    (h : FollowsSnapshots base values s t) (op : StateOp) :
    (op.perform s).1 = (op.perform t).1 ∧ FollowsSnapshots base values (op.perform s).2
    (op.perform t).2 ∧
      ∀ key, key ∈ (op.perform s).2.touched ↔ key ∈ s.touched ∨ t.uses op = some key := by
  cases op with
  | get key =>
    obtain ⟨hanswer, hnext, htouched⟩ := get_snapshots hbase h key
    exact ⟨congrArg (Except.map StateReply.value) hanswer, hnext, htouched⟩
  | set key value =>
    obtain ⟨hanswer, hnext, htouched⟩ := write_snapshots h key (some value)
    exact ⟨congrArg (Except.map fun _ => StateReply.done) hanswer, hnext, htouched⟩
  | delete key =>
    obtain ⟨hanswer, hnext, htouched⟩ := write_snapshots h key none
    exact ⟨congrArg (Except.map fun _ => StateReply.done) hanswer, hnext, htouched⟩
  | beginTransaction =>
    exact ⟨rfl, ⟨h.base, h.overlay.begin⟩, fun key => by simp [uses]; rfl⟩
  | commitTransaction =>
    obtain ⟨hanswer, hnext, htouched⟩ := close_snapshots h h.overlay.commit
    refine ⟨congrArg (Except.map fun _ => StateReply.done) hanswer, hnext, fun key => ?_⟩
    change key ∈ (close Overlay.commit s).2.touched ↔ _
    rw [htouched]
    simp [uses]
  | rollbackTransaction =>
    obtain ⟨hanswer, hnext, htouched⟩ := close_snapshots h h.overlay.rollback
    refine ⟨congrArg (Except.map fun _ => StateReply.done) hanswer, hnext, fun key => ?_⟩
    change key ∈ (close Overlay.rollback s).2.touched ↔ _
    rw [htouched]
    simp [uses]

theorem performAll_snapshots (hbase : ∀ key, base.get key = .ok (values key)) (ops : List StateOp)
    (h : FollowsSnapshots base values s t) :
    (StateOp.performAll ops s).1 = (StateOp.performAll ops t).1 ∧
      FollowsSnapshots base values (StateOp.performAll ops s).2 (StateOp.performAll ops t).2 ∧
      ∀ key, key ∈ (StateOp.performAll ops s).2.touched ↔ key ∈ s.touched ∨
        key ∈ usedKeys ops t := by
  induction ops generalizing s t with
  | nil => exact ⟨rfl, h, by simp [StateOp.performAll, usedKeys]⟩
  | cons op ops ih =>
    obtain ⟨hanswer, hnext, htouched⟩ := perform_snapshots hbase h op
    obtain ⟨hanswers, hlast, htouchedAll⟩ := ih hnext
    refine ⟨?_, hlast, fun key => ?_⟩
    · simp only [StateOp.performAll, hanswer, hanswers]
    · rw [StateOp.performAll, htouchedAll, htouched, usedKeys, List.mem_append, Option.mem_toList,
        or_assoc]

end StateTransaction

/-! ## The guest against the reference -/

namespace ProofState

open StateSnapshots

variable {L : TrieLibrary} {db : L.MemoryDB} {root : StateRoot} {values : Bytes → Option Bytes}
  {s : ProofState L} {t : StateSnapshots}

/-- The state is over the given trie, and its overlay shows what the snapshots hold. -/
def FollowsSnapshots (db : L.MemoryDB) (root : StateRoot) (values : Bytes → Option Bytes)
    (s : ProofState L) (t : StateSnapshots) : Prop :=
  ∃ o : OverlayState, s.Represents db root o ∧ Snapshots.Matches values o.toOverlay t

theorem followsSnapshots_fromWitness {proof : List Bytes} (h : fromWitness root proof = .ok s) :
    FollowsSnapshots (L.intoMemoryDb proof) root values s (Snapshots.start values) :=
  ⟨_, fromWitness_represents h, .start⟩

/-- The value of a key that has been written, or that the trie knows. -/
theorem overlayState_get {o : OverlayState} (hbase : o.base = L.lookup db root)
    (hmatches : Snapshots.Matches values o.toOverlay t) {key : Bytes}
    (hcovers : t.lastWrite key = none → L.get db root key = .ok (values key)) :
    o.get key = .ok (t.current.values key) := by
  have hvalue := hmatches.agrees.values key
  have hwrite := hmatches.agrees.writes key
  unfold OverlayState.get
  cases hlookup : o.lookup key with
  | some value =>
    rw [hlookup] at hvalue
    rw [hvalue]
    rfl
  | none =>
    rw [hlookup] at hvalue hwrite
    rw [hbase, TrieLibrary.lookup, hcovers hwrite.symm, hvalue]
    rfl

theorem write_snapshots {o : OverlayState} (hbase : o.base = L.lookup db root)
    (hmatches : Snapshots.Matches values o.toOverlay t) {key : Bytes} (value : Option Bytes)
    (hcovers : isReservedServiceStorageKey key = false → L.get db root key = .ok (values key)) :
    (o.write key value).1 = (StateSnapshots.write key value t).1 ∧
      Snapshots.Matches values (o.write key value).2.toOverlay
        (StateSnapshots.write key value t).2 := by
  unfold OverlayState.write StateSnapshots.write
  split
  · exact ⟨rfl, hmatches⟩
  next hreserved =>
    rw [overlayState_get hbase hmatches fun _ => hcovers (Bool.eq_false_of_not_eq_true hreserved)]
    exact ⟨rfl, hmatches.write key value⟩

theorem close_snapshots {o : OverlayState}
    {operation : Overlay Bytes (Option Bytes) → Option (Overlay Bytes (Option Bytes))}
    {reference : StateSnapshots → Option StateSnapshots}
    (hmatches : Snapshots.Matches values o.toOverlay t)
    (hclose : Option.Rel (Snapshots.Matches values) (operation o.toOverlay) (reference t)) :
    (OverlayState.close operation o).1 = (StateSnapshots.close reference t).1 ∧
      Snapshots.Matches values (OverlayState.close operation o).2.toOverlay
        (StateSnapshots.close reference t).2 := by
  unfold OverlayState.close StateSnapshots.close
  generalize operation o.toOverlay = closed, reference t = expected at hclose ⊢
  cases hclose with
  | none => exact ⟨rfl, hmatches⟩
  | some hnext => exact ⟨rfl, hnext⟩

/-- One operation answers as on the snapshots when the trie knows the key it uses. -/
theorem perform_snapshots (h : FollowsSnapshots db root values s t) {op : StateOp}
    (hcovers : ∀ key, t.uses op = some key → L.get db root key = .ok (values key)) :
    (op.perform s).1 = (op.perform t).1 ∧
      FollowsSnapshots db root values (op.perform s).2 (op.perform t).2 := by
  obtain ⟨o, hrep, hmatches⟩ := h
  have hsim := proofState_simulation db root
  cases op with
  | get key =>
    obtain ⟨hanswer, hnext⟩ := hsim.get key s o hrep
    have hget : o.get key = .ok (t.current.values key) :=
      overlayState_get hrep.base hmatches fun hnone => hcovers key (if_pos hnone)
    exact ⟨congrArg (Except.map StateReply.value) (hanswer.trans hget), o, hnext, hmatches⟩
  | set key value =>
    obtain ⟨hanswer, hnext⟩ := hsim.set key value s o hrep
    obtain ⟨hreply, hmatches'⟩ := write_snapshots hrep.base hmatches (some value)
      fun hfree => hcovers key (if_neg (by simp [hfree]))
    exact ⟨congrArg (Except.map fun _ => StateReply.done) (hanswer.trans hreply), _,
      hnext, hmatches'⟩
  | delete key =>
    obtain ⟨hanswer, hnext⟩ := hsim.delete key s o hrep
    obtain ⟨hreply, hmatches'⟩ := write_snapshots hrep.base hmatches none
      fun hfree => hcovers key (if_neg (by simp [hfree]))
    exact ⟨congrArg (Except.map fun _ => StateReply.done) (hanswer.trans hreply), _,
      hnext, hmatches'⟩
  | beginTransaction =>
    obtain ⟨hanswer, hnext⟩ := hsim.beginTransaction s o hrep
    exact ⟨rfl, _, hnext, hmatches.begin⟩
  | commitTransaction =>
    obtain ⟨hanswer, hnext⟩ := hsim.commitTransaction s o hrep
    obtain ⟨hreply, hmatches'⟩ := close_snapshots hmatches hmatches.commit
    exact ⟨congrArg (Except.map fun _ => StateReply.done) (hanswer.trans hreply), _,
      hnext, hmatches'⟩
  | rollbackTransaction =>
    obtain ⟨hanswer, hnext⟩ := hsim.rollbackTransaction s o hrep
    obtain ⟨hreply, hmatches'⟩ := close_snapshots hmatches hmatches.rollback
    exact ⟨congrArg (Except.map fun _ => StateReply.done) (hanswer.trans hreply), _,
      hnext, hmatches'⟩

theorem performAll_snapshots (ops : List StateOp) (h : FollowsSnapshots db root values s t)
    (hcovers : ∀ key ∈ usedKeys ops t, L.get db root key = .ok (values key)) :
    (StateOp.performAll ops s).1 = (StateOp.performAll ops t).1 ∧
      FollowsSnapshots db root values (StateOp.performAll ops s).2
        (StateOp.performAll ops t).2 := by
  induction ops generalizing s t with
  | nil => exact ⟨rfl, h⟩
  | cons op ops ih =>
    simp only [usedKeys, List.mem_append, Option.mem_toList] at hcovers
    obtain ⟨hanswer, hnext⟩ := perform_snapshots h fun key hkey => hcovers key (.inl hkey)
    obtain ⟨hanswers, hlast⟩ := ih hnext fun key hkey => hcovers key (.inr hkey)
    exact ⟨by simp only [StateOp.performAll, hanswer, hanswers], hlast⟩

end ProofState

/-! ## Both together -/

/-- Closing a transaction fails exactly when none is open. -/
structure ClosesIffOpen {σ : Type} [ManagedStateAccess σ] (s : σ) (isOpen : Prop) : Prop where
  commit : (∃ error, (ManagedStateAccess.commitTransaction s).1 = .error error) ↔ ¬ isOpen
  rollback : (∃ error, (ManagedStateAccess.rollbackTransaction s).1 = .error error) ↔ ¬ isOpen

/-- The diff lists the last write of every key that was written, in strictly ascending key order. -/
structure ListsLastWrites (diff : StateDiffV1) (t : StateSnapshots) : Prop where
  sorted : diff.changes.Pairwise fun left right => compare left.key right.key = .lt
  lists : ∀ key value, ⟨key, value⟩ ∈ diff.changes ↔ t.lastWrite key = some value

theorem listsLastWrites_diffOfWrites {values : Bytes → Option Bytes}
    {o : Overlay Bytes (Option Bytes)} {t : StateSnapshots} (h : Snapshots.Matches values o t)
    (hclosed : o.transactions = []) :
    ListsLastWrites (diffOfWrites o.writes) t := by
  refine ⟨?_, fun key value => ?_⟩
  · unfold diffOfWrites
    rw [List.pairwise_map]
    exact Std.ExtTreeMap.ordered_keys_toList
  · have hwrite : o.writes[key]? = t.lastWrite key := by
      rw [← h.agrees.writes key]
      obtain ⟨writes, transactions⟩ := o
      subst hclosed
      rfl
    rw [← hwrite, ← Std.ExtTreeMap.mem_toList_iff_getElem?_eq_some]
    simp [diffOfWrites]

section Close

variable {σ : Type} [ManagedStateAccess σ] {values : Bytes → Option Bytes} {s : σ}
  {t : StateSnapshots}

theorem fails_close_iff (operation : StateSnapshots → Option StateSnapshots)
    (hnone : operation t = none ↔ t.saved = []) {answer : Except StateAccessError Unit}
    (hanswer : answer.map (fun _ => StateReply.done) =
      (StateSnapshots.close operation t).1.map fun _ => StateReply.done) :
    (∃ error, answer = .error error) ↔ ¬ t.saved ≠ [] := by
  rw [not_not, ← hnone]
  unfold StateSnapshots.close at hanswer
  cases hoperation : operation t with
  | none =>
    rw [hoperation] at hanswer
    cases answer with
    | error error => exact iff_of_true ⟨error, rfl⟩ rfl
    | ok value => cases hanswer
  | some next =>
    rw [hoperation] at hanswer
    cases answer with
    | error error => cases hanswer
    | ok value => simp

/-- It is enough that a state answers as the snapshots do. -/
theorem closesIffOpen_of_perform
    (hcommits : (StateOp.commitTransaction.perform s).1 = (StateOp.commitTransaction.perform t).1)
    (hrolls : (StateOp.rollbackTransaction.perform s).1 =
      (StateOp.rollbackTransaction.perform t).1) :
    ClosesIffOpen s (t.saved ≠ []) := by
  have hcommit : t.commit = none ↔ t.saved = [] := by
    unfold Snapshots.commit
    cases t.saved <;> simp
  have hrollback : t.rollback = none ↔ t.saved = [] := by
    unfold Snapshots.rollback
    cases t.saved <;> simp
  exact ⟨fails_close_iff _ hcommit hcommits, fails_close_iff _ hrollback hrolls⟩

end Close

/-- What the library is trusted with at the end of a run: it records the touched keys and applies
the writes, on the host's trie and on the guest's. -/
structure UpdatesSucceed (L : HostTrie) (base : FullState L) (proof : List Bytes)
    (touched : List Bytes) (changes : List StateChangeV1) : Prop where
  record : ∃ nodes, L.record base.db base.root touched = .ok nodes
  host : ∃ trie, L.applyChanges changes (L.fromExisting base.db base.root) = .ok trie
  guest : ∃ trie, L.applyChanges changes (L.fromExisting (L.intoMemoryDb proof) base.root) =
    .ok trie

theorem FullState.exists_applyDiff {L : HostTrie} {s : FullState L} {diff : StateDiffV1}
    (h : ∃ trie, L.applyChanges diff.changes (L.fromExisting s.db s.root) = .ok trie) :
    ∃ next, s.applyDiff diff = .ok next := by
  obtain ⟨trie, htrie⟩ := h
  unfold applyDiff
  rw [htrie]
  split
  · exact ⟨_, rfl⟩
  · exact ⟨_, rfl⟩

theorem StateTransaction.finishWithProof_closed {L : HostTrie} {s : StateTransaction L}
    (hclosed : s.transactions = [])
    (hrecord : ∃ nodes, L.record s.base.db s.base.root s.touched.toList = .ok nodes)
    (happly : ∃ trie, L.applyChanges (diffOfWrites s.writes).changes
      (L.fromExisting s.base.db s.base.root) = .ok trie) :
    ∃ next nodes, s.finishWithProof = .ok (next, diffOfWrites s.writes, nodes) := by
  obtain ⟨nodes, hnodes⟩ := hrecord
  obtain ⟨next, hnext⟩ := FullState.exists_applyDiff happly
  refine ⟨next, nodes, ?_⟩
  unfold finishWithProof FullState.proofFor
  rw [if_neg (not_not_intro hclosed), hnodes]
  simp only [hnext]
  rfl

theorem ProofState.finish_closed {L : TrieLibrary} {s : ProofState L}
    (hclosed : s.transactions = [])
    (h : ∃ trie, L.applyChanges (diffOfWrites s.writes).changes (L.fromExisting s.db s.root) =
      .ok trie) :
    ∃ root, s.finish = .ok (root, diffOfWrites s.writes) := by
  obtain ⟨trie, htrie⟩ := h
  unfold finish
  rw [if_neg (not_not_intro hclosed)]
  dsimp only
  rw [htrie]
  split
  · exact ⟨_, rfl⟩
  · exact ⟨_, rfl⟩

/-- Two overlays that match the same snapshots and have no open transaction hold the same writes. -/
theorem writes_eq_of_matches {values : Bytes → Option Bytes} {o p : Overlay Bytes (Option Bytes)}
    {t : StateSnapshots} (ho : Snapshots.Matches values o t) (hp : Snapshots.Matches values p t)
    (hclosed : t.saved = []) : o.writes = p.writes := by
  have hlookup : ∀ {q : Overlay Bytes (Option Bytes)}, Snapshots.Matches values q t →
      ∀ key, q.writes[key]? = t.lastWrite key := by
    intro q hq key
    have hnone := hq.transactions_eq_nil_iff.mpr hclosed
    rw [← hq.agrees.writes key]
    obtain ⟨writes, transactions⟩ := q
    subst hnone
    rfl
  exact Std.ExtTreeMap.ext_getElem? fun key => (hlookup ho key).trans (hlookup hp key).symm

/-- Any sequence of operations behaves as on a stack of whole-map snapshots, on the host and, under
a witness for the keys it uses, on the guest. -/
theorem nested_transactions_match_snapshots {L : HostTrie} {base : FullState L}
    {values : Bytes → Option Bytes} (hbase : ∀ key, base.get key = .ok (values key))
    {proof : List Bytes} {opened : ProofState L.toTrieLibrary}
    (hopened : ProofState.fromWitness base.root proof = .ok opened) (ops : List StateOp)
    (hcovers : ∀ key ∈ StateSnapshots.usedKeys ops (Snapshots.start values),
      L.get (L.intoMemoryDb proof) base.root key = .ok (values key))
    (hupdates : UpdatesSucceed L base proof
      (StateOp.performAll ops (StateTransaction.new base)).2.touched.toList
      (diffOfWrites (StateOp.performAll ops (StateTransaction.new base)).2.writes).changes) :
    let reference := StateOp.performAll ops (Snapshots.start values)
    let host := StateOp.performAll ops (StateTransaction.new base)
    let guest := StateOp.performAll ops opened
    host.1 = reference.1 ∧ guest.1 = reference.1 ∧
      ClosesIffOpen host.2 (reference.2.saved ≠ []) ∧
      ClosesIffOpen guest.2 (reference.2.saved ≠ []) ∧
      ((∃ error, host.2.finishWithProof = .error error) ↔ reference.2.saved ≠ []) ∧
      ((∃ error, guest.2.finish = .error error) ↔ reference.2.saved ≠ []) ∧
      (reference.2.saved = [] → ∃ diff next nodes root,
        host.2.finishWithProof = .ok (next, diff, nodes) ∧ guest.2.finish = .ok (root, diff) ∧
          ListsLastWrites diff reference.2) ∧
      ∀ key, key ∈ host.2.touched ↔ key ∈ StateSnapshots.usedKeys ops (Snapshots.start values) := by
  intro reference host guest
  obtain ⟨hhost, hfollows, htouched⟩ := StateTransaction.performAll_snapshots hbase ops
    (⟨rfl, .start⟩ : StateTransaction.FollowsSnapshots base values (.new base) (.start values))
  obtain ⟨hguest, hfollowsGuest⟩ := ProofState.performAll_snapshots ops
    (ProofState.followsSnapshots_fromWitness hopened) hcovers
  obtain ⟨o, hrep, hmatches⟩ := hfollowsGuest
  have hmatchesHost := hfollows.overlay
  rw [← hrep.overlay] at hmatches
  have hopenHost : host.2.transactions = [] ↔ reference.2.saved = [] :=
    hmatchesHost.transactions_eq_nil_iff
  have hopenGuest : guest.2.transactions = [] ↔ reference.2.saved = [] :=
    hmatches.transactions_eq_nil_iff
  -- with nothing open both hold the same writes, and the library applies them
  have hfinishHost : reference.2.saved = [] → ∃ next nodes,
      host.2.finishWithProof = .ok (next, diffOfWrites host.2.writes, nodes) := by
    intro hclosed
    refine StateTransaction.finishWithProof_closed (hopenHost.mpr hclosed) ?_ ?_
    · rw [hfollows.base]
      exact hupdates.record
    · rw [hfollows.base]
      exact hupdates.host
  have hfinishGuest : reference.2.saved = [] → ∃ root,
      guest.2.finish = .ok (root, diffOfWrites host.2.writes) := by
    intro hclosed
    have hsame : host.2.writes = guest.2.writes :=
      writes_eq_of_matches hmatchesHost hmatches hclosed
    rw [hsame]
    refine ProofState.finish_closed (hopenGuest.mpr hclosed) ?_
    rw [hrep.sameDb, hrep.sameRoot, ← hsame]
    exact hupdates.guest
  refine ⟨hhost, hguest, ?_, ?_, ?_, ?_, ?_, ?_⟩
  · exact closesIffOpen_of_perform (StateTransaction.perform_snapshots hbase hfollows _).1
      (StateTransaction.perform_snapshots hbase hfollows _).1
  · have hstep : ∀ op : StateOp, (∀ key, StateSnapshots.uses reference.2 op ≠ some key) →
        (op.perform guest.2).1 = (op.perform reference.2).1 := fun op hunused =>
      (ProofState.perform_snapshots ⟨o, hrep, hrep.overlay ▸ hmatches⟩
        fun key hkey => absurd hkey (hunused key)).1
    exact closesIffOpen_of_perform (hstep .commitTransaction fun _ => nofun)
      (hstep .rollbackTransaction fun _ => nofun)
  · refine ⟨?_, fun hopen => ⟨_, if_pos (mt hopenHost.mp hopen)⟩⟩
    rintro ⟨error, herror⟩ hclosed
    obtain ⟨next, nodes, hok⟩ := hfinishHost hclosed
    rw [hok] at herror
    cases herror
  · refine ⟨?_, fun hopen => ⟨_, if_pos (mt hopenGuest.mp hopen)⟩⟩
    rintro ⟨error, herror⟩ hclosed
    obtain ⟨root, hok⟩ := hfinishGuest hclosed
    rw [hok] at herror
    cases herror
  · intro hclosed
    obtain ⟨next, nodes, hhostOk⟩ := hfinishHost hclosed
    obtain ⟨root, hguestOk⟩ := hfinishGuest hclosed
    exact ⟨_, next, nodes, root, hhostOk, hguestOk,
      listsLastWrites_diffOfWrites hmatchesHost (hopenHost.mpr hclosed)⟩
  · intro key
    refine (htouched key).trans (or_iff_right ?_)
    exact Std.ExtTreeSet.not_mem_empty

/-! ### A run on the empty trie -/

/-- The library of tries with at most one key, as the host uses it. -/
def hostLeafTrie (blake2_256 : Bytes → StateRoot) : HostTrie where
  toTrieLibrary := leafTrie blake2_256
  emptyDb := []
  create db := ⟨db, emptyStateRootV1, .ok none⟩
  record db root keys := do
    let _ ← openLeaf blake2_256 db root
    pure (if keys = [] then [] else db.filter fun node => blake2_256 node = root)

/-- A write that is rolled back, and a deletion outside. -/
def undoneOps : List StateOp :=
  [.beginTransaction, .set [1, 0, 0] [7], .get [1, 0, 0], .rollbackTransaction, .delete [1, 0, 0],
    .get [1, 0, 0], .commitTransaction]

theorem nested_transactions_match_snapshots_undone :
    let L := hostLeafTrie (tableHash [])
    let host := StateOp.performAll undoneOps (StateTransaction.new (FullState.empty : FullState L))
    host.1 = [.ok .done, .ok .done, .ok (.value (some [7])), .ok .done, .ok .done,
      .ok (.value none), .error .backend] ∧
      ∃ diff next nodes, host.2.finishWithProof = .ok (next, diff, nodes) ∧
        ⟨[1, 0, 0], none⟩ ∈ diff.changes := by
  intro L host
  have hbase : ∀ key, (FullState.empty : FullState L).get key =
      .ok ((fun _ => none : Bytes → Option Bytes) key) := fun _ => rfl
  have hopened : ProofState.fromWitness (FullState.empty : FullState L).root [] =
      .ok (⟨Overlay.empty, [], emptyStateRootV1, ∅⟩ : ProofState L.toTrieLibrary) := rfl
  obtain ⟨hanswers, -, -, -, -, -, hfinish, -⟩ := nested_transactions_match_snapshots hbase hopened
    undoneOps (fun _ _ => rfl) ⟨⟨_, rfl⟩, ⟨_, rfl⟩, ⟨_, rfl⟩⟩
  obtain ⟨diff, next, nodes, root, hok, -, hlists⟩ := hfinish (by decide +kernel)
  refine ⟨hanswers.trans (by decide +kernel), diff, next, nodes, hok, (hlists.lists _ _).mpr ?_⟩
  decide +kernel

end JamScript
