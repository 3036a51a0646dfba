import JamScript.State.ProofState

/-!
# Tries with at most one key

A trie library that is small enough to compute with: it opens, reads and updates tries that hold at
most one key with a short value, and fails on everything else. On those tries it answers what
`sp_trie` answers for the state layout of the runtime, node for node: the empty trie is the hash of
the null node, and a trie with one key is the hash of its leaf node. It shows that what is assumed
of a trie library can be met, and it runs the concrete examples.
-/

namespace JamScript

open Codec

/-- A hash function given by a table of known values. -/
def tableHash (table : List (Bytes × StateRoot)) (bytes : Bytes) : StateRoot :=
  ((table.find? fun entry => entry.1 = bytes).map (·.2)).getD (List.Vector.replicate 32 0)

/-- A trie with at most one key. -/
abbrev LeafEntry := Option (Bytes × Bytes)

/-- The length header of a leaf with the given number of nibbles. -/
def leafHeader (nibbles : ℕ) : Bytes :=
  if nibbles ≤ 62 then [UInt8.ofNat (0x40 + nibbles)] else [0x7f, UInt8.ofNat (nibbles - 63)]

/-- The leaf node of a key with an inline value. -/
def leafNode (key value : Bytes) : Bytes :=
  leafHeader (2 * key.length) ++ key ++ [UInt8.ofNat (4 * value.length)] ++ value

/-- Keys and values whose leaf node has the inline form above. -/
def LeafFits (key value : Bytes) : Prop := key.length ≤ 127 ∧ value.length ≤ 32

instance (key value : Bytes) : Decidable (LeafFits key value) :=
  inferInstanceAs (Decidable (_ ∧ _))

/-- Split the body of a leaf node after its header. -/
def decodeLeafBody (nibbles : ℕ) (body : Bytes) : Option (Bytes × Bytes) :=
  match body.drop (nibbles / 2) with
  | [] => none
  | length :: value =>
    if nibbles % 2 = 0 ∧ length.toNat = 4 * value.length then some (body.take (nibbles / 2), value)
    else none

def decodeLeaf : Bytes → Option (Bytes × Bytes)
  | [] => none
  | [header] =>
  if 0x40 ≤ header ∧ header < 0x7f then decodeLeafBody (header.toNat - 0x40) [] else none
  | header :: next :: rest =>
    if 0x40 ≤ header ∧ header < 0x7f then decodeLeafBody (header.toNat - 0x40) (next :: rest)
    else if header = 0x7f then decodeLeafBody (next.toNat + 63) rest
    else none

/-- Open a trie: the empty one needs no node, any other one needs its leaf. -/
def openLeaf (blake2_256 : Bytes → StateRoot) (db : List Bytes) (root : StateRoot) :
    Except Unit LeafEntry :=
  if root = emptyStateRootV1 then .ok none
  else
    match db.find? fun node => blake2_256 node = root with
    | none => .error ()
    | some node =>
      match decodeLeaf node with
      | none => .error ()
      | some entry => .ok (some entry)

/-- An open trie: its database, its root before any change, and its entry. -/
structure LeafTrieMut where
  db : List Bytes
  root : StateRoot
  entry : Except Unit LeafEntry

/-- The library of tries with at most one key. -/
def leafTrie (blake2_256 : Bytes → StateRoot) : TrieLibrary where
  TrieError := Unit
  MemoryDB := List Bytes
  TrieDBMut := LeafTrieMut
  intoMemoryDb proof := proof
  get db root key := do
    match ← openLeaf blake2_256 db root with
    | none => pure none
    | some (present, value) => pure (if present = key then some value else none)
  fromExisting db root := ⟨db, root, openLeaf blake2_256 db root⟩
  insert key value trie := do
    match ← trie.entry with
    | none => do
      ensure (LeafFits key value) ()
      pure { trie with entry := .ok (some (key, value)) }
    | some (present, _) => do
      ensure (present = key ∧ LeafFits key value) ()
      pure { trie with entry := .ok (some (key, value)) }
  remove key trie := do
    match ← trie.entry with
    | none => pure trie
    | some (present, _) => pure (if present = key then { trie with entry := .ok none } else trie)
  commit trie :=
    match trie.entry with
    | .error _ => (trie.root, trie.db)
    | .ok none => (emptyStateRootV1, trie.db)
    | .ok (some (key, value)) => (blake2_256 (leafNode key value), leafNode key value :: trie.db)

/-- The root of the trie that maps `storeKey` to `[7]`. -/
def storedRoot : StateRoot :=
  ⟨[0xdf, 0xec, 0xc6, 0xe5, 0xe7, 0xbe, 0x24, 0xaf, 0x68, 0xdc, 0xcd, 0x4e, 0xfd, 0x43, 0xbd, 0x3d,
    0xe5, 0xcd, 0x47, 0xff, 0xa8, 0x8e, 0x3b, 0xa9, 0x69, 0xf0, 0xfc, 0xbb, 0x84, 0x39, 0xf8, 0xbb],
    rfl⟩

/-- The hash of the recovery payload that stores `[7]` under `storeKey`. -/
def storedCommitment : StateRoot :=
  ⟨[0x6a, 0xc2, 0xe4, 0xb7, 0x99, 0x6f, 0x7a, 0x69, 0x00, 0xad, 0xad, 0x51, 0x0c, 0xed, 0xf7, 0xe3,
    0x65, 0xa1, 0xa4, 0xeb, 0x51, 0x3a, 0xb8, 0xfb, 0x7f, 0x73, 0x2f, 0xaf, 0x32, 0xea, 0x2d, 0x19],
    rfl⟩

end JamScript
