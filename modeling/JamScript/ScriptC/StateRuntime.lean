import JamScript.Common.SortedTable
import JamScript.State.ProofState

/-!
# The state runtime of compiled scripts

`toolchains/scriptc/m2/runtime.ts`: the part of the TypeScript runtime that a compiled action sees
of its service's state. A state view arrives as bytes and is kept as a sorted array of entries;
writes go to a second sorted array, the overlay; both are searched by halving. A failing helper
records a pending outcome and throws.

`initializeStateView_ok_iff` says that the runtime accepts the views the Rust decoder accepts,
`Represents.observe` that one call does what it would do on a map of writes over the view,
`Represents.runCalls` that a whole sequence of calls does, and `Represents.decode_appliedResult`
that the result record carries the writes.
-/

namespace JamScript.ScriptC

open Codec

/-! ## The runtime's variables -/

/-- The kinds of result records; `applied` is also what the runtime has recorded while no outcome is
pending. -/
inductive ResultKind where
  | applied
  | abort
  | needState
  | fatal
  deriving DecidableEq, Repr

def ResultKind.toU8 : ResultKind → UInt8
  | .applied => 0
  | .abort => 1
  | .needState => 2
  | .fatal => 3

def stateDiffVersion : UInt8 := 1
def maxKeyBytes : ℕ := 4096
def maxValueBytes : ℕ := 65536
def maxEntries : ℕ := 4096
def maxViewBytes : ℕ := 1048576
def maxAbortCode : ℕ := 0x00ffffff
def fatalUncaught : ℕ := 0x80000001
def fatalInvalidView : ℕ := 0x80000002

/-- An entry has the fields of the Rust record; `null` is `none`. -/
abbrev StateEntry := StateViewEntryV1

/-- The module-level variables of the runtime. -/
structure StateRuntime where
  baseEntries : List StateEntry
  overlayEntries : List StateEntry
  pendingKind : ResultKind
  pendingCode : ℕ
  pendingKey : Bytes
  deriving DecidableEq

/-- The message of a thrown `Error`. -/
abbrev Thrown := String

/-- A function of the runtime: it returns or throws, and what it has assigned stays assigned. -/
abbrev ScriptCall (α : Type) := StateRuntime → Except Thrown α × StateRuntime

section Failures

variable {α : Type}

def failStateView : ScriptCall α := fun runtime =>
  (.error "jamscript state view failure",
    { runtime with pendingKind := .fatal, pendingCode := fatalInvalidView })

def failNumeric (code : ℕ) : ScriptCall α := fun runtime =>
  (.error "jamscript numeric failure", { runtime with pendingKind := .fatal, pendingCode := code })

def needState (key : Bytes) : ScriptCall α := fun runtime =>
  (.error "jamscript state dependency",
    { runtime with pendingKind := .needState, pendingKey := key })

end Failures

/-! ## Bytes -/

def compareBytes : Bytes → Bytes → Ordering
  | [], [] => .eq
  | [], _ :: _ => .lt
  | _ :: _, [] => .gt
  | left :: lefts, right :: rights =>
    if left < right then .lt
    else if left > right then .gt
    else compareBytes lefts rights

/-- `input[index]`. -/
def byteAt (input : Bytes) (index : ℕ) : ℕ := (input.getD index 0).toNat

/-- `none` stands for the call of `failStateView`. -/
def readU32 (input : Bytes) (offset : ℕ) : Option ℕ :=
  if offset + 4 > input.length then none
  else some (byteAt input offset + byteAt input (offset + 1) * 256 +
    byteAt input (offset + 2) * 65536 + byteAt input (offset + 3) * 16777216)

def readBytes (maximum : ℕ) : CursorReader Bytes := fun input offset => do
  let length ← readU32 input offset
  let start := offset + 4
  if length > maximum ∨ start + length > input.length then none
  else some ((input.drop start).take length, start + length)

/-! ## Views -/

/-- The presence byte of an entry and its value. -/
def readValue : CursorReader (Option Bytes) := fun input offset =>
  if offset ≥ input.length then none
  else if byteAt input offset = 1 then do
    let (value, offset) ← readBytes maxValueBytes input (offset + 1)
    some (some value, offset)
  else if byteAt input offset = 0 then some (none, offset + 1)
  else none

/-- The body of the loop over the entries of a view. -/
def readEntry (previous : Option Bytes) : CursorReader StateEntry := fun input offset => do
  let (key, offset) ← readBytes maxKeyBytes input offset
  if previous.any fun previous => compareBytes previous key ≠ .lt then none
  else do
    let (value, offset) ← readValue input offset
    some (⟨key, value⟩, offset)

def readEntries : ℕ → Option Bytes → CursorReader (List StateEntry)
  | 0, _, _, offset => some ([], offset)
  | count + 1, previous, input, offset => do
    let (entry, offset) ← readEntry previous input offset
    let (entries, offset) ← readEntries count (some entry.key) input offset
    some (entry :: entries, offset)

/-- The entries of a view, up to the last check of `initializeStateView`. -/
def readView (input : Bytes) : Option (List StateEntry) :=
  if input.length > maxViewBytes ∨ input.length < 5 ∨
    byteAt input 0 ≠ stateViewVersion.toNat then none
  else do
    let count ← readU32 input 1
    if count > maxEntries then none
    else do
      let (entries, offset) ← readEntries count none input 5
      if offset ≠ input.length then none else some entries

def initializeStateView (input : Bytes) : ScriptCall Unit := fun runtime =>
  let reset := { runtime with pendingKind := .applied, pendingCode := 0, pendingKey := [] }
  match readView input with
  | none => failStateView reset
  | some entries => (.ok (), { reset with baseEntries := entries, overlayEntries := [] })

/-! ## State access -/

/-- The binary search of `find`. -/
def find (entries : List StateEntry) (key : Bytes) : ℕ :=
  SortedTable.lowerBound (fun entry => compareBytes entry.key key = .lt) entries

/-- The entry at the position found, when it has the key. -/
def knownEntry (entries : List StateEntry) (key : Bytes) : Option StateEntry :=
  entries[find entries key]?.filter fun entry => compareBytes entry.key key = .eq

def knownBase (runtime : StateRuntime) (key : Bytes) : Bool :=
  (knownEntry runtime.baseEntries key).isSome

def stateGetRaw (key : Bytes) : ScriptCall (Option Bytes) := fun runtime =>
  match knownEntry runtime.overlayEntries key with
  | some entry => (.ok entry.value, runtime)
  | none =>
    match knownEntry runtime.baseEntries key with
    | some entry => (.ok entry.value, runtime)
    | none => needState key runtime

def writeOverlay (key : Bytes) (value : Option Bytes) : ScriptCall Unit := fun runtime =>
  if key.length > maxKeyBytes ∨ value.any (·.length > maxValueBytes) then failStateView runtime
  else
    let index := find runtime.overlayEntries key
    let entries :=
      if runtime.overlayEntries[index]?.any fun entry => compareBytes entry.key key = .eq then
        runtime.overlayEntries.set index ⟨key, value⟩
      else runtime.overlayEntries.take index ++ ⟨key, value⟩ :: runtime.overlayEntries.drop index
    (.ok (), { runtime with overlayEntries := entries })

/-- The lines that `stateSetRaw` and `stateDeleteRaw` share: only a known key is written. -/
def writeKnown (key : Bytes) (value : Option Bytes) : ScriptCall Unit := fun runtime =>
  if (knownEntry runtime.overlayEntries key).isNone ∧
    ¬ knownBase runtime key then needState key runtime
  else writeOverlay key value runtime

def stateSetRaw (key value : Bytes) : ScriptCall Unit := writeKnown key (some value)

def stateDeleteRaw (key : Bytes) : ScriptCall Unit := writeKnown key none

def stateHasRaw (key : Bytes) : ScriptCall Bool := fun runtime =>
  match stateGetRaw key runtime with
  | (.ok value, runtime) => (.ok value.isSome, runtime)
  | (.error error, runtime) => (.error error, runtime)

def applicationKeyV1 (namespaceBytes canonicalKey : Bytes) : ScriptCall Bytes := fun runtime =>
  if namespaceBytes.length > 65535 then failStateView runtime
  else (.ok ([1] ++ toLe 2 namespaceBytes.length ++ namespaceBytes ++ canonicalKey), runtime)

/-- A number as `abort` looks at it: an integer, or something else. -/
inductive ScriptNumber where
  | integer (value : ℤ)
  | other
  deriving DecidableEq

def abort {α : Type} (code : ScriptNumber) : ScriptCall α := fun runtime =>
  match code with
  | .integer value =>
    if value < 1 ∨ value > maxAbortCode then failStateView runtime
    else (.error "jamscript application abort",
      { runtime with pendingKind := .abort, pendingCode := value.toNat })
  | .other => failStateView runtime

/-! ## Results -/

def encodeCode (kind : ResultKind) (code : ℕ) : Bytes :=
  [scriptActionResultVersion, kind.toU8] ++ toLe 4 code

def encodeNeedState (key : Bytes) : Bytes :=
  [scriptActionResultVersion, ResultKind.needState.toU8] ++ toLe 4 key.length ++ key

/-- One round of the loop of `encodeApplied`. -/
def encodeEntry (entry : StateEntry) : Bytes :=
  toLe 4 entry.key.length ++ entry.key ++
    match entry.value with
    | none => [0]
    | some value => [1] ++ toLe 4 value.length ++ value

def encodeApplied (runtime : StateRuntime) : Bytes :=
  let diff := [stateDiffVersion] ++ toLe 4 runtime.overlayEntries.length ++
    runtime.overlayEntries.flatMap encodeEntry
  [scriptActionResultVersion, ResultKind.applied.toU8] ++ toLe 4 diff.length ++ diff

def appliedResult (runtime : StateRuntime) : Bytes := encodeApplied runtime

def caughtResult (runtime : StateRuntime) : Bytes :=
  match runtime.pendingKind with
  | .needState => encodeNeedState runtime.pendingKey
  | .abort => encodeCode .abort runtime.pendingCode
  | .fatal => encodeCode .fatal runtime.pendingCode
  | .applied => encodeCode .fatal fatalUncaught

/-! ## The search -/

@[simp]
theorem compareBytes_eq (left right : Bytes) : compareBytes left right = compare left right := by
  induction left generalizing right with
  | nil => cases right <;> rfl
  | cons a left ih =>
    cases right with
    | nil => rfl
    | cons b right =>
      rw [compareBytes, ih, List.compare_cons_cons]
      by_cases hlt : a < b
      · have hcmp : compare a b = .lt := if_pos hlt
        rw [if_pos hlt, hcmp]
        rfl
      · rw [if_neg hlt]
        by_cases hgt : a > b
        · have hba : compare b a = .lt := if_pos hgt
          have hcmp : compare a b = .gt := Std.OrientedCmp.gt_of_lt hba
          rw [if_pos hgt, hcmp]
          rfl
        · have hab : a = b := by
            apply UInt8.le_antisymm
            · exact UInt8.not_lt.mp hgt
            · exact UInt8.not_lt.mp hlt
          subst hab
          have hcmp : compare a a = .eq := Std.ReflCmp.compare_self
          rw [if_neg hgt, hcmp]
          rfl

theorem find_eq (entries : List StateEntry) (key : Bytes) :
    find entries key = SortedTable.position StateViewEntryV1.key entries key := by
  unfold find SortedTable.position
  simp only [compareBytes_eq]

theorem knownEntry_eq {entries : List StateEntry}
    (h : SortedTable.Sorted StateViewEntryV1.key entries) (key : Bytes) : knownEntry entries key =
      SortedTable.lookup StateViewEntryV1.key entries key := by
  unfold knownEntry
  rw [find_eq]
  simp only [compareBytes_eq]
  exact h.filter_position key

/-- Within the limits a write is an update of the overlay. -/
theorem writeOverlay_eq {runtime : StateRuntime} {key : Bytes} {value : Option Bytes}
    (hkey : key.length ≤ maxKeyBytes) (hvalue : ∀ bytes ∈ value, bytes.length ≤ maxValueBytes) :
    writeOverlay key value runtime = (.ok (),
      { runtime with
        overlayEntries :=
  SortedTable.upsert StateViewEntryV1.key runtime.overlayEntries ⟨key, value⟩ }) := by
  have hlimits : ¬ (key.length > maxKeyBytes ∨ value.any (·.length > maxValueBytes)) := by
    rw [not_or]
    refine ⟨by omega, ?_⟩
    cases value with
    | none => simp
    | some bytes => simpa using hvalue bytes rfl
  unfold writeOverlay SortedTable.upsert
  rw [if_neg hlimits, find_eq]
  simp only [compareBytes_eq]

/-! ## Reading a view -/

theorem ofLe_take_four (bytes : Bytes) (h : 4 ≤ bytes.length) :
    ofLe (bytes.take 4) = byteAt bytes 0 + byteAt bytes 1 * 256 + byteAt bytes 2 * 65536 +
      byteAt bytes 3 * 16777216 := by
  match bytes, h with
  | a :: b :: c :: d :: rest, _ =>
    simp only [List.take_succ_cons, List.take_zero, ofLe, byteAt, List.getD_cons_zero,
      List.getD_cons_succ]
    omega

theorem byteAt_drop (input : Bytes) (offset index : ℕ) :
    byteAt (input.drop offset) index = byteAt input (offset + index) := by
  simp [byteAt, List.getD_eq_getElem?_getD, List.getElem?_drop]

theorem readU32_eq_some {input : Bytes} {offset n : ℕ} :
    readU32 input offset = some n ↔
      offset + 4 ≤ input.length ∧ n = ofLe ((input.drop offset).take 4) := by
  unfold readU32
  split
  next h => simp only [reduceCtorEq, false_iff, not_and]; omega
  next h =>
    have hfour : 4 ≤ (input.drop offset).length := by
      rw [List.length_drop]
      omega
    have hvalue := ofLe_take_four _ hfour
    simp only [byteAt_drop, Nat.add_zero] at hvalue
    rw [hvalue, Option.some.injEq]
    constructor
    · rintro rfl
      exact ⟨by omega, rfl⟩
    · exact fun h => h.2.symm

theorem readBytes_eq_some {maximum : ℕ} {input value : Bytes} {offset next : ℕ} :
    readBytes maximum input offset = some (value, next) ↔
      let length := ofLe ((input.drop offset).take 4)
      length ≤ maximum ∧ offset + 4 + length ≤ input.length ∧
        value = (input.drop (offset + 4)).take length ∧ next = offset + 4 + length := by
  unfold readBytes
  rw [Option.bind_eq_bind, Option.bind_eq_some_iff]
  constructor
  · rintro ⟨n, hn, h⟩
    obtain ⟨hfour, rfl⟩ := readU32_eq_some.mp hn
    dsimp only at h
    split at h
    · cases h
    · cases h
      exact ⟨by omega, by omega, rfl, rfl⟩
  · rintro ⟨hmax, hlong, rfl, rfl⟩
    refine ⟨_, readU32_eq_some.mpr ⟨by omega, rfl⟩, ?_⟩
    dsimp only
    rw [if_neg (by omega)]

theorem follows_readBytes (maximum : ℕ) :
    Follows (readBytes maximum) (Reader.bytesLimited maximum) := by
  constructor
  · intro input offset next a hoffset hread
    obtain ⟨hmax, hlong, rfl, rfl⟩ := readBytes_eq_some.mp hread
    refine ⟨hlong, Reader.bytesLimited_eq_ok.mpr ⟨hmax, ?_, ?_, ?_⟩⟩
    · rw [List.length_drop]
      omega
    · rw [List.drop_drop]
    · rw [List.drop_drop, Nat.add_assoc]
  · intro input rest offset a hoffset hp
    obtain ⟨hmax, hlong, rfl, rfl⟩ := Reader.bytesLimited_eq_ok.mp hp
    rw [List.length_drop] at hlong
    refine ⟨_, readBytes_eq_some.mpr ⟨hmax, by omega, ?_, rfl⟩, by omega, ?_⟩
    · rw [List.drop_drop]
    · rw [List.drop_drop, Nat.add_assoc]

theorem drop_eq_byteAt_cons {input : Bytes} {offset : ℕ} (h : offset < input.length) :
    input.drop offset = UInt8.ofNat (byteAt input offset) :: input.drop (offset + 1) := by
  rw [List.drop_eq_getElem_cons h]
  congr 1
  rw [byteAt, List.getD_eq_getElem _ _ h, UInt8.ofNat_toNat]

theorem follows_readValue : Follows readValue (readOptionalValue maxValueBytes) := by
  constructor
  · intro input offset next value hoffset hread
    unfold readValue at hread
    split at hread
    · cases hread
    next hlong =>
      have hdrop := drop_eq_byteAt_cons (Nat.lt_of_not_ge hlong)
      have hflag := Reader.u8_eq_ok.mpr hdrop
      split at hread
      next hpresent =>
        obtain ⟨⟨bytes, next'⟩, hbytes, hread⟩ := Option.bind_eq_some_iff.mp hread
        cases hread
        obtain ⟨hnext, hbytes⟩ := (follows_readBytes maxValueBytes).sound (by omega) hbytes
        rw [hpresent] at hflag
        exact ⟨hnext, Parser.bind_eq_ok.mpr ⟨_, _, hflag, Parser.bind_eq_ok.mpr
          ⟨_, _, hbytes, rfl⟩⟩⟩
      next =>
        split at hread
        next habsent =>
          cases hread
          rw [habsent] at hflag
          exact ⟨by omega, Parser.bind_eq_ok.mpr ⟨_, _, hflag, rfl⟩⟩
        next => cases hread
  · intro input rest offset value hoffset hp
    obtain ⟨flag, middle, hflag, hp⟩ := Parser.bind_eq_ok.mp hp
    rw [Reader.u8_eq_ok] at hflag
    have hlong : offset < input.length := by
      by_contra hshort
      rw [List.drop_eq_nil_of_le (Nat.le_of_not_lt hshort)] at hflag
      cases hflag
    rw [drop_eq_byteAt_cons hlong] at hflag
    obtain ⟨hbyte, rfl⟩ := List.cons.inj hflag
    rw [byteAt, UInt8.ofNat_toNat] at hbyte
    have hnat : byteAt input offset = flag.toNat := congrArg UInt8.toNat hbyte
    unfold readValue
    rw [if_neg (by omega), hnat]
    split at hp
    · obtain ⟨rfl, rfl⟩ := Parser.pure_eq_ok.mp hp
      exact ⟨offset + 1, rfl, by omega, rfl⟩
    · obtain ⟨bytes, _, hbytes, hp⟩ := Parser.bind_eq_ok.mp hp
      obtain ⟨rfl, rfl⟩ := Parser.pure_eq_ok.mp hp
      obtain ⟨next, hread, hnext, rfl⟩ :=
      (follows_readBytes maxValueBytes).complete (by omega) hbytes
      refine ⟨next, ?_, hnext, rfl⟩
      rw [if_pos (by rfl), hread]
      rfl
    · cases hp

/-- One round of the loop: the key, its order, the value. -/
theorem readEntry_eq_some {previous : Option Bytes} {input : Bytes} {offset next : ℕ}
    {entry : StateEntry} :
    readEntry previous input offset = some (entry, next) ↔
      ∃ middle, readBytes maxKeyBytes input offset = some (entry.key, middle) ∧
        (∀ before ∈ previous, compare before entry.key = .lt) ∧
        readValue input middle = some (entry.value, next) := by
  unfold readEntry
  rw [Option.bind_eq_bind, Option.bind_eq_some_iff]
  constructor
  · rintro ⟨⟨key, middle⟩, hkey, h⟩
    dsimp only at h
    split at h
    · cases h
    next horder =>
      obtain ⟨⟨value, next'⟩, hvalue, h⟩ := Option.bind_eq_some_iff.mp h
      cases h
      refine ⟨middle, hkey, fun before hbefore => ?_, hvalue⟩
      rw [hbefore] at horder
      simpa using horder
  · rintro ⟨middle, hkey, horder, hvalue⟩
    refine ⟨_, hkey, ?_⟩
    dsimp only
    rw [if_neg, hvalue]
    · rfl
    · cases previous with
      | none => simp
      | some before => simpa using horder before rfl

/-- The keys follow the previous one in strictly increasing order. -/
def Ascends (previous : Option Bytes) (entries : List StateEntry) : Prop :=
  List.IsChain (fun left right => compare left right = .lt)
    (previous.toList ++ entries.map (·.key))

theorem ascends_cons {previous : Option Bytes} {entry : StateEntry} {entries : List StateEntry} :
    Ascends previous (entry :: entries) ↔
      (∀ before ∈ previous, compare before entry.key = .lt) ∧ Ascends (some entry.key) entries := by
  cases previous with
  | none => simp [Ascends]
  | some before => simp [Ascends, List.isChain_cons_cons]

/-- The loop reads what the Rust decoder reads, and checks the order on the way. -/
theorem readEntries_sound {count : ℕ} {previous : Option Bytes} {input : Bytes} {offset next : ℕ}
    {entries : List StateEntry} (hoffset : offset ≤ input.length)
    (h : readEntries count previous input offset = some (entries, next)) :
    (next ≤ input.length ∧ Parser.many StateViewV1.readEntry count (input.drop offset) =
      .ok (entries, input.drop next)) ∧ Ascends previous entries := by
  induction count generalizing previous offset entries with
  | zero =>
    cases h
    refine ⟨⟨hoffset, rfl⟩, ?_⟩
    cases previous <;> simp [Ascends]
  | succ count ih =>
    obtain ⟨⟨entry, middle⟩, hentry, h⟩ := Option.bind_eq_some_iff.mp h
    obtain ⟨⟨rest, next'⟩, hrest, h⟩ := Option.bind_eq_some_iff.mp h
    cases h
    obtain ⟨afterKey, hkey, horder, hvalue⟩ := readEntry_eq_some.mp hentry
    obtain ⟨hafterKey, hkey⟩ := (follows_readBytes maxKeyBytes).sound hoffset hkey
    obtain ⟨hmiddle, hvalue⟩ := follows_readValue.sound hafterKey hvalue
    obtain ⟨⟨hnext, hmany⟩, hascends⟩ := ih hmiddle hrest
    refine ⟨⟨hnext, ?_⟩, ascends_cons.mpr ⟨horder, hascends⟩⟩
    have hread : StateViewV1.readEntry (input.drop offset) = .ok (entry, input.drop middle) :=
      Parser.bind_eq_ok.mpr ⟨_, _, hkey, Parser.bind_eq_ok.mpr ⟨_, _, hvalue, rfl⟩⟩
    exact Parser.bind_eq_ok.mpr ⟨_, _, hread, Parser.bind_eq_ok.mpr ⟨_, _, hmany, rfl⟩⟩

theorem readEntries_complete {count : ℕ} {previous : Option Bytes} {input rest : Bytes} {offset : ℕ}
    {entries : List StateEntry} (hoffset : offset ≤ input.length)
    (h : Parser.many StateViewV1.readEntry count (input.drop offset) = .ok (entries, rest))
    (hascends : Ascends previous entries) :
    ∃ next, readEntries count previous input offset = some (entries, next) ∧ next ≤ input.length ∧
      rest = input.drop next := by
  induction count generalizing previous offset entries with
  | zero =>
    obtain ⟨rfl, rfl⟩ := Parser.pure_eq_ok.mp h
    exact ⟨offset, rfl, hoffset, rfl⟩
  | succ count ih =>
    obtain ⟨entry, afterEntry, hentry, h⟩ := Parser.bind_eq_ok.mp h
    obtain ⟨tail, _, htail, h⟩ := Parser.bind_eq_ok.mp h
    obtain ⟨rfl, rfl⟩ := Parser.pure_eq_ok.mp h
    obtain ⟨key, _, hkey, hentry⟩ := Parser.bind_eq_ok.mp hentry
    obtain ⟨value, _, hvalue, hentry⟩ := Parser.bind_eq_ok.mp hentry
    obtain ⟨rfl, rfl⟩ := Parser.pure_eq_ok.mp hentry
    obtain ⟨horder, hascends⟩ := ascends_cons.mp hascends
    obtain ⟨afterKey, hkeyRead, hafterKey, rfl⟩ :=
      (follows_readBytes maxKeyBytes).complete hoffset hkey
    obtain ⟨middle, hvalueRead, hmiddle, rfl⟩ := follows_readValue.complete hafterKey hvalue
    obtain ⟨next, hrest, hnext, rfl⟩ := ih hmiddle htail hascends
    refine ⟨next, ?_, hnext, rfl⟩
    have hread : readEntry previous input offset = some (⟨key, value⟩, middle) :=
      readEntry_eq_some.mpr ⟨afterKey, hkeyRead, horder, hvalueRead⟩
    exact Option.bind_eq_some_iff.mpr ⟨_, hread, Option.bind_eq_some_iff.mpr ⟨_, hrest, rfl⟩⟩

theorem pairwise_of_ascends {entries : List StateEntry} :
    Ascends none entries ↔
      (entries.map (·.key)).Pairwise fun left right => compare left right = .lt := by
  have htrans : IsTrans Bytes fun left right => compare left right = .lt :=
    ⟨fun _ _ _ => Std.TransCmp.lt_trans⟩
  exact List.isChain_iff_pairwise

/-- The runtime reads a view exactly when the Rust decoder does, with the same entries. -/
theorem readView_eq_some {input : Bytes} {entries : List StateEntry} :
    readView input = some entries ↔
      StateViewV1.decode input = .ok ⟨stateViewVersion, entries⟩ := by
  rw [StateViewV1.decode_eq_ok]
  unfold readView
  constructor
  · intro h
    split at h
    · cases h
    next hheader =>
      simp only [not_or, not_not, not_lt] at hheader
      obtain ⟨hlength, hfive, hversion⟩ := hheader
      obtain ⟨count, hcount, h⟩ := Option.bind_eq_some_iff.mp h
      obtain ⟨-, rfl⟩ := readU32_eq_some.mp hcount
      split at h
      · cases h
      next hmax =>
        obtain ⟨⟨found, offset⟩, hentries, h⟩ := Option.bind_eq_some_iff.mp h
        dsimp only at h
        split at h
        · cases h
        next hend =>
          cases h
          rw [not_not] at hend
          obtain ⟨⟨-, hmany⟩, hascends⟩ := readEntries_sound (by omega) hentries
          have hcons := drop_eq_byteAt_cons (show 0 < input.length by omega)
          rw [List.drop_zero, hversion, UInt8.ofNat_toNat] at hcons
          refine ⟨hlength, rfl, input.drop 1, hcons, ?_, Nat.le_of_not_lt hmax, ?_,
            pairwise_of_ascends.mp hascends⟩
          · rw [List.length_drop]
            omega
          · rw [List.drop_drop, hmany, hend, List.drop_length]
  · rintro ⟨hlength, -, rest, rfl, hfour, hmax, hmany, horder⟩
    have hheader : ¬ ((stateViewVersion :: rest).length > maxViewBytes ∨
        (stateViewVersion :: rest).length < 5 ∨
        byteAt (stateViewVersion :: rest) 0 ≠ stateViewVersion.toNat) := by
      simp only [not_or, not_lt, List.length_cons, not_not]
      exact ⟨hlength, by omega, rfl⟩
    have hfive : 5 ≤ (stateViewVersion :: rest).length := by
      rw [List.length_cons]
      omega
    have hmany' : Parser.many StateViewV1.readEntry (ofLe (rest.take 4))
        ((stateViewVersion :: rest).drop 5) = .ok (entries, []) := hmany
    obtain ⟨next, hentries, hnext, hrest⟩ :=
      readEntries_complete hfive hmany' (pairwise_of_ascends.mpr horder)
    have hend : next = (stateViewVersion :: rest).length :=
      Nat.le_antisymm hnext (List.drop_eq_nil_iff.mp hrest.symm)
    rw [if_neg hheader]
    refine Option.bind_eq_some_iff.mpr ⟨_, readU32_eq_some.mpr ⟨hfive, rfl⟩, ?_⟩
    have hcount : ¬ ofLe (((stateViewVersion :: rest).drop 1).take 4) > maxEntries :=
      Nat.not_lt.mpr hmax
    rw [if_neg hcount]
    refine Option.bind_eq_some_iff.mpr ⟨_, hentries, ?_⟩
    dsimp only
    rw [if_neg (not_not.mpr hend)]

/-- The runtime accepts exactly the views that the Rust decoder accepts. -/
theorem initializeStateView_ok_iff {input : Bytes} {runtime : StateRuntime} :
    (∃ after, initializeStateView input runtime = (.ok (), after)) ↔
      ∃ view, StateViewV1.decode input = .ok view := by
  unfold initializeStateView
  constructor
  · rintro ⟨after, h⟩
    cases hread : readView input with
    | none =>
      rw [hread] at h
      cases h
    | some entries => exact ⟨_, readView_eq_some.mp hread⟩
  · rintro ⟨⟨version, entries⟩, hview⟩
    obtain rfl : version = stateViewVersion := (StateViewV1.decode_eq_ok.mp hview).2.1
    rw [readView_eq_some.mpr hview]
    exact ⟨_, rfl⟩

/-! ## Calls on a map

What a script can ask of its state, and what the answers would be on a plain map that is laid over
the view.
-/

inductive StateCall where
  | get (key : Bytes)
  | has (key : Bytes)
  | set (key value : Bytes)
  | delete (key : Bytes)
  deriving DecidableEq, Repr

inductive StateAnswer where
  | value (value : Option Bytes)
  | flag (present : Bool)
  | done
  deriving DecidableEq, Repr

/-- What an action that throws reports. -/
inductive PendingOutcome where
  | needState (key : Bytes)
  | abort (code : ℕ)
  | fatal (code : ℕ)
  deriving DecidableEq, Repr

/-- The outcome `caughtResult` encodes. -/
def StateRuntime.outcome (runtime : StateRuntime) : PendingOutcome :=
  match runtime.pendingKind with
  | .needState => .needState runtime.pendingKey
  | .abort => .abort runtime.pendingCode
  | .fatal => .fatal runtime.pendingCode
  | .applied => .fatal fatalUncaught

def ScriptCall.map {α β : Type} (f : α → β) (call : ScriptCall α) : ScriptCall β := fun runtime =>
  ((call runtime).1.map f, (call runtime).2)

namespace StateCall

def key : StateCall → Bytes
  | .get key | .has key | .set key _ | .delete key => key

def run : StateCall → ScriptCall StateAnswer
  | .get key => (stateGetRaw key).map .value
  | .has key => (stateHasRaw key).map .flag
  | .set key value => (stateSetRaw key value).map fun _ => .done
  | .delete key => (stateDeleteRaw key).map fun _ => .done

/-- A call together with the outcome it leaves pending when it throws. -/
def observe (call : StateCall) (runtime : StateRuntime) :
    Except PendingOutcome StateAnswer × StateRuntime :=
  match call.run runtime with
  | (.ok answer, runtime) => (.ok answer, runtime)
  | (.error _, runtime) => (.error runtime.outcome, runtime)

end StateCall

/-- Calls one after another; a script may catch what a call throws and go on. -/
def runCalls : List StateCall → StateRuntime →
    List (Except PendingOutcome StateAnswer) × StateRuntime
  | [], runtime => ([], runtime)
  | call :: calls, runtime =>
    ((call.observe runtime).1 :: (runCalls calls (call.observe runtime).2).1,
      (runCalls calls (call.observe runtime).2).2)

/-- A map of writes over the known keys of a view. -/
structure MapOverlay where
  view : Bytes → Option (Option Bytes)
  writes : WriteSet Bytes (Option Bytes)

namespace MapOverlay

/-- The value of a key, `none` when neither the writes nor the view know the key. -/
def current (map : MapOverlay) (key : Bytes) : Option (Option Bytes) :=
  map.writes[key]?.or (map.view key)

def write (map : MapOverlay) (key : Bytes) (value : Option Bytes) : MapOverlay :=
  { map with writes := map.writes.insert key value }

/-- A call on a known key; a value that is too long is refused. -/
def answer (map : MapOverlay) (value : Option Bytes) :
    StateCall → Except PendingOutcome StateAnswer × MapOverlay
  | .get _ => (.ok (.value value), map)
  | .has _ => (.ok (.flag value.isSome), map)
  | .set key bytes =>
    if bytes.length ≤ maxValueBytes then (.ok .done, map.write key (some bytes))
    else (.error (.fatal fatalInvalidView), map)
  | .delete key => (.ok .done, map.write key none)

def step (map : MapOverlay) (call : StateCall) : Except PendingOutcome StateAnswer × MapOverlay :=
  match map.current call.key with
  | some value => map.answer value call
  | none => (.error (.needState call.key), map)

def run (map : MapOverlay) : List StateCall → List (Except PendingOutcome StateAnswer) × MapOverlay
  | [] => ([], map)
  | call :: calls =>
    ((map.step call).1 :: ((map.step call).2.run calls).1, ((map.step call).2.run calls).2)

end MapOverlay

/-! ## The runtime refines the map -/

open SortedTable in
/-- The two arrays stand for the view and the writes, within the limits of the runtime. -/
structure Represents (runtime : StateRuntime) (map : MapOverlay) : Prop where
  baseSorted : Sorted StateViewEntryV1.key runtime.baseEntries
  overlaySorted : Sorted StateViewEntryV1.key runtime.overlayEntries
  view : ∀ key, map.view key = (lookup StateViewEntryV1.key runtime.baseEntries key).map (·.value)
  writes : ∀ key,
    map.writes[key]? = (lookup StateViewEntryV1.key runtime.overlayEntries key).map (·.value)
  count : runtime.baseEntries.length ≤ maxEntries
  keys : ∀ entry ∈ runtime.baseEntries, entry.key.length ≤ maxKeyBytes
  values : ∀ entry ∈ runtime.overlayEntries, ∀ value ∈ entry.value, value.length ≤ maxValueBytes
  known : ∀ entry ∈ runtime.overlayEntries, entry.key ∈ runtime.baseEntries.map (·.key)

namespace Represents

variable {runtime : StateRuntime} {map : MapOverlay}

/-- A key is known to the map exactly when the runtime finds it in one of its arrays. -/
theorem current_eq (h : Represents runtime map) (key : Bytes) :
    map.current key = ((knownEntry runtime.overlayEntries key).or
      (knownEntry runtime.baseEntries key)).map (·.value) := by
  rw [knownEntry_eq h.overlaySorted, knownEntry_eq h.baseSorted, MapOverlay.current,
    h.writes, h.view]
  cases SortedTable.lookup StateViewEntryV1.key runtime.overlayEntries key <;> rfl

theorem stateGetRaw_eq (h : Represents runtime map) (key : Bytes) :
    stateGetRaw key runtime =
      match map.current key with
      | some value => (.ok value, runtime)
      | none => needState key runtime := by
  rw [h.current_eq]
  unfold stateGetRaw
  cases knownEntry runtime.overlayEntries key with
  | some entry => rfl
  | none => cases knownEntry runtime.baseEntries key <;> rfl

/-- The keys the runtime knows are those of the view. -/
theorem mem_keys (h : Represents runtime map) {key : Bytes} (hkey : map.current key ≠ none) :
    key ∈ runtime.baseEntries.map (·.key) := by
  rw [MapOverlay.current, h.writes, h.view] at hkey
  cases hoverlay : SortedTable.lookup StateViewEntryV1.key runtime.overlayEntries key with
  | some entry =>
    obtain ⟨hentry, rfl⟩ := SortedTable.of_lookup_eq_some hoverlay
    exact h.known entry hentry
  | none =>
    cases hbase : SortedTable.lookup StateViewEntryV1.key runtime.baseEntries key with
    | some entry =>
      obtain ⟨hentry, rfl⟩ := SortedTable.of_lookup_eq_some hbase
      exact List.mem_map_of_mem hentry
    | none =>
      rw [hoverlay, hbase] at hkey
      exact absurd rfl hkey

theorem writeKnown_none (h : Represents runtime map) {key : Bytes} (hkey : map.current key = none)
    (value : Option Bytes) : writeKnown key value runtime = needState key runtime := by
  rw [h.current_eq, Option.map_eq_none_iff, Option.or_eq_none_iff] at hkey
  unfold writeKnown knownBase
  rw [hkey.1, hkey.2]
  rfl

theorem writeKnown_known (h : Represents runtime map) {key : Bytes} (hkey : map.current key ≠ none)
    (value : Option Bytes) : writeKnown key value runtime = writeOverlay key value runtime := by
  unfold writeKnown knownBase
  rw [if_neg]
  rintro ⟨hoverlay, hbase⟩
  rw [h.current_eq, Option.isNone_iff_eq_none.mp hoverlay] at hkey
  simp at hbase
  rw [hbase] at hkey
  exact hkey rfl

/-- A write within the limits keeps the relation. -/
theorem write (h : Represents runtime map) {key : Bytes} (hkey : map.current key ≠ none)
    {value : Option Bytes} (hvalue : ∀ bytes ∈ value, bytes.length ≤ maxValueBytes) :
    ∃ after, writeOverlay key value runtime = (.ok (), after) ∧
      Represents after (map.write key value) := by
  have hmem := h.mem_keys hkey
  obtain ⟨known, hknown, rfl⟩ := List.mem_map.mp hmem
  refine ⟨_, writeOverlay_eq (h.keys known hknown) hvalue, ?_⟩
  have hentries : ∀ entry ∈ SortedTable.upsert StateViewEntryV1.key runtime.overlayEntries
      ⟨known.key, value⟩, entry = ⟨known.key, value⟩ ∨ entry ∈ runtime.overlayEntries := by
    obtain ⟨smaller, larger, -, -, hupsert, hentries⟩ :=
      h.overlaySorted.upsert_split ⟨known.key, value⟩
    intro entry hentry
    rw [hupsert] at hentry
    rcases hentries with heq | ⟨found, -, heq⟩ <;> rw [heq] <;> simp at hentry ⊢ <;> tauto
  refine ⟨h.baseSorted, h.overlaySorted.upsert _, h.view, fun other => ?_, h.count, h.keys, ?_, ?_⟩
  · dsimp only [MapOverlay.write]
    rw [h.overlaySorted.lookup_upsert, Std.ExtTreeMap.getElem?_insert]
    split
    · rfl
    · exact h.writes other
  · intro entry hentry
    rcases hentries entry hentry with rfl | hold
    · exact hvalue
    · exact h.values entry hold
  · intro entry hentry
    rcases hentries entry hentry with rfl | hold
    · exact hmem
    · exact h.known entry hold

/-- The pending outcome is not part of the relation. -/
theorem pending (h : Represents runtime map) (kind : ResultKind) (code : ℕ) (key : Bytes) :
    Represents { runtime with pendingKind := kind, pendingCode := code, pendingKey := key } map :=
  ⟨h.baseSorted, h.overlaySorted, h.view, h.writes, h.count, h.keys, h.values, h.known⟩

theorem observe_unknown (h : Represents runtime map) (call : StateCall)
    (hkey : map.current call.key = none) :
    call.observe runtime = (.error (.needState call.key),
      { runtime with pendingKind := .needState, pendingKey := call.key }) := by
  cases call with
  | get key =>
    have hkey : map.current key = none := hkey
    simp only [StateCall.observe, StateCall.run, ScriptCall.map, h.stateGetRaw_eq, hkey]
    rfl
  | has key =>
    have hkey : map.current key = none := hkey
    simp only [StateCall.observe, StateCall.run, ScriptCall.map, stateHasRaw,
      h.stateGetRaw_eq, hkey]
    rfl
  | set key value =>
    have hkey : map.current key = none := hkey
    simp only [StateCall.observe, StateCall.run, ScriptCall.map, stateSetRaw,
      h.writeKnown_none hkey]
    rfl
  | delete key =>
    have hkey : map.current key = none := hkey
    simp only [StateCall.observe, StateCall.run, ScriptCall.map, stateDeleteRaw,
      h.writeKnown_none hkey]
    rfl

/-- One call does on the runtime what it does on the map: it returns the same answer, or throws and
leaves the same outcome pending. -/
theorem observe (h : Represents runtime map) (call : StateCall) :
    (call.observe runtime).1 = (map.step call).1 ∧
      Represents (call.observe runtime).2 (map.step call).2 := by
  unfold MapOverlay.step
  cases hkey : map.current call.key with
  | none =>
    rw [h.observe_unknown call hkey]
    exact ⟨rfl, h.pending _ _ _⟩
  | some value =>
    have hsome : map.current call.key ≠ none := by simp [hkey]
    cases call with
    | get key =>
      have hkey : map.current key = some value := hkey
      simp only [StateCall.observe, StateCall.run, ScriptCall.map, h.stateGetRaw_eq, hkey]
      exact ⟨rfl, h⟩
    | has key =>
      have hkey : map.current key = some value := hkey
      simp only [StateCall.observe, StateCall.run, ScriptCall.map, stateHasRaw,
        h.stateGetRaw_eq, hkey]
      exact ⟨rfl, h⟩
    | set key bytes =>
      have hknown : map.current key ≠ none := hsome
      dsimp only [MapOverlay.answer]
      by_cases hlength : bytes.length ≤ maxValueBytes
      · have hvalue : ∀ stored ∈ some bytes, stored.length ≤ maxValueBytes := by
          rintro _ ⟨⟩
          exact hlength
        obtain ⟨after, hwrite, hafter⟩ := h.write hknown hvalue
        rw [if_pos hlength]
        simp only [StateCall.observe, StateCall.run, ScriptCall.map, stateSetRaw,
          h.writeKnown_known hknown, hwrite]
        exact ⟨rfl, hafter⟩
      · have hfail : writeOverlay key (some bytes) runtime = failStateView runtime := by
          unfold writeOverlay
          rw [if_pos (.inr (by simpa using hlength))]
        rw [if_neg hlength]
        simp only [StateCall.observe, StateCall.run, ScriptCall.map, stateSetRaw,
          h.writeKnown_known hknown, hfail]
        exact ⟨rfl, h.pending _ _ _⟩
    | delete key =>
      have hknown : map.current key ≠ none := hsome
      have hvalue : ∀ stored ∈ (none : Option Bytes), stored.length ≤ maxValueBytes := nofun
      obtain ⟨after, hwrite, hafter⟩ := h.write hknown hvalue
      simp only [StateCall.observe, StateCall.run, ScriptCall.map, stateDeleteRaw,
        h.writeKnown_known hknown, hwrite]
      exact ⟨rfl, hafter⟩

/-- A sequence of calls does on the runtime what it does on the map. -/
theorem runCalls (h : Represents runtime map) (calls : List StateCall) :
    (ScriptC.runCalls calls runtime).1 = (map.run calls).1 ∧
      Represents (ScriptC.runCalls calls runtime).2 (map.run calls).2 := by
  induction calls generalizing runtime map with
  | nil => exact ⟨rfl, h⟩
  | cons call calls ih =>
    obtain ⟨hanswer, hnext⟩ := h.observe call
    obtain ⟨hanswers, hafter⟩ := ih hnext
    exact ⟨congrArg₂ List.cons hanswer hanswers, hafter⟩

/-- The overlay lists the writes of the map in the order of their keys. -/
theorem overlayEntries_eq (h : Represents runtime map) :
    runtime.overlayEntries = map.writes.toList.map fun write => ⟨write.1, write.2⟩ := by
  have hsorted : SortedTable.Sorted StateViewEntryV1.key
      (map.writes.toList.map fun write => (⟨write.1, write.2⟩ : StateEntry)) := by
    unfold SortedTable.Sorted
    rw [List.map_map, List.pairwise_map]
    exact Std.ExtTreeMap.ordered_keys_toList
  refine h.overlaySorted.eq_of_lookup hsorted fun key => ?_
  have hwrites := h.writes key
  cases hlookup : SortedTable.lookup StateViewEntryV1.key
      (map.writes.toList.map fun write => (⟨write.1, write.2⟩ : StateEntry)) key with
  | none =>
    rw [SortedTable.lookup, List.find?_eq_none] at hlookup
    have hnone : map.writes[key]? = none := by
      by_contra hsome
      obtain ⟨value, hvalue⟩ := Option.ne_none_iff_exists'.mp hsome
      have hmem := Std.ExtTreeMap.mem_toList_iff_getElem?_eq_some.mpr hvalue
      refine hlookup _ (List.mem_map_of_mem hmem) ?_
      simp
    rw [hnone] at hwrites
    exact (Option.map_eq_none_iff.mp hwrites.symm)
  | some found =>
    obtain ⟨hmem, rfl⟩ := SortedTable.of_lookup_eq_some hlookup
    obtain ⟨⟨key, value⟩, hwrite, rfl⟩ := List.mem_map.mp hmem
    rw [Std.ExtTreeMap.mem_toList_iff_getElem?_eq_some] at hwrite
    dsimp only at hwrites ⊢
    rw [hwrite] at hwrites
    obtain ⟨entry, hentry, rfl⟩ := Option.map_eq_some_iff.mp hwrites.symm
    rw [hentry]
    obtain ⟨-, rfl⟩ := SortedTable.of_lookup_eq_some hentry
    rfl

/-- Every key of the overlay is a key of the view, so the view bounds their number. -/
theorem length_overlayEntries_le (h : Represents runtime map) :
    runtime.overlayEntries.length ≤ maxEntries := by
  have hnodup : (runtime.overlayEntries.map (·.key)).Nodup := by
    refine h.overlaySorted.imp fun {left right} hlt heq => ?_
    rw [heq] at hlt
    exact SortedTable.irrefl _ hlt
  have hsubset : runtime.overlayEntries.map (·.key) ⊆ runtime.baseEntries.map (·.key) := by
    intro key hkey
    obtain ⟨entry, hentry, rfl⟩ := List.mem_map.mp hkey
    exact h.known entry hentry
  have hle := (List.subperm_of_subset hnodup hsubset).length_le
  rw [List.length_map, List.length_map] at hle
  exact hle.trans h.count

end Represents

theorem isReserved_of_applicationKey {key : Bytes} (h : key.head? = some applicationKeyClassV1) :
    isReservedServiceStorageKey key = false := by
  by_contra hreserved
  simp only [isReservedServiceStorageKey, Bool.or_eq_true, beq_iff_eq,
    Bool.not_eq_false] at hreserved
  rcases hreserved with (((rfl | rfl) | rfl) | rfl) | rfl <;> exact absurd h (by decide)

theorem toLe_four {n : ℕ} (h : n < 2 ^ 32) : u32ToLe (UInt32.ofNat n) = toLe 4 n := by
  rw [u32ToLe, UInt32.toNat_ofNat_of_lt' h]

/-- An entry is encoded as the Rust writer encodes a change. -/
theorem encodeEntry_eq {entry : StateEntry} (hkey : entry.key.length ≤ maxKeyBytes)
    (hvalue : ∀ value ∈ entry.value, value.length ≤ maxValueBytes) :
    (do
      let key ← Writer.bytesU32 entry.key
      let value ← writeOptionalValue entry.value
      pure (key ++ value) : Except WireError Bytes) = .ok (encodeEntry entry) := by
  have hbytes : ∀ {bytes : Bytes}, bytes.length ≤ maxValueBytes →
      Writer.bytesU32 bytes = .ok (toLe 4 bytes.length ++ bytes) := by
    intro bytes hlength
    rw [Writer.bytesU32_of_le hlength (by decide), toLe_four (hlength.trans_lt (by decide))]
  have hkey' : entry.key.length ≤ maxValueBytes := hkey.trans (by decide)
  obtain ⟨key, value⟩ := entry
  cases value with
  | none =>
    rw [hbytes hkey']
    rfl
  | some value =>
    have hwritten : writeOptionalValue (some value) =
      .ok (1 :: (toLe 4 value.length ++ value)) := by
      simp only [writeOptionalValue, hbytes (hvalue value rfl)]
      rfl
    dsimp only at hkey' ⊢
    rw [hbytes hkey', hwritten]
    rfl

namespace Represents

variable {runtime : StateRuntime} {map : MapOverlay}

theorem changes_eq (h : Represents runtime map) : (diffOfWrites map.writes).changes =
    runtime.overlayEntries.map fun entry => ⟨entry.key, entry.value⟩ := by
  rw [h.overlayEntries_eq, List.map_map]
  rfl

theorem length_key (h : Represents runtime map) {entry : StateEntry}
    (hentry : entry ∈ runtime.overlayEntries) : entry.key.length ≤ maxKeyBytes := by
  obtain ⟨known, hknown, hkey⟩ := List.mem_map.mp (h.known entry hentry)
  exact hkey ▸ h.keys known hknown

/-- The writes of the map form a canonical diff, when they are all to application keys. -/
theorem validateCanonical (h : Represents runtime map)
    (hkeys : ∀ entry ∈ runtime.overlayEntries, entry.key.head? = some applicationKeyClassV1) :
    (diffOfWrites map.writes).validateCanonical = .ok () := by
  have hchanges := h.changes_eq
  refine StateDiffV1.validateCanonical_eq_ok.mpr ⟨StateDiffV1.validateLimits_eq_ok.mpr ⟨?_, ?_⟩, ?_⟩
  · rw [hchanges, List.length_map]
    exact h.length_overlayEntries_le
  · rw [hchanges, List.forall_mem_map]
    intro entry hentry
    exact ⟨isReserved_of_applicationKey (hkeys entry hentry), h.length_key hentry,
      h.values entry hentry⟩
  · rw [hchanges, List.map_map]
    exact h.overlaySorted

/-- The result record of the runtime is decoded to the writes of the map. -/
theorem decode_appliedResult (h : Represents runtime map)
    (hlength : (appliedResult runtime).length ≤ maxScriptActionResultBytes)
    (hkeys : ∀ entry ∈ runtime.overlayEntries, entry.key.head? = some applicationKeyClassV1) :
    ScriptActionResultV1.decode (appliedResult runtime) =
      .ok (.applied (diffOfWrites map.writes)) := by
  have hcanonical := h.validateCanonical hkeys
  have hchanges := h.changes_eq
  set diffBytes := [stateDiffVersion] ++ toLe 4 runtime.overlayEntries.length ++
    runtime.overlayEntries.flatMap encodeEntry with hdiffBytes
  have hresult : appliedResult runtime =
      [scriptActionResultVersion] ++ ([0] ++ (toLe 4 diffBytes.length ++ diffBytes)) := rfl
  have hcount : runtime.overlayEntries.length < 2 ^ 32 :=
    lt_of_le_of_lt h.length_overlayEntries_le (by decide)
  have hshort : diffBytes.length ≤ maxRecoveryBytes := by
    rw [hresult] at hlength
    simp only [List.length_append, maxScriptActionResultBytes] at hlength
    omega
  have hwrites : ((diffOfWrites map.writes).changes.mapM fun change => do
      let key ← Writer.bytesU32 change.key
      let value ← writeOptionalValue change.value
      pure (key ++ value)) = .ok ((diffOfWrites map.writes).changes.map
        fun change => encodeEntry ⟨change.key, change.value⟩) := by
    refine mapM_of_ok fun change hchange => ?_
    rw [hchanges] at hchange
    obtain ⟨entry, hentry, rfl⟩ := List.mem_map.mp hchange
    exact encodeEntry_eq (h.length_key hentry) (h.values entry hentry)
  have hencode : (diffOfWrites map.writes).encodeCanonicalChecked = .ok diffBytes := by
    unfold StateDiffV1.encodeCanonicalChecked
    rw [hcanonical, hwrites]
    refine congrArg Except.ok ?_
    rw [hchanges, List.length_map, List.map_map, toLe_four hcount, ← List.flatMap_def]
    rfl
  have hwritten : Writer.bytesU32 diffBytes = .ok (toLe 4 diffBytes.length ++ diffBytes) := by
    rw [Writer.bytesU32_of_le hshort (by decide), toLe_four (hshort.trans_lt (by decide))]
  have hvalidate : validateApplicationDiff (diffOfWrites map.writes) = .ok () := by
    refine bind_eq_ok.mpr ⟨(), hcanonical, ensure_eq_ok.mpr ?_⟩
    rw [hchanges, List.forall_mem_map]
    exact hkeys
  rw [hresult] at hlength ⊢
  refine bind_eq_ok.mpr ⟨(), ensure_eq_ok.mpr hlength, Reads.whole _ ?_⟩
  refine (reads_u8 _).bind (Reads.check_bind rfl ((reads_u8 0).bind ?_))
  rw [← List.append_nil (toLe 4 diffBytes.length ++ diffBytes)]
  refine (reads_bytesLimited hwritten hshort).bind ?_
  exact Reads.lift_bind (StateDiffV1.decode_iff.mpr hencode)
    (Reads.lift_bind hvalidate (Reads.pure _))

end Represents

theorem lookup_eq_get (version : UInt8) (entries : List StateEntry) (key : Bytes) :
    StateViewV1.get ⟨version, entries⟩ key =
      (SortedTable.lookup StateViewEntryV1.key entries key).map (·.value) := by
  have hkey : ∀ entry : StateEntry, (entry.key == key) = decide (compare entry.key key = .eq) :=
    fun entry => by simp [beq_eq_decide]
  unfold StateViewV1.get SortedTable.lookup
  simp only [hkey]

/-- After a view has been accepted nothing is pending, and the runtime stands for the view. -/
theorem represents_initializeStateView {view : StateViewV1} {bytes : Bytes}
    (hview : StateViewV1.decode bytes = .ok view) (runtime : StateRuntime) :
    ∃ start, initializeStateView bytes runtime = (.ok (), start) ∧ start.pendingKind = .applied ∧
      Represents start ⟨view.get, ∅⟩ := by
  obtain ⟨version, entries⟩ := view
  obtain ⟨-, rfl, rest, -, -, hcount, hmany, horder⟩ := StateViewV1.decode_eq_ok.mp hview
  obtain ⟨hlength, hlimits, -⟩ := StateViewV1.invertsOn_readEntry.many_eq_ok.mp hmany
  unfold initializeStateView
  rw [readView_eq_some.mpr hview]
  refine ⟨_, rfl, rfl, horder, List.Pairwise.nil, fun key => lookup_eq_get _ _ key, fun key => ?_,
    hlength.trans_le hcount, fun entry hentry => (hlimits entry hentry).1, nofun, nofun⟩
  exact Std.ExtTreeMap.getElem?_empty

/-- The state runtime refines a map: on every view the Rust encoder writes, every sequence of calls
is answered as on a map of writes over the view, a key that neither knows is reported as needed, and
the result record is decoded to the writes in the order of their keys; and the runtime accepts the
byte strings that the Rust decoder accepts. -/
theorem state_runtime_refines_map {view : StateViewV1} {bytes : Bytes}
    (hview : view.encode = .ok bytes) (runtime : StateRuntime) (calls : List StateCall) :
    (∃ start, initializeStateView bytes runtime = (.ok (), start) ∧
      let map : MapOverlay := ⟨view.get, ∅⟩
      let after := (runCalls calls start).2
      let writes := (map.run calls).2.writes
      (runCalls calls start).1 = (map.run calls).1 ∧
      ((appliedResult after).length ≤ maxScriptActionResultBytes →
        (∀ change ∈ (diffOfWrites writes).changes, change.key.head? = some applicationKeyClassV1) →
        ScriptActionResultV1.decode (appliedResult after) = .ok (.applied (diffOfWrites writes)))) ∧
    ∀ input, (∃ after, initializeStateView input runtime = (.ok (), after)) ↔
      ∃ view, StateViewV1.decode input = .ok view := by
  refine ⟨?_, fun input => initializeStateView_ok_iff⟩
  obtain ⟨start, hstart, -, hrep⟩ :=
    represents_initializeStateView (StateViewV1.decode_iff.mpr hview) runtime
  obtain ⟨hanswers, hafter⟩ := hrep.runCalls calls
  refine ⟨start, hstart, hanswers, fun hlength hkeys => hafter.decode_appliedResult hlength ?_⟩
  intro entry hentry
  refine hkeys ⟨entry.key, entry.value⟩ ?_
  rw [hafter.changes_eq]
  exact List.mem_map_of_mem hentry

/-! ### A view of two keys -/

def counterKey : Bytes := [1, 1, 0, 99]
def spareKey : Bytes := [1, 1, 0, 100]

/-- One key with a value and one that is known to be absent. -/
def counterView : StateViewV1 := ⟨1, [⟨counterKey, some [7]⟩, ⟨spareKey, none⟩]⟩

def counterViewBytes : Bytes :=
  [1, 2, 0, 0, 0, 4, 0, 0, 0, 1, 1, 0, 99, 1, 1, 0, 0, 0, 7, 4, 0, 0, 0, 1, 1, 0, 100, 0]

def idleRuntime : StateRuntime := ⟨[], [], .applied, 0, []⟩

theorem encode_counterView : counterView.encode = .ok counterViewBytes := by decide +kernel

/-- Reads and writes of known keys, and a read of an unknown one. -/
def counterCalls : List StateCall :=
  [.get counterKey, .set spareKey [9], .has spareKey, .delete counterKey, .get counterKey, .get [1]]

theorem state_runtime_refines_map_counter :
    ∃ start, initializeStateView counterViewBytes idleRuntime = (.ok (), start) ∧
      (runCalls counterCalls start).1 =
      [.ok (.value (some [7])), .ok .done, .ok (.flag true), .ok .done,
        .ok (.value none), .error (.needState [1])] := by
  obtain ⟨start, hstart, hanswers, -⟩ :=
    (state_runtime_refines_map encode_counterView idleRuntime counterCalls).1
  refine ⟨start, hstart, hanswers.trans ?_⟩
  decide +kernel

/-- A value of more than 64 KiB is refused, where a plain map would take it. -/
theorem stateSetRaw_refuses_long_value :
    ∃ start, initializeStateView counterViewBytes idleRuntime = (.ok (), start) ∧
      ((StateCall.set counterKey (List.replicate 65537 0)).observe start).1 =
        .error (.fatal fatalInvalidView) := by
  obtain ⟨start, hstart, -, hrep⟩ :=
    represents_initializeStateView (StateViewV1.decode_iff.mpr encode_counterView) idleRuntime
  refine ⟨start, hstart, (hrep.observe _).1.trans ?_⟩
  have hknown : MapOverlay.current ⟨counterView.get, ∅⟩ counterKey = some (some [7]) := by
    decide +kernel
  have hlong : ¬ (List.replicate 65537 (0 : UInt8)).length ≤ maxValueBytes := by
    rw [List.length_replicate]
    decide
  simp only [MapOverlay.step, StateCall.key, hknown, MapOverlay.answer, if_neg hlong]

end JamScript.ScriptC
