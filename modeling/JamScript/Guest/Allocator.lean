import JamScript.Common.Runs
import JamScript.Core.GuestMemory

/-!
# The allocator of the guest

The guest allocates from a buddy heap that is enlarged by `sbrk` up to the budget of the service.
The statics of the source are the fields of `AllocatorState`; the buddy heap is a parameter, and so
are the heap base and the answers of `sbrk`, which moves the break by the requested amount or
refuses. An unchecked computation on machine words that leaves their range, and a growth loop that
has not ended after as many rounds as the budget has bytes, are recorded in `anomaly`.

`AllocatorState.Move` says once what the operations do to the state: the buddy heap changes, `sbrk`
refuses or moves the break, a figure or a failure is recorded, or an allocation finds the runtime
not initialised and resets it with a budget of one page. Every operation is a sequence of moves
(`step_moves`), so an invariant of the moves and of the reset holds along every run.
-/

namespace JamScript

open Codec

/-! ## Machine words -/

/-- `n.min(u32::MAX as usize) as u32`. -/
def clampU32 (n : ℕ) : UInt32 := UInt32.ofNat (min n 0xffffffff)

def saturatingAddU32 (a b : UInt32) : UInt32 := clampU32 (a.toNat + b.toNat)

def saturatingSubU32 (a b : UInt32) : UInt32 := UInt32.ofNat (a.toNat - b.toNat)

@[simp]
theorem toNat_clampU32 (n : ℕ) : (clampU32 n).toNat = min n 0xffffffff :=
  UInt32.toNat_ofNat_of_lt' (by change _ < 2 ^ 32; omega)

theorem toNat_ofNat_of_le {n : ℕ} {bound : UInt32} (h : n ≤ bound.toNat) :
    (UInt32.ofNat n).toNat = n :=
  UInt32.toNat_ofNat_of_lt' (lt_of_le_of_lt h bound.toNat_lt)

@[simp]
theorem toNat_saturatingAddU32 (a b : UInt32) :
    (saturatingAddU32 a b).toNat = min (a.toNat + b.toNat) 0xffffffff := toNat_clampU32 _

@[simp]
theorem toNat_saturatingSubU32 (a b : UInt32) : (saturatingSubU32 a b).toNat = a.toNat - b.toNat :=
  toNat_ofNat_of_le (Nat.sub_le _ _)

/-- How a computation on machine words stops: with the fault of a failed check, or because an
unchecked operation leaves the range. -/
inductive Halt
  | fault (code : GuestFaultCodeV1)
  | wraps
  deriving DecidableEq

def checkedAdd (a b : ℕ) (code : GuestFaultCodeV1) : Except Halt ℕ :=
  if a + b < 2 ^ 64 then .ok (a + b) else .error (.fault code)

def uncheckedSub (a b : ℕ) : Except Halt ℕ := if b ≤ a then .ok (a - b) else .error .wraps

def uncheckedMul (a b : ℕ) : Except Halt ℕ := if a * b < 2 ^ 64 then .ok (a * b) else .error .wraps

section NoWrap

variable {α β : Type}

theorem bind_ne_wraps {x : Except Halt α} {f : α → Except Halt β} (hx : x ≠ .error .wraps)
    (hf : ∀ a, x = .ok a → f a ≠ .error .wraps) : (x >>= f) ≠ .error .wraps := by
  cases x with
  | error halt => exact fun h => hx (congrArg Except.error (Except.error.inj h))
  | ok a => exact hf a rfl

theorem ensure_ne_wraps (condition : Prop) [Decidable condition] (code : GuestFaultCodeV1) :
    ensure condition (Halt.fault code) ≠ .error .wraps := by
  unfold ensure
  split <;> simp

theorem checkedAdd_ne_wraps (a b : ℕ) (code : GuestFaultCodeV1) :
    checkedAdd a b code ≠ .error .wraps := by
  unfold checkedAdd
  split <;> simp

theorem checkedAdd_eq_ok {a b sum : ℕ} {code : GuestFaultCodeV1} :
    checkedAdd a b code = .ok sum ↔ a + b < 2 ^ 64 ∧ a + b = sum := by
  unfold checkedAdd
  split <;> simp_all

end NoWrap

/-- `usize::checked_next_power_of_two`. -/
def checkedNextPowerOfTwo (n : ℕ) : Option ℕ :=
  let power := if n ≤ 1 then 1 else 2 ^ ((n - 1).log2 + 1)
  if power < 2 ^ 64 then some power else none

theorem checkedNextPowerOfTwo_pos {n power : ℕ} (h : checkedNextPowerOfTwo n = some power) :
    0 < power := by
  simp only [checkedNextPowerOfTwo, Option.ite_none_right_eq_some, Option.some.injEq] at h
  obtain ⟨-, rfl⟩ := h
  split
  · exact Nat.one_pos
  · exact Nat.two_pow_pos _

/-- `core::alloc::Layout`: the alignment is a power of two, and the size rounded up to it is no
larger than the largest `isize`. -/
structure Layout where
  size : ℕ
  align : ℕ
  align_pow : ∃ k < 64, align = 2 ^ k
  fits : size + (align - 1) < 2 ^ 63

namespace Layout

/-- `Layout::from_size_align`, with an alignment that is known to be a power of two. -/
def fromSizeAlign (size align : ℕ) (halign : ∃ k < 64, align = 2 ^ k) : Option Layout :=
  if h : size + (align - 1) < 2 ^ 63 then some ⟨size, align, halign, h⟩ else none

theorem fromSizeAlign_align {size align : ℕ} {halign : ∃ k < 64, align = 2 ^ k} {layout : Layout}
    (h : fromSizeAlign size align halign = some layout) : layout.align = align := by
  unfold fromSizeAlign at h
  split at h
  · cases h
    rfl
  · cases h

/-- The size class from which the buddy heap serves a layout, before rounding. -/
def minimum (layout : Layout) : ℕ := max layout.size (max layout.align 8)

end Layout

/-! ## The state -/

/-- What the allocator stands on: `buddy_system_allocator::Heap`, the heap base, and whether the
`n`-th call of `sbrk` with a positive amount is granted. -/
structure GuestMachine (H : Type) where
  newHeap : H
  alloc : H → Layout → Option ℕ × H
  addToHeap : H → ℕ → ℕ → H
  dealloc : H → ℕ → Layout → H
  heapBase : ℕ
  grants : ℕ → Bool

/-- What must not happen: an operation on machine words wraps, or the growth loop goes on. -/
inductive Anomaly
  | wraps
  | loops
  deriving DecidableEq

/-- The statics of the allocator and the break. The growth steps are kept with the budget that
remained when they were made. -/
structure AllocatorState (H : Type) where
  budget : GuestMemoryBudgetV1
  heapBase : ℕ
  committed : UInt32
  initialized : Bool
  live : UInt32
  highWater : UInt32
  cumulative : UInt32
  record : GuestFaultRecordV1
  heap : H
  programBreak : ℕ
  sbrkCalls : ℕ
  growths : List (ℕ × ℕ)
  anomaly : Option Anomaly

def growthQuantumBytes : ℕ := guestMemoryPageBytes.toNat

/-- The budget of a runtime that is initialised by an allocation. -/
def pageBudget : GuestMemoryBudgetV1 := ⟨guestMemoryPageBytes, guestMemoryPageBytes⟩

def cMaxAlignment : ℕ := 16
def cHeaderSize : ℕ := 16

namespace AllocatorState

variable {H : Type} (m : GuestMachine H)

def hasFault (s : AllocatorState H) : Bool := s.record.code != 0

/-- The figures of the record follow the counters. -/
def updateFaultMetrics (s : AllocatorState H) : AllocatorState H :=
  { s with record := { s.record with
      heapCommittedBytes := s.committed, heapMaxBytes := s.budget.heapMaxBytes,
      liveRequestedBytes := s.live, highWaterRequestedBytes := s.highWater,
      cumulativeRequestedBytes := s.cumulative } }

def updateFailureRequest (requestedBytes alignment : ℕ) (s : AllocatorState H) : AllocatorState H :=
  updateFaultMetrics { s with record := { s.record with
    requestedBytes := clampU32 requestedBytes, alignment := clampU32 alignment } }

/-- The first failure stays; later ones only bring the figures up to date. -/
def recordFailure (code : GuestFaultCodeV1) (requestedBytes alignment : ℕ) (s : AllocatorState H) :
    AllocatorState H :=
  if s.record.code = 0 then
    updateFaultMetrics { s with record := { s.record with
      code := code.toU32, requestedBytes := clampU32 requestedBytes
      alignment := clampU32 alignment } }
  else s.updateFaultMetrics

def recordAllocation (bytes : ℕ) (s : AllocatorState H) : AllocatorState H :=
  let live := saturatingAddU32 s.live (clampU32 bytes)
  updateFaultMetrics { s with
    live, highWater := max s.highWater live,
    cumulative := saturatingAddU32 s.cumulative (clampU32 bytes) }

def recordDeallocation (bytes : ℕ) (s : AllocatorState H) : AllocatorState H :=
  updateFaultMetrics { s with live := saturatingSubU32 s.live (clampU32 bytes) }

/-! ## Growth -/

/-- A request that could not fit the budget names the limit. -/
def classifyBudgetExhaustion (layout : Option Layout) (s : AllocatorState H) : GuestFaultCodeV1 :=
  let heapMaxBytes := s.budget.heapMaxBytes
  let request := layout.elim 0 fun layout => clampU32 layout.size
  if request > heapMaxBytes then .heapLimitExceeded
  else if saturatingAddU32 s.live request > heapMaxBytes then .heapLimitExceeded
  else .memoryAllocationFailed

def remaining (s : AllocatorState H) : UInt32 := saturatingSubU32 s.budget.heapMaxBytes s.committed

/-- What a growth has to provide: an aligned block for the layout that could not be served, with the
gap in front of it, or the given minimum. -/
def required (minimumGrowthBytes : ℕ) (failedLayout : Option Layout) (s : AllocatorState H) :
    Except Halt ℕ :=
  match failedLayout with
  | none => .ok minimumGrowthBytes
  | some layout =>
    match checkedNextPowerOfTwo layout.minimum with
    | none => .error (.fault .memoryAllocationFailed)
    | some block =>
      if block > s.budget.heapMaxBytes.toNat then .error (.fault .heapLimitExceeded)
      else do
        let gap ← uncheckedSub block (s.programBreak % block)
        checkedAdd (gap % block) (max block growthQuantumBytes) .memoryGrowFailed

/-- The checks of `grow_heap` up to the call of `sbrk`, and the amount that is then asked for. -/
def growth (minimumGrowthBytes : ℕ) (failedLayout : Option Layout) (s : AllocatorState H) :
    Except Halt ℕ := do
  ensure (s.remaining ≠ 0) (Halt.fault (s.classifyBudgetExhaustion failedLayout))
  let required ← s.required minimumGrowthBytes failedLayout
  let page := guestMemoryPageBytes.toNat
  let padded ← checkedAdd required (page - 1) .memoryAllocationFailed
  let rounded ← uncheckedMul (padded / page) page
  let growth := min rounded s.remaining.toNat
  ensure (growth ≠ 0) (Halt.fault (s.classifyBudgetExhaustion failedLayout))
  let expected ← checkedAdd s.heapBase s.committed.toNat .memoryGrowFailed
  ensure (s.programBreak = expected) (Halt.fault .memoryGrowFailed)
  let stop ← checkedAdd s.programBreak growth .memoryGrowFailed
  ensure (stop ≤ 0xffffffff ∧ growth ≤ 0xffffffff) (Halt.fault .memoryGrowFailed)
  pure growth

/-- What a granted `sbrk` leaves before the committed size is brought up to date. -/
def sbrk (growth : ℕ) (s : AllocatorState H) : AllocatorState H :=
  { s with
    sbrkCalls := s.sbrkCalls + 1
    programBreak := s.programBreak + growth
    heap := m.addToHeap s.heap s.programBreak (s.programBreak + growth)
    growths := (growth, s.remaining.toNat) :: s.growths }

/-- The heap grows by whole pages, up to the budget. -/
def growHeap (minimumGrowthBytes : ℕ) (failedLayout : Option Layout) (s : AllocatorState H) :
    Except GuestFaultCodeV1 Unit × AllocatorState H :=
  match s.growth minimumGrowthBytes failedLayout with
  | .error (.fault code) => (.error code, s)
  | .error .wraps => (.error .memoryGrowFailed, { s with anomaly := some .wraps })
  | .ok growth =>
    if m.grants s.sbrkCalls then
      let committed := s.committed.toNat + growth % 2 ^ 32
      let s := s.sbrk m growth
      if committed < 2 ^ 32 then
        (.ok (), updateFaultMetrics { s with committed := UInt32.ofNat committed })
      else (.error .memoryGrowFailed, s)
    else (.error .memoryGrowFailed, { s with sbrkCalls := s.sbrkCalls + 1 })

/-- The loop of `allocate_with_growth`, as far as the given number of rounds takes it. -/
def growthLoop (layout : Layout) :
    ℕ → AllocatorState H → Option (Except GuestFaultCodeV1 ℕ × AllocatorState H)
  | 0, _ => none
  | rounds + 1, s =>
    match m.alloc s.heap layout with
    | (some pointer, heap) => some (.ok pointer, { s with heap })
    | (none, heap) =>
      match growHeap m 0 (some layout) { s with heap } with
      | (.error code, s) => some (.error code, s)
      | (.ok (), s) => growthLoop layout rounds s

/-- Allocate, and grow as long as the buddy heap has no block. -/
def allocateWithGrowth (layout : Layout) (s : AllocatorState H) :
    Except GuestFaultCodeV1 ℕ × AllocatorState H :=
  match checkedNextPowerOfTwo layout.minimum with
  | none => (.error .heapLimitExceeded, s)
  | some requestedBlock =>
    if requestedBlock > s.budget.heapMaxBytes.toNat then (.error .heapLimitExceeded, s)
    else
      match growthLoop m layout (s.budget.heapMaxBytes.toNat + 1) s with
      | some result => result
      | none => (.error .memoryGrowFailed, { s with anomaly := some .loops })

/-! ## Reset -/

/-- The first assignments of `reset_runtime`. -/
def clear (budget : GuestMemoryBudgetV1) (stage : GuestFaultStageV1) (s : AllocatorState H) :
    AllocatorState H :=
  { s with
    record := { GuestFaultRecordV1.empty with
      heapMaxBytes := budget.heapMaxBytes, stage := stage.toU32 }
    budget
    heapBase := 0
    committed := 0
    initialized := false
    live := 0
    highWater := 0
    cumulative := 0 }

/-- The memory between the heap base and the break becomes the heap. -/
def adopt (existingBytes : ℕ) (s : AllocatorState H) : AllocatorState H :=
  { s with
    heapBase := m.heapBase
    committed := UInt32.ofNat existingBytes
    heap := if existingBytes ≠ 0 then m.addToHeap m.newHeap m.heapBase s.programBreak else m.newHeap
    initialized := true }

/-- The memory up to the break is adopted; only what is missing is asked for. -/
def resetRuntime (budget : GuestMemoryBudgetV1) (stage : GuestFaultStageV1) (s : AllocatorState H) :
    Bool × AllocatorState H :=
  let s := s.clear budget stage
  if budget.validate.isOk = false ∨ budget.heapMaxBytes > guestHeapPlatformMaxBytes then
    (false, s.recordFailure .memoryConfigInvalid 0 0)
  else if s.programBreak < m.heapBase then (false, s.recordFailure .memoryGrowFailed 0 0)
  else
    let existingBytes := s.programBreak - m.heapBase
    if 2 ^ 32 ≤ existingBytes then (false, s.recordFailure .memoryGrowFailed 0 0)
    else if existingBytes > budget.heapMaxBytes.toNat then
      (false, s.recordFailure .memoryConfigInvalid existingBytes guestMemoryPageBytes.toNat)
    else
      let s := s.adopt m existingBytes
      if existingBytes ≥ budget.heapInitialBytes.toNat then (true, s)
      else
        match s.growHeap m budget.heapInitialBytes.toNat none with
        | (.ok (), s) => (true, s)
        | (.error _, s) =>
          (false, recordFailure .memoryGrowFailed budget.heapInitialBytes.toNat 1
            { s with initialized := false })

/-! ## Allocation -/

/-- An allocation in an initialised runtime. A pointer that is null is `none`. -/
def serve (layout : Layout) (s : AllocatorState H) : Option ℕ × AllocatorState H :=
  match s.allocateWithGrowth m layout with
  | (.ok pointer, s) => (some pointer, s.recordAllocation layout.size)
  | (.error code, s) => (none, s.recordFailure code layout.size layout.align)

/-- Zero bytes are served without the heap. -/
def alloc (layout : Layout) (s : AllocatorState H) : Option ℕ × AllocatorState H :=
  if layout.size = 0 then (some layout.align, s)
  else
    let (ready, s) := if s.initialized then (true, s) else s.resetRuntime m pageBudget .invocation
    if ready then s.serve m layout else (none, s)

def dealloc (pointer : Option ℕ) (layout : Layout) (s : AllocatorState H) : AllocatorState H :=
  match pointer with
  | none => s
  | some pointer =>
    if layout.size = 0 then s
    else recordDeallocation layout.size { s with heap := m.dealloc s.heap pointer layout }

def reallocPreserving (pointer : Option ℕ) (oldLayout newLayout : Layout) (s : AllocatorState H) :
    Option ℕ × AllocatorState H :=
  match s.alloc m newLayout with
  | (none, s) => (none, s)
  | (some replacement, s) => (some replacement, s.dealloc m pointer oldLayout)

/-- A reallocation to zero bytes frees the block. -/
def realloc (pointer : Option ℕ) (oldLayout : Layout) (newSize : ℕ) (s : AllocatorState H) :
    Option ℕ × AllocatorState H :=
  if pointer.isSome ∧ newSize = 0 then (none, s.dealloc m pointer oldLayout)
  else
    match Layout.fromSizeAlign newSize oldLayout.align oldLayout.align_pow with
    | none => (none, s.recordFailure .memoryAllocationFailed newSize oldLayout.align)
    | some layout =>
      if pointer.isSome then s.reallocPreserving m pointer oldLayout layout else s.alloc m layout

/-! ## The interface of C -/

inductive CAllocationError
  | sizeOverflow
  | invalidPointer
  | outOfMemory

/-- What a pointer of C points behind: nothing, something without the magic number of a header, or
the header of a block at `base` with the size that was requested for it. -/
inductive CPointer
  | null
  | invalid
  | block (base : ℕ) (size : UInt32)

def callocSize (count size : ℕ) : Option ℕ :=
  if count * size < 2 ^ 64 then some (count * size) else none

def allocationLayout (size : ℕ) : Option Layout :=
  if cHeaderSize + max size 1 < 2 ^ 64 then
    Layout.fromSizeAlign (cHeaderSize + max size 1) cMaxAlignment ⟨4, by decide, rfl⟩
  else none

def mallocFrom (size : ℕ) (s : AllocatorState H) : Except CAllocationError ℕ × AllocatorState H :=
  match allocationLayout size with
  | none => (.error .sizeOverflow, s)
  | some layout =>
    match s.alloc m layout with
    | (none, s) => (.error .outOfMemory, s)
    | (some base, s) => (.ok (base + cHeaderSize), s)

def callocFrom (count size : ℕ) (s : AllocatorState H) :
    Except CAllocationError ℕ × AllocatorState H :=
  match callocSize count size with
  | none => (.error .sizeOverflow, s)
  | some total => s.mallocFrom m total

def freeFrom (pointer : CPointer) (s : AllocatorState H) :
    Except CAllocationError Unit × AllocatorState H :=
  match pointer with
  | .null => (.ok (), s)
  | .invalid => (.error .invalidPointer, s)
  | .block base size =>
    match allocationLayout size.toNat with
    | none => (.error .sizeOverflow, s)
    | some layout => (.ok (), s.dealloc m (some base) layout)

def reallocFrom (pointer : CPointer) (size : ℕ) (s : AllocatorState H) :
    Except CAllocationError (Option ℕ) × AllocatorState H :=
  match pointer with
  | .null => if size = 0 then (.ok none, s) else (s.mallocFrom m size).map (Except.map some) id
  | .invalid => (.error .invalidPointer, s)
  | .block base oldSize =>
    match allocationLayout oldSize.toNat with
    | none => (.error .sizeOverflow, s)
    | some oldLayout =>
      if size = 0 then (s.freeFrom m pointer).map (Except.map fun _ => none) id
      else
        match allocationLayout size with
        | none => (.error .sizeOverflow, s)
        | some newLayout =>
          match s.reallocPreserving m (some base) oldLayout newLayout with
          | (none, s) => (.error .outOfMemory, s)
          | (some newBase, s) => (.ok (some (newBase + cHeaderSize)), s)

/-- What the functions of C do with the error of their allocation: one that ran out of memory names
the requested size, unless there was a fault before. -/
def settle (faultBefore : Bool) (overflowBytes requestedBytes : ℕ) {α : Type}
    (result : Except CAllocationError α × AllocatorState H) : AllocatorState H :=
  match result with
  | (.ok _, s) => s
  | (.error .outOfMemory, s) =>
    if faultBefore then s else s.updateFailureRequest requestedBytes cMaxAlignment
  | (.error _, s) => s.recordFailure .memoryAllocationFailed overflowBytes cMaxAlignment

def cMalloc (size : ℕ) (s : AllocatorState H) : AllocatorState H :=
  settle s.hasFault size size (s.mallocFrom m size)

def cCalloc (count size : ℕ) (s : AllocatorState H) : AllocatorState H :=
  settle s.hasFault (2 ^ 64 - 1) (min (count * size) (2 ^ 64 - 1)) (s.callocFrom m count size)

def cRealloc (pointer : CPointer) (size : ℕ) (s : AllocatorState H) : AllocatorState H :=
  settle s.hasFault size size (s.reallocFrom m pointer size)

def cFree (pointer : CPointer) (s : AllocatorState H) : AllocatorState H := (s.freeFrom m pointer).2

end AllocatorState

/-- What happens to the allocator between two resets of an entry point. -/
inductive AllocatorOp
  | alloc (layout : Layout)
  | dealloc (pointer : Option ℕ) (layout : Layout)
  | realloc (pointer : Option ℕ) (oldLayout : Layout) (newSize : ℕ)
  | cMalloc (size : ℕ)
  | cCalloc (count size : ℕ)
  | cRealloc (pointer : AllocatorState.CPointer) (size : ℕ)
  | cFree (pointer : AllocatorState.CPointer)
  | recordFailure (code : GuestFaultCodeV1) (requestedBytes alignment : ℕ)

/-- The alignment that a failure of the operation records; zero where none does. -/
def AllocatorOp.alignment : AllocatorOp → ℕ
  | .alloc layout => layout.align
  | .realloc _ oldLayout _ => oldLayout.align
  | .cMalloc _ | .cCalloc _ _ | .cRealloc _ _ => cMaxAlignment
  | .dealloc _ _ | .cFree _ => 0
  | .recordFailure _ _ alignment => alignment

namespace AllocatorState

variable {H : Type} (m : GuestMachine H)

def step (s : AllocatorState H) : AllocatorOp → AllocatorState H
  | .alloc layout => (s.alloc m layout).2
  | .dealloc pointer layout => s.dealloc m pointer layout
  | .realloc pointer oldLayout newSize => (s.realloc m pointer oldLayout newSize).2
  | .cMalloc size => s.cMalloc m size
  | .cCalloc count size => s.cCalloc m count size
  | .cRealloc pointer size => s.cRealloc m pointer size
  | .cFree pointer => s.cFree m pointer
  | .recordFailure code requestedBytes alignment => s.recordFailure code requestedBytes alignment

def run (s : AllocatorState H) (ops : List AllocatorOp) : AllocatorState H :=
  Runs.run (step m) s ops

/-! ## What the operations do -/

/-- The state after a growth. -/
def grown (growth : ℕ) (s : AllocatorState H) : AllocatorState H :=
  updateFaultMetrics { s.sbrk m growth with committed := UInt32.ofNat (s.committed.toNat + growth) }

/-- A growth is positive and within what remains of the budget, and the break is where it should
be. -/
structure Growable (s : AllocatorState H) (growth : ℕ) : Prop where
  pos : 0 < growth
  le_remaining : growth ≤ s.remaining.toNat
  programBreak : s.programBreak = s.heapBase + s.committed.toNat

/-- What an operation can do, one step at a time. -/
inductive Move (aligned : ℕ → Prop) (s : AllocatorState H) : AllocatorState H → Prop
  | heap (heap : H) : Move aligned s { s with heap }
  | refused : Move aligned s { s with sbrkCalls := s.sbrkCalls + 1 }
  | grown {growth : ℕ} (hready : s.initialized = true) (hgrowth : s.Growable growth) :
      Move aligned s (s.grown m growth)
  | allocated (bytes : ℕ) : Move aligned s (s.recordAllocation bytes)
  | deallocated (bytes : ℕ) : Move aligned s (s.recordDeallocation bytes)
  | failed (code : GuestFaultCodeV1) (requestedBytes : ℕ) {alignment : ℕ} (h : aligned alignment) :
      Move aligned s (s.recordFailure code requestedBytes alignment)
  | requested (requestedBytes : ℕ) {alignment : ℕ} (h : aligned alignment) :
      Move aligned s (s.updateFailureRequest requestedBytes alignment)
  | reset (hready : s.initialized = false) : Move aligned s
      (s.resetRuntime m pageBudget .invocation).2

/-- A sequence of moves. -/
def Moves (aligned : ℕ → Prop) : AllocatorState H → AllocatorState H → Prop :=
  Relation.ReflTransGen (Move m aligned)

variable {m} {aligned : ℕ → Prop} {s s' : AllocatorState H}

/-- What every move keeps, a sequence of moves keeps. -/
theorem Moves.keeps {I : AllocatorState H → Prop}
    (hmove : ∀ {s s'}, I s → Move m aligned s s' → I s') (h : Moves m aligned s s')
    (hs : I s) : I s' := by
  induction h with
  | refl => exact hs
  | tail _ hlast ih => exact hmove ih hlast

theorem required_ne_wraps (minimumGrowthBytes : ℕ) (failedLayout : Option Layout)
    (s : AllocatorState H) :
    s.required minimumGrowthBytes failedLayout ≠ .error .wraps := by
  unfold required
  split
  · simp
  split
  · simp
  next block hblock =>
  split
  · simp
  · -- a remainder is smaller than the block, so that the gap is not negative
    have hmod := Nat.mod_lt s.programBreak (checkedNextPowerOfTwo_pos hblock)
    refine bind_ne_wraps ?_ fun _ _ => checkedAdd_ne_wraps _ _ _
    rw [uncheckedSub, if_pos hmod.le]
    simp

theorem growth_ne_wraps (minimumGrowthBytes : ℕ) (failedLayout : Option Layout)
    (s : AllocatorState H) :
    s.growth minimumGrowthBytes failedLayout ≠ .error .wraps := by
  unfold growth
  refine bind_ne_wraps (ensure_ne_wraps _ _) fun _ _ => ?_
  refine bind_ne_wraps (required_ne_wraps _ _ _) fun _ _ => ?_
  refine bind_ne_wraps (checkedAdd_ne_wraps _ _ _) fun padded hpadded => ?_
  refine bind_ne_wraps ?_ fun _ _ => ?_
  · -- rounding down gives nothing larger
    have hle := Nat.div_mul_le_self padded guestMemoryPageBytes.toNat
    obtain ⟨hlt, rfl⟩ := checkedAdd_eq_ok.mp hpadded
    rw [uncheckedMul, if_pos (lt_of_le_of_lt hle hlt)]
    simp
  refine bind_ne_wraps (ensure_ne_wraps _ _) fun _ _ => ?_
  refine bind_ne_wraps (checkedAdd_ne_wraps _ _ _) fun _ _ => ?_
  refine bind_ne_wraps (ensure_ne_wraps _ _) fun _ _ => ?_
  refine bind_ne_wraps (checkedAdd_ne_wraps _ _ _) fun _ _ => ?_
  refine bind_ne_wraps (ensure_ne_wraps _ _) fun _ _ => ?_
  exact fun h => nomatch h

theorem growth_growable {minimumGrowthBytes growth : ℕ} {failedLayout : Option Layout}
    (h : s.growth minimumGrowthBytes failedLayout = .ok growth) : s.Growable growth := by
  simp only [AllocatorState.growth, bind_eq_ok, ensure_eq_ok, checkedAdd_eq_ok, pure_eq_ok] at h
  obtain ⟨_, _, _, _, _, _, rounded, _, _, hpos, _, ⟨_, rfl⟩, _, hbreak, _, _, _, _, rfl⟩ := h
  exact ⟨Nat.pos_of_ne_zero hpos, Nat.min_le_right _ _, hbreak⟩

/-- The committed size stays within the budget, so that it cannot overflow either. -/
theorem Growable.committed_add_le {growth : ℕ} (h : s.Growable growth) :
    s.committed.toNat + growth ≤ s.budget.heapMaxBytes.toNat := by
  have hpos := h.pos
  have hle := h.le_remaining
  rw [remaining, toNat_saturatingSubU32] at hle
  omega

theorem toNat_committed_grown {growth : ℕ} (h : s.Growable growth) :
    (s.grown m growth).committed.toNat = s.committed.toNat + growth :=
  toNat_ofNat_of_le h.committed_add_le

theorem growHeap_cases (m : GuestMachine H) (minimumGrowthBytes : ℕ) (failedLayout : Option Layout)
    (s : AllocatorState H) :
    (∃ code, s.growHeap m minimumGrowthBytes failedLayout = (.error code, s)) ∨
    (∃ code, s.growHeap m minimumGrowthBytes failedLayout =
      (.error code, { s with sbrkCalls := s.sbrkCalls + 1 })) ∨
    ∃ growth, s.Growable growth ∧
      s.growHeap m minimumGrowthBytes failedLayout = (.ok (), s.grown m growth) := by
  unfold growHeap
  rcases hgrowth : s.growth minimumGrowthBytes failedLayout with (code | _) | growth
  · exact .inl ⟨code, rfl⟩
  · exact absurd hgrowth (growth_ne_wraps _ _ _)
  · have hgrowable := growth_growable hgrowth
    have hcommitted := hgrowable.committed_add_le
    have hmax := s.budget.heapMaxBytes.toNat_lt
    have hmod : growth % 2 ^ 32 = growth := Nat.mod_eq_of_lt (by omega)
    by_cases hgrants : m.grants s.sbrkCalls = true
    · refine .inr (.inr ⟨growth, hgrowable, ?_⟩)
      simp only [hgrants, if_true, hmod]
      rw [if_pos (by omega)]
      rfl
    · refine .inr (.inl ⟨.memoryGrowFailed, ?_⟩)
      simp only [hgrants, Bool.false_eq_true, if_false]

/-- Every growth takes from what remains of the budget, so that the loop ends. -/
theorem growthLoop_ends (m : GuestMachine H) (layout : Layout) {rounds : ℕ} {s : AllocatorState H}
    (hrounds : s.remaining.toNat < rounds) :
    ∃ result s', growthLoop m layout rounds s = some (result, s') ∧
      ∀ {aligned}, s.initialized = true → Moves m aligned s s' := by
  induction rounds generalizing s with
  | zero => exact absurd hrounds (Nat.not_lt_zero _)
  | succ rounds ih =>
    rw [growthLoop]
    rcases hserved : m.alloc s.heap layout with ⟨_ | pointer, heap⟩
    · obtain ⟨code, h⟩ | ⟨code, h⟩ | ⟨growth, hgrowable, h⟩ :=
        growHeap_cases m 0 (some layout) { s with heap }
      · refine ⟨.error code, _, by simp only [h], fun _ => .single (.heap heap)⟩
      · exact ⟨.error code, _, by simp only [h], fun _ => .tail (.single (.heap heap)) .refused⟩
      · have hpos := hgrowable.pos
        have hless : (grown m growth { s with heap }).remaining.toNat < rounds := by
          have hcommitted := toNat_committed_grown (m := m) hgrowable
          have hle := hgrowable.committed_add_le
          rw [remaining, toNat_saturatingSubU32, hcommitted]
          rw [remaining, toNat_saturatingSubU32] at hrounds
          change s.committed.toNat + growth ≤ s.budget.heapMaxBytes.toNat at hle
          change s.budget.heapMaxBytes.toNat - (s.committed.toNat + growth) < rounds
          omega
        obtain ⟨result, s', hloop, hmoves⟩ := ih hless
        refine ⟨result, s', by simp only [h, hloop], fun hready => ?_⟩
        exact .head (.heap heap) (.head (.grown hready hgrowable) (hmoves hready))
    · exact ⟨.ok pointer, _, rfl, fun _ => .single (.heap heap)⟩

theorem allocateWithGrowth_moves (layout : Layout) (hready : s.initialized = true) :
    Moves m aligned s (s.allocateWithGrowth m layout).2 := by
  unfold allocateWithGrowth
  split
  · exact .refl
  · split
    · exact .refl
    · have hrounds : s.remaining.toNat < s.budget.heapMaxBytes.toNat + 1 := by
        rw [remaining, toNat_saturatingSubU32]
        omega
      obtain ⟨result, s', hloop, hmoves⟩ := growthLoop_ends m layout hrounds
      rw [hloop]
      exact hmoves hready

/-- The state of a reset that could not grow the heap, before the failure is recorded. -/
def ungrown (calls : ℕ) (s : AllocatorState H) : AllocatorState H :=
  { s with initialized := false, sbrkCalls := calls }

/-- How a reset ends: the budget or the break is rejected, the memory up to the break is enough, or
it has to grow to the initial size. -/
inductive Reset (m : GuestMachine H) (budget : GuestMemoryBudgetV1) (stage : GuestFaultStageV1)
    (s : AllocatorState H) : Bool × AllocatorState H → Prop
  | rejected (code : GuestFaultCodeV1) (requestedBytes : ℕ) {alignment : ℕ}
      (halignment : alignment = 0 ∨ alignment = 4096) :
      Reset m budget stage s (false, (s.clear budget stage).recordFailure code
        requestedBytes alignment)
  | adopted {existing : ℕ} (hbreak : s.programBreak = m.heapBase + existing)
      (hmax : existing ≤ budget.heapMaxBytes.toNat) :
      Reset m budget stage s (true, (s.clear budget stage).adopt m existing)
  | grown {existing growth : ℕ} (hbreak : s.programBreak = m.heapBase + existing)
      (hmax : existing ≤ budget.heapMaxBytes.toNat)
      (hgrowth : ((s.clear budget stage).adopt m existing).Growable growth) :
      Reset m budget stage s (true, ((s.clear budget stage).adopt m existing).grown m growth)
  | ungrown {existing : ℕ} (calls : ℕ) (hbreak : s.programBreak = m.heapBase + existing)
      (hmax : existing ≤ budget.heapMaxBytes.toNat) :
      Reset m budget stage s
      (false, (((s.clear budget stage).adopt m existing).ungrown calls).recordFailure
        .memoryGrowFailed budget.heapInitialBytes.toNat 1)

theorem reset_resetRuntime (m : GuestMachine H) (budget : GuestMemoryBudgetV1)
    (stage : GuestFaultStageV1) (s : AllocatorState H) : Reset m budget stage s
    (s.resetRuntime m budget stage) := by
  simp only [resetRuntime]
  split
  · exact .rejected _ _ (.inl rfl)
  split
  · exact .rejected _ _ (.inl rfl)
  next hbase =>
  split
  · exact .rejected _ _ (.inl rfl)
  split
  · exact .rejected _ _ (.inr rfl)
  next hexisting =>
  have hbreak : s.programBreak =
    m.heapBase + ((s.clear budget stage).programBreak - m.heapBase) := by
    change ¬ s.programBreak < m.heapBase at hbase
    change s.programBreak = m.heapBase + (s.programBreak - m.heapBase)
    omega
  have hmax := Nat.le_of_not_lt hexisting
  generalize (s.clear budget stage).programBreak - m.heapBase = existing at hbreak hmax ⊢
  split
  · exact .adopted hbreak hmax
  · obtain ⟨code, h⟩ | ⟨code, h⟩ | ⟨growth, hgrowable, h⟩ :=
      growHeap_cases m budget.heapInitialBytes.toNat none ((s.clear budget stage).adopt m existing)
    · rw [h]
      exact .ungrown s.sbrkCalls hbreak hmax
    · rw [h]
      exact .ungrown (s.sbrkCalls + 1) hbreak hmax
    · rw [h]
      exact .grown hbreak hmax hgrowable

theorem resetRuntime_rule {P : Bool × AllocatorState H → Prop} {budget : GuestMemoryBudgetV1}
    {stage : GuestFaultStageV1} (h : ∀ {result}, Reset m budget stage s result → P result) :
    P (s.resetRuntime m budget stage) :=
  h (reset_resetRuntime m budget stage s)

/-- A failure changes the record only. -/
theorem recordFailure_eq (code : GuestFaultCodeV1) (requestedBytes alignment : ℕ)
    (s : AllocatorState H) :
    ∃ record, s.recordFailure code requestedBytes alignment = { s with record } := by
  unfold recordFailure
  split <;> exact ⟨_, rfl⟩

theorem initialized_recordFailure (code : GuestFaultCodeV1) (requestedBytes alignment : ℕ)
    (s : AllocatorState H) :
    (s.recordFailure code requestedBytes alignment).initialized = s.initialized := by
  obtain ⟨_, h⟩ := recordFailure_eq code requestedBytes alignment s
  rw [h]

theorem code_recordFailure (code : GuestFaultCodeV1) (requestedBytes alignment : ℕ)
    (s : AllocatorState H) : (s.recordFailure code requestedBytes alignment).record.code =
      if s.record.code = 0 then code.toU32 else s.record.code := by
  unfold recordFailure
  split <;> rfl

/-- The runtime is initialised exactly when the reset says so. -/
theorem resetRuntime_initialized (m : GuestMachine H) (budget : GuestMemoryBudgetV1)
    (stage : GuestFaultStageV1) (s : AllocatorState H) :
    (s.resetRuntime m budget stage).2.initialized = (s.resetRuntime m budget stage).1 := by
  refine resetRuntime_rule (P := fun result => result.2.initialized = result.1) fun hreset => ?_
  cases hreset with
  | rejected => exact initialized_recordFailure ..
  | adopted | grown => rfl
  | ungrown => exact initialized_recordFailure ..

/-! ## The operations are sequences of moves -/

theorem serve_moves {layout : Layout} (haligned : aligned layout.align)
    (hready : s.initialized = true) :
    Moves m aligned s (s.serve m layout).2 := by
  have hmoves : Moves m aligned s _ := allocateWithGrowth_moves layout hready
  unfold serve
  rcases hresult : s.allocateWithGrowth m layout with ⟨_ | _, _⟩
  all_goals rw [hresult] at hmoves
  · exact hmoves.tail (.failed _ _ haligned)
  · exact hmoves.tail (.allocated _)

theorem alloc_moves {layout : Layout} (haligned : aligned layout.align) (s : AllocatorState H) :
    Moves m aligned s (s.alloc m layout).2 := by
  unfold alloc
  split
  · exact .refl
  · by_cases hready : s.initialized = true
    · simp only [hready, if_true]
      exact serve_moves haligned hready
    · have hreset : Move m aligned s _ := .reset (by simpa using hready)
      have hinitialized := resetRuntime_initialized m pageBudget .invocation s
      simp only [hready]
      generalize s.resetRuntime m pageBudget .invocation = result at hreset hinitialized ⊢
      obtain ⟨ready, s'⟩ := result
      cases ready with
      | false => exact .single hreset
      | true => exact .head hreset (serve_moves haligned hinitialized)

theorem dealloc_moves (pointer : Option ℕ) (layout : Layout) (s : AllocatorState H) :
    Moves m aligned s (s.dealloc m pointer layout) := by
  unfold dealloc
  split
  · exact .refl
  · split
    · exact .refl
    · exact .tail (.single (.heap _)) (.deallocated _)

theorem reallocPreserving_moves (pointer : Option ℕ) (oldLayout : Layout) {newLayout : Layout}
    (haligned : aligned newLayout.align) (s : AllocatorState H) :
    Moves m aligned s (s.reallocPreserving m pointer oldLayout newLayout).2 := by
  have halloc := alloc_moves (m := m) haligned s
  unfold reallocPreserving
  split
  next heq => rwa [heq] at halloc
  next heq =>
    rw [heq] at halloc
    exact halloc.trans (dealloc_moves _ _ _)

theorem realloc_moves (pointer : Option ℕ) {oldLayout : Layout} (newSize : ℕ)
    (haligned : aligned oldLayout.align) (s : AllocatorState H) :
    Moves m aligned s (s.realloc m pointer oldLayout newSize).2 := by
  unfold realloc
  split
  · exact dealloc_moves _ _ _
  split
  · exact .single (.failed _ _ haligned)
  next layout hlayout =>
    have hnew : aligned layout.align := by rwa [Layout.fromSizeAlign_align hlayout]
    split
    · exact reallocPreserving_moves _ _ hnew _
    · exact alloc_moves hnew _

theorem allocationLayout_align {size : ℕ} {layout : Layout}
    (h : allocationLayout size = some layout) :
    layout.align = cMaxAlignment := by
  simp only [allocationLayout, Option.ite_none_right_eq_some] at h
  exact Layout.fromSizeAlign_align h.2

theorem mallocFrom_moves (size : ℕ) (haligned : aligned cMaxAlignment) (s : AllocatorState H) :
    Moves m aligned s (s.mallocFrom m size).2 := by
  unfold mallocFrom
  split
  · exact .refl
  next layout hlayout =>
    rw [← allocationLayout_align hlayout] at haligned
    have halloc := alloc_moves (m := m) haligned s
    rcases hresult : s.alloc m layout with ⟨_ | _, _⟩
    all_goals rwa [hresult] at halloc

theorem freeFrom_moves (pointer : CPointer) (s : AllocatorState H) :
    Moves m aligned s (s.freeFrom m pointer).2 := by
  unfold freeFrom
  split
  · exact .refl
  · exact .refl
  · split
    · exact .refl
    next base _ _ layout _ => exact dealloc_moves (m := m) (some base) layout s

theorem reallocFrom_moves (pointer : CPointer) (size : ℕ) (haligned : aligned cMaxAlignment)
    (s : AllocatorState H) : Moves m aligned s (s.reallocFrom m pointer size).2 := by
  unfold reallocFrom
  split
  · split
    · exact .refl
    · exact mallocFrom_moves size haligned s
  · exact .refl
  · split
    · exact .refl
    next base _ _ oldLayout _ =>
    split
    · exact freeFrom_moves (m := m) (.block base _) s
    split
    · exact .refl
    next newLayout hlayout =>
      rw [← allocationLayout_align hlayout] at haligned
      have hrealloc := reallocPreserving_moves (m := m) (some base) oldLayout haligned s
      rcases hresult : s.reallocPreserving m (some base) oldLayout newLayout with ⟨_ | _, _⟩
      all_goals rwa [hresult] at hrealloc

theorem settle_moves (faultBefore : Bool) (overflowBytes requestedBytes : ℕ)
    (haligned : aligned cMaxAlignment) {α : Type}
    {result : Except CAllocationError α × AllocatorState H} (h : Moves m aligned s result.2) :
    Moves m aligned s (settle faultBefore overflowBytes requestedBytes result) := by
  unfold settle
  split
  · exact h
  · split
    · exact h
    · exact h.tail (.requested _ haligned)
  · exact h.tail (.failed _ _ haligned)

/-- Every operation is a sequence of moves. -/
theorem step_moves (s : AllocatorState H) (op : AllocatorOp) (haligned : aligned op.alignment) :
    Moves m aligned s (s.step m op) := by
  cases op with
  | alloc layout => exact alloc_moves haligned s
  | dealloc pointer layout => exact dealloc_moves _ _ s
  | realloc pointer oldLayout newSize => exact realloc_moves _ _ haligned s
  | cMalloc size => exact settle_moves _ _ _ haligned (mallocFrom_moves size haligned s)
  | cCalloc count size =>
    refine settle_moves _ _ _ haligned ?_
    unfold callocFrom
    split
    · exact .refl
    · exact mallocFrom_moves _ haligned s
  | cRealloc pointer size => exact settle_moves _ _ _ haligned (reallocFrom_moves _ _ haligned s)
  | cFree pointer => exact freeFrom_moves _ s
  | recordFailure code requestedBytes alignment => exact .single (.failed _ _ haligned)

/-- So is every run. -/
theorem run_moves (s : AllocatorState H) {ops : List AllocatorOp}
    (haligned : ∀ op ∈ ops, aligned op.alignment) :
    Moves m aligned s (s.run m ops) := by
  induction ops generalizing s with
  | nil => exact .refl
  | cons op ops ih =>
    exact (step_moves s op (haligned op List.mem_cons_self)).trans
      (ih _ fun op hop => haligned op (List.mem_cons_of_mem _ hop))

theorem run_moves_any (s : AllocatorState H) (ops : List AllocatorOp) :
    Moves m (fun _ => True) s (s.run m ops) :=
  run_moves s fun _ _ => trivial

/-! ## The figures and the record -/

/-- The figures are in order, and the record is as good as the budget and the recorded alignment. -/
structure Tidy (s : AllocatorState H) : Prop where
  committed : s.committed ≤ s.budget.heapMaxBytes
  live : s.live ≤ s.highWater
  highWater : s.highWater ≤ s.cumulative
  record : s.record.WellFormed
  heapMaxBytes : s.record.heapMaxBytes = s.budget.heapMaxBytes

/-- With the figures in order, bringing the record up to date makes it well formed if its header
is. -/
theorem tidy_updateFaultMetrics (hcommitted : s.committed ≤ s.budget.heapMaxBytes)
    (hlive : s.live ≤ s.highWater) (hhighWater : s.highWater ≤ s.cumulative)
    (hrecord : s.record.WellFormed) : s.updateFaultMetrics.Tidy :=
  ⟨hcommitted, hlive, hhighWater,
    { hrecord with committed := hcommitted, live := hlive, highWater := hhighWater }, rfl⟩

theorem Tidy.recordFailure (h : s.Tidy) (code : GuestFaultCodeV1) (requestedBytes alignment : ℕ) :
    (s.recordFailure code requestedBytes alignment).Tidy := by
  unfold AllocatorState.recordFailure
  split
  · exact tidy_updateFaultMetrics h.committed h.live h.highWater
      { h.record with code := .inr (by rw [code.fromU32_toU32]; rfl) }
  · exact tidy_updateFaultMetrics h.committed h.live h.highWater h.record

theorem Tidy.grown (h : s.Tidy) {growth : ℕ} (hgrowth : s.Growable growth) :
    (s.grown m growth).Tidy := by
  refine tidy_updateFaultMetrics ?_ h.live h.highWater h.record
  rw [UInt32.le_iff_toNat_le]
  exact (toNat_committed_grown (m := m) hgrowth).trans_le hgrowth.committed_add_le

theorem tidy_clear
    (budget : GuestMemoryBudgetV1) (stage : GuestFaultStageV1) (s : AllocatorState H) :
    (s.clear budget stage).Tidy where
  committed := UInt32.zero_le
  live := UInt32.le_refl _
  highWater := UInt32.le_refl _
  record := ⟨rfl, rfl, rfl, .inl rfl, by rw [clear, stage.fromU32_toU32]; rfl, UInt32.zero_le,
    UInt32.le_refl _, UInt32.le_refl _⟩
  heapMaxBytes := rfl

/-- A reset leaves the figures in order, whether it succeeds or not. -/
theorem tidy_resetRuntime (m : GuestMachine H) (budget : GuestMemoryBudgetV1)
    (stage : GuestFaultStageV1) (s : AllocatorState H) :
    (s.resetRuntime m budget stage).2.Tidy := by
  have hclear := tidy_clear budget stage s
  have hadopt : ∀ {existing : ℕ}, existing ≤ budget.heapMaxBytes.toNat →
      ((s.clear budget stage).adopt m existing).Tidy := by
    intro existing hmax
    refine { hclear with committed := UInt32.le_iff_toNat_le.mpr ?_ }
    exact (toNat_ofNat_of_le hmax).trans_le hmax
  refine resetRuntime_rule (P := fun result => result.2.Tidy) fun hreset => ?_
  cases hreset with
  | rejected code requestedBytes => exact hclear.recordFailure _ _ _
  | adopted hbreak hmax => exact hadopt hmax
  | grown hbreak hmax hgrowth => exact (hadopt hmax).grown hgrowth
  | ungrown calls hbreak hmax =>
    have h := hadopt hmax
    have hungrown : (((s.clear budget stage).adopt m _).ungrown calls).Tidy :=
      ⟨h.committed, h.live, h.highWater, h.record, h.heapMaxBytes⟩
    exact hungrown.recordFailure _ _ _

theorem Tidy.move (h : s.Tidy) (hmove : Move m aligned s s') : s'.Tidy := by
  cases hmove with
  | heap heap => exact { h with }
  | refused => exact { h with }
  | grown hready hgrowth => exact h.grown hgrowth
  | allocated bytes =>
    have hlive := UInt32.le_iff_toNat_le.mp h.live
    have hhigh := UInt32.le_iff_toNat_le.mp h.highWater
    have hcumulative := s.cumulative.toNat_lt
    have hmax : ∀ a b : UInt32, (max a b).toNat = max a.toNat b.toNat := by
      intro a b
      change (if a ≤ b then b else a).toNat = _
      split <;> rename_i hle <;> rw [UInt32.le_iff_toNat_le] at hle <;> omega
    refine tidy_updateFaultMetrics h.committed ?_ ?_ h.record
    all_goals
      simp only [UInt32.le_iff_toNat_le, hmax, toNat_saturatingAddU32]
      omega
  | deallocated bytes =>
    refine tidy_updateFaultMetrics h.committed ?_ h.highWater h.record
    have hlive := UInt32.le_iff_toNat_le.mp h.live
    rw [UInt32.le_iff_toNat_le, toNat_saturatingSubU32]
    exact (Nat.sub_le _ _).trans hlive
  | failed code requestedBytes => exact h.recordFailure _ _ _
  | requested requestedBytes =>
    exact tidy_updateFaultMetrics h.committed h.live h.highWater { h.record with }
  | reset hready => exact tidy_resetRuntime m _ _ s

/-- The alignments that a record can hold. -/
def Recordable (alignment : ℕ) : Prop := alignment = 0 ∨ ∃ k < 32, alignment = 2 ^ k

/-- The recorded alignment passes the validator. -/
def Aligned (s : AllocatorState H) : Prop := s.record.alignment = 0 ∨
    isPowerOfTwo s.record.alignment = true

theorem clampU32_of_recordable {alignment : ℕ} (h : Recordable alignment) :
    clampU32 alignment = 0 ∨ isPowerOfTwo (clampU32 alignment) = true := by
  obtain rfl | ⟨k, hk, rfl⟩ := h
  · exact .inl rfl
  · right
    interval_cases k <;> decide

theorem Aligned.recordFailure (h : s.Aligned) (code : GuestFaultCodeV1) (requestedBytes : ℕ)
    {alignment : ℕ} (halignment : Recordable alignment) :
    (s.recordFailure code requestedBytes alignment).Aligned := by
  unfold AllocatorState.recordFailure
  split
  · exact clampU32_of_recordable halignment
  · exact h

theorem aligned_resetRuntime (m : GuestMachine H) (budget : GuestMemoryBudgetV1)
    (stage : GuestFaultStageV1) (s : AllocatorState H) :
    (s.resetRuntime m budget stage).2.Aligned := by
  have hclear : (s.clear budget stage).Aligned := .inl rfl
  refine resetRuntime_rule (P := fun result => result.2.Aligned) fun hreset => ?_
  cases hreset with
  | rejected code requestedBytes halignment =>
    refine hclear.recordFailure _ _ ?_
    rcases halignment with rfl | rfl
    · exact .inl rfl
    · exact .inr ⟨12, by decide, rfl⟩
  | adopted | grown => exact hclear
  | ungrown => exact Aligned.recordFailure (.inl rfl) _ _ (.inr ⟨0, by decide, rfl⟩)

theorem Aligned.move (h : s.Aligned) (hmove : Move m Recordable s s') : s'.Aligned := by
  cases hmove with
  | heap | refused | grown | allocated | deallocated => exact h
  | failed code requestedBytes halignment => exact h.recordFailure _ _ halignment
  | requested requestedBytes halignment => exact clampU32_of_recordable halignment
  | reset hready => exact aligned_resetRuntime m _ _ s

theorem budget_recordFailure (code : GuestFaultCodeV1) (requestedBytes alignment : ℕ)
    (s : AllocatorState H) : (s.recordFailure code requestedBytes alignment).budget = s.budget := by
  obtain ⟨_, h⟩ := recordFailure_eq code requestedBytes alignment s
  rw [h]

theorem budget_resetRuntime (m : GuestMachine H) (budget : GuestMemoryBudgetV1)
    (stage : GuestFaultStageV1)
    (s : AllocatorState H) : (s.resetRuntime m budget stage).2.budget = budget := by
  refine resetRuntime_rule (P := fun result => result.2.budget = budget) fun hreset => ?_
  cases hreset with
  | rejected => exact budget_recordFailure ..
  | adopted | grown => rfl
  | ungrown => exact budget_recordFailure ..

/-- The maximum of the budget stays within the platform's: the only other budget is that of one
page. -/
theorem heapMaxBytes_move (h : s.budget.heapMaxBytes ≤ guestHeapPlatformMaxBytes)
    (hmove : Move m aligned s s') : s'.budget.heapMaxBytes ≤ guestHeapPlatformMaxBytes := by
  cases hmove with
  | failed => rwa [budget_recordFailure]
  | reset =>
    rw [budget_resetRuntime]
    decide
  | _ => exact h

/-- Whatever is done after a reset, the record passes the validator exactly when the maximum of the
budget is within the platform's and the recorded alignment is zero or a power of two. The first is
so for a budget within the platform's maximum, also after the runtime has been initialised by an
allocation, and the second when the alignments fit into the record. -/
theorem record_readable (m : GuestMachine H) (s : AllocatorState H) (budget : GuestMemoryBudgetV1)
    (stage : GuestFaultStageV1) (ops : List AllocatorOp) :
    let after := (s.resetRuntime m budget stage).2.run m ops
    (after.record.validate = .ok () ↔ after.budget.heapMaxBytes ≤ guestHeapPlatformMaxBytes ∧
      after.Aligned) ∧
    (budget.heapMaxBytes ≤ guestHeapPlatformMaxBytes → (∀ op ∈ ops, Recordable op.alignment) →
      after.record.validate = .ok () ∧
      GuestFaultRecordV1.decode after.record.encode = .ok after.record) := by
  intro after
  have htidy : after.Tidy := (run_moves_any _ ops).keeps Tidy.move
    (tidy_resetRuntime m budget stage s)
  have hiff : after.record.validate = .ok () ↔
      after.budget.heapMaxBytes ≤ guestHeapPlatformMaxBytes ∧ after.Aligned := by
    rw [GuestFaultRecordV1.validate_iff, htidy.heapMaxBytes]
    exact and_iff_right htidy.record
  refine ⟨hiff, fun hbudget hops => ?_⟩
  have hmoves := run_moves (m := m) (s.resetRuntime m budget stage).2 hops
  have hvalid := hiff.mpr ⟨hmoves.keeps heapMaxBytes_move (by rwa [budget_resetRuntime]),
    hmoves.keeps Aligned.move (aligned_resetRuntime m budget stage s)⟩
  exact ⟨hvalid, GuestFaultRecordV1.decode_encode hvalid⟩

/-- A machine whose heap is one range of memory that is handed out from its start. -/
def bumpMachine : GuestMachine (ℕ × ℕ) where
  newHeap := (0, 0)
  alloc heap layout :=
    if heap.1 + layout.size ≤ heap.2 then (some heap.1, (heap.1 + layout.size, heap.2))
      else (none, heap)
  addToHeap heap start stop := if heap.1 = heap.2 then (start, stop) else (heap.1, stop)
  dealloc heap _ _ := heap
  heapBase := 0x20000
  grants _ := true

/-- The statics before anything has run, with some bytes between the heap base and the break. -/
def boot (existingBytes : ℕ) : AllocatorState (ℕ × ℕ) where
  budget := ⟨1024 * 1024, 16 * 1024 * 1024⟩
  heapBase := 0
  committed := 0
  initialized := false
  live := 0
  highWater := 0
  cumulative := 0
  record := .empty
  heap := (0, 0)
  programBreak := 0x20000 + existingBytes
  sbrkCalls := 0
  growths := []
  anomaly := none

def word : Layout := ⟨8, 8, ⟨3, by decide, rfl⟩, by decide⟩

theorem record_readable_word :
    (((boot 0).resetRuntime bumpMachine pageBudget .refine).2.run bumpMachine
      [.alloc word]).record.validate = .ok () :=
  ((record_readable bumpMachine (boot 0) pageBudget .refine [.alloc word]).2 (by decide)
    fun op hop => by
    rw [List.mem_singleton.mp hop]
    exact .inr ⟨3, by decide, rfl⟩).1

/-- A budget beyond the platform's maximum is recorded as it was given, and an alignment of 2³² as
the largest number of 32 bits. -/
theorem record_not_readable :
    ((boot 0).resetRuntime bumpMachine ⟨4096, 64 * 1024 * 1024 + 4096⟩ .refine).2.record.validate =
      .error .inconsistentFields ∧
    (((boot 0).resetRuntime bumpMachine pageBudget .refine).2.run bumpMachine
      [.alloc ⟨8, 2 ^ 32, ⟨32, by decide, rfl⟩, by decide⟩]).record.validate =
        .error (.invalidAlignment 0xffffffff) := by
  decide +kernel

/-! ## Faults -/

/-- In an initialised runtime a fault keeps its code. -/
theorem fault_move {code : UInt32} (hcode : code ≠ 0)
    (h : s.initialized = true ∧ s.record.code = code) (hmove : Move m aligned s s') :
    s'.initialized = true ∧ s'.record.code = code := by
  cases hmove with
  | failed =>
    rw [initialized_recordFailure, code_recordFailure, h.2, if_neg hcode]
    exact ⟨h.1, rfl⟩
  | reset hready => exact absurd h.1 (by simp [hready])
  | _ => exact h

theorem initialized_move (h : s.initialized = true) (hmove : Move m aligned s s') :
    s'.initialized = true := by
  cases hmove with
  | failed => rwa [initialized_recordFailure]
  | reset hready => exact absurd h (by simp [hready])
  | _ => exact h

theorem hasFault_iff : s.hasFault = true ↔ s.record.code ≠ 0 := bne_iff_ne

theorem hasFault_recordFailure (code : GuestFaultCodeV1) (requestedBytes alignment : ℕ)
    (s : AllocatorState H) : (s.recordFailure code requestedBytes alignment).hasFault = true := by
  rw [hasFault_iff, code_recordFailure]
  split
  · exact code.toU32_ne_zero
  · assumption

/-- A reset that fails leaves a fault. -/
theorem resetRuntime_hasFault (m : GuestMachine H) (budget : GuestMemoryBudgetV1)
    (stage : GuestFaultStageV1) (s : AllocatorState H) :
    (s.resetRuntime m budget stage).1 = false →
    (s.resetRuntime m budget stage).2.hasFault = true := by
  refine resetRuntime_rule (P := fun result => result.1 = false → result.2.hasFault = true)
    fun hreset hfailed => ?_
  cases hreset with
  | rejected => exact hasFault_recordFailure ..
  | adopted | grown => cases hfailed
  | ungrown => exact hasFault_recordFailure ..

theorem run_append (s : AllocatorState H) (before after : List AllocatorOp) :
    s.run m (before ++ after) = (s.run m before).run m after := List.foldl_append

/-- What an entry point ends with. -/
inductive GuestOutput (α : Type)
  | trap (record : GuestFaultRecordV1)
  | returned (output : α)
  deriving DecidableEq

/-- What follows the check of `output_for`: the encoding of the output allocates through the
collections of Rust, so an allocation that fails there ends in the panic handler, which records a
panic unless a fault is recorded already, and traps. -/
def encodeOutput (m : GuestMachine H) {α : Type} (output : α) :
    AllocatorState H → List AllocatorOp → GuestOutput α
  | _, [] => .returned output
  | s, op :: encoding =>
    let s := s.step m op
    if s.hasFault then .trap (s.recordFailure .panic 0 0).record else encodeOutput m
      output s encoding

/-- `output_for`, with the operations on the allocator that `run_refine` or `run_plan` makes, and
those that encode the output if there is no fault. A reset that fails is returned from at once. -/
def outputFor (m : GuestMachine H) (budget : GuestMemoryBudgetV1) (stage : GuestFaultStageV1)
    (ops encoding : List AllocatorOp) {α : Type} (output : α) (s : AllocatorState H) :
    GuestOutput α :=
  let reset := s.resetRuntime m budget stage
  let s := if reset.1 then reset.2.run m ops else reset.2
  if s.hasFault then .trap s.record else s.encodeOutput m output encoding

/-- Whatever is done after a fault of an initialised runtime, the fault is still there. -/
theorem fault_run (hinitialized : s.initialized = true) (hfault : s.hasFault = true)
    (ops : List AllocatorOp) :
    (s.run m ops).hasFault = true ∧ (s.run m ops).record.code = s.record.code := by
  have hcode := hasFault_iff.mp hfault
  have hkept := (run_moves_any (m := m) s ops).keeps (fault_move hcode) ⟨hinitialized, rfl⟩
  exact ⟨hasFault_iff.mpr (hkept.2.trans_ne hcode), hkept.2⟩

/-- A fault at any point of the encoding is trapped with its code. -/
theorem encodeOutput_traps (hinitialized : s.initialized = true) (hnone : s.hasFault = false)
    {first : List AllocatorOp} (rest : List AllocatorOp) (hfault : (s.run m first).hasFault = true)
    {α : Type} (output : α) : ∃ record, s.encodeOutput m output (first ++ rest) = .trap record ∧
      record.code = (s.run m first).record.code := by
  induction first generalizing s with
  | nil => exact absurd (hnone.symm.trans hfault) Bool.false_ne_true
  | cons op first ih =>
    have hstep : (s.step m op).initialized = true :=
      (run_moves_any (m := m) s [op]).keeps initialized_move hinitialized
    rw [List.cons_append, encodeOutput]
    cases hnow : (s.step m op).hasFault with
    | true =>
      -- the panic handler leaves the code of the failed allocation
      refine ⟨_, if_pos rfl, ?_⟩
      rw [code_recordFailure, if_neg (hasFault_iff.mp hnow)]
      exact (fault_run hstep hnow first).2.symm
    | false =>
      rw [if_neg Bool.false_ne_true]
      exact ih hstep hnow hfault

/-- After a reset that succeeds the code of a fault stays, whatever is done; an entry point whose
reset fails, or that has a fault at any time before the check, ends in the trap with the code of the
fault; and so does one that has a fault at any time while the output is encoded. -/
theorem fault_traps (m : GuestMachine H) (s : AllocatorState H) (budget : GuestMemoryBudgetV1)
    (stage : GuestFaultStageV1) (before after encoding : List AllocatorOp) {α : Type} (output : α) :
    let reset := s.resetRuntime m budget stage
    (reset.1 = true → (reset.2.run m before).hasFault = true →
      (reset.2.run m (before ++ after)).hasFault = true ∧
      (reset.2.run m (before ++ after)).record.code = (reset.2.run m before).record.code ∧
      outputFor m budget stage (before ++ after) encoding output s =
        .trap (reset.2.run m (before ++ after)).record) ∧
    (reset.1 = false → reset.2.hasFault = true ∧
      outputFor m budget stage (before ++ after) encoding output s = .trap reset.2.record) ∧
    (reset.1 = true → ∀ rest, (reset.2.run m (before ++ encoding)).hasFault = true →
      ∃ record, outputFor m budget stage before (encoding ++ rest) output s = .trap record ∧
        record.code = (reset.2.run m (before ++ encoding)).record.code) := by
  intro reset
  have hreset : s.resetRuntime m budget stage = reset := rfl
  have hinitial := resetRuntime_initialized m budget stage s
  have hfaulty := resetRuntime_hasFault m budget stage s
  rw [hreset] at hinitial hfaulty
  simp only [outputFor, hreset, run_append]
  clear_value reset
  have hinitialized : reset.1 = true → (reset.2.run m before).initialized = true := fun hready =>
    (run_moves_any _ before).keeps initialized_move (hinitial.trans hready)
  refine ⟨fun hready hfault => ?_, fun hfailed => ?_, fun hready rest hfault => ?_⟩
  · obtain ⟨hkept, hcode⟩ := fault_run (hinitialized hready) hfault after
    refine ⟨hkept, hcode, ?_⟩
    rw [if_pos hready, if_pos hkept]
  · have hfault := hfaulty hfailed
    refine ⟨hfault, ?_⟩
    rw [hfailed, if_neg Bool.false_ne_true, if_pos hfault]
  · rw [if_pos hready]
    cases hnow : (reset.2.run m before).hasFault with
    | true => exact ⟨_, if_pos rfl, (fault_run (hinitialized hready) hnow encoding).2.symm⟩
    | false =>
      rw [if_neg Bool.false_ne_true]
      exact encodeOutput_traps (hinitialized hready) hnow rest hfault output

theorem fault_traps_limit :
    (∃ record, outputFor bumpMachine pageBudget .refine [.cMalloc 5000, .alloc word]
      [] () (boot 0) =
      .trap record ∧ record.code = GuestFaultCodeV1.heapLimitExceeded.toU32) ∧
    ∃ record, outputFor bumpMachine pageBudget .refine [.alloc word]
        [.alloc ⟨8192, 8, ⟨3, by decide, rfl⟩, by decide⟩, .alloc word] () (boot 0) =
      .trap record ∧ record.code = GuestFaultCodeV1.heapLimitExceeded.toU32 := by
  have hbefore :=
    (fault_traps bumpMachine (boot 0) pageBudget .refine [.cMalloc 5000] [.alloc word] [] ()).1
    (by decide +kernel) (by decide +kernel)
  obtain ⟨record, htrap, hcode⟩ := (fault_traps bumpMachine (boot 0) pageBudget
    .refine [.alloc word] []
    [.alloc ⟨8192, 8, ⟨3, by decide, rfl⟩, by decide⟩] ()).2.2
      (by decide +kernel) [.alloc word] (by decide +kernel)
  exact ⟨⟨_, hbefore.2.2, hbefore.2.1.trans (by decide +kernel)⟩,
    ⟨record, htrap, hcode.trans (by decide +kernel)⟩⟩

/-- After a reset that fails, an allocation resets the runtime once more and takes the fault
away. -/
theorem fault_forgotten :
    let reset := (boot 0).resetRuntime bumpMachine ⟨0, 0⟩ .refine
    reset.1 = false ∧ reset.2.hasFault = true ∧
      (reset.2.run bumpMachine [.alloc word]).hasFault = false := by
  decide +kernel

/-! ## The committed size -/

/-- Nothing has gone astray, every growth was positive and within the budget, and the committed size
is what lies between the heap base and the break, unless the last reset failed before it looked
there. -/
structure Consistent (m : GuestMachine H) (s : AllocatorState H) : Prop where
  anomaly : s.anomaly = none
  growths : ∀ growth ∈ s.growths, 0 < growth.1 ∧ growth.1 ≤ growth.2
  place : (s.heapBase = m.heapBase ∧ s.programBreak = m.heapBase + s.committed.toNat) ∨
    (s.initialized = false ∧ s.heapBase = 0 ∧ s.committed = 0)

theorem Consistent.recordFailure (h : s.Consistent m) (code : GuestFaultCodeV1)
    (requestedBytes alignment : ℕ) : (s.recordFailure code requestedBytes alignment).Consistent
      m := by
  obtain ⟨_, heq⟩ := recordFailure_eq code requestedBytes alignment s
  rw [heq]
  exact ⟨h.anomaly, h.growths, h.place⟩

theorem Consistent.grown (h : s.Consistent m) (hready : s.initialized = true) {growth : ℕ}
    (hgrowth : s.Growable growth) : (s.grown m growth).Consistent m := by
  refine ⟨h.anomaly, ?_, .inl ?_⟩
  · intro step hstep
    rcases List.mem_cons.mp hstep with rfl | hstep
    · exact ⟨hgrowth.pos, hgrowth.le_remaining⟩
    · exact h.growths step hstep
  · obtain ⟨hbase, hbreak⟩ | ⟨hunready, -⟩ := h.place
    · refine ⟨hbase, ?_⟩
      rw [toNat_committed_grown hgrowth, ← Nat.add_assoc, ← hbreak]
      rfl
    · exact absurd hready (by simp [hunready])

theorem consistent_resetRuntime (m : GuestMachine H) (budget : GuestMemoryBudgetV1)
    (stage : GuestFaultStageV1) {s : AllocatorState H} (hanomaly : s.anomaly = none)
    (hgrowths : ∀ growth ∈ s.growths, 0 < growth.1 ∧ growth.1 ≤ growth.2) :
    (s.resetRuntime m budget stage).2.Consistent m := by
  have hadopt : ∀ {existing : ℕ}, s.programBreak = m.heapBase + existing →
      existing ≤ budget.heapMaxBytes.toNat →
        ((s.clear budget stage).adopt m existing).Consistent m := by
    intro existing hbreak hmax
    refine ⟨hanomaly, hgrowths, .inl ⟨rfl, ?_⟩⟩
    exact hbreak.trans (congrArg _ (toNat_ofNat_of_le hmax).symm)
  refine resetRuntime_rule (P := fun result => result.2.Consistent m) fun hreset => ?_
  cases hreset with
  | rejected =>
    have hclear : (s.clear budget stage).Consistent m := ⟨hanomaly, hgrowths, .inr ⟨rfl, rfl, rfl⟩⟩
    exact hclear.recordFailure _ _ _
  | adopted hbreak hmax => exact hadopt hbreak hmax
  | grown hbreak hmax hgrowth => exact (hadopt hbreak hmax).grown rfl hgrowth
  | ungrown calls hbreak hmax =>
    have hungrown : (((s.clear budget stage).adopt m _).ungrown calls).Consistent m :=
      ⟨hanomaly, hgrowths, .inl ((hadopt hbreak hmax).place.resolve_right nofun)⟩
    exact hungrown.recordFailure _ _ _

theorem Consistent.move (h : s.Consistent m) (hmove : Move m aligned s s') : s'.Consistent m := by
  cases hmove with
  | grown hready hgrowth => exact h.grown hready hgrowth
  | failed => exact h.recordFailure _ _ _
  | reset => exact consistent_resetRuntime m _ _ h.anomaly h.growths
  | _ => exact ⟨h.anomaly, h.growths, h.place⟩

/-- Whatever is done after a reset, no computation has wrapped and no growth loop has gone on; the
loop ends within as many rounds as bytes remain; growths were positive and within what remained; the
committed size is within the budget and is what lies between the heap base and the break, as long as
the runtime is initialised, which it is and stays after a reset that succeeds. -/
theorem growth_consistent (m : GuestMachine H) (s : AllocatorState H) (hanomaly : s.anomaly = none)
    (hgrowths : s.growths = []) (budget : GuestMemoryBudgetV1) (stage : GuestFaultStageV1)
    (ops : List AllocatorOp) :
    let reset := s.resetRuntime m budget stage
    let after := reset.2.run m ops
    after.anomaly = none ∧
    (∀ layout, growthLoop m layout (after.remaining.toNat + 1) after ≠ none) ∧
    (∀ growth ∈ after.growths, 0 < growth.1 ∧ growth.1 ≤ growth.2) ∧
    after.committed ≤ after.budget.heapMaxBytes ∧
    ((after.heapBase = m.heapBase ∧ after.programBreak = m.heapBase + after.committed.toNat) ∨
      (after.initialized = false ∧ after.heapBase = 0 ∧ after.committed = 0)) ∧
    (reset.1 = true → after.initialized = true) := by
  intro reset after
  have hmoves : Moves m (fun _ => True) reset.2 after := run_moves_any _ _
  have hconsistent : after.Consistent m := hmoves.keeps Consistent.move
    (consistent_resetRuntime m budget stage hanomaly (by simp [hgrowths]))
  have htidy : after.Tidy := hmoves.keeps Tidy.move (tidy_resetRuntime m budget stage s)
  refine ⟨hconsistent.anomaly, fun layout => ?_, hconsistent.growths, htidy.committed,
    hconsistent.place, fun hready => ?_⟩
  · obtain ⟨_, _, hloop, _⟩ := growthLoop_ends m layout (Nat.lt_succ_self after.remaining.toNat)
    simp [hloop]
  · exact hmoves.keeps initialized_move ((resetRuntime_initialized m budget stage s).trans hready)

/-- An allocation is served, and one of more than the budget is refused: the break is where it
should be. -/
theorem growth_consistent_words :
    let after := ((boot 0).resetRuntime bumpMachine pageBudget .refine).2.run bumpMachine
      [.alloc word, .cMalloc 5000]
    after.anomaly = none ∧ after.committed ≤ after.budget.heapMaxBytes ∧ 0 < after.committed ∧
      after.heapBase = bumpMachine.heapBase ∧
      after.programBreak = bumpMachine.heapBase + after.committed.toNat ∧
      after.initialized = true := by
  intro after
  obtain ⟨hanomaly, -, -, hmax, hplace, hready⟩ :=
    growth_consistent bumpMachine (boot 0) rfl rfl pageBudget .refine [.alloc word, .cMalloc 5000]
  have hinitialized := hready (by decide +kernel)
  obtain ⟨hbase, hbreak⟩ :=
    hplace.resolve_right fun hfailed => absurd (hfailed.1.symm.trans hinitialized)
      Bool.false_ne_true
  exact ⟨hanomaly, hmax, by decide +kernel, hbase, hbreak, hinitialized⟩

/-- With three pages between the heap base and the break, a valid budget of two pages is rejected,
and the committed size is zero. -/
theorem committed_not_break :
    GuestMemoryBudgetV1.validate ⟨8192, 8192⟩ = .ok ⟨8192, 8192⟩ ∧
    ((boot 12288).resetRuntime bumpMachine ⟨8192, 8192⟩ .refine).2.committed = 0 ∧
    ((boot 12288).resetRuntime bumpMachine ⟨8192, 8192⟩ .refine).2.programBreak -
      bumpMachine.heapBase =
      12288 := by
  decide +kernel

end AllocatorState

end JamScript
