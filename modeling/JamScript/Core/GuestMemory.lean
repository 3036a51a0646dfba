import JamScript.Common.Delimited
import JamScript.Core.Wire

/-!
# Memory budgets and fault records of the guest

The record in which a guest leaves what went wrong is outside of its heap: 44 bytes with a header,
the code and the stage of the fault and the figures of the allocator. The host decodes and validates
it; the guest also prints it for the host's log, into a buffer on its stack.

`decode_encode` is the round trip of the records that pass the validator. The log text is `logText`:
labels and decimal numbers by turns. The writer is followed through `Writes`, which says of one of
its steps which text it adds; that the numbers can be read back from the text rests on every label
but the first starting with a semicolon, which no number contains.
-/

namespace JamScript

open Codec

/-- The unit in which the heap grows. -/
def guestMemoryPageBytes : UInt32 := 4096
/-- The largest heap of any service. -/
def guestHeapPlatformMaxBytes : UInt32 := 64 * 1024 * 1024

/-- The size of the heap at the start, and the largest it may reach. -/
structure GuestMemoryBudgetV1 where
  heapInitialBytes : UInt32
  heapMaxBytes : UInt32
  deriving DecidableEq

/-- Why a budget is refused. -/
inductive GuestMemoryBudgetError
  | initialMustBePositive
  | maximumMustBePositive
  | initialNotPageAligned (initial : UInt32)
  | maximumNotPageAligned (maximum : UInt32)
  | initialExceedsMaximum (initial maximum : UInt32)
  | maximumExceedsPlatform (maximum platformMaximum : UInt32)
  deriving DecidableEq

/-- `GuestMemoryBudgetV1::validate`. -/
def GuestMemoryBudgetV1.validate (budget : GuestMemoryBudgetV1) :
    Except GuestMemoryBudgetError GuestMemoryBudgetV1 := do
  ensure (budget.heapInitialBytes ≠ 0) .initialMustBePositive
  ensure (budget.heapMaxBytes ≠ 0) .maximumMustBePositive
  ensure (budget.heapInitialBytes % guestMemoryPageBytes = 0)
    (.initialNotPageAligned budget.heapInitialBytes)
  ensure (budget.heapMaxBytes % guestMemoryPageBytes = 0)
    (.maximumNotPageAligned budget.heapMaxBytes)
  ensure (budget.heapInitialBytes ≤ budget.heapMaxBytes)
    (.initialExceedsMaximum budget.heapInitialBytes budget.heapMaxBytes)
  ensure (budget.heapMaxBytes ≤ guestHeapPlatformMaxBytes)
    (.maximumExceedsPlatform budget.heapMaxBytes guestHeapPlatformMaxBytes)
  pure budget

/-! ## Fault records -/

/-- The first bytes of a fault record. -/
def guestFaultMagicV1 : FixedBytes 4 := ⟨ascii "JSGF", rfl⟩
def guestFaultRecordVersionV1 : UInt16 := 1
/-- The length of an encoded record. -/
def guestFaultRecordV1Len : ℕ := 44
/-- The room for a record in the log. -/
def guestFaultLogMessageCapacityV1 : ℕ := 256

/-- What has gone wrong in a guest. -/
inductive GuestFaultCodeV1
  | heapLimitExceeded
  | memoryGrowFailed
  | memoryAllocationFailed
  | panic
  | memoryConfigInvalid
  | abort
  deriving DecidableEq

namespace GuestFaultCodeV1

/-- The number of a code; zero is no fault. -/
def toU32 : GuestFaultCodeV1 → UInt32
  | heapLimitExceeded => 1
  | memoryGrowFailed => 2
  | memoryAllocationFailed => 3
  | panic => 4
  | memoryConfigInvalid => 5
  | abort => 6

def fromU32 (value : UInt32) : Option GuestFaultCodeV1 :=
  match value with
  | 1 => some heapLimitExceeded
  | 2 => some memoryGrowFailed
  | 3 => some memoryAllocationFailed
  | 4 => some panic
  | 5 => some memoryConfigInvalid
  | 6 => some abort
  | _ => none

theorem fromU32_toU32 (code : GuestFaultCodeV1) : fromU32 code.toU32 = some code := by
  cases code <;> rfl

theorem toU32_ne_zero (code : GuestFaultCodeV1) : code.toU32 ≠ 0 := by
  cases code <;> decide

end GuestFaultCodeV1

/-- Which entry point was running. -/
inductive GuestFaultStageV1
  | invocation
  | plan
  | refine
  deriving DecidableEq

namespace GuestFaultStageV1

def toU32 : GuestFaultStageV1 → UInt32
  | invocation => 0
  | plan => 1
  | refine => 2

def fromU32 (value : UInt32) : Option GuestFaultStageV1 :=
  match value with
  | 0 => some invocation
  | 1 => some plan
  | 2 => some refine
  | _ => none

theorem fromU32_toU32 (stage : GuestFaultStageV1) : fromU32 stage.toU32 = some stage := by
  cases stage <;> rfl

end GuestFaultStageV1

/-- What a guest leaves behind when it traps. -/
structure GuestFaultRecordV1 where
  magic : FixedBytes 4
  version : UInt16
  length : UInt16
  code : UInt32
  stage : UInt32
  requestedBytes : UInt32
  alignment : UInt32
  heapCommittedBytes : UInt32
  heapMaxBytes : UInt32
  liveRequestedBytes : UInt32
  highWaterRequestedBytes : UInt32
  cumulativeRequestedBytes : UInt32
  deriving DecidableEq

/-- Why a record is refused. -/
inductive GuestFaultRecordError
  | invalidLength (length : ℕ)
  | invalidMagic
  | unsupportedVersion (version : UInt16)
  | unknownCode (code : UInt32)
  | unknownStage (stage : UInt32)
  | inconsistentFields
  | invalidAlignment (alignment : UInt32)
  deriving DecidableEq

/-- `u32::is_power_of_two`. -/
def isPowerOfTwo (value : UInt32) : Bool := value != 0 && value &&& (value - 1) == 0

namespace GuestFaultRecordV1

/-- The record of a guest without a fault. -/
def empty : GuestFaultRecordV1 where
  magic := guestFaultMagicV1
  version := guestFaultRecordVersionV1
  length := 44
  code := 0
  stage := GuestFaultStageV1.invocation.toU32
  requestedBytes := 0
  alignment := 0
  heapCommittedBytes := 0
  heapMaxBytes := 0
  liveRequestedBytes := 0
  highWaterRequestedBytes := 0
  cumulativeRequestedBytes := 0

/-- The nine numbers of a record, in the order in which they are written. -/
def fields (record : GuestFaultRecordV1) : List UInt32 :=
  [record.code, record.stage, record.requestedBytes, record.alignment, record.heapCommittedBytes,
    record.heapMaxBytes, record.liveRequestedBytes, record.highWaterRequestedBytes,
    record.cumulativeRequestedBytes]

/-- `GuestFaultRecordV1::encode`. -/
def encode (record : GuestFaultRecordV1) : Bytes :=
  record.magic.toList ++ u16ToLe record.version ++ u16ToLe record.length ++
    record.fields.flatMap u32ToLe

/-- `GuestFaultRecordV1::validate`. -/
def validate (record : GuestFaultRecordV1) : Except GuestFaultRecordError Unit := do
  ensure (record.magic = guestFaultMagicV1) .invalidMagic
  ensure (record.version = guestFaultRecordVersionV1) (.unsupportedVersion record.version)
  ensure (record.length.toNat = guestFaultRecordV1Len) (.invalidLength record.length.toNat)
  ensure (record.code = 0 ∨ (GuestFaultCodeV1.fromU32 record.code).isSome)
    (.unknownCode record.code)
  ensure (GuestFaultStageV1.fromU32 record.stage).isSome (.unknownStage record.stage)
  ensure (record.heapCommittedBytes ≤ record.heapMaxBytes ∧
    record.heapMaxBytes ≤ guestHeapPlatformMaxBytes ∧
    record.liveRequestedBytes ≤ record.highWaterRequestedBytes ∧
    record.highWaterRequestedBytes ≤ record.cumulativeRequestedBytes) .inconsistentFields
  ensure (record.alignment = 0 ∨ isPowerOfTwo record.alignment) (.invalidAlignment record.alignment)

/-- The record whose fields stand at their offsets in `input`. -/
def fromOffsets (input : Bytes) (hlength : input.length = guestFaultRecordV1Len) :
    GuestFaultRecordV1 :=
  let field (index : ℕ) := u32OfLe ((input.drop (8 + index * 4)).take 4)
  { magic := ⟨input.take 4, by rw [List.length_take, hlength]; rfl⟩
    version := u16OfLe ((input.drop 4).take 2)
    length := u16OfLe ((input.drop 6).take 2)
    code := field 0
    stage := field 1
    requestedBytes := field 2
    alignment := field 3
    heapCommittedBytes := field 4
    heapMaxBytes := field 5
    liveRequestedBytes := field 6
    highWaterRequestedBytes := field 7
    cumulativeRequestedBytes := field 8 }

/-- The conversions of slices to arrays cannot fail once the length has been checked. -/
def decode (input : Bytes) : Except GuestFaultRecordError GuestFaultRecordV1 :=
  if hlength : input.length = guestFaultRecordV1Len then do
    let record := fromOffsets input hlength
    ensure (record.magic = guestFaultMagicV1) .invalidMagic
    ensure (record.version = guestFaultRecordVersionV1) (.unsupportedVersion record.version)
    ensure (record.length.toNat = guestFaultRecordV1Len) (.invalidLength record.length.toNat)
    record.validate
    pure record
  else .error (.invalidLength input.length)

theorem length_encode (record : GuestFaultRecordV1) : record.encode.length =
    guestFaultRecordV1Len := by
  simp [encode, fields, guestFaultRecordV1Len]

/-- What is written at an offset is found there. -/
theorem fromOffsets_encode (record : GuestFaultRecordV1) :
    fromOffsets record.encode record.length_encode = record := by
  obtain ⟨⟨magic, hmagic⟩, version, length⟩ := record
  -- with the four bytes of the magic number named, every offset is reached by computation
  obtain ⟨_, _, _, _, rfl⟩ : ∃ a b c d, magic = [a, b, c, d] := List.length_eq_four.mp hmagic
  refine (GuestFaultRecordV1.mk.injEq ..).mpr ⟨rfl, u16OfLe_u16ToLe _, u16OfLe_u16ToLe _,
    u32OfLe_u32ToLe _, u32OfLe_u32ToLe _,
    u32OfLe_u32ToLe _, u32OfLe_u32ToLe _, u32OfLe_u32ToLe _, u32OfLe_u32ToLe _, u32OfLe_u32ToLe _,
    u32OfLe_u32ToLe _, u32OfLe_u32ToLe _⟩

/-- The fields that the validator leaves to check in a record with a good header, code and stage. -/
structure WellFormed (record : GuestFaultRecordV1) : Prop where
  magic : record.magic = guestFaultMagicV1
  version : record.version = guestFaultRecordVersionV1
  length : record.length = 44
  code : record.code = 0 ∨ (GuestFaultCodeV1.fromU32 record.code).isSome
  stage : (GuestFaultStageV1.fromU32 record.stage).isSome
  committed : record.heapCommittedBytes ≤ record.heapMaxBytes
  live : record.liveRequestedBytes ≤ record.highWaterRequestedBytes
  highWater : record.highWaterRequestedBytes ≤ record.cumulativeRequestedBytes

/-- What makes a record valid. -/
theorem validate_iff {record : GuestFaultRecordV1} : record.validate = .ok () ↔ record.WellFormed ∧
    record.heapMaxBytes ≤ guestHeapPlatformMaxBytes ∧
    (record.alignment = 0 ∨ isPowerOfTwo record.alignment) := by
  simp only [validate, bind_eq_ok, ensure_eq_ok]
  constructor
  · rintro ⟨_, hmagic, _, hversion, _, hlength, _, hcode, _, hstage, _,
      ⟨hcommitted, hmax, hlive, hhigh⟩, halignment⟩
    exact ⟨⟨hmagic, hversion, UInt16.toNat_inj.mp hlength, hcode, hstage, hcommitted, hlive, hhigh⟩,
      hmax, halignment⟩
  · rintro ⟨h, hmax, halignment⟩
    exact ⟨(), h.magic, (), h.version, (), by rw [h.length]; rfl, (), h.code, (), h.stage, (),
      ⟨h.committed, hmax, h.live, h.highWater⟩, halignment⟩

/-- What passes the validator survives its encoding. -/
theorem decode_encode {record : GuestFaultRecordV1} (h : record.validate = .ok ()) :
    decode record.encode = .ok record := by
  have hform := (validate_iff.mp h).1
  rw [decode, dif_pos record.length_encode, fromOffsets_encode]
  simp only [bind_eq_ok, ensure_eq_ok, pure_eq_ok]
  exact ⟨(), hform.magic, (), hform.version, (), by rw [hform.length]; rfl, (), h, trivial⟩

end GuestFaultRecordV1

/-! ## The text for the host's log -/

/-- The buffer of the writer: how many bytes it takes and what has been written to its front. -/
structure GuestFaultLogWriter where
  capacity : ℕ
  written : Bytes

namespace GuestFaultLogWriter

/-- A text is written if there is room for it. -/
def bytes (bytes : Bytes) (writer : GuestFaultLogWriter) : Option GuestFaultLogWriter :=
  if writer.written.length + bytes.length ≤ writer.capacity then
    some { writer with written := writer.written ++ bytes }
  else none

/-- The loop that fills an array with the digits of a number from the last one on; there is none
when the array has no room left. -/
def reversed : ℕ → UInt32 → Option Bytes
  | 0, _ => none
  | room + 1, value =>
    let digit := 48 + UInt8.ofNat (value % 10).toNat
    let value := value / 10
    if value = 0 then some [digit] else (reversed room value).map (digit :: ·)

/-- A number is written digit by digit. -/
def number (value : UInt32) (writer : GuestFaultLogWriter) : Option GuestFaultLogWriter := do
  let digits ← reversed 10 value
  digits.reverse.foldlM (fun writer digit => writer.bytes [digit]) writer

end GuestFaultLogWriter

open GuestFaultLogWriter in
/-- The text in front of the end of the writer, whose length the source returns. -/
def GuestFaultRecordV1.writeLogMessageV1 (record : GuestFaultRecordV1) (capacity : ℕ) :
    Option Bytes :=
  Option.map written do
    let writer ← bytes (ascii "JSGF;v=1;code=") { capacity, written := [] }
    let writer ← number record.code writer
    let writer ← bytes (ascii ";stage=") writer
    let writer ← number record.stage writer
    let writer ← bytes (ascii ";req=") writer
    let writer ← number record.requestedBytes writer
    let writer ← bytes (ascii ";align=") writer
    let writer ← number record.alignment writer
    let writer ← bytes (ascii ";committed=") writer
    let writer ← number record.heapCommittedBytes writer
    let writer ← bytes (ascii ";max=") writer
    let writer ← number record.heapMaxBytes writer
    let writer ← bytes (ascii ";allocator_live_requested=") writer
    let writer ← number record.liveRequestedBytes writer
    let writer ← bytes (ascii ";allocator_high_water_requested=") writer
    let writer ← number record.highWaterRequestedBytes writer
    let writer ← bytes (ascii ";allocator_cumulative_requested=") writer
    number record.cumulativeRequestedBytes writer

/-- The decimal digits of a number, the most significant one first and not zero, or a single
zero. -/
def decimalDigits (value : ℕ) : List ℕ := if value = 0 then [0] else (Nat.digits 10 value).reverse

/-- A number in decimal. -/
def decimal (value : ℕ) : Bytes := (decimalDigits value).map fun digit => UInt8.ofNat (48 + digit)

/-- Labels and decimal numbers by turns. -/
def labelled : List Bytes → List UInt32 → Bytes
  | label :: labels, value :: values => label ++ (decimal value.toNat ++ labelled labels values)
  | _, _ => []

def logLabels : List Bytes :=
  [ascii "JSGF;v=1;code=", ascii ";stage=", ascii ";req=", ascii ";align=", ascii ";committed=",
    ascii ";max=", ascii ";allocator_live_requested=", ascii ";allocator_high_water_requested=",
    ascii ";allocator_cumulative_requested="]

/-- What the log shows of a record. -/
def GuestFaultRecordV1.logText (record : GuestFaultRecordV1) : Bytes :=
  labelled logLabels record.fields

namespace GuestFaultLogWriter

/-- A step of the writer adds `text` whenever there is room for it. -/
def Writes (step : GuestFaultLogWriter → Option GuestFaultLogWriter) (text : Bytes) : Prop :=
  ∀ writer : GuestFaultLogWriter, writer.written.length + text.length ≤ writer.capacity →
    step writer = some { writer with written := writer.written ++ text }

theorem writes_bytes (text : Bytes) : Writes (bytes text) text := fun _ hroom => if_pos hroom

/-- Steps in a row write their texts in a row. -/
theorem Writes.bind {step next : GuestFaultLogWriter → Option GuestFaultLogWriter} {s t : Bytes}
    (hstep : Writes step s) (hnext : Writes next t) : Writes (fun writer => step writer >>= next)
    (s ++ t) := by
  intro writer hroom
  rw [List.length_append] at hroom
  change (step writer >>= next) = _
  rw [hstep writer (by omega), Option.bind_eq_bind, Option.bind_some, hnext _ (by simp; omega),
    List.append_assoc]

theorem writes_foldlM (text : Bytes) :
    Writes (fun writer => text.foldlM (fun writer digit => writer.bytes [digit]) writer) text := by
  induction text with
  | nil =>
    intro writer _
    rw [List.append_nil]
    rfl
  | cons digit text ih => exact (writes_bytes [digit]).bind ih

/-- The loop finds the digits when the array holds as many. -/
theorem reversed_eq {room : ℕ} {value : UInt32} (hroom : value.toNat < 10 ^ room)
    (hpos : 0 < room) :
    reversed room value = some (decimal value.toNat).reverse := by
  induction room generalizing value with
  | zero => exact absurd hpos (lt_irrefl 0)
  | succ room ih =>
    have hdigit : 48 + UInt8.ofNat (value % 10).toNat = UInt8.ofNat (48 + value.toNat % 10) := by
      rw [UInt32.toNat_mod, UInt8.ofNat_add]
      rfl
    have hquotient : (value / 10).toNat = value.toNat / 10 := UInt32.toNat_div _ _
    simp only [reversed, hdigit]
    by_cases hlast : value / 10 = 0
    · -- the last round: a number below ten, which may be zero
      have hsmall : value.toNat < 10 := by
        have : value.toNat / 10 = 0 := by rw [← hquotient, hlast]; rfl
        omega
      rw [if_pos hlast, Nat.mod_eq_of_lt hsmall]
      unfold decimal decimalDigits
      split
      next hzero => simp [hzero]
      next hzero => simp [Nat.digits_of_lt 10 _ hzero hsmall]
    · have hrest : value.toNat / 10 ≠ 0 := fun h =>
        hlast (UInt32.toNat_inj.mp (by rw [hquotient, h]; rfl))
      have hnonzero : value.toNat ≠ 0 := fun h => hrest (by rw [h])
      have hbelow : value.toNat / 10 < 10 ^ room := by
        rw [pow_succ] at hroom
        omega
      have hmore : 0 < room := by
        rcases Nat.eq_zero_or_pos room with rfl | h
        · omega
        · exact h
      rw [if_neg hlast, ih (by rwa [hquotient]) hmore, hquotient, decimal, decimal, decimalDigits,
        decimalDigits,
        if_neg hrest, if_neg hnonzero, Nat.digits_def' (by decide) (Nat.pos_of_ne_zero hnonzero)]
      simp

/-- A number is written in decimal. -/
theorem writes_number (value : UInt32) : Writes (number value) (decimal value.toNat) := by
  intro writer hroom
  have hvalue : value.toNat < 10 ^ 10 := lt_trans value.toNat_lt (by decide)
  rw [number, reversed_eq hvalue (by decide), Option.bind_eq_bind, Option.bind_some,
    List.reverse_reverse]
  exact writes_foldlM _ writer hroom

end GuestFaultLogWriter

theorem decimalDigits_lt {value digit : ℕ} (h : digit ∈ decimalDigits value) : digit < 10 := by
  unfold decimalDigits at h
  split at h
  · rw [List.mem_singleton.mp h]
    decide
  · exact Nat.digits_lt_base (by decide) (List.mem_reverse.mp h)

theorem length_decimal_le (value : UInt32) : (decimal value.toNat).length ≤ 10 := by
  rw [decimal, List.length_map, decimalDigits]
  split
  · decide
  · rw [List.length_reverse, Nat.digits_length_le_iff (by decide)]
    exact lt_trans value.toNat_lt (by decide)

/-- No number runs into the next label. -/
theorem semicolon_notMem_decimal (value : ℕ) : (59 : UInt8) ∉ decimal value := by
  rw [decimal, List.mem_map]
  rintro ⟨digit, hmem, hdigit⟩
  have hlt := decimalDigits_lt hmem
  interval_cases digit <;> exact absurd hdigit (by decide)

/-- Only zero starts with a zero. -/
theorem decimal_of_head_zero {value : ℕ} (h : (decimal value).head? = some 48) :
    decimal value = [48] := by
  unfold decimal decimalDigits at h ⊢
  split at h
  next hzero => rw [if_pos hzero]; rfl
  next hnonzero =>
    have hlast := Nat.getLast_digit_ne_zero 10 hnonzero
    have hnil := Nat.digits_ne_nil_iff_ne_zero (b := 10) |>.mpr hnonzero
    have hlt := Nat.digits_lt_base (by decide : 1 < 10) (List.getLast_mem hnil)
    rw [List.head?_map, List.head?_reverse, List.getLast?_eq_some_getLast hnil] at h
    generalize (Nat.digits 10 value).getLast _ = digit at h hlast hlt
    interval_cases digit <;> simp_all

/-- Reading a decimal number back. -/
theorem ofDigits_decimal (value : ℕ) :
    Nat.ofDigits 10 ((decimal value).map fun byte => byte.toNat - 48).reverse = value := by
  have hdigits : (decimal value).map (fun byte => byte.toNat - 48) = decimalDigits value := by
    rw [decimal, List.map_map]
    refine (List.map_congr_left fun digit hmem => ?_).trans (List.map_id _)
    have hlt := decimalDigits_lt hmem
    interval_cases digit <;> rfl
  rw [hdigits, decimalDigits]
  split
  next hzero => rw [hzero]; rfl
  next => rw [List.reverse_reverse, Nat.ofDigits_digits]

/-- Different numbers have different digits. -/
theorem decimal_injective : Function.Injective decimal := by
  intro value value' h
  rw [← ofDigits_decimal value, h, ofDigits_decimal]

theorem length_labelled_le (labels : List Bytes) (values : List UInt32) :
    (labelled labels values).length ≤ labels.flatten.length + 10 * labels.length := by
  induction labels, values using labelled.induct with
  | case1 label labels value values ih =>
    have := length_decimal_le value
    simp only [labelled, List.flatten_cons, List.length_append, List.length_cons]
    omega
  | case2 labels values hnone =>
    rw [labelled.eq_2 _ _ hnone]
    exact Nat.zero_le _

/-- The numbers can be read back when every label but the first starts with a semicolon. -/
theorem labelled_injective {labels : List Bytes}
    (hlabels : ∀ label ∈ labels.tail, label.head? = some 59) {values values' : List UInt32}
    (hvalues : values.length = labels.length) (hvalues' : values'.length = labels.length)
    (h : labelled labels values ++ [59] = labelled labels values' ++ [59]) : values = values' := by
  induction labels generalizing values values' with
  | nil => rw [List.length_eq_zero_iff.mp hvalues, List.length_eq_zero_iff.mp hvalues']
  | cons label labels ih =>
    obtain ⟨value, values, rfl⟩ := List.exists_cons_of_length_eq_add_one hvalues
    obtain ⟨value', values', rfl⟩ := List.exists_cons_of_length_eq_add_one hvalues'
    -- what comes after a number starts with a semicolon, also at the end
    have hnext : ∀ values : List UInt32, ∃ rest, labelled labels values ++ [59] = 59 :: rest := by
      intro values
      match labels, values with
      | [], _ => exact ⟨[], rfl⟩
      | _ :: _, [] => exact ⟨[], rfl⟩
      | (byte :: label) :: labels, value :: values =>
        obtain rfl : byte = 59 := Option.some.inj (hlabels _ List.mem_cons_self)
        exact ⟨_, rfl⟩
      | [] :: labels, value :: values => exact absurd (hlabels _ List.mem_cons_self) (by simp)
    simp only [labelled, List.append_assoc] at h
    have htail := List.append_cancel_left h
    obtain ⟨rest, hrest⟩ := hnext values
    obtain ⟨rest', hrest'⟩ := hnext values'
    rw [hrest, hrest'] at htail
    obtain ⟨hvalue, hafter⟩ := append_delimiter_inj (semicolon_notMem_decimal _)
      (semicolon_notMem_decimal _) htail
    rw [UInt32.toNat_inj.mp (decimal_injective hvalue),
      ih (fun label hlabel => hlabels label (List.mem_of_mem_tail hlabel)) (Nat.succ.inj hvalues)
        (Nat.succ.inj hvalues') (by rw [hrest, hrest', hafter])]

namespace GuestFaultRecordV1

open GuestFaultLogWriter

theorem writeLogMessageV1_eq {record : GuestFaultRecordV1} {capacity : ℕ}
    (hroom : record.logText.length ≤ capacity) :
    record.writeLogMessageV1 capacity = some record.logText := by
  -- nine labels, each with its number
  have hentry : ∀ (label : Bytes) (value : UInt32) {next : GuestFaultLogWriter →
    Option GuestFaultLogWriter}
      {rest : Bytes}, Writes next rest → Writes (fun writer => bytes label writer >>= fun writer =>
        number value writer >>= next) (label ++ (decimal value.toNat ++ rest)) :=
    fun label value _ _ hnext => (writes_bytes label).bind ((writes_number value).bind hnext)
  have hwrites := hentry (ascii "JSGF;v=1;code=") record.code <|
    hentry (ascii ";stage=") record.stage <| hentry (ascii ";req=") record.requestedBytes <|
    hentry (ascii ";align=") record.alignment <| hentry (ascii ";committed=")
    record.heapCommittedBytes <|
    hentry (ascii ";max=") record.heapMaxBytes <|
    hentry (ascii ";allocator_live_requested=") record.liveRequestedBytes <|
    hentry (ascii ";allocator_high_water_requested=") record.highWaterRequestedBytes <|
    (writes_bytes (ascii ";allocator_cumulative_requested=")).bind
      (writes_number record.cumulativeRequestedBytes)
  simp only [logText, logLabels, fields, labelled, List.append_nil] at hroom ⊢
  have hstart := hwrites { capacity, written := [] }
    (by rw [List.length_nil, Nat.zero_add]; exact hroom)
  rw [List.nil_append] at hstart
  exact (congrArg (Option.map GuestFaultLogWriter.written) hstart).trans rfl

/-- The log has room for every record. -/
theorem length_logText_le (record : GuestFaultRecordV1) :
    record.logText.length ≤ guestFaultLogMessageCapacityV1 :=
  (length_labelled_le logLabels record.fields).trans (by decide +kernel)

/-- The log writer has room for every record, writes the numbers in decimal between their labels,
each with the value of the field and no leading zero, and writes different texts for different
fields. -/
theorem log_faithful (record : GuestFaultRecordV1) :
    record.writeLogMessageV1 guestFaultLogMessageCapacityV1 =
      some (labelled logLabels record.fields) ∧
    (∀ value ∈ record.fields,
      Nat.ofDigits 10 ((decimal value.toNat).map fun byte => byte.toNat - 48).reverse =
        value.toNat ∧
      (∀ byte ∈ decimal value.toNat, 48 ≤ byte ∧ byte ≤ 57) ∧
      ((decimal value.toNat).head? = some 48 → decimal value.toNat = [48])) ∧
    ∀ other : GuestFaultRecordV1,
      record.writeLogMessageV1 guestFaultLogMessageCapacityV1 =
        other.writeLogMessageV1 guestFaultLogMessageCapacityV1 → record.fields = other.fields := by
  refine ⟨writeLogMessageV1_eq record.length_logText_le, fun value _ =>
    ⟨ofDigits_decimal _, ?_, ?_⟩, ?_⟩
  · intro byte hbyte
    obtain ⟨digit, hmem, rfl⟩ := List.mem_map.mp hbyte
    have hlt := decimalDigits_lt hmem
    interval_cases digit <;> decide
  · exact decimal_of_head_zero
  · intro other h
    rw [writeLogMessageV1_eq record.length_logText_le, writeLogMessageV1_eq
      other.length_logText_le] at h
    exact labelled_injective (by decide) rfl rfl (congrArg (· ++ [59]) (Option.some.inj h))

/-- The record of a refused allocation of 5000 bytes in a heap of two pages, and the same for 500
bytes. -/
theorem log_faithful_refusal :
    let refused : GuestFaultRecordV1 := { empty with
      code := 1, stage := 2, requestedBytes := 5000, alignment := 8, heapCommittedBytes := 4096,
      heapMaxBytes := 8192, liveRequestedBytes := 3900, highWaterRequestedBytes := 4010,
      cumulativeRequestedBytes := 70500 }
    refused.writeLogMessageV1 guestFaultLogMessageCapacityV1 =
    some (ascii ("JSGF;v=1;code=1;stage=2;" ++
      "req=5000;align=8;committed=4096;max=8192;allocator_live_requested=3900;" ++
      "allocator_high_water_requested=4010;allocator_cumulative_requested=70500")) ∧
    refused.writeLogMessageV1 guestFaultLogMessageCapacityV1 ≠
      { refused with requestedBytes := 500 }.writeLogMessageV1 guestFaultLogMessageCapacityV1 := by
  intro refused
  have h := log_faithful refused
  refine ⟨h.1.trans ?_, fun hsame => ?_⟩
  · decide +kernel
  · exact absurd (h.2.2 _ hsame) (by decide)

end GuestFaultRecordV1

end JamScript
