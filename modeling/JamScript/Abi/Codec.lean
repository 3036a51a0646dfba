import JamScript.Abi.Types
import JamScript.Common.Agreement
import JamScript.Common.Inverse
import JamScript.Core.Natural

/-!
# The codec of the ABI

`jamscript-codec` writes a value under a type and reads it back. The reader of length prefixes is a
parameter of the decoder here: with `Reader.natural` it is `decode_from`, and with
`Reader.shortestNatural`, which insists on the shortest prefix, it is the inverse of the encoder
(`inverts_decodeShortest`). That the decoder of the source reads every encoding back follows from
it, and so does which other byte strings it accepts.
-/

namespace JamScript.Abi

open Codec

/-- Why a value cannot be written, or bytes cannot be read. -/
inductive CodecError where
  | typeMismatch (what : String)
  | unexpectedEof
  | trailingBytes
  | invalidBool
  | invalidUtf8
  | invalidVariant
  | invalidLength
  | outOfRange
  | boundExceeded
  | unsupportedType
  deriving DecidableEq, Repr

/-! ## Values by their kind

`encode_into` matches on the type and the value together; a value of the wrong kind ends in
`TypeMismatch("value")`. -/

namespace Value

/-- A kind of values: how to make one, and what a value of the kind was made from. -/
structure Kind (α : Type) where
  make : α → Value
  contents : Value → Option α
  contents_eq_some : ∀ {value a}, contents value = some a ↔ value = make a := by
    intro value a
    cases value <;> simp [Prod.ext_iff]

namespace Kind

/-- The unit value. -/
def unit : Kind Unit where
  make := fun _ => .unit
  contents | .unit => some () | _ => none

/-- The values of `Bool`. -/
def bool : Kind Bool where
  make := .bool
  contents | .bool value => some value | _ => none

/-- The values of the unsigned integers, of any width. -/
def unsigned : Kind ℕ where
  make := .unsigned
  contents | .unsigned value => some value | _ => none

/-- The values of the signed integers, of any width. -/
def signed : Kind ℤ where
  make := .signed
  contents | .signed value => some value | _ => none

/-- The values of the byte types. -/
def bytes : Kind Bytes where
  make := .bytes
  contents | .bytes value => some value | _ => none

/-- The values of `Ownership`. -/
def ownership : Kind Ownership where
  make := .ownership
  contents | .ownership value => some value | _ => none

/-- The values of `String`. -/
def string : Kind String where
  make := .string
  contents | .string value => some value | _ => none

/-- The values of arrays. -/
def array : Kind (List Value) where
  make := .array
  contents | .array values => some values | _ => none

/-- The values of tuples. -/
def tuple : Kind (List Value) where
  make := .tuple
  contents | .tuple values => some values | _ => none

/-- The values of records, with the names of their fields. -/
def record : Kind (List (String × Value)) where
  make := .record
  contents | .record values => some values | _ => none

/-- The values of options. -/
def option : Kind (Option Value) where
  make := .option
  contents | .option value => some value | _ => none

/-- The values of enumerations, with the index of the variant. -/
def enum : Kind (UInt8 × Value) where
  make := fun a => .enum a.1 a.2
  contents | .enum index value => some (index, value) | _ => none

/-- The values of results. -/
def result : Kind (Value ⊕ Value) where
  make := .result
  contents | .result value => some value | _ => none

end Kind

/-- The contents of a value of the given kind. -/
def expect {α : Type} (kind : Kind α) (value : Value) : Except CodecError α :=
  match kind.contents value with
  | some contents => pure contents
  | none => throw (.typeMismatch "value")

/-- A value has a kind exactly when it is made of contents of that kind. -/
theorem expect_eq_ok {α : Type} (kind : Kind α) {value : Value} {a : α} :
    value.expect kind = .ok a ↔ value = kind.make a := by
  rw [← kind.contents_eq_some, expect]
  cases kind.contents value with
  | some contents => exact pure_eq_ok.trans Option.some_inj.symm
  | none => exact iff_of_false nofun nofun

end Value

/-! ## The encoder -/

/-- `push_unsigned`. -/
def pushUnsigned (max width value : ℕ) : Except CodecError Bytes := do
  ensure (value ≤ max) CodecError.outOfRange
  pure ((toLe 16 value).take width)

/-- `i128::to_le_bytes`. -/
def i128ToLe (value : ℤ) : Bytes := toLe 16 (value % 2 ^ 128).toNat

/-- `push_signed`. -/
def pushSigned (min max : ℤ) (width : ℕ) (value : ℤ) : Except CodecError Bytes := do
  ensure (min ≤ value ∧ value ≤ max) CodecError.outOfRange
  pure ((i128ToLe value).take width)

/-- The check of a length against its bound, and the prefix. -/
def pushLength (max : UInt32) (length : ℕ) : Except CodecError Bytes := do
  ensure (length ≤ max.toNat) CodecError.boundExceeded
  ensure (length < 2 ^ 64) CodecError.outOfRange
  pure (encodeNatural (UInt64.ofNat length))

/-- Something behind its length. -/
def pushSized (max : UInt32) (length : ℕ) (content : Except CodecError Bytes) :
    Except CodecError Bytes := do
  let length ← pushLength max length
  let content ← content
  pure (length ++ content)

/-- The bytes of a text. -/
def utf8 (text : String) : Bytes := text.toByteArray.data.toList

mutual

/-- `encode_into`, with the bytes it adds to the output. -/
def encodeInto : TypeIr → Value → Except CodecError Bytes
  | .unit, value => do
    value.expect .unit
    pure []
  | .bool, value => do
    let flag ← value.expect .bool
    pure [if flag then 1 else 0]
  | .u8, value => do pushUnsigned (2 ^ 8 - 1) 1 (← value.expect .unsigned)
  | .u16, value => do pushUnsigned (2 ^ 16 - 1) 2 (← value.expect .unsigned)
  | .u32, value => do pushUnsigned (2 ^ 32 - 1) 4 (← value.expect .unsigned)
  | .u64, value => do pushUnsigned (2 ^ 64 - 1) 8 (← value.expect .unsigned)
  | .u128, value => do pushUnsigned (2 ^ 128 - 1) 16 (← value.expect .unsigned)
  | .i8, value => do pushSigned (-2 ^ 7) (2 ^ 7 - 1) 1 (← value.expect .signed)
  | .i16, value => do pushSigned (-2 ^ 15) (2 ^ 15 - 1) 2 (← value.expect .signed)
  | .i32, value => do pushSigned (-2 ^ 31) (2 ^ 31 - 1) 4 (← value.expect .signed)
  | .i64, value => do pushSigned (-2 ^ 63) (2 ^ 63 - 1) 8 (← value.expect .signed)
  | .i128, value => do pushSigned (-2 ^ 127) (2 ^ 127 - 1) 16 (← value.expect .signed)
  | .address, value => do
    let bytes ← value.expect .bytes
    ensure (bytes.length = 32) CodecError.invalidLength
    pure bytes
  | .ownership, value => do
    let ownership ← value.expect .ownership
    ownership.encode.mapError fun _ => CodecError.invalidLength
  | .fixedBytes len, value => do
    let bytes ← value.expect .bytes
    ensure (bytes.length = len.toNat) CodecError.invalidLength
    pure bytes
  | .bytes max, value => do
    let bytes ← value.expect .bytes
    pushSized max bytes.length (pure bytes)
  | .string max, value => do
    let text ← value.expect .string
    pushSized max (utf8 text).length (pure (utf8 text))
  | .fixedArray item len, value => do
    let values ← value.expect .array
    ensure (values.length = len.toNat) (CodecError.typeMismatch "value")
    let written ← values.mapM (encodeInto item)
    pure written.flatten
  | .array item max, value => do
    let values ← value.expect .array
    pushSized max values.length do
      let written ← values.mapM (encodeInto item)
      pure written.flatten
  | .option item, value => do
    match ← value.expect .option with
    | none => pure [0]
    | some value => do
      let written ← encodeInto item value
      pure (1 :: written)
  | .tuple items, value => do
    let values ← value.expect .tuple
    ensure (items.length = values.length) (CodecError.typeMismatch "value")
    encodeItems items values
  | .record fields, value => do
    let values ← value.expect .record
    ensure (fields.length = values.length) (CodecError.typeMismatch "value")
    encodeFields fields values
  | .enum variants, value => do
    let (index, value) ← value.expect .enum
    encodeVariant variants index value
  | .result ok err, value => do
    match ← value.expect .result with
    | .inl value => do
      let written ← encodeInto ok value
      pure (0 :: written)
    | .inr value => do
      let written ← encodeInto err value
      pure (1 :: written)
  | .unsupported _, _ => throw .unsupportedType

/-- The loop over the items of a tuple. -/
def encodeItems : List TypeIr → List Value → Except CodecError Bytes
  | item :: items, value :: values => do
    let written ← encodeInto item value
    let others ← encodeItems items values
    pure (written ++ others)
  | _, _ => pure []

/-- The loop over the fields of a record. -/
def encodeFields : List FieldIr → List (String × Value) → Except CodecError Bytes
  | ⟨name, ty⟩ :: fields, value :: values => do
    ensure (name = value.1) (CodecError.typeMismatch "record field order")
    let written ← encodeInto ty value.2
    let others ← encodeFields fields values
    pure (written ++ others)
  | _, _ => pure []

/-- The variant with the index, if there is one, and its value. -/
def encodeVariant : List VariantIr → UInt8 → Value → Except CodecError Bytes
  | [], _, _ => throw .invalidVariant
  | ⟨_, index, ty⟩ :: variants, wanted, value =>
    if index = wanted then do
      let written ← encodeInto ty value
      pure (wanted :: written)
    else encodeVariant variants wanted value

end

/-- `encode`. -/
def encode (ty : TypeIr) (value : Value) : Except CodecError Bytes := encodeInto ty value

/-! ## The decoder -/

namespace Reader

/-- `Reader::take`. -/
def take (len : ℕ) : Parser CodecError Bytes := Parser.take .unexpectedEof len

/-- `Reader::u8`. -/
def u8 : Parser CodecError UInt8 := Parser.u8 .unexpectedEof

/-- What `natural` does after the first byte. -/
def naturalRest (first : UInt8) : Parser CodecError UInt64 :=
  let extra := leadingOnes first
  if first < 0x80 then pure first.toUInt64
  else if extra = 8 then do
    let bytes ← take 8
    pure (u64OfLe bytes)
  else do
    let low ← take extra
    pure (UInt64.ofNat (ofLe low ||| highBits first <<< (8 * extra)))

/-- `Reader::natural`: the ones at the start of the first byte count the bytes that follow. -/
def natural : Parser CodecError UInt64 := do
  let first ← u8
  naturalRest first

/-- `natural`, where no shorter prefix would have done. -/
def shortestNatural : Parser CodecError UInt64 := do
  let first ← u8
  let value ← naturalRest first
  Parser.check (Shortest first value.toNat) .invalidLength
  pure value

end Reader

/-- An unsigned integer of `width` bytes. -/
def readUnsigned (width : ℕ) : Parser CodecError ℕ := do
  let bytes ← Reader.take width
  pure (ofLe bytes)

/-- A signed integer of `width` bytes, in two's complement. -/
def readSigned (width : ℕ) : Parser CodecError ℤ := do
  let bytes ← Reader.take width
  pure ((ofLe bytes : ℤ).bmod (256 ^ width))

/-- A length prefix and the check of its bound. -/
def readLength (natural : Parser CodecError UInt64) (max : UInt32) : Parser CodecError ℕ := do
  let len ← natural
  Parser.check (len.toNat ≤ max.toNat) .boundExceeded
  pure len.toNat

/-- The fields are read one by one and put together for `Ownership::decode`. -/
def readOwnership : Parser CodecError Ownership := do
  let version ← Reader.u8
  let kind ← Reader.u8
  let length ← Reader.take 2
  let publicValue ← Reader.take (u16OfLe length).toNat
  ((Ownership.decode ([version, kind] ++ length ++ publicValue)).mapError fun _ =>
    CodecError.invalidLength : Except CodecError Ownership)

/-- `String::from_utf8`. -/
def fromUtf8 (bytes : Bytes) : Except CodecError String :=
  match String.fromUTF8? bytes.toByteArray with
  | some text => pure text
  | none => throw .invalidUtf8

/-- A text of `len` bytes. -/
def readText (len : ℕ) : Parser CodecError String := do
  let bytes ← Reader.take len
  (fromUtf8 bytes : Except CodecError String)

/-- Something behind its length. -/
def readSized {α : Type} (natural : Parser CodecError UInt64) (max : UInt32)
    (read : ℕ → Parser CodecError α) :
    Parser CodecError α := do
  let len ← readLength natural max
  read len

mutual

/-- `decode_from`, with the reader of length prefixes as a parameter. -/
def decodeWith (natural : Parser CodecError UInt64) : TypeIr → Parser CodecError Value
  | .unit => pure .unit
  | .bool => do
    match ← Reader.u8 with
    | 0 => pure (.bool false)
    | 1 => pure (.bool true)
    | _ => throw .invalidBool
  | .u8 => do return .unsigned (← readUnsigned 1)
  | .u16 => do return .unsigned (← readUnsigned 2)
  | .u32 => do return .unsigned (← readUnsigned 4)
  | .u64 => do return .unsigned (← readUnsigned 8)
  | .u128 => do return .unsigned (← readUnsigned 16)
  | .i8 => do return .signed (← readSigned 1)
  | .i16 => do return .signed (← readSigned 2)
  | .i32 => do return .signed (← readSigned 4)
  | .i64 => do return .signed (← readSigned 8)
  | .i128 => do return .signed (← readSigned 16)
  | .address => do return .bytes (← Reader.take 32)
  | .ownership => do return .ownership (← readOwnership)
  | .fixedBytes len => do return .bytes (← Reader.take len.toNat)
  | .bytes max => do return .bytes (← readSized natural max Reader.take)
  | .string max => do return .string (← readSized natural max readText)
  | .fixedArray item len => do return .array (← Parser.many (decodeWith natural item) len.toNat)
  | .array item max => do return .array (← readSized natural max
    (Parser.many (decodeWith natural item)))
  | .option item => do
    match ← Reader.u8 with
    | 0 => pure (.option none)
    | 1 => do return .option (some (← decodeWith natural item))
    | _ => throw .invalidVariant
  | .tuple items => do return .tuple (← decodeItems natural items)
  | .record fields => do return .record (← decodeFields natural fields)
  | .enum variants => do
    let index ← Reader.u8
    return .enum index (← decodeVariant natural variants index)
  | .result ok err => do
    match ← Reader.u8 with
    | 0 => do return .result (.inl (← decodeWith natural ok))
    | 1 => do return .result (.inr (← decodeWith natural err))
    | _ => throw .invalidVariant
  | .unsupported _ => throw .unsupportedType

/-- The items of a tuple, in order. -/
def decodeItems (natural : Parser CodecError UInt64) : List TypeIr → Parser CodecError (List Value)
  | [] => pure []
  | item :: items => do
    let value ← decodeWith natural item
    let values ← decodeItems natural items
    pure (value :: values)

/-- The fields of a record, in the order of their types. -/
def decodeFields (natural : Parser CodecError UInt64) :
    List FieldIr → Parser CodecError (List (String × Value))
  | [] => pure []
  | ⟨name, ty⟩ :: fields => do
    let value ← decodeWith natural ty
    let values ← decodeFields natural fields
    pure ((name, value) :: values)

/-- The value of the variant with the index, if there is one. -/
def decodeVariant (natural : Parser CodecError UInt64) : List VariantIr → UInt8 →
    Parser CodecError Value
  | [], _ => throw .invalidVariant
  | ⟨_, index, ty⟩ :: variants, wanted =>
    if index = wanted then decodeWith natural ty else decodeVariant natural variants wanted

end

/-- `decode_from`: what follows the value is left. -/
def decodeFrom (ty : TypeIr) : Parser CodecError Value := decodeWith Reader.natural ty

/-- `decode`: nothing may follow the value. -/
def decode (ty : TypeIr) (bytes : Bytes) : Except CodecError Value :=
  Parser.whole .trailingBytes (decodeFrom ty) bytes

/-! ## Length prefixes -/

namespace Reader

/-- A byte is the head of the input. -/
theorem u8_eq_ok {bytes rest : Bytes} {byte : UInt8} : u8 bytes = .ok (byte, rest) ↔
    bytes = byte :: rest := by
  rw [u8, (Parser.recognizes_u8 _).eq_ok, true_and, List.singleton_append]

/-- Taking bytes splits the input. -/
theorem take_eq_ok {len : ℕ} {bytes rest value : Bytes} :
    take len bytes = .ok (value, rest) ↔ value.length = len ∧ bytes = value ++ rest :=
  Parser.take_eq_ok

/-- What follows the first byte of a natural number. -/
theorem naturalRest_eq_ok {first : UInt8} {bytes rest : Bytes} {value : UInt64} :
    naturalRest first bytes = .ok (value, rest) ↔
      ∃ low, bytes = low ++ rest ∧ low.length = leadingOnes first ∧
        naturalOf first low = value.toNat := by
  obtain ⟨hones, -, -, hzero⟩ := firstByte_parts first
  -- whichever branch it takes, the reader assembles `naturalOf`
  have hassembled : ∀ {low : Bytes}, low.length = leadingOnes first →
      (UInt64.ofNat (naturalOf first low) = value ↔ naturalOf first low = value.toNat) := by
    intro low hlow
    rw [← UInt64.toNat_inj, UInt64.toNat_ofNat_of_lt' (naturalOf_lt_u64 hlow)]
  unfold naturalRest
  split
  -- the first byte alone, eight bytes behind it, or anything in between
  case isTrue hlt =>
    have hnone := hzero.mpr hlt
    have hempty : ([] : Bytes).length = leadingOnes first := hnone.symm
    have hbyte : first.toUInt64 = UInt64.ofNat (naturalOf first []) := by
      rw [naturalOf_nil hnone, ← UInt64.toNat_inj, UInt8.toNat_toUInt64,
        UInt64.toNat_ofNat_of_lt' (first.toNat_lt.trans (by norm_num))]
    rw [Parser.pure_eq_ok, hbyte, hassembled hempty]
    constructor
    · rintro ⟨hvalue, rfl⟩
      exact ⟨[], rfl, hnone.symm, hvalue⟩
    · rintro ⟨low, rfl, hlow, hvalue⟩
      obtain rfl := List.length_eq_zero_iff.mp (hlow.trans hnone)
      exact ⟨hvalue, rfl⟩
  case isFalse hge =>
    have hread : ∀ {low : Bytes}, low.length = leadingOnes first → leadingOnes first = 8 →
        u64OfLe low = UInt64.ofNat (naturalOf first low) := by
      intro low hlow height
      have hbits := (firstByte_parts first).2.1
      rw [height] at hbits
      have hnone : highBits first = 0 := by omega
      rw [naturalOf_eq hlow, hnone, zero_mul, zero_add]
      rfl
    split
    case isTrue height =>
      simp only [Parser.bind_eq_ok, take_eq_ok, Parser.pure_eq_ok]
      constructor
      · rintro ⟨low, _, ⟨hlow, rfl⟩, hvalue, rfl⟩
        rw [← height] at hlow
        rw [hread hlow height, hassembled hlow] at hvalue
        exact ⟨low, rfl, hlow, hvalue⟩
      · rintro ⟨low, rfl, hlow, hvalue⟩
        refine ⟨low, rest, ⟨hlow.trans height, rfl⟩, ?_, rfl⟩
        rw [hread hlow height, hassembled hlow, hvalue]
    case isFalse =>
      simp only [Parser.bind_eq_ok, take_eq_ok, Parser.pure_eq_ok, Nat.lor_comm (ofLe _)]
      constructor
      · rintro ⟨low, _, ⟨hlow, rfl⟩, hvalue, rfl⟩
        exact ⟨low, rfl, hlow, (hassembled hlow).mp hvalue⟩
      · rintro ⟨low, rfl, hlow, hvalue⟩
        exact ⟨low, rest, ⟨hlow, rfl⟩, (hassembled hlow).mpr hvalue, rfl⟩

/-- The reader accepts every first byte with as many bytes behind it as it has leading ones. -/
theorem natural_eq_ok {bytes rest : Bytes} {value : UInt64} :
    natural bytes = .ok (value, rest) ↔
      ∃ first low, bytes = first :: (low ++ rest) ∧ low.length = leadingOnes first ∧
        naturalOf first low = value.toNat := by
  simp only [natural, Parser.bind_eq_ok, u8_eq_ok, naturalRest_eq_ok]
  constructor
  · rintro ⟨first, _, rfl, low, rfl, hlow, hvalue⟩
    exact ⟨first, low, rfl, hlow, hvalue⟩
  · rintro ⟨first, low, rfl, hlow, hvalue⟩
    exact ⟨first, _, rfl, low, rfl, hlow, hvalue⟩

/-- The reader of shortest forms reads what the encoder writes. -/
theorem shortestNatural_eq_ok {bytes rest : Bytes} {value : UInt64} :
    shortestNatural bytes = .ok (value, rest) ↔ bytes = encodeNatural value ++ rest := by
  obtain ⟨first, low, hencode, hparts⟩ := encodeNatural_spec value
  simp only [shortestNatural, Parser.bind_eq_ok, u8_eq_ok, naturalRest_eq_ok, Parser.check_eq_ok,
    Parser.pure_eq_ok]
  constructor
  · rintro ⟨first, _, rfl, _, _, ⟨low, rfl, hlow, hvalue⟩, _, _, ⟨hshortest, rfl⟩, rfl, rfl⟩
    rw [encodeNatural_eq_cons_iff.mpr ⟨hlow, hvalue, hshortest⟩, List.cons_append]
  · rintro rfl
    obtain ⟨hlow, hvalue, hshortest⟩ := hparts
    rw [hencode]
    exact ⟨first, _, rfl, value, rest, ⟨low, rfl, hlow, hvalue⟩, (), rest,
      ⟨hshortest, rfl⟩, rfl, rfl⟩

end Reader

/-! ## The strict decoder inverts the encoder -/

/-- Unsigned integers in as many bytes as their type has. -/
theorem inverts_unsigned {max width : ℕ} (hwidth : width ≤ 16) (hmax : max + 1 = 256 ^ width) :
    Inverts (readUnsigned width) (pushUnsigned max width) := by
  intro bytes rest value
  simp only [readUnsigned, pushUnsigned, Parser.bind_eq_ok, Reader.take_eq_ok,
    Parser.pure_eq_ok, bind_eq_ok, ensure_eq_ok, exists_const, take_toLe hwidth, pure_eq_ok]
  constructor
  · rintro ⟨read, _, ⟨hlength, rfl⟩, rfl, rfl⟩
    -- every number of that many bytes is in range
    have hlt := ofLe_lt read
    rw [hlength] at hlt
    refine ⟨_, ⟨by omega, rfl⟩, ?_⟩
    rw [← hlength, toLe_ofLe]
  · rintro ⟨_, ⟨hle, rfl⟩, rfl⟩
    refine ⟨_, rest, ⟨length_toLe _ _, rfl⟩, ?_, rfl⟩
    rw [ofLe_toLe]
    exact Nat.mod_eq_of_lt (by omega)

/-- The low bytes of a signed number are its remainder. -/
theorem ofLe_take_i128ToLe {width : ℕ} (hwidth : width ≤ 16) (value : ℤ) :
    (ofLe ((i128ToLe value).take width) : ℤ) = value % 256 ^ width := by
  have hdvd : (256 ^ width : ℤ) ∣ 2 ^ 128 := by
    have hpow : (2 ^ 128 : ℤ) = 256 ^ 16 := by norm_num
    rw [hpow]
    exact pow_dvd_pow _ hwidth
  have hnonneg : 0 ≤ value % 2 ^ 128 := Int.emod_nonneg _ (by norm_num)
  rw [i128ToLe, take_toLe hwidth, ofLe_toLe, Int.natCast_emod, Int.toNat_of_nonneg hnonneg]
  push_cast
  exact Int.emod_emod_of_dvd _ hdvd

/-- Signed integers in two's complement. -/
theorem inverts_signed (half : ℕ) {width : ℕ} (hwidth : width ≤ 16)
    (hhalf : 2 * half = 256 ^ width) :
    Inverts (readSigned width) (pushSigned (-half) (half - 1) width) := by
  have hlength : ∀ value, ((i128ToLe value).take width).length = width := by
    intro value
    rw [i128ToLe, take_toLe hwidth, length_toLe]
  have hpos : 0 < 256 ^ width := by positivity
  intro bytes rest value
  simp only [readSigned, pushSigned, Parser.bind_eq_ok, Reader.take_eq_ok,
    Parser.pure_eq_ok, bind_eq_ok, ensure_eq_ok, exists_const, pure_eq_ok]
  constructor
  · rintro ⟨read, _, ⟨hread, rfl⟩, rfl, rfl⟩
    have hlt := ofLe_lt read
    rw [hread] at hlt
    have hlower := Int.le_bmod hpos (x := (ofLe read : ℤ))
    have hupper := Int.bmod_lt hpos (x := (ofLe read : ℤ))
    refine ⟨_, ⟨by omega, rfl⟩, ?_⟩
    congr 1
    refine ofLe_injOn (hread.trans (hlength _).symm) ?_
    have hmod := ofLe_take_i128ToLe hwidth ((ofLe read : ℤ).bmod (256 ^ width))
    have hcast : ((256 ^ width : ℕ) : ℤ) = 256 ^ width := by push_cast; rfl
    rw [← hcast, Int.bmod_emod, Int.emod_eq_of_lt (by omega) (by omega)] at hmod
    exact_mod_cast hmod.symm
  · rintro ⟨_, ⟨hrange, rfl⟩, rfl⟩
    refine ⟨_, rest, ⟨hlength value, rfl⟩, ?_, rfl⟩
    have hcast : ((256 ^ width : ℕ) : ℤ) = 256 ^ width := by push_cast; rfl
    rw [ofLe_take_i128ToLe hwidth, ← hcast, Int.emod_bmod]
    exact Int.bmod_eq_of_le (by omega) (by omega)

/-- Lengths up to a maximum. -/
theorem inverts_length (max : UInt32) :
    Inverts (readLength Reader.shortestNatural max) (pushLength max) := by
  intro bytes rest len
  simp only [readLength, pushLength, Parser.bind_eq_ok, Reader.shortestNatural_eq_ok,
    Parser.check_eq_ok, Parser.pure_eq_ok, bind_eq_ok, ensure_eq_ok, exists_const, pure_eq_ok]
  constructor
  · rintro ⟨value, _, rfl, _, ⟨hle, rfl⟩, rfl, rfl⟩
    refine ⟨_, ⟨hle, value.toNat_lt, rfl⟩, ?_⟩
    rw [UInt64.ofNat_toNat]
  · rintro ⟨_, ⟨hle, hlt, rfl⟩, rfl⟩
    have hnat : (UInt64.ofNat len).toNat = len := UInt64.toNat_ofNat_of_lt' hlt
    exact ⟨UInt64.ofNat len, rest, rfl, rest, ⟨by rwa [hnat], rfl⟩, hnat, rfl⟩

/-- UTF-8 bytes are those of one text. -/
theorem fromUtf8_eq_ok {bytes : Bytes} {text : String} : fromUtf8 bytes = .ok text ↔
    bytes = utf8 text := by
  unfold fromUtf8 String.fromUTF8? utf8
  constructor
  · intro h
    split at h
    case h_2 => cases h
    case h_1 heq =>
      cases h
      obtain ⟨hvalid, htext⟩ := Option.dite_none_right_eq_some.mp heq
      have hbytes : text.toByteArray = bytes.toByteArray := by
        rw [← Option.some.inj htext]
        rfl
      rw [hbytes, List.toList_data_toByteArray]
  · rintro rfl
    have hbytes : text.toByteArray.data.toList.toByteArray = text.toByteArray :=
      ByteArray.ext (List.data_toByteArray.trans Array.toArray_toList)
    rw [hbytes, dif_pos text.isValidUTF8]
    rfl

/-- Texts, by the number of their bytes. -/
theorem invertsSized_string :
    InvertsSized readText (fun text => (.ok (utf8 text) : Except CodecError Bytes))
      fun text => (utf8 text).length := by
  intro len bytes rest text
  simp only [readText, Parser.bind_eq_ok, Reader.take_eq_ok, Parser.lift_eq_ok, fromUtf8_eq_ok,
    Except.ok.injEq]
  constructor
  · rintro ⟨_, _, ⟨hlength, rfl⟩, rfl, rfl⟩
    exact ⟨hlength, _, rfl, rfl⟩
  · rintro ⟨hlength, _, rfl, rfl⟩
    exact ⟨_, _, ⟨hlength, rfl⟩, rfl, rfl⟩

/-- Ownership values are written by their own encoder. -/
theorem inverts_ownership :
    Inverts readOwnership fun ownership => ownership.encode.mapError fun _ =>
      CodecError.invalidLength := by
  intro bytes rest ownership
  simp only [readOwnership, Parser.bind_eq_ok, Reader.u8_eq_ok, Reader.take_eq_ok,
    Parser.lift_eq_ok, mapError_eq_ok, Ownership.decode_eq_ok]
  constructor
  · rintro ⟨version, _, rfl, kind, _, rfl, length, _, ⟨-, rfl⟩, publicValue, _,
      ⟨-, rfl⟩, hencode, rfl⟩
    exact ⟨_, hencode, by simp⟩
  · rintro ⟨_, hencode, rfl⟩
    -- the length is read from the encoding that is then decoded as a whole
    have hbytes := Ownership.encode_eq_ok hencode
    obtain ⟨hvalid, -⟩ := Ownership.encode_eq_ok_iff.mp hencode
    have hshort := Ownership.length_of_validate hvalid
    have hlength : (u16OfLe (u16ToLe (UInt16.ofNat ownership.publicValue.length))).toNat =
        ownership.publicValue.length := by
      rw [u16OfLe_u16ToLe, UInt16.toNat_ofNat_of_lt' (hshort.trans_lt (by decide))]
    subst hbytes
    refine ⟨ownership.version, _, rfl, ownership.kind.toU8, _, rfl, _, _,
      ⟨length_u16ToLe _, List.append_assoc _ _ _⟩, _, _, ⟨hlength.symm, rfl⟩, hencode, rfl⟩

/-- Nothing is written for the unit value. -/
theorem inverts_unit : Inverts (pure () : Parser CodecError Unit) fun _ =>
    (.ok [] : Except CodecError Bytes) := by
  intro bytes rest u
  rw [Parser.pure_eq_ok]
  simp

/-- A boolean is the byte 0 or 1. -/
theorem inverts_bool :
    Inverts (decodeWith Reader.shortestNatural .bool) (encodeInto .bool) := by
  intro bytes rest value
  simp only [decodeWith, encodeInto, Parser.bind_eq_ok, Reader.u8_eq_ok, bind_eq_ok,
    Value.expect_eq_ok, Value.Kind.bool, pure_eq_ok]
  constructor
  · rintro ⟨tag, _, rfl, h⟩
    split at h
    · obtain ⟨rfl, rfl⟩ := Parser.pure_eq_ok.mp h
      exact ⟨_, ⟨false, rfl, rfl⟩, rfl⟩
    · obtain ⟨rfl, rfl⟩ := Parser.pure_eq_ok.mp h
      exact ⟨_, ⟨true, rfl, rfl⟩, rfl⟩
    · cases h
  · rintro ⟨_, ⟨flag, rfl, rfl⟩, rfl⟩
    cases flag with
    | false => exact ⟨0, rest, rfl, rfl⟩
    | true => exact ⟨1, rest, rfl, rfl⟩

section Nested

variable {natural : Parser CodecError UInt64}

/-- A tag and then the value, if there is one. -/
theorem inverts_option {item : TypeIr} (h : Inverts (decodeWith natural item) (encodeInto item)) :
    Inverts (decodeWith natural (.option item)) (encodeInto (.option item)) := by
  intro bytes rest value
  simp only [decodeWith, encodeInto, Parser.bind_eq_ok, Reader.u8_eq_ok, bind_eq_ok,
    Value.expect_eq_ok, Value.Kind.option]
  constructor
  · rintro ⟨tag, _, rfl, hread⟩
    split at hread
    · obtain ⟨rfl, rfl⟩ := Parser.pure_eq_ok.mp hread
      exact ⟨[0], ⟨none, rfl, rfl⟩, rfl⟩
    · obtain ⟨inner, _, hinner, hpure⟩ := Parser.bind_eq_ok.mp hread
      obtain ⟨rfl, rfl⟩ := Parser.pure_eq_ok.mp hpure
      obtain ⟨written, hwritten, rfl⟩ := (h _ _ _).mp hinner
      exact ⟨1 :: written, ⟨some inner, rfl, bind_eq_ok.mpr ⟨written, hwritten, rfl⟩⟩, rfl⟩
    · cases hread
  · rintro ⟨_, ⟨inner, rfl, hwritten⟩, rfl⟩
    cases inner with
    | none =>
      cases hwritten
      exact ⟨0, rest, rfl, rfl⟩
    | some inner =>
      obtain ⟨written, hinner, hcons⟩ := bind_eq_ok.mp hwritten
      cases hcons
      exact ⟨1, written ++ rest, rfl, Parser.bind_eq_ok.mpr
        ⟨inner, rest, (h _ _ _).mpr ⟨written, hinner, rfl⟩, rfl⟩⟩

/-- A tag and then the value of that side. -/
theorem inverts_result {ok err : TypeIr} (hok : Inverts (decodeWith natural ok) (encodeInto ok))
    (herr : Inverts (decodeWith natural err) (encodeInto err)) :
    Inverts (decodeWith natural (.result ok err)) (encodeInto (.result ok err)) := by
  intro bytes rest value
  simp only [decodeWith, encodeInto, Parser.bind_eq_ok, Reader.u8_eq_ok, bind_eq_ok,
    Value.expect_eq_ok, Value.Kind.result]
  constructor
  · rintro ⟨tag, _, rfl, hread⟩
    split at hread
    · obtain ⟨inner, _, hinner, hpure⟩ := Parser.bind_eq_ok.mp hread
      obtain ⟨rfl, rfl⟩ := Parser.pure_eq_ok.mp hpure
      obtain ⟨written, hwritten, rfl⟩ := (hok _ _ _).mp hinner
      exact ⟨0 :: written, ⟨.inl inner, rfl, bind_eq_ok.mpr ⟨written, hwritten, rfl⟩⟩, rfl⟩
    · obtain ⟨inner, _, hinner, hpure⟩ := Parser.bind_eq_ok.mp hread
      obtain ⟨rfl, rfl⟩ := Parser.pure_eq_ok.mp hpure
      obtain ⟨written, hwritten, rfl⟩ := (herr _ _ _).mp hinner
      exact ⟨1 :: written, ⟨.inr inner, rfl, bind_eq_ok.mpr ⟨written, hwritten, rfl⟩⟩, rfl⟩
    · cases hread
  · rintro ⟨_, ⟨inner, rfl, hwritten⟩, rfl⟩
    cases inner with
    | inl inner =>
      obtain ⟨written, hinner, hcons⟩ := bind_eq_ok.mp hwritten
      cases hcons
      exact ⟨0, written ++ rest, rfl, Parser.bind_eq_ok.mpr
        ⟨inner, rest, (hok _ _ _).mpr ⟨written, hinner, rfl⟩, rfl⟩⟩
    | inr inner =>
      obtain ⟨written, hinner, hcons⟩ := bind_eq_ok.mp hwritten
      cases hcons
      exact ⟨1, written ++ rest, rfl, Parser.bind_eq_ok.mpr
        ⟨inner, rest, (herr _ _ _).mpr ⟨written, hinner, rfl⟩, rfl⟩⟩

/-- The items of a tuple, one after the other. -/
theorem inverts_items {items : List TypeIr}
    (h : ∀ item ∈ items, Inverts (decodeWith natural item) (encodeInto item)) :
    Inverts (decodeItems natural items) fun values =>
      ensure (items.length = values.length) (CodecError.typeMismatch "value") >>= fun _ =>
        encodeItems items values := by
  induction items with
  | nil =>
    intro bytes rest values
    simp only [decodeItems, Parser.pure_eq_ok, bind_eq_ok, ensure_eq_ok, exists_const,
      List.length_nil]
    constructor
    · rintro ⟨rfl, rfl⟩
      exact ⟨[], ⟨rfl, rfl⟩, rfl⟩
    · rintro ⟨_, ⟨hlength, hwritten⟩, rfl⟩
      obtain rfl := List.length_eq_zero_iff.mp hlength.symm
      cases hwritten
      exact ⟨rfl, rfl⟩
  | cons item items ih =>
    rw [List.forall_mem_cons] at h
    intro bytes rest values
    simp only [decodeItems, Parser.bind_eq_ok, Parser.pure_eq_ok, bind_eq_ok,
      ensure_eq_ok, exists_const]
    constructor
    · rintro ⟨value, mid, hvalue, others, _, hothers, rfl, rfl⟩
      obtain ⟨head, hhead, rfl⟩ := (h.1 _ _ _).mp hvalue
      obtain ⟨tail, htail, rfl⟩ := (ih h.2 _ _ _).mp hothers
      obtain ⟨_, hlength, htail⟩ := bind_eq_ok.mp htail
      refine ⟨head ++ tail, ⟨congrArg (· + 1) (ensure_eq_ok.mp hlength), ?_⟩, by simp⟩
      exact bind_eq_ok.mpr ⟨head, hhead, bind_eq_ok.mpr ⟨tail, htail, rfl⟩⟩
    · rintro ⟨_, ⟨hlength, hwritten⟩, rfl⟩
      obtain ⟨value, others, rfl⟩ := List.exists_cons_of_length_eq_add_one hlength.symm
      obtain ⟨head, hhead, hwritten⟩ := bind_eq_ok.mp hwritten
      obtain ⟨tail, htail, happend⟩ := bind_eq_ok.mp hwritten
      cases happend
      refine ⟨value, tail ++ rest, (h.1 _ _ _).mpr ⟨head, hhead, by simp⟩, others,
        rest, ?_, rfl, rfl⟩
      exact (ih h.2 _ _ _).mpr
        ⟨tail, bind_eq_ok.mpr ⟨(), ensure_eq_ok.mpr (Nat.succ.inj hlength), htail⟩, rfl⟩

/-- The fields of a record, under their names. -/
theorem inverts_fields {fields : List FieldIr}
    (h : ∀ field ∈ fields, Inverts (decodeWith natural field.ty) (encodeInto field.ty)) :
    Inverts (decodeFields natural fields) fun values =>
      ensure (fields.length = values.length) (CodecError.typeMismatch "value") >>= fun _ =>
        encodeFields fields values := by
  induction fields with
  | nil =>
    intro bytes rest values
    simp only [decodeFields, Parser.pure_eq_ok, bind_eq_ok, ensure_eq_ok, exists_const,
      List.length_nil]
    constructor
    · rintro ⟨rfl, rfl⟩
      exact ⟨[], ⟨rfl, rfl⟩, rfl⟩
    · rintro ⟨_, ⟨hlength, hwritten⟩, rfl⟩
      obtain rfl := List.length_eq_zero_iff.mp hlength.symm
      cases hwritten
      exact ⟨rfl, rfl⟩
  | cons field fields ih =>
    rw [List.forall_mem_cons] at h
    obtain ⟨name, ty⟩ := field
    intro bytes rest values
    simp only [decodeFields, Parser.bind_eq_ok, Parser.pure_eq_ok, bind_eq_ok,
      ensure_eq_ok, exists_const]
    constructor
    · rintro ⟨value, mid, hvalue, others, _, hothers, rfl, rfl⟩
      obtain ⟨head, hhead, rfl⟩ := (h.1 _ _ _).mp hvalue
      obtain ⟨tail, htail, rfl⟩ := (ih h.2 _ _ _).mp hothers
      obtain ⟨_, hlength, htail⟩ := bind_eq_ok.mp htail
      refine ⟨head ++ tail, ⟨congrArg (· + 1) (ensure_eq_ok.mp hlength), ?_⟩, by simp⟩
      exact bind_eq_ok.mpr ⟨(), ensure_eq_ok.mpr rfl,
        bind_eq_ok.mpr ⟨head, hhead, bind_eq_ok.mpr ⟨tail, htail, rfl⟩⟩⟩
    · rintro ⟨_, ⟨hlength, hwritten⟩, rfl⟩
      obtain ⟨⟨name', value⟩, others, rfl⟩ := List.exists_cons_of_length_eq_add_one hlength.symm
      obtain ⟨_, hname, hwritten⟩ := bind_eq_ok.mp hwritten
      obtain ⟨head, hhead, hwritten⟩ := bind_eq_ok.mp hwritten
      obtain ⟨tail, htail, happend⟩ := bind_eq_ok.mp hwritten
      cases happend
      obtain rfl := ensure_eq_ok.mp hname
      refine ⟨value, tail ++ rest, (h.1 _ _ _).mpr ⟨head, hhead, by simp⟩, others,
        rest, ?_, rfl, rfl⟩
      exact (ih h.2 _ _ _).mpr
        ⟨tail, bind_eq_ok.mpr ⟨(), ensure_eq_ok.mpr (Nat.succ.inj hlength), htail⟩, rfl⟩

/-- The variants of an enumeration: both sides take the first one with the index. -/
theorem inverts_variant {variants : List VariantIr}
    (h : ∀ variant ∈ variants, Inverts (decodeWith natural variant.ty) (encodeInto variant.ty))
    (index : UInt8) (bytes rest : Bytes) (value : Value) :
    decodeVariant natural variants index bytes = .ok (value, rest) ↔
      ∃ written, encodeVariant variants index value = .ok (index :: written) ∧
        bytes = written ++ rest := by
  induction variants with
  | nil => exact ⟨nofun, fun ⟨_, hwritten, _⟩ => nomatch hwritten⟩
  | cons variant variants ih =>
    rw [List.forall_mem_cons] at h
    obtain ⟨name, candidate, ty⟩ := variant
    simp only [decodeVariant, encodeVariant]
    split
    case isTrue =>
      rw [h.1]
      simp only [bind_eq_ok, pure_eq_ok, List.cons.injEq, true_and, exists_eq_right]
    case isFalse => exact ih h.2

/-- The index of a variant comes first. -/
theorem encodeVariant_eq_ok {variants : List VariantIr} {index : UInt8} {value : Value}
    {written : Bytes} (h : encodeVariant variants index value = .ok written) :
    ∃ tail, written = index :: tail := by
  induction variants with
  | nil => cases h
  | cons variant variants ih =>
    obtain ⟨name, candidate, ty⟩ := variant
    rw [encodeVariant] at h
    split at h
    case isTrue =>
      obtain ⟨tail, -, hcons⟩ := bind_eq_ok.mp h
      cases hcons
      exact ⟨tail, rfl⟩
    case isFalse => exact ih h

/-- The variant of an index, and then its value. -/
theorem inverts_enum {variants : List VariantIr}
    (h : ∀ variant ∈ variants, Inverts (decodeWith natural variant.ty) (encodeInto variant.ty)) :
    Inverts (decodeWith natural (.enum variants)) (encodeInto (.enum variants)) := by
  intro bytes rest value
  simp only [decodeWith, encodeInto, Parser.bind_eq_ok, Reader.u8_eq_ok, bind_eq_ok,
    Value.expect_eq_ok, Value.Kind.enum, Parser.pure_eq_ok, inverts_variant h]
  constructor
  · rintro ⟨index, _, rfl, inner, _, ⟨written, hwritten, rfl⟩, rfl, rfl⟩
    exact ⟨_, ⟨(index, inner), rfl, hwritten⟩, rfl⟩
  · rintro ⟨written, ⟨⟨index, inner⟩, rfl, hwritten⟩, rfl⟩
    -- the index is read before the variant is looked up
    obtain ⟨tail, rfl⟩ := encodeVariant_eq_ok hwritten
    exact ⟨index, _, rfl, inner, rest, ⟨tail, hwritten, rfl⟩, rfl, rfl⟩

end Nested

/-- With the shortest length prefixes, the decoder reads exactly what the encoder writes. -/
theorem inverts_decodeShortest (ty : TypeIr) :
    Inverts (decodeWith Reader.shortestNatural ty) (encodeInto ty) := by
  -- one reader and writer for each type; a length prefix stands in front of what varies in size
  induction ty with
  | unit => exact inverts_unit.case (Value.expect_eq_ok .unit)
  | u8 => exact (inverts_unsigned (by norm_num) (by norm_num)).case (Value.expect_eq_ok _)
  | u16 => exact (inverts_unsigned (by norm_num) (by norm_num)).case (Value.expect_eq_ok _)
  | u64 => exact (inverts_unsigned (by norm_num) (by norm_num)).case (Value.expect_eq_ok _)
  | u32 => exact (inverts_unsigned (by norm_num) (by norm_num)).case (Value.expect_eq_ok _)
  | u128 => exact (inverts_unsigned (by norm_num) (by norm_num)).case (Value.expect_eq_ok _)
  | i8 => exact (inverts_signed (2 ^ 7) (by norm_num) (by norm_num)).case (Value.expect_eq_ok _)
  | i16 => exact (inverts_signed (2 ^ 15) (by norm_num) (by norm_num)).case (Value.expect_eq_ok _)
  | i32 => exact (inverts_signed (2 ^ 31) (by norm_num) (by norm_num)).case (Value.expect_eq_ok _)
  | i64 => exact (inverts_signed (2 ^ 63) (by norm_num) (by norm_num)).case (Value.expect_eq_ok _)
  | i128 => exact (inverts_signed (2 ^ 127) (by norm_num) (by norm_num)).case (Value.expect_eq_ok _)
  | bool => exact inverts_bool
  | address => exact ((invertsSized_take _).fixed 32 _).case (Value.expect_eq_ok _)
  | ownership => exact inverts_ownership.case (Value.expect_eq_ok _)
  | fixedBytes len => exact ((invertsSized_take _).fixed len.toNat _).case (Value.expect_eq_ok _)
  | bytes max =>
    exact ((invertsSized_take _).behind (inverts_length max)).case (Value.expect_eq_ok _)
  | string max =>
    exact (invertsSized_string.behind (inverts_length max)).case (Value.expect_eq_ok _)
  | fixedArray item len ih =>
    exact (ih.invertsSized_many.fixed len.toNat _).case (Value.expect_eq_ok _)
  | array item max ih =>
    exact (ih.invertsSized_many.behind (inverts_length max)).case (Value.expect_eq_ok _)
  | option item ih => exact inverts_option ih
  | tuple items ih => exact (inverts_items ih).case (Value.expect_eq_ok _)
  | record fields ih => exact (inverts_fields ih).case (Value.expect_eq_ok _)
  | enum variants ih => exact inverts_enum ih
  | result ok err hok herr => exact inverts_result hok herr
  | unsupported name => exact fun bytes rest value => ⟨nofun, fun ⟨_, h, _⟩ => nomatch h⟩

/-! ## From the strict decoder to the decoder of the source -/

/-- A reader of prefixes that accepts more makes a decoder that accepts more. -/
theorem decodeWith_within {natural natural' : Parser CodecError UInt64}
    (h : Within natural natural') (ty : TypeIr) : Within (decodeWith natural ty)
    (decodeWith natural' ty) := by
  have hsized : ∀ {α : Type} (max : UInt32) {read read' : ℕ → Parser CodecError α},
      (∀ len, Within (read len) (read' len)) →
        Within (readSized natural max read) (readSized natural' max read') :=
    fun max _ _ hread => (h.bind fun _ => .refl _).bind hread
  -- only the types with a length prefix use the reader of natural numbers
  induction ty with
  | bytes max => exact (hsized max fun _ => .refl _).bind fun _ => .refl _
  | string max => exact (hsized max fun _ => .refl _).bind fun _ => .refl _
  | fixedArray item len ih => exact (ih.many _).bind fun _ => .refl _
  | array item max ih => exact (hsized max ih.many).bind fun _ => .refl _
  | option item ih =>
    refine (Within.refl Reader.u8).bind fun tag => ?_
    split
    · exact .refl _
    · exact ih.bind fun _ => .refl _
    · exact .refl _
  | tuple items ih =>
    refine Within.bind ?_ fun _ => .refl _
    induction items with
    | nil => exact .refl _
    | cons item items ihItems =>
      rw [List.forall_mem_cons] at ih
      exact ih.1.bind fun _ => (ihItems ih.2).bind fun _ => .refl _
  | record fields ih =>
    refine Within.bind ?_ fun _ => .refl _
    induction fields with
    | nil => exact .refl _
    | cons field fields ihFields =>
      rw [List.forall_mem_cons] at ih
      obtain ⟨name, ty⟩ := field
      exact ih.1.bind fun _ => (ihFields ih.2).bind fun _ => .refl _
  | enum variants ih =>
    refine (Within.refl Reader.u8).bind fun index => Within.bind ?_ fun _ => .refl _
    induction variants with
    | nil => exact .refl _
    | cons variant variants ihVariants =>
      rw [List.forall_mem_cons] at ih
      obtain ⟨name, candidate, ty⟩ := variant
      rw [decodeVariant, decodeVariant]
      split
      · exact ih.1
      · exact ihVariants ih.2
  | result ok err hok herr =>
    refine (Within.refl Reader.u8).bind fun tag => ?_
    split
    · exact hok.bind fun _ => .refl _
    · exact herr.bind fun _ => .refl _
    · exact .refl _
  | _ => exact .refl _

/-- The decoder of the source reads all that the reader of shortest forms reads. -/
theorem shortestNatural_within : Within Reader.shortestNatural Reader.natural := by
  rintro bytes ⟨value, rest⟩ h
  obtain ⟨first, low, hencode, hlow, hvalue, -⟩ := encodeNatural_spec value
  rw [Reader.shortestNatural_eq_ok.mp h, hencode]
  exact Reader.natural_eq_ok.mpr ⟨first, low, rfl, hlow, hvalue⟩

/-- The decoder of the source reads every encoding back, whatever follows it. -/
theorem reads_decodeFrom {ty : TypeIr} {value : Value} {bytes : Bytes}
    (h : encode ty value = .ok bytes) :
    Reads (decodeFrom ty) bytes value :=
  fun rest => decodeWith_within shortestNatural_within ty ((inverts_decodeShortest ty).reads h rest)

/-- No encoding is the beginning of another one of its type. -/
theorem encode_append_unique {ty : TypeIr} {value value' : Value} {bytes rest : Bytes}
    (h : encode ty value = .ok bytes) (h' : encode ty value' = .ok (bytes ++ rest)) :
    value = value' ∧ rest = [] := by
  have hread := reads_decodeFrom h rest
  have hread' := reads_decodeFrom h' []
  rw [List.append_nil, hread, Except.ok.injEq, Prod.mk.injEq] at hread'
  exact hread'

/-- Encodings in a row are read as the values in a row. -/
theorem reads_decodeItems {fields : List (TypeIr × Value × Bytes)}
    (h : ∀ field ∈ fields, encode field.1 field.2.1 = .ok field.2.2) :
    Reads (decodeItems Reader.natural (fields.map (·.1))) (fields.map (·.2.2)).flatten
      (fields.map (·.2.1)) := by
  induction fields with
  | nil => exact Reads.pure []
  | cons field fields ih =>
    rw [List.forall_mem_cons] at h
    exact (reads_decodeFrom h.1).bind ((ih h.2).bind_pure _)

/-- Encodings are read back, alone and in front of anything; none of a type is a proper start of
another of that type; encodings in a row are read one by one; and each belongs to one value. -/
theorem codec_round_trip :
    (∀ ty value bytes, encode ty value = .ok bytes →
      decode ty bytes = .ok value ∧ ∀ rest, decodeFrom ty (bytes ++ rest) = .ok (value, rest)) ∧
    (∀ ty value value' bytes rest, encode ty value = .ok bytes →
      encode ty value' = .ok (bytes ++ rest) →
      rest = []) ∧
    (∀ fields : List (TypeIr × Value × Bytes),
      (∀ field ∈ fields, encode field.1 field.2.1 = .ok field.2.2) →
        ∀ rest, decodeItems Reader.natural (fields.map (·.1))
          ((fields.map (·.2.2)).flatten ++ rest) =
          .ok (fields.map (·.2.1), rest)) ∧
    (∀ ty value value' bytes, encode ty value = .ok bytes → encode ty value' = .ok bytes →
      value = value') := by
  refine ⟨fun ty value bytes h => ⟨(reads_decodeFrom h).whole _, reads_decodeFrom h⟩,
    fun ty value value' bytes rest h h' => (encode_append_unique h h').2,
    fun fields h => reads_decodeItems h, fun ty value value' bytes h h' => ?_⟩
  have happend : encode ty value' = .ok (bytes ++ []) := by rwa [List.append_nil]
  exact (encode_append_unique h happend).1

/-- A record with an optional list of signed numbers. -/
def readingsType : TypeIr := .record [⟨"id", .u16⟩, ⟨"readings", .option (.array .i8 4)⟩]

/-- A record with an option of an array. -/
def readings : Value :=
  .record [("id", .unsigned 258), ("readings", .option (some (.array [.signed (-1), .signed 5])))]

theorem codec_round_trip_readings :
    encode readingsType readings = .ok [2, 1, 1, 2, 255, 5] ∧
      decodeFrom readingsType [2, 1, 1, 2, 255, 5, 9] = .ok (readings, [9]) := by
  have h : encode readingsType readings = .ok [2, 1, 1, 2, 255, 5] := rfl
  exact ⟨h, (codec_round_trip.1 _ _ _ h).2 [9]⟩

/-! ## Other accepted encodings -/

/-- The decoder that insists on the shortest length prefixes. -/
def decodeShortest (ty : TypeIr) (bytes : Bytes) : Except CodecError Value :=
  Parser.whole .trailingBytes (decodeWith Reader.shortestNatural ty) bytes

/-- What the strict decoder accepts is read as the same value without its strictness. -/
theorem decode_of_decodeShortest {ty : TypeIr} {bytes : Bytes} {value : Value}
    (h : decodeShortest ty bytes = .ok value) : decode ty bytes = .ok value :=
  (reads_decodeFrom ((inverts_decodeShortest ty).whole_eq_ok.mp h)).whole _

/-- What is decoded is encoded as the same bytes exactly for the byte strings that are no encoding
of the type at all, or in which every length prefix is the shortest one. -/
theorem decode_canonical_iff (ty : TypeIr) (bytes : Bytes) :
    (∀ value, decode ty bytes = .ok value → encode ty value = .ok bytes) ↔
      (∃ e, decode ty bytes = .error e) ∨ ∃ value, decodeShortest ty bytes = .ok value := by
  constructor
  · intro hcanonical
    rcases hdecode : decode ty bytes with e | value
    · exact .inl ⟨e, rfl⟩
    · exact .inr ⟨value, (inverts_decodeShortest ty).whole_eq_ok.mpr (hcanonical value hdecode)⟩
  · rintro (⟨e, herror⟩ | ⟨shortest, hshortest⟩) value hdecode
    · rw [herror] at hdecode
      cases hdecode
    · have hsame : shortest = value :=
        Except.ok.inj ((decode_of_decodeShortest hshortest).symm.trans hdecode)
      rw [← hsame]
      exact (inverts_decodeShortest ty).whole_eq_ok.mp hshortest

/-- The length of a byte string can also be written in two bytes, and then it is another encoding of
the value. -/
theorem long_prefix_accepted :
    decode (.bytes 10) [0x80, 1, 0xaa] = .ok (.bytes [0xaa]) ∧
      decode (.bytes 10) [1, 0xaa] = .ok (.bytes [0xaa]) ∧
      encode (.bytes 10) (.bytes [0xaa]) = .ok [1, 0xaa] :=
  ⟨rfl, rfl, rfl⟩

end JamScript.Abi
