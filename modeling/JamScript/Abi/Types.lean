import JamScript.Auth.Ownership

/-!
# Types and values of the ABI

`jamscript-ir` describes a type by `TypeIr` and `jamscript-codec` a value by `Value`. The types nest
through lists of items, fields and variants; `TypeIr.induct` is the induction over them that the
proofs use.
-/

namespace JamScript.Abi

open Codec

mutual

inductive TypeIr where
  | unit
  | u8
  | u16
  | u64
  | u32
  | u128
  | i8
  | i16
  | i32
  | i64
  | i128
  | bool
  | address
  | ownership
  | fixedBytes (len : UInt32)
  | bytes (max : UInt32)
  | string (max : UInt32)
  | fixedArray (item : TypeIr) (len : UInt32)
  | array (item : TypeIr) (max : UInt32)
  | option (item : TypeIr)
  | tuple (items : List TypeIr)
  | record (fields : List FieldIr)
  | enum (variants : List VariantIr)
  | result (ok err : TypeIr)
  | unsupported (name : String)

structure FieldIr where
  name : String
  ty : TypeIr

structure VariantIr where
  name : String
  index : UInt8
  ty : TypeIr

end

/-- A value of any type. `u128` and `i128` are numbers: the encoder refuses what does not fit the
type. -/
inductive Value where
  | unit
  | bool (value : Bool)
  | unsigned (value : ℕ)
  | signed (value : ℤ)
  | bytes (value : Bytes)
  | ownership (value : Ownership)
  | string (value : String)
  | array (values : List Value)
  | tuple (values : List Value)
  | record (values : List (String × Value))
  | option (value : Option Value)
  | enum (index : UInt8) (value : Value)
  | result (value : Value ⊕ Value)

/-- Induction over types, with hypotheses about all items, fields and variants. -/
@[elab_as_elim, induction_eliminator]
theorem TypeIr.induct {motive : TypeIr → Prop}
    (unit : motive .unit) (u8 : motive .u8) (u16 : motive .u16) (u64 : motive .u64)
    (u32 : motive .u32) (u128 : motive .u128) (i8 : motive .i8) (i16 : motive .i16)
    (i32 : motive .i32) (i64 : motive .i64) (i128 : motive .i128) (bool : motive .bool)
    (address : motive .address) (ownership : motive .ownership)
    (fixedBytes : ∀ len, motive (.fixedBytes len)) (bytes : ∀ max, motive (.bytes max))
    (string : ∀ max, motive (.string max)) (fixedArray : ∀ item len, motive item →
      motive (.fixedArray item len))
    (array : ∀ item max, motive item → motive (.array item max))
    (option : ∀ item, motive item → motive (.option item))
    (tuple : ∀ items, (∀ item ∈ items, motive item) → motive (.tuple items))
    (record : ∀ fields, (∀ field ∈ fields, motive field.ty) → motive (.record fields))
    (enum : ∀ variants, (∀ variant ∈ variants, motive variant.ty) → motive (.enum variants))
    (result : ∀ ok err, motive ok → motive err → motive (.result ok err))
    (unsupported : ∀ name, motive (.unsupported name)) (ty : TypeIr) : motive ty :=
  @TypeIr.rec motive (fun field => motive field.ty) (fun variant => motive variant.ty)
    (fun items => ∀ item ∈ items, motive item) (fun fields => ∀ field ∈ fields, motive field.ty)
    (fun variants => ∀ variant ∈ variants, motive variant.ty)
    unit u8 u16 u64 u32 u128 i8 i16 i32 i64 i128 bool address ownership fixedBytes bytes
    string fixedArray
    array option tuple record enum result unsupported (fun _ _ h => h) (fun _ _ _ h => h) nofun
    (fun _ _ hitem hitems => List.forall_mem_cons.mpr ⟨hitem, hitems⟩) nofun
    (fun _ _ hfield hfields => List.forall_mem_cons.mpr ⟨hfield, hfields⟩) nofun
    (fun _ _ hvariant hvariants => List.forall_mem_cons.mpr ⟨hvariant, hvariants⟩) ty

end JamScript.Abi
