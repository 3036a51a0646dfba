import Mathlib.Logic.Relation
import JamScript.Abi.Types
import JamScript.Common.Delimited

/-!
# The names of types in the ABI

The ABI of a service lists its types under their names: texts with nested brackets in which items
follow each other with commas, fields with their names, and variants with their names and indices.

A name is a keyword, up to the opening bracket if there is one, and the arguments up to the closing
bracket. No keyword starts with another one (`keyword_append_inj`), numbers and identifiers contain
no delimiter, so that a name can be told from whatever follows it: `abiName_append_inj`, by
induction over the first type. The entries of the ABI are then followed through their collection, in
which an entry that is there stays.
-/

namespace JamScript.Abi

open Codec

/-! ## Names -/

/-- How the name of a type starts. -/
def keyword : TypeIr → List Char
  | .unit => "unit".toList
  | .u8 => "u8".toList
  | .u16 => "u16".toList
  | .u64 => "u64".toList
  | .u32 => "u32".toList
  | .u128 => "u128".toList
  | .i8 => "i8".toList
  | .i16 => "i16".toList
  | .i32 => "i32".toList
  | .i64 => "i64".toList
  | .i128 => "i128".toList
  | .bool => "bool".toList
  | .address => "address".toList
  | .ownership => "ownership".toList
  | .fixedBytes _ => "FixedBytes<".toList
  | .bytes _ => "Bytes<".toList
  | .string _ => "String<".toList
  | .fixedArray _ _ => "FixedArray<".toList
  | .array _ _ => "Array<".toList
  | .option _ => "Option<".toList
  | .tuple _ => "Tuple<".toList
  | .record _ => "Record<".toList
  | .enum _ => "Enum<".toList
  | .result _ _ => "Result<".toList
  | .unsupported name => name.toList

def number (n : ℕ) : List Char := Nat.toDigits 10 n

/-- Texts with commas between them, and the closing bracket. -/
def joined (texts : List (List Char)) : List Char := [','].intercalate texts ++ ['>']

mutual

/-- What follows the keyword. -/
def arguments : TypeIr → List Char
  | .fixedBytes len => number len.toNat ++ ['>']
  | .bytes max => number max.toNat ++ ['>']
  | .string max => number max.toNat ++ ['>']
  | .fixedArray item len =>
  keyword item ++ arguments item ++ [',', ' '] ++ number len.toNat ++ ['>']
  | .array item max => keyword item ++ arguments item ++ [',', ' '] ++ number max.toNat ++ ['>']
  | .option item => keyword item ++ arguments item ++ ['>']
  | .tuple items => joined (itemNames items)
  | .record fields => joined (fieldNames fields)
  | .enum variants => joined (variantNames variants)
  | .result ok err => keyword ok ++ arguments ok ++ [','] ++ (keyword err ++ arguments err) ++ ['>']
  | _ => []

def itemNames : List TypeIr → List (List Char)
  | [] => []
  | item :: items => (keyword item ++ arguments item) :: itemNames items

def fieldNames : List FieldIr → List (List Char)
  | [] => []
  | ⟨name, ty⟩ :: fields =>
  (name.toList ++ ':' :: (keyword ty ++ arguments ty)) :: fieldNames fields

def variantNames : List VariantIr → List (List Char)
  | [] => []
  | ⟨name, index, ty⟩ :: variants =>
    (name.toList ++ '=' :: (number index.toNat ++ ':' :: (keyword ty ++ arguments ty))) ::
      variantNames variants

end

/-- `abi_name`. -/
def abiName (ty : TypeIr) : List Char := keyword ty ++ arguments ty

def fieldName (field : FieldIr) : List Char := field.name.toList ++ ':' :: abiName field.ty

def variantName (variant : VariantIr) : List Char :=
  variant.name.toList ++ '=' :: (number variant.index.toNat ++ ':' :: abiName variant.ty)

theorem itemNames_eq (items : List TypeIr) : itemNames items = items.map abiName := by
  induction items with
  | nil => rfl
  | cons item items ih => rw [itemNames, ih]; rfl

theorem fieldNames_eq (fields : List FieldIr) : fieldNames fields = fields.map fieldName := by
  induction fields with
  | nil => rfl
  | cons field fields ih =>
    obtain ⟨name, ty⟩ := field
    rw [fieldNames, ih]
    rfl

theorem variantNames_eq (variants : List VariantIr) : variantNames variants =
    variants.map variantName := by
  induction variants with
  | nil => rfl
  | cons variant variants ih =>
    obtain ⟨name, index, ty⟩ := variant
    rw [variantNames, ih]
    rfl

/-- The names of fields and variants are identifiers: none of the delimiters is among their
characters. -/
def IsIdentifier (name : String) : Prop := ∀ c ∈ name.toList, c ∉ [',', ':', '=', '<', '>']

/-- The types that a type is made of. -/
def children : TypeIr → List TypeIr
  | .fixedArray item _ | .array item _ | .option item => [item]
  | .tuple items => items
  | .record fields => fields.map (·.ty)
  | .enum variants => variants.map (·.ty)
  | .result ok err => [ok, err]
  | _ => []

def labels : TypeIr → List String
  | .record fields => fields.map (·.name)
  | .enum variants => variants.map (·.name)
  | _ => []

def IsSupported (ty : TypeIr) : Prop := ty.ctorIdx < 24

instance : DecidablePred IsSupported := fun ty => inferInstanceAs (Decidable (ty.ctorIdx < 24))

/-- The types that the parser builds: nested to any depth, with identifiers for names, and none that
is unsupported. -/
inductive WellNamed : TypeIr → Prop
  | intro {ty : TypeIr} (supported : IsSupported ty)
      (identifiers : ∀ label ∈ labels ty, IsIdentifier label)
      (nested : ∀ child ∈ children ty, WellNamed child) : WellNamed ty

namespace WellNamed

variable {ty : TypeIr}

theorem supported (h : WellNamed ty) : IsSupported ty := by
  cases h
  assumption

theorem identifiers (h : WellNamed ty) : ∀ label ∈ labels ty, IsIdentifier label := by
  cases h
  assumption

theorem nested (h : WellNamed ty) : ∀ child ∈ children ty, WellNamed child := by
  cases h
  assumption

theorem of_simple (hty : IsSupported ty) (hlabels : labels ty = []) (hchildren : children ty = []) :
    WellNamed ty := by
  refine .intro hty ?_ ?_
  · rw [hlabels]
    exact nofun
  · rw [hchildren]
    exact nofun

end WellNamed

/-! ## Reading a name -/

/-- The keywords in the order of the constructors. -/
private def keywords : List (List Char) :=
  ["unit".toList, "u8".toList, "u16".toList, "u64".toList, "u32".toList, "u128".toList, "i8".toList,
    "i16".toList, "i32".toList, "i64".toList, "i128".toList, "bool".toList, "address".toList,
    "ownership".toList, "FixedBytes<".toList, "Bytes<".toList, "String<".toList,
    "FixedArray<".toList,
    "Array<".toList, "Option<".toList, "Tuple<".toList, "Record<".toList, "Enum<".toList,
    "Result<".toList]

private theorem keywords_prefix_free : ∀ i < 24, ∀ j < 24,
    keywords.getD i [] <+: keywords.getD j [] → i = j := by
  decide +kernel

private theorem keyword_eq {ty : TypeIr} (h : IsSupported ty) :
    keyword ty = keywords.getD ty.ctorIdx [] := by
  cases ty with
  | unsupported name => exact absurd h (lt_irrefl 24)
  | _ => rfl

/-- A name starts with one keyword only, and what follows it are the arguments. -/
theorem keyword_append_inj {ty ty' : TypeIr} {x y : List Char} (hty : IsSupported ty)
    (hty' : IsSupported ty') (h : abiName ty ++ x = abiName ty' ++ y) :
    ty.ctorIdx = ty'.ctorIdx ∧ arguments ty ++ x = arguments ty' ++ y := by
  simp only [abiName, List.append_assoc] at h
  have hidx : ty.ctorIdx = ty'.ctorIdx := by
    have hprefix' : keyword ty' <+: keyword ty ++ (arguments ty ++ x) := by
      rw [h]
      exact List.prefix_append _ _
    have hkeywords := List.prefix_or_prefix_of_prefix (List.prefix_append _ _) hprefix'
    rw [keyword_eq hty, keyword_eq hty'] at hkeywords
    rcases hkeywords with hle | hle
    · exact keywords_prefix_free _ hty _ hty' hle
    · exact (keywords_prefix_free _ hty' _ hty hle).symm
  refine ⟨hidx, ?_⟩
  rw [keyword_eq hty, keyword_eq hty', hidx] at h
  exact List.append_cancel_left h

theorem notMem_number {n : ℕ} {c : Char} (hc : c.isDigit = false) : c ∉ number n := by
  intro hmem
  rw [Nat.isDigit_of_mem_toDigits (by decide) (by decide) hmem] at hc
  cases hc

theorem number_injective {n n' : ℕ} (h : number n = number n') : n = n' := by
  rw [← Nat.ofDigitChars_toDigits (b := 10) (n := n) (by decide) (by decide),
    ← Nat.ofDigitChars_toDigits (b := 10) (n := n') (by decide) (by decide)]
  exact congrArg (fun digits => Nat.ofDigitChars 10 digits 0) h

/-- A number ends at a delimiter. -/
theorem number_append_inj {n n' : ℕ} {c : Char} {x y : List Char} (hc : c.isDigit = false)
    (h : number n ++ c :: x = number n' ++ c :: y) : n = n' ∧ x = y := by
  obtain ⟨hnumber, hrest⟩ := append_delimiter_inj (notMem_number hc) (notMem_number hc) h
  exact ⟨number_injective hnumber, hrest⟩

private theorem keywords_head : ∀ i < 24,
    (keywords.getD i []).head? ≠ none ∧ (keywords.getD i []).head? ≠ some '>' := by
  decide +kernel

theorem abiName_head {ty : TypeIr} (h : IsSupported ty) (x : List Char) :
    (abiName ty ++ x).head? ≠ some '>' := by
  obtain ⟨hne, hhead⟩ := keywords_head _ h
  rw [← keyword_eq h] at hne hhead
  obtain ⟨c, hc⟩ := Option.ne_none_iff_exists'.mp hne
  rw [abiName, List.append_assoc, List.head?_append, hc, Option.some_or, ← hc]
  exact hhead

/-- A label in front of a name ends at its delimiter. -/
theorem label_append_inj {name name' : String} {c : Char} {x y : List Char}
    (hc : c ∈ [',', ':', '=', '<', '>']) (hname : IsIdentifier name) (hname' : IsIdentifier name')
    (h : name.toList ++ c :: x = name'.toList ++ c :: y) : name = name' ∧ x = y := by
  obtain ⟨heq, hrest⟩ := append_delimiter_inj (fun hmem => hname c hmem hc)
    (fun hmem => hname' c hmem hc) h
  exact ⟨String.toList_inj.mp heq, hrest⟩

theorem label_head {name : String} (hname : IsIdentifier name) {c : Char} (hc : c ≠ '>')
    (text x : List Char) : (name.toList ++ c :: text ++ x).head? ≠ some '>' := by
  cases hlist : name.toList with
  | nil => simpa using hc
  | cons d rest =>
    intro hhead
    have hd : d = '>' := by simpa using hhead
    exact hname d (by simp [hlist]) (by simp [hd])

/-- Texts up to the closing bracket can be told from what follows if each of them can. -/
theorem joined_append_inj {α : Type} {write : α → List Char} {items items' : List α}
    {x y : List Char} (hhead : ∀ item ∈ items, ∀ x, (write item ++ x).head? ≠ some '>')
    (hhead' : ∀ item ∈ items', ∀ x, (write item ++ x).head? ≠ some '>')
    (hwrite : ∀ item ∈ items, ∀ item' ∈ items', ∀ {x y}, write item ++ x = write item' ++ y →
      item = item' ∧ x = y)
    (h : joined (items.map write) ++ x = joined (items'.map write) ++ y) :
    items = items' ∧ x = y := by
  simp only [joined, List.append_assoc, List.singleton_append] at h
  refine intercalate_append_inj (· ∈ items) (· ∈ items') (by decide) ?_ ?_ (fun _ => id)
    (fun _ => id) h
  · rintro item x (hitem | hitem)
    · exact hhead item hitem x
    · exact hhead' item hitem x
  · intro item item' x y hitem hitem' heq
    exact hwrite item hitem item' hitem' heq

/-- Fields can be told from what follows them if their types can. -/
theorem fieldName_append_inj {field field' : FieldIr} {x y : List Char}
    (hname : IsIdentifier field.name) (hname' : IsIdentifier field'.name)
    (hty : ∀ {x y}, abiName field.ty ++ x = abiName field'.ty ++ y → field.ty = field'.ty ∧ x = y)
    (h : fieldName field ++ x = fieldName field' ++ y) : field = field' ∧ x = y := by
  simp only [fieldName, List.append_assoc, List.cons_append] at h
  obtain ⟨hlabel, hrest⟩ := label_append_inj (by decide) hname hname' h
  obtain ⟨htype, rfl⟩ := hty hrest
  cases field
  cases field'
  cases hlabel
  cases htype
  exact ⟨rfl, rfl⟩

theorem variantName_append_inj {variant variant' : VariantIr} {x y : List Char}
    (hname : IsIdentifier variant.name) (hname' : IsIdentifier variant'.name)
    (hty : ∀ {x y}, abiName variant.ty ++ x = abiName variant'.ty ++ y →
      variant.ty = variant'.ty ∧ x = y)
    (h : variantName variant ++ x = variantName variant' ++ y) : variant = variant' ∧ x = y := by
  simp only [variantName, List.append_assoc, List.cons_append] at h
  obtain ⟨hlabel, hrest⟩ := label_append_inj (by decide) hname hname' h
  obtain ⟨hindex, hrest⟩ := number_append_inj rfl hrest
  obtain ⟨htype, rfl⟩ := hty hrest
  cases variant
  cases variant'
  cases hlabel
  cases UInt8.toNat_inj.mp hindex
  cases htype
  exact ⟨rfl, rfl⟩

/-- A name can be told from what follows it. -/
theorem abiName_append_inj {ty : TypeIr} (hty : WellNamed ty) : ∀ {ty' : TypeIr} {x y : List Char},
    WellNamed ty' → abiName ty ++ x = abiName ty' ++ y → ty = ty' ∧ x = y := by
  induction hty with
  | @intro ty hsupported hlabels hnested ih =>
    intro ty' x y hty' h
    obtain ⟨hidx, hargs⟩ := keyword_append_inj hsupported hty'.supported h
    have hlabels' := hty'.identifiers
    have hnested' := hty'.nested
    -- the two types have the same constructor
    cases ty <;> cases ty' <;> cases hidx
    any_goals exact ⟨rfl, hargs⟩
    case unsupported.unsupported.refl => exact absurd hsupported (lt_irrefl 24)
    all_goals
      simp only [arguments, itemNames_eq, fieldNames_eq, variantNames_eq, List.append_assoc,
        List.cons_append, List.nil_append] at hargs
      try simp only [← List.append_assoc (keyword _), ← abiName.eq_def] at hargs
    case fixedBytes.fixedBytes.refl len len' =>
      obtain ⟨hlen, rfl⟩ := number_append_inj rfl hargs
      exact ⟨congrArg _ (UInt32.toNat_inj.mp hlen), rfl⟩
    case bytes.bytes.refl max max' =>
      obtain ⟨hmax, rfl⟩ := number_append_inj rfl hargs
      exact ⟨congrArg _ (UInt32.toNat_inj.mp hmax), rfl⟩
    case string.string.refl max max' =>
      obtain ⟨hmax, rfl⟩ := number_append_inj rfl hargs
      exact ⟨congrArg _ (UInt32.toNat_inj.mp hmax), rfl⟩
    case fixedArray.fixedArray.refl item len item' len' =>
      obtain ⟨rfl, hrest⟩ := ih item (.head _) (hnested' item' (.head _)) hargs
      obtain ⟨hlen, rfl⟩ := number_append_inj rfl (List.cons.inj (List.cons.inj hrest).2).2
      exact ⟨congrArg _ (UInt32.toNat_inj.mp hlen), rfl⟩
    case array.array.refl item max item' max' =>
      obtain ⟨rfl, hrest⟩ := ih item (.head _) (hnested' item' (.head _)) hargs
      obtain ⟨hmax, rfl⟩ := number_append_inj rfl (List.cons.inj (List.cons.inj hrest).2).2
      exact ⟨congrArg _ (UInt32.toNat_inj.mp hmax), rfl⟩
    case option.option.refl item item' =>
      obtain ⟨rfl, hrest⟩ := ih item (.head _) (hnested' item' (.head _)) hargs
      exact ⟨rfl, List.tail_eq_of_cons_eq hrest⟩
    case tuple.tuple.refl items items' =>
      obtain ⟨rfl, rfl⟩ :=
        joined_append_inj (fun item hitem => abiName_head (hnested item hitem).supported)
        (fun item hitem => abiName_head (hnested' item hitem).supported)
        (fun item hitem item' hitem' => ih item hitem (hnested' item' hitem')) hargs
      exact ⟨rfl, rfl⟩
    case record.record.refl fields fields' =>
      have hname : ∀ field ∈ fields, IsIdentifier field.name :=
        fun _ hfield => hlabels _ (List.mem_map_of_mem hfield)
      have hname' : ∀ field ∈ fields', IsIdentifier field.name :=
        fun _ hfield => hlabels' _ (List.mem_map_of_mem hfield)
      obtain ⟨rfl, rfl⟩ := joined_append_inj
        (fun field hfield => label_head (hname field hfield) (by decide) _)
        (fun field hfield => label_head (hname' field hfield) (by decide) _)
        (fun field hfield field' hfield' => fieldName_append_inj (hname field hfield)
          (hname' field' hfield')
          (ih _ (List.mem_map_of_mem hfield) (hnested' _ (List.mem_map_of_mem hfield')))) hargs
      exact ⟨rfl, rfl⟩
    case enum.enum.refl variants variants' =>
      have hname : ∀ variant ∈ variants, IsIdentifier variant.name :=
        fun _ hvariant => hlabels _ (List.mem_map_of_mem hvariant)
      have hname' : ∀ variant ∈ variants', IsIdentifier variant.name :=
        fun _ hvariant => hlabels' _ (List.mem_map_of_mem hvariant)
      obtain ⟨rfl, rfl⟩ := joined_append_inj
        (fun variant hvariant => label_head (hname variant hvariant) (by decide) _)
        (fun variant hvariant => label_head (hname' variant hvariant) (by decide) _)
        (fun variant hvariant variant' hvariant' => variantName_append_inj (hname variant hvariant)
          (hname' variant' hvariant')
          (ih _ (List.mem_map_of_mem hvariant) (hnested' _ (List.mem_map_of_mem hvariant')))) hargs
      exact ⟨rfl, rfl⟩
    case result.result.refl ok err ok' err' =>
      obtain ⟨rfl, herr⟩ := ih ok (.head _) (hnested' ok' (.head _)) hargs
      obtain ⟨rfl, hrest⟩ := ih err (.tail _ (.head _)) (hnested' err' (.tail _ (.head _)))
        (List.cons.inj herr).2
      exact ⟨rfl, List.tail_eq_of_cons_eq hrest⟩

/-- Two types have different names. -/
theorem abiName_inj {ty ty' : TypeIr} (hty : WellNamed ty) (hty' : WellNamed ty')
    (h : abiName ty = abiName ty') : ty = ty' :=
  (abiName_append_inj hty hty' (congrArg (· ++ []) h)).1

/-! ## Descriptors -/

/-- `AbiTypeDescriptor`: the types without the unsupported ones. -/
inductive AbiTypeDescriptor where
  | unit
  | bool
  | u8
  | u16
  | u32
  | u64
  | u128
  | i8
  | i16
  | i32
  | i64
  | i128
  | address
  | ownership
  | fixedBytes (len : UInt32)
  | bytes (max : UInt32)
  | string (max : UInt32)
  | fixedArray (item : AbiTypeDescriptor) (len : UInt32)
  | array (item : AbiTypeDescriptor) (max : UInt32)
  | option (item : AbiTypeDescriptor)
  | tuple (items : List AbiTypeDescriptor)
  | record (fields : List (String × AbiTypeDescriptor))
  | enum (variants : List (String × UInt8 × AbiTypeDescriptor))
  | result (ok err : AbiTypeDescriptor)

inductive AbiError where
  | unsupportedType (name : String)

mutual

/-- `AbiTypeDescriptor::try_from`. -/
def describe : TypeIr → Except AbiError AbiTypeDescriptor
  | .unit => .ok .unit
  | .bool => .ok .bool
  | .u8 => .ok .u8
  | .u16 => .ok .u16
  | .u32 => .ok .u32
  | .u64 => .ok .u64
  | .u128 => .ok .u128
  | .i8 => .ok .i8
  | .i16 => .ok .i16
  | .i32 => .ok .i32
  | .i64 => .ok .i64
  | .i128 => .ok .i128
  | .address => .ok .address
  | .ownership => .ok .ownership
  | .fixedBytes len => .ok (.fixedBytes len)
  | .bytes max => .ok (.bytes max)
  | .string max => .ok (.string max)
  | .fixedArray item len => do return .fixedArray (← describe item) len
  | .array item max => do return .array (← describe item) max
  | .option item => do return .option (← describe item)
  | .tuple items => do return .tuple (← describeItems items)
  | .record fields => do return .record (← describeFields fields)
  | .enum variants => do return .enum (← describeVariants variants)
  | .result ok err => do return .result (← describe ok) (← describe err)
  | .unsupported name => .error (.unsupportedType name)

def describeItems : List TypeIr → Except AbiError (List AbiTypeDescriptor)
  | [] => .ok []
  | item :: items => do return (← describe item) :: (← describeItems items)

def describeFields : List FieldIr → Except AbiError (List (String × AbiTypeDescriptor))
  | [] => .ok []
  | ⟨name, ty⟩ :: fields => do return (name, ← describe ty) :: (← describeFields fields)

def describeVariants : List VariantIr → Except AbiError (List (String × UInt8 × AbiTypeDescriptor))
  | [] => .ok []
  | ⟨name, index, ty⟩ :: variants => do return (name, index, ← describe ty) :: (←
    describeVariants variants)

end

/-- `abi_kind_max`. -/
def abiKindMax : TypeIr → String × Option UInt32
  | .unit => ("unit", none)
  | .u8 => ("u8", none)
  | .u16 => ("u16", none)
  | .u32 => ("u32", none)
  | .u64 => ("u64", none)
  | .u128 => ("u128", none)
  | .i8 => ("i8", none)
  | .i16 => ("i16", none)
  | .i32 => ("i32", none)
  | .i64 => ("i64", none)
  | .i128 => ("i128", none)
  | .bool => ("bool", none)
  | .address => ("address", some 32)
  | .ownership => ("ownership", some 4096)
  | .fixedBytes len => ("fixedBytes", some len)
  | .bytes max => ("bytes", some max)
  | .string max => ("string", some max)
  | .fixedArray _ _ => ("fixedArray", none)
  | .array _ max => ("array", some max)
  | .option _ => ("option", none)
  | .tuple _ => ("tuple", none)
  | .record _ => ("record", none)
  | .enum _ => ("enum", none)
  | .result _ _ => ("result", none)
  | .unsupported name => (name, none)

structure AbiType where
  kind : String
  max : Option UInt32
  descriptor : AbiTypeDescriptor

/-- The entry of a type. -/
def entryFor (ty : TypeIr) : Except AbiError AbiType := do
  let (kind, max) := abiKindMax ty
  return { kind, max, descriptor := ← describe ty }

theorem describeItems_ok {items : List TypeIr} (h : ∀ item ∈ items, ∃ d, describe item = .ok d) :
    ∃ ds, describeItems items = .ok ds := by
  induction items with
  | nil => exact ⟨[], rfl⟩
  | cons item items ih =>
    rw [List.forall_mem_cons] at h
    obtain ⟨d, hd⟩ := h.1
    obtain ⟨ds, hds⟩ := ih h.2
    exact ⟨d :: ds, by rw [describeItems, hd, hds]; rfl⟩

theorem describeFields_ok {fields : List FieldIr}
    (h : ∀ field ∈ fields, ∃ d, describe field.ty = .ok d) :
    ∃ ds, describeFields fields = .ok ds := by
  induction fields with
  | nil => exact ⟨[], rfl⟩
  | cons field fields ih =>
    rw [List.forall_mem_cons] at h
    obtain ⟨d, hd⟩ := h.1
    obtain ⟨ds, hds⟩ := ih h.2
    obtain ⟨name, ty⟩ := field
    exact ⟨(name, d) :: ds, by rw [describeFields, hd, hds]; rfl⟩

theorem describeVariants_ok {variants : List VariantIr}
    (h : ∀ variant ∈ variants, ∃ d, describe variant.ty = .ok d) :
    ∃ ds, describeVariants variants = .ok ds := by
  induction variants with
  | nil => exact ⟨[], rfl⟩
  | cons variant variants ih =>
    rw [List.forall_mem_cons] at h
    obtain ⟨d, hd⟩ := h.1
    obtain ⟨ds, hds⟩ := ih h.2
    obtain ⟨name, index, ty⟩ := variant
    exact ⟨(name, index, d) :: ds, by rw [describeVariants, hd, hds]; rfl⟩

theorem describe_ok {ty : TypeIr} (hty : WellNamed ty) : ∃ d, describe ty = .ok d := by
  induction hty with
  | @intro ty hsupported _ _ ih =>
    cases ty with
    | unsupported name => exact absurd hsupported (lt_irrefl 24)
    | fixedArray item len =>
      obtain ⟨d, hd⟩ := ih item (.head _)
      exact ⟨.fixedArray d len, by rw [describe, hd]; rfl⟩
    | array item max =>
      obtain ⟨d, hd⟩ := ih item (.head _)
      exact ⟨.array d max, by rw [describe, hd]; rfl⟩
    | option item =>
      obtain ⟨d, hd⟩ := ih item (.head _)
      exact ⟨.option d, by rw [describe, hd]; rfl⟩
    | tuple items =>
      obtain ⟨ds, hds⟩ : ∃ ds, describeItems items = .ok ds := describeItems_ok ih
      exact ⟨.tuple ds, by rw [describe, hds]; rfl⟩
    | record fields =>
      obtain ⟨ds, hds⟩ := describeFields_ok fun _ hfield => ih _ (List.mem_map_of_mem hfield)
      exact ⟨.record ds, by rw [describe, hds]; rfl⟩
    | enum variants =>
      obtain ⟨ds, hds⟩ := describeVariants_ok fun _ hvariant => ih _ (List.mem_map_of_mem hvariant)
      exact ⟨.enum ds, by rw [describe, hds]; rfl⟩
    | result ok err =>
      obtain ⟨d, hd⟩ := ih ok (.head _)
      obtain ⟨d', hd'⟩ := ih err (.tail _ (.head _))
      exact ⟨.result d d', by rw [describe, hd, hd']; rfl⟩
    | _ => exact ⟨_, rfl⟩

/-! ## The collection -/

abbrev AbiTypes := Std.ExtTreeMap String AbiType

/-- An entry that is there stays. -/
def enter (types : AbiTypes) (ty : TypeIr) : Except AbiError AbiTypes := do
  return types.insertIfNew (String.ofList (abiName ty)) (← entryFor ty)

mutual

/-- `collect_abi_types`. -/
def collectAbiTypes (types : AbiTypes) (ty : TypeIr) : Except AbiError AbiTypes := do
  let types ← enter types ty
  match ty with
  | .fixedArray item _ | .array item _ | .option item => collectAbiTypes types item
  | .tuple items => collectItems types items
  | .record fields => collectFields types fields
  | .enum variants => collectVariants types variants
  | .result ok err => do
    let types ← collectAbiTypes types ok
    collectAbiTypes types err
  | _ => return types

def collectItems (types : AbiTypes) : List TypeIr → Except AbiError AbiTypes
  | [] => return types
  | item :: items => do
    let types ← collectAbiTypes types item
    collectItems types items

def collectFields (types : AbiTypes) : List FieldIr → Except AbiError AbiTypes
  | [] => return types
  | ⟨_, ty⟩ :: fields => do
    let types ← collectAbiTypes types ty
    collectFields types fields

def collectVariants (types : AbiTypes) : List VariantIr → Except AbiError AbiTypes
  | [] => return types
  | ⟨_, _, ty⟩ :: variants => do
    let types ← collectAbiTypes types ty
    collectVariants types variants

end

theorem collectItems_eq (types : AbiTypes) (items : List TypeIr) :
    collectItems types items = items.foldlM collectAbiTypes types := by
  induction items generalizing types with
  | nil => rfl
  | cons item items ih => simp only [collectItems, ih, List.foldlM_cons]

theorem collectFields_eq (types : AbiTypes) (fields : List FieldIr) :
    collectFields types fields = (fields.map (·.ty)).foldlM collectAbiTypes types := by
  induction fields generalizing types with
  | nil => rfl
  | cons field fields ih =>
    obtain ⟨name, ty⟩ := field
    simp only [collectFields, ih, List.map_cons, List.foldlM_cons]

theorem collectVariants_eq (types : AbiTypes) (variants : List VariantIr) :
    collectVariants types variants = (variants.map (·.ty)).foldlM collectAbiTypes types := by
  induction variants generalizing types with
  | nil => rfl
  | cons variant variants ih =>
    obtain ⟨name, index, ty⟩ := variant
    simp only [collectVariants, ih, List.map_cons, List.foldlM_cons]

/-- A type is entered, and then what it is made of. -/
theorem collectAbiTypes_eq (types : AbiTypes) (ty : TypeIr) :
    collectAbiTypes types ty = enter types ty >>= (children ty).foldlM collectAbiTypes := by
  rw [collectAbiTypes]
  refine bind_congr fun types => ?_
  cases ty with
  | fixedArray item _ | array item _ | option item => exact (bind_pure _).symm
  | tuple items => exact collectItems_eq types items
  | record fields => exact collectFields_eq types fields
  | enum variants => exact collectVariants_eq types variants
  | result ok err => simp only [children, List.foldlM_cons, List.foldlM_nil, bind_pure]
  | _ => rfl

/-- The types of the input fields of the actions, and the key and value types of the states. -/
def rootTypes (inputs : List (List FieldIr)) (states : List (TypeIr × TypeIr)) : List TypeIr :=
  inputs.flatMap (fun fields => fields.map (·.ty)) ++ states.flatMap fun (key, value) =>
    [key, value]

/-- The types of the ABI that `abi_for` builds. -/
def abiTypes (inputs : List (List FieldIr)) (states : List (TypeIr × TypeIr)) :
    Except AbiError AbiTypes := do
  let types ← (rootTypes inputs states).foldlM collectAbiTypes ∅
  let types := types.insertIfNew "u64" { kind := "u64", max := none, descriptor := .u64 }
  return types.insertIfNew "address" { kind := "address", max := some 32, descriptor := .address }

/-- What a type is made of, at any depth, itself included. -/
def Reaches : TypeIr → TypeIr → Prop := Relation.ReflTransGen fun ty child => child ∈ children ty

/-- The entry that a type has. -/
def stored (types : AbiTypes) (ty : TypeIr) : Option AbiType := types[String.ofList (abiName ty)]?

/-- Every type that has an entry has its own. -/
def Owned (types : AbiTypes) : Prop :=
  ∀ ty, WellNamed ty → ∀ entry, stored types ty = some entry → entryFor ty = .ok entry

/-- What a part of the collection does: entries stay, and the types that are `new` get one. -/
structure Grown (new : TypeIr → Prop) (types types' : AbiTypes) : Prop where
  owned : Owned types → Owned types'
  kept : ∀ ty, (stored types ty).isSome → (stored types' ty).isSome
  entered : ∀ ty, new ty → (stored types' ty).isSome

namespace Grown

variable {new new' : TypeIr → Prop} {types types' types'' : AbiTypes}

theorem refl (types : AbiTypes) : Grown (fun _ => False) types types where
  owned := id
  kept _ := id
  entered _ := False.elim

theorem trans (h : Grown new types types') (h' : Grown new' types' types'') {new'' : TypeIr → Prop}
    (hnew : ∀ ty, new'' ty → new ty ∨ new' ty) : Grown new'' types types'' where
  owned howned := h'.owned (h.owned howned)
  kept ty hty := h'.kept ty (h.kept ty hty)
  entered ty hty := by
    rcases hnew ty hty with hty | hty
    · exact h'.kept ty (h.entered ty hty)
    · exact h'.entered ty hty

end Grown

/-- Because names are unambiguous, a new entry is not found under the name of another type. -/
theorem insertIfNew_grown {ty : TypeIr} {entry : AbiType} (hty : WellNamed ty)
    (hentry : entryFor ty = .ok entry) (types : AbiTypes) : Grown (· = ty) types
    (types.insertIfNew (String.ofList (abiName ty)) entry) where
  owned howned ty' hty' entry' hstored := by
    rw [stored, Std.ExtTreeMap.getElem?_insertIfNew] at hstored
    split at hstored
    case isTrue hname =>
      rw [← abiName_inj hty hty' (String.ofList_injective (Std.LawfulEqOrd.eq_of_compare hname.1)),
        hentry]
      exact congrArg _ (Option.some.inj hstored)
    case isFalse => exact howned ty' hty' entry' hstored
  kept ty' hty' := by
    rw [stored, Std.ExtTreeMap.isSome_getElem?_iff_mem] at hty' ⊢
    exact Std.ExtTreeMap.mem_insertIfNew.mpr (.inr hty')
  entered ty' hty' := by
    rw [stored, Std.ExtTreeMap.isSome_getElem?_iff_mem, hty']
    exact Std.ExtTreeMap.mem_insertIfNew_self

theorem foldlM_grown {roots : List TypeIr} (h : ∀ root ∈ roots, ∀ types, ∃ types',
      collectAbiTypes types root = .ok types' ∧ Grown (Reaches root) types types')
        (types : AbiTypes) :
    ∃ types', roots.foldlM collectAbiTypes types = .ok types' ∧
      Grown (fun ty => ∃ root ∈ roots, Reaches root ty) types types' := by
  induction roots generalizing types with
  | nil => exact ⟨types, rfl, (Grown.refl types).trans (Grown.refl types) fun _ ⟨_, hmem, _⟩ =>
    nomatch hmem⟩
  | cons root roots ih =>
    rw [List.forall_mem_cons] at h
    obtain ⟨types₁, hroot, hgrown⟩ := h.1 types
    obtain ⟨types₂, hroots, hgrown'⟩ := ih h.2 types₁
    refine ⟨types₂, by rw [List.foldlM_cons, hroot]; exact hroots, hgrown.trans hgrown' ?_⟩
    rintro ty ⟨root', hmem, hreaches⟩
    rcases List.mem_cons.mp hmem with rfl | hmem
    · exact .inl hreaches
    · exact .inr ⟨root', hmem, hreaches⟩

/-- The collection of a type enters everything it is made of. -/
theorem collectAbiTypes_grown {ty : TypeIr} (hty : WellNamed ty) : ∀ types, ∃ types',
    collectAbiTypes types ty = .ok types' ∧ Grown (Reaches ty) types types' := by
  induction hty with
  | @intro ty hsupported hlabels hnested ih =>
    intro types
    have hty := WellNamed.intro hsupported hlabels hnested
    obtain ⟨descriptor, hdescriptor⟩ := describe_ok hty
    have hentry : entryFor ty = .ok ⟨(abiKindMax ty).1, (abiKindMax ty).2, descriptor⟩ := by
      rw [entryFor, hdescriptor]
      rfl
    obtain ⟨types', hcollect, hgrown⟩ := foldlM_grown ih (types.insertIfNew _ _)
    refine ⟨types', ?_, (insertIfNew_grown hty hentry types).trans hgrown fun ty' hreaches => ?_⟩
    · rw [collectAbiTypes_eq, enter, hentry]
      exact hcollect
    · rcases hreaches.cases_head with rfl | ⟨child, hchild, hreaches⟩
      · exact .inl rfl
      · exact .inr ⟨child, hchild, hreaches⟩

/-- No two types have the same name; in the ABI of a service, what is found under the name of a type
is its own entry, and everything that the inputs of its actions and its states are made of is
there. -/
theorem abi_names_unambiguous :
    (∀ ty ty', WellNamed ty → WellNamed ty' → abiName ty = abiName ty' → ty = ty') ∧
      ∀ inputs states, (∀ root ∈ rootTypes inputs states, WellNamed root) →
        ∃ types, abiTypes inputs states = .ok types ∧
          (∀ ty, WellNamed ty → ∀ entry, stored types ty = some entry → entryFor ty = .ok entry) ∧
          ∀ root ∈ rootTypes inputs states, ∀ ty, Reaches root ty → (stored types ty).isSome := by
  refine ⟨fun _ _ => abiName_inj, fun inputs states hroots => ?_⟩
  obtain ⟨types, hcollect, hgrown⟩ :=
    foldlM_grown (fun root hroot => collectAbiTypes_grown (hroots root hroot)) ∅
  have hu64 := WellNamed.of_simple (by decide : IsSupported .u64) rfl rfl
  have haddress := WellNamed.of_simple (by decide : IsSupported .address) rfl rfl
  have hlast := (insertIfNew_grown hu64 rfl types).trans (insertIfNew_grown haddress rfl _) fun _ =>
    .inl
  refine ⟨_, by rw [abiTypes, hcollect]; rfl, ?_, ?_⟩
  · refine hlast.owned (hgrown.owned fun ty _ entry hstored => ?_)
    rw [stored, Std.ExtTreeMap.getElem?_empty] at hstored
    cases hstored
  · intro root hroot ty hreaches
    exact hlast.kept ty (hgrown.entered ty ⟨root, hroot, hreaches⟩)

theorem abi_names_unambiguous_array :
    ∃ types, abiTypes [[⟨"bits", .array .bool 4⟩]] [(.unit, .u8)] = .ok types ∧
      (stored types (.array .bool 4)).isSome ∧ (stored types .bool).isSome := by
  have hbool := WellNamed.of_simple (by decide : IsSupported .bool) rfl rfl
  obtain ⟨types, htypes, -, hpresent⟩ :=
    abi_names_unambiguous.2 [[⟨"bits", .array .bool 4⟩]] [(.unit, .u8)] fun root hroot => by
      rcases List.mem_cons.mp hroot with rfl | hroot
      · exact .intro (by decide) nofun fun child hchild => List.mem_singleton.mp hchild ▸ hbool
      · rcases List.mem_pair.mp hroot with rfl | rfl
        · exact .of_simple (by decide) rfl rfl
        · exact .of_simple (by decide) rfl rfl
  exact ⟨types, htypes, hpresent _ (.head _) _ .refl, hpresent _ (.head _) _ (.single (.head _))⟩

end JamScript.Abi
