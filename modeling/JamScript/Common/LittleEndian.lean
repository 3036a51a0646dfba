import Mathlib

/-!
# Byte strings and fixed-width little-endian integers

A byte string is a list of bytes. `toLe width n` writes the low `width` bytes of `n`, least
significant first, and `ofLe` reads a byte string back as a number in base 256. The two are inverse
up to the width (`ofLe_toLe`, `toLe_ofLe`), which is all that the fixed-width integer codecs need.
-/

namespace Codec

/-- A byte string. -/
abbrev Bytes := List UInt8

/-- A byte string of a fixed length. -/
abbrev FixedBytes (n : ℕ) := List.Vector UInt8 n

instance : LawfulBEq Bytes := inferInstance

/-- The low `width` bytes of `n`, least significant byte first. -/
def toLe : ℕ → ℕ → Bytes
  | 0, _ => []
  | width + 1, n => UInt8.ofNat n :: toLe width (n / 256)

/-- The number a byte string denotes in base 256, least significant byte first. -/
def ofLe : Bytes → ℕ
  | [] => 0
  | b :: bs => b.toNat + 256 * ofLe bs

@[simp]
theorem length_toLe (width n : ℕ) : (toLe width n).length = width := by
  induction width generalizing n with
  | zero => rfl
  | succ width ih => rw [toLe, List.length_cons, ih]

/-- Writing a number and reading it back loses exactly the bytes above the width. -/
theorem ofLe_toLe (width n : ℕ) : ofLe (toLe width n) = n % 256 ^ width := by
  induction width generalizing n with
  | zero => simp [toLe, ofLe, Nat.mod_one]
  | succ width ih =>
    rw [toLe, ofLe, ih, UInt8.toNat_ofNat', pow_succ' 256 width, Nat.mod_mul]

/-- A byte string denotes a number that its own length can hold. -/
theorem ofLe_lt (bs : Bytes) : ofLe bs < 256 ^ bs.length := by
  induction bs with
  | nil => simp [ofLe]
  | cons b bs ih =>
    have hb : b.toNat < 256 := b.toNat_lt
    rw [ofLe, List.length_cons, pow_succ']
    omega

/-- Reading a byte string and writing it back at its own length is the identity. -/
theorem toLe_ofLe (bs : Bytes) : toLe bs.length (ofLe bs) = bs := by
  induction bs with
  | nil => rfl
  | cons b bs ih =>
    have hb : b.toNat < 256 := b.toNat_lt
    have hdiv : (b.toNat + 256 * ofLe bs) / 256 = ofLe bs := by omega
    rw [List.length_cons, toLe, ofLe, hdiv, ih]
    congr 1
    apply UInt8.toNat_inj.mp
    rw [UInt8.toNat_ofNat']
    omega

/-- The bytes of a number are its low bytes and the bytes of what is above them. -/
theorem toLe_add (low high n : ℕ) : toLe (low + high) n = toLe low n ++ toLe high
    (n / 256 ^ low) := by
  induction low generalizing n with
  | zero => simp [toLe]
  | succ low ih =>
    rw [Nat.succ_add, toLe, ih, toLe, List.cons_append, Nat.div_div_eq_div_mul, pow_succ']

theorem ofLe_append (low high : Bytes) : ofLe (low ++ high) =
    ofLe low + 256 ^ low.length * ofLe high := by
  induction low with
  | nil => simp [ofLe]
  | cons b low ih =>
    rw [List.cons_append, ofLe, ofLe, ih, List.length_cons, pow_succ']
    ring

/-- The low bytes of a number. -/
theorem take_toLe {extra width : ℕ} (h : extra ≤ width) (n : ℕ) :
    (toLe width n).take extra = toLe extra n := by
  induction extra generalizing width n with
  | zero => rfl
  | succ extra ih =>
    obtain ⟨width, rfl⟩ : ∃ w, width = w + 1 := ⟨width - 1, by omega⟩
    rw [toLe, toLe, List.take_succ_cons, ih (by omega)]

/-- Byte strings of one length are told apart by their numbers. -/
theorem ofLe_injOn {bs cs : Bytes} (hlength : bs.length = cs.length)
    (h : ofLe bs = ofLe cs) : bs = cs := by
  rw [← toLe_ofLe bs, ← toLe_ofLe cs, h, hlength]

/-- `u16::to_le_bytes`. -/
def u16ToLe (x : UInt16) : Bytes := toLe 2 x.toNat

/-- `u32::to_le_bytes`. -/
def u32ToLe (x : UInt32) : Bytes := toLe 4 x.toNat

/-- `u64::to_le_bytes`. -/
def u64ToLe (x : UInt64) : Bytes := toLe 8 x.toNat

/-- `u16::from_le_bytes`, on the bytes the caller has already cut to length. -/
def u16OfLe (bs : Bytes) : UInt16 := UInt16.ofNat (ofLe bs)

/-- `u32::from_le_bytes`. -/
def u32OfLe (bs : Bytes) : UInt32 := UInt32.ofNat (ofLe bs)

/-- `u64::from_le_bytes`. -/
def u64OfLe (bs : Bytes) : UInt64 := UInt64.ofNat (ofLe bs)

@[simp]
theorem length_u16ToLe (x : UInt16) : (u16ToLe x).length = 2 := length_toLe 2 _

@[simp]
theorem length_u32ToLe (x : UInt32) : (u32ToLe x).length = 4 := length_toLe 4 _

@[simp]
theorem length_u64ToLe (x : UInt64) : (u64ToLe x).length = 8 := length_toLe 8 _

@[simp]
theorem u16OfLe_u16ToLe (x : UInt16) : u16OfLe (u16ToLe x) = x := by
  have hx : x.toNat < 256 ^ 2 := x.toNat_lt
  rw [u16OfLe, u16ToLe, ofLe_toLe, Nat.mod_eq_of_lt hx, UInt16.ofNat_toNat]

@[simp]
theorem u32OfLe_u32ToLe (x : UInt32) : u32OfLe (u32ToLe x) = x := by
  have hx : x.toNat < 256 ^ 4 := x.toNat_lt
  rw [u32OfLe, u32ToLe, ofLe_toLe, Nat.mod_eq_of_lt hx, UInt32.ofNat_toNat]

@[simp]
theorem u64OfLe_u64ToLe (x : UInt64) : u64OfLe (u64ToLe x) = x := by
  have hx : x.toNat < 256 ^ 8 := x.toNat_lt
  rw [u64OfLe, u64ToLe, ofLe_toLe, Nat.mod_eq_of_lt hx, UInt64.ofNat_toNat]

end Codec
