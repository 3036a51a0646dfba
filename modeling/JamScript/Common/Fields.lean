import JamScript.Common.Parser

/-!
# Fields of record formats

Integers of fixed width and byte strings behind a length. `Recognizes p write valid` says that `p`
accepts exactly the valid values, each as the bytes `write` gives it and whatever follows; it is the
two directions `Reads` and `Consumes` in one statement. Two record formats that are read field by
field are compared through it without looking at the readers.
-/

namespace Codec

variable {ε α : Type}

/-- `p` accepts exactly the valid values, each as the bytes `write` gives it. -/
structure Recognizes (p : Parser ε α) (write : α → Bytes) (valid : α → Prop) : Prop where
  eq_ok : ∀ {bs rest : Bytes} {a : α}, p bs = .ok (a, rest) ↔ valid a ∧ bs = write a ++ rest

/-- A reader of all values, by what is written. -/
theorem Recognizes.total_eq_ok {p : Parser ε α} {write : α → Bytes}
    (hp : Recognizes p write fun _ => True) {bs rest : Bytes} {a : α} : p bs = .ok (a, rest) ↔
    bs = write a ++ rest :=
  hp.eq_ok.trans ⟨And.right, .intro trivial⟩

/-- What is recognized is consumed. -/
theorem Recognizes.consumes {p : Parser ε α} {write : α → Bytes} {valid : α → Prop}
    (hp : Recognizes p write valid) : Consumes p write := fun h => (hp.eq_ok.mp h).2

/-- What is valid is read. -/
theorem Recognizes.reads {p : Parser ε α} {write : α → Bytes} {valid : α → Prop}
    (hp : Recognizes p write valid) {a : α} (ha : valid a) : Reads p (write a) a :=
  fun _ => hp.eq_ok.mpr ⟨ha, rfl⟩

/-- A value that is recognized can be split off the front of a byte string in one way only. -/
theorem Recognizes.append_inj {p : Parser ε α} {write : α → Bytes} {valid : α → Prop}
    (hp : Recognizes p write valid) {a b : α} {s t : Bytes} (ha : valid a) (hb : valid b)
    (h : write a ++ s = write b ++ t) : a = b ∧ s = t := by
  have hread := hp.reads ha s
  rw [h, hp.reads hb t, Except.ok.injEq, Prod.mk.injEq] at hread
  exact ⟨hread.1.symm, hread.2.symm⟩

/-! ### Formats with one encoding

`Canonical` is about whole byte strings: what is written is read back in normal form, and what is
read is written again byte for byte. -/

/-- The values in `domain` are read back in normal form; every byte string that is accepted is the
encoding of the value it is read as. -/
structure Canonical (encode : α → Except ε Bytes) (decode : Bytes → Except ε α) (domain : α → Prop)
    (normal : α → α) : Prop where
  decode_encode : ∀ {a : α} {bs : Bytes}, domain a → encode a = .ok bs → decode bs = .ok (normal a)
  encode_decode : ∀ {bs : Bytes} {a : α}, decode bs = .ok a → encode a = .ok bs

/-- Arrays of a fixed size. -/
theorem recognizes_array (eof : ε) (n : ℕ) :
    Recognizes (Parser.array eof n) List.Vector.toList fun _ => True :=
  ⟨fun {_ _ _} => by rw [Parser.array_eq_ok, true_and]⟩

/-! ### Writing back what was read -/

theorem u16ToLe_u16OfLe {bs : Bytes} (h : bs.length = 2) : u16ToLe (u16OfLe bs) = bs := by
  have hlt := ofLe_lt bs
  have hle := toLe_ofLe bs
  rw [h] at hlt hle
  rw [u16ToLe, u16OfLe, UInt16.toNat_ofNat_of_lt' hlt, hle]

theorem u32ToLe_u32OfLe {bs : Bytes} (h : bs.length = 4) : u32ToLe (u32OfLe bs) = bs := by
  have hlt := ofLe_lt bs
  have hle := toLe_ofLe bs
  rw [h] at hlt hle
  rw [u32ToLe, u32OfLe, UInt32.toNat_ofNat_of_lt' hlt, hle]

theorem u64ToLe_u64OfLe {bs : Bytes} (h : bs.length = 8) : u64ToLe (u64OfLe bs) = bs := by
  have hlt := ofLe_lt bs
  have hle := toLe_ofLe bs
  rw [h] at hlt hle
  rw [u64ToLe, u64OfLe, UInt64.toNat_ofNat_of_lt' hlt, hle]

namespace Parser

/-! ### The readers -/

/-- A byte. -/
def u8 (eof : ε) : Parser ε UInt8 := do
  let bytes ← take eof 1
  match bytes with
  | byte :: _ => pure byte
  | [] => throw eof

/-- Four bytes, lowest first. -/
def u32 (eof : ε) : Parser ε UInt32 := do
  let bytes ← take eof 4
  pure (u32OfLe bytes)

/-- Eight bytes, lowest first. -/
def u64 (eof : ε) : Parser ε UInt64 := do
  let bytes ← take eof 8
  pure (u64OfLe bytes)

/-- A byte string behind its length in one byte. -/
def bytesU8 (eof : ε) : Parser ε Bytes := do
  let length ← u8 eof
  take eof length.toNat

/-- A byte string behind its length in two bytes. -/
def bytesU16 (eof : ε) : Parser ε Bytes := do
  let length ← take eof 2
  take eof (u16OfLe length).toNat

/-- A byte string behind its length in four bytes, when the length is within the limit. -/
def bytesU32 (eof tooLong : ε) (limit : ℕ) : Parser ε Bytes := do
  let length ← u32 eof
  check (length.toNat ≤ limit) tooLong
  take eof length.toNat

/-! ### What they accept -/

theorem take_eq_ok {eof : ε} {n : ℕ} {bs rest value : Bytes} :
    take eof n bs = .ok (value, rest) ↔ value.length = n ∧ bs = value ++ rest := by
  unfold take
  constructor
  · intro h
    split at h
    case isFalse => cases h
    case isTrue hn =>
      cases h
      exact ⟨List.length_take_of_le hn, (List.take_append_drop n bs).symm⟩
  · rintro ⟨rfl, rfl⟩
    rw [if_pos (by simp), List.take_left, List.drop_left]

theorem recognizes_u8 (eof : ε) : Recognizes (u8 eof) (fun byte => [byte]) fun _ => True := by
  constructor
  intro bs rest byte
  rw [u8, bind_eq_ok]
  constructor
  · rintro ⟨value, mid, htake, h⟩
    obtain ⟨hlength, rfl⟩ := take_eq_ok.mp htake
    obtain ⟨first, rfl⟩ := List.length_eq_one_iff.mp hlength
    obtain ⟨rfl, rfl⟩ := pure_eq_ok.mp h
    exact ⟨trivial, rfl⟩
  · rintro ⟨-, rfl⟩
    exact ⟨[byte], rest, take_eq_ok.mpr ⟨rfl, rfl⟩, rfl⟩

/-- An integer that is read back from its own bytes. -/
theorem recognizes_integer {eof : ε} {n : ℕ} {ofBytes : Bytes → α} {write : α → Bytes}
    (hlength : ∀ a, (write a).length = n) (hof : ∀ a, ofBytes (write a) = a)
    (hwrite : ∀ {bs : Bytes}, bs.length = n → write (ofBytes bs) = bs) :
    Recognizes (take eof n >>= fun bytes => pure (ofBytes bytes)) write fun _ => True := by
  constructor
  intro bs rest a
  rw [bind_eq_ok]
  constructor
  · rintro ⟨value, mid, htake, h⟩
    obtain ⟨hvalue, rfl⟩ := take_eq_ok.mp htake
    obtain ⟨rfl, rfl⟩ := pure_eq_ok.mp h
    exact ⟨trivial, by rw [hwrite hvalue]⟩
  · rintro ⟨-, rfl⟩
    exact ⟨write a, rest, take_eq_ok.mpr ⟨hlength a, rfl⟩, pure_eq_ok.mpr ⟨hof a, rfl⟩⟩

theorem recognizes_u32 (eof : ε) : Recognizes (u32 eof) u32ToLe fun _ => True :=
  recognizes_integer length_u32ToLe u32OfLe_u32ToLe u32ToLe_u32OfLe

theorem recognizes_u64 (eof : ε) : Recognizes (u64 eof) u64ToLe fun _ => True :=
  recognizes_integer length_u64ToLe u64OfLe_u64ToLe u64ToLe_u64OfLe

/-- Bytes behind a length of one byte. -/
theorem recognizes_bytesU8 (eof : ε) : Recognizes (bytesU8 eof)
    (fun value => UInt8.ofNat value.length :: value) fun value => value.length < 2 ^ 8 := by
  constructor
  intro bs rest value
  rw [bytesU8, bind_eq_ok]
  constructor
  · rintro ⟨length, mid, hlength, h⟩
    obtain ⟨hvalue, rfl⟩ := take_eq_ok.mp h
    obtain ⟨-, rfl⟩ := (recognizes_u8 eof).eq_ok.mp hlength
    rw [hvalue, UInt8.ofNat_toNat]
    exact ⟨length.toNat_lt, rfl⟩
  · rintro ⟨hlt, rfl⟩
    refine ⟨_, value ++ rest, (recognizes_u8 eof).eq_ok.mpr ⟨trivial, rfl⟩,
      take_eq_ok.mpr ⟨?_, rfl⟩⟩
    exact (UInt8.toNat_ofNat_of_lt' hlt).symm

/-- Bytes behind a length of two bytes. -/
theorem recognizes_bytesU16 (eof : ε) : Recognizes (bytesU16 eof)
    (fun value => u16ToLe (UInt16.ofNat value.length) ++ value)
    fun value => value.length < 2 ^ 16 := by
  constructor
  intro bs rest value
  rw [bytesU16, bind_eq_ok]
  constructor
  · rintro ⟨length, mid, hlength, h⟩
    obtain ⟨hvalue, rfl⟩ := take_eq_ok.mp h
    obtain ⟨htwo, rfl⟩ := take_eq_ok.mp hlength
    rw [hvalue, UInt16.ofNat_toNat, u16ToLe_u16OfLe htwo, List.append_assoc]
    exact ⟨(u16OfLe length).toNat_lt, rfl⟩
  · rintro ⟨hlt, rfl⟩
    rw [List.append_assoc]
    refine ⟨_, value ++ rest, take_eq_ok.mpr ⟨length_u16ToLe _, rfl⟩, take_eq_ok.mpr ⟨?_, rfl⟩⟩
    rw [u16OfLe_u16ToLe]
    exact (UInt16.toNat_ofNat_of_lt' hlt).symm

/-- Bytes behind a length of four bytes, up to a limit. -/
theorem recognizes_bytesU32 (eof tooLong : ε) {limit : ℕ} (hlimit : limit < 2 ^ 32) :
    Recognizes (bytesU32 eof tooLong limit)
      (fun value => u32ToLe (UInt32.ofNat value.length) ++ value)
      fun value => value.length ≤ limit := by
  constructor
  intro bs rest value
  rw [bytesU32, bind_eq_ok]
  constructor
  · rintro ⟨length, mid, hlength, h⟩
    obtain ⟨_, _, hcheck, h⟩ := bind_eq_ok.mp h
    obtain ⟨hle, rfl⟩ := check_eq_ok.mp hcheck
    obtain ⟨hvalue, rfl⟩ := take_eq_ok.mp h
    obtain ⟨-, rfl⟩ := (recognizes_u32 eof).eq_ok.mp hlength
    rw [hvalue, UInt32.ofNat_toNat, List.append_assoc]
    exact ⟨hle, rfl⟩
  · rintro ⟨hle, rfl⟩
    have hnat : (UInt32.ofNat value.length).toNat = value.length :=
      UInt32.toNat_ofNat_of_lt' (hle.trans_lt hlimit)
    rw [List.append_assoc]
    exact ⟨_, value ++ rest, (recognizes_u32 eof).eq_ok.mpr ⟨trivial, rfl⟩, bind_eq_ok.mpr
      ⟨(), _, check_eq_ok.mpr ⟨by omega, rfl⟩, take_eq_ok.mpr ⟨hnat.symm, rfl⟩⟩⟩

/-! ### Splitting fields off the front -/

theorem array_append_inj {n : ℕ} {a b : FixedBytes n} {s t : Bytes}
    (h : a.toList ++ s = b.toList ++ t) : a = b ∧ s = t :=
  (recognizes_array () n).append_inj trivial trivial h

theorem u64_append_inj {a b : UInt64} {s t : Bytes} (h : u64ToLe a ++ s = u64ToLe b ++ t) :
    a = b ∧ s = t :=
  (recognizes_u64 ()).append_inj trivial trivial h

end Parser

end Codec
