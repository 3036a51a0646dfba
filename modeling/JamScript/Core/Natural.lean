import JamScript.Common.Parser

/-!
# Variable-length natural numbers

A natural number travels as a first byte whose leading ones count the bytes that follow it. The
encoder of `jamscript-codec` covers all of `u64`: from `2^56` on it writes the first byte `0xff` and
eight more. The decoder of the guest runtime stops at seven, so the two are inverse exactly below
`2^56` (`reads_fnencode`, `readFnencode_large`).

A first byte and the bytes behind it stand for the number `naturalOf`, and a number can be written
in several lengths. `encodeNatural_eq_cons_iff` says that the encoder writes the shortest of them.
-/

namespace JamScript

open Codec

/-- `encode_natural`; `log2` is the source's bit length less one, `64 - leading_zeros - 1`. -/
def encodeNatural (value : UInt64) : Bytes :=
  if value.toNat < 2 ^ 7 then [value.toUInt8]
  else if value.toNat < 2 ^ 56 then
    let extra := value.toNat.log2 / 7
    (UInt8.ofNat (256 - 2 ^ (8 - extra)) ||| UInt8.ofNat (value.toNat / 2 ^ (8 * extra))) ::
      (u64ToLe value).take extra
  else 0xff :: u64ToLe value

/-- The number of leading ones of a byte. -/
def leadingOnes (first : UInt8) : ℕ :=
  ((List.range 8).takeWhile fun length => first.toNat &&& (0x80 >>> length) ≠ 0).length

/-- `read_fnencode`. -/
def readFnencode : Parser Unit UInt64
  | [] => .error ()
  | first :: input =>
    if first < 0x80 then .ok (first.toUInt64, input)
    else
      let length := leadingOnes first
      if length = 0 ∨ length > 7 ∨ input.length < length then .error ()
      else
        let low := ofLe (input.take length)
        .ok (UInt64.ofNat (((first.toNat &&& (0x7f >>> length)) <<< (8 * length)) ||| low),
          input.drop length)

/-- `decode_fnencode` of the C SDK: the number and the offset behind it. -/
def decodeFnencode (input : Bytes) (offset : ℕ) : Option (UInt64 × ℕ) :=
  match (input[offset]? : Option UInt8) with
  | none => none
  | some first =>
    let offset := offset + 1
    if first < 0x80 then some (first.toUInt64, offset)
    else
      let length := leadingOnes first
      if length = 0 ∨ length > 7 ∨ input.length - offset < length then none
      else
        let low := ofLe ((input.drop offset).take length)
        some (UInt64.ofNat (((first.toNat &&& (0x7f >>> length)) <<< (8 * length)) ||| low),
          offset + length)

/-- The `read_fnencode` that the Rust generator writes into a service. -/
def Generated.readFnencode : Parser Unit UInt64 := JamScript.readFnencode

/-! ### The parts of an encoding -/

/-- The bits of the number that the first byte holds. -/
def highBits (first : UInt8) : ℕ := first.toNat &&& (0x7f >>> leadingOnes first)

/-- The number that a first byte and the bytes behind it stand for. -/
def naturalOf (first : UInt8) (low : Bytes) : ℕ :=
  highBits first <<< (8 * leadingOnes first) ||| ofLe low

private theorem firstByte_cases : ∀ n < 256,
    leadingOnes (UInt8.ofNat n) ≤ 8 ∧ highBits (UInt8.ofNat n) <
      2 ^ (7 - leadingOnes (UInt8.ofNat n)) ∧
      UInt8.ofNat n = UInt8.ofNat (256 - 2 ^ (8 - leadingOnes (UInt8.ofNat n))) |||
        UInt8.ofNat (highBits (UInt8.ofNat n)) ∧
      (leadingOnes (UInt8.ofNat n) = 0 ↔ n < 0x80) := by
  decide +kernel

/-- A first byte is its leading ones, a zero unless there are eight of them, and the bits behind
it. -/
theorem firstByte_parts (first : UInt8) :
    leadingOnes first ≤ 8 ∧ highBits first < 2 ^ (7 - leadingOnes first) ∧
      first = UInt8.ofNat (256 - 2 ^ (8 - leadingOnes first)) ||| UInt8.ofNat (highBits first) ∧
      (leadingOnes first = 0 ↔ first < 0x80) := by
  have h := firstByte_cases first.toNat first.toNat_lt
  rw [UInt8.ofNat_toNat] at h
  exact h

/-- The first byte with `extra` leading ones and the bits `high` behind them. -/
private theorem firstByte_spec : ∀ extra < 8, 1 ≤ extra → ∀ high < 2 ^ (7 - extra),
    leadingOnes (UInt8.ofNat (256 - 2 ^ (8 - extra)) ||| UInt8.ofNat high) = extra ∧
      highBits (UInt8.ofNat (256 - 2 ^ (8 - extra)) ||| UInt8.ofNat high) = high := by
  decide +kernel

theorem naturalOf_eq {first : UInt8} {low : Bytes} (hlow : low.length = leadingOnes first) :
    naturalOf first low = highBits first * 256 ^ leadingOnes first + ofLe low := by
  have hpow : 2 ^ (8 * leadingOnes first) = 256 ^ leadingOnes first := by rw [pow_mul]; norm_num
  have hlt : ofLe low < 2 ^ (8 * leadingOnes first) := by
    rw [hpow, ← hlow]
    exact ofLe_lt low
  rw [naturalOf, ← Nat.shiftLeft_add_eq_or_of_lt hlt, Nat.shiftLeft_eq, hpow]

/-- With at most seven bytes behind it, a first byte leads to less than what one more byte could
hold. -/
theorem naturalOf_lt {first : UInt8} {low : Bytes} (hlow : low.length = leadingOnes first)
    (hones : leadingOnes first ≤ 7) : naturalOf first low < 2 ^ (7 * leadingOnes first + 7) := by
  obtain ⟨-, hhigh, -⟩ := firstByte_parts first
  have hlt : ofLe low < 256 ^ leadingOnes first := hlow ▸ ofLe_lt low
  calc naturalOf first low = highBits first * 256 ^ leadingOnes first + ofLe low :=
    naturalOf_eq hlow
    _ < (highBits first + 1) * 256 ^ leadingOnes first := by rw [Nat.succ_mul]; omega
    _ ≤ 2 ^ (7 - leadingOnes first) * 256 ^ leadingOnes first := Nat.mul_le_mul_right _ hhigh
    _ = 2 ^ (7 - leadingOnes first) * 2 ^ (8 * leadingOnes first) := by rw [pow_mul 2 8]; norm_num
    _ = 2 ^ (7 * leadingOnes first + 7) := by
      rw [← pow_add]
      congr 1
      omega

theorem naturalOf_lt_u64 {first : UInt8} {low : Bytes} (hlow : low.length = leadingOnes first) :
    naturalOf first low < 2 ^ 64 := by
  obtain ⟨hones, hhigh, -⟩ := firstByte_parts first
  rcases hones.lt_or_eq with hlt | heq
  · have hseven : leadingOnes first ≤ 7 := by omega
    exact (naturalOf_lt hlow hseven).trans_le (Nat.pow_le_pow_right (by norm_num) (by omega))
  · have hzero : highBits first = 0 := by simpa [heq] using hhigh
    have hlt := ofLe_lt low
    rw [hlow, heq] at hlt
    rw [naturalOf_eq hlow, hzero]
    omega

/-- A first byte without leading ones is the number itself. -/
theorem naturalOf_nil {first : UInt8} (h : leadingOnes first = 0) : naturalOf first
    [] = first.toNat := by
  have hlt : first.toNat < 2 ^ 7 := UInt8.lt_iff_toNat_lt.mp ((firstByte_parts first).2.2.2.mp h)
  rw [naturalOf_eq (by rw [h]; rfl), highBits, h]
  simp only [ofLe, pow_zero, mul_one, add_zero, Nat.shiftRight_zero]
  exact Nat.and_two_pow_sub_one_of_lt_two_pow hlt

/-! ### The shortest encoding -/

/-- The first byte is not followed by more bytes than the number needs. -/
def Shortest (first : UInt8) (value : ℕ) : Prop :=
  leadingOnes first = 0 ∨ 2 ^ (7 * leadingOnes first) ≤ value

instance (first : UInt8) (value : ℕ) : Decidable (Shortest first value) :=
  inferInstanceAs (Decidable (_ ∨ _))

/-- The number decides how many bytes follow its first one. -/
private theorem Shortest.leadingOnes_le {first first' : UInt8} {low low' : Bytes}
    (hlow : low.length = leadingOnes first) (heq : naturalOf first low = naturalOf first' low')
    (hshortest : Shortest first' (naturalOf first' low')) :
    leadingOnes first' ≤ leadingOnes first := by
  by_contra hlt
  obtain ⟨hones, -⟩ := firstByte_parts first'
  have hbound := naturalOf_lt hlow (by omega)
  have hpow : 2 ^ (7 * leadingOnes first + 7) ≤ 2 ^ (7 * leadingOnes first') :=
    Nat.pow_le_pow_right (by norm_num) (by omega)
  rcases hshortest with hzero | hle <;> omega

/-- A number has one shortest encoding. -/
theorem Shortest.unique {first first' : UInt8} {low low' : Bytes}
    (hlow : low.length = leadingOnes first) (hlow' : low'.length = leadingOnes first')
    (heq : naturalOf first low = naturalOf first' low') (h : Shortest first (naturalOf first low))
    (h' : Shortest first' (naturalOf first' low')) :
    first = first' ∧ low = low' := by
  have hones : leadingOnes first = leadingOnes first' :=
    le_antisymm (leadingOnes_le hlow' heq.symm h) (leadingOnes_le hlow heq h')
  have hlt := ofLe_lt low
  have hlt' := ofLe_lt low'
  rw [naturalOf_eq hlow, naturalOf_eq hlow'] at heq
  rw [hlow, hones] at hlt
  rw [hlow'] at hlt'
  rw [hones] at heq
  have hpos : 0 < 256 ^ leadingOnes first' := by positivity
  have hhigh : highBits first = highBits first' := by
    have hdiv := congrArg (· / 256 ^ leadingOnes first') heq
    simpa [Nat.add_div_of_dvd_right, Nat.mul_div_cancel _ hpos, Nat.div_eq_of_lt hlt,
      Nat.div_eq_of_lt hlt'] using hdiv
  constructor
  · rw [(firstByte_parts first).2.2.1, (firstByte_parts first').2.2.1, hones, hhigh]
  · refine ofLe_injOn (by rw [hlow, hlow', hones]) ?_
    rw [hhigh] at heq
    omega

/-- The bit length of a number decides how many bytes follow the first one. -/
private theorem extra_spec {n : ℕ} (hlarge : 2 ^ 7 ≤ n) (hsmall : n < 2 ^ 56) :
    1 ≤ n.log2 / 7 ∧ n.log2 / 7 < 8 ∧ 2 ^ (7 * (n.log2 / 7)) ≤ n ∧
      n / 256 ^ (n.log2 / 7) < 2 ^ (7 - n.log2 / 7) := by
  have hzero : n ≠ 0 := by omega
  have hlow : 7 ≤ n.log2 := (Nat.le_log2 hzero).mpr hlarge
  have hhigh : n.log2 < 56 := (Nat.log2_lt hzero).mpr hsmall
  have hextra : n.log2 / 7 < 8 := by omega
  refine ⟨by omega, hextra, (Nat.le_log2 hzero).mp (Nat.mul_div_le _ _), ?_⟩
  generalize hdef : n.log2 / 7 = extra at hextra ⊢
  have hpow : 256 ^ extra = 2 ^ (8 * extra) := by rw [pow_mul]; norm_num
  rw [hpow, Nat.div_lt_iff_lt_mul (by positivity), ← pow_add]
  have hexp : 7 - extra + 8 * extra = 7 * extra + 7 := by omega
  rw [hexp]
  exact (Nat.log2_lt hzero).mp (by omega)

/-- A number with its high bits in a first byte with `extra` leading ones. -/
theorem naturalOf_split {value extra : ℕ} (hone : 1 ≤ extra) (hseven : extra < 8)
    (hhigh : value / 256 ^ extra < 2 ^ (7 - extra)) :
    ∃ first, first = UInt8.ofNat (256 - 2 ^ (8 - extra)) ||| UInt8.ofNat (value / 256 ^ extra) ∧
      leadingOnes first = extra ∧ naturalOf first (toLe extra value) = value := by
  obtain ⟨hones, hbits⟩ := firstByte_spec extra hseven hone _ hhigh
  refine ⟨_, rfl, hones, ?_⟩
  rw [naturalOf_eq (by rw [length_toLe, hones]), hones, hbits, ofLe_toLe, mul_comm]
  exact Nat.div_add_mod _ _

/-- What `encode_natural` writes: the parts of its number, in the shortest form. -/
theorem encodeNatural_spec (value : UInt64) :
    ∃ first low, encodeNatural value = first :: low ∧ low.length = leadingOnes first ∧
      naturalOf first low = value.toNat ∧ Shortest first value.toNat := by
  unfold encodeNatural
  split
  case isTrue hsmall =>
    have hbyte : value.toUInt8.toNat = value.toNat := by
      rw [UInt64.toNat_toUInt8]
      omega
    have hlt : value.toUInt8 < 0x80 := by
      rw [UInt8.lt_iff_toNat_lt, hbyte]
      exact hsmall
    have hones := (firstByte_parts value.toUInt8).2.2.2.mpr hlt
    exact ⟨_, [], rfl, hones.symm, (naturalOf_nil hones).trans hbyte, .inl hones⟩
  case isFalse hlarge =>
    split
    case isTrue hmid =>
      obtain ⟨hone, hseven, hlower, hhigh⟩ := extra_spec (not_lt.mp hlarge) hmid
      dsimp only
      generalize value.toNat.log2 / 7 = extra at hone hseven hlower hhigh ⊢
      have hpow : 2 ^ (8 * extra) = 256 ^ extra := by rw [pow_mul]; norm_num
      obtain ⟨first, hfirst, hones, hvalue⟩ := naturalOf_split hone hseven hhigh
      have htake : (u64ToLe value).take extra = toLe extra value.toNat := take_toLe (by omega) _
      rw [htake, hpow, ← hfirst]
      exact ⟨_, _, rfl, by rw [length_toLe, hones], hvalue, .inr (by rwa [hones])⟩
    case isFalse hhuge =>
      have hones : leadingOnes 0xff = 8 := by decide
      have hlength : (u64ToLe value).length = leadingOnes 0xff := length_u64ToLe value
      refine ⟨_, _, rfl, hlength, ?_, .inr (by rw [hones]; omega)⟩
      have hbits : highBits 0xff = 0 := by decide
      rw [naturalOf_eq hlength, hbits, zero_mul, zero_add, u64ToLe, ofLe_toLe]
      exact Nat.mod_eq_of_lt value.toNat_lt

theorem encodeNatural_eq_cons_iff {value : UInt64} {first : UInt8} {low : Bytes} :
    encodeNatural value = first :: low ↔ low.length = leadingOnes first ∧
      naturalOf first low = value.toNat ∧ Shortest first value.toNat := by
  obtain ⟨first', low', hencode, hlow', hvalue', hshortest'⟩ := encodeNatural_spec value
  rw [hencode, List.cons.injEq]
  constructor
  · rintro ⟨rfl, rfl⟩
    exact ⟨hlow', hvalue', hshortest'⟩
  · rintro ⟨hlow, hvalue, hshortest⟩
    rw [← hvalue] at hshortest
    rw [← hvalue'] at hshortest'
    exact Shortest.unique hlow' hlow (hvalue'.trans hvalue.symm) hshortest' hshortest

/-! ### The decoder of the guest runtime -/

theorem readFnencode_eq_ok {bytes rest : Bytes} {value : UInt64} :
    readFnencode bytes = .ok (value, rest) ↔
      ∃ first low, bytes = first :: (low ++ rest) ∧ low.length = leadingOnes first ∧
        leadingOnes first ≤ 7 ∧ value.toNat = naturalOf first low := by
  cases bytes with
  | nil => simp [readFnencode]
  | cons first input =>
    obtain ⟨hones, -, -, hzero⟩ := firstByte_parts first
    rw [readFnencode]
    constructor
    · intro h
      split at h
      case isTrue hlt =>
        cases h
        have hnone := hzero.mpr hlt
        refine ⟨first, [], rfl, hnone.symm, by omega, ?_⟩
        rw [naturalOf_nil hnone, UInt8.toNat_toUInt64]
      case isFalse hge =>
        dsimp only at h
        split at h
        case isTrue => cases h
        case isFalse hlimits =>
          obtain ⟨hpos, hseven, hlength⟩ : leadingOnes first ≠ 0 ∧ leadingOnes first ≤ 7 ∧
              leadingOnes first ≤ input.length := by omega
          have htake : (input.take (leadingOnes first)).length = leadingOnes first :=
            List.length_take_of_le hlength
          cases h
          refine ⟨first, input.take (leadingOnes first), ?_, htake, hseven, ?_⟩
          · rw [List.take_append_drop]
          · exact UInt64.toNat_ofNat_of_lt' (naturalOf_lt_u64 htake)
    · rintro ⟨_, low, hbytes, hlow, hseven, hvalue⟩
      obtain ⟨rfl, rfl⟩ := List.cons.inj hbytes
      split
      case isTrue hlt =>
        have hnone := hzero.mpr hlt
        obtain rfl := List.length_eq_zero_iff.mp (hlow.trans hnone)
        rw [naturalOf_nil hnone] at hvalue
        congr 2
        apply UInt64.toNat_inj.mp
        rw [UInt8.toNat_toUInt64, hvalue]
      case isFalse hge =>
        have hpos : leadingOnes first ≠ 0 := fun h => hge (hzero.mp h)
        dsimp only
        rw [if_neg (by simp only [List.length_append]; omega), ← hlow, List.take_left,
          List.drop_left, hlow]
        congr 2
        apply UInt64.toNat_inj.mp
        rw [hvalue]
        exact UInt64.toNat_ofNat_of_lt' (naturalOf_lt_u64 hlow)

/-- Below `2^56` the decoder reads back what the encoder wrote. -/
theorem reads_fnencode {value : UInt64} (hvalue : value.toNat < 2 ^ 56) :
    Reads readFnencode (encodeNatural value) value := by
  intro rest
  obtain ⟨first, low, hencode, hlow, hparts, hshortest⟩ := encodeNatural_spec value
  rw [hencode, readFnencode_eq_ok]
  refine ⟨first, low, rfl, hlow, ?_, hparts.symm⟩
  -- eight bytes behind the first one are for numbers from `2^56` on
  by_contra hones
  have hpow : 2 ^ 56 ≤ 2 ^ (7 * leadingOnes first) := Nat.pow_le_pow_right (by norm_num) (by omega)
  rcases hshortest with hzero | hle <;> omega

/-- From `2^56` on the first byte is `0xff`, which the decoder refuses. -/
theorem readFnencode_large {value : UInt64} (hvalue : 2 ^ 56 ≤ value.toNat) (rest : Bytes) :
    readFnencode (encodeNatural value ++ rest) = .error () := by
  rw [encodeNatural, if_neg (by omega), if_neg (by omega), List.cons_append, readFnencode,
    if_neg (by decide)]
  exact if_pos (.inr (.inl (by decide)))

theorem readFnencode_encode_iff {value : UInt64} {rest : Bytes} :
    readFnencode (encodeNatural value ++ rest) = .ok (value, rest) ↔ value.toNat < 2 ^ 56 := by
  refine ⟨fun h => ?_, fun h => reads_fnencode h rest⟩
  by_contra hlarge
  rw [readFnencode_large (not_lt.mp hlarge)] at h
  cases h

/-- The decoder with an offset does on the bytes from there on what the other one does. -/
theorem decodeFnencode_append (before bytes : Bytes) :
    decodeFnencode (before ++ bytes) before.length =
      match readFnencode bytes with
      | .error _ => none
      | .ok (value, rest) => some (value, before.length + (bytes.length - rest.length)) := by
  cases bytes with
  | nil => simp [decodeFnencode, readFnencode]
  | cons first input =>
    have hfirst : (before ++ first :: input)[before.length]? = some first := by simp
    have hdrop : (before ++ first :: input).drop (before.length + 1) = input := by
      rw [← List.drop_drop, List.drop_left, List.drop_one, List.tail_cons]
    have hroom : (before ++ first :: input).length - (before.length + 1) = input.length := by
      simp
      omega
    simp only [decodeFnencode, readFnencode, hfirst, hdrop, hroom]
    split
    · simp
    split
    · rfl
    next hlimits =>
      simp only [List.length_cons, List.length_drop]
      congr 2
      omega

theorem decodeFnencode_encode_iff {value : UInt64} {before rest : Bytes} :
    decodeFnencode (before ++ (encodeNatural value ++ rest)) before.length =
      some (value, before.length + (encodeNatural value).length) ↔ value.toNat < 2 ^ 56 := by
  rw [decodeFnencode_append]
  refine ⟨fun h => ?_, fun h => ?_⟩
  · by_contra hlarge
    rw [readFnencode_large (not_lt.mp hlarge)] at h
    cases h
  · simp only [readFnencode_encode_iff.mpr h, List.length_append, Nat.add_sub_cancel]

end JamScript
