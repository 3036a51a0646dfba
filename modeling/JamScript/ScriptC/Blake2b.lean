import JamScript.Common.LittleEndian

/-!
# The two implementations of BLAKE2b-256

The C SDK hashes with words of 64 bits, the runtime of ScriptC with pairs of numbers below 2³². The
numbers that the runtime stores have all gone through `>>> 0`, so that they are `BitVec 32` here,
and its sums stay far below 2⁵³.

The rounds are the same program over either kind of word and stand over an arbitrary type of words;
`Word.join` takes the operations on pairs to those on 64 bits, hence the rounds to the rounds
(`map_rounds`). What differs is how the counter enters: the runtime adds its upper half to the wrong
word, which is zero for inputs shorter than 2³² bytes.
-/

namespace JamScript.Blake2b

open Codec

/-! ## Rounds over any words -/

/-- What the rounds do with words. -/
structure WordOps (W : Type) where
  zero : W
  add : W → W → W
  xor : W → W → W
  rotr : W → ℕ → W

/-- `BLAKE2B_SIGMA` and `SIGMA`. -/
def sigma : List (List ℕ) :=
  [[0, 1, 2, 3, 4, 5, 6, 7, 8, 9, 10, 11, 12, 13, 14, 15],
   [14, 10, 4, 8, 9, 15, 13, 6, 1, 12, 0, 2, 11, 7, 5, 3],
   [11, 8, 12, 0, 5, 2, 15, 13, 10, 14, 3, 6, 7, 1, 9, 4],
   [7, 9, 3, 1, 13, 12, 11, 14, 2, 6, 5, 10, 4, 0, 15, 8],
   [9, 0, 5, 7, 2, 4, 10, 15, 14, 1, 11, 12, 6, 8, 3, 13],
   [2, 12, 6, 10, 0, 11, 8, 3, 4, 13, 7, 5, 15, 14, 1, 9],
   [12, 5, 1, 15, 14, 13, 4, 10, 0, 7, 6, 3, 9, 2, 8, 11],
   [13, 11, 7, 14, 12, 1, 3, 9, 5, 0, 15, 4, 8, 6, 2, 10],
   [6, 15, 14, 9, 11, 3, 0, 8, 12, 2, 13, 7, 1, 4, 10, 5],
   [10, 2, 8, 4, 7, 6, 1, 5, 15, 11, 9, 14, 3, 12, 13, 0],
   [0, 1, 2, 3, 4, 5, 6, 7, 8, 9, 10, 11, 12, 13, 14, 15],
   [14, 10, 4, 8, 9, 15, 13, 6, 1, 12, 0, 2, 11, 7, 5, 3]]

section Rounds

variable {W : Type} (ops : WordOps W)

/-- `blakeG` and `G`. -/
def mix (v : List W) (a b c d : ℕ) (x y : W) : List W :=
  let at' (v : List W) (i : ℕ) := v.getD i ops.zero
  let v := v.set a (ops.add (ops.add (at' v a) (at' v b)) x)
  let v := v.set d (ops.rotr (ops.xor (at' v d) (at' v a)) 32)
  let v := v.set c (ops.add (at' v c) (at' v d))
  let v := v.set b (ops.rotr (ops.xor (at' v b) (at' v c)) 24)
  let v := v.set a (ops.add (ops.add (at' v a) (at' v b)) y)
  let v := v.set d (ops.rotr (ops.xor (at' v d) (at' v a)) 16)
  let v := v.set c (ops.add (at' v c) (at' v d))
  v.set b (ops.rotr (ops.xor (at' v b) (at' v c)) 63)

/-- One round, with a row of the table. -/
def round (m v : List W) (s : List ℕ) : List W :=
  let word (i : ℕ) := m.getD (s.getD i 0) ops.zero
  let v := mix ops v 0 4 8 12 (word 0) (word 1)
  let v := mix ops v 1 5 9 13 (word 2) (word 3)
  let v := mix ops v 2 6 10 14 (word 4) (word 5)
  let v := mix ops v 3 7 11 15 (word 6) (word 7)
  let v := mix ops v 0 5 10 15 (word 8) (word 9)
  let v := mix ops v 1 6 11 12 (word 10) (word 11)
  let v := mix ops v 2 7 8 13 (word 12) (word 13)
  mix ops v 3 4 9 14 (word 14) (word 15)

/-- All rounds, each with its own order of the message words. -/
def rounds (m v : List W) : List W := sigma.foldl (round ops m) v

/-- The last loop of a compression. -/
def feedForward (h v : List W) : List W := (List.range 8).map fun i =>
  ops.xor (h.getD i ops.zero) (ops.xor (v.getD i ops.zero) (v.getD (i + 8) ops.zero))

end Rounds

/-- A map of words that respects the operations of the rounds. -/
structure IsWordMap {V W : Type} (ops : WordOps V) (ops' : WordOps W) (f : V → W) : Prop where
  zero : f ops.zero = ops'.zero
  add : ∀ x y, f (ops.add x y) = ops'.add (f x) (f y)
  xor : ∀ x y, f (ops.xor x y) = ops'.xor (f x) (f y)
  rotr : ∀ x, ∀ count ∈ [16, 24, 32, 63], f (ops.rotr x count) = ops'.rotr (f x) count

section WordMap

variable {V W : Type} {ops : WordOps V} {ops' : WordOps W} {f : V → W}

/-- A word map commutes with looking up words. -/
theorem IsWordMap.getD (hf : IsWordMap ops ops' f) (v : List V) (i : ℕ) :
    (v.map f).getD i ops'.zero = f (v.getD i ops.zero) := by
  rw [← hf.zero, List.getD_map]

/-- A word map commutes with the mixing of four words. -/
theorem map_mix (hf : IsWordMap ops ops' f) (v : List V) (a b c d : ℕ) (x y : V) :
    (mix ops v a b c d x y).map f = mix ops' (v.map f) a b c d (f x) (f y) := by
  simp only [mix, hf.getD, ← hf.add, ← hf.xor, ← hf.rotr _ 32 (by simp), ← hf.rotr _ 24 (by simp),
    ← hf.rotr _ 16 (by simp), ← hf.rotr _ 63 (by simp), ← List.map_set]

/-- A word map commutes with the rounds. -/
theorem map_rounds (hf : IsWordMap ops ops' f) (m v : List V) :
    (rounds ops m v).map f = rounds ops' (m.map f) (v.map f) := by
  unfold rounds
  induction sigma generalizing v with
  | nil => rfl
  | cons s table ih => simp only [List.foldl_cons, ih, round, map_mix hf, hf.getD]

/-- A word map commutes with the end of a compression. -/
theorem map_feedForward (hf : IsWordMap ops ops' f) (h v : List V) :
    (feedForward ops h v).map f = feedForward ops' (h.map f) (v.map f) := by
  simp only [feedForward, List.map_map, hf.getD, ← hf.xor]
  rfl

end WordMap

/-! ## The C SDK -/

/-- The initialisation vector of BLAKE2b. -/
def iv : List (BitVec 64) :=
  [0x6a09e667f3bcc908, 0xbb67ae8584caa73b, 0x3c6ef372fe94f82b, 0xa54ff53a5f1d36f1,
    0x510e527fade682d1, 0x9b05688c2b3e6c1f, 0x1f83d9abfb41bd6b, 0x5be0cd19137e2179]

/-- The bytes of a word are put together by shifts. -/
def load64 (bytes : Bytes) : BitVec 64 := BitVec.ofNat 64 (ofLe (bytes.take 8))

/-- `rotr64` of the SDK. -/
def rotr64 (value : BitVec 64) (shift : ℕ) : BitVec 64 := value >>> shift ||| value <<< (64 - shift)

/-- The operations of the SDK on words of 64 bits. -/
def ops64 : WordOps (BitVec 64) where
  zero := 0
  add := (· + ·)
  xor := (· ^^^ ·)
  rotr := rotr64

/-- `compress` of the SDK. -/
def compress (h : List (BitVec 64)) (block : Bytes) (count : ℕ) (last : Bool) : List (BitVec 64) :=
  let m := (List.range 16).map fun i => load64 (block.drop (i * 8))
  let v := h ++ iv
  let v := v.set 12 (v.getD 12 0 ^^^ BitVec.ofNat 64 count)
  let v := if last then v.set 14 (~~~ v.getD 14 0) else v
  feedForward ops64 h (rounds ops64 m v)

/-- The loop over the blocks but the last, with the bytes that are left and how many are gone. -/
def absorb (h : List (BitVec 64)) (bytes : Bytes) (count : ℕ) : List (BitVec 64) × Bytes × ℕ :=
  if bytes.length > 128 then
    absorb (compress h (bytes.take 128) (count + 128) false) (bytes.drop 128) (count + 128)
  else (h, bytes, count)
termination_by bytes.length
decreasing_by
  rw [List.length_drop]
  omega

/-- `minijam_blake2b_256` of the SDK. -/
def minijamBlake2b256 (input : Bytes) : Bytes :=
  let h := iv.set 0 (iv.getD 0 0 ^^^ 0x01010020)
  let (h, bytes, count) := absorb h input 0
  let block := bytes ++ List.replicate (128 - bytes.length) 0
  let h := compress h block (count + bytes.length) true
  (h.take 4).flatMap fun word => toLe 8 word.toNat

/-! ## The runtime of ScriptC -/

/-- A word of 64 bits, as ScriptC holds it in two halves. -/
structure Word where
  lo : BitVec 32
  hi : BitVec 32

/-- The lower halves of the initialisation vector. -/
def ivLo : List (BitVec 32) :=
  [0xf3bcc908, 0x84caa73b, 0xfe94f82b, 0x5f1d36f1, 0xade682d1, 0x2b3e6c1f, 0xfb41bd6b, 0x137e2179]

/-- The upper halves of the initialisation vector. -/
def ivHi : List (BitVec 32) :=
  [0x6a09e667, 0xbb67ae85, 0x3c6ef372, 0xa54ff53a, 0x510e527f, 0x9b05688c, 0x1f83d9ab, 0x5be0cd19]

/-- The initialisation vector in halves. -/
def ivWords : List Word := List.zipWith Word.mk ivLo ivHi

/-- A sum of the lower halves that is smaller than a summand has a carry. -/
def blakeAdd64 (left right : Word) : Word :=
  let lo := left.lo + right.lo
  let carry := if lo < left.lo then 1 else 0
  ⟨lo, left.hi + right.hi + carry⟩

/-- `blakeXor64`. -/
def blakeXor64 (left right : Word) : Word := ⟨left.lo ^^^ right.lo, left.hi ^^^ right.hi⟩

/-- A rotation by less than, exactly and more than half a word. -/
def blakeRotr (value : Word) (count : ℕ) : Word :=
  if count = 32 then ⟨value.hi, value.lo⟩
  else if count < 32 then
    ⟨value.lo >>> count ||| value.hi <<< (32 - count),
      value.hi >>> count ||| value.lo <<< (32 - count)⟩
  else
    let shift := count - 32
    ⟨value.hi >>> shift ||| value.lo <<< (32 - shift),
      value.lo >>> shift ||| value.hi <<< (32 - shift)⟩

/-- `blakeLoad`. -/
def blakeLoad (bytes : Bytes) (offset : ℕ) : Word :=
  ⟨BitVec.ofNat 32 (ofLe ((bytes.drop offset).take 4)),
    BitVec.ofNat 32 (ofLe ((bytes.drop (offset + 4)).take 4))⟩

/-- `blakeStore`. -/
def blakeStore (value : Word) : Bytes := toLe 4 value.lo.toNat ++ toLe 4 value.hi.toNat

/-- The operations of ScriptC on halves. -/
def wordOps : WordOps Word where
  zero := ⟨0, 0⟩
  add := blakeAdd64
  xor := blakeXor64
  rotr := blakeRotr

/-- Each half of the byte count goes into the lower half of a word. -/
def blakeCompress (h : List Word) (block : Bytes) (count : ℕ) (last : Bool) : List Word :=
  let message := (List.range 16).map fun i => blakeLoad block (i * 8)
  let v := h ++ ivWords
  let word := v.getD 12 ⟨0, 0⟩
  let v := v.set 12 ⟨word.lo ^^^ BitVec.ofNat 32 count, word.hi⟩
  let word := v.getD 13 ⟨0, 0⟩
  let v := v.set 13 ⟨word.lo ^^^ BitVec.ofNat 32 (count / 2 ^ 32), word.hi⟩
  let word := v.getD 14 ⟨0, 0⟩
  let v := if last then v.set 14 ⟨word.lo ^^^ 0xffffffff, word.hi ^^^ 0xffffffff⟩ else v
  feedForward wordOps h (rounds wordOps message v)

/-- Full blocks are compressed as long as something follows them. -/
def blakeAbsorb (input : Bytes) (h : List Word) (offset count : ℕ) : List Word × ℕ × ℕ :=
  if offset + 128 < input.length then
    blakeAbsorb input (blakeCompress h ((input.drop offset).take 128) (count + 128) false)
      (offset + 128) (count + 128)
  else (h, offset, count)
termination_by input.length - offset
decreasing_by omega

/-- `blake2b256` of ScriptC. -/
def blake2b256 (input : Bytes) : Bytes :=
  let h := ivWords.set 0
    { ivWords.getD 0 ⟨0, 0⟩ with lo := (ivWords.getD 0 ⟨0, 0⟩).lo ^^^ 0x01010020 }
  let (h, offset, count) := blakeAbsorb input h 0 0
  let rest := input.drop offset
  let block := rest ++ List.replicate (128 - rest.length) 0
  let h := blakeCompress h block (count + input.length - offset) true
  (h.take 4).flatMap blakeStore

/-! ## Pairs as words of 64 bits -/

/-- The word that two halves stand for. -/
def Word.join (word : Word) : BitVec 64 := word.hi ++ word.lo

/-- The number that two halves stand for. -/
theorem Word.toNat_join (word : Word) : word.join.toNat =
    word.hi.toNat * 2 ^ 32 + word.lo.toNat := by
  rw [join, BitVec.toNat_append, ← Nat.shiftLeft_add_eq_or_of_lt word.lo.isLt, Nat.shiftLeft_eq]

/-- The sum of halves is the sum of words. -/
theorem join_add (left right : Word) : (blakeAdd64 left right).join = left.join + right.join := by
  have hlo := left.lo.isLt
  have hlo' := right.lo.isLt
  have hhi := left.hi.isLt
  have hhi' := right.hi.isLt
  apply BitVec.eq_of_toNat_eq
  rw [BitVec.toNat_add, Word.toNat_join, Word.toNat_join, Word.toNat_join]
  simp only [blakeAdd64, BitVec.lt_def, BitVec.toNat_add]
  -- the carry is one exactly when the sum of the lower halves wraps
  have hone : (1 : BitVec 32).toNat = 1 := rfl
  have hzero : (0 : BitVec 32).toNat = 0 := rfl
  split <;> omega

/-- The exclusive or of halves is that of words. -/
theorem join_xor (left right : Word) : (blakeXor64 left right).join = left.join ^^^ right.join := by
  apply BitVec.eq_of_getLsbD_eq
  intro i hi
  simp only [Word.join, blakeXor64, BitVec.getLsbD_xor, BitVec.getLsbD_append]
  split <;> rfl

/-- The rotations that BLAKE2b uses agree. -/
theorem join_rotr (word : Word) (count : ℕ) (hcount : count ∈ [16, 24, 32, 63]) :
    (blakeRotr word count).join = rotr64 word.join count := by
  apply BitVec.eq_of_getLsbD_eq
  intro i hi
  simp only [List.mem_cons, List.not_mem_nil, or_false] at hcount
  rcases hcount with rfl | rfl | rfl | rfl
  all_goals
    simp only [Word.join, blakeRotr, rotr64, BitVec.getLsbD_append, BitVec.getLsbD_or,
      BitVec.getLsbD_shiftLeft, BitVec.getLsbD_ushiftRight]
    -- each count decides the branches of `blakeRotr`; what is left is where a bit comes from
    simp only [Nat.reduceEqDiff, Nat.reduceLT, if_true, if_false, Nat.reduceSub, BitVec.getLsbD_or,
      BitVec.getLsbD_shiftLeft, BitVec.getLsbD_ushiftRight]
    grind

/-- Joining halves is a word map, so what is proved of word maps holds of it. -/
theorem isWordMap_join : IsWordMap wordOps ops64 Word.join := ⟨rfl, join_add, join_xor, join_rotr⟩

/-- Loading in halves is loading a word. -/
theorem join_load (block : Bytes) (offset : ℕ) : (blakeLoad block offset).join = load64
    (block.drop offset) := by
  have hsplit : ofLe ((block.drop offset).take 8) =
      ofLe ((block.drop (offset + 4)).take 4) * 2 ^ 32 + ofLe ((block.drop offset).take 4) := by
    rw [show 8 = 4 + 4 from rfl, List.take_add, List.drop_drop, ofLe_append, List.length_take]
    rcases Nat.lt_or_ge (block.drop offset).length 4 with hshort | hlong
    · -- behind the end of the block both halves read zeros
      rw [List.length_drop] at hshort
      rw [List.drop_of_length_le (i := offset + 4) (by omega)]
      simp [ofLe]
    · rw [Nat.min_eq_left hlong]
      omega
  have hlow := ofLe_lt ((block.drop offset).take 4)
  have hhigh := ofLe_lt ((block.drop (offset + 4)).take 4)
  have hlow' : (256 : ℕ) ^ ((block.drop offset).take 4).length ≤ 256 ^ 4 :=
    Nat.pow_le_pow_right (by decide) (List.length_take_le _ _)
  have hhigh' : (256 : ℕ) ^ ((block.drop (offset + 4)).take 4).length ≤ 256 ^ 4 :=
    Nat.pow_le_pow_right (by decide) (List.length_take_le _ _)
  apply BitVec.eq_of_toNat_eq
  rw [Word.toNat_join, load64, hsplit]
  simp only [blakeLoad, BitVec.toNat_ofNat]
  omega

/-- Storing in halves is storing a word. -/
theorem store_join (word : Word) : toLe 8 word.join.toNat = blakeStore word := by
  have hlo := word.lo.isLt
  have hhigh : word.join.toNat / 256 ^ 4 = word.hi.toNat := by
    rw [Word.toNat_join]
    omega
  have hlow : toLe 4 word.join.toNat = toLe 4 word.lo.toNat := by
    apply ofLe_injOn (by rw [length_toLe, length_toLe])
    rw [ofLe_toLe, ofLe_toLe, Word.toNat_join]
    omega
  rw [show 8 = 4 + 4 from rfl, toLe_add, hhigh, hlow, blakeStore]

/-- A count below 2³² only touches the lower half. -/
theorem join_xorLo (word : Word) {count : ℕ} (hcount : count < 2 ^ 32) :
    Word.join ⟨word.lo ^^^ BitVec.ofNat 32 count, word.hi⟩ = word.join ^^^ BitVec.ofNat
      64 count := by
  have hword : (⟨word.lo ^^^ BitVec.ofNat 32 count, word.hi⟩ : Word) =
      blakeXor64 word ⟨BitVec.ofNat 32 count, 0⟩ := by simp [blakeXor64]
  have hcounter : Word.join ⟨BitVec.ofNat 32 count, 0⟩ = BitVec.ofNat 64 count := by
    apply BitVec.eq_of_toNat_eq
    have hzero : (0 : BitVec 32).toNat = 0 := rfl
    rw [Word.toNat_join]
    simp only [BitVec.toNat_ofNat, hzero]
    omega
  rw [hword, join_xor, hcounter]

/-- Flipping both halves flips the word. -/
theorem join_not (word : Word) :
    Word.join ⟨word.lo ^^^ 0xffffffff, word.hi ^^^ 0xffffffff⟩ = ~~~ word.join := by
  have hones : Word.join ⟨0xffffffff, 0xffffffff⟩ = BitVec.allOnes 64 := by decide
  exact (join_xor word ⟨0xffffffff, 0xffffffff⟩).trans (by rw [hones, BitVec.xor_allOnes])

/-- The two initialisation vectors agree. -/
theorem map_join_ivWords : ivWords.map Word.join = iv := by decide

/-- One compression of ScriptC is one of the SDK. -/
theorem map_join_compress (h : List Word) (block : Bytes) {count : ℕ} (hcount : count < 2 ^ 32)
    (last : Bool) :
    (blakeCompress h block count last).map Word.join = compress
    (h.map Word.join) block count last := by
  have hmessage : ((List.range 16).map fun i => blakeLoad block (i * 8)).map Word.join =
      (List.range 16).map fun i => load64 (block.drop (i * 8)) := by
    rw [List.map_map]
    exact List.map_congr_left fun i _ => join_load block (i * 8)
  have hget : ∀ (v : List Word) (i : ℕ), (v.getD i ⟨0, 0⟩).join = (v.map Word.join).getD i 0 :=
    fun v i => (isWordMap_join.getD v i).symm
  -- the upper half of the counter is zero, and so the thirteenth word stays
  have hsame : ∀ v : List Word, v.set 13 ⟨(v.getD 13 ⟨0, 0⟩).lo ^^^ BitVec.ofNat 32
    (count / 2 ^ 32),
      (v.getD 13 ⟨0, 0⟩).hi⟩ = v := by
    intro v
    rw [Nat.div_eq_of_lt hcount, BitVec.ofNat_eq_ofNat, BitVec.xor_zero]
    refine List.ext_getElem? fun i => ?_
    rw [List.getElem?_set]
    split
    next hi =>
      subst hi
      split
      next hlt => rw [List.getD_eq_getElem _ _ hlt, List.getElem?_eq_getElem hlt]
      next hge => rw [List.getElem?_eq_none (not_lt.mp hge)]
    next => rfl
  rw [blakeCompress, hsame, map_feedForward isWordMap_join, map_rounds isWordMap_join,
    hmessage, compress]
  congr 2
  rw [apply_ite (List.map Word.join)]
  simp only [List.map_set, List.map_append, map_join_ivWords, join_not, join_xorLo _ hcount, hget]

/-- The loops over full blocks stop at the same place with the same words. -/
theorem map_join_absorb {input : Bytes} (hinput : input.length < 2 ^ 32)
    (h : List Word) {offset : ℕ} (hoffset : offset ≤ input.length) :
    ∃ h' offset', offset' ≤ input.length ∧ blakeAbsorb input h offset offset =
      (h', offset', offset') ∧
      absorb (h.map Word.join) (input.drop offset) offset =
        (h'.map Word.join, input.drop offset', offset') := by
  -- the loops recurse on the input from different sides: induction on what is left of it
  induction hleft : input.length - offset using Nat.strong_induction_on generalizing h offset with
  | _ left ih =>
    rw [blakeAbsorb, absorb, List.length_drop]
    by_cases hmore : offset + 128 < input.length
    · rw [if_pos hmore, if_pos (by omega), ← map_join_compress _ _ (by omega), List.drop_drop]
      exact ih _ (by omega) _ (by omega) rfl
    · rw [if_neg hmore, if_neg (by omega)]
      exact ⟨h, offset, hoffset, rfl, rfl⟩

/-- The runtime of ScriptC hashes an input of less than 2³² bytes as the SDK does. -/
theorem blake2b256_eq {input : Bytes} (hinput : input.length < 2 ^ 32) :
    blake2b256 input = minijamBlake2b256 input := by
  generalize hstart : ivWords.set 0 { ivWords.getD 0 ⟨0, 0⟩ with
    lo := (ivWords.getD 0 ⟨0, 0⟩).lo ^^^ 0x01010020 } = start
  have hiv : start.map Word.join = iv.set 0 (iv.getD 0 0 ^^^ 0x01010020) := by
    rw [← hstart]
    decide
  obtain ⟨h, offset, hoffset, habsorb, habsorb'⟩ := map_join_absorb hinput start (Nat.zero_le _)
  rw [List.drop_zero, hiv] at habsorb'
  simp only [blake2b256, minijamBlake2b256, hstart, habsorb, habsorb']
  -- both pad the rest, count all bytes and compress it as the last block
  rw [show offset + input.length - offset = offset + (input.drop offset).length by
      rw [List.length_drop]; omega,
    ← map_join_compress _ _ (by rw [List.length_drop]; omega), ← List.map_take, List.flatMap_map]
  simp only [store_join]

/-- An input of one full block and the beginning of another. -/
theorem blake2b256_eq_two_blocks : (List.replicate 200 (0x5a : UInt8)).length = 200 ∧
    blake2b256 (List.replicate 200 0x5a) = minijamBlake2b256 (List.replicate 200 0x5a) :=
  ⟨List.length_replicate, blake2b256_eq (by rw [List.length_replicate]; decide)⟩

end JamScript.Blake2b
