import JamScript.Auth.SignedAction

/-!
# Groups of six bits

The values of the groups into which `urlSafeNoPad` cuts its input, as numbers, and that the text
determines the bytes.
-/

namespace JamScript

open Codec

/-! ### The values of the groups -/

/-- The last `kept` bits of a byte, moved up. -/
theorem toNat_movedUp (x mask shift : UInt8) (kept : ℕ) (hmask : mask.toNat = 2 ^ kept - 1)
    (hshift : shift.toNat < 8) (hfit : 2 ^ kept * 2 ^ shift.toNat ≤ 256) :
    ((x &&& mask) <<< shift).toNat = (x.toNat % 2 ^ kept) <<< shift.toNat := by
  have hlt : x.toNat % 2 ^ kept * 2 ^ shift.toNat < 2 ^ 8 :=
    lt_of_lt_of_le (Nat.mul_lt_mul_of_pos_right (Nat.mod_lt _ (by positivity)) (by positivity)) hfit
  rw [UInt8.toNat_shiftLeft, UInt8.toNat_and, hmask, Nat.and_two_pow_sub_one_eq_mod,
    Nat.mod_eq_of_lt hshift, Nat.shiftLeft_eq, Nat.mod_eq_of_lt hlt]

/-- The last bits of one byte followed by the first bits of the next. -/
theorem toNat_joined (x y mask shift back : UInt8) (kept : ℕ) (hmask : mask.toNat = 2 ^ kept - 1)
    (hshift : shift.toNat < 8) (hback : back.toNat < 8) (hfit : 2 ^ kept * 2 ^ shift.toNat ≤ 256)
    (hroom : 2 ^ 8 ≤ 2 ^ shift.toNat * 2 ^ back.toNat) :
    ((x &&& mask) <<< shift ||| y >>> back).toNat =
      x.toNat % 2 ^ kept * 2 ^ shift.toNat + y.toNat / 2 ^ back.toNat := by
  have hy : y.toNat < 2 ^ 8 := y.toNat_lt
  have hlt : y.toNat / 2 ^ back.toNat < 2 ^ shift.toNat :=
    Nat.div_lt_of_lt_mul (by rw [Nat.mul_comm]; exact hy.trans_le hroom)
  rw [UInt8.toNat_or, toNat_movedUp x mask shift kept hmask hshift hfit, UInt8.toNat_shiftRight,
    Nat.mod_eq_of_lt hback, Nat.shiftRight_eq_div_pow, ← Nat.shiftLeft_add_eq_or_of_lt hlt,
    Nat.shiftLeft_eq]

theorem toNat_firstGroup (a : UInt8) : (a >>> 2).toNat = a.toNat / 4 := by
  rw [UInt8.toNat_shiftRight]
  exact Nat.shiftRight_eq_div_pow _ _

theorem toNat_secondGroup (a b : UInt8) :
    ((a &&& 3) <<< 4 ||| b >>> 4).toNat = a.toNat % 4 * 16 + b.toNat / 16 :=
  toNat_joined a b 3 4 4 2 rfl (by decide) (by decide) (by decide) (by decide)

theorem toNat_thirdGroup (b c : UInt8) :
    ((b &&& 15) <<< 2 ||| c >>> 6).toNat = b.toNat % 16 * 4 + c.toNat / 64 :=
  toNat_joined b c 15 2 6 4 rfl (by decide) (by decide) (by decide) (by decide)

theorem toNat_fourthGroup (c : UInt8) : (c &&& 63).toNat = c.toNat % 64 := by
  rw [UInt8.toNat_and]
  exact Nat.and_two_pow_sub_one_eq_mod _ 6

/-! ### The text determines the bytes -/

theorem base64Alphabet_getD_injective :
    ∀ i j : Fin 64, base64Alphabet.getD i 0 = base64Alphabet.getD j 0 → i = j := by
  decide +kernel

theorem toNat_eq_of_base64Char {g h : UInt8} (heq : base64Char g = base64Char h)
    (hg : g.toNat < 64) (hh : h.toNat < 64) : g.toNat = h.toNat := by
  have hfin := base64Alphabet_getD_injective ⟨g.toNat, hg⟩ ⟨h.toNat, hh⟩ heq
  exact Fin.mk.inj hfin

/-- Two texts of whole blocks agree on their first block only if the three bytes do. -/
theorem block_injective (a b c a' b' c' : UInt8)
    (h₁ : base64Char (a >>> 2) = base64Char (a' >>> 2))
    (h₂ : base64Char ((a &&& 3) <<< 4 ||| b >>> 4) = base64Char ((a' &&& 3) <<< 4 ||| b' >>> 4))
    (h₃ : base64Char ((b &&& 15) <<< 2 ||| c >>> 6) = base64Char ((b' &&& 15) <<< 2 ||| c' >>> 6))
    (h₄ : base64Char (c &&& 63) = base64Char (c' &&& 63)) : a = a' ∧ b = b' ∧ c = c' := by
  have ha := a.toNat_lt
  have hb := b.toNat_lt
  have hc := c.toNat_lt
  have ha' := a'.toNat_lt
  have hb' := b'.toNat_lt
  have hc' := c'.toNat_lt
  have h₁ := toNat_eq_of_base64Char h₁ (by rw [toNat_firstGroup]; omega)
    (by rw [toNat_firstGroup]; omega)
  have h₂ := toNat_eq_of_base64Char h₂ (by rw [toNat_secondGroup]; omega)
    (by rw [toNat_secondGroup]; omega)
  have h₃ := toNat_eq_of_base64Char h₃ (by rw [toNat_thirdGroup]; omega)
    (by rw [toNat_thirdGroup]; omega)
  have h₄ := toNat_eq_of_base64Char h₄ (by rw [toNat_fourthGroup]; omega)
    (by rw [toNat_fourthGroup]; omega)
  rw [toNat_firstGroup, toNat_firstGroup] at h₁
  rw [toNat_secondGroup, toNat_secondGroup] at h₂
  rw [toNat_thirdGroup, toNat_thirdGroup] at h₃
  rw [toNat_fourthGroup, toNat_fourthGroup] at h₄
  refine ⟨UInt8.toNat_inj.mp ?_, UInt8.toNat_inj.mp ?_, UInt8.toNat_inj.mp ?_⟩ <;> omega

theorem length_urlSafeNoPad (bytes : Bytes) :
    (urlSafeNoPad bytes).length = bytes.length + (bytes.length + 2) / 3 := by
  induction bytes using urlSafeNoPad.induct with
  | case1 a b c rest ih =>
    rw [urlSafeNoPad, List.length_append, ih]
    simp only [List.length_cons, List.length_nil]
    omega
  | case2 a b => simp [urlSafeNoPad]
  | case3 a => simp [urlSafeNoPad]
  | case4 => rfl

theorem urlSafeNoPad_injective : Function.Injective urlSafeNoPad := by
  intro left right h
  have hlength : left.length = right.length := by
    have hsame := congrArg List.length h
    rw [length_urlSafeNoPad, length_urlSafeNoPad] at hsame
    omega
  induction left using urlSafeNoPad.induct generalizing right with
  | case1 a b c rest ih =>
    obtain _ | ⟨a', _ | ⟨b', _ | ⟨c', rest'⟩⟩⟩ := right
    case cons.cons.cons =>
      simp only [urlSafeNoPad, List.cons_append, List.nil_append, List.cons.injEq] at h
      obtain ⟨h₁, h₂, h₃, h₄, hrest⟩ := h
      obtain ⟨rfl, rfl, rfl⟩ := block_injective a b c a' b' c' h₁ h₂ h₃ h₄
      rw [ih hrest (by simpa using hlength)]
    all_goals
      simp only [List.length_cons, List.length_nil] at hlength
      omega
  | case2 a b =>
    obtain ⟨a', b', rfl⟩ := List.length_eq_two.mp hlength.symm
    simp only [urlSafeNoPad, List.cons.injEq, and_true] at h
    obtain ⟨h₁, h₂, h₃⟩ := h
    obtain ⟨rfl, rfl, -⟩ := block_injective a b 0 a' b' 0 h₁ h₂ (by simpa using h₃) rfl
    rfl
  | case3 a =>
    obtain ⟨a', rfl⟩ := List.length_eq_one_iff.mp hlength.symm
    simp only [urlSafeNoPad, List.cons.injEq, and_true] at h
    obtain ⟨h₁, h₂⟩ := h
    obtain ⟨rfl, -, -⟩ := block_injective a 0 0 a' 0 0 h₁ (by simpa using h₂) rfl rfl
    rfl
  | case4 => exact (List.length_eq_zero_iff.mp hlength.symm).symm

end JamScript
