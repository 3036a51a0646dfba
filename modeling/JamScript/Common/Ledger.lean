import Mathlib.Logic.Function.Basic
import Mathlib.Order.Nat

/-!
# Numbers handed out in order

A ledger hands out the numbers of each of its lanes in order. It knows the next number of a lane,
the number at which the lane is blocked, the number from which the lane was last known to start, and
for which numbers somebody still answers.

Two invariants concern what is handed out next. `Ahead` bounds the numbers that are held from above:
the next number of a lane is fresh. `Gapless` bounds them from below: between the start of a lane
and its next number everything is held, or the lane is blocked there or below. What a step has to
show for either is stated about the fields alone, so that it can be shown of any state that has
them.
-/

namespace Ledgers

open Function

variable {Lane : Type}

/-- Blocks are lowered, not lifted. -/
def Lowers (before after : Lane → Option ℕ) : Prop :=
  ∀ lane block, before lane = some block → ∃ lower ≤ block, after lane = some lower

theorem Lowers.refl (blocked : Lane → Option ℕ) : Lowers blocked blocked :=
  fun _ block h => ⟨block, le_rfl, h⟩

theorem Lowers.trans {first second third : Lane → Option ℕ} (h : Lowers first second)
    (h' : Lowers second third) : Lowers first third := fun lane _ hfirst =>
  let ⟨_, hle, hsecond⟩ := h lane _ hfirst
  let ⟨least, hle', hthird⟩ := h' lane _ hsecond
  ⟨least, hle'.trans hle, hthird⟩

/-- A block at a number or below it stays one. -/
theorem Lowers.exists_le {before after : Lane → Option ℕ} (h : Lowers before after) {lane : Lane}
    {number : ℕ} (hblock : ∃ block ≤ number, before lane = some block) :
    ∃ block ≤ number, after lane = some block :=
  let ⟨block, hle, hbefore⟩ := hblock
  let ⟨lower, hlower, hafter⟩ := h lane block hbefore
  ⟨lower, hlower.trans hle, hafter⟩

/-- What a state says about its lanes. -/
structure Ledger (Lane : Type) where
  next : Lane → Option ℕ
  blocked : Lane → Option ℕ
  /-- the number from which the lane was last known to start -/
  start : Lane → Option ℕ
  held : Lane × ℕ → Prop
  /-- the numbers that somebody has stopped answering for -/
  lost : Lane × ℕ → Prop

namespace Ledger

variable {l l' : Ledger Lane} {lane : Lane} {number : ℕ}

/-! ## Fresh numbers -/

/-- The next number of a lane is above all that are held. -/
def Ahead (l : Ledger Lane) : Prop :=
  ∀ ⦃lane next number⦄, l.next lane = some next → l.held (lane, number) → number < next

/-- Nothing is handed out. -/
theorem Ahead.shrink (h : l.Ahead)
    (hnext : ∀ {lane next}, l'.next lane = some next → l.next lane = some next)
    (hheld : ∀ {taken}, l'.held taken → l.held taken) : l'.Ahead :=
  fun _ _ _ hsome hout => h (hnext hsome) (hheld hout)

/-- One number is handed out, and the next number is the one after it. -/
theorem Ahead.take [DecidableEq Lane] (h : l.Ahead)
    (hnext : l'.next = update l.next lane (some (number + 1)))
    (hheld : ∀ {taken}, l'.held taken → taken = (lane, number) ∨ l.held taken)
    (hbelow : ∀ {other}, l.held (lane, other) → other < number) : l'.Ahead := by
  intro key next other hkey hother
  rw [hnext] at hkey
  rcases hheld hother with heq | hother
  · obtain ⟨rfl, rfl⟩ := Prod.mk.inj heq
    rw [update_self] at hkey
    cases hkey
    exact Nat.lt_succ_self other
  · by_cases hsame : key = lane
    · subst hsame
      rw [update_self] at hkey
      cases hkey
      exact Nat.lt_succ_of_lt (hbelow hother)
    · rw [update_of_ne hsame] at hkey
      exact h hkey hother

/-! ## No gap -/

/-- The number is held, or it was lost and the lane is blocked there or below. -/
def Accounts (l : Ledger Lane) (taken : Lane × ℕ) : Prop :=
  l.held taken ∨ (l.lost taken ∧ ∃ block ≤ taken.2, l.blocked taken.1 = some block)

/-- A lane that hands out numbers accounts for all of them from its start on. -/
structure Gapless (l : Ledger Lane) : Prop where
  started : ∀ {lane next}, l.next lane = some next → ∃ start, l.start lane = some start
  accounts : ∀ {lane next start number}, l.next lane = some next → l.start lane = some start →
    start ≤ number → number < next → l.Accounts (lane, number)

/-- The lane starts at the number or below it, its next number is a later one, and it is not blocked
there or below. -/
def Passed (l : Ledger Lane) (taken : Lane × ℕ) : Prop :=
  (∃ start ∈ l.start taken.1, start ≤ taken.2) ∧ (∃ next ∈ l.next taken.1, taken.2 < next) ∧
    ∀ block ∈ l.blocked taken.1, taken.2 < block

instance (l : Ledger Lane) (taken : Lane × ℕ) : Decidable (l.Passed taken) :=
  inferInstanceAs (Decidable (_ ∧ _ ∧ _))

theorem exists_block_of_not_passed {start next : ℕ} (h : ¬ l.Passed (lane, number))
    (hstart : l.start lane = some start) (hle : start ≤ number) (hnext : l.next lane = some next)
    (hlt : number < next) : ∃ block ≤ number, l.blocked lane = some block := by
  by_contra hnone
  push Not at hnone
  refine h ⟨⟨start, hstart, hle⟩, ⟨next, hnext, hlt⟩, fun block hblock => ?_⟩
  by_contra hbelow
  exact hnone block (Nat.le_of_not_lt hbelow) hblock

/-- Numbers are lost, as far as the lane has not gone on without them. -/
theorem Gapless.lose (h : l.Gapless)
    (hnext : ∀ {lane next}, l'.next lane = some next → l.next lane = some next)
    (hblocked : Lowers l.blocked l'.blocked) (hstart : l'.start = l.start)
    (hlost : ∀ {taken}, l.lost taken → l'.lost taken)
    (hheld : ∀ {lane next start number}, l'.next lane = some next → l.start lane = some start →
      start ≤ number → number < next → l.held (lane, number) → l'.Accounts (lane, number)) :
    l'.Gapless where
  started hsome := hstart ▸ h.started (hnext hsome)
  accounts hsome hfrom hle hlt := by
    rw [hstart] at hfrom
    rcases h.accounts (hnext hsome) hfrom hle hlt with hbefore | ⟨hbefore, hblock⟩
    · exact hheld hsome hfrom hle hlt hbefore
    · exact .inr ⟨hlost hbefore, hblocked.exists_le hblock⟩

/-- No number is handed out or lost. -/
theorem Gapless.keep (h : l.Gapless) (hnext : l'.next = l.next)
    (hblocked : Lowers l.blocked l'.blocked) (hstart : l'.start = l.start)
    (hlost : ∀ {taken}, l.lost taken → l'.lost taken)
    (hheld : ∀ {taken}, l.held taken → l'.held taken) : l'.Gapless :=
  h.lose (fun hsome => hnext ▸ hsome) hblocked hstart hlost fun _ _ _ _ hbefore =>
    .inl (hheld hbefore)

variable [DecidableEq Lane]

/-- The start of a lane moves on. -/
theorem Gapless.look {start : ℕ} (h : l.Gapless)
    (hforward : ∀ earlier, l.start lane = some earlier → earlier ≤ start) :
    Gapless { l with start := update l.start lane (some start) } where
  started {other next} hnext := by
    by_cases hsame : other = lane
    · subst hsame
      exact ⟨start, update_self ..⟩
    · obtain ⟨earlier, hearlier⟩ := h.started hnext
      exact ⟨earlier, (update_of_ne hsame _ _).trans hearlier⟩
  accounts {other next last number} hnext hlast hle hlt := by
    by_cases hsame : other = lane
    · subst hsame
      obtain ⟨earlier, hearlier⟩ := h.started hnext
      have hstart : start = last := by
        simpa using hlast
      exact h.accounts hnext hearlier ((hforward earlier hearlier).trans (hstart.trans_le hle)) hlt
    · exact h.accounts hnext ((update_of_ne hsame _ _).symm.trans hlast) hle hlt

/-- One number is handed out on a lane that then holds all numbers from its start up to it. -/
theorem Gapless.take {start : ℕ} (h : l.Gapless)
    (hnext : l'.next = update l.next lane (some (number + 1)))
    (hblocked : ∀ other, other ≠ lane → l'.blocked other = l.blocked other)
    (hstart : l'.start lane = some start) (hothers : ∀ other, other ≠ lane →
      l'.start other = l.start other)
    (hlost : ∀ {taken}, l.lost taken → l'.lost taken)
    (hkept : ∀ {taken}, taken.1 ≠ lane → l.held taken → l'.held taken)
    (htaken : ∀ {other}, start ≤ other → other ≤ number → l'.held (lane, other)) : l'.Gapless where
  started {other next} hsome := by
    by_cases hsame : other = lane
    · exact ⟨start, hsame ▸ hstart⟩
    · rw [hnext, update_of_ne hsame] at hsome
      rw [hothers other hsame]
      exact h.started hsome
  accounts {other next first number} hsome hfirst hle hlt := by
    rw [hnext] at hsome
    by_cases hsame : other = lane
    · subst hsame
      rw [update_self] at hsome
      cases hsome
      cases hstart.symm.trans hfirst
      exact .inl (htaken hle (Nat.le_of_lt_succ hlt))
    · rw [update_of_ne hsame] at hsome
      rw [hothers other hsame] at hfirst
      refine (h.accounts hsome hfirst hle hlt).imp (hkept hsame) fun ⟨hbefore, hblock⟩ => ?_
      exact ⟨hlost hbefore, (hblocked other hsame).symm ▸ hblock⟩

end Ledger

end Ledgers
