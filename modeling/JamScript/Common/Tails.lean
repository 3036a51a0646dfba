import Mathlib.Data.List.Basic
import Mathlib.Logic.Function.Basic

/-!
# Queues made of tails

Calls that must not overlap on a lane are chained: the lane remembers the last call that came to it,
its tail, and a call that comes waits until the tail it found has released the lane. Nothing but the
tail is stored, so a call that finds no tail goes ahead at once, and a call that releases the lane
takes the tail away if it is still the tail.

Calls are numbered in the order in which they come. `Orderly` is the invariant of the scheme: the
tail of a lane is the last of its calls, and every call but the first waits for one that has not
released the lane yet. It is kept by a call that comes (`Orderly.enter`), goes ahead
(`Orderly.proceed`) and releases (`Orderly.release`), and at most one call holds a lane
(`Orderly.holding_unique`).
-/

namespace Tails

/-- Where a call stands. -/
inductive Standing (Lane : Type) where
  | waiting (lane : Lane) (previous : Option ℕ)
  | holding (lane : Lane)
  | released

variable {Lane : Type}

/-- The call has come to the lane and not released it. -/
def Present (calls : List (Standing Lane)) (call : ℕ) (lane : Lane) : Prop :=
  (∃ previous, calls[call]? = some (.waiting lane previous)) ∨ calls[call]? = some (.holding lane)

/-- A call may go ahead when the one it waits for, if any, has released the lane. -/
def MayProceed (calls : List (Standing Lane)) (previous : Option ℕ) : Prop :=
  ∀ call ∈ previous, ∀ lane, ¬ Present calls call lane

/-- The calls of a lane wait for each other in a row that ends at its tail. -/
structure Orderly (tail : Lane → Option ℕ) (calls : List (Standing Lane)) : Prop where
  tail_last : ∀ {call lane}, Present calls call lane →
    ∃ last, tail lane = some last ∧ call ≤ last ∧ Present calls last lane
  behind : ∀ {first second lane}, Present calls first lane → Present calls second lane →
    first < second →
    ∃ previous, calls[second]? = some (.waiting lane (some previous)) ∧ first ≤ previous ∧
      Present calls previous lane

section Present

variable {calls : List (Standing Lane)} {call other : ℕ} {lane : Lane} {standing : Standing Lane}

theorem Present.lt (h : Present calls call lane) : call < calls.length := by
  rcases h with ⟨previous, h⟩ | h
  · exact (List.getElem?_eq_some_iff.mp h).1
  · exact (List.getElem?_eq_some_iff.mp h).1

theorem present_append_of_lt (h : call < calls.length) :
    Present (calls ++ [standing]) call lane ↔ Present calls call lane := by
  unfold Present
  rw [List.getElem?_append_left h]

theorem present_set_of_ne (h : call ≠ other) :
    Present (calls.set other standing) call lane ↔ Present calls call lane := by
  unfold Present
  rw [List.getElem?_set_ne (Ne.symm h)]

/-- A call that stands elsewhere or nowhere is not present on a lane. -/
theorem present_set_self (hcall : call < calls.length) :
    Present (calls.set call standing) call lane ↔
      (∃ previous, standing = .waiting lane previous) ∨ standing = .holding lane := by
  unfold Present
  rw [List.getElem?_set_self hcall]
  simp only [Option.some.injEq]

end Present

namespace Orderly

variable {tail : Lane → Option ℕ} {calls : List (Standing Lane)} {call : ℕ} {lane : Lane}

theorem empty : Orderly (fun _ : Lane => none) [] where
  tail_last h := absurd h.lt (Nat.not_lt_zero _)
  behind h := absurd h.lt (Nat.not_lt_zero _)

/-- One call holds a lane. -/
theorem holding_unique (h : Orderly tail calls) {other : ℕ}
    (hcall : calls[call]? = some (.holding lane)) (hother : calls[other]? = some (.holding lane)) :
    call = other := by
  -- of two holders the later one would still be waiting
  rcases Nat.lt_trichotomy call other with hlt | rfl | hlt
  · obtain ⟨previous, hwaiting, -⟩ := h.behind (.inr hcall) (.inr hother) hlt
    rw [hother] at hwaiting
    cases hwaiting
  · rfl
  · obtain ⟨previous, hwaiting, -⟩ := h.behind (.inr hother) (.inr hcall) hlt
    rw [hcall] at hwaiting
    cases hwaiting

variable [DecidableEq Lane]

/-- A new call waits for the tail and is the tail. -/
theorem enter (h : Orderly tail calls) (lane : Lane) :
    Orderly (Function.update tail lane (some calls.length))
      (calls ++ [.waiting lane (tail lane)]) := by
  have hnew : Present (calls ++ [.waiting lane (tail lane)]) calls.length lane :=
    .inl ⟨tail lane, by simp⟩
  have hold {call : ℕ} {other : Lane}
    (hpresent : Present (calls ++ [.waiting lane (tail lane)]) call other) :
      (call = calls.length ∧ other = lane) ∨ (call < calls.length ∧ Present calls call other) := by
    rcases Nat.lt_or_ge call calls.length with hlt | hge
    · exact .inr ⟨hlt, (present_append_of_lt hlt).mp hpresent⟩
    · have heq : call = calls.length := by
        have := hpresent.lt
        simp only [List.length_append, List.length_singleton] at this
        omega
      subst heq
      refine .inl ⟨rfl, ?_⟩
      rcases hpresent with ⟨previous, hwaiting⟩ | hholding
      · simp only [List.getElem?_concat_length, Option.some.injEq,
          Standing.waiting.injEq] at hwaiting
        exact hwaiting.1.symm
      · simp at hholding
  constructor
  · intro call other hpresent
    by_cases hlane : other = lane
    · subst hlane
      refine ⟨calls.length, by simp, ?_, hnew⟩
      have := hpresent.lt
      simp only [List.length_append, List.length_singleton] at this
      omega
    · rcases hold hpresent with ⟨-, rfl⟩ | ⟨-, hpresent⟩
      · exact absurd rfl hlane
      · obtain ⟨last, htail, hle, hlast⟩ := h.tail_last hpresent
        exact ⟨last, by rw [Function.update_of_ne hlane, htail], hle,
          (present_append_of_lt hlast.lt).mpr hlast⟩
  · intro first second other hfirst hsecond hlt
    rcases hold hsecond with ⟨rfl, rfl⟩ | ⟨hsecondLt, hsecond⟩
    · -- the new call waits for the tail, which is the last of the calls before it
      have hfirst := (present_append_of_lt hlt).mp hfirst
      obtain ⟨last, htail, hle, hlast⟩ := h.tail_last hfirst
      exact ⟨last, by simp [htail], hle, (present_append_of_lt hlast.lt).mpr hlast⟩
    · have hfirst := (present_append_of_lt (by omega)).mp hfirst
      obtain ⟨previous, hwaiting, hle, hprevious⟩ := h.behind hfirst hsecond hlt
      exact ⟨previous, by rw [List.getElem?_append_left hsecondLt, hwaiting], hle,
        (present_append_of_lt hprevious.lt).mpr hprevious⟩

omit [DecidableEq Lane] in
/-- A call goes ahead when the one before it has released the lane. -/
theorem proceed (h : Orderly tail calls) {previous : Option ℕ}
    (hcall : calls[call]? = some (.waiting lane previous)) (hmay : MayProceed calls previous) :
    Orderly tail (calls.set call (.holding lane)) := by
  have hpresent : Present calls call lane := .inl ⟨previous, hcall⟩
  -- the calls on every lane are the same as before
  have hsame {other : ℕ} {lane' : Lane} :
      Present (calls.set call (.holding lane)) other lane' ↔ Present calls other lane' := by
    by_cases hother : other = call
    · subst hother
      rw [present_set_self hpresent.lt]
      unfold Present
      simp [hcall]
    · exact present_set_of_ne hother
  constructor
  · intro other lane' hother
    simpa only [hsame] using h.tail_last (hsame.mp hother)
  · intro first second lane' hfirst hsecond hlt
    have hfirst := hsame.mp hfirst
    obtain ⟨before, hwaiting, hle, hbefore⟩ := h.behind hfirst (hsame.mp hsecond) hlt
    have hne : second ≠ call := by
      rintro rfl
      rw [hcall] at hwaiting
      simp only [Option.some.injEq, Standing.waiting.injEq] at hwaiting
      exact hmay before hwaiting.2 _ hbefore
    exact ⟨before, by rw [List.getElem?_set_ne hne.symm, hwaiting], hle, hsame.mpr hbefore⟩

/-- A call that releases the lane lets the next one go ahead. -/
theorem release (h : Orderly tail calls) (hcall : calls[call]? = some (.holding lane)) :
    Orderly (if tail lane = some call then Function.update tail lane none else tail)
      (calls.set call .released) := by
  have hpresent : Present calls call lane := .inr hcall
  have hkept {other : ℕ} {lane' : Lane} :
      Present (calls.set call .released) other lane' ↔ other ≠ call ∧
      Present calls other lane' := by
    by_cases hother : other = call
    · subst hother
      rw [present_set_self hpresent.lt]
      simp
    · rw [present_set_of_ne hother]
      exact ⟨fun hp => ⟨hother, hp⟩, And.right⟩
  -- whoever else is on the lane came later: a call behind another one is still waiting
  have hlater {other : ℕ} (hother : Present calls other lane) (hne : other ≠ call) : call <
    other := by
    by_contra hge
    obtain ⟨previous, hwaiting, -⟩ := h.behind hother hpresent (by omega)
    rw [hcall] at hwaiting
    cases hwaiting
  have hlane {other : ℕ} {lane' : Lane} (hother : other = call) (hp : Present calls other lane') :
      lane' = lane := by
    subst hother
    rcases hp with ⟨previous, hp⟩ | hp
    · rw [hcall] at hp
      cases hp
    · rw [hcall] at hp
      cases hp
      rfl
  constructor
  · intro other lane' hafter
    obtain ⟨hne, hother⟩ := hkept.mp hafter
    obtain ⟨last, htail, hle, hlast⟩ := h.tail_last hother
    have hlastNe : last ≠ call := by
      intro heq
      have := hlater (hlane heq hlast ▸ hother) hne
      omega
    refine ⟨last, ?_, hle, hkept.mpr ⟨hlastNe, hlast⟩⟩
    split
    · next hold =>
      have hlane' : lane' ≠ lane := by
        rintro rfl
        rw [hold] at htail
        exact hlastNe (Option.some.inj htail).symm
      rw [Function.update_of_ne hlane', htail]
    · exact htail
  · intro first second lane' hfirstAfter hsecondAfter hlt
    obtain ⟨hfirstNe, hfirst⟩ := hkept.mp hfirstAfter
    obtain ⟨hsecondNe, hsecond⟩ := hkept.mp hsecondAfter
    obtain ⟨previous, hwaiting, hle, hprevious⟩ := h.behind hfirst hsecond hlt
    have hpreviousNe : previous ≠ call := by
      intro heq
      have := hlater (hlane heq hprevious ▸ hfirst) hfirstNe
      omega
    exact ⟨previous, by rw [List.getElem?_set_ne hsecondNe.symm, hwaiting], hle,
      hkept.mpr ⟨hpreviousNe, hprevious⟩⟩

end Orderly

end Tails
