import Mathlib.Data.List.Basic

/-!
# Texts with delimiters

A text that is put together from parts can be taken apart again when each part ends in a delimiter
that does not occur in it. `intercalate_append_inj` is the rule for a list of parts with a separator
between them.
-/

namespace Codec

variable {α β : Type}

/-- The first delimiter ends the part before it. -/
theorem append_delimiter_inj {delimiter : β} {s t x y : List β} (hs : delimiter ∉ s)
    (ht : delimiter ∉ t) (h : s ++ delimiter :: x = t ++ delimiter :: y) : s = t ∧ x = y := by
  induction s generalizing t with
  | nil =>
    cases t with
    | nil => exact ⟨rfl, List.tail_eq_of_cons_eq h⟩
    | cons b t =>
      obtain ⟨rfl, -⟩ := List.cons.inj h
      exact absurd List.mem_cons_self ht
  | cons a s ih =>
    cases t with
    | nil =>
      obtain ⟨rfl, -⟩ := List.cons.inj h
      exact absurd List.mem_cons_self hs
    | cons b t =>
      obtain ⟨rfl, htail⟩ := List.cons.inj h
      rw [List.mem_cons, not_or] at hs ht
      obtain ⟨rfl, hrest⟩ := ih hs.2 ht.2 htail
      exact ⟨rfl, hrest⟩

section Intercalate

variable {write : α → List β} {separator close : β}

/-- What follows the first item of a list of items. -/
private def afterItem (write : α → List β) (separator : β) (items : List α) (x : List β) : List β :=
  if items = [] then x else separator :: ([separator].intercalate (items.map write) ++ x)

private theorem intercalate_cons (write : α → List β) (separator : β) (item : α) (items : List α)
    (x : List β) : [separator].intercalate ((item :: items).map write) ++ x =
      write item ++ afterItem write separator items x := by
  cases items with
  | nil => simp [afterItem]
  | cons next items => simp [afterItem, List.intercalate_cons_cons]

/-- Items that can be told from what follows them, with a separator between them and an end that
neither the separator nor an item starts with. -/
theorem intercalate_append_inj (valid valid' : α → Prop) (hseparator : separator ≠ close)
    (hclose : ∀ {item x}, valid item ∨ valid' item → (write item ++ x).head? ≠ some close)
    (hwrite : ∀ {item item' x y}, valid item → valid' item' → write item ++ x = write item' ++ y →
      item = item' ∧ x = y)
    {items items' : List α} {x y : List β} (hitems : ∀ item ∈ items, valid item)
    (hitems' : ∀ item ∈ items', valid' item)
    (h : [separator].intercalate (items.map write) ++ close :: x =
      [separator].intercalate (items'.map write) ++ close :: y) : items = items' ∧ x = y := by
  induction items generalizing items' with
  | nil =>
    cases items' with
    | nil => exact ⟨rfl, List.tail_eq_of_cons_eq h⟩
    | cons item' items' =>
      rw [List.forall_mem_cons] at hitems'
      rw [intercalate_cons] at h
      exact absurd (congrArg List.head? h).symm (hclose (.inr hitems'.1))
  | cons item items ih =>
    rw [List.forall_mem_cons] at hitems
    rw [intercalate_cons] at h
    cases items' with
    | nil => exact absurd (congrArg List.head? h) (hclose (.inl hitems.1))
    | cons item' items' =>
      rw [List.forall_mem_cons] at hitems'
      rw [intercalate_cons] at h
      obtain ⟨rfl, hafter⟩ := hwrite hitems.1 hitems'.1 h
      unfold afterItem at hafter
      -- a separator and the end cannot be taken for each other
      split at hafter <;> split at hafter
      case isTrue.isTrue hnil hnil' =>
        subst hnil hnil'
        exact ⟨rfl, List.tail_eq_of_cons_eq hafter⟩
      case isTrue.isFalse => exact absurd (List.cons.inj hafter).1.symm hseparator
      case isFalse.isTrue => exact absurd (List.cons.inj hafter).1 hseparator
      case isFalse.isFalse =>
        obtain ⟨rfl, hrest⟩ := ih hitems.2 hitems'.2 (List.cons.inj hafter).2
        exact ⟨rfl, hrest⟩

end Intercalate

end Codec
