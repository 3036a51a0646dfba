import JamScript.Common.Fields

/-!
# Two parsers of one format

`Agrees p q view` says that `q` accepts exactly what `p` accepts, leaves the same bytes, and returns
what `p` returns, seen through `view`. The errors of the two need not have anything to do with each
other. The relation is built up along the monad like the parsers themselves, so two implementations
of a format are compared field by field.

Where `q` accepts less, or returns less, the relation is `Selects p q related`: `q` accepts what `p`
reads as a value that is related to some result. `Within p q` is for a parser `p` that is stricter
than `q`.
-/

namespace Codec

variable {ε ε' α β γ δ : Type}

/-- The two computations succeed together, with results that correspond. -/
def SameOutcome (x : Except ε α) (y : Except ε' β) (view : α → β) : Prop :=
  ∀ b, y = .ok b ↔ ∃ a, x = .ok a ∧ view a = b

/-- `q` accepts what `p` reads as a value that is related to the result of `q`. -/
def Selects (p : Parser ε α) (q : Parser ε' β) (related : α → β → Prop) : Prop :=
  ∀ bs rest b, q bs = .ok (b, rest) ↔ ∃ a, p bs = .ok (a, rest) ∧ related a b

/-- `q` accepts what `p` accepts, with the result seen through `view`. -/
abbrev Agrees (p : Parser ε α) (q : Parser ε' β) (view : α → β) : Prop :=
  Selects p q fun a b => view a = b

/-- `q` accepts what `p` accepts, with the same result. -/
def Within (p q : Parser ε α) : Prop := ∀ ⦃bs read⦄, p bs = .ok read → q bs = .ok read

theorem Within.refl (p : Parser ε α) : Within p p := fun _ _ h => h

theorem Within.bind {p q : Parser ε α} {f g : α → Parser ε β} (h : Within p q)
    (hf : ∀ a, Within (f a) (g a)) : Within (p >>= f) (q >>= g) := by
  rintro bs ⟨b, rest⟩ hread
  obtain ⟨a, mid, ha, hb⟩ := Parser.bind_eq_ok.mp hread
  exact Parser.bind_eq_ok.mpr ⟨a, mid, h ha, hf a hb⟩

theorem Within.many {p q : Parser ε α} (h : Within p q) (n : ℕ) :
    Within (Parser.many p n) (Parser.many q n) := by
  induction n with
  | zero => exact .refl _
  | succ n ih => exact h.bind fun _ => ih.bind fun _ => .refl _

theorem Agrees.refl (p : Parser ε α) : Agrees p p id := fun bs rest a => by simp

theorem Agrees.pure (a : α) (view : α → β) :
    Agrees (Pure.pure a : Parser ε α) (Pure.pure (view a) : Parser ε' β) view := by
  intro bs rest b
  rw [Parser.pure_eq_ok]
  constructor
  · rintro ⟨rfl, rfl⟩
    exact ⟨a, rfl, rfl⟩
  · rintro ⟨_, h, rfl⟩
    obtain ⟨rfl, rfl⟩ := Parser.pure_eq_ok.mp h
    exact ⟨rfl, rfl⟩

section Bind

variable {f : α → Parser ε γ} {g : β → Parser ε' δ} {related : γ → δ → Prop} {view : α → β}

theorem Agrees.bind {p : Parser ε α} {q : Parser ε' β} (h : Agrees p q view)
    (hf : ∀ a, Selects (f a) (g (view a)) related) : Selects (p >>= f) (q >>= g) related := by
  intro bs rest d
  rw [Parser.bind_eq_ok]
  constructor
  · rintro ⟨b, mid, hb, hd⟩
    obtain ⟨a, ha, rfl⟩ := (h bs mid b).mp hb
    obtain ⟨c, hc, hrelated⟩ := (hf a mid rest d).mp hd
    exact ⟨c, Parser.bind_eq_ok.mpr ⟨a, mid, ha, hc⟩, hrelated⟩
  · rintro ⟨c, hc, hrelated⟩
    obtain ⟨a, mid, ha, hc⟩ := Parser.bind_eq_ok.mp hc
    exact ⟨view a, mid, (h bs mid _).mpr ⟨a, ha, rfl⟩, (hf a mid rest d).mpr ⟨c, hc, hrelated⟩⟩

end Bind

section Checks

variable {condition condition' : Prop} [Decidable condition] [Decidable condition']
  {e : ε} {e' : ε'}

/-- A check whose outcome matters for what follows. -/
theorem Selects.check_bind {f : Unit → Parser ε γ} {g : Unit → Parser ε' δ} {related : γ → δ → Prop}
    (hc : condition' ↔ condition) (hf : condition → Selects (f ()) (g ()) related) :
    Selects (Parser.check condition e >>= f) (Parser.check condition' e' >>= g) related := by
  intro bs rest d
  rw [Parser.bind_eq_ok]
  constructor
  · rintro ⟨_, _, hcheck, hd⟩
    obtain ⟨hcondition, rfl⟩ := Parser.check_eq_ok.mp hcheck
    obtain ⟨c, hcd, hrelated⟩ := (hf (hc.mp hcondition) _ _ _).mp hd
    exact ⟨c, Parser.bind_eq_ok.mpr ⟨(), bs, Parser.check_eq_ok.mpr ⟨hc.mp hcondition, rfl⟩, hcd⟩,
      hrelated⟩
  · rintro ⟨c, h, hrelated⟩
    obtain ⟨_, _, hcheck, hcd⟩ := Parser.bind_eq_ok.mp h
    obtain ⟨hcondition, rfl⟩ := Parser.check_eq_ok.mp hcheck
    exact ⟨(), bs, Parser.check_eq_ok.mpr ⟨hc.mpr hcondition, rfl⟩,
      (hf hcondition _ _ _).mpr ⟨c, hcd, hrelated⟩⟩

end Checks

/-- A list of items, read one after the other. -/
theorem Agrees.many {p : Parser ε α} {q : Parser ε' β} {view : α → β}
    (h : Agrees p q view) (n : ℕ) :
    Agrees (Parser.many p n) (Parser.many q n) (List.map view) := by
  induction n with
  | zero => exact Agrees.pure [] (List.map view)
  | succ n ih => exact h.bind fun a => ih.bind fun as => Agrees.pure (a :: as) (List.map view)

/-- Agreement of parsers is agreement of the decoders that use them. -/
theorem Agrees.whole {p : Parser ε α} {q : Parser ε' β} {view : α → β} (h : Agrees p q view)
    (trailing : ε) (trailing' : ε') (bs : Bytes) :
    SameOutcome (Parser.whole trailing p bs) (Parser.whole trailing' q bs) view := by
  intro b
  simp only [Parser.whole_eq_ok]
  exact h bs [] b

end Codec
