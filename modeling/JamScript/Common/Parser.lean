import JamScript.Common.LittleEndian

/-!
# Byte parsers

A parser consumes bytes from the front of a byte string and either fails or returns a value and the
bytes that are left. The relation `Reads p bs a` says that `p` consumes exactly `bs` and returns
`a`, whatever follows. It composes along the monad (`Reads.bind`), so the round trip of a record
format is assembled from the round trips of its fields.

Checks are written `ensure condition error` in plain `Except` code and `check condition error` in
parsers.
-/

namespace Codec

/-- Continue when the condition holds, fail with `e` otherwise. -/
def ensure {ε : Type} (condition : Prop) [Decidable condition] (e : ε) : Except ε Unit :=
  if condition then .ok () else .error e

@[simp]
theorem ensure_eq_ok {ε : Type} {condition : Prop} [Decidable condition] {e : ε} {u : Unit} :
    ensure condition e = .ok u ↔ condition := by
  unfold ensure
  split <;> simp_all

/-- A sequence of fallible steps succeeds exactly when each step does. -/
theorem bind_eq_ok {ε α β : Type} {x : Except ε α} {f : α → Except ε β} {b : β} :
    (x >>= f) = .ok b ↔ ∃ a, x = .ok a ∧ f a = .ok b := by
  cases x with
  | error e => simp [Bind.bind, Except.bind]
  | ok a => simp [Bind.bind, Except.bind]

/-- Converting the error does not change when a step succeeds. -/
theorem mapError_eq_ok {ε ε' α : Type} {x : Except ε α} {f : ε → ε'} {a : α} :
    x.mapError f = .ok a ↔ x = .ok a := by
  cases x <;> simp [Except.mapError]

/-- A loop of fallible steps succeeds exactly when every step does. -/
theorem forM_eq_ok {ε α : Type} {f : α → Except ε Unit} {xs : List α} {u : Unit} :
    xs.forM f = .ok u ↔ ∀ x ∈ xs, f x = .ok () := by
  induction xs with
  | nil => simp [Pure.pure, Except.pure]
  | cons x xs ih =>
    have hcons : (x :: xs).forM f = f x >>= fun _ => xs.forM f := rfl
    rw [hcons, bind_eq_ok, List.forall_mem_cons, ← ih]
    exact ⟨fun ⟨_, hx, hxs⟩ => ⟨hx, hxs⟩, fun ⟨hx, hxs⟩ => ⟨(), hx, hxs⟩⟩

theorem mapM_of_ok {ε α β : Type} {f : α → Except ε β} {g : α → β} {xs : List α}
    (h : ∀ x ∈ xs, f x = .ok (g x)) : xs.mapM f = .ok (xs.map g) := by
  induction xs with
  | nil => rfl
  | cons x xs ih =>
    rw [List.mapM_cons, h x (by simp), ih fun y hy => h y (by simp [hy])]
    rfl

/-- A parser over byte strings with errors in `ε`. -/
abbrev Parser (ε α : Type) := StateT Bytes (Except ε) α

namespace Parser

variable {ε α β : Type}

/-- Consume exactly `n` bytes, or fail with `eof` when fewer are left. -/
def take (eof : ε) (n : ℕ) : Parser ε Bytes := fun bs =>
  if n ≤ bs.length then .ok (bs.take n, bs.drop n) else .error eof

/-- Consume exactly `n` bytes as a fixed-length byte string. -/
def array (eof : ε) (n : ℕ) : Parser ε (FixedBytes n) := fun bs =>
  if h : n ≤ bs.length then .ok (⟨bs.take n, by simp [h]⟩, bs.drop n) else .error eof

/-- Continue when the condition holds, consuming nothing. -/
def check (condition : Prop) [Decidable condition] (e : ε) : Parser ε Unit := fun bs =>
  if condition then .ok ((), bs) else .error e

/-- Run a parser `n` times and collect the results in order. -/
def many (p : Parser ε α) : ℕ → Parser ε (List α)
  | 0 => pure []
  | n + 1 => do
    let a ← p
    let as ← many p n
    pure (a :: as)

/-- Run a parser on a whole byte string, failing with `trailing` when bytes are left over. -/
def whole (trailing : ε) (p : Parser ε α) (bs : Bytes) : Except ε α :=
  match p bs with
  | .error e => .error e
  | .ok (a, []) => .ok a
  | .ok (_, _ :: _) => .error trailing

/-! ### What a parser that succeeds has done -/

theorem bind_eq_ok {p : Parser ε α} {f : α → Parser ε β} {bs rest : Bytes} {b : β} :
    (p >>= f) bs = .ok (b, rest) ↔ ∃ a mid, p bs = .ok (a, mid) ∧ f a mid = .ok (b, rest) := by
  change (p bs >>= fun read => f read.1 read.2) = _ ↔ _
  rw [Codec.bind_eq_ok, Prod.exists]

theorem pure_eq_ok {a b : α} {bs rest : Bytes} :
    (pure a : Parser ε α) bs = .ok (b, rest) ↔ a = b ∧ bs = rest := by
  change Except.ok (a, bs) = .ok (b, rest) ↔ _
  rw [Except.ok.injEq, Prod.mk.injEq]

theorem check_eq_ok {condition : Prop} [Decidable condition] {e : ε} {bs rest : Bytes} {u : Unit} :
    check condition e bs = .ok (u, rest) ↔ condition ∧ bs = rest := by
  unfold check
  split <;> simp_all

theorem lift_eq_ok {x : Except ε α} {bs rest : Bytes} {a : α} :
    (liftM x : Parser ε α) bs = .ok (a, rest) ↔ x = .ok a ∧ bs = rest := by
  cases x with
  | error e => exact ⟨nofun, nofun⟩
  | ok value =>
    change Except.ok (value, bs) = .ok (a, rest) ↔ _
    rw [Except.ok.injEq, Prod.mk.injEq, Except.ok.injEq]

theorem array_eq_ok {eof : ε} {n : ℕ} {bs rest : Bytes} {a : FixedBytes n} :
    array eof n bs = .ok (a, rest) ↔ bs = a.toList ++ rest := by
  unfold array
  constructor
  · intro h
    split at h
    · cases h
      exact (List.take_append_drop n bs).symm
    · cases h
  · rintro rfl
    have hlen : a.toList.length = n := a.toList_length
    have hle : n ≤ (a.toList ++ rest).length := by simp
    rw [dif_pos hle]
    congr 2
    · exact Subtype.ext (List.take_left' hlen)
    · exact List.drop_left' hlen

/-- A repeated parser has returned as many items as asked for, each of them parsed. -/
theorem many_eq_ok {p : Parser ε α} {n : ℕ} {bs rest : Bytes} {as : List α}
    (h : many p n bs = .ok (as, rest)) :
    as.length = n ∧ ∀ a ∈ as, ∃ bs rest, p bs = .ok (a, rest) := by
  induction n generalizing bs as with
  | zero =>
    obtain ⟨rfl, -⟩ := pure_eq_ok.mp h
    exact ⟨rfl, fun _ ha => absurd ha List.not_mem_nil⟩
  | succ n ih =>
    obtain ⟨a, _, ha, h⟩ := bind_eq_ok.mp h
    obtain ⟨as, _, has, h⟩ := bind_eq_ok.mp h
    obtain ⟨rfl, rfl⟩ := pure_eq_ok.mp h
    obtain ⟨hlength, hmem⟩ := ih has
    exact ⟨by rw [List.length_cons, hlength], List.forall_mem_cons.mpr ⟨⟨_, _, ha⟩, hmem⟩⟩

theorem whole_eq_ok {trailing : ε} {p : Parser ε α} {bs : Bytes} {a : α} :
    whole trailing p bs = .ok a ↔ p bs = .ok (a, []) := by
  unfold whole
  split <;> simp_all

/-- Post-processing a result does not change what is accepted. -/
theorem whole_bind_pure (trailing : ε) (p : Parser ε α) (f : α → β) (bs : Bytes) :
    whole trailing (p >>= fun a => pure (f a)) bs = (whole trailing p bs).map f := by
  have hbind : (p >>= fun a => pure (f a)) bs = (p bs).map fun read => (f read.1, read.2) := by
    change (p bs >>= fun read => Except.ok (f read.1, read.2)) = _
    cases p bs <;> rfl
  rw [whole, hbind, whole]
  rcases p bs with error | ⟨a, rest⟩
  · rfl
  · cases rest <;> rfl

end Parser

variable {ε α β : Type}

/-- `p` consumes exactly `bs` and returns `a`, whatever follows. -/
def Reads (p : Parser ε α) (bs : Bytes) (a : α) : Prop :=
  ∀ rest, p (bs ++ rest) = .ok (a, rest)

theorem Reads.pure (a : α) : Reads (ε := ε) (Pure.pure a) [] a := fun _ => rfl

theorem Reads.bind {p : Parser ε α} {f : α → Parser ε β} {bs cs : Bytes} {a : α} {b : β}
    (hp : Reads p bs a) (hf : Reads (f a) cs b) : Reads (p >>= f) (bs ++ cs) b := by
  intro rest
  have hp' := hp (cs ++ rest)
  have hf' := hf rest
  rw [List.append_assoc]
  simp only [Bind.bind, StateT.bind, hp', Except.bind]
  exact hf'

/-- Post-processing a result consumes nothing more. -/
theorem Reads.bind_pure {p : Parser ε α} {bs : Bytes} {a : α} (f : α → β) (hp : Reads p bs a) :
    Reads (p >>= fun x => Pure.pure (f x)) bs (f a) := by
  have h : Reads (p >>= fun x => Pure.pure (f x)) (bs ++ []) (f a) := hp.bind (Reads.pure (f a))
  rwa [List.append_nil] at h

/-- A check that passes consumes nothing. -/
theorem Reads.check_bind {condition : Prop} [Decidable condition] {e : ε}
    {f : Unit → Parser ε β} {bs : Bytes} {b : β} (hc : condition) (hf : Reads (f ()) bs b) :
    Reads (Parser.check condition e >>= f) bs b := by
  have hcheck : Reads (Parser.check condition e) [] () := fun rest => if_pos hc
  exact hcheck.bind hf

theorem reads_array (eof : ε) {n : ℕ} (a : FixedBytes n) :
    Reads (Parser.array eof n) a.toList a :=
  fun _ => Parser.array_eq_ok.mpr rfl

/-- Reading a list field by field, for a format that writes one item after another. -/
theorem reads_many {p : Parser ε α} {enc : α → Bytes} (as : List α)
    (h : ∀ a ∈ as, Reads p (enc a) a) :
    Reads (Parser.many p as.length) (as.flatMap enc) as := by
  induction as with
  | nil => exact Reads.pure []
  | cons a as ih =>
    have ha : Reads p (enc a) a := h a (by simp)
    have has := ih fun b hb => h b (by simp [hb])
    rw [List.flatMap_cons, List.length_cons, Parser.many]
    exact ha.bind (has.bind_pure fun xs => a :: xs)

/-- A fallible step that succeeds consumes nothing. -/
theorem Reads.lift_bind {x : Except ε α} {a : α} {f : α → Parser ε β} {bs : Bytes} {b : β}
    (hx : x = .ok a) (hf : Reads (f a) bs b) :
    Reads ((liftM x : Parser ε α) >>= f) bs b := by
  have hlift : Reads (liftM x : Parser ε α) [] a := by
    intro rest
    rw [hx]
    rfl
  exact hlift.bind hf

/-! ### Parsers of formats with one encoding -/

/-- Whatever `p` accepts, it has consumed exactly the bytes `write` gives its result. -/
def Consumes (p : Parser ε α) (write : α → Bytes) : Prop :=
  ∀ {bs rest : Bytes} {a : α}, p bs = .ok (a, rest) → bs = write a ++ rest

theorem Consumes.many {p : Parser ε α} {write : α → Bytes} (hp : Consumes p write) (n : ℕ) :
    Consumes (Parser.many p n) fun as => as.flatMap write := by
  induction n with
  | zero =>
    intro bs rest as h
    obtain ⟨rfl, rfl⟩ := Parser.pure_eq_ok.mp h
    rfl
  | succ n ih =>
    intro bs rest as h
    obtain ⟨a, _, ha, h⟩ := Parser.bind_eq_ok.mp h
    obtain ⟨as, _, has, h⟩ := Parser.bind_eq_ok.mp h
    obtain ⟨rfl, rfl⟩ := Parser.pure_eq_ok.mp h
    rw [hp ha, ih has]
    simp only [List.flatMap_cons, List.append_assoc]

/-! ### Readers that keep an offset -/

/-- A reader of a byte string from an offset on; it returns the next offset, or `none` when it
fails. -/
abbrev CursorReader (α : Type) := Bytes → ℕ → Option (α × ℕ)

/-- The reader reads at an offset what the parser reads from the bytes from the offset on. -/
structure Follows (read : CursorReader α) (p : Parser ε α) : Prop where
  sound : ∀ {input : Bytes} {offset next : ℕ} {a : α}, offset ≤ input.length →
    read input offset = some (a, next) →
      next ≤ input.length ∧ p (input.drop offset) = .ok (a, input.drop next)
  complete : ∀ {input rest : Bytes} {offset : ℕ} {a : α}, offset ≤ input.length →
    p (input.drop offset) = .ok (a, rest) →
      ∃ next, read input offset = some (a, next) ∧ next ≤ input.length ∧ rest = input.drop next

/-- A format that a parser reads decodes as a whole byte string. -/
theorem Reads.whole {p : Parser ε α} {bs : Bytes} {a : α} (trailing : ε) (h : Reads p bs a) :
    Parser.whole trailing p bs = .ok a := by
  have h' := h []
  rw [List.append_nil] at h'
  rw [Parser.whole, h']

end Codec
