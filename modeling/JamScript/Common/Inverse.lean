import JamScript.Common.Fields

/-!
# Decoders as inverses of encoders that can fail

`Inverts p write` says that `p` reads what `write` writes, whatever follows it, and accepts nothing
else. For an encoder that never fails this is `Recognizes`; here the values without an encoding are
those on which the encoder fails. The rules follow the shapes of an encoding: a kind of value, a
list, a value behind its size.
-/

namespace Codec

variable {ε ε' α β : Type} {p : Parser ε α} {write : α → Except ε' Bytes}

theorem pure_eq_ok {a b : α} : (Pure.pure a : Except ε α) = .ok b ↔ a = b :=
  Except.ok.injEq a b ▸ Iff.rfl

/-- `p` reads what `write` writes, and nothing else. -/
def Inverts (p : Parser ε α) (write : α → Except ε' Bytes) : Prop :=
  ∀ bs rest a, p bs = .ok (a, rest) ↔ ∃ written, write a = .ok written ∧ bs = written ++ rest

theorem Inverts.reads (h : Inverts p write) {a : α} {written : Bytes}
    (hwritten : write a = .ok written) : Reads p written a :=
  fun rest => (h _ rest a).mpr ⟨written, hwritten, rfl⟩

theorem Inverts.whole_eq_ok (h : Inverts p write) {trailing : ε} {bs : Bytes} {a : α} :
    Parser.whole trailing p bs = .ok a ↔ write a = .ok bs := by
  rw [Parser.whole_eq_ok, h]
  simp

/-- `p` reads what `write` writes for the values in `valid`, and nothing else. -/
structure InvertsOn (p : Parser ε α) (valid : α → Prop) (write : α → Except ε' Bytes) : Prop where
  eq_ok : ∀ {bs rest : Bytes} {a : α}, p bs = .ok (a, rest) ↔
    valid a ∧ ∃ written, write a = .ok written ∧ bs = written ++ rest

/-- Items that are read one after the other are items that are written one after the other. -/
theorem InvertsOn.many_eq_ok {valid : α → Prop} (h : InvertsOn p valid write) {n : ℕ}
    {bs rest : Bytes} {as : List α} : Parser.many p n bs = .ok (as, rest) ↔ as.length = n ∧
    (∀ a ∈ as, valid a) ∧
      ∃ written, as.mapM write = .ok written ∧ bs = written.flatten ++ rest := by
  induction n generalizing bs rest as with
  | zero =>
    rw [Parser.many, Parser.pure_eq_ok]
    constructor
    · rintro ⟨rfl, rfl⟩
      exact ⟨rfl, List.forall_mem_nil _, [], rfl, rfl⟩
    · rintro ⟨hlength, -, written, hwritten, rfl⟩
      obtain rfl := List.length_eq_zero_iff.mp hlength
      cases hwritten
      exact ⟨rfl, rfl⟩
  | succ n ih =>
    simp only [Parser.many, Parser.bind_eq_ok, Parser.pure_eq_ok, ih, h.eq_ok]
    constructor
    · rintro ⟨a, _, ⟨ha, head, hhead, rfl⟩, others, _, ⟨hlength, hothers, tail, htail, rfl⟩, rfl,
        rfl⟩
      refine ⟨congrArg (· + 1) hlength, List.forall_mem_cons.mpr ⟨ha, hothers⟩,
        head :: tail, ?_, by simp⟩
      rw [List.mapM_cons, hhead, htail]
      rfl
    · rintro ⟨hlength, hvalid, written, hwritten, rfl⟩
      obtain ⟨a, others, rfl⟩ := List.exists_cons_of_length_eq_add_one hlength
      rw [List.mapM_cons] at hwritten
      obtain ⟨head, hhead, hwritten⟩ := bind_eq_ok.mp hwritten
      obtain ⟨tail, htail, hwritten⟩ := bind_eq_ok.mp hwritten
      cases hwritten
      obtain ⟨ha, hothers⟩ := List.forall_mem_cons.mp hvalid
      exact ⟨a, tail.flatten ++ rest, ⟨ha, head, hhead, by simp⟩, others, rest,
        ⟨Nat.succ.inj hlength, hothers, tail, htail, rfl⟩, rfl, rfl⟩

theorem Inverts.many_eq_ok (h : Inverts p write) {n : ℕ} {bs rest : Bytes} {as : List α} :
    Parser.many p n bs = .ok (as, rest) ↔
      as.length = n ∧ ∃ written, as.mapM write = .ok written ∧ bs = written.flatten ++ rest := by
  have hon : InvertsOn p (fun _ => True) write := ⟨fun {bs rest a} => by rw [h bs rest a, true_and]⟩
  rw [hon.many_eq_ok]
  simp only [implies_true, true_and]

/-- A kind of value that is read and written through what it holds. -/
theorem Inverts.case {view : α → β} {project : β → Except ε' α}
    (hproject : ∀ {b a}, project b = .ok a ↔ b = view a) (h : Inverts p write) :
    Inverts (p >>= fun a => Pure.pure (view a)) fun b => project b >>= write := by
  intro bs rest b
  simp only [Parser.bind_eq_ok, Parser.pure_eq_ok, bind_eq_ok]
  constructor
  · rintro ⟨a, _, ha, rfl, rfl⟩
    obtain ⟨written, hwritten, rfl⟩ := (h _ _ _).mp ha
    exact ⟨written, ⟨a, hproject.mpr rfl, hwritten⟩, rfl⟩
  · rintro ⟨written, ⟨a, ha, hwritten⟩, rfl⟩
    exact ⟨a, rest, (h _ _ _).mpr ⟨written, hwritten, rfl⟩, (hproject.mp ha).symm, rfl⟩

/-- `q n` reads the values of size `n` that `write` writes. -/
def InvertsSized (q : ℕ → Parser ε α) (write : α → Except ε' Bytes) (size : α → ℕ) : Prop :=
  ∀ n bs rest a, q n bs = .ok (a, rest) ↔
    size a = n ∧ ∃ written, write a = .ok written ∧ bs = written ++ rest

theorem Inverts.invertsSized_many (h : Inverts p write) :
    InvertsSized (Parser.many p)
      (fun as => as.mapM write >>= fun written => Pure.pure written.flatten)
      List.length := by
  intro n bs rest as
  rw [h.many_eq_ok]
  refine and_congr_right fun _ => ⟨?_, ?_⟩
  · rintro ⟨written, hwritten, rfl⟩
    exact ⟨written.flatten, bind_eq_ok.mpr ⟨written, hwritten, rfl⟩, rfl⟩
  · rintro ⟨_, hwritten, rfl⟩
    obtain ⟨written, hitems, hflatten⟩ := bind_eq_ok.mp hwritten
    cases hflatten
    exact ⟨written, hitems, rfl⟩

theorem invertsSized_take (eof : ε) :
    InvertsSized (Parser.take eof) (fun bs => (.ok bs : Except ε' Bytes)) List.length := by
  intro n bs rest value
  rw [Parser.take_eq_ok]
  simp

variable {q : ℕ → Parser ε α} {size : α → ℕ}

/-- A size that both sides know. -/
theorem InvertsSized.fixed (h : InvertsSized q write size) (n : ℕ) (e : ε') :
    Inverts (q n) fun a => ensure (size a = n) e >>= fun _ => write a := by
  intro bs rest a
  rw [h]
  simp only [bind_eq_ok, ensure_eq_ok, exists_const]
  constructor
  · rintro ⟨hsize, written, hwritten, rfl⟩
    exact ⟨written, ⟨hsize, hwritten⟩, rfl⟩
  · rintro ⟨written, ⟨hsize, hwritten⟩, rfl⟩
    exact ⟨hsize, written, hwritten, rfl⟩

/-- A size that is written in front. -/
theorem InvertsSized.behind {r : Parser ε ℕ} {writeSize : ℕ → Except ε' Bytes}
    (h : InvertsSized q write size) (hr : Inverts r writeSize) :
    Inverts (r >>= q) fun a =>
      writeSize (size a) >>= fun length => write a >>= fun written => Pure.pure
        (length ++ written) := by
  intro bs rest a
  simp only [Parser.bind_eq_ok, bind_eq_ok, pure_eq_ok]
  constructor
  · rintro ⟨n, mid, hn, ha⟩
    obtain ⟨length, hlength, rfl⟩ := (hr _ _ _).mp hn
    obtain ⟨rfl, written, hwritten, rfl⟩ := (h _ _ _ _).mp ha
    exact ⟨_, ⟨length, hlength, written, hwritten, rfl⟩, (List.append_assoc _ _ _).symm⟩
  · rintro ⟨_, ⟨length, hlength, written, hwritten, rfl⟩, rfl⟩
    refine ⟨size a, written ++ rest, (hr _ _ _).mpr ⟨length, hlength, List.append_assoc _ _ _⟩, ?_⟩
    exact (h _ _ _ _).mpr ⟨rfl, written, hwritten, rfl⟩

end Codec
