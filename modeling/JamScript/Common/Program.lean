import Mathlib

/-!
# Programs over a signature of operations

Code that reaches its surroundings only through a fixed interface is a tree: it either returns, or
calls one operation of the interface and continues with the answer. A handler gives the operations
their meaning on a state type, and `run` executes a program under a handler. The same program can be
run under several handlers, so what two implementations of an interface have in common is stated
once (`run_simulates`) for every client.

## Rules

* `run_preserves` carries an invariant of the handler through every program.
* `trace_forall` carries a property of single answers to the whole history of a run.
* `Calls` bounds the operations a program can perform; `Calls.run_preserves` and
`Calls.trace_forall` carry what these operations preserve.
* `run_simulates` and `trace_simulates` relate two runs whose handlers answer alike on related
states, and `simulates_while` two runs whose handlers do so under a condition on what is left of the
run.
* `Related.run` relates two clients that may see different answers, up to a relation on answers.
* `SameOutcome` relates fallible computations, through sequencing and loops.
* `foldlM_invariant` and `foldlM_ok_iff` are the rules for fallible loops, and `FailsIn` bounds the
  errors a fallible computation can end with.
* `Forwards` says that a program hands on the errors it is answered with.
* `SameRun` compares programs by all they do, and `SameRun.bind` past a common beginning.
* `exec_bind` and its companions execute fallible programs with a private memory symbolically, and
  `wp_bind` and its companions do so against a postcondition.
-/

namespace Effects

/-- The operations of an interface, each with the type of its answer. -/
structure Signature where
  Op : Type
  Answer : Op → Type

/-- A client of the interface `S` that returns an `α`. -/
inductive Program (S : Signature) (α : Type) where
  | pure (a : α)
  | call (op : S.Op) (k : S.Answer op → Program S α)

/-- A meaning for the operations of `S` on states in `σ`. -/
abbrev Handler (S : Signature) (σ : Type) := (op : S.Op) → σ → S.Answer op × σ

/-- One operation of a run together with the answer it received. -/
abbrev Event (S : Signature) := (op : S.Op) × S.Answer op

namespace Program

variable {S : Signature} {α β γ σ τ : Type}

/-- Sequential composition. -/
def bind : Program S α → (α → Program S β) → Program S β
  | .pure a, f => f a
  | .call op k, f => .call op fun answer => (k answer).bind f

instance : Monad (Program S) where
  pure := .pure
  bind := bind

@[simp]
theorem pure_eq (a : α) : (Pure.pure a : Program S α) = .pure a := rfl

@[simp]
theorem pure_bind_eq (a : α) (f : α → Program S β) : (Program.pure a >>= f) = f a := rfl

@[simp]
theorem call_bind_eq (op : S.Op) (k : S.Answer op → Program S α) (f : α → Program S β) :
    (Program.call op k >>= f) = .call op fun answer => k answer >>= f := rfl

theorem bind_assoc_eq (p : Program S α) (f : α → Program S β) (g : β → Program S γ) :
    (p >>= f) >>= g = p >>= fun a => f a >>= g := by
  induction p with
  | pure a => rfl
  | call op k ih =>
    simp only [call_bind_eq]
    congr 1
    funext answer
    exact ih answer

theorem id_map_eq (p : Program S α) : id <$> p = p := by
  induction p with
  | pure a => rfl
  | call op k ih => exact congrArg (Program.call op) (funext ih)

instance : LawfulMonad (Program S) :=
  LawfulMonad.mk' (Program S) id_map_eq (fun _ _ => rfl) bind_assoc_eq

/-- Execute a program under a handler. -/
def run (h : Handler S σ) : Program S α → σ → α × σ
  | .pure a, s => (a, s)
  | .call op k, s => (k (h op s).1).run h (h op s).2

/-- The operations a run performs, in order, with their answers. -/
def trace (h : Handler S σ) : Program S α → σ → List (Event S)
  | .pure _, _ => []
  | .call op k, s => ⟨op, (h op s).1⟩ :: (k (h op s).1).trace h (h op s).2

@[simp]
theorem run_pure (h : Handler S σ) (a : α) (s : σ) : (Program.pure a : Program S α).run
    h s = (a, s) :=
  rfl

@[simp]
theorem run_call (h : Handler S σ) (op : S.Op) (k : S.Answer op → Program S α) (s : σ) :
    (Program.call op k).run h s = (k (h op s).1).run h (h op s).2 := rfl

theorem run_bind (h : Handler S σ) (p : Program S α) (f : α → Program S β) (s : σ) :
    (p >>= f).run h s = (f (p.run h s).1).run h (p.run h s).2 := by
  induction p generalizing s with
  | pure a => rfl
  | call op k ih => exact ih _ _

theorem trace_bind (h : Handler S σ) (p : Program S α) (f : α → Program S β) (s : σ) :
    (p >>= f).trace h s = p.trace h s ++ (f (p.run h s).1).trace h (p.run h s).2 := by
  induction p generalizing s with
  | pure a => rfl
  | call op k ih =>
    rw [call_bind_eq, trace, trace, ih, List.cons_append, run_call]

/-- An invariant of every operation is an invariant of every run. -/
theorem run_preserves {h : Handler S σ} {I : σ → Prop} (step : ∀ op s, I s → I (h op s).2)
    (p : Program S α) {s : σ} (hs : I s) : I (p.run h s).2 := by
  induction p generalizing s with
  | pure a => exact hs
  | call op k ih => exact ih _ (step op s hs)

/-- A mark that the handler sets exactly at certain events stands at the end of a run if it stood at
the beginning or one of the events occurred. -/
theorem run_marks {h : Handler S σ} (mark : σ → Prop) (E : Event S → Prop)
    (step : ∀ op s, mark (h op s).2 ↔ mark s ∨ E ⟨op, (h op s).1⟩) (p : Program S α) (s : σ) :
    mark (p.run h s).2 ↔ mark s ∨ ∃ event ∈ p.trace h s, E event := by
  induction p generalizing s with
  | pure a => simp [trace]
  | call op k ih =>
    rw [run_call, ih, step, or_assoc]
    simp only [trace, List.exists_mem_cons_iff]

/-- A property of the answers of every operation, under an invariant, holds along every run. -/
theorem trace_forall {h : Handler S σ} {I : σ → Prop} {P : Event S → Prop}
    (step : ∀ op s, I s → I (h op s).2) (answers : ∀ op s, I s → P ⟨op, (h op s).1⟩)
    (p : Program S α) {s : σ} (hs : I s) : ∀ e ∈ p.trace h s, P e := by
  induction p generalizing s with
  | pure a => simp [trace]
  | call op k ih =>
    intro e he
    rw [trace, List.mem_cons] at he
    rcases he with rfl | he
    · exact answers op s hs
    · exact ih _ (step op s hs) e he

/-- Every operation the program can perform, whatever it is answered, satisfies `P`. -/
inductive Calls (P : S.Op → Prop) : Program S α → Prop where
  | pure (a : α) : Calls P (.pure a)
  | call {op : S.Op} {k : S.Answer op → Program S α} (hop : P op)
      (h : ∀ answer, Calls P (k answer)) : Calls P (.call op k)

namespace Calls

variable {P Q : S.Op → Prop}

theorem mono {p : Program S α} (hp : Calls P p) (hPQ : ∀ op, P op → Q op) : Calls Q p := by
  induction hp with
  | pure a => exact .pure a
  | call hop _ ih => exact .call (hPQ _ hop) ih

theorem bind {p : Program S α} {f : α → Program S β} (hp : Calls P p) (hf : ∀ a, Calls P (f a)) :
    Calls P (p >>= f) := by
  induction hp with
  | pure a => exact hf a
  | call hop _ ih => exact .call hop ih

/-- An invariant of the operations a program can perform is an invariant of its runs. -/
theorem run_preserves {h : Handler S σ} {I : σ → Prop} (step : ∀ op s, P op → I s → I (h op s).2)
    {p : Program S α} (hp : Calls P p) {s : σ} (hs : I s) : I (p.run h s).2 := by
  induction hp generalizing s with
  | pure a => exact hs
  | call hop _ ih => exact ih _ (step _ s hop hs)

theorem trace_forall {h : Handler S σ} {p : Program S α} (hp : Calls P p) (s : σ) :
    ∀ e ∈ p.trace h s, P e.1 := by
  induction hp generalizing s with
  | pure a => simp [trace]
  | call hop _ ih =>
    intro e he
    rw [trace, List.mem_cons] at he
    rcases he with rfl | he
    · exact hop
    · exact ih _ _ e he

end Calls

/-- Handlers that answer alike on related states, as long as `P` holds of what is left of the two
runs, give runs that perform the same operations with the same answers and end alike on related
states. -/
theorem simulates_while {h : Handler S σ} {g : Handler S τ} {R : σ → τ → Prop}
    {P : Program S α → σ → τ → Prop}
    (step : ∀ op k s t, R s t → P (.call op k) s t →
      (h op s).1 = (g op t).1 ∧ R (h op s).2 (g op t).2)
    (next : ∀ op k s t, R s t → P (.call op k) s t → P (k (h op s).1) (h op s).2 (g op t).2)
    (p : Program S α) {s : σ} {t : τ} (hst : R s t) (hp : P p s t) :
    ((p.run h s).1 = (p.run g t).1 ∧ R (p.run h s).2 (p.run g t).2) ∧
    p.trace h s = p.trace g t := by
  induction p generalizing s t with
  | pure a => exact ⟨⟨rfl, hst⟩, rfl⟩
  | call op k ih =>
    obtain ⟨hanswer, hnext⟩ := step op k s t hst hp
    obtain ⟨hrun, htrace⟩ := ih _ hnext (next op k s t hst hp)
    rw [run_call, run_call, trace, trace, ← hanswer, htrace]
    exact ⟨hrun, rfl⟩

/-- Handlers that answer alike on related states give runs that end alike on related states. -/
theorem run_simulates {h : Handler S σ} {g : Handler S τ} {R : σ → τ → Prop}
    (step : ∀ op s t, R s t → (h op s).1 = (g op t).1 ∧ R (h op s).2 (g op t).2)
    (p : Program S α) {s : σ} {t : τ} (hst : R s t) :
    (p.run h s).1 = (p.run g t).1 ∧ R (p.run h s).2 (p.run g t).2 :=
  (simulates_while (P := fun _ _ _ => True) (fun op _ s t hst _ => step op s t hst)
    (fun _ _ _ _ _ _ => trivial) p hst trivial).1

/-- Under the same conditions the two runs perform the same operations with the same answers. -/
theorem trace_simulates {h : Handler S σ} {g : Handler S τ} {R : σ → τ → Prop}
    (step : ∀ op s t, R s t → (h op s).1 = (g op t).1 ∧ R (h op s).2 (g op t).2)
    (p : Program S α) {s : σ} {t : τ} (hst : R s t) : p.trace h s = p.trace g t :=
  (simulates_while (P := fun _ _ _ => True) (fun op _ s t hst _ => step op s t hst)
    (fun _ _ _ _ _ _ => trivial) p hst trivial).2

/-- Two clients that make the same calls as long as their answers are related by `A`, until one of
them has reached a program that `stuck` describes. -/
inductive Related (A : (op : S.Op) → S.Answer op → S.Answer op → Prop)
    (stuck : Program S α → Prop) : Program S α → Program S α → Prop where
  | pure (a : α) : Related A stuck (.pure a) (.pure a)
  | call (op : S.Op) {k l : S.Answer op → Program S α}
      (h : ∀ a b, A op a b → Related A stuck (k a) (l b)) :
      Related A stuck (.call op k) (.call op l)
  | left {p : Program S α} (q : Program S α) (h : stuck p) : Related A stuck p q
  | right (p : Program S α) {q : Program S α} (h : stuck q) : Related A stuck p q

/-- Related clients end alike on handlers that give related answers. What is known about the two
runs besides, `P` and `Q`, holds along them and rules out that one gets stuck. -/
theorem Related.run {A : (op : S.Op) → S.Answer op → S.Answer op → Prop}
    {stuck : Program S α → Prop} {h : Handler S σ} {g : Handler S τ} {R : σ → τ → Prop}
    {P : Program S α → σ → Prop} {Q : Program S α → τ → Prop}
    (step : ∀ op k l s t, R s t → P (.call op k) s → Q (.call op l) t →
      A op (h op s).1 (g op t).1 ∧ R (h op s).2 (g op t).2)
    (nextP : ∀ op k s, P (.call op k) s → P (k (h op s).1) (h op s).2)
    (nextQ : ∀ op k t, Q (.call op k) t → Q (k (g op t).1) (g op t).2)
    (freeP : ∀ p s, P p s → ¬ stuck p) (freeQ : ∀ q t, Q q t → ¬ stuck q)
    {p q : Program S α} (hpq : Related A stuck p q) {s : σ} {t : τ} (hst : R s t) (hp : P p s)
    (hq : Q q t) : (p.run h s).1 = (q.run g t).1 ∧ R (p.run h s).2 (q.run g t).2 := by
  induction hpq generalizing s t with
  | pure a => exact ⟨rfl, hst⟩
  | call op hkl ih =>
    obtain ⟨hanswer, hnext⟩ := step op _ _ s t hst hp hq
    exact ih _ _ hanswer hnext (nextP op _ s hp) (nextQ op _ t hq)
  | left q hstuck => exact absurd hstuck (freeP _ s hp)
  | right p hstuck => exact absurd hstuck (freeQ _ t hq)

end Program

/-! ## Related outcomes of fallible computations -/

/-- Both computations fail with the same error, or both succeed with related values. -/
inductive SameOutcome {ε α β : Type} (R : α → β → Prop) : Except ε α → Except ε β → Prop where
  | error (e : ε) : SameOutcome R (.error e) (.error e)
  | ok {a : α} {b : β} (h : R a b) : SameOutcome R (.ok a) (.ok b)

namespace SameOutcome

variable {ε α β γ δ ι : Type} {R : α → β → Prop} {T : γ → δ → Prop}

theorem bind {x : Except ε α} {y : Except ε β} {f : α → Except ε γ} {g : β → Except ε δ}
    (hxy : SameOutcome R x y) (hfg : ∀ a b, R a b → SameOutcome T (f a) (g b)) :
    SameOutcome T (x >>= f) (y >>= g) := by
  cases hxy with
  | error e => exact .error e
  | ok h => exact hfg _ _ h

/-- Post-processing the result of one side. -/
theorem bind_left {x : Except ε α} {y : Except ε β} {T : γ → β → Prop} (f : α → γ)
    (h : SameOutcome R x y) (hf : ∀ a b, R a b → T (f a) b) :
    SameOutcome T (x >>= fun a => .ok (f a)) y := by
  cases h with
  | error e => exact .error e
  | ok h => exact .ok (hf _ _ h)

/-- Loops whose bodies have the same outcome have the same outcome. -/
theorem foldlM {f : α → ι → Except ε α} {g : β → ι → Except ε β}
    (step : ∀ i a b, R a b → SameOutcome R (f a i) (g b i)) (is : List ι) {a : α} {b : β}
    (hab : R a b) : SameOutcome R (is.foldlM f a) (is.foldlM g b) := by
  induction is generalizing a b with
  | nil => exact .ok hab
  | cons i is ih =>
    rw [List.foldlM_cons, List.foldlM_cons]
    exact (step i a b hab).bind fun _ _ h => ih h

/-- A success on the left is matched by a related success on the right. -/
theorem of_ok {x : Except ε α} {y : Except ε β} {a : α} (h : SameOutcome R x y) (hx : x = .ok a) :
    ∃ b, y = .ok b ∧ R a b := by
  subst hx
  cases h with
  | ok h => exact ⟨_, rfl, h⟩

/-- A success on the right is matched by a related success on the left. -/
theorem of_ok_right {x : Except ε α} {y : Except ε β} {b : β} (h : SameOutcome R x y)
    (hy : y = .ok b) : ∃ a, x = .ok a ∧ R a b := by
  subst hy
  cases h with
  | ok h => exact ⟨_, rfl, h⟩

end SameOutcome

/-- The rule for loops that succeed: an invariant over the items done so far. -/
theorem foldlM_invariant {ε α ι : Type} {f : α → ι → Except ε α} {I : List ι → α → Prop}
    (step : ∀ done i a b, I done a → f a i = .ok b → I (done ++ [i]) b) (is : List ι) {a b : α}
    (ha : I [] a) (hloop : is.foldlM f a = .ok b) : I is b := by
  -- generalise over the items already done
  have general : ∀ (is done : List ι) (a : α), I done a → is.foldlM f a = .ok b →
      I (done ++ is) b := by
    intro is
    induction is with
    | nil =>
      intro done a hI hloop
      cases hloop
      rwa [List.append_nil]
    | cons i is ih =>
      intro done a hI hloop
      rw [List.foldlM_cons] at hloop
      cases hi : f a i with
      | error e =>
        rw [hi] at hloop
        cases hloop
      | ok next =>
        rw [hi] at hloop
        have hrest := ih (done ++ [i]) next (step done i a next hI hi) hloop
        rwa [List.append_assoc, List.singleton_append] at hrest
  exact general is [] a ha hloop

/-- The rule for loops whose items decide on their own whether they succeed: the loop succeeds
exactly when every item does. -/
theorem foldlM_ok_iff {ε α ι : Type} {f : α → ι → Except ε α} {I : α → Prop} {C : ι → Prop}
    (succeeds : ∀ a i, I a → C i → ∃ b, f a i = .ok b ∧ I b)
    (fails : ∀ a i, I a → ¬ C i → ∃ e, f a i = .error e) (is : List ι) {a : α} (ha : I a) :
    (∃ b, is.foldlM f a = .ok b) ↔ ∀ i ∈ is, C i := by
  induction is generalizing a with
  | nil => exact ⟨fun _ _ hi => absurd hi List.not_mem_nil, fun _ => ⟨a, rfl⟩⟩
  | cons i is ih =>
    rw [List.forall_mem_cons, List.foldlM_cons]
    by_cases hi : C i
    · obtain ⟨b, hb, hI⟩ := succeeds a i ha hi
      rw [hb]
      exact (ih hI).trans (and_iff_right hi).symm
    · obtain ⟨e, he⟩ := fails a i ha hi
      rw [he]
      exact iff_of_false nofun fun h => hi h.1

/-! ## Errors a computation can fail with -/

/-- The computation fails with no errors but those of `E`. -/
def FailsIn {ε α : Type} (E : ε → Prop) (x : Except ε α) : Prop := ∀ e, x = .error e → E e

namespace FailsIn

variable {ε ε' α β ι : Type} {E : ε → Prop}

theorem ok (a : α) : FailsIn E (.ok a) := nofun

theorem error {e : ε} (he : E e) : FailsIn E (.error e : Except ε α) := by
  rintro _ ⟨⟩
  exact he

theorem mapError {f : ε' → ε} (hf : ∀ e, E (f e)) (x : Except ε' α) : FailsIn E (x.mapError f) := by
  cases x with
  | ok a => exact ok a
  | error e => exact error (hf e)

theorem bind {x : Except ε α} {f : α → Except ε β} (hx : FailsIn E x)
    (hf : ∀ a, x = .ok a → FailsIn E (f a)) : FailsIn E (x >>= f) := by
  cases x with
  | ok a => exact hf a rfl
  | error e => exact error (hx e rfl)

theorem foldlM {f : α → ι → Except ε α} (hf : ∀ a i, FailsIn E (f a i)) (is : List ι) (a : α) :
    FailsIn E (is.foldlM f a) := by
  induction is generalizing a with
  | nil => exact ok a
  | cons i is ih =>
    rw [List.foldlM_cons]
    exact (hf a i).bind fun b _ => ih b

end FailsIn

/-! ## Fallible programs with a private memory

A client may fail with an error and may keep a memory of its own between calls. The memory survives
an error, as memory does in a running process.
-/

/-- A client that may fail with `ε` and works on a private memory `M`. -/
abbrev Fallible (S : Signature) (ε M α : Type) := ExceptT ε (StateT M (Program S)) α

namespace Fallible

variable {S : Signature} {ε M α β σ : Type}

/-- Execute a fallible program on a memory and a handler state. -/
def exec (h : Handler S σ) (p : Fallible S ε M α) (m : M) (s : σ) : (Except ε α × M) × σ :=
  Program.run h (p m) s

/-- Call an operation whose answer may be an error, and propagate the error. -/
def ask (op : S.Op) (answer : S.Answer op → Except ε α) : Fallible S ε M α :=
  fun m => .call op fun a => .pure (answer a, m)

/-- Call an operation whose answer is not an error. -/
def tell (op : S.Op) (answer : S.Answer op → α) : Fallible S ε M α :=
  fun m => .call op fun a => .pure (.ok (answer a), m)

/-- Update the private memory and return a value computed from it. -/
def remember (f : M → α × M) : Fallible S ε M α :=
  fun m => .pure (.ok (f m).1, (f m).2)

/-- The outcome of a computation that calls no operation. -/
def ofExcept (x : Except ε α) : Fallible S ε M α := fun m => .pure (x, m)

/-- Run the program, then hand its outcome, value or error, to a continuation. -/
def attempt (p : Fallible S ε M α) (f : Except ε α → Fallible S ε M β) : Fallible S ε M β :=
  fun m => p m >>= fun r => f r.1 r.2

@[simp]
theorem exec_pure (h : Handler S σ) (a : α) (m : M) (s : σ) :
    exec h (Pure.pure a : Fallible S ε M α) m s = ((.ok a, m), s) := rfl

@[simp]
theorem exec_throw (h : Handler S σ) (e : ε) (m : M) (s : σ) :
    exec h (throw e : Fallible S ε M α) m s = ((.error e, m), s) := rfl

@[simp]
theorem exec_ask (h : Handler S σ) (op : S.Op) (f : S.Answer op → Except ε α) (m : M) (s : σ) :
    exec h (ask op f : Fallible S ε M α) m s = ((f (h op s).1, m), (h op s).2) := rfl

@[simp]
theorem exec_tell (h : Handler S σ) (op : S.Op) (f : S.Answer op → α) (m : M) (s : σ) :
    exec h (tell op f : Fallible S ε M α) m s = ((.ok (f (h op s).1), m), (h op s).2) := rfl

@[simp]
theorem exec_ofExcept (h : Handler S σ) (x : Except ε α) (m : M) (s : σ) :
    exec h (ofExcept x : Fallible S ε M α) m s = ((x, m), s) := rfl

theorem exec_attempt (h : Handler S σ) (p : Fallible S ε M α) (f : Except ε α → Fallible S ε M β)
    (m : M) (s : σ) :
    exec h (attempt p f) m s =
      exec h (f (exec h p m s).1.1) (exec h p m s).1.2 (exec h p m s).2 :=
  Program.run_bind h (p m) (fun r => f r.1 r.2) s

/-- A sequence stops at the first error, keeping the memory and the state reached there. -/
theorem exec_bind (h : Handler S σ) (p : Fallible S ε M α) (f : α → Fallible S ε M β) (m : M)
    (s : σ) :
    exec h (p >>= f) m s =
      match (exec h p m s).1.1 with
      | .ok a => exec h (f a) (exec h p m s).1.2 (exec h p m s).2
      | .error e => ((.error e, (exec h p m s).1.2), (exec h p m s).2) := by
  have hbind : exec h (p >>= f) m s
      = exec h (attempt p fun r => match r with
          | .ok a => f a
          | .error e => throw e) m s := rfl
  rw [hbind, exec_attempt]
  cases (exec h p m s).1.1 <;> rfl

/-- The operations a fallible program performs, in order, with their answers. -/
def history (h : Handler S σ) (p : Fallible S ε M α) (m : M) (s : σ) : List (Event S) :=
  Program.trace h (p m) s

@[simp]
theorem history_throw (h : Handler S σ) (e : ε) (m : M) (s : σ) :
    history h (throw e : Fallible S ε M α) m s = [] := rfl

@[simp]
theorem history_ask (h : Handler S σ) (op : S.Op) (f : S.Answer op → Except ε α) (m : M) (s : σ) :
    history h (ask op f : Fallible S ε M α) m s = [⟨op, (h op s).1⟩] := rfl

@[simp]
theorem history_tell (h : Handler S σ) (op : S.Op) (f : S.Answer op → α) (m : M) (s : σ) :
    history h (tell op f : Fallible S ε M α) m s = [⟨op, (h op s).1⟩] := rfl

theorem history_attempt (h : Handler S σ) (p : Fallible S ε M α)
    (f : Except ε α → Fallible S ε M β) (m : M) (s : σ) :
    history h (attempt p f) m s =
      history h p m s ++ history h (f (exec h p m s).1.1) (exec h p m s).1.2 (exec h p m s).2 :=
  Program.trace_bind h (p m) (fun r => f r.1 r.2) s

/-- The history of a sequence stops where the sequence does. -/
theorem history_bind (h : Handler S σ) (p : Fallible S ε M α) (f : α → Fallible S ε M β) (m : M)
    (s : σ) :
    history h (p >>= f) m s = history h p m s ++
      match (exec h p m s).1.1 with
      | .ok a => history h (f a) (exec h p m s).1.2 (exec h p m s).2
      | .error _ => [] := by
  have hbind : history h (p >>= f) m s
      = history h (attempt p fun r => match r with
          | .ok a => f a
          | .error e => throw e) m s := rfl
  rw [hbind, history_attempt]
  cases (exec h p m s).1.1 <;> rfl

theorem mem_history_bind_left {h : Handler S σ} {p : Fallible S ε M α} {f : α → Fallible S ε M β}
    {m : M} {s : σ} {event : Event S} (hmem : event ∈ history h p m s) :
    event ∈ history h (p >>= f) m s := by
  rw [history_bind]
  exact List.mem_append_left _ hmem

theorem mem_history_bind_right {h : Handler S σ} {p : Fallible S ε M α} {f : α → Fallible S ε M β}
    {m m' : M} {s s' : σ} {a : α} {event : Event S} (hp : exec h p m s = ((.ok a, m'), s'))
    (hmem : event ∈ history h (f a) m' s') : event ∈ history h (p >>= f) m s := by
  rw [history_bind, hp]
  exact List.mem_append_right _ hmem

/-! ### Programs that cannot be told apart -/

/-- The two programs perform the same operations, are answered alike and end alike. -/
structure SameRun (h : Handler S σ) (p q : Fallible S ε M α) (m : M) (s : σ) : Prop where
  exec : exec h p m s = exec h q m s
  history : history h p m s = history h q m s

namespace SameRun

variable {h : Handler S σ} {m : M} {s : σ}

theorem refl (p : Fallible S ε M α) : SameRun h p p m s := ⟨rfl, rfl⟩

theorem of_eq {p q : Fallible S ε M α} (hpq : p = q) : SameRun h p q m s := hpq ▸ refl p

/-- Programs that start alike are compared where the common part has ended. -/
theorem bind {p : Fallible S ε M α} {f g : α → Fallible S ε M β}
    (hfg : ∀ a, (Fallible.exec h p m s).1.1 = .ok a →
      SameRun h (f a) (g a) (Fallible.exec h p m s).1.2 (Fallible.exec h p m s).2) :
    SameRun h (p >>= f) (p >>= g) m s := by
  cases hp : (Fallible.exec h p m s).1.1 with
  | error e =>
    refine ⟨?_, ?_⟩
    · rw [exec_bind, exec_bind, hp]
    · rw [history_bind, history_bind, hp]
  | ok a =>
    obtain ⟨hexec, hhistory⟩ := hfg a hp
    refine ⟨?_, ?_⟩
    · rw [exec_bind, exec_bind, hp]
      exact hexec
    · rw [history_bind, history_bind, hp]
      exact congrArg _ hhistory

end SameRun

/-! ### Weakest preconditions -/

/-- The program ends in `post` when it succeeds and in `fail` when it fails. -/
def wp (h : Handler S σ) (p : Fallible S ε M α) (post : α → M → σ → Prop) (fail : ε → M → σ → Prop)
    (m : M) (s : σ) : Prop :=
  match (exec h p m s).1.1 with
  | .ok a => post a (exec h p m s).1.2 (exec h p m s).2
  | .error e => fail e (exec h p m s).1.2 (exec h p m s).2

section WeakestPrecondition

variable {h : Handler S σ} {post : α → M → σ → Prop} {fail : ε → M → σ → Prop} {m : M} {s : σ}

@[simp]
theorem wp_pure (a : α) : wp h (Pure.pure a) post fail m s ↔ post a m s := Iff.rfl

@[simp]
theorem wp_throw (e : ε) : wp h (throw e) post fail m s ↔ fail e m s := Iff.rfl

@[simp]
theorem wp_ofExcept (x : Except ε α) : wp h (ofExcept x) post fail m s ↔
    match x with
    | .ok a => post a m s
    | .error e => fail e m s := Iff.rfl

/-- A computation whose error is converted, by the cases of its outcome. -/
theorem wp_ofExcept_mapError {ε' : Type} {x : Except ε' α} {f : ε' → ε}
    (hok : ∀ a, x = .ok a → post a m s) (herror : ∀ e, x = .error e → fail (f e) m s) :
    wp h (ofExcept (x.mapError f)) post fail m s := by
  cases x with
  | ok a => exact hok a rfl
  | error e => exact herror e rfl

@[simp]
theorem wp_ask (op : S.Op) (f : S.Answer op → Except ε α) : wp h (ask op f) post fail m s ↔
    match f (h op s).1 with
    | .ok a => post a m (h op s).2
    | .error e => fail e m (h op s).2 := Iff.rfl

@[simp]
theorem wp_tell (op : S.Op) (f : S.Answer op → α) :
    wp h (tell op f) post fail m s ↔ post (f (h op s).1) m (h op s).2 := Iff.rfl

theorem wp_iff {p : Fallible S ε M α} : wp h p post fail m s ↔
    (∀ a, (exec h p m s).1.1 = .ok a → post a (exec h p m s).1.2 (exec h p m s).2) ∧
      ∀ e, (exec h p m s).1.1 = .error e → fail e (exec h p m s).1.2 (exec h p m s).2 := by
  unfold wp
  cases (exec h p m s).1.1 <;> simp

theorem wp_mono {p : Fallible S ε M α} {post' : α → M → σ → Prop} {fail' : ε → M → σ → Prop}
    (hwp : wp h p post fail m s) (hpost : ∀ a m s, post a m s → post' a m s)
    (hfail : ∀ e m s, fail e m s → fail' e m s) : wp h p post' fail' m s := by
  rw [wp_iff] at hwp ⊢
  exact ⟨fun a ha => hpost a _ _ (hwp.1 a ha), fun e he => hfail e _ _ (hwp.2 e he)⟩

/-- What holds of the state a run ends in holds however the run ends. -/
theorem wp_of_exec {p : Fallible S ε M α} {Q : σ → Prop} (hQ : Q (exec h p m s).2) :
    wp h p (fun _ _ => Q) (fun _ _ => Q) m s :=
  wp_iff.mpr ⟨fun _ _ => hQ, fun _ _ => hQ⟩

theorem wp_bind {post : β → M → σ → Prop} (p : Fallible S ε M α) (f : α → Fallible S ε M β) :
    wp h (p >>= f) post fail m s ↔ wp h p (fun a => wp h (f a) post fail) fail m s := by
  unfold wp
  rw [exec_bind]
  cases hp : (exec h p m s).1.1 <;> rfl

end WeakestPrecondition

/-! ### Programs that hand errors on -/

/-- Whenever an operation is answered with an error, the program fails with it; `error` says which
answers count. -/
def Forwards (h : Handler S σ) (error : Event S → Option ε) (p : Fallible S ε M α) : Prop :=
  ∀ m s, ∀ event ∈ history h p m s, ∀ e, error event = some e → (exec h p m s).1.1 = .error e

namespace Forwards

variable {h : Handler S σ} {error : Event S → Option ε}

theorem pure (a : α) : Forwards h error (Pure.pure a : Fallible S ε M α) :=
  fun _ _ _ hmem => absurd hmem List.not_mem_nil

theorem throw (e : ε) : Forwards h error (MonadExcept.throw e : Fallible S ε M α) :=
  fun _ _ _ hmem => absurd hmem List.not_mem_nil

theorem ofExcept (x : Except ε α) : Forwards h error (Fallible.ofExcept x : Fallible S ε M α) :=
  fun _ _ _ hmem => absurd hmem List.not_mem_nil

theorem remember (f : M → α × M) : Forwards h error (Fallible.remember f : Fallible S ε M α) :=
  fun _ _ _ hmem => absurd hmem List.not_mem_nil

theorem ask {op : S.Op} {f : S.Answer op → Except ε α}
    (hf : ∀ answer e, error ⟨op, answer⟩ = some e → f answer = .error e) :
    Forwards h error (Fallible.ask op f : Fallible S ε M α) := by
  intro m s event hmem e herror
  rw [history_ask, List.mem_singleton] at hmem
  subst hmem
  exact hf _ e herror

theorem tell {op : S.Op} (hop : ∀ answer, error ⟨op, answer⟩ = none) (f : S.Answer op → α) :
    Forwards h error (Fallible.tell op f : Fallible S ε M α) := by
  intro m s event hmem e herror
  rw [history_tell, List.mem_singleton] at hmem
  subst hmem
  rw [hop] at herror
  cases herror

theorem bind {p : Fallible S ε M α} {f : α → Fallible S ε M β} (hp : Forwards h error p)
    (hf : ∀ a, Forwards h error (f a)) : Forwards h error (p >>= f) := by
  intro m s event hmem e herror
  rw [history_bind, List.mem_append] at hmem
  rw [exec_bind]
  rcases hmem with hmem | hmem
  · rw [hp m s event hmem e herror]
  · cases hr : (exec h p m s).1.1 with
    | error e' =>
      rw [hr] at hmem
      cases hmem
    | ok a =>
      rw [hr] at hmem
      exact hf a _ _ event hmem e herror

theorem forM {f : β → Fallible S ε M PUnit} {xs : List β} (hf : ∀ x ∈ xs, Forwards h error (f x)) :
    Forwards h error (xs.forM f) := by
  induction xs with
  | nil => exact pure _
  | cons x xs ih =>
    change Forwards h error (f x >>= fun _ => xs.forM f)
    exact (hf x (by simp)).bind fun _ => ih fun y hy => hf y (by simp [hy])

end Forwards

/-! ### The operations a fallible program can perform -/

/-- Every operation the program can perform, on any memory, satisfies `P`. -/
def Calls (P : S.Op → Prop) (p : Fallible S ε M α) : Prop := ∀ m, Program.Calls P (p m)

namespace Calls

variable {P Q : S.Op → Prop}

theorem mono {p : Fallible S ε M α} (hp : Calls P p) (hPQ : ∀ op, P op → Q op) : Calls Q p :=
  fun m => (hp m).mono hPQ

theorem pure (a : α) : Calls P (Pure.pure a : Fallible S ε M α) := fun _ => .pure _

theorem throw (e : ε) : Calls P (MonadExcept.throw e : Fallible S ε M α) := fun _ => .pure _

theorem ofExcept (x : Except ε α) : Calls P (Fallible.ofExcept x : Fallible S ε M α) :=
  fun _ => .pure _

theorem remember (f : M → α × M) : Calls P (Fallible.remember f : Fallible S ε M α) :=
  fun _ => .pure _

theorem ask {op : S.Op} (hop : P op) (f : S.Answer op → Except ε α) :
    Calls P (Fallible.ask op f : Fallible S ε M α) := fun _ => .call hop fun _ => .pure _

theorem tell {op : S.Op} (hop : P op) (f : S.Answer op → α) :
    Calls P (Fallible.tell op f : Fallible S ε M α) := fun _ => .call hop fun _ => .pure _

theorem bind {p : Fallible S ε M α} {f : α → Fallible S ε M β} (hp : Calls P p)
    (hf : ∀ a, Calls P (f a)) : Calls P (p >>= f) := by
  intro m
  refine Program.Calls.bind (hp m) fun r => ?_
  obtain ⟨x, m'⟩ := r
  cases x with
  | ok a => exact hf a m'
  | error e => exact .pure _

theorem forM {f : β → Fallible S ε M PUnit} {xs : List β} (hf : ∀ x ∈ xs, Calls P (f x)) :
    Calls P (xs.forM f) := by
  induction xs with
  | nil => exact pure _
  | cons x xs ih =>
    change Calls P (f x >>= fun _ => xs.forM f)
    exact (hf x (by simp)).bind fun _ => ih fun y hy => hf y (by simp [hy])

end Calls

end Fallible

end Effects
