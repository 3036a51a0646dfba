import Mathlib

/-!
# Stacks of write overlays

A base store is modified through an overlay: a map of pending writes and, above it, a stack of
nested transactions, each again a map of writes. Reads look from the innermost transaction outwards;
writes go to the innermost transaction. Committing a transaction merges it into the one around it,
the later writer winning, and rolling it back forgets it.

`lookup` says what a reader sees, and `Above n floor o` says that the overlay `o` has `n`
transactions stacked on the overlay `floor`. While a client keeps `n` positive, nothing it does
reaches the floor: this is the frame rule every argument about nested transactions rests on.

`Shifted o p` says that `p` is `o` with its pending writes split in two, the later ones in a
transaction of their own below all others. A client that closes only what it opens cannot tell the
two apart.

`SameOff spent o p` says that the two differ only in what they hold pending for the keys of `spent`.
A client that leaves these keys alone cannot tell them apart either.

`column o k` is the overlay as one key sees it: what each transaction writes to `k`, innermost
first, and what the pending writes hold. The operations act on each column on its own.
-/

/-- A finite map of writes, ordered by key. -/
abbrev WriteSet (K V : Type) [Ord K] := Std.ExtTreeMap K V

/-- Pending writes under a stack of open transactions, innermost first. -/
@[ext]
structure Overlay (K V : Type) [Ord K] where
  writes : WriteSet K V
  transactions : List (WriteSet K V)

namespace Overlay

variable {K V : Type} [Ord K]

/-- No writes and no open transaction. -/
def empty : Overlay K V := ⟨∅, []⟩

/-- Open a transaction. -/
def begin (o : Overlay K V) : Overlay K V := { o with transactions := ∅ :: o.transactions }

/-- Merge the innermost transaction into the one around it, or into the pending writes. -/
def commit [Std.TransOrd K] (o : Overlay K V) : Option (Overlay K V) :=
  match o.transactions with
  | [] => none
  | [changes] => some ⟨o.writes ∪ changes, []⟩
  | changes :: parent :: rest => some { o with transactions := (parent ∪ changes) :: rest }

/-- Forget the innermost transaction. -/
def rollback (o : Overlay K V) : Option (Overlay K V) :=
  match o.transactions with
  | [] => none
  | _ :: rest => some { o with transactions := rest }

/-- The value the overlay holds for a key, innermost writer first. -/
def lookup [Std.TransOrd K] (o : Overlay K V) (k : K) : Option V :=
  match o.transactions.findSome? (·[k]?) with
  | some v => some v
  | none => o.writes[k]?

/-- Write to the innermost transaction, or to the pending writes when none is open. -/
def insert [Std.TransOrd K] (o : Overlay K V) (k : K) (v : V) : Overlay K V :=
  match o.transactions with
  | [] => { o with writes := o.writes.insert k v }
  | changes :: rest => { o with transactions := changes.insert k v :: rest }

/-! ## The frame rule -/

/-- `o` is `n` transactions stacked on `floor`. -/
def Above (n : ℕ) (floor o : Overlay K V) : Prop :=
  o.writes = floor.writes ∧ ∃ stack, stack.length = n ∧ o.transactions = stack ++ floor.transactions

/-- One transaction above the floor is the floor with a map of changes on top. -/
theorem above_one {floor o : Overlay K V} :
    Above 1 floor o ↔ ∃ changes, o = ⟨floor.writes, changes :: floor.transactions⟩ := by
  constructor
  · rintro ⟨hw, stack, hlen, ht⟩
    obtain ⟨changes, rfl⟩ := List.length_eq_one_iff.mp hlen
    exact ⟨changes, Overlay.ext hw ht⟩
  · rintro ⟨changes, rfl⟩
    exact ⟨rfl, [changes], rfl, rfl⟩

theorem Above.begin {n : ℕ} {floor o : Overlay K V} (h : Above n floor o) :
    Above (n + 1) floor o.begin := by
  obtain ⟨hw, stack, hlen, ht⟩ := h
  exact ⟨hw, ∅ :: stack, by simp [hlen], by simp [Overlay.begin, ht]⟩

theorem Above.rollback {n : ℕ} {floor o : Overlay K V} (h : Above (n + 1) floor o) :
    ∃ p, o.rollback = some p ∧ Above n floor p := by
  obtain ⟨hw, stack, hlen, ht⟩ := h
  match stack, hlen with
  | t :: rest, hlen =>
    refine ⟨⟨o.writes, rest ++ floor.transactions⟩, ?_, hw, rest, by simpa using hlen, rfl⟩
    simp [Overlay.rollback, ht]

variable [Std.TransOrd K]

/-- Committing a transaction above the innermost one of the floor stays above the floor. -/
theorem Above.commit {n : ℕ} {floor o : Overlay K V} (h : Above (n + 2) floor o) :
    ∃ p, o.commit = some p ∧ Above (n + 1) floor p := by
  obtain ⟨hw, stack, hlen, ht⟩ := h
  match stack, hlen with
  | t :: parent :: rest, hlen =>
    refine ⟨⟨o.writes, (parent ∪ t) :: (rest ++ floor.transactions)⟩, ?_, hw,
      (parent ∪ t) :: rest, ?_, rfl⟩
    · simp [Overlay.commit, ht]
    · simpa using hlen

theorem Above.insert {n : ℕ} {floor o : Overlay K V} (h : Above (n + 1) floor o) (k : K) (v : V) :
    Above (n + 1) floor (o.insert k v) := by
  obtain ⟨hw, stack, hlen, ht⟩ := h
  match stack, hlen with
  | t :: rest, hlen =>
    refine ⟨?_, t.insert k v :: rest, by simpa using hlen, ?_⟩
    · simp [Overlay.insert, ht, hw]
    · simp [Overlay.insert, ht]

/-! ## The number of open transactions -/

theorem length_insert (o : Overlay K V) (k : K) (v : V) :
    (o.insert k v).transactions.length = o.transactions.length := by
  obtain ⟨w, ts⟩ := o
  cases ts <;> rfl

theorem length_commit {o p : Overlay K V} (h : o.commit = some p) :
    p.transactions.length + 1 = o.transactions.length := by
  obtain ⟨w, ts⟩ := o
  match ts, h with
  | [t], h => cases h; rfl
  | t :: parent :: rest, h => cases h; rfl

/-! ## What a reader sees -/

theorem lookup_cons (w t : WriteSet K V) (ts : List (WriteSet K V)) (k : K) :
    lookup ⟨w, t :: ts⟩ k = t[k]?.or (lookup ⟨w, ts⟩ k) := by
  unfold lookup
  rw [List.findSome?_cons]
  cases t[k]? <;> rfl

theorem lookup_nil (w : WriteSet K V) (k : K) : lookup ⟨w, []⟩ k = w[k]? := rfl

@[simp]
theorem lookup_begin (o : Overlay K V) (k : K) : o.begin.lookup k = o.lookup k := by
  obtain ⟨w, ts⟩ := o
  rw [begin, lookup_cons]
  simp

/-- Committing changes no value a reader sees. -/
theorem lookup_commit {o p : Overlay K V} (h : o.commit = some p) (k : K) :
    p.lookup k = o.lookup k := by
  obtain ⟨w, ts⟩ := o
  match ts, h with
  | [t], h =>
    cases h
    rw [lookup_nil, lookup_cons, lookup_nil, Std.ExtTreeMap.getElem?_union]
  | t :: parent :: rest, h =>
    cases h
    rw [lookup_cons, lookup_cons, lookup_cons, Std.ExtTreeMap.getElem?_union, Option.or_assoc]

theorem lookup_insert_self (o : Overlay K V) (k : K) (v : V) :
    (o.insert k v).lookup k = some v := by
  obtain ⟨w, ts⟩ := o
  cases ts with
  | nil => simp [insert, lookup_nil]
  | cons t rest => simp [insert, lookup_cons]

theorem lookup_insert_of_ne [Std.LawfulEqOrd K] (o : Overlay K V) {k k' : K} (v : V)
    (hne : k' ≠ k) : (o.insert k v).lookup k' = o.lookup k' := by
  have hcmp : compare k k' ≠ .eq := fun h => hne (Std.LawfulEqOrd.eq_of_compare h).symm
  obtain ⟨w, ts⟩ := o
  cases ts with
  | nil => simp [insert, lookup_nil, Std.ExtTreeMap.getElem?_insert, hcmp]
  | cons t rest => simp [insert, lookup_cons, Std.ExtTreeMap.getElem?_insert, hcmp]

/-! ## The overlay as one key sees it -/

/-- The value of a key in every transaction, innermost first, and in the pending writes. -/
def column (o : Overlay K V) (k : K) : List (Option V) :=
  o.transactions.map (·[k]?) ++ [o.writes[k]?]

theorem column_begin (o : Overlay K V) (k : K) : o.begin.column k = none :: o.column k := by
  simp [column, begin]

theorem column_rollback {o p : Overlay K V} (h : o.rollback = some p) (k : K) :
    p.column k = (o.column k).tail := by
  obtain ⟨w, ts⟩ := o
  match ts, h with
  | t :: rest, h => cases h; rfl

/-- Committing a transaction that does not write a key drops its entry in the key's column. -/
theorem column_commit {o p : Overlay K V} {k : K} {rest : List (Option V)} (h : o.commit = some p)
    (hk : o.column k = none :: rest) : p.column k = rest := by
  obtain ⟨w, ts⟩ := o
  match ts, h with
  | [t], h =>
    cases h
    simp only [column, List.map_cons, List.map_nil, List.singleton_append, List.cons.injEq] at hk
    simp [column, Std.ExtTreeMap.getElem?_union, hk.1, ← hk.2]
  | t :: parent :: ts, h =>
    cases h
    simp only [column, List.map_cons, List.cons_append, List.cons.injEq] at hk
    simp [column, Std.ExtTreeMap.getElem?_union, hk.1, ← hk.2]

theorem column_insert_of_ne [Std.LawfulEqOrd K] (o : Overlay K V) {k k' : K} (v : V)
    (hne : k' ≠ k) : (o.insert k v).column k' = o.column k' := by
  have hcmp : compare k k' ≠ .eq := fun h => hne (Std.LawfulEqOrd.eq_of_compare h).symm
  obtain ⟨w, ts⟩ := o
  cases ts with
  | nil => simp [insert, column, Std.ExtTreeMap.getElem?_insert, hcmp]
  | cons t rest => simp [insert, column, Std.ExtTreeMap.getElem?_insert, hcmp]

theorem length_column (o : Overlay K V) (k : K) :
    (o.column k).length = o.transactions.length + 1 := by
  simp [column]

/-- A reader of a key sees no more of the overlay than the key's column. -/
theorem lookup_of_column {o p : Overlay K V} {k : K} (h : o.column k = p.column k) :
    o.lookup k = p.lookup k := by
  have hcolumn : ∀ q : Overlay K V, q.lookup k = ((q.column k).findSome? id) := by
    intro q
    simp only [lookup, column, List.findSome?_append, List.findSome?_map, Function.id_comp]
    cases q.transactions.findSome? (·[k]?) with
    | some v => rfl
    | none => cases q.writes[k]? <;> rfl
  rw [hcolumn, hcolumn, h]

/-- An open transaction can be closed either way. -/
theorem exists_close_of_ne_nil {o : Overlay K V} (h : o.transactions ≠ []) :
    (∃ p, o.commit = some p) ∧ ∃ p, o.rollback = some p := by
  obtain ⟨w, ts⟩ := o
  match ts, h with
  | [t], _ => exact ⟨⟨_, rfl⟩, ⟨_, rfl⟩⟩
  | t :: parent :: rest, _ => exact ⟨⟨_, rfl⟩, ⟨_, rfl⟩⟩

/-! ## Different pending writes -/

/-- Overlays that differ only in what they hold pending for the keys of `spent`. -/
structure SameOff (spent : K → Prop) (o p : Overlay K V) : Prop where
  writes : ∀ k, ¬ spent k → o.writes[k]? = p.writes[k]?
  transactions : o.transactions = p.transactions

namespace SameOff

variable {spent : K → Prop} {o p : Overlay K V}

theorem lookup (h : SameOff spent o p) {k : K} (hk : ¬ spent k) : o.lookup k = p.lookup k := by
  unfold Overlay.lookup
  rw [h.transactions, h.writes k hk]

theorem begin (h : SameOff spent o p) : SameOff spent o.begin p.begin :=
  ⟨h.writes, congrArg (∅ :: ·) h.transactions⟩

theorem insert (h : SameOff spent o p) (k : K) (v : V) :
    SameOff spent (o.insert k v) (p.insert k v) := by
  obtain ⟨w, ts⟩ := o
  obtain ⟨w', ts'⟩ := p
  obtain ⟨hw, rfl : ts = ts'⟩ := h
  cases ts with
  | nil =>
    refine ⟨fun k' hk' => ?_, rfl⟩
    simp only [Overlay.insert, Std.ExtTreeMap.getElem?_insert]
    rw [hw k' hk']
  | cons t ts => exact ⟨hw, rfl⟩

/-- The two can close a transaction at the same time, and then differ as before. -/
theorem close (h : SameOff spent o p) : Option.Rel (SameOff spent) o.commit p.commit ∧
    Option.Rel (SameOff spent) o.rollback p.rollback := by
  obtain ⟨w, ts⟩ := o
  obtain ⟨w', ts'⟩ := p
  obtain ⟨hw, rfl : ts = ts'⟩ := h
  match ts with
  | [] => exact ⟨.none, .none⟩
  | [t] =>
    refine ⟨.some ⟨fun k hk => ?_, rfl⟩, .some ⟨hw, rfl⟩⟩
    rw [Std.ExtTreeMap.getElem?_union, Std.ExtTreeMap.getElem?_union, hw k hk]
  | t :: parent :: rest => exact ⟨.some ⟨hw, rfl⟩, .some ⟨hw, rfl⟩⟩

end SameOff

/-! ## One more transaction below all others -/

/-- `p` holds some of the pending writes of `o` in an outermost transaction. -/
def Shifted (o p : Overlay K V) : Prop :=
  ∃ top, p.transactions = o.transactions ++ [top] ∧ o.writes = p.writes ∪ top

theorem Shifted.lookup {o p : Overlay K V} (h : Shifted o p) (k : K) : o.lookup k = p.lookup k := by
  obtain ⟨w, ts⟩ := o
  obtain ⟨w', ts'⟩ := p
  obtain ⟨top, rfl : ts' = ts ++ [top], rfl : w = w' ∪ top⟩ := h
  induction ts with
  | nil => rw [List.nil_append, lookup_nil, lookup_cons, lookup_nil, Std.ExtTreeMap.getElem?_union]
  | cons t ts ih => rw [List.cons_append, lookup_cons, lookup_cons, ih]

theorem Shifted.begin {o p : Overlay K V} (h : Shifted o p) : Shifted o.begin p.begin := by
  obtain ⟨top, hts, hw⟩ := h
  exact ⟨top, by simp [Overlay.begin, hts], hw⟩

theorem Shifted.rollback {o p o' p' : Overlay K V} (h : Shifted o p) (ho : o.rollback = some o')
    (hp : p.rollback = some p') : Shifted o' p' := by
  obtain ⟨w, ts⟩ := o
  obtain ⟨w', ts'⟩ := p
  obtain ⟨top, rfl : ts' = ts ++ [top], rfl : w = w' ∪ top⟩ := h
  match ts, ho with
  | t :: rest, ho =>
    cases ho
    cases hp
    exact ⟨top, rfl, rfl⟩

variable [Std.LawfulEqOrd K]

theorem union_insert (w t : WriteSet K V) (k : K) (v : V) : (w ∪ t).insert k v = w ∪
    t.insert k v := by
  refine Std.ExtTreeMap.ext_getElem? fun k' => ?_
  simp only [Std.ExtTreeMap.getElem?_insert, Std.ExtTreeMap.getElem?_union]
  split <;> rfl

theorem union_assoc (w t u : WriteSet K V) : w ∪ t ∪ u = w ∪ (t ∪ u) := by
  refine Std.ExtTreeMap.ext_getElem? fun k => ?_
  simp only [Std.ExtTreeMap.getElem?_union, Option.or_assoc]

theorem Shifted.insert {o p : Overlay K V} (h : Shifted o p) (k : K) (v : V) :
    Shifted (o.insert k v) (p.insert k v) := by
  obtain ⟨w, ts⟩ := o
  obtain ⟨w', ts'⟩ := p
  obtain ⟨top, rfl : ts' = ts ++ [top], rfl : w = w' ∪ top⟩ := h
  cases ts with
  | nil => exact ⟨top.insert k v, rfl, union_insert w' top k v⟩
  | cons t ts => exact ⟨top, rfl, rfl⟩

theorem Shifted.commit {o p o' p' : Overlay K V} (h : Shifted o p) (ho : o.commit = some o')
    (hp : p.commit = some p') : Shifted o' p' := by
  obtain ⟨w, ts⟩ := o
  obtain ⟨w', ts'⟩ := p
  obtain ⟨top, rfl : ts' = ts ++ [top], rfl : w = w' ∪ top⟩ := h
  match ts, ho with
  | [t], ho =>
    cases ho
    cases hp
    exact ⟨top ∪ t, rfl, union_assoc w' top t⟩
  | t :: parent :: rest, ho =>
    cases ho
    cases hp
    exact ⟨top, rfl, rfl⟩

end Overlay
