import JamScript.Common.Overlay

/-!
# Whole-map snapshots

The plainest way to have nested transactions: opening one puts a copy of the whole map aside,
rolling back returns to the copy, committing throws it away. Beside the values a snapshot keeps the
writes that led to them, newest first.

`Matches` relates a stack of overlays to a stack of snapshots: they have the same depth and agree on
every key at every level. Every operation of the two keeps it.
-/

namespace JamScript

/-- A map and the writes that have not been rolled back, newest first. -/
structure Snapshot (K V : Type) where
  values : K → V
  log : List (K × V)

/-- The current map and the copies put aside by the open transactions, innermost first. -/
structure Snapshots (K V : Type) where
  current : Snapshot K V
  saved : List (Snapshot K V)

namespace Snapshots

variable {K V : Type}

/-- Nothing has been written. -/
def start (base : K → V) : Snapshots K V := ⟨⟨base, []⟩, []⟩

/-- Save the values. -/
def begin (s : Snapshots K V) : Snapshots K V := { s with saved := s.current :: s.saved }

/-- Forget the values that were saved last. -/
def commit (s : Snapshots K V) : Option (Snapshots K V) :=
  match s.saved with
  | [] => none
  | _ :: saved => some { s with saved }

/-- Go back to the values that were saved last. -/
def rollback (s : Snapshots K V) : Option (Snapshots K V) :=
  match s.saved with
  | [] => none
  | snapshot :: saved => some ⟨snapshot, saved⟩

/-- Write a value. -/
def write [DecidableEq K] (s : Snapshots K V) (k : K) (v : V) : Snapshots K V :=
  { s with current := ⟨Function.update s.current.values k v, (k, v) :: s.current.log⟩ }

/-- What was last written to a key and has not been rolled back. -/
def lastWrite [DecidableEq K] (s : Snapshots K V) (k : K) : Option V :=
  (s.current.log.find? (·.1 = k)).map (·.2)

section LastWrite

variable [DecidableEq K]

theorem lastWrite_write_self (s : Snapshots K V) (k : K) (v : V) :
    (s.write k v).lastWrite k = some v := by
  simp [lastWrite, write]

theorem lastWrite_write_of_ne (s : Snapshots K V) {k k' : K} (v : V) (h : k ≠ k') :
    (s.write k v).lastWrite k' = s.lastWrite k' := by
  simp [lastWrite, write, h]

end LastWrite

/-! ## Overlays -/

variable [Ord K] [Std.TransOrd K] [DecidableEq K]

/-- The overlay shows the current map: it holds the writes, and over the base the values. -/
structure Agrees (base : K → V) (o : Overlay K V) (s : Snapshots K V) : Prop where
  writes : ∀ k, o.lookup k = s.lastWrite k
  values : ∀ k, s.current.values k = (o.lookup k).getD (base k)

variable {base : K → V} {o p : Overlay K V} {s : Snapshots K V}

/-- Agreement depends on what an overlay answers only. -/
theorem Agrees.congr (h : Agrees base o s) {t : Snapshots K V}
    (hlookup : ∀ k, p.lookup k = o.lookup k) (hcurrent : t.current = s.current) :
    Agrees base p t := by
  refine ⟨fun k => ?_, fun k => ?_⟩
  · rw [hlookup, h.writes, lastWrite, lastWrite, hcurrent]
  · rw [hlookup, hcurrent, h.values]

theorem Agrees.write [Std.LawfulEqOrd K] (h : Agrees base o s) (k : K) (v : V) :
    Agrees base (o.insert k v) (s.write k v) := by
  refine ⟨fun k' => ?_, fun k' => ?_⟩
  · by_cases hk : k = k'
    · subst hk
      rw [Overlay.lookup_insert_self, lastWrite_write_self]
    · rw [Overlay.lookup_insert_of_ne _ _ (Ne.symm hk), lastWrite_write_of_ne _ _ hk, h.writes]
  · by_cases hk : k = k'
    · subst hk
      simp [Overlay.lookup_insert_self, Snapshots.write]
    · rw [Overlay.lookup_insert_of_ne _ _ (Ne.symm hk), ← h.values]
      exact Function.update_of_ne (Ne.symm hk) _ _

/-- A stack of overlays and a stack of snapshots agree at every level. -/
inductive Matches (base : K → V) : Overlay K V → Snapshots K V → Prop
  | bottom {writes : WriteSet K V} {current : Snapshot K V}
      (agrees : Agrees base ⟨writes, []⟩ ⟨current, []⟩) : Matches base ⟨writes, []⟩ ⟨current, []⟩
  | nested {writes changes : WriteSet K V} {transactions : List (WriteSet K V)}
      {current previous : Snapshot K V} {saved : List (Snapshot K V)}
      (below : Matches base ⟨writes, transactions⟩ ⟨previous, saved⟩)
      (agrees : Agrees base ⟨writes, changes :: transactions⟩ ⟨current, previous :: saved⟩) :
      Matches base ⟨writes, changes :: transactions⟩ ⟨current, previous :: saved⟩

namespace Matches

theorem start : Matches base Overlay.empty (Snapshots.start base) := by
  have hempty : ∀ k, (⟨∅, []⟩ : Overlay K V).lookup k = none := by
    intro k
    rw [Overlay.lookup_nil, Std.ExtTreeMap.getElem?_empty]
  refine .bottom ⟨hempty, fun k => ?_⟩
  rw [hempty]
  rfl

/-- Values and writes agree at every level. -/
theorem agrees (h : Matches base o s) : Agrees base o s := by
  cases h with
  | bottom agrees => exact agrees
  | nested below agrees => exact agrees

theorem length_eq (h : Matches base o s) : o.transactions.length = s.saved.length := by
  induction h with
  | bottom agrees => rfl
  | nested below agrees ih => exact congrArg (· + 1) ih

theorem transactions_eq_nil_iff (h : Matches base o s) : o.transactions = [] ↔ s.saved = [] := by
  rw [← List.length_eq_zero_iff, h.length_eq, List.length_eq_zero_iff]

theorem begin (h : Matches base o s) : Matches base o.begin s.begin := by
  refine .nested h ⟨fun k => ?_, fun k => ?_⟩
  · exact (Overlay.lookup_begin o k).trans (h.agrees.writes k)
  · exact (h.agrees.values k).trans (congrArg (·.getD (base k)) (Overlay.lookup_begin o k).symm)

/-- Either both commit or neither can. -/
theorem commit (h : Matches base o s) :
    Option.Rel (Matches base) o.commit s.commit := by
  cases h with
  | bottom agrees => exact .none
  | @nested writes changes transactions current previous saved below agrees =>
    cases below with
    | bottom _ =>
      refine .some (.bottom (agrees.congr (fun k => ?_) rfl))
      exact Overlay.lookup_commit rfl k
    | nested below _ =>
      refine .some (.nested below (agrees.congr (fun k => ?_) rfl))
      exact Overlay.lookup_commit rfl k

/-- Either both roll back or neither can. -/
theorem rollback (h : Matches base o s) : Option.Rel (Matches base) o.rollback s.rollback := by
  cases h with
  | bottom agrees => exact .none
  | nested below agrees => exact .some below

theorem write [Std.LawfulEqOrd K] (h : Matches base o s) (k : K) (v : V) : Matches base
    (o.insert k v) (s.write k v) := by
  have hagrees := h.agrees.write k v
  cases h with
  | bottom agrees => exact .bottom hagrees
  | nested below agrees => exact .nested below hagrees

end Matches

end Snapshots

end JamScript
