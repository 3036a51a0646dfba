import Mathlib

/-!
# Tables kept as sorted lists

A finite map can be kept as a list of entries in strictly increasing order of their keys, searched
by halving an interval of positions and updated in place or by inserting at the position found.
`Sorted` is the invariant of such a list, `position` the search and `upsert` the update. The map a
sorted list stands for is `lookup`: `Sorted.filter_position` says that the search finds it,
`Sorted.lookup_upsert` how an update changes it, and `Sorted.eq_of_lookup` that it determines the
list.
-/

namespace SortedTable

variable {α K : Type}

/-! ## Searching -/

/-- Halve the interval from `low` to `high` until it is empty: the position of the first entry that
is not `below`. -/
def search (below : α → Bool) (entries : List α) : ℕ → ℕ → ℕ → ℕ
  | 0, low, _ => low
  | fuel + 1, low, high =>
    if low < high then
      let middle := low + (high - low) / 2
      if entries[middle]?.any below then search below entries fuel (middle + 1) high
      else search below entries fuel low middle
    else low

/-- The search over the whole list. -/
def lowerBound (below : α → Bool) (entries : List α) : ℕ :=
  search below entries entries.length 0 entries.length

/-- Entries that are `below` come before those that are not. -/
def Partitioned (below : α → Bool) (entries : List α) : Prop :=
  entries.Pairwise fun left right => below right → below left

/-- Every entry before `low` is below, and no entry from `high` on is. -/
structure Brackets (below : α → Bool) (entries : List α) (low high : ℕ) : Prop where
  le : low ≤ high
  high_le : high ≤ entries.length
  before : ∀ i x, i < low → entries[i]? = some x → below x
  after : ∀ i x, high ≤ i → entries[i]? = some x → below x = false

variable {below : α → Bool} {entries : List α}

theorem Partitioned.below_of_le (h : Partitioned below entries) {i j : ℕ} {x y : α} (hij : i ≤ j)
    (hx : entries[i]? = some x) (hy : entries[j]? = some y) (hbelow : below y) : below x := by
  rcases Nat.lt_or_eq_of_le hij with hlt | rfl
  · obtain ⟨hi, rfl⟩ := List.getElem?_eq_some_iff.mp hx
    obtain ⟨hj, rfl⟩ := List.getElem?_eq_some_iff.mp hy
    exact List.pairwise_iff_getElem.mp h i j hi hj hlt hbelow
  · rw [hx] at hy
    exact Option.some.inj hy ▸ hbelow

/-- The loop narrows the interval to a single position. -/
theorem search_brackets (h : Partitioned below entries) {fuel low high : ℕ}
    (hfuel : high - low ≤ fuel) (hinv : Brackets below entries low high) :
    Brackets below entries (search below entries fuel low high)
      (search below entries fuel low high) := by
  induction fuel generalizing low high with
  | zero =>
    obtain rfl : low = high := by
      have := hinv.le
      omega
    exact hinv
  | succ fuel ih =>
    unfold search
    by_cases hlt : low < high
    · rw [if_pos hlt]
      have hmiddle : low + (high - low) / 2 < entries.length := by
        have := hinv.high_le
        omega
      have hget := List.getElem?_eq_getElem hmiddle
      simp only [hget, Option.any_some]
      split
      next hbelow =>
        refine ih (by omega) ⟨by omega, hinv.high_le, fun i x hi hx => ?_, hinv.after⟩
        exact h.below_of_le (by omega) hx hget hbelow
      next hbelow =>
        refine ih (by omega) ⟨by omega, by omega, hinv.before, fun i x hi hx => ?_⟩
        by_contra hx'
        exact hbelow (h.below_of_le hi hget hx (by simpa using hx'))
    · rw [if_neg hlt]
      obtain rfl : low = high := by
        have := hinv.le
        omega
      exact hinv

/-- The position found splits the list into the entries below and the others. -/
theorem lowerBound_splits (h : Partitioned below entries) :
    (∀ x ∈ entries.take (lowerBound below entries), below x) ∧
      (∀ x ∈ entries.drop (lowerBound below entries), below x = false) ∧
      lowerBound below entries ≤ entries.length := by
  have hstart : Brackets below entries 0 entries.length := by
    refine ⟨Nat.zero_le _, le_rfl, fun i x hi _ => absurd hi (Nat.not_lt_zero i),
      fun i x hi hx => ?_⟩
    rw [List.getElem?_eq_none hi] at hx
    cases hx
  have hfound : Brackets below entries (lowerBound below entries) (lowerBound below entries) :=
    search_brackets h (by omega) hstart
  refine ⟨fun x hx => ?_, fun x hx => ?_, hfound.high_le⟩
  · obtain ⟨i, hi⟩ := List.mem_iff_getElem?.mp hx
    rw [List.getElem?_take] at hi
    split at hi
    next hlt => exact hfound.before i x hlt hi
    next => cases hi
  · obtain ⟨i, hi⟩ := List.mem_iff_getElem?.mp hx
    rw [List.getElem?_drop] at hi
    exact hfound.after _ x (Nat.le_add_right _ _) hi

/-! ## Sorted tables -/

section Tables

variable [Ord K] [Std.TransOrd K] [Std.LawfulEqOrd K] (key : α → K)

/-- The keys are in strictly increasing order. -/
def Sorted (entries : List α) : Prop :=
  (entries.map key).Pairwise fun left right => compare left right = .lt

/-- The position of a key, or the position at which it would have to be inserted. -/
def position (entries : List α) (k : K) : ℕ :=
  lowerBound (fun entry => compare (key entry) k = .lt) entries

/-- Replace the entry with the same key, or insert the new one where it belongs. -/
def upsert (entries : List α) (entry : α) : List α :=
  let index := position key entries (key entry)
  if entries[index]?.any (fun found => compare (key found) (key entry) = .eq) then
    entries.set index entry
  else entries.take index ++ entry :: entries.drop index

/-- The entry of a key. -/
def lookup (entries : List α) (k : K) : Option α :=
  entries.find? fun entry => compare (key entry) k = .eq

variable {key}

omit [Std.LawfulEqOrd K] in
theorem Sorted.partitioned (h : Sorted key entries) (k : K) :
    Partitioned (fun entry => compare (key entry) k = .lt) entries := by
  refine (List.pairwise_map.mp h).imp fun {left right} hlt hbelow => ?_
  rw [decide_eq_true_eq] at hbelow ⊢
  exact Std.TransCmp.lt_trans hlt hbelow

/-- A sorted table around the position of a key: smaller keys, the entry of the key if there is one,
larger keys. -/
theorem Sorted.split (h : Sorted key entries) (k : K) :
    ∃ smaller larger, (∀ x ∈ smaller, compare (key x) k = .lt) ∧
      (∀ x ∈ larger, compare (key x) k = .gt) ∧ smaller.length = position key entries k ∧
      (entries = smaller ++ larger ∨
        ∃ found, compare (key found) k = .eq ∧ entries = smaller ++ found :: larger) := by
  obtain ⟨hbefore, hafter, hle⟩ := lowerBound_splits (h.partitioned k)
  set index := position key entries k with hindex
  have hsmaller : ∀ x ∈ entries.take index, compare (key x) k = .lt :=
    fun x hx => of_decide_eq_true (hbefore x hx)
  have hlength : (entries.take index).length = index := List.length_take_of_le hle
  have hentries : entries = entries.take index ++ entries.drop index :=
    (List.take_append_drop index entries).symm
  have hrest : ∀ x ∈ entries.drop index, compare (key x) k ≠ .lt :=
    fun x hx => of_decide_eq_false (hafter x hx)
  have hsorted : Sorted key (entries.drop index) :=
    List.Pairwise.sublist ((List.drop_sublist _ _).map key) h
  cases hdrop : entries.drop index with
  | nil =>
    refine ⟨entries.take index, [], hsmaller, by simp, hlength, .inl ?_⟩
    rwa [hdrop] at hentries
  | cons first rest =>
    rw [hdrop] at hrest hsorted hentries
    have hlarger : ∀ x ∈ rest, compare (key x) k = .gt := by
      intro x hx
      have hlt : compare (key first) (key x) = .lt :=
        (List.pairwise_cons.mp hsorted).1 _ (List.mem_map_of_mem hx)
      have hfirst := hrest first List.mem_cons_self
      have hgt : compare k (key x) = .lt := by
        cases hcmp : compare (key first) k with
        | lt => exact absurd hcmp hfirst
        | eq =>
          rw [← Std.LawfulEqOrd.eq_of_compare hcmp]
          exact hlt
        | gt => exact Std.TransCmp.lt_trans (Std.OrientedCmp.lt_of_gt hcmp) hlt
      exact Std.OrientedCmp.gt_of_lt hgt
    cases hcmp : compare (key first) k with
    | lt => exact absurd hcmp (hrest first List.mem_cons_self)
    | eq => exact ⟨entries.take index, rest, hsmaller, hlarger, hlength,
      .inr ⟨first, hcmp, hentries⟩⟩
    | gt =>
      refine ⟨entries.take index, first :: rest, hsmaller, ?_, hlength, .inl hentries⟩
      exact List.forall_mem_cons.mpr ⟨hcmp, hlarger⟩

omit [Std.LawfulEqOrd K] in
theorem irrefl (k : K) : compare k k ≠ .lt := by
  have hself : compare k k = .eq := Std.ReflCmp.compare_self
  rw [hself]
  decide

omit [Std.TransOrd K] in
theorem ne_of_gt {k k' : K} (h : compare k k' = .gt) : k ≠ k' := by
  rintro rfl
  have hself : compare k k = .eq := Std.ReflCmp.compare_self
  rw [hself] at h
  cases h

omit [Std.TransOrd K] [Std.LawfulEqOrd K] in
theorem lookup_eq_none {k : K} (h : ∀ x ∈ entries, compare (key x) k ≠ .eq) :
    lookup key entries k = none :=
  List.find?_eq_none.mpr fun x hx => by simpa using h x hx

omit [Std.TransOrd K] in
theorem of_lookup_eq_some {k : K} {entry : α} (h : lookup key entries k = some entry) :
    entry ∈ entries ∧ key entry = k := by
  have heq := List.find?_some h
  exact ⟨List.mem_of_find?_eq_some h, Std.LawfulEqOrd.eq_of_compare (of_decide_eq_true heq)⟩

/-- What stands at the position of a key is the key's entry, if it has one. -/
theorem Sorted.filter_position (h : Sorted key entries) (k : K) :
    entries[position key entries k]?.filter (fun entry => compare (key entry) k = .eq) =
      lookup key entries k := by
  obtain ⟨smaller, larger, hsmaller, hlarger, hlength, hentries⟩ := h.split k
  have hnone : lookup key smaller k = none := lookup_eq_none fun x hx => by simp [hsmaller x hx]
  have hnone' : lookup key larger k = none := lookup_eq_none fun x hx => by simp [hlarger x hx]
  unfold lookup at hnone hnone' ⊢
  rw [← hlength]
  rcases hentries with rfl | ⟨found, hfound, rfl⟩
  · rw [List.getElem?_append_right le_rfl, Nat.sub_self, List.find?_append, hnone, hnone']
    cases larger with
    | nil => rfl
    | cons first rest => simpa using ne_of_gt (hlarger first List.mem_cons_self)
  · rw [List.getElem?_append_right le_rfl, Nat.sub_self, List.find?_append, hnone]
    simp [Std.LawfulEqOrd.eq_of_compare hfound]

/-- An update leaves the other entries as they are, whether or not the key was there. -/
theorem Sorted.upsert_split (h : Sorted key entries) (entry : α) :
    ∃ smaller larger, (∀ x ∈ smaller, compare (key x) (key entry) = .lt) ∧
      (∀ x ∈ larger, compare (key x) (key entry) = .gt) ∧
      upsert key entries entry = smaller ++ entry :: larger ∧
      (entries = smaller ++ larger ∨
        ∃ found, compare (key found) (key entry) = .eq ∧ entries = smaller ++ found :: larger) := by
  obtain ⟨smaller, larger, hsmaller, hlarger, hlength, hentries⟩ := h.split (key entry)
  refine ⟨smaller, larger, hsmaller, hlarger, ?_, hentries⟩
  simp only [upsert, ← hlength]
  rcases hentries with rfl | ⟨found, hfound, rfl⟩
  · have hget : (smaller ++ larger)[smaller.length]? = larger.head? := by
      rw [List.getElem?_append_right le_rfl, Nat.sub_self, List.head?_eq_getElem?]
    rw [hget, if_neg]
    · rw [List.take_left, List.drop_left]
    · cases larger with
      | nil => simp
      | cons first rest => simpa using ne_of_gt (hlarger first List.mem_cons_self)
  · rw [if_pos]
    · rw [List.set_append_right _ _ le_rfl, Nat.sub_self]
      rfl
    · simp [Std.LawfulEqOrd.eq_of_compare hfound]

/-- An update keeps the table sorted. -/
theorem Sorted.upsert (h : Sorted key entries) (entry : α) :
    Sorted key (upsert key entries entry) := by
  obtain ⟨smaller, larger, hsmaller, hlarger, hupsert, hentries⟩ := h.upsert_split entry
  have hboth : Sorted key (smaller ++ larger) := by
    rcases hentries with rfl | ⟨found, -, rfl⟩
    · exact h
    · refine List.Pairwise.sublist (List.Sublist.map key ?_) h
      exact (List.sublist_cons_self _ _).append_left _
  unfold Sorted at hboth ⊢
  rw [hupsert]
  rw [List.map_append, List.pairwise_append] at hboth ⊢
  obtain ⟨hleft, hright, hacross⟩ := hboth
  refine ⟨hleft, ?_, ?_⟩
  · rw [List.map_cons, List.pairwise_cons]
    refine ⟨?_, hright⟩
    rw [List.forall_mem_map]
    exact fun x hx => Std.OrientedCmp.lt_of_gt (hlarger x hx)
  · intro a ha b hb
    rw [List.map_cons, List.mem_cons] at hb
    rcases hb with rfl | hb
    · obtain ⟨x, hx, rfl⟩ := List.mem_map.mp ha
      exact hsmaller x hx
    · exact hacross a ha b hb

/-- An update changes the entry of its own key only. -/
theorem Sorted.lookup_upsert (h : Sorted key entries) (entry : α) (k : K) :
    lookup key (SortedTable.upsert key entries entry) k =
      if compare (key entry) k = .eq then some entry else lookup key entries k := by
  obtain ⟨smaller, larger, hsmaller, -, hupsert, hentries⟩ := h.upsert_split entry
  rw [hupsert]
  unfold lookup
  rw [List.find?_append]
  split
  next heq =>
    obtain rfl := Std.LawfulEqOrd.eq_of_compare heq
    have hnone : smaller.find? (fun x => compare (key x) (key entry) = .eq) = none :=
      lookup_eq_none fun x hx => by simp [hsmaller x hx]
    simp [hnone]
  next hne =>
    rw [List.find?_cons_of_neg (by simpa using hne)]
    rcases hentries with rfl | ⟨found, hfound, rfl⟩
    · rw [List.find?_append]
    · rw [List.find?_append, List.find?_cons_of_neg]
      rw [Std.LawfulEqOrd.eq_of_compare hfound]
      simpa using hne

omit [Std.LawfulEqOrd K] in
theorem Sorted.lookup_eq_some (h : Sorted key entries) {x : α} :
    lookup key entries (key x) = some x ↔ x ∈ entries := by
  constructor
  · exact fun hx => List.mem_of_find?_eq_some hx
  · intro hx
    obtain ⟨before, after, rfl⟩ := List.append_of_mem hx
    unfold Sorted at h
    rw [List.map_append, List.pairwise_append] at h
    have hnone : before.find? (fun y => compare (key y) (key x) = .eq) = none :=
      lookup_eq_none fun y hy => by
        simp [h.2.2 _ (List.mem_map_of_mem hy) (key x) (by simp)]
    unfold lookup
    rw [List.find?_append, hnone]
    simp [Std.ReflCmp.compare_self]

omit [Std.LawfulEqOrd K] in
/-- A sorted table is determined by the map it stands for. -/
theorem Sorted.eq_of_lookup {other : List α} (h : Sorted key entries) (hother : Sorted key other)
    (hlookup : ∀ k, lookup key entries k = lookup key other k) : entries = other := by
  have hmem : ∀ x, x ∈ entries ↔ x ∈ other := fun x => by
    rw [← h.lookup_eq_some, ← hother.lookup_eq_some, hlookup]
  have hnodup : ∀ {xs : List α}, Sorted key xs → xs.Nodup := fun hxs => by
    refine (List.pairwise_map.mp hxs).imp fun {a b} hlt => ?_
    rintro rfl
    exact irrefl _ hlt
  have hperm : entries.Perm other :=
    (List.perm_ext_iff_of_nodup (hnodup h) (hnodup hother)).mpr hmem
  refine List.Perm.eq_of_pairwise (fun a b _ _ hlt hgt => ?_) (List.pairwise_map.mp h)
    (List.pairwise_map.mp hother) hperm
  exact absurd (Std.TransCmp.lt_trans hlt hgt) (irrefl _)

end Tables

end SortedTable
