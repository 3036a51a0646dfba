import JamScript.Common.LittleEndian

/-!
# Keys of ordered maps

The order of byte arrays of a fixed length, and what updates of an ordered map do to its entries
when several keys are updated one after the other.
-/

namespace JamScript

open Codec

instance (n : ℕ) : Ord (FixedBytes n) := ⟨compareOn List.Vector.toList⟩

instance (n : ℕ) : Std.TransOrd (FixedBytes n) :=
  inferInstanceAs (Std.TransCmp (compareOn List.Vector.toList))

instance (n : ℕ) : Std.LawfulEqOrd (FixedBytes n) where
  compare_self {bytes} := by
    have hlist : compare bytes.toList bytes.toList = .eq := Std.ReflCmp.compare_self
    exact hlist
  eq_of_compare {left right} h := by
    have hlist : compare left.toList right.toList = .eq := h
    exact List.Vector.eq left right (Std.LawfulEqOrd.eq_of_compare hlist)

instance : Std.TransOrd (FixedBytes 32) := inferInstance

instance : Std.LawfulEqOrd (FixedBytes 32) := inferInstance

namespace OrderedMap

variable {K V : Type} [Ord K] [Std.TransOrd K] [Std.LawfulEqOrd K]

/-- Under the key itself, an insertion is seen. -/
@[simp]
theorem getElem?_insert_self (m : Std.ExtTreeMap K V) (k : K) (v : V) :
    (m.insert k v)[k]? = some v := by
  rw [Std.ExtTreeMap.getElem?_insert, if_pos Std.ReflCmp.compare_self]

/-- Under other keys, an insertion is not seen. -/
theorem getElem?_insert_of_ne (m : Std.ExtTreeMap K V) {k k' : K} (v : V) (h : k ≠ k') :
    (m.insert k v)[k']? = m[k']? := by
  rw [Std.ExtTreeMap.getElem?_insert, if_neg (mt Std.LawfulEqOrd.eq_of_compare h)]

/-- Looking up after an insertion. -/
theorem getElem?_insert_ite [DecidableEq K] (m : Std.ExtTreeMap K V) (k k' : K) (v : V) :
    (m.insert k v)[k']? = if k' = k then some v else m[k']? := by
  split
  next heq => rw [heq, getElem?_insert_self]
  next hne => rw [getElem?_insert_of_ne _ _ (Ne.symm hne)]

/-- Inserting what is there changes nothing. -/
theorem insert_eq_self {m : Std.ExtTreeMap K V} {k : K} {v : V} (h : m[k]? = some v) :
    m.insert k v = m := by
  -- maps are equal when all look-ups are
  classical
  refine Std.ExtTreeMap.ext_getElem? fun {key} => ?_
  rw [getElem?_insert_ite]
  split
  next heq => rw [heq, h]
  next => rfl

/-- An erased key is gone. -/
@[simp]
theorem getElem?_erase_self (m : Std.ExtTreeMap K V) (k : K) : (m.erase k)[k]? = none := by
  rw [Std.ExtTreeMap.getElem?_erase, if_pos Std.ReflCmp.compare_self]

/-- Other keys survive an erasure. -/
theorem getElem?_erase_of_ne (m : Std.ExtTreeMap K V) {k k' : K} (h : k ≠ k') :
    (m.erase k)[k']? = m[k']? := by
  rw [Std.ExtTreeMap.getElem?_erase, if_neg (mt Std.LawfulEqOrd.eq_of_compare h)]

/-- A modified key has the new value, if it had one. -/
@[simp]
theorem getElem?_modify_self (m : Std.ExtTreeMap K V) (k : K) (f : V → V) :
    (m.modify k f)[k]? = m[k]?.map f := by
  rw [Std.ExtTreeMap.getElem?_modify, if_pos Std.ReflCmp.compare_self]

/-- Other keys survive a modification. -/
theorem getElem?_modify_of_ne (m : Std.ExtTreeMap K V) {k k' : K} (f : V → V) (h : k ≠ k') :
    (m.modify k f)[k']? = m[k']? := by
  rw [Std.ExtTreeMap.getElem?_modify, if_neg (mt Std.LawfulEqOrd.eq_of_compare h)]

/-- Modify the entries of several keys, one after the other. -/
def modifyAll (m : Std.ExtTreeMap K V) (updates : List (K × (V → V))) : Std.ExtTreeMap K V :=
  updates.foldl (fun m update => m.modify update.1 update.2) m

/-- A list of modifications leaves the keys it does not name. -/
theorem getElem?_modifyAll_of_notMem {m : Std.ExtTreeMap K V} {updates : List (K × (V → V))} {k : K}
    (h : k ∉ updates.map Prod.fst) : (modifyAll m updates)[k]? = m[k]? := by
  induction updates generalizing m with
  | nil => rfl
  | cons update updates ih =>
    rw [List.map_cons, List.mem_cons, not_or] at h
    have hrest : (modifyAll m (update :: updates))[k]? = (m.modify update.1 update.2)[k]? := ih h.2
    rw [hrest, getElem?_modify_of_ne _ _ (Ne.symm h.1)]

/-- When the keys are distinct, each entry is modified once. -/
theorem getElem?_modifyAll_of_mem {m : Std.ExtTreeMap K V} {updates : List (K × (V → V))} {k : K}
    {f : V → V} (hdistinct : (updates.map Prod.fst).Nodup) (h : (k, f) ∈ updates) :
    (modifyAll m updates)[k]? = m[k]?.map f := by
  induction updates generalizing m with
  | nil => cases h
  | cons update updates ih =>
    rw [List.map_cons, List.nodup_cons] at hdistinct
    rcases List.mem_cons.mp h with rfl | hrest
    · -- the key does not come again, so the modification stays
      have hlater : (modifyAll m ((k, f) :: updates))[k]? = (m.modify k f)[k]? :=
        getElem?_modifyAll_of_notMem hdistinct.1
      rw [hlater, getElem?_modify_self]
    · have hne : update.1 ≠ k := by
        rintro rfl
        exact hdistinct.1 (List.mem_map.mpr ⟨_, hrest, rfl⟩)
      have hlater : (modifyAll m (update :: updates))[k]? =
      (m.modify update.1 update.2)[k]?.map f :=
        ih hdistinct.2 hrest
      rw [hlater, getElem?_modify_of_ne _ _ hne]

end OrderedMap

end JamScript
