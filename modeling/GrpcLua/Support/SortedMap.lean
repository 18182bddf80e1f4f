import GrpcLua.Support.LastWrite
import Mathlib.Order.Lattice
import Mathlib.Data.List.Pairwise

/-!
# Support — SortedMap

Maps as lists of entries in the strict order of their keys: two of them that look the same are the
same list.  `insert` replaces what the map has at the key, so that maps are a `LastWrite`.
-/

namespace SortedMap
variable {κ α : Type*}

/-- The keys are in strict order. -/
def Sorted [LT κ] (es : List (κ × α)) : Prop := es.Pairwise fun e e' => e.1 < e'.1

variable [LinearOrder κ]

def insert (k : κ) (a : α) : List (κ × α) → List (κ × α)
  | [] => [(k, a)]
  | (k', a') :: es =>
      if k < k' then (k, a) :: (k', a') :: es
      else if k = k' then (k, a) :: es
      else (k', a') :: insert k a es

variable {k k' : κ} {a : α} {es es' : List (κ × α)}

@[simp] theorem sorted_nil : Sorted ([] : List (κ × α)) := .nil

theorem sorted_cons : Sorted ((k, a) :: es) ↔ (∀ e ∈ es, k < e.1) ∧ Sorted es :=
  List.pairwise_cons

theorem mem_insert {e : κ × α} (h : e ∈ insert k a es) : e = (k, a) ∨ e ∈ es := by
  induction es with
  | nil => exact .inl (List.mem_singleton.1 h)
  | cons e' es ih =>
      obtain ⟨k', a'⟩ := e'
      rw [insert] at h
      split_ifs at h with hlt heq
      · exact List.mem_cons.1 h
      · rcases List.mem_cons.1 h with h | h
        · exact .inl h
        · exact .inr (List.mem_cons_of_mem _ h)
      · rcases List.mem_cons.1 h with rfl | h
        · exact .inr List.mem_cons_self
        · exact (ih h).imp_right (List.mem_cons_of_mem _)

theorem sorted_insert (h : Sorted es) : Sorted (insert k a es) := by
  induction es with
  | nil => exact List.pairwise_singleton _ _
  | cons e' es ih =>
      obtain ⟨k', a'⟩ := e'
      obtain ⟨hk', hes⟩ := sorted_cons.1 h
      rw [insert]
      split_ifs with hlt heq
      · refine sorted_cons.2 ⟨?_, h⟩
        intro e he
        rcases List.mem_cons.1 he with rfl | he
        · exact hlt
        · exact hlt.trans (hk' e he)
      · subst heq
        exact sorted_cons.2 ⟨hk', hes⟩
      · refine sorted_cons.2 ⟨?_, ih hes⟩
        intro e he
        rcases mem_insert he with rfl | he
        · exact lt_of_le_of_ne (not_lt.1 hlt) (Ne.symm heq)
        · exact hk' e he

theorem lookup_insert : (insert k a es).lookup k' = if k' = k then some a else es.lookup k' := by
  induction es with
  | nil =>
      by_cases h : k' = k
      · simp [insert, h]
      · simp [insert, List.lookup_cons, beq_eq_false_iff_ne.2 h, h]
  | cons e' es ih =>
      obtain ⟨k'', a'⟩ := e'
      rw [insert]
      split_ifs with hlt heq h <;> grind

/-- What precedes every key of the map is not in it. -/
theorem lookup_eq_none_of_lt (h : ∀ e ∈ es, k < e.1) : es.lookup k = none := by
  rw [List.lookup_eq_none_iff]
  intro e he
  exact bne_iff_ne.2 (h e he).ne

theorem mem_iff_lookup (h : Sorted es) : (k, a) ∈ es ↔ es.lookup k = some a := by
  induction es with
  | nil => simp
  | cons e' es ih =>
      obtain ⟨k', a'⟩ := e'
      obtain ⟨hk', hes⟩ := sorted_cons.1 h
      rw [List.lookup_cons, List.mem_cons, ih hes]
      by_cases heq : k = k'
      · subst heq
        simp [lookup_eq_none_of_lt hk', eq_comm]
      · simp [heq, beq_eq_false_iff_ne.2 heq]

/-- Two maps that look the same are the same. -/
theorem ext (h : Sorted es) (h' : Sorted es') (same : ∀ k, es.lookup k = es'.lookup k) :
    es = es' := by
  have nodup : ∀ {es : List (κ × α)}, Sorted es → es.Nodup := fun h =>
    List.Pairwise.imp (fun hlt heq => absurd (congrArg Prod.fst heq) hlt.ne) h
  refine List.Perm.eq_of_pairwise (fun e e' _ _ hlt hgt => absurd hgt hlt.asymm) h h' ?_
  refine (List.perm_ext_iff_of_nodup (nodup h) (nodup h')).2 fun e => ?_
  rw [mem_iff_lookup h, mem_iff_lookup h', same]

variable (κ α) in
/-- A map, and the insertions that write it. -/
def writes : LastWrite (List (κ × α)) (κ × α) κ (Option α) where
  apply es e := insert e.1 e.2 es
  look es k := es.lookup k
  touch e k := if k = e.1 then some (some e.2) else none
  Valid := Sorted
  valid_apply _ _ := sorted_insert
  look_apply es e k _ := by
    rw [lookup_insert]
    split_ifs <;> rfl
  ext _ _ h h' same := SortedMap.ext h h' same

theorem sorted_writeAll (ws : List (κ × α)) : Sorted ((writes κ α).writeAll [] ws) :=
  LastWrite.valid_writeAll (M := writes κ α) sorted_nil ws

theorem touch_eq_some {e : κ × α} {o : Option α} :
    (writes κ α).touch e k = some o ↔ k = e.1 ∧ o = some e.2 := by
  change (if k = e.1 then some (some e.2) else none) = some o ↔ _
  split_ifs with h <;> simp [h, eq_comm]

/-- What a map that was empty has at a key, an insertion has put there. -/
theorem mem_of_mem_writeAll {ws : List (κ × α)} (h : (k, a) ∈ (writes κ α).writeAll [] ws) :
    (k, a) ∈ ws := by
  have hlook : (writes κ α).look ((writes κ α).writeAll [] ws) k = some a :=
    (mem_iff_lookup (sorted_writeAll ws)).1 h
  rcases LastWrite.look_cases (M := writes κ α) sorted_nil ws k with
    ⟨us, ⟨k', a'⟩, vs, o, rfl, ho, -, hlast⟩ | ⟨-, hnone⟩
  · obtain ⟨rfl, rfl⟩ := touch_eq_some.1 ho
    obtain rfl : a' = a := Option.some.inj (hlast.symm.trans hlook)
    simp
  · rw [hnone] at hlook
    cases hlook

end SortedMap
