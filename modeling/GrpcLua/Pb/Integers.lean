import GrpcLua.Pb.Iteration
import GrpcLua.Pb.RoundTrip

/-!
# Pb — Integers

The integers of a Lua table that is written into a message and read from it again.

`Natural` are the tables whose values have the natural Lua types of the fields.  Each integer of
such a table comes back at its place exactly if the table `Fits`: the integers are in the ranges of
their fields, the lists are short enough for an `int`, and what is not kept holds no integer
(`Natural.kept`).
-/

namespace GrpcLua.Pb
open Pb.LuaValue MessageSetter MsgToTbl

variable {Num Float : Type} [DecidableEq Num]

namespace LuaValue

/-- Each integer of the value, be it a value or a key, is in the other one at the same place. -/
def Lossless (v v' : LuaValue Num) : Prop :=
  (∀ p n, v.get p = .integer n → v'.get p = .integer n) ∧
  ∀ p n, v.get (p ++ [.integer n]) ≠ .nil → v'.get (p ++ [.integer n]) ≠ .nil

/-- The value holds no integer. -/
def NoIntegers (v : LuaValue Num) : Prop :=
  (∀ p n, v.get p ≠ .integer n) ∧ ∀ p n, v.get (p ++ [.integer n]) = .nil

variable {v v' : LuaValue Num} {es : List (LuaKey Num × LuaValue Num)} {b : Nat}

/-- A path goes through its first key. -/
theorem get_cons (v : LuaValue Num) (k : LuaKey Num) (p : List (LuaKey Num)) :
    v.get (k :: p) = (v.get [k]).get p := by
  cases v with
  | table b es => rw [get_table, get_table, get_nil]
  | _ => exact (nil_get p).symm

/-- No path goes through a value that is not a table. -/
theorem get_atom (hv : ∀ b es, v ≠ table b es) (k : LuaKey Num) (p : List (LuaKey Num)) :
    v.get (k :: p) = nil := by
  cases v with
  | table b es => exact absurd rfl (hv b es)
  | _ => rfl

/-- Of a value that is not a table, only an integer can be lost. -/
theorem lossless_atom (hv : ∀ b es, v ≠ table b es) :
    Lossless v v' ↔ ∀ n, v = integer n → v' = integer n := by
  constructor
  · rintro ⟨h, -⟩ n rfl
    simpa using h [] n
  · intro h
    refine ⟨fun p n hp => ?_, fun p n hp => ?_⟩
    · cases p with
      | nil => simpa using h n (by simpa using hp)
      | cons k p => rw [get_atom hv] at hp; cases hp
    · cases p <;> exact absurd (get_atom hv _ _) hp

/-- Where nothing comes back, nothing is lost if there was no integer. -/
theorem lossless_nil : Lossless v nil ↔ NoIntegers v := by
  constructor
  · rintro ⟨h, h'⟩
    refine ⟨fun p n hp => ?_, fun p n => ?_⟩
    · have hnil := h p n hp
      rw [nil_get] at hnil
      cases hnil
    · by_contra hp
      exact h' p n hp (nil_get _)
  · rintro ⟨h, h'⟩
    exact ⟨fun p n hp => absurd hp (h p n), fun p n hp => absurd (h' p n) hp⟩

/-- Entry by entry: the key, if it is an integer, and the integers of the value. -/
theorem lossless_table (nodup : (es.map Prod.fst).Nodup) (present : ∀ k, (k, nil) ∉ es) :
    Lossless (table b es) v' ↔ ∀ k v, (k, v) ∈ es →
      (∀ n, k = .integer n → v'.get [k] ≠ nil) ∧ Lossless v (v'.get [k]) := by
  constructor
  · -- Read along the paths that start with the key.
    rintro ⟨h, h'⟩ k v hkv
    have hlookup := lookup_eq_of_mem nodup hkv
    refine ⟨?_, fun p n hp => ?_, fun p n hp => ?_⟩
    · rintro n rfl
      refine h' [] n ?_
      rw [List.nil_append, get_table, get_nil, hlookup]
      rintro rfl
      exact present _ hkv
    · rw [← get_cons]
      exact h (k :: p) n (by rw [get_table, hlookup, hp])
    · rw [← get_cons]
      exact h' (k :: p) n (by rwa [List.cons_append, get_table, hlookup])
  · intro h
    refine ⟨fun p n hp => ?_, fun p n hp => ?_⟩
    · -- A table is no integer itself, so every path to one starts with a key.
      cases p with
      | nil => simp at hp
      | cons k p =>
          rw [get_table] at hp
          rcases lookup_cases nodup k with hkv | ⟨-, hnil⟩
          · rw [get_cons]
            exact (h k _ hkv).2.1 p n hp
          · rw [hnil, nil_get] at hp
            cases hp
    · cases p with
      | nil =>
          rw [List.nil_append, get_table, get_nil] at hp
          rcases lookup_cases nodup (.integer n) with hkv | ⟨-, hnil⟩
          · exact (h _ _ hkv).1 n rfl
          · exact absurd hnil hp
      | cons k p =>
          rw [List.cons_append, get_table] at hp
          rw [List.cons_append, get_cons]
          rcases lookup_cases nodup k with hkv | ⟨-, hnil⟩
          · exact (h k _ hkv).2.2 p n hp
          · rw [hnil, nil_get] at hp
            exact absurd rfl hp

end LuaValue

section
variable (R : Runtime Num Float) (pool : Pool Num Float)

/-- The value has the natural Lua type of the field: in a list, the elements up to the border. -/
inductive Natural : FieldDescriptor Num Float → LuaValue Num → Prop where
  | scalar {f : FieldDescriptor Num Float} {t : ScalarType} {v : LuaValue Num} (hf : f.Singular)
      (ht : f.type = .scalar t) (h : t.Natural v) : Natural f v
  | message {f : FieldDescriptor Num Float} {t b : Nat} {es : List (LuaKey Num × LuaValue Num)}
      (hf : f.Singular) (ht : f.type = .message t)
      (named : ∀ s v, (.string s, v) ∈ es → ((pool.descriptor t).findFieldByName s).isSome)
      (fields : ∀ i v, (.string ((pool.descriptor t).field i).name, v) ∈ es →
        Natural ((pool.descriptor t).field i) v) : Natural f (.table b es)
  | list {f : FieldDescriptor Num Float} {b : Nat} {es : List (LuaKey Num × LuaValue Num)}
      (hf : f.label = .repeated) (border : b < 2 ^ 63)
      (indices : ∀ k v, (k, v) ∈ es → ∃ n < b, k = indexKey n)
      (present : ∀ n < b, ∃ v, (indexKey n, v) ∈ es)
      (elements : ∀ k v, (k, v) ∈ es → Natural f.element v) : Natural f (.table b es)
  | map {f : FieldDescriptor Num Float} {entryName : Bytes} {key : KeyType} {b : Nat}
      {es : List (LuaKey Num × LuaValue Num)} (hf : f.label = .map entryName key)
      (keys : ∀ k v, (k, v) ∈ es → key.Natural k)
      (values : ∀ k v, (k, v) ∈ es → Natural (f.value entryName) v) : Natural f (.table b es)

/-- The integers are in the ranges of their fields, the lists are short enough for an `int`, and
what is not kept holds no integer: the members of a oneof before the last one that is set, in the
order in which Lua yields them, and what is not under a string in the table of a message. -/
inductive Fits : FieldDescriptor Num Float → LuaValue Num → Prop where
  | scalar {f : FieldDescriptor Num Float} {t : ScalarType} {v : LuaValue Num} (hf : f.Singular)
      (ht : f.type = .scalar t) (h : ∀ n, v = .integer n → t.InRange n) : Fits f v
  | message {f : FieldDescriptor Num Float} {t b : Nat} {es : List (LuaKey Num × LuaValue Num)}
      (hf : f.Singular) (ht : f.type = .message t)
      (kept : ∀ us i v vs, es = us ++ (.string ((pool.descriptor t).field i).name, v) :: vs →
        (∀ j w, (.string ((pool.descriptor t).field j).name, w) ∈ vs →
          (pool.descriptor t).SameOneof j i → ¬ Sets R ((pool.descriptor t).field j) w) →
        Fits ((pool.descriptor t).field i) v)
      (overwritten : ∀ us i v vs j w,
        es = us ++ (.string ((pool.descriptor t).field i).name, v) :: vs →
        (.string ((pool.descriptor t).field j).name, w) ∈ vs → (pool.descriptor t).SameOneof j i →
        Sets R ((pool.descriptor t).field j) w → v.NoIntegers)
      (skipped : ∀ k v, (k, v) ∈ es → (∀ s, k ≠ .string s) →
        (∀ n, k ≠ .integer n) ∧ v.NoIntegers) : Fits f (.table b es)
  | list {f : FieldDescriptor Num Float} {b : Nat} {es : List (LuaKey Num × LuaValue Num)}
      (hf : f.label = .repeated) (length : b < 2 ^ 31 - 1)
      (elements : ∀ k v, (k, v) ∈ es → Fits f.element v) : Fits f (.table b es)
  | map {f : FieldDescriptor Num Float} {entryName : Bytes} {key : KeyType} {b : Nat}
      {es : List (LuaKey Num × LuaValue Num)} (hf : f.label = .map entryName key)
      (keys : ∀ n v, (.integer n, v) ∈ es → key.InRange n)
      (values : ∀ k v, (k, v) ∈ es → Fits (f.value entryName) v) : Fits f (.table b es)

end

variable {R : Runtime Num Float} {pool : Pool Num Float}
variable {f : FieldDescriptor Num Float} {v : LuaValue Num} {b : Nat}
  {es : List (LuaKey Num × LuaValue Num)}

/-! ### `Fits`, for each kind of field -/

/-- An integer fits the range of its type. -/
theorem fits_scalar {t : ScalarType} (hf : f.Singular) (ht : f.type = .scalar t) :
    Fits R pool f v ↔ ∀ n, v = .integer n → t.InRange n := by
  constructor
  · rintro (⟨-, ht', h⟩ | ⟨-, ht', -, -, -⟩ | ⟨hl, -, -⟩ | ⟨hm, -, -⟩)
    · obtain rfl : t = _ := by simpa [ht] using ht'
      exact h
    · simp [ht] at ht'
    · exact absurd hl hf.1
    · exact absurd hm (hf.2 _ _)
  · exact .scalar hf ht

/-- The entries of a table fit, but for those that a later member of their oneof clears. -/
theorem fits_message {t : Nat} (hf : f.Singular) (ht : f.type = .message t) :
    Fits R pool f (.table b es) ↔
      (∀ us i v vs, es = us ++ (.string ((pool.descriptor t).field i).name, v) :: vs →
        (∀ j w, (.string ((pool.descriptor t).field j).name, w) ∈ vs →
          (pool.descriptor t).SameOneof j i → ¬ Sets R ((pool.descriptor t).field j) w) →
        Fits R pool ((pool.descriptor t).field i) v) ∧
      (∀ us i v vs j w, es = us ++ (.string ((pool.descriptor t).field i).name, v) :: vs →
        (.string ((pool.descriptor t).field j).name, w) ∈ vs → (pool.descriptor t).SameOneof j i →
        Sets R ((pool.descriptor t).field j) w → v.NoIntegers) ∧
      ∀ k v, (k, v) ∈ es → (∀ s, k ≠ .string s) → (∀ n, k ≠ .integer n) ∧ v.NoIntegers := by
  constructor
  · rintro (⟨-, ht', -⟩ | ⟨-, ht', kept, overwritten, skipped⟩ | ⟨hl, -, -⟩ | ⟨hm, -, -⟩)
    · simp [ht] at ht'
    · obtain rfl : t = _ := by simpa [ht] using ht'
      exact ⟨kept, overwritten, skipped⟩
    · exact absurd hl hf.1
    · exact absurd hm (hf.2 _ _)
  · exact fun ⟨kept, overwritten, skipped⟩ => .message hf ht kept overwritten skipped

/-- A list is shorter than 2³¹ - 1, and its elements fit. -/
theorem fits_list (hf : f.label = .repeated) :
    Fits R pool f (.table b es) ↔
      b < 2 ^ 31 - 1 ∧ ∀ k v, (k, v) ∈ es → Fits R pool f.element v := by
  constructor
  · rintro (⟨hs, -, -⟩ | ⟨hs, -, -, -, -⟩ | ⟨-, length, elements⟩ | ⟨hm, -, -⟩)
    · exact absurd hf hs.1
    · exact absurd hf hs.1
    · exact ⟨length, elements⟩
    · simp [hf] at hm
  · exact fun ⟨length, elements⟩ => .list hf length elements

/-- The keys fit the range of their type, and the values fit. -/
theorem fits_map {entryName : Bytes} {key : KeyType} (hf : f.label = .map entryName key) :
    Fits R pool f (.table b es) ↔ (∀ n v, (.integer n, v) ∈ es → key.InRange n) ∧
      ∀ k v, (k, v) ∈ es → Fits R pool (f.value entryName) v := by
  constructor
  · rintro (⟨hs, -, -⟩ | ⟨hs, -, -, -, -⟩ | ⟨hl, -, -⟩ | ⟨hm, keys, values⟩)
    · exact absurd hf (hs.2 _ _)
    · exact absurd hf (hs.2 _ _)
    · simp [hf] at hl
    · obtain ⟨rfl, rfl⟩ : entryName = _ ∧ key = _ := by simpa [hf] using hm
      exact ⟨keys, values⟩
  · exact fun ⟨keys, values⟩ => .map hf keys values

/-! ### What becomes of a natural value -/

variable (R pool) in
/-- What the table of a message has of a field: of a oneof, the member that is set. -/
def shown (f : FieldDescriptor Num Float) (c : Content Num Float) : LuaValue Num :=
  if f.inOneof ∧ c.isAbsent then .nil else getField R pool f c

variable (R pool) in
/-- What the field makes of the value shows all of its integers exactly if the value fits. -/
def Kept (f : FieldDescriptor Num Float) (v : LuaValue Num) : Prop :=
  ∀ c, convert R pool f v = some c → (Lossless v (shown R pool f c) ↔ Fits R pool f v)

/-- A field outside the oneofs is always shown. -/
theorem shown_of_not_inOneof {c : Content Num Float} (hf : f.inOneof = false) :
    shown R pool f c = getField R pool f c := if_neg (by simp [hf])

/-- A number that its enum does not have is not in range, and not the default value either. -/
theorem not_lossless_unknown {t : ScalarType} {n : BitVec 64} {s : Scalar Num Float} {m : BitVec 32}
    (hf : f.Singular) (ht : f.type = .scalar t) (hs : t.ofLua R (.integer n) = .ok s)
    (hm : t.unknownNumber s = some m) :
    ¬ Lossless (.integer n) (shown R pool f (.unknown f.initial [m])) := by
  have hdefault : getField R pool f (.unknown f.initial [m]) = f.defaultValue.toLua R := by
    rw [getField_unknown ht]
    cases hl : f.label <;>
      simp_all [FieldDescriptor.initial, FieldDescriptor.Singular, getField]
  intro h
  have hshown : shown R pool f (.unknown f.initial [m]) = .integer n := by
    simpa using h.1 [] n
  rw [shown, hdefault] at hshown
  split_ifs at hshown
  · -- The default value is one of the enum's.
    have hholds := f.defaultHolds t ht
    have hback := ScalarType.ofLua_toLua R hholds
    rw [hshown, hs] at hback
    rw [(ScalarType.holds_iff R hs).1 (Except.ok.inj hback ▸ hholds)] at hm
    cases hm

/-- A scalar is shown exactly if it is in range. -/
theorem kept_scalar {t : ScalarType} (hf : f.Singular) (ht : f.type = .scalar t)
    (hv : t.Natural v) : Kept R pool f v := by
  obtain ⟨s, hs, hback, hatom⟩ := hv.exists_ofLua (R := R)
  intro c hc
  rw [convert_scalar hf ht, hs, Except.toOption, Option.map_some, setScalar_initial ht] at hc
  obtain rfl := Option.some.inj hc
  rw [fits_scalar hf ht]
  cases hunknown : t.unknownNumber s with
  | none =>
      rw [hunknown] at hback
      have hshown : shown R pool f (.scalar s) = s.toLua R := by
        rw [shown, if_neg fun h => Bool.noConfusion h.2, getField]
      rw [hshown, lossless_atom hv.ne_table]
      exact forall₂_congr fun n hn => by simpa using hback n hn
  | some m =>
      obtain ⟨n, rfl⟩ : ∃ n, v = .integer n := by
        by_contra hne
        rw [hatom fun n hn => hne ⟨n, hn⟩] at hunknown
        cases hunknown
      refine iff_of_false (not_lossless_unknown hf ht hs hunknown) fun h => ?_
      rw [((hback n rfl).2 (h n rfl)).1] at hunknown
      cases hunknown

/-- What fits leaves no unknown number. -/
theorem numbers_of_fits {c : Content Num Float} (hf : f.Singular) (hv : Natural pool f v)
    (hfits : Fits R pool f v) (hc : convert R pool f v = some c) : c.numbers = [] := by
  cases ht : f.type with
  | message t =>
      obtain ⟨slots, rfl⟩ := exists_message hf ht hc
      rfl
  | scalar t =>
      have hnatural : t.Natural v := by
        cases hv <;> simp_all [FieldDescriptor.Singular]
      obtain ⟨s, hs, hback, hatom⟩ := hnatural.exists_ofLua (R := R)
      have hknown : t.unknownNumber s = none := by
        by_cases hint : ∃ n, v = .integer n
        · obtain ⟨n, rfl⟩ := hint
          exact ((hback n rfl).2 ((fits_scalar hf ht).1 hfits n rfl)).1
        · exact hatom fun n hn => hint ⟨n, hn⟩
      rw [convert_scalar hf ht, hs, Except.toOption, Option.map_some, setScalar_initial ht,
        hknown] at hc
      obtain rfl := Option.some.inj hc
      rfl

/-- A field of an enum, and its list, show what they hold without the unknown numbers. -/
theorem getField_addAll {cs : List (Content Num Float)}
    (h : (∃ t, f.type = .scalar t) ∨ ∀ c ∈ cs, c.numbers = []) :
    getField R pool f ((Content.list []).addAll cs) =
      getField R pool f (.list (cs.filter (·.numbers.isEmpty))) := by
  rcases h with ⟨t, ht⟩ | h
  · rw [Content.addAll]
    cases (Content.list [] : Content Num Float).numbers ++ cs.flatMap Content.numbers with
    | nil => rfl
    | cons m ms =>
        rw [Content.withNumbers, getField_unknown ht]
        rfl
  · rw [Content.addAll_nil h, List.filter_eq_self.2 fun c hc => by rw [h c hc]; rfl]

/-- What stands at an index of a list that is short enough. -/
theorem lookup_converted {cs : List (Content Num Float)} {n : Nat}
    (hcs : ((List.range (intLen b)).mapM fun n =>
      convert R pool f.element (lookup es (indexKey n))) = some cs)
    (nodup : (es.map Prod.fst).Nodup) (hb : b < 2 ^ 31) (hn : n < b) (hv : (indexKey n, v) ∈ es) :
    ∃ c ∈ cs, convert R pool f.element v = some c ∧
      lookup (listEntries (cs.map (getField R pool f.element))) (indexKey n) =
        getField R pool f.element c := by
  have hlength : cs.length = b := by
    rw [← (LastWrite.mapM_eq_some.1 hcs).length_eq, List.length_range, intLen_of_lt hb]
  have hget := LastWrite.getElem?_mapM hcs n
  rw [List.getElem?_range (by rwa [intLen_of_lt hb]), Option.map_some,
    lookup_eq_of_mem nodup hv] at hget
  obtain ⟨c, hc, hconvert⟩ := Option.map_eq_some_iff.1 hget.symm
  exact ⟨c, List.mem_of_getElem? hc, hconvert.symm, lookup_list (hlength ▸ hb) hc⟩

/-- A list of kept elements is kept. -/
theorem kept_list (hf : f.label = .repeated) (nodup : (es.map Prod.fst).Nodup)
    (habsent : ∀ k, (k, .nil) ∉ es) (hborder : b < 2 ^ 63)
    (hindices : ∀ k v, (k, v) ∈ es → ∃ n < b, k = indexKey n)
    (hpresent : ∀ n < b, ∃ v, (indexKey n, v) ∈ es)
    (hnatural : ∀ k v, (k, v) ∈ es → Natural pool f.element v)
    (hkept : ∀ k v, (k, v) ∈ es → Kept R pool f.element v) : Kept R pool f (.table b es) := by
  intro c hc
  obtain ⟨hbound, cs, hcs, rfl⟩ := (convert_list_eq_some hf).1 hc
  have hlength : cs.length = intLen b := by
    rw [← (LastWrite.mapM_eq_some.1 hcs).length_eq, List.length_range]
  have hle : (cs.filter (·.numbers.isEmpty)).length ≤ cs.length := List.length_filter_le _ _
  have hpresentC : .absent ∉ cs := by
    intro hmem
    obtain ⟨n, -, hn⟩ := LastWrite.exists_of_mem_converted hcs hmem
    exact convert_ne_absent hn
  have hnumbers : (∃ t, f.type = .scalar t) ∨ ∀ c ∈ cs, c.numbers = [] := by
    cases ht : f.type with
    | scalar t => exact .inl ⟨t, rfl⟩
    | message t =>
        refine .inr fun c hc => ?_
        obtain ⟨n, -, hn⟩ := LastWrite.exists_of_mem_converted hcs hc
        obtain ⟨slots, rfl⟩ := exists_message f.singular_element ht hn
        rfl
  rw [shown_of_not_inOneof (by simp [FieldDescriptor.inOneof, hf]), getField_addAll hnumbers,
    getField_list (by omega) fun h => hpresentC (List.mem_filter.1 h).1,
    lossless_table nodup habsent, fits_list hf]
  simp only [get_table, get_nil]
  constructor
  · intro h
    -- The last index is there only if no element is missing.
    have hall : b ≤ (cs.filter (·.numbers.isEmpty)).length := by
      by_contra hb
      obtain ⟨v, hv⟩ := hpresent (b - 1) (by omega)
      refine (h _ v hv).1 _ rfl (lookup_eq_nil fun w hw => ?_)
      obtain ⟨m, hm, hw⟩ := mem_listEntries.1 hw
      obtain ⟨hlt, -⟩ := List.getElem?_eq_some_iff.1 hw
      have hbv := congrArg BitVec.toNat (LuaKey.integer.inj hm)
      simp only [BitVec.toNat_ofNat, List.length_map] at hbv hlt
      omega
    have hintLen := intLen_le b
    have hfilter : cs.filter (·.numbers.isEmpty) = cs :=
      List.filter_sublist.eq_of_length (by omega)
    refine ⟨by omega, fun k v hkv => ?_⟩
    obtain ⟨n, hn, rfl⟩ := hindices k v hkv
    obtain ⟨c, -, hc, hlookup⟩ := lookup_converted hcs nodup (by omega) hn hkv
    have hlossless := (h _ v hkv).2
    rw [hfilter, hlookup, ← shown_of_not_inOneof rfl] at hlossless
    exact (hkept _ v hkv c hc).1 hlossless
  · rintro ⟨hb, hfits⟩ k v hkv
    have hb' : b < 2 ^ 31 := by omega
    -- Elements that fit are no unknown numbers.
    have hfilter : cs.filter (·.numbers.isEmpty) = cs := by
      refine List.filter_eq_self.2 fun c hc => ?_
      obtain ⟨n, hn, hconvert⟩ := LastWrite.exists_of_mem_converted hcs hc
      rw [List.mem_range, intLen_of_lt hb'] at hn
      obtain ⟨v, hv⟩ := hpresent n hn
      rw [lookup_eq_of_mem nodup hv] at hconvert
      rw [numbers_of_fits f.singular_element (hnatural _ v hv) (hfits _ v hv) hconvert]
      rfl
    obtain ⟨n, hn, rfl⟩ := hindices k v hkv
    obtain ⟨c, hmem, hc, hlookup⟩ := lookup_converted hcs nodup hb' hn hkv
    rw [hfilter, hlookup]
    refine ⟨fun _ _ => getField_element_ne_nil hpresentC hmem, ?_⟩
    rw [← shown_of_not_inOneof rfl]
    exact (hkept _ v hkv c hc).2 (hfits _ v hkv)

section
variable {key : KeyType} {value : FieldDescriptor Num Float}
  {ws : List (MapKey × Content Num Float)}

/-- The map that a table makes. -/
abbrev written (ws : List (MapKey × Content Num Float)) : List (MapKey × Content Num Float) :=
  (SortedMap.writes MapKey (Content Num Float)).writeAll [] ws

/-- Each entry of the map comes from one of the table. -/
theorem exists_of_mem_written (hws : es.mapM (mapWrite R pool key value) = some ws) {k : MapKey}
    {c : Content Num Float} (hc : (k, c) ∈ written ws) : k.type = key ∧ c ≠ .absent := by
  obtain ⟨e, -, he⟩ := LastWrite.exists_of_mem_converted hws (SortedMap.mem_of_mem_writeAll hc)
  obtain ⟨hk, hv⟩ := mapWrite_eq_some.1 he
  exact ⟨MapKey.type_of_ofLua R hk, fun habsent => convert_ne_absent (habsent ▸ hv)⟩

/-- The entries that are read back are those of the map. -/
theorem mem_addEntries_written (hws : es.mapM (mapWrite R pool key value) = some ws)
    {k : LuaKey Num} : (k, v) ∈ addEntries R pool value [] (written ws) ↔ ∃ mapKey c,
      (mapKey, c) ∈ written ws ∧ k = mapKey.toLua ∧ v = getField R pool value c :=
  mem_addEntries (SortedMap.sorted_writeAll ws)
    (fun _ _ hc => (exists_of_mem_written hws hc).1)
    fun _ hc => (exists_of_mem_written hws hc).2 rfl

/-- If each key comes back, no two of them are merged, and each has its own value. -/
theorem lookup_written (hws : es.mapM (mapWrite R pool key value) = some ws)
    (nodup : (es.map Prod.fst).Nodup)
    (hback : ∀ k v, (k, v) ∈ es → ∃ mapKey, key.ofLua R k.toValue = .ok mapKey ∧ mapKey.toLua = k)
    {k : LuaKey Num} (hkv : (k, v) ∈ es) :
    ∃ c, convert R pool value v = some c ∧ c ≠ .absent ∧
      lookup (addEntries R pool value [] (written ws)) k = getField R pool value c := by
  have hagree : (SortedMap.writes MapKey (Content Num Float)).Agree ws := by
    refine agree_map (fun k₁ v₁ k₂ v₂ mapKey hkv₁ hkv₂ hk₁ hk₂ => ?_) hws
    obtain ⟨m₁, hm₁, rfl⟩ := hback k₁ v₁ hkv₁
    obtain ⟨m₂, hm₂, rfl⟩ := hback k₂ v₂ hkv₂
    obtain rfl : mapKey = m₁ := Except.ok.inj (hk₁.symm.trans hm₁)
    obtain rfl : mapKey = m₂ := Except.ok.inj (hk₂.symm.trans hm₂)
    rw [← lookup_eq_of_mem nodup hkv₁, ← lookup_eq_of_mem nodup hkv₂]
  obtain ⟨⟨mapKey, c⟩, hwmem, hw⟩ := LastWrite.exists_of_mem_mapM hws hkv
  obtain ⟨hk, hc⟩ := mapWrite_eq_some.1 hw
  obtain ⟨mapKey', hk', rfl⟩ := hback k v hkv
  obtain rfl : mapKey = mapKey' := Except.ok.inj (hk.symm.trans hk')
  have hlook := LastWrite.look_agree SortedMap.sorted_nil hagree hwmem
    (SortedMap.touch_eq_some.2 ⟨rfl, rfl⟩)
  have hmem : (mapKey, c) ∈ written ws :=
    (SortedMap.mem_iff_lookup (SortedMap.sorted_writeAll ws)).2 hlook
  exact ⟨c, hc, (exists_of_mem_written hws hmem).2,
    lookup_eq_of_mem (assigned_addEntries assigned_nil).nodup
      ((mem_addEntries_written hws).2 ⟨mapKey, c, hmem, rfl, rfl⟩)⟩

end

/-- A map of kept values is kept: a key comes back if it is in range. -/
theorem kept_map {entryName : Bytes} {key : KeyType} (hf : f.label = .map entryName key)
    (nodup : (es.map Prod.fst).Nodup) (habsent : ∀ k, (k, .nil) ∉ es)
    (hnatural : ∀ k v, (k, v) ∈ es → key.Natural k)
    (hkept : ∀ k v, (k, v) ∈ es → Kept R pool (f.value entryName) v) :
    Kept R pool f (.table b es) := by
  intro c hc
  rw [convert_map hf] at hc
  obtain ⟨m, hm, rfl⟩ := Option.map_eq_some_iff.1 hc
  obtain ⟨ws, hws, rfl⟩ := LastWrite.run_eq_some.1 hm
  have htable : getField R pool f (.map (written ws)) =
      .ofEntries (addEntries R pool (f.value entryName) [] (written ws)) := by
    rw [getField, hf]
  have hback : (∀ n v, (.integer n, v) ∈ es → key.InRange n) → ∀ k v, (k, v) ∈ es →
      ∃ mapKey, key.ofLua R k.toValue = .ok mapKey ∧ mapKey.toLua = k := by
    intro hrange k v hkv
    obtain ⟨mapKey, hk, hiff⟩ := (hnatural k v hkv).exists_ofLua (R := R)
    exact ⟨mapKey, hk, hiff.2 fun n hn => hrange n v (hn ▸ hkv)⟩
  rw [shown_of_not_inOneof (by simp [FieldDescriptor.inOneof, hf]), htable, ofEntries,
    lossless_table nodup habsent, fits_map hf]
  simp only [get_table, get_nil]
  constructor
  · -- A key out of its range comes back as another one, and is missing in the table.
    intro h
    have hrange : ∀ n v, (.integer n, v) ∈ es → key.InRange n := by
      intro n v hv
      have hassigned : Assigned (addEntries R pool (f.value entryName) [] (written ws)) :=
        assigned_addEntries assigned_nil
      rcases lookup_cases hassigned.nodup (.integer n) with hmem | ⟨-, hnil⟩
      · obtain ⟨mapKey, c, hc, htoLua, -⟩ := (mem_addEntries_written hws).1 hmem
        exact (exists_of_mem_written hws hc).1 ▸ MapKey.inRange htoLua.symm
      · exact absurd hnil ((h _ v hv).1 n rfl)
    refine ⟨hrange, fun k v hkv => ?_⟩
    obtain ⟨c, hc, -, hlookup⟩ := lookup_written hws nodup (hback hrange) hkv
    have hlossless := (h k v hkv).2
    rw [hlookup, ← shown_of_not_inOneof rfl] at hlossless
    exact (hkept k v hkv c hc).1 hlossless
  · rintro ⟨hrange, hfits⟩ k v hkv
    obtain ⟨c, hc, hne, hlookup⟩ := lookup_written hws nodup (hback hrange) hkv
    rw [hlookup]
    refine ⟨fun _ _ hnil => hne (getField_eq_nil.1 hnil).1, ?_⟩
    rw [← shown_of_not_inOneof rfl]
    exact (hkept k v hkv c hc).2 (hfits k v hkv)

section
variable {d : Descriptor Num Float} {ws : List (Option (d.Index × Content Num Float))}

omit [DecidableEq Num] in
/-- Writes leave one slot for each field. -/
theorem length_writeAll :
    (d.writes.writeAll d.empty ws).length = d.fields.length :=
  LastWrite.valid_writeAll (M := d.writes) Descriptor.length_empty ws

/-- What a later entry of the table does to a field. -/
theorem touch_of_mem {vs : List (LuaKey Num × LuaValue Num)}
    (hvs : vs.mapM (entryWrite R pool d) = some ws) {i : d.Index}
    (hi : .string (d.field i).name ∉ vs.map Prod.fst) {w : Option (d.Index × Content Num Float)}
    (hw : w ∈ ws) (p : Descriptor.Part) : d.writes.touch w (i, p) = none ∨
      p = .known ∧ d.writes.touch w (i, p) = some .absent ∧
        ∃ j v, (.string (d.field j).name, v) ∈ vs ∧ d.SameOneof j i ∧ Sets R (d.field j) v := by
  obtain ⟨⟨k, v⟩, hkv, he⟩ := LastWrite.exists_of_mem_converted hvs hw
  rcases entryWrite_eq_some he with rfl | ⟨j, c, rfl, hc, rfl⟩
  · exact .inl rfl
  · have hne : i ≠ j := by
      rintro rfl
      exact hi (List.mem_map.2 ⟨_, hkv, rfl⟩)
    by_cases ho : p = .known ∧ d.SameOneof j i ∧ c.isAbsent = false
    · obtain ⟨rfl, ho, hset⟩ := ho
      have ⟨o, hj, _⟩ := ho
      exact .inr ⟨rfl, Descriptor.touch_sameOneof hne ho hset, j, v, hkv, ho,
        (sets_iff hj hc).2 hset⟩
    · exact .inl (Descriptor.touch_eq_none.2 ⟨hne, ho⟩)

variable {us vs : List (LuaKey Num × LuaValue Num)} {i : d.Index} {c : Content Num Float}

/-- A field that no later entry clears holds what its entry has set. -/
theorem get_kept
    (hws : (us ++ (.string (d.field i).name, v) :: vs).mapM (entryWrite R pool d) = some ws)
    (hi : .string (d.field i).name ∉ vs.map Prod.fst) (hc : convert R pool (d.field i) v = some c)
    (hlast : ∀ j w, (.string (d.field j).name, w) ∈ vs → d.SameOneof j i →
      ¬ Sets R (d.field j) w) :
    d.get (d.writes.writeAll d.empty ws) i = c := by
  obtain ⟨ws₁, ws₂, -, hws₂, rfl⟩ := LastWrite.mapM_append_eq_some.1 hws
  obtain ⟨w, ws₃, hw, hws₃, rfl⟩ := LastWrite.mapM_cons_eq_some.1 hws₂
  obtain rfl : w = some (i, c) := by
    rw [entryWrite_name, hc] at hw
    exact (Option.some.inj hw).symm
  refine Descriptor.get_eq fun p => LastWrite.look_last (M := d.writes) Descriptor.length_empty
    Descriptor.touch_self fun w' hw' => ?_
  rcases touch_of_mem hws₃ hi hw' p with hnone | ⟨-, -, j, v', hj, ho, hsets⟩
  · exact hnone
  · exact absurd hsets (hlast j v' hj ho)

/-- A field that a later entry clears is absent. -/
theorem get_overwritten
    (hws : (us ++ (.string (d.field i).name, v) :: vs).mapM (entryWrite R pool d) = some ws)
    (hi : .string (d.field i).name ∉ vs.map Prod.fst) {j : d.Index} {w : LuaValue Num}
    (hj : (.string (d.field j).name, w) ∈ vs) (ho : d.SameOneof j i)
    (hsets : Sets R (d.field j) w) : (d.get (d.writes.writeAll d.empty ws) i).isAbsent = true := by
  obtain ⟨ws₁, ws₂, -, hws₂, rfl⟩ := LastWrite.mapM_append_eq_some.1 hws
  obtain ⟨w₁, ws₃, -, hws₃, rfl⟩ := LastWrite.mapM_cons_eq_some.1 hws₂
  have hsplit : d.writes.writeAll d.empty (ws₁ ++ w₁ :: ws₃) =
      d.writes.writeAll (d.writes.writeAll d.empty (ws₁ ++ [w₁])) ws₃ := by
    rw [← LastWrite.writeAll_append, List.append_assoc]
    rfl
  rw [hsplit, Content.isAbsent_iff]
  rcases LastWrite.look_cases (M := d.writes) (s := d.writes.writeAll d.empty (ws₁ ++ [w₁]))
      length_writeAll ws₃ (i, .known) with ⟨vs₁, w', vs₂, a, heq, ha, -, hlook⟩ | ⟨hnone, -⟩
  · rcases touch_of_mem hws₃ hi (w := w') (by simp [heq]) .known with h | ⟨-, h, -⟩
    · rw [h] at ha
      cases ha
    · exact hlook.trans (Option.some.inj (ha.symm.trans h))
  · obtain ⟨w', hw', he⟩ := LastWrite.exists_of_mem_mapM hws₃ hj
    rw [entryWrite_name] at he
    obtain ⟨c', hc', rfl⟩ := Option.map_eq_some_iff.1 he
    have hne : i ≠ j := by
      rintro rfl
      exact hi (List.mem_map.2 ⟨_, hj, rfl⟩)
    have ⟨o, hoj, _⟩ := ho
    have htouch := hnone _ hw'
    rw [Descriptor.touch_sameOneof hne ho ((sets_iff hoj hc').1 hsets)] at htouch
    cases htouch

omit [DecidableEq Num] in
/-- A key that occurs once does not occur again. -/
theorem key_notMem_later {k : LuaKey Num} (nodup : ((us ++ (k, v) :: vs).map Prod.fst).Nodup) :
    k ∉ vs.map Prod.fst := by
  rw [List.map_append, List.map_cons] at nodup
  exact (List.nodup_cons.1 (List.nodup_append.1 nodup).2.1).1

variable (hws : (us ++ (.string (d.field i).name, v) :: vs).mapM (entryWrite R pool d) = some ws)
  (nodup : ((us ++ (.string (d.field i).name, v) :: vs).map Prod.fst).Nodup)

include hws nodup

/-- An entry that nothing clears later is shown exactly if it fits. -/
theorem lossless_kept (hkept : Kept R pool (d.field i) v)
    (hlast : ∀ j w, (.string (d.field j).name, w) ∈ vs → d.SameOneof j i →
      ¬ Sets R (d.field j) w) :
    Lossless v (lookup (toEntries R pool d (d.writes.writeAll d.empty ws))
      (.string (d.field i).name)) ↔ Fits R pool (d.field i) v := by
  obtain ⟨w, -, hw⟩ := LastWrite.exists_of_mem_mapM hws (e := (.string (d.field i).name, v))
    (by simp)
  rw [entryWrite_name] at hw
  obtain ⟨c, hc, -⟩ := Option.map_eq_some_iff.1 hw
  rw [lookup_toEntries length_writeAll, get_kept hws (key_notMem_later nodup) hc hlast]
  exact hkept c hc

/-- A member of a oneof is not shown once a later one is set. -/
theorem lookup_overwritten {j : d.Index} {w : LuaValue Num}
    (hj : (.string (d.field j).name, w) ∈ vs) (ho : d.SameOneof j i)
    (hsets : Sets R (d.field j) w) :
    lookup (toEntries R pool d (d.writes.writeAll d.empty ws))
      (.string (d.field i).name) = .nil := by
  have hin : (d.field i).inOneof = true := by
    obtain ⟨o, -, hlabel⟩ := ho
    simp [FieldDescriptor.inOneof, hlabel]
  rw [lookup_toEntries length_writeAll,
    if_pos ⟨hin, get_overwritten hws (key_notMem_later nodup) hj ho hsets⟩]

end

/-- A message of kept fields is kept. -/
theorem kept_message {t : Nat} (hf : f.Singular) (ht : f.type = .message t)
    (nodup : (es.map Prod.fst).Nodup) (habsent : ∀ k, (k, .nil) ∉ es)
    (hnamed : ∀ s v, (.string s, v) ∈ es → ((pool.descriptor t).findFieldByName s).isSome)
    (hkept : ∀ i v, (.string ((pool.descriptor t).field i).name, v) ∈ es →
      Kept R pool ((pool.descriptor t).field i) v) : Kept R pool f (.table b es) := by
  have hname : ∀ s v, (.string s, v) ∈ es → ∃ i, s = ((pool.descriptor t).field i).name := by
    intro s v hsv
    obtain ⟨i, hi⟩ := Option.isSome_iff_exists.1 (hnamed s v hsv)
    exact ⟨i, (Descriptor.findFieldByName_eq_some.1 hi).symm⟩
  intro c hc
  rw [convert_message hf ht nodup] at hc
  obtain ⟨slots, hslots, rfl⟩ := Option.map_eq_some_iff.1 hc
  obtain ⟨ws, hws, rfl⟩ := LastWrite.run_eq_some.1 hslots
  have hshown : shown R pool f (.message
      ((pool.descriptor t).writes.writeAll (pool.descriptor t).empty ws)) =
        toTbl R pool (pool.descriptor t)
          ((pool.descriptor t).writes.writeAll (pool.descriptor t).empty ws) := by
    rw [shown, if_neg fun h => Bool.noConfusion h.2, getField_message ht]
  have hskipped : ∀ k : LuaKey Num, (∀ s, k ≠ .string s) →
      lookup (toEntries R pool (pool.descriptor t)
        ((pool.descriptor t).writes.writeAll (pool.descriptor t).empty ws)) k = .nil :=
    fun k hk => lookup_toEntries_of_ne fun i => hk _
  rw [hshown, toTbl, ofEntries, lossless_table nodup habsent, fits_message hf ht]
  simp only [get_table, get_nil]
  constructor
  · -- A value is read at its name, unless a later member of its oneof takes it away.
    intro h
    refine ⟨?_, ?_, fun k v hkv hk => ?_⟩
    · rintro us i v vs rfl hlast
      exact (lossless_kept hws nodup (hkept i v (by simp)) hlast).1 (h _ v (by simp)).2
    · rintro us i v vs j w rfl hj ho hsets
      have hlost := (h (.string ((pool.descriptor t).field i).name) v (by simp)).2
      rwa [lookup_overwritten hws nodup hj ho hsets, lossless_nil] at hlost
    · have hlost := h k v hkv
      rw [hskipped k hk, lossless_nil] at hlost
      exact ⟨fun n hn => hlost.1 n hn rfl, hlost.2⟩
  · rintro ⟨hkeptFits, hoverwritten, hskippedFits⟩ k v hkv
    by_cases hk : ∃ s, k = .string s
    · obtain ⟨s, rfl⟩ := hk
      obtain ⟨i, rfl⟩ := hname s v hkv
      refine ⟨fun n hn => (by cases hn), ?_⟩
      obtain ⟨us, vs, rfl⟩ := List.append_of_mem hkv
      by_cases hlast : ∃ j w, (.string ((pool.descriptor t).field j).name, w) ∈ vs ∧
          (pool.descriptor t).SameOneof j i ∧ Sets R ((pool.descriptor t).field j) w
      · obtain ⟨j, w, hj, ho, hsets⟩ := hlast
        rw [lookup_overwritten hws nodup hj ho hsets, lossless_nil]
        exact hoverwritten us i v vs j w rfl hj ho hsets
      · have hlast : ∀ j w, (.string ((pool.descriptor t).field j).name, w) ∈ vs →
            (pool.descriptor t).SameOneof j i → ¬ Sets R ((pool.descriptor t).field j) w :=
          fun j w hj ho hsets => hlast ⟨j, w, hj, ho, hsets⟩
        exact (lossless_kept hws nodup (hkept i v hkv) hlast).2 (hkeptFits us i v vs rfl hlast)
    · have hk : ∀ s, k ≠ .string s := fun s hs => hk ⟨s, hs⟩
      obtain ⟨hint, hnone⟩ := hskippedFits k v hkv hk
      rw [hskipped k hk, lossless_nil]
      exact ⟨fun n hn => absurd hn (hint n), hnone⟩

/-- A natural value that is taken keeps its integers exactly if it fits. -/
theorem Natural.kept (hv : Natural pool f v) (hp : v.Proper) : Kept R pool f v := by
  induction hv with
  | scalar hf ht h => exact kept_scalar hf ht h
  | message hf ht named _ ih =>
      cases hp with
      | atom h => exact absurd rfl (h _ _)
      | entries nodup present values =>
          exact kept_message hf ht nodup present named fun i v hiv => ih i v hiv (values _ v hiv)
  | list hf border indices present elements ih =>
      cases hp with
      | atom h => exact absurd rfl (h _ _)
      | entries nodup absent values =>
          exact kept_list hf nodup absent border indices present elements fun k v hkv =>
            ih k v hkv (values k v hkv)
  | map hf keys _ ih =>
      cases hp with
      | atom h => exact absurd rfl (h _ _)
      | entries nodup absent values =>
          exact kept_map hf nodup absent keys fun k v hkv => ih k v hkv (values k v hkv)

end GrpcLua.Pb
