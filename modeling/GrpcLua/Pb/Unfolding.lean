import GrpcLua.Pb.Heap

/-!
# Pb — Unfolding

The trees that the other modules take for tables.  A table of the heap that unfolds to a tree, its
tables shared or not, is encoded as the tree is (`encode_unfolds`).
-/

namespace GrpcLua.Pb.HeapSetter
open Recursion MessageSetter

variable {Num Float : Type} {n : Nat} [DecidableEq Num]
variable {R : Runtime Num Float} {pool : Pool Num Float} {heap : Heap Num n}

omit [DecidableEq Num] in
/-- The tree is what is found by following the references of the value. -/
inductive Unfolds (heap : Heap Num n) : HeapValue Num n → LuaValue Num → Prop
  | atom {v : HeapValue Num n} (h : ∀ a, v ≠ .table a) : Unfolds heap v v.shallow
  | table {a : Fin n} {es : List (LuaKey Num × LuaValue Num)}
      (keys : es.map Prod.fst = (heap a).entries.map Prod.fst)
      (values : List.Forall₂ (Unfolds heap) ((heap a).entries.map Prod.snd) (es.map Prod.snd)) :
      Unfolds heap (.table a) (.table (heap a).border es)

/-! ### Results -/

/-- The code ends, with what `o` says; or with an error, where that is nothing. -/
def Yields (R : Runtime Num Float) (pool : Pool Num Float) (heap : Heap Num n) {α : Type}
    (c : Setter Num Float n α) (o : Option α) : Prop :=
  ∃ m x, c.eval (run (body R pool heap) m) = some x ∧ x.toOption = o

section yields
variable {α β : Type}

/-- A result yields itself. -/
theorem Yields.pure (a : α) : Yields R pool heap (pure a) (some a) := ⟨0, .ok a, rfl, rfl⟩

/-- So does an error. -/
theorem Yields.ofExcept (x : Except Error α) : Yields R pool heap (.ofExcept x) x.toOption :=
  ⟨0, x, Code.eval_ofExcept x, rfl⟩

/-- Two programs in sequence yield the two results in sequence. -/
theorem Yields.bind {c : Setter Num Float n α} {o : Option α} {h : α → Setter Num Float n β}
    {p : α → Option β} (hc : Yields R pool heap c o) (hh : ∀ a, Yields R pool heap (h a) (p a)) :
    Yields R pool heap (c >>= h) (o.bind p) := by
  obtain ⟨m, x, hx, rfl⟩ := hc
  cases x with
  | error e => exact ⟨m, .error e, by rw [Code.eval_bind, hx]; rfl, rfl⟩
  | ok a =>
      obtain ⟨m', y, hy, hp⟩ := hh a
      refine ⟨max m m', y, ?_, hp⟩
      rw [Code.eval_bind, Code.eval_mono (fun _ _ => run_mono (Nat.le_max_left m m')) hx]
      exact Code.eval_mono (fun _ _ => run_mono (Nat.le_max_right m m')) hy

/-- What is made of a result. -/
theorem Yields.map {c : Setter Num Float n α} {o : Option α} (hc : Yields R pool heap c o)
    (g : α → β) : Yields R pool heap (c >>= fun a => Pure.pure (g a)) (o.map g) := by
  rw [Option.map_eq_bind]
  exact hc.bind fun a => .pure (g a)

end yields

/-! ### Fields -/

section fields
variable {f : FieldDescriptor Num Float} {v : HeapValue Num n} {w : LuaValue Num}

omit [DecidableEq Num] in
/-- An unfolded table has no key twice. -/
theorem Unfolds.nodup {a : Fin n} {b : Nat} {es : List (LuaKey Num × LuaValue Num)}
    (h : Unfolds heap (.table a) (.table b es)) : (es.map Prod.fst).Nodup := by
  cases h with
  | atom h => exact absurd rfl (h a)
  | table keys values =>
      rw [keys]
      exact (heap a).nodup

/-! A value that is no table. -/

omit [DecidableEq Num] in
/-- A value that is no table is none at the top. -/
theorem shallow_ne_table (hv : ∀ a, v ≠ .table a) (b : Nat)
    (es : List (LuaKey Num × LuaValue Num)) :
    v.shallow ≠ .table b es := by
  cases v with
  | table a => exact absurd rfl (hv a)
  | _ => nofun

omit [DecidableEq Num] in
/-- What is not a table is set alike in both models. -/
theorem setSingular_atom (hv : ∀ a, v ≠ .table a) :
    (setSingular R f v : Setter Num Float n _) = .ofExcept (setAtom R f f.initial v.shallow) := by
  unfold setSingular
  split
  case h_1 a _ => exact absurd rfl (hv a)
  case h_2 => rfl

/-- What is not a table is set alike in both models. -/
theorem setContent_atom (hv : ∀ a, v ≠ .table a) :
    setContent R heap f v = .ofExcept (setAtom R f f.initial v.shallow) := by
  unfold setContent
  split
  case h_1 b _ => exact absurd rfl (hv b)
  case h_2 b _ => exact absurd rfl (hv b)
  case h_3 => exact setSingular_atom hv

/-- The value is the tree, and `SetMsg()` makes of it what it makes of the tree. -/
structure Matches (R : Runtime Num Float) (pool : Pool Num Float) (heap : Heap Num n)
    (v : HeapValue Num n) (w : LuaValue Num) : Prop where
  unfolds : Unfolds heap v w
  calls : ∀ t a, v = .table a → Yields R pool heap (Code.callOnce (t, a))
    (setMsg R pool (pool.descriptor t) (pool.descriptor t).empty w).toOption

/-- A singular field becomes the same in both models. -/
theorem setSingular_yields (hf : f.Singular) (h : Matches R pool heap v w) :
    Yields R pool heap (setSingular R f v) (convert R pool f w) := by
  obtain ⟨hu, hcalls⟩ := h
  cases hu with
  | atom hv =>
      rw [setSingular_atom hv, convert_atom (shallow_ne_table hv)]
      exact .ofExcept _
  | @table a es keys values =>
      cases ht : f.type with
      | scalar t =>
          have hatom : setSingular R f (.table a : HeapValue Num n) =
              .ofExcept ((t.ofLua R (.table 0 [])).map (f.setScalar f.initial)) := by
            rw [← setAtom_scalar hf ht]
            simp only [setSingular, ht]
            rfl
          rw [hatom, convert_scalar hf ht, ofLua_table t (heap a).border 0 es [], ← toOption_map]
          exact .ofExcept _
      | message t =>
          have hnodup : (es.map Prod.fst).Nodup := keys ▸ (heap a).nodup
          have hroot : convert R pool f (.table (heap a).border es) =
              convert R pool (pool.root t) (.table (heap a).border es) :=
            (convert_message hf ht hnodup).trans
              (convert_message (pool.singular_root t) rfl hnodup).symm
          rw [hroot, convert_root]
          simp only [setSingular, ht]
          exact (hcalls t a rfl).map Content.message

/-- The loop of `SetRepeatedField()`. -/
theorem addElements_yields (hf : f.Singular) {vs : List (HeapValue Num n)}
    {ws : List (LuaValue Num)}
    (h : List.Forall₂ (Matches R pool heap) vs ws) :
    Yields R pool heap (addElements R f vs) (ws.mapM (convert R pool f)) := by
  induction h with
  | nil => exact .pure []
  | cons h _ ih =>
      rw [List.mapM_cons]
      exact (setSingular_yields hf h).bind fun c => ih.bind fun cs => .pure (c :: cs)

/-- An entry of the table is one of the tree, under the same key. -/
def MatchesEntry (R : Runtime Num Float) (pool : Pool Num Float) (heap : Heap Num n)
    (e : LuaKey Num × HeapValue Num n) (e' : LuaKey Num × LuaValue Num) : Prop :=
  e.1 = e'.1 ∧ Matches R pool heap e.2 e'.2

/-- The loop of `SetRepeatedMapField()`. -/
theorem addEntries_yields (hf : f.Singular) {key : KeyType}
    {es : List (LuaKey Num × HeapValue Num n)}
    {es' : List (LuaKey Num × LuaValue Num)} (h : List.Forall₂ (MatchesEntry R pool heap) es es')
    (entries : List (MapKey × Content Num Float)) :
    Yields R pool heap (addEntries R key f entries es)
      ((SortedMap.writes MapKey (Content Num Float)).run (mapWrite R pool key f) entries es') := by
  induction h generalizing entries with
  | nil => exact .pure entries
  | @cons e e' es es' h _ ih =>
      obtain ⟨k, v⟩ := e
      obtain ⟨k', w⟩ := e'
      obtain ⟨rfl, h⟩ : k = k' ∧ Matches R pool heap v w := h
      rw [LastWrite.run_cons]
      have hwrite : mapWrite R pool key f (k, w) =
          (key.ofLua R k.toValue).toOption.bind fun mapKey =>
            (convert R pool f w).bind fun c => some (mapKey, c) := rfl
      rw [hwrite, Option.bind_assoc]
      refine (Yields.ofExcept _).bind fun mapKey => ?_
      rw [Option.bind_assoc]
      exact (setSingular_yields hf h).bind fun c => ih _

end fields

/-! ### Tables -/

section tables
variable {a : Fin n} {es : List (LuaKey Num × LuaValue Num)} {v : HeapValue Num n}
  {w : LuaValue Num}

/-- What unfolds to the tree matches it. -/
def Matched (R : Runtime Num Float) (pool : Pool Num Float) (heap : Heap Num n)
    (w : LuaValue Num) : Prop :=
  ∀ v, Unfolds heap v w → Matches R pool heap v w

/-- The entries of an unfolded table match, one by one. -/
theorem matchesEntries {es : List (LuaKey Num × HeapValue Num n)}
    {es' : List (LuaKey Num × LuaValue Num)} (keys : es'.map Prod.fst = es.map Prod.fst)
    (values : List.Forall₂ (Unfolds heap) (es.map Prod.snd) (es'.map Prod.snd))
    (h : ∀ k w, (k, w) ∈ es' → Matched R pool heap w) :
    List.Forall₂ (MatchesEntry R pool heap) es es' := by
  induction es generalizing es' with
  | nil =>
      obtain rfl : es' = [] := List.map_eq_nil_iff.1 keys
      exact .nil
  | cons e es ih =>
      cases es' with
      | nil => cases keys
      | cons e' es' =>
          obtain ⟨hkey, keys⟩ := List.cons.inj keys
          cases values with
          | cons hu values =>
              exact .cons ⟨hkey.symm, h e'.1 e'.2 List.mem_cons_self _ hu⟩
                (ih keys values fun k w hw => h k w (List.mem_cons_of_mem _ hw))

/-- A nil matches itself. -/
theorem matches_nil : Matches R pool heap .nil .nil := ⟨.atom nofun, nofun⟩

/-- What is found under a key matches. -/
theorem matches_lookup {es : List (LuaKey Num × HeapValue Num n)}
    {es' : List (LuaKey Num × LuaValue Num)} (h : List.Forall₂ (MatchesEntry R pool heap) es es')
    (k : LuaKey Num) :
    Matches R pool heap ((es.lookup k).getD .nil) (LuaValue.lookup es' k) := by
  induction h with
  | nil => exact matches_nil
  | @cons e e' es es' h _ ih =>
      obtain ⟨k₁, v⟩ := e
      obtain ⟨k₂, w⟩ := e'
      obtain ⟨rfl, h⟩ : k₁ = k₂ ∧ Matches R pool heap v w := h
      rw [LuaValue.lookup_cons, List.lookup_cons]
      by_cases hk : k = k₁
      · simpa [hk] using h
      · rw [beq_eq_false_iff_ne.2 hk, if_neg hk]
        exact ih

/-- The elements of the list part match. -/
theorem matches_elements (h : List.Forall₂ (MatchesEntry R pool heap) (heap a).entries es) :
    List.Forall₂ (Matches R pool heap) (heap a).elements
      ((List.range (intLen (heap a).border)).map fun m => LuaValue.lookup es (indexKey m)) := by
  unfold HeapTable.elements
  rw [List.forall₂_map_left_iff, List.forall₂_map_right_iff, List.forall₂_same]
  exact fun m _ => matches_lookup h (indexKey m)

/-- `SetField()`. -/
theorem setContent_yields {f : FieldDescriptor Num Float} (h : Matches R pool heap v w)
    (inner : ∀ b es, w = .table b es → ∀ k w, (k, w) ∈ es → Matched R pool heap w) :
    Yields R pool heap (setContent R heap f v) (convert R pool f w) := by
  by_cases hf : f.Singular
  · rw [setContent_singular hf]
    exact setSingular_yields hf h
  cases h.unfolds with
  | atom hv =>
      rw [setContent_atom hv, convert_atom (shallow_ne_table hv)]
      exact .ofExcept _
  | @table a es keys values =>
      have hentries := matchesEntries keys values (inner _ es rfl)
      rcases f.kinds with hl | ⟨entryName, key, hl⟩ | ⟨hs, -⟩ | ⟨hs, -⟩
      · rw [convert_list hl]
        have hadded := addElements_yields f.singular_element (matches_elements hentries)
        rw [List.mapM_map] at hadded
        simp only [setContent, hl]
        refine hadded.bind fun cs => ?_
        split_ifs
        · exact .pure _
        · exact .ofExcept (.error _)
      · rw [convert_map hl]
        simp only [setContent, hl]
        exact (addEntries_yields (f.singular_value entryName) hentries []).map Content.map
      · exact absurd hs hf
      · exact absurd hs hf

/-- The loop of `SetMsg()`. -/
theorem setEntries_yields {d : Descriptor Num Float} {es : List (LuaKey Num × HeapValue Num n)}
    {es' : List (LuaKey Num × LuaValue Num)} (h : List.Forall₂ (MatchesEntry R pool heap) es es')
    (inner : ∀ k w, (k, w) ∈ es' → ∀ b fs, w = .table b fs → ∀ k w, (k, w) ∈ fs →
      Matched R pool heap w) (slots : List (Content Num Float)) :
    Yields R pool heap (setEntries R heap d slots es)
      (d.writes.run (entryWrite R pool d) slots es') := by
  induction h generalizing slots with
  | nil => exact .pure slots
  | @cons e e' es es' he _ ih =>
      have hrest := ih fun k w hw => inner k w (List.mem_cons_of_mem _ hw)
      obtain ⟨k, v⟩ := e
      obtain ⟨k', w⟩ := e'
      obtain ⟨rfl, he⟩ : k = k' ∧ Matches R pool heap v w := he
      rw [LastWrite.run_cons]
      cases k with
      | string sField =>
          rw [entryWrite_string]
          simp only [setEntries]
          cases d.findFieldByName sField with
          | none => exact .ofExcept (.error _)
          | some i =>
              have hset := setContent_yields (f := d.field i) he (inner _ w List.mem_cons_self)
              rw [Option.bind_some, Option.bind_map]
              exact hset.bind fun c => hrest _
      | _ => exact hrest slots

/-- What unfolds to a tree matches it. -/
theorem matched (w : LuaValue Num) : Matched R pool heap w := by
  -- Of the values in a table, those that are lists or maps lead to what is in them.
  suffices h : Matched R pool heap w ∧
      ∀ b es, w = .table b es → ∀ k w, (k, w) ∈ es → Matched R pool heap w from h.1
  induction w using LuaValue.induction with
  | atom w hw =>
      refine ⟨fun v hu => ?_, fun b es hes => absurd hes (hw b es)⟩
      cases hu with
      | atom hv => exact ⟨.atom hv, fun t a ha => absurd ha (hv a)⟩
      | table => exact absurd rfl (hw _ _)
  | table b es ih =>
      refine ⟨fun v hu => ⟨hu, ?_⟩, ?_⟩
      · rintro t a rfl
        have hnodup := hu.nodup
        cases hu with
        | atom hv => exact absurd rfl (hv a)
        | table keys values =>
            have hentries := matchesEntries keys values fun k w hw => (ih k w hw).1
            have hbody := setEntries_yields (d := pool.descriptor t) hentries
              (fun k w hw => (ih k w hw).2) (pool.descriptor t).empty
            obtain ⟨m, x, hx, ho⟩ := hbody
            refine ⟨m + 1, x, (Code.eval_callOnce _).trans hx, ho.trans ?_⟩
            exact (setEntries_toOption hnodup untouched_empty).symm
      · intro b' es' hes k w hw
        cases hes
        exact (ih k w hw).1

/-- The whole of `Encode` yields the same in both models. -/
theorem encode_yields (codec : Codec Num Float) (sMsgTypeName : Bytes) (h : Unfolds heap v w) :
    Yields R pool heap (encode pool codec sMsgTypeName v)
      (Pb.encode R pool codec sMsgTypeName w).toOption := by
  have hmatches : Matches R pool heap v w := matched w v h
  cases h with
  | atom hv =>
      have hcheck : checkTable v.shallow = .error (LuaValue.typeError "table" v.shallow) := by
        cases v with
        | table a => exact absurd rfl (hv a)
        | _ => rfl
      simp only [encode, Pb.encode, hcheck]
      exact .ofExcept (.error _)
  | @table a es keys values =>
      simp only [encode, Pb.encode, toOption_bind]
      refine (Yields.ofExcept _).bind fun _ => (Yields.ofExcept _).bind fun type => ?_
      exact (hmatches.calls type a rfl).bind fun slots => .pure _

/-- **Unfolding.**  `Encode()` ends for every value that unfolds to a tree, with the string that it
makes of the tree, or with an error where it does so of the tree. -/
theorem encode_unfolds (codec : Codec Num Float) (sMsgTypeName : Bytes) (h : Unfolds heap v w) :
    ∃ x, EncodeReturns R pool heap codec sMsgTypeName v x ∧
      x.toOption = (Pb.encode R pool codec sMsgTypeName w).toOption := by
  obtain ⟨m, x, hx, ho⟩ := encode_yields codec sMsgTypeName h
  exact ⟨x, ⟨m, hx⟩, ho⟩

/-- A box of two boxes, which are one empty table. -/
def sharedBox : Heap Int 3
  | 0 => ⟨0, [(.string (str "boxes"), .table 1)], by simp⟩
  | 1 => ⟨2, [(.integer 1, .table 2), (.integer 2, .table 2)], by simp⟩
  | 2 => ⟨0, [], by simp⟩

/-- The wire format of the box of boxes 1 and 2. -/
def boxCodec : Codec Int Int where
  serializeAsString _
    | [.map [(.int32 1, .message [.map []]), (.int32 2, .message [.map []])]] =>
        [10, 4, 8, 1, 18, 0, 10, 4, 8, 2, 18, 0]
    | _ => []
  parseFromString _
    | [10, 4, 8, 1, 18, 0, 10, 4, 8, 2, 18, 0] =>
        some [.map [(.int32 1, .message [.map []]), (.int32 2, .message [.map []])]]
    | [] => some [.map []]
    | _ => none
  Carries _ slots :=
    slots = [.map [(.int32 1, .message [.map []]), (.int32 2, .message [.map []])]] ∨
      slots = [.map []]
  parse_serialize := by
    rintro type slots (rfl | rfl) <;> rfl

theorem encode_unfolds_sharedBox :
    ∃ x, EncodeReturns Runtime.integers MsgToTbl.boxPool sharedBox boxCodec (str "Box")
        (.table 0) x ∧
      x.toOption = (Pb.encode Runtime.integers MsgToTbl.boxPool boxCodec (str "Box")
        (.table 0 [(.string (str "boxes"),
          .table 2 [(.integer 1, .table 0 []), (.integer 2, .table 0 [])])])).toOption :=
  encode_unfolds boxCodec (str "Box")
    (.table rfl (.cons (.table rfl (.cons (.table rfl .nil) (.cons (.table rfl .nil) .nil))) .nil))

end tables

end GrpcLua.Pb.HeapSetter
