import GrpcLua.Pb.Descriptor

/-!
# Pb — MsgToTbl

`MsgToTbl` of `pb/MsgToTbl.cpp`: a Lua table is made of a message.

A table is built by assignments, and an assignment of nil leaves no entry: an absent message has
none in the table of its message (`mem_toEntries`), and takes away what an earlier entry of a map
has put there (`lookup_addEntries`).
-/

namespace GrpcLua.Pb
open Pb.LuaValue

variable {Num Float : Type} [DecidableEq Num]

/-- `containing_oneof()`. -/
def FieldDescriptor.inOneof (f : FieldDescriptor Num Float) : Bool :=
  match f.label with
  | .oneof _ => true
  | _ => false

namespace MsgToTbl

section
variable (R : Runtime Num Float) (pool : Pool Num Float)

mutual

/-- `GetField()`, with `GetRepeatedField()` and `GetRepeatedFieldElement()`. -/
def getField (f : FieldDescriptor Num Float) : Content Num Float → LuaValue Num
  | .absent =>
      match f.type with
      | .scalar _ => f.defaultValue.toLua R
      | .message _ => .nil  -- For message field, the default value is null.
  | .scalar s => s.toLua R
  | .message slots =>
      match f.type with
      | .message t =>
          let fields := (pool.descriptor t).fields
          .ofEntries (addFields true fields (addFields false fields [] slots) slots)
      | .scalar _ => .ofEntries []
  | .list cs => .ofEntries (addElements f.element 0 [] cs)
  | .map es =>
      match f.label with
      | .map entryName _ => .ofEntries (addEntries (f.value entryName) [] es)
      | _ => .ofEntries []
  | .unknown c _ =>
      match f.type with
      | .scalar _ => getField f c
      | .message _ => .ofEntries []  -- Only a field of an enum has unknown numbers.

/-- The loops of `ToTbl()`: over the fields outside of oneofs, and over the members that are set. -/
def addFields (oneofs : Bool) : List (FieldDescriptor Num Float) →
    List (LuaKey Num × LuaValue Num) → List (Content Num Float) →
    List (LuaKey Num × LuaValue Num)
  | _, tbl, [] => tbl
  | [], tbl, _ :: _ => tbl
  | f :: fs, tbl, c :: cs =>
      if f.inOneof = oneofs ∧ ¬ (oneofs ∧ c.isAbsent) then
        addFields oneofs fs (assign tbl (.string f.name) (getField f c)) cs
      else addFields oneofs fs tbl cs

/-- The loop of `GetRepeatedField()` over the elements from `n`. -/
def addElements (f : FieldDescriptor Num Float) (n : Nat) (tbl : List (LuaKey Num × LuaValue Num)) :
    List (Content Num Float) → List (LuaKey Num × LuaValue Num)
  | [] => tbl
  | c :: cs => addElements f (n + 1) (assign tbl (indexKey n) (getField f c)) cs

/-- The loop of `GetRepeatedField()` over the entries of a map. -/
def addEntries (value : FieldDescriptor Num Float) (tbl : List (LuaKey Num × LuaValue Num)) :
    List (MapKey × Content Num Float) → List (LuaKey Num × LuaValue Num)
  | [] => tbl
  | (k, c) :: es => addEntries value (assign tbl k.toLua (getField value c)) es

end

/-- The entries of the table of a message. -/
def toEntries (d : Descriptor Num Float) (slots : List (Content Num Float)) :
    List (LuaKey Num × LuaValue Num) :=
  addFields R pool true d.fields (addFields R pool false d.fields [] slots) slots

/-- `ToTbl()`. -/
def toTbl (d : Descriptor Num Float) (slots : List (Content Num Float)) : LuaValue Num :=
  .ofEntries (toEntries R pool d slots)

variable {R pool}
variable {f : FieldDescriptor Num Float} {c : Content Num Float}
  {tbl : List (LuaKey Num × LuaValue Num)} {k : LuaKey Num} {v : LuaValue Num}

/-- A message is shown as its table. -/
theorem getField_message {t : Nat} {slots : List (Content Num Float)} (ht : f.type = .message t) :
    getField R pool f (.message slots) = toTbl R pool (pool.descriptor t) slots := by
  rw [getField, ht]
  rfl

/-- Unknown numbers are not shown. -/
theorem getField_unknown {t : ScalarType} {ns : List (BitVec 32)} (ht : f.type = .scalar t) :
    getField R pool f (.unknown c ns) = getField R pool f c := by rw [getField, ht]

omit [DecidableEq Num] in
/-- No scalar is shown as nil. -/
theorem toLua_ne_nil (s : Scalar Num Float) : s.toLua R ≠ .nil := by
  cases s with
  | ofKey k => cases k <;> simp [Scalar.toLua, MapKey.toLua, LuaKey.toValue]
  | _ => simp [Scalar.toLua]

/-- A scalar field always has a value. -/
theorem getField_ne_nil {t : ScalarType} (ht : f.type = .scalar t) :
    ∀ c, getField R pool f c ≠ .nil
  | .absent => by simp [getField, ht, toLua_ne_nil]
  | .scalar s => by simp [getField, toLua_ne_nil]
  | .message slots => by simp [getField, ht, ofEntries]
  | .list cs => by simp [getField, ofEntries]
  | .map es => by cases hl : f.label <;> simp [getField, hl, ofEntries]
  | .unknown c ns => by
      rw [getField_unknown ht]
      exact getField_ne_nil ht c

/-- Only a message that is absent is nil. -/
theorem getField_eq_nil :
    getField R pool f c = .nil ↔ c = .absent ∧ ∃ t, f.type = .message t := by
  cases ht : f.type with
  | scalar t => simp [getField_ne_nil ht]
  | message t =>
      cases c with
      | map es => cases hl : f.label <;> simp [getField, hl, ofEntries]
      | _ => simp [getField, ht, toLua_ne_nil, ofEntries]

/-! ### The table of a message -/

section
variable {oneofs : Bool} {fs : List (FieldDescriptor Num Float)} {cs : List (Content Num Float)}

/-- The pass over the fields that assigns this one. -/
abbrev Passes (oneofs : Bool) (f : FieldDescriptor Num Float) (c : Content Num Float) : Prop :=
  f.inOneof = oneofs ∧ ¬ (oneofs ∧ c.isAbsent)

/-- The fields are assigned one after the other. -/
theorem assigned_addFields (h : Assigned tbl) : Assigned (addFields R pool oneofs fs tbl cs) := by
  induction cs generalizing fs tbl with
  | nil => rwa [addFields]
  | cons c cs ih =>
      cases fs with
      | nil => rwa [addFields]
      | cons f fs =>
          rw [addFields]
          split_ifs
          · exact ih (h.assign _ _)
          · exact ih h

/-- A key that names no field shown is left as it was. -/
theorem lookup_addFields_of_ne (h : Assigned tbl)
    (hk : ∀ f c, (f, c) ∈ fs.zip cs → Passes oneofs f c → k ≠ .string f.name) :
    lookup (addFields R pool oneofs fs tbl cs) k = lookup tbl k := by
  induction cs generalizing fs tbl with
  | nil => rw [addFields]
  | cons c cs ih =>
      cases fs with
      | nil => rw [addFields]
      | cons f fs =>
          have htail : ∀ f c, (f, c) ∈ fs.zip cs → Passes oneofs f c → k ≠ .string f.name :=
            fun f c hfc => hk f c (List.mem_cons_of_mem _ hfc)
          rw [addFields]
          split_ifs with hpass
          · rw [ih (h.assign _ _) htail, lookup_assign h.nodup,
              if_neg (hk f c List.mem_cons_self hpass)]
          · exact ih h htail

/-- A field that is shown stands under its name. -/
theorem lookup_addFields (h : Assigned tbl) (nodup : (fs.map FieldDescriptor.name).Nodup)
    (hfc : (f, c) ∈ fs.zip cs) (hpass : Passes oneofs f c) :
    lookup (addFields R pool oneofs fs tbl cs) (.string f.name) = getField R pool f c := by
  induction cs generalizing fs tbl with
  | nil => simp at hfc
  | cons c' cs ih =>
      cases fs with
      | nil => simp at hfc
      | cons f' fs =>
          obtain ⟨hname, nodup⟩ := List.nodup_cons.1 nodup
          rw [addFields]
          rcases List.mem_cons.1 hfc with heq | hfc
          · obtain ⟨rfl, rfl⟩ := Prod.mk.inj heq
            rw [if_pos hpass, lookup_addFields_of_ne (h.assign _ _), lookup_assign h.nodup,
              if_pos rfl]
            intro g c' hg _ hgname
            exact hname (List.mem_map.2 ⟨g, (List.of_mem_zip hg).1,
              (LuaKey.string.inj hgname).symm⟩)
          · split_ifs
            · exact ih (h.assign _ _) nodup hfc
            · exact ih h nodup hfc

end

section
variable {d : Descriptor Num Float} {slots : List (Content Num Float)}

/-- The table of a message is assigned from scratch. -/
theorem assigned_toEntries : Assigned (toEntries R pool d slots) :=
  assigned_addFields (assigned_addFields assigned_nil)

omit [DecidableEq Num] in
/-- Every field has its slot. -/
theorem mem_zip (hlen : slots.length = d.fields.length) (i : d.Index) :
    (d.field i, d.get slots i) ∈ d.fields.zip slots := by
  refine List.mem_iff_getElem.2 ⟨i, by simp [hlen], ?_⟩
  simp [Descriptor.field, Descriptor.get, List.getD_eq_getElem?_getD, hlen]

omit [DecidableEq Num] in
/-- Every slot is that of a field. -/
theorem exists_index_of_mem_zip {f : FieldDescriptor Num Float}
    (h : (f, c) ∈ d.fields.zip slots) : ∃ i : d.Index, f = d.field i ∧ c = d.get slots i := by
  obtain ⟨n, hn, heq⟩ := List.mem_iff_getElem.1 h
  obtain ⟨hf, hs⟩ : n < d.fields.length ∧ n < slots.length := by simpa using hn
  obtain ⟨rfl, rfl⟩ : d.fields[n] = f ∧ slots[n] = c := by simpa using heq
  exact ⟨⟨n, hf⟩, rfl, by simp [Descriptor.get, List.getD_eq_getElem?_getD, hs]⟩

/-- What the table has under the name of a field. -/
theorem lookup_toEntries (hlen : slots.length = d.fields.length) (i : d.Index) :
    lookup (toEntries R pool d slots) (.string (d.field i).name) =
      if (d.field i).inOneof ∧ (d.get slots i).isAbsent then .nil
      else getField R pool (d.field i) (d.get slots i) := by
  -- No other field has the name.
  have only : ∀ {oneofs : Bool}, ¬ Passes oneofs (d.field i) (d.get slots i) →
      ∀ f c, (f, c) ∈ d.fields.zip slots → Passes oneofs f c →
        (.string (d.field i).name : LuaKey Num) ≠ .string f.name := by
    intro oneofs hpass f c hfc hpass' hname
    obtain ⟨j, rfl, rfl⟩ := exists_index_of_mem_zip hfc
    obtain rfl := Descriptor.field_name_injective (LuaKey.string.inj hname)
    exact hpass hpass'
  have hfirst : Assigned (addFields R pool false d.fields [] slots) :=
    assigned_addFields assigned_nil
  rw [toEntries]
  cases ho : (d.field i).inOneof with
  | false =>
      have hpass : Passes false (d.field i) (d.get slots i) := ⟨ho, by simp⟩
      rw [lookup_addFields_of_ne hfirst (only (by simp [ho])),
        lookup_addFields assigned_nil d.nodup (mem_zip hlen i) hpass]
      simp
  | true =>
      by_cases hc : (d.get slots i).isAbsent
      · rw [lookup_addFields_of_ne hfirst (only (by simp [hc])),
          lookup_addFields_of_ne assigned_nil (only (by simp [ho]))]
        simp [hc, lookup]
      · have hpass : Passes true (d.field i) (d.get slots i) := ⟨ho, fun h => hc h.2⟩
        rw [lookup_addFields hfirst d.nodup (mem_zip hlen i) hpass]
        simp [hc]

/-- A key that names no field holds nil. -/
theorem lookup_toEntries_of_ne (hk : ∀ i : d.Index, k ≠ .string (d.field i).name) :
    lookup (toEntries R pool d slots) k = .nil := by
  have ne : ∀ {oneofs : Bool}, ∀ f c, (f, c) ∈ d.fields.zip slots → Passes oneofs f c →
      k ≠ .string f.name := by
    intro oneofs f c hfc _
    obtain ⟨i, rfl, -⟩ := exists_index_of_mem_zip hfc
    exact hk i
  rw [toEntries, lookup_addFields_of_ne (assigned_addFields assigned_nil) ne,
    lookup_addFields_of_ne assigned_nil ne]
  rfl

/-- The entries of the table: the fields outside of oneofs, and the members that are set, unless
what they hold is nil. -/
theorem mem_toEntries (hlen : slots.length = d.fields.length) :
    (k, v) ∈ toEntries R pool d slots ↔ ∃ i : d.Index, k = .string (d.field i).name ∧
      v = getField R pool (d.field i) (d.get slots i) ∧ v ≠ .nil ∧
      ¬ ((d.field i).inOneof ∧ (d.get slots i).isAbsent) := by
  rw [assigned_toEntries.mem_iff]
  constructor
  · rintro ⟨hv, hne⟩
    by_cases hk : ∃ i : d.Index, k = .string (d.field i).name
    · obtain ⟨i, rfl⟩ := hk
      rw [lookup_toEntries hlen] at hv
      split_ifs at hv with hc
      · exact absurd hv.symm hne
      · exact ⟨i, rfl, hv.symm, hne, hc⟩
    · rw [lookup_toEntries_of_ne fun i hi => hk ⟨i, hi⟩] at hv
      exact absurd hv.symm hne
  · rintro ⟨i, rfl, rfl, hne, hc⟩
    exact ⟨by rw [lookup_toEntries hlen, if_neg hc], hne⟩

end

/-! ### The table of a list, and of a map -/

/-- The elements stand under their indices, in order. -/
theorem addElements_eq {n : Nat} {cs : List (Content Num Float)} (hlen : n + cs.length ≤ 2 ^ 31)
    (hk : ∀ m, n ≤ m → m < 2 ^ 31 → indexKey m ∉ tbl.map Prod.fst)
    (hc : ∀ c ∈ cs, getField R pool f c ≠ .nil) :
    addElements R pool f n tbl cs =
      tbl ++ cs.mapIdx fun m c => (indexKey (n + m), getField R pool f c) := by
  induction cs generalizing n tbl with
  | nil => simp [addElements]
  | cons c cs ih =>
      rw [List.length_cons] at hlen
      rw [addElements, assign_of_notMem (hk n (by omega) (by omega)) (hc c List.mem_cons_self),
        ih (by omega) ?_ fun c hmem => hc c (List.mem_cons_of_mem _ hmem)]
      · simp [List.mapIdx_cons, Nat.add_comm, Nat.add_left_comm]
      · intro m hm hm' hmem
        rw [List.map_append, List.mem_append] at hmem
        rcases hmem with hmem | hmem
        · exact hk m (by omega) hm' hmem
        · have heq := indexKey_inj hm' (by omega) (List.mem_singleton.1 hmem)
          omega

/-- A list becomes the list of its elements. -/
theorem addElements_eq_listEntries {cs : List (Content Num Float)} (hlen : cs.length ≤ 2 ^ 31)
    (hc : ∀ c ∈ cs, getField R pool f c ≠ .nil) :
    addElements R pool f 0 [] cs = listEntries (cs.map (getField R pool f)) := by
  rw [addElements_eq (by omega) (by simp) hc, listEntries, List.nil_append]
  exact List.ext_getElem (by simp) fun n hn hn' => by simp

section
variable {es vs : List (MapKey × Content Num Float)} {key : MapKey}

/-- The entries are assigned one after the other. -/
theorem assigned_addEntries (h : Assigned tbl) : Assigned (addEntries R pool f tbl es) := by
  induction es generalizing tbl with
  | nil => rwa [addEntries]
  | cons e es ih =>
      rw [addEntries]
      exact ih (h.assign _ _)

/-- The entries of a map are added in two parts. -/
theorem addEntries_append :
    addEntries R pool f tbl (es ++ vs) = addEntries R pool f (addEntries R pool f tbl es) vs := by
  induction es generalizing tbl with
  | nil => rw [addEntries, List.nil_append]
  | cons e es ih => rw [List.cons_append, addEntries, addEntries, ih]

/-- A key that is not in the map is left as it was. -/
theorem lookup_addEntries_of_ne (h : Assigned tbl) (hk : ∀ e ∈ es, k ≠ e.1.toLua) :
    lookup (addEntries R pool f tbl es) k = lookup tbl k := by
  induction es generalizing tbl with
  | nil => rw [addEntries]
  | cons e es ih =>
      rw [addEntries, ih (h.assign _ _) fun e he => hk e (List.mem_cons_of_mem _ he),
        lookup_assign h.nodup, if_neg (hk e List.mem_cons_self)]

/-- A key has what the last entry with it holds, which may be nil. -/
theorem lookup_addEntries (h : Assigned tbl)
    (hvs : ∀ e ∈ vs, key.toLua ≠ (e.1.toLua : LuaKey Num)) :
    lookup (addEntries R pool f tbl (es ++ (key, c) :: vs)) key.toLua = getField R pool f c := by
  have hassigned : Assigned (addEntries R pool f tbl es) := assigned_addEntries h
  rw [addEntries_append, addEntries, lookup_addEntries_of_ne (hassigned.assign _ _) hvs,
    lookup_assign hassigned.nodup, if_pos rfl]

omit [DecidableEq Num] in
/-- The entries with the key, if there are any, have a last one. -/
theorem exists_last (h : ∃ e ∈ es, e.1 = key) :
    ∃ us c vs, es = us ++ (key, c) :: vs ∧ ∀ e ∈ vs, e.1 ≠ key := by
  induction es with
  | nil => simp at h
  | cons e es ih =>
      by_cases htail : ∃ e ∈ es, e.1 = key
      · obtain ⟨us, c, vs, rfl, hvs⟩ := ih htail
        exact ⟨e :: us, c, vs, rfl, hvs⟩
      · obtain ⟨e', he', rfl⟩ := h
        rcases List.mem_cons.1 he' with rfl | he'
        · exact ⟨[], e'.2, es, rfl, fun e he hkey => htail ⟨e, he, hkey⟩⟩
        · exact absurd ⟨e', he', rfl⟩ htail

end

end

/-! ### Repeated keys and absent values -/

section
variable (R : Runtime Num Float) (pool : Pool Num Float)

/-- What a value of the map is: an absent message is the default one. -/
def converted (value : FieldDescriptor Num Float) (c : Content Num Float) : LuaValue Num :=
  match c, value.type with
  | .absent, .message t => toTbl R pool (pool.descriptor t) (pool.descriptor t).empty
  | _, _ => getField R pool value c

/-- The table of the map has the keys of its entries, each with the value of the last entry with
it. -/
def Exact (f : FieldDescriptor Num Float) (entryName : Bytes)
    (es : List (MapKey × Content Num Float)) : Prop :=
  (∀ k, (getField R pool f (.map es)).get [k] ≠ .nil ↔ ∃ e ∈ es, e.1.toLua = k) ∧
  ∀ us k c vs, es = us ++ (k, c) :: vs → (∀ e ∈ vs, e.1 ≠ k) →
    (getField R pool f (.map es)).get [k.toLua] = converted R pool (f.value entryName) c

variable {R pool}

/-- No key has an absent message in its last entry. -/
def LastPresent (f : FieldDescriptor Num Float) (es : List (MapKey × Content Num Float)) : Prop :=
  ∀ us k vs, es = us ++ (k, .absent) :: vs → (∀ e ∈ vs, e.1 ≠ k) → ∀ t, f.type ≠ .message t

/-- A value that is not nil is shown as it is. -/
theorem converted_eq_getField {value : FieldDescriptor Num Float} {c : Content Num Float}
    (h : getField R pool value c ≠ .nil) : converted R pool value c = getField R pool value c := by
  rw [converted]
  exact fun t hc ht => h (getField_eq_nil.2 ⟨hc, t, ht⟩)

/-- A value of a map is never shown as nil. -/
theorem converted_ne_nil {value : FieldDescriptor Num Float} {c : Content Num Float} :
    converted R pool value c ≠ .nil := by
  by_cases h : getField R pool value c = .nil
  · obtain ⟨rfl, t, ht⟩ := getField_eq_nil.1 h
    simp [converted, ht, toTbl, ofEntries]
  · rw [converted_eq_getField h]
    exact h

/-- The table is exact but for the keys whose last entry has an absent message. -/
theorem map_exact_iff {f : FieldDescriptor Num Float} {entryName : Bytes} {key : KeyType}
    (hf : f.label = .map entryName key) (es : List (MapKey × Content Num Float))
    (hkeys : ∀ e ∈ es, e.1.type = key) : Exact R pool f entryName es ↔ LastPresent f es := by
  have htable : ∀ k, (getField R pool f (.map es)).get [k] =
      lookup (addEntries R pool (f.value entryName) [] es) k := by
    intro k
    rw [getField, hf]
    simp [ofEntries]
  -- The value at a key is that of its last entry.
  have hlast : ∀ us k c vs, es = us ++ (k, c) :: vs → (∀ e ∈ vs, e.1 ≠ k) →
      (getField R pool f (.map es)).get [k.toLua] = getField R pool (f.value entryName) c := by
    rintro us k c vs rfl hvs
    rw [htable]
    refine lookup_addEntries assigned_nil fun e he heq => hvs e he ?_
    have hk : k.type = key := hkeys (k, c) (by simp)
    exact (MapKey.toLua_injective (hk.trans (hkeys e (by simp [he])).symm) heq).symm
  constructor
  · rintro ⟨-, hvalue⟩ us k vs heq hvs t ht
    have hnil : getField R pool (f.value entryName) .absent = .nil :=
      getField_eq_nil.2 ⟨rfl, t, ht⟩
    have hv := hvalue us k .absent vs heq hvs
    rw [hlast us k .absent vs heq hvs, hnil] at hv
    exact converted_ne_nil hv.symm
  · intro hpresent
    -- No last entry is absent, so none takes away the value of its key.
    have hne : ∀ us k c vs, es = us ++ (k, c) :: vs → (∀ e ∈ vs, e.1 ≠ k) →
        getField R pool (f.value entryName) c ≠ .nil := by
      intro us k c vs heq hvs hnil
      obtain ⟨rfl, t, ht⟩ := getField_eq_nil.1 hnil
      exact hpresent us k vs heq hvs t ht
    refine ⟨fun k => ⟨fun hk => ?_, ?_⟩, fun us k c vs heq hvs => ?_⟩
    · by_contra hnone
      refine hk ?_
      rw [htable, lookup_addEntries_of_ne assigned_nil]
      · rfl
      · exact fun e he heq => hnone ⟨e, he, heq.symm⟩
    · rintro ⟨e, he, rfl⟩
      obtain ⟨us, c, vs, heq, hvs⟩ := exists_last ⟨e, he, rfl⟩
      rw [hlast us e.1 c vs heq hvs]
      exact hne us e.1 c vs heq hvs
    · rw [hlast us k c vs heq hvs, converted_eq_getField (hne us k c vs heq hvs)]

end

/-- `map<int32, Box> boxes = 1` of `message Box`. -/
def boxes : FieldDescriptor Int Int :=
  ⟨str "boxes", str "Box.boxes", .map (str "Box.BoxesEntry") .int32, .message 0,
    .ofKey (.bool false), by simp⟩

def boxPool : Pool Int Int :=
  ⟨fun _ => ⟨str "Box", [boxes], by simp⟩, fun name => if name = str "Box" then some 0 else none⟩

theorem map_exact_iff_twoEntries :
    Exact Runtime.integers boxPool boxes (str "Box.BoxesEntry")
        [(.int32 1, .absent), (.int32 1, .message [.map []])] ↔
      LastPresent boxes [(.int32 1, .absent), (.int32 1, .message [.map []])] :=
  map_exact_iff rfl _ (by simp [MapKey.type])

/-- The key of the two entries has no entry in the table. -/
theorem not_exact :
    ¬ Exact Runtime.integers boxPool boxes (str "Box.BoxesEntry")
        [(.int32 1, .message [.map []]), (.int32 1, .absent)] := by
  rintro ⟨hkeys, -⟩
  exact (hkeys (.integer 1)).2 ⟨(.int32 1, .message [.map []]), by simp, rfl⟩ rfl

end MsgToTbl

end GrpcLua.Pb
