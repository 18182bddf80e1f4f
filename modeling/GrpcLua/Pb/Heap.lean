import GrpcLua.Pb.LuaPbIntf
import GrpcLua.Support.Recursion
import Mathlib.Order.WellFounded

/-!
# Pb — Heap

`Encode()` over a Lua heap, where a value that is a table is a reference: tables are shared, and may
contain themselves.  They are plain, without metatables, so that nothing of the user's runs when one
is read.

`body` is `SetMsg()` of a message type and a table, with the calls of `SetMsg()` that it makes on
the tables it meets.  Nothing bounds their depth but the heap: `encode_ends_iff` says when
`Encode()` ends.
-/

namespace GrpcLua.Pb
open Recursion

/-- A value, in a heap of `n` tables. -/
inductive HeapValue (Num : Type) (n : Nat) where
  | nil
  | boolean (b : Bool)
  | integer (n : BitVec 64)
  | number (x : Num)
  | string (s : Bytes)
  | object (typeName : Bytes) (id : Nat)
  | table (address : Fin n)
  deriving DecidableEq

/-- A table: its length, and its entries as they are iterated. -/
structure HeapTable (Num : Type) (n : Nat) where
  border : Nat
  entries : List (LuaKey Num × HeapValue Num n)
  nodup : (entries.map Prod.fst).Nodup

/-- The tables by their addresses. -/
abbrev Heap (Num : Type) (n : Nat) := Fin n → HeapTable Num n

variable {Num Float : Type} {n : Nat}

/-- The value without what it refers to. -/
def HeapValue.shallow : HeapValue Num n → LuaValue Num
  | nil => .nil
  | boolean b => .boolean b
  | integer n => .integer n
  | number x => .number x
  | string s => .string s
  | object typeName id => .object typeName id
  | table _ => .table 0 []

variable [DecidableEq Num]

namespace HeapTable

/-- `luaTable[key]`. -/
def lookup (t : HeapTable Num n) (k : LuaKey Num) : HeapValue Num n :=
  (t.entries.lookup k).getD .nil

/-- The values at `1` to `luaTable.len()`. -/
def elements (t : HeapTable Num n) : List (HeapValue Num n) :=
  (List.range (intLen t.border)).map fun m => t.lookup (indexKey m)

end HeapTable

/-- Code that calls `SetMsg()` on new messages of a type, with a table; the calls return the
messages. -/
abbrev Setter (Num Float : Type) (n : Nat) (α : Type) :=
  Code (Nat × Fin n) (List (Content Num Float)) Error α

namespace HeapSetter
open MessageSetter

section
variable (R : Runtime Num Float) (pool : Pool Num Float) (heap : Heap Num n)

/-- `SetField()` of a field that is not repeated, and `AddToRepeatedField()`.  No key of a table
occurs twice, so the field is not set before, and `MutableMessage()` is an empty message. -/
def setSingular (f : FieldDescriptor Num Float) (v : HeapValue Num n) :
    Setter Num Float n (Content Num Float) :=
  match f.type, v with
  | .message t, .table a => do
      let slots ← Code.callOnce (t, a)
      pure (.message slots)
  | _, v => .ofExcept (setAtom R f f.initial v.shallow)

/-- The loop of `SetRepeatedField()`. -/
def addElements (f : FieldDescriptor Num Float) :
    List (HeapValue Num n) → Setter Num Float n (List (Content Num Float))
  | [] => pure []
  | v :: vs => do
      let c ← setSingular R f v
      let cs ← addElements f vs
      pure (c :: cs)

/-- The loop of `SetRepeatedMapField()`, with `AddToMapField()`. -/
def addEntries (key : KeyType) (value : FieldDescriptor Num Float)
    (entries : List (MapKey × Content Num Float)) :
    List (LuaKey Num × HeapValue Num n) → Setter Num Float n (List (MapKey × Content Num Float))
  | [] => pure entries
  | (k, v) :: es => do
      let mapKey ← .ofExcept (key.ofLua R k.toValue)
      let c ← setSingular R value v
      addEntries key value (SortedMap.insert mapKey c entries) es

/-- `SetField()`, and `SetRepeatedField()` of an empty field. -/
def setContent (f : FieldDescriptor Num Float) (v : HeapValue Num n) :
    Setter Num Float n (Content Num Float) :=
  match f.label, v with
  | .repeated, .table b => do
      let added ← addElements R f.element (heap b).elements
      -- `++index` follows the last element.
      if intLen (heap b).border < 2 ^ 31 - 1 then pure ((Content.list []).addAll added)
      else .raise .overflow
  | .map entryName key, .table b => do
      let entries ← addEntries R key (f.value entryName) [] (heap b).entries
      pure (.map entries)
  | _, v => setSingular R f v

/-- The loop of `SetMsg()`. -/
def setEntries (d : Descriptor Num Float) (slots : List (Content Num Float)) :
    List (LuaKey Num × HeapValue Num n) → Setter Num Float n (List (Content Num Float))
  | [] => pure slots
  | (.string sField, v) :: es =>
      match d.findFieldByName sField with
      | none => .raise (.exception
          (str "Message " ++ d.fullName ++ str " has no field: " ++ sField))
      | some i => do
          let c ← setContent R heap (d.field i) v
          setEntries d (d.set slots i c) es
  | _ :: es => setEntries d slots es  -- Skip non-string key.

/-- `SetMsg()` of a new message. -/
def body (call : Nat × Fin n) : Setter Num Float n (List (Content Num Float)) :=
  setEntries R heap (pool.descriptor call.1) (pool.descriptor call.1).empty (heap call.2).entries

/-- `Encode()`. -/
def encode (codec : Codec Num Float) (sMsgTypeName : Bytes) (luaTable : HeapValue Num n) :
    Setter Num Float n Bytes := do
  .ofExcept (checkTable luaTable.shallow)
  let type ← .ofExcept (makeSharedMessage pool sMsgTypeName)
  match luaTable with
  | .table a => do
      let slots ← Code.callOnce (type, a)
      pure (codec.serializeAsString type slots)
  | _ => .raise .assertion

/-! ### References -/

/-- The value leads the field to a call of `SetMsg()`. -/
inductive Leads (f : FieldDescriptor Num Float) : HeapValue Num n → Nat × Fin n → Prop
  | singular {t : Nat} {a : Fin n} (hf : f.Singular) (ht : f.type = .message t) :
      Leads f (.table a) (t, a)
  | element {t : Nat} {a b : Fin n} (hf : f.label = .repeated) (ht : f.type = .message t)
      (ha : .table a ∈ (heap b).elements) : Leads f (.table b) (t, a)
  | value {t : Nat} {a b : Fin n} {entryName : Bytes} {key : KeyType} {k : LuaKey Num}
      (hf : f.label = .map entryName key) (ht : f.type = .message t)
      (ha : (k, .table a) ∈ (heap b).entries) : Leads f (.table b) (t, a)

/-- The table of the type refers to a table, through a field of the type that holds messages. -/
def Refers (call call' : Nat × Fin n) : Prop :=
  ∃ (i : (pool.descriptor call.1).Index) (v : HeapValue Num n),
    (.string ((pool.descriptor call.1).field i).name, v) ∈ (heap call.2).entries ∧
      Leads heap ((pool.descriptor call.1).field i) v call'

end

variable {R : Runtime Num Float} {pool : Pool Num Float} {heap : Heap Num n}
variable {f : FieldDescriptor Num Float} {v : HeapValue Num n} {call call' : Nat × Fin n}

/-- A field that is neither repeated nor a map is set at once. -/
theorem setContent_singular (hf : f.Singular) : setContent R heap f v = setSingular R f v := by
  unfold setContent
  split
  case h_1 b hl => exact absurd hl hf.1
  case h_2 entryName key b hl => exact absurd hl (hf.2 entryName key)
  case h_3 => rfl

/-! ### The calls of a body -/

omit [DecidableEq Num] in
/-- A singular field calls for the table of its message. -/
theorem setSingular_calls {P : Nat × Fin n → Prop}
    (hP : ∀ t a, f.type = .message t → v = .table a → P (t, a)) :
    (setSingular R f v : Setter Num Float n _).Calls P := by
  unfold setSingular
  split
  case h_1 t a ht => exact ⟨hP t a ht rfl, fun _ => trivial⟩
  case h_2 => exact .ofExcept _

omit [DecidableEq Num] in
/-- A list calls for the tables of its elements. -/
theorem addElements_calls {P : Nat × Fin n → Prop} {vs : List (HeapValue Num n)}
    (hP : ∀ t a, f.type = .message t → .table a ∈ vs → P (t, a)) :
    (addElements R f vs : Setter Num Float n _).Calls P := by
  induction vs with
  | nil => trivial
  | cons v vs ih =>
      refine .bind (setSingular_calls fun t a ht hv => hP t a ht (by simp [hv])) fun _ => ?_
      exact .bind (ih fun t a ht ha => hP t a ht (List.mem_cons_of_mem _ ha)) fun _ => trivial

omit [DecidableEq Num] in
/-- A map calls for the tables of its values. -/
theorem addEntries_calls {P : Nat × Fin n → Prop} {key : KeyType}
    {entries : List (MapKey × Content Num Float)} {es : List (LuaKey Num × HeapValue Num n)}
    (hP : ∀ t a k, f.type = .message t → (k, .table a) ∈ es → P (t, a)) :
    (addEntries R key f entries es : Setter Num Float n _).Calls P := by
  induction es generalizing entries with
  | nil => trivial
  | cons e es ih =>
      obtain ⟨k, v⟩ := e
      refine .bind (.ofExcept _) fun _ => .bind (setSingular_calls fun t a ht hv => ?_) fun _ => ?_
      · exact hP t a k ht (by simp [hv])
      · exact ih fun t a k ht ha => hP t a k ht (List.mem_cons_of_mem _ ha)

/-- A field calls for the tables that it leads to. -/
theorem setContent_calls :
    (setContent R heap f v : Setter Num Float n _).Calls (Leads heap f v) := by
  unfold setContent
  split
  case h_1 b hf =>
    refine .bind (addElements_calls fun t a ht ha => .element hf ht ha) fun _ => ?_
    split_ifs <;> trivial
  case h_2 b entryName key hf =>
    exact .bind (addEntries_calls fun t a k ht ha => .value hf ht ha) fun _ => trivial
  case h_3 hrepeated hmap =>
    refine setSingular_calls fun t a ht hv => ?_
    subst hv
    refine .singular ⟨fun hf => hrepeated a hf rfl, fun entryName key hf => ?_⟩ ht
    exact hmap entryName key a hf rfl

/-- A message calls for the tables that it refers to. -/
theorem body_calls : (body R pool heap call).Calls (Refers pool heap call) := by
  have hentries : ∀ es, es ⊆ (heap call.2).entries → ∀ slots,
      (setEntries R heap (pool.descriptor call.1) slots es).Calls (Refers pool heap call) := by
    intro es
    induction es with
    | nil => exact fun _ _ => trivial
    | cons e es ih =>
        intro hsub slots
        have hrest := fun slots => ih (fun x hx => hsub (List.mem_cons_of_mem _ hx)) slots
        obtain ⟨k, v⟩ := e
        cases k with
        | string sField =>
            simp only [setEntries]
            cases hi : (pool.descriptor call.1).findFieldByName sField with
            | none => trivial
            | some i =>
                refine .bind (setContent_calls.mono fun j hj => ⟨i, v, ?_, hj⟩) fun _ => hrest _
                rw [Descriptor.findFieldByName_eq_some.1 hi]
                exact hsub List.mem_cons_self
        | _ => exact hrest slots
  exact hentries _ (List.Subset.refl _) _

/-! ### What a result says of the calls -/

section ok
variable {g : Nat × Fin n → Option (Except Error (List (Content Num Float)))}

omit [DecidableEq Num] in
/-- Where a message field is set, its table has returned. -/
theorem setSingular_ok {t : Nat} {a : Fin n} (ht : f.type = .message t) {c : Content Num Float}
    (h : (setSingular R f (.table a)).eval g = some (.ok c)) :
    ∃ slots, g (t, a) = some (.ok slots) := by
  simp only [setSingular, ht] at h
  obtain ⟨slots, hslots, -⟩ := Code.eval_bind_ok.1 h
  exact ⟨slots, by rwa [Code.eval_callOnce] at hslots⟩

omit [DecidableEq Num] in
/-- Where a list is filled, every element is set. -/
theorem addElements_ok {vs : List (HeapValue Num n)} {cs : List (Content Num Float)}
    (h : (addElements R f vs).eval g = some (.ok cs)) (hv : v ∈ vs) :
    ∃ c, (setSingular R f v).eval g = some (.ok c) := by
  induction vs generalizing cs with
  | nil => cases hv
  | cons v' vs ih =>
      obtain ⟨c, hc, h⟩ := Code.eval_bind_ok.1 h
      obtain ⟨cs', hcs', -⟩ := Code.eval_bind_ok.1 h
      rcases List.mem_cons.1 hv with rfl | hv
      · exact ⟨c, hc⟩
      · exact ih hcs' hv

omit [DecidableEq Num] in
/-- Where a map is filled, every value is set. -/
theorem addEntries_ok {key : KeyType} {entries entries' : List (MapKey × Content Num Float)}
    {es : List (LuaKey Num × HeapValue Num n)} {k : LuaKey Num}
    (h : (addEntries R key f entries es).eval g = some (.ok entries')) (hv : (k, v) ∈ es) :
    ∃ c, (setSingular R f v).eval g = some (.ok c) := by
  induction es generalizing entries with
  | nil => cases hv
  | cons e es ih =>
      obtain ⟨k', v'⟩ := e
      obtain ⟨mapKey, -, h⟩ := Code.eval_bind_ok.1 h
      obtain ⟨c, hc, h⟩ := Code.eval_bind_ok.1 h
      rcases List.mem_cons.1 hv with hv | hv
      · cases hv
        exact ⟨c, hc⟩
      · exact ih h hv

/-- Where a field is set, every table that it leads to has returned. -/
theorem setContent_ok {c : Content Num Float} (h : (setContent R heap f v).eval g = some (.ok c))
    (hleads : Leads heap f v call) : ∃ slots, g call = some (.ok slots) := by
  cases hleads with
  | singular hf ht =>
      rw [setContent_singular hf] at h
      exact setSingular_ok ht h
  | element hf ht ha =>
      simp only [setContent, hf] at h
      obtain ⟨cs, hcs, -⟩ := Code.eval_bind_ok.1 h
      obtain ⟨c', hc'⟩ := addElements_ok hcs ha
      exact setSingular_ok (f := f.element) ht hc'
  | value hf ht ha =>
      simp only [setContent, hf] at h
      obtain ⟨entries, hentries, -⟩ := Code.eval_bind_ok.1 h
      obtain ⟨c', hc'⟩ := addEntries_ok hentries ha
      exact setSingular_ok (f := f.value _) ht hc'

/-- Where a message is filled, every table that it refers to has returned. -/
theorem body_ok {slots : List (Content Num Float)}
    (h : (body R pool heap call).eval g = some (.ok slots))
    (hrefers : Refers pool heap call call') :
    ∃ slots', g call' = some (.ok slots') := by
  obtain ⟨i, v, hmem, hleads⟩ := hrefers
  have hentries : ∀ es slots₀, (.string ((pool.descriptor call.1).field i).name, v) ∈ es →
      (setEntries R heap (pool.descriptor call.1) slots₀ es).eval g = some (.ok slots) →
      ∃ c, (setContent R heap ((pool.descriptor call.1).field i) v).eval g = some (.ok c) := by
    intro es
    induction es with
    | nil => exact fun _ h _ => nomatch h
    | cons e es ih =>
        intro slots₀ hmem h
        obtain ⟨k, w⟩ := e
        cases k with
        | string sField =>
            simp only [setEntries] at h
            cases hi : (pool.descriptor call.1).findFieldByName sField with
            | none => simp [hi, Code.eval] at h
            | some j =>
                rw [hi] at h
                obtain ⟨c, hc, h⟩ := Code.eval_bind_ok.1 h
                rcases List.mem_cons.1 hmem with hmem | hmem
                · obtain ⟨hname, rfl⟩ := Prod.mk.inj hmem
                  rw [← LuaKey.string.inj hname, Descriptor.findFieldByName_name] at hi
                  cases hi
                  exact ⟨c, hc⟩
                · exact ih _ hmem h
        | _ =>
            refine ih slots₀ ?_ h
            rcases List.mem_cons.1 hmem with hmem | hmem
            · cases hmem
            · exact hmem
  obtain ⟨c, hc⟩ := hentries _ _ hmem h
  exact setContent_ok hc hleads

end ok

/-- A table that is made a message refers to such tables only, and to no endless chain of them. -/
theorem acc_of_returns {slots : List (Content Num Float)}
    (h : Returns (body R pool heap) call (.ok slots)) :
    Acc (fun j i => Refers pool heap i j) call := by
  obtain ⟨m, hm⟩ := h
  induction m generalizing call slots with
  | zero => cases hm
  | succ m ih =>
      refine ⟨call, fun j hj => ?_⟩
      obtain ⟨slots', hslots'⟩ := body_ok hm hj
      exact ih hslots'

/-- A table from which no endless chain of references starts is done with. -/
theorem ends_of_acc (h : Acc (fun j i => Refers pool heap i j) call) :
    Ends (body R pool heap) call :=
  ends_iff_acc.2 (Subrelation.accessible (fun hmakes => hmakes.of_calls body_calls) h)

/-! ### Encoding -/

section encode
variable (R pool heap)
variable (codec : Codec Num Float) (sMsgTypeName : Bytes) (luaTable : HeapValue Num n)

/-- `Encode()` ends with `x`; also where an `int` overflows. -/
def EncodeReturns (x : Except Error Bytes) : Prop :=
  ∃ m, (encode pool codec sMsgTypeName luaTable).eval (run (body R pool heap) m) = some x

/-- The call that `Encode()` starts with, if it gets so far. -/
def Roots (root : Nat × Fin n) : Prop :=
  pool.findMessageTypeByName sMsgTypeName = some root.1 ∧ luaTable = .table root.2

variable {R pool heap codec sMsgTypeName luaTable}

/-- Without a message type or a table there is nothing to recurse into. -/
theorem encode_of_not_roots (h : ∀ root, ¬ Roots pool sMsgTypeName luaTable root) :
    ∃ e, EncodeReturns R pool heap codec sMsgTypeName luaTable (.error e) := by
  cases luaTable with
  | table a =>
      cases htype : pool.findMessageTypeByName sMsgTypeName with
      | some type => exact absurd ⟨htype, rfl⟩ (h (type, a))
      | none =>
          refine ⟨.exception (str "No message type: " ++ sMsgTypeName), 0, ?_⟩
          rw [encode, makeSharedMessage, htype]
          rfl
  | _ => exact ⟨_, 0, rfl⟩

omit [DecidableEq Num] in
/-- Otherwise `Encode` returns what the setting of the root returns. -/
theorem encode_of_roots {root : Nat × Fin n} (h : Roots pool sMsgTypeName luaTable root)
    (g : Nat × Fin n → Option (Except Error (List (Content Num Float)))) :
    (encode pool codec sMsgTypeName luaTable).eval g =
      (g root).map fun x => x.map (codec.serializeAsString root.1) := by
  obtain ⟨type, a⟩ := root
  obtain ⟨htype, rfl⟩ := h
  rw [encode, makeSharedMessage, htype]
  exact Code.eval_callOnce_bind (type, a) (codec.serializeAsString type)

/-- `Encode()` ends with what it makes of the result of its call. -/
theorem encodeReturns_iff {root : Nat × Fin n} (h : Roots pool sMsgTypeName luaTable root)
    {x : Except Error Bytes} :
    EncodeReturns R pool heap codec sMsgTypeName luaTable x ↔
      ∃ y, Returns (body R pool heap) root y ∧ y.map (codec.serializeAsString root.1) = x := by
  simp only [EncodeReturns, encode_of_roots h, Option.map_eq_some_iff, Returns]
  constructor
  · rintro ⟨m, y, hy, rfl⟩
    exact ⟨y, ⟨m, hy⟩, rfl⟩
  · rintro ⟨y, ⟨m, hy⟩, rfl⟩
    exact ⟨m, y, hy, rfl⟩

/-- An endless chain of `r` starts at the call. -/
def Endless (r : Nat × Fin n → Nat × Fin n → Prop) (call : Nat × Fin n) : Prop :=
  ∃ calls : Nat → Nat × Fin n, calls 0 = call ∧ ∀ m, r (calls m) (calls (m + 1))

/-- No endless path is the same as accessibility. -/
theorem not_endless {r : Nat × Fin n → Nat × Fin n → Prop} :
    ¬ Endless r call ↔ Acc (fun j i => r i j) call := by
  rw [not_iff_comm, not_acc_iff_exists_descending_chain]
  rfl

/-- **Termination.**  `Encode()` ends, with a string or an error, exactly if it does not come into
an endless chain of calls of `SetMsg()`.  It does not where no endless chain of references starts at
the table; and there alone it may end with a string. -/
theorem encode_ends_iff (R : Runtime Num Float) (pool : Pool Num Float) (heap : Heap Num n)
    (codec : Codec Num Float) (sMsgTypeName : Bytes) (luaTable : HeapValue Num n) :
    ((∃ x, EncodeReturns R pool heap codec sMsgTypeName luaTable x) ↔
      ∀ root, Roots pool sMsgTypeName luaTable root →
        ¬ Endless (Makes (body R pool heap)) root) ∧
    ((∀ root, Roots pool sMsgTypeName luaTable root → ¬ Endless (Refers pool heap) root) →
      ∃ x, EncodeReturns R pool heap codec sMsgTypeName luaTable x) ∧
    (∀ sData, EncodeReturns R pool heap codec sMsgTypeName luaTable (.ok sData) →
      ∀ root, Roots pool sMsgTypeName luaTable root → ¬ Endless (Refers pool heap) root) := by
  -- Without a root, `Encode()` fails before it calls `SetMsg()`.
  by_cases hroots : ∃ root, Roots pool sMsgTypeName luaTable root
  case neg =>
    have hnone : ∀ root, ¬ Roots pool sMsgTypeName luaTable root := fun root h => hroots ⟨root, h⟩
    obtain ⟨e, he⟩ : ∃ e, EncodeReturns R pool heap codec sMsgTypeName luaTable (.error e) :=
      encode_of_not_roots hnone
    exact ⟨iff_of_true ⟨_, he⟩ fun root h => absurd h (hnone root), fun _ => ⟨_, he⟩,
      fun _ _ root h => absurd h (hnone root)⟩
  obtain ⟨root, hroot⟩ := hroots
  -- There is one root at most: the type is looked up once, and the value is one table.
  have honly : ∀ root', Roots pool sMsgTypeName luaTable root' → root' = root := by
    rintro ⟨type, a⟩ ⟨htype, ha⟩
    obtain ⟨type', a'⟩ := root
    obtain ⟨htype', ha'⟩ := hroot
    cases htype.symm.trans htype'
    cases ha.symm.trans ha'
    rfl
  have hends : (∃ x, EncodeReturns R pool heap codec sMsgTypeName luaTable x) ↔
      Ends (body R pool heap) root := by
    simp only [encodeReturns_iff hroot]
    exact ⟨fun ⟨_, y, hy, _⟩ => ⟨y, hy⟩, fun ⟨y, hy⟩ => ⟨_, y, hy, rfl⟩⟩
  refine ⟨?_, fun h => hends.2 (ends_of_acc (not_endless.1 (h root hroot))), fun sData h => ?_⟩
  · rw [hends, ends_iff_acc, ← not_endless]
    exact ⟨fun h root' hroot' => honly root' hroot' ▸ h, fun h => h root hroot⟩
  · intro root' hroot'
    rw [honly root' hroot', not_endless]
    obtain ⟨y, hy, hdata⟩ := (encodeReturns_iff hroot).1 h
    cases y with
    | error e => cases hdata
    | ok slots => exact acc_of_returns hy

/-- `Node next = 1` of `message Node`. -/
def next : FieldDescriptor Int Int :=
  ⟨str "next", str "Node.next", .implicit, .message 0, .ofKey (.bool false),
    fun _ ht => FieldType.noConfusion ht⟩

def nodePool : Pool Int Int :=
  ⟨fun _ => ⟨str "Node", [next], by simp⟩, fun name => if name = str "Node" then some 0 else none⟩

/-- A table whose `next` is the table itself. -/
def loop : Heap Int 1 := fun _ => ⟨0, [(.string (str "next"), .table 0)], by simp⟩

/-- `Encode()` of it does not end, whatever the wire format. -/
theorem encode_never_ends : ¬ ∃ (codec : Codec Int Int) (x : Except Error Bytes),
    EncodeReturns Runtime.integers nodePool loop codec (str "Node") (.table 0) x := by
  -- The body begins with the call that it is the body of.
  obtain ⟨k, hbody⟩ : ∃ k, body Runtime.integers nodePool loop (0, 0) =
      Code.callOnce (0, 0) >>= k := ⟨_, rfl⟩
  have hrun : ∀ m, run (body Runtime.integers nodePool loop) m (0, 0) = none := by
    intro m
    induction m with
    | zero => rfl
    | succ m ih =>
        rw [run, hbody]
        exact Code.eval_bind_none ((Code.eval_callOnce _).trans ih)
  rintro ⟨codec, x, m, hx⟩
  have hroots : Roots nodePool (str "Node") (.table 0 : HeapValue Int 1) (0, 0) := ⟨rfl, rfl⟩
  rw [encode_of_roots hroots, hrun] at hx
  cases hx

end encode

end HeapSetter

end GrpcLua.Pb
