import GrpcLua.Pb.Scalar
import GrpcLua.Support.SortedMap
import Mathlib.Data.List.FinRange

/-!
# Pb — Descriptor

Message types and messages, as `google::protobuf::Descriptor` and `Reflection` present them.

A message is the list of what its fields hold, in the order of its descriptor.  Setting a member of
a oneof clears the others; a map is in the order of its keys, so that equal messages are one value.

A number that a closed enum does not have goes among the unknown fields of the message, and is no
value of the field.  It is kept beside what the field holds (`Content.unknown`), so that the order
between the unknown numbers of different fields is none of a message's, as
`MessageDifferencer` has it.
-/

namespace GrpcLua.Pb

/-- `implicit` is a singular field without presence, or of a message; `optional`, a scalar with
presence of its own. -/
inductive Label where
  | implicit
  | optional
  | oneof (index : Nat)
  | repeated
  /-- A map, with the full name and the key of its entry type. -/
  | map (entryName : Bytes) (key : KeyType)
  deriving DecidableEq, Repr

inductive FieldType where
  | scalar (t : ScalarType)
  /-- The type at the index of the pool. -/
  | message (type : Nat)
  deriving DecidableEq, Repr

/-- What a field, or an element of it, holds. -/
inductive Content (Num Float : Type) where
  | absent
  | scalar (s : Scalar Num Float)
  | message (slots : List (Content Num Float))
  | list (elements : List (Content Num Float))
  | map (entries : List (MapKey × Content Num Float))
  /-- The content, and the numbers for the field that are among the unknown fields. -/
  | unknown (content : Content Num Float) (numbers : List (BitVec 32))

variable {Num Float : Type}

namespace Content

/-- What the field holds without its unknown numbers. -/
def known : Content Num Float → Content Num Float
  | unknown c _ => c
  | c => c

def numbers : Content Num Float → List (BitVec 32)
  | unknown _ ns => ns
  | _ => []

/-- The field holds the content and has the unknown numbers. -/
def withNumbers (c : Content Num Float) : List (BitVec 32) → Content Num Float
  | [] => c
  | n :: ns => unknown c (n :: ns)

/-- The field is not set: `HasField()` is false. -/
def isAbsent (c : Content Num Float) : Bool :=
  match c.known with
  | absent => true
  | _ => false

/-- What is left when another member of the oneof is set. -/
def cleared : Content Num Float → Content Num Float
  | unknown _ ns => unknown absent ns
  | _ => absent

/-- The elements of a repeated field. -/
def elements : Content Num Float → List (Content Num Float)
  | list cs => cs
  | _ => []

/-- The entries of a map. -/
def entries : Content Num Float → List (MapKey × Content Num Float)
  | map es => es
  | _ => []

/-- The list with what has been made of new elements: an unknown number is no element. -/
def addAll (old : Content Num Float) (added : List (Content Num Float)) : Content Num Float :=
  (list (old.known.elements ++ added.filter (·.numbers.isEmpty))).withNumbers
    (old.numbers ++ added.flatMap numbers)

section
variable {c c' : Content Num Float} {ns : List (BitVec 32)}

@[simp] theorem isAbsent_iff : c.isAbsent = true ↔ c.known = absent := by
  cases h : c.known <;> simp [isAbsent, h]

/-- A field that is not absent holds a known value. -/
theorem isAbsent_eq_false : c.isAbsent = false ↔ c.known ≠ absent := by
  rw [← Bool.not_eq_true, isAbsent_iff]

/-- What is set, and what is unknown, is all of it. -/
theorem eq_of_known_cleared (hknown : c.known = c'.known) (hcleared : c.cleared = c'.cleared) :
    c = c' := by
  cases c with
  | unknown k ns =>
      cases c' with
      | unknown k' ns' =>
          obtain ⟨-, rfl⟩ := unknown.inj hcleared
          exact congrArg (unknown · ns) hknown
      | _ => cases hcleared
  | _ =>
      cases c' with
      | unknown => cases hcleared
      | _ => exact hknown

theorem withNumbers_of_ne_nil (h : ns ≠ []) : c.withNumbers ns = unknown c ns := by
  cases ns with
  | nil => exact absurd rfl h
  | cons n ns => rfl

/-- Elements without an unknown number are all added. -/
theorem addAll_nil {cs : List (Content Num Float)} (h : ∀ c ∈ cs, c.numbers = []) :
    (list []).addAll cs = list cs := by
  have hfilter : cs.filter (·.numbers.isEmpty) = cs :=
    List.filter_eq_self.2 fun c hc => by rw [h c hc]; rfl
  have hnumbers : cs.flatMap numbers = [] := List.flatMap_eq_nil_iff.2 h
  simp only [addAll, hfilter, hnumbers]
  rfl

end

end Content

/-- `FieldDescriptor`.  Of a map, `type` is the type of its values. -/
structure FieldDescriptor (Num Float : Type) where
  name : Bytes
  fullName : Bytes
  label : Label
  type : FieldType
  defaultValue : Scalar Num Float
  defaultHolds : ∀ t, type = .scalar t → t.Holds defaultValue

namespace FieldDescriptor

/-- The field is neither repeated nor a map. -/
def Singular (f : FieldDescriptor Num Float) : Prop :=
  f.label ≠ .repeated ∧ ∀ entryName key, f.label ≠ .map entryName key

/-- What the field holds in an empty message. -/
def initial (f : FieldDescriptor Num Float) : Content Num Float :=
  match f.label, f.type with
  | .implicit, .scalar _ => .scalar f.defaultValue
  | .repeated, _ => .list []
  | .map _ _, _ => .map []
  | _, _ => .absent

/-- An element of the repeated field, as a field. -/
def element (f : FieldDescriptor Num Float) : FieldDescriptor Num Float :=
  { f with label := .implicit }

/-- The field `value` of the entries of the map. -/
def value (f : FieldDescriptor Num Float) (entryName : Bytes) : FieldDescriptor Num Float :=
  { f with name := str "value", fullName := entryName ++ str ".value", label := .implicit }

/-- What the field holds after `SetInt32()` and its like, or `SetEnumValue()`, has been called with
the scalar. -/
def setScalar (f : FieldDescriptor Num Float) (old : Content Num Float) (s : Scalar Num Float) :
    Content Num Float :=
  match f.type with
  | .scalar t =>
      match t.unknownNumber s with
      | none => (Content.scalar s).withNumbers old.numbers
      | some n => old.known.withNumbers (old.numbers ++ [n])
  | .message _ => old

/-- The four kinds of fields. -/
theorem kinds (f : FieldDescriptor Num Float) :
    f.label = .repeated ∨ (∃ entryName key, f.label = .map entryName key) ∨
      (f.Singular ∧ ∃ t, f.type = .scalar t) ∨ (f.Singular ∧ ∃ t, f.type = .message t) := by
  cases hl : f.label <;> cases ht : f.type <;> simp [Singular, hl]

/-- An element of a list is set like a singular field. -/
theorem singular_element (f : FieldDescriptor Num Float) : f.element.Singular := by
  simp [Singular, element]

/-- So is a value of a map. -/
theorem singular_value (f : FieldDescriptor Num Float) (entryName : Bytes) :
    (f.value entryName).Singular := by
  simp [Singular, value]

/-- No unknown number is in an empty message. -/
theorem initial_known (f : FieldDescriptor Num Float) :
    f.initial.known = f.initial ∧ f.initial.numbers = [] := by
  rw [initial]
  split <;> exact ⟨rfl, rfl⟩

end FieldDescriptor

/-- `Descriptor`: the fields of a message type, of different names. -/
structure Descriptor (Num Float : Type) where
  fullName : Bytes
  fields : List (FieldDescriptor Num Float)
  nodup : (fields.map FieldDescriptor.name).Nodup

/-- The message types that are known, and `FindMessageTypeByName()`. -/
structure Pool (Num Float : Type) where
  descriptor : Nat → Descriptor Num Float
  findMessageTypeByName : Bytes → Option Nat

/-- A whole message of the type, as a field. -/
def Pool.root (_ : Pool Num Float) (type : Nat) : FieldDescriptor Num Float :=
  ⟨[], [], .implicit, .message type, .ofKey (.bool false), by simp⟩

theorem Pool.singular_root (pool : Pool Num Float) (type : Nat) : (pool.root type).Singular := by
  simp [FieldDescriptor.Singular, root]

namespace Descriptor
variable (d : Descriptor Num Float)

/-- The place of a field in the descriptor. -/
abbrev Index := Fin d.fields.length

def field (i : d.Index) : FieldDescriptor Num Float := d.fields[i]

/-- `FindFieldByName()`. -/
def findFieldByName (name : Bytes) : Option d.Index :=
  (List.finRange d.fields.length).find? fun i => (d.field i).name == name

/-- The two fields are members of one oneof. -/
def SameOneof (i j : d.Index) : Prop :=
  ∃ o, (d.field i).label = .oneof o ∧ (d.field j).label = .oneof o

instance (i j : d.Index) : Decidable (d.SameOneof i j) :=
  match h : (d.field i).label with
  | .oneof o =>
      decidable_of_iff ((d.field j).label = .oneof o)
        ⟨fun hj => ⟨o, h, hj⟩, fun ⟨_, hi, hj⟩ => by rw [hj, ← hi, h]⟩
  | .implicit | .optional | .repeated | .map _ _ =>
      isFalse fun ⟨_, hi, _⟩ => by rw [h] at hi; cases hi

/-- An empty message. -/
def empty : List (Content Num Float) := d.fields.map FieldDescriptor.initial

/-- What the field holds in the message. -/
def get (slots : List (Content Num Float)) (i : d.Index) : Content Num Float := slots.getD i .absent

/-- The message in which the field holds `c`; if it is set with that, no other member of its oneof
is. -/
def set (slots : List (Content Num Float)) (i : d.Index) (c : Content Num Float) :
    List (Content Num Float) :=
  (List.finRange d.fields.length).map fun j =>
    if j = i then c
    else if d.SameOneof i j ∧ c.isAbsent = false then (d.get slots j).cleared
    else d.get slots j

variable {d}
variable {slots : List (Content Num Float)} {c : Content Num Float} {i j : d.Index}

/-- No two fields have one name. -/
theorem field_name_injective (h : (d.field i).name = (d.field j).name) : i = j := by
  have hinj := List.nodup_iff_injective_get.1 d.nodup
  have hget : (d.fields.map FieldDescriptor.name).get (i.cast (by simp))
      = (d.fields.map FieldDescriptor.name).get (j.cast (by simp)) := by simpa [field] using h
  exact Fin.ext (by simpa using congrArg Fin.val (hinj hget))

/-- A name finds the field that has it. -/
theorem findFieldByName_eq_some {name : Bytes} :
    d.findFieldByName name = some i ↔ (d.field i).name = name := by
  constructor
  · intro h
    simpa using List.find?_some h
  · intro h
    cases hfind : d.findFieldByName name with
    | none =>
        have hnone := List.find?_eq_none.1 hfind i (List.mem_finRange i)
        simp [h] at hnone
    | some j =>
        have hj : (d.field j).name = name := by simpa using List.find?_some hfind
        rw [field_name_injective (h.trans hj.symm)]

@[simp] theorem findFieldByName_name (i : d.Index) : d.findFieldByName (d.field i).name = some i :=
  findFieldByName_eq_some.2 rfl

@[simp] theorem length_set : (d.set slots i c).length = d.fields.length := by simp [set]

@[simp] theorem length_empty : d.empty.length = d.fields.length := by simp [empty]

@[simp] theorem get_empty : d.get d.empty i = (d.field i).initial := by
  simp [get, empty, field, List.getD_eq_getElem?_getD]

/-- Setting a member of a oneof clears the others, unless nothing was set. -/
theorem get_set : d.get (d.set slots i c) j
    = if j = i then c
      else if d.SameOneof i j ∧ c.isAbsent = false then (d.get slots j).cleared
      else d.get slots j := by
  simp [get, set, List.getD_eq_getElem?_getD]

/-- Messages that hold the same in each field are the same. -/
theorem ext_get {slots slots' : List (Content Num Float)} (h : slots.length = d.fields.length)
    (h' : slots'.length = d.fields.length) (same : ∀ i : d.Index, d.get slots i = d.get slots' i) :
    slots = slots' := by
  refine List.ext_getElem (h.trans h'.symm) fun n hn hn' => ?_
  simpa [get, List.getD_eq_getElem?_getD, hn, hn'] using same ⟨n, h ▸ hn⟩

/-- A field has two parts, which are written each by itself: what it holds, and its unknown
numbers. -/
inductive Part where
  | known
  | unknown
  deriving DecidableEq

/-- The part of what the field holds. -/
def part : Part → Content Num Float → Content Num Float
  | .known => Content.known
  | .unknown => Content.cleared

variable (d) in
/-- What setting a field to `c` puts at a part of a field. -/
def touch (i : d.Index) (c : Content Num Float) (x : d.Index × Part) :
    Option (Content Num Float) :=
  if x.1 = i then some (part x.2 c)
  else if x.2 = .known ∧ d.SameOneof i x.1 ∧ c.isAbsent = false then some .absent
  else none

/-- What `set` does to the two parts of a field. -/
theorem part_set {p : Part} :
    part p (d.get (d.set slots i c) j) = (d.touch i c (j, p)).getD (part p (d.get slots j)) := by
  rw [get_set, touch]
  by_cases hj : j = i
  · simp [hj]
  rw [if_neg hj, if_neg hj]
  -- A member that is cleared keeps its unknown numbers.
  by_cases ho : d.SameOneof i j ∧ c.isAbsent = false
  · rw [if_pos ho]
    cases p with
    | known =>
        rw [if_pos ⟨rfl, ho⟩]
        cases d.get slots j <;> rfl
    | unknown =>
        rw [if_neg fun h => Part.noConfusion h.1]
        cases d.get slots j <;> rfl
  · rw [if_neg ho, if_neg fun h => ho h.2]
    rfl

variable (d) in
/-- A message, and what sets its fields: a field and what it comes to hold, or nothing. -/
def writes : LastWrite (List (Content Num Float)) (Option (d.Index × Content Num Float))
    (d.Index × Part) (Content Num Float) where
  apply
    | slots, some (i, c) => d.set slots i c
    | slots, none => slots
  look slots x := part x.2 (d.get slots x.1)
  touch
    | some (i, c), x => d.touch i c x
    | none, _ => none
  Valid slots := slots.length = d.fields.length
  valid_apply
    | _, some _, _ => length_set
    | _, none, h => h
  look_apply
    | _, some (_, _), (_, _), _ => part_set
    | _, none, _, _ => rfl
  ext _ _ h h' same := ext_get h h' fun i =>
    Content.eq_of_known_cleared (same (i, .known)) (same (i, .unknown))

/-- A write puts both parts of its own field. -/
theorem touch_self {p : Part} : d.writes.touch (some (i, c)) (i, p) = some (part p c) := if_pos rfl

/-- A write clears what is known of the other members of its oneof. -/
theorem touch_sameOneof (hne : j ≠ i) (h : d.SameOneof i j) (hc : c.isAbsent = false) :
    d.writes.touch (some (i, c)) (j, .known) = some .absent := by
  change d.touch i c (j, .known) = _
  rw [touch, if_neg hne, if_pos ⟨rfl, h, hc⟩]

/-- Where a write puts what. -/
theorem touch_eq_some {p : Part} {c' : Content Num Float} :
    d.writes.touch (some (i, c)) (j, p) = some c' ↔
      j = i ∧ c' = part p c ∨
      j ≠ i ∧ p = .known ∧ d.SameOneof i j ∧ c.isAbsent = false ∧ c' = .absent := by
  change (if j = i then some (part p c)
    else if p = .known ∧ d.SameOneof i j ∧ c.isAbsent = false then some .absent
    else none) = some c' ↔ _
  split_ifs with hj ho
  · rw [Option.some.injEq]
    exact ⟨fun h => .inl ⟨hj, h.symm⟩, fun h => h.elim (·.2.symm) fun h => absurd hj h.1⟩
  · rw [Option.some.injEq]
    exact ⟨fun h => .inr ⟨hj, ho.1, ho.2.1, ho.2.2, h.symm⟩,
      fun h => h.elim (fun h => absurd h.1 hj) fun h => h.2.2.2.2.symm⟩
  · refine ⟨nofun, ?_⟩
    rintro (⟨h, -⟩ | ⟨-, hp, hij, hc, -⟩)
    · exact absurd h hj
    · exact absurd ⟨hp, hij, hc⟩ ho

/-- Where a write puts nothing. -/
theorem touch_eq_none {p : Part} :
    d.writes.touch (some (i, c)) (j, p) = none ↔
      j ≠ i ∧ ¬ (p = .known ∧ d.SameOneof i j ∧ c.isAbsent = false) := by
  rw [Option.eq_none_iff_forall_ne_some]
  simp only [ne_eq, touch_eq_some]
  by_cases hj : j = i
  · exact iff_of_false (fun h => h _ (.inl ⟨hj, rfl⟩)) fun h => h.1 hj
  · refine ⟨fun h => ⟨hj, fun ⟨hp, hij, hc⟩ => h _ (.inr ⟨hj, hp, hij, hc, rfl⟩)⟩, ?_⟩
    rintro ⟨-, ho⟩ a (⟨h, -⟩ | ⟨-, hp, hij, hc, -⟩)
    · exact hj h
    · exact ho ⟨hp, hij, hc⟩

/-- What holds of what is written, and is kept where a field is cleared, holds of each field. -/
theorem forall_writeAll {P : d.Index → Content Num Float → Prop}
    (hcleared : ∀ j o c, (d.field j).label = .oneof o → P j c → P j c.cleared)
    (h : ∀ j, P j (d.get slots j)) (ws : List (Option (d.Index × Content Num Float)))
    (hws : ∀ i c, some (i, c) ∈ ws → P i c) :
    ∀ j, P j (d.get (d.writes.writeAll slots ws) j) := by
  induction ws generalizing slots with
  | nil => exact h
  | cons w ws ih =>
      have htail : ∀ i c, some (i, c) ∈ ws → P i c :=
        fun i c hc => hws i c (List.mem_cons_of_mem _ hc)
      cases w with
      | none => exact ih h htail
      | some w =>
          obtain ⟨i, c⟩ := w
          refine ih (fun j => ?_) htail
          change P j (d.get (d.set slots i c) j)
          rw [get_set]
          split_ifs with hj ho
          · exact hj ▸ hws i c List.mem_cons_self
          · obtain ⟨⟨o, -, ho⟩, -⟩ := ho
            exact hcleared j o _ ho (h j)
          · exact h j

/-- Both parts of a field are what they are in `c`. -/
theorem get_eq (h : ∀ p, d.writes.look slots (i, p) = part p c) : d.get slots i = c :=
  Content.eq_of_known_cleared (h .known) (h .unknown)

end Descriptor

end GrpcLua.Pb
