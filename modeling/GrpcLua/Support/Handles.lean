import GrpcLua.Support.Runs

/-!
# Support — Handles

Threads that are joined through handles on the heap.  An object keeps a pointer to a handle;
creating a thread writes the thread into the handle, and joining reads it from there.  A thread goes
on until the object that it was created with tells it to end, which it looks at whenever it is
awake.  A handle that has been deleted, and a join of what is no thread or of a thread that has been
joined, are undefined behaviour; a join of a thread that is never told to end, or that does not
wake, waits for ever.

Each handle belongs to one object and names a thread of that object (`Owned`), or something is
`Spoiled`: a handle is shared, or deleted too early, or a thread is named by no handle any more.
What is spoiled stays so, and shows by the time the last object is gone (`Spoiled.not_settled`).
-/

namespace Handles
open Prog

/-- A handle on the heap.  `thread` is what was written into it. -/
structure Handle where
  thread : Option Nat := none
  deleted : Bool := false
  deriving DecidableEq, Repr

/-- A thread, the object it was created with, and whether it has been joined. -/
structure Thread where
  arg : Nat
  joined : Bool := false
  deriving DecidableEq, Repr

/-- The handles that were allocated, the threads that were created, and the objects, of which those
that are destroyed are gone.  `waiting` is set where a join waits for ever. -/
structure Store (α : Type) where
  handles : List Handle := []
  threads : List Thread := []
  objects : List (Option α) := []
  waiting : Bool := false
  deriving DecidableEq, Repr

/-- An object with a pointer to a handle.  A thread created with it runs while `goesOn`. -/
class Owner (α : Type) where
  handle : α → Nat
  goesOn : α → Bool

export Owner (handle goesOn)

variable {α : Type}

abbrev M (α : Type) := EStateM Exit (Store α)

/-! ### Operations -/

/-- The object, which has to be there. -/
def object (i : Nat) : M α α := do
  let s ← get
  match s.objects[i]? with
  | some (some o) => pure o
  | _ => throw .undefined

def addObject (o : α) : M α Unit := modify fun s => { s with objects := s.objects ++ [some o] }

def setObject (i : Nat) (o : α) : M α Unit :=
  modify fun s => { s with objects := s.objects.set i (some o) }

def removeObject (i : Nat) : M α Unit :=
  modify fun s => { s with objects := s.objects.set i none }

/-- `new pthread_t()` -/
def newHandle : M α Nat := do
  let s ← get
  modify fun s => { s with handles := s.handles ++ [{}] }
  pure s.handles.length

/-- The handle that is pointed to, which must not have been deleted. -/
def deref (k : Nat) : M α Handle := do
  let s ← get
  match s.handles[k]? with
  | some h => if h.deleted then throw .undefined else pure h
  | none => throw .undefined

/-- `pthread_create(k, NULL, .., arg)`; where it fails, it leaves no thread in the handle. -/
def pthreadCreate (k arg : Nat) (created : Bool) : M α Unit := do
  let _ ← deref k
  if created then
    modify fun s => { s with
      handles := s.handles.set k { thread := some s.threads.length }
      threads := s.threads ++ [{ arg }] }
  else modify fun s => { s with handles := s.handles.set k {} }

variable [Owner α]

/-- `pthread_join(*k, ..)`, and whether it returns.  The thread may be waiting for something when it
is joined; `wakes` says whether it comes back from there. -/
def pthreadJoin (k : Nat) (wakes : Bool) : M α Bool := do
  let h ← deref k
  let s ← get
  match h.thread with
  | none => throw .undefined
  | some t =>
      match s.threads[t]? with
      | some ⟨arg, false⟩ =>
          -- The thread reads the flag of the object it was created with.
          if goesOn (← object arg) || !wakes then
            modify fun s => { s with waiting := true }
            pure false
          else
            modify fun s => { s with threads := s.threads.set t { arg, joined := true } }
            pure true
      | _ => throw .undefined

/-- `delete k` -/
def deleteHandle (k : Nat) : M α Unit := do
  let h ← deref k
  modify fun s => { s with handles := s.handles.set k { h with deleted := true } }

/-- The end of an object, whose thread is joined and whose handle is deleted. -/
def joinAndDelete (i k : Nat) (wakes : Bool) : M α Unit := do
  if ← pthreadJoin k wakes then
    deleteHandle k
    removeObject i

/-! ### Objects and handles -/

variable {s : Store α}

/-- The object is there. -/
def Live (s : Store α) (i : Nat) (o : α) : Prop := s.objects[i]? = some (some o)

/-- The handle has not been deleted. -/
def Open (s : Store α) (k : Nat) (h : Handle) : Prop := s.handles[k]? = some h ∧ h.deleted = false

/-- The last object is gone. -/
def Gone (s : Store α) : Prop := ∀ i o, ¬ Live s i o

/-- Every thread has been joined, and every handle deleted. -/
structure Settled (s : Store α) : Prop where
  joined : ∀ th ∈ s.threads, th.joined = true
  deleted : ∀ h ∈ s.handles, h.deleted = true

/-- The handles are those of the objects, one for each, and the threads that have not been joined
are those that they name, each created with the object of its handle. -/
structure Owned (s : Store α) : Prop where
  valid : ∀ i o, Live s i o → ∃ h, Open s (handle o) h
  alone : ∀ i o i' o', Live s i o → Live s i' o' → handle o = handle o' → i = i'
  held : ∀ k h, Open s k h → ∃ i o, Live s i o ∧ handle o = k
  unjoined : ∀ i o h t, Live s i o → Open s (handle o) h → h.thread = some t →
    s.threads[t]? = some { arg := i }
  named : ∀ t i, s.threads[t]? = some { arg := i } →
    ∃ o h, Live s i o ∧ Open s (handle o) h ∧ h.thread = some t
  free : s.waiting = false

/-- At the start there is nothing to own. -/
theorem Owned.empty : Owned ({} : Store α) where
  valid _ _ h := by simp [Live] at h
  alone _ _ _ _ h := by simp [Live] at h
  held _ _ h := by simp [Open] at h
  unjoined _ _ _ _ h := by simp [Live] at h
  named _ _ h := by simp at h
  free := rfl

/-- With the last object gone, nothing is left. -/
theorem Owned.settled (h : Owned s) (hgone : Gone s) : Settled s where
  joined := by
    rintro ⟨i, joined⟩ hmem
    by_contra hne
    obtain ⟨t, ht⟩ := List.mem_iff_getElem?.mp hmem
    obtain rfl : joined = false := by simpa using hne
    obtain ⟨o, hd, hlive, -⟩ := h.named t i ht
    exact hgone i o hlive
  deleted := by
    intro hd hmem
    by_contra hne
    obtain ⟨k, hk⟩ := List.mem_iff_getElem?.mp hmem
    obtain ⟨i, o, hlive, -⟩ := h.held k hd ⟨hk, by simpa using hne⟩
    exact hgone i o hlive

/-- What cannot be made good any more. -/
inductive Spoiled (s : Store α) : Prop where
  /-- An object points to a handle that has been deleted. -/
  | dangling (i : Nat) (o : α) (h : Handle) (hlive : Live s i o)
      (hhandle : s.handles[handle o]? = some h) (hdeleted : h.deleted = true)
  /-- Two objects point to one handle. -/
  | shared (i i' : Nat) (o o' : α) (hlive : Live s i o) (hlive' : Live s i' o') (hne : i ≠ i')
      (hhandle : handle o = handle o')
  /-- No object's handle names the thread. -/
  | lostThread (t i : Nat) (hjoined : s.threads[t]? = some { arg := i })
      (hnone : ∀ i o h, Live s i o → Open s (handle o) h → h.thread ≠ some t)
  /-- A join waits for ever. -/
  | stuck (hwaiting : s.waiting = true)

/-- What is spoiled shows when the last object is gone. -/
theorem Spoiled.not_settled (h : Spoiled s) (hgone : Gone s) (hwaiting : s.waiting = false) :
    ¬ Settled s := by
  intro hs
  cases h with
  | dangling i o hd hlive => exact hgone i o hlive
  | shared i i' o o' hlive => exact hgone i o hlive
  | lostThread t i hjoined =>
      have := hs.joined _ (List.mem_of_getElem? hjoined)
      cases this
  | stuck hw =>
      rw [hw] at hwaiting
      cases hwaiting

/-! ### Objects that come, go and change -/

section objects
omit [Owner α]
variable {s' : Store α} {i j k : Nat} {o o' : α} {h h' : Handle}

theorem Live.unique (hi : Live s i o) (hi' : Live s i o') : o = o' :=
  Option.some.inj (Option.some.inj (hi.symm.trans hi'))

theorem Open.unique (hk : Open s k h) (hk' : Open s k h') : h = h' :=
  Option.some.inj (hk.1.symm.trans hk'.1)

theorem Open.lt (hk : Open s k h) : k < s.handles.length :=
  (List.getElem?_eq_some_iff.mp hk.1).1

/-- An open handle is not one that has been deleted. -/
theorem Open.ne_deleted (hk : Open s k h) (hj : s.handles[j]? = some h') (hd : h'.deleted = true) :
    k ≠ j := by
  rintro rfl
  obtain rfl := Option.some.inj (hj.symm.trans hk.1)
  rw [hk.2] at hd
  cases hd

/-- An element of a list with one more is one of the list, or the new one. -/
theorem getElem?_concat_iff {β : Type} {l : List β} {b b' : β} :
    (l ++ [b])[j]? = some b' ↔ l[j]? = some b' ∨ j = l.length ∧ b' = b := by
  rcases Nat.lt_trichotomy j l.length with hj | rfl | hj
  · rw [List.getElem?_append_left hj]
    exact ⟨.inl, fun h => h.elim id fun h => absurd h.1 (Nat.ne_of_lt hj)⟩
  · simp [eq_comm]
  · rw [List.getElem?_eq_none (by simp; omega), List.getElem?_eq_none (Nat.le_of_lt hj)]
    constructor
    · intro h
      cases h
    · rintro (h | ⟨rfl, -⟩)
      · cases h
      · exact absurd hj (Nat.lt_irrefl _)

/-- A new object is live, and so is every other. -/
theorem live_add (hs : s'.objects = s.objects ++ [some o]) :
    Live s' j o' ↔ Live s j o' ∨ j = s.objects.length ∧ o' = o := by
  rw [Live, hs, getElem?_concat_iff, Option.some.injEq]
  exact Iff.rfl

/-- One object is replaced, or gone, and the others are as they were. -/
theorem live_set (hi : Live s i o) {x : Option α} (hs : s'.objects = s.objects.set i x) :
    Live s' j o' ↔ j = i ∧ x = some o' ∨ j ≠ i ∧ Live s j o' := by
  simp only [Live, hs]
  by_cases hij : j = i
  · subst hij
    rw [List.getElem?_set_self (List.getElem?_eq_some_iff.mp hi).1]
    simp
  · rw [List.getElem?_set_ne (Ne.symm hij)]
    simp [hij]

theorem Live.set (hi : Live s i o) :
    Live { s with objects := s.objects.set i (some o') } i o' :=
  (live_set hi rfl).mpr (.inl ⟨rfl, rfl⟩)

/-- A new handle is open, and so is every other. -/
theorem open_append (hs : s'.handles = s.handles ++ [({} : Handle)]) :
    Open s' k h ↔ Open s k h ∨ k = s.handles.length ∧ h = {} := by
  rw [Open, hs, getElem?_concat_iff, or_and_right]
  refine or_congr Iff.rfl ⟨And.left, fun hk => ⟨hk, ?_⟩⟩
  rw [hk.2]

/-- One handle is written, and the others are as they were. -/
theorem open_set (hk : Open s k h) {h₁ : Handle} {k' : Nat}
    (hs : s'.handles = s.handles.set k h₁) :
    Open s' k' h' ↔ k' = k ∧ h' = h₁ ∧ h₁.deleted = false ∨ k' ≠ k ∧ Open s k' h' := by
  simp only [Open, hs]
  by_cases hkk : k' = k
  · subst hkk
    rw [List.getElem?_set_self hk.lt]
    simp only [Option.some.injEq, true_and, ne_eq, not_true_eq_false, false_and, or_false]
    constructor
    · rintro ⟨rfl, hd⟩
      exact ⟨rfl, hd⟩
    · rintro ⟨rfl, hd⟩
      exact ⟨rfl, hd⟩
  · rw [List.getElem?_set_ne (Ne.symm hkk)]
    simp [hkk]

end objects

variable {i : Nat} {o o' : α}

/-- A new object with a new handle. -/
abbrev Store.constructed (s : Store α) (o : α) : Store α :=
  { s with handles := s.handles ++ [{}], objects := s.objects ++ [some o] }

/-- A new object owns its new handle. -/
theorem Owned.constructed (h : Owned s) (ho : handle o = s.handles.length) :
    Owned (s.constructed o) where
  valid i o' hi := by
    rcases (live_add rfl).mp hi with hi | ⟨-, rfl⟩
    · obtain ⟨hd, hopen⟩ := h.valid i o' hi
      exact ⟨hd, (open_append rfl).mpr (.inl hopen)⟩
    · exact ⟨{}, (open_append rfl).mpr (.inr ⟨ho, rfl⟩)⟩
  alone i o₁ i' o₂ hi hi' heq := by
    rcases (live_add rfl).mp hi with hold | ⟨hi₁, ho₁⟩
    · rcases (live_add rfl).mp hi' with hold' | ⟨-, ho₂⟩
      · exact h.alone i o₁ i' o₂ hold hold' heq
      · obtain ⟨hd, hopen⟩ := h.valid i o₁ hold
        rw [heq, ho₂, ho] at hopen
        exact absurd hopen.lt (Nat.lt_irrefl _)
    · rcases (live_add rfl).mp hi' with hold' | ⟨hi₂, -⟩
      · obtain ⟨hd, hopen⟩ := h.valid i' o₂ hold'
        rw [← heq, ho₁, ho] at hopen
        exact absurd hopen.lt (Nat.lt_irrefl _)
      · exact hi₁.trans hi₂.symm
  held k hd hopen := by
    rcases (open_append rfl).mp hopen with hopen | ⟨rfl, -⟩
    · obtain ⟨i, o', hi, hk⟩ := h.held k hd hopen
      exact ⟨i, o', (live_add rfl).mpr (.inl hi), hk⟩
    · exact ⟨_, o, (live_add rfl).mpr (.inr ⟨rfl, rfl⟩), ho⟩
  unjoined i o' hd t hi hopen ht := by
    rcases (open_append rfl).mp hopen with hold | ⟨-, rfl⟩
    · rcases (live_add rfl).mp hi with hi | ⟨-, rfl⟩
      · exact h.unjoined i o' hd t hi hold ht
      · rw [ho] at hold
        exact absurd hold.lt (Nat.lt_irrefl _)
    · cases ht
  named t i ht := by
    obtain ⟨o', hd, hi, hopen, hk⟩ := h.named t i ht
    exact ⟨o', hd, (live_add rfl).mpr (.inl hi), (open_append rfl).mpr (.inl hopen), hk⟩
  free := h.free

/-- A new object makes nothing good. -/
theorem Spoiled.constructed (h : Spoiled s) (ho : handle o = s.handles.length) :
    Spoiled (s.constructed o) := by
  cases h with
  | dangling i o' hd hlive hhandle hdeleted =>
      refine .dangling i o' hd ((live_add rfl).mpr (.inl hlive)) ?_ hdeleted
      exact (List.getElem?_append_left (List.getElem?_eq_some_iff.mp hhandle).1).trans hhandle
  | shared i i' o₁ o₂ hlive hlive' hne hhandle =>
      exact .shared i i' o₁ o₂ ((live_add rfl).mpr (.inl hlive)) ((live_add rfl).mpr (.inl hlive'))
        hne hhandle
  | lostThread t i hjoined hnone =>
      refine .lostThread t i hjoined fun i o' hd hlive hopen ht => ?_
      rcases (open_append rfl).mp hopen with hold | ⟨-, rfl⟩
      · rcases (live_add rfl).mp hlive with hlive | ⟨-, rfl⟩
        · exact hnone i o' hd hlive hold ht
        · rw [ho] at hold
          exact absurd hold.lt (Nat.lt_irrefl _)
      · cases ht
  | stuck hw => exact .stuck hw

/-- Where an object changes, but for its handle, each handle is still somebody's. -/
theorem Live.changed {j : Nat} {o₁ : α} (hj : Live s j o₁) (hi : Live s i o)
    (ho : handle o' = handle o) : ∃ o₂,
    Live { s with objects := s.objects.set i (some o') } j o₂ ∧ handle o₂ = handle o₁ := by
  by_cases hij : j = i
  · subst hij
    obtain rfl := hj.unique hi
    exact ⟨o', hi.set, ho⟩
  · exact ⟨o₁, (live_set hi rfl).mpr (.inr ⟨hij, hj⟩), rfl⟩

/-- An object that keeps its handle may change. -/
theorem Owned.changed (h : Owned s) (hi : Live s i o) (ho : handle o' = handle o) :
    Owned { s with objects := s.objects.set i (some o') } := by
  have hback : ∀ {j o₁}, Live { s with objects := s.objects.set i (some o') } j o₁ →
      ∃ o₂, Live s j o₂ ∧ handle o₁ = handle o₂ := by
    intro j o₁ hj
    rcases (live_set hi rfl).mp hj with ⟨rfl, hx⟩ | ⟨-, hj⟩
    · obtain rfl := Option.some.inj hx
      exact ⟨o, hi, ho⟩
    · exact ⟨o₁, hj, rfl⟩
  constructor
  · intro j o₁ hj
    obtain ⟨o₂, hj, heq⟩ := hback hj
    rw [heq]
    exact h.valid j o₂ hj
  · intro j o₁ j' o₂ hj hj' heq
    obtain ⟨o₃, hj, heq₁⟩ := hback hj
    obtain ⟨o₄, hj', heq₂⟩ := hback hj'
    exact h.alone j o₃ j' o₄ hj hj' (heq₁.symm.trans (heq.trans heq₂))
  · intro k hd hopen
    obtain ⟨j, o₁, hj, hk⟩ := h.held k hd hopen
    obtain ⟨o₂, hj, heq⟩ := hj.changed hi ho
    exact ⟨j, o₂, hj, heq.trans hk⟩
  · intro j o₁ hd t hj hopen
    obtain ⟨o₂, hj, heq⟩ := hback hj
    exact h.unjoined j o₂ hd t hj (heq ▸ hopen)
  · intro t j ht
    obtain ⟨o₁, hd, hj, hopen, hk⟩ := h.named t j ht
    obtain ⟨o₂, hj, heq⟩ := hj.changed hi ho
    exact ⟨o₂, hd, hj, heq.symm ▸ hopen, hk⟩
  · exact h.free

/-- Such a change makes nothing good. -/
theorem Spoiled.changed (h : Spoiled s) (hi : Live s i o) (ho : handle o' = handle o) :
    Spoiled { s with objects := s.objects.set i (some o') } := by
  cases h with
  | dangling a oa hd hlive hhandle hdeleted =>
      obtain ⟨ob, hlive, heq⟩ := hlive.changed hi ho
      exact .dangling a ob hd hlive (heq.symm ▸ hhandle) hdeleted
  | shared a b oa ob hlive hlive' hne hhandle =>
      obtain ⟨oa', hlive, heq⟩ := hlive.changed hi ho
      obtain ⟨ob', hlive', heq'⟩ := hlive'.changed hi ho
      exact .shared a b oa' ob' hlive hlive' hne (heq.trans (hhandle.trans heq'.symm))
  | lostThread t a hjoined hnone =>
      refine .lostThread t a hjoined fun a oa hd ha hopen => ?_
      rcases (live_set hi rfl).mp ha with ⟨rfl, hx⟩ | ⟨-, ha⟩
      · obtain rfl := Option.some.inj hx
        exact hnone a o hd hi (ho ▸ hopen)
      · exact hnone a oa hd ha hopen
  | stuck hw => exact .stuck hw

/-- An object is made to point to the handle of another one. -/
theorem spoiled_repointed {j : Nat} {o₁ : α} (hi : Live s i o) (hj : Live s j o₁)
    (hne : i ≠ j) (ho : handle o' = handle o₁) :
    Spoiled { s with objects := s.objects.set i (some o') } :=
  .shared i j o' o₁ hi.set
    ((live_set hi rfl).mpr (.inr ⟨Ne.symm hne, hj⟩)) hne ho

/-- An object is copied: two objects point to its handle. -/
theorem spoiled_copied (hi : Live s i o) (ho : handle o' = handle o) :
    Spoiled { s with objects := s.objects ++ [some o'] } := by
  refine .shared i s.objects.length o o' ((live_add rfl).mpr (.inl hi))
    ((live_add rfl).mpr (.inr ⟨rfl, rfl⟩)) ?_ ho.symm
  exact Nat.ne_of_lt (List.getElem?_eq_some_iff.mp hi).1

/-! ### Threads that are created and joined -/

/-- The thread that was written into the handle. -/
def names (s : Store α) (k : Nat) : Option Nat := s.handles[k]?.bind (·.thread)

omit [Owner α] in
theorem Open.names {k : Nat} {h : Handle} (hk : Open s k h) : names s k = h.thread := by
  rw [Handles.names, hk.1, Option.bind_some]

omit [Owner α] in
/-- What a dereferenced handle is. -/
theorem wp_deref {k : Nat} {Q : Handle → Store α → Prop} {E : Exit → Store α → Prop}
    (hQ : ∀ h, Open s k h → Q h s) (hE : (∀ h, ¬ Open s k h) → E .undefined s) :
    wp (deref k) Q E s := by
  simp only [deref, wp_bind, wp_get]
  cases hk : s.handles[k]? with
  | none =>
      refine hE fun h hopen => ?_
      rw [hopen.1] at hk
      cases hk
  | some h =>
      simp only [wp_ite]
      split
      · rename_i hd
        refine hE fun h' hopen => ?_
        obtain rfl := Option.some.inj (hk.symm.trans hopen.1)
        rw [hopen.2] at hd
        cases hd
      · rename_i hd
        exact hQ h ⟨hk, Bool.not_eq_true _ ▸ hd⟩

omit [Owner α] in
/-- The object, or undefined behaviour. -/
theorem wp_object {Q : α → Store α → Prop} {E : Exit → Store α → Prop}
    (hQ : ∀ o, Live s i o → Q o s) (hE : (∀ o, ¬ Live s i o) → E .undefined s) :
    wp (object i) Q E s := by
  simp only [object, wp_bind, wp_get]
  split
  · rename_i o ho
    exact hQ o ho
  · rename_i hne
    exact hE fun o ho => hne o ho

omit [Owner α] in
theorem Live.wp_object (hi : Live s i o) {Q : α → Store α → Prop} {E : Exit → Store α → Prop}
    (hQ : Q o s) : wp (object i) Q E s := by
  refine Handles.wp_object (fun o' ho => ?_) fun hn => absurd hi (hn o)
  obtain rfl := ho.unique hi
  exact hQ

/-- What `pthread_create` leaves. -/
abbrev Store.created (s : Store α) (k arg : Nat) (created : Bool) : Store α :=
  if created then
    { s with
      handles := s.handles.set k { thread := some s.threads.length }
      threads := s.threads ++ [{ arg }] }
  else { s with handles := s.handles.set k {} }

omit [Owner α] in
/-- A thread is created in an open handle, or the behaviour is undefined. -/
theorem wp_pthreadCreate {k arg : Nat} {created : Bool} {Q : Unit → Store α → Prop}
    {E : Exit → Store α → Prop} (hQ : ∀ h, Open s k h → Q () (s.created k arg created))
    (hE : (∀ h, ¬ Open s k h) → E .undefined s) : wp (pthreadCreate k arg created) Q E s := by
  rw [pthreadCreate, wp_bind]
  refine wp_deref (fun h hopen => ?_) hE
  cases created
  · exact hQ h hopen
  · exact hQ h hopen

/-- The thread that a join of the handle waits for, and the object it runs on. -/
structure Awaits (s : Store α) (k t i : Nat) (o : α) : Prop where
  opened : ∃ h, Open s k h ∧ h.thread = some t
  unjoined : s.threads[t]? = some { arg := i }
  live : Live s i o

/-- What a join can do. -/
theorem wp_pthreadJoin {k : Nat} {wakes : Bool} {Q : Bool → Store α → Prop}
    {E : Exit → Store α → Prop}
    (hQ : ∀ t i o, Awaits s k t i o → (goesOn o || !wakes) = false →
      Q true { s with threads := s.threads.set t { arg := i, joined := true } })
    (hwaits : ∀ t i o, Awaits s k t i o → (goesOn o || !wakes) = true →
      Q false { s with waiting := true })
    (hE : (∀ t i o, ¬ Awaits s k t i o) → E .undefined s) : wp (pthreadJoin k wakes) Q E s := by
  rw [pthreadJoin, wp_bind]
  refine wp_deref (fun h hopen => ?_) fun hn => hE fun t i o ha => ?_
  · rw [wp_bind, wp_get]
    -- Whatever the join looks up on its way is determined by the handle.
    have hE' : (∀ t i o, h.thread = some t → s.threads[t]? = some { arg := i } → ¬ Live s i o) →
        E .undefined s := by
      intro hne
      refine hE fun t i o ha => ?_
      obtain ⟨h', hopen', ht⟩ := ha.opened
      obtain rfl := hopen.unique hopen'
      exact hne t i o ht ha.unjoined ha.live
    cases ht : h.thread with
    | none =>
        refine hE' fun t i o ht' => ?_
        rw [ht] at ht'
        cases ht'
    | some t =>
        dsimp only
        split
        · rename_i i hth
          rw [wp_bind]
          refine wp_object (fun o ho => ?_) fun hn => hE' fun t' i' o ht' hth' ho => ?_
          · have ha : Awaits s k t i o := ⟨⟨h, hopen, ht⟩, hth, ho⟩
            rw [wp_ite]
            split
            · rename_i hgoes
              exact hwaits t i o ha hgoes
            · rename_i hgoes
              exact hQ t i o ha (Bool.not_eq_true _ ▸ hgoes)
          · obtain rfl := Option.some.inj (ht.symm.trans ht')
            obtain rfl : i = i' := by simpa using hth.symm.trans hth'
            exact hn o ho
        · rename_i hne
          refine hE' fun t' i o ht' hth _ => ?_
          obtain rfl := Option.some.inj (ht.symm.trans ht')
          exact hne i hth
  · obtain ⟨h, hopen, -⟩ := ha.opened
    exact hn h hopen

/-- A thread is created with an object whose handle names none. -/
theorem Owned.created (h : Owned s) (hi : Live s i o) (hnone : names s (handle o) = none)
    (created : Bool) : Owned (s.created (handle o) i created) := by
  obtain ⟨hd, hopen⟩ := h.valid i o hi
  have ht : hd.thread = none := by rwa [hopen.names] at hnone
  cases created with
  | false =>
      -- The handle is as it was.
      have hhd : hd = {} := by
        obtain ⟨thread, deleted⟩ := hd
        obtain rfl : thread = none := ht
        obtain rfl : deleted = false := hopen.2
        rfl
      have hsame : s.handles.set (handle o) {} = s.handles := by
        rw [← hhd]
        obtain ⟨hlt, hget⟩ := List.getElem?_eq_some_iff.mp hopen.1
        rw [← hget, List.set_getElem_self]
      simp only [Store.created, hsame]
      exact h
  | true =>
      have hset : ∀ {k hd'}, Open (s.created (handle o) i true) k hd' ↔
          k = handle o ∧ hd' = { thread := some s.threads.length } ∧ false = false ∨
            k ≠ handle o ∧ Open s k hd' := open_set hopen rfl
      constructor
      · intro j o' hj
        by_cases heq : handle o' = handle o
        · exact ⟨_, hset.mpr (.inl ⟨heq, rfl, rfl⟩)⟩
        · obtain ⟨hd', hopen'⟩ := h.valid j o' hj
          exact ⟨hd', hset.mpr (.inr ⟨heq, hopen'⟩)⟩
      · exact h.alone
      · intro k hd' hopen'
        rcases hset.mp hopen' with ⟨rfl, -⟩ | ⟨-, hold⟩
        · exact ⟨i, o, hi, rfl⟩
        · exact h.held k hd' hold
      · intro j o' hd' t hj hopen' ht'
        rcases hset.mp hopen' with ⟨heq, rfl, -⟩ | ⟨-, hold⟩
        · obtain rfl := h.alone j o' i o hj hi heq
          obtain rfl := Option.some.inj ht'
          exact List.getElem?_concat_length
        · have hold' := h.unjoined j o' hd' t hj hold ht'
          exact (List.getElem?_append_left (List.getElem?_eq_some_iff.mp hold').1).trans hold'
      · intro t j ht'
        rcases getElem?_concat_iff.mp ht' with hold | ⟨rfl, hnew⟩
        · obtain ⟨o', hd', hj, hopen', hk⟩ := h.named t j hold
          refine ⟨o', hd', hj, hset.mpr (.inr ⟨fun heq => ?_, hopen'⟩), hk⟩
          rw [heq] at hopen'
          obtain rfl := hopen.unique hopen'
          rw [ht] at hk
          cases hk
        · obtain rfl : j = i := by simpa using hnew
          exact ⟨o, _, hi, hset.mpr (.inl ⟨rfl, rfl, rfl⟩), rfl⟩
      · exact h.free

omit [Owner α] in
/-- A handle is written, and names no earlier thread then. -/
theorem created_eq (s : Store α) (k arg : Nat) (created : Bool) : ∃ h ts,
    s.created k arg created =
      { s with handles := s.handles.set k h, threads := s.threads ++ ts } ∧
    ∀ t, h.thread = some t → s.threads.length ≤ t := by
  cases created with
  | true => exact ⟨_, _, rfl, fun t ht => Nat.le_of_eq (Option.some.inj ht)⟩
  | false => exact ⟨{}, [], by simp [Store.created], fun t ht => by cases ht⟩

/-- A new thread makes nothing good. -/
theorem Spoiled.created (h : Spoiled s) {hd : Handle} (hopen : Open s (handle o) hd) (arg : Nat)
    (created : Bool) : Spoiled (s.created (handle o) arg created) := by
  obtain ⟨h₁, ts, hs, hnew⟩ := created_eq s (handle o) arg created
  rw [hs]
  cases h with
  | dangling a oa hd' hlive hhandle hdeleted =>
      refine .dangling a oa hd' hlive ?_ hdeleted
      exact (List.getElem?_set_ne (hopen.ne_deleted hhandle hdeleted)).trans hhandle
  | shared a b oa ob hlive hlive' hne hhandle => exact .shared a b oa ob hlive hlive' hne hhandle
  | lostThread t a hjoined hnone =>
      have hlt := (List.getElem?_eq_some_iff.mp hjoined).1
      refine .lostThread t a ((List.getElem?_append_left hlt).trans hjoined) ?_
      intro b ob hd' hb hopen' ht
      rcases (open_set hopen rfl).mp hopen' with ⟨-, rfl, -⟩ | ⟨-, hold⟩
      · exact absurd (hnew t ht) (Nat.not_le.mpr hlt)
      · exact hnone b ob hd' hb hold ht
  | stuck hw => exact .stuck hw

/-- A thread is created over the one that the handle names. -/
theorem Owned.overwritten (h : Owned s) (hi : Live s i o) {t : Nat}
    (ht : names s (handle o) = some t) (arg : Nat) (created : Bool) :
    Spoiled (s.created (handle o) arg created) := by
  obtain ⟨hd, hopen⟩ := h.valid i o hi
  rw [hopen.names] at ht
  have hth := h.unjoined i o hd t hi hopen ht
  have hlt := (List.getElem?_eq_some_iff.mp hth).1
  obtain ⟨h₁, ts, hs, hnew⟩ := created_eq s (handle o) arg created
  rw [hs]
  refine .lostThread t i ((List.getElem?_append_left hlt).trans hth) ?_
  intro j o' hd' hj hopen' ht'
  rcases (open_set hopen rfl).mp hopen' with ⟨-, rfl, -⟩ | ⟨hne, hold⟩
  · exact absurd (hnew t ht') (Nat.not_le.mpr hlt)
  · -- Another object's handle names threads of that object only.
    have hth' := h.unjoined j o' hd' t hj hold ht'
    obtain rfl : i = j := by simpa using hth.symm.trans hth'
    obtain rfl := hj.unique hi
    exact hne rfl

/-- An object whose thread has been joined is gone, and its handle deleted. -/
abbrev Store.ended (s : Store α) (t arg i k : Nat) (h : Handle) : Store α :=
  { s with
    threads := s.threads.set t { arg, joined := true }
    handles := s.handles.set k { h with deleted := true }
    objects := s.objects.set i none }

/-- The end of an object takes its own handle and its own thread with it. -/
theorem Owned.ended (h : Owned s) (hi : Live s i o) {t : Nat} {hd : Handle}
    (hopen : Open s (handle o) hd) (ht : hd.thread = some t) :
    Owned (s.ended t i i (handle o) hd) := by
  have hth := h.unjoined i o hd t hi hopen ht
  -- The object and its handle are gone, and all else is as it was.
  have hlive : ∀ {j o'}, Live (s.ended t i i (handle o) hd) j o' ↔ j ≠ i ∧ Live s j o' := by
    intro j o'
    rw [live_set hi rfl]
    simp
  have hset : ∀ {k hd'}, Open (s.ended t i i (handle o) hd) k hd' ↔
      k ≠ handle o ∧ Open s k hd' := by
    intro k hd'
    rw [open_set hopen rfl]
    simp
  constructor
  · intro j o' hj
    obtain ⟨hji, hj⟩ := hlive.mp hj
    obtain ⟨hd', hopen'⟩ := h.valid j o' hj
    -- Another object has another handle, which is not the one deleted.
    exact ⟨hd', hset.mpr ⟨fun heq => hji (h.alone j o' i o hj hi heq), hopen'⟩⟩
  · intro j o₁ j' o₂ hj hj'
    exact h.alone j o₁ j' o₂ (hlive.mp hj).2 (hlive.mp hj').2
  · intro k hd' hopen'
    obtain ⟨hk, hopen'⟩ := hset.mp hopen'
    obtain ⟨j, o', hj, rfl⟩ := h.held k hd' hopen'
    refine ⟨j, o', hlive.mpr ⟨?_, hj⟩, rfl⟩
    rintro rfl
    exact hk (congrArg handle (hj.unique hi))
  · intro j o' hd' t' hj hopen' ht'
    obtain ⟨hji, hj⟩ := hlive.mp hj
    have hth' := h.unjoined j o' hd' t' hj (hset.mp hopen').2 ht'
    have hne : t ≠ t' := by
      rintro rfl
      obtain rfl : i = j := by simpa using hth.symm.trans hth'
      exact hji rfl
    -- Another handle names another thread, which is not the one joined.
    exact (List.getElem?_set_ne hne).trans hth'
  · intro t' j ht'
    have hne : t ≠ t' := by
      rintro rfl
      rw [List.getElem?_set_self (List.getElem?_eq_some_iff.mp hth).1] at ht'
      cases ht'
    obtain ⟨o', hd', hj, hopen', hk⟩ := h.named t' j ((List.getElem?_set_ne hne).symm.trans ht')
    have hji : j ≠ i := by
      rintro rfl
      obtain rfl := hj.unique hi
      obtain rfl := hopen.unique hopen'
      exact hne (Option.some.inj (ht.symm.trans hk))
    exact ⟨o', hd', hlive.mpr ⟨hji, hj⟩,
      hset.mpr ⟨fun heq => hji (h.alone j o' i o hj hi heq), hopen'⟩, hk⟩
  · exact h.free

/-- The end of an object makes nothing good. -/
theorem Spoiled.ended (h : Spoiled s) (hi : Live s i o) {t arg : Nat} {hd : Handle}
    (hopen : Open s (handle o) hd) (ht : hd.thread = some t) (hwaiting : s.waiting = false) :
    Spoiled (s.ended t arg i (handle o) hd) := by
  have hkeeps : ∀ {j o'}, j ≠ i → Live s j o' → Live (s.ended t arg i (handle o) hd) j o' :=
    fun hji hj => (live_set hi rfl).mpr (.inr ⟨hji, hj⟩)
  have hdeleted : ∀ {k}, handle o = k → (s.ended t arg i (handle o) hd).handles[k]? =
      some { hd with deleted := true } := by
    rintro k rfl
    exact List.getElem?_set_self hopen.lt
  cases h with
  | dangling a oa hd' hlive hhandle hdel =>
      have hne : handle o ≠ handle oa := hopen.ne_deleted hhandle hdel
      have hai : a ≠ i := by
        rintro rfl
        exact hne (congrArg handle (hi.unique hlive))
      exact .dangling a oa hd' (hkeeps hai hlive) ((List.getElem?_set_ne hne).trans hhandle) hdel
  | shared a b oa ob hlive hlive' hne hhandle =>
      -- With one of the two gone, the other one's handle is deleted.
      by_cases hai : a = i
      · subst hai
        obtain rfl := hi.unique hlive
        exact .dangling b ob _ (hkeeps (Ne.symm hne) hlive') (hdeleted hhandle) rfl
      · by_cases hbi : b = i
        · subst hbi
          obtain rfl := hi.unique hlive'
          exact .dangling a oa _ (hkeeps hne hlive) (hdeleted hhandle.symm) rfl
        · exact .shared a b oa ob (hkeeps hai hlive) (hkeeps hbi hlive') hne hhandle
  | lostThread t' a hjoined hnone =>
      have htt : t ≠ t' := by
        rintro rfl
        exact hnone i o hd hi hopen ht
      refine .lostThread t' a ((List.getElem?_set_ne htt).trans hjoined) ?_
      intro b ob hd' hb hopen'
      rcases (live_set hi rfl).mp hb with ⟨-, hx⟩ | ⟨-, hb⟩
      · cases hx
      · rcases (open_set hopen rfl).mp hopen' with ⟨-, -, hx⟩ | ⟨-, hold⟩
        · cases hx
        · exact hnone b ob hd' hb hold
  | stuck hw =>
      rw [hw] at hwaiting
      cases hwaiting

/-- What the end of an object can do. -/
theorem wp_joinAndDelete {wakes : Bool} {Q : Unit → Store α → Prop} {E : Exit → Store α → Prop}
    (hQ : ∀ t a oa hd, Awaits s (handle o) t a oa → Open s (handle o) hd → hd.thread = some t →
      (goesOn oa || !wakes) = false → Q () (s.ended t a i (handle o) hd))
    (hwaits : ∀ t a oa, Awaits s (handle o) t a oa → (goesOn oa || !wakes) = true →
      Q () { s with waiting := true })
    (hE : (∀ t a oa, ¬ Awaits s (handle o) t a oa) → E .undefined s) :
    wp (joinAndDelete i (handle o) wakes) Q E s := by
  rw [joinAndDelete, wp_bind]
  refine wp_pthreadJoin (fun t a oa ha hgoes => ?_) hwaits hE
  obtain ⟨hd, hopen, ht⟩ := ha.opened
  simp only [if_true, wp_bind, deleteHandle, removeObject, wp_modify]
  refine wp_deref (fun hd' hopen' => ?_) fun hn => absurd hopen (hn hd)
  obtain rfl := hopen.unique (hopen' : Open s (handle o) hd')
  exact hQ t a oa hd ha hopen ht hgoes

/-- Nor does a destructor, whatever comes of its join. -/
theorem Spoiled.wp_joinAndDelete (h : Spoiled s) (hi : Live s i o) (wakes : Bool)
    (hwaiting : s.waiting = false) :
    wp (joinAndDelete i (handle o) wakes) (fun _ => Spoiled) (fun e _ => e = .undefined) s := by
  refine Handles.wp_joinAndDelete (fun t a oa hd _ hopen ht _ => ?_) (fun _ _ _ _ _ => ?_)
    fun _ => rfl
  · exact h.ended hi hopen ht hwaiting
  · exact .stuck rfl

/-- An object ends well where its handle names a thread, the thread was told to end, and it
wakes. -/
theorem Owned.wp_joinAndDelete (h : Owned s) (hi : Live s i o) (wakes : Bool) :
    wp (joinAndDelete i (handle o) wakes)
      (fun _ s' => names s (handle o) ≠ none ∧
        if goesOn o || !wakes then Spoiled s' else Owned s')
      (fun e _ => names s (handle o) = none ∧ e = .undefined) s := by
  have hown : ∀ {t a oa}, Awaits s (handle o) t a oa → a = i ∧ oa = o := by
    intro t a oa ha
    obtain ⟨hd, hopen, ht⟩ := ha.opened
    obtain rfl : i = a := by simpa using (h.unjoined i o hd t hi hopen ht).symm.trans ha.unjoined
    exact ⟨rfl, ha.live.unique hi⟩
  have hnames : ∀ {t a oa}, Awaits s (handle o) t a oa → names s (handle o) ≠ none := by
    intro t a oa ha
    obtain ⟨hd, hopen, ht⟩ := ha.opened
    rw [hopen.names, ht]
    exact Option.some_ne_none t
  refine Handles.wp_joinAndDelete (fun t a oa hd ha hopen ht hgoes => ?_)
    (fun t a oa ha hgoes => ?_) fun hn => ⟨?_, rfl⟩
  · obtain ⟨rfl, rfl⟩ := hown ha
    rw [hgoes]
    exact ⟨hnames ha, h.ended hi hopen ht⟩
  · obtain ⟨rfl, rfl⟩ := hown ha
    rw [hgoes]
    exact ⟨hnames ha, .stuck rfl⟩
  · obtain ⟨hd, hopen⟩ := h.valid i o hi
    rw [hopen.names]
    cases ht : hd.thread with
    | none => rfl
    | some t => exact absurd ⟨⟨hd, hopen, ht⟩, h.unjoined i o hd t hi hopen ht, hi⟩ (hn t i o)

/-! ### Runs -/

/-- The object, if it is there. -/
def object? (s : Store α) (i : Nat) : Option α := s.objects[i]?.join

omit [Owner α] in
/-- A live object is one that is found. -/
theorem live_iff : Live s i o ↔ object? s i = some o := by
  rw [Live, object?, Option.join_eq_some_iff]

/-- A step on the objects `is` can be taken: they are there, and no join waits for ever. -/
structure Enabled (s : Store α) (is : List Nat) : Prop where
  free : s.waiting = false
  there : ∀ i ∈ is, (object? s i).isSome

instance (s : Store α) (is : List Nat) : Decidable (Enabled s is) :=
  decidable_of_iff (s.waiting = false ∧ ∀ i ∈ is, (object? s i).isSome)
    ⟨fun ⟨hf, ht⟩ => ⟨hf, ht⟩, fun ⟨hf, ht⟩ => ⟨hf, ht⟩⟩

omit [Owner α] in
/-- An object that a step is on is live. -/
theorem Enabled.live {is : List Nat} (h : Enabled s (i :: is)) : ∃ o, Live s i o := by
  obtain ⟨o, ho⟩ := Option.isSome_iff_exists.mp (h.there i List.mem_cons_self)
  exact ⟨o, live_iff.mpr ho⟩

omit [Owner α] in
theorem Enabled.tail {is : List Nat} (h : Enabled s (i :: is)) : Enabled s is :=
  ⟨h.free, fun j hj => h.there j (List.mem_cons_of_mem i hj)⟩

/-- Nothing undefined has happened, no join waits for ever, and with the last object gone every
thread has been joined and every handle deleted. -/
def Lawful : Process (Store α) → Prop
  | .running s => s.waiting = false ∧ (Gone s → Settled s)
  | .stopped _ _ => False

/-- The run has come to its end. -/
def Over : Process (Store α) → Prop
  | .running s => s.waiting = true ∨ Gone s
  | .stopped _ _ => True

section runs
variable {ℓ : Type} {exec : ℓ → M α Unit} {A P : Store α → ℓ → Prop} {ls : List ℓ}

/-- Steps that keep the handles of the objects apart end well. -/
theorem lawful_of_along
    (hgood : ∀ s l, Owned s → A s l → P s l → wp (exec l) (fun _ => Owned) (fun _ _ => False) s)
    (hs : Owned s) (hA : Process.Along exec A (.running s) ls)
    (hP : Process.Along exec P (.running s) ls) : ∀ pre, pre <+: ls →
      Lawful (Process.after exec (.running s) pre) := by
  rintro pre ⟨rest, rfl⟩
  have hholds : Process.Holds Owned (fun _ _ => False) (Process.after exec (.running s) pre) := by
    refine Process.invariant (P := fun s l => A s l ∧ P s l) (fun s l hs hl => ?_) hs
      ((Process.along_append.mp hA).1.and (Process.along_append.mp hP).1)
    exact wp_mono (hgood s l hs hl.1 hl.2) (fun _ _ h => h) fun _ _ hf => hf.elim
  cases hc : Process.after exec (.running s) pre with
  | running s' =>
      rw [hc] at hholds
      exact ⟨hholds.free, hholds.settled⟩
  | stopped e s' =>
      rw [hc] at hholds
      exact hholds

/-- A run that has come to its end was lawful only if each of its steps was. -/
theorem lawful_iff_along
    (hgood : ∀ s l, Owned s → A s l → P s l → wp (exec l) (fun _ => Owned) (fun _ _ => False) s)
    (hbad : ∀ s l, Owned s → A s l → ¬ P s l →
      wp (exec l) (fun _ => Spoiled) (fun e _ => e = .undefined) s)
    (hlost : ∀ s l, Spoiled s → A s l →
      wp (exec l) (fun _ => Spoiled) (fun e _ => e = .undefined) s)
    (hs : Owned s) (hA : Process.Along exec A (.running s) ls)
    (hover : Over (Process.after exec (.running s) ls)) :
    (∀ pre, pre <+: ls → Lawful (Process.after exec (.running s) pre)) ↔
      Process.Along exec P (.running s) ls := by
  refine ⟨fun h => ?_, lawful_of_along hgood hs hA⟩
  have hleaves : ∀ {e : Exit} {s' : Store α}, e = .undefined →
      Process.Leaves Spoiled (fun _ _ => True) e s' := by
    rintro _ s' rfl
    trivial
  rcases Process.along_or (L := Spoiled) (J := fun _ _ => True)
    (fun s l hs hA hP => wp_mono (hgood s l hs hA hP) (fun _ _ h => h) fun _ _ hf => hf.elim)
    (fun s l hs hA hP => wp_mono (hbad s l hs hA hP) (fun _ _ h => h) fun _ _ he => hleaves he)
    (fun s l hs hA => wp_mono (hlost s l hs hA) (fun _ _ h => h) fun _ _ he => hleaves he)
    (c := .running s) hs hA with ⟨hP, -⟩ | ⟨-, hspoiled⟩
  · exact hP
  · have hlast := h ls List.prefix_rfl
    cases hc : Process.after exec (.running s) ls with
    | stopped e s' =>
        rw [hc] at hlast
        exact hlast.elim
    | running s' =>
        rw [hc] at hlast hover hspoiled
        obtain ⟨hfree, hsettled⟩ := hlast
        rcases hover with hwaiting | hgone
        · rw [hfree] at hwaiting
          cases hwaiting
        · exact absurd (hsettled hgone) (hspoiled.not_settled hgone hfree)

end runs

end Handles
