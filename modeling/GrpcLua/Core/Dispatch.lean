import GrpcLua.Support.Runs

/-!
# Core — Dispatch

`DoNextCompletion` of `core/common/impl/do_next_completion.cpp` takes a tag from the completion
queue, completes it and deletes it.  An exception that escapes from `DoComplete()` passes the
`delete` by.

`Dispatched` is an object together with the tags that were taken for it and deleted, and a `Turn` is
a call of the user or one `DoNextCompletion`.  `fine_iff` carries an invariant of the object to runs
of turns: all tags are deleted exactly when no completion leaves by an exit.
-/

namespace GrpcLua
open Prog

/-- The event that `CompletionQueueForNext::Next()` returns, of tags `τ`. -/
inductive NextEvent (τ : Type) where
  | opComplete (tag : τ)
  | queueShutdown
  | queueTimeout

/-- An object and the tags of its completion queue, numbered in the order in which they are
taken. -/
structure Dispatched (σ : Type) where
  obj : σ
  taken : Nat := 0
  deleted : List Nat := []

namespace Dispatched
variable {σ α τ : Type}

/-- Code of the object. -/
def onObj (x : EStateM Exit σ α) : EStateM Exit (Dispatched σ) α := fun d =>
  match x d.obj with
  | .ok a s => .ok a { d with obj := s }
  | .error e s => .error e { d with obj := s }

@[simp] theorem wp_onObj {x : EStateM Exit σ α} {Q : α → Dispatched σ → Prop}
    {E : Exit → Dispatched σ → Prop} {d : Dispatched σ} :
    wp (onObj x) Q E d ↔
      wp x (fun a s => Q a { d with obj := s }) (fun e s => E e { d with obj := s }) d.obj := by
  unfold wp onObj
  cases x d.obj <;> rfl

/-- `DoNextCompletion(cq4n)`, where `cq4n.Next()` returns the event. -/
def doNextCompletion (doComplete : τ → EStateM Exit σ Unit) :
    NextEvent τ → EStateM Exit (Dispatched σ) Bool
  | .opComplete tag => do
      let d ← get
      modify fun d => { d with taken := d.taken + 1 }
      onObj (doComplete tag)
      modify fun d' => { d' with deleted := d'.deleted ++ [d.taken] }
      pure true
  | .queueShutdown => pure false
  | .queueTimeout => pure true

/-- Every tag that was taken was deleted, and once. -/
def AllDeleted (d : Dispatched σ) : Prop := d.deleted = List.range d.taken

instance decidableAllDeleted (d : Dispatched σ) : Decidable d.AllDeleted :=
  inferInstanceAs (Decidable (_ = _))

theorem AllDeleted.delete {d : Dispatched σ} (h : d.AllDeleted) (s : σ) :
    AllDeleted ⟨s, d.taken + 1, d.deleted ++ [d.taken]⟩ := by
  rw [AllDeleted, List.range_succ, show d.deleted = _ from h]

/-- A tag that is not deleted now is never deleted. -/
theorem AllDeleted.of_delete {d : Dispatched σ} {s : σ}
    (h : AllDeleted ⟨s, d.taken + 1, d.deleted ++ [d.taken]⟩) : d.AllDeleted := by
  rw [AllDeleted, List.range_succ] at h
  exact (List.append_inj' h rfl).1

theorem AllDeleted.not_leak {d : Dispatched σ} (h : d.AllDeleted) (s : σ) :
    ¬ AllDeleted ⟨s, d.taken + 1, d.deleted⟩ := by
  intro h'
  have hl := congrArg List.length (h.symm.trans h')
  simp at hl

/-- Unless a tag was left undeleted, the object satisfies `W`. -/
structure Intact (W : σ → Prop) (d : Dispatched σ) : Prop where
  length : d.deleted.length ≤ d.taken
  obj : d.AllDeleted → W d.obj

end Dispatched

/-- A turn of the thread that drives an object whose steps are `ℓ`: a call of the user, or one
`DoNextCompletion`.  A tag is the step that completes it; `none` is one with nothing to do. -/
inductive Turn (ℓ : Type) where
  | call (l : ℓ)
  | next (ev : NextEvent (Option ℓ))

namespace Turn
open Dispatched

variable {σ ℓ : Type} (step : ℓ → EStateM Exit σ Unit) (completes : ℓ → Bool)
  (inFlight : σ → ℓ → Prop)

/-- `DoComplete()` of a tag. -/
def doComplete : Option ℓ → EStateM Exit σ Unit
  | none => pure ()
  | some l => step l

def exec : Turn ℓ → EStateM Exit (Dispatched σ) Unit
  | call l => onObj (step l)
  | next ev => do
      let _ ← doNextCompletion (doComplete step) ev
      pure ()

/-- The queue returns a tag only while it is in flight. -/
def Enabled (d : Dispatched σ) : Turn ℓ → Prop
  | call l => completes l = false
  | next (.opComplete (some l)) => completes l = true ∧ inFlight d.obj l
  | next _ => True

instance decidableEnabled [∀ s l, Decidable (inFlight s l)] (d : Dispatched σ) :
    (t : Turn ℓ) → Decidable (t.Enabled completes inFlight d)
  | call l => inferInstanceAs (Decidable (completes l = false))
  | next (.opComplete (some l)) =>
      inferInstanceAs (Decidable (completes l = true ∧ inFlight d.obj l))
  | next (.opComplete none) => isTrue trivial
  | next .queueShutdown => isTrue trivial
  | next .queueTimeout => isTrue trivial

/-- The step of the turn, if it takes one, satisfies `P`. -/
def Takes (P : σ → ℓ → Prop) (d : Dispatched σ) : Turn ℓ → Prop
  | call l => P d.obj l
  | next (.opComplete (some l)) => P d.obj l
  | next _ => True

instance decidableTakes (P : σ → ℓ → Prop) [∀ s l, Decidable (P s l)] (d : Dispatched σ) :
    (t : Turn ℓ) → Decidable (t.Takes P d)
  | call l => inferInstanceAs (Decidable (P d.obj l))
  | next (.opComplete (some l)) => inferInstanceAs (Decidable (P d.obj l))
  | next (.opComplete none) => isTrue trivial
  | next .queueShutdown => isTrue trivial
  | next .queueTimeout => isTrue trivial

/-- The run of turns of an object that starts in `s`. -/
abbrev after (s : σ) (ts : List (Turn ℓ)) : Process (Dispatched σ) :=
  Process.after (exec step) (.running ⟨s, 0, []⟩) ts

/-- Every completion of the run is one of a tag in flight. -/
abbrev Legal (s : σ) (ts : List (Turn ℓ)) : Prop :=
  Process.Along (exec step) (fun d t => t.Enabled completes inFlight d) (.running ⟨s, 0, []⟩) ts

/-- Whenever a turn has ended, all tags are deleted and the object is in a state `F` accepts. -/
def Fine (F : σ → Prop) (c : Process (Dispatched σ)) : Prop :=
  ∀ d, c = .running d → d.AllDeleted ∧ F d.obj

variable {step completes inFlight} {I F : σ → Prop} {P : σ → ℓ → Prop}

/-- An invariant of the object, through the turns of a run. -/
theorem keeps_obj (hcall : ∀ s l, completes l = false → I s →
    wp (step l) (fun _ => I) (fun _ => I) s)
    (hcomplete : ∀ s l, completes l = true → inFlight s l → I s →
      wp (step l) (fun _ => I) (fun _ => I) s)
    {s : σ} (hs : I s) {ts : List (Turn ℓ)} (h : Legal step completes inFlight s ts) :
    I (after step s ts).state.obj := by
  refine Process.invariant_state (I := fun d : Dispatched σ => I d.obj) ?_
    (c := .running ⟨s, 0, []⟩) hs h
  intro d t hI hen
  match t, hen with
  | call l, hen =>
      simp only [exec, wp_onObj]
      exact hcall _ l hen hI
  | next (.opComplete (some l)), hen =>
      simp only [exec, doNextCompletion, doComplete, wp_bind, wp_get, wp_modify, wp_onObj, wp_pure]
      exact hcomplete _ l hen.1 hen.2 hI
  | next (.opComplete none), _ => exact hI
  | next .queueShutdown, _ => exact hI
  | next .queueTimeout, _ => exact hI

/-- A call that leads from `W` to `W'`, also by an exception. -/
theorem call_intact {W W' : σ → Prop} {d : Dispatched σ} {l : ℓ} (h : Intact W d)
    (hcall : W d.obj → wp (step l) (fun _ => W') (fun e s' => e = .exception → W' s') d.obj) :
    wp (exec step (call l)) (fun _ => Intact W')
      (Process.Leaves (Intact W') fun _ _ => True) d := by
  simp only [exec, wp_onObj]
  by_cases hdel : d.AllDeleted
  · refine wp_mono (hcall (h.obj hdel)) (fun _ s' hW => ⟨h.length, fun _ => hW⟩) ?_
    rintro (_ | _ | _) s' he
    · trivial
    · trivial
    · exact ⟨h.length, fun _ => he rfl⟩
  · refine wp_mono (wp_true _ _) (fun _ s' _ => ⟨h.length, fun h' => absurd h' hdel⟩) ?_
    rintro (_ | _ | _) s' -
    · trivial
    · trivial
    · exact ⟨h.length, fun h' => absurd h' hdel⟩

/-- Where calls keep `W`, and completions if they return, so do turns unless a tag is left
undeleted. -/
theorem exec_intact {W : σ → Prop}
    (hcall : ∀ s l, completes l = false → W s → P s l →
      wp (step l) (fun _ => W) (fun e s' => e = .exception → W s') s)
    (hcomplete : ∀ s l, completes l = true → W s → inFlight s l → P s l →
      wp (step l) (fun _ => W) (fun _ _ => True) s)
    {d : Dispatched σ} {t : Turn ℓ} (h : Intact W d) (hen : t.Enabled completes inFlight d)
    (hP : t.Takes P d) :
    wp (exec step t) (fun _ => Intact W) (Process.Leaves (Intact W) fun _ _ => True) d := by
  match t, hen, hP with
  | call l, hen, hP => exact call_intact h fun hW => hcall _ l hen hW hP
  | next (.opComplete (some l)), hen, hP =>
      simp only [exec, doNextCompletion, doComplete, wp_bind, wp_get, wp_modify, wp_onObj, wp_pure]
      have hlen := h.length
      have hleak : ∀ e s', Process.Leaves (Intact W) (fun _ _ => True) e
          (⟨s', d.taken + 1, d.deleted⟩ : Dispatched σ) := by
        rintro (_ | _ | _) s'
        · trivial
        · trivial
        · refine ⟨Nat.le_succ_of_le hlen, fun h' => ?_⟩
          have hl := congrArg List.length h'
          simp at hl
          omega
      have hdelete : ∀ s', (d.AllDeleted → W s') →
          Intact W (⟨s', d.taken + 1, d.deleted ++ [d.taken]⟩ : Dispatched σ) :=
        fun s' hW => ⟨by simpa using hlen, fun h' => hW h'.of_delete⟩
      by_cases hdel : d.AllDeleted
      · exact wp_mono (hcomplete _ l hen.1 (h.obj hdel) hen.2 hP)
          (fun _ s' hW => hdelete s' fun _ => hW) fun e s' _ => hleak e s'
      · exact wp_mono (wp_true _ _) (fun _ s' _ => hdelete s' fun h' => absurd h' hdel)
          fun e s' _ => hleak e s'
  | next (.opComplete none), _, _ =>
      exact ⟨by simpa using h.length, fun h' => h.obj h'.of_delete⟩
  | next .queueShutdown, _, _ => exact h
  | next .queueTimeout, _, _ => exact h

/-- A turn whose process goes on only where `F` does not hold, or with a tag left undeleted. -/
theorem not_fine {d : Dispatched σ} {t : Turn ℓ}
    (h : wp (exec step t) (fun _ d' => ¬ (d'.AllDeleted ∧ F d'.obj))
      (fun e d' => e = .exception ∧ ¬ (d'.AllDeleted ∧ F d'.obj)) d) :
    ¬ Fine F (Process.next (exec step) (.running d) t) := by
  have hnext : Process.Holds (fun d' : Dispatched σ => ¬ (d'.AllDeleted ∧ F d'.obj))
      (fun _ _ => False) (Process.next (exec step) (.running d) t) := by
    refine Process.holds_next (wp_mono h (fun _ _ h' => h') ?_)
    rintro _ d' ⟨rfl, h'⟩
    exact h'
  intro hfine
  cases hc : Process.next (exec step) (.running d) t with
  | running d' => rw [hc] at hnext; exact hnext (hfine d' hc)
  | stopped e d' => rw [hc] at hnext; exact hnext

/-- Where the steps in `P` keep `I`, every other call breaks `F` and every other completion leaves
by an exception, all is fine at every prefix of a run exactly when every step is in `P`. -/
theorem fine_iff (hF : ∀ s, I s → F s)
    (hcall : ∀ s l, completes l = false → I s → P s l →
      wp (step l) (fun _ => I) (fun e s' => e = .exception → I s') s)
    (hbreak : ∀ s l, completes l = false → I s → ¬ P s l →
      wp (step l) (fun _ s' => ¬ F s') (fun e s' => e = .exception ∧ ¬ F s') s)
    (hcomplete : ∀ s l, completes l = true → I s → inFlight s l → P s l →
      wp (step l) (fun _ => I) (fun e _ => e ≠ .exception) s)
    (hescape : ∀ s l, completes l = true → I s → inFlight s l → ¬ P s l →
      wp (step l) (fun _ _ => False) (fun e _ => e = .exception) s)
    {s : σ} (hs : I s) {ts : List (Turn ℓ)} (h : Legal step completes inFlight s ts) :
    (∀ pre, pre <+: ts → Fine F (after step s pre)) ↔
      Process.Along (exec step) (fun d t => t.Takes P d) (.running ⟨s, 0, []⟩) ts := by
  refine Process.along_iff_next
    (I := Process.Holds (fun d => d.AllDeleted ∧ I d.obj) fun _ _ => True) ?_ ?_ ?_
    ⟨rfl, hs⟩ h
  · rintro (d | ⟨e, d⟩) hc _ hd
    · cases hd
      exact ⟨hc.1, hF _ hc.2⟩
    · cases hd
  · -- A turn that meets `P` keeps the invariant.
    rintro d t ⟨hdel, hI⟩ hen hP
    refine Process.holds_next ?_
    rcases t with l | (_ | l) | _ | _
    · -- The user may catch what escapes from a call and go on.
      simp only [exec, wp_onObj]
      refine wp_mono (hcall _ l hen hI hP) (fun _ s' hI' => ⟨hdel, hI'⟩) ?_
      rintro (_ | _ | _) s' he
      · trivial
      · trivial
      · exact ⟨hdel, he rfl⟩
    · exact ⟨hdel.delete _, hI⟩
    · simp only [exec, doNextCompletion, doComplete, wp_bind, wp_get, wp_modify, wp_onObj, wp_pure]
      refine wp_mono (hcomplete _ l hen.1 hI hen.2 hP) (fun _ s' h' => ⟨hdel.delete s', h'⟩) ?_
      rintro (_ | _ | _) s' he
      · trivial
      · trivial
      · exact absurd rfl he
    · exact ⟨hdel, hI⟩
    · exact ⟨hdel, hI⟩
  · -- A turn that does not meet `P` leaves a state that is not fine, or leaks the tag.
    rintro d t ⟨hdel, hI⟩ hen hP
    refine not_fine ?_
    rcases t with l | (_ | l) | _ | _
    · simp only [exec, wp_onObj]
      exact wp_mono (hbreak _ l hen hI hP) (fun _ _ h' h'' => h' h''.2)
        fun _ _ h' => ⟨h'.1, fun h'' => h'.2 h''.2⟩
    · exact absurd trivial hP
    · -- The exception leaves the tag where it is.
      simp only [exec, doNextCompletion, doComplete, wp_bind, wp_get, wp_modify, wp_onObj, wp_pure]
      exact wp_mono (hescape _ l hen.1 hI hen.2 hP) (fun _ _ hf => hf.elim)
        fun _ s' he => ⟨he, fun h' => hdel.not_leak s' h'.1⟩
    · exact absurd trivial hP
    · exact absurd trivial hP

end Turn

end GrpcLua
