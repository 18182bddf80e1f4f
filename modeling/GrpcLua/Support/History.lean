import GrpcLua.Support.Runs

/-!
# Support — History

History variables.  An observer keeps `h : η` beside the state of a process and brings it up to date
at each step, from the state before and the state after, whether the step returns or not.  It does
not interfere: `along_observed` takes the runs of the observed process back to those of the process
itself.
-/

namespace Prog.Process
variable {σ ℓ η : Type} (exec : ℓ → EStateM Exit σ Unit) (observe : σ → ℓ → σ → η → η)

/-- The step `l`, and what the observer makes of it. -/
def observed (l : ℓ) : EStateM Exit (σ × η) Unit := fun c =>
  match exec l c.1 with
  | .ok _ s' => .ok () (s', observe c.1 l s' c.2)
  | .error e s' => .error e (s', observe c.1 l s' c.2)

/-- The observed state of a process, without the observer's. -/
def erase : Process (σ × η) → Process σ
  | running s => running s.1
  | stopped e s => stopped e s.1

variable {exec observe}

/-- What an observed step does is what the step does, and what is observed of it. -/
theorem wp_observed {l : ℓ} {s : σ} {h : η} {Q : Unit → σ × η → Prop} {E : Exit → σ × η → Prop} :
    wp (observed exec observe l) Q E (s, h) ↔
      wp (exec l) (fun _ s' => Q () (s', observe s l s' h)) (fun e s' => E e (s', observe s l s' h))
        s := by
  unfold wp
  simp only [observed]
  cases exec l s <;> rfl

/-- The observer does not interfere. -/
theorem erase_next (c : Process (σ × η)) (l : ℓ) :
    (next (observed exec observe) c l).erase = next exec c.erase l := by
  cases c with
  | stopped e s => rfl
  | running s =>
      simp only [next, observed, erase]
      cases exec l s.1 with
      | ok a s' => rfl
      | error e s' => cases e <;> rfl

/-- A run of the observed process is one of the process. -/
theorem along_observed {P : σ → ℓ → Prop} (c : Process (σ × η)) (ls : List ℓ) :
    Along (observed exec observe) (fun s l => P s.1 l) c ls ↔ Along exec P c.erase ls := by
  induction ls generalizing c with
  | nil => cases c <;> rfl
  | cons l ls ih =>
      cases c with
      | stopped e s => exact Iff.rfl
      | running s =>
          refine and_congr_right fun _ => ?_
          rw [ih, erase_next]
          rfl

end Prog.Process
