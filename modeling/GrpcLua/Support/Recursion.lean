import Mathlib.Tactic.Common
import Mathlib.Order.Basic

/-!
# Support — Recursion

Functions that call themselves without a bound.  A body is `Code`: it returns, it raises, or it
calls and goes on with the result.  `run body n` is the function with calls nested at most `n` deep,
and `Returns body i x` says that the call `i` ends with `x`.

`Makes body i j` says that the call `i` makes the call `j`.  Bodies are finite, so a call ends
exactly if no infinite chain of nested calls starts at it (`ends_iff_acc`).
-/

namespace Recursion

/-- Code that makes calls `ι`, which return a `ρ` or raise an `ε`. -/
inductive Code (ι ρ ε : Type) (α : Type) where
  | ret (a : α)
  | raise (e : ε)
  | call (i : ι) (k : ρ → Code ι ρ ε α)

namespace Code
variable {ι ρ ε α β : Type}

def bind : Code ι ρ ε α → (α → Code ι ρ ε β) → Code ι ρ ε β
  | ret a, g => g a
  | raise e, _ => raise e
  | call i k, g => call i fun r => (k r).bind g

instance : Monad (Code ι ρ ε) where
  pure := ret
  bind := bind

/-- The call `i`, and no more. -/
def callOnce (i : ι) : Code ι ρ ε ρ := call i ret

/-- What does not call. -/
def ofExcept : Except ε α → Code ι ρ ε α
  | .ok a => ret a
  | .error e => raise e

/-- The code where the calls do `f`; nothing where one of them does not end. -/
def eval (f : ι → Option (Except ε ρ)) : Code ι ρ ε α → Option (Except ε α)
  | ret a => some (.ok a)
  | raise e => some (.error e)
  | call i k =>
      match f i with
      | none => none
      | some (.error e) => some (.error e)
      | some (.ok r) => (k r).eval f

section eval
variable {f g : ι → Option (Except ε ρ)}

@[simp] theorem eval_callOnce (i : ι) : eval f (callOnce i) = f i := by
  simp only [callOnce, eval]
  rcases f i with _ | _ | _ <;> rfl

@[simp] theorem eval_ofExcept (x : Except ε α) : eval f (ofExcept x : Code ι ρ ε α) = some x := by
  cases x <;> rfl

/-- A sequence goes on where its first part has a result. -/
theorem eval_bind (x : Code ι ρ ε α) (h : α → Code ι ρ ε β) :
    eval f (x >>= h) = (eval f x).bind fun
      | .ok a => eval f (h a)
      | .error e => some (.error e) := by
  change eval f (x.bind h) = _
  induction x with
  | ret a => rfl
  | raise e => rfl
  | call i k ih =>
      simp only [bind, eval]
      rcases f i with _ | e | r
      · rfl
      · rfl
      · exact ih r

/-- A program waits for what its first part waits for. -/
theorem eval_bind_none {x : Code ι ρ ε α} {h : α → Code ι ρ ε β} (hx : eval f x = none) :
    eval f (x >>= h) = none := by
  rw [eval_bind, hx]
  rfl

/-- A result of a sequence is a result of both its parts. -/
theorem eval_bind_ok {x : Code ι ρ ε α} {h : α → Code ι ρ ε β} {b : β} :
    eval f (x >>= h) = some (.ok b) ↔
      ∃ a, eval f x = some (.ok a) ∧ eval f (h a) = some (.ok b) := by
  rw [eval_bind]
  rcases eval f x with _ | e | a <;> simp

/-- What is made of one call. -/
theorem eval_callOnce_bind (i : ι) (h : ρ → α) :
    eval f (callOnce i >>= fun r => pure (h r) : Code ι ρ ε α) = (f i).map fun x => x.map h := by
  rw [eval_bind, eval_callOnce]
  rcases f i with _ | _ | _ <;> rfl

/-- Where the calls end as they did, the code does. -/
theorem eval_mono (hfg : ∀ i x, f i = some x → g i = some x) {c : Code ι ρ ε α} {x : Except ε α}
    (h : eval f c = some x) : eval g c = some x := by
  induction c with
  | ret a => exact h
  | raise e => exact h
  | call i k ih =>
      simp only [eval] at h ⊢
      cases hi : f i with
      | none => simp [hi] at h
      | some y =>
          rw [hi] at h
          rw [hfg i y hi]
          cases y with
          | error e => exact h
          | ok r => exact ih r h

end eval

/-- Every call that the code can make, whatever the calls return, is in `P`. -/
def Calls (P : ι → Prop) : Code ι ρ ε α → Prop
  | ret _ => True
  | raise _ => True
  | call i k => P i ∧ ∀ r, (k r).Calls P

/-- The calls of a sequence are those of its parts. -/
theorem Calls.bind {P : ι → Prop} {x : Code ι ρ ε α} {h : α → Code ι ρ ε β} (hx : x.Calls P)
    (hh : ∀ a, (h a).Calls P) : (x >>= h).Calls P := by
  change (x.bind h).Calls P
  induction x with
  | ret a => exact hh a
  | raise e => trivial
  | call i k ih => exact ⟨hx.1, fun r => ih r (hx.2 r)⟩

/-- A result calls nothing. -/
theorem Calls.ofExcept {P : ι → Prop} (x : Except ε α) :
    (ofExcept x : Code ι ρ ε α).Calls P := by
  cases x <;> trivial

/-- A weaker condition on the calls. -/
theorem Calls.mono {P P' : ι → Prop} (hP : ∀ i, P i → P' i) {c : Code ι ρ ε α} (h : c.Calls P) :
    c.Calls P' := by
  induction c with
  | ret a => trivial
  | raise e => trivial
  | call i k ih => exact ⟨hP i h.1, fun r => ih r (h.2 r)⟩

end Code

/-! ### Recursion -/

variable {ι ρ ε α : Type} (body : ι → Code ι ρ ε ρ)

/-- The call, with calls nested no deeper than `n`. -/
def run : Nat → ι → Option (Except ε ρ)
  | 0, _ => none
  | n + 1, i => (body i).eval (run n)

/-- The call ends, with `x`. -/
def Returns (i : ι) (x : Except ε ρ) : Prop := ∃ n, run body n i = some x

/-- The call ends: it returns or raises. -/
def Ends (i : ι) : Prop := ∃ x, Returns body i x

/-- The code makes the call `j`. -/
inductive Reaches (j : ι) : Code ι ρ ε α → Prop
  | here {k : ρ → Code ι ρ ε α} : Reaches j (.call j k)
  | later {i : ι} {k : ρ → Code ι ρ ε α} {r : ρ} (hi : Returns body i (.ok r))
      (hr : Reaches j (k r)) : Reaches j (.call i k)

/-- The call `i` makes the call `j`. -/
def Makes (i j : ι) : Prop := Reaches body j (body i)

variable {body}

/-- What returns with some fuel returns with more. -/
theorem run_succ {n : Nat} {i : ι} {x : Except ε ρ} (h : run body n i = some x) :
    run body (n + 1) i = some x := by
  induction n generalizing i x with
  | zero => cases h
  | succ n ih => exact Code.eval_mono (fun i x => ih) h

/-- What returns with some fuel returns with more. -/
theorem run_mono {m n : Nat} (hle : m ≤ n) {i : ι} {x : Except ε ρ} (h : run body m i = some x) :
    run body n i = some x := by
  induction hle with
  | refl => exact h
  | step _ ih => exact run_succ ih

/-- A call returns one result. -/
theorem Returns.unique {i : ι} {x y : Except ε ρ} (hx : Returns body i x) (hy : Returns body i y) :
    x = y := by
  obtain ⟨m, hm⟩ := hx
  obtain ⟨n, hn⟩ := hy
  have hm' := run_mono (Nat.le_max_left m n) hm
  rw [run_mono (Nat.le_max_right m n) hn] at hm'
  exact (Option.some.inj hm').symm

/-- Code that ends with calls of depth `n` makes only calls that do. -/
theorem Reaches.run_isSome {n : Nat} {j : ι} {c : Code ι ρ ε α} (h : Reaches body j c)
    {x : Except ε α} (hx : c.eval (run body n) = some x) : ∃ y, run body n j = some y := by
  induction h with
  | @here k =>
      simp only [Code.eval] at hx
      cases hj : run body n j with
      | none => simp [hj] at hx
      | some y => exact ⟨y, rfl⟩
  | @later i k r hi hr ih =>
      simp only [Code.eval] at hx
      cases hn : run body n i with
      | none => simp [hn] at hx
      | some y =>
          obtain rfl := Returns.unique hi ⟨n, hn⟩
          rw [hn] at hx
          exact ih hx

/-- Code of which all the calls end, ends. -/
theorem eval_of_reaches {c : Code ι ρ ε α} (h : ∀ j, Reaches body j c → Ends body j) :
    ∃ n x, c.eval (run body n) = some x := by
  induction c with
  | ret a => exact ⟨0, _, rfl⟩
  | raise e => exact ⟨0, _, rfl⟩
  | call i k ih =>
      obtain ⟨y, n, hn⟩ := h i .here
      cases y with
      | error e => exact ⟨n, .error e, by simp [Code.eval, hn]⟩
      | ok r =>
          obtain ⟨m, x, hm⟩ := ih r fun j hj => h j (.later ⟨n, hn⟩ hj)
          refine ⟨max m n, x, ?_⟩
          simp only [Code.eval, run_mono (Nat.le_max_right m n) hn]
          exact Code.eval_mono (fun i x => run_mono (Nat.le_max_left m n)) hm

/-- **Termination.**  A call ends exactly if no infinite chain of calls starts at it, of which each
makes the next. -/
theorem ends_iff_acc {i : ι} : Ends body i ↔ Acc (fun j i => Makes body i j) i := by
  constructor
  · rintro ⟨x, n, hn⟩
    -- By the depth of the calls.
    induction n generalizing i x with
    | zero => cases hn
    | succ n ih =>
        refine ⟨i, fun j hj => ?_⟩
        obtain ⟨y, hy⟩ := hj.run_isSome hn
        exact ih _ hy
  · intro h
    induction h with
    | intro i _ ih =>
        obtain ⟨n, x, hx⟩ := eval_of_reaches (c := body i) ih
        exact ⟨x, n + 1, hx⟩

/-- A call makes only calls that its body can make. -/
theorem Makes.of_calls {P : ι → Prop} {i j : ι} (h : Makes body i j) (hP : (body i).Calls P) :
    P j := by
  unfold Makes at h
  generalize body i = c at h hP
  induction h with
  | here => exact hP.1
  | @later i k r _ _ ih => exact ih (hP.2 r)

end Recursion
