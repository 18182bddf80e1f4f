import Mathlib.Tactic.Common

/-!
# Support — Programs

Stateful code that may leave otherwise than by returning, and its weakest preconditions.  A
program is an `EStateM ε σ α`; `wp x Q E s` says that from the state `s` the program `x` either
returns `a` in a state `Q a` accepts, or leaves through the exit `e` in a state `E e` accepts.
Nothing is rolled back at an exit: the state it leaves is the one the next piece of code finds.

A callback that is run in the middle of such a program may call the program's own operations
again.  `Reaction` is what one invocation of a callback does: the operations it calls, in order,
and for each of them the reactions of the callbacks which *that* operation invokes.
`Reaction.keeps` is the induction over it: what every operation preserves, under callbacks that
preserve it, every reaction preserves.
-/

namespace Prog

/-- How a C++ function leaves otherwise than by returning. -/
inductive Exit where
  /-- An `assert` failed; the process is gone. -/
  | assertion
  /-- The behaviour is undefined from here on. -/
  | undefined
  /-- An exception escaped; the process goes on. -/
  | exception
  deriving DecidableEq, Repr

/-- Weakest precondition: `Q` where `x` returns, `E` where it leaves through an exit. -/
def wp {ε σ α : Type} (x : EStateM ε σ α) (Q : α → σ → Prop) (E : ε → σ → Prop) (s : σ) : Prop :=
  match x s with
  | .ok a s' => Q a s'
  | .error e s' => E e s'

/-- The state in which `x` ends, however it ends. -/
def endState {ε σ α : Type} (x : EStateM ε σ α) (s : σ) : σ :=
  match x s with
  | .ok _ s' => s'
  | .error _ s' => s'

/-- `x` leaves by an exception. -/
def raises {σ α : Type} (x : EStateM Exit σ α) (s : σ) : Bool :=
  match x s with
  | .error .exception _ => true
  | _ => false

/-- `assert(p)`. -/
def check {σ : Type} (p : σ → Bool) : EStateM Exit σ Unit := do
  if p (← get) then pure () else throw .assertion

section rules
variable {ε σ α β : Type} {Q Q' : α → σ → Prop} {E E' : ε → σ → Prop} {s : σ}

@[simp] theorem wp_pure (a : α) : wp (pure a : EStateM ε σ α) Q E s ↔ Q a s := Iff.rfl

@[simp] theorem wp_throw (e : ε) : wp (throw e : EStateM ε σ α) Q E s ↔ E e s := Iff.rfl

@[simp] theorem wp_get {Q : σ → σ → Prop} : wp (get : EStateM ε σ σ) Q E s ↔ Q s s := Iff.rfl

@[simp] theorem wp_modify {Q : PUnit → σ → Prop} (f : σ → σ) :
    wp (modify f : EStateM ε σ PUnit) Q E s ↔ Q ⟨⟩ (f s) := Iff.rfl

@[simp] theorem wp_bind {R : β → σ → Prop} (x : EStateM ε σ α) (f : α → EStateM ε σ β) :
    wp (x >>= f) R E s ↔ wp x (fun a s' => wp (f a) R E s') E s := by
  show wp (EStateM.bind x f) R E s ↔ _
  unfold wp EStateM.bind
  cases x s <;> rfl

@[simp] theorem wp_ite (c : Prop) [Decidable c] (x y : EStateM ε σ α) :
    wp (if c then x else y) Q E s ↔ if c then wp x Q E s else wp y Q E s := by
  split <;> rfl

@[simp] theorem wp_check {Q : Unit → σ → Prop} {E : Exit → σ → Prop} (p : σ → Bool) :
    wp (check p) Q E s ↔ if p s then Q () s else E .assertion s := by
  simp only [check, wp_bind, wp_get, wp_ite, wp_pure, wp_throw]

/-- Nothing is to be shown of a program that may end in any state. -/
theorem wp_true (x : EStateM ε σ α) (s : σ) :
    wp x (fun _ _ => True) (fun _ _ => True) s := by
  unfold wp
  split <;> trivial

/-- What a program does, with its end state and whether it raises. -/
theorem wp_outcome {E : Exit → σ → Prop} {x : EStateM Exit σ α} (h : wp x Q E s) :
    wp x (fun a s' => Q a s' ∧ raises x s = false ∧ endState x s = s')
      (fun e s' => E e s' ∧ (raises x s = true ↔ e = .exception)) s := by
  unfold wp raises endState at *
  cases hx : x s with
  | ok a s' =>
      rw [hx] at h
      exact ⟨h, rfl, rfl⟩
  | error e s' =>
      rw [hx] at h
      refine ⟨h, ?_⟩
      cases e <;> simp

/-- What a program that raises leaves behind. -/
theorem wp_raises {E : Exit → σ → Prop} {x : EStateM Exit σ α} (h : wp x Q E s)
    (hx : raises x s = true) : wp x (fun _ _ => False) (fun e s' => e = .exception ∧ E e s') s := by
  unfold wp raises at *
  cases hr : x s with
  | ok a s' => rw [hr] at hx; exact absurd hx (by simp)
  | error e s' =>
      rw [hr] at h hx
      cases e with
      | exception => exact ⟨rfl, h⟩
      | _ => exact absurd hx (by simp)

/-- What a program that does not raise leaves behind. -/
theorem wp_not_raises {E : Exit → σ → Prop} {x : EStateM Exit σ α} (h : wp x Q E s)
    (hx : raises x s = false) : wp x Q (fun e s' => e ≠ .exception ∧ E e s') s := by
  unfold wp raises at *
  cases hr : x s with
  | ok a s' => rw [hr] at h; exact h
  | error e s' =>
      rw [hr] at h hx
      refine ⟨?_, h⟩
      rintro rfl
      exact absurd hx (by simp)

/-- The rule of consequence. -/
theorem wp_mono {x : EStateM ε σ α} (h : wp x Q E s) (hQ : ∀ a s', Q a s' → Q' a s')
    (hE : ∀ e s', E e s' → E' e s') : wp x Q' E' s := by
  unfold wp at *
  cases hx : x s with
  | ok a s' => rw [hx] at h; exact hQ a s' h
  | error e s' => rw [hx] at h; exact hE e s' h

/-- A property of every end is one of the state in which the program ends. -/
theorem endState_of_wp {x : EStateM ε σ α} {P : σ → Prop} (h : wp x (fun _ => P) (fun _ => P) s) :
    P (endState x s) := by
  unfold wp at h
  unfold endState
  cases hx : x s with
  | ok a s' => rw [hx] at h; exact h
  | error e s' => rw [hx] at h; exact h

/-- Two specifications of one program hold together. -/
theorem wp_and {x : EStateM ε σ α} (h : wp x Q E s) (h' : wp x Q' E' s) :
    wp x (fun a s' => Q a s' ∧ Q' a s') (fun e s' => E e s' ∧ E' e s') s := by
  unfold wp at *
  cases hx : x s with
  | ok a s' => rw [hx] at h h'; exact ⟨h, h'⟩
  | error e s' => rw [hx] at h h'; exact ⟨h, h'⟩

/-- A program that returns and changes nothing. -/
theorem wp_of_idle {x : EStateM ε σ Unit} {Q : Unit → σ → Prop}
    (h : wp x (fun _ s' => s' = s) (fun _ _ => False) s) : wp x Q E s ↔ Q () s := by
  unfold wp at *
  cases hx : x s with
  | ok a s' =>
      rw [hx] at h
      rw [show s' = s from h]
  | error e s' =>
      rw [hx] at h
      exact h.elim

/-- A program that returns `a`: what is asked of its result is asked of `a`. -/
theorem wp_of_returns {x : EStateM ε σ α} {a : α} {P : α → Prop}
    (h : wp x (fun a' _ => a' = a) (fun _ _ => False) s) :
    wp x (fun a' _ => P a') (fun _ _ => False) s ↔ P a := by
  unfold wp at *
  cases hx : x s with
  | ok a' s' =>
      rw [hx] at h
      rw [show a' = a from h]
  | error e s' =>
      rw [hx] at h
      exact h.elim

end rules

/-! ### What a program preserves -/

/-- From a state in `I`, however `x` ends, it ends in a state of `I` related to the first by `R`. -/
def Keeps {ε σ α : Type} (I : σ → Prop) (R : σ → σ → Prop) (x : EStateM ε σ α) : Prop :=
  ∀ s, I s → wp x (fun _ s' => I s' ∧ R s s') (fun _ s' => I s' ∧ R s s') s

/-- A callback inside a program: `Keeps` as a rule for its precondition. -/
theorem Keeps.wp {ε σ α : Type} {I : σ → Prop} {R : σ → σ → Prop} {x : EStateM ε σ α}
    (h : Keeps I R x) {s : σ} {Q : α → σ → Prop} {E : ε → σ → Prop} (hI : I s)
    (hQ : ∀ a s', I s' → R s s' → Q a s') (hE : ∀ e s', I s' → R s s' → E e s') :
    Prog.wp x Q E s :=
  wp_mono (h s hI) (fun a s' k => hQ a s' k.1 k.2) fun e s' k => hE e s' k.1 k.2

/-! ### What a program leaves alone -/

/-- However `x` ends, it leaves the part `f` of the state as it was. -/
def Spares {ε σ α β : Type} (f : σ → β) (x : EStateM ε σ α) : Prop :=
  ∀ s, wp x (fun _ s' => f s' = f s) (fun _ s' => f s' = f s) s

namespace Spares
variable {ε σ α β γ : Type} {f : σ → β}

theorem pure {a : α} : Spares f (pure a : EStateM ε σ α) := fun _ => rfl

theorem get : Spares f (get : EStateM ε σ σ) := fun _ => rfl

theorem modify {g : σ → σ} (h : ∀ s, f (g s) = f s) :
    Spares f (modify g : EStateM ε σ PUnit) := h

theorem bind {x : EStateM ε σ α} {g : α → EStateM ε σ γ} (hx : Spares f x)
    (hg : ∀ a, Spares f (g a)) : Spares f (x >>= g) := by
  intro s
  rw [wp_bind]
  refine wp_mono (hx s) (fun a s₁ h₁ => ?_) fun _ _ h₁ => h₁
  exact wp_mono (hg a s₁) (fun _ _ h₂ => h₂.trans h₁) fun _ _ h₂ => h₂.trans h₁

theorem ite {c : Prop} [Decidable c] {x y : EStateM ε σ α} (hx : Spares f x) (hy : Spares f y) :
    Spares f (if c then x else y) := by
  split
  · exact hx
  · exact hy

theorem check {p : σ → Bool} : Spares f (check p) := by
  intro s
  rw [wp_check]
  split <;> rfl

/-- What it leaves alone, it leaves alone in part. -/
theorem map {x : EStateM ε σ α} (h : Spares f x) (g : β → γ) : Spares (fun s => g (f s)) x :=
  fun s => wp_mono (h s) (fun _ _ hs => congrArg g hs) fun _ _ hs => congrArg g hs

theorem forM {g : α → EStateM ε σ PUnit} (hg : ∀ a, Spares f (g a)) :
    ∀ l : List α, Spares f (l.forM g)
  | [] => pure
  | a :: l => bind (hg a) fun _ => forM hg l

/-- A program that spares `f`, inside another one. -/
theorem wp {x : EStateM ε σ α} (h : Spares f x) {s : σ} {Q : α → σ → Prop} {E : ε → σ → Prop}
    (hQ : ∀ a s', f s' = f s → Q a s') (hE : ∀ e s', f s' = f s → E e s') : Prog.wp x Q E s :=
  wp_mono (h s) hQ hE

end Spares

/-! ### Callbacks that call back -/

/-- What one invocation of a callback does.  `ω` are the operations it may call, `ρ` is what a
callback is handed, `α` what it answers. -/
inductive Reaction (ω ρ α : Type) where
  /-- It returns. -/
  | ret (a : α)
  /-- It raises an exception. -/
  | raise
  /-- It calls `op`, whose own callbacks react as `inner` says, and goes on with `rest`. -/
  | call (op : ω) (inner : ρ → Reaction ω ρ α) (rest : Reaction ω ρ α)

namespace Reaction
variable {ω ρ α ε σ : Type}

/-- The invocation as a program: `exec op k` runs the operation `op` with callbacks `k`, and `e`
is the exit an exception takes. -/
def run (exec : ω → (ρ → EStateM ε σ α) → EStateM ε σ Unit) (e : ε) :
    Reaction ω ρ α → EStateM ε σ α
  | ret a => pure a
  | raise => throw e
  | call op inner rest => do
      exec op fun r => (inner r).run exec e
      rest.run exec e

/-- Every call of the reaction, at any depth, satisfies `p`. -/
def Every (p : ω → (ρ → Reaction ω ρ α) → Prop) : Reaction ω ρ α → Prop
  | ret _ => True
  | raise => True
  | call op inner rest => p op inner ∧ (∀ r, (inner r).Every p) ∧ rest.Every p

/-- A property of all calls holds of the calls of a reaction. -/
theorem every_of_forall {p : ω → (ρ → Reaction ω ρ α) → Prop} (hp : ∀ op inner, p op inner) :
    ∀ x : Reaction ω ρ α, x.Every p
  | ret _ => trivial
  | raise => trivial
  | call op inner rest =>
      ⟨hp op inner, fun r => every_of_forall hp (inner r), every_of_forall hp rest⟩

/-- What the reaction answers, if it returns, satisfies `p`. -/
def Answers (p : α → Prop) : Reaction ω ρ α → Prop
  | ret a => p a
  | raise => True
  | call _ _ rest => rest.Answers p

/-- What the reaction answers at its end; nothing where it raises. -/
def answer : Reaction ω ρ α → Option α
  | ret a => some a
  | raise => none
  | call _ _ rest => rest.answer

variable {exec : ω → (ρ → EStateM ε σ α) → EStateM ε σ Unit} {e : ε}
  {I : σ → Prop} {R : σ → σ → Prop}

/-- What every operation preserves, under callbacks that preserve it, every reaction made of
calls in `p` preserves. -/
theorem keeps {p : ω → (ρ → Reaction ω ρ α) → Prop} (hrefl : ∀ s, R s s)
    (htrans : ∀ a b c, R a b → R b c → R a c)
    (hexec : ∀ op inner, p op inner → (∀ r, Keeps I R ((inner r).run exec e)) →
      Keeps I R (exec op fun r => (inner r).run exec e)) :
    ∀ x : Reaction ω ρ α, x.Every p → Keeps I R (x.run exec e)
  | ret _, _ => fun s hI => ⟨hI, hrefl s⟩
  | raise, _ => fun s hI => ⟨hI, hrefl s⟩
  | call op inner rest, h => by
      intro s hI
      obtain ⟨hp, hinner, hrest⟩ := h
      have hop := hexec op inner hp fun r => keeps hrefl htrans hexec (inner r) (hinner r)
      have hk := keeps hrefl htrans hexec rest hrest
      simp only [run, wp_bind]
      refine hop.wp hI (fun _ s₁ hI₁ hR₁ => ?_) fun _ s₁ hI₁ hR₁ => ⟨hI₁, hR₁⟩
      exact hk.wp hI₁ (fun _ s₂ hI₂ hR₂ => ⟨hI₂, htrans _ _ _ hR₁ hR₂⟩)
        fun _ s₂ hI₂ hR₂ => ⟨hI₂, htrans _ _ _ hR₁ hR₂⟩

/-- Where every operation returns, a reaction leaves only by an exception of its own. -/
theorem returns
    (hexec : ∀ (op : ω) (inner : ρ → Reaction ω ρ α) (s : σ), I s →
      wp (exec op fun r => (inner r).run exec e) (fun _ => I) (fun _ _ => False) s) :
    ∀ (x : Reaction ω ρ α) (s : σ), I s →
      wp (x.run exec e) (fun _ => I) (fun e' s' => e' = e ∧ I s') s
  | ret _, _, hI => hI
  | raise, _, hI => ⟨rfl, hI⟩
  | call op inner rest, s, hI => by
      simp only [run, wp_bind]
      refine wp_mono (hexec op inner s hI) (fun _ s₁ hI₁ => returns hexec rest s₁ hI₁) ?_
      exact fun _ _ hf => hf.elim

/-- A reaction that returns returns one of its answers. -/
theorem answers {p : α → Prop} : ∀ x : Reaction ω ρ α, x.Answers p → ∀ s,
    wp (x.run exec e) (fun a _ => p a) (fun _ _ => True) s
  | ret _, h, _ => h
  | raise, _, _ => trivial
  | call op inner rest, h, s => by
      simp only [run, wp_bind]
      -- Only the end of the reaction answers; what the call did does not matter.
      exact wp_mono (wp_true _ s) (fun _ s₁ _ => answers rest h s₁) fun _ _ _ => trivial

/-- What every operation leaves alone, every reaction does. -/
theorem spares {β : Type} {f : σ → β}
    (hexec : ∀ (op : ω) (k : ρ → EStateM ε σ α), (∀ r, Spares f (k r)) → Spares f (exec op k)) :
    ∀ x : Reaction ω ρ α, Spares f (x.run exec e)
  | ret _ => Spares.pure
  | raise => fun _ => rfl
  | call op inner rest =>
      .bind (hexec op _ fun r => spares hexec (inner r)) fun _ => spares hexec rest

/-- The reaction that answers `a` where `x` answers. -/
def answering (a : α) : Reaction ω ρ α → Reaction ω ρ α
  | ret _ => ret a
  | raise => raise
  | call op inner rest => call op inner (rest.answering a)

/-- What a reaction answers can be replaced. -/
theorem answer_answering (a : α) :
    ∀ x : Reaction ω ρ α, (x.answering a).answer = x.answer.map fun _ => a
  | ret _ => rfl
  | raise => rfl
  | call _ _ rest => answer_answering a rest

/-- In a state in which the operations do nothing, a reaction does nothing but answer. -/
theorem wp_run_of_idle {s : σ} {Q : α → σ → Prop} {E : ε → σ → Prop}
    (hexec : ∀ (op : ω) (inner : ρ → Reaction ω ρ α),
      wp (exec op fun r => (inner r).run exec e) (fun _ s' => s' = s) (fun _ _ => False) s) :
    ∀ x : Reaction ω ρ α, wp (x.run exec e) Q E s ↔ x.answer.elim (E e s) fun a => Q a s
  | ret _ => Iff.rfl
  | raise => Iff.rfl
  | call op inner rest => by
      simp only [run, wp_bind, answer]
      rw [wp_of_idle (hexec op inner), wp_run_of_idle hexec rest]

end Reaction

end Prog
