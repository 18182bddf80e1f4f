import GrpcLua.Support.Programs
import Mathlib.Order.Defs.Unbundled

/-!
# Support — Follows

Programs that lead, however they end, to a state related to the one they found: `Follows R x`, for a
reflexive and transitive `R`.  It is proved along the text of the program, one rule for each way of
putting programs together; and a callback follows `R` if the operations it may call do
(`Follows.reaction`).
-/

namespace Prog
variable {ε σ α β ω ρ : Type}

/-- However `x` ends, `R` relates the state it found to the one it leaves. -/
def Follows (R : σ → σ → Prop) (x : EStateM ε σ α) : Prop :=
  ∀ s, wp x (fun _ s' => R s s') (fun _ s' => R s s') s

namespace Follows
variable {R : σ → σ → Prop} [IsPreorder σ R]

theorem pure {a : α} : Follows R (pure a : EStateM ε σ α) := fun s => refl_of R s

theorem throw {e : ε} : Follows R (throw e : EStateM ε σ α) := fun s => refl_of R s

theorem get : Follows R (get : EStateM ε σ σ) := fun s => refl_of R s

omit [IsPreorder σ R] in
theorem modify {g : σ → σ} (h : ∀ s, R s (g s)) : Follows R (modify g : EStateM ε σ PUnit) := h

theorem bind {x : EStateM ε σ α} {g : α → EStateM ε σ β} (hx : Follows R x)
    (hg : ∀ a, Follows R (g a)) : Follows R (x >>= g) := by
  intro s
  rw [wp_bind]
  refine wp_mono (hx s) (fun a s₁ h₁ => ?_) fun _ _ h₁ => h₁
  exact wp_mono (hg a s₁) (fun _ _ h₂ => trans_of R h₁ h₂) fun _ _ h₂ => trans_of R h₁ h₂

omit [IsPreorder σ R] in
theorem ite {c : Prop} [Decidable c] {x y : EStateM ε σ α} (hx : Follows R x)
    (hy : Follows R y) : Follows R (if c then x else y) := by
  split
  · exact hx
  · exact hy

theorem check {p : σ → Bool} : Follows R (check p) := by
  intro s
  rw [wp_check]
  split <;> exact refl_of R s

/-- A program that follows `R`, inside another one. -/
theorem wp {x : EStateM ε σ α} (h : Follows R x) {s₀ s : σ} {Q : α → σ → Prop}
    {E : ε → σ → Prop} (h₀ : R s₀ s) (hQ : ∀ a s', R s₀ s' → Q a s')
    (hE : ∀ e s', R s₀ s' → E e s') : Prog.wp x Q E s :=
  wp_mono (h s) (fun a s' h' => hQ a s' (trans_of R h₀ h'))
    fun e s' h' => hE e s' (trans_of R h₀ h')

/-- Where every operation follows `R`, every reaction does. -/
theorem reaction {exec : ω → (ρ → EStateM ε σ α) → EStateM ε σ Unit} {e : ε}
    (hexec : ∀ op k, (∀ r, Follows R (k r)) → Follows R (exec op k)) :
    ∀ x : Reaction ω ρ α, Follows R (x.run exec e)
  | .ret _ => pure
  | .raise => throw
  | .call op inner rest =>
      bind (hexec op _ fun r => reaction hexec (inner r)) fun _ => reaction hexec rest

end Follows

end Prog
