import Mathlib.Tactic.Common

/-!
# Support — Traces

What a process does, event by event, the latest last.  `Whenever C tr` says of every event of
`tr` that `C` holds of the events before it and of the event itself; it is proved one event at a
time (`whenever_concat`).
-/

namespace Trace
variable {α : Type} {C C' : List α → α → Prop} {tr : List α}

/-- `C` holds of every event and of what came before it. -/
def Whenever (C : List α → α → Prop) (tr : List α) : Prop :=
  ∀ pre e post, tr = pre ++ e :: post → C pre e

@[simp] theorem whenever_nil : Whenever C [] := by
  intro pre e post h
  simp at h

@[simp] theorem whenever_concat (e : α) :
    Whenever C (tr ++ [e]) ↔ Whenever C tr ∧ C tr e := by
  constructor
  · intro h
    refine ⟨fun pre e' post he => h pre e' (post ++ [e]) ?_, h tr e [] rfl⟩
    rw [he, List.append_assoc, List.cons_append]
  · rintro ⟨h, he⟩ pre e' post heq
    rcases List.eq_nil_or_concat post with rfl | ⟨post', b, rfl⟩
    · obtain ⟨rfl, h'⟩ := List.append_inj' heq rfl
      cases h'
      exact he
    · rw [List.concat_eq_append, ← List.cons_append, ← List.append_assoc] at heq
      exact h pre e' post' (List.append_inj' heq rfl).1

theorem whenever_singleton (e : α) : Whenever C [e] ↔ C [] e := by
  rw [← List.nil_append [e], whenever_concat]
  exact ⟨fun h => h.2, fun h => ⟨whenever_nil, h⟩⟩

theorem Whenever.of_prefix {tr' : List α} (h : Whenever C tr') (hp : tr <+: tr') :
    Whenever C tr := by
  obtain ⟨rest, rfl⟩ := hp
  rintro pre e post rfl
  exact h pre e (post ++ rest) (by rw [List.append_assoc, List.cons_append])

theorem Whenever.mono (hC : ∀ pre e, C pre e → C' pre e) (h : Whenever C tr) : Whenever C' tr :=
  fun pre e post he => hC pre e (h pre e post he)

/-- The same, event by event. -/
theorem whenever_iff_getElem :
    Whenever C tr ↔ ∀ i : Fin tr.length, C (tr.take i) tr[i] := by
  constructor
  · intro h i
    exact h (tr.take i) tr[i] (tr.drop (i + 1)) (by simp)
  · rintro h pre e post rfl
    simpa using h ⟨pre.length, by simp⟩

instance Whenever.decidable [∀ pre e, Decidable (C pre e)] : Decidable (Whenever C tr) :=
  decidable_of_iff _ whenever_iff_getElem.symm

end Trace
