import GrpcLua.Core.Appends

/-!
# Core — Guarded

Objects that hand each operation of a call to gRPC at most once, the messages apart, because they
remember what they have handed.  A guard says of a state and an operation that the object will not
hand it again; `Guarded` says that the guard knows of every operation that was started, and that
none was handed a second time.  A batch is submitted where the guard of its operations is down, and
raises it (`Guarded.submit`); a program that submits messages only leaves the guard alone.
-/

namespace GrpcLua
open Prog Trace

/-- The operations that a call takes again and again. -/
def Op.repeats : Op → Bool
  | .sendMsg _ => true
  | .recvMsg => true
  | _ => false

section
variable {κ : Type} {tr : List (Event κ)}

/-- The batch has no operation that was started before, but for the messages. -/
def Singles (pre : List (Event κ)) : Event κ → Prop
  | .batch b _ => ∀ op ∈ b, op.repeats = false → startedOp op pre = false
  | _ => True

/-- gRPC permits the batch: it repeats nothing but messages, and sends none after the half-close. -/
def Permits (pre : List (Event κ)) : Event κ → Prop
  | .batch b _ =>
      (∀ op ∈ b, op.repeats = false → startedOp op pre = false) ∧
        (b.msg? ≠ none → closed pre = false)
  | _ => True

/-- Every batch of the trace was permitted when it was submitted. -/
abbrev Permitted (tr : List (Event κ)) : Prop := Whenever Permits tr

theorem permitted_of_singles (h : Whenever Singles tr) (hlast : Whenever ClosesLast tr) :
    Permitted tr := by
  intro pre e post htr
  cases e with
  | batch b started => exact ⟨h pre _ post htr, (hlast pre _ post htr).2⟩
  | _ => trivial

theorem startedOp_append (op : Op) (tr tr' : List (Event κ)) :
    startedOp op (tr ++ tr') = (startedOp op tr || startedOp op tr') :=
  List.any_append

theorem startedOp_batch (op : Op) (b : Batch) (started : Bool) :
    startedOp op [(.batch b started : Event κ)] = (started && b.contains op) := by
  simp [startedOp]

end

/-- The guard knows of every operation that was started, and none was started twice. -/
structure Guarded {σ κ : Type} [HasEnv σ κ] (guard : σ → Op → Bool) (s : σ) : Prop where
  singles : Whenever Singles (HasEnv.env s).trace
  raised : ∀ op, op.repeats = false → startedOp op (HasEnv.env s).trace = true → guard s op = true

section
variable {σ κ ε α : Type} [HasEnv σ κ] {guard : σ → Op → Bool} {s s' : σ}

namespace Guarded

/-- A guard that is only raised. -/
theorem raise (h : Guarded guard s) (htr : (HasEnv.env s').trace = (HasEnv.env s).trace)
    (hup : ∀ op, guard s op = true → guard s' op = true) : Guarded guard s' where
  singles := by rw [htr]; exact h.singles
  raised := fun op hop hs => hup op (h.raised op hop (htr ▸ hs))

/-- An event that is no batch. -/
theorem event (h : Guarded guard s) {e : Event κ} (he : e.Silent)
    (htr : (HasEnv.env s').trace = (HasEnv.env s).trace ++ [e])
    (hup : ∀ op, guard s op = true → guard s' op = true) : Guarded guard s' where
  singles := by
    rw [htr]
    refine (whenever_concat e).mpr ⟨h.singles, ?_⟩
    cases e with
    | batch b started => exact he.elim
    | _ => trivial
  raised := fun op hop hs => by
    refine hup op (h.raised op hop ?_)
    rw [htr, startedOp_append] at hs
    cases e with
    | batch b started => exact he.elim
    | _ => simpa [startedOp] using hs

/-- A batch whose operations are messages, or have their guard down before it and up after it. -/
theorem submit (h : Guarded guard s) {b : Batch} {started : Bool}
    (htr : (HasEnv.env s').trace = (HasEnv.env s).trace ++ [.batch b started])
    (hb : ∀ op ∈ b, op.repeats = false → guard s op = false ∧ guard s' op = true)
    (hup : ∀ op, guard s op = true → guard s' op = true) : Guarded guard s' where
  singles := by
    rw [htr]
    refine (whenever_concat _).mpr ⟨h.singles, fun op hop hrep => ?_⟩
    by_contra hs
    exact absurd (h.raised op hrep (by simpa using hs)) (by simp [(hb op hop hrep).1])
  raised := fun op hop hs => by
    rw [htr, startedOp_append, startedOp_batch, Bool.or_eq_true, Bool.and_eq_true] at hs
    rcases hs with hs | ⟨-, hs⟩
    · exact hup op (h.raised op hop hs)
    · exact (hb op (by simpa using hs) hop).2

end Guarded

/-- The guard is kept. -/
def KeepsGuard (guard : σ → Op → Bool) (s s' : σ) : Prop := Guarded guard s → Guarded guard s'

instance : IsPreorder σ (KeepsGuard guard) where
  refl _ := id
  trans _ _ _ h h' := h' ∘ h

/-- A change that leaves the trace alone and lowers no guard. -/
theorem modify_guarded {g : σ → σ} (htr : ∀ s, (HasEnv.env (g s)).trace = (HasEnv.env s).trace)
    (hup : ∀ s op, guard s op = true → guard (g s) op = true) :
    Follows (KeepsGuard guard) (modify g : EStateM ε σ PUnit) :=
  fun s h => h.raise (htr s) (hup s)

variable [LawfulEnv σ] (hup : ∀ (s : σ) (e : Env κ) op, guard s op = true →
  guard (HasEnv.setEnv s e) op = true)
include hup

/-- A batch of messages. -/
theorem startBatch_guarded {b : Batch} (hb : ∀ op ∈ b, op.repeats = true) :
    Follows (KeepsGuard guard) (startBatch b : EStateM ε σ Bool) := by
  intro s
  rw [wp_startBatch]
  intro h
  refine h.submit (by rw [LawfulEnv.env_setEnv]) (fun op hop hrep => ?_) (hup s _)
  exact absurd ((hb op hop).symm.trans hrep) (by simp)

theorem emit_guarded {e : Event κ} (he : e.Silent) :
    Follows (KeepsGuard guard) (emit e : EStateM ε σ Unit) := by
  intro s
  rw [wp_emit]
  exact fun h => h.event he (by rw [LawfulEnv.env_setEnv]) (hup s _)

end

end GrpcLua
