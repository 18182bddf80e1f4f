import GrpcLua.Core.SendQueue

/-!
# Core — CallRules

What gRPC asks of the batches of one call: the half-close, the initial metadata and the final
status are each asked for once, unless the batch was refused, and no message follows the
half-close.  `Admitted` says of a trace that it keeps to this, and `Submits` of a call of an
object that it hands at most one batch to `StartBatch`.
-/

namespace GrpcLua
open Trace

/-- The operations that a call takes once. -/
def Op.once : Op → Bool
  | .clientSendClose => true
  | .recvInitMd => true
  | .clientRecvStatus => true
  | _ => false

section
variable {κ : Type} {tr : List (Event κ)}

/-- A batch with `op` was started. -/
def startedOp (op : Op) (tr : List (Event κ)) : Bool :=
  tr.any fun | .batch b started => started && b.contains op | _ => false

theorem closed_of_startedOp (h : startedOp .clientSendClose tr = true) : closed tr = true := by
  obtain ⟨e, he, hop⟩ := List.any_eq_true.mp h
  cases e with
  | batch b started => exact List.any_eq_true.mpr ⟨_, he, (Bool.and_eq_true _ _ ▸ hop).2⟩
  | _ => exact absurd hop (by simp)

/-- gRPC admits the batch: it repeats no operation that a call takes once and that was started, and
sends no message after the half-close. -/
def Admits (pre : List (Event κ)) : Event κ → Prop
  | .batch b _ =>
      (∀ op ∈ b, op.once = true → startedOp op pre = false) ∧ (b.msg? ≠ none → closed pre = false)
  | _ => True

/-- Every batch of the trace was admissible when it was submitted. -/
abbrev Admitted (tr : List (Event κ)) : Prop := Whenever Admits tr

theorem Admitted.of_prefix {tr' : List (Event κ)} (h : Admitted tr') (hp : tr <+: tr') :
    Admitted tr :=
  Whenever.of_prefix h hp

/-- A batch of operations that may be repeated, and that sends no message. -/
theorem Admits.free {b : Batch} {started : Bool} (hb : ∀ op ∈ b, op.once = false)
    (hm : b.msg? = none) : Admits tr (.batch b started) :=
  ⟨fun op hop ho => absurd ((hb op hop).symm.trans ho) (by simp), fun h => absurd hm h⟩

/-- The event is not a batch. -/
def Event.Silent : Event κ → Prop
  | .batch _ _ => False
  | _ => True

theorem silent_append {rest : List (Event κ)} (h : ∀ e ∈ rest, e.Silent) :
    (∀ op, startedOp op (tr ++ rest) = startedOp op tr) ∧ closed (tr ++ rest) = closed tr ∧
      (Admitted (tr ++ rest) ↔ Admitted tr) := by
  induction rest generalizing tr with
  | nil => simp
  | cons e rest ih =>
      have he : e.Silent := h e List.mem_cons_self
      obtain ⟨hstarted, hclosed, hadm⟩ :
          (∀ op, startedOp op (tr ++ [e] ++ rest) = startedOp op (tr ++ [e])) ∧
            closed (tr ++ [e] ++ rest) = closed (tr ++ [e]) ∧
            (Admitted (tr ++ [e] ++ rest) ↔ Admitted (tr ++ [e])) :=
        ih fun e' he' => h e' (List.mem_cons_of_mem e he')
      rw [List.append_cons]
      cases e with
      | batch b started => exact he.elim
      | _ =>
          refine ⟨fun op => (hstarted op).trans ?_, hclosed.trans ?_, hadm.trans ?_⟩
          · simp [startedOp]
          · simp [closed]
          · simp [Admits]

/-- What a call submits: the batch `b?`, if any, and then no other. -/
def Submits (b? : Option Batch) (started : Bool) (tr tr' : List (Event κ)) : Prop :=
  ∃ rest, (∀ e ∈ rest, e.Silent) ∧
    tr' = (match b? with | none => tr | some b => tr ++ [.batch b started]) ++ rest

namespace Submits
variable {b : Batch} {b? : Option Batch} {started : Bool} {tr' : List (Event κ)}

theorem isPrefix (h : Submits b? started tr tr') : tr <+: tr' := by
  obtain ⟨rest, -, rfl⟩ := h
  cases b? with
  | none => exact List.prefix_append _ _
  | some b => exact (List.prefix_append _ _).trans (List.prefix_append _ _)

theorem startedOp_eq (h : Submits b? started tr tr') (op : Op) :
    startedOp op tr' = (startedOp op tr || started && b?.any (·.contains op)) := by
  obtain ⟨rest, hrest, rfl⟩ := h
  rw [(silent_append hrest).1]
  cases b? <;> simp [startedOp]

theorem closed_eq (h : Submits b? started tr tr') :
    closed tr' = (closed tr || b?.any Batch.closes) := by
  obtain ⟨rest, hrest, rfl⟩ := h
  rw [(silent_append hrest).2.1]
  cases b? <;> simp [closed]

theorem admitted_none (h : Submits none started tr tr') : Admitted tr' ↔ Admitted tr := by
  obtain ⟨rest, hrest, rfl⟩ := h
  exact (silent_append hrest).2.2

theorem admitted_some (h : Submits (some b) started tr tr') :
    Admitted tr' ↔ Admitted tr ∧ Admits tr (.batch b started) := by
  obtain ⟨rest, hrest, rfl⟩ := h
  exact (silent_append hrest).2.2.trans (whenever_concat _)

end Submits

end

end GrpcLua
