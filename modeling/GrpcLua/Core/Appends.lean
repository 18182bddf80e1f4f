import GrpcLua.Core.CallRules
import GrpcLua.Support.Follows

/-!
# Core — Appends

Programs that only add to the trace, however they end; and what that means for a trace in which the
half-close comes last: once it was handed to gRPC, no message follows.
-/

namespace GrpcLua
open Prog Trace

/-- What is read from the surroundings is what was last written. -/
class LawfulEnv (σ : Type) {κ : Type} [HasEnv σ κ] : Prop where
  env_setEnv : ∀ (s : σ) (e : Env κ), HasEnv.env (HasEnv.setEnv s e) = e

section
variable {ε σ κ α : Type} [HasEnv σ κ]

/-- The trace goes on from where it was. -/
def TraceGrows (s s' : σ) : Prop := (HasEnv.env s).trace <+: (HasEnv.env s').trace

instance : IsPreorder σ TraceGrows where
  refl _ := List.prefix_rfl
  trans _ _ _ h h' := List.IsPrefix.trans h h'

/-- However `x` ends, it has only added to the trace. -/
abbrev Appends (x : EStateM ε σ α) : Prop := Follows TraceGrows x

variable [LawfulEnv σ]

theorem startBatch_appends (b : Batch) : Appends (startBatch b : EStateM ε σ Bool) := by
  intro s
  rw [wp_startBatch, TraceGrows, LawfulEnv.env_setEnv]
  exact List.prefix_append _ _

theorem emit_appends (e : Event κ) : Appends (emit e : EStateM ε σ Unit) := by
  intro s
  rw [wp_emit, TraceGrows, LawfulEnv.env_setEnv]
  exact List.prefix_append _ _

end

section
variable {κ : Type} {tr tr' : List (Event κ)}

theorem startedOp_mono (op : Op) (h : tr <+: tr') (hs : startedOp op tr = true) :
    startedOp op tr' = true := by
  obtain ⟨rest, rfl⟩ := h
  rw [startedOp, List.any_append, Bool.or_eq_true]
  exact .inl hs

/-- The client has half-closed the call, and gRPC has taken it. -/
def halfClosed (tr : List (Event κ)) : Option Unit :=
  if startedOp .clientSendClose tr then some () else none

theorem halfClosed_eq {u : Unit} :
    halfClosed tr = some u ↔ startedOp .clientSendClose tr = true := by
  unfold halfClosed
  cases startedOp .clientSendClose tr <;> simp

theorem handed_grows (h : tr <+: tr') : handed tr <+: handed tr' := by
  obtain ⟨rest, rfl⟩ := h
  rw [handed_append]
  exact List.prefix_append _ _

/-- No message is handed over after the half-close. -/
def MsgsBeforeClose (pre : List (Event κ)) : Event κ → Prop
  | .batch b _ => b.msg? ≠ none → closed pre = false
  | _ => True

theorem ClosesLast.msgsBefore (h : Whenever ClosesLast tr) : Whenever MsgsBeforeClose tr := by
  refine h.mono fun pre e he => ?_
  cases e with
  | batch b started => exact he.2
  | _ => trivial

theorem Admitted.msgsBefore (h : Admitted tr) : Whenever MsgsBeforeClose tr := by
  refine Whenever.mono (fun pre e he => ?_) h
  cases e with
  | batch b started => exact he.2
  | _ => trivial

/-- After the half-close no message is handed to gRPC. -/
theorem handed_of_closed (h : tr <+: tr') (hlast : Whenever MsgsBeforeClose tr')
    (hc : closed tr = true) : handed tr' = handed tr := by
  obtain ⟨rest, rfl⟩ := h
  suffices hrest : handed rest = [] by rw [handed_append, hrest, List.append_nil]
  rw [handed, List.filterMap_eq_nil_iff]
  intro e he
  obtain ⟨pre, post, rfl⟩ := List.append_of_mem he
  cases e with
  | batch b started =>
      cases started with
      | false => rfl
      | true =>
          by_contra hmsg
          have hopen := hlast (tr ++ pre) (.batch b true) post (by rw [List.append_assoc])
          have := hopen hmsg
          rw [closed_append, hc] at this
          cases this
  | _ => rfl

/-- A half-close that gRPC has taken stays, and no message follows it. -/
theorem halfClosed_stays (h : tr <+: tr') (hlast : Whenever MsgsBeforeClose tr') {u : Unit}
    (hc : halfClosed tr = some u) : halfClosed tr' = some u ∧ handed tr' = handed tr := by
  have hstarted := halfClosed_eq.mp hc
  exact ⟨halfClosed_eq.mpr (startedOp_mono _ h hstarted),
    handed_of_closed h hlast (closed_of_startedOp hstarted)⟩

/-- With the half-close, every accepted message has been handed to gRPC. -/
theorem SendQueue.handed_of_halfClosed {ok closing : Bool} {queue flying : List Bytes}
    (h : SendQueue ok queue flying closing tr) {u : Unit} (hc : halfClosed tr = some u) :
    closing = true ∧ handed tr = accepted tr := by
  obtain rfl : closing = true :=
    h.trace_closed.symm.trans (closed_of_startedOp (halfClosed_eq.mp hc))
  exact ⟨rfl, h.handed_of_closing⟩

end

end GrpcLua
