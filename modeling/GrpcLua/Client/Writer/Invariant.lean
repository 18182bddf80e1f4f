import GrpcLua.Client.Writer.Definitions
import GrpcLua.Core.SendQueue

/-!
# Client — Writer — Invariant

What holds of a `ClientAsyncWriterImpl` between two operations.  The callback of the first `Close`
is owed from that call on, and `owed` says who will notice: a send or the close batch in flight.

A callback runs only when the object is closing, and then every call of it returns at once; so
whatever it calls keeps the invariant (`prog_telling`).
-/

namespace GrpcLua.Writer
open Prog Trace

/-- What the callbacks were handed, call after call. -/
def told (tr : List (Event Cb)) : List (Status × Bytes) :=
  tr.filterMap fun | .called (.closeCb _ st msg) => some (st, msg) | _ => none

/-- Every batch was taken, and every message was sent. -/
def clean (tr : List (Event Cb)) : Bool :=
  tr.all fun | .batch _ started => started | .sent _ success => success | _ => true

@[simp] theorem told_append (tr tr' : List (Event Cb)) : told (tr ++ tr') = told tr ++ told tr' :=
  List.filterMap_append

@[simp] theorem closes_append (tr tr' : List (Event Cb)) :
    closes (tr ++ tr') = closes tr ++ closes tr' := List.filterMap_append

/-- No message is accepted after `Close`, or after an error. -/
def Accepts (pre : List (Event Cb)) : Event Cb → Prop
  | .wrote _ true => closes pre = [] ∧ clean pre = true
  | _ => True

/-- What the callback is handed for the final status, when the close batch has received `tag`. -/
def Result (final : Status) (tag : CodRecvMsg) (st : Status) (msg : Bytes) : Prop :=
  if final.ok then
    match tag.recvBuf.bind byteBufferToString with
    | some response => st = .OK ∧ msg = response
    | none => st.ok = false
  else st = final ∧ msg = []

/-- The callback invoked is that of the first `Close`, it is invoked once, and it is handed the
result of the call if everything went well and an error otherwise. -/
def Fair (final : Status) (pre : List (Event Cb)) : Event Cb → Prop
  | .called (.closeCb n st msg) =>
      (n = 0 ∧ (closes pre).head? = some true ∧ told pre = []) ∧
      (clean pre = false → st.ok = false) ∧
      (clean pre = true → ∃ tag, .called (.closed tag) ∈ pre ∧ Result final tag st msg)
  | _ => True

/-- The invariant, but for who notices that the callback is owed. -/
structure Base (final : Status) (s : Writer) : Prop where
  ends : s.final = final
  queue : SendQueue s.status.ok s.msgQueue s.sending s.hasSentClose s.trace
  busy : s.status.ok = true → s.msgQueue ≠ [] → s.sending ≠ []
  clean_ok : s.status.ok = true → clean s.trace = true
  dirty : s.status.ok = false → s.hasSentClose = false → clean s.trace = false
  flight_ok : s.sending ≠ [] ∨ 0 < s.closing → s.status.ok = true
  closing_closes : s.isClosing = true ↔ closes s.trace ≠ []
  close_closing : s.hasSentClose = true → s.isClosing = true
  one_closing : s.closing ≤ 1
  closing_close : 0 < s.closing → s.hasSentClose = true
  first : ∀ n, s.closeCb = some n → n = 0 ∧ (closes s.trace).head? = some true
  pending : (closes s.trace).head? = some true → told s.trace = [] → s.closeCb = some 0
  accepts : Whenever Accepts s.trace
  fair : Whenever (Fair final) s.trace
  one_told : (told s.trace).length ≤ 1
  told_done : told s.trace ≠ [] →
    s.isClosing = true ∧ (s.status.ok = false ∨ s.hasSentClose = true ∧ s.closing = 0)

structure Inv (final : Status) (s : Writer) : Prop extends Base final s where
  sent_close : s.status.ok = true → s.isClosing = true → s.msgQueue = [] → s.hasSentClose = true
  owed : (closes s.trace).head? = some true → told s.trace = [] →
    s.status.ok = true ∧ (s.sending ≠ [] ∨ 0 < s.closing)

variable {final : Status} {s s' : Writer}

/-! ### Small moves -/

/-- Once closing, what the user does leaves no more than a trace. -/
theorem Inv.idle (h : Inv final s) (hc : s.isClosing = true) {e : Event Cb}
    (he : (∃ msg, e = .wrote msg false) ∨ ∃ given, e = .called (.close given)) :
    Inv final { s with trace := s.trace ++ [e] } := by
  have hclosed : closes s.trace ≠ [] := h.closing_closes.mp hc
  obtain ⟨given, rest, hcl⟩ := List.exists_cons_of_ne_nil hclosed
  have htold : told (s.trace ++ [e]) = told s.trace := by
    rcases he with ⟨msg, rfl⟩ | ⟨given, rfl⟩ <;> simp [told]
  have hclean : clean (s.trace ++ [e]) = clean s.trace := by
    rcases he with ⟨msg, rfl⟩ | ⟨given, rfl⟩ <;> simp [clean]
  have hhead : (closes (s.trace ++ [e])).head? = (closes s.trace).head? := by
    rw [closes_append, hcl]
    rfl
  have hne : closes (s.trace ++ [e]) ≠ [] := by
    rw [closes_append]
    exact List.append_ne_nil_of_left_ne_nil hclosed _
  refine
    { h with
      queue := ?_
      clean_ok := by rw [hclean]; exact h.clean_ok
      dirty := by rw [hclean]; exact h.dirty
      closing_closes := ⟨fun _ => hne, fun _ => hc⟩
      first := by rw [hhead]; exact h.first
      pending := by rw [hhead, htold]; exact h.pending
      accepts := (whenever_concat e).mpr ⟨h.accepts, ?_⟩
      fair := (whenever_concat e).mpr ⟨h.fair, ?_⟩
      one_told := by rw [htold]; exact h.one_told
      told_done := by rw [htold]; exact h.told_done
      owed := by rw [hhead, htold]; exact h.owed }
  all_goals rcases he with ⟨msg, rfl⟩ | ⟨given, rfl⟩
  · exact h.queue.other rfl rfl rfl rfl trivial
  · exact h.queue.other rfl rfl rfl rfl trivial
  all_goals trivial

/-- What a callback finds: the object is closing, and the callback has been told `r`. -/
structure Telling (final : Status) (r : Status × Bytes) (s : Writer) : Prop where
  inv : Inv final s
  closing : s.isClosing = true
  told : told s.trace = [r]

variable {r : Status × Bytes}

theorem Telling.idle (h : Telling final r s) {e : Event Cb}
    (he : (∃ msg, e = .wrote msg false) ∨ ∃ given, e = .called (.close given)) :
    Telling final r { s with trace := s.trace ++ [e] } where
  inv := h.inv.idle h.closing he
  closing := h.closing
  told := by
    rw [told_append, h.told]
    rcases he with ⟨msg, rfl⟩ | ⟨given, rfl⟩ <;> rfl

/-- A call of the object that is closing returns at once. -/
theorem call_telling (c : Call) (k : Status → M Unit) (s : Writer) (h : Telling final r s) :
    wp (c.exec k) (fun _ => Telling final r) (fun _ _ => False) s := by
  cases c with
  | write request =>
      have h' := h.idle (e := .wrote request false) (.inl ⟨request, rfl⟩)
      simp only [Call.exec, Writer.write, wp_bind, wp_get, wp_ite, wp_pure, wp_emit, env_eq,
        setEnv_eq]
      split
      · exact h'
      · rw [if_pos h.closing]
        exact h'
  | close given =>
      simp only [Call.exec, Writer.close, wp_bind, wp_get, wp_ite, wp_pure, wp_emit, env_eq,
        setEnv_eq]
      rw [if_pos h.closing]
      exact h.idle (.inr ⟨given, rfl⟩)

/-- Whatever a callback calls, it leaves only by an exception of its own. -/
theorem prog_telling (x : React) (h : Telling final r s) :
    wp x.prog (fun _ => Telling final r) (fun e s' => e = .exception ∧ Telling final r s') s :=
  Reaction.returns (fun c _ s' h' => call_telling c _ s' h') x s h

/-- A step left by an exception of a callback. -/
def Raised (final : Status) (e : Exit) (s : Writer) : Prop := e = .exception ∧ Inv final s

end GrpcLua.Writer
