import GrpcLua.Core.SendStatus
import GrpcLua.Server.Replier
import GrpcLua.Server.Writer.Runs

/-!
# Server — Statuses

The statuses that a server ends its calls with, through `ServerReplier::ReplyError` and by closing a
`ServerWriter`: the batch that is handed to `StartBatch` carries such a status to the client exactly
if its details have no NUL.
-/

namespace GrpcLua
open Prog

namespace ServerReplier
variable {s : ServerReplier}

/-- A thread whose `ReplyError(status)` was accepted hands over the batch that reports it. -/
theorem replied_error {i : Nat} {status : Status}
    (hi : s.threads[i]? = some (.start (.error status))) :
    ∃ s' b started, after s [.resume i] = .running s' ∧
      s'.trace = s.trace ++ [.batch b started] ∧ b.Sends status := by
  have hstep : wp (Step.exec (.resume i)) (fun _ s' => s'.trace = s.trace ++
      [.batch ((Reply.error status).batch s.sendInitMd) (s.starts.headD true)])
      (fun _ _ => False) s := by
    simp only [Step.exec, wp_bind, wp_get]
    rw [List.getD_eq_getElem?_getD, hi]
    rfl
  have hnext := Process.holds_next (J := fun _ _ => False)
    (wp_mono hstep (fun _ _ h => h) fun _ _ => False.elim)
  rw [after, Process.after_cons, Process.after_nil]
  cases hs : Process.next Step.exec (.running s) (.resume i) with
  | stopped e s' =>
      rw [hs] at hnext
      exact hnext.elim
  | running s' =>
      rw [hs] at hnext
      refine ⟨s', _, _, rfl, hnext, Batch.sends_of_status? ?_⟩
      cases s.sendInitMd <;> rfl

end ServerReplier

namespace ServerWriter
variable {s : ServerWriter}

theorem step_sane (h : Inv s) (l : Step) (hl : Step.Enabled s l) :
    wp l.exec (fun _ => Inv)
      (Process.Leaves Inv fun e s' => e = .undefined ∧ unfailed s'.trace = false) s := by
  by_cases hlose : Loses s l
  · refine wp_mono (step_loses h l hl hlose) (fun _ _ hf => hf.elim) ?_
    rintro _ s' ⟨rfl, hs'⟩
    exact ⟨rfl, hs'⟩
  · exact wp_mono (step_leads h l hl hlose) (fun _ _ h' => h'.inv) fun _ _ hf => hf.elim

/-- Where a run has closed the writer with `status` first, that is what a status batch reports. -/
theorem closed_batch {starts : List Bool} {n : Nat} {ls : List Step} {status : Status}
    (hls : Legal (new starts n) ls) (hs : after (new starts n) ls = .running s)
    (hclose : (closes s.trace).head? = some status) {b : Batch} (hb : b ∈ batches s.trace)
    (hst : b.status?.isSome) : b.Sends status := by
  have hInv : Process.Holds Inv _ (after (new starts n) ls) :=
    Process.invariant (fun s l h hl => step_sane h l hl) (Inv.new starts n) hls
  rw [hs] at hInv
  obtain ⟨st, hst⟩ := Option.isSome_iff_exists.mp hst
  obtain ⟨e, he, heb⟩ := List.mem_filterMap.mp hb
  cases e with
  | batch b' r =>
      cases heb
      obtain ⟨first, hfirst, rfl⟩ := Inv.carried hInv he hst
      cases hclose.symm.trans hfirst
      exact Batch.sends_of_status? hst
  | sent m r => cases heb
  | wrote m r => cases heb
  | called k => cases heb

end ServerWriter

/-- **A status on its way.**  In every run of a replier, the batch of an accepted
`ReplyError(status)`, and in every run of a writer that was closed with `status`, the status batch,
sends what `ServerSendStatus` makes of `status`, and carries `status` to the client exactly if the
details have no NUL. -/
theorem status_carried_iff (status : Status) :
    (∀ (starts : List Bool) (n : Nat) (ls : List ServerReplier.Step) (s : ServerReplier) (i : Nat),
      ServerReplier.Legal (.new starts n) ls →
      ServerReplier.after (.new starts n) ls = .running s →
      s.threads[i]? = some (.start (.error status)) →
      ∃ s' b started, ServerReplier.after (.new starts n) (ls ++ [.resume i]) = .running s' ∧
        s'.trace = s.trace ++ [.batch b started] ∧ b.Sends status ∧
        (b.Carries status ↔ (0 : UInt8) ∉ status.details)) ∧
    (∀ (starts : List Bool) (n : Nat) (ls : List ServerWriter.Step) (s : ServerWriter),
      ServerWriter.Legal (.new starts n) ls →
      ServerWriter.after (.new starts n) ls = .running s →
      (ServerWriter.closes s.trace).head? = some status →
      ∀ b ∈ batches s.trace, b.status?.isSome →
        b.Sends status ∧ (b.Carries status ↔ (0 : UInt8) ∉ status.details)) := by
  constructor
  · intro starts n ls s i _ hs hi
    obtain ⟨s', b, started, hnext, htrace, hb⟩ := ServerReplier.replied_error hi
    refine ⟨s', b, started, ?_, htrace, hb, hb.carries_iff⟩
    rw [ServerReplier.after, Process.after_append]
    rw [ServerReplier.after] at hs
    rw [hs]
    exact hnext
  · intro starts n ls s hls hs hclose b hb hst
    have hsends := ServerWriter.closed_batch hls hs hclose hb hst
    exact ⟨hsends, hsends.carries_iff⟩

/-- A replier, and a writer with a message in flight, that end their calls with INTERNAL. -/
theorem status_carried_internal :
    let status : Status := .internalError [120]
    (∃ s' b started, ServerReplier.after (.new [] 1)
        ([.call 0 (.error status), .resume 0, .resume 0] ++ [.resume 0]) = .running s' ∧
      s'.trace = [] ++ [.batch b started] ∧ b.Sends status ∧
      (b.Carries status ↔ (0 : UInt8) ∉ status.details)) ∧
    Batch.Sends [.serverSendStatus status] status ∧
    (Batch.Carries [.serverSendStatus status] status ↔ (0 : UInt8) ∉ status.details) :=
  ⟨(status_carried_iff (.internalError [120])).1 [] 1
      [.call 0 (.error (.internalError [120])), .resume 0, .resume 0] _ 0 (by decide) rfl rfl,
    (status_carried_iff (.internalError [120])).2 [] 1
      [.call 0 (.asyncWrite [1]), .resume 0, .call 0 (.asyncClose (.internalError [120])),
        .resume 0, .complete true] _ (by decide) rfl (by decide) _ (by decide) (by decide)⟩

/-- Details with a NUL reach the client without what follows it. -/
theorem not_status_carried :
    let status : Status := .internalError [97, 0, 98]
    (∃ s, ServerReplier.after (.new [] 1)
        [.call 0 (.error status), .resume 0, .resume 0, .resume 0] = .running s ∧
      batches s.trace = [[.sendInitMd, .serverSendStatus (.internalError [97])]] ∧
      ∀ b ∈ batches s.trace, ¬ b.Carries status) ∧
    (∃ s, ServerWriter.after (.new [] 1) [.call 0 (.asyncClose status), .resume 0] = .running s ∧
      batches s.trace = [[.sendInitMd, .serverSendStatus (.internalError [97])]] ∧
      ∀ b ∈ batches s.trace, ¬ b.Carries status) :=
  ⟨⟨_, rfl, by decide, by decide⟩, ⟨_, rfl, by decide, by decide⟩⟩

end GrpcLua
