import GrpcLua.Support.Pipe
import GrpcLua.Core.Appends
import GrpcLua.Server.ServerReader
import GrpcLua.Server.Writer.Completions

/-!
# Streams — ServerEnds

The server's ends of a stream.  A `ServerReader` receives: its reads complete with what gRPC hands
over (`Read.take`), and its callbacks are handed what was taken (`Hears`).  A `ServerWriter` sends:
after its status no message is handed to gRPC, and what was handed over then is all that was
accepted (`Inv.handed_all`).
-/

namespace GrpcLua
open Prog Trace

/-! ### Receiving -/

namespace ServerReader

/-- The messages handed to `OnMsgStr()`. -/
def heard (tr : List ServerReaderCall) : List Bytes :=
  tr.filterMap fun | .onMsgStr msg => some msg | _ => none

theorem heard_calls (msgs : List Bytes) (error? : Option Status) (ended : Bool) :
    heard (calls msgs error? ended) = msgs := by
  have hmsgs : heard (msgs.map .onMsgStr) = msgs := by
    rw [heard, List.filterMap_map]
    exact List.filterMap_some
  have hrest : heard (error?.toList.map .onError ++ if ended then [.onEnd] else []) = [] := by
    cases error? <;> cases ended <;> rfl
  rw [calls, List.append_assoc, heard, List.filterMap_append]
  exact (congrArg₂ _ hmsgs hrest).trans (List.append_nil _)

/-- What a completed read takes from the stream. -/
def Read.take (r : Read) : Take Bytes :=
  match r.msg? with
  | some msg => .msg msg
  | none => if r.isEnd then .ending else .nothing

/-- A message that is taken is received. -/
theorem Read.took_taken {σ τ : Type} (c : Pipe σ τ Bytes) (r : Read) :
    (c.took r.take).taken = c.taken ++ r.msg?.toList := by
  unfold Read.take
  cases r.msg? with
  | some msg => rfl
  | none => cases r.isEnd <;> exact (List.append_nil _).symm

/-- Where the stream ends, the reader is told of it. -/
theorem Read.took_ended {σ τ : Type} (c : Pipe σ τ Bytes) {r : Read} (h : r.isEnd = true) :
    (c.took r.take).ended = true := by
  have hmsg : r.msg? = none := by
    unfold Read.isEnd at h
    split at h
    · rfl
    · cases h
  rw [Read.take, hmsg, h]
  rfl

/-- A read completes only while it is in flight. -/
abbrev Reads (s : ServerReader) (r : Read) : Prop := Step.Enabled s (.complete r)

section
variable {σ ℓ ω : Type}

/-- A stream that a `ServerReader` receives. -/
abbrev linkTo (send : ℓ → EStateM Exit σ Unit) (out : σ → List Bytes) (shut : σ → Option ω) :
    Link σ ℓ ServerReader Read Bytes ω where
  send := send
  recv r := Step.exec (.complete r)
  out := out
  shut := shut
  take := Read.take

/-- The reader after `Start()`, which `StartBatch` has answered with `started`. -/
def new (started : Bool) : Process ServerReader :=
  Process.next Step.exec (.running {}) (.start started)

/-- The reader has been called with what was taken; with an end without an error, only if it was
told of one. -/
def Hears (c : Pipe σ ServerReader Bytes) : Prop :=
  ∃ error? ended, c.receiver = .running (next {} c.taken error? ended) ∧
    (error?.isSome = true → ended = true) ∧ (ended = true → error? = none → c.ended = true)

theorem hears_new {c : Pipe σ ServerReader Bytes} {started : Bool} (hc : c.receiver = new started)
    (htaken : c.taken = []) : Hears c := by
  have hnext := Process.next_returns (start_next (s := {}) rfl started)
  refine ⟨firstError started [], ServerReader.ended started [], ?_, fun he => ?_, ?_⟩
  · rw [hc, htaken]
    exact hnext
  · rw [ServerReader.ended, he]
    rfl
  · cases started <;> simp [ServerReader.ended, firstError]

/-- A read that completes, from the calls so far. -/
theorem next_read (heard : List Bytes) (r : Read) :
    Process.next (fun r => Step.exec (.complete r)) (.running (next {} heard none false)) r =
      .running (next {} (heard ++ r.msg?.toList) r.error? (r.error?.isSome || r.isEnd)) :=
  Process.next_returns (wp_mono (complete_next rfl r)
    (fun _ _ h' => h'.trans (next_next _ _ _ _)) fun _ _ hf => hf)

/-- A read hands on what it takes. -/
theorem hears_step {c : Pipe σ ServerReader Bytes} {send : ℓ → EStateM Exit σ Unit}
    {out : σ → List Bytes} {shut : σ → Option ω} {A : σ → ℓ → Prop} (h : Hears c)
    {m : Pipe.Move ℓ Read} (hm : c.Allowed (linkTo send out shut) A Reads m) :
    Hears (Pipe.step (linkTo send out shut) c m) := by
  obtain ⟨error?, ended, hc, herror, hend⟩ := h
  cases m with
  | send l => exact ⟨error?, ended, hc, herror, hend⟩
  | cut => exact ⟨error?, ended, hc, herror, hend⟩
  | recv r =>
      -- With a read in flight, the stream has neither ended nor failed.
      have hreading : Pipe.CanTake Reads c.receiver r := hm.1
      rw [hc] at hreading
      obtain rfl : ended = false := by
        cases ended with
        | false => rfl
        | true => exact absurd hreading (Nat.lt_irrefl 0)
      obtain rfl : error? = none := by
        cases error? with
        | none => rfl
        | some error => exact absurd (herror rfl) (by simp)
      refine ⟨r.error?, r.error?.isSome || r.isEnd, ?_, fun he => by rw [he]; rfl, ?_⟩
      · show Process.next (fun r => Step.exec (.complete r)) c.receiver r =
          .running (next {} (c.took r.take).taken _ _)
        rw [r.took_taken, hc]
        exact next_read c.taken r
      · intro hended hnone
        rw [hnone, Option.isSome_none, Bool.false_or] at hended
        exact Read.took_ended c hended

theorem Read.over_of_none {r : Read} (h : r.msg? = none) :
    (r.error?.isSome || r.isEnd) = true := by
  obtain ⟨_ | _, ⟨_ | ⟨_ | msg⟩⟩, status, started⟩ := r
  all_goals first | rfl | cases h

/-- Of the `n` messages that may come, a read has brought one, or none will follow. -/
theorem hears_less {c : Pipe σ ServerReader Bytes} {send : ℓ → EStateM Exit σ Unit}
    {out : σ → List Bytes} {shut : σ → Option ω} {A : σ → ℓ → Prop} (h : Hears c) {r : Read}
    (hm : c.Allowed (linkTo send out shut) A Reads (.recv r)) {n : ℕ}
    (hn : (Pipe.step (linkTo send out shut) c (.recv r)).taken.length ≤ n) :
    (Pipe.step (linkTo send out shut) c (.recv r)).receiver.state.reading +
        (n - (Pipe.step (linkTo send out shut) c (.recv r)).taken.length) <
      c.receiver.state.reading + (n - c.taken.length) := by
  have htaken : (Pipe.step (linkTo send out shut) c (.recv r)).taken =
      c.taken ++ r.msg?.toList := r.took_taken c
  obtain ⟨error?, ended, hc, herror, -⟩ := h
  have hreading : Pipe.CanTake Reads c.receiver r := hm.1
  rw [hc] at hreading
  obtain rfl : ended = false := by
    cases ended with
    | false => rfl
    | true => exact absurd hreading (Nat.lt_irrefl 0)
  obtain rfl : error? = none := by
    cases error? with
    | none => rfl
    | some error => exact absurd (herror rfl) (by simp)
  have hreceiver : (Pipe.step (linkTo send out shut) c (.recv r)).receiver =
      .running (next {} (c.taken ++ r.msg?.toList) r.error? (r.error?.isSome || r.isEnd)) := by
    show Process.next (fun r => Step.exec (.complete r)) c.receiver r = _
    rw [hc]
    exact next_read c.taken r
  rw [hreceiver, htaken, hc]
  rw [htaken] at hn
  show (if (r.error?.isSome || r.isEnd) = true then 0 else 1) + _ < 1 + _
  cases hmsg : r.msg? with
  | none =>
      rw [if_pos (Read.over_of_none hmsg), Option.toList_none, List.append_nil]
      exact Nat.add_lt_add_right Nat.zero_lt_one _
  | some msg =>
      rw [hmsg, Option.toList_some, List.length_append, List.length_singleton] at hn
      rw [Option.toList_some, List.length_append, List.length_singleton]
      split <;> omega

/-- A reader without an error for which nothing can be read has been told of the end. -/
theorem Hears.ended {c : Pipe σ ServerReader Bytes} {send : ℓ → EStateM Exit σ Unit}
    {out : σ → List Bytes} {shut : σ → Option ω} {A : σ → ℓ → Prop} (h : Hears c)
    (hquiet : ∀ r, r.success = true → ¬ c.Allowed (linkTo send out shut) A Reads (.recv r))
    (hshut : (shut c.sender.state).isSome = true)
    (hnoError : ∀ st, .onError st ∉ c.receiver.state.trace) :
    .onEnd ∈ c.receiver.state.trace := by
  obtain ⟨error?, ended, hc, -, -⟩ := h
  rw [hc] at hnoError ⊢
  obtain rfl : error? = none := by
    cases error? with
    | none => rfl
    | some error => exact absurd (by simp [next, calls]) (hnoError error)
  cases ended with
  | true => simp [next, calls]
  | false =>
      -- A read is in flight: of the next message, or of the end.
      have hcan : ∀ r, Pipe.CanTake Reads c.receiver r := by
        intro r
        rw [hc]
        exact Nat.zero_lt_one
      cases hwire : c.wire with
      | nil => exact absurd ⟨hcan _, .inr ⟨hwire, hshut⟩⟩ (hquiet ⟨true, ⟨none⟩, .OK, true⟩ rfl)
      | cons msg wire =>
          exact absurd ⟨hcan _, congrArg List.head? hwire⟩
            (hquiet ⟨true, ⟨some ⟨some msg⟩⟩, .OK, true⟩ rfl)

/-- What the reader has been handed, and what an end without an error says of the stream. -/
theorem Hears.heard {L : Link σ ℓ ServerReader Read Bytes ω} {c : Pipe σ ServerReader Bytes}
    (h : Hears c) (hsound : Pipe.Sound L c) :
    ∃ r, c.receiver = .running r ∧ heard r.trace = c.taken ∧
      (.onEnd ∈ r.trace → (∀ st, .onError st ∉ r.trace) → c.broken = false →
        c.taken = L.out c.sender.state ∧ ∃ w, L.shut c.sender.state = some w) := by
  obtain ⟨error?, ended, hr, -, hend⟩ := h
  refine ⟨_, hr, heard_calls _ _ _, fun honEnd hnoError hbroken => ?_⟩
  obtain rfl : error? = none := by
    cases error? with
    | none => rfl
    | some error => exact absurd (by simp [next, calls]) (hnoError error)
  obtain rfl : ended = true := by
    cases ended with
    | true => rfl
    | false => exact absurd honEnd (by simp [next, calls])
  exact hsound.taken_of_ended (hend rfl rfl) hbroken

end

end ServerReader

/-! ### Sending -/

namespace ServerWriter

instance : LawfulEnv ServerWriter := ⟨fun _ _ => rfl⟩

/-- The status that was handed to gRPC. -/
def statusOf (tr : List (Event Cb)) : Option Status :=
  tr.findSome? fun | .batch b true => b.status? | _ => none

theorem statusOf_mono {tr tr' : List (Event Cb)} {st : Status} (h : tr <+: tr')
    (hst : statusOf tr = some st) : statusOf tr' = some st := by
  obtain ⟨rest, rfl⟩ := h
  rw [statusOf] at hst ⊢
  rw [List.findSome?_append, hst]
  rfl

theorem exists_of_statusOf {tr : List (Event Cb)} {st : Status} (h : statusOf tr = some st) :
    ∃ b, .batch b true ∈ tr ∧ b.status? = some st := by
  obtain ⟨e, he, hst⟩ := List.exists_of_findSome?_eq_some h
  cases e with
  | batch b started =>
      cases started with
      | true => exact ⟨b, he, hst⟩
      | false => cases hst
  | _ => cases hst

theorem ended_of_statusOf {tr : List (Event Cb)} {st : Status} (h : statusOf tr = some st) :
    ended tr = true := by
  obtain ⟨b, hb, hst⟩ := exists_of_statusOf h
  exact List.any_eq_true.mpr ⟨_, hb, by simp [hst]⟩

/-- After the status no message is handed to gRPC. -/
theorem handed_of_ended {tr tr' : List (Event Cb)} (h : tr <+: tr') (hsound : Whenever Sound tr')
    (he : ended tr = true) : handed tr' = handed tr := by
  obtain ⟨rest, rfl⟩ := h
  suffices hrest : handed rest = [] by rw [handed_append, hrest, List.append_nil]
  rw [handed, List.filterMap_eq_nil_iff]
  intro e hmem
  obtain ⟨pre, post, rfl⟩ := List.append_of_mem hmem
  cases e with
  | batch b started =>
      obtain ⟨-, hopen, -⟩ := hsound (tr ++ pre) (.batch b started) post
        (by rw [List.append_assoc])
      rw [ended_append, he] at hopen
      cases hopen
  | _ => rfl

/-- What was handed to gRPC when the status was submitted is all that was accepted. -/
theorem Inv.handed_all {s : ServerWriter} (h : Inv s) (he : ended s.trace = true) :
    handed s.trace = accepted s.trace := by
  have hsend := h.closed_sending (h.ended_closed he)
  have hq : s.queue = [] := by
    by_contra hq
    exact h.queue_sending hq hsend
  exact (h.drained hq hsend).2

/-- A stream that a `ServerWriter` sends, which shuts it with its status. -/
abbrev linkFrom {τ ρ : Type} (recv : ρ → EStateM Exit τ Unit) (take : ρ → Take Bytes) :
    Link ServerWriter Step τ ρ Bytes Status where
  send := Step.exec
  recv := recv
  out s := handed s.trace
  shut s := statusOf s.trace
  take := take

/-- A writer that has submitted its status, where gRPC has refused nothing. -/
theorem exists_statusOf {tr : List (Event Cb)} (he : ended tr = true)
    (hu : unfailed tr = true) : ∃ st, statusOf tr = some st := by
  obtain ⟨b, started, st, hb, hst⟩ := exists_status he
  obtain rfl : started = true := List.all_eq_true.mp hu _ hb
  rw [← Option.isSome_iff_exists, statusOf, List.findSome?_isSome_iff]
  exact ⟨_, hb, Option.isSome_iff_exists.mpr ⟨st, hst⟩⟩

/-- What is left of a closed writer with nothing in flight, where gRPC has refused nothing: every
message and the status of the first close call are handed to gRPC. -/
structure Finished (s : ServerWriter) : Prop where
  handed : handed s.trace = accepted s.trace
  status : ∃ first, (closes s.trace).head? = some first ∧
    statusOf s.trace = some ⟨first.code, cString first.details⟩

theorem Inv.finishes {s : ServerWriter} (h : Inv s) (ha : Awaits s) (hsend : s.sending = [])
    (hcloses : closes s.trace ≠ []) (hu : unfailed s.trace = true) : Finished s := by
  have hended := h.ended_of_idle ha hsend hcloses hu
  obtain ⟨st, hst⟩ := exists_statusOf hended hu
  obtain ⟨b, hb, hstatus⟩ := exists_of_statusOf hst
  obtain ⟨first, hfirst, rfl⟩ := h.carried hb hstatus
  exact ⟨h.handed_all hended, first, hfirst, hst⟩

/-- What is left of a writer whose queued message was refused, where the behaviour is undefined. -/
structure Lost (s : ServerWriter) : Prop where
  handed : handed s.trace <+: accepted s.trace
  open_ : ended s.trace = false
  failed : unfailed s.trace = false

/-- The message that is lost is neither handed to gRPC nor taken back. -/
theorem step_lost_trace {s : ServerWriter} (h : Inv s) (l : Step) (hl : Step.Enabled s l)
    (hlose : Loses s l) :
    wp l.exec (fun _ _ => False)
      (fun e s' => e = .undefined ∧ Lost s' ∧ s.trace <+: s'.trace) s := by
  obtain ⟨-, hl⟩ := hl
  cases l with
  | call i c => exact hlose.elim
  | resume i => exact hlose.elim
  | destroy => exact hlose.elim
  | complete success =>
      obtain ⟨hc, hq, hstart⟩ := hlose
      obtain ⟨-, m, hm⟩ := h.in_flight hl
      obtain ⟨m', q, hq⟩ := List.exists_cons_of_ne_nil hq
      have hhanded : handed s.trace <+: accepted s.trace := ⟨s.queue, h.queued⟩
      have hopen := (h.of_open hc).2
      simp only [Step.exec, tryToWriteNext, popQueue, wp_bind, wp_get, wp_modify, wp_emit, wp_ite,
        wp_throw, env_eq, setEnv_eq, hm]
      rw [if_neg (by simp [hc]), if_pos (by simp [hq])]
      refine (wp_sendMsg (by exact hc) (by rfl)).mpr ?_
      rw [if_neg (by simpa using hstart), if_pos (by rfl)]
      refine ⟨trivial, ⟨?_, ?_, ?_⟩, ?_⟩
      · simpa using hhanded
      · simpa using hopen
      · simp
      · simp

/-- The server keeps its invariant unless it loses a message, and takes back nothing: whoever
receives. -/
theorem sends {τ ρ : Type} {recv : ρ → EStateM Exit τ Unit} {take : ρ → Take Bytes} :
    Pipe.Sends (linkFrom recv take) Step.Enabled Inv (fun _ => Lost) := by
  intro s l hI hl
  by_cases hlose : Loses s l
  · refine wp_mono (step_lost_trace hI l hl hlose) (fun _ _ hf => hf.elim) ?_
    rintro _ s' ⟨rfl, hlost, htr⟩
    refine ⟨hlost, handed_grows htr, fun st hst => ?_⟩
    -- A writer that has submitted its status has no message left to lose.
    have hended := ended_of_statusOf (statusOf_mono htr hst)
    exact absurd (hlost.open_.symm.trans hended) (by simp)
  · refine wp_mono (step_leads hI l hl hlose) ?_ fun _ _ hf => hf.elim
    intro _ s' h'
    refine ⟨h'.inv, handed_grows h'.trace_prefix, fun st hst => ?_⟩
    exact ⟨statusOf_mono h'.trace_prefix hst,
      handed_of_ended h'.trace_prefix h'.inv.sound (ended_of_statusOf hst)⟩

/-- What was handed to gRPC was accepted, and with the status it is all that was. -/
theorem holds_handed {p : Process ServerWriter} (h : Process.Holds Inv (fun _ => Lost) p) :
    handed p.state.trace <+: accepted p.state.trace ∧
      (ended p.state.trace = true → Inv p.state) := by
  cases p with
  | running w =>
      have hI : Inv w := h
      exact ⟨⟨w.queue, hI.queued⟩, fun _ => hI⟩
  | stopped e w =>
      have hlost : Lost w := h
      exact ⟨hlost.handed, fun he => absurd (hlost.open_.symm.trans he) (by simp)⟩

/-- The writer serves its tags throughout a run. -/
theorem run_serving {τ ρ : Type} {recv : ρ → EStateM Exit τ Unit} {take : ρ → Take Bytes}
    {B : τ → ρ → Prop} {P : Pipe ServerWriter τ Bytes → Pipe.Move Step ρ → Prop}
    (hP : ∀ c m, P c m → c.Allowed (linkFrom recv take) Step.Enabled B m)
    {c : Pipe ServerWriter τ Bytes} (hc : Process.Holds Serving (fun _ _ => True) c.sender)
    {ms : List (Pipe.Move Step ρ)} (h : Pipe.Along (linkFrom recv take) P c ms) :
    Process.Holds Serving (fun _ _ => True) (Pipe.after (linkFrom recv take) c ms).sender :=
  Pipe.run_keeps (J := fun c => Process.Holds Serving (fun _ _ => True) c.sender)
    (fun c m hc hm => Pipe.sender_step (fun _ l hs hl => step_serving hs l hl) hc (hP c m hm)) hc h

/-- A writer that gRPC has refused nothing has not stopped; and if it has been closed, a message in
flight can complete with success, or it has finished. -/
theorem finished_of_quiet {p : Process ServerWriter} (h : Process.Holds Inv (fun _ => Lost) p)
    (hserving : Process.Holds Serving (fun _ _ => True) p)
    (hquiet : ¬ Pipe.CanTake Step.Enabled p (.complete true)) (hcloses : closes p.state.trace ≠ [])
    (hu : unfailed p.state.trace = true) : Finished p.state := by
  cases p with
  | stopped e w =>
      have hlost : Lost w := h
      exact absurd (hlost.failed.symm.trans hu) (by simp)
  | running w =>
      have hI : Inv w := h
      have hserving : Serving w := hserving
      refine hI.finishes hserving.awaits ?_ hcloses hu
      by_contra hsend
      exact hquiet ⟨by_contra fun hd => hsend (hserving.destroyed (by simpa using hd)), hsend⟩

end ServerWriter

end GrpcLua
