import GrpcLua.Client.FinalStatus
import GrpcLua.Client.SyncCalls
import GrpcLua.Streams.ServerEnds
import GrpcLua.Support.Duplex
import Mathlib.Data.List.ReduceOption

/-!
# Streams — SyncBidi

A bidirectional call of a synchronous client as a whole.  `ClientSyncReaderWriterImpl` is at one end
of two streams, a `ServerReader` and a `ServerWriterImpl` with its threads are at the other.

A call of the client waits for its own batch, so that it is one step, at the time its batch
completes.  It takes from the stream what the batch receives, if it comes to start one
(`Step.takes`); a `Plucked` is a call together with what it takes.
-/

namespace GrpcLua
open Prog Trace

/-! ### The client's end -/

namespace SyncReaderWriter

/-- What `ReadOne()` has returned, call for call. -/
def reads (tr : List (Event Ret)) : List (Option Bytes) :=
  tr.filterMap fun | .called (.readOne response) => some response | _ => none

/-- The messages that `ReadOne()` has returned. -/
def msgs (tr : List (Event Ret)) : List Bytes := (reads tr).reduceOption

@[simp] theorem reads_append (tr tr' : List (Event Ret)) :
    reads (tr ++ tr') = reads tr ++ reads tr' :=
  List.filterMap_append

@[simp] theorem msgs_append (tr tr' : List (Event Ret)) :
    msgs (tr ++ tr') = msgs tr ++ msgs tr' := by
  rw [msgs, reads_append, List.reduceOption_append, msgs, msgs]

/-- A read that returns nothing is followed by reads that return nothing. -/
def Stops {α : Type} (rs : List (Option α)) : Prop := rs.Pairwise fun r r' => r = none → r' = none

/-- One more read, or none. -/
theorem Stops.append {α : Type} {rs rs' : List (Option α)} (h : Stops rs) (honce : rs'.length ≤ 1)
    (hend : none ∈ rs → ∀ r ∈ rs', r = none) : Stops (rs ++ rs') := by
  refine List.pairwise_append.mpr ⟨h, ?_, fun r hr r' hr' hnone => hend (hnone ▸ hr) r' hr'⟩
  rcases rs' with _ | ⟨r, _ | ⟨r', rs'⟩⟩
  · exact .nil
  · exact List.pairwise_singleton _ r
  · simp at honce

/-- `ReadOne()` starts a batch that receives a message: the status is OK, and gRPC refuses neither
that batch nor, before the first message, the one for the initial metadata. -/
def receives (s : SyncReaderWriter) : Bool :=
  s.status.ok && (if s.initMdReceived then s.starts.headD true
    else s.starts.headD true && s.starts.tail.headD true)

/-- What the call takes from the stream. -/
def Step.takes (s : SyncReaderWriter) : Step → Take Bytes
  | readOne ⟨buf⟩ =>
      if receives s then
        match buf with
        | some ⟨some msg⟩ => .msg msg
        | some ⟨none⟩ => .nothing
        | none => .ending
      else .nothing
  | _ => .nothing

/-- A call, and what it takes from the stream. -/
abbrev Plucked := Step × Take Bytes

/-- The call keeps to the rules of a call, and takes what its batch receives. -/
def Fits (s : SyncReaderWriter) (l : Plucked) : Prop :=
  Misplaced s l.1 = false ∧ l.2 = l.1.takes s

instance decidableFits (s : SyncReaderWriter) (l : Plucked) : Decidable (Fits s l) :=
  inferInstanceAs (Decidable (_ ∧ _))

/-- A message is taken by a client without error. -/
theorem takes_msg {s : SyncReaderWriter} {l : Plucked} (hl : Fits s l) {m : Bytes}
    (hm : m ∈ l.2.toList) : l.2 = .msg m ∧ s.status.ok = true := by
  obtain ⟨c, t⟩ := l
  obtain ⟨-, htakes⟩ := hl
  have ht : t = .msg m := by
    cases t with
    | msg m' => exact congrArg Take.msg (List.mem_singleton.mp hm).symm
    | ending => cases hm
    | nothing => cases hm
  refine ⟨ht, ?_⟩
  by_contra hs
  have hr : receives s = false := by simp [receives, hs]
  rw [ht] at htakes
  cases c <;> simp [Step.takes, hr] at htakes

/-- `RecvStatus()` starts a batch that receives the status. -/
def Asks (s : SyncReaderWriter) : Prop := s.status.ok = true ∧ s.starts.headD true = true

/-- What a call adds to the trace, and what that has to do with what it takes. -/
structure Goes (s : SyncReaderWriter) (l : Plucked) (s' : SyncReaderWriter)
    (evs : List (Event Ret)) : Prop where
  trace : s'.trace = s.trace ++ evs
  final : s'.final = s.final
  status : s'.status.ok = true → s.status.ok = true
  /-- A message is accepted if it is handed to gRPC. -/
  sent : accepted evs = handed evs
  returned : msgs evs = l.2.toList
  once : (reads evs).length ≤ 1
  /-- Nothing is returned at the end, or with an error. -/
  ended : none ∈ reads evs → s'.status.ok = true → l.2 = .ending
  told : ∀ st ∈ statuses evs, st.ok = true → l.1 = .recvStatus ∧ Asks s ∧ st = s.final

variable {s : SyncReaderWriter}

/-- What `SyncReadOne()` returns, and whether the status is OK after it. -/
def reading (started : Bool) : CodRecvMsg → Option Bytes × Bool
  | ⟨some ⟨some msg⟩⟩ => if started then (some msg, true) else (none, false)
  | ⟨some ⟨none⟩⟩ => (none, false)
  | ⟨none⟩ => (none, started)

theorem wp_syncReadOne (hs : s.status.ok = true) (tag : CodRecvMsg)
    {Q : Option Bytes → SyncReaderWriter → Prop} {E : Exit → SyncReaderWriter → Prop}
    (hQ : ∀ s' : SyncReaderWriter, s'.final = s.final →
      s'.trace = s.trace ++ [.batch [.recvMsg] (s.starts.headD true)] →
      s'.status.ok = (reading (s.starts.headD true) tag).2 →
      Q (reading (s.starts.headD true) tag).1 s') :
    wp (syncReadOne tag) Q E s := by
  simp only [syncReadOne, wp_bind, wp_get, wp_ite, wp_pure, wp_startBatch, wp_modify, env_eq,
    setEnv_eq]
  rw [if_neg (by simp [hs])]
  cases hstart : s.starts.headD true with
  | false =>
      have hnone : reading false tag = (none, false) := by
        obtain ⟨_ | ⟨_ | msg⟩⟩ := tag <;> rfl
      rw [hstart, hnone] at hQ
      exact hQ _ rfl rfl rfl
  | true =>
      rw [hstart] at hQ
      obtain ⟨_ | ⟨_ | msg⟩⟩ := tag
      · exact hQ _ rfl rfl hs
      · exact hQ _ rfl rfl rfl
      · exact hQ _ rfl rfl rfl

/-- What is returned is what the batch receives. -/
theorem reading_takes {started : Bool} {tag : CodRecvMsg} {l : Plucked} (hl : l.1 = .readOne tag)
    (hstarted : receives s = started) (htakes : l.2 = l.1.takes s) :
    (reading started tag).1.toList = l.2.toList ∧
      ((reading started tag).1 = none → (reading started tag).2 = true → l.2 = .ending) := by
  rw [htakes, hl]
  simp only [Step.takes, hstarted]
  obtain ⟨_ | ⟨_ | msg⟩⟩ := tag <;> cases started <;> simp [reading, Take.toList]

/-- The read of a call that has, or has not, received the initial metadata before. -/
theorem syncReadOne_goes {s₁ : SyncReaderWriter} {tag : CodRecvMsg} {l : Plucked}
    (hl : l.1 = .readOne tag) (htakes : l.2 = l.1.takes s) (hs : s.status.ok = true)
    (hs₁ : s₁.status.ok = true) (hfinal : s₁.final = s.final)
    (htrace : s₁.trace = s.trace ∨ s₁.trace = s.trace ++ [.batch [.recvInitMd] true])
    (hr : receives s = s₁.starts.headD true) :
    wp (syncReadOne tag) (fun r s' => ∃ evs, Goes s l
      { s' with trace := s'.trace ++ [.called (.readOne r)] } evs) (fun _ _ => False) s₁ := by
  obtain ⟨hreturned, hended⟩ := reading_takes hl hr htakes
  refine wp_syncReadOne hs₁ tag fun s' hfinal' htrace' hstatus => ?_
  have hgoes : ∀ pre, s₁.trace = s.trace ++ pre → accepted pre = handed pre → reads pre = [] →
      statuses pre = [] →
      ∃ evs, Goes s l { s' with trace := s'.trace ++
        [.called (.readOne (reading (s₁.starts.headD true) tag).1)] } evs := by
    intro pre hpre hsent hreads hstatuses
    have hevs : reads (pre ++ [.batch [.recvMsg] (s₁.starts.headD true),
        .called (.readOne (reading (s₁.starts.headD true) tag).1)]) =
        [(reading (s₁.starts.headD true) tag).1] := by
      rw [reads_append, hreads]
      rfl
    refine ⟨pre ++ [.batch [.recvMsg] (s₁.starts.headD true),
      .called (.readOne (reading (s₁.starts.headD true) tag).1)], ?_, hfinal'.trans hfinal,
      fun _ => hs, ?_, ?_, by rw [hevs]; exact Nat.le_refl 1, ?_, ?_⟩
    · show s'.trace ++ _ = _
      rw [htrace', hpre, List.append_assoc, List.append_assoc]
      rfl
    · rw [accepted_append, handed_append, hsent]
      cases s₁.starts.headD true <;> rfl
    · rw [msgs, hevs, ← hreturned]
      cases (reading (s₁.starts.headD true) tag).1 <;> rfl
    · intro hmem hok
      rw [hevs] at hmem
      exact hended (List.mem_singleton.mp hmem).symm (hstatus.symm.trans hok)
    · rw [statuses_append, hstatuses]
      simp [statuses]
  rcases htrace with htrace | htrace
  · exact hgoes [] (by rw [htrace, List.append_nil]) rfl rfl rfl
  · exact hgoes [.batch [.recvInitMd] true] htrace rfl rfl rfl

/-- `ReadOne()`: it starts no batch that receives, or it returns what that receives. -/
theorem readOne_goes {tag : CodRecvMsg} {l : Plucked} (hl : l.1 = .readOne tag)
    (htakes : l.2 = l.1.takes s) :
    wp l.1.exec (fun _ s' => ∃ evs, Goes s l s' evs) (fun _ _ => False) s := by
  have hnothing : receives s = false → l.2 = .nothing := by
    intro hr
    rw [htakes, hl]
    simp [Step.takes, hr]
  rw [hl]
  simp only [Step.exec, readOne, recvInitMdIfNot, wp_bind, wp_get, wp_ite, wp_pure, wp_startBatch,
    wp_modify, wp_check, wp_emit, env_eq, setEnv_eq]
  split
  case isTrue hs =>
    -- In error nothing is submitted.
    have hs : s.status.ok = false := by simpa using hs
    have hnone := hnothing (by simp [receives, hs])
    refine ⟨[.called (.readOne none)], rfl, rfl, id, rfl, by rw [hnone]; rfl,
      Nat.le_refl 1, fun _ hok => ?_, ?_⟩
    · exact absurd (hs.symm.trans hok) (by simp)
    · simp [statuses]
  case isFalse hs =>
  have hs : s.status.ok = true := by simpa using hs
  split
  case isTrue hinit =>
    exact syncReadOne_goes hl htakes hs hs rfl (.inl rfl) (by simp [receives, hs, hinit])
  case isFalse hinit =>
    split
    case isTrue hstart =>
      refine syncReadOne_goes hl htakes hs hs rfl (.inr ?_) ?_
      · rw [hstart]
      · simp only [receives, hs, hinit, hstart, Bool.true_and, if_neg (Bool.false_ne_true)]
    case isFalse hstart =>
      have hstart : s.starts.headD true = false := by simpa using hstart
      have hnone := hnothing (by simp only [receives, hs, hinit, hstart]; rfl)
      rw [if_pos (by rfl)]
      refine ⟨[.batch [.recvInitMd] false, .called (.readOne none)], ?_, rfl, fun _ => hs, rfl,
        by rw [hnone]; rfl, Nat.le_refl 1, fun _ hok => ?_, ?_⟩
      · rw [hstart, List.append_assoc]
        rfl
      · cases hok
      · simp [statuses]

theorem closeWriting_goes {c : Step} {t : Take Bytes} (ht : t = .nothing) :
    wp closeWriting (fun _ s' => ∃ evs, Goes s (c, t) s' evs)
      (fun _ s' => ∃ evs, Goes s (c, t) s' evs) s := by
  subst ht
  simp only [closeWriting, wp_bind, wp_get, wp_ite, wp_pure, wp_startBatch, wp_modify, env_eq,
    setEnv_eq]
  have hnone : ∀ s' : SyncReaderWriter, s'.trace = s.trace → s'.final = s.final →
      s'.status = s.status → ∃ evs, Goes s (c, .nothing) s' evs := by
    intro s' htrace hfinal hstatus
    refine ⟨[], by rw [htrace, List.append_nil], hfinal, ?_, rfl, rfl, Nat.zero_le _,
      by simp [reads], by simp [statuses]⟩
    rw [hstatus]
    exact id
  have hclose : ∀ s' : SyncReaderWriter, s'.trace = s.trace ++
      [.batch [.clientSendClose] (s.starts.headD true)] → s'.final = s.final →
      (s'.status.ok = true → s.status.ok = true) → ∃ evs, Goes s (c, .nothing) s' evs := by
    intro s' htrace hfinal hstatus
    refine ⟨[.batch [.clientSendClose] (s.starts.headD true)], htrace, hfinal, hstatus, ?_, rfl,
      Nat.zero_le _, by simp [reads], by simp [statuses]⟩
    cases s.starts.headD true <;> rfl
  split
  · exact hnone s rfl rfl rfl
  split
  · exact hnone _ rfl rfl rfl
  split
  · exact hclose _ rfl rfl id
  · exact hclose _ rfl rfl fun hok => absurd hok (by simp)

/-- A call that keeps to the rules of a call. -/
theorem step_goes {l : Plucked} (hl : Fits s l) :
    wp l.1.exec (fun _ s' => ∃ evs, Goes s l s' evs) (fun _ s' => ∃ evs, Goes s l s' evs) s := by
  obtain ⟨c, t⟩ := l
  obtain ⟨-, htakes⟩ := hl
  cases c with
  | readOne tag => exact wp_mono (readOne_goes rfl htakes) (fun _ _ h => h) fun _ _ hf => hf.elim
  | write request =>
      obtain rfl : t = .nothing := htakes
      simp only [Step.exec, write, wp_bind, wp_get, wp_ite, wp_pure, wp_startBatch, wp_modify,
        wp_emit, env_eq, setEnv_eq]
      split
      · exact ⟨[.wrote request false], rfl, rfl, id, rfl, rfl, Nat.zero_le _, by simp [reads],
      by simp [statuses]⟩
      split
      case isTrue hs hstart =>
        refine ⟨[.batch [.sendMsg request] true, .wrote request true], ?_, rfl, id, rfl, rfl,
          Nat.zero_le _, by simp [reads], by simp [statuses]⟩
        rw [hstart, List.append_assoc]
        rfl
      case isFalse hs hstart =>
        refine ⟨[.batch [.sendMsg request] false, .wrote request false], ?_, rfl, ?_, rfl, rfl,
          Nat.zero_le _, by simp [reads], by simp [statuses]⟩
        · rw [Bool.eq_false_iff.mpr hstart, List.append_assoc]
          rfl
        · exact fun hok => absurd hok (by simp)
  | closeWriting => exact closeWriting_goes htakes
  | destroy => exact closeWriting_goes htakes
  | recvStatus =>
      obtain rfl : t = .nothing := htakes
      simp only [Step.exec, recvStatus, syncRecvStatus, wp_bind, wp_get, wp_ite, wp_pure,
        wp_startBatch, wp_emit, env_eq, setEnv_eq]
      split
      case isTrue hs =>
        refine ⟨[.called (.recvStatus s.status)], rfl, rfl, id, rfl, rfl, Nat.zero_le _,
          by simp [reads], ?_⟩
        intro st hst hok
        obtain rfl := List.mem_singleton.mp hst
        simp [hok] at hs
      split
      case isTrue hs hstart =>
        refine ⟨[.batch [.clientRecvStatus] (s.starts.headD true), .called (.recvStatus _)],
          List.append_assoc _ _ _, rfl, id, ?_, rfl, Nat.zero_le _, by simp [reads], ?_⟩
        · cases s.starts.headD true <;> rfl
        · intro st hst hok
          obtain rfl := List.mem_singleton.mp hst
          cases hok
      case isFalse hs hstart =>
        refine ⟨[.batch [.clientRecvStatus] (s.starts.headD true), .called (.recvStatus _)],
          List.append_assoc _ _ _, rfl, id, ?_, rfl, Nat.zero_le _, by simp [reads], ?_⟩
        · cases s.starts.headD true <;> rfl
        · intro st hst hok
          obtain rfl := List.mem_singleton.mp hst
          exact ⟨rfl, ⟨by simpa using hs, by simpa using hstart⟩, rfl⟩
  | setErrorStatus e =>
      obtain rfl : t = .nothing := htakes
      simp only [Step.exec, setErrorStatus, wp_bind, wp_check, wp_modify]
      split
      case isTrue he =>
        refine ⟨[], (List.append_nil _).symm, rfl, ?_, rfl, rfl, Nat.zero_le _, by simp [reads],
      by simp [statuses]⟩
        exact fun hok => absurd hok (by simpa using he)
      case isFalse =>
        exact ⟨[], (List.append_nil _).symm, rfl, id, rfl, rfl, Nat.zero_le _, by simp [reads],
      by simp [statuses]⟩

/-! ### Sending -/

/-- The rules of a call are kept, and what was accepted was handed to gRPC. -/
def Kept (s : SyncReaderWriter) : Prop := Inv s ∧ accepted s.trace = handed s.trace

theorem Kept.new (starts : List Bool) (final : Status) : Kept (new starts final) := by
  refine ⟨Inv.new starts final, ?_⟩
  refine endState_of_wp (P := fun s : SyncReaderWriter => accepted s.trace = handed s.trace) ?_
  simp only [construct, wp_bind, wp_startBatch, wp_ite, wp_pure, wp_modify, env_eq, setEnv_eq]
  cases (empty starts final).starts.headD true <;> split <;> rfl

/-- The client keeps to the rules, however a call ends, and takes back nothing. -/
theorem sends {τ ρ : Type} {recv : ρ → EStateM Exit τ Unit} {take : ρ → Take Bytes} :
    Pipe.Sends ⟨fun l : Plucked => l.1.exec, recv, fun s => handed s.trace,
      fun s => halfClosed s.trace, take⟩ Fits Kept fun _ => Kept := by
  rintro s l ⟨hI, hsent⟩ hl
  have hnext : ∀ s', Inv s' → (∃ evs, Goes s l s' evs) → Kept s' ∧
      (handed s.trace <+: handed s'.trace ∧ ∀ u, halfClosed s.trace = some u →
        halfClosed s'.trace = some u ∧ handed s'.trace = handed s.trace) := by
    rintro s' hI' ⟨evs, h⟩
    have htr : s.trace <+: s'.trace := ⟨evs, h.trace.symm⟩
    refine ⟨⟨hI', ?_⟩, handed_grows htr, fun _ hc =>
      halfClosed_stays htr (Admitted.msgsBefore hI'.admitted) hc⟩
    rw [h.trace, accepted_append, handed_append, hsent, h.sent]
  refine wp_mono (wp_and (step_inv hI l.1 hl.1) (step_goes hl)) ?_ ?_
  · rintro _ s' ⟨hI', h⟩
    exact hnext s' hI' h
  · rintro (_ | _ | _) s' ⟨hI', h⟩
    all_goals exact hnext s' hI' h

/-! ### Receiving -/

/-- The stream from the server, as the client receives it. -/
abbrev fromServer : Link ServerWriter ServerWriter.Step SyncReaderWriter Plucked Bytes Status :=
  ServerWriter.linkFrom (fun l => l.1.exec) Prod.snd

abbrev Down := Pipe ServerWriter SyncReaderWriter Bytes

/-- A status that the client receives is the one that the server has submitted, and then all
messages have been read; or the connection is lost, and it is an error. -/
def Final (c : Down) : Pipe.Move ServerWriter.Step Plucked → Prop
  | .recv l => l.1 = .recvStatus → Asks c.receiver.state →
      ServerWriter.statusOf c.sender.state.trace = some c.receiver.state.final ∧ c.wire = [] ∨
      c.broken = true ∧ c.receiver.state.final.ok = false
  | _ => True

instance decidableFinal (c : Down) : (m : Pipe.Move ServerWriter.Step Plucked) →
    Decidable (Final c m)
  | .recv l => inferInstanceAs (Decidable (l.1 = .recvStatus → _ ∧ _ →
      ServerWriter.statusOf c.sender.state.trace = some c.receiver.state.final ∧ c.wire = [] ∨
      c.broken = true ∧ c.receiver.state.final.ok = false))
  | .send _ => isTrue trivial
  | .cut => isTrue trivial

/-- What the client has returned of what it has received. -/
structure Hears (c : Down) : Prop where
  msgs : msgs c.receiver.state.trace = c.taken
  ended : none ∈ reads c.receiver.state.trace → c.receiver.state.status.ok = true → c.ended = true
  stops : c.broken = false → Stops (reads c.receiver.state.trace)
  told : ∀ st ∈ statuses c.receiver.state.trace, st.ok = true → Pipe.Drained fromServer c st

/-- A call of the client. -/
theorem Hears.step {c : Down} {l : Plucked} (h : Hears c) (hc : c.receiver = .running s)
    (hl : Fits s l) (hsound : Pipe.Sound fromServer c) (hgives : c.Gives fromServer l.2)
    (hfinal : Final c (.recv l))
    (hdrained : ∀ st, Pipe.Drained fromServer c st →
      Pipe.Drained fromServer (Pipe.step fromServer c (.recv l)) st) :
    Hears (Pipe.step fromServer c (.recv l)) := by
  obtain ⟨hmsgs, hended, hstops, htold⟩ := h
  rw [hc, Process.state_running] at hmsgs hended hstops htold
  have hreceiver : (Pipe.step fromServer c (.recv l)).receiver =
      Process.next (fun l : Plucked => l.1.exec) (.running s) l := by
    show Process.next (fun l : Plucked => l.1.exec) c.receiver l = _
    rw [hc]
  have htaken : (Pipe.step fromServer c (.recv l)).taken = c.taken ++ l.2.toList :=
    Pipe.took_taken c l.2
  have hmono : c.ended = true → (Pipe.step fromServer c (.recv l)).ended = true := Pipe.took_ended
  obtain ⟨evs, h⟩ : ∃ evs, Goes s l
      (Process.next (fun l : Plucked => l.1.exec) (.running s) l).state evs :=
    Process.state_next (J := fun s' => ∃ evs, Goes s l s' evs) (step_goes hl)
  constructor
  · rw [hreceiver, htaken, h.trace, msgs_append, hmsgs, h.returned]
  · rw [hreceiver, h.trace, reads_append, List.mem_append]
    rintro (hmem | hmem) hok
    · exact hmono (hended hmem (h.status hok))
    · have hend := h.ended hmem hok
      show (c.took l.2).ended = true
      rw [hend]
      rfl
  · -- A message is on the wire, on which nothing is left after the end.
    rw [hreceiver, h.trace, reads_append]
    intro hbroken
    have hb : c.broken = false := by
      rw [← (Pipe.took_ends c l.2).2.2]
      exact hbroken
    refine (hstops hb).append h.once fun hnone r hr => ?_
    cases r with
    | none => rfl
    | some m =>
        have hm : m ∈ l.2.toList := by
          rw [← h.returned]
          exact List.reduceOption_mem_iff.mpr hr
        obtain ⟨hmsg, hs⟩ := takes_msg hl hm
        rw [hmsg] at hgives
        rcases hsound.ended (hended hnone hs) with hbr | ⟨hwire, -⟩
        · exact absurd (hb.symm.trans hbr) (by simp)
        · exact absurd ((congrArg List.head? hwire).symm.trans hgives) (by simp)
  · rw [hreceiver, h.trace]
    intro st hst hok
    rw [statuses_append, List.mem_append] at hst
    refine hdrained st ?_
    rcases hst with hst | hst
    · exact htold st hst hok
    · -- A status that is told now is the one that the server has submitted.
      obtain ⟨hcall, hasks, rfl⟩ := h.told st hst hok
      have hsubmitted := hfinal hcall
      rw [hc, Process.state_running] at hsubmitted
      rcases hsubmitted hasks with hdone | ⟨-, herror⟩
      · exact hdone
      · exact absurd (herror.symm.trans hok) (by simp)

end SyncReaderWriter

/-! ### The call -/

namespace SyncBidi
open SyncReaderWriter (Plucked Fits)

/-- The reads of the server complete with what the client has handed to gRPC. -/
def toServer : Link SyncReaderWriter Plucked ServerReader ServerReader.Read Bytes Unit :=
  ServerReader.linkTo (fun l => l.1.exec) (fun s => handed s.trace) fun s => halfClosed s.trace

abbrev Call := Duplex SyncReaderWriter ServerReader ServerWriter Bytes Bytes
abbrev Move := Duplex.Move Plucked ServerReader.Read ServerWriter.Step

/-- The call at its start: the client's object is constructed; the server's reader is started, with
or without success; and `n` threads of the server may write.  `final` is the status that the client
will receive. -/
def new (clientStarts : List Bool) (final : Status) (started : Bool) (serverStarts : List Bool)
    (n : Nat) : Call where
  up := ⟨.running (SyncReaderWriter.new clientStarts final), ServerReader.new started, [], [],
    false, false⟩
  down := ⟨.running (ServerWriter.new serverStarts n),
    .running (SyncReaderWriter.new clientStarts final), [], [], false, false⟩

abbrev after (c : Call) (ms : List Move) : Call :=
  Duplex.after toServer SyncReaderWriter.fromServer c ms

/-- Every move of the run can be made. -/
abbrev Legal (c : Call) (ms : List Move) : Prop :=
  Duplex.Along toServer SyncReaderWriter.fromServer
    (fun c m => c.Allowed toServer Fits ServerReader.Reads m)
    (fun c m => c.Allowed SyncReaderWriter.fromServer ServerWriter.Step.Enabled Fits m ∧
      SyncReaderWriter.Final c m) c ms

/-- What each side has written and the other has read. -/
structure Orderly (broken : Bool) (s : SyncReaderWriter) (r : ServerReader) (w : ServerWriter) :
    Prop where
  /-- The server's reader is handed what the client has written, in order, as far as it came. -/
  heard_prefix : ServerReader.heard r.trace <+: accepted s.trace
  /-- An end without an error comes after the client's half-close, and then it is all of it. -/
  heard_all : .onEnd ∈ r.trace → (∀ st, .onError st ∉ r.trace) → broken = false →
    closed s.trace = true ∧ ServerReader.heard r.trace = accepted s.trace
  /-- `ReadOne()` returns what the server has written, in order, as far as it came. -/
  msgs_prefix : SyncReaderWriter.msgs s.trace <+: accepted w.trace
  /-- Where it returns nothing although there is no error, the server has submitted a status, and
  everything that it wrote has been returned. -/
  msgs_all : none ∈ SyncReaderWriter.reads s.trace → s.status.ok = true → broken = false →
    (∃ st, ServerWriter.statusOf w.trace = some st) ∧
    SyncReaderWriter.msgs s.trace = accepted w.trace
  /-- Once it has returned nothing, it returns no message any more. -/
  stops : broken = false → SyncReaderWriter.Stops (SyncReaderWriter.reads s.trace)
  /-- An OK status is that of the server's first close call, its details cut at the first NUL; and
  then everything that was written has been returned. -/
  told : ∀ st ∈ SyncReaderWriter.statuses s.trace, st.ok = true →
    (∃ first, (ServerWriter.closes w.trace).head? = some first ∧
      st = ⟨first.code, cString first.details⟩) ∧
    SyncReaderWriter.msgs s.trace = accepted w.trace

/-- The invariant of the call. -/
structure Inv (c : Call) : Prop where
  shared : Duplex.Shared c
  up_sound : Pipe.Sound toServer c.up
  up_sender : Process.Holds SyncReaderWriter.Kept (fun _ => SyncReaderWriter.Kept) c.up.sender
  up_hears : ServerReader.Hears c.up
  down_sound : Pipe.Sound SyncReaderWriter.fromServer c.down
  down_sender : Process.Holds ServerWriter.Inv (fun _ => ServerWriter.Lost) c.down.sender
  down_hears : SyncReaderWriter.Hears c.down

/-- Each direction is a run of its own pipe, and keeps what the pipe keeps. -/
theorem run_keeps {clientStarts : List Bool} {final : Status} {started : Bool}
    {serverStarts : List Bool} {n : Nat} {ms : List Move}
    (h : Legal (new clientStarts final started serverStarts n) ms) :
    Inv (after (new clientStarts final started serverStarts n) ms) := by
  obtain ⟨hup, hup_eq⟩ := Duplex.along_up h
  obtain ⟨hdown, hdown_eq⟩ := Duplex.along_down h
  have hclient : (SyncReaderWriter.new clientStarts final).trace =
      [.batch [.sendInitMd] (clientStarts.headD true)] := by
    rcases clientStarts with _ | ⟨_ | _, clientStarts⟩ <;> rfl
  have hnothing : handed (SyncReaderWriter.new clientStarts final).trace = [] := by
    rw [hclient]
    exact handed_batch (.inr rfl)
  obtain ⟨hsound, hsender, hhears⟩ := Pipe.invariant (L := toServer) (K := ServerReader.Hears)
    (c := (new clientStarts final started serverStarts n).up)
    (I := SyncReaderWriter.Kept) (J := fun _ => SyncReaderWriter.Kept) (fun _ _ hm => hm)
    SyncReaderWriter.sends (fun c m _ _ hc hm _ => ServerReader.hears_step hc hm)
    ⟨hnothing.symm, fun he => absurd he (by simp [new])⟩ (.new clientStarts final)
    (ServerReader.hears_new rfl rfl) hup
  have hstart : SyncReaderWriter.Hears (new clientStarts final started serverStarts n).down := by
    have hreads : SyncReaderWriter.reads (SyncReaderWriter.new clientStarts final).trace = [] := by
      rw [hclient]
      rfl
    refine ⟨?_, ?_, fun _ => ?_, ?_⟩
    · exact congrArg List.reduceOption hreads
    · rw [new, Process.state_running, hreads]
      simp
    · rw [new, Process.state_running, hreads]
      exact .nil
    · rw [new, Process.state_running, hclient]
      simp [SyncReaderWriter.statuses]
  obtain ⟨hsound', hsender', hhears'⟩ := Pipe.invariant (L := SyncReaderWriter.fromServer)
    (K := SyncReaderWriter.Hears)
    (c := (new clientStarts final started serverStarts n).down) (fun _ _ hm => hm.1)
    ServerWriter.sends
    (fun c m hs _ hc hm ha => by
      cases m with
      | send l =>
          exact ⟨hc.msgs, hc.ended, hc.stops, fun st hst hok => ha.drained hs (hc.told st hst hok)⟩
      | cut =>
          refine ⟨hc.msgs, hc.ended, fun hbroken => ?_,
            fun st hst hok => ha.drained hs (hc.told st hst hok)⟩
          exact absurd hbroken (by simp [Pipe.step])
      | recv l =>
          have hcan : Pipe.CanTake Fits c.receiver l := hm.1.1
          cases hr : c.receiver with
          | stopped e s =>
              rw [hr] at hcan
              exact hcan.elim
          | running s =>
              rw [hr] at hcan
              exact hc.step hr hcan hs hm.1.2 hm.2 fun st hst => ha.drained hs hst)
    ⟨rfl, fun he => absurd he (by simp [new])⟩ (ServerWriter.Inv.new serverStarts n) hstart hdown
  exact
    { shared := Duplex.shared rfl ⟨rfl, rfl⟩ ms
      up_sound := hup_eq ▸ hsound
      up_sender := hup_eq ▸ hsender
      up_hears := hup_eq ▸ hhears
      down_sound := hdown_eq ▸ hsound'
      down_sender := hdown_eq ▸ hsender'
      down_hears := hdown_eq ▸ hhears' }

theorem Inv.orderly {c : Call} (h : Inv c) :
    ∃ r, c.up.receiver = .running r ∧
      Orderly c.up.broken c.up.sender.state r c.down.sender.state := by
  obtain ⟨hshared, hsound, hsender, hhears, hsound', hsender', hmsgs, hended, hstops, htold⟩ := h
  obtain ⟨r, hr, hheard, hend⟩ := hhears.heard hsound
  have hkept : SyncReaderWriter.Kept c.up.sender.state := by
    revert hsender
    cases c.up.sender <;> exact id
  have hsent := hkept.2
  rw [← hshared.process] at hmsgs hended hstops htold
  have hwriter := ServerWriter.holds_handed hsender'
  -- Where the server's status has come, all of its messages have.
  have hall : ∀ st, Pipe.Drained SyncReaderWriter.fromServer c.down st →
      SyncReaderWriter.msgs c.up.sender.state.trace = accepted c.down.sender.state.trace := by
    intro st hst
    have hlast := ServerWriter.ended_of_statusOf hst.1
    rw [hmsgs, hsound'.taken_eq hst.2]
    exact (hwriter.2 hlast).handed_all hlast
  refine ⟨r, hr, ?_, fun honEnd hnoError hbroken => ?_, ?_, fun hnone hok hbroken => ?_,
    fun hbroken => hstops (hshared.broken.symm.trans hbroken), ?_⟩
  · rw [hheard, hsent]
    exact hsound.taken_prefix
  · obtain ⟨htaken, u, hshut⟩ := hend honEnd hnoError hbroken
    refine ⟨closed_of_startedOp (halfClosed_eq.mp hshut), ?_⟩
    rw [hheard, htaken, hsent]
    rfl
  · rw [hmsgs]
    exact hsound'.taken_prefix.trans hwriter.1
  · rcases hsound'.ended (hended hnone hok) with hb | ⟨hwire, hshut⟩
    · exact absurd (hbroken.symm.trans (hshared.broken.trans hb)) (by simp)
    · obtain ⟨st, hst⟩ := Option.isSome_iff_exists.mp hshut
      exact ⟨⟨st, hst⟩, hall st ⟨hst, hwire⟩⟩
  · intro st hst hok
    have hdrained := htold st hst hok
    obtain ⟨b, hb, hstatus⟩ := ServerWriter.exists_of_statusOf hdrained.1
    have hI := hwriter.2 (ServerWriter.ended_of_statusOf hdrained.1)
    exact ⟨hI.carried hb hstatus, hall st hdrained⟩

/-- **Bidirectional streaming, synchronously.**  In every interleaving of the client's calls, the
server's reader and the server's threads, whatever gRPC refuses and whatever fails: each side reads
what the other has written, in order, as far as it came.  A `ReadOne()` that finds nothing and no
error, on a connection that is not lost, and a `RecvStatus()` that returns OK both say that the
server has ended the call and that all of it has been read; and the status is the server's.  No
message follows a `ReadOne()` that found nothing, as long as the connection is not lost. -/
theorem syncBidi_orderly (clientStarts : List Bool) (final : Status) (started : Bool)
    (serverStarts : List Bool) (n : Nat) (ms : List Move)
    (h : Legal (new clientStarts final started serverStarts n) ms) :
    ∃ r, (after (new clientStarts final started serverStarts n) ms).up.receiver = .running r ∧
      Orderly (after (new clientStarts final started serverStarts n) ms).up.broken
        (after (new clientStarts final started serverStarts n) ms).up.sender.state r
        (after (new clientStarts final started serverStarts n) ms).down.sender.state :=
  (run_keeps h).orderly

/-- A question and its answer: the client writes and closes, the server reads, writes and closes,
and the client reads until the end and asks for the status. -/
def oneAnswer : List Move :=
  [.near (.write [1], .nothing), .near (.closeWriting, .nothing),
    .recv ⟨true, ⟨some ⟨some [1]⟩⟩, .OK, true⟩, .recv ⟨true, ⟨none⟩, .OK, true⟩,
    .send (.call 0 (.asyncWrite [2])), .send (.resume 0),
    .near (.readOne ⟨some ⟨some [2]⟩⟩, .msg [2]), .send (.call 0 (.asyncClose .OK)),
    .send (.resume 0), .send (.complete true), .near (.readOne ⟨none⟩, .ending),
    .near (.recvStatus, .nothing)]

theorem syncBidi_orderly_oneAnswer :
    ∃ r, (after (new [] .OK true [] 1) oneAnswer).up.receiver = .running r ∧
      Orderly (after (new [] .OK true [] 1) oneAnswer).up.broken
        (after (new [] .OK true [] 1) oneAnswer).up.sender.state r
        (after (new [] .OK true [] 1) oneAnswer).down.sender.state :=
  syncBidi_orderly [] .OK true [] 1 oneAnswer (by decide)

end SyncBidi

end GrpcLua
