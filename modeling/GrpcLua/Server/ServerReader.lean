import GrpcLua.Core.CallOpData
import GrpcLua.Support.Runs

/-!
# Server — ServerReader

`core::ServerReader` of `core/server/server_reader.cpp` and the chain of `ServerReaderCqTag`s of
`core/server/impl/cqtag/server_reader_cqtag.h` that reads for it, over any reader: `onMsgStr`,
`onError` and `onEnd` are its virtual functions, and `startTag` is `Start()` of a new tag.

`ServerReader` is such a reader that keeps what it is called with.  Each completion comes with what
its callback will answer and with what `StartBatch` will answer to the next read.
-/

namespace GrpcLua
open Prog

/-- The calls of the virtual functions. -/
inductive ServerReaderCall where
  | onMsgStr (msgStr : Bytes)
  | onError (status : Status)
  | onEnd
  deriving DecidableEq, Repr

/-- The number of tags in flight, and what the reader was called with. -/
structure ServerReader where
  reading : Nat := 0
  trace : List ServerReaderCall := []
  deriving DecidableEq, Repr

namespace ServerReader

/-! ### The functions -/

section functions
variable {σ : Type} (onMsgStr : Bytes → EStateM Exit σ Status)
  (onError : Status → EStateM Exit σ Unit) (onEnd : EStateM Exit σ Unit)
  (startTag : EStateM Exit σ Bool)

/-- `ServerReader::Start()` -/
def start : EStateM Exit σ Unit := do
  if ← startTag then pure ()
  else
  onError (.internalError (str "Failed to init client streaming."))
  onEnd

/-- `ServerReaderCqTag::EndOnError()` -/
def endOnError (status : Status) : EStateM Exit σ Unit := do
  check fun _ => !status.ok
  onError status
  onEnd

/-- `ServerReaderCqTag::DoComplete(success)`; `tag` is what it has received. -/
def doComplete (success : Bool) (tag : CodRecvMsg) : EStateM Exit σ Unit := do
  if !success then endOnError onError onEnd (.internalError (str "ServerReaderCqTag failed."))
  else if !tag.hasGotMsg then onEnd
  else
  let (status, msg) ← tag.getResultMsg []
  if !status.ok then endOnError onError onEnd status
  else
  let status ← onMsgStr msg
  if !status.ok then endOnError onError onEnd status
  else if ← startTag then pure ()
  else endOnError onError onEnd (.internalError (str "Failed to read client-side streaming."))

end functions

/-! ### Steps -/

abbrev M := EStateM Exit ServerReader

def called (c : ServerReaderCall) : M Unit := modify fun s => { s with trace := s.trace ++ [c] }

/-- `ServerReaderCqTag::Start()`, which `StartBatch` answers with `started`. -/
def startTag (started : Bool) : M Bool := do
  if started then modify fun s => { s with reading := s.reading + 1 }
  pure started

/-- A completed read: its success and what it has received, what `OnMsgStr()` returns if it is
called, and what `StartBatch` answers if the next read is started. -/
structure Read where
  success : Bool
  tag : CodRecvMsg
  status : Status
  started : Bool
  deriving DecidableEq, Repr

inductive Step where
  | start (started : Bool)
  | complete (r : Read)
  deriving DecidableEq, Repr

def Step.exec : Step → M Unit
  | start started =>
      ServerReader.start (fun status => called (.onError status)) (called .onEnd) (startTag started)
  | complete r => do
      modify fun s => { s with reading := s.reading - 1 }
      doComplete (fun msg => do called (.onMsgStr msg); pure r.status)
        (fun status => called (.onError status)) (called .onEnd) (startTag r.started)
        r.success r.tag

/-- A read completes only while it is in flight. -/
def Step.Enabled (s : ServerReader) : Step → Prop
  | start _ => True
  | complete _ => 0 < s.reading

instance Step.decidableEnabled (s : ServerReader) : (l : Step) → Decidable (Step.Enabled s l)
  | start _ => isTrue trivial
  | complete _ => inferInstanceAs (Decidable (0 < s.reading))

/-- The reader is started, and the reads complete. -/
def steps (started : Bool) (reads : List Read) : List Step :=
  .start started :: reads.map .complete

abbrev after (s : ServerReader) (ls : List Step) : Process ServerReader :=
  Process.after Step.exec (.running s) ls

abbrev Legal (s : ServerReader) (ls : List Step) : Prop :=
  Process.Along Step.exec Step.Enabled (.running s) ls

/-! ### What the reads tell -/

/-- The message that is received. -/
def Read.msg? : Read → Option Bytes
  | ⟨true, ⟨some ⟨some msg⟩⟩, _, _⟩ => some msg
  | _ => none

/-- The stream ends normally. -/
def Read.isEnd : Read → Bool
  | ⟨true, ⟨none⟩, _, _⟩ => true
  | _ => false

/-- What goes wrong. -/
def Read.error? : Read → Option Status
  | ⟨false, _, _, _⟩ => some (.internalError (str "ServerReaderCqTag failed."))
  | ⟨true, ⟨none⟩, _, _⟩ => none
  | ⟨true, ⟨some ⟨none⟩⟩, _, _⟩ => some (.internalError (str "Failed to read recv byte buffer."))
  | ⟨true, ⟨some ⟨some _⟩⟩, status, started⟩ =>
      if !status.ok then some status
      else if started then none
      else some (.internalError (str "Failed to read client-side streaming."))

/-- The first error from the start on. -/
def firstError (started : Bool) (reads : List Read) : Option Status :=
  if started then reads.findSome? Read.error?
  else some (.internalError (str "Failed to init client streaming."))

/-- The stream has ended, normally or on an error. -/
def ended (started : Bool) (reads : List Read) : Bool :=
  (firstError started reads).isSome || reads.any Read.isEnd

/-- What a read, or several, make of the reader's calls. -/
def calls (msgs : List Bytes) (error? : Option Status) (ended : Bool) : List ServerReaderCall :=
  msgs.map .onMsgStr ++ error?.toList.map .onError ++ if ended then [.onEnd] else []

/-! ### One step -/

/-- The reader after the calls of a step, which has left it without a read in flight or with one. -/
def next (s : ServerReader) (msgs : List Bytes) (error? : Option Status) (ended : Bool) :
    ServerReader where
  reading := if ended then 0 else 1
  trace := s.trace ++ calls msgs error? ended

variable {s : ServerReader}

theorem start_next (hread : s.reading = 0) (started : Bool) :
    wp (Step.exec (.start started))
      (fun _ s' => s' = next s [] (firstError started []) (ended started []))
      (fun _ _ => False) s := by
  simp only [Step.exec, start, startTag, called, wp_bind, wp_ite, wp_modify, wp_pure]
  cases started with
  | true =>
      rw [if_pos rfl, if_pos rfl]
      simp [next, calls, firstError, ended, hread]
  | false =>
      rw [if_neg (by simp), if_neg (by simp)]
      simp [next, calls, firstError, ended, hread]

theorem complete_next (hread : s.reading = 1) (r : Read) :
    wp (Step.exec (.complete r))
      (fun _ s' => s' = next s r.msg?.toList r.error? (r.error?.isSome || r.isEnd))
      (fun _ _ => False) s := by
  obtain ⟨success, tag, status, started⟩ := r
  simp only [Step.exec, doComplete, endOnError, startTag, called, wp_bind, wp_ite, wp_modify,
    wp_check, wp_pure, hread]
  cases success with
  | false => simp [next, calls, Read.msg?, Read.error?, Read.isEnd]
  | true =>
      rw [if_neg (by simp)]
      obtain ⟨_ | ⟨_ | msg⟩⟩ := tag
      · simp [next, calls, Read.msg?, Read.error?, Read.isEnd, CodRecvMsg.hasGotMsg]
      · simp [next, calls, Read.msg?, Read.error?, Read.isEnd, CodRecvMsg.hasGotMsg,
          CodRecvMsg.getResultMsg, byteBufferToString]
      · simp only [CodRecvMsg.hasGotMsg, CodRecvMsg.getResultMsg, byteBufferToString, wp_pure]
        rw [if_neg (by simp), if_neg (by simp)]
        cases hs : status.ok with
        | false => simp [next, calls, Read.msg?, Read.error?, Read.isEnd, hs]
        | true => cases started <;> simp [next, calls, Read.msg?, Read.error?, Read.isEnd, hs]

/-! ### Runs -/

@[simp] theorem next_idle (hread : s.reading = 1) : next s [] none false = s := by
  cases s
  simp only at hread
  simp [next, calls, hread]

theorem next_next (msgs msgs' : List Bytes) (error? : Option Status) (ended : Bool) :
    next (next s msgs none false) msgs' error? ended = next s (msgs ++ msgs') error? ended := by
  simp [next, calls]

theorem Read.error?_of_isEnd {r : Read} (h : r.isEnd = true) : r.error? = none := by
  unfold isEnd at h
  split at h
  · rfl
  · cases h

/-- The reads complete one after the other.  Those before an end or an error hand on their messages,
and with the next read in flight the induction goes on; after it no read is in flight. -/
theorem reads_next {reads : List Read} (hread : s.reading = 1)
    (h : Legal s (reads.map .complete)) :
    after s (reads.map .complete) =
        .running (next s (reads.filterMap Read.msg?) (reads.findSome? Read.error?)
          ((reads.findSome? Read.error?).isSome || reads.any Read.isEnd)) ∧
      ((reads.findSome? Read.error?).isSome = true → ∀ r ∈ reads, r.isEnd = false) := by
  induction reads generalizing s with
  | nil =>
      refine ⟨?_, by simp⟩
      simp [hread]
  | cons r reads ih =>
      obtain ⟨s₁, rfl, hrest, hafter⟩ := Process.after_returns (complete_next hread r) h
      rw [List.map_cons, after, hafter]
      by_cases hover : (r.error?.isSome || r.isEnd) = true
      · -- With no read in flight, nothing completes any more.
        obtain rfl : reads = [] := by
          cases reads with
          | nil => rfl
          | cons r' reads =>
              have hzero : 0 < (next s r.msg?.toList r.error?
                (r.error?.isSome || r.isEnd)).reading := hrest.1
              rw [hover] at hzero
              exact absurd hzero (Nat.lt_irrefl 0)
        have hmsgs : [r].filterMap Read.msg? = r.msg?.toList := by
          cases hm : r.msg? <;> simp [hm]
        have herror : [r].findSome? Read.error? = r.error? := by
          cases he : r.error? <;> simp [he]
        rw [hmsgs, herror]
        refine ⟨by simp, fun hsome r' hr' => ?_⟩
        rw [List.mem_singleton.mp hr']
        by_contra hend
        rw [r.error?_of_isEnd (by simpa using hend)] at hsome
        cases hsome
      · -- The reading goes on, with what the read has brought kept in front.
        rw [Bool.not_eq_true, Bool.or_eq_false_iff] at hover
        obtain ⟨herror, hend⟩ := hover
        have hnone : r.error? = none := by simpa using herror
        have hgoesOn : next s r.msg?.toList r.error? (r.error?.isSome || r.isEnd) =
            next s r.msg?.toList none false := by rw [herror, hend, hnone, Bool.or_false]
        rw [hgoesOn] at hrest ⊢
        obtain ⟨hrun, hends⟩ := ih (s := next s r.msg?.toList none false) rfl hrest
        have hmsgs : r.msg?.toList ++ reads.filterMap Read.msg? =
            (r :: reads).filterMap Read.msg? := by
          cases hm : r.msg? <;> simp [hm]
        rw [show Process.after Step.exec _ _ = _ from hrun, next_next, hmsgs, List.findSome?_cons,
          hnone, List.any_cons, hend, Bool.false_or]
        refine ⟨rfl, fun hsome r' hr' => ?_⟩
        rcases List.mem_cons.mp hr' with rfl | hr'
        · exact hend
        · exact hends hsome r' hr'

/-- **The reader.**  Whatever the reads bring, and whatever the reader and gRPC answer: the reader
is called with the messages received, in their order, then with the first error if there is one, and
then once with the end.  Until then one read is in flight. -/
theorem calls_of_run {started : Bool} {reads : List Read} (h : Legal {} (steps started reads)) :
    ∃ s, after {} (steps started reads) = .running s ∧
      s.trace = (reads.filterMap Read.msg?).map .onMsgStr ++
        (firstError started reads).toList.map .onError ++
        (if ended started reads then [.onEnd] else []) ∧
      ((firstError started reads).isSome = true ↔
        ended started reads = true ∧ ∀ r ∈ reads, r.isEnd = false) ∧
      s.reading = if ended started reads then 0 else 1 := by
  obtain ⟨s₁, rfl, hrest, hafter⟩ := Process.after_returns (start_next rfl started) h
  rw [steps, after, hafter]
  cases started with
  | true =>
      obtain ⟨hrun, hends⟩ :=
        reads_next (s := next {} [] (firstError true []) (ended true [])) rfl hrest
      refine ⟨_, hrun, ?_, ?_, rfl⟩
      · simp [next, calls, firstError, ended]
      · simp only [firstError, if_true, ended]
        constructor
        · exact fun h => ⟨by simp [h], hends h⟩
        · rintro ⟨hended, hnot⟩
          have hany : reads.any Read.isEnd = false := by simpa using hnot
          rwa [hany, Bool.or_false] at hended
  | false =>
      cases reads with
      | cons read reads => exact absurd hrest.1 (by simp [Step.Enabled, next, ended, firstError])
      | nil =>
          refine ⟨_, rfl, ?_, ?_, rfl⟩
          · simp [next, calls, firstError, ended]
          · simp [firstError, ended]

/-- Two messages, of which the reader refuses the second. -/
def refusedReads : List Read :=
  [⟨true, ⟨some ⟨some [1]⟩⟩, .OK, true⟩, ⟨true, ⟨some ⟨some [2]⟩⟩, .internalError [], true⟩]

theorem calls_of_run_refusedReads :
    ∃ s, after {} (steps true refusedReads) = .running s ∧ s.reading = 0 ∧
      s.trace = [.onMsgStr [1], .onMsgStr [2], .onError (.internalError []), .onEnd] := by
  have hlegal : Legal {} (steps true refusedReads) := by decide
  obtain ⟨s, hs, htrace, -, hreading⟩ := calls_of_run hlegal
  exact ⟨s, hs, hreading, htrace⟩

end ServerReader

end GrpcLua
