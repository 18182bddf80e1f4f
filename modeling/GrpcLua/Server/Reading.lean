import GrpcLua.Server.Calls
import GrpcLua.Server.ServerReader

/-!
# Server — Reading

The messages of one call that the client streams, on their way to the reader object of the user:
`ServerReaderCqTag` of `core/server/impl/cqtag/server_reader_cqtag.h`, `ServerReader` of
`core/server/server_reader.cpp` and `lua/server/impl/ServerReader.cpp`, and `Reader.lua`.

One read after the other is in flight, so no completion of the call comes while a handler runs.
Around a reader with an `on_msg` the parts do what they should (`reads_story`), but the Lua service
makes its `Reader` of the wrong arguments, and the user's reader is never called (`reads_nothing`).
-/

namespace GrpcLua
open Prog

/-- The calls of a user's reader. -/
inductive Handled (Msg : Type) where
  | onMsg (msg : Msg)
  | onError (errorStr : Bytes) (statusCode : StatusCode)
  | onEnd
  deriving DecidableEq, Repr

/-- The reader defines the handler that is called. -/
def UserReader.defines {Msg : Type} (r : UserReader) : Handled Msg → Bool
  | .onMsg _ => r.onMsg
  | .onError _ _ => r.onError
  | .onEnd => r.onEnd

/-- The reading of a call: the Lua object, the number of `ServerReaderCqTag`s in flight, what
`StartBatch` will return, and the calls of the user's reader so far. -/
structure Reading (Msg : Type) where
  luaReader : LuaReader
  reading : Nat := 0
  starts : List Bool
  trace : List (Handled Msg) := []
  deriving DecidableEq, Repr

namespace Reading
variable {Msg : Type}

abbrev M (Msg : Type) := EStateM Exit (Reading Msg)

/-- The reader that the Lua service has returned. -/
def new (luaReader : LuaReader) (starts : List Bool) : Reading Msg where
  luaReader := luaReader
  starts := starts

/-! ### `Reader.lua` -/

/-- A field of `self._impl`, which is looked at as a condition.  The fields of a string are those of
the string library, and indexing nil raises an error. -/
def implHas (handler : UserReader → Bool) : M Msg Bool := do
  let s ← get
  match s.luaReader.impl with
  | .nil => throw .exception
  | .string _ => pure false
  | .reader r => pure (handler r)

/-- A handler of the user's reader is called. -/
def handle (h : Handled Msg) : M Msg Unit :=
  modify fun s => { s with trace := s.trace ++ [h] }

section functions
variable (decode : Bytes → Bytes → Option Msg)

/-- `Reader:on_msg_str(msg_str)`; `c.decode` raises an error where the type is no string. -/
def onMsgStr (msgStr : Bytes) : M Msg (Option Bytes) := do
  if !(← implHas UserReader.onMsg) then pure none
  else
  let s ← get
  match s.luaReader.msgType with
  | .string msgType =>
      match decode msgType msgStr with
      | some msg =>
          handle (.onMsg msg)
          pure none
      | none => pure (some (str "Failed to decode message " ++ msgType))
  | _ => throw .exception

/-- `Reader:on_error(error_str, status_code)` -/
def onError (status : Status) : M Msg Unit := do
  if !(← implHas UserReader.onError) then pure ()
  else handle (.onError status.details status.code)

/-- `Reader:on_end()` -/
def onEnd : M Msg Unit := do
  if !(← implHas UserReader.onEnd) then pure ()
  else handle .onEnd

/-! ### The tags -/

/-- `ServerReaderCqTag::Start()` -/
def startTag : M Msg Bool := do
  let s ← get
  modify fun s => { s with starts := s.starts.tail }
  if s.starts.headD true then
    modify fun s => { s with reading := s.reading + 1 }
    pure true
  else pure false

/-! The C++ half, with the handlers of `Reader.lua`. -/

/-- `core::ServerReader::Start()` -/
def start : M Msg Unit := ServerReader.start onError onEnd startTag

/-- `ServerReaderCqTag::EndOnError()` -/
def endOnError (status : Status) : M Msg Unit := ServerReader.endOnError onError onEnd status

/-- `ServerReaderCqTag::DoComplete(success)`, with `impl::ServerReader::OnMsgStr()`; `tag` is what
it has received. -/
def doComplete (success : Bool) (tag : CodRecvMsg) : M Msg Unit :=
  ServerReader.doComplete (fun msg => do pure (.ofLuaErrStr (← onMsgStr decode msg))) onError onEnd
    startTag success tag

end functions

/-! ### Steps -/

/-- The start of the reading, and the completion of a read. -/
inductive Step where
  | start
  | complete (success : Bool) (tag : CodRecvMsg)

def Step.exec (decode : Bytes → Bytes → Option Msg) : Step → M Msg Unit
  | start => Reading.start
  | complete success tag => do
      modify fun s => { s with reading := s.reading - 1 }
      doComplete decode success tag

/-- A read completes only while it is in flight. -/
def Step.Enabled (s : Reading Msg) : Step → Prop
  | start => True
  | complete _ _ => 0 < s.reading

instance Step.decidableEnabled (s : Reading Msg) : (l : Step) → Decidable (Step.Enabled s l)
  | start => isTrue trivial
  | complete _ _ => inferInstanceAs (Decidable (0 < s.reading))

/-- A completed read: its success and what it has received. -/
abbrev Read := Bool × CodRecvMsg

/-- The reading of a call is started, and the reads complete. -/
def steps (reads : List Read) : List Step := .start :: reads.map fun r => .complete r.1 r.2

abbrev after (decode : Bytes → Bytes → Option Msg) (s : Reading Msg) (ls : List Step) :
    Process (Reading Msg) :=
  Process.after (Step.exec decode) (.running s) ls

abbrev Legal (decode : Bytes → Bytes → Option Msg) (s : Reading Msg) (ls : List Step) : Prop :=
  Process.Along (Step.exec decode) Step.Enabled (.running s) ls

/-! ### What is to happen -/

/-- The story of a stream: its messages up to the first one that fails to decode or read, that
failure, and whether the stream has ended. -/
structure Story (Msg : Type) where
  msgs : List Msg := []
  error : Option Status := none
  ended : Bool := false

/-- A stream that ends with an error. -/
def Story.failed (status : Status) : Story Msg where
  error := some status
  ended := true

/-- The calls of a reader that hears the story; handlers that it does not define are skipped. -/
def Story.calls (story : Story Msg) (r : UserReader) : List (Handled Msg) :=
  (story.msgs.map Handled.onMsg ++
    story.error.toList.map (fun st : Status => Handled.onError st.details st.code) ++
    if story.ended then [Handled.onEnd] else []).filter r.defines

variable (decode : Bytes → Bytes → Option Msg) (msgType : Bytes)

/-- The story that the completed reads tell a reader of messages of type `msgType`, where
`StartBatch` answers `starts` to the reads after them. -/
def storyFrom : List Bool → List Read → Story Msg
  | _, [] => {}
  | _, (false, _) :: _ => .failed (.internalError (str "ServerReaderCqTag failed."))
  | _, (true, ⟨none⟩) :: _ => { ended := true }
  | _, (true, ⟨some ⟨none⟩⟩) :: _ =>
      .failed (.internalError (str "Failed to read recv byte buffer."))
  | starts, (true, ⟨some ⟨some bytes⟩⟩) :: reads =>
      match decode msgType bytes with
      | none => .failed (.internalError (str "Failed to decode message " ++ msgType))
      | some msg =>
          let rest := if starts.headD true then storyFrom starts.tail reads
            else .failed (.internalError (str "Failed to read client-side streaming."))
          { rest with msgs := msg :: rest.msgs }

/-- The same from the start of the reading. -/
def story (starts : List Bool) (reads : List Read) : Story Msg :=
  if starts.headD true then storyFrom decode msgType starts.tail reads
  else .failed (.internalError (str "Failed to init client streaming."))

/-! ### A reader that is made of the right arguments -/

section right
variable {decode msgType} {r : UserReader} {s : Reading Msg} {Q : Unit → Reading Msg → Prop}
  {E : Exit → Reading Msg → Prop}

/-- The object after a handler has been called, if it is defined. -/
abbrev handled (r : UserReader) (s : Reading Msg) (h : Handled Msg) : Reading Msg :=
  { s with trace := s.trace ++ [h].filter r.defines }

/-- `on_end` is called with no argument. -/
theorem wp_onEnd (h : s.luaReader.impl = .reader r) :
    wp onEnd Q E s ↔ Q () (handled r s .onEnd) := by
  simp only [onEnd, implHas, handle, wp_bind, wp_get, h, wp_pure, wp_ite, wp_modify]
  cases he : r.onEnd <;> simp [handled, UserReader.defines, he]

/-- `on_error` is called with the text and the code of the status. -/
theorem wp_onError (h : s.luaReader.impl = .reader r) (status : Status) :
    wp (onError status) Q E s ↔ Q () (handled r s (.onError status.details status.code)) := by
  simp only [onError, implHas, handle, wp_bind, wp_get, h, wp_pure, wp_ite, wp_modify]
  cases he : r.onError <;> simp [handled, UserReader.defines, he]

/-- A failure calls `on_error`, and then `on_end`. -/
theorem calls_failed (status : Status) :
    (Story.failed status : Story Msg).calls r =
      [Handled.onError status.details status.code].filter r.defines ++
        [Handled.onEnd].filter r.defines := by
  simp [Story.calls, Story.failed, ← List.filter_append]

/-- A non-OK status ends the reading as a failure. -/
theorem wp_endOnError (h : s.luaReader.impl = .reader r) {status : Status}
    (he : status.ok = false) :
    wp (endOnError status) Q E s ↔
      Q () { s with trace := s.trace ++ (Story.failed status : Story Msg).calls r } := by
  simp only [endOnError, ServerReader.endOnError, wp_bind, wp_check, wp_onError h]
  rw [if_pos (by simp [he]), wp_onEnd (by exact h), calls_failed, ← List.append_assoc]

/-- A message that decodes goes to `on_msg`; for another the error is returned. -/
theorem wp_onMsgStr (hl : s.luaReader = ⟨.reader r, .string msgType⟩) (hon : r.onMsg = true)
    {bytes : Bytes} {Q : Option Bytes → Reading Msg → Prop} :
    wp (onMsgStr decode bytes) Q E s ↔
      (decode msgType bytes).elim (Q (some (str "Failed to decode message " ++ msgType)) s)
        fun msg => Q none { s with trace := s.trace ++ [.onMsg msg] } := by
  simp only [onMsgStr, implHas, handle, wp_bind, wp_get, hl, hon, wp_pure, wp_ite]
  rw [if_neg (by simp)]
  cases decode msgType bytes with
  | none => rfl
  | some msg => simp only [wp_bind, wp_modify, wp_pure, Option.elim, hl]

/-- The read is started if gRPC takes it. -/
theorem wp_startTag {Q : Bool → Reading Msg → Prop} :
    wp startTag Q E s ↔ Q (s.starts.headD true)
      { s with
        starts := s.starts.tail
        reading := if s.starts.headD true then s.reading + 1 else s.reading } := by
  simp only [startTag, wp_bind, wp_get, wp_modify, wp_ite, wp_pure]
  cases s.starts.headD true <;> rfl

/-- What a completed read leaves: the stream has ended as its story says, or the next read is in
flight; `told` are the calls of the user's reader. -/
inductive Completes (decode : Bytes → Bytes → Option Msg) (msgType : Bytes) (r : UserReader)
    (s : Reading Msg) (read : Read) (s' : Reading Msg) : Prop
  | ends (told : List (Handled Msg))
      (hst : ∀ reads, (storyFrom decode msgType s.starts (read :: reads)).calls r = told)
      (hread : s'.reading = 0) (htr : s'.trace = s.trace ++ told)
  | goesOn (told : List (Handled Msg))
      (hst : ∀ reads, (storyFrom decode msgType s.starts (read :: reads)).calls r =
        told ++ (storyFrom decode msgType s.starts.tail reads).calls r)
      (hlua : s'.luaReader = s.luaReader) (hread : s'.reading = 1)
      (hstarts : s'.starts = s.starts.tail) (htr : s'.trace = s.trace ++ told)

/-- The next read is started, or the stream ends. -/
theorem next_completes (decode : Bytes → Bytes → Option Msg) (msgType : Bytes) (read : Read)
    (told : List (Handled Msg))
    (hi : s.luaReader.impl = .reader r)
    (hst : ∀ reads, (storyFrom decode msgType s.starts (read :: reads)).calls r = told ++
      (if s.starts.headD true then storyFrom decode msgType s.starts.tail reads
        else .failed (.internalError (str "Failed to read client-side streaming."))).calls r) :
    wp (startTag : M Msg Bool)
      (fun started s' => if started then Completes decode msgType r s read s'
        else wp (endOnError (.internalError (str "Failed to read client-side streaming.")))
          (fun _ s' => Completes decode msgType r s read s') (fun _ _ => False) s')
      (fun _ _ => False) { s with reading := 0, trace := s.trace ++ told } := by
  rw [wp_startTag]
  cases hs : s.starts.headD true with
  | true =>
      rw [if_pos rfl]
      refine .goesOn told (fun reads => ?_) rfl rfl rfl rfl
      rw [hst, hs, if_pos rfl]
  | false =>
      rw [if_neg (by simp), wp_endOnError (by exact hi) rfl]
      refine .ends _ (fun reads => ?_) rfl (List.append_assoc _ _ _)
      rw [hst, hs, if_neg (by simp)]

/-- A completed read tells the reader what its story says. -/
theorem complete_completes (hl : s.luaReader = ⟨.reader r, .string msgType⟩)
    (hon : r.onMsg = true) (hread : s.reading = 1) (read : Read) :
    wp (Step.exec decode (.complete read.1 read.2))
      (fun _ s' => Completes decode msgType r s read s')
      (fun _ _ => False) s := by
  have hi : s.luaReader.impl = .reader r := by rw [hl]
  have hzero : s.reading - 1 = 0 := by omega
  obtain ⟨success, tag⟩ := read
  have hend : ∀ status, ServerReader.endOnError onError onEnd status =
      (endOnError status : M Msg Unit) := fun _ => rfl
  simp only [Step.exec, doComplete, ServerReader.doComplete, hend, wp_bind, wp_modify, wp_ite,
    hzero]
  cases success with
  | false =>
      rw [if_pos (by rfl), wp_endOnError (by exact hi) rfl]
      exact .ends _ (fun _ => by rw [storyFrom]) rfl rfl
  | true =>
      rw [if_neg (by simp)]
      obtain ⟨_ | ⟨_ | bytes⟩⟩ := tag
      · -- The end of the stream.
        rw [if_pos (by rfl), wp_onEnd (by exact hi)]
        exact .ends _ (fun _ => by simp [storyFrom, Story.calls]) rfl rfl
      · -- A buffer that cannot be read.
        rw [if_neg (by simp [CodRecvMsg.hasGotMsg])]
        simp only [CodRecvMsg.getResultMsg, byteBufferToString, wp_pure]
        rw [if_pos (by rfl), wp_endOnError (by exact hi) rfl]
        exact .ends _ (fun _ => by rw [storyFrom]) rfl rfl
      · rw [if_neg (by simp [CodRecvMsg.hasGotMsg])]
        simp only [CodRecvMsg.getResultMsg, byteBufferToString, wp_pure]
        rw [if_neg (by simp), wp_onMsgStr (by exact hl) hon]
        simp only [Status.ok_ofLuaErrStr]
        cases hd : decode msgType bytes with
        | none =>
            simp only [Option.elim]
            rw [if_pos (by rfl), wp_endOnError (by exact hi) rfl]
            refine .ends _ (fun reads => ?_) rfl rfl
            rw [storyFrom, hd]
            rfl
        | some msg =>
            simp only [Option.elim]
            rw [if_neg (by simp)]
            refine next_completes (s := s) decode msgType _ [.onMsg msg] hi fun reads => ?_
            simp [storyFrom, hon, hd, Story.calls, UserReader.defines]

/-- The reads complete one after the other, and the user's reader hears their story. -/
theorem reads_storyFrom (hon : r.onMsg = true) : ∀ (reads : List Read) {s : Reading Msg},
    s.luaReader = ⟨.reader r, .string msgType⟩ → s.reading = 1 →
    Legal decode s (reads.map fun rd => .complete rd.1 rd.2) →
    ∃ s', after decode s (reads.map fun rd => .complete rd.1 rd.2) = .running s' ∧
      s'.trace = s.trace ++ (storyFrom decode msgType s.starts reads).calls r
  | [], s, _, _, _ => ⟨s, rfl, by simp [storyFrom, Story.calls]⟩
  | read :: reads, s, hl, hread, hlegal => by
      obtain ⟨s₁, hw, hrest, hafter⟩ :=
        Process.after_returns (complete_completes hl hon hread read) hlegal
      show ∃ s', after decode s (.complete read.1 read.2 :: _) = _ ∧ _
      rw [after, hafter]
      cases hw with
      | ends told hst hzero htr =>
          -- With no read in flight, nothing completes any more.
          cases reads with
          | cons read' reads => exact absurd (show 0 < s₁.reading from hrest.1) (by omega)
          | nil => exact ⟨s₁, rfl, by rw [htr, hst]⟩
      | goesOn told hst hlua hone hstarts htr =>
          obtain ⟨s', hs', htr'⟩ := reads_storyFrom hon reads (hlua.trans hl) hone hrest
          refine ⟨s', hs', ?_⟩
          rw [htr', htr, hst, hstarts, List.append_assoc]

/-- The reading is started, or the stream ends at once. -/
theorem start_starts {starts : List Bool} (reads : List Read) :
    wp (Step.exec decode .start)
      (fun _ s' => starts.headD true = true ∧ s'.luaReader = ⟨.reader r, .string msgType⟩ ∧
          s'.reading = 1 ∧ s'.starts = starts.tail ∧ s'.trace = [] ∨
        starts.headD true = false ∧ s'.reading = 0 ∧
          s'.trace = (story decode msgType starts reads).calls r)
      (fun _ _ => False) (new ⟨.reader r, .string msgType⟩ starts) := by
  simp only [Step.exec, start, ServerReader.start, wp_bind, wp_startTag, wp_ite, wp_pure, new]
  cases hs : starts.headD true with
  | true =>
      rw [if_pos rfl]
      exact .inl ⟨rfl, trivial, rfl, trivial, trivial⟩
  | false =>
      rw [if_neg (by simp), wp_onError rfl, wp_onEnd rfl]
      refine .inr ⟨rfl, rfl, ?_⟩
      rw [story, hs, if_neg (by simp)]
      exact (calls_failed _).symm

/-- A `Reader` that is made of the user's reader and the type of its messages lets it hear the
story. -/
theorem reads_story (hon : r.onMsg = true) {starts : List Bool} {reads : List Read}
    (h : Legal decode (new ⟨.reader r, .string msgType⟩ starts) (steps reads)) :
    ∃ s', after decode (new ⟨.reader r, .string msgType⟩ starts) (steps reads) = .running s' ∧
      s'.trace = (story decode msgType starts reads).calls r := by
  obtain ⟨s₁, hw, hrest, hafter⟩ := Process.after_returns (start_starts reads) h
  rw [steps, after, hafter]
  rcases hw with ⟨hs, hl, hread, hstarts, htr⟩ | ⟨-, hzero, htr⟩
  · obtain ⟨s', hs', htr'⟩ := reads_storyFrom hon reads hl hread hrest
    refine ⟨s', hs', ?_⟩
    rw [htr', htr, hstarts, story, hs, if_pos rfl, List.nil_append]
  · cases reads with
    | cons read reads => exact absurd (show 0 < s₁.reading from hrest.1) (by omega)
    | nil => exact ⟨s₁, rfl, htr⟩

end right

/-! ### The reader that the service makes -/

section actual
variable {decode : Bytes → Bytes → Option Msg} {t : Bytes}

/-- The wrapper holds a string for a reader, and nothing was called. -/
def Deaf (t : Bytes) (s : Reading Msg) : Prop := s.luaReader.impl = .string t ∧ s.trace = []

/-- None of the handlers is found. -/
theorem wp_implHas {s : Reading Msg} (h : Deaf t s) {handler : UserReader → Bool}
    {Q : Bool → Reading Msg → Prop} {E : Exit → Reading Msg → Prop} :
    wp (implHas handler) Q E s ↔ Q false s := by
  simp only [implHas, wp_bind, wp_get, h.1, wp_pure]

/-- No step calls a handler of the string. -/
theorem step_deaf {s : Reading Msg} (h : Deaf t s) (l : Step) :
    wp (Step.exec decode l) (fun _ => Deaf t) (fun _ => Deaf t) s := by
  have hend : ∀ {s}, Deaf t s → wp (onEnd : M Msg Unit) (fun _ => Deaf t) (fun _ => Deaf t) s := by
    intro s h
    rw [onEnd, wp_bind, wp_implHas h]
    exact h
  have herror : ∀ {s} status, Deaf t s →
      wp (onError status : M Msg Unit) (fun _ => Deaf t) (fun _ => Deaf t) s := by
    intro s status h
    rw [onError, wp_bind, wp_implHas h]
    exact h
  have hendError : ∀ {s} status, Deaf t s →
      wp (ServerReader.endOnError onError onEnd status : M Msg Unit) (fun _ => Deaf t)
        (fun _ => Deaf t) s := by
    intro s status h
    simp only [ServerReader.endOnError, wp_bind, wp_check]
    split
    · exact wp_mono (herror status h) (fun _ _ h' => hend h') fun _ _ h' => h'
    · exact h
  -- Every path ends in `implHas`, which finds nothing.
  cases l with
  | start =>
      simp only [Step.exec, start, ServerReader.start, wp_bind, wp_startTag, wp_ite, wp_pure]
      split
      · exact h
      · exact wp_mono (herror _ h) (fun _ _ h' => hend h') fun _ _ h' => h'
  | complete success tag =>
      simp only [Step.exec, doComplete, ServerReader.doComplete, wp_bind, wp_modify, wp_ite,
        wp_pure]
      split
      · exact hendError _ h
      split
      · exact hend h
      refine CodRecvMsg.wp_getResultMsg (fun result => ?_) h
      split
      · exact hendError _ h
      simp only [onMsgStr, wp_bind, wp_implHas (s := { s with reading := s.reading - 1 }) h, wp_ite,
        wp_pure, Status.ok_ofLuaErrStr, wp_startTag]
      rw [if_pos (by rfl), if_neg (by simp)]
      split
      · exact h
      · exact hendError _ h

/-- Whatever completes, no callback is called. -/
theorem reads_nothing {msgType : Object} (starts : List Bool) (ls : List Step) :
    (after decode (new ⟨.string t, msgType⟩ starts) ls).state.trace = [] := by
  have h : Deaf t (after decode (new ⟨.string t, msgType⟩ starts) ls).state :=
    Process.invariant_state (P := fun _ _ => True) (fun s l hI _ => step_deaf hI l)
      (c := .running (new ⟨.string t, msgType⟩ starts)) ⟨rfl, rfl⟩ (.of_forall fun _ _ => trivial)
  exact h.2

/-- A client-streaming method returns a reader of the input type, and not of the user's reader. -/
theorem callMethod_reader {impl : Impl Msg} {d : ServiceDescriptor} {m : MethodDescriptor}
    {server : Server} {i call : Nat} (hi : d.methods[i]? = some m)
    (hc : m.clientStreaming = true) :
    wp (LuaService.callMethod decode impl d server i none call)
      (fun reader? _ => reader? = some ⟨.string m.inputType, .nil⟩) (fun _ _ => True) {} := by
  have hlen : i < (Service.ofDescriptor d).methods.length := by
    rw [Service.ofDescriptor, List.length_map]
    exact (List.getElem?_eq_some_iff.mp hi).1
  simp only [LuaService.callMethod, wp_bind, LuaService.wp_initMethodInfoArr,
    LuaService.wp_ofServer, Server.callMethod, wp_check, Server.callClientStreamingMethod,
    LuaService.ofDescriptor_method hi, wp_ite, wp_pure, hc]
  rw [if_pos (by simpa using hlen)]
  cases hs : m.serverStreaming with
  | false =>
      simp only [LuaService.dispatch, LuaService.callC2sStreamingMethod, wp_bind,
        LuaService.wp_getMethodInfo hi, wp_pure]
      exact wp_mono (wp_true _ _) (fun _ _ _ => rfl) fun _ _ h' => h'
  | true =>
      simp only [LuaService.dispatch, LuaService.callBidiStreamingMethod, wp_bind,
        LuaService.wp_getMethodInfo hi, wp_pure]
      exact wp_mono (wp_true _ _) (fun _ _ _ => rfl) fun _ _ h' => h'

/-- **Reading.**  A client-streaming call is made by a stub, and the function of the implementation
returns the reader `r`.  However the stream goes, `r` hears its story exactly when the story has
nothing to tell it: no handler that `r` defines is ever called.  With an `on_msg`, `r` would hear it
from a `Reader` that is made of `r` and the type of the messages. -/
theorem heard_iff (decode : Bytes → Bytes → Option Msg) (impl : Impl Msg) (d : ServiceDescriptor)
    {name : Bytes} {info : Stub.MethodInfo} (hinfo : Stub.MethodInfo.new d name () = .ok info ())
    (server : Server) {i : Nat}
    (hi : (Service.ofDescriptor d).methods[i]?.map MethodInfo.requestName = some info.requestName)
    (hc : info.isClientStreaming = true) (call : Nat) {reader : LuaReader} {c : Calls Msg}
    (hcall : LuaService.callMethod decode impl d server i none call {} = .ok (some reader) c)
    (r : UserReader) :
    (∃ args, c.invoked = [(name, args)] ∧ (impl name).bind (· args) = some (.reader r)) →
    ∀ starts reads, Legal decode (new reader starts) (steps reads) →
    ((after decode (new reader starts) (steps reads)).state.trace =
        (story decode info.requestType starts reads).calls r ↔
      (story decode info.requestType starts reads).calls r = []) ∧
    (r.onMsg = true →
      Legal decode (new ⟨.reader r, .string info.requestType⟩ starts) (steps reads) →
      (after decode (new ⟨.reader r, .string info.requestType⟩ starts) (steps reads)).state.trace =
        (story decode info.requestType starts reads).calls r) := by
  rintro - starts reads -
  obtain ⟨m, hm, rfl, rfl⟩ := Stub.MethodInfo.mem_of_new hinfo
  have hreader : wp (LuaService.callMethod decode impl d server i none call) _ _ {} :=
    callMethod_reader (Service.method_of_requestName hm hi) hc
  rw [wp, hcall] at hreader
  obtain rfl : reader = ⟨.string m.inputType, .nil⟩ := Option.some.inj hreader
  rw [reads_nothing]
  refine ⟨eq_comm, fun hon hlegal => ?_⟩
  obtain ⟨s, hs, htrace⟩ := reads_story hon hlegal
  rw [hs]
  exact htrace

end actual

/-- A service with one method, which the client streams. -/
def recordingService : ServiceDescriptor where
  fullName := str "routeguide.RouteGuide"
  methods := [⟨str "RecordRoute", str "routeguide.Point", str "routeguide.RouteSummary", true,
    false⟩]
  nodup := by simp

def recordingInfo : Stub.MethodInfo where
  methodName := str "RecordRoute"
  requestName := str "/routeguide.RouteGuide/RecordRoute"
  requestType := str "routeguide.Point"
  responseType := str "routeguide.RouteSummary"
  isClientStreaming := true
  isServerStreaming := false

/-- Its function returns a reader that defines the handlers of `r`. -/
def recording (r : UserReader) : Impl Bytes := fun _ => some fun _ => some (.reader r)

/-- One message and the end of the stream. -/
def recordingReads : List Read := [(true, ⟨some ⟨some [1]⟩⟩), (true, ⟨none⟩)]

/-- The reader defines `on_msg` and `on_end`, and neither is called. -/
theorem not_heard :
    Legal (fun _ bytes => some bytes) (new ⟨.string (str "routeguide.Point"), .nil⟩ [])
        (steps recordingReads) ∧
      LuaService.callMethod (fun _ bytes => some bytes) (recording ⟨true, false, true⟩)
        recordingService (Server.new []) 0 none 7 {} =
        .ok (some ⟨.string (str "routeguide.Point"), .nil⟩)
          ⟨[(str "RecordRoute", [.replier ⟨7, str "routeguide.RouteSummary"⟩])], []⟩ ∧
      (story (fun _ bytes => some bytes) recordingInfo.requestType [] recordingReads).calls
          ⟨true, false, true⟩ = [.onMsg [1], .onEnd] ∧
      (after (fun _ bytes => some bytes) (new ⟨.string (str "routeguide.Point"), .nil⟩ [])
        (steps recordingReads)).state.trace = [] :=
  ⟨by decide, rfl, by decide, reads_nothing [] _⟩

/-- The reader defines no handler that would be called. -/
theorem heard_iff_onError :
    (after (fun _ bytes => some bytes) (new ⟨.string (str "routeguide.Point"), .nil⟩ [])
        (steps recordingReads)).state.trace =
      (story (fun _ bytes => some bytes) recordingInfo.requestType [] recordingReads).calls
        ⟨false, true, false⟩ :=
  (heard_iff (fun _ bytes => some bytes) (recording ⟨false, true, false⟩) recordingService
    (show Stub.MethodInfo.new recordingService (str "RecordRoute") () = .ok recordingInfo ()
      from rfl)
    (Server.new []) (i := 0) rfl rfl 7 rfl _ ⟨_, rfl, rfl⟩ [] recordingReads (by decide)).1.mpr
    (by decide)

end Reading

end GrpcLua
