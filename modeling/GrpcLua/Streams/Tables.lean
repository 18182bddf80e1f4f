import GrpcLua.Client.SyncRequest
import GrpcLua.Pb.Conforms
import GrpcLua.Server.LuaService
import GrpcLua.Server.Writer.Frames
import GrpcLua.Streams.Bidi
import GrpcLua.Streams.SyncBidi

/-!
# Streams — Tables

What Lua makes of a bidirectional call: the server's threads write tables through `Writer.lua`, and
the user of the client is called with tables through `msg_cb_wrapper.lua`, or reads them through
`ClientSyncReaderWriter.lua`.  In between they are messages and bytes; a table arrives as what is
left of it (`Pb.readBack`).

A string that cannot be decoded is passed over in silence, or is nil like the end.  None is, where
both ends go by the descriptor of one method and the messages are within the limits of the wire
format.
-/

namespace GrpcLua
open Prog Trace Pb

variable {Num Float : Type} [DecidableEq Num]

/-! ### The writer of Lua -/

section
variable (R : Runtime Num Float) (pool : Pool Num Float) (codec : Codec Num Float)

/-- `Writer:write(message)`, up to the function of the C++ writer that it calls; an error of
`c.encode` is raised before the call. -/
def LuaWriter.write (w : LuaWriter) (message : Pb.LuaValue Num) :
    Except Pb.Error ServerWriter.Call := do
  let msgStr ← encode R pool codec w.msgType message
  .ok (.write msgStr)

/-- `Writer:close()`, which closes with OK. -/
def LuaWriter.close : ServerWriter.Call := .asyncClose .OK

/-- The C++ writer is called through `w` only, which writes tables of `tables`. -/
def LuaWriter.Calls {ℓ ρ : Type} (w : LuaWriter) (tables : List (Pb.LuaValue Num))
    (ms : List (Duplex.Move ℓ ρ ServerWriter.Step)) : Prop :=
  ∀ i c, .send (.call i c) ∈ ms →
    (∃ message ∈ tables, w.write R pool codec message = .ok c) ∨ c = LuaWriter.close

end

variable {R : Runtime Num Float} {pool : Pool Num Float} {codec : Codec Num Float}

theorem encode_table {sTypeName sData : Bytes} {t : Pb.LuaValue Num} {type : Nat}
    (htype : pool.findMessageTypeByName sTypeName = some type)
    (h : encode R pool codec sTypeName t = .ok sData) :
    ∃ slots, MessageSetter.setMsg R pool (pool.descriptor type) (pool.descriptor type).empty t =
        .ok slots ∧ sData = codec.serializeAsString type slots := by
  simp only [encode, makeSharedMessage, htype, bind, Except.bind] at h
  cases hcheck : checkTable t with
  | error e =>
      rw [hcheck] at h
      cases h
  | ok u =>
      rw [hcheck] at h
      cases hset : MessageSetter.setMsg R pool (pool.descriptor type)
          (pool.descriptor type).empty t with
      | error e =>
          rw [hset] at h
          cases h
      | ok slots =>
          rw [hset] at h
          exact ⟨slots, rfl, (Except.ok.inj h).symm⟩

/-- What is decoded of an encoded table is what is left of it. -/
theorem luaDecode_encode {sTypeName sData : Bytes} {t : Pb.LuaValue Num} {type : Nat}
    (htype : pool.findMessageTypeByName sTypeName = some type)
    (hcarries : ∀ slots, MessageSetter.setMsg R pool (pool.descriptor type)
      (pool.descriptor type).empty t = .ok slots → codec.Carries type slots)
    (h : encode R pool codec sTypeName t = .ok sData) :
    ∃ t', luaDecode R pool codec sTypeName sData = some t' ∧
      readBack R pool type t = .ok t' := by
  obtain ⟨slots, hset, rfl⟩ := encode_table htype h
  refine ⟨_, ?_, readBack_of_setMsg hset⟩
  rw [luaDecode_eq R pool codec htype, codec.parse_serialize type slots (hcarries slots hset)]
  rfl

/-! ### Where the accepted messages come from -/

namespace ServerWriter

/-- The message that the call is to write. -/
def Call.message? : Call → Option Bytes
  | write response => some response
  | syncWrite response => some response
  | asyncWrite response => some response
  | _ => none

/-- The message that the thread is to write. -/
def Pc.message? : Pc → Option Bytes
  | write response => some response
  | asyncWrite response => some response
  | syncWrite response => some response
  | _ => none

/-- The messages that threads are to write, and those that were accepted, are in `P`. -/
structure Comes (P : Bytes → Prop) (s : ServerWriter) : Prop where
  threads : ∀ pc ∈ s.threads, ∀ m ∈ pc.message?, P m
  accepted : ∀ m ∈ accepted s.trace, P m

variable {P : Bytes → Prop} {s s' : ServerWriter}

theorem accepted_of_onlyBatches {evs : List (Event Cb)} (h : OnlyBatches evs) :
    accepted evs = [] := by
  rw [GrpcLua.accepted, List.filterMap_eq_nil_iff]
  intro e he
  obtain ⟨b, r, rfl⟩ := h e he
  rfl

/-- A function that writes nothing of its own. -/
theorem Comes.frame {k : Nat} (h : Comes P s) (hf : Frame k s s') : Comes P s' where
  threads := by rw [hf.threads]; exact h.threads
  accepted := by
    obtain ⟨evs, htr, hevs⟩ := hf.trace
    rw [htr, accepted_append, accepted_of_onlyBatches hevs, List.append_nil]
    exact h.accepted

/-- An event that accepts nothing, or a message of `P`. -/
theorem Comes.event (h : Comes P s) {e : Event Cb} (he : ∀ m ∈ GrpcLua.accepted [e], P m) :
    Comes P { s with trace := s.trace ++ [e] } where
  threads := h.threads
  accepted := by
    intro m hm
    rw [accepted_append, List.mem_append] at hm
    exact hm.elim (h.accepted m) (he m)

/-- A write adds its message at most. -/
theorem wp_asyncWrite_comes (h : Comes P s) {response : Bytes} (hP : P response) :
    wp (asyncWrite response)
      (fun r s' => Comes P { s' with trace := s'.trace ++ [.wrote response r] })
      (fun _ => Comes P) s := by
  refine wp_mono (asyncWrite_frame response) (fun r s' hf => (h.frame hf).event ?_)
    fun _ _ hf => h.frame hf
  cases r with
  | false => simp [GrpcLua.accepted]
  | true => simpa [GrpcLua.accepted] using hP

/-- A thread that is to write messages of `P` goes on to do so. -/
theorem wp_pc_comes (h : Comes P s) {pc : Pc} (hpc : ∀ m ∈ pc.message?, P m) :
    wp pc.exec (fun pc' s' => Comes P s' ∧ ∀ m ∈ pc'.message?, P m) (fun _ => Comes P) s := by
  cases pc with
  | idle => exact ⟨h, by simp [Pc.message?]⟩
  | write response =>
      refine ⟨h, ?_⟩
      split <;> simpa [Pc.message?] using hpc
  | asyncWrite response =>
      simp only [Pc.exec, wp_bind, wp_emit, wp_pure, env_eq, setEnv_eq]
      refine wp_mono (wp_asyncWrite_comes h (hpc response rfl)) (fun r s' h' => ?_) fun _ _ h' => h'
      exact ⟨h', by simp [Pc.message?]⟩
  | syncWrite response =>
      simp only [Pc.exec, wp_bind, wp_emit, wp_pure, wp_ite, env_eq, setEnv_eq]
      refine wp_mono (wp_asyncWrite_comes h (hpc response rfl)) (fun r s' h' => ?_) fun _ _ h' => h'
      split
      · exact ⟨h', by simp [Pc.message?]⟩
      · exact ⟨h'.event (by simp [GrpcLua.accepted]), by simp [Pc.message?]⟩
  | waitWrite response =>
      refine ⟨h, ?_⟩
      split <;> simp [Pc.message?]
  | endWrite response =>
      exact ⟨h.event (by simp [GrpcLua.accepted]), by simp [Pc.message?]⟩
  | asyncClose status =>
      simp only [Pc.exec, wp_bind, wp_emit, wp_pure, env_eq, setEnv_eq]
      have h₁ := h.event (e := .called (.close status)) (by simp [GrpcLua.accepted])
      exact wp_mono (asyncClose_frame status) (fun _ _ hf => ⟨h₁.frame hf, by simp [Pc.message?]⟩)
        fun _ _ hf => h₁.frame hf
  | syncClose status =>
      simp only [Pc.exec, wp_bind, wp_emit, wp_pure, env_eq, setEnv_eq]
      have h₁ := h.event (e := .called (.close status)) (by simp [GrpcLua.accepted])
      exact wp_mono (asyncClose_frame status) (fun _ _ hf => ⟨h₁.frame hf, by simp [Pc.message?]⟩)
        fun _ _ hf => h₁.frame hf
  | waitClose =>
      refine ⟨h, ?_⟩
      split <;> simp [Pc.message?]
  | setHighQueueSize size => exact ⟨{ h with }, by simp [Pc.message?]⟩

theorem Comes.set (h : Comes P s) (i : Nat) {pc : Pc} (hpc : ∀ m ∈ pc.message?, P m) :
    Comes P { s with threads := s.threads.set i pc } where
  threads := by
    intro pc' hpc'
    rcases List.mem_or_eq_of_mem_set hpc' with hpc' | rfl
    · exact h.threads pc' hpc'
    · exact hpc
  accepted := h.accepted

/-- Every accepted message comes from a call. -/
theorem step_comes (h : Comes P s) (l : Step)
    (hl : ∀ i c, l = .call i c → ∀ m ∈ c.message?, P m) :
    wp l.exec (fun _ => Comes P) (fun _ => Comes P) s := by
  cases l with
  | call i c =>
      refine h.set i fun m hm => hl i c rfl m ?_
      cases c <;> exact hm
  | resume i =>
      have hpc : ∀ m ∈ (s.threads.getD i .idle).message?, P m := by
        rw [List.getD_eq_getElem?_getD]
        cases hi : s.threads[i]? with
        | none => simp [Pc.message?]
        | some pc => exact h.threads pc (List.mem_of_getElem? hi)
      simp only [Step.exec, wp_bind, wp_get, wp_modify]
      exact wp_mono (wp_pc_comes h hpc) (fun pc' s' h' => h'.1.set i h'.2) fun _ _ h' => h'
  | complete success =>
      simp only [Step.exec, wp_bind, wp_get, wp_modify, wp_emit, env_eq, setEnv_eq]
      have h₁ : Comes P { s with sending := s.sending.tail } := { h with }
      have h₂ := h₁.event (e := .sent (s.sending.headD []) success) (by simp [GrpcLua.accepted])
      exact wp_mono tryToWriteNext_frame (fun _ _ hf => h₂.frame hf) fun _ _ hf => h₂.frame hf
  | destroy =>
      simp only [Step.exec, wp_bind, wp_modify, wp_check, wp_emit, env_eq, setEnv_eq]
      have h₁ : Comes P { s with destroyed := true } := { h with }
      have h₂ := h₁.event (e := .called (.close .OK)) (by simp [GrpcLua.accepted])
      split
      · exact wp_mono (asyncClose_frame _) (fun _ _ hf => h₂.frame hf) fun _ _ hf => h₂.frame hf
      · exact h₁

theorem Comes.new (P : Bytes → Prop) (starts : List Bool) (n : Nat) : Comes P (new starts n) where
  threads := by
    intro pc hpc
    rw [List.eq_of_mem_replicate hpc]
    simp [Pc.message?]
  accepted := fun m hm => absurd hm (by simp [ServerWriter.new, GrpcLua.accepted])

end ServerWriter

/-! ### The tables -/

/-- What comes from a list comes from a list of its own. -/
theorem exists_forall₂_of_mem {α β : Type} {r : α → β → Prop} {as : List α} {bs : List β}
    (h : ∀ b ∈ bs, ∃ a ∈ as, r a b) :
    ∃ as', (∀ a ∈ as', a ∈ as) ∧ List.Forall₂ r as' bs := by
  induction bs with
  | nil => exact ⟨[], by simp, .nil⟩
  | cons b bs ih =>
      obtain ⟨a, ha, hr⟩ := h b List.mem_cons_self
      obtain ⟨as', has', hrs⟩ := ih fun b' hb' => h b' (List.mem_cons_of_mem b hb')
      refine ⟨a :: as', fun a' ha' => ?_, .cons hr hrs⟩
      rcases List.mem_cons.mp ha' with rfl | ha'
      · exact ha
      · exact has' a' ha'

/-- Whatever the client is: what is accepted are the strings of tables. -/
theorem LuaWriter.Calls.written {σ ℓ τ ρ α ω : Type} {w : LuaWriter}
    {tables : List (Pb.LuaValue Num)} {ms : List (Duplex.Move ℓ ρ ServerWriter.Step)}
    (h : w.Calls R pool codec tables ms) (L : Link σ ℓ τ ρ α ω) (recv : ℓ → EStateM Exit σ Unit)
    (take : ℓ → Take Bytes) {c : Duplex σ τ ServerWriter α Bytes} {starts : List Bool} {n : Nat}
    (hc : c.down.sender.state = ServerWriter.new starts n) :
    ∃ written : List (Pb.LuaValue Num), (∀ t ∈ written, t ∈ tables) ∧
      List.Forall₂ (fun t b => encode R pool codec w.msgType t = .ok b) written
        (accepted
          (Duplex.after L (ServerWriter.linkFrom recv take) c ms).down.sender.state.trace) := by
  have hcomes : ServerWriter.Comes (fun b => ∃ t ∈ tables, encode R pool codec w.msgType t = .ok b)
      (Duplex.after L (ServerWriter.linkFrom recv take) c ms).down.sender.state := by
    refine Duplex.keeps_send (fun l hl s hs => ServerWriter.step_comes hs l ?_) (hc ▸ .new _ _ _)
    rintro i cl rfl b hb
    rcases h i cl hl with ⟨t, ht, hwrite⟩ | rfl
    · refine ⟨t, ht, ?_⟩
      simp only [LuaWriter.write, bind, Except.bind] at hwrite
      cases hencode : encode R pool codec w.msgType t with
      | error e =>
          rw [hencode] at hwrite
          cases hwrite
      | ok msgStr =>
          rw [hencode] at hwrite
          obtain rfl := Except.ok.inj hwrite
          exact congrArg Except.ok (Option.some.inj hb)
    · cases hb
  exact exists_forall₂_of_mem hcomes.accepted

/-- The strings of encoded tables are all heard, as what is left of the tables. -/
theorem heard_encoded {sTypeName : Bytes} {type : Nat} {written : List (Pb.LuaValue Num)}
    {strings : List Bytes} (htype : pool.findMessageTypeByName sTypeName = some type)
    (hcarries : ∀ t ∈ written, ∀ slots, MessageSetter.setMsg R pool (pool.descriptor type)
      (pool.descriptor type).empty t = .ok slots → codec.Carries type slots)
    (h : List.Forall₂ (fun t b => encode R pool codec sTypeName t = .ok b) written strings) :
    (MsgCbWrapper.heard (luaDecode R pool codec) sTypeName strings).map .ok =
      written.map (readBack R pool type) := by
  rw [MsgCbWrapper.heard_eq]
  induction h with
  | nil => rfl
  | cons hb _ ih =>
      obtain ⟨t', hdecode, hread⟩ := luaDecode_encode htype (hcarries _ List.mem_cons_self) hb
      rw [List.filterMap_cons, hdecode, List.map_cons, List.map_cons, hread]
      rw [ih fun t ht => hcarries t (List.mem_cons_of_mem _ ht)]

/-- What the user of the client has been called with, of the tables whose `write` returned true. -/
structure Arrives (R : Runtime Num Float) (pool : Pool Num Float) (type : Nat)
    (written heard : List (Pb.LuaValue Num)) (ended : Prop) : Prop where
  /-- Each of them in order, as what is left of it, as far as they came. -/
  in_order : heard.map .ok <+: written.map (readBack R pool type)
  /-- All of them, at the end. -/
  all : ended → heard.map .ok = written.map (readBack R pool type)

/-- **Tables from end to end.**  A service method whose function writes tables to its writer, and a
client that reads them by the same descriptor: whatever happens in between, the user is called with
what is left of the tables that were accepted, in order, none lost, added or passed over; and where
OK is told on a connection that is not lost, with all of them. -/
theorem bidi_tables (d : ServiceDescriptor) (m : MethodDescriptor) (call : Nat) {type : Nat}
    (htype : pool.findMessageTypeByName m.outputType = some type)
    (tables : List (Pb.LuaValue Num))
    (hcarries : ∀ t ∈ tables, ∀ slots, MessageSetter.setMsg R pool (pool.descriptor type)
      (pool.descriptor type).empty t = .ok slots → codec.Carries type slots)
    (given : Bool) (clientStarts : List Bool) (final : Status) (started : Bool)
    (serverStarts : List Bool) (n : Nat) (ms : List Bidi.Move)
    (h : Bidi.Legal (Bidi.new given clientStarts final started serverStarts n) ms)
    (hcalls : LuaWriter.Calls R pool codec ⟨call, m.outputType⟩ tables ms) :
    let c := Bidi.after (Bidi.new given clientStarts final started serverStarts n) ms
    ∃ written : List (Pb.LuaValue Num), (∀ t ∈ written, t ∈ tables) ∧
      List.Forall₂ (fun t b => encode R pool codec m.outputType t = .ok b) written
        (accepted c.down.sender.state.trace) ∧
      Arrives R pool type written
        (MsgCbWrapper.heard (luaDecode R pool codec) (Stub.MethodInfo.of d m).responseType
          (ReaderWriter.msgs c.up.sender.state.trace))
        ((∃ st ∈ ReaderWriter.statuses c.up.sender.state.trace, st.ok = true) ∧
          c.up.broken = false ∧ c.up.sender.state.msgCb = true) := by
  intro c
  obtain ⟨r, -, horderly⟩ := (Bidi.run_keeps h).orderly
  obtain ⟨written, hwritten, hencoded⟩ :=
    hcalls.written Bidi.toServer _ _ (c := Bidi.new given clientStarts final started serverStarts n)
      rfl
  have hheard := heard_encoded htype (fun t ht => hcarries t (hwritten t ht)) hencoded
  refine ⟨written, hwritten, hencoded, ?_, ?_⟩
  · rw [← hheard, MsgCbWrapper.heard_eq, MsgCbWrapper.heard_eq]
    exact (horderly.msgs_prefix.filterMap _).map _
  · rintro ⟨hok, hbroken, hset⟩
    obtain ⟨-, hall, -⟩ := horderly.msgs_all hok hbroken
    rw [hall hset]
    exact hheard

/-- A method that answers with a `Choice`. -/
def choose : MethodDescriptor := ⟨str "Choose", str "Choice", str "Choice", true, true⟩

/-- The service of `choose`. -/
def chooser : ServiceDescriptor := ⟨str "Chooser", [choose], by simp⟩

/-- A table is written, and read by the client; then both sides close. -/
def oneTable : List Bidi.Move :=
  let read (tag : CodRecvMsg) : Bidi.Move :=
    .near (.read true tag (fun _ => .ret .OK) ReaderWriter.idle)
  [.near (.call (.readEach true) ReaderWriter.idle),
    .near (.call .closeWriting ReaderWriter.idle), .send (.call 0 (.write [8, 5])),
    .send (.resume 0), .send (.resume 0), .send (.call 0 LuaWriter.close), .send (.resume 0),
    read ⟨some ⟨some [8, 5]⟩⟩, .send (.complete true), read ⟨none⟩]

theorem bidi_tables_oneTable :
    let table : Pb.LuaValue Int := .table 0 [(.string (str "a"), .integer 5)]
    let c := Bidi.after (Bidi.new true [] .OK true [] 1) oneTable
    ∃ written : List (Pb.LuaValue Int), (∀ t ∈ written, t ∈ [table]) ∧
      List.Forall₂ (fun t b => encode Runtime.integers choicePool choiceCodec choose.outputType t =
        .ok b) written (accepted c.down.sender.state.trace) ∧
      Arrives Runtime.integers choicePool 0 written
        (MsgCbWrapper.heard (luaDecode Runtime.integers choicePool choiceCodec)
          (Stub.MethodInfo.of chooser choose).responseType
          (ReaderWriter.msgs c.up.sender.state.trace))
        ((∃ st ∈ ReaderWriter.statuses c.up.sender.state.trace, st.ok = true) ∧
          c.up.broken = false ∧ c.up.sender.state.msgCb = true) := by
  intro table c
  refine bidi_tables chooser choose 0 rfl [table] ?_ true [] .OK true [] 1 oneTable (by decide) ?_
  · rintro t ht slots hset
    obtain rfl := List.mem_singleton.mp ht
    obtain rfl : [.scalar (.ofKey (.int32 5)), .absent] = slots := Except.ok.inj hset
    exact ⟨5, by decide, .inl rfl⟩
  · rintro i cl hmem
    simp only [oneTable, List.mem_cons, List.not_mem_nil, or_false, reduceCtorEq, false_or,
      Duplex.Move.send.injEq, ServerWriter.Step.call.injEq] at hmem
    rcases hmem with ⟨-, rfl⟩ | ⟨-, rfl⟩
    · exact .inl ⟨table, List.mem_singleton_self _, rfl⟩
    · exact .inr rfl

/-! ### Reading one by one -/

/-- `ClientSyncReaderWriter:read_one()`, of what `ReadOne()` of the C++ object has returned. -/
def LuaSyncReaderWriter.readOne (R : Runtime Num Float) (pool : Pool Num Float)
    (codec : Codec Num Float) (responseType : Bytes) (msg : Option Bytes) :
    Option (Pb.LuaValue Num) :=
  match msg with
  | none => none
  | some msg => luaDecode R pool codec responseType msg

theorem LuaSyncReaderWriter.reduceOption_readOne (responseType : Bytes)
    (rs : List (Option Bytes)) :
    (rs.map (readOne R pool codec responseType)).reduceOption =
      rs.reduceOption.filterMap (luaDecode R pool codec responseType) := by
  rw [List.reduceOption, List.filterMap_map, List.reduceOption, List.filterMap_filterMap]
  congr 1
  funext r
  cases r <;> rfl

/-- A string of an encoded table is decoded. -/
theorem luaDecode_encoded {sTypeName : Bytes} {type : Nat} {written : List (Pb.LuaValue Num)}
    {strings : List Bytes} (htype : pool.findMessageTypeByName sTypeName = some type)
    (hcarries : ∀ t ∈ written, ∀ slots, MessageSetter.setMsg R pool (pool.descriptor type)
      (pool.descriptor type).empty t = .ok slots → codec.Carries type slots)
    (h : List.Forall₂ (fun t b => encode R pool codec sTypeName t = .ok b) written strings)
    {b : Bytes} (hb : b ∈ strings) : luaDecode R pool codec sTypeName b ≠ none := by
  induction h with
  | nil => cases hb
  | cons hencode _ ih =>
      rcases List.mem_cons.mp hb with rfl | hb
      · obtain ⟨t', hdecode, -⟩ := luaDecode_encode htype (hcarries _ List.mem_cons_self) hencode
        simp [hdecode]
      · exact ih (fun t ht => hcarries t (List.mem_cons_of_mem _ ht)) hb

/-- **Tables read one by one.**  The same method, of which a synchronous client reads: `read_one`
returns what is left of the tables that were accepted, in order, none lost, added or passed over.
A nil is never a message: where there is no error and the connection is not lost, it comes after all
of the tables, and no table comes after it. -/
theorem syncBidi_tables (d : ServiceDescriptor) (m : MethodDescriptor) (call : Nat) {type : Nat}
    (htype : pool.findMessageTypeByName m.outputType = some type)
    (tables : List (Pb.LuaValue Num))
    (hcarries : ∀ t ∈ tables, ∀ slots, MessageSetter.setMsg R pool (pool.descriptor type)
      (pool.descriptor type).empty t = .ok slots → codec.Carries type slots)
    (clientStarts : List Bool) (final : Status) (started : Bool) (serverStarts : List Bool)
    (n : Nat) (ms : List SyncBidi.Move)
    (h : SyncBidi.Legal (SyncBidi.new clientStarts final started serverStarts n) ms)
    (hcalls : LuaWriter.Calls R pool codec ⟨call, m.outputType⟩ tables ms) :
    let c := SyncBidi.after (SyncBidi.new clientStarts final started serverStarts n) ms
    let results := (SyncReaderWriter.reads c.up.sender.state.trace).map
      (LuaSyncReaderWriter.readOne R pool codec (Stub.MethodInfo.of d m).responseType)
    ∃ written : List (Pb.LuaValue Num), (∀ t ∈ written, t ∈ tables) ∧
      List.Forall₂ (fun t b => encode R pool codec m.outputType t = .ok b) written
        (accepted c.down.sender.state.trace) ∧
      Arrives R pool type written results.reduceOption
        (none ∈ results ∧ c.up.sender.state.status.ok = true ∧ c.up.broken = false) ∧
      (c.up.broken = false → SyncReaderWriter.Stops results) := by
  intro c results
  obtain ⟨r, -, horderly⟩ := (SyncBidi.run_keeps h).orderly
  obtain ⟨written, hwritten, hencoded⟩ := hcalls.written SyncBidi.toServer _ _
    (c := SyncBidi.new clientStarts final started serverStarts n) rfl
  have hcarried : ∀ t ∈ written, ∀ slots, MessageSetter.setMsg R pool (pool.descriptor type)
      (pool.descriptor type).empty t = .ok slots → codec.Carries type slots :=
    fun t ht => hcarries t (hwritten t ht)
  have hheard := heard_encoded htype hcarried hencoded
  rw [MsgCbWrapper.heard_eq] at hheard
  have hresults : results.reduceOption = (SyncReaderWriter.msgs c.up.sender.state.trace).filterMap
      (luaDecode R pool codec m.outputType) :=
    LuaSyncReaderWriter.reduceOption_readOne _ _
  -- Every message that is read is an encoded table, so that it is not read as nil.
  have hnil : ∀ b ∈ SyncReaderWriter.reads c.up.sender.state.trace,
      LuaSyncReaderWriter.readOne R pool codec m.outputType b = none → b = none := by
    intro b hb hnone
    cases b with
    | none => rfl
    | some b =>
        have haccepted : b ∈ accepted c.down.sender.state.trace :=
          horderly.msgs_prefix.subset (List.reduceOption_mem_iff.mpr hb)
        exact absurd hnone (luaDecode_encoded htype hcarried hencoded haccepted)
  refine ⟨written, hwritten, hencoded, ⟨?_, ?_⟩, fun hbroken => ?_⟩
  · rw [hresults, ← hheard]
    exact (horderly.msgs_prefix.filterMap _).map _
  · rintro ⟨hnone, hok, hbroken⟩
    obtain ⟨b, hb, hread⟩ := List.mem_map.mp hnone
    obtain rfl := hnil b hb hread
    rw [hresults, (horderly.msgs_all hb hok hbroken).2]
    exact hheard
  · refine List.pairwise_map.mpr ((horderly.stops hbroken).imp_of_mem fun hb _ hstops hnone => ?_)
    rw [hstops (hnil _ hb hnone)]
    rfl

/-- A table is written and the call is closed; the client reads until the end. -/
def oneRead : List SyncBidi.Move :=
  [.near (.closeWriting, .nothing), .send (.call 0 (.write [8, 5])), .send (.resume 0),
    .send (.resume 0), .send (.call 0 LuaWriter.close), .send (.resume 0),
    .near (.readOne ⟨some ⟨some [8, 5]⟩⟩, .msg [8, 5]), .send (.complete true),
    .near (.readOne ⟨none⟩, .ending)]

theorem syncBidi_tables_oneRead :
    let table : Pb.LuaValue Int := .table 0 [(.string (str "a"), .integer 5)]
    let c := SyncBidi.after (SyncBidi.new [] .OK true [] 1) oneRead
    let results := (SyncReaderWriter.reads c.up.sender.state.trace).map
      (LuaSyncReaderWriter.readOne Runtime.integers choicePool choiceCodec
        (Stub.MethodInfo.of chooser choose).responseType)
    ∃ written : List (Pb.LuaValue Int), (∀ t ∈ written, t ∈ [table]) ∧
      List.Forall₂ (fun t b => encode Runtime.integers choicePool choiceCodec choose.outputType t =
        .ok b) written (accepted c.down.sender.state.trace) ∧
      Arrives Runtime.integers choicePool 0 written results.reduceOption
        (none ∈ results ∧ c.up.sender.state.status.ok = true ∧ c.up.broken = false) ∧
      (c.up.broken = false → SyncReaderWriter.Stops results) := by
  intro table c results
  refine syncBidi_tables chooser choose 0 rfl [table] ?_ [] .OK true [] 1 oneRead (by decide) ?_
  · rintro t ht slots hset
    obtain rfl := List.mem_singleton.mp ht
    obtain rfl : [.scalar (.ofKey (.int32 5)), .absent] = slots := Except.ok.inj hset
    exact ⟨5, by decide, .inl rfl⟩
  · rintro i cl hmem
    simp only [oneRead, List.mem_cons, List.not_mem_nil, or_false, reduceCtorEq, false_or,
      Duplex.Move.send.injEq, ServerWriter.Step.call.injEq] at hmem
    rcases hmem with ⟨-, rfl⟩ | ⟨-, rfl⟩
    · exact .inl ⟨table, List.mem_singleton_self _, rfl⟩
    · exact .inr rfl

end GrpcLua
