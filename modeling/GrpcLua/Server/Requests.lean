import GrpcLua.Server.Definitions
import Mathlib.Data.List.Nodup

/-!
# Server — Requests

The requests for the next calls of the methods.  A method's tag is taken from the queue when a
call comes in, and the next one is requested when the handler is done; `Inv held owed` is the
invariant of a server that has taken the tags `held` from the queue and still owes the next
requests of `owed`.

* `served_iff`: every registered method has exactly one tag, and every other tag that was taken
  from the queue is deleted, for as long as no handler raises an error.
-/

namespace GrpcLua
open Prog

namespace RegisteredService

/-- The methods that have a handle. -/
def methods (rs : RegisteredService) : List Method :=
  rs.registeredMethods.zipIdx.filterMap fun (handle, i) => handle.map fun _ => ⟨rs.service, i⟩

/-- The tags that `RequestServiceMethodsCalls()` creates. -/
def tags (rs : RegisteredService) : List CqTag :=
  rs.registeredMethods.zipIdx.filterMap fun (handle, i) => handle.map (.methodCall rs.service i)

/-- The methods of a registered service are those of the service. -/
theorem mem_methods {rs : RegisteredService} {m : Method} (h : m ∈ rs.methods) :
    m.service = rs.service := by
  obtain ⟨⟨handle, i⟩, -, hm⟩ := List.mem_filterMap.mp h
  obtain ⟨_, -, rfl⟩ := Option.map_eq_some_iff.mp hm
  rfl

/-- A registered service has no method twice. -/
theorem nodup_methods (rs : RegisteredService) : rs.methods.Nodup := by
  have hi : (rs.registeredMethods.zipIdx.map Prod.snd).Nodup := by
    rw [List.zipIdx_map_snd]
    exact List.nodup_range'
  rw [methods, List.Nodup, List.pairwise_filterMap]
  refine (List.pairwise_map.mp hi).imp ?_
  rintro ⟨handle, i⟩ ⟨handle', i'⟩ hne m hm m' hm' rfl
  obtain ⟨_, -, rfl⟩ := Option.map_eq_some_iff.mp hm
  obtain ⟨_, -, he⟩ := Option.map_eq_some_iff.mp hm'
  exact hne (congrArg Method.index he).symm

/-- Its tags are one for each method. -/
theorem tags_methods (rs : RegisteredService) : rs.tags.filterMap CqTag.method? = rs.methods := by
  rw [tags, methods, List.filterMap_filterMap]
  refine List.filterMap_congr ?_
  rintro ⟨handle, i⟩ -
  cases handle <;> rfl

end RegisteredService

namespace Server

/-- The methods registered with a handle. -/
def methods (s : Server) : List Method := s.serviceMap.flatMap RegisteredService.methods

/-- The methods whose next call the tags request. -/
def requests (tags : List CqTag) : List Method := tags.filterMap CqTag.method?

@[simp] theorem requests_nil : requests [] = [] := rfl

@[simp] theorem requests_append (tags tags' : List CqTag) :
    requests (tags ++ tags') = requests tags ++ requests tags' := List.filterMap_append

/-- A tag of no method requests nothing. -/
theorem requests_of_none {tag : CqTag} (h : tag.method? = none) : requests [tag] = [] := by
  simp [requests, h]

/-- What is asked of the server until its shutdown. -/
structure Served (s : Server) : Prop where
  /-- Between polls, every method has exactly one outstanding tag. -/
  one_outstanding : s.stack = [] → ∀ m ∈ s.methods, (requests s.outstanding).count m = 1
  /-- During a poll, the tag that it completes counts. -/
  one : ∀ m ∈ s.methods, (requests (s.outstanding ++ s.completing)).count m = 1
  /-- Every tag is outstanding, or is being completed, or has been deleted. -/
  deleted : s.heap.Perm (s.outstanding ++ s.completing)

/-- The methods that ought to be requested. -/
def wanted (s : Server) : List Method := if s.started then s.methods else []

/-- The invariant, with the tags `held` taken from the queue and the next requests of `owed` still
to come. -/
structure Inv (held owed : List CqTag) (s : Server) : Prop where
  /-- The services of the map have different names. -/
  names : (s.serviceMap.map fun rs => rs.service.fullName).Nodup
  idle : s.started = false → s.stack = [] ∧ held = []
  heap : s.shutdown = false → s.heap.Perm (s.outstanding ++ s.completing ++ held)
  requested : s.shutdown = false →
    (requests (s.outstanding ++ s.completing ++ owed)).Perm s.wanted

variable {s : Server} {held owed : List CqTag}

/-- A new server keeps the invariant. -/
theorem new_inv (starts : List Bool) : Inv [] [] (new starts) where
  names := List.nodup_nil
  idle _ := ⟨rfl, rfl⟩
  heap _ := .nil
  requested _ := .nil

/-- No method is registered twice. -/
theorem Inv.nodup_methods (h : Inv held owed s) : s.methods.Nodup := by
  refine List.nodup_flatMap.mpr ⟨fun rs _ => rs.nodup_methods, ?_⟩
  refine (List.pairwise_map.mp h.names).imp ?_
  intro rs rs' hne m hm hm'
  have hs := RegisteredService.mem_methods hm
  rw [RegisteredService.mem_methods hm'] at hs
  exact hne (congrArg Service.fullName hs).symm

/-- Where nothing is held and nothing owed, each method has one request. -/
theorem Inv.served (h : Inv [] [] s) (hs : s.started = true) (hd : s.shutdown = false) :
    Served s := by
  have hone : ∀ m ∈ s.methods, (requests (s.outstanding ++ s.completing)).count m = 1 := by
    intro m hm
    have hp := h.requested hd
    rw [List.append_nil, wanted, if_pos hs] at hp
    rw [hp.count_eq m]
    exact List.count_eq_one_of_mem h.nodup_methods hm
  refine { one_outstanding := fun hstack m hm => ?_, one := hone, deleted := ?_ }
  · have ho := hone m hm
    rwa [completing, hstack, List.map_nil, List.append_nil] at ho
  · have hp := h.heap hd
    rwa [List.append_nil] at hp

/-- Tags move between gRPC, the polls under way and the hand. -/
theorem Inv.move (h : Inv held owed s) (hs : s.started = true) {outstanding : List CqTag}
    {stack : List Frame} {held' owed' : List CqTag}
    (hheld : (outstanding ++ stack.map Frame.tag ++ held').Perm
      (s.outstanding ++ s.completing ++ held))
    (howed : (outstanding ++ stack.map Frame.tag ++ owed').Perm
      (s.outstanding ++ s.completing ++ owed)) :
    Inv held' owed' { s with outstanding := outstanding, stack := stack } where
  names := h.names
  idle hs' := absurd (hs.symm.trans hs') (by simp)
  heap hd := (h.heap hd).trans hheld.symm
  requested hd := (howed.filterMap _).trans (h.requested hd)

/-! ### Tags -/

/-- The functions keep the invariant, and no exception is their own. -/
abbrev Stops : Exit → Server → Prop := fun e _ => e ≠ .exception

/-- A tag of no method leaves the requests alone. -/
theorem wp_startTag (h : Inv held owed s) {tag : CqTag} (ht : tag.method? = none) :
    wp (startTag tag) (fun _ => Inv held owed) Stops s := by
  simp only [startTag, newTag, submit, deleteTag, wp_bind, wp_get, wp_modify, wp_ite, wp_pure]
  split
  · refine { names := h.names, idle := h.idle, heap := fun hd => ?_, requested := fun hd => ?_ }
    · refine List.perm_iff_count.mpr fun t => ?_
      have hc := List.perm_iff_count.mp (h.heap hd) t
      simp only [List.count_append, completing] at hc ⊢
      omega
    · show (requests (s.outstanding ++ [tag] ++ s.completing ++ owed)).Perm s.wanted
      have hr := h.requested hd
      simp only [requests_append, requests_of_none ht, List.append_nil] at hr ⊢
      exact hr
  · refine { names := h.names, idle := h.idle, heap := fun hd => ?_, requested := h.requested }
    refine List.perm_iff_count.mpr fun t => ?_
    have hc := List.perm_iff_count.mp (h.heap hd) t
    simp only [List.count_append, List.count_erase, List.count_singleton, completing] at hc ⊢
    split <;> omega

/-- The next request is made. -/
theorem wp_newMethodCall {service : Service} {i : Nat} {handle : Handle}
    (h : Inv held (.methodCall service i handle :: owed) s) :
    wp (newMethodCall service i handle) (fun _ => Inv held owed) Stops s := by
  simp only [newMethodCall, newTag, submit, wp_bind, wp_modify, wp_check]
  split
  · split
    · refine { names := h.names, idle := h.idle, heap := fun hd => ?_, requested := fun hd => ?_ }
      · refine List.perm_iff_count.mpr fun t => ?_
        have hc := List.perm_iff_count.mp (h.heap hd) t
        simp only [List.count_append, completing] at hc ⊢
        omega
      · refine List.Perm.trans ?_ (h.requested hd)
        refine List.Perm.filterMap _ ?_
        simp only [completing]
        refine List.perm_iff_count.mpr fun t => ?_
        simp only [List.count_append, List.count_cons, List.count_nil]
        omega
    · exact Exit.noConfusion
  · exact Exit.noConfusion

/-- What is owed when `DoComplete()` waits or has ended. -/
def owes (tag : CqTag) : Option LuaCall → List CqTag
  | some _ => [tag]
  | none => []

/-- The next request of a method is made, or is owed no more. -/
theorem wp_requestNext {tag : CqTag} (h : Inv held [tag] s) :
    wp (requestNext tag) (fun r => Inv held (owes tag r)) Stops s := by
  have hnone (ht : tag.method? = none) : Inv held [] s := by
    refine { names := h.names, idle := h.idle, heap := h.heap, requested := fun hd => ?_ }
    have hr := h.requested hd
    rwa [requests_append, requests_of_none ht, ← requests_nil, ← requests_append] at hr
  cases tag with
  | methodCall service i handle =>
      simp only [requestNext, wp_bind, wp_pure]
      exact wp_newMethodCall h
  | reader call => exact hnone rfl
  | replier call => exact hnone rfl
  | write call => exact hnone rfl
  | sendStatus call => exact hnone rfl

/-! ### Completion -/

/-- What `DoComplete()` does before it requests the next call keeps `I`: it starts tags of calls,
and any exit but an exception may come. -/
structure Idle (I : Server → Prop) (E : Exit → Server → Prop) : Prop where
  start : ∀ t s, t.method? = none → I s → wp (startTag t) (fun _ => I) E s
  exit : ∀ e s, e ≠ .exception → I s → E e s

section completion
variable {I : Server → Prop} {E : Exit → Server → Prop} {Q : Option LuaCall → Server → Prop}
  {tag : CqTag} {call : Nat}

/-- An assertion that fails in an idle program stops it. -/
theorem Idle.assertion (hidle : Idle I E) (h : I s) : E .assertion s :=
  hidle.exit _ s Exit.noConfusion h

/-- `CallMethod()` makes and takes no request. -/
theorem wp_callMethod (hidle : Idle I E) (h : I s) (service : Service) (i : Nat)
    (reqBuf : Option ByteBuffer) :
    wp (callMethod service i reqBuf call) (fun _ => I) E s := by
  simp only [callMethod, wp_bind, wp_check]
  split
  · cases reqBuf with
    | none =>
        simp only [callClientStreamingMethod]
        cases service.methods[i]? with
        | none => exact hidle.assertion h
        | some mi =>
            simp only [wp_ite, wp_pure]
            split_ifs <;> exact h
    | some buf =>
        simp only [wp_bind, bufToSlice, callNonClientStreamingMethod]
        cases buf.contents with
        | none => exact hidle.exit _ s Exit.noConfusion h
        | some bytes =>
            simp only [wp_pure]
            cases service.methods[i]? with
            | none => exact hidle.assertion h
            | some mi =>
                simp only [wp_ite, wp_pure]
                split_ifs <;> exact h
  · exact hidle.assertion h

/-- Nor does the start of a reader. -/
theorem wp_startReader (hidle : Idle I E) (h : I s) :
    wp (startReader call) (fun _ => I) E s := by
  simp only [startReader, wp_bind]
  refine wp_mono (hidle.start _ s rfl h) (fun started s₁ h₁ => ?_) fun _ _ he => he
  cases started <;> exact h₁

/-- Nor does the end of one in error. -/
theorem wp_endOnError (hidle : Idle I E) (h : I s) (status : Status) :
    wp (endOnError call status) (fun _ => I) E s := by
  simp only [endOnError, wp_bind, wp_check, wp_pure]
  split
  · exact h
  · exact hidle.assertion h

/-- Nor does the completion of a read. -/
theorem wp_completeRead (hidle : Idle I E) (h : I s) (success : Bool) (recvMsg : CodRecvMsg) :
    wp (completeRead call success recvMsg) (fun _ => I) E s := by
  simp only [completeRead, wp_ite, wp_bind, wp_pure]
  split_ifs
  · exact wp_endOnError hidle h _
  · exact h
  · refine wp_mono CodRecvMsg.getResultMsg_reads (fun r s₁ hs => ?_) fun e s₁ he => ?_
    · subst hs
      split_ifs
      · exact wp_endOnError hidle h _
      · exact h
    · obtain ⟨rfl, rfl⟩ := he
      exact hidle.exit _ _ Exit.noConfusion h

/-- Nor does the next read. -/
theorem wp_readNext (hidle : Idle I E) (h : I s) (status : Status) :
    wp (readNext call status) (fun _ => I) E s := by
  simp only [readNext, wp_ite, wp_bind]
  split_ifs
  · exact wp_endOnError hidle h _
  · refine wp_mono (hidle.start _ s rfl h) (fun started s₁ h₁ => ?_) fun _ _ he => he
    split_ifs
    · exact h₁
    · exact wp_endOnError hidle h₁ _

/-- `DoComplete()` waits for Lua, or it comes to its end. -/
theorem wp_orRequestNext (hnext : ∀ s, I s → wp (requestNext tag) Q E s)
    (hwaits : ∀ f s, I s → Q (some f) s) (h : I s) (waiting : Option LuaCall) :
    wp (orRequestNext tag waiting) Q E s := by
  cases waiting with
  | none => exact hnext s h
  | some f => exact hwaits f s h

/-- `DoComplete()` of any tag; the tag of a method requests its next call last. -/
theorem wp_doComplete (hidle : Idle I E) (hnext : ∀ s, I s → wp (requestNext tag) Q E s)
    (hwaits : ∀ f s, I s → Q (some f) s) (h : I s) (success : Bool) {filled : Filled}
    (hfilled : ∀ call, tag = .write call → ∀ t ∈ filled.next, t.method? = none) :
    wp (doComplete success filled tag) Q E s := by
  cases tag with
  | methodCall service i handle =>
      simp only [doComplete, completeMethodCall]
      cases success with
      | false => exact hnext s h
      | true =>
          cases filled.callPtr with
          | none => exact hidle.assertion h
          | some call =>
              simp only [wp_bind]
              refine wp_mono (wp_callMethod hidle h service i filled.payload) (fun r s₁ h₁ => ?_)
                fun _ _ he => he
              exact wp_orRequestNext hnext hwaits h₁ r
  | reader call =>
      -- A tag that is no method call requests nothing at its end.
      refine wp_mono (wp_completeRead hidle h success filled.recvMsg) (fun r s₁ h₁ => ?_)
        fun _ _ he => he
      cases r with
      | none => exact hnext s₁ h₁
      | some f => exact hwaits f s₁ h₁
  | write call =>
      simp only [doComplete]
      cases hf : filled.next with
      | none => exact hnext s h
      | some t =>
          simp only [wp_bind, wp_pure]
          exact wp_mono (hidle.start t s (hfilled call rfl t hf) h) (fun _ s₁ h₁ => hnext s₁ h₁)
            fun _ _ he => he
  | replier call => exact hnext s h
  | sendStatus call => exact hnext s h

/-- `DoComplete()` goes on. -/
theorem wp_resume {f : Frame} (hidle : Idle I E) (hnext : ∀ s, I s → wp (requestNext f.tag) Q E s)
    (hwaits : ∀ c s, I s → Q (some c) s) (h : I s) (answer : LuaValue) :
    wp (resume f answer) Q E s := by
  have hstart (call : Nat) : wp (resume.startCalled f answer call) Q E s := by
    simp only [resume.startCalled, wp_bind, wp_check]
    split
    · exact wp_mono (wp_startReader hidle h) (fun r _ h₁ => wp_orRequestNext hnext hwaits h₁ r)
        fun _ _ he => he
    · exact hidle.assertion h
  obtain ⟨tag, waiting⟩ := f
  cases waiting with
  | callSimpleMethod index request call => exact hnext s h
  | callS2cStreamingMethod index request call => exact hnext s h
  | callC2sStreamingMethod index call => exact hstart call
  | callBidiStreamingMethod index call => exact hstart call
  | onMsgStr call msg =>
      have hread (status : Status) :
          wp (readNext call status) (fun r s' => wp (orRequestNext tag r) Q E s') E s :=
        wp_mono (wp_readNext hidle h status) (fun r _ h₁ => wp_orRequestNext hnext hwaits h₁ r)
          fun _ _ he => he
      simp only [resume, wp_bind]
      cases answer with
      | nil => exact hread .OK
      | string m => exact hread (.internalError m)
      | other => exact hidle.assertion h
  | onError call status => exact hwaits _ s h
  | onEnd call => exact hnext s h

/-- The programs that make and take no request keep the invariant. -/
theorem idle_inv : Idle (Inv held owed) Stops where
  start _ _ ht h := wp_startTag h ht
  exit _ _ he _ := he

/-- The tag's poll waits, or the tag is deleted. -/
theorem wp_waitOrDelete {r : Option LuaCall} (h : Inv [tag] (owes tag r) s) :
    wp (waitOrDelete tag r) (fun _ => Inv [] []) Stops s := by
  cases r with
  | some f =>
      -- The frame holds the tag now, and owes its request.
      simp only [waitOrDelete, wp_modify]
      have hs : s.started = true := by
        by_contra hs
        exact absurd (h.idle (by simpa using hs)).2 (by simp)
      refine h.move hs ?_ ?_
      all_goals
        refine List.perm_iff_count.mpr fun t => ?_
        simp only [owes, completing, List.map_cons, List.count_append, List.count_cons,
          List.count_nil]
        omega
  | none =>
      simp only [waitOrDelete, deleteTag, wp_modify]
      refine { names := h.names, idle := fun hs => ⟨(h.idle hs).1, rfl⟩, heap := fun hd => ?_,
               requested := h.requested }
      refine List.perm_iff_count.mpr fun t => ?_
      have hc := List.perm_iff_count.mp (h.heap hd) t
      simp only [List.count_append, List.count_erase, List.count_singleton, List.count_nil,
        completing] at hc ⊢
      split at hc <;> rename_i hb <;> simp [hb] <;> omega

end completion

/-! ### Steps -/

/-- The server with the requests of `tags` made. -/
def requesting (s : Server) (tags : List CqTag) : Server :=
  { s with heap := s.heap ++ tags, outstanding := s.outstanding ++ tags }

/-- A service requests a call for each of its methods. -/
theorem wp_requestServiceMethodsCalls (hd : s.shutdown = false) (rs : RegisteredService) :
    wp (requestServiceMethodsCalls rs) (fun _ s' => s' = s.requesting rs.tags) Stops s := by
  unfold requestServiceMethodsCalls RegisteredService.tags
  induction rs.registeredMethods.zipIdx generalizing s with
  | nil => simp [requesting]
  | cons x l ih =>
      obtain ⟨_ | handle, i⟩ := x
      · exact ih hd
      · simp only [List.forM_eq_forM, List.forM_cons, wp_bind, newMethodCall, newTag, submit,
          wp_modify, wp_check]
        split
        · rw [if_pos (by simp [hd])]
          refine wp_mono (ih hd) (fun _ s₁ hs => ?_) fun _ _ he => he
          simp [hs, requesting]
        · exact Exit.noConfusion

/-- Each service does. -/
theorem wp_requestMethodsCalls (hd : s.shutdown = false) :
    wp requestMethodsCalls
      (fun _ s' => s' = s.requesting (s.serviceMap.flatMap RegisteredService.tags)) Stops s := by
  simp only [requestMethodsCalls, wp_bind, wp_get]
  generalize s.serviceMap = l
  induction l generalizing s with
  | nil => simp [requesting]
  | cons rs l ih =>
      simp only [List.forM_eq_forM, List.forM_cons, wp_bind, List.flatMap_cons] at ih ⊢
      refine wp_mono (wp_requestServiceMethodsCalls hd rs) (fun _ s₁ hs => ?_) fun _ _ he => he
      subst hs
      refine wp_mono (ih hd) (fun _ s₂ hs₂ => ?_) fun _ _ he => he
      simp [hs₂, requesting]

/-- These are the requests of all methods. -/
theorem requests_tags :
    requests (s.serviceMap.flatMap RegisteredService.tags) = s.methods := by
  rw [requests, List.filterMap_flatMap, methods]
  simp only [RegisteredService.tags_methods]

/-- The first poll requests every method. -/
theorem Inv.requesting (h : Inv [] [] s) (hs : s.started = false) (hd : s.shutdown = false) :
    Inv [] [] ({ s with started := true }.requesting
      (s.serviceMap.flatMap RegisteredService.tags)) := by
  have hnone := h.requested hd
  rw [wanted, if_neg (by simp [hs])] at hnone
  refine { names := h.names, idle := fun h' => absurd h' (by simp [Server.requesting]),
           heap := fun _ => ?_, requested := fun _ => ?_ }
  · refine List.perm_iff_count.mpr fun t => ?_
    have hc := List.perm_iff_count.mp (h.heap hd) t
    simp only [Server.requesting, completing, List.count_append] at hc ⊢
    omega
  · show (requests (s.outstanding ++ s.serviceMap.flatMap RegisteredService.tags ++
      s.completing ++ [])).Perm s.methods
    simp only [requests_append, requests_tags, List.append_nil] at hnone ⊢
    obtain ⟨ho, hc⟩ := List.append_eq_nil_iff.mp hnone.eq_nil
    rw [ho, hc, List.nil_append, List.append_nil]

/-- A poll finds nothing to do, or it completes a tag that gRPC has taken. -/
theorem wp_poll {Q : Unit → Server → Prop} {E : Exit → Server → Prop} (ev : GrpcEvent) (h : Q () s)
    (hcomplete : ∀ tag success filled, tag ∈ s.outstanding →
      (∀ call, tag = .write call → ∀ t ∈ filled.next, t.method? = none) →
      wp (doComplete success filled tag) (fun r s' => wp (waitOrDelete tag r) Q E s') E
        { s with outstanding := s.outstanding.erase tag }) :
    wp (doTryNextCompletion ev) Q E s := by
  simp only [doTryNextCompletion, tryNext, wp_bind, wp_get, wp_ite]
  split
  case isFalse => exact h
  case isTrue hdel =>
    cases ev with
    | queueShutdown => exact h
    | queueTimeout => exact h
    | opComplete tag success filled =>
        simp only [wp_bind, wp_modify, wp_pure]
        refine hcomplete tag success filled hdel.1 ?_
        rintro call rfl
        exact hdel.2

/-- A completion that is handled, or none, keeps the invariant. -/
theorem wp_doTryNextCompletion (h : Inv [] [] s) (hs : s.started = true) (ev : GrpcEvent) :
    wp (doTryNextCompletion ev) (fun _ => Inv [] []) Stops s := by
  refine wp_poll ev h fun tag success filled hmem hfilled => ?_
  have hheld : Inv [tag] [tag] { s with outstanding := s.outstanding.erase tag } := by
    have hperm : (s.outstanding.erase tag ++ s.completing ++ [tag]).Perm
        (s.outstanding ++ s.completing ++ []) := by
      refine List.perm_iff_count.mpr fun t => ?_
      have hc := List.perm_iff_count.mp (List.perm_cons_erase hmem) t
      simp only [List.count_append, List.count_cons, List.count_nil] at hc ⊢
      omega
    exact h.move hs hperm hperm
  exact wp_mono (wp_doComplete idle_inv (fun _ h₁ => wp_requestNext h₁) (fun _ _ h₁ => h₁) hheld
    success hfilled) (fun r s₁ h₁ => wp_waitOrDelete h₁) fun _ _ he => he

/-- So does `Run()`. -/
theorem wp_run (h : Inv [] [] s) (ev : GrpcEvent) :
    wp (run ev) (fun _ => Inv [] []) Stops s := by
  simp only [run, wp_bind, wp_get, wp_ite, wp_pure, wp_modify]
  split_ifs with hd hs
  · exact h
  · rw [Bool.not_eq_true] at hd
    have hs : s.started = false := by simpa using hs
    refine wp_mono (wp_requestMethodsCalls hd) (fun _ s₁ hs₁ => ?_) fun _ _ he => he
    rw [hs₁]
    exact wp_doTryNextCompletion (h.requesting hs hd) rfl ev
  · exact wp_doTryNextCompletion h (by simpa using hs) ev

/-- So does `RegisterService()`, before the start. -/
theorem wp_registerService (h : Inv [] [] s) (hs : s.started = false) (service : Service)
    (answers : List (Option Handle)) :
    wp (registerService service answers) (fun _ => Inv [] []) Stops s := by
  simp only [registerService, wp_modify]
  refine { names := ?_, idle := h.idle, heap := h.heap, requested := fun hd => ?_ }
  · rw [List.map_append, List.nodup_append']
    refine ⟨h.names.sublist (List.filter_sublist.map _), List.nodup_singleton _, ?_⟩
    intro name hn hname
    obtain ⟨rs, hrs, rfl⟩ := List.mem_map.mp hn
    have hne := (List.mem_filter.mp hrs).2
    simp only [List.map_cons, List.map_nil, List.mem_singleton] at hname
    simp [hname] at hne
  · have hr := h.requested hd
    simp only [wanted, hs] at hr ⊢
    exact hr

/-- A frame goes on. -/
theorem wp_ret (h : Inv [] [] s) (hstack : s.stack ≠ []) (answer : LuaValue) :
    wp (Step.exec (.ret answer)) (fun _ => Inv [] []) Stops s := by
  simp only [Step.exec, wp_bind, wp_get]
  obtain ⟨f, stack, hf⟩ := List.exists_cons_of_ne_nil hstack
  simp only [hf, wp_bind, wp_modify]
  have hs : s.started = true := by
    by_contra hs
    exact hstack (h.idle (by simpa using hs)).1
  have hheld : Inv [f.tag] [f.tag] { s with stack := stack } := by
    have hperm : (s.outstanding ++ stack.map Frame.tag ++ [f.tag]).Perm
        (s.outstanding ++ s.completing ++ []) := by
      refine List.perm_iff_count.mpr fun t => ?_
      simp only [completing, hf, List.map_cons, List.count_append, List.count_cons,
        List.count_nil]
      omega
    exact h.move hs hperm hperm
  exact wp_mono (wp_resume idle_inv (fun _ h₁ => wp_requestNext h₁) (fun _ _ h₁ => h₁) hheld answer)
    (fun r s₁ h₁ => wp_waitOrDelete h₁) fun _ _ he => he

/-- Every step keeps the invariant, but an error raised before the shutdown. -/
theorem step_inv (h : Inv [] [] s) {l : Step} (hl : Step.Enabled s l)
    (hraise : l = .raise → s.shutdown = true) :
    wp l.exec (fun _ => Inv [] []) (Process.Leaves (Inv [] []) fun _ _ => True) s := by
  have hstops {x : M Unit} (hx : wp x (fun _ => Inv [] []) Stops s) :
      wp x (fun _ => Inv [] []) (Process.Leaves (Inv [] []) fun _ _ => True) s :=
    wp_mono hx (fun _ _ h' => h') fun e _ he => by
      cases e with
      | exception => exact absurd rfl he
      | assertion => trivial
      | undefined => trivial
  cases l with
  | registerService service answers => exact hstops (wp_registerService h hl service answers)
  | run ev => exact hstops (wp_run h ev)
  | ret answer => exact hstops (wp_ret h hl answer)
  | raise =>
      have hd := hraise rfl
      simp only [Step.exec, wp_modify]
      exact
        { names := h.names
          idle := fun hs => ⟨by rw [(h.idle hs).1]; rfl, rfl⟩
          heap := fun hd' => absurd (hd.symm.trans hd') (by simp)
          requested := fun hd' => absurd (hd.symm.trans hd') (by simp) }
  | start tag =>
      refine hstops ?_
      simp only [Step.exec, wp_bind, wp_pure]
      exact wp_startTag h hl
  | shutdown =>
      refine hstops ?_
      simp only [Step.exec, shutdownInternal, wp_bind, wp_get, wp_ite, wp_pure, wp_modify]
      split_ifs
      · exact h
      · exact h
      · exact { names := h.names, idle := h.idle, heap := fun hd => absurd hd (by simp),
                requested := fun hd => absurd hd (by simp) }

/-! ### Runs -/

/-- What is asked of the process: of a started server, until its shutdown. -/
def Serving : Process Server → Prop :=
  Process.Holds (fun s => s.started = true → s.shutdown = false → Served s) fun _ _ => True

/-- An error raised before the shutdown leaves a tag that is neither outstanding nor deleted. -/
theorem not_served_of_raise (h : Inv [] [] s) (hstack : s.stack ≠ []) (hd : s.shutdown = false) :
    ¬ Served { s with stack := s.stack.tail } := by
  intro hserved
  have hl := hserved.deleted.length_eq
  have hl' := (h.heap hd).length_eq
  obtain ⟨f, stack, hf⟩ := List.exists_cons_of_ne_nil hstack
  simp only [completing, hf, List.tail_cons, List.map_cons, List.length_append, List.length_cons,
    List.length_nil] at hl hl'
  omega

/-- **Every method stays served.**  In every run, until the shutdown, each method with a handle has
exactly one outstanding tag between polls, and the tags that were taken from the queue are deleted,
exactly if no handler raises an error. -/
theorem served_iff (starts : List Bool) (ls : List Step) (h : Legal (new starts) ls) :
    (∀ pre, pre <+: ls → Serving (after (new starts) pre)) ↔
      Process.Along Step.exec (fun s l => l = .raise → s.shutdown = true) (.running (new starts))
        ls := by
  refine Process.along_iff_next (I := Process.Holds (Inv [] []) fun _ _ => True) ?_ ?_ ?_
    (new_inv starts) h
  · intro c hc
    cases c with
    | running s => exact fun hs hd => Inv.served hc hs hd
    | stopped e s => trivial
  · intro s l hI hl hraise
    exact Process.holds_next (step_inv hI hl hraise)
  · -- The raised error pops its frame, and nobody deletes the frame's tag.
    intro s l hI hl hraise hserving
    obtain ⟨rfl, hd⟩ := Classical.not_imp.mp hraise
    rw [Bool.not_eq_true] at hd
    have hs : s.started = true := by
      by_contra hs
      exact hl (Inv.idle hI (by simpa using hs)).1
    exact not_served_of_raise hI hl hd (hserving hs hd)

/-- A service with a unary and a client streaming method. -/
def greeter : Service := ⟨[1], [⟨[2], false, false⟩, ⟨[3], true, false⟩]⟩

/-- Both methods are called. -/
def bothCalled : List Step :=
  [.registerService greeter [some 0, some 1], .run .queueTimeout,
    .run (.opComplete (.methodCall greeter 0 0) true
      { callPtr := some 0, payload := some ⟨some [7]⟩ }),
    .start (.replier 0), .ret .nil,
    .run (.opComplete (.methodCall greeter 1 1) true { callPtr := some 1 }), .ret .other]

theorem served_iff_bothCalled : Legal (new []) bothCalled ∧
    ∀ pre, pre <+: bothCalled → Serving (after (new []) pre) :=
  ⟨by decide, (served_iff [] bothCalled (by decide)).mpr (by decide)⟩

/-- The unary method's handler raises an error. -/
def raising : List Step :=
  [.registerService greeter [some 0, some 1], .run .queueTimeout,
    .run (.opComplete (.methodCall greeter 0 0) true
      { callPtr := some 0, payload := some ⟨some [7]⟩ }),
    .raise]

/-- The method is not requested again, and its tag is not deleted. -/
theorem not_serving_of_raising : Legal (new []) raising ∧ ¬ Serving (after (new []) raising) := by
  refine ⟨by decide, fun h => ?_⟩
  have hone := (h rfl rfl).one_outstanding rfl ⟨greeter, 0⟩ (by decide)
  exact absurd hone (by decide)

end Server

end GrpcLua
