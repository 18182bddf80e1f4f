import GrpcLua.Server.Requests
import GrpcLua.Support.Traces
import Mathlib.Data.List.Induction

/-!
# Server — Registration

What comes of the services that are registered before the server is run.  Three stores hold them:
the map of services, the handles of their methods, and gRPC's own table, which takes a name once.

A service that is registered under a name takes the place of the one before it in the map, with its
handles; but gRPC has no second handle for a method.  `kept_iff`: every method that was registered
is requested exactly if no service with a handle is replaced.
-/

namespace GrpcLua
open Prog Trace

/-- `GetMethodName()` of the method. -/
def Method.requestName? (m : Method) : Option Bytes :=
  m.service.methods[m.index]?.map MethodInfo.requestName

/-- How many of the methods have the name. -/
def named (name : Bytes) (ms : List Method) : Nat := ms.countP fun m => m.requestName? = some name

@[simp] theorem named_append (name : Bytes) (ms ms' : List Method) :
    named name (ms ++ ms') = named name ms + named name ms' := List.countP_append

/-- How many handles gRPC has returned for the name. -/
def taken (name : Bytes) (rs : List Registration) : Nat :=
  rs.countP fun r => r.handle.isSome && r.name == name

@[simp] theorem taken_append (name : Bytes) (rs rs' : List Registration) :
    taken name (rs ++ rs') = taken name rs + taken name rs' := List.countP_append

/-- `grpc_server_register_method()` has returned null for the names that were registered already,
and for no others. -/
def Answered (registrations : List Registration) : Prop :=
  Whenever (fun pre r => r.handle = none ↔ r.name ∈ pre.map Registration.name) registrations

instance (registrations : List Registration) : Decidable (Answered registrations) :=
  inferInstanceAs (Decidable (Whenever _ _))

/-- A name has one handle from the time on that it is registered. -/
theorem Answered.taken_eq {rs : List Registration} (h : Answered rs) (name : Bytes) :
    taken name rs = if name ∈ rs.map Registration.name then 1 else 0 := by
  induction rs using List.reverseRecOn with
  | nil => rfl
  | append_singleton rs r ih =>
      obtain ⟨h, hr⟩ := (whenever_concat r).mp h
      rw [taken_append, ih h, List.map_append, List.map_singleton]
      simp only [List.mem_append, List.mem_singleton]
      by_cases hname : name = r.name
      · subst hname
        by_cases hmem : r.name ∈ rs.map Registration.name
        · have hnone := hr.mpr hmem
          rw [if_pos hmem, if_pos (.inl hmem)]
          simp [taken, hnone]
        · obtain ⟨handle, hsome⟩ := Option.ne_none_iff_exists'.mp fun hnone => hmem (hr.mp hnone)
          rw [if_neg hmem, if_pos (.inr rfl)]
          simp [taken, hsome]
      · have hne : taken name [r] = 0 := by simp [taken, Ne.symm hname]
        rw [hne]
        simp [hname]

namespace Server
variable {s : Server}

/-! ### One service -/

section service
variable (service : Service) (answers : List (Option Handle))

/-- The entry of the map that `RegisterService()` makes. -/
def entry : RegisteredService :=
  ⟨service, (registrationsOf service answers).map Registration.handle⟩

/-- The methods of the entry, from the `k`-th on. -/
theorem named_from (name : Bytes) (ms : List MethodInfo) (k : Nat)
    (hms : ∀ j : Nat, ms[j]? = service.methods[k + j]?) :
    named name ((((ms.zipIdx k).map fun (_, i) => answers.getD i none).zipIdx k).filterMap
        fun (handle, i) => handle.map fun _ => ⟨service, i⟩) =
      taken name ((ms.zipIdx k).map fun (mi, i) =>
        ⟨mi.requestName, mi.payloadHandling, answers.getD i none⟩) := by
  induction ms generalizing k with
  | nil => rfl
  | cons mi ms ih =>
      have hfirst : service.methods[k]? = some mi := (hms 0).symm
      have hrest := ih (k + 1) fun j => by
        rw [Nat.add_right_comm, Nat.add_assoc]
        exact hms (j + 1)
      simp only [List.zipIdx_cons, List.map_cons]
      cases ha : answers.getD k none with
      | none =>
          have htaken : ∀ rs, taken name (⟨mi.requestName, mi.payloadHandling, none⟩ :: rs) =
              taken name rs := fun rs => List.countP_cons_of_neg (by simp)
          rw [List.filterMap_cons_none rfl, htaken, hrest]
      | some handle =>
          have htaken : ∀ rs, taken name (⟨mi.requestName, mi.payloadHandling, some handle⟩ :: rs) =
              taken name rs + if mi.requestName = name then 1 else 0 := by
            intro rs
            rw [taken, List.countP_cons]
            simp [taken]
          have hnamed : ∀ ms, named name (⟨service, k⟩ :: ms) =
              named name ms + if mi.requestName = name then 1 else 0 := by
            intro ms
            rw [named, List.countP_cons]
            simp [named, Method.requestName?, hfirst]
          simp only [List.filterMap_cons, Option.map_some]
          rw [htaken, hnamed, hrest]

/-- The methods of an entry are those that gRPC has taken. -/
theorem named_entry (name : Bytes) :
    named name (entry service answers).methods = taken name (registrationsOf service answers) := by
  have h := named_from service answers name service.methods 0 fun j => by rw [Nat.zero_add]
  rw [registrationsOf, ← h, RegisteredService.methods, entry, registrationsOf, List.map_map]
  rfl

/-- Every method of an entry has a name to request calls by. -/
theorem entry_requestName {m : Method} (hm : m ∈ (entry service answers).methods) :
    m.requestName?.isSome := by
  obtain ⟨⟨handle, i⟩, hmem, hm⟩ := List.mem_filterMap.mp hm
  obtain ⟨_, -, rfl⟩ := Option.map_eq_some_iff.mp hm
  have hlt : i < service.methods.length := by
    simpa [entry, registrationsOf] using (List.mem_zipIdx hmem).2.1
  show (service.methods[i]?.map MethodInfo.requestName).isSome
  simp [hlt]

end service

/-! ### The map of services -/

/-- The methods with a handle that the step takes from the map. -/
def forgotten (s : Server) : Step → List Method
  | .registerService service _ =>
      (s.serviceMap.filter fun rs => rs.service.fullName = service.fullName).flatMap
        RegisteredService.methods
  | _ => []

/-- The step registers a service in the place of one that has a handle. -/
def Replaces (s : Server) (l : Step) : Prop := s.forgotten l ≠ []

instance (s : Server) (l : Step) : Decidable (Replaces s l) :=
  inferInstanceAs (Decidable (_ ≠ _))

/-- The methods of a map are counted in two parts. -/
theorem named_flatMap (name : Bytes) (p : RegisteredService → Prop) [DecidablePred p]
    (map : List RegisteredService) :
    named name (map.flatMap RegisteredService.methods) =
      named name ((map.filter fun rs => ¬ p rs).flatMap RegisteredService.methods) +
        named name ((map.filter fun rs => p rs).flatMap RegisteredService.methods) := by
  induction map with
  | nil => rfl
  | cons rs map ih =>
      by_cases hp : p rs
      · simp [hp, ih]
        omega
      · simp [hp, ih]
        omega

/-- A service that is kept keeps its methods. -/
theorem mem_methods_of_filter {p : RegisteredService → Bool} {m : Method}
    (hm : m ∈ (s.serviceMap.filter p).flatMap RegisteredService.methods) : m ∈ s.methods := by
  obtain ⟨rs, hrs, hm⟩ := List.mem_flatMap.mp hm
  exact List.mem_flatMap.mpr ⟨rs, (List.mem_filter.mp hrs).1, hm⟩

/-- The server with the service registered. -/
def registered (s : Server) (service : Service) (answers : List (Option Handle)) : Server :=
  { s with
    serviceMap := s.serviceMap.filter (fun r => r.service.fullName ≠ service.fullName) ++
      [entry service answers]
    registrations := s.registrations ++ registrationsOf service answers }

/-- A registration replaces the entry of its full name. -/
theorem methods_registered (service : Service) (answers : List (Option Handle)) :
    (s.registered service answers).methods =
      (s.serviceMap.filter fun rs => rs.service.fullName ≠ service.fullName).flatMap
        RegisteredService.methods ++ (entry service answers).methods := by
  rw [methods, registered, List.flatMap_append, List.flatMap_singleton]

/-- What is registered replaces what is forgotten. -/
theorem named_registered (service : Service) (answers : List (Option Handle)) (name : Bytes) :
    named name (s.registered service answers).methods +
        named name (s.forgotten (.registerService service answers)) =
      named name s.methods + taken name (registrationsOf service answers) := by
  have hmap : named name s.methods = _ :=
    named_flatMap name (fun rs => rs.service.fullName = service.fullName) s.serviceMap
  rw [methods_registered, named_append, named_entry, hmap, forgotten]
  simp only [ne_eq]
  omega

/-! ### Polls -/

/-- The program registers nothing, and neither starts the server nor shuts it down. -/
abbrev Keeps {α : Type} (x : M α) : Prop :=
  Spares (fun s : Server => (s.serviceMap, s.registrations, s.started, s.shutdown)) x

section polls
variable {call : Nat} {tag : CqTag}

theorem newTag_keeps : Keeps (newTag tag) := .modify fun _ => rfl

theorem submit_keeps : Keeps (submit tag) := .modify fun _ => rfl

theorem deleteTag_keeps : Keeps (deleteTag tag) := .modify fun _ => rfl

/-- A new call of a method registers nothing. -/
theorem newMethodCall_keeps {service : Service} {i : Nat} {handle : Handle} :
    Keeps (newMethodCall service i handle) :=
  .bind newTag_keeps fun _ => .bind .check fun _ => .bind .check fun _ => submit_keeps

theorem startTag_keeps : Keeps (startTag tag) :=
  .bind newTag_keeps fun _ => .bind .get fun _ => .bind (.modify fun _ => rfl) fun _ =>
    .ite (.bind submit_keeps fun _ => .pure) (.bind deleteTag_keeps fun _ => .pure)

/-- Nor does the next request. -/
theorem requestNext_keeps : Keeps (requestNext tag) := by
  cases tag with
  | methodCall service i handle => exact .bind newMethodCall_keeps fun _ => .pure
  | _ => exact .bind .pure fun _ => .pure

/-- What `DoComplete()` does with the calls keeps all that. -/
theorem idle_keeps (s : Server) :
    Idle (fun s' => (s'.serviceMap, s'.registrations, s'.started, s'.shutdown) =
        (s.serviceMap, s.registrations, s.started, s.shutdown))
      (fun _ s' => (s'.serviceMap, s'.registrations, s'.started, s'.shutdown) =
        (s.serviceMap, s.registrations, s.started, s.shutdown)) where
  start _ _ _ h := startTag_keeps.wp (fun _ _ h' => h'.trans h) fun _ _ h' => h'.trans h
  exit _ _ _ h := h

/-- Nor does a completion. -/
theorem doTryNextCompletion_keeps (ev : GrpcEvent) : Keeps (doTryNextCompletion ev) := by
  intro s
  refine wp_poll ev rfl fun tag success filled _ hfilled => ?_
  have hwait : ∀ r, Keeps (waitOrDelete tag r) := by
    intro r
    cases r with
    | none => exact deleteTag_keeps
    | some f => exact .modify fun _ => rfl
  refine wp_doComplete (idle_keeps s) ?_ ?_ (by exact rfl) success hfilled
  · intro s₁ h₁
    refine requestNext_keeps.wp (fun r s₂ h₂ => ?_) fun _ _ h₂ => h₂.trans h₁
    exact (hwait r).wp (fun _ _ h₃ => h₃.trans (h₂.trans h₁))
      fun _ _ h₃ => h₃.trans (h₂.trans h₁)
  · exact fun f s₁ h₁ => (hwait (some f)).wp (fun _ _ h₂ => h₂.trans h₁)
      fun _ _ h₂ => h₂.trans h₁

/-- The first poll: every method of the map has its tag, outstanding or in a handler's hands. -/
theorem wp_firstRun (h : Inv [] [] s) (hs : s.started = false) (hd : s.shutdown = false)
    (ev : GrpcEvent) :
    wp (run ev) (fun _ s' => s'.registrations = s.registrations ∧
      s'.serviceMap = s.serviceMap ∧ (requests (s'.outstanding ++ s'.completing)).Perm s.methods)
      Stops s := by
  simp only [run, wp_bind, wp_get, wp_ite, wp_pure, wp_modify]
  rw [if_neg (by simp [hd]), if_pos (by simp [hs])]
  refine wp_mono (wp_requestMethodsCalls hd) (fun _ s₁ hs₁ => ?_) fun _ _ he => he
  rw [hs₁]
  refine wp_mono (wp_and (wp_doTryNextCompletion (h.requesting hs hd) rfl ev)
    (doTryNextCompletion_keeps ev _)) ?_ fun _ _ he => he.1
  rintro _ s' ⟨hinv, hkeeps⟩
  obtain ⟨hmap, hregs, hstarted, hshutdown⟩ :
      s'.serviceMap = s.serviceMap ∧ s'.registrations = s.registrations ∧ s'.started = true ∧
        s'.shutdown = s.shutdown := by simpa [Server.requesting] using hkeeps
  have hperm := hinv.requested (hshutdown.trans hd)
  rw [List.append_nil, wanted, if_pos hstarted, methods, hmap] at hperm
  exact ⟨hregs, hmap, hperm⟩

end polls

/-! ### Registering -/

/-- The step registers a service, and gRPC answers as it documents. -/
def Registers (s : Server) : Step → Prop
  | .registerService service answers =>
      Answered (s.registrations ++ registrationsOf service answers)
  | _ => False

instance Registers.decidable (s : Server) : (l : Step) → Decidable (Registers s l)
  | .registerService service answers =>
      inferInstanceAs (Decidable (Answered (s.registrations ++ registrationsOf service answers)))
  | .run _ | .ret _ | .raise | .start _ | .shutdown => inferInstanceAs (Decidable False)

/-- A server that has not been run.  No more methods of a name are in the map than were given a
handle. -/
structure Registering (s : Server) : Prop where
  inv : Inv [] [] s
  started : s.started = false
  shutdown : s.shutdown = false
  answered : Answered s.registrations
  names : ∀ m ∈ s.methods, m.requestName?.isSome
  le : ∀ name, named name s.methods ≤ taken name s.registrations

/-- Nothing is registered at first. -/
theorem Registering.new (starts : List Bool) : Registering (new starts) where
  inv := new_inv starts
  started := rfl
  shutdown := rfl
  answered := whenever_nil
  names := nofun
  le _ := Nat.le_refl 0

/-- A step registers as many methods of a name as it is given handles, and forgets others. -/
theorem registers_spec (h : Registering s) {l : Step} (hl : Registers s l) :
    wp l.exec (fun _ s' => Registering s' ∧ ∀ name,
      named name s'.methods + named name (s.forgotten l) + taken name s.registrations =
        named name s.methods + taken name s'.registrations) (fun _ _ => False) s := by
  cases l with
  | registerService service answers =>
      have hcount : ∀ name, named name (s.registered service answers).methods +
          named name (s.forgotten (.registerService service answers)) +
            taken name s.registrations = named name s.methods +
              taken name (s.registered service answers).registrations := by
        intro name
        rw [named_registered, registered, taken_append]
        omega
      refine ⟨{ inv := wp_registerService h.inv h.started service answers
                started := h.started
                shutdown := h.shutdown
                answered := hl
                names := ?_
                le := fun name => ?_ }, hcount⟩
      · intro m hm
        replace hm : m ∈ (s.registered service answers).methods := hm
        rw [methods_registered] at hm
        rcases List.mem_append.mp hm with hm | hm
        · exact h.names m (mem_methods_of_filter hm)
        · exact entry_requestName service answers hm
      · have hle := h.le name
        have hc := hcount name
        show named name (s.registered service answers).methods ≤
          taken name (s.registered service answers).registrations
        omega
  | run ev => exact hl.elim
  | ret answer => exact hl.elim
  | raise => exact hl.elim
  | start tag => exact hl.elim
  | shutdown => exact hl.elim

/-- A method that is forgotten has a name. -/
theorem Registering.forgotten_pos (h : Registering s) {l : Step} (hl : Replaces s l) :
    ∃ name, 0 < named name (s.forgotten l) := by
  obtain ⟨m, hm⟩ := List.exists_mem_of_ne_nil _ hl
  have hmem : m ∈ s.methods := by
    cases l with
    | registerService service answers =>
        exact mem_methods_of_filter hm
    | _ => cases hm
  obtain ⟨name, hname⟩ := Option.isSome_iff_exists.mp (h.names m hmem)
  exact ⟨name, List.countP_pos_iff.mpr ⟨m, hm, by simpa using hname⟩⟩

/-- So long as no service with a handle is replaced the map has all the methods that were given a
handle, and from then on it lacks one. -/
theorem along_replaces {starts : List Bool} {ls : List Step}
    (hls : Process.Along Step.exec Registers (.running (new starts)) ls) :
    Process.Along Step.exec (fun s l => ¬ Replaces s l) (.running (new starts)) ls ∧
        Process.Holds (fun s => Registering s ∧
          ∀ name, named name s.methods = taken name s.registrations) (fun _ _ => False)
          (after (new starts) ls) ∨
      ¬ Process.Along Step.exec (fun s l => ¬ Replaces s l) (.running (new starts)) ls ∧
        Process.Holds (fun s => Registering s ∧
          ∃ name, named name s.methods < taken name s.registrations) (fun _ _ => False)
          (after (new starts) ls) := by
  have hstep : ∀ s l, Registering s → Registers s l → ∀ {k : Server → Prop},
      (∀ s', (∀ name, named name s'.methods + named name (s.forgotten l) +
        taken name s.registrations = named name s.methods + taken name s'.registrations) → k s') →
      wp l.exec (fun _ s' => Registering s' ∧ k s')
        (Process.Leaves (fun s' => Registering s' ∧ k s') fun _ _ => False) s :=
    fun s l h hl _ hk => wp_mono (registers_spec h hl) (fun _ s' hs' => ⟨hs'.1, hk s' hs'.2⟩)
      fun _ _ => False.elim
  refine Process.along_or (fun s l h hl hP => hstep s l h.1 hl fun s' hs' name => ?_)
    (fun s l h hl hP => hstep s l h.1 hl fun s' hs' => ?_)
    (fun s l h hl => hstep s l h.1 hl fun s' hs' => ?_)
    (show Process.Holds _ _ (.running (new starts)) from ⟨.new starts, fun _ => rfl⟩) hls
  · have hnone : named name (s.forgotten l) = 0 := by
      rw [not_not.mp hP]
      rfl
    have := hs' name
    have := h.2 name
    omega
  · obtain ⟨name, hpos⟩ := h.1.forgotten_pos (not_not.mp hP)
    have := hs' name
    have := h.2 name
    exact ⟨name, by omega⟩
  · obtain ⟨name, hlt⟩ := h.2
    have := hs' name
    exact ⟨name, by omega⟩

/-- What the first poll leaves, if it returns. -/
theorem Registering.firstRun (h : Registering s) {ev : GrpcEvent} {s' : Server}
    (hs : Process.next Step.exec (.running s) (.run ev) = .running s') :
    s'.registrations = s.registrations ∧
      (requests (s'.outstanding ++ s'.completing)).Perm s.methods := by
  have hrun : wp (Step.exec (.run ev))
      (fun _ s' => s'.registrations = s.registrations ∧ s'.serviceMap = s.serviceMap ∧
        (requests (s'.outstanding ++ s'.completing)).Perm s.methods) Stops s :=
    wp_firstRun h.inv h.started h.shutdown ev
  have hnext := Process.holds_next (J := fun _ _ => True)
    (wp_mono hrun (fun _ _ h' => h') fun e _ he => by
      cases e with
      | exception => exact absurd rfl he
      | _ => trivial)
  rw [hs] at hnext
  exact ⟨hnext.1, hnext.2.2⟩

/-! ### The latest service -/

/-- The service that the steps registered last under the name. -/
def latest (ls : List Step) (fullName : Bytes) : Option Service :=
  ls.reverse.findSome? fun
    | .registerService service _ => if service.fullName = fullName then some service else none
    | _ => none

/-- The last registration of a full name counts. -/
theorem latest_concat (ls : List Step) (service : Service) (answers : List (Option Handle))
    (fullName : Bytes) :
    latest (ls ++ [.registerService service answers]) fullName =
      if service.fullName = fullName then some service else latest ls fullName := by
  rw [latest, List.reverse_append, List.reverse_singleton, List.singleton_append,
    List.findSome?_cons]
  by_cases h : service.fullName = fullName
  · simp [h]
  · simp [h, latest]

/-- The services of the map are the latest ones. -/
theorem serviceMap_latest {starts : List Bool} {ls : List Step}
    (hls : Process.Along Step.exec Registers (.running (new starts)) ls) :
    ∃ s, after (new starts) ls = .running s ∧
      ∀ rs ∈ s.serviceMap, latest ls rs.service.fullName = some rs.service := by
  refine Process.history (I := fun ls s =>
    ∀ rs ∈ s.serviceMap, latest ls rs.service.fullName = some rs.service) nofun ?_ hls
  intro pre s l _ h hl
  cases l with
  | registerService service answers =>
      show ∀ rs ∈ (s.registered service answers).serviceMap, _
      intro rs hrs
      rw [latest_concat]
      rcases List.mem_append.mp hrs with hrs | hrs
      · obtain ⟨hrs, hne⟩ := List.mem_filter.mp hrs
        rw [if_neg (by simpa using Ne.symm (by simpa using hne))]
        exact h rs hrs
      · rw [List.mem_singleton.mp hrs]
        exact if_pos rfl
  | run ev => exact hl.elim
  | ret answer => exact hl.elim
  | raise => exact hl.elim
  | start tag => exact hl.elim
  | shutdown => exact hl.elim

/-! ### The first poll -/

/-- Every name that was registered with gRPC has one tag, outstanding or in the hands of a handler
that the poll has called; and the tag is of the service that was registered last under its name. -/
def Requested (ls : List Step) (s : Server) : Prop :=
  ∀ name ∈ s.registrations.map Registration.name, ∃ m,
    (requests (s.outstanding ++ s.completing)).filter (fun m => m.requestName? = some name) = [m] ∧
      latest ls m.service.fullName = some m.service

/-- **Registration.**  Services are registered, under any names, and then the server is run for the
first time.  Every method name that was registered has its one tag, of the latest service, exactly
if no registration took the place of a service with a handle. -/
theorem kept_iff (starts : List Bool) (ls : List Step) (ev : GrpcEvent) (s : Server)
    (hls : Process.Along Step.exec Registers (.running (new starts)) ls)
    (hs : after (new starts) (ls ++ [.run ev]) = .running s) :
    Requested ls s ↔
      Process.Along Step.exec (fun s l => ¬ Replaces s l) (.running (new starts)) ls := by
  obtain ⟨s₀, hs₀, hlatest⟩ := serviceMap_latest hls
  rw [after, Process.after_append, show Process.after Step.exec _ ls = _ from hs₀,
    Process.after_cons, Process.after_nil] at hs
  have hcases := along_replaces hls
  rw [hs₀] at hcases
  have h : Registering s₀ := hcases.elim (fun h => h.2.1) fun h => h.2.1
  -- The first poll makes the requests for the methods of the map.
  obtain ⟨hregs, hperm⟩ := h.firstRun hs
  have hone : ∀ name ∈ s₀.registrations.map Registration.name, taken name s₀.registrations = 1 :=
    fun name hname => (h.answered.taken_eq name).trans (if_pos hname)
  have hlength : ∀ name, ((requests (s.outstanding ++ s.completing)).filter
      fun m => m.requestName? = some name).length = named name s₀.methods := by
    intro name
    rw [← List.countP_eq_length_filter, hperm.countP_eq]
    rfl
  rcases hcases with ⟨halong, -, hall⟩ | ⟨halong, -, name, hlt⟩
  · refine iff_of_true (fun name hname => ?_) halong
    rw [hregs] at hname
    obtain ⟨m, hm⟩ := List.length_eq_one_iff.mp
      ((hlength name).trans ((hall name).trans (hone name hname)))
    refine ⟨m, hm, ?_⟩
    have hmem : m ∈ s₀.methods := hperm.mem_iff.mp
      (List.mem_of_mem_filter (hm ▸ List.mem_singleton_self m))
    obtain ⟨rs, hrs, hm⟩ := List.mem_flatMap.mp hmem
    rw [RegisteredService.mem_methods hm]
    exact hlatest rs hrs
  · refine iff_of_false (fun hrequested => ?_) halong
    -- The name has a handle, and no method of the map has it.
    have hname : name ∈ s₀.registrations.map Registration.name := by
      by_contra hnot
      rw [h.answered.taken_eq name, if_neg hnot] at hlt
      exact absurd hlt (Nat.not_lt_zero _)
    obtain ⟨m, hm, -⟩ := hrequested name (hregs ▸ hname)
    have hlen := hlength name
    rw [hm, List.length_singleton] at hlen
    rw [hone name hname] at hlt
    omega

/-- Two services of different names; one method of the second is registered by the first. -/
theorem kept_iff_twoServices :
    let ls : List Step := [.registerService greeter [some 0, some 1],
      .registerService ⟨[4], [⟨[2], false, false⟩, ⟨[5], false, true⟩]⟩ [none, some 2]]
    Requested ls (after (new []) (ls ++ [.run .queueTimeout])).state ↔
      Process.Along Step.exec (fun s l => ¬ Replaces s l) (.running (new [])) ls :=
  kept_iff [] _ .queueTimeout _ (by decide) rfl

/-- The greeter is registered twice: its methods have no tag. -/
theorem not_kept :
    let ls : List Step :=
      [.registerService greeter [some 0, some 1], .registerService greeter [none, none]]
    Process.Along Step.exec Registers (.running (new [])) ls ∧
      ∃ s, after (new []) (ls ++ [.run .queueTimeout]) = .running s ∧ s.outstanding = [] ∧
        ¬ Requested ls s := by
  refine ⟨by decide, _, rfl, rfl, fun h => ?_⟩
  obtain ⟨m, hm, -⟩ := h [2] (by decide)
  cases hm

end Server

end GrpcLua
