import GrpcLua.Support.Handles

/-!
# Core — LifeCycles

The threads of `ServiceStub` and of `Server`, from construction to destruction.  Both allocate a
`pthread_t` in the constructor, and both destructors join the thread and delete the handle, whether
a thread was created or not.  A `ServiceStub` creates its thread in `SetStatusChangeCb`;
`Server::Run` creates none.

The operations are those of one thread of the program, one after another: a join that waits for ever
is the last of them.  The thread of a stub watches the channel, and while a watch does not return
the thread does not look at `start_`.  Whether it returns is up to the channel and the deadline of
the watch: `Shutdown` shuts down the queue of the stub, and the watch has a queue of its own.
-/

namespace GrpcLua
open Prog Handles

/-! ### ServiceStub -/

namespace StubLife

/-- The fields of a `ServiceStub` that its thread depends on. -/
structure Stub where
  start : Bool
  pID : Nat
  deriving DecidableEq, Repr

/-- `ServiceStub::ThreadRun` goes on while `start_`, which it looks at between two watches. -/
instance : Owner Stub where
  handle := Stub.pID
  goesOn := Stub.start

/-- `ServiceStub::ServiceStub(channel_sptr, cq4n_sptr)` -/
def construct : M Stub Unit := do
  let pID ← newHandle
  addObject { start := false, pID }

/-- The implicit copy constructor. -/
def copy (i : Nat) : M Stub Unit := do
  addObject (← object i)

/-- The implicit copy assignment, of the stub `j` to the stub `i`. -/
def assign (i j : Nat) : M Stub Unit := do
  let _ ← object i
  setObject i (← object j)

/-- `SetStatusChangeCb`, which does not look at whether `pthread_create` has `created` a thread. -/
def setStatusChangeCb (i : Nat) (created : Bool) : M Stub Unit := do
  let stub ← object i
  if stub.start then pure () else
    setObject i { stub with start := true }
    pthreadCreate stub.pID i created

def shutdown (i : Nat) : M Stub Unit := do
  let stub ← object i
  setObject i { stub with start := false }

/-- `ServiceStub::~ServiceStub`; `watchReturns` says whether the thread comes back from the
`WaitForStateChangeImpl` that it may be in. -/
def destroy (i : Nat) (watchReturns : Bool) : M Stub Unit := do
  let stub ← object i
  -- `m_pID` is never null.
  joinAndDelete i stub.pID watchReturns

inductive Step where
  | construct
  | copy (i : Nat)
  | assign (i j : Nat)
  | setStatusChangeCb (i : Nat) (created : Bool)
  | shutdown (i : Nat)
  | destroy (i : Nat) (watchReturns : Bool)
  deriving DecidableEq, Repr

/-- The stubs a step is on. -/
def Step.stubs : Step → List Nat
  | .construct => []
  | .copy i | .setStatusChangeCb i _ | .shutdown i | .destroy i _ => [i]
  | .assign i j => [i, j]

def exec : Step → M Stub Unit
  | .construct => construct
  | .copy i => copy i
  | .assign i j => assign i j
  | .setStatusChangeCb i created => setStatusChangeCb i created
  | .shutdown i => shutdown i
  | .destroy i watchReturns => destroy i watchReturns

/-- No stub is copied; a thread is created only where the handle names none; and a stub is destroyed
only where it names one, after `Shutdown`, and where the watch of the thread returns. -/
def Orderly (s : Store Stub) : Step → Prop
  | .construct | .shutdown _ => True
  | .copy _ => False
  | .assign i j => i = j
  | .setStatusChangeCb i _ => ∀ stub ∈ object? s i, stub.start = false → names s stub.pID = none
  | .destroy i watchReturns =>
      watchReturns = true ∧ ∀ stub ∈ object? s i, stub.start = false ∧ names s stub.pID ≠ none

instance (s : Store Stub) : ∀ l, Decidable (Orderly s l)
  | .construct | .shutdown _ => isTrue trivial
  | .copy _ => isFalse id
  | .assign i j => inferInstanceAs (Decidable (i = j))
  | .setStatusChangeCb i _ =>
      inferInstanceAs (Decidable (∀ stub ∈ object? s i, stub.start = false → _))
  | .destroy i watchReturns => inferInstanceAs
      (Decidable (watchReturns = true ∧ ∀ stub ∈ object? s i, stub.start = false ∧ _))

variable {s : Store Stub} {i j : Nat} {stub : Stub} {Q : Unit → Store Stub → Prop}
  {E : Exit → Store Stub → Prop}

/-! #### What a step does -/

theorem wp_copy (hi : Live s i stub)
    (hQ : Q () { s with objects := s.objects ++ [some stub] }) : wp (copy i) Q E s := by
  rw [copy, wp_bind]
  exact hi.wp_object hQ

theorem wp_assign {stub' : Stub} (hi : Live s i stub) (hj : Live s j stub')
    (hQ : Q () { s with objects := s.objects.set i (some stub') }) : wp (assign i j) Q E s := by
  rw [assign, wp_bind]
  refine hi.wp_object ?_
  rw [wp_bind]
  exact hj.wp_object hQ

theorem wp_setStatusChangeCb (hi : Live s i stub) {created : Bool}
    (hskip : stub.start = true → Q () s)
    (hQ : stub.start = false → wp (pthreadCreate stub.pID i created) Q E
      { s with objects := s.objects.set i (some { stub with start := true }) }) :
    wp (setStatusChangeCb i created) Q E s := by
  rw [setStatusChangeCb, wp_bind]
  refine hi.wp_object ?_
  rw [wp_ite]
  split
  · rename_i hstart
    exact hskip hstart
  · rename_i hstart
    exact hQ (Bool.not_eq_true _ ▸ hstart)

theorem wp_shutdown (hi : Live s i stub)
    (hQ : Q () { s with objects := s.objects.set i (some { stub with start := false }) }) :
    wp (shutdown i) Q E s := by
  rw [shutdown, wp_bind]
  exact hi.wp_object hQ

theorem wp_destroy {watchReturns : Bool} (hi : Live s i stub)
    (hQ : wp (joinAndDelete i stub.pID watchReturns) Q E s) :
    wp (destroy i watchReturns) Q E s := by
  rw [destroy, wp_bind]
  exact hi.wp_object hQ

/-- An orderly step keeps each stub its own handle. -/
theorem owned_step {l : Step} (h : Owned s) (hl : Enabled s l.stubs) (hok : Orderly s l) :
    wp (exec l) (fun _ => Owned) (fun _ _ => False) s := by
  cases l with
  | construct => exact h.constructed rfl
  | copy i => exact hok.elim
  | assign i j =>
      obtain ⟨stub, hi⟩ := hl.live
      obtain rfl : i = j := hok
      exact wp_assign hi hi (h.changed hi rfl)
  | setStatusChangeCb i created =>
      obtain ⟨stub, hi⟩ := hl.live
      refine wp_setStatusChangeCb hi (fun _ => h) fun hstart => ?_
      have hown : Owned { s with objects := s.objects.set i (some { stub with start := true }) } :=
        h.changed hi rfl
      refine wp_pthreadCreate (fun _ _ => ?_) fun hn => ?_
      · exact hown.created hi.set (hok stub (live_iff.mp hi) hstart) created
      · obtain ⟨hd, hopen⟩ := h.valid i stub hi
        exact hn hd hopen
  | shutdown i =>
      obtain ⟨stub, hi⟩ := hl.live
      exact wp_shutdown hi (h.changed hi rfl)
  | destroy i watchReturns =>
      obtain ⟨stub, hi⟩ := hl.live
      obtain ⟨rfl, hnone⟩ := hok
      obtain ⟨hstart, hnames⟩ := hnone stub (live_iff.mp hi)
      refine wp_destroy hi (wp_mono (h.wp_joinAndDelete hi true) (fun _ s' hs => ?_)
        fun _ _ he => ?_)
      · have hgoes : goesOn stub = false := hstart
        rw [hgoes] at hs
        exact hs.2
      · exact hnames he.1

/-- Any other step spoils something. -/
theorem spoiled_step {l : Step} (h : Owned s) (hl : Enabled s l.stubs) (hok : ¬ Orderly s l) :
    wp (exec l) (fun _ => Spoiled) (fun e _ => e = .undefined) s := by
  cases l with
  | construct => exact absurd trivial hok
  | copy i =>
      obtain ⟨stub, hi⟩ := hl.live
      exact wp_copy hi (spoiled_copied hi rfl)
  | assign i j =>
      obtain ⟨stub, hi⟩ := hl.live
      obtain ⟨stub', hj⟩ := hl.tail.live
      exact wp_assign hi hj (spoiled_repointed hi hj hok rfl)
  | setStatusChangeCb i created =>
      obtain ⟨stub, hi⟩ := hl.live
      obtain ⟨hstart, t, ht⟩ : stub.start = false ∧ ∃ t, names s stub.pID = some t := by
        by_contra hno
        refine hok fun stub' hstub' hstart => ?_
        obtain rfl := hi.unique (live_iff.mpr hstub')
        by_contra hne
        exact hno ⟨hstart, Option.ne_none_iff_exists'.mp hne⟩
      refine wp_setStatusChangeCb hi (fun hon => ?_) fun _ => ?_
      · rw [hstart] at hon
        cases hon
      · -- The thread that the handle names is overwritten, and nobody joins it any more.
        have hown : Owned
            { s with objects := s.objects.set i (some { stub with start := true }) } :=
          h.changed hi rfl
        exact wp_pthreadCreate (fun _ _ => hown.overwritten hi.set ht i created) fun _ => rfl
  | shutdown i => exact absurd trivial hok
  | destroy i watchReturns =>
      obtain ⟨stub, hi⟩ := hl.live
      refine wp_destroy hi (wp_mono (h.wp_joinAndDelete hi watchReturns) (fun _ s' hs => ?_)
        fun _ _ he => he.2)
      obtain ⟨hnames, hs⟩ := hs
      cases hwaits : goesOn stub || !watchReturns with
      | true =>
          -- The thread was not told to end, or does not look, and the join waits for it.
          rw [hwaits] at hs
          exact hs
      | false =>
          obtain ⟨hstart, hreturns⟩ := Bool.or_eq_false_iff.mp hwaits
          refine absurd ⟨by simpa using hreturns, fun stub' hstub' => ?_⟩ hok
          obtain rfl := hi.unique (live_iff.mpr hstub')
          exact ⟨hstart, hnames⟩

/-- No step makes good what is spoiled. -/
theorem lost_step {l : Step} (h : Spoiled s) (hl : Enabled s l.stubs) :
    wp (exec l) (fun _ => Spoiled) (fun e _ => e = .undefined) s := by
  cases l with
  | construct => exact h.constructed rfl
  | copy i =>
      obtain ⟨stub, hi⟩ := hl.live
      exact wp_copy hi (spoiled_copied hi rfl)
  | assign i j =>
      obtain ⟨stub, hi⟩ := hl.live
      obtain ⟨stub', hj⟩ := hl.tail.live
      refine wp_assign hi hj ?_
      by_cases hij : i = j
      · subst hij
        obtain rfl := hi.unique hj
        exact h.changed hi rfl
      · exact spoiled_repointed hi hj hij rfl
  | setStatusChangeCb i created =>
      obtain ⟨stub, hi⟩ := hl.live
      refine wp_setStatusChangeCb hi (fun _ => h) fun _ => ?_
      have hspoiled : Spoiled
          { s with objects := s.objects.set i (some { stub with start := true }) } :=
        h.changed hi rfl
      exact wp_pthreadCreate
        (fun _ hopen => hspoiled.created (o := { stub with start := true }) hopen i created)
        fun _ => rfl
  | shutdown i =>
      obtain ⟨stub, hi⟩ := hl.live
      exact wp_shutdown hi (h.changed hi rfl)
  | destroy i watchReturns =>
      obtain ⟨stub, hi⟩ := hl.live
      exact wp_destroy hi (h.wp_joinAndDelete hi watchReturns hl.free)

/-- The state before the first stub. -/
abbrev start : Process (Store Stub) := .running {}

/-- A run of the program on its stubs. -/
def Possible (ls : List Step) : Prop :=
  Process.Along exec (fun s l => Enabled s l.stubs) start ls

instance (ls : List Step) : Decidable (Possible ls) := Process.Along.decidable _ _

end StubLife

/-! ### Server -/

namespace ServerLife

/-- The fields of a `Server` that its thread depends on. -/
structure Server where
  started : Bool
  shutdown : Bool
  pid : Nat
  deriving DecidableEq, Repr

/-- `Server::ThreadRun` goes on until `shutdown_`; but no thread is created that runs it. -/
instance : Owner Server where
  handle := Server.pid
  goesOn server := !server.shutdown

/-- `Server::Server()` -/
def construct : M Server Unit := do
  let pid ← newHandle
  addObject { started := false, shutdown := false, pid }

/-- `Server::Run` -/
def run (i : Nat) : M Server Unit := do
  let server ← object i
  if server.shutdown then pure () else
    -- The `pthread_create` that follows the poll is commented out.
    setObject i { server with started := true }

/-- `Server::ShutdownInternal` -/
def shutdownInternal (i : Nat) : M Server Unit := do
  let server ← object i
  if !server.started then pure ()
  else if server.shutdown then pure ()
  else setObject i { server with shutdown := true }

/-- `Server::~Server` -/
def destroy (i : Nat) : M Server Unit := do
  shutdownInternal i
  let server ← object i
  -- `Server::ThreadRun` polls, and waits for nothing.
  joinAndDelete i server.pid true

inductive Step where
  | construct
  | run (i : Nat)
  | shutdown (i : Nat)
  | destroy (i : Nat)
  deriving DecidableEq, Repr

/-- The servers a step is on. -/
def Step.servers : Step → List Nat
  | .construct => []
  | .run i | .shutdown i | .destroy i => [i]

def exec : Step → M Server Unit
  | .construct => construct
  | .run i => run i
  | .shutdown i => shutdownInternal i
  | .destroy i => destroy i

/-- No server is destroyed. -/
def Step.Orderly : Step → Prop
  | .destroy _ => False
  | _ => True

instance : ∀ l : Step, Decidable l.Orderly
  | .destroy _ => isFalse id
  | .construct | .run _ | .shutdown _ => isTrue trivial

abbrev start : Process (Store Server) := .running {}

/-- A run of the program on its servers. -/
def Possible (ls : List Step) : Prop :=
  Process.Along exec (fun s l => Enabled s l.servers) start ls

instance (ls : List Step) : Decidable (Possible ls) := Process.Along.decidable _ _

variable {s : Store Server} {i : Nat} {server : Server}

/-- Each server has its own handle, and there is no thread. -/
structure Threadless (s : Store Server) : Prop where
  owned : Owned s
  threads : s.threads = []

theorem Threadless.names (h : Threadless s) (hi : Live s i server) :
    names s server.pid = none := by
  obtain ⟨hd, hopen⟩ := h.owned.valid i server hi
  cases hn : Handles.names s server.pid with
  | none => rfl
  | some t =>
      have ht := h.owned.unjoined i server hd t hi hopen (hopen.names.symm.trans hn)
      rw [h.threads] at ht
      cases ht

theorem Threadless.changed {server' : Server} (h : Threadless s) (hi : Live s i server)
    (hpid : server'.pid = server.pid) :
    Threadless { s with objects := s.objects.set i (some server') } :=
  ⟨h.owned.changed hi hpid, h.threads⟩

/-- The server may change, but for its handle. -/
theorem shutdownInternal_threadless (h : Threadless s) (hi : Live s i server) :
    wp (shutdownInternal i)
      (fun _ s' => Threadless s' ∧ ∃ server', Live s' i server') (fun _ _ => False) s := by
  rw [shutdownInternal, wp_bind]
  refine hi.wp_object ?_
  rw [wp_ite, wp_ite]
  split
  · exact ⟨h, server, hi⟩
  · split
    · exact ⟨h, server, hi⟩
    · exact ⟨h.changed hi rfl, _, hi.set⟩

theorem threadless_step {l : Step} (h : Threadless s) (hl : Enabled s l.servers)
    (hok : l.Orderly) : wp (exec l) (fun _ => Threadless) (fun _ _ => False) s := by
  cases l with
  | construct => exact ⟨h.owned.constructed rfl, h.threads⟩
  | run i =>
      obtain ⟨server, hi⟩ := hl.live
      rw [exec, run, wp_bind]
      refine hi.wp_object ?_
      rw [wp_ite]
      split
      · exact h
      · exact h.changed hi rfl
  | shutdown i =>
      obtain ⟨server, hi⟩ := hl.live
      exact wp_mono (shutdownInternal_threadless h hi) (fun _ _ h' => h'.1) fun _ _ hf => hf
  | destroy i => exact hok.elim

/-- The destructor joins what is no thread. -/
theorem destroy_undefined (h : Threadless s) (hi : Live s i server) :
    wp (destroy i) (fun _ _ => False) (fun e _ => e = .undefined) s := by
  rw [destroy, wp_bind]
  refine wp_mono (shutdownInternal_threadless h hi) ?_ fun _ _ hf => hf.elim
  rintro _ s₁ ⟨h₁, server₁, hi₁⟩
  rw [wp_bind]
  refine hi₁.wp_object (wp_mono (h₁.owned.wp_joinAndDelete hi₁ true) (fun _ _ hn => ?_) ?_)
  · exact hn.1 (h₁.names hi₁)
  · exact fun _ _ he => he.2

/-- A run is lawful exactly as long as no server is destroyed. -/
theorem lawful_iff {ls : List Step} (hls : Possible ls) :
    (∀ pre, pre <+: ls → Lawful (Process.after exec start pre)) ↔
      Process.Along exec (fun _ l => l.Orderly) start ls := by
  refine Process.along_iff_next (I := Process.Holds Threadless fun _ _ => False)
    (fun c hc => ?_) (fun s l hs hl hok => ?_) (fun s l hs hl hok => ?_) ?_ hls
  · cases c with
    | running s => exact ⟨hc.owned.free, hc.owned.settled⟩
    | stopped e s => exact hc
  · exact Process.holds_next
      (wp_mono (threadless_step hs hl hok) (fun _ _ h => h) fun _ _ hf => hf.elim)
  · cases l with
    | destroy i =>
        obtain ⟨server, hi⟩ := hl.live
        have hstep : wp (exec (.destroy i)) (fun _ _ => False)
            (Process.Leaves (fun _ => False) fun e _ => e = .undefined) s := by
          refine wp_mono (destroy_undefined hs hi) (fun _ _ h => h) ?_
          rintro _ s' rfl
          rfl
        obtain ⟨e, s', hc, -⟩ := Process.stops_next hstep
        rw [hc]
        exact id
    | construct => exact absurd trivial hok
    | run i => exact absurd trivial hok
    | shutdown i => exact absurd trivial hok
  · exact ⟨.empty, rfl⟩

end ServerLife

/-! ### Both -/

/-- The threads and handles of the stubs come to an end where each step is `Orderly`, and in a run
that has come to its end only there; those of the servers, as long as no server is destroyed. -/
theorem threads_joined_iff {ls : List StubLife.Step} {ls' : List ServerLife.Step}
    (hls : StubLife.Possible ls) (hls' : ServerLife.Possible ls') :
    (Process.Along StubLife.exec StubLife.Orderly StubLife.start ls →
      ∀ pre, pre <+: ls → Lawful (Process.after StubLife.exec StubLife.start pre)) ∧
    (Over (Process.after StubLife.exec StubLife.start ls) →
      ((∀ pre, pre <+: ls → Lawful (Process.after StubLife.exec StubLife.start pre)) ↔
        Process.Along StubLife.exec StubLife.Orderly StubLife.start ls)) ∧
    ((∀ pre, pre <+: ls' → Lawful (Process.after ServerLife.exec ServerLife.start pre)) ↔
      Process.Along ServerLife.exec (fun _ l => l.Orderly) ServerLife.start ls') := by
  refine ⟨fun hok => ?_, fun hover => ?_, ServerLife.lawful_iff hls'⟩
  · exact lawful_of_along (fun _ _ => StubLife.owned_step) .empty hls hok
  · exact lawful_iff_along (fun _ _ => StubLife.owned_step) (fun _ _ => StubLife.spoiled_step)
      (fun _ _ => StubLife.lost_step) .empty hls hover

/-- Two stubs, of which one is given another callback before both are shut down and destroyed, and
a server that is not. -/
theorem threads_joined_iff_twoStubs :
    (∀ pre, pre <+: [.construct, .construct, .setStatusChangeCb 1 true, .setStatusChangeCb 0 true,
        .setStatusChangeCb 1 true, .shutdown 1, .shutdown 0, .destroy 0 true, .destroy 1 true] →
      Lawful (Process.after StubLife.exec StubLife.start pre)) ∧
    ∀ pre, pre <+: [.construct, .run 0, .run 0, .shutdown 0] →
      Lawful (Process.after ServerLife.exec ServerLife.start pre) := by
  have hstubs : StubLife.Possible [.construct, .construct, .setStatusChangeCb 1 true,
    .setStatusChangeCb 0 true, .setStatusChangeCb 1 true, .shutdown 1, .shutdown 0,
    .destroy 0 true, .destroy 1 true] := by decide
  have hservers : ServerLife.Possible [.construct, .run 0, .run 0, .shutdown 0] := by decide
  have h := threads_joined_iff hstubs hservers
  exact ⟨h.1 (by decide), h.2.2.mpr (by decide)⟩

/-- A stub that was given no callback is destroyed, one that was not shut down, and one whose thread
is in a watch that does not return; a stub and its copy are destroyed; a stub is given a callback
again after `Shutdown`; and a server is destroyed. -/
theorem not_threads_joined :
    ¬ Lawful (Process.after StubLife.exec StubLife.start [.construct, .destroy 0 true]) ∧
    ¬ Lawful (Process.after StubLife.exec StubLife.start
      [.construct, .setStatusChangeCb 0 true, .destroy 0 true]) ∧
    ¬ Lawful (Process.after StubLife.exec StubLife.start
      [.construct, .setStatusChangeCb 0 true, .shutdown 0, .destroy 0 false]) ∧
    ¬ Lawful (Process.after StubLife.exec StubLife.start
      [.construct, .setStatusChangeCb 0 true, .shutdown 0, .copy 0, .destroy 0 true,
        .destroy 1 true]) ∧
    ¬ Lawful (Process.after StubLife.exec StubLife.start
      [.construct, .setStatusChangeCb 0 true, .shutdown 0, .setStatusChangeCb 0 true, .shutdown 0,
        .destroy 0 true]) ∧
    ¬ Lawful (Process.after ServerLife.exec ServerLife.start [.construct, .destroy 0]) := by
  refine ⟨id, ?_, ?_, id, ?_, id⟩
  · rintro ⟨hwaiting, -⟩
    cases hwaiting
  · rintro ⟨hwaiting, -⟩
    cases hwaiting
  · -- The thread that was created first is not joined.
    rintro ⟨-, hsettled⟩
    have hgone : Gone (α := StubLife.Stub)
        { handles := [⟨some 1, true⟩], threads := [⟨0, false⟩, ⟨0, true⟩], objects := [none] } := by
      rintro (- | i) o h
      · cases h
      · cases h
    have := (hsettled hgone).joined ⟨0, false⟩ (by decide)
    cases this

end GrpcLua
