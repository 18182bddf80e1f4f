import GrpcLua.Core.Call
import GrpcLua.Support.Runs

/-!
# Server — Replier

`ServerReplierImpl` of `core/server/impl/server_replier_impl.h`, which all copies of a
`ServerReplier` share, with the `ServerReplierCqTag` that it starts, and the threads that reply.

The load of `replied_` and the store that follows it are two accesses, so a thread's step is one
access or the start of its batch: `Pc` is where it stands in the call it is in.  `one_reply` says
when only the first reply is accepted: no thread may look at `replied_` while another one has found
it false and has not set it yet.
-/

namespace GrpcLua
open Prog

/-- The members of `ServerReplierImpl`. -/
structure ServerReplierImpl where
  sendInitMd : Bool := true
  replied : Bool := false
  deriving DecidableEq, Repr

namespace ServerReplier

/-- `ReplyStr(response)` and `ReplyError(status)`. -/
inductive Reply where
  | str (response : Bytes)
  | error (status : Status)
  deriving DecidableEq, Repr

/-- The operations of `ServerReplierCqTag::StartReply()` and `StartReplyError()`. -/
def Reply.batch (sendInitMd : Bool) : Reply → Batch
  | str msg => (if sendInitMd then [.sendInitMd] else []) ++ [.sendMsg msg, .ofStatus .OK]
  | error status => (if sendInitMd then [.sendInitMd] else []) ++ [.ofStatus status]

/-- Where a thread stands: what it is about to do. -/
inductive Pc where
  | idle
  /-- `if (replied_) return;` -/
  | load (r : Reply)
  /-- `replied_ = true;` -/
  | store (r : Reply)
  /-- `tag->StartReply(response)` -/
  | start (r : Reply)
  deriving DecidableEq, Repr

end ServerReplier

/-- The object, its surroundings, and the threads that use it. -/
structure ServerReplier extends ServerReplierImpl, Env Empty where
  threads : List ServerReplier.Pc
  deriving DecidableEq, Repr

namespace ServerReplier

instance : HasEnv ServerReplier Empty where
  env s := s.toEnv
  setEnv s e := { s with toEnv := e }

@[simp] theorem env_eq (s : ServerReplier) : HasEnv.env s = s.toEnv := rfl

@[simp] theorem setEnv_eq (s : ServerReplier) (e : Env Empty) :
    HasEnv.setEnv s e = { s with toEnv := e } := rfl

abbrev M := EStateM Exit ServerReplier

/-- The object as its constructor leaves it, with `n` threads that may use it. -/
def new (starts : List Bool) (n : Nat) : ServerReplier where
  starts := starts
  final := .OK
  trace := []
  threads := List.replicate n .idle

/-- The next access of a thread, and where the thread stands after it. -/
def Pc.exec : Pc → M Pc
  | idle => pure idle
  | load r => do
      let s ← get
      pure (if s.replied then idle else store r)
  | store r => do
      modify fun s => { s with replied := true }
      pure (start r)
  | start r => do
      let s ← get
      let _started ← startBatch (r.batch s.sendInitMd)
      pure idle

/-! ### Steps -/

inductive Step where
  /-- Thread `i` replies, on any copy. -/
  | call (i : Nat) (r : Reply)
  | resume (i : Nat)
  deriving DecidableEq, Repr

def Step.exec : Step → M Unit
  | call i r => modify fun s => { s with threads := s.threads.set i (.load r) }
  | resume i => do
      let s ← get
      let pc ← (s.threads.getD i .idle).exec
      modify fun s => { s with threads := s.threads.set i pc }

/-- A thread makes one call at a time. -/
def Step.Enabled (s : ServerReplier) : Step → Prop
  | call i _ => s.threads[i]? = some .idle
  | resume i => s.threads[i]?.isSome

instance Step.decidableEnabled (s : ServerReplier) : (l : Step) → Decidable (Step.Enabled s l)
  | call i _ => inferInstanceAs (Decidable (s.threads[i]? = some .idle))
  | resume i => inferInstanceAs (Decidable (s.threads[i]?.isSome = true))

abbrev after (s : ServerReplier) (ls : List Step) : Process ServerReplier :=
  Process.after Step.exec (.running s) ls

abbrev Legal (s : ServerReplier) (ls : List Step) : Prop :=
  Process.Along Step.exec Step.Enabled (.running s) ls

/-! ### Replies that are accepted -/

/-- The thread has found `replied_` false, and will start its batch. -/
def Pc.accepted : Pc → Bool
  | store _ => true
  | start _ => true
  | _ => false

/-- The thread has found `replied_` false, and has not set it. -/
def Pc.storing : Pc → Bool
  | store _ => true
  | _ => false

/-- The replies that were accepted: those whose batch was handed to `StartBatch`, and those whose
batch will be. -/
def acceptedCount (s : ServerReplier) : Nat :=
  (batches s.trace).length + s.threads.countP Pc.accepted

/-- The step accepts a reply: it finds `replied_` false. -/
def Step.accepts (s : ServerReplier) : Step → Bool
  | call _ _ => false
  | resume i =>
      match s.threads[i]? with
      | some (.load _) => !s.replied
      | _ => false

/-- The step accepts a reply while a thread that has accepted one is about to set `replied_`. -/
def Overlaps (s : ServerReplier) (l : Step) : Prop :=
  l.accepts s = true ∧ s.threads.any Pc.storing = true

instance (s : ServerReplier) (l : Step) : Decidable (Overlaps s l) :=
  inferInstanceAs (Decidable (_ ∧ _))

/-- The invariant.  Until `replied_` is set, every accepted reply is about to set it. -/
structure Inv (s : ServerReplier) : Prop where
  batches : s.replied = false → batches s.trace = []
  storing : s.replied = false → ∀ pc ∈ s.threads, pc.accepted = pc.storing

variable {s : ServerReplier}

/-- A new replier has replied nothing. -/
theorem Inv.new (starts : List Bool) (n : Nat) : Inv (new starts n) where
  batches _ := rfl
  storing := by
    intro _ pc hpc
    rw [List.eq_of_mem_replicate hpc]
    rfl

/-- A new replier has accepted nothing. -/
theorem acceptedCount_new (starts : List Bool) (n : Nat) : acceptedCount (new starts n) = 0 := by
  show 0 + (List.replicate n Pc.idle).countP Pc.accepted = 0
  simp [List.countP_replicate, Pc.accepted]

/-- A step of one thread leaves the others where they are. -/
theorem storing_set {threads : List Pc} (h : ∀ pc ∈ threads, pc.accepted = pc.storing) {pc' : Pc}
    (hpc : pc'.accepted = pc'.storing) (i : Nat) :
    ∀ pc ∈ threads.set i pc', pc.accepted = pc.storing := by
  intro pc hmem
  rcases List.mem_or_eq_of_mem_set hmem with hmem | rfl
  · exact h pc hmem
  · exact hpc

/-- Thread `i` goes from `pc` to `pc'`. -/
theorem countP_set {threads : List Pc} {i : Nat} {pc : Pc} (hi : threads[i]? = some pc) (pc' : Pc) :
    (threads.set i pc').countP Pc.accepted + (if pc.accepted then 1 else 0) =
      threads.countP Pc.accepted + (if pc'.accepted then 1 else 0) := by
  obtain ⟨hlt, hget⟩ := List.getElem?_eq_some_iff.mp hi
  have hle : (if pc.accepted then 1 else 0) ≤ threads.countP Pc.accepted := by
    rw [← hget]
    exact List.boole_getElem_le_countP hlt
  rw [List.countP_set hlt, hget]
  omega

/-- What a step does to the number of accepted replies, and that it keeps the invariant. -/
theorem step_spec (h : Inv s) (l : Step) (hl : Step.Enabled s l) :
    wp l.exec (fun _ s' => Inv s' ∧
      acceptedCount s' = acceptedCount s + if l.accepts s then 1 else 0) (fun _ _ => False) s := by
  cases l with
  | call i r =>
      have hcount := countP_set hl (.load r)
      simp only [Step.exec, wp_modify, Step.accepts]
      exact ⟨⟨h.batches, fun hr => storing_set (h.storing hr) rfl i⟩,
        congrArg ((batches s.trace).length + ·) hcount⟩
  | resume i =>
      obtain ⟨pc, hi⟩ := Option.isSome_iff_exists.mp hl
      have hcount := countP_set hi
      simp only [Step.exec, wp_bind, wp_get, wp_modify, Step.accepts, hi]
      rw [List.getD_eq_getElem?_getD, hi]
      cases pc with
      | idle =>
          exact ⟨⟨h.batches, fun hr => storing_set (h.storing hr) rfl i⟩,
            congrArg ((batches s.trace).length + ·) (hcount .idle)⟩
      | load r =>
          simp only [Option.getD_some, Pc.exec, wp_bind, wp_get, wp_pure]
          cases hr : s.replied with
          | true =>
              refine ⟨⟨fun hr' => ?_, fun hr' => ?_⟩,
                congrArg ((batches s.trace).length + ·) (hcount .idle)⟩
              · rw [hr] at hr'
                cases hr'
              · rw [hr] at hr'
                cases hr'
          | false =>
              refine ⟨⟨h.batches, fun _ => storing_set (h.storing hr) rfl i⟩, ?_⟩
              have hstore : _ + 0 = _ + 1 := hcount (.store r)
              show (batches s.trace).length + (s.threads.set i (.store r)).countP Pc.accepted =
                acceptedCount s + 1
              rw [acceptedCount]
              omega
      | store r =>
          refine ⟨⟨fun hr => ?_, fun hr => ?_⟩, congrArg ((batches s.trace).length + ·)
            (Nat.add_right_cancel (hcount (.start r)))⟩
          · cases hr
          · cases hr
      | start r =>
          -- A reply whose batch is about to be started has set `replied_`.
          have hreplied : s.replied = true := by
            by_contra hr
            have hstoring := h.storing (by simpa using hr) _ (List.mem_of_getElem? hi)
            cases hstoring
          simp only [Option.getD_some, Pc.exec, wp_bind, wp_get, wp_startBatch, wp_pure, env_eq,
            setEnv_eq]
          refine ⟨⟨fun hr => absurd (hreplied.symm.trans hr) (by simp),
            fun hr => absurd (hreplied.symm.trans hr) (by simp)⟩, ?_⟩
          have hidle : _ + 1 = _ + 0 := hcount .idle
          show (batches (s.trace ++ [_])).length + (s.threads.set i .idle).countP Pc.accepted =
            acceptedCount s
          rw [batches_append, List.length_append, acceptedCount]
          show _ + 1 + _ = _
          omega

/-- Before the first reply is accepted no thread is about to set `replied_`, and while one is about
to do so its reply is accepted. -/
theorem Inv.any_storing (h : Inv s) (hr : s.replied = false) :
    s.threads.any Pc.storing = true ↔ 0 < acceptedCount s := by
  rw [acceptedCount, h.batches hr, List.length_nil, Nat.zero_add, List.countP_pos_iff,
    List.any_eq_true]
  constructor
  · rintro ⟨pc, hmem, hpc⟩
    exact ⟨pc, hmem, (h.storing hr pc hmem).trans hpc⟩
  · rintro ⟨pc, hmem, hpc⟩
    exact ⟨pc, hmem, (h.storing hr pc hmem).symm.trans hpc⟩

/-- A reply is accepted where the flag is not set. -/
theorem Step.accepts_eq_true {l : Step} (h : l.accepts s = true) : s.replied = false := by
  cases l with
  | call i r => cases h
  | resume i =>
      simp only [Step.accepts] at h
      split at h
      · simpa using h
      · cases h

/-- An accepted reply is the first one, but where the step overlaps another thread. -/
theorem acceptedCount_le_one {s' : ServerReplier} {l : Step} (h : Inv s)
    (hle : acceptedCount s ≤ 1) (hl : ¬ Overlaps s l)
    (hs' : acceptedCount s' = acceptedCount s + if l.accepts s then 1 else 0) :
    acceptedCount s' ≤ 1 := by
  split at hs'
  case isTrue haccepts =>
    have hnone : ¬ 0 < acceptedCount s := fun hpos =>
      hl ⟨haccepts, (h.any_storing (Step.accepts_eq_true haccepts)).mpr hpos⟩
    omega
  case isFalse => omega

/-- A reply that is accepted while another one stores the flag is the second. -/
theorem two_le_acceptedCount {s' : ServerReplier} {l : Step} (h : Inv s) (hl : Overlaps s l)
    (hs' : acceptedCount s' = acceptedCount s + if l.accepts s then 1 else 0) :
    2 ≤ acceptedCount s' := by
  have hpos := (h.any_storing (Step.accepts_eq_true hl.1)).mp hl.2
  rw [if_pos hl.1] at hs'
  omega

/-- So long as no thread overlaps another a run accepts one reply at most, and from then on it has
accepted two. -/
theorem along_overlaps {starts : List Bool} {n : Nat} {ls : List Step}
    (hls : Legal (new starts n) ls) :
    Process.Along Step.exec (fun s l => ¬ Overlaps s l) (.running (new starts n)) ls ∧
        acceptedCount (after (new starts n) ls).state ≤ 1 ∨
      ¬ Process.Along Step.exec (fun s l => ¬ Overlaps s l) (.running (new starts n)) ls ∧
        2 ≤ acceptedCount (after (new starts n) ls).state := by
  have hstate : ∀ {k : ServerReplier → Prop} {c : Process ServerReplier},
      Process.Holds (fun s => Inv s ∧ k s) (fun _ _ => False) c → k c.state
    | _, .running s, h => h.2
    | _, .stopped e s, h => h.elim
  have hstep : ∀ s l, Inv s → Step.Enabled s l → ∀ {k : ServerReplier → Prop},
      (∀ s', acceptedCount s' = acceptedCount s + (if l.accepts s then 1 else 0) → k s') →
      wp l.exec (fun _ s' => Inv s' ∧ k s')
        (Process.Leaves (fun s' => Inv s' ∧ k s') fun _ _ => False) s :=
    fun s l h hl _ hk => wp_mono (step_spec h l hl) (fun _ s' hs' => ⟨hs'.1, hk s' hs'.2⟩)
      fun _ _ => False.elim
  have hnew : Process.Holds (fun s => Inv s ∧ acceptedCount s ≤ 1) (fun _ _ => False)
      (.running (new starts n)) :=
    ⟨Inv.new starts n, acceptedCount_new starts n ▸ Nat.zero_le 1⟩
  have hor := Process.along_or (L := fun s => Inv s ∧ 2 ≤ acceptedCount s)
    (fun s l h hl hP => hstep s l h.1 hl fun _ => acceptedCount_le_one h.1 h.2 hP)
    (fun s l h hl hP => hstep s l h.1 hl fun _ => two_le_acceptedCount h.1 (not_not.mp hP))
    (fun s l h hl => hstep s l h.1 hl fun _ hs' =>
      hs' ▸ Nat.le_trans h.2 (Nat.le_add_right _ _)) hnew hls
  exact hor.imp (fun h => ⟨h.1, hstate h.2⟩) fun h => ⟨h.1, hstate h.2⟩

/-- The batches are those of accepted replies, and all of them where no thread is in a call. -/
theorem batches_le_acceptedCount (s : ServerReplier) :
    (batches s.trace).length ≤ acceptedCount s := Nat.le_add_right _ _

/-- Once no thread replies, every accepted reply was submitted. -/
theorem acceptedCount_of_idle (h : ∀ pc ∈ s.threads, pc = .idle) :
    acceptedCount s = (batches s.trace).length := by
  have hnone : s.threads.countP Pc.accepted = 0 :=
    List.countP_eq_zero.mpr fun pc hpc => by rw [h pc hpc]; exact nofun
  rw [acceptedCount, hnone, Nat.add_zero]

/-- Any number of threads that reply, in any interleaving.  So long as no thread finds `replied_`
false while another one is about to set it, one batch at most is ever handed to `StartBatch`; and
where every call has returned, that is the only way. -/
theorem one_reply (starts : List Bool) (n : Nat) (ls : List Step)
    (hls : Legal (new starts n) ls) :
    (Process.Along Step.exec (fun s l => ¬ Overlaps s l) (.running (new starts n)) ls →
      (batches (after (new starts n) ls).state.trace).length ≤ 1) ∧
    ((∀ pc ∈ (after (new starts n) ls).state.threads, pc = .idle) →
      ((batches (after (new starts n) ls).state.trace).length ≤ 1 ↔
        Process.Along Step.exec (fun s l => ¬ Overlaps s l) (.running (new starts n)) ls)) := by
  have hle := batches_le_acceptedCount (after (new starts n) ls).state
  rcases along_overlaps hls with ⟨halong, hone⟩ | ⟨halong, htwo⟩
  · exact ⟨fun _ => Nat.le_trans hle hone,
      fun _ => ⟨fun _ => halong, fun _ => Nat.le_trans hle hone⟩⟩
  · refine ⟨fun h => absurd h halong, fun hidle => ⟨fun hone => ?_, fun h => absurd h halong⟩⟩
    rw [← acceptedCount_of_idle hidle] at hone
    exact absurd (Nat.le_trans htwo hone) (by decide)

/-- Two threads reply one after the other: the second finds `replied_` set. -/
def inTurn : List Step :=
  [.call 0 (.str [1]), .resume 0, .resume 0, .call 1 (.error (.internalError [])), .resume 1,
    .resume 0]

theorem one_reply_inTurn :
    Legal (new [] 2) inTurn ∧ (batches (after (new [] 2) inTurn).state.trace).length = 1 ∧
      Process.Along Step.exec (fun s l => ¬ Overlaps s l) (.running (new [] 2)) inTurn :=
  have hls : Legal (new [] 2) inTurn := by decide
  ⟨hls, by decide, ((one_reply [] 2 inTurn hls).2 (by decide)).mp (by decide)⟩

/-- Both threads look before either sets `replied_`: the call is given two replies. -/
def atOnce : List Step :=
  [.call 0 (.str [1]), .call 1 (.error (.internalError [])), .resume 0, .resume 1, .resume 0,
    .resume 1,
    .resume 0, .resume 1]

theorem two_replies :
    ¬ ∀ (starts : List Bool) (n : Nat) (ls : List Step), Legal (new starts n) ls →
      (batches (after (new starts n) ls).state.trace).length ≤ 1 :=
  fun h => absurd (h [] 2 atOnce (by decide)) (by decide)

end ServerReplier

end GrpcLua
