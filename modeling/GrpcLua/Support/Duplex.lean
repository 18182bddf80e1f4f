import GrpcLua.Support.Pipe

/-!
# Support — Duplex

Two pipes in opposite directions, at one end of which is one process: it sends on the one and
receives on the other.  A move is a step of that process, of the receiver of the one pipe or of the
sender of the other, and both pipes break at once.

A run of the two is a run of each (`along_up`, `along_down`), so that what holds of a pipe holds of
both; and they go on sharing the process (`shared`).
-/

namespace Prog

/-- The process that is shared is the sender of `up` and the receiver of `down`. -/
structure Duplex (σ τ υ α β : Type) where
  up : Pipe σ τ α
  down : Pipe υ σ β

namespace Duplex
variable {σ ℓ τ ρ υ κ α β ω ω' : Type}

inductive Move (ℓ ρ κ : Type) where
  /-- A step of the process that is shared. -/
  | near (l : ℓ)
  /-- A step of the receiver of `up`. -/
  | recv (r : ρ)
  /-- A step of the sender of `down`. -/
  | send (l : κ)
  | cut

/-- What the move is on the one pipe. -/
def Move.up : Move ℓ ρ κ → Option (Pipe.Move ℓ ρ)
  | near l => some (.send l)
  | recv r => some (.recv r)
  | send _ => none
  | cut => some .cut

/-- What the move is on the other. -/
def Move.down : Move ℓ ρ κ → Option (Pipe.Move κ ℓ)
  | near l => some (.recv l)
  | recv _ => none
  | send l => some (.send l)
  | cut => some .cut

/-- A move that a pipe may have no part in. -/
def move (L : Link σ ℓ τ ρ α ω) (c : Pipe σ τ α) : Option (Pipe.Move ℓ ρ) → Pipe σ τ α
  | some m => Pipe.step L c m
  | none => c

variable (L : Link σ ℓ τ ρ α ω) (M : Link υ κ σ ℓ β ω')

def step (c : Duplex σ τ υ α β) (m : Move ℓ ρ κ) : Duplex σ τ υ α β where
  up := move L c.up m.up
  down := move M c.down m.down

/-- Where the moves lead. -/
def after (c : Duplex σ τ υ α β) (ms : List (Move ℓ ρ κ)) : Duplex σ τ υ α β :=
  ms.foldl (step L M) c

variable (P : Pipe σ τ α → Pipe.Move ℓ ρ → Prop) (Q : Pipe υ σ β → Pipe.Move κ ℓ → Prop)

/-- The move can be made on both pipes. -/
def Allowed (c : Duplex σ τ υ α β) (m : Move ℓ ρ κ) : Prop :=
  (∀ m' ∈ m.up, P c.up m') ∧ ∀ m' ∈ m.down, Q c.down m'

instance decidableAllowed [∀ c m, Decidable (P c m)] [∀ c m, Decidable (Q c m)]
    (c : Duplex σ τ υ α β) (m : Move ℓ ρ κ) : Decidable (Allowed P Q c m) :=
  inferInstanceAs (Decidable (_ ∧ _))

/-- Every move of the run can be made. -/
def Along : Duplex σ τ υ α β → List (Move ℓ ρ κ) → Prop
  | _, [] => True
  | c, m :: ms => Allowed P Q c m ∧ Along (step L M c m) ms

instance Along.decidable [∀ c m, Decidable (P c m)] [∀ c m, Decidable (Q c m)] :
    (c : Duplex σ τ υ α β) → (ms : List (Move ℓ ρ κ)) → Decidable (Along L M P Q c ms)
  | _, [] => isTrue trivial
  | c, m :: ms =>
      have := Along.decidable (step L M c m) ms
      inferInstanceAs (Decidable (Allowed P Q c m ∧ Along L M P Q (step L M c m) ms))

variable {L M P Q} {c : Duplex σ τ υ α β} {ms : List (Move ℓ ρ κ)}

/-- A run of the two is a run of the one. -/
theorem along_up (h : Along L M P Q c ms) :
    Pipe.Along L P c.up (ms.filterMap Move.up) ∧
      (after L M c ms).up = Pipe.after L c.up (ms.filterMap Move.up) := by
  induction ms generalizing c with
  | nil => exact ⟨trivial, rfl⟩
  | cons m ms ih =>
      obtain ⟨hm, hms⟩ := h
      obtain ⟨halong, hafter⟩ := ih hms
      rw [List.filterMap_cons]
      cases hup : m.up with
      | none =>
          have hstep : (step L M c m).up = c.up := by simp only [step, move, hup]
          rw [hstep] at halong hafter
          exact ⟨halong, hafter⟩
      | some m' =>
          have hstep : (step L M c m).up = Pipe.step L c.up m' := by simp only [step, move, hup]
          rw [hstep] at halong hafter
          exact ⟨⟨hm.1 m' hup, halong⟩, hafter⟩

/-- A run of the two is a run of the other. -/
theorem along_down (h : Along L M P Q c ms) :
    Pipe.Along M Q c.down (ms.filterMap Move.down) ∧
      (after L M c ms).down = Pipe.after M c.down (ms.filterMap Move.down) := by
  induction ms generalizing c with
  | nil => exact ⟨trivial, rfl⟩
  | cons m ms ih =>
      obtain ⟨hm, hms⟩ := h
      obtain ⟨halong, hafter⟩ := ih hms
      rw [List.filterMap_cons]
      cases hdown : m.down with
      | none =>
          have hstep : (step L M c m).down = c.down := by simp only [step, move, hdown]
          rw [hstep] at halong hafter
          exact ⟨halong, hafter⟩
      | some m' =>
          have hstep : (step L M c m).down = Pipe.step M c.down m' := by
            simp only [step, move, hdown]
          rw [hstep] at halong hafter
          exact ⟨⟨hm.2 m' hdown, halong⟩, hafter⟩

/-- The pipes share a process, and they are both broken or both not. -/
structure Shared (c : Duplex σ τ υ α β) : Prop where
  process : c.up.sender = c.down.receiver
  broken : c.up.broken = c.down.broken

theorem shared_step (hLM : L.send = M.recv) (h : Shared c) (m : Move ℓ ρ κ) :
    Shared (step L M c m) := by
  cases m with
  | near l =>
      refine ⟨?_, ?_⟩
      · show Process.next L.send c.up.sender l = Process.next M.recv c.down.receiver l
        rw [hLM, h.process]
      · show c.up.broken = (c.down.took (M.take l)).broken
        rw [(Pipe.took_ends _ _).2.2, h.broken]
  | recv r =>
      refine ⟨?_, ?_⟩
      · show (c.up.took (L.take r)).sender = c.down.receiver
        rw [(Pipe.took_ends _ _).2.1, h.process]
      · show (c.up.took (L.take r)).broken = c.down.broken
        rw [(Pipe.took_ends _ _).2.2, h.broken]
  | send l => exact ⟨h.process, h.broken⟩
  | cut => exact ⟨h.process, rfl⟩

/-- However the run goes on, the pipes share the process. -/
theorem shared (hLM : L.send = M.recv) (h : Shared c) (ms : List (Move ℓ ρ κ)) :
    Shared (after L M c ms) := by
  induction ms generalizing c with
  | nil => exact h
  | cons m ms ih => exact ih (shared_step hLM h m)

theorem after_append (ms' : List (Move ℓ ρ κ)) :
    after L M c (ms ++ ms') = after L M (after L M c ms) ms' := List.foldl_append

theorem along_append {ms' : List (Move ℓ ρ κ)} :
    Along L M P Q c (ms ++ ms') ↔ Along L M P Q c ms ∧ Along L M P Q (after L M c ms) ms' := by
  induction ms generalizing c with
  | nil => exact ⟨fun h => ⟨trivial, h⟩, fun h => h.2⟩
  | cons m ms ih =>
      show _ ∧ Along L M P Q _ (ms ++ ms') ↔ (_ ∧ Along L M P Q _ ms) ∧ _
      rw [ih, and_assoc]
      exact Iff.rfl

/-- Moves that each cost one more than what `μ` gives for them, or than what `ν` pays in, are as
many as `μ` has and `ν` pays. -/
theorem length_amortized {J : Duplex σ τ υ α β → Prop} {R : Move ℓ ρ κ → Prop}
    {μ ν : Duplex σ τ υ α β → Nat}
    (hstep : ∀ c m, J c → Allowed P Q c m → R m → J (step L M c m) ∧
      μ (step L M c m) + 1 + ν c ≤ μ c + ν (step L M c m))
    (hc : J c) (h : Along L M P Q c ms) (hR : ∀ m ∈ ms, R m) :
    ms.length + ν c ≤ μ c + ν (after L M c ms) := by
  induction ms generalizing c with
  | nil => exact Nat.add_le_add_right (Nat.zero_le _) _
  | cons m ms ih =>
      obtain ⟨hJ, hpays⟩ := hstep c m hc h.1 (hR m List.mem_cons_self)
      have hrest := ih hJ h.2 fun m' hm' => hR m' (List.mem_cons_of_mem m hm')
      have hafter : after L M c (m :: ms) = after L M (step L M c m) ms := rfl
      rw [hafter, List.length_cons]
      omega

/-- What the steps of the other sender keep that the run makes, the run keeps. -/
theorem keeps_send {I : υ → Prop}
    (hstep : ∀ l, .send l ∈ ms → ∀ s, I s → wp (M.send l) (fun _ => I) (fun _ => I) s)
    (hc : I c.down.sender.state) : I (after L M c ms).down.sender.state := by
  induction ms generalizing c with
  | nil => exact hc
  | cons m ms ih =>
      refine ih (fun l hl => hstep l (List.mem_cons_of_mem m hl)) ?_
      cases m with
      | near l =>
          show I (c.down.took (M.take l)).sender.state
          rw [(Pipe.took_ends _ _).2.1]
          exact hc
      | recv r => exact hc
      | cut => exact hc
      | send l =>
          show I (Process.next M.send c.down.sender l).state
          cases hs : c.down.sender with
          | stopped e s =>
              rw [hs] at hc
              exact hc
          | running s =>
              rw [hs] at hc
              exact Process.state_next (hstep l List.mem_cons_self s hc)

end Duplex

end Prog
