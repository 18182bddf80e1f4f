import GrpcLua.Support.Runs

/-!
# Support — Pipe

Two processes and a pipe between them.  What the sender hands over goes onto the wire, and the
receiver takes from its front; the two take their steps in any order, and at any time the pipe may
break.  The receiver may be told that no message will come (`Take.ending`) when the sender has shut
the pipe and the wire is empty, and at any time once the pipe is broken.

`Link` says what the two ends make of the pipe, and `Extends` what every step of the sender does to
what it has handed over.  `Sound` is what holds wherever a run leads: nothing is lost, added or
reordered (`invariant`).
-/

namespace Prog

/-- What a step of the receiver takes from the pipe. -/
inductive Take (α : Type) where
  | msg (m : α)
  /-- It is told that no message will come. -/
  | ending
  | nothing
  deriving DecidableEq, Repr

/-- The message that is taken, if one is. -/
def Take.toList {α : Type} : Take α → List α
  | msg m => [m]
  | _ => []

/-- The steps of the two ends; what the sender has handed over, and what it has shut the pipe with,
if it has; and what a step of the receiver takes. -/
structure Link (σ ℓ τ ρ α ω : Type) where
  send : ℓ → EStateM Exit σ Unit
  recv : ρ → EStateM Exit τ Unit
  out : σ → List α
  shut : σ → Option ω
  take : ρ → Take α

/-- The two ends, what has been taken, what is on its way, whether the receiver has been told that
no message will come, and whether the pipe is broken. -/
structure Pipe (σ τ α : Type) where
  sender : Process σ
  receiver : Process τ
  taken : List α := []
  wire : List α := []
  ended : Bool := false
  broken : Bool := false

namespace Pipe
variable {σ ℓ τ ρ α ω : Type}

inductive Move (ℓ ρ : Type) where
  | send (l : ℓ)
  | recv (r : ρ)
  /-- The pipe breaks. -/
  | cut

/-- The pipe after a step of the sender has led to `p`. -/
def sent (L : Link σ ℓ τ ρ α ω) (c : Pipe σ τ α) (p : Process σ) : Pipe σ τ α :=
  { c with sender := p, wire := c.wire ++ (L.out p.state).drop (L.out c.sender.state).length }

/-- The pipe after the receiver has taken something from it. -/
def took (c : Pipe σ τ α) : Take α → Pipe σ τ α
  | .msg m => { c with taken := c.taken ++ [m], wire := c.wire.tail }
  | .ending => { c with ended := true }
  | .nothing => c

def step (L : Link σ ℓ τ ρ α ω) (c : Pipe σ τ α) : Move ℓ ρ → Pipe σ τ α
  | .send l => c.sent L (Process.next L.send c.sender l)
  | .recv r => { c.took (L.take r) with receiver := Process.next L.recv c.receiver r }
  | .cut => { c with broken := true }

/-- The pipe lets the receiver take this. -/
def Gives (L : Link σ ℓ τ ρ α ω) (c : Pipe σ τ α) : Take α → Prop
  | .msg m => c.wire.head? = some m
  | .ending => c.broken = true ∨ c.wire = [] ∧ (L.shut c.sender.state).isSome
  | .nothing => True

/-- The process runs, in a state in which `P` allows the step. -/
def CanTake {σ ℓ : Type} (P : σ → ℓ → Prop) : Process σ → ℓ → Prop
  | .running s, l => P s l
  | .stopped _ _, _ => False

/-- The move can be made. -/
def Allowed (L : Link σ ℓ τ ρ α ω) (A : σ → ℓ → Prop) (B : τ → ρ → Prop) (c : Pipe σ τ α) :
    Move ℓ ρ → Prop
  | .send l => CanTake A c.sender l
  | .recv r => CanTake B c.receiver r ∧ c.Gives L (L.take r)
  | .cut => True

section decidable

instance decidableGives [DecidableEq α] (L : Link σ ℓ τ ρ α ω) (c : Pipe σ τ α) :
    (t : Take α) → Decidable (c.Gives L t)
  | .msg m => inferInstanceAs (Decidable (c.wire.head? = some m))
  | .ending => inferInstanceAs
      (Decidable (c.broken = true ∨ c.wire = [] ∧ (L.shut c.sender.state).isSome))
  | .nothing => isTrue trivial

instance decidableCanTake {σ ℓ : Type} {P : σ → ℓ → Prop} [∀ s l, Decidable (P s l)] :
    (p : Process σ) → (l : ℓ) → Decidable (CanTake P p l)
  | .running s, l => inferInstanceAs (Decidable (P s l))
  | .stopped _ _, _ => isFalse id

instance decidableAllowed [DecidableEq α] (L : Link σ ℓ τ ρ α ω) {A : σ → ℓ → Prop}
    {B : τ → ρ → Prop} [∀ s l, Decidable (A s l)] [∀ t r, Decidable (B t r)] (c : Pipe σ τ α) :
    (m : Move ℓ ρ) → Decidable (c.Allowed L A B m)
  | .send l => inferInstanceAs (Decidable (CanTake A c.sender l))
  | .recv r => inferInstanceAs (Decidable (CanTake B c.receiver r ∧ c.Gives L (L.take r)))
  | .cut => isTrue trivial

end decidable

/-- Where the moves lead. -/
def after (L : Link σ ℓ τ ρ α ω) (c : Pipe σ τ α) (ms : List (Move ℓ ρ)) : Pipe σ τ α :=
  ms.foldl (step L) c

/-- Every move of the run is made where `P` allows it. -/
def Along (L : Link σ ℓ τ ρ α ω) (P : Pipe σ τ α → Move ℓ ρ → Prop) :
    Pipe σ τ α → List (Move ℓ ρ) → Prop
  | _, [] => True
  | c, m :: ms => P c m ∧ Along L P (step L c m) ms

instance Along.decidable {L : Link σ ℓ τ ρ α ω} {P : Pipe σ τ α → Move ℓ ρ → Prop}
    [∀ c m, Decidable (P c m)] :
    (c : Pipe σ τ α) → (ms : List (Move ℓ ρ)) → Decidable (Along L P c ms)
  | _, [] => isTrue trivial
  | c, m :: ms =>
      have := Along.decidable (L := L) (P := P) (step L c m) ms
      inferInstanceAs (Decidable (P c m ∧ Along L P (step L c m) ms))

variable {L : Link σ ℓ τ ρ α ω} {A : σ → ℓ → Prop} {B : τ → ρ → Prop} {c : Pipe σ τ α}

theorem Along.and {P P' : Pipe σ τ α → Move ℓ ρ → Prop} {ms : List (Move ℓ ρ)}
    (h : Along L P c ms) (h' : Along L P' c ms) : Along L (fun c m => P c m ∧ P' c m) c ms := by
  induction ms generalizing c with
  | nil => trivial
  | cons m ms ih => exact ⟨⟨h.1, h'.1⟩, ih h.2 h'.2⟩

/-- What every move that `P` allows keeps, a run keeps. -/
theorem run_keeps {J : Pipe σ τ α → Prop} {P : Pipe σ τ α → Move ℓ ρ → Prop}
    (hstep : ∀ c m, J c → P c m → J (step L c m)) {ms : List (Move ℓ ρ)} (hc : J c)
    (h : Along L P c ms) : J (after L c ms) := by
  induction ms generalizing c with
  | nil => exact hc
  | cons m ms ih => exact ih (hstep c m hc h.1) h.2

/-- Moves that each make `μ` smaller are at most `μ` in number. -/
theorem length_le {J : Pipe σ τ α → Prop} {P : Pipe σ τ α → Move ℓ ρ → Prop}
    {μ : Pipe σ τ α → Nat}
    (hstep : ∀ c m, J c → P c m → J (step L c m) ∧ μ (step L c m) < μ c) {ms : List (Move ℓ ρ)}
    (hc : J c) (h : Along L P c ms) : ms.length ≤ μ c := by
  induction ms generalizing c with
  | nil => exact Nat.zero_le _
  | cons m ms ih =>
      obtain ⟨hJ, hless⟩ := hstep c m hc h.1
      have hrest := ih hJ h.2
      rw [List.length_cons]
      omega

/-- What is taken leaves the two ends as they are. -/
theorem took_ends (c : Pipe σ τ α) (t : Take α) :
    (c.took t).receiver = c.receiver ∧ (c.took t).sender = c.sender ∧
      (c.took t).broken = c.broken := by
  cases t <;> exact ⟨rfl, rfl, rfl⟩

theorem took_taken (c : Pipe σ τ α) (t : Take α) : (c.took t).taken = c.taken ++ t.toList := by
  cases t with
  | msg m => rfl
  | ending => exact (List.append_nil _).symm
  | nothing => exact (List.append_nil _).symm

/-- That the receiver was told of the end is not taken back. -/
theorem took_ended {t : Take α} (h : c.ended = true) : (c.took t).ended = true := by
  cases t with
  | msg m => exact h
  | ending => rfl
  | nothing => exact h

/-! ### What the pipe keeps -/

/-- What the sender has handed over only grows, and once it has shut the pipe not even that. -/
def Extends (L : Link σ ℓ τ ρ α ω) (s s' : σ) : Prop :=
  L.out s <+: L.out s' ∧ ∀ w, L.shut s = some w → L.shut s' = some w ∧ L.out s' = L.out s

/-- What has been taken and what is on the wire is what was handed over, and where the receiver was
told that nothing more will come, that is so: unless the pipe is broken. -/
structure Sound (L : Link σ ℓ τ ρ α ω) (c : Pipe σ τ α) : Prop where
  carried : c.taken ++ c.wire = L.out c.sender.state
  ended : c.ended = true → c.broken = true ∨ c.wire = [] ∧ (L.shut c.sender.state).isSome

theorem Sound.taken_prefix (h : Sound L c) : c.taken <+: L.out c.sender.state :=
  ⟨c.wire, h.carried⟩

/-- With the wire empty, everything has been taken. -/
theorem Sound.taken_eq (h : Sound L c) (hw : c.wire = []) : c.taken = L.out c.sender.state := by
  rw [← h.carried, hw, List.append_nil]

/-- An end that the receiver was told of, on a pipe that is not broken. -/
theorem Sound.taken_of_ended (h : Sound L c) (he : c.ended = true) (hb : c.broken = false) :
    c.taken = L.out c.sender.state ∧ ∃ w, L.shut c.sender.state = some w := by
  rcases h.ended he with hbroken | ⟨hw, hshut⟩
  · exact absurd (hb.symm.trans hbroken) (by simp)
  · exact ⟨h.taken_eq hw, Option.isSome_iff_exists.mp hshut⟩

/-- A step of the sender. -/
theorem Sound.sent (h : Sound L c) {p : Process σ} (hp : Extends L c.sender.state p.state) :
    Sound L (c.sent L p) := by
  obtain ⟨⟨rest, hrest⟩, hshut⟩ := hp
  have hdrop : (L.out p.state).drop (L.out c.sender.state).length = rest := by
    rw [← hrest, List.drop_left]
  refine ⟨?_, fun he => (h.ended he).imp_right ?_⟩
  · show c.taken ++ (c.wire ++ (L.out p.state).drop _) = L.out p.state
    rw [hdrop, ← List.append_assoc, h.carried, hrest]
  · rintro ⟨hw, hs⟩
    obtain ⟨w, hs⟩ := Option.isSome_iff_exists.mp hs
    obtain ⟨hs', hout⟩ := hshut w hs
    refine ⟨?_, Option.isSome_iff_exists.mpr ⟨w, hs'⟩⟩
    show c.wire ++ (L.out p.state).drop _ = []
    rw [hw, hout, List.drop_length, List.append_nil]

/-- What the pipe gives the receiver may take. -/
theorem Sound.took (h : Sound L c) {t : Take α} (ht : c.Gives L t) : Sound L (c.took t) := by
  cases t with
  | msg m =>
      obtain ⟨rest, hrest⟩ := List.head?_eq_some_iff.mp ht
      have hcarried := h.carried
      rw [hrest] at hcarried
      refine ⟨?_, fun he => (h.ended he).imp_right fun hw => ?_⟩
      · show c.taken ++ [m] ++ c.wire.tail = _
        rw [hrest, List.append_assoc]
        exact hcarried
      · exact absurd (hw.1.symm.trans hrest) (by simp)
  | ending => exact ⟨h.carried, fun _ => ht⟩
  | nothing => exact h

/-- What a move leads to: the pipe is sound, the sender keeps `I`, or has stopped with `J`, and has
taken back nothing. -/
structure Advances (L : Link σ ℓ τ ρ α ω) (I : σ → Prop) (J : Exit → σ → Prop)
    (c c' : Pipe σ τ α) : Prop where
  sound : Sound L c'
  sender : Process.Holds I J c'.sender
  more : Extends L c.sender.state c'.sender.state

/-- The invariant `I` of the sender makes it extend what it has handed over. -/
def Sends (L : Link σ ℓ τ ρ α ω) (A : σ → ℓ → Prop) (I : σ → Prop) (J : Exit → σ → Prop) : Prop :=
  ∀ s l, I s → A s l → wp (L.send l) (fun _ s' => I s' ∧ Extends L s s')
    (Process.Leaves (fun s' => I s' ∧ Extends L s s') fun e s' => J e s' ∧ Extends L s s') s

variable {I : σ → Prop} {J : Exit → σ → Prop}

/-- A move of either end, or none of them. -/
theorem Sound.step (h : Sound L c) (hsends : Sends L A I J) (hI : Process.Holds I J c.sender)
    {m : Move ℓ ρ} (hm : c.Allowed L A B m) : Advances L I J c (step L c m) := by
  have hrefl : ∀ s, Extends L s s := fun s => ⟨List.prefix_rfl, fun _ hs => ⟨hs, rfl⟩⟩
  cases m with
  | send l =>
      cases hc : c.sender with
      | stopped e s =>
          have hl : CanTake A c.sender l := hm
          rw [hc] at hl
          exact hl.elim
      | running s =>
          have hl : CanTake A c.sender l := hm
          rw [hc] at hI hl
          have hw := hsends s l hI hl
          have hnext : Process.Holds I J (Process.next L.send (.running s) l) :=
            Process.holds_next (wp_mono hw (fun _ _ h' => h'.1)
              fun e _ h' => by cases e <;> exact h'.1)
          have hext : Extends L s (Process.next L.send (.running s) l).state :=
            Process.state_next (wp_mono hw (fun _ _ h' => h'.2)
              fun e _ h' => by cases e <;> exact h'.2)
          have hstep : Pipe.step L c (.send l) = c.sent L (Process.next L.send (.running s) l) := by
            rw [← hc]
            rfl
          have hmore : Extends L c.sender.state (Process.next L.send (.running s) l).state := by
            rw [hc]
            exact hext
          rw [hstep]
          exact ⟨h.sent hmore, hnext, hmore⟩
  | recv r =>
      -- The receiver leaves the sender where it is.
      have hsound : Sound L (c.took (L.take r)) := h.took hm.2
      have hsender : (c.took (L.take r)).sender = c.sender := (took_ends c _).2.1
      refine ⟨⟨hsound.carried, hsound.ended⟩, ?_, ?_⟩
      · show Process.Holds I J (c.took (L.take r)).sender
        rw [hsender]
        exact hI
      · show Extends L c.sender.state (c.took (L.take r)).sender.state
        rw [hsender]
        exact hrefl _
  | cut => exact ⟨⟨h.carried, fun _ => .inl rfl⟩, hI, hrefl _⟩

/-- What the steps of the sender keep, every move keeps of the sender. -/
theorem sender_step {m : Move ℓ ρ}
    (hkeeps : ∀ s l, I s → A s l → wp (L.send l) (fun _ => I) (Process.Leaves I J) s)
    (hI : Process.Holds I J c.sender) (hm : c.Allowed L A B m) :
    Process.Holds I J (Pipe.step L c m).sender := by
  cases m with
  | send l =>
      have hcan : CanTake A c.sender l := hm
      cases hc : c.sender with
      | stopped e s =>
          rw [hc] at hcan
          exact hcan.elim
      | running s =>
          rw [hc] at hI hcan
          show Process.Holds I J (Process.next L.send c.sender l)
          rw [hc]
          exact Process.holds_next (hkeeps s l hI hcan)
  | recv r =>
      show Process.Holds I J (c.took (L.take r)).sender
      rw [(took_ends c _).2.1]
      exact hI
  | cut => exact hI

/-- The wire is empty, and the sender has shut the pipe with `w`. -/
def Drained (L : Link σ ℓ τ ρ α ω) (c : Pipe σ τ α) (w : ω) : Prop :=
  L.shut c.sender.state = some w ∧ c.wire = []

/-- What is taken stays taken. -/
theorem taken_step (L : Link σ ℓ τ ρ α ω) (c : Pipe σ τ α) (m : Move ℓ ρ) :
    c.taken <+: (step L c m).taken := by
  cases m with
  | send l => exact List.prefix_rfl
  | cut => exact List.prefix_rfl
  | recv r =>
      show c.taken <+: (c.took (L.take r)).taken
      cases L.take r with
      | msg m => exact List.prefix_append _ _
      | ending => exact List.prefix_rfl
      | nothing => exact List.prefix_rfl

/-- A drained pipe stays drained. -/
theorem Advances.drained {m : Move ℓ ρ} (h : Advances L I J c (step L c m)) (hsound : Sound L c)
    {w : ω} (hd : Drained L c w) : Drained L (step L c m) w := by
  obtain ⟨hshut, hout⟩ := h.more.2 w hd.1
  obtain ⟨rest, hrest⟩ := taken_step L c m
  refine ⟨hshut, ?_⟩
  have hcarried : c.taken ++ (rest ++ (step L c m).wire) = c.taken := by
    rw [← List.append_assoc, hrest, h.sound.carried, hout, hsound.taken_eq hd.2]
  exact (List.append_eq_nil_iff.mp (List.append_right_eq_self.mp hcarried)).2

/-- **The pipe.**  Wherever a run leads, the pipe is sound and the sender keeps its invariant; and
so does `K`, if every move keeps it that leads from such a pipe to such a pipe. -/
theorem invariant {K : Pipe σ τ α → Prop} {P : Pipe σ τ α → Move ℓ ρ → Prop}
    (hP : ∀ c m, P c m → c.Allowed L A B m) (hsends : Sends L A I J)
    (hK : ∀ c m, Sound L c → Process.Holds I J c.sender → K c → P c m →
      Advances L I J c (step L c m) → K (step L c m))
    {ms : List (Move ℓ ρ)} (hsound : Sound L c) (hI : Process.Holds I J c.sender) (hc : K c)
    (h : Along L P c ms) :
    Sound L (after L c ms) ∧ Process.Holds I J (after L c ms).sender ∧ K (after L c ms) := by
  refine run_keeps (J := fun c => Sound L c ∧ Process.Holds I J c.sender ∧ K c) ?_
    ⟨hsound, hI, hc⟩ h
  rintro c m ⟨hsound, hI, hc⟩ hm
  have hstep := hsound.step hsends hI (hP c m hm)
  exact ⟨hstep.sound, hstep.sender, hK c m hsound hI hc hm hstep⟩

end Pipe

end Prog
