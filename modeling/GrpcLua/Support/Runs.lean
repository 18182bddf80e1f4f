import GrpcLua.Support.Programs

/-!
# Support — Runs

Processes that take one step after another.  `exec l` is what the step labelled `l` does to the
state.  A step that returns, or that an exception leaves, is followed by further steps; a failed
assertion and undefined behaviour stop the process where they occur.

`after exec c ls` is where the run `ls` leads, and `Along exec P c ls` says that each of its
steps is taken in a state where `P` allows it.  `invariant` is the induction over a run.
-/

namespace Prog

/-- A process that can take another step, or has stopped at an exit. -/
inductive Process (σ : Type) where
  | running (s : σ)
  | stopped (e : Exit) (s : σ)
  deriving DecidableEq, Repr

namespace Process
variable {σ ℓ : Type} {exec : ℓ → EStateM Exit σ Unit}

def state : Process σ → σ
  | running s => s
  | stopped _ s => s

@[simp] theorem state_running (s : σ) : (running s).state = s := rfl
@[simp] theorem state_stopped (e : Exit) (s : σ) : (stopped e s).state = s := rfl

/-- The process a step leaves: only an assertion and undefined behaviour stop it. -/
def settle : EStateM.Result Exit σ Unit → Process σ
  | .ok _ s => running s
  | .error .exception s => running s
  | .error .assertion s => stopped .assertion s
  | .error .undefined s => stopped .undefined s

/-- One step of the process. -/
def next (exec : ℓ → EStateM Exit σ Unit) : Process σ → ℓ → Process σ
  | running s, l => settle (exec l s)
  | stopped e s, _ => stopped e s

/-- Where the steps `ls` lead. -/
def after (exec : ℓ → EStateM Exit σ Unit) (c : Process σ) (ls : List ℓ) : Process σ :=
  ls.foldl (next exec) c

/-- Every step of the run is taken in a state where `P` allows it.  A process that has stopped
takes no step. -/
def Along (exec : ℓ → EStateM Exit σ Unit) (P : σ → ℓ → Prop) : Process σ → List ℓ → Prop
  | _, [] => True
  | running s, l :: ls => P s l ∧ Along exec P (next exec (running s) l) ls
  | stopped _ _, _ :: _ => True

instance Along.decidable {P : σ → ℓ → Prop} [∀ s l, Decidable (P s l)] :
    ∀ (c : Process σ) (ls : List ℓ), Decidable (Along exec P c ls)
  | running _, [] => isTrue trivial
  | stopped _ _, [] => isTrue trivial
  | running s, l :: ls =>
      have := Along.decidable (P := P) (next exec (running s) l) ls
      inferInstanceAs (Decidable (P s l ∧ Along exec P (next exec (running s) l) ls))
  | stopped _ _, _ :: _ => isTrue trivial

/-- `I` of a running process, `J` of the exit and the state of a stopped one. -/
def Holds (I : σ → Prop) (J : Exit → σ → Prop) : Process σ → Prop
  | running s => I s
  | stopped e s => J e s

/-- The postcondition of an exit: an exception keeps the process running. -/
def Leaves (I : σ → Prop) (J : Exit → σ → Prop) : Exit → σ → Prop
  | .exception => I
  | e => J e

@[simp] theorem after_nil (c : Process σ) : after exec c [] = c := rfl

@[simp] theorem after_cons (c : Process σ) (l : ℓ) (ls : List ℓ) :
    after exec c (l :: ls) = after exec (next exec c l) ls := rfl

/-- A run in two parts. -/
theorem after_append (c : Process σ) (ls ls' : List ℓ) :
    after exec c (ls ++ ls') = after exec (after exec c ls) ls' := List.foldl_append

/-- A stopped process stays as it is. -/
theorem after_stopped (e : Exit) (s : σ) (ls : List ℓ) :
    after exec (stopped e s) ls = stopped e s := by
  induction ls with
  | nil => rfl
  | cons l ls ih => exact ih

/-- A condition on the steps alone holds along any run of such steps. -/
theorem Along.of_forall {P : ℓ → Prop} : ∀ {ls : List ℓ} {c : Process σ},
    (∀ l ∈ ls, P l) → Along exec (fun _ l => P l) c ls
  | [], _, _ => by cases ‹Process σ› <;> trivial
  | l :: ls, running _, h =>
      ⟨h l List.mem_cons_self, of_forall fun l' hl' => h l' (List.mem_cons_of_mem l hl')⟩
  | _ :: _, stopped _ _, _ => trivial

/-- Two conditions along one run. -/
theorem Along.and {P P' : σ → ℓ → Prop} {ls : List ℓ} {c : Process σ}
    (h : Along exec P c ls) (h' : Along exec P' c ls) :
    Along exec (fun s l => P s l ∧ P' s l) c ls := by
  induction ls generalizing c with
  | nil => trivial
  | cons l ls ih =>
      cases c with
      | running s => exact ⟨⟨h.1, h'.1⟩, ih h.2 h'.2⟩
      | stopped e s => trivial

/-- A weaker condition along the run. -/
theorem Along.imp {P P' : σ → ℓ → Prop} (himp : ∀ s l, P s l → P' s l) {ls : List ℓ}
    {c : Process σ} (h : Along exec P c ls) : Along exec P' c ls := by
  induction ls generalizing c with
  | nil => trivial
  | cons l ls ih =>
      cases c with
      | running s => exact ⟨himp s l h.1, ih h.2⟩
      | stopped e s => trivial

/-- The steps of a run, and those that follow. -/
theorem along_append {P : σ → ℓ → Prop} {ls ls' : List ℓ} {c : Process σ} :
    Along exec P c (ls ++ ls') ↔ Along exec P c ls ∧ Along exec P (after exec c ls) ls' := by
  induction ls generalizing c with
  | nil => cases c <;> exact ⟨fun h => ⟨trivial, h⟩, fun h => h.2⟩
  | cons l ls ih =>
      cases c with
      | running s => exact (and_congr_right fun _ => ih).trans and_assoc.symm
      | stopped e s =>
          rw [after_stopped]
          cases ls' <;> exact ⟨fun _ => ⟨trivial, trivial⟩, fun _ => trivial⟩

/-- What a step keeps, the process keeps. -/
theorem holds_next {I : σ → Prop} {J : Exit → σ → Prop} {s : σ} {l : ℓ}
    (h : wp (exec l) (fun _ => I) (Leaves I J) s) : Holds I J (next exec (running s) l) := by
  unfold wp at h
  simp only [next]
  cases hx : exec l s with
  | ok a s' => rw [hx] at h; exact h
  | error e s' =>
      rw [hx] at h
      cases e <;> exact h

/-- The state that a step leaves, however it ends. -/
theorem state_next {J : σ → Prop} {s : σ} {l : ℓ}
    (h : wp (exec l) (fun _ => J) (fun _ => J) s) : J (next exec (running s) l).state := by
  have hw : wp (exec l) (fun _ => J) (Leaves J fun _ => J) s :=
    wp_mono h (fun _ _ k => k) fun e _ k => by cases e <;> exact k
  have hh := holds_next hw
  cases hs : next exec (running s) l with
  | running s' => rw [hs] at hh; exact hh
  | stopped e s' => rw [hs] at hh; exact hh

/-- A step that returns in a known state. -/
theorem next_returns {s t : σ} {l : ℓ}
    (h : wp (exec l) (fun _ s' => s' = t) (fun _ _ => False) s) :
    next exec (running s) l = running t := by
  unfold wp at h
  simp only [next]
  cases hx : exec l s with
  | error e s' => rw [hx] at h; exact h.elim
  | ok a s' =>
      rw [hx] at h
      exact congrArg running h

/-- A step that returns, or leaves by an exception, keeps the process running. -/
theorem runs_next {I : σ → Prop} {s : σ} {l : ℓ}
    (h : wp (exec l) (fun _ => I) (Leaves I fun _ _ => False) s) :
    ∃ s', next exec (running s) l = running s' ∧ I s' := by
  have hh := holds_next h
  cases hs : next exec (running s) l with
  | running s' =>
      rw [hs] at hh
      exact ⟨s', rfl, hh⟩
  | stopped e s' =>
      rw [hs] at hh
      exact hh.elim

/-- A step that never returns stops the process. -/
theorem stops_next {J : Exit → σ → Prop} {s : σ} {l : ℓ}
    (h : wp (exec l) (fun _ _ => False) (Leaves (fun _ => False) J) s) :
    ∃ e s', next exec (running s) l = stopped e s' ∧ J e s' := by
  have hh := holds_next h
  cases hs : next exec (running s) l with
  | running s' =>
      rw [hs] at hh
      exact hh.elim
  | stopped e s' =>
      rw [hs] at hh
      exact ⟨e, s', rfl, hh⟩

/-- What every step keeps, a run keeps. -/
theorem run_keeps {I : σ → Prop} {R : σ → σ → Prop} (hrefl : ∀ s, R s s)
    (htrans : ∀ a b c, R a b → R b c → R a c) (hstep : ∀ l, Keeps I R (exec l)) {c : Process σ}
    (hc : I c.state) (ls : List ℓ) :
    I (after exec c ls).state ∧ R c.state (after exec c ls).state := by
  induction ls generalizing c with
  | nil => exact ⟨hc, hrefl _⟩
  | cons l ls ih =>
      cases c with
      | stopped e s =>
          rw [after_stopped]
          exact ⟨hc, hrefl _⟩
      | running s =>
          have hnext := state_next (hstep l s hc)
          obtain ⟨hI, hR⟩ := ih hnext.1
          exact ⟨hI, htrans _ _ _ hnext.2 hR⟩

/-- A first step that returns, and the rest of the run. -/
theorem after_returns {Q : Unit → σ → Prop} {P : σ → ℓ → Prop} {s : σ} {l : ℓ} {ls : List ℓ}
    (hw : wp (exec l) Q (fun _ _ => False) s) (h : Along exec P (running s) (l :: ls)) :
    ∃ s₁, Q () s₁ ∧ Along exec P (running s₁) ls ∧
      after exec (running s) (l :: ls) = after exec (running s₁) ls := by
  unfold wp at hw
  have hrest := h.2
  rw [after_cons]
  simp only [next] at hrest ⊢
  cases hx : exec l s with
  | error e s₁ => rw [hx] at hw; exact hw.elim
  | ok a s₁ =>
      rw [hx] at hw hrest
      exact ⟨s₁, hw, hrest, rfl⟩

/-- What holds of the process at first, and what every step that `P` allows preserves, holds
wherever a run of such steps leads. -/
theorem invariant {I : σ → Prop} {J : Exit → σ → Prop} {P : σ → ℓ → Prop}
    (hstep : ∀ s l, I s → P s l → wp (exec l) (fun _ => I) (Leaves I J) s) {ls : List ℓ}
    {c : Process σ} (hc : Holds I J c) (h : Along exec P c ls) :
    Holds I J (after exec c ls) := by
  induction ls generalizing c with
  | nil => exact hc
  | cons l ls ih =>
      cases c with
      | running s => exact ih (holds_next (hstep s l hc h.1)) h.2
      | stopped e s => rw [after_stopped]; exact hc

/-- The steps in `P` preserve `I`, every other step leads to `L`, and no step leads out of `L`:
where a run ends says whether it was made of steps in `P`. -/
theorem along_or {I L : σ → Prop} {J : Exit → σ → Prop} {A P : σ → ℓ → Prop}
    (hgood : ∀ s l, I s → A s l → P s l → wp (exec l) (fun _ => I) (Leaves I J) s)
    (hbad : ∀ s l, I s → A s l → ¬ P s l → wp (exec l) (fun _ => L) (Leaves L J) s)
    (hlost : ∀ s l, L s → A s l → wp (exec l) (fun _ => L) (Leaves L J) s) {ls : List ℓ}
    {c : Process σ} (hc : Holds I J c) (hls : Along exec A c ls) :
    Along exec P c ls ∧ Holds I J (after exec c ls) ∨
      ¬ Along exec P c ls ∧ Holds L J (after exec c ls) := by
  induction ls generalizing c with
  | nil => exact .inl ⟨trivial, hc⟩
  | cons l ls ih =>
      cases c with
      | stopped e s =>
          rw [after_stopped]
          exact .inl ⟨trivial, hc⟩
      | running s =>
          by_cases hP : P s l
          · rcases ih (holds_next (hgood s l hc hls.1 hP)) hls.2 with ⟨h, h'⟩ | ⟨h, h'⟩
            · exact .inl ⟨⟨hP, h⟩, h'⟩
            · exact .inr ⟨fun h'' => h h''.2, h'⟩
          · refine .inr ⟨fun h => hP h.1, ?_⟩
            exact invariant hlost (c := next exec (running s) l)
              (holds_next (hbad s l hc hls.1 hP)) hls.2

/-- The invariant of a state, whether the process runs or has stopped. -/
theorem invariant_state {I : σ → Prop} {P : σ → ℓ → Prop}
    (hstep : ∀ s l, I s → P s l → wp (exec l) (fun _ => I) (fun _ => I) s) {ls : List ℓ}
    {c : Process σ} (hc : I c.state) (h : Along exec P c ls) : I (after exec c ls).state := by
  have hw : ∀ s l, I s → P s l → wp (exec l) (fun _ => I) (Leaves I fun _ => I) s :=
    fun s l hI hP => wp_mono (hstep s l hI hP) (fun _ _ k => k)
      fun e _ k => by cases e <;> exact k
  have hI : ∀ c : Process σ, Holds I (fun _ => I) c ↔ I c.state := fun c => by cases c <;> rfl
  exact (hI _).mp (invariant hw ((hI c).mpr hc) h)

/-- The invariant of a run and of the steps it has taken, where no step leaves by an exit. -/
theorem history {I : List ℓ → σ → Prop} {P : σ → ℓ → Prop} {s₀ : σ} (h₀ : I [] s₀)
    (hstep : ∀ pre s l, after exec (running s₀) pre = running s → I pre s → P s l →
      wp (exec l) (fun _ => I (pre ++ [l])) (fun _ _ => False) s)
    {ls : List ℓ} (hls : Along exec P (running s₀) ls) :
    ∃ s, after exec (running s₀) ls = running s ∧ I ls s := by
  suffices h : ∀ ls pre s, after exec (running s₀) pre = running s → I pre s →
      Along exec P (running s) ls →
      ∃ s', after exec (running s) ls = running s' ∧ I (pre ++ ls) s' from h ls [] s₀ rfl h₀ hls
  intro ls
  induction ls with
  | nil => exact fun pre s _ hI _ => ⟨s, rfl, by rwa [List.append_nil]⟩
  | cons l ls ih =>
      rintro pre s hpre hI ⟨hP, hls⟩
      have hw := hstep pre s l hpre hI hP
      unfold wp at hw
      cases hx : exec l s with
      | error e s' => rw [hx] at hw; exact hw.elim
      | ok a s' =>
          rw [hx] at hw
          have hnext : next exec (running s) l = running s' := by rw [next, hx, settle]
          rw [hnext] at hls
          obtain ⟨s₁, hs₁, h₁⟩ := ih (pre ++ [l]) s'
            (by rw [after_append, hpre]; exact hnext) hw hls
          refine ⟨s₁, ?_, by rwa [List.append_assoc] at h₁⟩
          rw [after_cons, hnext, hs₁]

/-- A property that the steps in `P` preserve, through the invariant `I`, and that every other step
destroys: it holds of every process that a run reaches exactly when the run is made of steps in
`P`.  `A` are the steps that can be taken at all. -/
theorem along_iff_next {I Q : Process σ → Prop} {A P : σ → ℓ → Prop} (hQ : ∀ c, I c → Q c)
    (hgood : ∀ s l, I (running s) → A s l → P s l → I (next exec (running s) l))
    (hbad : ∀ s l, I (running s) → A s l → ¬ P s l → ¬ Q (next exec (running s) l))
    {ls : List ℓ} {c : Process σ} (hc : I c) (hls : Along exec A c ls) :
    (∀ pre, pre <+: ls → Q (after exec c pre)) ↔ Along exec P c ls := by
  induction ls generalizing c with
  | nil =>
      refine ⟨fun _ => trivial, fun _ pre hpre => ?_⟩
      rw [List.prefix_nil.mp hpre]
      exact hQ _ hc
  | cons l ls ih =>
      cases c with
      | stopped e s =>
          refine ⟨fun _ => trivial, fun _ pre _ => ?_⟩
          rw [after_stopped]
          exact hQ _ hc
      | running s =>
          constructor
          · intro h
            by_cases hP : P s l
            · refine ⟨hP, (ih (hgood s l hc hls.1 hP) hls.2).mp fun pre hpre => ?_⟩
              exact h (l :: pre) (List.cons_prefix_cons.mpr ⟨rfl, hpre⟩)
            · exact absurd (h [l] ⟨ls, rfl⟩) (hbad s l hc hls.1 hP)
          · rintro ⟨hP, h⟩ pre hpre
            rcases List.prefix_cons_iff.mp hpre with rfl | ⟨pre', rfl, hpre'⟩
            · exact hQ _ hc
            · exact (ih (hgood s l hc hls.1 hP) hls.2).mpr h pre' hpre'

/-- The same of a property of states, which says nothing of the exit of a stopped process. -/
theorem along_iff {I Q : σ → Prop} {A P : σ → ℓ → Prop} (hQ : ∀ s, I s → Q s)
    (hgood : ∀ s l, I s → A s l → P s l → wp (exec l) (fun _ => I) (fun _ => I) s)
    (hbad : ∀ s l, I s → A s l → ¬ P s l →
      wp (exec l) (fun _ s' => ¬ Q s') (fun _ s' => ¬ Q s') s)
    {ls : List ℓ} {c : Process σ} (hc : I c.state) (hls : Along exec A c ls) :
    (∀ pre, pre <+: ls → Q (after exec c pre).state) ↔ Along exec P c ls := by
  exact along_iff_next (I := fun c => I c.state) (Q := fun c => Q c.state) (fun c => hQ c.state)
    (fun s l hI hE hP => state_next (hgood s l hI hE hP))
    (fun s l hI hE hP => state_next (hbad s l hI hE hP)) hc hls

/-- The same where the property, once lost, is lost for ever: it is enough to look at the end. -/
theorem along_iff_last {I Q : σ → Prop} {A P : σ → ℓ → Prop} (hQ : ∀ s, I s → Q s)
    (hgood : ∀ s l, I s → A s l → P s l → wp (exec l) (fun _ => I) (fun _ => I) s)
    (hbad : ∀ s l, I s → A s l → ¬ P s l →
      wp (exec l) (fun _ s' => ¬ Q s') (fun _ s' => ¬ Q s') s)
    (hlost : ∀ s l, ¬ Q s → wp (exec l) (fun _ s' => ¬ Q s') (fun _ s' => ¬ Q s') s)
    {ls : List ℓ} {c : Process σ} (hc : I c.state) (hls : Along exec A c ls) :
    Q (after exec c ls).state ↔ Along exec P c ls := by
  rw [← along_iff hQ hgood hbad hc hls]
  refine ⟨?_, fun h => h ls List.prefix_rfl⟩
  rintro h pre ⟨rest, rfl⟩
  by_contra hpre
  have hrest : ¬ Q (after exec (after exec c pre) rest).state :=
    invariant_state (I := fun s => ¬ Q s) (P := fun _ _ => True) (fun s l hs _ => hlost s l hs) hpre
      (.of_forall fun _ _ => trivial)
  rw [after_append] at h
  exact hrest h

end Process

end Prog
