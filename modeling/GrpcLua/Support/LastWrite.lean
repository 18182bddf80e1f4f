import Mathlib.Data.List.Perm.Basic
import Mathlib.Data.List.Forall2
import Mathlib.Data.List.Induction

/-!
# Support — LastWrite

Stores in which the last write of a place wins.  A write may touch several places; a run converts
each entry of a list to a write, or fails, and applies the writes in the order of the entries.

A run does not depend on the order of its entries exactly if its writes agree wherever two of them
touch one place (`run_perm` and `agree_of_perm`).
-/

/-- What a write puts where.  `Valid` are the representations in which two stores that look the same
are the same. -/
structure LastWrite (σ ω κ α : Type*) where
  apply : σ → ω → σ
  look : σ → κ → α
  /-- What the write puts at the place, if it touches it. -/
  touch : ω → κ → Option α
  Valid : σ → Prop
  valid_apply : ∀ s w, Valid s → Valid (apply s w)
  look_apply : ∀ s w x, Valid s → look (apply s w) x = (touch w x).getD (look s x)
  ext : ∀ s s', Valid s → Valid s' → (∀ x, look s x = look s' x) → s = s'

namespace LastWrite

/-! ### Lists of conversions -/

section
variable {ε ω : Type*} {f g : ε → Option ω}

theorem mapM_cons_eq_some {e : ε} {es : List ε} {ws : List ω} :
    (e :: es).mapM f = some ws ↔ ∃ w ws', f e = some w ∧ es.mapM f = some ws' ∧ ws = w :: ws' := by
  cases he : f e <;> cases hes : es.mapM f <;> simp [List.mapM_cons, he, hes, eq_comm]

/-- What a list converts to, entry by entry. -/
theorem mapM_eq_some {es : List ε} {ws : List ω} :
    es.mapM f = some ws ↔ List.Forall₂ (fun e w => f e = some w) es ws := by
  induction es generalizing ws with
  | nil => simp [eq_comm]
  | cons e es ih =>
      rw [mapM_cons_eq_some]
      constructor
      · rintro ⟨w, ws', hw, hws, rfl⟩
        exact .cons hw (ih.1 hws)
      · rintro (_ | ⟨hw, hws⟩)
        exact ⟨_, _, hw, ih.2 hws, rfl⟩

/-- The parts of a list convert separately. -/
theorem mapM_append_eq_some {es es' : List ε} {ws : List ω} :
    (es ++ es').mapM f = some ws ↔
      ∃ us vs, es.mapM f = some us ∧ es'.mapM f = some vs ∧ ws = us ++ vs := by
  cases h : es.mapM f <;> cases h' : es'.mapM f <;> simp [List.mapM_append, h, h', eq_comm]

/-- The list converts exactly if each entry does. -/
theorem mapM_isSome {es : List ε} : (es.mapM f).isSome ↔ ∀ e ∈ es, (f e).isSome := by
  induction es with
  | nil => simp
  | cons e es ih => cases h : f e <;> cases h' : es.mapM f <;> simp_all [List.mapM_cons]

/-- Conversions that agree on the entries. -/
theorem mapM_congr {es : List ε} (h : ∀ e ∈ es, f e = g e) : es.mapM f = es.mapM g := by
  induction es with
  | nil => rfl
  | cons e es ih =>
      rw [List.mapM_cons, List.mapM_cons, h e List.mem_cons_self,
        ih fun e he => h e (List.mem_cons_of_mem _ he)]

/-- Conversions of one list that come out the same convert each entry alike. -/
theorem eq_of_mapM_eq {es : List ε} (h : es.mapM f = es.mapM g) (hsome : (es.mapM f).isSome) {e : ε}
    (he : e ∈ es) : f e = g e := by
  induction es with
  | nil => cases he
  | cons e' es ih =>
      obtain ⟨ws, hws⟩ := Option.isSome_iff_exists.1 hsome
      obtain ⟨w, us, hw, hus, rfl⟩ := mapM_cons_eq_some.1 hws
      obtain ⟨w', us', hw', hus', heq⟩ := mapM_cons_eq_some.1 (h ▸ hws)
      obtain ⟨rfl, rfl⟩ := List.cons.inj heq
      rcases List.mem_cons.1 he with rfl | he
      · exact hw.trans hw'.symm
      · exact ih (hus.trans hus'.symm) (hus ▸ rfl) he

/-- Conversions by index that give the elements of a list give the list. -/
theorem mapM_range {g : ℕ → Option ω} {ws : List ω} (h : ∀ n w, ws[n]? = some w → g n = some w) :
    (List.range ws.length).mapM g = some ws := by
  induction ws using List.reverseRecOn with
  | nil => rfl
  | append_singleton ws w ih =>
      rw [List.length_append, List.length_singleton, List.range_succ, mapM_append_eq_some]
      refine ⟨ws, [w], ih fun n w' hw' => ?_, ?_, rfl⟩
      · refine h n w' ?_
        obtain ⟨hn, -⟩ := List.getElem?_eq_some_iff.1 hw'
        rwa [List.getElem?_append_left hn]
      · exact mapM_cons_eq_some.2 ⟨w, [], h _ w (by simp), rfl, rfl⟩

/-- What stands at a place of the converted list. -/
theorem getElem?_mapM {es : List ε} {ws : List ω} (h : es.mapM f = some ws) (n : ℕ) :
    es[n]?.map f = ws[n]?.map some := by
  rw [mapM_eq_some] at h
  induction h generalizing n with
  | nil => rfl
  | cons he _ ih =>
      cases n with
      | zero => simp [he]
      | succ n => simpa using ih n

/-- Lists that convert alike, entry by entry. -/
theorem mapM_congr₂ {es fs : List ε} (h : List.Forall₂ (fun e e' => f e' = f e) es fs) :
    fs.mapM f = es.mapM f := by
  induction h with
  | nil => rfl
  | cons he _ ih => rw [List.mapM_cons, List.mapM_cons, he, ih]

/-- Every entry has its conversion in the result. -/
theorem exists_of_mem_mapM {es : List ε} {ws : List ω} (h : es.mapM f = some ws) {e : ε}
    (he : e ∈ es) : ∃ w ∈ ws, f e = some w := by
  rw [mapM_eq_some] at h
  induction h with
  | nil => simp at he
  | cons hw _ ih =>
      rcases List.mem_cons.1 he with rfl | he
      · exact ⟨_, List.mem_cons_self, hw⟩
      · obtain ⟨w, hmem, hw⟩ := ih he
        exact ⟨w, List.mem_cons_of_mem _ hmem, hw⟩

/-- Everything in the result converts some entry. -/
theorem exists_of_mem_converted {es : List ε} {ws : List ω} (h : es.mapM f = some ws) {w : ω}
    (hw : w ∈ ws) : ∃ e ∈ es, f e = some w := by
  rw [mapM_eq_some] at h
  induction h with
  | nil => simp at hw
  | cons he _ ih =>
      rcases List.mem_cons.1 hw with rfl | hw
      · exact ⟨_, List.mem_cons_self, he⟩
      · obtain ⟨e, hmem, he⟩ := ih hw
        exact ⟨e, List.mem_cons_of_mem _ hmem, he⟩

/-- A reordered list converts to the reordered result. -/
theorem mapM_perm {es es' : List ε} (hp : es.Perm es') {ws : List ω} (h : es.mapM f = some ws) :
    ∃ ws', es'.mapM f = some ws' ∧ ws.Perm ws' := by
  induction hp generalizing ws with
  | nil => exact ⟨ws, h, .refl _⟩
  | cons e _ ih =>
      obtain ⟨w, vs, hw, hvs, rfl⟩ := mapM_cons_eq_some.1 h
      obtain ⟨vs', hvs', hp⟩ := ih hvs
      exact ⟨w :: vs', mapM_cons_eq_some.2 ⟨w, vs', hw, hvs', rfl⟩, hp.cons w⟩
  | swap e e' es =>
      obtain ⟨w', vs, hw', hvs, rfl⟩ := mapM_cons_eq_some.1 h
      obtain ⟨w, vs', hw, hvs', rfl⟩ := mapM_cons_eq_some.1 hvs
      exact ⟨w :: w' :: vs', mapM_cons_eq_some.2
        ⟨w, _, hw, mapM_cons_eq_some.2 ⟨w', vs', hw', hvs', rfl⟩, rfl⟩, .swap w w' vs'⟩
  | trans _ _ ih₁ ih₂ =>
      obtain ⟨vs, hvs, hp₁⟩ := ih₁ h
      obtain ⟨ws', hws', hp₂⟩ := ih₂ hvs
      exact ⟨ws', hws', hp₁.trans hp₂⟩

/-- Whether a list converts does not depend on the order. -/
theorem mapM_eq_none_perm {es es' : List ε} (hp : es.Perm es') :
    es.mapM f = none ↔ es'.mapM f = none := by
  rw [← Option.not_isSome_iff_eq_none, ← Option.not_isSome_iff_eq_none, mapM_isSome, mapM_isSome]
  simp only [hp.mem_iff]

end

/-! ### The writes, one after another -/

variable {σ ω κ α ε : Type*} (M : LastWrite σ ω κ α)

def writeAll (s : σ) (ws : List ω) : σ := ws.foldl M.apply s

/-- No two of the writes put different things at one place. -/
def Agree (ws : List ω) : Prop :=
  ∀ w ∈ ws, ∀ w' ∈ ws, ∀ x a b, M.touch w x = some a → M.touch w' x = some b → a = b

@[simp] theorem writeAll_nil (s : σ) : M.writeAll s [] = s := rfl

theorem writeAll_append (s : σ) (ws ws' : List ω) :
    M.writeAll s (ws ++ ws') = M.writeAll (M.writeAll s ws) ws' := List.foldl_append

/-- The last write comes after the others. -/
theorem writeAll_concat (s : σ) (ws : List ω) (w : ω) :
    M.writeAll s (ws ++ [w]) = M.apply (M.writeAll s ws) w := writeAll_append M s ws [w]

variable {M}
variable {s : σ} {ws ws' : List ω} {w : ω} {x : κ} {a : α}

/-- Writes keep the representation valid. -/
theorem valid_writeAll (hs : M.Valid s) (ws : List ω) : M.Valid (M.writeAll s ws) := by
  induction ws generalizing s with
  | nil => exact hs
  | cons w ws ih => exact ih (M.valid_apply s w hs)

/-- The last write is seen where it touches; elsewhere the others are. -/
theorem look_concat (hs : M.Valid s) :
    M.look (M.writeAll s (ws ++ [w])) x = (M.touch w x).getD (M.look (M.writeAll s ws) x) := by
  rw [writeAll_concat, M.look_apply _ _ _ (valid_writeAll hs ws)]

/-- The last write of a place wins. -/
theorem look_last (hs : M.Valid s) (h : M.touch w x = some a)
    (later : ∀ w' ∈ ws', M.touch w' x = none) :
    M.look (M.writeAll s (ws ++ w :: ws')) x = a := by
  induction ws' using List.reverseRecOn with
  | nil => rw [look_concat hs, h]; rfl
  | append_singleton ws' w' ih =>
      rw [← List.cons_append, ← List.append_assoc, look_concat hs, later w' (by simp)]
      exact ih fun w'' hw'' => later w'' (by simp [hw''])

/-- A place that no write touches is as before. -/
theorem look_untouched (hs : M.Valid s) (h : ∀ w ∈ ws, M.touch w x = none) :
    M.look (M.writeAll s ws) x = M.look s x := by
  induction ws using List.reverseRecOn with
  | nil => rfl
  | append_singleton ws w ih =>
      rw [look_concat hs, h w (by simp)]
      exact ih fun w' hw' => h w' (by simp [hw'])

/-- A place holds what some write has put there, or what it held before them all. -/
theorem look_cases (hs : M.Valid s) (ws : List ω) (x : κ) :
    (∃ us w vs a, ws = us ++ w :: vs ∧ M.touch w x = some a ∧ (∀ w' ∈ vs, M.touch w' x = none) ∧
        M.look (M.writeAll s ws) x = a) ∨
      ((∀ w ∈ ws, M.touch w x = none) ∧ M.look (M.writeAll s ws) x = M.look s x) := by
  induction ws using List.reverseRecOn with
  | nil => exact .inr (by simp)
  | append_singleton ws w ih =>
      cases hw : M.touch w x with
      | some a => exact .inl ⟨ws, w, [], a, rfl, hw, by simp, by rw [look_concat hs, hw]; rfl⟩
      | none =>
          have hlook : M.look (M.writeAll s (ws ++ [w])) x = M.look (M.writeAll s ws) x := by
            rw [look_concat hs, hw]; rfl
          rcases ih with ⟨us, v, vs, a, rfl, hv, hvs, ha⟩ | ⟨hws, ha⟩
          · refine .inl ⟨us, v, vs ++ [w], a, by simp, hv, ?_, by rw [hlook, ha]⟩
            intro w' hw'
            rcases List.mem_append.1 hw' with hw' | hw'
            · exact hvs w' hw'
            · rwa [List.mem_singleton.1 hw']
          · refine .inr ⟨?_, by rw [hlook, ha]⟩
            intro w' hw'
            rcases List.mem_append.1 hw' with hw' | hw'
            · exact hws w' hw'
            · rwa [List.mem_singleton.1 hw']

/-- Writes that agree are seen wherever one of them touches. -/
theorem look_agree (hs : M.Valid s) (h : M.Agree ws) (hw : w ∈ ws) (ha : M.touch w x = some a) :
    M.look (M.writeAll s ws) x = a := by
  rcases look_cases hs ws x with ⟨us, v, vs, b, rfl, hv, -, hb⟩ | ⟨hws, -⟩
  · rw [hb]
    exact h v (by simp) w hw x b a hv ha
  · rw [hws w hw] at ha
    cases ha

/-- Writes that agree may be reordered. -/
theorem writeAll_perm (hs : M.Valid s) (h : M.Agree ws) (hp : ws.Perm ws') :
    M.writeAll s ws' = M.writeAll s ws := by
  refine M.ext _ _ (valid_writeAll hs _) (valid_writeAll hs _) fun x => ?_
  rcases look_cases hs ws' x with ⟨us, v, vs, b, rfl, hv, -, hb⟩ | ⟨hws, hb⟩
  · rw [hb, look_agree hs h (hp.mem_iff.2 (by simp)) hv]
  · rw [hb, look_untouched hs fun w hw => hws w (hp.mem_iff.1 hw)]

/-! ### A run: each entry is converted to a write -/

variable (M)

def run (write : ε → Option ω) (s : σ) (es : List ε) : Option σ :=
  (es.mapM write).map (M.writeAll s)

variable {M}
variable {write : ε → Option ω} {es es' : List ε} {s' : σ}

/-- A run converts all entries, and then writes them. -/
theorem run_eq_some :
    M.run write s es = some s' ↔ ∃ ws, es.mapM write = some ws ∧ M.writeAll s ws = s' := by
  simp [run]

/-- A run takes the entries one by one. -/
theorem run_cons {e : ε} :
    M.run write s (e :: es) = (write e).bind fun w => M.run write (M.apply s w) es := by
  cases he : write e <;> cases hes : es.mapM write <;> simp [run, List.mapM_cons, he, hes, writeAll]

/-- A run fails where an entry does not convert. -/
theorem run_isSome : (M.run write s es).isSome ↔ ∀ e ∈ es, (write e).isSome := by
  rw [run, Option.isSome_map, mapM_isSome]

/-- Writes that agree may be made in any order. -/
theorem run_perm (hs : M.Valid s) (h : ∀ ws, es.mapM write = some ws → M.Agree ws)
    (hp : es.Perm es') : M.run write s es' = M.run write s es := by
  cases hes : es.mapM write with
  | none => rw [run, run, hes, (mapM_eq_none_perm hp).1 hes]
  | some ws =>
      obtain ⟨ws', hes', hpw⟩ := mapM_perm hp hes
      rw [run, run, hes, hes', Option.map_some, Option.map_some, writeAll_perm hs (h ws hes) hpw]

/-- What the last entry has written is there. -/
theorem run_concat (hs : M.Valid s) {e : ε} (h : M.run write s (es ++ [e]) = some s') :
    ∃ w, write e = some w ∧ ∀ x a, M.touch w x = some a → M.look s' x = a := by
  obtain ⟨ws, hws, rfl⟩ := run_eq_some.1 h
  obtain ⟨us, vs, -, hvs, rfl⟩ := mapM_append_eq_some.1 hws
  obtain ⟨w, ws', hw, hnil, rfl⟩ := mapM_cons_eq_some.1 hvs
  obtain rfl : ws' = [] := by simpa [eq_comm] using hnil
  exact ⟨w, hw, fun x a ha => by rw [look_concat hs, ha]; rfl⟩

/-- Where each of two entries may come last, they agree. -/
theorem agree_of_perm (hs : M.Valid s) {s' : σ}
    (h : ∀ es', es.Perm es' → M.run write s es' = some s') {e e' : ε} (he : e ∈ es) (he' : e' ∈ es)
    {w w' : ω} (hw : write e = some w) (hw' : write e' = some w') {b : α}
    (ha : M.touch w x = some a) (hb : M.touch w' x = some b) : a = b := by
  have last : ∀ {e : ε} {w : ω} {a : α}, e ∈ es → write e = some w → M.touch w x = some a →
      M.look s' x = a := by
    intro e w a he hw ha
    obtain ⟨us, vs, rfl⟩ := List.append_of_mem he
    have hp : (us ++ e :: vs).Perm ((us ++ vs) ++ [e]) :=
      List.perm_middle.trans (List.perm_append_singleton e (us ++ vs)).symm
    obtain ⟨w', hw', htouch⟩ := run_concat hs (h _ hp)
    obtain rfl : w = w' := Option.some.inj (hw.symm.trans hw')
    exact htouch x a ha
  exact (last he hw ha).symm.trans (last he' hw' hb)

end LastWrite
