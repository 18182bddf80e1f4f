import GrpcLua.Server.Writer.Definitions

/-!
# Server — Writer — Frames

What the functions of `ServerWriterImpl` do at most, in any state and however they end: they leave
the threads where they stand, hand batches to gRPC and nothing else, and only `AsyncWrite()` makes
the queue longer.
-/

namespace GrpcLua.ServerWriter
open Prog

variable {s s' : ServerWriter}

/-- The events are batches. -/
def OnlyBatches (evs : List (Event Cb)) : Prop := ∀ e ∈ evs, ∃ b r, e = .batch b r

/-- The threads stand where they stood, the queue has grown by at most `k`, and batches were handed
to gRPC. -/
structure Frame (k : Nat) (s s' : ServerWriter) : Prop where
  high : s'.highQueueSize = s.highQueueSize
  threads : s'.threads = s.threads
  queue : s'.queue.length ≤ s.queue.length + k
  trace : ∃ evs, s'.trace = s.trace ++ evs ∧ OnlyBatches evs

theorem OnlyBatches.nil : OnlyBatches [] := by
  intro e he
  cases he

theorem OnlyBatches.single (b : Batch) (r : Bool) : OnlyBatches [.batch b r] := by
  intro e he
  exact ⟨b, r, List.mem_singleton.mp he⟩

theorem Frame.refl (k : Nat) (s : ServerWriter) : Frame k s s :=
  ⟨rfl, rfl, Nat.le_add_right _ _, [], (List.append_nil _).symm, .nil⟩

theorem Frame.of_queue {k k' : Nat} (h : Frame k s s') (hk : k ≤ k') : Frame k' s s' :=
  { h with queue := Nat.le_trans h.queue (Nat.add_le_add_left hk _) }

theorem sendMsg_frame (m : Bytes) :
    wp (sendMsg m) (fun _ => Frame 0 s) (fun _ => Frame 0 s) s := by
  simp only [sendMsg, wp_bind, wp_check, wp_get, wp_modify, wp_startBatch, wp_ite, wp_pure, env_eq,
    setEnv_eq]
  split
  · split
    · split
      · exact ⟨rfl, rfl, Nat.le_refl _, _, rfl, .single _ _⟩
      · exact ⟨rfl, rfl, Nat.zero_le _, _, rfl, .single _ _⟩
    · exact .refl 0 s
  · exact .refl 0 s

theorem sendStatus_frame : wp sendStatus (fun _ => Frame 0 s) (fun _ => Frame 0 s) s := by
  simp only [sendStatus, wp_bind, wp_check, wp_get, wp_modify, wp_startBatch, wp_pure, env_eq,
    setEnv_eq]
  split
  · split
    · split
      · exact ⟨rfl, rfl, Nat.le_refl _, _, rfl, .single _ _⟩
      · exact .refl 0 s
    · exact .refl 0 s
  · exact .refl 0 s

/-- Only a write that returns true makes the queue longer. -/
theorem asyncWrite_frame (m : Bytes) :
    wp (asyncWrite m) (fun r => Frame (if r then 1 else 0) s) (fun _ => Frame 0 s) s := by
  simp only [asyncWrite, wp_bind, wp_get, wp_ite, wp_pure, wp_modify, wp_check]
  split
  · exact .refl _ s
  · split
    · exact ⟨rfl, rfl, by simp, [], (List.append_nil _).symm, .nil⟩
    · split
      · exact wp_mono (sendMsg_frame m) (fun _ _ h => h.of_queue (Nat.zero_le _)) fun _ _ h => h
      · exact .refl 0 s

theorem asyncClose_frame (status : Status) :
    wp (asyncClose status) (fun _ => Frame 0 s) (fun _ => Frame 0 s) s := by
  simp only [asyncClose, wp_bind, wp_get, wp_ite, wp_pure, wp_modify, wp_check]
  split
  · exact .refl 0 s
  · split
    · exact { Frame.refl 0 s with }
    · split
      · exact wp_mono sendStatus_frame (fun _ _ h => { h with }) fun _ _ h => { h with }
      · exact { Frame.refl 0 s with }

theorem popQueue_frame (h : Frame 0 s s') :
    wp popQueue (fun _ => Frame 0 s) (fun _ => Frame 0 s) s' := by
  simp only [popQueue, wp_bind, wp_get, wp_ite, wp_throw, wp_modify]
  split
  · exact h
  · refine { h with queue := Nat.le_trans ?_ h.queue }
    rw [List.length_tail]
    exact Nat.sub_le _ _

theorem tryToWriteNext_frame : wp tryToWriteNext (fun _ => Frame 0 s) (fun _ => Frame 0 s) s := by
  simp only [tryToWriteNext, wp_bind, wp_get, wp_ite, wp_pure, wp_modify, wp_check]
  split
  · exact .refl 0 s
  · split
    · refine wp_mono (sendMsg_frame _) (fun _ s' h => ?_) fun _ _ h => { h with }
      have hs' : Frame 0 s s' := { h with }
      refine wp_mono (popQueue_frame hs') (fun _ _ h' => ?_) fun _ _ h' => h'
      rwa [ite_self]
    · split
      · exact wp_mono sendStatus_frame (fun _ _ h => { h with }) fun _ _ h => { h with }
      · rw [ite_self]
        exact { Frame.refl 0 s with }

end GrpcLua.ServerWriter
