import RtSmart.Drivers.PipeServed

/-!
Lengths on their way into the ring buffer of a pipe: `rt_ringbuffer_get` and `rt_ringbuffer_put` take 16 bits of the
count that a read or a write passes. What a turn moves is a matter of the count alone; that the next turn comes is one
of the wait queues.
-/

namespace RtSmart

open Lib

namespace PipeSys

end PipeSys

section turns

variable {align capacity t count : ℕ} {s : PipeSys} {fd : PipeFd} {rb : RtRingbuffer} {data : List UInt8}

theorem PipeSys.writeTurn {ret : ℕ} (hr : RtRingbuffer.Refines capacity rb rb.contents) (hfd : fd.nonblock = false) :
    ∃ s' k, { s with pipe := { s.pipe with fifo := some rb } }.pipeFopsWrite t fd data ret = some s' ∧
      k = min (data.length % 2 ^ 16) (capacity - rb.contents.length) ∧ s'.written = s.written ++ data.take k ∧
      (data.drop k = [] → s'.pc t = .idle ∧ s'.ret t = some (.wrote (ret + k))) ∧
      (data.drop k ≠ [] → s'.pc t = .writing fd (data.drop k) (ret + k)) := by
  have hk := put_amount (fun i => data.getD i 0) (UInt16.ofNat data.length) hr
  rw [UInt16.toNat_ofNat'] at hk
  refine ⟨_, (rtRingbufferPut rb (fun i => data.getD i 0) (UInt16.ofNat data.length)).2, rfl, hk, ?_, fun hnil => ?_,
    fun hne => ?_⟩
  · simp only [hfd, Bool.false_eq_true, if_false]
    split_ifs
    · rfl
    · rfl
  · simp only [if_pos hnil]
    exact ⟨Function.update_self _ _ _, Function.update_self _ _ _⟩
  · simp only [if_neg hne, hfd, Bool.false_eq_true, if_false]
    exact Function.update_self _ _ _

end turns

section devices

variable {capacity : ℕ} {rb : RtRingbuffer}

end devices

/-- A read that empties the pipe wakes one of two sleeping writers, and the other one sleeps on with room for its byte. -/
theorem second_writer_sleeps : ¬ ∀ es s, run (PipeWaitSys.step 8) (.init true 8) es = some s →
    ∀ t tick, s.writers.pc t = .suspended tick → 8 ≤ s.sys.contents.length := by
  intro h
  have hrun : ((run (PipeWaitSys.step 8) (.init true 8) [.openFd pipeReader (some fun _ => 0), .openFd (pipeWriter 1) none,
      .write 7 (pipeWriter 1) [1, 2, 3, 4, 5, 6, 7, 8], .turn 7, .wake 7, .write 8 (pipeWriter 1) [9], .turn 8, .wake 8,
      .enter 8, .write 9 (pipeWriter 1) [10], .turn 9, .wake 9, .enter 9, .read 5 pipeReader 8, .turn 5, .clear 8,
      .remove 8, .turn 8, .wake 8]).any
        fun s => s.writers.pc 9 == .suspended (-1) && s.sys.contents == [9]) = true := by
    decide +kernel
  obtain ⟨s, hs, hp⟩ := (Option.any_eq_true _ _).mp hrun
  simp only [Bool.and_eq_true, beq_iff_eq] at hp
  have := h _ s hs 9 (-1) hp.1
  simp [hp.2] at this

end RtSmart
