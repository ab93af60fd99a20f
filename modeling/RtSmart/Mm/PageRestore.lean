import RtSmart.Mm.PageGroups

/-!
A group that is freed right after its allocation gives back exactly the free blocks that were there
before.
-/

namespace RtSmart

open Lib PageAlloc

namespace PageAlloc

variable {s s' : PageAlloc} {n b : ℕ} {others : ℕ → Option ℕ}

/-- The addresses of the blocks on a free list. -/
def freeAddrs (s : PageAlloc) (k : ℕ) : List ℕ :=
  (s.freeBlocks k).map fun i => s.pageToAddr (some i)

theorem Inv.mem_freeAddrs (h : Inv s n others) {k addr : ℕ} (hk : k < archPageListSize) :
    addr ∈ s.freeAddrs k ↔ ∃ i, s.Free i k ∧ archPageSize * (s.base + i) = addr := by
  unfold freeAddrs
  rw [List.mem_map]
  apply exists_congr
  intro i
  rw [(h.freeBlocks hk).2.2, pageToAddr_page h]

theorem Inv.alloc_free (h : Inv s n others) (hb : b < archPageListSize) :
    (s.rtPagesAlloc b = some (s, 0) ∧ ∀ i k, b ≤ k → ¬ s.Free i k) ∨
      ∃ s1 s2 addr, s.rtPagesAlloc b = some (s1, addr) ∧ addr ≠ 0 ∧ s1.rtPagesFree addr b = some (s2, true) ∧
        Inv s2 n others ∧ s2.base = s.base := by
  rcases h.rtPagesAlloc hb with hnone | ⟨s1, p, halloc, h1, -, hne, ho, hbase, -, hr, -⟩
  · exact .inl hnone
  · have hself : Function.update others p (some b) p = some b := Function.update_self ..
    obtain ⟨s2, freed, hfree, hiff, h2, hbase2, -⟩ := h1.pagesFree hself (by omega)
    have htrue : freed = true := hiff.mpr hr
    rw [htrue] at hfree h2
    rw [if_pos rfl, Function.update_idem, ← ho, Function.update_eq_self] at h2
    refine .inr ⟨s1, s2, _, halloc, hne, ?_, h2, hbase2.trans hbase⟩
    rw [h1.rtPagesFree hself]
    exact hfree

end PageAlloc

namespace PageSys

theorem alloc_restores {start stop : ℕ} {a : PageAlloc} {events : List PageEvent} {s : PageSys} {b : ℕ}
    (hle : start ≤ stop) (hstop : stop < 2 ^ 64) (hinit : rtPageInit start stop = some a) (haddr : a.pageAddr ≠ 0)
    (hrun : run PageSys.step (init a) events = some s) (hb : b < archPageListSize) :
    ∃ a1 addr, s.alloc.rtPagesAlloc b = some (a1, addr) ∧
      (addr = 0 → ∀ k < archPageListSize, b ≤ k → s.alloc.freeAddrs k = []) ∧
      (addr ≠ 0 → ∃ a2, a1.rtPagesFree addr b = some (a2, true) ∧
        ∀ k < archPageListSize, ∀ block, block ∈ a2.freeAddrs k ↔ block ∈ s.alloc.freeAddrs k) := by
  obtain ⟨h, -, -⟩ := (tiled_init hle hstop hinit haddr).run hrun
  rcases h.alloc_free hb with ⟨halloc, hno⟩ | ⟨a1, a2, addr, halloc, hne, hfree, h2, hbase⟩
  · refine ⟨_, 0, halloc, ?_, fun hne => absurd rfl hne⟩
    intro _ k hk hbk
    apply List.eq_nil_iff_forall_not_mem.mpr
    intro block hmem
    obtain ⟨i, hi, -⟩ := (h.mem_freeAddrs hk).mp hmem
    exact hno i k hbk hi
  · refine ⟨a1, addr, halloc, fun hzero => absurd hzero hne, ?_⟩
    intro _
    refine ⟨a2, hfree, ?_⟩
    intro k hk block
    rw [h.mem_freeAddrs hk, h2.mem_freeAddrs hk, hbase]
    apply exists_congr
    intro i
    rw [h.same_free h2 hbase]

/-- The region has the pages 3 to 7; the second group is cut from the block of the pages 4 to 7. -/
theorem alloc_restores_split : ∃ (a : PageAlloc) (s : PageSys) (a1 : PageAlloc) (addr : ℕ),
    rtPageInit 0x2000 0x8000 = some a ∧ run PageSys.step (init a) [.alloc 0] = some s ∧
      s.alloc.rtPagesAlloc 1 = some (a1, addr) ∧
      (addr ≠ 0 → ∃ a2, a1.rtPagesFree addr 1 = some (a2, true) ∧
        ∀ k < archPageListSize, ∀ block, block ∈ a2.freeAddrs k ↔ block ∈ s.alloc.freeAddrs k) := by
  obtain ⟨a, ha⟩ : ∃ a, rtPageInit 0x2000 0x8000 = some a := Option.isSome_iff_exists.mp (by decide +kernel)
  have haddr : (rtPageInit 0x2000 0x8000).map (·.pageAddr) = some 0x3000 := by decide +kernel
  have hrun : ((rtPageInit 0x2000 0x8000).bind fun a => run PageSys.step (init a) [.alloc 0]).isSome := by
    decide +kernel
  rw [ha] at haddr hrun
  obtain ⟨s, hs⟩ := Option.isSome_iff_exists.mp hrun
  have hne : a.pageAddr ≠ 0 := by
    rw [show a.pageAddr = 0x3000 from Option.some.inj haddr]
    decide
  obtain ⟨a1, addr, halloc, -, hfree⟩ := alloc_restores (b := 1) (by decide) (by decide) ha hne hs (by decide)
  exact ⟨a, s, a1, addr, ha, hs, halloc, hfree⟩

end PageSys

end RtSmart
