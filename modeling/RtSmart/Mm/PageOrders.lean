import RtSmart.Lwp.UserMm
import RtSmart.Mm.PageGroups

/-!
The entries of `page_list[]` that the page allocator reads and writes, for the orders that
`rt_page_bits` computes and for the groups in use.
-/

namespace RtSmart

open Lib PageAlloc

namespace PageAlloc

variable {s : PageAlloc} {n p b : ℕ} {others : ℕ → Option ℕ}

/-- The lists that `_pages_alloc` looks at: from the order asked for up to that of the block it splits. -/
def allocOrders (s : PageAlloc) (bits : ℕ) : List ℕ :=
  bits :: match s.pageList bits with
    | some _ => []
    | none =>
      match s.findLevel bits with
      | none => List.range' (bits + 1) (archPageListSize - (bits + 1))
      | some level => List.range' (bits + 1) (level - bits)

/-- The lists that `_pages_free` looks at when the last reference goes: one for each buddy that is merged, and
that of the merged block. -/
def freeOrders (s : PageAlloc) (p bits : ℕ) : List ℕ :=
  let (_, _, level) := coalesce (archPageListSize - bits) (s.setPage p fun g => { g with refCnt := g.refCnt - 1 }) p bits
  List.range' bits (level + 1 - bits)

theorem allocOrders_lt (s : PageAlloc) (b : ℕ) : (∀ k ∈ s.allocOrders b, k < archPageListSize) ↔ b < archPageListSize := by
  constructor
  · intro h
    exact h b List.mem_cons_self
  · intro hb k hk
    unfold allocOrders at hk
    rcases List.mem_cons.mp hk with rfl | hk
    · exact hb
    · split at hk
      · cases hk
      · split at hk
        · have hmem := List.mem_range'_1.mp hk
          omega
        · rename_i level hlevel
          have hfound := List.mem_range'_1.mp (List.mem_of_find?_eq_some hlevel)
          have hmem := List.mem_range'_1.mp hk
          omega

theorem Inv.freeOrders_lt (h : Inv s n others) (ho : others p = some b) : ∀ k ∈ s.freeOrders p b, k < archPageListSize := by
  intro k hk
  obtain ⟨hd, -⟩ := h.setRef p (f := fun g => { g with refCnt := g.refCnt - 1 }) fun _ => ⟨rfl, rfl, rfl⟩
  have hb := h.order_lt ho
  unfold freeOrders at hk
  obtain ⟨m, hm⟩ : ∃ m, m = archPageListSize - b := ⟨_, rfl⟩
  obtain ⟨others', hc, ho', -⟩ := hd.coalesce m ho (by omega)
  rw [← hm] at hk
  generalize PageAlloc.coalesce m _ p b = out at hc ho' hk
  obtain ⟨s1, q, level⟩ := out
  dsimp only at hc ho' hk
  have hlevel := hc.order_lt ho'
  have hmem := List.mem_range'_1.mp hk
  omega

end PageAlloc

/-- `rt_page_bits` rounds up to a power of two. -/
theorem rtPageBits_eq {size : ℕ} (h0 : size ≠ 0) (hsize : size < 2 ^ 64) :
    Mm.rtPageBits size = (if size = 2 ^ size.log2 then size.log2 else size.log2 + 1) - archPageShift := by
  have hlog : size.log2 < 64 := (Nat.log2_lt h0).mpr hsize
  have hbit : archAddressWidthBits - rtHwClz size - 1 = size.log2 := by
    rw [rtHwClz_eq h0 hsize]
    unfold archAddressWidthBits
    omega
  have hxor : size ^^^ 1 <<< size.log2 ≠ 0 ↔ ¬ size = 2 ^ size.log2 := by
    rw [Nat.shiftLeft_eq, one_mul, not_iff_not]
    exact Nat.xor_eq_zero_iff
  unfold Mm.rtPageBits
  rw [hbit]
  dsimp only
  simp only [hxor, ite_not]

theorem rtPageBits_lt {size : ℕ} (hsize : size < 2 ^ 64) : Mm.rtPageBits size < archPageListSize ↔ size ≤ 2 ^ 63 := by
  have hlist : archPageListSize = 52 := rfl
  have hshift : archPageShift = 12 := rfl
  by_cases h0 : size = 0
  · subst h0
    decide +kernel
  · rw [rtPageBits_eq h0 hsize, hlist, hshift]
    have hle := Nat.log2_self_le h0
    have hlog : size.log2 < 64 := (Nat.log2_lt h0).mpr hsize
    rcases Nat.lt_or_ge size.log2 63 with hlt | hge
    · have hbound : size < 2 ^ 63 := (Nat.log2_lt h0).mp hlt
      apply iff_of_true _ hbound.le
      split <;> omega
    · have htop : size.log2 = 63 := by omega
      rw [htop] at hle ⊢
      constructor
      · intro hlt
        split at hlt
        · omega
        · omega
      · intro hsmall
        rw [if_pos (by omega)]
        omega

namespace PageSys

theorem orders_inside {start stop size : ℕ} {a : PageAlloc} {events : List PageEvent} {s : PageSys} (hle : start ≤ stop)
    (hstop : stop < 2 ^ 64) (hinit : rtPageInit start stop = some a) (haddr : a.pageAddr ≠ 0)
    (hrun : run PageSys.step (init a) events = some s) (hsize : size < 2 ^ 64) :
    ((∀ k ∈ s.alloc.allocOrders (Mm.rtPageBits size), k < archPageListSize) ↔ size ≤ 2 ^ 63) ∧
      ∀ p b, s.groups p = some b → ∀ k ∈ s.alloc.freeOrders p b, k < archPageListSize := by
  obtain ⟨h, -, -⟩ := (tiled_init hle hstop hinit haddr).run hrun
  rw [allocOrders_lt]
  exact ⟨rtPageBits_lt hsize, fun p b hg => h.freeOrders_lt hg⟩

theorem orders_inside_pages : ∃ (a : PageAlloc) (s : PageSys),
    rtPageInit 0x2000 0x8000 = some a ∧ run PageSys.step (init a) [.alloc 0] = some s ∧
      (∀ k ∈ s.alloc.allocOrders (Mm.rtPageBits 0x1001), k < archPageListSize) ∧
      ∀ p b, s.groups p = some b → ∀ k ∈ s.alloc.freeOrders p b, k < archPageListSize := by
  have hall : ∀ a ∈ rtPageInit 0x2000 0x8000, a.pageAddr ≠ 0 ∧ (run PageSys.step (init a) [.alloc 0]).isSome := by
    decide +kernel
  obtain ⟨a, ha⟩ : ∃ a, rtPageInit 0x2000 0x8000 = some a := Option.isSome_iff_exists.mp (by decide +kernel)
  obtain ⟨hne, hsome⟩ := hall a ha
  obtain ⟨s, hs⟩ := Option.isSome_iff_exists.mp hsome
  obtain ⟨halloc, hfree⟩ := orders_inside (by decide) (by decide) ha hne hs (by decide : 0x1001 < 2 ^ 64)
  exact ⟨a, s, ha, hs, halloc.mpr (by decide), hfree⟩

/-- One byte more than half the address space: the first list looked at is the one behind the last. -/
theorem order_outside : ∃ a, rtPageInit 0x2000 0x8000 = some a ∧
    archPageListSize ∈ a.allocOrders (Mm.rtPageBits (2 ^ 63 + 1)) := by
  obtain ⟨a, ha⟩ : ∃ a, rtPageInit 0x2000 0x8000 = some a := Option.isSome_iff_exists.mp (by decide +kernel)
  refine ⟨a, ha, ?_⟩
  have hbits : Mm.rtPageBits (2 ^ 63 + 1) = archPageListSize := by decide +kernel
  rw [hbits]
  exact List.mem_cons_self

end PageSys

end RtSmart
