import RtSmart.Lwp.Pid

/-!
Any sequence of allocations and releases of ids, and where the search for an unused id ends.
-/

namespace RtSmart

open Lib AvlHeap

namespace IdTable

variable {cfg : IdConfig} {s s' : IdTable} {live : List ℕ} {t : AvlTree AvlEntry} {slots hand : List ℕ} {id n p : ℕ}

/-- The ids `live` are in the tree `t`; of the slots of the array that are not, `slots` are in the free list and
`hand` was just taken out of it. -/
structure Inv (cfg : IdConfig) (s : IdTable) (live : List ℕ) (t : AvlTree AvlEntry) (slots hand : List ℕ) : Prop where
  holds : s.heap.Holds t
  ok : t.Ok
  sorted : Sorted t.toList
  keys : (t.toList.map AvlEntry.key).Perm live
  nodup : live.Nodup
  range : ∀ id ∈ live, 1 ≤ id ∧ id < cfg.max
  chain : Chain (fun p => (s.heap.node p).avlRight) s.freeHead slots
  ary : (hand ++ (addrs t.toList ++ slots)).Perm (List.range s.aryAlloced)
  alloced : s.aryAlloced ≤ cfg.nr
  data : ∀ p, p ∉ addrs t.toList → s.data p = none
  current : s.current < cfg.max

theorem Inv.length_eq (h : s.Inv cfg live t slots hand) : live.length + slots.length + hand.length = s.aryAlloced := by
  have hkeys := h.keys.length_eq
  have hary := h.ary.length_eq
  simp only [addrs, List.length_map, List.length_append, List.length_range] at hkeys hary
  omega

theorem Inv.depth_lt (h : s.Inv cfg live t slots hand) : t.depth < avlMaxheight := by
  have hfib := h.ok.fib_le_length
  have hlen := h.keys.length_eq
  have hslots := h.length_eq
  have halloc := h.alloced
  have hnr := cfg.max_nr
  have hmax := cfg.max_le
  rw [List.length_map] at hlen
  by_contra hd
  have hmono : Nat.fib 34 ≤ Nat.fib (t.depth + 2) := Nat.fib_mono (by unfold avlMaxheight at hd; omega)
  have h34 : Nat.fib 34 = 5702887 := by norm_num
  omega

theorem Inv.find (h : s.Inv cfg live t slots hand) (id : ℕ) :
    ∃ res, s.heap.lwpAvlFind id s.heap.tree = some res ∧ (∀ p, res = some p → ⟨p, id⟩ ∈ t.toList) ∧
      (res = none ↔ id ∉ live) := by
  have hfuel : t.depth < loopBound := by
    have := h.depth_lt
    unfold avlMaxheight at this
    unfold loopBound
    omega
  obtain ⟨res, hres, hsome, hnone⟩ := findLoop_spec id loopBound h.holds.1 h.sorted hfuel
  refine ⟨res, hres, hsome, ?_, ?_⟩
  · intro hr hid
    rw [← h.keys.mem_iff, List.mem_map] at hid
    obtain ⟨e, he, hk⟩ := hid
    exact hnone hr e he hk
  · intro hid
    cases res with
    | none => rfl
    | some p =>
      exfalso
      apply hid
      rw [← h.keys.mem_iff]
      exact List.mem_map.mpr ⟨⟨p, id⟩, hsome p rfl, rfl⟩

theorem Inv.searchUnused (h : s.Inv cfg live t slots hand) (n id : ℕ) :
    ∃ k b, s.searchUnused n id = some (k, b) ∧ id ≤ k ∧ k ≤ id + n ∧ (∀ j, id ≤ j → j < k → j ∈ live) ∧
      (b = true → k < id + n ∧ k ∉ live) ∧ (b = false → k = id + n) := by
  induction n generalizing id with
  | zero => exact ⟨id, false, rfl, le_rfl, le_rfl, by omega, by simp, by simp⟩
  | succ n ih =>
    obtain ⟨res, hres, -, hnone⟩ := h.find id
    cases res with
    | none =>
      refine ⟨id, true, ?_, le_rfl, by omega, by omega, ?_, by simp⟩
      · rw [IdTable.searchUnused, hres]
      · intro _
        exact ⟨by omega, hnone.mp rfl⟩
    | some p =>
      have hid : id ∈ live := by
        by_contra hid
        cases hnone.mpr hid
      obtain ⟨k, b, hk, h1, h2, h3, h4, h5⟩ := ih (id + 1)
      refine ⟨k, b, ?_, by omega, by omega, ?_, ?_, ?_⟩
      · rw [IdTable.searchUnused, hres]
        exact hk
      · intro j hj hjk
        rcases Nat.eq_or_lt_of_le hj with rfl | hj
        · exact hid
        · exact h3 j hj hjk
      · intro hb
        obtain ⟨h6, h7⟩ := h4 hb
        exact ⟨by omega, h7⟩
      · intro hb
        have := h5 hb
        omega

def distance (max c k : ℕ) : ℕ := if c < k then k - c else k + max - c

theorem exists_unused (hlen : live.length + 1 < cfg.max) : ∃ k, 1 ≤ k ∧ k < cfg.max ∧ k ∉ live := by
  by_contra hall
  push Not at hall
  have hsub : (List.range' 1 (cfg.max - 1)).Subperm live := by
    apply (List.nodup_range' 1).subperm
    intro k hk
    rw [List.mem_range'_1] at hk
    exact hall k hk.1 (by omega)
  have := hsub.length_le
  rw [List.length_range'] at this
  omega

theorem Inv.findUnused (h : s.Inv cfg live t slots hand) (hlen : live.length + 1 < cfg.max) :
    ∃ k, s.findUnused cfg.max = some k ∧ 1 ≤ k ∧ k < cfg.max ∧ k ∉ live ∧
      ∀ j, 1 ≤ j → j < cfg.max → j ∉ live → distance cfg.max s.current k ≤ distance cfg.max s.current j := by
  have hcur := h.current
  obtain ⟨k, b, hk, h1, h2, h3, h4, h5⟩ := h.searchUnused (cfg.max - (s.current + 1)) (s.current + 1)
  cases b with
  | true =>
    obtain ⟨h6, h7⟩ := h4 rfl
    refine ⟨k, ?_, by omega, by omega, h7, ?_⟩
    · rw [IdTable.findUnused, hk]
    · intro j hj hjm hjl
      have hkj : s.current < j → k ≤ j := by
        intro hcj
        by_contra hjk
        exact hjl (h3 j (by omega) (by omega))
      unfold distance
      split_ifs <;> omega
  | false =>
    have hkm := h5 rfl
    obtain ⟨i, c, hi, g1, g2, g3, g4, g5⟩ := h.searchUnused s.current 1
    -- an unused id must be among those up to the current one
    have hlow : ∀ j, 1 ≤ j → j < cfg.max → j ∉ live → j ≤ s.current := by
      intro j hj hjm hjl
      by_contra hjc
      exact hjl (h3 j (by omega) (by omega))
    obtain ⟨j, hj, hjm, hjl⟩ := exists_unused hlen
    have hic : c = true := by
      cases c with
      | true => rfl
      | false =>
        exfalso
        have := g5 rfl
        have := hlow j hj hjm hjl
        exact hjl (g3 j hj (by omega))
    obtain ⟨g6, g7⟩ := g4 hic
    refine ⟨i, ?_, g1, by omega, g7, ?_⟩
    · rw [IdTable.findUnused, hk]
      simp only [hi, Option.map_some]
    · intro m hm hmm hml
      have hmc := hlow m hm hmm hml
      have him : i ≤ m := by
        by_contra hmi
        exact hml (g3 m hm (by omega))
      unfold distance
      split_ifs <;> omega

theorem Inv.ary_nodup (h : s.Inv cfg live t slots hand) : (hand ++ (addrs t.toList ++ slots)).Nodup :=
  h.ary.nodup_iff.mpr List.nodup_range

theorem Inv.takeSlot (h : s.Inv cfg live t slots []) :
    (s.takeSlot cfg.nr = (s, none) ∧ live.length = cfg.nr) ∨
      ∃ s' p slots', s.takeSlot cfg.nr = (s', some p) ∧ s'.Inv cfg live t slots' [p] ∧ s'.current = s.current ∧
        live.length < cfg.nr := by
  have hlen := h.length_eq
  have halloc := h.alloced
  have hchain := h.chain
  rw [List.length_nil] at hlen
  unfold IdTable.takeSlot
  cases hf : s.freeHead with
  | some p =>
    rw [hf] at hchain
    obtain ⟨slots', rfl, hrest⟩ := chain_some hchain
    rw [List.length_cons] at hlen
    have hary : ([p] ++ (addrs t.toList ++ slots')).Perm (List.range s.aryAlloced) := by
      have hold := h.ary
      rw [List.nil_append] at hold
      rw [List.singleton_append]
      exact List.perm_middle.symm.trans hold
    exact .inr ⟨_, p, slots', rfl, { h with chain := hrest, ary := hary }, rfl, by omega⟩
  | none =>
    rw [hf] at hchain
    obtain rfl : slots = [] := by
      cases slots with
      | nil => rfl
      | cons a l => cases hchain.1
    rw [List.length_nil] at hlen
    dsimp only
    split
    · -- the array still has a slot that was never used
      have hary : ([s.aryAlloced] ++ (addrs t.toList ++ [])).Perm (List.range (s.aryAlloced + 1)) := by
        rw [List.range_succ]
        exact (h.ary.cons s.aryAlloced).trans (List.perm_append_singleton s.aryAlloced _).symm
      exact .inr ⟨_, s.aryAlloced, [], rfl, { h with chain := hchain, ary := hary, alloced := by assumption }, rfl,
        by omega⟩
    · exact .inl ⟨rfl, by omega⟩

theorem Inv.insert (h : s.Inv cfg live t slots [p]) (hid : id ∉ live) (h1 : 1 ≤ id) (hmax : id < cfg.max) :
    ∃ heap t', (s.heap.setNode p { s.heap.node p with avlKey := id }).lwpAvlInsert p = some heap ∧
      ({ s with heap := heap, current := id } : IdTable).Inv cfg (id :: live) t' slots [] := by
  have hnodup := h.ary_nodup
  rw [List.singleton_append, List.nodup_cons, List.mem_append, not_or] at hnodup
  obtain ⟨hp, hnd⟩ := hnodup
  have hout : ∀ e ∈ t.toList, p ≠ e.addr := by
    rintro e he rfl
    exact hp.1 (List.mem_map_of_mem he)
  have hholds : (s.heap.setNode p { s.heap.node p with avlKey := id }).Holds t := by
    refine ⟨h.holds.1.congr ?_, h.holds.2⟩
    intro e he
    exact setNode_of_ne _ _ (hout e he).symm
  have hkey : ((s.heap.setNode p { s.heap.node p with avlKey := id }).node p).avlKey = id := by simp [setNode]
  obtain ⟨heap, t', hins, hholds', hok, hsorted, hperm⟩ := lwpAvlInsert_spec hholds h.ok h.sorted h.depth_lt hout
  rw [hkey] at hperm
  have haddrs : (addrs t'.toList).Perm (p :: addrs t.toList) := hperm.map AvlEntry.addr
  have hwithin := hholds.closed.insert hp.1 hins
  refine ⟨heap, t', hins, hholds', hok, hsorted, ?_, ?_, ?_, ?_, ?_, h.alloced, ?_, hmax⟩
  · exact (hperm.map AvlEntry.key).trans (h.keys.cons id)
  · exact List.nodup_cons.mpr ⟨hid, h.nodup⟩
  · intro k hk
    rcases List.mem_cons.mp hk with rfl | hk
    · exact ⟨h1, hmax⟩
    · exact h.range k hk
  · -- the free slots are not touched
    apply h.chain.congr
    intro q hq
    have hqt : q ∉ addrs t.toList := fun hqt => (List.nodup_append.mp hnd).2.2 q hqt q hq rfl
    have hqp : q ≠ p := by
      rintro rfl
      exact hp.2 hq
    have hsame := hwithin.same q (by rintro (hq' | hq'); exacts [hqt hq', hqp hq'])
    dsimp only
    rw [hsame, setNode_of_ne _ _ hqp]
  · rw [List.nil_append]
    exact (haddrs.append_right slots).trans h.ary
  · intro q hq
    apply h.data
    intro hqt
    exact hq (haddrs.mem_iff.mpr (List.mem_cons_of_mem p hqt))

theorem Inv.get (h : s.Inv cfg live t slots []) : ∃ s' id, s.idGet cfg = some (s', id) ∧
    ((id = 0 ∧ live.length = cfg.nr ∧ s' = s) ∨
      (live.length < cfg.nr ∧ 1 ≤ id ∧ id < cfg.max ∧ id ∉ live ∧ s'.current = id ∧
        (∃ t' slots', s'.Inv cfg (id :: live) t' slots' []) ∧
        ∀ j, 1 ≤ j → j < cfg.max → j ∉ live → distance cfg.max s.current id ≤ distance cfg.max s.current j)) := by
  rcases h.takeSlot with ⟨htake, hfull⟩ | ⟨s', p, slots', htake, h', hcur, hroom⟩
  · refine ⟨s, 0, ?_, .inl ⟨rfl, hfull, rfl⟩⟩
    rw [idGet, htake]
  · have hmax := cfg.max_nr
    obtain ⟨id, hfind, h1, hlt, hid, hfirst⟩ := h'.findUnused (by omega)
    obtain ⟨heap, t', hins, hinv⟩ := h'.insert hid h1 hlt
    rw [hcur] at hfirst
    have hdata : s'.data p = none := by
      apply h'.data
      intro hp
      have hnodup := h'.ary_nodup
      rw [List.singleton_append, List.nodup_cons] at hnodup
      exact hnodup.1 (List.mem_append_left _ hp)
    refine ⟨{ s' with heap := heap, current := id }, id, ?_,
      .inr ⟨hroom, h1, hlt, hid, rfl, ⟨t', slots', hinv⟩, hfirst⟩⟩
    rw [idGet, htake]
    dsimp only
    rw [if_pos hdata, hfind]
    dsimp only
    rw [hins]

theorem Inv.put (h : s.Inv cfg live t slots []) (hid : id ∈ live) :
    ∃ s', s.idPut id = some s' ∧ s'.current = s.current ∧ ∃ t' slots', s'.Inv cfg (live.erase id) t' slots' [] := by
  obtain ⟨res, hres, hsome, hnone⟩ := h.find id
  cases res with
  | none => exact absurd hid (hnone.mp rfl)
  | some p =>
    have hmem := hsome p rfl
    obtain ⟨heap, t', hrem, hholds, hok, x, y, hold, hnew⟩ := lwpAvlRemove_spec h.holds h.ok h.sorted h.depth_lt hmem
    have hwithin := h.holds.closed.remove hrem
    have hperm : t.toList.Perm (⟨p, id⟩ :: t'.toList) := by
      rw [hold, hnew]
      exact List.perm_middle
    have haddrs : (addrs t.toList).Perm (p :: addrs t'.toList) := hperm.map AvlEntry.addr
    have hnd : (p :: addrs t'.toList).Nodup := haddrs.nodup_iff.mp h.holds.2
    have hpt := (List.nodup_cons.mp hnd).1
    have hp : p ∈ addrs t.toList := haddrs.mem_iff.mpr List.mem_cons_self
    have hary := h.ary_nodup
    rw [List.nil_append, List.nodup_append] at hary
    have hps : p ∉ slots := fun hps => hary.2.2 p hp p hps rfl
    have hright : ∀ q, q ≠ p → (heap.assign (.right p) s.freeHead).node q = heap.node q := fun q hq => setNode_of_ne _ _ hq
    refine ⟨{ s with heap := heap.assign (.right p) s.freeHead, data := Function.update s.data p none, freeHead := some p },
      ?_, rfl, t', p :: slots, ?_⟩
    · rw [idPut, hres]
      dsimp only
      rw [hrem]
    constructor
    · refine ⟨hholds.1.congr ?_, hholds.2⟩
      intro e he
      apply hright
      rintro rfl
      exact hpt (List.mem_map_of_mem he)
    · exact hok
    · have hsub : t'.toList.Sublist t.toList := by
        rw [hold, hnew]
        simp
      exact h.sorted.sublist hsub
    · have hkeys := (hperm.map AvlEntry.key).symm.trans h.keys
      exact (List.perm_cons id).mp (hkeys.trans (List.perm_cons_erase hid))
    · exact h.nodup.erase id
    · intro k hk
      exact h.range k (List.mem_of_mem_erase hk)
    · refine ⟨rfl, ?_⟩
      have hpr : ((heap.assign (.right p) s.freeHead).node p).avlRight = s.freeHead := by simp [assign, setNode]
      dsimp only
      rw [hpr]
      apply h.chain.congr
      intro q hq
      have hqp : q ≠ p := by
        rintro rfl
        exact hps hq
      have hqt : q ∉ addrs t.toList := fun hqt => hary.2.2 q hqt q hq rfl
      rw [hright q hqp, hwithin.same q hqt]
    · have hold := h.ary
      rw [List.nil_append] at hold ⊢
      exact List.perm_middle.trans ((haddrs.append_right slots).symm.trans hold)
    · exact h.alloced
    · intro q hq
      by_cases hqp : q = p
      · subst hqp
        exact Function.update_self q none s.data
      · dsimp only
        rw [Function.update_of_ne hqp]
        apply h.data
        intro hqt
        rcases List.mem_cons.mp (haddrs.mem_iff.mp hqt) with rfl | hqt
        · exact hqp rfl
        · exact hq hqt
    · exact h.current

theorem Inv.set (h : s.Inv cfg live t slots []) (id : ℕ) (data : Option ℕ) :
    ∃ s', s.idSet id data = some s' ∧ s'.current = s.current ∧ s'.Inv cfg live t slots [] := by
  obtain ⟨res, hres, hsome, -⟩ := h.find id
  cases res with
  | none =>
    refine ⟨s, ?_, rfl, h⟩
    rw [idSet, hres]
    rfl
  | some p =>
    refine ⟨{ s with data := Function.update s.data p data }, ?_, rfl, { h with data := ?_ }⟩
    · rw [idSet, hres]
      rfl
    · intro q hq
      have hqp : q ≠ p := by
        rintro rfl
        exact hq (List.mem_map_of_mem (hsome q rfl))
      dsimp only
      rw [Function.update_of_ne hqp]
      exact h.data q hq

theorem inv_init (cfg : IdConfig) : init.Inv cfg [] .nil [] [] where
  holds := ⟨rfl, List.nodup_nil⟩
  ok := trivial
  sorted := List.Pairwise.nil
  keys := List.Perm.refl _
  nodup := List.nodup_nil
  range := by simp
  chain := rfl
  ary := List.Perm.refl _
  alloced := Nat.zero_le _
  data _ _ := rfl
  current := lt_trans (Nat.zero_lt_of_lt cfg.min_nr) cfg.max_nr

end IdTable

/-- The table with the ids that were handed out and not put back. -/
structure IdSys where
  table : IdTable
  live : List ℕ

namespace IdSys

inductive Event
  | get
  | put (id : ℕ)
  | set (id : ℕ) (data : Option ℕ)
  deriving DecidableEq, Repr

def init : IdSys := ⟨.init, []⟩

def step (cfg : IdConfig) (s : IdSys) : Event → Option IdSys
  | .get => (s.table.idGet cfg).map fun r => ⟨r.1, if r.2 = 0 then s.live else r.2 :: s.live⟩
  | .put id => (s.table.idPut id).map fun table => ⟨table, s.live.erase id⟩
  | .set id data => (s.table.idSet id data).map fun table => ⟨table, s.live⟩

/-- Only allocated ids are put back. -/
def Admits (s : IdSys) (e : Event) : Prop := ∀ id, e = .put id → id ∈ s.live

instance (s : IdSys) : ∀ e, Decidable (s.Admits e)
  | .get => isTrue nofun
  | .put id => decidable_of_iff (id ∈ s.live) ⟨fun h => by rintro _ ⟨⟩; exact h, fun h => h id rfl⟩
  | .set _ _ => isTrue nofun

variable {cfg : IdConfig} {s s' : IdSys} {id : ℕ}

def Inv (cfg : IdConfig) (s : IdSys) : Prop := ∃ t slots, s.table.Inv cfg s.live t slots []

theorem Inv.step (h : s.Inv cfg) {e : Event} (he : s.Admits e) : ∃ s', s.step cfg e = some s' ∧ s'.Inv cfg := by
  obtain ⟨t, slots, h⟩ := h
  cases e with
  | get =>
    obtain ⟨table, id, hget, ⟨rfl, -, rfl⟩ | ⟨-, h1, -, -, -, ⟨t', slots', h'⟩, -⟩⟩ := h.get
    · refine ⟨s, ?_, t, slots, h⟩
      rw [IdSys.step, hget]
      rfl
    · refine ⟨⟨table, id :: s.live⟩, ?_, t', slots', h'⟩
      rw [IdSys.step, hget, Option.map_some, if_neg (by omega)]
  | put id =>
    obtain ⟨table, hput, -, t', slots', h'⟩ := h.put (he id rfl)
    refine ⟨⟨table, s.live.erase id⟩, ?_, t', slots', h'⟩
    rw [IdSys.step, hput]
    rfl
  | set id data =>
    obtain ⟨table, hset, -, h'⟩ := h.set id data
    refine ⟨⟨table, s.live⟩, ?_, t, slots, h'⟩
    rw [IdSys.step, hset]
    rfl

theorem Inv.reissue (h : s.Inv cfg) (hroom : s.live.length < cfg.nr) (h1 : 1 ≤ id) (hmax : id < cfg.max)
    (hid : id ∉ s.live) :
    ∃ es s', Meets (IdSys.step cfg) Admits s es ∧ run (IdSys.step cfg) s es = some s' ∧ id ∈ s'.live := by
  generalize hd : IdTable.distance cfg.max s.table.current id = d
  induction d using Nat.strong_induction_on generalizing s with
  | _ d ih =>
    obtain ⟨t, slots, h⟩ := h
    obtain ⟨table, k, hget, ⟨-, hfull, -⟩ | ⟨-, hk1, hkmax, hk, hcur, ⟨t', slots', h'⟩, hfirst⟩⟩ := h.get
    · omega
    have hstep : IdSys.step cfg s .get = some ⟨table, k :: s.live⟩ := by
      rw [IdSys.step, hget, Option.map_some, if_neg (by omega)]
    by_cases hkid : k = id
    · subst hkid
      refine ⟨[.get], ⟨table, k :: s.live⟩, ⟨nofun, fun _ _ => trivial⟩, ?_, List.mem_cons_self⟩
      rw [run, hstep]
      rfl
    · -- the id found is nearer than `id`; it is put back and the search starts after it
      obtain ⟨table', hput, hcur', t'', slots'', h''⟩ := h'.put List.mem_cons_self
      rw [List.erase_cons_head] at h''
      have hstep' : IdSys.step cfg ⟨table, k :: s.live⟩ (.put k) = some ⟨table', s.live⟩ := by
        rw [IdSys.step, hput, Option.map_some, List.erase_cons_head]
      have hnear : IdTable.distance cfg.max table'.current id < d := by
        have hle := hfirst id h1 hmax hid
        have hc := h.current
        rw [hcur', hcur]
        rw [hd] at hle
        unfold IdTable.distance at *
        split_ifs at * <;> omega
      obtain ⟨es, s', hmeets, hrun, hmem⟩ := ih _ hnear (s := ⟨table', s.live⟩) ⟨t'', slots'', h''⟩ hroom hid rfl
      refine ⟨.get :: .put k :: es, s', ⟨nofun, ?_⟩, ?_, hmem⟩
      · intro u hu
        obtain rfl := Option.some.inj (hstep.symm.trans hu)
        refine ⟨by rintro _ ⟨⟩; exact List.mem_cons_self, ?_⟩
        intro u hu
        obtain rfl := Option.some.inj (hstep'.symm.trans hu)
        exact hmeets
      · rw [run, hstep, Option.bind_some, run, hstep', Option.bind_some]
        exact hrun

theorem id_table_correct (cfg : IdConfig) (es : List Event) (hm : Meets (step cfg) Admits init es) :
    ∃ s, run (step cfg) init es = some s ∧ s.live.Nodup ∧ (∀ id ∈ s.live, 1 ≤ id ∧ id < cfg.max) ∧
      (∀ id, ∃ res, s.table.heap.lwpAvlFind id s.table.heap.tree = some res ∧ (res ≠ none ↔ id ∈ s.live)) ∧
      (∃ table id, s.table.idGet cfg = some (table, id) ∧ (id = 0 ↔ s.live.length = cfg.nr) ∧
        (id ≠ 0 → id < cfg.max ∧ id ∉ s.live)) ∧
      ∀ id, 1 ≤ id → id < cfg.max → id ∉ s.live →
        ∃ es' s', Meets (step cfg) Admits s es' ∧ run (step cfg) s es' = some s' ∧ id ∈ s'.live := by
  have hstep : ∀ s e, Inv cfg s → Admits s e → ∃ s', step cfg s e = some s' ∧ Inv cfg s' := fun s e h he => h.step he
  obtain ⟨s, hs, hinv⟩ := run_total_of_meets (Inv cfg) hstep hm ⟨.nil, [], IdTable.inv_init cfg⟩
  obtain ⟨t, slots, h⟩ := hinv
  refine ⟨s, hs, h.nodup, h.range, ?_, ?_, ?_⟩
  · intro id
    obtain ⟨res, hres, -, hnone⟩ := h.find id
    refine ⟨res, hres, ?_⟩
    rw [ne_eq, hnone, not_not]
  · obtain ⟨table, id, hget, ⟨rfl, hfull, -⟩ | ⟨hroom, h1, hmax, hid, -⟩⟩ := h.get
    · exact ⟨table, 0, hget, by simp [hfull], by simp⟩
    · exact ⟨table, id, hget, by omega, fun _ => ⟨hmax, hid⟩⟩
  · intro id h1 hmax hid
    by_cases hroom : s.live.length < cfg.nr
    · exact Inv.reissue ⟨t, slots, h⟩ hroom h1 hmax hid
    · -- all slots are taken: one of the live ids is put back first
      have hlen := h.length_eq
      have halloc := h.alloced
      have hnr := cfg.min_nr
      rw [List.length_nil] at hlen
      obtain ⟨k, hk⟩ := List.exists_mem_of_length_pos (show 0 < s.live.length by omega)
      obtain ⟨table, hput, -, t', slots', h'⟩ := h.put hk
      have hstep' : step cfg s (.put k) = some ⟨table, s.live.erase k⟩ := by
        rw [step, hput]
        rfl
      have hroom' : (s.live.erase k).length < cfg.nr := by
        rw [List.length_erase_of_mem hk]
        omega
      obtain ⟨es', s', hmeets, hrun, hmem⟩ := Inv.reissue (s := ⟨table, s.live.erase k⟩) ⟨t', slots', h'⟩ hroom' h1 hmax
        fun hmem => hid (List.mem_of_mem_erase hmem)
      refine ⟨.put k :: es', s', ⟨by rintro _ ⟨⟩; exact hk, ?_⟩, ?_, hmem⟩
      · intro u hu
        obtain rfl := Option.some.inj (hstep'.symm.trans hu)
        exact hmeets
      · rw [run, hstep', Option.bind_some]
        exact hrun

/-- The ids of the processes of a system with the default `RT_LWP_MAX_NR`. -/
def defaultPids : IdConfig := IdTable.pidConfig 30 (by decide) (by decide)

theorem id_table_correct_example : Meets (step defaultPids) Admits init [.get, .get, .put 1, .get, .set 2 (some 7)] ∧
    ∃ s, run (step defaultPids) init [.get, .get, .put 1, .get, .set 2 (some 7)] = some s ∧ s.live.Nodup := by
  have hm : Meets (step defaultPids) Admits init [.get, .get, .put 1, .get, .set 2 (some 7)] := by decide +kernel
  obtain ⟨s, hs, hnd, -⟩ := id_table_correct defaultPids _ hm
  exact ⟨hm, s, hs, hnd⟩

theorem pid_get_fails_early : ∃ s table, Meets (step defaultPids) Admits init (List.replicate 30 .get) ∧
    run (step defaultPids) init (List.replicate 30 .get) = some s ∧ s.table.idGet defaultPids = some (table, 0) ∧
    31 < defaultPids.max ∧ 31 ∉ s.live := by
  have hrun : ((run (step defaultPids) init (List.replicate 30 .get)).bind fun s =>
      (s.table.idGet defaultPids).map fun r => (r.2, decide (31 ∈ s.live))) = some (0, false) := by decide +kernel
  obtain ⟨s, hs, hget⟩ := Option.bind_eq_some_iff.mp hrun
  obtain ⟨⟨table, id⟩, hget, heq⟩ := Option.map_eq_some_iff.mp hget
  simp only [Prod.mk.injEq, decide_eq_false_iff_not] at heq
  obtain ⟨rfl, hlive⟩ := heq
  exact ⟨s, table, by decide +kernel, hs, hget, by decide, hlive⟩

end IdSys

end RtSmart
