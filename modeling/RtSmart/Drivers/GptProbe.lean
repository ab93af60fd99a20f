import Mathlib.Data.BitVec
import RtSmart.Lib.ByteMem

/-!
The probe of a GPT (`gpt.c`, and `gpt_device_probe` of `block_dev.c`) on an SD card or an eMMC. The alternate header, whose
only use is a comparison for the log, and the device of the whole card are left out.
-/

namespace RtSmart.GptProbe

open Lib

/-! The cards that the init code accepts. -/

def getBits (resp : ℕ → BitVec 32) (start size : ℕ) : BitVec 32 :=
  let mask : BitVec 32 := (if size < 32 then 1 <<< size else 0) - 1
  let off := 3 - start / 32
  let shft := start % 32
  let res := resp off >>> shft
  (if 32 < size + shft then res ||| resp (off - 1) <<< ((32 - shft) % 32) else res) &&& mask

/-- What is used of `struct rt_mmcsd_card`; `sdhc` is the flag `CARD_FLAG_SDHC`. -/
structure MmcsdCard where
  sdhc : Bool
  cardBlksize : BitVec 32
  cardCapacity : BitVec 32
  cardSecCnt : BitVec 32
deriving DecidableEq

/-- `mmcsd_parse_csd` of `sd.c`, for a card that is all zero. -/
def mmcsdParseCsd (resp : ℕ → BitVec 32) : Option MmcsdCard :=
  let csdStructure := getBits resp 126 2
  if csdStructure = 0 then
    let blksize := (1 : BitVec 32) <<< getBits resp 80 4
    let capacity := (getBits resp 62 12 + 1) <<< (getBits resp 47 3 + 2)
    some ⟨false, blksize, (capacity * blksize) >>> 10, 0⟩
  else if csdStructure = 1 then
    let capacity := (getBits resp 48 22 + 1) * 512
    some ⟨true, 512, capacity, capacity * 2⟩
  else none

/-- `mmcsd_parse_csd` and `mmc_parse_ext_csd` of `mmc.c` -/
def mmcInit (resp : ℕ → BitVec 32) (extCsd : ℕ → UInt8) (rocr : BitVec 32) : Option MmcsdCard :=
  if getBits resp 126 2 = 0 ∨ (getBits resp 122 4).toNat < 4 then none
  else
    let blksize := (1 : BitVec 32) <<< getBits resp 80 4
    let secCnt := leAt extCsd 212 4
    some ⟨rocr &&& 1 <<< 30 ≠ 0, blksize, .ofNat 32 (secCnt * blksize.toNat / 1024), .ofNat 32 secCnt⟩

inductive Registers
  | sd (csd : ℕ → BitVec 32)
  | mmc (csd : ℕ → BitVec 32) (extCsd : ℕ → UInt8) (ocr : BitVec 32)

def Registers.init : Registers → Option MmcsdCard
  | .sd csd => mmcsdParseCsd csd
  | .mmc csd extCsd ocr => mmcInit csd extCsd ocr

/-- An SD card of standard capacity, or an eMMC whose OCR does not have the bit for sector addresses. -/
def Registers.ByteAddressed : Registers → Prop
  | .sd csd => getBits csd 126 2 = 0
  | .mmc _ _ ocr => ocr &&& 1 <<< 30 = 0

/-- The number of sectors by `C_SIZE`, `C_SIZE_MULT` and `READ_BL_LEN`, as a byte-addressed card has it. -/
def csdSectors (csd : ℕ → BitVec 32) : ℕ :=
  ((getBits csd 62 12).toNat + 1) * 2 ^ ((getBits csd 47 3).toNat + 2) * 2 ^ (getBits csd 80 4).toNat / 512

/-- The number of sectors that the registers stand for; `SEC_CNT` counts only on an eMMC with sector addresses. -/
def Registers.sectorCount : Registers → ℕ
  | .sd csd => if getBits csd 126 2 = 0 then csdSectors csd else ((getBits csd 48 22).toNat + 1) * 1024
  | .mmc csd extCsd ocr => if ocr &&& 1 <<< 30 = 0 then csdSectors csd else leAt extCsd 212 4

/-! Reads. -/

/-- A card with its contents, and which requests (by address and number of blocks) go through. -/
structure Medium where
  registers : Registers
  byte : ℕ → UInt8
  transfers : BitVec 32 → ℕ → Bool

/-- A buffer behind a read: the sector it was read from, the number of sectors, and all bytes from its start on. -/
structure Buffer where
  first : ℕ
  blks : ℕ
  byte : ℕ → UInt8

/-- `cmd.arg` of `rt_mmcsd_req_blk` -/
def cmdArg (card : MmcsdCard) (sector : BitVec 32) : BitVec 32 := if card.sdhc then sector else sector <<< 9

def addressed (card : MmcsdCard) (arg : BitVec 32) : ℕ := if card.sdhc then arg.toNat else arg.toNat / 512

/-- A read request; `stale` is what the memory held. -/
def rtMmcsdReqBlk (m : Medium) (card : MmcsdCard) (sector : BitVec 32) (stale : ℕ → UInt8) (blks : ℕ) : Option Buffer :=
  let first := addressed card (cmdArg card sector)
  if m.registers.sectorCount < first + blks ∨ m.transfers (cmdArg card sector) blks = false then none
  else some ⟨first, blks, fun k => if k < 512 * blks then m.byte (512 * first + k) else stale k⟩

def readLba (m : Medium) (card : MmcsdCard) (lba : ℕ) (stale : ℕ → UInt8) (count : ℕ) : Option Buffer :=
  rtMmcsdReqBlk m card (.ofNat 32 lba) stale count

/-! The table. -/

/-- Which allocations succeed, `part i` for the device of entry `i`, and what the allocated memory and all behind it
held. -/
structure Heap where
  mbr : Bool
  header : Bool
  entries : Bool
  device : Bool
  part : ℕ → Bool
  stale : ℕ → UInt8

structure GptHeader where
  signature : ℕ
  headerSize : ℕ
  startLba : ℕ
  firstUsableLba : ℕ
  lastUsableLba : ℕ
  partitionEntryLba : ℕ
  numPartitionEntries : ℕ
  sizeofPartitionEntry : ℕ
deriving DecidableEq

def gptHeader (buf : ℕ → UInt8) : GptHeader where
  signature := leAt buf 0 8
  headerSize := leAt buf 12 4
  startLba := leAt buf 24 8
  firstUsableLba := leAt buf 40 8
  lastUsableLba := leAt buf 48 8
  partitionEntryLba := leAt buf 72 8
  numPartitionEntries := leAt buf 80 4
  sizeofPartitionEntry := leAt buf 84 4

structure GptEntry where
  partitionTypeGuid : List UInt8
  startingLba : ℕ
  endingLba : ℕ
deriving DecidableEq

/-- `ptes[i]` -/
def gptEntry (buf : ℕ → UInt8) (i : ℕ) : GptEntry where
  partitionTypeGuid := (List.range 16).map fun k => buf (128 * i + k)
  startingLba := leAt buf (128 * i + 32) 8
  endingLba := leAt buf (128 * i + 40) 8

/-- An `uint32_t`. -/
def lastLba (card : MmcsdCard) : ℕ := (card.cardSecCnt - 1).toNat

def pmbrPartValid (mbr : ℕ → UInt8) (i : ℕ) : Bool :=
  mbr (446 + 16 * i + 4) = 0xee ∧ leAt mbr (446 + 16 * i + 8) 4 = 1

def isPmbrValid (mbr : ℕ → UInt8) : ℕ :=
  if leAt mbr 510 2 ≠ 0xaa55 then 0
  else if (List.range 4).any (pmbrPartValid mbr) = false then 0
  else if (List.range 4).any fun i => mbr (446 + 16 * i + 4) ≠ 0xee ∧ mbr (446 + 16 * i + 4) ≠ 0 then 2
  else 1

def allocReadGptEntries (m : Medium) (card : MmcsdCard) (h : Heap) (gpt : GptHeader) : Option Buffer :=
  let count := gpt.numPartitionEntries * gpt.sizeofPartitionEntry
  if count = 0 ∨ h.entries = false then none else readLba m card gpt.partitionEntryLba h.stale (count / 512)

def allocReadGptHeader (m : Medium) (card : MmcsdCard) (h : Heap) (lba : ℕ) : Option GptHeader :=
  if h.header = false then none else (readLba m card lba h.stale 1).map fun buf => gptHeader buf.byte

def isGptValid (m : Medium) (card : MmcsdCard) (h : Heap) (lba : ℕ) : Option (GptHeader × Buffer) := do
  let gpt ← allocReadGptHeader m card h lba
  if gpt.signature ≠ 0x5452415020494645 ∨ gpt.headerSize < 92 ∨ gpt.startLba ≠ lba ∨ lastLba card < gpt.firstUsableLba ∨
      lastLba card < gpt.lastUsableLba ∨ gpt.lastUsableLba < gpt.firstUsableLba ∨ gpt.sizeofPartitionEntry ≠ 128 then none
  else (allocReadGptEntries m card h gpt).map fun ptes => (gpt, ptes)

def findValidGpt (m : Medium) (card : MmcsdCard) (h : Heap) : Option (GptHeader × Buffer) := do
  if h.mbr = false then none
  else
    let legacymbr ← readLba m card 0 h.stale 1
    if isPmbrValid legacymbr.byte = 0 then none else isGptValid m card h 1

/-- `none` is `MBR_TYPE`. -/
def checkGpt (m : Medium) (card : MmcsdCard) (h : Heap) : Option (GptHeader × Buffer) := findValidGpt m card h

def isPteValid (pte : GptEntry) (lastlba : ℕ) : Prop :=
  ¬ (pte.partitionTypeGuid = List.replicate 16 0 ∨ lastlba < pte.startingLba ∨ lastlba < pte.endingLba)

instance (pte : GptEntry) (lastlba : ℕ) : Decidable (isPteValid pte lastlba) := inferInstanceAs (Decidable (¬ _))

/-- What the probe sets of `struct dfs_partition`. -/
structure DfsPartition where
  offset : ℕ
  size : ℕ
deriving DecidableEq

def gptGetPartitionParam (card : MmcsdCard) (ptes : ℕ → UInt8) (pindex : ℕ) : Option DfsPartition :=
  let pte := gptEntry ptes pindex
  if isPteValid pte (lastLba card) then
    some ⟨pte.startingLba, (pte.endingLba + (2 ^ 64 - pte.startingLba) + 1) % 2 ^ 64⟩
  else none

def rtGptPartitionMax : ℕ := 128

/-- The loop of `gpt_device_probe`: the entries that are examined, with the partition of the device that is registered. -/
def probeLoop (card : MmcsdCard) (h : Heap) (ptes : ℕ → UInt8) : ℕ → ℕ → List (ℕ × Option DfsPartition)
  | 0, _ => []
  | n + 1, i =>
    if h.part i = false then []
    else
      match gptGetPartitionParam card ptes i with
      | some part => (i, some part) :: probeLoop card h ptes n (i + 1)
      | none => [(i, none)]

def gptDeviceProbe (card : MmcsdCard) (h : Heap) (ptes : ℕ → UInt8) : List (ℕ × Option DfsPartition) :=
  if h.device = false then [] else probeLoop card h ptes rtGptPartitionMax 0

/-- The GPT side of `rt_mmcsd_blk_probe`, with the header and the entries that `check_gpt` found. -/
def rtMmcsdBlkProbe (m : Medium) (card : MmcsdCard) (h : Heap) :
    Option (GptHeader × Buffer × List (ℕ × Option DfsPartition)) :=
  (checkGpt m card h).map fun (gpt, ptes) => (gpt, ptes, gptDeviceProbe card h ptes.byte)

/-! What the probe relies on. -/

/-- A partition as the entry has it, on a card of `count` sectors. -/
structure Placed (count : ℕ) (pte : GptEntry) (part : DfsPartition) : Prop where
  ordered : pte.startingLba ≤ pte.endingLba
  offset : part.offset = pte.startingLba
  size : part.size = pte.endingLba - pte.startingLba + 1
  inside : pte.endingLba < count

/-- The entries that are examined were loaded, and from the sectors that the header names; the partitions that are registered
lie on the card. -/
def ProbeSafe (m : Medium) (card : MmcsdCard) (h : Heap) : Prop :=
  ∀ gpt ptes run, rtMmcsdBlkProbe m card h = some (gpt, ptes, run) → ∀ i part, (i, part) ∈ run →
    128 * i + 128 ≤ 512 * ptes.blks ∧ ptes.first = gpt.partitionEntryLba ∧
      ∀ p, part = some p → Placed m.registers.sectorCount (gptEntry ptes.byte i) p

def addressable (card : MmcsdCard) : ℕ := if card.sdhc then 2 ^ 32 else 2 ^ 23

/-- Entry `i` of the card's table. -/
def listed (m : Medium) (gpt : GptHeader) (i : ℕ) : GptEntry :=
  gptEntry (fun k => m.byte (512 * gpt.partitionEntryLba + k)) i

def GptHeader.whole (gpt : GptHeader) : ℕ := gpt.numPartitionEntries / 4 * 4

/-- All entries before `i` are in use, and there is memory for the devices as far as that of entry `i`. -/
def Reached (m : Medium) (card : MmcsdCard) (h : Heap) (gpt : GptHeader) (i : ℕ) : Prop :=
  i < rtGptPartitionMax ∧ (∀ j < i, isPteValid (listed m gpt j) (lastLba card)) ∧ ∀ j ≤ i, h.part j = true

/-- A table whose place has an address, that does not go on behind the last whole sector, and whose partitions end behind
their start and, on a byte-addressed card, on the card. -/
structure Sound (m : Medium) (card : MmcsdCard) (h : Heap) (gpt : GptHeader) : Prop where
  place : gpt.partitionEntryLba < addressable card
  stops : ¬ Reached m card h gpt gpt.whole
  ordered : ∀ i, Reached m card h gpt i → isPteValid (listed m gpt i) (lastLba card) →
    (listed m gpt i).startingLba ≤ (listed m gpt i).endingLba
  inside : m.registers.ByteAddressed → ∀ i, Reached m card h gpt i → isPteValid (listed m gpt i) (lastLba card) →
    (listed m gpt i).endingLba < m.registers.sectorCount

section

variable {m : Medium} {card : MmcsdCard} {h : Heap} {gpt : GptHeader} {ptes : Buffer} {i n s : ℕ}
  {part : Option DfsPartition}

theorem mem_probeLoop {buf : ℕ → UInt8} : (i, part) ∈ probeLoop card h buf n s ↔
    (s ≤ i ∧ i < s + n ∧ (∀ j, s ≤ j → j < i → isPteValid (gptEntry buf j) (lastLba card)) ∧
      (∀ j, s ≤ j → j ≤ i → h.part j = true) ∧ part = gptGetPartitionParam card buf i) := by
  induction n generalizing s with
  | zero => exact iff_of_false List.not_mem_nil (fun hno => by omega)
  | succ n ih =>
    rw [probeLoop]
    by_cases hpart : h.part s = false
    · rw [if_pos hpart]
      refine iff_of_false List.not_mem_nil ?_
      rintro ⟨hle, -, -, hall, -⟩
      rw [hall s le_rfl hle] at hpart
      cases hpart
    · rw [if_neg hpart]
      rw [Bool.not_eq_false] at hpart
      by_cases hvalid : isPteValid (gptEntry buf s) (lastLba card)
      · have hsome : ∃ p, gptGetPartitionParam card buf s = some p := ⟨_, if_pos hvalid⟩
        obtain ⟨p, hp⟩ := hsome
        rw [hp]
        dsimp only
        rw [List.mem_cons, ih, Prod.mk.injEq]
        constructor
        · rintro (⟨rfl, rfl⟩ | ⟨hle, hlt, hbefore, hmemory, hp'⟩)
          · refine ⟨le_rfl, by omega, fun j _ _ => by omega, fun j hj hj' => ?_, hp.symm⟩
            rw [Nat.le_antisymm hj' hj]
            exact hpart
          · refine ⟨by omega, by omega, fun j hj hj' => ?_, fun j hj hj' => ?_, hp'⟩
            · by_cases hjs : j = s
              · rw [hjs]
                exact hvalid
              · exact hbefore j (by omega) hj'
            · by_cases hjs : j = s
              · rw [hjs]
                exact hpart
              · exact hmemory j (by omega) hj'
        · rintro ⟨hle, hlt, hbefore, hmemory, hp'⟩
          by_cases his : i = s
          · rw [his, hp] at hp'
            exact .inl ⟨his, hp'⟩
          · exact .inr ⟨by omega, by omega, fun j hj hj' => hbefore j (by omega) hj',
              fun j hj hj' => hmemory j (by omega) hj', hp'⟩
      · have hnone : gptGetPartitionParam card buf s = none := if_neg hvalid
        rw [hnone]
        dsimp only
        rw [List.mem_singleton, Prod.mk.injEq]
        constructor
        · rintro ⟨rfl, rfl⟩
          refine ⟨le_rfl, by omega, fun j _ _ => by omega, fun j hj hj' => ?_, hnone.symm⟩
          rw [Nat.le_antisymm hj' hj]
          exact hpart
        · rintro ⟨hle, hlt, hbefore, hmemory, hp'⟩
          have his : i = s := by
            by_contra hne
            exact hvalid (hbefore s le_rfl (by omega))
          rw [his, hnone] at hp'
          exact ⟨his, hp'⟩

theorem gptEntry_congr {a b : ℕ → UInt8} (hab : ∀ k, k < 128 * i + 128 → a k = b k) : gptEntry a i = gptEntry b i := by
  have hguid : (List.range 16).map (fun k => a (128 * i + k)) = (List.range 16).map fun k => b (128 * i + k) := by
    apply List.map_congr_left
    intro k hk
    rw [List.mem_range] at hk
    exact hab _ (by omega)
  unfold gptEntry
  rw [hguid, leAt_congr fun k _ _ => hab k (by omega), leAt_congr fun k _ _ => hab k (by omega)]

theorem addressed_eq_iff {lba : ℕ} : addressed card (cmdArg card (.ofNat 32 lba)) = lba ↔ lba < addressable card := by
  unfold addressed cmdArg addressable
  cases card.sdhc with
  | true =>
    simp only [if_true, BitVec.toNat_ofNat]
    omega
  | false =>
    simp only [Bool.false_eq_true, if_false, BitVec.toNat_shiftLeft, BitVec.toNat_ofNat, Nat.shiftLeft_eq]
    omega

structure Found (m : Medium) (card : MmcsdCard) (h : Heap) (gpt : GptHeader) (ptes : Buffer) : Prop where
  count : 0 < m.registers.sectorCount
  blks : 4 * ptes.blks = gpt.whole
  first : ptes.first = addressed card (cmdArg card (.ofNat 32 gpt.partitionEntryLba))
  byte : ∀ k, k < 512 * ptes.blks → ptes.byte k = m.byte (512 * ptes.first + k)

theorem readLba_first {lba count : ℕ} {stale : ℕ → UInt8} {buf : Buffer} (hread : readLba m card lba stale count = some buf) :
    buf.first + count ≤ m.registers.sectorCount ∧ buf.blks = count ∧ buf.first = addressed card (cmdArg card (.ofNat 32 lba)) ∧
      ∀ k, k < 512 * count → buf.byte k = m.byte (512 * buf.first + k) := by
  unfold readLba rtMmcsdReqBlk at hread
  dsimp only at hread
  split at hread
  · cases hread
  · rename_i hgood
    rw [not_or, not_lt] at hgood
    cases hread
    exact ⟨hgood.1, rfl, rfl, fun k hk => if_pos hk⟩

theorem checkGpt_found (hfound : checkGpt m card h = some (gpt, ptes)) : Found m card h gpt ptes := by
  unfold checkGpt findValidGpt at hfound
  split at hfound
  · cases hfound
  · rw [Option.bind_eq_bind, Option.bind_eq_some_iff] at hfound
    obtain ⟨mbr, hmbr, hfound⟩ := hfound
    obtain ⟨hroom, -⟩ := readLba_first hmbr
    split at hfound
    · cases hfound
    · unfold isGptValid at hfound
      rw [Option.bind_eq_bind, Option.bind_eq_some_iff] at hfound
      obtain ⟨header, -, hfound⟩ := hfound
      split at hfound
      · cases hfound
      · rename_i hgood
        simp only [not_or, not_not] at hgood
        rw [Option.map_eq_some_iff] at hfound
        obtain ⟨buf, hentries, heq⟩ := hfound
        cases heq
        unfold allocReadGptEntries at hentries
        dsimp only at hentries
        rw [hgood.2.2.2.2.2.2] at hentries
        split at hentries
        · cases hentries
        · obtain ⟨-, hblks, hfirst, hbyte⟩ := readLba_first hentries
          refine ⟨by omega, ?_, hfirst, fun k hk => hbyte k (hblks ▸ hk)⟩
          rw [hblks, GptHeader.whole]
          omega

theorem lastLba_lt (hcard : m.registers.init = some card) (haddressed : ¬ m.registers.ByteAddressed)
    (hcount : 0 < m.registers.sectorCount) : lastLba card < m.registers.sectorCount := by
  cases hregisters : m.registers with
  | sd csd =>
    rw [hregisters] at hcard haddressed
    unfold Registers.ByteAddressed at haddressed
    unfold Registers.init mmcsdParseCsd at hcard
    dsimp only at hcard haddressed
    rw [if_neg haddressed] at hcard
    split at hcard
    · cases hcard
      have hsize : (getBits csd 48 22).toNat < 2 ^ 22 := by
        unfold getBits
        rw [BitVec.toNat_and]
        exact lt_of_le_of_lt Nat.and_le_right (by decide)
      unfold lastLba Registers.sectorCount
      dsimp only
      rw [if_neg haddressed]
      bv_omega
    · cases hcard
  | mmc csd extCsd ocr =>
    rw [hregisters] at hcard hcount haddressed
    unfold Registers.ByteAddressed at haddressed
    unfold Registers.init mmcInit at hcard
    dsimp only at hcard haddressed
    split at hcard
    · cases hcard
    · cases hcard
      have hlt := leAt_lt extCsd 212 4
      unfold Registers.sectorCount at hcount
      unfold lastLba Registers.sectorCount
      dsimp only at hcount ⊢
      rw [if_neg haddressed] at hcount ⊢
      generalize leAt extCsd 212 4 = secCnt at hlt hcount ⊢
      bv_omega

theorem Found.listed_eq (hfound : Found m card h gpt ptes) (hplace : ptes.first = gpt.partitionEntryLba) (hi : i < gpt.whole) :
    gptEntry ptes.byte i = listed m gpt i := by
  have hblks := hfound.blks
  apply gptEntry_congr
  intro k hk
  rw [hfound.byte k (by omega), hplace]

theorem Reached.mono {j : ℕ} (hi : Reached m card h gpt i) (hj : j ≤ i) : Reached m card h gpt j :=
  ⟨lt_of_le_of_lt hj hi.1, fun k hk => hi.2.1 k (by omega), fun k hk => hi.2.2 k (by omega)⟩

theorem Found.mem_iff (hfound : Found m card h gpt ptes) (hplace : ptes.first = gpt.partitionEntryLba)
    (hdevice : h.device = true) (hi : i ≤ gpt.whole) :
    (i, part) ∈ gptDeviceProbe card h ptes.byte ↔
      Reached m card h gpt i ∧ part = gptGetPartitionParam card ptes.byte i := by
  unfold gptDeviceProbe
  rw [if_neg (by rw [hdevice]; decide), mem_probeLoop]
  have hentries : ∀ j < i, gptEntry ptes.byte j = listed m gpt j := fun j hj => hfound.listed_eq hplace (by omega)
  constructor
  · rintro ⟨-, hlt, hbefore, hmemory, hpart⟩
    refine ⟨⟨by omega, fun j hj => ?_, fun j hj => hmemory j (Nat.zero_le _) hj⟩, hpart⟩
    rw [← hentries j hj]
    exact hbefore j (Nat.zero_le _) hj
  · rintro ⟨⟨hlt, hbefore, hmemory⟩, hpart⟩
    refine ⟨Nat.zero_le _, by omega, fun j _ hj => ?_, fun j _ hj => hmemory j hj, hpart⟩
    rw [hentries j hj]
    exact hbefore j hj

theorem param_placed {p : DfsPartition} {buf : ℕ → UInt8} {count : ℕ} (hp : gptGetPartitionParam card buf i = some p)
    (hordered : (gptEntry buf i).startingLba ≤ (gptEntry buf i).endingLba) (hinside : (gptEntry buf i).endingLba < count) :
    Placed count (gptEntry buf i) p := by
  unfold gptGetPartitionParam at hp
  dsimp only at hp
  split at hp
  · rename_i hvalid
    obtain rfl := Option.some.inj hp
    unfold isPteValid at hvalid
    rw [not_or, not_or, not_lt, not_lt] at hvalid
    have hlast : lastLba card < 2 ^ 32 := BitVec.isLt _
    refine ⟨hordered, rfl, ?_, hinside⟩
    change (_ : ℕ) % 2 ^ 64 = _
    omega
  · cases hp

theorem isPteValid_of_param {p : DfsPartition} {buf : ℕ → UInt8} (hp : gptGetPartitionParam card buf i = some p) :
    isPteValid (gptEntry buf i) (lastLba card) := by
  unfold gptGetPartitionParam at hp
  dsimp only at hp
  split at hp
  · assumption
  · cases hp

end

/-- The probe is safe exactly on the tables that are sound. -/
theorem probe_safe_iff {m : Medium} {card : MmcsdCard} (h : Heap) (hcard : m.registers.init = some card) :
    ProbeSafe m card h ↔ ∀ gpt, (checkGpt m card h).map Prod.fst = some gpt → h.device = true → h.part 0 = true →
      Sound m card h gpt := by
  constructor
  · intro hsafe gpt hgpt hdevice hmemory
    rw [Option.map_eq_some_iff] at hgpt
    obtain ⟨⟨gpt, ptes⟩, hcheck, heq⟩ := hgpt
    cases heq
    have hfound := checkGpt_found hcheck
    replace hsafe := hsafe gpt ptes _ (by unfold rtMmcsdBlkProbe; rw [hcheck]; rfl)
    have hplace : ptes.first = gpt.partitionEntryLba := by
      refine (hsafe 0 (gptGetPartitionParam card ptes.byte 0) ?_).2.1
      unfold gptDeviceProbe
      rw [if_neg (by rw [hdevice]; decide), mem_probeLoop]
      refine ⟨le_rfl, by decide, fun j _ hj => absurd hj (Nat.not_lt_zero _), fun j _ hj => ?_, rfl⟩
      rw [Nat.le_zero.mp hj]
      exact hmemory
    have hstops : ¬ Reached m card h gpt gpt.whole := fun hreached => by
      have hroom := (hsafe _ _ ((hfound.mem_iff hplace hdevice le_rfl).mpr ⟨hreached, rfl⟩)).1
      have hblks := hfound.blks
      omega
    have hplaced : ∀ i, Reached m card h gpt i → isPteValid (listed m gpt i) (lastLba card) →
        ∃ p, Placed m.registers.sectorCount (listed m gpt i) p := by
      intro i hreached hvalid
      have hi : i < gpt.whole := lt_of_not_ge fun hge => hstops (hreached.mono hge)
      rw [← hfound.listed_eq hplace hi] at hvalid ⊢
      refine ⟨_, (hsafe i _ ((hfound.mem_iff hplace hdevice hi.le).mpr ⟨hreached, rfl⟩)).2.2 _ (if_pos hvalid)⟩
    refine ⟨addressed_eq_iff.mp (hfound.first.symm.trans hplace), hstops, fun i hreached hvalid => ?_,
      fun _ i hreached hvalid => ?_⟩
    · obtain ⟨_, hp⟩ := hplaced i hreached hvalid
      exact hp.ordered
    · obtain ⟨_, hp⟩ := hplaced i hreached hvalid
      exact hp.inside
  · intro hsound gpt ptes run hrun i part hmem
    unfold rtMmcsdBlkProbe at hrun
    rw [Option.map_eq_some_iff] at hrun
    obtain ⟨⟨_, _⟩, hcheck, heq⟩ := hrun
    cases heq
    have hfound := checkGpt_found hcheck
    have hdevice : h.device = true := by
      by_contra hno
      unfold gptDeviceProbe at hmem
      rw [if_pos (Bool.eq_false_of_not_eq_true hno)] at hmem
      cases hmem
    have hloop := hmem
    unfold gptDeviceProbe at hloop
    rw [if_neg (by rw [hdevice]; decide), mem_probeLoop] at hloop
    obtain ⟨-, hlt, hbefore, hmemory, -⟩ := hloop
    have hgood := hsound gpt (by rw [hcheck]; rfl) hdevice (hmemory 0 le_rfl (Nat.zero_le _))
    have hplace : ptes.first = gpt.partitionEntryLba := hfound.first.trans (addressed_eq_iff.mpr hgood.place)
    have hi : i < gpt.whole := by
      by_contra hge
      refine hgood.stops ⟨by omega, fun j hj => ?_, fun j hj => hmemory j (Nat.zero_le _) (by omega)⟩
      rw [← hfound.listed_eq hplace hj]
      exact hbefore j (Nat.zero_le _) (by omega)
    obtain ⟨hreached, hpart⟩ := (hfound.mem_iff hplace hdevice hi.le).mp hmem
    have hblks := hfound.blks
    refine ⟨by omega, hplace, fun p hp => ?_⟩
    rw [hp] at hpart
    have hvalid := isPteValid_of_param hpart.symm
    have hentry := hfound.listed_eq hplace hi
    apply param_placed hpart.symm
    · rw [hentry] at hvalid ⊢
      exact hgood.ordered i hreached hvalid
    · by_cases haddressed : m.registers.ByteAddressed
      · rw [hentry] at hvalid ⊢
        exact hgood.inside haddressed i hreached hvalid
      · unfold isPteValid at hvalid
        rw [not_or, not_or, not_lt, not_lt] at hvalid
        exact lt_of_le_of_lt hvalid.2.2 (lastLba_lt hcard haddressed hfound.count)

/-- A card of 1024 sectors with a table of four entries, of which the first is in use, from sector 20 to the one given. -/
def demoBytes (last : UInt8) : List (ℕ × UInt8) :=
  [(450, 0xee), (454, 1), (510, 0x55), (511, 0xaa),
    (512, 0x45), (513, 0x46), (514, 0x49), (515, 0x20), (516, 0x50), (517, 0x41), (518, 0x52), (519, 0x54),
    (524, 92), (536, 1), (552, 6), (560, 100), (584, 2), (592, 4), (596, 128),
    (1024, 1), (1056, 20), (1064, last)]

def demoMedium (last : UInt8) : Medium where
  registers := .sd fun i => if i = 0 then 0x40000000 else 0
  byte k := ((demoBytes last).lookup k).getD 0
  transfers _ _ := true

def demoCard : MmcsdCard := ⟨true, 512, 512, 1024⟩

def demoHeap : Heap := ⟨true, true, true, true, fun _ => true, fun _ => 0⟩

theorem probe_safe_iff_demo : ProbeSafe (demoMedium 29) demoCard demoHeap ↔
    ∀ gpt, (checkGpt (demoMedium 29) demoCard demoHeap).map Prod.fst = some gpt → demoHeap.device = true →
      demoHeap.part 0 = true → Sound (demoMedium 29) demoCard demoHeap gpt :=
  probe_safe_iff demoHeap (by decide)

/-- A partition from sector 20 to sector 10. -/
theorem backward_partition : demoCard ∈ (demoMedium 10).registers.init ∧ ¬ ProbeSafe (demoMedium 10) demoCard demoHeap := by
  refine ⟨by decide, fun hsafe => ?_⟩
  have hrun : (rtMmcsdBlkProbe (demoMedium 10) demoCard demoHeap).map (fun r => r.2.2) =
      some [(0, some ⟨20, 2 ^ 64 - 9⟩), (1, none)] := by decide +kernel
  rw [Option.map_eq_some_iff] at hrun
  obtain ⟨⟨gpt, ptes, run⟩, hprobe, hlist⟩ := hrun
  have hmem : (0, some ⟨20, 2 ^ 64 - 9⟩) ∈ run := by
    rw [show run = _ from hlist]
    exact List.mem_cons_self
  have hplaced := (hsafe gpt ptes run hprobe 0 _ hmem).2.2 _ rfl
  have hsize : 2 ^ 64 - 9 = (gptEntry ptes.byte 0).endingLba - (gptEntry ptes.byte 0).startingLba + 1 := hplaced.size
  have hinside : (gptEntry ptes.byte 0).endingLba < 1024 := hplaced.inside
  omega

end RtSmart.GptProbe
