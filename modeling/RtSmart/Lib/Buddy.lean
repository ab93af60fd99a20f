import Mathlib.Data.Nat.Bitwise
import Mathlib.Tactic

/-!
Buddy systems. A region of `n` cells starts at the address `base`; a block of order `k` is `2 ^ k`
cells whose address is a multiple of `2 ^ k`, and its buddy is found by flipping one address bit.
-/

namespace RtSmart.Lib

variable {base n i j k l x : ℕ}

/-- The cells `x` of the block of order `k` at `i`. -/
def InBlock (i k x : ℕ) : Prop := i ≤ x ∧ x < i + 2 ^ k

def IsBuddy (base i j k : ℕ) : Prop := base + j = (base + i) ^^^ 2 ^ k

theorem inBlock_self : InBlock i k i := ⟨le_rfl, Nat.lt_add_of_pos_right (Nat.two_pow_pos k)⟩

theorem inBlock_succ : InBlock i (k + 1) x ↔ InBlock i k x ∨ InBlock (i + 2 ^ k) k x := by
  simp only [InBlock, pow_succ]
  omega

theorem xor_two_pow_cases {a : ℕ} (h : 2 ^ k ∣ a) :
    (2 ^ (k + 1) ∣ a ∧ a ^^^ 2 ^ k = a + 2 ^ k) ∨ (2 ^ (k + 1) ∣ a ^^^ 2 ^ k ∧ a = (a ^^^ 2 ^ k) + 2 ^ k) := by
  obtain ⟨m, rfl⟩ := h
  have hx : 2 ^ k * m ^^^ 2 ^ k = 2 ^ k * (m ^^^ 1) := by
    have := Nat.shiftLeft_xor_distrib (a := m) (b := 1) (i := k)
    simp only [Nat.shiftLeft_eq, one_mul] at this
    rw [mul_comm, ← this, mul_comm]
  rcases Nat.even_or_odd' m with ⟨c, rfl | rfl⟩
  · left
    rw [hx, Nat.xor_one_of_even ⟨c, two_mul c⟩]
    exact ⟨⟨c, by ring⟩, by ring⟩
  · right
    rw [hx, Nat.xor_one_of_odd ⟨c, rfl⟩]
    exact ⟨⟨c, by simp; ring⟩, by simp; ring⟩

theorem IsBuddy.cases (h : IsBuddy base i j k) (ha : 2 ^ k ∣ base + i) :
    (j = i + 2 ^ k ∧ 2 ^ (k + 1) ∣ base + i) ∨ (i = j + 2 ^ k ∧ 2 ^ (k + 1) ∣ base + j) := by
  unfold IsBuddy at h
  rcases xor_two_pow_cases ha with ⟨hd, he⟩ | ⟨hd, he⟩
  · exact .inl ⟨by omega, hd⟩
  · rw [← h] at hd he
    exact .inr ⟨by omega, hd⟩

theorem isBuddy_of_dvd (h : 2 ^ (k + 1) ∣ base + i) : IsBuddy base i (i + 2 ^ k) k := by
  unfold IsBuddy
  rcases xor_two_pow_cases (dvd_trans (pow_dvd_pow 2 k.le_succ) h) with ⟨_, he⟩ | ⟨hd, he⟩
  · omega
  · -- both of two neighbouring blocks cannot be at multiples of the double size
    exfalso
    have h2 := (Nat.dvd_add_right hd).mp (he ▸ h)
    have := Nat.le_of_dvd (Nat.two_pow_pos k) h2
    rw [pow_succ] at this
    have := Nat.two_pow_pos k
    omega

theorem IsBuddy.symm (h : IsBuddy base i j k) : IsBuddy base j i k := by
  unfold IsBuddy at *
  rw [h, Nat.xor_assoc, Nat.xor_self, Nat.xor_zero]

theorem not_isBuddy_self : ¬ IsBuddy base i i k := by
  intro h
  have := congrArg ((base + i) ^^^ ·) h
  simp only [Nat.xor_self, ← Nat.xor_assoc, Nat.zero_xor] at this
  exact (Nat.two_pow_pos k).ne this

theorem IsBuddy.unique (h : IsBuddy base i j k) (h' : IsBuddy base i l k) : j = l := by
  unfold IsBuddy at *
  omega

theorem dvd_add_two_pow (h : 2 ^ (k + 1) ∣ base + i) : 2 ^ k ∣ base + (i + 2 ^ k) := by
  rw [← add_assoc]
  exact (Nat.dvd_add_left dvd_rfl).mpr (dvd_trans (pow_dvd_pow 2 k.le_succ) h)

theorem InBlock.nested (hi : InBlock i k x) (hj : InBlock j l x) (hai : 2 ^ k ∣ base + i)
    (haj : 2 ^ l ∣ base + j) (hkl : k ≤ l) : j ≤ i ∧ i + 2 ^ k ≤ j + 2 ^ l := by
  obtain ⟨m, hm⟩ := hai
  obtain ⟨c, rfl⟩ := Nat.exists_eq_add_of_le hkl
  obtain ⟨m', hm'⟩ := haj
  unfold InBlock at hj
  rw [pow_add] at hm' hj ⊢
  have hpos := Nat.two_pow_pos k
  have h1 : 2 ^ k * (2 ^ c * m') < 2 ^ k * (m + 1) := by
    have := hi.2
    have := hj.1
    rw [mul_add, ← mul_assoc]
    omega
  have he : 2 ^ k * (2 ^ c * (m' + 1)) = 2 ^ k * 2 ^ c * m' + 2 ^ k * 2 ^ c := by ring
  have h2 : 2 ^ k * m < 2 ^ k * (2 ^ c * (m' + 1)) := by
    have := hi.1
    have := hj.2
    omega
  have h3 := Nat.mul_le_mul_left (2 ^ k) (Nat.lt_succ_iff.mp (Nat.lt_of_mul_lt_mul_left h1))
  have h4 := Nat.mul_le_mul_left (2 ^ k) (Nat.lt_of_mul_lt_mul_left h2)
  rw [Nat.succ_eq_add_one, mul_add, he] at h4
  rw [← mul_assoc] at h3
  omega

/-- The blocks `B` (start, order) are aligned and cover each cell of the region exactly once. -/
structure Tiling (base n : ℕ) (B : ℕ → ℕ → Prop) : Prop where
  aligned : ∀ i k, B i k → 2 ^ k ∣ base + i
  inside : ∀ i k, B i k → i + 2 ^ k ≤ n
  cover : ∀ x < n, ∃ i k, B i k ∧ InBlock i k x
  disjoint : ∀ i k j l x, B i k → B j l → InBlock i k x → InBlock j l x → i = j ∧ k = l

variable {B B' F : ℕ → ℕ → Prop}

theorem Tiling.congr (h : Tiling base n B) (hB : ∀ i k, B' i k ↔ B i k) : Tiling base n B' := by
  obtain rfl : B' = B := by
    funext i k
    exact propext (hB i k)
  exact h

theorem Tiling.order_unique (h : Tiling base n B) (hi : B i k) (hj : B i l) : k = l :=
  (h.disjoint i k i l i hi hj inBlock_self inBlock_self).2

theorem Tiling.merge (h : Tiling base n B) (hi : B i k) (hj : B (i + 2 ^ k) k) (ha : 2 ^ (k + 1) ∣ base + i)
    (hB : ∀ b m, B' b m ↔ (B b m ∧ b ≠ i ∧ b ≠ i + 2 ^ k) ∨ (b = i ∧ m = k + 1)) : Tiling base n B' where
  aligned b m hb := by
    rcases (hB b m).mp hb with hb | ⟨rfl, rfl⟩
    · exact h.aligned b m hb.1
    · exact ha
  inside b m hb := by
    rcases (hB b m).mp hb with hb | ⟨rfl, rfl⟩
    · exact h.inside b m hb.1
    · have := h.inside _ _ hj
      rw [pow_succ]
      omega
  cover x hx := by
    obtain ⟨b, m, hb, hin⟩ := h.cover x hx
    by_cases hbi : b = i
    · subst hbi
      obtain rfl := h.order_unique hi hb
      exact ⟨b, k + 1, (hB _ _).mpr (.inr ⟨rfl, rfl⟩), inBlock_succ.mpr (.inl hin)⟩
    by_cases hbj : b = i + 2 ^ k
    · subst hbj
      obtain rfl := h.order_unique hj hb
      exact ⟨i, k + 1, (hB _ _).mpr (.inr ⟨rfl, rfl⟩), inBlock_succ.mpr (.inr hin)⟩
    · exact ⟨b, m, (hB _ _).mpr (.inl ⟨hb, hbi, hbj⟩), hin⟩
  disjoint b m c q x hb hc hbx hcx := by
    -- a block other than the two halves does not meet the merged one
    have key : ∀ b m, B b m → b ≠ i → b ≠ i + 2 ^ k → InBlock b m x → InBlock i (k + 1) x → False := by
      intro b m hb hbi hbj hbx hx
      rcases inBlock_succ.mp hx with hx | hx
      · exact hbi (h.disjoint _ _ _ _ _ hb hi hbx hx).1
      · exact hbj (h.disjoint _ _ _ _ _ hb hj hbx hx).1
    rcases (hB b m).mp hb with ⟨hb, hbi, hbj⟩ | ⟨rfl, rfl⟩ <;>
      rcases (hB c q).mp hc with ⟨hc, hci, hcj⟩ | ⟨rfl, rfl⟩
    · exact h.disjoint _ _ _ _ _ hb hc hbx hcx
    · exact (key b m hb hbi hbj hbx hcx).elim
    · exact (key c q hc hci hcj hcx hbx).elim
    · exact ⟨rfl, rfl⟩

theorem Tiling.split (h : Tiling base n B) (hi : B i (k + 1))
    (hB : ∀ b m, B' b m ↔ (B b m ∧ b ≠ i) ∨ (b = i ∧ m = k) ∨ (b = i + 2 ^ k ∧ m = k)) : Tiling base n B' where
  aligned b m hb := by
    have ha := h.aligned _ _ hi
    rcases (hB b m).mp hb with hb | ⟨rfl, rfl⟩ | ⟨rfl, rfl⟩
    · exact h.aligned b m hb.1
    · exact dvd_trans (pow_dvd_pow 2 (Nat.le_succ _)) ha
    · exact dvd_add_two_pow ha
  inside b m hb := by
    have hin := h.inside _ _ hi
    rw [pow_succ] at hin
    rcases (hB b m).mp hb with hb | ⟨rfl, rfl⟩ | ⟨rfl, rfl⟩
    · exact h.inside b m hb.1
    · omega
    · omega
  cover x hx := by
    obtain ⟨b, m, hb, hin⟩ := h.cover x hx
    by_cases hbi : b = i
    · subst hbi
      obtain rfl := h.order_unique hi hb
      rcases inBlock_succ.mp hin with hin | hin
      · exact ⟨_, _, (hB _ _).mpr (.inr (.inl ⟨rfl, rfl⟩)), hin⟩
      · exact ⟨_, _, (hB _ _).mpr (.inr (.inr ⟨rfl, rfl⟩)), hin⟩
    · exact ⟨b, m, (hB _ _).mpr (.inl ⟨hb, hbi⟩), hin⟩
  disjoint b m c q x hb hc hbx hcx := by
    have hpos := Nat.two_pow_pos k
    have key : ∀ b m, B b m → b ≠ i → InBlock b m x → ¬ InBlock i (k + 1) x := by
      intro b m hb hbi hbx hx
      exact hbi (h.disjoint _ _ _ _ _ hb hi hbx hx).1
    rcases (hB b m).mp hb with ⟨hb, hbi⟩ | ⟨rfl, rfl⟩ | ⟨rfl, rfl⟩ <;>
      rcases (hB c q).mp hc with ⟨hc, hci⟩ | ⟨rfl, rfl⟩ | ⟨rfl, rfl⟩
    · exact h.disjoint _ _ _ _ _ hb hc hbx hcx
    · exact (key _ _ hb hbi hbx (inBlock_succ.mpr (.inl hcx))).elim
    · exact (key _ _ hb hbi hbx (inBlock_succ.mpr (.inr hcx))).elim
    · exact (key _ _ hc hci hcx (inBlock_succ.mpr (.inl hbx))).elim
    · exact ⟨rfl, rfl⟩
    · exact absurd hbx.2 (by simpa using hcx.1)
    · exact (key _ _ hc hci hcx (inBlock_succ.mpr (.inr hbx))).elim
    · exact absurd hcx.2 (by simpa using hbx.1)
    · exact ⟨rfl, rfl⟩

theorem Tiling.extend (h : Tiling base n B) (ha : 2 ^ k ∣ base + n)
    (hB : ∀ b m, B' b m ↔ B b m ∨ (b = n ∧ m = k)) : Tiling base (n + 2 ^ k) B' where
  aligned b m hb := by
    rcases (hB b m).mp hb with hb | ⟨rfl, rfl⟩
    · exact h.aligned b m hb
    · exact ha
  inside b m hb := by
    rcases (hB b m).mp hb with hb | ⟨rfl, rfl⟩
    · have := h.inside b m hb
      omega
    · exact le_rfl
  cover x hx := by
    by_cases hxn : x < n
    · obtain ⟨b, m, hb, hin⟩ := h.cover x hxn
      exact ⟨b, m, (hB _ _).mpr (.inl hb), hin⟩
    · exact ⟨n, k, (hB _ _).mpr (.inr ⟨rfl, rfl⟩), not_lt.mp hxn, hx⟩
  disjoint b m c q x hb hc hbx hcx := by
    have key : ∀ b m, B b m → InBlock b m x → x < n := fun b m hb hx => hx.2.trans_le (h.inside b m hb)
    rcases (hB b m).mp hb with hb | ⟨rfl, rfl⟩ <;> rcases (hB c q).mp hc with hc | ⟨rfl, rfl⟩
    · exact h.disjoint _ _ _ _ _ hb hc hbx hcx
    · exact absurd (key _ _ hb hbx) (not_lt.mpr hcx.1)
    · exact absurd (key _ _ hc hcx) (not_lt.mpr hbx.1)
    · exact ⟨rfl, rfl⟩

theorem tiling_zero (base : ℕ) : Tiling base 0 fun _ _ => False where
  aligned _ _ h := h.elim
  inside _ _ h := h.elim
  cover _ hx := absurd hx (Nat.not_lt_zero _)
  disjoint _ _ _ _ _ h := h.elim

def NoBuddies (base : ℕ) (F : ℕ → ℕ → Prop) : Prop := ∀ i j k, F i k → F j k → ¬ IsBuddy base i j k

def Covered (F : ℕ → ℕ → Prop) (x : ℕ) : Prop := ∃ i k, F i k ∧ InBlock i k x

theorem NoBuddies.whole (hn : NoBuddies base F) (ht : Tiling base n B) (hF : ∀ i k, F i k → B i k)
    (ha : 2 ^ k ∣ base + i) (hc : ∀ x, InBlock i k x → Covered F x) :
    ∃ j l, F j l ∧ j ≤ i ∧ i + 2 ^ k ≤ j + 2 ^ l := by
  induction k generalizing i with
  | zero =>
    obtain ⟨j, l, hj, hx⟩ := hc i inBlock_self
    exact ⟨j, l, hj, hx.1, hx.2⟩
  | succ k ih =>
    have hpos := Nat.two_pow_pos k
    obtain ⟨j, l, hj, hji, hjl⟩ := ih (dvd_trans (pow_dvd_pow 2 k.le_succ) ha)
      fun x hx => hc x (inBlock_succ.mpr (.inl hx))
    obtain ⟨j', l', hj', hji', hjl'⟩ := ih (dvd_add_two_pow ha) fun x hx => hc x (inBlock_succ.mpr (.inr hx))
    have hal := ht.aligned _ _ (hF _ _ hj)
    have hal' := ht.aligned _ _ (hF _ _ hj')
    have hin : InBlock j l i := ⟨hji, by omega⟩
    have hin' : InBlock j' l' (i + 2 ^ k) := ⟨hji', by omega⟩
    by_cases hkl : k + 1 ≤ l
    · exact ⟨j, l, hj, inBlock_self.nested hin ha hal hkl⟩
    by_cases hkl' : k + 1 ≤ l'
    · have hmid : InBlock i (k + 1) (i + 2 ^ k) := by
        rw [inBlock_succ]
        exact .inr inBlock_self
      exact ⟨j', l', hj', hmid.nested hin' ha hal' hkl'⟩
    -- otherwise the two halves are themselves blocks, and buddies of each other
    exfalso
    have hl : l = k := by
      have := (Nat.pow_le_pow_iff_right (a := 2) (by norm_num)).mp (show 2 ^ k ≤ 2 ^ l by omega)
      omega
    have hl' : l' = k := by
      have := (Nat.pow_le_pow_iff_right (a := 2) (by norm_num)).mp (show 2 ^ k ≤ 2 ^ l' by omega)
      omega
    subst hl hl'
    obtain rfl : j = i := by omega
    obtain rfl : j' = j + 2 ^ l' := by omega
    exact hn _ _ _ hj hj' (isBuddy_of_dvd ha)

theorem NoBuddies.subset {F' U : ℕ → ℕ → Prop} (hn : NoBuddies base F) (hn' : NoBuddies base F')
    (ht : Tiling base n fun i k => F i k ∨ U i k) (ht' : Tiling base n fun i k => F' i k ∨ U i k)
    (hx : ∀ i k, U i k → ¬ F i k) (hx' : ∀ i k, U i k → ¬ F' i k) (hF : F i k) : F' i k := by
  -- What one of them covers the other covers as well.
  have key : ∀ {G G' : ℕ → ℕ → Prop}, (Tiling base n fun i k => G i k ∨ U i k) →
      (Tiling base n fun i k => G' i k ∨ U i k) → (∀ i k, U i k → ¬ G i k) → NoBuddies base G' →
      ∀ i k, G i k → ∃ j l, G' j l ∧ j ≤ i ∧ i + 2 ^ k ≤ j + 2 ^ l := by
    intro G G' hG hG' hU hnG i k hi
    apply hnG.whole hG' (fun _ _ h => .inl h) (hG.aligned i k (.inl hi))
    intro x hx
    have hin := hG.inside i k (.inl hi)
    obtain ⟨j, l, hj, hjx⟩ := hG'.cover x (hx.2.trans_le hin)
    rcases hj with hj | hj
    · exact ⟨j, l, hj, hjx⟩
    · obtain ⟨rfl, rfl⟩ := hG.disjoint i k j l x (.inl hi) (.inr hj) hx hjx
      exact absurd hi (hU _ _ hj)
  obtain ⟨j, l, hj, hji, hjl⟩ := key ht ht' hx hn' i k hF
  obtain ⟨j', l', hj', hjj', hjl'⟩ := key ht' ht hx' hn j l hj
  have hpos := Nat.two_pow_pos k
  obtain ⟨rfl, rfl⟩ := ht.disjoint i k j' l' i (.inl hF) (.inl hj') inBlock_self ⟨by omega, by omega⟩
  obtain rfl : j = i := by omega
  have hsize : 2 ^ l = 2 ^ k := by omega
  obtain rfl : l = k := Nat.pow_right_injective (le_refl 2) hsize
  exact hj

theorem NoBuddies.unique {F' U : ℕ → ℕ → Prop} (hn : NoBuddies base F) (hn' : NoBuddies base F')
    (ht : Tiling base n fun i k => F i k ∨ U i k) (ht' : Tiling base n fun i k => F' i k ∨ U i k)
    (hx : ∀ i k, U i k → ¬ F i k) (hx' : ∀ i k, U i k → ¬ F' i k) (i k : ℕ) : F i k ↔ F' i k :=
  ⟨hn.subset hn' ht ht' hx hx', hn'.subset hn ht' ht hx' hx⟩

end RtSmart.Lib
