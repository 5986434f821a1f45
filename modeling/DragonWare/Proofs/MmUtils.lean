import DragonWare.MmUtils

/-!
# Moves are snapshot copies, and comparisons are bytewise

A move that goes up has copied a first part of the range, one that goes down a last part, and the
bytes still to be read are as they were (`update_up`, `update_down`). `memcpy_atomic` does not end
when the size leaves no room for another word below 4 GiB (`memcpyAtomicWords_none`).
-/

namespace DragonWare

open BitVec Function Memory

section Moves

variable {m : Mem} {d s i j w N : ℕ} {dst src size : BitVec 32}

theorem update_eq_blit (m : Mem) (a : ℕ) (v : BitVec 8) : update m a v = blit m a 1 fun _ => v := by
  funext x
  by_cases hx : x = a
  · simp [blit, hx]
  · rw [update_of_ne hx, blit, if_neg (by omega)]

theorem write32_eq_blit (m m' : Mem) (a b : ℕ) :
    write32 m a (read32 m' b) = blit m a 4 fun k => m' (b + k) := by
  funext x
  unfold write32 blit
  split_ifs with hx
  · exact extractLsb_read32 m' b (by omega)
  · rfl

def snapshot (m : Mem) (d s n : ℕ) : Mem := blit m d n fun k => m (s + k)

@[simp] theorem snapshot_zero : snapshot m d s 0 = m := blit_zero ..

theorem snapshot_up (h : d ≤ s ∨ s + (i + w) ≤ d) :
    blit (snapshot m d s i) (d + i) w (fun k => snapshot m d s i (s + i + k))
      = snapshot m d s (i + w) := by
  refine blit_blit fun k hk => ?_
  rw [snapshot, blit, if_neg (by omega), Nat.add_assoc]

theorem update_up (h : d ≤ s ∨ s + (i + 1) ≤ d) :
    update (snapshot m d s i) (d + i) (snapshot m d s i (s + i)) = snapshot m d s (i + 1) := by
  rw [update_eq_blit, ← snapshot_up h]
  refine blit_congr fun k hk => ?_
  rw [show k = 0 by omega, Nat.add_zero]

theorem update_down (h : s ≤ d) :
    update (snapshot m (d + (i + 1)) (s + (i + 1)) j) (d + i)
        (snapshot m (d + (i + 1)) (s + (i + 1)) j (s + i))
      = snapshot m (d + i) (s + i) (j + 1) := by
  funext x
  unfold snapshot blit
  rw [if_neg (by omega)]
  by_cases hx : x = d + i
  · rw [hx, update_self, if_pos (by omega), Nat.sub_self]
    rfl
  rw [update_of_ne hx]
  by_cases hin : d + (i + 1) ≤ x ∧ x < d + (i + 1) + j
  · rw [if_pos hin, if_pos (by omega)]
    exact congrArg m (by omega)
  · rw [if_neg hin, if_neg (by omega)]

theorem copyUp_eq (h : d ≤ s ∨ s + N ≤ d) : ∀ {n i : ℕ}, i + n = N →
    copyUp n (d + i) (s + i) (snapshot m d s i) = snapshot m d s N
  | 0, i, hi => by rw [copyUp, ← hi, Nat.add_zero]
  | n + 1, i, hi => by
    rw [copyUp, update_up (by omega)]
    exact copyUp_eq h (i := i + 1) (by omega)

theorem copyDown_eq (h : s ≤ d) : ∀ {i j : ℕ},
    copyDown i (d + i) (s + i) (snapshot m (d + i) (s + i) j) = snapshot m d s (i + j)
  | 0, j => by simp [copyDown]
  | i + 1, j => by
    rw [copyDown, show d + (i + 1) - 1 = d + i from rfl, show s + (i + 1) - 1 = s + i from rfl,
      update_down h, copyDown_eq h, Nat.add_right_comm, Nat.add_assoc]

theorem memmove_eq (d s n : ℕ) (m : Mem) : memmove d s n m = snapshot m d s n := by
  unfold memmove
  split_ifs with h
  · simpa using copyUp_eq (m := m) (i := 0) (.inl h.le) (Nat.zero_add n)
  · simpa using copyDown_eq (m := m) (i := n) (j := 0) (not_lt.1 h)

theorem libcMemmove_eq (d s n : ℕ) (m : Mem) : libcMemmove d s n m = snapshot m d s n := by
  unfold libcMemmove
  split_ifs with h hlt
  · rcases h with rfl | rfl
    · rw [snapshot_zero]
    · funext x
      unfold snapshot blit
      split_ifs with hx
      · exact congrArg m (Nat.add_sub_cancel' hx.1).symm
      · rfl
  · simpa [memmove, hlt] using memmove_eq d s n m
  · simpa [memmove, hlt] using memmove_eq d s n m

theorem toNat_add_ofNat {p : BitVec 32} (h : p.toNat + i < 2 ^ 32) :
    (p + BitVec.ofNat 32 i).toNat = p.toNat + i := by
  rw [toNat_add, toNat_ofNat, Nat.mod_eq_of_lt (by omega : i < 2 ^ 32),
    Nat.mod_eq_of_lt h]

theorem moveDown_eq : ∀ {i : ℕ} {m : Mem}, dst.toNat + i ≤ 2 ^ 32 → src.toNat + i ≤ 2 ^ 32 →
    moveDown dst src i m = copyDown i (dst.toNat + i) (src.toNat + i) m
  | 0, _, _, _ => rfl
  | i + 1, m, hd, hs => by
    rw [moveDown, toNat_add_ofNat (by omega), toNat_add_ofNat (by omega),
      moveDown_eq (by omega) (by omega)]
    rfl

section Up

variable (hd : dst.toNat + size.toNat ≤ 2 ^ 32) (hs : src.toNat + size.toNat ≤ 2 ^ 32)
include hd hs

theorem memcpyAtomicBytes_eq : ∀ {fuel i : ℕ} {m : Mem}, i ≤ size.toNat → size.toNat < i + fuel →
    memcpyAtomicBytes dst src size fuel (BitVec.ofNat 32 i) m
      = some (copyUp (size.toNat - i) (dst.toNat + i) (src.toNat + i) m)
  | 0, i, m, hi, hf => by omega
  | fuel + 1, i, m, hi, hf => by
    have hlt : BitVec.ofNat 32 i < size ↔ i < size.toNat := by
      rw [lt_def, toNat_ofNat, Nat.mod_eq_of_lt (by omega)]
    rw [memcpyAtomicBytes]
    split_ifs with hlt'
    · have hlt' := hlt.1 hlt'
      rw [toNat_add_ofNat (by omega), toNat_add_ofNat (by omega),
        show BitVec.ofNat 32 i + 1 = BitVec.ofNat 32 (i + 1) from (ofNat_add ..).symm,
        memcpyAtomicBytes_eq (by omega) (by omega),
        show size.toNat - i = size.toNat - (i + 1) + 1 by omega]
      rfl
    · rw [show size.toNat - i = 0 by have := mt hlt.2 hlt'; omega]
      rfl

variable (h : dst.toNat ≤ src.toNat ∨ src.toNat + size.toNat ≤ dst.toNat)
  (hsize : size.toNat < 0xFFFFFFFC)
include h hsize

theorem memcpyAtomicWords_eq : ∀ {fuel i : ℕ}, i ≤ size.toNat → size.toNat < i + 4 * fuel →
    ∃ j ≤ size.toNat, memcpyAtomicWords dst src size fuel (BitVec.ofNat 32 i)
        (snapshot m dst.toNat src.toNat i)
      = some (BitVec.ofNat 32 j, snapshot m dst.toNat src.toNat j)
  | 0, i, hi, hf => by omega
  | fuel + 1, i, hi, hf => by
    have hnext : BitVec.ofNat 32 i + 4 = BitVec.ofNat 32 (i + 4) := (ofNat_add ..).symm
    have hle : BitVec.ofNat 32 (i + 4) ≤ size ↔ i + 4 ≤ size.toNat := by
      rw [le_def, toNat_ofNat, Nat.mod_eq_of_lt (by omega)]
    rw [memcpyAtomicWords, hnext]
    split_ifs with hle'
    · have hle' := hle.1 hle'
      rw [toNat_add_ofNat (by omega), toNat_add_ofNat (by omega), write32_eq_blit,
        snapshot_up (by omega)]
      exact memcpyAtomicWords_eq hle' (by omega)
    · exact ⟨i, hi, rfl⟩

theorem memcpyAtomic_eq (m : Mem) : memcpyAtomic dst src size (size.toNat + 1) m
    = some (snapshot m dst.toNat src.toNat size.toNat) := by
  obtain ⟨j, hj, hwords⟩ := memcpyAtomicWords_eq (m := m) hd hs h hsize (Nat.zero_le _)
    (show size.toNat < 0 + 4 * (size.toNat + 1) by omega)
  rw [snapshot_zero] at hwords
  rw [memcpyAtomic, show (0 : BitVec 32) = BitVec.ofNat 32 0 from rfl, hwords, Option.bind_some,
    memcpyAtomicBytes_eq hd hs hj (by omega), copyUp_eq h (by omega)]

end Up

theorem memcpyAtomicWords_none (hsize : 0xFFFFFFFC ≤ size.toNat) : ∀ (fuel i : ℕ) (m : Mem),
    memcpyAtomicWords dst src size fuel (BitVec.ofNat 32 (4 * i)) m = none
  | 0, _, _ => rfl
  | fuel + 1, i, m => by
    have hnext : BitVec.ofNat 32 (4 * i) + 4 = BitVec.ofNat 32 (4 * (i + 1)) :=
      (ofNat_add ..).symm
    rw [memcpyAtomicWords, hnext, if_pos]
    · exact memcpyAtomicWords_none hsize fuel (i + 1) _
    · rw [le_def, toNat_ofNat]
      omega

/-- Each of the three leaves what the source held before in the destination, and nothing else
changes. -/
def MovesSnapshot (dst src size : BitVec 32) : Prop :=
  ∀ m : Mem,
    let copy := snapshot m dst.toNat src.toNat size.toNat
    (∃ fuel, memmoveAtomic dst src size fuel m = some copy)
      ∧ memmove dst.toNat src.toNat size.toNat m = copy
      ∧ libcMemmove dst.toNat src.toNat size.toNat m = copy

theorem not_movesSnapshot (hsize : 0xFFFFFFFC ≤ size.toNat) (h : dst < src ∨ src + size ≤ dst) :
    ¬ MovesSnapshot dst src size := by
  intro hmoves
  obtain ⟨⟨fuel, hf⟩, -⟩ := hmoves fun _ => 0
  rw [memmoveAtomic, if_pos h, memcpyAtomic,
    show (0 : BitVec 32) = BitVec.ofNat 32 (4 * 0) from rfl, memcpyAtomicWords_none hsize] at hf
  cases hf

/-- A range that does not wrap is moved right if no word ends above 4 GiB, or if the copy goes
down. -/
theorem moves_snapshot_iff (hsrc : src.toNat + size.toNat ≤ 2 ^ 32)
    (hdst : dst.toNat + size.toNat ≤ 2 ^ 32) :
    MovesSnapshot dst src size
      ↔ size.toNat < 0xFFFFFFFC ∨ ¬ (dst < src ∨ src + size ≤ dst) := by
  refine ⟨fun hm => ?_, fun h m => ⟨?_, memmove_eq .., libcMemmove_eq ..⟩⟩
  · by_contra hno
    push Not at hno
    exact not_movesSnapshot hno.1 hno.2 hm
  · by_cases hup : dst < src ∨ src + size ≤ dst
    · have hsize := h.resolve_right (not_not.2 hup)
      have hdir : dst.toNat ≤ src.toNat ∨ src.toNat + size.toNat ≤ dst.toNat := by
        rcases hup with hup | hup
        · exact .inl (Nat.le_of_lt hup)
        · rw [le_def, toNat_add] at hup
          omega
      exact ⟨_, by rw [memmoveAtomic, if_pos hup, memcpyAtomic_eq hdst hsrc hdir hsize]⟩
    · have hle : src ≤ dst := by
        rw [le_def]
        exact not_lt.1 fun hlt => hup (.inl hlt)
      refine ⟨0, ?_⟩
      rw [memmoveAtomic, if_neg hup, moveDown_eq hdst hsrc]
      simpa using congrArg some (copyDown_eq (m := m) (i := size.toNat) (j := 0) hle)

theorem moves_snapshot_four : MovesSnapshot 0 1 4
    ↔ (4 : BitVec 32).toNat < 0xFFFFFFFC ∨ ¬ ((0 : BitVec 32) < 1 ∨ (1 : BitVec 32) + 4 ≤ 0) :=
  moves_snapshot_iff (by decide) (by decide)

theorem not_moves_snapshot : (1 : BitVec 32).toNat + (0xFFFFFFFF : BitVec 32).toNat ≤ 2 ^ 32
    ∧ ¬ MovesSnapshot 0 1 0xFFFFFFFF :=
  ⟨by decide, not_movesSnapshot (by decide) (by decide)⟩

end Moves

section Memcmp

variable {m : Mem} {p1 p2 n o ecx width w : ℕ} {r : CmpRegs} {load : ℕ → BitVec w}

def InBuffers (p1 p2 n : ℕ) (reads : List ℕ) : Prop :=
  ∀ a ∈ reads, ∃ i < n, a = p1 + i ∨ a = p2 + i

/-- `eax` is zero for equal buffers, and otherwise the difference of the first bytes that differ. -/
def Compares (m : Mem) (p1 p2 n : ℕ) (eax : BitVec 32) : Prop :=
  (eax = 0 ↔ ∀ i < n, m (p1 + i) = m (p2 + i))
    ∧ ∀ i < n, (∀ j < i, m (p1 + j) = m (p2 + j)) → m (p1 + i) ≠ m (p2 + i) →
      eax.toInt = (m (p1 + i)).toNat - (m (p2 + i)).toNat

/-- The registers are `o` bytes into the buffers, which agree so far. -/
structure CmpRegs.At (m : Mem) (p1 p2 n o : ℕ) (r : CmpRegs) : Prop where
  edi : r.edi = p1 + o
  esi : r.esi = p2 + o
  agree : ∀ i < o, m (p1 + i) = m (p2 + i)
  reads : InBuffers p1 p2 n r.reads

theorem read32_eq_iff (m : Mem) (a b : ℕ) :
    read32 m a = read32 m b ↔ ∀ k < 4, m (a + k) = m (b + k) := by
  constructor
  · intro h k hk
    rw [← extractLsb_read32 m a hk, h, extractLsb_read32 m b hk]
  · intro h
    unfold read32
    rw [h 3 (by omega), h 2 (by omega), h 1 (by omega), show m a = m b from h 0 (by omega)]

/-- The instruction ends behind bytes that agree, or behind the first ones that do not. -/
theorem CmpRegs.At.repe
    (hload : ∀ a b, load a = load b ↔ ∀ k < width, m (a + k) = m (b + k)) :
    ∀ {ecx o : ℕ} {r : CmpRegs}, r.At m p1 p2 n o → (ecx = 0 → r.zf = true) →
      o + ecx * width ≤ n →
      ((r.repe load width ecx).zf = true
          ∧ (r.repe load width ecx).At m p1 p2 n (o + ecx * width))
        ∨ ∃ o', (r.repe load width ecx).zf = false ∧ o' + width ≤ o + ecx * width
          ∧ CmpRegs.At m p1 p2 n o' { r.repe load width ecx with
            edi := (r.repe load width ecx).edi - width
            esi := (r.repe load width ecx).esi - width }
          ∧ ∃ k < width, m (p1 + o' + k) ≠ m (p2 + o' + k)
  | 0, o, r, h, hz, _ => .inl ⟨hz rfl, by simpa [CmpRegs.repe] using h⟩
  | ecx + 1, o, r, h, _, hn => by
    rw [Nat.add_mul, Nat.one_mul] at hn ⊢
    have hreads : InBuffers p1 p2 n (r.cmps load width).reads := by
      intro a ha
      simp only [CmpRegs.cmps, List.mem_append, List.mem_map, List.mem_range, h.edi, h.esi] at ha
      rcases ha with (ha | ⟨k, hk, rfl⟩) | ⟨k, hk, rfl⟩
      · exact h.reads a ha
      · exact ⟨o + k, by omega, .inl (Nat.add_assoc ..)⟩
      · exact ⟨o + k, by omega, .inr (Nat.add_assoc ..)⟩
    have hzf : (r.cmps load width).zf = true ↔ ∀ k < width, m (p1 + o + k) = m (p2 + o + k) := by
      rw [← hload, ← h.edi, ← h.esi]
      exact beq_iff_eq
    unfold CmpRegs.repe
    split_ifs with hz
    · have hat : (r.cmps load width).At m p1 p2 n (o + width) := by
        refine ⟨by simp [CmpRegs.cmps, h.edi, Nat.add_assoc],
          by simp [CmpRegs.cmps, h.esi, Nat.add_assoc], fun i hi => ?_, hreads⟩
        by_cases hio : i < o
        · exact h.agree i hio
        · have := hzf.1 hz (i - o) (by omega)
          rwa [Nat.add_assoc, Nat.add_assoc, Nat.add_sub_cancel' (by omega)] at this
      rw [show o + (ecx * width + width) = o + width + ecx * width by omega] at hn ⊢
      exact hat.repe hload (fun _ => hz) hn
    · obtain ⟨k, hk, hne⟩ : ∃ k < width, m (p1 + o + k) ≠ m (p2 + o + k) := by
        by_contra hno
        push Not at hno
        exact hz (hzf.2 hno)
      refine .inr ⟨o, by simpa using hz, by omega, ⟨?_, ?_, h.agree, hreads⟩, k, hk, hne⟩
      · simp [CmpRegs.cmps, h.edi]
      · simp [CmpRegs.cmps, h.esi]

theorem compares_zero (h : ∀ i < n, m (p1 + i) = m (p2 + i)) : Compares m p1 p2 n 0 :=
  ⟨iff_of_true rfl h, fun i hi _ hne => absurd (h i hi) hne⟩

theorem toInt_sub_setWidth (x y : BitVec 8) :
    (x.setWidth 32 - y.setWidth 32).toInt = x.toNat - y.toNat := by
  have hx := x.isLt
  have hy := y.isLt
  rw [toInt_eq_toNat_cond, toNat_sub, toNat_setWidth, toNat_setWidth]
  split_ifs <;> omega

theorem compares_first (hn : o < n) (h : ∀ i < o, m (p1 + i) = m (p2 + i))
    (hne : m (p1 + o) ≠ m (p2 + o)) :
    Compares m p1 p2 n ((m (p1 + o)).setWidth 32 - (m (p2 + o)).setWidth 32) := by
  refine ⟨iff_of_false (fun h0 => ?_) fun hall => hne (hall o hn), fun i _ hi hdiff => ?_⟩
  · have hint := toInt_sub_setWidth (m (p1 + o)) (m (p2 + o))
    rw [h0, show (0 : BitVec 32).toInt = 0 from rfl] at hint
    exact hne (eq_of_toNat_eq (by omega))
  · obtain rfl : i = o := by
      rcases Nat.lt_trichotomy i o with hlt | heq | hlt
      · exact absurd (h i hlt) hdiff
      · exact heq
      · exact absurd (hi o hlt) hne
    exact toInt_sub_setWidth ..

theorem byteCheck_spec (h : r.At m p1 p2 n o) (hc : ecx ≠ 0) (hn : o + ecx ≤ n)
    (hd : o + ecx = n ∨ ∃ k < ecx, m (p1 + o + k) ≠ m (p2 + o + k)) :
    InBuffers p1 p2 n (byteCheck m ecx r).2 ∧ Compares m p1 p2 n (byteCheck m ecx r).1 := by
  have hload : ∀ a b, m a = m b ↔ ∀ k < 1, m (a + k) = m (b + k) := by simp
  unfold byteCheck
  rcases h.repe hload (fun h0 => absurd h0 hc) (by rwa [Nat.mul_one]) with
    ⟨hz, hat⟩ | ⟨o', hz, hlt, hat, k, hk, hne⟩
  · simp only [hz, if_true]
    rw [Nat.mul_one] at hat
    refine ⟨hat.reads, compares_zero ?_⟩
    rcases hd with rfl | ⟨k, hk, hne⟩
    · exact hat.agree
    · have := hat.agree (o + k) (by omega)
      rw [← Nat.add_assoc, ← Nat.add_assoc] at this
      exact absurd this hne
  · have hedi : (r.repe m 1 ecx).edi - 1 = p1 + o' := hat.edi
    have hesi : (r.repe m 1 ecx).esi - 1 = p2 + o' := hat.esi
    obtain rfl : k = 0 := by omega
    simp only [hz, Bool.false_eq_true, if_false, hedi, hesi]
    refine ⟨fun a ha => ?_, compares_first (by omega) hat.agree hne⟩
    rcases List.mem_append.1 ha with ha | ha
    · exact hat.reads a ha
    · refine ⟨o', by omega, ?_⟩
      simpa using ha

theorem hasResidualBytes_spec {edx : BitVec 32} (h : r.At m p1 p2 edx.toNat (edx.toNat / 4 * 4)) :
    InBuffers p1 p2 edx.toNat (hasResidualBytes m edx r).2
      ∧ Compares m p1 p2 edx.toNat (hasResidualBytes m edx r).1 := by
  have hand : (edx &&& 3).toNat = edx.toNat % 4 := by
    rw [toNat_and]
    exact Nat.and_two_pow_sub_one_eq_mod edx.toNat 2
  have hzero : edx &&& 3 = 0 ↔ edx.toNat % 4 = 0 := by
    rw [← toNat_inj, hand]
    rfl
  unfold hasResidualBytes
  split_ifs with h0
  · have h0 := hzero.1 h0
    refine ⟨h.reads, compares_zero fun i hi => h.agree i (by omega)⟩
  · have h0 := mt hzero.2 h0
    rw [hand]
    exact byteCheck_spec h h0 (by omega) (.inl (by omega))

/-- `memcmp` reads only the two buffers and compares them byte by byte. -/
theorem memcmp_bytewise (m : Mem) (p1 p2 : ℕ) (n : BitVec 32) :
    InBuffers p1 p2 n.toNat (memcmp m p1 p2 n).2
      ∧ Compares m p1 p2 n.toNat (memcmp m p1 p2 n).1 := by
  have hshift : (n >>> 2).toNat = n.toNat / 4 := by
    rw [toNat_ushiftRight, Nat.shiftRight_eq_div_pow]
  have hstart : CmpRegs.At m p1 p2 n.toNat 0 ⟨p1, p2, false, []⟩ :=
    ⟨rfl, rfl, by simp, by simp [InBuffers]⟩
  unfold memcmp
  simp only []
  split_ifs with h0 hw hz
  · subst h0
    exact ⟨by simp [InBuffers], compares_zero (by simp)⟩
  · have hw : n.toNat / 4 = 0 := by rw [← hshift, hw]; rfl
    refine hasResidualBytes_spec ?_
    rwa [hw]
  all_goals
    have hword : (n >>> 2).toNat ≠ 0 := fun h => hw (eq_of_toNat_eq h)
    rcases hstart.repe (read32_eq_iff m) (fun h => absurd h hword) (by omega) with
      ⟨hz', hat⟩ | ⟨o, hz', hlt, hat, hne⟩
  · rw [Nat.zero_add, hshift] at hat
    exact hasResidualBytes_spec (hshift ▸ hat)
  · rw [hz] at hz'
    cases hz'
  · exact absurd hz' hz
  · exact byteCheck_spec hat (by decide) (by omega) (.inr hne)

end Memcmp

end DragonWare
