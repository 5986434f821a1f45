import DragonWare.BootInfo
import DragonWare.Lib.Tokens
import DragonWare.Proofs.Carving
import DragonWare.Proofs.Strings

/-!
# Modules and options

`RegisterBootModules` does not look at the size of its table, nor at the flag that says whether
there are modules. `BootOptionProvided` compares an option with the whole rest of the line, so it
finds it only if the line ends there.
-/

namespace DragonWare

open List Option Tokens

section Modules

variable {mods : List MultibootModule}

theorem registerFrom_eq : ∀ (mods : List MultibootModule) (i : ℕ) (table : List MultibootModule),
    i + mods.length ≤ table.length →
    ∃ t, registerFrom mods i table = some t ∧ t.length = table.length
      ∧ (∀ j < i, t[j]? = table[j]?) ∧ ∀ j < mods.length, t[i + j]? = mods[j]?
  | [], i, table, _ => ⟨table, rfl, rfl, fun _ _ => rfl, fun j hj => absurd hj (by simp)⟩
  | m :: mods, i, table, h => by
    rw [length_cons] at h
    obtain ⟨t, ht, hlen, hlow, hmods⟩ :=
      registerFrom_eq mods (i + 1) (table.set i m) (by simp; omega)
    have hi : i < table.length := by omega
    refine ⟨t, by simp [registerFrom, hi, ht], by simpa using hlen, fun j hj => ?_, fun j hj => ?_⟩
    · rw [hlow j (by omega), getElem?_set_ne (by omega)]
    · cases j with
      | zero =>
        rw [Nat.add_zero, hlow i (by omega)]
        simp [hi]
      | succ j =>
        rw [show i + (j + 1) = i + 1 + j by omega, hmods j (by simpa using hj)]
        rfl

theorem registerFrom_none : ∀ {mods : List MultibootModule} {i : ℕ} {table : List MultibootModule},
    i ≤ table.length → table.length < i + mods.length → registerFrom mods i table = none
  | [], i, table, hi, h => by
    rw [length_nil] at h
    omega
  | m :: mods, i, table, _, h => by
    unfold registerFrom
    split_ifs with hi
    · rw [length_cons] at h
      exact registerFrom_none (by simpa using hi) (by simp; omega)
    · rfl

def MultibootModule.HasFrame (m : MultibootModule) (j : ℕ) : Prop :=
  ∃ i, m.start.toNat ≤ i ∧ i < m.stop.toNat ∧ i / frameSize = j / frameSize

/-- The modules are registered inside the table, those reported are the boot loader's, and no region
has an address in one of their frames. -/
def ModulesSafe (k : KernelImage) (bi : BootInfo) : Prop :=
  ∃ b, registerBootModules bi = some b ∧ ∀ i < b.count,
    ∃ m, bi.mods[i]? = some m ∧ getBootModuleAt b i = .ok m
      ∧ ∀ regions, addMemoryRegions k bi = some regions → ∀ r ∈ regions, ∀ j,
        r.start.toNat ≤ j → j < r.stop.toNat → ¬ m.HasFrame j

theorem registerBootModules_eq (bi : BootInfo) (h : bi.mods.length ≤ maxBootModules) :
    ∃ b, registerBootModules bi = some b ∧ b.count = bi.mods.length
      ∧ ∀ i m, bi.mods[i]? = some m → getBootModuleAt b i = .ok m := by
  obtain ⟨t, ht, -, -, hmods⟩ := registerFrom_eq bi.mods 0
    (replicate maxBootModules ⟨0#32, 0#32⟩) (by simpa using h)
  refine ⟨⟨t, bi.mods.length⟩, by simp [registerBootModules, ht], rfl, fun i m hm => ?_⟩
  obtain ⟨hi, -⟩ := List.getElem?_eq_some_iff.1 hm
  have hget := hmods i hi
  rw [Nat.zero_add, hm] at hget
  unfold getBootModuleAt
  rw [if_neg (not_le.2 hi), getD_eq_getElem?_getD, hget]
  rfl

theorem carve_apart {type : MemoryRegionType} {regionEnd curr : BitVec 32}
    (table : List MemoryRegion) : ∀ {chunks : List ReservedRegion},
    (∀ c ∈ chunks, c.stop ≤ curr ∨ regionEnd ≤ c.start) →
    carve type regionEnd chunks curr table = (curr, table)
  | [], _ => rfl
  | c :: cs, h => by
    unfold carve
    by_cases hc : c.stop ≤ curr
    · rw [if_pos hc]
      exact carve_apart table fun d hd => h d (mem_cons_of_mem c hd)
    · rw [if_neg hc, if_pos ((h c mem_cons_self).resolve_left hc)]

def frameEntry (f : BitVec 32) : MultibootMMapEntry := ⟨f.setWidth 64, 0x1000#64, 1#32⟩

theorem addMemoryRegions_frame {k : KernelImage} {flags f : BitVec 32}
    (hf : f.toNat % frameSize = 0) (h : ∀ c ∈ reservedChunks k ⟨flags, mods, some [frameEntry f]⟩,
      c.stop.toNat ≤ f.toNat ∨ f.toNat + 0xFFF ≤ c.start.toNat) :
    ∃ regions, addMemoryRegions k ⟨flags, mods, some [frameEntry f]⟩ = some regions
      ∧ ∃ r ∈ regions, r.start.toNat ≤ f.toNat ∧ f.toNat < r.stop.toNat := by
  have hlt := f.isLt
  simp only [frameSize] at hf
  have haddr : (frameEntry f).addr.toNat = f.toNat := by
    show (f.setWidth 64).toNat = _
    rw [BitVec.toNat_setWidth]
    omega
  have hlast : ((frameEntry f).lastByte.setWidth 32).toNat = min (f.toNat + 0xFFF) 0xFFFFFFFE := by
    have hlen : (frameEntry f).len.toNat = 0x1000 := rfl
    rw [lastByte_toNat (by omega) (by omega), haddr, hlen, if_pos (by omega)]
    omega
  have hstart : (frameEntry f).addr.setWidth 32 = f := by
    refine BitVec.eq_of_toNat_eq ?_
    rw [BitVec.toNat_setWidth, haddr]
    omega
  have hsome : ¬ 0xFFFFFFFF#64 ≤ (frameEntry f).addr := by
    show ¬ 0xFFFFFFFF ≤ (frameEntry f).addr.toNat
    omega
  refine ⟨_, rfl, ?_⟩
  set chunks := reservedChunks k ⟨flags, mods, some [frameEntry f]⟩
  have hperm : (sortReservedChunks chunks).Perm chunks := BubbleSort.bubbleSort_perm _ _ _
  have hcarve : carve (.ofCode (frameEntry f).type) ((frameEntry f).lastByte.setWidth 32)
      (sortReservedChunks chunks) f [] = (f, []) := by
    refine carve_apart [] fun c hc => (h c (hperm.subset hc)).imp_right fun hle => ?_
    show ((frameEntry f).lastByte.setWidth 32).toNat ≤ c.start.toNat
    omega
  have hroom : f < (frameEntry f).lastByte.setWidth 32 := by
    show f.toNat < ((frameEntry f).lastByte.setWidth 32).toNat
    omega
  have hregion : (addEntry (sortReservedChunks chunks) [] (frameEntry f))
      = [⟨true, f, (frameEntry f).lastByte.setWidth 32 - f, .ofCode (frameEntry f).type⟩] := by
    unfold addEntry
    rw [if_pos (show (frameEntry f).usable = true from rfl)]
    simp only [hstart, hcarve, if_pos hroom]
    rfl
  refine ⟨⟨true, f, (frameEntry f).lastByte.setWidth 32 - f, .ofCode (frameEntry f).type⟩, ?_,
    le_rfl, ?_⟩
  · show _ ∈ addEntries (sortReservedChunks chunks) [frameEntry f] []
    unfold addEntries
    simp only [if_neg hsome, hregion]
    exact mem_singleton.2 rfl
  · rw [stop_of_sub]
    exact hroom

theorem pageAlign_le (x : BitVec 32) : (pageAlign x).toNat ≤ 0xFFFFF000 := by
  have := pageAlign_aligned x
  have := (pageAlign x).isLt
  simp only [frameSize] at *
  omega

def emptyKernel : KernelImage := ⟨0#32, by decide⟩

/-- The modules are safe if and only if they fit the table and each that has a byte comes with the
flag for modules and does not reach into the last frame of the address space. -/
theorem boot_modules_safe_iff (flags : BitVec 32) (mods : List MultibootModule) :
    (∀ k mmap, ModulesSafe k ⟨flags, mods, mmap⟩) ↔ mods.length ≤ maxBootModules
      ∧ ∀ m ∈ mods, m.start < m.stop → flags &&& 0x8#32 ≠ 0#32 ∧ m.stop.toNat ≤ 0xFFFFF000 := by
  constructor
  · intro h
    have hlen : mods.length ≤ maxBootModules := by
      by_contra hlen
      obtain ⟨b, hb, -⟩ := h emptyKernel none
      rw [registerBootModules, registerFrom_none (by simp) (by simpa using hlen)] at hb
      cases hb
    refine ⟨hlen, fun m hm hne => ?_⟩
    replace hne : m.start.toNat < m.stop.toNat := hne
    -- a frame of the module that no chunk is near is made available
    have hfail {f : BitVec 32} (hf : f.toNat % frameSize = 0)
        (hchunks : ∀ c ∈ reservedChunks emptyKernel ⟨flags, mods, some [frameEntry f]⟩,
          c.stop.toNat ≤ f.toNat ∨ f.toNat + 0xFFF ≤ c.start.toNat) : ¬ m.HasFrame f.toNat := by
      obtain ⟨regions, hadd, r, hr, hlo, hhi⟩ := addMemoryRegions_frame hf hchunks
      obtain ⟨i, hi, hget⟩ := getElem_of_mem hm
      obtain ⟨b, hb, hsafe⟩ := h emptyKernel (some [frameEntry f])
      obtain ⟨b', hb', hcount, -⟩ := registerBootModules_eq ⟨flags, mods, _⟩ hlen
      obtain rfl := some.inj (hb.symm.trans hb')
      obtain ⟨m', hm', -, hno⟩ := hsafe i (hcount ▸ hi)
      obtain rfl : m' = m := by
        rw [getElem?_eq_getElem hi, some.injEq] at hm'
        exact hm'.symm.trans hget
      exact hno regions hadd r hr _ hlo hhi
    constructor
    · intro hflag
      refine hfail (f := alignDown m.start) ?_ (fun c hc => ?_) ⟨m.start.toNat, le_rfl, hne, ?_⟩
      · rw [alignDown_toNat]
        exact Nat.mul_mod_left ..
      · have hkernel : (⟨alignDown emptyKernel.physStart, pageAlign emptyKernel.physEnd⟩ :
            ReservedRegion) = ⟨0x100000#32, 0x100000#32⟩ := by decide
        obtain rfl : c = ⟨0x100000#32, 0x100000#32⟩ := by
          simpa [reservedChunks, BootInfo.modules, hflag, hkernel] using hc
        rw [alignDown_toNat]
        show 0x100000 ≤ _ ∨ _ ≤ 0x100000
        simp only [frameSize]
        omega
      · rw [alignDown_toNat]
        simp only [frameSize]
        omega
    · by_contra hstop
      refine hfail (f := 0xFFFFF000#32) (by decide) (fun c hc => .inl ?_)
        ⟨m.stop.toNat - 1, by omega, by omega, ?_⟩
      · rcases mem_cons.1 hc with rfl | hc
        · exact pageAlign_le _
        · obtain ⟨m, -, rfl⟩ := List.mem_map.1 hc
          exact pageAlign_le _
      · have := m.stop.isLt
        simp only [frameSize, BitVec.toNat_ofNat]
        omega
  · rintro ⟨hlen, hmods⟩ k mmap
    obtain ⟨b, hb, hcount, hget⟩ := registerBootModules_eq ⟨flags, mods, mmap⟩ hlen
    refine ⟨b, hb, fun i hi => ?_⟩
    replace hi : i < mods.length := hcount ▸ hi
    obtain ⟨m, hm⟩ : ∃ m, mods[i]? = some m := ⟨_, getElem?_eq_getElem hi⟩
    refine ⟨m, hm, hget i m hm, ?_⟩
    rintro regions hadd r hr j hlo hhi ⟨a, ha, ha', hframe⟩
    have hmem := mem_of_getElem? hm
    obtain ⟨hflag, hstop⟩ := hmods m hmem (show m.start.toNat < m.stop.toNat by omega)
    have hchunk : (⟨alignDown m.start, pageAlign m.stop⟩ : ReservedRegion)
        ∈ reservedChunks k ⟨flags, mods, mmap⟩ := by
      refine mem_cons_of_mem _ (List.mem_map.2 ⟨m, ?_, rfl⟩)
      rw [BootInfo.modules, if_neg hflag, take_of_length_le (hlen.trans (by decide))]
      exact hmem
    have hclear := addMemoryRegions_clear hadd r hr j hlo hhi _ hchunk
    have := frameAvoids_of_clear hstop hclear a (by rw [← hframe]; exact Nat.div_mul_le_self ..) (by
      rw [← hframe]
      simp only [frameSize]
      omega)
    omega

theorem registerBootModules_outside : ∃ bi : BootInfo, ∀ k, ¬ ModulesSafe k bi := by
  refine ⟨⟨0x8#32, replicate 33 ⟨0x400000#32, 0x401000#32⟩, some []⟩, fun k => ?_⟩
  rintro ⟨b, hb, -⟩
  have hnone : registerBootModules ⟨0x8#32, replicate 33 ⟨0x400000#32, 0x401000#32⟩, some []⟩
      = none := by decide
  rw [hnone] at hb
  cases hb

end Modules

section Options

variable {opt : CString} {p : List (BitVec 8)}

theorem skipSpaces_eq (k : ℕ) : ∀ p : List (BitVec 8),
    skipSpaces (p ++ replicate (k + 1) 0)
      = some (p.dropWhile (· = space) ++ replicate (k + 1) 0)
  | [] => by
    rw [nil_append, replicate_succ, skipSpaces, if_neg (by decide)]
    rfl
  | c :: p => by
    rw [cons_append, skipSpaces]
    split_ifs with hc
    · rw [dropWhile_cons_of_pos (by simpa using hc)]
      exact skipSpaces_eq k p
    · rw [dropWhile_cons_of_neg (by simpa using hc)]
      rfl

theorem skipWord_eq (k : ℕ) : ∀ {p : List (BitVec 8)}, 0 ∉ p →
    skipWord (p ++ replicate (k + 1) 0)
      = some (p.dropWhile (· ≠ space) ++ replicate (k + 1) 0)
  | [], _ => by
    rw [nil_append, replicate_succ, skipWord, if_neg (by decide)]
    rfl
  | c :: p, h => by
    obtain ⟨hc0, hp⟩ := not_or.1 (mt mem_cons.2 h)
    rw [cons_append, skipWord]
    by_cases hc : c = space
    · rw [if_neg fun h => h.1 hc, dropWhile_cons_of_neg (by simpa using hc)]
      rfl
    · rw [if_pos ⟨hc, Ne.symm hc0⟩, dropWhile_cons_of_pos (by simpa using hc)]
      exact skipWord_eq k hp

theorem takeWhile_zeros (h : 0 ∉ p) (k : ℕ) : (p ++ replicate (k + 1) 0).takeWhile (· ≠ 0) = p := by
  have hall : ∀ c ∈ p, decide (c ≠ 0) = true := fun c hc => by
    have hne : c ≠ 0 := fun heq => h (heq ▸ hc)
    simpa using hne
  rw [takeWhile_append_of_pos hall, replicate_succ, takeWhile_cons_of_neg (by simp),
    append_nil]

theorem bootOptionFrom_eq (hopt : space ∉ opt.chars) (hne : opt.chars ≠ []) (k : ℕ) :
    ∀ {fuel : ℕ} {p : List (BitVec 8)}, p.length < fuel → 0 ∉ p →
    ∃ b, bootOptionFrom opt fuel (p ++ replicate (k + 1) 0) = some b
      ∧ (b = true ↔ EndsIn space opt.chars p) ∧ (b = true → opt.chars ∈ tokens space p)
  | 0, p, h, _ => absurd h (Nat.not_lt_zero _)
  | fuel + 1, [], _, _ => by
    refine ⟨false, ?_, iff_of_false (by decide) (not_endsIn_nil hne), fun h => by cases h⟩
    rw [nil_append, replicate_succ, bootOptionFrom, if_pos rfl]
  | fuel + 1, c :: p, hfuel, hp => by
    have hc : c ≠ 0 := fun h => hp (h ▸ mem_cons_self)
    rw [cons_append, bootOptionFrom, if_neg hc, ← cons_append, skipSpaces_eq]
    rw [← endsIn_dropWhile hopt, ← tokens_dropWhile (c := space)]
    have hlen : ((c :: p).dropWhile (· = space)).length ≤ fuel :=
      (length_dropWhile_le _ _).trans (Nat.le_of_lt_succ hfuel)
    have hq0 : 0 ∉ (c :: p).dropWhile (· = space) := fun h =>
      hp ((dropWhile_sublist _).subset h)
    have hhead := head?_dropWhile_not (fun x => decide (x = space)) (c :: p)
    generalize (c :: p).dropWhile (· = space) = q at hlen hq0 hhead ⊢
    simp only [bind_eq_bind, bind_some]
    cases q with
    | nil =>
      exact ⟨false, if_pos rfl, iff_of_false (by decide) (not_endsIn_nil hne), fun h => by cases h⟩
    | cons d q =>
      have hd : d ≠ space := by simpa using hhead
      have hd0 : d ≠ 0 := fun h => hq0 (h ▸ mem_cons_self)
      have hcmp : strcmp opt.at (d :: q) = 0 ↔ opt.chars = d :: q := strcmp_eq_zero opt.noNul hq0
      have hhd : ¬ ((d :: q) ++ replicate (k + 1) 0).headD (0 : BitVec 8) = 0 := hd0
      rw [if_neg hhd, skipWord_eq k hq0, takeWhile_zeros hq0]
      simp only [bind_some]
      by_cases hq : opt.chars = d :: q
      · have hrest : (d :: q).dropWhile (· ≠ space) = [] := by
          rcases dropWhile_ne (c := space) (d :: q) with h | ⟨rest, h⟩
          · exact h
          · exact absurd (hq ▸ (dropWhile_sublist _).subset (h ▸ mem_cons_self)) hopt
        rw [if_pos ⟨by rw [hrest, hq]; simp; omega, hcmp.2 hq⟩]
        refine ⟨true, rfl, iff_of_true rfl (.inl hq.symm), fun _ => ?_⟩
        rw [← hq, tokens_token hopt hne]
        exact mem_singleton.2 rfl
      · rw [if_neg fun h => hq (hcmp.1 h.2), endsIn_rest hopt hne (Ne.symm hq), tokens_cons hd]
        have hless : ((d :: q).dropWhile (· ≠ space)).length < fuel := by
          rw [dropWhile_cons_of_pos (by simpa using hd)]
          exact (length_dropWhile_le _ _).trans_lt hlen
        obtain ⟨b, hb, hiff, hmem⟩ := bootOptionFrom_eq hopt hne k hless fun h =>
          hq0 ((dropWhile_sublist _).subset h)
        exact ⟨b, hb, hiff, fun h => mem_cons_of_mem _ (hmem h)⟩

theorem skipSpaces_some : ∀ {p q : List (BitVec 8)}, skipSpaces p = some q → q ≠ [] ∧ q ⊆ p
  | [], q, h => by cases h
  | c :: p, q, h => by
    unfold skipSpaces at h
    split_ifs at h
    · obtain ⟨hne, hsub⟩ := skipSpaces_some h
      exact ⟨hne, subset_cons_of_subset c hsub⟩
    · cases h
      exact ⟨by simp, Subset.refl _⟩

theorem skipWord_some : ∀ {p q : List (BitVec 8)}, 0 ∉ p → skipWord p = some q →
    space ∈ p ∧ q ⊆ p
  | [], q, _, h => by cases h
  | c :: p, q, hp, h => by
    obtain ⟨hc0, hp⟩ := not_or.1 (mt mem_cons.2 hp)
    unfold skipWord at h
    split_ifs at h with hc
    · obtain ⟨hmem, hsub⟩ := skipWord_some hp h
      exact ⟨mem_cons_of_mem c hmem, subset_cons_of_subset c hsub⟩
    cases h
    have hspace : c = space := by
      by_contra hne
      exact hc ⟨hne, Ne.symm hc0⟩
    exact ⟨hspace ▸ mem_cons_self, Subset.refl _⟩

theorem bootOptionFrom_outside (hopt : space ∉ opt.chars) : ∀ (fuel : ℕ) {p : List (BitVec 8)},
    0 ∉ p → bootOptionFrom opt fuel p = none
  | 0, _, _ => by
    unfold bootOptionFrom
    rfl
  | fuel + 1, [], _ => rfl
  | fuel + 1, c :: p, hp => by
    have hc : c ≠ 0 := fun h => hp (h ▸ mem_cons_self)
    rw [bootOptionFrom, if_neg hc]
    simp only [bind_eq_bind]
    rcases hs : skipSpaces (c :: p) with _ | start
    · rfl
    obtain ⟨hne, hsub⟩ := skipSpaces_some hs
    have h0 : 0 ∉ start := fun h => hp (hsub h)
    obtain ⟨d, q, rfl⟩ := exists_cons_of_ne_nil hne
    have hd : ¬ (d :: q).headD (0 : BitVec 8) = 0 := fun h => h0 (h ▸ mem_cons_self)
    rw [bind_some, if_neg hd]
    rcases hw : skipWord (d :: q) with _ | iter
    · rfl
    obtain ⟨hspace, hsub'⟩ := skipWord_some h0 hw
    have hall : ∀ x ∈ d :: q, decide (x ≠ 0) = true := fun x hx => by
      have hx0 : x ≠ 0 := fun heq => h0 (heq ▸ hx)
      simpa using hx0
    have hcmp : strcmp opt.at ((d :: q).takeWhile (· ≠ 0)) ≠ 0 := by
      rw [takeWhile_eq_self_iff.2 hall]
      exact fun h => hopt ((strcmp_eq_zero opt.noNul h0).1 h ▸ hspace)
    rw [bind_some, if_neg fun h => hcmp h.2]
    exact bootOptionFrom_outside hopt fuel fun h => h0 (hsub' h)

def cmdlineTokens : Option CString → List (List (BitVec 8))
  | none => []
  | some line => tokens space line.chars

/-- An option is found if and only if it is a word of the command line, exactly if the line fits the
array and ends in the option or does not have it. -/
theorem boot_option_iff (cmdline : Option CString) (opt : CString) (hne : opt.chars ≠ [])
    (hopt : space ∉ opt.chars) :
    bootOptionProvided cmdline opt = some (decide (opt.chars ∈ cmdlineTokens cmdline))
      ↔ ∀ line, cmdline = some line → line.chars.length < maxCmdline
        ∧ (opt.chars ∈ tokens space line.chars → EndsIn space opt.chars line.chars) := by
  rcases cmdline with _ | line
  · exact iff_of_true rfl fun _ h => by cases h
  have hcopy : strncpy line.at maxCmdline = line.chars.take maxCmdline
      ++ replicate (maxCmdline - line.chars.length) 0 := strncpyFrom_eq line.noNul maxCmdline 0
  simp only [some.injEq, forall_eq', bootOptionProvided, cmdlineTokens, hcopy]
  by_cases hlen : line.chars.length < maxCmdline
  · rw [take_of_length_le hlen.le,
      show maxCmdline - line.chars.length = maxCmdline - line.chars.length - 1 + 1 by omega]
    obtain ⟨b, hb, hiff, hmem⟩ := bootOptionFrom_eq hopt hne (maxCmdline - line.chars.length - 1)
      (hlen.trans (Nat.lt_succ_self _)) line.noNul
    rw [hb, some.injEq, ← hiff, and_iff_right hlen]
    by_cases ht : opt.chars ∈ tokens space line.chars
    · simp [ht]
    · have hb' : b = false := by simpa using mt hmem ht
      simp [ht, hb']
  · rw [Nat.sub_eq_zero_of_le (not_lt.1 hlen), replicate_zero, append_nil,
      bootOptionFrom_outside hopt _ fun h => line.noNul (mem_of_mem_take h)]
    exact iff_of_false (by simp) fun h => hlen h.1

theorem boot_option_iff_debug :
    bootOptionProvided (some ⟨literal "debug", by decide⟩) ⟨literal "debug", by decide⟩
      = some true := by
  have h := (boot_option_iff (some ⟨literal "debug", by decide⟩) ⟨literal "debug", by decide⟩
    (by decide) (by decide)).2 fun line hline => by
      cases hline
      exact ⟨by decide, fun _ => .inl rfl⟩
  rw [h]
  decide

/-- An option that another one follows is not found. -/
theorem boot_option_missed :
    literal "debug" ∈ cmdlineTokens (some ⟨literal "debug quiet", by decide⟩)
      ∧ bootOptionProvided (some ⟨literal "debug quiet", by decide⟩) ⟨literal "debug", by decide⟩
        = some false := by
  decide +kernel

end Options

end DragonWare
