import DragonWare.Kmalloc
import DragonWare.Lib.Run

/-!
# Slabs hand out disjoint objects

An object belongs to one slab (`IsSlab.page_unique`), so a store into a live object misses every
free one, and the free lists threaded through these stay whole (`SlabInv`).
-/

namespace DragonWare

open Memory Nat Option
open Function (update update_of_ne update_self)

def Slab.objects (h : Slab) : List ℕ := blocks h.objsize h.nObjects h.objstart

/-- `h` is what `CreateSlab` leaves at the start of page `p` for objects of `z` bytes, whatever
has been taken from the free list since. -/
structure IsSlab (h : Slab) (p z : ℕ) : Prop where
  page : p ≠ 0 ∧ p % frameSize = 0 ∧ p + frameSize < 2 ^ 32
  objstart : h.objstart = p + 32
  objsize : h.objsize = z
  nObjects : h.nObjects = 4064 / z

theorem slabSizes_getD {i : ℕ} (hi : i < slabTypesMax) :
    slabSizes.getD i 0 ∈ slabSizes ∧ 8 ≤ slabSizes.getD i 0 ∧ slabSizes.getD i 0 ≤ 1024 := by
  revert i
  decide

theorem slabSizes_align :
    ∀ z ∈ slabSizes, z % min 16 z = 0 ∧ 32 % min 16 z = 0 ∧ 4096 % min 16 z = 0 := by
  decide

section Slab

variable {h : Slab} {p z : ℕ}
variable {a : ℕ}

theorem IsSlab.object_bounds (hs : IsSlab h p z) (ha : a ∈ h.objects) :
    p + 32 ≤ a ∧ a + z ≤ p + frameSize := by
  obtain ⟨k, hk, rfl⟩ := mem_blocks.1 ha
  rw [hs.nObjects] at hk
  rw [hs.objstart, hs.objsize]
  have h1 := Nat.mul_le_mul_right z (succ_le_of_lt hk)
  have h2 := div_mul_le_self 4064 z
  rw [succ_mul] at h1
  simp only [frameSize]
  omega

theorem IsSlab.contains_bounds (hs : IsSlab h p z) (ha : h.contains a = true) :
    p ≤ a ∧ a < p + frameSize := by
  simp only [Slab.contains, Bool.and_eq_true, decide_eq_true_eq, hs.objstart, hs.nObjects,
    hs.objsize] at ha
  have := div_mul_le_self 4064 z
  simp only [frameSize]
  omega

theorem page_unique {q b : ℕ} (hp : p % frameSize = 0) (hq : q % frameSize = 0)
    (ha : p ≤ a ∧ a < p + frameSize) (hb : q ≤ b ∧ b < q + frameSize) (hab : a = b) : p = q := by
  simp only [frameSize] at *
  omega

theorem IsSlab.contains_object (hs : IsSlab h p z) (hz : 0 < z) (ha : a ∈ h.objects) :
    h.contains a = true ∧ (a - h.objstart) % h.objsize = 0 := by
  obtain ⟨k, hk, rfl⟩ := mem_blocks.1 ha
  have : k * h.objsize < h.nObjects * h.objsize :=
    Nat.mul_lt_mul_of_pos_right hk (by rwa [hs.objsize])
  simp [Slab.contains, this]

theorem IsSlab.object_aligned (hs : IsSlab h p z) (hz : z ∈ slabSizes) (ha : a ∈ h.objects) :
    a % min 16 z = 0 := by
  obtain ⟨k, -, rfl⟩ := mem_blocks.1 ha
  obtain ⟨h1, h2, h3⟩ := slabSizes_align z hz
  have hp : min 16 z ∣ p :=
    (dvd_of_mod_eq_zero h3).trans (dvd_of_mod_eq_zero hs.page.2.1)
  rw [hs.objstart, hs.objsize]
  exact mod_eq_zero_of_dvd (((Nat.dvd_add hp (dvd_of_mod_eq_zero h2))).add
    ((dvd_of_mod_eq_zero h1).mul_left k))

end Slab

section SetFreeList

variable (hdr : ℕ → Slab) (p x q : ℕ)

def setFreeList : ℕ → Slab := Function.update hdr p { hdr p with freeList := x }

theorem setFreeList_freeList :
    (setFreeList hdr p x q).freeList = if q = p then x else (hdr q).freeList := by
  by_cases hq : q = p
  · subst hq
    simp [setFreeList]
  · simp [setFreeList, hq]

theorem setFreeList_objsize : (setFreeList hdr p x q).objsize = (hdr q).objsize := by
  by_cases hq : q = p
  · subst hq
    simp [setFreeList]
  · simp [setFreeList, hq]

theorem setFreeList_objects : (setFreeList hdr p x q).objects = (hdr q).objects := by
  by_cases hq : q = p
  · subst hq
    simp [setFreeList, Slab.objects]
  · simp [setFreeList, hq]

variable {hdr q}

theorem IsSlab.setFreeList {z : ℕ} (hs : IsSlab (hdr q) q z) :
    IsSlab (DragonWare.setFreeList hdr p x q) q z := by
  by_cases hq : q = p
  · subst hq
    simpa [DragonWare.setFreeList] using ⟨hs.page, hs.objstart, hs.objsize, hs.nObjects⟩
  · simpa [DragonWare.setFreeList, hq] using hs

end SetFreeList

def SlabCaches.ready (c : SlabCaches) : SlabCaches :=
  if c.initialized then c else c.initSlabCaches

theorem mem_allSlabs {c : SlabCaches} {p : ℕ} :
    p ∈ c.allSlabs ↔ ∃ i < slabTypesMax, p ∈ c.slabs i := by
  simp [SlabCaches.allSlabs]

theorem mem_allSlabs_cons {c : SlabCaches} {i : ℕ} (hi : i < slabTypesMax) (page q : ℕ) :
    q ∈ SlabCaches.allSlabs { c with slabs := update c.slabs i (page :: c.slabs i) } ↔
      q = page ∨ q ∈ c.allSlabs := by
  rw [mem_allSlabs, mem_allSlabs]
  constructor
  · rintro ⟨j, hj, hq⟩
    by_cases hji : j = i
    · subst hji
      simp only [update_self, List.mem_cons] at hq
      exact hq.imp_right fun h => ⟨j, hj, h⟩
    · simp only [update_of_ne hji] at hq
      exact .inr ⟨j, hj, hq⟩
  · rintro (rfl | ⟨j, hj, hq⟩)
    · exact ⟨i, hi, by simp⟩
    · refine ⟨j, hj, ?_⟩
      by_cases hji : j = i
      · subst hji
        simp [hq]
      · simpa [hji] using hq

/-- The caches against the blocks handed out, each with the size it was asked for. -/
structure SlabInv (c : SlabCaches) (live : List (ℕ × ℕ)) : Prop where
  uninit : c.initialized = false → ∀ i < slabTypesMax, c.slabs i = []
  sizes : c.initialized = true → ∀ i < slabTypesMax, c.objsize i = slabSizes.getD i 0
  slab : ∀ i < slabTypesMax, ∀ p ∈ c.slabs i, IsSlab (c.header p) p (slabSizes.getD i 0)
  free : ∀ p ∈ c.allSlabs, ∃ l, Linked c.mem (c.header p).freeList l ∧ l.Nodup
    ∧ ∀ a, a ∈ l ↔ a ∈ (c.header p).objects ∧ a ∉ live.map Prod.fst
  owned : ∀ b ∈ live, 0 < b.2 ∧ ∃ p ∈ c.allSlabs, b.1 ∈ (c.header p).objects
    ∧ b.2 ≤ (c.header p).objsize
  nodup : (live.map Prod.fst).Nodup

namespace SlabInv

variable {c : SlabCaches} {live : List (ℕ × ℕ)} {a p q b page : ℕ}

theorem blank (mem : Mem) : SlabInv (.blank mem) [] where
  uninit _ _ _ := rfl
  sizes h := by simp [SlabCaches.blank] at h
  slab _ _ p hp := by simp [SlabCaches.blank] at hp
  free p hp := by simp [SlabCaches.blank, SlabCaches.allSlabs] at hp
  owned b hb := by simp at hb
  nodup := List.nodup_nil

section

variable (hI : SlabInv c live)

include hI

section

variable (hp : p ∈ c.allSlabs)

include hp

theorem isSlab : ∃ z ∈ slabSizes, 8 ≤ z ∧ z ≤ 1024 ∧ IsSlab (c.header p) p z := by
  obtain ⟨i, hi, hpi⟩ := mem_allSlabs.1 hp
  obtain ⟨hz, h1, h2⟩ := slabSizes_getD hi
  exact ⟨_, hz, h1, h2, hI.slab i hi p hpi⟩

theorem slab_unique (hq : q ∈ c.allSlabs) (ha : a ∈ (c.header p).objects)
    (hb : (c.header q).contains b = true) (hab : a = b) : p = q := by
  obtain ⟨z, -, hz, -, hsp⟩ := hI.isSlab hp
  obtain ⟨z', -, -, -, hsq⟩ := hI.isSlab hq
  have h1 := hsp.object_bounds ha
  exact page_unique hsp.page.2.1 hsq.page.2.1 (by omega) (hsq.contains_bounds hb) hab

theorem object_unique (hq : q ∈ c.allSlabs) (ha : a ∈ (c.header p).objects)
    (hb : a ∈ (c.header q).objects) : p = q := by
  obtain ⟨z, -, hz, -, hsq⟩ := hI.isSlab hq
  exact hI.slab_unique hp hq ha (hsq.contains_object (by omega) hb).1 rfl

theorem object_disjoint (hq : q ∈ c.allSlabs) (ha : a ∈ (c.header p).objects)
    (hb : b ∈ (c.header q).objects) (hne : a ≠ b) :
    a + (c.header p).objsize ≤ b ∨ b + (c.header q).objsize ≤ a := by
  by_cases hpq : p = q
  · subst hpq
    exact blocks_disjoint ha hb hne
  obtain ⟨z, -, -, -, hsp⟩ := hI.isSlab hp
  obtain ⟨z', -, -, -, hsq⟩ := hI.isSlab hq
  have h1 := hsp.object_bounds ha
  have h2 := hsq.object_bounds hb
  have h3 := hsp.page.2.1
  have h4 := hsq.page.2.1
  rw [hsp.objsize, hsq.objsize]
  simp only [frameSize] at *
  omega

theorem objsize_ge : 8 ≤ (c.header p).objsize := by
  obtain ⟨z, -, hz, -, hs⟩ := hI.isSlab hp
  rwa [hs.objsize]

end

theorem mem_congr {m : Mem}
    (hm : ∀ p ∈ c.allSlabs, ∀ a ∈ (c.header p).objects, a ∉ live.map Prod.fst →
      ∀ x, a ≤ x → x < a + 4 → m x = c.mem x) :
    SlabInv { c with mem := m } live where
  uninit := hI.uninit
  sizes := hI.sizes
  slab := hI.slab
  free p hp := by
    obtain ⟨l, hl, hnd, hmem⟩ := hI.free p hp
    refine ⟨l, hl.congr fun a ha => ?_, hnd, hmem⟩
    exact hm p hp a ((hmem a).1 ha).1 ((hmem a).1 ha).2
  owned := hI.owned
  nodup := hI.nodup

theorem write {b : ℕ × ℕ} (hb : b ∈ live) {k : ℕ} (hk : k < b.2)
    (v : BitVec 8) : SlabInv { c with mem := update c.mem (b.1 + k) v } live := by
  obtain ⟨-, p, hp, hbp, hsize⟩ := hI.owned b hb
  refine hI.mem_congr fun q hq a ha hfree x hx hx' => update_of_ne ?_ _ _
  have hne : b.1 ≠ a := fun h => hfree (h ▸ List.mem_map_of_mem hb)
  have hd := hI.object_disjoint hp hq hbp ha hne
  have := hI.objsize_ge hq
  omega

theorem initSlabCaches (h : c.initialized = false) : SlabInv c.initSlabCaches live := by
  have hnone : c.allSlabs = [] := by
    refine List.eq_nil_iff_forall_not_mem.2 fun p hp => ?_
    obtain ⟨i, hi, hpi⟩ := mem_allSlabs.1 hp
    simp [hI.uninit h i hi] at hpi
  have hlive : live = [] := by
    refine List.eq_nil_iff_forall_not_mem.2 fun b hb => ?_
    obtain ⟨-, p, hp, -⟩ := hI.owned b hb
    simp [hnone] at hp
  have hempty : ∀ i < slabTypesMax, c.initSlabCaches.slabs i = [] := fun i hi => if_pos hi
  subst hlive
  refine ⟨fun _ => hempty, fun _ i hi => if_pos hi, fun i hi p hp => ?_, fun p hp => ?_,
    by simp, List.nodup_nil⟩
  · simp [hempty i hi] at hp
  · obtain ⟨i, hi, hpi⟩ := mem_allSlabs.1 hp
    simp [hempty i hi] at hpi

theorem ready : SlabInv c.ready live ∧ c.ready.initialized = true
    ∧ ∀ p, p ∈ c.ready.allSlabs ↔ p ∈ c.allSlabs := by
  unfold SlabCaches.ready
  split_ifs with h
  · exact ⟨hI, h, fun _ => Iff.rfl⟩
  have h' : c.initialized = false := by simpa using h
  refine ⟨hI.initSlabCaches h', rfl, fun p => ?_⟩
  rw [mem_allSlabs, mem_allSlabs]
  refine exists_congr fun i => and_congr_right fun hi => ?_
  rw [hI.uninit h' i hi, show c.initSlabCaches.slabs i = [] from if_pos hi]

theorem takeObject {size : ℕ} (hp : p ∈ c.allSlabs) (hne : (c.header p).freeList ≠ 0)
    (h0 : 0 < size) (hsize : size ≤ (c.header p).objsize) :
    SlabInv (c.takeObject p).2 (((c.takeObject p).1, size) :: live) := by
  obtain ⟨_ | ⟨a, l⟩, hl, hnd, hmem⟩ := hI.free p hp
  · exact absurd hl hne
  obtain ⟨ha, -, hl⟩ := hl
  rw [List.nodup_cons] at hnd
  have hobj := (hmem a).1 List.mem_cons_self
  have hhdr : (c.takeObject p).2.header = setFreeList c.header p (readPtr c.mem a) := by
    simp [SlabCaches.takeObject, setFreeList, ha]
  refine ⟨hI.uninit, hI.sizes, fun i hi q hq => ?_, fun q hq => ?_, ?_, ?_⟩
  · rw [hhdr]
    exact (hI.slab i hi q hq).setFreeList p _
  · rw [hhdr, setFreeList_freeList, setFreeList_objects]
    by_cases hqp : q = p
    · subst hqp
      rw [if_pos rfl]
      refine ⟨l, hl, hnd.2, fun x => ?_⟩
      have hx := hmem x
      simp only [SlabCaches.takeObject, ha, List.map_cons, List.mem_cons, not_or] at hx ⊢
      constructor
      · intro h
        have hxa : x ≠ a := fun e => hnd.1 (e ▸ h)
        exact ⟨(hx.1 (.inr h)).1, hxa, (hx.1 (.inr h)).2⟩
      · rintro ⟨h1, h2, h3⟩
        exact (hx.2 ⟨h1, h3⟩).resolve_left h2
    · rw [if_neg hqp]
      obtain ⟨l', hl', hnd', hmem'⟩ := hI.free q hq
      refine ⟨l', hl', hnd', fun x => ?_⟩
      simp only [SlabCaches.takeObject, ha, List.map_cons, List.mem_cons, not_or, hmem' x]
      refine and_congr_right fun hx => ⟨fun h => ⟨?_, h⟩, And.right⟩
      rintro rfl
      exact hqp (hI.object_unique hq hp hx hobj.1)
  · intro b hb
    rcases List.mem_cons.1 hb with rfl | hb
    · refine ⟨h0, p, hp, ?_, ?_⟩
      · rw [hhdr, setFreeList_objects]
        simpa [SlabCaches.takeObject, ha] using hobj.1
      · rw [hhdr, setFreeList_objsize]
        exact hsize
    · obtain ⟨h1, q, hq, h2, h3⟩ := hI.owned b hb
      exact ⟨h1, q, hq, by rwa [hhdr, setFreeList_objects], by rwa [hhdr, setFreeList_objsize]⟩
  · simp only [List.map_cons, List.nodup_cons, SlabCaches.takeObject, ha]
    exact ⟨hobj.2, hI.nodup⟩

theorem putObject (hp : p ∈ c.allSlabs) (ha : a ∈ (c.header p).objects)
    (hlive : a ∈ live.map Prod.fst) : SlabInv (c.putObject p a) (live.filter fun b => b.1 ≠ a) := by
  have hfst : ∀ x, x ∈ (live.filter fun b => b.1 ≠ a).map Prod.fst ↔
      x ∈ live.map Prod.fst ∧ x ≠ a := fun x => by
    simp only [List.mem_map, List.mem_filter, decide_eq_true_eq]
    constructor
    · rintro ⟨b, ⟨hb, hne⟩, rfl⟩
      exact ⟨⟨b, hb, rfl⟩, hne⟩
    · rintro ⟨⟨b, hb, rfl⟩, hne⟩
      exact ⟨b, ⟨hb, hne⟩, rfl⟩
  have hhdr : (c.putObject p a).header = setFreeList c.header p a := rfl
  -- the store into `a` misses the other objects
  have hmiss : ∀ q ∈ c.allSlabs, ∀ b ∈ (c.header q).objects, b ≠ a →
      b + 4 ≤ a ∨ a + 4 ≤ b := fun q hq b hb hne => by
    have h1 := hI.object_disjoint hq hp hb ha hne
    have h2 := hI.objsize_ge hp
    have h3 := hI.objsize_ge hq
    omega
  refine ⟨hI.uninit, hI.sizes, fun i hi q hq => ?_, fun q hq => ?_, ?_, ?_⟩
  · rw [hhdr]
    exact (hI.slab i hi q hq).setFreeList p _
  · rw [hhdr, setFreeList_freeList, setFreeList_objects]
    obtain ⟨l, hl, hnd, hmem⟩ := hI.free q hq
    have hnot : a ∉ l := fun h => ((hmem a).1 h).2 hlive
    by_cases hqp : q = p
    · subst hqp
      rw [if_pos rfl]
      obtain ⟨z, -, hz, -, hs⟩ := hI.isSlab hp
      have hb := hs.object_bounds ha
      refine ⟨a :: l, hl.push (by omega) ?_ fun b hb => ?_, List.nodup_cons.2 ⟨hnot, hnd⟩,
        fun x => ?_⟩
      · rcases l with _ | ⟨b, l⟩
        · have : (c.header q).freeList = 0 := hl
          omega
        · have hbo := hs.object_bounds ((hmem b).1 List.mem_cons_self).1
          have := hs.page.2.2
          rw [hl.1]
          omega
      · exact hmiss q hp b ((hmem b).1 hb).1 fun h => hnot (h ▸ hb)
      · rw [List.mem_cons, hmem x, hfst x]
        constructor
        · rintro (rfl | h)
          · exact ⟨ha, fun h => h.2 rfl⟩
          · exact ⟨h.1, fun h' => h.2 h'.1⟩
        · rintro ⟨h1, h2⟩
          by_cases hx : x = a
          · exact .inl hx
          · exact .inr ⟨h1, fun h => h2 ⟨h, hx⟩⟩
    · rw [if_neg hqp]
      refine ⟨l, hl.congr fun b hb x hx hx' => writePtr_of_not_mem ?_, hnd, fun x => ?_⟩
      · have := hmiss q hq b ((hmem b).1 hb).1 fun h => hnot (h ▸ hb)
        omega
      · rw [hmem x, hfst x]
        refine and_congr_right fun hx => not_congr ⟨fun h => ⟨h, ?_⟩, And.left⟩
        rintro rfl
        exact hqp (hI.object_unique hq hp hx ha)
  · intro b hb
    obtain ⟨h1, q, hq, h2, h3⟩ := hI.owned b (List.mem_of_mem_filter hb)
    exact ⟨h1, q, hq, by rwa [hhdr, setFreeList_objects], by rwa [hhdr, setFreeList_objsize]⟩
  · exact hI.nodup.sublist (List.filter_sublist.map _)

theorem live_not_mem_page (hp : c.FreshPage page)
    (ha : a ∈ live.map Prod.fst) : a < page ∨ page + frameSize ≤ a := by
  obtain ⟨b, hb, rfl⟩ := List.mem_map.1 ha
  obtain ⟨-, q, hq, hbq, -⟩ := hI.owned b hb
  obtain ⟨z, -, hz, -, hs⟩ := hI.isSlab hq
  have hbd := hs.object_bounds hbq
  by_contra hin
  have := page_unique hs.page.2.1 hp.2.1 (a := b.1) (by omega) (b := b.1) (by omega) rfl
  exact hp.2.2.2 (this ▸ hq)

theorem newSlab (hinit : c.initialized = true) {i : ℕ} (hi : i < slabTypesMax)
    (hpage : c.FreshPage page) {z : ℕ} (hz : z = slabSizes.getD i 0) :
    SlabInv { c with
      header := update c.header page ⟨page + 32, page + 32, 4064 / z, z⟩
      mem := thread z (4064 / z - 1) (page + 32) c.mem
      slabs := update c.slabs i (page :: c.slabs i) } live := by
  subst hz
  obtain ⟨-, hz1, hz2⟩ := slabSizes_getD hi
  set z := slabSizes.getD i 0
  set c' : SlabCaches := { c with
    header := update c.header page ⟨page + 32, page + 32, 4064 / z, z⟩
    mem := thread z (4064 / z - 1) (page + 32) c.mem
    slabs := update c.slabs i (page :: c.slabs i) } with hc'
  have hn : 4064 / z - 1 + 1 = 4064 / z :=
    Nat.sub_add_cancel ((Nat.le_div_iff_mul_le (by omega)).2 (by omega))
  have hlen := div_mul_le_self 4064 z
  obtain ⟨hp0, hpal, hptop, hnew⟩ := id hpage
  have hslab : IsSlab (c'.header page) page z := by
    rw [hc']
    simp only [update_self]
    exact ⟨⟨hp0, hpal, hptop⟩, rfl, rfl, rfl⟩
  have hhdr : ∀ q ∈ c.allSlabs, c'.header q = c.header q := fun q hq =>
    update_of_ne (ne_of_mem_of_not_mem hq hnew) _ _
  have hall : ∀ q, q ∈ c'.allSlabs ↔ q = page ∨ q ∈ c.allSlabs := mem_allSlabs_cons hi page
  refine ⟨fun h => by simp [hc', hinit] at h, hI.sizes, fun j hj q hq => ?_, fun q hq => ?_,
    fun b hb => ?_, hI.nodup⟩
  · by_cases hji : j = i
    · subst hji
      simp only [hc', update_self, List.mem_cons] at hq
      rcases hq with rfl | hq
      · exact hslab
      · rw [hhdr q (mem_allSlabs.2 ⟨j, hj, hq⟩)]
        exact hI.slab j hj q hq
    · simp only [hc', update_of_ne hji] at hq
      rw [hhdr q (mem_allSlabs.2 ⟨j, hj, hq⟩)]
      exact hI.slab j hj q hq
  · rcases (hall q).1 hq with rfl | hq
    · refine ⟨blocks z (4064 / z) (q + 32), ?_, blocks_nodup (by omega) _ _, fun a => ?_⟩
      · rw [← hn]
        simp only [hc', update_self]
        refine linked_thread (by omega) _ _ _ (by omega) ?_
        have := Nat.mul_le_mul_right z (sub_le (4064 / z) 1)
        simp only [frameSize] at hptop
        omega
      · have hobj : (c'.header q).objects = blocks z (4064 / z) (q + 32) := by
          simp [hc', Slab.objects]
        rw [hobj]
        refine ⟨fun h => ⟨h, fun hl => ?_⟩, And.left⟩
        have h1 := hI.live_not_mem_page hpage hl
        have h2 := hslab.object_bounds (hobj ▸ h)
        omega
    · rw [hhdr q hq]
      obtain ⟨l, hl, hnd, hmem⟩ := hI.free q hq
      obtain ⟨z', -, hz', -, hs⟩ := hI.isSlab hq
      refine ⟨l, hl.congr fun a ha x hx hx' => ?_, hnd, hmem⟩
      have hbd := hs.object_bounds ((hmem a).1 ha).1
      have hne := ne_of_mem_of_not_mem hq hnew
      have hqal := hs.page.2.1
      refine thread_of_not_mem (by omega) _ _ _ ?_
      rw [hn]
      simp only [frameSize] at *
      omega
  · obtain ⟨h1, q, hq, h2, h3⟩ := hI.owned b hb
    exact ⟨h1, q, (hall q).2 (.inr hq), by rwa [hhdr q hq], by rwa [hhdr q hq]⟩

end

end SlabInv

section Calls

variable {π : Type*} {src : PageSource π} {c : SlabCaches} {live : List (ℕ × ℕ)} {pages pages' : π}
  {z a : ℕ}

theorem getSlabCacheForSize_some {size : ℕ} (hle : size ≤ 1024) :
    ∃ i, getSlabCacheForSize size = some i ∧ i < slabTypesMax ∧ size ≤ slabSizes.getD i 0 := by
  rcases h : getSlabCacheForSize size with _ | i
  · have := List.findIdx?_eq_none_iff.1 h 1024 (by decide)
    simp at this
    omega
  obtain ⟨hlt, hs, -⟩ := List.findIdx?_eq_some_iff_getElem.1 h
  refine ⟨i, rfl, hlt, ?_⟩
  rw [List.getD_eq_getElem _ _ hlt]
  simpa using hs

theorem createSlab_of_fresh {page : ℕ} (hz : 8 ≤ z) (hz' : z ≤ 1024) (hpage : c.FreshPage page)
    (h : src.allocateVirtualPage pages = some (page, pages')) :
    createSlab src z (c, pages) = some (page,
      { c with
        header := update c.header page ⟨page + 32, page + 32, 4064 / z, z⟩
        mem := thread z (4064 / z - 1) (page + 32) c.mem }, pages') := by
  obtain ⟨hp0, hpal, hptop, -⟩ := hpage
  have haligned : alignUp (page + sizeofSlab) defaultObjAlign = page + 32 := by
    simp only [alignUp, sizeofSlab, defaultObjAlign, frameSize] at *
    omega
  have husable : frameSize - (page + 32 - page) = 4064 := by
    simp only [frameSize]
    omega
  have hn : 4064 / z ≠ 0 := (Nat.div_pos (by omega) (by omega)).ne'
  simp only [createSlab, h, bind_some, if_neg (show ¬ z < 4 by omega), if_neg hp0, haligned,
    husable, if_neg hn]

theorem createSlab_of_null (h : src.allocateVirtualPage pages = some (0, pages')) :
    createSlab src z (c, pages) = some (0, c, pages') := by
  simp [createSlab, h]

theorem createSlab_of_none (h : src.allocateVirtualPage pages = none) :
    createSlab src z (c, pages) = none := by
  simp [createSlab, h]

section SmallRequest

variable (src pages)

variable {size i : ℕ} (h0 : 0 < size) (hle : size ≤ 1024) (hi : getSlabCacheForSize size = some i)
include h0 hle hi

theorem kmalloc_of_free {p : ℕ}
    (hf : ((c.ready.slabs i).find? fun p => (c.ready.header p).freeList ≠ 0) = some p) :
    kmalloc src size (c, pages)
      = some ((c.ready.takeObject p).1, (c.ready.takeObject p).2, pages) := by
  unfold kmalloc
  rw [if_neg (by omega), if_neg (by simp [slabSizes]; omega),
    if_neg (by simp only [frameSize]; omega), hi, bind_some]
  unfold SlabCaches.ready at hf ⊢
  simp only [hf]

theorem kmalloc_of_full
    (hf : ((c.ready.slabs i).find? fun p => (c.ready.header p).freeList ≠ 0) = none) :
    kmalloc src size (c, pages)
      = (createSlab src (c.ready.objsize i) (c.ready, pages)).map fun r =>
          if r.1 = 0 then r else let t := { r.2.1 with
              slabs := update r.2.1.slabs i (r.1 :: r.2.1.slabs i) }.takeObject r.1
            (t.1, t.2, r.2.2) := by
  unfold kmalloc
  rw [if_neg (by omega), if_neg (by simp [slabSizes]; omega),
    if_neg (by simp only [frameSize]; omega), hi, bind_some]
  unfold SlabCaches.ready at hf ⊢
  simp only [hf]

end SmallRequest

/-- A small request that finds a free object asks for no page. One that does not goes by what
`AllocateVirtualPage` answers: nothing, null, or a fresh page that becomes a slab. -/
theorem kmalloc_spec (hI : SlabInv c live) (src : PageSource π) (pages : π) {size : ℕ}
    (h0 : 0 < size) (hle : size ≤ 1024) :
    (∃ a c', kmalloc src size (c, pages) = some (a, c', pages) ∧ a ≠ 0
        ∧ SlabInv c' ((a, size) :: live) ∧ ∀ p, p ∈ c'.allSlabs ↔ p ∈ c.allSlabs)
      ∨ ((src.allocateVirtualPage pages = none → kmalloc src size (c, pages) = none)
        ∧ (∀ pages', src.allocateVirtualPage pages = some (0, pages') →
            ∃ c', kmalloc src size (c, pages) = some (0, c', pages') ∧ SlabInv c' live
              ∧ ∀ p, p ∈ c'.allSlabs ↔ p ∈ c.allSlabs)
        ∧ ∀ page pages', src.allocateVirtualPage pages = some (page, pages') →
            c.FreshPage page → ∃ a c', kmalloc src size (c, pages) = some (a, c', pages')
              ∧ a ≠ 0 ∧ SlabInv c' ((a, size) :: live)
              ∧ ∀ p, p ∈ c'.allSlabs ↔ p = page ∨ p ∈ c.allSlabs) := by
  obtain ⟨i, hfind, hi, hsize⟩ := getSlabCacheForSize_some hle
  obtain ⟨-, hz1, hz2⟩ := slabSizes_getD hi
  obtain ⟨hR, hinit, hsame⟩ := hI.ready
  rcases hf : (c.ready.slabs i).find? fun p => (c.ready.header p).freeList ≠ 0 with _ | p
  · have hkm := kmalloc_of_full src pages h0 hle hfind hf
    rw [hR.sizes hinit i hi] at hkm
    set c1 := c.ready
    refine .inr ⟨fun h => ?_, fun pages' h => ?_, fun page pages' h hpage => ?_⟩
    · rw [hkm, createSlab_of_none h, map_none]
    · rw [hkm, createSlab_of_null h]
      exact ⟨c1, by simp, hR, hsame⟩
    · have hpage' : c1.FreshPage page :=
        ⟨hpage.1, hpage.2.1, hpage.2.2.1, fun h => hpage.2.2.2 ((hsame page).1 h)⟩
      have hnew := hR.newSlab hinit hi hpage' rfl
      rw [hkm, createSlab_of_fresh hz1 hz2 hpage' h, map_some, if_neg hpage.1]
      have hmem : ∀ q, q ∈ SlabCaches.allSlabs { c1 with
          slabs := update c1.slabs i (page :: c1.slabs i) } ↔
          q = page ∨ q ∈ c1.allSlabs := mem_allSlabs_cons hi page
      refine ⟨_, _, rfl, ?_, hnew.takeObject ((hmem page).2 (.inl rfl)) ?_ h0 ?_, fun q => ?_⟩
      · simp [SlabCaches.takeObject]
      · simp
      · simpa using hsize
      · exact (hmem q).trans (or_congr_right (hsame q))
  · have hkm := kmalloc_of_free src pages h0 hle hfind hf
    set c1 := c.ready
    have hne := List.find?_some hf
    simp only [decide_eq_true_eq] at hne
    have hpi := List.mem_of_find?_eq_some hf
    have hp : p ∈ c1.allSlabs := mem_allSlabs.2 ⟨i, hi, hpi⟩
    refine .inl ⟨_, _, hkm, hne, hR.takeObject hp hne h0 ?_, hsame⟩
    rwa [(hR.slab i hi p hpi).objsize]

theorem kfree_spec (hI : SlabInv c live) (src : PageSource π) (pages : π)
    (ha : a ∈ live.map Prod.fst) :
    ∃ c', kfree src a (c, pages) = some (c', pages)
      ∧ SlabInv c' (live.filter fun b => b.1 ≠ a) ∧ c'.allSlabs = c.allSlabs := by
  obtain ⟨b, hb, rfl⟩ := List.mem_map.1 ha
  obtain ⟨-, p, hp, hbp, -⟩ := hI.owned b hb
  obtain ⟨z, -, hz, -, hs⟩ := hI.isSlab hp
  obtain ⟨hcont, hmod⟩ := hs.contains_object (by omega) hbp
  have hbd := hs.object_bounds hbp
  have hfind : (c.allSlabs.find? fun p => (c.header p).contains b.1) = some p := by
    rcases hf : c.allSlabs.find? fun p => (c.header p).contains b.1 with _ | q
    · exact absurd hcont (by simpa using List.find?_eq_none.1 hf p hp)
    · have hq : (c.header q).contains b.1 = true :=
        List.find?_some (p := fun p => (c.header p).contains b.1) hf
      rw [hI.slab_unique hp (List.mem_of_find?_eq_some hf) hbp hq rfl]
  refine ⟨c.putObject p b.1, ?_, hI.putObject hp hbp ha, rfl⟩
  unfold kfree
  simp only [hfind, hmod, if_neg (show ¬ b.1 = 0 by omega)]
  simp

theorem kfree_page (hI : SlabInv c live) (src : PageSource π) (pages : π) (h0 : a ≠ 0)
    (ha : a % frameSize = 0) (hout : a ∉ c.allSlabs) :
    kfree src a (c, pages) = (src.freeVirtualPage a pages).map fun pages => (c, pages) := by
  have hfind : (c.allSlabs.find? fun p => (c.header p).contains a) = none := by
    refine List.find?_eq_none.2 fun q hq hcont => hout ?_
    obtain ⟨z, -, -, -, hs⟩ := hI.isSlab hq
    have hb := hs.contains_bounds hcont
    have hq' := hs.page.2.1
    have : a = q := by
      simp only [frameSize] at *
      omega
    exact this ▸ hq
  unfold kfree
  simp only [if_neg h0, hfind]

theorem SlabInv.step {s s' : SlabCaches × List (ℕ × ℕ)} {op : SlabOp} (hI : SlabInv s.1 s.2)
    (h : slabStep s op = some s') : SlabInv s'.1 s'.2 := by
  cases op with
  | kmalloc size page =>
    simp only [slabStep] at h
    split_ifs at h with hc
    obtain ⟨h0, hle, hpage⟩ := hc
    obtain ⟨r, hr, rfl⟩ := map_eq_some_iff.1 h
    rcases kmalloc_spec hI (onePage page) () h0 hle with ⟨a, c', hk, hne, hI', -⟩ | ⟨-, h1, h2⟩
    · obtain rfl := some.inj (hr.symm.trans hk)
      simpa [hne] using hI'
    rcases hpage with rfl | hpage
    · obtain ⟨c', hk, hI', -⟩ := h1 () rfl
      obtain rfl := some.inj (hr.symm.trans hk)
      simpa using hI'
    · obtain ⟨a, c', hk, hne, hI', -⟩ := h2 page () rfl hpage
      obtain rfl := some.inj (hr.symm.trans hk)
      simpa [hne] using hI'
  | kfree ptr =>
    simp only [slabStep] at h
    split_ifs at h with hc
    obtain ⟨c', hk, hI', -⟩ := kfree_spec hI (onePage 0) () hc
    rw [hk, map_some, some.injEq] at h
    exact h ▸ hI'
  | write ptr k v =>
    simp only [slabStep] at h
    split_ifs at h with hc
    obtain ⟨b, hb, rfl, hk⟩ := hc
    rw [some.injEq] at h
    exact h ▸ hI.write hb hk v

/-- After any run of small requests, frees and stores: each live block is big enough, inside one
slab page, aligned, and apart from the others; each slab's free list holds, once each, its objects
that are not live; and no further request or free is refused a result. -/
theorem slab_correct {mem : Mem} {ops : List SlabOp} {s : SlabCaches × List (ℕ × ℕ)}
    (hrun : Run.exec slabStep (.blank mem, []) ops = some s) :
    (∀ b ∈ s.2, ∃ p ∈ s.1.allSlabs, p % frameSize = 0 ∧ b.2 ≤ (s.1.header p).objsize
        ∧ p + sizeofSlab ≤ (s.1.header p).objstart ∧ (s.1.header p).objstart ≤ b.1
        ∧ b.1 + (s.1.header p).objsize
            ≤ (s.1.header p).objstart + (s.1.header p).nObjects * (s.1.header p).objsize
        ∧ (s.1.header p).objstart + (s.1.header p).nObjects * (s.1.header p).objsize
            ≤ p + frameSize
        ∧ b.1 % min 16 (s.1.header p).objsize = 0
        ∧ ∀ b' ∈ s.2, b' ≠ b → b.1 + (s.1.header p).objsize ≤ b'.1 ∨ b'.1 + b'.2 ≤ b.1)
      ∧ (s.2.map Prod.fst).Nodup
      ∧ (∀ p ∈ s.1.allSlabs, ∃ l, Linked s.1.mem (s.1.header p).freeList l ∧ l.Nodup
          ∧ ∀ a, a ∈ l ↔ a ∈ (s.1.header p).objects ∧ a ∉ s.2.map Prod.fst)
      ∧ (∀ b ∈ s.2, (slabStep s (.kfree b.1)).isSome)
      ∧ ∀ size page, 0 < size → size ≤ 1024 → page = 0 ∨ s.1.FreshPage page →
          (slabStep s (.kmalloc size page)).isSome := by
  have hI : SlabInv s.1 s.2 :=
    Run.exec_invariant' (I := fun s => SlabInv s.1 s.2) (fun _ _ _ hI h => hI.step h) ops
      (.blank mem) hrun
  refine ⟨fun b hb => ?_, hI.nodup, hI.free, fun b hb => ?_, fun size page h0 hle hpage => ?_⟩
  · obtain ⟨-, p, hp, hbp, hsize⟩ := hI.owned b hb
    obtain ⟨z, hz, -, -, hs⟩ := hI.isSlab hp
    refine ⟨p, hp, hs.page.2.1, hsize, ?_, ?_, ?_, ?_, hs.objsize ▸ hs.object_aligned hz hbp, ?_⟩
    · rw [hs.objstart, sizeofSlab]
      omega
    · obtain ⟨k, -, hk⟩ := mem_blocks.1 hbp
      omega
    · obtain ⟨k, hk, hb⟩ := mem_blocks.1 hbp
      have := Nat.mul_le_mul_right (s.1.header p).objsize (succ_le_of_lt hk)
      rw [succ_mul] at this
      omega
    · have := div_mul_le_self 4064 z
      rw [hs.objstart, hs.nObjects, hs.objsize, frameSize]
      omega
    · intro b' hb' hne
      obtain ⟨-, q, hq, hbq, hsize'⟩ := hI.owned b' hb'
      have hne' : b.1 ≠ b'.1 := fun h => hne (List.inj_on_of_nodup_map hI.nodup hb' hb h.symm)
      have := hI.object_disjoint hp hq hbp hbq hne'
      omega
  · have hmem := List.mem_map_of_mem (f := Prod.fst) hb
    obtain ⟨c', hk, -⟩ := kfree_spec hI (onePage 0) () hmem
    simp [slabStep, hk, hmem]
  · have hok : 0 < size ∧ size ≤ 1024 ∧ (page = 0 ∨ s.1.FreshPage page) := ⟨h0, hle, hpage⟩
    rcases kmalloc_spec hI (onePage page) () h0 hle with ⟨a, c', hk, -⟩ | ⟨-, h₁, h₂⟩
    · simp [slabStep, hok, hk]
    rcases hpage with rfl | hpage
    · obtain ⟨c', hk, -⟩ := h₁ () rfl
      simp [slabStep, hok, hk]
    · obtain ⟨a, c', hk, -⟩ := h₂ page () rfl hpage
      simp [slabStep, hok, hk]

theorem slab_correct_two_blocks :
    ∃ s, Run.exec slabStep (.blank fun _ => 0, [])
        [.kmalloc 20 0xC0100000, .kmalloc 32 0, .kfree 0xC0100020] = some s
      ∧ s.2 = [(0xC0100040, 32)] ∧ 0xC0100020 ∉ s.2.map Prod.fst ∧ (s.2.map Prod.fst).Nodup := by
  have hrun : ((Run.exec slabStep (.blank fun _ => 0, [])
      [.kmalloc 20 0xC0100000, .kmalloc 32 0, .kfree 0xC0100020]).map Prod.snd)
        = some [(0xC0100040, 32)] := by decide +kernel
  obtain ⟨s, hs, hlive⟩ := map_eq_some_iff.1 hrun
  exact ⟨s, hs, hlive, by rw [hlive]; decide, (slab_correct hs).2.1⟩

end Calls

end DragonWare
