import Mathlib

/-!
# Two-level tables

The entries of a directory at the indices in `slot` point at tables (`child`). A directory is well
formed when its tables are nodes of their own. Setting one entry of a table then changes the lookup
of one pair, and stores outside the tables change none (`Evolves`). Several directories may share
tables at some indices (`Family`).
-/

namespace TwoLevel

open Function Option

variable {ν ι ε : Type*} (child : ε → Option ν) (slot shared : Set ι)

def lookup (t : ν → ι → ε) (dir : ν) (i j : ι) : Option ε :=
  (child (t dir i)).bind fun n => if (child (t n j)).isSome then some (t n j) else none

/-- The node is the directory or one of its tables. -/
def Holds (t : ν → ι → ε) (dir f : ν) : Prop := f = dir ∨ ∃ i ∈ slot, child (t dir i) = some f

structure WellFormed (used : Set ν) (t : ν → ι → ε) (dir : ν) : Prop where
  live : ∀ f, Holds child slot t dir f → f ∈ used
  ne : ∀ i ∈ slot, child (t dir i) ≠ some dir
  inj : ∀ i ∈ slot, ∀ j ∈ slot, ∀ f, child (t dir i) = some f → child (t dir j) = some f → i = j

/-- What is done to the tables of one directory: entries stay, nodes in use do not become tables,
and other nodes are left alone unless they are in `touched`. -/
structure Evolves (touched : Set ν) (dir : ν) (used : Set ν) (t : ν → ι → ε) (used' : Set ν)
    (t' : ν → ι → ε) : Prop where
  sub : used ⊆ used'
  keep : ∀ f ∈ used, ¬ Holds child slot t dir f → ¬ Holds child slot t' dir f
    ∧ (f ∉ touched → t' f = t f)
  entry : ∀ i, i ∉ slot ∨ (child (t dir i)).isSome = true → t' dir i = t dir i

variable {child slot shared} {used used' used'' touched touched' : Set ν} {t t' t'' : ν → ι → ε}
  {dir f : ν} {a : ι}

namespace Evolves

theorem refl : Evolves child slot touched dir used t used t :=
  ⟨subset_rfl, fun _ _ hf => ⟨hf, fun _ => rfl⟩, fun _ _ => rfl⟩

section

variable (h : Evolves child slot touched dir used t used' t')

include h

theorem trans (h' : Evolves child slot touched dir used' t' used'' t'') :
    Evolves child slot touched dir used t used'' t'' := by
  refine ⟨h.sub.trans h'.sub, fun f hf hh => ?_, fun i hi => ?_⟩
  · obtain ⟨hn, he⟩ := h.keep f hf hh
    obtain ⟨hn', he'⟩ := h'.keep f (h.sub hf) hn
    exact ⟨hn', fun hT => (he' hT).trans (he hT)⟩
  · have he := h.entry i hi
    rw [h'.entry i (by rwa [he]), he]

theorem mono (hsub : used' ⊆ used'') : Evolves child slot touched dir used t used'' t' :=
  ⟨h.sub.trans hsub, h.keep, h.entry⟩

theorem weaken (hT : ∀ f ∈ used, f ∈ touched → f ∈ touched') :
    Evolves child slot touched' dir used t used' t' :=
  ⟨h.sub, fun f hf hh => ⟨(h.keep f hf hh).1, fun hn => (h.keep f hf hh).2 fun hf' =>
    hn (hT f hf hf')⟩, h.entry⟩

end

end Evolves

theorem WellFormed.mono (hw : WellFormed child slot used t dir) (hsub : used ⊆ used') :
    WellFormed child slot used' t dir :=
  ⟨fun f hf => hsub (hw.live f hf), hw.ne, hw.inj⟩

theorem lookup_congr {i j : ι} (hi : i ∈ slot) (h : ∀ f, Holds child slot t dir f → t' f = t f) :
    lookup child t' dir i j = lookup child t dir i j := by
  unfold lookup
  rw [h dir (.inl rfl)]
  rcases hc : child (t dir i) with _ | n
  · rfl
  · simp only [bind_some, h n (.inr ⟨i, hi, hc⟩)]

theorem holds_congr (h : ∀ i ∈ slot, t' dir i = t dir i) :
    Holds child slot t' dir f ↔ Holds child slot t dir f := by
  refine or_congr_right (exists_congr fun i => and_congr_right fun hi => ?_)
  rw [h i hi]

theorem WellFormed.congr (hw : WellFormed child slot used t dir)
    (h : ∀ i ∈ slot, t' dir i = t dir i) : WellFormed child slot used t' dir := by
  refine ⟨fun f hf => hw.live f ((holds_congr h).1 hf), fun i hi => ?_, fun i hi j hj => ?_⟩
  · rw [h i hi]
    exact hw.ne i hi
  · rw [h i hi, h j hj]
    exact hw.inj i hi j hj

theorem WellFormed.blank (hd : dir ∈ used) (h : ∀ i ∈ slot, child (t dir i) = none) :
    WellFormed child slot used t dir := by
  refine ⟨?_, fun i hi => by simp [h i hi], fun i hi j hj f hf => by simp [h i hi] at hf⟩
  rintro f (rfl | ⟨i, hi, hf⟩)
  · exact hd
  · simp [h i hi] at hf

section Update

variable [DecidableEq ν]

theorem WellFormed.update (hw : WellFormed child slot used t dir) (hf : f ≠ dir)
    (row : ι → ε) : WellFormed child slot used (Function.update t f row) dir :=
  hw.congr fun _ _ => by rw [update_of_ne hf.symm]

theorem Evolves.update (hf : ¬ Holds child slot t dir f) (row : ι → ε) :
    Evolves child slot {f} dir used t used (Function.update t f row) := by
  have hdir : Function.update t f row dir = t dir :=
    update_of_ne (fun h => hf (.inl h.symm)) ..
  refine ⟨subset_rfl, fun g _ hg => ⟨?_, fun hgf => update_of_ne hgf ..⟩, fun i _ => ?_⟩
  · simpa only [Holds, hdir] using hg
  · rw [hdir]

variable [DecidableEq ι]

def setEntry (t : ν → ι → ε) (n : ν) (j : ι) (e : ε) : ν → ι → ε :=
  Function.update t n (Function.update (t n) j e)

theorem setEntry_of_ne {n : ν} (h : f ≠ n) (j : ι) (e : ε) : setEntry t n j e f = t f :=
  update_of_ne h ..

theorem setEntry_self (n : ν) (j : ι) (e : ε) : setEntry t n j e n j = e := by
  simp [setEntry]

theorem setEntry_self_of_ne {i j : ι} (h : i ≠ j) (n : ν) (e : ε) :
    setEntry t n j e n i = t n i := by
  simp [setEntry, h]

section Set

variable {i j : ι} {n : ν} {e : ε} (hw : WellFormed child slot used t dir) (hi : i ∈ slot)
  (hc : child (t dir i) = some n)

include hw hi hc

theorem setEntry_dir : setEntry t n j e dir = t dir := by
  refine setEntry_of_ne (fun h => hw.ne i hi ?_) j e
  rw [hc, h]

theorem WellFormed.set : WellFormed child slot used (setEntry t n j e) dir :=
  hw.congr fun _ _ => by rw [setEntry_dir hw hi hc]

theorem Evolves.set : Evolves child slot touched dir used t used (setEntry t n j e) := by
  refine ⟨subset_rfl, fun f _ hh => ⟨?_, fun _ => ?_⟩, fun k _ => by rw [setEntry_dir hw hi hc]⟩
  · simpa only [Holds, setEntry_dir hw hi hc] using hh
  · refine setEntry_of_ne (fun h => hh (.inr ⟨i, hi, ?_⟩)) j e
    rw [hc, h]

theorem lookup_set (ha : a ∈ slot) (b : ι) :
    lookup child (setEntry t n j e) dir a b =
      if a = i ∧ b = j then (if (child e).isSome then some e else none)
      else lookup child t dir a b := by
  unfold lookup
  rw [setEntry_dir hw hi hc]
  by_cases hai : a = i
  · subst hai
    by_cases hbj : b = j
    · subst hbj
      simp [hc, setEntry_self]
    · simp [hc, setEntry_self_of_ne hbj, hbj]
  · rw [if_neg fun h => hai h.1]
    rcases hca : child (t dir a) with _ | f
    · rfl
    · have hne : f ≠ n := fun h => hai (hw.inj a ha i hi f hca (h ▸ hc))
      simp only [bind_some, setEntry_of_ne hne]

end Set

section Point

variable {i : ι} {e : ε} {g : ν}

theorem setEntry_dir_apply (k : ι) : setEntry t dir i e dir k = if k = i then e else t dir k := by
  by_cases hk : k = i
  · subst hk
    simp [setEntry_self]
  · simp [setEntry_self_of_ne hk, hk]

theorem holds_point (he : child e = some g)
    (hf : Holds child slot (setEntry t dir i e) dir f) : f = g ∨ Holds child slot t dir f := by
  rcases hf with rfl | ⟨k, hk, hf⟩
  · exact .inr (.inl rfl)
  rw [setEntry_dir_apply] at hf
  split_ifs at hf
  · rw [he] at hf
    exact .inl (some.inj hf).symm
  · exact .inr (.inr ⟨k, hk, hf⟩)

theorem WellFormed.point (hw : WellFormed child slot used t dir) (he : child e = some g)
    (hg : g ∈ used) (hh : ¬ Holds child slot t dir g) :
    WellFormed child slot used (setEntry t dir i e) dir := by
  have hold : ∀ k ∈ slot, child (t dir k) ≠ some g := fun k hk h => hh (.inr ⟨k, hk, h⟩)
  refine ⟨fun f hf => ?_, fun k hk => ?_, fun k hk l hl f hkf hlf => ?_⟩
  · rcases holds_point he hf with rfl | hf
    · exact hg
    · exact hw.live f hf
  · rw [setEntry_dir_apply]
    split_ifs
    · rw [he]
      exact fun h => hh (.inl (some.inj h))
    · exact hw.ne k hk
  · rw [setEntry_dir_apply] at hkf hlf
    split_ifs at hkf hlf with hki hli hli
    · rw [hki, hli]
    · rw [he] at hkf
      exact absurd (some.inj hkf ▸ hlf) (hold l hl)
    · rw [he] at hlf
      exact absurd (some.inj hlf ▸ hkf) (hold k hk)
    · exact hw.inj k hk l hl f hkf hlf

end Point

section Grow

variable {i : ι} {e : ε} {g : ν} {blank : ι → ε} (hw : WellFormed child slot used t dir)
  (he : child e = some g) (hg : g ∉ used)

include hw hg

theorem grow_dir (k : ι) :
    Function.update (setEntry t dir i e) g blank dir k = if k = i then e else t dir k := by
  have hne : dir ≠ g := fun h => hg (h ▸ hw.live dir (.inl rfl))
  rw [update_of_ne hne, setEntry_dir_apply]

include he

theorem holds_grow
    (hf : Holds child slot (Function.update (setEntry t dir i e) g blank)
    dir f) : f = g ∨ Holds child slot t dir f := by
  refine holds_point (i := i) he ((holds_congr fun k _ => ?_).1 hf)
  rw [grow_dir hw hg, setEntry_dir_apply]

theorem WellFormed.grow :
    WellFormed child slot (insert g used) (Function.update (setEntry t dir i e) g blank) dir := by
  have hpoint := (hw.mono (Set.subset_insert g used)).point (i := i) he (Set.mem_insert ..)
    fun hh => hg (hw.live g hh)
  have hne : g ≠ dir := fun h => hg (h ▸ hw.live dir (.inl rfl))
  exact hpoint.update hne blank

theorem Evolves.grow (hi : i ∈ slot) (hc : child (t dir i) = none) :
    Evolves child slot touched dir used t (insert g used)
      (Function.update (setEntry t dir i e) g blank) := by
  refine ⟨Set.subset_insert .., fun f hf hh => ⟨fun hh' => ?_, fun _ => ?_⟩, fun k hk => ?_⟩
  · rcases holds_grow hw he hg hh' with rfl | hh'
    · exact hg hf
    · exact hh hh'
  · have hfg : f ≠ g := fun h => hg (h ▸ hf)
    have hfd : f ≠ dir := fun h => hh (.inl h)
    rw [update_of_ne hfg, setEntry_of_ne hfd]
  · rw [grow_dir hw hg, if_neg]
    rintro rfl
    rcases hk with hk | hk
    · exact hk hi
    · simp [hc] at hk

theorem lookup_grow (hc : child (t dir i) = none) (hblank : ∀ k, child (blank k) = none)
    (ha : a ∈ slot) (b : ι) :
    lookup child (Function.update (setEntry t dir i e) g blank) dir a b
      = lookup child t dir a b := by
  unfold lookup
  rw [grow_dir hw hg]
  by_cases hai : a = i
  · subst hai
    simp [hc, he, hblank]
  rw [if_neg hai]
  rcases hca : child (t dir a) with _ | f
  · rfl
  · have hfg : f ≠ g := fun h => hg (h ▸ hw.live f (.inr ⟨a, ha, hca⟩))
    have hfd : f ≠ dir := fun h => hw.ne a ha (h ▸ hca)
    simp only [bind_some, update_of_ne hfg, setEntry_of_ne hfd]

end Grow

end Update

/-- Directories that point at the same tables at the shared indices, and have the rest of their
tables for themselves. -/
structure Family (child : ε → Option ν) (slot shared : Set ι) (used : Set ν) (t : ν → ι → ε)
    (dirs : Set ν) : Prop where
  wellFormed : ∀ d ∈ dirs, WellFormed child slot used t d
  full : ∀ d ∈ dirs, ∀ i ∈ shared, (child (t d i)).isSome = true
  same : ∀ d ∈ dirs, ∀ d' ∈ dirs, ∀ i ∈ shared, t d i = t d' i
  apart : ∀ d ∈ dirs, ∀ d' ∈ dirs, d ≠ d' → ¬ Holds child slot t d' d
    ∧ ∀ i ∈ slot, i ∉ shared → ∀ f, child (t d i) = some f → ¬ Holds child slot t d' f

namespace Family

variable {dirs : Set ν} {d d' : ν}

section

variable (hF : Family child slot shared used t dirs)

include hF

theorem lookup_eq (hd : d ∈ dirs) (hd' : d' ∈ dirs) {i : ι} (hi : i ∈ shared)
    (j : ι) : lookup child t d i j = lookup child t d' i j := by
  unfold lookup
  rw [hF.same d hd d' hd' i hi]

theorem restrict (h : ∀ d ∈ dirs, ∀ f, Holds child slot t d f → f ∈ used') :
    Family child slot shared used' t dirs :=
  ⟨fun d hd => ⟨h d hd, (hF.wellFormed d hd).ne, (hF.wellFormed d hd).inj⟩, hF.full, hF.same,
    hF.apart⟩

theorem congr (h : ∀ d ∈ dirs, t' d = t d) : Family child slot shared used t' dirs := by
  refine ⟨fun d hd => (hF.wellFormed d hd).congr fun _ _ => by rw [h d hd], fun d hd => ?_,
    fun d hd d' hd' => ?_, fun d hd d' hd' => ?_⟩
  · simpa only [h d hd] using hF.full d hd
  · simpa only [h d hd, h d' hd'] using hF.same d hd d' hd'
  · simpa only [Holds, h d hd, h d' hd'] using hF.apart d hd d' hd'

theorem evolve (hd : d ∈ dirs) (he : Evolves child slot ∅ d used t used' t')
    (hw : WellFormed child slot used' t' d) : Family child slot shared used' t' dirs := by
  -- the other directories stay as they are
  have hrow : ∀ c ∈ dirs, c ≠ d → t' c = t c ∧ ¬ Holds child slot t' d c := fun c hc hcd => by
    obtain ⟨hh, hk⟩ := he.keep c ((hF.wellFormed c hc).live c (.inl rfl))
      (hF.apart c hc d hd hcd).1
    exact ⟨hk (Set.notMem_empty c), hh⟩
  have hentry : ∀ c ∈ dirs, ∀ i ∈ shared, t' c i = t c i := fun c hc i hi => by
    by_cases hcd : c = d
    · subst hcd
      exact he.entry i (.inr (hF.full c hc i hi))
    · rw [(hrow c hc hcd).1]
  -- so a table of another directory was in use before
  have hlive : ∀ c ∈ dirs, c ≠ d → ∀ f, Holds child slot t' c f → Holds child slot t c f
      ∧ f ∈ used := fun c hc hcd f hf => by
    have hf' : Holds child slot t c f := by simpa only [Holds, (hrow c hc hcd).1] using hf
    exact ⟨hf', (hF.wellFormed c hc).live f hf'⟩
  refine ⟨fun c hc => ?_, fun c hc i hi => ?_, fun c hc c' hc' i hi => ?_,
    fun c hc c' hc' hne => ?_⟩
  · by_cases hcd : c = d
    · exact hcd ▸ hw
    · exact ((hF.wellFormed c hc).congr fun _ _ => by rw [(hrow c hc hcd).1]).mono he.sub
  · rw [hentry c hc i hi]
    exact hF.full c hc i hi
  · rw [hentry c hc i hi, hentry c' hc' i hi]
    exact hF.same c hc c' hc' i hi
  · by_cases hcd' : c' = d
    · subst hcd'
      refine ⟨(hrow c hc hne).2, fun i hi hns f hf => ?_⟩
      rw [(hrow c hc hne).1] at hf
      exact (he.keep f ((hF.wellFormed c hc).live f (.inr ⟨i, hi, hf⟩))
        ((hF.apart c hc c' hd hne).2 i hi hns f hf)).1
    · refine ⟨fun hh => (hF.apart c hc c' hc' hne).1 (hlive c' hc' hcd' c hh).1,
        fun i hi hns f hf hh => ?_⟩
      obtain ⟨hold, hused⟩ := hlive c' hc' hcd' f hh
      by_cases hcd : c = d
      · subst hcd
        -- a table that was in use and is not a table of `c'` alone is an old one of `c`
        by_cases hch : Holds child slot t c f
        · rcases hch with rfl | ⟨k, hk, hkf⟩
          · exact (hF.apart f hc c' hc' hne).1 hold
          · have hk' : child (t' c k) = some f := by
              rw [he.entry k (.inr (by simp [hkf])), hkf]
            obtain rfl : i = k := hw.inj i hi k hk f hf hk'
            exact (hF.apart c hc c' hc' hne).2 i hi hns f hkf hold
        · exact (he.keep f hused hch).1 (.inr ⟨i, hi, hf⟩)
      · rw [(hrow c hc hcd).1] at hf
        exact (hF.apart c hc c' hc' hne).2 i hi hns f hf hold

theorem insert (hsh : shared ⊆ slot) {g : ν} (hw : WellFormed child slot used t g) (hd : d ∈ dirs)
    (hsame : ∀ i ∈ shared, t g i = t d i) (hg : ∀ c ∈ dirs, ¬ Holds child slot t c g)
    (hrest : ∀ i ∈ slot, i ∉ shared → ∀ f, child (t g i) = some f →
      ∀ c ∈ dirs, ¬ Holds child slot t c f) : Family child slot shared used t (insert g dirs) := by
  have hsame' : ∀ c ∈ dirs, ∀ i ∈ shared, t g i = t c i := fun c hc i hi =>
    (hsame i hi).trans (hF.same d hd c hc i hi)
  refine ⟨?_, ?_, ?_, ?_⟩
  · rintro c (rfl | hc)
    · exact hw
    · exact hF.wellFormed c hc
  · rintro c (rfl | hc) i hi
    · rw [hsame i hi]
      exact hF.full d hd i hi
    · exact hF.full c hc i hi
  · rintro c (rfl | hc) c' (rfl | hc') i hi
    · rfl
    · exact hsame' c' hc' i hi
    · exact (hsame' c hc i hi).symm
    · exact hF.same c hc c' hc' i hi
  · rintro c (rfl | hc) c' (rfl | hc') hne
    · exact absurd rfl hne
    · exact ⟨hg c' hc', fun i hi hns f hf => hrest i hi hns f hf c' hc'⟩
    · have hold : ∀ f, Holds child slot t c f → (∀ i ∈ shared, child (t c i) ≠ some f) →
          ¬ Holds child slot t c' f := fun f hf hns hh => by
        rcases hh with rfl | ⟨k, hk, hkf⟩
        · exact hg c hc hf
        · by_cases hks : k ∈ shared
          · exact hns k hks (by rw [← hsame' c hc k hks, hkf])
          · exact hrest k hk hks f hkf c hc hf
      refine ⟨hold c (.inl rfl) fun i hi => (hF.wellFormed c hc).ne i (hsh hi),
        fun i hi hns f hf => hold f (.inr ⟨i, hi, hf⟩) fun k hk hkf => hns ?_⟩
      rwa [(hF.wellFormed c hc).inj i hi k (hsh hk) f hf hkf]
    · exact hF.apart c hc c' hc' hne

end

theorem singleton (hw : WellFormed child slot used t d)
    (hfull : ∀ i ∈ shared, (child (t d i)).isSome = true) :
    Family child slot shared used t {d} := by
  refine ⟨?_, ?_, ?_, ?_⟩
  · rintro c rfl
    exact hw
  · rintro c rfl
    exact hfull
  · rintro c rfl c' rfl i -
    rfl
  · rintro c rfl c' rfl hne
    exact absurd rfl hne

end Family

end TwoLevel
