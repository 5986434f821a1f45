import DragonWare.Proofs.DevicePath

/-!
# `RemoveDevice` never unlinks a device

What `_FindDeviceParent` returns is a grandparent of the device, so the loop that should take the
device out of a list never finds it (`Rooted.dropDevice_eq`). The nodes of the subtree are freed,
and the pointer to the device stays.
-/

namespace DragonWare

open Option Relation

namespace DeviceTree

variable {s t u : DeviceTree} {r p c d x fuel : ℕ} {D : Set ℕ}

def Reachable (s : DeviceTree) (x : ℕ) : Prop :=
  ∃ r, s.root = some r ∧ ReflTransGen (fun x y => ∃ f, s.ptr f x = some y) r x

/-- `t` is what is left of the tree without the subtree of `d`. -/
structure RemovesExactly (s t : DeviceTree) (d : ℕ) : Prop where
  nodes : ∀ x, t.InTree x ↔ s.InTree x ∧ ¬ ReflTransGen (fun x y => y ∈ s.children x) d x
  children : ∀ x, t.InTree x → t.children x = (s.children x).filter (· ≠ d)
  live : ∀ x, t.Reachable x → ∀ f y, t.ptr f x = some y → y ∈ t.blocks

/-- Of the pointers of `s` those of `u` are left, and the nodes outside `D` are as they were. -/
structure LeftOf (s u : DeviceTree) (D : Set ℕ) : Prop where
  root : u.root = s.root
  ptr : ∀ f x y, u.ptr f x = some y → s.ptr f x = some y
  node : ∀ x, x ∉ D → u.node x = s.node x

theorem LeftOf.refl (D : Set ℕ) : s.LeftOf s D := ⟨rfl, fun _ _ _ h => h, fun _ _ => rfl⟩

theorem LeftOf.zero (h : s.LeftOf u D) (hc : c ∈ D) :
    s.LeftOf ((u.setNode c zeroNode).kfree c) D where
  root := h.root
  ptr f x y hxy := by
    by_cases hx : x = c
    · subst hx
      cases f <;> simp [DeviceTree.ptr, DeviceTree.kfree, setNode, zeroNode] at hxy
    · refine h.ptr f x y ?_
      cases f <;> simpa [DeviceTree.ptr, DeviceTree.kfree, setNode, hx] using hxy
  node x hx := by
    have hne : x ≠ c := by
      rintro rfl
      exact hx hc
    simp only [DeviceTree.kfree, setNode, Function.update_of_ne hne]
    exact h.node x hx

theorem ChildOf.mem (h : s.Trees) (hc : s.ChildOf p c) : c ∈ s.blocks := by
  cases hc with
  | first ha hb => exact h.mem _ _ ⟨ha, .child, hb⟩
  | next _ hmem hc => exact h.mem _ _ ⟨hmem, .next, hc⟩

/-! ### The search for the parent -/

theorem findParentFrom_some {D : Set ℕ} : ∀ {fuel node p : ℕ} {curr : Option ℕ},
    u.findParentFrom d fuel node curr = some (some p) → s.Trees → s.LeftOf u D →
    (∀ c, curr = some c → s.ChildOf node c) → ∃ c, s.ChildOf p c ∧ s.ChildOf c d
  | fuel + 1, node, p, none, hf, _, _, _ => by simp [findParentFrom] at hf
  | fuel + 1, node, p, some c, hf, h, hu, hcurr => by
    have hc := hcurr c rfl
    have hmem := hc.mem h
    unfold findParentFrom at hf
    split_ifs at hf with hd
    · obtain rfl := some.inj (some.inj hf)
      exact ⟨c, hc, .first hmem (hu.ptr .child c d hd)⟩
    split at hf
    · cases hf
    · next q hq =>
      obtain rfl := some.inj (some.inj hf)
      exact findParentFrom_some hq h hu fun y hy => .first hmem (hu.ptr .child c y hy)
    · exact findParentFrom_some hf h hu fun y hy => hc.next hmem (hu.ptr .next c y hy)

theorem unlinkFrom_eq {D : Set ℕ} (h : s.Trees) (hu : s.LeftOf u D) (hd : ¬ s.ChildOf p d) :
    ∀ {fuel prev : ℕ}, u.unlinkFrom d fuel prev = some t → s.ChildOf p prev → t = u
  | fuel + 1, prev, hf, hprev => by
    unfold unlinkFrom at hf
    split at hf
    · exact (some.inj hf).symm
    next c hc =>
    have hchild : s.ChildOf p c := hprev.next (hprev.mem h) (hu.ptr .next prev c hc)
    split_ifs at hf with hcd
    · exact absurd (hcd ▸ hchild) hd
    · exact unlinkFrom_eq h hu hd hf hchild

theorem Rooted.dropDevice_eq (h : s.Rooted r) (hu : s.LeftOf u D)
    (hf : u.dropDevice d fuel = some t) : t = (u.setNode d zeroNode).kfree d := by
  obtain ⟨parent, hparent, hf⟩ := bind_eq_some_iff.1 hf
  obtain ⟨v, hv, ht⟩ := bind_eq_some_iff.1 hf
  obtain rfl := some.inj ht
  cases parent with
  | none => rw [some.inj hv]
  | some p =>
    unfold findDeviceParentOf at hparent
    rw [hu.root, h.root] at hparent
    obtain ⟨c, hpc, hcd⟩ := findParentFrom_some hparent h.trees hu
      fun y hy => .first h.mem (hu.ptr .child r y hy)
    -- the device is a child of `c`, so it is none of `p`
    have hnot : ¬ s.ChildOf p d := by
      intro hpd
      obtain rfl := hpd.unique h.trees hcd
      exact h.trees.irrefl hpc.transGen
    have hpb : p ∈ s.blocks := by
      obtain ⟨b, hb, -⟩ := TransGen.head'_iff.1 hpc.transGen
      exact hb.1
    have hvu : v = u := by
      simp only [elim_some, unlink] at hv
      split at hv
      · exact (some.inj hv).symm
      next y hy =>
      have hchild : s.ChildOf p y := .first hpb (hu.ptr .child p y hy)
      split_ifs at hv with hyd
      · exact absurd (hyd ▸ hchild) hnot
      · exact unlinkFrom_eq h.trees hu hnot hv hchild
    rw [hvu]

/-! ### The subtree -/

theorem Rooted.removeFrom (h : s.Rooted r) : ∀ {fuel : ℕ} {u : DeviceTree} {cur : Option ℕ}
    {t : DeviceTree}, u.removeFrom fuel cur = some t →
    s.LeftOf u {x | ReflTransGen s.ChildOf d x} →
    (∀ c, cur = some c → ∃ x, ReflTransGen s.ChildOf d x ∧ s.ChildOf x c) →
    s.LeftOf t {x | ReflTransGen s.ChildOf d x}
  | fuel + 1, u, none, t, hf, hu, _ => some.inj hf ▸ hu
  | fuel + 1, u, some c, t, hf, hu, hcur => by
    obtain ⟨x, hx, hxc⟩ := hcur c rfl
    have hc : ReflTransGen s.ChildOf d c := hx.tail hxc
    have hmem := hxc.mem h.trees
    have hnext : ∀ y, (u.node c).next = some y → ∃ x, ReflTransGen s.ChildOf d x ∧ s.ChildOf x y :=
      fun y hy => ⟨x, hx, hxc.next hmem (hu.ptr .next c y hy)⟩
    unfold DeviceTree.removeFrom at hf
    split_ifs at hf
    · exact h.removeFrom hf hu hnext
    obtain ⟨v, hv, hf⟩ := bind_eq_some_iff.1 hf
    obtain ⟨w, hw, hf⟩ := bind_eq_some_iff.1 hf
    have hleft := h.removeFrom hv hu fun y hy => ⟨c, hc, .first hmem (hu.ptr .child c y hy)⟩
    rw [h.dropDevice_eq hleft hw] at hf
    exact h.removeFrom hf (hleft.zero hc) hnext

theorem Rooted.removeDevice (h : s.Rooted r) {st : Status} (hd : d ∈ s.blocks)
    (hroot : s.root ≠ some d) (hf : s.removeDevice fuel (some d) = some (st, t)) :
    s.LeftOf t {x | ReflTransGen s.ChildOf d x} ∧ d ∉ t.blocks := by
  simp only [DeviceTree.removeDevice, if_neg hroot] at hf
  obtain ⟨u, hu, hf⟩ := bind_eq_some_iff.1 hf
  obtain ⟨v, hv, hf⟩ := bind_eq_some_iff.1 hf
  obtain ⟨-, rfl⟩ := Prod.mk.inj (some.inj hf)
  have hleft := h.removeFrom hu (.refl _) fun y hy => ⟨d, .refl, .first hd hy⟩
  rw [h.dropDevice_eq hleft hv]
  exact ⟨hleft.zero .refl, by simp [DeviceTree.kfree]⟩

theorem childOf_points (hab : ReflTransGen s.ChildOf p c) : ReflTransGen s.Points p c := by
  induction hab with
  | refl => exact .refl
  | tail _ hc ih => exact ih.trans hc.transGen.to_reflTransGen

theorem LeftOf.path (h : s.Trees) (ht : s.LeftOf t {x | ReflTransGen s.ChildOf d x})
    (hx : ReflTransGen s.Points x d) : ReflTransGen (fun x y => ∃ f, t.ptr f x = some y) x d := by
  induction hx using ReflTransGen.head_induction_on with
  | refl => exact .refl
  | @head a b hab hbd ih =>
    have ha : ¬ ReflTransGen s.ChildOf d a := fun hda =>
      h.irrefl (TransGen.head' hab (hbd.trans (childOf_points hda)))
    obtain ⟨-, f, hf⟩ := hab
    refine ih.head ⟨f, ?_⟩
    rw [← hf]
    cases f <;> simp only [DeviceTree.ptr, ht.node a ha]

theorem Rooted.points_of_inTree (h : s.Rooted r) (hx : s.InTree x) : ReflTransGen s.Points r x := by
  obtain ⟨r', hr', hx⟩ := hx
  obtain rfl : r = r' := some.inj (h.root.symm.trans hr')
  induction hx with
  | refl => exact .refl
  | tail hb hc ih =>
    have hmem := h.mem_of_inTree ⟨r, hr', hb⟩
    exact ih.trans (h.trees.childOf hmem hc).transGen.to_reflTransGen

end DeviceTree

open DeviceTree in
/-- Whichever device is removed, the pointer to it is left in the tree. -/
theorem device_removal_leaves_pointer {s : DeviceTree} {d : ℕ} (h : s.Built) (hd : s.InTree d)
    (hroot : s.root ≠ some d) :
    ¬ ∃ fuel st t, s.removeDevice fuel (some d) = some (st, t) ∧ s.RemovesExactly t d := by
  rintro ⟨fuel, st, t, hf, hexact⟩
  obtain ⟨r, hr⟩ := h.rooted
  obtain ⟨hleft, hfreed⟩ := hr.removeDevice (hr.mem_of_inTree hd) hroot hf
  have hpath := hleft.path hr.trees (hr.points_of_inTree hd)
  rcases hpath.cases_tail with rfl | ⟨p, hp, f, hpd⟩
  · exact hroot hr.root
  · exact hfreed (hexact.live p ⟨r, hleft.root.trans hr.root, hp⟩ f d hpd)

theorem device_removal_leaves_pointer_cpuTree :
    ¬ ∃ fuel st t, cpuTree.removeDevice fuel (some 3) = some (st, t)
      ∧ cpuTree.RemovesExactly t 3 := by
  refine device_removal_leaves_pointer cpuTree_built ⟨1, rfl, ?_⟩ (by decide)
  refine (Relation.ReflTransGen.single ?_).tail (b := 2) ?_
  · decide +kernel
  · decide +kernel

/-- The first child of node 2 is the node that has been freed. -/
theorem device_removal_dangling :
    ((cpuTree.removeDevice 10 (some 3)).map fun r =>
      (r.1, (r.2.node 1).child, (r.2.node 2).child, r.2.blocks))
    = some (.ok, some 2, some 3, {1, 2}) := by
  decide +kernel

end DragonWare
