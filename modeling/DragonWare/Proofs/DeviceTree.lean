import DragonWare.DeviceTree
import DragonWare.Lib.LinkedList
import DragonWare.Proofs.Strings

/-!
# What `AddDevice` builds

Every node is pointed at by at most one pointer, and pointers rise in rank (`Trees`). `AddDevice`
sets one pointer, to a node that none pointed at.
-/

namespace DragonWare

open LinkedList List Option Relation

namespace DeviceTree

variable {new p : ℕ} {parent : Option ℕ}

inductive Field
  | child
  | next
  deriving DecidableEq

variable {s t : DeviceTree} {f f' : Field} {a a' b r : ℕ}

def ptr (s : DeviceTree) : Field → ℕ → Option ℕ
  | .child, a => (s.node a).child
  | .next, a => (s.node a).next

def setPtr (s : DeviceTree) : Field → ℕ → Option ℕ → DeviceTree
  | .child, a, c => s.setChild a c
  | .next, a, c => s.setNext a c

theorem ptr_setPtr (s : DeviceTree) (f f' : Field) (a a' : ℕ) (c : Option ℕ) :
    (s.setPtr f a c).ptr f' a' = if f = f' ∧ a = a' then c else s.ptr f' a' := by
  by_cases ha : a = a'
  · subst ha
    cases f <;> cases f' <;> simp [setPtr, ptr, setChild, setNext, setNode]
  · have ha' : a' ≠ a := Ne.symm ha
    cases f <;> cases f' <;> simp [setPtr, ptr, setChild, setNext, setNode, ha, ha']

@[simp] theorem setPtr_blocks (s : DeviceTree) (f : Field) (a : ℕ) (c : Option ℕ) :
    (s.setPtr f a c).blocks = s.blocks := by
  cases f <;> rfl

@[simp] theorem setPtr_root (s : DeviceTree) (f : Field) (a : ℕ) (c : Option ℕ) :
    (s.setPtr f a c).root = s.root := by
  cases f <;> rfl

theorem setPtr_name (s : DeviceTree) (f : Field) (a : ℕ) (c : Option ℕ) (x : ℕ) :
    ((s.setPtr f a c).node x).name = (s.node x).name := by
  by_cases hx : x = a
  · subst hx
    cases f <;> simp [setPtr, setChild, setNext, setNode]
  · cases f <;> simp [setPtr, setChild, setNext, setNode, hx]

def Points (s : DeviceTree) (a b : ℕ) : Prop := a ∈ s.blocks ∧ ∃ f, s.ptr f a = some b

structure Trees (s : DeviceTree) : Prop where
  mem : ∀ a b, s.Points a b → b ∈ s.blocks
  unique : ∀ f f' a a' b, a ∈ s.blocks → a' ∈ s.blocks → s.ptr f a = some b →
    s.ptr f' a' = some b → f = f' ∧ a = a'
  rank : ∃ rank : ℕ → ℕ, ∀ a b, s.Points a b → rank a < rank b

theorem Trees.pred_unique (h : s.Trees) (hab : s.Points a b) (hab' : s.Points a' b) : a = a' := by
  obtain ⟨ha, f, hf⟩ := hab
  obtain ⟨ha', f', hf'⟩ := hab'
  exact (h.unique f f' a a' b ha ha' hf hf').2

theorem Trees.anti (h : s.Trees) (hblocks : t.blocks = s.blocks)
    (hptr : ∀ f a b, t.ptr f a = some b → s.ptr f a = some b) : t.Trees := by
  have hpoints : ∀ a b, t.Points a b → s.Points a b := by
    rintro a b ⟨ha, f, hf⟩
    exact ⟨hblocks ▸ ha, f, hptr f a b hf⟩
  refine ⟨fun a b hab => ?_, fun f f' a a' b ha ha' hf hf' => ?_, ?_⟩
  · rw [hblocks]
    exact h.mem a b (hpoints a b hab)
  · exact h.unique f f' a a' b (hblocks ▸ ha) (hblocks ▸ ha') (hptr f a b hf) (hptr f' a' b hf')
  · obtain ⟨rank, hrank⟩ := h.rank
    exact ⟨rank, fun a b hab => hrank a b (hpoints a b hab)⟩

theorem Trees.comparable (h : s.Trees) (hab : ReflTransGen s.Points a b)
    (hab' : ReflTransGen s.Points a' b) :
    ReflTransGen s.Points a a' ∨ ReflTransGen s.Points a' a := by
  have hunique : Relator.RightUnique (Function.swap s.Points) :=
    fun _ _ _ hx hy => h.pred_unique hx hy
  rcases ReflTransGen.total_of_right_unique hunique hab.swap hab'.swap with hle | hle
  · exact .inr hle.swap
  · exact .inl hle.swap

theorem Trees.link (h : s.Trees) (hnew : new ∈ s.blocks) (htop : ∀ x, ¬ s.Points x new)
    (hbelow : ¬ ReflTransGen s.Points new a) : (s.setPtr f a (some new)).Trees := by
  -- each pointer is an old one or the new one
  have hcases : ∀ f' x y, (s.setPtr f a (some new)).ptr f' x = some y →
      s.ptr f' x = some y ∨ f = f' ∧ a = x ∧ new = y := by
    intro f' x y hxy
    rw [ptr_setPtr] at hxy
    split_ifs at hxy with hfa
    · exact .inr ⟨hfa.1, hfa.2, some.inj hxy⟩
    · exact .inl hxy
  refine ⟨?_, ?_, ?_⟩
  · rintro x y ⟨hx, f', hf'⟩
    rw [setPtr_blocks] at hx ⊢
    obtain hold | ⟨-, -, rfl⟩ := hcases f' x y hf'
    · exact h.mem x y ⟨hx, f', hold⟩
    · exact hnew
  · intro f1 f2 x x' y hx hx' h1 h2
    rw [setPtr_blocks] at hx hx'
    obtain hold1 | ⟨rfl, rfl, rfl⟩ := hcases f1 x y h1 <;>
      obtain hold2 | ⟨rfl, rfl, hy⟩ := hcases f2 x' _ h2
    · exact h.unique f1 f2 x x' y hx hx' hold1 hold2
    · exact absurd ⟨hx, f1, hy ▸ hold1⟩ (htop x)
    · exact absurd ⟨hx', f2, hold2⟩ (htop x')
    · exact ⟨rfl, rfl⟩
  · classical
    obtain ⟨rank, hrank⟩ := h.rank
    -- what is below the new node is moved up past `a`
    refine ⟨fun z => if ReflTransGen s.Points new z then rank z + rank a + 1 else rank z, ?_⟩
    rintro x y ⟨hx, f', hf'⟩
    rw [setPtr_blocks] at hx
    obtain hold | ⟨rfl, rfl, rfl⟩ := hcases f' x y hf'
    · have hxy : s.Points x y := ⟨hx, f', hold⟩
      have hlt := hrank x y hxy
      by_cases hnx : ReflTransGen s.Points new x
      · simp only [if_pos hnx, if_pos (hnx.tail hxy)]
        omega
      have hny : ¬ ReflTransGen s.Points new y := by
        intro hny
        rcases hny.cases_tail with rfl | ⟨z, hnz, hzy⟩
        · exact htop x hxy
        · exact hnx (h.pred_unique hzy hxy ▸ hnz)
      simp only [if_neg hnx, if_neg hny]
      exact hlt
    · simp only [if_neg hbelow, if_pos ReflTransGen.refl]
      omega

theorem ptr_newNode {name : List (BitVec 8)} (h : (s.newNode r name).ptr f a = some b) :
    a ≠ r ∧ s.ptr f a = some b := by
  by_cases ha : a = r
  · subst ha
    cases f <;> simp [newNode, ptr, setNode, zeroNode] at h
  · refine ⟨ha, ?_⟩
    cases f <;> simpa [newNode, ptr, setNode, ha] using h

theorem points_newNode {name : List (BitVec 8)} (h : (s.newNode r name).Points a b) :
    s.Points a b := by
  obtain ⟨ha, f, hf⟩ := h
  obtain ⟨hne, hf⟩ := ptr_newNode hf
  exact ⟨(Finset.mem_insert.1 ha).resolve_left hne, f, hf⟩

theorem Trees.newNode (h : s.Trees) (r : ℕ) (name : List (BitVec 8)) :
    (s.newNode r name).Trees := by
  refine ⟨fun x y hxy => Finset.mem_insert_of_mem (h.mem x y (points_newNode hxy)), ?_, ?_⟩
  · intro f f' x x' y hx hx' hf hf'
    obtain ⟨hne, hf⟩ := ptr_newNode hf
    obtain ⟨hne', hf'⟩ := ptr_newNode hf'
    exact h.unique f f' x x' y ((Finset.mem_insert.1 hx).resolve_left hne)
      ((Finset.mem_insert.1 hx').resolve_left hne') hf hf'
  · obtain ⟨rank, hrank⟩ := h.rank
    exact ⟨rank, fun x y hxy => hrank x y (points_newNode hxy)⟩

theorem Trees.lastFrom_some (h : s.Trees) : ∀ {fuel a b : ℕ}, s.lastFrom fuel a = some b →
    a ∈ s.blocks → ReflTransGen s.Points a b
  | fuel + 1, a, b, hl, ha => by
    unfold lastFrom at hl
    cases hnext : (s.node a).next with
    | none =>
      rw [hnext] at hl
      exact some.inj hl ▸ .refl
    | some c =>
      rw [hnext] at hl
      have hac : s.Points a c := ⟨ha, .next, hnext⟩
      exact (h.lastFrom_some hl (h.mem a c hac)).head hac

theorem addDevice_cases (h : s.Trees) (hp : parent.or s.root = some p) (hpb : p ∈ s.blocks)
    (hadd : s.addDevice parent new = some t) :
    ∃ f a, t = (s.setPtr .next new none).setPtr f a (some new)
      ∧ ReflTransGen (s.setPtr .next new none).Points p a := by
  have hclear : (s.setPtr .next new none).Trees := h.anti rfl fun f x y hxy => by
    rw [ptr_setPtr] at hxy
    split_ifs at hxy
    exact hxy
  unfold addDevice at hadd
  simp only [hp] at hadd
  cases hchild : ((s.setNext new none).node p).child with
  | none =>
    rw [hchild] at hadd
    obtain rfl := some.inj hadd
    exact ⟨.child, p, rfl, .refl⟩
  | some first =>
    rw [hchild] at hadd
    obtain ⟨iter, hiter, ht⟩ := bind_eq_some_iff.1 hadd
    obtain rfl := some.inj ht
    have hpf : (s.setPtr .next new none).Points p first := ⟨hpb, .child, hchild⟩
    have hfi := hclear.lastFrom_some hiter (hclear.mem p first hpf)
    exact ⟨.next, iter, rfl, hfi.head hpf⟩

/-! ### Names -/

structure HasName (s : DeviceTree) (a : ℕ) (name : List (BitVec 8)) : Prop where
  array : (s.node a).name = name ++ replicate (maxDeviceNodeName - name.length) 0
  noNul : 0 ∉ name
  short : name.length < maxDeviceNodeName

def nameOf (s : DeviceTree) (a : ℕ) : List (BitVec 8) := (s.node a).name.takeWhile (· ≠ 0)

variable {name : List (BitVec 8)}

theorem HasName.nameOf (h : s.HasName a name) : s.nameOf a = name := by
  have hname : ∀ c ∈ name, decide (c ≠ 0) = true := by
    intro c hc
    have hne : c ≠ 0 := fun h0 => h.noNul (h0 ▸ hc)
    simpa using hne
  rw [DeviceTree.nameOf, h.array, takeWhile_append_of_pos hname, takeWhile_replicate]
  simp

theorem HasName.nameAt (h : s.HasName a name) : s.nameAt a = fun i => name.getD i 0 := by
  funext i
  rw [DeviceTree.nameAt, h.array, getD_append_zeros]

theorem HasName.congr (h : s.HasName a name) (ht : (t.node a).name = (s.node a).name) :
    t.HasName a name :=
  ⟨ht ▸ h.array, h.noNul, h.short⟩

theorem hasName_newNode (h : 0 ∉ name) :
    (s.newNode a name).HasName a (name.take (maxDeviceNodeName - 1)) where
  array := by
    simp only [newNode, setNode, Function.update_self]
    exact strncpy_set h (by decide)
  noNul hmem := h (mem_of_mem_take hmem)
  short := by
    rw [length_take]
    exact (min_le_left _ _).trans_lt (by decide)

/-! ### Trees that `AddDevice` builds -/

/-- From the root on, nodes are made, and each is added once: to a node that is not below it. -/
inductive Built : DeviceTree → Prop
  | init {s : DeviceTree} {a : ℕ} (hroot : s.root = none) (hblocks : s.blocks = ∅) :
      Built (s.initDeviceManager (some a)).2
  | make {s : DeviceTree} {a : ℕ} {name : Option CString} (h : Built s) (ha : a ∉ s.blocks) :
      Built (s.makeDeviceNode name (some a)).2
  | add {s t : DeviceTree} {parent : Option ℕ} {p new : ℕ} (h : Built s)
      (hp : parent.or s.root = some p) (hpb : p ∈ s.blocks)
      (hnew : new ∈ s.blocks) (htop : ∀ x, ¬ s.Points x new) (hroot : s.root ≠ some new)
      (hbelow : ¬ ReflTransGen s.Points new p) (hadd : s.addDevice parent new = some t) : Built t

/-- Trees, of which one has the root at its top. -/
structure Rooted (s : DeviceTree) (r : ℕ) : Prop where
  trees : s.Trees
  root : s.root = some r
  mem : r ∈ s.blocks
  top : ∀ x, ¬ s.Points x r
  names : ∀ a ∈ s.blocks, s.HasName a (s.nameOf a)
  rootName : s.nameOf r = rootDeviceName

theorem nameOf_newNode (ha : a ≠ b) : (s.newNode b name).nameOf a = s.nameOf a := by
  simp [nameOf, newNode, setNode, ha]

theorem names_newNode (h : ∀ x ∈ s.blocks, s.HasName x (s.nameOf x)) (hname : 0 ∉ name) :
    ∀ x ∈ (s.newNode a name).blocks,
      (s.newNode a name).HasName x ((s.newNode a name).nameOf x) := by
  intro x hx
  by_cases hxa : x = a
  · subst hxa
    have hnew := hasName_newNode (s := s) (a := x) hname
    rwa [hnew.nameOf]
  · rw [nameOf_newNode hxa]
    refine (h x ((Finset.mem_insert.1 hx).resolve_left hxa)).congr ?_
    simp [newNode, setNode, hxa]

theorem Rooted.newNode (h : s.Rooted r) (ha : a ∉ s.blocks) (hname : 0 ∉ name) :
    (s.newNode a name).Rooted r where
  trees := h.trees.newNode a name
  root := h.root
  mem := Finset.mem_insert_of_mem h.mem
  top x hx := h.top x (points_newNode hx)
  names := names_newNode h.names hname
  rootName := by
    have hne : r ≠ a := by
      rintro rfl
      exact ha h.mem
    rw [nameOf_newNode hne]
    exact h.rootName

theorem Rooted.makeDeviceNode (h : s.Rooted r) (ha : a ∉ s.blocks) (name : Option CString) :
    (s.makeDeviceNode name (some a)).2.Rooted r := by
  unfold DeviceTree.makeDeviceNode
  cases name with
  | none => exact h
  | some n =>
    dsimp only
    split_ifs
    · exact h
    · exact h
    · exact h.newNode ha n.noNul

theorem rooted_init (hroot : s.root = none) (hblocks : s.blocks = ∅) :
    (s.initDeviceManager (some a)).2.Rooted a := by
  have hempty : s.Trees :=
    ⟨fun x y hxy => by simpa [hblocks] using hxy.1, fun f f' x x' y hx => by simp [hblocks] at hx,
      ⟨fun _ => 0, fun x y hxy => by simpa [hblocks] using hxy.1⟩⟩
  have hno : ∀ x y, ¬ (s.newNode a rootDeviceName).Points x y := by
    intro x y hxy
    simpa [hblocks] using (points_newNode hxy).1
  have hname : (0 : BitVec 8) ∉ rootDeviceName := by decide
  simp only [initDeviceManager, hroot, isSome_none, Bool.false_eq_true, if_false]
  refine ⟨(hempty.newNode a rootDeviceName).anti rfl fun f x y hxy => hxy, rfl,
    Finset.mem_insert_self _ _, fun x hx => hno x a hx, fun x hx => ?_, ?_⟩
  · have hx' := names_newNode (s := s) (a := a) (fun x hx => by simp [hblocks] at hx) hname x hx
    exact ⟨hx'.array, hx'.noNul, hx'.short⟩
  · exact (hasName_newNode (s := s) (a := a) hname).nameOf

theorem Rooted.setPtr (h : s.Rooted r) {c : Option ℕ} (htrees : (s.setPtr f a c).Trees)
    (hc : c ≠ some r) : (s.setPtr f a c).Rooted r where
  trees := htrees
  root := by rw [setPtr_root, h.root]
  mem := by rw [setPtr_blocks]; exact h.mem
  top := by
    rintro x ⟨hx, f', hf'⟩
    rw [setPtr_blocks] at hx
    rw [ptr_setPtr] at hf'
    split_ifs at hf'
    · exact hc hf'
    · exact h.top x ⟨hx, f', hf'⟩
  names x hx := by
    rw [setPtr_blocks] at hx
    have hname := setPtr_name s f a c x
    rw [show (s.setPtr f a c).nameOf x = s.nameOf x by simp only [nameOf, hname]]
    exact (h.names x hx).congr hname
  rootName := by
    simp only [nameOf, setPtr_name]
    exact h.rootName

theorem Rooted.addDevice (h : s.Rooted r) (hp : parent.or s.root = some p) (hpb : p ∈ s.blocks)
    (hnew : new ∈ s.blocks) (htop : ∀ x, ¬ s.Points x new) (hroot : s.root ≠ some new)
    (hbelow : ¬ ReflTransGen s.Points new p) (hadd : s.addDevice parent new = some t) :
    t.Rooted r := by
  obtain ⟨f, a, rfl, hreach⟩ := addDevice_cases h.trees hp hpb hadd
  have hptr : ∀ f x y, (s.setPtr .next new none).ptr f x = some y → s.ptr f x = some y := by
    intro f x y hxy
    rw [ptr_setPtr] at hxy
    split_ifs at hxy
    exact hxy
  have hclear : (s.setPtr .next new none).Rooted r :=
    h.setPtr (h.trees.anti rfl hptr) (by simp)
  have hle : ∀ x y, (s.setPtr .next new none).Points x y → s.Points x y := by
    rintro x y ⟨hx, f, hf⟩
    exact ⟨hx, f, hptr f x y hf⟩
  have htop' : ∀ x, ¬ (s.setPtr .next new none).Points x new := fun x hx => htop x (hle x new hx)
  have hbelow' : ¬ ReflTransGen (s.setPtr .next new none).Points new a := by
    intro hna
    rcases hclear.trees.comparable hna hreach with hle' | hle'
    · exact hbelow (ReflTransGen.mono hle _ _ hle')
    · rcases hle'.cases_tail with rfl | ⟨x, -, hx⟩
      · exact hbelow .refl
      · exact htop' x hx
  refine hclear.setPtr (hclear.trees.link hnew htop' hbelow') ?_
  rw [← h.root]
  exact hroot.symm

theorem Built.rooted (h : s.Built) : ∃ r, s.Rooted r := by
  induction h with
  | init hroot hblocks => exact ⟨_, rooted_init hroot hblocks⟩
  | make _ ha ih =>
    obtain ⟨r, hr⟩ := ih
    exact ⟨r, hr.makeDeviceNode ha _⟩
  | add _ hp hpb hnew htop hroot hbelow hadd ih =>
    obtain ⟨r, hr⟩ := ih
    exact ⟨r, hr.addDevice hp hpb hnew htop hroot hbelow hadd⟩

/-- A node is made and added, as drivers do it. -/
def plant (s : DeviceTree) (parent : Option ℕ) (name : CString) (block : ℕ) : DeviceTree :=
  match s.makeDeviceNode (some name) (some block) with
  | (some a, s) => (s.addDevice parent a).getD s
  | (none, s) => s

theorem Built.plant (h : s.Built) (ha : a ∉ s.blocks) (hp : parent.or s.root = some p)
    (hpb : p ∈ s.blocks) (name : CString) : (s.plant parent name a).Built := by
  obtain ⟨r, hr⟩ := h.rooted
  have hmake : (s.makeDeviceNode (some name) (some a)).2.Built := .make h ha
  unfold DeviceTree.plant
  unfold makeDeviceNode at hmake ⊢
  dsimp only at hmake ⊢
  split_ifs at hmake ⊢
  · exact h
  · exact h
  -- nothing points at the new node, and it points at nothing
  have htop : ∀ x, ¬ (s.newNode a name.chars).Points x a :=
    fun x hx => ha (hr.trees.mem x a (points_newNode hx))
  have hroot : (s.newNode a name.chars).root ≠ some a := fun hroot =>
    ha (some.inj (hr.root.symm.trans hroot) ▸ hr.mem)
  have hbelow : ¬ ReflTransGen (s.newNode a name.chars).Points a p := by
    intro hap
    rcases hap.cases_head with rfl | ⟨x, hx, -⟩
    · exact ha hpb
    · exact ha (points_newNode hx).1
  change (((s.newNode a name.chars).addDevice parent a).getD _).Built
  cases hadd : (s.newNode a name.chars).addDevice parent a with
  | none => exact hmake
  | some t =>
    exact .add hmake hp (Finset.mem_insert_of_mem hpb) (Finset.mem_insert_self _ _) htop hroot
      hbelow hadd

def bootTree (a : ℕ) : DeviceTree :=
  ((⟨none, fun _ => zeroNode, ∅⟩ : DeviceTree).initDeviceManager (some a)).2

theorem built_bootTree (a : ℕ) : (bootTree a).Built := .init rfl rfl

/-! ### Children -/

def children (s : DeviceTree) (a : ℕ) : List ℕ :=
  cells (fun c => (s.node c).next) s.blocks.card (s.node a).child

theorem Trees.walk (h : s.Trees) (ha : a ∈ s.blocks) :
    Walk (fun c => (s.node c).next) (s.node a).child (s.children a) ∧ (s.children a).Nodup
      ∧ ∀ b ∈ s.children a, b ∈ s.blocks := by
  obtain ⟨rank, hrank⟩ := h.rank
  obtain ⟨l, hw, hnd, hmem⟩ : ∃ l, Walk (fun c => (s.node c).next) (s.node a).child l ∧ l.Nodup
      ∧ ∀ b ∈ l, b ∈ s.blocks := by
    cases hchild : (s.node a).child with
    | none => exact ⟨[], rfl, by simp, by simp⟩
    | some b =>
      have hb : b ∈ s.blocks := h.mem a b ⟨ha, .child, hchild⟩
      have hnext : ∀ x ∈ s.blocks, ∀ y, (s.node x).next = some y → s.Points x y :=
        fun x hx y hy => ⟨hx, .next, hy⟩
      obtain ⟨l, hw, hnd, hmem, -⟩ := exists_walk (fun x hx y hy => h.mem x y (hnext x hx y hy))
        (fun x hx y hy => hrank x y (hnext x hx y hy)) _ b hb (Nat.lt_succ_self _)
      exact ⟨b :: l, hw, hnd, hmem⟩
  have hlen : l.length ≤ s.blocks.card := by
    rw [← toFinset_card_of_nodup hnd]
    exact Finset.card_le_card fun b hb => hmem b (List.mem_toFinset.1 hb)
  rw [children, hw.cells_eq hlen]
  exact ⟨hw, hnd, hmem⟩

inductive ChildOf (s : DeviceTree) (a : ℕ) : ℕ → Prop
  | first {b : ℕ} (ha : a ∈ s.blocks) (hb : s.ptr .child a = some b) : ChildOf s a b
  | next {b c : ℕ} (hb : ChildOf s a b) (hmem : b ∈ s.blocks) (hc : s.ptr .next b = some c) :
      ChildOf s a c

theorem ChildOf.unique (h : s.Trees) (hab : s.ChildOf a b) (hab' : s.ChildOf a' b) : a = a' := by
  induction hab with
  | first ha hb =>
    cases hab' with
    | first ha' hb' => exact (h.unique _ _ _ _ _ ha ha' hb hb').2
    | next _ hmem hc => exact absurd (h.unique _ _ _ _ _ ha hmem hb hc).1 (by simp)
  | next _ hmem hc ih =>
    cases hab' with
    | first ha' hb' => exact absurd (h.unique _ _ _ _ _ ha' hmem hb' hc).1 (by simp)
    | next hprev hmem' hc' => exact ih ((h.unique _ _ _ _ _ hmem hmem' hc hc').2 ▸ hprev)

theorem ChildOf.transGen (hab : s.ChildOf a b) : TransGen s.Points a b := by
  induction hab with
  | first ha hb => exact .single ⟨ha, .child, hb⟩
  | next _ hmem hc ih => exact ih.tail ⟨hmem, .next, hc⟩

theorem Trees.irrefl (h : s.Trees) : ¬ TransGen s.Points a a := by
  obtain ⟨rank, hrank⟩ := h.rank
  intro haa
  have hlt : ∀ {x y}, TransGen s.Points x y → rank x < rank y := by
    intro x y hxy
    induction hxy with
    | single hb => exact hrank _ _ hb
    | tail _ hc ih => exact ih.trans (hrank _ _ hc)
  exact lt_irrefl _ (hlt haa)

theorem childOf_of_walk : ∀ {l : List ℕ} {p : Option ℕ},
    Walk (fun c => (s.node c).next) p l → (∀ c, p = some c → s.ChildOf a c) →
    (∀ c ∈ l, c ∈ s.blocks) → ∀ b ∈ l, s.ChildOf a b
  | c :: l, p, hw, hp, hmem, b, hb => by
    have hc := hp c hw.1
    rcases mem_cons.1 hb with rfl | hb
    · exact hc
    · refine childOf_of_walk hw.2 (fun d hd => ?_) (fun d hd => hmem d (.tail _ hd)) b hb
      exact hc.next (hmem c mem_cons_self) hd

theorem Trees.childOf (h : s.Trees) (ha : a ∈ s.blocks) (hb : b ∈ s.children a) :
    s.ChildOf a b := by
  obtain ⟨hw, -, hmem⟩ := h.walk ha
  exact childOf_of_walk hw (fun c hc => .first ha hc) hmem b hb

end DeviceTree

end DragonWare
