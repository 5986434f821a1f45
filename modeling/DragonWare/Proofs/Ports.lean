import DragonWare.Lib.LinkedList
import DragonWare.Lib.Run
import DragonWare.Ports
import DragonWare.Proofs.Strings

/-!
# The list of global ports is a map from names

The nodes of the list, their ports and names make up a list of entries (`Registry`), which by its
names is a finite map (`port_registry_refines_map`). Blocks are lost for a name that is too long and
for a port without a name (`port_blocks_conserved_iff`).
-/

namespace DragonWare

open Function LinkedList List Option

/-! ### The entries of the list -/

structure PortEntry where
  node : ℕ
  port : ℕ
  name : List (BitVec 8)

namespace PortHeap

variable {s t : PortHeap} {L : List PortEntry} {e : PortEntry}
variable {a p : ℕ} {name : List (BitVec 8)}

structure Holds (s : PortHeap) (e : PortEntry) : Prop where
  port : (s.node e.node).port = e.port
  name : (s.port e.port).name = e.name ++ replicate (maxPortName - e.name.length) 0
  noNul : 0 ∉ e.name
  short : e.name.length < maxPortName
  node_mem : e.node ∈ s.blocks
  port_mem : e.port ∈ s.blocks

/-- The list of global ports, with every block in it there once and every name once. -/
structure Registry (s : PortHeap) (L : List PortEntry) : Prop where
  walk : Walk (fun c => (s.node c).next) s.portListHead (L.map PortEntry.node)
  holds : ∀ e ∈ L, s.Holds e
  blocks : (L.map PortEntry.node ++ L.map PortEntry.port).Nodup
  names : (L.map PortEntry.name).Nodup

theorem Holds.nameAt (h : s.Holds e) : s.nameAt e.port = fun i => e.name.getD i 0 := by
  funext i
  rw [PortHeap.nameAt, h.name, getD_append_zeros]

theorem Holds.strncmp (h : s.Holds e) (name : CString) :
    strncmp (s.nameAt e.port) name.at maxPortName = 0 ↔ e.name = name.chars := by
  rw [h.nameAt]
  exact (strncmp_eq_zero h.noNul name.noNul _).trans (eq_of_take_eq h.short)

theorem Registry.length_le (h : s.Registry L) : L.length ≤ s.blocks.card := by
  have hnodes := (nodup_append.1 h.blocks).1
  calc L.length = (L.map PortEntry.node).toFinset.card := by
        rw [toFinset_card_of_nodup hnodes, length_map]
    _ ≤ s.blocks.card := by
        refine Finset.card_le_card fun c hc => ?_
        obtain ⟨e, he, rfl⟩ := List.mem_map.1 (List.mem_toFinset.1 hc)
        exact (h.holds e he).node_mem

def entryNamed (name : List (BitVec 8)) (L : List PortEntry) : Option PortEntry :=
  L.find? fun e => e.name = name

theorem findFrom_eq (name : CString) : ∀ (L : List PortEntry) {fuel : ℕ} {p : Option ℕ},
    Walk (fun c => (s.node c).next) p (L.map PortEntry.node) → (∀ e ∈ L, s.Holds e) →
    L.length < fuel →
    s.findFrom name fuel p = some ((entryNamed name.chars L).map PortEntry.port)
  | _, 0, _, _, _, hfuel => by omega
  | [], fuel + 1, p, hw, _, _ => by
    rw [show p = none from hw]
    rfl
  | e :: L, fuel + 1, p, hw, hL, hfuel => by
    have he := hL e mem_cons_self
    rw [hw.1, findFrom, he.port, entryNamed, find?_cons]
    by_cases hn : e.name = name.chars
    · simp [(he.strncmp name).2 hn, hn]
    · simp only [(he.strncmp name).not.2 hn, hn, if_false, decide_false]
      exact findFrom_eq name L hw.2 (fun e' he' => hL e' (mem_cons_of_mem _ he'))
        (Nat.lt_of_succ_lt_succ hfuel)

theorem Registry.findPortByName (h : s.Registry L) (name : CString) :
    s.findPortByName name = some ((entryNamed name.chars L).map PortEntry.port) :=
  findFrom_eq name L h.walk h.holds (Nat.lt_succ_of_le h.length_le)

theorem entryNamed_some (h : entryNamed name L = some e) : e ∈ L ∧ e.name = name :=
  ⟨mem_of_find?_eq_some h, by simpa using find?_some h⟩

theorem entryNamed_none : entryNamed name L = none ↔ ∀ e ∈ L, e.name ≠ name := by
  simp [entryNamed]

theorem Holds.frame (h : s.Holds e) (hnode : (t.node e.node).port = (s.node e.node).port)
    (hport : t.port e.port = s.port e.port) (hn : e.node ∈ t.blocks) (hp : e.port ∈ t.blocks) :
    t.Holds e :=
  ⟨hnode.trans h.port, hport ▸ h.name, h.noNul, h.short, hn, hp⟩

/-! ### Creation -/

section

variable (h : s.Registry L)

include h

theorem Registry.kmalloc (a : ℕ) : (s.kmalloc a).Registry L where
  walk := h.walk
  holds e he := (h.holds e he).frame rfl rfl (Finset.mem_insert_of_mem (h.holds e he).node_mem)
    (Finset.mem_insert_of_mem (h.holds e he).port_mem)
  blocks := h.blocks
  names := h.names

theorem Registry.kfree (ha : ∀ e ∈ L, e.node ≠ a ∧ e.port ≠ a) :
    (s.kfree a).Registry L where
  walk := h.walk
  holds e he := (h.holds e he).frame rfl rfl
    (Finset.mem_erase.2 ⟨(ha e he).1, (h.holds e he).node_mem⟩)
    (Finset.mem_erase.2 ⟨(ha e he).2, (h.holds e he).port_mem⟩)
  blocks := h.blocks
  names := h.names

theorem Registry.initPort (ha : ∀ e ∈ L, e.port ≠ a) (name : Option CString)
    (owner : ℕ) : (s.initPort a name owner).Registry L where
  walk := h.walk
  holds e he := (h.holds e he).frame rfl (update_of_ne (ha e he) _ _)
    (h.holds e he).node_mem (h.holds e he).port_mem
  blocks := h.blocks
  names := h.names

theorem Registry.fresh (ha : a ∉ s.blocks) : ∀ e ∈ L, e.node ≠ a ∧ e.port ≠ a := by
  intro e he
  constructor
  · rintro rfl
    exact ha (h.holds e he).node_mem
  · rintro rfl
    exact ha (h.holds e he).port_mem

theorem Registry.push
    (hfree : ∀ e' ∈ L, e'.node ≠ e.node ∧ e'.node ≠ e.port
      ∧ e'.port ≠ e.node ∧ e'.port ≠ e.port) (hne : e.node ≠ e.port)
    (hname : entryNamed e.name L = none) (he : t.Holds e)
    (hnext : (t.node e.node).next = s.portListHead) (hhead : t.portListHead = some e.node)
    (hports : t.port = s.port) (hnode : ∀ c, c ≠ e.node → t.node c = s.node c)
    (hblocks : s.blocks ⊆ t.blocks) :
    t.Registry (e :: L) where
  walk := by
    refine ⟨hhead, ?_⟩
    simp only [hnext]
    refine h.walk.congr fun c hc => ?_
    obtain ⟨e', he', rfl⟩ := List.mem_map.1 hc
    rw [hnode _ (hfree e' he').1]
  holds e' he' := by
    rcases mem_cons.1 he' with rfl | he'
    · exact he
    · have h' := h.holds e' he'
      exact h'.frame (by rw [hnode _ (hfree e' he').1]) (by rw [hports]) (hblocks h'.node_mem)
        (hblocks h'.port_mem)
  blocks := by
    have hold := h.blocks
    simp only [map_cons, cons_append, nodup_cons, nodup_append, mem_append,
      mem_cons, List.mem_map, not_or] at hold ⊢
    refine ⟨⟨?_, hne, ?_⟩, hold.1, ⟨?_, hold.2.1⟩, ?_⟩
    · rintro ⟨e', he', heq⟩
      exact (hfree e' he').1 heq
    · rintro ⟨e', he', heq⟩
      exact (hfree e' he').2.2.1 heq
    · rintro ⟨e', he', heq⟩
      exact (hfree e' he').2.2.2 heq
    · rintro c ⟨e', he', rfl⟩ d (rfl | hd)
      · exact (hfree e' he').2.1
      · exact hold.2.2 _ ⟨e', he', rfl⟩ d hd
  names := by
    refine nodup_cons.2 ⟨fun hmem => ?_, h.names⟩
    obtain ⟨e', he', heq⟩ := List.mem_map.1 hmem
    exact entryNamed_none.1 hname e' he' heq

end

/-- What `CreatePort` can do, with the entries `L` before and the block it was given for the port
and for the node. -/
inductive CreateOutcome (s : PortHeap) (L : List PortEntry) (owner : ℕ) :
    Option CString → Option ℕ → Option ℕ → Status × Option ℕ × PortHeap → Prop
  | found {n pb nb} (hn : entryNamed n.chars L ≠ none) :
      CreateOutcome s L owner (some n) pb nb (.unsupported, none, s)
  | noPort {name nb} : CreateOutcome s L owner name none nb (.outOfMemory, none, s)
  | tooLong {n a nb} (hn : entryNamed n.chars L = none) (hlong : maxPortName ≤ n.chars.length) :
      CreateOutcome s L owner (some n) (some a) nb (.badArgument, none, s.kmalloc a)
  | unnamed {a nb} : CreateOutcome s L owner none (some a) nb
      (.ok, some a, (s.kmalloc a).initPort a none owner)
  | noNode {n a t} (hn : entryNamed n.chars L = none) (hshort : n.chars.length < maxPortName)
      (ht : t.Registry L) (hb : t.blocks = s.blocks) :
      CreateOutcome s L owner (some n) (some a) none (.outOfMemory, none, t)
  | registered {n a b t} (hn : entryNamed n.chars L = none)
      (hshort : n.chars.length < maxPortName) (ht : t.Registry (⟨b, a, n.chars⟩ :: L))
      (hb : t.blocks = insert b (insert a s.blocks)) :
      CreateOutcome s L owner (some n) (some a) (some b) (.ok, some a, t)

theorem Registry.createPort (h : s.Registry L) {pb nb : Option ℕ} (hf : s.Fresh pb nb)
    (name : Option CString) (owner : ℕ) :
    ∃ r, s.createPort name owner pb nb = some r ∧ CreateOutcome s L owner name pb nb r := by
  unfold PortHeap.createPort
  cases name with
  | none =>
    cases pb with
    | none => exact ⟨_, rfl, .noPort⟩
    | some a => exact ⟨_, rfl, .unnamed⟩
  | some n =>
    simp only [elim_some, h.findPortByName, bind_eq_bind, bind_some]
    cases hn : entryNamed n.chars L with
    | some e => exact ⟨_, rfl, .found (by rw [hn]; exact some_ne_none e)⟩
    | none =>
      cases pb with
      | none => exact ⟨_, rfl, .noPort⟩
      | some a =>
        have ha := h.fresh (hf.1 a rfl)
        rcases le_or_gt maxPortName n.chars.length with hlong | hshort
        · exact ⟨_, by simp [hlong], .tooLong hn hlong⟩
        have hinit := (h.kmalloc a).initPort (fun e he => (ha e he).2) (some n) owner
        cases nb with
        | none =>
          refine ⟨_, by simp [hshort.not_ge], .noNode hn hshort (hinit.kfree ha) ?_⟩
          exact Finset.erase_insert (hf.1 a rfl)
        | some b =>
          obtain ⟨hbs, hab⟩ := hf.2 b rfl
          have hb := h.fresh hbs
          have hne : b ≠ a := fun heq => hab (by rw [heq])
          refine ⟨_, by simp only [if_neg hshort.not_ge]; rfl, ?_⟩
          refine .registered hn hshort
            (hinit.push (e := ⟨b, a, n.chars⟩) ?_ hne hn ?_ ?_ rfl rfl ?_ ?_) rfl
          · exact fun e he => ⟨(hb e he).1, (ha e he).1, (hb e he).2, (ha e he).2⟩
          · refine ⟨?_, ?_, n.noNul, hshort, Finset.mem_insert_self _ _,
              Finset.mem_insert_of_mem (Finset.mem_insert_self _ _)⟩
            · simp [setNode]
            · simp only [PortHeap.initPort, setPort, setNode, PortHeap.kmalloc,
                update_self, elim_some]
              exact strncpy_set_of_lt n.noNul hshort
          · simp [setNode]
          · exact fun c hc => update_of_ne hc _ _
          · exact Finset.subset_insert _ _

/-! ### Deletion -/

theorem deleteFrom_absent : ∀ (L : List PortEntry) {fuel : ℕ} {prev q : Option ℕ},
    Walk (fun c => (s.node c).next) q (L.map PortEntry.node) → (∀ e ∈ L, s.Holds e) →
    L.length < fuel → (∀ e ∈ L, e.port ≠ p) → s.deleteFrom p fuel prev q = some s
  | _, 0, _, _, _, _, hfuel, _ => by omega
  | [], fuel + 1, _, q, hw, _, _, _ => by
    rw [show q = none from hw]
    rfl
  | e :: L, fuel + 1, _, q, hw, hL, hfuel, hp => by
    rw [hw.1, deleteFrom, (hL e mem_cons_self).port, if_neg (hp e mem_cons_self)]
    exact deleteFrom_absent L hw.2 (fun e' he' => hL e' (mem_cons_of_mem _ he'))
      (Nat.lt_of_succ_lt_succ hfuel) fun e' he' => hp e' (mem_cons_of_mem _ he')

theorem deleteFrom_present {post : List PortEntry} : ∀ (pre : List PortEntry) {fuel : ℕ}
    {prev q : Option ℕ}, Walk (fun c => (s.node c).next) q ((pre ++ e :: post).map PortEntry.node) →
    (∀ e' ∈ pre ++ e :: post, s.Holds e') → (pre ++ e :: post).length < fuel →
    (∀ e' ∈ pre, e'.port ≠ e.port) →
    s.deleteFrom e.port fuel prev q
      = some (((s.unlink ((pre.map PortEntry.node).getLast?.or prev) e.node).kfree e.node).kfree
          e.port)
  | _, 0, _, _, _, _, hfuel, _ => by omega
  | [], fuel + 1, prev, q, hw, hL, _, _ => by
    rw [hw.1, deleteFrom, (hL e (by simp)).port, if_pos rfl]
    rfl
  | e' :: pre, fuel + 1, prev, q, hw, hL, hfuel, hp => by
    rw [hw.1, deleteFrom, (hL e' (by simp)).port, if_neg (hp e' mem_cons_self),
      deleteFrom_present pre hw.2 (fun d hd => hL d (mem_cons_of_mem _ hd))
        (Nat.lt_of_succ_lt_succ hfuel) fun d hd => hp d (mem_cons_of_mem _ hd)]
    cases hlast : (pre.map PortEntry.node).getLast? <;> simp [getLast?_cons, hlast]

section Middle

variable {pre post : List PortEntry}

theorem Registry.apart (h : s.Registry (pre ++ e :: post)) : ∀ e' ∈ pre ++ post,
    e'.node ≠ e.node ∧ e'.node ≠ e.port ∧ e'.port ≠ e.node ∧ e'.port ≠ e.port := by
  intro e' he'
  have hperm : (pre ++ e :: post).Perm (e :: (pre ++ post)) := perm_middle
  have hnd := ((hperm.map PortEntry.node).append (hperm.map PortEntry.port)).nodup_iff.1 h.blocks
  have hn : e'.node ∈ (pre ++ post).map PortEntry.node := List.mem_map_of_mem he'
  have hp : e'.port ∈ (pre ++ post).map PortEntry.port := List.mem_map_of_mem he'
  simp only [map_cons, cons_append, nodup_cons, nodup_append, mem_append, mem_cons, not_or] at hnd
  obtain ⟨⟨h1, -, h2⟩, -, ⟨h3, -⟩, h4⟩ := hnd
  refine ⟨fun heq => h1 (heq ▸ hn), fun heq => ?_, fun heq => h2 (heq ▸ hp),
    fun heq => h3 (heq ▸ hp)⟩
  exact h4 e'.node hn e.port (.inl rfl) heq

theorem Registry.unlink_walk (h : s.Registry (pre ++ e :: post)) :
    Walk (fun c => ((s.unlink (pre.map PortEntry.node).getLast? e.node).node c).next)
      (s.unlink (pre.map PortEntry.node).getLast? e.node).portListHead
      ((pre ++ post).map PortEntry.node) := by
  have hnodes := (nodup_append.1 h.blocks).1
  have hw := h.walk
  rcases eq_nil_or_concat pre with rfl | ⟨pre, d, rfl⟩
  · exact hw.2
  simp only [concat_eq_append, append_assoc, cons_append, nil_append,
    map_append, map_cons, map_nil] at hw hnodes ⊢
  have hd : ∀ c, c ∈ pre.map PortEntry.node ∨ c ∈ post.map PortEntry.node → c ≠ d.node := by
    simp only [nodup_append, nodup_cons, mem_cons, not_or] at hnodes
    rintro c (hc | hc) rfl
    · exact hnodes.2.2 _ hc _ (.inl rfl) rfl
    · exact hnodes.2.1.1.2 hc
  rw [getLast?_append, getLast?_singleton, some_or]
  refine Walk.unlink (b := e.node) ?_ (fun c hc => ?_) hw fun c hc => ?_
  · simp [unlink, setNode]
  · simp [unlink, setNode, update_of_ne (hd c (.inr hc))]
  · simp [unlink, setNode, update_of_ne (hd c (.inl hc))]

@[simp] theorem unlink_port (prev : Option ℕ) (c : ℕ) : (s.unlink prev c).port = s.port := by
  cases prev <;> rfl

@[simp] theorem unlink_blocks (prev : Option ℕ) (c : ℕ) : (s.unlink prev c).blocks = s.blocks := by
  cases prev <;> rfl

theorem unlink_node_port (prev : Option ℕ) (c d : ℕ) :
    ((s.unlink prev c).node d).port = (s.node d).port := by
  cases prev with
  | none => rfl
  | some b =>
    by_cases hd : d = b
    · subst hd
      simp [unlink, setNode]
    · simp [unlink, setNode, update_of_ne hd]

theorem Registry.deletePort_present (h : s.Registry (pre ++ e :: post)) :
    ∃ t, s.deletePort e.port = some t ∧ t.Registry (pre ++ post)
      ∧ t.blocks = (s.blocks.erase e.node).erase e.port := by
  have hapart := h.apart
  have hsub : (pre ++ post).Sublist (pre ++ e :: post) :=
    Sublist.append_left (sublist_cons_self e post) pre
  refine ⟨_, deleteFrom_present pre h.walk h.holds (Nat.lt_succ_of_le h.length_le)
    fun e' he' => (hapart e' (mem_append_left _ he')).2.2.2, ?_, ?_⟩
  · rw [or_none]
    refine ⟨h.unlink_walk, fun e' he' => ?_, ?_, ?_⟩
    · have h' := h.holds e' (hsub.subset he')
      obtain ⟨h1, h2, h3, h4⟩ := hapart e' he'
      refine h'.frame (unlink_node_port _ _ _) (by simp [PortHeap.kfree]) ?_ ?_
      · simp [PortHeap.kfree, h1, h2, h'.node_mem]
      · simp [PortHeap.kfree, h3, h4, h'.port_mem]
    · exact h.blocks.sublist ((hsub.map _).append (hsub.map _))
    · exact h.names.sublist (hsub.map _)
  · simp [PortHeap.kfree]

end Middle

theorem Registry.deletePort_absent (h : s.Registry L) (hp : ∀ e ∈ L, e.port ≠ p) :
    s.deletePort p = some s :=
  deleteFrom_absent L h.walk h.holds (Nat.lt_succ_of_le h.length_le) hp

theorem Registry.deletePort (h : s.Registry L) (p : ℕ) :
    ∃ t, s.deletePort p = some t ∧ t.Registry (L.filter fun e => e.port ≠ p) := by
  by_cases hp : ∃ e ∈ L, e.port = p
  · obtain ⟨e, he, rfl⟩ := hp
    obtain ⟨pre, post, rfl⟩ := append_of_mem he
    obtain ⟨t, ht, hreg, -⟩ := h.deletePort_present
    refine ⟨t, ht, ?_⟩
    have hkeep : ∀ e' ∈ pre ++ post, e'.port ≠ e.port := fun e' he' => (h.apart e' he').2.2.2
    have hfilter : (pre ++ e :: post).filter (fun e' => e'.port ≠ e.port) = pre ++ post := by
      rw [filter_append, filter_cons_of_neg (by simp), ← filter_append]
      exact filter_eq_self.2 fun e' he' => by simpa using hkeep e' he'
    rwa [hfilter]
  · have hp' : ∀ e ∈ L, e.port ≠ p := fun e he heq => hp ⟨e, he, heq⟩
    refine ⟨s, h.deletePort_absent hp', ?_⟩
    rwa [filter_eq_self.2 fun e he => by simpa using hp' e he]

/-! ### The map of names -/

def nameMap (L : List PortEntry) (name : List (BitVec 8)) : Option ℕ :=
  (entryNamed name L).map PortEntry.port

theorem nameMap_eq_some (hL : (L.map PortEntry.name).Nodup) :
    nameMap L name = some p ↔ ∃ e ∈ L, e.name = name ∧ e.port = p := by
  unfold nameMap
  constructor
  · intro h
    obtain ⟨e, he, rfl⟩ := map_eq_some_iff.1 h
    obtain ⟨hmem, hname⟩ := entryNamed_some he
    exact ⟨e, hmem, hname, rfl⟩
  · rintro ⟨e, he, rfl, rfl⟩
    cases hf : entryNamed e.name L with
    | none => exact absurd rfl (entryNamed_none.1 hf e he)
    | some e' =>
      obtain ⟨hmem, hname⟩ := entryNamed_some hf
      rw [inj_on_of_nodup_map hL hmem he hname]
      rfl

theorem nameMap_eq_none : nameMap L name = none ↔ entryNamed name L = none := by
  simp [nameMap]

theorem nameMap_cons : nameMap (e :: L) = update (nameMap L) e.name (some e.port) := by
  funext name
  unfold nameMap entryNamed
  rw [find?_cons]
  by_cases h : e.name = name
  · subst h
    simp
  · rw [update_of_ne (Ne.symm h)]
    simp [h]

theorem nameMap_filter (hL : (L.map PortEntry.name).Nodup) (p : ℕ) (name : List (BitVec 8)) :
    nameMap (L.filter fun e => e.port ≠ p) name
      = if nameMap L name = some p then none else nameMap L name := by
  have hL' : ((L.filter fun e => e.port ≠ p).map PortEntry.name).Nodup :=
    hL.sublist (filter_sublist.map _)
  ext q
  rw [nameMap_eq_some hL']
  split_ifs with hp
  · obtain ⟨d, hd, hname, rfl⟩ := (nameMap_eq_some hL).1 hp
    refine iff_of_false ?_ (by simp)
    rintro ⟨e, he, hname', -⟩
    obtain ⟨he, hport⟩ := mem_filter.1 he
    rw [inj_on_of_nodup_map hL he hd (hname'.trans hname.symm)] at hport
    simp at hport
  · rw [nameMap_eq_some hL]
    constructor
    · rintro ⟨e, he, h⟩
      exact ⟨e, (mem_filter.1 he).1, h⟩
    · rintro ⟨e, he, hname, rfl⟩
      refine ⟨e, mem_filter.2 ⟨he, ?_⟩, hname, rfl⟩
      have hport : e.port ≠ p := fun heq => hp ((nameMap_eq_some hL).2 ⟨e, he, hname, heq⟩)
      simpa using hport

end PortHeap

open PortHeap

/-- The calls on a map from names: a name goes in if it is short enough and not there yet, and a
deletion takes out what is there for the port. -/
def nameMapStep (m : List (BitVec 8) → Option ℕ) : PortOp → List (BitVec 8) → Option ℕ
  | .create (some name) _ (some a) (some _) =>
    if name.chars.length < maxPortName ∧ m name.chars = none then
      update m name.chars (some a)
    else m
  | .create .. => m
  | .find _ => m
  | .delete p => fun name => if m name = some p then none else m name

variable {r : Status × Option ℕ × PortHeap} {owner : ℕ}

section Steps

variable {s t : PortHeap} {L : List PortEntry}

theorem PortHeap.CreateOutcome.registry {name : Option CString} {pb nb : Option ℕ}
    (h : CreateOutcome s L owner name pb nb r) (hs : s.Registry L) (hf : s.Fresh pb nb) :
    ∃ L', r.2.2.Registry L' ∧ nameMapStep (nameMap L) (.create name owner pb nb) = nameMap L'
      ∧ L ⊆ L' := by
  cases h with
  | found hn =>
    refine ⟨L, hs, ?_, Subset.refl L⟩
    cases pb <;> cases nb <;> simp [nameMapStep, nameMap_eq_none, hn]
  | noPort =>
    refine ⟨L, hs, ?_, Subset.refl L⟩
    cases name <;> rfl
  | tooLong _ hlong =>
    refine ⟨L, hs.kmalloc _, ?_, Subset.refl L⟩
    cases nb <;> simp [nameMapStep, hlong.not_gt]
  | @unnamed a =>
    have ha := hs.fresh (hf.1 a rfl)
    exact ⟨L, (hs.kmalloc a).initPort (fun e he => (ha e he).2) none owner, rfl,
      Subset.refl L⟩
  | noNode _ _ ht => exact ⟨L, ht, rfl, Subset.refl L⟩
  | registered hn hshort ht =>
    refine ⟨_, ht, ?_, subset_cons_self _ _⟩
    simp [nameMapStep, nameMap_cons, nameMap_eq_none, hn, hshort]

theorem PortHeap.Registry.portStep {op : PortOp} (h : s.Registry L)
    (ht : DragonWare.portStep s op = some t) :
    ∃ L', t.Registry L' ∧ nameMapStep (nameMap L) op = nameMap L'
      ∧ ∀ e ∈ L, op ≠ .delete e.port → e ∈ L' := by
  cases op with
  | create name owner pb nb =>
    simp only [DragonWare.portStep] at ht
    split_ifs at ht with hf
    obtain ⟨r, hr, rfl⟩ := map_eq_some_iff.1 ht
    obtain ⟨r', hr', hout⟩ := h.createPort hf name owner
    obtain rfl : r' = r := some.inj (hr'.symm.trans hr)
    obtain ⟨L', hL', hm, hsub⟩ := hout.registry h hf
    exact ⟨L', hL', hm, fun e he _ => hsub he⟩
  | find name =>
    obtain ⟨-, -, rfl⟩ := map_eq_some_iff.1 ht
    exact ⟨L, h, rfl, fun e he _ => he⟩
  | delete p =>
    obtain ⟨t', ht', hreg⟩ := h.deletePort p
    obtain rfl : t' = t := some.inj (ht'.symm.trans ht)
    refine ⟨_, hreg, ?_, fun e he hop => mem_filter.2 ⟨he, ?_⟩⟩
    · funext name
      exact (nameMap_filter h.names p name).symm
    · have hp : e.port ≠ p := fun heq => hop (by rw [heq])
      simpa using hp

theorem PortHeap.Registry.exec : ∀ (ops : List PortOp) {s t : PortHeap} {L : List PortEntry},
    s.Registry L → Run.exec DragonWare.portStep s ops = some t →
    ∃ L', t.Registry L' ∧ ops.foldl nameMapStep (nameMap L) = nameMap L'
  | [], s, t, L, h, ht => ⟨L, some.inj ht ▸ h, rfl⟩
  | op :: ops, s, t, L, h, ht => by
    obtain ⟨s', hs', ht⟩ := Run.exec_cons ht
    obtain ⟨L', hL', hm, -⟩ := h.portStep hs'
    rw [foldl_cons, hm]
    exact hL'.exec ops ht

theorem PortHeap.Registry.mem_exec {e : PortEntry} : ∀ (ops : List PortOp) {s t : PortHeap}
    {L : List PortEntry}, s.Registry L → e ∈ L → Run.exec DragonWare.portStep s ops = some t →
    (∀ op ∈ ops, op ≠ .delete e.port) → ∃ L', t.Registry L' ∧ e ∈ L'
  | [], s, t, L, h, he, ht, _ => ⟨L, some.inj ht ▸ h, he⟩
  | op :: ops, s, t, L, h, he, ht, hops => by
    obtain ⟨s', hs', ht⟩ := Run.exec_cons ht
    obtain ⟨L', hL', -, hkeep⟩ := h.portStep hs'
    exact hL'.mem_exec ops (hkeep e he (hops op mem_cons_self)) ht
      fun op' hop' => hops op' (mem_cons_of_mem _ hop')

theorem registry_nil (s : PortHeap) : s.initializePortTree.Registry [] :=
  ⟨rfl, by simp, by simp, by simp⟩

end Steps

namespace PortHeap

variable {s : PortHeap} {L : List PortEntry}

def globalPorts (s : PortHeap) : List ℕ :=
  (cells (fun c => (s.node c).next) s.blocks.card s.portListHead).map fun c => (s.node c).port

def nameOf (s : PortHeap) (p : ℕ) : List (BitVec 8) := (s.port p).name.takeWhile (· ≠ 0)

theorem Registry.globalPorts (h : s.Registry L) : s.globalPorts = L.map PortEntry.port := by
  rw [PortHeap.globalPorts, h.walk.cells_eq (by simpa using h.length_le), List.map_map]
  exact map_congr_left fun e he => (h.holds e he).port

theorem Holds.nameOf {e : PortEntry} (h : s.Holds e) : s.nameOf e.port = e.name := by
  have hname : ∀ c ∈ e.name, decide (c ≠ 0) = true := by
    intro c hc
    have hne : c ≠ 0 := fun h0 => h.noNul (h0 ▸ hc)
    simpa using hne
  rw [PortHeap.nameOf, h.name, takeWhile_append_of_pos hname, takeWhile_replicate]
  simp

theorem Registry.map_nameOf (h : s.Registry L) :
    s.globalPorts.map s.nameOf = L.map PortEntry.name := by
  rw [h.globalPorts, List.map_map]
  exact map_congr_left fun e he => (h.holds e he).nameOf

/-- The list of global ports is the map `m` from names. -/
structure IsNameMap (s : PortHeap) (m : List (BitVec 8) → Option ℕ) : Prop where
  registered : ∀ name p, m name = some p ↔ p ∈ s.globalPorts ∧ s.nameOf p = name
  unique : (s.globalPorts.map s.nameOf).Nodup
  find : ∀ name, s.findPortByName name = some (m name.chars)
  create : ∀ name owner a b, s.Fresh (some a) (some b) → ∃ st r t,
    s.createPort (some name) owner (some a) (some b) = some (st, r, t) ∧
      (st = .ok ↔ name.chars.length < maxPortName ∧ m name.chars = none)
  delete : ∀ p, ∃ t, s.deletePort p = some t ∧ t.globalPorts = s.globalPorts.filter (· ≠ p)
    ∧ ∀ q ∈ t.globalPorts, t.nameOf q = s.nameOf q

theorem Registry.isNameMap (h : s.Registry L) : s.IsNameMap (nameMap L) where
  registered name p := by
    rw [nameMap_eq_some h.names, h.globalPorts, List.mem_map]
    constructor
    · rintro ⟨e, he, rfl, rfl⟩
      exact ⟨⟨e, he, rfl⟩, (h.holds e he).nameOf⟩
    · rintro ⟨⟨e, he, rfl⟩, rfl⟩
      exact ⟨e, he, (h.holds e he).nameOf.symm, rfl⟩
  unique := h.map_nameOf ▸ h.names
  find name := h.findPortByName name
  create name owner a b hf := by
    obtain ⟨⟨st, r, t⟩, hr, hout⟩ := h.createPort hf (some name) owner
    refine ⟨st, r, t, hr, ?_⟩
    rw [nameMap_eq_none]
    cases hout with
    | found hn => exact iff_of_false (by simp) fun h => hn h.2
    | tooLong _ hlong => exact iff_of_false (by simp) fun h => hlong.not_gt h.1
    | registered hn hshort => exact iff_of_true rfl ⟨hshort, hn⟩
  delete p := by
    obtain ⟨t, ht, hreg⟩ := h.deletePort p
    refine ⟨t, ht, ?_, ?_⟩
    · rw [hreg.globalPorts, h.globalPorts, List.filter_map]
      rfl
    · rw [hreg.globalPorts]
      intro q hq
      obtain ⟨e, he, rfl⟩ := List.mem_map.1 hq
      rw [(hreg.holds e he).nameOf, (h.holds e (mem_filter.1 he).1).nameOf]

end PortHeap

/-- After any calls since `InitializePortTree` the list is the map that the calls make. -/
theorem port_registry_refines_map {s₀ s : PortHeap} {ops : List PortOp}
    (h : Run.exec portStep s₀.initializePortTree ops = some s) :
    s.IsNameMap (ops.foldl nameMapStep fun _ => none) := by
  obtain ⟨L, hL, hm⟩ := (registry_nil s₀).exec ops h
  rw [show (fun _ => none) = nameMap [] from rfl, hm]
  exact hL.isNameMap

def emptyPortHeap : PortHeap :=
  ⟨none, fun _ => ⟨0, none⟩, fun _ => ⟨fun _ => Kernel.zeroMessage, 0, 0, 0, [], none⟩, ∅⟩

def lettersA (n : ℕ) : CString :=
  ⟨replicate n 0x61, fun h => absurd (eq_of_mem_replicate h) (by decide)⟩

def portCalls : List PortOp :=
  [.create (some (lettersA 1)) 0 (some 1) (some 2), .create (some (lettersA 2)) 0 (some 3) (some 4),
    .delete 1, .create (some (lettersA 1)) 0 (some 5) (some 6)]

theorem port_registry_refines_map_calls :
    ∃ s, Run.exec portStep emptyPortHeap.initializePortTree portCalls = some s
      ∧ s.IsNameMap (portCalls.foldl nameMapStep fun _ => none) := by
  have hsome : (Run.exec portStep emptyPortHeap.initializePortTree portCalls).isSome := by
    decide +kernel
  obtain ⟨s, hs⟩ := isSome_iff_exists.1 hsome
  exact ⟨s, hs, port_registry_refines_map hs⟩

/-! ### The blocks of a port -/

namespace PortHeap

/-- A call that fails leaves the blocks in use as they were, and a port that is made is given back
whole by `DeletePort`, whenever it comes. -/
def ConservesBlocks (s : PortHeap) (name : Option CString) (owner : ℕ) (pb nb : Option ℕ) : Prop :=
  ∃ st r t, s.createPort name owner pb nb = some (st, r, t)
    ∧ (st ≠ .ok → t.blocks = s.blocks)
    ∧ ∀ p, st = .ok → r = some p → ∀ later u, Run.exec portStep t later = some u →
        (∀ op ∈ later, op ≠ .delete p) →
        ∃ v, u.deletePort p = some v ∧ Disjoint v.blocks (t.blocks \ s.blocks)

variable {s t : PortHeap} {L : List PortEntry} {e : PortEntry}

theorem Registry.deletePort_blocks (h : s.Registry L) (he : e ∈ L) :
    ∃ t, s.deletePort e.port = some t ∧ e.node ∉ t.blocks ∧ e.port ∉ t.blocks := by
  obtain ⟨pre, post, rfl⟩ := append_of_mem he
  obtain ⟨t, ht, -, hb⟩ := h.deletePort_present
  exact ⟨t, ht, by simp [hb], by simp [hb]⟩

theorem CreateOutcome.conserves {name : Option CString} {pb nb : Option ℕ}
    (h : CreateOutcome s L owner name pb nb r) (hr : s.createPort name owner pb nb = some r)
    (hok : pb = none ∨ ∃ n, name = some n ∧ n.chars.length < maxPortName) :
    s.ConservesBlocks name owner pb nb := by
  refine ⟨r.1, r.2.1, r.2.2, hr, ?_⟩
  cases h with
  | found | noPort => exact ⟨fun _ => rfl, fun p hst => by cases hst⟩
  | tooLong _ hlong =>
    obtain hok | ⟨n, hn, hshort⟩ := hok
    · cases hok
    · obtain rfl := some.inj hn
      exact absurd hshort hlong.not_gt
  | unnamed =>
    obtain hok | ⟨n, hn, -⟩ := hok
    · cases hok
    · cases hn
  | noNode _ _ _ hb => exact ⟨fun _ => hb, fun p hst => by cases hst⟩
  | @registered n a b t _ _ ht hb =>
    refine ⟨fun hst => absurd rfl hst, ?_⟩
    rintro p - hp later u hu hlater
    obtain rfl : a = p := some.inj hp
    obtain ⟨L', hL', hmem⟩ := ht.mem_exec later mem_cons_self hu hlater
    obtain ⟨v, hv, hnode, hport⟩ := hL'.deletePort_blocks hmem
    refine ⟨v, hv, Finset.disjoint_right.2 fun c hc => ?_⟩
    -- what the call took is the node and the port
    obtain ⟨hc, hcs⟩ := Finset.mem_sdiff.1 hc
    simp only [hb, Finset.mem_insert] at hc
    rcases hc with rfl | rfl | hc
    · exact hnode
    · exact hport
    · exact absurd hc hcs

end PortHeap

/-- A port is given back whole, and a call that fails takes nothing, exactly if there is no block
for the port or a name that fits. -/
theorem port_blocks_conserved_iff {s₀ s : PortHeap} (ops : List PortOp)
    (h : Run.exec portStep s₀.initializePortTree ops = some s) (name : Option CString) (owner : ℕ)
    {pb nb : Option ℕ} (hf : s.Fresh pb nb) :
    s.ConservesBlocks name owner pb nb
      ↔ pb = none ∨ ∃ n, name = some n ∧ n.chars.length < maxPortName := by
  obtain ⟨L, hL, -⟩ := (registry_nil s₀).exec ops h
  obtain ⟨r, hr, hout⟩ := hL.createPort hf name owner
  refine ⟨?_, hout.conserves hr⟩
  rintro ⟨st, q, t, hr', hfail, hdelete⟩
  obtain rfl : r = (st, q, t) := some.inj (hr.symm.trans hr')
  cases hout with
  | found hn =>
    obtain ⟨e, he⟩ := ne_none_iff_exists'.1 hn
    obtain ⟨hmem, hname⟩ := entryNamed_some he
    exact .inr ⟨_, rfl, hname ▸ (hL.holds e hmem).short⟩
  | noPort => exact .inl rfl
  | @tooLong n a =>
    have hb : insert a s.blocks = s.blocks := hfail (by simp)
    exact absurd (Finset.insert_eq_self.1 hb) (hf.1 a rfl)
  | @unnamed a =>
    have ha := hL.fresh (hf.1 a rfl)
    -- the list does not have the port, so it stays in use
    have hreg := (hL.kmalloc a).initPort (fun e he => (ha e he).2) none owner
    obtain ⟨v, hv, hdisj⟩ := hdelete a rfl rfl [] _ rfl (by simp)
    rw [hreg.deletePort_absent fun e he => (ha e he).2] at hv
    obtain rfl := some.inj hv
    have hin : a ∈ insert a s.blocks := Finset.mem_insert_self a _
    exact absurd (Finset.mem_sdiff.2 ⟨hin, hf.1 a rfl⟩) (Finset.disjoint_left.1 hdisj hin)
  | noNode _ hshort => exact .inr ⟨_, rfl, hshort⟩
  | registered _ hshort => exact .inr ⟨_, rfl, hshort⟩

theorem port_blocks_conserved_iff_lettersA :
    emptyPortHeap.initializePortTree.ConservesBlocks (some (lettersA 3)) 0 (some 1) (some 2)
      ↔ (some 1 : Option ℕ) = none
        ∨ ∃ n, some (lettersA 3) = some n ∧ n.chars.length < maxPortName :=
  port_blocks_conserved_iff [] rfl (some (lettersA 3)) 0 (by decide +kernel)

/-- The block of a port without a name is in use after its deletion, and so is the block that a
call with a name of 48 characters took before it failed. -/
theorem port_blocks_leak :
    ((emptyPortHeap.createPort none 0 (some 1) none).bind fun r =>
      (r.2.2.deletePort 1).map fun t => (r.1, t.blocks)) = some (.ok, {1})
    ∧ ((emptyPortHeap.createPort (some (lettersA 48)) 0 (some 1) (some 2)).map fun r =>
      (r.1, r.2.2.blocks)) = some (.badArgument, {1}) := by
  decide +kernel

end DragonWare
