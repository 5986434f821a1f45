import DragonWare.Lib.Tokens
import DragonWare.Proofs.DeviceTree

/-!
# Which paths lead to their device

The loop of `GetDeviceFromPath` goes down the tree by the parts of the path (`walkFrom_eq`). The
name of the root is skipped up to the last slash, so only in a path with at most one part behind it
(`skipRoot_other`).
-/

namespace DragonWare

open LinkedList List Option Relation Tokens

def components (p : List (BitVec 8)) : List (List (BitVec 8)) :=
  (p.splitOn slash).filter (· ≠ [])

section Components

variable {token p : List (BitVec 8)}

theorem components_slash (p : List (BitVec 8)) : components (slash :: p) = components p :=
  tokens_sep p

theorem components_append (h : slash ∉ token) (hne : token ≠ []) (p : List (BitVec 8)) :
    components (token ++ slash :: p) = token :: components p :=
  tokens_append h hne p

theorem components_token (h : slash ∉ token) (hne : token ≠ []) : components token = [token] :=
  tokens_token h hne

theorem components_dropWhile (p : List (BitVec 8)) :
    components (p.dropWhile (· = slash)) = components p :=
  tokens_dropWhile p

theorem components_cons {c : BitVec 8} (hc : c ≠ slash) (p : List (BitVec 8)) :
    components (c :: p) = (c :: p).takeWhile (· ≠ slash)
      :: components ((c :: p).dropWhile (· ≠ slash)) :=
  tokens_cons hc p

end Components

namespace DeviceTree

variable {s : DeviceTree} {r x d : ℕ} {ns : List (List (BitVec 8))} {start : List (BitVec 8)}

/-! ### Down the tree by names -/

variable {path : CString} {token a : List (BitVec 8)}

def InTree (s : DeviceTree) (x : ℕ) : Prop :=
  ∃ r, s.root = some r ∧ ReflTransGen (fun x y => y ∈ s.children x) r x

def Reaches (s : DeviceTree) : List (List (BitVec 8)) → ℕ → ℕ → Prop
  | [], x, d => d = x
  | n :: ns, x, d => ∃ c ∈ s.children x, s.nameOf c = n ∧ s.Reaches ns c d

/-- Names that are not empty, have no slash in them and differ among siblings. -/
def GoodNames (s : DeviceTree) : Prop := ∀ x, s.InTree x →
  (∀ c ∈ s.children x, s.nameOf c ≠ [] ∧ slash ∉ s.nameOf c)
    ∧ ((s.children x).map s.nameOf).Nodup

def descend (s : DeviceTree) : List (List (BitVec 8)) → ℕ → Option ℕ
  | [], x => some x
  | n :: ns, x => ((s.children x).find? fun c => s.nameOf c = n).bind (s.descend ns)

theorem Rooted.inTree_root (h : s.Rooted r) : s.InTree r := ⟨r, h.root, .refl⟩

theorem InTree.child (h : s.InTree x) {c : ℕ} (hc : c ∈ s.children x) : s.InTree c := by
  obtain ⟨r, hr, hx⟩ := h
  exact ⟨r, hr, hx.tail hc⟩

theorem Rooted.mem_of_inTree (h : s.Rooted r) (hx : s.InTree x) : x ∈ s.blocks := by
  obtain ⟨r', hr', hx⟩ := hx
  obtain rfl : r = r' := some.inj (h.root.symm.trans hr')
  induction hx with
  | refl => exact h.mem
  | tail _ hc ih => exact (h.trees.walk ih).2.2 _ hc

theorem descend_eq_some (hgood : s.GoodNames) : ∀ {ns : List (List (BitVec 8))} {x d : ℕ},
    s.InTree x → (s.descend ns x = some d ↔ s.Reaches ns x d)
  | [], x, d, _ => by simp [descend, Reaches, eq_comm]
  | n :: ns, x, d, hx => by
    unfold descend Reaches
    rw [bind_eq_some_iff]
    refine exists_congr fun c => ?_
    have hfind : (s.children x).find? (fun c => s.nameOf c = n) = some c
        ↔ c ∈ s.children x ∧ s.nameOf c = n := by
      constructor
      · intro hc
        exact ⟨mem_of_find?_eq_some hc, by simpa using find?_some hc⟩
      · rintro ⟨hc, rfl⟩
        cases hf : (s.children x).find? fun c' => s.nameOf c' = s.nameOf c with
        | none => simpa using find?_eq_none.1 hf c hc
        | some c' =>
          have hname : s.nameOf c' = s.nameOf c := by simpa using find?_some hf
          have hc' := mem_of_find?_eq_some hf
          rw [inj_on_of_nodup_map (hgood x hx).2 hc' hc hname]
    rw [hfind, and_assoc]
    refine and_congr_right fun hc => and_congr_right fun _ => ?_
    exact descend_eq_some hgood (hx.child hc)

theorem descend_eq_none (hgood : s.GoodNames) (hx : s.InTree x) :
    s.descend ns x = none ↔ ∀ d, ¬ s.Reaches ns x d := by
  rw [eq_none_iff_forall_ne_some]
  exact forall_congr' fun d => not_congr (descend_eq_some hgood hx)

theorem Reaches.good (hgood : s.GoodNames) : ∀ {ns : List (List (BitVec 8))} {x : ℕ},
    s.InTree x → s.Reaches ns x d → ∀ n ∈ ns, n ≠ [] ∧ slash ∉ n
  | [], x, _, _, n, hn => by simp at hn
  | m :: ns, x, hx, h, n, hn => by
    obtain ⟨c, hc, rfl, hcd⟩ := h
    rcases mem_cons.1 hn with rfl | hn
    · exact (hgood x hx).1 c hc
    · exact hcd.good hgood (hx.child hc) n hn

/-! ### Depth -/

def AtDepth (s : DeviceTree) (r : ℕ) : ℕ → ℕ → Prop
  | 0, d => d = r
  | k + 1, d => ∃ x, s.InTree x ∧ s.AtDepth r k x ∧ d ∈ s.children x

theorem Reaches.atDepth : ∀ {ns : List (List (BitVec 8))} {k x : ℕ}, s.InTree x →
    s.AtDepth r k x → s.Reaches ns x d → s.AtDepth r (k + ns.length) d
  | [], k, x, _, hk, h => by
    rw [show d = x from h]
    exact hk
  | n :: ns, k, x, hx, hk, h => by
    obtain ⟨c, hc, -, hcd⟩ := h
    rw [length_cons, Nat.add_comm ns.length, ← Nat.add_assoc]
    exact hcd.atDepth (hx.child hc) ⟨x, hx, hk, hc⟩

theorem Rooted.not_mem_children (h : s.Rooted r) (hx : s.InTree x) : r ∉ s.children x := by
  intro hr
  obtain ⟨y, -, hy⟩ := TransGen.tail'_iff.1
    (h.trees.childOf (h.mem_of_inTree hx) hr).transGen
  exact h.top y hy

theorem Rooted.atDepth_unique (h : s.Rooted r) : ∀ {k k' d : ℕ}, s.AtDepth r k d →
    s.AtDepth r k' d → k = k'
  | 0, 0, _, _, _ => rfl
  | 0, k' + 1, d, hd, ⟨x, hx, _, hc⟩ => absurd ((show d = r from hd) ▸ hc) (h.not_mem_children hx)
  | k + 1, 0, d, ⟨x, hx, _, hc⟩, hd => absurd ((show d = r from hd) ▸ hc) (h.not_mem_children hx)
  | k + 1, k' + 1, d, ⟨x, hx, hk, hc⟩, ⟨x', hx', hk', hc'⟩ => by
    have hxx : x = x' := ChildOf.unique h.trees (h.trees.childOf (h.mem_of_inTree hx) hc)
      (h.trees.childOf (h.mem_of_inTree hx') hc')
    rw [h.atDepth_unique hk (hxx ▸ hk')]

/-! ### The walk along the path -/

theorem findChild_eq (htoken : 0 ∉ token) :
    ∀ {l : List ℕ} {fuel : ℕ} {p : Option ℕ}, Walk (fun c => (s.node c).next) p l →
    (∀ c ∈ l, s.HasName c (s.nameOf c)) → l.length < fuel →
    s.findChild token fuel p = some (l.find? fun c => s.nameOf c = token)
  | _, 0, _, _, _, hfuel => by omega
  | [], fuel + 1, p, hw, _, _ => by
    rw [show p = none from hw]
    rfl
  | c :: l, fuel + 1, p, hw, hl, hfuel => by
    have hc := hl c mem_cons_self
    have hcmp : strcmp (s.nameAt c) token = 0 ↔ s.nameOf c = token := by
      rw [hc.nameAt]
      exact strcmp_eq_zero hc.noNul htoken
    rw [hw.1, findChild, find?_cons]
    by_cases hn : s.nameOf c = token
    · simp [hcmp.2 hn, hn]
    · simp only [hcmp.not.2 hn, hn, if_false, decide_false]
      exact findChild_eq htoken hw.2 (fun c' hc' => hl c' (mem_cons_of_mem _ hc'))
        (Nat.lt_of_succ_lt_succ hfuel)

theorem Rooted.length_children (h : s.Rooted r) (hx : x ∈ s.blocks) :
    (s.children x).length ≤ s.blocks.card := by
  obtain ⟨-, hnd, hmem⟩ := h.trees.walk hx
  rw [← toFinset_card_of_nodup hnd]
  exact Finset.card_le_card fun b hb => hmem b (List.mem_toFinset.1 hb)

theorem Rooted.findChild (h : s.Rooted r) (hx : x ∈ s.blocks) (htoken : 0 ∉ token) :
    s.findChild token (s.blocks.card + 1) (s.node x).child
      = some ((s.children x).find? fun c => s.nameOf c = token) := by
  obtain ⟨hw, -, hmem⟩ := h.trees.walk hx
  exact findChild_eq htoken hw (fun c hc => h.names c (hmem c hc))
    (Nat.lt_succ_of_le (h.length_children hx))

theorem Rooted.find_long (h : s.Rooted r) (hx : x ∈ s.blocks) (hlong : tokenSize ≤ token.length) :
    (s.children x).find? (fun c => s.nameOf c = token) = none := by
  rw [find?_eq_none]
  intro c hc
  have hshort := (h.names c ((h.trees.walk hx).2.2 c hc)).short
  simp only [decide_eq_true_eq]
  rintro rfl
  simp only [tokenSize] at hlong
  omega

theorem Rooted.walkFrom_eq (h : s.Rooted r) : ∀ {fuel x : ℕ} {start : List (BitVec 8)},
    start.length < fuel → s.InTree x → 0 ∉ start →
    s.walkFrom fuel x start = some (s.descend (components start) x)
  | fuel + 1, x, start, hfuel, hx, h0 => by
    have hxb := h.mem_of_inTree hx
    have hdrop : (start.dropWhile (· = slash)).length ≤ start.length :=
      (dropWhile_sublist _).length_le
    have h0' : 0 ∉ start.dropWhile (· = slash) :=
      fun hmem => h0 ((dropWhile_sublist _).subset hmem)
    have hhead := head?_dropWhile_not (fun x => decide (x = slash)) start
    rw [← components_dropWhile start]
    unfold walkFrom
    cases hstart : start.dropWhile (· = slash) with
    | nil => simp [components, descend]
    | cons c p =>
      rw [hstart] at hhead hdrop h0'
      have hc : c ≠ slash := by simpa using hhead
      have htoken : 0 ∉ (c :: p).takeWhile (· ≠ slash) :=
        fun hmem => h0' ((takeWhile_sublist _).subset hmem)
      rw [components_cons hc, descend]
      simp only [reduceCtorEq, if_false]
      split_ifs with hlong
      · rw [h.find_long hxb hlong]
        rfl
      rw [h.findChild hxb htoken]
      cases hfind : (s.children x).find?
          fun c' => s.nameOf c' = (c :: p).takeWhile (· ≠ slash) with
      | none => rfl
      | some child =>
        refine h.walkFrom_eq ?_ (hx.child (mem_of_find?_eq_some hfind)) ?_
        · have hlen : ((c :: p).dropWhile (· ≠ slash)).length ≤ p.length := by
            rw [dropWhile_cons_of_pos (by simpa using hc)]
            exact (dropWhile_sublist _).length_le
          simp only [length_cons] at hdrop
          omega
        · exact fun hmem => h0' ((dropWhile_sublist _).subset hmem)

/-! ### The name of the root -/

theorem slash_notMem_rootDeviceName : slash ∉ rootDeviceName := by decide

theorem Rooted.skip_iff (h : s.Rooted r) (h0 : 0 ∉ start) {k : ℕ} (hk : k ≤ start.length) :
    (0 < k ∧ strncmp (fun i => start.getD i 0) (s.nameAt r) k = 0 ∧ s.nameAt r k = 0)
      ↔ start.take k = rootDeviceName := by
  have hname := h.names r h.mem
  rw [h.rootName] at hname
  rw [hname.nameAt, strncmp_eq_zero h0 hname.noNul, getD_eq_zero_iff hname.noNul]
  constructor
  · rintro ⟨-, htake, hlen⟩
    rw [htake, take_of_length_le hlen]
  · intro htake
    have hlen : k = rootDeviceName.length := by
      rw [← htake, length_take, min_eq_left hk]
    refine ⟨?_, ?_, hlen.ge⟩
    · rw [hlen]
      decide
    · rw [htake, take_of_length_le hlen.ge]

theorem exists_last {c : BitVec 8} {l : List (BitVec 8)} (h : c ∈ l) :
    ∃ a b, l = a ++ c :: b ∧ c ∉ b := by
  obtain ⟨b, a, hl, hb⟩ := eq_append_cons_of_mem (mem_reverse.2 h)
  refine ⟨a.reverse, b.reverse, ?_, fun hmem => hb (mem_reverse.1 hmem)⟩
  have := congrArg reverse hl
  simpa using this

theorem Rooted.skipRoot_append (h : s.Rooted r) {b : List (BitVec 8)} (h0 : 0 ∉ a ++ slash :: b)
    (hb : slash ∉ b) :
    s.skipRoot r (a ++ slash :: b) = if a = rootDeviceName then b else a ++ slash :: b := by
  have hskip := h.skip_iff h0 (k := a.length) (by simp)
  rw [take_left] at hskip
  simp only [skipRoot, strchr_append (show slash ≠ 0 by decide) hb, getD_some, hskip]
  simp

theorem Rooted.skipRoot_token (h : s.Rooted r) (h0 : 0 ∉ start) (hslash : slash ∉ start) :
    s.skipRoot r start = if start = rootDeviceName then [] else start := by
  have hskip := h.skip_iff h0 le_rfl
  rw [take_length] at hskip
  simp only [skipRoot, strchr_eq_none (show slash ≠ 0 by decide) hslash, getD_none, hskip,
    drop_length]

theorem Rooted.skipRoot_other (h : s.Rooted r) (h0 : 0 ∉ start) (hself : start ≠ rootDeviceName)
    (hpart : ∀ b, slash ∉ b → start ≠ rootDeviceName ++ slash :: b) :
    s.skipRoot r start = start := by
  by_cases hslash : slash ∈ start
  · obtain ⟨a, b, rfl, hb⟩ := exists_last hslash
    have ha : a ≠ rootDeviceName := by
      rintro rfl
      exact hpart b hb rfl
    rw [h.skipRoot_append h0 hb, if_neg ha]
  · rw [h.skipRoot_token h0 hslash, if_neg hself]

theorem skipRoot_subset : s.skipRoot r start ⊆ start := by
  unfold skipRoot
  dsimp only
  split_ifs
  · split
    · exact drop_subset _ _
    · exact drop_subset _ _
  · exact Subset.refl _

theorem Rooted.getDeviceFromPath (h : s.Rooted r) (hpath : path.chars = slash :: start) :
    s.getDeviceFromPath path = some (s.descend (components (s.skipRoot r start)) r) := by
  have h0 : 0 ∉ start := fun hmem => path.noNul (hpath ▸ mem_cons_of_mem _ hmem)
  unfold DeviceTree.getDeviceFromPath
  rw [hpath]
  simp only [ne_eq, not_true_eq_false, if_false, h.root]
  exact h.walkFrom_eq (Nat.lt_succ_self _) h.inTree_root fun hmem => h0 (skipRoot_subset hmem)

/-! ### Which paths lead to their device -/

def devicePath (ns : List (List (BitVec 8))) : List (BitVec 8) :=
  slash :: (rootDeviceName ++ ns.flatMap (slash :: ·))

/-- The parts of a path, without the name of the root where that is what it begins with. -/
def relativeParts (start : List (BitVec 8)) : List (List (BitVec 8)) :=
  if start.takeWhile (· ≠ slash) = rootDeviceName then components (start.dropWhile (· ≠ slash))
  else components start

def Names (s : DeviceTree) (path : CString) (d : ℕ) : Prop :=
  ∃ r start, s.root = some r ∧ path.chars = slash :: start ∧ s.Reaches (relativeParts start) r d

/-- The path goes on behind the name of the root with two parts or more, which lead to a node from a
child of the root with that name. -/
def TakesRootForChild (s : DeviceTree) (path : CString) : Prop :=
  ∃ r t d, s.root = some r ∧ path.chars = slash :: (rootDeviceName ++ slash :: t) ∧ slash ∈ t
    ∧ s.Reaches (rootDeviceName :: components t) r d

theorem components_flatMap : ∀ {ns : List (List (BitVec 8))} {token : List (BitVec 8)},
    slash ∉ token → token ≠ [] → (∀ n ∈ ns, n ≠ [] ∧ slash ∉ n) →
    components (token ++ ns.flatMap (slash :: ·)) = token :: ns
  | [], token, h, hne, _ => by
    rw [flatMap_nil, append_nil, components_token h hne]
  | n :: ns, token, h, hne, hns => by
    obtain ⟨hn, hn'⟩ := hns n mem_cons_self
    rw [flatMap_cons, cons_append, components_append h hne,
      components_flatMap hn' hn fun m hm => hns m (mem_cons_of_mem _ hm)]

theorem takeWhile_append_slash (ha : slash ∉ a) (b : List (BitVec 8)) :
    (a ++ slash :: b).takeWhile (· ≠ slash) = a
      ∧ (a ++ slash :: b).dropWhile (· ≠ slash) = slash :: b := by
  have hall : ∀ c ∈ a, decide (c ≠ slash) = true := by
    intro c hc
    have hne : c ≠ slash := fun heq => ha (heq ▸ hc)
    simpa using hne
  rw [takeWhile_append_of_pos hall, dropWhile_append_of_pos hall]
  simp

theorem takeWhile_eq_rootDeviceName (h : start.takeWhile (· ≠ slash) = rootDeviceName) :
    start = rootDeviceName ∨ ∃ t, start = rootDeviceName ++ slash :: t := by
  have happend := takeWhile_append_dropWhile (p := fun x => decide (x ≠ slash)) (l := start)
  have hhead := head?_dropWhile_not (fun x => decide (x ≠ slash)) start
  rw [h] at happend
  cases hrest : start.dropWhile (· ≠ slash) with
  | nil =>
    rw [hrest, append_nil] at happend
    exact .inl happend.symm
  | cons c t =>
    rw [hrest] at happend hhead
    obtain rfl : c = slash := by simpa using hhead
    exact .inr ⟨t, happend.symm⟩

theorem Rooted.skipRoot_flatMap (h : s.Rooted r) (hgood : ∀ n ∈ ns, n ≠ [] ∧ slash ∉ n)
    (h0 : 0 ∉ rootDeviceName ++ ns.flatMap (slash :: ·)) (hns : 2 ≤ ns.length) :
    s.skipRoot r (rootDeviceName ++ ns.flatMap (slash :: ·))
      = rootDeviceName ++ ns.flatMap (slash :: ·) := by
  obtain ⟨n, m, ns, rfl⟩ : ∃ n m ns', ns = n :: m :: ns' := by
    match ns, hns with
    | n :: m :: ns', _ => exact ⟨n, m, ns', rfl⟩
  refine h.skipRoot_other h0 (fun heq => ?_) fun b hb heq => hb ?_
  · simpa using congrArg length heq
  · have := append_cancel_left heq
    simp only [flatMap_cons, cons_append, cons.injEq, true_and] at this
    rw [← this]
    simp

theorem Rooted.path_resolves_iff (h : s.Rooted r) (hgood : s.GoodNames) (hd : s.Reaches ns r d)
    (hpath : path.chars = devicePath ns) :
    s.getDeviceFromPath path = some (some d) ↔ ns.length ≤ 1 := by
  have h0 : 0 ∉ rootDeviceName ++ ns.flatMap (slash :: ·) :=
    fun hmem => path.noNul (hpath ▸ mem_cons_of_mem _ hmem)
  have hns := hd.good hgood h.inTree_root
  have hdescend := (descend_eq_some hgood h.inTree_root).2 hd
  rw [h.getDeviceFromPath hpath]
  rcases lt_or_ge ns.length 2 with hlen | hlen
  · refine iff_of_true ?_ (Nat.le_of_lt_succ hlen)
    match ns, hlen with
    | [], _ =>
      rw [flatMap_nil, append_nil] at h0 ⊢
      rw [h.skipRoot_token h0 slash_notMem_rootDeviceName, if_pos rfl]
      exact congrArg some hdescend
    | [n], _ =>
      obtain ⟨hn, hn'⟩ := hns n mem_cons_self
      rw [flatMap_singleton] at h0 ⊢
      rw [h.skipRoot_append h0 hn', if_pos rfl, components_token hn' hn, hdescend]
  · refine iff_of_false (fun heq => ?_) (by omega)
    rw [h.skipRoot_flatMap hns h0 hlen, components_flatMap slash_notMem_rootDeviceName
      (by decide) hns] at heq
    -- the walk has gone one level too deep
    have hdeep := (descend_eq_some hgood h.inTree_root).1 (some.inj heq)
    have h1 := hd.atDepth (r := r) (k := 0) h.inTree_root rfl
    have h2 := hdeep.atDepth (r := r) (k := 0) h.inTree_root rfl
    have := h.atDepth_unique h1 h2
    simp at this

theorem Rooted.path_null_iff (h : s.Rooted r) (hgood : s.GoodNames) (hno : ∀ d, ¬ s.Names path d) :
    s.getDeviceFromPath path = some none ↔ ¬ s.TakesRootForChild path := by
  -- a path that is read as it should be leads to no node
  have hnull : ∀ {start}, path.chars = slash :: start →
      components (s.skipRoot r start) = relativeParts start →
      s.getDeviceFromPath path = some none := by
    intro start hpath hparts
    rw [h.getDeviceFromPath hpath, hparts]
    exact congrArg some ((descend_eq_none hgood h.inTree_root).2 fun d hd =>
      hno d ⟨r, start, h.root, hpath, hd⟩)
  have hroot := takeWhile_append_slash slash_notMem_rootDeviceName
  by_cases hpath : ∃ start, path.chars = slash :: start
  · obtain ⟨start, hpath⟩ := hpath
    have h0 : 0 ∉ start := fun hmem => path.noNul (hpath ▸ mem_cons_of_mem _ hmem)
    by_cases ht : ∃ t, start = rootDeviceName ++ slash :: t
    · obtain ⟨t, rfl⟩ := ht
      by_cases hslash : slash ∈ t
      · have hskip : s.skipRoot r (rootDeviceName ++ slash :: t)
            = rootDeviceName ++ slash :: t := by
          refine h.skipRoot_other h0 (fun heq => ?_) fun b hb heq => hb ?_
          · simpa using congrArg length heq
          · obtain ⟨-, rfl⟩ := cons.inj (append_cancel_left heq)
            exact hslash
        rw [h.getDeviceFromPath hpath, hskip, components_append slash_notMem_rootDeviceName
          (by decide), some.injEq, descend_eq_none hgood h.inTree_root]
        refine ⟨?_, fun hnot d hd => hnot ⟨r, t, d, h.root, hpath, hslash, hd⟩⟩
        rintro hnone ⟨r', t', d, hr', hpath', -, hd⟩
        obtain rfl : r = r' := some.inj (h.root.symm.trans hr')
        have htt : t = t' := by simpa using hpath.symm.trans hpath'
        exact hnone d (htt ▸ hd)
      · refine iff_of_true (hnull hpath ?_) ?_
        · rw [h.skipRoot_append h0 hslash, if_pos rfl, relativeParts, (hroot t).1, if_pos rfl,
            (hroot t).2, components_slash]
        · rintro ⟨-, t', -, -, hpath', hslash', -⟩
          have htt : t = t' := by simpa using hpath.symm.trans hpath'
          exact hslash (htt ▸ hslash')
    · refine iff_of_true (hnull hpath ?_) ?_
      · by_cases hself : start = rootDeviceName
        · subst hself
          rw [h.skipRoot_token h0 slash_notMem_rootDeviceName, if_pos rfl]
          decide
        · have hfirst : start.takeWhile (· ≠ slash) ≠ rootDeviceName := fun hfirst =>
            (takeWhile_eq_rootDeviceName hfirst).elim hself ht
          rw [relativeParts, if_neg hfirst, h.skipRoot_other h0 hself fun b _ heq => ht ⟨b, heq⟩]
      · rintro ⟨-, t', -, -, hpath', -⟩
        exact ht ⟨t', (cons.inj (hpath.symm.trans hpath')).2⟩
  · refine iff_of_true ?_ ?_
    · unfold DeviceTree.getDeviceFromPath
      cases hchars : path.chars with
      | nil => rfl
      | cons c start =>
        have hc : c ≠ slash := fun heq => hpath ⟨start, heq ▸ hchars⟩
        simp [hc]
    · rintro ⟨-, t, -, -, hpath', -⟩
      exact hpath ⟨_, hpath'⟩

end DeviceTree

open DeviceTree in
/-- The path of a node at depth `k` leads to it exactly if `k` is at most one, and a path to no node
leads to none unless the name of the root is also that of a child. -/
theorem device_paths_resolve_iff {s : DeviceTree} (h : s.Built) (hgood : s.GoodNames) :
    (∀ r ns d (path : CString), s.root = some r → s.Reaches ns r d → path.chars = devicePath ns →
      (s.getDeviceFromPath path = some (some d) ↔ ns.length ≤ 1))
    ∧ ∀ path, (∀ d, ¬ s.Names path d) →
      (s.getDeviceFromPath path = some none ↔ ¬ s.TakesRootForChild path) := by
  obtain ⟨r, hr⟩ := h.rooted
  refine ⟨fun r' ns d path hr' hd hpath => ?_, fun path hno => hr.path_null_iff hgood hno⟩
  obtain rfl : r = r' := some.inj (hr.root.symm.trans hr')
  exact hr.path_resolves_iff hgood hd hpath

/-- A device at `/Devices/CPU`, and one below it. -/
def cpuTree : DeviceTree :=
  ((DeviceTree.bootTree 1).plant none ⟨literal "CPU", by decide⟩ 2).plant (some 2)
    ⟨literal "CPU0", by decide⟩ 3

theorem cpuTree_built : cpuTree.Built :=
  ((DeviceTree.built_bootTree 1).plant (p := 1) (by decide) (by decide) (by decide) _).plant
    (p := 2) (by decide) (by decide) (by decide) _

theorem cpuTree_goodNames : cpuTree.GoodNames := by
  intro x hx
  obtain ⟨r, hr⟩ := cpuTree_built.rooted
  have hmem : x ∈ ({3, 2, 1} : Finset ℕ) := hr.mem_of_inTree hx
  have hall : ∀ x ∈ ({3, 2, 1} : Finset ℕ), (∀ c ∈ cpuTree.children x, cpuTree.nameOf c ≠ []
      ∧ slash ∉ cpuTree.nameOf c) ∧ ((cpuTree.children x).map cpuTree.nameOf).Nodup := by
    decide +kernel
  exact hall x hmem

theorem device_paths_resolve_iff_cpuTree :
    cpuTree.getDeviceFromPath ⟨literal "/Devices/CPU", by decide⟩ = some (some 2) := by
  refine ((device_paths_resolve_iff cpuTree_built cpuTree_goodNames).1 1 [literal "CPU"] 2 _ rfl
    ⟨2, ?_, ?_, rfl⟩ rfl).2 (by decide)
  · decide +kernel
  · decide +kernel

/-- The path of the second one leads nowhere. -/
theorem device_path_unresolved : cpuTree.Built ∧ cpuTree.GoodNames ∧ cpuTree.root = some 1
    ∧ cpuTree.Reaches [literal "CPU", literal "CPU0"] 1 3
    ∧ DeviceTree.devicePath [literal "CPU", literal "CPU0"] = literal "/Devices/CPU/CPU0"
    ∧ cpuTree.getDeviceFromPath ⟨literal "/Devices/CPU/CPU0", by decide⟩ = some none := by
  refine ⟨cpuTree_built, cpuTree_goodNames, rfl, ⟨2, ?_, ?_, 3, ?_, ?_, rfl⟩, ?_, ?_⟩ <;>
    decide +kernel

end DragonWare
