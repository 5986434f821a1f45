import DragonWare.Proofs.Ipc

/-!
# Handle tables and ports

An append takes the first slot whose bit is clear, and a search finds a slot whose bit is set. A
port that is created is new, empty, and owned by the thread that asked for it.
-/

namespace DragonWare

open Fallible Function List

namespace HandleTable

variable {table table' : HandleTable} {obj i n : ℕ}

theorem findHandle_some (h : table.findHandle obj n = some i) :
    i < n ∧ table.validBitmap.getLsbD i = true ∧ table.objlist i = some obj := by
  have hi := find?_some (p := fun i => table.validBitmap.getLsbD i
    && table.objlist i == some obj) h
  simp only [Bool.and_eq_true, beq_iff_eq] at hi
  exact ⟨mem_range.1 (mem_of_find?_eq_some h), hi⟩

theorem appendToHandleTable_some (h : table.appendToHandleTable obj = some (i, table')) :
    i < maxObjPerProcess ∧ table.validBitmap.getLsbD i = false
      ∧ table'.objlist = update table.objlist i (some obj)
      ∧ ∀ j < maxObjPerProcess,
        table'.validBitmap.getLsbD j = (table.validBitmap.getLsbD j || decide (j = i)) := by
  simp only [appendToHandleTable] at h
  split_ifs at h with hfull
  simp only [Option.some.injEq, Prod.mk.injEq] at h
  obtain ⟨rfl, rfl⟩ := h
  have hne : table.validBitmap ≠ BitVec.allOnes 32 := by
    rintro heq
    exact hfull (by rw [heq]; decide)
  obtain ⟨hlt, hclear, -⟩ := Bitmap.ctz_not_spec hne
  refine ⟨hlt, hclear, rfl, fun j hj => ?_⟩
  rw [BitVec.getLsbD_or, Bitmap.getLsbD_one_shiftLeft (w := 32) hj]

theorem appendToHandleTable_eq_none :
    table.appendToHandleTable obj = none ↔ ~~~table.validBitmap = 0#32 := by
  simp [appendToHandleTable]

theorem appendToHandleTable_lowest (h : table.appendToHandleTable obj = some (i, table')) :
    ∀ j < i, table.validBitmap.getLsbD j = true := by
  have hfull : ~~~table.validBitmap ≠ 0#32 := fun hfull => by
    rw [appendToHandleTable_eq_none.2 hfull] at h
    cases h
  simp only [appendToHandleTable, if_neg hfull, Option.some.injEq, Prod.mk.injEq] at h
  obtain ⟨rfl, -⟩ := h
  refine (Bitmap.ctz_not_spec fun heq => hfull ?_).2.2
  rw [heq]
  decide

def BitsAgree (table : HandleTable) : Prop :=
  ∀ i < maxObjPerProcess, table.validBitmap.getLsbD i = (table.objlist i).isSome

theorem BitsAgree.free (h : table.BitsAgree)
    (happend : table.appendToHandleTable obj = some (i, table')) : table.objlist i = none := by
  obtain ⟨hi, hclear, -⟩ := appendToHandleTable_some happend
  simpa [hclear] using h i hi

theorem BitsAgree.append (h : table.BitsAgree)
    (happend : table.appendToHandleTable obj = some (i, table')) : table'.BitsAgree := by
  obtain ⟨hi, -, hobj, hbits⟩ := appendToHandleTable_some happend
  intro j hj
  rw [hbits j hj, hobj, h j hj]
  by_cases hji : j = i
  · simp [hji]
  · simp [hji]

theorem BitsAgree.delete (h : table.BitsAgree) (i : ℕ) :
    (table.deleteFromHandleTable i).2.BitsAgree := by
  intro j hj
  simp only [deleteFromHandleTable, BitVec.getLsbD_and, BitVec.getLsbD_not, h j hj]
  rw [Bitmap.getLsbD_one_shiftLeft (w := 32) hj]
  have hj' : j < 32 := hj
  by_cases hji : j = i
  · simp [hji]
  · simp [hji, hj']

end HandleTable

namespace Kernel

variable {k k' : Kernel} {q o : ℕ}

theorem setHandles_process (k : Kernel) (q : ℕ) (table : HandleTable) :
    ((k.setHandles q table).process q).handles = table := by
  simp [setHandles, setProcess]

theorem setHandles_process_ne (k : Kernel) {q' : ℕ} (h : q' ≠ q) (table : HandleTable) :
    (k.setHandles q table).process q' = k.process q' := by
  simp [setHandles, setProcess, h]

theorem createPort_cases {name : Option (List (BitVec 8))} {owner : ℕ} {portOk nodeOk : Bool}
    {st : Status} {res : Option ℕ} (h : k.createPort name owner portOk nodeOk = .ok (st, res, k')) :
    (st ≠ .ok ∧ res = none ∧ (k' = k ∨ k' = k.allocatePort
      ∨ ∃ x, k' = (k.allocatePort.setPort k.ports x).freePort k.ports))
    ∨ (st = .ok ∧ res = some k.ports ∧ ∃ x l, x.head = 0 ∧ x.tail = 0 ∧ x.count = 0
      ∧ x.owner = some owner ∧ (l = k.portList ∨ l = k.ports :: k.portList)
      ∧ k' = { k.allocatePort.setPort k.ports x with portList := l }) := by
  obtain ⟨found, -, h⟩ := bind_eq_ok.1 h
  simp only at h
  split_ifs at h with hfound hport hlen hname hnode
  · cases h
    exact .inl ⟨by simp, rfl, .inl rfl⟩
  · cases h
    exact .inl ⟨by simp, rfl, .inl rfl⟩
  · cases h
    exact .inl ⟨by simp, rfl, .inr (.inl rfl)⟩
  · cases h
    exact .inr ⟨rfl, rfl, _, k.portList, rfl, rfl, rfl, rfl, .inl rfl, rfl⟩
  · cases h
    exact .inl ⟨by simp, rfl, .inr (.inr ⟨_, rfl⟩)⟩
  · cases h
    exact .inr ⟨rfl, rfl, _, _, rfl, rfl, rfl, rfl, .inr rfl, rfl⟩

theorem findPort_mem {name : List (BitVec 8)} {p : ℕ} :
    ∀ {l : List ℕ}, k.findPort name l = .ok (some p) → p ∈ l
  | [], h => by simp [findPort] at h
  | p' :: l, h => by
    obtain ⟨port, -, h⟩ := bind_eq_ok.1 h
    split_ifs at h
    · cases h
      exact mem_cons_self
    · exact mem_cons_of_mem _ (findPort_mem h)

theorem deleteData_cases {obj : Object} (h : k.deleteData obj = .ok k') :
    (∃ p, obj.data = some p ∧ obj.type = .port ∧ k' = k.deletePort p) ∨ SameStore k k' := by
  unfold deleteData at h
  split at h
  · rename_i p hdata htype
    cases h
    exact .inl ⟨p, hdata, htype, rfl⟩
  · exact .inr (sameStore_deleteThread h)
  · cases h
    exact .inr (.refl k)

theorem deleteObject_cases (h : k.deleteObject o = .ok k') :
    k.live.object o = true
    ∧ ((1 < (k.object o).refcnt
        ∧ k' = k.setObject o { k.object o with refcnt := (k.object o).refcnt - 1 })
      ∨ (¬ 1 < (k.object o).refcnt
        ∧ ∃ r, k.deleteData (k.object o) = .ok r ∧ k' = r.freeObject o)) := by
  obtain ⟨obj, hobj, h⟩ := bind_eq_ok.1 h
  obtain ⟨hlive, rfl⟩ := derefObject_ok.1 hobj
  refine ⟨hlive, ?_⟩
  split_ifs at h with hmany
  · cases h
    exact .inl ⟨hmany, rfl⟩
  · obtain ⟨r, hr, h⟩ := bind_eq_ok.1 h
    cases h
    exact .inr ⟨hmany, r, hr, rfl⟩

theorem deleteObject_process (h : k.deleteObject o = .ok k') : k'.process = k.process := by
  obtain ⟨-, ⟨-, rfl⟩ | ⟨-, r, hr, rfl⟩⟩ := deleteObject_cases h
  · rfl
  rcases deleteData_cases hr with ⟨p, -, -, rfl⟩ | hsame
  · unfold deletePort
    split_ifs <;> rfl
  · exact hsame.process

theorem deleteSlot_cases {i : ℕ} (h : deleteSlot q k i = .ok k') :
    ((k.process q).handles.objlist i = none
      ∧ k' = k.setHandles q ((k.process q).handles.deleteFromHandleTable i).2)
    ∨ ∃ o, (k.process q).handles.objlist i = some o
      ∧ (k.setHandles q ((k.process q).handles.deleteFromHandleTable i).2).deleteObject o
        = .ok k' := by
  simp only [deleteSlot, HandleTable.deleteFromHandleTable] at h
  split at h
  · rename_i o ho
    exact .inr ⟨o, ho, h⟩
  · rename_i ho
    cases h
    exact .inl ⟨ho, rfl⟩

theorem deleteProcess_cases (h : k.deleteProcess q = .ok k') :
    k.live.process q = true
    ∧ ∃ r r', (range maxObjPerProcess).foldlM (deleteSlot q)
        { k with processList := k.processList.erase q } = .ok r
      ∧ SameStore r r'
      ∧ k' = { r' with live := { r'.live with
          process := update r'.live.process q false } } := by
  obtain ⟨proc, hproc, h⟩ := bind_eq_ok.1 h
  obtain ⟨hlive, -⟩ := derefProcess_ok.1 hproc
  obtain ⟨r, hr, h⟩ := bind_eq_ok.1 h
  cases h
  have hset : SameStore r (r.setThread (r.process q).mainThread
      { r.thread (r.process q).mainThread with state := .terminated }) := sameStore_setThread rfl
  exact ⟨hlive, r, _, hr, hset, rfl⟩

/-- The state in which a new process and its thread exist but have not been made known. -/
def withProcess (k : Kernel) : Kernel :=
  let r := (k.allocateUserThread (some k.processes)).2
  { r with
    process := update k.process k.processes
      ⟨k.threads, k.processIdCounter, ⟨fun _ => none, 0#32⟩, fun _ => 0#16, 0, 0#32⟩
    live := { k.live with process := update k.live.process k.processes true }
    processes := k.processes + 1
    processIdCounter := k.processIdCounter + 1 }

theorem createProcess_cases (h : k.createProcess = .ok (q, k')) :
    ∃ r, SameStore k.withProcess r
      ∧ k' = { r with processList := r.processList ++ [k.processes] } := by
  obtain ⟨r, hr, h⟩ := bind_eq_ok.1 h
  cases h
  exact ⟨r, sameStore_addThreadToScheduler hr, rfl⟩

theorem withProcess_live (k : Kernel) (q : ℕ) :
    k.withProcess.live.process q = true ↔ q = k.processes ∨ k.live.process q = true := by
  by_cases heq : q = k.processes
  · simp [withProcess, heq]
  · simp [withProcess, heq]

theorem createProcess_processList (h : k.createProcess = .ok (q, k'))
    (hlt : ∀ q, k.live.process q = true → q < k.processes)
    (hlisted : ∀ q ∈ k.processList, k.live.process q = true) (hnodup : k.processList.Nodup) :
    (∀ q, k'.live.process q = true → q < k'.processes)
      ∧ (∀ q ∈ k'.processList, k'.live.process q = true) ∧ k'.processList.Nodup := by
  obtain ⟨r, hr, rfl⟩ := createProcess_cases h
  have hlist : r.processList = k.processList := hr.processList
  have hnew : k.processes ∉ k.processList := fun hmem =>
    absurd (hlt _ (hlisted _ hmem)) (lt_irrefl _)
  refine ⟨fun q hq => ?_, fun q hq => ?_, ?_⟩
  · rw [hr.live, withProcess_live] at hq
    have hnum : r.processes = k.processes + 1 := hr.processes
    rcases hq with rfl | hq
    · simp [hnum]
    · simpa [hnum] using (hlt q hq).trans (Nat.lt_succ_self _)
  · rw [hr.live, withProcess_live]
    rw [hlist] at hq
    rcases mem_append.1 hq with hq | hq
    · exact .inr (hlisted q hq)
    · exact .inl (mem_singleton.1 hq)
  · simp only [hlist]
    refine nodup_append.2 ⟨hnodup, nodup_singleton _, fun a ha b hb hab => hnew ?_⟩
    rwa [← mem_singleton.1 hb, ← hab]

end Kernel

end DragonWare
