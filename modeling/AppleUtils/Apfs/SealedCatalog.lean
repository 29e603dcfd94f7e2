import AppleUtils.Apfs.Read
import AppleUtils.Apfs.Node
import AppleUtils.Lib.Checks

/-! # The two walks of a sealed catalog

The nodes of a sealed catalog have no object header, and an index record's value does not say by itself
where the child is.  The verifier takes it as a block address (`Direct`); the reader adds the root's
object identifier and asks the object map (`Resolved`), going only where the key it looks for can be.

Each walk visits what is reached by its own steps: `mem_scanned_iff`, `mem_visits_iff`.  Where every
index value resolves to the block of its own number, the reader visits only what the verifier has
visited, and all of it if the index keys bound those below them (`same_nodes`). -/

namespace AppleUtils.Apfs

open Bytes Checks List Apfs.Reader

variable {walk walk' : Reader.RecordWalk} {scan scan' : FsRootScan} {v : Verifier} {volume : Volume}
    {objectId : ℕ}

/-! ### Nodes and pointers -/

/-- The node without an object header at an address. -/
def sealedNode (v : Verifier) (paddr : ℕ) : Checked BTreeNode := do
  let object ← (v.readHeaderlessNode paddr).result
  BTreeNode.decodeNode object v.blockSize true

/-- The value of an index record. -/
def storedAt (node : BTreeNode) (index : ℕ) : ℕ :=
  match node.entry index with
  | .ok (_, value) => leAt 8 value 0
  | .error _ => 0

/-- The object and kind of the key of a record. -/
def headOf (record : Bytes × Bytes) : ℕ × ℕ :=
  (objId (leAt 8 record.1 0), recordKind (leAt 8 record.1 0))

def keyAt (node : BTreeNode) (index : ℕ) : ℕ × ℕ :=
  match node.entry index with
  | .ok record => headOf record
  | .error _ => (0, 0)

/-- The keys of a node can be read and are in order. -/
structure Ordered (node : BTreeNode) : Prop where
  readable : ∀ index < node.nkeys, ∃ record, node.entry index = .ok record ∧ 8 ≤ record.1.length
  sorted : ∀ index, index + 1 < node.nkeys → pairLe (keyAt node index) (keyAt node (index + 1)) = true

/-- What is reached from a node when values are block addresses. -/
inductive Direct (v : Verifier) (start : ℕ) : ℕ → Prop
  | refl : Direct v start start
  | child {p index : ℕ} {node : BTreeNode} : Direct v start p → sealedNode v p = .ok node →
      node.isLeaf = false → index < node.nkeys → Direct v start (storedAt node index)

/-- The child of an index record that the reader goes to, looking for the records of an object of
one kind. -/
structure Follows (volume : Volume) (objectId kind : ℕ) (node : BTreeNode) (index child : ℕ) :
    Prop where
  notLeaf : node.isLeaf = false
  lt : index < node.nkeys
  reaches : ∃ keys, prefixes node objectId kind = .ok keys
    ∧ reaches keys (objectId, kind) index = true
  resolves : resolve volume.omap (storedAt node index + volume.fsTreeOid) volume.resolveXid = .ok child

/-- What is reached from a node when values are relative to the root's identifier. -/
inductive Resolved (v : Verifier) (volume : Volume) (objectId kind : ℕ) (start : ℕ) : ℕ → Prop
  | refl : Resolved v volume objectId kind start start
  | child {p index c : ℕ} {node : BTreeNode} : Resolved v volume objectId kind start p →
      sealedNode v p = .ok node → Follows volume objectId kind node index c →
      Resolved v volume objectId kind start c

lemma Direct.trans {a b c : ℕ} (h : Direct v a b) (h' : Direct v b c) : Direct v a c := by
  induction h' with
  | refl => exact h
  | child _ hnode hleaf hlt ih => exact ih.child hnode hleaf hlt

lemma Resolved.trans {kind a b c : ℕ}
    (h : Resolved v volume objectId kind a b) (h' : Resolved v volume objectId kind b c) :
    Resolved v volume objectId kind a c := by
  induction h' with
  | refl => exact h
  | child _ hnode hfollows ih => exact ih.child hnode hfollows

lemma Resolved.cases_head {kind a p : ℕ} (h : Resolved v volume objectId kind a p) :
    p = a ∨ ∃ node index c, sealedNode v a = .ok node ∧ Follows volume objectId kind node index c
      ∧ Resolved v volume objectId kind c p := by
  induction h with
  | refl => exact .inl rfl
  | child _ hnode hfollows ih =>
    obtain rfl | ⟨node', index', c', hnode', hfollows', hreach⟩ := ih
    · exact .inr ⟨_, _, _, hnode, hfollows, .refl⟩
    · exact .inr ⟨node', index', c', hnode', hfollows', hreach.child hnode hfollows⟩

/-! ### The verifier -/

section Scan

variable {volumeOid xid : ℕ} {layout : DrecKeyLayout}
    {depth paddr : ℕ} {expectedLevel : Option ℕ} {visited : List ℕ}

/-- The order of ranks is the order of objects and kinds first. -/
lemma pairLe_of_rank {a b : Bytes × Bytes} (h : ¬ keyRank layout b.1 < keyRank layout a.1) :
    pairLe (headOf a) (headOf b) = true := by
  by_contra hle
  rw [Bool.not_eq_true, pairLe_eq_false] at hle
  apply h
  rw [keyRank, keyRank]
  simp only [headOf] at hle
  rcases hle with hlt | ⟨heq, hlt⟩
  · exact List.Lex.rel hlt
  · rw [heq]
    exact List.Lex.cons (List.Lex.rel hlt)

lemma scanRecord_spec {node : BTreeNode} {state state' : NodeScan} {index : ℕ}
    (h : scanRecord volumeOid layout none xid node state index = .ok state') :
    ∃ record, node.entry index = .ok record ∧ 8 ≤ record.1.length ∧
      (∀ rank, state.previous = some rank → rank < keyRank layout record.1) ∧
      state'.previous = some (keyRank layout record.1) ∧
      state'.descendInto = state.descendInto ++ if node.isLeaf then [] else [storedAt node index] := by
  simp only [scanRecord, returns, checks] at h
  obtain ⟨⟨key, value⟩, hentry, hlen, horder, h⟩ := h
  refine ⟨_, hentry, not_lt.mp hlen, ?_, ?_⟩
  · intro rank hrank
    simpa [hrank] using horder
  split at h
  next hleaf =>
    simp only [returns] at h
    obtain ⟨_, -, rfl⟩ := h
    simp [hleaf]
  next hleaf =>
    simp only [returns, checks] at h
    obtain ⟨-, _, ⟨-, rfl⟩, _, rfl, rfl⟩ := h
    simp [hleaf, storedAt, hentry]

lemma scanRecords_spec {node : BTreeNode} {children : List ℕ}
    (h : scanRecords volumeOid layout none xid node scan = .ok (children, scan')) :
    children = (if node.isLeaf then [] else (List.range node.nkeys).map (storedAt node)) ∧
      Ordered node := by
  simp only [scanRecords, returns, Prod.mk.injEq] at h
  obtain ⟨state, hfold, rfl, -⟩ := h
  -- the rank of the last key is carried along, so each key is compared with the one before
  have hall := Checks.foldlM_range_ok
    (I := fun n (state : NodeScan) =>
      state.descendInto = (if node.isLeaf then [] else (List.range n).map (storedAt node)) ∧
      (∀ index < n, ∃ record, node.entry index = .ok record ∧ 8 ≤ record.1.length) ∧
      (∀ index, index + 1 < n → pairLe (keyAt node index) (keyAt node (index + 1)) = true) ∧
      ∀ index, index + 1 = n → ∃ record, node.entry index = .ok record ∧
        state.previous = some (keyRank layout record.1))
    (fun n state state' _ hstate hstep => ?_)
    ⟨by simp, fun _ h => absurd h (Nat.not_lt_zero _), fun _ h => absurd h (Nat.not_lt_zero _),
      fun _ h => absurd h (Nat.succ_ne_zero _)⟩ hfold
  · exact ⟨hall.1, hall.2.1, hall.2.2.1⟩
  · obtain ⟨hchildren, hreadable, hsorted, hlast⟩ := hstate
    obtain ⟨record, hrecord, hlen, hbefore, hprevious, hdescend⟩ := scanRecord_spec hstep
    refine ⟨?_, ?_, ?_, ?_⟩
    · rw [hdescend, hchildren]
      split <;> simp [range_succ]
    · intro index hindex
      rcases Nat.lt_succ_iff_lt_or_eq.mp hindex with hlt | rfl
      · exact hreadable index hlt
      · exact ⟨record, hrecord, hlen⟩
    · intro index hindex
      rcases Nat.lt_succ_iff_lt_or_eq.mp hindex with hlt | rfl
      · exact hsorted index hlt
      · obtain ⟨earlier, hearlier, hrank⟩ := hlast index rfl
        simp only [keyAt, hearlier, hrecord]
        exact pairLe_of_rank (List.lt_asymm (hbefore _ hrank))
    · rintro index hindex
      obtain rfl := Nat.succ.inj hindex
      exact ⟨record, hrecord, hprevious⟩

/-- What a scan from some nodes has added to the visited nodes: what is reached from them, each with
its children. -/
structure Scanned (v : Verifier) (starts visited visited' : List ℕ) : Prop where
  begun : starts ⊆ visited'
  kept : visited ⊆ visited'
  reached : ∀ p ∈ visited', p ∈ visited ∨ ∃ start ∈ starts, Direct v start p
  closed : ∀ p ∈ visited', p ∉ visited → ∀ node index, sealedNode v p = .ok node →
    node.isLeaf = false → index < node.nkeys → storedAt node index ∈ visited'
  ordered : ∀ p ∈ visited', p ∉ visited → ∀ node, sealedNode v p = .ok node → Ordered node

namespace Scanned

variable {starts rest visited₁ visited₂ : List ℕ}

lemma nil (visited : List ℕ) : Scanned v [] visited visited :=
  ⟨nofun, List.Subset.refl _, fun _ hp => .inl hp, fun _ hp hnot => absurd hp hnot,
    fun _ hp hnot => absurd hp hnot⟩

lemma append (h₁ : Scanned v starts visited visited₁) (h₂ : Scanned v rest visited₁ visited₂) :
    Scanned v (starts ++ rest) visited visited₂ where
  begun := append_subset.mpr ⟨List.Subset.trans h₁.begun h₂.kept, h₂.begun⟩
  kept := List.Subset.trans h₁.kept h₂.kept
  reached := by
    intro p hp
    obtain hp | ⟨start, hstart, hreach⟩ := h₂.reached p hp
    · obtain hp | ⟨start, hstart, hreach⟩ := h₁.reached p hp
      · exact .inl hp
      · exact .inr ⟨start, mem_append_left _ hstart, hreach⟩
    · exact .inr ⟨start, mem_append_right _ hstart, hreach⟩
  closed := by
    intro p hp hnot node index hnode hleaf hlt
    by_cases hp₁ : p ∈ visited₁
    · exact h₂.kept (h₁.closed p hp₁ hnot node index hnode hleaf hlt)
    · exact h₂.closed p hp hp₁ node index hnode hleaf hlt
  ordered := by
    intro p hp hnot node hnode
    by_cases hp₁ : p ∈ visited₁
    · exact h₁.ordered p hp₁ hnot node hnode
    · exact h₂.ordered p hp hp₁ node hnode

lemma node {p : ℕ} {node : BTreeNode} (hnode : sealedNode v p = .ok node) (hordered : Ordered node)
    (h : Scanned v (if node.isLeaf then [] else (List.range node.nkeys).map (storedAt node))
      (p :: visited) visited₁) : Scanned v [p] visited visited₁ where
  begun := cons_subset.mpr ⟨h.kept mem_cons_self, nil_subset _⟩
  kept := List.Subset.trans (subset_cons_self _ _) h.kept
  reached := by
    intro q hq
    obtain hq | ⟨start, hstart, hreach⟩ := h.reached q hq
    · obtain rfl | hq := mem_cons.mp hq
      · exact .inr ⟨q, mem_singleton_self q, .refl⟩
      · exact .inl hq
    · refine .inr ⟨p, mem_singleton_self p, ?_⟩
      split at hstart
      · exact absurd hstart not_mem_nil
      next hleaf =>
          obtain ⟨index, hindex, rfl⟩ := mem_map.mp hstart
          exact (Direct.child .refl hnode (by simpa using hleaf) (mem_range.mp hindex)).trans hreach
  closed := by
    intro q hq hnot node' index hnode' hleaf hlt
    by_cases hqp : q = p
    · subst hqp
      cases hnode.symm.trans hnode'
      refine h.begun ?_
      rw [hleaf]
      exact mem_map.mpr ⟨index, mem_range.mpr hlt, rfl⟩
    · exact h.closed q hq (by simp [hqp, hnot]) node' index hnode' hleaf hlt
  ordered := by
    intro q hq hnot node' hnode'
    by_cases hqp : q = p
    · subst hqp
      cases hnode.symm.trans hnode'
      exact hordered
    · exact h.ordered q hq (by simp [hqp, hnot]) node' hnode'

end Scanned

/-- A scan that accepts has visited what is reached from its node. -/
lemma scanned_of_ok {visited' : List ℕ}
    (h : (v.scanFsRecords volumeOid layout none xid depth paddr expectedLevel (visited, scan)).result
      = .ok (visited', scan')) : Scanned v [paddr] visited visited' := by
  induction depth generalizing paddr expectedLevel visited visited' scan scan' with
  | zero => cases h
  | succ depth ih =>
    simp only [Verifier.scanFsRecords, Verifier.readCatalogNode, Option.isNone_none, if_true, Logged.bind_result_ok,
      liftM, Logged.monadLift_result, checks] at h
    obtain ⟨-, object, hobject, node, hnode, -, ⟨children, scan₁⟩, hrecords, h⟩ := h
    have hsealed : sealedNode v paddr = .ok node := by
      rw [sealedNode, bind_eq_ok]
      exact ⟨object, hobject, hnode⟩
    obtain ⟨hchildren, hordered⟩ := scanRecords_spec hrecords
    refine .node hsealed hordered ?_
    rw [← hchildren]
    split at h
    next hleaf =>
        simp only [Logged.pure_result, Except.ok.injEq, Prod.mk.injEq] at h
        obtain ⟨rfl, rfl⟩ := h
        rw [hchildren, if_pos hleaf]
        exact .nil _
    next hleaf =>
        simp only [Logged.bind_result_ok, Logged.monadLift_result, checks] at h
        obtain ⟨-, h⟩ := h
        clear hchildren hrecords
        generalize paddr :: visited = visited₁ at h ⊢
        induction children generalizing visited₁ scan₁ with
        | nil =>
          obtain ⟨rfl, rfl⟩ := Prod.mk.inj (Except.ok.inj h)
          exact .nil _
        | cons child children ihc =>
          rw [foldlM_cons, Logged.bind_result_ok] at h
          obtain ⟨⟨visited₂, scan₂⟩, hchild, h⟩ := h
          exact (ih hchild).append (ihc _ _ h)

/-- The verifier visits what is reached by reading values as addresses. -/
lemma mem_scanned_iff
    (h : (v.scanFsRecords volumeOid layout none xid depth paddr expectedLevel ([], scan)).result
      = .ok (visited, scan')) (p : ℕ) : p ∈ visited ↔ Direct v paddr p := by
  have hscanned := scanned_of_ok h
  constructor
  · intro hp
    obtain hp | ⟨start, hstart, hreach⟩ := hscanned.reached p hp
    · exact absurd hp not_mem_nil
    · exact mem_singleton.mp hstart ▸ hreach
  · intro hreach
    induction hreach with
    | refl => exact hscanned.begun (mem_singleton_self _)
    | child _ hnode hleaf hlt ih => exact hscanned.closed _ ih not_mem_nil _ _ hnode hleaf hlt

end Scan

/-! ### The reader -/

namespace Reader

variable (r : Reader) (volume : Volume) (objectId kind : ℕ)

/-- One turn of the reader's walk, at the node on top of the stack. -/
def visitNode (paddr : ℕ) (expectedLevel : Option ℕ) (walk : RecordWalk) : Checked RecordWalk := do
  let node ← r.readNode volume paddr expectedLevel
  let keys ← prefixes node objectId kind
  (List.range node.nkeys).foldlM (visitRecord volume objectId kind node keys) walk

/-- The nodes the walk takes from its stack. -/
def visitsLoop : ℕ → RecordWalk → List ℕ
  | 0, _ => []
  | nodes + 1, walk =>
    match walk.pending with
    | [] => []
    | (paddr, expectedLevel) :: pending =>
      paddr :: match r.visitNode volume objectId kind paddr expectedLevel { walk with pending } with
        | .ok walk => visitsLoop nodes walk
        | .error _ => []

/-- The nodes `records` visits. -/
def visits : List ℕ :=
  r.visitsLoop volume objectId kind MAX_TREE_NODES ⟨[], [(volume.fsTreePaddr, none)]⟩

end Reader

section Records

variable {r : Reader} {kind : ℕ}
    {expectedLevel : Option ℕ} {nodes paddr : ℕ} {pending : List (ℕ × Option ℕ)} {found : List (Bytes × Bytes)}

lemma faulted_eq_ok {α : Type} {what : String} {x : Scan α} {a : α} :
    faulted what x = .ok a ↔ x.result = .ok a := by
  unfold faulted
  cases x.result with
  | ok b => simp [Except.mapError]
  | error e => simp [Except.mapError]

lemma readNode_eq_ok {paddr : ℕ} {expectedLevel : Option ℕ} {node : BTreeNode}
    (hsealed : volume.headerlessCatalog = true) : r.readNode volume paddr expectedLevel = .ok node
      ↔ sealedNode r.verifier paddr = .ok node ∧ ∀ level ∈ expectedLevel, node.level = level := by
  simp only [readNode, bind_eq_ok, faulted_eq_ok, hsealed, Verifier.readCatalogNode, if_true, sealedNode]
  cases expectedLevel with
  | none =>
    simp only [pure_eq_ok, reduceCtorEq, Option.mem_def, false_implies, implies_true, and_true]
    constructor
    · rintro ⟨object, hobject, _, hnode, rfl⟩
      exact ⟨object, hobject, hnode⟩
    · rintro ⟨object, hobject, hnode⟩
      exact ⟨object, hobject, node, hnode, rfl⟩
  | some level =>
    simp only [returns, checks, refuseIf_eq_ok, not_not, Option.mem_def, Option.some.injEq, forall_eq']
    constructor
    · rintro ⟨object, hobject, _, hnode, hlevel, rfl⟩
      exact ⟨⟨object, hobject, hnode⟩, hlevel⟩
    · rintro ⟨⟨object, hobject, hnode⟩, hlevel⟩
      exact ⟨object, hobject, node, hnode, hlevel, rfl⟩

/-- A record of an index node puts the child it leads to on the stack, if it leads to one. -/
lemma visitRecord_pending {node : BTreeNode} {keys : List (ℕ × ℕ)}
    {index : ℕ} (hsealed : volume.headerlessCatalog = true)
    (hkeys : prefixes node objectId kind = .ok keys) (hlt : index < node.nkeys)
    (h : visitRecord volume objectId kind node keys walk index = .ok walk') (c : ℕ) :
    c ∈ walk'.pending.map Prod.fst ↔ c ∈ walk.pending.map Prod.fst ∨ Follows volume objectId kind node index c := by
  simp only [visitRecord, bind_eq_ok, faulted_eq_ok] at h
  obtain ⟨⟨key, value⟩, hentry, h⟩ := h
  split at h
  next hleaf =>
      have hsame : walk'.pending = walk.pending := by
        split at h
        · rw [pure_eq_ok] at h
          rw [h]
        · simp only [returns, checks, refuseIf_eq_ok] at h
          rw [← h.2]
      rw [hsame]
      exact ⟨.inl, fun h => h.resolve_right fun hf => absurd hf.notLeaf (by simp [hleaf])⟩
  next hleaf =>
      have hleaf' : node.isLeaf = false := by simpa using hleaf
      split at h
      next hreach =>
          rw [pure_eq_ok] at h
          subst h
          refine ⟨.inl, fun h => h.resolve_right fun hf => ?_⟩
          obtain ⟨keys', hkeys', hreaches⟩ := hf.reaches
          cases hkeys.symm.trans hkeys'
          simp [hreaches] at hreach
      next hreach =>
          simp only [returns, checks, refuseIf_eq_ok, faulted_eq_ok, childObjectId, hsealed, Bool.not_true,
            Bool.false_eq_true, if_false, liftM, Logged.monadLift_result] at h
          obtain ⟨-, -, _, ⟨-, rfl⟩, child, hchild, rfl⟩ := h
          have hentry' : node.entry index = .ok (key, value) := hentry
          have hstored : storedAt node index = leAt 8 value 0 := by rw [storedAt, hentry']
          simp only [map_cons, mem_cons]
          constructor
          · rintro (rfl | hmem)
            · exact .inr ⟨hleaf', hlt, ⟨keys, hkeys, by simpa using hreach⟩, hstored ▸ hchild⟩
            · exact .inl hmem
          · rintro (hmem | hf)
            · exact .inr hmem
            · have := hf.resolves
              rw [hstored, hchild] at this
              exact .inl (Except.ok.inj this).symm

/-- A turn puts the children it leads to on the stack. -/
lemma visitNode_pending (hsealed : volume.headerlessCatalog = true)
    (h : r.visitNode volume objectId kind paddr expectedLevel walk = .ok walk') :
    ∃ node, sealedNode r.verifier paddr = .ok node ∧ ∀ c, c ∈ walk'.pending.map Prod.fst
      ↔ c ∈ walk.pending.map Prod.fst ∨ ∃ index, Follows volume objectId kind node index c := by
  simp only [visitNode, bind_eq_ok] at h
  obtain ⟨node, hnode, keys, hkeys, hfold⟩ := h
  refine ⟨node, ((readNode_eq_ok hsealed).mp hnode).1, ?_⟩
  have hpending := Checks.foldlM_range_ok
    (I := fun k (walk' : Reader.RecordWalk) => ∀ c, c ∈ walk'.pending.map Prod.fst
      ↔ c ∈ walk.pending.map Prod.fst ∨ ∃ index < k, Follows volume objectId kind node index c)
    (fun k walk₁ walk₂ hk hwalk hstep c => ?_) (fun c => by simp) hfold
  · intro c
    rw [hpending c]
    refine or_congr_right ⟨?_, ?_⟩
    · rintro ⟨index, _, hf⟩
      exact ⟨index, hf⟩
    · rintro ⟨index, hf⟩
      exact ⟨index, hf.lt, hf⟩
  · rw [visitRecord_pending hsealed hkeys hk hstep, hwalk, or_assoc]
    refine or_congr_right ⟨?_, ?_⟩
    · rintro (⟨index, hindex, hf⟩ | hf)
      · exact ⟨index, by omega, hf⟩
      · exact ⟨k, by omega, hf⟩
    · rintro ⟨index, hindex, hf⟩
      obtain hindex | rfl := Nat.lt_succ_iff_lt_or_eq.mp hindex
      · exact .inl ⟨index, hindex, hf⟩
      · exact .inr hf

lemma recordsLoop_cons (h : walk.pending = (paddr, expectedLevel) :: pending) :
    r.recordsLoop volume objectId kind (nodes + 1) walk
      = r.visitNode volume objectId kind paddr expectedLevel { walk with pending }
        >>= r.recordsLoop volume objectId kind nodes := by
  rw [recordsLoop, h, visitNode]
  simp only [bind_assoc]

lemma visitsLoop_cons (h : walk.pending = (paddr, expectedLevel) :: pending)
    (hvisit : r.visitNode volume objectId kind paddr expectedLevel { walk with pending } = .ok walk') :
    r.visitsLoop volume objectId kind (nodes + 1) walk
      = paddr :: r.visitsLoop volume objectId kind nodes walk' := by
  rw [visitsLoop, h]
  simp only [hvisit]

/-- A walk that returns has visited what is reached from its stack. -/
lemma mem_visitsLoop_iff (hsealed : volume.headerlessCatalog = true)
    (h : r.recordsLoop volume objectId kind nodes walk = .ok found) (p : ℕ) :
    p ∈ r.visitsLoop volume objectId kind nodes walk
      ↔ ∃ start ∈ walk.pending.map Prod.fst, Resolved r.verifier volume objectId kind start p := by
  induction nodes generalizing walk with
  | zero =>
    rw [recordsLoop] at h
    cases hpending : walk.pending with
    | nil => simp [visitsLoop]
    | cons next pending =>
      rw [hpending] at h
      cases h
  | succ nodes ih =>
    cases hpending : walk.pending with
    | nil => simp [visitsLoop, hpending]
    | cons next pending =>
      obtain ⟨paddr, expectedLevel⟩ := next
      rw [recordsLoop_cons hpending, bind_eq_ok] at h
      obtain ⟨walk', hvisit, hrest⟩ := h
      rw [visitsLoop_cons hpending hvisit]
      obtain ⟨node, hnode, hchildren⟩ := visitNode_pending hsealed hvisit
      simp only [mem_cons, ih hrest, map_cons, exists_eq_or_imp]
      constructor
      · rintro (rfl | ⟨start, hstart, hreach⟩)
        · exact .inl .refl
        · obtain hstart | ⟨index, hf⟩ := (hchildren start).mp hstart
          · exact .inr ⟨start, hstart, hreach⟩
          · exact .inl ((Resolved.child .refl hnode hf).trans hreach)
      · rintro (hreach | ⟨start, hstart, hreach⟩)
        · obtain rfl | ⟨node', index, c, hnode', hf, hreach⟩ := hreach.cases_head
          · exact .inl rfl
          · cases hnode.symm.trans hnode'
            exact .inr ⟨c, (hchildren c).mpr (.inr ⟨index, hf⟩), hreach⟩
        · exact .inr ⟨start, (hchildren start).mpr (.inl hstart), hreach⟩

/-- The reader visits what is reached by resolving values relative to the root. -/
lemma mem_visits_iff (hsealed : volume.headerlessCatalog = true)
    (h : r.records volume objectId kind = .ok found) (p : ℕ) : p ∈ r.visits volume objectId kind
      ↔ Resolved r.verifier volume objectId kind volume.fsTreePaddr p := by
  rw [visits, mem_visitsLoop_iff hsealed h]
  simp

end Records

/-! ### Pointers that agree -/

section Agree

variable {node : BTreeNode}

lemma prefixes_of_readable
    (h : ∀ index < node.nkeys, ∃ record, node.entry index = .ok record ∧ 8 ≤ record.1.length)
    (objectId kind : ℕ) :
    prefixes node objectId kind = .ok ((List.range node.nkeys).map (keyAt node)) := by
  rw [prefixes]
  have hrange : ∀ index ∈ List.range node.nkeys, index < node.nkeys := fun _ => mem_range.mp
  generalize List.range node.nkeys = l at hrange
  induction l with
  | nil => rfl
  | cons index l ih =>
    obtain ⟨record, hentry, hlen⟩ := h index (hrange index mem_cons_self)
    have hkey : keyAt node index = headOf record := by rw [keyAt, hentry]
    rw [mapM_cons, ih fun i hi => hrange i (mem_cons_of_mem _ hi)]
    simp only [returns, checks, faulted_eq_ok, refuseIf_eq_ok, liftM, Logged.monadLift_result, hentry, map_cons, hkey]
    exact ⟨_, ⟨_, rfl, not_lt.mpr hlen, _, ⟨by rwa [zero_add], rfl⟩, rfl⟩, _, rfl, rfl⟩

/-- Every index value of the nodes, relative to the root's identifier, resolves to the block of its own
number. -/
def PointersAgree (v : Verifier) (volume : Volume) (nodes : List ℕ) : Prop :=
  ∀ p ∈ nodes, ∀ node, sealedNode v p = .ok node → node.isLeaf = false → ∀ index < node.nkeys,
    resolve volume.omap (storedAt node index + volume.fsTreeOid) volume.resolveXid =
      .ok (storedAt node index)

/-- The keys of an index record and of the next one bound the keys of the index records below. -/
def KeysBound (v : Verifier) (nodes : List ℕ) : Prop :=
  ∀ p ∈ nodes, ∀ node, sealedNode v p = .ok node → node.isLeaf = false → ∀ index < node.nkeys,
    ∀ q node', Direct v (storedAt node index) q → sealedNode v q = .ok node' → node'.isLeaf = false →
      ∀ index' < node'.nkeys,
        (index ≠ 0 → pairLe (keyAt node index) (keyAt node' index') = true) ∧
        (index + 1 < node.nkeys → pairLe (keyAt node' index') (keyAt node (index + 1)) = true)

lemma pairLe_refl (a : ℕ × ℕ) : pairLe a a = true := by simp [pairLe]

/-- The reader, looking for a key between that of a record and the next, goes to the child. -/
lemma follows_of_between {index : ℕ} {key : ℕ × ℕ} (hordered : Ordered node)
    (hleaf : node.isLeaf = false) (hlt : index < node.nkeys)
    (hpointer : resolve volume.omap (storedAt node index + volume.fsTreeOid) volume.resolveXid =
      .ok (storedAt node index))
    (hlow : index ≠ 0 → pairLe (keyAt node index) key = true)
    (hhigh : index + 1 < node.nkeys → pairLe key (keyAt node (index + 1)) = true) :
    Follows volume key.1 key.2 node index (storedAt node index) where
  notLeaf := hleaf
  lt := hlt
  reaches := by
    refine ⟨_, prefixes_of_readable hordered.readable key.1 key.2, ?_⟩
    rw [reaches, length_map, length_range, getElem?_map, getElem?_range hlt, Bool.and_eq_true]
    constructor
    · by_cases hzero : index = 0
      · simp [hzero]
      · simp [hlow hzero]
    · by_cases hnext : index + 1 < node.nkeys
      · simp [getElem?_map, getElem?_range hnext, hhigh hnext]
      · simp [show index + 1 = node.nkeys by omega]
  resolves := hpointer

section Scanned

variable {root : ℕ} {nodes : List ℕ} (hnodes : ∀ p, p ∈ nodes ↔ Direct v root p)
    (hpointers : PointersAgree v volume nodes)

include hnodes hpointers

/-- Whatever the reader looks for, it goes only where the verifier goes. -/
lemma direct_of_resolved {kind p : ℕ} (h : Resolved v volume objectId kind root p) : Direct v root p := by
  induction h with
  | refl => exact .refl
  | child _ hnode hfollows ih =>
    have hpointer := hpointers _ ((hnodes _).mpr ih) _ hnode hfollows.notLeaf _ hfollows.lt
    rw [hfollows.resolves] at hpointer
    obtain rfl := Except.ok.inj hpointer
    exact ih.child hnode hfollows.notLeaf hfollows.lt

variable (hordered : ∀ p ∈ nodes, ∀ node, sealedNode v p = .ok node → Ordered node)
    (hbound : KeysBound v nodes)

include hordered hbound

/-- A node is reached looking for any index key at or below it. -/
lemma resolved_of_direct_below {p : ℕ} (hp : Direct v root p) : ∀ q node index, Direct v p q →
    sealedNode v q = .ok node → node.isLeaf = false → index < node.nkeys →
    Resolved v volume (keyAt node index).1 (keyAt node index).2 root p := by
  induction hp with
  | refl => exact fun q node index _ _ _ _ => .refl
  | @child p index node hp hnode hleaf hlt ih =>
    intro q node' index' hq hnode' hleaf' hlt'
    have hmem := (hnodes p).mpr hp
    obtain ⟨hlow, hhigh⟩ := hbound p hmem node hnode hleaf index hlt q node' hq hnode' hleaf' index' hlt'
    have hfollows := follows_of_between (hordered p hmem node hnode) hleaf hlt
      (hpointers p hmem node hnode hleaf index hlt) hlow hhigh
    exact (ih q node' index' ((Direct.child .refl hnode hleaf hlt).trans hq) hnode' hleaf' hlt').child
      hnode hfollows

lemma resolved_of_direct {p : ℕ} (hp : Direct v root p) :
    ∃ objectId kind, Resolved v volume objectId kind root p := by
  cases hp with
  | refl => exact ⟨0, 0, .refl⟩
  | @child p index node hp hnode hleaf hlt =>
    have hmem := (hnodes p).mpr hp
    have hnode' := hordered p hmem node hnode
    have hfollows := follows_of_between hnode' hleaf hlt (hpointers p hmem node hnode hleaf index hlt)
      (fun _ => pairLe_refl _) (hnode'.sorted index)
    exact ⟨_, _, (resolved_of_direct_below hnodes hpointers hordered hbound hp p node index .refl hnode
      hleaf hlt).child hnode hfollows⟩

end Scanned

end Agree

/-- Where every index value of a sealed catalog that the verifier accepts resolves to the block of its
own number, the reader visits only nodes that the verifier has visited; where the index keys also
bound those below them, the reader, over all it can be asked for, visits all of them. -/
theorem same_nodes (r : Reader) (volume : Volume) (volumeOid xid : ℕ) (visited : List ℕ)
    (scan : FsRootScan) (hsealed : volume.headerlessCatalog = true)
    (hscan : (r.verifier.scanFsRecords volumeOid volume.layout none xid (2 ^ 16) volume.fsTreePaddr none
      ([], {})).result = .ok (visited, scan))
    (hrecords : ∀ objectId kind, ∃ found, r.records volume objectId kind = .ok found)
    (hpointers : PointersAgree r.verifier volume visited) :
    (∀ objectId kind, ∀ p ∈ r.visits volume objectId kind, p ∈ visited) ∧
    (KeysBound r.verifier visited →
      ∀ p, p ∈ visited ↔ ∃ objectId kind, p ∈ r.visits volume objectId kind) := by
  have hnodes := mem_scanned_iff hscan
  have hvisits : ∀ objectId kind p, p ∈ r.visits volume objectId kind ↔
      Resolved r.verifier volume objectId kind volume.fsTreePaddr p := by
    intro objectId kind p
    obtain ⟨found, hfound⟩ := hrecords objectId kind
    exact mem_visits_iff hsealed hfound p
  have hordered : ∀ p ∈ visited, ∀ node, sealedNode r.verifier p = .ok node → Ordered node :=
    fun p hp => (scanned_of_ok hscan).ordered p hp not_mem_nil
  refine ⟨?_, ?_⟩
  · intro objectId kind p hp
    exact (hnodes p).mpr (direct_of_resolved hnodes hpointers ((hvisits objectId kind p).mp hp))
  · intro hbound p
    simp only [hvisits, hnodes]
    refine ⟨resolved_of_direct hnodes hpointers hordered hbound, ?_⟩
    rintro ⟨objectId, kind, hp⟩
    exact direct_of_resolved hnodes hpointers hp

/-! ### A small catalog

The root in block 10 has one record, which points to block 11; the object map takes the value, relative
to the root's identifier 100, to a block `child`. -/

section Small

def smallRoot : Bytes :=
  patch (zeros 512) [u16 0x20 0x11, u16 0x22 1, u32 0x24 1, u16 0x2A 8, u16 58 8, u16 60 8, u16 62 8,
    u64 64 1, u64 464 11]

/-- A leaf without records. -/
def smallLeaf : Bytes := patch (zeros 512) [u16 0x20 0x12]

def smallReader : Reader where
  verifier := ⟨⟨fun p _ => .ok (if p = 10 then smallRoot else smallLeaf)⟩, 512, 20⟩
  xid := 5
  containerOmap := []
  volumeOids := []
  superblockPaddr := 0
  containerBytes := 10240

def smallVolume (child : ℕ) : Volume where
  oid := 1
  name := []
  role := 0
  isSealed := true
  encrypted := false
  fsFlags := 1
  uuid := []
  volumeGroupId := []
  incompatibleFeatures := 0x20
  layout := .plain
  fsTreeOid := 100
  fsTreePaddr := 10
  apsbPaddr := 2
  omap := [⟨100, 5, 10⟩, ⟨111, 5, child⟩]
  resolveXid := 5
  snapMetaTreePaddr := 0
  declaredSnapshots := 0
  extents := .catalog
  headerlessCatalog := true

lemma small_scan : (smallReader.verifier.scanFsRecords 1 .plain none 5 (2 ^ 16) 10 none
    ([], {})).result = .ok ([11, 10], {}) := by decide +kernel

def smallRootNode : BTreeNode := ⟨10, smallRoot, 0x11, 1, 1, 64, 472, 56⟩

def smallLeafNode (p : ℕ) : BTreeNode := ⟨p, smallLeaf, 0x12, 0, 0, 56, 512, 56⟩

lemma small_nodes : sealedNode smallReader.verifier 10 = .ok smallRootNode
    ∧ sealedNode smallReader.verifier 11 = .ok (smallLeafNode 11)
    ∧ sealedNode smallReader.verifier 12 = .ok (smallLeafNode 12) := by decide +kernel

lemma small_entry : smallRootNode.entry 0 = .ok (leBytes 8 1, leBytes 8 11) := by decide +kernel

/-- Whatever the reader is asked for, it goes to the root and to `child`. -/
lemma small_records (child : ℕ)
    (hleaf : sealedNode smallReader.verifier child = .ok (smallLeafNode child)) (objectId kind : ℕ) :
    smallReader.records (smallVolume child) objectId kind = .ok []
      ∧ smallReader.visits (smallVolume child) objectId kind = [10, child] := by
  have hroot : smallReader.visitNode (smallVolume child) objectId kind 10 none ⟨[], []⟩
      = .ok ⟨[], [(child, some 0)]⟩ := by
    have hkeys : prefixes smallRootNode objectId kind = .ok [keyAt smallRootNode 0] := by
      refine prefixes_of_readable (fun index hindex => ?_) objectId kind
      obtain rfl : index = 0 := Nat.lt_one_iff.mp hindex
      exact ⟨_, small_entry, by decide⟩
    have hresolve : resolve (smallVolume child).omap 111 5 = .ok child := rfl
    simp only [visitNode, bind_eq_ok, @readNode_eq_ok (smallVolume child) _ _ _ _ rfl]
    refine ⟨_, ⟨small_nodes.1, by simp⟩, _, hkeys, ?_⟩
    simp only [show smallRootNode.nkeys = 1 from rfl, range_one, foldlM_cons, foldlM_nil, returns]
    refine ⟨_, ?_, rfl⟩
    simp only [visitRecord, bind_eq_ok, faulted_eq_ok]
    refine ⟨_, small_entry, ?_⟩
    rw [if_neg (by decide), if_neg (by simp [reaches])]
    simp only [returns, checks, refuseIf_eq_ok, faulted_eq_ok, childObjectId]
    refine ⟨by decide, by decide, 111, ?_, child, hresolve, rfl⟩
    rfl
  have hchild : smallReader.visitNode (smallVolume child) objectId kind child (some 0) ⟨[], []⟩
      = .ok ⟨[], []⟩ := by
    simp only [visitNode, bind_eq_ok, @readNode_eq_ok (smallVolume child) _ _ _ _ rfl]
    exact ⟨_, ⟨hleaf, fun level hlevel => Option.some.inj hlevel⟩, [], rfl, rfl⟩
  constructor
  · rw [records, show MAX_TREE_NODES = 65533 + 1 + 1 + 1 from rfl, recordsLoop_cons rfl]
    refine bind_eq_ok.mpr ⟨_, hroot, ?_⟩
    rw [recordsLoop_cons rfl]
    exact bind_eq_ok.mpr ⟨_, hchild, rfl⟩
  · rw [visits, show MAX_TREE_NODES = 65533 + 1 + 1 + 1 from rfl]
    refine Eq.trans (visitsLoop_cons rfl hroot) (congrArg (List.cons 10) ?_)
    refine Eq.trans (visitsLoop_cons rfl hchild) (congrArg (List.cons child) ?_)
    rw [visitsLoop]

lemma small_pointers : PointersAgree smallReader.verifier (smallVolume 11) [11, 10] := by
  intro p hp node hnode hleaf index hindex
  rcases mem_cons.mp hp with rfl | hp
  · cases small_nodes.2.1.symm.trans hnode
    cases hleaf
  · obtain rfl := mem_singleton.mp hp
    cases small_nodes.1.symm.trans hnode
    obtain rfl : index = 0 := Nat.lt_one_iff.mp hindex
    rw [storedAt, small_entry]
    decide

/-- Nothing is below the leaf. -/
lemma small_bound : KeysBound smallReader.verifier [11, 10] := by
  intro p hp node hnode hleaf index hindex q node' hq hnode' hleaf' index' hindex'
  rcases mem_cons.mp hp with rfl | hp
  · cases small_nodes.2.1.symm.trans hnode
    cases hleaf
  · obtain rfl := mem_singleton.mp hp
    cases small_nodes.1.symm.trans hnode
    obtain rfl : index = 0 := Nat.lt_one_iff.mp hindex
    have hstored : storedAt smallRootNode 0 = 11 := by
      rw [storedAt, small_entry]
      decide
    rw [hstored] at hq
    obtain rfl : q = 11 := by
      clear hnode'
      induction hq with
      | refl => rfl
      | child _ hnode'' hleaf'' _ ih =>
        rw [ih] at hnode''
        cases small_nodes.2.1.symm.trans hnode''
        cases hleaf''
    cases small_nodes.2.1.symm.trans hnode'
    cases hleaf'

/-- A catalog whose pointer agrees: both walks visit the root and the leaf. -/
theorem small_same_nodes :
    (smallReader.verifier.scanFsRecords 1 .plain none 5 (2 ^ 16) 10 none ([], {})).result = .ok ([11, 10], {}) ∧
    ∀ p, p ∈ [11, 10] ↔ ∃ objectId kind, p ∈ smallReader.visits (smallVolume 11) objectId kind := by
  have hsame := same_nodes smallReader (smallVolume 11) 1 5 [11, 10] {} rfl small_scan
    (fun objectId kind => ⟨[], (small_records 11 small_nodes.2.1 objectId kind).1⟩) small_pointers
  exact ⟨small_scan, hsame.2 small_bound⟩

/-- A catalog whose pointer does not: the verifier checks block 11, the reader reads block 12. -/
theorem pointer_not_checked :
    (smallReader.verifier.scanFsRecords 1 .plain none 5 (2 ^ 16) 10 none ([], {})).result = .ok ([11, 10], {})
      ∧ ∀ objectId kind, smallReader.records (smallVolume 12) objectId kind = .ok []
        ∧ smallReader.visits (smallVolume 12) objectId kind = [10, 12] :=
  ⟨small_scan, small_records 12 small_nodes.2.2⟩

end Small

end AppleUtils.Apfs
