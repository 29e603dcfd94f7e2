import AppleUtils.Apfs.Node
import AppleUtils.Lib.Ends

/-! # Writing B-trees

`writeTree` loads sorted records into a tree, level by level: the records of a level are packed
into as few nodes as hold them, the first key of each node becomes a record of the level above,
until one node, the root, holds them all.

The tree written is an `Item`: at level zero a record, above it a node with its items.  `Holds`
says that a store holds the tree, node by node.

The loops have enough turns: above the leaves every level is shorter than the one below it, since
`writeTree` refuses to go on where it is not. -/

namespace AppleUtils.Apfs

open Bytes Checks List

variable {records : List Record} {totals : TreeTotals} {blockSize level : ℕ} {root : Bool}

/-- The trait `TreeStore`. -/
class TreeStore (σ : Type) where
  blockSize : σ → ℕ
  alloc : σ → ℕ → Checked (ℕ × σ)
  writeBlocks : σ → ℕ → Bytes → Checked σ

/-- What `write_tree` carries along: the store, the next object identifier, the nodes written. -/
structure TreeState (σ : Type) where
  store : σ
  nextOid : ℕ
  mappings : List (ℕ × ℕ)

section WriteTree

variable {σ : Type} [TreeStore σ] (layout : TreeLayout) (xid : ℕ) (virtualRoot : Option ℕ)

def treeStorage : ℕ := if virtualRoot.isSome then OBJ_VIRTUAL else OBJ_PHYSICAL

/-- The longest front of `rest` that can be added to `taken`, and what is left. -/
def fillNode (fits : List Record → Bool) : List Record → List Record → List Record × List Record
  | taken, [] => (taken, [])
  | taken, r :: rest =>
    if fits (taken ++ [r]) then fillNode fits (taken ++ [r]) rest else (taken, r :: rest)

/-- The object identifier of a node: in a virtual tree the next one, else the address. -/
def nodeOid (nextOid paddr : ℕ) : Checked (ℕ × ℕ) :=
  if virtualRoot.isSome then do
    bailIf (nextOid + 1 ≥ 2 ^ 64) "b-tree object ID overflow"
    return (nextOid, nextOid + 1)
  else return (paddr, nextOid)

/-- A node below the root: its object identifier and the state after it. -/
def writeNode (level : ℕ) (totals : TreeTotals) (st : TreeState σ) (records : List Record) :
    Checked (ℕ × TreeState σ) := do
  let (paddr, store) ← TreeStore.alloc st.store 1
  let (oid, nextOid) ← nodeOid virtualRoot st.nextOid paddr
  let bytes ← encodeTreeNode (TreeStore.blockSize store) records layout level false totals
  let store ← TreeStore.writeBlocks store paddr
    (sealBlock oid xid (treeStorage virtualRoot + TYPE_BTREE_NODE) layout.subtype bytes)
  return (oid, ⟨store, nextOid, st.mappings ++ [(oid, paddr)]⟩)

/-- The nodes of one level, and the records that point to them. -/
def writeLevel (level : ℕ) (totals : TreeTotals) :
    ℕ → List Record → TreeState σ → Checked (List Record × TreeState σ)
  | _, [], st => .ok ([], st)
  | 0, _ :: _, _ => .error .unfinished
  | turns + 1, (key, value) :: rest, st => do
    let blockSize := TreeStore.blockSize st.store
    let (taken, rest) := fillNode
      (fun records => nodeBytes records layout false level blockSize ≤ blockSize) []
      ((key, value) :: rest)
    bailIf (taken = []) "single b-tree record exceeds node capacity"
    let (oid, st) ← writeNode layout xid virtualRoot level totals st taken
    let (parents, st) ← writeLevel level totals turns rest st
    return ((key, leBytes 8 oid) :: parents, st)

/-- The levels below the root; the records left fit the root. -/
def writeLevels (totals : TreeTotals) :
    ℕ → ℕ → List Record → TreeState σ → Checked (ℕ × List Record × TreeState σ)
  | 0, _, _, _ => .error .unfinished
  | turns + 1, level, current, st => do
    let blockSize := TreeStore.blockSize st.store
    if nodeBytes current layout true level blockSize > blockSize then
      let (parents, st) ← writeLevel layout xid virtualRoot level totals current.length current st
      bailIf (parents.length ≥ current.length ∧ level ≠ 0)
        "b-tree separator keys exceed branching capacity"
      bailIf (level + 1 ≥ 2 ^ 16) "b-tree depth overflow"
      writeLevels totals turns (level + 1) parents st
    else return (level, current, st)

/-- `write_tree`.  Above the leaves every level is shorter than the one below, so two turns more
than there are records are enough. -/
def writeTree (store : σ) (records : List Record) (nextOid : ℕ) :
    Checked (ℕ × List (ℕ × ℕ) × ℕ × σ) := do
  let (rootPaddr, store) ← TreeStore.alloc store 1
  panicUnless (layout.Measures (TreeStore.blockSize store))
  let rootOid := virtualRoot.getD rootPaddr
  let totals := TreeTotals.of records
  let (level, current, st) ← writeLevels layout xid virtualRoot totals (records.length + 2) 0
    records ⟨store, nextOid, [(rootOid, rootPaddr)]⟩
  let bytes ← encodeTreeNode (TreeStore.blockSize st.store) current layout level true
    { totals with nodes := st.mappings.length }
  let store ← TreeStore.writeBlocks st.store rootPaddr
    (sealBlock rootOid xid (treeStorage virtualRoot + TYPE_BTREE) layout.subtype bytes)
  return (rootPaddr, st.mappings, st.nextOid, store)

end WriteTree

/-! ### Trees -/

/-- A node: its object identifier, its address, the key its parent has for it, what it holds. -/
structure NodeOf (α : Type) where
  (oid paddr : ℕ)
  key : Bytes
  items : List α

/-- What a node of a level holds: records in leaves, nodes of the level below above them. -/
def Item : ℕ → Type
  | 0 => Record
  | level + 1 => NodeOf (Item level)

/-- A tree whose root is at a level. -/
abbrev Tree (level : ℕ) := NodeOf (Item level)

/-- The record an item takes in the node that holds it. -/
def itemRecord : (level : ℕ) → Item level → Record
  | 0, r => r
  | _ + 1, t => (t.key, leBytes 8 t.oid)

namespace Tree

/-- The records in the node itself. -/
def nodeRecords (t : Tree level) : List Record := t.items.map (itemRecord level)

end Tree

/-- The records of the leaves, in order. -/
def leaves : (level : ℕ) → Item level → List Record
  | 0, r => [r]
  | level + 1, t => t.items.flatMap (leaves level)

/-- The nodes, each before those below it. -/
def nodes : (level : ℕ) → Item level → List (ℕ × ℕ)
  | 0, _ => []
  | level + 1, t => (t.oid, t.paddr) :: t.items.flatMap (nodes level)

/-- Every node below satisfies `P`, given its level, itself and the records in it. -/
def Below (P : ℕ → ℕ → ℕ → List Record → Prop) : (level : ℕ) → Item level → Prop
  | 0, _ => True
  | level + 1, t =>
    P level t.oid t.paddr (t.items.map (itemRecord level)) ∧ ∀ i ∈ t.items, Below P level i

/-! ### Stores -/

/-- A store whose blocks, once handed out, stay as they are until they are written. -/
class LawfulTreeStore (σ : Type) [TreeStore σ] where
  block : σ → ℕ → Bytes
  Taken : σ → ℕ → Prop
  alloc_one : ∀ {s s' p}, TreeStore.alloc s 1 = .ok (p, s') →
    ¬ Taken s p ∧ Taken s' p ∧ TreeStore.blockSize s' = TreeStore.blockSize s
      ∧ ∀ q, Taken s q → Taken s' q ∧ block s' q = block s q
  write_one : ∀ {s s' p data}, TreeStore.writeBlocks s p data = .ok s' → Taken s p →
    block s' p = data ∧ TreeStore.blockSize s' = TreeStore.blockSize s ∧ (∀ q, Taken s q → Taken s' q)
      ∧ ∀ q, q ≠ p → Taken s q → block s' q = block s q

section Lawful

open LawfulTreeStore

variable {σ : Type} [TreeStore σ] [LawfulTreeStore σ] {s s' s'' : σ} {p : ℕ}
    {st st' : TreeState σ} {out : List Record} {P : ℕ → ℕ → ℕ → List Record → Prop} {i : Item level}
    {items : List (Item level)} {turns : ℕ}

/-- What was handed out stays handed out and as it was. -/
structure Extends (s s' : σ) : Prop where
  size : TreeStore.blockSize s' = TreeStore.blockSize s
  taken : ∀ q, Taken s q → Taken s' q
  block : ∀ q, Taken s q → LawfulTreeStore.block s' q = LawfulTreeStore.block s q

lemma Extends.refl (s : σ) : Extends s s := ⟨rfl, fun _ h => h, fun _ _ => rfl⟩

lemma Extends.trans (h : Extends s s') (h' : Extends s' s'') : Extends s s'' :=
  ⟨h'.size.trans h.size, fun q hq => h'.taken q (h.taken q hq),
    fun q hq => (h'.block q (h.taken q hq)).trans (h.block q hq)⟩

lemma Extends.of_alloc (h : TreeStore.alloc s 1 = .ok (p, s')) : Extends s s' := by
  obtain ⟨-, -, hsize, hkeep⟩ := alloc_one h
  exact ⟨hsize, fun q hq => (hkeep q hq).1, fun q hq => (hkeep q hq).2⟩

/-- Writing a block that was not handed out before. -/
lemma Extends.write {data : Bytes} (h : Extends s s') (hp : ¬ Taken s p) (hp' : Taken s' p)
    (hw : TreeStore.writeBlocks s' p data = .ok s'') : Extends s s'' := by
  obtain ⟨-, hsize, htaken, hkeep⟩ := write_one hw hp'
  refine ⟨hsize.trans h.size, fun q hq => htaken q (h.taken q hq), fun q hq => ?_⟩
  rw [hkeep q (fun hqp => hp (hqp ▸ hq)) (h.taken q hq), h.block q hq]

/-! ### Nodes in a store -/

/-- The kind of a node's object. -/
def nodeKind (root : Bool) : ℕ := if root then TYPE_BTREE else TYPE_BTREE_NODE

/-- The blocks `new` were handed out. -/
structure Grown (s s' : σ) (new : List ℕ) : Prop where
  grows : Extends s s'
  fresh : ∀ p ∈ new, ¬ Taken s p
  taken : ∀ p ∈ new, Taken s' p
  nodup : new.Nodup

variable (layout : TreeLayout) (xid : ℕ) (virtualRoot : Option ℕ)

/-- The node of a tree in a store: its encoding, sealed.  In a physical tree its identifier is its address. -/
def NodeIn (s : σ) (root : Bool) (level oid paddr : ℕ) (records : List Record) : Prop :=
  (virtualRoot = none → oid = paddr) ∧ level < 2 ^ 16 ∧ ∃ body totals,
    encodeTreeNode (TreeStore.blockSize s) records layout level root totals = .ok body
    ∧ block s paddr = sealBlock oid xid (treeStorage virtualRoot + nodeKind root) layout.subtype body

/-- The nodes of a level, written one after the other. -/
structure LevelWritten (s s' : σ) (items : List (Item level)) (parents : List (Tree level)) : Prop where
  grown : Grown s s' (parents.map NodeOf.paddr)
  items_eq : parents.flatMap NodeOf.items = items
  node : ∀ t ∈ parents, NodeIn layout xid virtualRoot s' false level t.oid t.paddr t.nodeRecords

/-- The items with all their nodes, in the blocks handed out since `s`. -/
structure Holds (s s' : σ) (level : ℕ) (items : List (Item level)) : Prop where
  below : ∀ i ∈ items, Below (NodeIn layout xid virtualRoot s' false) level i
  grown : Grown s s' ((items.flatMap (nodes level)).map Prod.snd)

variable {layout xid virtualRoot}

lemma NodeIn.extends {oid paddr : ℕ}
    (h : NodeIn layout xid virtualRoot s root level oid paddr records) (hs : Extends s s')
    (hp : Taken s paddr) : NodeIn layout xid virtualRoot s' root level oid paddr records := by
  rwa [NodeIn, hs.size, hs.block paddr hp]

/-! ### One level -/

lemma fillNode_append (fits : List Record → Bool) (taken rest : List Record) :
    (fillNode fits taken rest).1 ++ (fillNode fits taken rest).2 = taken ++ rest := by
  induction rest generalizing taken with
  | nil => rfl
  | cons r rest ih =>
    rw [fillNode]
    split
    · rw [ih, append_assoc, singleton_append]
    · rfl

lemma Grown.nil (s : σ) : Grown s s [] := ⟨.refl s, by simp, by simp, nodup_nil⟩

lemma Grown.trans {new new' : List ℕ} (h : Grown s s' new) (h' : Grown s' s'' new') : Grown s s'' (new ++ new') where
  grows := h.grows.trans h'.grows
  fresh := forall_mem_append.mpr ⟨h.fresh, fun p hp hs => h'.fresh p hp (h.grows.taken p hs)⟩
  taken := forall_mem_append.mpr ⟨fun p hp => h'.grows.taken p (h.taken p hp), h'.taken⟩
  nodup := h.nodup.append h'.nodup fun p hp hp' => h'.fresh p hp' (h.taken p hp)

lemma Grown.perm {new new' : List ℕ} (h : Grown s s' new) (hp : new'.Perm new) : Grown s s' new' :=
  ⟨h.grows, fun p hm => h.fresh p (hp.mem_iff.mp hm), fun p hm => h.taken p (hp.mem_iff.mp hm),
    hp.nodup_iff.mpr h.nodup⟩

lemma writeNode_spec {oid : ℕ} (hlevel : level < 2 ^ 16)
    (h : writeNode layout xid virtualRoot level totals st records = .ok (oid, st')) :
    ∃ paddr, Grown st.store st'.store [paddr] ∧ NodeIn layout xid virtualRoot st'.store false level oid paddr records := by
  simp only [writeNode, returns] at h
  obtain ⟨⟨paddr, s1⟩, halloc, ⟨oid', nextOid'⟩, hoid, body, henc, s2, hwrite, heq⟩ := h
  obtain ⟨rfl, rfl⟩ := Prod.mk.inj heq
  obtain ⟨hfresh, htaken, -⟩ := alloc_one halloc
  obtain ⟨hblock, hsize, htaken', -⟩ := write_one hwrite htaken
  refine ⟨paddr, ⟨(Extends.of_alloc halloc).write hfresh htaken hwrite, by simpa using hfresh,
    by simpa using htaken' _ htaken, nodup_singleton _⟩, ?_⟩
  rw [NodeIn, hblock, hsize]
  refine ⟨?_, hlevel, body, totals, henc, rfl⟩
  rintro rfl
  exact (Prod.mk.inj (pure_eq_ok.mp hoid)).1.symm

lemma writeLevel_spec (hlevel : level < 2 ^ 16)
    (h : writeLevel layout xid virtualRoot level totals turns (items.map (itemRecord level)) st
      = .ok (out, st')) : ∃ parents : List (Tree level), out = parents.map (itemRecord (level + 1))
      ∧ LevelWritten layout xid virtualRoot st.store st'.store items parents := by
  induction turns generalizing items st out <;> cases items
  case zero.nil | succ.nil =>
    obtain ⟨rfl, rfl⟩ : [] = out ∧ st = st' := by simpa [writeLevel] using h
    exact ⟨[], rfl, .nil _, rfl, by simp⟩
  case zero.cons => simp [writeLevel] at h
  case succ.cons turns ih i items =>
    simp only [map_cons, writeLevel, returns, checks] at h
    obtain ⟨hne, ⟨oid, st1⟩, hnode, ⟨out', st2⟩, hrest, heq⟩ := h
    obtain ⟨rfl, rfl⟩ := Prod.mk.inj heq
    -- the records taken are those of the first items
    generalize hfill : fillNode _ [] _ = filled at hne hnode hrest
    have hsplit : _ = [] ++ itemRecord level i :: items.map _ := hfill ▸ fillNode_append _ [] _
    rw [nil_append, ← map_cons, eq_comm, map_eq_append_iff] at hsplit
    obtain ⟨front, back, hitems, hfront, hback⟩ := hsplit
    rw [← hfront] at hnode hne
    rw [← hback] at hrest
    have hne' : front ≠ [] := fun hnil => hne (by rw [hnil]; rfl)
    obtain ⟨first, front', rfl⟩ := exists_cons_of_ne_nil hne'
    obtain ⟨rfl, -⟩ := List.cons.inj hitems
    rw [hitems]
    obtain ⟨paddr, hgrown, hwritten⟩ := writeNode_spec hlevel hnode
    obtain ⟨parents, rfl, hparents⟩ := ih hrest
    refine ⟨⟨oid, paddr, (itemRecord level i).1, i :: front'⟩ :: parents, rfl, hgrown.trans hparents.grown, ?_,
      forall_mem_cons.mpr ⟨?_, hparents.node⟩⟩
    · rw [flatMap_cons, hparents.items_eq]
    · exact hwritten.extends hparents.grown.grows (hgrown.taken _ mem_cons_self)

/-! ### All levels -/

lemma Below.exists_of_mem (h : Below P level i) : ∀ n ∈ nodes level i, ∃ l records, P l n.1 n.2 records := by
  induction level with
  | zero => exact nofun
  | succ level ih =>
    intro n hn
    cases hn with
    | head => exact ⟨level, _, h.1⟩
    | tail _ hn =>
      obtain ⟨j, hj, hn⟩ := mem_flatMap.mp hn
      exact ih (h.2 j hj) n hn

lemma Below.mono {Q : ℕ → ℕ → ℕ → List Record → Prop} (h : Below P level i)
    (hPQ : ∀ n ∈ nodes level i, ∀ level records, P level n.1 n.2 records → Q level n.1 n.2 records) :
    Below Q level i := by
  induction level with
  | zero => trivial
  | succ level ih =>
    obtain ⟨hP, hitems⟩ := h
    refine ⟨hPQ _ mem_cons_self _ _ hP, fun j hj => ih (hitems j hj) fun n hn => ?_⟩
    exact hPQ n (mem_cons_of_mem _ (mem_flatMap.mpr ⟨j, hj, hn⟩))

/-- What holds of the records in every leaf holds of all records. -/
lemma Below.forall_leaves {Q : Record → Prop} {t : Item (level + 1)} (h : Below P (level + 1) t)
    (hP : ∀ oid paddr records, P 0 oid paddr records → ∀ r ∈ records, Q r) : ∀ r ∈ leaves (level + 1) t, Q r := by
  induction level with
  | zero =>
    intro r hr
    obtain ⟨i, hi, hr⟩ := mem_flatMap.mp hr
    obtain rfl := mem_singleton.mp hr
    exact hP _ _ _ h.1 r (mem_map.mpr ⟨r, hi, rfl⟩)
  | succ level ih =>
    intro r hr
    obtain ⟨i, hi, hr⟩ := mem_flatMap.mp hr
    exact ih (h.2 i hi) r hr

/-- The nodes of parents are the parents themselves and the nodes of their items. -/
lemma nodes_perm (parents : List (Tree level)) : (parents.flatMap (nodes (level + 1))).Perm
    ((parents.flatMap NodeOf.items).flatMap (nodes level) ++ parents.map fun t => (t.oid, t.paddr)) := by
  induction parents with
  | nil => exact .nil
  | cons t parents ih =>
    simp only [flatMap_cons, flatMap_append, map_cons, nodes]
    refine .trans ?_ perm_middle.symm
    rw [append_assoc]
    exact (ih.append_left _).cons _

/-- A level put on top of the items it points to. -/
lemma LevelWritten.holds
    {parents : List (Tree level)} (h : LevelWritten layout xid virtualRoot s' s'' items parents)
    (hitems : Holds layout xid virtualRoot s s' level items) :
    Holds layout xid virtualRoot s s'' (level + 1) parents := by
  have hperm := (nodes_perm parents).map Prod.snd
  rw [h.items_eq, map_append, map_map] at hperm
  refine ⟨fun t ht => ⟨h.node t ht, fun i hi => ?_⟩, (hitems.grown.trans h.grown).perm hperm⟩
  have hmem : i ∈ items := by
    rw [← h.items_eq]
    exact mem_flatMap.mpr ⟨t, ht, hi⟩
  refine (hitems.below i hmem).mono fun n hn _ _ hnode => hnode.extends h.grown.grows (hitems.grown.taken _ ?_)
  exact mem_map_of_mem (mem_flatMap.mpr ⟨i, hmem, hn⟩)

/-- What is left after all levels: items whose records fit the root. -/
lemma writeLevels_spec {level' : ℕ} (hlevel : level < 2 ^ 16)
    (hitems : Holds layout xid virtualRoot s st.store level items)
    (h : writeLevels layout xid virtualRoot totals turns level (items.map (itemRecord level)) st
      = .ok (level', out, st')) : level' < 2 ^ 16 ∧ ∃ items' : List (Item level'),
      out = items'.map (itemRecord level') ∧ Holds layout xid virtualRoot s st'.store level' items'
      ∧ items'.flatMap (leaves level') = items.flatMap (leaves level) := by
  induction turns generalizing level items st with
  | zero => simp [writeLevels] at h
  | succ turns ih =>
    rw [writeLevels] at h
    split_ifs at h
    · simp only [returns, checks] at h
      obtain ⟨⟨out1, st1⟩, hlevel1, -, hdepth, h⟩ := h
      obtain ⟨parents, rfl, hwritten⟩ := writeLevel_spec hlevel hlevel1
      have hleaves : parents.flatMap (leaves (level + 1)) = items.flatMap (leaves level) := by
        rw [← hwritten.items_eq, flatMap_assoc]
        rfl
      rw [← hleaves]
      exact ih (by omega) (hwritten.holds hitems) h
    · obtain ⟨rfl, rfl, rfl⟩ : level = level' ∧ items.map (itemRecord level) = out ∧ st = st' := by
        simpa using h
      exact ⟨hlevel, items, rfl, hitems, rfl⟩

/-- A tree written holds the records in its leaves, in blocks not handed out before. -/
lemma writeTree_spec {mappings : List (ℕ × ℕ)}
    {nextOid nextOid' rootPaddr : ℕ} (h : writeTree layout xid virtualRoot s records nextOid
      = .ok (rootPaddr, mappings, nextOid', s')) :
    ∃ (level : ℕ) (t : Tree level), t.paddr = rootPaddr
      ∧ NodeIn layout xid virtualRoot s' true level t.oid t.paddr t.nodeRecords
      ∧ (∀ i ∈ t.items, Below (NodeIn layout xid virtualRoot s' false) level i)
      ∧ leaves (level + 1) t = records ∧ Grown s s' ((nodes (level + 1) t).map Prod.snd) := by
  simp only [writeTree, returns, Prod.mk.injEq] at h
  obtain ⟨⟨root, s1⟩, halloc, -, -, ⟨level, current, st⟩, hlevels, body, henc, s2, hwrite, rfl, rfl, rfl, rfl⟩ := h
  obtain ⟨hfresh, htaken, -⟩ := alloc_one halloc
  have hext := Extends.of_alloc halloc
  have hmap : (records : List (Item 0)).map (itemRecord 0) = records := map_id _
  rw [← hmap] at hlevels
  have hnil : (records : List (Item 0)).flatMap (nodes 0) = [] := flatMap_eq_nil_iff.mpr fun _ _ => rfl
  obtain ⟨hlt, items, rfl, ⟨hbelow, hgrown⟩, hleaves⟩ :=
    writeLevels_spec (show 0 < _ by decide) ⟨fun _ _ => trivial, by rw [hnil]; exact .nil s1⟩ hlevels
  have htaken' := hgrown.grows.taken root htaken
  obtain ⟨hblock, hsize, htaken2, hkeep⟩ := write_one hwrite htaken'
  -- the root is none of the nodes below, so they stay as they are
  have hne : root ∉ (items.flatMap (nodes level)).map Prod.snd := fun hroot => hgrown.fresh root hroot htaken
  refine ⟨level, ⟨virtualRoot.getD root, root, [], items⟩, rfl, ?_, fun i hi => (hbelow i hi).mono fun n hn _ _ hn' => ?_,
    hleaves.trans (flatMap_singleton' records), (hext.trans hgrown.grows).write hfresh htaken' hwrite,
    forall_mem_cons.mpr ⟨hfresh, fun p hp hs => hgrown.fresh p hp (hext.taken p hs)⟩,
    forall_mem_cons.mpr ⟨htaken2 _ htaken', fun p hp => htaken2 p (hgrown.taken p hp)⟩, nodup_cons.mpr ⟨hne, hgrown.nodup⟩⟩
  · rw [NodeIn, hblock, hsize]
    exact ⟨by rintro rfl; rfl, hlt, body, _, henc, rfl⟩
  · have hmem : n.2 ∈ (items.flatMap (nodes level)).map Prod.snd := mem_map_of_mem (mem_flatMap.mpr ⟨i, hi, hn⟩)
    rwa [NodeIn, hsize, hkeep _ (fun h : n.2 = root => hne (h ▸ hmem)) (hgrown.taken _ hmem)]

end Lawful

/-! ### Termination -/

section Termination

variable {σ : Type} [TreeStore σ] (layout : TreeLayout) (xid : ℕ) (virtualRoot : Option ℕ) (totals : TreeTotals)

/-- The number of nodes of each level, from the leaves to the root. -/
def levelSizes : ℕ → ℕ → List Record → TreeState σ → List ℕ
  | 0, _, _, _ => []
  | turns + 1, level, current, st =>
    let blockSize := TreeStore.blockSize st.store
    if nodeBytes current layout true level blockSize > blockSize then
      match writeLevel layout xid virtualRoot level totals current.length current st with
      | .ok (parents, st) => parents.length :: levelSizes turns (level + 1) parents st
      | .error _ => []
    else [1]

/-- The operations of the store end. -/
def StoreEnds (σ : Type) [TreeStore σ] : Prop :=
  (∀ (s : σ) n, TreeStore.alloc s n ≠ .error .unfinished)
    ∧ ∀ (s : σ) p data, TreeStore.writeBlocks s p data ≠ .error .unfinished

variable {layout xid virtualRoot totals} {turns : ℕ} {st : TreeState σ}

lemma ends_of_ne {α : Type} {r : Checked α} (h : r ≠ .error .unfinished) :
    Ends (· ≠ .unfinished) r fun _ => True := by
  cases r with
  | ok a => trivial
  | error e => exact fun he => h (he ▸ rfl)

lemma ends_bailIf {c : Prop} [Decidable c] {message : String} :
    Ends (· ≠ .unfinished) (bailIf c message) fun _ => ¬ c :=
  Ends.failIf Stop.noConfusion

lemma ends_panicUnless {c : Prop} [Decidable c] : Ends (· ≠ .unfinished) (panicUnless c) fun _ => ¬ ¬ c :=
  Ends.failIf Stop.noConfusion

lemma encodeRecords_ends {sizes : Option (ℕ × ℕ)} {k v i u w : ℕ} {block : Bytes} :
    Ends (· ≠ .unfinished) (encodeRecords sizes k v i u w records block) fun _ => True := by
  induction records generalizing i u w block with
  | nil => trivial
  | cons r records ih =>
    rw [encodeRecords, Ends.bind_iff]
    exact ends_bailIf.conseq fun _ _ => ih

lemma encodeTreeNode_ends :
    Ends (· ≠ .unfinished) (encodeTreeNode blockSize records layout level root totals) fun _ => True := by
  simp only [encodeTreeNode, Ends.bind_iff]
  refine ends_panicUnless.conseq fun _ _ => ends_bailIf.conseq fun _ _ => ?_
  refine encodeRecords_ends.conseq fun block _ => ?_
  cases root <;> trivial

lemma writeNode_ends (hends : StoreEnds σ) :
    Ends (· ≠ .unfinished) (writeNode layout xid virtualRoot level totals st records) fun _ => True := by
  simp only [writeNode, Ends.bind_iff]
  refine (ends_of_ne (hends.1 _ _)).conseq fun alloc _ => ?_
  have hoid : Ends (· ≠ .unfinished) (nodeOid virtualRoot st.nextOid alloc.1) fun _ => True := by
    unfold nodeOid
    split
    · exact Ends.bind_iff.mpr (ends_bailIf.conseq fun _ _ => trivial)
    · trivial
  refine hoid.conseq fun oid _ => encodeTreeNode_ends.conseq fun bytes _ => ?_
  exact (ends_of_ne (hends.2 _ _ _)).conseq fun _ _ => trivial

lemma writeLevel_ends (hends : StoreEnds σ) (hturns : records.length ≤ turns) :
    Ends (· ≠ .unfinished) (writeLevel layout xid virtualRoot level totals turns records st)
      fun out => out.1.length ≤ records.length := by
  induction turns generalizing records st with
  | zero =>
    obtain rfl : records = [] := length_eq_zero_iff.mp (by omega)
    exact le_rfl
  | succ turns ih =>
    cases records with
    | nil => exact le_rfl
    | cons r records =>
      obtain ⟨key, value⟩ := r
      simp only [writeLevel, Ends.bind_iff]
      generalize hfill : fillNode _ [] _ = filled
      have hsplit := congrArg length (hfill ▸ fillNode_append _ [] _)
      rw [length_append, nil_append] at hsplit
      refine ends_bailIf.conseq fun _ hne => ?_
      have hpos := length_pos_iff.mpr hne
      refine (writeNode_ends hends).conseq fun node _ => ?_
      refine (ih (by omega)).conseq fun out hout => ?_
      change out.1.length + 1 ≤ _
      omega

/-- Above the leaves a level is shorter than the one below, so a level with `n` records needs no
more than `n + 1` turns. -/
lemma writeLevels_ends {current : List Record} (hends : StoreEnds σ)
    (hturns : current.length + 1 < turns ∨ level ≠ 0 ∧ current.length < turns) :
    Ends (· ≠ .unfinished) (writeLevels layout xid virtualRoot totals turns level current st)
      fun _ => ∃ below, levelSizes layout xid virtualRoot totals turns level current st = below ++ [1]
        ∧ below.Pairwise (· > ·) ∧ (level ≠ 0 → ∀ n ∈ below, n < current.length) := by
  induction turns generalizing level current st with
  | zero => omega
  | succ turns ih =>
    rw [writeLevels, levelSizes]
    split
    · have hlevel : Ends _ (writeLevel layout xid virtualRoot level totals current.length current st) _ :=
        writeLevel_ends hends le_rfl
      cases hrun : writeLevel layout xid virtualRoot level totals current.length current st with
      | error e => exact hlevel.of_error hrun
      | ok out =>
        have hle := hlevel.of_ok hrun
        simp only [Ends.bind_iff, Ends.ok_iff]
        refine ends_bailIf.conseq fun _ hshrinks => ends_bailIf.conseq fun _ _ => ?_
        refine (ih (.inr ⟨level.succ_ne_zero, by omega⟩)).conseq fun _ h => ?_
        obtain ⟨below, hsizes, hchain, hlt⟩ := h
        have hlt' := hlt level.succ_ne_zero
        refine ⟨out.1.length :: below, congrArg (_ :: ·) hsizes, hchain.cons hlt', fun hne => ?_⟩
        refine forall_mem_cons.mpr ⟨by omega, fun n hn => ?_⟩
        exact (hlt' n hn).trans_le hle
    · exact ⟨[], rfl, .nil, fun _ n hn => absurd hn not_mem_nil⟩

/-- `write_tree` ends, and the levels of a tree it has written grow shorter from the leaves up to
the one below the root, which is a single node. -/
theorem writeTree_levels_shrink (hends : StoreEnds σ) (store : σ) (records : List Record) (nextOid : ℕ) :
    writeTree layout xid virtualRoot store records nextOid ≠ .error .unfinished
    ∧ ∀ totals (st : TreeState σ) out, writeLevels layout xid virtualRoot totals (records.length + 2) 0 records st = .ok out →
      ∃ below, levelSizes layout xid virtualRoot totals (records.length + 2) 0 records st = below ++ [1]
        ∧ below.Pairwise (· > ·) := by
  constructor
  · have h : Ends (· ≠ .unfinished) (writeTree layout xid virtualRoot store records nextOid) fun _ => True := by
      simp only [writeTree, Ends.bind_iff]
      refine (ends_of_ne (hends.1 _ _)).conseq fun root _ => ends_panicUnless.conseq fun _ _ => ?_
      refine (writeLevels_ends hends (.inl (by omega))).conseq fun levels _ => ?_
      refine encodeTreeNode_ends.conseq fun bytes _ => ?_
      exact (ends_of_ne (hends.2 _ _ _)).conseq fun _ _ => trivial
    exact fun hrun => h.of_error hrun rfl
  · intro totals st out hrun
    obtain ⟨below, hsizes, hchain, -⟩ := (writeLevels_ends hends (.inl (by omega))).of_ok hrun
    exact ⟨below, hsizes, hchain⟩

/-- A device that keeps nothing: the state is the next free block. -/
instance : TreeStore ℕ where
  blockSize _ := 4096
  alloc s n := .ok (s, s + n)
  writeBlocks s _ _ := .ok s

theorem writeTree_levels_shrink_discard :
    writeTree ⟨none, 0, 0⟩ 1 none 0 [([1], replicate 3970 0)] 0 ≠ .error .unfinished :=
  (writeTree_levels_shrink ⟨by simp [TreeStore.alloc], by simp [TreeStore.writeBlocks]⟩ _ _ _).1

/-- A record that fits a leaf and not a root: the root is a level above the one leaf. -/
theorem writeTree_root_over_one_leaf : (writeTree ⟨none, 0, 0⟩ 1 none 0 [([1], replicate 3970 0)] 0).isOk
    ∧ levelSizes ⟨none, 0, 0⟩ 1 none (.of [([1], replicate 3970 0)]) 3 0 [([1], replicate 3970 0)]
      (⟨1, 0, [(0, 0)]⟩ : TreeState ℕ) = [1, 1] := by
  decide +kernel

end Termination

end AppleUtils.Apfs
