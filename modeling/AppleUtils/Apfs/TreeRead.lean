import AppleUtils.Apfs.Walk

/-! # The editors' tree readers

`apfs_update` and `apfs_replace` read a tree with their own loops, `decodeTreeRecords` and
`readTree`, and build their own maps from object to address, `volumeMappings` and `mappings`.  Both
loops visit a tree in the order of its keys (`walkTree`), so the records they return are those of
the leaves (`decodeTreeRecords_spec`, `readTree_spec`). -/

namespace AppleUtils.Apfs

open Bytes Checks List Todo

variable {node : BTreeNode}

/-! ### Blocks of an image -/

/-- `blocks_at` of `apfs_update`. -/
def blocksAt (image : Bytes) (blockSize paddr count : ℕ) : Checked Bytes := do
  bailIf (paddr * blockSize ≥ 2 ^ 64) s!"block address {paddr} overflowed"
  bailIf (count * blockSize ≥ 2 ^ 64) "block span overflowed"
  bailIf (paddr * blockSize + count * blockSize ≥ 2 ^ 64) "block span overflowed"
  bailIf (paddr * blockSize + count * blockSize > image.length)
    s!"block {paddr} (+{count}) is outside the container"
  return image.slice (paddr * blockSize) (count * blockSize)

def blockAt (image : Bytes) (blockSize paddr : ℕ) : Checked Bytes :=
  blocksAt image blockSize paddr 1

/-- `block` of `apfs_replace`. -/
def replaceBlock (image : Bytes) (blockSize paddr : ℕ) : Checked Bytes := do
  bailIf (paddr * blockSize ≥ 2 ^ 64) "APFS block offset overflow"
  bailIf (paddr * blockSize + blockSize ≥ 2 ^ 64) "APFS block end overflow"
  bailIf (paddr * blockSize + blockSize > image.length)
    s!"APFS block {paddr} leaves the supplied container"
  return image.slice (paddr * blockSize) blockSize

/-! ### Trees -/

/-- A `BTreeMap` from object identifiers to addresses. -/
abbrev AddressMap := ℕ → Option ℕ

/-- The loop over a stack of addresses; `visit` takes in a node and returns its children, which are
visited before what was on the stack. -/
def walkTree {ω : Type} (repeated : ℕ → String) (visit : ω → ℕ → Checked (ω × List ℕ)) :
    ℕ → List ℕ → List ℕ → ω → Checked ω
  | 0, _, _, _ => .error .unfinished
  | _ + 1, [], _, out => .ok out
  | turns + 1, paddr :: pending, seen, out => do
    bailIf (paddr ∈ seen) (repeated paddr)
    let (out, children) ← visit out paddr
    walkTree repeated visit turns (children ++ pending) (paddr :: seen) out

/-- One record of a node, added to the records of a leaf or to the children.  Where the tree has
records of fixed sizes they are cut to these. -/
def treeRecord (shortChild : String) (unmapped : ℕ → String) (fixed : Option (ℕ × ℕ))
    (map : Option AddressMap) (node : BTreeNode) (state : List Record × List ℕ) (index : ℕ) :
    Checked (List Record × List ℕ) := do
  let (records, children) := state
  let (key, value) ← node.entry index
  if node.isLeaf then
    match fixed with
    | some (ks, vs) =>
      bailIf (key.length < ks) "short fixed APFS key"
      bailIf (value.length < vs) "short fixed APFS value"
      return (records ++ [(key.take ks, value.take vs)], children)
    | none => return (records ++ [(key, value)], children)
  else
    bailIf (value.length < 8) shortChild
    let child := leAt 8 value 0
    match map with
    | some map =>
      let child ← okOr (map child) (.refused (unmapped child) [])
      return (records, children ++ [child])
    | none => return (records, children ++ [child])

/-- A node of `decode_tree_records`. -/
def decodeTreeNode (image : Bytes) (blockSize : ℕ) (fixed : ℕ × ℕ) (map : Option AddressMap)
    (records : List Record) (paddr : ℕ) : Checked (List Record × List ℕ) := do
  let block ← blockAt image blockSize paddr
  bailIf (¬ fletcher64Valid block) s!"invalid APFS tree checksum at {paddr}"
  let flags ← u16At block 0x20
  let node ← BTreeNode.decode ⟨paddr, block⟩ blockSize
  (List.range node.nkeys).foldlM
    (treeRecord "short APFS tree child" (fun _ => "unmapped APFS virtual child")
      (if btnodeFixedKvSize flags then some fixed else none) map node) (records, [])

/-- `decode_tree_records`.  No address is visited twice and each lies in the image. -/
def decodeTreeRecords (image : Bytes) (blockSize root : ℕ) (map : Option AddressMap) :
    Checked (List Record) := do
  let rootBytes ← blockAt image blockSize root
  panicUnless (BTREE_INFO_BYTES ≤ blockSize)
  let info := blockSize - BTREE_INFO_BYTES
  let keySize ← u32At rootBytes (info + 8)
  let valueSize ← u32At rootBytes (info + 12)
  walkTree (fun _ => "APFS tree contains a cycle or duplicate child")
    (decodeTreeNode image blockSize (keySize, valueSize) map)
    (image.length / blockSize + 2) [root] [] []

/-- The struct `Tree` of `apfs_replace`. -/
structure TreeContents where
  records : List Record
  nodes : List (ℕ × ℕ)
  layout : TreeLayout

/-- A node of `read_tree`. -/
def readTreeNode (image : Bytes) (blockSize : ℕ) (fixed : Option (ℕ × ℕ)) (map : Option AddressMap)
    (state : List Record × List (ℕ × ℕ)) (paddr : ℕ) :
    Checked ((List Record × List (ℕ × ℕ)) × List ℕ) := do
  let (records, nodes) := state
  let bytes ← replaceBlock image blockSize paddr
  bailIf (¬ fletcher64Valid bytes) s!"APFS tree checksum failed at block {paddr}"
  bailIf (btnodeNoheader (← u16At bytes 0x20)) "file replacement refuses a headerless catalog"
  let oid ← u64At bytes 8
  let node ← BTreeNode.decode ⟨paddr, bytes⟩ blockSize
  let (records, children) ← (List.range node.nkeys).foldlM
    (treeRecord "short APFS child reference" (fun child => s!"unmapped APFS catalog child {child}")
      fixed map node) (records, [])
  return ((records, nodes ++ [(oid, paddr)]), children)

/-- `read_tree`. -/
def readTree (image : Bytes) (blockSize root : ℕ) (map : Option AddressMap) :
    Checked TreeContents := do
  let bytes ← replaceBlock image blockSize root
  panicUnless (BTREE_INFO_BYTES ≤ blockSize)
  let info := blockSize - BTREE_INFO_BYTES
  let flags ← u16At bytes 0x20
  let keySize ← u32At bytes (info + 8)
  let valueSize ← u32At bytes (info + 12)
  let fixed := if btnodeFixedKvSize flags then some (keySize, valueSize) else none
  let treeFlags ← u32At bytes info
  let subtype ← u32At bytes 0x1C
  let (records, nodes) ← walkTree (fun paddr => s!"APFS tree repeats block {paddr}")
    (readTreeNode image blockSize fixed map) (image.length / blockSize + 2) [root] [] ([], [])
  return ⟨records, nodes, ⟨fixed, treeFlags, subtype⟩⟩

/-! ### Object maps -/

/-- The deleted bit of an object map value. -/
def omapDeleted (value : Bytes) : Bool := leAt 4 value 0 % 2 = 1

/-- One record of `mappings`: the newest version not later than `xid` so far of each object, with
its address unless it is deleted. -/
def addVersion (xid : ℕ) (versions : ℕ → Option (ℕ × Option ℕ)) (r : Record) :
    Checked (ℕ → Option (ℕ × Option ℕ)) := do
  let (key, value) := r
  bailIf (key.length ≠ 16 ∨ value.length ≠ 16) "short APFS object map record"
  let oid := leAt 8 key 0
  let version := leAt 8 key 8
  if version ≤ xid ∧ (versions oid).all (fun old => version > old.1) then
    return Function.update versions oid
      (some (version, if omapDeleted value then none else some (leAt 8 value 8)))
  else return versions

/-- `mappings` of `apfs_replace`. -/
def mappings (records : List Record) (xid : ℕ) : Checked AddressMap := do
  let versions ← records.foldlM (addVersion xid) (fun _ => none)
  return fun oid => (versions oid).bind Prod.snd

/-- One record of `volume_mappings`; a later record of an object takes the place of an earlier. -/
def addMapping (map : AddressMap) (r : Record) : Checked AddressMap := do
  let (key, value) := r
  bailIf (key.length < 16 ∨ value.length < 16) "short APFS object map entry"
  return Function.update map (leAt 8 key 0) (some (leAt 8 value 8))

/-- `volume_mappings` of `apfs_update`. -/
def volumeMappings (image : Bytes) (blockSize : ℕ) (apsb : Bytes) : Checked AddressMap := do
  let omapPaddr ← u64At apsb 0x80
  let omap ← blockAt image blockSize omapPaddr
  let root ← u64At omap 0x30
  let records ← decodeTreeRecords image blockSize root none
  records.foldlM addMapping (fun _ => none)

/-! ### The order of a walk -/

section Walk

variable {ω : Type} {repeated : ℕ → String} {visit : ω → ℕ → Checked (ω × List ℕ)}
    {found : ω → List Record} {Good : Todo → Prop}

/-- A walk over trees whose nodes can all be visited finds the records of their leaves, in order. -/
lemma walkTree_spec (hchild : ∀ d, Good d → ∀ c ∈ Todo.children d.level d.tree, Good c)
    (hvisit : ∀ d out, Good d → ∃ out', visit out d.tree.paddr
        = .ok (out', (Todo.children d.level d.tree).map fun c => c.tree.paddr)
      ∧ found out' = found out ++ Todo.own d.level d.tree)
    {turns : ℕ} {todos : List Todo} {seen : List ℕ} {out : ω} (hgood : ∀ d ∈ todos, Good d)
    (hnodup : (seen ++ todos.flatMap paddrs).Nodup) (hturns : (todos.flatMap paddrs).length < turns) :
    ∃ out', walkTree repeated visit turns (todos.map fun d => d.tree.paddr) seen out = .ok out'
      ∧ found out' = found out ++ todos.flatMap Todo.leaves := by
  induction turns generalizing todos seen out with
  | zero => omega
  | succ turns ih =>
    cases todos with
    | nil => exact ⟨out, rfl, (append_nil _).symm⟩
    | cons d todos =>
      obtain ⟨out1, hout1, hfound1⟩ := hvisit d out (hgood d mem_cons_self)
      rw [flatMap_cons, paddrs_eq, cons_append] at hnodup hturns
      have hseen : d.tree.paddr ∉ seen := fun hmem =>
        disjoint_of_nodup_append hnodup hmem mem_cons_self
      have hgood' : ∀ c ∈ Todo.children d.level d.tree ++ todos, Good c :=
        forall_mem_append.mpr ⟨hchild d (hgood d mem_cons_self), fun c hc => hgood c (mem_cons_of_mem _ hc)⟩
      obtain ⟨out', hout', hfound'⟩ := @ih _ (d.tree.paddr :: seen) out1 hgood'
        (by rw [flatMap_append]; exact (perm_middle.nodup_iff).mp hnodup)
        (by rw [flatMap_append]; simpa using hturns)
      refine ⟨out', ?_, ?_⟩
      · rw [map_cons, walkTree, hout1]
        simpa [bailIf, stopIf, failIf, hseen, bind, Except.bind] using hout'
      · rw [hfound', hfound1, flatMap_append, flatMap_cons, leaves_eq d]
        simp only [append_assoc]

end Walk

/-! ### Trees with records of fixed sizes -/

section Records

variable {records : List Record} {shortChild : String} {unmapped : ℕ → String}
    {ks vs : ℕ}

lemma take_of_isPrefix {b b' : Bytes} {n : ℕ} (h : b <+: b') (hn : b.length = n) : b'.take n = b := by
  obtain ⟨t, rfl⟩ := h
  exact take_left' hn

lemma foldl_records (before : List Record) (children : List ℕ) :
    records.foldl (fun state r => (state.1 ++ [r], state.2)) (before, children) = (before ++ records, children) := by
  induction records generalizing before with
  | nil => simp
  | cons r rest ih => simp [ih]

lemma foldl_children (before : List Record) (children : List ℕ) (address : Record → ℕ) :
    records.foldl (fun state r => (state.1, state.2 ++ [address r])) (before, children)
      = (before, children ++ records.map address) := by
  induction records generalizing children with
  | nil => simp
  | cons r rest ih => simp [ih]

lemma treeRecords_leaf {map : Option AddressMap} (hleaf : node.isLeaf = true)
    (hn : node.nkeys = records.length) (hentry : Entries node records)
    (hsizes : ∀ r ∈ records, r.1.length = ks ∧ r.2.length = vs) (before : List Record) :
    (List.range node.nkeys).foldlM (treeRecord shortChild unmapped (some (ks, vs)) map node)
      (before, []) = .ok (before ++ records, []) := by
  rw [hn, Logged.foldlM_range_step, foldl_records]
  rintro i r ⟨found, children⟩ hr
  obtain ⟨⟨key, value⟩, he, hkey, hvalue⟩ := hentry i r hr
  obtain ⟨hk, hv⟩ := hsizes r (mem_of_getElem? hr)
  have hkl := hkey.length_le
  have hvl := hvalue.length_le
  simp only at hkey hvalue hkl hvl
  simp only [treeRecord, he, hleaf, if_true, returns, checks, existsAndEq, true_and,
    take_of_isPrefix hkey hk, take_of_isPrefix hvalue hv, and_true]
  omega

lemma treeRecords_index {fixed : Option (ℕ × ℕ)} (hleaf : node.isLeaf = false)
    (hn : node.nkeys = records.length) (hentry : Entries node records)
    (hsizes : ∀ r ∈ records, r.2.length = 8) (before : List Record) :
    (List.range node.nkeys).foldlM (treeRecord shortChild unmapped fixed none node) (before, [])
      = .ok (before, records.map fun r => leAt 8 r.2 0) := by
  rw [hn, Logged.foldlM_range_step, foldl_children, nil_append]
  rintro i r ⟨found, children⟩ hr
  obtain ⟨⟨key, value⟩, he, -, hvalue⟩ := hentry i r hr
  have hv := hsizes r (mem_of_getElem? hr)
  have hvl := hvalue.length_le
  simp only at hvalue hvl
  simp only [treeRecord, he, hleaf, returns, checks, existsAndEq, true_and, Bool.false_eq_true, if_false,
    leAt_of_isPrefix hvalue (show 0 + 8 ≤ r.2.length by omega), and_true]
  omega

end Records

/-- A node of a tree of fixed sizes that both editors read. -/
structure FixedNode (image : Bytes) (blockSize ks vs level oid paddr : ℕ) (records : List Record) :
    Prop where
  fits : paddr * blockSize + blockSize ≤ image.length
  checksum : fletcher64Valid (image.slice (paddr * blockSize) blockSize) = true
  fixed : btnodeFixedKvSize (leAt 2 (image.slice (paddr * blockSize) blockSize) 0x20) = true
  node : IsNode blockSize ⟨paddr, image.slice (paddr * blockSize) blockSize⟩ level records false
  physical : oid = paddr
  paddr_lt : paddr < 2 ^ 64
  sizes : ∀ r ∈ records, if level = 0 then r.1.length = ks ∧ r.2.length = vs else r.2.length = 8

/-- A tree of fixed sizes below a node. -/
structure FixedTree (image : Bytes) (blockSize ks vs : ℕ) (d : Todo) : Prop where
  node : FixedNode image blockSize ks vs d.level d.tree.oid d.tree.paddr d.tree.nodeRecords
  below : ∀ i ∈ d.tree.items, Below (FixedNode image blockSize ks vs) d.level i

section Fixed

variable {image : Bytes} {blockSize ks vs : ℕ} {d : Todo} {paddr : ℕ}

lemma FixedTree.child (h : FixedTree image blockSize ks vs d) :
    ∀ c ∈ Todo.children d.level d.tree, FixedTree image blockSize ks vs c := by
  obtain ⟨level, t, root, expected⟩ := d
  cases level with
  | zero => exact nofun
  | succ level =>
    intro c hc
    obtain ⟨i, hi, rfl⟩ := mem_map.mp hc
    exact ⟨(h.below i hi).1, (h.below i hi).2⟩

lemma FixedTree.children (h : FixedTree image blockSize ks vs d) (hl : d.level ≠ 0) :
    d.tree.nodeRecords.map (fun r => leAt 8 r.2 0) = (Todo.children d.level d.tree).map fun c => c.tree.paddr := by
  obtain ⟨level, t, root, expected⟩ := d
  cases level with
  | zero => exact absurd rfl hl
  | succ level =>
    simp only [Tree.nodeRecords, Todo.children, map_map]
    refine map_congr_left fun c hc => ?_
    have hoid := (h.below c hc).1.physical
    have hlt := (h.below c hc).1.paddr_lt
    simp only [Function.comp_apply, itemRecord, ofChild, leAt_leBytes]
    rw [Nat.mod_eq_of_lt (by omega), hoid]

/-- A node that decodes without being headerless has a full header. -/
lemma header_of_decode {object : Object} (h : BTreeNode.decodeNode object blockSize false = .ok node) :
    0x2C ≤ object.bytes.length ∧ btnodeNoheader (leAt 2 object.bytes 0x20) = false := by
  simp only [BTreeNode.decodeNode, returns, checks, existsAndEq] at h
  obtain ⟨-, hheader, -, -, -, hlen, -⟩ := h
  exact ⟨by omega, by simpa using hheader⟩

lemma FixedTree.records (h : FixedTree image blockSize ks vs d)
    (hlevel : node.level = d.level) (hleaf : node.isLeaf = decide (d.level = 0))
    (hn : node.nkeys = d.tree.nodeRecords.length) (hentry : Entries node d.tree.nodeRecords)
    (shortChild : String) (unmapped : ℕ → String) (before : List Record) :
    (List.range node.nkeys).foldlM (treeRecord shortChild unmapped (some (ks, vs)) none node)
      (before, []) = .ok (before ++ Todo.own d.level d.tree,
        (Todo.children d.level d.tree).map fun c => c.tree.paddr) := by
  have hsizes := h.node.sizes
  have hchildren := h.children
  obtain ⟨level, t, root, expected⟩ := d
  cases level with
  | zero =>
    rw [treeRecords_leaf hleaf hn hentry (by simpa using hsizes)]
    have hown : t.nodeRecords = Todo.own 0 t := map_id _
    rw [hown]
    rfl
  | succ level =>
    rw [treeRecords_index (by simpa using hleaf) hn hentry (by simpa using hsizes),
      hchildren (by simp), Todo.own, append_nil]

lemma blockAt_eq_ok (hfits : paddr * blockSize + blockSize ≤ image.length) (himage : image.length < 2 ^ 64) :
    blockAt image blockSize paddr = .ok (image.slice (paddr * blockSize) blockSize) := by
  simp only [blockAt, blocksAt, returns, checks, one_mul, and_true]
  omega

lemma replaceBlock_eq_ok (hfits : paddr * blockSize + blockSize ≤ image.length)
    (himage : image.length < 2 ^ 64) :
    replaceBlock image blockSize paddr = .ok (image.slice (paddr * blockSize) blockSize) := by
  simp only [replaceBlock, returns, checks, and_true]
  omega

lemma entries_of_isNode {records : List Record} {exact : Bool}
    (h : ∀ i r, records[i]? = some r → ∃ e, node.entry i = .ok e ∧ r.1 <+: e.1 ∧ r.2 <+: e.2 ∧ (exact → e = r)) :
    Entries node records := fun i r hr => by
  obtain ⟨e, he, hk, hv, -⟩ := h i r hr
  exact ⟨e, he, hk, hv⟩

lemma decodeTreeNode_spec (himage : image.length < 2 ^ 64)
    (h : FixedTree image blockSize ks vs d) (before : List Record) :
    decodeTreeNode image blockSize (ks, vs) none before d.tree.paddr = .ok (before ++ Todo.own d.level d.tree,
        (Todo.children d.level d.tree).map fun c => c.tree.paddr) := by
  obtain ⟨node, hdecode, -, hlevel, hleaf, hn, hentry⟩ := h.node.node
  obtain ⟨hlen, -⟩ := header_of_decode (hdecode false)
  simp only at hlen
  simp only [decodeTreeNode, returns, checks, blockAt_eq_ok h.node.fits himage, existsAndEq, true_and,
    h.node.checksum, h.node.fixed, BTreeNode.decode, hdecode, if_true,
    h.records hlevel hleaf hn (entries_of_isNode hentry), and_true]
  exact ⟨by simp, by omega⟩

lemma readTreeNode_spec (himage : image.length < 2 ^ 64)
    (h : FixedTree image blockSize ks vs d) (before : List Record) (nodes : List (ℕ × ℕ)) :
    readTreeNode image blockSize (some (ks, vs)) none (before, nodes) d.tree.paddr
      = .ok ((before ++ Todo.own d.level d.tree, nodes ++
          [(leAt 8 (image.slice (d.tree.paddr * blockSize) blockSize) 8, d.tree.paddr)]),
        (Todo.children d.level d.tree).map fun c => c.tree.paddr) := by
  obtain ⟨node, hdecode, -, hlevel, hleaf, hn, hentry⟩ := h.node.node
  obtain ⟨hlen, hheader⟩ := header_of_decode (hdecode false)
  simp only at hlen hheader
  simp only [readTreeNode, returns, checks, replaceBlock_eq_ok h.node.fits himage, existsAndEq, true_and,
    h.node.checksum, hheader, BTreeNode.decode, hdecode,
    h.records hlevel hleaf hn (entries_of_isNode hentry), and_true]
  exact ⟨by simp, by omega, by simp, by omega⟩

variable {level : ℕ} {t : Tree level}

/-- A whole tree of fixed sizes: its nodes are at different addresses, its root names the sizes. -/
structure FixedRoot (image : Bytes) (blockSize ks vs level : ℕ) (t : Tree level) : Prop where
  tree : FixedTree image blockSize ks vs ⟨level, t, true, none⟩
  nodup : ((nodes (level + 1) t).map Prod.snd).Nodup
  size : BTREE_INFO_BYTES ≤ blockSize
  image_lt : image.length < 2 ^ 64
  keySize : leAt 4 (image.slice (t.paddr * blockSize) blockSize)
    (blockSize - BTREE_INFO_BYTES + 8) = ks
  valueSize : leAt 4 (image.slice (t.paddr * blockSize) blockSize)
    (blockSize - BTREE_INFO_BYTES + 12) = vs

namespace FixedRoot

variable (h : FixedRoot image blockSize ks vs level t)
include h

lemma fits : ∀ n ∈ nodes (level + 1) t, n.2 * blockSize + blockSize ≤ image.length := by
  intro n hn
  cases hn with
  | head => exact h.tree.node.fits
  | tail _ hn =>
    obtain ⟨i, hi, hn⟩ := mem_flatMap.mp hn
    obtain ⟨_, _, hnode⟩ := (h.tree.below i hi).exists_of_mem n hn
    exact hnode.fits

/-- No more turns are needed than the image has blocks. -/
lemma nodes_length : (nodes (level + 1) t).length ≤ image.length / blockSize := by
  have hsize : 0 < blockSize := lt_of_lt_of_le (by decide) h.size
  have hsub : (nodes (level + 1) t).map Prod.snd ⊆ List.range (image.length / blockSize) := by
    intro p hp
    obtain ⟨n, hn, rfl⟩ := mem_map.mp hp
    rw [mem_range, Nat.lt_iff_add_one_le, Nat.le_div_iff_mul_le hsize, add_mul, one_mul]
    exact h.fits n hn
  simpa using (h.nodup.subperm hsub).length_le

lemma block_length : (image.slice (t.paddr * blockSize) blockSize).length = blockSize :=
  length_slice (h.fits _ mem_cons_self)

end FixedRoot

lemma decodeTreeRecords_spec (h : FixedRoot image blockSize ks vs level t) :
    decodeTreeRecords image blockSize t.paddr none = .ok (leaves (level + 1) t) := by
  have hlen := h.block_length
  have hinfo : BTREE_INFO_BYTES = 40 := rfl
  have hsize := h.size
  have hturns := h.nodes_length
  obtain ⟨records, hwalk, hrecords⟩ := @walkTree_spec _
    (fun _ => "APFS tree contains a cycle or duplicate child") _ id
    (FixedTree image blockSize ks vs) (fun d hd => hd.child)
    (fun d out hd => ⟨_, decodeTreeNode_spec h.image_lt hd out, rfl⟩)
    (image.length / blockSize + 2) [⟨level, t, true,
      none⟩] [] [] (by simpa using h.tree) (by simpa [paddrs] using h.nodup)
    (by simp [paddrs]; omega)
  obtain rfl : records = leaves (level + 1) t := by simpa [Todo.leaves] using hrecords
  simp only [decodeTreeRecords, returns, checks, blockAt_eq_ok h.tree.node.fits h.image_lt, existsAndEq,
    true_and, and_true, h.keySize, h.valueSize, hlen]
  exact ⟨by omega, by omega, by omega, hwalk⟩

lemma readTree_spec (h : FixedRoot image blockSize ks vs level t) :
    ∃ contents, readTree image blockSize t.paddr none = .ok contents ∧ contents.records = leaves (level + 1) t := by
  have hlen := h.block_length
  have hinfo : BTREE_INFO_BYTES = 40 := rfl
  have hsize := h.size
  have hturns := h.nodes_length
  have hfixed : btnodeFixedKvSize (leAt 2 (image.slice (t.paddr * blockSize) blockSize) 0x20) = true :=
    h.tree.node.fixed
  obtain ⟨⟨records, nodes⟩, hwalk, hrecords⟩ := @walkTree_spec _
    (fun paddr => s!"APFS tree repeats block {paddr}") _ Prod.fst
    (FixedTree image blockSize ks vs) (fun d hd => hd.child)
    (fun d out hd => ⟨_, readTreeNode_spec h.image_lt hd out.1 out.2, rfl⟩)
    (image.length / blockSize + 2) [⟨level, t, true, none⟩] [] ([],
      []) (by simpa using h.tree) (by simpa [paddrs] using h.nodup)
    (by simp [paddrs]; omega)
  obtain rfl : records = leaves (level + 1) t := by simpa [Todo.leaves] using hrecords
  refine ⟨⟨_, nodes, some (ks, vs),
    leAt 4 (image.slice (t.paddr * blockSize) blockSize) (blockSize - BTREE_INFO_BYTES),
    leAt 4 (image.slice (t.paddr * blockSize) blockSize) 0x1C⟩, ?_, rfl⟩
  simp only [readTree, returns, checks, replaceBlock_eq_ok h.tree.node.fits h.image_lt, existsAndEq,
    true_and, and_true, h.keySize, h.valueSize, hlen, hfixed, if_true]
  refine ⟨by omega, by omega, by omega, by omega, by omega, by omega, _, hwalk, rfl⟩

end Fixed

end AppleUtils.Apfs
