import AppleUtils.Apfs.TreeRead
import AppleUtils.Apfs.BuildSpaceman

/-! # Trees read back

The image of a new container is a store for `write_tree`.  A tree of records of fixed sizes that was
written to it is read back by both editors. -/

namespace AppleUtils.Apfs

open Bytes Checks List LawfulTreeStore SpaceBuilder

instance : TreeStore Image where
  blockSize := Image.blockSize
  alloc image blocks := image.alloc blocks
  writeBlocks image paddr data := image.writeBlocks paddr data

instance : LawfulTreeStore Image where
  block := Image.blocks
  Taken image p := p < image.next ∧ p < image.blockCount ∧ p < 2 ^ 64
  alloc_one h := by
    simp only [TreeStore.alloc, Image.alloc, returns, checks, Prod.mk.injEq] at h
    obtain ⟨hlt, hroom, rfl, rfl⟩ := h
    dsimp only
    exact ⟨by omega, by omega, rfl, fun q hq => ⟨by omega, rfl⟩⟩
  write_one h hp := by
    simp only [TreeStore.writeBlocks, Image.writeBlocks, returns, checks] at h
    obtain ⟨_, rfl⟩ := h
    exact ⟨Function.update_self .., rfl, fun q hq => hq, fun q hq _ => Function.update_of_ne hq ..⟩

/-- The bytes of an image, block after block. -/
structure StoredAs (image : Image) (bytes : Bytes) : Prop where
  length : bytes.length = image.blockCount * image.blockSize
  length_lt : bytes.length < 2 ^ 64
  block : ∀ p < image.blockCount, bytes.slice (p * image.blockSize) image.blockSize = image.blocks p

/-- Records of fixed sizes in blocks of a size.  `fixed_toc_len` rounds down: what it leaves of a block
must be less than a record, or a node takes a record for which its table has no entry. -/
structure TreeLayout.Fixed (layout : TreeLayout) (blockSize ks vs : ℕ) : Prop where
  fixed : layout.fixed = some (ks, vs)
  sizes : 0 < ks ∧ ks < 256 ^ 4 ∧ vs < 256 ^ 4
  words : blockSize % 4 = 0
  size : blockSize ≤ 2 ^ 16
  rest : ∀ v ∈ [vs, 8], (blockSize - BTNODE_TOC_BASE) % (4 + ks + v) < ks + v

variable {image image' image'' : Image} {bytes : Bytes} {layout : TreeLayout} {ks vs xid nextOid nextOid' root : ℕ}
    {records : List Record} {mappings : List (ℕ × ℕ)}

/-- Records that fit a node have their entries in its table. -/
lemma le_fixedTocLen {blockSize n : ℕ}
    (hrest : (blockSize - BTNODE_TOC_BASE) % (4 + ks + vs) < ks + vs)
    (h : BTNODE_TOC_BASE + fixedTocLen blockSize ks vs + n * (ks + vs) ≤ blockSize) :
    n * 4 ≤ fixedTocLen blockSize ks vs := by
  have hdiv := Nat.div_add_mod (blockSize - BTNODE_TOC_BASE) (4 + ks + vs)
  unfold fixedTocLen FIXED_TOC_ENTRY_BYTES at *
  generalize (blockSize - BTNODE_TOC_BASE) / _ = c at *
  rw [show (4 + ks + vs) * c = c * 4 + c * (ks + vs) by ring] at hdiv
  by_contra hlt
  have hmul := Nat.mul_le_mul_right (ks + vs) (show c + 1 ≤ n by omega)
  rw [Nat.add_one_mul] at hmul
  omega

/-- A node in the image is one that both editors read; a root names the sizes of the records. -/
lemma StoredAs.fixedNode {isRoot : Bool} {level oid paddr : ℕ} (h : StoredAs image bytes)
    (hlayout : layout.Fixed image.blockSize ks vs)
    (hn : NodeIn layout xid none image isRoot level oid paddr records) (hp : Taken image paddr) :
    let block := bytes.slice (paddr * image.blockSize) image.blockSize
    FixedNode bytes image.blockSize ks vs level oid paddr records ∧ (isRoot → BTREE_INFO_BYTES ≤ image.blockSize
      ∧ leAt 4 block (image.blockSize - BTREE_INFO_BYTES + 8) = ks
      ∧ leAt 4 block (image.blockSize - BTREE_INFO_BYTES + 12) = vs) := by
  obtain ⟨hoid, hlevel, body, totals, henc, hblock⟩ := hn
  obtain ⟨hfixed, ⟨hpos, hks, hvs⟩, hfour, hsize, hrest⟩ := hlayout
  rw [show TreeStore.blockSize image = image.blockSize from rfl] at henc
  have henc' := henc
  simp only [encodeTreeNode, returns, checks, TreeLayout.sizes, TreeLayout.tocLen, nodeBytes, hfixed, Option.map_some] at henc'
  obtain ⟨-, hfits, b1, hrecords, -⟩ := henc'
  replace hrecords := encodeRecords_sizes hrecords
  generalize hvalue : (if level = 0 then vs else 8) = vs' at *
  have hsum : (records.map fun r => r.1.length + r.2.length).sum = records.length * (ks + vs') := by
    rw [map_congr_left fun r hr => show _ = ks + vs' by rw [(hrecords r hr).1, (hrecords r hr).2], map_const',
      sum_replicate_nat]
  have hcount := le_fixedTocLen (n := records.length) (hrest vs' (by grind)) (by omega)
  obtain ⟨hlen, hinfo, hnode⟩ := encodeTreeNode_spec henc hsize hlevel
    (by simpa [hfixed, TreeLayout.tocLen, TreeLayout.sizes, tocStride, hvalue] using hcount)
    fun r hr => length_pos_iff.mp ((hrecords r hr).1 ▸ hpos)
  have hbase : BTNODE_TOC_BASE = 56 ∧ BTREE_INFO_BYTES = 40 ∧ infoBytes true = 40 := ⟨rfl, rfl, rfl⟩
  have h32 : 32 ≤ body.length := by omega
  have hslice : _ = LawfulTreeStore.block image paddr := h.block paddr hp.2.1
  have hmul := Nat.mul_le_mul_right image.blockSize hp.2.1
  have hlength := h.length
  rw [Nat.succ_mul] at hmul
  obtain ⟨hflags, hnode⟩ := hnode paddr oid xid (treeStorage none + nodeKind isRoot) layout.subtype
  rw [hfixed] at hnode hflags
  refine ⟨⟨by omega, ?_, ?_, ?_, hoid rfl, hp.2.2, fun r hr => ?_⟩, fun hroot => ?_⟩ <;> try rw [hslice, hblock]
  · rw [← checksumValid_eq]
    exact checksumValid_sealBlock h32 (hlen ▸ hfour)
  · rw [hflags]
    exact btnodeFixedKvSize_nodeFlags ..
  · exact hnode
  · have hr := hrecords r hr
    split_ifs at hvalue ⊢
    · exact hvalue ▸ hr
    · exact hvalue ▸ hr.2
  · obtain ⟨hkey, hval⟩ := hinfo hroot _ hfixed
    rw [hroot] at hfits
    rw [leAt_sealBlock h32 (by omega), leAt_sealBlock h32 (by omega), hkey, hval]
    exact ⟨by omega, Nat.mod_eq_of_lt hks, Nat.mod_eq_of_lt hvs⟩

/-- The records of a physical tree of fixed sizes are read back, by `apfs_update` and by `apfs_replace`,
from whatever the image has become, as long as its blocks were left alone. -/
theorem writeTree_reads_back (hlayout : layout.Fixed image.blockSize ks vs)
    (hwrite : writeTree layout xid none image records nextOid = .ok (root, mappings, nextOid', image'))
    (hlater : Extends image' image'') (hbytes : StoredAs image'' bytes) :
    decodeTreeRecords bytes image.blockSize root none = .ok records ∧
      ∃ contents, readTree bytes image.blockSize root none = .ok contents ∧ contents.records = records := by
  obtain ⟨level, t, rfl, hnode, hbelow, hleaves, hgrown⟩ := writeTree_spec hwrite
  have hsize : image''.blockSize = image.blockSize := hlater.size.trans hgrown.grows.size
  rw [← hsize] at hlayout ⊢
  have htaken := hgrown.taken t.paddr mem_cons_self
  obtain ⟨hroot, hinfo⟩ := hbytes.fixedNode hlayout (hnode.extends hlater htaken) (hlater.taken _ htaken)
  obtain ⟨hle, hkey, hvalue⟩ := hinfo rfl
  have hroot : FixedRoot bytes image''.blockSize ks vs level t := by
    refine ⟨⟨hroot, fun i hi => (hbelow i hi).mono fun n hn level records hn' => ?_⟩,
      hgrown.nodup, hle, hbytes.length_lt, hkey, hvalue⟩
    have hmem := mem_map_of_mem (f := Prod.snd) (mem_cons_of_mem (t.oid, t.paddr) (mem_flatMap.mpr ⟨i, hi, hn⟩))
    have htaken := hgrown.taken _ hmem
    exact (hbytes.fixedNode hlayout (hn'.extends hlater htaken) (hlater.taken _ htaken)).1
  rw [← hleaves]
  exact ⟨decodeTreeRecords_spec hroot, readTree_spec hroot⟩

/-! Thirteen records in blocks of 512 bytes, two leaves below a root, and then a tree without records. -/

def thirteen : List Record := (range 13).map fun i => (leBytes 16 i, leBytes 16 (i + 1))

def thirteenWritten := writeTree ⟨some (16, 16), 0x12, TYPE_OMAP⟩ 1 none (Image.new 512 4) thirteen 0

def twoWritten := thirteenWritten.bind fun w => writeTree ⟨none, 0, 0⟩ 1 none w.2.2.2 [] w.2.2.1

def twoBytes : Bytes := (twoWritten.toOption.map fun w => (range 4).flatMap w.2.2.2.blocks).getD []

theorem thirteen_reads_back : ∃ root, decodeTreeRecords twoBytes 512 root none = .ok thirteen := by
  have hstored : twoWritten.toOption.any (fun w => w.2.2.2.blockSize = 512 ∧ w.2.2.2.blockCount = 4
      ∧ twoBytes.length = 2048 ∧ ∀ p < 4, twoBytes.slice (p * 512) 512 = w.2.2.2.blocks p) = true := by
    decide +kernel
  rcases hw' : twoWritten with e | w' <;> rw [hw'] at hstored
  · cases hstored
  obtain ⟨hsize, hcount, hlength, hblocks⟩ := of_decide_eq_true hstored
  obtain ⟨w, hw, hw'⟩ := bind_eq_ok.mp hw'
  obtain ⟨_, _, _, _, _, _, hgrown⟩ := writeTree_spec hw'
  exact ⟨w.1, (writeTree_reads_back ⟨rfl, by decide, rfl, by decide, by decide⟩ hw hgrown.grows
    ⟨by rw [hsize, hcount, hlength], by rw [hlength]; decide, by rwa [hsize, hcount]⟩).1⟩

end AppleUtils.Apfs
