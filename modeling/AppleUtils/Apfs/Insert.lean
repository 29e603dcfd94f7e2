import AppleUtils.Apfs.KeyOrder
import AppleUtils.Apfs.LeafBlock
import AppleUtils.Lib.Ends
import Mathlib.Data.List.Sort

/-! # Inserting a file into a volume of one leaf

`insert_regular_file` reads the catalog, looks for blocks of zeros, writes the contents there, builds
the leaf with the records of the file and writes it, and last the counters of the superblock.  The
device is a list of blocks in memory.

Up to `prepare` nothing is written.  The contents are written before the leaf is built, so a leaf that
does not fit leaves them behind (`insert_atomic_iff`). -/

namespace AppleUtils.Apfs.Mutate

open Bytes Checks List
open LeafBlock (fullLeaf)

abbrev Blocks := List Bytes

def outOfRange : Stop := .refused "no such block" []

def readBlock (image : Blocks) (index : ℕ) : Checked Bytes := okOr image[index]? outOfRange

def writeBlock (image : Blocks) (index : ℕ) (data : Bytes) : Checked Blocks :=
  if index < image.length then .ok (image.set index data) else .error outOfRange

/-! ### Before the first write -/

def catalogRecords (blockSize paddr : ℕ) (tree : Bytes) : Checked (List Record) := do
  let flags ← u16At tree 0x20
  let level ← u16At tree 0x22
  bailIf (¬ btnodeLeaf flags ∨ level ≠ 0)
    "insert needs a single-leaf filesystem catalog (this volume's tree is deeper)"
  let node ← BTreeNode.decode ⟨paddr, tree⟩ blockSize
  (List.range node.nkeys).mapM node.entry

/-- Where the name of a directory key starts, and its length. -/
def nameAt (hashed : Bool) (key : Bytes) : Checked (ℕ × ℕ) :=
  if hashed then (fun n => (12, n % 2 ^ 10)) <$> u32At key 8 else (fun n => (10, n)) <$> u16At key 8

def checkName (parentId : ℕ) (name : Bytes) (hashed : Bool) (record : Record) : Checked Unit := do
  let header ← u64At record.1 0
  if recordKind header ≠ J_DIR_REC ∨ objId header ≠ parentId then pure ()
  else
    let (start, len) ← nameAt hashed record.1
    stopIf (0 < len ∧ start + len ≤ record.1.length ∧ record.1.slice start (len - 1) = name)
      (.refused "already exists in this directory" name)

/-- The blocks are zero, as far as the first that is not. -/
def zeroRun (image : Blocks) : List ℕ → Checked Bool
  | [] => .ok true
  | index :: rest => do
    let buf ← readBlock image index
    if buf.any (· ≠ 0) then pure false else zeroRun image rest

def noRun : Stop := .refused "no free zeroed blocks at the end of the container for insert" []

/-- The loop of `find_zero_run`. -/
def searchRun (image : Blocks) (need : ℕ) : ℕ → ℕ → Checked ℕ
  | 0, _ => .error noRun
  | turns + 1, paddr =>
    if paddr ≤ 1 then .error noRun
    else do
      let ok ← zeroRun image ((List.range need).map (paddr + ·))
      if ok then pure paddr else searchRun image need turns (paddr - 1)

def findZeroRun (image : Blocks) (blockCount need : ℕ) : Checked ℕ := do
  bailIf (need = 0 ∨ need + 2 ≥ blockCount) "file does not fit in the container"
  let startFrom := blockCount - (need + 1)
  searchRun image need (min startFrom 4096) startFrom

/-- The arguments of a call. -/
structure Call where
  (blockSize blockCount fsTreePaddr apsbPaddr parentId : ℕ)
  (name data : Bytes)

/-- What the call has found when it starts to write. -/
structure Plan where
  tree : Bytes
  records : List Record
  hashed : Bool
  (ino paddr : ℕ)

namespace Call

variable (call : Call)

def need : ℕ := max ((call.data.length + (call.blockSize - 1)) / call.blockSize) 1

def maxOid (records : List Record) : ℕ :=
  records.foldl (fun oid record => max oid (objId (leAt 8 record.1 0))) call.parentId

def prepare (image : Blocks) : Checked Plan := do
  stopIf (call.name = [] ∨ 0x2f ∈ call.name ∨ call.name = [0x2e] ∨ call.name = [0x2e, 0x2e])
    (.refused "refusing to insert" call.name)
  let tree ← readBlock image call.fsTreePaddr
  let records ← catalogRecords call.blockSize call.fsTreePaddr tree
  let hashed := records.any fun record => drecKeyIsHashed record.1
  records.forM (checkName call.parentId call.name hashed)
  let apsb ← readBlock image call.apsbPaddr
  let nextObjId ← u64At apsb 0xB0
  let next ← narrow 64 (call.maxOid records + 1)
  let paddr ← findZeroRun image call.blockCount call.need
  pure ⟨tree, records, hashed, max next nextObjId, paddr⟩

/-! ### The contents -/

def dataBlock (i : ℕ) : Bytes :=
  let part := (call.data.drop (i * call.blockSize)).take call.blockSize
  part ++ zeros (call.blockSize - part.length)

def dataBlocks : List Bytes := (List.range call.need).map call.dataBlock

end Call

def writeRun : Blocks → ℕ → List Bytes → Checked Unit × Blocks
  | image, _, [] => (.ok (), image)
  | image, paddr, block :: rest =>
    match writeBlock image paddr block with
    | .error e => (.error e, image)
    | .ok image => writeRun image (paddr + 1) rest

/-! ### The leaf -/

def J_DSTREAM_ID : ℕ := 6
def DSTREAM_BYTES : ℕ := 40
def INODE_XFIELDS_OFFSET : ℕ := 0x5C
def INODE_INTERNAL_FLAGS : ℕ := 0x8000
def DT_REG : ℕ := 8

def recordKey (kind oid : ℕ) : Bytes := leBytes 8 ((kind <<< 60) ||| oid)

def inodeVal (parent oid size alloced : ℕ) : Bytes :=
  let value := putLe 8 (putLe 8 (zeros INODE_XFIELDS_OFFSET) 0 parent) 8 oid
  let value := putLe 4 (putLe 8 value 0x30 INODE_INTERNAL_FLAGS) 0x38 1
  let value := putLe 2 value 0x50 (0x8000 ||| 0o644)
  let dstream := putLe 8 (putLe 8 (putLe 8 (zeros DSTREAM_BYTES) 0 size) 8 alloced) 0x18 size
  value ++ leBytes 2 1 ++ leBytes 2 DSTREAM_BYTES ++ [8, 0] ++ leBytes 2 DSTREAM_BYTES ++ dstream

def drecVal (fileId : ℕ) : Bytes := putLe 2 (putLe 8 (zeros 0x12) 0 fileId) 0x10 DT_REG

def extentVal (len phys : ℕ) : Bytes := leBytes 8 (max len 1) ++ leBytes 8 phys ++ leBytes 8 0

/-- One more child for the inode of the directory, the first with its number. -/
def bumpNchildren (parentId : ℕ) : List Record → List Record
  | [] => []
  | (key, value) :: rest =>
    if recordKind (leAt 8 key 0) ≠ J_INODE ∨ objId (leAt 8 key 0) ≠ parentId then
      (key, value) :: bumpNchildren parentId rest
    else if value.length ≥ 0x3C then
      (key, putLe 4 value 0x38 (min (leAt 4 value 0x38 + 1) (2 ^ 32 - 1))) :: rest
    else (key, value) :: rest

/-- `btree_leaf` of a root. -/
def btreeLeaf (blockSize : ℕ) (records : List Record) : Checked Bytes :=
  (LeafBlock.btreeLeaf true).write blockSize records

namespace Call

variable (call : Call)

def newRecords (plan : Plan) (drec : Bytes) : List Record :=
  let alloced := call.need * call.blockSize
  [(recordKey J_INODE plan.ino, inodeVal call.parentId plan.ino call.data.length alloced),
    (recordKey J_FILE_EXTENT plan.ino ++ leBytes 8 0, extentVal alloced plan.paddr),
    (drec, drecVal plan.ino), (recordKey J_DSTREAM_ID plan.ino, leBytes 4 1)]

/-- The records of the catalog and of the file, in order. -/
def allRecords (plan : Plan) (drec : Bytes) : List Record :=
  (bumpNchildren call.parentId (plan.records ++ call.newRecords plan drec)).insertionSort
    fun a b => ¬ recOrder b.1 < recOrder a.1

/-- The leaf with the records of the file, or why there is none. -/
def rebuild (plan : Plan) : Checked Bytes := do
  let drec ← okOr (drecKey call.parentId call.name plan.hashed)
    (.refused "needs real Unicode case folding and NFD decomposition to hash correctly" call.name)
  let leaf ← btreeLeaf call.blockSize (call.allRecords plan drec)
  let header ← sliceAt plan.tree 8 24
  let leaf ← putAt leaf (8, header)
  pure (fletcher64Seal leaf)

/-! ### The whole call -/

/-- The superblock with the counters of the file. -/
def countFile (image : Blocks) (ino : ℕ) : Checked Bytes := do
  let apsb ← readBlock image call.apsbPaddr
  let numFiles ← u64At apsb 0xB8
  let next ← narrow 64 (ino + 1)
  let apsb ← putAt apsb (0xB8, leBytes 8 (min (numFiles + 1) (2 ^ 64 - 1)))
  let nextObjId ← u64At apsb 0xB0
  let apsb ← putAt apsb (0xB0, leBytes 8 (max next nextObjId))
  pure (fletcher64Seal apsb)

def publish (image : Blocks) (ino : ℕ) (leaf : Bytes) : Checked ℕ × Blocks :=
  match writeBlock image call.fsTreePaddr leaf with
  | .error e => (.error e, image)
  | .ok image =>
    match call.countFile image ino with
    | .error e => (.error e, image)
    | .ok apsb =>
      match writeBlock image call.apsbPaddr apsb with
      | .error e => (.error e, image)
      | .ok image => (.ok ino, image)

/-- The result and the blocks after the call. -/
def insertRegularFile (image : Blocks) : Checked ℕ × Blocks :=
  match call.prepare image with
  | .error e => (.error e, image)
  | .ok plan =>
    match writeRun image plan.paddr call.dataBlocks with
    | (.error e, image) => (.error e, image)
    | (.ok _, image) =>
      match call.rebuild plan with
      | .error e => (.error e, image)
      | .ok leaf => call.publish image plan.ino leaf

end Call

/-! ### Blocks of zeros -/

variable {image : Blocks}

lemma readBlock_eq_ok {index : ℕ} {b : Bytes} : readBlock image index = .ok b ↔ image[index]? = some b :=
  okOr_eq_ok

lemma zeroRun_ok {l : List ℕ} (h : zeroRun image l = .ok true) :
    ∀ index ∈ l, ∃ b, image[index]? = some b ∧ ∀ x ∈ b, x = 0 := by
  induction l with
  | nil => exact nofun
  | cons index rest ih =>
    rw [zeroRun, bind_eq_ok] at h
    obtain ⟨b, hb, h⟩ := h
    by_cases hany : b.any (· ≠ 0)
    · rw [if_pos hany] at h
      cases h
    · rw [if_neg hany] at h
      refine forall_mem_cons.mpr ⟨⟨b, readBlock_eq_ok.mp hb, ?_⟩, ih h⟩
      simpa using hany

lemma searchRun_ok {need turns paddr p : ℕ} (h : searchRun image need turns paddr = .ok p) :
    ∀ i < need, ∃ b, image[p + i]? = some b ∧ ∀ x ∈ b, x = 0 := by
  induction turns generalizing paddr with
  | zero => cases h
  | succ turns ih =>
    rw [searchRun] at h
    split_ifs at h
    rw [bind_eq_ok] at h
    obtain ⟨ok, hok, h⟩ := h
    cases ok with
    | false => exact ih h
    | true =>
      obtain rfl : paddr = p := pure_eq_ok.mp h
      intro i hi
      exact zeroRun_ok hok _ (mem_map.mpr ⟨i, mem_range.mpr hi, rfl⟩)

/-- What the plan says of the blocks. -/
lemma Call.prepare_ok {call : Call} {plan : Plan} (h : call.prepare image = .ok plan) :
    (∀ i < call.need, ∃ b, image[plan.paddr + i]? = some b ∧ ∀ x ∈ b, x = 0) ∧
      (∃ tree, image[call.fsTreePaddr]? = some tree ∧ 2 ≤ tree.length) ∧
      ∃ apsb, image[call.apsbPaddr]? = some apsb := by
  simp only [prepare, returns, checks, readBlock_eq_ok, stopIf_eq_ok, catalogRecords, findZeroRun] at h
  obtain ⟨-, tree, htree, records, ⟨flags, ⟨hflags, -⟩, -⟩, -, apsb, hapsb, -, -, -, -, p, ⟨-, hp⟩, rfl⟩ := h
  exact ⟨searchRun_ok hp, ⟨tree, htree, by omega⟩, apsb, hapsb⟩

/-! ### The contents -/

lemma writeRun_ok {blocks : List Bytes} {paddr : ℕ} (h : paddr + blocks.length ≤ image.length) :
    ∃ image', writeRun image paddr blocks = (.ok (), image') ∧ image'.length = image.length ∧
      ∀ j, image'[j]? = if paddr ≤ j ∧ j < paddr + blocks.length then blocks[j - paddr]? else image[j]? := by
  induction blocks generalizing image paddr with
  | nil =>
    refine ⟨image, rfl, rfl, fun j => ?_⟩
    rw [if_neg (by simp)]
  | cons block rest ih =>
    rw [length_cons] at h ⊢
    obtain ⟨image', hrun, hlen, hget⟩ := @ih (image.set paddr block) (paddr + 1)
      (by rw [length_set]; omega)
    rw [length_set] at hlen
    refine ⟨image', ?_, hlen, fun j => ?_⟩
    · rw [writeRun, writeBlock, if_pos (by omega)]
      exact hrun
    · rw [hget]
      rcases lt_trichotomy j paddr with hj | rfl | hj
      · rw [if_neg (by omega), if_neg (by omega), List.getElem?_set_ne (by omega)]
      · rw [if_neg (by omega), if_pos (by omega), List.getElem?_set_self (by omega), Nat.sub_self]
        rfl
      · by_cases hin : j < paddr + 1 + rest.length
        · rw [if_pos (by omega), if_pos (by omega), show j - paddr = j - (paddr + 1) + 1 by omega]
          rfl
        · rw [if_neg (by omega), if_neg (by omega), List.getElem?_set_ne (by omega)]

namespace Call

variable {call : Call} {plan : Plan} {ino : ℕ}

lemma length_dataBlock (i : ℕ) : (call.dataBlock i).length = call.blockSize := by
  rw [dataBlock, length_append, length_zeros]
  have := length_take_le call.blockSize (call.data.drop (i * call.blockSize))
  omega

lemma need_pos : 0 < call.need := lt_of_lt_of_le Nat.one_pos (le_max_right _ _)

/-- The blocks are zero exactly if the contents are. -/
lemma dataBlocks_zero (hpos : 0 < call.blockSize) :
    (∀ i < call.need, ∀ x ∈ call.dataBlock i, x = 0) ↔ ∀ x ∈ call.data, x = 0 := by
  constructor
  · intro h x hx
    obtain ⟨k, hk, rfl⟩ := mem_iff_getElem.mp hx
    have hneed : k / call.blockSize < call.need := by
      refine lt_of_lt_of_le ?_ (le_max_left _ _)
      rw [← Nat.succ_le_iff, Nat.succ_eq_add_one, ← Nat.add_div_right k hpos]
      exact Nat.div_le_div_right (by omega)
    refine h _ hneed _ (mem_append_left _ (mem_iff_getElem?.mpr ⟨k % call.blockSize, ?_⟩))
    rw [List.getElem?_take_of_lt (Nat.mod_lt _ hpos), List.getElem?_drop, mul_comm, Nat.div_add_mod,
      List.getElem?_eq_getElem hk]
  · intro h i _ x hx
    rcases mem_append.mp hx with hx | hx
    · exact h x (mem_of_mem_drop (mem_of_mem_take hx))
    · exact eq_of_mem_replicate hx

/-- Writing the contents succeeds, and changes something unless all of them are zero. -/
lemma writeRun_data (hsize : ∀ b ∈ image, b.length = call.blockSize)
    (h : call.prepare image = .ok plan) : ∃ image', writeRun image plan.paddr call.dataBlocks = (.ok (), image') ∧
      image'.length = image.length ∧ (image' = image ↔ ∀ x ∈ call.data, x = 0) := by
  obtain ⟨hzero, ⟨tree, htree, htwo⟩, -⟩ := prepare_ok h
  have hpos : 0 < call.blockSize := by
    have := hsize tree (mem_of_getElem? htree)
    omega
  have hlength : call.dataBlocks.length = call.need := by rw [dataBlocks, length_map, length_range]
  have hroom : plan.paddr + call.dataBlocks.length ≤ image.length := by
    have hneed := call.need_pos
    obtain ⟨b, hb, -⟩ := hzero (call.need - 1) (by omega)
    have := (List.getElem?_eq_some_iff.mp hb).1
    omega
  obtain ⟨image', hrun, hlen, hget⟩ := writeRun_ok hroom
  have hblock : ∀ i < call.need, call.dataBlocks[i]? = some (call.dataBlock i) := by
    intro i hi
    rw [dataBlocks, List.getElem?_map, List.getElem?_range hi]
    rfl
  refine ⟨image', hrun, hlen, ?_⟩
  rw [← dataBlocks_zero hpos]
  constructor
  · rintro rfl i hi
    have hi' := hget (plan.paddr + i)
    obtain ⟨b, hb, hbzero⟩ := hzero i hi
    rw [if_pos (by omega), Nat.add_sub_cancel_left, hblock i hi, hb] at hi'
    rw [← Option.some.inj hi']
    exact hbzero
  · intro hdata
    refine ext_getElem? fun j => ?_
    rw [hget]
    split_ifs with hj
    · -- Zeros over zeros
      obtain ⟨i, rfl⟩ := Nat.exists_eq_add_of_le hj.1
      have hi : i < call.need := by omega
      obtain ⟨b, hb, hbzero⟩ := hzero i hi
      rw [Nat.add_sub_cancel_left, hblock i hi, hb, eq_replicate_of_mem (hdata i hi), eq_replicate_of_mem hbzero,
        length_dataBlock, hsize b (mem_of_getElem? hb)]
    · rfl

/-! ### After the leaf is built -/

section panics

variable {n i w m : ℕ} {b : Bytes} {field : ℕ × Bytes}

lemma numberAt_panics : Ends (· = Stop.panic) (numberAt n b i) fun _ => True := by
  unfold numberAt
  split <;> simp

lemma sliceAt_panics : Ends (· = Stop.panic) (sliceAt b i n) fun _ => True := by
  unfold sliceAt
  split <;> simp [Panics.panic]

lemma narrow_panics : Ends (· = Stop.panic) (narrow w m) fun _ => True := by
  unfold narrow
  split <;> simp

lemma putAt_panics : Ends (· = Stop.panic) (putAt b field) fun _ => True := by
  unfold putAt
  split <;> simp [Panics.panic]

end panics

lemma countFile_panics {apsb : Bytes} (h : image[call.apsbPaddr]? = some apsb) :
    Ends (· = Stop.panic) (call.countFile image ino) fun _ => True := by
  rw [countFile, readBlock_eq_ok.mpr h, Ends.bind_iff, Ends.ok_iff, Ends.bind_iff]
  refine numberAt_panics.conseq fun numFiles _ => ?_
  rw [Ends.bind_iff]
  refine narrow_panics.conseq fun next _ => ?_
  rw [Ends.bind_iff]
  refine putAt_panics.conseq fun apsb' _ => ?_
  rw [Ends.bind_iff]
  refine numberAt_panics.conseq fun nextObjId _ => ?_
  rw [Ends.bind_iff]
  exact putAt_panics.conseq fun _ _ => trivial

lemma publish_panics {leaf : Bytes} {e : Stop} {image' : Blocks}
    (htree : call.fsTreePaddr < image.length) (hapsb : call.apsbPaddr < image.length)
    (h : call.publish image ino leaf = (.error e, image')) : e = .panic := by
  have hset : call.apsbPaddr < (image.set call.fsTreePaddr leaf).length := by rwa [length_set]
  rw [publish, writeBlock, if_pos htree] at h
  simp only [writeBlock, if_pos hset] at h
  have hcount : Ends (· = Stop.panic) (call.countFile (image.set call.fsTreePaddr leaf) ino) fun _ => True :=
    countFile_panics (List.getElem?_eq_getElem hset)
  cases hresult : call.countFile (image.set call.fsTreePaddr leaf) ino with
  | error e' =>
    rw [hresult] at h hcount
    cases h
    exact hcount
  | ok apsb =>
    rw [hresult] at h
    cases h

/-- The name has a key, and the leaf has room for the records of the file. -/
def HasRoom (call : Call) (plan : Plan) : Prop :=
  ∃ drec, drecKey call.parentId call.name plan.hashed = some drec ∧
    ∀ e, btreeLeaf call.blockSize (call.allRecords plan drec) = .error e → e = .panic

lemma rebuild_panics_iff : (∀ e, call.rebuild plan = .error e → e = .panic) ↔ call.HasRoom plan := by
  rw [rebuild, HasRoom]
  cases hdrec : drecKey call.parentId call.name plan.hashed with
  | none =>
    refine iff_of_false (fun h => ?_) (by simp)
    cases h _ rfl
  | some drec =>
    simp only [Option.some.injEq, exists_eq_left']
    change (∀ e, (btreeLeaf call.blockSize (call.allRecords plan drec) >>= fun leaf =>
      sliceAt plan.tree 8 24 >>= fun header => putAt leaf (8, header) >>= fun leaf =>
        pure (fletcher64Seal leaf)) = .error e → e = .panic) ↔ _
    cases hleaf : btreeLeaf call.blockSize (call.allRecords plan drec) with
    | error e => exact Iff.rfl
    | ok leaf =>
      refine iff_of_true (fun e he => ?_) nofun
      have hrest : Ends (· = Stop.panic) (do
          let header ← sliceAt plan.tree 8 24
          let leaf ← putAt leaf (8, header)
          pure (fletcher64Seal leaf)) fun _ => True := by
        rw [Ends.bind_iff]
        refine sliceAt_panics.conseq fun header _ => ?_
        rw [Ends.bind_iff]
        exact putAt_panics.conseq fun _ _ => trivial
      exact hrest.of_error he

/-- A call that returns an error leaves the blocks as they were exactly if the contents are zero or
there is room for the file (or the call has failed before). -/
theorem insert_atomic_iff (call : Call) (image : Blocks) (hsize : ∀ b ∈ image, b.length = call.blockSize) :
    (∀ e image', call.insertRegularFile image = (.error e, image') → e ≠ .panic → image' = image) ↔
      ∀ plan, call.prepare image = .ok plan → (∀ x ∈ call.data, x = 0) ∨ call.HasRoom plan := by
  simp only [← rebuild_panics_iff]
  constructor
  · intro h plan hplan
    obtain ⟨image', hrun, -, hsame⟩ := writeRun_data hsize hplan
    rw [← hsame, or_iff_not_imp_right]
    intro hfails
    push Not at hfails
    obtain ⟨e, hrebuild, he⟩ := hfails
    exact h e image' (by rw [insertRegularFile, hplan]; simp only [hrun, hrebuild]) he
  · intro h e image' hinsert he
    rw [insertRegularFile] at hinsert
    cases hplan : call.prepare image with
    | error e' =>
      rw [hplan] at hinsert
      exact (Prod.mk.inj hinsert).2.symm
    | ok plan =>
      obtain ⟨image₁, hrun, hlen, hsame⟩ := writeRun_data hsize hplan
      simp only [hplan, hrun] at hinsert
      cases hrebuild : call.rebuild plan with
      | error e' =>
        simp only [hrebuild] at hinsert
        obtain ⟨heq, rfl⟩ := Prod.mk.inj hinsert
        cases heq
        exact hsame.mpr ((h plan hplan).resolve_right fun hp => he (hp e hrebuild))
      | ok leaf =>
        simp only [hrebuild] at hinsert
        obtain ⟨-, ⟨tree, htree, -⟩, apsb, hapsb⟩ := prepare_ok hplan
        have htree' := (List.getElem?_eq_some_iff.mp htree).1
        have hapsb' := (List.getElem?_eq_some_iff.mp hapsb).1
        exact absurd (publish_panics (by omega) (by omega) hinsert) he

end Call

/-! ### A leaf that does not fit -/

/-- A volume with an empty catalog. -/
def emptyVolume : Blocks :=
  [zeros 4096, putLe 2 (zeros 4096) 0x20 2, zeros 4096, zeros 4096, zeros 4096, zeros 4096, zeros 4096,
    zeros 4096]

/-- A file in the root directory with a name of 4000 characters. -/
def longNamed (data : Bytes) : Call where
  blockSize := 4096
  blockCount := 8
  fsTreePaddr := 1
  apsbPaddr := 2
  parentId := ROOT_DIR_INO_NUM
  name := List.replicate 4000 0x61
  data := data

/-- The call with contents of zeros fails, and the blocks are as they were. -/
theorem insert_atomic_zeros : ((longNamed [0]).insertRegularFile emptyVolume).1 = .error fullLeaf ∧
    ((longNamed [0]).insertRegularFile emptyVolume).2 = emptyVolume := by
  have hfails : ((longNamed [0]).insertRegularFile emptyVolume).1 = .error fullLeaf := by decide +kernel
  have hsize : ∀ b ∈ emptyVolume, b.length = (longNamed [0]).blockSize := by decide +kernel
  have hzero : ∀ x ∈ (longNamed [0]).data, x = 0 := by decide
  have hatomic := (Call.insert_atomic_iff (longNamed [0]) emptyVolume hsize).mpr fun _ _ => .inl hzero
  have hpanic : fullLeaf ≠ .panic := nofun
  -- Without the blocks, or Lean would run the call
  generalize (longNamed [0]).insertRegularFile emptyVolume = result at hfails hatomic ⊢
  exact ⟨hfails, hatomic fullLeaf _ (Prod.ext hfails rfl) hpanic⟩

/-- With a byte that is not zero the same call leaves it in block 6. -/
theorem full_leaf_leaves_contents : ((longNamed [1]).insertRegularFile emptyVolume).1 = .error fullLeaf ∧
    ((longNamed [1]).insertRegularFile emptyVolume).2 ≠ emptyVolume := by
  have hafter : ((longNamed [1]).insertRegularFile emptyVolume).2[6]?.bind List.head? = some 1 := by
    decide +kernel
  have hbefore : emptyVolume[6]?.bind List.head? = some 0 := by decide +kernel
  refine ⟨by decide +kernel, fun heq => ?_⟩
  rw [heq, hbefore] at hafter
  cases hafter

end AppleUtils.Apfs.Mutate
