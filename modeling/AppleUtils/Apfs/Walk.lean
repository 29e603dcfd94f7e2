import AppleUtils.Apfs.Tree

/-! # Walks of object maps

A verifier whose source holds an object map's tree reads every node of it: `collectOmap` returns the
entries of its leaves, each once (`passes_collectOmap`), and notes only blocks of the tree. -/

namespace AppleUtils.Apfs

open Bytes Checks Logged List

/-! ### Trees under a verifier -/

/-- The verifier's source returns these blocks. -/
def Reads (v : Verifier) (block : ℕ → Bytes) : Prop :=
  ∀ p < v.blockCount, v.source.readBlock p v.blockSize = .ok (block p)

/-- A block that a tree walk accepts as a node with these records; each may have more bytes after
it. -/
structure NodeUnder (v : Verifier) (block : ℕ → Bytes) (subtype : ℕ) (root : Bool)
    (level paddr : ℕ) (records : List Record) : Prop where
  lt : paddr < v.blockCount
  checksum : checksumValid (block paddr) = true
  kind : (⟨paddr, block paddr⟩ : Object).kind = nodeKind root
  subtype : objType (⟨paddr, block paddr⟩ : Object).subtype = subtype
  node : IsNode v.blockSize ⟨paddr, block paddr⟩ level records false

lemma passes_readExpecting {v : Verifier} {block : ℕ → Bytes} {A : Note → Prop}
    {P : Object → Prop} {p kind : ℕ} {what : String} (h : Reads v block) (hp : p < v.blockCount)
    (hvalid : checksumValid (block p) = true) (hkind : (⟨p, block p⟩ : Object).kind = kind)
    (hA : A .checked) (hA' : A (.inUse p what)) (hP : P ⟨p, block p⟩) :
    Passes A (v.readExpecting p none kind what) P := by
  simp only [Verifier.readExpecting, Verifier.readChecked, checkHeader, Passes.bind_iff, Passes.liftM_iff, returns, checks,
    h p hp, existsAndEq, true_and, hvalid, Passes.note_iff, Passes.pure_iff, hkind]
  refine ⟨by omega, by simp, hA, by simp, hA', hP⟩

/-! ### Object maps -/

/-- The entry a record of an object map's leaf holds. -/
def entryOf (r : Record) : OmapEntry := ⟨leAt 8 r.1 0, leAt 8 r.1 8, leAt 8 r.2 8⟩

/-- A key of an object map. -/
def pairOf (key : Bytes) : ℕ × ℕ := (leAt 8 key 0, leAt 8 key 8)

lemma leAt_of_isPrefix {b b' : Bytes} {n i : ℕ} (h : b <+: b') (hi : i + n ≤ b.length) :
    leAt n b' i = leAt n b i := by
  obtain ⟨t, rfl⟩ := h
  exact leAt_append_left hi

section Records

variable {node : BTreeNode} {records : List Record} {walk : OmapWalk}

/-- The records are in strictly ascending order. -/
def OmapSorted (records : List Record) : Prop :=
  records.Pairwise fun a b => pairLe (pairOf b.1) (pairOf a.1) = false

lemma getElem?_of_drop {α : Type} {l rest : List α} {i : ℕ} {c : α} (h : l.drop i = c :: rest) :
    l[i]? = some c := by rw [← List.head?_drop, h, List.head?_cons]

/-- The loop over the records of an object map node, when each record adds to the walk. -/
lemma omapRecords_of_step {add : OmapWalk → Record → OmapWalk}
    (hn : node.nkeys = records.length) (hsorted : OmapSorted records)
    (hstep : ∀ i r previous walk, records[i]? = some r → previous.any (pairLe (pairOf r.1)) = false →
      omapRecord node (previous, walk) i = .ok (some (pairOf r.1), add walk r)) :
    omapRecords node walk = .ok (records.foldl add walk) := by
  -- the key before is before every key that is left
  obtain ⟨⟨previous, walk'⟩, hfold, hwalk, -⟩ := foldlM_range_ok
    (f := omapRecord node) (l := records) (b := (none, walk))
    (I := fun state rest => rest.foldl add state.2 = records.foldl add walk
      ∧ (∀ r ∈ rest, state.1.any (pairLe (pairOf r.1)) = false) ∧ OmapSorted rest)
    (by
      rintro i r rest ⟨previous, walk'⟩ hdrop ⟨hwalk, hbefore, hsorted⟩
      obtain ⟨hr, hsorted'⟩ := pairwise_cons.mp hsorted
      refine ⟨(some (pairOf r.1), add walk' r), ?_, hwalk, hr, hsorted'⟩
      exact hstep i r previous walk' (getElem?_of_drop hdrop) (hbefore r mem_cons_self))
    ⟨rfl, fun _ _ => rfl, hsorted⟩
  rw [omapRecords, hn, hfold]
  exact congrArg Except.ok hwalk

/-- The walk after a leaf: its entries are added at the end. -/
lemma foldl_entries : records.foldl
    (fun walk r => ({ walk with entries := walk.entries ++ [entryOf r] } : OmapWalk)) walk
      = { walk with entries := walk.entries ++ records.map entryOf } := by
  induction records generalizing walk with
  | nil => simp
  | cons r rest ih => simp [ih]

/-- The node a record of an index node points to. -/
def pendingOf (level : ℕ) (r : Record) : PendingNode := ⟨leAt 8 r.2 0, false, some (level - 1)⟩

/-- The walk after an index node: its children are on top, the last one first. -/
lemma foldl_pending {level : ℕ} : records.foldl
    (fun walk r => ({ walk with pending := pendingOf level r :: walk.pending } : OmapWalk)) walk
      = { walk with pending := (records.map (pendingOf level)).reverse ++ walk.pending } := by
  induction records generalizing walk with
  | nil => simp
  | cons r rest ih => simp [ih]

/-- The records of a node can be read, perhaps with more bytes after them. -/
def Entries (node : BTreeNode) (records : List Record) : Prop :=
  ∀ i r, records[i]? = some r → ∃ e, node.entry i = .ok e ∧ r.1 <+: e.1 ∧ r.2 <+: e.2

lemma omapRecords_leaf (hleaf : node.isLeaf = true) (hn : node.nkeys = records.length)
    (hentry : Entries node records) (hsizes : ∀ r ∈ records, r.1.length = 16 ∧ r.2.length = 16)
    (hsorted : OmapSorted records) :
    omapRecords node walk = .ok { walk with entries := walk.entries ++ records.map entryOf } := by
  rw [omapRecords_of_step hn hsorted, foldl_entries]
  intro i r previous walk hr hprevious
  obtain ⟨⟨key, value⟩, he, hkey, hvalue⟩ := hentry i r hr
  obtain ⟨hk16, hv16⟩ := hsizes r (mem_of_getElem? hr)
  have hkl := hkey.length_le
  have hvl := hvalue.length_le
  simp only at hkey hvalue hkl hvl
  have hoid := leAt_of_isPrefix hkey (show 0 + 8 ≤ r.1.length by omega)
  have hxid := leAt_of_isPrefix hkey (show 8 + 8 ≤ r.1.length by omega)
  have hpaddr := leAt_of_isPrefix hvalue (show 8 + 8 ≤ r.2.length by omega)
  simp only [omapRecord, he, hleaf, if_true, returns, checks, existsAndEq, true_and, and_true, hoid, hxid, hpaddr]
  refine ⟨by omega, by omega, by omega, by simpa [pairOf] using hprevious, by omega, by omega, rfl⟩

lemma omapRecords_index (hleaf : node.isLeaf = false) (hlevel : node.level ≠ 0)
    (hn : node.nkeys = records.length) (hentry : Entries node records)
    (hsizes : ∀ r ∈ records, r.1.length = 16 ∧ r.2.length = 8) (hsorted : OmapSorted records) :
    omapRecords node walk = .ok { walk with
      pending := (records.map (pendingOf node.level)).reverse ++ walk.pending } := by
  rw [omapRecords_of_step hn hsorted, foldl_pending]
  intro i r previous walk hr hprevious
  obtain ⟨⟨key, value⟩, he, hkey, hvalue⟩ := hentry i r hr
  obtain ⟨hk16, hv8⟩ := hsizes r (mem_of_getElem? hr)
  have hkl := hkey.length_le
  have hvl := hvalue.length_le
  simp only at hkey hvalue hkl hvl
  have hoid := leAt_of_isPrefix hkey (show 0 + 8 ≤ r.1.length by omega)
  have hxid := leAt_of_isPrefix hkey (show 8 + 8 ≤ r.1.length by omega)
  have hchild := leAt_of_isPrefix hvalue (show 0 + 8 ≤ r.2.length by omega)
  simp only [omapRecord, he, hleaf, returns, checks, existsAndEq, true_and, and_true, hoid,
    hxid, hchild, Bool.false_eq_true, if_false]
  refine ⟨by omega, by omega, by omega, by simpa [pairOf] using hprevious, by omega, hlevel, by omega, rfl⟩

end Records

/-- A node of an object map: its keys ascend, an index node points to addresses. -/
structure OmapNode (v : Verifier) (block : ℕ → Bytes) (root : Bool) (level oid paddr : ℕ)
    (records : List Record) : Prop where
  node : NodeUnder v block TYPE_OMAP root level paddr records
  physical : oid = paddr
  paddr_lt : paddr < 2 ^ 64
  sizes : ∀ r ∈ records, r.1.length = 16 ∧ r.2.length = if level = 0 then 16 else 8
  sorted : OmapSorted records

/-- An object map's tree, or a tree below it, under a verifier. -/
structure OmapTree (v : Verifier) (block : ℕ → Bytes) (root : Bool) (level : ℕ) (t : Tree level) :
    Prop where
  node : OmapNode v block root level t.oid t.paddr t.nodeRecords
  below : ∀ i ∈ t.items, Below (OmapNode v block false) level i

/-- A tree that is still to be visited, as the walk has it on its stack. -/
structure Todo where
  level : ℕ
  tree : Tree level
  root : Bool
  expected : Option ℕ

namespace Todo

def pending (d : Todo) : PendingNode := ⟨d.tree.paddr, d.root, d.expected⟩

/-- A child of an index node. -/
def ofChild (level : ℕ) (c : Item (level + 1)) : Todo := ⟨level, c, false, some level⟩

/-- The trees below a node. -/
def children : (level : ℕ) → Tree level → List Todo
  | 0, _ => []
  | level + 1, t => t.items.map (ofChild level)

/-- The records of a leaf. -/
def own : (level : ℕ) → Tree level → List Record
  | 0, t => t.items
  | _ + 1, _ => []

def leaves (d : Todo) : List Record := Apfs.leaves (d.level + 1) d.tree

def paddrs (d : Todo) : List ℕ := (nodes (d.level + 1) d.tree).map Prod.snd

variable (d : Todo)

lemma leaves_eq : d.leaves = own d.level d.tree ++ (children d.level d.tree).flatMap leaves := by
  obtain ⟨level, t, root, expected⟩ := d
  cases level with
  | zero => exact (flatMap_singleton' t.items).trans (append_nil t.items).symm
  | succ level => exact (flatMap_map (ofChild level) leaves t.items).symm

lemma paddrs_eq : d.paddrs = d.tree.paddr :: (children d.level d.tree).flatMap paddrs := by
  obtain ⟨level, t, root, expected⟩ := d
  cases level with
  | zero => simp [paddrs, children, nodes]
  | succ level =>
    change t.paddr :: (t.items.flatMap (nodes (level + 1))).map Prod.snd = _
    rw [map_flatMap]
    exact congrArg (List.cons t.paddr) (flatMap_map (ofChild level) paddrs t.items).symm

end Todo

namespace OmapTree

variable {v : Verifier} {block : ℕ → Bytes} {level : ℕ} {root : Bool} {t : Tree level}

lemma child {t : Tree (level + 1)} (h : OmapTree v block root (level + 1) t) {c : Tree level}
    (hc : c ∈ t.items) : OmapTree v block false level c := ⟨(h.below c hc).1, (h.below c hc).2⟩

lemma paddr_lt (h : OmapTree v block root level t) : ∀ n ∈ nodes (level + 1) t, n.2 < v.blockCount := by
  intro n hn
  cases hn with
  | head => exact h.node.node.lt
  | tail _ hn =>
    obtain ⟨i, hi, hn⟩ := mem_flatMap.mp hn
    obtain ⟨_, _, hnode⟩ := (h.below i hi).exists_of_mem n hn
    exact hnode.node.lt

/-- What the walk puts on its stack for the children of a node. -/
lemma pending_children (h : OmapTree v block root level t) (hl : level ≠ 0) :
    t.nodeRecords.map (pendingOf level) = (Todo.children level t).map Todo.pending := by
  cases level with
  | zero => exact absurd rfl hl
  | succ level =>
    rw [Tree.nodeRecords, Todo.children, map_map, map_map]
    refine map_congr_left fun c hc => ?_
    have hoid := (h.child hc).node.physical
    have hlt := (h.child hc).node.paddr_lt
    simp only [Function.comp_apply, pendingOf, itemRecord, Todo.pending, Todo.ofChild,
      leAt_leBytes, Nat.add_sub_cancel]
    rw [Nat.mod_eq_of_lt (by omega), hoid]

lemma omapRecords_node (h : OmapTree v block root level t)
    {node : BTreeNode} (hlevel : node.level = level) (hleaf : node.isLeaf = decide (level = 0))
    (hn : node.nkeys = t.nodeRecords.length) (hentry : Entries node t.nodeRecords) (walk : OmapWalk) :
    omapRecords node walk = .ok { walk with
      entries := walk.entries ++ (Todo.own level t).map entryOf
      pending := ((Todo.children level t).map Todo.pending).reverse ++ walk.pending } := by
  have hsizes := h.node.sizes
  cases level with
  | zero =>
    rw [omapRecords_leaf hleaf hn hentry (by simpa using hsizes) h.node.sorted]
    have hown : t.nodeRecords = Todo.own 0 t := map_id _
    rw [hown]
    rfl
  | succ level =>
    rw [omapRecords_index (by simpa using hleaf) (by omega) hn hentry (by simpa using hsizes) h.node.sorted, hlevel,
      h.pending_children (by omega), Todo.own, map_nil, append_nil]

end OmapTree

section Turn

variable {v : Verifier} {block : ℕ → Bytes} {A : Note → Prop} {what : String}
    {walk : OmapWalk} {d : Todo} {pending : List PendingNode}

/-- One turn of the walk visits the tree on top of the stack. -/
lemma passes_omapTurn (h : Reads v block) (hd : OmapTree v block d.root d.level d.tree)
    (hexpected : ∀ l ∈ d.expected, l = d.level) (hpending : walk.pending = d.pending :: pending)
    (hseen : d.tree.paddr ∉ walk.seen) (hA : A .checked) (hA' : A (.inUse d.tree.paddr what)) :
    Passes A (v.omapTurn what walk) (· = .inl ⟨walk.entries ++ (Todo.own d.level d.tree).map entryOf,
        ((Todo.children d.level d.tree).map Todo.pending).reverse ++ pending, d.tree.paddr :: walk.seen⟩) := by
  obtain ⟨hlt, hvalid, hkind, hsubtype, node, hdecode, hpaddr, hlevel, hleaf, hn, hentry⟩ :=
    hd.node.node
  rw [Todo.pending] at hpending
  rw [Verifier.omapTurn, hpending]
  simp only [Passes.bind_iff, Passes.liftM_iff, checks]
  refine ⟨hseen, passes_readExpecting h hlt hvalid hkind hA hA' ?_⟩
  have hentries : Entries node d.tree.nodeRecords := fun i r hr => by
    obtain ⟨e, he, hk, hv, -⟩ := hentry i r hr
    exact ⟨e, he, hk, hv⟩
  simp only [BTreeNode.decode, hdecode, hsubtype, Except.ok.injEq, existsAndEq, true_and,
    hd.omapRecords_node hlevel hleaf hn hentries, Passes.pure_iff, and_true]
  refine ⟨not_not.mpr rfl, ?_, ?_⟩
  · cases hx : d.expected with
    | none => simp
    | some l => simp [hlevel, hexpected l hx]
  · simp [hleaf, hlevel]

/-- Between turns: the trees on the stack and the entries found make up the whole. -/
structure OmapLeft (v : Verifier) (block : ℕ → Bytes) (whole : Todo) (walk : OmapWalk)
    (todos : List Todo) : Prop where
  pending : walk.pending = todos.map Todo.pending
  tree : ∀ d ∈ todos, OmapTree v block d.root d.level d.tree ∧ ∀ l ∈ d.expected, l = d.level
  paddrs : (walk.seen ++ todos.flatMap Todo.paddrs).Perm whole.paddrs
  entries : (walk.entries ++ (todos.flatMap Todo.leaves).map entryOf).Perm
    (whole.leaves.map entryOf)

lemma OmapLeft.visit {whole : Todo} {todos : List Todo} (h : OmapLeft v block whole walk (d :: todos)) :
    OmapLeft v block whole ⟨walk.entries ++ (Todo.own d.level d.tree).map entryOf,
        ((Todo.children d.level d.tree).map Todo.pending).reverse ++ todos.map Todo.pending,
        d.tree.paddr :: walk.seen⟩ ((Todo.children d.level d.tree).reverse ++ todos) where
  pending := by simp
  tree := by
    intro d' hd'
    rw [mem_append, mem_reverse] at hd'
    cases hd' with
    | inl hchild =>
      have hd := (h.tree d mem_cons_self).1
      obtain ⟨level, t, root, expected⟩ := d
      cases level with
      | zero => exact absurd hchild not_mem_nil
      | succ level =>
        obtain ⟨c, hc, rfl⟩ := mem_map.mp hchild
        exact ⟨hd.child hc, fun l hl => (Option.some.inj hl).symm⟩
    | inr htodo => exact h.tree d' (mem_cons_of_mem _ htodo)
  paddrs := by
    refine List.Perm.trans ?_ h.paddrs
    rw [flatMap_cons, Todo.paddrs_eq, flatMap_append]
    have hrev := (reverse_perm (Todo.children d.level d.tree)).flatMap_right Todo.paddrs
    exact ((hrev.append_right _).append_left _ |>.cons _).trans perm_middle.symm
  entries := by
    refine List.Perm.trans ?_ h.entries
    rw [flatMap_cons, Todo.leaves_eq, flatMap_append]
    have hrev := (reverse_perm (Todo.children d.level d.tree)).flatMap_right Todo.leaves
    simp only [map_append, append_assoc]
    exact (((hrev.map _).append_right _).append_left _).append_left _

/-- `collect_omap` on a written tree: the entries of its leaves. -/
lemma passes_collectOmap (h : Reads v block) {level : ℕ} {t : Tree level} (ht : OmapTree v block true level t)
    (hnodup : ((nodes (level + 1) t).map Prod.snd).Nodup) (hA : A .checked)
    (hA' : ∀ n ∈ nodes (level + 1) t, A (.inUse n.2 what)) : Passes A (v.collectOmap t.paddr what)
      (fun entries => entries.Perm ((leaves (level + 1) t).map entryOf)) := by
  have hcount : ((nodes (level + 1) t).map Prod.snd).length ≤ v.blockCount := by
    have hsub : (nodes (level + 1) t).map Prod.snd ⊆ List.range v.blockCount := fun p hp => by
      obtain ⟨n, hn, rfl⟩ := mem_map.mp hp
      exact mem_range.mpr (ht.paddr_lt n hn)
    simpa using (hnodup.subperm hsub).length_le
  rw [length_map] at hcount
  refine Passes.loop (n := (nodes (level + 1) t).length)
    (I := fun n walk => ∃ todos, OmapLeft v block ⟨level, t, true, none⟩ walk todos
      ∧ n = (todos.flatMap Todo.paddrs).length) ?_ ⟨[⟨level, t, true, none⟩], ?_, ?_⟩ (by omega)
  · rintro n walk ⟨todos, hleft, rfl⟩
    cases todos with
    | nil =>
      have hpending : walk.pending = [] := hleft.pending
      rw [Verifier.omapTurn, hpending, Passes.pure_iff]
      simpa [Todo.leaves] using hleft.entries
    | cons d todos =>
      obtain ⟨hd, hexpected⟩ := hleft.tree d mem_cons_self
      have hdisjoint := hleft.paddrs.nodup_iff.mpr hnodup
      have hmem : d.tree.paddr ∈ (d :: todos).flatMap Todo.paddrs := by
        rw [flatMap_cons, Todo.paddrs_eq]
        exact mem_cons_self
      obtain ⟨n, hn, hpaddr⟩ :=
        mem_map.mp (hleft.paddrs.subset (mem_append_right _ hmem))
      refine (passes_omapTurn h hd hexpected hleft.pending
        (fun hseen => disjoint_of_nodup_append hdisjoint hseen hmem) hA
        (hpaddr ▸ hA' n hn)).conseq ?_
      rintro r rfl
      refine ⟨_, ?_, _, hleft.visit, rfl⟩
      rw [flatMap_append, flatMap_cons, Todo.paddrs_eq d]
      have hrev := (reverse_perm (Todo.children d.level d.tree)).flatMap_right Todo.paddrs
      simp [hrev.length_eq]
  · exact ⟨rfl, by simpa using ht, by simp, by simp⟩
  · simp [Todo.paddrs]

end Turn

end AppleUtils.Apfs
