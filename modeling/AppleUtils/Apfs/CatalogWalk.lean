import AppleUtils.Apfs.KeyOrder
import AppleUtils.Apfs.SealedCatalog

/-! # The pruned walk over a catalog

`records` goes down from the root to the records of one object and kind, and leaves out the children
whose keys cannot have them.  In a tree whose keys are in order it leaves out nothing that it looks
for (`foundIn_eq`).  Its stack gives back the child pushed last, so it visits the leaves from the last
to the first: the records come in the order of their keys exactly if one leaf has all of them
(`records_complete`). -/

namespace AppleUtils.Apfs.CatalogWalk

open Bytes Checks List Apfs.Reader

variable {α : Type}

/-! ### Trees as the reader finds them -/

/-- A record of an index node, and the node it leads to. -/
structure Sub (α : Type) where
  record : Apfs.Record
  paddr : ℕ
  parts : List α

/-- What a node of a level holds. -/
def Part : ℕ → Type
  | 0 => Apfs.Record
  | level + 1 => Sub (Part level)

/-- The leaves below a node, in order. -/
def leafNodes : (level : ℕ) → List (Part level) → List (List Apfs.Record)
  | 0, records => [records]
  | level + 1, subs => subs.flatMap fun sub => leafNodes level sub.parts

/-- The records of the leaves below a node. -/
def leafRecords (level : ℕ) (parts : List (Part level)) : List Apfs.Record :=
  (leafNodes level parts).flatten

/-- The reader finds a node with these records. -/
structure NodeAt (r : Reader) (volume : Volume) (expected : Option ℕ) (paddr level : ℕ)
    (records : List Apfs.Record) (node : BTreeNode) : Prop where
  read : r.readNode volume paddr expected = .ok node
  atLevel : node.level = level
  leaf : node.isLeaf = decide (level = 0)
  nkeys : node.nkeys = records.length
  entry : ∀ i record, records[i]? = some record → node.entry i = .ok record
  keys : ∀ record ∈ records, 8 ≤ record.1.length

/-- The value of an index record leads to the child. -/
def Leads (volume : Volume) (record : Apfs.Record) (child : ℕ) : Prop :=
  8 ≤ record.2.length ∧ ∀ paddr, ∃ oid, childObjectId volume (leAt 8 record.2 0) paddr = .ok oid
      ∧ resolve volume.omap oid volume.resolveXid = .ok child

/-- The nodes of a tree are where their parents say. -/
def Stands (r : Reader) (volume : Volume) : (level : ℕ) → Option ℕ → ℕ → List (Part level) → Prop
  | 0, expected, paddr, records => ∃ node, NodeAt r volume expected paddr 0 records node
  | level + 1, expected, paddr, subs =>
    (∃ node, NodeAt r volume expected paddr (level + 1) (subs.map Sub.record) node)
      ∧ ∀ sub ∈ subs, Leads volume sub.record sub.paddr
        ∧ Stands r volume level (some level) sub.paddr sub.parts

/-- The keys ascend in every node, and each index key lies above the keys of the children before it
and not above those of its own. -/
def Ordered (layout : DrecKeyLayout) : (level : ℕ) → List (Part level) → Prop
  | 0, records => records.Pairwise fun a b => keyRank layout a.1 < keyRank layout b.1
  | level + 1, subs =>
    subs.Pairwise (fun sub sub' => keyRank layout sub.record.1 < keyRank layout sub'.record.1
        ∧ (∀ a ∈ leafRecords level sub.parts, keyRank layout a.1 < keyRank layout sub'.record.1)
        ∧ ∀ b ∈ leafRecords level sub'.parts, ¬ keyRank layout b.1 < keyRank layout sub'.record.1)
      ∧ ∀ sub ∈ subs, Ordered layout level sub.parts

/-! ### What the walk finds -/

section Found

variable (target : ℕ × ℕ)

/-- The children the walk goes down to. -/
def reached {α : Type} (subs : List (Sub α)) : List (Sub α) :=
  ((List.range subs.length).filter (reaches (subs.map fun sub => headOf sub.record) target)).filterMap
    (subs[·]?)

/-- The records found below a node, the last leaf first. -/
def foundIn : (level : ℕ) → List (Part level) → List Apfs.Record
  | 0, records => records.filter (headOf · = target)
  | level + 1, subs => (reached target subs).reverse.flatMap fun sub => foundIn level sub.parts

/-- The nodes visited below a node, itself included. -/
def visitedIn : (level : ℕ) → List (Part level) → ℕ
  | 0, _ => 1
  | level + 1, subs =>
    1 + ((reached target subs).reverse.map fun sub => visitedIn level sub.parts).sum

/-- The records of each leaf that the walk looks for. -/
def groups (level : ℕ) (parts : List (Part level)) : List (List Apfs.Record) :=
  (leafNodes level parts).map (filter (headOf · = target))

end Found

section Pruning

variable {target : ℕ × ℕ} {layout : DrecKeyLayout} {level : ℕ} {β : Type}

lemma filterMap_range_getElem? (l : List α) : (List.range l.length).filterMap (l[·]?) = l := by
  induction l using reverseRecOn with
  | nil => rfl
  | append_singleton l a ih =>
    rw [length_append, length_singleton, range_succ, filterMap_append]
    have hbefore : (List.range l.length).filterMap ((l ++ [a])[·]?) = (List.range l.length).filterMap (l[·]?) := by
      apply filterMap_congr
      intro i hi
      exact getElem?_append_left (mem_range.mp hi)
    rw [hbefore, ih]
    simp

lemma mem_of_reached {subs : List (Sub α)} {sub : Sub α} (h : sub ∈ reached target subs) : sub ∈ subs := by
  obtain ⟨i, -, hi⟩ := mem_filterMap.mp h
  exact mem_of_getElem? hi

lemma flatMap_filter {ι : Type} {p : ι → Bool} {g : ι → Option α} {f : α → List β} (l : List ι)
    (h : ∀ i ∈ l, p i = false → ∀ a, g i = some a → f a = []) :
    ((l.filter p).filterMap g).reverse.flatMap f = (l.filterMap g).reverse.flatMap f := by
  induction l with
  | nil => rfl
  | cons i l ih =>
    have ih := ih fun j hj => h j (mem_cons_of_mem i hj)
    have hi := h i mem_cons_self
    cases hp : p i with
    | true =>
      rw [filter_cons_of_pos hp]
      cases hg : g i with
      | none => rw [filterMap_cons_none hg, filterMap_cons_none hg, ih]
      | some a =>
        rw [filterMap_cons_some hg, filterMap_cons_some hg, reverse_cons,
          reverse_cons, flatMap_append, flatMap_append, ih]
    | false =>
      rw [filter_cons_of_neg (by simp [hp]), ih]
      cases hg : g i with
      | none => rw [filterMap_cons_none hg]
      | some a =>
        rw [filterMap_cons_some hg, reverse_cons, flatMap_append]
        simp [hi hp a hg]

lemma reached_flatMap {subs : List (Sub α)} {f : Sub α → List β} (h : ∀ i sub, subs[i]? = some sub →
    reaches (subs.map fun sub => headOf sub.record) target i = false → f sub = []) :
  (reached target subs).reverse.flatMap f = subs.reverse.flatMap f := by
  rw [reached, flatMap_filter _ fun i _ hi sub hsub => h i sub hsub hi, filterMap_range_getElem?]

/-- Lists of groups, taken from the last to the first. -/
lemma reverse_flatMap_flatten {f : α → List β} {g : α → List (List β)} {l : List α}
    (h : ∀ a ∈ l, f a = (g a).reverse.flatten) : l.reverse.flatMap f = (l.flatMap g).reverse.flatten := by
  induction l with
  | nil => rfl
  | cons a l ih =>
    rw [reverse_cons, flatMap_append, flatMap_singleton, flatMap_cons, reverse_append, flatten_append,
      h a mem_cons_self, ih fun b hb => h b (mem_cons_of_mem a hb)]

lemma groups_succ (level : ℕ) (subs : List (Part (level + 1))) :
    groups target (level + 1) subs = subs.flatMap fun sub => groups target level sub.parts := by
  simp [groups, leafNodes, map_flatMap]

lemma groups_flatten (level : ℕ) (parts : List (Part level)) :
    (groups target level parts).flatten = (leafRecords level parts).filter (headOf · = target) := by
  rw [leafRecords, filter_flatten, groups]

/-- A child that is left out has no record that is looked for. -/
lemma groups_of_not_reached {subs : List (Part (level + 1))} {i : ℕ}
    {sub : Part (level + 1)} (hord : Ordered layout (level + 1) subs) (hsub : subs[i]? = some sub)
    (hreach : reaches (subs.map fun sub => headOf sub.record) target i = false) :
    (leafRecords level sub.parts).filter (headOf · = target) = [] := by
  obtain ⟨hlt, rfl⟩ := List.getElem?_eq_some_iff.mp hsub
  have hpairs := pairwise_iff_getElem.mp hord.1
  rw [filter_eq_nil_iff]
  intro a ha hmatch
  have hmatch : headOf a = target := by simpa using hmatch
  rw [reaches, Bool.and_eq_false_iff, Bool.or_eq_false_iff, Bool.or_eq_false_iff] at hreach
  rcases hreach with ⟨hfirst, hkey⟩ | ⟨hlast, hnext⟩
  · -- the key of the child is past the target, and its records are not before its key
    have hi : 0 < i := Nat.pos_of_ne_zero (by simpa using hfirst)
    obtain ⟨-, -, hown⟩ := hpairs 0 i (by omega) hlt hi
    have hle := pairLe_of_rank (hown a ha)
    rw [hmatch] at hle
    simp [getElem?_map, hsub, hle] at hkey
  · -- the key of the next child is before the target, and the records are before that key
    have hi : i + 1 < subs.length := by
      have : i + 1 ≠ subs.length := by simpa using hlast
      omega
    obtain ⟨-, hbelow, -⟩ := hpairs i (i + 1) hlt hi (by omega)
    have hle := pairLe_of_rank (List.lt_asymm (hbelow a ha))
    rw [hmatch] at hle
    simp [getElem?_map, getElem?_eq_getElem hi, hle] at hnext

/-- Nothing that is looked for is left out; the leaves come from the last to the first. -/
lemma foundIn_eq {parts : List (Part level)} (hord : Ordered layout level parts) :
    foundIn target level parts = (groups target level parts).reverse.flatten := by
  induction level with
  | zero => exact (append_nil _).symm
  | succ level ih =>
    have hbelow : ∀ sub ∈ parts, foundIn target level sub.parts =
        (groups target level sub.parts).reverse.flatten := fun sub hsub => ih (hord.2 sub hsub)
    have hall : foundIn target (level + 1) parts =
        parts.reverse.flatMap fun sub => foundIn target level sub.parts := by
      refine reached_flatMap fun i sub hsub hreach => ?_
      have hnone := groups_of_not_reached hord hsub hreach
      rw [← groups_flatten, flatten_eq_nil_iff] at hnone
      rw [hbelow sub (mem_of_getElem? hsub), flatten_eq_nil_iff]
      exact fun group hgroup => hnone group (mem_reverse.mp hgroup)
    rw [hall, groups_succ]
    exact reverse_flatMap_flatten hbelow

end Pruning

/-! ### The walk -/

section Walk

variable {r : Reader} {volume : Volume} {objectId kind : ℕ} {node : BTreeNode}
    {records : List Apfs.Record} {expected : Option ℕ} {paddr level : ℕ} {walk : Reader.RecordWalk}

lemma NodeAt.prefixes (h : NodeAt r volume expected paddr level records node) :
    prefixes node objectId kind = .ok (records.map headOf) := by
  have hkey (i : ℕ) (record : Apfs.Record) (hi : records[i]? = some record) :
      keyAt node i = headOf record := by rw [keyAt, h.entry i record hi]
  rw [prefixes_of_readable]
  · congr 1
    apply ext_getElem?
    intro i
    rw [getElem?_map, getElem?_map, h.nkeys]
    by_cases hi : i < records.length
    · have hget := getElem?_eq_getElem hi
      rw [getElem?_range hi, hget, Option.map_some, Option.map_some, hkey i _ hget]
    · rw [getElem?_eq_none (by simpa using hi), getElem?_eq_none (by simpa using hi)]
      rfl
  · intro i hi
    rw [h.nkeys] at hi
    have hget := getElem?_eq_getElem hi
    exact ⟨_, h.entry i _ hget, h.keys _ (mem_of_getElem? hget)⟩

lemma visitNode_leaf {walk' : Reader.RecordWalk}
    (h : NodeAt r volume expected paddr 0 records node) (hfound : walk.found.length ≤ MAX_RECORDS) :
    r.visitNode volume objectId kind paddr expected walk = .ok walk' ↔
      walk.found.length + (records.filter (headOf · = (objectId, kind))).length ≤ MAX_RECORDS
        ∧ walk' = { walk with found := walk.found ++ records.filter (headOf · = (objectId, kind)) } := by
  simp only [visitNode, bind_eq_ok, h.read, Except.ok.injEq, existsAndEq, true_and, h.prefixes]
  have hleaf : node.isLeaf = true := by rw [h.leaf]; rfl
  suffices hgen : ∀ k ≤ records.length, ∀ walk', (List.range k).foldlM
      (visitRecord volume objectId kind node (records.map headOf)) walk = .ok walk' ↔
      walk.found.length + ((records.take k).filter (headOf · = (objectId, kind))).length ≤ MAX_RECORDS
        ∧ walk' = { walk with
          found := walk.found ++ (records.take k).filter (headOf · = (objectId, kind)) } by
    rw [h.nkeys, hgen _ le_rfl, take_length]
  intro k
  induction k with
  | zero =>
    intro _ walk'
    rw [range_zero, foldlM_nil, pure_eq_ok, take_zero, filter_nil, append_nil]
    exact ⟨fun h => ⟨hfound, h.symm⟩, fun h => h.2.symm⟩
  | succ k ih =>
    intro hk walk'
    have hget := getElem?_eq_getElem (show k < records.length by omega)
    rw [range_succ, foldlM_append, bind_eq_ok, take_add_one, hget]
    have hentry : node.entry k = .ok records[k] := h.entry k _ hget
    have hstep (w : Reader.RecordWalk) : visitRecord volume objectId kind node
        (records.map headOf) w k = .ok walk' ↔
        (headOf records[k] = (objectId, kind) → w.found.length < MAX_RECORDS)
          ∧ walk' = { w with found := w.found ++ [records[k]].filter (headOf · = (objectId, kind)) } := by
      simp only [visitRecord, bind_eq_ok, faulted_eq_ok, liftM, Logged.monadLift_result,
        hentry, Except.ok.injEq, existsAndEq, true_and, hleaf, if_true, getElem?_map, hget,
        Option.map_some, ne_eq, Option.some.injEq]
      by_cases hmatch : headOf records[k] = (objectId, kind)
      · rw [if_neg (not_not.mpr hmatch)]
        have hkept : [records[k]].filter (headOf · = (objectId, kind)) = [records[k]] := by simp [hmatch]
        simp only [returns, checks, refuseIf_eq_ok, not_le, hmatch, forall_true_left, hkept]
        exact and_congr_right fun _ => eq_comm
      · rw [if_pos hmatch, filter_cons_of_neg (by simpa using hmatch), filter_nil, append_nil, pure_eq_ok]
        exact ⟨fun h => ⟨fun h' => absurd h' hmatch, h.symm⟩, fun h => h.2.symm⟩
    simp only [ih (by omega), foldlM_cons, foldlM_nil, returns, exists_eq_right, hstep, Option.toList_some,
      filter_append, length_append]
    constructor
    · rintro ⟨_, ⟨hle, rfl⟩, hroom, rfl⟩
      refine ⟨?_, by rw [append_assoc]⟩
      by_cases hmatch : headOf records[k] = (objectId, kind)
      · have := hroom hmatch
        simp only [length_append] at this
        rw [filter_cons_of_pos (by simpa using hmatch), filter_nil, length_singleton]
        omega
      · rw [filter_cons_of_neg (by simpa using hmatch)]
        simpa using hle
    · rintro ⟨hle, rfl⟩
      refine ⟨_, ⟨by omega, rfl⟩, fun hmatch => ?_, by rw [append_assoc]⟩
      rw [filter_cons_of_pos (by simpa using hmatch), filter_nil, length_singleton] at hle
      simp only [length_append]
      omega

lemma visitNode_index {subs : List (Sub α)}
    (h : NodeAt r volume expected paddr (level + 1) (subs.map Sub.record) node)
    (hleads : ∀ sub ∈ subs, Leads volume sub.record sub.paddr) :
    r.visitNode volume objectId kind paddr expected walk = .ok { walk with
      pending := (reached (objectId, kind) subs).reverse.map (fun sub => (sub.paddr, some level))
          ++ walk.pending } := by
  simp only [visitNode, bind_eq_ok, h.read, Except.ok.injEq, existsAndEq, true_and, h.prefixes]
  have hleaf : node.isLeaf = false := by rw [h.leaf]; rfl
  have hheads : (subs.map Sub.record).map headOf = subs.map fun sub => headOf sub.record := by
    rw [map_map]
    rfl
  rw [h.nkeys, length_map, hheads, reached]
  suffices hgen : ∀ k ≤ subs.length, (List.range k).foldlM (visitRecord volume objectId kind
      node (subs.map fun sub => headOf sub.record)) walk = .ok { walk with
        pending := (((List.range k).filter (reaches (subs.map fun sub => headOf sub.record)
          (objectId, kind))).filterMap (subs[·]?)).reverse.map (fun sub => (sub.paddr, some level))
            ++ walk.pending } from hgen _ le_rfl
  intro k
  induction k with
  | zero =>
    intro _
    rfl
  | succ k ih =>
    intro hk
    have hget := getElem?_eq_getElem (show k < subs.length by omega)
    have hentry : node.entry k = .ok subs[k].record := by
      apply h.entry
      rw [getElem?_map, hget, Option.map_some]
    obtain ⟨hlen, hchild⟩ := hleads _ (mem_of_getElem? hget)
    obtain ⟨oid, hoid, hresolve⟩ := hchild node.paddr
    rw [range_succ, foldlM_append, ih (by omega), filter_append, filterMap_append, reverse_append, map_append]
    simp only [foldlM_cons, foldlM_nil, returns, checks, existsAndEq, true_and, exists_eq_right]
    simp only [visitRecord, bind_eq_ok, faulted_eq_ok, liftM, Logged.monadLift_result,
      hentry, Except.ok.injEq, existsAndEq, true_and, hleaf, Bool.false_eq_true, if_false]
    cases hreach : reaches (subs.map fun sub => headOf sub.record) (objectId, kind) k with
    | false => simp [hreach, pure_eq_ok]
    | true =>
      simp only [Bool.not_true, Bool.false_eq_true, if_false, returns, checks, refuseIf_eq_ok, faulted_eq_ok, hoid, existsAndEq, true_and]
      refine ⟨not_lt.mpr hlen, by simp [h.atLevel], subs[k].paddr, hresolve, ?_⟩
      simp [hreach, hget, h.atLevel]

/-- A node on the stack. -/
structure Task where
  level : ℕ
  expected : Option ℕ
  paddr : ℕ
  parts : List (Part level)

namespace Task

variable (t : Task) (target : ℕ × ℕ)

def Stands (r : Reader) (volume : Volume) : Prop :=
  CatalogWalk.Stands r volume t.level t.expected t.paddr t.parts

def found : List Apfs.Record := foundIn target t.level t.parts

def visited : ℕ := visitedIn target t.level t.parts

def pending : ℕ × Option ℕ := (t.paddr, t.expected)

/-- The node a record leads to. -/
def ofSub (level : ℕ) (sub : Sub (Part level)) : Task := ⟨level, some level, sub.paddr, sub.parts⟩

end Task

/-- What the loop returns, from any stack: it ends if the nodes and the records are not too many. -/
lemma recordsLoop_eq_ok {nodes : ℕ} {tasks : List Task} {found result : List Apfs.Record}
    (hfound : found.length ≤ MAX_RECORDS) (hstands : ∀ t ∈ tasks, t.Stands r volume) :
    r.recordsLoop volume objectId kind nodes ⟨found, tasks.map Task.pending⟩ = .ok result ↔
      (tasks.map fun t => t.visited (objectId, kind)).sum ≤ nodes
        ∧ found.length + (tasks.flatMap fun t => t.found (objectId, kind)).length ≤ MAX_RECORDS
        ∧ result = found ++ tasks.flatMap fun t => t.found (objectId, kind) := by
  induction nodes generalizing tasks found with
  | zero =>
    cases tasks with
    | nil => simp [recordsLoop, hfound, eq_comm]
    | cons t tasks =>
      have hpos : 0 < t.visited (objectId, kind) := by
        obtain ⟨level, expected, paddr, parts⟩ := t
        cases level <;> simp [Task.visited, visitedIn]
      simp only [recordsLoop, map_cons, Task.pending, sum_cons]
      constructor
      · intro h
        cases h
      · intro h
        omega
  | succ nodes ih =>
    cases tasks with
    | nil =>
      simp only [recordsLoop, map_nil, pure_eq_ok]
      simp [hfound, eq_comm]
    | cons t tasks =>
      obtain ⟨level, expected, paddr, parts⟩ := t
      have hrest : ∀ t ∈ tasks, t.Stands r volume :=
        fun t ht => hstands t (mem_cons_of_mem _ ht)
      have hfirst := hstands _ mem_cons_self
      rw [map_cons, recordsLoop_cons rfl, bind_eq_ok]
      cases level with
      | zero =>
        obtain ⟨node, hnode⟩ := hfirst
        have hturn (walk' : Reader.RecordWalk) : r.visitNode volume objectId kind paddr expected
            ⟨found, tasks.map Task.pending⟩ = .ok walk' ↔ _ := visitNode_leaf hnode hfound
        have hvisited : Task.visited ⟨0, expected, paddr, parts⟩ (objectId, kind) = 1 := rfl
        have hown : Task.found ⟨0, expected, paddr, parts⟩ (objectId, kind) =
          filter (headOf · = (objectId, kind)) parts := rfl
        rw [map_cons, sum_cons, flatMap_cons, hvisited, hown]
        constructor
        · rintro ⟨walk', hwalk, h⟩
          obtain ⟨hroom, rfl⟩ := (hturn walk').mp hwalk
          simp only at hroom
          obtain ⟨hcount, hsize, rfl⟩ := (ih (by rwa [length_append]) hrest).mp h
          simp only [length_append] at hsize
          exact ⟨by omega, by rw [length_append]; omega, append_assoc ..⟩
        · rintro ⟨hcount, hsize, rfl⟩
          rw [length_append] at hsize
          refine ⟨_, (hturn _).mpr ⟨by simp only; omega, rfl⟩, (ih ?_ hrest).mpr
            ⟨by omega, ?_, (append_assoc ..).symm⟩⟩
          · simp only [length_append]
            omega
          · simp only [length_append]
            omega
      | succ level =>
        obtain ⟨⟨node, hnode⟩, hsubs⟩ := hfirst
        have hturn : r.visitNode volume objectId kind paddr expected
            ⟨found, tasks.map Task.pending⟩ = _ :=
          visitNode_index hnode fun sub hsub => (hsubs sub hsub).1
        -- the children take the place of the node on the stack
        have hstack : (reached (objectId, kind) parts).reverse.map
            (fun sub => (sub.paddr, some level)) ++ tasks.map Task.pending =
            (((reached (objectId, kind) parts).reverse.map (Task.ofSub level)) ++ tasks).map
              Task.pending := by
          rw [map_append, map_map]
          rfl
        simp only [hstack] at hturn
        simp only [hturn, Except.ok.injEq, exists_eq_left']
        have hvisited : Task.visited ⟨level + 1, expected, paddr, parts⟩ (objectId, kind) =
            1 + (((reached (objectId, kind) parts).reverse.map (Task.ofSub level)).map
              fun t => t.visited (objectId, kind)).sum := by
          rw [map_map]
          rfl
        have hown : Task.found ⟨level + 1, expected, paddr, parts⟩ (objectId, kind) =
            ((reached (objectId, kind) parts).reverse.map (Task.ofSub level)).flatMap
              fun t => t.found (objectId, kind) := by
          rw [flatMap_map]
          rfl
        rw [ih hfound, map_cons, sum_cons, flatMap_cons, hvisited, hown, map_append, sum_append, flatMap_append]
        · refine and_congr_left fun _ => ?_
          omega
        · intro t ht
          rcases mem_append.mp ht with ht | ht
          · obtain ⟨sub, hsub, rfl⟩ := mem_map.mp ht
            exact (hsubs sub (mem_of_reached (mem_reverse.mp hsub))).2
          · exact hrest t ht

end Walk

/-! ### The order of what is found -/

/-- Groups without common members, from the last to the first, are in order if only one of them has
any. -/
lemma reverse_flatten_eq_iff {l : List (List α)} (h : l.flatten.Nodup) :
    l.reverse.flatten = l.flatten ↔ (l.filter (· ≠ [])).length ≤ 1 := by
  have hdrop (m : List (List α)) : m.flatten = (m.filter (· ≠ [])).flatten := by rw [flatten_filter_ne_nil]
  rw [hdrop l, hdrop l.reverse, filter_reverse]
  rw [hdrop l] at h
  have hne : ∀ g ∈ l.filter (· ≠ []), g ≠ [] := fun g hg => by simpa using (mem_filter.mp hg).2
  generalize l.filter (· ≠ []) = m at h hne
  rcases m with _ | ⟨g, _ | ⟨g', rest⟩⟩
  · simp
  · simp
  · refine iff_of_false (fun heq => ?_) (by simp)
    -- the first member of the last group is the first member of the first
    obtain ⟨front, last, hlast⟩ : ∃ front last, g' :: rest = front ++ [last] :=
      ⟨_, _, (dropLast_append_getLast (cons_ne_nil g' rest)).symm⟩
    rw [hlast] at h heq hne
    obtain ⟨x, xs, rfl⟩ := exists_cons_of_ne_nil (hne last (by simp))
    obtain ⟨y, ys, rfl⟩ := exists_cons_of_ne_nil (hne g (by simp))
    have hsame : x = y := by simpa using congrArg head? heq
    rw [flatten_cons, nodup_append] at h
    exact h.2.2 y (by simp) x (by simp) hsame.symm

/-- The catalog as the reader finds it: the tree below the root. -/
structure CatalogTree (r : Reader) (volume : Volume) where
  level : ℕ
  parts : List (Part level)
  stands : Stands r volume level none volume.fsTreePaddr parts
  ordered : Ordered volume.layout level parts

lemma leafRecords_pairwise {layout : DrecKeyLayout} {level : ℕ} {parts : List (Part level)}
    (h : Ordered layout level parts) :
    (leafRecords level parts).Pairwise fun a b => keyRank layout a.1 < keyRank layout b.1 := by
  induction level with
  | zero =>
    have hleaf : leafRecords 0 parts = parts := append_nil _
    rw [hleaf]
    exact h
  | succ level ih =>
    have hleaves : leafRecords (level + 1) parts = flatMap (fun sub => leafRecords level sub.parts) parts := by
      simp only [leafRecords, leafNodes]
      rw [flatMap_def, flatten_flatten, map_map, flatMap_def]
      rfl
    rw [hleaves, pairwise_flatMap]
    refine ⟨fun sub hsub => ih (h.2 sub hsub), h.1.imp fun hrel a ha b hb => ?_⟩
    by_contra hab
    exact hrel.2.2 b hb (List.lt_of_le_of_lt (List.not_lt.mp hab) (hrel.2.1 a ha))

namespace CatalogTree

variable {r : Reader} {volume : Volume} (c : CatalogTree r volume) (target : ℕ × ℕ)

/-- The records of the leaves with an object and a kind, in the order of their keys. -/
def wanted : List Apfs.Record := (leafRecords c.level c.parts).filter (headOf · = target)

/-- The nodes the walk visits. -/
def visited : ℕ := visitedIn target c.level c.parts

/-- The leaves that have records with the object and the kind. -/
def leavesWith : List (List Apfs.Record) :=
  (leafNodes c.level c.parts).filter fun leaf => leaf.any (headOf · = target)

lemma wanted_nodup : (c.wanted target).Nodup := by
  refine List.Nodup.filter _ ((leafRecords_pairwise c.ordered).imp ?_)
  rintro a b hlt rfl
  exact List.lt_irrefl _ hlt

lemma groups_filter : ((groups target c.level c.parts).filter (· ≠ [])).length = (c.leavesWith target).length := by
  rw [groups, filter_map, length_map, leavesWith]
  congr 2
  funext leaf
  rw [Bool.eq_iff_iff]
  simp [filter_eq_nil_iff]

lemma records_eq_ok {objectId kind : ℕ} {result : List Apfs.Record} :
    r.records volume objectId kind = .ok result ↔ c.visited (objectId, kind) ≤ MAX_TREE_NODES
      ∧ (c.wanted (objectId, kind)).length ≤ MAX_RECORDS
      ∧ result = (groups (objectId, kind) c.level c.parts).reverse.flatten := by
  have hstands : ∀ t ∈ [(⟨c.level, none, volume.fsTreePaddr, c.parts⟩ : Task)], t.Stands r volume := by
    intro t ht
    rw [mem_singleton.mp ht]
    exact c.stands
  have hloop : r.recordsLoop volume objectId kind MAX_TREE_NODES
      ⟨[], [(⟨c.level, none, volume.fsTreePaddr, c.parts⟩ : Task)].map Task.pending⟩ = .ok result ↔ _ :=
    recordsLoop_eq_ok (Nat.zero_le _) hstands
  have hlength : ((groups (objectId, kind) c.level c.parts).reverse.flatten).length =
      (c.wanted (objectId, kind)).length := by
    rw [wanted, ← groups_flatten]
    exact ((reverse_perm _).flatten).length_eq
  have hfound : Task.found ⟨c.level, none, volume.fsTreePaddr, c.parts⟩ (objectId, kind) =
    (groups (objectId, kind) c.level c.parts).reverse.flatten := foundIn_eq c.ordered
  simp only [map_cons, map_nil, sum_cons, sum_nil, flatMap_cons, flatMap_nil, append_nil, add_zero, length_nil,
    zero_add, nil_append, hfound, hlength] at hloop
  exact hloop

end CatalogTree

/-! ### A file with extents in two leaves

Blocks 11 and 12 are the leaves below the root in block 10.  The first has the inode of file 7 and its
first extent, the second has the second extent. -/

section TwoLeaves

def inodeRecord : Apfs.Record := (leBytes 8 (7 + 3 * 2 ^ 60), [3])
def firstExtent : Apfs.Record := (leBytes 8 (7 + 8 * 2 ^ 60) ++ leBytes 8 0, [1])
def secondExtent : Apfs.Record := (leBytes 8 (7 + 8 * 2 ^ 60) ++ leBytes 8 4096, [2])

def rootBlock : Bytes :=
  patch (zeros 512) ([u16 0x20 0x11, u16 0x22 1, u32 0x24 2, u16 0x2A 16]
    ++ slotWrites false 56 0 8 8 8 ++ slotWrites false 64 8 16 16 8
    ++ [(72, inodeRecord.1), (80, secondExtent.1), u64 464 11, u64 456 12])

def firstLeaf : Bytes :=
  patch (zeros 512) ([u16 0x20 0x12, u32 0x24 2, u16 0x2A 16]
    ++ slotWrites false 56 0 8 1 1 ++ slotWrites false 64 8 16 2 1
    ++ [(72, inodeRecord.1), (80, firstExtent.1), (511, [3]), (510, [1])])

def secondLeaf : Bytes :=
  patch (zeros 512) ([u16 0x20 0x12, u32 0x24 1, u16 0x2A 8]
    ++ slotWrites false 56 0 16 1 1 ++ [(64, secondExtent.1), (511, [2])])

def twoLeafReader : Reader where
  verifier := ⟨⟨fun p _ => .ok (if p = 10 then rootBlock else if p = 11 then firstLeaf else secondLeaf)⟩,
    512, 20⟩
  xid := 5
  containerOmap := []
  volumeOids := []
  superblockPaddr := 0
  containerBytes := 10240

def twoLeafVolume : Volume :=
  { smallVolume 11 with omap := [⟨100, 5, 10⟩, ⟨111, 5, 11⟩, ⟨112, 5, 12⟩] }

lemma entries_of_map {node : BTreeNode} {records : List Apfs.Record}
    (h : (List.range records.length).map node.entry = records.map .ok) (i : ℕ)
    (record : Apfs.Record) (hi : records[i]? = some record) : node.entry i = .ok record := by
  have hlt : i < records.length := (List.getElem?_eq_some_iff.mp hi).1
  have hget := congrArg (·[i]?) h
  simpa [getElem?_map, getElem?_range hlt, hi] using hget

lemma rootBlock_node : NodeAt twoLeafReader twoLeafVolume none 10 1
    [(inodeRecord.1, leBytes 8 11), (secondExtent.1, leBytes 8 12)] ⟨10, rootBlock, 0x11, 1, 2, 72, 472, 56⟩ :=
  ⟨by decide +kernel, rfl, by decide +kernel, rfl, entries_of_map (by decide +kernel), by decide +kernel⟩

lemma firstLeaf_node : NodeAt twoLeafReader twoLeafVolume (some 0) 11 0 [inodeRecord, firstExtent]
    ⟨11, firstLeaf, 0x12, 0, 2, 72, 512, 56⟩ :=
  ⟨by decide +kernel, rfl, by decide +kernel, rfl, entries_of_map (by decide +kernel), by decide +kernel⟩

lemma secondLeaf_node : NodeAt twoLeafReader twoLeafVolume (some 0) 12 0 [secondExtent]
    ⟨12, secondLeaf, 0x12, 0, 1, 64, 512, 56⟩ :=
  ⟨by decide +kernel, rfl, by decide +kernel, rfl, entries_of_map (by decide +kernel), by decide +kernel⟩

def twoLeafTree : CatalogTree twoLeafReader twoLeafVolume where
  level := 1
  parts := [⟨(inodeRecord.1, leBytes 8 11), 11, [inodeRecord, firstExtent]⟩,
    ⟨(secondExtent.1, leBytes 8 12), 12, [secondExtent]⟩]
  stands := by
    refine ⟨⟨_, rootBlock_node⟩, fun sub hsub => ?_⟩
    rcases mem_cons.mp hsub with rfl | hsub
    · exact ⟨⟨by decide, fun paddr => ⟨111, rfl, by decide +kernel⟩⟩, _, firstLeaf_node⟩
    · obtain rfl := mem_singleton.mp hsub
      exact ⟨⟨by decide, fun paddr => ⟨112, rfl, by decide +kernel⟩⟩, _, secondLeaf_node⟩
  ordered := by
    refine ⟨by decide +kernel, fun sub hsub => ?_⟩
    rcases mem_cons.mp hsub with rfl | hsub
    · exact pairwise_pair.mpr (by decide +kernel)
    · obtain rfl := mem_singleton.mp hsub
      exact pairwise_singleton _ _

end TwoLeaves

/-- The records of an object and a kind, from a catalog whose keys are in order.  If the limits on
nodes and records are kept, all of them are returned and each once; they are returned in the order of
their keys exactly if one leaf has all of them. -/
theorem records_complete (r : Reader) (volume : Volume) (c : CatalogTree r volume) (objectId kind : ℕ) :
    (r.records volume objectId kind = .ok (c.wanted (objectId, kind)) ↔
        c.visited (objectId, kind) ≤ MAX_TREE_NODES ∧ (c.wanted (objectId, kind)).length ≤ MAX_RECORDS
          ∧ (c.leavesWith (objectId, kind)).length ≤ 1) ∧ (c.visited (objectId, kind) ≤ MAX_TREE_NODES →
        (c.wanted (objectId, kind)).length ≤ MAX_RECORDS →
        ∃ found, r.records volume objectId kind = .ok found ∧ found.Nodup
          ∧ found.Perm (c.wanted (objectId, kind))) := by
  have hwanted : c.wanted (objectId, kind) = (groups (objectId, kind) c.level c.parts).flatten :=
    (groups_flatten _ _).symm
  have hnodup := c.wanted_nodup (objectId, kind)
  have hperm : (groups (objectId, kind) c.level c.parts).reverse.flatten.Perm
      (c.wanted (objectId, kind)) := by
    rw [hwanted]
    exact (reverse_perm _).flatten
  constructor
  · rw [c.records_eq_ok, ← c.groups_filter, ← reverse_flatten_eq_iff (hwanted ▸ hnodup), ← hwanted,
      eq_comm (a := c.wanted (objectId, kind)) (b := (groups _ _ _).reverse.flatten)]
  · intro hvisited hcount
    exact ⟨_, c.records_eq_ok.mpr ⟨hvisited, hcount, rfl⟩, hperm.nodup_iff.mpr hnodup, hperm⟩

/-- The inode, which is in one leaf. -/
theorem records_complete_inode : twoLeafReader.records twoLeafVolume 7 3 = .ok (twoLeafTree.wanted (7, 3)) :=
  (records_complete twoLeafReader twoLeafVolume twoLeafTree 7 3).1.mpr (by decide +kernel)

/-- The extents, which are in two: the second one comes first. -/
theorem extents_out_of_order : twoLeafTree.wanted (7, 8) = [firstExtent, secondExtent]
    ∧ twoLeafReader.records twoLeafVolume 7 8 = .ok [secondExtent, firstExtent]
    ∧ keyRank twoLeafVolume.layout firstExtent.1 < keyRank twoLeafVolume.layout secondExtent.1 := by
  decide +kernel

end AppleUtils.Apfs.CatalogWalk
