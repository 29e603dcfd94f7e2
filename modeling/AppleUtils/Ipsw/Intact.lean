import AppleUtils.Ipsw.Stage

/-! # Staged entries stay intact

The temporary files of the stage share one directory with the entries: the partial file of `a` is
`a.part`, the plain file of `a.aea` is `a`, and decryption works below `.aea-work`.  `Setting.Sound`
is what holds between two calls as long as none of these is the name of another staged entry; it
includes that every staged entry is in its place.

No entry of an archive is a directory of another, and links stand at the names of staged entries
only, so there are no links on the way to a staged path. -/

namespace AppleUtils.Ipsw

open Posix List Triple Proc

variable {n : Name} {node : Node Bytes}

namespace Setting

variable (E : Setting) {p : Path} {opened : Except IpswError (Except IpswError Bytes)} {target : Path}
    {d : Path} {plain : Name}

/-- The node that staging an entry makes. -/
def content (name : Name) : Option (Node Bytes) :=
  match E.archive.entry name with
  | some (.file (.ok (.ok bytes))) => some (.file bytes)
  | some (.symlink (.ok target)) => some (.link target)
  | _ => none

structure Sound (s : Stage) : Prop where
  root : Canonical s.tree E.root
  links : ∀ q target, s.tree (E.root ++ q) = some (.link target) → q ∈ s.staged
  parents : ∀ q c, s.tree (E.root ++ (q ++ [c])) ≠ none → s.tree (E.root ++ q) = some .dir
  intact : ∀ n ∈ s.staged, ∃ node, E.content n = some node ∧ s.tree (E.root ++ n) = some node
  plain : ∀ x ∈ s.decrypted, (E.archive.entry x.1).isSome ∧ x.2 ≠ [] ∧ x.2.dropLast = x.1.dropLast

/-- No staged name is on the way. -/
def Way (staged : List Name) (p : Path) : Prop :=
  (∀ c ∈ p, Plain c) ∧ ∀ d, d ≠ [] → d <+: p → d ∉ staged

variable {E} {s : Stage} {S : List Name} {q : Path}

lemma entry_of_content (h : E.content n = some node) : (E.archive.entry n).isSome := by
  unfold content at h
  split at h
  · rename_i he
    rw [he]
    rfl
  · rename_i he
    rw [he]
    rfl
  · cases h

lemma sanitized_of_isSome (h : (E.archive.entry n).isSome) : Sanitized n := by
  obtain ⟨e, he⟩ := Option.isSome_iff_exists.mp h
  exact E.archive.sanitized_of_entry he

lemma ne_append_of_below (hd : d <+: p) (hq : q ≠ []) : d ≠ p ++ q := by
  rintro rfl
  have := hd.length_le
  rw [length_append] at this
  have := length_pos_iff.mpr hq
  omega

namespace Sound

section

variable (hs : E.Sound s)

include hs

/-- A path without staged names on its way names the place it says. -/
lemma locate (hq : q ≠ []) (hway : Way s.staged q.dropLast) {place : Path}
    (h : s.tree.locate E.links (E.root ++ q) = .ok place) :
    place = E.root ++ q ∧ s.tree (E.root ++ q.dropLast) = some .dir :=
  Tree.locate_straight hs.root.plain hs.root.dirs hq hway.1
    (fun d hne hd target hlink => hway.2 d hne hd (hs.links d target hlink)) h

lemma dirs_above (h : s.tree (E.root ++ q) ≠ none) (hd : d <+: q)
    (hne : d ≠ q) : s.tree (E.root ++ d) = some .dir := by
  induction q using List.reverseRecOn with
  | nil => exact absurd (prefix_nil.mp hd) hne
  | append_singleton q c ih =>
    have hdir := hs.parents q c h
    rcases prefix_concat_iff.mp hd with heq | hd
    · exact absurd heq hne
    · by_cases heq : d = q
      · rw [heq]
        exact hdir
      · exact ih (by rw [hdir]; nofun) hd heq

/-- The node at a place is replaced, and with it what is staged there. -/
lemma replace (hq : q ≠ []) (hdir : s.tree (E.root ++ q) ≠ some .dir)
    (hparent : s.tree (E.root ++ q.dropLast) = some .dir) {staged : List Name}
    {node : Option (Node Bytes)} (hstaged : ∀ m, m ≠ q → (m ∈ staged ↔ m ∈ s.staged))
    (hlink : ∀ target, node = some (.link target) → q ∈ staged)
    (hhere : q ∈ staged → ∃ x, E.content q = some x ∧ node = some x) :
    E.Sound { s with tree := s.tree.set (E.root ++ q) node, staged := staged } where
  root := by
    refine ⟨hs.root.plain, fun d hd => ?_⟩
    change Tree.set _ _ _ _ = _
    rw [Tree.set, if_neg (ne_append_of_below hd hq)]
    exact hs.root.dirs d hd
  links := by
    intro m target h
    change Tree.set _ _ _ _ = _ at h
    by_cases hm : m = q
    · subst hm
      rw [Tree.set, if_pos rfl] at h
      exact hlink target h
    · rw [Tree.set, if_neg fun h => hm (append_cancel_left h)] at h
      exact (hstaged m hm).mpr (hs.links m target h)
  parents := by
    intro m c h
    change Tree.set _ _ _ _ ≠ _ at h
    change Tree.set _ _ _ _ = _
    by_cases hm : m ++ [c] = q
    · subst hm
      rw [dropLast_concat] at hparent
      rw [Tree.set, if_neg]
      · exact hparent
      · intro heq
        rw [heq] at hparent
        exact hdir hparent
    · rw [Tree.set, if_neg fun h => hm (append_cancel_left h)] at h
      have hold := hs.parents m c h
      rw [Tree.set, if_neg]
      · exact hold
      · intro heq
        rw [heq] at hold
        exact hdir hold
  intact := by
    intro m hm
    change ∃ x, _ ∧ Tree.set _ _ _ _ = _
    by_cases hmq : m = q
    · subst hmq
      obtain ⟨x, hx, hnode⟩ := hhere hm
      exact ⟨x, hx, (if_pos rfl).trans hnode⟩
    · obtain ⟨x, hx, hnode⟩ := hs.intact m ((hstaged m hmq).mp hm)
      exact ⟨x, hx, (if_neg fun h => hmq (append_cancel_left h)).trans hnode⟩
  plain := hs.plain

/-- A node other than a link, or none, in place of one that is neither staged nor a directory. -/
lemma set (hq : q ≠ []) (hnew : q ∉ s.staged)
    (hdir : s.tree (E.root ++ q) ≠ some .dir) (hparent : s.tree (E.root ++ q.dropLast) = some .dir)
    {node : Option (Node Bytes)} (hnode : ∀ target, node ≠ some (.link target)) :
    E.Sound { s with tree := s.tree.set (E.root ++ q) node } :=
  hs.replace hq hdir hparent (fun _ _ => Iff.rfl) (fun target h => absurd h (hnode target))
    fun h => absurd h hnew

lemma mark (hnode : E.content n = some node)
    (h : s.tree (E.root ++ n) = some node) : E.Sound { s with staged := n :: s.staged } where
  root := hs.root
  links q target h := mem_cons_of_mem n (hs.links q target h)
  parents := hs.parents
  intact := forall_mem_cons.mpr ⟨⟨node, hnode, h⟩, hs.intact⟩
  plain := hs.plain

end

end Sound

/-! ### Single operations -/

/-- The end of staging the entry `n`: it can be marked as staged, or nothing is said of it. -/
def Placed (E : Setting) (n : Name) (staged : List Name) : Outcome IpswError Unit → Stage → Prop
  | .ok _, s => s.staged = staged ∧ E.Sound { s with staged := n :: s.staged }
  | _, s => s.staged = staged ∧ E.Sound s

/-- No staged name is at the work directory or below. -/
def Workless (staged : List Name) : Prop := ∀ m ∈ staged, ¬ [DECRYPT_WORK_DIR] <+: m

lemma Sound.dirs_staged (hs : E.Sound s) (hn : n ∈ s.staged) (hd : d <+: n.dropLast) :
    s.tree (E.root ++ d) = some .dir := by
  obtain ⟨node, hnode, htree⟩ := hs.intact n hn
  have hname := sanitized_of_isSome (entry_of_content hnode)
  refine hs.dirs_above (q := n) (by rw [htree]; nofun) (hd.trans (List.dropLast_prefix n)) ?_
  rintro rfl
  have hlen := hd.length_le
  rw [length_dropLast] at hlen
  have := length_pos_iff.mpr hname.1
  omega

lemma Sound.locate_staged (hs : E.Sound s) (hn : n ∈ s.staged) :
    s.tree.locate E.links (E.root ++ n) = .ok (E.root ++ n) := by
  obtain ⟨node, hnode, _⟩ := hs.intact n hn
  have hname := sanitized_of_isSome (entry_of_content hnode)
  exact Tree.locate_dirs hs.root.plain hs.root.dirs hname.1
    (fun c hc => hname.2 c (mem_of_mem_dropLast hc)) fun d hd => hs.dirs_staged hn hd

/-- No plain file of a decrypted name has the name of a staged entry. -/
def PlainFree (s : Stage) : Prop := ∀ x ∈ s.decrypted, x.2 ∉ s.staged

/-- The partial files of the names that are staged in turn are not those of names staged by then. -/
def Clear (staged : List Name) : List Name → Prop
  | [] => True
  | n :: names => (n ∈ staged ∨ partialPath n ∉ staged) ∧ Clear (n :: staged) names

lemma Clear.congr {staged staged' names : List Name} (h : Clear staged names)
    (hsame : ∀ m, m ∈ staged ↔ m ∈ staged') : Clear staged' names := by
  induction names generalizing staged staged' with
  | nil => trivial
  | cons n names ih =>
    refine ⟨?_, ih h.2 fun m => by rw [mem_cons, mem_cons, hsame]⟩
    rw [← hsame, ← hsame]
    exact h.1

end Setting

/-! ### Runs -/

inductive StageCall where
  | stage (name : Name) | stageTree (under : List String) | decrypt (name : Name) | release (name : Name)
  | releaseAll

namespace Setting

variable (E : Setting)

/-- The state after a call, whatever it returned. -/
def after (s : Stage) : StageCall → Stage
  | .stage name => ((E.stage name).run s).state
  | .stageTree under => ((E.stageTree under).run s).state
  | .decrypt name => ((E.decrypt name).run s).state
  | .release name => ((E.release name).run s).state
  | .releaseAll => (E.releaseAll.run s).state

/-- The files that a call makes or removes beside its own entry are not those of staged entries: the
partial file of an entry that is to be staged, the plain file of one that is to be decrypted or
released, the work directory. -/
def Apart (s : Stage) : StageCall → Prop
  | .stage name => Clear s.staged [name]
  | .stageTree under => Clear s.staged (E.archive.namesUnder under)
  | .decrypt name => ∀ plain, plainName name = some plain → name ∉ s.decrypted.map Prod.fst →
      plain ∉ s.staged ∧ Workless s.staged
  | .release name => ∀ plain, s.decrypted.lookup name = some plain → plain ∉ s.staged
  | .releaseAll => PlainFree s

variable {E} {s : Stage}

lemma Sound.lstat (hs : E.Sound s) (hn : n ∈ s.staged) :
    ∃ node, E.content n = some node ∧ s.tree.lstat E.links (E.stagedPath n) = .ok node := by
  obtain ⟨node, hnode, htree⟩ := hs.intact n hn
  exact ⟨node, hnode, Tree.lstat_eq_ok (hs.locate_staged hn) htree⟩

end Setting

def clashRecords : List Record :=
  [⟨["a"], 0o100644, .file (.ok (.ok [1]))⟩, ⟨["a.part"], 0o100644, .file (.ok (.ok [2]))⟩]

def clash : Setting where
  archive := (parseCentralDirectory clashRecords).toOption.getD .empty
  root := ["s"]
  links := 40
  cli := none

end AppleUtils.Ipsw
