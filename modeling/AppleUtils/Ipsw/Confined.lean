import AppleUtils.Ipsw.Stage

/-! # Staging stays in its directory

`ensure_parent` leaves the parent of the staged path leading to a directory inside the staging root
(`Leads`), so whatever is made, moved or removed at that path is inside. -/

namespace AppleUtils.Ipsw

open Posix List Triple

variable {s : Stage}

/-- Below the staging root. -/
def Inside (root place : Path) : Prop := root <+: place ∧ place ≠ root

namespace Setting

variable (E : Setting) {place : Path} {name : Name}

/-- An event that stays in the staging directory: what is created is inside, and a link that is
staged does not resolve to something that is there and is not inside. -/
def Confines : Event → Prop
  | .created place => Inside E.root place
  | .staged name tree => ∀ target, E.archive.entry name = some (.symlink target) →
      ∀ resolved, tree.canonicalize E.links (E.stagedPath name) = .ok resolved → E.root <+: resolved

/-- Outside of the staging directory the tree is `t`. -/
def contract (t : Posix.Tree Bytes) : Contract Stage IpswError Event where
  inv s := ∀ q, ¬ Inside E.root q → s.tree q = t q
  relies _ := True
  gives := E.Confines
  fails _ := True

/-- A path leads to a directory inside. -/
def Leads (p : Path) (s : Stage) : Prop :=
  ∃ d, s.tree.resolve E.links [] p = .ok d ∧ E.root <+: d ∧ s.tree d = some .dir

variable {E} {t : Posix.Tree Bytes} {p : Path} {c : String}

lemma inside_append {d : Path} (h : E.root <+: d) (c : String) : Inside E.root (d ++ [c]) := by
  refine ⟨h.trans (prefix_append _ _), fun heq => ?_⟩
  have := h.length_le
  rw [← heq, length_append, length_singleton] at this
  omega

lemma inv_set (hinv : (E.contract t).inv s) (h : Inside E.root place)
    (node : Option (Node Bytes)) : (E.contract t).inv { s with tree := s.tree.set place node } := by
  intro q hq
  change s.tree.set place node q = t q
  rw [Tree.set, if_neg]
  · exact hinv q hq
  · rintro rfl
    exact hq h

lemma fails (e : IpswError) : (E.contract t).fails e := trivial

lemma Leads.locate (hleads : E.Leads p s) (h : s.tree.locate E.links (p ++ [c]) = .ok place) :
    ∃ d, s.tree.resolve E.links [] p = .ok d ∧ E.root <+: d ∧ s.tree d = some .dir ∧ place = d ++ [c] := by
  obtain ⟨d, hd, hin, hdir⟩ := hleads
  rw [Tree.locate_append hd hdir] at h
  cases h
  exact ⟨d, hd, hin, hdir, rfl⟩

lemma Leads.inside (hleads : E.Leads p s)
    (h : s.tree.locate E.links (p ++ [c]) = .ok place) : Inside E.root place := by
  obtain ⟨d, _, hin, _, rfl⟩ := hleads.locate h
  exact inside_append hin c

lemma Leads.mono {t' : Posix.Tree Bytes} (hleads : E.Leads p s) (hext : s.tree.Extends t') :
    E.Leads p { s with tree := t' } := by
  obtain ⟨d, hd, hin, hdir⟩ := hleads
  exact ⟨d, Tree.resolve_mono hext hd, hin, hext _ _ hdir⟩

/-- A new node in a directory inside: the way to the directory stays, and the node is there. -/
lemma make_leads (node : Node Bytes) : Triple (E.contract t) (E.Leads p) (E.make (p ++ [c]) node) fun _ s =>
    E.Leads p s ∧ (Plain c → node = .dir → E.Leads (p ++ [c]) s) := by
  refine io_bind fails fun s place hinv hleads hvacant => ?_
  obtain ⟨hlocate, hnone⟩ := Tree.vacant_eq_ok.mp hvacant
  have hinside := hleads.inside hlocate
  have hext := Tree.extends_set hnone (some node)
  refine bind (Q := fun _ s' => s' = { s with tree := s.tree.set place (some node) }) ?_ fun _ => ?_
  · refine modify ?_ ?_
    · rintro _ _ rfl
      exact inv_set hinv hinside _
    · rintro _ _ rfl
      rfl
  · refine record ?_
    rintro _ _ rfl _
    refine ⟨hinside, hleads.mono hext, ?_⟩
    rintro hc rfl
    obtain ⟨d, hd, hin, hdir, hplace⟩ := hleads.locate hlocate
    have hnew : s.tree.set place (some .dir) (d ++ [c]) = some .dir := by
      rw [hplace]
      exact if_pos rfl
    obtain ⟨links', hrest⟩ := Tree.resolve_append (Tree.resolve_mono hext hd) (hext _ _ hdir)
    refine ⟨d ++ [c], ?_, (inside_append hin c).1, hnew⟩
    change Tree.resolve (s.tree.set place (some .dir)) E.links [] (p ++ [c]) = _
    rw [hrest, Tree.resolve_dir hc hnew]
    exact Tree.resolve_nil

lemma removeFile_leads : Triple (E.contract t) (E.Leads p) (E.removeFile (p ++ [c])) fun _ _ => True := by
  refine io_bind fails fun s place hinv hleads hplace => ?_
  refine modify ?_ fun _ _ _ => trivial
  rintro _ _ rfl
  exact inv_set hinv (hleads.inside (Tree.unlinkable_eq_ok.mp hplace).1) _

lemma rename_leads {c' : String} :
    Triple (E.contract t) (E.Leads p) (E.rename (p ++ [c]) (p ++ [c'])) fun _ _ => True := by
  refine io_bind fails fun s moved hinv hleads hmoved => ?_
  obtain ⟨node, source, place⟩ := moved
  obtain ⟨hsource, _, hplace, _⟩ := Tree.movable_eq_ok hmoved
  have hin := hleads.inside (Tree.unlinkable_eq_ok.mp hsource).1
  have hin' := hleads.inside hplace
  refine bind (Q := fun _ _ => True) (modify ?_ fun _ _ _ => trivial) fun _ => ?_
  · rintro _ _ rfl
    exact inv_set hinv hin _
  · refine bind (Q := fun _ _ => True) (modify ?_ fun _ _ _ => trivial) fun _ => ?_
    · exact fun s hinv _ => inv_set hinv hin' _
    · exact record fun _ _ _ _ => ⟨hin', trivial⟩

/-! ### The steps of `stage` -/

lemma ensureDirectory_leads (hc : Plain c) :
    Triple (E.contract t) (E.Leads p) (E.ensureDirectory (p ++ [c])) fun _ => E.Leads (p ++ [c]) := by
  refine get_bind fun s _ hleads => ?_
  split
  · split
    · exact throw trivial
    · rename_i resolved hresolved
      split
      · rename_i hin
        refine conseq (ret (Q := fun _ s' => s' = s) ()) (fun _ _ h => h) ?_
        rintro _ _ _ rfl
        exact ⟨resolved, hresolved, hin.1, hin.2⟩
      · exact throw trivial
  · refine conseq (make_leads .dir) ?_ fun _ _ _ h => h.2 hc rfl
    rintro _ _ rfl
    exact hleads
  · exact throw trivial

lemma ensureDirectories_leads (rest : List String) (hrest : ∀ c ∈ rest, Plain c) :
    Triple (E.contract t) (E.Leads p) (E.ensureDirectories p rest) fun _ => E.Leads (p ++ rest) := by
  induction rest generalizing p with
  | nil =>
    rw [append_nil]
    exact ret (Q := fun _ => E.Leads p) ()
  | cons c rest ih =>
    obtain ⟨hc, hrest⟩ := forall_mem_cons.mp hrest
    refine (ensureDirectory_leads hc).bind fun _ => ?_
    have := ih (p := p ++ [c]) hrest
    rwa [append_assoc] at this

lemma root_leads (ht : Canonical t E.root) (hinv : (E.contract t).inv s) : E.Leads E.root s := by
  have hdirs : ∀ q, q <+: E.root → s.tree q = some .dir := by
    intro q hq
    rw [hinv q fun h => h.2 (hq.eq_of_length_le h.1.length_le)]
    exact ht.dirs q hq
  exact ⟨E.root, Tree.resolve_plain ht.plain fun q _ hq => hdirs q hq, prefix_rfl, hdirs _ prefix_rfl⟩

lemma ensureParent_leads (ht : Canonical t E.root) (hname : Sanitized name) :
    Triple (E.contract t) (fun _ => True) (E.ensureParent name) fun _ => E.Leads (E.root ++ name.dropLast) :=
  (ensureDirectories_leads name.dropLast fun c hc => hname.2 c (mem_of_mem_dropLast hc)).conseq
    (fun _ hinv _ => root_leads ht hinv) fun _ _ _ h => h

lemma extractFile_leads (opened : Except IpswError (Except IpswError Bytes)) :
    Triple (E.contract t) (E.Leads p) (E.extractFile opened (p ++ [c])) fun _ _ => True := by
  refine lift_bind (fun _ _ => trivial) fun data _ => ?_
  rw [partialPath_append]
  have hcleanup : Triple (E.contract t) (E.Leads p)
      (E.removeFile (p ++ [c ++ ".part"])).ignoring fun _ _ => True :=
    ignoring removeFile_leads fun _ _ _ => trivial
  refine bind (Q := fun _ => E.Leads p) ?_ fun _ => ?_
  · refine onError ?_ (make_failsClean _ _) hcleanup
    exact (make_leads _).conseq (fun _ _ h => h) fun _ _ _ h => h.1
  · refine bind (Q := fun _ => E.Leads p) ?_ fun _ => ?_
    · refine onError ?_ (lift_failsClean _) hcleanup
      cases data with
      | ok bytes => exact ret (Q := fun _ => E.Leads p) bytes
      | error e => exact throw trivial
    · exact onError rename_leads (rename_failsClean _ _) hcleanup

lemma checkLink_leads (hname : Sanitized name) :
    Triple (E.contract t) (E.Leads (E.root ++ name.dropLast)) (E.checkLink name) fun _ s =>
      ∀ resolved, s.tree.canonicalize E.links (E.stagedPath name) = .ok resolved → E.root <+: resolved := by
  refine get_bind fun s _ hleads => ?_
  split
  · rename_i e herror
    refine conseq (ret (Q := fun _ s' => s' = s) ()) (fun _ _ h => h) ?_
    rintro _ _ _ rfl resolved h
    rw [herror] at h
    cases h
  · rename_i resolved hresolved
    split
    · rename_i hin
      refine conseq (ret (Q := fun _ s' => s' = s) ()) (fun _ _ h => h) ?_
      rintro _ _ _ rfl resolved' h
      rw [hresolved] at h
      cases h
      exact hin
    · refine bind (Q := fun _ _ => True) ?_ fun _ => throw trivial
      refine ignoring ?_ fun _ _ _ => trivial
      rw [stagedPath_eq hname]
      refine removeFile_leads.conseq ?_ fun _ _ _ _ => trivial
      rintro _ _ rfl
      exact hleads

lemma stageEntry_confined (ht : Canonical t E.root) {entry : Entry}
    (hentry : E.archive.entry name = some entry) :
    Triple (E.contract t) (fun _ => True) (E.stageEntry name entry) fun _ s => E.Confines (.staged name s.tree) := by
  have hname := E.archive.sanitized_of_entry hentry
  cases entry with
  | file opened =>
    refine (ensureParent_leads ht hname).bind fun _ => ?_
    rw [stagedPath_eq hname]
    refine (extractFile_leads opened).conseq (fun _ _ h => h) ?_
    rintro _ s _ _ target htarget
    rw [hentry] at htarget
    cases htarget
  | symlink target =>
    refine (ensureParent_leads ht hname).bind fun _ => ?_
    refine lift_bind (fun _ _ => trivial) fun target _ => ?_
    refine lift_bind (fun _ _ => trivial) fun _ _ => ?_
    refine bind (Q := fun _ => E.Leads (E.root ++ name.dropLast)) ?_ fun _ => ?_
    · rw [stagedPath_eq hname]
      exact (make_leads _).conseq (fun _ _ h => h) fun _ _ _ h => h.1
    · exact (checkLink_leads hname).conseq (fun _ _ h => h) fun _ _ _ h _ _ => h

lemma stage_confined (ht : Canonical t E.root) (name : Name) :
    Triple (E.contract t) (fun _ => True) (E.stage name) fun _ _ => True := by
  refine get_bind fun s _ _ => ?_
  split
  · exact (ret (Q := fun _ _ => True) _).conseq (fun _ _ _ => trivial) fun _ _ _ h => h
  · split
    · exact throw trivial
    · rename_i entry hentry
      refine bind ((stageEntry_confined ht hentry).conseq (fun _ _ _ => trivial) fun _ _ _ h => h)
        fun _ => ?_
      refine bind (Q := fun _ _ => True) ?_ fun _ => ret (Q := fun _ _ => True) _
      refine bind (Q := fun _ s => E.Confines (.staged name s.tree)) ?_ fun _ => ?_
      · exact modify (fun _ hinv _ => hinv) fun _ _ h => h
      · exact record fun _ _ h _ => ⟨h, trivial⟩

lemma stageTree_confined (ht : Canonical t E.root) (under : List String) :
    Triple (E.contract t) (fun _ => True) (E.stageTree under) fun _ _ => True :=
  (forEach (stage_confined ht) _).bind fun _ => ret (Q := fun _ _ => True) _

end Setting

/-! ### Runs -/

inductive Call where
  | stage (name : Name) | stageTree (under : List String)

/-- A call, whatever it returns. -/
def Setting.call (E : Setting) : Call → Staging Unit
  | .stage name => (E.stage name).ignoring
  | .stageTree under => (E.stageTree under).ignoring

/-- The calls on a new stage in the tree `t`. -/
def Setting.runFrom (E : Setting) (t : Posix.Tree Bytes) (calls : List Call) : Result Stage IpswError Event Unit :=
  (Proc.forEach E.call calls).run ⟨t, [], []⟩

/-- No sequence of calls makes anything outside of the staging directory, and a link does not lead
to something outside when it is staged. -/
theorem staging_confined (E : Setting) (t : Posix.Tree Bytes) (ht : Canonical t E.root) (calls : List Call) :
    (∀ event ∈ (E.runFrom t calls).trace, E.Confines event) ∧
      ∀ q, ¬ Inside E.root q → (E.runFrom t calls).state.tree q = t q := by
  have hcall : ∀ call, Triple (E.contract t) (fun _ => True) (E.call call) fun _ _ => True := by
    intro call
    cases call with
    | stage name => exact ignoring (Setting.stage_confined ht name) fun _ _ _ => trivial
    | stageTree under => exact ignoring (Setting.stageTree_confined ht under) fun _ _ _ => trivial
  obtain ⟨hinv, hgives, _, _⟩ := forEach hcall calls ⟨t, [], []⟩ (fun _ _ => rfl) trivial
    fun _ _ => trivial
  exact ⟨hgives, hinv⟩

/-! ### A link that leads out later -/

/-- A stage at `/s` in a tree that has the directory `/etc` as well. -/
def escapeTree : Posix.Tree Bytes := fun p => if p = [] ∨ p = ["s"] ∨ p = ["etc"] then some .dir else none

def escapeRecords : List Record :=
  [⟨["d", "up"], 0o120755, .symlink (.ok [".."])⟩, ⟨["d", "out"], 0o120755, .symlink (.ok ["up", "..", "etc"])⟩]

def escape : Setting where
  archive := (parseCentralDirectory escapeRecords).toOption.getD .empty
  root := ["s"]
  links := 40
  cli := none

/-- The link `d/out` leads nowhere when it is staged; with `d/up` staged it leads to `/etc`. -/
theorem staged_link_leads_out : (parseCentralDirectory escapeRecords).isOk ∧
    (escape.runFrom escapeTree [.stage ["d", "out"], .stage ["d", "up"]]).state.staged =
      [["d", "up"], ["d", "out"]] ∧
    (escape.runFrom escapeTree [.stage ["d", "out"], .stage ["d", "up"]]).state.tree.canonicalize 40
      ["s", "d", "out"] = .ok ["etc"] := by decide

theorem staging_confined_escape :
    (∀ event ∈ (escape.runFrom escapeTree [.stage ["d", "out"], .stage ["d", "up"]]).trace,
      escape.Confines event) ∧ ∀ q, ¬ Inside escape.root q →
      (escape.runFrom escapeTree [.stage ["d", "out"], .stage ["d", "up"]]).state.tree q = escapeTree q :=
  staging_confined escape escapeTree (.of_top (by decide) rfl rfl) _

end AppleUtils.Ipsw
