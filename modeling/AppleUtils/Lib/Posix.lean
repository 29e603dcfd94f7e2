import Mathlib.Data.List.Basic
import Mathlib.Tactic.Common

/-! # A tree of files with symbolic links

A tree maps the place of a node, the names from the root down to it, to the node.  A path is a
list of components as they stand between the slashes of its text, so it may have empty ones, `.`
and `..`.  `Tree.resolve` follows a path as POSIX does: a link is replaced by its target where it
stands, and `..` leads to the parent of the place reached, not of the path written.  At most
`links` links are followed.

`resolve_append` splits a path at a directory, `resolve_mono` says that what a tree already
resolves it still does when nodes are added, and `resolve_plain` that names without links lead
where they say. -/

namespace AppleUtils.Posix

open List

variable {c : String}

abbrev Path := List String

variable {q : Path}

inductive Node (C : Type) where
  | dir
  | file (contents : C)
  | link (target : Path)
deriving DecidableEq

abbrev Tree (C : Type) := Path → Option (Node C)

inductive Errno where
  | noEntry | alreadyExists | notDirectory | isDirectory | loop
deriving DecidableEq

variable {C : Type}

/-- The text begins with a slash. -/
def Absolute (p : Path) : Prop := p.head? = some "" ∧ 1 < p.length

instance (p : Path) : Decidable (Absolute p) := inferInstanceAs (Decidable (_ ∧ _))

/-- A component that is a name. -/
def Plain (c : String) : Prop := c ≠ "" ∧ c ≠ "." ∧ c ≠ ".."

instance (c : String) : Decidable (Plain c) := inferInstanceAs (Decidable (_ ∧ _))

namespace Tree

def set (t : Tree C) (place : Path) (node : Option (Node C)) : Tree C :=
  fun q => if q = place then node else t q

/-- The components from a directory on, with `follow` for the rest of the way from a link. -/
def walk (t : Tree C) (follow : Path → Path → Except Errno Path) : Path → Path → Except Errno Path
  | place, [] => .ok place
  | place, c :: rest =>
    if c = "" ∨ c = "." then t.walk follow place rest
    else if c = ".." then t.walk follow place.dropLast rest
    else
      match t (place ++ [c]) with
      | none => .error .noEntry
      | some .dir => t.walk follow (place ++ [c]) rest
      | some (.file _) => if rest = [] then .ok (place ++ [c]) else .error .notDirectory
      | some (.link target) => follow (if Absolute target then [] else place) (target ++ rest)

def resolve (t : Tree C) : ℕ → Path → Path → Except Errno Path
  | 0 => t.walk fun _ _ => .error .loop
  | links + 1 => t.walk (t.resolve links)

variable (t : Tree C) (links : ℕ) {rest : Path} {node : Node C}

/-- `canonicalize` of an absolute path. -/
def canonicalize (p : Path) : Except Errno Path := t.resolve links [] p

/-- The place an absolute path names, without following its last component. -/
def locate (p : Path) : Except Errno Path := do
  let d ← t.resolve links [] p.dropLast
  match t d with
  | some .dir => .ok (d ++ p.getLast?.toList)
  | _ => .error .notDirectory

/-- `symlink_metadata`. -/
def lstat (p : Path) : Except Errno (Node C) := do
  let place ← t.locate links p
  match t place with
  | none => .error .noEntry
  | some node => .ok node

/-- The place at which a new node is made. -/
def vacant (p : Path) : Except Errno Path := do
  let place ← t.locate links p
  match t place with
  | none => .ok place
  | some _ => .error .alreadyExists

/-- The place of a node that is not a directory. -/
def unlinkable (p : Path) : Except Errno Path := do
  let place ← t.locate links p
  match t place with
  | none => .error .noEntry
  | some .dir => .error .isDirectory
  | some _ => .ok place

/-- The node that is moved by a `rename` over something that is not a directory, and the places. -/
def movable (p q : Path) : Except Errno (Node C × Path × Path) := do
  let source ← t.unlinkable links p
  let place ← t.locate links q
  match t source, t place with
  | none, _ => .error .noEntry
  | some _, some .dir => .error .isDirectory
  | some node, _ => .ok (node, source, place)

variable {t} {links} {t' : Tree C} {place d : Path} {p : Path}

/-! ### Steps of the walk -/

section Steps

variable {follow : Path → Path → Except Errno Path}

lemma walk_plain (hc : Plain c) : t.walk follow place (c :: rest) = match t (place ++ [c]) with
    | none => .error .noEntry
    | some .dir => t.walk follow (place ++ [c]) rest
    | some (.file _) => if rest = [] then .ok (place ++ [c]) else .error .notDirectory
    | some (.link target) => follow (if Absolute target then [] else place) (target ++ rest) := by
  rw [walk, if_neg (not_or.mpr ⟨hc.1, hc.2.1⟩), if_neg hc.2.2]

end Steps

lemma resolve_nil : t.resolve links place [] = .ok place := by
  cases links <;> rfl

lemma resolve_dir (hc : Plain c) (h : t (place ++ [c]) = some .dir) :
    t.resolve links place (c :: rest) = t.resolve links (place ++ [c]) rest := by
  cases links with
  | zero => simp only [resolve, walk_plain hc, h]
  | succ links => simp only [resolve, walk_plain hc, h]

/-- What holds of a walk at every number of links holds of `resolve`. -/
lemma resolve_induction {motive : ℕ → Path → Path → Path → Prop}
    (nil : ∀ links place, motive links place [] place)
    (dot : ∀ links place c rest r, c = "" ∨ c = "." → motive links place rest r → motive links place (c :: rest) r)
    (up : ∀ links place rest r, motive links place.dropLast rest r → motive links place (".." :: rest) r)
    (dir : ∀ links place c rest r, Plain c → t (place ++ [c]) = some .dir →
      motive links (place ++ [c]) rest r → motive links place (c :: rest) r)
    (file : ∀ links place c x, Plain c → t (place ++ [c]) = some (.file x) → motive links place [c] (place ++ [c]))
    (link : ∀ links place c rest r target, Plain c → t (place ++ [c]) = some (.link target) →
      motive links (if Absolute target then [] else place) (target ++ rest) r →
      motive (links + 1) place (c :: rest) r)
    {links : ℕ} {r : Path} (h : t.resolve links place p = .ok r) : motive links place p r := by
  have hwalk : ∀ links (follow : Path → Path → Except Errno Path),
      (∀ place p r target c rest, Plain c → t (place ++ [c]) = some (.link target) →
        p = target ++ rest → follow (if Absolute target then [] else place) p = .ok r →
        motive links place (c :: rest) r) →
      ∀ place p r, t.walk follow place p = .ok r → motive links place p r := by
    intro links follow hfollow place p
    induction p generalizing place with
    | nil =>
      intro r h
      cases h
      exact nil links place
    | cons c rest ih =>
      intro r h
      by_cases hdot : c = "" ∨ c = "."
      · rw [walk, if_pos hdot] at h
        exact dot links place c rest r hdot (ih place r h)
      · by_cases hup : c = ".."
        · rw [walk, if_neg hdot, if_pos hup] at h
          subst hup
          exact up links place rest r (ih _ r h)
        · have hc : Plain c := ⟨fun h => hdot (.inl h), fun h => hdot (.inr h), hup⟩
          rw [walk_plain hc] at h
          split at h
          · cases h
          · rename_i hnode
            exact dir links place c rest r hc hnode (ih _ r h)
          · rename_i x hnode
            split at h
            · rename_i hrest
              subst hrest
              cases h
              exact file links place c x hc hnode
            · cases h
          · rename_i target hnode
            exact hfollow place _ r target c rest hc hnode rfl h
  induction links generalizing place p r with
  | zero =>
    refine hwalk 0 _ ?_ place p r h
    intro _ _ _ _ _ _ _ _ _ h
    cases h
  | succ links ih =>
    refine hwalk (links + 1) _ ?_ place p r h
    intro place p r target c rest hc hnode hp h
    subst hp
    exact link links place c rest r target hc hnode (ih h)

/-! ### Resolution -/

lemma resolve_dot (hc : c = "" ∨ c = ".") : t.resolve links place (c :: rest) = t.resolve links place rest := by
  cases links <;> simp only [resolve, walk, if_pos hc]

lemma resolve_up : t.resolve links place (".." :: rest) = t.resolve links place.dropLast rest := by
  cases links <;> rfl

lemma resolve_link {target : Path} (hc : Plain c) (h : t (place ++ [c]) = some (.link target)) :
    t.resolve (links + 1) place (c :: rest) =
      t.resolve links (if Absolute target then [] else place) (target ++ rest) := by
  simp only [resolve, walk_plain hc, h]

lemma resolve_file {x : C} (hc : Plain c) (h : t (place ++ [c]) = some (.file x)) :
    t.resolve links place [c] = .ok (place ++ [c]) := by
  cases links <;> simp only [resolve, walk_plain hc, h, if_true]

/-- A path that leads to a directory can be followed first. -/
lemma resolve_append (h : t.resolve links place p = .ok d) (hd : t d = some .dir) :
    ∃ links', ∀ rest, t.resolve links place (p ++ rest) = t.resolve links' d rest := by
  refine resolve_induction
    (motive := fun links place p d => t d = some .dir →
      ∃ links', ∀ rest, t.resolve links place (p ++ rest) = t.resolve links' d rest)
    ?_ ?_ ?_ ?_ ?_ ?_ h hd
  · exact fun links place _ => ⟨links, fun rest => rfl⟩
  · intro links place c p d hc ih hd
    obtain ⟨links', hrest⟩ := ih hd
    exact ⟨links', fun rest => (resolve_dot hc).trans (hrest rest)⟩
  · intro links place p d ih hd
    obtain ⟨links', hrest⟩ := ih hd
    exact ⟨links', fun rest => resolve_up.trans (hrest rest)⟩
  · intro links place c p d hc hnode ih hd
    obtain ⟨links', hrest⟩ := ih hd
    exact ⟨links', fun rest => (resolve_dir hc hnode).trans (hrest rest)⟩
  · intro links place c x _ hnode hd
    rw [hnode] at hd
    cases hd
  · intro links place c p d target hc hnode ih hd
    obtain ⟨links', hrest⟩ := ih hd
    refine ⟨links', fun rest => (resolve_link hc hnode).trans ?_⟩
    have := hrest rest
    rwa [append_assoc] at this

/-- A tree with the nodes of another and more. -/
def Extends (t t' : Tree C) : Prop := ∀ place node, t place = some node → t' place = some node

lemma resolve_mono (hext : t.Extends t') (h : t.resolve links place p = .ok d) :
    t'.resolve links place p = .ok d := by
  refine resolve_induction (motive := fun links place p d => t'.resolve links place p = .ok d)
    ?_ ?_ ?_ ?_ ?_ ?_ h
  · exact fun links place => resolve_nil
  · exact fun links place c p d hc ih => (resolve_dot hc).trans ih
  · exact fun links place p d ih => resolve_up.trans ih
  · exact fun links place c p d hc hnode ih => (resolve_dir hc (hext _ _ hnode)).trans ih
  · exact fun links place c x hc hnode => resolve_file hc (hext _ _ hnode)
  · exact fun links place c p d target hc hnode ih => (resolve_link hc (hext _ _ hnode)).trans ih

/-- Names of directories lead where they say. -/
lemma resolve_plain (hp : ∀ c ∈ p, Plain c) (hdirs : ∀ q, q ≠ [] → q <+: p → t (place ++ q) = some .dir) :
    t.resolve links place p = .ok (place ++ p) := by
  induction p generalizing place with
  | nil =>
    rw [append_nil]
    exact resolve_nil
  | cons c p ih =>
    have hc := hdirs [c] nofun ⟨p, rfl⟩
    rw [resolve_dir (hp c mem_cons_self) hc, ih (fun x hx => hp x (mem_cons_of_mem c hx)),
      append_assoc, singleton_append]
    intro q hq hqp
    rw [append_assoc, singleton_append]
    exact hdirs (c :: q) nofun (cons_prefix_cons.mpr ⟨rfl, hqp⟩)

/-- Without links on the way, names lead where they say if they lead anywhere. -/
lemma resolve_straight (h : t.resolve links place p = .ok d) (hp : ∀ c ∈ p, Plain c)
    (hlinks : ∀ q, q ≠ [] → q <+: p → ∀ target, t (place ++ q) ≠ some (.link target)) : d = place ++ p := by
  refine resolve_induction (motive := fun _ place p d => (∀ c ∈ p, Plain c) →
    (∀ q, q ≠ [] → q <+: p → ∀ target, t (place ++ q) ≠ some (.link target)) → d = place ++ p)
    ?_ ?_ ?_ ?_ ?_ ?_ h hp hlinks
  · exact fun _ place _ _ => (append_nil place).symm
  · rintro _ place c p d (rfl | rfl) _ hp _
    · exact absurd rfl (hp _ mem_cons_self).1
    · exact absurd rfl (hp _ mem_cons_self).2.1
  · intro _ place p d _ hp _
    exact absurd rfl (hp _ mem_cons_self).2.2
  · intro _ place c p d _ _ ih hp hlinks
    rw [ih (fun x hx => hp x (mem_cons_of_mem c hx)), append_assoc, singleton_append]
    intro q hq hqp
    rw [append_assoc, singleton_append]
    exact hlinks (c :: q) nofun (cons_prefix_cons.mpr ⟨rfl, hqp⟩)
  · exact fun _ _ _ _ _ _ _ _ => rfl
  · intro _ place c p d target _ hnode _ _ hlinks
    exact absurd hnode (hlinks [c] nofun ⟨p, rfl⟩ target)

lemma locate_eq_ok : t.locate links p = .ok q ↔
    ∃ d, t.resolve links [] p.dropLast = .ok d ∧ t d = some .dir ∧ q = d ++ p.getLast?.toList := by
  unfold locate
  cases t.resolve links [] p.dropLast with
  | error e => exact iff_of_false nofun nofun
  | ok d =>
    change (match t d with
      | some .dir => Except.ok (d ++ p.getLast?.toList)
      | _ => Except.error Errno.notDirectory) = Except.ok q ↔ _
    constructor
    · intro h
      split at h
      · rename_i hd
        cases h
        exact ⟨d, rfl, hd, rfl⟩
      · cases h
    · rintro ⟨d', hd', hdir, rfl⟩
      cases hd'
      rw [hdir]

lemma locate_append (h : t.resolve links [] p = .ok d) (hd : t d = some .dir) :
    t.locate links (p ++ [c]) = .ok (d ++ [c]) := by
  rw [locate_eq_ok, dropLast_concat, List.getLast?_concat]
  exact ⟨d, h, hd, rfl⟩

/-- Below a directory, without links on the way, a path names the place it says. -/
lemma locate_straight {root : Path} (hroot : ∀ c ∈ root, Plain c)
    (hdirs : ∀ q, q <+: root → t q = some .dir) (hq : q ≠ []) (hplain : ∀ c ∈ q.dropLast, Plain c)
    (hlinks : ∀ d, d ≠ [] → d <+: q.dropLast → ∀ target, t (root ++ d) ≠ some (.link target))
    (h : t.locate links (root ++ q) = .ok place) : place = root ++ q ∧ t (root ++ q.dropLast) = some .dir := by
  obtain ⟨d, hd, hdir, rfl⟩ := locate_eq_ok.mp h
  rw [dropLast_append_of_ne_nil hq] at hd
  obtain ⟨links', hrest⟩ := @resolve_append _ t links [] root root
    (resolve_plain hroot fun q _ hq => hdirs q hq) (hdirs root prefix_rfl)
  rw [hrest] at hd
  obtain rfl := resolve_straight hd hplain hlinks
  refine ⟨?_, hdir⟩
  rw [append_assoc, List.getLast?_append_of_ne_nil _ hq, List.getLast?_eq_some_getLast hq,
    Option.toList_some, dropLast_append_getLast]

/-- The place of a path all of whose directories are there. -/
lemma locate_dirs {root : Path} (hroot : ∀ c ∈ root, Plain c)
    (hdirs : ∀ q, q <+: root → t q = some .dir) (hq : q ≠ []) (hplain : ∀ c ∈ q.dropLast, Plain c)
    (hway : ∀ d, d <+: q.dropLast → t (root ++ d) = some .dir) : t.locate links (root ++ q) = .ok (root ++ q) := by
  obtain ⟨links', hrest⟩ := @resolve_append _ t links [] root root
    (resolve_plain hroot fun q _ hq => hdirs q hq) (hdirs root prefix_rfl)
  refine locate_eq_ok.mpr ⟨root ++ q.dropLast, ?_, hway _ prefix_rfl, ?_⟩
  · rw [dropLast_append_of_ne_nil hq, hrest]
    exact resolve_plain hplain fun d _ hd => hway d hd
  · rw [append_assoc, List.getLast?_append_of_ne_nil _ hq, List.getLast?_eq_some_getLast hq,
      Option.toList_some, dropLast_append_getLast]

lemma vacant_eq_ok : t.vacant links p = .ok q ↔ t.locate links p = .ok q ∧ t q = none := by
  unfold vacant
  cases t.locate links p with
  | error e => exact iff_of_false nofun nofun
  | ok place =>
    change (match t place with
      | none => Except.ok place
      | some _ => Except.error Errno.alreadyExists) = Except.ok q ↔ _
    constructor
    · intro h
      split at h
      · cases h
        exact ⟨rfl, by assumption⟩
      · cases h
    · rintro ⟨h, hnone⟩
      cases h
      rw [hnone]

lemma lstat_eq_ok (h : t.locate links p = .ok q) (hnode : t q = some node) :
    t.lstat links p = .ok node := by simp only [lstat, h, bind, Except.bind, hnode]

lemma unlinkable_eq_ok : t.unlinkable links p = .ok q ↔
    t.locate links p = .ok q ∧ ∃ node, t q = some node ∧ node ≠ .dir := by
  unfold unlinkable
  cases t.locate links p with
  | error e => exact iff_of_false nofun nofun
  | ok place =>
    change (match t place with
      | none => Except.error Errno.noEntry
      | some .dir => Except.error Errno.isDirectory
      | some _ => Except.ok place) = Except.ok q ↔ _
    constructor
    · intro h
      split at h
      · cases h
      · cases h
      · rename_i node hdir hnode
        cases h
        exact ⟨rfl, node, hnode, hdir⟩
    · rintro ⟨h, node, hnode, hdir⟩
      cases h
      rw [hnode]
      cases node with
      | dir => exact absurd rfl hdir
      | file _ => rfl
      | link _ => rfl

lemma movable_eq_ok {source : Path} (h : t.movable links p q = .ok (node, source, place)) :
    t.unlinkable links p = .ok source ∧ t source = some node ∧ t.locate links q = .ok place ∧
      t place ≠ some .dir := by
  unfold movable at h
  cases hs : t.unlinkable links p with
  | error e => rw [hs] at h; cases h
  | ok source' =>
    cases hq : t.locate links q with
    | error e => rw [hs, hq] at h; cases h
    | ok place' =>
      rw [hs, hq] at h
      change (match t source', t place' with
        | none, _ => Except.error Errno.noEntry
        | some _, some .dir => Except.error Errno.isDirectory
        | some node, _ => Except.ok (node, source', place')) = _ at h
      split at h
      · cases h
      · cases h
      · rename_i hnode hdir
        cases h
        exact ⟨rfl, hnode, rfl, fun hp => hdir hp⟩

lemma extends_set (h : t place = none) (node : Option (Node C)) : t.Extends (t.set place node) := by
  intro q n hq
  rw [set, if_neg]
  · exact hq
  · rintro rfl
    rw [h] at hq
    cases hq

end Tree

end AppleUtils.Posix
