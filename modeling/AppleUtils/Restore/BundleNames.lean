import AppleUtils.Restore.Bundle

/-! # Names of a restore bundle

The names that staged files get differ from the names a bundle uses for itself, and the
configuration written for a switch names the files it was written for. -/

namespace AppleUtils.Restore

open Checks List

variable {path : Path} {name : Name} {x y : Name} {a b hash : Bytes}

/-! ### Hashes in names -/

lemma hexDigit_mem (n : ℕ) : hexDigit n ∈ "0123456789abcdef".toList := by
  rw [hexDigit, getD_eq_getElem?_getD]
  cases h : "0123456789abcdef".toList[n]? with
  | none => decide
  | some c => exact mem_of_getElem? h

lemma hexDigit_inj : ∀ m < 16, ∀ n < 16, hexDigit m = hexDigit n → m = n := by decide

lemma mem_hex {c : Char} (h : c ∈ hex b) : c ∈ "0123456789abcdef".toList := by
  obtain ⟨byte, -, hc⟩ := mem_flatMap.mp h
  rw [mem_cons, mem_singleton] at hc
  rcases hc with rfl | rfl <;> exact hexDigit_mem _

lemma hex_inj (h : hex a = hex b) : a = b := by
  induction a generalizing b with
  | nil =>
    cases b with
    | nil => rfl
    | cons y b => simp [hex] at h
  | cons x a ih =>
    cases b with
    | nil => simp [hex] at h
    | cons y b =>
      simp only [hex, flatMap_cons, cons_append, nil_append, cons.injEq] at h
      obtain ⟨hhigh, hlow, hrest⟩ := h
      have hx := x.isLt
      have hy := y.isLt
      have hhigh := hexDigit_inj _ (by omega) _ (by omega) hhigh
      have hlow := hexDigit_inj _ (by omega) _ (by omega) hlow
      have hbyte : x = y := BitVec.eq_of_toNat_eq (by omega)
      rw [hbyte, ih hrest]

/-! ### Names that are apart -/

/-- Neither name begins with the other. -/
def Apart (x y : Name) : Prop := ¬ x <+: y ∧ ¬ y <+: x

instance (x y : Name) : Decidable (Apart x y) := by
  unfold Apart
  infer_instance

lemma Apart.append_ne (h : Apart x y) (a b : Name) : x ++ a ≠ y ++ b := by
  intro heq
  have hbegins : x <+: y ++ b := heq ▸ prefix_append x a
  rcases prefix_or_prefix_of_prefix hbegins (prefix_append y b) with hx | hy
  · exact h.1 hx
  · exact h.2 hy

lemma Apart.path_ne (h : Apart x y) (a b : Name) : ([x ++ a] : Path) ≠ [y ++ b] := by
  intro heq
  exact h.append_ne a b (List.cons.inj heq).1

section Own

variable {t : Tools}

lemma configJson_eq : configJson = ["config.json".toList ++ []] := by decide

lemma receiptPath_ne_rollbackPath : receiptPath t a ≠ rollbackPath b :=
  Apart.path_ne (by decide) _ _

lemma receiptPath_ne_temporaryConfig : receiptPath t a ≠ temporaryConfig t b :=
  Apart.path_ne (by decide) _ _

lemma rollbackPath_ne_temporaryConfig : rollbackPath a ≠ temporaryConfig t b :=
  Apart.path_ne (by decide) _ _

lemma receiptPath_ne_config : receiptPath t a ≠ configJson := by
  rw [configJson_eq]
  exact Apart.path_ne (by decide) _ _

lemma rollbackPath_ne_config : rollbackPath a ≠ configJson := by
  rw [configJson_eq]
  exact Apart.path_ne (by decide) _ _

lemma temporaryConfig_ne_config : temporaryConfig t a ≠ configJson := by
  rw [configJson_eq]
  exact Apart.path_ne (by decide) _ _

lemma not_pending_of_apart (h : Apart ".restore-patch-stage-".toList y) (b : Name) :
    ¬ Pending [y ++ b] := by
  rintro ⟨nonce, -, hname⟩
  exact h.append_ne _ _ (Option.some.inj hname).symm

/-- The names of receipts tell the hashes. -/
lemma receiptPath_inj (h : receiptPath t a = receiptPath t b) : t.sha256 a = t.sha256 b := by
  have hname := append_cancel_left (List.cons.inj h).1
  exact hex_inj (append_cancel_right hname)

end Own

/-! ### Names of staged files -/

/-- There is a dot with an `s` after it. -/
def dotS : Name → Bool
  | '.' :: 's' :: _ => true
  | _ :: rest => dotS rest
  | [] => false

lemma dotS_append_of_ne (h : x.getLast? ≠ some '.') (y : Name) : dotS (x ++ y) = (dotS x || dotS y) := by
  induction x using dotS.induct with
  | case1 rest => rfl
  | case2 c rest hno ih =>
    cases rest with
    | nil =>
      have hc : c ≠ '.' := fun hc => h (congrArg some hc)
      simp [dotS, hc]
    | cons d rest =>
      have hrest : (d :: rest).getLast? ≠ some '.' := by rwa [getLast?_cons_cons] at h
      have hdot : ¬ (c = '.' ∧ d = 's') := by
        rintro ⟨rfl, rfl⟩
        exact hno rest rfl rfl
      have hstep (z : Name) : dotS (c :: d :: z) = dotS (d :: z) := by
        rw [dotS]
        rintro z' rfl heq
        cases heq
        exact hdot ⟨rfl, rfl⟩
      rw [cons_append, cons_append, hstep, hstep, ← cons_append, ih hrest]
  | case3 => rfl

lemma dotS_of_not_mem (h : '.' ∉ x) : dotS x = false := by
  induction x with
  | nil => rfl
  | cons c x ih =>
    rw [mem_cons, not_or] at h
    rw [dotS, ih h.2]
    rintro rest rfl _
    exact h.1 rfl

lemma dotS_mid (x y : Name) : dotS (x ++ '.' :: 's' :: y) = true := by
  induction x with
  | nil => rfl
  | cons c x ih =>
    rw [cons_append, dotS.eq_def]
    split <;> simp_all

lemma dotS_hex (b : Bytes) : dotS (hex b) = false ∧ (hex b).getLast? ≠ some '.' := by
  have hdot : '.' ∉ hex b := fun h => absurd (mem_hex h) (by decide)
  exact ⟨dotS_of_not_mem hdot, fun h => hdot (mem_of_getLast? h)⟩

lemma not_dotS_own (h : dotS x = false ∧ x.getLast? ≠ some '.') (hy : dotS y = false) :
    dotS (x ++ (hex b ++ y)) = false := by
  rw [dotS_append_of_ne h.2, dotS_append_of_ne (dotS_hex b).2, h.1, (dotS_hex b).1, hy]
  rfl

/-- The last name of the path is one that `stagedPathForHash` makes. -/
def StagedKey (path : Path) : Prop := ∃ name, path.getLast? = some name ∧ dotS name

namespace StagedKey

variable (h : StagedKey path)

include h

lemma ne_singleton (hname : dotS name = false) : path ≠ [name] := by
  rintro rfl
  obtain ⟨other, heq, hdot⟩ := h
  rw [← Option.some.inj (getLast?_singleton.symm.trans heq), hname] at hdot
  cases hdot

lemma ne_receiptPath (t : Tools) (b : Bytes) : path ≠ receiptPath t b :=
  h.ne_singleton (not_dotS_own (by decide) (by decide))

lemma ne_rollbackPath (b : Bytes) : path ≠ rollbackPath b :=
  h.ne_singleton (not_dotS_own (by decide) (by decide))

lemma ne_temporaryConfig (t : Tools) (b : Bytes) : path ≠ temporaryConfig t b :=
  h.ne_singleton (not_dotS_own (by decide) (by decide))

lemma ne_configJson : path ≠ configJson := h.ne_singleton (by decide)

lemma not_pending : ¬ Pending path := by
  rintro ⟨nonce, -, hnonce⟩
  obtain ⟨name, hname, hdot⟩ := h
  cases hnonce.symm.trans hname
  have hfalse := not_dotS_own (b := nonce) (y := []) (x := ".restore-patch-stage-".toList)
    (by decide) rfl
  rw [append_nil] at hfalse
  rw [hfalse] at hdot
  cases hdot

end StagedKey

/-! ### Components -/

lemma components_singleton (h : ¬ Blank name) : components [name] = [name] := by
  simp [components, h]

lemma components_rdropWhile (path : Path) :
    components (path.rdropWhile (Blank ·)) = components path := by
  induction path using reverseRecOn with
  | nil => rfl
  | append_singleton path part ih =>
    by_cases hblank : Blank part
    · rw [rdropWhile_concat_pos _ _ _ (by simpa using hblank), ih]
      simp [components, hblank]
    · rw [rdropWhile_concat_neg _ _ _ (by simpa using hblank)]

/-- A path with another file name. -/
lemma components_withFileName (h : ¬ Blank name) (path : Path) :
    components (withFileName path name) = (components path).dropLast ++ [name] := by
  have hinit : components (path.rdropWhile (Blank ·)).dropLast = (components path).dropLast := by
    rw [← components_rdropWhile path]
    induction path using reverseRecOn with
    | nil => rfl
    | append_singleton path part ih =>
      by_cases hblank : Blank part
      · rw [rdropWhile_concat_pos _ _ _ (by simpa using hblank), ih]
      · rw [rdropWhile_concat_neg _ _ _ (by simpa using hblank), dropLast_concat]
        simp [components, hblank]
  have hname : components [name] = [name] := components_singleton h
  simp only [components] at hinit hname ⊢
  rw [withFileName, filter_append, hname]
  exact congrArg (· ++ [name]) ((components_rdropWhile _).trans hinit)

/-! ### Paths as texts -/

/-- Paths that come from a text. -/
structure Textual (path : Path) : Prop where
  nonempty : path ≠ []
  plain : ∀ part ∈ path, '/' ∉ part

lemma textual_parts (text : Name) : Textual (parts text) := by
  induction text with
  | nil => exact ⟨by simp [parts], by simp [parts]⟩
  | cons c text ih =>
    unfold parts
    split_ifs with hc
    · exact ⟨by simp, forall_mem_cons.mpr ⟨by simp, ih.plain⟩⟩
    · obtain ⟨part, rest, hparts⟩ := exists_cons_of_ne_nil ih.nonempty
      have hplain := ih.plain
      rw [hparts, forall_mem_cons] at hplain
      rw [hparts, modifyHead_cons]
      refine ⟨by simp, forall_mem_cons.mpr ⟨?_, hplain.2⟩⟩
      rw [mem_cons, not_or]
      exact ⟨fun h => hc h.symm, hplain.1⟩

lemma parts_append (h : '/' ∉ name) (rest : Name) :
    parts (name ++ rest) = (parts rest).modifyHead (name ++ ·) := by
  induction name with
  | nil =>
    obtain ⟨part, others, hparts⟩ := exists_cons_of_ne_nil (textual_parts rest).nonempty
    simp [hparts]
  | cons c name ih =>
    rw [mem_cons, not_or] at h
    rw [cons_append, parts, if_neg (fun hc => h.1 hc.symm), ih h.2]
    obtain ⟨part, others, hparts⟩ := exists_cons_of_ne_nil (textual_parts rest).nonempty
    simp [hparts]

lemma parts_text (h : Textual path) : parts (text path) = path := by
  obtain ⟨hne, hplain⟩ := h
  induction path using text.induct with
  | case1 => exact absurd rfl hne
  | case2 part =>
    have hpart := parts_append (hplain part mem_cons_self) []
    rw [append_nil] at hpart
    simpa [text, parts] using hpart
  | case3 part path hpath ih =>
    have hne' : path ≠ [] := fun h => hpath h
    rw [text.eq_3 _ _ hpath, parts_append (hplain part mem_cons_self), parts, if_pos rfl,
      ih hne' (fun part hpart => hplain part (mem_cons_of_mem _ hpart))]
    simp

/-! ### Staged paths -/

lemma splitAtDot_length (name : Name) :
    (splitAtDot name).1.length + ((splitAtDot name).2.elim [] ('.' :: ·)).length ≥ name.length := by
  unfold splitAtDot
  simp only
  split_ifs with h
  · simp
  · rw [not_or] at h
    have hafter : (name.rtakeWhile (· ≠ '.')).length ≤ name.length := by
      have := rtakeWhile_suffix (p := (· ≠ '.')) name
      exact this.length_le
    simp only [Option.elim, length_take, length_cons]
    omega

lemma splitAtDot_plain (h : '/' ∉ name) :
    '/' ∉ (splitAtDot name).1 ∧ '/' ∉ (splitAtDot name).2.elim [] ('.' :: ·) := by
  unfold splitAtDot
  simp only
  split_ifs
  · exact ⟨h, by simp⟩
  · refine ⟨fun hmem => h (mem_of_mem_take hmem), ?_⟩
    simp only [Option.elim, mem_cons, not_or]
    exact ⟨by decide, fun hmem => h ((rtakeWhile_suffix _ _).subset hmem)⟩

lemma stagedName_eq (name : Name) (hash : Bytes) : ∃ rest, stagedName name hash =
    (splitAtDot name).1 ++ '.' :: 's' :: rest := ⟨_, rfl⟩

lemma dotS_stagedName (name : Name) (hash : Bytes) : dotS (stagedName name hash) := by
  obtain ⟨rest, heq⟩ := stagedName_eq name hash
  rw [heq]
  exact dotS_mid _ _

lemma not_blank_of_dotS (h : dotS name) : ¬ Blank name := by
  rintro (rfl | rfl) <;> cases h

lemma length_stagedName (name : Name) (hash : Bytes) :
    name.length < (stagedName name hash).length := by
  have := splitAtDot_length name
  simp only [stagedName, length_append]
  have : ".skip-tcon-".toList.length = 11 := by decide
  omega

lemma stagedName_plain (h : '/' ∉ name) (hash : Bytes) : '/' ∉ stagedName name hash := by
  obtain ⟨hstem, hsuffix⟩ := splitAtDot_plain h
  simp only [stagedName, mem_append, not_or]
  exact ⟨hstem, by decide, fun hmem => absurd (mem_hex hmem) (by decide), hsuffix⟩

lemma withFileName_textual (h : Textual path) (hname : '/' ∉ name) : Textual (withFileName path name) := by
  refine ⟨by simp [withFileName], ?_⟩
  intro part hpart
  rw [withFileName, mem_append, mem_singleton] at hpart
  rcases hpart with hpart | rfl
  · have hkept := IsPrefix.subset ( rdropWhile_prefix _ _) hpart
    have hparent := IsPrefix.subset ( dropLast_prefix _) hkept
    exact h.plain part (IsPrefix.subset ( rdropWhile_prefix _ _) hparent)
  · exact hname

/-- What is known of a staged path. -/
structure StagedFrom (original path : Path) : Prop where
  key : StagedKey (components path)
  longer : components path ≠ components original
  textual : Textual original → Textual path

lemma stagedFrom_of_ok {original : Path} (h : stagedPathForHash original hash = .ok path) :
    StagedFrom original path := by
  unfold stagedPathForHash at h
  split at h
  · cases h
  · next name hlast =>
    cases h
    have hdot := dotS_stagedName name hash
    have hcomponents := components_withFileName (not_blank_of_dotS hdot) original
    refine ⟨⟨stagedName name hash, by rw [hcomponents, getLast?_concat], hdot⟩, ?_, ?_⟩
    · intro heq
      rw [hcomponents] at heq
      have hname : some (stagedName name hash) = some name := by
        rw [← hlast, ← heq, getLast?_concat]
      have := length_stagedName name hash
      rw [Option.some.inj hname] at this
      exact absurd this (lt_irrefl _)
    · intro htext
      have hmem : name ∈ original := (mem_filter.mp (mem_of_getLast? hlast)).1
      exact withFileName_textual htext (stagedName_plain (htext.plain name hmem) hash)

/-! ### Configurations -/

namespace Value

lemma field?_set_ne {key other : Name} (h : other ≠ key) (new value : Value) (keys : Pointer) :
    (set new (key :: keys) value).field? other = value.field? other := by
  cases value with
  | object fields =>
    simp only [set, field?, find?_map]
    induction fields with
    | nil => rfl
    | cons field fields ih =>
      by_cases hkey : field.1 = key
      · have hother : field.1 ≠ other := fun heq => h (heq ▸ hkey)
        simpa [find?_cons, hkey, h.symm, hother] using ih
      · by_cases hother : field.1 = other
        · simp [hother, h]
        · simpa [find?_cons, hkey, hother] using ih
  | _ => rfl

lemma field?_set (key : Name) (new value : Value) (keys : Pointer) :
    (set new (key :: keys) value).field? key = (value.field? key).map (set new keys) := by
  cases value with
  | object fields =>
    simp only [set, field?, find?_map]
    induction fields with
    | nil => rfl
    | cons field fields ih =>
      by_cases hkey : field.1 = key
      · simp [hkey]
      · simpa [find?_cons, hkey] using ih
  | _ => rfl

lemma pointer_set {keys : Pointer} {value old : Value} (h : value.pointer keys = some old) (new : Value) :
    (set new keys value).pointer keys = some new := by
  induction keys generalizing value with
  | nil => rfl
  | cons key keys ih =>
    obtain ⟨inner, hinner, hold⟩ := Option.bind_eq_some_iff.mp h
    rw [pointer, field?_set, hinner]
    exact ih hold

lemma pointer_set_ne {key other : Name} (h : other ≠ key) (new value : Value) (keys others : Pointer) :
    (set new (key :: keys) value).pointer (other :: others) = value.pointer (other :: others) := by
  rw [pointer, pointer, field?_set_ne h]

end Value

variable {t : Tools} {config : Bytes} {value value' : Value} {pointer : Pointer}

lemma configuredPath_eq_ok : configuredPath value pointer = .ok path ↔
    ∃ text, value.pointer pointer = some (.string text) ∧ parts text = path ∧
      ∃ names, relativeComponents path = .ok names := by
  unfold configuredPath
  split
  · next text htext =>
    simp only [returns, htext, Option.some.injEq, Value.string.injEq]
    constructor
    · rintro ⟨names, hnames, rfl⟩
      exact ⟨text, rfl, rfl, names, hnames⟩
    · rintro ⟨_, rfl, rfl, names, hnames⟩
      exact ⟨names, hnames, rfl⟩
  · next hno =>
    simp only [reduceCtorEq, false_iff]
    rintro ⟨text, htext, -⟩
    exact hno text htext

lemma mapError_eq_ok {x : Except String Value} {f : String → String} :
    x.mapError f = .ok value ↔ x = .ok value := by
  cases x <;> simp [Except.mapError]

variable {what : String} {media cache : Path}

lemma configuredPaths_eq_ok : configuredPaths t what config = .ok (media, cache) ↔
    ∃ value, t.parseJson config = .ok value ∧ configuredPath value mediaPointer = .ok media ∧
      configuredPath value cachePointer = .ok cache := by
  simp only [configuredPaths, returns, mapError_eq_ok, Prod.mk.injEq]
  constructor
  · rintro ⟨value, hvalue, _, hmedia, _, hcache, rfl, rfl⟩
    exact ⟨value, hvalue, hmedia, hcache⟩
  · rintro ⟨value, hvalue, hmedia, hcache⟩
    exact ⟨value, hvalue, media, hmedia, cache, hcache, rfl, rfl⟩

/-- The label is only for errors. -/
lemma configuredPaths_label (h : configuredPaths t what config = .ok (media, cache)) (what' : String) :
    configuredPaths t what' config = .ok (media, cache) :=
  configuredPaths_eq_ok.mpr (configuredPaths_eq_ok.mp h)

lemma configuredPaths_textual (h : configuredPaths t what config = .ok (media, cache)) :
    Textual media ∧ Textual cache := by
  obtain ⟨value, -, hmedia, hcache⟩ := configuredPaths_eq_ok.mp h
  obtain ⟨_, -, rfl, -⟩ := configuredPath_eq_ok.mp hmedia
  obtain ⟨_, -, rfl, -⟩ := configuredPath_eq_ok.mp hcache
  exact ⟨textual_parts _, textual_parts _⟩

lemma switchPath_eq_ok : switchPath value pointer path = .ok value' ↔
    (∃ names, relativeComponents path = .ok names) ∧
      (∃ old, value.pointer pointer = some (.string old)) ∧
      Value.set (.string (text path)) pointer value = value' := by
  simp only [switchPath, bind_eq_ok]
  constructor
  · rintro ⟨names, hnames, h⟩
    split at h
    · cases h
    · next old hold =>
      cases h
      exact ⟨⟨names, hnames⟩, ⟨old, hold⟩, rfl⟩
    · cases h
  · rintro ⟨⟨names, hnames⟩, ⟨old, hold⟩, rfl⟩
    exact ⟨names, hnames, by rw [hold]; rfl⟩

/-- What is assumed of the functions on bytes.  A printed receipt is read back.  Where the text of a
configuration is read, changed at the two pointers and printed, reading it again finds the strings
that it has.  No text with a media path is also restore media or a trust cache, which are DER.
Media with a replaced executable has that executable. -/
structure Tools.Lawful (t : Tools) : Prop where
  receipts : ∀ receipt, t.parseReceipt (t.printReceipt receipt) = .ok receipt
  json : ∀ config value media cache, t.parseJson config = .ok value →
    let switched := Value.set (.string cache) cachePointer (Value.set (.string media) mediaPointer value)
    ∃ value', t.parseJson (t.printJson switched ++ [0x0A]) = .ok value' ∧
      ∀ pointer text, switched.pointer pointer = some (.string text) →
        value'.pointer pointer = some (.string text)
  notMedia : ∀ config value text executable, t.parseJson config = .ok value →
    value.pointer mediaPointer = some (.string text) → t.restoredExternal config ≠ .ok executable
  notCache : ∀ config value text executable prepared, t.parseJson config = .ok value →
    value.pointer mediaPointer = some (.string text) →
    t.prepareSkipTcon executable config ≠ .ok prepared
  replaced : ∀ media executable media', t.replaceExecutable media executable = .ok media' →
    t.restoredExternal media' = .ok executable

/-- A switched configuration names the paths it was switched to. -/
lemma Tools.Lawful.switched (hlaw : t.Lawful) {replacement : Bytes} (hmedia : Textual media)
    (hcache : Textual cache) (h : switchedConfig t config media cache = .ok replacement)
    (what : String) : configuredPaths t what replacement = .ok (media, cache) := by
  simp only [switchedConfig, returns, mapError_eq_ok, switchPath_eq_ok] at h
  obtain ⟨value, hvalue, _, ⟨hnames, ⟨_, hold⟩, rfl⟩, _, ⟨hnames', ⟨_, hold'⟩, rfl⟩, rfl⟩ := h
  obtain ⟨value', hparse, hstrings⟩ := hlaw.json _ _ (text media) (text cache) hvalue
  refine configuredPaths_eq_ok.mpr ⟨value', hparse, configuredPath_eq_ok.mpr ?_,
    configuredPath_eq_ok.mpr ?_⟩
  · refine ⟨text media, hstrings _ _ ?_, parts_text hmedia, hnames⟩
    rw [mediaPointer, cachePointer, Value.pointer_set_ne (by decide)]
    exact Value.pointer_set hold _
  · exact ⟨text cache, hstrings _ _ (Value.pointer_set hold' _), parts_text hcache, hnames'⟩

/-- Bytes that name restore media are neither restore media nor a trust cache. -/
lemma Tools.Lawful.apart (hlaw : t.Lawful) (h : configuredPaths t what config = .ok (media, cache))
    (executable : Bytes) : (∀ found, t.restoredExternal config ≠ .ok found) ∧
      ∀ p, t.prepareSkipTcon executable config ≠ .ok p := by
  obtain ⟨value, hvalue, hmedia, -⟩ := configuredPaths_eq_ok.mp h
  obtain ⟨text, htext, -⟩ := configuredPath_eq_ok.mp hmedia
  exact ⟨fun found => hlaw.notMedia _ _ _ _ hvalue htext,
    fun p => hlaw.notCache _ _ _ _ _ hvalue htext⟩

end AppleUtils.Restore
