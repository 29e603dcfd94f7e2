import AppleUtils.Image.GuestWrite

/-! # Reading what was written

The explorer should read back what it wrote.  On a raw file it does.  On a qcow2 image it reads
through the first-level table it has had since it opened the image, while a write to a part of the
disc that has no second-level table yet puts a new table on file: the explorer still reads zeros
there (`new_table_not_seen`).  `reads_see_writes` is the property for a well-formed image and writes
to clusters that are allocated; the tables then stay as they are, and a write changes just the
bytes of the file that hold the bytes of the disc it is for. -/

namespace AppleUtils.Image

open Bytes Checks List Qcow2File DiskBackend

section Runs

variable [FileSystem]

/-! ### Files that agree -/

section Agree

variable {F F' : Bytes} {S : ℕ → Prop} {offset n : ℕ}

/-- Two files of one length with the same bytes where `S` says. -/
def Agree (S : ℕ → Prop) (F F' : Bytes) : Prop :=
  F'.length = F.length ∧ ∀ pos, S pos → F'[pos]? = F[pos]?

omit [FileSystem] in
lemma Agree.slice (h : Agree S F F') (hS : ∀ i < n, S (offset + i)) : F'.slice offset n = F.slice offset n :=
  slice_ext fun i hi => h.2 _ (hS i hi)

lemma Agree.readExact (h : Agree S F F') (hS : ∀ i < n, S (offset + i)) :
    readExact F' offset n = readExact F offset n := by rw [Image.readExact, Image.readExact, h.1, h.slice hS]

omit [FileSystem] in
lemma Agree.beAt (h : Agree S F F') (hS : ∀ i < n, S (offset + i)) :
    beAt n F' offset = beAt n F offset := by rw [Bytes.beAt, Bytes.beAt, h.slice hS]

end Agree

lemma readExact_eq {file bytes : Bytes} {offset n : ℕ} (h : readExact file offset n = .ok bytes) :
    bytes = file.slice offset n := by
  unfold readExact at h
  split_ifs at h
  cases h
  rfl

omit [FileSystem] in
lemma beAt_header {file header : Bytes} {i n m : ℕ} (h : header = file.slice 0 m)
    (hi : i + n ≤ m) : beAt n header i = beAt n file i := by rw [beAt, h, slice_slice hi, zero_add, beAt]

/-! ### Well-formed images -/

namespace Qcow2File

variable {q : Qcow2File} {F F' : Bytes} {guest pos p p' a offset n : ℕ} {data : Bytes}
    {l2Off : ℕ} {w w' : Qcow2} {host turns : ℕ}

/-- Where the header says the first-level table is. -/
def l1Offset (q : Qcow2File) : ℕ := beAt 8 q.file 40

/-- The bytes of the file that the reader takes for the header and the tables. -/
def Table (q : Qcow2File) (pos : ℕ) : Prop :=
  pos < 104 ∨ (q.l1Offset ≤ pos ∧ pos < q.l1Offset + q.l1.length * 8) ∨
    ∃ l2Off ∈ q.l1, l2Off ≠ 0 ∧ l2Off ≤ pos ∧ pos < l2Off + q.l2Entries * 8

/-- Where the file holds a byte of the disc. -/
def address (q : Qcow2File) (pos : ℕ) : Option ℕ :=
  (q.l2Entry (pos / q.cluster)).bind fun entry =>
    if hostOffset entry = 0 then none else some (hostOffset entry + pos % q.cluster)

/-- The tables lie in the file, their entries have no flags but the copied one, and each byte of the
disc that has a place in the file has one of its own, outside the tables. -/
structure WellFormed (q : Qcow2File) : Prop where
  opened : Qcow2File.open q.file = .ok q
  tables : ∀ l2Off ∈ q.l1, l2Off ≠ 0 → l2Off + q.l2Entries * 8 ≤ q.file.length
  complete : ∀ pos < q.virtualSize, pos / q.cluster / q.l2Entries < q.l1.length
  entries : ∀ guest entry, q.l2Entry guest = some entry → entry % 2 ^ 63 = hostOffset entry
  apart : ∀ pos a, q.address pos = some a → a < q.file.length ∧ ¬ q.Table a
  injective : ∀ pos pos' a, q.address pos = some a → q.address pos' = some a → pos = pos'

lemma cluster_eq (h : Qcow2File.open F = .ok q) : ∃ bits, 9 ≤ bits ∧ q.cluster = 2 ^ bits := by
  simp only [Qcow2File.open, returns] at h
  obtain ⟨header, -, _, -, _, -, _, -, _, hbits, _, -, raw, -, rfl⟩ := h
  exact ⟨_, (not_not.mp hbits).1, rfl⟩

lemma l2Entries_pos (h : Qcow2File.open F = .ok q) : 0 < q.l2Entries := by
  obtain ⟨bits, hbits, hcluster⟩ := cluster_eq h
  rw [l2Entries, hcluster]
  have : 2 ^ 9 ≤ 2 ^ bits := Nat.pow_le_pow_right (by decide) hbits
  omega

/-- A file that agrees on the header and the tables opens the same way. -/
lemma open_agree (hopen : Qcow2File.open F = .ok q) (h : Agree q.Table F F') :
    Qcow2File.open F' = .ok { q with file := F' } := by
  simp only [Qcow2File.open, bind_eq_ok, pure_eq_ok] at hopen
  obtain ⟨header, hheader, _, hmagic, _, hversion, _, hext, _, hbits, _, hseek, raw, hraw, rfl⟩ := hopen
  have hl1 : beAt 8 header 40 = beAt 8 F 40 := beAt_header (readExact_eq hheader) (by decide)
  have hextension : readExtension F' (beAt 4 header 4) = readExtension F (beAt 4 header 4) := by
    unfold readExtension
    split_ifs
    · exact h.readExact fun i hi => .inl (by omega)
    · rfl
  simp only [Qcow2File.open, bind_eq_ok, pure_eq_ok]
  refine ⟨header, ?_, _, hmagic, _, hversion, _, hextension.trans hext, _, hbits, _, hseek, raw, ?_, rfl⟩
  · rw [h.readExact fun i hi => .inl (by omega), hheader]
  · rw [h.readExact fun i hi => ?_, hraw]
    refine .inr (.inl ?_)
    simp only [l1Offset, length_map, length_range, ← hl1]
    omega

section Agree

variable (hq : q.WellFormed) (h : Agree q.Table q.file F')

include hq h

lemma l2Entry_agree (guest : ℕ) : l2Entry { q with file := F' } guest = q.l2Entry guest := by
  have hpos := l2Entries_pos hq.opened
  have hlt := Nat.mod_lt guest hpos
  simp only [l2Entry, l2Entries] at hlt ⊢
  cases hl1 : q.l1[guest / (q.cluster / 8)]? with
  | none => rfl
  | some l2Off =>
    simp only [Option.bind_some, h.1]
    by_cases hzero : l2Off = 0
    · rw [if_pos hzero, if_pos hzero]
    · have hbe : beAt 8 F' (l2Off + guest % (q.cluster / 8) * 8) =
          beAt 8 q.file (l2Off + guest % (q.cluster / 8) * 8) := by
        refine h.beAt fun i hi => .inr (.inr ⟨l2Off, mem_of_getElem? hl1, hzero, ?_⟩)
        rw [l2Entries]
        omega
      simp only [hbe]
      rfl

lemma address_agree (pos : ℕ) : address { q with file := F' } pos = q.address pos := by
  unfold address
  rw [l2Entry_agree hq h]

omit hq in
omit [FileSystem] in
lemma table_agree (pos : ℕ) : Table { q with file := F' } pos ↔ q.Table pos := by
  have hl1 : l1Offset { q with file := F' } = q.l1Offset := h.beAt fun i hi => .inl (by omega)
  unfold Table
  rw [hl1]
  rfl

lemma wellFormed_agree : WellFormed { q with file := F' } where
  opened := open_agree hq.opened h
  tables := by
    intro l2Off hl2 hzero
    change _ ≤ F'.length
    rw [h.1]
    exact hq.tables l2Off hl2 hzero
  complete := hq.complete
  entries := by
    intro guest entry hentry
    rw [l2Entry_agree hq h] at hentry
    exact hq.entries guest entry hentry
  apart := by
    intro pos a ha
    rw [address_agree hq h] at ha
    rw [table_agree h, h.1]
    exact hq.apart pos a ha
  injective := by
    intro pos pos' a ha ha'
    rw [address_agree hq h] at ha ha'
    exact hq.injective pos pos' a ha ha'

end Agree

/-! ### Host clusters -/

/-- The host cluster of a guest cluster, zero if it has none. -/
def hostFor (q : Qcow2File) (guest : ℕ) : ℕ := ((q.l2Entry guest).map hostOffset).getD 0

omit [FileSystem] in
lemma address_eq (q : Qcow2File) (pos : ℕ) : q.address pos = if q.hostFor (pos / q.cluster) = 0 then none
    else some (q.hostFor (pos / q.cluster) + pos % q.cluster) := by
  unfold address hostFor
  cases q.l2Entry (pos / q.cluster) <;> simp

lemma l2Entry_table (hq : q.WellFormed) (hl1 : q.l1[guest / q.l2Entries]? = some l2Off) (hzero : l2Off ≠ 0) :
    q.l2Entry guest = some (beAt 8 q.file (l2Off + guest % q.l2Entries * 8)) := by
  have htable := hq.tables l2Off (mem_of_getElem? hl1) hzero
  have hlt := Nat.mod_lt guest (l2Entries_pos hq.opened)
  rw [l2Entry, hl1, Option.bind_some, if_neg hzero, if_pos (by omega)]

lemma withoutFlags_eq (hq : q.WellFormed) {entry : ℕ} (h : q.l2Entry guest = some entry) :
    Qcow2.withoutFlags entry = hostOffset entry := by
  have hentry := hq.entries guest entry h
  have hsmall : hostOffset entry < 2 ^ 56 := by
    unfold hostOffset
    omega
  unfold Qcow2.withoutFlags
  omega

/-- The second-level table at an offset of the file. -/
def tableAt (q : Qcow2File) (l2Off : ℕ) : List ℕ :=
  (List.range q.l2Entries).map fun i => beAt 8 q.file (l2Off + i * 8)

lemma getD_tableAt (hq : q.WellFormed) (hl1 : q.l1[guest / q.l2Entries]? = some l2Off) (hzero : l2Off ≠ 0) :
    Qcow2.withoutFlags ((q.tableAt l2Off).getD (guest % q.l2Entries) 0) = q.hostFor guest := by
  have hlt := Nat.mod_lt guest (l2Entries_pos hq.opened)
  have hentry := l2Entry_table hq hl1 hzero
  have hget : (q.tableAt l2Off).getD (guest % q.l2Entries) 0 =
      beAt 8 q.file (l2Off + guest % q.l2Entries * 8) := by simp [tableAt, getD_eq_getElem?_getD, hlt]
  rw [hget, withoutFlags_eq hq hentry, hostFor, hentry]
  rfl

/-- The handle is one on the same image, and the tables it keeps are those on file. -/
structure Follows (q : Qcow2File) (w : Qcow2) : Prop where
  file : w.file = q.file
  virtualSize : w.virtualSize = q.virtualSize
  cluster : w.cluster = q.cluster
  l1 : w.l1 = q.l1
  cache : ∀ k table, w.l2Cache.lookup k = some table →
    ∃ l2Off, q.l1[k]? = some l2Off ∧ l2Off ≠ 0 ∧ table = q.tableAt l2Off

namespace Follows

variable (h : q.Follows w)

include h

omit [FileSystem] in
lemma l2Entries : w.l2Entries = q.l2Entries := by rw [Qcow2.l2Entries, h.cluster, Qcow2File.l2Entries]

lemma loadL2 {k : ℕ} {table : List ℕ} (hl1 : q.l1[k]? = some l2Off) (hzero : l2Off ≠ 0)
    (hload : w.loadL2 k l2Off = .ok (table, w')) : q.Follows w' ∧ table = q.tableAt l2Off := by
  unfold Qcow2.loadL2 at hload
  split at hload
  · next cached hcached =>
    cases hload
    obtain ⟨l2Off', hl1', -, htable⟩ := h.cache k _ hcached
    cases hl1.symm.trans hl1'
    exact ⟨h, htable⟩
  · simp only [returns, Prod.mk.injEq] at hload
    obtain ⟨_, -, raw, hraw, htable, rfl⟩ := hload
    have htableAt : table = q.tableAt l2Off := by
      rw [← htable, readExact_eq hraw, h.file, h.l2Entries, beTable, tableAt]
      refine map_congr_left fun i hi => ?_
      rw [beAt, slice_slice (by have := mem_range.mp hi; omega), beAt]
    refine ⟨⟨h.file, h.virtualSize, h.cluster, h.l1, ?_⟩, htableAt⟩
    intro k' table' hlookup
    rw [Qcow2.insertL2, lookup_cons] at hlookup
    split at hlookup
    · next heq =>
      cases hlookup
      rw [beq_iff_eq] at heq
      exact ⟨l2Off, heq ▸ hl1, hzero, htable.trans htableAt⟩
    · exact h.cache k' table' hlookup

lemma lookupHost (hq : q.WellFormed)
    (hlookup : w.lookupHost guest = .ok (host, w')) : q.Follows w' ∧ host = q.hostFor guest := by
  unfold Qcow2.lookupHost at hlookup
  rw [h.l1, h.l2Entries] at hlookup
  split at hlookup
  · next hl1 =>
    cases hlookup
    exact ⟨h, by rw [hostFor, l2Entry, hl1]; rfl⟩
  · next l2Off hl1 =>
    split_ifs at hlookup with hzero
    · cases hlookup
      refine ⟨h, ?_⟩
      rw [hostFor, l2Entry, hl1, Option.bind_some, if_pos hzero]
      rfl
    · simp only [returns, Prod.mk.injEq] at hlookup
      obtain ⟨⟨table, w''⟩, hload, hhost, rfl⟩ := hlookup
      obtain ⟨hfollows, rfl⟩ := h.loadL2 hl1 hzero hload
      refine ⟨hfollows, ?_⟩
      rw [← hhost, hfollows.l2Entries]
      exact getD_tableAt hq hl1 hzero

lemma hostClusterForWrite (hq : q.WellFormed) (hmapped : q.hostFor guest ≠ 0)
    (hwrite : w.hostClusterForWrite guest = .ok (host, w')) : q.Follows w' ∧ host = q.hostFor guest := by
  obtain ⟨l2Off, hl1, hzero⟩ : ∃ l2Off, q.l1[guest / q.l2Entries]? = some l2Off ∧ l2Off ≠ 0 := by
    rw [hostFor, l2Entry] at hmapped
    cases hl1 : q.l1[guest / q.l2Entries]? with
    | none => simp [hl1] at hmapped
    | some l2Off =>
      refine ⟨l2Off, rfl, fun hzero => hmapped ?_⟩
      rw [hl1, Option.bind_some, if_pos hzero]
      rfl
  have hensure : w.ensureL2 (guest / q.l2Entries) = .ok (l2Off, w) := by
    rw [Qcow2.ensureL2, h.l1, hl1]
    exact if_pos hzero
  simp only [Qcow2.hostClusterForWrite, h.l2Entries, bind_eq_ok] at hwrite
  obtain ⟨⟨l2Off', w1⟩, hensure', ⟨table, w2⟩, hload, hwrite⟩ := hwrite
  cases hensure.symm.trans hensure'
  obtain ⟨hfollows, rfl⟩ := h.loadL2 hl1 hzero hload
  rw [getD_tableAt hq hl1 hzero] at hwrite
  simp only [ne_eq, hmapped, not_false_eq_true, if_true, pure_eq_ok, Prod.mk.injEq] at hwrite
  obtain ⟨hhost, rfl⟩ := hwrite
  exact ⟨hfollows, hhost.symm⟩

end Follows

/-! ### Runs of clusters -/

/-- The bytes of a write from `lo` to `hi` lie one after the other in the file, from `base` on. -/
def Contiguous (q : Qcow2File) (offset base lo hi : ℕ) : Prop :=
  ∀ d, lo ≤ d → d < hi → q.address (offset + d) = some (base + (d - lo))

omit [FileSystem] in
lemma address_of_host (hhost : q.hostFor (pos / q.cluster) = host) (hzero : host ≠ 0) :
    q.address pos = some (host + pos % q.cluster) := by rw [address_eq, hhost, if_neg hzero]

omit [FileSystem] in
lemma address_in_cluster {i : ℕ} (hhost : q.hostFor (pos / q.cluster) = host) (hzero : host ≠ 0)
    (hi : i < q.cluster - pos % q.cluster) : q.address (pos + i) = some (host + pos % q.cluster + i) := by
  have hstart : q.Starts pos pos := .inl rfl
  obtain ⟨hdiv, hmod, -⟩ := start_eq hstart hi
  rw [address_of_host (hdiv ▸ hhost) hzero, hmod, add_assoc]

lemma extendRun_spec (hq : q.WellFormed) {lo last last' base expected len : ℕ}
    (h : q.Follows w) (hlo : lo ≤ last) (hlen : last ≤ len)
    (hrun : q.Contiguous offset base lo last) (hnext : last < len → (offset + last) % q.cluster = 0 ∧
      guest = (offset + last) / q.cluster ∧ expected = base + (last - lo) ∧ expected ≠ 0)
    (hok : Qcow2.extendRun offset len turns w last guest expected = .ok (last', w')) :
    q.Follows w' ∧ last ≤ last' ∧ last' ≤ len ∧ q.Contiguous offset base lo last' := by
  have hc := cluster_pos hq.opened
  induction turns generalizing w last guest expected with
  | zero => cases hok
  | succ turns ih =>
    rw [Qcow2.extendRun] at hok
    split_ifs at hok with hmore
    · obtain ⟨⟨host, w1⟩, hlookup, hok⟩ := bind_eq_ok.mp hok
      obtain ⟨hfollows, hhost⟩ := h.lookupHost hq hlookup
      dsimp only at hok
      split_ifs at hok with hsame
      · cases hok
        exact ⟨hfollows, le_rfl, hlen, hrun⟩
      · -- the next cluster follows on
        obtain ⟨hzero, hguest, hexpected, hne⟩ := hnext hmore.1
        rw [hfollows.cluster] at hok
        have hcluster : q.hostFor ((offset + last) / q.cluster) = expected := by
          rw [← hguest, ← hhost]
          exact not_not.mp hsame
        have hrun' : q.Contiguous offset base lo (last + min q.cluster (len - last)) := by
          intro d hd hd'
          by_cases hold : d < last
          · exact hrun d hd hold
          · have hin := address_in_cluster (i := d - last) hcluster hne (by omega)
            rw [hzero] at hin
            rw [show offset + d = offset + last + (d - last) by omega, hin]
            congr 1
            omega
        have hstep := ih hfollows (by omega) (by omega) hrun' ?_ hok
        · exact ⟨hstep.1, by omega, hstep.2.2⟩
        · intro hlt
          have hfull : min q.cluster (len - last) = q.cluster := min_eq_left (by omega)
          rw [hfull, ← add_assoc, Nat.add_mod_right, Nat.add_div_right _ hc, hguest]
          exact ⟨hzero, rfl, by omega, by omega⟩
    · cases hok
      exact ⟨h, le_rfl, hlen, hrun⟩

/-! ### Writes to allocated clusters -/

/-- The file with the bytes `lo` to `hi` of a write in their places. -/
structure Overlaid (q : Qcow2File) (offset : ℕ) (data : Bytes) (lo hi : ℕ) (F' : Bytes) : Prop where
  length : F'.length = q.file.length
  other : ∀ a, (∀ d, lo ≤ d → d < hi → q.address (offset + d) ≠ some a) → F'[a]? = q.file[a]?
  written : ∀ d a, lo ≤ d → d < hi → q.address (offset + d) = some a → F'[a]? = data[d]?

namespace Overlaid

variable {lo mid hi : ℕ} {F₁ F₂ : Bytes}

lemma agree (hq : q.WellFormed) (h : q.Overlaid offset data lo hi F') : Agree q.Table q.file F' := by
  refine ⟨h.length, fun a ha => h.other a ?_⟩
  intro d _ _ haddress
  exact (hq.apart _ a haddress).2 ha

lemma trans (hq : q.WellFormed) (hlo : lo ≤ mid) (hhi : mid ≤ hi) (h₁ : q.Overlaid offset data lo mid F₁)
    (h₂ : Overlaid { q with file := F₁ } offset data mid hi F₂) :
    q.Overlaid offset data lo hi F₂ where
  length := h₂.length.trans h₁.length
  other := by
    intro a ha
    rw [h₂.other a ?_]
    · exact h₁.other a fun d hd hd' => ha d hd (by omega)
    · intro d hd hd'
      rw [address_agree hq (h₁.agree hq)]
      exact ha d (by omega) hd'
  written := by
    intro d a hd hd' haddress
    by_cases hold : d < mid
    · rw [h₂.other a ?_]
      · exact h₁.written d a hd hold haddress
      · -- no later byte has the place of an earlier one
        intro d' hmid _ hsame
        rw [address_agree hq (h₁.agree hq)] at hsame
        have := hq.injective _ _ a haddress hsame
        omega
    · refine h₂.written d a (by omega) hd' ?_
      rw [address_agree hq (h₁.agree hq)]
      exact haddress

lemma splice (hq : q.WellFormed) {base : ℕ} (hlo : lo < hi) (hhi : hi ≤ data.length)
    (hrun : q.Contiguous offset base lo hi) : base + (hi - lo) ≤ q.file.length ∧
      q.Overlaid offset data lo hi (q.file.splice base (data.slice lo (hi - lo))) := by
  have hlast := (hq.apart _ _ (hrun (hi - 1) (by omega) (by omega))).1
  have hlength : (data.slice lo (hi - lo)).length = hi - lo := length_slice (by omega)
  refine ⟨by omega, length_splice (by omega), ?_, ?_⟩
  · intro a ha
    rw [getElem?_splice (by omega), hlength]
    split_ifs with hbefore hinside
    · rfl
    · refine absurd (hrun (lo + (a - base)) (by omega) (by omega)) ?_
      rw [show base + (lo + (a - base) - lo) = a by omega]
      exact ha _ (by omega) (by omega)
    · rfl
  · intro d a hd hd' haddress
    cases (hrun d hd hd').symm.trans haddress
    rw [getElem?_splice (by omega), if_neg (by omega), hlength, if_pos (by omega), getElem?_slice,
      if_pos (by omega)]
    congr 1
    omega

end Overlaid

omit [FileSystem] in
/-- The handle keeps following the image when bytes outside the tables are written. -/
lemma Follows.overwrite (h : q.Follows w) (hagree : Agree q.Table q.file F') :
    Follows { q with file := F' } { w with file := F' } where
  file := rfl
  virtualSize := h.virtualSize
  cluster := h.cluster
  l1 := h.l1
  cache := by
    intro k table hlookup
    obtain ⟨l2Off, hl1, hzero, rfl⟩ := h.cache k table hlookup
    refine ⟨l2Off, hl1, hzero, ?_⟩
    unfold tableAt
    refine map_congr_left fun i hi => ?_
    refine (hagree.beAt fun j hj => .inr (.inr ⟨l2Off, mem_of_getElem? hl1, hzero, ?_⟩)).symm
    have := mem_range.mp hi
    change i < q.l2Entries at this
    omega

/-- One turn of the loop of a write: a run of clusters is written. -/
lemma writeLoop_spec (hq : q.WellFormed) {lo : ℕ} (h : q.Follows w)
    (hlo : lo ≤ data.length) (hmapped : ∀ d, lo ≤ d → d < data.length → q.address (offset + d) ≠ none)
    (hok : Qcow2.writeLoop offset data turns w lo = .ok w') : q.Overlaid offset data lo data.length w'.file := by
  have hc := cluster_pos hq.opened
  induction turns generalizing q w lo with
  | zero => cases hok
  | succ turns ih =>
    rw [Qcow2.writeLoop] at hok
    split_ifs at hok with hmore
    · simp only [bind_eq_ok, h.cluster] at hok
      obtain ⟨_, -, ⟨host, w1⟩, hhost, ⟨last, w2⟩, hextend, w3, hwrite, hok⟩ := hok
      have hne : q.hostFor ((offset + lo) / q.cluster) ≠ 0 := by
        intro hzero
        exact hmapped lo le_rfl hmore (by rw [address_eq, if_pos hzero])
      obtain ⟨h1, rfl⟩ := h.hostClusterForWrite hq hne hhost
      rw [h1.cluster] at hextend
      have hwithin := Nat.mod_lt (offset + lo) hc
      generalize hhost' : q.hostFor ((offset + lo) / q.cluster) = host at *
      generalize hbase : host + (offset + lo) % q.cluster = base at *
      generalize htake : min (q.cluster - (offset + lo) % q.cluster) (data.length - lo) = take at *
      have hrun : q.Contiguous offset base lo (lo + take) := by
        intro d hd hd'
        have hin := address_in_cluster (i := d - lo) hhost' hne (by omega)
        rw [show offset + d = offset + lo + (d - lo) by omega, hin, hbase]
      have hnext : lo + take < data.length → (offset + (lo + take)) % q.cluster = 0 ∧
          (offset + lo) / q.cluster + 1 = (offset + (lo + take)) / q.cluster ∧
            host + q.cluster = base + (lo + take - lo) ∧ host + q.cluster ≠ 0 := by
        intro hlt
        have hdm := Nat.div_add_mod (offset + lo) q.cluster
        have hend : offset + (lo + take) = q.cluster * ((offset + lo) / q.cluster + 1) := by
          rw [mul_add, mul_one]
          omega
        rw [hend, Nat.mul_mod_right, Nat.mul_div_cancel_left _ hc]
        exact ⟨rfl, rfl, by omega, by omega⟩
      obtain ⟨h2, hle, hlast, hcontiguous⟩ :=
        extendRun_spec hq h1 (by omega) (by omega) hrun hnext hextend
      obtain ⟨hinside, hover⟩ := Overlaid.splice hq (by omega) hlast hcontiguous
      have hw3 : w3 = { w2 with file := q.file.splice base (data.slice lo (last - lo)) } := by
        simp only [Qcow2.write, returns] at hwrite
        obtain ⟨F, hF, rfl⟩ := hwrite
        rw [h2.file] at hF
        rw [writeAll_inside hF (by rw [length_slice (by omega)]; exact hinside)]
      have hagree := hover.agree hq
      have hq3 := wellFormed_agree hq hagree
      have h3 := h2.overwrite hagree
      rw [← hw3] at h3
      refine hover.trans hq (by omega) hlast (ih hq3 h3 hlast ?_ hok hc)
      intro d hd hd'
      rw [address_agree hq hagree]
      exact hmapped d (by omega) hd'
    · cases hok
      rw [h.file]
      exact ⟨rfl, fun _ _ => rfl, fun d a hd hd' => by omega⟩

/-- The handle that `guest_write` opens is one on the explorer's image. -/
lemma follows_open (hopen : Qcow2File.open F = .ok q) (hw : Qcow2.open F = .ok w) : q.Follows w := by
  simp only [Qcow2File.open, returns] at hopen
  obtain ⟨header, hheader, _, -, _, -, _, -, _, -, _, -, raw, hraw, rfl⟩ := hopen
  simp only [Qcow2.open, returns] at hw
  obtain ⟨header', hheader', _, -, _, -, _, -, _, -, _, -, _, -, _, -, _, -, _, -, _, -, raw', hraw', rfl⟩ := hw
  cases hheader.symm.trans hheader'
  cases hraw.symm.trans hraw'
  refine ⟨rfl, rfl, rfl, ?_, ?_⟩
  · simp [beTable, map_map, Function.comp_def]
  · intro k table hlookup
    cases hlookup

lemma guestWrite_spec (hq : q.WellFormed) (hmapped : ∀ d < data.length, q.address (offset + d) ≠ none)
    (hok : guestWrite q.file offset data = .ok F') : q.Overlaid offset data 0 data.length F' := by
  simp only [guestWrite, returns] at hok
  obtain ⟨w, hw, w', hwrite, rfl⟩ := hok
  exact writeLoop_spec hq (follows_open hq.opened hw) (Nat.zero_le _)
    (fun d _ hd => hmapped d hd) hwrite

/-! ### What the explorer reads -/

section

variable (hq : q.WellFormed)

include hq

lemma WellFormed.plain : q.Plain := by
  intro guest entry hentry
  have h := hq.entries guest entry hentry
  have heven : entry % 2 = 0 := by
    unfold hostOffset at h
    omega
  exact ⟨by omega, fun _ => heven⟩

lemma guestByte_eq (hpos : pos < q.virtualSize) : q.guestByte pos = match q.address pos with
      | none => some 0
      | some a => q.file[a]? := by
  obtain ⟨entry, hentry⟩ : ∃ entry, q.l2Entry (pos / q.cluster) = some entry := by
    obtain ⟨l2Off, hl1⟩ : ∃ l2Off, q.l1[pos / q.cluster / q.l2Entries]? = some l2Off :=
      ⟨_, List.getElem?_eq_getElem (hq.complete pos hpos)⟩
    by_cases hzero : l2Off = 0
    · exact ⟨0, by rw [l2Entry, hl1, Option.bind_some, if_pos hzero]⟩
    · exact ⟨_, l2Entry_table hq hl1 hzero⟩
  have heven := (hq.plain _ _ hentry).1
  have h := hq.entries _ _ hentry
  rw [guestByte, address, hentry, Option.bind_some, Option.bind_some, if_neg (by omega)]
  split_ifs <;> rfl

lemma view_eq (hge : offset ≤ pos) (hpos : pos < q.virtualSize) : q.view offset pos = q.guestByte pos := by
  have hle : pos / q.cluster * q.cluster ≤ pos := Nat.div_mul_le_self _ _
  obtain ⟨entry, hentry⟩ : ∃ entry, q.l2Entry (pos / q.cluster) = some entry := by
    cases hentry : q.l2Entry (pos / q.cluster) with
    | none =>
      have := guestByte_eq hq hpos
      rw [guestByte, address, hentry] at this
      cases this
    | some entry => exact ⟨entry, rfl⟩
  have heven := (hq.plain _ _ hentry).1
  have h := hq.entries _ _ hentry
  rw [view, if_neg (by omega), lookupHost_of_entry hq.plain hentry, guestByte, hentry,
    Option.bind_some, if_neg (by omega), h]
  rfl

lemma readAt_spec {bytes : Bytes} (hin : offset + n ≤ q.virtualSize) (hok : q.readAt offset n = .ok bytes) :
    bytes = (List.range n).map fun i => (q.guestByte (offset + i)).getD 0 := by
  have hfill := @fill_eq_gather _ _ _ _ .unfinished _ _ _
    (fun s _ _ _ hleft hstart => piece_view (cluster_pos hq.opened) s hleft hstart) n n offset ()
    trivial (.inl rfl) (le_refl n)
  obtain ⟨⟨bytes', s⟩, hbytes, hok⟩ := bind_eq_ok.mp hok
  cases hok
  rw [hbytes] at hfill
  obtain ⟨hlength, hall⟩ := gather_eq_some_iff.mp hfill.symm
  dsimp only at hlength hall
  apply ext_getElem?
  intro i
  by_cases hi : i < n
  · have hbyte := hall i hi
    rw [view_eq hq (Nat.le_add_right _ _) (by omega)] at hbyte
    rw [List.getElem?_map, List.getElem?_range hi, Option.map_some, hbyte, List.getElem?_eq_getElem (by omega)]
    rfl
  · rw [List.getElem?_eq_none (by omega), List.getElem?_eq_none (by simp; omega)]

/-- After a write the disc has the data in its place, and is as it was elsewhere. -/
lemma guestByte_overlaid (hpos : pos < q.virtualSize)
    (hmapped : ∀ d < data.length, q.address (offset + d) ≠ none) (h : q.Overlaid offset data 0 data.length F') :
    guestByte { q with file := F' } pos =
        if offset ≤ pos ∧ pos < offset + data.length then data[pos - offset]? else q.guestByte pos := by
  have hagree := h.agree hq
  rw [guestByte_eq (wellFormed_agree hq hagree) hpos, guestByte_eq hq hpos, address_agree hq hagree]
  split_ifs with hin
  · cases ha : q.address pos with
    | none =>
      refine absurd ha ?_
      rw [← Nat.add_sub_cancel' hin.1]
      exact hmapped _ (by omega)
    | some a =>
      refine h.written _ a (Nat.zero_le _) (by omega) ?_
      rw [Nat.add_sub_cancel' hin.1, ha]
  · cases ha : q.address pos with
    | none => rfl
    | some a =>
      refine h.other a fun d _ hd hsame => ?_
      have := hq.injective _ _ a ha hsame
      omega

end

end Qcow2File

/-! ### Runs of calls -/

namespace DiskBackend

/-- The size of the disc. -/
def size : DiskBackend → ℕ
  | raw file => file.length
  | qcow2 image => image.virtualSize
  | udif _ _ => 0

/-- The bytes of the disc.  A UDIF image cannot be written, and is left out. -/
def disc : DiskBackend → ℕ → Byte
  | raw file, pos => file.getD pos 0
  | qcow2 image, pos => (image.guestByte pos).getD 0
  | udif _ _, _ => 0

/-- A raw file, or a well-formed qcow2 image. -/
def Writable : DiskBackend → Prop
  | raw _ => True
  | qcow2 image => image.WellFormed
  | udif _ _ => False

/-- The byte of the disc has a place in the file. -/
def Allocated : DiskBackend → ℕ → Prop
  | raw _, _ => True
  | qcow2 image, pos => image.address pos ≠ none
  | udif _ _, _ => False

end DiskBackend

/-- The disc after a write. -/
def overlay (disc : ℕ → Byte) (offset : ℕ) (data : Bytes) (pos : ℕ) : Byte :=
  if offset ≤ pos ∧ pos < offset + data.length then data.getD (pos - offset) 0 else disc pos

/-- What the reads of a run should return: for each byte the last write that covered it, or the
disc as it was. -/
def expectedReads (disc : ℕ → Byte) : List Call → List Bytes
  | [] => []
  | .write offset data :: calls => expectedReads (overlay disc offset data) calls
  | .read offset n :: calls =>
    ((List.range n).map fun i => disc (offset + i)) :: expectedReads disc calls

def Call.Inside (size : ℕ) : Call → Prop
  | .write offset data => offset + data.length ≤ size
  | .read offset n => offset + n ≤ size

/-- The write goes to bytes that have a place in the file. -/
def Call.Allocated (backend : DiskBackend) : Call → Prop
  | .write offset data => ∀ d < data.length, backend.Allocated (offset + d)
  | .read _ _ => True

variable {backend backend' : DiskBackend} {inflate : Bytes → Option Bytes} {offset n : ℕ}
    {data : Bytes} {disc disc' : ℕ → Byte} {calls : List Call}

omit [FileSystem] in
/-- Reads inside a disc depend on the bytes of the disc only. -/
lemma expectedReads_congr {size : ℕ} (hinside : ∀ call ∈ calls, call.Inside size)
    (h : ∀ pos < size, disc pos = disc' pos) : expectedReads disc calls = expectedReads disc' calls := by
  induction calls generalizing disc disc' with
  | nil => rfl
  | cons call calls ih =>
    obtain ⟨hcall, hcalls⟩ := forall_mem_cons.mp hinside
    cases call with
    | write offset data =>
      refine ih hcalls fun pos hpos => ?_
      unfold overlay
      split_ifs
      · rfl
      · exact h pos hpos
    | read offset n =>
      have hread : ((List.range n).map fun i => disc (offset + i)) =
          (List.range n).map fun i => disc' (offset + i) := by
        refine map_congr_left fun i hi => h _ ?_
        have hlt := mem_range.mp hi
        change offset + n ≤ size at hcall
        omega
      rw [expectedReads, expectedReads, hread, ih hcalls h]

/-- A write keeps the size and the places of the bytes, and lays the data over the disc. -/
lemma writeAt_spec (hbackend : backend.Writable) (hin : offset + data.length ≤ backend.size)
    (hallocated : ∀ d < data.length, backend.Allocated (offset + d))
    (hok : backend.writeAt offset data = .ok backend') : backend'.Writable ∧ backend'.size = backend.size ∧
      (∀ pos, backend'.Allocated pos ↔ backend.Allocated pos) ∧
      ∀ pos < backend.size, backend'.disc pos = overlay backend.disc offset data pos := by
  cases backend with
  | udif image cache => cases hbackend
  | raw file =>
    simp only [writeAt, returns] at hok
    obtain ⟨file', hfile, rfl⟩ := hok
    have hsplice := writeAll_inside hfile hin
    refine ⟨trivial, ?_, fun _ => Iff.rfl, ?_⟩
    · rw [hsplice]
      exact length_splice hin
    · intro pos _
      change offset + data.length ≤ file.length at hin
      simp only [disc, overlay, hsplice, getD_eq_getElem?_getD]
      rw [getElem?_splice (by omega)]
      split_ifs <;> first | rfl | omega
  | qcow2 image =>
    simp only [writeAt, returns] at hok
    obtain ⟨file', hfile, rfl⟩ := hok
    have hover := guestWrite_spec hbackend hallocated hfile
    have hagree := hover.agree hbackend
    refine ⟨Qcow2File.wellFormed_agree hbackend hagree, rfl, ?_, ?_⟩
    · intro pos
      simp only [Allocated, Qcow2File.address_agree hbackend hagree]
    · intro pos hpos
      have hbyte := guestByte_overlaid hbackend hpos hallocated hover
      simp only [disc, overlay, hbyte, getD_eq_getElem?_getD]
      split_ifs <;> rfl

lemma readAt_spec {bytes : Bytes} (hbackend : backend.Writable) (hin : offset + n ≤ backend.size)
    (hok : backend.readAt inflate offset n = .ok bytes) :
    bytes = (List.range n).map fun i => backend.disc (offset + i) := by
  cases backend with
  | udif image cache => cases hbackend
  | qcow2 image => exact readAt_spec hbackend hin hok
  | raw file =>
    change offset + n ≤ file.length at hin
    have hread : readExact file offset n = .ok (file.slice offset n) := if_pos (.inr hin)
    simp only [DiskBackend.readAt, readOrZeros, bind_eq_ok, hread] at hok
    obtain ⟨_, -, hok⟩ := hok
    cases hok
    apply ext_getElem?
    intro i
    rw [getElem?_slice]
    split_ifs with hi
    · rw [List.getElem?_map, List.getElem?_range hi, Option.map_some, List.getElem?_eq_getElem (by omega), disc,
        getD_eq_getElem?_getD, List.getElem?_eq_getElem (by omega)]
      rfl
    · rw [List.getElem?_eq_none (by simp; omega)]

/-- On a raw file, or on a well-formed qcow2 image with writes to allocated clusters only, every
read of a run of calls inside the disc returns what the writes before it left. -/
theorem reads_see_writes (inflate : Bytes → Option Bytes) (backend : DiskBackend)
    (calls : List Call) (results : List Bytes) (hbackend : backend.Writable)
    (hinside : ∀ call ∈ calls, call.Inside backend.size) (hallocated : ∀ call ∈ calls, call.Allocated backend)
    (hrun : backend.run inflate calls = .ok results) : results = expectedReads backend.disc calls := by
  induction calls generalizing backend results with
  | nil =>
    cases hrun
    rfl
  | cons call calls ih =>
    obtain ⟨hin, hins⟩ := forall_mem_cons.mp hinside
    obtain ⟨hall, halls⟩ := forall_mem_cons.mp hallocated
    cases call with
    | write offset data =>
      obtain ⟨backend', hwrite, hrest⟩ := bind_eq_ok.mp hrun
      obtain ⟨hwritable, hsize, hplaces, hdisc⟩ := writeAt_spec hbackend hin hall hwrite
      rw [expectedReads, ih backend' results hwritable (hsize ▸ hins) ?_ hrest]
      · exact expectedReads_congr hins hdisc
      · intro call hcall
        have := halls call hcall
        cases call with
        | write offset data => exact fun d hd => (hplaces _).mpr (this d hd)
        | read _ _ => trivial
    | read offset n =>
      obtain ⟨bytes, hread, hrun⟩ := bind_eq_ok.mp hrun
      obtain ⟨rest, hrest, hresults⟩ := bind_eq_ok.mp hrun
      cases hresults
      rw [expectedReads, readAt_spec hbackend hin hread, ih backend rest hbackend hins halls hrest]

end Runs

/-! ### Two small images -/

local instance : FileSystem := signedOffsets

/-- A version 2 image of a disc of 512 bytes, in clusters of 512: the header, the refcount table and
its one block, and the first-level table with one entry. -/
def smallImage (l1Entry : ℕ) : Bytes :=
  beBytes 4 QCOW_MAGIC ++ beBytes 4 2 ++ zeros 12 ++ beBytes 4 9 ++ beBytes 8 512 ++ zeros 4 ++
    beBytes 4 1 ++ beBytes 8 1536 ++ beBytes 8 512 ++ beBytes 4 1 ++ zeros 452 ++
    beBytes 8 1024 ++ zeros 504 ++ zeros 512 ++ beBytes 8 l1Entry ++ zeros 504

/-- No second-level table yet. -/
def bareQcow2 : Qcow2File := ⟨smallImage 0, 2, 512, 512, [0]⟩

/-- A second-level table and one cluster. -/
def filledQcow2 : Qcow2File :=
  ⟨smallImage 2048 ++ beBytes 8 2560 ++ zeros 504 ++ zeros 512, 2, 512, 512, [2048]⟩

/-- The byte that was written is not the byte that is read. -/
theorem new_table_not_seen : Qcow2File.open bareQcow2.file = .ok bareQcow2 ∧
    (qcow2 bareQcow2).run some [.write 0 [7], .read 0 1] = .ok [[0]] ∧
    expectedReads (qcow2 bareQcow2).disc [.write 0 [7], .read 0 1] = [[7]] := by
  refine ⟨by decide +kernel, by decide +kernel, by decide +kernel⟩

lemma length_filledQcow2 : filledQcow2.file.length = 3072 := by
  simp only [filledQcow2, smallImage, beBytes, length_append, length_reverse, length_leBytes, length_zeros]

/-- After its first entry the second-level table is zero. -/
lemma beAt_filledQcow2 {i : ℕ} (hi : 2056 ≤ i) (hend : i + 8 ≤ 2560) : beAt 8 filledQcow2.file i = 0 := by
  have hfront : (smallImage 2048 ++ beBytes 8 2560).length = 2056 := by
    simp only [smallImage, beBytes, length_append, length_reverse, length_leBytes, length_zeros]
  change beAt 8 ((smallImage 2048 ++ beBytes 8 2560) ++ zeros 504 ++ zeros 512) i = 0
  exact beAt_zeros (by omega) (by omega)

lemma filledQcow2_l2Entry (guest : ℕ) : filledQcow2.l2Entry guest =
    if guest = 0 then some 2560 else if guest < 64 then some 0 else none := by
  by_cases hguest : guest < 64
  · have hl1 : filledQcow2.l1[guest / filledQcow2.l2Entries]? = some 2048 := by
      rw [show guest / filledQcow2.l2Entries = 0 from Nat.div_eq_of_lt hguest]
      rfl
    have hmod : guest % filledQcow2.l2Entries = guest := Nat.mod_eq_of_lt hguest
    rw [l2Entry, hl1, Option.bind_some, if_neg (by decide), hmod, length_filledQcow2, if_pos (by omega)]
    by_cases hzero : guest = 0
    · rw [if_pos hzero, hzero]
      decide +kernel
    · rw [if_neg hzero, if_pos hguest, beAt_filledQcow2 (by omega) (by omega)]
  · rw [if_neg (by omega), if_neg hguest, l2Entry, List.getElem?_eq_none]
    · rfl
    · simp only [filledQcow2, Qcow2File.l2Entries, length_singleton]
      omega

lemma filledQcow2_address (pos : ℕ) :
    filledQcow2.address pos = if pos < 512 then some (2560 + pos) else none := by
  rw [address, filledQcow2_l2Entry]
  change Option.bind (if pos / 512 = 0 then some 2560 else if pos / 512 < 64 then some 0 else none)
    (fun entry => if hostOffset entry = 0 then none
      else some (hostOffset entry + pos % 512)) = _
  by_cases hpos : pos < 512
  · rw [if_pos (by omega), if_pos hpos, Nat.mod_eq_of_lt hpos]
    rfl
  · rw [if_neg (by omega), if_neg hpos]
    split_ifs <;> rfl

lemma filledQcow2_wellFormed : filledQcow2.WellFormed where
  opened := by decide +kernel
  tables := by decide +kernel
  complete := by
    intro pos hpos
    change pos / 512 / 64 < 1
    change pos < 512 at hpos
    omega
  entries := by
    intro guest entry h
    rw [filledQcow2_l2Entry] at h
    split_ifs at h <;> cases h <;> rfl
  apart := by
    intro pos a h
    rw [filledQcow2_address] at h
    split_ifs at h with hpos
    cases h
    have hlength := length_filledQcow2
    have hl1 : filledQcow2.l1Offset = 1536 := by decide +kernel
    refine ⟨by omega, ?_⟩
    rintro (h | ⟨-, h⟩ | ⟨l2Off, hmem, -, -, h⟩)
    · omega
    · rw [hl1] at h
      change _ < 1536 + 1 * 8 at h
      omega
    · rw [mem_singleton.mp hmem] at h
      change _ < 2048 + 64 * 8 at h
      omega
  injective := by
    intro pos pos' a h h'
    rw [filledQcow2_address] at h h'
    split_ifs at h h' with hpos hpos'
    cases h
    injection h' with h'
    omega

theorem reads_see_writes_filled :
    [[0, 7, 0]] = expectedReads (qcow2 filledQcow2).disc [.write 1 [7], .read 0 3] := by
  refine reads_see_writes some (.qcow2 filledQcow2) _ _ filledQcow2_wellFormed ?_ ?_
    (by decide +kernel)
  · intro call hcall
    rcases mem_cons.mp hcall with rfl | hcall
    · change 1 + 1 ≤ 512
      decide
    · rw [mem_singleton.mp hcall]
      change 0 + 3 ≤ 512
      decide
  · intro call hcall
    rcases mem_cons.mp hcall with rfl | hcall
    · intro d hd
      change d < 1 at hd
      change filledQcow2.address (1 + d) ≠ none
      rw [filledQcow2_address, if_pos (by omega)]
      simp
    · rw [mem_singleton.mp hcall]
      trivial

end AppleUtils.Image
