import AppleUtils.Lib.Checks
import Mathlib.Tactic.IntervalCases

/-! # Moving AArch64 instructions (`restore_patch/recipe.rs`)

`relocate` rewrites an instruction that is moved from one address to another so that it still refers to the same
place.  `classOf` and `absolute`, the PC-relative instructions and the addresses they denote, are written down from the
architecture and not from the code. -/

namespace AppleUtils.Recipe

open Checks

def refusal (name detail : String) : String := s!"skip-tcon-{name}: {detail}"

def signed (value : BitVec 32) (bits : ℕ) : ℤ := ((value <<< (32 - bits)).sshiftRight (32 - bits)).toInt

def target (pc : BitVec 64) (delta : ℤ) : Except String (BitVec 64) := do
  failIf (pc.toNat + delta < 0 ∨ 2 ^ 64 ≤ pc.toNat + delta) (refusal "recipe-address" "PC-relative target overflow")
  pure (.ofInt 64 (pc.toNat + delta))

/-- `address & !0xfff`. -/
def pageOf (address : BitVec 64) : BitVec 64 := address &&& ~~~0xfff

def branch (word : BitVec 32) (pc : BitVec 64) : Except String (BitVec 64) :=
  target pc (signed (word &&& 0x03ffffff) 26 * 4)

def conditional (word : BitVec 32) (pc : BitVec 64) : Except String (BitVec 64) :=
  target pc (signed ((word >>> 5) &&& 0x7ffff) 19 * 4)

def adrp (word : BitVec 32) (pc : BitVec 64) : Except String (BitVec 64) :=
  let immediate := ((word >>> 29) &&& 3) ||| (((word >>> 5) &&& 0x7ffff) <<< 2)
  target (pageOf pc) (signed immediate 21 * 4096)

/-- So many ones, from `shift` on. -/
def fieldMask (bits shift : ℕ) : BitVec 32 := ((1#32 <<< bits) - 1) <<< shift

def encodeDelta (word : BitVec 32) (pc destination : BitVec 64) (bits shift : ℕ) : Except String (BitVec 32) := do
  let delta : ℤ := destination.toNat - pc.toNat
  let immediate := delta.tdiv 4
  failIf (delta.tmod 4 ≠ 0 ∨ ¬ (-2 ^ (bits - 1) ≤ immediate ∧ immediate < 2 ^ (bits - 1)))
    (refusal "recipe-branch-range" "relocated branch exceeds immediate range")
  let mask := fieldMask bits shift
  pure ((word &&& ~~~mask) ||| ((BitVec.ofInt 32 immediate <<< shift) &&& mask))

/-- The immediate of an ADRP, between the bits of `rest`. -/
def adrpWord (rest value : BitVec 32) : BitVec 32 := rest ||| ((value &&& 3) <<< 29) ||| ((value >>> 2) <<< 5)

/-- An ADRP at `pc` for a page. -/
def encodePage (rest : BitVec 32) (pc page : BitVec 64) (detail : String) : Except String (BitVec 32) := do
  let delta : ℤ := page.toNat - (pageOf pc).toNat
  let pages := delta.tdiv 4096
  failIf (¬ (-2 ^ 20 ≤ pages ∧ pages < 2 ^ 20)) (refusal "recipe-adrp-range" detail)
  pure (adrpWord rest (BitVec.ofInt 32 pages &&& 0x1fffff))

def relocate (word : BitVec 32) (oldPc newPc : BitVec 64) : Except String (BitVec 32) :=
  if word &&& 0xfc000000 = 0x94000000 then do
    encodeDelta word newPc (← branch word oldPc) 26 0
  else if word &&& 0xff000010 = 0x54000000 ∨ word &&& 0x7e000000 = 0x34000000 then do
    encodeDelta word newPc (← conditional word oldPc) 19 5
  else if word &&& 0x9f000000 = 0x90000000 then do
    encodePage (word &&& 0x9f00001f) newPc (← adrp word oldPc) "relocated ADRP exceeds immediate range"
  else pure word

/-- An ADD of twelve bits to a register, without the bits. -/
def addTo (register : BitVec 32) : BitVec 32 := 0x91000000 ||| (register <<< 5) ||| register

/-- An index behind the words, where the source panics, is refused: the word there is zero. -/
def pairAddress (words : List (BitVec 32)) (index : ℕ) (pc : BitVec 64) (register : BitVec 32) :
    Except String (BitVec 64) := do
  let first := words.getD index 0
  let second := words.getD (index + 1) 0
  failIf (first &&& 0x9f00001f ≠ 0x90000000 ||| register ∨ second &&& 0xffc003ff ≠ addTo register)
    (refusal "recipe-address-pair" "ADRP/ADD register pair mismatch")
  target (← adrp first (pc + .ofNat 64 (index * 4))) ((second >>> 10) &&& 0xfff).toNat

def encodeAdrp (pc address : BitVec 64) (register : BitVec 32) : Except String (BitVec 32) :=
  encodePage (0x90000000 ||| register) pc (pageOf address) "CFString exceeds ADRP immediate range"

/-- The ADD that is written after an ADRP: `0x91000108` with the low bits of the address for register 8. -/
def addLow (address : BitVec 64) (register : BitVec 32) : BitVec 32 :=
  addTo register ||| ((address &&& 0xfff).setWidth 32 <<< 10)

/-! ### What the instructions denote -/

inductive Class where
  | bl | bCond | compareBranch | adrp | b | testBranch | adr | ldrLiteral | other
deriving DecidableEq, Repr

def classOf (word : BitVec 32) : Class :=
  if word &&& 0xfc000000 = 0x94000000 then .bl
  else if word &&& 0xff000010 = 0x54000000 then .bCond
  else if word &&& 0x7e000000 = 0x34000000 then .compareBranch
  else if word &&& 0x9f000000 = 0x90000000 then .adrp
  else if word &&& 0xfc000000 = 0x14000000 then .b
  else if word &&& 0x7e000000 = 0x36000000 then .testBranch
  else if word &&& 0x9f000000 = 0x10000000 then .adr
  else if word &&& 0x3b000000 = 0x18000000 then .ldrLiteral
  else .other

/-- The bits of a class that hold the immediate; the others are its opcode, condition and registers. -/
def Class.field : Class → BitVec 32
  | .b | .bl => 0x03ffffff
  | .bCond | .compareBranch | .ldrLiteral => 0x00ffffe0
  | .testBranch => 0x0007ffe0
  | .adr | .adrp => 0x60ffffe0
  | .other => 0

def pageImmediate (word : BitVec 32) : BitVec 21 := word.extractLsb' 5 19 ++ word.extractLsb' 29 2

/-- The distance in bytes that the immediate of a word stands for. -/
def Class.distance (word : BitVec 32) : Class → ℤ
  | .b | .bl => (word.extractLsb' 0 26).toInt * 4
  | .bCond | .compareBranch | .ldrLiteral => (word.extractLsb' 5 19).toInt * 4
  | .testBranch => (word.extractLsb' 5 14).toInt * 4
  | .adr => (pageImmediate word).toInt
  | .adrp => (pageImmediate word).toInt * 4096
  | .other => 0

/-- The address a PC-relative word refers to. -/
def absolute (word : BitVec 32) (pc : BitVec 64) : Option (BitVec 64) :=
  match classOf word with
  | .other => none
  | .adrp => some (pageOf pc + .ofInt 64 (Class.adrp.distance word))
  | c => some (pc + .ofInt 64 (c.distance word))

/-- The word `moved` is, at `newPc`, the instruction that `word` is at `oldPc`. -/
structure SameMeaning (word moved : BitVec 32) (oldPc newPc : BitVec 64) : Prop where
  sameClass : classOf moved = classOf word
  sameFields : moved &&& ~~~(classOf word).field = word &&& ~~~(classOf word).field
  sameTarget : absolute moved newPc = absolute word oldPc

/-- The PC-relative classes that `relocate` leaves as they are. -/
abbrev Class.Unhandled (c : Class) : Prop := c ∈ [.b, .testBranch, .adr, .ldrLiteral]

/-! ### Immediates -/

open BitVec hiding not_not not_or and_assoc add_sub_cancel

variable {word moved value : BitVec 32} {oldPc newPc pc : BitVec 64} {c : Class} {bits shift : ℕ} {detail : String}
    {a : BitVec 64} {delta : ℤ}

lemma signed_eq (hpos : 0 < bits) (hbits : bits ≤ 32) : signed value bits = (value.setWidth bits).toInt := by
  have h : (value <<< (32 - bits)).sshiftRight (32 - bits) = (value.setWidth bits).signExtend 32 := by
    ext i hi
    rw [getElem_sshiftRight, getElem_signExtend]
    by_cases hlt : i < bits
    · simp [hlt, show 32 - bits + i < 32 by omega, getLsbD_eq_getElem hi]
    · have hlast : 31 - (32 - bits) = bits - 1 := by omega
      simp [hlt, show ¬ 32 - bits + i < 32 by omega, hpos, msb_eq_getLsbD_last,
        show ¬ 31 < 32 - bits by omega, hlast, getLsbD_eq_getElem (show bits - 1 < 32 by omega)]
  rw [signed, h, toInt_signExtend_of_le hbits]

lemma target_eq_ok (h : target pc delta = .ok a) :
    a = pc + .ofInt 64 delta ∧ (a.toNat : ℤ) = pc.toNat + delta := by
  obtain ⟨_, hrange, ha⟩ := bind_eq_ok.mp h
  rw [failIf_eq_ok, not_or] at hrange
  cases pure_eq_ok.mp ha
  refine ⟨by simp [ofInt_add], ?_⟩
  rw [toNat_ofInt]
  omega

lemma target_of_toNat (h : (a.toNat : ℤ) = pc.toNat + delta) : target pc delta = .ok a := by
  have := a.isLt
  rw [target, ← h, bind_ok (a := ()) (failIf_eq_ok.mpr (by omega)), ofInt_natCast, ofNat_toNat, setWidth_eq]
  rfl

/-- Words that agree on a mask agree on every test that looks at no more. -/
lemma test_eq {mask test : BitVec 32} (htest : mask &&& test = test) (h : moved &&& mask = word &&& mask) :
    moved &&& test = word &&& test := by
  rw [← htest, ← BitVec.and_assoc, ← BitVec.and_assoc, h]

lemma merge_outside (word value field : BitVec 32) :
    ((word &&& ~~~field) ||| (value &&& field)) &&& ~~~field = word &&& ~~~field := by
  ext i hi
  simp only [getElem_and, getElem_or, getElem_not]
  cases word[i] <;> cases field[i] <;> simp

lemma setWidth_ofInt (x : ℤ) (h : bits ≤ 32) : (BitVec.ofInt 32 x).setWidth bits = BitVec.ofInt bits x := by
  have hdvd : ((2 ^ bits : ℕ) : ℤ) ∣ (2 ^ 32 : ℕ) := by exact_mod_cast pow_dvd_pow 2 h
  have hne (n : ℕ) : ((2 ^ n : ℕ) : ℤ) ≠ 0 := by simp
  apply eq_of_toNat_eq
  rw [toNat_setWidth, toNat_ofInt, toNat_ofInt]
  apply Int.natCast_inj.mp
  rw [Int.natCast_emod, Int.toNat_of_nonneg (Int.emod_nonneg _ (hne _)),
    Int.toNat_of_nonneg (Int.emod_nonneg _ (hne _))]
  exact Int.emod_emod_of_dvd x hdvd

/-- The immediate of the word that `encode_delta` returns is the distance in words. -/
lemma encodeDelta_eq_ok {destination : BitVec 64}
    (h : encodeDelta word pc destination bits shift = .ok moved) (hpos : 0 < bits) (hfits : shift + bits < 32)
    (hmask : (fieldMask bits shift).extractLsb' shift bits = .allOnes bits) :
    moved &&& ~~~fieldMask bits shift = word &&& ~~~fieldMask bits shift ∧
      destination = pc + .ofInt 64 ((moved.extractLsb' shift bits).toInt * 4) := by
  obtain ⟨_, hrange, hmoved⟩ := bind_eq_ok.mp h
  rw [failIf_eq_ok, not_or, not_not, not_not] at hrange
  obtain ⟨hmod, hmin, hmax⟩ := hrange
  cases pure_eq_ok.mp hmoved
  refine ⟨merge_outside _ _ _, ?_⟩
  have hshift (x : BitVec 32) : (x <<< shift).extractLsb' shift bits = x.setWidth bits := by
    ext i hi
    simp [show shift + i < 32 by omega, getLsbD_eq_getElem (show i < 32 by omega)]
  have hfield (x : BitVec 32) : ((word &&& ~~~fieldMask bits shift) ||| ((x <<< shift) &&& fieldMask bits shift)).extractLsb'
      shift bits = x.setWidth bits := by
    rw [extractLsb'_or, extractLsb'_and, extractLsb'_and, extractLsb'_not_of_lt hfits, hmask, hshift]
    simp
  rw [hfield, setWidth_ofInt _ (by omega), toInt_ofInt_eq_self hpos hmin hmax]
  have hdelta : ((destination.toNat : ℤ) - pc.toNat).tdiv 4 * 4 = destination.toNat - pc.toNat :=
    Int.tdiv_mul_cancel (Int.dvd_of_tmod_eq_zero hmod)
  have hsum := ofInt_add (n := 64) pc.toNat (destination.toNat - pc.toNat)
  rw [add_sub_cancel] at hsum
  rw [hdelta]
  simpa using hsum

/-- A word that `relocate` handles by `encode_delta`, if its class does not depend on the immediate. -/
lemma sameMeaning_of_delta
    (h : (target oldPc (signed value bits * 4) >>= fun d => encodeDelta word newPc d bits shift) = .ok moved)
    (hpos : 0 < bits) (hfits : shift + bits < 32)
    (hmask : (fieldMask bits shift).extractLsb' shift bits = .allOnes bits)
    (hvalue : value.setWidth bits = word.extractLsb' shift bits) (hfield : c.field = fieldMask bits shift)
    (hdistance : ∀ w, c.distance w = (w.extractLsb' shift bits).toInt * 4) (hc : c ≠ .adrp)
    (hclass : ∀ w, w &&& ~~~c.field = word &&& ~~~c.field → classOf w = c) : SameMeaning word moved oldPc newPc := by
  obtain ⟨destination, htarget, hencode⟩ := bind_eq_ok.mp h
  obtain ⟨houtside, hmoved⟩ := encodeDelta_eq_ok hencode hpos hfits hmask
  rw [← hfield] at houtside
  have hold := hclass word rfl
  have hnew := hclass moved houtside
  have heq : newPc + .ofInt 64 (c.distance moved) = oldPc + .ofInt 64 (c.distance word) := by
    rw [hdistance, hdistance, ← hmoved, (target_eq_ok htarget).1, signed_eq hpos (by omega), hvalue]
  refine ⟨hnew.trans hold.symm, by rw [hold, houtside], ?_⟩
  rw [absolute, absolute, hnew, hold]
  cases c <;> first | exact absurd rfl hc | simp [heq]

lemma relocate_bl (h : (branch word oldPc >>= fun d => encodeDelta word newPc d 26 0) = .ok moved)
    (htest : word &&& 0xfc000000 = 0x94000000) : SameMeaning word moved oldPc newPc := by
  refine sameMeaning_of_delta (c := .bl) h (by decide) (by decide) (by decide) ?_ (by decide) (fun _ => rfl)
    (by decide) fun w hw => ?_
  · rw [setWidth_and, show (0x03ffffff : BitVec 32).setWidth 26 = .allOnes 26 by decide, and_allOnes,
      setWidth_eq_extractLsb' (by decide)]
  · rw [classOf, if_pos (by rwa [test_eq (by decide) hw])]

/-- No test for a class looks at the 19 bits of a conditional branch. -/
lemma classOf_congr (h : moved &&& ~~~fieldMask 19 5 = word &&& ~~~fieldMask 19 5) : classOf moved = classOf word := by
  have htest (test : BitVec 32) (ht : ~~~fieldMask 19 5 &&& test = test) : moved &&& test = word &&& test := test_eq ht h
  rw [classOf, classOf, htest 0xfc000000 (by decide), htest 0xff000010 (by decide), htest 0x7e000000 (by decide),
    htest 0x9f000000 (by decide), htest 0x3b000000 (by decide)]

lemma relocate_conditional (h : (conditional word oldPc >>= fun d => encodeDelta word newPc d 19 5) = .ok moved)
    (hclass : classOf word = c) (hc : c = .bCond ∨ c = .compareBranch) : SameMeaning word moved oldPc newPc := by
  have hfield : c.field = fieldMask 19 5 := by rcases hc with rfl | rfl <;> decide
  refine sameMeaning_of_delta h (by decide) (by decide) (by decide) ?_ hfield (fun w => ?_) ?_ fun w hw => ?_
  · rw [setWidth_and, show (0x7ffff : BitVec 32).setWidth 19 = .allOnes 19 by decide, and_allOnes,
      setWidth_ushiftRight_eq_extractLsb]
  · rcases hc with rfl | rfl <;> rfl
  · rcases hc with rfl | rfl <;> decide
  · rw [hfield] at hw
    exact (classOf_congr hw).trans hclass

/-! ### Pages -/

lemma page_toNat (a : BitVec 64) : (pageOf a).toNat = a.toNat / 4096 * 4096 := by
  have h : pageOf a = (a >>> 12) <<< 12 := by
    ext i hi
    rw [pageOf, getElem_and, getElem_not, getElem_shiftLeft]
    interval_cases i <;> simp
  rw [h, toNat_shiftLeft, toNat_ushiftRight, Nat.shiftRight_eq_div_pow, Nat.shiftLeft_eq]
  have := a.isLt
  omega

lemma adrp_immediate (word : BitVec 32) :
    (((word >>> 29) &&& 3) ||| (((word >>> 5) &&& 0x7ffff) <<< 2)).setWidth 21 = pageImmediate word := by
  ext i hi
  rw [pageImmediate, getElem_append]
  interval_cases i <;> simp

lemma adrpWord_outside (rest value : BitVec 32) :
    adrpWord (rest &&& 0x9f00001f) (value &&& 0x1fffff) &&& 0x9f00001f = rest &&& 0x9f00001f := by
  ext i hi
  interval_cases i <;> simp [adrpWord]

lemma pageImmediate_adrpWord (rest value : BitVec 32) :
    pageImmediate (adrpWord (rest &&& 0x9f00001f) (value &&& 0x1fffff)) = value.setWidth 21 := by
  ext i hi
  rw [pageImmediate, getElem_append]
  interval_cases i <;> simp [adrpWord]

/-- The word of an ADRP has the bits of `rest` around its immediate, which counts the pages to its page. -/
lemma encodePage_eq_ok {rest : BitVec 32} {page : BitVec 64}
    (h : encodePage (rest &&& 0x9f00001f) pc page detail = .ok moved) (hpage : page.toNat % 4096 = 0) :
    moved &&& 0x9f00001f = rest &&& 0x9f00001f ∧
      (page.toNat : ℤ) = (pageOf pc).toNat + (pageImmediate moved).toInt * 4096 := by
  obtain ⟨_, hrange, hmoved⟩ := bind_eq_ok.mp h
  rw [failIf_eq_ok, not_not] at hrange
  cases pure_eq_ok.mp hmoved
  refine ⟨adrpWord_outside _ _, ?_⟩
  rw [pageImmediate_adrpWord, setWidth_ofInt _ (by decide), toInt_ofInt_eq_self (by decide) hrange.1 hrange.2]
  have hpc := page_toNat pc
  rw [Int.tdiv_mul_cancel (by omega)]
  omega

lemma adrp_eq (word : BitVec 32) (pc : BitVec 64) :
    adrp word pc = target (pageOf pc) ((pageImmediate word).toInt * 4096) := by
  rw [adrp, signed_eq (by decide) (by decide), adrp_immediate]

lemma relocate_adrp
    (h : (adrp word oldPc >>= fun page => encodePage (word &&& 0x9f00001f) newPc page detail) = .ok moved)
    (htest : word &&& 0x9f000000 = 0x90000000) : SameMeaning word moved oldPc newPc := by
  obtain ⟨page, hadrp, hencode⟩ := bind_eq_ok.mp h
  rw [adrp_eq] at hadrp
  obtain ⟨hpage, hpage'⟩ := target_eq_ok hadrp
  have hold := page_toNat oldPc
  obtain ⟨houtside, hmoved⟩ := encodePage_eq_ok hencode (by omega)
  have hclass (w : BitVec 32) (hw : w &&& 0x9f000000 = 0x90000000) : classOf w = .adrp := by
    -- the tests before it ask for bit 26, or for a clear bit 31
    have hbit (k : ℕ) : (w &&& 0x9f000000).getLsbD k = (0x90000000 : BitVec 32).getLsbD k := by rw [hw]
    have h26 : w[26] = false := by simpa using hbit 26
    have h31 : w[31] = true := by simpa using hbit 31
    rw [classOf, if_neg, if_neg, if_neg, if_pos hw]
    · exact fun heq => absurd (congrArg (getLsbD · 26) heq) (by simp [h26])
    · exact fun heq => absurd (congrArg (getLsbD · 31) heq) (by simp [h31])
    · exact fun heq => absurd (congrArg (getLsbD · 26) heq) (by simp [h26])
  have hmovedClass := hclass moved (by rwa [test_eq (by decide) houtside])
  refine ⟨hmovedClass.trans (hclass word htest).symm, by rw [hclass word htest]; exact houtside, ?_⟩
  have hsum := ofInt_add (n := 64) (pageOf newPc).toNat ((pageImmediate moved).toInt * 4096)
  rw [← hmoved] at hsum
  rw [absolute, absolute, hmovedClass, hclass word htest]
  simp only [Class.distance]
  rw [← hpage]
  simpa using hsum.symm

/-- A word that is left as it is keeps its class and fields, and its target only where it stays. -/
lemma sameMeaning_self_iff (hc : classOf word ≠ .adrp) :
    SameMeaning word word oldPc newPc ↔ classOf word = .other ∨ oldPc = newPc := by
  constructor
  · intro h
    have htarget := h.sameTarget
    rw [absolute, absolute] at htarget
    cases hclass : classOf word <;> simp_all
  · intro h
    refine ⟨rfl, rfl, ?_⟩
    rw [absolute, absolute]
    cases hclass : classOf word <;> simp_all

/-- The bits of the ADD: its registers, and the low twelve of the address. -/
lemma addLow_bits (address : BitVec 64) (register : BitVec 5) :
    addLow address (register.setWidth 32) &&& 0xffc003ff = addTo (register.setWidth 32) ∧
      (addLow address (register.setWidth 32) >>> 10) &&& 0xfff = (address &&& 0xfff).setWidth 32 := by
  constructor
  · ext i hi
    simp only [addLow, addTo, getElem_and, getElem_or, getElem_shiftLeft, getElem_setWidth]
    interval_cases i <;> simp
  · ext i hi
    simp only [addLow, addTo, getElem_and, getElem_setWidth, getElem_ushiftRight]
    interval_cases i <;> simp

lemma pairAddress_eq {words : List (BitVec 32)} {index : ℕ} {address : BitVec 64} {register : BitVec 5}
    (h : encodeAdrp (pc + .ofNat 64 (index * 4)) address (register.setWidth 32) = .ok (words.getD index 0))
    (hadd : words.getD (index + 1) 0 = addLow address (register.setWidth 32)) :
    pairAddress words index pc (register.setWidth 32) = .ok address := by
  have hregister : (0x90000000 ||| register.setWidth 32 : BitVec 32) &&& 0x9f00001f = 0x90000000 ||| register.setWidth 32 := by
    ext i hi
    interval_cases i <;> simp
  obtain ⟨hregisters, hlow⟩ := addLow_bits address register
  have hpageOf := page_toNat address
  rw [encodeAdrp, ← hregister] at h
  obtain ⟨hfirst, hpage⟩ := encodePage_eq_ok h (by omega)
  rw [hregister] at hfirst
  have haddress : (address.toNat : ℤ) = (pageOf address).toNat + ((address &&& 0xfff).setWidth 32 : BitVec 32).toNat := by
    have hand : (address &&& 0xfff).toNat = address.toNat % 4096 := Nat.and_two_pow_sub_one_eq_mod address.toNat 12
    rw [toNat_setWidth, hand]
    omega
  have hpair : ¬ (words.getD index 0 &&& 0x9f00001f ≠ 0x90000000 ||| register.setWidth 32 ∨
      addLow address (register.setWidth 32) &&& 0xffc003ff ≠ addTo (register.setWidth 32)) :=
    not_or.mpr ⟨not_not.mpr hfirst, not_not.mpr hregisters⟩
  rw [pairAddress, hadd, bind_ok (a := ()) (failIf_eq_ok.mpr hpair), adrp_eq, bind_ok (target_of_toNat hpage), hlow,
    target_of_toNat haddress]

/-- `relocate` preserves what an instruction denotes, except that it leaves B, TBZ and TBNZ, ADR and LDR (literal) as
they are wherever they go.  An ADRP and ADD written for an address are read back as that address. -/
theorem relocate_preserves_iff (word moved : BitVec 32) (oldPc newPc : BitVec 64) (words : List (BitVec 32))
    (index : ℕ) (pc address : BitVec 64) (register : BitVec 5) : (relocate word oldPc newPc = .ok moved →
      (SameMeaning word moved oldPc newPc ↔ ¬ (classOf word).Unhandled ∨ oldPc = newPc)) ∧
    (encodeAdrp (pc + .ofNat 64 (index * 4)) address (register.setWidth 32) = .ok (words.getD index 0) →
      words.getD (index + 1) 0 = addLow address (register.setWidth 32) →
      pairAddress words index pc (register.setWidth 32) = .ok address) := by
  refine ⟨fun h => ?_, pairAddress_eq⟩
  rw [relocate] at h
  split at h
  next hbl =>
    have hclass : classOf word = .bl := by rw [classOf, if_pos hbl]
    exact iff_of_true (relocate_bl h hbl) (.inl (by rw [hclass]; decide))
  next hbl =>
  split at h
  next htest =>
    have hclass : classOf word = .bCond ∨ classOf word = .compareBranch := by
      rw [classOf, if_neg hbl]
      split
      · exact .inl rfl
      · exact .inr (if_pos (htest.resolve_left ‹_›))
    refine iff_of_true (relocate_conditional h rfl hclass) (.inl ?_)
    rcases hclass with hclass | hclass <;> rw [hclass] <;> decide
  next htest =>
  obtain ⟨hcond, hcompare⟩ := not_or.mp htest
  split at h
  next hadrp =>
    have hclass : classOf word = .adrp := by rw [classOf, if_neg hbl, if_neg hcond, if_neg hcompare, if_pos hadrp]
    exact iff_of_true (relocate_adrp h hadrp) (.inl (by rw [hclass]; decide))
  next hadrp =>
    cases pure_eq_ok.mp h
    have hclass : classOf word = .other ∨ (classOf word).Unhandled := by
      rw [classOf, if_neg hbl, if_neg hcond, if_neg hcompare, if_neg hadrp]
      split_ifs <;> decide
    rw [sameMeaning_self_iff]
    all_goals
      generalize classOf word = c at hclass ⊢
      revert c
      simp

/-- A call moved by one word, and an `ADRP` with the `ADD` that completes it. -/
theorem relocate_preserves_call :
    (relocate 0x94000001 0x1000 0x1004 = .ok 0x94000000 ∧ SameMeaning 0x94000001 0x94000000 0x1000 0x1004) ∧
      encodeAdrp 0x1000 0x5123 8 = .ok 0x90000028 ∧ pairAddress [0x90000028, 0x91048d08] 0 0x1000 8 = .ok 0x5123 := by
  have hcall : relocate 0x94000001 0x1000 0x1004 = .ok 0x94000000 := by decide
  have h := relocate_preserves_iff 0x94000001 0x94000000 0x1000 0x1004 [0x90000028, 0x91048d08] 0 0x1000 0x5123 8
  exact ⟨⟨hcall, (h.1 hcall).mpr (.inl (by decide))⟩, by decide, h.2 (by decide) (by decide)⟩

/-- A branch to itself that is moved by one word goes to its new place. -/
theorem relocate_leaves_branch : relocate 0x14000000 0 4 = .ok 0x14000000 ∧
    absolute 0x14000000 0 = some 0 ∧ absolute 0x14000000 4 = some 4 := by decide

end AppleUtils.Recipe
