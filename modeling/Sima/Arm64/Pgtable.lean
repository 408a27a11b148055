import Sima.Mmu.Pgtable

/-!
# The ARM64 descriptor formats

Two hook tables instantiate the walker on ARM64: `ppt_pgtable` for the EL2
stage-1 map of the hypervisor (arch/arm64/mmu.c) and the stage-2 table of a
guest (arch/arm64/guest/vm.c). They share the descriptor layout — valid bit,
type bit, a 36-bit frame number from bit 12 — and the shape of `set_pgentry`:
the requested attributes lose their type bits, get the type of their level and
the access flag, and if no bit of a memory-type field is set, a default is put
in. Only the field and the default differ, so the laws are proved once.

The stage-1 default is dead code: the access flag is part of the field that is
tested, and it has just been set.
-/

namespace Sima.Arm64

open Mmu

def PAGE_DESC_VALID : Word := 0x1
def PAGE_DESC_TYPE_MASK : Word := 0x3
def PAGE_TABLE_DESC : Word := 0x3
def PAGE_BLOCK_DESC : Word := 0x1
def PAGE_PAGE_DESC : Word := 0x3
def PTE_PFN_MASK : Word := 0x0000FFFFFFFFF000
def PAGE_AF : Word := 1 <<< 10
def PAGE_ATTR_IDX_DEVICE : Word := 1 <<< 2
def PAGE_ATTR_NORMAL : Word := (0 <<< 2) ||| (3 <<< 8) ||| PAGE_AF
def PAGE_S2_MEMATTR_MASK : Word := 0xf <<< 2
def PAGE_S2_S2AP_WRITE : Word := 1 <<< 7
def PAGE_S2_ATTR_NORMAL : Word :=
  (0xf <<< 2) ||| (3 <<< 6) ||| (3 <<< 8) ||| PAGE_AF

/-- `ppt_pgentry_present` and `stage2_pgentry_present`. -/
def pgentryPresent (pte : Word) : Bool := pte &&& PAGE_DESC_VALID != 0

def archPgtlLarge (pgtle : Word) : Bool :=
  pgtle &&& PAGE_DESC_VALID != 0 && pgtle &&& PAGE_DESC_TYPE_MASK == PAGE_BLOCK_DESC

def archPgtlPagePaddr (pgtle : Word) : Nat := (pgtle &&& PTE_PFN_MASK).toNat

def pfn2paddr (pfn : Word) : Nat := ((pfn >>> 12) <<< 12).toNat

def paddr2pfn (paddr : Nat) : Word := (BitVec.ofNat 64 paddr >>> 12) <<< 12

def makePgentry (page : Nat) (prot : Word) : Word := prot ||| paddr2pfn page

def leafDescType (level : Nat) : Word :=
  if level = 0 then PAGE_PAGE_DESC else PAGE_BLOCK_DESC

/-- What the two tables do not share: the memory-type field that `set_pgentry`
tests, and the default it puts in. -/
structure LeafFormat where
  field : Word
  dflt : Word
  field_clear : field &&& (PTE_PFN_MASK ||| PAGE_DESC_TYPE_MASK) = 0
  dflt_clear : dflt &&& (PTE_PFN_MASK ||| PAGE_DESC_TYPE_MASK) = 0
  dflt_field : dflt &&& field ≠ 0

def leafProt (F : LeafFormat) (prot : Word) (level : Nat) : Word :=
  let protTmp := (prot &&& ~~~ PAGE_DESC_TYPE_MASK) ||| leafDescType level ||| PAGE_AF
  if protTmp &&& F.field = 0 then protTmp ||| F.dflt else protTmp

def setPgentry (F : LeafFormat) (page : Nat) (prot : Word) (level : Nat)
    (isLeaf : Bool) : Word :=
  makePgentry page (if isLeaf then leafProt F prot level else PAGE_TABLE_DESC)

def pptFormat : LeafFormat where
  field := PAGE_ATTR_IDX_DEVICE ||| PAGE_ATTR_NORMAL
  dflt := PAGE_ATTR_NORMAL
  field_clear := by decide
  dflt_clear := by decide
  dflt_field := by decide

def pptSetPgentry : Nat → Word → Nat → Bool → Word := setPgentry pptFormat

def stage2Format : LeafFormat where
  field := PAGE_S2_MEMATTR_MASK
  dflt := PAGE_S2_ATTR_NORMAL
  field_clear := by decide
  dflt_clear := by decide
  dflt_field := by decide

def stage2SetPgentry : Nat → Word → Nat → Bool → Word := setPgentry stage2Format

/-- `large_page_support` of both tables. -/
def largePageSupport (level : Nat) (_prot : Word) : Bool :=
  level == 1 || level == 2

/-! ## Bits -/

/-- Everything that is neither address nor type. -/
def ATTR_MASK : Word := ~~~ (PTE_PFN_MASK ||| PAGE_DESC_TYPE_MASK)

theorem bit_of_eq {x y : Word} (h : x = y) (i : Nat) (hi : i < 64) : x[i] = y[i] := by
  rw [h]

theorem pfn_disjoint_type : PTE_PFN_MASK &&& PAGE_DESC_TYPE_MASK = 0 := by decide

theorem pfn_disjoint_af : PTE_PFN_MASK &&& PAGE_AF = 0 := by decide

theorem type_disjoint_af : PAGE_DESC_TYPE_MASK &&& PAGE_AF = 0 := by decide

theorem pfnMask_bit : ∀ i : Fin 64, PTE_PFN_MASK[i] = decide (12 ≤ i.val ∧ i.val < 48) := by
  decide

theorem typeMask_bit : ∀ i : Fin 64, PAGE_DESC_TYPE_MASK[i] = decide (i.val < 2) := by
  decide

theorem leafDescType_le (level : Nat) :
    leafDescType level &&& PAGE_DESC_TYPE_MASK = leafDescType level ∧
      leafDescType level &&& PAGE_DESC_VALID = PAGE_DESC_VALID := by
  rw [leafDescType]
  split <;> decide

theorem paddr2pfn_low (paddr : Nat) : paddr2pfn paddr &&& PAGE_DESC_TYPE_MASK = 0 := by
  refine BitVec.eq_of_getElem_eq fun i hi => ?_
  have htype := typeMask_bit ⟨i, hi⟩
  simp only [Fin.getElem_fin] at htype
  rw [BitVec.getElem_and, htype, paddr2pfn]
  by_cases h : i < 2
  · simp [show i < 12 by omega]
  · simp [h]

variable {page : Nat}

theorem paddr2pfn_page (h : page % 4096 = 0) (hlt : page < 2 ^ 48) :
    paddr2pfn page &&& PTE_PFN_MASK = paddr2pfn page ∧ (paddr2pfn page).toNat = page := by
  have hnat : (paddr2pfn page).toNat = page := by
    simp only [paddr2pfn, BitVec.toNat_shiftLeft, BitVec.toNat_ushiftRight, BitVec.toNat_ofNat]
    omega
  refine ⟨?_, hnat⟩
  refine BitVec.eq_of_getElem_eq fun i hi => ?_
  have hmask := pfnMask_bit ⟨i, hi⟩
  simp only [Fin.getElem_fin] at hmask
  rw [BitVec.getElem_and, hmask]
  by_cases hin : 12 ≤ i ∧ i < 48
  · simp [hin]
  -- outside the field the address has no bits
  have hzero : (paddr2pfn page)[i] = false := by
    rw [← BitVec.getLsbD_eq_getElem hi, BitVec.getLsbD, hnat]
    by_cases hi48 : 48 ≤ i
    · exact Nat.testBit_lt_two_pow (lt_of_lt_of_le hlt (Nat.pow_le_pow_right (by omega) hi48))
    · obtain ⟨q, rfl⟩ : ∃ q, page = 2 ^ 12 * q := ⟨page / 4096, by omega⟩
      rw [Nat.testBit_two_pow_mul]
      simp [show ¬ 12 ≤ i by omega]
  rw [hzero]
  simp [hin]

theorem archPgtlPagePaddr_page (e : Word) :
    archPgtlPagePaddr e % 4096 = 0 ∧ archPgtlPagePaddr e < 2 ^ 48 := by
  rw [archPgtlPagePaddr]
  refine ⟨?_, ?_⟩
  · have hzero : (e &&& PTE_PFN_MASK) &&& 0xFFF = 0 := by
      rw [BitVec.and_assoc]
      rw [show PTE_PFN_MASK &&& 0xFFF = 0#64 by decide, BitVec.and_zero]
      rfl
    have := congrArg BitVec.toNat hzero
    rw [BitVec.toNat_and, show (0xFFF : Word).toNat = 2 ^ 12 - 1 by decide,
      Nat.and_two_pow_sub_one_eq_mod] at this
    simpa using this
  · exact lt_of_le_of_lt Nat.and_le_right (by decide)

/-! ## The laws -/

variable {F : LeafFormat} {prot e clr set : Word}

theorem leafProt_bit (F : LeafFormat) (prot : Word) (level i : Nat) (hi : i < 64) :
    (leafProt F prot level)[i] = (prot[i] && !PAGE_DESC_TYPE_MASK[i] || (leafDescType level)[i] ||
        PAGE_AF[i] || decide ((prot ||| PAGE_AF) &&& F.field = 0) && F.dflt[i]) := by
  have hsame : ((prot &&& ~~~ PAGE_DESC_TYPE_MASK) ||| leafDescType level |||
      PAGE_AF) &&& F.field = (prot ||| PAGE_AF) &&& F.field := by
    ext i hi
    have h1 := bit_of_eq F.field_clear i hi
    have h2 := bit_of_eq (leafDescType_le level).1 i hi
    grind
  rw [leafProt]
  simp only [hsame]
  split
  · next h => simp [h]
  · next h =>
    simp only [h]
    simp

/-- Requesting the attributes of a leaf again gives them back exactly when the
access flag and the memory type are there. -/
theorem leafProt_normal : leafProt F (e &&& ~~~ PTE_PFN_MASK) 0 &&& ATTR_MASK =
    e &&& ATTR_MASK ↔ e &&& PAGE_AF = PAGE_AF ∧ e &&& F.field ≠ 0 := by
  have hfield : e &&& PAGE_AF = PAGE_AF →
      ((e &&& ~~~ PTE_PFN_MASK) ||| PAGE_AF) &&& F.field = e &&& F.field := by
    intro haf
    ext i hi
    have h1 := bit_of_eq F.field_clear i hi
    have h2 := bit_of_eq haf i hi
    grind
  refine ⟨fun h => ?_, fun ⟨haf, hne⟩ => ?_⟩
  · have haf : e &&& PAGE_AF = PAGE_AF := by
      ext i hi
      have h1 := bit_of_eq h i hi
      have h2 := bit_of_eq pfn_disjoint_af i hi
      have h3 := bit_of_eq type_disjoint_af i hi
      simp [leafProt_bit, ATTR_MASK] at h1 h2 h3 ⊢
      grind
    refine ⟨haf, fun hzero => F.dflt_field ?_⟩
    -- an empty field would have been given the default
    ext i hi
    have h1 := bit_of_eq h i hi
    have h2 := bit_of_eq hzero i hi
    have h3 := bit_of_eq F.dflt_clear i hi
    simp [leafProt_bit, ATTR_MASK] at h1
    grind
  · ext i hi
    have h1 := bit_of_eq haf i hi
    have h2 := bit_of_eq (leafDescType_le 0).1 i hi
    simp [leafProt_bit, ATTR_MASK] at h1 h2 ⊢
    grind

theorem pgentryPresent_eq (e : Word) : pgentryPresent e = e[0] := by
  have hbit : e &&& PAGE_DESC_VALID = if e[0] then 1 else 0 := by
    ext i hi
    rcases Nat.eq_zero_or_pos i with rfl | hpos
    · cases h : e[0] <;> simp [PAGE_DESC_VALID, h]
    · have h0 : i ≠ 0 := by omega
      split <;> simp [PAGE_DESC_VALID, h0]
  rw [pgentryPresent, hbit]
  cases e[0] <;> rfl

theorem archPgtlLarge_eq (e : Word) : archPgtlLarge e = (e[0] && !e[1]) := by
  have hbit : (e &&& PAGE_DESC_TYPE_MASK == PAGE_BLOCK_DESC) = (e[0] && !e[1]) := by
    rw [Bool.eq_iff_iff, beq_iff_eq]
    refine ⟨fun h => ?_, fun h => ?_⟩
    · have h0 := bit_of_eq h 0 (by omega)
      have h1 := bit_of_eq h 1 (by omega)
      simp [PAGE_DESC_TYPE_MASK, PAGE_BLOCK_DESC] at h0 h1
      simp [h0, h1]
    · ext i hi
      have htype := typeMask_bit ⟨i, hi⟩
      simp only [Fin.getElem_fin] at htype
      simp only [PAGE_BLOCK_DESC]
      grind
  rw [archPgtlLarge, hbit]
  have := pgentryPresent_eq e
  rw [pgentryPresent] at this
  rw [this]
  cases e[0] <;> simp

def ProtOk (prot : Word) : Prop := prot &&& PTE_PFN_MASK = 0

/-- A modification leaves address and type alone. -/
def ModOk (set clr : Word) : Prop :=
  (set ||| clr) &&& (PTE_PFN_MASK ||| PAGE_DESC_TYPE_MASK) = 0

def protAttrs (F : LeafFormat) (prot : Word) : Word :=
  leafProt F prot 0 &&& ATTR_MASK

theorem table_entry {l : Nat} (h : page % 4096 = 0) (hlt : page < 2 ^ 48) :
    pgentryPresent (setPgentry F page 0 l false) = true ∧
      archPgtlLarge (setPgentry F page 0 l false) = false ∧
      archPgtlPagePaddr (setPgentry F page 0 l false) = page := by
  obtain ⟨hin, hnat⟩ := paddr2pfn_page h hlt
  have hpaddr : setPgentry F page 0 l false &&& PTE_PFN_MASK = paddr2pfn page := by
    ext i hi
    have h1 := bit_of_eq hin i hi
    have h2 := bit_of_eq (show PAGE_TABLE_DESC &&& PTE_PFN_MASK = 0#64 by decide) i hi
    simp [setPgentry, makePgentry] at h1 h2 ⊢
    grind
  refine ⟨?_, ?_, ?_⟩
  · simp [pgentryPresent_eq, setPgentry, makePgentry, PAGE_TABLE_DESC]
  · simp [archPgtlLarge_eq, setPgentry, makePgentry, PAGE_TABLE_DESC]
  · rw [archPgtlPagePaddr, hpaddr, hnat]

theorem leaf_entry (F : LeafFormat) (prot : Word) (paddr l : Nat) :
    pgentryPresent (setPgentry F paddr prot l true) = true ∧
      (0 < l → archPgtlLarge (setPgentry F paddr prot l true) = true) ∧
      ProtOk (setPgentry F paddr prot l true &&& ~~~ PTE_PFN_MASK) := by
  have hvalid : (setPgentry F paddr prot l true)[0] = true := by
    have h1 := bit_of_eq (leafDescType_le l).2 0 (by omega)
    simp [setPgentry, makePgentry, leafProt_bit, PAGE_DESC_VALID] at h1 ⊢
    simp [h1]
  refine ⟨?_, fun hl => ?_, ?_⟩
  · rw [pgentryPresent_eq, hvalid]
  · have h1 := bit_of_eq (paddr2pfn_low paddr) 1 (by omega)
    have h2 := bit_of_eq F.dflt_clear 1 (by omega)
    rw [archPgtlLarge_eq]
    simp [setPgentry, makePgentry, leafProt_bit, PAGE_DESC_TYPE_MASK,
      leafDescType, PAGE_BLOCK_DESC, PAGE_AF, ne_of_gt hl] at h1 h2 ⊢
    simp [h1, h2]
  · rw [ProtOk, BitVec.and_assoc]
    simp

theorem leaf_encodes {paddr : Nat} (l : Nat) (hprot : ProtOk prot)
    (h : paddr % 4096 = 0) (hlt : paddr < 2 ^ 48) :
    archPgtlPagePaddr (setPgentry F paddr prot l true) = paddr ∧
      setPgentry F paddr prot l true &&& ATTR_MASK = protAttrs F prot ∧
      protAttrs F (setPgentry F paddr prot l true &&& ~~~ PTE_PFN_MASK) =
        setPgentry F paddr prot l true &&& ATTR_MASK := by
  obtain ⟨hin, hnat⟩ := paddr2pfn_page h hlt
  have hpaddr : setPgentry F paddr prot l true &&& PTE_PFN_MASK = paddr2pfn paddr := by
    ext i hi
    have h1 := bit_of_eq hin i hi
    have h2 := bit_of_eq hprot i hi
    have h3 := bit_of_eq F.dflt_clear i hi
    have h4 := bit_of_eq (leafDescType_le l).1 i hi
    have h5 := bit_of_eq pfn_disjoint_type i hi
    have h6 := bit_of_eq pfn_disjoint_af i hi
    simp [setPgentry, makePgentry, leafProt_bit] at h1 h2 h3 h4 h5 h6 ⊢
    grind
  refine ⟨by rw [archPgtlPagePaddr, hpaddr, hnat], ?_, ?_⟩
  · ext i hi
    have h1 := bit_of_eq hin i hi
    have h2 := bit_of_eq (leafDescType_le l).1 i hi
    have h3 := bit_of_eq (leafDescType_le 0).1 i hi
    simp [setPgentry, makePgentry, leafProt_bit, protAttrs, ATTR_MASK] at h1 h2 h3 ⊢
    grind
  -- the flag is always put in, and the default if the field was empty
  refine leafProt_normal.mpr ⟨?_, fun hzero => ?_⟩
  · ext i hi
    simp [setPgentry, makePgentry, leafProt_bit]
    grind
  by_cases hfield : (prot ||| PAGE_AF) &&& F.field = 0
  · refine F.dflt_field ?_
    ext i hi
    have h1 := bit_of_eq hzero i hi
    simp [setPgentry, makePgentry, leafProt_bit] at h1 ⊢
    grind
  · refine hfield ?_
    ext i hi
    have h1 := bit_of_eq hzero i hi
    have h2 := bit_of_eq F.field_clear i hi
    simp [setPgentry, makePgentry, leafProt_bit] at h1 h2 ⊢
    grind

theorem modify_leaf (h : ModOk set clr) (hp : pgentryPresent e = true) :
    pgentryPresent (e &&& ~~~ clr ||| set) = true ∧
      archPgtlLarge (e &&& ~~~ clr ||| set) = archPgtlLarge e ∧
      ProtOk ((e &&& ~~~ clr ||| set) &&& ~~~ PTE_PFN_MASK) := by
  have h0 := bit_of_eq h 0 (by omega)
  have h1 := bit_of_eq h 1 (by omega)
  simp [PAGE_DESC_TYPE_MASK] at h0 h1
  rw [pgentryPresent_eq] at hp
  refine ⟨?_, ?_, ?_⟩
  · simp [pgentryPresent_eq, hp, h0]
  · simp [archPgtlLarge_eq, h0, h1]
  · rw [ProtOk, BitVec.and_assoc]
    simp

theorem modify_encodes (e : Word) (h : ModOk set clr) :
    archPgtlPagePaddr (e &&& ~~~ clr ||| set) = archPgtlPagePaddr e ∧
      (e &&& ~~~ clr ||| set) &&& ATTR_MASK = (e &&& ATTR_MASK) &&& ~~~ clr ||| set := by
  have hpaddr : (e &&& ~~~ clr ||| set) &&& PTE_PFN_MASK = e &&& PTE_PFN_MASK := by
    ext i hi
    have h1 := bit_of_eq h i hi
    grind
  refine ⟨by rw [archPgtlPagePaddr, archPgtlPagePaddr, hpaddr], ?_⟩
  ext i hi
  have h1 := bit_of_eq h i hi
  simp [ATTR_MASK] at h1 ⊢
  grind

theorem pfn2paddr_mask (e : Word) : pfn2paddr (e &&& PTE_PFN_MASK) = archPgtlPagePaddr e := by
  obtain ⟨hpage, hlt⟩ := archPgtlPagePaddr_page e
  have hself : BitVec.ofNat 64 (archPgtlPagePaddr e) = e &&& PTE_PFN_MASK := by
    rw [archPgtlPagePaddr, BitVec.ofNat_toNat, BitVec.setWidth_eq]
  have := (paddr2pfn_page hpage hlt).2
  rwa [paddr2pfn, hself] at this

/-- The hook table of a descriptor format. -/
def pgtable (F : LeafFormat) : Pgtable where
  pgentryPresent := pgentryPresent
  largePageSupport := largePageSupport
  setPgentry := setPgentry F
  pgtlLarge := archPgtlLarge
  pgtlPagePaddr := archPgtlPagePaddr
  pfnMask := PTE_PFN_MASK
  pfn2paddr := pfn2paddr
  sanitizedPageHpa := 0
  attrMask := ATTR_MASK
  protAttrs := protAttrs F
  ProtOk := ProtOk
  ModOk := ModOk
  sanitized_absent := by decide
  sanitized_small := by decide
  paddr_page := archPgtlPagePaddr_page
  pfn2paddr_mask := pfn2paddr_mask
  table_entry := table_entry
  leaf_entry := fun paddr l _ => leaf_entry F _ paddr l
  leaf_encodes := leaf_encodes
  modify_leaf := fun h hp _ => modify_leaf h hp
  modify_encodes := modify_encodes

/-- The EL2 stage-1 table of the hypervisor. -/
def pptPgtable : Pgtable := pgtable pptFormat

/-- The stage-2 table of a guest. -/
def stage2Pgtable : Pgtable := pgtable stage2Format

end Sima.Arm64
