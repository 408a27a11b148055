import Mathlib.Tactic.Ring
import Sima.Mmu.PagePool
import Sima.Mmu.Pgtable

/-!
# Memory for extended page tables

The pages that EPTs are built from are reserved once, before any VM runs: one allocation for
the page pools of all VMs and one for their bitmaps, and another pair for the shadow EPTs of
nested guests. How much depends on the RAM of the platform. `e820_alloc_memory` carves whole
pages out of the highest RAM entry that has room, so whatever it returns is RAM, and no
later allocation gets it.

What is made of the two allocations is another matter. The pools of the VMs lie one behind
the other, at an offset that is accumulated in 32 bits, so they lie apart until the last one
starts 4 GiB behind the first. And for the shadow EPTs the bitmap is given a byte where it
has a word, which the rounding to a page makes up for as long as that is all that it needs.
-/

namespace Sima.X86

open Mmu

def mul64 (a b : Nat) : Nat := a * b % 2 ^ 64

/-! ## The memory map -/

inductive E820Type where
  | ram
  | reserved
  | acpiReclaim
  | acpiNvs
  | unusable
  deriving DecidableEq

structure E820Entry where
  baseaddr : Nat
  length : Nat
  type : E820Type
  deriving DecidableEq

def invalidHpa : Nat := 2 ^ 52

def e820MaxEntries : Nat := 64

def memSizeMax : Nat := 2 ^ 64 - 1

namespace E820Entry

def start (e : E820Entry) : Nat := roundPageUp e.baseaddr

def stop (e : E820Entry) : Nat := roundPageDown (add64 e.baseaddr e.length)

end E820Entry

/-- What `e820_alloc_memory` makes of one entry. -/
def e820TryEntry (size maxAddr i : Nat) (es : List E820Entry) :
    Option (Nat × List E820Entry) :=
  match es[i]? with
  | none => none
  | some e =>
    if e.type = .ram ∧ size ≤ e.stop - e.start ∧ add64 e.start size ≤ maxAddr then
      if e.stop - e.start = size then
        some (e.start, es.set i { e with type := .reserved })
      else if es.length < e820MaxEntries ∧ e.stop ≤ maxAddr then
        let baseaddr := sub64 e.stop size
        let length := sub64 (add64 e.baseaddr e.length) baseaddr
        some (baseaddr, es.set i { e with length := sub64 e.length length } ++
          [⟨baseaddr, length, .reserved⟩])
      else none
    else none

/-- The loop of `e820_alloc_memory`, from the last entry down. -/
def e820Loop (size maxAddr : Nat) : Nat → List E820Entry → Option (Nat × List E820Entry)
  | 0, _ => none
  | i + 1, es =>
    match e820TryEntry size maxAddr i es with
    | some (ret, es') =>
      if ret ≠ invalidHpa then some (ret, es') else e820Loop size maxAddr i es'
    | none => e820Loop size maxAddr i es

/-- `e820_alloc_memory`; it panics if there is no room, or none but at address zero. -/
def e820AllocMemory (sizeArg maxAddr : Nat) (es : List E820Entry) :
    Option (Nat × List E820Entry) :=
  match e820Loop (roundPageUp sizeArg) maxAddr es.length es with
  | some (ret, es') => if ret = 0 then none else some (ret, es')
  | none => none

/-! ## The pools -/

/-- What the generated configuration says, and the RAM that was found. -/
structure EptConfig where
  maxVmNum : Nat
  maxPciDevNum : Nat
  maximumPaWidth : Nat
  e820RamSize : Nat

/-- `PDPT_PAGE_NUM`, `PD_PAGE_NUM` and `PT_PAGE_NUM`: the tables of level `l` that a region
needs. -/
def tablePageNum (l size : Nat) : Nat := add64 size (levelSize (l + 1) - 1) / levelSize (l + 1)

section Ept

variable (c : EptConfig)

def getEptPageNum : Nat :=
  let high := c.maxPciDevNum * 6 % 2 ^ 32
  let eptPdPageNum := add64 (tablePageNum 1 (add64 c.e820RamSize (2 ^ 32))) high
  let eptPtPageNum := add64 (tablePageNum 0 (add64 c.e820RamSize (2 ^ 32))) high
  let maxPhyAddressSpace := 2 ^ c.maximumPaWidth % 2 ^ 64
  alignDown 64 (add64
    (add64 (add64 (1 + tablePageNum 2 maxPhyAddressSpace) eptPdPageNum) eptPtPageNum) 63)

def getTotalEpt4kPagesSize : Nat := mul64 (mul64 c.maxVmNum (getEptPageNum c)) 4096

def eptBitmapSize : Nat := mul64 (getEptPageNum c) c.maxVmNum / 8

/-- `reserve_buffer_for_ept_pages` with `reserve_ept_bitmap`: the two bases. -/
def reserveBufferForEptPages (es : List E820Entry) : Option (Nat × Nat × List E820Entry) := do
  let (pageBase, es) ← e820AllocMemory (getTotalEpt4kPagesSize c) memSizeMax es
  let (bitmapBase, es) ← e820AllocMemory (eptBitmapSize c) memSizeMax es
  return (pageBase, bitmapBase, es)

/-- `offset` as the loop comes to a VM: 32 bits. -/
def eptOffset : Nat → Nat
  | 0 => 0
  | vmId + 1 => (eptOffset vmId + mul64 (getEptPageNum c) 4096) % 2 ^ 32

end Ept

structure Region where
  base : Nat
  size : Nat

namespace Region

def Within (r s : Region) : Prop := s.base ≤ r.base ∧ r.base + r.size ≤ s.base + s.size

def Apart (r s : Region) : Prop := r.base + r.size ≤ s.base ∨ s.base + s.size ≤ r.base

instance decidableApart (r s : Region) : Decidable (r.Apart s) :=
  inferInstanceAs (Decidable (_ ∨ _))

end Region

/-- The part of a `page_pool` that says where it is. -/
structure PoolPlace where
  startPage : Nat
  bitmap : Nat
  bitmapSize : Nat

namespace PoolPlace

/-- The pages that `alloc_page` hands out. -/
def pages (p : PoolPlace) : Region := ⟨p.startPage, 64 * p.bitmapSize * 4096⟩

/-- The words that are cleared at first, and that `alloc_page` and `free_page` write. -/
def words (p : PoolPlace) : Region := ⟨p.bitmap, 8 * p.bitmapSize⟩

end PoolPlace

/-- `init_ept_pgtable`. -/
def eptPagePool (c : EptConfig) (pageBase bitmapBase vmId : Nat) : PoolPlace where
  startPage := add64 pageBase (eptOffset c vmId)
  bitmap := add64 bitmapBase (mul64 (getEptPageNum c / 8) vmId)
  bitmapSize := getEptPageNum c / 64

section Sept

variable (ram : Nat)

def calcSeptSize : Nat := mul64 ram 8 / 4096

def calcSeptPageNum : Nat := calcSeptSize ram / 4096

/-- `init_vept_pool`: the two bases. -/
def initVeptPool (es : List E820Entry) : Option (Nat × Nat × List E820Entry) := do
  let (pageBase, es) ← e820AllocMemory (calcSeptSize ram) memSizeMax es
  let (bitmapBase, es) ← e820AllocMemory (calcSeptPageNum ram / 64) memSizeMax es
  return (pageBase, bitmapBase, es)

/-- `init_vept`. -/
def septPagePool (pageBase bitmapBase : Nat) : PoolPlace :=
  ⟨pageBase, bitmapBase, calcSeptPageNum ram / 64⟩

end Sept

/-! ## What an allocation leaves -/

def E820Entry.region (e : E820Entry) : Region := ⟨e.baseaddr, e.length⟩

def RamAt (es : List E820Entry) (i : Nat) (e : E820Entry) : Prop :=
  es[i]? = some e ∧ e.type = .ram

/-- RAM ends where physical addresses do, and is described once. -/
structure MapOk (es : List E820Entry) : Prop where
  below : ∀ {i e}, RamAt es i e → e.baseaddr + e.length ≤ 2 ^ 52
  apart : ∀ {i j a b}, i ≠ j → RamAt es i a → RamAt es j b → a.region.Apart b.region

/-- Nothing becomes RAM that was not. -/
def Shrinks (es es' : List E820Entry) : Prop :=
  ∀ i b, RamAt es' i b → ∃ a, RamAt es i a ∧ b.region.Within a.region

/-- A region that is not empty was RAM, and none of it is left. -/
structure Carves (es es' : List E820Entry) (r : Region) : Prop where
  shrinks : Shrinks es es'
  below : r.base ≤ 2 ^ 53
  ram : 0 < r.size → ∃ i e, RamAt es i e ∧ r.Within e.region
  gone : 0 < r.size → ∀ {i b}, RamAt es' i b → r.Apart b.region

variable {es es' es'' : List E820Entry} {r s r' s' : Region} {size maxAddr i base : Nat}

theorem Region.Within.trans {t : Region} (h : r.Within s) (h' : s.Within t) : r.Within t :=
  ⟨le_trans h'.1 h.1, le_trans h.2 h'.2⟩

theorem Region.Apart.within (h : r.Apart s) (hr : r'.Within r) (hs : s'.Within s) :
    r'.Apart s' := by
  obtain ⟨hr₁, hr₂⟩ := hr
  obtain ⟨hs₁, hs₂⟩ := hs
  rw [Apart] at h ⊢
  omega

theorem Shrinks.ok (h : Shrinks es es') (hok : MapOk es) : MapOk es' := by
  refine ⟨fun hi => ?_, fun hij hi hj => ?_⟩
  · obtain ⟨a, ha, hin⟩ := h _ _ hi
    exact le_trans hin.2 (hok.below ha)
  · obtain ⟨a, ha, hina⟩ := h _ _ hi
    obtain ⟨b, hb, hinb⟩ := h _ _ hj
    exact (hok.apart hij ha hb).within hina hinb

theorem Carves.mono (h : Carves es' es'' r) (hs : Shrinks es es') : Carves es es'' r := by
  refine ⟨fun _ _ hc => ?_, h.below, fun hpos => ?_, h.gone⟩
  · obtain ⟨b, hb, hin⟩ := h.shrinks _ _ hc
    obtain ⟨a, ha, hin'⟩ := hs _ _ hb
    exact ⟨a, ha, hin.trans hin'⟩
  · obtain ⟨i, b, hb, hin⟩ := h.ram hpos
    obtain ⟨a, ha, hin'⟩ := hs _ _ hb
    exact ⟨i, a, ha, hin.trans hin'⟩

/-- A part of an entry is reserved, and `e'` is what is left of it. -/
theorem carves_set {e e' : E820Entry} {rest : List E820Entry} (hok : MapOk es)
    (hi : RamAt es i e) (hlow : r.base ≤ 2 ^ 53) (hr : 0 < r.size → r.Within e.region)
    (hrest : ∀ b ∈ rest, b.type ≠ .ram)
    (he' : e'.type = .ram → e'.region.Within e.region ∧ (0 < r.size → r.Apart e'.region)) :
    Carves es (es.set i e' ++ rest) r := by
  have hcase : ∀ {k b}, RamAt (es.set i e' ++ rest) k b →
      (k = i ∧ b = e') ∨ (k ≠ i ∧ RamAt es k b) := by
    intro k b hb
    obtain ⟨hb, hram⟩ := hb
    rw [List.getElem?_append, List.length_set] at hb
    split at hb
    · next hlt =>
      rw [List.getElem?_set] at hb
      split at hb
      · next hik =>
        rw [if_pos (hik ▸ hlt)] at hb
        exact .inl ⟨hik.symm, (Option.some.inj hb).symm⟩
      · next hik => exact .inr ⟨Ne.symm hik, hb, hram⟩
    · exact absurd hram (hrest b (List.mem_of_getElem? hb))
  refine ⟨fun _ _ hb => ?_, hlow, fun hpos => ⟨i, e, hi, hr hpos⟩, fun hpos _ _ hb => ?_⟩
  · obtain ⟨rfl, rfl⟩ | ⟨-, hb'⟩ := hcase hb
    · exact ⟨e, hi, (he' hb.2).1⟩
    · exact ⟨_, hb', le_rfl, le_rfl⟩
  · obtain ⟨rfl, rfl⟩ | ⟨hki, hb'⟩ := hcase hb
    · exact (he' hb.2).2 hpos
    · exact (hok.apart (Ne.symm hki) hi hb').within (hr hpos) ⟨le_rfl, le_rfl⟩

theorem E820Entry.bounds (e : E820Entry) (h : e.baseaddr + e.length ≤ 2 ^ 52) :
    e.baseaddr ≤ e.start ∧ e.start ≤ 2 ^ 53 ∧ e.stop ≤ e.baseaddr + e.length ∧
      add64 e.baseaddr e.length = e.baseaddr + e.length := by
  simp only [E820Entry.start, E820Entry.stop, roundPageUp, roundPageDown, alignDown, add64]
  omega

theorem e820TryEntry_carves (hok : MapOk es)
    (h : e820TryEntry size maxAddr i es = some (base, es')) : Carves es es' ⟨base, size⟩ := by
  rw [e820TryEntry] at h
  split at h
  · cases h
  rename_i e hi
  split at h
  · next hc =>
    obtain ⟨hram, hroom, -⟩ := hc
    have hlow := hok.below ⟨hi, hram⟩
    obtain ⟨hstart, hstart', hstop, hadd⟩ := e.bounds hlow
    split at h
    · next hexact =>
      obtain ⟨rfl, rfl⟩ := Prod.mk.inj (Option.some.inj h)
      rw [← List.append_nil (es.set i _)]
      refine carves_set hok ⟨hi, hram⟩ hstart' ?_ (by simp) fun hres => by cases hres
      simp only [Region.Within, E820Entry.region]
      omega
    split at h
    · obtain ⟨rfl, rfl⟩ := Prod.mk.inj (Option.some.inj h)
      refine carves_set hok ⟨hi, hram⟩ ?_ ?_ (by simp) fun _ => ?_
      · simp only [sub64]
        omega
      · simp only [Region.Within, E820Entry.region, sub64]
        omega
      · simp only [Region.Within, Region.Apart, E820Entry.region, sub64]
        omega
    · cases h
  · cases h

theorem e820Loop_carves {n : Nat} (hok : MapOk es)
    (h : e820Loop size maxAddr n es = some (base, es')) : Carves es es' ⟨base, size⟩ := by
  induction n generalizing es with
  | zero => cases h
  | succ n ih =>
    rw [e820Loop] at h
    split at h
    · next ret es₁ htry =>
      have hcarve := e820TryEntry_carves hok htry
      split at h
      · obtain ⟨rfl, rfl⟩ := Prod.mk.inj (Option.some.inj h)
        exact hcarve
      · exact (ih (hcarve.shrinks.ok hok) h).mono hcarve.shrinks
    · exact ih hok h

theorem e820AllocMemory_carves {sizeArg : Nat} (hok : MapOk es)
    (h : e820AllocMemory sizeArg maxAddr es = some (base, es')) :
    Carves es es' ⟨base, roundPageUp sizeArg⟩ := by
  rw [e820AllocMemory] at h
  split at h
  · next hl =>
    split at h
    · cases h
    · obtain ⟨rfl, rfl⟩ := Prod.mk.inj (Option.some.inj h)
      exact e820Loop_carves hok hl
  · cases h

theorem alloc_twice_carves {a b x y : Nat} (hok : MapOk es) (h : (do
      let (x, es) ← e820AllocMemory a maxAddr es
      let (y, es) ← e820AllocMemory b maxAddr es
      return (x, y, es)) = some (x, y, es')) :
    ∃ es₁, Carves es es₁ ⟨x, roundPageUp a⟩ ∧ Carves es₁ es' ⟨y, roundPageUp b⟩ := by
  simp only [Option.bind_eq_bind, Option.bind_eq_some_iff, Prod.exists] at h
  obtain ⟨x', es₁, hx, y', es₂, hy, heq⟩ := h
  obtain ⟨rfl, rfl, rfl⟩ : x' = x ∧ y' = y ∧ es₂ = es' := by simpa using heq
  have hx := e820AllocMemory_carves hok hx
  exact ⟨es₁, hx, e820AllocMemory_carves (hx.shrinks.ok hok) hy⟩

/-! ## The pools of the VMs -/

section Pools

variable {c : EptConfig} {pageBase bitmapBase vmId : Nat}

theorem tablePageNum_lt (l size : Nat) : tablePageNum l size < 2 ^ 43 := by
  have hsize : 4096 * 512 ≤ levelSize (l + 1) := by
    rw [levelSize, pow_succ']
    exact Nat.mul_le_mul_left _ (Nat.le_mul_of_pos_right _ (Nat.pow_pos (by decide)))
  rw [tablePageNum, Nat.div_lt_iff_lt_mul (by omega)]
  have hlt : add64 size (levelSize (l + 1) - 1) < 2 ^ 64 := Nat.mod_lt _ (by decide)
  omega

theorem getEptPageNum_spec (c : EptConfig) : ∃ n, getEptPageNum c = 64 * n ∧
    0 < n ∧ n < 2 ^ 40 := by
  have hpdpt := tablePageNum_lt 2 (2 ^ c.maximumPaWidth % 2 ^ 64)
  have hpd := tablePageNum_lt 1 (add64 c.e820RamSize (2 ^ 32))
  have hpt := tablePageNum_lt 0 (add64 c.e820RamSize (2 ^ 32))
  have hhigh : c.maxPciDevNum * 6 % 2 ^ 32 < 2 ^ 32 := Nat.mod_lt _ (by decide)
  simp only [getEptPageNum]
  generalize tablePageNum 1 _ = pd at hpd ⊢
  generalize tablePageNum 0 _ = pt at hpt ⊢
  generalize c.maxPciDevNum * 6 % 2 ^ 32 = high at hhigh ⊢
  refine ⟨_, mul_comm .., ?_⟩
  simp only [add64]
  omega

theorem eptOffset_eq (hS : mul64 (getEptPageNum c) 4096 = getEptPageNum c * 4096) :
    eptOffset c vmId = vmId * (getEptPageNum c * 4096) % 2 ^ 32 := by
  induction vmId with
  | zero => rw [eptOffset, zero_mul, Nat.zero_mod]
  | succ i ih => rw [eptOffset, ih, hS, Nat.mod_add_mod, Nat.succ_mul]

/-- The page pools and the bitmaps lie in what was reserved for them, and apart. -/
structure Separate (n : Nat) (pool : Nat → PoolPlace) (pageRoom wordRoom : Region) : Prop where
  pages : ∀ i < n, (pool i).pages.Within pageRoom
  words : ∀ i < n, (pool i).words.Within wordRoom
  others : ∀ i < n, ∀ j < n, i ≠ j →
    (pool i).pages.Apart (pool j).pages ∧ (pool i).words.Apart (pool j).words
  mixed : ∀ i < n, ∀ j < n, (pool i).pages.Apart (pool j).words

theorem Region.row {b S n i j : Nat} (hi : i < n) :
    Within ⟨b + i * S, S⟩ ⟨b, n * S⟩ ∧ (i ≠ j → Apart ⟨b + i * S, S⟩ ⟨b + j * S, S⟩) := by
  have hle : ∀ {i j}, i < j → i * S + S ≤ j * S := by
    intro i j hij
    rw [← Nat.succ_mul]
    exact Nat.mul_le_mul_right S hij
  have hn := hle hi
  simp only [Within, Apart]
  refine ⟨by omega, fun hij => ?_⟩
  rcases lt_or_gt_of_ne hij with hlt | hlt
  · have := hle hlt
    omega
  · have := hle hlt
    omega

/-- A pool whose offset does not fit into 32 bits starts in the pool of another VM. -/
theorem exists_overlap {S n : Nat} (hS : 0 < S) (hn : 2 ^ 32 ≤ (n - 1) * S) :
    ∃ i < n, ∃ j < i, j * S % 2 ^ 32 ≤ i * S % 2 ^ 32 ∧ i * S % 2 ^ 32 < j * S % 2 ^ 32 + S := by
  obtain ⟨i, hi⟩ : ∃ i, i = n - 1 := ⟨_, rfl⟩
  rw [← hi] at hn
  have hpos : 0 < i := by
    refine pos_of_ne_zero fun h0 => ?_
    rw [h0] at hn
    omega
  have hdiv := Nat.div_add_mod' (i * S % 2 ^ 32) S
  have hmod := Nat.mod_lt (i * S % 2 ^ 32) hS
  refine ⟨i, by omega, i * S % 2 ^ 32 / S, ?_, ?_⟩
  · rw [Nat.div_lt_iff_lt_mul hS]
    omega
  · omega

theorem eptPagePool_pages (hlow : pageBase ≤ 2 ^ 53) :
    (eptPagePool c pageBase bitmapBase vmId).pages =
      ⟨pageBase + vmId * (getEptPageNum c * 4096) % 2 ^ 32, getEptPageNum c * 4096⟩ := by
  obtain ⟨n, hn, hpos, hlt⟩ := getEptPageNum_spec c
  have hS : mul64 (getEptPageNum c) 4096 = getEptPageNum c * 4096 := Nat.mod_eq_of_lt (by omega)
  simp only [PoolPlace.pages, eptPagePool, eptOffset_eq hS, add64, Region.mk.injEq]
  omega

/-- With offsets that fit, the two allocations are as large as the pools. -/
theorem rooms_of_fit (hvm : vmId < c.maxVmNum)
    (hfit : (c.maxVmNum - 1) * (getEptPageNum c * 4096) < 2 ^ 32) :
    roundPageUp (getTotalEpt4kPagesSize c) = c.maxVmNum * (getEptPageNum c * 4096) ∧
      c.maxVmNum * (getEptPageNum c / 8) ≤ roundPageUp (eptBitmapSize c) ∧
      vmId * (getEptPageNum c * 4096) < 2 ^ 32 := by
  obtain ⟨n, hn, hpos, hlt⟩ := getEptPageNum_spec c
  have hvm' := Nat.mul_le_mul_right (getEptPageNum c * 4096) (Nat.le_pred_of_lt hvm)
  have hlast : c.maxVmNum * n = (c.maxVmNum - 1) * n + n := by
    rw [← Nat.succ_mul, Nat.succ_eq_add_one, Nat.sub_add_cancel (by omega)]
  rw [hn] at hfit hvm' ⊢
  have hdiv : 64 * n / 8 = 8 * n := by omega
  rw [getTotalEpt4kPagesSize, eptBitmapSize, hn, hdiv]
  have hS : ∀ m, m * (64 * n * 4096) = m * n * 262144 := fun m => by ring
  have hW : c.maxVmNum * (8 * n) = c.maxVmNum * n * 8 := by ring
  have hP : c.maxVmNum * (64 * n) = c.maxVmNum * n * 64 := by ring
  simp only [Nat.pred_eq_sub_one, hS] at hfit hvm' ⊢
  simp only [mul64, mul_comm (64 * n) c.maxVmNum, roundPageUp, alignDown, add64]
  omega

/-- For every amount of RAM and number of VMs: where the memory could be reserved, the pools
are separate exactly if the last one starts less than 4 GiB behind the first. -/
theorem ept_pools_separate_iff (hok : MapOk es)
    (h : reserveBufferForEptPages c es = some (pageBase, bitmapBase, es')) :
    Separate c.maxVmNum (eptPagePool c pageBase bitmapBase)
        ⟨pageBase, roundPageUp (getTotalEpt4kPagesSize c)⟩
        ⟨bitmapBase, roundPageUp (eptBitmapSize c)⟩ ↔
      (c.maxVmNum - 1) * (getEptPageNum c * 4096) < 2 ^ 32 := by
  obtain ⟨n, hn, hpos, hlt⟩ := getEptPageNum_spec c
  obtain ⟨es₁, hpages, hwords⟩ := alloc_twice_carves hok h
  constructor
  · intro hsep
    by_contra hover
    obtain ⟨i, hi, j, hji, hle, hlt'⟩ := exists_overlap (by omega) (not_lt.mp hover)
    have hapart := (hsep.others i hi j (lt_trans hji hi) (ne_of_gt hji)).1
    rw [eptPagePool_pages hpages.below, eptPagePool_pages hpages.below, Region.Apart] at hapart
    dsimp only at hapart
    omega
  intro hfit
  have hat : ∀ i < c.maxVmNum, (eptPagePool c pageBase bitmapBase i).pages =
        ⟨pageBase + i * (getEptPageNum c * 4096), getEptPageNum c * 4096⟩ ∧
      (eptPagePool c pageBase bitmapBase i).words =
        ⟨bitmapBase + i * (getEptPageNum c / 8), getEptPageNum c / 8⟩ := by
    intro i hi
    obtain ⟨-, -, hoff⟩ := rooms_of_fit hi hfit
    refine ⟨by rw [eptPagePool_pages hpages.below, Nat.mod_eq_of_lt hoff], ?_⟩
    have hlow := hwords.below
    dsimp only at hlow
    have hw : i * (getEptPageNum c / 8) ≤ i * (getEptPageNum c * 4096) :=
      Nat.mul_le_mul_left _ (by omega)
    simp only [PoolPlace.words, eptPagePool, mul64, add64, Region.mk.injEq,
      mul_comm (getEptPageNum c / 8) i]
    omega
  have hpagesIn : ∀ i < c.maxVmNum, (eptPagePool c pageBase bitmapBase i).pages.Within
      ⟨pageBase, roundPageUp (getTotalEpt4kPagesSize c)⟩ := by
    intro i hi
    rw [(hat i hi).1, (rooms_of_fit hi hfit).1]
    exact (Region.row (j := 0) hi).1
  have hwordsIn : ∀ i < c.maxVmNum, (eptPagePool c pageBase bitmapBase i).words.Within
      ⟨bitmapBase, roundPageUp (eptBitmapSize c)⟩ := by
    intro i hi
    rw [(hat i hi).2]
    refine (Region.row (j := 0) hi).1.trans ⟨le_rfl, ?_⟩
    exact Nat.add_le_add_left (rooms_of_fit hi hfit).2.1 bitmapBase
  refine ⟨hpagesIn, hwordsIn, fun i hi j hj hij => ?_, fun i hi j hj => ?_⟩
  · rw [(hat i hi).1, (hat i hi).2, (hat j hj).1, (hat j hj).2]
    exact ⟨(Region.row hi).2 hij, (Region.row hi).2 hij⟩
  -- the second allocation is from the RAM that the first has left
  have hrow : c.maxVmNum * 8 ≤ c.maxVmNum * (getEptPageNum c / 8) :=
    Nat.mul_le_mul_left _ (by omega)
  have hrooms := rooms_of_fit hi hfit
  obtain ⟨k, b, hb, hin⟩ := hwords.ram (show 0 < roundPageUp (eptBitmapSize c) by omega)
  have hsize : 0 < roundPageUp (getTotalEpt4kPagesSize c) := by
    rw [hrooms.1]
    exact mul_pos (by omega) (by omega)
  exact (hpages.gone hsize hb).within (hpagesIn i hi) ((hwordsIn j hj).trans hin)

theorem mapOk_singleton {e : E820Entry} (h : e.baseaddr + e.length ≤ 2 ^ 52) : MapOk [e] := by
  have hat : ∀ {i b}, RamAt [e] i b → i = 0 ∧ b = e := by
    intro i b hb
    cases i with
    | zero => exact ⟨rfl, (Option.some.inj hb.1).symm⟩
    | succ i => cases hb.1
  refine ⟨fun hi => (hat hi).2 ▸ h, fun hij hi hj => ?_⟩
  exact absurd ((hat hi).1.trans (hat hj).1.symm) hij

/-- Eight VMs on 16 GiB. -/
theorem ept_pools_separate_16GiB :
    Separate 8 (eptPagePool ⟨8, 16, 39, 2 ^ 34⟩ 21130903552 21130891264)
      ⟨21130903552, 343932928⟩ ⟨21130891264, 12288⟩ :=
  (ept_pools_separate_iff (c := ⟨8, 16, 39, 2 ^ 34⟩)
    (mapOk_singleton (e := ⟨2 ^ 32, 2 ^ 34, .ram⟩) (by decide)) rfl).mpr (by decide)

/-- Sixteen VMs on 160 GiB: the pool of VM 13 starts inside that of VM 0. -/
theorem ept_pools_overlap_160GiB :
    ∃ es', reserveBufferForEptPages ⟨16, 16, 39, 5 * 2 ^ 35⟩ [⟨2 ^ 32, 5 * 2 ^ 35, .ram⟩] =
        some (170565566464, 170565394432, es') ∧
      ¬ (eptPagePool ⟨16, 16, 39, 5 * 2 ^ 35⟩ 170565566464 170565394432 13).pages.Apart
        (eptPagePool ⟨16, 16, 39, 5 * 2 ^ 35⟩ 170565566464 170565394432 0).pages :=
  ⟨_, rfl, by decide⟩

end Pools

/-! ## The pool of the shadow EPTs -/

/-- For every amount of RAM: what is reserved was RAM. It is enough exactly if the bitmap has
no more than 512 words, and whatever page `alloc_page` hands out or `free_page` takes back,
the page and its word are in the pool. -/
theorem vept_pool_reserved_iff {ram pageBase bitmapBase : Nat} (hok : MapOk es)
    (h : initVeptPool ram es = some (pageBase, bitmapBase, es')) :
    let place := septPagePool ram pageBase bitmapBase
    let pageRoom : Region := ⟨pageBase, roundPageUp (calcSeptSize ram)⟩
    let wordRoom : Region := ⟨bitmapBase, roundPageUp (calcSeptPageNum ram / 64)⟩
    (∃ es₁, Carves es es₁ pageRoom ∧ Carves es₁ es' wordRoom) ∧
      (place.pages.Within pageRoom ∧ place.words.Within wordRoom ↔
        calcSeptPageNum ram / 64 ≤ 512) ∧
      ∀ (pool : PagePool) p, pool.startPage = place.startPage →
        pool.bitmapSize = place.bitmapSize → pool.Free p ∨ pool.Allocated p →
        ∃ n, p = pool.page n ∧ Region.Within ⟨p, 4096⟩ place.pages ∧
          Region.Within ⟨place.bitmap + 8 * (n / 64), 8⟩ place.words := by
  intro place pageRoom wordRoom
  refine ⟨alloc_twice_carves hok h, ?_, fun pool p hstart hsize hp => ?_⟩
  · have hlt : calcSeptSize ram < 2 ^ 52 := by
      have : mul64 ram 8 < 2 ^ 64 := Nat.mod_lt _ (by decide)
      rw [calcSeptSize]
      omega
    simp only [place, pageRoom, wordRoom, septPagePool, PoolPlace.pages, PoolPlace.words,
      Region.Within, roundPageUp, alignDown, add64, calcSeptPageNum]
    omega
  · obtain ⟨n, hn, rfl⟩ : ∃ n < 64 * place.bitmapSize, p = pool.page n := by
      rw [← hsize]
      rcases hp with ⟨n, hn, hp, -⟩ | ⟨n, hn, hp, -⟩ <;> exact ⟨n, hn, hp⟩
    refine ⟨n, rfl, ?_⟩
    simp only [PagePool.page, hstart, PoolPlace.pages, PoolPlace.words, Region.Within]
    omega

theorem vept_pool_reserved_16GiB :
    let place := septPagePool (2 ^ 34) 21441282048 21441277952
    place.pages.Within ⟨21441282048, 33554432⟩ ∧ place.words.Within ⟨21441277952, 4096⟩ :=
  (vept_pool_reserved_iff
    (mapOk_singleton (e := ⟨2 ^ 32, 2 ^ 34, .ram⟩) (by decide)) rfl).2.1.mpr (by decide)

/-- 128 GiB: the bitmap is of two pages, and one is reserved. -/
theorem vept_bitmap_overruns_128GiB : ∃ es', initVeptPool (2 ^ 37) [⟨2 ^ 32, 2 ^ 37, .ram⟩] =
        some (141465485312, 141465481216, es') ∧
      ¬ (septPagePool (2 ^ 37) 141465485312 141465481216).words.Within
        ⟨141465481216, roundPageUp (calcSeptPageNum (2 ^ 37) / 64)⟩ :=
  ⟨_, rfl, fun h => absurd h.2 (by decide)⟩

end Sima.X86
