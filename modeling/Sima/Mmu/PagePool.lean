import Mathlib.Data.BitVec
import Mathlib.Tactic.Common
import Mathlib.Logic.Function.Basic

/-!
# The pool that page-table pages come from

`alloc_page` and `free_page` of core/mmu.c hand out the pages of one contiguous
region, with one bit per page in a bitmap of 64-bit words. Allocation scans the
words round-robin from a hint, takes the first clear bit of the first word that
is not full, and moves the hint there.

What the page tables need to know about it is short: a page handed out was free
before, it is the only page whose state changed, and the same holds in the
other direction when a page is freed. The region's alignment and extent are
fields of the pool, so that every page number names a page the descriptors can
address and no later proof has to ask.
-/

namespace Sima.Mmu

abbrev Word := BitVec 64

/-- `struct page_pool`. Pages are byte addresses; `bitmapSize` counts words. -/
structure PagePool where
  startPage : Nat
  bitmap : Nat → Word
  bitmapSize : Nat
  lastHintId : Nat
  dummyPage : Option Nat
  /-- `struct page` is page-aligned. -/
  aligned : startPage % 4096 = 0
  /-- The pool lies below the 48 bits a descriptor can address. -/
  below : startPage + 64 * bitmapSize * 4096 ≤ 2 ^ 48

/-- The index of the lowest clear bit; 64 stands for `INVALID_BIT_INDEX`. -/
def ffz64 (w : Word) : Nat :=
  ((List.range 64).find? fun b => !w.getLsbD b).getD 64

theorem ffz64_spec {w : Word} (h : w ≠ BitVec.allOnes 64) :
    ffz64 w < 64 ∧ w.getLsbD (ffz64 w) = false := by
  cases hf : (List.range 64).find? fun b => !w.getLsbD b with
  | none =>
    -- no clear bit below 64 is the all-ones word
    refine absurd (BitVec.eq_of_getLsbD_eq fun b hb => ?_) h
    have hset := List.find?_eq_none.mp hf b (List.mem_range.mpr hb)
    simp only [Bool.not_eq_true', Bool.not_eq_false] at hset
    rw [hset, BitVec.getLsbD_allOnes]
    simp [hb]
  | some b =>
    have hb := List.mem_range.mp (List.mem_of_find?_eq_some hf)
    have hclear := List.find?_some hf
    simp only [Bool.not_eq_true'] at hclear
    simp only [ffz64, hf]
    exact ⟨hb, hclear⟩

/-- `init_page_pool`, for a region that is page-aligned and addressable. -/
def initPagePool (pageBase pageNum : Nat) (haligned : pageBase % 4096 = 0)
    (hbelow : pageBase + 64 * (pageNum / 8 / 8) * 4096 ≤ 2 ^ 48) : PagePool where
  startPage := pageBase
  bitmap := fun _ => 0
  bitmapSize := pageNum / 8 / 8
  lastHintId := 0
  dummyPage := none
  aligned := haligned
  below := hbelow

namespace PagePool

section

variable (pool : PagePool)

/-- The address of page number `n`: `pool->start_page + n`. -/
def page (n : Nat) : Nat := pool.startPage + n * 4096

/-- The bit of page number `n`. -/
def used (n : Nat) : Bool :=
  (pool.bitmap (n / 64)).getLsbD (n % 64)

/-- `bitmap_set_non_atomic` on word `idx`. -/
def setBit (idx bit : Nat) : PagePool :=
  { pool with
    bitmap := Function.update pool.bitmap idx (pool.bitmap idx ||| BitVec.twoPow 64 bit) }

/-- `bitmap_clear_non_atomic` on word `idx`. -/
def clearBit (idx bit : Nat) : PagePool :=
  { pool with
    bitmap := Function.update pool.bitmap idx (pool.bitmap idx &&& ~~~ BitVec.twoPow 64 bit) }

/-- The scan of `alloc_page`: `n` words left to try, the next one being
`loopIdx % bitmapSize`. Gives the word index and the bit. -/
def scan (pool : PagePool) : Nat → Nat → Option (Nat × Nat)
  | 0, _ => none
  | n + 1, loopIdx =>
    let idx := loopIdx % pool.bitmapSize
    if pool.bitmap idx ≠ BitVec.allOnes 64 then
      some (idx, ffz64 (pool.bitmap idx))
    else
      scan pool n (loopIdx + 1)

/-- The locked part of `alloc_page`: the page taken, and the pool after. -/
def take : Option (Nat × PagePool) :=
  match pool.scan pool.bitmapSize pool.lastHintId with
  | some (idx, bit) =>
    some (pool.page (idx * 64 + bit), { pool.setBit idx bit with lastHintId := idx })
  | none => none

/-- `free_page`. -/
def give (page : Nat) : PagePool :=
  let n := (page - pool.startPage) / 4096
  pool.clearBit (n / 64) (n % 64)

/-- A page of the pool whose bit is set. -/
def Allocated (p : Nat) : Prop :=
  ∃ n < 64 * pool.bitmapSize, p = pool.page n ∧ pool.used n = true

/-- A page of the pool whose bit is clear. -/
def Free (p : Nat) : Prop :=
  ∃ n < 64 * pool.bitmapSize, p = pool.page n ∧ pool.used n = false

end

/-! ## One bit at a time -/

variable {pool pool' : PagePool} {p q n bit idx : Nat}

theorem used_setBit (hbit : bit < 64) :
    (pool.setBit idx bit).used n = (pool.used n || decide (n = idx * 64 + bit)) := by
  unfold used setBit
  by_cases hidx : n / 64 = idx
  · have hn : (n = idx * 64 + bit) ↔ bit = n % 64 := by omega
    simp [hidx, hn, hbit]
  · have hn : ¬ n = idx * 64 + bit := by omega
    simp [Function.update_of_ne hidx, hn]

theorem used_clearBit (hbit : bit < 64) :
    (pool.clearBit idx bit).used n = (pool.used n && !decide (n = idx * 64 + bit)) := by
  unfold used clearBit
  by_cases hidx : n / 64 = idx
  · have hn : (n = idx * 64 + bit) ↔ bit = n % 64 := by omega
    have hlt : n % 64 < 64 := Nat.mod_lt _ (by omega)
    simp only [hidx, Function.update_self, BitVec.getLsbD_and,
      BitVec.getLsbD_not, BitVec.getLsbD_twoPow, hn, hlt, hbit, decide_true,
      Bool.true_and]
  · have hn : ¬ n = idx * 64 + bit := by omega
    simp [Function.update_of_ne hidx, hn]

theorem page_inj {m : Nat} (h : pool.page n = pool.page m) : n = m := by
  unfold page at h
  omega

theorem page_addressable (hn : n < 64 * pool.bitmapSize) :
    pool.page n % 4096 = 0 ∧ pool.page n < 2 ^ 48 := by
  have ha := pool.aligned
  have hb := pool.below
  rw [page]
  omega

theorem Allocated.addressable (h : pool.Allocated p) : p % 4096 = 0 ∧ p < 2 ^ 48 := by
  obtain ⟨n, hn, rfl, -⟩ := h
  exact page_addressable hn

theorem Free.addressable (h : pool.Free p) : p % 4096 = 0 ∧ p < 2 ^ 48 := by
  obtain ⟨n, hn, rfl, -⟩ := h
  exact page_addressable hn

theorem not_allocated_of_free (h : pool.Free p) : ¬ pool.Allocated p := by
  rintro ⟨m, -, hm, hu⟩
  obtain ⟨n, -, rfl, hf⟩ := h
  rw [← page_inj hm, hf] at hu
  cases hu

/-! ## Taking a page and giving one back -/

theorem scan_spec {k loopIdx : Nat} (h : pool.scan k loopIdx = some (idx, bit))
    (hsize : 0 < pool.bitmapSize) :
    idx < pool.bitmapSize ∧ bit < 64 ∧ pool.used (idx * 64 + bit) = false := by
  induction k generalizing loopIdx with
  | zero => cases h
  | succ k ih =>
    simp only [scan] at h
    split at h
    · next hfull =>
      obtain ⟨rfl, rfl⟩ := Prod.mk.inj (Option.some.inj h)
      obtain ⟨hlt, hclear⟩ := ffz64_spec hfull
      refine ⟨Nat.mod_lt _ hsize, hlt, ?_⟩
      have hdiv : (loopIdx % pool.bitmapSize * 64 +
          ffz64 (pool.bitmap (loopIdx % pool.bitmapSize))) / 64 =
            loopIdx % pool.bitmapSize := by omega
      have hmod : (loopIdx % pool.bitmapSize * 64 +
          ffz64 (pool.bitmap (loopIdx % pool.bitmapSize))) % 64 =
            ffz64 (pool.bitmap (loopIdx % pool.bitmapSize)) := by omega
      unfold used
      rw [hdiv, hmod]
      exact hclear
    · exact ih h

/-- Two pools over one region: only the bits and the hint may differ. -/
structure SameRegion (pool pool' : PagePool) : Prop where
  startPage : pool'.startPage = pool.startPage
  bitmapSize : pool'.bitmapSize = pool.bitmapSize
  dummyPage : pool'.dummyPage = pool.dummyPage

theorem SameRegion.refl (pool : PagePool) : SameRegion pool pool := ⟨rfl, rfl, rfl⟩

theorem SameRegion.trans {pool'' : PagePool} (h : SameRegion pool pool')
    (h' : SameRegion pool' pool'') : SameRegion pool pool'' :=
  ⟨h'.1.trans h.1, h'.2.trans h.2, h'.3.trans h.3⟩

theorem take_spec (h : pool.take = some (p, pool')) :
    pool.Free p ∧ (∀ q, pool'.Allocated q ↔ pool.Allocated q ∨ q = p) ∧ SameRegion pool pool' := by
  unfold take at h
  split at h
  · next idx bit hscan =>
    obtain ⟨rfl, rfl⟩ := Prod.mk.inj (Option.some.inj h)
    have hsize : 0 < pool.bitmapSize := by
      rcases Nat.eq_zero_or_pos pool.bitmapSize with h0 | hpos
      · rw [h0] at hscan; cases hscan
      · exact hpos
    obtain ⟨hidx, hbit, hclear⟩ := scan_spec hscan hsize
    refine ⟨⟨idx * 64 + bit, by omega, rfl, hclear⟩, fun q => ?_, ⟨rfl, rfl, rfl⟩⟩
    have hused : ∀ n, PagePool.used
        { pool.setBit idx bit with lastHintId := idx } n =
          (pool.used n || decide (n = idx * 64 + bit)) :=
      fun n => used_setBit hbit
    constructor
    · rintro ⟨n, hn, rfl, hu⟩
      rw [hused, Bool.or_eq_true, decide_eq_true_eq] at hu
      rcases hu with hu | rfl
      · exact .inl ⟨n, hn, rfl, hu⟩
      · exact .inr rfl
    · rintro (⟨n, hn, rfl, hu⟩ | rfl)
      · exact ⟨n, hn, rfl, by rw [hused, hu, Bool.true_or]⟩
      · exact ⟨idx * 64 + bit, by show _ < 64 * pool.bitmapSize; omega, rfl, by rw [hused]; simp⟩
  · cases h

theorem give_spec (h : pool.Allocated p) :
    (∀ q, (pool.give p).Allocated q ↔ pool.Allocated q ∧ q ≠ p) ∧
      SameRegion pool (pool.give p) := by
  obtain ⟨m, hm, rfl, hum⟩ := h
  refine ⟨fun q => ?_, ⟨rfl, rfl, rfl⟩⟩
  have hnum : (pool.page m - pool.startPage) / 4096 = m := by
    unfold page
    omega
  have hused : ∀ n, (pool.give (pool.page m)).used n = (pool.used n && !decide (n = m)) := by
    intro n
    unfold give
    rw [hnum, used_clearBit (Nat.mod_lt _ (by omega))]
    have : m / 64 * 64 + m % 64 = m := by omega
    rw [this]
  constructor
  · rintro ⟨n, hn, rfl, hu⟩
    rw [hused, Bool.and_eq_true, Bool.not_eq_true', decide_eq_false_iff_not] at hu
    exact ⟨⟨n, hn, rfl, hu.1⟩, fun heq => hu.2 (page_inj heq)⟩
  · rintro ⟨⟨n, hn, rfl, hu⟩, hne⟩
    have hnm : n ≠ m := fun heq => hne (by rw [heq])
    exact ⟨n, hn, rfl, by rw [hused, hu]; simp [hnm]⟩

theorem free_iff : pool.Free p ↔
    (∃ n < 64 * pool.bitmapSize, p = pool.page n) ∧ ¬ pool.Allocated p := by
  constructor
  · intro h
    refine ⟨?_, not_allocated_of_free h⟩
    obtain ⟨n, hn, hp, -⟩ := h
    exact ⟨n, hn, hp⟩
  · rintro ⟨⟨n, hn, rfl⟩, hna⟩
    cases hu : pool.used n with
    | false => exact ⟨n, hn, rfl, hu⟩
    | true => exact absurd ⟨n, hn, rfl, hu⟩ hna

end PagePool

end Sima.Mmu
