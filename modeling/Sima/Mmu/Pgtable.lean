import Sima.Lib.Prog
import Sima.Mmu.PagePool

/-!
# The page-table walker

core/mmu.c is written once for every architecture. It walks four levels of
512-entry tables, numbered here as in the source's `PGTLn` names: level 3 is
the root, level 0 holds 4 KiB pages. Everything that depends on a descriptor
format comes in through `struct pgtable` and a few `arch_` functions, and that
is the structure `Pgtable` below. Its first half is the hooks. Its second half
is what the walker silently relies on when it calls them, stated as laws, so
that a hook table which breaks one cannot be built.

Addresses are natural numbers with the wrap-around of `uint64_t` written out
where the code adds; descriptors are 64-bit words. Memory is a word per
address. A run leaves a trace of the table words it read or wrote and of the
`ASSERT`s that failed: a debug build halts there, a release build goes on.
-/

namespace Sima.Mmu

open Lib Prog

/-! ## Address arithmetic -/

def add64 (a b : Nat) : Nat := (a + b) % 2 ^ 64

def sub64 (a b : Nat) : Nat := (a + (2 ^ 64 - b)) % 2 ^ 64

/-- `PGTLn_SIZE`. -/
def levelSize (l : Nat) : Nat := 4096 * 512 ^ l

/-- `pgtlne_index`. -/
def levelIndex (l addr : Nat) : Nat := addr / levelSize l % 512

/-- `addr & ~(size - 1)` for a power of two. -/
def alignDown (size addr : Nat) : Nat := addr / size * size

def roundPageUp (addr : Nat) : Nat := alignDown 4096 (add64 addr 4095)

def roundPageDown (addr : Nat) : Nat := alignDown 4096 addr

theorem roundPageUp_lt (addr : Nat) : roundPageUp addr < 2 ^ 64 := by
  simp only [roundPageUp, alignDown, add64]
  omega

/-- `vaddr_next = (vaddr & PGTLn_MASK) + PGTLn_SIZE`. -/
def vaddrNext (l vaddr : Nat) : Nat :=
  add64 (alignDown (levelSize l) vaddr) (levelSize l)

def memAlignedCheck (value align : Nat) : Bool := value % align == 0

/-- `pt_page + index`, an array of 8-byte entries. -/
def entryAt (ptPage index : Nat) : Nat := ptPage + 8 * index

/-! ## The hooks -/

/-- `struct pgtable` with the `arch_` functions the walker is linked against.
`setPgentry page prot level isLeaf` is the descriptor that `set_pgentry`
stores. -/
structure Pgtable where
  pgentryPresent : Word → Bool
  largePageSupport : Nat → Word → Bool
  setPgentry : Nat → Word → Nat → Bool → Word
  pgtlLarge : Word → Bool
  pgtlPagePaddr : Word → Nat
  pfnMask : Word
  pfn2paddr : Word → Nat
  sanitizedPageHpa : Word
  /-- The bits of a leaf that are neither address nor descriptor type. -/
  attrMask : Word
  /-- The attributes a leaf has when it was requested with these bits. -/
  protAttrs : Word → Word
  /-- The attribute words a caller may request. -/
  ProtOk : Word → Prop
  /-- The `prot_set`, `prot_clr` pairs a caller may apply to a leaf. -/
  ModOk : Word → Word → Prop
  sanitized_absent : pgentryPresent sanitizedPageHpa = false
  sanitized_small : pgtlLarge sanitizedPageHpa = false
  paddr_page : ∀ e, pgtlPagePaddr e % 4096 = 0 ∧ pgtlPagePaddr e < 2 ^ 48
  pfn2paddr_mask : ∀ e, pfn2paddr (e &&& pfnMask) = pgtlPagePaddr e
  table_entry : ∀ {page l}, page % 4096 = 0 → page < 2 ^ 48 →
    pgentryPresent (setPgentry page 0 l false) = true ∧
      pgtlLarge (setPgentry page 0 l false) = false ∧
      pgtlPagePaddr (setPgentry page 0 l false) = page
  leaf_entry : ∀ {prot} paddr l, ProtOk prot →
    pgentryPresent (setPgentry paddr prot l true) = true ∧
      (0 < l → pgtlLarge (setPgentry paddr prot l true) = true) ∧
      ProtOk (setPgentry paddr prot l true &&& ~~~ pfnMask)
  leaf_encodes : ∀ {prot paddr} l, ProtOk prot → paddr % 4096 = 0 →
    paddr < 2 ^ 48 →
    pgtlPagePaddr (setPgentry paddr prot l true) = paddr ∧
      setPgentry paddr prot l true &&& attrMask = protAttrs prot ∧
      protAttrs (setPgentry paddr prot l true &&& ~~~ pfnMask) =
        setPgentry paddr prot l true &&& attrMask
  modify_leaf : ∀ {e set clr}, ModOk set clr → pgentryPresent e = true →
    ProtOk (e &&& ~~~ pfnMask) →
    pgentryPresent (e &&& ~~~ clr ||| set) = true ∧
      pgtlLarge (e &&& ~~~ clr ||| set) = pgtlLarge e ∧
      ProtOk ((e &&& ~~~ clr ||| set) &&& ~~~ pfnMask)
  modify_encodes : ∀ {set clr} e, ModOk set clr →
    pgtlPagePaddr (e &&& ~~~ clr ||| set) = pgtlPagePaddr e ∧
      (e &&& ~~~ clr ||| set) &&& attrMask = (e &&& attrMask) &&& ~~~ clr ||| set

/-- What the walker works on: the words of memory and the page pool. -/
structure MmuState where
  mem : Nat → Word
  pool : PagePool

inductive Fault where
  | panic
  | fuel
deriving DecidableEq, Repr

inductive Event where
  | access (addr : Nat)
  | assertFailed
deriving DecidableEq, Repr

abbrev MmuM := Prog MmuState Fault Event

/-- `MR_MODIFY` and `MR_DEL`. -/
inductive MrType where
  | modify
  | del
deriving DecidableEq, Repr

/-- The last arguments of the modify-or-delete functions. -/
structure Change where
  type : MrType
  protSet : Word
  protClr : Word

def readEntry (a : Nat) : MmuM Word := do
  emit (.access a)
  look fun s => s.mem a

def writeEntry (a : Nat) (w : Word) : MmuM Unit := do
  emit (.access a)
  change fun s => { s with mem := Function.update s.mem a w }

variable (T : Pgtable)

/-! ## Pages and entries -/

/-- `sanitize_pte`, with `n` entries to go. -/
def sanitizeFrom (page : Nat) : Nat → Nat → MmuM Unit
  | 0, _ => pure ()
  | n + 1, i => do
    writeEntry (entryAt page i) T.sanitizedPageHpa
    sanitizeFrom page n (i + 1)

def sanitizePte (page : Nat) : MmuM Unit := sanitizeFrom T page 512 0

/-- `alloc_page`. When the pool is exhausted the assertion fails; past it the
dummy page is handed out, and without one the hypervisor panics. -/
def allocPage : MmuM Nat := do
  match ← look fun s => s.pool.take with
  | some (page, pool) =>
    change fun s => { s with pool := pool }
    sanitizePte T page
    pure page
  | none =>
    emit .assertFailed
    match ← look fun s => s.pool.dummyPage with
    | some page =>
      sanitizePte T page
      pure page
    | none => fail .panic

/-- The search loop of `try_to_free_pgtable_page`: the index it breaks at, or
the end of the table. -/
def firstPresent (ptPage : Nat) : Nat → Nat → MmuM Nat
  | 0, i => pure i
  | n + 1, i => do
    let e ← readEntry (entryAt ptPage i)
    if T.pgentryPresent e then pure i else firstPresent ptPage n (i + 1)

def tryToFreePgtablePage (type : MrType) (pgte ptPage : Nat) : MmuM Unit := do
  if type = .del then
    let index ← firstPresent T ptPage 512 0
    if index = 512 then
      change fun s => { s with pool := s.pool.give ptPage }
      writeEntry pgte T.sanitizedPageHpa
    else
      pure ()
  else
    pure ()

/-- The loop of `split_large_page`; `l` is the level of the new table. -/
def splitFrom (pbase l inc : Nat) (prot : Word) : Nat → Nat → Nat → MmuM Unit
  | 0, _, _ => pure ()
  | n + 1, i, paddr => do
    writeEntry (entryAt pbase i) (T.setPgentry paddr prot l true)
    splitFrom pbase l inc prot n (i + 1) (add64 paddr inc)

/-- `split_large_page` of an entry of a level-`l` table. -/
def splitLargePage (pte l : Nat) : MmuM Unit := do
  let e ← readEntry pte
  let refPaddr := e &&& T.pfnMask
  let refProt := e &&& ~~~ T.pfnMask
  let pbase ← allocPage T
  splitFrom T pbase (l - 1) (levelSize (l - 1)) refProt 512 0 (T.pfn2paddr refPaddr)
  writeEntry pte (T.setPgentry pbase 0 l false)

section

variable (prot : Word) (c : Change) (pgte vaddrEnd pgtl3e vaddrStart l : Nat)

def localModifyOrDelPte (pte : Nat) : MmuM Unit :=
  match c.type with
  | .modify => do
    let e ← readEntry pte
    writeEntry pte (e &&& ~~~ c.protClr ||| c.protSet)
  | .del => writeEntry pte T.sanitizedPageHpa

/-- The `for` loop that every level has: entry by entry to the end of the table,
with `n` entries left, until the cursor has reached the end of the range. -/
def tableLoop {σ : Type} (body : Nat → σ → MmuM Unit) (next : σ → σ)
    (reached : σ → Bool) (page : Nat) : Nat → Nat → σ → MmuM Unit
  | 0, _, _ => pure ()
  | n + 1, index, cur => do
    body (entryAt page index) cur
    if reached (next cur) then pure ()
    else tableLoop body next reached page n (index + 1) (next cur)

/-! ## Modify and delete -/

/-- The body of `modify_or_del_pgtl0`: an absent entry is skipped. -/
def modifyOrDelPgtl0Entry (pgtl0e : Nat) : MmuM Unit := do
  let e ← readEntry pgtl0e
  if T.pgentryPresent e then localModifyOrDelPte T c pgtl0e else pure ()

def modifyOrDelPgtl0 (pgtl1e vaddrStart : Nat) : MmuM Unit := do
  let page := T.pgtlPagePaddr (← readEntry pgtl1e)
  let index := levelIndex 0 vaddrStart
  tableLoop (fun e _ => modifyOrDelPgtl0Entry T c e)
    (fun v => add64 v (levelSize 0)) (fun v => vaddrEnd ≤ v)
    page (512 - index) index vaddrStart
  tryToFreePgtablePage T c.type pgtl1e page

/-- What levels 1 and 2 do with one entry: skip an absent one, change a block
that lies within the range, split one that does not, and descend. -/
def modifyOrDelEntry (descend : Nat → Nat → MmuM Unit) (vaddrEnd pgte vaddr : Nat) :
    MmuM Unit := do
  let e ← readEntry pgte
  if T.pgentryPresent e then
    if T.pgtlLarge e then
      if vaddrEnd < vaddrNext l vaddr ∨
          memAlignedCheck vaddr (levelSize l) = false then
        splitLargePage T pgte l
        descend pgte vaddr
      else
        localModifyOrDelPte T c pgte
    else
      descend pgte vaddr
  else
    pure ()

/-- The loop of levels 1 and 2. The `continue` and `break` after a block was
changed in place test `vaddr_next` as the end of the body does. -/
def modifyOrDelLoop (descend : Nat → Nat → MmuM Unit) (vaddrEnd : Nat) :
    Nat → Nat → Nat → Nat → MmuM Unit :=
  tableLoop (modifyOrDelEntry T c l descend vaddrEnd) (vaddrNext l) (fun v => vaddrEnd ≤ v)

def modifyOrDelPgtl1 (pgtl2e vaddrStart : Nat) : MmuM Unit := do
  let page := T.pgtlPagePaddr (← readEntry pgtl2e)
  let index := levelIndex 1 vaddrStart
  modifyOrDelLoop T c 1 (modifyOrDelPgtl0 T c vaddrEnd) vaddrEnd
    page (512 - index) index vaddrStart
  tryToFreePgtablePage T c.type pgtl2e page

/-- Level 2 does not give its own table back: a PGTL2 page stays. -/
def modifyOrDelPgtl2 : MmuM Unit := do
  let page := T.pgtlPagePaddr (← readEntry pgtl3e)
  let index := levelIndex 2 vaddrStart
  modifyOrDelLoop T c 2 (modifyOrDelPgtl1 T c vaddrEnd) vaddrEnd
    page (512 - index) index vaddrStart

/-- The `while` loop of `pgtable_modify_or_del_map`. On an absent entry
`MR_MODIFY` fails an assertion and does not advance; `MR_DEL` goes down. -/
def modifyOrDelMapLoop (c : Change) (root vaddrEnd : Nat) :
    Nat → Nat → MmuM Unit
  | 0, _ => fail .fuel
  | fuel + 1, vaddr => do
    if vaddr < vaddrEnd then
      let pgtl3e := entryAt root (levelIndex 3 vaddr)
      let e ← readEntry pgtl3e
      if T.pgentryPresent e = false ∧ c.type = .modify then
        emit .assertFailed
        modifyOrDelMapLoop c root vaddrEnd fuel vaddr
      else
        modifyOrDelPgtl2 T c vaddrEnd pgtl3e vaddr
        modifyOrDelMapLoop c root vaddrEnd fuel (vaddrNext 3 vaddr)
    else
      pure ()

def pgtableModifyOrDelMap (fuel root vaddrBase size : Nat) (c : Change) :
    MmuM Unit :=
  let vaddr := roundPageUp vaddrBase
  modifyOrDelMapLoop T c root (add64 vaddr (roundPageDown size)) fuel vaddr

/-! ## Add -/

/-- Where an add stands: the two addresses advance together. -/
structure Cursor where
  paddr : Nat
  vaddr : Nat

/-- `paddr += (vaddr_next - vaddr); vaddr = vaddr_next`. -/
def Cursor.next (cur : Cursor) : Cursor :=
  ⟨add64 cur.paddr (sub64 (vaddrNext l cur.vaddr) cur.vaddr), vaddrNext l cur.vaddr⟩

/-- The body of `add_pgtl0`: a present entry is left alone. -/
def addPgtl0Entry (pgtl0e paddr : Nat) : MmuM Unit := do
  let e ← readEntry pgtl0e
  if T.pgentryPresent e then pure ()
  else writeEntry pgtl0e (T.setPgentry paddr prot 0 true)

def addPgtl0 (pgtl1e : Nat) (start : Cursor) : MmuM Unit := do
  let page := T.pgtlPagePaddr (← readEntry pgtl1e)
  let index := levelIndex 0 start.vaddr
  tableLoop (fun e cur => addPgtl0Entry T prot e cur.paddr)
    (fun cur => ⟨add64 cur.paddr (levelSize 0), add64 cur.vaddr (levelSize 0)⟩)
    (fun cur => vaddrEnd ≤ cur.vaddr) page (512 - index) index start

/-- Hang a new table into an entry of a level-`l` table. -/
def linkNewTable : MmuM Unit := do
  let page ← allocPage T
  writeEntry pgte (T.setPgentry page 0 l false)

/-- What levels 1 and 2 do with one entry: leave a block alone, fill an absent
entry with a block if one fits and with a new table otherwise, and descend. -/
def addEntry (descend : Nat → Cursor → MmuM Unit) (vaddrEnd pgte : Nat) (cur : Cursor) :
    MmuM Unit := do
  let e ← readEntry pgte
  if T.pgtlLarge e then pure ()
  else if T.pgentryPresent e then descend pgte cur
  else if T.largePageSupport l prot ∧
      memAlignedCheck cur.paddr (levelSize l) = true ∧
      memAlignedCheck cur.vaddr (levelSize l) = true ∧
      vaddrNext l cur.vaddr ≤ vaddrEnd then
    writeEntry pgte (T.setPgentry cur.paddr prot l true)
  else do
    linkNewTable T pgte l
    descend pgte cur

def addLoop (descend : Nat → Cursor → MmuM Unit) (vaddrEnd : Nat) :
    Nat → Nat → Nat → Cursor → MmuM Unit :=
  tableLoop (addEntry T prot l descend vaddrEnd) (Cursor.next l) (fun cur => vaddrEnd ≤ cur.vaddr)

def addPgtl1 (pgtl2e : Nat) (start : Cursor) : MmuM Unit := do
  let page := T.pgtlPagePaddr (← readEntry pgtl2e)
  let index := levelIndex 1 start.vaddr
  addLoop T prot 1 (addPgtl0 T prot vaddrEnd) vaddrEnd page (512 - index) index start

def addPgtl2 (start : Cursor) : MmuM Unit := do
  let page := T.pgtlPagePaddr (← readEntry pgtl3e)
  let index := levelIndex 2 start.vaddr
  addLoop T prot 2 (addPgtl1 T prot vaddrEnd) vaddrEnd page (512 - index) index start

/-- The part of the `while` loop of `pgtable_add_map` that makes sure there is
a table to go down to. -/
def ensurePgtl2 : MmuM Unit := do
  let e ← readEntry pgtl3e
  if T.pgentryPresent e then pure () else linkNewTable T pgtl3e 3

end

def addMapLoop (prot : Word) (root vaddrEnd : Nat) : Nat → Cursor → MmuM Unit
  | 0, _ => fail .fuel
  | fuel + 1, cur => do
    if cur.vaddr < vaddrEnd then
      let pgtl3e := entryAt root (levelIndex 3 cur.vaddr)
      ensurePgtl2 T pgtl3e
      addPgtl2 T prot vaddrEnd pgtl3e cur
      addMapLoop prot root vaddrEnd fuel (cur.next 3)
    else
      pure ()

def pgtableAddMap (fuel root paddrBase vaddrBase size : Nat) (prot : Word) :
    MmuM Unit :=
  let vaddr := roundPageUp vaddrBase
  let paddr := roundPageUp paddrBase
  addMapLoop T prot root (add64 vaddr (roundPageDown size)) fuel ⟨paddr, vaddr⟩

def pgtableCreateRoot : MmuM Nat := allocPage T

/-! ## Lookup -/

/-- `pgtable_lookup_entry`: the address of the entry that maps `addr`, with
`*pg_size`. It only reads, so it is a function of memory. -/
def pgtableLookupEntry (mem : Nat → Word) (root addr : Nat) :
    Option (Nat × Nat) :=
  let pgtl3e := entryAt root (levelIndex 3 addr)
  if T.pgentryPresent (mem pgtl3e) then
    let pgtl2e := entryAt (T.pgtlPagePaddr (mem pgtl3e)) (levelIndex 2 addr)
    if T.pgentryPresent (mem pgtl2e) then
      if T.pgtlLarge (mem pgtl2e) then some (pgtl2e, levelSize 2)
      else
        let pgtl1e := entryAt (T.pgtlPagePaddr (mem pgtl2e)) (levelIndex 1 addr)
        if T.pgentryPresent (mem pgtl1e) then
          if T.pgtlLarge (mem pgtl1e) then some (pgtl1e, levelSize 1)
          else
            let pgtl0e := entryAt (T.pgtlPagePaddr (mem pgtl1e)) (levelIndex 0 addr)
            if T.pgentryPresent (mem pgtl0e) then some (pgtl0e, levelSize 0)
            else none
        else none
    else none
  else none

end Sima.Mmu
