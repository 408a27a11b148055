import Sima.Vgic.Closed
import Sima.Vgic.System

/-!
# What a guest access can do

`Closed` carried through the register model: the distributor, the redistributors
and the ITS change the delivery state only by the small writes, and the rest of the
virtual machine in ways that delivery does not see.

What an access raises or moves is decided by its address and value alone, so it is
described by two predicates on the request: the SPIs whose pending bit it sets,
and the SPIs whose route it writes. A property that is closed under everything but
those may still be kept by an access, if the two are accounted for.
-/

namespace Sima.Vgic

open Lib Vm

/-! ## What a request asks for -/

namespace Mmio

section

variable (cfg : GicConfig) (virq : Nat) (req : Mmio)

/-- The accesses a request is carried out as. -/
def words : List Mmio :=
  if byteSizes req.size then [req] else [lowReq req, highReq req]

def gicdOffset : Nat :=
  (req.address - cfg.gicdBase) % 2 ^ 32

def writesGicd : Bool :=
  addrInRange req.address cfg.gicdBase cfg.gicdSize && req.dir == .write

/-- One access writes the route of the SPI, by `ITARGETSR` or `IROUTER`. -/
def routesWord : Bool :=
  req.writesGicd cfg &&
    (decide (0x800 ≤ req.gicdOffset cfg ∧ req.gicdOffset cfg < 0xc00 ∧
        req.gicdOffset cfg - 0x800 ≤ virq ∧
        virq < req.gicdOffset cfg - 0x800 + req.size) ||
      (match decodeIrouterReg (req.gicdOffset cfg) with
      | some (i, _) => i == virq
      | none => false))

/-- One access sets the pending bit of the SPI. -/
def pendsWord : Bool :=
  req.writesGicd cfg &&
    match decodeIrqBitReg (req.gicdOffset cfg) false with
    | some (.ispendr, irqBase) =>
      decide (irqBase ≤ virq ∧ virq < irqBase + 32) &&
        (req.value.setWidth 32).getLsbD (virq - irqBase)
    | _ => false

def routes : Bool :=
  req.words.any (routesWord cfg virq)

def pends : Bool :=
  req.words.any (pendsWord cfg virq)

end

end Mmio

/-! ## What an access is made of -/

/-- One access to a register of the ITS: a word, or `GITS_CWRITER` as a whole. -/
inductive ItsAccess where
  | read (offset : Nat)
  | write (offset : Nat) (value : BitVec 64)
  | writer64 (value : BitVec 64)

namespace Vm

/-- What an access does, and whether the VM has to be flushed. -/
def itsDo (mem : GuestMem) (lines : Nat → Samples) (v : Vid) : ItsAccess → Vm → Vm × Bool
  | .read offset, m => m.itsRead mem lines v offset
  | .write offset value, m => m.itsWrite mem lines v offset value
  | .writer64 value, m =>
    (m.modIts fun its => { its with cwriter := value }).processCommandQueue mem lines (some v)

end Vm

namespace Vm

variable {Q : Vm → Prop} {m : Vm} {cfg : GicConfig} {mem : GuestMem} {lines : Nat → Samples}
  {v : Vid} {req : Mmio}

theorem gicdAccess_rule (h : Q m) (hbits : ∀ r irqBase, req.dir = .write →
      decodeIrqBitReg (req.gicdOffset cfg) false = some (r, irqBase) →
      Q ((m.writeIrqBits v irqBase r (req.value.setWidth 32)).flushAll v))
    (hconfig : ∀ irqBase,
      Q ((m.modCore fun e s => s.writeIrqConfig e v irqBase (req.value.setWidth 32)).flushAll v))
    (hpriority : ∀ irqBase,
      Q ((m.modCore fun e s => s.writeIrqPriority e v irqBase req.size req.value).flushAll v))
    (hctlr : ∀ r, Q (flushAll v { m with env := { m.env with gicdCtlr := r } }))
    (htarget : req.dir = .write → 0x800 ≤ req.gicdOffset cfg → req.gicdOffset cfg < 0xc00 →
      Q ((m.writeIrqTarget (req.gicdOffset cfg - 0x800) req.size req.value).flushAll v))
    (hrouter : ∀ virq upper, req.dir = .write →
      decodeIrouterReg (req.gicdOffset cfg) = some (virq, upper) →
      Q ((m.writeIrouterWord virq upper (req.value.setWidth 32)).flushAll v)) :
    Q (m.gicdAccess cfg v req).vm := by
  have hword : req.dir = .write → Q (flushAfter (flushAll v)
      (m.gicdWrite v (req.gicdOffset cfg) req.size req.value)) := by
    intro hd
    rw [gicdWrite]
    split
    · next r irqBase hdec => exact hbits r irqBase hd hdec
    split
    · exact hconfig _
    split
    · exact hctlr _
    split
    · next hoff => exact htarget hd hoff.1 hoff.2
    split
    · split
      · next virq upper hdec => exact hrouter virq upper hd hdec
      · exact h
    · exact h
  have hacc : ∀ (read : Vm → Vm × BitVec 64) (write : Vm → Vm), (read m).1 = m →
      (req.dir = .write → Q (write m)) → Q (access req m read write).vm := by
    intro read write hread hwrite
    rw [access]
    split
    · rw [hread]
      exact h
    · next hd => exact hwrite hd
    · exact h
  show Q (if priorityAccess (req.gicdOffset cfg) req.size then _ else _ : Outcome).vm
  split
  · exact hacc _ _ rfl fun _ => hpriority _
  split
  · next htac =>
    simp only [targetAccess, mmioAccessInRange, Bool.and_eq_true, decide_eq_true_eq] at htac
    exact hacc _ _ rfl fun hd => htarget hd htac.2.1.1 htac.2.1.2
  · split
    · exact hacc _ _ rfl hword
    · exact h

/-- A redistributor has the local bank only. -/
theorem decodeIrqBitReg_local {offset irqBase : Nat} {r : IrqBitReg}
    (h : decodeIrqBitReg offset true = some (r, irqBase)) : irqBase = 0 := by
  rw [decodeIrqBitReg] at h
  split at h
  · rw [if_pos rfl] at h
    split at h
    · injection h with h
      injection h with _ h
      exact h.symm
    · cases h
  · cases h

theorem gicrAccess_rule (h : Q m) (hflush : ∀ m t, Q m → Q (m.flushTarget v t))
    (hbits : ∀ t r, Q (m.writeIrqBits t 0 r (req.value.setWidth 32)))
    (hconfig : ∀ t irqBase,
      Q (m.modCore fun e s => s.writeIrqConfig e t irqBase (req.value.setWidth 32)))
    (hpriority : ∀ t irqBase,
      Q (m.modCore fun e s => s.writeIrqPriority e t irqBase req.size req.value))
    (hregs : ∀ ctlr waker propbaser pendbaser,
      Q { m with
        env := { m.env with gicrCtlr := ctlr }
        gicrWaker := waker
        gicrPropbaser := propbaser
        gicrPendbaser := pendbaser }) :
    Q (m.gicrAccess cfg v req).vm := by
  have hsgi : ∀ t offset, Q (m.gicrSgiWrite t offset req.size req.value).1 := by
    intro t offset
    rw [gicrSgiWrite]
    split
    · next hd =>
      rw [decodeIrqBitReg_local hd]
      exact hbits t _
    split
    · exact hconfig t _
    · split
      · exact hpriority t _
      · exact h
  have hword : ∀ f, Q (m.gicrWrite f req.size req.value).1 := by
    intro f
    rw [gicrWrite]
    split
    · split
      · exact hregs _ m.gicrWaker m.gicrPropbaser m.gicrPendbaser
      · exact h
    split
    · exact hregs m.env.gicrCtlr _ m.gicrPropbaser m.gicrPendbaser
    split
    · show Q (if m.env.itsEnabled then _ else m)
      split
      · exact hregs m.env.gicrCtlr m.gicrWaker _ m.gicrPendbaser
      · exact h
    split
    · show Q (if m.env.itsEnabled then _ else m)
      split
      · exact hregs m.env.gicrCtlr m.gicrWaker m.gicrPropbaser _
      · exact h
    · split
      · split
        · exact hsgi _ _
        · exact h
      · exact h
  rw [gicrAccess]
  split
  · exact h
  rename_i f _
  split
  · rw [access]
    split
    · exact h
    · dsimp only
      split
      · exact hflush _ _ (hpriority _ _)
      · exact h
    · exact h
  · split
    · rw [access]
      split
      · exact h
      · rw [flushAfter]
        split
        · exact hflush _ _ (hword f)
        · exact hword f
      · exact h
    · exact h

/-- A command writes the tables, enables an LPI that it maps, sends one or clears one. -/
theorem executeCmd_rule {line : Samples} {c : Caller} {cmd : Cmd} (h : Q m)
    (hits : ∀ f : Its → Its, (f m.its).cbaser = m.its.cbaser → Q (m.modIts f))
    (hmap : ∀ (f : Its → Its) lpi, (f m.its).cbaser = m.its.cbaser → isLpi lpi = true →
      Q ((m.modIts f).enableLpi lpi))
    (hint : cmd.opcode = 0x03 → Q (m.injectFound line c cmd.deviceId cmd.eventId))
    (hclear : ∀ t lpi, Q (m.modCore fun e s =>
      ((s.setPending t lpi false).setActive t lpi false).updateIrqRowLr e t lpi)) :
    Q (m.executeCmd line c cmd) := by
  have hfound : ∀ {f : Event → Event}, Q (m.modFoundEvent cmd f) := by
    intro f
    rw [modFoundEvent]
    split
    · exact hits _ rfl
    · exact h
  have hevent : ∀ lpi, Q (m.mapEvent cmd lpi) := by
    intro lpi
    rw [mapEvent]
    split
    · split
      · next hok =>
        simp only [Bool.and_eq_true] at hok
        split
        · exact hmap _ lpi rfl hok.1.1
        · exact h
      · exact h
    · exact h
  rw [executeCmd]
  split
  · split
    · refine hits _ ?_
      rw [mapDevice]
      split
      · dsimp only
        split <;> rfl
      · rfl
    · refine hits _ ?_
      rw [dropDevice]
      split <;> rfl
  · rw [mapCollection]
    split
    · exact hits _ rfl
    · exact h
  · exact hevent _
  · exact hevent _
  · split
    · exact hfound
    · exact h
  · exact hfound
  · next hop => exact hint hop
  · split
    · rw [clearEvent]
      split
      · split
        · exact hclear _ _
        · exact h
      · exact h
    · exact h
  · exact h

theorem itsDo_rule {a : ItsAccess} (h : Q m) (hits : ∀ {m} f, Q m → Q (m.modIts f))
    (hcmd : ∀ {m line cmd}, Q m → Q (m.executeCmd line (some v) cmd))
    (hmsi : ∀ {m line deviceId eventId}, Q m → Q (m.injectFound line (some v) deviceId eventId)) :
    Q (m.itsDo mem lines v a).1 := by
  have hloop : ∀ {base size w} fuel r {m}, Q m →
      Q (m.processCommands mem lines (some v) base size w fuel r).1 := by
    intro base size w fuel
    induction fuel with
    | zero => exact fun _ _ => id
    | succ fuel ih =>
      intro r m h
      rw [processCommands]
      split
      · exact h
      · split
        · exact h
        · exact ih _ (hcmd h)
  have hqueue : ∀ {m}, Q m → Q (m.processCommandQueue mem lines (some v)).1 := by
    intro m h
    rw [processCommandQueue]
    split
    · rw [endQueue]
      dsimp only
      exact hits _ (hloop _ _ h)
    · dsimp only
      exact hits _ h
  cases a with
  | read offset =>
    show Q (m.itsRead mem lines v offset).1
    rw [itsRead]
    split
    · exact hqueue h
    · exact h
  | writer64 value => exact hqueue (hits _ h)
  | write offset value =>
    show Q (m.itsWrite mem lines v offset value).1
    rw [itsWrite]
    repeat' split
    all_goals first
      | exact h
      | exact hqueue (hits _ h)
      | exact hmsi h
      | (dsimp only; exact hits _ h)

theorem mmioAccess_rule (h : Q m)
    (hgicd : ∀ w ∈ req.words, ∀ m, addrInRange w.address cfg.gicdBase cfg.gicdSize = true →
      Q m → Q (m.gicdAccess cfg v w).vm)
    (hgicr : ∀ w ∈ req.words, ∀ m, Q m → Q (m.gicrAccess cfg v w).vm)
    (hits : ∀ m lines a, m.env.itsEnabled = true → Q m →
      Q (flushAfter (flushAll v) (m.itsDo mem lines v a))) :
    Q (m.mmioAccess cfg mem lines v req).vm := by
  have hword : ∀ w ∈ req.words, ∀ m lines, Q m → Q (m.mmioDispatch cfg mem lines v w).vm := by
    intro w hw m lines h
    rw [mmioDispatch]
    split
    · next hin => exact hgicd w hw m hin h
    split
    · exact hgicr w hw m h
    split
    · next hin =>
      have hen := (Bool.and_eq_true_iff.mp hin).1
      rw [itsAccess]
      split
      · rw [access]
        split
        · exact hits m lines (.read _) hen h
        · exact hits m lines (.write _ _) hen h
        · exact h
      · exact h
    · exact h
  rw [mmioAccess]
  split
  · next hs =>
    refine hword req ?_ m lines h
    rw [Mmio.words, if_pos hs]
    exact List.mem_singleton_self _
  rename_i hs
  have hlow : lowReq req ∈ req.words := by
    rw [Mmio.words, if_neg hs]
    simp
  have hhigh : highReq req ∈ req.words := by
    rw [Mmio.words, if_neg hs]
    simp
  split
  · rw [mmioDispatch64]
    split
    · next hen =>
      simp only [itsHandles64, Bool.and_eq_true] at hen
      exact hits m lines (.writer64 req.value) hen.1.1.1.1 h
    have h1 := hword _ hlow m (fun n => lines (2 * n)) h
    dsimp only
    split
    · exact hword _ hhigh _ _ h1
    · exact h1
  · exact h

end Vm

/-! ## Descriptors -/

namespace Closed

variable {e : Env} {R A : Vid → Nat → Prop} {L : Vid → Core → Prop} {W : Vid → Prop}
  {P : Core → Prop} {v row : Vid} {s : Core} {i : Nat}

variable (K : ∀ w, Closed e.lrCount w (R w) (A w) (L w) (W w) P) {new old : Vid}

include K

theorem configIrq {f : VgicIrq → VgicIrq} (hf : Config f) (h : P s) : P (s.configIrq e v i f) := by
  rw [Core.configIrq]
  split
  · exact List.foldlRecOn _ _ h fun _ h w _ => (K w).updateIrqRowLr ((K w).config i hf h)
  · split
    · exact (K v).updateIrqLr ((K v).config i hf h)
    · exact h

theorem writeIrqPriority {irqBase size : Nat} {value : BitVec 64} (h : P s) :
    P (s.writeIrqPriority e v irqBase size value) :=
  List.foldlRecOn _ _ h fun _ h _ _ => configIrq K (fun _ => ⟨rfl, rfl, rfl⟩) h

theorem writeIrqConfig {irqBase : Nat} {val : BitVec 32} (h : P s) :
    P (s.writeIrqConfig e v irqBase val) := by
  refine List.foldlRecOn _ _ h fun s h idx _ => ?_
  rw [Core.configTrigger]
  split
  · exact h
  split
  · exact configIrq K (fun _ => ⟨rfl, rfl, rfl⟩) h
  · split
    · exact configIrq K (fun _ => ⟨rfl, rfl, rfl⟩) h
    · exact h

theorem writeIrqBit {r : IrqBitReg} (hR : r = .ispendr → R row i) (hA : A row i) (h : P s) :
    P (s.writeIrqBit e v row r i) := by
  cases r with
  | isenabler | icenabler => exact configIrq K (fun _ => ⟨rfl, rfl, rfl⟩) h
  | ispendr => exact (K row).updateIrqRowLr ((K row).raise (.inl (hR rfl)) h)
  | icpendr => exact (K row).updateIrqRowLr ((K row).lower _ h)
  | isactiver => exact (K row).updateIrqRowLr ((K row).activate (.inl hA) h)
  | icactiver => exact (K row).updateIrqRowLr ((K row).drop _ h)
  | igroupr => exact h
  | igrpmodr => exact h

section

variable (hR : (s.irq old i).pending = true → R new i) (hA : (s.irq old i).active = true → A new i)
  (h : P s)

include hR hA h

/-- The flags of an interrupt that changes rows: it may be raised in the new one if it
was pending in the old one. -/
theorem moveFlags : P (moveActive old new i (movePending old new i s)) := by
  have h1 : P (movePending old new i s) := by
    rw [movePending]
    split
    · next hp => exact (K new).raise (.inl (hR hp)) ((K old).lower _ h)
    · exact h
  have ha : ((movePending old new i s).irq old i).active = (s.irq old i).active := by
    rw [movePending]
    split
    · rw [Core.setPending_active, Core.setPending_active]
    · rfl
  rw [moveActive, ha]
  split
  · next hact => exact (K new).activate (.inl (hA hact)) ((K old).drop _ h1)
  · exact h1

theorem moveIrq : P (moveIrq e old new i s) :=
  (K new).updateIrqRowLr ((K old).updateIrqRowLr (moveFlags K hR hA h))

end

omit K

end Closed

/-! ## The virtual machine -/

/-- What no step changes. -/
structure Env.Fixed (e e' : Env) : Prop where
  maxVcpus : e'.maxVcpus = e.maxVcpus
  vcpuCount : e'.vcpuCount = e.vcpuCount
  createdVcpus : e'.createdVcpus = e.createdVcpus
  lrCount : e'.lrCount = e.lrCount
  itsEnabled : e'.itsEnabled = e.itsEnabled

theorem Env.Fixed.refl (e : Env) : e.Fixed e := ⟨rfl, rfl, rfl, rfl, rfl⟩

variable {e : Env}

theorem Env.Fixed.trans {e' e'' : Env} (h : e.Fixed e') (h' : e'.Fixed e'') : e.Fixed e'' :=
  ⟨h'.maxVcpus.trans h.maxVcpus, h'.vcpuCount.trans h.vcpuCount,
    h'.createdVcpus.trans h.createdVcpus, h'.lrCount.trans h.lrCount,
    h'.itsEnabled.trans h.itsEnabled⟩

/-- Two machines that differ only in registers which delivery reads. -/
structure Vm.Same (m m' : Vm) : Prop where
  fixed : m.env.Fixed m'.env
  phase : m'.env.phase = m.env.phase
  core : m'.core = m.core
  target : ∀ i, isSpi i = true → m'.target 0 i = m.target 0 i

theorem Vm.Same.of_eq {m m' : Vm} (he : m'.env = m.env) (hc : m'.core = m.core)
    (ht : m'.target = m.target) : m.Same m' :=
  ⟨he ▸ .refl _, by rw [he], hc, fun i _ => by rw [ht]⟩

/-! ## Routing -/

namespace Vm

variable {m : Vm} {L : Vid → Core → Prop} {W : Vid → Prop} {P : Core → Prop} {v : Vid} {t : Nat}

theorem setSpiTarget_env {virq : Nat} : (m.setSpiTarget virq t).env = m.env := by
  rw [setSpiTarget]
  split
  · dsimp only
    split <;> rfl
  · rfl

theorem writeIrqTarget_env {irqBase size : Nat} {value : BitVec 64} :
    (m.writeIrqTarget irqBase size value).env = m.env :=
  List.foldlRecOn (motive := fun m' : Vm => m'.env = m.env) _ _ rfl
    fun _ h _ _ => setSpiTarget_env.trans h

theorem writeIrouterWord_env {virq : Nat} {upper : Bool} {value : BitVec 32} :
    (m.writeIrouterWord virq upper value).env = m.env := by
  exact setSpiTarget_env

/-- What every re-route of a write to `ITARGETSR` keeps, the write keeps. -/
theorem writeIrqTarget_keeps {Q : Vm → Prop} {irqBase size : Nat} {value : BitVec 64}
    (hstep : ∀ m' : Vm, m'.env = m.env → Q m' → ∀ byte < size, ∀ t,
      Q (m'.setSpiTarget (irqBase + byte) t)) (h : Q m) :
    Q (m.writeIrqTarget irqBase size value) := by
  refine (List.foldlRecOn (motive := fun m' : Vm => m'.env = m.env ∧ Q m') _ _ ⟨rfl, h⟩
    fun m' h' byte hb => ?_).2
  exact ⟨setSpiTarget_env.trans h'.1, hstep m' h'.1 h'.2 byte (List.mem_range.mp hb) _⟩

/-- A property that needs no licence does not care where an SPI goes. -/
theorem setSpiTarget_keeps {virq : Nat}
    (K : ∀ w, Closed m.env.lrCount w (fun _ => True) (fun _ => True) (L w) (W w) P)
    (h : P m.core) : P (m.setSpiTarget virq t).core := by
  rw [setSpiTarget]
  split
  · dsimp only
    split
    · exact h
    · exact Closed.moveIrq K (fun _ => trivial) (fun _ => trivial) h
  · exact h

theorem flushAll_keeps {m₁ : Vm} {R A : Vid → Nat → Prop} (he : m₁.env = m.env)
    (K : ∀ w, Closed m.env.lrCount w (R w) (A w) (L w) (W w) P) (hW : W v)
    (h : P m₁.core) : P (m₁.flushAll v).core :=
  Closed.flushVm (fun w => by rw [he]; exact K w) hW h

section Routes

variable {P : Env → Core → Prop}
  (K : ∀ w, Closed m.env.lrCount w (fun _ => True) (fun _ => True) (L w) (W w) (P m.env))
  (hW : W v) (h : P m.env m.core)

include K hW h

theorem targets_keeps {irqBase size : Nat} {value : BitVec 64} :
    P ((m.writeIrqTarget irqBase size value).flushAll v).env
      ((m.writeIrqTarget irqBase size value).flushAll v).core := by
  have h1 : P m.env (m.writeIrqTarget irqBase size value).core :=
    writeIrqTarget_keeps (Q := fun m' => P m.env m'.core) (fun m' he h' _ _ _ =>
      setSpiTarget_keeps (fun w => by rw [he]; exact K w) h') h
  show P (m.writeIrqTarget irqBase size value).env _
  rw [writeIrqTarget_env]
  exact flushAll_keeps writeIrqTarget_env K hW h1

theorem irouter_keeps {virq : Nat} {upper : Bool} {value : BitVec 32} :
    P ((m.writeIrouterWord virq upper value).flushAll v).env
      ((m.writeIrouterWord virq upper value).flushAll v).core := by
  have h1 : P m.env (m.writeIrouterWord virq upper value).core := by
    exact setSpiTarget_keeps K h
  show P (m.writeIrouterWord virq upper value).env _
  rw [writeIrouterWord_env]
  exact flushAll_keeps writeIrouterWord_env K hW h1

end Routes

end Vm

/-- `Closed` for a property of the whole machine, under the accesses to the distributor
and the redistributors of a vCPU whose list registers are at hand. `pend` and `route`
are the SPIs whose pending bit may be set and whose route may be written. -/
structure RegClosed (R A : Vm → Vid → Nat → Prop) (L : Vid → Prop)
    (pend route : Nat → Prop) (Q : Vm → Prop) : Prop where
  core : ∀ (m : Vm) w, Closed m.env.lrCount w (R m w) (A m w) (fun _ => L w) (L w)
    fun s => Q { m with core := s }
  congr : ∀ {m m' : Vm}, Q m → m.Same m' → Q m'
  locals : ∀ m w i, isSpi i = false → isLpi i = false → R m w i ∧ A m w i
  pends : ∀ {m i}, isSpi i = true → pend i → R m (m.spiTarget i) i
  actives : ∀ {m i}, isSpi i = true → A m (m.spiTarget i) i
  targets : ∀ {v m irqBase size value}, L v → Q m → (∀ byte < size, route (irqBase + byte)) →
    Q ((m.writeIrqTarget irqBase size value).flushAll v)
  irouter : ∀ {v m virq upper value}, L v → Q m → route virq →
    Q ((m.writeIrouterWord virq upper value).flushAll v)

/-- Under all accesses: the ITS raises LPIs wherever its tables lead. -/
structure VmClosed (R A : Vm → Vid → Nat → Prop) (L : Vid → Prop)
    (pend route : Nat → Prop) (Q : Vm → Prop) : Prop
    extends RegClosed R A L pend route Q where
  lpis : ∀ m w i, isLpi i = true → R m w i

theorem isLoaded_self {v t : Vid} (h : e.vcpuIsLoaded (some v) t = true) : t = v := by
  rw [Env.vcpuIsLoaded, Bool.and_eq_true, beq_iff_eq] at h
  exact (Option.some.inj h.1).symm

variable {i : Nat}

theorem lpi_not_spi (h : isLpi i = true) : isSpi i = false := by
  simp only [isLpi, Bool.and_eq_true, decide_eq_true_eq] at h
  simp only [isSpi, Bool.and_eq_false_iff, decide_eq_false_iff_not]
  refine .inr ?_
  have : irqNum ≤ lpiBase := by decide
  omega

theorem isSpi_iff : isSpi i = true ↔ localIrqNum ≤ i ∧ i < irqNum := by
  rw [isSpi, Bool.and_eq_true, decide_eq_true_eq, decide_eq_true_eq]

theorem not_spi_of_lt (h : i < localIrqNum) : isSpi i = false :=
  Bool.eq_false_iff.mpr fun hspi => Nat.not_le_of_lt h (isSpi_iff.mp hspi).1

theorem not_lpi_of_lt (h : i < irqNum) : isLpi i = false := by
  simp only [isLpi, Bool.and_eq_false_iff, decide_eq_false_iff_not]
  refine .inl ?_
  have : irqNum ≤ lpiBase := by decide
  omega

namespace RegClosed

variable {R A : Vm → Vid → Nat → Prop} {L : Vid → Prop} {pend route : Nat → Prop}
  {v : Vid} {Q : Vm → Prop} {m : Vm} {cfg : GicConfig} {req : Mmio}

variable (K : RegClosed R A L pend route Q)

include K

theorem modIts {f : Its → Its} (h : Q m) : Q (m.modIts f) := K.congr h (.of_eq rfl rfl rfl)

theorem flushAll (hv : L v) (h : Q m) : Q (m.flushAll v) := Closed.flushVm (K.core m) hv h

theorem flushAfter (hv : L v) {r : Vm × Bool}
    (h : Q r.1) : Q (Vm.flushAfter (Vm.flushAll v) r) := by
  rw [Vm.flushAfter]
  split
  · exact K.flushAll hv h
  · exact h

/-! ## The distributor -/

theorem writeIrqBits {w : Vid} {irqBase : Nat} {r : IrqBitReg} {val : BitVec 32}
    (hp : r = .ispendr → ∀ bit < 32, val.getLsbD bit = true →
      isSpi (irqBase + bit) = true → pend (irqBase + bit)) (h : Q m) :
    Q (m.writeIrqBits w irqBase r val) := by
  refine List.foldlRecOn (motive := fun s => Q { m with core := s }) _ _ h fun s h bit hbit => ?_
  split
  · next hc =>
    obtain ⟨hlt, hval⟩ := Bool.and_eq_true_iff.mp hc
    have hlpi := not_lpi_of_lt (of_decide_eq_true hlt)
    have hrow : (r = .ispendr → R m (m.stateRow w (irqBase + bit)) (irqBase + bit)) ∧
        A m (m.stateRow w (irqBase + bit)) (irqBase + bit) := by
      rw [stateRow]
      cases hs : isSpi (irqBase + bit) with
      | true =>
        exact ⟨fun hr => K.pends hs (hp hr bit (List.mem_range.mp hbit) hval hs), K.actives hs⟩
      | false => exact ⟨fun _ => (K.locals m w _ hs hlpi).1, (K.locals m w _ hs hlpi).2⟩
    exact Closed.writeIrqBit (K.core m) hrow.1 hrow.2 h
  · exact h

theorem gicdAccess (hv : L v) (hin : addrInRange req.address cfg.gicdBase cfg.gicdSize = true)
    (hp : ∀ i, isSpi i = true → req.pendsWord cfg i = true → pend i)
    (hr : ∀ i, req.routesWord cfg i = true → route i) (h : Q m) :
    Q (m.gicdAccess cfg v req).vm := by
  have hwr : req.dir = .write → req.writesGicd cfg = true := by
    intro hd
    rw [Mmio.writesGicd, hin, hd]
    rfl
  refine gicdAccess_rule h ?_ (fun _ => K.flushAll hv (Closed.writeIrqConfig (K.core m) h))
    (fun _ => K.flushAll hv (Closed.writeIrqPriority (K.core m) h)) ?_ ?_ ?_
  · intro r irqBase hd hdec
    refine K.flushAll hv (K.writeIrqBits (fun hpend bit hbit hval hspi => hp _ hspi ?_) h)
    rw [Mmio.pendsWord, hwr hd, hdec, hpend]
    show (decide (irqBase ≤ irqBase + bit ∧ irqBase + bit < irqBase + 32) &&
      (req.value.setWidth 32).getLsbD (irqBase + bit - irqBase)) = true
    rw [Nat.add_sub_cancel_left, hval, Bool.and_true, decide_eq_true_eq]
    omega
  · intro r
    exact K.flushAll hv (K.congr h ⟨⟨rfl, rfl, rfl, rfl, rfl⟩, rfl, rfl, fun _ _ => rfl⟩)
  · -- an access inside `ITARGETSR` writes the routes of the SPIs it covers
    intro hd h1 h2
    refine K.targets hv h fun byte hb => hr _ ?_
    rw [Mmio.routesWord, hwr hd, Bool.true_and, Bool.or_eq_true, decide_eq_true_eq]
    exact .inl ⟨h1, h2, by omega, by omega⟩
  · intro virq upper hd hdec
    refine K.irouter hv h (hr _ ?_)
    rw [Mmio.routesWord, hwr hd, Bool.true_and, hdec, Bool.or_eq_true]
    exact .inr (beq_self_eq_true _)

/-! ## The redistributors -/

theorem flushTarget (hv : L v) {t : Option Vid} (h : Q m) : Q (m.flushTarget v t) := by
  cases t with
  | none => exact h
  | some t => exact (K.core m t).flushFrom (fun he => he ▸ hv) h

theorem gicrAccess (hv : L v) (h : Q m) : Q (m.gicrAccess cfg v req).vm := by
  refine gicrAccess_rule h (fun _ _ h => K.flushTarget hv h) (fun _ r => ?_)
    (fun _ _ => Closed.writeIrqConfig (K.core m) h)
    (fun _ _ => Closed.writeIrqPriority (K.core m) h) fun _ _ _ _ =>
      K.congr h ⟨⟨rfl, rfl, rfl, rfl, rfl⟩, rfl, rfl, fun _ _ => rfl⟩
  refine K.writeIrqBits (fun _ bit hbit _ hspi => ?_) h
  rw [zero_add, not_spi_of_lt hbit] at hspi
  cases hspi

omit K

end RegClosed

namespace VmClosed

variable {R A : Vm → Vid → Nat → Prop} {L : Vid → Prop} {pend route : Nat → Prop}
  {v : Vid} {Q : Vm → Prop} {m : Vm} {cfg : GicConfig} {mem : Vm.GuestMem}
  {lines : Nat → Samples} {line : Samples} {req : Mmio}

/-- A property of the delivery state alone that needs no licence. -/
theorem ofCore {P : Env → Core → Prop}
    (core : ∀ (e : Env) w, Closed e.lrCount w (fun _ => True) (fun _ => True)
      (fun _ => L w) (L w) (P e))
    (congr : ∀ {e e' : Env} {s}, e.Fixed e' → e'.phase = e.phase → P e s → P e' s) :
    VmClosed (fun _ _ _ => True) (fun _ _ _ => True) L (fun _ => True) (fun _ => True)
      (fun m => P m.env m.core) where
  core m := core m.env
  congr h hs := congr hs.fixed hs.phase (hs.core ▸ h)
  locals _ _ _ _ _ := ⟨trivial, trivial⟩
  pends _ _ := trivial
  actives _ := trivial
  targets hv h _ := targets_keeps (core _) hv h
  irouter hv h _ := irouter_keeps (core _) hv h
  lpis _ _ _ _ := trivial

/-! ## The ITS -/

variable (K : VmClosed R A L pend route Q) {c : Caller}

include K

section

variable (hL : ∀ {e : Env} {t}, e.vcpuIsLoaded c t = true → e.phase = m.env.phase → L t) (h : Q m)

include hL h

theorem injectEvent {ev : Event} : Q (m.injectEvent line c ev) := by
  rw [Vm.injectEvent]
  split
  · next hv =>
    have hlpi := (Bool.and_eq_true_iff.mp hv).2
    have hspi := lpi_not_spi hlpi
    split
    · next t ht =>
      have h1 : Q { m with core := m.core.injectLocked m.env line c t ev.lpi false } :=
        (K.core m t).injectLocked (K.lpis m t _ hlpi) (fun hl => hL hl rfl) h
      refine K.congr h1 ⟨.refl _, rfl, rfl, fun i hi => ?_⟩
      -- an LPI's own target is not that of an SPI
      show (if 0 = t ∧ i = ev.lpi then t else m.target 0 i) = m.target 0 i
      refine if_neg fun hc => ?_
      rw [hc.2, hspi] at hi
      exact absurd hi (by decide)
    · exact h
  · exact h

theorem injectFound {deviceId eventId : Nat} : Q (m.injectFound line c deviceId eventId) := by
  rw [Vm.injectFound]
  split
  · exact K.injectEvent hL h
  · exact h

end

theorem enableLpi {lpi : Nat} (h : Q m) : Q (m.enableLpi lpi) := by
  exact List.foldlRecOn (motive := fun s => Q { m with core := s }) _ _ h
    fun _ h w _ => (K.core m w).config lpi (fun _ => ⟨rfl, rfl, rfl⟩) h

theorem executeCmd (hv : L v) {cmd : Vm.Cmd} (h : Q m) : Q (m.executeCmd line (some v) cmd) :=
  executeCmd_rule h (fun _ _ => K.modIts h) (fun _ _ _ _ => K.enableLpi (K.modIts h))
    (fun _ => K.injectFound (fun hl _ => isLoaded_self hl ▸ hv) h) fun t _ =>
      (K.core m t).updateIrqRowLr ((K.core m t).drop _ ((K.core m t).lower _ h))

theorem itsDo (hv : L v) {a : ItsAccess} (h : Q m) : Q (m.itsDo mem lines v a).1 :=
  itsDo_rule h (fun _ h => K.modIts h) (fun h => K.executeCmd hv h)
    fun h => K.injectFound (fun hl _ => isLoaded_self hl ▸ hv) h

/-! ## The whole access -/

section

variable (hv : L v) (hp : ∀ i, isSpi i = true → req.pends cfg i = true → pend i)
  (hr : ∀ i, req.routes cfg i = true → route i) (h : Q m)

include hv hp hr h

theorem mmioAccess : Q (m.mmioAccess cfg mem lines v req).vm := by
  refine Vm.mmioAccess_rule h (fun w hw m hin h => ?_) (fun _ _ _ h => K.gicrAccess hv h)
    fun _ _ _ _ h => K.flushAfter hv (K.itsDo hv h)
  exact K.gicdAccess hv hin (fun i hi hwi => hp i hi (List.any_eq_true.mpr ⟨w, hw, hwi⟩))
    (fun i hwi => hr i (List.any_eq_true.mpr ⟨w, hw, hwi⟩)) h

theorem mmioHandler : Q (m.mmioHandler cfg mem lines v req).vm := by
  rw [Vm.mmioHandler]
  have h1 : Q (m.modCore fun e s => s.syncVcpu e (lines 0) (some v) true v) :=
    (K.core m v).syncCurrent hv h
  have h2 : Q ((m.modCore fun e s =>
      s.syncVcpu e (lines 0) (some v) true v).mmioAccess cfg mem
        (fun n => lines (n + 1)) v req).vm := K.mmioAccess hv hp hr h1
  split
  · exact (K.core _ v).flushVcpu (fun _ => hv) h2
  · exact h2

end

omit K

end VmClosed

end Sima.Vgic
