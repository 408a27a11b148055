import Sima.Lib.KeyedSlots
import Sima.Vgic.Edge
import Sima.Vgic.ItsQueue

/-!
# What the commands of the ITS mean

To the guest the ITS is a set of maps: a device has a translation table, which maps an
event to an LPI and a collection, and a collection is mapped to a vCPU. A command
changes one entry, and an MSI is looked up in the three. `Tables` is that reading, with
the limits this ITS has: at most thirty-two events of a device, whatever size the guest
asks for; the LPIs of its own window; as many collections as there are vCPU rows; and no
event for a collection that is not mapped.

The tables of the code are arrays of slots that are searched and reused. `Vm.tables`
reads them as maps, and every command does to the arrays what its meaning does to the
maps, as long as the guest maps no more devices than there are slots. So after any
commands whatever, an MSI raises the LPI that the maps give it, on the vCPU that they
give it, and nothing if they give it none.
-/

namespace Sima.Vgic

open Lib KeyedSlots
open Function (apply_update forall_update_iff update update_eq_self update_of_ne update_self)
open Vm

/-! ## The maps -/

/-- The translation table of a device: where it is, how many events it has, and the LPI
and the collection of each event. -/
structure Itt where
  addr : BitVec 64
  count : Nat
  event : Nat → Option (Nat × Nat)

structure Tables where
  device : Nat → Option Itt
  collection : Nat → Option Vid

/-- A command, decoded. -/
inductive Command where
  | mapDevice (deviceId : Nat) (addr : BitVec 64) (count : Nat)
  | unmapDevice (deviceId : Nat)
  | mapCollection (collectionId : Nat) (target : Nat)
  | unmapCollection (collectionId : Nat)
  | mapEvent (deviceId eventId lpi collectionId : Nat)
  | moveEvent (deviceId eventId collectionId : Nat)
  | discard (deviceId eventId : Nat)
  /-- The tables do not matter, or do not change. -/
  | other

def Vm.Cmd.decode (cmd : Vm.Cmd) : Command :=
  match cmd.opcode with
  | 0x08 => if cmd.valid then
      .mapDevice cmd.deviceId (cmd.w2 &&& itsCmdIttAddressMask) cmd.eventCount
    else .unmapDevice cmd.deviceId
  | 0x09 => if cmd.valid then .mapCollection cmd.collectionId cmd.rdbase
    else .unmapCollection cmd.collectionId
  | 0x0b => .mapEvent cmd.deviceId cmd.eventId ((lpiBase + cmd.eventId) % 2 ^ 32) cmd.collectionId
  | 0x0a => .mapEvent cmd.deviceId cmd.eventId cmd.lpi cmd.collectionId
  | 0x01 => .moveEvent cmd.deviceId cmd.eventId cmd.collectionId
  | 0x0f => .discard cmd.deviceId cmd.eventId
  | _ => .other

namespace Tables

/-- A table keeps its events if neither its place nor its size changes. -/
def ittOf (addr : BitVec 64) (count : Nat) : Option Itt → Itt
  | some itt => if itt.addr = addr ∧ itt.count = count then itt
      else ⟨addr, count, fun _ => none⟩
  | none => ⟨addr, count, fun _ => none⟩

section

variable (t : Tables) (deviceId eventId : Nat)

def setEvent (x : Option (Nat × Nat)) (t : Tables) : Tables :=
  match t.device deviceId with
  | some itt =>
    { t with
      device := update t.device deviceId (some { itt with event := update itt.event eventId x }) }
  | none => t

def entry : Option (Nat × Nat) :=
  (t.device deviceId).bind (·.event eventId)

/-- Is the event one of the device's? -/
def hasEvent : Bool :=
  (t.device deviceId).any fun itt => decide (eventId < itt.count)

/-- What a command means, on a machine with this many vCPUs and collections. -/
def apply (e : Env) (t : Tables) : Command → Tables
  | .mapDevice deviceId addr count =>
    { t with
      device := update t.device deviceId (some (ittOf addr count (t.device deviceId))) }
  | .unmapDevice deviceId => { t with device := update t.device deviceId none }
  | .mapCollection collectionId target =>
    if collectionId < e.maxVcpus then
      { t with
        collection := update t.collection collectionId
          (some (if target < e.vcpuCount then target else 0)) }
    else t
  | .unmapCollection collectionId => { t with collection := update t.collection collectionId none }
  | .mapEvent deviceId eventId lpi collectionId =>
    if isLpi lpi && t.hasEvent deviceId eventId && (t.collection collectionId).isSome then
      t.setEvent deviceId eventId (some (lpi, collectionId))
    else t
  | .moveEvent deviceId eventId collectionId =>
    match t.entry deviceId eventId with
    | some (lpi, _) =>
      if (t.collection collectionId).isSome then
        t.setEvent deviceId eventId (some (lpi, collectionId))
      else t
    | none => t
  | .discard deviceId eventId => t.setEvent deviceId eventId none
  | .other => t

/-- The vCPU and the LPI of an MSI. -/
def translate : Option (Vid × Nat) :=
  (t.entry deviceId eventId).bind fun x => (t.collection x.2).map (·, x.1)

def devices : Set Nat := {d | (t.device d).isSome}

end

/-- No device is mapped, and the first collections lead to the vCPU of their number. -/
def start (b : Board) : Tables where
  device := fun _ => none
  collection := fun c => if c < b.vcpuCount then some c else none

end Tables

/-! ## The arrays, as maps -/

def deviceKey (d : Device) : Option Nat := if d.valid then some d.deviceId else none

def eventKey (ev : Event) : Option Nat := if ev.valid then some ev.eventId else none

/-- A device and its events. -/
abbrev DeviceSlot := Device × (Nat → Event)

def slotKey (p : DeviceSlot) : Option Nat := deviceKey p.1

def Its.slots (its : Its) (dev : Nat) : DeviceSlot := (its.device dev, its.event dev)

def DeviceSlot.itt (p : DeviceSlot) : Itt where
  addr := p.1.ittAddr
  count := p.1.eventCount
  event := fun e => (lookup eventKey itsEventNum p.2 e).map fun ev => (ev.lpi, ev.collectionId)

def Vm.tables (m : Vm) : Tables where
  device := fun d => (lookup slotKey itsDeviceNum m.its.slots d).map DeviceSlot.itt
  collection := m.collectionTarget

/-- What a slot holds whether or not its device is mapped: every event in it is the
only one of its number, one of the device's, and of an LPI. -/
structure SlotOk (p : DeviceSlot) : Prop where
  blank : p.1.valid = false → p.1.eventCount = 0
  count : p.1.eventCount ≤ itsEventNum
  events : Unique eventKey itsEventNum p.2
  bound : ∀ evt, (p.2 evt).valid = true → (p.2 evt).eventId < p.1.eventCount
  lpis : ∀ evt, (p.2 evt).valid = true → isLpi (p.2 evt).lpi = true

structure TablesOk (its : Its) : Prop where
  collections : ∀ idx, (its.collection idx).collectionId = idx
  devices : Unique slotKey itsDeviceNum its.slots
  slots : ∀ dev, SlotOk (its.slots dev)

variable {m m' : Vm} {its its' : Its} {cmd : Vm.Cmd} {d e dev evt : Nat} {p : DeviceSlot}
  {ev : Event} {c : Caller} {line : Samples} {x : Vm × Tables}

/-! ## Searching -/

theorem deviceKey_beq (x : Device) (d : Nat) :
    (x.valid && x.deviceId == d) = (deviceKey x == some d) := by
  rw [deviceKey]
  cases x.valid <;> rfl

theorem valid_beq (valid : Bool) (k : Nat) :
    (!valid) = (if valid then some k else none : Option Nat).isNone := by
  cases valid <;> rfl

theorem eventKey_some {x : Event} (h : eventKey x = some e) : x.valid = true ∧ x.eventId = e := by
  rw [eventKey] at h
  split at h
  · next hv => exact ⟨hv, Option.some.inj h⟩
  · cases h

theorem findDevice_eq (its : Its) (d : Nat) :
    findDevice its d = find slotKey itsDeviceNum its.slots d :=
  congrArg (fun q => (List.range itsDeviceNum).find? q)
    (funext fun idx => deviceKey_beq (its.device idx) d)

theorem freeDevice_eq (its : Its) : freeDevice its = free slotKey itsDeviceNum its.slots :=
  congrArg (fun q => (List.range itsDeviceNum).find? q) (funext fun _ => valid_beq ..)

/-- A device is in one slot, and the search through its slots looks there only. -/
theorem deviceSlots_eq (hu : Unique slotKey itsDeviceNum its.slots)
    (h : findDevice its d = some dev) : deviceSlots its d = [dev] := by
  rw [findDevice_eq] at h
  obtain ⟨hlt, hkey⟩ := find_some h
  have hsame : ∀ idx ∈ List.range itsDeviceNum, deviceIs its d idx = (idx == dev) := by
    intro idx hidx
    have hidx := List.mem_range.mp hidx
    rw [deviceIs, deviceKey_beq, Bool.eq_iff_iff, beq_iff_eq, beq_iff_eq]
    constructor
    · intro hk
      exact hu hidx hlt hk hkey
    · rintro rfl
      exact hkey
  rw [deviceSlots, List.filter_congr hsame, List.filter_beq,
    List.count_eq_one_of_mem List.nodup_range (List.mem_range.mpr hlt)]
  rfl

theorem findEvent_none (h : findDevice its d = none) : findEvent its d e = none := by
  rw [findEvent, deviceSlots, List.filter_eq_nil_iff.mpr (List.find?_eq_none.mp h)]
  rfl

section

variable (hu : Unique slotKey itsDeviceNum its.slots) (h : findDevice its d = some dev)

include hu h

theorem findEvent_eq :
    findEvent its d e = (find eventKey itsEventNum (its.event dev) e).map (dev, ·) := by
  have hfind : ((List.range itsEventNum).find? fun evt =>
      (its.event dev evt).valid && (its.event dev evt).eventId == e) =
        find eventKey itsEventNum (its.event dev) e :=
    congrArg (fun q => (List.range itsEventNum).find? q)
      (funext fun evt => by rw [eventKey]; cases (its.event dev evt).valid <;> rfl)
  rw [findEvent, deviceSlots_eq hu h, List.findSome?_cons, hfind]
  cases find eventKey itsEventNum (its.event dev) e <;> rfl

theorem freeEvent_eq (hlt : e < (its.device dev).eventCount) :
    freeEvent its e (deviceSlots its d) =
      (free eventKey itsEventNum (its.event dev)).map (dev, ·) := by
  have hfree : ((List.range itsEventNum).find? fun evt => !(its.event dev evt).valid) =
      free eventKey itsEventNum (its.event dev) :=
    congrArg (fun q => (List.range itsEventNum).find? q) (funext fun _ => valid_beq ..)
  rw [deviceSlots_eq hu h, freeEvent, if_neg (by omega), hfree]
  cases free eventKey itsEventNum (its.event dev) <;> rfl

end

theorem findCollection_eq (h : ∀ idx, (m.its.collection idx).collectionId = idx) (c : Nat) :
    m.findCollection c = if c < m.env.maxVcpus then some c else none := by
  have hsame : (fun idx => (m.its.collection idx).collectionId == c) = fun idx => idx == c :=
    funext fun idx => by rw [h]
  rw [findCollection, hsame]
  split
  · next hc =>
    cases hf : (List.range m.env.maxVcpus).find? fun idx => idx == c with
    | none =>
      have := List.find?_eq_none.mp hf c (List.mem_range.mpr hc)
      exact absurd (beq_self_eq_true c) this
    | some idx =>
      have hp : (idx == c) = true := List.find?_some (p := fun idx => idx == c) hf
      rw [beq_iff_eq.mp hp]
  · next hc =>
    refine List.find?_eq_none.mpr fun idx hidx hp => hc ?_
    rw [← beq_iff_eq.mp hp]
    exact List.mem_range.mp hidx

/-! ## Writing one slot -/

theorem collectionTarget_congr (hc : m'.its.collection = m.its.collection)
    (hf : m.env.Fixed m'.env) : m'.collectionTarget = m.collectionTarget := by
  funext c
  rw [collectionTarget, findCollection, hc, hf.maxVcpus]
  refine congrArg _ (funext fun idx => ?_)
  rw [validTargetVcpu, validTargetVcpu, hf.vcpuCount]

theorem tables_kept (hs : m'.its.slots = m.its.slots)
    (hc : m'.its.collection = m.its.collection) (hf : m.env.Fixed m'.env) :
    m'.tables = m.tables := by
  rw [tables, tables, hs, collectionTarget_congr hc hf]

theorem TablesOk.kept (h : TablesOk its) (hs : its'.slots = its.slots)
    (hc : its'.collection = its.collection) : TablesOk its' :=
  ⟨hc ▸ h.collections, hs ▸ h.devices, hs ▸ h.slots⟩

theorem tables_write (m m' : Vm) {x : Option DeviceSlot}
    (hl : lookup slotKey itsDeviceNum (update m.its.slots dev p) =
      update (lookup slotKey itsDeviceNum m.its.slots) d x)
    (hs : m'.its.slots = update m.its.slots dev p)
    (hc : m'.its.collection = m.its.collection) (he : m'.env = m.env) : m'.tables = { m.tables with
        device := update m.tables.device d (x.map DeviceSlot.itt) } := by
  rw [tables, collectionTarget_congr hc (he ▸ .refl _), hs, hl]
  exact congrArg (Tables.mk · _)
    (funext fun d' => apply_update (fun _ => Option.map DeviceSlot.itt) _ d x d')

theorem TablesOk.write (h : TablesOk its)
    (hu : Unique slotKey itsDeviceNum (update its.slots dev p)) (hp : SlotOk p)
    (hs : its'.slots = update its.slots dev p)
    (hc : its'.collection = its.collection) : TablesOk its' := by
  refine ⟨hc ▸ h.collections, hs ▸ hu, ?_⟩
  rw [hs]
  exact (forall_update_iff its.slots fun _ => SlotOk).mpr ⟨hp, fun dev' _ => h.slots dev'⟩

theorem tables_device (m : Vm) (d : Nat) :
    m.tables.device d = (findDevice m.its d).map fun dev => (m.its.slots dev).itt := by
  rw [findDevice_eq]
  show (lookup slotKey itsDeviceNum m.its.slots d).map _ = _
  rw [lookup, Option.map_map]
  rfl

/-! ## Events -/

/-- The arrays are in order, and a command has done to them what it means for the maps. -/
def Does (m m' : Vm) (c : Command) : Prop :=
  TablesOk m'.its ∧ m'.tables = m.tables.apply m.env c

/-- An event of a mapped device is written, and the table of the device says the same of
every other event as before. -/
theorem writeEvent {x : Option Event} (h : TablesOk m.its) (hd : findDevice m.its d = some dev)
    (hp : SlotOk (m.its.device dev, update (m.its.event dev) evt ev))
    (hl : lookup eventKey itsEventNum (update (m.its.event dev) evt ev) =
      update (lookup eventKey itsEventNum (m.its.event dev)) e x) :
    TablesOk (setEvent m.its (dev, evt) ev) ∧
      (m.modIts fun its => setEvent its (dev, evt) ev).tables =
        m.tables.setEvent d e (x.map fun ev => (ev.lpi, ev.collectionId)) := by
  have hdev := tables_device m d
  rw [hd] at hdev
  rw [findDevice_eq] at hd
  have hk : slotKey (m.its.device dev, update (m.its.event dev) evt ev) = some d :=
    (find_some hd).2
  have hs : (setEvent m.its (dev, evt) ev).slots =
      update m.its.slots dev (m.its.device dev, update (m.its.event dev) evt ev) :=
    funext fun _ => apply_update (fun k => Prod.mk (m.its.device k)) m.its.event dev _ _
  refine ⟨h.write (h.devices.put (.inl hd) hk) hp hs rfl, ?_⟩
  rw [tables_write m (m.modIts fun its => setEvent its (dev, evt) ev)
    (h.devices.lookup_put (.inl hd) hk) hs rfl rfl, Tables.setEvent, hdev]
  dsimp only
  congr 3
  refine congrArg (fun f => some (Itt.mk _ _ f)) (funext fun e' => ?_)
  show (lookup eventKey itsEventNum (update (m.its.event dev) evt ev) e').map _ = _
  rw [hl]
  exact apply_update (fun _ => Option.map _) _ e x e'

theorem SlotOk.empty {x : Device} {f : Nat → Event} (hb : x.valid = false → x.eventCount = 0)
    (hc : x.eventCount ≤ itsEventNum) (hf : ∀ evt, (f evt).valid = false) : SlotOk (x, f) := by
  have hno : ∀ evt, (f evt).valid ≠ true := fun evt => Bool.eq_false_iff.mp (hf evt)
  refine ⟨hb, hc, fun i _ _ _ _ hi _ => absurd (eventKey_some hi).1 (hno i), ?_, ?_⟩ <;>
    exact fun evt hv => absurd hv (hno evt)

theorem SlotOk.write (h : SlotOk p) (hu : Unique eventKey itsEventNum (update p.2 evt ev))
    (hev : ev.valid = true → ev.eventId < p.1.eventCount ∧ isLpi ev.lpi = true) :
    SlotOk (p.1, update p.2 evt ev) := by
  have hentry := (forall_update_iff (a := evt) p.2 fun _ ev => ev.valid = true →
    ev.eventId < p.1.eventCount ∧ isLpi ev.lpi = true).mpr
      ⟨hev, fun evt' _ hv => ⟨h.bound evt' hv, h.lpis evt' hv⟩⟩
  exact ⟨h.blank, h.count, hu, fun evt' hv => (hentry evt' hv).1,
    fun evt' hv => (hentry evt' hv).2⟩

theorem putEvent (ev : Event) (h : TablesOk m.its) (hd : findDevice m.its d = some dev)
    (hf : Fits eventKey itsEventNum (m.its.event dev) e evt) (hk : eventKey ev = some e)
    (hlt : e < (m.its.device dev).eventCount) (hlpi : isLpi ev.lpi = true) :
    TablesOk (setEvent m.its (dev, evt) ev) ∧
      (m.modIts fun its => setEvent its (dev, evt) ev).tables =
        m.tables.setEvent d e (some (ev.lpi, ev.collectionId)) := by
  have hslot := h.slots dev
  refine writeEvent h hd ?_ (hslot.events.lookup_put hf hk)
  refine hslot.write (hslot.events.put hf hk) fun _ => ?_
  rw [(eventKey_some hk).2]
  exact ⟨hlt, hlpi⟩

theorem dropEvent (h : TablesOk m.its) (hd : findDevice m.its d = some dev)
    (hf : find eventKey itsEventNum (m.its.event dev) e = some evt) (hv : ev.valid = false) :
    TablesOk (setEvent m.its (dev, evt) ev) ∧
      (m.modIts fun its => setEvent its (dev, evt) ev).tables = m.tables.setEvent d e none := by
  have hnone : eventKey ev = none := by rw [eventKey, hv]; rfl
  have hslot := h.slots dev
  refine writeEvent h hd ?_ (hslot.events.lookup_drop hf hnone)
  exact hslot.write (hslot.events.drop hnone) fun hc => absurd (hv.symm.trans hc) (by decide)

/-! ## Commands for devices -/

theorem eventCount_bounds (cmd : Vm.Cmd) : 0 < cmd.eventCount ∧ cmd.eventCount ≤ itsEventNum := by
  refine ⟨?_, min_le_right _ _⟩
  rw [Cmd.eventCount, Nat.lt_min]
  refine ⟨?_, by decide⟩
  split
  · exact Nat.two_pow_pos _
  · decide

/-- What a `MAPD` makes of a slot. -/
def mappedSlot (cmd : Vm.Cmd) (p : DeviceSlot) : DeviceSlot :=
  ({ deviceId := cmd.deviceId, ittAddr := cmd.w2 &&& itsCmdIttAddressMask
     eventCount := cmd.eventCount, valid := true },
    if p.1.ittAddr != cmd.w2 &&& itsCmdIttAddressMask || p.1.eventCount != cmd.eventCount
      then fun _ => {} else p.2)

theorem mapDevice_slots (h : (findDevice its cmd.deviceId).or (freeDevice its) = some dev) :
    (mapDevice cmd its).slots = update its.slots dev (mappedSlot cmd (its.slots dev)) ∧
      (mapDevice cmd its).collection = its.collection := by
  rw [mapDevice, h]
  dsimp only
  refine ⟨funext fun dev' => ?_, by split <;> rfl⟩
  by_cases hd : dev' = dev
  · subst hd
    rw [update_self, Its.slots, setDevice]
    dsimp only
    rw [update_self]
    refine Prod.ext rfl ?_
    show (if _ then _ else its : Its).event dev' = if _ then _ else its.event dev'
    split
    · next hc => exact (update_self ..).trans (if_pos hc).symm
    · next hc => exact (if_neg hc).symm
  · rw [update_of_ne hd, Its.slots, setDevice]
    dsimp only
    rw [update_of_ne hd]
    split
    · exact Prod.ext rfl (update_of_ne hd ..)
    · rfl

theorem slotOk_mapped (h : SlotOk p) : SlotOk (mappedSlot cmd p) := by
  have hb := (eventCount_bounds cmd).2
  rw [mappedSlot]
  split
  · exact .empty (by simp) hb fun _ => rfl
  · next hc =>
    simp only [Bool.or_eq_true, bne_iff_ne, not_or, not_not] at hc
    exact ⟨by simp, hb, h.events, hc.2 ▸ h.bound, h.lpis⟩

/-- A table that is mapped again keeps its events only if it is the same. -/
theorem itt_mapped : (mappedSlot cmd p).itt =
    Tables.ittOf (cmd.w2 &&& itsCmdIttAddressMask) cmd.eventCount (some p.itt) := by
  rw [Tables.ittOf, mappedSlot]
  split
  · next hc =>
    rw [if_neg]
    · rfl
    rintro ⟨ha, hn⟩
    have ha : p.1.ittAddr = _ := ha
    have hn : p.1.eventCount = _ := hn
    simp only [ha, hn, bne_self_eq_false] at hc
    cases hc
  · next hc =>
    simp only [Bool.or_eq_true, bne_iff_ne, not_or, not_not] at hc
    rw [if_pos ⟨hc.1, hc.2⟩, ← hc.1, ← hc.2]
    rfl

theorem mapDevice_fits (h : TablesOk m.its)
    (hdev : (findDevice m.its cmd.deviceId).or (freeDevice m.its) = some dev) :
    Does m (m.modIts (mapDevice cmd))
      (.mapDevice cmd.deviceId (cmd.w2 &&& itsCmdIttAddressMask) cmd.eventCount) := by
  have hwrite : Fits slotKey itsDeviceNum m.its.slots cmd.deviceId dev →
      TablesOk (mapDevice cmd m.its) ∧ (m.modIts (mapDevice cmd)).tables =
          { m.tables with
            device := update m.tables.device cmd.deviceId
              (some (mappedSlot cmd (m.its.slots dev)).itt) } := by
    intro hf
    obtain ⟨hs, hc⟩ := mapDevice_slots hdev
    have hk : slotKey (mappedSlot cmd (m.its.slots dev)) = some cmd.deviceId := rfl
    exact ⟨h.write (h.devices.put hf hk) (slotOk_mapped (h.slots dev)) hs hc,
      tables_write m (m.modIts (mapDevice cmd)) (h.devices.lookup_put hf hk) hs hc rfl⟩
  have htab := tables_device m cmd.deviceId
  rw [Does, Tables.apply]
  cases hd : findDevice m.its cmd.deviceId with
  | some dev' =>
    rw [hd] at hdev
    cases hdev
    rw [hd, Option.map_some] at htab
    rw [htab, ← itt_mapped]
    refine hwrite (.inl ?_)
    rw [← findDevice_eq, hd]
  | none =>
    rw [hd, freeDevice_eq] at hdev
    rw [hd, Option.map_none] at htab
    rw [findDevice_eq] at hd
    have hfree := free_some hdev
    -- an unused slot has no events, and a new table is never empty
    have hblank : (m.its.device dev).eventCount = 0 := by
      refine (h.slots dev).blank ?_
      have := hfree.2
      rw [slotKey, deviceKey] at this
      split at this
      · cases this
      · next hv => exact Bool.eq_false_iff.mpr hv
    have hitt : (mappedSlot cmd (m.its.slots dev)).itt =
        Tables.ittOf (cmd.w2 &&& itsCmdIttAddressMask) cmd.eventCount none := by
      rw [itt_mapped, Tables.ittOf, Tables.ittOf, if_neg]
      rintro ⟨-, hn⟩
      have hn : (m.its.device dev).eventCount = cmd.eventCount := hn
      have hpos := (eventCount_bounds cmd).1
      omega
    rw [htab, ← hitt]
    exact hwrite (.inr ⟨hd, hfree⟩)

theorem devices_eq (m : Vm) : m.tables.devices = keys slotKey itsDeviceNum m.its.slots := by
  ext d
  show ((lookup slotKey itsDeviceNum m.its.slots d).map _).isSome = true ↔
    (lookup slotKey itsDeviceNum m.its.slots d).isSome = true
  rw [Option.isSome_map]

/-- A device for which there is no slot is not mapped, and there would be too many. -/
theorem mapDevice_tables (h : TablesOk m.its) : Does m (m.modIts (mapDevice cmd))
      (.mapDevice cmd.deviceId (cmd.w2 &&& itsCmdIttAddressMask) cmd.eventCount) ∨
    TablesOk (mapDevice cmd m.its) ∧ (m.modIts (mapDevice cmd)).tables = m.tables ∧
      ¬ (insert cmd.deviceId m.tables.devices).encard ≤ itsDeviceNum := by
  cases hdev : (findDevice m.its cmd.deviceId).or (freeDevice m.its) with
  | some dev => exact .inl (mapDevice_fits h hdev)
  | none =>
    have hsame : mapDevice cmd m.its = m.its := by rw [mapDevice, hdev]
    obtain ⟨hd, hfree⟩ := Option.or_eq_none_iff.mp hdev
    rw [findDevice_eq] at hd
    rw [freeDevice_eq] at hfree
    refine .inr ⟨hsame.symm ▸ h, ?_, fun hroom => ?_⟩
    · exact tables_kept (by rw [modIts, hsame]) (by rw [modIts, hsame]) (.refl _)
    rw [devices_eq] at hroom
    obtain ⟨_, _, hsome⟩ := h.devices.exists_free hd hroom
    rw [hfree] at hsome
    cases hsome

theorem dropDevice_slots (h : findDevice its d = some dev) : (dropDevice d its).slots =
      update its.slots dev ({}, fun evt => { its.event dev evt with valid := false }) ∧
    (dropDevice d its).collection = its.collection := by
  rw [dropDevice, h]
  refine ⟨funext fun dev' => ?_, rfl⟩
  by_cases hd : dev' = dev
  · subst hd
    rw [update_self]
    exact Prod.ext (update_self ..) (funext fun evt => if_pos rfl)
  · rw [update_of_ne hd]
    exact Prod.ext (update_of_ne hd ..) (funext fun evt => if_neg hd)

theorem dropDevice_tables (h : TablesOk m.its) (d : Nat) :
    Does m (m.modIts (dropDevice d)) (.unmapDevice d) := by
  have htab := tables_device m d
  rw [Does, Tables.apply]
  cases hd : findDevice m.its d with
  | none =>
    rw [hd, Option.map_none] at htab
    have hsame : dropDevice d m.its = m.its := by rw [dropDevice, hd]
    rw [modIts, hsame, ← htab, update_eq_self]
    exact ⟨h, rfl⟩
  | some dev =>
    obtain ⟨hs, hc⟩ := dropDevice_slots hd
    rw [findDevice_eq] at hd
    have hk : slotKey ({}, fun evt => { m.its.event dev evt with valid := false }) = none := rfl
    refine ⟨h.write (h.devices.drop hk) ?_ hs hc, ?_⟩
    · exact .empty (fun _ => rfl) (Nat.zero_le _) fun _ => rfl
    · exact tables_write m (m.modIts (dropDevice d)) (h.devices.lookup_drop hd hk) hs hc rfl

/-! ## Commands for events -/

theorem usableCollection_eq (m : Vm) (cmd : Vm.Cmd) :
    m.usableCollection cmd = (m.tables.collection cmd.collectionId).isSome := by
  show _ = (m.collectionTarget cmd.collectionId).isSome
  rw [usableCollection, collectionTarget]
  cases m.findCollection cmd.collectionId with
  | none => rfl
  | some idx =>
    rw [Option.bind_some]
    dsimp only
    cases (m.its.collection idx).valid <;> rfl

theorem findEvent_some (h : TablesOk its) {q : Nat × Nat} (hf : findEvent its d e = some q) :
    findDevice its d = some q.1 ∧ find eventKey itsEventNum (its.event q.1) e = some q.2 := by
  cases hd : findDevice its d with
  | none =>
    rw [findEvent_none hd] at hf
    cases hf
  | some dev =>
    rw [findEvent_eq h.devices hd] at hf
    obtain ⟨evt, hevt, rfl⟩ := Option.map_eq_some_iff.mp hf
    exact ⟨rfl, hevt⟩

theorem tables_entry (h : TablesOk m.its) (d e : Nat) :
    m.tables.entry d e = (findEvent m.its d e).map fun q =>
      ((eventAt m.its q).lpi, (eventAt m.its q).collectionId) := by
  rw [Tables.entry, tables_device]
  cases hd : findDevice m.its d with
  | none =>
    rw [findEvent_none hd]
    rfl
  | some dev =>
    rw [findEvent_eq h.devices hd, Option.map_map]
    show (lookup eventKey itsEventNum (m.its.event dev) e).map _ = _
    rw [lookup, Option.map_map]
    rfl

/-- An event that the device has finds its slot, or a free one: the events in use are
others of the device, and a device has at most as many as there are slots. -/
theorem slotForEvent_fits (h : TablesOk its) (hd : findDevice its cmd.deviceId = some dev)
    (hlt : cmd.eventId < (its.device dev).eventCount) :
    ∃ evt ev, slotForEvent cmd its = some ((dev, evt), ev) ∧
      Fits eventKey itsEventNum (its.event dev) cmd.eventId evt ∧
      eventKey ev = some cmd.eventId := by
  have hslot := h.slots dev
  rw [slotForEvent, findEvent_eq h.devices hd]
  cases hf : find eventKey itsEventNum (its.event dev) cmd.eventId with
  | some evt => exact ⟨evt, _, rfl, .inl hf, (find_some hf).2⟩
  | none =>
    have hsub : insert cmd.eventId (keys eventKey itsEventNum (its.event dev)) ⊆
        (Finset.range itsEventNum : Set Nat) := by
      have hcount := hslot.count
      have hcount : (its.device dev).eventCount ≤ itsEventNum := hcount
      rintro k (rfl | hk)
      · exact Finset.mem_coe.mpr (Finset.mem_range.mpr (by omega))
      obtain ⟨x, hx⟩ := Option.isSome_iff_exists.mp hk
      obtain ⟨evt, hevt, rfl⟩ := Option.map_eq_some_iff.mp hx
      obtain ⟨hv, hid⟩ := eventKey_some (find_some hevt).2
      have hb := hslot.bound evt hv
      have hb : (its.event dev evt).eventId < (its.device dev).eventCount := hb
      exact Finset.mem_coe.mpr (Finset.mem_range.mpr (by omega))
    have hcard : (insert cmd.eventId (keys eventKey itsEventNum (its.event dev))).encard ≤
        itsEventNum := by
      refine (Set.encard_le_encard hsub).trans ?_
      rw [Set.encard_coe_eq_coe_finsetCard, Finset.card_range]
    obtain ⟨evt, hfits, hfree⟩ := hslot.events.exists_free hf hcard
    refine ⟨evt, { its.event dev evt with
      deviceId := cmd.deviceId, eventId := cmd.eventId, valid := true }, ?_, hfits, rfl⟩
    have hfree : free eventKey itsEventNum (its.event dev) = some evt := hfree
    rw [freeEvent_eq h.devices hd hlt, hfree]
    rfl

variable (h : TablesOk m.its)

include h

theorem mapEvent_tables (cmd : Vm.Cmd) (lpi : Nat) : Does m (m.mapEvent cmd lpi)
    (.mapEvent cmd.deviceId cmd.eventId lpi cmd.collectionId) := by
  rw [Does, mapEvent, Tables.apply, Tables.hasEvent, tables_device, usableCollection_eq]
  cases hd : findDevice m.its cmd.deviceId with
  | none =>
    rw [Option.map_none, Option.any_none, Bool.and_false]
    exact ⟨h, rfl⟩
  | some dev =>
    show TablesOk (if (isLpi lpi && decide (cmd.eventId < (m.its.device dev).eventCount) &&
      (m.tables.collection cmd.collectionId).isSome) = true then _ else m : Vm).its ∧
      (if _ then _ else m : Vm).tables = if (isLpi lpi &&
        decide (cmd.eventId < (m.its.device dev).eventCount) &&
          (m.tables.collection cmd.collectionId).isSome) = true then _ else _
    split
    · next hc =>
      simp only [Bool.and_eq_true, decide_eq_true_eq] at hc
      obtain ⟨evt, ev, hslot, hfits, hk⟩ := slotForEvent_fits h hd hc.1.2
      rw [hslot]
      -- enabling the descriptors of the LPI leaves the tables alone
      exact putEvent { ev with lpi := lpi, collectionId := cmd.collectionId } h hd
        hfits hk hc.1.2 hc.1.1
    · exact ⟨h, rfl⟩

theorem moveEvent_tables (cmd : Vm.Cmd) :
    Does m (if m.usableCollection cmd then m.modFoundEvent cmd fun ev =>
        { ev with collectionId := cmd.collectionId } else m)
      (.moveEvent cmd.deviceId cmd.eventId cmd.collectionId) := by
  rw [Does, Tables.apply, tables_entry h, usableCollection_eq, modFoundEvent]
  cases hf : findEvent m.its cmd.deviceId cmd.eventId with
  | none =>
    rw [ite_self]
    exact ⟨h, rfl⟩
  | some q =>
    split
    · obtain ⟨hd, hfind⟩ := findEvent_some h hf
      obtain ⟨hv, hid⟩ := eventKey_some (find_some hfind).2
      have hb := (h.slots q.1).bound q.2 hv
      refine putEvent { eventAt m.its q with
        collectionId := cmd.collectionId } h hd (.inl hfind) (find_some hfind).2 ?_
        ((h.slots q.1).lpis q.2 hv)
      rw [← hid]
      exact hb
    · exact ⟨h, rfl⟩

theorem discard_tables (cmd : Vm.Cmd) :
    Does m (m.modFoundEvent cmd fun ev => { ev with valid := false })
      (.discard cmd.deviceId cmd.eventId) := by
  rw [Does, Tables.apply, modFoundEvent]
  cases hf : findEvent m.its cmd.deviceId cmd.eventId with
  | none =>
    have hentry := tables_entry h cmd.deviceId cmd.eventId
    rw [hf, Option.map_none, Tables.entry] at hentry
    refine ⟨h, ?_⟩
    rw [Tables.setEvent]
    cases hd : m.tables.device cmd.deviceId with
    | none => rfl
    | some itt =>
      rw [hd, Option.bind_some] at hentry
      dsimp only
      rw [← hentry, update_eq_self, ← hd, update_eq_self]
  | some q =>
    obtain ⟨hd, hfind⟩ := findEvent_some h hf
    exact dropEvent h hd hfind rfl

omit h

/-! ## Commands for collections -/

theorem collectionTarget_eq (h : ∀ idx, (m.its.collection idx).collectionId = idx) (c : Nat) :
    m.collectionTarget c = if c < m.env.maxVcpus ∧ (m.its.collection c).valid = true then
      some (m.validTargetVcpu (m.its.collection c).targetVcpu) else none := by
  rw [collectionTarget, findCollection_eq h]
  by_cases hc : c < m.env.maxVcpus
  · simp [hc]
  · rw [if_neg hc, Option.bind_none, if_neg fun h => hc h.1]

theorem validTargetVcpu_idem (t : Nat) :
    m.validTargetVcpu (m.validTargetVcpu t) = m.validTargetVcpu t := by
  simp only [validTargetVcpu]
  split
  · rfl
  · split <;> rfl

theorem collectionTarget_write (h : ∀ idx, (m.its.collection idx).collectionId = idx)
    {c : Nat} (hc : c < m.env.maxVcpus) {x : Collection} (hx : x.collectionId = c)
    (ht : m.validTargetVcpu x.targetVcpu = x.targetVcpu) :
    (∀ idx, (update m.its.collection c x idx).collectionId = idx) ∧ (m.modIts fun its =>
        { its with collection := update its.collection c x }).collectionTarget =
        update m.collectionTarget c (if x.valid then some x.targetVcpu else none) := by
  have hids := (forall_update_iff m.its.collection fun idx x => x.collectionId = idx).mpr
    ⟨hx, fun idx _ => h idx⟩
  refine ⟨hids, funext fun c' => ?_⟩
  refine (collectionTarget_eq hids c').trans ?_
  show (if c' < m.env.maxVcpus ∧ (update m.its.collection c _ c').valid = true then
    some (m.validTargetVcpu (update m.its.collection c _ c').targetVcpu)
      else none) = _
  by_cases hi : c' = c
  · subst hi
    rw [update_self, ht]
    simp [hc]
  · rw [update_of_ne hi, update_of_ne hi, collectionTarget_eq h]

theorem mapCollection_tables (h : TablesOk m.its) (cmd : Vm.Cmd) : Does m (m.mapCollection cmd)
    (if cmd.valid then .mapCollection cmd.collectionId cmd.rdbase
      else .unmapCollection cmd.collectionId) := by
  rw [mapCollection, findCollection_eq h.collections]
  by_cases hc : cmd.collectionId < m.env.maxVcpus
  · rw [if_pos hc]
    obtain ⟨hids, htgt⟩ := collectionTarget_write h.collections hc (x :=
      { m.its.collection cmd.collectionId with
        valid := cmd.valid, targetVcpu := m.validTargetVcpu cmd.rdbase })
      (h.collections _) (validTargetVcpu_idem _)
    refine ⟨⟨hids, h.devices, h.slots⟩, ?_⟩
    refine (congrArg (Tables.mk _) htgt).trans ?_
    cases cmd.valid with
    | true =>
      rw [if_pos rfl, if_pos rfl, Tables.apply, if_pos hc]
      rfl
    | false => rfl
  · rw [if_neg hc]
    refine ⟨h, ?_⟩
    cases cmd.valid with
    | true => rw [if_pos rfl, Tables.apply, if_neg hc]
    | false =>
      have hnone : m.tables.collection cmd.collectionId = none := by
        show m.collectionTarget cmd.collectionId = none
        rw [collectionTarget_eq h.collections, if_neg fun h => hc h.1]
      show m.tables = _
      rw [if_neg Bool.false_ne_true, Tables.apply, ← hnone, update_eq_self]

/-! ## Every command -/

theorem Tables.devices_map (t : Tables) (env : Env) (d : Nat) (addr : BitVec 64) (n : Nat) :
    (t.apply env (.mapDevice d addr n)).devices = insert d t.devices := by
  ext d'
  show (update t.device d _ d').isSome = true ↔ d' = d ∨ (t.device d').isSome = true
  by_cases hd : d' = d
  · rw [hd, update_self]
    exact ⟨fun _ => .inl rfl, fun _ => rfl⟩
  · rw [update_of_ne hd]
    exact ⟨.inr, fun h => h.resolve_left hd⟩

theorem Tables.devices_setEvent (t : Tables) (d e : Nat) (x : Option (Nat × Nat)) :
    (t.setEvent d e x).devices = t.devices := by
  rw [Tables.setEvent]
  split
  · next itt hd =>
    ext d'
    show (update t.device d _ d').isSome = true ↔ (t.device d').isSome = true
    by_cases h : d' = d
    · rw [h, update_self, hd]
      exact ⟨fun _ => rfl, fun _ => rfl⟩
    · rw [update_of_ne h]
  · rfl

theorem Tables.devices_apply (t : Tables) (env : Env) (cmd : Command) :
    (t.apply env cmd).devices.encard ≤ t.devices.encard + 1 := by
  have hle : t.devices.encard ≤ t.devices.encard + 1 := le_self_add
  have hset : ∀ d e x, (t.setEvent d e x).devices.encard ≤ t.devices.encard + 1 := by
    intro d e x
    rw [devices_setEvent]
    exact hle
  cases cmd with
  | mapDevice d addr n =>
    rw [devices_map]
    exact Set.encard_insert_le _ _
  | unmapDevice d =>
    refine (Set.encard_le_encard fun d' hd => ?_).trans hle
    have hd : (update t.device d none d').isSome = true := hd
    by_cases h : d' = d
    · rw [h, update_self] at hd
      cases hd
    · rwa [update_of_ne h] at hd
  | mapCollection c target =>
    rw [Tables.apply]
    split <;> exact hle
  | unmapCollection c | other => exact hle
  | mapEvent d e lpi c =>
    rw [Tables.apply]
    split
    · exact hset ..
    · exact hle
  | moveEvent d e c =>
    rw [Tables.apply]
    split
    · split
      · exact hset ..
      · exact hle
    · exact hle
  | discard d e => exact hset ..

theorem clearEvent_its : (m.clearEvent ev).its = m.its ∧ (m.clearEvent ev).env = m.env := by
  rw [clearEvent]
  split
  · split <;> exact ⟨rfl, rfl⟩
  · exact ⟨rfl, rfl⟩

include h

/-- Every command does to the arrays what it means for the maps, unless it maps more
devices than there are slots; then it does nothing. -/
theorem executeCmd_or : Does m (m.executeCmd line c cmd) cmd.decode ∨
    TablesOk (m.executeCmd line c cmd).its ∧ (m.executeCmd line c cmd).tables = m.tables ∧
      ¬ (m.tables.apply m.env cmd.decode).devices.encard ≤ itsDeviceNum := by
  have hother : ∀ {m'}, ItsKept m m' → Does m m' .other :=
    fun hk => ⟨hk.its ▸ h, tables_kept (by rw [hk.its]) (by rw [hk.its]) hk.fixed⟩
  rw [executeCmd, Cmd.decode]
  split <;> rename_i hop <;> simp only [hop]
  · split
    · rw [Tables.devices_map]
      exact mapDevice_tables h
    · exact .inl (dropDevice_tables h cmd.deviceId)
  · exact .inl (mapCollection_tables h cmd)
  · exact .inl (mapEvent_tables h cmd _)
  · exact .inl (mapEvent_tables h cmd _)
  · exact .inl (moveEvent_tables h cmd)
  · exact .inl (discard_tables h cmd)
  · exact .inl (hother .injectFound)
  · split
    · exact .inl (hother (.plain clearEvent_its.1 clearEvent_its.2))
    · exact .inl (hother (.plain rfl rfl))
  · exact .inl (hother (.plain rfl rfl))

/-! ## An MSI -/

theorem translate_eq (hn : 0 < m.env.vcpuCount) (d e : Nat) :
    m.msiRow d e = m.tables.translate d e := by
  rw [msiRow, Tables.translate, tables_entry h]
  cases hf : findEvent m.its d e with
  | none => rfl
  | some q =>
    obtain ⟨hd, hfind⟩ := findEvent_some h hf
    have hv := (eventKey_some (find_some hfind).2).1
    have hv : (eventAt m.its q).valid = true := hv
    have hlpi : isLpi (eventAt m.its q).lpi = true := (h.slots q.1).lpis q.2 hv
    rw [Option.bind_some, Option.map_some, Option.bind_some, hv, hlpi, Bool.and_self, if_pos rfl]
    -- a collection leads to a vCPU of the machine, so nothing is filtered out
    have htgt : m.eventTarget (eventAt m.its q) =
        m.tables.collection (eventAt m.its q).collectionId := by
      show (m.collectionTarget _).filter _ = m.collectionTarget _
      rw [collectionTarget_eq h.collections]
      split
      · refine Option.filter_some_pos (decide_eq_true ?_)
        rw [validTargetVcpu]
        split
        · next hlt => exact hlt
        · exact hn
      · rfl
    rw [htgt]

omit h

/-! ## Runs -/

inductive TableLabel where
  /-- Anything that leaves the tables alone. -/
  | other
  | cmd (cmd : Vm.Cmd)

inductive TableStep : TableLabel → Vm → Vm → Prop where
  | other {m m' : Vm} : m'.its.slots = m.its.slots →
      m'.its.collection = m.its.collection → m.env.Fixed m'.env → TableStep .other m m'
  | cmd {m : Vm} (line : Samples) (c : Caller) (cmd : Vm.Cmd) :
      TableStep (.cmd cmd) m (m.executeCmd line c cmd)

/-- What the commands mean, one after the other. -/
def noteTables : TableLabel → Vm → Tables → Tables
  | .other, _, t => t
  | .cmd cmd, m, t => t.apply m.env cmd.decode

/-- No more devices are mapped than there are slots. -/
def DevicesFit : TableLabel → Vm × Tables → Prop
  | .other, _ => True
  | .cmd cmd, (m, t) => (t.apply m.env cmd.decode).devices.encard ≤ itsDeviceNum

theorem tablesOk_start (b : Board) : TablesOk b.start.its := by
  refine ⟨fun _ => rfl, ?_, fun dev => .empty (fun _ => rfl) (Nat.zero_le _) fun _ => rfl⟩
  intro i j k _ _ hi _
  cases hi

theorem tables_start (b : Board) : b.start.tables = Tables.start b := by
  refine congrArg (Tables.mk fun _ => none) (funext fun c => ?_)
  rw [collectionTarget_eq fun _ => rfl]
  show (if c < b.maxVcpus ∧ decide (c < b.vcpuCount) = true then
    some (b.start.validTargetVcpu c) else none) = if c < b.vcpuCount then some c else none
  have hle := b.vcpuCount_le
  by_cases hc : c < b.vcpuCount
  · rw [if_pos hc, if_pos ⟨by omega, decide_eq_true hc⟩]
    exact congrArg some (if_pos hc)
  · rw [if_neg hc, if_neg fun h => hc (of_decide_eq_true h.2)]

theorem tables_step {l : TableLabel} {y : Vm × Tables} (hok : DevicesFit l x)
    (hs : Noted TableStep noteTables l x y) (h : TablesOk x.1.its) (ht : x.1.tables = x.2) :
    TablesOk y.1.its ∧ y.1.tables = y.2 ∧ x.1.env.Fixed y.1.env := by
  obtain ⟨m, t⟩ := x
  obtain ⟨m', t'⟩ := y
  obtain ⟨hs, rfl⟩ := hs
  have ht : m.tables = t := ht
  subst ht
  cases hs with
  | other hslots hcoll hf => exact ⟨h.kept hslots hcoll, tables_kept hslots hcoll hf, hf⟩
  | cmd line c cmd =>
    have htab : Does m (m.executeCmd line c cmd) cmd.decode :=
      (executeCmd_or h).resolve_right fun hfull => hfull.2.2 hok
    have hf : m.env.Fixed (m.executeCmd line c cmd).env := by
      rw [executeCmd_env]
      exact .refl _
    exact ⟨htab.1, htab.2, hf⟩

theorem tables_run {b : Board} {tr : List TableLabel}
    (h : GuardedRun (Noted TableStep noteTables) DevicesFit (b.start, Tables.start b) tr x) :
    TablesOk x.1.its ∧ x.1.tables = x.2 ∧ b.start.env.Fixed x.1.env := by
  induction h with
  | nil => exact ⟨tablesOk_start b, tables_start b, .refl _⟩
  | cons _ hok hs ih =>
    obtain ⟨h, ht, hf⟩ := ih
    obtain ⟨h', ht', hf'⟩ := tables_step hok hs h ht
    exact ⟨h', ht', hf.trans hf'⟩

/-! ## The MSI behind any commands -/

theorem injectFound_none (h : m.msiRow d e = none) : m.injectFound line c d e = m := by
  rw [msiRow] at h
  rw [injectFound]
  split
  · next q hf =>
    rw [hf, Option.bind_some] at h
    rw [injectEvent]
    split
    · next hc =>
      rw [if_pos hc, Option.map_eq_none_iff] at h
      rw [h]
    · rfl
  · rfl

theorem injectFound_maps (h : TablesOk m.its) (hn : 0 < m.env.vcpuCount) (line : Samples)
    (c : Caller) (d e : Nat) : (m.tables.translate d e = none → m.injectFound line c d e = m) ∧
      ∀ v lpi, m.tables.translate d e = some (v, lpi) → v < m.env.vcpuCount ∧ isLpi lpi = true ∧
        (m.injectFound line c d e).core = m.core.injectLocked m.env line c v lpi false := by
  rw [← translate_eq h hn]
  refine ⟨injectFound_none, fun v lpi hv => ?_⟩
  obtain ⟨hnone, -⟩ | ⟨v', lpi', hsome, hmsi⟩ := injectFound_row m line c d e
  · rw [hv] at hnone
    cases hnone
  · rw [hv] at hsome
    cases hsome
    exact hmsi

/-- After any commands and anything else in between, an MSI raises the LPI that the maps
give it, on the vCPU that they give it, and leaves every other vCPU alone; if they give
it none, nothing happens. -/
theorem msi_translated {b : Board} {tr : List TableLabel} {t : Tables} {line : Samples}
    {c : Caller}
    (hrun : GuardedRun (Noted TableStep noteTables) DevicesFit (b.start, Tables.start b) tr
      (m, t)) (hits : m.env.itsEnabled = true) (hind : Indexed m.core)
    (hregs : OthersDistinct m.env m.core) (hc : CallerOk m.env c) :
    (t.translate d e = none → m.injectFound line c d e = m) ∧
      ∀ v lpi, t.translate d e = some (v, lpi) → v < b.vcpuCount ∧ isLpi lpi = true ∧
        (m.injectFound line c d e).core = m.core.injectLocked m.env line c v lpi false ∧
        (m.injectFound line c d e).core.RecordedIn m.env v lpi ∧
        ∀ w, w ≠ v → SameRow w m.core (m.injectFound line c d e).core := by
  obtain ⟨hok, ht, hf⟩ := tables_run hrun
  have ht : m.tables = t := ht
  have hcount : m.env.vcpuCount = b.vcpuCount := hf.vcpuCount
  obtain ⟨hnone, hsome⟩ := injectFound_maps hok (hcount ▸ b.vcpuCount_pos) line c d e
  rw [← ht]
  refine ⟨hnone, fun v lpi hv => ?_⟩
  obtain ⟨hlt, hlpi, hcore⟩ := hsome v lpi hv
  have hdesc : m.env.hasDesc v lpi = true := by
    have hmax : m.env.vcpuCount ≤ m.env.maxVcpus := by
      rw [hcount, show m.env.maxVcpus = b.maxVcpus from hf.maxVcpus]
      exact b.vcpuCount_le
    rw [Env.hasDesc, decide_eq_true (lt_of_lt_of_le hlt hmax), hits, hlpi]
    simp
  have hused : OthersDistinct m.env (m.core.injectLocked m.env line c v lpi false) :=
    (othersDistinct_kept.core m v).injectLocked trivial (fun hl => hc.live hl) hregs
  refine ⟨hcount ▸ hlt, hlpi, hcore, ?_, fun w hw => ?_⟩
  · rw [hcore]
    have hi : lpi ≠ ppiVirtualTimer := by
      rintro rfl
      exact absurd hlpi (by decide)
    exact Core.injectLocked_recorded hi hind hc hdesc (hused.used v trivial)
      (fun h => absurd rfl h) fun h => absurd rfl h
  · rw [hcore]
    exact (SameRow.closed hw).injectLocked trivial (fun _ => trivial) hind.sameRow

/-! ## A mapped event, and one beyond the table -/

section

variable (size eventId : BitVec 64)

/-- A device with `2 ^ (size + 1)` events, at an address of its own. -/
def mapdCmd : Vm.Cmd := ⟨0x100000008, size, 0x8000000000001000, 0⟩

/-- One of its events is the LPI 8200, for the collection of vCPU 1. -/
def maptiCmd : Vm.Cmd := ⟨0x10000000a, eventId ||| 8200 <<< 32, 1, 0⟩

def deviceVm : Vm :=
  itsBoard.start.executeCmd (fun _ _ => false) (some 0) (mapdCmd size)

def mappedVm : Vm :=
  (deviceVm size).executeCmd (fun _ _ => false) (some 0) (maptiCmd eventId)

/-- What the two commands mean. -/
def mappedTables : Tables :=
  ((Tables.start itsBoard).apply itsBoard.start.env (mapdCmd size).decode).apply
    (deviceVm size).env (maptiCmd eventId).decode

end

theorem mappedVm_run (size eventId : BitVec 64) :
    GuardedRun (Noted TableStep noteTables) DevicesFit (itsBoard.start, Tables.start itsBoard)
      [.cmd (maptiCmd eventId), .cmd (mapdCmd size)]
      (mappedVm size eventId, mappedTables size eventId) := by
  have hstart : (Tables.start itsBoard).devices.encard = 0 :=
    Set.encard_eq_zero.mpr (Set.eq_empty_of_forall_notMem fun d hd => by cases hd)
  have hone : ((Tables.start itsBoard).apply itsBoard.start.env
      (mapdCmd size).decode).devices.encard ≤ 1 := by
    refine (Tables.devices_apply _ _ _).trans ?_
    rw [hstart, zero_add]
  have htwo : (mappedTables size eventId).devices.encard ≤ (1 : ℕ∞) + 1 :=
    (Tables.devices_apply _ _ _).trans (add_le_add_left hone 1)
  have hle : ∀ {n : ℕ∞} {k : Nat}, n ≤ k → k ≤ itsDeviceNum → n ≤ itsDeviceNum :=
    fun h hk => h.trans (Nat.cast_le.mpr hk)
  have h1 : GuardedRun (Noted TableStep noteTables) DevicesFit
      (itsBoard.start, Tables.start itsBoard) [.cmd (mapdCmd size)] (deviceVm size,
        (Tables.start itsBoard).apply itsBoard.start.env (mapdCmd size).decode) :=
    .cons .nil (hle hone (by decide)) ⟨.cmd _ _ _, rfl⟩
  exact .cons h1 (hle htwo (by decide)) ⟨.cmd _ _ _, rfl⟩

/-- Commands keep what every reachable state has. -/
theorem mappedVm_sound (size eventId : BitVec 64) : Indexed (mappedVm size eventId).core ∧
    OthersDistinct (mappedVm size eventId).env (mappedVm size eventId).core := by
  have hind : VmClosed (fun _ _ _ => True) (fun _ _ _ => True) (fun _ => True)
      (fun _ => True) (fun _ => True) (fun m => Indexed m.core) :=
    .ofCore (fun e w => Indexed.closed e.lrCount w) fun _ _ => id
  have hdis : VmClosed (fun _ _ _ => True) (fun _ _ _ => True) (fun _ => True)
      (fun _ => True) (fun _ => True) (fun m =>
        Distinct m.env.lrCount (· ≠ ppiVirtualTimer) (fun _ => True) (fun _ => True) m.core) :=
    .ofCore
      (fun _ _ => Distinct.closed (fun _ h _ _ => h.ich _ trivial)
        (fun _ _ => ⟨trivial, fun h => h rfl⟩) fun _ => id)
      fun hf _ h => by rwa [hf.lrCount]
  exact ⟨hind.executeCmd trivial (hind.executeCmd trivial (Indexed.start itsBoard)),
    (hdis.executeCmd trivial (hdis.executeCmd trivial (Distinct.start itsBoard))).mono
      (fun _ => id) fun _ _ => trivial⟩

theorem msi_translated_mapped : (mappedTables 1 0).translate 1 0 = some (1, 8200) ∧
      ((mappedVm 1 0).injectFound (fun _ _ => false) none 1 0).core.RecordedIn
        (mappedVm 1 0).env 1 8200 := by
  have ht : (mappedTables 1 0).translate 1 0 = some (1, 8200) := by decide +kernel
  obtain ⟨hind, hregs⟩ := mappedVm_sound 1 0
  have hcaller : CallerOk (mappedVm 1 0).env none := trivial
  exact ⟨ht, ((msi_translated (mappedVm_run 1 0) (by decide +kernel) hind hregs hcaller).2 1
    8200 ht).2.2.2.1⟩

/-- The guest asks for sixty-four events, and maps the forty-first: its MSI is lost. -/
theorem msi_beyond_table :
    2 ^ (((mapdCmd 5).w1 &&& 0x1f).toNat + 1) = 64 ∧ (maptiCmd 40).eventId = 40 ∧
      (∃ tr t, GuardedRun (Noted TableStep noteTables) DevicesFit
        (itsBoard.start, Tables.start itsBoard) tr (mappedVm 5 40, t)) ∧
      (mappedVm 5 40).injectFound (fun _ _ => false) none 1 40 = mappedVm 5 40 :=
  ⟨by decide, by decide, ⟨_, _, mappedVm_run 5 40⟩, injectFound_none (by decide +kernel)⟩

/-! ## The machine

An access runs the commands it finds in the queue, and nothing else writes the tables. -/

theorem written_tables (a : ItsAccess) (its : Its) :
    (a.written its).slots = its.slots ∧ (a.written its).collection = its.collection := by
  cases a with
  | read offset | writer64 value => exact ⟨rfl, rfl⟩
  | write offset value =>
    rw [ItsAccess.written]
    repeat' split
    all_goals exact ⟨rfl, rfl⟩

open Classical in
/-- What a command does to the maps of an ITS with a limited number of slots. -/
noncomputable def Tables.execute (env : Env) (t : Tables) (cmd : Vm.Cmd) : Tables :=
  if (t.apply env cmd.decode).devices.encard ≤ itsDeviceNum then t.apply env cmd.decode else t

theorem executeCmd_tables (h : TablesOk m.its) : TablesOk (m.executeCmd line c cmd).its ∧
    (m.executeCmd line c cmd).tables = m.tables.execute m.env cmd := by
  obtain ⟨hok, ht⟩ | ⟨hok, ht, hfull⟩ := executeCmd_or h
  · have hfits : (m.tables.apply m.env cmd.decode).devices.encard ≤ itsDeviceNum := by
      rw [← ht, devices_eq]
      exact encard_keys_le
    exact ⟨hok, ht.trans (if_pos hfits).symm⟩
  · exact ⟨hok, ht.trans (if_neg hfull).symm⟩

theorem executeAll_tables {lines : Nat → Samples} {l : List Vm.Cmd} {fuel : Nat}
    (h : TablesOk m.its) (hfuel : l.length ≤ fuel) :
    TablesOk (executeAll lines c fuel l m).its ∧
      (executeAll lines c fuel l m).tables = l.foldl (Tables.execute m.env) m.tables := by
  induction l generalizing fuel m with
  | nil => cases fuel <;> exact ⟨h, rfl⟩
  | cons cmd l ih =>
    cases fuel with
    | zero => cases hfuel
    | succ fuel =>
      obtain ⟨hok, ht⟩ : _ ∧ (m.executeCmd (lines fuel) c cmd).tables = _ := executeCmd_tables h
      have hrest := ih hok (Nat.le_of_succ_le_succ hfuel)
      rw [ht, executeCmd_env] at hrest
      exact hrest

theorem itsDo_tables {mem : GuestMem} {lines : Nat → Samples} {v : Vid} {a : ItsAccess}
    (h : TablesOk m.its) : TablesOk (m.itsDo mem lines v a).1.its ∧
      (m.itsDo mem lines v a).1.tables =
        (a.executed mem m.its).foldl (Tables.execute m.env) m.tables := by
  obtain ⟨hs, hc⟩ := written_tables a m.its
  have hw : TablesOk (m.modIts a.written).its := h.kept hs hc
  have htw : (m.modIts a.written).tables = m.tables := tables_kept hs hc (.refl _)
  cases hq : a.runsQueue with
  | true =>
    rw [itsDo_effect hq, ← htw]
    obtain ⟨hok, ht⟩ := executeAll_tables hw executed_length
    exact ⟨hok.kept rfl rfl, (tables_kept rfl rfl (.refl _)).trans ht⟩
  | false =>
    have hits : (m.itsDo mem lines v a).1.its = a.written m.its := itsDo_its hq
    have hf : m.env.Fixed (m.itsDo mem lines v a).1.env := by
      rw [itsDo_env]
      exact .refl _
    rw [ItsAccess.executed, hq, Bool.false_and, hits]
    exact ⟨hw, tables_kept (by rw [hits, hs]) (by rw [hits, hc]) hf⟩

theorem tablesOk_run {b : Board} {tr : List ItsLabel}
    (hrun : GuardedRun ItsStep (fun _ _ => True) b.start tr m) :
    TablesOk m.its ∧ b.start.env.Fixed m.env := by
  induction hrun with
  | nil => exact ⟨tablesOk_start b, .refl _⟩
  | cons _ _ hs ih =>
    obtain ⟨h, hf⟩ := ih
    cases hs with
    | other hk => exact ⟨hk.its ▸ h, hf.trans hk.fixed⟩
    | access mem lines v a =>
      refine ⟨(itsDo_tables h).1, ?_⟩
      rw [itsDo_env]
      exact hf

/-- The two commands in the queue. -/
def mapQueue : GuestMem := fun r => some (if r = 0 then mapdCmd 1 else maptiCmd 0)

def queueMappedVm : Vm := (queueVm.itsDo mapQueue lowLines 0 (.writer64 64)).1

end Sima.Vgic
