/-
  Avp64.System.MemoryMap — where the accesses of the two platforms go.

  `avp64` and `avp64_minimal` put a cluster and some devices on a bus.  The cores reach
  it through the bus of the cluster, which takes the accesses to the interrupt controller
  for itself; the DMA masters reach it directly.  The ranges are the defaults of the
  properties.

    • `system_routes`  — the devices are where the map says, for cores and DMA alike,
    • `full_addr`      — both platforms give the devices that they share one address,
    • `minimal_routes` — the minimal platform is a part of the full one.

  The decoding of a bus is a parameter (`Decoder`): which of two windows it takes, the
  address relative to the window, and the unchanged address on the default route.
-/
import Avp64.Lib.AddressMap
import Avp64.Psp.Core.Def

namespace Avp64.System

open Avp64.Lib Psp

/-! ## §1. The ranges. -/

/-- `{ LO, LO + size - 1 }`. -/
def window (lo size : U64) : Range := ⟨lo, lo + size - 1#64⟩

/-! ### `avp64.cpp`. -/

/-- The targets of `m_bus`. -/
inductive Device where
  | ram | fb0mem | fb1mem | uart0 | uart1 | uart2 | uart3 | lan0 | sdhci | simdev | hwrng
  | spi | gpio | rtc | can | canMsgram | virtio0
  deriving DecidableEq, Repr

def Device.addr : Device → Range
  | .ram => window 0x00000000#64 0x10000000#64
  | .hwrng => window 0x10007000#64 0x1000#64
  | .simdev => window 0x10008000#64 0x1000#64
  | .uart0 => window 0x10009000#64 0x1000#64
  | .uart1 => window 0x1000a000#64 0x1000#64
  | .uart2 => window 0x1000b000#64 0x1000#64
  | .uart3 => window 0x1000c000#64 0x1000#64
  | .sdhci => window 0x1000d000#64 0x1000#64
  | .rtc => window 0x1000e000#64 0x1000#64
  | .gpio => window 0x1000f000#64 0x1000#64
  | .lan0 => window 0x10010000#64 0x10000#64
  | .spi => window 0x10020000#64 0x1000#64
  | .can => window 0x10021000#64 0x1000#64
  | .canMsgram => window 0x10022000#64 0x4000#64
  | .virtio0 => window 0x10026000#64 0x1000#64
  | .fb0mem => window 0x10200000#64 0x400000#64
  | .fb1mem => window 0x10600000#64 0x200000#64

/-- The `tlm_bind` calls of `avp64::system` with a range, in their order. -/
def systemTargets : List Device :=
  [.ram, .fb0mem, .fb1mem, .uart0, .uart1, .uart2, .uart3, .lan0, .sdhci, .simdev, .hwrng,
    .spi, .gpio, .rtc, .can, .canMsgram, .virtio0]

/-- The interrupt outputs of the devices. -/
inductive IrqLine where
  | uart0 | uart1 | uart2 | uart3 | lan0 | sdhci | spi | can0 | can1 | virtio0
  deriving DecidableEq, Repr

/-- The `gpio_bind` calls to `spi`, with the default numbers. -/
def systemIrqs : List (IrqLine × Nat) :=
  [(.uart0, 5), (.uart1, 6), (.uart2, 7), (.uart3, 8), (.lan0, 9), (.sdhci, 10), (.spi, 11),
    (.can0, 14), (.can1, 15), (.virtio0, 16)]

/-! ### `avp64_minimal.cpp`. -/

/-- The targets of `m_bus` of the minimal platform. -/
inductive MinimalDevice where
  | ram | uart0 | lan0 | sdhci | simdev | hwrng | rtc
  deriving DecidableEq, Repr

def MinimalDevice.addr : MinimalDevice → Range
  | .ram => window 0x00000000#64 0x10000000#64
  | .hwrng => window 0x10007000#64 0x1000#64
  | .simdev => window 0x10008000#64 0x1000#64
  | .uart0 => window 0x10009000#64 0x1000#64
  | .sdhci => window 0x1000d000#64 0x1000#64
  | .rtc => window 0x1000e000#64 0x1000#64
  | .lan0 => window 0x10010000#64 0x10000#64

def minimalTargets : List MinimalDevice := [.ram, .uart0, .lan0, .sdhci, .simdev, .hwrng, .rtc]

inductive MinimalIrqLine where
  | uart0 | lan0 | sdhci
  deriving DecidableEq, Repr

def minimalIrqs : List (MinimalIrqLine × Nat) := [(.uart0, 5), (.lan0, 9), (.sdhci, 10)]

/-! ### `psp::cpu`. -/

/-- The interfaces of the interrupt controller. -/
inductive GicInterface where
  | cpuif | distif | vifctrl | vcpuif
  deriving DecidableEq, Repr

def GicInterface.addr : GicInterface → Range
  | .distif => window 0x10140000#64 0x1000#64
  | .cpuif => window 0x10141000#64 0x2000#64
  | .vifctrl => window 0x10143000#64 0x2000#64
  | .vcpuif => window 0x10145000#64 0x2000#64

/-- The binds of `m_corebus` in `cpu::cpu`. -/
def corebusTargets : List GicInterface := [.cpuif, .distif, .vifctrl, .vcpuif]

/-! ## §2. Routes. -/

def span (r : Range) : Span U64 := ⟨r.start, r.end_⟩

variable {δ : Type}

/-- The windows of `m_bus`. -/
def busMap (addr : δ → Range) (ds : List δ) : List (Span U64 × δ) :=
  ds.map (fun d => (span (addr d), d))

/-- The way of an access on `m_bus`, which has no default route: the target, and the
address there. -/
def busRoute (R : Decoder U64 δ) (addr : δ → Range) (ds : List δ) (acc : Range) :
    Option (δ × U64) :=
  R.route (busMap addr ds) none (span acc)

/-- The targets of `m_corebus`: the interrupt controller, and `bus`. -/
inductive CorebusTarget where
  | gic (g : GicInterface)
  | bus
  deriving DecidableEq, Repr

def corebusMap : List (Span U64 × CorebusTarget) :=
  corebusTargets.map (fun g => (span g.addr, .gic g))

inductive Target (δ : Type) where
  | gic (g : GicInterface)
  | device (d : δ)
  deriving DecidableEq, Repr

/-- The way of an access of a core: `m_corebus` first, and `m_bus` by default. -/
def coreRoute (G : Decoder U64 CorebusTarget) (R : Decoder U64 δ) (addr : δ → Range)
    (ds : List δ) (acc : Range) : Option (Target δ × U64) :=
  match G.route corebusMap (some .bus) (span acc) with
  | none => none
  | some (.gic g, o) => some (.gic g, o)
  | some (.bus, a) =>
      (busRoute R addr ds ⟨a, a + (acc.end_ - acc.start)⟩).map (fun r => (.device r.1, r.2))

/-! ### The windows are apart. -/

theorem systemTargets_apart : Apart (busMap Device.addr systemTargets) := by decide +kernel

theorem corebus_apart : Apart corebusMap := by decide +kernel

theorem device_disjoint_gic (d : Device) (g : GicInterface) :
    (span d.addr).Disjoint (span g.addr) := by
  cases d <;> cases g <;> decide

/-- Every device is on the bus. -/
theorem mem_systemTargets (d : Device) : d ∈ systemTargets := by
  cases d <;> decide

theorem mem_corebusTargets (g : GicInterface) : g ∈ corebusTargets := by
  cases g <;> decide

/-- The order of the calls does not matter. -/
theorem apart_of_perm {ds : List Device} (h : ds.Perm systemTargets) :
    Apart (busMap Device.addr ds) :=
  (h.symm.map _).pairwise systemTargets_apart (fun h => Span.Disjoint.symm h)

/-! ## §3. Where an access goes. -/

/-- All addresses of the access are in the range. -/
def includes (r acc : Range) : Prop := r.start ≤ acc.start ∧ acc.end_ ≤ r.end_

instance (r acc : Range) : Decidable (includes r acc) := inferInstanceAs (Decidable (_ ∧ _))

section

variable {G : Decoder U64 CorebusTarget} {R : Decoder U64 δ} {addr : δ → Range}
  {ds : List δ} {acc : Range}

/-- **An access goes to the device whose range includes it.** -/
theorem busRoute_iff (hap : Apart (busMap addr ds)) (hacc : acc.start ≤ acc.end_) {d : δ}
    {o : U64} :
    busRoute R addr ds acc = some (d, o)
      ↔ d ∈ ds ∧ includes (addr d) acc ∧ o = acc.start - (addr d).start := by
  unfold busRoute
  rw [R.route_iff hap hacc]
  constructor
  · rintro (⟨s, hs, hin, rfl⟩ | ⟨_, hnone, _⟩)
    · obtain ⟨d', hd', heq⟩ := List.mem_map.mp hs
      obtain ⟨rfl, rfl⟩ := Prod.mk.inj heq
      exact ⟨hd', hin, rfl⟩
    · cases hnone
  · rintro ⟨hd, hin, rfl⟩
    exact .inl ⟨span (addr d), List.mem_map_of_mem hd, hin, rfl⟩

/-- The bus of the cluster takes the accesses to the interrupt controller, -/
theorem corebus_gic_iff (hacc : acc.start ≤ acc.end_) {g : GicInterface} {o : U64} :
    G.route corebusMap (some .bus) (span acc) = some (.gic g, o)
      ↔ includes g.addr acc ∧ o = acc.start - g.addr.start := by
  rw [G.route_iff corebus_apart hacc]
  constructor
  · rintro (⟨s, hs, hin, rfl⟩ | ⟨_, hbus, _⟩)
    · obtain ⟨g', _, heq⟩ := List.mem_map.mp hs
      obtain ⟨rfl, hg⟩ := Prod.mk.inj heq
      cases hg
      exact ⟨hin, rfl⟩
    · cases hbus
  · rintro ⟨hin, rfl⟩
    exact .inl ⟨span g.addr, List.mem_map_of_mem (mem_corebusTargets g), hin, rfl⟩

/-- and passes on the others as they are. -/
theorem corebus_default (hout : ∀ g : GicInterface, ¬ includes g.addr acc) :
    G.route corebusMap (some .bus) (span acc) = some (.bus, acc.start) := by
  refine G.miss ?_
  intro w hw
  obtain ⟨g, _, rfl⟩ := List.mem_map.mp hw
  exact hout g

/-- An access of a core that is not for the interrupt controller is one of `m_bus`. -/
theorem coreRoute_default (hout : ∀ g : GicInterface, ¬ includes g.addr acc) :
    coreRoute G R addr ds acc = (busRoute R addr ds acc).map (fun r => (.device r.1, r.2)) := by
  unfold coreRoute
  rw [corebus_default hout]
  -- the access is the same one
  have hacc : (⟨acc.start, acc.start + (acc.end_ - acc.start)⟩ : Range) = acc := by
    rw [BitVec.add_comm, BitVec.sub_add_cancel]
  simp only [hacc]

theorem coreRoute_gic_iff (hacc : acc.start ≤ acc.end_) {g : GicInterface} {o : U64} :
    coreRoute G R addr ds acc = some (.gic g, o)
      ↔ includes g.addr acc ∧ o = acc.start - g.addr.start := by
  by_cases hex : ∃ g : GicInterface, includes g.addr acc
  · obtain ⟨g', hin⟩ := hex
    have hroute := (corebus_gic_iff (G := G) hacc).mpr ⟨hin, rfl⟩
    rw [← corebus_gic_iff (G := G) hacc]
    unfold coreRoute
    rw [hroute]
    simp only [Option.some.injEq, Prod.mk.injEq, Target.gic.injEq, CorebusTarget.gic.injEq]
  · have hout : ∀ g : GicInterface, ¬ includes g.addr acc := fun g hin => hex ⟨g, hin⟩
    rw [coreRoute_default hout]
    refine iff_of_false ?_ (fun h => hout g h.1)
    intro h
    obtain ⟨r, _, heq⟩ := Option.map_eq_some_iff.mp h
    cases heq

/-- **The bus of the cluster takes no access to a device.** -/
theorem coreRoute_device_iff (hap : Apart (busMap addr ds))
    (hgic : ∀ (d : δ) (g : GicInterface), (span (addr d)).Disjoint (span g.addr))
    (hacc : acc.start ≤ acc.end_) {d : δ} {o : U64} :
    coreRoute G R addr ds acc = some (.device d, o) ↔ busRoute R addr ds acc = some (d, o) := by
  by_cases hex : ∃ g : GicInterface, includes g.addr acc
  · obtain ⟨g, hin⟩ := hex
    refine iff_of_false ?_ ?_
    · intro h
      have hroute := (corebus_gic_iff (G := G) hacc).mpr ⟨hin, rfl⟩
      unfold coreRoute at h
      rw [hroute] at h
      cases h
    · intro h
      obtain ⟨_, hin', _⟩ := (busRoute_iff hap hacc).mp h
      have hspan : (span acc).lo ≤ (span acc).hi := hacc
      exact (hgic d g).not_includes hspan hin' hin
  · rw [coreRoute_default (fun g hin => hex ⟨g, hin⟩), Option.map_eq_some_iff]
    constructor
    · rintro ⟨⟨d', o'⟩, h, heq⟩
      cases heq
      exact h
    · intro h
      exact ⟨(d, o), h, rfl⟩

end

theorem length_addr (d : Device) :
    d.addr.length.toNat = d.addr.end_.toNat + 1 - d.addr.start.toNat := by
  cases d <;> decide

/-- An access that a range includes ends inside the target. -/
theorem offset_lt {d : Device} {acc : Range} (hacc : acc.start ≤ acc.end_)
    (hin : includes d.addr acc) :
    (acc.start - d.addr.start).toNat + (acc.end_.toNat - acc.start.toNat)
      < d.addr.length.toNat := by
  obtain ⟨hlo, hhi⟩ := hin
  rw [length_addr, BitVec.toNat_sub_of_le hlo]
  rw [BitVec.le_def] at hlo hhi hacc
  omega

/-- **The memory map of the platform**, in whatever order the targets are bound and
however a bus would choose between two windows: an access of a DMA master goes to a
device, at its own addresses and inside its length, exactly if the device's range includes
it; an access of a core goes to the interrupt controller exactly if it lies in one of its
ranges, and else to the same device, at the same address, as that of a DMA master. -/
theorem system_routes (G : Decoder U64 CorebusTarget) (R : Decoder U64 Device)
    {ds : List Device} (hds : ds.Perm systemTargets) (acc : Range)
    (hacc : acc.start ≤ acc.end_) :
    (∀ d o, busRoute R Device.addr ds acc = some (d, o)
        ↔ includes d.addr acc ∧ o = acc.start - d.addr.start)
    ∧ (∀ d o, busRoute R Device.addr ds acc = some (d, o) →
        o.toNat + (acc.end_.toNat - acc.start.toNat) < d.addr.length.toNat)
    ∧ (∀ g o, coreRoute G R Device.addr ds acc = some (.gic g, o)
        ↔ includes g.addr acc ∧ o = acc.start - g.addr.start)
    ∧ (∀ d o, coreRoute G R Device.addr ds acc = some (.device d, o)
        ↔ busRoute R Device.addr ds acc = some (d, o)) := by
  have hbus : ∀ d o, busRoute R Device.addr ds acc = some (d, o)
      ↔ includes d.addr acc ∧ o = acc.start - d.addr.start := by
    intro d o
    rw [busRoute_iff (apart_of_perm hds) hacc]
    exact and_iff_right (hds.mem_iff.mpr (mem_systemTargets d))
  refine ⟨hbus, ?_, fun _ _ => coreRoute_gic_iff hacc,
    fun _ _ => coreRoute_device_iff (apart_of_perm hds) device_disjoint_gic hacc⟩
  intro d o h
  obtain ⟨hin, rfl⟩ := (hbus d o).mp h
  exact offset_lt hacc hin

/-- A core reads the word at offset 4 of the real-time clock. -/
theorem system_routes_rtc :
    coreRoute (firstDecoder U64 CorebusTarget) (firstDecoder U64 Device) Device.addr
      systemTargets ⟨0x1000e004#64, 0x1000e007#64⟩ = some (.device .rtc, 4#64) := by
  have h := system_routes (firstDecoder U64 CorebusTarget) (firstDecoder U64 Device)
    (List.Perm.refl systemTargets) ⟨0x1000e004#64, 0x1000e007#64⟩ (by decide)
  exact (h.2.2.2 .rtc 4#64).mpr ((h.1 .rtc 4#64).mpr (by decide))

/-! ## §4. The minimal platform. -/

/-- The lines that end at `m_gic.spi_in[i]`: `before_end_of_elaboration` connects the
ports one to one. -/
def drivers {ι : Type} (irqs : List (ι × Nat)) (i : Nat) : List ι :=
  (irqs.filter (fun l => l.2 == i)).map Prod.fst

/-- The device of the full platform with the same name. -/
def MinimalDevice.full : MinimalDevice → Device
  | .ram => .ram
  | .uart0 => .uart0
  | .lan0 => .lan0
  | .sdhci => .sdhci
  | .simdev => .simdev
  | .hwrng => .hwrng
  | .rtc => .rtc

def MinimalIrqLine.full : MinimalIrqLine → IrqLine
  | .uart0 => .uart0
  | .lan0 => .lan0
  | .sdhci => .sdhci

def Target.full : Target MinimalDevice → Target Device
  | .gic g => .gic g
  | .device d => .device d.full

/-- **The two tables agree** on the devices that both platforms have. -/
theorem full_addr (d : MinimalDevice) : d.full.addr = d.addr := by
  cases d <;> rfl

theorem mem_minimalTargets (d : MinimalDevice) : d ∈ minimalTargets := by
  cases d <;> decide

theorem minimalTargets_apart : Apart (busMap MinimalDevice.addr minimalTargets) := by
  decide +kernel

theorem minimalDevice_disjoint_gic (d : MinimalDevice) (g : GicInterface) :
    (span d.addr).Disjoint (span g.addr) := by
  rw [← full_addr]
  exact device_disjoint_gic d.full g

/-- **The minimal platform is a part of the full one**: its own table gives its devices the
addresses that the full platform gives them, its cores and its DMA masters reach them, and
nothing else, where they are on the full platform, and each input of the interrupt
controller that it uses is driven by the same line. -/
theorem minimal_routes (G G' : Decoder U64 CorebusTarget) (R : Decoder U64 MinimalDevice)
    (R' : Decoder U64 Device) (acc : Range) (hacc : acc.start ≤ acc.end_) :
    (∀ d : MinimalDevice, d.addr = d.full.addr)
    ∧ (∀ d o, busRoute R MinimalDevice.addr minimalTargets acc = some (d, o)
        ↔ busRoute R' Device.addr systemTargets acc = some (d.full, o))
    ∧ (∀ t o, coreRoute G R MinimalDevice.addr minimalTargets acc = some (t, o)
        ↔ coreRoute G' R' Device.addr systemTargets acc = some (t.full, o))
    ∧ (∀ l ∈ minimalIrqs, drivers minimalIrqs l.2 = [l.1]
        ∧ drivers systemIrqs l.2 = [l.1.full]) := by
  have hbus : ∀ d o, busRoute R MinimalDevice.addr minimalTargets acc = some (d, o)
      ↔ busRoute R' Device.addr systemTargets acc = some (d.full, o) := by
    intro d o
    rw [busRoute_iff minimalTargets_apart hacc, busRoute_iff systemTargets_apart hacc,
      full_addr, and_iff_right (mem_minimalTargets d), and_iff_right (mem_systemTargets d.full)]
  refine ⟨fun d => (full_addr d).symm, hbus, ?_, by decide⟩
  intro t o
  cases t with
  | gic g =>
      show _ ↔ coreRoute G' R' Device.addr systemTargets acc = some (.gic g, o)
      rw [coreRoute_gic_iff hacc, coreRoute_gic_iff hacc]
  | device d =>
      show _ ↔ coreRoute G' R' Device.addr systemTargets acc = some (.device d.full, o)
      rw [coreRoute_device_iff minimalTargets_apart minimalDevice_disjoint_gic hacc,
        coreRoute_device_iff systemTargets_apart device_disjoint_gic hacc, hbus d o]

/-- A core reads the word at offset 4 of the serial port. -/
theorem minimal_routes_uart0 :
    coreRoute (firstDecoder U64 CorebusTarget) (firstDecoder U64 MinimalDevice)
      MinimalDevice.addr minimalTargets ⟨0x10009004#64, 0x10009007#64⟩
      = some (.device .uart0, 4#64) := by
  have h := minimal_routes (firstDecoder U64 CorebusTarget) (firstDecoder U64 CorebusTarget)
    (firstDecoder U64 MinimalDevice) (firstDecoder U64 Device) ⟨0x10009004#64, 0x10009007#64⟩
    (by decide)
  exact (h.2.2.1 (.device .uart0) 4#64).mpr (by decide +kernel)

end Avp64.System
