import Sima.Arm64.GicIts
import Sima.Arm64.SystemOff
import Sima.Boot.RawImage
import Sima.Boot.Vfdt
import Sima.Bsp.ShellEditor
import Sima.Console.Input
import Sima.Console.Wake
import Sima.Dm.Asyncio
import Sima.Dm.IoReq
import Sima.Dm.Vioapic
import Sima.Irq.Request
import Sima.Mmu.Calls
import Sima.Mmu.Halts
import Sima.Riscv.VsbiIpi
import Sima.Rtl.Strncpy
import Sima.Sched.BvtLag
import Sima.Sched.Event
import Sima.Sched.RtdsCharge
import Sima.Sched.RtdsTimer
import Sima.Sched.Runtime
import Sima.Sched.Shortcut
import Sima.Smp.Once
import Sima.Vgic.Lpi
import Sima.Vgic.Mirror
import Sima.Vgic.Redist
import Sima.Vgic.Router
import Sima.Vm.IntrMonitor
import Sima.Vm.MemoryRegions
import Sima.Vm.Wdt
import Sima.X86.EptPools
import Sima.X86.Ve820
