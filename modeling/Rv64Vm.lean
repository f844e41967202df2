import Rv64Vm.Isa.PortableExtract
import Rv64Vm.Mmu.GranularFlush
import Rv64Vm.Mmu.Census
import Rv64Vm.Mmio.Regions
import Rv64Vm.Exec.DecodeHistory
import Rv64Vm.Exec.Compressed
import Rv64Vm.Jit.TlbRefines
import Rv64Vm.Devices.PlicCoverage
import Rv64Vm.Devices.Frequency
import Rv64Vm.Devices.I2c
import Rv64Vm.Devices.Uart
import Rv64Vm.Devices.DescChains
import Rv64Vm.Devices.BlkSectors
import Rv64Vm.Devices.XhciReturns
import Rv64Vm.Devices.XhciEvents
import Rv64Vm.Fdt.Phandles
import Rv64Vm.Fdt.RoundTrip
import Rv64Vm.Isa.Carryless
import Rv64Vm.Isa.BitmanipCorrect
import Rv64Vm.Isa.Rv64iCorrect
import Rv64Vm.Exec.CodeStores
import Rv64Vm.Exec.Wakeup
import Rv64Vm.Exec.PcAlignment
import Rv64Vm.Exec.Work
import Rv64Vm.Exec.FetchLaw
import Rv64Vm.Exec.SingleMoves
import Rv64Vm.Exec.FpState
import Rv64Vm.Exec.StraightLine
