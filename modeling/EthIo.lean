import EthIo.Base.Machine
import EthIo.Base.Chunks
import EthIo.Base.CString
import EthIo.Base.Ring
import EthIo.Config.Reboot
import EthIo.Config.EepromTask
import EthIo.Config.BufferWrite
import EthIo.Uart.Rearm
import EthIo.Eth.Hal
import EthIo.Eth.Output
import EthIo.Eth.Input
import EthIo.Eth.RxRing
import EthIo.Eth.InputTask
import EthIo.Eth.InputFrames
import EthIo.Eth.Callers
import EthIo.Eth.Exclusion
import EthIo.Client.Task
import EthIo.Client.Report
import EthIo.Client.Netconns
import EthIo.Client.Command
import EthIo.Client.Netbuf
import EthIo.Client.Receiver
import EthIo.Boot.Startup
import EthIo.Boot.Dial
import EthIo.Base.Spill
import EthIo.Config.Loading
import EthIo.Eth.InputCalls
import EthIo.Base.Tiling
import EthIo.Rtos.HeapRuns
import EthIo.Rtos.QueueRing
import EthIo.Rtos.QueueCalls
import EthIo.Rtos.QueueWaits
import EthIo.Base.Deque
import EthIo.Base.Framing
import EthIo.Rtos.FreeList
import EthIo.Base.Wrap
import EthIo.LwIP.Timeouts
import EthIo.LwIP.TimeoutsOrder
import EthIo.LwIP.TimeoutsKept
import EthIo.LwIP.TimeoutsPace
import EthIo.LwIP.TcpipThread
