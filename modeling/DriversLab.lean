import DriversLab.Lib.CInt
import DriversLab.Lib.Lts
import DriversLab.Lib.Prog
import DriversLab.Lib.Pool
import DriversLab.Lib.Table
import DriversLab.Lib.Serial
import DriversLab.Lib.Ring
import DriversLab.Lib.Chain
import DriversLab.Lib.Chunked
import DriversLab.Lib.Vectored
import DriversLab.Lib.Printf
import DriversLab.Lib.Lifo
import DriversLab.Lib.Buffer
import DriversLab.Lib.TwoRun
import DriversLab.DdkExt.TimerOff
import DriversLab.DdkExt.Config
import DriversLab.DdkExt.WorkPending
import DriversLab.DdkExt.Teardown
import DriversLab.DdkExt.BlinkCount
import DriversLab.DdkExt.ProcParse
import DriversLab.DdkLed.Routing
import DriversLab.DdkMem.OpenClose
import DriversLab.DdkMem.Stats
import DriversLab.DdkMem.Lifetime
import DriversLab.DdkMem.Offset
import DriversLab.DdkMem.Packets
import DriversLab.DdkMem.Coherence
import DriversLab.DdkMem.Stream
import DriversLab.DdkMem.Seek
import DriversLab.DdkMem.Serial
import DriversLab.DdkMem.Secrecy
import DriversLab.Scull.Sparse
import DriversLab.Scull.Reading
import DriversLab.Scull.Sampling
import DriversLab.Scull.PipeOpen
import DriversLab.Scull.SingleOpen
import DriversLab.Scull.AccessSteps
import DriversLab.Scull.TrimLock
import DriversLab.Scull.OwnerLaw
import DriversLab.Scull.FailedWrite
import DriversLab.Scull.Alias
import DriversLab.Scull.Divisors
import DriversLab.ScullFamily.PageOrder
import DriversLab.ScullFamily.CacheObject
import DriversLab.ScullFamily.Async
import DriversLab.ScullFamily.Reachable
import DriversLab.ScullFamily.Mmap
import DriversLab.ScullFamily.Reading
import DriversLab.ShortPrint.Output
import DriversLab.ShortPrint.Report
import DriversLab.ShortPrint.Stall
import DriversLab.ShortPrint.Timer
import DriversLab.Short.BottomHalf
import DriversLab.Short.Text
import DriversLab.Snull.Pool
import DriversLab.Snull.Napi
import DriversLab.Snull.Modes
import DriversLab.Snull.Transmit
import DriversLab.Sbull.Transfer
import DriversLab.Sbull.MediaChange
import DriversLab.Usb.Reading
import DriversLab.Usb.Write
import DriversLab.Snull.Readdress
import DriversLab.Short.Reading
import DriversLab.ShortPrint.Reading
import DriversLab.Scull.PipeProgress
import DriversLab.DdkExt.ProcShow
import DriversLab.DdkMem.Extended
import DriversLab.DdkMem.Sending
import DriversLab.Silly.Modes
import DriversLab.Tty.TinyTty
import DriversLab.Tty.TinySerial
import DriversLab.Scull.Private
import DriversLab.Tty.ReadProc
import DriversLab.Jiq.Printing
