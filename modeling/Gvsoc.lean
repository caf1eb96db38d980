import Gvsoc.TimeSchedule
import Gvsoc.ClockRate
import Gvsoc.ClockGating
import Gvsoc.LoadResult
import Gvsoc.PrefetchOpcode
import Gvsoc.CacheAnswers
import Gvsoc.RouterRoutes
import Gvsoc.InterleaverBanks
import Gvsoc.ConverterOnce
import Gvsoc.PacketChunks
import Gvsoc.TraceRoundTrip
import Gvsoc.RawRoundTrip
import Gvsoc.DecodeExact
import Gvsoc.CircularFifo
import Gvsoc.MemPlug
import Gvsoc.TimeStop
import Gvsoc.TimeScheduler
import Gvsoc.CoreStalls
import Gvsoc.Rv32cExpand
import Gvsoc.RouterLookup
import Gvsoc.RouterLoop
import Gvsoc.ClockReenqueue
import Gvsoc.GdbAccess
import Gvsoc.HyperflashErase
import Gvsoc.Fxl6408Registers
import Gvsoc.PowerConservation
import Gvsoc.SpimLoad
import Gvsoc.RouterReplies
import Gvsoc.RouterBandwidth
import Gvsoc.ConverterSplit
import Gvsoc.MemPlugCover
import Gvsoc.MemoryBounds
import Gvsoc.PacketRuns
import Gvsoc.PacketBounds
import Gvsoc.RspSession
import Gvsoc.MisalignedAccess
import Gvsoc.FetchedFirst
import Gvsoc.HwLoopRuns
import Gvsoc.HwLoopWrites
import Gvsoc.Register
import Gvsoc.Regmap
import Gvsoc.Rv32m
import Gvsoc.BitFields
import Gvsoc.Xint64Meets
import Gvsoc.Mstatus
import Gvsoc.PerfCountersLaw
import Gvsoc.FetchCharged
import Gvsoc.CacheFlush
import Gvsoc.ConfigWildcard
import Gvsoc.PendingQueue
import Gvsoc.PowerTableGet
import Gvsoc.VcdMerge
import Gvsoc.VcdMerged
import Gvsoc.HyperflashBus
import Gvsoc.HyperflashBuffer
import Gvsoc.HyperflashConfirm
import Gvsoc.ArrayWatch
import Gvsoc.Hyperram
import Gvsoc.HyperflashUses
import Gvsoc.HyperbusArrays
import Gvsoc.ShiftRegister
import Gvsoc.SpiFlash
import Gvsoc.SpiFlashEdges
import Gvsoc.SpiFlashProgram
import Gvsoc.SpiFlashRead
import Gvsoc.SpiFlashHeader
import Gvsoc.SpiFlashRoundTrip
import Gvsoc.I2cBus
import Gvsoc.I2cBusWired
import Gvsoc.I2cHelper
import Gvsoc.I2cHelperPlaces
import Gvsoc.I2cHelperSteps
import Gvsoc.I2cHelperBytes
import Gvsoc.SharedResource
import Gvsoc.InsnCacheMap
import Gvsoc.I2sVerif
import Gvsoc.MemPlugSpacing
import Gvsoc.InsnHandlers
import Gvsoc.SpimSlaveStored
import Gvsoc.SpimMemoryRuns
import Gvsoc.NinaUartFraming
import Gvsoc.UartLink
import Gvsoc.NinaRx
import Gvsoc.WireFanout
import Gvsoc.FlexFloatRounds
import Gvsoc.HimaxFrames
import Gvsoc.BankedMemory
import Gvsoc.ProxyRuns
