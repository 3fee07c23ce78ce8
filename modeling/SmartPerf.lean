import SmartPerf.Table.Filtering
import SmartPerf.Sched.Tiling
import SmartPerf.Sched.LostEvents
import SmartPerf.Slice.Nesting
import SmartPerf.Slice.IrqExport
import SmartPerf.Framing.Cutting
import SmartPerf.Pipeline.Ptreader
import SmartPerf.Pipeline.Pbreader
import SmartPerf.Frame.Export
import SmartPerf.Hook.FreeMatching
import SmartPerf.Heap.RetainedSize
import SmartPerf.Heap.ComparisonSession
import SmartPerf.Hdc.Wire
import SmartPerf.CallTree.NativeMemoryExact
import SmartPerf.CallTree.PerfExact
import SmartPerf.CallTree.PerfBottomUpExact
import SmartPerf.CallChart.HiperfCallChartExact
import SmartPerf.Split.PerfPieces
import SmartPerf.Split.EbpfPieces
import SmartPerf.Events.BytraceEventParser
import SmartPerf.Events.HtraceEventParser
import SmartPerf.Events.CpuDetailParser
import SmartPerf.Query.LogicWorker
import SmartPerf.Table.SpanJoinExact
import SmartPerf.RawTrace.RingBuffer
import SmartPerf.RawTrace.PageBounds
import SmartPerf.Proto.Search
import SmartPerf.Proto.Packed
import SmartPerf.Slice.Unmatched
import SmartPerf.Table.SymbolsData
import SmartPerf.Hook.ProcessMaps
import SmartPerf.Hook.CallChainIds
import SmartPerf.Hook.MmapAccounting
import SmartPerf.Clock.ClockFilter
import SmartPerf.Hdc.AsyncQueue
import SmartPerf.Hdc.Handshake
import SmartPerf.Heap.Allocation
import SmartPerf.CallTree.JsCpuProfiler
import SmartPerf.Chart.NativeMemoryDataReceiver
import SmartPerf.Heap.TimeLine
import SmartPerf.Split.PerfTimes
import SmartPerf.Chart.TimeString
