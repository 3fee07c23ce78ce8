import SmartPerf.Pipeline.Liveness

namespace SmartPerf.Pipeline

open Data

/-! The pipeline of `PbreaderParser`, whose segments are `ProfilerPluginData` messages. -/

/-- Which fields a `TracePluginResult` has; the clock stands in its cpu statistics. -/
structure TracePluginResult where
  ftraceCpuStats : Option String
  hasFtraceCpuDetail : Bool
  hasClocksDetail : Bool
  hasSymbolsDetail : Bool
deriving Repr, DecidableEq

/-- A message of a plugin, as far as the pipeline looks at it: its name, if it has one, and its
data read as the result of the ftrace plugin. -/
structure ProfilerPluginData where
  name : Option String
  tracePluginResult : TracePluginResult
deriving Repr, DecidableEq

inductive DataSourceType where
  | trace
  | ffrt
  | ffrtConfig
  | nativeHook
  | nativeHookConfig
  | mem
  | memConfig
  | hilog
  | fps
  | cpu
  | network
  | diskio
  | process
  | hisysevent
  | hisyseventConfig
  | jsMemory
  | jsMemoryConfig
  | xpower
deriving Repr, DecidableEq

def ftracePluginNames : List String := ["ftrace-plugin", "/data/local/tmp/libftrace_plugin.z.so"]

/-- The plugins whose messages are handed on as they are, with the type they get. -/
def pluginDataTypes : List (String × DataSourceType) :=
  [("ffrt-profiler", .ffrt), ("ffrt-profiler_config", .ffrtConfig),
    ("nativehook", .nativeHook), ("hookdaemon", .nativeHook), ("nativehook_config", .nativeHookConfig),
    ("memory-plugin", .mem), ("memory-plugin_config", .memConfig),
    ("hilog-plugin", .hilog), ("/data/local/tmp/libhilogplugin.z.so", .hilog),
    ("hidump-plugin", .fps), ("/data/local/tmp/libhidumpplugin.z.so", .fps),
    ("cpu-plugin", .cpu), ("network-plugin", .network), ("diskio-plugin", .diskio), ("process-plugin", .process),
    ("hisysevent-plugin", .hisysevent), ("hisysevent-plugin_config", .hisyseventConfig),
    ("arkts-plugin", .jsMemory), ("arkts-plugin_config", .jsMemoryConfig), ("xpower-plugin", .xpower)]

/-- `supportPluginNameIndex_` -/
def supportPluginNames : List String :=
  ["process-plugin", "diskio-plugin", "memory-plugin", "memory-plugin_config", "hidump-plugin",
    "/data/local/tmp/libhidumpplugin.z.so", "hilog-plugin", "/data/local/tmp/libhilogplugin.z.so",
    "hisysevent-plugin", "hisysevent-plugin_config", "cpu-plugin", "network-plugin", "nativehook", "hookdaemon",
    "nativehook_config", "arkts-plugin", "arkts-plugin_config", "ftrace-plugin",
    "/data/local/tmp/libftrace_plugin.z.so", "ffrt-profiler", "ffrt-profiler_config", "xpower-plugin"]

namespace ProfilerPluginData

variable (segment : ProfilerPluginData)

def parseFtrace : Verdict DataSourceType :=
  match segment.tracePluginResult.ftraceCpuStats with
  | some clock => if clock = "boot" ∨ clock = "mono" then .parsed .trace else .invalid
  | none =>
    if segment.tracePluginResult.hasFtraceCpuDetail || segment.tracePluginResult.hasClocksDetail ||
        segment.tracePluginResult.hasSymbolsDetail then .parsed .trace
    else .invalid

/-- A name without a branch of its own leaves the status as it is. -/
def parseDataByPluginName (name : String) : Verdict DataSourceType :=
  if name ∈ ftracePluginNames then segment.parseFtrace
  else
    match pluginDataTypes.lookup name with
    | some dataType => .parsed dataType
    | none => .untouched

def parserData : Verdict DataSourceType :=
  match segment.name with
  | none => .untouched
  | some name => if name ∈ supportPluginNames then segment.parseDataByPluginName name else .invalid

theorem parseFtrace_touched : segment.parseFtrace ≠ .untouched := by
  unfold parseFtrace
  split <;> split <;> simp

theorem supported_cases : ∀ name ∈ supportPluginNames,
    name ∈ ftracePluginNames ∨ (pluginDataTypes.lookup name).isSome := by
  decide

theorem parserData_eq_untouched_iff : segment.parserData = .untouched ↔ segment.name = none := by
  unfold parserData
  cases segment.name with
  | none => simp
  | some name =>
    simp only [reduceCtorEq, iff_false]
    split
    next supported =>
      unfold parseDataByPluginName
      split
      · exact segment.parseFtrace_touched
      next other =>
        have branch := (supported_cases name supported).resolve_left other
        obtain ⟨dataType, found⟩ := Option.isSome_iff_exists.mp branch
        simp [found]
    · simp

end ProfilerPluginData

def pbreaderParser (parserThreadNum : Nat) : Config ProfilerPluginData DataSourceType where
  maxSegArraySize := 10000
  maxSegArraySize_pos := by decide
  parserThreadNum
  parserData := ProfilerPluginData.parserData
  releasesInvalidFirst := true
  rechecksFilter := false

/-- Under every fair schedule the filter thread passes every segment and the end of the file is
reached exactly if every segment has a plugin name and the filter thread does not end over a
slot that was filled since it looked at it. -/
theorem pbreader_all_passed_iff_named (parserThreadNum : Nat) (threads : 0 < parserThreadNum)
    (segments : List ProfilerPluginData) (schedule : Nat → Party)
    (fair : Fair (pbreaderParser parserThreadNum).parties schedule) :
    (∃ time, (runAt (pbreaderParser parserThreadNum) segments schedule time).reader = .done ∧
        (runAt (pbreaderParser parserThreadNum) segments schedule time).filtered.length = segments.length) ↔
      (∀ segment ∈ segments, segment.name ≠ none) ∧
        ∀ time, (runAt (pbreaderParser parserThreadNum) segments schedule time).ExitsEmpty (schedule time) := by
  refine (all_passed_iff threads fair).trans (and_congr_left' ?_)
  refine forall₂_congr fun segment _ => ?_
  exact not_congr segment.parserData_eq_untouched_iff

/-- At any time of any interleaving the front of the file is passed, in order, each message parsed by one thread and none
of them without a name. -/
theorem pbreader_passes_front (parserThreadNum : Nat) (segments : List ProfilerPluginData) (schedule : Nat → Party)
    (time : Nat) :
    let passed := (runAt (pbreaderParser parserThreadNum) segments schedule time).filtered
    passed.map Passed.line = (segments.take passed.length).map (·.parserData.line) ∧
      (∀ entry ∈ passed, ∃ thread, entry.parsedBy = [thread]) ∧
      ∀ segment ∈ segments.take passed.length, segment.name ≠ none := by
  obtain ⟨_, _, _, progress⟩ := (invariant_at (pbreaderParser parserThreadNum) segments schedule time).progress
  refine ⟨progress.filters.lines, progress.filters.parsed_once, fun segment inside nameless => ?_⟩
  exact progress.filters.touched segment inside (segment.parserData_eq_untouched_iff.mpr nameless)

def roundRobin (time : Nat) : Party :=
  match time % 3 with
  | 0 => .reader
  | 1 => .parser 0
  | _ => .filter

theorem roundRobin_fair : Fair (pbreaderParser 1).parties roundRobin := by
  intro party member time
  cases party with
  | reader => exact ⟨3 * time, by omega, by simp [roundRobin]⟩
  | parser thread =>
    have first : thread = 0 := Nat.lt_one_iff.mp (member thread rfl)
    subst first
    exact ⟨3 * time + 1, by omega, by simp [roundRobin]⟩
  | filter => exact ⟨3 * time + 2, by omega, by simp [roundRobin]⟩

def noTrace : TracePluginResult where
  ftraceCpuStats := none
  hasFtraceCpuDetail := false
  hasClocksDetail := false
  hasSymbolsDetail := false

def hilogSegment : ProfilerPluginData := { name := some "hilog-plugin", tracePluginResult := noTrace }

theorem pbreader_hilog_passed :
    Fair (pbreaderParser 1).parties roundRobin ∧
      (∃ time, (runAt (pbreaderParser 1) [hilogSegment] roundRobin time).reader = .done ∧
        (runAt (pbreaderParser 1) [hilogSegment] roundRobin time).filtered.length = 1) ∧
      ∀ time, (runAt (pbreaderParser 1) [hilogSegment] roundRobin time).ExitsEmpty (roundRobin time) := by
  have passed : (runAt (pbreaderParser 1) [hilogSegment] roundRobin 90).reader = .done ∧
      (runAt (pbreaderParser 1) [hilogSegment] roundRobin 90).filtered.length = 1 := by decide +kernel
  exact ⟨roundRobin_fair, ⟨90, passed⟩,
    ((pbreader_all_passed_iff_named 1 Nat.one_pos [hilogSegment] roundRobin roundRobin_fair).mp ⟨90, passed⟩).2⟩

def namelessSegment : ProfilerPluginData := { name := none, tracePluginResult := noTrace }

/-- A message without a name is in work at some time, with no thread working on it, and at no
time of a fair run has the filter thread passed it. -/
theorem pbreader_nameless_never_passed :
    Fair (pbreaderParser 1).parties roundRobin ∧
      ((runAt (pbreaderParser 1) [namelessSegment] roundRobin 60).dataSegArray 0).status = .parsing ∧
      (runAt (pbreaderParser 1) [namelessSegment] roundRobin 60).parsers = [.stopped] ∧
      ∀ time, (runAt (pbreaderParser 1) [namelessSegment] roundRobin time).filtered = [] := by
  refine ⟨roundRobin_fair, by decide +kernel, by decide +kernel, ?_⟩
  intro time
  obtain ⟨_, _, _, progress⟩ := (invariant_at (pbreaderParser 1) [namelessSegment] roundRobin time).progress
  have touched := progress.filters.touched
  by_contra passed
  have positive := List.length_pos_iff.mpr passed
  have first : namelessSegment ∈ [namelessSegment].take
      (runAt (pbreaderParser 1) [namelessSegment] roundRobin time).filtered.length := by
    rw [List.take_of_length_le (Nat.succ_le_of_lt positive)]
    exact List.mem_singleton_self _
  exact touched namelessSegment first rfl

end SmartPerf.Pipeline
