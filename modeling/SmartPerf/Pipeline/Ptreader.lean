import SmartPerf.Pipeline.Order

namespace SmartPerf.Pipeline

open Data

/-! The pipeline of `PtreaderParser`, whose segments are the lines of a text trace. -/

structure BytraceLine where
  ts : Nat
  pid : Nat
  cpu : Nat
  task : String
  tgid : Nat
  eventName : String
  argsStr : String
deriving Repr, DecidableEq

/-- The groups of a match of `bytraceMatcher_`, and what stands before and behind it. -/
structure MatchedLine where
  pid : String
  tgid : String
  cpu : String
  ts : String
  eventName : String
  before : String
  behind : String

/-- The regular expression and the conversions of its groups; a time is converted to
nanoseconds. -/
structure LineReading where
  bytraceMatcher : String → Option MatchedLine
  strToInt : String → Option Nat
  strToDouble : String → Option Nat

def strTrim (text : String) : String :=
  String.ofList ((text.toList.dropWhile (· == ' ')).reverse.dropWhile (· == ' ')).reverse

namespace LineReading

variable (reading : LineReading)

def getDataSegAttr (matched : MatchedLine) : Verdict BytraceLine :=
  match reading.strToInt matched.pid with
  | none => .invalid
  | some pid =>
    match reading.strToInt matched.cpu with
    | none => .invalid
    | some cpu =>
      match reading.strToDouble matched.ts with
      | none => .invalid
      | some ts =>
        let task := strTrim matched.before
        .parsed {
          ts, pid, cpu
          task := if task = "<...>" then "" else task
          tgid := (reading.strToInt matched.tgid).getD 0
          eventName := matched.eventName
          argsStr := strTrim matched.behind }

def parserData (line : String) : Verdict BytraceLine :=
  match reading.bytraceMatcher line with
  | none => .invalid
  | some matched => reading.getDataSegAttr matched

def ptreaderParser (parserThreadNum : Nat) : Config String BytraceLine where
  maxSegArraySize := 5000
  maxSegArraySize_pos := by decide
  parserThreadNum
  parserData := reading.parserData
  releasesInvalidFirst := false
  rechecksFilter := true

/-- Over every interleaving of reader, parser threads and filter thread: the lines of a text
trace are passed in order and once, each parsed by one thread, none is overwritten, and all are
passed when the end is reported, exactly if the filter thread does not end over a slot that was
filled since it looked at it. -/
theorem ptreader_ordered_iff_exits_empty (parserThreadNum : Nat) (lines : List String) (schedule : List Party) :
    Along (State.step (reading.ptreaderParser parserThreadNum))
        (fun state party => Sound (reading.ptreaderParser parserThreadNum) lines
          (state.step (reading.ptreaderParser parserThreadNum) party))
        (State.start lines) schedule ↔
      Along (State.step (reading.ptreaderParser parserThreadNum)) State.ExitsEmpty (State.start lines) schedule :=
  sound_along_iff (reading.ptreaderParser parserThreadNum) lines schedule

end LineReading

/-- One thread parses the only line after the filter thread has seen it in work, and leaves
before the filter thread looks at the number of threads. -/
def lateLineSchedule : List Party :=
  List.replicate 10 .reader ++ [.parser 0, .filter, .filter, .parser 0, .parser 0, .parser 0, .filter, .reader]

def wakeupLine : String := "sh-12 (12) [003] .... 5.000001: sched_wakeup: comm=sh"

def wakeupReading : LineReading where
  bytraceMatcher line :=
    if line = wakeupLine then
      some { pid := "12", tgid := "12", cpu := "003", ts := "5.000001", eventName := "sched_wakeup",
             before := "sh", behind := " comm=sh" }
    else none
  strToInt text := if text = "12" then some 12 else if text = "003" then some 3 else none
  strToDouble text := if text = "5.000001" then some 5000001000 else none

/-- The end is reported with the parsed line still in its slot. -/
theorem ptreader_lateLine_lost :
    let config := wakeupReading.ptreaderParser 1
    let final := lateLineSchedule.foldl (State.step config) (State.start [wakeupLine])
    final.reader = .done ∧ final.exited = true ∧ final.filtered = [] ∧
      (final.dataSegArray 0).status = .parsed := by
  decide

end SmartPerf.Pipeline
