import Mathlib.Tactic

namespace SmartPerf.Chart

/-! `getTimeString` writes a time as hours, minutes and smaller units. -/

inductive TimeUnit where
  | hour
  | minute
  | second
  | millisecond
  | microsecond
  | nanosecond
deriving Repr, DecidableEq

namespace TimeUnit

def size : TimeUnit → Int
  | hour => 3600000000000
  | minute => 60000000000
  | second => 1000000000
  | millisecond => 1000000
  | microsecond => 1000
  | nanosecond => 1

/-- The next larger unit. -/
def larger : TimeUnit → TimeUnit
  | second => minute
  | millisecond => second
  | microsecond => millisecond
  | nanosecond => microsecond
  | _ => hour

def sign : TimeUnit → String
  | hour => "h "
  | minute => "m "
  | second => "s "
  | millisecond => "ms "
  | microsecond => "μs "
  | nanosecond => "ns "

theorem size_pos (unit : TimeUnit) : 0 < unit.size := by cases unit <;> decide

end TimeUnit

/-- The parts that are written and what is left of the time. -/
structure TimeText where
  parts : List (TimeUnit × Int) := []
  currentNs : Int

namespace TimeText

variable (unit : TimeUnit)

/-- What is taken away are the units in `whole`. -/
def write (whole : Int) (text : TimeText) : TimeText :=
  if unit.size ≤ text.currentNs then
    { parts := text.parts ++ [(unit, text.currentNs / unit.size)]
      currentNs := text.currentNs - whole / unit.size * unit.size }
  else text

def writeOwn (text : TimeText) : TimeText := text.write unit text.currentNs

/-- The minutes that are taken away are those of the whole time, not those of what the hours leave. -/
def minutes (ns : Nat) : TimeText := (writeOwn .hour { currentNs := ns }).write .minute ns

/-- The nanoseconds are all that is left, and are written if there are any. -/
def all (ns : Nat) : TimeText :=
  (((minutes ns).writeOwn .second |>.writeOwn .millisecond).writeOwn .microsecond).writeOwn .nanosecond

end TimeText

def getTimeString (ns : Nat) : String :=
  let parts := (TimeText.all ns).parts
  if parts.isEmpty then toString ns else String.join (parts.map fun part => toString part.2 ++ part.1.sign)

namespace TimeText

def written (text : TimeText) : Int := (text.parts.map fun part => part.2 * part.1.size).sum

def Bounded (text : TimeText) : Prop :=
  ∀ part ∈ text.parts, part.1 ≠ .hour → 0 ≤ part.2 ∧ part.2 * part.1.size < part.1.larger.size

/-- Nothing of the time is lost so far. -/
structure Kept (ns : Nat) (text : TimeText) : Prop where
  value : text.written + text.currentNs = ns
  bounded : text.Bounded
  positive : 0 ≤ text.currentNs

variable {ns : Nat} {text : TimeText} {unit} {whole : Int}

theorem write_of_lt (small : text.currentNs < unit.size) : text.write unit whole = text := if_neg (not_le.mpr small)

theorem Kept.writeOwn (kept : text.Kept ns) (unit : TimeUnit) (fits : unit ≠ .hour → text.currentNs < unit.larger.size) :
    (text.writeOwn unit).Kept ns ∧ (text.writeOwn unit).currentNs < unit.size := by
  have size_pos := unit.size_pos
  rw [TimeText.writeOwn]
  by_cases enough : unit.size ≤ text.currentNs
  · have parts := Int.mul_ediv_add_emod text.currentNs unit.size
    have rest_nonneg := Int.emod_nonneg text.currentNs size_pos.ne'
    have rest_lt := Int.emod_lt_of_pos text.currentNs size_pos
    have value := kept.value
    rw [write, if_pos enough]
    rw [Int.mul_comm] at parts
    refine ⟨⟨?_, ?_, by dsimp only; omega⟩, by dsimp only; omega⟩
    · simp only [written, List.map_append, List.sum_append, List.map_cons, List.map_nil, List.sum_singleton] at value ⊢
      omega
    · intro part listed other
      rcases List.mem_append.mp listed with old | new
      · exact kept.bounded part old other
      · obtain rfl := List.mem_singleton.mp new
        have small := fits other
        exact ⟨Int.ediv_nonneg kept.positive size_pos.le, by dsimp only; omega⟩
  · rw [write_of_lt (not_le.mp enough)]
    exact ⟨kept, not_le.mp enough⟩

theorem Kept.written_all (kept : (minutes ns).Kept ns) (left : (minutes ns).currentNs < TimeUnit.minute.size) :
    (all ns).written = ns ∧ (all ns).Bounded := by
  obtain ⟨seconds, lessThanSecond⟩ := kept.writeOwn .second fun _ => left
  obtain ⟨millis, lessThanMilli⟩ := seconds.writeOwn .millisecond fun _ => lessThanSecond
  obtain ⟨micros, lessThanMicro⟩ := millis.writeOwn .microsecond fun _ => lessThanMilli
  obtain ⟨⟨value, bounded, positive⟩, lessThanOne⟩ := micros.writeOwn .nanosecond fun _ => lessThanMicro
  have nothing : (all ns).currentNs = 0 := le_antisymm (Int.lt_add_one_iff.mp lessThanOne) positive
  have whole : (all ns).written + (all ns).currentNs = ns := value
  exact ⟨by omega, bounded⟩

/-- The value is kept exactly if there are no hours or no minutes, or nothing is left behind the minutes. -/
theorem all_keeps_iff (ns : Nat) :
    (all ns).written = ns ∧ (all ns).Bounded ↔
      ns < TimeUnit.hour.size ∨ ns % TimeUnit.hour.size < TimeUnit.minute.size ∨ ns % TimeUnit.minute.size = 0 := by
  have start : Kept ns { currentNs := ns } := ⟨by simp [written], by simp [Bounded], by simp⟩
  obtain ⟨hours, left⟩ := start.writeOwn .hour fun other => absurd rfl other
  by_cases short : (ns : Int) < TimeUnit.hour.size
  · -- The hours leave the whole time, so the minutes are taken from it.
    have same : writeOwn .hour { currentNs := ns } = { currentNs := ns } := write_of_lt short
    rw [same] at hours
    obtain ⟨minutes, less⟩ := hours.writeOwn .minute fun _ => short
    have same_minutes : TimeText.minutes ns = writeOwn .minute { currentNs := ns } := by rw [TimeText.minutes, same]; rfl
    exact iff_of_true (Kept.written_all (same_minutes ▸ minutes) (same_minutes ▸ less)) (.inl short)
  · have first : writeOwn .hour { currentNs := ns } =
        ⟨[(.hour, ns / TimeUnit.hour.size)], ns % TimeUnit.hour.size⟩ := by
      rw [writeOwn, write, if_pos (not_lt.mp short), Int.emod_def, Int.mul_comm]
      rfl
    by_cases few : ns % TimeUnit.hour.size < TimeUnit.minute.size
    · have same : minutes ns = writeOwn .hour { currentNs := ns } := by
        rw [minutes, first]
        exact write_of_lt few
      rw [← same] at hours
      have left : (minutes ns).currentNs < TimeUnit.minute.size := by
        rw [same, first]
        exact few
      exact iff_of_true (hours.written_all left) (.inr (.inl few))
    · have second : minutes ns = ⟨[(.hour, ns / TimeUnit.hour.size), (.minute, ns % TimeUnit.hour.size / TimeUnit.minute.size)],
          ns % TimeUnit.hour.size - ns / TimeUnit.minute.size * TimeUnit.minute.size⟩ := by
        rw [minutes, first, write, if_pos (not_lt.mp few)]
        rfl
      have below : (minutes ns).currentNs ≤ 0 := by
        simp only [second, TimeUnit.size] at short ⊢
        omega
      have stays (unit : TimeUnit) : (minutes ns).writeOwn unit = minutes ns := write_of_lt (below.trans_lt unit.size_pos)
      rw [all, stays, stays, stays, stays, second]
      simp [written, Bounded, TimeUnit.size, TimeUnit.larger] at short few ⊢
      omega

/-- One hour, one minute and one second: the second is not written. -/
theorem all_hourMinuteSecond : getTimeString 3661000000000 = "1h 1m " ∧ (all 3661000000000).written = 3660000000000 := by
  decide +kernel

end TimeText

end SmartPerf.Chart
