import Rolly.Lib.Words
import Rolly.OtlpLayer

/-!
# The metrics of the process

A task reads the CPU time and the memory of the process from two files of the
system and traces them once in each interval. A file that cannot be read, is no
text or does not have the number is left out.
-/

namespace Rolly.UseMetrics

open Layer (FieldValue)
open Proto3 (Bytes decodeUtf8)

-- ---------------------------------------------------------------------------
-- The texts
-- ---------------------------------------------------------------------------

/-- `char::is_whitespace` -/
def isWhitespace (c : Char) : Bool :=
  let n := c.toNat
  (0x9 ≤ n && n ≤ 0xd) || n = 0x20 || n = 0x85 || n = 0xa0 || n = 0x1680 ||
    (0x2000 ≤ n && n ≤ 0x200a) || n = 0x2028 || n = 0x2029 || n = 0x202f || n = 0x205f || n = 0x3000

def splitWhitespace (text : List Char) : List (List Char) := Words.words isWhitespace text

/-- `str::parse::<u64>` -/
def parseU64 (text : List Char) : Option UInt64 := (Words.parseNat (2 ^ 64) text).map UInt64.ofNat

/-- `std::fs::read_to_string`, on the bytes of a file that can be read. -/
def readToString (data : Option Bytes) : Option (List Char) :=
  (data.bind decodeUtf8).map String.toList

/-- The numbers 14 and 15 of `/proc/self/stat`. -/
def readCpuTicks (data : Option Bytes) : Option (UInt64 × UInt64) := do
  let data ← readToString data
  -- the second field is in parentheses and may have any characters
  let (_, afterComm) ← Words.rsplitOnce ')' data
  let fields := splitWhitespace afterComm
  let utime ← fields[11]? >>= parseU64
  let stime ← fields[12]? >>= parseU64
  return (utime, stime)

/-- The second number of `/proc/self/statm`. -/
def readRssPages (data : Option Bytes) : Option UInt64 := do
  let data ← readToString data
  (splitWhitespace data)[1]? >>= parseU64

-- ---------------------------------------------------------------------------
-- The loop
-- ---------------------------------------------------------------------------

/-- `sysconf` of the page size and of the clock. -/
structure System where
  pageSize : UInt64
  clockTicks : UInt64

/-- What one tick finds: the time in nanoseconds and the two files. -/
structure Reading where
  now : Nat
  stat : Option Bytes
  statm : Option Bytes

structure PollLoop where
  prevCpuTicks : Option UInt64 := none
  prevInstant : Nat

def saturatingSub (a b : UInt64) : UInt64 := if b ≤ a then a - b else 0

/-- `Duration::as_secs_f64` -/
def asSecsF64 (nanos : Nat) : F64 :=
  (F64.ofNat (nanos / 10 ^ 9)).add ((F64.ofNat (nanos % 10 ^ 9)).div (F64.ofNat (10 ^ 9)))

def utilization (sys : System) (deltaTicks : UInt64) (elapsed : Nat) : F64 :=
  let cpuSeconds := (F64.ofNat deltaTicks.toNat).div (F64.ofNat sys.clockTicks.toNat)
  let elapsedSecs := asSecsF64 elapsed
  if F64.zero.lt elapsedSecs then cpuSeconds.div elapsedSecs else F64.zero

def gauge (metric : String) (value : FieldValue) : List (String × FieldValue) :=
  [("metric", .str metric), ("type", .str "gauge"), ("value", value)]

/-- What the CPU metric is computed from. -/
structure CpuReport where
  deltaTicks : UInt64
  elapsed : Nat
  deriving DecidableEq, Repr

namespace Reading

/-- `utime + stime`, in a release build. -/
def totalTicks (r : Reading) : Option UInt64 :=
  (readCpuTicks r.stat).map fun (utime, stime) => utime + stime

end Reading

namespace PollLoop

def cpuReport (s : PollLoop) (r : Reading) : Option CpuReport := do
  let totalTicks ← r.totalTicks
  let prev ← s.prevCpuTicks
  return ⟨saturatingSub totalTicks prev, r.now - s.prevInstant⟩

def tick (s : PollLoop) (r : Reading) : PollLoop where
  prevCpuTicks := r.totalTicks <|> s.prevCpuTicks
  prevInstant := r.now

def events (sys : System) (s : PollLoop) (r : Reading) : List (List (String × FieldValue)) :=
  ((s.cpuReport r).map fun report => gauge "process.cpu.utilization"
    (.f64 (utilization sys report.deltaTicks report.elapsed))).toList ++
  ((readRssPages r.statm).map fun rssPages =>
    gauge "process.memory.usage" (.u64 (rssPages * sys.pageSize))).toList

/-- `poll_loop` up to the last of these ticks. -/
def run (start : Nat) (readings : List Reading) : PollLoop :=
  readings.foldl tick { prevInstant := start }

end PollLoop

end Rolly.UseMetrics
