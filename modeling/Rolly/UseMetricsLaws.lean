import Mathlib.Algebra.GroupWithZero.Nat
import Mathlib.Data.List.Induction
import Rolly.UseMetrics

/-!
# What the process metrics say

The CPU time is read from its place whatever text the process is called by, and
the reports of a run add up to the CPU time between its first and last reading.
A report covers the time it divides by only if the reading before did not fail.
-/

namespace Rolly.UseMetrics

open Proto3 (Bytes decodeUtf8 decodeUtf8_between decodeUtf8_utf8 utf8)

-- ---------------------------------------------------------------------------
-- The texts
-- ---------------------------------------------------------------------------

/-- A word without a parenthesis. -/
def isField (w : List Char) : Bool := !w.isEmpty && w.all fun c => !isWhitespace c && c != ')'

/-- A line of `/proc/self/stat`. `fields` are the fields from the state on; they
have no blanks and no parentheses. The name of the process is any bytes: it is
cut where the system has no more room for it, maybe inside a character. -/
structure StatLine where
  pid : List Char
  comm : Bytes
  fields : List (List Char)
  areFields : fields.all isField

namespace StatLine

def front (line : StatLine) : String := String.ofList (line.pid ++ [' ', '('])

def back (line : StatLine) : String :=
  String.ofList (')' :: ((line.fields.flatMap fun w => ' ' :: w) ++ ['\n']))

def bytes (line : StatLine) : Bytes := utf8 line.front ++ line.comm ++ utf8 line.back

end StatLine

section
variable {line : StatLine} {m k : Nat} {u s : UInt64}

theorem parseU64_toDigits : parseU64 (Nat.toDigits 10 m) = some u ↔ m = u.toNat := by
  rw [parseU64, Option.map_eq_some_iff]
  constructor
  · rintro ⟨n, hn, rfl⟩
    obtain ⟨rfl, hlt⟩ := (Words.parseNat_toDigits (by decide)).mp hn
    exact (UInt64.toNat_ofNat_of_lt hlt).symm
  · rintro rfl
    exact ⟨u.toNat, (Words.parseNat_toDigits (by decide)).mpr ⟨rfl, u.toNat_lt⟩,
      UInt64.ofNat_toNat⟩

theorem StatLine.isWord (line : StatLine) {w : List Char} (hw : w ∈ line.fields) :
    w ≠ [] ∧ ∀ c ∈ w, isWhitespace c = false := by
  have h := List.all_eq_true.mp line.areFields w hw
  simp only [isField, Bool.and_eq_true, List.all_eq_true] at h
  exact ⟨by simpa using h.1, fun c hc => by simpa using (h.2 c hc).1⟩

theorem StatLine.noParen (line : StatLine) {w : List Char} (hw : w ∈ line.fields) : ')' ∉ w := by
  have h := List.all_eq_true.mp line.areFields w hw
  simp only [isField, Bool.and_eq_true, List.all_eq_true] at h
  intro hc
  simpa using (h.2 ')' hc).2

theorem fields_text (line : StatLine) (name : String) :
    (Words.rsplitOnce ')' (line.front ++ name ++ line.back).toList).map
      (fun split => splitWhitespace split.2) = some line.fields := by
  have hlast : ')' ∉ (line.fields.flatMap fun w => ' ' :: w) ++ ['\n'] := by
    intro hmem
    rcases List.mem_append.mp hmem with hmem | hmem
    · obtain ⟨w, hw, hc⟩ := List.mem_flatMap.mp hmem
      rcases List.mem_cons.mp hc with hc | hc
      · cases hc
      · exact line.noParen hw hc
    · cases List.mem_singleton.mp hmem
  have htext : (line.front ++ name ++ line.back).toList = (line.front ++ name).toList ++
      ')' :: ((line.fields.flatMap fun w => ' ' :: w) ++ ['\n']) := by
    simp [StatLine.back]
  rw [htext, Words.rsplitOnce_eq_some.mpr ⟨rfl, hlast⟩, Option.map_some, splitWhitespace,
    Words.words_append_sep (by decide),
    Words.words_separated (by decide) _ fun _ => line.isWord]

end

theorem readToString_bytes (line : StatLine) : readToString (some line.bytes) =
    (decodeUtf8 line.comm).map fun name => (line.front ++ name ++ line.back).toList := by
  rw [readToString, Option.bind_some, StatLine.bytes, decodeUtf8_between, Option.map_map]
  rfl

/-- The CPU time is read exactly, whatever the name of the process is, as long
as the name is text and the time fits the type. -/
theorem cpuTicks_iff {line : StatLine} {m k : Nat} {u s : UInt64}
    (hu : line.fields[11]? = some (Nat.toDigits 10 m))
    (hs : line.fields[12]? = some (Nat.toDigits 10 k)) :
    readCpuTicks (some line.bytes) = some (u, s) ↔
      (decodeUtf8 line.comm).isSome ∧ m = u.toNat ∧ k = s.toNat := by
  rw [readCpuTicks, readToString_bytes]
  cases decodeUtf8 line.comm with
  | none => simp
  | some name =>
    obtain ⟨⟨before, after⟩, hsplit, hfields⟩ := Option.map_eq_some_iff.mp (fields_text line name)
    have hfields : splitWhitespace after = line.fields := hfields
    rw [← parseU64_toDigits, ← parseU64_toDigits (m := k)]
    simp only [Option.map_some, hsplit, hfields, hu, hs, Option.bind_eq_bind, Option.bind_some,
      Option.bind_eq_some_iff, Option.pure_def, Option.some.injEq, Prod.mk.injEq,
      Option.isSome_some, true_and]
    constructor
    · rintro ⟨u', hu', s', hs', rfl, rfl⟩
      exact ⟨hu', hs'⟩
    · rintro ⟨hu', hs'⟩
      exact ⟨u, hu', s, hs', rfl, rfl⟩

/-- A process whose name looks like the end of it. -/
def oddFields (utime stime : String) : List (List Char) :=
  ["S", "1", "42", "42", "0", "-1", "0", "9", "0", "0", "0", utime, stime, "0"].map String.toList

def oddLine : StatLine where
  pid := ['4', '2']
  comm := utf8 "a) R (b"
  fields := oddFields "70" "30"
  areFields := by decide

def laterLine : StatLine := { oddLine with fields := oddFields "90" "50", areFields := by decide }

theorem cpuTicks_oddLine : readCpuTicks (some oddLine.bytes) = some (70, 30) :=
  (cpuTicks_iff (m := 70) (k := 30) (by decide) (by decide)).mpr
    ⟨by rw [oddLine, decodeUtf8_utf8]; rfl, rfl, rfl⟩

/-- A name that is cut inside a character. -/
example : readCpuTicks (some { oddLine with comm := (utf8 "rolly-télémétrie").take 8 }.bytes) =
    none := by decide +kernel

-- ---------------------------------------------------------------------------
-- Runs
-- ---------------------------------------------------------------------------

/-- The last reading with a CPU time. -/
def lastRead (readings : List Reading) : Option Reading :=
  readings.reverse.find? (·.totalTicks.isSome)

/-- The reports of the ticks from `s` on. -/
def PollLoop.reports (s : PollLoop) : List Reading → List CpuReport
  | [] => []
  | r :: readings => (s.cpuReport r).toList ++ (s.tick r).reports readings

section
variable {start : Nat} {s : PollLoop} {r prev : Reading} {readings : List Reading}

theorem run_concat : PollLoop.run start (readings ++ [r]) = (PollLoop.run start readings).tick r :=
  List.foldl_append ..

theorem prevCpuTicks_run :
    (PollLoop.run start readings).prevCpuTicks = (lastRead readings).bind Reading.totalTicks := by
  induction readings using List.reverseRecOn with
  | nil => rfl
  | append_singleton readings r ih =>
    rw [run_concat, lastRead, List.reverse_concat, List.find?_cons]
    cases h : r.totalTicks with
    | none => simpa [PollLoop.tick, h, lastRead] using ih
    | some total => simp [PollLoop.tick, h]

theorem cpuReport_iff {report : CpuReport} :
    (PollLoop.run start (readings ++ [prev])).cpuReport r = some report ↔
      ∃ q last total, lastRead (readings ++ [prev]) = some q ∧ q.totalTicks = some last ∧
        r.totalTicks = some total ∧ report = ⟨saturatingSub total last, r.now - prev.now⟩ := by
  have hinstant : (PollLoop.run start (readings ++ [prev])).prevInstant = prev.now := by
    rw [run_concat]
    rfl
  simp only [PollLoop.cpuReport, prevCpuTicks_run, hinstant, Option.bind_eq_bind,
    Option.bind_eq_some_iff, Option.pure_def, Option.some.injEq]
  constructor
  · rintro ⟨total, htotal, last, ⟨q, hq, hlast⟩, rfl⟩
    exact ⟨q, last, total, hq, hlast, htotal, rfl⟩
  · rintro ⟨q, last, total, hq, hlast, htotal, rfl⟩
    exact ⟨total, htotal, last, ⟨q, hq, hlast⟩, rfl⟩

theorem mem_of_lastRead {q : Reading} (h : lastRead readings = some q) :
    q ∈ readings ∧ q.totalTicks.isSome :=
  ⟨List.mem_reverse.mp (List.mem_of_find?_eq_some h),
    List.find?_some (p := fun r : Reading => r.totalTicks.isSome) h⟩

theorem lastRead_concat (h : prev.totalTicks.isSome) :
    lastRead (readings ++ [prev]) = some prev := by
  rw [lastRead, List.reverse_concat, List.find?_cons, h]

theorem lastRead_failed (h : prev.totalTicks.isSome = false) :
    lastRead (readings ++ [prev]) = lastRead readings := by
  rw [lastRead, List.reverse_concat, List.find?_cons, h]
  rfl

end

/-- A report has the CPU time since the last reading that did not fail, and the
time since the tick before. They are of the same interval if and only if the
reading of that tick did not fail. -/
theorem report_covers_iff {start : Nat} {readings : List Reading} {prev r : Reading}
    {report : CpuReport} (hnow : ((readings ++ [prev]).map (·.now)).Pairwise (· < ·))
    (hlast : ∀ q ∈ readings ++ [prev], q.now < r.now)
    (h : (PollLoop.run start (readings ++ [prev])).cpuReport r = some report) :
    ∃ q last total, lastRead (readings ++ [prev]) = some q ∧ q.totalTicks = some last ∧
      r.totalTicks = some total ∧ report.deltaTicks = saturatingSub total last ∧
      report.elapsed = r.now - prev.now ∧
      (report.elapsed = r.now - q.now ↔ prev.totalTicks.isSome) := by
  obtain ⟨q, last, total, hq, hqlast, htotal, rfl⟩ := cpuReport_iff.mp h
  refine ⟨q, last, total, hq, hqlast, htotal, rfl, rfl, ?_⟩
  constructor
  · intro heq
    by_contra hfailed
    have hfailed : prev.totalTicks.isSome = false := by simpa using hfailed
    rw [lastRead_failed hfailed] at hq
    have hqmem := (mem_of_lastRead hq).1
    rw [List.map_append, List.pairwise_append] at hnow
    have hlt := hnow.2.2 q.now (List.mem_map_of_mem hqmem) prev.now (by simp)
    have hprev := hlast prev (by simp)
    have heq : r.now - prev.now = r.now - q.now := heq
    omega
  · intro hprev
    rw [lastRead_concat hprev] at hq
    obtain rfl := Option.some.inj hq
    rfl

/-- A reading fails between two others. -/
def oddReadings : List Reading := [⟨1, some oddLine.bytes, none⟩, ⟨3, none, none⟩]

def laterReading : Reading := ⟨4, some laterLine.bytes, none⟩

theorem report_covers_oddReadings : ∃ report q last total,
    (PollLoop.run 0 oddReadings).cpuReport laterReading = some report ∧
    lastRead oddReadings = some q ∧ q.totalTicks = some last ∧
      laterReading.totalTicks = some total ∧ report.deltaTicks = saturatingSub total last ∧
      report.elapsed = 4 - 3 ∧
      (report.elapsed = 4 - q.now ↔ (Reading.mk 3 none none).totalTicks.isSome) := by
  obtain ⟨report, hreport⟩ := Option.isSome_iff_exists.mp (show ((PollLoop.run 0
    oddReadings).cpuReport laterReading).isSome by decide +kernel)
  have hreport : (PollLoop.run 0 ([⟨1, some oddLine.bytes, none⟩] ++
    [⟨3, none, none⟩])).cpuReport laterReading = some report := hreport
  obtain ⟨q, last, total, h⟩ := report_covers_iff (by simp) (by simp [laterReading]) hreport
  exact ⟨report, q, last, total, hreport, h⟩

-- ---------------------------------------------------------------------------
-- Sums
-- ---------------------------------------------------------------------------

section
variable {start : Nat} {s : PollLoop} {r : Reading} {readings : List Reading}

theorem toNat_saturatingSub {a b : UInt64} (h : b ≤ a) :
    (saturatingSub a b).toNat + b.toNat = a.toNat := by
  have hle := UInt64.le_iff_toNat_le.mp h
  rw [saturatingSub, if_pos h, UInt64.toNat_sub_of_le _ _ h]
  omega

theorem reports_failed (h : r.totalTicks = none) :
    s.reports (r :: readings) = PollLoop.reports { s with prevInstant := r.now } readings := by
  simp [PollLoop.reports, PollLoop.cpuReport, PollLoop.tick, h]

theorem reports_from {last : UInt64} {totals : List UInt64} (hs : s.prevCpuTicks = some last)
    (h : readings.filterMap Reading.totalTicks = totals)
    (hmono : (last :: totals).IsChain (· ≤ ·)) :
    ((s.reports readings).map (·.deltaTicks.toNat)).sum + last.toNat =
      ((last :: totals).getLast (by simp)).toNat := by
  induction readings generalizing s last totals with
  | nil =>
    subst h
    simp [PollLoop.reports]
  | cons r readings ih =>
    cases hr : r.totalTicks with
    | none =>
      rw [List.filterMap_cons, hr] at h
      rw [reports_failed hr]
      exact ih hs h hmono
    | some total =>
      rw [List.filterMap_cons, hr] at h
      subst h
      obtain ⟨hle, hmono⟩ := List.isChain_cons_cons.mp hmono
      have hrest := ih (s := s.tick r) (by simp [PollLoop.tick, hr]) rfl hmono
      have hreport : s.cpuReport r = some ⟨saturatingSub total last, r.now - s.prevInstant⟩ := by
        simp [PollLoop.cpuReport, hr, hs]
      have hdelta := toNat_saturatingSub hle
      rw [PollLoop.reports, hreport]
      simp only [Option.toList_some, List.singleton_append, List.map_cons, List.sum_cons,
        List.getLast_cons_cons]
      omega

end

/-- The reports of a run add up to the CPU time between its first and its last
reading, whichever readings in between failed, if that time never falls. -/
theorem reports_telescope {start : Nat} {readings : List Reading} {first : UInt64}
    {totals : List UInt64} (h : readings.filterMap Reading.totalTicks = first :: totals)
    (hmono : (first :: totals).IsChain (· ≤ ·)) :
    ((PollLoop.reports { prevInstant := start } readings).map (·.deltaTicks.toNat)).sum +
      first.toNat = ((first :: totals).getLast (by simp)).toNat := by
  induction readings generalizing start with
  | nil => cases h
  | cons r readings ih =>
    cases hr : r.totalTicks with
    | none =>
      rw [List.filterMap_cons, hr] at h
      rw [reports_failed hr]
      exact ih h
    | some total =>
      rw [List.filterMap_cons, hr] at h
      obtain ⟨rfl, hrest⟩ := List.cons.inj h
      have hnone : PollLoop.cpuReport { prevInstant := start } r = none := by
        simp [PollLoop.cpuReport, hr]
      rw [PollLoop.reports, hnone]
      exact reports_from (by simp [PollLoop.tick, hr]) hrest hmono

theorem reports_telescope_oddReadings :
    ((PollLoop.reports { prevInstant := 0 } (oddReadings ++ [laterReading])).map
      (·.deltaTicks.toNat)).sum + (100 : UInt64).toNat = (140 : UInt64).toNat :=
  reports_telescope (show (oddReadings ++ [laterReading]).filterMap Reading.totalTicks = [100, 140]
    by decide +kernel) (by decide)

end Rolly.UseMetrics
