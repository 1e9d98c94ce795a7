import SonicBrew.Lib.Text

/-!
# The metrics of the server, written and read

The recorder keeps the last latencies of the processing loop, the percentiles that were reported
last and a count of xruns, and writes them out as lines of text for a collector. The server reads
its own text back to show a summary: it looks for three of the lines, by their names, and takes the
number after the space.

On the lines with numbers this works, whatever has been recorded
(`SonicBrew.Monitor.parseMetricsSummary_metrics`). But the text begins with a comment, for which
there is no number, and then the reader gives up instead of passing over it. So there is never a
summary (`SonicBrew.Monitor.parseMetricsSummary_exportPrometheus`).
-/

namespace SonicBrew

namespace Monitor

open Text (splitOnce contains parseBelow lines)

/-! ### The recorder -/

/-- `LATENCY_WINDOW` -/
def latencyWindow : ℕ := 1024

/-- `LatencyHistogram::record`: the oldest sample of a full window makes room. -/
def LatencyHistogram.record (samples : List UInt64) (latencyUs : UInt64) : List UInt64 :=
  (if latencyWindow ≤ samples.length then samples.tail else samples) ++ [latencyUs]

/-- The least, the greatest and the mean of some samples. -/
structure LatencyStats where
  min : UInt64
  max : UInt64
  avg : UInt64
  deriving DecidableEq, Repr

/-- The number of values of a `u128`. -/
def u128Size : ℕ := 340282366920938463463374607431768211456

/-- `u64::MAX` -/
def u64Max : UInt64 := 18446744073709551615

namespace LatencyStats

/-- One turn of the loop over the samples, which keeps the minimum, the maximum and the sum. -/
def add (acc : UInt64 × UInt64 × ℕ) (v : UInt64) : UInt64 × UInt64 × ℕ :=
  (Min.min acc.1 v, Max.max acc.2.1 v, (acc.2.2 + v.toNat) % u128Size)

/-- `LatencyStats::from_samples` -/
def fromSamples (samples : List UInt64) : LatencyStats :=
  if samples = [] then ⟨0, 0, 0⟩
  else
    let (min, max, sum) := samples.foldl add (u64Max, 0, 0)
    let avg := sum / samples.length
    ⟨min, max, if avg < UInt64.size then UInt64.ofNat avg else u64Max⟩

end LatencyStats

/-- **The recorder**: the window of samples, the oldest first, and what was reported last. -/
structure MetricsRecorder where
  window : List UInt64
  lastP50 : UInt64
  lastP99 : UInt64
  xrunTotal : UInt64
  /-- What every name begins with. -/
  metricPrefix : String

namespace MetricsRecorder

/-- `MetricsRecorder::with_prefix` -/
def withPrefix (metricPrefix : String) : MetricsRecorder := ⟨[], 0, 0, 0, metricPrefix⟩

def recordCycle (r : MetricsRecorder) (latencyUs : UInt64) : MetricsRecorder :=
  { r with window := LatencyHistogram.record r.window latencyUs }

def recordLatency (r : MetricsRecorder) (p50Us p99Us : UInt64) : MetricsRecorder :=
  ({ r with lastP50 := p50Us, lastP99 := p99Us }.recordCycle p50Us).recordCycle p99Us

/-- `record_xrun`, when no other call is under way: the greatest count is kept. -/
def recordXrun (r : MetricsRecorder) (count : UInt64) : MetricsRecorder :=
  if count ≤ r.xrunTotal then r else { r with xrunTotal := count }

/-- The comment above the latencies. -/
def latencyHelp (r : MetricsRecorder) : List String :=
  let p := r.metricPrefix
  [s!"# HELP {p}_process_latency_us Process-cycle latency in microseconds",
    s!"# TYPE {p}_process_latency_us summary"]

/-- The lines with the latencies. -/
def latencyMetrics (r : MetricsRecorder) : List String :=
  let p := r.metricPrefix
  let stats := LatencyStats.fromSamples r.window
  let p50 := r.lastP50
  let p99 := r.lastP99
  let min := stats.min
  let max := stats.max
  let avg := stats.avg
  [s!"{p}_process_latency_us\x7bquantile=\"0.5\"\x7d {p50}",
    s!"{p}_process_latency_us\x7bquantile=\"0.99\"\x7d {p99}",
    s!"{p}_process_latency_us_min {min}",
    s!"{p}_process_latency_us_max {max}",
    s!"{p}_process_latency_us_avg {avg}"]

/-- The comment above the xruns. -/
def xrunHelp (r : MetricsRecorder) : List String :=
  let p := r.metricPrefix
  [s!"# HELP {p}_xrun_total Cumulative xrun count", s!"# TYPE {p}_xrun_total counter"]

/-- The line with the xruns. -/
def xrunMetrics (r : MetricsRecorder) : List String :=
  let p := r.metricPrefix
  let xrun := r.xrunTotal
  [s!"{p}_xrun_total {xrun}"]

end MetricsRecorder

/-- Lines, each with its newline. -/
def unlines (ls : List String) : String := String.join (ls.map (· ++ "\n"))

/-- `export_prometheus` -/
def MetricsRecorder.exportPrometheus (r : MetricsRecorder) : String :=
  unlines (r.latencyHelp ++ r.latencyMetrics ++ r.xrunHelp ++ r.xrunMetrics)

/-! ### The reader -/

/-- `str::parse::<u64>` -/
def parseU64 (s : List Char) : Option UInt64 := (parseBelow UInt64.size s).map UInt64.ofNat

/-- The numbers found so far. -/
structure Found where
  p50 : Option UInt64
  p99 : Option UInt64
  max : Option UInt64
  deriving DecidableEq, Repr

/-- A number is taken if its name is one of the three. -/
def Found.put (m : Found) (key : List Char) (val : UInt64) : Found :=
  if contains "quantile=\"0.5\"".toList key then { m with p50 := some val }
  else if contains "quantile=\"0.99\"".toList key then { m with p99 := some val }
  else if "_process_latency_us_max".toList.isSuffixOf key then { m with max := some val }
  else m

/-- One turn of the loop over the lines. -/
def Found.readLine (m : Found) (line : List Char) : Option Found := do
  let (key, val) ← splitOnce ' ' line
  let val ← parseU64 val
  return m.put key val

/-- The line that is shown. -/
def summary (p50 p99 max : UInt64) : String := s!"latency p50={p50}µs p99={p99}µs max={max}µs"

/-- `parse_metrics_summary` -/
def parseMetricsSummary (exported : String) : Option String := do
  let m ← (lines exported.toList).foldlM Found.readLine ⟨none, none, none⟩
  match m.p50, m.p99, m.max with
  | some p50, some p99, some max => some (summary p50 p99 max)
  | _, _, _ => none

/-! ### Calls -/

/-- What is reported to the recorder. -/
inductive Call where
  | recordCycle (latencyUs : UInt64)
  | recordLatency (p50Us p99Us : UInt64)
  | recordXrun (count : UInt64)

def MetricsRecorder.step (r : MetricsRecorder) : Call → MetricsRecorder
  | .recordCycle latencyUs => r.recordCycle latencyUs
  | .recordLatency p50Us p99Us => r.recordLatency p50Us p99Us
  | .recordXrun count => r.recordXrun count

/-- A sequence of calls. -/
def MetricsRecorder.run (r : MetricsRecorder) (calls : List Call) : MetricsRecorder :=
  calls.foldl MetricsRecorder.step r

/-- **The text is read as what it says**: the last percentiles, and the maximum of the window. -/
def Summarised (r : MetricsRecorder) : Prop :=
  parseMetricsSummary r.exportPrometheus =
    some (summary r.lastP50 r.lastP99 (r.window.max?.getD 0))

/-! ### The comments -/

theorem toList_unlines (ls : List String) :
    (unlines ls).toList = (ls.map String.toList).flatMap (· ++ ['\n']) := by
  simp [unlines, String.toList_join, List.flatMap_map]

/-- A comment has a space, but no number after it. -/
theorem readLine_comment (m : Found) (s : List Char) :
    m.readLine ("# HELP ".toList ++ s) = none := by
  have hsplit : splitOnce ' ' ("# HELP ".toList ++ s) = some (['#'], "HELP ".toList ++ s) :=
    Text.splitOnce_eq_some_iff.mpr ⟨by simp, by simp⟩
  have hparse : parseU64 ("HELP ".toList ++ s) = none := by
    have hmem : 'H' ∈ "HELP ".toList ++ s := List.mem_append_left s (by simp)
    rw [parseU64, Text.parseBelow_eq_none hmem (by decide) (by decide)]
    rfl
  rw [Found.readLine, hsplit]
  simp only [Option.bind_eq_bind, Option.bind_some, hparse, Option.bind_none]

/-- **A text that begins with a comment has no summary**, whatever comes after it. -/
theorem parseMetricsSummary_comment {exported : String} {s : List Char}
    (h : exported.toList = "# HELP ".toList ++ s) : parseMetricsSummary exported = none := by
  obtain ⟨m, ms, hlines⟩ := Text.exists_glue "# HELP ".toList (lines s)
  have hinline : ∀ c ∈ "# HELP ".toList, Text.Inline c := by simp [Text.Inline]
  rw [parseMetricsSummary, h, Text.lines_append (by simp) hinline, hlines, List.foldlM_cons,
    readLine_comment]
  rfl

theorem exists_latencyHelp (r : MetricsRecorder) :
    ∃ s ls, r.latencyHelp = ("# HELP " ++ s) :: ls :=
  ⟨_, _, congrArg₂ List.cons String.append_assoc rfl⟩

theorem exists_toList_exportPrometheus (r : MetricsRecorder) :
    ∃ s, r.exportPrometheus.toList = "# HELP ".toList ++ s := by
  obtain ⟨s, ls, hhelp⟩ := exists_latencyHelp r
  rw [MetricsRecorder.exportPrometheus, toList_unlines, hhelp]
  simp only [List.cons_append, List.map_cons, List.flatMap_cons, String.toList_append,
    List.append_assoc]
  exact ⟨_, rfl⟩

theorem parseMetricsSummary_eq_none (r : MetricsRecorder) :
    parseMetricsSummary r.exportPrometheus = none := by
  obtain ⟨s, hs⟩ := exists_toList_exportPrometheus r
  exact parseMetricsSummary_comment hs

/-- **There is never a summary**: whatever the names begin with and whatever has been recorded, the
exported text is not read at all. -/
theorem parseMetricsSummary_exportPrometheus (metricPrefix : String) (calls : List Call) :
    let r := (MetricsRecorder.withPrefix metricPrefix).run calls
    parseMetricsSummary r.exportPrometheus = none ∧ ¬Summarised r := by
  intro r
  have hnone := parseMetricsSummary_eq_none r
  refine ⟨hnone, fun h => ?_⟩
  rw [Summarised, hnone] at h
  cases h

/-- A recorder that has seen nothing, and one that has seen percentiles, have no summary. -/
theorem parseMetricsSummary_idle :
    parseMetricsSummary (MetricsRecorder.withPrefix "sonicbrew").exportPrometheus = none ∧
      parseMetricsSummary
        ((MetricsRecorder.withPrefix "sonicbrew").recordLatency 150 300).exportPrometheus =
          none :=
  ⟨parseMetricsSummary_eq_none _, parseMetricsSummary_eq_none _⟩

/-! ### The lines with numbers -/

/-- A line with a number. -/
def metric (key : List Char) (v : UInt64) : List Char := key ++ ' ' :: Nat.toDigits 10 v.toNat

theorem parseU64_toDigits (v : UInt64) : parseU64 (Nat.toDigits 10 v.toNat) = some v := by
  rw [parseU64, Text.parseBelow_toDigits v.toNat_lt, Option.map_some, UInt64.ofNat_toNat]

theorem readLine_metric (m : Found) {key : List Char} (h : ' ' ∉ key) (v : UInt64) :
    m.readLine (metric key v) = some (m.put key v) := by
  have hsplit : splitOnce ' ' (metric key v) = some (key, Nat.toDigits 10 v.toNat) :=
    Text.splitOnce_eq_some_iff.mpr ⟨h, rfl⟩
  rw [Found.readLine, hsplit]
  simp only [Option.bind_eq_bind, Option.bind_some, parseU64_toDigits]
  rfl

theorem toList_line {line name : String} (h : line.toList = name.toList ++ [' ']) (p : String)
    (v : UInt64) :
    (toString p ++ toString line ++ toString v).toList = metric (p.toList ++ name.toList) v := by
  have hv : (toString v).toList = Nat.toDigits 10 v.toNat := Nat.toList_repr
  have hline : (toString line).toList = name.toList ++ [' '] := h
  rw [String.toList_append, String.toList_append, hv, hline, metric, List.append_assoc,
    List.append_assoc, List.append_assoc, List.singleton_append]
  rfl

/-- The names of the numbers, after what they all begin with. -/
def metricNames : List String :=
  ["_process_latency_us\x7bquantile=\"0.5\"\x7d", "_process_latency_us\x7bquantile=\"0.99\"\x7d",
    "_process_latency_us_min", "_process_latency_us_max", "_process_latency_us_avg", "_xrun_total"]

/-- The numbers with their names. -/
def metricValues (r : MetricsRecorder) : List (String × UInt64) :=
  let stats := LatencyStats.fromSamples r.window
  metricNames.zip [r.lastP50, r.lastP99, stats.min, stats.max, stats.avg, r.xrunTotal]

/-- What the lines with numbers are. -/
theorem map_toList_metrics (r : MetricsRecorder) :
    (r.latencyMetrics ++ r.xrunMetrics).map String.toList =
      (metricValues r).map fun q => metric (r.metricPrefix.toList ++ q.1.toList) q.2 := by
  simp only [MetricsRecorder.latencyMetrics, MetricsRecorder.xrunMetrics, metricValues, metricNames,
    List.zip_cons_cons, List.zip_nil_left, List.map_cons, List.map_nil]
  refine List.cons_eq_cons.mpr ⟨toList_line (by simp) _ _, ?_⟩
  refine List.cons_eq_cons.mpr ⟨toList_line (by simp) _ _, ?_⟩
  refine List.cons_eq_cons.mpr ⟨toList_line (by simp) _ _, ?_⟩
  refine List.cons_eq_cons.mpr ⟨toList_line (by simp) _ _, ?_⟩
  refine List.cons_eq_cons.mpr ⟨toList_line (by simp) _ _, ?_⟩
  exact List.cons_eq_cons.mpr ⟨toList_line (by simp) _ _, rfl⟩

theorem inline_metric {key : List Char} (h : ∀ c ∈ key, Text.Inline c) (v : UInt64) :
    ∀ c ∈ metric key v, Text.Inline c := by
  intro c hc
  rcases List.mem_append.mp hc with hc | hc
  · exact h c hc
  · rcases List.mem_cons.mp hc with rfl | hc
    · decide
    · have hdigit := Nat.isDigit_of_mem_toDigits (by decide) (by decide) hc
      refine ⟨?_, ?_⟩
      · rintro rfl
        exact absurd hdigit (by decide)
      · rintro rfl
        exact absurd hdigit (by decide)

/-- **Reading lines with numbers** is taking the numbers one after the other. -/
theorem foldlM_readLine_metric {p : List Char} (hp : ' ' ∉ p) {qs : List (String × UInt64)}
    (hqs : ∀ q ∈ qs, ' ' ∉ q.1.toList) (m : Found) :
    (qs.map fun q => metric (p ++ q.1.toList) q.2).foldlM Found.readLine m =
      some (qs.foldl (fun m q => m.put (p ++ q.1.toList) q.2) m) := by
  induction qs generalizing m with
  | nil => rfl
  | cons q qs ih =>
    obtain ⟨hq, hqs⟩ := List.forall_mem_cons.mp hqs
    have hspace : ' ' ∉ p ++ q.1.toList := by
      rw [List.mem_append, not_or]
      exact ⟨hp, hq⟩
    rw [List.map_cons, List.foldlM_cons, readLine_metric m hspace, List.foldl_cons]
    exact ih hqs _

theorem max_foldl_add (samples : List UInt64) (acc : UInt64 × UInt64 × ℕ) :
    (samples.foldl LatencyStats.add acc).2.1 = samples.foldl Max.max acc.2.1 := by
  induction samples generalizing acc with
  | nil => rfl
  | cons v samples ih => rw [List.foldl_cons, ih, List.foldl_cons, LatencyStats.add]

theorem max_fromSamples (samples : List UInt64) :
    (LatencyStats.fromSamples samples).max = samples.max?.getD 0 := by
  cases samples with
  | nil => rfl
  | cons v samples =>
    rw [LatencyStats.fromSamples, if_neg (List.cons_ne_nil v samples), List.max?_cons',
      Option.getD_some]
    change ((v :: samples).foldl LatencyStats.add (u64Max, 0, 0)).2.1 = _
    have hfirst : Max.max 0 v = v := if_pos (UInt64.zero_le)
    rw [max_foldl_add, List.foldl_cons, hfirst]

section Put

variable {p : List Char}

theorem put_p50 (m : Found) (v : UInt64) :
    m.put (p ++ "_process_latency_us\x7bquantile=\"0.5\"\x7d".toList) v =
      { m with p50 := some v } := by
  have hin : "quantile=\"0.5\"".toList <:+:
      p ++ "_process_latency_us\x7bquantile=\"0.5\"\x7d".toList :=
    ⟨p ++ "_process_latency_us\x7b".toList, "\x7d".toList, by simp⟩
  rw [Found.put, if_pos (Text.contains_iff.mpr hin)]

/-- The name of one percentile is not found in that of the other: what follows the first quote there
is the other number. -/
theorem not_infix_p99 (hp : '"' ∉ p) :
    ¬"quantile=\"0.5\"".toList <:+:
      p ++ "_process_latency_us\x7bquantile=\"0.99\"\x7d".toList := by
  rintro ⟨x, y, h⟩
  have hsplit : splitOnce '"' (p ++ "_process_latency_us\x7bquantile=\"0.99\"\x7d".toList) =
      some (p ++ "_process_latency_us\x7bquantile=".toList, "0.99\"\x7d".toList) := by
    refine Text.splitOnce_eq_some_iff.mpr ⟨?_, by simp⟩
    rw [List.mem_append, not_or]
    exact ⟨hp, by simp⟩
  rw [← h] at hsplit
  rcases hx : splitOnce '"' x with _ | ⟨x₁, x₂⟩
  · -- the first quote is the one before the number that is looked for
    have hfound : splitOnce '"' (x ++ "quantile=\"0.5\"".toList ++ y) =
        some (x ++ "quantile=".toList, "0.5\"".toList ++ y) := by
      refine Text.splitOnce_eq_some_iff.mpr ⟨?_, by simp⟩
      rw [List.mem_append, not_or]
      exact ⟨Text.splitOnce_eq_none_iff.mp hx, by simp⟩
    obtain ⟨-, hafter⟩ := Prod.mk.inj (Option.some.inj (hfound.symm.trans hsplit))
    simp at hafter
  · -- after the first quote there is not enough room
    obtain ⟨hx₁, rfl⟩ := Text.splitOnce_eq_some_iff.mp hx
    have hfound : splitOnce '"' (x₁ ++ '"' :: x₂ ++ "quantile=\"0.5\"".toList ++ y) =
        some (x₁, x₂ ++ "quantile=\"0.5\"".toList ++ y) :=
      Text.splitOnce_eq_some_iff.mpr ⟨hx₁, by simp⟩
    obtain ⟨-, hafter⟩ := Prod.mk.inj (Option.some.inj (hfound.symm.trans hsplit))
    have hlength : x₂.length + (y.length + 14) = 6 := by
      simpa using congrArg List.length hafter
    omega

theorem put_p99 (hp : '"' ∉ p) (m : Found) (v : UInt64) :
    m.put (p ++ "_process_latency_us\x7bquantile=\"0.99\"\x7d".toList) v =
      { m with p99 := some v } := by
  have hin : "quantile=\"0.99\"".toList <:+:
      p ++ "_process_latency_us\x7bquantile=\"0.99\"\x7d".toList :=
    ⟨p ++ "_process_latency_us\x7b".toList, "\x7d".toList, by simp⟩
  rw [Found.put, if_neg (mt Text.contains_iff.mp (not_infix_p99 hp)),
    if_pos (Text.contains_iff.mpr hin)]

/-- Without a quote, a name is not one of a percentile. -/
theorem put_of_notMem (m : Found) {key : List Char} (h : '"' ∉ key) (v : UInt64) :
    m.put key v =
      if "_process_latency_us_max".toList.isSuffixOf key then { m with max := some v } else m := by
  have hnot : ∀ {pat : List Char}, '"' ∈ pat → ¬contains pat key = true := by
    intro pat hpat hin
    exact h ((Text.contains_iff.mp hin).subset hpat)
  rw [Found.put, if_neg (hnot (by simp)), if_neg (hnot (by simp))]

theorem put_max (hp : '"' ∉ p) (m : Found) (v : UInt64) :
    m.put (p ++ "_process_latency_us_max".toList) v = { m with max := some v } := by
  have hquote : '"' ∉ p ++ "_process_latency_us_max".toList := by
    rw [List.mem_append, not_or]
    exact ⟨hp, by simp⟩
  rw [put_of_notMem m hquote, if_pos (List.isSuffixOf_iff_suffix.mpr (List.suffix_append ..))]

/-- Any other name is passed over. -/
theorem put_other (hp : '"' ∉ p) {name : List Char} (hname : '"' ∉ name) (hne : name ≠ [])
    (hlast : name.getLast? ≠ some 'x') (m : Found) (v : UInt64) : m.put (p ++ name) v = m := by
  have hquote : '"' ∉ p ++ name := by
    rw [List.mem_append, not_or]
    exact ⟨hp, hname⟩
  rw [put_of_notMem m hquote, if_neg]
  intro hsuffix
  obtain ⟨q, hq⟩ := List.isSuffixOf_iff_suffix.mp hsuffix
  have heq := congrArg List.getLast? hq
  rw [List.getLast?_append_of_ne_nil _ (by simp), List.getLast?_append_of_ne_nil _ hne] at heq
  refine hlast (heq.symm.trans ?_)
  simp

end Put

/-- **The lines with numbers are read as what they say.** -/
theorem parseMetricsSummary_metrics (r : MetricsRecorder)
    (hp : ∀ c ∈ r.metricPrefix.toList, c ≠ ' ' ∧ c ≠ '"' ∧ Text.Inline c) :
    parseMetricsSummary (unlines (r.latencyMetrics ++ r.xrunMetrics)) =
      some (summary r.lastP50 r.lastP99 (r.window.max?.getD 0)) := by
  have hname : ∀ q ∈ metricValues r, q.1 ∈ metricNames := fun q hq => (List.of_mem_zip hq).1
  have hinline : ∀ l ∈ (metricValues r).map fun q =>
      metric (r.metricPrefix.toList ++ q.1.toList) q.2, ∀ c ∈ l, Text.Inline c := by
    rintro _ hl
    obtain ⟨q, hq, rfl⟩ := List.mem_map.mp hl
    refine inline_metric (List.forall_mem_append.mpr ⟨fun c hc => (hp c hc).2.2, ?_⟩) q.2
    have hall : ∀ name ∈ metricNames, ∀ c ∈ name.toList, Text.Inline c := by
      simp [metricNames, Text.Inline]
    exact hall q.1 (hname q hq)
  have hspace : ∀ q ∈ metricValues r, ' ' ∉ q.1.toList := by
    have hall : ∀ name ∈ metricNames, ' ' ∉ name.toList := by simp [metricNames]
    exact fun q hq => hall q.1 (hname q hq)
  have hquote : '"' ∉ r.metricPrefix.toList := fun h => (hp _ h).2.1 rfl
  rw [parseMetricsSummary, toList_unlines, map_toList_metrics, Text.lines_flatMap hinline,
    foldlM_readLine_metric (fun h => (hp _ h).1 rfl) hspace, metricValues, metricNames]
  simp only [List.zip_cons_cons, List.zip_nil_left, List.foldl_cons, List.foldl_nil]
  rw [put_p50, put_p99 hquote, put_other hquote (by simp) (by simp) (by simp),
    put_max hquote, put_other hquote (by simp) (by simp) (by simp),
    put_other hquote (by simp) (by simp) (by simp), max_fromSamples]
  rfl

theorem parseMetricsSummary_metrics_recorded :
    (∀ c ∈ "sonicbrew".toList, c ≠ ' ' ∧ c ≠ '"' ∧ Text.Inline c) ∧
      parseMetricsSummary (unlines
        (((MetricsRecorder.withPrefix "sonicbrew").recordLatency 150 300).latencyMetrics ++
          ((MetricsRecorder.withPrefix "sonicbrew").recordLatency 150 300).xrunMetrics)) =
        some (summary 150 300 300) := by
  have hp : ∀ c ∈ "sonicbrew".toList, c ≠ ' ' ∧ c ≠ '"' ∧ Text.Inline c := by
    simp [Text.Inline]
  exact ⟨hp, parseMetricsSummary_metrics
    ((MetricsRecorder.withPrefix "sonicbrew").recordLatency 150 300) hp⟩

end Monitor

end SonicBrew
