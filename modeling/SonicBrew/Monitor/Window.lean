import Mathlib.Algebra.GroupWithZero.Nat
import Mathlib.Algebra.Order.BigOperators.Group.List
import Mathlib.Algebra.Order.Group.Nat
import SonicBrew.Monitor.Metrics

/-!
# The window of latencies

The recorder keeps the last samples that were recorded, at most 1024 of them, and what it exports
are the least, the greatest and the mean of those.

The window is a function of everything that was recorded so far: its newest part
(`SonicBrew.Monitor.newest`), which one more sample moves on by one. The numbers are exact: the sum
of a window of 64-bit words has room in 128 bits many times over, so that nothing is lost before the
division (`SonicBrew.Monitor.summarises_fromSamples`).
-/

namespace SonicBrew

namespace Monitor

/-! ### Words in order -/

instance lawfulOrderMaxUInt64 : Std.LawfulOrderMax UInt64 :=
  .of_max_le_iff
    (fun a b c => by
      rw [show max a b = if a ≤ b then b else a from rfl]
      split <;> simp only [UInt64.le_iff_toNat_le] at * <;> omega)
    fun a b => by
      rw [show max a b = if a ≤ b then b else a from rfl]
      split
      · exact Or.inr rfl
      · exact Or.inl rfl

instance lawfulOrderMinUInt64 : Std.LawfulOrderMin UInt64 :=
  .of_le_min_iff
    (fun a b c => by
      rw [show min b c = if b ≤ c then b else c from rfl]
      split <;> simp only [UInt64.le_iff_toNat_le] at * <;> omega)
    fun a b => by
      rw [show min a b = if a ≤ b then a else b from rfl]
      split
      · exact Or.inl rfl
      · exact Or.inr rfl

/-! ### The window -/

/-- The samples that a call records. -/
def Call.recorded : Call → List UInt64
  | .recordCycle latencyUs => [latencyUs]
  | .recordLatency p50Us p99Us => [p50Us, p99Us]
  | .recordXrun _ => []

/-- **The newest samples**, as many of them as the window holds. -/
def newest (samples : List UInt64) : List UInt64 :=
  samples.drop (samples.length - min samples.length latencyWindow)

theorem length_newest (samples : List UInt64) :
    (newest samples).length = min samples.length latencyWindow := by
  rw [newest, List.length_drop]
  omega

/-- **One more sample.** -/
theorem record_newest (samples : List UInt64) (latencyUs : UInt64) :
    LatencyHistogram.record (newest samples) latencyUs = newest (samples ++ [latencyUs]) := by
  rw [LatencyHistogram.record, length_newest, newest, newest, List.length_append,
    List.length_singleton]
  rcases Nat.lt_or_ge samples.length latencyWindow with hlt | hge
  · have hall : samples.length - min samples.length latencyWindow = 0 := by omega
    have hall' : samples.length + 1 - min (samples.length + 1) latencyWindow = 0 := by
      rw [Nat.min_eq_left hlt, Nat.sub_self]
    rw [if_neg (by omega), hall, hall', List.drop_zero, List.drop_zero]
  · have hroom : 0 < latencyWindow := by decide
    have hfull : samples.length + 1 - min (samples.length + 1) latencyWindow =
        samples.length - min samples.length latencyWindow + 1 := by omega
    have hle : samples.length - min samples.length latencyWindow + 1 ≤ samples.length := by omega
    rw [if_pos (by omega), List.tail_drop, hfull, List.drop_append_of_le_length hle]

theorem window_step (r : MetricsRecorder) {samples : List UInt64} (h : r.window = newest samples)
    (call : Call) : (r.step call).window = newest (samples ++ call.recorded) := by
  cases call with
  | recordCycle latencyUs =>
    rw [Call.recorded, ← record_newest, ← h]
    rfl
  | recordLatency p50Us p99Us =>
    rw [Call.recorded, ← List.singleton_append, ← List.append_assoc, ← record_newest,
      ← record_newest, ← h]
    rfl
  | recordXrun count =>
    rw [Call.recorded, List.append_nil, ← h, MetricsRecorder.step, MetricsRecorder.recordXrun]
    split <;> rfl

theorem window_run (r : MetricsRecorder) {samples : List UInt64} (h : r.window = newest samples)
    (calls : List Call) :
    (r.run calls).window = newest (samples ++ calls.flatMap Call.recorded) := by
  induction calls generalizing r samples with
  | nil => rwa [List.flatMap_nil, List.append_nil]
  | cons call calls ih =>
    rw [List.flatMap_cons, ← List.append_assoc]
    exact ih (r.step call) (window_step r h call)

/-! ### The numbers -/

/-- **What the numbers say of a window**: the least and the greatest sample, and the mean, rounded
down; the mean is between the two, and the sum of no part of the window overflows. -/
structure Summarises (window : List UInt64) (stats : LatencyStats) : Prop where
  min_eq : window.min? = some stats.min
  max_eq : window.max? = some stats.max
  avg_eq : stats.avg.toNat = (window.map UInt64.toNat).sum / window.length
  min_le_avg : stats.min ≤ stats.avg
  avg_le_max : stats.avg ≤ stats.max
  no_overflow : ∀ part, part <+: window → (part.map UInt64.toNat).sum < u128Size

theorem min_foldl_add (samples : List UInt64) (acc : UInt64 × UInt64 × ℕ) :
    (samples.foldl LatencyStats.add acc).1 = samples.foldl min acc.1 := by
  induction samples generalizing acc with
  | nil => rfl
  | cons v samples ih => rw [List.foldl_cons, ih, List.foldl_cons, LatencyStats.add]

/-- The sum, as long as it has room. -/
theorem sum_foldl_add {samples : List UInt64} {acc : UInt64 × UInt64 × ℕ}
    (h : acc.2.2 + (samples.map UInt64.toNat).sum < u128Size) :
    (samples.foldl LatencyStats.add acc).2.2 = acc.2.2 + (samples.map UInt64.toNat).sum := by
  induction samples generalizing acc with
  | nil => rfl
  | cons v samples ih =>
    rw [List.map_cons, List.sum_cons] at h ⊢
    have hroom : (acc.2.2 + v.toNat) % u128Size = acc.2.2 + v.toNat := Nat.mod_eq_of_lt (by omega)
    have hadd : (LatencyStats.add acc v).2.2 = acc.2.2 + v.toNat := hroom
    rw [List.foldl_cons, ih (by omega), hadd, Nat.add_assoc]

/-- A window of words has a sum that fits. -/
theorem sum_lt_u128Size {samples : List UInt64} (h : samples.length ≤ latencyWindow) :
    (samples.map UInt64.toNat).sum < u128Size := by
  have hsum : (samples.map UInt64.toNat).sum ≤ (samples.map UInt64.toNat).length • UInt64.size := by
    refine List.sum_le_card_nsmul _ _ fun x hx => ?_
    obtain ⟨v, -, rfl⟩ := List.mem_map.mp hx
    exact v.toNat_lt.le
  rw [List.length_map, Nat.nsmul_eq_mul] at hsum
  refine hsum.trans_lt (lt_of_le_of_lt (Nat.mul_le_mul_right UInt64.size h) ?_)
  decide

theorem min_fromSamples {samples : List UInt64} (hne : samples ≠ []) :
    samples.min? = some (LatencyStats.fromSamples samples).min := by
  cases samples with
  | nil => exact absurd rfl hne
  | cons v samples =>
    have hfirst : Min.min u64Max v = v := by
      rw [show Min.min u64Max v = if u64Max ≤ v then u64Max else v from rfl]
      split
      · rename_i hle
        exact UInt64.le_antisymm hle (UInt64.le_iff_toNat_le.mpr (Nat.le_of_lt_succ v.toNat_lt))
      · rfl
    rw [LatencyStats.fromSamples, if_neg hne, List.min?_cons']
    change _ = some ((v :: samples).foldl LatencyStats.add (u64Max, 0, 0)).1
    rw [min_foldl_add, List.foldl_cons, hfirst]

/-- No word is too great for the mean. -/
theorem avg_fromSamples {samples : List UInt64} (hne : samples ≠ [])
    (hlen : samples.length ≤ latencyWindow) :
    (LatencyStats.fromSamples samples).avg.toNat =
      (samples.map UInt64.toNat).sum / samples.length := by
  have hsum : (samples.foldl LatencyStats.add (u64Max, 0, 0)).2.2 =
      (samples.map UInt64.toNat).sum := by
    rw [sum_foldl_add, Nat.zero_add]
    rw [Nat.zero_add]
    exact sum_lt_u128Size hlen
  have hlt : (samples.map UInt64.toNat).sum / samples.length < UInt64.size := by
    have hle : (samples.map UInt64.toNat).sum ≤
        (samples.map UInt64.toNat).length • (UInt64.size - 1) := by
      refine List.sum_le_card_nsmul _ _ fun x hx => ?_
      obtain ⟨v, -, rfl⟩ := List.mem_map.mp hx
      exact Nat.le_pred_of_lt v.toNat_lt
    rw [List.length_map, Nat.nsmul_eq_mul] at hle
    exact lt_of_le_of_lt (Nat.div_le_of_le_mul hle) (by decide)
  rw [LatencyStats.fromSamples, if_neg hne]
  dsimp only
  rw [hsum, if_pos hlt, UInt64.toNat_ofNat', Nat.mod_eq_of_lt hlt]

/-- **The numbers of a window are exact.** -/
theorem summarises_fromSamples {window : List UInt64} (hne : window ≠ [])
    (hlen : window.length ≤ latencyWindow) :
    Summarises window (LatencyStats.fromSamples window) := by
  have hpos : 0 < window.length := List.length_pos_iff.mpr hne
  have hmin := min_fromSamples hne
  have hmax : window.max? = some (LatencyStats.fromSamples window).max := by
    obtain ⟨v, hv⟩ := Option.ne_none_iff_exists'.mp (mt List.max?_eq_none_iff.mp hne)
    rw [max_fromSamples, hv, Option.getD_some]
  have havg := avg_fromSamples hne hlen
  refine ⟨hmin, hmax, havg, ?_, ?_, fun part hpart => ?_⟩
  · rw [UInt64.le_iff_toNat_le, havg, Nat.le_div_iff_mul_le hpos]
    have hle := (List.min?_eq_some_iff.mp hmin).2
    have hsum := List.card_nsmul_le_sum (window.map UInt64.toNat)
      (LatencyStats.fromSamples window).min.toNat fun x hx => by
        obtain ⟨v, hv, rfl⟩ := List.mem_map.mp hx
        exact UInt64.le_iff_toNat_le.mp (hle v hv)
    rwa [List.length_map, Nat.nsmul_eq_mul, Nat.mul_comm] at hsum
  · rw [UInt64.le_iff_toNat_le, havg]
    have hle := (List.max?_eq_some_iff.mp hmax).2
    have hsum := List.sum_le_card_nsmul (window.map UInt64.toNat)
      (LatencyStats.fromSamples window).max.toNat fun x hx => by
        obtain ⟨v, hv, rfl⟩ := List.mem_map.mp hx
        exact UInt64.le_iff_toNat_le.mp (hle v hv)
    rw [List.length_map, Nat.nsmul_eq_mul] at hsum
    exact Nat.div_le_of_le_mul hsum
  · exact sum_lt_u128Size (hpart.length_le.trans hlen)

/-! ### What is exported -/

/-- The lines for the least, the greatest and the mean latency, in the text that is exported. -/
def Exports (r : MetricsRecorder) (stats : LatencyStats) : Prop :=
  let p := r.metricPrefix
  let min := stats.min
  let max := stats.max
  let avg := stats.avg
  ∃ before after, r.exportPrometheus = unlines (before ++ [
    s!"{p}_process_latency_us_min {min}",
    s!"{p}_process_latency_us_max {max}",
    s!"{p}_process_latency_us_avg {avg}"] ++ after)

theorem exports_fromSamples (r : MetricsRecorder) :
    Exports r (LatencyStats.fromSamples r.window) := by
  refine ⟨r.latencyHelp ++ r.latencyMetrics.take 2, r.xrunHelp ++ r.xrunMetrics, ?_⟩
  exact congrArg unlines rfl

/-- **The window and its numbers.** After any calls the window holds the last samples that were
recorded, in order, 1024 of them if there are so many; and what is exported are the least and the
greatest of them and their exact mean, rounded down – or zeros, when nothing was recorded. -/
theorem window_exports (metricPrefix : String) (calls : List Call) :
    let r := (MetricsRecorder.withPrefix metricPrefix).run calls
    let samples := calls.flatMap Call.recorded
    r.window = samples.drop (samples.length - min samples.length 1024) ∧
    ∃ stats, Exports r stats ∧
      (r.window = [] → stats = ⟨0, 0, 0⟩) ∧
      (r.window ≠ [] → Summarises r.window stats) := by
  intro r samples
  have hwindow : r.window = newest samples :=
    window_run _ (show (MetricsRecorder.withPrefix metricPrefix).window = newest [] from rfl) calls
  have hlen : r.window.length ≤ latencyWindow := by
    rw [hwindow, length_newest]
    exact Nat.min_le_right _ _
  refine ⟨hwindow, LatencyStats.fromSamples r.window, exports_fromSamples r, fun h => ?_,
    fun h => ?_⟩
  · rw [h]
    rfl
  · exact summarises_fromSamples h hlen

end Monitor

end SonicBrew
