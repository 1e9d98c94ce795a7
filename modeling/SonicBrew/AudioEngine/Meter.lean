import Mathlib.Algebra.Field.Defs
import Mathlib.Algebra.Order.Field.Rat
import Mathlib.Algebra.Order.Group.Unbundled.Abs
import SonicBrew.AudioEngine.Process
import SonicBrew.Lib.Atomic
import SonicBrew.Lib.PeakHold
import SonicBrew.Lib.Pool

/-!
# The meter

`MeterNode` passes its input on and measures it. The peak is kept in an atomic cell, so that a
control thread can read it at any time with `snapshot`, which also sets it back to zero. The
real-time thread raises the cell in a loop: it reads it, and if its own peak is greater, it tries to
exchange the one for the other. Between the two a snapshot may have emptied the cell, and then the
exchange fails – as it may anyway – and the loop starts again.

Seen from the cell this is a register that holds a peak (`SonicBrew.MeterNode.view`,
`SonicBrew.PeakHold`): a block is offered, and its peak is pending until the loop is over. So no
peak is lost and none is made up, in whatever order the threads take their steps
(`SonicBrew.MeterNode.peak_conserved`).
-/

namespace SonicBrew

open Atomic (compareExchangeWeak)

/-- `Levels`. -/
structure Levels (K : Type) where
  peak : K
  rms : K
  deriving DecidableEq, Repr

/-- `MeterNode`: the two cells. -/
structure MeterNode (K : Type) where
  peak : K
  rms : K
  deriving DecidableEq, Repr

namespace MeterNode

/-- What a thread calls. -/
inductive Request (K : Type) where
  | process (call : ProcessCall K)
  | snapshot

/-- Where a call is. The frames that `process` has written are part of it. -/
inductive Call (K : Type) where
  | skip (out : List (ExactFrame K))
  | load (peak rms : K) (out : List (ExactFrame K))
  | exchange (peak rms old : K) (out : List (ExactFrame K))
  | store (rms : K) (out : List (ExactFrame K))
  | swap
  | loadRms (peak : K)

/-- What a call returns; for `process` these are the frames at the outputs. -/
inductive Answer (K : Type) where
  | processed (out : List (ExactFrame K))
  | levels (levels : Levels K)

variable {K : Type}

section Code

variable [Field K] [LinearOrder K]

/-- `MeterNode::new`. -/
def new : MeterNode K := ⟨0, 0⟩

/-- One turn of the loop that measures. -/
def measureSample (acc : K × K) (x : K) : K × K :=
  (if |x| > acc.1 then |x| else acc.1, acc.2 + x * x)

/-- The peak and the sum of squares. -/
def measure (samples : List K) : K × K := samples.foldl measureSample (0, 0)

/-- The samples that `process` reads. -/
def measured (call : ProcessCall K) : List K :=
  match call.inFrames, call.outFrames with
  | inp :: _, out :: _ => inp.samples.take (min inp.samples.length out.samples.length)
  | _, _ => []

/-- `process` up to the loop on the cell, and `snapshot` before its first step. -/
def enter (std : Elementary K) : Request K → Call K
  | .process call =>
      match call.inFrames, call.outFrames with
      | inp :: _, out :: others =>
          let n := min inp.samples.length out.samples.length
          if n = 0 then .skip (out :: others)
          else
            let out := { out with samples := inp.samples.take n ++ out.samples.drop n }
            let (peak, sumSq) := measure (inp.samples.take n)
            let rms := std.sqrt (sumSq / n)
            .load peak rms (out :: others)
      | _, outFrames => .skip outFrames
  | .snapshot => .swap

/-- **The atomic steps** of `process` and of `snapshot`. -/
def next (node : MeterNode K) : Call K → Bool → MeterNode K × (Call K ⊕ Answer K)
  | .skip out, _ => (node, .inr (.processed out))
  | .load peak rms out, _ =>
      if peak ≤ node.peak then (node, .inl (.store rms out))
      else (node, .inl (.exchange peak rms node.peak out))
  | .exchange peak rms old out, spurious =>
      match compareExchangeWeak node.peak old peak spurious with
      | (cell, .ok _) => ({ node with peak := cell }, .inl (.store rms out))
      | (cell, .error _) => ({ node with peak := cell }, .inl (.load peak rms out))
  | .store rms out, _ => ({ node with rms := rms }, .inr (.processed out))
  | .swap, _ => ({ node with peak := 0 }, .inl (.loadRms node.peak))
  | .loadRms peak, _ => (node, .inr (.levels ⟨peak, node.rms⟩))

/-- The threads. -/
abbrev World (K : Type) : Type := Pool (MeterNode K) (Call K) (Answer K)

/-- One step of any of them. -/
def step (std : Elementary K) : World K → Pool.Action (Request K) Bool → Option (World K) :=
  Pool.step (enter std) next

/-- There is one real-time thread: no other calls `process`. -/
def OneRt (rt : ℕ) : Pool.Action (Request K) Bool → Prop
  | .invoke t (.process _) => t = rt
  | _ => True

/-! ### What can be seen -/

/-- The greatest absolute value of some samples. -/
def maxAbs (samples : List K) : K := samples.foldl (fun m x => max m |x|) 0

/-- The samples that are given to `process` with an action. -/
def samplesIn : Pool.Action (Request K) Bool → List K
  | .invoke _ (.process call) => measured call
  | _ => []

/-- **What an action shows**: the peak of a block is offered when `process` is called with it, is
taken when the exchange succeeds, and what was in the cell is handed out by a snapshot. -/
def event (p : World K) : Pool.Action (Request K) Bool → List (PeakHold.Event K)
  | .invoke _ (.process call) =>
      if measured call = [] then [] else [.offer (maxAbs (measured call))]
  | .invoke _ .snapshot => []
  | .advance t spurious =>
      match p.calls t with
      | some (.exchange peak _ old _) =>
          if p.shared.peak = old ∧ spurious = false then [.update peak] else []
      | some .swap => [.reset p.shared.peak]
      | _ => []

end Code

/-- The calls of `process`. -/
def Call.processing : Call K → Bool
  | .skip _ => true
  | .load _ _ _ => true
  | .exchange _ _ _ _ => true
  | .store _ _ => true
  | .swap => false
  | .loadRms _ => false

/-- **The peaks that snapshots have taken**: they are returned, or will be. -/
def Taken (p : World K) (v : K) : Prop :=
  (∃ levels, .levels levels ∈ p.answers ∧ levels.peak = v) ∨ p.Some (· = .loadRms v)

/-! ### Measuring -/

section Measuring

variable [Field K] [LinearOrder K]

theorem fst_measureSample (acc : K × K) (x : K) : (measureSample acc x).1 = max acc.1 |x| := by
  rw [measureSample]
  dsimp only
  split
  · rename_i hgt
    exact (max_eq_right hgt.le).symm
  · rename_i hle
    exact (max_eq_left (not_lt.mp hle)).symm

/-- **The peak that is measured is the greatest absolute value.** -/
theorem fst_measure (samples : List K) : (measure samples).1 = maxAbs samples := by
  have hfold : ∀ acc : K × K, (samples.foldl measureSample acc).1 =
      samples.foldl (fun m x => max m |x|) acc.1 := by
    induction samples with
    | nil => exact fun _ => rfl
    | cons x samples ih =>
      intro acc
      rw [List.foldl_cons, ih, fst_measureSample, List.foldl_cons]
  exact hfold (0, 0)

/-- A running maximum is at least where it starts and all it has seen, and is one of them. -/
theorem foldl_max_abs (samples : List K) (m : K) :
    m ≤ samples.foldl (fun m x => max m |x|) m ∧
    (∀ x ∈ samples, |x| ≤ samples.foldl (fun m x => max m |x|) m) ∧
    (samples.foldl (fun m x => max m |x|) m = m ∨
      ∃ x ∈ samples, |x| = samples.foldl (fun m x => max m |x|) m) := by
  induction samples generalizing m with
  | nil => exact ⟨le_rfl, fun _ h => absurd h List.not_mem_nil, Or.inl rfl⟩
  | cons x samples ih =>
    obtain ⟨hstart, hall, hone⟩ := ih (max m |x|)
    rw [List.foldl_cons]
    refine ⟨(le_max_left _ _).trans hstart,
      List.forall_mem_cons.mpr ⟨(le_max_right _ _).trans hstart, hall⟩, ?_⟩
    rcases hone with heq | ⟨y, hy, heq⟩
    · rw [heq]
      rcases max_choice m |x| with hmax | hmax
      · exact Or.inl hmax
      · exact Or.inr ⟨x, List.mem_cons_self, hmax.symm⟩
    · exact Or.inr ⟨y, List.mem_cons_of_mem x hy, heq⟩

theorem maxAbs_nonneg (samples : List K) : 0 ≤ maxAbs samples := (foldl_max_abs samples 0).1

theorem abs_le_maxAbs {samples : List K} {x : K} (h : x ∈ samples) : |x| ≤ maxAbs samples :=
  (foldl_max_abs samples 0).2.1 x h

theorem maxAbs_cases (samples : List K) :
    maxAbs samples = 0 ∨ ∃ x ∈ samples, |x| = maxAbs samples := (foldl_max_abs samples 0).2.2

/-- Fewer samples have no greater peak. -/
theorem maxAbs_mono {samples samples' : List K} (h : ∀ x ∈ samples, x ∈ samples') :
    maxAbs samples ≤ maxAbs samples' := by
  rcases maxAbs_cases samples with hzero | ⟨x, hx, heq⟩
  · exact hzero ▸ maxAbs_nonneg samples'
  · exact heq ▸ abs_le_maxAbs (h x hx)

end Measuring

/-! ### The cell as a register -/

/-- The peak of the block that the loop is working at. -/
def Call.pending : Call K → Option K
  | .load peak _ _ => some peak
  | .exchange peak _ _ _ => some peak
  | _ => none

/-- **The register**: the cell, and the offer of the real-time thread. -/
def view (rt : ℕ) (p : World K) : PeakHold.State K :=
  ⟨p.shared.peak, (p.calls rt).bind Call.pending⟩

/-- A step that does not change what is pending. -/
theorem view_settle {rt t : ℕ} {p : World K} (node : MeterNode K) {r : Call K ⊕ Answer K}
    (hr : r.getLeft?.bind Call.pending = (p.calls t).bind Call.pending) :
    view rt (p.settle t node r) = ⟨node.peak, (view rt p).pending⟩ := by
  rw [view, Pool.settle_shared, view]
  by_cases h : rt = t
  · rw [h, Pool.settle_calls_self, hr]
  · rw [Pool.settle_calls_of_ne p h]

/-- A step of the real-time thread. -/
theorem view_settle_self (rt : ℕ) (p : World K) (node : MeterNode K) (r : Call K ⊕ Answer K) :
    view rt (p.settle rt node r) = ⟨node.peak, r.getLeft?.bind Call.pending⟩ := by
  rw [view, Pool.settle_shared, Pool.settle_calls_self]

/-- A step that changes neither what is pending nor the cell. -/
theorem stay_settle [LinearOrder K] {rt t : ℕ} {p : World K} {z : K} {node : MeterNode K}
    {r : Call K ⊕ Answer K} (hr : r.getLeft?.bind Call.pending = (p.calls t).bind Call.pending)
    (hnode : node.peak = p.shared.peak) :
    PeakHold.Step z (view rt p) [] (view rt (p.settle t node r)) := by
  rw [view_settle node hr, hnode]
  exact .stay _

/-- When the real-time thread is not in `process`, nothing is pending. -/
theorem pending_view {rt : ℕ} {p : World K} (h : p.All (Call.processing · = false)) :
    (view rt p).pending = none := by
  rw [view]
  rcases hrt : p.calls rt with _ | c
  · rfl
  · have hc : c.processing = false := h rt c hrt
    cases c with
    | swap => rfl
    | loadRms peak => rfl
    | _ => cases hc

/-- What a snapshot call has taken in another thread than this one, or has returned. -/
def TakenElsewhere (p : World K) (t : ℕ) (v : K) : Prop :=
  (∃ levels, .levels levels ∈ p.answers ∧ levels.peak = v) ∨
    ∃ u, u ≠ t ∧ p.calls u = some (.loadRms v)

/-- A call takes a peak, or returns it. -/
def Gives (r : Call K ⊕ Answer K) (v : K) : Prop :=
  r = .inl (.loadRms v) ∨ ∃ levels, r = .inr (.levels levels) ∧ levels.peak = v

theorem taken_iff (p : World K) (t : ℕ) (v : K) :
    Taken p v ↔ TakenElsewhere p t v ∨ p.calls t = some (.loadRms v) := by
  constructor
  · rintro (hreturned | ⟨u, c, hu, rfl⟩)
    · exact Or.inl (Or.inl hreturned)
    · by_cases hut : u = t
      · exact Or.inr (hut ▸ hu)
      · exact Or.inl (Or.inr ⟨u, hut, hu⟩)
  · rintro ((hreturned | ⟨u, -, hu⟩) | ht)
    · exact Or.inl hreturned
    · exact Or.inr ⟨u, _, hu, rfl⟩
    · exact Or.inr ⟨t, _, ht, rfl⟩

theorem taken_settle_iff (p : World K) (t : ℕ) (node : MeterNode K) (r : Call K ⊕ Answer K)
    (v : K) : Taken (p.settle t node r) v ↔ TakenElsewhere p t v ∨ Gives r v := by
  have hcalls : ∀ {u}, u ≠ t → (p.settle t node r).calls u = p.calls u := fun hu =>
    p.settle_calls_of_ne hu node r
  rw [taken_iff _ t, TakenElsewhere, TakenElsewhere, Pool.settle_calls_self]
  cases r with
  | inl c =>
    simp only [Pool.settle_answers_inl, Sum.getLeft?_inl, Option.some.injEq, Gives, Sum.inl.injEq,
      reduceCtorEq, false_and, exists_false, or_false]
    exact or_congr (or_congr Iff.rfl (exists_congr fun u =>
      and_congr_right fun hu => by rw [hcalls hu])) Iff.rfl
  | inr a =>
    simp only [Pool.settle_answers_inr, List.mem_append, List.mem_singleton, Sum.getLeft?_inr,
      reduceCtorEq, or_false, Gives, false_or, Sum.inr.injEq]
    constructor
    · rintro (⟨levels, hmem | rfl, heq⟩ | ⟨u, hu, hcall⟩)
      · exact Or.inl (Or.inl ⟨levels, hmem, heq⟩)
      · exact Or.inr ⟨levels, rfl, heq⟩
      · exact Or.inl (Or.inr ⟨u, hu, (hcalls hu).symm.trans hcall⟩)
    · rintro ((⟨levels, hmem, heq⟩ | ⟨u, hu, hcall⟩) | ⟨levels, rfl, heq⟩)
      · exact Or.inl ⟨levels, Or.inl hmem, heq⟩
      · exact Or.inr ⟨u, hu, (hcalls hu).trans hcall⟩
      · exact Or.inl ⟨levels, Or.inr rfl, heq⟩

/-! ### Runs -/

section Runs

variable [Field K] [LinearOrder K]

/-- An exchange is tried only with a greater peak. -/
def Call.Below : Call K → Prop
  | .exchange peak _ old _ => old < peak
  | _ => True

/-- **What the threads keep up**: the register is explained by the history, `process` is called by
the real-time thread only, and what was handed out was taken by a snapshot. -/
structure Inv (rt : ℕ) (p : World K) (history : List (PeakHold.Event K)) : Prop where
  sound : PeakHold.Sound 0 (view rt p) history
  single : ∀ t c, p.calls t = some c → c.processing = true → t = rt
  below : p.All Call.Below
  taken : ∀ v, .reset v ∈ history ↔ Taken p v

theorem inv_idle (rt : ℕ) : Inv rt (Pool.idle new : World K) [] where
  sound := PeakHold.sound_start
  single _ _ h := by cases h
  below := Pool.all_idle _ new
  taken v := by
    refine ⟨fun h => absurd h List.not_mem_nil, ?_⟩
    rintro (⟨levels, h, -⟩ | ⟨t, c, h, -⟩)
    · exact absurd h List.not_mem_nil
    · cases h

/-- What `process` does before its loop. -/
theorem enter_process (std : Elementary K) (call : ProcessCall K) :
    (measured call = [] ∧ ∃ out, enter std (.process call) = .skip out) ∨
      (measured call ≠ [] ∧
        ∃ rms out, enter std (.process call) = .load (maxAbs (measured call)) rms out) := by
  rcases call with ⟨_ | ⟨inp, ins⟩, _ | ⟨out, outs⟩⟩
  · exact Or.inl ⟨rfl, _, rfl⟩
  · exact Or.inl ⟨rfl, _, rfl⟩
  · exact Or.inl ⟨rfl, _, rfl⟩
  · have hmeasured : measured ⟨inp :: ins, out :: outs⟩ =
        inp.samples.take (min inp.samples.length out.samples.length) := rfl
    have hempty : measured ⟨inp :: ins, out :: outs⟩ = [] ↔
        min inp.samples.length out.samples.length = 0 := by
      rw [hmeasured, List.take_eq_nil_iff, ← List.length_eq_zero_iff]
      omega
    by_cases hn : min inp.samples.length out.samples.length = 0
    · exact Or.inl ⟨hempty.mpr hn, out :: outs, if_pos hn⟩
    · refine Or.inr ⟨mt hempty.mp hn, ?_⟩
      rw [← fst_measure, hmeasured]
      exact ⟨_, _, if_neg hn⟩

/-- **One step**, from what it does to the register, to the calls and to the peaks that snapshots
take. -/
theorem Inv.settle {rt t : ℕ} {p : World K} {history seen : List (PeakHold.Event K)}
    {node : MeterNode K} {r : Call K ⊕ Answer K} (h : Inv rt p history)
    (hstep : PeakHold.Step 0 (view rt p) seen (view rt (p.settle t node r)))
    (hsingle : ∀ c, r = .inl c → c.processing = true → t = rt)
    (hbelow : ∀ c, r = .inl c → c.Below)
    (htaken : ∀ v, p.calls t = some (.loadRms v) ∨ .reset v ∈ seen ↔ Gives r v) :
    Inv rt (p.settle t node r) (history ++ seen) where
  sound := h.sound.step hstep
  single u c hc hprocessing := by
    rcases Pool.settle_calls_cases hc with ⟨rfl, hr⟩ | ⟨-, hc⟩
    · exact hsingle c hr hprocessing
    · exact h.single u c hc hprocessing
  below := h.below.settle hbelow fun _ _ _ _ hc => hc
  taken v := by
    rw [List.mem_append, h.taken, taken_iff p t, taken_settle_iff, or_assoc, htaken]

theorem Inv.invoke {std : Elementary K} {rt t : ℕ} {p : World K}
    {history : List (PeakHold.Event K)} (h : Inv rt p history) (ht : p.calls t = none)
    {q : Request K} (hq : OneRt rt (.invoke t q)) :
    Inv rt (p.settle t p.shared (.inl (enter std q))) (history ++ event p (.invoke t q)) := by
  cases q with
  | snapshot =>
    refine h.settle (stay_settle (by rw [ht]; rfl) rfl) (Pool.forall_of_inl ?_)
      (Pool.forall_of_inl trivial) fun v => ?_
    · intro hprocessing
      cases hprocessing
    · simp [ht, Gives, event, enter]
  | process call =>
    obtain rfl : t = rt := hq
    obtain ⟨hempty, out, henter⟩ | ⟨hne, rms, out, henter⟩ := enter_process std call
    · rw [henter, event, if_pos hempty]
      exact h.settle (stay_settle (by rw [ht]; rfl) rfl) (fun _ _ _ => rfl)
        (Pool.forall_of_inl trivial) (by simp [ht, Gives])
    · rw [henter, event, if_neg hne]
      refine h.settle ?_ (fun _ _ _ => rfl) (Pool.forall_of_inl trivial) (by simp [ht, Gives])
      rw [view_settle_self, view, ht]
      exact .offer _ (maxAbs_nonneg _)

theorem Inv.advance {rt t : ℕ} {p : World K} {history : List (PeakHold.Event K)}
    (h : Inv rt p history) {c : Call K} (ht : p.calls t = some c) (spurious : Bool) :
    Inv rt (p.settle t (next p.shared c spurious).1 (next p.shared c spurious).2)
      (history ++ event p (.advance t spurious)) := by
  have hrt : c.processing = true → t = rt := h.single t c ht
  cases c with
  | skip out =>
    rw [event, ht]
    exact h.settle (stay_settle (by rw [ht]; rfl) rfl) (by simp [next]) (by simp [next])
      (by simp [ht, Gives, next])
  | load peak rms out =>
    obtain rfl := hrt rfl
    rw [event, ht, next]
    dsimp only
    split
    · rename_i hle
      refine h.settle ?_ (fun _ _ _ => rfl) (Pool.forall_of_inl trivial) (by simp [ht, Gives])
      rw [view_settle_self, view, ht]
      exact .covered hle
    · rename_i hlt
      exact h.settle (stay_settle (by rw [ht]; rfl) rfl) (fun _ _ _ => rfl)
        (Pool.forall_of_inl (not_le.mp hlt)) (by simp [ht, Gives])
  | exchange peak rms old out =>
    obtain rfl := hrt rfl
    have hbelow : old < peak := h.below t _ ht
    rw [event, ht, next, compareExchangeWeak]
    by_cases hsame : p.shared.peak = old ∧ spurious = false
    · simp only [if_pos hsame]
      refine h.settle ?_ (fun _ _ _ => rfl) (Pool.forall_of_inl trivial) (by simp [ht, Gives])
      rw [view_settle_self, view, ht]
      exact .update (hsame.1 ▸ hbelow)
    · simp only [if_neg hsame]
      exact h.settle (stay_settle (by rw [ht]; rfl) rfl) (fun _ _ _ => rfl)
        (Pool.forall_of_inl trivial) (by simp [ht, Gives])
  | store rms out =>
    rw [event, ht]
    exact h.settle (stay_settle (by rw [ht]; rfl) rfl) (by simp [next]) (by simp [next])
      (by simp [ht, Gives, next])
  | swap =>
    rw [event, ht, next]
    refine h.settle ?_ (Pool.forall_of_inl ?_) (Pool.forall_of_inl trivial) fun v => ?_
    · rw [view_settle _ (by rw [ht]; rfl)]
      exact .reset _ _
    · intro hprocessing
      cases hprocessing
    · simp [ht, Gives, eq_comm]
  | loadRms peak =>
    rw [event, ht]
    exact h.settle (stay_settle (by rw [ht]; rfl) rfl) (by simp [next]) (by simp [next])
      (by simp [ht, Gives, next])

variable {std : Elementary K} {rt : ℕ} {actions : List (Pool.Action (Request K) Bool)}
  {p : World K}

/-- **In every interleaving** the history explains the register. -/
theorem Inv.run (hone : ∀ a ∈ actions, OneRt rt a)
    (hrun : Transition.run (step std) (Pool.idle new) actions = some p) :
    Inv rt p (Transition.observed (step std) event (Pool.idle new) actions) := by
  refine Transition.invariant_observed (fun p history a p' h ha hstep => ?_) (inv_idle rt)
    (Transition.meets_of_forall hone _) hrun
  obtain ⟨t, q, rfl, ht, rfl⟩ | ⟨t, spurious, c, rfl, ht, rfl⟩ := Pool.step_cases hstep
  · exact h.invoke ht ha
  · exact h.advance ht spurious

/-- What is offered are the peaks of the blocks that have samples. -/
theorem offer_mem_event_iff (v : K) (p : World K) (a : Pool.Action (Request K) Bool) :
    .offer v ∈ event p a ↔ samplesIn a ≠ [] ∧ v = maxAbs (samplesIn a) := by
  cases a with
  | invoke t q =>
    cases q with
    | snapshot => simp [event, samplesIn]
    | process call =>
      rw [event, samplesIn]
      by_cases hempty : measured call = []
      · simp [hempty]
      · simp [hempty]
  | advance t spurious =>
    have hnone : samplesIn (.advance t spurious : Pool.Action (Request K) Bool) = [] := rfl
    rw [event, hnone]
    split
    · split <;> simp
    · simp
    · simp

/-- While `process` is not running, the greatest sample is in the cell, or was taken. -/
theorem isGreatest_peak (hone : ∀ a ∈ actions, OneRt rt a)
    (hrun : Transition.run (step std) (Pool.idle new) actions = some p)
    (hquiet : p.All (Call.processing · = false)) :
    IsGreatest {v | v = p.shared.peak ∨ Taken p v} (maxAbs (actions.flatMap samplesIn)) := by
  have hinv := Inv.run hone hrun
  have hoffers : ∀ v, .offer v ∈ Transition.observed (step std) event (Pool.idle new) actions ↔
      ∃ a ∈ actions, samplesIn a ≠ [] ∧ v = maxAbs (samplesIn a) := fun v =>
    Transition.mem_observed_iff (offer_mem_event_iff v) hrun
  have hall := hinv.sound.isGreatest (pending_view hquiet)
    (maxAbs_nonneg (actions.flatMap samplesIn)) ?_ ?_
  · simpa only [hinv.taken, view] using hall
  · intro v hv
    obtain ⟨a, ha, -, rfl⟩ := (hoffers v).mp hv
    exact maxAbs_mono fun x hx => List.mem_flatMap.mpr ⟨a, ha, hx⟩
  · rcases maxAbs_cases (actions.flatMap samplesIn) with hzero | ⟨x, hx, heq⟩
    · exact Or.inl hzero
    · -- the greatest sample is in some block, and is the peak of that block
      obtain ⟨a, ha, hxa⟩ := List.mem_flatMap.mp hx
      refine Or.inr ((hoffers _).mpr ⟨a, ha, List.ne_nil_of_mem hxa, le_antisymm ?_ ?_⟩)
      · exact heq ▸ abs_le_maxAbs hxa
      · exact maxAbs_mono fun y hy => List.mem_flatMap.mpr ⟨a, ha, hy⟩

/-! ### Where a returned peak comes from -/

/-- **A snapshot has the peak from its own swap**: that was the last step of its thread, it found
the peak in the cell, and what had been seen until then explains it. -/
def Took (std : Elementary K) (actions : List (Pool.Action (Request K) Bool)) (t : ℕ) (v : K) :
    Prop :=
  ∃ before spurious since p, actions = before ++ .advance t spurious :: since ∧
    (∀ spurious, .advance t spurious ∉ since) ∧
    Transition.run (step std) (Pool.idle new) before = some p ∧
    p.calls t = some .swap ∧ p.shared.peak = v ∧
    PeakHold.Explained 0 (Transition.observed (step std) event (Pool.idle new) before) v

theorem Took.append {std : Elementary K} {actions : List (Pool.Action (Request K) Bool)} {t : ℕ}
    {v : K} (h : Took std actions t v) {a : Pool.Action (Request K) Bool}
    (ha : ∀ spurious, a ≠ .advance t spurious) : Took std (actions ++ [a]) t v := by
  obtain ⟨before, spurious, since, p, rfl, hsince, hp⟩ := h
  refine ⟨before, spurious, since ++ [a], p, by simp, fun s hs => ?_, hp⟩
  rcases List.mem_append.mp hs with hs | hs
  · exact hsince s hs
  · exact ha s (List.mem_singleton.mp hs).symm

/-- A peak gets into the hands of a snapshot by its swap, and from there into its answer. -/
theorem eq_swap_of_next {node : MeterNode K} {c : Call K} {spurious : Bool} {v : K}
    (h : (next node c spurious).2 = .inl (.loadRms v)) : c = .swap ∧ node.peak = v := by
  cases c with
  | swap => exact ⟨rfl, Call.loadRms.inj (Sum.inl.inj h)⟩
  | load | exchange =>
    rw [next] at h
    split at h <;> cases h
  | _ => cases h

theorem eq_loadRms_of_next {node : MeterNode K} {c : Call K} {spurious : Bool} {levels : Levels K}
    (h : (next node c spurious).2 = .inr (.levels levels)) : c = .loadRms levels.peak := by
  cases c with
  | loadRms peak =>
    obtain rfl := Answer.levels.inj (Sum.inr.inj h)
    rfl
  | load | exchange =>
    rw [next] at h
    split at h <;> cases h
  | _ => cases h

theorem took_of_run (hone : ∀ a ∈ actions, OneRt rt a)
    (hrun : Transition.run (step std) (Pool.idle new) actions = some p) {t : ℕ} {v : K}
    (ht : p.calls t = some (.loadRms v)) : Took std actions t v := by
  -- from the end: the last step was the swap, or was taken by another thread
  induction actions using List.reverseRecOn generalizing p with
  | nil =>
    obtain rfl := Option.some.inj hrun
    cases ht
  | append_singleton actions a ih =>
    have hone' : ∀ a ∈ actions, OneRt rt a := fun b hb => hone b (List.mem_append_left _ hb)
    rw [Transition.run_append] at hrun
    obtain ⟨q, hq, hlast⟩ := Option.bind_eq_some_iff.mp hrun
    obtain ⟨p', hstep, hend⟩ := Transition.run_cons hlast
    obtain rfl := Option.some.inj hend
    obtain ⟨u, request, rfl, -, rfl⟩ | ⟨u, spurious, c, rfl, hu, rfl⟩ := Pool.step_cases hstep
    · rcases Pool.settle_calls_cases ht with ⟨-, hr⟩ | ⟨-, ht⟩
      · have hfresh : enter std request = .loadRms v := Sum.inl.inj hr
        cases request with
        | snapshot => cases hfresh
        | process call =>
          obtain ⟨-, out, henter⟩ | ⟨-, rms, out, henter⟩ := enter_process std call <;>
            cases henter.symm.trans hfresh
      · exact (ih hone' hq ht).append (by simp)
    · rcases Pool.settle_calls_cases ht with ⟨rfl, hr⟩ | ⟨hne, ht⟩
      · obtain ⟨rfl, rfl⟩ := eq_swap_of_next hr
        exact ⟨actions, spurious, [], q, rfl, by simp, hq, hu, rfl, (Inv.run hone' hq).sound.held⟩
      · exact (ih hone' hq ht).append (by simp [hne.symm])

/-- **No peak is lost, and none is made up**, when one thread calls `process` and any threads call
`snapshot`: whenever `process` is not running, the greatest absolute value of the samples so far is
the greater of what is in the cell and what snapshots have taken – have returned, if none of them is
running between its two steps. Whatever was handed out at a reset was in the cell because of a block
whose peak was put there since the reset before; and a step that returns a peak returns the one that
its own call was handed out. -/
theorem peak_conserved (hone : ∀ a ∈ actions, OneRt rt a)
    (hrun : Transition.run (step std) (Pool.idle new) actions = some p) :
    (p.All (Call.processing · = false) →
      IsGreatest {v | v = p.shared.peak ∨ Taken p v} (maxAbs (actions.flatMap samplesIn)) ∧
      ((∀ v, ¬ p.Some (· = .loadRms v)) →
        IsGreatest {v | v = p.shared.peak ∨ ∃ levels, .levels levels ∈ p.answers ∧ levels.peak = v}
          (maxAbs (actions.flatMap samplesIn)))) ∧
    (∀ before v, before ++ [.reset v] <+:
        Transition.observed (step std) event (Pool.idle new) actions →
      PeakHold.Explained 0 before v) ∧
    ∀ a p' levels, step std p a = some p' → p'.answers = p.answers ++ [.levels levels] →
      ∃ t spurious, a = .advance t spurious ∧ Took std actions t levels.peak := by
  refine ⟨fun hquiet => ?_, (Inv.run hone hrun).sound.resets, fun a p' levels hstep hanswers => ?_⟩
  · have hgreatest := isGreatest_peak hone hrun hquiet
    refine ⟨hgreatest, fun hreturned => ?_⟩
    simpa only [Taken, hreturned, or_false] using hgreatest
  · obtain ⟨t, request, rfl, -, rfl⟩ | ⟨t, spurious, c, rfl, hc, rfl⟩ := Pool.step_cases hstep
    · exact absurd hanswers (by simp)
    · rcases hr : (next p.shared c spurious).2 with c' | answer
      · rw [hr] at hanswers
        exact absurd hanswers (by simp)
      · rw [hr, Pool.settle_answers_inr, List.append_cancel_left_eq, List.singleton_inj] at hanswers
        obtain rfl := eq_loadRms_of_next (hr.trans (congrArg Sum.inr hanswers))
        exact ⟨t, spurious, rfl, took_of_run hone hrun hc⟩

/-- The exchange of the real-time thread fails once for no reason, and a snapshot comes between the
one that succeeds and the end of the call. -/
theorem peak_conserved_snapshot_between :
    let std : Elementary ℚ := ⟨0, id, id, id, id, fun x _ => x⟩
    let actions : List (Pool.Action (Request ℚ) Bool) :=
      [.invoke 0 (.process (.mono [-2])), .advance 0 false, .advance 0 true, .invoke 1 .snapshot,
        .advance 0 false, .advance 0 false, .advance 1 false, .advance 0 false, .advance 1 false]
    ∃ p, Transition.run (step std) (Pool.idle new) actions = some p ∧
      IsGreatest {v | v = p.shared.peak ∨ ∃ levels, .levels levels ∈ p.answers ∧ levels.peak = v}
        (maxAbs (actions.flatMap samplesIn)) := by
  intro std actions
  have hone : ∀ a ∈ actions, OneRt 0 a := by
    simp [actions, OneRt]
  have hsome : (Transition.run (step std) (Pool.idle new) actions).isSome = true := rfl
  have hcalls : ∀ t,
      ((Transition.run (step std) (Pool.idle new) actions).bind (·.calls t)) = none := by
    intro t
    rcases t with _ | _ | t <;> rfl
  clear_value std actions
  obtain ⟨p, hrun⟩ := Option.isSome_iff_exists.mp hsome
  simp only [hrun, Option.bind_some] at hcalls
  have hquiet : p.All (Call.processing · = false) := fun t c hc =>
    absurd ((hcalls t).symm.trans hc) (by simp)
  have hreturned : ∀ v, ¬ p.Some (· = .loadRms v) := by
    rintro v ⟨t, c, hc, -⟩
    exact absurd ((hcalls t).symm.trans hc) (by simp)
  have hpeak := ((peak_conserved hone hrun).1 hquiet).2 hreturned
  exact ⟨p, hrun, hpeak⟩

end Runs

end MeterNode

end SonicBrew
