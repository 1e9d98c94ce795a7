import Mathlib.Data.List.Basic
import SonicBrew.Lib.Fallible

/-!
# Negotiating the parameters of a device

A client says what it can live with – rates, channels, formats, a range of periods, a range of
buffers – and gets one value of each (`SonicBrew.GwAlsa.negotiate`). Each may be left open, and
each may be closed altogether: by an empty list, or by a range whose end comes before its start.

The five choices are made one after the other and nearly independently; only the buffer has to
hold two periods. A value that is returned is one that the client allowed, and nothing is
returned where nothing is allowed – with one exception: an inverted range of buffers is not
noticed when its end still holds two periods (`SonicBrew.GwAlsa.negotiate_within_iff`). And the
buffer that is returned does hold them, as long as two periods are a number of the type at all
(`SonicBrew.GwAlsa.negotiate_two_periods_iff`).

Nothing is ever taken back: the least period is chosen before the buffer is looked at. It is also
the one that leaves most room for the buffer, so whenever some choice meets everything, this one
does (`SonicBrew.GwAlsa.negotiate_preferred`).
-/

namespace SonicBrew

namespace GwAlsa

/-- The formats of samples. -/
inductive AlsaFormat where
  | s16Le
  | s24Le
  | s24_3Le
  | s32Le
  | float32Le
  | float64Le
  deriving DecidableEq, Repr

/-- The numbers from `start` to `stop`, both included; none if `stop` comes first. -/
structure RangeInclusive where
  start : UInt32
  stop : UInt32
  deriving DecidableEq, Repr

/-- What is allowed; `none` allows anything. -/
structure HwConstraints where
  rates : Option (List UInt32)
  channels : Option (List UInt16)
  formats : Option (List AlsaFormat)
  periodSize : Option RangeInclusive
  bufferSize : Option RangeInclusive
  deriving DecidableEq, Repr

/-- What is chosen. -/
structure HwParams where
  sampleRate : UInt32
  channels : UInt16
  format : AlsaFormat
  periodSize : UInt32
  bufferSize : UInt32
  deriving DecidableEq, Repr

inductive NegotiateError where
  | noRate
  | noChannels
  | noFormat
  | noPeriod
  | bufferTooSmall
  deriving DecidableEq, Repr

/-- `DEFAULT_RATES` -/
def defaultRates : List UInt32 := [48000, 44100]

/-- `DEFAULT_CHANNELS` -/
def defaultChannels : List UInt16 := [2, 1]

/-- `DEFAULT_PERIOD` -/
def defaultPeriod : UInt32 := 256

/-! ### The choices -/

/-- The best of a list: one value if it is there, else another if that is there, else the
least. -/
def pickBest {α : Type} [DecidableEq α] [Min α] (best second : α) (e : NegotiateError)
    (allowed : List α) : Except NegotiateError α :=
  if allowed = [] then .error e
  else if best ∈ allowed then .ok best
  else if second ∈ allowed then .ok second
  else
    match allowed.min? with
    | some least => .ok least
    | none => .error e

def pickRate (rates : Option (List UInt32)) : Except NegotiateError UInt32 :=
  pickBest 48000 44100 .noRate (rates.getD defaultRates)

def pickChannels (channels : Option (List UInt16)) : Except NegotiateError UInt16 :=
  pickBest 2 1 .noChannels (channels.getD defaultChannels)

def pickFormat (formats : Option (List AlsaFormat)) : Except NegotiateError AlsaFormat :=
  match formats.getD [.s16Le] with
  | format :: _ => .ok format
  | [] => .error .noFormat

def pickPeriod (range : Option RangeInclusive) : Except NegotiateError UInt32 :=
  match range with
  | none => .ok defaultPeriod
  | some r => if r.stop < r.start then .error .noPeriod else .ok r.start

def pickBuffer (range : Option RangeInclusive) (twoPeriod : UInt32) :
    Except NegotiateError UInt32 :=
  match range with
  | none => .ok twoPeriod
  | some r => if r.stop < twoPeriod then .error .bufferTooSmall else .ok (max r.start twoPeriod)

/-- Twice a number, or the greatest that there is. -/
def double (x : UInt32) : UInt32 := UInt32.ofNat (min (2 * x.toNat) (UInt32.size - 1))

def negotiate (c : HwConstraints) : Except NegotiateError HwParams := do
  let sampleRate ← pickRate c.rates
  let channels ← pickChannels c.channels
  let format ← pickFormat c.formats
  let periodSize ← pickPeriod c.periodSize
  let bufferSize ← pickBuffer c.bufferSize (double periodSize)
  return ⟨sampleRate, channels, format, periodSize, bufferSize⟩

/-- What is chosen, choice by choice. -/
theorem negotiate_eq_ok {c : HwConstraints} {p : HwParams} :
    negotiate c = .ok p ↔ pickRate c.rates = .ok p.sampleRate ∧
      pickChannels c.channels = .ok p.channels ∧ pickFormat c.formats = .ok p.format ∧
      pickPeriod c.periodSize = .ok p.periodSize ∧
      pickBuffer c.bufferSize (double p.periodSize) = .ok p.bufferSize := by
  constructor
  · intro h
    obtain ⟨rate, hrate, h⟩ := bind_eq_ok.mp h
    obtain ⟨channels, hchannels, h⟩ := bind_eq_ok.mp h
    obtain ⟨format, hformat, h⟩ := bind_eq_ok.mp h
    obtain ⟨period, hperiod, h⟩ := bind_eq_ok.mp h
    obtain ⟨buffer, hbuffer, hp⟩ := bind_eq_ok.mp h
    obtain rfl := Except.ok.inj hp
    exact ⟨hrate, hchannels, hformat, hperiod, hbuffer⟩
  · rintro ⟨hrate, hchannels, hformat, hperiod, hbuffer⟩
    rw [negotiate, hrate, ok_bind, hchannels, ok_bind, hformat, ok_bind, hperiod, ok_bind, hbuffer]
    rfl

section Best

variable {α : Type} [DecidableEq α] [Min α] {best second x : α} {e : NegotiateError}
  {allowed : List α}

theorem mem_of_pickBest [Std.MinEqOr α] (h : pickBest best second e allowed = .ok x) :
    x ∈ allowed := by
  rw [pickBest, check_eq_ok] at h
  obtain ⟨-, h⟩ := h
  split at h
  · obtain rfl := Except.ok.inj h
    assumption
  · split at h
    · obtain rfl := Except.ok.inj h
      assumption
    · split at h
      · rename_i hmin
        obtain rfl := Except.ok.inj h
        exact List.min?_mem hmin
      · cases h

theorem exists_pickBest_iff [Std.MinEqOr α] :
    (∃ x, pickBest best second e allowed = .ok x) ↔ allowed ≠ [] := by
  constructor
  · rintro ⟨x, h⟩ rfl
    exact List.not_mem_nil (mem_of_pickBest h)
  · intro hne
    rw [pickBest, if_neg hne]
    split
    · exact ⟨_, rfl⟩
    · split
      · exact ⟨_, rfl⟩
      · split
        · exact ⟨_, rfl⟩
        · rename_i hnone
          exact absurd (List.min?_eq_none_iff.mp hnone) hne

/-- **The best of what is allowed**: one value if it is there, else another if that is there, else
the least. -/
structure IsBest {α : Type} [LE α] (Allowed : α → Prop) (best second x : α) : Prop where
  allowed : Allowed x
  eq_best : Allowed best → x = best
  eq_second : ¬Allowed best → Allowed second → x = second
  least : ¬Allowed best → ¬Allowed second → ∀ y, Allowed y → x ≤ y

theorem isBest_of_pickBest [LE α] [Std.IsLinearOrder α] [Std.LawfulOrderMin α]
    (h : pickBest best second e allowed = .ok x) : IsBest (· ∈ allowed) best second x := by
  have hmem := mem_of_pickBest h
  rw [pickBest, if_neg (List.ne_nil_of_mem hmem)] at h
  by_cases hbest : best ∈ allowed
  · rw [if_pos hbest] at h
    obtain rfl := Except.ok.inj h
    exact ⟨hmem, fun _ => rfl, fun hno => absurd hmem hno, fun hno => absurd hmem hno⟩
  rw [if_neg hbest] at h
  by_cases hsecond : second ∈ allowed
  · rw [if_pos hsecond] at h
    obtain rfl := Except.ok.inj h
    exact ⟨hmem, fun hin => absurd hin hbest, fun _ _ => rfl, fun _ hno => absurd hmem hno⟩
  rw [if_neg hsecond] at h
  split at h
  · rename_i least hmin
    obtain rfl := Except.ok.inj h
    exact ⟨hmem, fun hin => absurd hin hbest, fun _ hin => absurd hin hsecond,
      fun _ _ => (List.min?_eq_some_iff.mp hmin).2⟩
  · cases h

end Best

theorem pickFormat_eq_ok {formats : Option (List AlsaFormat)} {format : AlsaFormat} :
    pickFormat formats = .ok format ↔ (formats.getD [.s16Le]).head? = some format := by
  rw [pickFormat]
  split <;> simp_all

theorem pickPeriod_eq_ok {range : Option RangeInclusive} {period : UInt32} :
    pickPeriod range = .ok period ↔ (∀ r, range = some r → r.start ≤ r.stop) ∧
      period = (range.map RangeInclusive.start).getD defaultPeriod := by
  cases range with
  | none => simp [pickPeriod, eq_comm]
  | some r => simp [pickPeriod, check_eq_ok, eq_comm (b := period)]

theorem pickBuffer_some_eq_ok {r : RangeInclusive} {twoPeriod buffer : UInt32} :
    pickBuffer (some r) twoPeriod = .ok buffer ↔
      twoPeriod ≤ r.stop ∧ buffer = max r.start twoPeriod := by
  rw [pickBuffer, check_eq_ok, UInt32.not_lt, Except.ok.injEq, eq_comm (b := buffer)]

theorem le_max_le {start stop x : UInt32} (hstart : start ≤ stop) (hx : x ≤ stop) :
    start ≤ max start x ∧ max start x ≤ stop := by
  rw [UInt32.max_def]
  split
  · exact ⟨by assumption, hx⟩
  · exact ⟨UInt32.le_refl _, hstart⟩

/-! ### What is allowed -/

/-- **Every value is one that was allowed.** -/
structure HwParams.Within (p : HwParams) (c : HwConstraints) : Prop where
  rate : ∀ rates, c.rates = some rates → p.sampleRate ∈ rates
  channels : ∀ channels, c.channels = some channels → p.channels ∈ channels
  format : ∀ formats, c.formats = some formats → p.format ∈ formats
  period : ∀ r, c.periodSize = some r → r.start ≤ p.periodSize ∧ p.periodSize ≤ r.stop
  buffer : ∀ r, c.bufferSize = some r → r.start ≤ p.bufferSize ∧ p.bufferSize ≤ r.stop

namespace HwConstraints

variable (c : HwConstraints)

/-- Nothing is allowed of the rates, the channels, the formats or the periods. -/
def ClosedBefore : Prop :=
  c.rates = some [] ∨ c.channels = some [] ∨ c.formats = some [] ∨
    ∃ r, c.periodSize = some r ∧ r.stop < r.start

/-- **Nothing is allowed of something.** -/
def Closed : Prop := c.ClosedBefore ∨ ∃ r, c.bufferSize = some r ∧ r.stop < r.start

/-- The period, if one can be had: the least that is allowed. -/
def period : UInt32 := (c.periodSize.map RangeInclusive.start).getD defaultPeriod

end HwConstraints

theorem getD_ne_nil_iff {α : Type} {allowed : Option (List α)} {preset : List α}
    (h : preset ≠ []) : allowed.getD preset ≠ [] ↔ ¬allowed = some [] := by
  cases allowed with
  | none => simpa using h
  | some allowed => simp

/-- **When there is a result.** -/
theorem exists_negotiate_iff (c : HwConstraints) :
    (∃ p, negotiate c = .ok p) ↔
      ¬c.ClosedBefore ∧ ∀ r, c.bufferSize = some r → double c.period ≤ r.stop := by
  have hrate : (∃ x, pickRate c.rates = .ok x) ↔ ¬c.rates = some [] :=
    exists_pickBest_iff.trans (getD_ne_nil_iff (by decide))
  have hchannels : (∃ x, pickChannels c.channels = .ok x) ↔ ¬c.channels = some [] :=
    exists_pickBest_iff.trans (getD_ne_nil_iff (by decide))
  have hformat : (∃ x, pickFormat c.formats = .ok x) ↔ ¬c.formats = some [] := by
    rw [← getD_ne_nil_iff (List.cons_ne_nil AlsaFormat.s16Le [])]
    simp only [pickFormat_eq_ok, ← List.isSome_head?, Option.isSome_iff_exists, ne_eq]
  constructor
  · rintro ⟨p, hp⟩
    obtain ⟨hr, hc, hf, hp, hb⟩ := negotiate_eq_ok.mp hp
    obtain ⟨hrange, hperiod⟩ := pickPeriod_eq_ok.mp hp
    refine ⟨?_, fun r heq => ?_⟩
    · rintro (hnil | hnil | hnil | ⟨r, heq, hlt⟩)
      · exact hrate.mp ⟨_, hr⟩ hnil
      · exact hchannels.mp ⟨_, hc⟩ hnil
      · exact hformat.mp ⟨_, hf⟩ hnil
      · exact UInt32.not_lt.mpr (hrange r heq) hlt
    · rw [heq, hperiod] at hb
      exact (pickBuffer_some_eq_ok.mp hb).1
  · rintro ⟨hopen, hbuffer⟩
    obtain ⟨hr, hc, hf, hp⟩ : ¬c.rates = some [] ∧ ¬c.channels = some [] ∧ ¬c.formats = some [] ∧
        ∀ r, c.periodSize = some r → r.start ≤ r.stop := by
      refine ⟨fun h => hopen (.inl h), fun h => hopen (.inr (.inl h)),
        fun h => hopen (.inr (.inr (.inl h))), fun r hr => UInt32.not_lt.mp fun hlt => ?_⟩
      exact hopen (.inr (.inr (.inr ⟨r, hr, hlt⟩)))
    obtain ⟨rate, hrate⟩ := hrate.mpr hr
    obtain ⟨channels, hchannels⟩ := hchannels.mpr hc
    obtain ⟨format, hformat⟩ := hformat.mpr hf
    obtain ⟨buffer, hbuffer⟩ : ∃ b, pickBuffer c.bufferSize (double c.period) = .ok b := by
      rcases heq : c.bufferSize with _ | r
      · exact ⟨_, rfl⟩
      · exact ⟨_, pickBuffer_some_eq_ok.mpr ⟨hbuffer r heq, rfl⟩⟩
    exact ⟨⟨rate, channels, format, c.period, buffer⟩, negotiate_eq_ok.mpr
      ⟨hrate, hchannels, hformat, pickPeriod_eq_ok.mpr ⟨hp, rfl⟩, hbuffer⟩⟩

/-- A range of buffers that is not inverted is kept to, and everything else always is. -/
theorem within_of_negotiate {c : HwConstraints} {p : HwParams} (h : negotiate c = .ok p)
    (hbuffer : ∀ r, c.bufferSize = some r → r.start ≤ r.stop) : p.Within c := by
  obtain ⟨hr, hc, hf, hp, hb⟩ := negotiate_eq_ok.mp h
  obtain ⟨hrange, hperiod⟩ := pickPeriod_eq_ok.mp hp
  refine ⟨fun rates heq => ?_, fun channels heq => ?_, fun formats heq => ?_, fun r heq => ?_,
    fun r heq => ?_⟩
  · rw [heq] at hr
    exact mem_of_pickBest hr
  · rw [heq] at hc
    exact mem_of_pickBest hc
  · rw [heq, pickFormat_eq_ok] at hf
    exact List.mem_of_head? hf
  · rw [heq] at hperiod
    rw [hperiod]
    exact ⟨UInt32.le_refl _, hrange r heq⟩
  · rw [heq] at hb
    obtain ⟨hle, hmax⟩ := pickBuffer_some_eq_ok.mp hb
    rw [hmax]
    exact le_max_le (hbuffer r heq) hle

/-- **When the negotiation keeps to what is allowed**: every value that is returned was allowed,
and nothing is returned where nothing is allowed, exactly if an inverted range of buffers, where
there is one, ends below two periods or something before it is closed as well. -/
theorem negotiate_within_iff (c : HwConstraints) :
    ((∀ p, negotiate c = .ok p → p.Within c) ∧ (c.Closed → ∃ e, negotiate c = .error e)) ↔
      ∀ r, c.bufferSize = some r → r.stop < r.start →
        c.ClosedBefore ∨ r.stop < double c.period := by
  constructor
  · rintro ⟨-, hclosed⟩ r heq hlt
    obtain ⟨e, he⟩ := hclosed (.inr ⟨r, heq, hlt⟩)
    -- otherwise the inverted range is long enough, and there is a result
    by_contra hgood
    rw [not_or] at hgood
    obtain ⟨p, hp⟩ := (exists_negotiate_iff c).mpr ⟨hgood.1, fun r' heq' => by
      obtain rfl : r = r' := Option.some.inj (heq.symm.trans heq')
      exact UInt32.not_lt.mp hgood.2⟩
    cases he.symm.trans hp
  · intro hcond
    -- what is closed gives no result, so a result comes from a range that is not inverted
    have hnone : c.Closed → ¬∃ p, negotiate c = .ok p := by
      rintro hclosed hp
      obtain ⟨hopen, hfits⟩ := (exists_negotiate_iff c).mp hp
      obtain ⟨r, heq, hlt⟩ := hclosed.resolve_left hopen
      rcases hcond r heq hlt with hbefore | hshort
      · exact hopen hbefore
      · exact UInt32.not_lt.mpr (hfits r heq) hshort
    refine ⟨fun p hp => within_of_negotiate hp fun r heq => ?_, fun hclosed => ?_⟩
    · refine UInt32.not_lt.mp fun hlt => hnone (.inr ⟨r, heq, hlt⟩) ⟨p, hp⟩
    · rcases hres : negotiate c with e | p
      · exact ⟨e, rfl⟩
      · exact absurd ⟨p, hres⟩ (hnone hclosed)

/-- **An inverted range of buffers is taken for an allowed one**: from 5000 down to 1000 frames, and
the choice is 5000. -/
theorem negotiate_inverted_buffer :
    negotiate ⟨none, none, none, none, some ⟨5000, 1000⟩⟩ = .ok ⟨48000, 2, .s16Le, 256, 5000⟩ := by
  decide

/-! ### Two periods -/

theorem toNat_double (x : UInt32) : (double x).toNat = min (2 * x.toNat) (UInt32.size - 1) := by
  have hlt : min (2 * x.toNat) (UInt32.size - 1) < UInt32.size :=
    Nat.lt_of_le_of_lt (Nat.min_le_right _ _) (by decide)
  rw [double, UInt32.toNat_ofNat', Nat.mod_eq_of_lt hlt]

/-- The buffer is at least what the code takes for two periods. -/
theorem double_le_of_negotiate {c : HwConstraints} {p : HwParams} (h : negotiate c = .ok p) :
    p.periodSize = c.period ∧ double c.period ≤ p.bufferSize := by
  obtain ⟨-, -, -, hp, hb⟩ := negotiate_eq_ok.mp h
  obtain ⟨-, hperiod⟩ := pickPeriod_eq_ok.mp hp
  rw [hperiod] at hb
  refine ⟨hperiod, ?_⟩
  rcases hrange : c.bufferSize with _ | r
  · rw [hrange] at hb
    rw [← Except.ok.inj hb]
    exact UInt32.le_refl _
  · rw [hrange] at hb
    rw [(pickBuffer_some_eq_ok.mp hb).2, UInt32.le_iff_toNat_le, UInt32.toNat_max]
    exact Nat.le_max_right _ _

/-- **The buffer holds two periods exactly if** twice the period is a number of the type, or there
is no result: something before the buffer is closed, or the buffers end below the greatest. -/
theorem negotiate_two_periods_iff (c : HwConstraints) :
    (∀ p, negotiate c = .ok p → 2 * p.periodSize.toNat ≤ p.bufferSize.toNat) ↔
      c.period < 0x80000000 ∨ c.ClosedBefore ∨
        ∃ r, c.bufferSize = some r ∧ r.stop < 0xFFFFFFFF := by
  have hdouble := toNat_double c.period
  have hsize : UInt32.size = 4294967296 := rfl
  by_cases hperiod : c.period < 0x80000000
  · refine iff_of_true (fun p hp => ?_) (.inl hperiod)
    obtain ⟨heq, hle⟩ := double_le_of_negotiate hp
    have hlt : c.period.toNat < 2147483648 := UInt32.lt_iff_toNat_lt.mp hperiod
    rw [UInt32.le_iff_toNat_le, hdouble] at hle
    rw [heq]
    omega
  -- twice the period is cut down to the greatest number, and no buffer is above that
  have hge : 2147483648 ≤ c.period.toNat := UInt32.le_iff_toNat_le.mp (UInt32.not_lt.mp hperiod)
  have hmax : double c.period = 0xFFFFFFFF := by
    rw [← UInt32.toNat_inj, hdouble]
    change _ = 4294967295
    omega
  rw [or_iff_right hperiod]
  constructor
  · intro h
    by_contra hopen
    rw [not_or, not_exists] at hopen
    obtain ⟨p, hp⟩ := (exists_negotiate_iff c).mpr ⟨hopen.1, fun r heq => by
      rw [hmax]
      exact UInt32.not_lt.mp fun hlt => hopen.2 r ⟨heq, hlt⟩⟩
    have htwo := h p hp
    rw [(double_le_of_negotiate hp).1] at htwo
    have hbuffer : p.bufferSize.toNat < 4294967296 := p.bufferSize.toNat_lt
    omega
  · intro hclosed p hp
    obtain ⟨hopen, hfits⟩ := (exists_negotiate_iff c).mp ⟨p, hp⟩
    rcases hclosed with hbefore | ⟨r, heq, hlt⟩
    · exact absurd hbefore hopen
    · exact absurd (hmax ▸ hfits r heq) (UInt32.not_le.mpr hlt)

/-- **Half the range and more**: the buffer for a period of 2147483648 frames is one frame short of
two periods. -/
theorem negotiate_saturated :
    negotiate ⟨none, none, none, some ⟨0x80000000, 0x80000000⟩, none⟩ =
        .ok ⟨48000, 2, .s16Le, 0x80000000, 0xFFFFFFFF⟩ ∧
      ¬2 * (0x80000000 : UInt32).toNat ≤ (0xFFFFFFFF : UInt32).toNat := by
  decide

/-! ### What is preferred -/

namespace HwConstraints

variable (c : HwConstraints)

def AllowsRate (rate : UInt32) : Prop := ∀ rates, c.rates = some rates → rate ∈ rates

def AllowsChannels (n : UInt16) : Prop := ∀ channels, c.channels = some channels → n ∈ channels

/-- Where nothing is said, the period is the default one. -/
def AllowsPeriod (period : UInt32) : Prop :=
  match c.periodSize with
  | none => period = defaultPeriod
  | some r => r.start ≤ period ∧ period ≤ r.stop

def AllowsBuffer (buffer : UInt32) : Prop :=
  ∀ r, c.bufferSize = some r → r.start ≤ buffer ∧ buffer ≤ r.stop

/-- **Some choice meets everything**: nothing is closed, and some buffer that is allowed holds two
periods of some length that is allowed. -/
structure Satisfiable : Prop where
  rates : c.rates ≠ some []
  channels : c.channels ≠ some []
  formats : c.formats ≠ some []
  period : ∀ r, c.periodSize = some r → r.start ≤ r.stop
  buffer : ∀ r, c.bufferSize = some r → r.start ≤ r.stop
  room : ∃ period buffer : UInt32, c.AllowsPeriod period ∧ c.AllowsBuffer buffer ∧
    2 * period.toNat ≤ buffer.toNat

/-- **The preferred value of everything**; the buffer is the least that holds two of the
periods. -/
structure Preferred (p : HwParams) : Prop where
  rate : IsBest c.AllowsRate 48000 44100 p.sampleRate
  channels : IsBest c.AllowsChannels 2 1 p.channels
  format : (c.formats.getD [.s16Le]).head? = some p.format
  period : c.AllowsPeriod p.periodSize
  period_le : ∀ period, c.AllowsPeriod period → p.periodSize ≤ period
  buffer : c.AllowsBuffer p.bufferSize
  two_periods : 2 * p.periodSize.toNat ≤ p.bufferSize.toNat
  buffer_le : ∀ buffer, c.AllowsBuffer buffer → 2 * p.periodSize.toNat ≤ buffer.toNat →
    p.bufferSize ≤ buffer

variable {c}

/-- The least period, and that it is allowed where any is. -/
theorem allowsPeriod_period (h : ∀ r, c.periodSize = some r → r.start ≤ r.stop) :
    c.AllowsPeriod c.period ∧ ∀ period, c.AllowsPeriod period → c.period ≤ period := by
  rcases heq : c.periodSize with _ | r
  · simp only [AllowsPeriod, period, heq]
    refine ⟨rfl, fun period hperiod => ?_⟩
    rw [hperiod]
    exact UInt32.le_refl _
  · simp only [AllowsPeriod, period, heq]
    exact ⟨⟨UInt32.le_refl _, h r heq⟩, fun period hperiod => hperiod.1⟩

/-- A list that is given, or anything. -/
theorem isBest_of_pick {α : Type} [DecidableEq α] [Min α] [LE α] [Std.IsLinearOrder α]
    [Std.LawfulOrderMin α] {best second x : α} {e : NegotiateError}
    {allowed : Option (List α)} {preset : List α} (hbest : best ∈ preset)
    (h : pickBest best second e (allowed.getD preset) = .ok x) :
    IsBest (fun y => ∀ list, allowed = some list → y ∈ list) best second x := by
  cases allowed with
  | none =>
    have hall : ∀ (y : α) (list : List α), none = some list → y ∈ list := by
      intro y list hlist
      cases hlist
    exact ⟨hall x, fun _ => (isBest_of_pickBest h).eq_best hbest, fun hno => absurd (hall best) hno,
      fun hno => absurd (hall best) hno⟩
  | some list =>
    have hiff : (fun y => ∀ l, some list = some l → y ∈ l) = (· ∈ list) := by
      funext y
      simp
    rw [hiff]
    exact isBest_of_pickBest h

end HwConstraints

/-- No buffer that is allowed, and at least what the code takes for two periods, is smaller. -/
theorem bufferSize_le_of_negotiate {c : HwConstraints} {p : HwParams} (h : negotiate c = .ok p)
    {buffer : UInt32} (hallowed : c.AllowsBuffer buffer) (hfits : double c.period ≤ buffer) :
    p.bufferSize ≤ buffer := by
  obtain ⟨-, -, -, -, hb⟩ := negotiate_eq_ok.mp h
  rw [(double_le_of_negotiate h).1] at hb
  rcases hrange : c.bufferSize with _ | r
  · rw [hrange] at hb
    rw [← Except.ok.inj hb]
    exact hfits
  · rw [hrange] at hb
    have hstart := UInt32.le_iff_toNat_le.mp (hallowed r hrange).1
    rw [(pickBuffer_some_eq_ok.mp hb).2, UInt32.le_iff_toNat_le, UInt32.toNat_max]
    exact Nat.max_le.mpr ⟨hstart, UInt32.le_iff_toNat_le.mp hfits⟩

/-- **Nothing has to be taken back**: where some choice meets everything, the negotiation returns
the preferred one. -/
theorem negotiate_preferred {c : HwConstraints} (h : c.Satisfiable) :
    ∃ p, negotiate c = .ok p ∧ c.Preferred p := by
  obtain ⟨hperiod, hleast⟩ := HwConstraints.allowsPeriod_period h.period
  obtain ⟨period, buffer, hp, hb, hroom⟩ := h.room
  -- the least period is the easiest to have twice
  have hle := UInt32.le_iff_toNat_le.mp (hleast period hp)
  have hlt : buffer.toNat < UInt32.size := buffer.toNat_lt
  have hdouble : (double c.period).toNat = 2 * c.period.toNat := by
    rw [toNat_double]
    omega
  have hopen : ¬c.ClosedBefore := by
    rintro (hnil | hnil | hnil | ⟨r, heq, hinverted⟩)
    · exact h.rates hnil
    · exact h.channels hnil
    · exact h.formats hnil
    · exact UInt32.not_lt.mpr (h.period r heq) hinverted
  obtain ⟨p, hok⟩ := (exists_negotiate_iff c).mpr ⟨hopen, fun r heq => by
    have hstop := UInt32.le_iff_toNat_le.mp (hb r heq).2
    rw [UInt32.le_iff_toNat_le, hdouble]
    omega⟩
  have hwithin := within_of_negotiate hok h.buffer
  obtain ⟨hrate, hchannels, hformat, -⟩ := negotiate_eq_ok.mp hok
  obtain ⟨heq, htwo⟩ := double_le_of_negotiate hok
  rw [UInt32.le_iff_toNat_le, hdouble] at htwo
  refine ⟨p, hok, HwConstraints.isBest_of_pick List.mem_cons_self hrate,
    HwConstraints.isBest_of_pick List.mem_cons_self hchannels, pickFormat_eq_ok.mp hformat,
    heq ▸ hperiod, heq ▸ hleast, hwithin.buffer, heq ▸ htwo, fun other hother hfits => ?_⟩
  refine bufferSize_le_of_negotiate hok hother ?_
  rw [UInt32.le_iff_toNat_le, hdouble, ← heq]
  exact hfits

/-- Rates without the best one, and buffers that begin below two periods. -/
theorem negotiate_preferred_second :
    ∃ p, negotiate ⟨some [96000, 44100], some [6, 4], none, some ⟨128, 512⟩, some ⟨64, 4096⟩⟩ =
        .ok p ∧
      HwConstraints.Preferred
        ⟨some [96000, 44100], some [6, 4], none, some ⟨128, 512⟩, some ⟨64, 4096⟩⟩ p :=
  negotiate_preferred
    { rates := by decide
      channels := by decide
      formats := by decide
      period := by
        rintro r hr
        obtain rfl := Option.some.inj hr
        decide
      buffer := by
        rintro r hr
        obtain rfl := Option.some.inj hr
        decide
      room := by
        refine ⟨256, 1024, ⟨by decide, by decide⟩, ?_, by decide⟩
        rintro r hr
        obtain rfl := Option.some.inj hr
        decide }

end GwAlsa

end SonicBrew
