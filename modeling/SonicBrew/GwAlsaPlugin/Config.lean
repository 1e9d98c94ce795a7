import Mathlib.Data.List.Induction
import SonicBrew.GwAlsaPlugin.Bridge
import SonicBrew.Lib.Fallible
import SonicBrew.Lib.Text

/-!
# The configuration of the ALSA plugin

A `pcm` section of an ALSA configuration reaches the plugin as a list of keys and values, and
`config_from_pairs` makes of it where to connect and what to stream. Which lists it is meant to take
is written down with it: the keys and their types, what may be left out and stands for what, which
keys exclude each other (`SonicBrew.GwAlsaPlugin.Documented`). A key that occurs several times
counts with its last value.

The function takes the same lists, with the same result, except for three kinds
(`SonicBrew.GwAlsaPlugin.configFromPairs_documented_iff`).

| the list | documented | the code |
|---|---|---|
| a host, and no `port` | port 9001 | is refused |
| a host that opens a bracket and does not close it | is refused | takes it |
| a `port` out of range, and then one in range | the last one counts | is refused |

The first is the one that matters: the default that is documented for `port` is applied only where
`server` is missing as well, which is where it does not stand.
-/

namespace SonicBrew

namespace GwAlsaPlugin

open Text (rsplitOnce parseBelow Numeral)

/-- `DEFAULT_SERVER` -/
def defaultServer : String := "127.0.0.1"

/-- `DEFAULT_TCP_PORT` -/
def defaultTcpPort : UInt16 := 9001

/-- `DEFAULT_CHANNELS` -/
def defaultChannels : UInt32 := 2

/-- `DEFAULT_RATE` -/
def defaultRate : UInt32 := 48000

/-- A value of the configuration: a string or an integer. -/
inductive ConfValue where
  | str (s : String)
  | int (v : ℤ)
  deriving DecidableEq, Repr

namespace ConfValue

def asStr : ConfValue → Option String
  | .str s => some s
  | .int _ => none

def asInt : ConfValue → Option ℤ
  | .int v => some v
  | .str _ => none

end ConfValue

/-- Where to connect. -/
inductive Endpoint where
  | unix (path : String)
  | tcp (host : String) (port : UInt16)
  deriving DecidableEq, Repr

/-- A configuration that has been checked. -/
structure BridgeConfig where
  endpoint : Endpoint
  channels : UInt32
  rate : UInt32
  deriving DecidableEq, Repr

/-- Why a configuration is refused. -/
inductive ConfigError where
  | unknownKey (key : String)
  | typeMismatch (key : String)
  | conflict (msg : String)
  | invalid (msg : String)
  deriving DecidableEq, Repr

/-- `IGNORED_KEYS` -/
def ignoredKeys : List String := ["type", "comment", "hint"]

/-! ### The code -/

/-- The values found so far. -/
structure ConfKeys where
  socket : Option String
  server : Option String
  port : Option UInt16
  channels : Option ℤ
  rate : Option ℤ

/-- `u16::try_from` -/
def u16TryFrom (v : ℤ) : Option UInt16 :=
  if 0 ≤ v ∧ v ≤ 65535 then some (UInt16.ofNat v.toNat) else none

/-- `u32::try_from` -/
def u32TryFrom (v : ℤ) : Option UInt32 :=
  if 0 ≤ v ∧ v ≤ 4294967295 then some (UInt32.ofNat v.toNat) else none

/-- The value of a string key. -/
def expectStr (key : String) (value : ConfValue) : Except ConfigError String :=
  okOr value.asStr (.typeMismatch key)

/-- The value of an integer key. -/
def expectInt (key : String) (value : ConfValue) : Except ConfigError ℤ :=
  okOr value.asInt (.typeMismatch key)

/-- One turn of the loop over the pairs. -/
def ConfKeys.set (k : ConfKeys) (key : String) (value : ConfValue) : Except ConfigError ConfKeys :=
  match key with
  | "socket" => do
      let s ← expectStr key value
      return { k with socket := some s }
  | "server" => do
      let s ← expectStr key value
      return { k with server := some s }
  | "port" => do
      let v ← expectInt key value
      let p ← okOr (u16TryFrom v) (.invalid "port out of range")
      return { k with port := some p }
  | "channels" => do
      let v ← expectInt key value
      return { k with channels := some v }
  | "rate" => do
      let v ← expectInt key value
      return { k with rate := some v }
  | key => if key ∈ ignoredKeys then .ok k else .error (.unknownKey key)

/-- The loop over the pairs. -/
def collect (pairs : List (String × ConfValue)) : Except ConfigError ConfKeys :=
  pairs.foldlM (fun k p => k.set p.1 p.2) ⟨none, none, none, none, none⟩

/-- `str::parse::<u16>` -/
def parseU16 (s : List Char) : Option UInt16 := (parseBelow UInt16.size s).map UInt16.ofNat

/-- `parse_server` -/
def parseServer (server : String) (portKey : Option UInt16) :
    Except ConfigError (String × UInt16) :=
  match rsplitOnce ':' server.toList with
  | some (host, portStr) =>
      if portKey.isSome then
        .error (.conflict "`server` already carries :port; drop the `port` key")
      else if host.head? ≠ some '[' ∧ ':' ∈ host then
        .error (.invalid "bracket IPv6 literals as [addr]:port")
      else do
        let text := String.ofList portStr
        let port ← okOr (parseU16 portStr) (.invalid s!"bad port `{text}`")
        if port = 0 then .error (.invalid "port must be >= 1") else .ok (String.ofList host, port)
  | none => do
      let port ← okOr (portKey.filter (· ≠ 0)) (.invalid "port must be >= 1")
      return (server, port)

/-- Where to connect, from the values found. -/
def ConfKeys.endpoint (k : ConfKeys) : Except ConfigError Endpoint :=
  if k.socket.isSome ∧ k.server.isSome then
    .error (.conflict "`socket` and `server` are exclusive")
  else if k.port.isSome ∧ k.server.isNone then
    .error (.conflict "`port` requires `server`")
  else
    match k.socket with
    | some path => .ok (.unix path)
    | none =>
        let (server, defaulted) :=
          match k.server with
          | some s => (s, false)
          | none => (defaultServer, true)
        let port := k.port.or (if defaulted then some defaultTcpPort else none)
        do
          let (host, port) ← parseServer server port
          return .tcp host port

/-- A number from 1 up to a bound. -/
def bounded (max : UInt32) (msg : String) (v : ℤ) : Except ConfigError UInt32 :=
  okOr ((u32TryFrom v).filter fun c => 1 ≤ c ∧ c ≤ max) (.invalid msg)

/-- `config_from_pairs` -/
def configFromPairs (pairs : List (String × ConfValue)) : Except ConfigError BridgeConfig := do
  let k ← collect pairs
  let endpoint ← k.endpoint
  let channels ← bounded maxChannels s!"channels must be 1..={maxChannels}"
    (k.channels.getD defaultChannels.toNat)
  let rate ← bounded maxRate s!"rate must be 1..={maxRate}" (k.rate.getD defaultRate.toNat)
  return ⟨endpoint, channels, rate⟩

/-! ### The documentation -/

/-- The last value of a key. -/
def lastValue (pairs : List (String × ConfValue)) (key : String) : Option ConfValue :=
  pairs.foldl (fun last p => if p.1 = key then some p.2 else last) none

def lastStr (pairs : List (String × ConfValue)) (key : String) : Option String :=
  (lastValue pairs key).bind ConfValue.asStr

def lastInt (pairs : List (String × ConfValue)) (key : String) : Option ℤ :=
  (lastValue pairs key).bind ConfValue.asInt

/-- **A known key with a value of its type**, or one that is ignored. -/
def WellTyped (p : String × ConfValue) : Prop :=
  p.1 ∈ ignoredKeys ∨
    match p.2 with
    | .str _ => p.1 ∈ ["socket", "server"]
    | .int _ => p.1 ∈ ["port", "channels", "rate"]

instance decidableWellTyped : ∀ p, Decidable (WellTyped p)
  | (key, .str _) => inferInstanceAs (Decidable (key ∈ ignoredKeys ∨ key ∈ ["socket", "server"]))
  | (key, .int _) =>
      inferInstanceAs (Decidable (key ∈ ignoredKeys ∨ key ∈ ["port", "channels", "rate"]))

/-- **The address that `server` and `port` give.** The hosts that may stand before a port, and
whether the port may be left out altogether, are where the documentation and the code differ. -/
inductive Names (Host : List Char → Prop) (optional : Prop) : String → Option ℤ → Endpoint → Prop
  | keyed {host : String} {p : UInt16} (hhost : ':' ∉ host.toList) (hp : p ≠ 0) :
      Names Host optional host (some p.toNat) (.tcp host p)
  | embedded {server host : String} {text : List Char} {p : UInt16}
      (hserver : server.toList = host.toList ++ ':' :: text) (hhost : Host host.toList)
      (htext : Numeral text p.toNat) (hp : p ≠ 0) : Names Host optional server none (.tcp host p)
  | bare {host : String} (hhost : ':' ∉ host.toList) (hopt : optional) :
      Names Host optional host none (.tcp host defaultTcpPort)

/-- **The endpoint that `socket`, `server` and `port` give.** -/
inductive Addressed (Host : List Char → Prop) (optional : Prop) :
    Option String → Option String → Option ℤ → Endpoint → Prop
  | socket (path : String) : Addressed Host optional (some path) none none (.unix path)
  | neither : Addressed Host optional none none none (.tcp defaultServer defaultTcpPort)
  | server {server : String} {port : Option ℤ} {e : Endpoint}
      (h : Names Host optional server port e) : Addressed Host optional none (some server) port e

/-- An integer from 1 up to a bound, or else the default. -/
def Within (v : Option ℤ) (default max r : UInt32) : Prop :=
  (r.toNat : ℤ) = v.getD default.toNat ∧ 1 ≤ r ∧ r ≤ max

instance decidableWithin (v : Option ℤ) (default max r : UInt32) :
    Decidable (Within v default max r) :=
  inferInstanceAs (Decidable (_ ∧ _))

/-- A host without a colon, or an address in brackets. -/
def DocumentedHost (host : List Char) : Prop :=
  ':' ∉ host ∨ (host.head? = some '[' ∧ host.getLast? = some ']')

instance decidableDocumentedHost (host : List Char) : Decidable (DocumentedHost host) :=
  inferInstanceAs (Decidable (_ ∨ _))

/-- **The configuration that a list is documented to stand for**, if it is one. -/
structure Documented (pairs : List (String × ConfValue)) (cfg : BridgeConfig) : Prop where
  typed : ∀ p ∈ pairs, WellTyped p
  endpoint : Addressed DocumentedHost True (lastStr pairs "socket") (lastStr pairs "server")
    (lastInt pairs "port") cfg.endpoint
  channels : Within (lastInt pairs "channels") defaultChannels maxChannels cfg.channels
  rate : Within (lastInt pairs "rate") defaultRate maxRate cfg.rate

/-! ### The last value of a key -/

variable {pairs : List (String × ConfValue)}

theorem lastValue_append (pairs : List (String × ConfValue)) (p : String × ConfValue)
    (key : String) :
    lastValue (pairs ++ [p]) key = if p.1 = key then some p.2 else lastValue pairs key := by
  rw [lastValue, List.foldl_append]
  rfl

theorem mem_of_lastValue {key : String} {v : ConfValue} (h : lastValue pairs key = some v) :
    (key, v) ∈ pairs := by
  induction pairs using List.reverseRecOn with
  | nil => cases h
  | append_singleton pairs p ih =>
    rw [lastValue_append] at h
    split at h
    · rename_i hkey
      obtain rfl := Option.some.inj h
      rw [← hkey]
      exact List.mem_append_right _ (List.mem_singleton_self p)
    · exact List.mem_append_left _ (ih h)

theorem lastValue_eq_none_iff {key : String} :
    lastValue pairs key = none ↔ ∀ p ∈ pairs, p.1 ≠ key := by
  induction pairs using List.reverseRecOn with
  | nil => simp [lastValue]
  | append_singleton pairs p ih =>
    rw [lastValue_append, List.forall_mem_append, List.forall_mem_singleton, ← ih]
    split
    · simp [*]
    · simp [*]

/-! ### What the loop collects -/

theorem u16TryFrom_eq_some_iff {v : ℤ} {p : UInt16} : u16TryFrom v = some p ↔ v = p.toNat := by
  have hlt := p.toNat_lt
  rw [u16TryFrom, Option.ite_none_right_eq_some, Option.some.injEq, ← UInt16.toNat_inj,
    UInt16.toNat_ofNat']
  omega

/-- **What a pair must be for the loop to go on**: well typed, and a `port` in the range of its
type. -/
def Readable (p : String × ConfValue) : Prop :=
  WellTyped p ∧ ∀ v, p = ("port", .int v) → 0 ≤ v ∧ v ≤ 65535

/-- The values that the last pair of each key has. -/
def lastKeys (pairs : List (String × ConfValue)) : ConfKeys where
  socket := lastStr pairs "socket"
  server := lastStr pairs "server"
  port := (lastInt pairs "port").bind u16TryFrom
  channels := lastInt pairs "channels"
  rate := lastInt pairs "rate"

theorem bind_lastValue_append {α : Type} (f : ConfValue → Option α)
    (pairs : List (String × ConfValue)) (p : String × ConfValue) (key : String) :
    (lastValue (pairs ++ [p]) key).bind f =
      if p.1 = key then f p.2 else (lastValue pairs key).bind f := by
  rw [lastValue_append]
  split
  · rfl
  · rfl

theorem lastStr_append (pairs : List (String × ConfValue)) (p : String × ConfValue) (key : String) :
    lastStr (pairs ++ [p]) key = if p.1 = key then p.2.asStr else lastStr pairs key :=
  bind_lastValue_append ConfValue.asStr pairs p key

theorem lastInt_append (pairs : List (String × ConfValue)) (p : String × ConfValue) (key : String) :
    lastInt (pairs ++ [p]) key = if p.1 = key then p.2.asInt else lastInt pairs key :=
  bind_lastValue_append ConfValue.asInt pairs p key

/-- A pair of an ignored key changes no value. -/
theorem lastKeys_append_ignored {p : String × ConfValue} (h : p.1 ∈ ignoredKeys) :
    lastKeys (pairs ++ [p]) = lastKeys pairs := by
  have hne : ∀ {key : String}, key ∉ ignoredKeys → p.1 ≠ key := by
    rintro key hkey rfl
    exact hkey h
  rw [lastKeys, lastStr_append, lastStr_append, lastInt_append, lastInt_append, lastInt_append,
    if_neg (hne (by decide)), if_neg (hne (by decide)), if_neg (hne (by decide)),
    if_neg (hne (by decide)), if_neg (hne (by decide))]
  rfl

/-- **One turn of the loop**: on a readable pair it goes on, with the last values. -/
theorem set_lastKeys_eq_ok_iff (p : String × ConfValue) (k : ConfKeys) :
    (lastKeys pairs).set p.1 p.2 = .ok k ↔ Readable p ∧ k = lastKeys (pairs ++ [p]) := by
  obtain ⟨key, value⟩ := p
  unfold ConfKeys.set
  dsimp only
  split
  case h_3 =>
    cases value with
    | str s => simp [expectInt, okOr, ConfValue.asInt, Readable, WellTyped, ignoredKeys]
    | int v =>
      by_cases hfits : 0 ≤ v ∧ v ≤ 65535
      · simp [expectInt, okOr, ConfValue.asInt, u16TryFrom, hfits, Readable, WellTyped, lastKeys,
          lastStr_append, lastInt_append, pure, Except.pure, eq_comm]
      · simp [expectInt, okOr, ConfValue.asInt, u16TryFrom, hfits, Readable]
  case h_6 hsocket hserver hport hchannels hrate =>
    by_cases hig : key ∈ ignoredKeys
    · rw [if_pos hig, lastKeys_append_ignored hig, Except.ok.injEq, eq_comm]
      refine ⟨fun h => ⟨⟨Or.inl hig, fun v hv => ?_⟩, h⟩, And.right⟩
      exact absurd (Prod.mk.inj hv).1 hport
    · rw [if_neg hig]
      refine ⟨fun h => ?_, fun h => ?_⟩
      · cases h
      · rcases h.1.1 with h | h
        · exact absurd h hig
        · cases value with
          | str s =>
            have hkey : key = "socket" ∨ key = "server" := by simpa using h
            exact (hkey.elim hsocket hserver).elim
          | int v =>
            have hkey : key = "port" ∨ key = "channels" ∨ key = "rate" := by simpa using h
            exact (hkey.elim hport fun h => h.elim hchannels hrate).elim
  all_goals
    cases value with
    | str s =>
      simp [expectStr, expectInt, okOr, ConfValue.asStr, ConfValue.asInt, Readable, WellTyped,
        ignoredKeys, lastKeys, lastStr_append, lastInt_append, pure, Except.pure, eq_comm]
    | int v =>
      simp [expectStr, expectInt, okOr, ConfValue.asStr, ConfValue.asInt, Readable, WellTyped,
        ignoredKeys, lastKeys, lastStr_append, lastInt_append, pure, Except.pure, eq_comm]

/-- **The loop goes through exactly if every pair is readable**, and then has the last values. -/
theorem collect_eq_ok_iff {k : ConfKeys} :
    collect pairs = .ok k ↔ (∀ p ∈ pairs, Readable p) ∧ k = lastKeys pairs := by
  induction pairs using List.reverseRecOn generalizing k with
  | nil =>
    change Except.ok _ = Except.ok k ↔ _
    rw [Except.ok.injEq, eq_comm]
    exact ⟨fun h => ⟨fun p hp => absurd hp List.not_mem_nil, h⟩, And.right⟩
  | append_singleton pairs p ih =>
    have hcollect : collect (pairs ++ [p]) = collect pairs >>= fun k => k.set p.1 p.2 := by
      rw [collect, List.foldlM_append]
      simp only [List.foldlM_cons, List.foldlM_nil, bind_pure]
      rfl
    rw [hcollect, bind_eq_ok, List.forall_mem_append, List.forall_mem_singleton]
    constructor
    · rintro ⟨k', hk', hset⟩
      obtain ⟨hall, rfl⟩ := ih.mp hk'
      obtain ⟨hp, rfl⟩ := (set_lastKeys_eq_ok_iff p k).mp hset
      exact ⟨⟨hall, hp⟩, rfl⟩
    · rintro ⟨⟨hall, hp⟩, rfl⟩
      exact ⟨lastKeys pairs, ih.mpr ⟨hall, rfl⟩, (set_lastKeys_eq_ok_iff p _).mpr ⟨hp, rfl⟩⟩

/-! ### What the code accepts -/

theorem parseU16_eq_some_iff {s : List Char} {p : UInt16} :
    parseU16 s = some p ↔ Numeral s p.toNat := by
  rw [parseU16, Option.map_eq_some_iff]
  constructor
  · rintro ⟨n, hn, rfl⟩
    obtain ⟨hnum, hlt⟩ := Text.parseBelow_eq_some_iff.mp hn
    rw [UInt16.toNat_ofNat_of_lt' hlt]
    exact hnum
  · intro h
    exact ⟨p.toNat, Text.parseBelow_eq_some_iff.mpr ⟨h, p.toNat_lt⟩, UInt16.ofNat_toNat⟩

/-- A host that the code lets stand before a port: one without a colon, or anything that opens a
bracket. -/
def AcceptedHost (host : List Char) : Prop := ':' ∉ host ∨ host.head? = some '['

/-- The text of a number has no colon. -/
theorem colon_notMem {text : List Char} {n : ℕ} (h : Numeral text n) : ':' ∉ text := by
  intro hmem
  rcases h.isDigit hmem with h | h
  · exact absurd h (by decide)
  · exact absurd h (by decide)

section Names

variable {Host : List Char → Prop} {optional : Prop} {server : String} {port : Option ℤ}
  {e : Endpoint}

/-- A server without a colon is a host, and the port is given by its key or left out. -/
theorem names_iff_of_notMem (h : ':' ∉ server.toList) :
    Names Host optional server port e ↔
      (∃ p : UInt16, p ≠ 0 ∧ port = some (p.toNat : ℤ) ∧ e = .tcp server p) ∨
        (optional ∧ port = none ∧ e = .tcp server defaultTcpPort) := by
  constructor
  · intro hn
    cases hn with
    | keyed _ hp => exact Or.inl ⟨_, hp, rfl, rfl⟩
    | embedded hserver => simp [hserver] at h
    | bare _ hopt => exact Or.inr ⟨hopt, rfl, rfl⟩
  · rintro (⟨p, hp, rfl, rfl⟩ | ⟨hopt, rfl, rfl⟩)
    · exact .keyed h hp
    · exact .bare h hopt

/-- A server with a colon is a host and a port, cut at the last colon. -/
theorem names_iff_of_split {front text : List Char} (h : server.toList = front ++ ':' :: text)
    (htext : ':' ∉ text) :
    Names Host optional server port e ↔
      port = none ∧ Host front ∧
        ∃ p : UInt16, p ≠ 0 ∧ Numeral text p.toNat ∧ e = .tcp (String.ofList front) p := by
  constructor
  · intro hn
    cases hn with
    | keyed hhost => simp [h] at hhost
    | embedded hserver hhost hnum hp =>
      -- there is only one last colon
      have hcut := Text.rsplitOnce_eq_some_iff.mpr ⟨htext, h⟩
      rw [Text.rsplitOnce_eq_some_iff.mpr ⟨colon_notMem hnum, hserver⟩] at hcut
      obtain ⟨rfl, rfl⟩ := Prod.mk.inj (Option.some.inj hcut)
      exact ⟨rfl, hhost, _, hp, hnum, by rw [String.ofList_toList]⟩
    | bare hhost => simp [h] at hhost
  · rintro ⟨rfl, hhost, p, hp, hnum, rfl⟩
    refine .embedded ?_ ?_ hnum hp
    · rw [String.toList_ofList]
      exact h
    · rw [String.toList_ofList]
      exact hhost

theorem Names.exists_eq_tcp (h : Names Host optional server port e) :
    ∃ host p, e = .tcp host p := by
  cases h with
  | keyed => exact ⟨_, _, rfl⟩
  | embedded => exact ⟨_, _, rfl⟩
  | bare => exact ⟨_, _, rfl⟩

end Names

/-- **What `parse_server` accepts.** -/
theorem parseServer_eq_ok_iff {server : String} {portKey : Option UInt16} {r : String × UInt16} :
    parseServer server portKey = .ok r ↔
      Names AcceptedHost False server (portKey.map fun q => (q.toNat : ℤ)) (.tcp r.1 r.2) := by
  rw [parseServer]
  rcases hsplit : rsplitOnce ':' server.toList with _ | ⟨front, text⟩
  · rw [names_iff_of_notMem (Text.rsplitOnce_eq_none_iff.mp hsplit), bind_eq_ok]
    constructor
    · rintro ⟨p, hp, hr⟩
      obtain rfl := Except.ok.inj hr
      obtain ⟨rfl, hne⟩ := Option.filter_eq_some_iff.mp (okOr_eq_ok.mp hp)
      exact Or.inl ⟨p, by simpa using hne, rfl, rfl⟩
    · rintro (⟨p, hne, hp, hr⟩ | ⟨hfalse, -⟩)
      · obtain ⟨q, rfl, hq⟩ := Option.map_eq_some_iff.mp hp
        obtain rfl : q = p := UInt16.toNat_inj.mp (Int.ofNat.inj hq)
        obtain ⟨hserver, hport⟩ := Endpoint.tcp.inj hr
        refine ⟨q, okOr_eq_ok.mpr (Option.filter_eq_some_iff.mpr ⟨rfl, by simpa using hne⟩), ?_⟩
        exact congrArg Except.ok (Prod.ext hserver.symm hport.symm)
      · exact hfalse.elim
  · obtain ⟨htext, hserver⟩ := Text.rsplitOnce_eq_some_iff.mp hsplit
    rw [names_iff_of_split hserver htext]
    dsimp only
    rw [check_eq_ok, check_eq_ok, bind_eq_ok, Option.map_eq_none_iff, Option.isSome_iff_ne_none,
      not_not]
    refine and_congr_right fun _ => and_congr ?_ ?_
    · rw [AcceptedHost]
      tauto
    · refine exists_congr fun p => ?_
      rw [okOr_eq_ok, parseU16_eq_some_iff, check_eq_ok, Except.ok.injEq, Endpoint.tcp.injEq,
        Prod.ext_iff]
      tauto

theorem u32TryFrom_eq_some_iff {v : ℤ} {c : UInt32} :
    u32TryFrom v = some c ↔ (c.toNat : ℤ) = v := by
  have hlt := c.toNat_lt
  rw [u32TryFrom, Option.ite_none_right_eq_some, Option.some.injEq, ← UInt32.toNat_inj,
    UInt32.toNat_ofNat']
  omega

theorem bounded_eq_ok_iff {max r : UInt32} {msg : String} {v : Option ℤ} {default : UInt32} :
    bounded max msg (v.getD default.toNat) = .ok r ↔ Within v default max r := by
  rw [bounded, okOr_eq_ok, Option.filter_eq_some_iff, u32TryFrom_eq_some_iff, decide_eq_true_iff,
    Within]

/-- **What the code makes of the values found.** -/
theorem endpoint_eq_ok_iff {k : ConfKeys} {e : Endpoint} :
    k.endpoint = .ok e ↔
      Addressed AcceptedHost False k.socket k.server (k.port.map fun q => (q.toNat : ℤ)) e := by
  obtain ⟨socket, server, port, channels, rate⟩ := k
  rw [ConfKeys.endpoint, check_eq_ok, check_eq_ok]
  dsimp only
  rcases socket with _ | path
  · rcases server with _ | server
    · have hdefault : parseServer defaultServer (some defaultTcpPort) =
          .ok (defaultServer, defaultTcpPort) :=
        parseServer_eq_ok_iff.mpr (.keyed (by decide +kernel) (by decide))
      constructor
      · rintro ⟨-, hport, h⟩
        obtain rfl : port = none := by simpa using hport
        simp only [Option.none_or, if_true, hdefault] at h
        obtain rfl := Except.ok.inj h
        exact .neither
      · intro h
        generalize hq : port.map (fun q => (q.toNat : ℤ)) = q at h
        cases h with
        | neither =>
          obtain rfl := Option.map_eq_none_iff.mp hq
          refine ⟨by simp, by simp, ?_⟩
          simp only [Option.none_or, if_true, hdefault]
          rfl
    · simp only [Option.or_none, Bool.false_eq_true, if_false]
      rw [bind_eq_ok]
      constructor
      · rintro ⟨-, -, ⟨host, p⟩, hserver, he⟩
        obtain rfl := Except.ok.inj he
        exact .server (parseServer_eq_ok_iff.mp hserver)
      · intro h
        cases h with
        | server hn =>
          obtain ⟨host, p, rfl⟩ := hn.exists_eq_tcp
          exact ⟨by simp, by simp, (host, p), parseServer_eq_ok_iff.mpr hn, rfl⟩
  · constructor
    · rintro ⟨hserver, hport, h⟩
      obtain rfl : server = none := by simpa using hserver
      obtain rfl : port = none := by simpa using hport
      obtain rfl := Except.ok.inj h
      exact .socket path
    · intro h
      generalize hq : port.map (fun q => (q.toNat : ℤ)) = q at h
      cases h with
      | socket =>
        obtain rfl := Option.map_eq_none_iff.mp hq
        exact ⟨by simp, by simp, rfl⟩

/-- The last `port` of a list that is read to its end fits its type. -/
theorem map_lastKeys_port (h : ∀ p ∈ pairs, Readable p) :
    (lastKeys pairs).port.map (fun q => (q.toNat : ℤ)) = lastInt pairs "port" := by
  change ((lastInt pairs "port").bind u16TryFrom).map _ = _
  rcases hv : lastInt pairs "port" with _ | v
  · rfl
  · obtain ⟨value, hvalue, hint⟩ := Option.bind_eq_some_iff.mp hv
    cases value with
    | str s => cases hint
    | int w =>
      obtain rfl := Option.some.inj hint
      obtain ⟨hlo, hhi⟩ := (h _ (mem_of_lastValue hvalue)).2 w rfl
      have hfits : u16TryFrom w = some (UInt16.ofNat w.toNat) := if_pos ⟨hlo, hhi⟩
      rw [Option.bind_some, hfits, Option.map_some, ← u16TryFrom_eq_some_iff.mp hfits]

/-- **What the code accepts**, and what it makes of it. -/
theorem configFromPairs_eq_ok_iff {cfg : BridgeConfig} :
    configFromPairs pairs = .ok cfg ↔
      (∀ p ∈ pairs, Readable p) ∧
        Addressed AcceptedHost False (lastStr pairs "socket") (lastStr pairs "server")
          (lastInt pairs "port") cfg.endpoint ∧
        Within (lastInt pairs "channels") defaultChannels maxChannels cfg.channels ∧
        Within (lastInt pairs "rate") defaultRate maxRate cfg.rate := by
  rw [configFromPairs, bind_eq_ok]
  constructor
  · rintro ⟨k, hk, h⟩
    obtain ⟨hall, rfl⟩ := collect_eq_ok_iff.mp hk
    obtain ⟨e, he, h⟩ := bind_eq_ok.mp h
    obtain ⟨c, hc, h⟩ := bind_eq_ok.mp h
    obtain ⟨r, hr, h⟩ := bind_eq_ok.mp h
    obtain rfl := Except.ok.inj h
    have haddr := endpoint_eq_ok_iff.mp he
    rw [map_lastKeys_port hall] at haddr
    exact ⟨hall, haddr, bounded_eq_ok_iff.mp hc, bounded_eq_ok_iff.mp hr⟩
  · rintro ⟨hall, haddr, hc, hr⟩
    rw [← map_lastKeys_port hall] at haddr
    refine ⟨lastKeys pairs, collect_eq_ok_iff.mpr ⟨hall, rfl⟩, ?_⟩
    refine bind_eq_ok.mpr ⟨cfg.endpoint, endpoint_eq_ok_iff.mpr haddr, ?_⟩
    refine bind_eq_ok.mpr ⟨cfg.channels, bounded_eq_ok_iff.mpr hc, ?_⟩
    exact bind_eq_ok.mpr ⟨cfg.rate, bounded_eq_ok_iff.mpr hr, rfl⟩

/-! ### Where the code differs -/

section Server

variable {server : String} {port : Option ℤ} {e : Endpoint}

/-- A host, and no port. -/
def BareHost (server : String) (port : Option ℤ) : Prop := ':' ∉ server.toList ∧ port = none

/-- A port, after a host with colons that opens a bracket and does not close it. -/
def OpenBracket (server : String) (port : Option ℤ) : Prop :=
  port = none ∧ ∃ front text n, server.toList = front ++ ':' :: text ∧ Numeral text n ∧
    1 ≤ n ∧ n ≤ 65535 ∧ front.head? = some '[' ∧ ':' ∈ front ∧ front.getLast? ≠ some ']'

theorem acceptedHost_of_documentedHost {host : List Char} (h : DocumentedHost host) :
    AcceptedHost host := h.imp id And.left

/-- Every server is a host, or can be cut at its last colon. -/
theorem colon_cases (server : String) :
    ':' ∉ server.toList ∨
      ∃ front text, server.toList = front ++ ':' :: text ∧ ':' ∉ text := by
  rcases hsplit : rsplitOnce ':' server.toList with _ | ⟨front, text⟩
  · exact Or.inl (Text.rsplitOnce_eq_none_iff.mp hsplit)
  · obtain ⟨htext, hserver⟩ := Text.rsplitOnce_eq_some_iff.mp hsplit
    exact Or.inr ⟨front, text, hserver, htext⟩

theorem documented_or_openBracket (h : Names AcceptedHost False server port e) :
    Names DocumentedHost True server port e ∨ OpenBracket server port := by
  rcases colon_cases server with hcolon | ⟨front, text, hserver, htext⟩
  · rw [names_iff_of_notMem hcolon] at h ⊢
    exact Or.inl (h.imp id fun hopt => hopt.1.elim)
  · rw [names_iff_of_split hserver htext] at h ⊢
    obtain ⟨rfl, hhost, p, hp, hnum, he⟩ := h
    by_cases hdoc : DocumentedHost front
    · exact Or.inl ⟨rfl, hdoc, p, hp, hnum, he⟩
    · obtain ⟨hcolon, hbracket⟩ := not_or.mp hdoc
      have hhead : front.head? = some '[' := hhost.resolve_left hcolon
      have hpos : p.toNat ≠ 0 := fun h0 => hp (UInt16.toNat_inj.mp h0)
      exact Or.inr ⟨rfl, front, text, p.toNat, hserver, hnum, Nat.one_le_iff_ne_zero.mpr hpos,
        Nat.le_of_lt_succ p.toNat_lt, hhead, not_not.mp hcolon,
        fun hlast => hbracket ⟨hhead, hlast⟩⟩

theorem accepted_or_bareHost (h : Names DocumentedHost True server port e) :
    Names AcceptedHost False server port e ∨ BareHost server port := by
  cases h with
  | keyed hhost hp => exact Or.inl (.keyed hhost hp)
  | embedded hserver hhost htext hp =>
    exact Or.inl (.embedded hserver (acceptedHost_of_documentedHost hhost) htext hp)
  | bare hhost => exact Or.inr ⟨hhost, rfl⟩

theorem OpenBracket.exists_accepted (h : OpenBracket server port) :
    ∃ e, Names AcceptedHost False server port e ∧ ¬Names DocumentedHost True server port e := by
  obtain ⟨rfl, front, text, n, hserver, hnum, hpos, hlt, hhead, hcolon, hlast⟩ := h
  have htext := colon_notMem hnum
  have hn : (UInt16.ofNat n).toNat = n := UInt16.toNat_ofNat_of_lt' (Nat.lt_succ_of_le hlt)
  refine ⟨.tcp (String.ofList front) (UInt16.ofNat n), ?_, fun hdoc => ?_⟩
  · refine (names_iff_of_split hserver htext).mpr ⟨rfl, Or.inr hhead, _, ?_, ?_, rfl⟩
    · intro h0
      rw [h0] at hn
      exact absurd hn (Nat.ne_of_lt hpos)
    · rw [hn]
      exact hnum
  · obtain ⟨-, hhost, -⟩ := (names_iff_of_split hserver htext).mp hdoc
    exact hhost.elim (fun h => h hcolon) fun h => hlast h.2

theorem BareHost.exists_documented (h : BareHost server port) :
    ∃ e, Names DocumentedHost True server port e ∧ ¬Names AcceptedHost False server port e := by
  obtain ⟨hhost, rfl⟩ := h
  refine ⟨.tcp server defaultTcpPort, .bare hhost trivial, fun hacc => ?_⟩
  rcases (names_iff_of_notMem hhost).mp hacc with ⟨p, -, hport, -⟩ | ⟨hopt, -⟩
  · cases hport
  · exact hopt

/-- Only where there is a server can there be a difference. -/
theorem Addressed.cases_server {Host : List Char → Prop} {optional : Prop}
    {socket server : Option String} (h : Addressed Host optional socket server port e) :
    (port = none ∧ ∀ Host' optional', Addressed Host' optional' socket server port e) ∨
      (socket = none ∧ ∃ s, server = some s ∧ Names Host optional s port e) := by
  cases h with
  | socket path => exact Or.inl ⟨rfl, fun _ _ => .socket path⟩
  | neither => exact Or.inl ⟨rfl, fun _ _ => .neither⟩
  | server h => exact Or.inr ⟨rfl, _, rfl, h⟩

end Server

/-- A `port` out of range, and after it one in range. -/
def Overridden (pairs : List (String × ConfValue)) (server : String) : Prop :=
  ':' ∉ server.toList ∧ (∃ p : UInt16, p ≠ 0 ∧ lastInt pairs "port" = some (p.toNat : ℤ)) ∧
    ∃ v, ("port", .int v) ∈ pairs ∧ ¬(0 ≤ v ∧ v ≤ 65535)

/-- **A list that is read otherwise than documented**: it has a server of one of three kinds, and
nothing else is wrong with it. -/
structure Misread (pairs : List (String × ConfValue)) : Prop where
  typed : ∀ p ∈ pairs, WellTyped p
  socket : lastStr pairs "socket" = none
  server : ∃ server, lastStr pairs "server" = some server ∧
    (BareHost server (lastInt pairs "port") ∨ OpenBracket server (lastInt pairs "port") ∨
      Overridden pairs server)
  channels : ∃ c, Within (lastInt pairs "channels") defaultChannels maxChannels c
  rate : ∃ r, Within (lastInt pairs "rate") defaultRate maxRate r

/-- **A list is read as documented**: it is accepted exactly if it is documented, with the
configuration that it is documented to stand for; and if it is, no other list with the same last
values is accepted with another. -/
def ReadAsDocumented (pairs : List (String × ConfValue)) : Prop :=
  (∀ cfg, configFromPairs pairs = .ok cfg ↔ Documented pairs cfg) ∧
    ∀ pairs' cfg cfg', (∀ key, lastValue pairs' key = lastValue pairs key) →
      configFromPairs pairs = .ok cfg → configFromPairs pairs' = .ok cfg' → cfg' = cfg

/-- **The result depends only on the last values.** -/
theorem configFromPairs_eq_of_lastValue {pairs' : List (String × ConfValue)}
    {cfg cfg' : BridgeConfig} (hlast : ∀ key, lastValue pairs' key = lastValue pairs key)
    (h : configFromPairs pairs = .ok cfg) (h' : configFromPairs pairs' = .ok cfg') :
    cfg' = cfg := by
  have hstr : ∀ key, lastStr pairs' key = lastStr pairs key := by
    intro key
    rw [lastStr, hlast]
    rfl
  have hint : ∀ key, lastInt pairs' key = lastInt pairs key := by
    intro key
    rw [lastInt, hlast]
    rfl
  obtain ⟨-, haddr, hc, hr⟩ := configFromPairs_eq_ok_iff.mp h
  rw [← hstr, ← hstr, ← hint] at haddr
  rw [← hint] at hc hr
  obtain ⟨hall, -⟩ := configFromPairs_eq_ok_iff.mp h'
  exact Except.ok.inj (h'.symm.trans (configFromPairs_eq_ok_iff.mpr ⟨hall, haddr, hc, hr⟩))

/-- In a well-typed list, a `port` anywhere means that there is a last one. -/
theorem exists_lastInt_port (htyped : ∀ p ∈ pairs, WellTyped p) {v : ℤ}
    (h : ("port", .int v) ∈ pairs) : ∃ w, lastInt pairs "port" = some w := by
  rcases hlast : lastValue pairs "port" with _ | value
  · exact absurd rfl (lastValue_eq_none_iff.mp hlast _ h)
  · cases value with
    | str s =>
      have hkey : "port" ∈ ignoredKeys ∨ "port" ∈ ["socket", "server"] :=
        htyped _ (mem_of_lastValue hlast)
      exact absurd hkey (by decide)
    | int w => exact ⟨w, by rw [lastInt, hlast]; rfl⟩

theorem Misread.not_readAsDocumented (h : Misread pairs) : ¬ReadAsDocumented pairs := by
  rintro ⟨hdoc, -⟩
  obtain ⟨server, hserver, hkind⟩ := h.server
  obtain ⟨c, hc⟩ := h.channels
  obtain ⟨r, hr⟩ := h.rate
  -- a documented address is accepted, and an accepted one documented
  have hiff : ∀ e, (∀ p ∈ pairs, Readable p) ∧
      Names AcceptedHost False server (lastInt pairs "port") e ↔
        Names DocumentedHost True server (lastInt pairs "port") e := by
    intro e
    have hcfg := hdoc ⟨e, c, r⟩
    rw [configFromPairs_eq_ok_iff, h.socket, hserver] at hcfg
    constructor
    · rintro ⟨hall, hn⟩
      have haddr := (hcfg.mp ⟨hall, .server hn, hc, hr⟩).endpoint
      rw [h.socket, hserver] at haddr
      cases haddr with
      | server hn => exact hn
    · intro hn
      have haddr : Addressed DocumentedHost True (lastStr pairs "socket") (lastStr pairs "server")
          (lastInt pairs "port") e := by
        rw [h.socket, hserver]
        exact .server hn
      obtain ⟨hall, haddr, -⟩ := hcfg.mpr ⟨h.typed, haddr, hc, hr⟩
      cases haddr with
      | server hn => exact ⟨hall, hn⟩
  rcases hkind with hbare | hopen | ⟨hhost, ⟨p, hp, hport⟩, v, hmem, hbad⟩
  · obtain ⟨e, hd, hna⟩ := hbare.exists_documented
    exact hna ((hiff e).mpr hd).2
  · obtain ⟨e, ha, hnd⟩ := hopen.exists_accepted
    refine hnd ((hiff e).mp ⟨fun p hp => ⟨h.typed p hp, fun v hv => ?_⟩, ha⟩)
    obtain ⟨w, hw⟩ := exists_lastInt_port h.typed (hv ▸ hp)
    exact absurd (hw.symm.trans hopen.1) (by simp)
  · have hd : Names DocumentedHost True server (lastInt pairs "port") (.tcp server p) := by
      rw [hport]
      exact .keyed hhost hp
    exact hbad (((hiff _).mpr hd).1 _ hmem |>.2 v rfl)

theorem documented_of_accepted (hno : ¬Misread pairs) {cfg : BridgeConfig}
    (h : configFromPairs pairs = .ok cfg) : Documented pairs cfg := by
  obtain ⟨hall, haddr, hc, hr⟩ := configFromPairs_eq_ok_iff.mp h
  have htyped : ∀ p ∈ pairs, WellTyped p := fun p hp => (hall p hp).1
  refine ⟨htyped, ?_, hc, hr⟩
  rcases haddr.cases_server with ⟨-, hsame⟩ | ⟨hsocket, server, hserver, hn⟩
  · exact hsame _ _
  · rcases documented_or_openBracket hn with hd | hopen
    · rw [hsocket, hserver]
      exact .server hd
    · exact absurd ⟨htyped, hsocket, ⟨server, hserver, Or.inr (Or.inl hopen)⟩, ⟨_, hc⟩, _, hr⟩ hno

theorem accepted_of_documented (hno : ¬Misread pairs) {cfg : BridgeConfig}
    (h : Documented pairs cfg) : configFromPairs pairs = .ok cfg := by
  refine configFromPairs_eq_ok_iff.mpr ⟨fun p hp => ⟨h.typed p hp, ?_⟩, ?_, h.channels, h.rate⟩
  · -- a port out of range would have been overridden
    rintro v rfl
    by_contra hbad
    obtain ⟨w, hw⟩ := exists_lastInt_port h.typed hp
    rcases h.endpoint.cases_server with ⟨hport, -⟩ | ⟨hsocket, server, hserver, hn⟩
    · rw [hport] at hw
      cases hw
    · rw [hw] at hn
      generalize cfg.endpoint = e at hn
      cases hn with
      | keyed hhost hne =>
        exact hno ⟨h.typed, hsocket, ⟨server, hserver,
          Or.inr (Or.inr ⟨hhost, ⟨_, hne, hw⟩, v, hp, hbad⟩)⟩, ⟨_, h.channels⟩, _, h.rate⟩
  · rcases h.endpoint.cases_server with ⟨-, hsame⟩ | ⟨hsocket, server, hserver, hn⟩
    · exact hsame _ _
    · rcases accepted_or_bareHost hn with ha | hbare
      · rw [hsocket, hserver]
        exact .server ha
      · exact absurd ⟨h.typed, hsocket, ⟨server, hserver, Or.inl hbare⟩, ⟨_, h.channels⟩, _, h.rate⟩
          hno

/-- **A list of pairs is read as documented if and only if it is not of one of three kinds**: a host
without a port, a port after a host whose bracket is not closed, a port out of range that is
overridden. -/
theorem configFromPairs_documented_iff (pairs : List (String × ConfValue)) :
    ReadAsDocumented pairs ↔ ¬Misread pairs := by
  refine ⟨fun h hmis => hmis.not_readAsDocumented h, fun hno => ⟨fun cfg => ⟨?_, ?_⟩, ?_⟩⟩
  · exact documented_of_accepted hno
  · exact accepted_of_documented hno
  · intro pairs' cfg cfg' hlast h h'
    exact configFromPairs_eq_of_lastValue hlast h h'

/-- **The three kinds**: a host alone is refused, an address without its closing bracket is taken
for another host, and a port out of range is not overridden. -/
theorem configFromPairs_misreads :
    configFromPairs [("server", .str "10.0.0.4")] = .error (.invalid "port must be >= 1") ∧
      Documented [("server", .str "10.0.0.4")] ⟨.tcp "10.0.0.4" 9001, 2, 48000⟩ ∧
      configFromPairs [("server", .str "[::1")] = .ok ⟨.tcp "[:" 1, 2, 48000⟩ ∧
      (∀ cfg, ¬Documented [("server", .str "[::1")] cfg) ∧
      configFromPairs [("server", .str "h"), ("port", .int 70000), ("port", .int 9001)] =
        .error (.invalid "port out of range") ∧
      Documented [("server", .str "h"), ("port", .int 70000), ("port", .int 9001)]
        ⟨.tcp "h" 9001, 2, 48000⟩ := by
  have hchannels : Within none defaultChannels maxChannels 2 := by decide
  have hrate : Within none defaultRate maxRate 48000 := by decide
  refine ⟨rfl, ⟨by decide, ?_, hchannels, hrate⟩, rfl, fun cfg h => ?_, rfl,
    ⟨by decide, ?_, hchannels, hrate⟩⟩
  · exact .server (.bare (by decide +kernel) trivial)
  · have hserver : "[::1".toList = ['[', ':'] ++ ':' :: ['1'] := rfl
    have haddr : Addressed DocumentedHost True none (some "[::1") none cfg.endpoint := h.endpoint
    generalize cfg.endpoint = e at haddr
    cases haddr with
    | server hn =>
      obtain ⟨-, hhost, -⟩ := (names_iff_of_split hserver (by decide)).mp hn
      exact absurd hhost (by decide)
  · exact .server (.keyed (p := 9001) (by decide +kernel) (by decide))

end GwAlsaPlugin

end SonicBrew
