import SonicBrew.GwPulse.Tags

/-!
# Sequences of fields

What the writer makes of a field, and what the reader makes of that. A field keeps to the limits
of the protocol (`SonicBrew.GwPulse.Field.Fits`) when no text holds a zero byte where it is ended
by one, and nothing is longer than it may be. Such a field is read back from what was written for
it and from nothing else (`SonicBrew.GwPulse.Field.yields_read`), and so is every sequence of
them. The other way round, the reader returns no field that does not keep to the limits, whatever
is in its buffer (`SonicBrew.GwPulse.Kind.fits_of_read`).
-/

namespace SonicBrew

namespace GwPulse

open Format (be32 ofBe32 be64 ofBe64)

namespace TagReader

/-! ### What each reader yields -/

open Reading (Yields)

theorem yields_take {n : ℕ} {b : Bytes} (hn : b.length = n) : Yields (take n) b b := by
  intro r rest hr
  subst hn
  change r.buf.drop r.pos = b ++ rest at hr
  have hlen := congrArg List.length hr
  rw [List.length_drop, List.length_append] at hlen
  have hfits : ¬r.buf.length < r.pos + b.length := by
    have := r.pos_le
    omega
  rw [take, if_neg hfits, hr, List.take_left]
  rfl

theorem yields_takeByte (byte : UInt8) : Yields takeByte [byte] byte :=
  (yields_take rfl).map fun bytes => bytes.headD 0

theorem yields_expectTag (tag : UInt8) : Yields (expectTag tag) [tag] () := by
  refine (yields_takeByte tag).bind_nil ?_
  rw [if_neg (not_not_intro rfl)]
  exact Reading.yields_pure ()

/-- A tag and the four bytes of a number: `read_u32` and `read_volume`. -/
theorem yields_word (tag : UInt8) (value : UInt32) :
    Yields (expectTag tag >>= fun _ => take 4 >>= fun bytes => pure (ofBe32 bytes))
      (tag :: be32 value) value := by
  have hword := (yields_take (Format.length_be32 value)).map ofBe32
  rw [Format.ofBe32_be32] at hword
  exact (yields_expectTag tag).bind hword

theorem yields_readU32 (value : UInt32) : Yields readU32 (tagU32 :: be32 value) value :=
  yields_word tagU32 value

theorem yields_readU64 (value : UInt64) : Yields readU64 (tagU64 :: be64 value) value := by
  have hword := (yields_take (Format.length_be64 value)).map ofBe64
  rw [Format.ofBe64_be64] at hword
  exact (yields_expectTag tagU64).bind hword

theorem yields_readBoolean (value : Bool) :
    Yields readBoolean [if value then tagBooleanTrue else tagBooleanFalse] value := by
  cases value with
  | true => exact (yields_takeByte tagBooleanTrue).bind (Reading.yields_pure true)
  | false => exact (yields_takeByte tagBooleanFalse).bind (Reading.yields_pure false)

/-- Texts that a zero byte can end. -/
def NulFree (s : String) : Prop := 0 ∉ utf8 s

instance (s : String) : Decidable (NulFree s) := inferInstanceAs (Decidable (0 ∉ utf8 s))

/-- A text up to its zero byte: the first one, since there is none in the text. -/
theorem yields_scanString {s : String} (hnul : NulFree s) (hlen : (utf8 s).length ≤ maxLen) :
    Yields scanString (utf8 s ++ [0]) s := by
  intro r rest hr
  change r.buf.drop r.pos = utf8 s ++ [0] ++ rest at hr
  have hfind : (utf8 s ++ [0] ++ rest).findIdx? (· = 0) = some (utf8 s).length := by
    rw [List.findIdx?_eq_some_iff_getElem]
    refine ⟨by simp, by simp, fun j hj => ?_⟩
    rw [List.getElem_append_left (by simp; omega), List.getElem_append_left hj]
    have hne : (utf8 s)[j] ≠ 0 := fun h => hnul (h ▸ List.getElem_mem hj)
    simpa using hne
  have htake : (utf8 s ++ [0] ++ rest).take (utf8 s).length = utf8 s := by
    rw [List.append_assoc, List.take_left]
  simp only [scanString, hr, hfind]
  rw [if_neg (not_lt.mpr hlen), htake, fromUtf8_utf8, List.length_append]
  rfl

theorem yields_readString {s : String} (hnul : NulFree s) (hlen : (utf8 s).length ≤ maxLen) :
    Yields readString (tagString :: (utf8 s ++ [0])) (some s) :=
  (yields_takeByte tagString).bind ((yields_scanString hnul hlen).map some)

theorem yields_readString_null : Yields readString [tagStringNull] none :=
  (yields_takeByte tagStringNull).bind (Reading.yields_pure none)

theorem toNat_ofNat_of_le {n : ℕ} (h : n ≤ maxLen) : (UInt32.ofNat n).toNat = n := by
  rw [UInt32.toNat_ofNat', Nat.mod_eq_of_lt (lt_of_le_of_lt h maxLen_lt)]

theorem yields_readArbitrary {data : Bytes} (hlen : data.length ≤ maxLen) :
    Yields readArbitrary (tagArbitrary :: (be32 (UInt32.ofNat data.length) ++ data)) data := by
  refine (yields_expectTag tagArbitrary).bind ((yields_take (Format.length_be32 _)).bind ?_)
  simp only [Format.ofBe32_be32, toNat_ofNat_of_le hlen, if_neg (not_lt.mpr hlen)]
  exact yields_take rfl

/-- The bytes of a property's value. -/
def valueBytes (value : String) : Bytes :=
  (tagU32 :: be32 (UInt32.ofNat (utf8 value).length)) ++
    (tagArbitrary :: (be32 (UInt32.ofNat (utf8 value).length) ++ utf8 value))

theorem yields_readValue {value : String} (hlen : (utf8 value).length ≤ maxLen) :
    Yields readValue (valueBytes value) value := by
  refine (yields_readU32 _).bind ?_
  rw [toNat_ofNat_of_le hlen, if_neg (not_lt.mpr hlen)]
  refine (yields_readArbitrary hlen).bind_nil ?_
  rw [if_neg (not_not_intro rfl), fromUtf8_utf8]
  exact Reading.yields_pure value

/-- The bytes of a property. -/
def propertyBytes (property : String × String) : Bytes :=
  (tagString :: (utf8 property.1 ++ [0])) ++ valueBytes property.2

/-- A property keeps to the limits: its key is a text of its own, its value any text. -/
def PropertyFits (property : String × String) : Prop :=
  NulFree property.1 ∧ (utf8 property.1).length ≤ maxLen ∧ (utf8 property.2).length ≤ maxLen

instance (property : String × String) : Decidable (PropertyFits property) :=
  inferInstanceAs (Decidable (_ ∧ _))

theorem peekByte_of_ahead {r : TagReader} {byte : UInt8} {rest : Bytes}
    (hr : Input.ahead r = byte :: rest) : peekByte r = (.ok byte, r) := by
  have hget : r.buf[r.pos]? = some byte := by
    rw [← List.head?_drop]
    exact congrArg List.head? hr
  rw [peekByte, hget]

theorem yields_readProperty {property : String × String} (h : PropertyFits property) :
    Yields readProperty (propertyBytes property) (some property) := by
  intro r rest hr
  have hread := (yields_readString h.1 h.2.1).bind
    (f := fun key => readValue >>= fun value => pure (some (key.getD "", value)))
    ((yields_readValue h.2.2).map fun value => some (property.1, value)) r rest hr
  exact (Reading.bind_of_ok (peekByte_of_ahead hr) _).trans hread

theorem yields_readProperty_end : Yields readProperty [tagStringNull] none := by
  intro r rest hr
  have hread := (yields_take (b := [tagStringNull]) rfl).map
    (fun _ => (none : Option (String × String))) r rest hr
  exact (Reading.bind_of_ok (peekByte_of_ahead hr) _).trans hread

theorem readProperties_of_none {r r' : TagReader} (h : readProperty r = (.ok none, r')) :
    readProperties r = (.ok [], r') := by
  rw [readProperties]
  split <;> rename_i heq <;> rw [h] at heq <;> cases heq
  rfl

theorem readProperties_of_some {r r' r'' : TagReader} {property : String × String}
    {properties : List (String × String)} (h : readProperty r = (.ok (some property), r'))
    (h' : readProperties r' = (.ok properties, r'')) :
    readProperties r = (.ok (property :: properties), r'') := by
  rw [readProperties]
  split <;> rename_i heq <;> rw [h] at heq <;> cases heq
  rw [h']

/-- **The loop reads every property and stops behind the last.** -/
theorem yields_readProperties {pairs : List (String × String)}
    (h : ∀ property ∈ pairs, PropertyFits property) :
    Yields readProperties (pairs.flatMap propertyBytes ++ [tagStringNull]) pairs := by
  induction pairs with
  | nil => exact fun r rest hr => readProperties_of_none (yields_readProperty_end r rest hr)
  | cons property pairs ih =>
    intro r rest hr
    rw [List.flatMap_cons, List.append_assoc] at hr ⊢
    rw [List.append_assoc] at hr
    have hfirst := yields_readProperty (h property List.mem_cons_self) r _ hr
    have hahead : Input.ahead (Input.advance (propertyBytes property).length r) =
        pairs.flatMap propertyBytes ++ [tagStringNull] ++ rest := by
      rw [Input.ahead_advance, hr, List.drop_left, List.append_assoc]
    have hrest := ih (fun q hq => h q (List.mem_cons_of_mem property hq)) _ rest hahead
    rw [Input.advance_advance, ← List.length_append] at hrest
    exact readProperties_of_some hfirst hrest

theorem yields_readProplist {pairs : List (String × String)}
    (h : ∀ property ∈ pairs, PropertyFits property) :
    Yields readProplist (tagProplist :: (pairs.flatMap propertyBytes ++ [tagStringNull])) pairs :=
  (yields_expectTag tagProplist).bind (yields_readProperties h)

theorem yields_readSampleSpec (sampleRate : UInt32) (channels format : UInt8) :
    Yields readSampleSpec (tagSampleSpec :: format :: channels :: be32 sampleRate)
      (sampleRate, channels, format) := by
  have hspec := (yields_take (b := format :: channels :: be32 sampleRate) (n := 6) rfl).map
    fun bytes => (ofBe32 (bytes.drop 2), bytes.getD 1 0, bytes.getD 0 0)
  have hrate : ofBe32 ((format :: channels :: be32 sampleRate).drop 2) = sampleRate :=
    Format.ofBe32_be32 sampleRate
  rw [hrate] at hspec
  exact (yields_expectTag tagSampleSpec).bind hspec

theorem toNat_ofNat_of_lt_256 {n : ℕ} (h : n < 256) : (UInt8.ofNat n).toNat = n := by
  rw [UInt8.toNat_ofNat', Nat.mod_eq_of_lt h]

theorem yields_readChannelMap {positions : Bytes} (h : positions.length < 256) :
    Yields readChannelMap (tagChannelMap :: UInt8.ofNat positions.length :: positions)
      positions := by
  refine (yields_expectTag tagChannelMap).bind ((yields_takeByte _).bind ?_)
  rw [toNat_ofNat_of_lt_256 h]
  exact yields_take rfl

theorem yields_readVolume (value : UInt32) : Yields readVolume (tagVolume :: be32 value) value :=
  yields_word tagVolume value

theorem yields_readCvolume {volumes : List UInt32} (h : volumes.length < 256) :
    Yields readCvolume (tagCvolume :: UInt8.ofNat volumes.length :: volumes.flatMap be32)
      volumes := by
  refine (yields_expectTag tagCvolume).bind ((yields_takeByte _).bind ?_)
  have hmax : ¬maxLen < volumes.length := by
    have : 256 ≤ maxLen := by decide
    omega
  simp only [toNat_ofNat_of_lt_256 h, if_neg hmax]
  have hblock : (volumes.flatMap be32).length = volumes.length * 4 :=
    length_flatMap_of_forall Format.length_be32 volumes
  have hwords := (yields_take hblock).map fun bytes => (blocks 4 volumes.length bytes).map ofBe32
  rwa [map_blocks_flatMap Format.length_be32 Format.ofBe32_be32] at hwords

/-! ### What each reader returns -/

theorem length_of_take {n : ℕ} {r r' : TagReader} {b : Bytes} (h : take n r = (.ok b, r')) :
    b.length = n := by
  rw [take] at h
  split at h
  · cases h
  · obtain ⟨hb, -⟩ := Prod.mk.inj h
    obtain rfl := Except.ok.inj hb
    rw [List.length_take, List.length_drop]
    omega

theorem scanString_eq_ok {r r' : TagReader} {s : String} (h : scanString r = (.ok s, r')) :
    NulFree s ∧ (utf8 s).length ≤ maxLen := by
  simp only [scanString] at h
  split at h
  · cases h
  · rename_i nul hfind
    split at h
    · cases h
    · split at h
      · cases h
      · rename_i hlen _ t hutf8
        obtain ⟨ht, -⟩ := Prod.mk.inj h
        obtain rfl := Except.ok.inj ht
        have hbytes := utf8_of_fromUtf8 hutf8
        obtain ⟨hnul, -, hbefore⟩ := List.findIdx?_eq_some_iff_getElem.mp hfind
        refine ⟨fun hzero => ?_, ?_⟩
        · -- a zero byte in the text would come before the one that was found
          rw [hbytes] at hzero
          obtain ⟨j, hj, hget⟩ := List.mem_iff_getElem.mp hzero
          rw [List.length_take] at hj
          rw [List.getElem_take] at hget
          exact hbefore j (by omega) (by simpa using hget)
        · rw [hbytes, List.length_take]
          omega

theorem readString_eq_some {r r' : TagReader} {s : String}
    (h : readString r = (.ok (some s), r')) : NulFree s ∧ (utf8 s).length ≤ maxLen := by
  obtain ⟨byte, r₁, -, hbranch⟩ := Reading.bind_eq_ok h
  split at hbranch
  · cases hbranch
  · split at hbranch
    · obtain ⟨t, hscan, hsome⟩ := Reading.map_eq_ok hbranch
      obtain rfl := Option.some.inj hsome
      exact scanString_eq_ok hscan
    · cases hbranch

theorem length_of_readArbitrary {r r' : TagReader} {data : Bytes}
    (h : readArbitrary r = (.ok data, r')) : data.length ≤ maxLen := by
  obtain ⟨_, r₁, -, h₁⟩ := Reading.bind_eq_ok h
  obtain ⟨lenBytes, r₂, -, h₂⟩ := Reading.bind_eq_ok h₁
  dsimp only at h₂
  split at h₂
  · cases h₂
  · rw [length_of_take h₂]
    omega

theorem length_of_readValue {r r' : TagReader} {value : String}
    (h : readValue r = (.ok value, r')) : (utf8 value).length ≤ maxLen := by
  obtain ⟨len, r₁, -, h₁⟩ := Reading.bind_eq_ok h
  split at h₁
  · cases h₁
  · obtain ⟨blob, r₂, hblob, h₂⟩ := Reading.bind_eq_ok h₁
    split at h₂
    · cases h₂
    · rcases hutf8 : fromUtf8 blob with _ | t
      · rw [hutf8] at h₂
        cases h₂
      · rw [hutf8] at h₂
        cases h₂
        rw [utf8_of_fromUtf8 hutf8]
        exact length_of_readArbitrary hblob

theorem fits_of_readProperty {r r' : TagReader} {property : String × String}
    (h : readProperty r = (.ok (some property), r')) : PropertyFits property := by
  obtain ⟨byte, r₀, -, hbranch⟩ := Reading.bind_eq_ok h
  split at hbranch
  · obtain ⟨key, r₁, hkey, hrest⟩ := Reading.bind_eq_ok hbranch
    obtain ⟨value, hvalue, hsome⟩ := Reading.map_eq_ok hrest
    obtain rfl := Option.some.inj hsome
    have hlen := length_of_readValue hvalue
    cases key with
    | none =>
      have hempty : NulFree "" ∧ (utf8 "").length ≤ maxLen := by decide
      exact ⟨hempty.1, hempty.2, hlen⟩
    | some key => exact ⟨(readString_eq_some hkey).1, (readString_eq_some hkey).2, hlen⟩
  · split at hbranch
    · obtain ⟨_, -, hnone⟩ := Reading.map_eq_ok hbranch
      cases hnone
    · cases hbranch

/-- A list of properties that is not empty was read one after the other. -/
theorem readProperties_eq_cons {r r' : TagReader} {property : String × String}
    {properties : List (String × String)}
    (h : readProperties r = (.ok (property :: properties), r')) :
    ∃ r₁, readProperty r = (.ok (some property), r₁) ∧
      readProperties r₁ = (.ok properties, r') := by
  rw [readProperties] at h
  split at h
  · cases h
  · cases h
  · rename_i hproperty
    split at h
    · cases h
    · rename_i hrest
      cases h
      exact ⟨_, hproperty, hrest⟩

theorem fits_of_readProperties {r r' : TagReader} {pairs : List (String × String)}
    (h : readProperties r = (.ok pairs, r')) : ∀ property ∈ pairs, PropertyFits property := by
  induction pairs generalizing r with
  | nil => exact fun _ hmem => absurd hmem List.not_mem_nil
  | cons property pairs ih =>
    obtain ⟨r₁, hproperty, hrest⟩ := readProperties_eq_cons h
    rintro q (_ | ⟨_, hmem⟩)
    · exact fits_of_readProperty hproperty
    · exact ih hrest q hmem

end TagReader

/-! ### Sequences of fields -/

/-- A field with its value. -/
inductive Field where
  | u8 (value : UInt8)
  | u32 (value : UInt32)
  | u64 (value : UInt64)
  | boolean (value : Bool)
  | string (value : String)
  | stringNull
  | arbitrary (data : Bytes)
  | proplist (pairs : List (String × String))
  | sampleSpec (sampleRate : UInt32) (channels format : UInt8)
  | channelMap (positions : Bytes)
  | volume (value : UInt32)
  | cvolume (volumes : List UInt32)
  deriving DecidableEq, Repr

/-- What a reader has to know of a field beforehand. A text that is there and one that is absent
are read by the same call. -/
inductive Kind where
  | u8 | u32 | u64 | boolean | string | arbitrary | proplist | sampleSpec | channelMap | volume
  | cvolume
  deriving DecidableEq, Repr

/-- The matching call of the reader. -/
def Kind.read : Kind → Reading TagReader PulseError Field
  | .u8 => do return .u8 (← TagReader.readU8)
  | .u32 => do return .u32 (← TagReader.readU32)
  | .u64 => do return .u64 (← TagReader.readU64)
  | .boolean => do return .boolean (← TagReader.readBoolean)
  | .string => do return (← TagReader.readString).elim .stringNull .string
  | .arbitrary => do return .arbitrary (← TagReader.readArbitrary)
  | .proplist => do return .proplist (← TagReader.readProplist)
  | .sampleSpec => do
      let spec ← TagReader.readSampleSpec
      return .sampleSpec spec.1 spec.2.1 spec.2.2
  | .channelMap => do return .channelMap (← TagReader.readChannelMap)
  | .volume => do return .volume (← TagReader.readVolume)
  | .cvolume => do return .cvolume (← TagReader.readCvolume)

/-- Read fields of these kinds, one after the other. -/
def readAll (kinds : List Kind) : Reading TagReader PulseError (List Field) :=
  Reading.sequence (kinds.map Kind.read)

namespace Field

def kind : Field → Kind
  | .u8 _ => .u8
  | .u32 _ => .u32
  | .u64 _ => .u64
  | .boolean _ => .boolean
  | .string _ | .stringNull => .string
  | .arbitrary _ => .arbitrary
  | .proplist _ => .proplist
  | .sampleSpec _ _ _ => .sampleSpec
  | .channelMap _ => .channelMap
  | .volume _ => .volume
  | .cvolume _ => .cvolume

/-- The call of the writer. -/
def write (w : TagWriter) : Field → Option TagWriter
  | .u8 value => w.u8 value
  | .u32 value => w.u32 value
  | .u64 value => w.u64 value
  | .boolean value => w.boolean value
  | .string value => w.string value
  | .stringNull => w.stringNull
  | .arbitrary data => w.arbitrary data
  | .proplist pairs => w.proplist pairs
  | .sampleSpec sampleRate channels format => w.sampleSpec sampleRate channels format
  | .channelMap positions => w.channelMap positions
  | .volume value => w.volume value
  | .cvolume volumes => w.cvolume volumes

/-- The field keeps to the limits of the protocol: no text holds a zero byte where it is ended by
one, no text and no blob is longer than `MAX_LEN`, and there are at most 255 channels. -/
def Fits : Field → Prop
  | .string value => TagReader.NulFree value ∧ (utf8 value).length ≤ maxLen
  | .arbitrary data => data.length ≤ maxLen
  | .proplist pairs => ∀ property ∈ pairs, TagReader.PropertyFits property
  | .channelMap positions => positions.length ≤ 255
  | .cvolume volumes => volumes.length ≤ 255
  | _ => True

/-- The bytes of a field that keeps to the limits. -/
def bytes : Field → Bytes
  | .u8 value => [tagU8, value]
  | .u32 value => tagU32 :: be32 value
  | .u64 value => tagU64 :: be64 value
  | .boolean value => [if value then tagBooleanTrue else tagBooleanFalse]
  | .string value => tagString :: (utf8 value ++ [0])
  | .stringNull => [tagStringNull]
  | .arbitrary data => tagArbitrary :: (be32 (UInt32.ofNat data.length) ++ data)
  | .proplist pairs =>
      tagProplist :: (pairs.flatMap TagReader.propertyBytes ++ [tagStringNull])
  | .sampleSpec sampleRate channels format =>
      tagSampleSpec :: format :: channels :: be32 sampleRate
  | .channelMap positions => tagChannelMap :: UInt8.ofNat positions.length :: positions
  | .volume value => tagVolume :: be32 value
  | .cvolume volumes => tagCvolume :: UInt8.ofNat volumes.length :: volumes.flatMap be32

instance : DecidablePred Fits
  | .string _ => inferInstanceAs (Decidable (_ ∧ _))
  | .arbitrary _ => Nat.decLe _ _
  | .proplist pairs => inferInstanceAs (Decidable (∀ property ∈ pairs, _))
  | .channelMap _ => Nat.decLe _ _
  | .cvolume _ => Nat.decLe _ _
  | .u8 _ | .u32 _ | .u64 _ | .boolean _ | .stringNull | .sampleSpec _ _ _ | .volume _ =>
      .isTrue trivial

open TagReader in
theorem properties_of_fits (w : TagWriter) {pairs : List (String × String)}
    (h : ∀ property ∈ pairs, PropertyFits property) :
    w.properties pairs = some (w.push (pairs.flatMap propertyBytes)) := by
  induction pairs generalizing w with
  | nil => exact congrArg some w.push_nil.symm
  | cons property pairs ih =>
    obtain ⟨key, value⟩ := property
    have hvalue : (utf8 value).length < 2 ^ 32 :=
      lt_of_le_of_lt (h _ List.mem_cons_self).2.2 maxLen_lt
    have hrest := ih (w.push (propertyBytes (key, value)))
      fun q hq => h q (List.mem_cons_of_mem _ hq)
    rw [TagWriter.push_push] at hrest
    rw [TagWriter.properties, if_pos hvalue, List.flatMap_cons, ← hrest]
    simp only [TagWriter.arbitrary, if_pos hvalue, TagWriter.string, TagWriter.u32,
      TagWriter.push_push, Option.bind_eq_bind, Option.bind_some]
    rw [propertyBytes, valueBytes, List.append_assoc]

/-- A field that keeps to the limits makes no panic. -/
theorem write_of_fits (w : TagWriter) {f : Field} (h : f.Fits) :
    f.write w = some (w.push f.bytes) := by
  cases f with
  | arbitrary data => exact if_pos (lt_of_le_of_lt h maxLen_lt)
  | proplist pairs =>
    change (w.push [tagProplist]).properties pairs >>= (fun w => some w.stringNull) = _
    rw [properties_of_fits _ h]
    exact congrArg some ((TagWriter.push_push _ _ _).trans (TagWriter.push_push _ _ _))
  | channelMap positions => exact if_pos (Nat.lt_succ_of_le h)
  | cvolume volumes => exact if_pos (Nat.lt_succ_of_le h)
  | _ => rfl

/-- **A field is read back from its own bytes.** -/
theorem yields_read {f : Field} (h : f.Fits) : Reading.Yields f.kind.read f.bytes f := by
  cases f with
  | u8 value =>
    have hu8 : Reading.Yields TagReader.readU8 [tagU8, value] value :=
      (TagReader.yields_expectTag tagU8).bind (TagReader.yields_takeByte value)
    exact hu8.map Field.u8
  | u32 value => exact (TagReader.yields_readU32 value).map Field.u32
  | u64 value => exact (TagReader.yields_readU64 value).map Field.u64
  | boolean value => exact (TagReader.yields_readBoolean value).map Field.boolean
  | string value =>
    exact (TagReader.yields_readString h.1 h.2).map fun s => s.elim stringNull string
  | stringNull => exact TagReader.yields_readString_null.map fun s => s.elim stringNull string
  | arbitrary data => exact (TagReader.yields_readArbitrary h).map Field.arbitrary
  | proplist pairs => exact (TagReader.yields_readProplist h).map Field.proplist
  | sampleSpec sampleRate channels format =>
    exact (TagReader.yields_readSampleSpec sampleRate channels format).map fun spec =>
      sampleSpec spec.1 spec.2.1 spec.2.2
  | channelMap positions =>
    exact (TagReader.yields_readChannelMap (Nat.lt_succ_of_le h)).map Field.channelMap
  | volume value => exact (TagReader.yields_readVolume value).map Field.volume
  | cvolume volumes => exact (TagReader.yields_readCvolume (Nat.lt_succ_of_le h)).map Field.cvolume

end Field

/-- **The reader returns nothing that does not keep to the limits.** -/
theorem Kind.fits_of_read {k : Kind} {f : Field} {r r' : TagReader}
    (h : k.read r = (.ok f, r')) : f.Fits := by
  cases k with
  | string =>
    obtain ⟨s, hread, rfl⟩ := Reading.map_eq_ok h
    cases s with
    | none => trivial
    | some s => exact TagReader.readString_eq_some hread
  | arbitrary =>
    obtain ⟨data, hread, rfl⟩ := Reading.map_eq_ok h
    exact TagReader.length_of_readArbitrary hread
  | proplist =>
    obtain ⟨pairs, hread, rfl⟩ := Reading.map_eq_ok h
    obtain ⟨_, r₂, -, hproperties⟩ := Reading.bind_eq_ok hread
    exact TagReader.fits_of_readProperties hproperties
  | channelMap =>
    obtain ⟨positions, hread, rfl⟩ := Reading.map_eq_ok h
    obtain ⟨_, r₂, -, hcount⟩ := Reading.bind_eq_ok hread
    obtain ⟨count, r₃, -, htake⟩ := Reading.bind_eq_ok hcount
    have hlen := TagReader.length_of_take htake
    have hlt : count.toNat < 256 := count.toNat_lt
    change positions.length ≤ 255
    omega
  | cvolume =>
    obtain ⟨volumes, hread, rfl⟩ := Reading.map_eq_ok h
    obtain ⟨_, r₂, -, hcount⟩ := Reading.bind_eq_ok hread
    obtain ⟨count, r₃, -, hbranch⟩ := Reading.bind_eq_ok hcount
    dsimp only at hbranch
    split at hbranch
    · cases hbranch
    · obtain ⟨bytes, -, rfl⟩ := Reading.map_eq_ok hbranch
      have hlt : count.toNat < 256 := count.toNat_lt
      change (((List.range count.toNat).map _).map _).length ≤ 255
      rw [List.length_map, List.length_map, List.length_range]
      omega
  | _ =>
    -- the other fields have no limits
    obtain ⟨value, -, rfl⟩ := Reading.map_eq_ok h
    trivial

theorem fits_of_readAll {kinds : List Kind} {fields : List Field} {r r' : TagReader}
    (h : readAll kinds r = (.ok fields, r')) : ∀ f ∈ fields, f.Fits := by
  refine Reading.forall_of_sequence ?_ h
  rintro read hmem r f r' hread
  obtain ⟨k, -, rfl⟩ := List.mem_map.mp hmem
  exact Kind.fits_of_read hread

/-- Write fields, one after the other. -/
def writeAll (w : TagWriter) (fields : List Field) : Option TagWriter := fields.foldlM Field.write w

theorem writeAll_of_fits (w : TagWriter) {fields : List Field} (h : ∀ f ∈ fields, f.Fits) :
    writeAll w fields = some (w.push (fields.flatMap Field.bytes)) := by
  induction fields generalizing w with
  | nil => exact congrArg some w.push_nil.symm
  | cons f fields ih =>
    have hrest := ih (w.push f.bytes) fun g hg => h g (List.mem_cons_of_mem f hg)
    rw [TagWriter.push_push] at hrest
    rw [writeAll, List.foldlM_cons, Field.write_of_fits w (h f List.mem_cons_self),
      List.flatMap_cons]
    exact hrest

theorem yields_readAll {fields : List Field} (h : ∀ f ∈ fields, f.Fits) :
    Reading.Yields (readAll (fields.map Field.kind)) (fields.flatMap Field.bytes) fields := by
  have hyields := Reading.Yields.sequence fun f hf => Field.yields_read (h f hf)
  rwa [← Function.comp_def, ← List.map_map] at hyields

theorem readAll_bytes {fields : List Field} (h : ∀ f ∈ fields, f.Fits) :
    ∃ r, readAll (fields.map Field.kind) (.new (fields.flatMap Field.bytes)) = (.ok fields, r) ∧
      r.isEmpty = true := by
  refine ⟨_, yields_readAll h _ [] (List.append_nil _).symm, ?_⟩
  simp [TagReader.isEmpty, TagReader.remaining, Input.advance, TagReader.advance, TagReader.new]

/-- **Fields are read back as they were written**, whatever they are and in whatever order, and
nothing is left. -/
theorem readAll_writeAll (fields : List Field) (h : ∀ f ∈ fields, f.Fits) :
    ∃ w, writeAll .new fields = some w ∧
      ∃ r, readAll (fields.map Field.kind) (.new w.intoBytes) = (.ok fields, r) ∧
        r.isEmpty = true :=
  ⟨_, writeAll_of_fits .new h, readAll_bytes h⟩

theorem readAll_writeAll_message :
    let fields : List Field :=
      [.u8 7, .u32 0x10000, .u64 5, .boolean true, .boolean false, .string "", .string "sink",
        .stringNull, .arbitrary [0, 116, 0], .proplist [("media.name", "a\x00b"), ("", "")],
        .sampleSpec 48000 2 5, .channelMap [1, 2], .volume 9, .cvolume [0x10000, 0]]
    ∃ w, writeAll .new fields = some w ∧
      ∃ r, readAll (fields.map Field.kind) (.new w.intoBytes) = (.ok fields, r) ∧
        r.isEmpty = true :=
  readAll_writeAll _ (by decide)

end GwPulse

end SonicBrew
