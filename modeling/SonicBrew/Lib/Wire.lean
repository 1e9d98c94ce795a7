import Mathlib.Algebra.Order.Ring.Nat
import Mathlib.Data.List.Basic
import SonicBrew.Lib.Fallible

/-!
# Byte formats

Two notions of “this type travels through bytes”.

* A `SonicBrew.Codec` is what a program that stores values in a database
  relies on: a serializer, a deserializer that may fail, and the fact that the
  second undoes the first.
* A `SonicBrew.Format` says more: it reads a value off the *front* of a byte
  string and hands back what follows, so formats can be put one behind the other.
  Every format is a codec that ignores trailing bytes
  (`SonicBrew.Format.toCodec`).

The second half builds formats: fixed-width little-endian integers, options with a
one-byte tag, pairs, counted lists and images of other formats. Each of them carries
its own round trip, so a format assembled from them is correct by construction. Beside
them stand the plain conversions that hand-written protocols are made of: machine words in
either byte order, signed integers, and text in UTF-8.
-/

namespace SonicBrew

/-- A byte string. -/
abbrev Bytes : Type := List UInt8

/-- **A codec**: a serializer and a deserializer that undoes it. -/
structure Codec (α : Type) where
  /-- The bytes of a value. -/
  serialize : α → Bytes
  /-- The value of a byte string, or the text of a decoding error. -/
  deserialize : Bytes → Except String α
  /-- Reading back what was written. -/
  deserialize_serialize : ∀ a, deserialize (serialize a) = .ok a

theorem Codec.serialize_injective {α : Type} (codec : Codec α) :
    Function.Injective codec.serialize := by
  intro a b h
  have hab : codec.deserialize (codec.serialize a) = codec.deserialize (codec.serialize b) := by
    rw [h]
  rw [codec.deserialize_serialize, codec.deserialize_serialize] at hab
  exact Except.ok.inj hab

/-- **A format**: reads a value off the front of a byte string and returns the
rest. -/
structure Format (α : Type) where
  /-- The bytes of a value. -/
  put : α → Bytes
  /-- Read a value off the front. -/
  get : Bytes → Except String (α × Bytes)
  /-- Reading back what was written, whatever follows it. -/
  get_put : ∀ a rest, get (put a ++ rest) = .ok (a, rest)

namespace Format

variable {α β : Type}

/-- Decode the front of a byte string and ignore what follows. -/
def decode (f : Format α) (b : Bytes) : Except String α := (f.get b).map Prod.fst

theorem decode_put (f : Format α) (a : α) : f.decode (f.put a) = .ok a := by
  have h := f.get_put a []
  rw [List.append_nil] at h
  rw [decode, h]
  rfl

/-- A format is a codec that ignores trailing bytes. -/
def toCodec (f : Format α) : Codec α := ⟨f.put, f.decode, f.decode_put⟩

/-! ### Little-endian integers -/

/-- The `w` low bytes of a number, least significant first. -/
def leBytes : ℕ → ℕ → Bytes
  | 0, _ => []
  | w + 1, n => UInt8.ofNat n :: leBytes w (n / 256)

/-- The number a byte string spells, least significant byte first. -/
def leNat : Bytes → ℕ
  | [] => 0
  | b :: bs => b.toNat + 256 * leNat bs

@[simp] theorem length_leBytes (w n : ℕ) : (leBytes w n).length = w := by
  induction w generalizing n with
  | zero => rfl
  | succ w ih => simp [leBytes, ih]

/-- **Reading the low bytes of a number gives its remainder.** -/
theorem leNat_leBytes (w n : ℕ) : leNat (leBytes w n) = n % 256 ^ w := by
  induction w generalizing n with
  | zero => simp [leBytes, leNat, Nat.mod_one]
  | succ w ih =>
    have h256 : (2 : ℕ) ^ 8 = 256 := rfl
    rw [leBytes, leNat, ih, UInt8.toNat_ofNat', h256, pow_succ', Nat.mod_mul]

theorem leNat_lt (b : Bytes) : leNat b < 256 ^ b.length := by
  induction b with
  | nil => exact Nat.one_pos
  | cons x b ih =>
    have hx : x.toNat < 256 := x.toNat_lt
    rw [leNat, List.length_cons, pow_succ']
    omega

/-- Read a `w`-byte little-endian number off the front. -/
def getLe (w : ℕ) (b : Bytes) : Except String (ℕ × Bytes) :=
  if b.length < w then .error "io error: unexpected end of file"
  else .ok (leNat (b.take w), b.drop w)

theorem getLe_leBytes (w n : ℕ) (rest : Bytes) :
    getLe w (leBytes w n ++ rest) = .ok (n % 256 ^ w, rest) := by
  have hlen : (leBytes w n).length = w := length_leBytes w n
  rw [getLe, if_neg (by simp), List.take_left' hlen, List.drop_left' hlen, leNat_leBytes]

/-- **A byte string is the low bytes of the number it spells.** -/
theorem leBytes_leNat (b : Bytes) : leBytes b.length (leNat b) = b := by
  induction b with
  | nil => rfl
  | cons x b ih =>
    have hx : x.toNat < 256 := x.toNat_lt
    have hlow : UInt8.ofNat (x.toNat + 256 * leNat b) = x := by
      apply UInt8.toNat_inj.mp
      rw [UInt8.toNat_ofNat']
      omega
    have hhigh : (x.toNat + 256 * leNat b) / 256 = leNat b := by omega
    rw [List.length_cons, leNat, leBytes, hlow, hhigh, ih]

/-- Eight bytes, little-endian. -/
def u64 : Format UInt64 where
  put x := leBytes 8 x.toNat
  get b := (getLe 8 b).map fun r => (UInt64.ofNat r.1, r.2)
  get_put x rest := by
    have hx : x.toNat % 256 ^ 8 = x.toNat := Nat.mod_eq_of_lt x.toNat_lt
    rw [getLe_leBytes, hx]
    simp [Except.map]

/-- One byte. -/
def u8 : Format UInt8 where
  put x := [x]
  get
    | [] => .error "io error: unexpected end of file"
    | b :: bs => .ok (b, bs)
  get_put _ _ := rfl

/-! ### Big-endian integers -/

/-- The `w` low bytes of a number, most significant first. -/
def beBytes (w n : ℕ) : Bytes := (leBytes w n).reverse

/-- The number a byte string spells, most significant byte first. -/
def beNat (b : Bytes) : ℕ := leNat b.reverse

@[simp] theorem length_beBytes (w n : ℕ) : (beBytes w n).length = w := by
  rw [beBytes, List.length_reverse, length_leBytes]

theorem beNat_lt (b : Bytes) : beNat b < 256 ^ b.length := by
  have h := leNat_lt b.reverse
  rwa [List.length_reverse] at h

theorem beNat_beBytes (w n : ℕ) : beNat (beBytes w n) = n % 256 ^ w := by
  rw [beNat, beBytes, List.reverse_reverse, leNat_leBytes]

theorem beBytes_beNat (b : Bytes) : beBytes b.length (beNat b) = b := by
  have h := leBytes_leNat b.reverse
  rw [List.length_reverse] at h
  rw [beBytes, beNat, h, List.reverse_reverse]

/-! ### Signed integers -/

/-- The `w` low bytes of an integer in two's complement, most significant first. -/
def beInt (w : ℕ) (x : ℤ) : Bytes := beBytes w (x % (256 ^ w : ℕ)).toNat

/-- The integer a byte string spells in two's complement, most significant byte first. -/
def ofBeInt (b : Bytes) : ℤ := (beNat b : ℤ).bmod (256 ^ b.length)

@[simp] theorem length_beInt (w : ℕ) (x : ℤ) : (beInt w x).length = w := length_beBytes w _

/-- **An integer that `w` bytes can hold is read back**, whatever its sign. -/
theorem ofBeInt_beInt {w : ℕ} {x : ℤ} (hle : -(256 ^ w : ℕ) ≤ 2 * x)
    (hlt : 2 * x < (256 ^ w : ℕ)) : ofBeInt (beInt w x) = x := by
  have hpos : 0 < 256 ^ w := Nat.pow_pos (by decide)
  have hnonneg : 0 ≤ x % (256 ^ w : ℕ) := Int.emod_nonneg x (by omega)
  have hmod : x % (256 ^ w : ℕ) < (256 ^ w : ℕ) := Int.emod_lt_of_pos x (by omega)
  rw [ofBeInt, beInt, beNat_beBytes, length_beBytes, Nat.mod_eq_of_lt (by omega),
    Int.toNat_of_nonneg hnonneg, Int.emod_bmod]
  exact Int.bmod_eq_of_le (by omega) (by omega)

/-! ### Machine words -/

/-- The four bytes of a word, least significant first. -/
def le32 (x : UInt32) : Bytes := leBytes 4 x.toNat

def ofLe32 (b : Bytes) : UInt32 := UInt32.ofNat (leNat b)

/-- The four bytes of a word, most significant first. -/
def be32 (x : UInt32) : Bytes := beBytes 4 x.toNat

def ofBe32 (b : Bytes) : UInt32 := UInt32.ofNat (beNat b)

/-- The eight bytes of a word, most significant first. -/
def be64 (x : UInt64) : Bytes := beBytes 8 x.toNat

def ofBe64 (b : Bytes) : UInt64 := UInt64.ofNat (beNat b)

@[simp] theorem length_le32 (x : UInt32) : (le32 x).length = 4 := length_leBytes 4 _

@[simp] theorem length_be32 (x : UInt32) : (be32 x).length = 4 := length_beBytes 4 _

@[simp] theorem length_be64 (x : UInt64) : (be64 x).length = 8 := length_beBytes 8 _

@[simp] theorem ofLe32_le32 (x : UInt32) : ofLe32 (le32 x) = x := by
  have hlt : x.toNat < 256 ^ 4 := x.toNat_lt
  rw [ofLe32, le32, leNat_leBytes, Nat.mod_eq_of_lt hlt, UInt32.ofNat_toNat]

@[simp] theorem ofBe32_be32 (x : UInt32) : ofBe32 (be32 x) = x := by
  have hlt : x.toNat < 256 ^ 4 := x.toNat_lt
  rw [ofBe32, be32, beNat_beBytes, Nat.mod_eq_of_lt hlt, UInt32.ofNat_toNat]

@[simp] theorem ofBe64_be64 (x : UInt64) : ofBe64 (be64 x) = x := by
  have hlt : x.toNat < 256 ^ 8 := x.toNat_lt
  rw [ofBe64, be64, beNat_beBytes, Nat.mod_eq_of_lt hlt, UInt64.ofNat_toNat]

/-- **Four bytes are the bytes of the word they spell.** -/
theorem le32_ofLe32 {b : Bytes} (h : b.length = 4) : le32 (ofLe32 b) = b := by
  have hback := leBytes_leNat b
  have hspell := leNat_lt b
  rw [h] at hback hspell
  have hlt : leNat b < 2 ^ 32 := hspell
  rw [le32, ofLe32, UInt32.toNat_ofNat', Nat.mod_eq_of_lt hlt, hback]

/-! ### Putting formats together -/

/-- One format behind the other. -/
def prod (f : Format α) (g : Format β) : Format (α × β) where
  put x := f.put x.1 ++ g.put x.2
  get b := do
    let (a, b) ← f.get b
    let (c, b) ← g.get b
    return ((a, c), b)
  get_put x rest := by
    obtain ⟨a, c⟩ := x
    simp only [List.append_assoc, f.get_put, bind, Except.bind, g.get_put, pure, Except.pure]

/-- The image of a format under a map with a left inverse. -/
def map (f : Format α) (g : β → α) (h : α → β) (hg : ∀ b, h (g b) = b) : Format β where
  put b := f.put (g b)
  get b := (f.get b).map fun r => (h r.1, r.2)
  get_put b rest := by simp [f.get_put, Except.map, hg]

/-- A tag byte, `0` for nothing and `1` for a value that follows. -/
def option (f : Format α) : Format (Option α) where
  put
    | none => [0]
    | some a => 1 :: f.put a
  get
    | [] => .error "io error: unexpected end of file"
    | b :: bs =>
        if b = 0 then .ok (none, bs)
        else if b = 1 then (f.get bs).map fun r => (some r.1, r.2)
        else .error "tag for enum is not valid"
  get_put a rest := by
    cases a with
    | none => rfl
    | some a =>
      have h := f.get_put a rest
      simp [h, Except.map]

/-- A tag byte, `0` for the left and `1` for the right alternative. -/
def sum (f : Format α) (g : Format β) : Format (α ⊕ β) where
  put
    | .inl a => 0 :: f.put a
    | .inr b => 1 :: g.put b
  get
    | [] => .error "io error: unexpected end of file"
    | b :: bs =>
        if b = 0 then (f.get bs).map fun r => (.inl r.1, r.2)
        else if b = 1 then (g.get bs).map fun r => (.inr r.1, r.2)
        else .error "tag for enum is not valid"
  get_put x rest := by
    cases x with
    | inl a =>
      have h := f.get_put a rest
      simp [h, Except.map]
    | inr b =>
      have h := g.get_put b rest
      simp [h, Except.map]

/-! ### Tight formats -/

/-- **A tight format** reads nothing but what it writes: a byte string that a value is read off
begins with the bytes of that value. -/
def Tight (f : Format α) : Prop := ∀ b a rest, f.get b = .ok (a, rest) → b = f.put a ++ rest

theorem tight_u64 : Tight u64 := by
  intro b a rest h
  simp only [u64, getLe] at h
  split at h
  · cases h
  · rename_i hlen
    obtain ⟨rfl, rfl⟩ := Prod.mk.inj (Except.ok.inj h)
    have htake : (b.take 8).length = 8 := List.length_take_of_le (not_lt.mp hlen)
    have hlt := leNat_lt (b.take 8)
    have hput := leBytes_leNat (b.take 8)
    rw [htake] at hlt hput
    change b = leBytes 8 (UInt64.ofNat (leNat (b.take 8))).toNat ++ b.drop 8
    rw [UInt64.toNat_ofNat', Nat.mod_eq_of_lt (by omega), hput, List.take_append_drop]

theorem Tight.prod {f : Format α} {g : Format β} (hf : f.Tight) (hg : g.Tight) :
    (f.prod g).Tight := by
  intro b x rest h
  obtain ⟨⟨a, b'⟩, ha, h⟩ := bind_eq_ok.mp h
  obtain ⟨⟨c, b''⟩, hc, h⟩ := bind_eq_ok.mp h
  obtain ⟨rfl, rfl⟩ := Prod.mk.inj (Except.ok.inj h)
  rw [hf _ _ _ ha, hg _ _ _ hc]
  exact (List.append_assoc _ _ _).symm

theorem Tight.map {f : Format α} (hf : f.Tight) {g : β → α} {h : α → β} (hg : ∀ b, h (g b) = b)
    (hh : ∀ a, g (h a) = a) : (f.map g h hg).Tight := by
  intro b x rest hx
  obtain ⟨⟨a, b'⟩, ha, hr⟩ : ∃ r, f.get b = .ok r ∧ (h r.1, r.2) = (x, rest) := by
    simp only [Format.map] at hx
    cases hget : f.get b with
    | error e =>
      rw [hget] at hx
      cases hx
    | ok r =>
      rw [hget] at hx
      exact ⟨r, rfl, Except.ok.inj hx⟩
  obtain ⟨rfl, rfl⟩ := Prod.mk.inj hr
  change b = f.put (g (h a)) ++ b'
  rw [hh]
  exact hf _ _ _ ha

theorem Tight.of_decode {f : Format α} (hf : f.Tight) {b : Bytes} {a : α}
    (h : f.decode b = .ok a) : ∃ rest, b = f.put a ++ rest := by
  rw [decode] at h
  cases hget : f.get b with
  | error e =>
    rw [hget] at h
    cases h
  | ok r =>
    rw [hget] at h
    obtain rfl := Except.ok.inj h
    exact ⟨r.2, hf _ _ _ hget⟩

/-! ### Numbers of any size, and lists -/

/-- Seven bits to a byte, the top bit set on all but the last. -/
def putNat (n : ℕ) : Bytes :=
  if n < 128 then [UInt8.ofNat n] else UInt8.ofNat (n % 128 + 128) :: putNat (n / 128)

/-- Read seven-bit digits up to the first byte whose top bit is clear. -/
def getNat : Bytes → Except String (ℕ × Bytes)
  | [] => .error "io error: unexpected end of file"
  | b :: bs =>
      if b.toNat < 128 then .ok (b.toNat, bs)
      else (getNat bs).map fun r => (b.toNat - 128 + 128 * r.1, r.2)

theorem getNat_putNat (n : ℕ) (rest : Bytes) : getNat (putNat n ++ rest) = .ok (n, rest) := by
  induction n using Nat.strongRecOn with
  | ind n ih =>
    rw [putNat]
    split
    · rename_i h
      have hb : (UInt8.ofNat n).toNat = n := by
        rw [UInt8.toNat_ofNat']
        omega
      rw [List.singleton_append, getNat, hb, if_pos h]
    · rename_i h
      have hb : (UInt8.ofNat (n % 128 + 128)).toNat = n % 128 + 128 := by
        rw [UInt8.toNat_ofNat']
        omega
      rw [List.cons_append, getNat, hb, if_neg (by omega), ih (n / 128) (by omega)]
      simp only [Except.map, Except.ok.injEq, Prod.mk.injEq, and_true]
      omega

/-- Natural numbers of any size. -/
def nat : Format ℕ := ⟨putNat, getNat, getNat_putNat⟩

/-- Read `n` values one after the other. -/
def getMany (f : Format α) : ℕ → Bytes → Except String (List α × Bytes)
  | 0, b => .ok ([], b)
  | n + 1, b => do
      let (a, b) ← f.get b
      let (as, b) ← getMany f n b
      return (a :: as, b)

theorem getMany_flatMap (f : Format α) (as : List α) (rest : Bytes) :
    getMany f as.length (as.flatMap f.put ++ rest) = .ok (as, rest) := by
  induction as with
  | nil => rfl
  | cons a as ih =>
    rw [List.length_cons, List.flatMap_cons, List.append_assoc, getMany]
    simp only [f.get_put, bind, Except.bind, ih, pure, Except.pure]

/-- A count and then the elements. -/
def list (f : Format α) : Format (List α) where
  put as := nat.put as.length ++ as.flatMap f.put
  get b := do
    let (n, b) ← nat.get b
    getMany f n b
  get_put as rest := by
    rw [List.append_assoc]
    simp only [nat.get_put, bind, Except.bind, getMany_flatMap]

theorem putNat_ne_nil (n : ℕ) : putNat n ≠ [] := by
  rw [putNat]
  split <;> exact List.cons_ne_nil _ _

theorem length_put_list (f : Format α) (as : List α) :
    ((list f).put as).length = (putNat as.length).length + (as.flatMap f.put).length :=
  List.length_append

theorem length_put_list_nil (f : Format α) : ((list f).put []).length = 1 := by
  rw [length_put_list, List.length_nil, putNat, if_pos (by decide)]
  rfl

theorem one_le_length_put_list (f : Format α) (as : List α) : 1 ≤ ((list f).put as).length := by
  have hcount := List.length_pos_iff.mpr (putNat_ne_nil as.length)
  rw [length_put_list]
  omega

/-- If no element is encoded in nothing, then a list with elements takes more than one byte. -/
theorem eq_nil_of_length_put_list {f : Format α} (hf : ∀ a, f.put a ≠ []) {as : List α}
    (h : ((list f).put as).length ≤ 1) : as = [] := by
  cases as with
  | nil => rfl
  | cons a as =>
    have hcount := List.length_pos_iff.mpr (putNat_ne_nil (a :: as).length)
    have hhead := List.length_pos_iff.mpr (hf a)
    rw [length_put_list, List.flatMap_cons, List.length_append] at h
    omega

/-- Text, character by character. -/
def string : Format String :=
  (list (nat.map Char.toNat Char.ofNat Char.ofNat_toNat)).map String.toList String.ofList
    fun _ => String.ofList_toList

end Format

/-! ### Text -/

/-- The bytes of a text, in UTF-8. -/
def utf8 (s : String) : Bytes := s.toUTF8.data.toList

/-- The text that bytes spell in UTF-8, if they spell one. -/
def fromUtf8 (b : Bytes) : Option String := String.fromUTF8? ⟨b.toArray⟩

theorem fromUtf8_utf8 (s : String) : fromUtf8 (utf8 s) = some s := by
  have hback : (⟨(utf8 s).toArray⟩ : ByteArray) = s.toByteArray := rfl
  rw [fromUtf8, hback, String.fromUTF8?, dif_pos s.isValidUTF8]
  rfl

/-- **Nothing is read as a text but the bytes of that text.** -/
theorem utf8_of_fromUtf8 {b : Bytes} {s : String} (h : fromUtf8 b = some s) : utf8 s = b := by
  rw [fromUtf8, String.fromUTF8?] at h
  split at h
  · obtain rfl := Option.some.inj h
    rfl
  · cases h

end SonicBrew
