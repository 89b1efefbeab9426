import Mathlib.Algebra.BigOperators.Fin
import Mathlib.Algebra.Order.Ring.Int
import Mathlib.Tactic.Ring
import TagWire.Proofs.Utf8
import TagWire.Tag

/-!
# The hash of a name

A tag is found by one loop over the UTF-8 bytes of a name, which takes a character at a time and
mixes its UTF-16 code units into the hash.  All of it is done in words of 32 bits.

* `Utf16.Spells` — the code units of a text, by what code units stand for;
* `TypeTag.codePointAt?`, `TypeTag.hashFrom?` — the loop, which fails where it would read behind the
  last byte;
* `TypeTag.hashFrom?_eq_ofUtf8?` — on any bytes it comes to what `TypeTag.ofUtf8?` does;
* `TypeTag.codePoints?_encode` — on the bytes of a text it finds the characters of the text;
* `TypeTag.ofName_is_polynomial` — so it never fails on a name, and comes to the polynomial of the
  name's code units.
-/

namespace TagWire

/-! ## Code units -/

namespace Utf16

/-- How code units spell a text.  A character below `10000` is its own code unit, any other one a
pair of surrogates, which hold ten bits each of what it exceeds `10000` by. -/
inductive Spells : (units : List ℕ) → (text : List Char) → Prop
  | nil : Spells [] []
  | single {c units text} : c.val.toNat < 0x10000 → Spells units text →
      Spells (c.val.toNat :: units) (c :: text)
  | pair {c high low units text} : 0xD800 ≤ high → high < 0xDC00 → 0xDC00 ≤ low → low < 0xE000 →
      c.val.toNat = 0x10000 + 0x400 * (high - 0xD800) + (low - 0xDC00) → Spells units text →
      Spells (high :: low :: units) (c :: text)

/-- The code units of a text. -/
def encode (text : String) : List ℕ := text.toList.flatMap fun c => units c.val.toNat

/-- A text is spelled in the code units of its characters, and in no others. -/
theorem spells_iff {us : List ℕ} {text : List Char} :
    Spells us text ↔ us = text.flatMap fun c => units c.val.toNat := by
  refine ⟨fun h => ?_, fun h => ?_⟩
  · induction h with
    | nil => rfl
    | single hsmall _ ih => rw [List.flatMap_cons, ← ih, units, if_pos hsmall]; rfl
    | @pair c high low _ _ hhigh hhigh' hlow hlow' hvalue _ ih =>
        have hfirst : 0xD800 + (c.val.toNat - 0x10000) / 0x400 = high := by omega
        have hsecond : 0xDC00 + (c.val.toNat - 0x10000) % 0x400 = low := by omega
        rw [List.flatMap_cons, ← ih, units, if_neg (by omega)]
        dsimp only
        rw [hfirst, hsecond]
        rfl
  · subst h
    induction text with
    | nil => exact .nil
    | cons c text ih =>
        have hvalid : c.val.toNat < 0xD800 ∨ (0xDFFF < c.val.toNat ∧ c.val.toNat < 0x110000) :=
          c.valid
        rw [List.flatMap_cons, units]
        split
        next hsmall => exact .single hsmall ih
        next hlarge =>
          exact .pair (by omega) (by omega) (by omega) (by omega) (by omega) ih

end Utf16

namespace TypeTag

/-! ## The loop in words -/

/-- The code point that begins at an index and the number of its bytes, unless one of them would lie
behind the last byte. -/
def codePointAt? (bytes : List UInt8) (i : ℕ) : Option (UInt32 × ℕ) := do
  let a := (← bytes[i]?).toUInt32
  if a < 0x80 then return (a, 1)
  else if a < 0xE0 then
    let b := (← bytes[i + 1]?).toUInt32
    return ((a &&& 0x1F) <<< 6 ||| (b &&& 0x3F), 2)
  else if a < 0xF0 then
    let b := (← bytes[i + 1]?).toUInt32
    let c := (← bytes[i + 2]?).toUInt32
    return ((a &&& 0x0F) <<< 12 ||| (b &&& 0x3F) <<< 6 ||| (c &&& 0x3F), 3)
  else
    let b := (← bytes[i + 1]?).toUInt32
    let c := (← bytes[i + 2]?).toUInt32
    let d := (← bytes[i + 3]?).toUInt32
    return ((a &&& 0x07) <<< 18 ||| (b &&& 0x3F) <<< 12 ||| (c &&& 0x3F) <<< 6 ||| (d &&& 0x3F), 4)

/-- The hash after one more code point: a supplementary one counts as its two surrogates. -/
def mixPoint (hash : Int32) (point : UInt32) : Int32 :=
  if 0x10000 ≤ point then
    let offset := point - 0x10000
    let high := (0xD800 : UInt32) + (offset >>> (10 : UInt32))
    let low := (0xDC00 : UInt32) + (offset &&& 0x3FF)
    (hash * 31 + high.toInt32) * 31 + low.toInt32
  else hash * 31 + point.toInt32

/-! ## Bits -/

/-- The low bits of a word. -/
theorem toNat_and_mask (x : UInt32) {mask : UInt32} {k : ℕ} (hmask : mask.toNat = 2 ^ k - 1) :
    (x &&& mask).toNat = x.toNat % 2 ^ k := by
  rw [UInt32.toNat_and, hmask, Nat.and_two_pow_sub_one_eq_mod]

/-- The low bits of a byte, shifted up within a word. -/
theorem toNat_and_mask_shiftLeft (byte : UInt8) {mask shift : UInt32} {k : ℕ}
    (hmask : mask.toNat = 2 ^ k - 1) (hfits : k + shift.toNat < 32) :
    ((byte.toUInt32 &&& mask) <<< shift).toNat = byte.toNat % 2 ^ k * 2 ^ shift.toNat := by
  have hbits : byte.toNat % 2 ^ k < 2 ^ k := Nat.mod_lt _ (Nat.two_pow_pos k)
  have hlt : byte.toNat % 2 ^ k * 2 ^ shift.toNat < 2 ^ 32 :=
    calc byte.toNat % 2 ^ k * 2 ^ shift.toNat
        < 2 ^ k * 2 ^ shift.toNat := Nat.mul_lt_mul_of_pos_right hbits (Nat.two_pow_pos _)
      _ = 2 ^ (k + shift.toNat) := (Nat.pow_add ..).symm
      _ ≤ 2 ^ 32 := Nat.pow_le_pow_right (by decide) (by omega)
  rw [UInt32.toNat_shiftLeft, toNat_and_mask _ hmask, UInt8.toNat_toUInt32,
    Nat.mod_eq_of_lt (by omega : shift.toNat < 32), Nat.shiftLeft_eq, Nat.mod_eq_of_lt hlt]

/-- Bits that are put below those of a multiple. -/
theorem toNat_or_of_dvd {x low : UInt32} {k : ℕ} (hx : 2 ^ k ∣ x.toNat)
    (hlow : low.toNat < 2 ^ k) : (x ||| low).toNat = x.toNat + low.toNat := by
  obtain ⟨n, hn⟩ := hx
  rw [UInt32.toNat_or, hn, Nat.two_pow_add_eq_or_of_lt hlow]

section Bytes

variable (a b c d : UInt8)

/-- The six bits of a byte that is not the first of its character. -/
theorem toNat_continuation : (a.toUInt32 &&& 0x3F).toNat = a.toNat % 64 :=
  toNat_and_mask a.toUInt32 (k := 6) rfl

/-- The code point of two bytes. -/
theorem toNat_two :
    ((a.toUInt32 &&& 0x1F) <<< 6 ||| (b.toUInt32 &&& 0x3F)).toNat =
      64 * (a.toNat % 32) + b.toNat % 64 := by
  have ha : ((a.toUInt32 &&& 0x1F) <<< 6).toNat = a.toNat % 32 * 64 :=
    toNat_and_mask_shiftLeft a (k := 5) rfl (by decide)
  have hb := toNat_continuation b
  rw [toNat_or_of_dvd (k := 6) (by omega) (by omega), ha, hb]
  omega

/-- The code point of three bytes. -/
theorem toNat_three :
    ((a.toUInt32 &&& 0x0F) <<< 12 ||| (b.toUInt32 &&& 0x3F) <<< 6 |||
        (c.toUInt32 &&& 0x3F)).toNat =
      64 * (64 * (a.toNat % 16) + b.toNat % 64) + c.toNat % 64 := by
  have ha : ((a.toUInt32 &&& 0x0F) <<< 12).toNat = a.toNat % 16 * 4096 :=
    toNat_and_mask_shiftLeft a (k := 4) rfl (by decide)
  have hb : ((b.toUInt32 &&& 0x3F) <<< 6).toNat = b.toNat % 64 * 64 :=
    toNat_and_mask_shiftLeft b (k := 6) rfl (by decide)
  have hc := toNat_continuation c
  have hab : ((a.toUInt32 &&& 0x0F) <<< 12 ||| (b.toUInt32 &&& 0x3F) <<< 6).toNat =
      a.toNat % 16 * 4096 + b.toNat % 64 * 64 := by
    rw [toNat_or_of_dvd (k := 12) (by omega) (by omega), ha, hb]
  rw [toNat_or_of_dvd (k := 6) (by omega) (by omega), hab, hc]
  omega

/-- The code point of four bytes. -/
theorem toNat_four :
    ((a.toUInt32 &&& 0x07) <<< 18 ||| (b.toUInt32 &&& 0x3F) <<< 12 |||
        (c.toUInt32 &&& 0x3F) <<< 6 ||| (d.toUInt32 &&& 0x3F)).toNat =
      64 * (64 * (64 * (a.toNat % 8) + b.toNat % 64) + c.toNat % 64) + d.toNat % 64 := by
  have ha : ((a.toUInt32 &&& 0x07) <<< 18).toNat = a.toNat % 8 * 262144 :=
    toNat_and_mask_shiftLeft a (k := 3) rfl (by decide)
  have hb : ((b.toUInt32 &&& 0x3F) <<< 12).toNat = b.toNat % 64 * 4096 :=
    toNat_and_mask_shiftLeft b (k := 6) rfl (by decide)
  have hc : ((c.toUInt32 &&& 0x3F) <<< 6).toNat = c.toNat % 64 * 64 :=
    toNat_and_mask_shiftLeft c (k := 6) rfl (by decide)
  have hd := toNat_continuation d
  have hab : ((a.toUInt32 &&& 0x07) <<< 18 ||| (b.toUInt32 &&& 0x3F) <<< 12).toNat =
      a.toNat % 8 * 262144 + b.toNat % 64 * 4096 := by
    rw [toNat_or_of_dvd (k := 18) (by omega) (by omega), ha, hb]
  have habc : ((a.toUInt32 &&& 0x07) <<< 18 ||| (b.toUInt32 &&& 0x3F) <<< 12 |||
      (c.toUInt32 &&& 0x3F) <<< 6).toNat =
        a.toNat % 8 * 262144 + b.toNat % 64 * 4096 + c.toNat % 64 * 64 := by
    rw [toNat_or_of_dvd (k := 12) (by omega) (by omega), hab, hc]
  rw [toNat_or_of_dvd (k := 6) (by omega) (by omega), habc, hd]
  omega

end Bytes

/-! ## One round of the loop -/

/-- A byte as a word is below another word as it is as a number. -/
theorem toUInt32_lt_iff {byte : UInt8} {bound : UInt32} :
    byte.toUInt32 < bound ↔ byte.toNat < bound.toNat := by
  rw [UInt32.lt_iff_toNat_lt, UInt8.toNat_toUInt32]

/-- Every character is at least one byte. -/
theorem width_pos {bytes : List UInt8} {i : ℕ} {next : UInt32 × ℕ}
    (h : codePointAt? bytes i = some next) : 0 < next.2 := by
  unfold codePointAt? at h
  simp only [Option.bind_eq_bind, Option.pure_def, Option.bind_eq_some_iff] at h
  obtain ⟨a, -, h⟩ := h
  split at h
  · cases h
    exact Nat.one_pos
  split at h
  · obtain ⟨b, -, h⟩ := Option.bind_eq_some_iff.mp h
    cases h
    exact Nat.succ_pos 1
  split at h
  · simp only [Option.bind_eq_some_iff] at h
    obtain ⟨b, -, c, -, h⟩ := h
    cases h
    exact Nat.succ_pos 2
  · simp only [Option.bind_eq_some_iff] at h
    obtain ⟨b, -, c, -, d, -, h⟩ := h
    cases h
    exact Nat.succ_pos 3

/-- The bytes before an index do not matter. -/
theorem codePointAt?_drop (bytes : List UInt8) (i : ℕ) :
    codePointAt? (bytes.drop i) 0 = codePointAt? bytes i := by
  simp only [codePointAt?, List.getElem?_drop, Nat.zero_add, Nat.add_zero]

section Widths

variable {a b c d : UInt8} {rest : List UInt8}

/-- A character of one byte is found. -/
theorem codePoints?_one (ha : a.toNat < 0x80) :
    codePoints? 0 0 (a :: rest) = (codePoints? 0 0 rest).map (a.toNat :: ·) := by
  simp [codePoints?, opening, ha]

/-- What the first byte of a character of two bytes tells. -/
theorem opening_two (ha : 0x80 ≤ a.toNat ∧ a.toNat < 0xE0) : opening a = (1, a.toNat % 32) := by
  simp only [opening]
  rw [if_neg (by omega), if_pos ha.2]

/-- What the first byte of a character of three bytes tells. -/
theorem opening_three (ha : 0xE0 ≤ a.toNat ∧ a.toNat < 0xF0) : opening a = (2, a.toNat % 16) := by
  simp only [opening]
  rw [if_neg (by omega), if_neg (by omega), if_pos ha.2]

/-- What the first byte of a character of four bytes tells. -/
theorem opening_four (ha : 0xF0 ≤ a.toNat) : opening a = (3, a.toNat % 8) := by
  simp only [opening]
  rw [if_neg (by omega), if_neg (by omega), if_neg (by omega)]

/-- A character of two bytes is found. -/
theorem codePoints?_two (ha : 0x80 ≤ a.toNat ∧ a.toNat < 0xE0) :
    codePoints? 0 0 (a :: b :: rest) =
      (codePoints? 0 0 rest).map ((64 * (a.toNat % 32) + b.toNat % 64) :: ·) := by
  simp [codePoints?, opening_two ha]

/-- A character of three bytes is found. -/
theorem codePoints?_three (ha : 0xE0 ≤ a.toNat ∧ a.toNat < 0xF0) :
    codePoints? 0 0 (a :: b :: c :: rest) =
      (codePoints? 0 0 rest).map
        ((64 * (64 * (a.toNat % 16) + b.toNat % 64) + c.toNat % 64) :: ·) := by
  simp [codePoints?, opening_three ha]

/-- A character of four bytes is found. -/
theorem codePoints?_four (ha : 0xF0 ≤ a.toNat) :
    codePoints? 0 0 (a :: b :: c :: d :: rest) =
      (codePoints? 0 0 rest).map
        ((64 * (64 * (64 * (a.toNat % 8) + b.toNat % 64) + c.toNat % 64) + d.toNat % 64) :: ·) := by
  simp [codePoints?, opening_four ha]

end Widths

/-- The code points of some bytes are the one that begins at the first byte, and those behind it. -/
theorem codePoints?_cons (a : UInt8) (rest : List UInt8) :
    codePoints? 0 0 (a :: rest) =
      (codePointAt? (a :: rest) 0).bind fun next =>
        (codePoints? 0 0 ((a :: rest).drop next.2)).map (next.1.toNat :: ·) := by
  unfold codePointAt?
  simp only [List.getElem?_cons_zero, Option.bind_eq_bind, Option.bind_some, toUInt32_lt_iff,
    UInt32.reduceToNat, Option.pure_def]
  -- by the number of its bytes, and where some of them are missing both sides fail
  by_cases h1 : a.toNat < 0x80
  · rw [codePoints?_one h1, if_pos h1, ← UInt8.toNat_toUInt32]
    rfl
  by_cases h2 : a.toNat < 0xE0
  · have hopening := opening_two (a := a) (by omega)
    rw [if_neg h1, if_pos h2]
    rcases rest with _ | ⟨b, rest⟩
    · simp [codePoints?, hopening]
    · rw [codePoints?_two (by omega), ← toNat_two]
      rfl
  by_cases h3 : a.toNat < 0xF0
  · have hopening := opening_three (a := a) (by omega)
    rw [if_neg h1, if_neg h2, if_pos h3]
    rcases rest with _ | ⟨b, _ | ⟨c, rest⟩⟩
    · simp [codePoints?, hopening]
    · simp [codePoints?, hopening]
    · rw [codePoints?_three (by omega), ← toNat_three]
      rfl
  · have hopening := opening_four (a := a) (by omega)
    rw [if_neg h1, if_neg h2, if_neg h3]
    rcases rest with _ | ⟨b, _ | ⟨c, _ | ⟨d, rest⟩⟩⟩
    · simp [codePoints?, hopening]
    · simp [codePoints?, hopening]
    · simp [codePoints?, hopening]
    · rw [codePoints?_four (by omega), ← toNat_four]
      rfl

/-- A word as a signed word is its number as one. -/
theorem toInt32_eq_ofNat (x : UInt32) : x.toInt32 = Int32.ofNat x.toNat := by
  rw [← Int32.toBitVec_inj]
  simp

/-- A code point is mixed in as its code units. -/
theorem mixPoint_eq (hash : Int32) (point : UInt32) :
    mixPoint hash point = (Utf16.units point.toNat).foldl mix hash := by
  unfold mixPoint Utf16.units
  by_cases hlarge : (0x10000 : UInt32) ≤ point
  · have hle : 0x10000 ≤ point.toNat := UInt32.le_iff_toNat_le.mp hlarge
    have hlt := point.toNat_lt
    have hoffset : (point - 0x10000).toNat = point.toNat - 0x10000 :=
      UInt32.toNat_sub_of_le _ _ hlarge
    have hhighBits : ((point - 0x10000) >>> (10 : UInt32)).toNat =
        (point.toNat - 0x10000) / 0x400 := by
      rw [UInt32.toNat_shiftRight, hoffset, Nat.shiftRight_eq_div_pow]
      rfl
    have hlowBits : ((point - 0x10000) &&& 0x3FF).toNat = (point.toNat - 0x10000) % 0x400 := by
      rw [toNat_and_mask _ (k := 10) rfl, hoffset]
      rfl
    have hhigh : ((0xD800 : UInt32) + (point - 0x10000) >>> (10 : UInt32)).toNat =
        0xD800 + (point.toNat - 0x10000) / 0x400 := by
      rw [UInt32.toNat_add, hhighBits]
      exact Nat.mod_eq_of_lt (by simp only [UInt32.reduceToNat]; omega)
    have hlow : ((0xDC00 : UInt32) + ((point - 0x10000) &&& 0x3FF)).toNat =
        0xDC00 + (point.toNat - 0x10000) % 0x400 := by
      rw [UInt32.toNat_add, hlowBits]
      exact Nat.mod_eq_of_lt (by simp only [UInt32.reduceToNat]; omega)
    rw [if_pos hlarge, if_neg (by omega)]
    simp only [List.foldl_cons, List.foldl_nil, mix, toInt32_eq_ofNat, hhigh, hlow]
  · have hlt : point.toNat < 0x10000 := by
      rw [UInt32.not_le] at hlarge
      exact UInt32.lt_iff_toNat_lt.mp hlarge
    rw [if_neg hlarge, if_pos hlt, toInt32_eq_ofNat]
    rfl

/-! ## All rounds -/

/-- The loop from an index on, which fails where it would read behind the last byte. -/
def hashFrom? (bytes : List UInt8) (i : ℕ) (hash : Int32) : Option Int32 :=
  if i < bytes.length then
    match _hnext : codePointAt? bytes i with
    | none => none
    | some next => hashFrom? bytes (i + next.2) (mixPoint hash next.1)
  else some hash
termination_by bytes.length - i
decreasing_by
  have := width_pos _hnext
  omega

/-- The loop comes to what the code points behind its index are mixed to. -/
theorem hashFrom?_eq (bytes : List UInt8) (i : ℕ) (hash : Int32) :
    hashFrom? bytes i hash =
      (codePoints? 0 0 (bytes.drop i)).map fun points =>
        (points.flatMap Utf16.units).foldl mix hash := by
  -- a round leaves the index behind a whole character, where `codePoints?` owes no bytes either
  fun_induction hashFrom? bytes i hash with
  | case1 i hash hmore hnext =>
      rw [List.drop_eq_getElem_cons hmore, codePoints?_cons, ← List.drop_eq_getElem_cons hmore,
        codePointAt?_drop, hnext]
      rfl
  | case2 i hash hmore next hnext ih =>
      rw [ih, List.drop_eq_getElem_cons hmore, codePoints?_cons,
        ← List.drop_eq_getElem_cons hmore, codePointAt?_drop, hnext, Option.bind_some,
        List.drop_drop, Option.map_map]
      congr 1
      funext points
      rw [mixPoint_eq]
      simp only [Function.comp_apply, List.flatMap_cons, List.foldl_append]
  | case3 i hash hend =>
      rw [List.drop_eq_nil_of_le (by omega)]
      rfl

/-- On any bytes the loop comes to their tag, or fails if they have none. -/
theorem hashFrom?_eq_ofUtf8? (bytes : List UInt8) :
    hashFrom? bytes 0 0 = (ofUtf8? bytes).map TypeTag.value := by
  rw [hashFrom?_eq, List.drop_zero, ofUtf8?, Option.map_map]
  rfl

/-! ## Names -/

/-- In the bytes of a character its code point is found. -/
theorem codePoints?_encodeChar (char : Char) (rest : List UInt8) :
    codePoints? 0 0 (String.utf8EncodeChar char ++ rest) =
      (codePoints? 0 0 rest).map (char.val.toNat :: ·) := by
  rcases Utf8.encodeChar_cases char with ⟨a, hencode, ha, hcode⟩ | ⟨a, b, hencode, ha, -, hcode⟩ |
    ⟨a, b, c, hencode, ha, -, -, -, -, hcode⟩ | ⟨a, b, c, d, hencode, ha, -, -, -, -, -, hcode⟩
  · rw [hencode, List.cons_append, List.nil_append, codePoints?_one ha, hcode]
  · have hbits : 64 * (a.toNat % 32) + b.toNat % 64 = char.val.toNat := by omega
    rw [hencode, List.cons_append, List.cons_append, List.nil_append, codePoints?_two (by omega),
      hbits]
  · have hbits : 64 * (64 * (a.toNat % 16) + b.toNat % 64) + c.toNat % 64 = char.val.toNat := by
      omega
    rw [hencode, List.cons_append, List.cons_append, List.cons_append, List.nil_append,
      codePoints?_three ha, hbits]
  · have hbits : 64 * (64 * (64 * (a.toNat % 8) + b.toNat % 64) + c.toNat % 64) + d.toNat % 64 =
        char.val.toNat := by omega
    rw [hencode, List.cons_append, List.cons_append, List.cons_append, List.cons_append,
      List.nil_append, codePoints?_four ha.1, hbits]

/-- In the bytes of a text its code points are found. -/
theorem codePoints?_encode (text : String) :
    codePoints? 0 0 (Utf8.encode text) = some (text.toList.map fun c => c.val.toNat) := by
  unfold Utf8.encode
  induction text.toList with
  | nil => rfl
  | cons c chars ih => rw [List.flatMap_cons, codePoints?_encodeChar, ih]; rfl

/-- The bytes of a name do not end inside a character, so its tag is found, by mixing its code
units. -/
theorem ofUtf8?_encode (name : String) :
    ofUtf8? (Utf8.encode name) = some ⟨(Utf16.encode name).foldl mix 0⟩ := by
  rw [ofUtf8?, codePoints?_encode, Option.map_some, List.flatMap_map]
  rfl

/-- The tag of a name mixes its code units. -/
theorem ofName_value (name : String) :
    (ofName name).value = (Utf16.encode name).foldl mix 0 := by
  rw [ofName, ofUtf8?_encode, Option.getD_some]

/-- The loop reads no byte behind the last one of a name, and comes to its tag. -/
theorem hashFrom?_encode (name : String) :
    hashFrom? (Utf8.encode name) 0 0 = some (ofName name).value := by
  rw [hashFrom?_eq_ofUtf8?, ofUtf8?_encode, Option.map_some, ofName_value]

/-! ## The polynomial -/

/-- The polynomial `s 0 * 31 ^ (n - 1) + … + s (n - 1)`. -/
def polynomial (units : List ℕ) : ℤ :=
  ∑ i : Fin units.length, (units[i] : ℤ) * 31 ^ (units.length - 1 - i)

/-- One unit in front goes with the power behind all others. -/
theorem polynomial_cons (unit : ℕ) (units : List ℕ) :
    polynomial (unit :: units) = unit * 31 ^ units.length + polynomial units := by
  refine (Fin.sum_univ_succ (n := units.length) _).trans ?_
  congr 1
  refine Finset.sum_congr rfl fun i _ => ?_
  have hpower : (unit :: units).length - 1 - (i.succ : ℕ) = units.length - 1 - i := by
    rw [List.length_cons, Fin.val_succ]
    omega
  rw [hpower]
  rfl

/-- Mixing some units in goes by their polynomial. -/
theorem foldl_mix (a : ℤ) (units : List ℕ) :
    units.foldl mix (Int32.ofInt a) =
      Int32.ofInt (a * 31 ^ units.length + polynomial units) := by
  -- both sides stay whole numbers, which become words only at the end
  induction units generalizing a with
  | nil => simp [polynomial]
  | cons unit units ih =>
      have hmix : mix (Int32.ofInt a) unit = Int32.ofInt (a * 31 + unit) := by
        rw [Int32.ofInt_add, Int32.ofInt_mul, Int32.ofInt_eq_ofNat]
        rfl
      rw [List.foldl_cons, hmix, ih, polynomial_cons, List.length_cons]
      congr 1
      ring

/-- The tag of a name is the polynomial of its code units, as a signed word of 32 bits. -/
theorem toInt_ofName (name : String) :
    (ofName name).value.toInt = (polynomial (Utf16.encode name)).bmod (2 ^ 32) := by
  have hhash := foldl_mix 0 (Utf16.encode name)
  rw [zero_mul, zero_add] at hhash
  rw [ofName_value]
  exact (congrArg Int32.toInt hhash).trans Int32.toInt_ofInt

/-- The tag of a name is the polynomial of its UTF-16 code units, as a signed word of 32 bits, and
the loop that finds it reads no byte behind the last one. -/
theorem ofName_is_polynomial (name : String) :
    (∀ units, Utf16.Spells units name.toList ↔ units = Utf16.encode name) ∧
      hashFrom? (Utf8.encode name) 0 0 = some (ofName name).value ∧
      (ofName name).value.toInt = (polynomial (Utf16.encode name)).bmod (2 ^ 32) :=
  ⟨fun _ => Utf16.spells_iff, hashFrom?_encode name, toInt_ofName name⟩

example : (ofName "😀").value = 0xD83D * 31 + 0xDE00 := by decide

end TypeTag

end TagWire
