import Mathlib.Algebra.Ring.Int.Defs
import Mathlib.Algebra.Ring.Nat
import Mathlib.Data.List.Induction
import TagWire.Bytes.BigEndian
import TagWire.Bytes.TwosComplement

/-!
# Words and integers as bytes

A word of fixed width and the bytes that spell it determine each other
(`BigEndian.decode_encode`, `BigEndian.encode_decode`).  An integer of any size
has many spellings, of which exactly one has no redundant sign byte in front, and
`TwosComplement.encode` writes that one:

* `decode_encode` — an integer is read back from its bytes;
* `encode_decode_eq_iff` — a run of bytes is written again as it was read
  exactly when it is shortest;
* `length_encode_decode_le` — and never longer than it was read;
* `length_encode_le` — the bytes that a magnitude needs.
-/

namespace TagWire.BigEndian

/-- A word takes as many bytes as its width. -/
theorem length_encode (width n : Nat) : (encode width n).length = width := by
  induction width generalizing n with
  | zero => rfl
  | succ width ih => simp [encode, ih]

/-- One more byte shifts what came before it by a byte. -/
theorem decode_append_singleton (bytes : List UInt8) (byte : UInt8) :
    decode (bytes ++ [byte]) = 256 * decode bytes + byte.toNat := by
  simp [decode]

/-- What was written is read back, up to the bits that the width cuts off. -/
theorem decode_encode (width n : Nat) : decode (encode width n) = n % 256 ^ width := by
  induction width generalizing n with
  | zero => simp [encode, decode, Nat.mod_one]
  | succ width ih =>
      have hbyte : (UInt8.ofNat n).toNat = n % 256 := by simp
      have hsplit : n % (256 * 256 ^ width) = n % 256 + 256 * (n / 256 % 256 ^ width) :=
        Nat.mod_mul
      rw [encode, decode_append_singleton, ih, hbyte, Nat.pow_succ', hsplit]
      omega

/-- A run of bytes is the word of the number it denotes. -/
theorem encode_decode (bytes : List UInt8) : encode bytes.length (decode bytes) = bytes := by
  suffices h : ∀ rev : List UInt8, encode rev.reverse.length (decode rev.reverse) = rev.reverse by
    simpa using h bytes.reverse
  intro rev
  induction rev with
  | nil => rfl
  | cons byte rev ih =>
      have hlt : byte.toNat < 256 := byte.toNat_lt
      have hhigh : (256 * decode rev.reverse + byte.toNat) / 256 = decode rev.reverse := by omega
      have hlow : UInt8.ofNat (256 * decode rev.reverse + byte.toNat) = byte := by
        apply UInt8.toNat_inj.mp
        simp
      rw [List.reverse_cons, decode_append_singleton, List.length_append, List.length_singleton,
        encode, hhigh, hlow, ih]

end TagWire.BigEndian

namespace TagWire.TwosComplement

/-- A run of bytes without a redundant sign byte: it does not begin with `00` before
a byte below `80`, nor with `ff` before a byte from `80` on. -/
def Shortest : List UInt8 → Prop
  | [] => False
  | [_] => True
  | first :: second :: _ =>
      ¬ (first = 0x00 ∧ second < 0x80) ∧ ¬ (first = 0xFF ∧ 0x80 ≤ second)

/-- A first byte denotes a number of seven bits and a sign. -/
theorem leading_bounds (byte : UInt8) : -128 ≤ leading byte ∧ leading byte < 128 := by
  have hlt : byte.toNat < 256 := byte.toNat_lt
  unfold leading
  split
  next hsmall =>
    rw [UInt8.lt_iff_toNat_lt] at hsmall
    simp only [UInt8.reduceToNat] at hsmall
    omega
  next hlarge =>
    rw [UInt8.lt_iff_toNat_lt] at hlarge
    simp only [UInt8.reduceToNat] at hlarge
    omega

/-- A first byte is its number modulo 256. -/
theorem leading_emod (byte : UInt8) : leading byte % 256 = byte.toNat := by
  have hlt : byte.toNat < 256 := byte.toNat_lt
  unfold leading
  split <;> omega

/-- The byte of a number of seven bits and a sign denotes it. -/
theorem leading_ofNat {u : Int} (h : -128 ≤ u ∧ u < 128) :
    leading (UInt8.ofNat (u % 256).toNat) = u := by
  have hbounds := leading_bounds (UInt8.ofNat (u % 256).toNat)
  have hmod := leading_emod (UInt8.ofNat (u % 256).toNat)
  have hbyte : (UInt8.ofNat (u % 256).toNat).toNat = (u % 256).toNat := by
    simp only [UInt8.toNat_ofNat']
    omega
  rw [hbyte] at hmod
  omega

/-- One more byte shifts the integer before it by a byte. -/
theorem decode_append_singleton {bytes : List UInt8} (h : bytes ≠ []) (byte : UInt8) :
    decode (bytes ++ [byte]) = 256 * decode bytes + byte.toNat := by
  cases bytes with
  | nil => exact absurd rfl h
  | cons first rest => simp [decode]

/-- An integer is read back from its bytes. -/
theorem decode_encode (u : Int) : decode (encode u) = u := by
  fun_induction encode u with
  | case1 u hsmall => simp [decode, leading_ofNat hsmall]
  | case2 u hlarge ih =>
      rw [decode_append_singleton (encode_ne_nil _), ih]
      simp only [UInt8.toNat_ofNat']
      omega

/-- A shortest run of several bytes denotes no integer of one byte. -/
theorem decode_large_of_shortest {first second : UInt8} {rest : List UInt8}
    (h : Shortest (first :: second :: rest)) :
    decode (first :: second :: rest) < -128 ∨ 128 ≤ decode (first :: second :: rest) := by
  induction rest using List.reverseRecOn with
  | nil =>
      have hfirst := leading_bounds first
      have hsecond : second.toNat < 256 := second.toNat_lt
      have hdecode : decode [first, second] = 256 * leading first + second.toNat := by
        simp [decode]
      have hzero : leading first = 0 → first = 0x00 := by
        intro hlead
        have hmod := leading_emod first
        rw [hlead] at hmod
        apply UInt8.toNat_inj.mp
        simp only [UInt8.reduceToNat]
        omega
      have hones : leading first = -1 → first = 0xFF := by
        intro hlead
        have hmod := leading_emod first
        rw [hlead] at hmod
        apply UInt8.toNat_inj.mp
        simp only [UInt8.reduceToNat]
        omega
      rw [hdecode]
      by_cases h0 : leading first = 0
      · have hnot : ¬ second < 0x80 := fun hlt => h.1 ⟨hzero h0, hlt⟩
        rw [UInt8.lt_iff_toNat_lt] at hnot
        simp only [UInt8.reduceToNat] at hnot
        omega
      by_cases h1 : leading first = -1
      · have hnot : ¬ 0x80 ≤ second := fun hle => h.2 ⟨hones h1, hle⟩
        rw [UInt8.le_iff_toNat_le] at hnot
        simp only [UInt8.reduceToNat] at hnot
        omega
      omega
  | append_singleton before last ih =>
      have hprefix := ih h
      have happend := decode_append_singleton (List.cons_ne_nil first (second :: before)) last
      have hlast : last.toNat < 256 := last.toNat_lt
      rw [List.cons_append, List.cons_append] at happend
      rw [happend]
      omega

/-- A shortest run without its last byte is shortest, unless nothing is left. -/
theorem Shortest.of_append_singleton {before : List UInt8} {last : UInt8}
    (h : Shortest (before ++ [last])) (hne : before ≠ []) : Shortest before := by
  cases before with
  | nil => exact absurd rfl hne
  | cons first more =>
      cases more with
      | nil => trivial
      | cons second more => exact h

/-- A shortest run is written again. -/
theorem encode_decode_of_shortest {bytes : List UInt8} (h : Shortest bytes) :
    encode (decode bytes) = bytes := by
  induction bytes using List.reverseRecOn with
  | nil => exact h.elim
  | append_singleton before last ih =>
      have hlast : last.toNat < 256 := last.toNat_lt
      have hbyte : ∀ u : Int, u % 256 = last.toNat → UInt8.ofNat (u % 256).toNat = last := by
        intro u hu
        rw [hu, Int.toNat_natCast, UInt8.ofNat_toNat]
      by_cases hne : before = []
      · subst hne
        rw [List.nil_append, show decode [last] = leading last from rfl, encode,
          if_pos (leading_bounds last), hbyte _ (leading_emod last)]
      · have hlarge : decode (before ++ [last]) < -128 ∨ 128 ≤ decode (before ++ [last]) := by
          cases before with
          | nil => exact absurd rfl hne
          | cons first more => cases more <;> exact decode_large_of_shortest h
        have happend := decode_append_singleton hne last
        have hhigh : decode (before ++ [last]) / 256 = decode before := by
          rw [happend]
          omega
        have hlow : decode (before ++ [last]) % 256 = last.toNat := by
          rw [happend]
          omega
        rw [encode, if_neg (by omega), hhigh, hbyte _ hlow, ih (h.of_append_singleton hne)]

/-- What is written is shortest. -/
theorem shortest_encode (u : Int) : Shortest (encode u) := by
  fun_induction encode u with
  | case1 u hsmall => trivial
  | case2 u hlarge ih =>
      have hdecode := decode_encode (u / 256)
      cases hhigh : encode (u / 256) with
      | nil => exact absurd hhigh (encode_ne_nil _)
      | cons first rest =>
          rw [hhigh] at ih hdecode
          cases rest with
          | cons second rest => exact ih
          | nil =>
              have hlead : leading first = u / 256 := hdecode
              have hsecond : (UInt8.ofNat (u % 256).toNat).toNat = (u % 256).toNat := by
                simp only [UInt8.toNat_ofNat']
                omega
              refine ⟨?_, ?_⟩
              · intro h
                rcases h with ⟨rfl, hlt⟩
                rw [UInt8.lt_iff_toNat_lt, hsecond] at hlt
                simp only [UInt8.reduceToNat] at hlt
                have hzero : leading 0x00 = 0 := by decide
                omega
              · intro h
                rcases h with ⟨rfl, hle⟩
                rw [UInt8.le_iff_toNat_le, hsecond] at hle
                simp only [UInt8.reduceToNat] at hle
                have hones : leading 0xFF = -1 := by decide
                omega

/-- A run of bytes is written again as it was read exactly when it is shortest. -/
theorem encode_decode_eq_iff {bytes : List UInt8} :
    encode (decode bytes) = bytes ↔ Shortest bytes := by
  constructor
  · intro h
    rw [← h]
    exact shortest_encode _
  · exact encode_decode_of_shortest

/-- How many bytes an integer takes at most. -/
theorem length_encode_le {u : Int} {k : Nat} (hlow : -(128 * 256 ^ k) ≤ u)
    (hhigh : u < 128 * 256 ^ k) : (encode u).length ≤ k + 1 := by
  induction k generalizing u with
  | zero =>
      rw [encode, if_pos (by omega)]
      simp
  | succ k ih =>
      rw [encode]
      split
      · simp
      · have hdiv : (encode (u / 256)).length ≤ k + 1 := by
          rw [Int.pow_succ] at hlow hhigh
          exact ih (by omega) (by omega)
        rw [List.length_append, List.length_singleton]
        omega

/-- What integers a run of bytes denotes at most. -/
theorem decode_bounds (first : UInt8) (rest : List UInt8) :
    -(128 * 256 ^ rest.length) ≤ decode (first :: rest) ∧
      decode (first :: rest) < 128 * 256 ^ rest.length := by
  induction rest using List.reverseRecOn with
  | nil =>
      have hbounds := leading_bounds first
      simp only [decode, List.foldl_nil, List.length_nil, Int.pow_zero]
      omega
  | append_singleton before last ih =>
      have happend := decode_append_singleton (List.cons_ne_nil first before) last
      have hlast : last.toNat < 256 := last.toNat_lt
      rw [List.cons_append] at happend
      rw [happend, List.length_append, List.length_singleton, Int.pow_succ]
      omega

/-- What is written is never longer than what was read. -/
theorem length_encode_decode_le {bytes : List UInt8} (h : bytes ≠ []) :
    (encode (decode bytes)).length ≤ bytes.length := by
  cases bytes with
  | nil => exact absurd rfl h
  | cons first rest =>
      obtain ⟨hlow, hhigh⟩ := decode_bounds first rest
      exact length_encode_le hlow hhigh

end TagWire.TwosComplement
