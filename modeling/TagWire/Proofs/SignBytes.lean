import Mathlib.Algebra.Order.Group.Unbundled.Int
import Mathlib.Data.Int.ModEq
import TagWire.Proofs.Decimal

/-!
# Redundant sign bytes

In two's complement a run of `n` bytes denotes one of the `256 ^ n` integers around zero.  Longer
runs denote the same integer if they repeat its sign in front, and no other runs do:

* `TwosComplement.Denotes` — what integer a run denotes, by its residue and its range;
* `TwosComplement.denotes_iff` — reading finds just this integer;
* `TwosComplement.Trims` — sign bytes dropped in front of a run, all of them redundant;
* `TwosComplement.trims_encode_decode` — what was read is written again without any of them;
* `TwosComplement.length_encode_lt` — so an integer is written as the shortest run that denotes it;
* `Decimal.parts_are_shortest` — the same of decimals and their parts.
-/

namespace TagWire

namespace TwosComplement

/-! ## What a run denotes -/

/-- A run of bytes denotes an integer in two's complement: as a number without sign it is the
integer modulo `256 ^ n`, where `n` is its length, and the integer is one of the `256 ^ n` that lie
around zero, half of them below it. -/
structure Denotes (bytes : List UInt8) (u : ℤ) : Prop where
  ne_nil : bytes ≠ []
  residue : u % 256 ^ bytes.length = BigEndian.decode bytes
  low : -256 ^ bytes.length ≤ 2 * u
  high : 2 * u < 256 ^ bytes.length

/-- A byte behind a number is its residue in the next place. -/
theorem emod_of_append {u : ℤ} {byte : UInt8} (n : ℕ) :
    (256 * u + byte.toNat) % 256 ^ (n + 1) = 256 * (u % 256 ^ n) + byte.toNat := by
  have hbyte : byte.toNat < 256 := byte.toNat_lt
  have hpower : (0 : ℤ) < 256 ^ n := Int.pow_pos (by decide)
  have hlow := Int.emod_nonneg u (Int.ne_of_gt hpower)
  have hhigh := Int.emod_lt_of_pos u hpower
  have hsplit : 256 * u + byte.toNat =
      256 * (u % 256 ^ n) + byte.toNat + 256 ^ (n + 1) * (u / 256 ^ n) := by
    rw [pow_succ', mul_assoc]
    have hdivision := Int.emod_add_mul_ediv u (256 ^ n)
    omega
  rw [hsplit, Int.add_mul_emod_self_left]
  refine Int.emod_eq_of_lt (by omega) ?_
  rw [pow_succ']
  omega

/-- Signed and unsigned reading agree up to the sign. -/
theorem decode_emod (bytes : List UInt8) :
    decode bytes % 256 ^ bytes.length = BigEndian.decode bytes := by
  induction bytes using List.reverseRecOn with
  | nil => rfl
  | append_singleton before last ih =>
      by_cases hne : before = []
      · subst hne
        have hone : BigEndian.decode ([] ++ [last]) = last.toNat := by simp [BigEndian.decode]
        rw [hone]
        exact leading_emod last
      · rw [decode_append_singleton hne, BigEndian.decode_append_singleton, List.length_append,
          List.length_singleton, emod_of_append, ih]
        push_cast
        rfl

/-- A run denotes the integer that is read from it. -/
theorem denotes_decode {bytes : List UInt8} (h : bytes ≠ []) : Denotes bytes (decode bytes) := by
  cases bytes with
  | nil => exact absurd rfl h
  | cons first rest =>
      obtain ⟨hlow, hhigh⟩ := decode_bounds first rest
      have hpower : (256 : ℤ) ^ (first :: rest).length = 256 * 256 ^ rest.length := by
        rw [List.length_cons, pow_succ']
      exact ⟨h, decode_emod _, by omega, by omega⟩

/-- A run denotes one integer only. -/
theorem Denotes.unique {bytes : List UInt8} {u v : ℤ} (hu : Denotes bytes u)
    (hv : Denotes bytes v) : u = v := by
  have hdvd : (256 : ℤ) ^ bytes.length ∣ u - v :=
    Int.ModEq.dvd (hv.residue.trans hu.residue.symm)
  have hlow := hu.low
  have hhigh := hu.high
  have hlow' := hv.low
  have hhigh' := hv.high
  have hnear : |u - v| < 256 ^ bytes.length := abs_lt.mpr ⟨by omega, by omega⟩
  have hzero := Int.eq_zero_of_abs_lt_dvd hdvd hnear
  omega

/-- What is read from a run is the integer that it denotes. -/
theorem denotes_iff {bytes : List UInt8} {u : ℤ} :
    Denotes bytes u ↔ bytes ≠ [] ∧ decode bytes = u := by
  refine ⟨fun h => ⟨h.ne_nil, (denotes_decode h.ne_nil).unique h⟩, fun h => ?_⟩
  rcases h with ⟨hne, rfl⟩
  exact denotes_decode hne

/-! ## Dropping sign bytes -/

/-- A first byte that only repeats the sign of the byte behind it. -/
def Redundant (first second : UInt8) : Prop :=
  first = 0x00 ∧ second < 0x80 ∨ first = 0xFF ∧ 0x80 ≤ second

/-- A run with bytes dropped in front, each of which was redundant where it stood. -/
inductive Trims : (whole rest : List UInt8) → Prop
  | done {whole} : Trims whole whole
  | drop {first second later rest} : Redundant first second → Trims (second :: later) rest →
      Trims (first :: second :: later) rest

/-- What is left is the end of the run. -/
theorem Trims.suffix {whole rest : List UInt8} (h : Trims whole rest) : rest <:+ whole := by
  induction h with
  | done => exact List.suffix_refl _
  | drop _ _ ih => exact List.suffix_cons_iff.mpr (.inr ih)

/-- The sign that a redundant byte adds is the one of the byte behind it. -/
theorem leading_of_redundant {first second : UInt8} (h : Redundant first second) :
    256 * leading first + second.toNat = leading second := by
  rcases h with ⟨rfl, hsecond⟩ | ⟨rfl, hsecond⟩
  · have hzero : leading 0x00 = 0 := by decide
    have hpositive : leading second = second.toNat := if_pos hsecond
    omega
  · have hones : leading 0xFF = -1 := by decide
    have hnegative : leading second = second.toNat - 256 := if_neg (UInt8.not_lt.mpr hsecond)
    omega

/-- A redundant byte does not change the integer. -/
theorem decode_of_redundant {first second : UInt8} (later : List UInt8)
    (h : Redundant first second) :
    decode (first :: second :: later) = decode (second :: later) := by
  have hsame := leading_of_redundant h
  simp only [decode, List.foldl_cons, hsame]

/-- What was read is written again without its redundant sign bytes. -/
theorem trims_encode_decode {bytes : List UInt8} (h : bytes ≠ []) :
    Trims bytes (encode (decode bytes)) := by
  -- from the front: redundant bytes go, and what begins with any other byte is shortest
  induction bytes with
  | nil => exact absurd rfl h
  | cons first later ih =>
      cases later with
      | nil =>
          have hshortest : Shortest [first] := trivial
          rw [encode_decode_of_shortest hshortest]
          exact .done
      | cons second later =>
          by_cases hredundant : Redundant first second
          · rw [decode_of_redundant later hredundant]
            exact .drop hredundant (ih (List.cons_ne_nil _ _))
          · have hshortest : Shortest (first :: second :: later) := not_or.mp hredundant
            rw [encode_decode_of_shortest hshortest]
            exact .done

/-- Every other run that denotes an integer is longer than the one that is written. -/
theorem length_encode_lt {bytes : List UInt8} {u : ℤ} (h : Denotes bytes u)
    (hne : bytes ≠ encode u) : (encode u).length < bytes.length := by
  rcases denotes_iff.mp h with ⟨hbytes, rfl⟩
  have hsuffix := (trims_encode_decode hbytes).suffix
  refine Nat.lt_of_le_of_ne hsuffix.length_le fun hlength => ?_
  exact hne (hsuffix.eq_of_length hlength).symm

end TwosComplement

open TwosComplement

namespace Decimal

/-- A scale has a place in a 32-bit field. -/
def NarrowScale (d : Decimal) : Prop := -2 ^ 31 ≤ d.scale.toInt ∧ d.scale.toInt < 2 ^ 31

/-- A decimal of narrow scale is split into this scale and the bytes of its integer. -/
theorem toParts_of_narrowScale {d : Decimal} (h : d.NarrowScale) :
    d.toParts = .ok (d.scale.toInt32, encode d.unscaled) :=
  toParts_eq_ok_iff.mpr ⟨(toInt64_toInt32_eq_iff.mpr h).symm, rfl⟩

/-- A decimal of any other scale is not split. -/
theorem toParts_of_wideScale {d : Decimal} (h : ¬ d.NarrowScale) :
    d.toParts = .error (.wideScale d.scale) :=
  if_neg fun hfits => h (toInt64_toInt32_eq_iff.mp hfits)

/-- **The parts of decimals are shortest.**  A decimal whose scale has 32 bits is split into this
scale and the shortest bytes that denote its unscaled integer, and is put together from them again;
no other decimal is split.  A scale and any bytes make a decimal, which is split into the scale and
what is left of the bytes without redundant sign bytes; no bytes make none. -/
theorem parts_are_shortest :
    (∀ d : Decimal, d.NarrowScale → ∃ scale bytes,
      d.toParts = .ok (scale, bytes) ∧ scale.toInt = d.scale.toInt ∧ Denotes bytes d.unscaled ∧
      (∀ other, Denotes other d.unscaled → other ≠ bytes → bytes.length < other.length) ∧
      ofParts scale bytes = .ok d) ∧
    (∀ d : Decimal, ¬ d.NarrowScale → d.toParts = .error (.wideScale d.scale)) ∧
    (∀ (scale : Int32) (bytes : List UInt8), bytes ≠ [] → ∃ d rest,
      ofParts scale bytes = .ok d ∧ d.scale.toInt = scale.toInt ∧ Denotes bytes d.unscaled ∧
      d.toParts = .ok (scale, rest) ∧ Trims bytes rest ∧ Shortest rest ∧
      (rest = bytes ↔ Shortest bytes)) ∧
    ∀ scale : Int32, ofParts scale [] = .error .emptyUnscaled := by
  refine ⟨fun d hscale => ?_, fun d => toParts_of_wideScale, fun scale bytes hne => ?_,
    fun _ => rfl⟩
  · have hsame : d.scale.toInt32.toInt64 = d.scale := toInt64_toInt32_eq_iff.mpr hscale
    have hdenotes : Denotes (encode d.unscaled) d.unscaled :=
      denotes_iff.mpr ⟨encode_ne_nil _, decode_encode _⟩
    have hscale' : d.scale.toInt32.toInt = d.scale.toInt := by
      rw [← Int32.toInt_toInt64, hsame]
    have hback : ofParts d.scale.toInt32 (encode d.unscaled) = .ok d :=
      ofParts_eq_ok_iff.mpr ⟨encode_ne_nil _, (decode_encode _).symm, hsame.symm⟩
    exact ⟨_, _, toParts_of_narrowScale hscale, hscale', hdenotes,
      fun other hother hne => length_encode_lt hother hne, hback⟩
  · have hmade : ofParts scale bytes = .ok ⟨decode bytes, scale.toInt64⟩ :=
      ofParts_eq_ok_iff.mpr ⟨hne, rfl, rfl⟩
    have hsplit : toParts ⟨decode bytes, scale.toInt64⟩ = .ok (scale, encode (decode bytes)) :=
      toParts_eq_ok_iff.mpr ⟨rfl, rfl⟩
    exact ⟨_, _, hmade, Int32.toInt_toInt64 scale, denotes_decode hne, hsplit,
      trims_encode_decode hne, shortest_encode _, encode_decode_eq_iff⟩

/-- Minus 129 takes two bytes, and a third one in front of them is dropped.  A scale of 33 bits has
no parts. -/
theorem signExtended_parts_are_shortest :
    NarrowScale ⟨-129, 4⟩ ∧ ¬ NarrowScale ⟨-129, 2147483648⟩ ∧
    toParts ⟨-129, 2147483648⟩ = .error (.wideScale 2147483648) ∧
    ∃ rest, ofParts 4 [0xFF, 0xFF, 0x7F] = .ok ⟨-129, 4⟩ ∧
      toParts ⟨-129, 4⟩ = .ok (4, rest) ∧ Denotes rest (-129) ∧
      Trims [0xFF, 0xFF, 0x7F] rest ∧ rest.length < 3 := by
  obtain ⟨hsplit, hwide, hjoin, -⟩ := parts_are_shortest
  have hnarrow : NarrowScale ⟨-129, 4⟩ := by unfold NarrowScale; decide
  have hnot : ¬ NarrowScale ⟨-129, 2147483648⟩ := by unfold NarrowScale; decide
  have hjoined : ofParts 4 [0xFF, 0xFF, 0x7F] = .ok ⟨-129, 4⟩ := by decide
  obtain ⟨d, rest, hmade, -, hlong, hrest, htrims, -, hsame⟩ :=
    hjoin 4 [0xFF, 0xFF, 0x7F] (List.cons_ne_nil _ _)
  obtain ⟨scale, bytes, hparts, -, hdenotes, hshort, -⟩ := hsplit ⟨-129, 4⟩ hnarrow
  have hd : d = ⟨-129, 4⟩ := Except.ok.inj (hmade.symm.trans hjoined)
  rw [hd] at hrest hlong
  have hbytes : bytes = rest := congrArg Prod.snd (Except.ok.inj (hparts.symm.trans hrest))
  rw [hbytes] at hdenotes hshort
  have hlonger : [0xFF, 0xFF, 0x7F] ≠ rest := fun h => (hsame.mp h.symm).2 ⟨rfl, by decide⟩
  exact ⟨hnarrow, hnot, hwide _ hnot, rest, hjoined, hrest, hdenotes, htrims,
    hshort _ hlong hlonger⟩

end Decimal

end TagWire
