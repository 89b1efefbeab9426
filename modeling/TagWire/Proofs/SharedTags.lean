import Mathlib.Data.Int.ModEq
import TagWire.Proofs.TagHash

/-!
# Names that share a tag

The tag of two names, one behind the other, is found from the tags of both and from the number of
code units of the second one, by which the first one is shifted.  A shift is a product with a power
of 31, and 31 is prime to `2 ^ 32`, so no shift brings two tags together or apart.

* `TypeTag.toInt_ofName_append` — the tag of two names one behind the other;
* `TypeTag.ofName_append_right_inj` — what follows two names never matters for whether they share
  a tag;
* `TypeTag.ofName_append_left_inj` — nor does what precedes them, if they have as many code units;
* `TypeTag.ofName_homomorphism` — so two names that share a tag do so in every package, and with
  whatever is nested in them.
-/

namespace TagWire

/-- The code units of two texts stand one behind the other. -/
theorem Utf16.encode_append (a b : String) : encode (a ++ b) = encode a ++ encode b := by
  unfold encode
  rw [String.toList_append, List.flatMap_append]

namespace TypeTag

/-- Tags are the same when they are congruent, as they have only 32 bits. -/
theorem eq_iff_modEq {s t : TypeTag} :
    s = t ↔ s.value.toInt ≡ t.value.toInt [ZMOD 2 ^ 32] := by
  constructor
  · rintro rfl
    exact Int.ModEq.refl _
  · intro h
    have hbmod : s.value.toInt.bmod (2 ^ 32) = t.value.toInt.bmod (2 ^ 32) := by
      rw [← Int.emod_bmod s.value.toInt, ← Int.emod_bmod t.value.toInt]
      exact congrArg (Int.bmod · (2 ^ 32)) h
    have hvalue : s.value.toInt = t.value.toInt :=
      (Int32.toInt_bmod s.value).symm.trans (hbmod.trans (Int32.toInt_bmod t.value))
    cases s
    cases t
    exact congrArg TypeTag.mk (Int32.toInt_inj.mp hvalue)

/-- **The tag of two names one behind the other** is that of the first, shifted by the code units
of the second, and that of the second. -/
theorem toInt_ofName_append (a b : String) :
    (ofName (a ++ b)).value.toInt =
      ((ofName a).value.toInt * 31 ^ (Utf16.encode b).length + (ofName b).value.toInt).bmod
        (2 ^ 32) := by
  have hsplit : (ofName (a ++ b)).value = (Utf16.encode b).foldl mix (ofName a).value := by
    rw [ofName_value, Utf16.encode_append, List.foldl_append, ← ofName_value]
  have hmixed := foldl_mix (ofName a).value.toInt (Utf16.encode b)
  rw [Int32.ofInt_toInt] at hmixed
  rw [hsplit, hmixed, toInt_ofName b, Int.add_bmod_bmod]
  exact Int32.toInt_ofInt

/-- The same as a congruence. -/
theorem ofName_append_modEq (a b : String) :
    (ofName (a ++ b)).value.toInt ≡
      (ofName a).value.toInt * 31 ^ (Utf16.encode b).length + (ofName b).value.toInt
        [ZMOD 2 ^ 32] := by
  rw [toInt_ofName_append]
  exact Int.bmod_emod

/-- A shift brings no two tags together. -/
theorem modEq_of_shifted {m n : ℤ} {k : ℕ} (h : m * 31 ^ k ≡ n * 31 ^ k [ZMOD 2 ^ 32]) :
    m ≡ n [ZMOD 2 ^ 32] := by
  have hprime : Int.gcd (2 ^ 32) (31 ^ k) = 1 := by
    have hbase : Nat.Coprime (2 ^ 32) 31 := by decide
    exact hbase.pow_right k
  have hcancelled := h.cancel_right_div_gcd (by decide)
  rw [hprime] at hcancelled
  exact hcancelled

variable {x y : String}

/-- Whether two names share a tag does not depend on what follows them. -/
theorem ofName_append_right_inj (q : String) :
    ofName (x ++ q) = ofName (y ++ q) ↔ ofName x = ofName y := by
  rw [eq_iff_modEq, eq_iff_modEq]
  constructor
  · intro h
    have hboth := (ofName_append_modEq x q).symm.trans (h.trans (ofName_append_modEq y q))
    exact modEq_of_shifted (hboth.add_right_cancel' _)
  · intro h
    refine (ofName_append_modEq x q).trans (Int.ModEq.trans ?_ (ofName_append_modEq y q).symm)
    exact (h.mul_right _).add_right _

/-- Nor does it depend on what precedes them, if they have as many code units. -/
theorem ofName_append_left_inj (p : String)
    (hlength : (Utf16.encode x).length = (Utf16.encode y).length) :
    ofName (p ++ x) = ofName (p ++ y) ↔ ofName x = ofName y := by
  have hx := ofName_append_modEq p x
  have hy := ofName_append_modEq p y
  rw [eq_iff_modEq, eq_iff_modEq]
  rw [hlength] at hx
  constructor
  · intro h
    exact (hx.symm.trans (h.trans hy)).add_left_cancel' _
  · intro h
    exact hx.trans ((h.add_left _).trans hy.symm)

/-- **Names that share a tag share it in every package.**  The tag of two names one behind the
other is the first one times 31 to the number of code units of the second, plus the second, in 32
bits.  So two names of as many code units have the same tag exactly if they have it behind any
prefix and in front of any suffix. -/
theorem ofName_homomorphism :
    (∀ (a b : String) (units : List ℕ), Utf16.Spells units b.toList →
      (ofName (a ++ b)).value.toInt =
        ((ofName a).value.toInt * 31 ^ units.length + (ofName b).value.toInt).bmod (2 ^ 32)) ∧
    ∀ (x y : String) (us vs : List ℕ), Utf16.Spells us x.toList → Utf16.Spells vs y.toList →
      us.length = vs.length →
      ∀ p q : String, ofName (p ++ x ++ q) = ofName (p ++ y ++ q) ↔ ofName x = ofName y := by
  constructor
  · intro a b units hspells
    obtain rfl := Utf16.spells_iff.mp hspells
    exact toInt_ofName_append a b
  · intro x y us vs hx hy hlength p q
    obtain rfl := Utf16.spells_iff.mp hx
    obtain rfl := Utf16.spells_iff.mp hy
    exact (ofName_append_right_inj q).trans (ofName_append_left_inj p hlength)

/-- A character with a pair of surrogates shares its tag with two characters of a code unit
each, and does so in a package. -/
theorem grinning_ofName_homomorphism :
    let x := "😀"
    let y := "\ud7ff\ue582"
    Utf16.Spells [0xD83D, 0xDE00] x.toList ∧ Utf16.Spells [0xD7FF, 0xE582] y.toList ∧
      ofName x = ofName y ∧ ofName ("pkg." ++ x ++ "[]") = ofName ("pkg." ++ y ++ "[]") ∧
      (ofName ("pkg." ++ x)).value.toInt =
        ((ofName "pkg.").value.toInt * 31 ^ 2 + (ofName x).value.toInt).bmod (2 ^ 32) := by
  intro x y
  have hx : Utf16.Spells [0xD83D, 0xDE00] x.toList := Utf16.spells_iff.mpr (by decide)
  have hy : Utf16.Spells [0xD7FF, 0xE582] y.toList := Utf16.spells_iff.mpr (by decide)
  have hshared : ofName x = ofName y := by decide
  obtain ⟨happend, hcontext⟩ := ofName_homomorphism
  have hcount : [0xD83D, 0xDE00].length = 2 := rfl
  have hvalue := happend "pkg." x _ hx
  rw [hcount] at hvalue
  exact ⟨hx, hy, hshared, (hcontext x y _ _ hx hy rfl "pkg." "[]").mpr hshared, hvalue⟩

-- Without as many code units, a prefix separates names that share a tag.
example : ofName "" = ofName "\x00" ∧ ofName "a" ≠ ofName "a\x00" := by decide

end TypeTag

end TagWire
