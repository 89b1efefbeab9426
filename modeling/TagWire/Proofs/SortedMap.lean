import Mathlib.Data.List.Induction
import TagWire.Proofs.Utf8
import TagWire.Text.SortedMap

/-!
# What a sorted map holds

The bytes of two different texts differ, so the order of keys is total, and a
map is known by its pairs:

* `mem_entries_ofPairs_iff` — the map of some pairs has each of their keys,
  with the value of the last pair of that key;
* `entries_ofPairs` — pairs in ascending order are the entries of their map;
* `length_entries_ofPairs_le` — a map has no more entries than it was given.
-/

namespace TagWire

namespace Utf8

/-- No text comes before itself. -/
theorem not_before_self (a : String) : ¬ Before a a := List.lt_irrefl _

/-- What comes before a text comes before all that it comes before. -/
theorem Before.trans {a b c : String} (hab : Before a b) (hbc : Before b c) : Before a c :=
  List.lt_trans hab hbc

/-- A text that comes before another is another one. -/
theorem Before.ne {a b : String} (h : Before a b) : a ≠ b := by
  intro h
  subst h
  exact not_before_self a h

/-- Of two different texts one comes before the other. -/
theorem eq_of_not_before {a b : String} (hab : ¬ Before a b) (hba : ¬ Before b a) : a = b :=
  encode_injective (SortedMap.encode_eq_of_not_before hab hba)

end Utf8

namespace SortedMap

variable {α : Type}

/-- Two maps with the same entries are the same. -/
theorem ext {m n : SortedMap α} (h : m.entries = n.entries) : m = n := by
  cases m
  cases n
  cases h
  rfl

/-- What is in a map after an entry was put into it. -/
theorem mem_insertEntry_iff {key k : String} {value v : α} {entries : List (String × α)}
    (h : (entries.map Prod.fst).Pairwise Utf8.Before) :
    (k, v) ∈ insertEntry key value entries ↔
      (k = key ∧ v = value) ∨ (k ≠ key ∧ (k, v) ∈ entries) := by
  induction entries with
  | nil => simp [insertEntry]
  | cons entry rest ih =>
      obtain ⟨other, held⟩ := entry
      rw [List.map_cons, List.pairwise_cons] at h
      obtain ⟨hother, hrest⟩ := h
      have hlater : ∀ w, (k, w) ∈ rest → Utf8.Before other k :=
        fun w hw => hother k (List.mem_map.mpr ⟨(k, w), hw, rfl⟩)
      rw [insertEntry]
      split
      next hlt =>
        have hne : (k, v) ∈ (other, held) :: rest → k ≠ key := by
          intro hmem
          rcases List.mem_cons.mp hmem with heq | hmem
          · cases heq
            exact hlt.ne.symm
          · exact (hlt.trans (hlater v hmem)).ne.symm
        rw [List.mem_cons, Prod.mk.injEq]
        exact or_congr_right ⟨fun hmem => ⟨hne hmem, hmem⟩, And.right⟩
      next hnlt =>
        split
        next hgt =>
          rw [List.mem_cons, List.mem_cons, ih hrest, Prod.mk.injEq]
          constructor
          · intro h
            rcases h with ⟨rfl, rfl⟩ | hnew | ⟨hne, hmem⟩
            · exact Or.inr ⟨hgt.ne, Or.inl ⟨rfl, rfl⟩⟩
            · exact Or.inl hnew
            · exact Or.inr ⟨hne, Or.inr hmem⟩
          · intro h
            rcases h with hnew | ⟨hne, hold | hmem⟩
            · exact Or.inr (Or.inl hnew)
            · exact Or.inl hold
            · exact Or.inr (Or.inr ⟨hne, hmem⟩)
        next hngt =>
          obtain rfl := Utf8.eq_of_not_before hnlt hngt
          rw [List.mem_cons, List.mem_cons, Prod.mk.injEq, Prod.mk.injEq]
          constructor
          · intro h
            rcases h with hnew | hmem
            · exact Or.inl hnew
            · exact Or.inr ⟨(hlater v hmem).ne.symm, Or.inr hmem⟩
          · intro h
            rcases h with hnew | ⟨hne, ⟨rfl, -⟩ | hmem⟩
            · exact Or.inl hnew
            · exact absurd rfl hne
            · exact Or.inr hmem

/-- One more entry makes a map longer by at most one. -/
theorem length_insertEntry_le (key : String) (value : α) (entries : List (String × α)) :
    (insertEntry key value entries).length ≤ entries.length + 1 := by
  induction entries with
  | nil => simp [insertEntry]
  | cons entry rest ih =>
      rw [insertEntry]
      split
      · simp
      · split <;> simp only [List.length_cons] <;> omega

/-- A key behind all others is put at the end. -/
theorem insertEntry_eq_append {key : String} {value : α} {entries : List (String × α)}
    (h : ∀ k ∈ entries.map Prod.fst, Utf8.Before k key) :
    insertEntry key value entries = entries ++ [(key, value)] := by
  induction entries with
  | nil => rfl
  | cons entry rest ih =>
      have hbefore : Utf8.Before entry.1 key := h entry.1 (by simp)
      have hnot : ¬ Utf8.Before key entry.1 := fun hlt =>
        Utf8.not_before_self key (hlt.trans hbefore)
      rw [insertEntry, if_neg hnot, if_pos hbefore, ih fun k hk => h k (by simp [hk])]
      rfl

/-- The last of some pairs is inserted last. -/
theorem ofPairs_append_singleton (pairs : List (String × α)) (pair : String × α) :
    ofPairs (pairs ++ [pair]) = (ofPairs pairs).insert pair.1 pair.2 := by
  simp [ofPairs]

/-- The map of some pairs holds each key with the value of its last pair. -/
theorem mem_entries_ofPairs_iff {pairs : List (String × α)} {k : String} {v : α} :
    (k, v) ∈ (ofPairs pairs).entries ↔
      ∃ before after, pairs = before ++ (k, v) :: after ∧ k ∉ after.map Prod.fst := by
  induction pairs using List.reverseRecOn with
  | nil => simp [ofPairs]
  | append_singleton pairs pair ih =>
      obtain ⟨key, value⟩ := pair
      rw [ofPairs_append_singleton, insert, mem_insertEntry_iff (ofPairs pairs).ascending, ih]
      constructor
      · intro h
        rcases h with ⟨rfl, rfl⟩ | ⟨hne, before, after, rfl, hlast⟩
        · exact ⟨pairs, [], rfl, by simp⟩
        · exact ⟨before, after ++ [(key, value)], by simp, by simpa [hne] using hlast⟩
      · intro h
        rcases h with ⟨before, after, hsplit, hlast⟩
        rcases List.eq_nil_or_concat after with rfl | ⟨after, last, rfl⟩
        · obtain ⟨-, hpair⟩ := List.append_inj' hsplit rfl
          cases hpair
          exact Or.inl ⟨rfl, rfl⟩
        · rw [List.concat_eq_append] at hsplit hlast
          have happend : pairs ++ [(key, value)] = (before ++ (k, v) :: after) ++ [last] := by
            simpa using hsplit
          obtain ⟨rfl, hpair⟩ := List.append_inj' happend rfl
          cases hpair
          rw [List.map_append, List.mem_append, not_or] at hlast
          exact Or.inr ⟨by simpa using hlast.2, before, after, rfl, hlast.1⟩

/-- Every entry of a map is one of its pairs. -/
theorem mem_of_mem_entries_ofPairs {pairs : List (String × α)} {entry : String × α}
    (h : entry ∈ (ofPairs pairs).entries) : entry ∈ pairs := by
  obtain ⟨before, after, rfl, -⟩ := mem_entries_ofPairs_iff.mp h
  simp

/-- A map has no more entries than it was given pairs. -/
theorem length_entries_ofPairs_le (pairs : List (String × α)) :
    (ofPairs pairs).entries.length ≤ pairs.length := by
  induction pairs using List.reverseRecOn with
  | nil => simp [ofPairs]
  | append_singleton pairs pair ih =>
      rw [ofPairs_append_singleton, List.length_append, List.length_singleton]
      have hinsert := length_insertEntry_le pair.1 pair.2 (ofPairs pairs).entries
      exact Nat.le_trans hinsert (Nat.succ_le_succ ih)

/-- Pairs in ascending order are the entries of their map. -/
theorem entries_ofPairs {pairs : List (String × α)}
    (h : (pairs.map Prod.fst).Pairwise Utf8.Before) : (ofPairs pairs).entries = pairs := by
  induction pairs using List.reverseRecOn with
  | nil => rfl
  | append_singleton pairs pair ih =>
      rw [List.map_append, List.pairwise_append] at h
      obtain ⟨hpairs, -, hlast⟩ := h
      rw [ofPairs_append_singleton, insert]
      dsimp only
      rw [ih hpairs, insertEntry_eq_append]
      intro k hk
      exact hlast k hk pair.1 (by simp)

/-- A map is the map of its entries. -/
theorem ofPairs_entries (m : SortedMap α) : ofPairs m.entries = m :=
  ext (entries_ofPairs m.ascending)

end SortedMap

end TagWire
