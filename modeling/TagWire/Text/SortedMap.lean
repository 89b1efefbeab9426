import TagWire.Text.Utf8

/-!
# Maps with sorted text keys

A map holds each key once, its entries in ascending order of their keys.  The
order of texts is that of their UTF-8 bytes.  `insert` replaces the value of a
key that is there already, so of several pairs with one key `ofPairs` keeps
the last.
-/

namespace TagWire

/-- The order of texts by their UTF-8 bytes. -/
def Utf8.Before (a b : String) : Prop := Utf8.encode a < Utf8.encode b

instance (a b : String) : Decidable (Utf8.Before a b) :=
  inferInstanceAs (Decidable (Utf8.encode a < Utf8.encode b))

/-- Entries in ascending order of their keys. -/
structure SortedMap (α : Type) where
  entries : List (String × α) := []
  ascending : (entries.map Prod.fst).Pairwise Utf8.Before := by exact .nil

namespace SortedMap

variable {α : Type}

/-- Puts an entry where its key belongs, in place of the entry with that key. -/
def insertEntry (key : String) (value : α) : List (String × α) → List (String × α)
  | [] => [(key, value)]
  | (other, held) :: rest =>
      if Utf8.Before key other then (key, value) :: (other, held) :: rest
      else if Utf8.Before other key then (other, held) :: insertEntry key value rest
      else (key, value) :: rest

/-- Every key of the longer list is the new one or was there before. -/
theorem mem_keys_insertEntry {key k : String} {value : α} {entries : List (String × α)}
    (h : k ∈ (insertEntry key value entries).map Prod.fst) :
    k = key ∨ k ∈ entries.map Prod.fst := by
  induction entries with
  | nil => simpa [insertEntry] using h
  | cons entry rest ih =>
      obtain ⟨other, held⟩ := entry
      rw [insertEntry] at h
      split at h
      · simpa using h
      · split at h
        · rcases List.mem_cons.mp h with h | h
          · simp [h]
          · rcases ih h with h | h <;> simp [h]
        · rcases List.mem_cons.mp h with h | h
          · simp [h]
          · simp [h]

/-- Keys that come neither before nor after each other have the same bytes. -/
theorem encode_eq_of_not_before {a b : String} (hab : ¬ Utf8.Before a b) (hba : ¬ Utf8.Before b a) :
    Utf8.encode a = Utf8.encode b :=
  List.le_antisymm (List.not_lt.mp hba) (List.not_lt.mp hab)

/-- Inserting keeps the keys in ascending order. -/
theorem pairwise_insertEntry {entries : List (String × α)} (key : String) (value : α)
    (h : (entries.map Prod.fst).Pairwise Utf8.Before) :
    ((insertEntry key value entries).map Prod.fst).Pairwise Utf8.Before := by
  induction entries with
  | nil => simp [insertEntry]
  | cons entry rest ih =>
      obtain ⟨other, held⟩ := entry
      obtain ⟨hother, hrest⟩ := List.pairwise_cons.mp h
      rw [insertEntry]
      split
      next hlt =>
        refine List.pairwise_cons.mpr ⟨fun k hk => ?_, h⟩
        rcases List.mem_cons.mp hk with rfl | hk
        · exact hlt
        · exact List.lt_trans hlt (hother k hk)
      next hnlt =>
        split
        next hgt =>
          refine List.pairwise_cons.mpr ⟨fun k hk => ?_, ih hrest⟩
          rcases mem_keys_insertEntry hk with rfl | hk
          · exact hgt
          · exact hother k hk
        next hngt =>
          have heq := encode_eq_of_not_before hnlt hngt
          refine List.pairwise_cons.mpr ⟨fun k hk => ?_, hrest⟩
          have := hother k hk
          simpa [Utf8.Before, heq] using this

/-- Adds an entry, or replaces the one with its key. -/
def insert (m : SortedMap α) (key : String) (value : α) : SortedMap α :=
  ⟨insertEntry key value m.entries, pairwise_insertEntry key value m.ascending⟩

/-- The map of some pairs, the last one of each key. -/
def ofPairs (pairs : List (String × α)) : SortedMap α :=
  pairs.foldl (fun m pair => m.insert pair.1 pair.2) {}

end SortedMap

end TagWire
