import Mathlib.Data.List.Basic
import TagWire.Session.Sink

/-!
# What sinks take

A sink takes a beginning of what is written to it, in however many writes:

* `Sink.write_append` — two writes are one write of both runs;
* `cutAt`, `hasRoom` — how much of a run there is room for, and whether that is all;
* `Sink.write_of_empty` — what a new sink makes of a run.
-/

namespace TagWire

/-- Two writes are one write of both runs, the second only after the first was whole. -/
theorem Sink.write_append (sink : Sink) (a b : List UInt8) :
    sink.write (a ++ b) =
      match sink.write a with
      | (.ok _, after) => after.write b
      | (.error cause, after) => (.error cause, after) := by
  obtain ⟨capacity?, whenFull, flushFails, held⟩ := sink
  cases capacity? with
  | none => simp [write, fitting]
  | some capacity =>
      by_cases hfits : a.length ≤ capacity - held.length
      · have hleft : capacity - held.length - a.length =
            capacity - (held.length + a.length) := by omega
        have hlength : a.length + min (capacity - (held.length + a.length)) b.length =
            a.length + b.length ↔
              min (capacity - (held.length + a.length)) b.length = b.length := by omega
        simp only [write, fitting, List.take_append, List.take_of_length_le hfits,
          List.length_append, if_true, List.append_assoc, hleft, List.length_take, hlength]
      · have hshort : (a.take (capacity - held.length)).length ≠ a.length := by
          rw [List.length_take]
          omega
        have hnone : capacity - held.length - a.length = 0 := by omega
        have htotal : (a.take (capacity - held.length)).length ≠ a.length + b.length := by
          rw [List.length_take]
          omega
        unfold write fitting
        dsimp only
        rw [List.take_append, hnone, List.take_zero, List.append_nil, List.length_append,
          if_neg htotal, if_neg hshort]

/-- A write succeeds when all bytes fit. -/
theorem Sink.fits_of_write_ok {sink after : Sink} {bytes : List UInt8}
    (h : sink.write bytes = (.ok (), after)) :
    (sink.fitting bytes).length = bytes.length := by
  unfold write at h
  dsimp only at h
  split at h
  · assumption
  · cases h

/-- A write fails when not all bytes fit. -/
theorem Sink.not_fits_of_write_error {sink after : Sink} {bytes : List UInt8}
    {cause : TransferFault} (h : sink.write bytes = (.error cause, after)) :
    (sink.fitting bytes).length ≠ bytes.length := by
  unfold write at h
  dsimp only at h
  split at h
  · cases h
  · assumption

/-- A write adds what fits to what the sink holds. -/
theorem Sink.write_snd (sink : Sink) (bytes : List UInt8) :
    (sink.write bytes).2 = { sink with held := sink.held ++ sink.fitting bytes } := by
  unfold write
  dsimp only
  split <;> rfl

/-- As many of the first bytes as there is room for. -/
def cutAt (capacity? : Option Nat) (bytes : List UInt8) : List UInt8 :=
  match capacity? with
  | none => bytes
  | some capacity => bytes.take capacity

/-- Whether there is room for so many bytes. -/
def hasRoom (capacity? : Option Nat) (length : Nat) : Bool :=
  match capacity? with
  | none => true
  | some capacity => length ≤ capacity

/-- There is room for less than there is room for. -/
theorem hasRoom_mono {capacity? : Option Nat} {m n : Nat} (hmn : m ≤ n)
    (h : hasRoom capacity? n = true) : hasRoom capacity? m = true := by
  cases capacity? with
  | none => rfl
  | some capacity => exact decide_eq_true (Nat.le_trans hmn (of_decide_eq_true h))

/-- With room for it, a run is taken whole. -/
theorem cutAt_of_hasRoom {capacity? : Option Nat} {bytes : List UInt8}
    (h : hasRoom capacity? bytes.length = true) : cutAt capacity? bytes = bytes := by
  cases capacity? with
  | none => rfl
  | some capacity => exact List.take_of_length_le (of_decide_eq_true h)

/-- Without room for a run, nothing is taken of what is behind it. -/
theorem cutAt_append_of_not_hasRoom {capacity? : Option Nat} {bytes : List UInt8}
    (h : ¬ hasRoom capacity? bytes.length = true) (more : List UInt8) :
    cutAt capacity? (bytes ++ more) = cutAt capacity? bytes := by
  cases capacity? with
  | none => exact absurd rfl h
  | some capacity =>
      have hfull : capacity < bytes.length := by simpa [hasRoom] using h
      exact List.take_append_of_le_length (Nat.le_of_lt hfull)

/-- What a sink takes of one more run is what it takes of both together. -/
theorem Sink.cutAt_append (sink : Sink) (a b : List UInt8) :
    cutAt sink.capacity? a ++ Sink.fitting { sink with held := cutAt sink.capacity? a } b =
      cutAt sink.capacity? (a ++ b) := by
  obtain ⟨capacity?, whenFull, flushFails, held⟩ := sink
  cases capacity? with
  | none => rfl
  | some capacity =>
      have hroom : capacity - (a.take capacity).length = capacity - a.length := by
        rw [List.length_take]
        omega
      simp only [cutAt, Sink.fitting, hroom, List.take_append]

/-- One more run that is not empty is taken whole when there is room for both. -/
theorem Sink.fits_iff_hasRoom (sink : Sink) (a : List UInt8) {b : List UInt8} (hb : 0 < b.length) :
    (Sink.fitting { sink with held := cutAt sink.capacity? a } b).length = b.length ↔
      hasRoom sink.capacity? (a ++ b).length = true := by
  obtain ⟨capacity?, whenFull, flushFails, held⟩ := sink
  cases capacity? with
  | none => simp [Sink.fitting, hasRoom]
  | some capacity =>
      simp only [cutAt, Sink.fitting, hasRoom, List.length_take, List.length_append,
        decide_eq_true_eq]
      omega

/-- A new sink takes as much of a run as it has room for. -/
theorem Sink.write_of_empty (capacity? : Option Nat) (whenFull : TransferFault)
    (flushFails : Bool) (bytes : List UInt8) :
    Sink.write { capacity?, whenFull, flushFails } bytes =
      (if hasRoom capacity? bytes.length = true then .ok () else .error whenFull,
        { capacity?, whenFull, flushFails, held := cutAt capacity? bytes }) := by
  cases capacity? with
  | none => simp [write, fitting, hasRoom, cutAt]
  | some capacity =>
      by_cases hroom : bytes.length ≤ capacity
      · simp [write, fitting, hasRoom, cutAt, hroom]
      · have hshort : (bytes.take capacity).length ≠ bytes.length := by
          rw [List.length_take]
          omega
        unfold write fitting hasRoom cutAt
        dsimp only
        rw [if_neg (by simpa using hshort), if_neg (by simpa using hroom)]
        rfl

end TagWire
