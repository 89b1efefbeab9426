import Mathlib.Data.List.Basic
import TagWire.Session.Source

/-!
# What sources deliver

A source delivers some bytes, in portions and with interruptions, and then its data
ends or it breaks.  A reader notices no more of this than the bytes it asks for:

* `Source.delivered`, `Source.breakage?`, `Source.after` — what a source delivers, what
  happens behind that, and what is left of it after a number of bytes;
* `Source.after_portion` — what is left has not been touched;
* `Source.demand_of_le`, `Source.demand_of_lt` — asking for bytes takes the next ones that
  are delivered, or there are too few of them.
-/

namespace TagWire

namespace Source

/-- The bytes that a source delivers before it breaks. -/
def delivered : Source → List UInt8
  | [] => []
  | .interruption :: later => delivered later
  | .failure _ :: _ => []
  | .portion first more :: later => first :: more ++ delivered later

/-- How a source breaks behind the bytes that it delivers, if it does. -/
def breakage? : Source → Option Breakage
  | [] => none
  | .interruption :: later => breakage? later
  | .failure breakage :: _ => some breakage
  | .portion _ _ :: later => breakage? later

/-- What is left of a source when it has delivered its next `n` bytes and nothing behind
them has been touched. -/
def after : Nat → Source → Source
  | 0, source => source
  | _ + 1, [] => []
  | n + 1, .interruption :: later => after (n + 1) later
  | _ + 1, .failure breakage :: later => .failure breakage :: later
  | n + 1, .portion _ more :: later => push (more.drop n) (after (n - more.length) later)

/-- How a reader that asks for more than a source delivers is let down. -/
def shortfall (source : Source) : Shortfall :=
  match source.breakage? with
  | none => .ended source.delivered.length
  | some breakage => .broke breakage

@[simp] theorem after_zero (source : Source) : source.after 0 = source := by
  cases source <;> rfl

@[simp] theorem push_nil (source : Source) : push [] source = source := rfl

/-- Bytes in front of a source are delivered first. -/
@[simp] theorem delivered_push (bytes : List UInt8) (source : Source) :
    (push bytes source).delivered = bytes ++ source.delivered := by
  cases bytes <;> rfl

@[simp] theorem breakage?_push (bytes : List UInt8) (source : Source) :
    (push bytes source).breakage? = source.breakage? := by
  cases bytes <;> rfl

/-- What is left delivers the bytes that are left. -/
@[simp] theorem delivered_after (n : Nat) (source : Source) :
    (source.after n).delivered = source.delivered.drop n := by
  induction source generalizing n with
  | nil => cases n <;> rfl
  | cons event later ih =>
      cases n with
      | zero => simp
      | succ n =>
          cases event with
          | interruption => exact ih (n + 1)
          | failure breakage => rfl
          | portion first more => simp [after, delivered, ih, List.drop_append]

/-- What is left breaks as the whole does. -/
@[simp] theorem breakage?_after (n : Nat) (source : Source) :
    (source.after n).breakage? = source.breakage? := by
  induction source generalizing n with
  | nil => cases n <;> rfl
  | cons event later ih =>
      cases n with
      | zero => simp
      | succ n =>
          cases event with
          | interruption => exact ih (n + 1)
          | failure breakage => rfl
          | portion first more => simp [after, breakage?, ih]

/-- Bytes alone are delivered without any trouble. -/
@[simp] theorem delivered_ofBytes (bytes : List UInt8) : (ofBytes bytes).delivered = bytes :=
  (delivered_push bytes []).trans (List.append_nil bytes)

@[simp] theorem breakage?_ofBytes (bytes : List UInt8) : (ofBytes bytes).breakage? = none :=
  breakage?_push bytes []

/-- Bytes in front of a source are left out first. -/
theorem after_push (n : Nat) (bytes : List UInt8) (source : Source) :
    (push bytes source).after n = push (bytes.drop n) (source.after (n - bytes.length)) := by
  cases bytes with
  | nil => simp
  | cons first more =>
      cases n with
      | zero => simp
      | succ n => simp [push, portion?, after]

@[simp] theorem after_ofBytes (n : Nat) (bytes : List UInt8) :
    (ofBytes bytes).after n = ofBytes (bytes.drop n) := by
  have hnil : ∀ k, after k [] = [] := by
    intro k
    cases k <;> rfl
  unfold ofBytes
  rw [after_push, hnil]

/-- Leaving out some bytes and then some more. -/
theorem after_after (m n : Nat) (source : Source) :
    (source.after m).after n = source.after (m + n) := by
  induction source generalizing m n with
  | nil => cases m <;> cases n <;> rfl
  | cons event later ih =>
      cases m with
      | zero => simp
      | succ m =>
          have hsum : m + 1 + n = m + n + 1 := by omega
          rw [hsum]
          cases event with
          | interruption => exact (ih (m + 1) n).trans (by rw [hsum]; rfl)
          | failure breakage => cases n <;> rfl
          | portion first more =>
              simp only [after]
              rw [after_push, ih, List.drop_drop, List.length_drop]
              congr 2
              omega

/-- A beginning of a source that does not break is left out first. -/
theorem after_append {front : Source} (hfront : front.breakage? = none) (back : Source) (n : Nat) :
    (front ++ back).after (front.delivered.length + (n + 1)) = back.after (n + 1) := by
  induction front with
  | nil => simp [delivered]
  | cons event later ih =>
      cases event with
      | interruption => exact ih hfront
      | failure breakage => cases hfront
      | portion first more =>
          have hlater := ih hfront
          have hcount : (delivered (.portion first more :: later)).length + (n + 1) =
              (more.length + ((delivered later).length + (n + 1))) + 1 := by
            simp only [delivered, List.length_append, List.length_cons]
            omega
          rw [hcount]
          simp only [List.cons_append, after]
          rw [List.drop_eq_nil_of_le (by omega), push_nil, Nat.add_sub_cancel_left]
          exact hlater

/-- A beginning of a source that does not break delivers its bytes first. -/
theorem delivered_append {front : Source} (hfront : front.breakage? = none) (back : Source) :
    (front ++ back).delivered = front.delivered ++ back.delivered := by
  induction front with
  | nil => rfl
  | cons event later ih =>
      cases event with
      | interruption => exact ih hfront
      | failure breakage => cases hfront
      | portion first more =>
          rw [List.cons_append, delivered, ih hfront, delivered, List.append_assoc]

/-- Nothing is touched behind the portion that delivers the last of the bytes asked for. -/
theorem after_portion {front : Source} (hfront : front.breakage? = none) (first : UInt8)
    (more : List UInt8) (back : Source) :
    (front ++ .portion first more :: back).after (front.delivered.length + (more.length + 1)) =
      back := by
  rw [after_append hfront]
  simp [after]

/-- What is left of a source falls short as the whole does. -/
theorem shortfall_fault_after (n : Nat) (source : Source) (part : Part) :
    (source.after n).shortfall.fault part = source.shortfall.fault part := by
  unfold shortfall
  rw [breakage?_after]
  cases source.breakage? <;> rfl

/-! ## Asking for bytes -/

/-- Asking for no bytes does not touch a source. -/
theorem demand_zero (source : Source) : source.demand 0 = (.ok [], source) := by
  rw [demand.eq_def, if_pos rfl]

/-- After an interruption a reader asks again. -/
theorem demand_interruption (n : Nat) (later : Source) :
    demand (n + 1) (.interruption :: later) = demand (n + 1) later := by
  rw [demand.eq_def, if_neg (Nat.succ_ne_zero n)]

/-- A portion may be more than is asked for. -/
theorem demand_portion_of_lt {n : Nat} {first : UInt8} {more : List UInt8} (h : n < more.length)
    (later : Source) :
    demand (n + 1) (.portion first more :: later) =
      (.ok (first :: more.take n), push (more.drop n) later) := by
  rw [demand.eq_def, if_neg (Nat.succ_ne_zero n)]
  cases hrest : more.drop n with
  | nil => exact absurd (List.drop_eq_nil_iff.mp hrest) (Nat.not_le.mpr h)
  | cons next rest =>
      simp only [List.drop_succ_cons, hrest, List.take_succ_cons]
      rfl

section Short

variable {n : Nat} {first : UInt8} {more : List UInt8} {later left : Source}
variable (h : more.length ≤ n)
include h

/-- If it is not, a reader asks for what is left. -/
theorem demand_portion_of_ok {bytes : List UInt8}
    (hlater : demand (n - more.length) later = (.ok bytes, left)) :
    demand (n + 1) (.portion first more :: later) = (.ok (first :: more ++ bytes), left) := by
  rw [demand.eq_def, if_neg (Nat.succ_ne_zero n)]
  simp only [List.drop_succ_cons, List.drop_eq_nil_of_le h, List.length_cons,
    Nat.add_sub_add_right, hlater]

theorem demand_portion_of_error {short : Shortfall}
    (hlater : demand (n - more.length) later = (.error short, left)) :
    demand (n + 1) (.portion first more :: later) = (.error (short.after (more.length + 1)), left)
      := by
  rw [demand.eq_def, if_neg (Nat.succ_ne_zero n)]
  simp only [List.drop_succ_cons, List.drop_eq_nil_of_le h, List.length_cons,
    Nat.add_sub_add_right, hlater]

end Short

/-- Bytes that are delivered are there to be taken. -/
theorem demand_of_le {n : Nat} {source : Source} (h : n ≤ source.delivered.length) :
    source.demand n = (.ok (source.delivered.take n), source.after n) := by
  induction source generalizing n with
  | nil =>
      have hzero : n = 0 := Nat.le_zero.mp h
      subst hzero
      rfl
  | cons event later ih =>
      cases n with
      | zero => rw [demand_zero, List.take_zero, after_zero]
      | succ n =>
          cases event with
          | interruption =>
              rw [demand_interruption]
              exact ih h
          | failure breakage => cases h
          | portion first more =>
              simp only [delivered, List.length_append, List.length_cons] at h
              by_cases hshort : n < more.length
              · have hnone : n - more.length = 0 := by omega
                rw [demand_portion_of_lt hshort, after, hnone, after_zero, delivered,
                  List.cons_append, List.take_succ_cons,
                  List.take_append_of_le_length (Nat.le_of_lt hshort)]
              · have hlong := Nat.not_lt.mp hshort
                rw [demand_portion_of_ok hlong (ih (by omega)), after,
                  List.drop_eq_nil_of_le hlong, push_nil, delivered, List.cons_append,
                  List.cons_append, List.take_succ_cons, List.take_append,
                  List.take_of_length_le hlong]

/-- More bytes than are delivered are not to be had. -/
theorem demand_of_lt {n : Nat} {source : Source} (h : source.delivered.length < n) :
    ∃ left, source.demand n = (.error source.shortfall, left) ∧
      (source.breakage? = none → left = []) := by
  induction source generalizing n with
  | nil =>
      rw [demand.eq_def, if_neg (Nat.ne_zero_of_lt h)]
      exact ⟨[], rfl, fun _ => rfl⟩
  | cons event later ih =>
      obtain ⟨n, rfl⟩ := Nat.exists_eq_succ_of_ne_zero (Nat.ne_zero_of_lt h)
      cases event with
      | interruption =>
          rw [demand_interruption]
          exact ih h
      | failure breakage =>
          rw [demand.eq_def, if_neg (Nat.succ_ne_zero n)]
          exact ⟨_, rfl, nofun⟩
      | portion first more =>
          simp only [delivered, List.length_append, List.length_cons] at h
          have hlater : (delivered later).length < n - more.length := by omega
          obtain ⟨left, hdemand, hleft⟩ := ih hlater
          refine ⟨left, ?_, hleft⟩
          rw [demand_portion_of_error (by omega) hdemand]
          have hbreakage : breakage? (.portion first more :: later) = breakage? later := rfl
          unfold shortfall
          rw [hbreakage]
          cases breakage? later <;> simp [Shortfall.after, delivered]
          omega

end Source

end TagWire
