import TagWire.Session.Reader

/-!
# Runs of programs

Programs on a session are sequenced by `>>=`, and a session stops at the first
failure.  A run of a sequence is read off the run of its first part:

* `run_bind_ok`, `run_bind_error` — the second part runs where the first one
  ended, or not at all;
* `run_bind_eq_ok_iff` — a sequence succeeds when both parts do;
* `Read.run_take_ok`, `Read.run_take_error` — a part is taken as far as the source
  delivers it;
* `Read.run_within_full`, `Read.run_within_ok`, `Read.run_within_error` — a value is
  entered one level down, if there is room for it;
* `Read.outcome`, `Read.outcome_fst_eq_ok_iff`, `Read.outcome_fst_eq_error_iff` — what a run
  comes to.
-/

namespace TagWire

variable {ε σ α β : Type} {p : EStateM ε σ α} {q : α → EStateM ε σ β} {s s' : σ}

/-- The second part runs where the first one ended. -/
theorem run_bind_ok {a : α} (h : p s = .ok a s') : (p >>= q) s = q a s' := by
  simp [bind, EStateM.bind, h]

/-- A failure ends a sequence. -/
theorem run_bind_error {e : ε} (h : p s = .error e s') : (p >>= q) s = .error e s' := by
  simp [bind, EStateM.bind, h]

/-- Looking at the state of a session leaves it as it is. -/
theorem run_get_bind {q : σ → EStateM ε σ β} : (get >>= q) s = q s s := by
  rfl

/-- A sequence succeeds when both parts do, one after the other. -/
theorem run_bind_eq_ok_iff {b : β} {t : σ} :
    (p >>= q) s = .ok b t ↔ ∃ a s', p s = .ok a s' ∧ q a s' = .ok b t := by
  constructor
  · intro h
    cases hp : p s with
    | ok a s' => exact ⟨a, s', rfl, (run_bind_ok hp).symm.trans h⟩
    | error e s' => cases (run_bind_error hp).symm.trans h
  · intro h
    rcases h with ⟨a, s', hp, hq⟩
    rw [run_bind_ok hp, hq]

namespace Read

variable {ι α β : Type} {fields : Read ι α} {r r' : Reader ι}

/-- A part is taken when the source delivers it. -/
theorem run_take_ok (hr : r.poisoned = false) (part : Part) {n : Nat} {bytes : List UInt8}
    {source : Source} (h : r.source.demand n = (.ok bytes, source)) :
    take part n r = .ok bytes { r with source } := by
  unfold take
  rw [hr, h]
  rfl

/-- A part is not taken when the source falls short. -/
theorem run_take_error (hr : r.poisoned = false) (part : Part) {n : Nat}
    {shortfall : Source.Shortfall} {source : Source}
    (h : r.source.demand n = (.error shortfall, source)) :
    take part n r =
      .error (.session (shortfall.fault part)) { r with source, poisoned := true } := by
  unfold take
  rw [hr, h]
  rfl

/-- No value is entered when as many are open as may be. -/
theorem run_within_full (h : r.limits.maxDepth ≤ r.depth) :
    within fields r =
      .error (.session (.depthExceeded r.limits.maxDepth)) { r with poisoned := true } := by
  unfold within
  rw [if_pos h]
  rfl

/-- A value that is read is left again. -/
theorem run_within_ok {a : α} (hroom : ¬ r.limits.maxDepth ≤ r.depth)
    (h : fields { r with depth := r.depth + 1 } = .ok a r') :
    within fields r = .ok a { r' with depth := r'.depth - 1 } := by
  unfold within
  rw [if_neg hroom, h]

/-- A value that fails is left as well. -/
theorem run_within_error {failure : Failure} (hroom : ¬ r.limits.maxDepth ≤ r.depth)
    (h : fields { r with depth := r.depth + 1 } = .error failure r') :
    within fields r = .error failure { r' with depth := r'.depth - 1 } := by
  unfold within
  rw [if_neg hroom, h]

/-- What is done with the result of fields may be done after the value was left. -/
theorem within_map (p : Read ι α) (f : α → β) :
    within (do return f (← p)) = (do return f (← within p)) := by
  funext r
  by_cases hfull : r.limits.maxDepth ≤ r.depth
  · rw [run_within_full hfull, run_bind_error (run_within_full hfull)]
  · cases hrun : p { r with depth := r.depth + 1 } with
    | ok a s =>
        rw [run_bind_ok (run_within_ok hfull hrun)]
        exact run_within_ok hfull (run_bind_ok hrun)
    | error failure s =>
        rw [run_bind_error (run_within_error hfull hrun)]
        exact run_within_error hfull (run_bind_error hrun)

/-- What a run comes to: its value or its fault, and what is left of the source. -/
def outcome : EStateM.Result Failure (Reader ι) α → Except Fault α × Source
  | .ok a r => (.ok a, r.source)
  | .error failure r => (.error failure.fault, r.source)

/-- A run comes to a value if it ends with this value. -/
theorem outcome_eq_ok_iff {run : EStateM.Result Failure (Reader ι) α} {a : α} {source : Source} :
    outcome run = (.ok a, source) ↔ ∃ r, run = .ok a r ∧ r.source = source := by
  cases run <;> simp [outcome, and_assoc]

/-- The same of the value alone. -/
theorem outcome_fst_eq_ok_iff {run : EStateM.Result Failure (Reader ι) α} {a : α} :
    (outcome run).1 = .ok a ↔ ∃ r, run = .ok a r := by
  cases run <;> simp [outcome]

/-- A run comes to a fault if it ends in a failure with this fault. -/
theorem outcome_fst_eq_error_iff {run : EStateM.Result Failure (Reader ι) α} {fault : Fault} :
    (outcome run).1 = .error fault ↔
      ∃ failure r, run = .error failure r ∧ failure.fault = fault := by
  cases run <;> simp [outcome]

end Read

end TagWire
