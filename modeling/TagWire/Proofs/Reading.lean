import TagWire.Proofs.Calendar
import TagWire.Proofs.Decimal
import TagWire.Proofs.Grammar
import TagWire.Proofs.Programs
import TagWire.Proofs.Sources
import TagWire.Proofs.Utf8
import TagWire.Schema.Reading

/-!
# What the calls of a read session accept

A program recognises a relation between values and bytes when, on any input, it
succeeds with a value exactly if the input begins with bytes related to that
value, and stands behind these bytes then:

* `Source.demand_ofBytes_append`, `Source.demand_ofBytes_of_lt` — what a source
  delivers, and when it falls short;
* `Read.Recognises` — the relation which a program recognises, and how that of a
  sequence of calls follows from its parts;
* `Scalar.recognises`, `Leaf.recognises` — the calls for single values accept the
  spellings of the grammar.
-/

namespace TagWire

variable {ι α β γ : Type}

namespace Source

/-- Bytes that are there are delivered. -/
theorem demand_ofBytes_append (a b : List UInt8) :
    (ofBytes (a ++ b)).demand a.length = (.ok a, ofBytes b) := by
  rw [demand_of_le (by simp)]
  simp

/-- The bytes of a source can be told from the source. -/
theorem ofBytes_injective {a b : List UInt8} (h : ofBytes a = ofBytes b) : a = b := by
  rw [← delivered_ofBytes a, h, delivered_ofBytes]

/-- Bytes that are not there are reported with the number of those that are. -/
theorem demand_ofBytes_of_lt {n : Nat} {bytes : List UInt8} (h : bytes.length < n) :
    (ofBytes bytes).demand n = (.error (.ended bytes.length), []) := by
  have hlt : (ofBytes bytes).delivered.length < n := by simpa using h
  obtain ⟨left, hdemand, hleft⟩ := demand_of_lt hlt
  rw [hdemand, hleft (breakage?_ofBytes bytes), shortfall]
  simp

end Source

/-- The session with these bytes to read. -/
def Reader.on (r : Reader ι) (bytes : List UInt8) : Reader ι :=
  { r with source := Source.ofBytes bytes }

/-- The rules that a session reads by. -/
def Reader.rules (r : Reader ι) : Rules ι := .of r.limits r.resolver?

/-- A new session on some bytes. -/
def Reader.start (limits : Limits) (resolver? : Option (TypeTag → Except Fault ι))
    (bytes : List UInt8) : Reader ι :=
  { source := Source.ofBytes bytes, limits, resolver? }

namespace Read

variable {r : Reader ι} {p : Read ι α} {q : α → Read ι β}
variable {P P' : α → List UInt8 → Prop} {Q : α → β → List UInt8 → Prop}

/-- A program that accepts the bytes related to a value and yields the value. -/
def Recognises (r : Reader ι) (p : Read ι α) (P : α → List UInt8 → Prop) : Prop :=
  ∀ b a r', p (r.on b) = .ok a r' ↔ ∃ w rest, b = w ++ rest ∧ P a w ∧ r' = r.on rest

/-- A value or, spelled by bytes of their own, its absence. -/
def Optional (absence : List UInt8) (P : α → List UInt8 → Prop) : Option α → List UInt8 → Prop
  | none, w => w = absence
  | some a, w => P a w

namespace Recognises

/-- The relation may be put differently. -/
theorem congr (h : Recognises r p P) (hPP : ∀ a w, P a w ↔ P' a w) : Recognises r p P' := by
  intro b a r'
  rw [h b a r']
  simp only [hPP]

/-- One program after another accepts the bytes of both. -/
theorem bind (hp : Recognises r p P) (hq : ∀ a, Recognises r (q a) (Q a)) :
    Recognises r (p >>= q) fun c w => ∃ a u v, w = u ++ v ∧ P a u ∧ Q a c v := by
  intro b c r'
  rw [run_bind_eq_ok_iff]
  constructor
  · intro h
    rcases h with ⟨a, s, hpa, hqc⟩
    obtain ⟨u, rest, rfl, hP, rfl⟩ := (hp _ _ _).mp hpa
    obtain ⟨v, rest, rfl, hQ, rfl⟩ := (hq a _ _ _).mp hqc
    exact ⟨u ++ v, rest, by simp, ⟨a, u, v, rfl, hP, hQ⟩, rfl⟩
  · intro h
    rcases h with ⟨w, rest, rfl, ⟨a, u, v, rfl, hP, hQ⟩, rfl⟩
    refine ⟨a, r.on (v ++ rest), (hp _ _ _).mpr ⟨u, v ++ rest, by simp, hP, rfl⟩, ?_⟩
    exact (hq a _ _ _).mpr ⟨v, rest, rfl, hQ, rfl⟩

end Recognises

/-- A program without calls accepts no bytes. -/
theorem recognises_pure (a : α) : Recognises r (pure a) fun c w => c = a ∧ w = [] := by
  intro b c r'
  constructor
  · intro h
    cases h
    exact ⟨[], b, rfl, ⟨rfl, rfl⟩, rfl⟩
  · intro h
    rcases h with ⟨w, rest, rfl, ⟨rfl, rfl⟩, rfl⟩
    rfl

/-- A fault accepts nothing. -/
theorem recognises_fail (fault : Fault) :
    Recognises r (fail fault : Read ι α) fun _ _ => False := by
  intro b a r'
  constructor
  · intro h
    cases h
  · intro h
    rcases h with ⟨w, rest, -, ⟨⟩, -⟩

/-- A fault of the caller accepts nothing. -/
theorem recognises_refuse (fault : Fault) :
    Recognises r (refuse fault : Read ι α) fun _ _ => False := by
  intro b a r'
  constructor
  · intro h
    cases h
  · intro h
    rcases h with ⟨w, rest, -, ⟨⟩, -⟩

/-- A conversion takes no bytes, and may refuse. -/
theorem recognises_converted (e : Except Fault α) :
    Recognises r (converted e) fun a w => e = .ok a ∧ w = [] := by
  cases e with
  | ok a => exact (recognises_pure a).congr fun c w => by simp [eq_comm]
  | error fault => exact (recognises_fail fault).congr fun c w => by simp

namespace Recognises

/-- A program whose result is changed afterwards. -/
theorem map (hp : Recognises r p P) (f : α → β) :
    Recognises r (do return f (← p)) fun c w => ∃ a, c = f a ∧ P a w := by
  apply (hp.bind fun a => recognises_pure (f a)).congr
  intro c w
  constructor
  · intro h
    rcases h with ⟨a, u, v, rfl, hP, rfl, rfl⟩
    exact ⟨a, rfl, by simpa using hP⟩
  · intro h
    rcases h with ⟨a, rfl, hP⟩
    exact ⟨a, w, [], by simp, hP, rfl, rfl⟩

/-- A conversion behind a program accepts what can be converted. -/
theorem convert (hp : Recognises r p P) (e : α → Except Fault β) :
    Recognises r (do converted (e (← p))) fun c w => ∃ a, P a w ∧ e a = .ok c := by
  apply (hp.bind fun a => recognises_converted (e a)).congr
  intro c w
  constructor
  · intro h
    rcases h with ⟨a, u, v, rfl, hP, hok, rfl⟩
    rw [List.append_nil]
    exact ⟨a, hP, hok⟩
  · intro h
    rcases h with ⟨a, hP, hok⟩
    exact ⟨a, w, [], (List.append_nil w).symm, hP, hok, rfl⟩

/-- A program that depends on the set-up of its session. -/
theorem get {q : Reader ι → Read ι α} (hq : Recognises r (q r) P) (h : ∀ b, q (r.on b) = q r) :
    Recognises r (MonadState.get >>= q) P := by
  intro b a r'
  rw [run_get_bind, h b]
  exact hq b a r'

/-- What follows a value that may be absent, if it depends on the value only when it is
there. -/
theorem optional {absence : List UInt8} {p : Read ι (Option α)} {q : Option α → Read ι (Option β)}
    (hp : Recognises r p (Optional absence P)) (hnone : q none = pure none)
    (hsome : ∀ a, Recognises r (q (some a)) fun o w => ∃ b, o = some b ∧ Q a b w) :
    Recognises r (p >>= q)
      (Optional absence fun b w => ∃ a u v, w = u ++ v ∧ P a u ∧ Q a b v) := by
  have hq : ∀ o, Recognises r (q o) fun c w =>
      match o with
      | none => c = none ∧ w = []
      | some a => ∃ b, c = some b ∧ Q a b w := by
    intro o
    cases o with
    | none =>
        rw [hnone]
        exact recognises_pure none
    | some a => exact hsome a
  apply (hp.bind hq).congr
  intro c w
  constructor
  · intro h
    rcases h with ⟨o, u, v, rfl, hP, hQ⟩
    cases o with
    | none =>
        obtain ⟨rfl, rfl⟩ := hQ
        rw [List.append_nil]
        exact hP
    | some a =>
        obtain ⟨b, rfl, hQ⟩ := hQ
        exact ⟨a, u, v, rfl, hP, hQ⟩
  · intro h
    cases c with
    | none => exact ⟨none, w, [], by simp, h, rfl, rfl⟩
    | some b =>
        obtain ⟨a, u, v, rfl, hP, hQ⟩ := h
        exact ⟨some a, u, v, rfl, hP, b, rfl, hQ⟩

/-- A value that may be absent, where its absence is refused. -/
theorem required {absence : List UInt8} {p : Read ι (Option α)} {q : Option α → Read ι α}
    (hp : Recognises r p (Optional absence P)) (hnone : Recognises r (q none) fun _ _ => False)
    (hsome : ∀ a, q (some a) = pure a) : Recognises r (p >>= q) P := by
  have hq : ∀ o, Recognises r (q o) fun a w => o = some a ∧ w = [] := by
    intro o
    cases o with
    | none => exact hnone.congr fun a w => by simp
    | some b =>
        rw [hsome]
        exact (recognises_pure b).congr fun a w => by simp [eq_comm]
  apply (hp.bind hq).congr
  intro a w
  constructor
  · intro h
    rcases h with ⟨o, u, v, rfl, hP, rfl, rfl⟩
    rw [List.append_nil]
    exact hP
  · intro hP
    exact ⟨some a, w, [], (List.append_nil w).symm, hP, rfl, rfl⟩

end Recognises

/-! ## Words and lengths -/

/-- Bytes of a part are taken as they are. -/
theorem recognises_take (hr : r.poisoned = false) (part : Part) (n : Nat) :
    Recognises r (take part n) fun bytes w => w = bytes ∧ bytes.length = n := by
  intro b bytes r'
  constructor
  · intro h
    by_cases hlength : b.length < n
    · cases (run_take_error (r := r.on b) hr part (Source.demand_ofBytes_of_lt hlength)).symm.trans h
    · have hdemand := Source.demand_ofBytes_append (b.take n) (b.drop n)
      rw [List.take_append_drop, List.length_take, Nat.min_eq_left (Nat.le_of_not_lt hlength)]
        at hdemand
      cases (run_take_ok (r := r.on b) hr part hdemand).symm.trans h
      exact ⟨b.take n, b.drop n, by simp, ⟨rfl, by simp; omega⟩, rfl⟩
  · intro h
    rcases h with ⟨w, rest, rfl, ⟨rfl, rfl⟩, rfl⟩
    exact run_take_ok (r := r.on (w ++ rest)) hr part (Source.demand_ofBytes_append w rest)

/-- Numbers below a power of 256 and the words that spell them. -/
theorem recognises_word (hr : r.poisoned = false) (part : Part) (width : Nat) :
    Recognises r (word part width) fun n w => n < 256 ^ width ∧ w = BigEndian.encode width n := by
  apply ((recognises_take hr part width).map BigEndian.decode).congr
  intro n w
  constructor
  · intro h
    rcases h with ⟨bytes, rfl, rfl, rfl⟩
    have hmod := BigEndian.decode_encode w.length (BigEndian.decode w)
    rw [BigEndian.encode_decode] at hmod
    refine ⟨?_, (BigEndian.encode_decode w).symm⟩
    rw [hmod]
    exact Nat.mod_lt _ (Nat.pow_pos (by decide))
  · intro h
    rcases h with ⟨hn, rfl⟩
    refine ⟨_, ?_, rfl, BigEndian.length_encode width n⟩
    rw [BigEndian.decode_encode, Nat.mod_eq_of_lt hn]

/-- Values that stand for the numbers below a power of 256. -/
theorem recognises_word_of {f : Nat → α} {g : α → Nat} {width : Nat} (hr : r.poisoned = false)
    (part : Part) (hfg : ∀ a, f (g a) = a) (hg : ∀ a, g a < 256 ^ width)
    (hgf : ∀ n < 256 ^ width, g (f n) = n) :
    Recognises r (do return f (← word part width)) fun a w => w = BigEndian.encode width (g a) := by
  apply ((recognises_word hr part width).map f).congr
  intro a w
  constructor
  · intro h
    rcases h with ⟨n, rfl, hn, rfl⟩
    rw [hgf n hn]
  · intro h
    subst h
    exact ⟨g a, (hfg a).symm, hg a, rfl⟩

theorem recognises_i32 (hr : r.poisoned = false) :
    Recognises r i32 fun v w => w = word32 v :=
  recognises_word_of hr .i32 (fun v => by simp) (fun v => v.toUInt32.toNat_lt)
    (fun n hn => by simp; omega)

theorem recognises_i64 (hr : r.poisoned = false) :
    Recognises r i64 fun v w => w = word64 v :=
  recognises_word_of hr .i64 (fun v => by simp) (fun v => v.toUInt64.toNat_lt)
    (fun n hn => by simp; omega)

/-- Any byte is a truth value. -/
theorem recognises_bool (hr : r.poisoned = false) :
    Recognises r bool fun v w => ∃ byte : UInt8, w = [byte] ∧ (v = false ↔ byte = 0) := by
  apply ((recognises_word hr .bool 1).map fun n => decide (n ≠ 0)).congr
  intro v w
  constructor
  · intro h
    rcases h with ⟨n, rfl, hn, rfl⟩
    refine ⟨UInt8.ofNat n, rfl, ?_⟩
    rw [← UInt8.toNat_inj]
    simp
    omega
  · intro h
    rcases h with ⟨byte, rfl, hv⟩
    refine ⟨byte.toNat, ?_, byte.toNat_lt, by simp [BigEndian.encode]⟩
    rw [← UInt8.toNat_inj] at hv
    cases v <;> simp_all

/-- A word that is not negative is that of a number below `2 ^ 31`, and each of these has
such a word. -/
theorem eq_ofNat_iff {v : Int32} {n : Nat} :
    (0 ≤ v.toInt ∧ n = v.toInt.toNat) ↔ n < 2 ^ 31 ∧ v = Int32.ofNat n := by
  have hlt := v.toInt_lt
  constructor
  · intro h
    rcases h with ⟨hpos, rfl⟩
    have hsmall : v.toInt.toNat < 2 ^ 31 := by omega
    refine ⟨hsmall, Int32.toInt_inj.mp ?_⟩
    rw [Int32.toInt_ofNat_of_lt hsmall]
    omega
  · intro h
    rcases h with ⟨hn, rfl⟩
    rw [Int32.toInt_ofNat_of_lt hn]
    omega

/-- The words of the lengths and counts that are allowed. -/
theorem fits_and_eq_ofNat_iff {n : Int32} {k : Nat} :
    r.rules.Fits k ∧ n = Int32.ofNat k ↔
      0 ≤ n.toInt ∧ n.toInt.toNat ≤ r.limits.maxLength ∧ k = n.toInt.toNat := by
  constructor
  · intro h
    rcases h with ⟨⟨hmax, hk⟩, hn⟩
    obtain ⟨hpos, rfl⟩ := eq_ofNat_iff.mpr ⟨hk, hn⟩
    exact ⟨hpos, hmax, rfl⟩
  · intro h
    rcases h with ⟨hpos, hmax, rfl⟩
    obtain ⟨hk, hn⟩ := eq_ofNat_iff.mp ⟨hpos, rfl⟩
    exact ⟨⟨hmax, hk⟩, hn⟩

/-- What is checked of a word that stands for a length or a count. -/
theorem recognises_checked (kind : Sized) (n : Int32) :
    Recognises r
      (if n = absentMark then return none
        else if n < 0 then fail (.invalidLength kind n.toInt)
        else if r.limits.maxLength < n.toInt.toNat then
          fail (.lengthLimitExceeded kind n.toInt.toNat r.limits.maxLength)
        else return some n.toInt.toNat : Read ι (Option Nat))
      fun o w => w = [] ∧ ((n = absentMark ∧ o = none) ∨
        ∃ k, o = some k ∧ r.rules.Fits k ∧ n = Int32.ofNat k) := by
  simp only [fits_and_eq_ofNat_iff]
  by_cases habsent : n = absentMark
  · subst habsent
    exact (recognises_pure none).congr fun o w => by simp [and_comm, absentMark]
  by_cases hneg : n < 0
  · have hnot : ¬ 0 ≤ n.toInt := Int.not_le.mpr (Int32.lt_iff_toInt_lt.mp hneg)
    rw [if_neg habsent, if_pos hneg]
    apply (recognises_fail _).congr
    intro o w
    simp only [habsent, hnot, false_and, and_false, exists_false, or_false]
  have hpos : 0 ≤ n.toInt := by
    rw [Int32.lt_iff_toInt_lt] at hneg
    exact Int.not_lt.mp hneg
  rw [if_neg habsent, if_neg hneg]
  by_cases hlong : r.limits.maxLength < n.toInt.toNat
  · rw [if_pos hlong]
    apply (recognises_fail _).congr
    intro o w
    simp only [habsent, Nat.not_le.mpr hlong, false_and, and_false, exists_false, or_false]
  · rw [if_neg hlong]
    apply (recognises_pure _).congr
    intro o w
    simp only [habsent, hpos, Nat.not_lt.mp hlong, false_and, false_or, true_and,
      exists_eq_left, and_comm]

/-- A length or a count is the mark of absence or a number that the limits allow. -/
theorem recognises_length? (hr : r.poisoned = false) (kind : Sized) :
    Recognises r (length? kind)
      (Optional (word32 absentMark) fun n w => r.rules.Fits n ∧ w = prefixBytes n) := by
  apply ((recognises_i32 hr).bind fun n => (recognises_checked kind n).get fun b => rfl).congr
  intro o w
  constructor
  · intro h
    rcases h with ⟨n, u, v, rfl, rfl, rfl, ⟨rfl, rfl⟩ | ⟨k, rfl, hfits, rfl⟩⟩
    · exact List.append_nil _
    · exact ⟨hfits, List.append_nil _⟩
  · intro h
    cases o with
    | none => exact ⟨absentMark, w, [], by simp, h, rfl, .inl ⟨rfl, rfl⟩⟩
    | some k =>
        obtain ⟨hfits, rfl⟩ := h
        exact ⟨Int32.ofNat k, _, [], (List.append_nil _).symm, rfl, rfl, .inr ⟨k, rfl, hfits, rfl⟩⟩

/-- A length or a count that must be there. -/
theorem recognises_length (hr : r.poisoned = false) (kind : Sized) :
    Recognises r (length kind) fun n w => r.rules.Fits n ∧ w = prefixBytes n :=
  (recognises_length? hr kind).required (recognises_fail _) fun _ => rfl

/-- Bytes behind their number. -/
theorem recognises_sized (hr : r.poisoned = false) (kind : Sized) (part : Part) :
    Recognises r (do take part (← length kind)) fun bytes w =>
      r.rules.Fits bytes.length ∧ w = prefixBytes bytes.length ++ bytes := by
  refine ((recognises_length hr kind).bind fun n => recognises_take hr part n).congr
    fun bytes w => ?_
  constructor
  · intro h
    rcases h with ⟨n, u, v, rfl, ⟨hfits, rfl⟩, rfl, rfl⟩
    exact ⟨hfits, rfl⟩
  · intro h
    rcases h with ⟨hfits, rfl⟩
    exact ⟨bytes.length, _, bytes, rfl, ⟨hfits, rfl⟩, rfl, rfl⟩

/-- What follows a byte that is not zero, or the byte zero alone. -/
theorem recognises_whenPresent (hr : r.poisoned = false) (hp : Recognises r p P) :
    Recognises r (whenPresent p) (Optional [0] fun a => r.rules.Present (P a)) := by
  have hrest : ∀ present : Bool, Recognises r
      (if present then return some (← p) else return none : Read ι (Option α))
      fun o w => if present = true then ∃ a, o = some a ∧ P a w else o = none ∧ w = [] := by
    intro present
    cases present with
    | false => exact recognises_pure none
    | true => exact hp.map some
  apply ((recognises_bool hr).bind hrest).congr
  intro o w
  constructor
  · intro h
    rcases h with ⟨present, u, v, rfl, ⟨flag, rfl, hflag⟩, h⟩
    cases present with
    | false =>
        obtain ⟨rfl, rfl⟩ := h
        obtain rfl := hflag.mp rfl
        rfl
    | true =>
        obtain ⟨a, rfl, hP⟩ := h
        exact ⟨flag, v, rfl, ⟨fun hzero => Bool.noConfusion (hflag.mpr hzero),
          fun hcanonical => Bool.noConfusion hcanonical⟩, hP⟩
  · intro h
    cases o with
    | none =>
        obtain rfl := h
        exact ⟨false, [0], [], rfl, ⟨0, rfl, by simp⟩, rfl, rfl⟩
    | some a =>
        obtain ⟨flag, v, rfl, hmarks, hP⟩ := h
        exact ⟨true, [flag], v, rfl, ⟨flag, rfl, by simp [hmarks.1]⟩, a, rfl, hP⟩

/-- Text in UTF-8 behind the number of its bytes. -/
theorem recognises_text (hr : r.poisoned = false) :
    Recognises r text (Optional (word32 absentMark) r.rules.Text) := by
  have hok : ∀ {spelled : List UInt8} {v : String},
      (Utf8.decode spelled).mapError Fault.invalidUtf8 = .ok v ↔ spelled = Utf8.encode v := by
    intro spelled v
    rw [← Utf8.decode_eq_ok_iff]
    cases Utf8.decode spelled <;> simp [Except.mapError]
  have hspelled : ∀ n, Recognises r
      (do
        let spelled ← take .text n
        return some (← converted ((Utf8.decode spelled).mapError .invalidUtf8)))
      fun o w => ∃ v, o = some v ∧ w = Utf8.encode v ∧ w.length = n := by
    intro n
    refine ((recognises_take hr .text n).bind fun spelled =>
      (recognises_converted _).map some).congr fun o w => ?_
    constructor
    · intro h
      rcases h with ⟨spelled, u, v, rfl, ⟨rfl, hlength⟩, text, rfl, hdecode, rfl⟩
      rw [List.append_nil]
      exact ⟨text, rfl, hok.mp hdecode, hlength⟩
    · intro h
      rcases h with ⟨v, rfl, rfl, rfl⟩
      exact ⟨_, _, [], (List.append_nil _).symm, ⟨rfl, rfl⟩, v, rfl, hok.mpr rfl, rfl⟩
  have htext : Recognises r text (Optional _ _) :=
    (recognises_length? hr .text).optional rfl hspelled
  apply htext.congr
  intro o w
  cases o with
  | none => exact Iff.rfl
  | some v =>
      constructor
      · intro h
        rcases h with ⟨n, u, spelled, rfl, ⟨hfits, rfl⟩, rfl, rfl⟩
        exact ⟨hfits, rfl⟩
      · intro h
        rcases h with ⟨hfits, rfl⟩
        exact ⟨_, _, _, rfl, ⟨hfits, rfl⟩, rfl, rfl⟩

/-- Text that must be there. -/
theorem recognises_string (hr : r.poisoned = false) : Recognises r string r.rules.Text :=
  (recognises_text hr).required (recognises_fail _) fun _ => rfl

end Read

/-! ## Scalars and leaves -/

open Read

variable {r : Reader ι}

/-- A scalar is read from its spellings. -/
theorem Scalar.recognises (hr : r.poisoned = false) (s : Scalar) :
    Recognises r s.read (s.Spelled r.rules) := by
  cases s with
  | i32 => exact recognises_i32 hr
  | i64 => exact recognises_i64 hr
  | f32 =>
      exact recognises_word_of hr .f32 (fun v => by simp) (fun v => v.toNat_lt)
        (fun n hn => by simp; omega)
  | f64 =>
      exact recognises_word_of hr .f64 (fun v => by simp) (fun v => v.toNat_lt)
        (fun n hn => by simp; omega)
  | bool =>
      apply (recognises_bool hr).congr
      intro v w
      simp [Spelled, Reader.rules, Rules.of]
  | i8 =>
      refine (recognises_word_of (f := fun n => (UInt8.ofNat n).toInt8)
        (g := fun v => v.toUInt8.toNat) hr .i8 (fun v => by simp) (fun v => v.toUInt8.toNat_lt)
        (fun n hn => by simp; omega)).congr fun v w => ?_
      simp [Spelled, BigEndian.encode]
  | i16 =>
      exact recognises_word_of hr .i16 (fun v => by simp) (fun v => v.toUInt16.toNat_lt)
        (fun n hn => by simp; omega)
  | codeUnit =>
      exact recognises_word_of hr .codeUnit (fun v => by simp) (fun v => v.toNat_lt)
        (fun n hn => by simp; omega)

/-- A conversion whose fault is put differently succeeds as it does. -/
theorem mapError_eq_ok_iff {ε ε' : Type} {f : ε → ε'} {e : Except ε α} {a : α} :
    e.mapError f = .ok a ↔ e = .ok a := by
  cases e <;> simp [Except.mapError]

/-- A decimal is read from its spellings. -/
theorem Decimal.recognises (hr : r.poisoned = false) :
    Recognises r Read.decimal (Optional [0] fun d => r.rules.Present (d.Spelled r.rules)) := by
  have hparts : Recognises r
      (do
        let scale ← i32
        let n ← length .decimalMagnitude
        let unscaled ← take .decimalMagnitude n
        converted ((Decimal.ofParts scale unscaled).mapError .decimalOutOfRange))
      fun d w => d.Spelled r.rules w := by
    refine ((recognises_i32 hr).bind fun scale => (recognises_length hr .decimalMagnitude).bind
      fun n => (recognises_take hr .decimalMagnitude n).convert fun unscaled =>
        (Decimal.ofParts scale unscaled).mapError .decimalOutOfRange).congr fun d w => ?_
    simp only [mapError_eq_ok_iff, Decimal.ofParts_eq_ok_iff]
    constructor
    · intro h
      rcases h with ⟨scale, _, _, rfl, rfl, _, _, magnitude, rfl, ⟨hfits, rfl⟩, _, ⟨rfl, rfl⟩,
        hne, hunscaled, hscale⟩
      refine ⟨scale, magnitude, by simp, ?_, hne, hfits, fun hcanonical => ?_⟩
      · rw [← hunscaled, ← hscale]
      · exact Bool.noConfusion hcanonical
    · intro h
      rcases h with ⟨scale, magnitude, rfl, rfl, hne, hfits, -⟩
      exact ⟨scale, _, _, List.append_assoc .., rfl, _, _, magnitude, rfl, ⟨hfits, rfl⟩, _,
        ⟨rfl, rfl⟩, hne, rfl, rfl⟩
  exact recognises_whenPresent hr hparts

/-- A fixed decimal is read from its spellings. -/
theorem FixedDecimal.recognises (hr : r.poisoned = false) :
    Recognises r Read.fixed (Optional [0] fun v => r.rules.Present (v.Spelled r.rules)) := by
  have hnarrowed : ∀ d : Decimal, Recognises r
      (do return some (← converted (d.toFixed.mapError .decimalOutOfRange)))
      fun o w => ∃ v, o = some v ∧ d.toFixed = .ok v ∧ w = [] := by
    intro d
    apply ((recognises_converted _).map some).congr
    intro o w
    simp only [mapError_eq_ok_iff]
  have hfixed : Recognises r Read.fixed (Optional _ _) :=
    (Decimal.recognises hr).optional rfl hnarrowed
  apply hfixed.congr
  intro o w
  cases o with
  | none => exact Iff.rfl
  | some v =>
      constructor
      · intro h
        rcases h with ⟨d, u, _, rfl, ⟨flag, rest, rfl, hmarks, hd⟩, hv, rfl⟩
        rw [List.append_nil]
        exact ⟨flag, rest, rfl, hmarks, d, hd, hv, fun hcanonical => Bool.noConfusion hcanonical⟩
      · intro h
        rcases h with ⟨flag, rest, rfl, hmarks, d, hd, hv, -⟩
        exact ⟨d, _, [], (List.append_nil _).symm, ⟨flag, rest, rfl, hmarks, hd⟩, hv, rfl⟩

/-- A date is read from its spellings. -/
theorem Date.recognises (hr : r.poisoned = false) :
    Recognises r Read.date (Optional [0] fun v => r.rules.Present v.Spelled) := by
  have hday : Recognises r (do converted (Date.ofDay (← i64))) fun v w => v.Spelled w := by
    apply ((recognises_i64 hr).convert Date.ofDay).congr
    intro v w
    simp only [Date.ofDay_eq_ok_iff, Spelled, ← Date.toInt_day64, Int64.toInt_inj]
  exact recognises_whenPresent hr hday

/-- A timestamp is read from its spellings. -/
theorem DateTime.recognises_timestamp (hr : r.poisoned = false) :
    Recognises r Read.timestamp (Optional [0] fun v => r.rules.Present v.SpelledTimestamp) := by
  have hparts : Recognises r
      (do
        let seconds ← i64
        let nanos ← i32
        converted (DateTime.ofTimestamp seconds nanos))
      fun v w => v.SpelledTimestamp w := by
    refine ((recognises_i64 hr).bind fun seconds => (recognises_i32 hr).convert
      fun nanos => DateTime.ofTimestamp seconds nanos).congr fun v w => ?_
    simp only [DateTime.ofTimestamp_eq_ok_iff, Prod.ext_iff, ← Int64.toInt_inj, ← Int32.toInt_inj,
      DateTime.toInt_toTimestamp_fst, DateTime.toInt_toTimestamp_snd]
    constructor
    · intro h
      rcases h with ⟨seconds, _, _, rfl, rfl, nanos, rfl, hseconds, hnanos⟩
      exact ⟨seconds, nanos, rfl, hseconds.symm, hnanos.symm⟩
    · intro h
      rcases h with ⟨seconds, nanos, rfl, hseconds, hnanos⟩
      exact ⟨seconds, _, _, rfl, rfl, nanos, rfl, hseconds.symm, hnanos.symm⟩
  exact recognises_whenPresent hr hparts

/-- A date-time is read from its spellings. -/
theorem DateTime.recognises (hr : r.poisoned = false) :
    Recognises r Read.dateTime (Optional [0] fun v => r.rules.Present v.Spelled) := by
  have hparts : Recognises r
      (do
        let day ← i64
        let nano ← i64
        converted (DateTime.ofDayAndNano day nano))
      fun v w => v.Spelled w := by
    refine ((recognises_i64 hr).bind fun day => (recognises_i64 hr).convert
      fun nano => DateTime.ofDayAndNano day nano).congr fun v w => ?_
    simp only [DateTime.ofDayAndNano_eq_ok_iff, DateTime.toDayAndNano_eq_ok_iff]
    constructor
    · intro h
      rcases h with ⟨day, _, _, rfl, rfl, nano, rfl, htime⟩
      exact ⟨day, nano, rfl, htime⟩
    · intro h
      rcases h with ⟨day, nano, rfl, htime⟩
      exact ⟨day, _, _, rfl, rfl, nano, rfl, htime⟩
  exact recognises_whenPresent hr hparts

/-- The first variant of a name is the one that the name stands for. -/
theorem Enumeration.ofName?_eq_some_iff {V : Type} {e : Enumeration V} {name : String} {v : V} :
    e.ofName? name = some v ↔
      e.name v = name ∧
        ∃ before after, e.variants = before ++ v :: after ∧ ∀ u ∈ before, e.name u ≠ name := by
  simp [ofName?, List.find?_eq_some_iff_append]

/-- The variant at a position is the one that its ordinal stands for. -/
theorem Enumeration.ofOrdinal?_eq_some_iff {V : Type} {e : Enumeration V} {ordinal : Int32}
    {v : V} :
    e.ofOrdinal? ordinal = some v ↔
      ∃ i < 2 ^ 31, ordinal = Int32.ofNat i ∧ e.variants[i]? = some v := by
  have hneg : ordinal < 0 ↔ ¬ 0 ≤ ordinal.toInt := by
    rw [Int32.lt_iff_toInt_lt, Int.not_le]
    rfl
  unfold ofOrdinal?
  constructor
  · intro h
    split at h
    · cases h
    · next hpos =>
        obtain ⟨hlt, heq⟩ := eq_ofNat_iff.mp ⟨not_not.mp (mt hneg.mpr hpos), rfl⟩
        exact ⟨_, hlt, heq, h⟩
  · intro h
    rcases h with ⟨i, hlt, heq, hv⟩
    obtain ⟨hpos, rfl⟩ := eq_ofNat_iff.mpr ⟨hlt, heq⟩
    rw [if_neg fun h => hneg.mp h hpos]
    exact hv

/-- A value of an enumeration is read from the text of its name. -/
theorem Enumeration.recognises_name (hr : r.poisoned = false) (e : Enumeration String) :
    Recognises r (Read.enumName e)
      (Optional (word32 absentMark) ((Leaf.enumName e).Spelled r.rules)) := by
  refine Recognises.congr (p := Read.enumName e) ((recognises_text hr).optional
    (Q := fun name v w => e.ofName? name = some v ∧ w = []) rfl fun name => ?_) fun o w => ?_
  · dsimp only
    cases e.ofName? name with
    | none => exact (recognises_fail _).congr fun o w => by simp
    | some v => exact (recognises_pure _).congr fun o w => by simp
  · cases o with
    | none => exact Iff.rfl
    | some v =>
        simp only [Optional, Enumeration.ofName?_eq_some_iff]
        constructor
        · intro h
          rcases h with ⟨_, u, _, rfl, htext, ⟨rfl, before, after, hvariants, hfirst⟩, rfl⟩
          rw [List.append_nil]
          exact ⟨before, after, hvariants, hfirst, htext⟩
        · intro h
          rcases h with ⟨before, after, hvariants, hfirst, htext⟩
          exact ⟨e.name v, w, [], (List.append_nil w).symm, htext,
            ⟨rfl, before, after, hvariants, hfirst⟩, rfl⟩

/-- A value of an enumeration is read from its ordinal. -/
theorem Enumeration.recognises_ordinal (hr : r.poisoned = false) (e : Enumeration String) :
    Recognises r (Read.enumOrdinal e)
      (Optional (word32 absentMark) ((Leaf.enumOrdinal e).Spelled r.rules)) := by
  refine Recognises.congr (p := Read.enumOrdinal e) ((recognises_i32 hr).bind
    (Q := fun ordinal o w => w = [] ∧ ((ordinal = absentMark ∧ o = none) ∨
      ∃ v, o = some v ∧ ordinal ≠ absentMark ∧ e.ofOrdinal? ordinal = some v))
    fun ordinal => ?_) fun o w => ?_
  · by_cases habsent : ordinal = absentMark
    · rw [if_pos habsent]
      exact (recognises_pure none).congr fun o w => by simp [habsent, and_comm]
    · rw [if_neg habsent]
      cases e.ofOrdinal? ordinal with
      | none => exact (recognises_fail _).congr fun o w => by simp [habsent]
      | some v => exact (recognises_pure _).congr fun o w => by simp [habsent, and_comm]
  constructor
  · intro h
    rcases h with ⟨ordinal, u, _, rfl, rfl, rfl, ⟨rfl, rfl⟩ | ⟨v, rfl, hne, hv⟩⟩
    · exact List.append_nil _
    · obtain ⟨i, hi, rfl, hlisted⟩ := Enumeration.ofOrdinal?_eq_some_iff.mp hv
      exact ⟨i, hi, hlisted, List.append_nil _⟩
  · intro h
    cases o with
    | none => exact ⟨absentMark, w, [], (List.append_nil w).symm, h, rfl, .inl ⟨rfl, rfl⟩⟩
    | some v =>
        obtain ⟨i, hi, hv, rfl⟩ := h
        have hne : Int32.ofNat i ≠ absentMark := by
          intro heq
          have hpos := (eq_ofNat_iff.mpr ⟨hi, rfl⟩).1
          rw [heq] at hpos
          exact absurd hpos (by decide)
        exact ⟨Int32.ofNat i, _, [], (List.append_nil _).symm, rfl, rfl,
          .inr ⟨v, rfl, hne, Enumeration.ofOrdinal?_eq_some_iff.mpr ⟨i, hi, rfl, hv⟩⟩⟩

/-- A leaf or its absence is read from its spellings. -/
theorem Leaf.recognises (hr : r.poisoned = false) (l : Leaf) :
    Recognises r l.read (Optional l.absence (l.Spelled r.rules)) := by
  cases l with
  | text => exact recognises_text hr
  | decimal => exact Decimal.recognises hr
  | fixed => exact FixedDecimal.recognises hr
  | date => exact Date.recognises hr
  | timestamp => exact DateTime.recognises_timestamp hr
  | dateTime => exact DateTime.recognises hr
  | bytes => exact recognises_whenPresent hr (recognises_sized hr .bytes .bytes)
  | enumName e => exact Enumeration.recognises_name hr e
  | enumOrdinal e => exact Enumeration.recognises_ordinal hr e

end TagWire
