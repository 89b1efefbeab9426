import TagWire.Frame.Reader
import TagWire.Proofs.Sources
import TagWire.Proofs.Words

/-!
# The frame in front

A reader takes a frame by asking for the four bytes of its length and then for as many
as they announce.  What it finds depends on these bytes alone:

* `FrameReader.extent`, `FrameReader.content` — how many bytes that are, and what they
  hold;
* `FrameReader.next?_of_le`, `FrameReader.next?_of_unbroken`, `FrameReader.next?_of_broken` —
  the frame is read if a source delivers it; otherwise it is said how the source ends;
* `FrameReader.readUpTo_of_some` and its siblings — reading frames one after the other.
-/

namespace TagWire.FrameReader

variable {ι : Type} {S : Schema ι} {registry : Registry S} {source left : Source}
variable {limit : Nat} {bytes front rest : List UInt8}

/-- The length that the first four bytes announce. -/
def announced (bytes : List UInt8) : Int32 :=
  (UInt32.ofNat (BigEndian.decode (bytes.take 4))).toInt32

/-- Why a frame of an announced length is not read, if it is not. -/
def refusal? (limit : Nat) (length : Int32) : Option Fault :=
  if length < 0 then some (.invalidLength .frame length.toInt)
  else if limit < length.toInt.toNat then
    some (.lengthLimitExceeded .frame length.toInt.toNat limit)
  else none

/-- How many bytes a reader asks for until it is done with the frame in front. -/
def extent (limit : Nat) (bytes : List UInt8) : Nat :=
  if bytes.length < 4 then 4
  else match refusal? limit (announced bytes) with
    | some _ => 4
    | none => 4 + (announced bytes).toInt.toNat

/-- What the frame in front holds, if it is whole. -/
def content (registry : Registry S) (bytes : List UInt8) : Except Fault (Option (Instance S)) :=
  match refusal? registry.config.codec.maxLength (announced bytes) with
  | some fault => .error fault
  | none => (registry.decode ((bytes.drop 4).take (announced bytes).toInt.toNat)).map some

/-- How a reader reports that the data ends so many bytes behind a frame. -/
def cutFault? (left : Nat) : Option Fault :=
  if left = 0 then none
  else if left < 4 then some (.truncated .frameHeader)
  else some (.truncated .frame)

theorem four_le_extent (limit : Nat) (bytes : List UInt8) : 4 ≤ extent limit bytes := by
  unfold extent
  split
  · exact Nat.le_refl 4
  · split
    · exact Nat.le_refl 4
    · exact Nat.le_add_right 4 _

/-- A length that is written in front of a frame is announced. -/
theorem announced_encode {n : Nat} (hn : n < 2 ^ 31) (rest : List UInt8) :
    announced (BigEndian.encode 4 n ++ rest) = Int32.ofNat n := by
  unfold announced
  rw [List.take_left' (BigEndian.length_encode 4 n), BigEndian.decode_encode,
    Nat.mod_eq_of_lt (by omega)]
  rfl

/-- Lengths within the limit are not refused. -/
theorem refusal?_ofNat {n : Nat} (hn : n < 2 ^ 31) (hlimit : n ≤ limit) :
    refusal? limit (Int32.ofNat n) = none := by
  have hint : (Int32.ofNat n).toInt = n := Int32.toInt_ofNat_of_lt hn
  have hpos : ¬ Int32.ofNat n < 0 := by
    rw [Int32.lt_iff_toInt_lt, hint]
    exact Int.not_lt.mpr (Int.natCast_nonneg _)
  unfold refusal?
  rw [if_neg hpos, hint, Int.toNat_natCast, if_neg (Nat.not_lt.mpr hlimit)]

/-- A frame ends behind as many bytes as its length says. -/
theorem extent_encode {n : Nat} (hn : n < 2 ^ 31) (hlimit : n ≤ limit) (rest : List UInt8) :
    extent limit (BigEndian.encode 4 n ++ rest) = 4 + n := by
  have hlong : ¬ (BigEndian.encode 4 n ++ rest).length < 4 := by
    rw [List.length_append, BigEndian.length_encode]
    omega
  unfold extent
  rw [if_neg hlong, announced_encode hn, refusal?_ofNat hn hlimit]
  dsimp only
  rw [Int32.toInt_ofNat_of_lt hn, Int.toNat_natCast]

/-- These bytes are decoded. -/
theorem content_encode {body : List UInt8} (hn : body.length < 2 ^ 31)
    (hlimit : body.length ≤ registry.config.codec.maxLength) (rest : List UInt8) :
    content registry (BigEndian.encode 4 body.length ++ (body ++ rest)) =
      (registry.decode body).map some := by
  unfold content
  rw [announced_encode hn, refusal?_ofNat hn hlimit]
  dsimp only
  rw [List.drop_left' (BigEndian.length_encode 4 _), Int32.toInt_ofNat_of_lt hn,
    Int.toNat_natCast, List.take_left' rfl]

/-! ## Bytes behind the frame -/

theorem announced_append (h : 4 ≤ front.length) (rest : List UInt8) :
    announced (front ++ rest) = announced front := by
  unfold announced
  rw [List.take_append_of_le_length h]

/-- Where a frame ends is read off its first bytes. -/
theorem extent_append (h : 4 ≤ front.length) (rest : List UInt8) :
    extent limit (front ++ rest) = extent limit front := by
  unfold extent
  rw [announced_append h, List.length_append, if_neg (by omega), if_neg (by omega)]

/-- What is behind a frame does not matter to it. -/
theorem content_append (h : extent registry.config.codec.maxLength front ≤ front.length)
    (rest : List UInt8) : content registry (front ++ rest) = content registry front := by
  have hfour := Nat.le_trans (four_le_extent registry.config.codec.maxLength front) h
  unfold extent at h
  rw [if_neg (Nat.not_lt.mpr hfour)] at h
  unfold content
  rw [announced_append hfour, List.drop_append_of_le_length hfour]
  cases hrefusal : refusal? registry.config.codec.maxLength (announced front) with
  | some fault => rfl
  | none =>
      rw [hrefusal] at h
      dsimp only at h ⊢
      rw [List.take_append_of_le_length (by rw [List.length_drop]; omega)]

/-! ## The next frame of a source -/

/-- Of a frame that is not refused, its bytes are asked for. -/
theorem body_eq (limit : Nat) (length : Int32) (source : Source) :
    body limit length source =
      match refusal? limit length with
      | some fault => (.error fault, source)
      | none =>
        ((source.demand length.toInt.toNat).1.mapError (Source.Shortfall.fault .frame),
          (source.demand length.toInt.toNat).2) := by
  unfold body refusal?
  dsimp only
  split
  · rfl
  · split
    · rfl
    · cases source.demand length.toInt.toNat with
      | mk outcome after => cases outcome <;> rfl

/-- The length is read where its bytes are delivered. -/
theorem header?_of_le (h : 4 ≤ source.delivered.length) :
    header? source = (.ok (some (announced source.delivered)), source.after 4) := by
  unfold header?
  rw [Source.demand_of_le h]
  rfl

/-- A frame that is delivered whole is read. -/
theorem next?_of_le
    (h : extent registry.config.codec.maxLength source.delivered ≤ source.delivered.length) :
    next? registry source = (content registry source.delivered,
      source.after (extent registry.config.codec.maxLength source.delivered)) := by
  have hfour := Nat.le_trans (four_le_extent _ source.delivered) h
  unfold extent at h ⊢
  rw [if_neg (Nat.not_lt.mpr hfour)] at h ⊢
  unfold next? content
  rw [header?_of_le hfour]
  dsimp only
  rw [body_eq]
  cases hrefusal : refusal? registry.config.codec.maxLength (announced source.delivered) with
  | some fault => rfl
  | none =>
      rw [hrefusal] at h
      dsimp only at h ⊢
      have hn : (announced source.delivered).toInt.toNat ≤ (source.after 4).delivered.length := by
        rw [Source.delivered_after, List.length_drop]
        omega
      rw [Source.demand_of_le hn, Source.delivered_after, Source.after_after]
      rfl

/-- A length of which the data ends is reported, unless nothing is there of it. -/
theorem header?_of_unbroken (hbreakage : source.breakage? = none)
    (h : source.delivered.length < 4) :
    header? source =
      (match cutFault? source.delivered.length with
        | none => .ok none
        | some fault => .error fault, []) := by
  obtain ⟨left, hdemand, hleft⟩ := Source.demand_of_lt h
  have hshort : source.shortfall = .ended source.delivered.length := by
    unfold Source.shortfall
    rw [hbreakage]
  unfold header? cutFault?
  rw [hdemand, hshort, hleft hbreakage]
  cases hcount : source.delivered.length with
  | zero => rfl
  | succ n =>
      rw [if_neg (Nat.succ_ne_zero n), if_pos (hcount ▸ h)]
      rfl

/-- A source that breaks in a length is reported, however it breaks. -/
theorem header?_of_broken {breakage : Breakage} (hbreakage : source.breakage? = some breakage)
    (h : source.delivered.length < 4) :
    ∃ left, header? source = (.error (.transfer .sourceFailed), left) := by
  obtain ⟨left, hdemand, -⟩ := Source.demand_of_lt h
  have hshort : source.shortfall = .broke breakage := by
    unfold Source.shortfall
    rw [hbreakage]
  refine ⟨left, ?_⟩
  unfold header?
  rw [hdemand, hshort]

/-- If the length is there and the frame is not, as many bytes as it announces are asked for in
vain. -/
theorem next?_of_lt (hfour : 4 ≤ source.delivered.length)
    (h : source.delivered.length < extent registry.config.codec.maxLength source.delivered) :
    ∃ left, next? registry source = (.error (source.shortfall.fault .frame), left) ∧
      (source.breakage? = none → left = []) := by
  unfold extent at h
  rw [if_neg (Nat.not_lt.mpr hfour)] at h
  unfold next?
  rw [header?_of_le hfour]
  dsimp only
  rw [body_eq]
  cases hrefusal : refusal? registry.config.codec.maxLength (announced source.delivered) with
  | some fault =>
      rw [hrefusal] at h
      exact absurd hfour (Nat.not_le.mpr h)
  | none =>
      rw [hrefusal] at h
      dsimp only at h ⊢
      have hlt : (source.after 4).delivered.length < (announced source.delivered).toInt.toNat := by
        rw [Source.delivered_after, List.length_drop]
        omega
      obtain ⟨left, hdemand, hleft⟩ := Source.demand_of_lt hlt
      rw [Source.breakage?_after] at hleft
      refine ⟨left, ?_, hleft⟩
      rw [hdemand]
      dsimp only [Except.mapError]
      rw [Source.shortfall_fault_after]

/-- Of what a source delivers, only the frame in front matters. -/
theorem next?_of_front (hfront : front <+: source.delivered)
    (h : extent registry.config.codec.maxLength front ≤ front.length) :
    next? registry source = (content registry front,
      source.after (extent registry.config.codec.maxLength front)) := by
  obtain ⟨rest, hrest⟩ := hfront
  have hfour := Nat.le_trans (four_le_extent _ front) h
  have hextent : extent registry.config.codec.maxLength (front ++ rest) =
      extent registry.config.codec.maxLength front := extent_append hfour rest
  have hcontent := content_append h rest
  rw [hrest] at hextent hcontent
  have hlength : front.length ≤ source.delivered.length := by
    rw [← hrest, List.length_append]
    omega
  rw [next?_of_le (by omega), hextent, hcontent]

/-- A frame of which the data ends is reported, unless nothing is there of it. -/
theorem next?_of_unbroken (hbreakage : source.breakage? = none)
    (h : source.delivered.length < extent registry.config.codec.maxLength source.delivered) :
    next? registry source =
      (match cutFault? source.delivered.length with
        | none => .ok none
        | some fault => .error fault, []) := by
  by_cases hfour : source.delivered.length < 4
  · unfold next?
    rw [header?_of_unbroken hbreakage hfour]
    cases cutFault? source.delivered.length <;> rfl
  · obtain ⟨left, hnext, hleft⟩ := next?_of_lt (Nat.not_lt.mp hfour) h
    rw [hnext, hleft hbreakage]
    unfold Source.shortfall cutFault?
    rw [hbreakage, if_neg (by omega), if_neg hfour]
    rfl

/-- A frame in which a source breaks is reported as such. -/
theorem next?_of_broken {breakage : Breakage} (hbreakage : source.breakage? = some breakage)
    (h : source.delivered.length < extent registry.config.codec.maxLength source.delivered) :
    ∃ fault left, next? registry source = (.error fault, left) ∧
      (fault = .transfer .sourceFailed ∨ fault = .truncated .frame) := by
  by_cases hfour : source.delivered.length < 4
  · obtain ⟨left, hheader⟩ := header?_of_broken hbreakage hfour
    refine ⟨_, left, ?_, .inl rfl⟩
    unfold next?
    rw [hheader]
  · obtain ⟨left, hnext, -⟩ := next?_of_lt (Nat.not_lt.mp hfour) h
    refine ⟨_, left, hnext, ?_⟩
    unfold Source.shortfall
    rw [hbreakage]
    cases breakage with
    | endOfFile => exact .inr rfl
    | brokenPipe => exact .inl rfl

/-! ## One frame after the other -/

theorem readUpTo_of_some {x : Instance S} (h : next? registry source = (.ok (some x), left))
    (n : Nat) :
    readUpTo registry (n + 1) { source } =
      (.ok x :: (readUpTo registry n { source := left }).1,
        (readUpTo registry n { source := left }).2) := by
  have hframe : readFrame registry { source } = (.ok (some x), { source := left }) := by
    unfold readFrame
    rw [if_neg Bool.false_ne_true, h]
  rw [readUpTo, hframe]

theorem readUpTo_of_none (h : next? registry source = (.ok none, left)) (n : Nat) :
    readUpTo registry (n + 1) { source } = ([], { source := left, finished := true }) := by
  have hframe : readFrame registry { source } =
      (.ok none, { source := left, finished := true }) := by
    unfold readFrame
    rw [if_neg Bool.false_ne_true, h]
  rw [readUpTo, hframe]

theorem readUpTo_of_error {fault : Fault} (h : next? registry source = (.error fault, left))
    (n : Nat) :
    readUpTo registry (n + 1) { source } =
      ([.error fault], { source := left, finished := true }) := by
  have hframe : readFrame registry { source } =
      (.error fault, { source := left, finished := true }) := by
    unfold readFrame
    rw [if_neg Bool.false_ne_true, h]
  rw [readUpTo, hframe]

end TagWire.FrameReader
