import TagWire.Proofs.FrameDelivery

/-!
# How frames divide a stream

Each frame takes the bytes of its length and of its body, whatever comes of them.  So the bytes
of a stream are those of the frames that hold a record, one behind the other, and then those
that a reader stops at:

* `FrameReader.framed`, `FrameReader.Stop` — the bytes of a frame, and all that a reader may stop
  at, with what it takes of that and what it reports;
* `FrameReader.framed_or_stop` — every run of bytes begins with a frame that holds a record, or a
  reader stops at it;
* `FrameReader.Framewise` — what one call does, on any source;
* `FrameReader.Partition` — what all calls do, on given bytes;
* `FrameReader.stream_partitioned` — every registry reads every stream in this way.

A frame that holds a record has an envelope in it and is twelve bytes long or more, so the bytes
that are left get fewer with each record.
-/

namespace TagWire

variable {ι : Type} {S : Schema ι}

/-- What decodes begins with an envelope. -/
theorem Registry.eight_le_of_decode {registry : Registry S} {bytes : List UInt8} {x : Instance S}
    (h : registry.decode bytes = .ok x) : 8 ≤ bytes.length := by
  cases hpeek : Envelope.peek bytes with
  | error fault => cases (registry.decode_of_peek_error hpeek).symm.trans h
  | ok tag =>
      obtain ⟨rest, rfl⟩ := Envelope.eq_append_of_peek hpeek
      have hlength : (envelopeLayout tag).length = 8 := by
        simp [envelopeLayout, word32, BigEndian.length_encode]
      rw [List.length_append, hlength]
      exact Nat.le_add_right 8 _

namespace FrameReader

variable {registry : Registry S} {source : Source} {body behind bytes : List UInt8}
variable {length : Int32}

/-- The frame of a body. -/
def framed (body : List UInt8) : List UInt8 := BigEndian.encode 4 body.length ++ body

/-- A body whose length has a place in front of it and is within the limit. -/
def Admissible (registry : Registry S) (body : List UInt8) : Prop :=
  body.length < 2 ^ 31 ∧ body.length ≤ registry.config.codec.maxLength

instance (registry : Registry S) (body : List UInt8) : Decidable (Admissible registry body) :=
  inferInstanceAs (Decidable (_ ∧ _))

/-- What a reader stops at: the bytes that are left, how many of them it takes, and the fault
that it reports, if this is not the end of the stream. -/
inductive Stop (registry : Registry S) : List UInt8 → Nat → Option Fault → Prop where
  | ended : Stop registry [] 0 none
  /-- The data ends within a length. -/
  | cutHeader {bytes : List UInt8} (some_left : bytes ≠ []) (cut : bytes.length < 4) :
      Stop registry bytes bytes.length (some (.truncated .frameHeader))
  | negative {length : Int32} (behind : List UInt8) (negative : length < 0) :
      Stop registry (word32 length ++ behind) 4 (some (.invalidLength .frame length.toInt))
  | overlong {length : Int32} (behind : List UInt8)
      (overlong : registry.config.codec.maxLength < length.toInt.toNat) :
      Stop registry (word32 length ++ behind) 4
        (some (.lengthLimitExceeded .frame length.toInt.toNat registry.config.codec.maxLength))
  /-- The data ends within a body, of which `front` is there. -/
  | cutBody {n : Nat} {front : List UInt8} (announced : n < 2 ^ 31)
      (allowed : n ≤ registry.config.codec.maxLength) (cut : front.length < n) :
      Stop registry (BigEndian.encode 4 n ++ front) (4 + front.length)
        (some (.truncated .frame))
  /-- The body is whole but does not decode. -/
  | undecodable {body : List UInt8} {fault : Fault} (behind : List UInt8)
      (admissible : Admissible registry body) (refused : registry.decode body = .error fault) :
      Stop registry (framed body ++ behind) (4 + body.length) (some fault)

@[simp] theorem length_framed (body : List UInt8) : (framed body).length = 4 + body.length := by
  rw [framed, List.length_append, BigEndian.length_encode]

/-! ## Lengths -/

/-- The length in front of some bytes is the one that they announce. -/
theorem announced_word32 (length : Int32) (behind : List UInt8) :
    announced (word32 length ++ behind) = length := by
  have hlt : length.toUInt32.toNat < 256 ^ 4 := length.toUInt32.toNat_lt
  unfold announced word32
  rw [List.take_left' (BigEndian.length_encode 4 _), BigEndian.decode_encode, Nat.mod_eq_of_lt hlt,
    UInt32.ofNat_toNat]
  exact Int32.toInt32_toUInt32 length

/-- Four bytes or more begin with the length that they announce. -/
theorem word32_announced (h : 4 ≤ bytes.length) :
    word32 (announced bytes) ++ bytes.drop 4 = bytes := by
  have htaken : (bytes.take 4).length = 4 := List.length_take_of_le h
  have hword : BigEndian.encode 4 (BigEndian.decode (bytes.take 4)) = bytes.take 4 := by
    have := BigEndian.encode_decode (bytes.take 4)
    rwa [htaken] at this
  have hlt : BigEndian.decode (bytes.take 4) < 2 ^ 32 := by
    rw [← hword, BigEndian.decode_encode]
    exact Nat.mod_lt _ (by decide)
  unfold word32 announced
  rw [UInt32.toUInt32_toInt32, UInt32.toNat_ofNat_of_lt' hlt, hword, List.take_append_drop]

/-- A length that is not negative is written as a number. -/
theorem word32_of_nonneg (h : ¬ length < 0) :
    length.toInt.toNat < 2 ^ 31 ∧ word32 length = BigEndian.encode 4 length.toInt.toNat := by
  have hpos : 0 ≤ length.toInt := by
    rwa [Int32.lt_iff_toInt_lt, Int32.toInt_zero, Int.not_lt] at h
  obtain ⟨hsmall, hlength⟩ := Read.eq_ofNat_iff.mp ⟨hpos, rfl⟩
  refine ⟨hsmall, ?_⟩
  generalize length.toInt.toNat = n at hsmall hlength
  subst hlength
  exact congrArg (BigEndian.encode 4) (UInt32.toNat_ofNat_of_lt' (Nat.lt_trans hsmall (by decide)))

/-! ## One frame -/

/-- Every run of bytes begins with a frame that holds a record, or a reader stops at it. -/
theorem framed_or_stop (registry : Registry S) (bytes : List UInt8) :
    (∃ body x behind, bytes = framed body ++ behind ∧ Admissible registry body ∧
      registry.decode body = .ok x) ∨
    ∃ taken fault?, Stop registry bytes taken fault? := by
  by_cases hempty : bytes = []
  · subst hempty
    exact .inr ⟨0, none, .ended⟩
  by_cases hfour : 4 ≤ bytes.length
  swap
  · exact .inr ⟨_, _, .cutHeader hempty (Nat.not_le.mp hfour)⟩
  have hsplit := word32_announced hfour
  generalize announced bytes = length at hsplit
  generalize bytes.drop 4 = behind at hsplit
  subst hsplit
  by_cases hnegative : length < 0
  · exact .inr ⟨_, _, .negative behind hnegative⟩
  by_cases hoverlong : registry.config.codec.maxLength < length.toInt.toNat
  · exact .inr ⟨_, _, .overlong behind hoverlong⟩
  obtain ⟨hsmall, hword⟩ := word32_of_nonneg hnegative
  have hallowed := Nat.not_lt.mp hoverlong
  rw [hword]
  generalize length.toInt.toNat = n at hsmall hallowed
  by_cases hcut : behind.length < n
  · exact .inr ⟨_, _, .cutBody hsmall hallowed hcut⟩
  have hbody : (behind.take n).length = n := List.length_take_of_le (Nat.not_lt.mp hcut)
  have hframe : BigEndian.encode 4 n ++ behind = framed (behind.take n) ++ behind.drop n := by
    rw [framed, hbody, List.append_assoc, List.take_append_drop]
  have hadmissible : Admissible registry (behind.take n) := by
    unfold Admissible
    rw [hbody]
    exact ⟨hsmall, hallowed⟩
  rw [hframe]
  cases hdecode : registry.decode (behind.take n) with
  | ok x => exact .inl ⟨_, x, _, rfl, hadmissible, hdecode⟩
  | error fault => exact .inr ⟨_, _, .undecodable _ hadmissible hdecode⟩

/-- A whole frame is decoded from its body alone, and takes the bytes of both. -/
theorem next?_of_framed (hadmissible : Admissible registry body)
    (hframe : framed body <+: source.delivered) :
    next? registry source = ((registry.decode body).map some, source.after (4 + body.length)) := by
  obtain ⟨hsmall, hallowed⟩ := hadmissible
  have hextent : extent registry.config.codec.maxLength (framed body) = 4 + body.length :=
    extent_encode hsmall hallowed body
  have hcontent : content registry (framed body) = (registry.decode body).map some := by
    have hbehind := content_encode hsmall hallowed []
    rwa [List.append_nil] at hbehind
  rw [next?_of_front hframe (by rw [hextent, length_framed]), hextent, hcontent]

/-- A length that is refused takes its own bytes alone. -/
theorem next?_of_refused {fault : Fault}
    (hrefused : refusal? registry.config.codec.maxLength length = some fault)
    (hheader : word32 length <+: source.delivered) :
    next? registry source = (.error fault, source.after 4) := by
  have hfour : (word32 length).length = 4 := BigEndian.length_encode 4 _
  have hannounced : announced (word32 length) = length := by
    simpa using announced_word32 length []
  have hextent : extent registry.config.codec.maxLength (word32 length) = 4 := by
    unfold extent
    rw [if_neg (by omega), hannounced, hrefused]
  have hcontent : content registry (word32 length) = .error fault := by
    unfold content
    rw [hannounced, hrefused]
  rw [next?_of_front hheader (by omega), hextent, hcontent]

theorem refusal?_of_neg (limit : Nat) (h : length < 0) :
    refusal? limit length = some (.invalidLength .frame length.toInt) := by
  rw [refusal?, if_pos h]

theorem refusal?_of_lt {limit : Nat} (h : limit < length.toInt.toNat) :
    refusal? limit length = some (.lengthLimitExceeded .frame length.toInt.toNat limit) := by
  have hpos : ¬ length < 0 := by
    rw [Int32.lt_iff_toInt_lt, Int32.toInt_zero]
    omega
  rw [refusal?, if_neg hpos, if_pos h]

/-- What a reader reports where it stops. -/
def report (fault? : Option Fault) : Except Fault (Option (Instance S)) :=
  match fault? with
  | none => .ok none
  | some fault => .error fault

/-- A reader that stops reports this, and takes as many bytes as it is said to. -/
theorem Stop.next?_eq {taken : Nat} {fault? : Option Fault} (h : Stop registry bytes taken fault?) :
    next? registry (.ofBytes bytes) = (report fault?, .ofBytes (bytes.drop taken)) := by
  have hcut : ∀ {cut : List UInt8}, cut.length < extent registry.config.codec.maxLength cut →
      next? registry (.ofBytes cut) = (report (cutFault? cut.length), .ofBytes []) := by
    intro cut hlt
    have hnext : next? registry (.ofBytes cut) = _ :=
      next?_of_unbroken (Source.breakage?_ofBytes cut) (by simpa using hlt)
    rw [Source.delivered_ofBytes] at hnext
    rw [hnext]
    cases cutFault? cut.length <;> rfl
  cases h with
  | ended => exact hcut (Nat.lt_of_lt_of_le (by decide) (four_le_extent _ _))
  | cutHeader hleft hshort =>
      have hfault : cutFault? bytes.length = some (.truncated .frameHeader) := by
        rw [cutFault?, if_neg (by simpa using hleft), if_pos hshort]
      rw [hcut (Nat.lt_of_lt_of_le hshort (four_le_extent _ _)), hfault, List.drop_length]
  | negative behind hnegative =>
      rw [next?_of_refused (refusal?_of_neg _ hnegative) (by simp), Source.after_ofBytes]
      rfl
  | overlong behind hoverlong =>
      rw [next?_of_refused (refusal?_of_lt hoverlong) (by simp), Source.after_ofBytes]
      rfl
  | @cutBody n front hsmall hallowed hshort =>
      have hlength : (BigEndian.encode 4 n ++ front).length = 4 + front.length := by
        rw [List.length_append, BigEndian.length_encode]
      have hfault : cutFault? (4 + front.length) = some (.truncated .frame) := by
        rw [cutFault?, if_neg (by omega), if_neg (by omega)]
      have hlt : (BigEndian.encode 4 n ++ front).length <
          extent registry.config.codec.maxLength (BigEndian.encode 4 n ++ front) := by
        rw [extent_encode hsmall hallowed]
        omega
      rw [hcut hlt, hlength, hfault, ← hlength, List.drop_length]
  | undecodable behind hadmissible hdecode =>
      rw [next?_of_framed hadmissible (by simp), Source.after_ofBytes, hdecode]
      rfl

/-! ## One call -/

/-- Whether a reader goes on after what a frame came to. -/
def goesOn : Except Fault (Option (Instance S)) → Bool
  | .ok (some _) => true
  | _ => false

/-- A call takes up what the next frame comes to, and ends the stream if that is no record. -/
theorem readFrame_of_next? {outcome : Except Fault (Option (Instance S))} {left : Source}
    (h : next? registry source = (outcome, left)) :
    readFrame registry { source } = (outcome, { source := left, finished := !goesOn outcome }) := by
  unfold readFrame
  rw [if_neg Bool.false_ne_true]
  dsimp only
  rw [h]
  rcases outcome with fault | _ | x <;> rfl

/-- What one call does, whatever source it reads from.  `source.after n` has delivered its next `n`
bytes, and nothing behind these has been touched. -/
structure Framewise (registry : Registry S) : Prop where
  /-- A whole frame comes to what its body decodes to, and takes its own bytes in any case. -/
  whole : ∀ {body : List UInt8} {source : Source}, Admissible registry body →
    framed body <+: source.delivered →
      readFrame registry { source } = ((registry.decode body).map some,
        { source := source.after (4 + body.length), finished := !(registry.decode body).isOk })
  negative : ∀ {length : Int32} {source : Source}, length < 0 →
    word32 length <+: source.delivered →
      readFrame registry { source } = (.error (.invalidLength .frame length.toInt),
        { source := source.after 4, finished := true })
  overlong : ∀ {length : Int32} {source : Source},
    registry.config.codec.maxLength < length.toInt.toNat → word32 length <+: source.delivered →
      readFrame registry { source } =
        (.error (.lengthLimitExceeded .frame length.toInt.toNat registry.config.codec.maxLength),
          { source := source.after 4, finished := true })
  /-- A reader that has finished reads nothing, whatever there is to read. -/
  finished : ∀ source : Source, readFrame registry { source, finished := true } =
    (.ok none, { source, finished := true })

/-- Every registry reads frame by frame. -/
theorem framewise (registry : Registry S) : Framewise registry where
  whole := by
    intro body source hadmissible hframe
    rw [readFrame_of_next? (next?_of_framed hadmissible hframe)]
    cases registry.decode body <;> rfl
  negative hnegative hheader :=
    readFrame_of_next? (next?_of_refused (refusal?_of_neg _ hnegative) hheader)
  overlong hoverlong hheader :=
    readFrame_of_next? (next?_of_refused (refusal?_of_lt hoverlong) hheader)
  finished _ := readFrame_of_finished rfl

/-! ## All calls -/

/-- A reader after so many calls. -/
def afterCalls (registry : Registry S) : Nat → FrameReader → FrameReader
  | 0, reader => reader
  | k + 1, reader => afterCalls registry k (reader.readFrame registry).2

/-- What a call comes to behind so many others. -/
def resultOfCall (registry : Registry S) (k : Nat) (reader : FrameReader) :
    Except Fault (Option (Instance S)) :=
  ((afterCalls registry k reader).readFrame registry).1

/-- Calls on a finished reader leave it as it is. -/
theorem afterCalls_of_finished {reader : FrameReader} (h : reader.finished = true) (k : Nat) :
    afterCalls registry k reader = reader := by
  induction k with
  | zero => rfl
  | succ k ih => rw [afterCalls, readFrame_of_finished h, ih]

/-- How the bytes of a stream are divided, and what comes of all calls: `bodies` are those of the
frames that hold the records `xs`, and a reader stops at `rest`. -/
structure Partition (registry : Registry S) (bytes : List UInt8) (bodies : List (List UInt8))
    (xs : List (Instance S)) (rest : List UInt8) (taken : Nat) (fault? : Option Fault) : Prop where
  bytes_eq : bytes = bodies.flatMap framed ++ rest
  frames : List.Forall₂ (fun body x => Admissible registry body ∧ registry.decode body = .ok x ∧
    12 ≤ (framed body).length) bodies xs
  stop : Stop registry rest taken fault?
  /-- The first calls yield the records, each from the first byte of its frame. -/
  records : ∀ (k : Nat) (hk : k < xs.length),
    afterCalls registry k { source := .ofBytes bytes } =
        { source := .ofBytes ((bodies.drop k).flatMap framed ++ rest) } ∧
      resultOfCall registry k { source := .ofBytes bytes } = .ok (some xs[k])
  /-- The next call reports the end of the stream or a fault, from the first byte behind these
  frames. -/
  stopping :
    afterCalls registry xs.length { source := .ofBytes bytes } = { source := .ofBytes rest } ∧
      resultOfCall registry xs.length { source := .ofBytes bytes } = report fault?
  /-- All later calls yield nothing and read nothing. -/
  stopped : ∀ k, xs.length < k →
    afterCalls registry k { source := .ofBytes bytes } =
        { source := .ofBytes (rest.drop taken), finished := true } ∧
      resultOfCall registry k { source := .ofBytes bytes } = .ok none
  /-- Going through the stream comes to an end behind the records and the fault. -/
  iterated : ∀ limit, xs.length < limit →
    readUpTo registry limit { source := .ofBytes bytes } =
      (xs.map .ok ++ fault?.toList.map .error,
        { source := .ofBytes (rest.drop taken), finished := true })

/-- Where a reader stops at once, there are no frames. -/
theorem Partition.of_stop {taken : Nat} {fault? : Option Fault}
    (h : Stop registry bytes taken fault?) : Partition registry bytes [] [] bytes taken fault? where
  bytes_eq := rfl
  frames := .nil
  stop := h
  records := nofun
  stopping := by
    refine ⟨rfl, ?_⟩
    exact congrArg Prod.fst (readFrame_of_next? h.next?_eq)
  stopped := by
    intro k hk
    obtain ⟨k, rfl⟩ := Nat.exists_eq_succ_of_ne_zero (Nat.ne_zero_of_lt hk)
    have hafter : afterCalls registry (k + 1) { source := .ofBytes bytes } =
        { source := .ofBytes (bytes.drop taken), finished := true } := by
      rw [afterCalls, readFrame_of_next? h.next?_eq]
      cases fault? <;> exact afterCalls_of_finished rfl k
    refine ⟨hafter, ?_⟩
    rw [resultOfCall, hafter, readFrame_of_finished rfl]
  iterated := by
    intro limit hlimit
    obtain ⟨limit, rfl⟩ := Nat.exists_eq_succ_of_ne_zero (Nat.ne_zero_of_lt hlimit)
    cases fault? with
    | none => exact readUpTo_of_none h.next?_eq limit
    | some fault => exact readUpTo_of_error h.next?_eq limit

/-- A frame that holds a record may stand in front. -/
theorem Partition.cons {bodies : List (List UInt8)} {x : Instance S} {xs : List (Instance S)}
    {rest : List UInt8} {taken : Nat} {fault? : Option Fault}
    (hadmissible : Admissible registry body) (hdecode : registry.decode body = .ok x)
    (h : Partition registry behind bodies xs rest taken fault?) :
    Partition registry (framed body ++ behind) (body :: bodies) (x :: xs) rest taken fault? := by
  have hnext : next? registry (.ofBytes (framed body ++ behind)) =
      (.ok (some x), .ofBytes behind) := by
    rw [next?_of_framed hadmissible (by simp), hdecode, Source.after_ofBytes,
      List.drop_left' (length_framed body)]
    rfl
  have hlong : 12 ≤ (framed body).length := by
    have := registry.eight_le_of_decode hdecode
    rw [length_framed]
    omega
  have hbytes : framed body ++ behind = (body :: bodies).flatMap framed ++ rest := by
    rw [List.flatMap_cons, List.append_assoc, ← h.bytes_eq]
  have hafter : ∀ k, afterCalls registry (k + 1) { source := .ofBytes (framed body ++ behind) } =
      afterCalls registry k { source := .ofBytes behind } := by
    intro k
    rw [afterCalls, readFrame_of_next? hnext]
    rfl
  have hresult : ∀ k, resultOfCall registry (k + 1)
      { source := .ofBytes (framed body ++ behind) } =
        resultOfCall registry k { source := .ofBytes behind } := by
    intro k
    rw [resultOfCall, hafter, resultOfCall]
  refine ⟨hbytes, .cons ⟨hadmissible, hdecode, hlong⟩ h.frames, h.stop, ?_, ?_, ?_, ?_⟩
  · intro k hk
    cases k with
    | zero =>
        refine ⟨congrArg (fun bytes => ({ source := .ofBytes bytes } : FrameReader)) hbytes, ?_⟩
        exact congrArg Prod.fst (readFrame_of_next? hnext)
    | succ k =>
        rw [hafter, hresult]
        exact h.records k (Nat.lt_of_succ_lt_succ hk)
  · rw [List.length_cons, hafter, hresult]
    exact h.stopping
  · intro k hk
    obtain ⟨k, rfl⟩ := Nat.exists_eq_succ_of_ne_zero (Nat.ne_zero_of_lt hk)
    rw [hafter, hresult]
    exact h.stopped k (Nat.lt_of_succ_lt_succ hk)
  · intro limit hlimit
    obtain ⟨limit, rfl⟩ := Nat.exists_eq_succ_of_ne_zero (Nat.ne_zero_of_lt hlimit)
    rw [readUpTo_of_some hnext, h.iterated limit (Nat.lt_of_succ_lt_succ hlimit)]
    rfl

/-- All bytes are divided in this way, as each record leaves fewer of them. -/
theorem exists_partition (registry : Registry S) (bytes : List UInt8) :
    ∃ bodies xs rest taken fault?, Partition registry bytes bodies xs rest taken fault? := by
  rcases framed_or_stop registry bytes with ⟨body, x, behind, hbytes, hadmissible, hdecode⟩ |
    ⟨taken, fault?, hstop⟩
  · have hless : behind.length < bytes.length := by
      rw [hbytes, List.length_append, length_framed]
      omega
    obtain ⟨bodies, xs, rest, taken, fault?, hbehind⟩ := exists_partition registry behind
    rw [hbytes]
    exact ⟨_, _, _, _, _, hbehind.cons hadmissible hdecode⟩
  · exact ⟨_, _, _, _, _, .of_stop hstop⟩
termination_by bytes.length

/-- Each record takes twelve bytes or more. -/
theorem Partition.twelve_mul_le {bodies : List (List UInt8)} {xs : List (Instance S)}
    {rest : List UInt8} {taken : Nat} {fault? : Option Fault}
    (h : Partition registry bytes bodies xs rest taken fault?) :
    12 * xs.length + rest.length ≤ bytes.length := by
  rw [h.bytes_eq, List.length_append]
  have hframes := h.frames
  clear h
  refine Nat.add_le_add_right ?_ _
  induction hframes with
  | nil => exact Nat.zero_le _
  | cons hframe _ ih =>
      rw [List.length_cons, List.flatMap_cons, List.length_append]
      omega

/-- **Frames divide a stream.**  Each call takes one frame or refuses it, whatever becomes of its
body.  So on any bytes the results are those of some whole frames, one behind the other, of at
least twelve bytes each, then at most one fault, and then nothing for ever. -/
theorem stream_partitioned (registry : Registry S) (bytes : List UInt8) :
    Framewise registry ∧
      ∃ bodies xs rest taken fault?,
        Partition registry bytes bodies xs rest taken fault? ∧
        12 * xs.length + rest.length ≤ bytes.length := by
  obtain ⟨bodies, xs, rest, taken, fault?, hpartition⟩ := exists_partition registry bytes
  exact ⟨framewise registry, bodies, xs, rest, taken, fault?, hpartition, hpartition.twelve_mul_le⟩

/-- A parcel is read from a frame with a byte to spare, a frame that holds no envelope takes its own
bytes, and a length that is negative or beyond the limit of 20 only these, whatever follows. -/
theorem sparedByte_stream_partitioned :
    readFrame parcels { source := .ofBytes (framed (emptyParcelBytes ++ [9]) ++ framed [0, 0]) } =
        (.ok (some FrameWriter.emptyParcel), { source := .ofBytes (framed [0, 0]) }) ∧
      readFrame parcels { source := .ofBytes (framed [0, 0] ++ [0xFF, 0xFF, 0xFF, 0xFF, 1]) } =
        (.error (.truncated .magicNumber),
          { source := .ofBytes [0xFF, 0xFF, 0xFF, 0xFF, 1], finished := true }) ∧
      readFrame parcels { source := .ofBytes [0xFF, 0xFF, 0xFF, 0xFF, 1] } =
        (.error (.invalidLength .frame (-1)), { source := .ofBytes [1], finished := true }) ∧
      readFrame FrameWriter.smallParcels { source := .ofBytes [0, 0, 0, 21, 1] } =
        (.error (.lengthLimitExceeded .frame 21 20),
          { source := .ofBytes [1], finished := true }) := by
  obtain ⟨⟨hwhole, hnegative, -, -⟩, -⟩ := stream_partitioned parcels []
  obtain ⟨⟨-, -, hoverlong, -⟩, -⟩ := stream_partitioned FrameWriter.smallParcels []
  have hspared : Admissible parcels (emptyParcelBytes ++ [9]) := by decide
  have hshort : Admissible parcels [0, 0] := by decide
  have hneg : (-1 : Int32) < 0 := by decide
  have hlong : FrameWriter.smallParcels.config.codec.maxLength < (21 : Int32).toInt.toNat := by
    decide
  refine ⟨?_, ?_, ?_, ?_⟩
  · exact hwhole hspared (by simp)
  · exact hwhole hshort (by simp)
  · exact hnegative hneg ⟨[1], rfl⟩
  · exact hoverlong hlong ⟨[1], rfl⟩

end FrameReader

end TagWire
