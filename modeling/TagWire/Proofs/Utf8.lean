import TagWire.Text.Utf8

/-!
# Texts and their UTF-8 bytes

The machine of `Utf8.decode` accepts exactly the bytes that `Utf8.encode`
writes, and gives back the text they were written for:

* `encodeChar_cases` — what the bytes of a character are, by how many they are;
* `scan_encodeChar` — the bytes of a character take the machine from between
  two characters to between two characters, with that character read;
* `scan_ok_char` — a run that succeeds begins with the bytes of a character;
* `decode_eq_ok_iff` — decoding succeeds on the bytes of a text alone;
* `encode_injective` — a text is known by its bytes.
-/

namespace TagWire.Utf8

/-- The code point of a character that is made from one. -/
theorem toNat_ofNat {n : Nat} (h : n.isValidChar) : (Char.ofNat n).val.toNat = n := by
  have hlt : n < UInt32.size := by
    unfold Nat.isValidChar at h
    simp only [UInt32.size]
    omega
  rw [Char.ofNat, dif_pos h]
  rfl

/-- One continuation byte inside a character. -/
theorem scan_continuation {done : List Char} {start : Nat} {p : Pending} {byte : UInt8}
    {rest : List UInt8} (hlow : p.low ≤ byte.toNat) (hhigh : byte.toNat ≤ p.high) :
    scan done start (some p) (byte :: rest) =
      if (p.extend byte).owed = 0 then
        scan (Char.ofNat (p.extend byte).code :: done) (start + (p.extend byte).seen) none rest
      else scan done start (some (p.extend byte)) rest := by
  rw [scan, if_pos ⟨hlow, hhigh⟩]

/-- A run that succeeds from inside a character takes a continuation byte. -/
theorem scan_pending_ok {done : List Char} {start : Nat} {p : Pending} {bytes : List UInt8}
    {cs : List Char} (h : scan done start (some p) bytes = .ok cs) :
    ∃ byte rest, bytes = byte :: rest ∧ p.low ≤ byte.toNat ∧ byte.toNat ≤ p.high ∧
      (if (p.extend byte).owed = 0 then
        scan (Char.ofNat (p.extend byte).code :: done) (start + (p.extend byte).seen) none rest
      else scan done start (some (p.extend byte)) rest) = .ok cs := by
  cases bytes with
  | nil => simp [scan] at h
  | cons byte rest =>
      by_cases hrange : p.low ≤ byte.toNat ∧ byte.toNat ≤ p.high
      · rw [scan_continuation hrange.1 hrange.2] at h
        exact ⟨byte, rest, rfl, hrange.1, hrange.2, h⟩
      · rw [scan, if_neg hrange] at h
        cases h

/-- What the first byte of a character of several bytes tells: how many follow, the
bits it contributes, and where the next one may lie. -/
theorem opening?_some {byte : UInt8} {p : Pending} (h : opening? byte = some p) :
    p.seen = 1 ∧
      (0xC2 ≤ byte.toNat ∧ byte.toNat < 0xE0 ∧ p.owed = 1 ∧ p.code = byte.toNat - 0xC0 ∧
          p.low = 0x80 ∧ p.high = 0xBF ∨
        0xE0 ≤ byte.toNat ∧ byte.toNat < 0xF0 ∧ p.owed = 2 ∧ p.code = byte.toNat - 0xE0 ∧
          (byte.toNat = 0xE0 ∧ p.low = 0xA0 ∨ byte.toNat ≠ 0xE0 ∧ p.low = 0x80) ∧
          (byte.toNat = 0xED ∧ p.high = 0x9F ∨ byte.toNat ≠ 0xED ∧ p.high = 0xBF) ∨
        0xF0 ≤ byte.toNat ∧ byte.toNat < 0xF5 ∧ p.owed = 3 ∧ p.code = byte.toNat - 0xF0 ∧
          (byte.toNat = 0xF0 ∧ p.low = 0x90 ∨ byte.toNat ≠ 0xF0 ∧ p.low = 0x80) ∧
          (byte.toNat = 0xF4 ∧ p.high = 0x8F ∨ byte.toNat ≠ 0xF4 ∧ p.high = 0xBF)) := by
  unfold opening? at h
  dsimp only at h
  repeat' split at h
  all_goals
    cases h <;> refine ⟨rfl, ?_⟩ <;> dsimp only <;> omega

/-- Every byte that begins a character of several bytes opens one. -/
theorem opening?_isSome (byte : UInt8) (hlow : 0xC2 ≤ byte.toNat) (hhigh : byte.toNat < 0xF5) :
    ∃ p, opening? byte = some p := by
  unfold opening?
  dsimp only
  repeat' split
  all_goals
    first
      | exact ⟨_, rfl⟩
      | omega

/-- A byte that opens a character of several bytes takes the machine inside it. -/
theorem scan_opening {done : List Char} {start : Nat} {byte : UInt8} {rest : List UInt8}
    {p : Pending} (h : opening? byte = some p) :
    scan done start none (byte :: rest) = scan done start (some p) rest := by
  have hspec := opening?_some h
  have hlarge : ¬ byte < 0x80 := by
    rw [UInt8.lt_iff_toNat_lt]
    simp only [UInt8.reduceToNat]
    omega
  rw [scan, if_neg hlarge, h]

/-- The code point of a character is one. -/
theorem isValidChar_val (c : Char) : c.val.toNat.isValidChar := c.valid

/-- A low byte of a number is the number when that is small. -/
theorem toNat_ofNat_byte {n : Nat} (h : n < 256) : (UInt8.ofNat n).toNat = n := by
  simp only [UInt8.toNat_ofNat']
  omega

/-- A byte is what its number makes. -/
theorem ofNat_eq_byte {n : Nat} {byte : UInt8} (h : n = byte.toNat) : UInt8.ofNat n = byte := by
  rw [h, UInt8.ofNat_toNat]

/-- A continuation byte that is not the last one of its character. -/
theorem scan_inside {done : List Char} {start : Nat} {p : Pending} {byte : UInt8}
    {rest : List UInt8} (howed : 1 < p.owed) (hlow : p.low ≤ byte.toNat)
    (hhigh : byte.toNat ≤ p.high) :
    scan done start (some p) (byte :: rest) = scan done start (some (p.extend byte)) rest := by
  have hmore : (p.extend byte).owed ≠ 0 := by
    unfold Pending.extend
    dsimp only
    omega
  rw [scan_continuation hlow hhigh, if_neg hmore]

/-- The last continuation byte of a character. -/
theorem scan_last {done : List Char} {start : Nat} {p : Pending} {byte : UInt8}
    {rest : List UInt8} (howed : p.owed = 1) (hlow : p.low ≤ byte.toNat)
    (hhigh : byte.toNat ≤ p.high) :
    scan done start (some p) (byte :: rest) =
      scan (Char.ofNat (64 * p.code + byte.toNat % 64) :: done) (start + (p.seen + 1)) none
        rest := by
  have hnone : (p.extend byte).owed = 0 := by
    unfold Pending.extend
    dsimp only
    omega
  rw [scan_continuation hlow hhigh, if_pos hnone]
  rfl

section Lengths

variable {done : List Char} {start : Nat} {a b c d : UInt8} {rest : List UInt8}

/-- A character of two bytes is read. -/
theorem scan_two (ha : 0xC2 ≤ a.toNat ∧ a.toNat < 0xE0)
    (hb : 0x80 ≤ b.toNat ∧ b.toNat ≤ 0xBF) :
    scan done start none (a :: b :: rest) =
      scan (Char.ofNat (64 * (a.toNat - 0xC0) + b.toNat % 64) :: done) (start + 2) none rest := by
  obtain ⟨p, hp⟩ := opening?_isSome a (by omega) (by omega)
  obtain ⟨hseen, hspec⟩ := opening?_some hp
  have howed : p.owed = 1 ∧ p.code = a.toNat - 0xC0 := by omega
  rw [scan_opening hp, scan_last howed.1 (by omega) (by omega), howed.2, hseen]

/-- A character of three bytes is read. -/
theorem scan_three (ha : 0xE0 ≤ a.toNat ∧ a.toNat < 0xF0)
    (hb : 0x80 ≤ b.toNat ∧ b.toNat ≤ 0xBF) (hc : 0x80 ≤ c.toNat ∧ c.toNat ≤ 0xBF)
    (hlong : a.toNat = 0xE0 → 0xA0 ≤ b.toNat) (hsurrogate : a.toNat = 0xED → b.toNat ≤ 0x9F) :
    scan done start none (a :: b :: c :: rest) =
      scan (Char.ofNat (64 * (64 * (a.toNat - 0xE0) + b.toNat % 64) + c.toNat % 64) :: done)
        (start + 3) none rest := by
  obtain ⟨p, hp⟩ := opening?_isSome a (by omega) (by omega)
  obtain ⟨hseen, hspec⟩ := opening?_some hp
  have howed : p.owed = 2 ∧ p.code = a.toNat - 0xE0 := by omega
  have hlast : (p.extend b).owed = 1 := congrArg (· - 1) howed.1
  rw [scan_opening hp, scan_inside (by omega) (by omega) (by omega), scan_last hlast hc.1 hc.2]
  simp only [Pending.extend, howed.2, hseen]

/-- A character of four bytes is read. -/
theorem scan_four (ha : 0xF0 ≤ a.toNat ∧ a.toNat < 0xF5)
    (hb : 0x80 ≤ b.toNat ∧ b.toNat ≤ 0xBF) (hc : 0x80 ≤ c.toNat ∧ c.toNat ≤ 0xBF)
    (hd : 0x80 ≤ d.toNat ∧ d.toNat ≤ 0xBF)
    (hlong : a.toNat = 0xF0 → 0x90 ≤ b.toNat) (hlarge : a.toNat = 0xF4 → b.toNat ≤ 0x8F) :
    scan done start none (a :: b :: c :: d :: rest) =
      scan (Char.ofNat
          (64 * (64 * (64 * (a.toNat - 0xF0) + b.toNat % 64) + c.toNat % 64) + d.toNat % 64) ::
        done) (start + 4) none rest := by
  obtain ⟨p, hp⟩ := opening?_isSome a (by omega) (by omega)
  obtain ⟨hseen, hspec⟩ := opening?_some hp
  have howed : p.owed = 3 ∧ p.code = a.toNat - 0xF0 := by omega
  have hmore : (p.extend b).owed = 2 := congrArg (· - 1) howed.1
  have hlast : ((p.extend b).extend c).owed = 1 := congrArg (· - 1) hmore
  rw [scan_opening hp, scan_inside (by omega) (by omega) (by omega),
    scan_inside (by omega) hc.1 hc.2, scan_last hlast hd.1 hd.2]
  simp only [Pending.extend, howed.2, hseen]

end Lengths

/-- The bytes of a character, by how many they are: the first one tells that, and all together hold
the bits of its code point. -/
theorem encodeChar_cases (char : Char) :
    (∃ a, String.utf8EncodeChar char = [a] ∧ a.toNat < 0x80 ∧ char.val.toNat = a.toNat) ∨
    (∃ a b, String.utf8EncodeChar char = [a, b] ∧ (0xC2 ≤ a.toNat ∧ a.toNat < 0xE0) ∧
      (0x80 ≤ b.toNat ∧ b.toNat ≤ 0xBF) ∧
      char.val.toNat = 64 * (a.toNat - 0xC0) + b.toNat % 64) ∨
    (∃ a b c, String.utf8EncodeChar char = [a, b, c] ∧ (0xE0 ≤ a.toNat ∧ a.toNat < 0xF0) ∧
      (0x80 ≤ b.toNat ∧ b.toNat ≤ 0xBF) ∧ (0x80 ≤ c.toNat ∧ c.toNat ≤ 0xBF) ∧
      (a.toNat = 0xE0 → 0xA0 ≤ b.toNat) ∧ (a.toNat = 0xED → b.toNat ≤ 0x9F) ∧
      char.val.toNat = 64 * (64 * (a.toNat - 0xE0) + b.toNat % 64) + c.toNat % 64) ∨
    (∃ a b c d, String.utf8EncodeChar char = [a, b, c, d] ∧ (0xF0 ≤ a.toNat ∧ a.toNat < 0xF5) ∧
      (0x80 ≤ b.toNat ∧ b.toNat ≤ 0xBF) ∧ (0x80 ≤ c.toNat ∧ c.toNat ≤ 0xBF) ∧
      (0x80 ≤ d.toNat ∧ d.toNat ≤ 0xBF) ∧
      (a.toNat = 0xF0 → 0x90 ≤ b.toNat) ∧ (a.toNat = 0xF4 → b.toNat ≤ 0x8F) ∧
      char.val.toNat =
        64 * (64 * (64 * (a.toNat - 0xF0) + b.toNat % 64) + c.toNat % 64) + d.toNat % 64) := by
  have hvalid : char.val.toNat < 0xD800 ∨ (0xDFFF < char.val.toNat ∧ char.val.toNat < 0x110000) :=
    isValidChar_val char
  generalize hv : char.val.toNat = v at hvalid
  by_cases h1 : v ≤ 0x7F
  · have ha := toNat_ofNat_byte (n := v) (by omega)
    exact .inl ⟨UInt8.ofNat v, by simp [String.utf8EncodeChar, hv, h1], by omega, ha.symm⟩
  by_cases h2 : v ≤ 0x7FF
  · have ha := toNat_ofNat_byte (n := v / 64 % 0x20 + 0xC0) (by omega)
    have hb := toNat_ofNat_byte (n := v % 0x40 + 0x80) (by omega)
    exact .inr (.inl ⟨UInt8.ofNat (v / 64 % 0x20 + 0xC0), UInt8.ofNat (v % 0x40 + 0x80),
      by simp [String.utf8EncodeChar, hv, h1, h2], by omega, by omega, by omega⟩)
  by_cases h3 : v ≤ 0xFFFF
  · have ha := toNat_ofNat_byte (n := v / 4096 % 0x10 + 0xE0) (by omega)
    have hb := toNat_ofNat_byte (n := v / 64 % 0x40 + 0x80) (by omega)
    have hc := toNat_ofNat_byte (n := v % 0x40 + 0x80) (by omega)
    exact .inr (.inr (.inl ⟨UInt8.ofNat (v / 4096 % 0x10 + 0xE0),
      UInt8.ofNat (v / 64 % 0x40 + 0x80), UInt8.ofNat (v % 0x40 + 0x80),
      by simp [String.utf8EncodeChar, hv, h1, h2, h3], by omega, by omega, by omega, by omega,
      by omega, by omega⟩))
  · have ha := toNat_ofNat_byte (n := v / 262144 % 0x08 + 0xF0) (by omega)
    have hb := toNat_ofNat_byte (n := v / 4096 % 0x40 + 0x80) (by omega)
    have hc := toNat_ofNat_byte (n := v / 64 % 0x40 + 0x80) (by omega)
    have hd := toNat_ofNat_byte (n := v % 0x40 + 0x80) (by omega)
    exact .inr (.inr (.inr ⟨UInt8.ofNat (v / 262144 % 0x08 + 0xF0),
      UInt8.ofNat (v / 4096 % 0x40 + 0x80), UInt8.ofNat (v / 64 % 0x40 + 0x80),
      UInt8.ofNat (v % 0x40 + 0x80), by simp [String.utf8EncodeChar, hv, h1, h2, h3], by omega,
      by omega, by omega, by omega, by omega, by omega, by omega⟩))

/-- The bytes of a character are read as that character. -/
theorem scan_encodeChar (done : List Char) (start : Nat) (c : Char) (rest : List UInt8) :
    scan done start none (String.utf8EncodeChar c ++ rest) =
      scan (c :: done) (start + (String.utf8EncodeChar c).length) none rest := by
  have hchar : Char.ofNat c.val.toNat = c := Char.ofNat_toNat c
  rcases encodeChar_cases c with ⟨a, hencode, ha, hcode⟩ | ⟨a, b, hencode, ha, hb, hcode⟩ |
    ⟨a, b, c', hencode, ha, hb, hc, hlong, hsurrogate, hcode⟩ |
    ⟨a, b, c', d, hencode, ha, hb, hc, hd, hlong, hlast, hcode⟩
  · have hsmall : a < 0x80 := UInt8.lt_iff_toNat_lt.mpr ha
    rw [hencode, List.cons_append, List.nil_append, scan, if_pos hsmall, ← hcode, hchar]
    rfl
  · rw [hencode, List.cons_append, List.cons_append, List.nil_append, scan_two ha hb, ← hcode,
      hchar]
    rfl
  · rw [hencode, List.cons_append, List.cons_append, List.cons_append, List.nil_append,
      scan_three ha hb hc hlong hsurrogate, ← hcode, hchar]
    rfl
  · rw [hencode, List.cons_append, List.cons_append, List.cons_append, List.cons_append,
      List.nil_append, scan_four ha hb hc hd hlong hlast, ← hcode, hchar]
    rfl

/-- The bytes of a character of two bytes. -/
theorem encodeChar_two {a b : UInt8} (ha : 0xC2 ≤ a.toNat ∧ a.toNat < 0xE0)
    (hb : 0x80 ≤ b.toNat ∧ b.toNat ≤ 0xBF) :
    String.utf8EncodeChar (Char.ofNat (64 * (a.toNat - 0xC0) + b.toNat % 64)) = [a, b] := by
  have hcode := toNat_ofNat (n := 64 * (a.toNat - 0xC0) + b.toNat % 64)
    (by unfold Nat.isValidChar; omega)
  unfold String.utf8EncodeChar
  rw [hcode]
  dsimp only
  rw [if_neg (by omega), if_pos (by omega)]
  congr 1
  · exact ofNat_eq_byte (by omega)
  · congr 1
    exact ofNat_eq_byte (by omega)

/-- The bytes of a character of three bytes, which is no surrogate. -/
theorem encodeChar_three {a b c : UInt8} (ha : 0xE0 ≤ a.toNat ∧ a.toNat < 0xF0)
    (hb : 0x80 ≤ b.toNat ∧ b.toNat ≤ 0xBF) (hc : 0x80 ≤ c.toNat ∧ c.toNat ≤ 0xBF)
    (hlong : a.toNat = 0xE0 → 0xA0 ≤ b.toNat) (hsurrogate : a.toNat = 0xED → b.toNat ≤ 0x9F) :
    String.utf8EncodeChar
        (Char.ofNat (64 * (64 * (a.toNat - 0xE0) + b.toNat % 64) + c.toNat % 64)) =
      [a, b, c] := by
  have hcode := toNat_ofNat (n := 64 * (64 * (a.toNat - 0xE0) + b.toNat % 64) + c.toNat % 64)
    (by unfold Nat.isValidChar; omega)
  unfold String.utf8EncodeChar
  rw [hcode]
  dsimp only
  rw [if_neg (by omega), if_neg (by omega), if_pos (by omega)]
  congr 1
  · exact ofNat_eq_byte (by omega)
  · congr 1
    · exact ofNat_eq_byte (by omega)
    · congr 1
      exact ofNat_eq_byte (by omega)

/-- The bytes of a character of four bytes, which is no code point too many. -/
theorem encodeChar_four {a b c d : UInt8} (ha : 0xF0 ≤ a.toNat ∧ a.toNat < 0xF5)
    (hb : 0x80 ≤ b.toNat ∧ b.toNat ≤ 0xBF) (hc : 0x80 ≤ c.toNat ∧ c.toNat ≤ 0xBF)
    (hd : 0x80 ≤ d.toNat ∧ d.toNat ≤ 0xBF)
    (hlong : a.toNat = 0xF0 → 0x90 ≤ b.toNat) (hlast : a.toNat = 0xF4 → b.toNat ≤ 0x8F) :
    String.utf8EncodeChar (Char.ofNat
        (64 * (64 * (64 * (a.toNat - 0xF0) + b.toNat % 64) + c.toNat % 64) + d.toNat % 64)) =
      [a, b, c, d] := by
  have hcode := toNat_ofNat
    (n := 64 * (64 * (64 * (a.toNat - 0xF0) + b.toNat % 64) + c.toNat % 64) + d.toNat % 64)
    (by unfold Nat.isValidChar; omega)
  unfold String.utf8EncodeChar
  rw [hcode]
  dsimp only
  rw [if_neg (by omega), if_neg (by omega), if_neg (by omega)]
  congr 1
  · exact ofNat_eq_byte (by omega)
  · congr 1
    · exact ofNat_eq_byte (by omega)
    · congr 1
      · exact ofNat_eq_byte (by omega)
      · congr 1
        exact ofNat_eq_byte (by omega)

/-- A run that succeeds begins with the bytes of a character. -/
theorem scan_ok_char {done : List Char} {start : Nat} {byte : UInt8} {rest : List UInt8}
    {cs : List Char} (h : scan done start none (byte :: rest) = .ok cs) :
    ∃ c later, byte :: rest = String.utf8EncodeChar c ++ later := by
  by_cases hsmall : byte < 0x80
  · refine ⟨Char.ofNat byte.toNat, rest, ?_⟩
    rw [UInt8.lt_iff_toNat_lt] at hsmall
    simp only [UInt8.reduceToNat] at hsmall
    have hcode := toNat_ofNat (n := byte.toNat) (by unfold Nat.isValidChar; omega)
    unfold String.utf8EncodeChar
    rw [hcode]
    dsimp only
    rw [if_pos (by omega), ofNat_eq_byte rfl]
    rfl
  · cases hopen : opening? byte with
    | none =>
        rw [scan, if_neg hsmall, hopen] at h
        cases h
    | some p =>
        rw [scan_opening hopen] at h
        obtain ⟨-, hspec⟩ := opening?_some hopen
        obtain ⟨b, later, rfl, hb⟩ := scan_pending_ok h
        obtain ⟨hlow, hhigh, h⟩ := hb
        rcases hspec with hspec | hspec | hspec
        · have hchar := encodeChar_two (a := byte) (b := b) (by omega) (by omega)
          exact ⟨_, later, by rw [hchar]; rfl⟩
        · rw [if_neg (by simp only [Pending.extend]; omega)] at h
          obtain ⟨c, later, rfl, hc, hc', h⟩ := scan_pending_ok h
          simp only [Pending.extend] at hc hc'
          have hchar := encodeChar_three (a := byte) (b := b) (c := c)
            (by omega) (by omega) (by omega) (by omega) (by omega)
          exact ⟨_, later, by rw [hchar]; rfl⟩
        · rw [if_neg (by simp only [Pending.extend]; omega)] at h
          obtain ⟨c, later, rfl, hc, hc', h⟩ := scan_pending_ok h
          rw [if_neg (by simp only [Pending.extend]; omega)] at h
          obtain ⟨d, later, rfl, hd, hd', h⟩ := scan_pending_ok h
          simp only [Pending.extend] at hc hc' hd hd'
          have hchar := encodeChar_four (a := byte) (b := b) (c := c) (d := d)
            (by omega) (by omega) (by omega) (by omega) (by omega) (by omega)
          exact ⟨_, later, by rw [hchar]; rfl⟩

/-- Between two characters the machine accepts exactly the bytes of characters. -/
theorem scan_eq_ok_iff {done : List Char} {start : Nat} {bytes : List UInt8} {cs : List Char} :
    scan done start none bytes = .ok cs ↔
      ∃ text : List Char, bytes = text.flatMap String.utf8EncodeChar ∧
        cs = done.reverse ++ text := by
  constructor
  · intro h
    induction hn : bytes.length using Nat.strongRecOn generalizing bytes done start with
    | ind n ih =>
        cases bytes with
        | nil =>
            rw [scan] at h
            cases h
            exact ⟨[], rfl, by simp⟩
        | cons byte rest =>
            obtain ⟨c, later, hsplit⟩ := scan_ok_char h
            have hne : String.utf8EncodeChar c ≠ [] := String.utf8EncodeChar_ne_nil
            have hshort : later.length < n := by
              have hpos := List.length_pos_iff.mpr hne
              have hlength := congrArg List.length hsplit
              rw [List.length_append] at hlength
              omega
            rw [hsplit, scan_encodeChar] at h
            obtain ⟨text, rfl, rfl⟩ := ih _ hshort h rfl
            exact ⟨c :: text, by rw [hsplit, List.flatMap_cons], by simp⟩
  · intro h
    rcases h with ⟨text, rfl, rfl⟩
    induction text generalizing done start with
    | nil => simp [scan]
    | cons c text ih =>
        rw [List.flatMap_cons, scan_encodeChar, ih]
        simp

/-- Decoding succeeds on the bytes of a text alone, with that text. -/
theorem decode_eq_ok_iff {bytes : List UInt8} {text : String} :
    decode bytes = .ok text ↔ bytes = encode text := by
  have hmap : decode bytes = .ok text ↔ scan [] 0 none bytes = .ok text.toList := by
    unfold decode
    cases scan [] 0 none bytes with
    | error defect => simp [Except.map]
    | ok cs =>
        simp only [Except.map, Except.ok.injEq]
        constructor
        · intro h
          subst h
          exact String.toList_ofList.symm
        · intro h
          subst h
          exact String.ofList_toList
  rw [hmap, scan_eq_ok_iff]
  simp [encode]

/-- What was written is read back. -/
theorem decode_encode (text : String) : decode (encode text) = .ok text :=
  decode_eq_ok_iff.mpr rfl

/-- A text is known by its bytes. -/
theorem encode_injective {a b : String} (h : encode a = encode b) : a = b := by
  have hdecode := decode_encode a
  rw [h, decode_encode] at hdecode
  cases hdecode
  rfl

end TagWire.Utf8
