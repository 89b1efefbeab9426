import Mathlib.Data.List.Basic
import TagWire.ByEncoding
import TagWire.Proofs.FrameWriting

/-!
# Records that have the same bytes

Nothing on the wire says where a field ends or of which kind it is.  Still no two
records of a type have the same bytes, unless they differ in their switches alone,
which are not on the wire:

* `Record.onWire` — a record without its switches;
* `Record.layout_injective` — what can be written is told apart by its bytes, however
  deep it is nested: a reader that may go as deep finds either record again;
* `ByEncoding.encoded_eq_iff`, `ByEncoding.distinct_eq` — so records compared by their
  encoding are compared by their fields, and a set of them holds each content once
  and at most one record that cannot be encoded;
* `ByEncoding.equal_iff_same_fields` — both, for records whose variants are listed and
  whose dynamic values are of types with tags of their own.
-/

namespace TagWire

variable {ι : Type} {S : Schema ι}

/-! ## What is on the wire -/

mutual

/-- A field's value with all of its switches off. -/
def Value.onWire {f : Field ι} : Value S f → Value S f
  | .scalar s v => .scalar s v
  | .string v => .string v
  | .absent k => .absent k
  | .present k item => .present k item.onWire
  | .required what k item => .required what k item.onWire
  | .guard what _ => .guard what false

/-- The same for a value that is present. -/
def Item.onWire {k : Kind ι} : Item S k → Item S k
  | .leaf l v => .leaf l v
  | .nested t fields => .nested t fields.onWire
  | .dynamic t fields => .dynamic t fields.onWire
  | .seq f n items => .seq f n items.onWire
  | .map f keys ascending values => .map f keys ascending values.onWire

/-- The same for a record. -/
def Record.onWire {fs : List (Field ι)} : Record S fs → Record S fs
  | .nil => .nil
  | .cons v rest => .cons v.onWire rest.onWire

end

mutual

/-- A switch that is set keeps a value from being written. -/
theorem Value.onWire_of_writable {limit : Nat} {f : Field ι} :
    ∀ v : Value S f, v.writable limit = true → v.onWire = v
  | .scalar _ _, _ => rfl
  | .string _, _ => rfl
  | .absent _, _ => rfl
  | .present k item, h => congrArg (Value.present k) (item.onWire_of_writable h)
  | .required what k item, h => congrArg (Value.required what k) (item.onWire_of_writable h)
  | .guard _ false, _ => rfl

/-- The same for a value that is present. -/
theorem Item.onWire_of_writable {limit : Nat} {k : Kind ι} :
    ∀ item : Item S k, item.writable limit = true → item.onWire = item
  | .leaf _ _, _ => rfl
  | .nested t fields, h => congrArg (Item.nested t) (fields.onWire_of_writable h)
  | .dynamic t fields, h => congrArg (Item.dynamic t) (fields.onWire_of_writable h)
  | .seq f n items, h =>
      congrArg (Item.seq f n) (items.onWire_of_writable (Bool.and_eq_true_iff.mp h).2)
  | .map f keys ascending values, h =>
      congrArg (Item.map f keys ascending)
        (values.onWire_of_writable (Bool.and_eq_true_iff.mp h).2)

/-- The same for a record. -/
theorem Record.onWire_of_writable {limit : Nat} {fs : List (Field ι)} :
    ∀ record : Record S fs, record.writable limit = true → record.onWire = record
  | .nil, _ => rfl
  | .cons v rest, h => by
      obtain ⟨hv, hrest⟩ := Bool.and_eq_true_iff.mp h
      rw [Record.onWire, v.onWire_of_writable hv, rest.onWire_of_writable hrest]

end

/-! ## Bytes tell records apart -/

/-- No two of these types have the same tag. -/
def Schema.TagsApart (S : Schema ι) (known : ι → Prop) : Prop :=
  ∀ t u, known t → known u → (S t).tag = (S u).tag → t = u

open Classical in
/-- Finds a known type by its tag. -/
noncomputable def Schema.find (S : Schema ι) (known : ι → Prop) (tag : TypeTag) : Except Fault ι :=
  if h : ∃ t, known t ∧ (S t).tag = tag then .ok h.choose else .error (.unknownType tag)

/-- A type with a tag of its own is found. -/
theorem Schema.TagsApart.find_tag {known : ι → Prop} (h : S.TagsApart known) {t : ι}
    (ht : known t) : S.find known (S t).tag = .ok t := by
  have hexists : ∃ u, known u ∧ (S u).tag = (S t).tag := ⟨t, ht, rfl⟩
  unfold Schema.find
  rw [dif_pos hexists, h _ _ hexists.choose_spec.1 ht hexists.choose_spec.2]

/-- **Bytes tell records apart.**  Two records of the same fields that can be written, with listed
variants and dynamic values of types with tags of their own, are the same if their bytes are. -/
theorem Record.layout_injective {known : ι → Prop} (hknown : S.TagsApart known) {limits : Limits}
    {fs : List (Field ι)} {a b : Record S fs} (ha : a.Forall Leaf.Listed known)
    (hb : b.Forall Leaf.Listed known) (hwritable : a.writable limits.writable = true)
    (hwritable' : b.writable limits.writable = true) (hbytes : a.layout = b.layout) : a = b := by
  -- A reader that may go as deep as either record reads both of them from the same bytes.
  let depth := max a.nesting b.nesting
  let session := Reader.start ⟨limits.maxLength, depth⟩ (some (S.find known))
  have hrecognises := readFields_recognises (S := S) (r := session []) rfl (Nat.zero_add depth) fs
  have hread : ∀ record : Record S fs, record.Forall Leaf.Listed known →
      record.writable limits.writable = true → record.nesting ≤ depth →
      readFields (readRecord depth) fs (session record.layout) = .ok record (session []) := by
    intro record hlisted hwritten hnesting
    have hspellable : record.Spellable (session []).rules limits depth :=
      ⟨hwritten, hnesting, hlisted.imp (fun _ _ h => h.found) fun t ht =>
        ⟨_, rfl, hknown.find_tag ht⟩⟩
    exact (hrecognises _ _ _).mpr
      ⟨_, [], (List.append_nil _).symm, record.spelled_layout rfl hspellable, rfl⟩
  have hreadA := hread a ha hwritable (Nat.le_max_left _ _)
  have hreadB := hread b hb hwritable' (Nat.le_max_right _ _)
  rw [← hbytes, hreadA] at hreadB
  cases hreadB
  rfl

namespace ByEncoding

variable {t : ι} {known : ι → Prop}

/-- A record with listed variants and dynamic values of these types. -/
def Listed (known : ι → Prop) (x : ByEncoding S t) : Prop :=
  x.record.Forall Leaf.Listed known

/-- A record that can be written has its bytes. -/
theorem encoded_of_writable {x : ByEncoding S t}
    (h : x.record.writable (Limits.writable {}) = true) :
    x.encoded = some (envelopeLayout (S t).tag ++ x.record.layout) :=
  congrArg Except.toOption (Instance.encodeWith_of_writable (x := ⟨t, x.record⟩) h)

/-- A record that cannot be written has no bytes. -/
theorem encoded_eq_none_iff {x : ByEncoding S t} :
    x.encoded = none ↔ ¬ x.record.writable (Limits.writable {}) = true := by
  constructor
  · intro hnone h
    cases (encoded_of_writable h).symm.trans hnone
  · intro h
    obtain ⟨fault, hfault⟩ := Instance.encodeWith_of_not_writable (x := ⟨t, x.record⟩) h
    exact congrArg Except.toOption hfault

/-- Records with the same bytes are those with the same fields, and those without any bytes. -/
theorem encoded_eq_iff (hknown : S.TagsApart known) {a b : ByEncoding S t} (ha : a.Listed known)
    (hb : b.Listed known) :
    a.encoded = b.encoded ↔ a.encoded = none ∧ b.encoded = none ∨
      a.encoded ≠ none ∧ b.encoded ≠ none ∧ a.record.onWire = b.record.onWire := by
  by_cases hnone : a.encoded = none
  · rw [hnone]
    simp [eq_comm]
  by_cases hnone' : b.encoded = none
  · rw [hnone']
    simp [hnone]
  have hwritable := not_not.mp (mt encoded_eq_none_iff.mpr hnone)
  have hwritable' := not_not.mp (mt encoded_eq_none_iff.mpr hnone')
  rw [a.record.onWire_of_writable hwritable, b.record.onWire_of_writable hwritable']
  constructor
  · intro h
    rw [encoded_of_writable hwritable, encoded_of_writable hwritable', Option.some.injEq,
      List.append_cancel_left_eq] at h
    exact .inr ⟨hnone, hnone',
      Record.layout_injective hknown ha hb hwritable hwritable' h⟩
  · rintro (⟨h, -⟩ | ⟨-, -, h⟩)
    · exact absurd h hnone
    · rw [encoded_of_writable hwritable, encoded_of_writable hwritable', h]

/-- Records are compared by their bytes. -/
theorem beq_eq_true_iff {a b : ByEncoding S t} : (a == b) = true ↔ a.encoded = b.encoded :=
  beq_iff_eq (a := a.encoded)

theorem beq_eq_false_iff {a b : ByEncoding S t} : (a == b) = false ↔ a.encoded ≠ b.encoded :=
  beq_eq_false_iff_ne (a := a.encoded)

instance : EquivBEq (ByEncoding S t) where
  rfl := beq_eq_true_iff.mpr rfl
  symm h := beq_eq_true_iff.mpr (beq_eq_true_iff.mp h).symm
  trans h h' := beq_eq_true_iff.mpr ((beq_eq_true_iff.mp h).trans (beq_eq_true_iff.mp h'))

instance : LawfulHashable (ByEncoding S t) where
  hash_eq _ _ h := congrArg (hash (α := Option (List UInt8))) (beq_eq_true_iff.mp h)

/-! ## Sets of records -/

/-- Among some records there is one for each of their encodings. -/
theorem exists_representatives (xs : List (ByEncoding S t)) :
    ∃ reps : List (ByEncoding S t), (∀ x ∈ reps, x ∈ xs) ∧ (reps.map encoded).Nodup ∧
      ∀ x ∈ xs, x.encoded ∈ reps.map encoded := by
  induction xs with
  | nil => exact ⟨[], by simp, .nil, by simp⟩
  | cons x xs ih =>
      obtain ⟨reps, hsub, hnodup, hcover⟩ := ih
      by_cases hx : x.encoded ∈ reps.map encoded
      · refine ⟨reps, fun y hy => List.mem_cons_of_mem _ (hsub y hy), hnodup, ?_⟩
        exact List.forall_mem_cons.mpr ⟨hx, hcover⟩
      · refine ⟨x :: reps, ?_, ?_, ?_⟩
        · exact List.forall_mem_cons.mpr
            ⟨List.mem_cons_self, fun y hy => List.mem_cons_of_mem _ (hsub y hy)⟩
        · exact List.nodup_cons.mpr ⟨hx, hnodup⟩
        · exact List.forall_mem_cons.mpr
            ⟨List.mem_cons_self, fun y hy => List.mem_cons_of_mem _ (hcover y hy)⟩

/-- A list contains a record when it has one with the same encoding. -/
theorem contains_iff {xs : List (ByEncoding S t)} {x : ByEncoding S t} :
    xs.contains x = true ↔ x.encoded ∈ xs.map encoded := by
  rw [List.contains_iff_exists_mem_beq, List.mem_map]
  exact exists_congr fun y => and_congr_right fun _ => beq_eq_true_iff.trans eq_comm

/-- A set holds as many records as there are encodings. -/
theorem distinct_eq_length {xs reps : List (ByEncoding S t)} (hsub : ∀ x ∈ reps, x ∈ xs)
    (hnodup : (reps.map encoded).Nodup) (hcover : ∀ x ∈ xs, x.encoded ∈ reps.map encoded) :
    distinct xs = reps.length := by
  let held := (Std.HashSet.ofList xs).toList
  have hheld : (held.map encoded).Nodup :=
    List.pairwise_map.mpr (Std.HashSet.distinct_toList.imp fun h => beq_eq_false_iff.mp h)
  have hsame : ∀ x : ByEncoding S t, x.encoded ∈ held.map encoded ↔ x.encoded ∈ xs.map encoded := by
    intro x
    rw [← contains_iff, ← contains_iff, Std.HashSet.contains_toList, Std.HashSet.contains_ofList]
  have hperm : (held.map encoded).Perm (reps.map encoded) := by
    refine (List.perm_ext_iff_of_nodup hheld hnodup).mpr fun code =>
      ⟨fun hcode => ?_, fun hcode => ?_⟩
    · obtain ⟨x, -, rfl⟩ := List.mem_map.mp hcode
      obtain ⟨y, hy, hxy⟩ := List.mem_map.mp ((hsame x).mp hcode)
      rw [← hxy]
      exact hcover y hy
    · obtain ⟨x, hx, rfl⟩ := List.mem_map.mp hcode
      exact (hsame x).mpr (List.mem_map_of_mem (hsub x hx))
  have hlength := hperm.length_eq
  rw [List.length_map, List.length_map] at hlength
  rw [← hlength]
  exact Std.HashSet.length_toList.symm

/-- Of records with different encodings one at most has none. -/
theorem length_eq_of_nodup {reps : List (ByEncoding S t)} (hnodup : (reps.map encoded).Nodup) :
    reps.length = (reps.filter fun x => x.encoded.isSome).length +
      if none ∈ reps.map encoded then 1 else 0 := by
  have hnone : reps.countP (fun x => decide ¬ x.encoded.isSome = true) =
      (reps.map encoded).count none := by
    rw [List.count, List.countP_map]
    refine List.countP_congr fun x _ => ?_
    cases h : x.encoded <;> simp [h]
  rw [List.length_eq_countP_add_countP fun x => x.encoded.isSome, List.countP_eq_length_filter,
    hnone, hnodup.count]

/-- The contents of those records that can be encoded. -/
def contents (xs : List (ByEncoding S t)) : List (Record S (S t).fields) :=
  (xs.filter fun x => x.encoded.isSome).map fun x => x.record.onWire

theorem mem_contents_iff {xs : List (ByEncoding S t)} {content : Record S (S t).fields} :
    content ∈ contents xs ↔ ∃ x ∈ xs, x.encoded ≠ none ∧ x.record.onWire = content := by
  unfold contents
  rw [List.mem_map]
  constructor
  · rintro ⟨x, hx, hcontent⟩
    obtain ⟨hmem, hsome⟩ := List.mem_filter.mp hx
    exact ⟨x, hmem, Option.isSome_iff_ne_none.mp hsome, hcontent⟩
  · rintro ⟨x, hmem, hsome, hcontent⟩
    exact ⟨x, List.mem_filter.mpr ⟨hmem, Option.isSome_iff_ne_none.mpr hsome⟩, hcontent⟩

/-- Records with different encodings have different contents. -/
theorem nodup_contents (hknown : S.TagsApart known) {reps : List (ByEncoding S t)}
    (hreps : ∀ x ∈ reps, x.Listed known) (hnodup : (reps.map encoded).Nodup) :
    (contents reps).Nodup := by
  refine List.pairwise_map.mpr ?_
  refine ((List.pairwise_map.mp hnodup).filter _).imp_of_mem fun {x y} hx hy hne hsame => hne ?_
  obtain ⟨hx, hxsome⟩ := List.mem_filter.mp hx
  obtain ⟨hy, hysome⟩ := List.mem_filter.mp hy
  rw [Option.isSome_iff_ne_none] at hxsome hysome
  exact (encoded_eq_iff hknown (hreps x hx) (hreps y hy)).mpr (.inr ⟨hxsome, hysome, hsame⟩)

/-- Records of the same encodings have the same contents. -/
theorem mem_contents_of_cover (hknown : S.TagsApart known) {xs reps : List (ByEncoding S t)}
    (hxs : ∀ x ∈ xs, x.Listed known) (hreps : ∀ x ∈ reps, x.Listed known)
    (hcover : ∀ x ∈ xs, x.encoded ∈ reps.map encoded) {content : Record S (S t).fields}
    (hcontent : content ∈ contents xs) : content ∈ contents reps := by
  obtain ⟨x, hx, hsome, rfl⟩ := mem_contents_iff.mp hcontent
  obtain ⟨y, hy, hyx⟩ := List.mem_map.mp (hcover x hx)
  have hysome : y.encoded ≠ none := by rwa [hyx]
  rcases (encoded_eq_iff hknown (hreps y hy) (hxs x hx)).mp hyx with ⟨hnone, -⟩ | ⟨-, -, hsame⟩
  · exact absurd hnone hysome
  · exact mem_contents_iff.mpr ⟨y, hy, hysome, hsame⟩

/-- A set holds each content of the records that can be encoded once, and one record that cannot, if
there is any. -/
theorem distinct_eq (hknown : S.TagsApart known) {xs : List (ByEncoding S t)}
    (hxs : ∀ x ∈ xs, x.Listed known) :
    ∃ contents : List (Record S (S t).fields), contents.Nodup ∧
      (∀ content, content ∈ contents ↔
        ∃ x ∈ xs, x.encoded ≠ none ∧ x.record.onWire = content) ∧
      distinct xs = contents.length + if none ∈ xs.map encoded then 1 else 0 := by
  obtain ⟨reps, hsub, hnodup, hcover⟩ := exists_representatives xs
  have hreps : ∀ x ∈ reps, x.Listed known := fun x hx => hxs x (hsub x hx)
  have hsame : ∀ code, code ∈ xs.map encoded ↔ code ∈ reps.map encoded := by
    intro code
    constructor
    · intro hcode
      obtain ⟨x, hx, rfl⟩ := List.mem_map.mp hcode
      exact hcover x hx
    · intro hcode
      obtain ⟨x, hx, rfl⟩ := List.mem_map.mp hcode
      exact List.mem_map_of_mem (hsub x hx)
  refine ⟨contents reps, nodup_contents hknown hreps hnodup, fun content => ⟨?_, ?_⟩, ?_⟩
  · intro hcontent
    obtain ⟨x, hx, hencoded⟩ := mem_contents_iff.mp hcontent
    exact ⟨x, hsub x hx, hencoded⟩
  · intro hcontent
    exact mem_contents_of_cover hknown hxs hreps hcover (mem_contents_iff.mpr hcontent)
  · rw [distinct_eq_length hsub hnodup hcover, length_eq_of_nodup hnodup, contents, List.length_map]
    simp only [hsame]

/-- **Records compared by their encoding are compared by their fields.**  Of a type whose variants
are listed and whose dynamic values are of types with tags of their own, two records are equal just
if neither can be encoded, or both can and have the same fields on the wire.  This is an equivalence
that agrees with the hash, and a set of such records holds each content once and one record that
cannot be encoded, if there is any. -/
theorem equal_iff_same_fields (t : ι) (known : ι → Prop) (hknown : S.TagsApart known) :
    (∀ a b : ByEncoding S t, a.Listed known → b.Listed known →
      ((a == b) = true ↔ a.encoded = none ∧ b.encoded = none ∨
        a.encoded ≠ none ∧ b.encoded ≠ none ∧ a.record.onWire = b.record.onWire)) ∧
    Equivalence (fun a b : ByEncoding S t => (a == b) = true) ∧
    (∀ a b : ByEncoding S t, (a == b) = true → hash a = hash b) ∧
    ∀ xs : List (ByEncoding S t), (∀ x ∈ xs, x.Listed known) →
      ∃ contents : List (Record S (S t).fields), contents.Nodup ∧
        (∀ content, content ∈ contents ↔
          ∃ x ∈ xs, x.encoded ≠ none ∧ x.record.onWire = content) ∧
        distinct xs = contents.length + if none ∈ xs.map encoded then 1 else 0 := by
  refine ⟨fun a b ha hb => ?_, ?_, fun a b h => hash_eq h, fun xs hxs => distinct_eq hknown hxs⟩
  · exact beq_eq_true_iff.trans (encoded_eq_iff hknown ha hb)
  · exact ⟨fun _ => BEq.rfl, fun h => BEq.symm h, fun h h' => BEq.trans h h'⟩

/-- A parcel that holds nothing. -/
def hollowParcel : Record parcel (parcel ()).fields := .cons (.absent _) (.cons (.absent _) .nil)

theorem parcels_equal_iff_same_fields :
    parcel.TagsApart (fun _ => True) ∧
      ((⟨boxedParcel⟩ : ByEncoding parcel ()) == ⟨hollowParcel⟩) = false ∧
      distinct (S := parcel) (t := ()) [⟨boxedParcel⟩, ⟨hollowParcel⟩, ⟨boxedParcel⟩] = 2 := by
  have hapart : parcel.TagsApart (fun _ => True) := fun _ _ _ _ _ => rfl
  have hboxed : Listed (fun _ => True) (⟨boxedParcel⟩ : ByEncoding parcel ()) :=
    ⟨⟨⟨by decide, by decide⟩, by decide⟩, ⟨trivial, trivial, trivial, trivial⟩, trivial⟩
  have hhollow : Listed (fun _ => True) (⟨hollowParcel⟩ : ByEncoding parcel ()) :=
    ⟨trivial, trivial, trivial⟩
  have hboxedCode : (⟨boxedParcel⟩ : ByEncoding parcel ()).encoded ≠ none :=
    mt encoded_eq_none_iff.mp (not_not_intro (by decide +kernel))
  have hhollowCode : (⟨hollowParcel⟩ : ByEncoding parcel ()).encoded ≠ none :=
    mt encoded_eq_none_iff.mp (not_not_intro (by decide +kernel))
  obtain ⟨hequal, -, -, hdistinct⟩ := equal_iff_same_fields () (fun _ => True) hapart
  refine ⟨hapart, ?_, ?_⟩
  · refine Bool.eq_false_iff.mpr fun h => ?_
    rcases (hequal _ _ hboxed hhollow).mp h with ⟨hnone, -⟩ | ⟨-, -, hsame⟩
    · exact hboxedCode hnone
    · cases hsame
  · obtain ⟨contents, hnodup, hcontents, hcount⟩ :=
      hdistinct [⟨boxedParcel⟩, ⟨hollowParcel⟩, ⟨boxedParcel⟩] (by simp [hboxed, hhollow])
    have hperm : contents.Perm [boxedParcel, hollowParcel] := by
      refine (List.perm_ext_iff_of_nodup hnodup ?_).mpr fun content => (hcontents content).trans ?_
      · refine List.nodup_cons.mpr ⟨fun h => ?_, List.pairwise_singleton _ _⟩
        cases List.mem_singleton.mp h
      · constructor
        · rintro ⟨x, hx, -, rfl⟩
          rcases List.mem_cons.mp hx with rfl | hx
          · exact List.mem_cons_self
          · rcases List.mem_cons.mp hx with rfl | hx
            · exact List.mem_cons_of_mem _ List.mem_cons_self
            · rw [List.mem_singleton.mp hx]
              exact List.mem_cons_self
        · intro hcontent
          rcases List.mem_cons.mp hcontent with rfl | hcontent
          · exact ⟨⟨boxedParcel⟩, List.mem_cons_self, hboxedCode, rfl⟩
          · rw [List.mem_singleton.mp hcontent]
            exact ⟨⟨hollowParcel⟩, List.mem_cons_of_mem _ List.mem_cons_self, hhollowCode, rfl⟩
    rw [hcount, hperm.length_eq]
    simp [hboxedCode.symm, hhollowCode.symm]

end ByEncoding

end TagWire
