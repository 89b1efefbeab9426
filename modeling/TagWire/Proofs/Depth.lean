import TagWire.Proofs.Canonical
import TagWire.Proofs.Recognition

/-!
# Values that lie too deep

Only a reader looks at how deep values lie.  From the bytes of a value that
lies deeper than the session allows it reads everything in front of the first
nested or dynamic value too many, and refuses that one:

* `Read.Refuses` — a program that fails on input that begins with some bytes,
  and how such a failure passes through the programs around it;
* `Value.refused`, `readFields_refuses` — layouts that are nested too deep are
  refused, whatever follows them.
-/

namespace TagWire

variable {ι α β : Type} {S : Schema ι}

namespace Read

variable {r : Reader ι} {p : Read ι α} {q : α → Read ι β} {P : α → List UInt8 → Prop}
variable {u w : List UInt8} {fault : Fault}

/-- A program that raises a fault on any input that begins with these bytes. -/
def Refuses (r : Reader ι) (p : Read ι α) (w : List UInt8) (fault : Fault) : Prop :=
  ∀ rest, ∃ r', p (r.on (w ++ rest)) = .error (.session fault) r'

namespace Refuses

/-- A fault ends a sequence. -/
theorem bind (hp : Refuses r p w fault) : Refuses r (p >>= q) w fault := by
  intro rest
  obtain ⟨r', hfail⟩ := hp rest
  exact ⟨r', run_bind_error hfail⟩

/-- What is behind the bytes of the fault does not matter. -/
theorem append (hp : Refuses r p w fault) (u : List UInt8) : Refuses r p (w ++ u) fault := by
  intro rest
  rw [List.append_assoc]
  exact hp (u ++ rest)

/-- A fault in the second part of a sequence, behind what the first part accepts. -/
theorem bind_of_recognises {a : α} (hp : Recognises r p P) (ha : P a u)
    (hq : Refuses r (q a) w fault) : Refuses r (p >>= q) (u ++ w) fault := by
  intro rest
  obtain ⟨r', hfail⟩ := hq rest
  refine ⟨r', ?_⟩
  rw [run_bind_ok ((hp _ a _).mpr ⟨u, w ++ rest, List.append_assoc .., ha, rfl⟩), hfail]

/-- A program that depends on the set-up of its session. -/
theorem get {q : Reader ι → Read ι α} (hq : Refuses r (q r) w fault)
    (h : ∀ b, q (r.on b) = q r) : Refuses r (MonadState.get >>= q) w fault := by
  intro rest
  obtain ⟨r', hfail⟩ := hq rest
  refine ⟨r', ?_⟩
  rw [run_get_bind, h]
  exact hfail

/-- A value is refused when no level is left for it. -/
theorem within_full (hfull : r.limits.maxDepth ≤ r.depth) (w : List UInt8) :
    Refuses r (within p) w (.depthExceeded r.limits.maxDepth) := by
  intro rest
  refine ⟨{ r.on (w ++ rest) with poisoned := true }, ?_⟩
  unfold within
  rw [if_pos (show (r.on (w ++ rest)).limits.maxDepth ≤ (r.on (w ++ rest)).depth from hfull)]
  rfl

/-- A fault within a value is one of the value. -/
theorem within (hroom : r.depth < r.limits.maxDepth)
    (hp : Refuses { r with depth := r.depth + 1 } p w fault) :
    Refuses r (Read.within p) w fault := by
  intro rest
  obtain ⟨r', hfail⟩ := hp rest
  refine ⟨{ r' with depth := r'.depth - 1 }, ?_⟩
  unfold Read.within
  rw [if_neg (show ¬ (r.on (w ++ rest)).limits.maxDepth ≤ (r.on (w ++ rest)).depth from
    Nat.not_le.mpr hroom)]
  have hrun : p { r.on (w ++ rest) with depth := (r.on (w ++ rest)).depth + 1 } = _ := hfail
  rw [hrun]

/-- A fault behind a byte that marks presence. -/
theorem whenPresent (hr : r.poisoned = false) (hp : Refuses r p w fault) :
    Refuses r (Read.whenPresent p) (1 :: w) fault := by
  have hflag : ∃ byte : UInt8, [1] = [byte] ∧ (true = false ↔ byte = 0) := ⟨1, rfl, by decide⟩
  exact bind_of_recognises (a := true) (recognises_bool hr) hflag hp.bind

/-- A fault in one of several items, all items before which are accepted. -/
theorem times {items : List α} {bytes : α → List UInt8} (hp : Recognises r p P)
    (hitems : ∀ a ∈ items, P a (bytes a) ∨ Refuses r p (bytes a) fault)
    (hfault : ∃ a ∈ items, Refuses r p (bytes a) fault) :
    Refuses r (Read.times p items.length) (items.flatMap bytes) fault := by
  induction items with
  | nil => simp at hfault
  | cons first rest ih =>
      rcases hitems first List.mem_cons_self with hfirst | hfirst
      · by_cases hrest : ∃ a ∈ rest, Refuses r p (bytes a) fault
        · exact bind_of_recognises hp hfirst
            (ih (fun a ha => hitems a (List.mem_cons_of_mem first ha)) hrest).bind
        · obtain ⟨a, ha, hrefuses⟩ := hfault
          rcases List.mem_cons.mp ha with rfl | ha
          · exact hrefuses.bind.append _
          · exact absurd ⟨a, ha, hrefuses⟩ hrest
      · exact hfirst.bind.append _

end Refuses

end Read

/-! ## Layouts that are nested too deep -/

/-- A session that has room for `levels` more open values and accepts what these limits
let a writer write. -/
structure Reader.HasRoom (r : Reader ι) (limits : Limits) (levels : Nat) : Prop where
  not_poisoned : r.poisoned = false
  depth_add : r.depth + levels = r.limits.maxDepth
  maxLength_eq : r.limits.maxLength = limits.maxLength

/-- That a value nested deeper than there is room for is refused. -/
def Value.TooDeepRefused (limits : Limits) {f : Field ι} (v : Value S f) : Prop :=
  ∀ (r : Reader ι) (levels top : Nat), r.HasRoom limits levels →
    v.Spellable r.rules limits top → levels < v.nesting →
    Read.Refuses r (f.read (readRecord (S := S) levels)) v.layout (.depthExceeded r.limits.maxDepth)

/-- The same for a value that is present. -/
def Item.TooDeepRefused (limits : Limits) {k : Kind ι} (item : Item S k) : Prop :=
  ∀ (r : Reader ι) (levels top : Nat), r.HasRoom limits levels →
    item.Spellable r.rules limits top → levels < item.nesting →
    Read.Refuses r (k.read (readRecord (S := S) levels)) item.layout
      (.depthExceeded r.limits.maxDepth)

section Rooms

variable {limits : Limits} {r : Reader ι} {levels top : Nat}

/-- With room for a value, its layout is accepted; without, it is refused. -/
theorem Value.TooDeepRefused.or_spelled {f : Field ι} {v : Value S f}
    (h : v.TooDeepRefused limits) (hroom : r.HasRoom limits levels)
    (hv : v.Spellable r.rules limits top) :
    Value.Spelled r.rules levels v v.layout ∨
      Read.Refuses r (f.read (readRecord (S := S) levels)) v.layout
        (.depthExceeded r.limits.maxDepth) := by
  by_cases hdeep : levels < v.nesting
  · exact .inr (h r levels top hroom hv hdeep)
  · exact .inl (v.spelled_layout hroom.maxLength_eq levels
      ⟨hv.1, Nat.le_of_not_lt hdeep, hv.2.2⟩)

/-- Fields are accepted up to the first that is too deep, which is refused. -/
theorem readFields_refuses_of {fs : List (Field ι)} {record : Record S fs}
    (h : record.All fun v => v.TooDeepRefused limits) (hroom : r.HasRoom limits levels)
    (hrecord : record.Spellable r.rules limits top) (hdeep : levels < record.nesting) :
    Read.Refuses r (readFields (readRecord (S := S) levels) fs) record.layout
      (.depthExceeded r.limits.maxDepth) := by
  induction fs with
  | nil =>
      cases record
      cases hdeep
  | cons f fs ih =>
      cases record with
      | cons v rest =>
          obtain ⟨hv, hrest⟩ := Record.spellable_iff.mp hrecord
          by_cases hfirst : levels < v.nesting
          · exact (h.1 r levels top hroom hv hfirst).bind.append _
          · have hlater : levels < rest.nesting := by
              rw [Record.nesting] at hdeep
              omega
            have hspelled := v.spelled_layout hroom.maxLength_eq levels
              ⟨hv.1, Nat.le_of_not_lt hfirst, hv.2.2⟩
            have hread := Field.recognises (S := S) hroom.not_poisoned
              (recognises_entered hroom.not_poisoned hroom.depth_add) f
            exact Read.Refuses.bind_of_recognises hread hspelled
              (ih h.2 (Record.spellable_iff.mpr hrest) hlater).bind

/-- A record that is entered is refused where it lies too deep itself or holds something
that does. -/
theorem entered_refuses {t : ι} {fields : Record S (S t).fields}
    (h : fields.All fun v => v.TooDeepRefused limits) (hroom : r.HasRoom limits levels)
    (hfields : fields.Spellable r.rules limits top) (hdeep : levels < fields.nesting + 1) :
    Read.Refuses r (Read.within (readRecord (S := S) levels t)) fields.layout
      (.depthExceeded r.limits.maxDepth) := by
  have hdepth := hroom.depth_add
  cases levels with
  | zero => exact .within_full (by omega) _
  | succ below =>
      have hinner : ({ r with depth := r.depth + 1 } : Reader ι).HasRoom limits below := by
        refine ⟨hroom.not_poisoned, ?_, hroom.maxLength_eq⟩
        dsimp only
        omega
      exact .within (by omega) (readFields_refuses_of h hinner hfields (by omega))

/-- A collection with an item that is too deep has one, and its other items may be too. -/
theorem exists_deeper {α : Type} {items : List α} {nesting : α → Nat}
    (h : ¬ ∀ x ∈ items, nesting x ≤ levels) : ∃ x ∈ items, levels < nesting x := by
  simpa using h

end Rooms

/-- A nested record is refused behind the byte that marks it. -/
theorem Item.nested_refused (limits : Limits) {t : ι} {fields : Record S (S t).fields}
    (h : fields.All fun v => v.TooDeepRefused limits) :
    (Item.nested t fields).TooDeepRefused limits := by
  intro r levels top hroom hitem hdeep
  have hfields : fields.Spellable r.rules limits fields.nesting :=
    ⟨hitem.1, Nat.le_refl _, hitem.2.2⟩
  exact ((entered_refuses h hroom hfields hdeep).whenPresent hroom.not_poisoned).bind

/-- A dynamic value is refused once its tag is resolved. -/
theorem Item.dynamic_refused (limits : Limits) {t : ι} {fields : Record S (S t).fields}
    (h : fields.All fun v => v.TooDeepRefused limits) :
    (Item.dynamic t fields).TooDeepRefused limits := by
  intro r levels top hroom hitem hdeep
  obtain ⟨hwritable, -, ⟨resolve, hresolver, htag⟩, hfound⟩ := hitem
  have hfields : fields.Spellable r.rules limits fields.nesting :=
    ⟨hwritable, Nat.le_refl _, hfound⟩
  apply Read.Refuses.whenPresent hroom.not_poisoned
  apply Read.Refuses.bind_of_recognises (Read.recognises_i32 hroom.not_poisoned) rfl
  refine .get ?_ fun _ => rfl
  simp only [hresolver]
  refine .bind_of_recognises (u := []) (Read.recognises_converted _) ⟨htag, rfl⟩ ?_
  rw [Read.within_map]
  exact (entered_refuses h hroom hfields hdeep).bind

/-- A sequence is refused at its first item that is too deep. -/
theorem Item.seq_refused (limits : Limits) {f : Field ι} {values : List (Value S f)}
    (h : ∀ v ∈ values, v.TooDeepRefused limits) :
    (Item.ofList values).TooDeepRefused limits := by
  intro r levels top hroom hitem hdeep
  obtain ⟨hlength, hvalues⟩ := Item.spellable_ofList.mp hitem
  obtain ⟨v, hv, hvdeep⟩ := exists_deeper (mt Item.nesting_ofList_le.mpr (Nat.not_le.mpr hdeep))
  have hread := Field.recognises (S := S) hroom.not_poisoned
    (recognises_entered hroom.not_poisoned hroom.depth_add) f
  rw [Item.layout_ofList]
  refine (Read.Refuses.bind_of_recognises (a := some values.length)
    (Read.recognises_length? hroom.not_poisoned .sequence)
    ⟨(Rules.fits_iff hroom.maxLength_eq).mpr hlength, rfl⟩ (Read.Refuses.bind ?_)).bind
  exact .times hread (fun u hu => (h u hu).or_spelled hroom (hvalues u hu))
    ⟨v, hv, h v hv r levels top hroom (hvalues v hv) hvdeep⟩

/-- A mapping is refused at the first of its values that is too deep. -/
theorem Item.map_refused (limits : Limits) {f : Field ι} {m : SortedMap (Value S f)}
    (h : ∀ entry ∈ m.entries, entry.2.TooDeepRefused limits) :
    (Item.ofMap m).TooDeepRefused limits := by
  intro r levels top hroom hitem hdeep
  obtain ⟨hlength, hentries⟩ := Item.spellable_ofMap.mp hitem
  obtain ⟨entry, hentry, hvdeep⟩ :=
    exists_deeper (mt Item.nesting_ofMap_le.mpr (Nat.not_le.mpr hdeep))
  have hkey : ∀ e ∈ m.entries, r.rules.Text e.1 (textLayout e.1) := fun e he =>
    ⟨(Rules.fits_iff hroom.maxLength_eq).mpr (hentries e he).1, rfl⟩
  have hread := Field.recognises (S := S) hroom.not_poisoned
    (recognises_entered hroom.not_poisoned hroom.depth_add) f
  have hpair : ∀ e ∈ m.entries, levels < e.2.nesting → Read.Refuses r
      (do
        let k ← Read.string
        return (k, ← f.read (readRecord (S := S) levels)))
      (textLayout e.1 ++ e.2.layout) (.depthExceeded r.limits.maxDepth) := by
    intro e he hdeep
    exact .bind_of_recognises (Read.recognises_string hroom.not_poisoned) (hkey e he)
      (h e he r levels top hroom (hentries e he).2 hdeep).bind
  rw [Item.layout_ofMap]
  refine (Read.Refuses.bind_of_recognises (a := some m.entries.length)
    (Read.recognises_length? hroom.not_poisoned .mapping)
    ⟨(Rules.fits_iff hroom.maxLength_eq).mpr hlength, rfl⟩ (Read.Refuses.bind ?_)).bind
  refine .times (Read.recognises_pair hroom.not_poisoned hread) (fun e he => ?_)
    ⟨entry, hentry, hpair entry hentry hvdeep⟩
  by_cases hdeep : levels < e.2.nesting
  · exact .inr (hpair e he hdeep)
  · refine .inl ⟨_, _, rfl, hkey e he, e.2.spelled_layout hroom.maxLength_eq levels ?_⟩
    exact ⟨(hentries e he).2.1, Nat.le_of_not_lt hdeep, (hentries e he).2.2.2⟩

/-- **Depth.**  A value that lies deeper than there is room for is refused. -/
theorem Value.refused (limits : Limits) {f : Field ι} (v : Value S f) :
    v.TooDeepRefused limits := by
  induction v using Value.induction (Q := fun item => item.TooDeepRefused limits) with
  | scalar s v =>
      intro r levels top hroom hv hdeep
      cases hdeep
  | string v =>
      intro r levels top hroom hv hdeep
      cases hdeep
  | absent k =>
      intro r levels top hroom hv hdeep
      cases hdeep
  | present k item ih =>
      intro r levels top hroom hv hdeep
      exact (ih r levels top hroom hv hdeep).bind
  | required what k item ih =>
      intro r levels top hroom hv hdeep
      exact (ih r levels top hroom hv hdeep).bind
  | guard what refuses =>
      intro r levels top hroom hv hdeep
      cases hdeep
  | leaf l v =>
      intro r levels top hroom hv hdeep
      cases hdeep
  | nested t fields ih => exact Item.nested_refused limits ih
  | dynamic t fields ih => exact Item.dynamic_refused limits ih
  | seq f values ih => exact Item.seq_refused limits ih
  | map f m ih => exact Item.map_refused limits ih

/-- The fields of a record that lies too deep are refused. -/
theorem readFields_refuses {limits : Limits} {r : Reader ι} {levels top : Nat}
    {fs : List (Field ι)} {record : Record S fs} (hroom : r.HasRoom limits levels)
    (hrecord : record.Spellable r.rules limits top) (hdeep : levels < record.nesting) :
    Read.Refuses r (readFields (readRecord (S := S) levels) fs) record.layout
      (.depthExceeded r.limits.maxDepth) :=
  readFields_refuses_of ((Record.spellable_iff.mp hrecord).imp fun v _ => v.refused limits) hroom
    hrecord hdeep

end TagWire
