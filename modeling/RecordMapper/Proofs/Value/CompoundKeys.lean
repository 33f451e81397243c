import RecordMapper.Proofs.Related.StoredTypes
import RecordMapper.Proofs.Value.Identifiers

/-!
Keys that are joined from several keys.

* A key that copies no text of its value holds neither a bar nor a comma
  (`separatorFree_of_copiesNothing`).
* `Value.countInKey` counts the separators in the key of a part; they are not escaped where keys are
  joined.
* `compound_agree_iff`: joined keys that are equal come from equal keys position by position exactly
  if the keys hold equally many separators position by position.
-/
namespace RecordMapper

set_option autoImplicit false

open RecordMapper.Number RecordMapper.Text RecordMapper.Calendar

/-! ## Texts without separators -/

/-- Neither the bar between the parts of a composite key nor the comma between those of an array. -/
def SeparatorFree (cs : List Char) : Prop := ∀ c ∈ cs, c ≠ '|' ∧ c ≠ ','

instance (cs : List Char) : Decidable (SeparatorFree cs) :=
  List.decidableBAll (fun c => c ≠ '|' ∧ c ≠ ',') cs

@[simp] theorem separatorFree_nil : SeparatorFree [] := nofun

@[simp] theorem separatorFree_cons {c : Char} {cs : List Char} :
    SeparatorFree (c :: cs) ↔ (c ≠ '|' ∧ c ≠ ',') ∧ SeparatorFree cs :=
  List.forall_mem_cons

@[simp] theorem separatorFree_append {cs ds : List Char} :
    SeparatorFree (cs ++ ds) ↔ SeparatorFree cs ∧ SeparatorFree ds :=
  List.forall_mem_append

theorem SeparatorFree.mono {cs ds : List Char} (h : SeparatorFree cs) (hsub : ds ⊆ cs) :
    SeparatorFree ds :=
  fun c hc => h c (hsub hc)

theorem SeparatorFree.of_digits {cs : List Char} (h : ∀ c ∈ cs, c.isDigit = true) :
    SeparatorFree cs := by
  intro c hc
  have hdigit := h c hc
  constructor <;> rintro rfl <;> cases hdigit

@[simp] theorem separatorFree_natChars (n : Nat) : SeparatorFree (natChars n) :=
  .of_digits fun _ hc => isDigit_of_mem_natChars hc

@[simp] theorem separatorFree_places (width n : Nat) : SeparatorFree (places width n) :=
  .of_digits fun _ hc => isDigit_of_mem_places hc

@[simp] theorem separatorFree_padded (width n : Nat) : SeparatorFree (padded width n) :=
  .of_digits fun _ hc => isDigit_of_mem_padded hc

@[simp] theorem separatorFree_intChars (n : Int) : SeparatorFree (intChars n) := by
  unfold intChars
  split <;> simp

@[simp] theorem separatorFree_hexPlaces (width n : Nat) : SeparatorFree (hexPlaces width n) := by
  have hdigits : SeparatorFree hexDigits := by decide
  exact hdigits.mono fun _ => mem_hexDigits_of_mem_hexPlaces

@[simp] theorem separatorFree_hexBytes (bs : List UInt8) : SeparatorFree (hexBytes bs) := by
  intro c hc
  obtain ⟨b, -, hb⟩ := List.mem_flatMap.mp hc
  exact separatorFree_hexPlaces 2 b.toNat c hb

@[simp] theorem separatorFree_uuid (id : Uuid) : SeparatorFree id.write := by
  have hdigits := separatorFree_hexPlaces 32 id.number.toNat
  have hfirst := hdigits.mono (List.take_subset 8 _)
  have hlast := hdigits.mono (List.drop_subset 20 _)
  have hinner : ∀ k n, SeparatorFree (((hexPlaces 32 id.number.toNat).drop k).take n) :=
    fun k n => (hdigits.mono (List.drop_subset k _)).mono (List.take_subset n _)
  simp [Uuid.write, hfirst, hinner, hlast]

/-! ### Numbers -/

theorem separatorFree_writePositional (L : FloatLayout) {digits : List Char}
    (h : ∀ c ∈ digits, c.isDigit = true) (exponent : Int) :
    SeparatorFree (L.writePositional digits exponent) := by
  have hdigits := SeparatorFree.of_digits h
  have hzeros : ∀ n, SeparatorFree (List.replicate n '0') := by
    intro n c hc
    rw [(List.mem_replicate.mp hc).2]
    decide
  have htake : ∀ n, SeparatorFree (digits.take n) := fun n => hdigits.mono (List.take_subset n _)
  have hdrop : ∀ n, SeparatorFree (digits.drop n) := fun n => hdigits.mono (List.drop_subset n _)
  unfold FloatLayout.writePositional
  split
  · split <;> simp [hdigits, hzeros]
  · dsimp only
    split <;> simp [hdigits, hzeros, htake, hdrop]

theorem separatorFree_plainNumber (x : Binary64) : SeparatorFree (plainNumber.write x) := by
  have hsign : ∀ negative : Bool, SeparatorFree (if negative then ['-'] else []) := by decide
  unfold FloatLayout.write FloatLayout.writeDecoded
  split
  · decide
  · simp [hsign]
  · next m q _ =>
    rw [separatorFree_append]
    refine ⟨hsign _, ?_⟩
    split
    · decide
    · have hpositional : ∀ first, plainNumber.positional first = true := fun _ => rfl
      unfold FloatLayout.writeDecimal
      dsimp only
      rw [if_pos (hpositional _)]
      refine separatorFree_writePositional _ (fun c hc => ?_) _
      have hmem := (List.dropWhile_sublist _).mem (List.mem_reverse.mp hc)
      exact isDigit_of_mem_natChars (List.mem_reverse.mp hmem)

theorem separatorFree_keyOfDouble (x : Binary64) : SeparatorFree (Value.keyOfDouble x) := by
  unfold Value.keyOfDouble
  split
  · split <;> simp [separatorFree_plainNumber]
  · simp [separatorFree_plainNumber]

/-! ### Dates and times -/

theorem separatorFree_quoted {cs : List Char} (h : SeparatorFree cs) :
    SeparatorFree (Json.quoted (String.ofList cs)) := by
  have hescape : ∀ c, c ≠ '|' ∧ c ≠ ',' → SeparatorFree (Json.escape c) := by
    intro c hc
    unfold Json.escape
    split
    iterate 7 decide
    · split <;> simp [hc]
  have hchars : SeparatorFree (cs.flatMap Json.escape) := by
    intro d hd
    obtain ⟨c, hc, hd⟩ := List.mem_flatMap.mp hd
    exact hescape c (h c hc) d hd
  simp [Json.quoted, hchars]

theorem separatorFree_jsonOfChars {text : Option (List Char)}
    (h : ∀ cs, text = some cs → SeparatorFree cs) :
    SeparatorFree (Value.jsonOfChars text).write := by
  cases text with
  | none =>
    show SeparatorFree (Json.write .null)
    rw [Json.write]
    decide
  | some cs =>
    show SeparatorFree (Json.write (.string (String.ofList cs)))
    rw [Json.write]
    exact separatorFree_quoted (h cs rfl)

@[simp] theorem separatorFree_date (date : CalendarDate) : SeparatorFree date.write := by
  have hyear : SeparatorFree (writeYear date.year) := by
    unfold writeYear
    split
    · simp
    · split <;> simp
  simp [CalendarDate.write, hyear]

@[simp] theorem separatorFree_clock (t : TimeOfDay) : SeparatorFree t.writeClock := by
  simp [TimeOfDay.writeClock]

theorem separatorFree_time (t : TimeOfDay) : SeparatorFree t.write := by
  have hfraction : ∀ nano, SeparatorFree (TimeOfDay.writeFraction nano) := by
    intro nano
    unfold TimeOfDay.writeFraction
    split
    · simp
    · split
      · simp
      · split <;> simp
  simp [TimeOfDay.write, hfraction]

theorem separatorFree_moment (m : Moment) : SeparatorFree m.write := by
  simp [Moment.write, Moment.writeDate]

/-! ## Keys without separators -/

namespace Value

/-- Whether the key of a value holds text of the value as it is. -/
def copiesText : Value → Bool
  | .decimal _ | .text _ | .json _ | .array _ => true
  | _ => false

theorem separatorFree_of_copiesNothing {v : Value} (h : v.copiesText = false) :
    SeparatorFree (v.keyChars?.getD []) := by
  have hshown : ∀ {α : Type} (found : Option α) (write : α → List Char),
      (∀ a, SeparatorFree (write a)) → SeparatorFree (jsonOfChars (found.map write)).write := by
    intro α found write hwrite
    refine separatorFree_jsonOfChars fun cs hcs => ?_
    obtain ⟨a, -, rfl⟩ := Option.map_eq_some_iff.mp hcs
    exact hwrite a
  cases v with
  | null => simp [keyChars?]
  | default => simp [keyChars?]
  | bool b => revert b; decide
  | int8 n => simp [keyChars?]
  | int16 n => simp [keyChars?]
  | int32 n => simp [keyChars?]
  | int64 n => simp [keyChars?]
  | single x => simp [keyChars?, separatorFree_keyOfDouble]
  | double x => simp [keyChars?, separatorFree_keyOfDouble]
  | uuid id => simp [keyChars?]
  | bytes bs => simp [keyChars?]
  | date day => simp [keyChars?, toJson, hshown _ _ separatorFree_date]
  | time micros => simp [keyChars?, toJson, hshown _ _ separatorFree_time]
  | timestamp micros => simp [keyChars?, toJson, hshown _ _ separatorFree_moment]
  | timestampTz micros => simp [keyChars?, toJson, hshown _ _ separatorFree_moment]
  | _ => cases h

/-! ## Joined keys -/

/-- What a value adds to a joined key; one without a key adds nothing. -/
def keyPart (v : Value) : List Char := v.keyChars?.getD []

/-- How often a character stands in the key of a value. -/
def countInKey (separator : Char) (v : Value) : Nat := v.keyPart.count separator

theorem keyPart_eq (v : Value) : v.keyPart = v.key?.elim [] fun k => k.text.toList := by
  unfold keyPart key?
  cases v.keyChars? with
  | none => rfl
  | some cs => exact String.toList_ofList.symm

/-- A key starts with the letter of its kind. -/
theorem keyChars?_ne_nil (v : Value) : v.keyChars? ≠ some [] := by
  have hdouble : ∀ x, keyOfDouble x ≠ [] := by
    intro x
    unfold keyOfDouble
    split
    · split <;> simp
    · simp
  cases v <;> simp [keyChars?, hdouble]

theorem key?_eq (v : Value) :
    v.key? = if v.keyPart = [] then none else some ⟨String.ofList v.keyPart⟩ := by
  unfold keyPart key?
  cases hcs : v.keyChars? with
  | none => rfl
  | some cs =>
    have hcons : cs ≠ [] := fun hnil => keyChars?_ne_nil v (by rw [hcs, hnil])
    rw [Option.getD_some, if_neg hcons, Option.map_some]

theorem map_key?_eq_iff {us vs : List Value} :
    us.map key? = vs.map key? ↔ us.map keyPart = vs.map keyPart := by
  constructor
  · intro h
    have hparts := congrArg (List.map fun k => k.elim [] fun k : Key => k.text.toList) h
    simpa only [List.map_map, Function.comp_def, ← keyPart_eq] using hparts
  · intro h
    have hkeys := congrArg
      (List.map fun cs => if cs = [] then none else some (Key.mk (String.ofList cs))) h
    simpa only [List.map_map, Function.comp_def, ← key?_eq] using hkeys

theorem agree_iff_of_joined {separator : Char} {us vs : List Value}
    (h : joinWith [separator] (us.map keyPart) = joinWith [separator] (vs.map keyPart)) :
    us.map key? = vs.map key? ↔
      us.map (countInKey separator) = vs.map (countInKey separator) := by
  have hcount : ∀ values : List Value, values.map (countInKey separator) =
      (values.map keyPart).map (List.count separator) := by
    intro values
    rw [List.map_map]
    rfl
  rw [map_key?_eq_iff, hcount, hcount]
  exact ⟨fun hparts => by rw [hparts], fun hcounts => joinWith_injective hcounts h⟩

theorem itemKeys_eq (items : List Value) : itemKeys items = items.map keyPart := by
  induction items with
  | nil => rw [itemKeys, List.map_nil]
  | cons v rest ih => rw [itemKeys, ih, List.map_cons, keyPart]

theorem keyParts_eq {values : List Value} {parts : List (List Char)}
    (h : values.mapM keyChars? = some parts) : parts = values.map keyPart := by
  induction values generalizing parts with
  | nil =>
    obtain rfl := Option.some.inj h
    rfl
  | cons v rest ih =>
    rw [List.mapM_cons] at h
    obtain ⟨cs, hcs, h⟩ := Option.bind_eq_some_iff.mp h
    obtain ⟨others, hothers, h⟩ := Option.bind_eq_some_iff.mp h
    obtain rfl := Option.some.inj h
    rw [List.map_cons, ← ih hothers, keyPart, hcs, Option.getD_some]

theorem text_of_composite? {values : List Value} {k : Key} (h : Key.composite? values = some k) :
    k.text.toList = joinWith ['|'] (values.map keyPart) := by
  obtain ⟨parts, hparts, rfl⟩ := Option.map_eq_some_iff.mp h
  rw [← keyParts_eq hparts, String.toList_ofList]

theorem joined_of_array {us vs : List Value} (h : (array us).key? = (array vs).key?) :
    joinWith [','] (us.map keyPart) = joinWith [','] (vs.map keyPart) := by
  rw [key?_eq_iff, keyChars?, keyChars?, itemKeys_eq, itemKeys_eq] at h
  simpa using h

end Value

/-- A record that is filed under a type and its key is found by those of this type with this key
only, if neither type goes on behind the other with a bar. -/
theorem Relation.owner_agrees {r : Relation} {name type : String} {related : Schema} {row : Row}
    {owner p : Record} {k : Key} (hkind : r.kind = .morphTo)
    (htype : (p.value r.morphTypeColumn).typeAlias? = some type)
    (hapart : ¬ExtendsType name type ∧ ¬ExtendsType type name)
    (hfiled : filedByType? name related row = some (k, owner)) (hkey : r.parentKey? p = some k) :
    name = type ∧ (owner.value related.primaryKey).key? = (p.value r.parentColumn).key? := by
  obtain ⟨filed, hcomposite, hpair⟩ := Option.bind_eq_some_iff.mp hfiled
  obtain ⟨rfl, rfl⟩ := Prod.mk.inj (Option.some.inj hpair)
  have hasked : Key.composite? [.text type, p.value r.parentColumn] = some filed := by
    unfold parentKey? at hkey
    simpa only [hkind, htype, Option.bind_eq_bind, Option.bind_some] using hkey
  obtain rfl := type_of_composite? hapart.1 hapart.2 hcomposite hasked
  exact ⟨rfl, (composite?_eq_iff hasked).mp hcomposite⟩

/-- Equal joined keys come from equal keys at each position exactly if the separators are spread
evenly over the positions. Without a text that is copied there are none, and of a type and a key
only the types have to be told apart. -/
theorem Key.compound_agree_iff (us vs : List Value) :
    (∀ k : Key, composite? us = some k → composite? vs = some k →
      (us.map Value.key? = vs.map Value.key? ↔
        us.map (Value.countInKey '|') = vs.map (Value.countInKey '|'))) ∧
    ((Value.array us).key? = (Value.array vs).key? →
      (us.map Value.key? = vs.map Value.key? ↔
        us.map (Value.countInKey ',') = vs.map (Value.countInKey ','))) ∧
    (∀ v ∈ us, v.copiesText = false → v.countInKey '|' = 0 ∧ v.countInKey ',' = 0) ∧
    ∀ (r : Relation) (name type : String) (related : Schema) (row : Row) (owner p : Record)
      (k : Key), r.kind = .morphTo → (p.value r.morphTypeColumn).typeAlias? = some type →
      ¬ExtendsType name type ∧ ¬ExtendsType type name →
      Relation.filedByType? name related row = some (k, owner) → r.parentKey? p = some k →
        name = type ∧ (owner.value related.primaryKey).key? = (p.value r.parentColumn).key? := by
  refine ⟨fun k hu hv => ?_, fun h => ?_, fun v _ hv => ?_, ?_⟩
  · refine Value.agree_iff_of_joined ?_
    rw [← Value.text_of_composite? hu, Value.text_of_composite? hv]
  · exact Value.agree_iff_of_joined (Value.joined_of_array h)
  · have hfree := Value.separatorFree_of_copiesNothing hv
    exact ⟨List.count_eq_zero.mpr fun h => (hfree _ h).1 rfl,
      List.count_eq_zero.mpr fun h => (hfree _ h).2 rfl⟩
  · intro r name type related row owner p k
    exact Relation.owner_agrees

/-- Integers of two widths beside a text with a bar, values without a key, bytes that are bars and
commas, and a video with a bar in its key. -/
theorem Key.compound_agree_iff_bars :
    (composite? [.int8 1, .text "a|b"] = some ⟨"i:1|s:a|b"⟩ ∧
      composite? [.int64 1, .text "a|b"] = some ⟨"i:1|s:a|b"⟩ ∧
      [Value.int8 1, .text "a|b"].map Value.key? = [Value.int64 1, .text "a|b"].map Value.key?) ∧
    ((Value.array [.null, .int8 3]).key? = (Value.array [.default, .int64 3]).key? ∧
      [Value.null, .int8 3].map Value.key? = [Value.default, .int64 3].map Value.key?) ∧
    ((Value.bytes [124, 44]).copiesText = false ∧ (Value.bytes [124, 44]).countInKey '|' = 0) ∧
    ((Relation.filedByType? "video" (.plain "videos") (keyRow (.text "w|x"))).map Prod.fst =
        some ⟨"s:video|s:w|x"⟩ ∧
      commentable.parentKey? (commentOn "comments" "video" (.text "w|x")) =
        some ⟨"s:video|s:w|x"⟩ ∧
      ((Record.hydrate (.plain "videos") (keyRow (.text "w|x"))).value "id").key? =
        (Value.text "w|x").key?) := by
  have hown : ¬ExtendsType "video" "video" := by
    unfold ExtendsType
    decide
  have hkeys : composite? [.int8 1, .text "a|b"] = some ⟨"i:1|s:a|b"⟩ ∧
      composite? [.int64 1, .text "a|b"] = some ⟨"i:1|s:a|b"⟩ := ⟨rfl, rfl⟩
  have harrays : (Value.array [.null, .int8 3]).key? =
      (Value.array [.default, .int64 3]).key? := rfl
  have hbytes := (compound_agree_iff [.bytes [124, 44]] []).2.2.1 _ (List.mem_singleton_self _) rfl
  refine ⟨⟨hkeys.1, hkeys.2, ((compound_agree_iff _ _).1 _ hkeys.1 hkeys.2).mpr rfl⟩,
    ⟨harrays, ((compound_agree_iff _ _).2.1 harrays).mpr rfl⟩, ⟨rfl, hbytes.1⟩, rfl, rfl, ?_⟩
  exact ((compound_agree_iff [] []).2.2.2 commentable "video" "video" (.plain "videos")
    (keyRow (.text "w|x")) _ (commentOn "comments" "video" (.text "w|x")) ⟨"s:video|s:w|x"⟩ rfl rfl
    ⟨hown, hown⟩ rfl rfl).2

/-- A bar or a comma in a text is taken for one between the parts: a comment on `c` of the type
`a|s:b` gets the record `b|s:c` of the type `a`. -/
theorem Key.separators_confused :
    (composite? [.text "a", .text "b|s:c"] = some ⟨"s:a|s:b|s:c"⟩ ∧
      composite? [.text "a|s:b", .text "c"] = some ⟨"s:a|s:b|s:c"⟩ ∧
      (Value.text "a").key? ≠ (Value.text "a|s:b").key?) ∧
    (Value.array [.text "a,s:b"]).key? = (Value.array [.text "a", .text "b"]).key? ∧
    (Value.array []).key? = (Value.array [.null]).key? ∧
    (Relation.filedByType? "a" (.plain "posts") (keyRow (.text "b|s:c"))).map Prod.fst =
      commentable.parentKey? (commentOn "comments" "a|s:b" (.text "c")) :=
  ⟨⟨rfl, rfl, by decide⟩, rfl, rfl, rfl⟩

end RecordMapper
