import Mathlib.Data.List.Induction
import RecordMapper.Proofs.NameMap
import RecordMapper.Schema.Morph

/-!
Stored names of types, and the tables they stand for.

* `MorphMap.ofRegistrations` is the map that a sequence of registrations leaves.
* `LastUnder` says which schema was registered last under a name; it is the one that is found
  (`resolve_ofRegistrations`).
* `typeName_resolves_iff`: the name under which a schema is stored leads back to its table, unless
  the table has no name and is itself the name of another one.
-/
namespace RecordMapper.MorphMap

set_option autoImplicit false

/-! ## Registrations -/

def ofRegistrations (registrations : List (String × Schema)) : MorphMap :=
  registrations.foldl (fun m r => m.register r.1 r.2) empty

/-- The schema was registered under the name, and no other one after it. -/
def LastUnder (registrations : List (String × Schema)) (name : String) (schema : Schema) : Prop :=
  ∃ before after, registrations = before ++ (name, schema) :: after ∧ ∀ r ∈ after, r.1 ≠ name

theorem resolve_eq_ok {m : MorphMap} {name : String} {schema : Schema} :
    m.resolve name = .ok schema ↔ m.types.get? name = some schema := by
  unfold resolve
  cases m.types.get? name with
  | none => exact iff_of_false nofun nofun
  | some found => rw [Except.ok.injEq, Option.some.injEq]

theorem resolve_empty (name : String) (schema : Schema) : empty.resolve name ≠ .ok schema := nofun

theorem resolve_register {m : MorphMap} {name other : String} {schema found : Schema} :
    (m.register name schema).resolve other = .ok found ↔
      if other = name then found = schema else m.resolve other = .ok found := by
  rw [resolve_eq_ok, register, NameMap.get?_insert]
  split
  · rw [Option.some.injEq, eq_comm]
  · exact resolve_eq_ok.symm

theorem not_lastUnder_nil (name : String) (schema : Schema) : ¬LastUnder [] name schema := by
  rintro ⟨before, after, h, -⟩
  simp at h

theorem lastUnder_concat {registrations : List (String × Schema)} {r : String × Schema}
    {name : String} {schema : Schema} :
    LastUnder (registrations ++ [r]) name schema ↔
      if name = r.1 then schema = r.2 else LastUnder registrations name schema := by
  constructor
  · rintro ⟨before, after, h, hafter⟩
    -- The last registration is either this one or one of those after it.
    rcases List.eq_nil_or_concat after with rfl | ⟨rest, last, rfl⟩
    · obtain rfl := List.singleton_inj.mp (List.append_inj' h rfl).2
      rw [if_pos rfl]
    · rw [List.concat_eq_append, ← List.cons_append, ← List.append_assoc] at h
      obtain ⟨rfl, hlast⟩ := List.append_inj' h rfl
      obtain rfl := List.singleton_inj.mp hlast
      rw [if_neg (hafter r (by simp)).symm]
      exact ⟨before, rest, rfl, fun q hq => hafter q (by simp [hq])⟩
  · intro h
    split at h
    · next hname =>
      subst hname h
      exact ⟨registrations, [], rfl, nofun⟩
    · next hname =>
      obtain ⟨before, after, rfl, hafter⟩ := h
      refine ⟨before, after ++ [r], by simp, fun q hq => ?_⟩
      rcases List.mem_append.mp hq with hq | hq
      · exact hafter q hq
      · rw [List.mem_singleton.mp hq]
        exact Ne.symm hname

/-- A name is resolved to what was registered last under it. -/
theorem resolve_ofRegistrations {registrations : List (String × Schema)} {name : String}
    {schema : Schema} :
    (ofRegistrations registrations).resolve name = .ok schema ↔
      LastUnder registrations name schema := by
  induction registrations using List.reverseRecOn with
  | nil => exact iff_of_false (resolve_empty name schema) (not_lastUnder_nil name schema)
  | append_singleton rest r ih =>
    have hstep : ofRegistrations (rest ++ [r]) = (ofRegistrations rest).register r.1 r.2 :=
      List.foldl_append
    rw [hstep, resolve_register, lastUnder_concat, ih]

/-! ## Names of tables -/

variable {m : MorphMap} {table : String}

theorem exists_of_aliasFor? {name : String} (h : m.aliasFor? table = some name) :
    ∃ schema, m.resolve name = .ok schema ∧ schema.table = table := by
  obtain ⟨entry, hfound, rfl⟩ := Option.map_eq_some_iff.mp h
  have htable : (entry.2.table == table) = true :=
    List.find?_some (p := fun e : String × Schema => e.2.table == table) hfound
  have hentry : m.types.get? entry.1 = some entry.2 :=
    Assoc.get?_of_mem m.types.ascending (List.mem_of_find?_eq_some hfound)
  exact ⟨entry.2, resolve_eq_ok.mpr hentry, eq_of_beq htable⟩

theorem table_ne_of_aliasFor? (h : m.aliasFor? table = none) {name : String} {schema : Schema}
    (hname : m.resolve name = .ok schema) : schema.table ≠ table := by
  have hentry : (name, schema) ∈ m.types.entries := Assoc.mem_of_get? (resolve_eq_ok.mp hname)
  have hnone := List.find?_eq_none.mp (Option.map_eq_none_iff.mp h) _ hentry
  exact fun heq => hnone (beq_iff_eq.mpr heq)

/-- A schema is stored under a name of its table. If the table has none, it is stored under the
table. -/
theorem typeName_cases (m : MorphMap) (s : Schema) :
    (∃ found, m.resolve (m.typeName s) = .ok found ∧ found.table = s.table) ∨
      m.typeName s = s.table ∧
        ∀ name found, m.resolve name = .ok found → found.table ≠ s.table := by
  unfold typeName
  cases halias : m.aliasFor? s.table with
  | some name => exact .inl (exists_of_aliasFor? halias)
  | none => exact .inr ⟨rfl, fun _ _ => table_ne_of_aliasFor? halias⟩

/-- Some name stands for the table. -/
def IsNamed (registrations : List (String × Schema)) (table : String) : Prop :=
  ∃ name schema, LastUnder registrations name schema ∧ schema.table = table

/-- The stored name of a schema whose table is named is resolved to a schema of this table. It is
never resolved to one of another table exactly if the table is named or is no name itself. -/
theorem typeName_resolves_iff (registrations : List (String × Schema)) (s : Schema) :
    (IsNamed registrations s.table →
      ∃ found, (ofRegistrations registrations).resolve
        ((ofRegistrations registrations).typeName s) = .ok found ∧ found.table = s.table) ∧
    ((∀ found, (ofRegistrations registrations).resolve
        ((ofRegistrations registrations).typeName s) = .ok found → found.table = s.table) ↔
      IsNamed registrations s.table ∨ ∀ other, ¬LastUnder registrations s.table other) := by
  rcases typeName_cases (ofRegistrations registrations) s with
    ⟨found, hfound, htable⟩ | ⟨hname, hunnamed⟩
  · have hnamed : IsNamed registrations s.table :=
      ⟨_, found, resolve_ofRegistrations.mp hfound, htable⟩
    refine ⟨fun _ => ⟨found, hfound, htable⟩, fun _ => .inl hnamed, fun _ other hother => ?_⟩
    rw [hfound] at hother
    rwa [← Except.ok.inj hother]
  · have hunnamed' : ¬IsNamed registrations s.table := by
      rintro ⟨name, schema, hlast, htable⟩
      exact hunnamed name schema (resolve_ofRegistrations.mpr hlast) htable
    rw [hname]
    refine ⟨fun hnamed => absurd hnamed hunnamed', fun h => .inr fun other hlast => ?_,
      fun h found hfound => ?_⟩
    · have hother := resolve_ofRegistrations.mpr hlast
      exact hunnamed s.table other hother (h other hother)
    · exact absurd (resolve_ofRegistrations.mp hfound) (h.resolve_left hunnamed' found)

/-- The videos go by the name of the table of the posts, which have no name. -/
def videosAsPosts : MorphMap := ofRegistrations [("posts", .plain "videos")]

theorem unnamed_table_misled :
    videosAsPosts.resolve (videosAsPosts.typeName (.plain "posts")) = .ok (.plain "videos") ∧
    ¬∀ (registrations : List (String × Schema)) (s found : Schema),
      (ofRegistrations registrations).resolve ((ofRegistrations registrations).typeName s) =
        .ok found → found.table = s.table := by
  have hfound : videosAsPosts.resolve (videosAsPosts.typeName (.plain "posts")) =
      .ok (.plain "videos") := rfl
  refine ⟨hfound, fun h => ?_⟩
  exact absurd (h [("posts", .plain "videos")] (.plain "posts") _ hfound) (by decide)

end RecordMapper.MorphMap
