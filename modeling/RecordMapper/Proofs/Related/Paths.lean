import Mathlib.Data.Finset.Dedup
import Mathlib.Data.Finset.Erase
import Mathlib.Data.List.Infix
import RecordMapper.Proofs.Outcome
import RecordMapper.Related.Loading

/-!
The paths that are loaded.

* `PathForest.paths` are all paths of a forest, from its roots to each of its nodes.
* `PathForest.requested` are the beginnings of dotted paths. A forest that was read has each of them
  once (`toFinset_paths`).
-/
namespace RecordMapper

set_option autoImplicit false

namespace PathForest

/-! ## Paths of a forest -/

/-- The names at the roots. -/
def names : PathForest → List String
  | .none => []
  | .relation name _ rest => name :: rest.names

def paths : PathForest → List (List String)
  | .none => []
  | .relation name below rest => [name] :: below.paths.map (name :: ·) ++ rest.paths

/-- The names ascend at every level. -/
def Ordered : PathForest → Prop
  | .none => True
  | .relation name below rest => (∀ other ∈ rest.names, name < other) ∧ below.Ordered ∧ rest.Ordered

theorem mem_paths_relation {name : String} {below rest : PathForest} {p : List String} :
    p ∈ (relation name below rest).paths ↔
      p = [name] ∨ (∃ q ∈ below.paths, p = name :: q) ∨ p ∈ rest.paths := by
  simp only [paths, List.cons_append, List.mem_cons, List.mem_append, List.mem_map]
  constructor
  · rintro (h | ⟨q, hq, rfl⟩ | h)
    · exact .inl h
    · exact .inr (.inl ⟨q, hq, rfl⟩)
    · exact .inr (.inr h)
  · rintro (h | ⟨q, hq, rfl⟩ | h)
    · exact .inl h
    · exact .inr (.inl ⟨q, hq, rfl⟩)
    · exact .inr (.inr h)

theorem ne_nil_of_mem_paths {forest : PathForest} {p : List String} (h : p ∈ forest.paths) :
    p ≠ [] := by
  induction forest with
  | none => cases h
  | relation name below rest ihBelow ihRest =>
    rcases mem_paths_relation.mp h with rfl | ⟨q, -, rfl⟩ | h
    · exact List.cons_ne_nil name []
    · exact List.cons_ne_nil name q
    · exact ihRest h

theorem head_mem_names {forest : PathForest} {name : String} {p : List String}
    (h : name :: p ∈ forest.paths) : name ∈ forest.names := by
  induction forest with
  | none => cases h
  | relation first below rest ihBelow ihRest =>
    rcases mem_paths_relation.mp h with h | ⟨q, -, h⟩ | h
    · cases h
      exact List.mem_cons_self ..
    · cases h
      exact List.mem_cons_self ..
    · exact List.mem_cons_of_mem first (ihRest h)

/-- A forest with ascending names has no path twice. -/
theorem nodup_paths {forest : PathForest} (h : forest.Ordered) : forest.paths.Nodup := by
  induction forest with
  | none => exact List.nodup_nil
  | relation name below rest ihBelow ihRest =>
    obtain ⟨hless, hbelow, hrest⟩ := h
    have hinner : (below.paths.map (name :: ·)).Nodup :=
      (ihBelow hbelow).map fun a b hab => (List.cons.inj hab).2
    have hfirst : [name] ∉ below.paths.map (name :: ·) := by
      intro hmem
      obtain ⟨q, hq, heq⟩ := List.mem_map.mp hmem
      exact ne_nil_of_mem_paths hq (List.cons.inj heq).2
    refine List.nodup_append'.mpr ⟨List.nodup_cons.mpr ⟨hfirst, hinner⟩, ihRest hrest, ?_⟩
    -- A path on the right begins with a greater name.
    intro p hleft hright
    have hhead : ∃ q, p = name :: q := by
      rcases List.mem_cons.mp hleft with rfl | hleft
      · exact ⟨[], rfl⟩
      · obtain ⟨q, -, rfl⟩ := List.mem_map.mp hleft
        exact ⟨q, rfl⟩
    obtain ⟨q, rfl⟩ := hhead
    exact String.lt_irrefl name (hless name (head_mem_names hright))

theorem mem_paths_of_mem_names {forest : PathForest} {name : String} (h : name ∈ forest.names) :
    [name] ∈ forest.paths := by
  induction forest with
  | none => cases h
  | relation first below rest ihBelow ihRest =>
    rcases List.mem_cons.mp h with rfl | h
    · exact List.mem_cons_self ..
    · exact mem_paths_relation.mpr (.inr (.inr (ihRest h)))

/-! ## Adding a path -/

theorem beginning_cons {name : String} {path p : List String} :
    p ≠ [] ∧ p <+: name :: path ↔ p = [name] ∨ ∃ q, (q ≠ [] ∧ q <+: path) ∧ p = name :: q := by
  constructor
  · rintro ⟨hne, hprefix⟩
    cases p with
    | nil => exact absurd rfl hne
    | cons first q =>
      obtain ⟨rfl, hq⟩ := List.cons_prefix_cons.mp hprefix
      cases q with
      | nil => exact .inl rfl
      | cons a b => exact .inr ⟨a :: b, ⟨List.cons_ne_nil a b, hq⟩, rfl⟩
  · rintro (rfl | ⟨q, ⟨-, hq⟩, rfl⟩)
    · exact ⟨List.cons_ne_nil name [], ⟨path, rfl⟩⟩
    · exact ⟨List.cons_ne_nil name q, List.cons_prefix_cons.mpr ⟨rfl, hq⟩⟩

theorem not_beginning_nil {p : List String} : ¬ (p ≠ [] ∧ p <+: []) := by
  rintro ⟨hne, hprefix⟩
  exact hne (List.prefix_nil.mp hprefix)

theorem mem_paths_ofPath {path p : List String} :
    p ∈ (ofPath path).paths ↔ p ≠ [] ∧ p <+: path := by
  induction path generalizing p with
  | nil => exact ⟨fun h => (by cases h), fun h => absurd h not_beginning_nil⟩
  | cons name path ih =>
    rw [ofPath, mem_paths_relation, beginning_cons]
    constructor
    · rintro (h | ⟨q, hq, h⟩ | h)
      · exact .inl h
      · exact .inr ⟨q, ih.mp hq, h⟩
      · cases h
    · rintro (h | ⟨q, hq, h⟩)
      · exact .inl h
      · exact .inr (.inl ⟨q, ih.mpr hq, h⟩)

theorem mem_paths_insert (path : List String) (forest : PathForest) (p : List String) :
    p ∈ (forest.insert path).paths ↔ p ∈ forest.paths ∨ p ≠ [] ∧ p <+: path := by
  fun_induction PathForest.insert path forest generalizing p with
  | case1 forest => exact ⟨.inl, fun h => h.resolve_right not_beginning_nil⟩
  | case2 name path =>
    rw [mem_paths_ofPath]
    exact ⟨.inr, fun h => h.resolve_left (fun h => by cases h)⟩
  | case3 name path first below rest hless =>
    rw [mem_paths_relation, beginning_cons]
    constructor
    · rintro (h | ⟨q, hq, h⟩ | h)
      · exact .inr (.inl h)
      · exact .inr (.inr ⟨q, mem_paths_ofPath.mp hq, h⟩)
      · exact .inl h
    · rintro (h | h | ⟨q, hq, h⟩)
      · exact .inr (.inr h)
      · exact .inl h
      · exact .inr (.inl ⟨q, mem_paths_ofPath.mpr hq, h⟩)
  | case4 path first below rest hless ih =>
    rw [mem_paths_relation, mem_paths_relation, beginning_cons]
    constructor
    · rintro (h | ⟨q, hq, h⟩ | h)
      · exact .inl (.inl h)
      · rcases (ih q).mp hq with hq | hq
        · exact .inl (.inr (.inl ⟨q, hq, h⟩))
        · exact .inr (.inr ⟨q, hq, h⟩)
      · exact .inl (.inr (.inr h))
    · rintro ((h | ⟨q, hq, h⟩ | h) | h | ⟨q, hq, h⟩)
      · exact .inl h
      · exact .inr (.inl ⟨q, (ih q).mpr (.inl hq), h⟩)
      · exact .inr (.inr h)
      · exact .inl h
      · exact .inr (.inl ⟨q, (ih q).mpr (.inr hq), h⟩)
  | case5 name path first below rest hless hne ih =>
    rw [mem_paths_relation, mem_paths_relation, ih]
    constructor
    · rintro (h | h | h | h)
      · exact .inl (.inl h)
      · exact .inl (.inr (.inl h))
      · exact .inl (.inr (.inr h))
      · exact .inr h
    · rintro ((h | h | h) | h)
      · exact .inl h
      · exact .inr (.inl h)
      · exact .inr (.inr (.inl h))
      · exact .inr (.inr (.inr h))

theorem ordered_ofPath (path : List String) : (ofPath path).Ordered := by
  induction path with
  | nil => trivial
  | cons name path ih => exact ⟨nofun, ih, trivial⟩

theorem mem_names_insert {name other : String} {path : List String} {forest : PathForest}
    (h : other ∈ (forest.insert (name :: path)).names) : other = name ∨ other ∈ forest.names := by
  induction forest with
  | none => exact .inl (List.mem_singleton.mp h)
  | relation first below rest ihBelow ihRest =>
    unfold insert at h
    split at h
    · exact List.mem_cons.mp h
    · split at h
      · exact .inr h
      · rcases List.mem_cons.mp h with h | h
        · exact .inr (List.mem_cons.mpr (.inl h))
        · rcases ihRest h with h | h
          · exact .inl h
          · exact .inr (List.mem_cons_of_mem first h)

theorem ordered_insert (path : List String) (forest : PathForest) (h : forest.Ordered) :
    (forest.insert path).Ordered := by
  fun_induction PathForest.insert path forest with
  | case1 forest => exact h
  | case2 name path => exact ordered_ofPath (name :: path)
  | case3 name path first below rest hless =>
    refine ⟨fun other hother => ?_, ordered_ofPath path, h⟩
    rcases List.mem_cons.mp hother with rfl | hother
    · exact hless
    · exact String.lt_trans hless (h.1 other hother)
  | case4 path first below rest hless ih => exact ⟨h.1, ih h.2.1, h.2.2⟩
  | case5 name path first below rest hless hne ih =>
    have hgreater : first < name :=
      Classical.byContradiction fun hnot => hne (String.le_antisymm hnot hless)
    refine ⟨fun other hother => ?_, h.2.1, ih h.2.2⟩
    rcases mem_names_insert hother with rfl | hother
    · exact hgreater
    · exact h.1 other hother

/-! ## Reading paths -/

/-- The beginnings of dotted paths. -/
def requested (paths : List String) : Finset (List String) :=
  (paths.flatMap fun path => (segments path).inits).toFinset.erase []

theorem mem_requested {paths : List String} {p : List String} :
    p ∈ requested paths ↔ ∃ path ∈ paths, p ≠ [] ∧ p <+: segments path := by
  unfold requested
  rw [Finset.mem_erase, List.mem_toFinset, List.mem_flatMap]
  constructor
  · rintro ⟨hne, path, hpath, hp⟩
    exact ⟨path, hpath, hne, (List.mem_inits _ _).mp hp⟩
  · rintro ⟨path, hpath, hne, hp⟩
    exact ⟨hne, path, hpath, (List.mem_inits _ _).mpr hp⟩

/-- The names that paths begin with. -/
def roots (paths : List String) : List String := paths.filterMap fun path => (segments path).head?

theorem mem_roots {paths : List String} {name : String} (h : [name] ∈ requested paths) :
    name ∈ roots paths := by
  obtain ⟨path, hpath, -, rest, hrest⟩ := mem_requested.mp h
  refine List.mem_filterMap.mpr ⟨path, hpath, ?_⟩
  rw [← hrest]
  rfl

/-- The paths that are read after those of a forest. -/
theorem paths_of_foldlM {paths : List String} {start forest : PathForest}
    (h : paths.foldlM (fun forest path =>
      if (segments path).contains "" then .error (.cannotCompile (.invalidLoadPath path))
      else .ok (forest.insert (segments path))) start = (.ok forest : Result PathForest))
    (hstart : start.Ordered) :
    forest.Ordered ∧ ∀ p, p ∈ forest.paths ↔ p ∈ start.paths ∨ p ∈ requested paths := by
  induction paths generalizing start with
  | nil =>
    cases h
    refine ⟨hstart, fun p => ⟨.inl, fun hp => hp.resolve_right fun hp => ?_⟩⟩
    obtain ⟨path, hpath, -⟩ := mem_requested.mp hp
    cases hpath
  | cons path rest ih =>
    rw [List.foldlM_cons] at h
    obtain ⟨next, hnext, h⟩ := ok_of_bind h
    split at hnext
    · cases hnext
    · cases hnext
      obtain ⟨hordered, hpaths⟩ := ih h (ordered_insert _ start hstart)
      refine ⟨hordered, fun p => ?_⟩
      rw [hpaths, mem_paths_insert, mem_requested, mem_requested, or_assoc]
      refine or_congr_right ⟨?_, ?_⟩
      · rintro (hp | ⟨other, hother, hp⟩)
        · exact ⟨path, List.mem_cons_self .., hp⟩
        · exact ⟨other, List.mem_cons_of_mem path hother, hp⟩
      · rintro ⟨other, hother, hp⟩
        rcases List.mem_cons.mp hother with rfl | hother
        · exact .inl hp
        · exact .inr ⟨other, hother, hp⟩

/-- A forest that was read has every beginning of the paths, and each of them once. -/
theorem toFinset_paths {paths : List String} {forest : PathForest} (h : read paths = .ok forest) :
    forest.Ordered ∧ forest.paths.Nodup ∧ forest.paths.toFinset = requested paths := by
  obtain ⟨hordered, hpaths⟩ := paths_of_foldlM h trivial
  refine ⟨hordered, nodup_paths hordered, Finset.ext fun p => ?_⟩
  rw [List.mem_toFinset, hpaths]
  exact ⟨fun hp => hp.resolve_left (fun hp => by cases hp), .inr⟩

end PathForest

end RecordMapper
