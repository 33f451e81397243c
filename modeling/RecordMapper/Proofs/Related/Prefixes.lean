import RecordMapper.Proofs.Related.Economy

/-!
What is loaded for paths that name the same relations.

* `PathForest.Ordered.eq_of_paths`: a forest whose names ascend is given by the set of its paths,
  so that lists of paths with the same beginnings are read as one forest (`read_eq_of_requested`).
* `Session.load_of_requested`: a load depends on nothing but these beginnings, and a list with an
  empty segment somewhere is refused before anything is sent.
-/
namespace RecordMapper

set_option autoImplicit false

namespace PathForest

/-! ## Forests with the same paths -/

namespace Ordered

variable {name : String} {below rest : PathForest} (h : (relation name below rest).Ordered)

include h

theorem mem_paths_below {p : List String} :
    p ∈ below.paths ↔ p ≠ [] ∧ name :: p ∈ (relation name below rest).paths := by
  rw [mem_paths_relation]
  constructor
  · intro hp
    exact ⟨ne_nil_of_mem_paths hp, .inr (.inl ⟨p, hp, rfl⟩)⟩
  · rintro ⟨hne, hp | ⟨q, hq, hp⟩ | hp⟩
    · exact absurd (List.cons.inj hp).2 hne
    · rwa [(List.cons.inj hp).2]
    · exact absurd (h.1 name (head_mem_names hp)) (String.lt_irrefl name)

theorem mem_paths_rest {p : List String} :
    p ∈ rest.paths ↔ p.head? ≠ some name ∧ p ∈ (relation name below rest).paths := by
  rw [mem_paths_relation]
  constructor
  · intro hp
    refine ⟨fun hhead => ?_, .inr (.inr hp)⟩
    obtain ⟨q, rfl⟩ := List.head?_eq_some_iff.mp hhead
    exact String.lt_irrefl name (h.1 name (head_mem_names hp))
  · rintro ⟨hhead, rfl | ⟨q, -, rfl⟩ | hp⟩
    · exact absurd rfl hhead
    · exact absurd rfl hhead
    · exact hp

/-- No path of a forest begins before its first name. -/
theorem le_of_mem_paths {first : String} {p : List String}
    (hp : first :: p ∈ (relation name below rest).paths) : name ≤ first := by
  rcases List.mem_cons.mp (head_mem_names hp) with rfl | hmem
  · exact String.le_refl first
  · exact fun hless => String.lt_irrefl name (String.lt_trans (h.1 first hmem) hless)

end Ordered

/-- A forest with ascending names is given by its paths. -/
theorem Ordered.eq_of_paths {a b : PathForest} (ha : a.Ordered) (hb : b.Ordered)
    (h : ∀ p, p ∈ a.paths ↔ p ∈ b.paths) : a = b := by
  induction a generalizing b with
  | none =>
    cases b with
    | none => rfl
    | relation name below rest => cases (h [name]).mpr (List.mem_cons_self ..)
  | relation name below rest ihBelow ihRest =>
    cases b with
    | none => cases (h [name]).mp (List.mem_cons_self ..)
    | relation name' below' rest' =>
      obtain rfl : name = name' := String.le_antisymm
        (ha.le_of_mem_paths ((h [name']).mpr (List.mem_cons_self ..)))
        (hb.le_of_mem_paths ((h [name]).mp (List.mem_cons_self ..)))
      have hbelow : below = below' := by
        refine ihBelow ha.2.1 hb.2.1 fun p => ?_
        rw [ha.mem_paths_below, hb.mem_paths_below, h]
      have hrest : rest = rest' := by
        refine ihRest ha.2.2 hb.2.2 fun p => ?_
        rw [ha.mem_paths_rest, hb.mem_paths_rest, h]
      rw [hbelow, hrest]

/-! ## Lists of paths with the same beginnings -/

/-- Whether every segment of every path names a relation. -/
def Valid (paths : List String) : Prop := ∀ path ∈ paths, "" ∉ segments path

instance (paths : List String) : Decidable (Valid paths) :=
  inferInstanceAs (Decidable (∀ path ∈ paths, "" ∉ segments path))

/-- Beginnings of paths that are there already add nothing. -/
theorem requested_cons {path other : String} {paths : List String} (hother : other ∈ paths)
    (hbegin : segments path <+: segments other) : requested (path :: paths) = requested paths := by
  ext p
  rw [mem_requested, mem_requested]
  constructor
  · rintro ⟨found, hfound, hne, hp⟩
    rcases List.mem_cons.mp hfound with rfl | hfound
    · exact ⟨other, hother, hne, hp.trans hbegin⟩
    · exact ⟨found, hfound, hne, hp⟩
  · rintro ⟨found, hfound, hne, hp⟩
    exact ⟨found, List.mem_cons_of_mem path hfound, hne, hp⟩

theorem requested_perm {paths paths' : List String} (h : paths.Perm paths') :
    requested paths = requested paths' := by
  ext p
  simp only [mem_requested, h.mem_iff]

/-- Reads one path after those of a forest. -/
def readAfter (forest : PathForest) (path : String) : Result PathForest :=
  if (segments path).contains "" then .error (.cannotCompile (.invalidLoadPath path))
  else .ok (forest.insert (segments path))

theorem read_eq (paths : List String) : read paths = paths.foldlM readAfter .none := rfl

theorem readAfter_of_notMem {path : String} (h : "" ∉ segments path) (forest : PathForest) :
    readAfter forest path = .ok (forest.insert (segments path)) :=
  if_neg fun hempty => h (List.contains_iff_mem.mp hempty)

theorem foldlM_of_valid {paths : List String} (h : Valid paths) (start : PathForest) :
    ∃ forest, paths.foldlM readAfter start = .ok forest := by
  induction paths generalizing start with
  | nil => exact ⟨start, rfl⟩
  | cons path rest ih =>
    obtain ⟨hpath, hrest⟩ := List.forall_mem_cons.mp h
    rw [List.foldlM_cons, readAfter_of_notMem hpath]
    exact ih hrest _

/-- A path with an empty segment is reported. -/
theorem foldlM_of_not_valid {paths : List String} (h : ¬ Valid paths) (start : PathForest) :
    ∃ path ∈ paths, "" ∈ segments path ∧
      paths.foldlM readAfter start = .error (.cannotCompile (.invalidLoadPath path)) := by
  induction paths generalizing start with
  | nil => exact absurd nofun h
  | cons first rest ih =>
    by_cases hfirst : "" ∈ segments first
    · refine ⟨first, List.mem_cons_self .., hfirst, ?_⟩
      rw [List.foldlM_cons, readAfter, if_pos (List.contains_iff_mem.mpr hfirst)]
      rfl
    · have hrest : ¬ Valid rest := fun hvalid => h (List.forall_mem_cons.mpr ⟨hfirst, hvalid⟩)
      obtain ⟨path, hpath, hempty, hread⟩ := ih hrest (start.insert (segments first))
      refine ⟨path, List.mem_cons_of_mem first hpath, hempty, ?_⟩
      rw [List.foldlM_cons, readAfter_of_notMem hfirst]
      exact hread

/-- Paths are read as one forest if they have the same beginnings. -/
theorem read_eq_of_requested {paths paths' : List String} (h : Valid paths) (h' : Valid paths')
    (hsame : requested paths = requested paths') : read paths = read paths' := by
  obtain ⟨forest, hread⟩ := foldlM_of_valid h .none
  obtain ⟨forest', hread'⟩ := foldlM_of_valid h' .none
  rw [← read_eq] at hread hread'
  obtain ⟨hordered, -, hpaths⟩ := toFinset_paths hread
  obtain ⟨hordered', -, hpaths'⟩ := toFinset_paths hread'
  have heq : forest = forest' := hordered.eq_of_paths hordered' fun p => by
    rw [← List.mem_toFinset, hpaths, hsame, ← hpaths', List.mem_toFinset]
  rw [hread, hread', heq]

end PathForest

/-! ## Loading -/

namespace Session

open PathForest (requested Valid)

variable {σ : Type}

theorem load_eq_of_requested (s : Session σ) {paths paths' : List String} (h : Valid paths)
    (h' : Valid paths') (hsame : requested paths = requested paths') :
    s.load paths = s.load paths' := by
  rw [load, load, PathForest.read_eq_of_requested h h' hsame]

/-- A path with an empty segment stops a load. -/
theorem run_load_of_not_valid (s : Session σ) {paths : List String} (h : ¬ Valid paths)
    (records : List Record) (w : σ) :
    ∃ path ∈ paths, "" ∈ PathForest.segments path ∧
      ((s.load paths).runOn records).run w =
        ((.error (.fault (.cannotCompile (.invalidLoadPath path))), records), w) := by
  obtain ⟨path, hpath, hempty, hread⟩ := PathForest.foldlM_of_not_valid h .none
  refine ⟨path, hpath, hempty, ?_⟩
  rw [load, PathForest.read_eq, hread]
  exact Change.run_ofResult_bind_error _ _ records w

/-- Whatever the database does, loads of paths with the same beginnings send the same statements,
have the same outcome and leave the same relations in the records. A load with a path that has an
empty segment fails to compile, sends nothing and leaves the records as they are. -/
theorem load_of_requested (s : Session σ) (records : List Record) (w : σ) :
    (∀ paths paths', Valid paths → Valid paths' → requested paths = requested paths' →
      ((s.recorded.load paths).runOn records).run (w, []) =
        ((s.recorded.load paths').runOn records).run (w, [])) ∧
    (∀ paths, ¬ Valid paths → ∃ path ∈ paths, "" ∈ PathForest.segments path ∧
      ((s.recorded.load paths).runOn records).run (w, []) =
        ((.error (.fault (.cannotCompile (.invalidLoadPath path))), records), (w, []))) := by
  constructor
  · intro paths paths' h h' hsame
    rw [s.recorded.load_eq_of_requested h h' hsame]
  · intro paths h
    exact s.recorded.run_load_of_not_valid h records (w, [])

/-- Blanks, order, repetitions and parents that are named besides make no difference. -/
theorem load_owners_of_requested :
    Valid [" post . owner", "post.owner", "post"] ∧ Valid ["post.owner"] ∧
    requested [" post . owner", "post.owner", "post"] = requested ["post.owner"] ∧
    ¬ Valid ["post.owner", "post..owner"] ∧
    ((ownerSession.recorded.load [" post . owner", "post.owner", "post"]).runOn someComments).run
        (ownedBeginning, []) =
      ((ownerSession.recorded.load ["post.owner"]).runOn someComments).run (ownedBeginning, []) ∧
    ((ownerSession.recorded.load ["post.owner", "post..owner"]).runOn someComments).run
        (ownedBeginning, []) =
      ((.error (.fault (.cannotCompile (.invalidLoadPath "post..owner"))), someComments),
        (ownedBeginning, [])) := by
  have hvalid : Valid [" post . owner", "post.owner", "post"] := by decide +kernel
  have hshort : Valid ["post.owner"] := by decide +kernel
  have hbad : ¬ Valid ["post.owner", "post..owner"] := by decide +kernel
  have hsame : requested [" post . owner", "post.owner", "post"] = requested ["post.owner"] := by
    have hparent : PathForest.segments "post" <+: PathForest.segments "post.owner" := by
      decide +kernel
    have hblanks : PathForest.segments " post . owner" <+: PathForest.segments "post.owner" := by
      decide +kernel
    rw [PathForest.requested_cons (by decide) hblanks,
      PathForest.requested_perm (List.Perm.swap "post" "post.owner" []),
      PathForest.requested_cons (by decide) hparent]
  obtain ⟨hload, hrefused⟩ := load_of_requested ownerSession someComments ownedBeginning
  obtain ⟨path, hpath, hempty, hrun⟩ := hrefused _ hbad
  obtain rfl : path = "post..owner" := by
    rcases List.mem_pair.mp hpath with rfl | rfl
    · exact absurd hempty (hshort "post.owner" (List.mem_cons_self ..))
    · rfl
  exact ⟨hvalid, hshort, hsame, hbad, hload _ _ hvalid hshort hsame, hrun⟩

end Session

end RecordMapper
