import Mathlib.Algebra.GroupWithZero.Nat
import RecordMapper.Proofs.Query.Batches
import RecordMapper.Proofs.Related.LinkAttributes

/-!
The statements that insert links.

* The rows of links are put into batches by their columns, in ascending order of these
  (`ascending_batches`), so that no two batches have the same ones.
* `Carries` is the row of an entry: the keys of the link, and its attributes besides.
* `InsertsLinks` says of statements that together they add a row for each entry, where the rows of
  one statement have the same columns and those of different ones do not.
* `insertLinks_exactly`: to insert links is to execute such statements, one after the other.
-/
namespace RecordMapper

set_option autoImplicit false

variable {σ : Type}

/-- Executes statements one after the other, until one fails. -/
def Session.executeAll (s : Session σ) : List Statement → Action σ (List Execution)
  | [] => return []
  | st :: rest => do
    let report ← s.execute st
    let reports ← s.executeAll rest
    return report :: reports

namespace BoundRelation

/-! ## Batches in ascending order -/

def AscendingBatches (found : Batches) : Prop := found.Pairwise fun a b => a.1 < b.1

theorem fst_of_mem_addToBatch {row : Attributes} {found : Batches}
    {batch : List String × List Attributes} (h : batch ∈ addToBatch row found) :
    batch.1 = row.names ∨ ∃ old ∈ found, batch.1 = old.1 := by
  induction found with
  | nil => exact .inl (congrArg Prod.fst (List.mem_singleton.mp h))
  | cons first rest ih =>
    obtain ⟨names, rows⟩ := first
    rw [addToBatch] at h
    split at h
    · rcases List.mem_cons.mp h with rfl | h
      · exact .inl rfl
      · exact .inr ⟨batch, h, rfl⟩
    · split at h
      · rcases List.mem_cons.mp h with rfl | h
        · exact .inr ⟨(names, rows), List.mem_cons_self .., rfl⟩
        · exact .inr ⟨batch, List.mem_cons_of_mem _ h, rfl⟩
      · rcases List.mem_cons.mp h with rfl | h
        · exact .inr ⟨(names, rows), List.mem_cons_self .., rfl⟩
        · rcases ih h with hnew | ⟨old, hold, heq⟩
          · exact .inl hnew
          · exact .inr ⟨old, List.mem_cons_of_mem _ hold, heq⟩

theorem ascending_addToBatch (row : Attributes) {found : Batches} (h : AscendingBatches found) :
    AscendingBatches (addToBatch row found) := by
  induction found with
  | nil => exact List.pairwise_singleton _ _
  | cons first rest ih =>
    obtain ⟨names, rows⟩ := first
    obtain ⟨hfirst, hrest⟩ := List.pairwise_cons.mp h
    rw [addToBatch]
    split
    · next hless =>
      refine List.pairwise_cons.mpr ⟨fun batch hbatch => ?_, h⟩
      rcases List.mem_cons.mp hbatch with rfl | hbatch
      · exact hless
      · exact List.lt_trans hless (hfirst batch hbatch)
    · split
      · exact List.pairwise_cons.mpr ⟨hfirst, hrest⟩
      · next hless hne =>
        refine List.pairwise_cons.mpr ⟨fun batch hbatch => ?_, ih hrest⟩
        rcases fst_of_mem_addToBatch hbatch with heq | ⟨old, hold, heq⟩
        · rw [heq]
          exact Classical.byContradiction fun hnot => hne (List.le_antisymm hnot hless)
        · rw [heq]
          exact hfirst old hold

theorem ascending_batches (rows : List Attributes) : AscendingBatches (batches rows) := by
  have hmore : ∀ (more : List Attributes) (found : Batches), AscendingBatches found →
      AscendingBatches (more.foldl (fun found row => addToBatch row found) found) := by
    intro more
    induction more with
    | nil => exact fun found hfound => hfound
    | cons row rest ih => exact fun found hfound => ih _ (ascending_addToBatch row hfound)
  exact hmore rows [] .nil

/-- Whether two batches have different columns, so that they cannot be one. -/
def Apart (a b : List String × List Attributes) : Prop :=
  ∀ row ∈ a.2, ∀ row' ∈ b.2, ∃ name, row.contains name ≠ row'.contains name

theorem apart_batches (rows : List Attributes) : (batches rows).Pairwise Apart := by
  obtain ⟨hbatched, -⟩ := batches_spec rows
  refine (ascending_batches rows).imp_of_mem fun {a b} ha hb hless row hrow row' hrow' => ?_
  refine Classical.not_forall.mp fun hsame => ?_
  have heq : a.1 = b.1 := by
    rw [← (hbatched a ha).2 row hrow, ← (hbatched b hb).2 row' hrow']
    exact NameMap.names_eq_iff.mpr hsame
  rw [heq] at hless
  exact List.lt_irrefl b.1 hless

/-! ## Rows of links -/

/-- A row of a link: its keys, whatever its attributes say of them, and its attributes. -/
structure Carries (b : BoundRelation) (p : Pivot) (e : LinkEntry) (row : Attributes) : Prop where
  parent : row.get? p.localKey = some b.key
  related : row.get? p.foreignKey = some e.id
  others : ∀ name, name ≠ p.localKey → name ≠ p.foreignKey →
    row.get? name = e.attributes.get? name

/-- The statements add a row for each entry and no others, in groups of rows with the same
columns. -/
structure InsertsLinks (b : BoundRelation) (p : Pivot) (entries : List LinkEntry) (groups : Batches)
    (sts : List Statement) : Prop where
  rows : ∃ rows, List.Forall₂ (b.Carries p) entries rows ∧ (groups.flatMap Prod.snd).Perm rows
  filled : ∀ group ∈ groups, group.2 ≠ []
  apart : groups.Pairwise Apart
  statements : List.Forall₂ (fun group st => ∃ tuples,
    (Query.on p.table b.query.dialect).AddsRows group.2 group.1 tuples st) groups sts

section Entries

variable {b : BoundRelation} {p : Pivot}

theorem carries_linkRow (hne : p.localKey ≠ p.foreignKey) (e : LinkEntry) :
    b.Carries p e (b.linkRow p e) := by
  refine ⟨get?_linkRow_local hne e, get?_linkRow_foreign e, fun name hlocal hforeign => ?_⟩
  rw [linkRow, NameMap.get?_insert, if_neg hforeign, NameMap.get?_insert, if_neg hlocal]

/-- The statement that adds the rows of one group. -/
def insertionOf (b : BoundRelation) (p : Pivot) (group : List String × List Attributes) :
    Statement :=
  (Query.rowsFragment p.table group.1 group.2).statement b.query.dialect 0

variable (b p) in
theorem isBatched_links (entries : List LinkEntry) {group : List String × List Attributes}
    (hgroup : group ∈ batches (entries.map (b.linkRow p))) :
    group.1 ≠ [] ∧ group.2 ≠ [] ∧ ∀ row ∈ group.2, row.names = group.1 := by
  obtain ⟨hbatched, hperm⟩ := batches_spec (entries.map (b.linkRow p))
  obtain ⟨hrows, hnames⟩ := hbatched group hgroup
  obtain ⟨row, hrow⟩ := List.exists_mem_of_ne_nil _ hrows
  obtain ⟨e, -, rfl⟩ := List.mem_map.mp
    (hperm.mem_iff.mp (List.mem_flatMap.mpr ⟨group, hgroup, hrow⟩))
  refine ⟨?_, hrows, hnames⟩
  rw [← hnames _ hrow]
  exact List.ne_nil_of_mem (NameMap.mem_names_iff.mpr ⟨_, get?_linkRow_foreign e⟩)

theorem insertsLinks_batches (hne : p.localKey ≠ p.foreignKey) (entries : List LinkEntry) :
    b.InsertsLinks p entries (batches (entries.map (b.linkRow p)))
      ((batches (entries.map (b.linkRow p))).map (b.insertionOf p)) := by
  constructor
  case rows =>
    refine ⟨entries.map (b.linkRow p), ?_, (batches_spec _).2⟩
    rw [List.forall₂_map_right_iff]
    exact List.forall₂_same.mpr fun e _ => carries_linkRow hne e
  case filled => exact fun group hgroup => (b.isBatched_links p entries hgroup).2.1
  case apart => exact apart_batches _
  case statements =>
    rw [List.forall₂_map_right_iff]
    refine List.forall₂_same.mpr fun group hgroup => ?_
    obtain ⟨-, hrows, hnames⟩ := b.isBatched_links p entries hgroup
    exact ⟨_, Query.addsRows_statement hnames hrows⟩

end Entries

/-! ## Inserting -/

theorem insertBatches_eq (s : Session σ) (q : Query) {groups : Batches}
    {statementOf : List String × List Attributes → Statement}
    (h : ∀ group ∈ groups, q.batchInsertion group.2 = .ok (statementOf group)) :
    insertBatches s q groups = do
      let reports ← s.executeAll (groups.map statementOf)
      return (reports.map Execution.affected).sum := by
  induction groups with
  | nil => rfl
  | cons group rest ih =>
    obtain ⟨hfirst, hrest⟩ := List.forall_mem_cons.mp h
    have hinsert : Query.insertMany s q group.2 = s.execute (statementOf group) := by
      rw [Query.insertMany, hfirst]
      rfl
    rw [insertBatches, hinsert, ih hrest, List.map_cons, Session.executeAll]
    simp only [bind_assoc, pure_bind, List.map_cons, List.sum_cons]

theorem insertLinks_eq_insertBatches {b : BoundRelation} {p : Pivot}
    (hp : b.relation.requirePivot = .ok p) (hkey : b.key.isNull = false) (s : Session σ)
    (entries : List LinkEntry) :
    b.insertLinks s entries =
      insertBatches s (.on p.table b.query.dialect) (batches (entries.map (b.linkRow p))) := by
  cases entries with
  | nil => rfl
  | cons e rest =>
    rw [insertLinks, requireLinks, hp]
    simp only [hkey]
    rfl

/-- Links are inserted by statements that together add one row for each entry, with the keys of the
link and its attributes, and no two of which add rows with the same columns. They are executed one
after the other, and the affected rows they report are added up. Without entries nothing is sent;
otherwise nothing but a table without a name keeps the statements from being compiled. -/
theorem insertLinks_exactly {b : BoundRelation} {p : Pivot}
    (hp : b.relation.requirePivot = .ok p) (hkey : b.key.isNull = false)
    (hne : p.localKey ≠ p.foreignKey) (entries : List LinkEntry) (s : Session σ) :
    ((Text.trim p.table).isEmpty = false →
      ∃ groups sts, b.InsertsLinks p entries groups sts ∧
        b.insertLinks s entries = do
          let reports ← s.executeAll sts
          return (reports.map Execution.affected).sum) ∧
    ((Text.trim p.table).isEmpty = true → entries ≠ [] →
      ∃ fault, fault.isCompilation = true ∧
        ∀ w, (b.insertLinks s entries).run w = (.error (.fault fault), w)) ∧
    b.insertLinks s [] = return 0 := by
  have hlinks := insertLinks_eq_insertBatches hp hkey s entries
  refine ⟨fun htable => ?_, fun htable hentries => ?_, rfl⟩
  · refine ⟨_, _, insertsLinks_batches hne entries, ?_⟩
    rw [hlinks]
    refine insertBatches_eq s _ fun group hgroup => ?_
    obtain ⟨hcolumns, hrows, hnames⟩ := b.isBatched_links p entries hgroup
    exact Query.batchInsertion_eq_ok.mpr ⟨group.1, hcolumns, hrows, hnames, htable, rfl⟩
  · obtain ⟨-, hperm⟩ := batches_spec (entries.map (b.linkRow p))
    rw [hlinks]
    cases hgroups : batches (entries.map (b.linkRow p)) with
    | nil =>
      rw [hgroups] at hperm
      exact absurd (List.map_eq_nil_iff.mp hperm.symm.eq_nil) hentries
    | cons group rest =>
      cases hst : (Query.on p.table b.query.dialect).batchInsertion group.2 with
      | ok st =>
        obtain ⟨-, -, -, -, hnamed, -⟩ := Query.batchInsertion_eq_ok.mp hst
        exact absurd (htable.symm.trans hnamed) (by decide)
      | error fault =>
        refine ⟨fault, Query.isCompilation_of_batchInsertion hst, fun w => ?_⟩
        rw [insertBatches, Query.insertMany, hst]
        rfl

/-- Five links go into two statements. -/
example : (batches (weightedRoles.map (userRoles.linkRow rolePivot))).map
    (fun group => (group.1, group.2.length)) =
      [(["role_id", "user_id"], 3), (["role_id", "user_id", "weight"], 2)] := by
  decide +kernel

/-- The roles of a user, in a table whose name is blank. -/
def namelessRoles : BoundRelation :=
  { userRoles with
    relation := { userRoles.relation with pivot := some { rolePivot with table := " " } } }

theorem insertLinks_weightedRoles :
    userRoles.relation.requirePivot = .ok rolePivot ∧ userRoles.key.isNull = false ∧
    rolePivot.localKey ≠ rolePivot.foreignKey ∧
    (∃ groups sts, userRoles.InsertsLinks rolePivot weightedRoles groups sts ∧
      userRoles.insertLinks weightsSession weightedRoles = do
        let reports ← weightsSession.executeAll sts
        return (reports.map Execution.affected).sum) ∧
    userRoles.insertLinks weightsSession [] = (return 0) ∧
    ∃ fault, fault.isCompilation = true ∧ ∀ w,
      (namelessRoles.insertLinks weightsSession weightedRoles).run w =
        (.error (.fault fault), w) := by
  have hnamed : (Text.trim rolePivot.table).isEmpty = false := by decide
  have hblank : (Text.trim " ").isEmpty = true := by decide
  obtain ⟨hsent, -, hempty⟩ := insertLinks_exactly (b := userRoles) (p := rolePivot) rfl rfl
    (by decide) weightedRoles weightsSession
  obtain ⟨-, hrefused, -⟩ := insertLinks_exactly (b := namelessRoles) rfl rfl (by decide)
    weightedRoles weightsSession
  exact ⟨rfl, rfl, by decide, hsent hnamed, hempty, hrefused hblank (List.cons_ne_nil _ _)⟩

end BoundRelation

end RecordMapper
