import RecordMapper.Proofs.NameMap
import RecordMapper.Proofs.Session.Tables
import RecordMapper.Proofs.Value.Sameness

/-!
Tables with one row per key.

* `KeyEquality` is what is asked of an equality of keys; `Value.same` is one.
* `Keyed` is a world whose table has one row per key, as `Ledger.world` with a key is.
* `written` are the columns that statements wrote.
-/
namespace RecordMapper

set_option autoImplicit false

/-- How a database may compare keys: values that are the same have one key. -/
structure KeyEquality (eq : Value → Value → Bool) : Prop where
  of_same : ∀ {a b : Value}, a.isNull = false → a.same b = true → eq a b = true
  symm : ∀ {a b : Value}, eq a b = true → eq b a = true
  trans : ∀ {a b c : Value}, eq a b = true → eq b c = true → eq a c = true

theorem keyEquality_same : KeyEquality Value.same :=
  ⟨fun _ h => h, Value.same_symm, Value.same_trans⟩

/-- A row that is found by a key is the only one. -/
theorem filter_eq_singleton {eq : Value → Value → Bool} (heq : KeyEquality eq) {key : String}
    {rows : List Attributes} (hkeyed : IsKeyed eq key rows) {row : Attributes} {k : Value}
    (hmem : row ∈ rows) (hfound : eq k (cell row key) = true) :
    rows.filter (fun row => eq k (cell row key)) = [row] := by
  induction rows with
  | nil => cases hmem
  | cons first rest ih =>
    obtain ⟨hfirst, hrest⟩ := List.pairwise_cons.mp hkeyed
    rcases List.mem_cons.mp hmem with rfl | hmem
    · have hothers : rest.filter (fun row => eq k (cell row key)) = [] := by
        refine List.filter_eq_nil_iff.mpr fun other hother hboth => ?_
        have hsame := heq.trans (heq.symm hfound) hboth
        rw [hfirst other hother] at hsame
        cases hsame
      rw [List.filter_cons, if_pos hfound, hothers]
    · have hother : ¬eq k (cell first key) = true := by
        intro hboth
        have hsame := heq.trans (heq.symm hboth) hfound
        rw [hfirst row hmem] at hsame
        cases hsame
      rw [List.filter_cons, if_neg hother]
      exact ih hrest hmem

/-- A table with one row per key. The key that is reported for an insertion is that of the row that
was added. -/
structure Keyed {σ : Type} (world : World σ) (d : Dialect) (table key : String)
    (eq : Value → Value → Bool) (view : σ → Ledger) : Prop
    extends Tabular world d table eq view where
  unique : ∀ st w c e, TableCommand.read d st = some c → c.table = table →
    (world.execute st w).1 = .ok e → IsKeyed eq key (view w).rows →
      IsKeyed eq key (view (world.execute st w).2).rows
  generated : ∀ st w columns values e id,
    TableCommand.read d st = some (.insert table columns [values]) → key ∉ columns →
    (world.execute st w).1 = .ok e → e.insertId = some id →
      ∃ row, Holds columns values row ∧ eq id (cell row key) = true ∧
        (view (world.execute st w).2).rows.Perm ((view w).rows ++ [row])

/-! ## Written columns -/

def TableCommand.columns : TableCommand → List String
  | .insert _ columns _ => columns
  | .update _ assignments _ => assignments.map Prod.fst
  | _ => []

/-- Whether a request is a statement for a table. -/
def Request.WritesTo (d : Dialect) (table : String) (q : Request) : Prop :=
  ∃ st c, q = .execute st ∧ TableCommand.read d st = some c ∧ c.table = table

/-- The columns that statements write. -/
def written (d : Dialect) : List Request → List String
  | [] => []
  | .query _ :: rest => written d rest
  | .execute st :: rest => (TableCommand.read d st).elim [] TableCommand.columns ++ written d rest

theorem written_append (d : Dialect) (a b : List Request) :
    written d (a ++ b) = written d a ++ written d b := by
  induction a with
  | nil => rfl
  | cons q rest ih =>
    cases q with
    | query st => exact ih
    | execute st => rw [List.cons_append, written, written, ih, List.append_assoc]

theorem written_concat {d : Dialect} {st : Statement} {c : TableCommand}
    (hread : TableCommand.read d st = some c) (sent : List Request) :
    written d (sent ++ [.execute st]) = written d sent ++ c.columns := by
  rw [written_append, written, hread]
  exact congrArg _ (List.append_nil _)

/-! ## The world of a table with a key -/

namespace Ledger

variable {d : Dialect} {table : String} {eq : Value → Value → Bool}

theorem get?_zip_eq_none {columns : List String} {name : String} (values : List Value)
    (h : name ∉ columns) : Assoc.get? name (columns.zip values) = none := by
  cases hget : Assoc.get? name (columns.zip values) with
  | none => rfl
  | some v => exact absurd (List.of_mem_zip (Assoc.mem_of_get? hget)).1 h

theorem world_keyed (key : String) (heq : KeyEquality eq) :
    Keyed (world d table eq (some key)) d table key eq id where
  toTabular := world_tabular d table eq (some key)
  unique st l c e hread _ hok _ := by
    obtain ⟨hadmits, -, hrows⟩ := execute_ok hread hok
    show IsKeyed eq key (execute d table eq (some key) st l).2.rows
    rw [hrows]
    exact of_decide_eq_true hadmits
  generated st l columns values e id hread hfree hok hid := by
    obtain ⟨-, hgiven, hrows⟩ := execute_ok hread hok
    have hnumber : id = .ofInt (l.rows.length + 1) := by
      rw [hid, givenKey?, Option.bind_some, if_neg hfree] at hgiven
      exact Option.some.inj hgiven
    have hcell : cell (newRow (some key) (l.rows.length + 1) (columns.zip values)) key = id := by
      have hnone : Assoc.get? key (columns.zip values) = none := get?_zip_eq_none values hfree
      rw [newRow, hnone, hnumber]
      unfold cell
      simp only [Option.isSome_none, Bool.false_eq_true, if_false]
      rw [NameMap.get?_insert, if_pos rfl]
      rfl
    refine ⟨newRow (some key) (l.rows.length + 1) (columns.zip values),
      holds_newRow _ _ columns values, ?_, ?_⟩
    · rw [hcell, hnumber]
      exact heq.of_same rfl (Value.same_refl rfl)
    · show (execute d table eq (some key) st l).2.rows.Perm _
      rw [hrows]
      rfl

end Ledger

end RecordMapper
