import RecordMapper.Proofs.Session.Tables

/-!
Statements that leave values to the database.

* The keyword `DEFAULT` stands for a value that only the database knows. `TableCommand.EffectOpen`
  is what a statement makes of the rows, whatever the database puts in such places.
* `Defaulting` is a world with a table that treats statements in this way, and statements without
  the keyword as `Tabular` says.
* `Ledger.defaultingWorld` is such a world, in which every column has a default.
-/
namespace RecordMapper

set_option autoImplicit false

/-! ## Reading the keyword -/

/-- Whatever one reader reads another one reads as well. -/
def Token.Extends {α : Type} (item item' : List Token → Option (α × List Token)) : Prop :=
  ∀ ts r, item ts = some r → item' ts = some r

namespace Token

theorem extends_readOrDefault : Extends readValue readOrDefault := by
  intro ts r h
  unfold readValue at h
  split at h
  · exact h
  · cases h

section Lists

variable {α : Type} {item item' : List Token → Option (α × List Token)}

theorem Extends.separated (h : Extends item item') (separator : String) (bound : Nat) :
    Extends (separated item separator bound) (separated item' separator bound) := by
  induction bound with
  | zero =>
    intro ts r hr
    cases hr
  | succ bound ih =>
    intro ts r hr
    obtain ⟨⟨a, rest⟩, ha, hr⟩ := Option.bind_eq_some_iff.mp hr
    refine Option.bind_eq_some_iff.mpr ⟨(a, rest), h ts _ ha, ?_⟩
    cases hseparator : expect separator rest with
    | none =>
      simp only [hseparator] at hr ⊢
      exact hr
    | some rest =>
      simp only [hseparator] at hr ⊢
      obtain ⟨found, hfound, hr⟩ := Option.map_eq_some_iff.mp hr
      exact Option.map_eq_some_iff.mpr ⟨found, ih rest found hfound, hr⟩

theorem Extends.list (h : Extends item item') (separator : String) :
    Extends (list item separator) (list item' separator) :=
  fun ts => h.separated separator (ts.length + 1) ts

end Lists

variable {value value' : List Token → Option (Value × List Token)}

theorem Extends.tupleOf (h : Extends value value') : Extends (tupleOf value) (tupleOf value') := by
  intro ts r hr
  obtain ⟨ts₁, h₁, hr⟩ := Option.bind_eq_some_iff.mp hr
  obtain ⟨found, h₂, hr⟩ := Option.bind_eq_some_iff.mp hr
  exact Option.bind_eq_some_iff.mpr ⟨ts₁, h₁,
    Option.bind_eq_some_iff.mpr ⟨found, h.list ", " ts₁ found h₂, hr⟩⟩

theorem Extends.assignmentOf (h : Extends value value') :
    Extends (assignmentOf value) (assignmentOf value') := by
  intro ts r hr
  obtain ⟨column, h₁, hr⟩ := Option.bind_eq_some_iff.mp hr
  obtain ⟨ts₂, h₂, hr⟩ := Option.bind_eq_some_iff.mp hr
  obtain ⟨found, h₃, hr⟩ := Option.bind_eq_some_iff.mp hr
  exact Option.bind_eq_some_iff.mpr ⟨column, h₁, Option.bind_eq_some_iff.mpr ⟨ts₂, h₂,
    Option.bind_eq_some_iff.mpr ⟨found, h ts₂ found h₃, hr⟩⟩⟩

end Token

namespace TableCommand

open Token

/-- Reads a statement in which the keyword may stand for a value. -/
def readOpen (d : Dialect) (st : Statement) : Option TableCommand := readOf readOrDefault d st

section Extending

variable {value value' : List Token → Option (Value × List Token)} {ts : List Token}
  {c : TableCommand}

theorem insertOf_extends (h : Extends value value') (hread : insertOf value ts = some c) :
    insertOf value' ts = some c := by
  unfold insertOf at hread ⊢
  simp only [Option.bind_eq_bind] at hread ⊢
  obtain ⟨ts₁, h₁, hread⟩ := Option.bind_eq_some_iff.mp hread
  obtain ⟨⟨table, ts₂⟩, h₂, hread⟩ := Option.bind_eq_some_iff.mp hread
  refine Option.bind_eq_some_iff.mpr ⟨ts₁, h₁, Option.bind_eq_some_iff.mpr ⟨(table, ts₂), h₂, ?_⟩⟩
  simp only at hread ⊢
  split at hread
  · exact hread
  · exact hread
  · obtain ⟨ts₃, h₃, hread⟩ := Option.bind_eq_some_iff.mp hread
    obtain ⟨⟨columns, ts₄⟩, h₄, hread⟩ := Option.bind_eq_some_iff.mp hread
    obtain ⟨ts₅, h₅, hread⟩ := Option.bind_eq_some_iff.mp hread
    obtain ⟨found, h₆, hread⟩ := Option.bind_eq_some_iff.mp hread
    refine Option.bind_eq_some_iff.mpr ⟨ts₃, h₃, Option.bind_eq_some_iff.mpr ⟨(columns, ts₄), h₄,
      Option.bind_eq_some_iff.mpr ⟨ts₅, h₅, Option.bind_eq_some_iff.mpr
        ⟨found, h.tupleOf.list ", " ts₅ found h₆, hread⟩⟩⟩⟩

theorem updateOf_extends (h : Extends value value') (hread : updateOf value ts = some c) :
    updateOf value' ts = some c := by
  obtain ⟨ts₁, h₁, hread⟩ := Option.bind_eq_some_iff.mp hread
  obtain ⟨⟨table, ts₂⟩, h₂, hread⟩ := Option.bind_eq_some_iff.mp hread
  obtain ⟨ts₃, h₃, hread⟩ := Option.bind_eq_some_iff.mp hread
  obtain ⟨found, h₄, hread⟩ := Option.bind_eq_some_iff.mp hread
  exact Option.bind_eq_some_iff.mpr ⟨ts₁, h₁, Option.bind_eq_some_iff.mpr ⟨(table, ts₂), h₂,
    Option.bind_eq_some_iff.mpr ⟨ts₃, h₃, Option.bind_eq_some_iff.mpr
      ⟨found, h.assignmentOf.list ", " ts₃ found h₄, hread⟩⟩⟩⟩

theorem readOf_extends (h : Extends value value') {d : Dialect} {st : Statement}
    (hread : readOf value d st = some c) : readOf value' d st = some c := by
  obtain ⟨ts, htokens, hread⟩ := Option.bind_eq_some_iff.mp hread
  refine Option.bind_eq_some_iff.mpr ⟨ts, htokens, ?_⟩
  simp only [Option.orElse_eq_orElse, Option.orElse_eq_or] at hread ⊢
  cases hselect : readSelect ts with
  | some c' =>
    rw [hselect, Option.some_or] at hread
    rw [Option.some_or]
    exact hread
  | none =>
    rw [hselect, Option.none_or] at hread
    rw [Option.none_or]
    cases hinsert : insertOf value ts with
    | some c' =>
      rw [hinsert, Option.some_or] at hread
      rw [insertOf_extends h hinsert, Option.some_or]
      exact hread
    | none =>
      rw [hinsert, Option.none_or] at hread
      cases hupdate : updateOf value ts with
      | some c' =>
        obtain ⟨ts₁, hkeyword, -⟩ := Option.bind_eq_some_iff.mp hupdate
        rw [hupdate, Option.some_or] at hread
        rw [insertOf_eq_none (expect_eq_none (by decide) hkeyword), Option.none_or,
          updateOf_extends h hupdate, Option.some_or]
        exact hread
      | none =>
        rw [hupdate, Option.none_or] at hread
        obtain ⟨ts₁, hkeyword, -⟩ := Option.bind_eq_some_iff.mp hread
        rw [insertOf_eq_none (expect_eq_none (by decide) hkeyword), Option.none_or,
          updateOf_eq_none (expect_eq_none (by decide) hkeyword), Option.none_or]
        exact hread

/-- A statement without the keyword is read as before. -/
theorem readOpen_of_read {d : Dialect} {st : Statement} (hread : read d st = some c) :
    readOpen d st = some c := by
  rw [← readOf_readValue] at hread
  exact readOf_extends extends_readOrDefault hread

end Extending

end TableCommand

/-! ## What becomes of the rows -/

/-- Whether a row has the values that were given for it, those left to the database apart. -/
def HoldsGiven (columns : List String) (values : List Value) (row : Attributes) : Prop :=
  ∀ name v, Assoc.get? name (columns.zip values) = some v → v.isDefault = false →
    row.get? name = some v

/-- A row before and after some assignments. A column that gets its default may have any value. -/
structure Assigned (assignments : List (String × Value)) (before after : Attributes) : Prop where
  kept : ∀ name, (∀ e ∈ assignments, e.1 ≠ name) → after.get? name = before.get? name
  assigned : ∀ name, (∃ e ∈ assignments, e.1 = name) →
    ∃ e ∈ assignments, e.1 = name ∧ (e.2.isDefault = true ∨ after.get? name = some e.2)

namespace TableCommand

/-- What the rows may be after a statement, whatever the defaults are. -/
def EffectOpen (eq : Value → Value → Bool) : TableCommand → List Attributes → List Attributes → Prop
  | .insert _ columns rows, before, after =>
    ∃ added, List.Forall₂ (HoldsGiven columns) rows added ∧ after.Perm (before ++ added)
  | .update _ assignments m, before, after =>
    ∃ changed, List.Forall₂ (fun row row' =>
        if m.meets eq row = true then Assigned assignments row row' else row' = row)
      before changed ∧ after.Perm changed
  | c, before, after => c.Effect eq before after

/-- Whether a statement removes, changes or may add such a row. -/
def TouchesOpen (eq : Value → Value → Bool) : TableCommand → Attributes → Prop
  | .insert _ columns rows, row => ∃ values ∈ rows, HoldsGiven columns values row
  | c, row => c.Touches eq row

end TableCommand

theorem Holds.given {columns : List String} {values : List Value} {row : Attributes}
    (h : Holds columns values row) : HoldsGiven columns values row :=
  fun name v hv _ => h name v hv

theorem holdsGiven_names_values {given row : Attributes}
    (h : HoldsGiven given.names given.values row) {name : String} {v : Value}
    (hv : given.get? name = some v) (hdefault : v.isDefault = false) : row.get? name = some v := by
  refine h name v ?_ hdefault
  rw [NameMap.zip_names_values]
  exact hv

section Filling

variable (fill : String → Value → Value)

theorem zip_filled (columns : List String) (values : List Value) :
    columns.zip (List.zipWith fill columns values) =
      (columns.zip values).map fun e => (e.1, fill e.1 e.2) := by
  induction columns generalizing values with
  | nil => rfl
  | cons column columns ih =>
    cases values with
    | nil => rfl
    | cons v values => exact congrArg ((column, fill column v) :: ·) (ih values)

variable (hfill : ∀ name v, v.isDefault = false → fill name v = v)

include hfill

theorem assigned_filled (assignments : List (String × Value)) (row : Attributes) :
    Assigned assignments row (row.insertAll (assignments.map fun e => (e.1, fill e.1 e.2))) where
  kept name hnone := by
    apply Assoc.get?_insertAll_of_notMem
    intro e he
    obtain ⟨e', he', rfl⟩ := List.mem_map.mp he
    exact hnone e' he'
  assigned name hsome := by
    have hmapped : ∃ p ∈ assignments.map fun e => (e.1, fill e.1 e.2), p.1 = name := by
      obtain ⟨e, he, rfl⟩ := hsome
      exact ⟨_, List.mem_map.mpr ⟨e, he, rfl⟩, rfl⟩
    obtain ⟨p, hp, hname, hget⟩ := Assoc.exists_get?_insertAll hmapped row.entries
    obtain ⟨e, he, rfl⟩ := List.mem_map.mp hp
    refine ⟨e, he, hname, ?_⟩
    cases hv : e.2.isDefault with
    | true => exact .inl rfl
    | false =>
      rw [hfill e.1 e.2 hv] at hget
      exact .inr hget

theorem holdsGiven_filled {columns : List String} {values : List Value} {row : Attributes}
    (h : Holds columns (List.zipWith fill columns values) row) : HoldsGiven columns values row := by
  intro name v hv hdefault
  refine h name v ?_
  rw [zip_filled, Assoc.get?_map, hv, Option.map_some, hfill name v hdefault]

end Filling

namespace TableCommand

variable {eq : Value → Value → Bool} {c : TableCommand} {before after : List Attributes}

/-- What a statement makes of the rows if the keyword stands for nothing is one of the things it may
make of them. -/
theorem Effect.isOpen (h : c.Effect eq before after) : c.EffectOpen eq before after := by
  cases c with
  | select column table m => exact h
  | delete table m => exact h
  | insert table columns rows =>
    obtain ⟨added, hadded, hperm⟩ := h
    exact ⟨added, hadded.imp fun _ _ hrow => hrow.given, hperm⟩
  | update table assignments m =>
    refine ⟨_, List.forall₂_map_right_iff.mpr (List.forall₂_same.mpr fun row _ => ?_), h⟩
    split
    · have hassigned := assigned_filled (fun _ v => v) (fun _ _ _ => rfl) assignments row
      rw [List.map_id'] at hassigned
      exact hassigned
    · rfl

/-- The values of a column's default in the places of the keyword. -/
def filled (fill : String → Value → Value) : TableCommand → TableCommand
  | .insert table columns rows => .insert table columns (rows.map (List.zipWith fill columns))
  | .update table assignments m =>
    .update table (assignments.map fun e => (e.1, fill e.1 e.2)) m
  | c => c

theorem effectOpen_filled {fill : String → Value → Value}
    (hfill : ∀ name v, v.isDefault = false → fill name v = v)
    (h : (c.filled fill).Effect eq before after) : c.EffectOpen eq before after := by
  cases c with
  | select column table m => exact h
  | delete table m => exact h
  | insert table columns rows =>
    obtain ⟨added, hadded, hperm⟩ := h
    rw [List.forall₂_map_left_iff] at hadded
    exact ⟨added, hadded.imp fun _ _ hrow => holdsGiven_filled fill hfill hrow, hperm⟩
  | update table assignments m =>
    refine ⟨_, List.forall₂_map_right_iff.mpr (List.forall₂_same.mpr fun row _ => ?_), h⟩
    split
    · exact assigned_filled fill hfill assignments row
    · rfl

end TableCommand

/-! ## Worlds -/

/-- A world with a table whose columns have defaults. What they are is left open. -/
structure Defaulting {σ : Type} (world : World σ) (d : Dialect) (table : String)
    (eq : Value → Value → Bool) (view : σ → Ledger) : Prop
    extends Tabular world d table eq view where
  writeOpen : ∀ st w c e, TableCommand.readOpen d st = some c → c.table = table →
    (world.execute st w).1 = .ok e →
      c.EffectOpen eq (view w).rows (view (world.execute st w).2).rows

theorem Defaulting.gives_writeOpen {σ : Type} {s : Session σ} {d : Dialect} {table : String}
    {eq : Value → Value → Bool} {view : σ → Ledger} (h : Defaulting s.world d table eq view)
    {st : Statement} {c : TableCommand} (hread : TableCommand.readOpen d st = some c)
    (htable : c.table = table) (w : σ) :
    Action.Gives view (s.execute st) w fun _ w' =>
      ∃ rows, c.EffectOpen eq (view w).rows rows ∧ view w' = (view w).writing [st] rows := by
  refine (h.gives_execute st w).mono fun e w' hrun => ⟨(view w').rows, ?_, hrun.2⟩
  have heffect := h.writeOpen st w c e hread htable
  rw [hrun.1] at heffect
  exact heffect rfl

namespace Ledger

variable (d : Dialect) (table : String) (eq : Value → Value → Bool) (defaults : String → Value)

/-- The value that is written for one that is given. -/
def fill (name : String) (v : Value) : Value := if v.isDefault then defaults name else v

/-- Executes a statement; the keyword stands for the default of its column. -/
def executeFilled (st : Statement) (l : Ledger) : Outcome Execution × Ledger :=
  match TableCommand.read d st, TableCommand.readOpen d st with
  | none, some c =>
    if c.table = table ∧ Control.read st.sql = none then
      (.ok ⟨1, none⟩, l.writing [st] (change eq none l.rows (c.filled (fill defaults))))
    else (.error refusal, { l.sending (.execute st) with failed := true })
  | _, _ => execute d table eq none st l

/-- The world of a table whose columns have defaults. -/
def defaultingWorld : World Ledger :=
  { world d table eq none with execute := executeFilled d table eq defaults }

theorem defaultingWorld_defaulting :
    Defaulting (defaultingWorld d table eq defaults) d table eq id where
  now l := rfl
  freshUuid l := rfl
  query := (world_tabular d table eq none).query
  select := (world_tabular d table eq none).select
  execute st l := by
    show Logs l (executeFilled d table eq defaults st l).2 _
      (executeFilled d table eq defaults st l).1.isOk
    unfold executeFilled
    split
    · split
      · exact ⟨rfl, (Bool.or_false _).symm⟩
      · exact logs_refused l _
    · exact (world_tabular d table eq none).execute st l
  write st l c e hread := by
    have hrun : executeFilled d table eq defaults st l = execute d table eq none st l := by
      unfold executeFilled
      rw [hread]
    show _ → (executeFilled d table eq defaults st l).1 = .ok e →
      c.Effect eq l.rows (executeFilled d table eq defaults st l).2.rows
    rw [hrun]
    exact (world_tabular d table eq none).write st l c e hread
  writeOpen st l c e hopen htable hok := by
    show c.EffectOpen eq l.rows (executeFilled d table eq defaults st l).2.rows
    have hrun : (executeFilled d table eq defaults st l).1 = .ok e := hok
    unfold executeFilled at hrun ⊢
    cases hread : TableCommand.read d st with
    | some c' =>
      have hc : c' = c := Option.some.inj ((TableCommand.readOpen_of_read hread).symm.trans hopen)
      subst hc
      simp only [hread] at hrun ⊢
      exact ((world_tabular d table eq none).write st l c' e hread htable hrun).isOpen
    | none =>
      simp only [hread, hopen] at hrun ⊢
      split at hrun
      · next hwrites =>
        rw [if_pos hwrites]
        refine TableCommand.effectOpen_filled (fun name v hv => ?_) (change_effect eq none l.rows _)
        unfold fill
        rw [hv]
        rfl
      · cases hrun
  control sql l c e hread hkeeps hok := by
    show (executeFilled d table eq defaults ⟨sql, []⟩ l).2.rows = l.rows
    have hrun : (executeFilled d table eq defaults ⟨sql, []⟩ l).1 = .ok e := hok
    unfold executeFilled at hrun ⊢
    split
    · next hopen =>
      split
      · next hwrites =>
        rw [hread] at hwrites
        cases hwrites.2
      · rfl
    · next hother =>
      have hexecute : (execute d table eq none ⟨sql, []⟩ l).1 = .ok e := by
        simpa only [hother] using hrun
      exact (world_tabular d table eq none).control sql l c e hread hkeeps hexecute

end Ledger

end RecordMapper
