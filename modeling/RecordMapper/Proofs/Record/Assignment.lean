import RecordMapper.Proofs.Record.Sending
import RecordMapper.Repository

/-!
Attributes that a caller assigns in bulk.

* `fill_eq` says what `Record.fill` sets, and so what a new record is made of.
* `Schema.Grants` lists where the value of a column of a new row may come from.
* `Repository.create_protected` follows the attributes of a caller up to the statement that is sent.
-/
namespace RecordMapper

set_option autoImplicit false

namespace Record

/-! ## Filling -/

theorem fill_eq (r : Record) (data : List (String × Value)) :
    r.fill data = r.forceFill (data.filter fun e => r.schema.isFillable e.1) := by
  induction data generalizing r with
  | nil => rfl
  | cons e rest ih =>
    rw [List.filter_cons]
    split
    · next hfillable =>
      have hstep : r.fill (e :: rest) = (r.set e.1 e.2).fill rest :=
        congrArg (fun r : Record => r.fill rest) (if_pos hfillable)
      rw [hstep, ih]
      rfl
    · next hguarded =>
      have hstep : r.fill (e :: rest) = r.fill rest :=
        congrArg (fun r : Record => r.fill rest) (if_neg hguarded)
      rw [hstep, ih]

theorem forceFill_eq (r : Record) (data : List (String × Value)) :
    r.forceFill data = { r with
      attributes :=
        r.attributes.insertAll (data.map fun e => (e.1, r.schema.setValue e.1 e.2)) } := by
  induction data generalizing r with
  | nil =>
    cases r
    rfl
  | cons e rest ih => exact ih (r.set e.1 e.2)

/-- What is not among the attributes to set stays as it is. -/
theorem get?_forceFill_of_notMem {r : Record} {data : List (String × Value)} {name : String}
    (h : ∀ e ∈ data, e.1 ≠ name) : (r.forceFill data).get? name = r.get? name := by
  rw [forceFill_eq]
  refine Assoc.get?_insertAll_of_notMem (fun p hp => ?_) r.attributes.entries
  obtain ⟨e, he, rfl⟩ := List.mem_map.mp hp
  exact h e he

/-- The attributes of a new record. -/
theorem get?_fill_new (schema : Schema) (data : Attributes) (name : String) :
    ((new schema).fill data.entries).get? name =
      if schema.isFillable name = true then (data.get? name).map (schema.setValue name)
      else none := by
  obtain ⟨given, hgiven⟩ : ∃ given : Attributes,
      given = data.filter fun name _ => schema.isFillable name := ⟨_, rfl⟩
  have hfill : (new schema).fill data.entries = (new schema).forceFill given.entries := by
    rw [fill_eq, hgiven]
    rfl
  have hascending :
      Assoc.Ascending (given.entries.map fun e => (e.1, schema.setValue e.1 e.2)) :=
    List.pairwise_map.mpr given.ascending
  rw [hfill, forceFill_eq]
  refine (Assoc.get?_insertAll name hascending []).trans ?_
  rw [Assoc.get?_map]
  have hfound : Assoc.get? name given.entries =
      (data.get? name).filter fun _ => schema.isFillable name := by
    rw [hgiven]
    exact NameMap.get?_filter data (fun name _ => schema.isFillable name) name
  rw [hfound]
  cases data.get? name with
  | none => split <;> rfl
  | some v => cases schema.isFillable name <;> rfl

end Record

/-! ## Where the columns of a new row come from -/

/-- What a column of a new row may hold: the value a caller assigned, if the attribute may be
assigned in bulk; a fresh key; or the moment of the insertion. -/
inductive Schema.Grants (schema : Schema) (data : Attributes) (uuid now : Value) (column : String)
    (v : Value) : Prop
  | assigned {given : Value} (hgiven : data.get? column = some given)
    (hfillable : schema.isFillable column = true) (hv : v = schema.setValue column given)
  | generated (hcolumn : column = schema.primaryKey) (hstrategy : schema.keyStrategy = .uuid)
    (hv : v = schema.setValue column uuid)
  | stamped {t : Timestamps} (ht : schema.timestamps = some t)
    (hcolumn : column = t.created ∨ column = t.updated) (hv : v = schema.setValue column now)

namespace Record

/-- All attributes of the record are granted. -/
def IsGranted (r : Record) (data : Attributes) (uuid now : Value) : Prop :=
  ∀ column v, r.get? column = some v → r.schema.Grants data uuid now column v

section Granted

variable {r : Record} {data : Attributes} {uuid now : Value}

theorem isGranted_made (schema : Schema) (data : Attributes) (uuid now : Value) :
    ((new schema).fill data.entries).IsGranted data uuid now := by
  intro column v hv
  rw [get?_fill_new] at hv
  rw [(edited_fill (new schema) data.entries).schema]
  split at hv
  · next hfillable =>
    obtain ⟨given, hgiven, rfl⟩ := Option.map_eq_some_iff.mp hv
    exact .assigned hgiven hfillable rfl
  · cases hv

theorem IsGranted.set (h : r.IsGranted data uuid now) {name : String} {given : Value}
    (hset : r.schema.Grants data uuid now name (r.schema.setValue name given)) :
    (r.set name given).IsGranted data uuid now := by
  intro column v hv
  rw [get?_set] at hv
  split at hv
  · next hname =>
    cases hv
    exact hname ▸ hset
  · exact h column v hv

theorem IsGranted.keyed (h : r.IsGranted data uuid now) :
    (r.keyed uuid).IsGranted data uuid now := by
  unfold Record.keyed
  split
  · next htakes =>
    have hstrategy : r.schema.keyStrategy = .uuid := by
      rw [Bool.and_eq_true, decide_eq_true_eq] at htakes
      exact htakes.2
    exact h.set (.generated rfl hstrategy rfl)
  · exact h

theorem IsGranted.stampedNew (h : r.IsGranted data uuid now) {t : Timestamps}
    (ht : r.schema.timestamps = some t) : (r.stampedNew t now).IsGranted data uuid now := by
  unfold Record.stampedNew
  split
  · exact (h.set (.stamped ht (.inl rfl) rfl)).set (.stamped ht (.inr rfl) rfl)
  · exact h.set (.stamped ht (.inr rfl) rfl)

theorem IsGranted.readied (h : r.IsGranted data uuid now) :
    (r.readied uuid now).IsGranted data uuid now := by
  unfold Record.readied
  split
  · next t ht =>
    have hschema := (edited_keyed r uuid).schema
    exact h.keyed.stampedNew (hschema ▸ ht)
  · exact h.keyed

theorem IsGranted.insertable (h : r.IsGranted data uuid now) {column : String} {v : Value}
    (hv : r.insertable.get? column = some v) : r.schema.Grants data uuid now column v := by
  unfold Record.insertable at hv
  split at hv
  · rw [NameMap.get?_erase] at hv
    split at hv
    · cases hv
    · exact h column v hv
  · exact h column v hv

end Granted

end Record

/-! ## Creating -/

namespace Repository

variable {σ : Type}

def recorded (p : Repository σ) : Repository (σ × List Exchange) :=
  { p with session := p.session.recorded }

/-- The row that is inserted for the attributes of a caller. -/
def newRow (p : Repository σ) (data : Attributes) (uuid now : Value) : Attributes :=
  ((p.make data).readied uuid now).insertable

/-- A request to insert a row. A value `DEFAULT` is a keyword of the statement; without one, the
statement reads as the insertion of the row. -/
def Inserts (p : Repository σ) (row : Attributes) (q : Request) : Prop :=
  ∃ st, q = .execute st ∧ (p.schema.allRows p.session.dialect).insertion row = .ok st ∧
    ((∀ v ∈ row.values, v.isDefault = false) →
      TableCommand.read p.session.dialect st =
        some (.insert p.schema.table row.names [row.values]))

theorem inserts_of_insertion (p : Repository σ) {row : Attributes} {st : Statement}
    (h : (p.schema.allRows p.session.dialect).insertion row = .ok st) :
    p.Inserts row (.execute st) := by
  refine ⟨st, rfl, h, fun hdefault => ?_⟩
  have htable : (Text.trim p.schema.table).isEmpty = false := by
    obtain ⟨f, hf, -⟩ := ok_of_map h
    exact Record.named_of_ok hf
  obtain ⟨st', hst', hread⟩ := Query.read_insertion (q := p.schema.allRows p.session.dialect)
    htable hdefault
  rw [h] at hst'
  cases hst'
  exact hread

theorem newRow_granted (p : Repository σ) (data : Attributes) (uuid now : Value) {column : String}
    {v : Value} (hv : (p.newRow data uuid now).get? column = some v) :
    p.schema.Grants data uuid now column v := by
  have hmade : (p.make data).IsGranted data uuid now :=
    Record.isGranted_made p.schema data uuid now
  have hschema : ((p.make data).readied uuid now).schema = p.schema :=
    (Record.edited_readied _ uuid now).schema.trans
      (Record.edited_fill (.new p.schema) data.entries).schema
  exact hschema ▸ hmade.readied.insertable hv

theorem make_congr (p : Repository σ) {data data' : Attributes}
    (h : ∀ name, p.schema.isFillable name = true → data.get? name = data'.get? name) :
    p.make data = p.make data' := by
  have hattributes : ((Record.new p.schema).fill data.entries).attributes =
      ((Record.new p.schema).fill data'.entries).attributes := by
    refine NameMap.ext_get? fun name => ?_
    have hget := Record.get?_fill_new p.schema data name
    have hget' := Record.get?_fill_new p.schema data' name
    refine hget.trans (Eq.trans ?_ hget'.symm)
    split
    · next hfillable => rw [h name hfillable]
    · rfl
  rw [Record.fill_eq, Record.forceFill_eq, Record.fill_eq, Record.forceFill_eq] at hattributes
  unfold make
  rw [Record.fill_eq, Record.forceFill_eq, Record.fill_eq, Record.forceFill_eq]
  exact congrArg (fun attributes => { Record.new p.schema with attributes }) hattributes

theorem run_create (p : Repository σ) (data : Attributes) {w w' : σ} {o : Outcome Bool} {r : Record}
    (h : ((Record.save p.session).runOn (p.make data)).run w = ((o, r), w')) :
    (p.create data).run w = (o.map fun _ => r, w') := by
  have hsave : (Action.ofState ((Record.save p.session).runOn (p.make data))).run w =
      (.ok (o, r), w') := by
    show (Except.ok (((Record.save p.session).runOn (p.make data)).run w).1,
      (((Record.save p.session).runOn (p.make data)).run w).2) = _
    rw [h]
  unfold create
  rw [Action.run_bind_ok hsave]
  cases o <;> rfl

/-- A creation sends the insertion of its row, or nothing if the table has no name. -/
theorem create_sends (p : Repository σ) (hhooks : Record.NoHooks p.session p.schema)
    (data : Attributes) (t : σ × List Exchange) :
    ∃ uuid now o w' sent, Record.Drawn p.session.world t.1 uuid now ∧
      (p.recorded.create data).run t = (o, (w', t.2 ++ sent)) ∧
      Record.Ends (p.Inserts (p.newRow data uuid now))
        (fun _ => (Text.trim p.schema.table).isEmpty = true) () (o.map fun _ => ()) sent := by
  have hschema : (p.make data).schema = p.schema :=
    (Record.edited_fill (.new p.schema) data.entries).schema
  have hnew : (p.make data).persisted = false :=
    (Record.edited_fill (.new p.schema) data.entries).persisted
  obtain ⟨uuid, now, hdrawn, o, r, w', sent, hrow, hends⟩ :=
    Record.insertRow_sends_readied p.session t (p.make data)
  have hsave := Record.save_new (s := p.session.recorded) (hschema ▸ hhooks) hnew t
  have hkept : r.schema = p.schema := by
    have hkeeps := Record.keepsSchema_insertRow (s := p.session.recorded) (p.make data) t
    rw [hrow] at hkeeps
    exact hkeeps.trans hschema
  rw [hschema] at hends
  refine ⟨uuid, now, ?_⟩
  cases hends with
  | refused h =>
    rw [Change.run_bind_error hrow] at hsave
    exact ⟨_, w', [], hdrawn, run_create p.recorded data hsave, .refused h⟩
  | failed h =>
    rw [Change.run_bind_error hrow] at hsave
    obtain ⟨st, rfl, hst⟩ := h
    exact ⟨_, w', _, hdrawn, run_create p.recorded data hsave,
      .failed (p.inserts_of_insertion hst)⟩
  | done h =>
    rw [Change.run_bind_ok hrow, Record.run_finish (hkept ▸ hhooks)] at hsave
    obtain ⟨st, rfl, hst⟩ := h
    exact ⟨_, w', _, hdrawn, run_create p.recorded data hsave,
      .done (p.inserts_of_insertion hst)⟩

/-- Nothing that a caller may not assign in bulk reaches the statement. Every column of the row that
is inserted is granted; attributes that may not be assigned make no difference; and a record that is
filled gets what may be assigned, in order, and nothing else. -/
theorem create_protected (p : Repository σ) (hhooks : Record.NoHooks p.session p.schema) :
    (∀ (data : Attributes) (t : σ × List Exchange), ∃ uuid now o w' sent,
      Record.Drawn p.session.world t.1 uuid now ∧
      (p.recorded.create data).run t = (o, (w', t.2 ++ sent)) ∧
      Record.Ends (p.Inserts (p.newRow data uuid now))
        (fun _ => (Text.trim p.schema.table).isEmpty = true) () (o.map fun _ => ()) sent ∧
      ∀ column v, (p.newRow data uuid now).get? column = some v →
        p.schema.Grants data uuid now column v) ∧
    (∀ data data' : Attributes,
      (∀ name, p.schema.isFillable name = true → data.get? name = data'.get? name) →
        p.create data = p.create data' ∧ p.newRow data = p.newRow data') ∧
    ∀ (r : Record) (given : List (String × Value)),
      r.fill given = r.forceFill (given.filter fun e => r.schema.isFillable e.1) ∧
      (∀ name, (∀ e ∈ given, r.schema.isFillable e.1 = true → e.1 ≠ name) →
        (r.fill given).get? name = r.get? name) ∧
      (r.fill given).snapshot = r.snapshot ∧ (r.fill given).relations = r.relations ∧
      (r.fill given).persisted = r.persisted ∧ (r.fill given).schema = r.schema := by
  refine ⟨fun data t => ?_, fun data data' hsame => ?_, fun r given => ?_⟩
  · obtain ⟨uuid, now, o, w', sent, hdrawn, hrun, hends⟩ := p.create_sends hhooks data t
    exact ⟨uuid, now, o, w', sent, hdrawn, hrun, hends, fun column v =>
      p.newRow_granted data uuid now⟩
  · have hmake := p.make_congr hsame
    unfold create newRow
    rw [hmake]
    exact ⟨rfl, rfl⟩
  · refine ⟨Record.fill_eq r given, fun name hname => ?_, ?_⟩
    · rw [Record.fill_eq]
      refine Record.get?_forceFill_of_notMem fun e he => ?_
      obtain ⟨hmem, hfillable⟩ := List.mem_filter.mp he
      exact hname e hmem hfillable
    · rw [Record.fill_eq, Record.forceFill_eq]
      exact ⟨rfl, rfl, rfl, rfl⟩

/-! ## A caller that wants too much -/

/-- Accounts in which a caller may not make itself an administrator. -/
def accounts : Schema :=
  { Schema.plain "accounts" with
    guarded := ["is_admin"]
    timestamps := some .standard
    setters := NameMap.ofList [("email", fun v => .text (v.display ++ "!"))] }

def accountSession : Session Script :=
  ⟨Script.world, .postgres, ⟨[]⟩, .empty, .none, .standard, 0⟩

/-- Sets attributes it may not set, and a moment that is overwritten. -/
def signup : Attributes :=
  NameMap.ofList [("email", .text "a"), ("id", .int64 1), ("is_admin", .bool true),
    ("updated_at", .text "never")]

def signupTexts : List (String × List String) :=
  [("INSERT INTO \"accounts\" (\"created_at\", \"email\", \"id\", \"updated_at\") " ++
      "VALUES ($1, $2, $3, $4)",
    ["1970-01-01T00:00:00.000Z", "a!", "88888888-8888-4888-8888-000000000000",
      "1970-01-01T00:00:00.000Z"])]

theorem create_protected_signup :
    Record.NoHooks (on accountSession accounts).session (on accountSession accounts).schema ∧
    ((((on accountSession accounts).create signup).run (Script.startingAt ⟨0, ⟨0, 0⟩⟩)).2.log.map
      fun q => match q with
        | .query st | .execute st => (st.sql, st.values.map Value.display)) = signupTexts ∧
    (∃ uuid now, Record.Drawn Script.world (Script.startingAt ⟨0, ⟨0, 0⟩⟩) uuid now ∧
      ((on accountSession accounts).newRow signup uuid now).get? "is_admin" = none) ∧
    (on accountSession accounts).create signup =
      (on accountSession accounts).create (NameMap.ofList [("email", .text "a"),
        ("updated_at", .text "never")]) := by
  have hhooks : Record.NoHooks (on accountSession accounts).session
      (on accountSession accounts).schema := fun _ _ _ => rfl
  obtain ⟨hsent, hsame, -⟩ := create_protected (on accountSession accounts) hhooks
  have hlog : ((((on accountSession accounts).create signup).run
      (Script.startingAt ⟨0, ⟨0, 0⟩⟩)).2.log.map fun q => match q with
        | .query st | .execute st => (st.sql, st.values.map Value.display)) = signupTexts := by
    decide +kernel
  refine ⟨hhooks, hlog, ?_, ?_⟩
  · obtain ⟨uuid, now, _, _, _, hdrawn, -, -, hgranted⟩ :=
      hsent signup (Script.startingAt ⟨0, ⟨0, 0⟩⟩, [])
    refine ⟨uuid, now, hdrawn, ?_⟩
    cases hget : ((on accountSession accounts).newRow signup uuid now).get? "is_admin" with
    | none => rfl
    | some v =>
      cases hgranted "is_admin" v hget with
      | assigned _ hfillable _ => exact absurd hfillable (by decide)
      | generated hcolumn _ _ => exact absurd hcolumn (by decide)
      | stamped ht hcolumn _ =>
        cases ht
        exact absurd hcolumn (by decide)
  · refine (hsame signup _ fun name hname => ?_).1
    have hkey : name ≠ "id" := by
      rintro rfl
      exact absurd hname (by decide)
    have hguarded : name ≠ "is_admin" := by
      rintro rfl
      exact absurd hname (by decide)
    have hgiven : signup.entries = [("email", .text "a"), ("id", .int64 1),
        ("is_admin", .bool true), ("updated_at", .text "never")] := rfl
    have hallowed :
        (NameMap.ofList [("email", Value.text "a"), ("updated_at", .text "never")]).entries =
          [("email", .text "a"), ("updated_at", .text "never")] := rfl
    simp only [NameMap.get?, hgiven, hallowed, Assoc.get?, if_neg hkey, if_neg hguarded]

end Repository

end RecordMapper
