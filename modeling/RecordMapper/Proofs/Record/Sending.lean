import RecordMapper.Proofs.Query.SameRows
import RecordMapper.Proofs.Record.Calls
import RecordMapper.Proofs.Record.Tracking

/-!
The statements that are sent for the row of a record.

* `Record.Addresses` says which key addresses the row of a record, and `Record.keyIs` is the
  condition that asks for it.
* `Record.Sends` says of a step that it sends at most one statement, which one, and how the step
  ends with it. There is one lemma for each way in which a row is written, `refresh_run` for
  reading it.
-/
namespace RecordMapper

set_option autoImplicit false

namespace Record

/-! ## Addressing a row -/

/-- The condition that the primary key is `key`. -/
def keyIs (schema : Schema) (key : Value) : Fragment :=
  Fragment.path schema.primaryKey ++ .text " = " :: Fragment.bind key

/-- `key` addresses the row of `r` in a statement that is sent for `sending`: it is the primary key
of the snapshot if that is set, and the current one otherwise. -/
structure Addresses (r sending : Record) (key : Value) : Prop where
  notNull : key.isNull = false
  stored : r.snapshot.get? r.schema.primaryKey = some key ∨
    present? (r.snapshot.get? r.schema.primaryKey) = none ∧
      sending.get? r.schema.primaryKey = some key

theorem addresses_iff {r sending : Record} {key : Value} (he : r.Edited sending) :
    r.Addresses sending key ↔ sending.storedKey? = some key := by
  have hkeyless : present? (r.snapshot.get? r.schema.primaryKey) = none →
      sending.storedKey? = sending.key? := by
    intro hnone
    refine storedKey?_eq_key? ?_
    rw [he.snapshot, he.schema]
    exact hnone
  constructor
  · rintro ⟨hnull, hstored | ⟨hnone, hcurrent⟩⟩
    · refine storedKey?_eq ?_
      rw [he.snapshot, he.schema]
      exact present?_eq_some.mpr ⟨hstored, hnull⟩
    · rw [hkeyless hnone]
      refine present?_eq_some.mpr ⟨?_, hnull⟩
      rw [he.schema]
      exact hcurrent
  · intro h
    cases hsnapshot : present? (r.snapshot.get? r.schema.primaryKey) with
    | some stored =>
      have hkey : sending.storedKey? = some stored := by
        refine storedKey?_eq ?_
        rw [he.snapshot, he.schema]
        exact hsnapshot
      rw [hkey] at h
      cases h
      obtain ⟨hget, hnull⟩ := present?_eq_some.mp hsnapshot
      exact ⟨hnull, .inl hget⟩
    | none =>
      rw [hkeyless hsnapshot] at h
      obtain ⟨hget, hnull⟩ := present?_eq_some.mp h
      rw [he.schema] at hget
      exact ⟨hnull, .inr ⟨hsnapshot, hget⟩⟩

/-! ## Statements of a row -/

section Statements

variable {schema : Schema} {d : Dialect} {key : Value}

theorem row_condition (schema : Schema) (d : Dialect) (hnull : key.isNull = false) :
    ((schema.allRows d).filterEq schema.primaryKey key).condition d =
      .ok (some (keyIs schema key)) := by
  have hlink : Condition.compile d (.compare (.column schema.primaryKey) .eq key) =
      .ok (some (keyIs schema key)) := by
    cases key <;> first | rfl | cases hnull
  have hblank : (keyIs schema key).isBlank = false := by
    unfold keyIs
    rw [Fragment.isBlank_append]
    exact Bool.and_false _
  have hchain : compileLinks d .empty ((schema.allRows d).filterEq schema.primaryKey key).filters =
      .ok ⟨keyIs schema key, false⟩ := by
    show compileLinks d .empty [⟨.and, .compare (.column schema.primaryKey) .eq key⟩] = _
    rw [compileLinks, Link.compile, hlink]
    rfl
  have hscopes : compileScopes d ((schema.allRows d).filterEq schema.primaryKey key).scopes =
      .ok [] := rfl
  rw [Query.condition, hchain, hscopes]
  show Except.ok (conjunction ⟨keyIs schema key, false⟩ _ []) = _
  unfold conjunction
  rw [hblank]
  rfl

theorem table_named (h : (Text.trim schema.table).isEmpty = false) :
    tableFragment schema.table = .ok (Fragment.path schema.table) := by
  unfold tableFragment
  rw [h]
  rfl

/-- Nothing is compiled for a table without a name. -/
theorem named_of_ok {α : Type} {rest : Fragment → Result α} {a : α}
    (h : (tableFragment schema.table >>= rest) = .ok a) :
    (Text.trim schema.table).isEmpty = false := by
  obtain ⟨t, ht, -⟩ := ok_of_bind h
  exact exists_tableFragment.mp ⟨t, ht⟩

/-- A row can be inserted into any table that has a name. -/
theorem exists_insertion (d : Dialect) (h : (Text.trim schema.table).isEmpty = false)
    (row : Attributes) : ∃ st, (schema.allRows d).insertion row = .ok st := by
  have ht : tableFragment (schema.allRows d).table = .ok (Fragment.path schema.table) :=
    table_named h
  unfold Query.insertion Query.insertionFragment
  rw [ht]
  cases row.isEmpty <;> exact ⟨_, rfl⟩

theorem row_updating (h : (Text.trim schema.table).isEmpty = false) (hnull : key.isNull = false)
    {assignments : Attributes} (ha : assignments.isEmpty = false) :
    ((schema.allRows d).filterEq schema.primaryKey key).updating assignments =
      .ok (((schema.allRows d).assigning assignments ++
        clause " WHERE " (some (keyIs schema key)) ++ []).statement d 0) := by
  have ht : tableFragment ((schema.allRows d).filterEq schema.primaryKey key).table =
      .ok (Fragment.path schema.table) := table_named h
  have hupdate := Query.updatingFragment_of_condition ha ht (row_condition schema d hnull)
  unfold Query.updating
  rw [hupdate]
  rfl

theorem row_deletion (h : (Text.trim schema.table).isEmpty = false) (hnull : key.isNull = false) :
    ((schema.allRows d).filterEq schema.primaryKey key).deletion =
      .ok (((schema.allRows d).removing ++ clause " WHERE " (some (keyIs schema key)) ++
        []).statement d 0) := by
  have ht : tableFragment ((schema.allRows d).filterEq schema.primaryKey key).table =
      .ok (Fragment.path schema.table) := table_named h
  have hdelete := Query.deletionFragment_of_condition ht (row_condition schema d hnull)
  unfold Query.deletion
  rw [hdelete]
  rfl

/-- Nothing but the name of the table keeps a statement for a row from being compiled. -/
theorem nameless_of_error {compiled : Result Statement} {f : Fault} (h : compiled = .error f)
    (hnamed : (Text.trim schema.table).isEmpty = false → ∃ st, compiled = .ok st) :
    (Text.trim schema.table).isEmpty = true := by
  cases hname : (Text.trim schema.table).isEmpty with
  | true => rfl
  | false =>
    obtain ⟨st, hst⟩ := hnamed hname
    rw [hst] at h
    cases h

/-- An update of the row under a key has no other condition. -/
theorem limited_row_updating (hnull : key.isNull = false) {assignments : Attributes}
    {st : Statement}
    (hst : ((schema.allRows d).filterEq schema.primaryKey key).updating assignments = .ok st) :
    st.Limited d (some (keyIs schema key)) ((schema.allRows d).assigning assignments) [] := by
  cases ha : assignments.isEmpty with
  | true =>
    obtain ⟨f, hf, -⟩ := ok_of_map hst
    rw [Query.updatingFragment, ha] at hf
    cases hf
  | false =>
    have hname : (Text.trim schema.table).isEmpty = false := by
      obtain ⟨f, hf, -⟩ := ok_of_map hst
      rw [Query.updatingFragment, ha] at hf
      exact named_of_ok hf
    rw [row_updating hname hnull ha] at hst
    rw [← Except.ok.inj hst]
    exact limited_statement d _ _ []

theorem limited_row_deletion (hnull : key.isNull = false) {st : Statement}
    (hst : ((schema.allRows d).filterEq schema.primaryKey key).deletion = .ok st) :
    st.Limited d (some (keyIs schema key)) (schema.allRows d).removing [] := by
  have hname : (Text.trim schema.table).isEmpty = false := by
    obtain ⟨f, hf, -⟩ := ok_of_map hst
    exact named_of_ok hf
  rw [row_deletion hname hnull] at hst
  rw [← Except.ok.inj hst]
  exact limited_statement d _ _ []

end Statements

/-! ## Stamping -/

/-- Setting the moment of the last change leaves a dirty record dirty. -/
theorem isDirty_stampedAt {r : Record} (now : Value) (h : r.isDirty = true) :
    (r.stampedAt now).isDirty = true := by
  unfold stampedAt
  split
  · next t ht =>
    split
    · exact h
    · next hclean =>
      obtain ⟨name, v, hv, hdiffers⟩ := isDirty_iff.mp h
      have hname : name ≠ t.updated := by
        rintro rfl
        refine hclean ?_
        unfold isAttributeDirty
        unfold differs at hdiffers
        rw [hv]
        cases hold : r.snapshot.get? t.updated with
        | none => rfl
        | some old =>
          rw [hold] at hdiffers
          cases hsame : v.same old with
          | false => simp only [hsame, Bool.not_false]
          | true =>
            have hback := Value.same_symm hsame
            simp only [hback] at hdiffers
            cases hdiffers
      refine isDirty_iff.mpr ⟨name, v, ?_, hdiffers⟩
      rw [get?_set, if_neg hname]
      exact hv
  · exact h

/-! ## Steps that send a statement -/

/-- How a step ends that sends one statement: refused before anything is sent, or as the database
answers. -/
inductive Ends {α : Type} (may : Request → Prop) (refuses : Fault → Prop) (answer : α) :
    Outcome α → List Exchange → Prop
  | refused {f : Fault} (h : refuses f) : Ends may refuses answer (.error (.fault f)) []
  | failed {request : Request} {stop : Halt} (h : may request) :
    Ends may refuses answer (.error stop) [⟨request, some stop⟩]
  | done {request : Request} (h : may request) :
    Ends may refuses answer (.ok answer) [⟨request, none⟩]

/-- The change ends so when it begins with the record `r` in the recorded world `t`. -/
def Sends {σ α : Type} (may : Request → Prop) (refuses : Fault → Prop) (answer : α)
    (c : Change (σ × List Exchange) Record α) (r : Record) (t : σ × List Exchange) : Prop :=
  ∃ o r' w' sent, (c.runOn r).run t = ((o, r'), (w', t.2 ++ sent)) ∧ Ends may refuses answer o sent

section Sends

variable {σ α β : Type} {may : Request → Prop} {refuses : Fault → Prop} {answer : α}
  {r r₁ : Record} {t t₁ : σ × List Exchange}

theorem sends_after {c : Change (σ × List Exchange) Record β}
    {f : β → Change (σ × List Exchange) Record α} {b : β}
    (hrun : (c.runOn r).run t = ((.ok b, r₁), t₁)) (hlog : t₁.2 = t.2)
    (h : Sends may refuses answer (f b) r₁ t₁) : Sends may refuses answer (c >>= f) r t := by
  obtain ⟨o, r', w', sent, hrest, hends⟩ := h
  refine ⟨o, r', w', sent, ?_, hends⟩
  rw [Change.run_bind_ok hrun, hrest, hlog]

theorem Sends.mono {may' : Request → Prop} {refuses' : Fault → Prop}
    {c : Change (σ × List Exchange) Record α} (h : Sends may refuses answer c r t)
    (hmay : ∀ q, may q → may' q) (hrefuses : ∀ f, refuses f → refuses' f) :
    Sends may' refuses' answer c r t := by
  obtain ⟨o, r', w', sent, hrun, hends⟩ := h
  refine ⟨o, r', w', sent, hrun, ?_⟩
  cases hends with
  | refused h => exact .refused (hrefuses _ h)
  | failed h => exact .failed (hmay _ h)
  | done h => exact .done (hmay _ h)

theorem sends_refused {c : Change (σ × List Exchange) Record α} {f : Fault}
    (hrun : (c.runOn r).run t = ((.error (.fault f), r₁), t)) (h : refuses f) :
    Sends may refuses answer c r t :=
  ⟨_, r₁, t.1, [], by rw [hrun, List.append_nil], .refused h⟩

/-- A statement is sent, and what follows it sends nothing and succeeds. -/
theorem sends_statement {a : Action (σ × List Exchange) β} {o : Outcome β} {w' : σ}
    {request : Request} {f : β → Change (σ × List Exchange) Record α}
    (hrun : a.run t = (o, (w', t.2 ++ [⟨request, stopOf o⟩]))) (h : may request)
    (hrest : ∀ b t', ∃ r', ((f b).runOn r).run t' = ((.ok answer, r'), t')) :
    Sends may refuses answer (Change.ofAction a >>= f) r t := by
  cases o with
  | error stop =>
    have hstop : ((Change.ofAction a : Change (σ × List Exchange) Record β).runOn r).run t =
        ((.error stop, r), (w', t.2 ++ [⟨request, some stop⟩])) := by
      rw [Change.run_ofAction, hrun]
      rfl
    exact ⟨.error stop, r, w', _, Change.run_bind_error hstop, .failed h⟩
  | ok b =>
    obtain ⟨r', hr'⟩ := hrest b (w', t.2 ++ [⟨request, none⟩])
    exact ⟨.ok answer, r', w', _, (Change.run_ofAction_bind_ok hrun).trans hr', .done h⟩

/-- What follows the step only adds an answer. -/
theorem sends_answer {row : Change (σ × List Exchange) Record Unit}
    {f : Change (σ × List Exchange) Record α} (h : Sends may refuses () row r t)
    (hrest : ∀ r t', ∃ r', (f.runOn r).run t' = ((.ok answer, r'), t')) :
    Sends may refuses answer (row >>= fun _ => f) r t := by
  obtain ⟨o, r₁, w', sent, hrow, hends⟩ := h
  cases hends with
  | refused h => exact ⟨_, r₁, w', [], Change.run_bind_error hrow, .refused h⟩
  | failed h => exact ⟨_, r₁, w', _, Change.run_bind_error hrow, .failed h⟩
  | @done request h =>
    obtain ⟨r', hr'⟩ := hrest r₁ (w', t.2 ++ [⟨request, none⟩])
    exact ⟨.ok answer, r', w', _, (Change.run_bind_ok hrow).trans hr', .done h⟩

end Sends

/-! ## The statements of a row -/

/-- Why no statement is sent although the hooks have passed. -/
inductive Refusal (r : Record) : Fault → Prop
  | keyless : Refusal r (.misconfigured (.noPersistedKey r.schema.table))
  | unmarked : Refusal r (.misconfigured (.noSoftDelete r.schema.table))
  | nameless {f : Fault} (h : (Text.trim r.schema.table).isEmpty = true) : Refusal r f

section Rows

variable {σ : Type} (s : Session σ) {r : Record} (t : σ × List Exchange)

theorem steady_recorded : Steady s.recorded.world Prod.snd := ⟨fun _ => rfl, fun _ => rfl⟩

/-- Nothing but the name of the table can keep a row from being inserted. -/
theorem insertRow_sends_readied (r : Record) :
    ∃ uuid now, Drawn s.world t.1 uuid now ∧
      Sends (fun q => ∃ st, q = .execute st ∧
        (r.schema.allRows s.dialect).insertion (r.readied uuid now).insertable = .ok st)
        (fun _ => (Text.trim r.schema.table).isEmpty = true) () (insertRow s.recorded) r t := by
  obtain ⟨uuid, now, t₁, ⟨huuid, t₀, hfrom, hnow⟩, hlog, hrun⟩ :=
    insertRow_eq (steady_recorded s) r t
  have hdrawn : Drawn s.world t.1 uuid now :=
    ⟨huuid, t₀.1, hfrom.imp (congrArg Prod.fst) (congrArg Prod.fst), hnow⟩
  refine ⟨uuid, now, hdrawn, ?_⟩
  unfold Query.insert at hrun
  unfold Sends
  rw [hrun, ← hlog]
  cases hst : (r.schema.allRows s.dialect).insertion (r.readied uuid now).insertable with
  | error f =>
    have hstop : Query.insertion (r.schema.allRows s.recorded.dialect)
        (r.readied uuid now).insertable = .error f := hst
    rw [hstop]
    exact sends_refused rfl
      (nameless_of_error hst fun hname => exists_insertion s.dialect hname _)
  | ok st =>
    have hsend : Query.insertion (r.schema.allRows s.recorded.dialect)
        (r.readied uuid now).insertable = .ok st := hst
    rw [hsend]
    exact sends_statement (s.run_execute_recorded st t₁) ⟨st, rfl, rfl⟩
      fun e t' => ⟨_, Change.run_modify (takeKey e) _ t'⟩

theorem insertRow_sends (r : Record) :
    Sends (fun q => ∃ row st, q = .execute st ∧
      (r.schema.allRows s.dialect).insertion row = .ok st) (Refusal r) () (insertRow s.recorded)
      r t := by
  obtain ⟨uuid, now, -, hsends⟩ := insertRow_sends_readied s t r
  exact hsends.mono (fun q hq => ⟨_, hq⟩) fun f hname => .nameless hname

theorem affecting_recorded (st : Statement) :
    (Query.affecting s.recorded (.ok st)).run t =
      ((s.world.execute st t.1).1.map Execution.affected, ((s.world.execute st t.1).2,
        t.2 ++ [⟨.execute st, stopOf ((s.world.execute st t.1).1.map Execution.affected)⟩])) := by
  have hsend := s.run_execute_recorded st t
  show (s.recorded.execute st >>= fun e => pure e.affected).run t = _
  rcases hrun : s.world.execute st t.1 with ⟨stop | e, w'⟩
  · rw [hrun] at hsend
    exact Action.run_bind_error hsend
  · rw [hrun] at hsend
    exact Action.run_bind_ok hsend

/-- An update of the row of a record, and of no other. -/
def UpdatesRow (d : Dialect) (r sending : Record) (q : Request) : Prop :=
  ∃ key assignments st, q = .execute st ∧ r.Addresses sending key ∧
    st.Limited d (some (keyIs r.schema key)) ((r.schema.allRows d).assigning assignments) []

/-- A deletion of the row of a record, and of no other. -/
def DeletesRow (d : Dialect) (r sending : Record) (q : Request) : Prop :=
  ∃ key st, q = .execute st ∧ r.Addresses sending key ∧
    st.Limited d (some (keyIs r.schema key)) (r.schema.allRows d).removing []

/-- The update of the row under the key that is stored, sent for the record `r₁`. -/
theorem update_sends {α : Type} {r₁ : Record} {key : Value} {assignments : Attributes}
    {f : Nat → Change (σ × List Exchange) Record α} {answer : α} (he : r.Edited r₁)
    (hkey : r₁.storedKey? = some key) (ha : assignments.isEmpty = false)
    {r₂ : Record} (hschema : r₂.schema = r.schema)
    (hrest : ∀ n t', ∃ r', ((f n).runOn r₂).run t' = ((.ok answer, r'), t')) :
    Sends (UpdatesRow s.dialect r r₁) (Refusal r) answer
      (Change.ofAction ((r₂.rowQuery s.recorded key).update s.recorded assignments) >>= f) r₂
      t := by
  have haddress := (addresses_iff he).mpr hkey
  have hquery : r₂.rowQuery s.recorded key =
      (r.schema.allRows s.dialect).filterEq r.schema.primaryKey key := by
    unfold rowQuery
    rw [hschema]
    rfl
  rw [hquery]
  unfold Query.update Query.affecting
  cases hst : ((r.schema.allRows s.dialect).filterEq r.schema.primaryKey key).updating
      assignments with
  | error fault =>
    exact sends_refused rfl
      (.nameless (nameless_of_error hst fun hname => ⟨_, row_updating hname haddress.notNull ha⟩))
  | ok st =>
    have hlimited := limited_row_updating haddress.notNull hst
    exact sends_statement (affecting_recorded s t st)
      ⟨key, assignments, st, rfl, haddress, hlimited⟩ hrest

theorem delete_sends {α : Type} {r₁ : Record} {key : Value}
    {f : Nat → Change (σ × List Exchange) Record α} {answer : α} (he : r.Edited r₁)
    (hkey : r₁.storedKey? = some key)
    (hrest : ∀ n t', ∃ r', ((f n).runOn r₁).run t' = ((.ok answer, r'), t')) :
    Sends (DeletesRow s.dialect r r₁) (Refusal r) answer
      (Change.ofAction ((r₁.rowQuery s.recorded key).delete s.recorded) >>= f) r₁ t := by
  have haddress := (addresses_iff he).mpr hkey
  have hquery : r₁.rowQuery s.recorded key =
      (r.schema.allRows s.dialect).filterEq r.schema.primaryKey key := by
    unfold rowQuery
    rw [he.schema]
    rfl
  rw [hquery]
  unfold Query.delete
  cases hst : ((r.schema.allRows s.dialect).filterEq r.schema.primaryKey key).deletion with
  | error fault =>
    exact sends_refused rfl
      (.nameless (nameless_of_error hst fun hname => ⟨_, row_deletion hname haddress.notNull⟩))
  | ok st =>
    have hlimited := limited_row_deletion haddress.notNull hst
    exact sends_statement (affecting_recorded s t st) ⟨key, st, rfl, haddress, hlimited⟩ hrest

/-- The key is that of the record with the moment of its last change set. -/
theorem updateRow_sends {r₁ : Record} (he : r.Edited r₁) (hdirty : r₁.isDirty = true) :
    Sends (fun q => ∃ text, UpdatesRow s.dialect r (r₁.stampedAt (.text text)) q) (Refusal r) ()
      (updateRow s.recorded) r₁ t := by
  obtain ⟨text, t₁, hstamp, hlog⟩ := stampChanged_eq (steady_recorded s) r₁ t
  have hedited : r.Edited (r₁.stampedAt (.text text)) :=
    he.trans (stamped_stampedAt r₁ text).edited
  have hstill : (r₁.stampedAt (.text text)).dirty.isEmpty = false := by
    have h := isDirty_stampedAt (.text text) hdirty
    unfold isDirty at h
    simpa using h
  unfold updateRow
  refine sends_after hstamp hlog (sends_after rfl rfl ?_)
  cases hkey : (r₁.stampedAt (.text text)).storedKey? with
  | none =>
    have hrefused : (r₁.stampedAt (.text text)).requireKey =
        .error (.misconfigured (.noPersistedKey r.schema.table)) := by
      unfold requireKey
      rw [hkey, hedited.schema]
    rw [hrefused]
    exact sends_refused rfl .keyless
  | some key =>
    have hread : (r₁.stampedAt (.text text)).requireKey = .ok key := by
      unfold requireKey
      rw [hkey]
    rw [hread]
    refine sends_after rfl rfl ?_
    have hsend : Sends (UpdatesRow s.dialect r (r₁.stampedAt (.text text))) (Refusal r) ()
        (Change.ofAction (((r₁.stampedAt (.text text)).rowQuery s.recorded key).update s.recorded
          (r₁.stampedAt (.text text)).dirty) >>= fun _ => pure ()) (r₁.stampedAt (.text text)) t₁ :=
      update_sends s t₁ hedited hkey hstill hedited.schema fun n t' => ⟨_, rfl⟩
    exact hsend.mono (fun q hq => ⟨text, hq⟩) fun f hf => hf

theorem deletionMark_nonempty (schema : Schema) (column : String) (now : Value) :
    (deletionMark schema column now).isEmpty = false := by
  have hinsert : ∀ (m : Attributes) name, (m.insert name now).isEmpty = false := by
    intro m name
    have hget : (m.insert name now).get? name = some now := by
      rw [NameMap.get?_insert, if_pos rfl]
    exact NameMap.isEmpty_of_get? hget
  unfold deletionMark
  split <;> exact hinsert _ _

/-- A row is marked as deleted by an update, and deleted otherwise. The key is that of the record
the hooks leave. -/
theorem dropRow_sends {r₁ : Record} {key : Value} (force : Bool) (he : r.Edited r₁)
    (hkey : r₁.storedKey? = some key) :
    Sends (fun q => force = false ∧ UpdatesRow s.dialect r r₁ q ∨ DeletesRow s.dialect r r₁ q)
      (Refusal r) () (dropRow s.recorded r₁ force key) r₁ t := by
  have hdelete : Sends (DeletesRow s.dialect r r₁) (Refusal r) ()
      (deleteRow s.recorded key) r₁ t := by
    unfold deleteRow
    exact sends_after rfl rfl (delete_sends s t he hkey fun n t' => ⟨_, rfl⟩)
  unfold dropRow
  split
  · next column hcolumn =>
    unfold trashRow
    refine sends_after rfl rfl (sends_after rfl rfl (sends_after rfl rfl ?_))
    exact (update_sends s _ he hkey (deletionMark_nonempty _ column _)
      ((schema_setDeletionMark column _ r₁).trans he.schema) fun n t' => ⟨_, rfl⟩).mono
        (fun q hq => .inl ⟨rfl, hq⟩) fun f hf => hf
  · exact hdelete.mono (fun q hq => .inr hq) fun f hf => hf

/-- A query for the row of a record. -/
def ReadsRow (d : Dialect) (r : Record) (q : Request) : Prop :=
  ∃ key st, q = .query st ∧ r.Addresses r key ∧
    (((r.schema.allRows d).filterEq r.schema.primaryKey key).take 1).statement = .ok st

theorem first_recorded (q : Query) :
    ∃ o w' sent, (q.first? s.recorded).run t = (o, (w', t.2 ++ sent)) ∧
      (sent = [] ∨ ∃ st stop, (q.take 1).statement = .ok st ∧ sent = [⟨.query st, stop⟩]) := by
  unfold Query.first? Query.rows
  cases hst : (q.take 1).statement with
  | error f =>
    refine ⟨.error (.fault f), t.1, [], ?_, .inl rfl⟩
    rw [List.append_nil]
    rfl
  | ok st =>
    have hsend := s.run_query_recorded st t
    rcases hrun : s.world.query st t.1 with ⟨stop | found, w'⟩
    · rw [hrun] at hsend
      exact ⟨_, w', _, Action.run_bind_error hsend, .inr ⟨st, _, rfl, rfl⟩⟩
    · rw [hrun] at hsend
      exact ⟨_, w', _, Action.run_bind_ok hsend, .inr ⟨st, _, rfl, rfl⟩⟩

/-- What becomes of a record whose row was read again. -/
def refilled (r : Record) (key : Value) : Option Row → Change (σ × List Exchange) Record Unit
  | some row => .modify fun r => r.refill row
  | none => .ofResult (.error (r.schema.missingRow key))

theorem refresh_found {key : Value} (hkey : r.storedKey? = some key) :
    ((refresh s.recorded).runOn r).run t =
      ((Change.ofAction ((r.schema.allRows s.dialect).find? s.recorded key) >>=
        refilled r key).runOn r).run t := by
  unfold refresh
  rw [Change.run_current_bind, requireKey, hkey, Change.run_ofResult_bind_ok]
  refine congrArg (fun c => ((Change.ofAction ((r.schema.allRows s.dialect).find? s.recorded key)
    >>= c).runOn r).run t) (funext fun found => ?_)
  cases found <;> rfl

theorem refilled_quiet (key : Value) (found : Option Row) (r : Record) (t : σ × List Exchange) :
    ∃ o r', ((refilled r key found).runOn r).run t = ((o, r'), t) := by
  cases found with
  | none => exact ⟨_, _, rfl⟩
  | some row => exact ⟨_, _, rfl⟩

/-- Reading a row again sends nothing or the one query. -/
theorem refresh_run (r : Record) :
    ∃ o r' w' sent, ((refresh s.recorded).runOn r).run t = ((o, r'), (w', t.2 ++ sent)) ∧
      (sent = [] ∨ ∃ x, sent = [x] ∧ ReadsRow s.dialect r x.request) := by
  cases hkey : r.storedKey? with
  | none =>
    refine ⟨.error (.fault (.misconfigured (.noPersistedKey r.schema.table))), r, t.1, [], ?_,
      .inl rfl⟩
    unfold refresh
    rw [Change.run_current_bind, requireKey, hkey, Change.run_ofResult_bind_error, List.append_nil]
  | some key =>
    have haddress := (addresses_iff (Edited.refl r)).mpr hkey
    obtain ⟨o, w', sent, hfind, hsent⟩ := first_recorded s t
      ((r.schema.allRows s.dialect).filterEq r.schema.primaryKey key)
    have hmay : sent = [] ∨ ∃ x, sent = [x] ∧ ReadsRow s.dialect r x.request := by
      rcases hsent with hsent | ⟨st, stop, hst, hsent⟩
      · exact .inl hsent
      · exact .inr ⟨_, hsent, key, st, rfl, haddress, hst⟩
    have hrun : ((Change.ofAction ((r.schema.allRows s.dialect).find? s.recorded key) :
        Change (σ × List Exchange) Record (Option Row)).runOn r).run t =
          ((o, r), (w', t.2 ++ sent)) := by
      rw [Change.run_ofAction]
      exact congrArg (fun ending => ((ending.1, r), ending.2)) hfind
    rw [refresh_found s t hkey]
    cases o with
    | error stop => exact ⟨.error stop, r, w', sent, Change.run_bind_error hrun, hmay⟩
    | ok found =>
      obtain ⟨o, r', hrest⟩ := refilled_quiet key found r (w', t.2 ++ sent)
      exact ⟨o, r', w', sent, (Change.run_bind_ok hrun).trans hrest, hmay⟩

end Rows

end Record

end RecordMapper
