import Mathlib.Data.List.Perm.Basic
import RecordMapper.Proofs.Related.Sync
import RecordMapper.Proofs.Session.Defaults

/-!
Links with attributes.

* A link that is added is one row, in which its keys win over attributes of their names. A link that
  stays is updated with its attributes, whatever their names are.
* `LinkEntry.keepsKeys`: the attributes of a wanted link give its key columns no other keys.
* `sync_keeps_keys`: if the links that stay keep their keys, then the linked keys are the requested
  ones, and only links of the parent are touched. `sync_moves_link` is a link that is moved.
-/
namespace RecordMapper

set_option autoImplicit false

/-! ## Batches of rows -/

namespace BoundRelation

/-- There is at least one row in a batch, and all of its rows have its columns. -/
def IsBatched (found : Batches) : Prop :=
  ∀ batch ∈ found, batch.2 ≠ [] ∧ ∀ row ∈ batch.2, row.names = batch.1

theorem addToBatch_perm (row : Attributes) (found : Batches) :
    ((addToBatch row found).flatMap Prod.snd).Perm (row :: found.flatMap Prod.snd) := by
  induction found with
  | nil => exact .refl _
  | cons batch rest ih =>
    obtain ⟨names, rows⟩ := batch
    rw [addToBatch]
    split
    · exact .refl _
    · split
      · simp only [List.flatMap_cons, List.append_assoc, List.singleton_append]
        exact List.perm_middle
      · exact (ih.append_left rows).trans List.perm_middle

theorem isBatched_addToBatch (row : Attributes) {found : Batches} (h : IsBatched found) :
    IsBatched (addToBatch row found) := by
  have hown : ∀ r ∈ [row], r.names = row.names := by
    intro r hr
    rw [List.mem_singleton.mp hr]
  induction found with
  | nil =>
    intro batch hbatch
    rw [List.mem_singleton.mp hbatch]
    exact ⟨List.cons_ne_nil row [], hown⟩
  | cons first rest ih =>
    obtain ⟨names, rows⟩ := first
    obtain ⟨hfirst, hrest⟩ := List.forall_mem_cons.mp h
    rw [addToBatch]
    split
    · exact List.forall_mem_cons.mpr ⟨⟨List.cons_ne_nil row [], hown⟩, h⟩
    · split
      · next hnames =>
        refine List.forall_mem_cons.mpr ⟨⟨by simp, fun r hr => ?_⟩, hrest⟩
        rcases List.mem_append.mp hr with hr | hr
        · exact hfirst.2 r hr
        · rw [hown r hr, hnames]
      · exact List.forall_mem_cons.mpr ⟨hfirst, ih hrest⟩

theorem batches_spec (rows : List Attributes) :
    IsBatched (batches rows) ∧ ((batches rows).flatMap Prod.snd).Perm rows := by
  have hmore : ∀ (more : List Attributes) (found : Batches), IsBatched found →
      IsBatched (more.foldl (fun found row => addToBatch row found) found) ∧
        ((more.foldl (fun found row => addToBatch row found) found).flatMap Prod.snd).Perm
          (more ++ found.flatMap Prod.snd) := by
    intro more
    induction more with
    | nil => exact fun found hfound => ⟨hfound, .refl _⟩
    | cons row rest ih =>
      intro found hfound
      obtain ⟨hbatched, hperm⟩ := ih _ (isBatched_addToBatch row hfound)
      refine ⟨hbatched, hperm.trans ?_⟩
      exact ((addToBatch_perm row found).append_left rest).trans List.perm_middle
  obtain ⟨hbatched, hperm⟩ := hmore rows [] (fun batch hbatch => nomatch hbatch)
  rw [List.flatMap_nil, List.append_nil] at hperm
  exact ⟨hbatched, hperm⟩

end BoundRelation

/-! ## Attributes and keys -/

/-- Whether the attributes of a wanted link give its key columns the keys that they have in it. -/
def LinkEntry.keepsKeys (b : BoundRelation) (p : Pivot) (e : LinkEntry) : Bool :=
  (e.attributes.get? p.localKey).all b.key.sharesKey &&
    (e.attributes.get? p.foreignKey).all e.id.sharesKey

/-- A column that is assigned nothing but values of the key that it had has that key. -/
theorem sharesKey_assigned {given before after : Attributes} {name : String} {v : Value}
    (h : Assigned given.entries before after) (hbefore : v.sharesKey (cell before name) = true)
    (hgiven : (given.get? name).all v.sharesKey = true) : v.sharesKey (cell after name) = true := by
  by_cases hnamed : ∃ e ∈ given.entries, e.1 = name
  · obtain ⟨e, he, rfl, hassigned⟩ := h.assigned name hnamed
    have hget : given.get? e.1 = some e.2 := Assoc.get?_of_mem given.ascending he
    rw [hget, Option.all_some] at hgiven
    obtain ⟨k, -, hk⟩ := Value.sharesKey_iff.mp hgiven
    rcases hassigned with hdefault | hafter
    · rw [BoundRelation.not_isDefault_of_key? (Option.isSome_of_eq_some hk)] at hdefault
      cases hdefault
    · unfold cell
      rw [hafter]
      exact hgiven
  · have hkept : after.get? name = before.get? name := by
      apply h.kept
      intro e he hname
      exact hnamed ⟨e, he, hname⟩
    unfold cell at hbefore ⊢
    rw [hkept]
    exact hbefore

namespace BoundRelation

variable {σ : Type}

/-- Whether the parent has a link to an id. -/
def hasLink (b : BoundRelation) (p : Pivot) (rows : List Attributes) (id : Value) : Bool :=
  rows.any (b.isLinkTo p [id])

theorem hasLink_iff {b : BoundRelation} {p : Pivot} {rows : List Attributes} {id : Value} :
    b.hasLink p rows id = true ↔ ∃ k, id.key? = some k ∧ b.LinkedTo p rows k := by
  unfold hasLink
  rw [List.any_eq_true]
  constructor
  · rintro ⟨row, hrow, hlink⟩
    obtain ⟨howns, k, hcell, id', hid', hk⟩ := isLinkTo_iff.mp hlink
    rw [List.mem_singleton.mp hid'] at hk
    exact ⟨k, hk, row, hrow, howns, hcell⟩
  · rintro ⟨k, hk, row, hrow, howns, hcell⟩
    exact ⟨row, hrow, isLinkTo_iff.mpr ⟨howns, k, hcell, id, List.mem_singleton_self id, hk⟩⟩

/-! ## What an update keeps -/

/-- The linked keys are what they were, and so are the rows of other parents. -/
structure SameLinks (b : BoundRelation) (p : Pivot) (before after : List Attributes) : Prop where
  linked : ∀ k, b.LinkedTo p after k ↔ b.LinkedTo p before k
  others : (after.filter fun row => !b.owns p row).Perm (before.filter fun row => !b.owns p row)

/-- A row that is what it was, or a link of the parent to the key to which it was one. -/
def KeepsLink (b : BoundRelation) (p : Pivot) (before after : Attributes) : Prop :=
  after = before ∨ b.owns p before = true ∧ b.owns p after = true ∧
    (cell after p.foreignKey).key? = (cell before p.foreignKey).key?

section Keeping

variable {b : BoundRelation} {p : Pivot} {before rows after : List Attributes}

theorem SameLinks.refl (rows : List Attributes) : b.SameLinks p rows rows :=
  ⟨fun _ => .rfl, .refl _⟩

theorem SameLinks.trans (h : b.SameLinks p before rows) (h' : b.SameLinks p rows after) :
    b.SameLinks p before after :=
  ⟨fun k => (h'.linked k).trans (h.linked k), h'.others.trans h.others⟩

theorem filter_others_of_keepsLink (h : List.Forall₂ (b.KeepsLink p) before rows) :
    (rows.filter fun row => !b.owns p row) = before.filter fun row => !b.owns p row := by
  induction h with
  | nil => rfl
  | @cons row row' before rows hrow h ih =>
    rcases hrow with rfl | ⟨hold, hnew, -⟩
    · rw [List.filter_cons, List.filter_cons, ih]
    · rw [List.filter_cons, List.filter_cons, hold, hnew, ih]
      rfl

theorem sameLinks_of_keepsLink (h : List.Forall₂ (b.KeepsLink p) before rows)
    (hperm : after.Perm rows) : b.SameLinks p before after := by
  constructor
  · intro k
    constructor
    · rintro ⟨row', hrow', howns, hk⟩
      obtain ⟨row, hrow, rfl | ⟨hold, -, hkey⟩⟩ := exists_left_of_mem h (hperm.mem_iff.mp hrow')
      · exact ⟨row', hrow, howns, hk⟩
      · exact ⟨row, hrow, hold, hkey ▸ hk⟩
    · rintro ⟨row, hrow, howns, hk⟩
      obtain ⟨row', hrow', rfl | ⟨-, hnew, hkey⟩⟩ := exists_left_of_mem h.flip hrow
      · exact ⟨row', hperm.mem_iff.mpr hrow', howns, hk⟩
      · exact ⟨row', hperm.mem_iff.mpr hrow', hnew, hkey ▸ hk⟩
  · rw [← filter_others_of_keepsLink h]
    exact hperm.filter _

/-- The update of a link with attributes that keep its keys. -/
theorem sameLinks_updated {e : LinkEntry} (hkeeps : e.keepsKeys b p = true)
    (h : TableCommand.EffectOpen Value.sharesKey (.update p.table e.attributes.entries
      [(p.localKey, [b.key]), (p.foreignKey, [e.id])]) before after) :
    b.SameLinks p before after := by
  obtain ⟨changed, hchanged, hperm⟩ := h
  obtain ⟨hlocal, hforeign⟩ := Bool.and_eq_true_iff.mp hkeeps
  refine sameLinks_of_keepsLink (hchanged.imp fun row row' hrow => ?_) hperm
  rw [meets_linksTo] at hrow
  split at hrow
  · next hlink =>
    obtain ⟨howns, k, hk, hrequested⟩ := isLinkTo_iff.mp hlink
    obtain ⟨id, hid, hidk⟩ := hrequested
    rw [List.mem_singleton.mp hid] at hidk
    have hnew := sharesKey_assigned hrow (Value.sharesKey_iff.mpr ⟨k, hidk, hk⟩) hforeign
    obtain ⟨l, hl, hcell⟩ := Value.sharesKey_iff.mp hnew
    refine .inr ⟨howns, sharesKey_assigned hrow howns hlocal, ?_⟩
    rw [hcell, hk, key_unique hl hidk]
  · exact .inl hrow

end Keeping

/-! ## What is sent -/

/-- Whether a statement touches no rows but links of the parent. -/
def TouchesOwn (b : BoundRelation) (p : Pivot) (st : Statement) : Prop :=
  ∃ c, TableCommand.readOpen b.query.dialect st = some c ∧
    ∀ row, c.TouchesOpen Value.sharesKey row → b.owns p row = true

/-- Nothing was sent but statements that touch links of the parent. -/
def WritesOwn (b : BoundRelation) (p : Pivot) (before after : Ledger) : Prop :=
  ∃ writes, after = before.writing writes after.rows ∧ ∀ st ∈ writes, b.TouchesOwn p st

section Writing

variable {b : BoundRelation} {p : Pivot} {l l₁ l₂ : Ledger}

theorem writesOwn_refl (l : Ledger) : b.WritesOwn p l l := by
  refine ⟨[], ?_, fun st hst => nomatch hst⟩
  unfold Ledger.writing
  rw [List.map_nil, List.append_nil]

theorem WritesOwn.trans (h : b.WritesOwn p l l₁) (h' : b.WritesOwn p l₁ l₂) :
    b.WritesOwn p l l₂ := by
  obtain ⟨writes, hview, hown⟩ := h
  obtain ⟨writes', hview', hown'⟩ := h'
  refine ⟨writes ++ writes', ?_, fun st hst => ?_⟩
  · rw [hview', hview]
    simp only [Ledger.writing, List.map_append, List.append_assoc]
  · rcases List.mem_append.mp hst with hst | hst
    · exact hown st hst
    · exact hown' st hst

end Writing

section Statements

open RecordMapper.Action Session

variable {view : σ → Ledger} {s : Session σ} {b : BoundRelation} {p : Pivot}

theorem gives_insertBatches {d : Dialect} {table : String} {eq : Value → Value → Bool}
    (h : Defaulting s.world d table eq view) (htable : (Text.trim table).isEmpty = false)
    {found : Batches} (hbatched : IsBatched found) (hcolumns : ∀ batch ∈ found, batch.1 ≠ [])
    (w : σ) :
    Gives view (insertBatches s (.on table d) found) w fun _ w' =>
      ∃ writes added, view w' = (view w).writing writes (view w').rows ∧
        List.Forall₂ (fun given row => HoldsGiven given.names given.values row)
          (found.flatMap Prod.snd) added ∧
        (view w').rows.Perm ((view w).rows ++ added) ∧
        ∀ st ∈ writes, ∃ c, TableCommand.readOpen d st = some c ∧
          ∀ row, c.TouchesOpen eq row →
            ∃ given ∈ found.flatMap Prod.snd, HoldsGiven given.names given.values row := by
  induction found generalizing w with
  | nil =>
    refine gives_pure ⟨[], [], ?_, .nil, ?_, fun st hst => nomatch hst⟩
    · unfold Ledger.writing
      rw [List.map_nil, List.append_nil]
    · rw [List.append_nil]
  | cons batch rest ih =>
    obtain ⟨names, rows⟩ := batch
    obtain ⟨⟨hrows, hnames⟩, hrest⟩ := List.forall_mem_cons.mp hbatched
    obtain ⟨hfirst, hothers⟩ := List.forall_mem_cons.mp hcolumns
    obtain ⟨st, hst, hread⟩ := Query.readOf_batchInsertion (q := .on table d) htable hfirst hrows
      hnames fun row _ v _ => Token.readOrDefault_bind v
    refine (gives_ofResult_bind hst (h.gives_writeOpen hread rfl w)).bind fun e w₁ hw₁ => ?_
    obtain ⟨after, ⟨added, hadded, hperm⟩, hview₁⟩ := hw₁
    refine (ih hrest hothers w₁).bind fun n w₂ hw₂ => gives_pure ?_
    obtain ⟨writes, more, hview₂, hmore, hperm₂, htouch⟩ := hw₂
    rw [List.forall₂_map_left_iff] at hadded
    have hgiven : List.Forall₂ (fun given row => HoldsGiven given.names given.values row)
        rows added :=
      ((List.forall₂_and_left _ _).mpr ⟨hnames, hadded⟩).imp fun given row hrow => by
        rw [hrow.1]
        exact hrow.2
    refine ⟨st :: writes, added ++ more, ?_, List.rel_append hgiven hmore, ?_, fun st' hst' => ?_⟩
    · rw [hview₂, hview₁]
      simp only [Ledger.writing, List.map_cons, List.append_assoc, List.singleton_append,
        List.map_nil]
    · rw [hview₁] at hperm₂
      refine hperm₂.trans ?_
      rw [← List.append_assoc]
      exact hperm.append_right more
    · rcases List.mem_cons.mp hst' with rfl | hst'
      · refine ⟨_, hread, fun row hrow => ?_⟩
        obtain ⟨values, hvalues, hholds⟩ := hrow
        obtain ⟨given, hmem, rfl⟩ := List.mem_map.mp hvalues
        refine ⟨given, List.mem_append_left _ hmem, ?_⟩
        rw [hnames given hmem]
        exact hholds
      · obtain ⟨c, hc, htouches⟩ := htouch st' hst'
        refine ⟨c, hc, fun row hrow => ?_⟩
        obtain ⟨given, hmem, hholds⟩ := htouches row hrow
        exact ⟨given, List.mem_append_right _ hmem, hholds⟩

theorem get?_linkRow_foreign (e : LinkEntry) :
    (b.linkRow p e).get? p.foreignKey = some e.id := by
  unfold linkRow
  rw [NameMap.get?_insert, if_pos rfl]

theorem get?_linkRow_local (hne : p.localKey ≠ p.foreignKey) (e : LinkEntry) :
    (b.linkRow p e).get? p.localKey = some b.key := by
  unfold linkRow
  rw [NameMap.get?_insert, if_neg hne, NameMap.get?_insert, if_pos rfl]

/-- A row that was added for a wanted link is one, whatever its attributes are. -/
theorem isLink_of_given (hb : b.Linkable p) {e : LinkEntry} (hid : e.id.key?.isSome = true)
    {row : Attributes}
    (h : HoldsGiven (b.linkRow p e).names (b.linkRow p e).values row) : b.IsLink p e.id row :=
  ⟨holdsGiven_names_values h (get?_linkRow_local hb.columns e) hb.notDefault,
    holdsGiven_names_values h (get?_linkRow_foreign e) (not_isDefault_of_key? hid)⟩

theorem gives_insertEntries
    (h : Defaulting s.world b.query.dialect p.table Value.sharesKey view) (hb : b.Linkable p)
    {entries : List LinkEntry} (hids : ∀ e ∈ entries, e.id.key?.isSome = true) (w : σ) :
    Gives view (b.insertLinks s entries) w fun _ w' =>
      b.WritesOwn p (view w) (view w') ∧
      ∃ links, List.Forall₂ (b.IsLink p) (entries.map LinkEntry.id) links ∧
        (view w').rows.Perm ((view w).rows ++ links) := by
  cases entries with
  | nil =>
    refine gives_pure ⟨writesOwn_refl _, [], .nil, ?_⟩
    rw [List.append_nil]
  | cons e rest =>
    obtain ⟨hbatched, hperm⟩ := batches_spec ((e :: rest).map (b.linkRow p))
    have hmem : ∀ given ∈ (batches ((e :: rest).map (b.linkRow p))).flatMap Prod.snd,
        ∃ entry ∈ e :: rest, b.linkRow p entry = given := by
      intro given hgiven
      exact List.mem_map.mp (hperm.mem_iff.mp hgiven)
    have hcolumns : ∀ batch ∈ batches ((e :: rest).map (b.linkRow p)), batch.1 ≠ [] := by
      intro batch hbatch hnil
      obtain ⟨hrows, hnames⟩ := hbatched batch hbatch
      obtain ⟨row, hrow⟩ := List.exists_mem_of_ne_nil _ hrows
      obtain ⟨entry, -, rfl⟩ := hmem row (List.mem_flatMap.mpr ⟨batch, hbatch, hrow⟩)
      have hname : p.foreignKey ∈ (b.linkRow p entry).names :=
        NameMap.mem_names_iff.mpr ⟨_, get?_linkRow_foreign entry⟩
      rw [hnames _ hrow, hnil] at hname
      cases hname
    have hlink : ∀ entry ∈ e :: rest, ∀ row,
        HoldsGiven (b.linkRow p entry).names (b.linkRow p entry).values row →
          b.IsLink p entry.id row :=
      fun entry hentry row hrow => isLink_of_given hb (hids entry hentry) hrow
    refine gives_ofResult_bind hb.requireLinks ?_
    refine (gives_insertBatches h hb.table hbatched hcolumns w).mono fun n w' hw' => ?_
    obtain ⟨writes, added, hview, hadded, hafter, htouch⟩ := hw'
    constructor
    · refine ⟨writes, hview, fun st hst => ?_⟩
      obtain ⟨c, hread, htouches⟩ := htouch st hst
      refine ⟨c, hread, fun row hrow => ?_⟩
      obtain ⟨given, hgiven, hholds⟩ := htouches row hrow
      obtain ⟨entry, hentry, rfl⟩ := hmem given hgiven
      exact (owns_of_isLink hb.key (hlink entry hentry row hholds)).1
    · -- The rows were inserted in the order of the batches.
      obtain ⟨links, hlinks, hsame⟩ := List.perm_comp_forall₂ hperm.symm hadded
      rw [List.forall₂_map_left_iff] at hlinks
      refine ⟨links, ?_, hafter.trans (hsame.symm.append_left _)⟩
      rw [List.forall₂_map_left_iff]
      have hall := (List.forall₂_and_left _ _).mpr ⟨fun entry hentry => hentry, hlinks⟩
      exact hall.imp fun entry row hrow => hlink entry hrow.1 row hrow.2

theorem gives_updateLinks
    (h : Defaulting s.world b.query.dialect p.table Value.sharesKey view) (hb : b.Linkable p)
    {entries : List LinkEntry} (hids : ∀ e ∈ entries, e.id.key?.isSome = true)
    (hkeeps : ∀ e ∈ entries, e.keepsKeys b p = true) (w : σ) :
    Gives view (b.updateLinks s p entries) w fun _ w' =>
      b.WritesOwn p (view w) (view w') ∧ b.SameLinks p (view w).rows (view w').rows := by
  induction entries generalizing w with
  | nil => exact gives_pure ⟨writesOwn_refl _, .refl _⟩
  | cons e rest ih =>
    obtain ⟨hid, hids⟩ := List.forall_mem_cons.mp hids
    obtain ⟨hkeep, hkeeps⟩ := List.forall_mem_cons.mp hkeeps
    rw [updateLinks]
    split
    · exact ih hids hkeeps w
    · next hattributes =>
      have hnull : e.id.isNull = false := by
        cases hvalue : e.id <;> first | rfl | (rw [hvalue] at hid; cases hid)
      have hasks := hb.asks.filter (.eq p.foreignKey hnull (not_isDefault_of_key? hid))
      obtain ⟨st, hst, hread⟩ := Query.readOf_updating hasks hb.table
        (Bool.eq_false_iff.mpr hattributes) fun v _ => Token.readOrDefault_bind v
      have hupdate : Gives view (((b.links p).filterEq p.foreignKey e.id).update s e.attributes) w
          fun _ w' => b.WritesOwn p (view w) (view w') ∧
            b.SameLinks p (view w).rows (view w').rows := by
        refine gives_ofResult_bind hst ?_
        refine (h.gives_writeOpen hread rfl w).bind fun n w' hw' => gives_pure ?_
        obtain ⟨rows, heffect, hview⟩ := hw'
        have hrows : (view w').rows = rows := by rw [hview]; rfl
        refine ⟨⟨[st], hrows ▸ hview, fun st' hst' => ?_⟩, hrows ▸ sameLinks_updated hkeep heffect⟩
        rw [List.mem_singleton.mp hst']
        refine ⟨_, hread, fun row hrow => ?_⟩
        have hmeets : Matching.meets Value.sharesKey
            [(p.localKey, [b.key]), (p.foreignKey, [e.id])] row = true := hrow
        rw [meets_linksTo] at hmeets
        exact (isLinkTo_iff.mp hmeets).1
      refine hupdate.bind fun _ w₁ hw₁ => (ih hids hkeeps w₁).bind fun _ w₂ hw₂ => gives_pure ?_
      exact ⟨hw₁.1.trans hw₂.1, hw₁.2.trans hw₂.2⟩

/-! ## The whole synchronisation -/

theorem gives_detachOwn
    (h : Defaulting s.world b.query.dialect p.table Value.sharesKey view) (hb : b.Linkable p)
    {ids : List Value} (hids : ∀ id ∈ ids, id.key?.isSome = true) (w : σ) :
    Gives view (b.detachAny s ids) w fun _ w' =>
      b.WritesOwn p (view w) (view w') ∧
        (view w').rows.Perm ((view w).rows.filter fun row => !b.isLinkTo p ids row) := by
  refine (gives_detachAny h.toTabular hb hids w).mono fun _ w' hw' => ?_
  obtain ⟨writes, rows, hview, hrows, -, hdeletes⟩ := hw'
  rw [hview]
  refine ⟨⟨writes, rfl, fun st hst => ?_⟩, hrows⟩
  obtain ⟨m, hread, hmeets⟩ := hdeletes st hst
  refine ⟨_, TableCommand.readOpen_of_read hread, fun row hrow => ?_⟩
  have hlink : b.isLinkTo p ids row = true := hmeets row ▸ hrow
  exact (isLinkTo_iff.mp hlink).1

section Entries

variable {wanted : List LinkEntry} {current : List Value} {before : List Attributes}

theorem map_id_distinct (wanted : List LinkEntry) :
    (Key.distinct LinkEntry.id wanted).map LinkEntry.id =
      Key.distinct id (wanted.map LinkEntry.id) :=
  (distinctFrom_map id LinkEntry.id wanted []).symm

theorem keyed_of_mem_distinct {e : LinkEntry} (he : e ∈ Key.distinct LinkEntry.id wanted) :
    e.id.key?.isSome = true := by
  have hmem : e.id ∈ Key.distinct id (wanted.map LinkEntry.id) :=
    map_id_distinct wanted ▸ List.mem_map.mpr ⟨e, he, rfl⟩
  obtain ⟨k, hk, -⟩ := exists_key_of_mem_distinct hmem
  exact Option.isSome_of_eq_some hk

/-- The entries that are added are those of the ids without a link. -/
theorem map_id_fresh :
    ((Key.distinct LinkEntry.id wanted).filter fun e => !isAmong current e.id).map LinkEntry.id =
      fresh current (wanted.map LinkEntry.id) := by
  unfold fresh
  rw [← map_id_distinct, List.filter_map]
  rfl

/-- The entries that are updated have a link. -/
theorem hasLink_of_isAmong
    (hfound : current.Perm ((before.filter (b.owns p)).map fun row => cell row p.foreignKey))
    {id : Value} (h : isAmong current id = true) : b.hasLink p before id = true := by
  obtain ⟨k, hk, hrequested⟩ := isAmong_iff.mp h
  exact hasLink_iff.mpr ⟨k, hk, (requested_current hfound).mp hrequested⟩

end Entries

/-- The linked keys are those of the ids, by statements that touch only links of the parent. -/
structure Matched (b : BoundRelation) (p : Pivot) (ids : List Value) (before after : Ledger) :
    Prop where
  linked : ∀ k, b.LinkedTo p after.rows k ↔ Requested ids k
  others : (after.rows.filter fun row => !b.owns p row).Perm
    (before.rows.filter fun row => !b.owns p row)
  sent : ∃ lookup, b.WritesOwn p (before.sending (.query lookup)) after

theorem gives_applySync_matched
    (h : Defaulting s.world b.query.dialect p.table Value.sharesKey view) (hb : b.Linkable p)
    (wanted : List LinkEntry) (w : σ)
    (hkeeps : ∀ e ∈ Key.distinct LinkEntry.id wanted,
      b.hasLink p (view w).rows e.id = true → e.keepsKeys b p = true) :
    Gives view (b.applySync (Key.distinct LinkEntry.id wanted) s) w fun _ w' =>
      b.Matched p (wanted.map LinkEntry.id) (view w) (view w') := by
  refine (gives_linkedIds h.toTabular hb w).bind fun current w₁ hcurrent => ?_
  obtain ⟨hfound, lookup, -, hw₁⟩ := hcurrent
  rw [map_id_distinct]
  have hremovable : ∀ v ∈ unwanted current (Key.distinct id (wanted.map LinkEntry.id)),
      v.key?.isSome = true := by
    intro v hv
    obtain ⟨-, k, hk, -⟩ := mem_unwanted.mp hv
    exact Option.isSome_of_eq_some hk
  refine (gives_detachOwn h hb hremovable w₁).bind fun _ w₂ hw₂ => ?_
  obtain ⟨hdetached, hrows⟩ := hw₂
  refine (gives_insertEntries h hb (fun e he => keyed_of_mem_distinct (List.mem_filter.mp he).1)
    w₂).bind fun _ w₃ hw₃ => ?_
  obtain ⟨hinserted, links, hlinks, hafter⟩ := hw₃
  rw [map_id_fresh] at hlinks
  -- Up to here it is as without attributes.
  have hrelinked : Relinked b p (wanted.map LinkEntry.id) current (view w).rows (view w₃).rows := by
    rw [hw₁] at hrows
    exact ⟨hb.key, hfound, (view w₂).rows, links, hrows, hlinks, hafter⟩
  refine gives_ofResult_bind hb.requireLinks ?_
  refine (gives_updateLinks h hb (fun e he => keyed_of_mem_distinct (List.mem_filter.mp he).1)
    (fun e he => ?_) w₃).bind fun _ w₄ hw₄ => gives_pure ?_
  · obtain ⟨hmem, hamong⟩ := List.mem_filter.mp he
    exact hkeeps e hmem (hasLink_of_isAmong hfound hamong)
  · obtain ⟨hupdated, hsame⟩ := hw₄
    refine ⟨fun k => (hsame.linked k).trans (hrelinked.linked k), ?_, lookup, ?_⟩
    · exact hsame.others.trans hrelinked.others
    · rw [← hw₁]
      exact (hdetached.trans hinserted).trans hupdated

/-- Attributes move no link, unless those of a link that stays name its key columns with other keys.
The linked keys are the requested ones, and no row of another parent is touched. Only a statement
that fails keeps it from doing so. -/
theorem sync_keeps_keys
    (h : Defaulting s.world b.query.dialect p.table Value.sharesKey view) (hb : b.Linkable p)
    (wanted : List LinkEntry) (w : σ)
    (hkeeps : ∀ e ∈ Key.distinct LinkEntry.id wanted,
      b.hasLink p (view w).rows e.id = true → e.keepsKeys b p = true) :
    (∀ changes w', (b.sync s wanted).run w = (.ok changes, w') →
      (∀ k, b.LinkedTo p (view w').rows k ↔ Requested (wanted.map LinkEntry.id) k) ∧
      ((view w').rows.filter fun row => !b.owns p row).Perm
        ((view w).rows.filter fun row => !b.owns p row) ∧
      ∃ lookup writes, (view w').sent = (view w).sent ++ exchange s lookup writes ∧
        ∀ st ∈ writes, b.TouchesOwn p st) ∧
    ∀ stop w', (b.sync s wanted).run w = (.error stop, w') → (view w').failed = true := by
  have hsync : Gives view (b.sync s wanted) w fun _ w' =>
      ∃ w₂, b.Matched p (wanted.map LinkEntry.id)
          ((view w).sending (.execute ⟨openingSql s.depth, []⟩)) (view w₂) ∧
        view w' = (view w₂).sending (.execute ⟨keepingSql s.depth, []⟩) := by
    refine gives_ofResult_bind hb.requireLinks ?_
    refine h.gives_transaction (b.applySync (Key.distinct LinkEntry.id wanted)) w fun w₁ hw₁ => ?_
    rw [← hw₁]
    have hrows : (view w₁).rows = (view w).rows := by
      rw [hw₁]
      rfl
    exact gives_applySync_matched (s := s.inner) h hb wanted w₁ (hrows ▸ hkeeps)
  constructor
  · intro changes w' hrun
    obtain ⟨w₂, hmatched, hview'⟩ := hsync.of_ok hrun
    obtain ⟨lookup, writes, hview₂, hown⟩ := hmatched.sent
    rw [hview']
    refine ⟨hmatched.linked, hmatched.others, lookup, writes, ?_, hown⟩
    rw [hview₂]
    simp only [Ledger.sending, Ledger.writing, exchange, List.append_assoc, List.cons_append,
      List.nil_append]
  · intro stop w' hrun
    exact hsync.of_error hrun

end Statements

/-! ## Roles with a weight -/

/-- A table of roles whose columns have defaults. -/
def weightsSession : Session Ledger :=
  { rolesSession with
    world := Ledger.defaultingWorld .sqlite "role_user" Value.sharesKey fun _ => .int64 0 }

theorem weightsSession_defaulting :
    Defaulting weightsSession.world userRoles.query.dialect rolePivot.table Value.sharesKey id :=
  Ledger.defaultingWorld_defaulting .sqlite "role_user" Value.sharesKey fun _ => .int64 0

theorem userRoles_linkable : userRoles.Linkable rolePivot := ⟨rfl, by decide, by decide, rfl, rfl⟩

/-- A role that stays, which is named in another width, and two new ones with different columns, of
which one names another user. What is said of a role a second time does not count. -/
def weightedRoles : List LinkEntry :=
  [⟨.int32 11, rowOf [("role_id", .int16 11), ("weight", .default)]⟩,
    ⟨.int16 12, rowOf [("user_id", .int64 99), ("weight", .default)]⟩,
    .bare (.int64 13), ⟨.int64 11, rowOf [("role_id", .int64 14)]⟩, .bare .null]

def weightedRun : Outcome LinkChanges × Ledger :=
  (userRoles.sync weightsSession weightedRoles).run staleRoles

theorem sync_keeps_keys_weightedRoles :
    Defaulting weightsSession.world userRoles.query.dialect rolePivot.table Value.sharesKey id ∧
    userRoles.Linkable rolePivot ∧
    (∀ e ∈ Key.distinct LinkEntry.id weightedRoles,
      userRoles.hasLink rolePivot staleRoles.rows e.id = true →
        e.keepsKeys userRoles rolePivot = true) ∧
    ∃ changes, weightedRun = (.ok changes, weightedRun.2) ∧
      (∀ k, userRoles.LinkedTo rolePivot weightedRun.2.rows k ↔
        Requested (weightedRoles.map LinkEntry.id) k) ∧
      (weightedRun.2.rows.filter fun row => !userRoles.owns rolePivot row).Perm
        (staleRoles.rows.filter fun row => !userRoles.owns rolePivot row) := by
  have hkeeps : ∀ e ∈ Key.distinct LinkEntry.id weightedRoles,
      userRoles.hasLink rolePivot staleRoles.rows e.id = true →
        e.keepsKeys userRoles rolePivot = true := by
    decide +kernel
  have hok : weightedRun.1.isOk = true := by decide +kernel
  obtain ⟨changes, hrun⟩ := Action.exists_ok_of_isOk hok
  have hsync := sync_keeps_keys weightsSession_defaulting userRoles_linkable weightedRoles
    staleRoles hkeeps
  simp only [id_eq] at hsync
  obtain ⟨hlinked, hothers, -⟩ := hsync.1 changes weightedRun.2 hrun
  exact ⟨weightsSession_defaulting, userRoles_linkable, hkeeps, changes, hrun, hlinked, hothers⟩

/-- A role that the user has, with another role among its attributes. -/
def movedRoles : List LinkEntry := [⟨.int64 10, rowOf [("role_id", .int64 12)]⟩]

def movingRun : Outcome LinkChanges × Ledger :=
  (userRoles.sync weightsSession movedRoles).run staleRoles

/-- The link moves to the other role, and the wanted one is gone. -/
theorem sync_moves_link :
    Defaulting weightsSession.world userRoles.query.dialect rolePivot.table Value.sharesKey id ∧
    userRoles.Linkable rolePivot ∧
    ∃ changes, movingRun = (.ok changes, movingRun.2) ∧
      ¬∀ k, userRoles.LinkedTo rolePivot movingRun.2.rows k ↔
        Requested (movedRoles.map LinkEntry.id) k := by
  obtain ⟨hok, hmoved⟩ : movingRun.1.isOk = true ∧
      userRoles.hasLink rolePivot movingRun.2.rows (.int64 10) = false := by
    decide +kernel
  obtain ⟨changes, hrun⟩ := Action.exists_ok_of_isOk hok
  refine ⟨weightsSession_defaulting, userRoles_linkable, changes, hrun, fun hall => ?_⟩
  obtain ⟨k, hk⟩ : ∃ k, (Value.int64 10).key? = some k := ⟨_, rfl⟩
  have hlinked := (hall k).mpr ⟨.int64 10, List.mem_singleton_self _, hk⟩
  rw [hasLink_iff.mpr ⟨k, hk, hlinked⟩] at hmoved
  cases hmoved

end BoundRelation

end RecordMapper
