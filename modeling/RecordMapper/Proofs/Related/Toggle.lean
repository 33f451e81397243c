import RecordMapper.Proofs.Related.Sync

/-!
Links that are turned over.

* `BoundRelation.Toggled` is what turning a list of ids over makes of the rows, and what is
  returned. The linked keys are then the symmetric difference of those that were linked and those
  requested.
* `toggle_involutive`: the same list again gives back the linked keys that there were at first.
-/
namespace RecordMapper

set_option autoImplicit false

namespace BoundRelation

variable {σ : Type}

/-- The requested ids that have a link, by the keys that are linked. -/
def held (current ids : List Value) : List Value := (Key.distinct id ids).filter (isAmong current)

/-- What becomes of the links of a parent, and what is reported of it. -/
structure Toggled (b : BoundRelation) (p : Pivot) (ids : List Value)
    (before after : List Attributes) (changes : LinkChanges) : Prop where
  linked : ∀ k, b.LinkedTo p after k ↔
    b.LinkedTo p before k ∧ ¬Requested ids k ∨ Requested ids k ∧ ¬b.LinkedTo p before k
  others : (after.filter fun row => !b.owns p row).Perm (before.filter fun row => !b.owns p row)
  kept : (after.filter fun row => !b.isLinkTo p ids row).Perm
    (before.filter fun row => !b.isLinkTo p ids row)
  attached : ∀ v ∈ changes.attached, ∃ k, v.key? = some k ∧ ¬b.LinkedTo p before k
  detached : ∀ v ∈ changes.detached, ∃ k, v.key? = some k ∧ b.LinkedTo p before k
  distinct : ((changes.attached ++ changes.detached).map Value.key?).Nodup
  request : (changes.attached ++ changes.detached).Perm
    ((firsts ids).filter fun v => v.key?.isSome)
  updated : changes.updated = []

section Differences

variable {ids current : List Value}

theorem mem_held {v : Value} (h : v ∈ held current ids) :
    ∃ k, v.key? = some k ∧ Requested ids k ∧ Requested current k := by
  obtain ⟨hv, hamong⟩ := List.mem_filter.mp h
  obtain ⟨k, hk, hrequested⟩ := exists_key_of_mem_distinct hv
  obtain ⟨l, hl, hcurrent⟩ := isAmong_iff.mp hamong
  exact ⟨k, hk, hrequested, key_unique hl hk ▸ hcurrent⟩

theorem requested_held {k : Key} :
    Requested (held current ids) k ↔ Requested ids k ∧ Requested current k := by
  constructor
  · rintro ⟨v, hv, hk⟩
    obtain ⟨l, hl, h⟩ := mem_held hv
    exact key_unique hl hk ▸ h
  · rintro ⟨hrequested, hcurrent⟩
    obtain ⟨v, hv, hk⟩ := requested_distinct.mpr hrequested
    exact ⟨v, List.mem_filter.mpr ⟨hv, isAmong_iff.mpr ⟨k, hk, hcurrent⟩⟩, hk⟩

/-- Every requested key is attached or detached. -/
theorem fresh_append_held : (fresh current ids ++ held current ids).Perm (Key.distinct id ids) :=
  (List.perm_append_comm).trans (List.filter_append_perm (isAmong current) (Key.distinct id ids))

theorem distinct_eq_firsts (ids : List Value) :
    Key.distinct id ids = (firsts ids).filter fun v => v.key?.isSome := by
  unfold Key.distinct
  rw [distinctFrom_eq_firsts]
  apply List.filter_congr
  intro v _
  cases v.key? <;> simp

end Differences

section Result

variable {b : BoundRelation} {p : Pivot} {ids current : List Value}
  {before after : List Attributes}

theorem toggled_of_swapped (hkey : b.key.key?.isSome = true)
    (hfound : current.Perm ((before.filter (b.owns p)).map fun row => cell row p.foreignKey))
    (h : b.Swapped p (held current ids) (fresh current ids) before after) :
    b.Toggled p ids before after ⟨fresh current ids, held current ids, []⟩ where
  linked k := by
    rw [h.linked hkey, requested_fresh, requested_held, requested_current hfound]
    by_cases hlinked : b.LinkedTo p before k <;> simp [hlinked]
  others := by
    apply h.filter_perm
    · intro row _ hother
      rw [Bool.not_eq_true'] at hother
      unfold isLinkTo
      rw [hother, Bool.false_and]
    · intro row id _ hlink
      rw [(owns_of_isLink hkey hlink).1, Bool.not_true]
  kept := by
    apply h.filter_perm
    · intro row _ hother
      rw [Bool.not_eq_true', Bool.eq_false_iff, ne_eq, isLinkTo_iff] at hother
      rw [Bool.eq_false_iff, ne_eq, isLinkTo_iff]
      rintro ⟨howns, k, hk, hheld⟩
      exact hother ⟨howns, k, hk, (requested_held.mp hheld).1⟩
    · intro row v hv hlink
      obtain ⟨howns, hcell⟩ := owns_of_isLink hkey hlink
      obtain ⟨k, hk, hrequested, -⟩ := mem_fresh hv
      rw [isLinkTo_iff.mpr ⟨howns, k, hcell ▸ hk, hrequested⟩, Bool.not_true]
  attached v hv := by
    obtain ⟨k, hk, -, hnot⟩ := mem_fresh hv
    exact ⟨k, hk, (requested_current hfound).not.mp hnot⟩
  detached v hv := by
    obtain ⟨k, hk, -, hcurrent⟩ := mem_held hv
    exact ⟨k, hk, (requested_current hfound).mp hcurrent⟩
  distinct := by
    obtain ⟨keys, hkeys, hnodup, -⟩ := distinctFrom_keys id ids []
    have hall : (Key.distinct id ids).map Value.key? = keys.map some := hkeys
    have hboth : (fresh current ids ++ held current ids).Perm (Key.distinct id ids) :=
      fresh_append_held
    have hperm := hboth.map Value.key?
    rw [hperm.nodup_iff, hall]
    exact List.Pairwise.map some (fun k l hkl heq => hkl (Option.some.inj heq)) hnodup
  request := by
    rw [← distinct_eq_firsts]
    exact fresh_append_held
  updated := rfl

/-- Where nothing is requested nothing changes. -/
theorem toggled_nothing (hkey : b.key.key?.isSome = true) (hids : Key.distinct id ids = [])
    (rows : List Attributes) : b.Toggled p ids rows rows ⟨[], [], []⟩ := by
  obtain ⟨current, hcurrent⟩ : ∃ current, current =
      (rows.filter (b.owns p)).map fun row => cell row p.foreignKey := ⟨_, rfl⟩
  have hfresh : fresh current ids = [] := by
    unfold fresh
    rw [hids]
    rfl
  have hheld : held current ids = [] := by
    unfold held
    rw [hids]
    rfl
  have hall : ∀ row ∈ rows, (!b.isLinkTo p [] row) = true := by
    intro row _
    simp [isLinkTo]
  have hswap : b.Swapped p (held current ids) (fresh current ids) rows rows := by
    rw [hfresh, hheld]
    refine ⟨rows, [], ?_, .nil, ?_⟩
    · rw [List.filter_eq_self.mpr hall]
    · rw [List.append_nil]
  have htoggled := toggled_of_swapped hkey (hcurrent ▸ .refl _) hswap
  rw [hfresh, hheld] at htoggled
  exact htoggled

/-- The same ids once more. -/
theorem Toggled.back {rows : List Attributes} {changes changes' : LinkChanges}
    (h : b.Toggled p ids before rows changes) (h' : b.Toggled p ids rows after changes') (k : Key) :
    b.LinkedTo p after k ↔ b.LinkedTo p before k := by
  rw [h'.linked, h.linked]
  by_cases hlinked : b.LinkedTo p before k <;> by_cases hrequested : Requested ids k <;>
    simp [hlinked, hrequested]

end Result

section Run

open RecordMapper.Action Session

variable {view : σ → Ledger} {s : Session σ} {b : BoundRelation} {p : Pivot}

theorem gives_applyToggle
    (h : Tabular s.world b.query.dialect p.table Value.sharesKey view) (hb : b.Linkable p)
    (ids : List Value) (w : σ) :
    Gives view (b.applyToggle (Key.distinct id ids) s) w fun changes w' =>
      b.Toggled p ids (view w).rows (view w').rows changes := by
  refine (gives_linkedIds h hb w).bind fun current w₁ hcurrent => ?_
  obtain ⟨hperm, lookup, -, hw₁⟩ := hcurrent
  have hremovable : ∀ v ∈ held current ids, v.key?.isSome = true := by
    intro v hv
    obtain ⟨k, hk, -⟩ := mem_held hv
    rw [hk]
    rfl
  refine gives_swap h hb hremovable fresh_keys w₁ fun _ w₂ writes after hswap hview _ _ =>
    gives_pure ?_
  rw [hw₁] at hswap
  rw [hview]
  exact toggled_of_swapped hb.key hperm hswap

theorem gives_toggle
    (h : Tabular s.world b.query.dialect p.table Value.sharesKey view) (hb : b.Linkable p)
    (ids : List Value) (w : σ) :
    Gives view (b.toggle s ids) w fun changes w' =>
      b.Toggled p ids (view w).rows (view w').rows changes := by
  refine gives_ofResult_bind hb.requireLinks ?_
  have hbody := fun w => gives_applyToggle (s := s.inner) h hb ids w
  cases hids : Key.distinct id ids with
  | nil => exact gives_pure (toggled_nothing hb.key hids _)
  | cons id rest =>
    rw [hids] at hbody
    have hsend := h.gives_transaction (b.applyToggle (id :: rest)) w
      fun w₁ hw₁ => hw₁ ▸ hbody w₁
    refine hsend.mono fun changes w' hw' => ?_
    obtain ⟨w₂, htoggled, hview⟩ := hw'
    rw [hview]
    exact htoggled

/-- Turning links over leaves the symmetric difference of what was linked and what is requested, and
doing it again leaves what was linked at first. Only a statement that fails keeps it from doing
so. -/
theorem toggle_involutive
    (h : Tabular s.world b.query.dialect p.table Value.sharesKey view) (hb : b.Linkable p)
    (ids : List Value) (w : σ) :
    (∀ changes w', (b.toggle s ids).run w = (.ok changes, w') →
      b.Toggled p ids (view w).rows (view w').rows changes ∧
      ∀ changes' w'', (b.toggle s ids).run w' = (.ok changes', w'') →
        ∀ k, b.LinkedTo p (view w'').rows k ↔ b.LinkedTo p (view w).rows k) ∧
    ∀ stop w', (b.toggle s ids).run w = (.error stop, w') → (view w').failed = true := by
  constructor
  · intro changes w' hrun
    have htoggled := (gives_toggle h hb ids w).of_ok hrun
    refine ⟨htoggled, ?_⟩
    intro changes' w'' hrun'
    exact htoggled.back ((gives_toggle h hb ids w').of_ok hrun')
  · intro stop w' hrun
    exact (gives_toggle h hb ids w).of_error hrun

end Run

/-! ## Roles turned over twice -/

/-- A linked role twice, by two widths, a role without a link, and NULL. -/
def turnedRoles : List Value := [.int32 10, .null, .int16 12, .int64 10]

def turned : Outcome LinkChanges × Ledger :=
  (userRoles.toggle rolesSession turnedRoles).run staleRoles

def turnedBack : Outcome LinkChanges × Ledger :=
  (userRoles.toggle rolesSession turnedRoles).run turned.2

theorem toggle_involutive_staleRoles :
    Tabular rolesSession.world userRoles.query.dialect rolePivot.table Value.sharesKey id ∧
    userRoles.Linkable rolePivot ∧
    ∃ changes changes', turned = (.ok changes, turned.2) ∧
      turnedBack = (.ok changes', turnedBack.2) ∧ turned.2.rows.length = 4 ∧
      userRoles.Toggled rolePivot turnedRoles staleRoles.rows turned.2.rows changes ∧
      ∀ k, userRoles.LinkedTo rolePivot turnedBack.2.rows k ↔
        userRoles.LinkedTo rolePivot staleRoles.rows k := by
  have hworld : Tabular rolesSession.world userRoles.query.dialect rolePivot.table
      Value.sharesKey id := Ledger.world_tabular .sqlite "role_user" Value.sharesKey none
  have hlinkable : userRoles.Linkable rolePivot :=
    ⟨rfl, by decide, by decide, rfl, rfl⟩
  obtain ⟨hok, hok', hlength⟩ : turned.1.isOk = true ∧ turnedBack.1.isOk = true ∧
      turned.2.rows.length = 4 := by
    decide +kernel
  obtain ⟨changes, hrun⟩ := Action.exists_ok_of_isOk hok
  obtain ⟨changes', hrun'⟩ := Action.exists_ok_of_isOk hok'
  have hturns := toggle_involutive hworld hlinkable turnedRoles staleRoles
  simp only [id_eq] at hturns
  obtain ⟨hfirst, -⟩ := hturns
  obtain ⟨htoggled, hback⟩ := hfirst changes turned.2 hrun
  exact ⟨hworld, hlinkable, changes, changes', hrun, hrun', hlength, htoggled,
    hback changes' turnedBack.2 hrun'⟩

end BoundRelation

end RecordMapper
