import RecordMapper.NameMap

/-!
Look-ups in dictionaries.

Each operation on a dictionary is described by what `get?` finds afterwards.
-/
namespace RecordMapper

set_option autoImplicit false

variable {α : Type}

namespace Assoc

theorem mem_of_get? {name : String} {v : α} {entries : List (String × α)}
    (h : get? name entries = some v) : (name, v) ∈ entries := by
  induction entries with
  | nil => cases h
  | cons e rest ih =>
    obtain ⟨k, w⟩ := e
    rw [get?] at h
    split at h
    · next hk =>
      cases h
      rw [hk]
      exact List.mem_cons_self ..
    · exact List.mem_cons_of_mem _ (ih h)

theorem get?_of_mem {name : String} {v : α} {entries : List (String × α)}
    (hascending : Ascending entries) (h : (name, v) ∈ entries) : get? name entries = some v := by
  induction entries with
  | nil => cases h
  | cons e rest ih =>
    obtain ⟨hk, hrest⟩ := List.pairwise_cons.mp hascending
    rcases List.mem_cons.mp h with rfl | h
    · rw [get?, if_pos rfl]
    · have hne : name ≠ e.1 := fun heq => String.lt_irrefl e.1 (heq ▸ hk (name, v) h)
      rw [get?, if_neg hne, ih hrest h]

theorem get?_filter (p : String → α → Bool) (name : String) {entries : List (String × α)}
    (hascending : Ascending entries) :
    get? name (entries.filter fun e => p e.1 e.2) = (get? name entries).filter (p name) := by
  induction entries with
  | nil => rfl
  | cons e rest ih =>
    obtain ⟨k, v⟩ := e
    obtain ⟨hk, hrest⟩ := List.pairwise_cons.mp hascending
    by_cases hname : name = k
    · subst hname
      have hnone : get? name rest = none := get?_eq_none hk
      cases hp : p name v with
      | true => simp [get?, hp, Option.filter]
      | false => simp [get?, hp, ih hrest, hnone, Option.filter]
    · cases hp : p k v with
      | true => simp [get?, hp, hname, ih hrest]
      | false => simp [get?, hp, hname, ih hrest]

theorem get?_insertAll (name : String) {pairs : List (String × α)} (hascending : Ascending pairs)
    (entries : List (String × α)) :
    get? name (insertAll entries pairs) = (get? name pairs).or (get? name entries) := by
  induction pairs generalizing entries with
  | nil => rfl
  | cons p rest ih =>
    obtain ⟨hk, hrest⟩ := List.pairwise_cons.mp hascending
    have hstep : insertAll entries (p :: rest) = insertAll (insert p.1 p.2 entries) rest := rfl
    rw [hstep, ih hrest, get?_insert, get?]
    by_cases hname : name = p.1
    · rw [if_pos hname, if_pos hname, get?_eq_none fun e he => hname ▸ hk e he]
      rfl
    · rw [if_neg hname, if_neg hname]

theorem get?_insertAll_of_notMem {name : String} {pairs : List (String × α)}
    (h : ∀ p ∈ pairs, p.1 ≠ name) (entries : List (String × α)) :
    get? name (insertAll entries pairs) = get? name entries := by
  induction pairs generalizing entries with
  | nil => rfl
  | cons p rest ih =>
    have hstep : insertAll entries (p :: rest) = insertAll (insert p.1 p.2 entries) rest := rfl
    have hname : p.1 ≠ name := h p (List.mem_cons_self ..)
    rw [hstep, ih fun q hq => h q (List.mem_cons_of_mem _ hq), get?_insert, if_neg hname.symm]

/-- Of the pairs that are written under a name one is found. -/
theorem exists_get?_insertAll {name : String} {pairs : List (String × α)}
    (h : ∃ p ∈ pairs, p.1 = name) (entries : List (String × α)) :
    ∃ p ∈ pairs, p.1 = name ∧ get? name (insertAll entries pairs) = some p.2 := by
  induction pairs generalizing entries with
  | nil =>
    obtain ⟨p, hp, -⟩ := h
    cases hp
  | cons p rest ih =>
    have hstep : insertAll entries (p :: rest) = insertAll (insert p.1 p.2 entries) rest := rfl
    rw [hstep]
    by_cases hlater : ∃ q ∈ rest, q.1 = name
    · obtain ⟨q, hq, hname, hget⟩ := ih hlater (insert p.1 p.2 entries)
      exact ⟨q, List.mem_cons_of_mem p hq, hname, hget⟩
    · have hname : p.1 = name := by
        obtain ⟨q, hq, hname⟩ := h
        rcases List.mem_cons.mp hq with rfl | hq
        · exact hname
        · exact absurd ⟨q, hq, hname⟩ hlater
      refine ⟨p, List.mem_cons_self .., hname, ?_⟩
      rw [get?_insertAll_of_notMem fun q hq heq => hlater ⟨q, hq, heq⟩, get?_insert,
        if_pos hname.symm]

theorem get?_map {β : Type} (f : String → α → β) (name : String) (entries : List (String × α)) :
    get? name (entries.map fun e => (e.1, f e.1 e.2)) = (get? name entries).map (f name) := by
  induction entries with
  | nil => rfl
  | cons e rest ih =>
    rw [List.map_cons, get?, get?]
    split
    · next h => rw [h, Option.map_some]
    · exact ih

theorem get?_insertAll_map {β : Type} (f : String → α → β) (name : String)
    (pairs : List (String × α)) {entries : List (String × α)} {mapped : List (String × β)}
    (h : get? name mapped = (get? name entries).map (f name)) :
    get? name (insertAll mapped (pairs.map fun p => (p.1, f p.1 p.2))) =
      (get? name (insertAll entries pairs)).map (f name) := by
  induction pairs generalizing entries mapped with
  | nil => exact h
  | cons p rest ih =>
    have hinsert : get? name (insert p.1 (f p.1 p.2) mapped) =
        (get? name (insert p.1 p.2 entries)).map (f name) := by
      rw [get?_insert, get?_insert]
      split
      · next hname => rw [hname, Option.map_some]
      · exact h
    exact ih hinsert

end Assoc

namespace NameMap

theorem exists_get?_of_mem_values {m : NameMap α} {v : α} (h : v ∈ m.values) :
    ∃ name, m.get? name = some v := by
  obtain ⟨⟨name, w⟩, he, rfl⟩ := List.mem_map.mp h
  exact ⟨name, Assoc.get?_of_mem m.ascending he⟩

theorem nodup_names (m : NameMap α) : m.names.Nodup := by
  refine List.pairwise_map.mpr (m.ascending.imp fun {a b} hless heq => ?_)
  rw [heq] at hless
  exact String.lt_irrefl b.1 hless

theorem isEmpty_of_get? {m : NameMap α} {name : String} {v : α} (h : m.get? name = some v) :
    m.isEmpty = false := by
  unfold isEmpty
  cases hentries : m.entries with
  | nil =>
    rw [get?, hentries] at h
    cases h
  | cons e rest => rfl

theorem zip_names_values (m : NameMap α) : m.names.zip m.values = m.entries := by
  unfold names values
  rw [List.zip_map', List.map_id']

theorem mem_names_iff {m : NameMap α} {name : String} :
    name ∈ m.names ↔ ∃ v, m.get? name = some v := by
  constructor
  · intro h
    obtain ⟨⟨name, v⟩, he, rfl⟩ := List.mem_map.mp h
    exact ⟨v, Assoc.get?_of_mem m.ascending he⟩
  · rintro ⟨v, hv⟩
    exact List.mem_map.mpr ⟨(name, v), Assoc.mem_of_get? hv, rfl⟩

theorem names_ne_nil {m : NameMap α} : m.names ≠ [] ↔ m.isEmpty = false := by
  unfold names isEmpty
  rw [ne_eq, List.map_eq_nil_iff, List.isEmpty_eq_false_iff]

theorem contains_iff {m : NameMap α} {name : String} : m.contains name = true ↔ name ∈ m.names := by
  rw [mem_names_iff]
  exact Option.isSome_iff_exists

/-- Names ascend, so they are determined by what is found. -/
theorem names_eq_iff {a b : NameMap α} :
    a.names = b.names ↔ ∀ name, a.contains name = b.contains name := by
  constructor
  · intro h name
    rw [Bool.eq_iff_iff, contains_iff, contains_iff, h]
  · intro h
    have hascending : ∀ m : NameMap α, m.names.Pairwise (· < ·) := fun m =>
      List.pairwise_map.mpr m.ascending
    have hmem : ∀ name, name ∈ a.names ↔ name ∈ b.names := fun name => by
      rw [← contains_iff, ← contains_iff, h]
    have hperm : a.names.Perm b.names :=
      (List.perm_ext_iff_of_nodup a.nodup_names b.nodup_names).mpr hmem
    have hasymm : ∀ x y : String, x ∈ a.names → y ∈ b.names → x < y → y < x → x = y :=
      fun x _ _ _ hxy hyx => absurd (String.lt_trans hxy hyx) (String.lt_irrefl x)
    exact hperm.eq_of_pairwise hasymm (hascending a) (hascending b)

/-- The values under the first names are the first values. -/
theorem filterMap_take_names (m : NameMap α) (j : Nat) :
    (m.names.take j).filterMap m.get? = m.values.take j := by
  have hfound : ∀ entries : List (String × α), (∀ e ∈ entries, e ∈ m.entries) →
      (entries.map Prod.fst).filterMap m.get? = entries.map Prod.snd := by
    intro entries hmem
    induction entries with
    | nil => rfl
    | cons e rest ih =>
      have he : m.get? e.1 = some e.2 :=
        Assoc.get?_of_mem m.ascending (hmem e (List.mem_cons_self ..))
      rw [List.map_cons, List.filterMap_cons_some he,
        ih fun e he => hmem e (List.mem_cons_of_mem _ he), List.map_cons]
  unfold names values
  rw [← List.map_take, ← List.map_take]
  exact hfound _ fun e he => List.mem_of_mem_take he

theorem filterMap_names (m : NameMap α) : m.names.filterMap m.get? = m.values := by
  have hall := m.filterMap_take_names m.entries.length
  rwa [List.take_of_length_le (by simp [names]), List.take_of_length_le (by simp [values])] at hall

theorem getElem?_values {m : NameMap α} {j : Nat} {name : String} (h : m.names[j]? = some name) :
    m.values[j]? = m.get? name := by
  unfold names at h
  rw [List.getElem?_map] at h
  obtain ⟨⟨k, v⟩, he, rfl⟩ := Option.map_eq_some_iff.mp h
  have hget : m.get? k = some v := Assoc.get?_of_mem m.ascending (List.mem_of_getElem? he)
  rw [hget, values, List.getElem?_map, he]
  rfl

theorem get?_filter (m : NameMap α) (p : String → α → Bool) (name : String) :
    (m.filter p).get? name = (m.get? name).filter (p name) :=
  Assoc.get?_filter p name m.ascending

theorem get?_erase (m : NameMap α) (name other : String) :
    (m.erase name).get? other = if other = name then none else m.get? other := by
  unfold erase
  rw [get?_filter]
  split
  · next h =>
    subst h
    cases m.get? other with
    | none => rfl
    | some v => simp
  · next h =>
    cases m.get? other with
    | none => rfl
    | some v => simp [h]

theorem get?_insertAll_entries (m given : NameMap α) (name : String) :
    (m.insertAll given.entries).get? name = (given.get? name).or (m.get? name) :=
  Assoc.get?_insertAll name given.ascending m.entries

end NameMap

end RecordMapper
