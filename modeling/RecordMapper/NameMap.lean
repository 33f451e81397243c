/-!
Dictionaries keyed by names and kept in ascending order of the names.

* `Assoc` has the operations on plain lists of pairs.
* `NameMap` is a list of pairs whose names strictly ascend, so that two maps with the same look-ups
  are equal (`NameMap.ext_get?`).
-/
namespace RecordMapper

set_option autoImplicit false

namespace Assoc

variable {α β : Type}

def get? (name : String) : List (String × α) → Option α
  | [] => none
  | (k, v) :: rest => if name = k then some v else get? name rest

/-- Writes one pair, before the first greater name. -/
def insert (name : String) (value : α) : List (String × α) → List (String × α)
  | [] => [(name, value)]
  | (k, v) :: rest =>
    if name < k then (name, value) :: (k, v) :: rest
    else if name = k then (name, value) :: rest
    else (k, v) :: insert name value rest

def erase (name : String) (entries : List (String × α)) : List (String × α) :=
  entries.filter fun e => e.1 != name

def contains (name : String) (entries : List (String × α)) : Bool :=
  (get? name entries).isSome

/-- Writes the pairs in order: of two with one name the later one stays. -/
def insertAll (entries : List (String × α)) (pairs : List (String × α)) : List (String × α) :=
  pairs.foldl (fun entries p => insert p.1 p.2 entries) entries

/-- The names strictly ascend. -/
def Ascending (entries : List (String × α)) : Prop :=
  entries.Pairwise fun a b => a.1 < b.1

theorem get?_insert (name other : String) (value : α) (entries : List (String × α)) :
    get? other (insert name value entries) =
      if other = name then some value else get? other entries := by
  induction entries with
  | nil => simp [insert, get?]
  | cons e rest ih =>
    obtain ⟨k, v⟩ := e
    simp only [insert]
    by_cases h1 : name < k
    · simp [h1, get?]
    · by_cases h2 : name = k
      · subst h2
        simp only [h1, if_false, if_true, get?]
        split <;> rfl
      · simp only [h1, h2, if_false, get?, ih]
        by_cases h3 : other = k
        · subst h3
          simp [Ne.symm h2]
        · simp [h3]

theorem mem_insert {name : String} {value : α} {entries : List (String × α)} {e : String × α}
    (h : e ∈ insert name value entries) : e = (name, value) ∨ e ∈ entries := by
  induction entries with
  | nil => simpa [insert] using h
  | cons f rest ih =>
    obtain ⟨k, v⟩ := f
    simp only [insert] at h
    split at h
    · simpa using h
    · split at h
      · rcases List.mem_cons.1 h with h | h
        · exact .inl h
        · exact .inr (List.mem_cons_of_mem _ h)
      · rcases List.mem_cons.1 h with h | h
        · exact .inr (h ▸ List.mem_cons_self ..)
        · rcases ih h with h | h
          · exact .inl h
          · exact .inr (List.mem_cons_of_mem _ h)

theorem ascending_insert (name : String) (value : α) {entries : List (String × α)}
    (h : Ascending entries) : Ascending (insert name value entries) := by
  induction entries with
  | nil => simp [insert, Ascending]
  | cons e rest ih =>
    obtain ⟨k, v⟩ := e
    obtain ⟨hk, hrest⟩ := List.pairwise_cons.1 h
    simp only [insert]
    by_cases h1 : name < k
    · simp only [h1, if_true]
      refine List.pairwise_cons.2 ⟨?_, h⟩
      intro f hf
      rcases List.mem_cons.1 hf with hf | hf
      · exact hf ▸ h1
      · exact String.lt_trans h1 (hk f hf)
    · by_cases h2 : name = k
      · subst h2
        simp only [h1, if_false, if_true]
        exact List.pairwise_cons.2 ⟨fun f hf => hk f hf, hrest⟩
      · simp only [h1, h2, if_false]
        refine List.pairwise_cons.2 ⟨?_, ih hrest⟩
        intro f hf
        rcases mem_insert hf with hf | hf
        · subst hf
          exact Classical.byContradiction fun h3 => h2 (String.le_antisymm h3 h1)
        · exact hk f hf

theorem ascending_insertAll {entries : List (String × α)} (pairs : List (String × α))
    (h : Ascending entries) : Ascending (insertAll entries pairs) := by
  induction pairs generalizing entries with
  | nil => exact h
  | cons p rest ih => exact ih (ascending_insert p.1 p.2 h)

theorem get?_eq_none {name : String} {entries : List (String × α)}
    (h : ∀ e ∈ entries, name < e.1) : get? name entries = none := by
  induction entries with
  | nil => rfl
  | cons e rest ih =>
    have h1 : name < e.1 := h e (List.mem_cons_self ..)
    have h2 : name ≠ e.1 := fun he => String.lt_irrefl e.1 (by rw [he] at h1; exact h1)
    simp only [get?, h2, if_false]
    exact ih fun f hf => h f (List.mem_cons_of_mem _ hf)

theorem eq_of_get? {a b : List (String × α)} (ha : Ascending a) (hb : Ascending b)
    (h : ∀ name, get? name a = get? name b) : a = b := by
  induction a generalizing b with
  | nil =>
    cases b with
    | nil => rfl
    | cons f b =>
      have h1 := h f.1
      simp [get?] at h1
  | cons e a ih =>
    obtain ⟨k, v⟩ := e
    obtain ⟨hk, ha⟩ := List.pairwise_cons.1 ha
    cases b with
    | nil =>
      have h1 := h k
      simp [get?] at h1
    | cons f b =>
      obtain ⟨l, w⟩ := f
      obtain ⟨hl, hrest⟩ := List.pairwise_cons.1 hb
      have hkl : k = l := by
        refine Classical.byContradiction fun hne => ?_
        have h1 := h k
        have h2 := h l
        simp only [get?, if_true, hne, Ne.symm hne, if_false] at h1 h2
        by_cases hlt : k < l
        · rw [get?_eq_none (fun e he => String.lt_trans hlt (hl e he))] at h1
          exact absurd h1 (by simp)
        · have hlt' : l < k := Classical.byContradiction fun h3 =>
            hne (String.le_antisymm h3 hlt)
          rw [get?_eq_none (fun e he => String.lt_trans hlt' (hk e he))] at h2
          exact absurd h2 (by simp)
      subst hkl
      have hv : v = w := by
        have h1 := h k
        simpa [get?] using h1
      subst hv
      have hget : ∀ name, get? name a = get? name b := by
        intro name
        by_cases hn : name = k
        · subst hn
          rw [get?_eq_none hk, get?_eq_none hl]
        · have h1 := h name
          simpa [get?, hn] using h1
      have hab : a = b := ih ha hrest hget
      rw [hab]

end Assoc

/-! ## Maps with ascending names -/

structure NameMap (α : Type) where
  entries : List (String × α)
  ascending : Assoc.Ascending entries

namespace NameMap

variable {α β : Type}

def empty : NameMap α := ⟨[], List.Pairwise.nil⟩

instance : Inhabited (NameMap α) := ⟨empty⟩

def get? (m : NameMap α) (name : String) : Option α := Assoc.get? name m.entries

def contains (m : NameMap α) (name : String) : Bool := (m.get? name).isSome

def insert (m : NameMap α) (name : String) (value : α) : NameMap α :=
  ⟨Assoc.insert name value m.entries, Assoc.ascending_insert name value m.ascending⟩

def insertAll (m : NameMap α) (pairs : List (String × α)) : NameMap α :=
  ⟨Assoc.insertAll m.entries pairs, Assoc.ascending_insertAll pairs m.ascending⟩

/-- The map of the last pair of each name. -/
def ofList (pairs : List (String × α)) : NameMap α := empty.insertAll pairs

def filter (p : String → α → Bool) (m : NameMap α) : NameMap α :=
  ⟨m.entries.filter fun e => p e.1 e.2, List.Pairwise.filter _ m.ascending⟩

def erase (m : NameMap α) (name : String) : NameMap α :=
  m.filter fun k _ => k != name

def names (m : NameMap α) : List String := m.entries.map Prod.fst

def values (m : NameMap α) : List α := m.entries.map Prod.snd

def isEmpty (m : NameMap α) : Bool := m.entries.isEmpty

theorem get?_insert (m : NameMap α) (name other : String) (value : α) :
    (m.insert name value).get? other = if other = name then some value else m.get? other :=
  Assoc.get?_insert name other value m.entries

/-- A map is its look-ups. -/
theorem ext_get? {a b : NameMap α} (h : ∀ name, a.get? name = b.get? name) : a = b := by
  obtain ⟨a, ha⟩ := a
  obtain ⟨b, hb⟩ := b
  have he : a = b := Assoc.eq_of_get? ha hb h
  subst he
  rfl

end NameMap

end RecordMapper
