import RecordMapper.Query.Select

/-!
How a fragment is written.

* `Fragment.write` and `Fragment.values` of each way to put fragments together.
* `Fragment.cuts` are the texts between the placeholders, and `Dialect.fill` puts numbered
  placeholders between texts. A fragment is its cuts, filled from the number of values in front of
  it: nothing else that is written depends on that number.
-/
namespace RecordMapper

set_option autoImplicit false

@[simp] theorem Text.joined_singleton (separator a : String) :
    Text.joined separator [a] = a := by
  simp [Text.joined, Text.joinWith]

theorem Text.joined_cons_cons (separator a b : String) (rest : List String) :
    Text.joined separator (a :: b :: rest) =
      a ++ separator ++ Text.joined separator (b :: rest) := by
  apply String.ext
  simp [Text.joined, Text.joinWith]

namespace Fragment

variable (d : Dialect) (bound : Nat)

/-! ## Pieces -/

@[simp] theorem write_nil : write d bound [] = "" := rfl

@[simp] theorem write_text (sql : String) (f : Fragment) :
    write d bound (.text sql :: f) = sql ++ write d bound f := by
  simp [write, writeFrom]

@[simp] theorem write_name (identifier : String) (f : Fragment) :
    write d bound (.name identifier :: f) = d.quoteName identifier ++ write d bound f := by
  simp [write, writeFrom, Dialect.quoteName]

@[simp] theorem write_hole (v : Value) (f : Fragment) :
    write d bound (.hole v :: f) =
      String.ofList (d.placeholder (bound + 1)) ++ write d (bound + 1) f := by
  simp [write, writeFrom]

@[simp] theorem write_append (f g : Fragment) :
    write d bound (f ++ g) = write d bound f ++ write d (bound + f.values.length) g := by
  unfold write
  rw [writeFrom_append, String.ofList_append]

attribute [simp] values values_append

/-! ## Fragments side by side -/

/-- The texts of fragments that stand in a row. -/
def writeAll (d : Dialect) : Nat → List Fragment → List String
  | _, [] => []
  | bound, f :: rest => f.write d bound :: writeAll d (bound + f.values.length) rest

@[simp] theorem isEmpty_writeAll (fs : List Fragment) :
    (writeAll d bound fs).isEmpty = fs.isEmpty := by
  cases fs <;> rfl

theorem writeAll_append (fs gs : List Fragment) :
    writeAll d bound (fs ++ gs) =
      writeAll d bound fs ++ writeAll d (bound + (fs.flatMap values).length) gs := by
  induction fs generalizing bound with
  | nil => rfl
  | cons f rest ih => simp [writeAll, ih, Nat.add_assoc]

@[simp] theorem values_joined (separator : String) (fs : List Fragment) :
    values (joined separator fs) = fs.flatMap values := by
  induction fs using joined.induct with
  | case1 => rfl
  | case2 f => simp [joined]
  | case3 f g rest ih => simp [joined, ih]

@[simp] theorem write_joined (separator : String) (fs : List Fragment) :
    write d bound (joined separator fs) = Text.joined separator (writeAll d bound fs) := by
  induction fs using joined.induct generalizing bound with
  | case1 => rfl
  | case2 f => simp [joined, writeAll]
  | case3 f g rest ih =>
    have hrest := ih (bound + f.values.length)
    rw [writeAll] at hrest
    rw [joined, write_append, write_text, hrest, writeAll, writeAll, Text.joined_cons_cons,
      String.append_assoc]

/-! ## Parts without values -/

theorem writeAll_map {α : Type} (part : α → Fragment) (hpart : ∀ a, (part a).values = [])
    (l : List α) : writeAll d bound (l.map part) = l.map fun a => (part a).write d bound := by
  induction l with
  | nil => rfl
  | cons a rest ih => rw [List.map_cons, writeAll, hpart, List.length_nil, Nat.add_zero, ih]; rfl

theorem flatMap_values_map {α : Type} (part : α → Fragment) (hpart : ∀ a, (part a).values = [])
    (l : List α) : (l.map part).flatMap values = [] := by
  simp [hpart]

theorem values_segment (s : String) : values [segment s] = [] := by
  unfold segment
  split <;> rfl

@[simp] theorem values_path (p : String) : values (path p) = [] := by
  rw [path, values_joined, flatMap_values_map _ values_segment]

theorem write_segment (segment : List Char) :
    (write d bound [Fragment.segment (String.ofList segment)]).toList = d.quoteSegment segment := by
  unfold Fragment.segment Dialect.quoteSegment
  by_cases h : segment = ['*']
  · subst h
    have hstar : String.ofList ['*'] = "*" := rfl
    rw [if_pos hstar, if_pos rfl]
    simp
  · have hs : String.ofList segment ≠ "*" := fun hs => h (by simpa using congrArg String.toList hs)
    rw [if_neg hs, if_neg h]
    simp [Dialect.quoteName]

@[simp] theorem write_path (p : String) : write d bound (path p) = d.quotePath p := by
  rw [path, write_joined, writeAll_map _ _ _ values_segment, Text.joined, Text.fields,
    Dialect.quotePath, List.map_map, List.map_map]
  exact congrArg (fun parts => String.ofList (Text.joinWith ['.'] parts))
    (List.map_congr_left fun segment _ => write_segment d bound segment)

@[simp] theorem values_names (identifiers : List String) : values (names identifiers) = [] := by
  rw [names, values_joined, flatMap_values_map name fun _ => rfl]

@[simp] theorem write_names (identifiers : List String) :
    write d bound (names identifiers) = Text.joined ", " (identifiers.map d.quoteName) := by
  have hwrite : ∀ s, write d bound (name s) = d.quoteName s := fun s => by simp [name]
  rw [names, write_joined, writeAll_map _ _ name fun _ => rfl]
  simp only [hwrite]

/-! ## Placeholders among texts -/

/-- The texts between the placeholders. -/
def cuts (d : Dialect) : Fragment → List String
  | [] => [""]
  | .text sql :: rest => (cuts d rest).modifyHead (sql ++ ·)
  | .name identifier :: rest => (cuts d rest).modifyHead (d.quoteName identifier ++ ·)
  | .hole _ :: rest => "" :: cuts d rest

theorem length_cuts (f : Fragment) : (cuts d f).length = f.values.length + 1 := by
  induction f with
  | nil => rfl
  | cons p rest ih => cases p <;> simp [cuts, ih]

end Fragment

/-- The texts with placeholders between each two, numbered from the one after `bound`. -/
def Dialect.fill (d : Dialect) : Nat → List String → String
  | _, [] => ""
  | _, [text] => text
  | bound, text :: next :: rest =>
    text ++ String.ofList (d.placeholder (bound + 1)) ++ d.fill (bound + 1) (next :: rest)

theorem Dialect.fill_modifyHead (d : Dialect) (bound : Nat) (text : String) {texts : List String}
    (h : texts ≠ []) :
    d.fill bound (texts.modifyHead (text ++ ·)) = text ++ d.fill bound texts := by
  match texts, h with
  | [a], _ => rfl
  | a :: b :: rest, _ => simp [fill, String.append_assoc]

theorem Fragment.write_eq_fill (d : Dialect) (bound : Nat) (f : Fragment) :
    f.write d bound = d.fill bound (f.cuts d) := by
  have hne : ∀ f : Fragment, f.cuts d ≠ [] := fun f h => by
    have hlength := length_cuts d f
    rw [h] at hlength
    cases hlength
  induction f generalizing bound with
  | nil => rfl
  | cons p rest ih =>
    cases p with
    | text sql => rw [write_text, ih, cuts, d.fill_modifyHead bound sql (hne rest)]
    | name identifier => rw [write_name, ih, cuts, d.fill_modifyHead bound _ (hne rest)]
    | hole v =>
      obtain ⟨text, texts, hcuts⟩ := List.exists_cons_of_ne_nil (hne rest)
      rw [write_hole, ih, cuts, hcuts, Dialect.fill, String.empty_append]

/-- Without values a fragment is written the same wherever it stands. -/
theorem Fragment.write_of_values {d : Dialect} {f : Fragment} (h : f.values = []) (bound : Nat) :
    f.write d bound = f.write d 0 := by
  have hlength := length_cuts d f
  rw [h] at hlength
  obtain ⟨text, htext⟩ := List.length_eq_one_iff.mp hlength
  rw [write_eq_fill, write_eq_fill, htext]
  rfl

/-- Only the placeholders of one dialect are numbered. -/
theorem Dialect.fill_unnumbered {d : Dialect} (h : d ≠ .postgres) (bound bound' : Nat)
    (texts : List String) : d.fill bound texts = d.fill bound' texts := by
  have hplaceholder : ∀ n n', d.placeholder n = d.placeholder n' := by
    intro n n'
    cases d with
    | postgres => exact (h rfl).elim
    | mysql | mariadb | sqlite => rfl
  induction texts generalizing bound bound' with
  | nil => rfl
  | cons text rest ih =>
    cases rest with
    | nil => rfl
    | cons next rest => rw [fill, fill, hplaceholder (bound + 1) (bound' + 1), ih _ (bound' + 1)]

end RecordMapper
