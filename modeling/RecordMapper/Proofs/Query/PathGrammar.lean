import Mathlib.Computability.Language
import RecordMapper.Proofs.Outcome
import RecordMapper.Proofs.Text
import RecordMapper.Query.JsonPath

/-!
The grammar of paths into a JSON column.

* `JsonPath.paths` is the language `key index* ('.' key index*)*` over a language of index digits.
* `Member` is a key with its indexes, as they are written. `mem_paths` and `writtenSteps_eq_some` say
  that the grammar and the reader are about the same lists of members.
* `reads_grammar_exactly`: what is read is the grammar with the numbers of 64 bits, and it is written
  back as it was, but for zeros in front of an index.
* `read_eq_scan`: to recognise a text by the grammar with digits of any script, and then to pick its
  keys and indexes from left to right, gives the same.
-/
namespace RecordMapper

set_option autoImplicit false

open RecordMapper.Text
open scoped Computability

namespace JsonPath

/-! ## The grammar -/

/-- One or more characters, none of them a dot or a bracket. -/
def keys : Language Char := {cs | cs ≠ [] ∧ ∀ c ∈ cs, c ≠ '.' ∧ c ≠ '[' ∧ c ≠ ']'}

/-- One or more ASCII digits, of a number that fits in 64 bits. -/
def numbers : Language Char :=
  {cs | cs ≠ [] ∧ (∀ c ∈ cs, c.isDigit = true) ∧ foldDigits 0 cs < 2 ^ 64}

/-- One or more digits of any script. -/
def decimals : Language Char := {cs | cs ≠ [] ∧ ∀ c ∈ cs, isDecimalDigit c = true}

section Grammar

variable (digits : Language Char)

def indexes : Language Char := {['[']} * digits * {[']']}

/-- A key with its indexes. -/
def members : Language Char := keys * (indexes digits)∗

def paths : Language Char := members digits * ({['.']} * members digits)∗

end Grammar

/-! ## Members -/

def bracketed (digits : List Char) : List Char := '[' :: digits ++ [']']

/-- A key and the digits of its indexes, as they are written. -/
structure Member where
  key : List Char
  indexes : List (List Char)

namespace Member

def chars (m : Member) : List Char := m.key ++ m.indexes.flatMap bracketed

def steps (m : Member) : List WrittenStep := .key m.key :: m.indexes.map .index

structure Within (digits : Language Char) (m : Member) : Prop where
  key : m.key ∈ keys
  indexes : ∀ ds ∈ m.indexes, ds ∈ digits

end Member

/-- Several members, with a dot between each two. -/
def membersText (ms : List Member) : List Char := joinWith ['.'] (ms.map Member.chars)

section Grammar

variable {digits : Language Char}

/-- The repetitions of a language whose words are the texts of some things. -/
theorem mem_kstar_of_texts {α : Type} {l : Language Char} {p : α → Prop} {text : α → List Char}
    (hl : ∀ cs, cs ∈ l ↔ ∃ a, p a ∧ text a = cs) (cs : List Char) :
    cs ∈ l∗ ↔ ∃ as : List α, (∀ a ∈ as, p a) ∧ as.flatMap text = cs := by
  rw [Language.mem_kstar]
  constructor
  · rintro ⟨words, rfl, hwords⟩
    induction words with
    | nil => exact ⟨[], nofun, rfl⟩
    | cons word rest ih =>
      obtain ⟨a, ha, rfl⟩ := (hl word).mp (hwords word (List.mem_cons_self ..))
      obtain ⟨as, has, hrest⟩ := ih fun w hw => hwords w (List.mem_cons_of_mem _ hw)
      refine ⟨a :: as, List.forall_mem_cons.mpr ⟨ha, has⟩, ?_⟩
      rw [List.flatMap_cons, hrest, List.flatten_cons]
  · rintro ⟨as, has, rfl⟩
    refine ⟨as.map text, List.flatMap_def .., ?_⟩
    intro word hword
    obtain ⟨a, ha, rfl⟩ := List.mem_map.mp hword
    exact (hl _).mpr ⟨a, has a ha, rfl⟩

theorem mem_indexes (cs : List Char) :
    cs ∈ indexes digits ↔ ∃ ds, ds ∈ digits ∧ bracketed ds = cs := by
  unfold indexes
  constructor
  · intro h
    obtain ⟨front, hfront, close, hclose, rfl⟩ := Language.mem_mul.mp h
    obtain ⟨opening, hopen, ds, hds, rfl⟩ := Language.mem_mul.mp hfront
    cases hclose
    cases hopen
    exact ⟨ds, hds, rfl⟩
  · rintro ⟨ds, hds, rfl⟩
    exact Language.append_mem_mul (Language.append_mem_mul (Set.mem_singleton ['[']) hds)
      (Set.mem_singleton [']'])

theorem mem_members (cs : List Char) :
    cs ∈ members digits ↔ ∃ m : Member, m.Within digits ∧ m.chars = cs := by
  unfold members
  rw [Language.mem_mul]
  constructor
  · rintro ⟨key, hkey, rest, hrest, rfl⟩
    obtain ⟨dss, hdss, rfl⟩ := (mem_kstar_of_texts mem_indexes rest).mp hrest
    exact ⟨⟨key, dss⟩, ⟨hkey, hdss⟩, rfl⟩
  · rintro ⟨m, hm, rfl⟩
    exact ⟨m.key, hm.key, _, (mem_kstar_of_texts mem_indexes _).mpr ⟨m.indexes, hm.indexes, rfl⟩, rfl⟩

theorem membersText_cons (m : Member) (ms : List Member) :
    membersText (m :: ms) = m.chars ++ ms.flatMap fun n => '.' :: n.chars := by
  induction ms generalizing m with
  | nil => simp [membersText, joinWith]
  | cons n rest ih =>
    have hrest := ih n
    unfold membersText at hrest ⊢
    rw [List.map_cons, List.map_cons, joinWith, ← List.map_cons, hrest]
    simp

/-- A path is one member or more. -/
theorem mem_paths (cs : List Char) :
    cs ∈ paths digits ↔
      ∃ ms : List Member, ms ≠ [] ∧ (∀ m ∈ ms, m.Within digits) ∧ membersText ms = cs := by
  have hdotted : ∀ w : List Char, w ∈ ({['.']} * members digits : Language Char) ↔
      ∃ m : Member, m.Within digits ∧ '.' :: m.chars = w := by
    intro w
    rw [Language.mem_mul]
    constructor
    · rintro ⟨dot, hdot, rest, hrest, rfl⟩
      obtain ⟨m, hm, rfl⟩ := (mem_members rest).mp hrest
      cases hdot
      exact ⟨m, hm, rfl⟩
    · rintro ⟨m, hm, rfl⟩
      exact ⟨['.'], Set.mem_singleton _, m.chars, (mem_members _).mpr ⟨m, hm, rfl⟩, rfl⟩
  unfold paths
  rw [Language.mem_mul]
  constructor
  · rintro ⟨front, hfront, rest, hrest, rfl⟩
    obtain ⟨m, hm, rfl⟩ := (mem_members front).mp hfront
    obtain ⟨ms, hms, rfl⟩ := (mem_kstar_of_texts hdotted rest).mp hrest
    exact ⟨m :: ms, List.cons_ne_nil m ms, List.forall_mem_cons.mpr ⟨hm, hms⟩, membersText_cons m ms⟩
  · rintro ⟨ms, hne, hms, rfl⟩
    obtain ⟨m, rest, rfl⟩ := List.exists_cons_of_ne_nil hne
    have hwithin := List.forall_mem_cons.mp hms
    exact ⟨m.chars, (mem_members _).mpr ⟨m, hwithin.1, rfl⟩, _,
      (mem_kstar_of_texts hdotted _).mpr ⟨rest, hwithin.2, rfl⟩, (membersText_cons m rest).symm⟩

end Grammar

/-! ## Reading members -/

theorem isKeyChar_iff {c : Char} : isKeyChar c = true ↔ c ≠ '.' ∧ c ≠ '[' ∧ c ≠ ']' := by
  simp [isKeyChar, and_assoc]

/-- What was read since an open bracket. -/
def opened : Option (List Char) → List Char
  | none => []
  | some ds => '[' :: ds.reverse

/-- What is read as indexes was written as such: with what was read before it, the text is a run of
digits in brackets. -/
theorem exists_of_writtenIndexes {cs : List Char} {digits : Option (List Char)}
    {steps : List WrittenStep} (hdigits : ∀ ds ∈ digits, ∀ c ∈ ds, isDecimalDigit c = true)
    (h : writtenIndexes digits cs = some steps) :
    ∃ dss : List (List Char), (∀ ds ∈ dss, ds ∈ decimals) ∧
      dss.flatMap bracketed = opened digits ++ cs ∧ dss.map .index = steps := by
  induction cs generalizing digits steps with
  | nil =>
    cases digits with
    | none =>
      cases h
      exact ⟨[], nofun, rfl, rfl⟩
    | some ds => cases h
  | cons c rest ih =>
    cases digits with
    | none =>
      rw [writtenIndexes] at h
      split at h
      · next hc =>
        obtain ⟨dss, hdss, htext, hsteps⟩ := ih (by simp) h
        exact ⟨dss, hdss, by rw [htext, hc]; rfl, hsteps⟩
      · cases h
    | some ds =>
      have hds := hdigits ds rfl
      rw [writtenIndexes] at h
      split at h
      · next hc =>
        have hmore : ∀ es ∈ some (c :: ds), ∀ e ∈ es, isDecimalDigit e = true := by
          rintro es ⟨⟩
          exact List.forall_mem_cons.mpr ⟨hc, hds⟩
        obtain ⟨dss, hdss, htext, hsteps⟩ := ih hmore h
        exact ⟨dss, hdss, by rw [htext]; simp [opened], hsteps⟩
      · split at h
        · next hclose =>
          obtain ⟨rfl, hne⟩ := hclose
          obtain ⟨later, hlater, rfl⟩ := Option.map_eq_some_iff.mp h
          obtain ⟨dss, hdss, htext, hsteps⟩ := ih (by simp) hlater
          have hdecimal : ds.reverse ∈ decimals :=
            ⟨by simpa using hne, fun c hc => hds c (List.mem_reverse.mp hc)⟩
          refine ⟨ds.reverse :: dss, List.forall_mem_cons.mpr ⟨hdecimal, hdss⟩, ?_, ?_⟩
          · rw [List.flatMap_cons, htext]
            simp [opened, bracketed]
          · rw [List.map_cons, hsteps]
        · cases h

/-- Digits are read up to the closing bracket. -/
theorem writtenIndexes_digits {more : List Char} (hmore : ∀ c ∈ more, isDecimalDigit c = true)
    (ds : List Char) (hne : ds.reverse ++ more ≠ []) (rest : List Char) :
    writtenIndexes (some ds) (more ++ ']' :: rest) =
      (writtenIndexes none rest).map (.index (ds.reverse ++ more) :: ·) := by
  induction more generalizing ds with
  | nil =>
    have hds : ds.isEmpty = false := by simpa using hne
    have hclose : isDecimalDigit ']' = false := by decide
    rw [List.nil_append, writtenIndexes, List.append_nil]
    simp [hclose, hds]
  | cons c more ih =>
    have hcs := List.forall_mem_cons.mp hmore
    rw [List.cons_append, writtenIndexes]
    simp only [hcs.1, if_true]
    rw [ih hcs.2 (c :: ds) (by simp)]
    simp

theorem writtenIndexes_bracketed {dss : List (List Char)} (h : ∀ ds ∈ dss, ds ∈ decimals) :
    writtenIndexes none (dss.flatMap bracketed) = some (dss.map .index) := by
  induction dss with
  | nil => rfl
  | cons ds rest ih =>
    obtain ⟨hds, hrest⟩ := List.forall_mem_cons.mp h
    have hread : writtenIndexes (some []) (ds ++ ']' :: rest.flatMap bracketed) =
        (writtenIndexes none (rest.flatMap bracketed)).map (.index ds :: ·) :=
      writtenIndexes_digits hds.2 [] hds.1 _
    have htext : (ds :: rest).flatMap bracketed = '[' :: (ds ++ ']' :: rest.flatMap bracketed) := by
      simp [bracketed]
    rw [htext, writtenIndexes]
    simp only [if_true]
    rw [hread, ih hrest]
    rfl

/-- Behind a key there is an open bracket or nothing. -/
theorem head_bracketed {dss : List (List Char)} {c : Char}
    (h : (dss.flatMap bracketed).head? = some c) : c = '[' := by
  cases dss with
  | nil => cases h
  | cons ds rest =>
    cases h
    rfl

theorem takeWhile_isKeyChar {key rest : List Char} (hkey : key ∈ keys)
    (hrest : ∀ c, rest.head? = some c → isKeyChar c = false) :
    (key ++ rest).takeWhile isKeyChar = key ∧ (key ++ rest).dropWhile isKeyChar = rest :=
  takeWhile_run (fun c hc => isKeyChar_iff.mpr (hkey.2 c hc)) hrest

theorem writtenMember_eq_some {cs : List Char} {steps : List WrittenStep} :
    writtenMember cs = some steps ↔
      ∃ m : Member, m.Within decimals ∧ m.chars = cs ∧ m.steps = steps := by
  unfold writtenMember
  constructor
  · intro h
    simp only [] at h
    split at h
    · cases h
    · next hne =>
      obtain ⟨later, hlater, rfl⟩ := Option.map_eq_some_iff.mp h
      obtain ⟨dss, hdss, htext, rfl⟩ := exists_of_writtenIndexes (by simp) hlater
      have hkey : cs.takeWhile isKeyChar ∈ keys :=
        ⟨by simpa using hne, fun c hc =>
          isKeyChar_iff.mp (List.all_eq_true.mp List.all_takeWhile c hc)⟩
      refine ⟨⟨cs.takeWhile isKeyChar, dss⟩, ⟨hkey, hdss⟩, ?_, rfl⟩
      unfold Member.chars
      rw [htext]
      exact List.takeWhile_append_dropWhile
  · rintro ⟨m, hm, rfl, rfl⟩
    have hhead : ∀ c, (m.indexes.flatMap bracketed).head? = some c → isKeyChar c = false := by
      intro c hc
      rw [head_bracketed hc]
      rfl
    obtain ⟨htake, hdrop⟩ := takeWhile_isKeyChar hm.key hhead
    have hne : m.key.isEmpty = false := List.isEmpty_eq_false_iff.mpr hm.key.1
    unfold Member.chars
    simp only [htake, hdrop, hne, Bool.false_eq_true, if_false,
      writtenIndexes_bracketed hm.indexes]
    rfl

theorem mapM_writtenMember {css : List (List Char)} {stepss : List (List WrittenStep)} :
    css.mapM writtenMember = some stepss ↔
      ∃ ms : List Member, (∀ m ∈ ms, m.Within decimals) ∧ ms.map Member.chars = css ∧
        ms.map Member.steps = stepss := by
  induction css generalizing stepss with
  | nil =>
    constructor
    · intro h
      cases h
      exact ⟨[], nofun, rfl, rfl⟩
    · rintro ⟨ms, -, hms, rfl⟩
      rw [List.map_eq_nil_iff.mp hms]
      rfl
  | cons cs rest ih =>
    rw [List.mapM_cons]
    constructor
    · intro h
      obtain ⟨steps, hsteps, h⟩ := Option.bind_eq_some_iff.mp h
      obtain ⟨later, hlater, h⟩ := Option.bind_eq_some_iff.mp h
      cases h
      obtain ⟨m, hm, rfl, rfl⟩ := writtenMember_eq_some.mp hsteps
      obtain ⟨ms, hms, rfl, rfl⟩ := ih.mp hlater
      exact ⟨m :: ms, List.forall_mem_cons.mpr ⟨hm, hms⟩, rfl, rfl⟩
    · rintro ⟨ms, hms, hchars, rfl⟩
      obtain ⟨m, later, rfl, rfl, hlater⟩ := List.map_eq_cons_iff.mp hchars
      obtain ⟨hm, hwithin⟩ := List.forall_mem_cons.mp hms
      rw [writtenMember_eq_some.mpr ⟨m, hm, rfl, rfl⟩, ih.mpr ⟨later, hwithin, hlater, rfl⟩]
      rfl

theorem dot_notMem_chars {m : Member} (h : m.Within decimals) : '.' ∉ m.chars := by
  unfold Member.chars
  rw [List.mem_append, not_or]
  refine ⟨fun hkey => (h.key.2 '.' hkey).1 rfl, fun hindex => ?_⟩
  obtain ⟨ds, hds, hdot⟩ := List.mem_flatMap.mp hindex
  have hdigit : ∀ c ∈ ds, isDecimalDigit c = true := (h.indexes ds hds).2
  have hmem : '.' ∈ ds := by simpa [bracketed] using hdot
  exact absurd (hdigit '.' hmem) (by decide)

theorem writtenSteps_eq_some {cs : List Char} {steps : List WrittenStep} :
    writtenSteps cs = some steps ↔
      ∃ ms : List Member, ms ≠ [] ∧ (∀ m ∈ ms, m.Within decimals) ∧ membersText ms = cs ∧
        ms.flatMap Member.steps = steps := by
  unfold writtenSteps
  rw [Option.map_eq_some_iff]
  constructor
  · rintro ⟨stepss, hstepss, rfl⟩
    obtain ⟨ms, hms, hchars, rfl⟩ := mapM_writtenMember.mp hstepss
    refine ⟨ms, ?_, hms, ?_, List.flatMap_def ..⟩
    · rintro rfl
      exact fieldsFrom_ne_nil '.' [] cs hchars.symm
    · unfold membersText fieldsAt at *
      rw [hchars, joinWith_fieldsFrom]
      rfl
  · rintro ⟨ms, hne, hms, rfl, rfl⟩
    have hfields : fieldsAt '.' (membersText ms) = ms.map Member.chars := by
      refine fieldsAt_joinWith (fun h => hne (List.map_eq_nil_iff.mp h)) fun part hpart => ?_
      obtain ⟨m, hm, rfl⟩ := List.mem_map.mp hpart
      exact dot_notMem_chars (hms m hm)
    exact ⟨ms.map Member.steps, mapM_writtenMember.mpr ⟨ms, hms, hfields.symm, rfl⟩,
      (List.flatMap_def ..).symm⟩

/-! ## Steps -/

namespace WrittenStep

/-- The step that is meant. -/
def value : WrittenStep → JsonStep
  | .key name => .key (String.ofList name)
  | .index ds => .index (foldDigits 0 ds)

def Fits : WrittenStep → Prop
  | .key _ => True
  | .index ds => ds ∈ numbers

end WrittenStep

theorem stepOf_eq_ok {path : String} {w : WrittenStep} {s : JsonStep} :
    stepOf path w = .ok s ↔ w.Fits ∧ w.value = s := by
  cases w with
  | key name => simp [stepOf, WrittenStep.Fits, WrittenStep.value]
  | index ds =>
    show stepOf path (.index ds) = .ok s ↔ ds ∈ numbers ∧ .index (foldDigits 0 ds) = s
    rw [stepOf]
    constructor
    · intro h
      split at h
      · next n hread =>
        obtain ⟨hne, hdigits, rfl⟩ := readNat_eq_some.mp hread
        split at h
        · next hfits =>
          cases h
          exact ⟨⟨hne, hdigits, hfits⟩, rfl⟩
        · cases h
      · cases h
    · rintro ⟨hds, rfl⟩
      have hfits : foldDigits 0 ds < UInt64.size := hds.2.2
      rw [readNat_eq_some.mpr ⟨hds.1, hds.2.1, rfl⟩]
      simp only [hfits, if_true]

theorem mapM_stepOf {path : String} {ws : List WrittenStep} {steps : JsonPath} :
    ws.mapM (stepOf path) = .ok steps ↔ (∀ w ∈ ws, w.Fits) ∧ ws.map WrittenStep.value = steps := by
  induction ws generalizing steps with
  | nil => simp [pure, Except.pure]
  | cons w rest ih =>
    rw [List.mapM_cons]
    constructor
    · intro h
      obtain ⟨s, hs, h⟩ := ok_of_bind h
      obtain ⟨later, hlater, h⟩ := ok_of_bind h
      cases h
      obtain ⟨hw, rfl⟩ := stepOf_eq_ok.mp hs
      obtain ⟨hrest, rfl⟩ := ih.mp hlater
      exact ⟨List.forall_mem_cons.mpr ⟨hw, hrest⟩, rfl⟩
    · rintro ⟨hws, rfl⟩
      obtain ⟨hw, hrest⟩ := List.forall_mem_cons.mp hws
      rw [stepOf_eq_ok.mpr ⟨hw, rfl⟩, ih.mpr ⟨hrest, rfl⟩]
      rfl

theorem isCompilation_of_stepOf {path : String} {w : WrittenStep} {fault : Fault}
    (h : stepOf path w = .error fault) : fault.isCompilation = true := by
  unfold stepOf at h
  split at h
  · cases h
  · split at h
    · split at h
      · cases h
      · cases h
        rfl
    · cases h
      rfl

theorem isCompilation_of_mapM {path : String} {ws : List WrittenStep} {fault : Fault}
    (h : ws.mapM (stepOf path) = .error fault) : fault.isCompilation = true := by
  induction ws with
  | nil => cases h
  | cons w rest ih =>
    rw [List.mapM_cons] at h
    cases hw : stepOf path w with
    | error e =>
      rw [hw] at h
      cases h
      exact isCompilation_of_stepOf hw
    | ok s =>
      cases hrest : rest.mapM (stepOf path) with
      | error e =>
        rw [hw, hrest] at h
        cases h
        exact ih hrest
      | ok steps =>
        rw [hw, hrest] at h
        cases h

/-! ## Reading -/

theorem isDecimalDigit_of_isDigit {c : Char} (h : c.isDigit = true) : isDecimalDigit c = true := by
  have hrange : 48 ≤ c.toNat ∧ c.toNat ≤ 57 := Char.isDigit_iff_toNat.mp h
  have hfirst : (decide (0x30 ≤ c.toNat) && decide (c.toNat ≤ 0x39)) = true := by simpa using hrange
  unfold isDecimalDigit inRanges decimalDigitRanges
  rw [List.any_cons, hfirst, Bool.true_or]

theorem numbers_le_decimals {ds : List Char} (h : ds ∈ numbers) : ds ∈ decimals :=
  ⟨h.1, fun c hc => isDecimalDigit_of_isDigit (h.2.1 c hc)⟩

/-- All steps of a member fit if its indexes are numbers. -/
theorem fits_steps {m : Member} (hm : m.Within decimals) :
    (∀ w ∈ m.steps, w.Fits) ↔ m.Within numbers := by
  unfold Member.steps
  rw [List.forall_mem_cons]
  constructor
  · rintro ⟨-, h⟩
    exact ⟨hm.key, fun ds hds => h (.index ds) (List.mem_map.mpr ⟨ds, hds, rfl⟩)⟩
  · intro h
    refine ⟨trivial, fun w hw => ?_⟩
    obtain ⟨ds, hds, rfl⟩ := List.mem_map.mp hw
    exact h.indexes ds hds

/-- What is read is the steps of members with numbers for indexes. -/
theorem read_eq_ok {p : String} {path : JsonPath} :
    read p = .ok path ↔
      ∃ ms : List Member, ms ≠ [] ∧ (∀ m ∈ ms, m.Within numbers) ∧ membersText ms = body p ∧
        (ms.flatMap Member.steps).map WrittenStep.value = path := by
  unfold read
  constructor
  · intro h
    split at h
    · cases h
    · next ws hws =>
      obtain ⟨ms, hne, hms, htext, rfl⟩ := writtenSteps_eq_some.mp hws
      obtain ⟨hfits, hvalues⟩ := mapM_stepOf.mp h
      refine ⟨ms, hne, fun m hm => (fits_steps (hms m hm)).mp fun w hw => ?_, htext, hvalues⟩
      exact hfits w (List.mem_flatMap.mpr ⟨m, hm, hw⟩)
  · rintro ⟨ms, hne, hms, htext, hvalues⟩
    have hdecimal : ∀ m ∈ ms, m.Within decimals := fun m hm =>
      ⟨(hms m hm).key, fun ds hds => numbers_le_decimals ((hms m hm).indexes ds hds)⟩
    rw [writtenSteps_eq_some.mpr ⟨ms, hne, hdecimal, htext, rfl⟩]
    refine mapM_stepOf.mpr ⟨fun w hw => ?_, hvalues⟩
    obtain ⟨m, hm, hw⟩ := List.mem_flatMap.mp hw
    exact (fits_steps (hdecimal m hm)).mpr (hms m hm) w hw

theorem isCompilation_of_read {p : String} {fault : Fault} (h : read p = .error fault) :
    fault.isCompilation = true := by
  unfold read at h
  split at h
  · cases h
    rfl
  · exact isCompilation_of_mapM h

/-! ## Writing back -/

def stepChars : JsonStep → List Char
  | .key name => '.' :: name.toList
  | .index n => bracketed (natChars n)

/-- A path as it is written; there is no dot in front of a key at the beginning. -/
def spelled : JsonPath → List Char
  | .key name :: rest => name.toList ++ rest.flatMap stepChars
  | steps => steps.flatMap stepChars

/-- A text without the zeros in front of its indexes; the last digit of an index stays. `fresh` says
that an index has begun and nothing of it is left so far. -/
def withoutLeadingZeros (fresh : Bool) : List Char → List Char
  | [] => []
  | c :: rest =>
    if fresh ∧ c = '0' ∧ rest.head?.any Char.isDigit then withoutLeadingZeros true rest
    else c :: withoutLeadingZeros (c == '[') rest

/-- Nothing changes up to an open bracket. -/
theorem withoutLeadingZeros_plain {cs : List Char} (h : '[' ∉ cs) (rest : List Char) :
    withoutLeadingZeros false (cs ++ rest) = cs ++ withoutLeadingZeros false rest := by
  induction cs with
  | nil => rfl
  | cons c more ih =>
    rw [List.mem_cons, not_or] at h
    have hopen : (c == '[') = false := beq_false_of_ne (Ne.symm h.1)
    rw [List.cons_append, withoutLeadingZeros, if_neg (by simp), hopen, ih h.2]
    rfl

theorem withoutLeadingZeros_index {ds : List Char} (hne : ds ≠ [])
    (h : ∀ c ∈ ds, c.isDigit = true) (rest : List Char) :
    withoutLeadingZeros true (ds ++ ']' :: rest) =
      natChars (foldDigits 0 ds) ++ ']' :: withoutLeadingZeros false rest := by
  have hopen : ∀ {cs : List Char}, (∀ c ∈ cs, c.isDigit = true) → '[' ∉ cs := fun hcs hmem =>
    absurd (hcs '[' hmem) (by decide)
  have hclose : withoutLeadingZeros false (']' :: rest) = ']' :: withoutLeadingZeros false rest := by
    rw [withoutLeadingZeros, if_neg (by simp)]
    rfl
  induction ds with
  | nil => exact absurd rfl hne
  | cons c more ih =>
    obtain ⟨hc, hmore⟩ := List.forall_mem_cons.mp h
    have hkept : (c == '[') = false := by
      have hnot := hopen h
      rw [List.mem_cons, not_or] at hnot
      exact beq_false_of_ne (Ne.symm hnot.1)
    rw [List.cons_append, withoutLeadingZeros]
    cases more with
    | nil =>
      -- The last digit stays, be it a zero.
      rw [if_neg (by simp), hkept, List.nil_append, hclose]
      have hvalue : foldDigits 0 [c] = digitValue c := by simp [foldDigits]
      rw [hvalue, natChars_digitValue hc]
      rfl
    | cons d more =>
      have hd : d.isDigit = true := hmore d (List.mem_cons_self ..)
      by_cases hzero : c = '0'
      · rw [if_pos (by simp [hzero, hd]), ih (List.cons_ne_nil d more) hmore, hzero]
        rfl
      · rw [if_neg (by simp [hzero]), hkept, withoutLeadingZeros_plain (hopen hmore), hclose,
          natChars_foldDigits_zero hzero h]
        rfl

/-- The steps of a member, the dot in front of the key apart. -/
theorem withoutLeadingZeros_member {m : Member} (hm : m.Within numbers) (rest : List Char) :
    withoutLeadingZeros false (m.chars ++ rest) =
      m.key ++ ((m.indexes.map .index).map WrittenStep.value).flatMap stepChars ++
        withoutLeadingZeros false rest := by
  obtain ⟨key, dss⟩ := m
  have hplain : '[' ∉ key := fun hopen => (hm.key.2 '[' hopen).2.1 rfl
  have hdss := hm.indexes
  have hindexes : withoutLeadingZeros false (dss.flatMap bracketed ++ rest) =
      ((dss.map .index).map WrittenStep.value).flatMap stepChars ++
        withoutLeadingZeros false rest := by
    clear hm
    induction dss with
    | nil => rfl
    | cons ds later ih =>
      obtain ⟨hds, hlater⟩ := List.forall_mem_cons.mp hdss
      have htext : (ds :: later).flatMap bracketed ++ rest =
          '[' :: (ds ++ ']' :: (later.flatMap bracketed ++ rest)) := by
        simp [bracketed]
      have hstart : ∀ cs : List Char,
          withoutLeadingZeros false ('[' :: cs) = '[' :: withoutLeadingZeros true cs := fun cs => by
        rw [withoutLeadingZeros, if_neg (by simp)]
        rfl
      rw [htext, hstart, withoutLeadingZeros_index hds.1 hds.2.1, ih hlater]
      simp [WrittenStep.value, stepChars, bracketed]
  unfold Member.chars
  rw [List.append_assoc, withoutLeadingZeros_plain hplain, hindexes, List.append_assoc]

theorem withoutLeadingZeros_members {ms : List Member} (hms : ∀ m ∈ ms, m.Within numbers) :
    withoutLeadingZeros false (ms.flatMap fun n => '.' :: n.chars) =
      ((ms.flatMap Member.steps).map WrittenStep.value).flatMap stepChars := by
  induction ms with
  | nil => rfl
  | cons m rest ih =>
    obtain ⟨hm, hrest⟩ := List.forall_mem_cons.mp hms
    have hdot : ∀ cs : List Char,
        withoutLeadingZeros false (['.'] ++ cs) = ['.'] ++ withoutLeadingZeros false cs := fun cs =>
      withoutLeadingZeros_plain (by simp) cs
    have htext : ((m :: rest).flatMap fun n => '.' :: n.chars) =
        ['.'] ++ (m.chars ++ rest.flatMap fun n => '.' :: n.chars) := rfl
    rw [htext, hdot, withoutLeadingZeros_member hm, ih hrest]
    simp [Member.steps, WrittenStep.value, stepChars]

theorem spelled_of_read {p : String} {path : JsonPath} (h : read p = .ok path) :
    spelled path = withoutLeadingZeros false (body p) := by
  obtain ⟨ms, hne, hms, htext, rfl⟩ := read_eq_ok.mp h
  obtain ⟨m, rest, rfl⟩ := List.exists_cons_of_ne_nil hne
  obtain ⟨hm, hrest⟩ := List.forall_mem_cons.mp hms
  rw [← htext, membersText_cons, withoutLeadingZeros_member hm, withoutLeadingZeros_members hrest]
  simp [Member.steps, WrittenStep.value, spelled]

/-- A key without dots and brackets, or an index of 64 bits. -/
def IsPlain : JsonStep → Prop
  | .key name => name.toList ∈ keys
  | .index n => n < 2 ^ 64

theorem isPlain_of_read {p : String} {path : JsonPath} (h : read p = .ok path) :
    ∀ s ∈ path, IsPlain s := by
  obtain ⟨ms, -, hms, -, rfl⟩ := read_eq_ok.mp h
  intro s hs
  obtain ⟨w, hw, rfl⟩ := List.mem_map.mp hs
  obtain ⟨m, hm, hw⟩ := List.mem_flatMap.mp hw
  rcases List.mem_cons.mp hw with rfl | hw
  · show (String.ofList m.key).toList ∈ keys
    rw [String.toList_ofList]
    exact (hms m hm).key
  · obtain ⟨ds, hds, rfl⟩ := List.mem_map.mp hw
    exact ((hms m hm).indexes ds hds).2.2

/-- A path is read exactly if its text is `key index* ('.' key index*)*`. What is read consists of
such keys and indexes, begins with a key, and is written back as the text without the zeros in front
of indexes. All other texts are refused as not to be compiled. -/
theorem reads_grammar_exactly (p : String) :
    ((∃ path, read p = .ok path) ↔ body p ∈ paths numbers) ∧
    (∀ path, read p = .ok path →
      (∀ s ∈ path, IsPlain s) ∧ (∃ name rest, path = .key name :: rest) ∧
        spelled path = withoutLeadingZeros false (body p)) ∧
    (body p ∉ paths numbers → ∃ fault, read p = .error fault ∧ fault.isCompilation = true) := by
  have haccepts : (∃ path, read p = .ok path) ↔ body p ∈ paths numbers := by
    rw [mem_paths]
    constructor
    · rintro ⟨path, h⟩
      obtain ⟨ms, hne, hms, htext, -⟩ := read_eq_ok.mp h
      exact ⟨ms, hne, hms, htext⟩
    · rintro ⟨ms, hne, hms, htext⟩
      exact ⟨_, read_eq_ok.mpr ⟨ms, hne, hms, htext, rfl⟩⟩
  refine ⟨haccepts, fun path h => ⟨isPlain_of_read h, ?_, spelled_of_read h⟩, fun hnot => ?_⟩
  · obtain ⟨ms, hne, -, -, rfl⟩ := read_eq_ok.mp h
    obtain ⟨m, rest, rfl⟩ := List.exists_cons_of_ne_nil hne
    exact ⟨_, _, rfl⟩
  · cases h : read p with
    | ok path => exact absurd (haccepts.mp ⟨path, h⟩) hnot
    | error fault => exact ⟨fault, rfl, isCompilation_of_read h⟩

theorem reads_grammar_exactly_oddKey :
    read " $.odd key[007][0].b " = .ok [.key "odd key", .index 7, .index 0, .key "b"] ∧
      spelled [.key "odd key", .index 7, .index 0, .key "b"] =
        withoutLeadingZeros false "odd key[007][0].b".toList ∧
      "odd key[007][0].b".toList ∈ paths numbers := by
  have hread : read " $.odd key[007][0].b " =
      .ok [.key "odd key", .index 7, .index 0, .key "b"] := rfl
  have hexact := reads_grammar_exactly " $.odd key[007][0].b "
  exact ⟨hread, (hexact.2.1 _ hread).2.2, hexact.1.mp ⟨_, hread⟩⟩

/-! ## Recognising and picking -/

/-- The keys and the indexes in a text from left to right. What is neither is passed over. -/
def scan : List Char → List WrittenStep
  | [] => []
  | c :: rest =>
    if isKeyChar c then .key (c :: rest.takeWhile isKeyChar) :: scan (rest.dropWhile isKeyChar)
    else if c = '[' ∧ rest.takeWhile isDecimalDigit ≠ [] ∧
        (rest.dropWhile isDecimalDigit).head? = some ']' then
      .index (rest.takeWhile isDecimalDigit) :: scan (rest.dropWhile isDecimalDigit).tail
    else scan rest
termination_by cs => cs.length
decreasing_by
  · exact Nat.lt_succ_of_le (List.dropWhile_sublist _).length_le
  · exact Nat.lt_succ_of_le
      (Nat.le_trans (List.tail_sublist _).length_le (List.dropWhile_sublist _).length_le)
  · exact Nat.lt_succ_self _

theorem scan_key {key rest : List Char} (hkey : key ∈ keys)
    (hrest : ∀ c, rest.head? = some c → isKeyChar c = false) :
    scan (key ++ rest) = .key key :: scan rest := by
  obtain ⟨c, more, rfl⟩ := List.exists_cons_of_ne_nil hkey.1
  have hc : isKeyChar c = true := isKeyChar_iff.mpr (hkey.2 c (List.mem_cons_self ..))
  obtain ⟨htake, hdrop⟩ := takeWhile_isKeyChar hkey hrest
  rw [List.cons_append, List.takeWhile_cons_of_pos hc] at htake
  rw [List.cons_append, List.dropWhile_cons_of_pos hc] at hdrop
  rw [List.cons_append, scan, if_pos hc, htake, hdrop]

theorem scan_bracketed {ds : List Char} (hds : ds ∈ decimals) (rest : List Char) :
    scan (bracketed ds ++ rest) = .index ds :: scan rest := by
  have hclose : ∀ c, (']' :: rest).head? = some c → isDecimalDigit c = false := by
    rintro c ⟨⟩
    decide
  obtain ⟨htake, hdrop⟩ := takeWhile_run hds.2 hclose
  have htext : bracketed ds ++ rest = '[' :: (ds ++ ']' :: rest) := by simp [bracketed]
  rw [htext, scan, if_neg (by decide), htake, hdrop, if_pos ⟨rfl, hds.1, rfl⟩]
  rfl

theorem scan_indexes {dss : List (List Char)} (h : ∀ ds ∈ dss, ds ∈ decimals) (rest : List Char) :
    scan (dss.flatMap bracketed ++ rest) = dss.map .index ++ scan rest := by
  induction dss with
  | nil => rfl
  | cons ds later ih =>
    obtain ⟨hds, hlater⟩ := List.forall_mem_cons.mp h
    rw [List.flatMap_cons, List.append_assoc, scan_bracketed hds, ih hlater]
    rfl

theorem scan_member {m : Member} (hm : m.Within decimals) {rest : List Char}
    (hrest : ∀ c, rest.head? = some c → isKeyChar c = false) :
    scan (m.chars ++ rest) = m.steps ++ scan rest := by
  have hhead : ∀ c, (m.indexes.flatMap bracketed ++ rest).head? = some c →
      isKeyChar c = false := by
    intro c hc
    rw [List.head?_append] at hc
    rcases Option.or_eq_some_iff.mp hc with hindex | ⟨-, hc⟩
    · rw [head_bracketed hindex]
      rfl
    · exact hrest c hc
  unfold Member.chars Member.steps
  rw [List.append_assoc, scan_key hm.key hhead, scan_indexes hm.indexes]
  rfl

theorem scan_membersText {ms : List Member} (hms : ∀ m ∈ ms, m.Within decimals) :
    scan (membersText ms) = ms.flatMap Member.steps := by
  have hdotted : ∀ later : List Member, ∀ c,
      (later.flatMap fun n => '.' :: n.chars).head? = some c → isKeyChar c = false := by
    intro later c hc
    cases later with
    | nil => cases hc
    | cons n rest =>
      cases hc
      rfl
  cases ms with
  | nil => simp [membersText, joinWith, scan]
  | cons m rest =>
    rw [membersText_cons]
    induction rest generalizing m with
    | nil =>
      obtain ⟨hm, -⟩ := List.forall_mem_cons.mp hms
      rw [scan_member hm (hdotted []), List.flatMap_nil, scan, List.flatMap_cons, List.flatMap_nil]
    | cons n rest ih =>
      obtain ⟨hm, hrest⟩ := List.forall_mem_cons.mp hms
      have hdot : ∀ cs : List Char, scan ('.' :: cs) = scan cs := fun cs => by
        rw [scan, if_neg (by decide), if_neg (by simp)]
      rw [scan_member hm (hdotted (n :: rest)), List.flatMap_cons, List.cons_append, hdot,
        ih n hrest]
      rfl

/-- A text that the grammar accepts, with digits of any script, has the steps that are picked from
it; it is refused if one of them is out of range. -/
theorem read_eq_scan (p : String) :
    (body p ∈ paths decimals → read p = (scan (body p)).mapM (stepOf p)) ∧
    (body p ∉ paths decimals → read p = .error (.compilation .malformedPath (some p))) := by
  have hrecognised : body p ∈ paths decimals ↔ ∃ ws, writtenSteps (body p) = some ws := by
    rw [mem_paths]
    constructor
    · rintro ⟨ms, hne, hms, htext⟩
      exact ⟨_, writtenSteps_eq_some.mpr ⟨ms, hne, hms, htext, rfl⟩⟩
    · rintro ⟨ws, hws⟩
      obtain ⟨ms, hne, hms, htext, -⟩ := writtenSteps_eq_some.mp hws
      exact ⟨ms, hne, hms, htext⟩
  rw [hrecognised]
  unfold read
  constructor
  · rintro ⟨ws, hws⟩
    obtain ⟨ms, -, hms, htext, rfl⟩ := writtenSteps_eq_some.mp hws
    rw [hws, ← htext, scan_membersText hms]
  · intro hnone
    cases hws : writtenSteps (body p) with
    | none => rfl
    | some ws => exact absurd ⟨ws, hws⟩ hnone

end JsonPath

end RecordMapper
