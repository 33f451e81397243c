import RecordMapper.Proofs.Query.PathGrammar

/-!
Paths in the form that starts with a dollar sign, as they are read.

* `readDollar` reads the grammar of this form: a member is a dot and a bare name or a text in quotes,
  in which a backslash stands in front of a character to be taken as it is; an element is a number
  in brackets.
* `readStep_dollarStep`: a step without a backslash is read back, whatever is written behind it.
* `readsBelow_of_backslash`: a backslash in a key hides the character behind it, so that what is read
  is shorter than the key, or goes on into the next step and is no key.
* `dollar_denotes_iff`: the whole path is read back exactly if there is no backslash in its keys.
-/
namespace RecordMapper

set_option autoImplicit false

open RecordMapper.Text

namespace JsonPath

/-! ## The grammar -/

/-- The characters up to the closing quote, and what is behind it. -/
def readQuoted : List Char → Option (List Char × List Char)
  | [] => none
  | '"' :: rest => some ([], rest)
  | '\\' :: c :: rest => (readQuoted rest).map fun (name, behind) => (c :: name, behind)
  | c :: rest => (readQuoted rest).map fun (name, behind) => (c :: name, behind)

/-- The number up to the closing bracket, and what is behind it. -/
def readElement (cs : List Char) : Option (Nat × List Char) :=
  match readNat (cs.takeWhile Char.isDigit), cs.dropWhile Char.isDigit with
  | some n, ']' :: behind => some (n, behind)
  | _, _ => none

def readStep : List Char → Option (JsonStep × List Char)
  | '.' :: '"' :: rest =>
    (readQuoted rest).map fun (name, behind) => (.key (String.ofList name), behind)
  | '.' :: c :: rest =>
    if isNameStart c then
      some (.key (String.ofList (c :: rest.takeWhile isNameChar)), rest.dropWhile isNameChar)
    else none
  | '[' :: rest => (readElement rest).map fun (n, behind) => (.index n, behind)
  | _ => none

theorem length_lt_of_readQuoted {cs name behind : List Char}
    (h : readQuoted cs = some (name, behind)) : behind.length < cs.length := by
  induction cs using readQuoted.induct generalizing name with
  | case1 => cases h
  | case2 rest =>
    cases h
    exact Nat.lt_succ_self _
  | case3 c rest ih =>
    obtain ⟨⟨later, _⟩, hlater, heq⟩ := Option.map_eq_some_iff.mp h
    cases heq
    have hless := ih hlater
    simp only [List.length_cons]
    omega
  | case4 c rest hquote hbackslash ih =>
    rw [readQuoted] at h
    · obtain ⟨⟨later, _⟩, hlater, heq⟩ := Option.map_eq_some_iff.mp h
      cases heq
      exact Nat.lt_succ_of_lt (ih hlater)
    · exact hquote
    · exact hbackslash

theorem length_lt_of_readElement {cs behind : List Char} {n : Nat}
    (h : readElement cs = some (n, behind)) : behind.length < cs.length := by
  unfold readElement at h
  split at h
  · next hrest =>
    cases h
    have hle : (cs.dropWhile Char.isDigit).length ≤ cs.length := (List.dropWhile_sublist _).length_le
    rw [hrest] at hle
    exact hle
  · cases h

theorem length_lt_of_readStep {cs behind : List Char} {s : JsonStep}
    (h : readStep cs = some (s, behind)) : behind.length < cs.length := by
  unfold readStep at h
  split at h
  · obtain ⟨⟨name, _⟩, hread, heq⟩ := Option.map_eq_some_iff.mp h
    cases heq
    have hless := length_lt_of_readQuoted hread
    simp only [List.length_cons]
    omega
  · next c rest _ =>
    split at h
    · cases h
      have hle : (rest.dropWhile isNameChar).length ≤ rest.length :=
        (List.dropWhile_sublist _).length_le
      simp only [List.length_cons]
      omega
    · cases h
  · obtain ⟨⟨n, _⟩, hread, heq⟩ := Option.map_eq_some_iff.mp h
    cases heq
    exact Nat.lt_succ_of_lt (length_lt_of_readElement hread)
  · cases h

/-- Steps up to the end of the text. -/
def readSteps (cs : List Char) : Option JsonPath :=
  if cs.isEmpty then some []
  else
    match h : readStep cs with
    | some (s, behind) =>
      have : behind.length < cs.length := length_lt_of_readStep h
      (readSteps behind).map (s :: ·)
    | none => none
termination_by cs.length

def readDollar (text : String) : Option JsonPath :=
  match text.toList with
  | '$' :: rest => readSteps rest
  | _ => none

theorem readSteps_nil : readSteps [] = some [] := by
  rw [readSteps]
  rfl

theorem readSteps_eq_some_cons {cs : List Char} {s : JsonStep} {path : JsonPath} :
    readSteps cs = some (s :: path) ↔
      ∃ behind, readStep cs = some (s, behind) ∧ readSteps behind = some path := by
  rw [readSteps]
  cases cs with
  | nil => exact ⟨nofun, nofun⟩
  | cons c rest =>
    simp only [List.isEmpty_cons, Bool.false_eq_true, if_false]
    constructor
    · intro h
      split at h
      · next behind hstep =>
        obtain ⟨later, hlater, heq⟩ := Option.map_eq_some_iff.mp h
        cases heq
        exact ⟨behind, hstep, hlater⟩
      · cases h
    · rintro ⟨behind, hstep, hpath⟩
      split
      · next hread =>
        rw [hstep] at hread
        cases hread
        rw [hpath]
        rfl
      · next hnone =>
        rw [hstep] at hnone
        cases hnone

/-! ## Keys -/

/-- A key as it stands between quotes. -/
def escaped (name : List Char) : List Char :=
  name.flatMap fun c => if c = '"' then ['\\', '"'] else [c]

theorem dollarStep_quoted {name : String} (h : isBareName name.toList = false) (rest : List Char) :
    dollarStep (.key name) ++ rest = '.' :: '"' :: (escaped name.toList ++ '"' :: rest) := by
  simp [dollarStep, h, escaped]

theorem escaped_cons {c : Char} (h : c ≠ '"') (name : List Char) :
    escaped (c :: name) = c :: escaped name := by
  simp [escaped, h]

theorem escaped_cons_quote (name : List Char) : escaped ('"' :: name) = '\\' :: '"' :: escaped name :=
  rfl

theorem readQuoted_cons {c : Char} (hquote : c ≠ '"') (hbackslash : c ≠ '\\') (rest : List Char) :
    readQuoted (c :: rest) = (readQuoted rest).map fun (name, behind) => (c :: name, behind) := by
  rw [readQuoted]
  · exact hquote
  · exact fun _ _ hc _ => hbackslash hc

/-- A quote is taken as it is behind the backslash that is written in front of it. -/
theorem readQuoted_escaped_cons {c : Char} (h : c ≠ '\\') (name rest : List Char) :
    readQuoted (escaped (c :: name) ++ rest) =
      (readQuoted (escaped name ++ rest)).map fun (later, behind) => (c :: later, behind) := by
  by_cases hquote : c = '"'
  · rw [hquote, escaped_cons_quote]
    rfl
  · rw [escaped_cons hquote, List.cons_append, readQuoted_cons hquote h]

theorem readQuoted_escaped {name : List Char} (h : '\\' ∉ name) (rest : List Char) :
    readQuoted (escaped name ++ '"' :: rest) = some (name, rest) := by
  induction name with
  | nil => rfl
  | cons c later ih =>
    rw [List.mem_cons, not_or] at h
    rw [readQuoted_escaped_cons (Ne.symm h.1), ih h.2]
    rfl

/-- Behind a step there is the dot or the bracket of the next one, or nothing. -/
def AtStep (cs : List Char) : Prop := ∀ c, cs.head? = some c → c = '.' ∨ c = '['

/-- If a key is read up to a closing quote, it is shorter than `bound`. -/
def ReadsBelow (bound : Nat) (cs : List Char) : Prop :=
  ∀ name behind, readQuoted cs = some (name, behind) → (∀ c ∈ name, isKeyChar c = true) →
    name.length < bound

theorem ReadsBelow.cons {bound : Nat} {c : Char} {cs text : List Char} (h : ReadsBelow bound cs)
    (htext : readQuoted text = (readQuoted cs).map fun (name, behind) => (c :: name, behind)) :
    ReadsBelow (bound + 1) text := by
  intro name behind hread hname
  rw [htext] at hread
  obtain ⟨⟨later, _⟩, hlater, heq⟩ := Option.map_eq_some_iff.mp hread
  cases heq
  exact Nat.succ_lt_succ (h later behind hlater (List.forall_mem_cons.mp hname).2)

/-- A backslash at the end of a key hides the closing quote. What is read then goes on into the next
step, where no key has its characters. -/
theorem readsBelow_hidden_quote {rest : List Char} (hrest : AtStep rest) (bound : Nat) :
    ReadsBelow bound ('\\' :: '"' :: rest) := by
  intro name behind hread hname
  obtain ⟨⟨later, _⟩, hlater, heq⟩ := Option.map_eq_some_iff.mp hread
  cases heq
  have hmore := (List.forall_mem_cons.mp hname).2
  cases rest with
  | nil => cases hlater
  | cons c cs =>
    have hplain : c ≠ '"' ∧ c ≠ '\\' ∧ isKeyChar c = false := by
      rcases hrest c rfl with rfl | rfl
      · decide
      · decide
    rw [readQuoted_cons hplain.1 hplain.2.1] at hlater
    obtain ⟨⟨others, _⟩, -, heq⟩ := Option.map_eq_some_iff.mp hlater
    cases heq
    have hkey : isKeyChar c = true := (List.forall_mem_cons.mp hmore).1
    rw [hplain.2.2] at hkey
    cases hkey

section Length

variable {rest : List Char} (hrest : AtStep rest)

include hrest

/-- No more is read than was written, also if a backslash stands in front of it. -/
theorem readsBelow_escaped (key : List Char) :
    ReadsBelow (key.length + 1) (escaped key ++ '"' :: rest) ∧
      ReadsBelow (key.length + 1) ('\\' :: (escaped key ++ '"' :: rest)) := by
  induction key with
  | nil =>
    refine ⟨fun name behind hread _ => ?_, readsBelow_hidden_quote hrest _⟩
    cases hread
    exact Nat.one_pos
  | cons c key ih =>
    constructor
    · by_cases hbackslash : c = '\\'
      · rw [hbackslash, escaped_cons (by decide)]
        exact fun name behind hread hname => Nat.lt_succ_of_lt (ih.2 name behind hread hname)
      · exact ih.1.cons (readQuoted_escaped_cons hbackslash key _)
    · by_cases hquote : c = '"'
      · -- The backslash in front of the quote is the one that is hidden, and the quote closes.
        rw [hquote, escaped_cons_quote]
        intro name behind hread _
        cases hread
        exact Nat.succ_lt_succ (Nat.succ_pos _)
      · rw [escaped_cons hquote]
        exact ih.1.cons rfl

/-- A key with a backslash is not read back. -/
theorem readsBelow_of_backslash {key : List Char} (h : '\\' ∈ key) :
    ReadsBelow key.length (escaped key ++ '"' :: rest) := by
  induction key with
  | nil => cases h
  | cons c key ih =>
    by_cases hbackslash : c = '\\'
    · rw [hbackslash, escaped_cons (by decide)]
      exact (readsBelow_escaped hrest key).2
    · have hkey : '\\' ∈ key := (List.mem_cons.mp h).resolve_left (Ne.symm hbackslash)
      exact (ih hkey).cons (readQuoted_escaped_cons hbackslash key _)

end Length

/-! ## Steps -/

theorem isBareName_of_backslash {name : List Char} (h : '\\' ∈ name) : isBareName name = false := by
  have hstart : isNameStart '\\' = false := by decide
  have hother : isNameChar '\\' = false := by decide
  cases name with
  | nil => cases h
  | cons c rest =>
    rw [isBareName, Bool.and_eq_false_iff, List.all_eq_false]
    rcases List.mem_cons.mp h with rfl | hrest
    · exact .inl hstart
    · exact .inr ⟨'\\', hrest, by simp [hother]⟩

theorem atStep_dollarStep (s : JsonStep) (rest : List Char) : AtStep (dollarStep s ++ rest) := by
  intro c hc
  cases s with
  | key name =>
    have hdot : ∃ more, dollarStep (.key name) = '.' :: more := by
      rw [dollarStep]
      split
      · exact ⟨_, rfl⟩
      · exact ⟨_, rfl⟩
    obtain ⟨more, hmore⟩ := hdot
    rw [hmore] at hc
    cases hc
    exact .inl rfl
  | index n =>
    cases hc
    exact .inr rfl

theorem atStep_dollarSteps (path : JsonPath) : AtStep (path.flatMap dollarStep) := by
  cases path with
  | nil => exact nofun
  | cons s rest =>
    rw [List.flatMap_cons]
    exact atStep_dollarStep s _

theorem readElement_natChars (n : Nat) (rest : List Char) :
    readElement (natChars n ++ ']' :: rest) = some (n, rest) := by
  have hclose : ∀ c, (']' :: rest).head? = some c → c.isDigit = false := by
    rintro c ⟨⟩
    decide
  obtain ⟨htake, hdrop⟩ := takeWhile_run (fun c hc => isDigit_of_mem_natChars hc) hclose
  rw [readElement, htake, hdrop, readNat_natChars]
  rfl

theorem readStep_bareName {c : Char} {name rest : List Char} (hc : isNameStart c = true)
    (hname : ∀ d ∈ name, isNameChar d = true) (hrest : AtStep rest) :
    readStep ('.' :: c :: (name ++ rest)) = some (.key (String.ofList (c :: name)), rest) := by
  have hend : ∀ d, rest.head? = some d → isNameChar d = false := by
    intro d hd
    rcases hrest d hd with rfl | rfl
    · decide
    · decide
  obtain ⟨htake, hdrop⟩ := takeWhile_run hname hend
  have hquote : c ≠ '"' := by
    rintro rfl
    exact absurd hc (by decide)
  rw [readStep]
  · rw [if_pos hc, htake, hdrop]
  · exact hquote

/-- A step without a backslash is read back. -/
theorem readStep_dollarStep {s : JsonStep} (h : ∀ name, s = .key name → '\\' ∉ name.toList)
    {rest : List Char} (hrest : AtStep rest) : readStep (dollarStep s ++ rest) = some (s, rest) := by
  cases s with
  | key name =>
    cases hbare : isBareName name.toList with
    | true =>
      obtain ⟨c, more, hname⟩ : ∃ c more, name.toList = c :: more := by
        cases hchars : name.toList with
        | nil =>
          rw [hchars] at hbare
          cases hbare
        | cons c more => exact ⟨c, more, rfl⟩
      have hplain := hbare
      rw [hname, isBareName, Bool.and_eq_true] at hplain
      have hread := readStep_bareName hplain.1 (List.all_eq_true.mp hplain.2) hrest
      rw [← hname, String.ofList_toList] at hread
      rw [dollarStep, if_pos hbare, hname]
      exact hread
    | false =>
      rw [dollarStep_quoted hbare, readStep, readQuoted_escaped (h name rfl)]
      simp
  | index n =>
    have htext : dollarStep (.index n) ++ rest = '[' :: (natChars n ++ ']' :: rest) := by
      simp [dollarStep]
    rw [htext, readStep, readElement_natChars]
    rfl

/-- A key that is read back has no backslash. -/
theorem backslash_notMem_of_readStep {name : String} {rest behind : List Char}
    (hname : ∀ c ∈ name.toList, isKeyChar c = true) (hrest : AtStep rest)
    (h : readStep (dollarStep (.key name) ++ rest) = some (.key name, behind)) :
    '\\' ∉ name.toList := by
  intro hbackslash
  rw [dollarStep_quoted (isBareName_of_backslash hbackslash), readStep] at h
  obtain ⟨⟨read, _⟩, hread, heq⟩ := Option.map_eq_some_iff.mp h
  cases heq
  rw [String.toList_ofList] at hbackslash hname hread
  exact absurd (readsBelow_of_backslash hrest hbackslash _ _ hread hname) (Nat.lt_irrefl _)

/-! ## Paths -/

theorem readSteps_dollarSteps {path : JsonPath} (hplain : ∀ s ∈ path, IsPlain s) :
    readSteps (path.flatMap dollarStep) = some path ↔
      ∀ name, .key name ∈ path → '\\' ∉ name.toList := by
  induction path with
  | nil => exact ⟨fun _ => nofun, fun _ => readSteps_nil⟩
  | cons s rest ih =>
    obtain ⟨hs, hrest⟩ := List.forall_mem_cons.mp hplain
    have hnext := atStep_dollarSteps rest
    rw [List.flatMap_cons, readSteps_eq_some_cons]
    constructor
    · rintro ⟨behind, hstep, hsteps⟩
      have hfirst : ∀ name, s = .key name → '\\' ∉ name.toList := by
        rintro name rfl
        have hkey : name.toList ∈ keys := hs
        exact backslash_notMem_of_readStep (fun c hc => isKeyChar_iff.mpr (hkey.2 c hc)) hnext hstep
      rw [readStep_dollarStep hfirst hnext] at hstep
      cases hstep
      intro name hname
      rcases List.mem_cons.mp hname with hhead | htail
      · exact hfirst name hhead.symm
      · exact (ih hrest).mp hsteps name htail
    · intro h
      have hfirst : ∀ name, s = .key name → '\\' ∉ name.toList := fun name hname =>
        h name (hname ▸ List.mem_cons_self ..)
      have hlater : ∀ name, .key name ∈ rest → '\\' ∉ name.toList := fun name hname =>
        h name (List.mem_cons_of_mem s hname)
      exact ⟨_, readStep_dollarStep hfirst hnext, (ih hrest).mpr hlater⟩

theorem readDollar_dollar (path : JsonPath) :
    readDollar path.dollar = readSteps (path.flatMap dollarStep) := by
  simp [readDollar, dollar]

/-- A path in the form that starts with a dollar sign denotes the steps it was made of, the text
being read to its end, exactly if no key among them has a backslash. -/
theorem dollar_denotes_iff {p : String} {path : JsonPath} (h : read p = .ok path) :
    readDollar path.dollar = some path ↔ ∀ name, .key name ∈ path → '\\' ∉ name.toList := by
  rw [readDollar_dollar]
  exact readSteps_dollarSteps (isPlain_of_read h)

theorem dollar_denotes_iff_quotedKey :
    read "meta.\"odd\" key[2].x" = .ok [.key "meta", .key "\"odd\" key", .index 2, .key "x"] ∧
      dollar [.key "meta", .key "\"odd\" key", .index 2, .key "x"] =
        "$.meta.\"\\\"odd\\\" key\"[2].x" ∧
      readDollar "$.meta.\"\\\"odd\\\" key\"[2].x" =
        some [.key "meta", .key "\"odd\" key", .index 2, .key "x"] := by
  have hread : read "meta.\"odd\" key[2].x" =
      .ok [.key "meta", .key "\"odd\" key", .index 2, .key "x"] := rfl
  refine ⟨hread, rfl, (dollar_denotes_iff hread).mpr ?_⟩
  intro name hname
  simp only [List.mem_cons, List.not_mem_nil, JsonStep.key.injEq, reduceCtorEq, false_or,
    or_false] at hname
  rcases hname with rfl | rfl | rfl
  · decide
  · decide
  · decide

/-- A backslash is written as it is. It hides the character behind it; at the end of a key that is
the closing quote. -/
theorem backslash_not_escaped :
    (read "a\\b" = .ok [.key "a\\b"] ∧ readDollar (dollar [.key "a\\b"]) = some [.key "ab"]) ∧
      (read "a\\" = .ok [.key "a\\"] ∧ readDollar (dollar [.key "a\\"]) = none) := by
  have hshorter : readSteps ".\"a\\b\"".toList = some [.key "ab"] :=
    readSteps_eq_some_cons.mpr ⟨[], rfl, readSteps_nil⟩
  have hopen : readSteps ".\"a\\\"".toList = none := by
    rw [readSteps]
    rfl
  exact ⟨⟨rfl, hshorter⟩, ⟨rfl, hopen⟩⟩

end JsonPath

end RecordMapper
