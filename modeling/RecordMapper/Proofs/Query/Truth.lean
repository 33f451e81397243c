import RecordMapper.Query.Basic

/-!
How a condition is read by a database.

* `Truth` is the value of a condition for a row; only rows for which it is `yes` are taken.
* `Word` is a word of a condition whose parts are atoms, `Word.spell` is its text.
* `Word.value?` reads words from left to right: AND binds tighter than OR, and parentheses group.
* `disjunction` is the value of a flat chain, said without reading it: its runs between two ORs are
  conjunctions, of which one has to hold.
-/
namespace RecordMapper

set_option autoImplicit false

inductive Truth where
  | no
  | unknown
  | yes
  deriving DecidableEq, Repr

namespace Truth

protected def and : Truth → Truth → Truth
  | .no, _ => .no
  | .yes, b => b
  | .unknown, .no => .no
  | .unknown, _ => .unknown

protected def or : Truth → Truth → Truth
  | .yes, _ => .yes
  | .no, b => b
  | .unknown, .yes => .yes
  | .unknown, _ => .unknown

def all (truths : List Truth) : Truth := truths.foldr Truth.and .yes

def any (truths : List Truth) : Truth := truths.foldr Truth.or .no

@[simp] theorem and_yes (a : Truth) : a.and .yes = a := by cases a <;> rfl

@[simp] theorem no_or (a : Truth) : Truth.or .no a = a := rfl

@[simp] theorem or_no (a : Truth) : a.or .no = a := by cases a <;> rfl

theorem and_assoc (a b c : Truth) : (a.and b).and c = a.and (b.and c) := by
  cases a <;> cases b <;> cases c <;> rfl

theorem or_assoc (a b c : Truth) : (a.or b).or c = a.or (b.or c) := by
  cases a <;> cases b <;> cases c <;> rfl

theorem and_eq_yes {a b : Truth} : a.and b = .yes ↔ a = .yes ∧ b = .yes := by
  cases a <;> cases b <;> decide

theorem all_cons (a : Truth) (rest : List Truth) : all (a :: rest) = a.and (all rest) := rfl

theorem all_append (as bs : List Truth) : all (as ++ bs) = (all as).and (all bs) := by
  induction as with
  | nil => rfl
  | cons a rest ih => rw [List.cons_append, all_cons, all_cons, ih, and_assoc]

theorem eq_yes_of_all {truths : List Truth} (h : all truths = .yes) {a : Truth}
    (ha : a ∈ truths) : a = .yes := by
  induction truths with
  | nil => cases ha
  | cons b rest ih =>
    rw [all_cons, and_eq_yes] at h
    rcases List.mem_cons.1 ha with rfl | ha
    · exact h.1
    · exact ih h.2 ha

theorem all_eq_yes {truths : List Truth} (h : ∀ a ∈ truths, a = .yes) : all truths = .yes := by
  induction truths with
  | nil => rfl
  | cons b rest ih =>
    rw [all_cons, and_eq_yes]
    exact ⟨h b (List.mem_cons_self ..), ih fun a ha => h a (List.mem_cons_of_mem b ha)⟩

end Truth

/-! ## Words -/

inductive Word (α : Type) where
  | atom (a : α)
  | connective (c : Connective)
  | opening
  | closing
  deriving DecidableEq, Repr

namespace Word

variable {α β : Type}

def map (f : α → β) : Word α → Word β
  | .atom a => .atom (f a)
  | .connective c => .connective c
  | .opening => .opening
  | .closing => .closing

def atom? : Word α → Option α
  | .atom a => some a
  | _ => none

def fragment : Word Fragment → Fragment
  | .atom f => f
  | .connective c => [.text (" " ++ c.sql ++ " ")]
  | .opening => [.text "("]
  | .closing => [.text ")"]

def spell (words : List (Word Fragment)) : Fragment := words.flatMap fragment

end Word

/-! ## Reading -/

/-- What was read between two parentheses. -/
structure Level where
  /-- Whether one of the conjunctions before the last OR holds. -/
  before : Truth
  /-- Whether the conjunction behind it holds so far. -/
  current : Truth

namespace Level

def empty : Level := ⟨.no, .yes⟩

def value (l : Level) : Truth := l.before.or l.current

/-- One more operand of the conjunction. -/
def meet (l : Level) (t : Truth) : Level := ⟨l.before, l.current.and t⟩

/-- A conjunction of its own behind an OR. -/
def split (l : Level) : Level := ⟨l.value, .yes⟩

def join (l : Level) : Connective → Level
  | .and => l
  | .or => l.split

end Level

/-- The levels that are open, the innermost in front, and whether an operand is due. -/
structure Reading where
  level : Level
  outer : List Level
  due : Bool

namespace Word

def step (r : Reading) : Word Truth → Option Reading
  | .atom t => if r.due then some ⟨r.level.meet t, r.outer, false⟩ else none
  | .connective c => if r.due then none else some ⟨r.level.join c, r.outer, true⟩
  | .opening => if r.due then some ⟨.empty, r.level :: r.outer, true⟩ else none
  | .closing =>
    match r.due, r.outer with
    | false, l :: outer => some ⟨l.meet r.level.value, outer, false⟩
    | _, _ => none

def read (r : Reading) : List (Word Truth) → Option Reading
  | [] => some r
  | w :: rest => (step r w).bind fun r => read r rest

/-- The value of a condition, if it is one. -/
def value? (words : List (Word Truth)) : Option Truth :=
  match read ⟨.empty, [], true⟩ words with
  | some ⟨level, [], false⟩ => some level.value
  | _ => none

theorem read_append (r : Reading) (a b : List (Word Truth)) :
    read r (a ++ b) = (read r a).bind fun r => read r b := by
  induction a generalizing r with
  | nil => rfl
  | cons w rest ih =>
    simp only [List.cons_append, read]
    cases step r w with
    | none => rfl
    | some next => exact ih next

end Word

/-! ## Flat chains -/

/-- The runs of a chain between its ORs. -/
def conjunctions : List (Connective × Truth) → List (List Truth)
  | [] => []
  | (_, t) :: rest =>
    match rest, conjunctions rest with
    | (.and, _) :: _, run :: runs => (t :: run) :: runs
    | _, runs => [t] :: runs

/-- The value of a flat chain. Its first connective is of no account, and a chain of nothing is no
restriction. -/
def disjunction (links : List (Connective × Truth)) : Truth :=
  if links.isEmpty then .yes else .any ((conjunctions links).map .all)

/-- The chain `a`, OR `b`, AND `c`. -/
example (a b c : Truth) :
    disjunction [(.or, a), (.or, b), (.and, c)] = a.or ((b.and c).or .no) := by
  cases a <;> cases b <;> cases c <;> rfl

end RecordMapper
