import RecordMapper.Proofs.Outcome
import RecordMapper.Proofs.Query.Supplied

/-!
Queries with some of their parts masked.

* `Mask` says what becomes of the names and values of a query, and `Mask.fragment` masks a text in
  the same way. Two queries that are equal once they are masked have one structure and differ only
  in what the mask hides.
* `Expr.compile_masked`, `Condition.compile_masked` and `Query.compile_masked`: a tree and its
  masked form have one text, once that is masked too. They are one induction over the syntax.
-/
namespace RecordMapper

set_option autoImplicit false

/-! ## Masks -/

/-- A mask for names and values. Paths, tables, numbers and paths into JSON are masked by functions
of their own, since they are not written as they are given. -/
structure Mask where
  name : String → String
  value : Value → Value
  path : String → String
  table : String → String
  number : Int64 → Int64
  jsonPath : String → String

namespace Mask

def piece (m : Mask) : Piece → Piece
  | .text sql => .text sql
  | .name identifier => .name (m.name identifier)
  | .hole v => .hole (m.value v)

def fragment (m : Mask) (f : Fragment) : Fragment := f.map m.piece

/-- The value of a comparison. Whether it is NULL stays visible where the text tells. -/
def operand (m : Mask) (op : Comparison) (v : Value) : Value :=
  if (op = .eq ∨ op = .ne) ∧ v.isNull then .null else m.value v

/-- What a mask has to leave visible: whether a value is DEFAULT, and whether a text can be
compiled at all. -/
structure Fair (m : Mask) : Prop where
  name_name : ∀ s, m.name (m.name s) = m.name s
  value_value : ∀ v, m.value (m.value v) = m.value v
  isDefault_value : ∀ v, (m.value v).isDefault = v.isDefault
  isNull_of_value : ∀ v, (m.value v).isNull = true → v.isNull = true
  value_number : ∀ n, m.value (.int64 (m.number n)) = m.value (.int64 n)
  fragment_path : ∀ p, m.fragment (Fragment.path (m.path p)) = m.fragment (Fragment.path p)
  fragment_table : ∀ t,
    (tableFragment (m.table t)).map m.fragment = (tableFragment t).map m.fragment
  value_jsonPath : ∀ d path,
    (JsonPath.read (m.jsonPath path)).map (fun steps => m.value (steps.bound d)) =
      (JsonPath.read path).map fun steps => m.value (steps.bound d)

end Mask

/-! ## Masked trees -/

def ColumnComparison.masked (m : Mask) (c : ColumnComparison) : ColumnComparison :=
  ⟨m.path c.left, c.op, m.path c.right⟩

def Join.masked (m : Mask) (j : Join) : Join :=
  ⟨j.kind, m.path j.table, j.label.map m.name, j.on.map (ColumnComparison.masked m)⟩

mutual

def Expr.masked (m : Mask) : Expr → Expr
  | .column path => .column (m.path path)
  | .literal value => .literal (m.value value)
  | .named e name => .named (e.masked m) (m.name name)
  | .marked sql values => .marked sql (values.map m.value)
  | .cast e type => .cast (e.masked m) type
  | .arithmetic left op right => .arithmetic (left.masked m) op (right.masked m)
  | .compare left op right => .compare (left.masked m) op (right.masked m)
  | .concat parts => .concat (maskedExprs m parts)
  | .textCall function e => .textCall function (e.masked m)
  | .substring e start length =>
    .substring (e.masked m) (m.number start) (length.map m.number)
  | .replace e pattern replacement =>
    .replace (e.masked m) (pattern.masked m) (replacement.masked m)
  | .extract part e => .extract part (e.masked m)
  | .dateOf e => .dateOf (e.masked m)
  | .now => .now
  | .coalesce choices => .coalesce (maskedExprs m choices)
  | .nullIf left right => .nullIf (left.masked m) (right.masked m)
  | .aggregate function argument distinct =>
    .aggregate function (maskedOption m argument) distinct
  | .case branches otherwise => .case (maskedBranches m branches) (maskedOption m otherwise)
  | .json column path => .json (m.path column) (m.jsonPath path)
  | .subquery query => .subquery (query.masked m)
  | .window e partition order =>
    .window (e.masked m) (maskedExprs m partition) (maskedSortKeys m order)

def maskedExprs (m : Mask) : List Expr → List Expr
  | [] => []
  | e :: rest => e.masked m :: maskedExprs m rest

def maskedOption (m : Mask) : Option Expr → Option Expr
  | none => none
  | some e => some (e.masked m)

def Branch.masked (m : Mask) : Branch → Branch
  | { condition, result } => { condition := condition.masked m, result := result.masked m }

def maskedBranches (m : Mask) : List Branch → List Branch
  | [] => []
  | b :: rest => b.masked m :: maskedBranches m rest

def SortKey.masked (m : Mask) : SortKey → SortKey
  | { e, direction } => { e := e.masked m, direction }

def maskedSortKeys (m : Mask) : List SortKey → List SortKey
  | [] => []
  | k :: rest => k.masked m :: maskedSortKeys m rest

/-- The target of an empty list is not written and masked altogether. -/
def Condition.masked (m : Mask) : Condition → Condition
  | .compare target op value => .compare (target.masked m) op (m.operand op value)
  | .isIn target values negated =>
    .isIn (if values.isEmpty then .now else target.masked m) (values.map m.value) negated
  | .isNull target negated => .isNull (target.masked m) negated
  | .between target low high negated =>
    .between (target.masked m) (m.value low) (m.value high) negated
  | .columns comparison => .columns (comparison.masked m)
  | .marked sql values => .marked sql (values.map m.value)
  | .existsRow query negated => .existsRow (query.masked m) negated
  | .holds e => .holds (e.masked m)

def Link.masked (m : Mask) : Link → Link
  | { connective, condition } => { connective, condition := condition.masked m }

def maskedLinks (m : Mask) : List Link → List Link
  | [] => []
  | l :: rest => l.masked m :: maskedLinks m rest

def maskedConditions (m : Mask) : List Condition → List Condition
  | [] => []
  | c :: rest => c.masked m :: maskedConditions m rest

def Query.masked (m : Mask) : Query → Query
  | { table, dialect, key, columns, distinct, joins, filters, scopes, groups, havings, orders,
      limit, offset } =>
    { table := m.table table, dialect, key := m.name key, columns := maskedExprs m columns,
      distinct, joins := joins.map (Join.masked m), filters := maskedLinks m filters,
      scopes := maskedConditions m scopes, groups := groups.map m.path,
      havings := maskedLinks m havings, orders := maskedSortKeys m orders, limit, offset }
termination_by structural x => x

end

/-! ## Masked lists -/

section Lists

variable (m : Mask)

theorem isEmpty_maskedExprs (es : List Expr) : (maskedExprs m es).isEmpty = es.isEmpty := by
  cases es <;> rfl

theorem isEmpty_maskedBranches (bs : List Branch) :
    (maskedBranches m bs).isEmpty = bs.isEmpty := by
  cases bs <;> rfl

theorem isEmpty_maskedSortKeys (ks : List SortKey) :
    (maskedSortKeys m ks).isEmpty = ks.isEmpty := by
  cases ks <;> rfl

theorem isEmpty_maskedConditions (cs : List Condition) :
    (maskedConditions m cs).isEmpty = cs.isEmpty := by
  cases cs <;> rfl

end Lists

/-! ## Masked texts -/

namespace Mask

variable (m : Mask)

@[simp] theorem fragment_nil : m.fragment [] = [] := rfl

@[simp] theorem fragment_text (sql : String) (f : Fragment) :
    m.fragment (.text sql :: f) = .text sql :: m.fragment f := rfl

@[simp] theorem fragment_name (identifier : String) (f : Fragment) :
    m.fragment (.name identifier :: f) = .name (m.name identifier) :: m.fragment f := rfl

@[simp] theorem fragment_append (f g : Fragment) :
    m.fragment (f ++ g) = m.fragment f ++ m.fragment g := List.map_append

@[simp] theorem isBlank_fragment (f : Fragment) : (m.fragment f).isBlank = f.isBlank := by
  induction f with
  | nil => rfl
  | cons p rest ih =>
    unfold Fragment.isBlank at ih ⊢
    cases p <;> simp only [fragment, List.map_cons, List.all_cons, piece] at ih ⊢ <;> rw [ih]

@[simp] theorem fragment_joined (separator : String) (fs : List Fragment) :
    m.fragment (Fragment.joined separator fs) =
      Fragment.joined separator (fs.map m.fragment) := by
  induction fs with
  | nil => rfl
  | cons f rest ih =>
    cases rest with
    | nil => rfl
    | cons g rest =>
      show m.fragment (f ++ .text separator :: Fragment.joined separator (g :: rest)) = _
      rw [fragment_append, fragment_text, ih]
      rfl

@[simp] theorem fragment_parens (f : Fragment) :
    m.fragment (Fragment.parens f) = Fragment.parens (m.fragment f) := by
  simp [Fragment.parens]

@[simp] theorem fragment_call (function : String) (f : Fragment) :
    m.fragment (Fragment.call function f) = Fragment.call function (m.fragment f) := by
  simp [Fragment.call]

@[simp] theorem fragment_between (op : Comparison) (d : Dialect) (f g : Fragment) :
    m.fragment (op.between d f g) = op.between d (m.fragment f) (m.fragment g) := by
  unfold Comparison.between
  split <;> simp

@[simp] theorem fragment_extract (part : DatePart) (d : Dialect) (f : Fragment) :
    m.fragment (part.extract d f) = part.extract d (m.fragment f) := by
  cases d with
  | postgres | sqlite => simp [DatePart.extract]
  | mysql | mariadb => cases part <;> simp [DatePart.extract]

@[simp] theorem fragment_dateOf (d : Dialect) (f : Fragment) :
    m.fragment (dateOf d f) = dateOf d (m.fragment f) := by
  unfold dateOf
  cases d <;> simp

@[simp] theorem fragment_window (d : Dialect) (limit offset : Option Nat) :
    m.fragment (window d limit offset) = window d limit offset := by
  cases limit <;> cases offset <;> cases d <;> rfl

@[simp] theorem fragment_clause (keyword : String) (f : Option Fragment) :
    m.fragment (clause keyword f) = clause keyword (f.map m.fragment) := by
  cases f <;> rfl

/-! ### Chains -/

def chain (c : Chain) : Chain := ⟨m.fragment c.fragment, c.hasOr⟩

theorem chain_append (c : Chain) (connective : Connective) (f : Fragment) :
    m.chain (c.append connective f) = (m.chain c).append connective (m.fragment f) := by
  unfold Chain.append chain
  simp only [isBlank_fragment]
  split <;> simp

theorem fragment_conjunction (c : Chain) (grouped : Bool) (scopes : List Fragment) :
    (conjunction c grouped scopes).map m.fragment =
      conjunction (m.chain c) grouped (scopes.map m.fragment) := by
  unfold conjunction chain
  simp only [isBlank_fragment]
  cases c.fragment.isBlank with
  | true => cases scopes <;> simp
  | false => cases c.hasOr && grouped <;> simp

end Mask

/-! ### Masked twice -/

namespace Mask.Fair

variable {m : Mask} (h : m.Fair)

include h

theorem fragment_bind_eq {v w : Value} (hvalue : m.value v = m.value w) :
    m.fragment (Fragment.bind v) = m.fragment (Fragment.bind w) := by
  have hv := h.isDefault_value v
  have hw := h.isDefault_value w
  rw [hvalue, hw] at hv
  cases hd : w.isDefault with
  | true =>
    rw [hd] at hv
    have eq_default : ∀ u : Value, u.isDefault = true → u = .default := fun u hu => by
      cases u <;> first | rfl | cases hu
    rw [eq_default v hv.symm, eq_default w hd]
  | false =>
    rw [hd] at hv
    rw [Fragment.bind_of_isDefault hv.symm, Fragment.bind_of_isDefault hd]
    show [Piece.hole (m.value v)] = [Piece.hole (m.value w)]
    rw [hvalue]

theorem fragment_bind (v : Value) :
    m.fragment (Fragment.bind (m.value v)) = m.fragment (Fragment.bind v) :=
  h.fragment_bind_eq (h.value_value v)

theorem fragment_number (n : Int64) :
    m.fragment (Fragment.bind (.int64 (m.number n))) = m.fragment (Fragment.bind (.int64 n)) :=
  h.fragment_bind_eq (h.value_number n)

theorem map_bind (vs : List Value) :
    ((vs.map m.value).map Fragment.bind).map m.fragment =
      (vs.map Fragment.bind).map m.fragment := by
  induction vs with
  | nil => rfl
  | cons v rest ih =>
    simp only [List.map_cons, h.fragment_bind]
    rw [ih]

theorem fragment_comparison (d : Dialect) (c : ColumnComparison) :
    m.fragment ((c.masked m).compile d) = m.fragment (c.compile d) := by
  simp [ColumnComparison.compile, ColumnComparison.masked, h.fragment_path]

theorem map_comparison (d : Dialect) (on : List ColumnComparison) :
    ((on.map (ColumnComparison.masked m)).map (ColumnComparison.compile d)).map m.fragment =
      (on.map (ColumnComparison.compile d)).map m.fragment := by
  simp only [List.map_map]
  exact List.map_congr_left fun c _ => h.fragment_comparison d c

theorem fragment_join (d : Dialect) (j : Join) :
    m.fragment ((j.masked m).compile d) = m.fragment (j.compile d) := by
  obtain ⟨kind, table, label, on⟩ := j
  have hon := h.map_comparison d on
  cases label <;> cases hempty : on.isEmpty <;>
    simp only [Join.compile, Join.masked, Option.map_none, Option.map_some, List.isEmpty_map,
      hempty, if_true, if_false, Bool.false_eq_true, fragment_text, fragment_append, fragment_name,
      fragment_nil, fragment_joined, h.fragment_path, h.name_name, hon]

theorem fragment_joins (d : Dialect) (joins : List Join) :
    m.fragment ((joins.map (Join.masked m)).flatMap (Join.compile d)) =
      m.fragment (joins.flatMap (Join.compile d)) := by
  induction joins with
  | nil => rfl
  | cons j rest ih => simp [h.fragment_join, ih]

theorem fragment_json (d : Dialect) (column : String) {a b : JsonPath}
    (hbound : m.value (a.bound d) = m.value (b.bound d)) :
    m.fragment (a.extract d (m.path column)) = m.fragment (b.extract d column) := by
  have hvalue := h.fragment_bind_eq hbound
  cases d <;>
  · simp only [JsonPath.bound, reduceCtorEq, if_true, if_false] at hvalue
    simp [JsonPath.extract, h.fragment_path, hvalue]

theorem fragment_pieces (cs : List Char) (vs : List Value) :
    (Marked.pieces cs (vs.map m.value)).map (fun r => (m.fragment r.1, r.2)) =
      (Marked.pieces cs vs).map fun r => (m.fragment r.1, r.2) := by
  induction cs, vs using Marked.pieces.induct with
  | case1 vs => rfl
  | case2 vs rest ih =>
    simp only [Marked.pieces]
    refine option_map_map_congr ih fun a b hab => ?_
    simp only [Prod.mk.injEq] at hab
    simp [hab.1, hab.2]
  | case3 rest hr => simp [Marked.pieces]
  | case4 rest v vs hr ih =>
    simp only [List.map_cons, Marked.pieces]
    refine option_map_map_congr ih fun a b hab => ?_
    simp only [Prod.mk.injEq] at hab
    simp [hab.1, hab.2, h.fragment_bind v]
  | case5 c rest vs h1 h2 h3 ih =>
    have hc : c ≠ '?' := by
      rintro rfl
      cases vs with
      | nil => exact h2 rfl rfl
      | cons v vs => exact h3 v vs rfl rfl
    simp only [Marked.pieces, hc, false_imp_iff, implies_true]
    refine option_map_map_congr ih fun a b hab => ?_
    simp only [Prod.mk.injEq] at hab
    simp [hab.1, hab.2]

theorem fragment_marked (sql : String) (vs : List Value) :
    (Marked.compile sql (vs.map m.value)).map m.fragment =
      (Marked.compile sql vs).map m.fragment := by
  have hpieces := h.fragment_pieces sql.toList vs
  unfold Marked.compile
  cases ha : Marked.pieces sql.toList (vs.map m.value) with
  | none =>
    cases hb : Marked.pieces sql.toList vs with
    | none => simp [Marked.moreMarkers]
    | some b =>
      rw [ha, hb] at hpieces
      cases hpieces
  | some a =>
    cases hb : Marked.pieces sql.toList vs with
    | none =>
      rw [ha, hb] at hpieces
      cases hpieces
    | some b =>
      rw [ha, hb] at hpieces
      have hab := Prod.mk.inj (Option.some.inj hpieces)
      simp only [List.length_map, Marked.fewerMarkers, hab.2]
      split
      · exact congrArg Except.ok hab.1
      · rfl

end Mask.Fair

/-! ## Compiling -/

theorem Value.eq_null {v : Value} (h : v.isNull = true) : v = .null := by
  cases v <;> first | rfl | cases h

theorem Condition.compile_compare_of_not_null (d : Dialect) (target : Expr) {op : Comparison}
    {v : Value} (h : ¬((op = .eq ∨ op = .ne) ∧ v.isNull)) :
    (Condition.compare target op v).compile d =
      (target.compile d >>= fun f => .ok (some (op.between d f (Fragment.bind v)))) := by
  cases op with
  | eq | ne =>
    cases v with
    | null => exact absurd ⟨by decide, rfl⟩ h
    | _ => rfl
  | _ => rfl

section Compiling

open Mask

variable {m : Mask}

mutual

theorem Expr.compile_masked (h : m.Fair) (d : Dialect) (e : Expr) :
    ((e.masked m).compile d).map m.fragment = (e.compile d).map m.fragment := by
  cases e with
  | column path => exact congrArg Except.ok (h.fragment_path path)
  | literal value => exact congrArg Except.ok (h.fragment_bind value)
  | named e name =>
    refine map_bind_congr (e.compile_masked h d) fun f g hfg => congrArg Except.ok ?_
    simp [hfg, h.name_name]
  | marked sql values => exact h.fragment_marked sql values
  | cast e type =>
    refine map_bind_congr (e.compile_masked h d) fun f g hfg => congrArg Except.ok ?_
    simp [hfg]
  | arithmetic left op right =>
    refine map_bind_congr (left.compile_masked h d) fun l l' hl => ?_
    refine map_bind_congr (right.compile_masked h d) fun r r' hr => congrArg Except.ok ?_
    simp [hl, hr]
  | compare left op right =>
    refine map_bind_congr (left.compile_masked h d) fun l l' hl => ?_
    refine map_bind_congr (right.compile_masked h d) fun r r' hr => congrArg Except.ok ?_
    simp [hl, hr]
  | concat parts =>
    simp only [Expr.masked, Expr.compile, isEmpty_maskedExprs]
    split
    · rfl
    · refine map_bind_congr (compileExprs_masked h d parts) fun fs gs hfs => congrArg Except.ok ?_
      split <;> simp [hfs]
  | textCall function e =>
    refine map_bind_congr (e.compile_masked h d) fun f g hfg => congrArg Except.ok ?_
    simp [hfg]
  | substring e start length =>
    refine map_bind_congr (e.compile_masked h d) fun f g hfg => congrArg Except.ok ?_
    cases length with
    | none => simp [hfg, h.fragment_number]
    | some n => simp [hfg, h.fragment_number]
  | replace e pattern replacement =>
    refine map_bind_congr (e.compile_masked h d) fun f g hfg => ?_
    refine map_bind_congr (pattern.compile_masked h d) fun p p' hp => ?_
    refine map_bind_congr (replacement.compile_masked h d) fun r r' hr => congrArg Except.ok ?_
    simp [hfg, hp, hr]
  | extract part e =>
    refine map_bind_congr (e.compile_masked h d) fun f g hfg => congrArg Except.ok ?_
    simp [hfg]
  | dateOf e =>
    refine map_bind_congr (e.compile_masked h d) fun f g hfg => congrArg Except.ok ?_
    simp [hfg]
  | now => rfl
  | coalesce choices =>
    refine map_bind_congr (compileExprs_masked h d choices) fun fs gs hfs => congrArg Except.ok ?_
    simp [hfs]
  | nullIf left right =>
    refine map_bind_congr (left.compile_masked h d) fun l l' hl => ?_
    refine map_bind_congr (right.compile_masked h d) fun r r' hr => congrArg Except.ok ?_
    simp [hl, hr]
  | aggregate function argument distinct =>
    refine map_bind_congr (compileArgument_masked h d argument) fun f g hfg => congrArg Except.ok ?_
    cases distinct <;> simp [hfg]
  | case branches otherwise =>
    simp only [Expr.masked, Expr.compile, isEmpty_maskedBranches]
    split
    · rfl
    · refine map_bind_congr (compileBranches_masked h d branches) fun f g hfg => ?_
      refine map_bind_congr (compileOtherwise_masked h d otherwise) fun o o' ho =>
        congrArg Except.ok ?_
      simp [hfg, ho]
  | json column path =>
    exact map_bind_congr (h.value_jsonPath d path) fun a b hab =>
      congrArg Except.ok (h.fragment_json d column hab)
  | subquery query =>
    refine map_bind_congr (query.compile_masked h d) fun f g hfg => congrArg Except.ok ?_
    simp [hfg]
  | window e partition order =>
    refine map_bind_congr (e.compile_masked h d) fun f g hfg => ?_
    refine map_bind_congr (compileExprs_masked h d partition) fun ps ps' hps => ?_
    refine map_bind_congr (compileSortKeys_masked h d order) fun os os' hos => congrArg Except.ok ?_
    have hp := congrArg List.isEmpty hps
    have ho := congrArg List.isEmpty hos
    simp only [List.isEmpty_map] at hp ho
    rw [hp, ho]
    cases ps'.isEmpty <;> cases os'.isEmpty <;> simp [hfg, hps, hos]
termination_by structural e

theorem compileExprs_masked (h : m.Fair) (d : Dialect) (es : List Expr) :
    (compileExprs d (maskedExprs m es)).map (List.map m.fragment) =
      (compileExprs d es).map (List.map m.fragment) := by
  cases es with
  | nil => rfl
  | cons e rest =>
    refine map_bind_congr (e.compile_masked h d) fun f g hfg => ?_
    refine map_bind_congr (compileExprs_masked h d rest) fun fs gs hfs => congrArg Except.ok ?_
    simp [hfg, hfs]
termination_by structural es

theorem compileArgument_masked (h : m.Fair) (d : Dialect) (argument : Option Expr) :
    (compileArgument d (maskedOption m argument)).map m.fragment =
      (compileArgument d argument).map m.fragment := by
  cases argument with
  | none => rfl
  | some e => exact e.compile_masked h d
termination_by structural argument

theorem compileBranches_masked (h : m.Fair) (d : Dialect) (bs : List Branch) :
    (compileBranches d (maskedBranches m bs)).map m.fragment =
      (compileBranches d bs).map m.fragment := by
  cases bs with
  | nil => rfl
  | cons b rest =>
    refine map_bind_congr (b.compile_masked h d) fun f g hfg => ?_
    refine map_bind_congr (compileBranches_masked h d rest) fun fs gs hfs => congrArg Except.ok ?_
    simp [hfg, hfs]
termination_by structural bs

theorem Branch.compile_masked (h : m.Fair) (d : Dialect) (b : Branch) :
    ((b.masked m).compile d).map m.fragment = (b.compile d).map m.fragment := by
  cases b with
  | mk condition result =>
    refine map_bind_congr (condition.compile_masked h d) fun c c' hc => ?_
    refine map_bind_congr (result.compile_masked h d) fun r r' hr => congrArg Except.ok ?_
    simp [hc, hr]
termination_by structural b

theorem compileOtherwise_masked (h : m.Fair) (d : Dialect) (otherwise : Option Expr) :
    (compileOtherwise d (maskedOption m otherwise)).map m.fragment =
      (compileOtherwise d otherwise).map m.fragment := by
  cases otherwise with
  | none => rfl
  | some e =>
    refine map_bind_congr (e.compile_masked h d) fun f g hfg => congrArg Except.ok ?_
    simp [hfg]
termination_by structural otherwise

theorem SortKey.compile_masked (h : m.Fair) (d : Dialect) (k : SortKey) :
    ((k.masked m).compile d).map m.fragment = (k.compile d).map m.fragment := by
  cases k with
  | mk e direction =>
    refine map_bind_congr (e.compile_masked h d) fun f g hfg => congrArg Except.ok ?_
    cases direction <;> simp [hfg]
termination_by structural k

theorem compileSortKeys_masked (h : m.Fair) (d : Dialect) (ks : List SortKey) :
    (compileSortKeys d (maskedSortKeys m ks)).map (List.map m.fragment) =
      (compileSortKeys d ks).map (List.map m.fragment) := by
  cases ks with
  | nil => rfl
  | cons k rest =>
    refine map_bind_congr (k.compile_masked h d) fun f g hfg => ?_
    refine map_bind_congr (compileSortKeys_masked h d rest) fun fs gs hfs => congrArg Except.ok ?_
    simp [hfg, hfs]
termination_by structural ks

theorem Condition.compile_masked (h : m.Fair) (d : Dialect) (c : Condition) :
    ((c.masked m).compile d).map (Option.map m.fragment) =
      (c.compile d).map (Option.map m.fragment) := by
  cases c with
  | compare target op value =>
    by_cases hnull : (op = .eq ∨ op = .ne) ∧ value.isNull
    · have hmasked : m.operand op value = .null := if_pos hnull
      obtain rfl := Value.eq_null hnull.2
      rw [Condition.masked, hmasked]
      refine map_bind_congr (target.compile_masked h d) fun f g hfg => congrArg Except.ok ?_
      rcases hnull.1 with rfl | rfl <;> simp [hfg]
    · have hmasked : m.operand op value = m.value value := if_neg hnull
      have hnull' : ¬((op = .eq ∨ op = .ne) ∧ (m.value value).isNull) := fun hn =>
        hnull ⟨hn.1, h.isNull_of_value value hn.2⟩
      rw [Condition.masked, hmasked, Condition.compile_compare_of_not_null _ _ hnull',
        Condition.compile_compare_of_not_null _ _ hnull]
      refine map_bind_congr (target.compile_masked h d) fun f g hfg => congrArg Except.ok ?_
      simp [hfg, h.fragment_bind]
  | isIn target values negated =>
    simp only [Condition.masked, Condition.compile, List.isEmpty_map]
    split
    · rfl
    · refine map_bind_congr (target.compile_masked h d) fun f g hfg => congrArg Except.ok ?_
      simp only [Option.map_some, fragment_append, fragment_text, fragment_joined, h.map_bind, hfg]
  | isNull target negated =>
    refine map_bind_congr (target.compile_masked h d) fun f g hfg => congrArg Except.ok ?_
    simp [hfg]
  | between target low high negated =>
    refine map_bind_congr (target.compile_masked h d) fun f g hfg => congrArg Except.ok ?_
    simp [hfg, h.fragment_bind]
  | columns comparison => exact congrArg (Except.ok ∘ some) (h.fragment_comparison d comparison)
  | marked sql values =>
    refine map_bind_congr (h.fragment_marked sql values) fun f g hfg => congrArg Except.ok ?_
    simp [hfg]
  | existsRow query negated =>
    refine map_bind_congr (query.compile_masked h d) fun f g hfg => congrArg Except.ok ?_
    simp [hfg]
  | holds e =>
    refine map_bind_congr (e.compile_masked h d) fun f g hfg => congrArg Except.ok ?_
    simp [hfg]
termination_by structural c

theorem compileLinks_masked (h : m.Fair) (d : Dialect) (links : List Link) {a b : Chain}
    (hab : m.chain a = m.chain b) :
    (compileLinks d a (maskedLinks m links)).map m.chain =
      (compileLinks d b links).map m.chain := by
  cases links with
  | nil => exact congrArg Except.ok hab
  | cons l rest =>
    refine map_bind_congr (l.compile_masked h d hab) fun a' b' hab' => ?_
    exact compileLinks_masked h d rest hab'
termination_by structural links

theorem Link.compile_masked (h : m.Fair) (d : Dialect) (l : Link) {a b : Chain}
    (hab : m.chain a = m.chain b) :
    ((l.masked m).compile d a).map m.chain = (l.compile d b).map m.chain := by
  cases l with
  | mk connective condition =>
    refine map_bind_congr (condition.compile_masked h d) fun f g hfg => congrArg Except.ok ?_
    cases f with
    | none =>
      cases g with
      | none => exact hab
      | some g => cases hfg
    | some f =>
      cases g with
      | none => cases hfg
      | some g => rw [m.chain_append, m.chain_append, hab, Option.some.inj hfg]
termination_by structural l

theorem compileScopes_masked (h : m.Fair) (d : Dialect) (cs : List Condition) :
    (compileScopes d (maskedConditions m cs)).map (List.map m.fragment) =
      (compileScopes d cs).map (List.map m.fragment) := by
  cases cs with
  | nil => rfl
  | cons c rest =>
    refine map_bind_congr (c.compile_masked h d) fun f g hfg => ?_
    refine map_bind_congr (compileScopes_masked h d rest) fun fs gs hfs => congrArg Except.ok ?_
    have hlist := congrArg Option.toList hfg
    simp only [Option.toList_map] at hlist
    rw [List.map_append, List.map_append, hlist, hfs]
termination_by structural cs

theorem Query.compile_masked (h : m.Fair) (d : Dialect) (q : Query) :
    ((q.masked m).compile d).map m.fragment = (q.compile d).map m.fragment := by
  cases q with
  | mk table dialect key columns distinct joins filters scopes groups havings orders limit offset =>
    refine map_bind_congr (compileExprs_masked h d columns) fun cs cs' hcs => ?_
    refine map_bind_congr (h.fragment_table table) fun t t' ht => ?_
    refine map_bind_congr (compileLinks_masked h d filters rfl) fun chain chain' hchain => ?_
    refine map_bind_congr (compileScopes_masked h d scopes) fun ss ss' hss => ?_
    refine map_bind_congr (compileLinks_masked h d havings rfl) fun having having' hhaving => ?_
    refine map_bind_congr (compileSortKeys_masked h d orders) fun os os' hos => ?_
    refine congrArg Except.ok ?_
    have hcolumns := isEmpty_maskedExprs m columns
    have hscopes := isEmpty_maskedConditions m scopes
    have horders := isEmpty_maskedSortKeys m orders
    have hgroups : ((groups.map m.path).map Fragment.path).map m.fragment =
        (groups.map Fragment.path).map m.fragment := by
      simp [h.fragment_path]
    simp only [fragment_text, fragment_append, fragment_clause, fragment_window, ht,
      h.fragment_joins, fragment_conjunction, hchain, hss, hhaving, hcolumns, hscopes, horders,
      List.isEmpty_map, apply_ite m.fragment, apply_ite (Option.map m.fragment), fragment_joined,
      Option.map_some, hcs, hos, hgroups]
termination_by structural q

end

end Compiling

end RecordMapper
