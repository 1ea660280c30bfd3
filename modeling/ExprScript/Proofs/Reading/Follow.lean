import ExprScript.Grammar.Statement
import ExprScript.Proofs.Follow
import ExprScript.Proofs.Lexing.Columns
import ExprScript.Proofs.Ty.Relocate

/-!
# Reading does not depend on columns

The same lexemes at other columns are read in the same way, into the same tree at these columns. And
a reader that may go down further reads what one that may not has read: the levels only decide
whether reading is broken off.

* `Cursor.relocate`: a cursor with its columns changed by a function;
* `Reading.Follows`: **two readings that run alike**, on cursors that differ in their columns;
* **`Reading.follows_expressionAt`**, `Reading.follows_declaration`: the readers run alike.
-/

namespace ExprScript

/-! ## Cursors at other columns -/

/-- A syntax error at another column. -/
def SyntaxError.relocate (f : Nat → Nat) (e : SyntaxError) : SyntaxError :=
  { e with column := f e.column }

/-- An ending at another column. -/
def Ending.relocate (f : Nat → Nat) : Ending → Ending
  | .semicolon column => .semicolon (f column)
  | .endOfText column => .endOfText (f column)

namespace Cursor

variable (f : Nat → Nat) (c : Cursor)

/-- A cursor at other columns. -/
def relocate : Cursor :=
  ⟨c.rest.map (Lexeme.relocate f), c.ending.relocate f, c.errors.map (SyntaxError.relocate f)⟩

theorem token?_relocate : (c.relocate f).token? = c.token? := by
  obtain ⟨rest, ending, errors⟩ := c
  cases rest <;> rfl

theorem column_relocate : (c.relocate f).column = f c.column := by
  obtain ⟨rest, ending, errors⟩ := c
  cases rest with
  | nil => cases ending <;> rfl
  | cons l rest => rfl

theorem next_relocate : (c.relocate f).next = c.next.relocate f := by
  obtain ⟨rest, ending, errors⟩ := c
  cases rest <;> rfl

theorem unexpected_relocate (expected : Expected) :
    (c.relocate f).unexpected expected = (c.unexpected expected).relocate f := by
  obtain ⟨rest, ending, errors⟩ := c
  cases rest with
  | nil => cases ending <;> rfl
  | cons l rest => rfl

theorem complete_relocate : (c.relocate f).complete = c.complete := by
  obtain ⟨rest, ending, errors⟩ := c
  cases rest <;> cases ending <;> rfl

end Cursor

namespace Reading

/-- Cursors match that differ in their columns; a reading that is broken off may be excused. -/
def atColumns (f : Nat → Nat) (lenient : Prop) : Matching TooDeep Cursor Cursor where
  excused _ := lenient
  states c c' := c' = c.relocate f
  errors e e' := e'.column = f e.column

/-- **Two readings run alike** on cursors that differ in their columns. -/
abbrev Follows {α β : Type} (f : Nat → Nat) (lenient : Prop) (R : α → β → Prop) (p : Reading α)
    (q : Reading β) : Prop :=
  (atColumns f lenient).Follows R p q

/-- Nothing is asked of two results. -/
abbrev Any {α β : Type} (_ : α) (_ : β) : Prop := True

/-- The second of two results is a function of the first. -/
abbrev Is {α β : Type} (φ : α → β) (a : α) (b : β) : Prop := b = φ a

section Steps

variable {f : Nat → Nat} {lenient : Prop}

theorem follows_look : Follows f lenient Eq look? look? := by
  rintro c _ rfl
  exact .ok (c.token?_relocate f).symm rfl

theorem follows_column : Follows f lenient (Is f) column column := by
  rintro c _ rfl
  exact .ok (c.column_relocate f) rfl

theorem follows_left : Follows f lenient Eq left left := by
  rintro c _ rfl
  exact .ok (List.length_map _).symm rfl

theorem follows_skip : Follows f lenient Any skip skip := by
  rintro c _ rfl
  exact .ok trivial (c.next_relocate f)

theorem follows_report (cause : SyntaxCause) (column : Nat) :
    Follows f lenient Any (report cause column) (report cause (f column)) := by
  rintro c _ rfl
  exact .ok trivial rfl

/-- An error that is reported or not, and what comes behind it. -/
theorem follows_reportIf {α β : Type} {R : α → β → Prop} {p : Prop} [Decidable p]
    (cause : SyntaxCause) (column : Nat) {k : Unit → Reading α} {k' : Unit → Reading β}
    (h : ∀ u, Follows f lenient R (k u) (k' u)) :
    Follows f lenient R (if p then report cause column >>= k else k ())
      (if p then report cause (f column) >>= k' else k' ()) :=
  .ite Iff.rfl ((follows_report cause column).bind fun _ _ _ => h _) (h ())

theorem follows_unexpected (expected : Expected) :
    Follows f lenient Any (unexpected expected) (unexpected expected) := by
  rintro c _ rfl
  exact .ok trivial (c.unexpected_relocate f expected)

theorem follows_eat (t : Token) : Follows f lenient Eq (eat t) (eat t) := by
  unfold eat
  refine follows_look.bind_eq fun t' => ?_
  exact .ite Iff.rfl (follows_skip.bind fun _ _ _ => .pure rfl) (.pure rfl)

theorem follows_expect (t : Token) : Follows f lenient Eq (expect t) (expect t) := by
  unfold expect
  refine (follows_eat t).bind_eq fun b => ?_
  exact .ite Iff.rfl (.pure rfl) ((follows_unexpected _).bind fun _ _ _ => .pure rfl)

theorem follows_symbol (s : Symbol) : Follows f lenient Any (symbol s) (symbol s) :=
  (follows_expect _).map fun _ _ _ => trivial

theorem follows_keyword (k : Keyword) : Follows f lenient Any (keyword k) (keyword k) :=
  (follows_expect _).map fun _ _ _ => trivial

theorem follows_identifier :
    Follows f lenient (Is (Option.map fun n => (n.1, f n.2))) identifier? identifier? := by
  unfold identifier?
  refine follows_column.bind_map fun k => ?_
  refine follows_look.bind_eq fun t => ?_
  split
  · exact follows_skip.bind fun _ _ _ => .pure rfl
  · exact (follows_unexpected _).bind fun _ _ _ => .pure rfl

theorem follows_nameOrEmpty : Follows f lenient Eq nameOrEmpty nameOrEmpty := by
  unfold nameOrEmpty
  refine follows_identifier.bind_map fun n => ?_
  cases n <;> exact .pure rfl

end Steps

/-! ## Expressions -/

section Readers

variable {f : Nat → Nat} {lenient : Prop} {deeper deeper' : Nat → Reading Expr}
  (hd : ∀ level, Follows f lenient (Is (Expr.relocate f)) (deeper level) (deeper' level))

include hd

theorem follows_argument :
    Follows f lenient (Is (Expr.relocate f)) (argument deeper) (argument deeper') := by
  unfold argument
  refine (follows_symbol _).bind fun _ _ _ => (hd 1).bind_map fun e => ?_
  exact (follows_symbol _).bind fun _ _ _ => .pure rfl

theorem follows_argumentPair :
    Follows f lenient (Is (Prod.map (Expr.relocate f) (Expr.relocate f))) (argumentPair deeper)
      (argumentPair deeper') := by
  unfold argumentPair
  refine (follows_symbol _).bind fun _ _ _ => (hd 1).bind_map fun e₁ => ?_
  refine (follows_symbol _).bind fun _ _ _ => (hd 1).bind_map fun e₂ => ?_
  exact (follows_symbol _).bind fun _ _ _ => .pure rfl

theorem follows_expressions (rounds : Nat) :
    Follows f lenient (Is (relocateAll f)) (expressions deeper rounds)
      (expressions deeper' rounds) := by
  induction rounds with
  | zero =>
    unfold expressions
    refine (hd 1).bind_map fun e => ?_
    exact .pure rfl
  | succ rounds ih =>
    unfold expressions
    refine (hd 1).bind_map fun e => ?_
    refine (follows_eat _).bind_eq fun b => ?_
    exact .ite Iff.rfl (ih.bind_map fun es => .pure rfl) (.pure rfl)

theorem follows_expressionsUpTo (close : Symbol) :
    Follows f lenient (Is (relocateAll f)) (expressionsUpTo deeper close)
      (expressionsUpTo deeper' close) := by
  unfold expressionsUpTo
  refine (follows_eat _).bind_eq fun b => ?_
  refine .ite Iff.rfl (.pure rfl) (follows_left.bind_eq fun n => ?_)
  refine (follows_expressions hd n).bind_map fun es => ?_
  exact (follows_symbol _).bind fun _ _ _ => .pure rfl

theorem follows_afterName (name : String) (column : Nat) :
    Follows f lenient (Is (Expr.relocate f)) (afterName deeper name column)
      (afterName deeper' name (f column)) := by
  unfold afterName
  refine follows_look.bind_eq fun t => ?_
  split
  · refine follows_skip.bind fun _ _ _ => (follows_expressionsUpTo hd _).bind_map fun es => ?_
    exact .pure rfl
  · refine follows_skip.bind fun _ _ _ => (hd 1).bind_map fun e => ?_
    exact (follows_symbol _).bind fun _ _ _ => .pure rfl
  · exact follows_skip.bind fun _ _ _ => (follows_symbol _).bind fun _ _ _ =>
      (follows_symbol _).bind fun _ _ _ => .pure rfl
  · exact .pure rfl

omit hd in
theorem follows_bindingName :
    Follows f lenient (Is (Prod.map id f)) bindingName bindingName := by
  unfold bindingName
  refine follows_identifier.bind_map fun n => ?_
  cases n with
  | some found => exact .pure rfl
  | none =>
    refine follows_column.bind_map fun k => ?_
    exact .pure rfl

theorem follows_binding :
    Follows f lenient (fun g g' => ∀ b, g' (b.relocate f) = (g b).relocate f) (binding deeper)
      (binding deeper') := by
  unfold binding
  refine follows_bindingName.bind_map fun name => ?_
  refine (follows_symbol _).bind fun _ _ _ => (hd 1).bind_map fun e => ?_
  exact .pure fun _ => rfl

theorem follows_letBody :
    Follows f lenient (Is (Bindings.relocate f)) (letBody deeper) (letBody deeper') := by
  unfold letBody
  refine (follows_keyword _).bind fun _ _ _ => (hd 1).bind_map fun e => ?_
  exact .pure rfl

theorem follows_bindings (rounds : Nat) :
    Follows f lenient (Is (Bindings.relocate f)) (bindings deeper rounds)
      (bindings deeper' rounds) := by
  induction rounds with
  | zero => exact follows_letBody hd
  | succ rounds ih =>
    unfold bindings
    refine (follows_binding hd).bind fun bind bind' hb => (follows_eat _).bind_eq fun more => ?_
    exact .ite Iff.rfl (ih.bind_map fun b => .pure (hb b))
      ((follows_letBody hd).bind_map fun b => .pure (hb b))

theorem follows_lastBranch :
    Follows f lenient (Is (Branches.relocate f)) (lastBranch deeper) (lastBranch deeper') := by
  unfold lastBranch
  refine follows_column.bind_map fun k => ?_
  refine (follows_expect _).bind_eq fun b => ?_
  exact .ite Iff.rfl ((hd 1).bind_map fun e => .pure rfl) (.pure rfl)

theorem follows_branches (rounds : Nat) :
    Follows f lenient (Is (Branches.relocate f)) (branches deeper rounds)
      (branches deeper' rounds) := by
  induction rounds with
  | zero => exact follows_lastBranch hd
  | succ rounds ih =>
    unfold branches
    refine (follows_eat _).bind_eq fun b => ?_
    refine .ite Iff.rfl ((follows_argument hd).bind_map fun condition => ?_) (follows_lastBranch hd)
    refine (hd 1).bind_map fun body => ?_
    refine ih.bind_map fun rest => ?_
    exact .pure rfl

theorem follows_loopSource (column : Nat) (var : String) :
    Follows f lenient (fun g g' => ∀ e, g' (e.relocate f) = (g e).relocate f)
      (loopSource deeper column var) (loopSource deeper' (f column) var) := by
  unfold loopSource
  refine follows_column.bind_map fun k => ?_
  refine follows_look.bind_eq fun t => ?_
  split
  · refine follows_skip.bind fun _ _ _ => (follows_argumentPair hd).bind_map fun bounds => ?_
    exact .pure fun _ => rfl
  · exact follows_skip.bind fun _ _ _ => .pure fun _ => rfl
  · exact (follows_unexpected _).bind fun _ _ _ => .pure fun _ => rfl

theorem follows_forLoop (column : Nat) :
    Follows f lenient (Is (Expr.relocate f)) (forLoop deeper column)
      (forLoop deeper' (f column)) := by
  unfold forLoop
  refine (follows_symbol _).bind fun _ _ _ => follows_nameOrEmpty.bind_eq fun var => ?_
  refine (follows_keyword _).bind fun _ _ _ => (follows_loopSource hd column var).bind ?_
  intro loop loop' hl
  refine (follows_symbol _).bind fun _ _ _ => (hd 1).bind_map fun body => ?_
  exact .pure (hl body)

theorem follows_primary :
    Follows f lenient (Is (Expr.relocate f)) (primary deeper) (primary deeper') := by
  unfold primary
  refine follows_column.bind_map fun k => ?_
  refine follows_look.bind_eq fun t => ?_
  split
  case h_1 | h_2 | h_3 | h_4 => exact follows_skip.bind fun _ _ _ => .pure rfl
  case h_5 =>
    refine follows_skip.bind fun _ _ _ => (hd 1).bind_map fun e => ?_
    exact (follows_symbol _).bind fun _ _ _ => .pure rfl
  case h_6 =>
    refine follows_skip.bind fun _ _ _ => (follows_expressionsUpTo hd _).bind_map fun es => ?_
    exact .pure rfl
  case h_7 | h_8 =>
    refine follows_skip.bind fun _ _ _ => (follows_argument hd).bind_map fun e => ?_
    exact .pure rfl
  case h_9 | h_10 =>
    refine follows_skip.bind fun _ _ _ => (follows_argumentPair hd).bind_map fun bounds => ?_
    exact .pure rfl
  case h_11 =>
    exact follows_skip.bind fun _ _ _ => (follows_symbol _).bind fun _ _ _ =>
      (follows_symbol _).bind fun _ _ _ => .pure rfl
  case h_12 =>
    refine follows_skip.bind fun _ _ _ => follows_left.bind_eq fun n => ?_
    refine (follows_bindings hd _).bind_map fun b => ?_
    exact .pure rfl
  case h_13 =>
    refine follows_skip.bind fun _ _ _ => (follows_argument hd).bind_map fun condition => ?_
    refine (hd 1).bind_map fun body => ?_
    refine follows_left.bind_eq fun n => ?_
    refine (follows_branches hd _).bind_map fun rest => ?_
    exact .pure rfl
  case h_14 => exact follows_skip.bind fun _ _ _ => follows_forLoop hd k
  case h_15 =>
    refine follows_skip.bind fun _ _ _ => (follows_argument hd).bind_map fun condition => ?_
    refine (hd 1).bind_map fun body => ?_
    exact .pure rfl
  case h_16 => exact follows_skip.bind fun _ _ _ => follows_afterName hd _ k
  case h_17 => exact (follows_unexpected _).bind fun _ _ _ => .pure rfl

theorem follows_unary :
    Follows f lenient (Is (Expr.relocate f)) (unary deeper) (unary deeper') := by
  unfold unary
  refine follows_look.bind_eq fun t => ?_
  split
  · refine follows_column.bind_map fun k => ?_
    refine follows_skip.bind fun _ _ _ => (hd _).bind_map fun e => ?_
    exact .pure rfl
  · exact follows_primary hd

omit hd in
theorem follows_operator (level : Nat) :
    Follows f lenient Eq (operator? level) (operator? level) := by
  unfold operator?
  refine follows_look.bind_eq fun t => ?_
  exact .pure rfl

theorem follows_chain (level rounds : Nat) (operand : Expr) :
    Follows f lenient (Is (Expr.relocate f)) (chain deeper level rounds operand)
      (chain deeper' level rounds (operand.relocate f)) := by
  induction rounds generalizing operand with
  | zero => exact .pure rfl
  | succ rounds ih =>
    unfold chain
    refine (follows_operator level).bind_eq fun op => ?_
    cases op with
    | none => exact .pure rfl
    | some op =>
      refine follows_column.bind_map fun k => ?_
      refine follows_skip.bind fun _ _ _ => (hd _).bind_map fun right => ?_
      exact ih (.binary k operand op right)

theorem follows_binary (level : Nat) :
    Follows f lenient (Is (Expr.relocate f)) (binary deeper level) (binary deeper' level) := by
  unfold binary
  refine (follows_unary hd).bind_map fun operand => ?_
  refine follows_left.bind_eq fun n => ?_
  exact follows_chain hd level n operand

end Readers

/-- **The readers of expressions run alike** on cursors that differ in their columns, on as many
levels, or on more of them if it is excused to be broken off. -/
theorem follows_expressionAt {f : Nat → Nat} {lenient : Prop} {levels levels' : Nat}
    (h : LimitLe lenient levels levels') (level : Nat) :
    Follows f lenient (Is (Expr.relocate f)) (expressionAt levels level)
      (expressionAt levels' level) := by
  induction levels generalizing levels' level with
  | zero =>
    obtain rfl | ⟨-, hx⟩ := h
    · refine follows_column.bind_map fun k => ?_
      exact .throw rfl
    · exact fun _ _ _ => .excused hx
  | succ levels ih =>
    obtain ⟨levels', rfl, hle⟩ := h.exists_of_succ
    exact follows_binary (ih hle) level

/-! ## Declarations -/

section Declarations

variable {f : Nat → Nat} {lenient : Prop}

theorem follows_parameterNames (seen : List String) (rounds : Nat) :
    Follows f lenient Eq (parameterNames seen rounds) (parameterNames seen rounds) := by
  induction rounds generalizing seen with
  | zero => exact .pure rfl
  | succ rounds ih =>
    unfold parameterNames
    refine follows_identifier.bind_map fun found => ?_
    cases found with
    | none => exact .pure rfl
    | some found =>
      refine follows_reportIf _ _ fun _ => (follows_eat _).bind_eq fun b => ?_
      exact .ite Iff.rfl ((ih _).bind_eq fun names => .pure rfl) (.pure rfl)

theorem follows_parameters : Follows f lenient Eq parameters parameters := by
  unfold parameters
  refine (follows_expect _).bind_eq fun b => ?_
  refine .ite Iff.rfl (.pure rfl) ((follows_eat _).bind_eq fun b => ?_)
  refine .ite Iff.rfl (.pure rfl) (follows_left.bind_eq fun n => ?_)
  refine (follows_parameterNames [] _).bind_eq fun names => ?_
  exact (follows_symbol _).bind fun _ _ _ => .pure rfl

/-- **The readers of declarations run alike**, under tables in which the same names are taken. -/
theorem follows_declaration {table table' : FunctionTable}
    (hc : ∀ name, table'.contains name = table.contains name) {deeper deeper' : Nat → Reading Expr}
    (hd : ∀ level, Follows f lenient (Is (Expr.relocate f)) (deeper level) (deeper' level)) :
    Follows f lenient (Is (Declaration.relocate f)) (declaration table deeper)
      (declaration table' deeper') := by
  unfold declaration
  refine follows_skip.bind fun _ _ _ => follows_column.bind_map fun k => ?_
  refine follows_nameOrEmpty.bind_eq fun name => ?_
  rw [hc name]
  refine follows_reportIf _ k fun _ => follows_parameters.bind_eq fun params => ?_
  refine (follows_symbol _).bind fun _ _ _ => (hd 1).bind_map fun body => ?_
  exact .pure rfl

end Declarations

end Reading

end ExprScript
