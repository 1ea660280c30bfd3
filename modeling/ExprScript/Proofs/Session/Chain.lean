import ExprScript.Proofs.Eval.Step
import ExprScript.Proofs.Program.Complete
import ExprScript.Proofs.Program.Relocate
import ExprScript.Proofs.Tree.Chain
import ExprScript.Session

/-!
# Chains mean what the table of precedences says

The value of a grouping is that of its operations, from the inside out. A text that is spelled like a
chain and one that is spelled with all parentheses of its grouping have this value both.

* `Atom.value`, `Grouping.value`: the value of a grouping;
* `Grouping.Shapes`: the trees that have the shape of a grouping, up to parentheses and columns;
* `Expr.evalWith_of_shapes`: **such a tree has the value of the grouping**;
* `Spells`, `Session.parse_of_spells`: a text with given tokens, and how it is read;
* `Session.getResult_of_shapes`: the result of such a text;
* **`Session.getResult_chain`**: the result of a chain is that of its fully parenthesized form.
-/

namespace ExprScript

/-! ## Values of groupings -/

/-- The value of an operand. -/
def Atom.value (scopes : Scopes) : Atom → Computed Value
  | .number x => .ok (.number x)
  | .string s => .ok (.string s)
  | .bool b => .ok (.bool b)
  | .constant c => .ok (.number c.value)
  | .variable name =>
    match scopes.find? name with
    | some b => .ok b.value
    | none => .error (.undefinedVariable name)

namespace Grouping

/-- **The value of a grouping**: that of its operations, from the inside out and from left to right. -/
def value (scopes : Scopes) : Grouping → Computed Value
  | .atom x => x.value scopes
  | .operation left op right => do
    let a ← left.value scopes
    let b ← right.value scopes
    op.apply a b

/-- **Trees with the shape of a grouping**, at whatever columns, and with whatever parentheses around
their parts. -/
inductive Shapes : Grouping → Expr → Prop
  | atom {x : Atom} {e : Expr} : e.plain = x.tree → Shapes (.atom x) e
  | operation {left right : Grouping} {l r : Expr} (column : Nat) (op : BinaryOp) :
    Shapes left l → Shapes right r → Shapes (.operation left op right) (.binary column l op r)
  | paren {g : Grouping} {e : Expr} (column : Nat) : Shapes g e → Shapes g (.paren column e)

theorem exists_of_plain_variable {e : Expr} {name : String} (h : e.plain = .variable 0 name) :
    ∃ column, e = .variable column name := by
  cases e <;> cases h
  exact ⟨_, rfl⟩

/-- A tree that is a binary operation up to columns is one. -/
theorem exists_of_plain_binary {e l r : Expr} {op : BinaryOp} (h : e.plain = .binary 0 l op r) :
    ∃ column l' r', e = .binary column l' op r' ∧ l'.plain = l ∧ r'.plain = r := by
  cases e with
  | binary column l' op' r' =>
    obtain ⟨-, rfl, rfl, rfl⟩ := Expr.binary.inj h
    exact ⟨column, l', r', rfl, rfl, rfl⟩
  | _ => cases h

/-- A tree that stands in parentheses up to columns does. -/
theorem exists_of_plain_paren {e inner : Expr} (h : e.plain = .paren 0 inner) :
    ∃ column inner', e = .paren column inner' ∧ inner'.plain = inner := by
  cases e with
  | paren column inner' =>
    obtain ⟨-, rfl⟩ := Expr.paren.inj h
    exact ⟨column, inner', rfl, rfl⟩
  | _ => cases h

theorem shapes_of_tree {g : Grouping} {e : Expr} (h : e.plain = g.tree) : g.Shapes e := by
  induction g generalizing e with
  | atom x => exact .atom h
  | operation left op right ihl ihr =>
    obtain ⟨column, l, r, rfl, hl, hr⟩ := exists_of_plain_binary h
    exact .operation column op (ihl hl) (ihr hr)

theorem shapes_of_parenthesized {g : Grouping} {outer : Bool} {e : Expr}
    (h : e.plain = g.parenthesized outer) : g.Shapes e := by
  induction g generalizing outer e with
  | atom x => exact .atom h
  | operation left op right ihl ihr =>
    have hinner : ∀ {e : Expr},
        e.plain = .binary 0 (left.parenthesized true) op (right.parenthesized true) →
        Shapes (.operation left op right) e := by
      intro e he
      obtain ⟨column, l, r, rfl, hl, hr⟩ := exists_of_plain_binary he
      exact .operation column op (ihl hl) (ihr hr)
    cases outer with
    | false => exact hinner h
    | true =>
      obtain ⟨column, inner, rfl, hp⟩ := exists_of_plain_paren h
      exact .paren column (hinner hp)

end Grouping

/-! ## Evaluation -/

theorem Eval.binding_apply (name : String) (column : Nat) (m : Machine) :
    binding name column m = match m.scopes.find? name with
      | some b => .ok b m
      | none => .error (.error ⟨.undefinedVariable name, column⟩) m := by
  change (match m.scopes.find? name with
    | some b => pure b
    | none => fail (.undefinedVariable name) column : Eval Binding) m = _
  cases m.scopes.find? name <;> rfl

theorem Atom.evalWith_of_plain (setting : Setting) (enter : Enter) {x : Atom} {e : Expr}
    (h : e.plain = x.tree) (m : Machine) :
    ∃ column, e.evalWith setting enter m = Eval.located column (x.value m.scopes) m := by
  match x, h with
  | .variable name, h =>
    obtain ⟨column, rfl⟩ := Grouping.exists_of_plain_variable h
    refine ⟨column, ?_⟩
    rw [Expr.evalWith, Eval.bind_apply, Eval.binding_apply, Atom.value]
    cases m.scopes.find? name <;> rfl
  | .number _, h | .string _, h | .bool _, h | .constant _, h =>
    cases e <;> cases h
    exact ⟨0, rfl⟩

/-- **A tree has the value of the grouping that it has the shape of**, and its evaluation changes
nothing. -/
theorem Expr.evalWith_of_shapes (setting : Setting) (enter : Enter) {g : Grouping} {e : Expr}
    (h : g.Shapes e) (m : Machine) :
    ∃ column, e.evalWith setting enter m = Eval.located column (g.value m.scopes) m := by
  induction h with
  | atom h => exact Atom.evalWith_of_plain setting enter h m
  | paren _ _ ih => exact ih
  | @operation left right l r column op _ _ ihl ihr =>
    obtain ⟨cl, hl⟩ := ihl
    obtain ⟨cr, hr⟩ := ihr
    rw [Expr.evalWith, Eval.bind_apply, hl, Grouping.value]
    cases left.value m.scopes with
    | error cause => exact ⟨cl, rfl⟩
    | ok a =>
      change ∃ c, (r.evalWith setting enter >>= fun b => Eval.located column (op.apply a b)) m = _
      rw [Eval.bind_apply, hr]
      cases right.value m.scopes with
      | error cause => exact ⟨cr, rfl⟩
      | ok b => exact ⟨column, rfl⟩

/-! ## Reading -/

/-- A text that consists of the given tokens. -/
structure Spells (source : String) (ts : List Token) : Prop where
  errors : (tokenize source).errors = []
  tokens : (tokenize source).lexemes.map Lexeme.token = ts

/-- A failure at another place. -/
def Failure.relocate (f : Nat → Nat) : Failure → Failure
  | .diagnosed ds => .diagnosed (ds.map (Diagnostic.relocate f))
  | .outOfRounds => .outOfRounds

namespace Session

variable (s : Session)

/-- **A text that is spelled like a tree is read into that tree**, up to columns, unless it nests too
deeply. -/
theorem parse_of_spells {t : Expr} (hw : t.complete) (hg : t.grouped) {source : String}
    (h : Spells source (t.tokens ++ [.symbol .semicolon]))
    (hdeep : ∀ tree ∈ (s.parse source).1, ¬ tree.BrokenOff) :
    ∃ root, s.parse source = ([⟨some root, []⟩], s) ∧ root.plain = t.plain := by
  obtain ⟨own, last, hsplit, hown, hlast⟩ := List.map_eq_append_iff.mp h.tokens
  obtain ⟨⟨token, column⟩, rfl, rfl⟩ := List.map_eq_singleton_iff.mp hlast
  have hends : ∀ l ∈ own, ¬ l.endsStatement := by
    intro l hl
    obtain ⟨m, hm, ht⟩ := List.mem_map.mp (hown ▸ List.mem_map_of_mem hl)
    rw [Lexeme.endsStatement, ← ht, decide_eq_true_eq]
    exact t.unended_marks m hm
  obtain ⟨m, ms, hms, hstart⟩ := t.exists_marks_eq_cons hw
  have hhead : own.head?.map Lexeme.token = some m.token := by
    rw [← List.head?_map, hown, Expr.tokens, hms]
    rfl
  let st : Statement := ⟨own, .semicolon column⟩
  have hread : s.parse source = ([st.readExpression s.limits.parseDepth []], s) := by
    have hstatements : Program.statements (source.length + 1) (tokenize source).lexemes = [st] := by
      rw [hsplit]
      exact Program.statements_eq_singleton hends
    have htrees : Program.read s.limits.parseDepth s.functions source =
        ([st.readExpression s.limits.parseDepth []], s.functions) := by
      rw [Program.read, Program.readLexing, h.errors, hstatements, Program.readAll_cons,
        List.takeWhile_nil, List.dropWhile_nil, Statement.read_of_startsExpression hhead hstart]
      rfl
    rw [parse, htrees]
  obtain ⟨hfits, hlimit⟩ := Statement.readExpression_of_tokens s.limits.parseDepth hw hg hown
    (s := st) rfl
  rw [hread] at hdeep ⊢
  by_cases hneed : t.need ≤ s.limits.parseDepth
  · obtain ⟨root, hroot, hplain⟩ := hfits hneed
    exact ⟨root, by rw [hroot], hplain⟩
  · obtain ⟨column', htree⟩ := hlimit (Nat.lt_of_not_le hneed)
    refine absurd ⟨s.limits.parseDepth, column', ?_⟩ (hdeep _ List.mem_cons_self)
    rw [htree]
    exact List.mem_cons_self

/-! ## Results -/

theorem eval_of_shapes {root : Expr} {g : Grouping} (h : g.Shapes root) (rounds : Nat) :
    ∃ column, s.eval rounds root =
      ((g.value s.machine.scopes).mapError fun cause => .error ⟨cause, column⟩, s) := by
  let setting : Setting := ⟨s.functions, s.limits, rounds⟩
  obtain ⟨column, hvalue⟩ := root.evalWith_of_shapes setting
    (enterCall setting s.limits.callDepth) h s.machine
  have hrun : (root.eval setting).run s.machine =
      Eval.located column (g.value s.machine.scopes) s.machine := hvalue
  refine ⟨column, ?_⟩
  rw [eval, hrun]
  cases g.value s.machine.scopes <;> rfl

/-- The result of a text whose only tree has the shape of a grouping is the value of that. -/
theorem getResult_of_shapes {source : String} {root : Expr} {g : Grouping}
    (hparse : s.parse source = ([⟨some root, []⟩], s)) (h : g.Shapes root) (rounds : Nat) :
    ∃ column, s.getResult rounds source = (match g.value [] with
      | .ok v => .ok (some v)
      | .error cause => .error (.diagnosed [.runtime ⟨cause, column⟩]), s.reset) := by
  obtain ⟨column, heval⟩ := s.reset.eval_of_shapes h rounds
  have hscopes : s.reset.machine.scopes = [] := rfl
  refine ⟨column, ?_⟩
  rw [getResult, hparse]
  dsimp only [lastValue, Tree.valid, evaluate]
  rw [heval, hscopes]
  cases g.value [] <;> rfl

/-- **A chain means what the table of precedences says.** The result of a text that is spelled like a
chain is that of a text with all parentheses of the grouping that the table dictates, up to the columns
of errors, if neither of them nests too deeply; and so is the session behind it. -/
theorem getResult_chain (rounds : Nat) (c : Chain) (outer : Bool) {flat full : String}
    (hflat : Spells flat (c.tokens ++ [.symbol .semicolon]))
    (hfull : Spells full ((c.grouping.parenthesized outer).tokens ++ [.symbol .semicolon]))
    (hflatDeep : ∀ tree ∈ (s.parse flat).1, ¬ tree.BrokenOff)
    (hfullDeep : ∀ tree ∈ (s.parse full).1, ¬ tree.BrokenOff) :
    (s.getResult rounds flat).1.mapError (Failure.relocate fun _ => 0) =
        (s.getResult rounds full).1.mapError (Failure.relocate fun _ => 0) ∧
      (s.getResult rounds flat).2 = (s.getResult rounds full).2 := by
  rw [← c.tokens_tree] at hflat
  obtain ⟨root, hparse, hplain⟩ :=
    s.parse_of_spells c.grouping.complete_tree c.grouped_tree hflat hflatDeep
  obtain ⟨root', hparse', hplain'⟩ := s.parse_of_spells (c.grouping.complete_parenthesized outer)
    (c.grouping.grouped_parenthesized outer) hfull hfullDeep
  rw [c.grouping.plain_tree] at hplain
  rw [c.grouping.plain_parenthesized] at hplain'
  obtain ⟨column, hresult⟩ := s.getResult_of_shapes hparse (Grouping.shapes_of_tree hplain) rounds
  obtain ⟨column', hresult'⟩ :=
    s.getResult_of_shapes hparse' (Grouping.shapes_of_parenthesized hplain') rounds
  rw [hresult, hresult']
  refine ⟨?_, rfl⟩
  cases c.grouping.value [] <;> rfl

/-- A chain of powers, which group to the right, in front of texts, which group to the left. -/
theorem getResult_chain_levels :
    let s := Session.new {} 0
    let c : Chain := ⟨.variable "x", [(.arithmetic .pow, .variable "y"),
      (.arithmetic .pow, .variable "z"), (.concat, .string "a"), (.concat, .variable "b")]⟩
    let flat := "x^y^z@\"a\"@b;"
    let full := "(((x^(y^z))@\"a\")@b);"
    Spells flat (c.tokens ++ [.symbol .semicolon]) ∧
      Spells full ((c.grouping.parenthesized true).tokens ++ [.symbol .semicolon]) ∧
      (s.getResult 0 flat).1.mapError (Failure.relocate fun _ => 0) =
        (s.getResult 0 full).1.mapError (Failure.relocate fun _ => 0) := by
  intro s c flat full
  have hflat : Spells flat (c.tokens ++ [.symbol .semicolon]) := ⟨by cbv, by cbv⟩
  have hfull : Spells full ((c.grouping.parenthesized true).tokens ++ [.symbol .semicolon]) :=
    ⟨by cbv, by cbv⟩
  have hclean : ∀ {source : String}, (s.parse source).1.map Tree.diagnostics = [[]] →
      ∀ tree ∈ (s.parse source).1, ¬ tree.BrokenOff := by
    intro source h tree ht
    have hd : tree.diagnostics ∈ (s.parse source).1.map Tree.diagnostics := List.mem_map_of_mem ht
    rw [h, List.mem_singleton] at hd
    rintro ⟨limit, column, hm⟩
    rw [hd] at hm
    cases hm
  exact ⟨hflat, hfull, (s.getResult_chain 0 c true hflat hfull (hclean (by cbv)) (hclean (by cbv))).1⟩

end Session

end ExprScript
