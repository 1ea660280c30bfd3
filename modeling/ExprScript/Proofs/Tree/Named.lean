import ExprScript.Proofs.Lexing.Names
import ExprScript.Proofs.Tree.Grouping
import ExprScript.Proofs.Tree.Spelling

/-!
# Names in a tree

A name that got lost while a statement was read is empty. No token of a text is an empty name, so a
tree that is spelled with such tokens has none.

* `Expr.named`: **no name in an expression is empty**, with the names bound by a `let`;
* `Named`: spellings without an empty name;
* **`Expr.named_of_marks`**: a tree with such a spelling has no empty name.
-/

namespace ExprScript

/-- Whether no name that bindings bind is empty. -/
def Bindings.namedHere : Bindings → Bool
  | .bind _ name _ rest => name ≠ "" && rest.namedHere
  | .body _ => true

/-- Whether no name that an expression itself uses or binds is empty. -/
def Expr.namedHere : Expr → Bool
  | .variable _ name => name ≠ ""
  | .call _ name _ => name ≠ ""
  | .index _ name _ => name ≠ ""
  | .method _ name _ => name ≠ ""
  | .forRange _ var _ _ _ => var ≠ ""
  | .forEach _ var source _ _ => var ≠ "" && source ≠ ""
  | .letIn _ bindings => bindings.namedHere
  | _ => true

/-- **No name in an expression is empty.** -/
abbrev Expr.named (e : Expr) : Bool := e.everywhere namedHere

/-! ## Spellings without an empty name -/

@[simp] theorem Token.named_identifier {name : String} :
    (Token.identifier name).named ↔ name ≠ "" := by
  simp [Token.named]

/-- Whether no token of a spelling is an empty name. -/
def Named (ms : List Mark) : Prop := ∀ m ∈ ms, m.token.named

namespace Named

@[simp] theorem cons_iff {m : Mark} {ms : List Mark} :
    Named (m :: ms) ↔ m.token.named ∧ Named ms :=
  List.forall_mem_cons

@[simp] theorem append_iff {ms ns : List Mark} : Named (ms ++ ns) ↔ Named ms ∧ Named ns :=
  List.forall_mem_append

theorem parens {ms : List Mark} (h : Named (parens ms)) : Named ms := by
  rw [ExprScript.parens, cons_iff, append_iff] at h
  exact h.2.1

theorem pairParens {ms ns : List Mark} (h : Named (pairParens ms ns)) : Named ms ∧ Named ns := by
  have hboth := h.parens
  rw [append_iff, cons_iff] at hboth
  exact ⟨hboth.1, hboth.2.2⟩

end Named

mutual

/-- **A tree that is spelled without an empty name has none.** -/
theorem Expr.named_of_marks : (e : Expr) → Named e.marks → e.named
  | .number .., _ | .string .., _ | .bool .., _ | .constant .., _ | .rand .., _ | .error .., _ => rfl
  | .variable _ name, h => by
    rw [Expr.marks, Named.cons_iff] at h
    exact decide_eq_true (Token.named_identifier.mp h.1)
  | .unary _ op operand, h => by
    rw [Expr.marks, Named.cons_iff] at h
    simpa [Expr.everywhere, Expr.namedHere] using operand.named_of_marks h.2
  | .binary _ left op right, h => by
    rw [Expr.marks, Named.append_iff, Named.cons_iff] at h
    simpa [Expr.everywhere, Expr.namedHere] using
      ⟨left.named_of_marks h.1, right.named_of_marks h.2.2⟩
  | .paren _ inner, h => by
    rw [Expr.marks, Named.cons_iff, Named.append_iff] at h
    simpa [Expr.everywhere, Expr.namedHere] using inner.named_of_marks h.2.1
  | .print _ argument, h => by
    rw [Expr.marks, Named.cons_iff] at h
    simpa [Expr.everywhere, Expr.namedHere] using argument.named_of_marks h.2.parens
  | .math _ _ argument, h => by
    rw [Expr.marks, Named.cons_iff] at h
    simpa [Expr.everywhere, Expr.namedHere] using argument.named_of_marks h.2.parens
  | .log _ base argument, h => by
    rw [Expr.marks, Named.cons_iff] at h
    obtain ⟨h₁, h₂⟩ := h.2.pairParens
    simpa [Expr.everywhere, Expr.namedHere] using ⟨base.named_of_marks h₁, argument.named_of_marks h₂⟩
  | .ifThen _ condition body rest, h => by
    rw [Expr.marks, Named.cons_iff, Named.append_iff, Named.append_iff] at h
    obtain ⟨-, ⟨h₁, h₂⟩, h₃⟩ := h
    simpa [Expr.everywhere, Expr.namedHere] using
      ⟨condition.named_of_marks h₁.parens, body.named_of_marks h₂, rest.named_of_marks h₃⟩
  | .letIn _ bindings, h => by
    rw [Expr.marks, Named.cons_iff] at h
    simpa [Expr.everywhere, Expr.namedHere] using bindings.named_of_marks h.2
  | .call _ name arguments, h => by
    rw [Expr.marks, Named.cons_iff] at h
    have hn : name ≠ "" := Token.named_identifier.mp h.1
    simpa [Expr.everywhere, Expr.namedHere, hn] using named_of_marksAll arguments h.2.parens
  | .forRange _ var lower upper body, h => by
    rw [Expr.marks, Named.cons_iff, Named.append_iff] at h
    obtain ⟨-, hhead, hbody⟩ := h
    have hhead := hhead.parens
    simp only [Named.cons_iff] at hhead
    obtain ⟨hvar, -, -, hbounds⟩ := hhead
    have hn : var ≠ "" := Token.named_identifier.mp hvar
    simpa [Expr.everywhere, Expr.namedHere, hn] using
      ⟨lower.named_of_marks hbounds.pairParens.1, upper.named_of_marks hbounds.pairParens.2,
        body.named_of_marks hbody⟩
  | .forEach _ var vector _ body, h => by
    rw [Expr.marks, Named.cons_iff, Named.append_iff] at h
    obtain ⟨-, hhead, hbody⟩ := h
    have hhead := hhead.parens
    simp only [Named.cons_iff] at hhead
    obtain ⟨hvar, -, hvector, -⟩ := hhead
    have hn : var ≠ "" := Token.named_identifier.mp hvar
    have hn' : vector ≠ "" := Token.named_identifier.mp hvector
    simpa [Expr.everywhere, Expr.namedHere, hn, hn'] using body.named_of_marks hbody
  | .while _ condition body, h => by
    rw [Expr.marks, Named.cons_iff, Named.append_iff] at h
    simpa [Expr.everywhere, Expr.namedHere] using
      ⟨condition.named_of_marks h.2.1.parens, body.named_of_marks h.2.2⟩
  | .vector _ elements, h => by
    rw [Expr.marks, Named.cons_iff, Named.append_iff] at h
    simpa [Expr.everywhere, Expr.namedHere] using named_of_marksAll elements h.2.1
  | .range _ lower upper, h => by
    rw [Expr.marks, Named.cons_iff] at h
    obtain ⟨h₁, h₂⟩ := h.2.pairParens
    simpa [Expr.everywhere, Expr.namedHere] using ⟨lower.named_of_marks h₁, upper.named_of_marks h₂⟩
  | .index _ name index, h => by
    rw [Expr.marks, Named.cons_iff, Named.cons_iff, Named.append_iff] at h
    have hn : name ≠ "" := Token.named_identifier.mp h.1
    simpa [Expr.everywhere, Expr.namedHere, hn] using index.named_of_marks h.2.2.1
  | .method _ name _, h => by
    rw [Expr.marks, Named.cons_iff] at h
    exact decide_eq_true (Token.named_identifier.mp h.1)

theorem named_of_marksAll : (es : List Expr) → Named (marksAll es) →
    everywhereAll Expr.namedHere es
  | [], _ => rfl
  | e :: rest, h => by
    rw [marksAll, Named.append_iff, Named.append_iff] at h
    simpa [everywhereAll] using ⟨e.named_of_marks h.1.1, named_of_marksAll rest h.2⟩

theorem Branches.named_of_marks : (b : Branches) → Named b.marks → b.everywhere Expr.namedHere
  | .elif condition body rest, h => by
    rw [Branches.marks, Named.cons_iff, Named.append_iff, Named.append_iff] at h
    obtain ⟨-, ⟨h₁, h₂⟩, h₃⟩ := h
    simpa [Branches.everywhere] using
      ⟨condition.named_of_marks h₁.parens, body.named_of_marks h₂, rest.named_of_marks h₃⟩
  | .otherwise body, h => by
    rw [Branches.marks, Named.cons_iff] at h
    simpa [Branches.everywhere] using body.named_of_marks h.2

/-- The names that bindings bind are spelled, too. -/
theorem Bindings.named_of_marks : (b : Bindings) → Named b.marks →
    b.namedHere ∧ b.everywhere Expr.namedHere
  | .bind _ name value rest, h => by
    rw [Bindings.marks, Named.cons_iff, Named.cons_iff, Named.append_iff, Named.append_iff] at h
    obtain ⟨hname, -, ⟨hvalue, -⟩, hrest⟩ := h
    have hn : name ≠ "" := Token.named_identifier.mp hname
    obtain ⟨h₁, h₂⟩ := rest.named_of_marks hrest
    simpa [Bindings.everywhere, Bindings.namedHere, hn] using ⟨h₁, value.named_of_marks hvalue, h₂⟩
  | .body body, h => by
    rw [Bindings.marks, Named.cons_iff] at h
    simpa [Bindings.everywhere, Bindings.namedHere] using body.named_of_marks h.2

end

end ExprScript
