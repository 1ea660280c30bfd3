import ExprScript.Proofs.Tree.Grouping
import ExprScript.Proofs.Tree.Spelling

/-!
# Chains of operators

Operands with operators between them can be grouped in many ways. The table of precedences chooses
one of them: a chain is split at its loosest operator, and so are both of its sides.

* `Atom`, `Chain`: operands without parts, and chains of them;
* `cut?`, `Cut.Loosest`: **where a chain is split**, and what is special about that place;
* `Chain.grouping`: **the grouping that the table dictates**;
* `Grouping.tree`, `Grouping.parenthesized`: the tree of a grouping, bare and fully parenthesized;
* `Chain.tokens_tree`, `Chain.grouped_tree`: the bare tree is spelled like the chain, and is grouped as
  the binding powers dictate.
-/

namespace ExprScript

/-! ## Chains -/

/-- An operand without parts. -/
inductive Atom where
  | number (value : Float)
  | string (value : String)
  | bool (value : Bool)
  | constant (value : Constant)
  | variable (name : String)

/-- The token of an operand. -/
def Atom.token : Atom → Token
  | .number x => .number x
  | .string s => .string s
  | .bool b => .bool b
  | .constant c => .constant c
  | .variable name => .identifier name

/-- The tree of an operand, at no column. -/
def Atom.tree : Atom → Expr
  | .number x => .number 0 x
  | .string s => .string 0 s
  | .bool b => .bool 0 b
  | .constant c => .constant 0 c
  | .variable name => .variable 0 name

/-- Operands with binary operators between them. -/
structure Chain where
  first : Atom
  rest : List (BinaryOp × Atom)

/-- The tokens of a chain, without any parentheses. -/
def Chain.tokens (c : Chain) : List Token :=
  c.first.token :: c.rest.flatMap fun p => [p.1.token, p.2.token]

/-- Two chains with an operator between them. -/
def Chain.join (left : Chain) (op : BinaryOp) (right : Chain) : Chain :=
  ⟨left.first, left.rest ++ (op, right.first) :: right.rest⟩

theorem Chain.tokens_join (left : Chain) (op : BinaryOp) (right : Chain) :
    (left.join op right).tokens = left.tokens ++ op.token :: right.tokens := by
  simp [tokens, join]

/-! ## The place where a chain is split -/

/-- Whether a chain is split at an operator rather than at another one behind it: the operator is
looser, or it is as loose and groups to the right. -/
def BinaryOp.splitsBefore (op later : BinaryOp) : Prop :=
  op.precedence < later.precedence ∨ (op.precedence = later.precedence ∧ op.rightAssociative)

instance (op later : BinaryOp) : Decidable (op.splitsBefore later) :=
  inferInstanceAs (Decidable (_ ∨ _))

/-- Operators of one precedence group to the same side. -/
theorem BinaryOp.rightAssociative_iff (op : BinaryOp) : op.rightAssociative ↔ op.precedence = 6 := by
  rcases op with op | op | op | op | _
  · cases op <;> decide
  all_goals simp [rightAssociative, precedence]

/-- A chain that is split at one of its operators. -/
structure Cut where
  left : Chain
  op : BinaryOp
  right : Chain

/-- **Where a chain is split**: at the loosest of its operators. Of several that are as loose it is the
first one if they group to the right, and the last one otherwise. -/
def cut? (first : Atom) : List (BinaryOp × Atom) → Option Cut
  | [] => none
  | (op, x) :: rest =>
    match cut? x rest with
    | none => some ⟨⟨first, []⟩, op, ⟨x, rest⟩⟩
    | some later =>
      if op.splitsBefore later.op then some ⟨⟨first, []⟩, op, ⟨x, rest⟩⟩
      else some { later with left := Chain.join ⟨first, []⟩ op later.left }

/-- **What is special about the place where a chain is split**: the operator there is the loosest, and
the first or the last one of those that are as loose. -/
structure Cut.Loosest (c : Cut) : Prop where
  left : ∀ p ∈ c.left.rest, c.op.precedence ≤ p.1.precedence
  right : ∀ p ∈ c.right.rest, c.op.precedence ≤ p.1.precedence
  first : c.op.rightAssociative = true → ∀ p ∈ c.left.rest, c.op.precedence < p.1.precedence
  last : c.op.rightAssociative = false → ∀ p ∈ c.right.rest, c.op.precedence < p.1.precedence

theorem eq_nil_of_cut? {first : Atom} {rest : List (BinaryOp × Atom)} (h : cut? first rest = none) :
    rest = [] := by
  cases rest with
  | nil => rfl
  | cons p rest =>
    rw [cut?] at h
    split at h
    · cases h
    · split at h <;> cases h

/-- A cut leaves the chain as it is. -/
theorem join_of_cut? {first : Atom} {rest : List (BinaryOp × Atom)} {c : Cut}
    (h : cut? first rest = some c) : c.left.join c.op c.right = ⟨first, rest⟩ := by
  induction rest generalizing first c with
  | nil => cases h
  | cons p rest ih =>
    rw [cut?] at h
    split at h
    · cases h
      rfl
    · next later hlater =>
      split at h
      · cases h
        rfl
      · cases h
        have hjoin := Chain.mk.inj (ih hlater)
        simp [Chain.join, hjoin.1, hjoin.2]

namespace Cut.Loosest

variable {c : Cut} {op : BinaryOp} {first : Atom}

/-- An operator in front of a chain that is split there is looser than all operators of the chain. -/
theorem before (h : c.Loosest) (hb : op.splitsBefore c.op) :
    Loosest ⟨⟨first, []⟩, op, c.left.join c.op c.right⟩ := by
  have hall : ∀ p ∈ (c.left.join c.op c.right).rest, c.op.precedence ≤ p.1.precedence := by
    intro p hp
    obtain hp | hp := List.mem_append.mp hp
    · exact h.left p hp
    · obtain rfl | hp := List.mem_cons.mp hp
      · exact Nat.le_refl _
      · exact h.right p hp
  refine ⟨nofun, fun p hp => ?_, fun _ => nofun, fun hr p hp => ?_⟩
  · obtain hlt | ⟨heq, -⟩ := hb
    · exact Nat.le_trans (Nat.le_of_lt hlt) (hall p hp)
    · exact heq ▸ hall p hp
  · obtain hlt | ⟨-, hr'⟩ := hb
    · exact Nat.lt_of_lt_of_le hlt (hall p hp)
    · exact Bool.noConfusion (hr.symm.trans hr')

/-- An operator in front of a chain that is split elsewhere is not looser than the one there. -/
theorem behind (h : c.Loosest) (hb : ¬ op.splitsBefore c.op) :
    Loosest { c with left := Chain.join ⟨first, []⟩ op c.left } := by
  have hle : c.op.precedence ≤ op.precedence := Nat.le_of_not_lt fun hlt => hb (.inl hlt)
  refine ⟨fun p hp => ?_, h.right, fun hr p hp => ?_, h.last⟩
  · obtain rfl | hp := List.mem_cons.mp hp
    · exact hle
    · exact h.left p hp
  · obtain rfl | hp := List.mem_cons.mp hp
    · refine Nat.lt_of_le_of_ne hle fun heq => hb (.inr ⟨heq.symm, ?_⟩)
      rw [op.rightAssociative_iff, ← heq]
      exact c.op.rightAssociative_iff.mp hr
    · exact h.first hr p hp

end Cut.Loosest

/-- **A chain is split at its loosest operator.** -/
theorem loosest_of_cut? {first : Atom} {rest : List (BinaryOp × Atom)} {c : Cut}
    (h : cut? first rest = some c) : c.Loosest := by
  induction rest generalizing first c with
  | nil => cases h
  | cons p rest ih =>
    rw [cut?] at h
    split at h
    · next hnone =>
      obtain rfl := eq_nil_of_cut? hnone
      cases h
      exact ⟨nofun, nofun, fun _ => nofun, fun _ => nofun⟩
    · next later hlater =>
      split at h
      · next hb =>
        cases h
        rw [← join_of_cut? hlater]
        exact (ih hlater).before hb
      · next hb =>
        cases h
        exact (ih hlater).behind hb

/-! ## Groupings -/

/-- A way of grouping operands. -/
inductive Grouping where
  | atom (x : Atom)
  | operation (left : Grouping) (op : BinaryOp) (right : Grouping)

namespace Grouping

/-- The chain that is grouped. -/
def chain : Grouping → Chain
  | .atom x => ⟨x, []⟩
  | .operation left op right => left.chain.join op right.chain

/-- The tree of a grouping, without any parentheses, at no columns. -/
def tree : Grouping → Expr
  | .atom x => x.tree
  | .operation left op right => .binary 0 left.tree op right.tree

/-- **The fully parenthesized tree of a grouping**, at no columns: every operation is in parentheses,
but for the outermost one, about which `outer` decides. -/
def parenthesized (outer : Bool) : Grouping → Expr
  | .atom x => x.tree
  | .operation left op right =>
    let e := .binary 0 (left.parenthesized true) op (right.parenthesized true)
    if outer then .paren 0 e else e

end Grouping

/-- Both sides of a cut are shorter than the chain. -/
theorem length_of_cut? {c : Chain} {s : Cut} (h : cut? c.first c.rest = some s) :
    s.left.rest.length < c.rest.length ∧ s.right.rest.length < c.rest.length := by
  have hjoin := congrArg (List.length ∘ Chain.rest) (join_of_cut? h)
  simp only [Function.comp_apply, Chain.join, List.length_append, List.length_cons] at hjoin
  omega

/-- **The grouping that the table of precedences dictates**: a chain is split at its loosest operator,
and so are both sides. -/
def Chain.grouping (c : Chain) : Grouping :=
  match _ : cut? c.first c.rest with
  | none => .atom c.first
  | some s => .operation s.left.grouping s.op s.right.grouping
termination_by c.rest.length
decreasing_by
  · exact (length_of_cut? ‹_›).1
  · exact (length_of_cut? ‹_›).2

/-- A chain is grouped, and nothing else. -/
theorem Chain.chain_grouping (c : Chain) : c.grouping.chain = c := by
  fun_induction Chain.grouping c with
  | case1 c h =>
    obtain ⟨first, rest⟩ := c
    obtain rfl : rest = [] := eq_nil_of_cut? h
    rfl
  | case2 c s h ihl ihr =>
    rw [Grouping.chain, ihl, ihr]
    exact join_of_cut? h

/-! ## Trees of groupings -/

theorem Atom.tokens_tree (x : Atom) : x.tree.tokens = [x.token] := by
  cases x <;> rfl

theorem Atom.complete_tree (x : Atom) : x.tree.complete := by
  cases x <;> rfl

theorem Atom.grouped_tree (x : Atom) : x.tree.grouped := by
  cases x <;> rfl

theorem Atom.plain_tree (x : Atom) : x.tree.plain = x.tree := by
  cases x <;> rfl

theorem Atom.absorbs_tree (x : Atom) (precedence : Nat) : x.tree.absorbs precedence = false := by
  cases x <;> rfl

theorem Atom.bindsFrom_tree (x : Atom) (level : Nat) : x.tree.bindsFrom level := by
  cases x <;> rfl

namespace Grouping

theorem tokens_tree (g : Grouping) : g.tree.tokens = g.chain.tokens := by
  induction g with
  | atom x => exact x.tokens_tree
  | operation left op right ihl ihr =>
    rw [chain, Chain.tokens_join, ← ihl, ← ihr]
    simp [tree, Expr.tokens, Expr.marks, Mark.placed]

theorem complete_tree (g : Grouping) : g.tree.complete := by
  induction g with
  | atom x => exact x.complete_tree
  | operation left op right ihl ihr =>
    simpa [tree, Expr.everywhere, Expr.completeHere] using ⟨ihl, ihr⟩

theorem plain_tree (g : Grouping) : g.tree.plain = g.tree := by
  induction g with
  | atom x => exact x.plain_tree
  | operation left op right ihl ihr => rw [tree, Expr.plain, ihl, ihr]

/-- Where all operators bind tightly enough on their right, none of them would go on. -/
theorem absorbs_tree {g : Grouping} {precedence : Nat}
    (h : ∀ p ∈ g.chain.rest, precedence < p.1.rightLevel) : g.tree.absorbs precedence = false := by
  induction g with
  | atom x => exact x.absorbs_tree precedence
  | operation left op right ihl ihr =>
    have hop := h (op, right.chain.first) (List.mem_append_right _ List.mem_cons_self)
    have hright := ihr fun p hp => h p (List.mem_append_right _ (List.mem_cons_of_mem _ hp))
    simpa [tree, Expr.absorbs, hright] using hop

theorem bindsFrom_tree {g : Grouping} {level : Nat}
    (h : ∀ p ∈ g.chain.rest, level ≤ p.1.precedence) : g.tree.bindsFrom level := by
  cases g with
  | atom x => exact x.bindsFrom_tree level
  | operation left op right =>
    have hop := h (op, right.chain.first) (List.mem_append_right _ List.mem_cons_self)
    exact decide_eq_true hop

/-- What is in parentheses, or has no parts, stands anywhere. -/
theorem closed_parenthesized (g : Grouping) (precedence level : Nat) :
    (g.parenthesized true).absorbs precedence = false ∧ (g.parenthesized true).bindsFrom level := by
  cases g with
  | atom x => exact ⟨x.absorbs_tree precedence, x.bindsFrom_tree level⟩
  | operation left op right => exact ⟨rfl, rfl⟩

theorem complete_parenthesized (g : Grouping) (outer : Bool) : (g.parenthesized outer).complete := by
  induction g generalizing outer with
  | atom x => exact x.complete_tree
  | operation left op right ihl ihr =>
    cases outer <;> simpa [parenthesized, Expr.everywhere, Expr.completeHere] using ⟨ihl true, ihr true⟩

theorem plain_parenthesized (g : Grouping) (outer : Bool) :
    (g.parenthesized outer).plain = g.parenthesized outer := by
  induction g generalizing outer with
  | atom x => exact x.plain_tree
  | operation left op right ihl ihr => cases outer <;> simp [parenthesized, ihl, ihr]

/-- **A fully parenthesized tree may be written as it is**, whatever its operators. -/
theorem grouped_parenthesized (g : Grouping) (outer : Bool) : (g.parenthesized outer).grouped := by
  induction g generalizing outer with
  | atom x => exact x.grouped_tree
  | operation left op right ihl ihr =>
    have hleft := (left.closed_parenthesized op.precedence 0).1
    have hright := (right.closed_parenthesized 0 op.rightLevel).2
    cases outer <;>
      simpa [parenthesized, Expr.everywhere, Expr.groupedHere, hleft, hright] using ⟨ihl true, ihr true⟩

end Grouping

namespace Chain

/-- The tree of a chain is spelled like the chain. -/
theorem tokens_tree (c : Chain) : c.grouping.tree.tokens = c.tokens := by
  rw [c.grouping.tokens_tree, c.chain_grouping]

/-- **The tree that a chain is split into is grouped as the binding powers dictate**: on the left of the
loosest operator nothing is left that would go on over it, and on its right everything binds tightly
enough. -/
theorem grouped_tree (c : Chain) : c.grouping.tree.grouped := by
  fun_induction Chain.grouping c with
  | case1 c h => exact c.first.grouped_tree
  | case2 c s h ihl ihr =>
    have hs := loosest_of_cut? h
    have habsorbs : s.left.grouping.tree.absorbs s.op.precedence = false := by
      refine Grouping.absorbs_tree fun p hp => ?_
      rw [s.left.chain_grouping] at hp
      have hle := hs.left p hp
      unfold BinaryOp.rightLevel
      split
      · next hr =>
        refine Nat.lt_of_le_of_ne hle fun heq => ?_
        have hsame : s.op.rightAssociative := by
          rw [s.op.rightAssociative_iff, heq]
          exact p.1.rightAssociative_iff.mp hr
        exact Nat.ne_of_lt (hs.first hsame p hp) heq
      · exact Nat.lt_succ_of_le hle
    have hbinds : s.right.grouping.tree.bindsFrom s.op.rightLevel := by
      refine Grouping.bindsFrom_tree fun p hp => ?_
      rw [s.right.chain_grouping] at hp
      unfold BinaryOp.rightLevel
      split
      · exact hs.right p hp
      · next hr => exact hs.last (Bool.eq_false_iff.mpr hr) p hp
    simpa [Grouping.tree, Expr.everywhere, Expr.groupedHere, habsorbs, hbinds] using ⟨ihl, ihr⟩

end Chain

end ExprScript
