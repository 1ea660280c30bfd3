import ExprScript.Proofs.Eval.Follow
import ExprScript.Proofs.Eval.Variables

/-!
# Variables that are not mentioned

A variable that no expression looks up has no part in evaluation: two machines that differ only in
such variables lead to the same, and every one of them keeps its own. Other variables of the same
names may come and go in the frames that evaluation opens.

* `Frame.SameOn`, `Scopes.SameOn`: frames with the same bindings of some names;
* `Machine.SameBut`: machines that differ only in the bindings of hidden names;
* `Scopes.Separated`: the invariant, which holds the frames that were there to their hidden names;
* **`Expr.eval_hidden`**: evaluation does not depend on hidden variables, and leaves them alone.
-/

namespace ExprScript

/-! ## Frames with the same bindings of some names -/

/-- The names that a test admits have the same bindings in two frames, or none in either. -/
def Frame.SameOn (among : String → Bool) (f f' : Frame) : Prop :=
  ∀ name, among name → f'.lookup name = f.lookup name

/-- As many frames, with the same bindings of the names that a test admits. -/
def Scopes.SameOn (among : String → Bool) : Scopes → Scopes → Prop :=
  List.Forall₂ (Frame.SameOn among)

section SameOn

variable {among : String → Bool}

theorem Frame.SameOn.insert {f f' : Frame} (h : f.SameOn among f') (name : String) (b : Binding) :
    Frame.SameOn among (Frame.insert name b f) (Frame.insert name b f') := by
  intro name' hn
  rw [Frame.lookup_insert, Frame.lookup_insert, h name' hn]

/-- Names that are not admitted may be bound. -/
theorem Frame.sameOn_insert {name : String} (hn : ¬ among name) (b : Binding) (f : Frame) :
    f.SameOn among (Frame.insert name b f) := by
  intro name' hn'
  have hne : name' ≠ name := fun he => hn (he ▸ hn')
  rw [Frame.lookup_insert, if_neg hne]

namespace Scopes

theorem SameOn.refl (s : Scopes) : SameOn among s s := List.forall₂_same.mpr fun _ _ _ _ => rfl

theorem SameOn.trans {s₁ s₂ s₃ : Scopes} (h : SameOn among s₁ s₂) (h' : SameOn among s₂ s₃) :
    SameOn among s₁ s₃ :=
  forall₂_trans (fun hf hf' name hn => (hf' name hn).trans (hf name hn)) h h'

theorem SameOn.find? {s s' : Scopes} (h : SameOn among s s') {name : String} (hn : among name) :
    s'.find? name = s.find? name := by
  induction h with
  | nil => rfl
  | cons hf _ ih => rw [find?_cons, find?_cons, hf name hn, ih]

theorem SameOn.define {s s' : Scopes} (h : SameOn among s s') (name : String) (v : Value) :
    SameOn among (s.define name v) (s'.define name v) := by
  cases h with
  | nil => exact SameOn.refl _
  | cons hf h => exact .cons (hf.insert name _) h

theorem SameOn.setCursor {s s' : Scopes} (h : SameOn among s s') {name : String} (hn : among name)
    (position : Nat) : SameOn among (s.setCursor name position) (s'.setCursor name position) := by
  induction h with
  | nil => exact .nil
  | cons hf h ih =>
    rw [Scopes.setCursor, Scopes.setCursor, hf name hn]
    split
    · exact .cons (hf.insert name _) h
    · exact .cons hf ih

/-- A cursor is moved under its own name only. -/
theorem sameOn_setCursor {name : String} (hn : ¬ among name) (position : Nat) (s : Scopes) :
    SameOn among s (s.setCursor name position) := by
  induction s with
  | nil => exact .nil
  | cons f s ih =>
    rw [Scopes.setCursor]
    split
    · exact .cons (f.sameOn_insert hn _) (SameOn.refl s)
    · exact .cons (fun _ _ => rfl) ih

/-- A variable is bound in the innermost frame only. -/
theorem drop_define (s : Scopes) (name : String) (v : Value) (n : Nat) :
    (s.define name v).drop (n + 1) = s.drop (n + 1) := by
  cases s <;> simp [define]

end Scopes

end SameOn

/-! ## Machines that differ only in hidden names -/

/-- The names that are not hidden. -/
abbrev visible (hidden : String → Bool) (name : String) : Bool := !hidden name

/-- **Machines that differ only in the bindings of hidden names**: in whether there are any, in their
values and in their cursors. -/
structure Machine.SameBut (hidden : String → Bool) (m m' : Machine) : Prop where
  scopes : Scopes.SameOn (visible hidden) m.scopes m'.scopes
  callDepth : m'.callDepth = m.callDepth
  printRequested : m'.printRequested = m.printRequested
  generator : m'.generator = m.generator

/-- **The invariant.** Frames differ only in hidden names, and those of them that were there before the
ones that have been opened since have the hidden bindings that they had. -/
structure Scopes.Separated (hidden : String → Bool) (s₀ t₀ : Scopes) (before : List Scopes)
    (s t : Scopes) : Prop where
  visible : Scopes.SameOn (visible hidden) s t
  left : Scopes.SameOn hidden s₀ (s.drop before.length)
  right : Scopes.SameOn hidden t₀ (t.drop before.length)

theorem Memory.keepsAmong_separated (hidden : String → Bool) (s₀ t₀ : Scopes) :
    Memory.frames.KeepsAmong (visible hidden) (Scopes.Separated hidden s₀ t₀) where
  find? h _ hn := h.visible.find? hn
  setCursor h name hn _ _ _ _ := by
    have hidden_name : ¬ hidden name := by simpa using hn
    refine ⟨h.visible.setCursor hn _, h.left.trans ?_, h.right.trans ?_⟩
    · exact List.forall₂_drop _ (Scopes.sameOn_setCursor hidden_name _ _)
    · exact List.forall₂_drop _ (Scopes.sameOn_setCursor hidden_name _ _)
  define h name v := by
    refine ⟨h.visible.define name v, ?_, ?_⟩
    · rw [List.length_cons, Scopes.drop_define]
      exact h.left
    · show Scopes.SameOn hidden t₀ (List.drop _ (Scopes.define _ name v))
      rw [List.length_cons, Scopes.drop_define]
      exact h.right
  opened h bound := ⟨.cons (fun _ _ => rfl) h.visible, h.left, h.right⟩
  closed h := by
    refine ⟨?_, ?_, ?_⟩
    · show List.Forall₂ _ (List.tail _) (List.tail _)
      rw [← List.drop_one, ← List.drop_one]
      exact List.forall₂_drop 1 h.visible
    · rw [List.drop_tail]
      exact h.left
    · show Scopes.SameOn hidden t₀ (List.drop _ (List.tail _))
      rw [List.drop_tail]
      exact h.right

/-! ## Evaluation -/

/-- **Variables that are not mentioned do not interfere.** Where no hidden name is looked up, in an
expression or in the body of a function, two machines that differ only in hidden names lead to the
same value or error, and to machines that differ only there; each still has its own bindings of
hidden names. -/
theorem Expr.eval_hidden {hidden : String → Bool} {setting : Setting} {e : Expr}
    (he : e.readsOnly (visible hidden)) (hf : setting.functions.readsOnly (visible hidden))
    {m m' : Machine} (hm : m.SameBut hidden m') :
    ∃ m₁ m₁', m₁.SameBut hidden m₁' ∧ Scopes.SameOn hidden m.scopes m₁.scopes ∧
      Scopes.SameOn hidden m'.scopes m₁'.scopes ∧
      ((∃ v, e.eval setting m = .ok v m₁ ∧ e.eval setting m' = .ok v m₁') ∨
        ∃ halt, e.eval setting m = .error halt m₁ ∧ e.eval setting m' = .error halt m₁') := by
  have hstart : m.Alike (Scopes.Separated hidden m.scopes m'.scopes []) m'.store :=
    ⟨⟨hm.scopes, .refl _, .refl _⟩, hm.callDepth, hm.printRequested, hm.generator⟩
  -- the second run goes over the frames as a memory, where it is followed by the first
  have hrun := EndAlike.of_ends (e.follows_evalAt_among
    (Memory.keepsAmong_separated hidden m.scopes m'.scopes) (.refl (fun _ => False) setting) hf
    (.refl _ setting.limits.callDepth) [] he m m'.store hstart) fun _ _ _ => id
  obtain ⟨m₁, m₁', hrel, hend⟩ := hrun.frames (e.evalAt_frames setting setting.limits.callDepth m')
  obtain ⟨hscopes, hcalls, hprint, hgenerator⟩ := hrel
  exact ⟨m₁, m₁', ⟨hscopes.visible, hcalls, hprint, hgenerator⟩, hscopes.left, hscopes.right, hend⟩

/-- A `let` that binds a hidden name in front of a call that reads another variable of its caller. -/
theorem Expr.eval_hidden_let :
    let hidden (name : String) : Bool := name = "h"
    let v : String × Binding := ("v", ⟨.vector [.number 1, .number 2], none⟩)
    let h : String × Binding := ("h", ⟨.number 5, none⟩)
    let setting : Setting := ⟨⟨[⟨"last", [], [], .any, .method 3 "v" .current, 1⟩]⟩, {}, 0⟩
    let e : Expr := .letIn 1 (.bind 5 "h" (.method 9 "v" .next) (.body (.call 20 "last" [])))
    let m : Machine := ⟨[[h, v]], 0, false, .ofSeed 0⟩
    let m' : Machine := ⟨[[v]], 0, false, .ofSeed 0⟩
    (e.readsOnly (visible hidden) ∧ setting.functions.readsOnly (visible hidden) ∧
        m.SameBut hidden m') ∧
      ∃ m₁ m₁', m₁.SameBut hidden m₁' ∧ Scopes.SameOn hidden m.scopes m₁.scopes ∧
        Scopes.SameOn hidden m'.scopes m₁'.scopes ∧
        ((∃ v, e.eval setting m = .ok v m₁ ∧ e.eval setting m' = .ok v m₁') ∨
          ∃ halt, e.eval setting m = .error halt m₁ ∧ e.eval setting m' = .error halt m₁') := by
  intro hidden v h setting e m m'
  have he : e.readsOnly (visible hidden) := by decide
  have hf : setting.functions.readsOnly (visible hidden) := by decide
  have hframe : Frame.SameOn (visible hidden) [h, v] [v] := by
    intro name hn
    have hne : name ≠ "h" := by simpa [hidden] using hn
    rw [Frame.lookup_cons h, if_neg hne]
  have hm : m.SameBut hidden m' := ⟨.cons hframe .nil, rfl, rfl, rfl⟩
  exact ⟨⟨he, hf, hm⟩, eval_hidden he hf hm⟩

end ExprScript
