import ExprScript.Proofs.Eval.Limits
import ExprScript.Proofs.Program.Relocate
import ExprScript.Proofs.Session.Restore

/-!
# Limits are invisible until they are met

* `Program.read_of_le`: a text that nests no deeper than it may, under a greater limit;
* `Session.withLimits`, `LineError.AtLimit`: sessions with other limits, and lines that meet one;
* `Session.allValues_withLimits`: expressions that meet no limit, under greater ones;
* **`Session.limits_invisible`**: both in one, for a line.
-/

namespace ExprScript

/-! ## Reading -/

theorem FunctionTable.relocateFrom_id (k : Nat) (table : FunctionTable) :
    table.relocateFrom k id = table := by
  have hg : FunctionDef.relocate id = id := by
    funext g
    simp [FunctionDef.relocate]
  rw [relocateFrom, hg, List.map_id, List.take_append_drop]

theorem Lexing.relocate_id (l : Lexing) : l.relocate id = l := by
  have hl : Lexeme.relocate id = id := rfl
  have he : LexicalError.relocate id = id := rfl
  rw [relocate, hl, he, List.map_id, List.map_id]

theorem Tree.relocate_id (t : Tree) : t.relocate id = t := by
  have he : Expr.relocate id = id := funext Expr.relocate_id
  have hd : Diagnostic.relocate id = id := by
    funext d
    cases d <;> rfl
  rw [relocate, he, hd, Option.map_id, List.map_id]
  rfl

/-- **A text that nests no deeper than it may** is read the same under a greater limit. -/
theorem Program.read_of_le {limit limit' : Nat} (hle : limit ≤ limit') (table : FunctionTable)
    (source : String) (h : ∀ t ∈ (read limit table source).1, ¬ t.BrokenOff) :
    read limit' table source = read limit table source := by
  have hread := readLexing_relocate (f := id) (fun _ _ => Iff.rfl) (source.length + 1)
    (tokenize source) (Nat.zero_le table.entries.length) (.of_le hle h)
  rw [FunctionTable.relocateFrom_id, FunctionTable.relocateFrom_id, Lexing.relocate_id,
    funext Tree.relocate_id, List.map_id'] at hread
  exact hread

/-! ## Evaluating -/

/-- Whether a line ended at a limit, or was given up. -/
def LineError.AtLimit : LineError → Prop
  | .diagnosed (.runtime e) => e.cause.AtLimit
  | .diagnosed _ => False
  | .outOfRounds => True

namespace Session

/-- A session with other limits. -/
def withLimits (s : Session) (limits : Limits) : Session := { s with limits := limits }

variable {limits : Limits} {rounds rounds' : Nat}

theorem eval_withLimits {s : Session} (hl : s.limits ≤ limits) (hr : rounds ≤ rounds') {e : Expr}
    (h : ∀ halt, (s.eval rounds e).1 = .error halt → ¬ halt.AtLimit) :
    (s.withLimits limits).eval rounds' e =
      ((s.eval rounds e).1, (s.eval rounds e).2.withLimits limits) := by
  have hrun : (e.eval ⟨s.functions, limits, rounds'⟩).run s.machine =
      (e.eval ⟨s.functions, s.limits, rounds⟩).run s.machine := by
    have hlow : ∀ halt m', e.eval ⟨s.functions, s.limits, rounds⟩ s.machine = .error halt m' →
        ¬ halt.AtLimit := by
      intro halt m' hm
      refine h halt ?_
      rw [eval, EStateM.run, hm]
    refine Expr.eval_of_le ?_ hl hr e s.machine hlow
    rfl
  unfold eval
  dsimp only [withLimits]
  rw [hrun]
  split <;> rfl

theorem evaluate_withLimits {s : Session} (hl : s.limits ≤ limits) (hr : rounds ≤ rounds')
    {e : Expr} (h : ∀ halt, (s.evaluate rounds e).1.outcome = .error halt → ¬ halt.AtLimit) :
    (s.withLimits limits).evaluate rounds' e =
      ((s.evaluate rounds e).1, (s.evaluate rounds e).2.withLimits limits) := by
  have heval : (s.withLimits limits).reset.eval rounds' e =
      ((s.reset.eval rounds e).1, (s.reset.eval rounds e).2.withLimits limits) :=
    s.reset.eval_withLimits hl hr h
  unfold evaluate
  rw [heval]
  rfl

theorem limits_evaluate (s : Session) (rounds : Nat) (e : Expr) :
    (s.evaluate rounds e).2.limits = s.limits := (s.reset.restored_eval rounds e).2.1

/-- **Expressions that meet no limit** have the same values under greater ones. -/
theorem allValues_withLimits {s : Session} (hl : s.limits ≤ limits) (hr : rounds ≤ rounds')
    {trees : List Tree} (h : ∀ e, (allValues rounds s trees).1.error = some e → ¬ e.AtLimit) :
    allValues rounds' (s.withLimits limits) trees =
      ((allValues rounds s trees).1, (allValues rounds s trees).2.withLimits limits) := by
  induction trees generalizing s with
  | nil => rfl
  | cons tree rest ih =>
    obtain ⟨root, diagnostics⟩ := tree
    cases diagnostics with
    | cons d ds => rfl
    | nil =>
      cases root with
      | none => exact ih hl h
      | some root =>
        have hs := s.limits_evaluate rounds root
        have hevaluate := evaluate_withLimits (e := root) hl hr
        rw [allValues] at h ⊢
        rw [allValues]
        dsimp only [Diagnostics.takeFirst, List.head?_nil] at h ⊢
        cases hv : (s.evaluate rounds root).1.outcome with
        | ok v =>
          rw [hv] at h hevaluate
          rw [hevaluate fun _ hx => by cases hx]
          dsimp only at h ⊢
          rw [hv]
          dsimp only
          rw [ih (hs ▸ hl) h]
        | error halt =>
          rw [hv] at h hevaluate
          cases halt with
          | error e =>
            rw [hevaluate fun _ hx => by cases hx; exact h _ rfl]
            dsimp only
            rw [hv]
          | outOfRounds => exact absurd trivial (h _ rfl)

/-- **Limits are invisible until they are met.** Where no statement of a line nests too deeply, and
the line comes to an end and not at a limit, it is read, evaluated and leaves the session the same
under greater limits, and with more rounds for its loops. -/
theorem limits_invisible (s : Session) (limits : Limits) (rounds rounds' : Nat) (source : String)
    (hl : s.limits ≤ limits) (hr : rounds ≤ rounds')
    (hparse : ∀ t ∈ (s.parse source).1, ¬ t.BrokenOff)
    (hrun : ∀ e, (s.runLine rounds source).1.error = some e → ¬ e.AtLimit) :
    (s.withLimits limits).parse source =
        ((s.parse source).1, (s.parse source).2.withLimits limits) ∧
      (s.withLimits limits).runLine rounds' source =
        ((s.runLine rounds source).1, (s.runLine rounds source).2.withLimits limits) := by
  have hread : (s.withLimits limits).parse source =
      ((s.parse source).1, (s.parse source).2.withLimits limits) := by
    unfold parse
    dsimp only [withLimits]
    rw [Program.read_of_le hl.parseDepth s.functions source hparse]
  refine ⟨hread, ?_⟩
  have hvalues : allValues rounds' ((s.parse source).2.withLimits limits) (s.parse source).1 = _ :=
    allValues_withLimits (s := (s.parse source).2) hl hr hrun
  unfold runLine
  rw [hread]
  exact hvalues

/-- A line that declares a function and calls it, with no more levels and calls than it needs. -/
theorem limits_invisible_shout :
    let s := Session.new ⟨3, 1, 0⟩ 0
    let source := "function f(s) => s @ \"!\"; f(\"a\");"
    (∀ t ∈ (s.parse source).1, ¬ t.BrokenOff) ∧ (s.runLine 0 source).1.error = none ∧
      (s.withLimits {}).parse source = ((s.parse source).1, (s.parse source).2.withLimits {}) ∧
      (s.withLimits {}).runLine 10 source =
        ((s.runLine 0 source).1, (s.runLine 0 source).2.withLimits {}) := by
  intro s source
  have hdiagnostics : (s.parse source).1.map Tree.diagnostics = [[], []] := by
    dsimp only [s, source]
    cbv
  have hparse : ∀ t ∈ (s.parse source).1, ¬ t.BrokenOff := by
    rintro t ht ⟨limit, column, hd⟩
    have hm := List.mem_map_of_mem (f := Tree.diagnostics) ht
    rw [hdiagnostics] at hm
    simp_all
  have hrun : (s.runLine 0 source).1.error = none := by
    dsimp only [s, source]
    cbv
  have hl : s.limits ≤ {} := ⟨by decide, by decide, by decide⟩
  exact ⟨hparse, hrun, s.limits_invisible {} 0 10 source hl (Nat.zero_le 10) hparse
    fun e he => by rw [hrun] at he; cases he⟩

end Session

end ExprScript
