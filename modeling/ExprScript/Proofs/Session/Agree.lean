import ExprScript.Proofs.Program.Whole
import ExprScript.Session

/-!
# The runners agree

Both runners evaluate the same expressions one after the other and give up at the same statement.

* `Agree`: what the two runners make of the same trees, behind a value that only one of them knows;
* `Session.diagnostics_evaluate`: an expression that fails has one error;
* `Session.agree_trees`: **one tree after the other**, the runners agree and stay in one session;
* **`Session.runners_agree`**: the same for source texts.
-/

namespace ExprScript

/-- **Results that belong together**: the last value, or the one before all of them, and the values;
the errors of a statement and the first of them; or a loop that was given up. An error of evaluation
is the only one of its statement. -/
inductive Agree (last : Option Value) : Except Failure (Option Value) → LineOutput → Prop
  | done (values : List Value) : Agree last (.ok (values.getLast?.or last)) ⟨values, none⟩
  | failed (values : List Value) {d : Diagnostic} {ds : Diagnostics} :
    (∀ e, .runtime e ∈ d :: ds → d :: ds = [.runtime e]) →
    Agree last (.error (.diagnosed (d :: ds))) ⟨values, some (.diagnosed d)⟩
  | outOfRounds (values : List Value) :
    Agree last (.error .outOfRounds) ⟨values, some .outOfRounds⟩

/-- One more value in front is the last one only if no other follows. -/
theorem Agree.cons {last : Option Value} {v : Value} {result : Except Failure (Option Value)}
    {output : LineOutput} (h : Agree (some v) result output) :
    Agree last result ⟨v :: output.values, output.error⟩ := by
  cases h with
  | done values =>
    have hlast : values.getLast?.or (some v) = (v :: values).getLast?.or last := by
      rw [List.getLast?_cons, Option.some_or]
      cases values.getLast? <;> rfl
    exact hlast ▸ .done (v :: values)
  | failed values hone => exact .failed (v :: values) hone
  | outOfRounds values => exact .outOfRounds (v :: values)

namespace Session

/-- An expression that fails has one error. -/
theorem diagnostics_evaluate {s : Session} {rounds : Nat} {e : Expr} {err : EvalError}
    (h : (s.evaluate rounds e).1.outcome = .error (.error err)) :
    (s.evaluate rounds e).1.diagnostics = [.runtime err] := by
  rw [Evaluation.diagnostics, h]

/-- **The runners agree on trees**, and leave the same session behind. -/
theorem agree_trees (rounds : Nat) (last : Option Value) (s : Session) (trees : List Tree)
    (hread : ∀ tree ∈ trees, ∀ d ∈ tree.diagnostics, ∀ e, d ≠ .runtime e) :
    (lastValue rounds last s trees).2 = (allValues rounds s trees).2 ∧
      Agree last (lastValue rounds last s trees).1 (allValues rounds s trees).1 := by
  induction trees generalizing last s with
  | nil => exact ⟨rfl, .done []⟩
  | cons tree rest ih =>
    obtain ⟨htree, hrest⟩ := List.forall_mem_cons.mp hread
    obtain ⟨root, diagnostics⟩ := tree
    cases diagnostics with
    | cons d ds => exact ⟨rfl, .failed [] fun e he => absurd rfl (htree _ he e)⟩
    | nil =>
      cases root with
      | none => exact ih last s hrest
      | some root =>
        have hvalid : Tree.valid ⟨some root, []⟩ := rfl
        rw [lastValue, if_pos hvalid, allValues]
        dsimp only [Diagnostics.takeFirst, List.head?_nil]
        cases ho : (s.evaluate rounds root).1.outcome with
        | ok v =>
          obtain ⟨hs, hagree⟩ := ih (some v) (s.evaluate rounds root).2 hrest
          exact ⟨hs, hagree.cons⟩
        | error halt =>
          cases halt with
          | error err =>
            dsimp only
            rw [diagnostics_evaluate ho]
            refine ⟨rfl, .failed [] fun e he => ?_⟩
            rw [List.mem_singleton.mp he]
          | outOfRounds => exact ⟨rfl, .outOfRounds []⟩

/-- **The runners agree.** From equal sessions, they leave equal sessions behind. A line has no error
exactly if there is a result, which is the last of its values then, if there are any. Otherwise the
errors of the result are not empty, and the first of them is that of the line; one of evaluation is
the only one. A loop is given up by both or by none. -/
theorem runners_agree (s : Session) (rounds : Nat) (source : String) :
    let run := s.getResult rounds source
    let line := s.runLine rounds source
    run.2 = line.2 ∧
      (line.1.error = none ↔ ∃ last, run.1 = .ok last) ∧
      (∀ last, run.1 = .ok last → last = line.1.values.getLast?) ∧
      (∀ ds, run.1 = .error (.diagnosed ds) →
        ds ≠ [] ∧ line.1.error = ds.head?.map .diagnosed ∧
          ∀ e, .runtime e ∈ ds → ds = [.runtime e]) ∧
      (run.1 = .error .outOfRounds ↔ line.1.error = some .outOfRounds) := by
  intro run line
  obtain ⟨hafter, hagree⟩ : run.2 = line.2 ∧ Agree none run.1 line.1 :=
    agree_trees rounds none (s.parse source).2 (s.parse source).1
      fun tree ht => Program.not_runtime_of_mem_readAll ht
  refine ⟨hafter, ?_⟩
  generalize run.1 = result at hagree
  generalize line.1 = output at hagree
  cases hagree with
  | done values => simp
  | failed values hone => simpa using hone
  | outOfRounds values => simp

/-- A value, then a statement that fails with one error, then one that is not read. -/
theorem runners_agree_undefined :
    let s := Session.new {} 0
    let source := "true; x; $"
    let ds : Diagnostics := [.runtime ⟨.undefinedVariable "x", 7⟩]
    (s.getResult 0 source).1 = .error (.diagnosed ds) ∧
      (s.runLine 0 source).1.error = ds.head?.map .diagnosed := by
  intro s source ds
  have hrun : (s.getResult 0 source).1 = .error (.diagnosed ds) := by
    dsimp only [s, source, ds]
    cbv
  exact ⟨hrun, ((runners_agree s 0 source).2.2.2.1 ds hrun).2.1⟩

end Session

end ExprScript
