import ExprScript.Proofs.Eval.Missing
import ExprScript.Proofs.Program.Whole
import ExprScript.Proofs.Session.Declare

/-!
# Nothing missing reaches a run

Whatever a session is asked for, its functions stay whole, and so are the trees that it evaluates. So
no evaluation ever finds an expression missing.

* `Session.whole_after`: the functions of a session stay whole;
* `Session.not_missing_allValues`, `Session.not_missing_lastValue`: the runners find nothing missing;
* **`Session.nothing_missing`**: all of this in one.
-/

namespace ExprScript.Session

variable {s : Session}

/-! ## Functions -/

theorem whole_call (h : s.functions.Whole) (c : Call) : (s.call c).functions.Whole := by
  have hread : ∀ source, (s.parse source).2.functions.Whole :=
    Program.whole_read h s.limits.parseDepth
  cases c with
  | parse source => exact hread source
  | runLine rounds source =>
    have hkeeps : (s.call (.runLine rounds source)).functions = (s.parse source).2.functions :=
      functions_allValues _ _ _
    exact hkeeps ▸ hread source
  | getResult rounds source =>
    have hkeeps : (s.call (.getResult rounds source)).functions = (s.parse source).2.functions :=
      functions_lastValue _ _ _ _
    exact hkeeps ▸ hread source

/-- **The functions of a session stay whole**, behind whatever calls. -/
theorem whole_after (h : s.functions.Whole) (calls : List Call) : (s.after calls).functions.Whole := by
  induction calls generalizing s with
  | nil => exact h
  | cons c calls ih => exact ih (whole_call h c)

/-! ## Runs -/

/-- Evaluation of a complete expression finds nothing missing. -/
theorem not_missing_evaluate (h : s.functions.Whole) {rounds : Nat} {e : Expr} (he : e.complete)
    {err : EvalError} (ho : (s.evaluate rounds e).1.outcome = .error (.error err)) :
    ¬ (Diagnostic.runtime err).Missing := by
  rintro ⟨column, hd⟩
  obtain rfl := Diagnostic.runtime.inj hd
  have hwhole : (e.eval ⟨s.functions, s.limits, rounds⟩).Whole :=
    e.whole_evalAt (fun f hf => (h f hf).1.complete) he s.limits.callDepth
  change (s.reset.eval rounds e).1 = _ at ho
  unfold eval at ho
  split at ho
  · cases ho
  · next hrun =>
    obtain rfl := Except.error.inj ho
    exact hwhole _ _ _ hrun

theorem not_missing_allValues (h : s.functions.Whole) {rounds : Nat} {trees : List Tree}
    (ht : ∀ tree ∈ trees, tree.Whole) {d : Diagnostic}
    (hd : (allValues rounds s trees).1.error = some (.diagnosed d)) : ¬ d.Missing := by
  induction trees generalizing s with
  | nil => cases hd
  | cons tree rest ih =>
    obtain ⟨htree, hrest⟩ := List.forall_mem_cons.mp ht
    obtain ⟨root, diagnostics⟩ := tree
    cases diagnostics with
    | cons first others =>
      obtain rfl := LineError.diagnosed.inj (Option.some.inj hd)
      exact htree.diagnostics _ List.mem_cons_self
    | nil =>
      cases root with
      | none => exact ih h hrest hd
      | some root =>
        have hkeeps := s.functions_evaluate rounds root
        rw [allValues] at hd
        dsimp only [Diagnostics.takeFirst, List.head?_nil] at hd
        split at hd
        · exact ih (hkeeps ▸ h) hrest hd
        · next ho =>
          obtain rfl := LineError.diagnosed.inj (Option.some.inj hd)
          exact not_missing_evaluate h (htree.root rfl root rfl).1 ho
        · cases hd

theorem not_missing_lastValue (h : s.functions.Whole) {rounds : Nat} {last : Option Value}
    {trees : List Tree} (ht : ∀ tree ∈ trees, tree.Whole) {ds : Diagnostics}
    (hd : (lastValue rounds last s trees).1 = .error (.diagnosed ds)) : ∀ d ∈ ds, ¬ d.Missing := by
  induction trees generalizing s last with
  | nil => cases hd
  | cons tree rest ih =>
    obtain ⟨htree, hrest⟩ := List.forall_mem_cons.mp ht
    obtain ⟨root, diagnostics⟩ := tree
    cases diagnostics with
    | cons first others =>
      obtain rfl := Failure.diagnosed.inj (Except.error.inj hd)
      exact htree.diagnostics
    | nil =>
      cases root with
      | none => exact ih h hrest hd
      | some root =>
        have hkeeps := s.functions_evaluate rounds root
        have hvalid : Tree.valid ⟨some root, []⟩ := rfl
        rw [lastValue, if_pos hvalid] at hd
        dsimp only at hd
        split at hd
        · exact ih (hkeeps ▸ h) hrest hd
        · cases hd
        · next err ho =>
          obtain rfl := Failure.diagnosed.inj (Except.error.inj hd)
          intro d hm
          rw [Evaluation.diagnostics, ho] at hm
          obtain rfl := List.mem_singleton.mp hm
          exact not_missing_evaluate h (htree.root rfl root rfl).1 ho

/-- **Nothing missing reaches a run.** Behind whatever calls, the trees of a text that have no
diagnostics are complete and have no empty name in them, the functions of the session are whole, and
no run reports that an expression is missing. -/
theorem nothing_missing (limits : Limits) (seed : UInt64) (calls : List Call) :
    let s := (Session.new limits seed).after calls
    (∀ source, ∀ tree ∈ (s.parse source).1, tree.Whole) ∧ s.functions.Whole ∧
      ∀ rounds source,
        (∀ d, (s.runLine rounds source).1.error = some (.diagnosed d) → ¬ d.Missing) ∧
        ∀ ds, (s.getResult rounds source).1 = .error (.diagnosed ds) → ∀ d ∈ ds, ¬ d.Missing := by
  intro s
  have hs : s.functions.Whole := whole_after FunctionTable.whole_empty calls
  have htrees : ∀ source, ∀ tree ∈ (s.parse source).1, tree.Whole :=
    fun source tree h => Program.whole_of_mem_read h
  have hread : ∀ source, (s.parse source).2.functions.Whole :=
    Program.whole_read hs s.limits.parseDepth
  refine ⟨htrees, hs, fun rounds source => ⟨fun d hd => ?_, fun ds hd => ?_⟩⟩
  · exact not_missing_allValues (hread source) (htrees source) hd
  · exact not_missing_lastValue (hread source) (htrees source) hd

/-- Behind lines in which names, parameters, bindings and operands are missing, there is the one
function that was declared without an error, and its calls can be read. -/
theorem nothing_missing_malformed :
    let s := (Session.new {} 0).after [.parse "function (x) => x; function g(y, ) => y;",
      .runLine 5 "let in x; for ( in v) x; f(", .getResult 5 "function f(x, y) => x ^ y; x +;"]
    s.functions.entries.map FunctionDef.name = ["f"] ∧ (∀ f ∈ s.functions.entries, f.Whole) ∧
      (s.parse "f(z, w);").1.map Tree.diagnostics = [[]] ∧
      ∀ tree ∈ (s.parse "f(z, w);").1, ∀ root ∈ tree.root, root.complete ∧ root.named := by
  intro s
  obtain ⟨htrees, hfunctions, -⟩ := nothing_missing {} 0
    [.parse "function (x) => x; function g(y, ) => y;",
      .runLine 5 "let in x; for ( in v) x; f(", .getResult 5 "function f(x, y) => x ^ y; x +;"]
  have hnames : s.functions.entries.map FunctionDef.name = ["f"] := by
    dsimp only [s]
    cbv
  have hclean : (s.parse "f(z, w);").1.map Tree.diagnostics = [[]] := by
    dsimp only [s]
    cbv
  refine ⟨hnames, fun f hf => (hfunctions f hf).1, hclean, fun tree ht root hr => ?_⟩
  have hd : tree.diagnostics ∈ (s.parse "f(z, w);").1.map Tree.diagnostics := List.mem_map_of_mem ht
  rw [hclean, List.mem_singleton] at hd
  exact (htrees "f(z, w);" tree ht).root hd root hr

end ExprScript.Session
