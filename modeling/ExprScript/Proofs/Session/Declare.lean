import ExprScript.Proofs.Program.Declare
import ExprScript.Proofs.Session.Restore

/-!
# Declarations are permanent

Only reading a text changes the functions of a session, and it adds to them at most.

* `Session.functions_allValues`, `Session.functions_lastValue`: the runners keep the functions;
* `Session.exists_added`: reading adds one function for each declaration that takes effect;
* `Session.Call`, `Session.after`: a session behind some calls;
* **`Session.declarations_permanent`**: what happens to the functions of a session.
-/

namespace ExprScript

namespace Session

/-! ## Runners keep the functions -/

theorem functions_evaluate (s : Session) (rounds : Nat) (e : Expr) :
    (s.evaluate rounds e).2.functions = s.functions := (s.reset.restored_eval rounds e).1

theorem functions_allValues (s : Session) (rounds : Nat) (trees : List Tree) :
    (allValues rounds s trees).2.functions = s.functions := by
  induction trees generalizing s with
  | nil => rfl
  | cons tree rest ih =>
    unfold allValues
    split
    · rfl
    · exact ih s
    · next root _ _ =>
      have he := s.functions_evaluate rounds root
      dsimp only
      split
      · exact (ih _).trans he
      · exact he
      · exact he

theorem functions_lastValue (s : Session) (rounds : Nat) (last : Option Value) (trees : List Tree) :
    (lastValue rounds last s trees).2.functions = s.functions := by
  induction trees generalizing s last with
  | nil => rfl
  | cons tree rest ih =>
    unfold lastValue
    split
    · split
      · exact ih s last
      · next root _ =>
        have he := s.functions_evaluate rounds root
        dsimp only
        split
        · exact (ih _ _).trans he
        · exact he
        · exact he
    · rfl

/-! ## Reading adds functions -/

/-- Each declaration that takes effect adds one function. -/
theorem exists_added (s : Session) (source : String) :
    ∃ added, (s.parse source).2.functions.entries = s.functions.entries ++ added ∧
      added.length = (s.parse source).1.countP Tree.declares := by
  obtain ⟨tables, h₀, hn, htables⟩ :=
    Program.exists_tables s.limits.parseDepth s.functions source
  have hall : ∀ n ≤ (s.parse source).1.length, ∃ added,
      (tables n).entries = s.functions.entries ++ added ∧
        added.length = ((s.parse source).1.take n).countP Tree.declares := by
    intro n hle
    induction n with
    | zero => exact ⟨[], by rw [h₀, List.append_nil], rfl⟩
    | succ n ih =>
      obtain ⟨added, hentries, hlength⟩ := ih (Nat.le_of_succ_le hle)
      have htree := List.getElem?_eq_getElem (Nat.lt_of_succ_le hle)
      obtain ⟨hadds, hkeeps⟩ := htables n _ htree
      rw [List.take_add_one, htree, List.countP_append, Option.toList_some]
      by_cases hd : (s.parse source).1[n].declares
      · obtain ⟨f, hf, -⟩ := hadds hd
        refine ⟨added ++ [f], ?_, ?_⟩
        · rw [hf.entries, hentries, List.append_assoc]
        · rw [List.length_append, hlength, List.countP_singleton, if_pos hd]
          rfl
      · refine ⟨added, ?_, ?_⟩
        · rw [hkeeps hd, hentries]
        · rw [hlength, List.countP_singleton, if_neg hd]
          rfl
  obtain ⟨added, hentries, hlength⟩ := hall _ (Nat.le_refl _)
  rw [List.take_length] at hlength
  have hfinal : tables (s.parse source).1.length = (s.parse source).2.functions := hn
  exact ⟨added, by rw [← hfinal, hentries], hlength⟩

/-! ## Many calls -/

/-- What a session is asked for. -/
inductive Call where
  | parse (source : String)
  | runLine (rounds : Nat) (source : String)
  | getResult (rounds : Nat) (source : String)

/-- A session behind a call. -/
def call (s : Session) : Call → Session
  | .parse source => (s.parse source).2
  | .runLine rounds source => (s.runLine rounds source).2
  | .getResult rounds source => (s.getResult rounds source).2

/-- A session behind some calls. -/
def after (s : Session) (calls : List Call) : Session := calls.foldl call s

theorem exists_added_of_call (s : Session) (c : Call) :
    ∃ added, (s.call c).functions.entries = s.functions.entries ++ added := by
  cases c with
  | parse source =>
    obtain ⟨added, h, -⟩ := s.exists_added source
    exact ⟨added, h⟩
  | runLine rounds source =>
    obtain ⟨added, h, -⟩ := s.exists_added source
    exact ⟨added, by rw [← h]; exact congrArg _ (functions_allValues _ _ _)⟩
  | getResult rounds source =>
    obtain ⟨added, h, -⟩ := s.exists_added source
    exact ⟨added, by rw [← h]; exact congrArg _ (functions_lastValue _ _ _ _)⟩

/-- **Functions stay**, behind whatever calls. -/
theorem exists_added_of_after (s : Session) (calls : List Call) :
    ∃ added, (s.after calls).functions.entries = s.functions.entries ++ added := by
  induction calls generalizing s with
  | nil => exact ⟨[], (List.append_nil _).symm⟩
  | cons c calls ih =>
    obtain ⟨first, hfirst⟩ := s.exists_added_of_call c
    obtain ⟨others, hothers⟩ := ih (s.call c)
    refine ⟨first ++ others, ?_⟩
    rw [← List.append_assoc, ← hfirst]
    exact hothers

/-- **Declarations take effect as a whole, and for good.** Reading a text takes the table from one
statement to the next; a tree without a root and without diagnostics is a declaration that adds its
function, one for each such tree, and no other statement changes the table. Evaluation never changes
it, and behind whatever calls the functions that were there are still there. -/
theorem declarations_permanent (s : Session) :
    (∀ source, ∃ tables : Nat → FunctionTable, tables 0 = s.functions ∧
      tables (s.parse source).1.length = (s.parse source).2.functions ∧
      ∀ i tree, (s.parse source).1[i]? = some tree →
        (tree.declares → ∃ f, (tables i).Adds (tables (i + 1)) f ∧ (tokenize source).DeclaresAt i f) ∧
        (¬ tree.declares → tables (i + 1) = tables i)) ∧
    (∀ source, ∃ added, (s.parse source).2.functions.entries = s.functions.entries ++ added ∧
      added.length = (s.parse source).1.countP Tree.declares) ∧
    (∀ rounds e, (s.eval rounds e).2.functions = s.functions) ∧
    (∀ rounds source, (s.runLine rounds source).2.functions = (s.parse source).2.functions ∧
      (s.getResult rounds source).2.functions = (s.parse source).2.functions) ∧
    ∀ calls, (∃ added, (s.after calls).functions.entries = s.functions.entries ++ added) ∧
      s.functions.Within (s.after calls).functions := by
  refine ⟨Program.exists_tables s.limits.parseDepth s.functions, s.exists_added,
    fun rounds e => (s.restored_eval rounds e).1, fun rounds source =>
      ⟨functions_allValues _ _ _, functions_lastValue _ _ _ _⟩, fun calls => ?_⟩
  obtain ⟨added, h⟩ := s.exists_added_of_after calls
  exact ⟨⟨added, h⟩, FunctionTable.within_of_append h⟩

/-- A function that is declared twice keeps its first declaration. -/
theorem declarations_permanent_twice :
    let s := Session.new {} 0
    let source := "function f(x) => x @ \"!\"; function f(y) => y;"
    (s.parse source).1.map Tree.declares = [true, false] ∧
      ∃ f, s.functions.Adds (s.parse source).2.functions f ∧ (tokenize source).DeclaresAt 0 f := by
  intro s source
  have hdeclares : (s.parse source).1.map Tree.declares = [true, false] := by
    dsimp only [s, source]
    cbv
  refine ⟨hdeclares, ?_⟩
  obtain ⟨tables, h₀, hn, htables⟩ := s.declarations_permanent.1 source
  generalize (s.parse source).1 = trees at hdeclares hn htables
  obtain ⟨first, rest, rfl, hfirst, hrest⟩ := List.map_eq_cons_iff.mp hdeclares
  obtain ⟨second, rest, rfl, hsecond, hrest⟩ := List.map_eq_cons_iff.mp hrest
  obtain rfl := List.map_eq_nil_iff.mp hrest
  obtain ⟨f, hadds, hat⟩ := (htables 0 first rfl).1 hfirst
  have hkeeps : tables 2 = tables 1 := (htables 1 second rfl).2 (by simp [hsecond])
  refine ⟨f, ?_, hat⟩
  rw [← h₀, ← hn]
  exact hkeeps ▸ hadds

end Session

end ExprScript
