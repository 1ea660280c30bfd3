import ExprScript.Proofs.Eval.Calls
import ExprScript.Proofs.Eval.Follow
import ExprScript.Proofs.Eval.Variables
import ExprScript.Proofs.Tree.Join

/-!
# Evaluation of joined chains

The bindings of a `let` stand in one frame, those of a `let` in its body in another one on top of it.
Both frames are closed together, and until then every name means the same in both as in a single
frame. So evaluation cannot tell whether chains are joined.

The two runs are compared with a third one, over frames in which the variables of one scope may stand
in several frames.

* `Memory.clustered`, `Scopes.Clustered`: these frames, and the frames that hold the same;
* `Bindings.close_inFrame`: bindings in the frame that is open, and in a frame of their own;
* `Expr.evalWith_join`: an expression with its chain joined;
* **`Expr.chains_join`**: trees with the same joined chains.
-/

namespace ExprScript

/-! ## Scopes of several frames -/

namespace Scopes

theorem find?_singleton (f : Frame) (name : String) : Scopes.find? [f] name = f.lookup name := by
  rw [find?_cons]
  exact Option.or_none

theorem find?_append (u s : Scopes) (name : String) :
    Scopes.find? (u ++ s) name = (Scopes.find? u name).or (Scopes.find? s name) := by
  induction u with
  | nil => rfl
  | cons f u ih => rw [List.cons_append, find?_cons, find?_cons, ih, Option.or_assoc]

/-- **The cursor of a name is moved in the inner frames, if the name is bound there,** and in the outer
ones otherwise. -/
theorem setCursor_append (u s : Scopes) (name : String) (position : Nat) :
    Scopes.setCursor name position (u ++ s) =
      if Scopes.find? u name = none then u ++ Scopes.setCursor name position s
      else Scopes.setCursor name position u ++ s := by
  induction u with
  | nil => rfl
  | cons f u ih =>
    rw [List.cons_append, setCursor, setCursor, find?_cons, ih]
    cases f.lookup name with
    | some b => simp
    | none =>
      by_cases hu : Scopes.find? u name = none <;> simp [hu]

theorem define_append {u : Scopes} (hu : u ≠ []) (s : Scopes) (name : String) (v : Value) :
    Scopes.define (u ++ s) name v = u.define name v ++ s := by
  cases u with
  | nil => exact absurd rfl hu
  | cons f u => rfl

end Scopes

/-- The frames as a memory in which the end of a scope closes all frames that have been opened since
its start. -/
def Memory.clustered : Memory Scopes :=
  { Memory.frames with closed := fun before after => after.drop (after.length - before.length) }

/-- **The invariant.** Each scope that has been opened has one frame on one side, and at least one on
the other; names mean the same in them. -/
def Scopes.Clustered : List Scopes → Scopes → Scopes → Prop
  | [], s, t => s = t
  | t₀ :: before, s, t => ∃ frame s' u t', s = frame :: s' ∧ t = u ++ t' ∧ u ≠ [] ∧
      t'.length = t₀.length ∧ (∀ name, Scopes.find? u name = frame.lookup name) ∧
      Clustered before s' t'

namespace Scopes.Clustered

variable {before : List Scopes} {s t : Scopes}

theorem find? (h : Clustered before s t) (name : String) : t.find? name = s.find? name := by
  induction before generalizing s t with
  | nil => rw [h]
  | cons t₀ before ih =>
    obtain ⟨frame, s', u, t', rfl, rfl, -, -, hu, h⟩ := h
    rw [find?_append, find?_cons, hu, ih h]

theorem setCursor (h : Clustered before s t) (name : String) (position : Nat) :
    Clustered before (s.setCursor name position) (t.setCursor name position) := by
  induction before generalizing s t with
  | nil => rw [h]; rfl
  | cons t₀ before ih =>
    obtain ⟨frame, s', u, t', rfl, rfl, hne, hn, hu, h⟩ := h
    rw [setCursor_append, hu, Scopes.setCursor]
    cases hl : frame.lookup name with
    | some b =>
      refine ⟨_, s', _, t', rfl, rfl, ?_, hn, fun name' => ?_, h⟩
      · exact fun he => hne (List.length_eq_zero_iff.mp (by rw [← length_setCursor, he]; rfl))
      · rw [find?_setCursor, Frame.lookup_insert, hu, hu, hl]
        rfl
    | none =>
      exact ⟨frame, _, u, _, rfl, rfl, hne, (length_setCursor _ _ _).trans hn, hu, ih h⟩

/-- The end of a scope closes the same frames on both sides. -/
theorem tail_eq {t₀ : Scopes} (h : Clustered (t₀ :: before) s t) :
    Clustered before s.tail (t.drop (t.length - t₀.length)) := by
  obtain ⟨frame, s', u, t', rfl, rfl, -, hn, -, h⟩ := h
  have hlength : (u ++ t').length - t₀.length = u.length := by
    rw [List.length_append, hn, Nat.add_sub_cancel]
  rw [hlength, List.drop_left]
  exact h

theorem length_lt {t₀ : Scopes} (h : Clustered (t₀ :: before) s t) : t₀.length < t.length := by
  obtain ⟨-, -, u, t', -, rfl, hne, hn, -, -⟩ := h
  rw [List.length_append, hn]
  exact Nat.lt_add_of_pos_left (List.length_pos_of_ne_nil hne)

theorem keeps : Memory.clustered.Keeps Clustered where
  find? h := h.find?
  setCursor h := h.setCursor
  define h name v := by
    obtain ⟨frame, s', u, t', rfl, rfl, hne, hn, hu, h⟩ := h
    refine ⟨_, s', u.define name v, t', rfl, define_append hne t' name v, ?_, hn, fun name' => ?_, h⟩
    · cases u <;> simp [define]
    · rw [find?_define, Frame.lookup_insert, hu]
  opened {before s t} h bound :=
    ⟨_, s, [Frame.ofList bound], t, rfl, rfl, by simp, rfl,
      fun name => Scopes.find?_singleton _ name, h⟩
  closed h := h.tail_eq

end Scopes.Clustered

/-! ## Bindings -/

/-- The end of the innermost frame. -/
def Eval.close {α : Type} : EStateM.Result Halt Machine α → EStateM.Result Halt Machine α
  | .ok a m => .ok a { m with scopes := m.scopes.tail }
  | .error h m => .error h { m with scopes := m.scopes.tail }

theorem Eval.inFrame_apply {α : Type} (frame : Frame) (step : Eval α) (m : Machine) :
    Eval.inFrame frame step m = Eval.close (step { m with scopes := frame :: m.scopes }) := by
  unfold Eval.inFrame
  cases step { m with scopes := frame :: m.scopes } <;> rfl

section Bindings

variable (setting : Setting) (calls : Nat)

/-- **Bindings in a frame of their own do what they do in the frame that is open**, as soon as the
latter is closed. -/
theorem Bindings.close_inFrame (bindings : Bindings) {m : Machine} (hm : m.scopes ≠ []) :
    Eval.close (Eval.inFrame [] (bindings.evalWith setting (enterCall setting calls)) m) =
      Eval.close (bindings.evalWith setting (enterCall setting calls) m) := by
  obtain ⟨scopes, callDepth, printRequested, generator⟩ := m
  obtain ⟨frame, s, rfl⟩ := List.exists_cons_of_ne_nil hm
  have hkeeps := Scopes.Clustered.keeps.among fun _ => true
  have hbelow : Setting.Below (fun _ => False) setting setting := .refl _ setting
  have hfollows (t₀ : Scopes) := bindings.follows_evalWith hkeeps hbelow
    (fun before column bound _ f _ => follows_enterCall hkeeps hbelow setting.functions.readsOnly_all
      (.refl _ calls) before column bound f.body f.body.readsOnly_all)
    t₀ [] (bindings.everywhere_of_forall fun e => by cases e <;> rfl)
  -- the third run starts from both frames; they are one scope of the run on the open frame, while the
  -- run in a frame of its own has only put an empty one on top of the others
  let start : Store Scopes := ⟨[] :: frame :: s, callDepth, printRequested, generator⟩
  have hopen : Scopes.Clustered [s] (frame :: s) ([] :: frame :: s) :=
    ⟨frame, s, [[], frame], s, rfl, rfl, by simp, rfl,
      fun name => by rw [Scopes.find?_cons, Scopes.find?_singleton]; rfl, rfl⟩
  have hown : Scopes.Clustered [frame :: s] ([] :: frame :: s) ([] :: frame :: s) :=
    ⟨[], frame :: s, [[]], frame :: s, rfl, rfl, by simp, rfl,
      fun name => Scopes.find?_singleton [] name, rfl⟩
  have hflat := EndAlike.of_ends (hfollows s ⟨frame :: s, callDepth, printRequested, generator⟩ start
    ⟨hopen, rfl, rfl, rfl⟩) fun _ _ _ => id
  have hnested := EndAlike.of_ends (hfollows (frame :: s)
    ⟨[] :: frame :: s, callDepth, printRequested, generator⟩ start ⟨hown, rfl, rfl, rfl⟩)
    fun _ _ _ => id
  obtain ⟨m₁, m₂, t, h₁, h₂, hend⟩ := hflat.both hnested
  have hscopes : m₂.scopes.tail.tail = m₁.scopes.tail := by
    have hlt : (frame :: s).length < t.memory.length := h₂.memory.length_lt
    have htail₁ : m₁.scopes.tail = _ := h₁.memory.tail_eq
    have htail₂ : m₂.scopes.tail = _ := h₂.memory.tail_eq
    rw [htail₁, htail₂, List.tail_drop]
    congr 1
    rw [List.length_cons] at hlt ⊢
    omega
  have hmachine : { m₂ with scopes := m₂.scopes.tail.tail } =
      { m₁ with scopes := m₁.scopes.tail } := by
    rw [hscopes, ← h₁.callDepth, ← h₁.printRequested, ← h₁.generator, h₂.callDepth,
      h₂.printRequested, h₂.generator]
  rw [Eval.inFrame_apply]
  obtain ⟨a, hr₁, hr₂⟩ | ⟨halt, hr₁, hr₂⟩ := hend
  · rw [hr₁, hr₂]
    exact congrArg (EStateM.Result.ok a) hmachine
  · rw [hr₁, hr₂]
    exact congrArg (EStateM.Result.error halt) hmachine

/-- The same for bindings with those of their body behind them. -/
theorem Bindings.close_join (bindings : Bindings) {m : Machine} (hm : m.scopes ≠ []) :
    Eval.close (bindings.join.evalWith setting (enterCall setting calls) m) =
      Eval.close (bindings.evalWith setting (enterCall setting calls) m) := by
  induction bindings using Bindings.chain generalizing m with
  | bind column name value rest ih =>
    rw [Bindings.join, Bindings.evalWith, Bindings.evalWith, Eval.bind_apply, Eval.bind_apply]
    cases value.evalWith setting (enterCall setting calls) m with
    | error halt m₁ => rfl
    | ok v m₁ =>
      have hne : m₁.scopes.define name v ≠ [] := by cases m₁.scopes <;> simp [Scopes.define]
      exact ih (m := { m₁ with scopes := m₁.scopes.define name v }) hne
  | body e =>
    cases e with
    | letIn _ inner => exact (inner.close_inFrame setting calls hm).symm
    | _ => rfl

/-! ## Expressions -/

theorem Branches.evalWith_join (enter : Enter) (branches : Branches) :
    branches.join.evalWith setting enter = branches.evalWith setting enter := by
  induction branches using Branches.chain with
  | elif condition e rest ih => rw [Branches.join, Branches.evalWith, Branches.evalWith, ih]
  | otherwise e => cases e <;> rfl

/-- **Evaluation cannot tell whether the chain of an expression is joined.** -/
theorem Expr.evalWith_join (e : Expr) :
    e.join.evalWith setting (enterCall setting calls) =
      e.evalWith setting (enterCall setting calls) := by
  cases e with
  | letIn _ bindings =>
    funext m
    show Eval.inFrame [] _ m = Eval.inFrame [] _ m
    rw [Eval.inFrame_apply, Eval.inFrame_apply]
    exact bindings.close_join setting calls (List.cons_ne_nil [] m.scopes)
  | ifThen _ _ _ rest => rw [Expr.join, Expr.evalWith, Expr.evalWith, rest.evalWith_join setting]
  | _ => rfl

end Bindings

namespace StepRelation

/-- Steps that are the same. -/
def same : StepRelation where
  Rel p q := q = p
  pure _ := rfl
  fail _ _ := rfl
  get := rfl
  modify _ := rfl
  bind h hf := by
    rw [h, funext hf]
  inFrame _ h := by rw [h]

theorem same_admits (setting : Setting) : same.Admits (fun _ => true) setting setting where
  functions := same.alike_find? setting.functions
  limits := rfl
  missing _ _ := rfl
  loop _ := ⟨rfl, rfl⟩

end StepRelation

open StepRelation

/-- Evaluation is the same with all chains joined. -/
theorem Expr.eval_merged (functions : FunctionTable) (limits : Limits) (rounds : Nat) (e : Expr) :
    e.merged.eval ⟨functions.merged, limits, rounds⟩ = e.eval ⟨functions, limits, rounds⟩ :=
  e.related_reshape_evalAt same (same_admits ⟨functions, limits, rounds⟩)
    (fun _ _ _ h => congrArg _ h) (fun _ g _ => g.body.everywhere_of_forall fun _ => rfl)
    (fun calls e => e.evalWith_join _ calls)
    (fun e v => congrArg (Eval.condition · v) e.column_merged) limits.callDepth
    (e.everywhere_of_forall fun _ => rfl)

/-- **How chains are written makes no difference.** Of expressions with the same joined chains, and
under functions whose bodies have the same, the same is told, and evaluation is the same. What is told
of a choice is found from the left, branch by branch. -/
theorem Expr.chains_join {functions functions' : FunctionTable} {e e' : Expr}
    (hf : functions'.merged = functions.merged) (he : e'.merged = e.merged) :
    (∀ scope, Ty.infer functions' scope e' = Ty.infer functions scope e) ∧
      (∀ scope column test body rest, Ty.infer functions scope (.ifThen column test body rest) =
        Ty.ifBool (Ty.infer functions scope test)
          (Ty.inferAfter functions scope (Ty.infer functions scope body) rest)) ∧
      (∀ param, Ty.usage functions' param e' = Ty.usage functions param e) ∧
      ∀ limits rounds m,
        e'.eval ⟨functions', limits, rounds⟩ m = e.eval ⟨functions, limits, rounds⟩ m := by
  refine ⟨Ty.infer_eq_of_reshape_eq Ty.unchanged_join hf he, Ty.infer_ifThen functions,
    Ty.usage_eq_of_reshape_eq Ty.unchanged_join hf he, fun limits rounds m => ?_⟩
  rw [← e'.eval_merged, hf, he, e.eval_merged]

/-- A vector that is bound again while its cursor is moved, under a condition with three branches, in
an expression and in the body of the function that it calls. -/
theorem Expr.chains_join_rebound :
    let bound : Bindings := .bind 20 "v" (.method 24 "v" .next) (.body (.variable 40 "v"))
    let chained (rest : Bindings) : Expr :=
      .letIn 1 (.bind 5 "v" (.vector 9 [.vector 10 [.number 11 1]]) rest)
    let branches : Branches := .elif (.bool 22 true) (.call 28 "f" []) (.otherwise (.number 40 3))
    let chosen (rest : Branches) : Expr := .ifThen 1 (.bool 5 false) (.number 12 1) rest
    let f (body : Expr) : FunctionTable := ⟨[⟨"f", [], [], .any, body, 1⟩]⟩
    let split : Expr := chosen (.otherwise (.ifThen 20 (.bool 22 true) (.call 28 "f" [])
      (.otherwise (.number 40 3))))
    ((f (chained (.body (.letIn 18 bound)))).merged = (f (chained bound)).merged ∧
        split.merged = (chosen branches).merged) ∧
      ∀ limits rounds m,
        split.eval ⟨f (chained (.body (.letIn 18 bound))), limits, rounds⟩ m =
          (chosen branches).eval ⟨f (chained bound), limits, rounds⟩ m := by
  intro bound chained branches chosen f split
  have hf : (f (chained (.body (.letIn 18 bound)))).merged = (f (chained bound)).merged := rfl
  have he : split.merged = (chosen branches).merged := rfl
  exact ⟨⟨hf, he⟩, (chains_join hf he).2.2.2⟩

end ExprScript
