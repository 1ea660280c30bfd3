import ExprScript.Proofs.Program.Declare
import ExprScript.Proofs.Tree.Named
import ExprScript.Proofs.Ty.Usage

/-!
# What is kept of a text is whole

Where something is missing, the readers put an empty name or a missing expression in its place and go
on, with an error. A tree without errors has no such place, and only a declaration without errors
becomes a function.

* `FunctionDef.Whole`, `FunctionTable.Whole`: **functions with nothing missing**, each stored under its
  name;
* `Tree.Whole`: **trees with nothing missing**, or with diagnostics that say so;
* `FunctionTable.Whole.adds`: one more function;
* **`Program.whole_read`**, **`Program.whole_of_mem_read`**: what is kept of a text is whole.
-/

namespace ExprScript

/-- **A function with nothing missing**: it has a name, and so have its parameters, which are
different and of each of which something is asked that there is; its body can produce a value, and
nothing is missing in that. -/
structure FunctionDef.Whole (f : FunctionDef) : Prop where
  name : f.name ≠ ""
  params : "" ∉ f.params
  nodup : f.params.Nodup
  types : f.paramTypes.length = f.params.length
  askable : .never ∉ f.paramTypes
  returnType : f.returnType ≠ .never
  complete : f.body.complete
  named : f.body.named

/-- **Nothing is missing in the functions of a table**, and each is stored under its name. -/
def FunctionTable.Whole (table : FunctionTable) : Prop :=
  ∀ f ∈ table.entries, f.Whole ∧ table.find? f.name = some f

/-- The report that an expression is missing where one is evaluated. -/
def Diagnostic.Missing (d : Diagnostic) : Prop := ∃ column, d = .runtime ⟨.invalidExpression, column⟩

/-- **A tree in which nothing is missing**, unless it has diagnostics that say so: otherwise it is
complete, and no name in it is empty. -/
structure Tree.Whole (t : Tree) : Prop where
  diagnostics : ∀ d ∈ t.diagnostics, ¬ d.Missing
  root : t.diagnostics = [] → ∀ root ∈ t.root, root.complete ∧ root.named

/-! ## Spellings -/

/-- What lexemes fit has the names that they have. -/
theorem Named.of_fits {ms : List Mark} {ls : List Lexeme} (h : List.Forall₂ Mark.Fits ms ls)
    (hl : ∀ l ∈ ls, l.token.named) : Named ms := by
  induction h with
  | nil => exact fun _ hm => nomatch hm
  | cons hm _ ih =>
    obtain ⟨hfirst, hrest⟩ := List.forall_mem_cons.mp hl
    exact Named.cons_iff.mpr ⟨hm.1 ▸ hfirst, ih hrest⟩

theorem named_of_parameterMarks : (params : List String) → Named (parameterMarks params) →
    "" ∉ params
  | [], _ => nofun
  | [p], h => by
    rw [parameterMarks, Named.cons_iff] at h
    exact fun hm => Token.named_identifier.mp h.1 (List.mem_singleton.mp hm).symm
  | p :: q :: rest, h => by
    have hmarks : Named (.bare (.identifier p) :: .symbol .comma :: parameterMarks (q :: rest)) := h
    rw [Named.cons_iff, Named.cons_iff] at hmarks
    obtain ⟨hp, -, hrest⟩ := hmarks
    rintro (_ | ⟨_, hm⟩)
    · exact Token.named_identifier.mp hp rfl
    · exact named_of_parameterMarks (q :: rest) hrest hm

/-! ## Functions -/

namespace FunctionTable

theorem Whole.askable {table : FunctionTable} (h : table.Whole) : table.Askable :=
  fun f hf => (h f hf).1.askable

theorem whole_empty : Whole .empty := fun _ hf => nomatch hf

/-- A function is whole that is added to a table of whole functions, and is spelled with names. -/
theorem Adds.whole {before after : FunctionTable} {f : FunctionDef} (h : before.Adds after f)
    (hb : before.Whole) (hm : Named f.marks) : f.Whole := by
  unfold FunctionDef.marks declarationMarks at hm
  rw [Named.cons_iff, Named.cons_iff, Named.append_iff, Named.cons_iff] at hm
  obtain ⟨-, hname, hparams, -, hbody⟩ := hm
  have hasked : ∀ p, Ty.usage before p f.body ≠ .never := fun p =>
    Ty.usage_ne_never hb.askable p f.body
  refine ⟨Token.named_identifier.mp hname, named_of_parameterMarks _ hparams.parens, h.nodup, ?_, ?_,
    h.inferable, h.complete, f.body.named_of_marks hbody⟩
  · rw [h.paramTypes, List.length_map]
  · rw [h.paramTypes, List.mem_map]
    rintro ⟨p, -, hp⟩
    exact hasked p hp

/-- **A table of whole functions stays one** when a function is added that is spelled with names. -/
theorem Whole.adds {before after : FunctionTable} {f : FunctionDef} (hb : before.Whole)
    (h : before.Adds after f) (hm : Named f.marks) : after.Whole := by
  have hwhole := h.whole hb hm
  intro g hg
  rw [h.entries, List.mem_append, List.mem_singleton] at hg
  rw [find?, h.entries, List.find?_append, Option.or_eq_some_iff]
  obtain hg | rfl := hg
  · exact ⟨(hb g hg).1, .inl (hb g hg).2⟩
  · have hfresh : before.find? g.name = none := by
      simpa [contains] using h.fresh
    exact ⟨hwhole, .inr ⟨hfresh, by simp⟩⟩

end FunctionTable

namespace Program

/-- The declaration of a function in a text is spelled with names. -/
theorem named_of_declaresAt {source : String} {i : Nat} {f : FunctionDef}
    (h : (tokenize source).DeclaresAt i f) : Named f.marks := by
  obtain ⟨before, own, column, after, hsplit, -, -, hfits, -⟩ := h
  have hmem : ∀ l ∈ own, l ∈ (tokenize source).lexemes := by
    intro l hl
    rw [hsplit]
    exact List.mem_append_left _ (List.mem_append_right _ hl)
  exact .of_fits hfits fun l hl => named_of_mem_tokenize (hmem l hl)

/-- **Reading keeps a table whole**, statement by statement. -/
theorem whole_read {table : FunctionTable} (h : table.Whole) (limit : Nat) (source : String) :
    (read limit table source).2.Whole :=
  read_induction h fun hb hf hat => hb.adds hf (named_of_declaresAt hat)

end Program

/-! ## Trees -/

namespace Statement

theorem not_runtime_failed {lexical : List LexicalError} {c : Cursor} {d : Diagnostic}
    (h : d ∈ (failed lexical c).diagnostics) (e : EvalError) : d ≠ .runtime e := by
  rintro rfl
  simp [failed] at h

theorem not_runtime_finish {lexical : List LexicalError} {root : Option Expr} {c : Cursor}
    {d : Diagnostic} (h : d ∈ (finish lexical root c).diagnostics) (e : EvalError) :
    d ≠ .runtime e := by
  unfold finish at h
  split at h
  · exact not_runtime_failed (c := c) h e
  · exact not_runtime_failed h e

/-- A statement is read with lexical and grammatical errors only. -/
theorem not_runtime_read {limit : Nat} {table : FunctionTable} {lexical : List LexicalError}
    {s : Statement} {d : Diagnostic} (h : d ∈ (s.read limit table lexical).1.diagnostics)
    (e : EvalError) : d ≠ .runtime e := by
  unfold read at h
  split at h
  · unfold readDeclaration at h
    split at h
    · split at h
      · split at h
        · cases h
        · exact not_runtime_failed h e
      · exact not_runtime_finish h e
    · exact not_runtime_failed h e
  · unfold readExpression at h
    split at h
    · exact not_runtime_finish h e
    · exact not_runtime_failed h e

end Statement

namespace Program

/-- **The trees of a text have lexical and grammatical errors only.** -/
theorem not_runtime_of_mem_readAll {limit : Nat} {table : FunctionTable} {errors : List LexicalError}
    {ss : List Statement} {tree : Tree} (h : tree ∈ (readAll limit table errors ss).1) :
    ∀ d ∈ tree.diagnostics, ∀ e, d ≠ .runtime e := by
  induction ss generalizing table errors with
  | nil =>
    cases errors with
    | nil => cases h
    | cons e errors =>
      obtain rfl := List.mem_singleton.mp h
      rintro d hd e rfl
      simp at hd
  | cons s rest ih =>
    rw [readAll_cons] at h
    obtain rfl | h := List.mem_cons.mp h
    · exact fun d hd => Statement.not_runtime_read hd
    · exact ih h

/-- **The trees of a text are whole.** -/
theorem whole_of_mem_read {limit : Nat} {table : FunctionTable} {source : String} {tree : Tree}
    (h : tree ∈ (read limit table source).1) : tree.Whole := by
  refine ⟨fun d hd ⟨column, he⟩ => not_runtime_of_mem_readAll h d hd _ he, fun hd root hr => ?_⟩
  obtain ⟨i, hi⟩ := List.mem_iff_getElem?.mp h
  obtain ⟨s, table', lexical, hs, rfl⟩ := read_of_readAll hi (by rw [hr]; rfl)
  obtain ⟨column, -, hread⟩ := Statement.readsFrom_of_read hr hd
  obtain ⟨taken, hrest, hfits, -, -⟩ := Cursor.reads_iff.mp hread.marks
  obtain rfl : s.lexemes = taken := by simpa [Statement.start] using hrest
  have hnamed : ∀ l ∈ s.lexemes, l.token.named := fun l hl =>
    named_of_mem_tokenize (mem_of_mem_statements (List.mem_of_getElem? hs) hl)
  exact ⟨hread.complete, root.named_of_marks (.of_fits hfits hnamed)⟩

end Program

end ExprScript
