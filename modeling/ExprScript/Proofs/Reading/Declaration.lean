import ExprScript.Grammar.Statement
import ExprScript.Proofs.Reading.Sound

/-!
# Reading declarations is sound

A declaration that was read without a new error is spelled by the tokens it was read from, no
parameter stands in it twice, and its name is not taken, unless it is empty.

* `FunctionDef.marks`: **the spelling of a declaration**;
* `Cursor.ReadsDeclaration`: what a run without new errors has read;
* **`Reading.readsDeclaration_of_clean`**: the reader of declarations is sound.
-/

namespace ExprScript

/-! ## The spelling of a declaration -/

/-- The spelling of parameters with commas between them. -/
def parameterMarks : List String → List Mark
  | [] => []
  | [p] => [.bare (.identifier p)]
  | p :: rest => .bare (.identifier p) :: .symbol .comma :: parameterMarks rest

/-- The spelling of a declaration with a name at a column. -/
def declarationMarks (column : Nat) (name : String) (params : List String) (body : Expr) :
    List Mark :=
  .keyword .functionK :: .placed column (.identifier name) ::
    (parens (parameterMarks params) ++ .symbol .arrow :: body.marks)

/-- **The spelling of the declaration of a function.** -/
def FunctionDef.marks (f : FunctionDef) : List Mark :=
  declarationMarks f.column f.name f.params f.body

/-- A declaration stands between two cursors: its spelling does, nothing of its body is missing, its
parameters are different, and its name is not taken. -/
structure Cursor.ReadsDeclaration (table : FunctionTable) (c : Cursor) (d : Declaration)
    (c' : Cursor) : Prop where
  marks : c.Reads (declarationMarks d.column d.name d.params d.body) c'
  complete : d.body.complete
  grouped : d.body.grouped
  nodup : d.params.Nodup
  fresh : d.name ≠ "" → table.contains d.name = false

namespace Reading

/-! ## Declarations move forward -/

instance advances_parameterNames (seen : List String) (rounds : Nat) :
    Advances (parameterNames seen rounds) := by
  induction rounds generalizing seen with
  | zero => unfold parameterNames; infer_instance
  | succ rounds ih =>
    unfold parameterNames
    refine .bind fun found => ?_
    split <;> infer_instance

instance : Advances parameters := by unfold parameters; infer_instance

instance (table : FunctionTable) (deeper : Nat → Reading Expr) [∀ level, Advances (deeper level)] :
    Advances (declaration table deeper) := by
  unfold declaration; infer_instance

/-! ## Declarations without new errors -/

variable {c c' : Cursor}

@[simp] theorem not_clean_report {cause : SyntaxCause} {column : Nat} {u : Unit} :
    ¬ Clean (report cause column) c u c' := by
  rintro ⟨h, he⟩
  cases h
  exact List.cons_ne_self _ _ he

/-- Where something may be reported, a run without new errors reports nothing. -/
theorem clean_reportIf {α : Type} {p : Prop} [Decidable p] {cause : SyntaxCause} {column : Nat}
    {k : Unit → Reading α} [∀ u, Advances (k u)] {a : α} :
    Clean (if p then report cause column >>= k else k ()) c a c' ↔ ¬ p ∧ Clean (k ()) c a c' := by
  by_cases hp : p
  · simp [hp]
  · simp [hp]

/-- Each name takes a token, so the rounds do not run out before the names do. -/
theorem reads_of_clean_parameterNames {seen : List String} {rounds : Nat} {names : List String}
    (hr : c.rest.length < rounds) (h : Clean (parameterNames seen rounds) c names c') :
    c.Reads (parameterMarks names) c' ∧ names ≠ [] ∧ names.Nodup ∧ ∀ n ∈ names, n ∉ seen := by
  induction rounds generalizing c seen names with
  | zero => exact absurd hr (Nat.not_lt_zero _)
  | succ rounds ih =>
    unfold parameterNames at h
    rw [clean_bind_of fun found => by split <;> infer_instance] at h
    obtain ⟨found, c₁, hi, h⟩ := h
    obtain ⟨name, ht, rfl, rfl⟩ := clean_identifier.mp hi
    dsimp only at h
    obtain ⟨hn, h⟩ := (clean_reportIf (k := fun _ => _)).mp h
    have hlength := Cursor.length_next_lt ht
    simp only [clean_bind, clean_eat] at h
    obtain ⟨b, c₂, ⟨rfl, hcomma, rfl⟩ | ⟨rfl, -, rfl⟩, h⟩ := h
    · have hlength' := Cursor.length_next_lt hcomma
      simp only [if_true, clean_bind, clean_pure] at h
      obtain ⟨rest, c₃, hrest, rfl, rfl⟩ := h
      obtain ⟨hmarks, hne, hnodup, hseen⟩ := ih (by omega) hrest
      obtain ⟨p, ps, rfl⟩ := List.exists_cons_of_ne_nil hne
      refine ⟨by simpa [parameterMarks] using ⟨ht, hcomma, hmarks⟩, List.cons_ne_nil _ _, ?_, ?_⟩
      · exact List.nodup_cons.mpr ⟨fun hm => hseen name hm List.mem_cons_self, hnodup⟩
      · rintro q (_ | ⟨_, hq⟩)
        · exact hn
        · exact fun hs => hseen q hq (List.mem_cons_of_mem _ hs)
    · simp only [Bool.false_eq_true, if_false, clean_pure] at h
      obtain ⟨rfl, rfl⟩ := h
      exact ⟨by simpa [parameterMarks] using ht, List.cons_ne_nil _ _, by simp,
        by simpa using hn⟩

theorem reads_of_clean_parameters {names : List String} (h : Clean parameters c names c') :
    c.Reads (parens (parameterMarks names)) c' ∧ names.Nodup := by
  unfold parameters at h
  simp only [clean_bind, clean_expect] at h
  obtain ⟨b, c₁, ⟨rfl, hopen, rfl⟩, h⟩ := h
  simp only [Bool.not_true, Bool.false_eq_true, if_false, clean_bind, clean_eat] at h
  obtain ⟨b, c₁, ⟨rfl, hclose, rfl⟩ | ⟨rfl, -, rfl⟩, h⟩ := h
  · simp only [if_true, clean_pure] at h
    obtain ⟨rfl, rfl⟩ := h
    exact ⟨Cursor.reads_parens.mpr ⟨hopen, _, rfl, hclose, rfl⟩, List.nodup_nil⟩
  · simp only [Bool.false_eq_true, if_false, clean_bind, clean_left, clean_symbol, clean_pure] at h
    obtain ⟨_, _, ⟨rfl, rfl⟩, names', c₂, hnames, _, _, ⟨hclose, rfl⟩, rfl, rfl⟩ := h
    obtain ⟨hmarks, -, hnodup, -⟩ := reads_of_clean_parameterNames (Nat.lt_succ_self _) hnames
    exact ⟨Cursor.reads_parens.mpr ⟨hopen, c₂, hmarks, hclose, rfl⟩, hnodup⟩

/-- **The reader of declarations is sound**: what it has read behind the keyword without a new error
stands between the two cursors. -/
theorem readsDeclaration_of_clean {table : FunctionTable} {levels : Nat} {d : Declaration}
    (hk : c.token? = some (.keyword .functionK))
    (h : Clean (declaration table (expressionAt levels)) c d c') : c.ReadsDeclaration table d c' := by
  unfold declaration at h
  simp only [clean_bind, clean_skip, clean_column, clean_nameOrEmpty] at h
  obtain ⟨_, _, rfl, _, _, ⟨rfl, rfl⟩, name, _, ⟨hname, rfl⟩, h⟩ := h
  obtain ⟨hfresh, h⟩ := (clean_reportIf (k := fun _ => _)).mp h
  simp only [clean_bind, clean_symbol, clean_pure] at h
  obtain ⟨params, c₁, hparams, _, _, ⟨harrow, rfl⟩, body, c₂, hbody, rfl, rfl⟩ := h
  obtain ⟨hmarks, hnodup⟩ := reads_of_clean_parameters hparams
  have hbody := readsFrom_of_clean hbody
  refine ⟨?_, hbody.complete, hbody.grouped, hnodup, by simpa using hfresh⟩
  simp only [declarationMarks, Cursor.reads_cons, Cursor.reads_append, Cursor.shows_keyword,
    Cursor.shows_placed, Cursor.shows_symbol]
  exact ⟨hk, ⟨hname, trivial⟩, c₁, hmarks, harrow, hbody.marks⟩

end Reading

end ExprScript
