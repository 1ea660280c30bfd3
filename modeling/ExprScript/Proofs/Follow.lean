import Mathlib.Data.List.Basic

/-!
# Steps side by side

Two steps are compared by running them from states that match: they must end alike, in states that
match again. The first one may stop early for a reason that is excused; then nothing is asked of the
second one.

* `LimitLe`: limits of two runs, the first of which may meet its own where that is excused;
* `Matching`: which states and errors match, and which errors are excused;
* `Matching.Ends`, `Matching.Follows`: **how two runs end, and how two steps run**;
* `Ends.bind`, `Follows.bind`, `Follows.map`, `Follows.ite`, `Follows.mapM`: steps that are made of others.
-/

namespace ExprScript

/-! ## Limits -/

/-- A limit is as high as another one, or lower where it is excused to meet it. -/
def LimitLe (excused : Prop) (low high : Nat) : Prop := low = high ∨ low ≤ high ∧ excused

namespace LimitLe

variable {excused : Prop} {low high : Nat}

theorem refl (excused : Prop) (n : Nat) : LimitLe excused n n := .inl rfl

theorem of_le (h : low ≤ high) (hx : excused) : LimitLe excused low high := .inr ⟨h, hx⟩

theorem mono {excused' : Prop} (h : LimitLe excused low high) (hx : excused → excused') :
    LimitLe excused' low high :=
  h.imp_right (And.imp_right hx)

/-- Where a step down is allowed, it is under the higher limit, too. -/
theorem exists_of_succ (h : LimitLe excused (low + 1) high) :
    ∃ n, high = n + 1 ∧ LimitLe excused low n := by
  cases high with
  | zero => exact absurd h (by simp [LimitLe])
  | succ n => exact ⟨n, rfl, h.imp Nat.succ.inj (And.imp_left Nat.le_of_succ_le_succ)⟩

end LimitLe

/-! ## Runs -/

/-- What is asked of two runs: which states match, which errors match, and which errors of the
first run are excused. -/
structure Matching (ε σ τ : Type) where
  excused : ε → Prop
  states : σ → τ → Prop
  errors : ε → ε → Prop

namespace Matching

variable {ε σ τ α β γ δ : Type}

/-- **Two runs end alike**, with results that are related, unless the first one is excused. -/
inductive Ends (M : Matching ε σ τ) (R : α → β → Prop) :
    EStateM.Result ε σ α → EStateM.Result ε τ β → Prop
  | ok {a : α} {b : β} {s : σ} {t : τ} : R a b → M.states s t → Ends M R (.ok a s) (.ok b t)
  | error {e e' : ε} {s : σ} {t : τ} :
    M.errors e e' → M.states s t → Ends M R (.error e s) (.error e' t)
  | excused {e : ε} {s : σ} {r : EStateM.Result ε τ β} : M.excused e → Ends M R (.error e s) r

/-- **A step follows another one**: from states that match, they end alike. -/
def Follows (M : Matching ε σ τ) (R : α → β → Prop) (p : EStateM ε σ α) (q : EStateM ε τ β) : Prop :=
  ∀ s t, M.states s t → M.Ends R (p s) (q t)

variable {M : Matching ε σ τ} {R : α → β → Prop} {S : γ → δ → Prop} {p : EStateM ε σ α}
  {q : EStateM ε τ β}

/-- Two runs of two steps in a row, the second of which go on from where the first have ended. -/
theorem Ends.bind {g : α → EStateM ε σ γ} {g' : β → EStateM ε τ δ} {s : σ} {t : τ}
    (h : M.Ends R (p s) (q t))
    (hg : ∀ a b s' t', p s = .ok a s' → R a b → M.states s' t' → M.Ends S (g a s') (g' b t')) :
    M.Ends S ((p >>= g) s) ((q >>= g') t) := by
  change M.Ends S (EStateM.bind p g s) (EStateM.bind q g' t)
  unfold EStateM.bind
  generalize hp : p s = r at h ⊢
  generalize q t = r' at h ⊢
  cases h with
  | ok hr hs' => exact hg _ _ _ _ hp hr hs'
  | error he hs' => exact .error he hs'
  | excused hx => exact .excused hx

namespace Follows

theorem pure {a : α} {b : β} (h : R a b) :
    M.Follows R (Pure.pure a : EStateM ε σ α) (Pure.pure b : EStateM ε τ β) :=
  fun _ _ hs => .ok h hs

theorem throw {e e' : ε} (h : M.errors e e') :
    M.Follows R (throwThe ε e : EStateM ε σ α) (throwThe ε e' : EStateM ε τ β) :=
  fun _ _ hs => .error h hs

theorem excuse {e : ε} (h : M.excused e) : M.Follows R (throwThe ε e : EStateM ε σ α) q :=
  fun _ _ _ => .excused h

/-- **Two steps in a row follow two others.** -/
theorem bind {g : α → EStateM ε σ γ} {g' : β → EStateM ε τ δ} (h : M.Follows R p q)
    (hg : ∀ a b, R a b → M.Follows S (g a) (g' b)) : M.Follows S (p >>= g) (q >>= g') :=
  fun s t hs => (h s t hs).bind fun a b s' t' _ hr hs' => hg a b hr s' t' hs'

/-- The same for steps with the same results. -/
theorem bind_eq {q : EStateM ε τ α} {g : α → EStateM ε σ γ} {g' : α → EStateM ε τ δ}
    (h : M.Follows Eq p q) (hg : ∀ a, M.Follows S (g a) (g' a)) :
    M.Follows S (p >>= g) (q >>= g') := by
  refine h.bind ?_
  rintro a _ rfl
  exact hg a

/-- The same for steps whose results are a function of those of others. -/
theorem bind_map {φ : α → β} {g : α → EStateM ε σ γ} {g' : β → EStateM ε τ δ}
    (h : M.Follows (fun a b => b = φ a) p q) (hg : ∀ a, M.Follows S (g a) (g' (φ a))) :
    M.Follows S (p >>= g) (q >>= g') := by
  refine h.bind ?_
  rintro a _ rfl
  exact hg a

theorem map {g : α → γ} {g' : β → δ} (h : M.Follows R p q) (hg : ∀ a b, R a b → S (g a) (g' b)) :
    M.Follows S (g <$> p) (g' <$> q) := by
  rw [map_eq_pure_bind, map_eq_pure_bind]
  exact h.bind fun a b hr => .pure (hg a b hr)

theorem ite {c c' : Prop} [Decidable c] [Decidable c'] {p' : EStateM ε σ α} {q' : EStateM ε τ β}
    (hc : c ↔ c') (h : M.Follows R p q) (h' : M.Follows R p' q') :
    M.Follows R (if c then p else p') (if c' then q else q') := by
  by_cases hp : c
  · rwa [if_pos hp, if_pos (hc.mp hp)]
  · rwa [if_neg hp, if_neg fun hq => hp (hc.mpr hq)]

/-- Steps for the elements of a list follow other steps for the same elements. -/
theorem mapM {δ : Type} {g : δ → EStateM ε σ γ} {g' : δ → EStateM ε τ γ} (as : List δ)
    (hg : ∀ a, M.Follows Eq (g a) (g' a)) : M.Follows Eq (as.mapM g) (as.mapM g') := by
  induction as with
  | nil =>
    rw [List.mapM_nil, List.mapM_nil]
    exact .pure rfl
  | cons a as ih =>
    rw [List.mapM_cons, List.mapM_cons]
    exact (hg a).bind_eq fun _ => ih.bind_eq fun _ => .pure rfl

end Follows

end Matching

end ExprScript
