/-!
# Random numbers

A generator is a 64-bit counter whose scrambled values are the numbers drawn, so equal seeds give
equal sequences.

* `Generator`, `Generator.draw`: a generator, and the next number from zero up to but not including
  one with the generator after it.
-/

namespace ExprScript

/-- The state of a source of random numbers. -/
structure Generator where
  state : UInt64
  deriving Repr, DecidableEq

namespace Generator

/-- The generator of a seed. -/
def ofSeed (seed : UInt64) : Generator := ⟨seed⟩

/-- Spreads every bit of a word over the whole word. -/
def scramble (x : UInt64) : UInt64 :=
  let x := (x ^^^ (x >>> 30)) * 0xBF58476D1CE4E5B9
  let x := (x ^^^ (x >>> 27)) * 0x94D049BB133111EB
  x ^^^ (x >>> 31)

/-- The next number, a multiple of `2 ^ -53` below one, and the generator after it. -/
def draw (g : Generator) : Float × Generator :=
  let state := g.state + 0x9E3779B97F4A7C15
  ((scramble state >>> 11).toFloat / 9007199254740992.0, ⟨state⟩)

end Generator

end ExprScript
