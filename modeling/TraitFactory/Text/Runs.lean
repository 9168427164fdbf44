/-!
# Runs of code points

A class of characters as a list of runs. Main statement: a code point of the first run is outside
the class, and one past it is looked for in the rest, where inside and outside have changed
places.
-/

namespace TraitFactory.Text

/-- Whether a code point lies inside; the runs lie in turn outside and inside, the first of them as
`inside` says, and what follows them lies outside. -/
def inRun (n : Nat) : List Nat → Bool → Bool
  | [], _ => false
  | run :: runs, inside => if n < run then inside else inRun (n - run) runs !inside

/-- Whether a character lies inside, where U+0000 begins the first run and is outside. -/
def inRuns (runs : List Nat) (c : Char) : Bool := inRun c.toNat runs false

/-- How far a code point lies inside its run, if it lies inside one. -/
def placeInRun? (n : Nat) : List Nat → Bool → Option Nat
  | [], _ => none
  | run :: runs, inside =>
    if n < run then if inside then some n else none else placeInRun? (n - run) runs !inside

theorem inRun_cons_of_lt {n run : Nat} (h : n < run) (runs : List Nat) (inside : Bool) :
    inRun n (run :: runs) inside = inside := by
  simp [inRun, h]

theorem inRun_add (n run : Nat) (runs : List Nat) (inside : Bool) :
    inRun (run + n) (run :: runs) inside = inRun n runs !inside := by
  have h : ¬run + n < run := by omega
  simp [inRun, h]

/-- A code point lies inside a run just when it has a place in one. -/
theorem isSome_placeInRun? (n : Nat) (runs : List Nat) (inside : Bool) :
    (placeInRun? n runs inside).isSome = inRun n runs inside := by
  induction runs generalizing n inside with
  | nil => rfl
  | cons run runs ih =>
    by_cases h : n < run
    · cases inside <;> simp [placeInRun?, inRun, h]
    · simp [placeInRun?, inRun, h, ih]

end TraitFactory.Text
