import ConsHeap.Color

/-!
# Generations

White and black take turns in two roles. Pairs of the `from` generation still have to be proven
reachable; pairs of the `to` generation have been scanned. A generation is therefore just the bulk
color that plays `from`, and the other three role colors follow from it.
-/

namespace ConsHeap

/-- Which of white and black is the `from` color. -/
inductive Generation where
  | white
  | black
  deriving DecidableEq, Repr, Inhabited

namespace Generation

/-- The bulk color of pairs not yet proven reachable. -/
def fromColor : Generation → Color
  | white => .white
  | black => .black

/-- The bulk color of scanned pairs. -/
def toColor (g : Generation) : Color :=
  g.fromColor.opposite

/-- The rooted twin of `fromColor`. -/
def fromRoot (g : Generation) : Color :=
  g.fromColor.toRoot

/-- The rooted twin of `toColor`. -/
def toRoot (g : Generation) : Color :=
  g.toColor.toRoot

/-- The two roles exchange their colors. -/
def flip : Generation → Generation
  | white => black
  | black => white

/-- The roles after a number of exchanges, white being `from` at first. -/
def after (flips : Nat) : Generation :=
  if flips % 2 = 0 then white else black

/-- Whether a color belongs to the `from` generation. -/
def isFrom (g : Generation) (c : Color) : Bool :=
  c == g.fromColor || c == g.fromRoot

/-- Whether a color belongs to the `to` generation. -/
def isTo (g : Generation) (c : Color) : Bool :=
  c == g.toColor || c == g.toRoot

@[simp] theorem flip_flip (g : Generation) : g.flip.flip = g := by
  cases g <;> rfl

theorem after_succ (n : Nat) : after (n + 1) = (after n).flip := by
  rcases Nat.mod_two_eq_zero_or_one n with h | h
  · have h' : (n + 1) % 2 = 1 := by omega
    simp [after, h, h', flip]
  · have h' : (n + 1) % 2 = 0 := by omega
    simp [after, h, h', flip]

theorem isFrom_flip (g : Generation) (c : Color) : g.flip.isFrom c = g.isTo c := by
  cases g <;> cases c <;> rfl

theorem isTo_flip (g : Generation) (c : Color) : g.flip.isTo c = g.isFrom c := by
  cases g <;> cases c <;> rfl

end Generation

end ConsHeap
