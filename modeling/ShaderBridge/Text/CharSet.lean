/-!
# Character sets

A set of characters beyond ASCII is given by the code points at which membership changes, in
rising order: the first point is the first member, the second the first non-member after it, and
so on.
-/

namespace ShaderBridge.CharSet

/-- Whether code point `n` lies in the set whose membership changes at the given points. -/
def holds : List Nat → Nat → Bool
  | [], _ => false
  | p :: points, n => if n < p then false else !holds points n

/-- The points that follow `p`, each at the given distance from the one before. -/
def pointsAfter (p : Nat) : List Nat → List Nat
  | [] => []
  | d :: distances => (p + d) :: pointsAfter (p + d) distances

/-- Membership of a character: `ascii` decides below code point 128, the points above. -/
def member (ascii : Char → Bool) (points : List Nat) (c : Char) : Bool :=
  if c.toNat < 128 then ascii c else holds points c.toNat

end ShaderBridge.CharSet
