/-!
# Shading languages

The languages that source texts are written in.  CrossGL is the exchange language: forward
generation starts from it and backward conversion ends in it.
-/

namespace ShaderBridge

/-- A language with a token table, a grammar and node shapes of its own. -/
inductive Language where
  | crossGl
  | hlsl
  | metal
  | glsl
  | mojo
deriving DecidableEq, Repr

end ShaderBridge
