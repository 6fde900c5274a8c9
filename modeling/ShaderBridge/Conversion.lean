import ShaderBridge.Backward.Glsl.Shader
import ShaderBridge.Backward.Shader
import ShaderBridge.Forward.Shader
import ShaderBridge.Session

/-!
# Conversion of files

A route leads from the tree of one language to the text of another: from CrossGL to a dialect, or
back from HLSL, Metal or GLSL.  `convertFile` finds the route from the extension of a file and the
name of a backend.

The file is read before its name is looked at, and its source is parsed before the backend is:
of two faults the first in this order is reported.
-/

namespace ShaderBridge

/-- The outcome of a computation that starts from a given state. -/
def Gen.outcome {σ α : Type} (g : Gen σ α) (s : σ) : Except Fault α :=
  match g s with
  | .ok a _ => .ok a
  | .error e _ => .error e

/-! ## §1 Routes -/

/-- A way from one language to another. -/
inductive Route where
  /-- From CrossGL to a dialect. -/
  | forward (d : Forward.Dialect)
  /-- From HLSL or Metal to CrossGL. -/
  | backward (d : Backward.Dialect)
  /-- From GLSL to CrossGL. -/
  | fromGlsl
deriving DecidableEq, Repr

namespace Route

/-- The language that a route starts from. -/
def language : Route → Language
  | forward _ => .crossGl
  | backward d => d.language
  | fromGlsl => .glsl

/-- The text of a tree at the end of a route, by a new generator. -/
def generate : Route → Tree → Except Fault Text
  | forward d, t => (Forward.generate d t).outcome {}
  | backward d, t => (Backward.generate d t).outcome {}
  | fromGlsl, t => (Backward.Glsl.generate t).outcome {}

/-- The text of a source at the end of a route. -/
def convert (r : Route) (source : Text) : Except Fault Text := do
  r.generate (← r.language.parse source)

end Route

/-! ## §2 Files -/

/-- The language that a file name has the extension of. -/
def Language.ofFile? (file : Text) : Option Language :=
  if Text.endsIn ".cgl" file then some .crossGl
  else if Text.endsIn ".hlsl" file then some .hlsl
  else if Text.endsIn ".metal" file then some .metal
  else if Text.endsIn ".glsl" file then some .glsl
  else none

/-- The dialects that CrossGL is written in, by the names of their backends. -/
def backends : List (Text × Forward.Dialect) :=
  [("metal", .metal), ("directx", .hlsl), ("opengl", .glsl)]

/-- The route of a file in a language to a backend. -/
def Route.find (file : Text) (lang : Language) (backend : Text) : Except Fault Route :=
  match lang with
  | .crossGl =>
    match backends.lookup backend with
    | some d => .ok (forward d)
    | none => .error (.refused (.target backend))
  | lang =>
    if backend = "cgl" then
      match lang with
      | .hlsl => .ok (backward .hlsl)
      | .metal => .ok (backward .metal)
      | .glsl => .ok fromGlsl
      | _ => .error (.refused (.pairing file backend))
    else .error (.refused (.pairing file backend))

/-- The name of the backend if none is given. -/
def defaultBackend : Text := "cgl"

/-- The text of a file in the language of a backend.  A file that does not exist has no content. -/
def convertFile (file : Text) (content? : Option Text) (backend : Text) : Except Fault Text := do
  match content? with
  | none => throw .noSuchFile
  | some content =>
    match Language.ofFile? file with
    | none => throw (.refused (.fileType file))
    | some lang => do
      -- A source that cannot be parsed is reported before a backend that is not known.
      let t ← lang.parse (Text.normalizeLineEnds content)
      let route ← Route.find file lang (Text.lower backend)
      route.generate t

end ShaderBridge
