import ShaderBridge.Backward.Glsl.Operation
import ShaderBridge.Backward.Operation
import ShaderBridge.Forward.Operation
import ShaderBridge.Proofs.Backward.Agreement
import ShaderBridge.Proofs.Backward.Calls
import ShaderBridge.Proofs.Backward.Forgetting
import ShaderBridge.Proofs.Backward.Remembering
import ShaderBridge.Proofs.Coherence
import ShaderBridge.Proofs.Commenting
import ShaderBridge.Proofs.CrossGl.Alphabet
import ShaderBridge.Proofs.CrossGl.Reprinting
import ShaderBridge.Proofs.CrossGl.Retention
import ShaderBridge.Proofs.CrossGl.Sections
import ShaderBridge.Proofs.Glsl.Regrouping
import ShaderBridge.Proofs.Glsl.Stages
import ShaderBridge.Proofs.Hlsl.CodeRendering
import ShaderBridge.Proofs.Hlsl.InterfaceReturn
import ShaderBridge.Proofs.Hlsl.Precedence
import ShaderBridge.Proofs.Metal.Attributes
import ShaderBridge.Proofs.Metal.Waiting
import ShaderBridge.Proofs.Mojo.Parameters
import ShaderBridge.Proofs.Position
import ShaderBridge.Proofs.Scoping
import ShaderBridge.Proofs.Spirv.Jumps
import ShaderBridge.Proofs.Spirv.Numbers
import ShaderBridge.Proofs.Spirv.Vectors
import ShaderBridge.Spirv.Operation
