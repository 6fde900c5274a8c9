import ShaderBridge.Text.Basic

/-!
# Node kinds and fields

The vocabulary of syntax trees over all languages: what a node stands for and how its parts are
called.  Each kind and field has a label, the word that printed trees use for it.
-/

namespace ShaderBridge

/-! ## §1 Kinds -/

/-- What a node of a syntax tree stands for. -/
inductive NodeKind where
  | shader
  | vertexSection
  | fragmentSection
  | function
  | var
  | uniform
  | struct
  | classDef
  | constantBuffer
  | declaration
  | importDef
  | decorator
  | attributeMark
  | layout
  | version
  | assignment
  | branch
  | forLoop
  | whileLoop
  | switch
  | switchCase
  | returned
  | binary
  | unary
  | ternary
  | call
  | member
  | element
  | construction
  | textureSample
  | barrier
  | constant
deriving DecidableEq, Repr, Inhabited

namespace NodeKind

/-- The label of a kind. -/
def label : NodeKind → Text
  | shader => "ShaderNode"
  | vertexSection => "VERTEXShaderNode"
  | fragmentSection => "FRAGMENTShaderNode"
  | function => "FunctionNode"
  | var => "VariableNode"
  | uniform => "UniformNode"
  | struct => "StructNode"
  | classDef => "ClassNode"
  | constantBuffer => "ConstantBufferNode"
  | declaration => "VariableDeclarationNode"
  | importDef => "ImportNode"
  | decorator => "DecoratorNode"
  | attributeMark => "AttributeNode"
  | layout => "LayoutNode"
  | version => "VersionDirectiveNode"
  | assignment => "AssignmentNode"
  | branch => "IfNode"
  | forLoop => "ForNode"
  | whileLoop => "WhileNode"
  | switch => "SwitchNode"
  | switchCase => "SwitchCaseNode"
  | returned => "ReturnNode"
  | binary => "BinaryOpNode"
  | unary => "UnaryOpNode"
  | ternary => "TernaryOpNode"
  | call => "FunctionCallNode"
  | member => "MemberAccessNode"
  | element => "ArrayAccessNode"
  | construction => "VectorConstructorNode"
  | textureSample => "TextureSampleNode"
  | barrier => "ThreadgroupSyncNode"
  | constant => "ConstantNode"

/-- All kinds. -/
def all : List NodeKind :=
  [.shader, .vertexSection, .fragmentSection, .function, .var, .uniform, .struct,
   .classDef, .constantBuffer, .declaration, .importDef, .decorator, .attributeMark,
   .layout, .version, .assignment, .branch, .forLoop, .whileLoop, .switch, .switchCase,
   .returned, .binary, .unary, .ternary, .call, .member, .element, .construction,
   .textureSample, .barrier, .constant]

/-- The kind with a given label. -/
def ofLabel? (label : Text) : Option NodeKind := all.find? (·.label == label)

end NodeKind

/-! ## §2 Fields -/

/-- How a part of a node is called. -/
inductive Field where
  | name
  | vtype
  | value
  | left
  | right
  | op
  | operator
  | operand
  | condition
  | trueExpr
  | falseExpr
  | object
  | member
  | args
  | params
  | body
  | returnType
  | init
  | update
  | ifCondition
  | ifBody
  | elseIfConditions
  | elseIfBodies
  | elseBody
  | ifChain
  | elseIfChain
  | inputs
  | outputs
  | functions
  | intermediate
  | globalInputs
  | globalOutputs
  | globalFunctions
  | vertexSection
  | fragmentSection
  | vertexInput
  | vertexOutput
  | fragmentInput
  | fragmentOutput
  | members
  | semantic
  | typeName
  | qualifier
  | attributes
  | array
  | index
  | texture
  | sampler
  | coordinates
  | number
  | versionNumber
  | profile
  | sectionName
  | locationNumber
  | dtype
  | ioType
  | version
  | uniforms
  | uniform
  | layoutQualifiers
  | varType
  | initialValue
  | moduleName
  | aliasName
  | baseClasses
  | expression
  | cases
  | type
  /-- A field that no shape has, known by its label only. -/
  | other (label : Text)
deriving DecidableEq, Repr, Inhabited

namespace Field

/-- The label of a field. -/
def label : Field → Text
  | name => "name"
  | vtype => "vtype"
  | value => "value"
  | left => "left"
  | right => "right"
  | op => "op"
  | operator => "operator"
  | operand => "operand"
  | condition => "condition"
  | trueExpr => "true_expr"
  | falseExpr => "false_expr"
  | object => "object"
  | member => "member"
  | args => "args"
  | params => "params"
  | body => "body"
  | returnType => "return_type"
  | init => "init"
  | update => "update"
  | ifCondition => "if_condition"
  | ifBody => "if_body"
  | elseIfConditions => "else_if_conditions"
  | elseIfBodies => "else_if_bodies"
  | elseBody => "else_body"
  | ifChain => "if_chain"
  | elseIfChain => "else_if_chain"
  | inputs => "inputs"
  | outputs => "outputs"
  | functions => "functions"
  | intermediate => "intermidiate"
  | globalInputs => "global_inputs"
  | globalOutputs => "global_outputs"
  | globalFunctions => "global_functions"
  | vertexSection => "vertex_section"
  | fragmentSection => "fragment_section"
  | vertexInput => "vsinput_struct"
  | vertexOutput => "vsoutput_struct"
  | fragmentInput => "psinput_struct"
  | fragmentOutput => "psoutput_struct"
  | members => "members"
  | semantic => "semantic"
  | typeName => "type_name"
  | qualifier => "qualifier"
  | attributes => "attributes"
  | array => "array"
  | index => "index"
  | texture => "texture"
  | sampler => "sampler"
  | coordinates => "coordinates"
  | number => "number"
  | versionNumber => "version_number"
  | profile => "profile"
  | sectionName => "section"
  | locationNumber => "location_number"
  | dtype => "dtype"
  | ioType => "io_type"
  | version => "version"
  | uniforms => "uniforms"
  | uniform => "uniform"
  | layoutQualifiers => "layout_qualifiers"
  | varType => "var_type"
  | initialValue => "initial_value"
  | moduleName => "module_name"
  | aliasName => "alias"
  | baseClasses => "base_classes"
  | expression => "expression"
  | cases => "cases"
  | type => "type"
  | other label => label

/-- The fields with a name of their own. -/
def named : List Field :=
  [.name, .vtype, .value, .left, .right, .op, .operator, .operand, .condition, .trueExpr,
   .falseExpr, .object, .member, .args, .params, .body, .returnType, .init, .update,
   .ifCondition, .ifBody, .elseIfConditions, .elseIfBodies, .elseBody, .ifChain,
   .elseIfChain, .inputs, .outputs, .functions, .intermediate, .globalInputs,
   .globalOutputs, .globalFunctions, .vertexSection, .fragmentSection, .vertexInput,
   .vertexOutput, .fragmentInput, .fragmentOutput, .members, .semantic, .typeName,
   .qualifier, .attributes, .array, .index, .texture, .sampler, .coordinates, .number,
   .versionNumber, .profile, .sectionName, .locationNumber, .dtype, .ioType, .version,
   .uniforms, .uniform, .layoutQualifiers, .varType, .initialValue, .moduleName, .aliasName,
   .baseClasses, .expression, .cases, .type]

/-- The field with a given label. -/
def ofLabel (label : Text) : Field := (named.find? (·.label == label)).getD (.other label)

end Field

end ShaderBridge
