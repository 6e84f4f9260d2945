import DBindings.Tree.Decl
import DBindings.Json.Decode

/-!
# Units as JSON

The JSON form of the declaration tree.  A case with data is an object whose one key is the name of
the case, a case without data is that name.  Unknown fields are skipped; a field that is missing
takes its default, if it has one.

* `TranslationUnit.decode`   decodes a unit; its parts have decoders of their own.
-/

namespace DBindings

open Json

def Builtin.decode : Decoder Builtin := Json.tag
  [("void", .void), ("bool", .bool), ("char_s", .charS), ("char_u", .charU), ("s_char", .sChar),
   ("u_char", .uChar), ("w_char", .wChar), ("char8", .char8), ("char16", .char16),
   ("char32", .char32), ("short", .short), ("u_short", .uShort), ("int", .int), ("u_int", .uInt),
   ("long", .long), ("u_long", .uLong), ("long_long", .longLong), ("u_long_long", .uLongLong),
   ("int128", .int128), ("u_int128", .uInt128), ("half", .half), ("float", .float),
   ("double", .double), ("long_double", .longDouble), ("float128", .float128),
   ("null_ptr", .nullPtr)]

def DeclRef.decode : Decoder DeclRef := fun levels j => do
  let f ← fields? ["id", "name"] levels j
  return ⟨← f.required "id" .u32, ← f.withDefault "name" .string ""⟩

/-- A template argument, given a decoder for types. -/
def TemplateArg.decodeWith (ty : Decoder Ty) : Decoder TemplateArg := fun levels j => do
  let (tag, payload) ← variant? levels j
  match tag with
  | "type" => payload.decode (ty.map .type)
  | "integral" => payload.decode fun levels j => do
    let f ← fields? ["value", "bits", "signed"] levels j
    return .integral (← f.required "value" .i128) (← f.withDefault "bits" .u32 32)
      (← f.withDefault "signed" .bool true)
  | "expression" => payload.decode (Decoder.string.map .expression)
  | _ => none

/-- One round of decoding a type. -/
def Ty.decodeStep (ty : Decoder Ty) : Decoder Ty := fun levels j => do
  let (tag, payload) ← variant? levels j
  match tag with
  | "builtin" => payload.decode (Builtin.decode.map .builtin)
  | "pointer" => payload.decode (ty.map .pointer)
  | "reference" => payload.decode fun levels j => do
    let f ← fields? ["inner", "rvalue"] levels j
    return .reference (← f.required "inner" ty) (← f.withDefault "rvalue" .bool false)
  | "constant_array" => payload.decode fun levels j => do
    let f ← fields? ["element", "size"] levels j
    return .constantArray (← f.required "element" ty) (← f.required "size" .u64)
  | "array" => payload.decode (ty.map .array)
  | "function" => payload.decode fun levels j => do
    let f ← fields? ["ret", "params", "variadic"] levels j
    return .function (← f.required "ret" ty) (← f.withDefault "params" ty.list [])
      (← f.withDefault "variadic" .bool false)
  | "record" => payload.decode (DeclRef.decode.map .record)
  | "enum" => payload.decode (DeclRef.decode.map .enum)
  | "template_specialization" => payload.decode fun levels j => do
    let f ← fields? ["template", "args"] levels j
    return .templateSpecialization (← f.required "template" .string)
      (← f.withDefault "args" (TemplateArg.decodeWith ty).list [])
  | "qualified" => payload.decode fun levels j => do
    let f ← fields? ["is_const", "inner"] levels j
    return .qualified (← f.required "is_const" .bool) (← f.required "inner" ty)
  | "typedef" => payload.decode fun levels j => do
    let f ← fields? ["name", "underlying"] levels j
    return .typedef (← f.required "name" .string) (← f.required "underlying" ty)
  | "template_param" => payload.decode (Decoder.string.map .templateParam)
  | "dependent" => payload.decode (Decoder.string.map .dependent)
  | _ => none

def Ty.decode : Decoder Ty := Decoder.fix Ty.decodeStep

def TemplateArg.decode : Decoder TemplateArg := TemplateArg.decodeWith Ty.decode

def OverloadedOp.decode : Decoder OverloadedOp := Json.tag
  [("plus", .plus), ("minus", .minus), ("star", .star), ("slash", .slash), ("percent", .percent),
   ("caret", .caret), ("amp", .amp), ("pipe", .pipe), ("tilde", .tilde), ("exclaim", .exclaim),
   ("equal", .equal), ("less", .less), ("greater", .greater), ("plus_equal", .plusEqual),
   ("minus_equal", .minusEqual), ("star_equal", .starEqual), ("slash_equal", .slashEqual),
   ("percent_equal", .percentEqual), ("caret_equal", .caretEqual), ("amp_equal", .ampEqual),
   ("pipe_equal", .pipeEqual), ("less_less", .lessLess), ("greater_greater", .greaterGreater),
   ("less_less_equal", .lessLessEqual), ("greater_greater_equal", .greaterGreaterEqual),
   ("equal_equal", .equalEqual), ("exclaim_equal", .exclaimEqual), ("less_equal", .lessEqual),
   ("greater_equal", .greaterEqual), ("spaceship", .spaceship), ("amp_amp", .ampAmp),
   ("pipe_pipe", .pipePipe), ("plus_plus", .plusPlus), ("minus_minus", .minusMinus),
   ("comma", .comma), ("arrow_star", .arrowStar), ("arrow", .arrow), ("call", .call),
   ("subscript", .subscript), ("new", .new), ("delete", .delete), ("array_new", .arrayNew),
   ("array_delete", .arrayDelete)]

def UnaryOp.decode : Decoder UnaryOp := Json.tag
  [("post_inc", .postInc), ("post_dec", .postDec), ("pre_inc", .preInc), ("pre_dec", .preDec),
   ("addr_of", .addrOf), ("deref", .deref), ("plus", .plus), ("minus", .minus), ("not", .not),
   ("l_not", .lNot)]

def BinaryOp.decode : Decoder BinaryOp := Json.tag
  [("mul", .mul), ("div", .div), ("rem", .rem), ("add", .add), ("sub", .sub), ("shl", .shl),
   ("shr", .shr), ("lt", .lt), ("gt", .gt), ("le", .le), ("ge", .ge), ("eq", .eq), ("ne", .ne),
   ("and", .and), ("xor", .xor), ("or", .or), ("l_and", .lAnd), ("l_or", .lOr),
   ("assign", .assign), ("mul_assign", .mulAssign), ("div_assign", .divAssign),
   ("rem_assign", .remAssign), ("add_assign", .addAssign), ("sub_assign", .subAssign),
   ("shl_assign", .shlAssign), ("shr_assign", .shrAssign), ("and_assign", .andAssign),
   ("xor_assign", .xorAssign), ("or_assign", .orAssign), ("comma", .comma)]

def CastKind.decode : Decoder CastKind := Json.tag
  [("array_to_pointer_decay", .arrayToPointerDecay),
   ("function_to_pointer_decay", .functionToPointerDecay), ("null_to_pointer", .nullToPointer),
   ("l_value_to_r_value", .lValueToRValue), ("derived_to_base", .derivedToBase),
   ("integral_cast", .integralCast), ("floating_cast", .floatingCast),
   ("integral_to_floating", .integralToFloating), ("floating_to_integral", .floatingToIntegral),
   ("to_void", .toVoid), ("no_op", .noOp), ("other", .other)]

def NamedCastKind.decode : Decoder NamedCastKind := Json.tag
  [("static", .static), ("dynamic", .dynamic), ("reinterpret", .reinterpret), ("const", .const)]

def CharKind.decode : Decoder CharKind := Json.tag
  [("ascii", .ascii), ("wide", .wide), ("utf8", .utf8), ("utf16", .utf16), ("utf32", .utf32)]

def NewInitStyle.decode : Decoder NewInitStyle := Json.tag
  [("none", .none), ("call", .call), ("list", .list)]

def TraitKind.decode : Decoder TraitKind := Json.tag [("size_of", .sizeOf), ("align_of", .alignOf)]

def OperatorRef.decode : Decoder OperatorRef := fun levels j => do
  let f ← fields? ["op", "params"] levels j
  return ⟨← f.required "op" OverloadedOp.decode, ← f.required "params" .u64⟩

def Expr.decodeStep (expr : Decoder Expr) : Decoder Expr := fun levels j => do
  let (tag, payload) ← variant? levels j
  match tag with
  | "integer_literal" => payload.decode fun levels j => do
    let f ← fields? ["value", "ty"] levels j
    return .integerLiteral (← f.required "value" .i128)
      (← f.withDefault "ty" Builtin.decode .int)
  | "float_literal" => payload.decode fun levels j => do
    let f ← fields? ["value", "ty"] levels j
    return .floatLiteral (← f.required "value" .binary64)
      (← f.withDefault "ty" Builtin.decode .double)
  | "char_literal" => payload.decode fun levels j => do
    let f ← fields? ["value", "kind"] levels j
    return .charLiteral (UInt32.ofNat (← f.required "value" .u32))
      (← f.withDefault "kind" CharKind.decode .ascii)
  | "string_literal" => payload.decode fun levels j => do
    let f ← fields? ["value", "wide"] levels j
    return .stringLiteral (← f.required "value" .string) (← f.withDefault "wide" .bool false)
  | "bool_literal" => payload.decode (Decoder.bool.map .boolLiteral)
  | "null_ptr" => payload.empty .nullPtr
  | "this" => payload.decode fun levels j => do
    let f ← fields? ["implicit"] levels j
    return .thisPtr (← f.withDefault "implicit" .bool false)
  | "decl_ref" => payload.decode fun levels j => do
    let f ← fields? ["name", "ty", "qualifier", "template_args"] levels j
    return .declRef (← f.required "name" .string) (← f.required "ty" Ty.decode)
      (← f.optional "qualifier" Ty.decode)
      (← f.withDefault "template_args" TemplateArg.decode.list [])
  | "member" => payload.decode fun levels j => do
    let f ← fields? ["base", "member", "ty", "arrow", "qualifier", "operator", "anonymous",
      "template_args"] levels j
    return .member (← f.required "base" expr)
      ⟨← f.required "member" .string, ← f.required "ty" Ty.decode,
        ← f.withDefault "arrow" .bool false, ← f.optional "qualifier" Ty.decode,
        ← f.optional "operator" OperatorRef.decode, ← f.withDefault "anonymous" .bool false,
        ← f.withDefault "template_args" TemplateArg.decode.list []⟩
  | "call" => payload.decode fun levels j => do
    let f ← fields? ["callee", "args", "callee_params"] levels j
    return .call (← f.required "callee" expr) (← f.withDefault "args" expr.list [])
      (← f.optional "callee_params" Ty.decode.list)
  | "member_call" => payload.decode fun levels j => do
    let f ← fields? ["callee", "args", "callee_params", "conversion"] levels j
    return .memberCall (← f.required "callee" expr) (← f.withDefault "args" expr.list [])
      (← f.optional "callee_params" Ty.decode.list) (← f.withDefault "conversion" .bool false)
  | "operator_call" => payload.decode fun levels j => do
    let f ← fields? ["op", "args"] levels j
    return .operatorCall (← f.required "op" OverloadedOp.decode) (← f.required "args" expr.list)
  | "unary" => payload.decode fun levels j => do
    let f ← fields? ["op", "operand"] levels j
    return .unary (← f.required "op" UnaryOp.decode) (← f.required "operand" expr)
  | "binary" => payload.decode fun levels j => do
    let f ← fields? ["op", "lhs", "rhs"] levels j
    return .binary (← f.required "op" BinaryOp.decode) (← f.required "lhs" expr)
      (← f.required "rhs" expr)
  | "conditional" => payload.decode fun levels j => do
    let f ← fields? ["cond", "then", "otherwise"] levels j
    return .conditional (← f.required "cond" expr) (← f.required "then" expr)
      (← f.required "otherwise" expr)
  | "paren" => payload.decode (expr.map .paren)
  | "implicit_cast" => payload.decode fun levels j => do
    let f ← fields? ["kind", "expr", "ty"] levels j
    return .implicitCast (← f.required "kind" CastKind.decode) (← f.required "expr" expr)
      (← f.required "ty" Ty.decode)
  | "c_style_cast" => payload.decode fun levels j => do
    let f ← fields? ["ty", "expr"] levels j
    return .cStyleCast (← f.required "ty" Ty.decode) (← f.required "expr" expr)
  | "named_cast" => payload.decode fun levels j => do
    let f ← fields? ["kind", "ty", "expr"] levels j
    return .namedCast (← f.required "kind" NamedCastKind.decode) (← f.required "ty" Ty.decode)
      (← f.required "expr" expr)
  | "functional_cast" => payload.decode fun levels j => do
    let f ← fields? ["ty", "expr", "parens"] levels j
    return .functionalCast (← f.required "ty" Ty.decode) (← f.required "expr" expr)
      (← f.withDefault "parens" .bool true)
  | "construct" => payload.decode fun levels j => do
    let f ← fields? ["ty", "args", "list_init", "std_init_list"] levels j
    return .construct (← f.required "ty" Ty.decode) (← f.withDefault "args" expr.list [])
      (← f.withDefault "list_init" .bool false) (← f.withDefault "std_init_list" .bool false)
  | "temporary_object" => payload.decode fun levels j => do
    let f ← fields? ["ty", "args"] levels j
    return .temporaryObject (← f.required "ty" Ty.decode) (← f.withDefault "args" expr.list [])
  | "unresolved_construct" => payload.decode fun levels j => do
    let f ← fields? ["ty", "args"] levels j
    return .unresolvedConstruct (← f.required "ty" Ty.decode)
      (← f.withDefault "args" expr.list [])
  | "materialize_temporary" => payload.decode fun levels j => do
    let f ← fields? ["expr", "ty"] levels j
    return .materializeTemporary (← f.required "expr" expr) (← f.required "ty" Ty.decode)
  | "default_arg" => payload.empty .defaultArg
  | "new" => payload.decode fun levels j => do
    let f ← fields? ["ty", "placement", "init", "init_style"] levels j
    return .newObject (← f.required "ty" Ty.decode) (← f.withDefault "placement" expr.list [])
      (← f.optional "init" expr) (← f.withDefault "init_style" NewInitStyle.decode .none)
  | "delete" => payload.decode fun levels j => do
    let f ← fields? ["expr", "array"] levels j
    return .deleteObject (← f.required "expr" expr) (← f.withDefault "array" .bool false)
  | "pseudo_destructor" => payload.decode fun levels j => do
    let f ← fields? ["base"] levels j
    return .pseudoDestructor (← f.required "base" expr)
  | "type_trait" => payload.decode fun levels j => do
    let f ← fields? ["kind", "arg"] levels j
    let kind ← f.required "kind" TraitKind.decode
    f.required "arg" fun levels j => do
      let (tag, payload) ← variant? levels j
      match tag with
      | "type" => payload.decode (Ty.decode.map (.traitOfType kind))
      | "expr" => payload.decode (expr.map (.traitOfExpr kind))
      | _ => none
  | "array_subscript" => payload.decode fun levels j => do
    let f ← fields? ["base", "index"] levels j
    return .arraySubscript (← f.required "base" expr) (← f.required "index" expr)
  | "init_list" => payload.decode fun levels j => do
    let f ← fields? ["ty", "exprs"] levels j
    return .initList (← f.required "ty" Ty.decode) (← f.withDefault "exprs" expr.list [])
  | "dependent_member" => payload.decode fun levels j => do
    let f ← fields? ["base", "member", "template_args"] levels j
    return .dependentMember (← f.optional "base" expr) (← f.required "member" .string)
      (← f.withDefault "template_args" TemplateArg.decode.list [])
  | "unknown" => payload.decode (Decoder.string.map .unknown)
  | _ => none

def Expr.decode : Decoder Expr := Decoder.fix Expr.decodeStep

def InitStyle.decode : Decoder InitStyle :=
  Json.tag [("c", .c), ("call", .call), ("list", .list)]

def LocalVar.decode : Decoder LocalVar := fun levels j => do
  let f ← fields? ["name", "ty", "is_static", "init", "init_style"] levels j
  return ⟨← f.required "name" .string, ← f.required "ty" Ty.decode,
    ← f.withDefault "is_static" .bool false, ← f.optional "init" Expr.decode,
    ← f.withDefault "init_style" InitStyle.decode .c⟩

def Stmt.decodeStep (stmt : Decoder Stmt) : Decoder Stmt := fun levels j => do
  let (tag, payload) ← variant? levels j
  match tag with
  | "compound" => payload.decode (stmt.list.map .compound)
  | "expr" => payload.decode (Expr.decode.map .expr)
  | "decl" => payload.decode (LocalVar.decode.list.map .decl)
  | "return" => payload.decode (Expr.decode.nullable.map .ret)
  | "if" => payload.decode fun levels j => do
    let f ← fields? ["cond", "then", "otherwise"] levels j
    return .ifThen (← f.required "cond" Expr.decode) (← f.required "then" stmt)
      (← f.optional "otherwise" stmt)
  | "while" => payload.decode fun levels j => do
    let f ← fields? ["cond", "body"] levels j
    return .whileLoop (← f.required "cond" Expr.decode) (← f.required "body" stmt)
  | "do" => payload.decode fun levels j => do
    let f ← fields? ["body", "cond"] levels j
    return .doLoop (← f.required "body" stmt) (← f.required "cond" Expr.decode)
  | "for" => payload.decode fun levels j => do
    let f ← fields? ["init", "cond", "inc", "body"] levels j
    return .forLoop (← f.optional "init" stmt) (← f.optional "cond" Expr.decode)
      (← f.optional "inc" Expr.decode) (← f.required "body" stmt)
  | "switch" => payload.decode fun levels j => do
    let f ← fields? ["cond", "body"] levels j
    return .switch (← f.required "cond" Expr.decode) (← f.required "body" stmt)
  | "case" => payload.decode fun levels j => do
    let f ← fields? ["value", "body"] levels j
    return .caseLabel (← f.required "value" Expr.decode) (← f.required "body" stmt)
  | "default" => payload.decode (stmt.map .defaultLabel)
  | "label" => payload.decode fun levels j => do
    let f ← fields? ["name", "body"] levels j
    return .label (← f.required "name" .string) (← f.required "body" stmt)
  | "goto" => payload.decode (Decoder.string.map .goto)
  | "break" => payload.empty .break_
  | "continue" => payload.empty .continue_
  | "null" => payload.empty .null
  | _ => none

def Stmt.decode : Decoder Stmt := Decoder.fix Stmt.decodeStep

def SourceLoc.decode : Decoder SourceLoc := fun levels j => do
  let f ← fields? ["file", "line", "column"] levels j
  return ⟨← f.optional "file" .string, ← f.withDefault "line" .u32 0,
    ← f.withDefault "column" .u32 0⟩

def Access.decode : Decoder Access := Json.tag
  [("public", .pub), ("protected", .prot), ("private", .priv), ("none", .unstated)]

def Scope.decode : Decoder Scope := fun levels j => do
  let (tag, payload) ← variant? levels j
  match tag with
  | "namespace" => payload.decode (Decoder.string.map .space)
  | "record" => payload.decode (Decoder.string.map .record)
  | _ => none

def DeclContext.decode : Decoder DeclContext := fun levels j => do
  let f ← fields? ["scopes", "extern_c"] levels j
  return ⟨← f.withDefault "scopes" Scope.decode.list [],
    ← f.withDefault "extern_c" .bool false⟩

def RecordTag.decode : Decoder RecordTag :=
  Json.tag [("struct", .struct), ("class", .class_), ("union", .union)]

def Layout.decode : Decoder Layout := fun levels j => do
  let f ← fields? ["size", "align"] levels j
  return ⟨← f.required "size" .u64, ← f.required "align" .u64⟩

def BaseSpec.decode : Decoder BaseSpec := fun levels j => do
  let f ← fields? ["ty", "access", "is_virtual"] levels j
  return ⟨← f.required "ty" Ty.decode, ← f.withDefault "access" Access.decode .unstated,
    ← f.withDefault "is_virtual" .bool false⟩

def TemplateParam.decode : Decoder TemplateParam := fun levels j => do
  let f ← fields? ["name", "non_type", "default"] levels j
  return ⟨← f.required "name" .string, ← f.optional "non_type" Ty.decode,
    ← f.optional "default" Expr.decode⟩

def RecordTemplate.decode : Decoder RecordTemplate := fun levels j => do
  let (tag, payload) ← variant? levels j
  match tag with
  | "described" => payload.decode fun levels j => do
    let f ← fields? ["params"] levels j
    return .described (← f.required "params" TemplateParam.decode.list)
  | "specialization" => payload.decode fun levels j => do
    let f ← fields? ["args"] levels j
    return .specialization (← f.required "args" TemplateArg.decode.list)
  | _ => none

def Field.decode : Decoder Field := fun levels j => do
  let f ← fields? ["name", "ty", "access", "size_bits", "bit_width", "in_class_init"] levels j
  return ⟨← f.optional "name" .string, ← f.required "ty" Ty.decode,
    ← f.withDefault "access" Access.decode .unstated, ← f.optional "size_bits" .u64,
    ← f.optional "bit_width" (Decoder.u32.map UInt32.ofNat),
    ← f.optional "in_class_init" Expr.decode⟩

def CtorKind.decode : Decoder CtorKind := Json.tag
  [("default", .default), ("copy", .copy), ("move", .move), ("other", .other)]

def CtorInitializer.decode : Decoder CtorInitializer := fun levels j => do
  let f ← fields? ["member", "init", "written", "in_class_default"] levels j
  return ⟨← f.optional "member" .string, ← f.required "init" Expr.decode,
    ← f.withDefault "written" .bool true, ← f.withDefault "in_class_default" .bool false⟩

def MethodRole.decode : Decoder MethodRole := fun levels j => do
  let (tag, payload) ← variant? levels j
  match tag with
  | "normal" => payload.empty .normal
  | "constructor" => payload.decode fun levels j => do
    let f ← fields? ["kind", "initializers"] levels j
    return .constructor (← f.withDefault "kind" CtorKind.decode .other)
      (← f.withDefault "initializers" CtorInitializer.decode.list [])
  | "destructor" => payload.empty .destructor
  | "conversion" => payload.decode fun levels j => do
    let f ← fields? ["target"] levels j
    return .conversion (← f.required "target" Ty.decode)
  | _ => none

def MethodInfo.decode : Decoder MethodInfo := fun levels j => do
  let f ← fields? ["role", "operator", "is_virtual", "is_pure", "is_static", "is_const",
    "has_override_attr", "overridden_count", "is_defaulted", "is_explicitly_defaulted"] levels j
  let flag (name : String) : Option Bool := f.withDefault name .bool false
  return ⟨← f.withDefault "role" MethodRole.decode .normal,
    ← f.optional "operator" OverloadedOp.decode, ← flag "is_virtual", ← flag "is_pure",
    ← flag "is_static", ← flag "is_const", ← flag "has_override_attr",
    ← f.withDefault "overridden_count" .u32 0, ← flag "is_defaulted",
    ← flag "is_explicitly_defaulted"⟩

def Param.decode : Decoder Param := fun levels j => do
  let f ← fields? ["name", "ty", "default"] levels j
  return ⟨← f.optional "name" .string, ← f.required "ty" Ty.decode,
    ← f.optional "default" Expr.decode⟩

def Function.decode : Decoder Function := fun levels j => do
  let f ← fields? ["return_type", "params", "template_params", "variadic", "is_inline", "body",
    "mangled_name", "method"] levels j
  return ⟨← f.required "return_type" Ty.decode, ← f.withDefault "params" Param.decode.list [],
    ← f.optional "template_params" TemplateParam.decode.list,
    ← f.withDefault "variadic" .bool false,
    ← f.withDefault "is_inline" .bool false, ← f.optional "body" Stmt.decode,
    ← f.optional "mangled_name" .string, ← f.optional "method" MethodInfo.decode⟩

def Enumerator.decode : Decoder Enumerator := fun levels j => do
  let f ← fields? ["name", "value"] levels j
  return ⟨← f.required "name" .string, ← f.required "value" .i128⟩

def Enumeration.decode : Decoder Enumeration := fun levels j => do
  let f ← fields? ["integer_type", "enumerators"] levels j
  return ⟨← f.required "integer_type" Ty.decode,
    ← f.withDefault "enumerators" Enumerator.decode.list []⟩

def StorageClass.decode : Decoder StorageClass := Json.tag
  [("none", .none), ("extern", .external), ("static", .static)]

def Variable.decode : Decoder Variable := fun levels j => do
  let f ← fields? ["ty", "storage", "init", "init_style"] levels j
  return ⟨← f.required "ty" Ty.decode, ← f.withDefault "storage" StorageClass.decode .none,
    ← f.optional "init" Expr.decode, ← f.withDefault "init_style" InitStyle.decode .c⟩

def TokenKind.decode : Decoder TokenKind := Json.tag
  [("identifier", .identifier), ("keyword", .keyword), ("literal", .literal),
   ("punctuation", .punctuation)]

def Token.decode : Decoder DBindings.Token := fun levels j => do
  let f ← fields? ["kind", "text"] levels j
  return ⟨← f.required "kind" TokenKind.decode, ← f.required "text" .string⟩

def MacroDef.decode : Decoder MacroDef := fun levels j => do
  let f ← fields? ["params", "tokens", "header_guard"] levels j
  return ⟨← f.optional "params" Decoder.string.list,
    ← f.withDefault "tokens" Token.decode.list [],
    ← f.withDefault "header_guard" .bool false⟩

/-- What stands in the `kind` of a declaration, waiting for its head. -/
def Decl.decodeKind (decl : Decoder Decl) : Decoder (DeclHead → Decl) := fun levels j => do
  let (tag, payload) ← variant? levels j
  match tag with
  | "namespace" => payload.decode fun levels j => do
    let f ← fields? ["members"] levels j
    let members ← f.withDefault "members" decl.list []
    return (.space · members)
  | "record" => payload.decode fun levels j => do
    let f ← fields? ["tag", "complete", "dependent", "layout", "bases", "fields", "methods",
      "members", "template", "typedef_name"] levels j
    let info : RecordInfo := ⟨← f.required "tag" RecordTag.decode,
      ← f.withDefault "complete" .bool true, ← f.withDefault "dependent" .bool false,
      ← f.optional "layout" Layout.decode, ← f.withDefault "bases" BaseSpec.decode.list [],
      ← f.withDefault "fields" Field.decode.list [],
      ← f.optional "template" RecordTemplate.decode,
      ← f.optional "typedef_name" .string⟩
    let members ← f.withDefault "members" decl.list []
    let methods ← f.withDefault "methods" decl.list []
    return (.record · info members methods)
  | "enum" => payload.decode (Enumeration.decode.map fun enum => (.enumeration · enum))
  | "function" => payload.decode (Function.decode.map fun func => (.function · func))
  | "typedef" => payload.decode fun levels j => do
    let f ← fields? ["underlying"] levels j
    let underlying ← f.required "underlying" Ty.decode
    return (.typedef · underlying)
  | "variable" => payload.decode (Variable.decode.map fun v => (.var · v))
  | "macro" => payload.decode (MacroDef.decode.map fun definition => (.macroDef · definition))
  | _ => none

def Decl.decodeStep (decl : Decoder Decl) : Decoder Decl := fun levels j => do
  let f ← fields? ["id", "name", "context", "loc", "access", "kind"] levels j
  let head : DeclHead := ⟨← f.required "id" .u32, ← f.optional "name" .string,
    ← f.withDefault "context" DeclContext.decode {}, ← f.withDefault "loc" SourceLoc.decode {},
    ← f.withDefault "access" Access.decode .unstated⟩
  return (← f.required "kind" (Decl.decodeKind decl)) head

def Decl.decode : Decoder Decl := Decoder.fix Decl.decodeStep

def SourceFile.decode : Decoder SourceFile := fun levels j => do
  let f ← fields? ["path", "decls"] levels j
  return ⟨← f.required "path" .string, ← f.withDefault "decls" Decl.decode.list []⟩

def TranslationUnit.decode : Decoder TranslationUnit := fun levels j => do
  let f ← fields? ["files"] levels j
  return ⟨← f.withDefault "files" SourceFile.decode.list []⟩

/-- The nesting that a JSON document may have. -/
def Json.maxLevels : Nat := 127

end DBindings
