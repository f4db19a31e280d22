import PackageAtlas.Tree.Basic

/-!
Short texts of expressions, for reports. Bodies and the contents of types and literals are left out.
-/

set_option autoImplicit false
set_option relaxedAutoImplicit false

namespace PackageAtlas

def UnaryOp.text : UnaryOp → String
  | neg => "-"
  | plus => "+"
  | not => "!"
  | bitNot => "^"
  | addr => "&"

def BinaryOp.text : BinaryOp → String
  | logOr => "||"
  | logAnd => "&&"
  | eq => "=="
  | ne => "!="
  | lt => "<"
  | le => "<="
  | gt => ">"
  | ge => ">="
  | add => "+"
  | sub => "-"
  | or => "|"
  | xor => "^"
  | mul => "*"
  | div => "/"
  | rem => "%"
  | shl => "<<"
  | shr => ">>"
  | and => "&"
  | andNot => "&^"

namespace Expr

mutual

def text : Expr → String
  | .ident i => i.name
  | .literal l => l.text
  | .selector _ operand selected => text operand ++ "." ++ selected.name
  | .call _ callee args => text callee ++ "(" ++ ", ".intercalate (texts args) ++ ")"
  | .star _ operand => "*" ++ text operand
  | .unary _ op operand => op.text ++ text operand
  | .binary _ op left right => text left ++ " " ++ op.text ++ " " ++ text right
  | .paren _ inner => "(" ++ text inner ++ ")"
  | .typeAssert _ operand (some type) => text operand ++ ".(" ++ text type ++ ")"
  | .typeAssert _ operand none => text operand ++ ".(type)"
  | .index _ operand key => text operand ++ "[" ++ text key ++ "]"
  | .composite _ type _ => text type ++ "\x7b...\x7d"
  | .keyValue _ key value => text key ++ ": " ++ text value
  | .funcLit .. => "func literal"
  | .arrayType _ (some length) element => "[" ++ text length ++ "]" ++ text element
  | .arrayType _ none element => "[]" ++ text element
  | .mapType _ key value => "map[" ++ text key ++ "]" ++ text value
  | .structType .. => "struct\x7b...\x7d"
  | .interfaceType .. => "interface\x7b...\x7d"
  | .funcType _ => "func(...)"

def texts : List Expr → List String
  | [] => []
  | e :: rest => text e :: texts rest

end

end Expr

end PackageAtlas
