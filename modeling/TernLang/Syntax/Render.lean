import TernLang.Syntax

/-! Source text of expressions and statements. Binary operations are written in
parentheses, so the text shows the tree. -/
namespace TernLang

def Literal.text : Literal → String
  | bool val => if val then "true" else "false"
  | integer kind val => toString val ++ kind.suffix
  | half val => val.text ++ "h"
  | float val => val.text
  | double val => val.text ++ "d"
  | string text => "\"" ++ text ++ "\""
  | null => "null"

namespace Expr

mutual

def text : Expr → String
  | literal _ val => val.text
  | name _ text => text
  | addressOf _ val => "&" ++ val.text
  | load _ val => "*" ++ val.text
  | index _ val off => val.text ++ "[" ++ off.text ++ "]"
  | member _ val field => val.text ++ "." ++ field
  | call _ scope callee args =>
    (match scope with
      | some scope => scope ++ "::"
      | none => "") ++ callee ++ "(" ++ textList args ++ ")"
  | method _ val callee args => val.text ++ "." ++ callee ++ "(" ++ textList args ++ ")"
  | not _ val => "!" ++ val.text
  | cast _ tgt val => "cast " ++ tgt.text ++ " " ++ val.text
  | function _ callee params => "func &" ++ callee ++
    (match params with
      | some params => "(" ++ TypeName.textList params ++ ")"
      | none => "")
  | sizeOf _ ty => "sizeof " ++ ty.text
  | allocate _ ty count => "new " ++ ty.text ++
    (match count with
      | some count => " * " ++ toString count
      | none => "")
  | allocateMany _ ty count => "new " ++ ty.text ++ " * " ++ count.text
  | array _ items => "\x7b" ++ textList items ++ "\x7d"
  | constant _ label => "$" ++ label
  | qualified _ scope label => scope ++ "::" ++ label
  | binary _ op left right => "(" ++ left.text ++ " " ++ op.text ++ " " ++ right.text ++ ")"

/-- Expressions separated by commas. -/
def textList : List Expr → String
  | [] => ""
  | [item] => item.text
  | item :: items => item.text ++ ", " ++ textList items

end

end Expr

/-- The keyword of a conditional. -/
def Polarity.branchWord : Polarity → String
  | whenTrue => "if"
  | whenFalse => "unless"

/-- The keyword of a loop. -/
def Polarity.loopWord : Polarity → String
  | whenTrue => "while"
  | whenFalse => "until"

namespace Stmt

/-- Four spaces a level. -/
def indentation (level : Nat) : String := String.ofList (List.replicate (4 * level) ' ')

/-- A lone conditional in an `else` part continues the chain. -/
def chains : List Stmt → Bool
  | [branch ..] | [branchElse ..] => true
  | _ => false

mutual

/-- A statement without its own indentation; blocks in it are one level deeper. -/
def text (level : Nat) : Stmt → String
  | declare _ name ty => name ++ " " ++ ty.text
  | define _ name ty val => name ++ " " ++ ty.text ++ " = " ++ val.text
  | leave _ (some val) => "return " ++ val.text
  | leave _ none => "return"
  | assign _ tgt val => tgt.text ++ " = " ++ val.text
  | call _ val | method _ val => val.text
  | branch _ polarity cond body =>
    polarity.branchWord ++ " " ++ cond.text ++ " \x7b\n" ++ textList (level + 1) body ++
      indentation level ++ "\x7d"
  | loop _ polarity cond body =>
    polarity.loopWord ++ " " ++ cond.text ++ " \x7b\n" ++ textList (level + 1) body ++
      indentation level ++ "\x7d"
  | branchElse _ polarity cond body otherwise =>
    polarity.branchWord ++ " " ++ cond.text ++ " \x7b\n" ++ textList (level + 1) body ++
      indentation level ++ "\x7d else " ++
      (if chains otherwise then textChain level otherwise
        else "\x7b\n" ++ textList (level + 1) otherwise ++ indentation level ++ "\x7d")
  | delete _ val => "delete " ++ val.text

/-- One statement a line. -/
def textList (level : Nat) : List Stmt → String
  | [] => ""
  | s :: ss => indentation level ++ s.text level ++ "\n" ++ textList level ss

/-- The first statement alone. -/
def textChain (level : Nat) : List Stmt → String
  | [] => ""
  | s :: _ => s.text level

end

end Stmt
end TernLang
