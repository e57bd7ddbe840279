import TernLang.Syntax.Render
import TernLang.TypeName.Parser

/-! Reading expressions by operator precedence and statements by their first token. Node numbers
have no bound: what follows speaks of arenas whose nodes 32 bits can number. -/
namespace TernLang

/-- Complete an expression node and number it. -/
def Parse.node (make : Mark → Expr) (line : Nat) : Parse Expr := do
  let s ← get
  set { s with nodes := s.nodes + 1 }
  return make ⟨s.nodes, line⟩

/-- The value of a numeric token. A signed literal has to fit its type once its sign is
known; negating an unsigned one wraps. -/
def Literal.ofToken? (negated : Bool) : Token.Kind → Option Literal
  | .integer kind magnitude =>
    let val : Int := if negated then -magnitude else magnitude
    if kind.isSigned then
      if kind.least ≤ val ∧ val ≤ kind.greatest then some (.integer kind val) else none
    else some (.integer kind (val % twoPow kind.bits))
  | .half val => some (.half (if negated then val.neg else val))
  | .float val => some (.float (if negated then val.neg else val))
  | .double val => some (.double (if negated then val.neg else val))
  | _ => none

namespace Parse

/-- The numeric literal at the cursor. -/
def numeric (negated : Bool) : Parse Literal := do
  let kind ← peek
  match Literal.ofToken? negated kind with
  | some val => return val
  | none => failLex (.outOfRange ((if negated then "-" else "") ++ kind.text))

/-- Parameter types between parentheses, after the opening one. -/
def readTypes : (fuel : Nat) → Parse (List TypeName)
  | 0 => exhausted
  | fuel + 1 => do
    let ty ← typeName
    if ← accept .comma then return ty :: (← readTypes fuel) else return [ty]

/-- `func &name`, with parameter types if the name alone is not enough. -/
def readFunction (line : Nat) : Parse Expr := do
  expect (.operator .ampersand)
  let name ← word
  if ← accept .leftParen then
    let params ← if ← check .rightParen then pure [] else readTypes (← budget)
    expect .rightParen
    node (.function · name (some params)) line
  else node (.function · name none) line

/-- A literal count of `new` is fixed if no arithmetic follows it. -/
def fixedCount? : Parse (Option Nat) := do
  let cursor ← cursor
  match cursor.current.kind with
  | .integer kind magnitude =>
    let counts := kind = .int || kind = .uint || kind = .long || kind = .ulong
    return if counts && (cursor.peekAhead 1).precedence = 0 then some magnitude else none
  | _ => return none

mutual

def readExpr : (fuel : Nat) → Parse Expr
  | 0 => exhausted
  | fuel + 1 => do
    let left ← readPrimary fuel
    readOperators fuel 0 left

/-- Take every operator that binds at least as strongly as `floor`. -/
def readOperators : (fuel : Nat) → (floor : Nat) → (left : Expr) → Parse Expr
  | 0, _, _ => exhausted
  | fuel + 1, floor, left => do
    let kind ← peek
    let precedence := kind.precedence
    if precedence = 0 ∨ precedence < floor then return left
    let line ← line
    match kind with
    | .dot => do
      advance
      let field ← word
      if ← check .leftParen then
        let args ← readArguments fuel
        readOperators fuel floor (← node (.method · left field args) line)
      else readOperators fuel floor (← node (.member · left field) line)
    | .leftBracket => do
      advance
      let idx ← readExpr fuel
      expect .rightBracket
      readOperators fuel floor (← node (.index · left idx) line)
    | .word name => do
      advance
      let right ← readRight fuel precedence
      readOperators fuel floor (← node (.call · none name [left, right]) line)
    | .operator operator => match BinaryOp.ofOperator? operator with
      | some op => do
        advance
        let right ← readRight fuel precedence
        readOperators fuel floor (← node (.binary · op left right) line)
      | none => unexpected .binaryOperator
    | _ => return left

/-- The right operand of an operator: what binds more strongly belongs to it. -/
def readRight : (fuel : Nat) → (precedence : Nat) → Parse Expr
  | 0, _ => exhausted
  | fuel + 1, precedence => do
    let right ← readPrimary fuel
    readStronger fuel precedence right

def readStronger : (fuel : Nat) → (precedence : Nat) → (right : Expr) → Parse Expr
  | 0, _, _ => exhausted
  | fuel + 1, precedence, right => do
    if (← peek).precedence > precedence then
      readStronger fuel precedence (← readOperators fuel (precedence + 1) right)
    else return right

/-- The operand of a sign in front: a primary with its member and index accesses. -/
def readOperand : (fuel : Nat) → Parse Expr
  | 0 => exhausted
  | fuel + 1 => do
    let operand ← readPrimary fuel
    readOperators fuel 5 operand

def readPrimary : (fuel : Nat) → Parse Expr
  | 0 => exhausted
  | fuel + 1 => do
    let line ← line
    match ← peek with
    | .bool val => do
      advance
      node (.literal · (.bool val)) line
    | .integer .. | .half _ | .float _ | .double _ => do
      let val ← numeric false
      advance
      node (.literal · val) line
    | .string text => do
      advance
      node (.literal · (.string text)) line
    | .keyword .null => do
      advance
      node (.literal · .null) line
    | .operator .minus =>
      if ((← cursor).peekAhead 1).isNumeric then do
        advance
        let val ← numeric true
        advance
        node (.literal · val) line
      else unexpected .expression
    | .leftParen => do
      advance
      skipNewlines
      let inner ← readExpr fuel
      skipNewlines
      expect .rightParen
      return inner
    | .word name => do
      advance
      if ← check .leftParen then
        let args ← readArguments fuel
        node (.call · none name args) line
      else if ← accept .doubleColon then
        let inner ← word
        if ← check .leftParen then
          let args ← readArguments fuel
          node (.call · (some name) inner args) line
        else node (.qualified · name inner) line
      else node (.name · name) line
    | .operator .ampersand => do
      advance
      let val ← readOperand fuel
      node (.addressOf · val) line
    | .operator .star => do
      advance
      let val ← readOperand fuel
      node (.load · val) line
    | .operator .not => do
      advance
      let val ← readOperand fuel
      node (.not · val) line
    | .keyword .cast => do
      advance
      let tgt ← typeName
      let val ← readOperand fuel
      node (.cast · tgt val) line
    | .keyword .functionValue => do
      advance
      readFunction line
    | .keyword .sizeOf => do
      advance
      let ty ← typeName
      node (.sizeOf · ty) line
    | .keyword .allocate => do
      advance
      let ty ← typeName
      if ← accept (.operator .star) then
        match ← fixedCount? with
        | some count => do
          advance
          node (.allocate · ty (some count)) line
        | none => do
          let count ← readOperand fuel
          node (.allocateMany · ty count) line
      else node (.allocate · ty none) line
    | .leftBrace => do
      advance
      skipNewlines
      let items ← if ← check .rightBrace then pure [] else readItems fuel
      expect .rightBrace
      if items.isEmpty then fail .emptyArray
      node (.array · items) line
    | .dollar => do
      advance
      let name ← word
      node (.constant · name) line
    | _ => unexpected .expression

def readArguments : (fuel : Nat) → Parse (List Expr)
  | 0 => exhausted
  | fuel + 1 => do
    expect .leftParen
    skipNewlines
    let args ← if ← check .rightParen then pure [] else readItems fuel
    expect .rightParen
    return args

/-- At least one expression, separated by commas; lines may end between them. -/
def readItems : (fuel : Nat) → Parse (List Expr)
  | 0 => exhausted
  | fuel + 1 => do
    skipNewlines
    let item ← readExpr fuel
    skipNewlines
    if ← accept .comma then return item :: (← readItems fuel) else return [item]

end

/-- Read one expression. -/
def expression : Parse Expr := do readExpr (← budget)

/-- A name with the start of a type after it declares a variable. -/
def startsVariable (cursor : Cursor) : Bool :=
  match cursor.peekAhead 1 with
  | .word _ | .operator .star | .keyword .function | .keyword .stdcall => true
  | _ => cursor.sliceAhead 1

/-- `name T` or `name T = value`. -/
def readVariable (line : Nat) : Parse Stmt := do
  let name ← word
  let ty ← typeName
  if ← accept (.operator .assign) then
    let val ← expression
    lineEnd
    return .define line name ty val
  else
    lineEnd
    return .declare line name ty

/-- An assignment, or a call for its effect. -/
def readEffect (line : Nat) : Parse Stmt := do
  let expr ← expression
  if ← accept (.operator .assign) then
    if ! expr.isMutable then fail (.notAssignable expr.text)
    let val ← expression
    lineEnd
    return .assign line expr val
  else match expr with
    | .call .. => do
      lineEnd
      return .call line expr
    | .method .. => do
      lineEnd
      return .method line expr
    | _ => fail (.notStatement expr.text)

def readLeave (line : Nat) : Parse Stmt := do
  advance
  match ← peek with
  | .newline | .rightBrace | .eof => do
    lineEnd
    return .leave line none
  | _ => do
    let val ← expression
    lineEnd
    return .leave line (some val)

mutual

def readBlock : (fuel : Nat) → Parse (List Stmt)
  | 0 => exhausted
  | fuel + 1 => do
    expect .leftBrace
    readBody fuel

/-- Statements up to the closing brace. -/
def readBody : (fuel : Nat) → Parse (List Stmt)
  | 0 => exhausted
  | fuel + 1 => do
    skipNewlines
    if ← accept .rightBrace then return []
    if ← check .eof then unexpected (.token .rightBrace)
    let statement ← readStmt fuel
    return statement :: (← readBody fuel)

def readStmt : (fuel : Nat) → Parse Stmt
  | 0 => exhausted
  | fuel + 1 => do
    let line ← line
    match ← peek with
    | .keyword .returning => readLeave line
    | .keyword .ifTrue => readBranch fuel .whenTrue
    | .keyword .ifFalse => readBranch fuel .whenFalse
    | .keyword .whileTrue => readLoop fuel .whenTrue
    | .keyword .whileFalse => readLoop fuel .whenFalse
    | .keyword .delete => do
      advance
      let val ← expression
      lineEnd
      return .delete line val
    | .word _ => if startsVariable (← cursor) then readVariable line else readEffect line
    | _ => readEffect line

def readLoop : (fuel : Nat) → Polarity → Parse Stmt
  | 0, _ => exhausted
  | fuel + 1, polarity => do
    let line ← line
    advance
    let cond ← expression
    let body ← readBlock fuel
    lineEnd
    return .loop line polarity cond body

/-- A conditional; an `else` part may come after blank lines and may be a conditional itself. -/
def readBranch : (fuel : Nat) → Polarity → Parse Stmt
  | 0, _ => exhausted
  | fuel + 1, polarity => do
    let line ← line
    advance
    let cond ← expression
    let body ← readBlock fuel
    if (← cursor).skipNewlines.current.kind = .keyword .otherwise then
      skipNewlines
      expectKeyword .otherwise
      let otherwise ← readElse fuel
      return .branchElse line polarity cond body otherwise
    else
      lineEnd
      return .branch line polarity cond body

def readElse : (fuel : Nat) → Parse (List Stmt)
  | 0 => exhausted
  | fuel + 1 => do
    match ← peek with
    | .keyword .ifTrue => return [← readBranch fuel .whenTrue]
    | .keyword .ifFalse => return [← readBranch fuel .whenFalse]
    | _ => do
      let otherwise ← readBlock fuel
      lineEnd
      return otherwise

end

/-- Read a block of statements between braces. -/
def block : Parse (List Stmt) := do readBlock (← budget)

end Parse
end TernLang
