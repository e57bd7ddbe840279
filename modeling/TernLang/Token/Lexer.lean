import TernLang.Error

/-! Reading text as tokens, from left to right. Blanks and comments are skipped, line feeds
are tokens of their own, and a text ends in an end mark. -/
namespace TernLang.Token

/-- Spaces, tabs and carriage returns separate tokens. -/
def isBlank (c : Char) : Bool := c == ' ' || c == '\t' || c == '\r'

def isWordStart (c : Char) : Bool := c.isAlpha || c == '_'

def isWordPart (c : Char) : Bool := c.isAlphanum || c == '_'

/-- A token, or nothing for a comment, with the number of characters after its first and the
position behind it. -/
structure Lexeme where
  kind : Option Kind
  extra : Nat
  position : Position

/-- A token of one character. -/
def Lexeme.single (kind : Kind) (pos : Position) : Lexeme := ⟨some kind, 0, pos⟩

/-- A two-character token if the second character follows, else the one-character token. -/
def Lexeme.pair (next : Char) (long short : Kind) (pos : Position) : List Char → Lexeme
  | c :: _ => if c = next then ⟨some long, 1, pos.advance⟩ else .single short pos
  | [] => .single short pos

/-- The characters in front that have a property, and the position behind them. No line feed has it.
-/
def readWhile (holds : Char → Bool) (pos : Position) : List Char → List Char × Position
  | [] => ([], pos)
  | c :: rest =>
    if holds c then
      let (taken, behind) := readWhile holds pos.advance rest
      (c :: taken, behind)
    else ([], pos)

/-- A word is a boolean, a word operator, a keyword or a name. -/
def wordKind (text : String) : Kind :=
  if text = "true" then .bool true
  else if text = "false" then .bool false
  else if text = "and" then .operator .and
  else if text = "or" then .operator .or
  else match Keyword.ofText? text with
    | some keyword => .keyword keyword
    | none => .word text

/-- The number written by decimal digits. -/
def decimal (digits : List Char) : Nat :=
  digits.foldl (fun val c => 10 * val + (c.toNat - '0'.toNat)) 0

/-- The integer type a suffix selects. -/
def integerKind? : String → Option IntKind
  | "" | "si" => some .int
  | "sb" => some .byte
  | "ub" => some .ubyte
  | "ss" => some .short
  | "us" => some .ushort
  | "ui" => some .uint
  | "sl" => some .long
  | "ul" => some .ulong
  | _ => none

def integerLiteral (digits : List Char) (suffix : String) : Except LexError Kind :=
  match integerKind? suffix with
  | none => .error (.unknownIntegerSuffix suffix)
  | some kind =>
    let magnitude := decimal digits
    if magnitude ≤ kind.greatestMagnitude then .ok (.integer kind magnitude)
    else .error (.outOfRange (String.ofList digits ++ suffix))

/-- Without a suffix a literal with a point is a `float`. -/
def floatLiteral (whole fraction : List Char) (suffix : String) : Except LexError Kind :=
  let val := Binary64.ofDecimal (decimal (whole ++ fraction)) fraction.length
  match suffix with
  | "" | "f" => .ok (.float val.narrow)
  | "h" => .ok (.half val.narrow)
  | "d" => .ok (.double val)
  | other => .error (.unknownFloatSuffix other)

/-- The digits after a point that has at least one. -/
def fractionPart (pos : Position) : List Char → List Char × Position
  | '.' :: next :: rest =>
    if next.isDigit then readWhile Char.isDigit pos.advance (next :: rest) else ([], pos)
  | _ => ([], pos)

def numberLexeme (pos : Position) (first : Char) (rest : List Char) : Except LexError Lexeme :=
  let (digits, pos) := readWhile Char.isDigit pos rest
  let afterDigits := rest.drop digits.length
  let (fraction, pos) := fractionPart pos afterDigits
  let pointed := if fraction.isEmpty then 0 else fraction.length + 1
  let (letters, pos) := readWhile Char.isAlpha pos (afterDigits.drop pointed)
  let suffix := String.ofList letters
  let extra := digits.length + pointed + letters.length
  let isFloat := ! fraction.isEmpty || suffix == "h" || suffix == "f" || suffix == "d"
  let kind := if isFloat then floatLiteral (first :: digits) fraction suffix
    else integerLiteral (first :: digits) suffix
  kind.map fun kind => ⟨some kind, extra, pos⟩

/-- Length of the rest of a block comment, its end included, and the position behind it. -/
def readComment (pos : Position) : List Char → Option (Nat × Position)
  | '*' :: '/' :: _ => some (2, pos.advance.advance)
  | c :: rest =>
    let next := if c = '\n' then pos.advance.feed else pos.advance
    (readComment next rest).map fun (length, behind) => (length + 1, behind)
  | [] => none

/-- Text up to the closing quote, and the position in front of the quote. -/
def readString (pos : Position) : List Char → List Char × Position
  | [] => ([], pos)
  | c :: rest =>
    if c = '"' then ([], pos)
    else
      let next := if c = '\n' then pos.advance.feed else pos.advance
      let (text, behind) := readString next rest
      (c :: text, behind)

/-- Text up to the closing quote, taken as it stands. -/
def stringLexeme (pos : Position) (rest : List Char) : Except LexError Lexeme :=
  let (text, behind) := readString pos rest
  if text.length < rest.length then
    .ok ⟨some (.string (String.ofList text)), text.length + 1, behind.advance⟩
  else .error .unterminatedString

def slashLexeme (pos : Position) : List Char → Except LexError Lexeme
  | '/' :: rest =>
    let (text, behind) := readWhile (· != '\n') pos.advance rest
    .ok ⟨none, 1 + text.length, behind⟩
  | '*' :: rest => match readComment pos.advance rest with
    | some (length, behind) => .ok ⟨none, 1 + length, behind⟩
    | none => .error .unterminatedComment
  | _ => .ok (.single (.operator .slash) pos)

def dotLexeme (pos : Position) : List Char → Lexeme
  | '.' :: '.' :: _ => ⟨some .ellipsis, 2, pos.advance.advance⟩
  | _ => .single .dot pos

def wordLexeme (pos : Position) (first : Char) (rest : List Char) : Lexeme :=
  let (part, behind) := readWhile isWordPart pos rest
  ⟨some (wordKind (String.ofList (first :: part))), part.length, behind⟩

/-- The token that starts with a character that is no blank; the position is behind that character.
-/
def lexeme (pos : Position) (first : Char) (rest : List Char) : Except LexError Lexeme :=
  match first with
  | '(' => .ok (.single .leftParen pos)
  | ')' => .ok (.single .rightParen pos)
  | '\x7b' => .ok (.single .leftBrace pos)
  | '\x7d' => .ok (.single .rightBrace pos)
  | '[' => .ok (.single .leftBracket pos)
  | ']' => .ok (.single .rightBracket pos)
  | ',' => .ok (.single .comma pos)
  | '$' => .ok (.single .dollar pos)
  | '+' => .ok (.single (.operator .plus) pos)
  | '*' => .ok (.single (.operator .star) pos)
  | '%' => .ok (.single (.operator .percent) pos)
  | '&' => .ok (.single (.operator .ampersand) pos)
  | '.' => .ok (dotLexeme pos rest)
  | ':' => .ok (.pair ':' .doubleColon .colon pos rest)
  | '-' => .ok (.pair '>' .arrow (.operator .minus) pos rest)
  | '=' => .ok (.pair '=' (.operator .equal) (.operator .assign) pos rest)
  | '!' => .ok (.pair '=' (.operator .notEqual) (.operator .not) pos rest)
  | '<' => .ok (.pair '=' (.operator .lessEqual) (.operator .less) pos rest)
  | '>' => .ok (.pair '=' (.operator .greaterEqual) (.operator .greater) pos rest)
  | '/' => slashLexeme pos rest
  | '"' => stringLexeme pos rest
  | '\n' => .ok (.single .newline pos.feed)
  | c =>
    if c.isDigit then numberLexeme pos c rest
    else if isWordStart c then .ok (wordLexeme pos c rest)
    else .error (.unrecognized c)

/-- Scan from a position; `skip` more characters belong to the token before, which the position is
behind already. -/
def scan (file : Path) : (skip : Nat) → Position → List Char → Except Error (List Token)
  | _, pos, [] => .ok [⟨.eof, pos⟩]
  | skip + 1, pos, _ :: rest => scan file skip pos rest
  | 0, pos, c :: rest =>
    if isBlank c then scan file 0 pos.advance rest
    else match lexeme pos.advance c rest with
      | .error cause => .error (.lex ⟨file, pos.line⟩ cause)
      | .ok found => do
        let tokens ← scan file found.extra found.position rest
        match found.kind with
        | some kind => .ok (⟨kind, pos⟩ :: tokens)
        | none => .ok tokens

/-- The tokens of a text, the end mark last. -/
def tokenize (file : Path) (src : String) : Except Error (List Token) :=
  scan file 0 {} src.toList

end TernLang.Token
