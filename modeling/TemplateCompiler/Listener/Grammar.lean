import TemplateCompiler.Text.Blank
import TemplateCompiler.Text.Word

/-!
# Kinds of handler values

A handler is written as the path of a method, as a function expression, as a call, or as any other
statement. `isMethodPath` runs an automaton over the characters; a method path may be followed by
one line feed.
-/

namespace TemplateCompiler.Listener

def isNameStart (c : Char) : Bool :=
  c.isAlpha || c == '_' || c == '$'

def isNameChar (c : Char) : Bool :=
  Text.isWord c || c == '$'

/-- Where the automaton stands: before the path, in a name, after a point, after an opening bracket,
in or after a quoted key, in an index, in a name between brackets, after a closing bracket, after
the final line feed, or off the path. -/
inductive PathState where
  | start
  | name
  | point
  | bracket
  | single
  | singleEnd
  | double
  | doubleEnd
  | index
  | variable
  | closed
  | lineEnd
  | off
  deriving DecidableEq, Repr

namespace PathState

/-- What may follow a complete step of a path. -/
def next (c : Char) : PathState :=
  if c == '.' then .point else if c == '[' then .bracket else if c == '\n' then .lineEnd else .off

def step : PathState → Char → PathState
  | .start, c => if isNameStart c then .name else .off
  | .name, c => if isNameChar c then .name else next c
  | .point, c => if isNameStart c then .name else .off
  | .bracket, c =>
    if c == '\'' then .single
    else if c == '"' then .double
    else if Text.isDecimalDigit c then .index
    else if isNameStart c then .variable
    else .off
  | .single, c => if c == '\'' then .singleEnd else .single
  | .singleEnd, c => if c == ']' then .closed else .off
  | .double, c => if c == '"' then .doubleEnd else .double
  | .doubleEnd, c => if c == ']' then .closed else .off
  | .index, c => if Text.isDecimalDigit c then .index else if c == ']' then .closed else .off
  | .variable, c => if isNameChar c then .variable else if c == ']' then .closed else .off
  | .closed, c => next c
  | .lineEnd, _ => .off
  | .off, _ => .off

def accepts : PathState → Bool
  | .name | .closed | .lineEnd => true
  | _ => false

end PathState

/-- Whether the text is the path of a method: `a.b['c'][0]`. -/
def isMethodPath (cs : List Char) : Bool :=
  (cs.foldl PathState.step .start).accepts

/-- Whether the rest of a value, after blanks, begins with an arrow. -/
def startsWithArrow (cs : List Char) : Bool :=
  ['=', '>'].isPrefixOf (cs.dropWhile Text.isBlank)

def startsWithOpening (cs : List Char) : Bool :=
  ['('].isPrefixOf (cs.dropWhile Text.isBlank)

/-- Whether the text begins with the parameters of an arrow function and its arrow. -/
def isArrowFunction (cs : List Char) : Bool :=
  (!(cs.takeWhile isNameChar).isEmpty && startsWithArrow (cs.dropWhile isNameChar)) ||
    match cs with
    | '(' :: rest =>
      match rest.dropWhile (· != ')') with
      | _ :: rest => startsWithArrow rest
      | [] => false
    | _ => false

/-- Whether what follows the word `function` is a parameter list, after a name or without one. -/
def startsParameters (cs : List Char) : Bool :=
  startsWithOpening cs ||
    match cs with
    | c :: _ =>
      let named := cs.dropWhile Text.isBlank
      Text.isBlank c && !(named.takeWhile isNameChar).isEmpty &&
        startsWithOpening (named.dropWhile isNameChar)
    | [] => false

/-- Whether the text begins with a function expression. -/
def isFunctionExpression (cs : List Char) : Bool :=
  isArrowFunction cs ||
    match "function".toList.isPrefixOf? cs with
    | some rest => startsParameters rest
    | none => false

/-- What is left of a value after a call's arguments, if they end it: a line feed or nothing. -/
def afterCall? (cs : List Char) : Option (List Char) :=
  match cs.dropWhile (· != ')') with
  | _ :: rest =>
    let rest := rest.dropWhile (· == ';')
    if rest = [] ∨ rest = ['\n'] then some rest else none
  | [] => none

/-- The text without the first run of arguments that ends it. -/
def dropCall : List Char → List Char
  | [] => []
  | c :: rest =>
    if c = '(' then
      match afterCall? rest with
      | some rest => rest
      | none => c :: dropCall rest
    else c :: dropCall rest

/-- Whether the text is a call of a method. -/
def isInvocation (cs : List Char) : Bool :=
  isMethodPath (dropCall cs)

/-- A number as it stands at the beginning of a text: the blanks before it, its sign, and its
digits. -/
structure Number where
  blanks : List Char
  negative : Bool
  digits : List Char
  deriving DecidableEq, Repr

/-- The number at the beginning of a text, after blanks. -/
def leadingNumber? (cs : List Char) : Option Number :=
  let signed : Bool × List Char := match cs.dropWhile Text.isBlank with
    | '-' :: rest => (true, rest)
    | '+' :: rest => (false, rest)
    | rest => (false, rest)
  match signed.2.takeWhile Text.isDecimalDigit with
  | [] => none
  | digits => some ⟨cs.takeWhile Text.isBlank, signed.1, digits⟩

/-- The value of a number. One that is too long, or that follows an information separator, cannot be
read. -/
def Number.value? (n : Number) : Option Int :=
  if n.blanks.any Text.isInformationSeparator || !Text.DigitLimit.standard.allows n.digits.length then
    none
  else
    let v : Int := Text.digitsValue n.digits
    some (if n.negative then -v else v)

end TemplateCompiler.Listener
