/-!
# Coloured output

Escape sequences around pieces of text, and their removal. Every function takes whether colours are
on; with colours off, text stays as it is.
-/

namespace TemplateCompiler

inductive Style where
  | reset
  | bold
  | dim
  | yellow
  | cyan
  | brightRed
  | brightYellow
  deriving DecidableEq, Repr

namespace Style

def name : Style → String
  | .reset => "reset"
  | .bold => "bold"
  | .dim => "dim"
  | .yellow => "yellow"
  | .cyan => "cyan"
  | .brightRed => "bright_red"
  | .brightYellow => "bright_yellow"

def all : List Style :=
  [.reset, .bold, .dim, .yellow, .cyan, .brightRed, .brightYellow]

def ofName? (n : String) : Option Style :=
  all.find? fun s => s.name == n

/-- The escape sequence that switches a style on. -/
def sequence : Style → String
  | .reset => "\x1b[0m"
  | .bold => "\x1b[1m"
  | .dim => "\x1b[2m"
  | .yellow => "\x1b[33m"
  | .cyan => "\x1b[36m"
  | .brightRed => "\x1b[91m"
  | .brightYellow => "\x1b[93m"

/-- Text between the given styles and a reset. -/
def paint (color : Bool) (styles : List Style) (text : String) : String :=
  if color && !styles.isEmpty then
    String.join (styles.map sequence) ++ text ++ sequence .reset
  else text

/-- As `paint`, with styles given by name. An unknown name is refused, but only where colours are
written at all. -/
def paintNamed (color : Bool) (names : List String) (text : String) : Option String :=
  if color then (names.mapM ofName?).map fun styles => paint color styles text else some text

/-- Whether to write colours: a non-empty wish for them wins over a non-empty wish against them,
and without either a terminal gets colours. -/
def wanted (force forbid : Option String) (terminal : Bool) : Bool :=
  if force.getD "" != "" then true
  else if forbid.getD "" != "" then false
  else terminal

/-! ## Removing sequences -/

/-- How many characters of an escape sequence follow the escape character, if one stands there: a
single letter, or a bracket with parameters, intermediates and a final character. -/
def sequenceLength? : List Char → Option Nat
  | '[' :: rest =>
    let params := rest.takeWhile fun c => '0' ≤ c && c ≤ '?'
    let rest := rest.dropWhile fun c => '0' ≤ c && c ≤ '?'
    let middle := rest.takeWhile fun c => ' ' ≤ c && c ≤ '/'
    match rest.dropWhile fun c => ' ' ≤ c && c ≤ '/' with
    | c :: _ => if '@' ≤ c ∧ c ≤ '~' then some (params.length + middle.length + 2) else none
    | [] => none
  | c :: _ => if '@' ≤ c ∧ c ≤ '_' then some 1 else none
  | [] => none

/-- Removes the escape sequences from a text, after skipping its first `skip` characters. -/
def stripChars : Nat → List Char → List Char
  | _, [] => []
  | skip + 1, _ :: rest => stripChars skip rest
  | 0, c :: rest =>
    if c = '\x1b' then
      match sequenceLength? rest with
      | some n => stripChars n rest
      | none => c :: stripChars 0 rest
    else c :: stripChars 0 rest

def strip (text : String) : String :=
  String.ofList (stripChars 0 text.toList)

end Style

end TemplateCompiler
