import GraphqlClient.Document.Basic
import GraphqlClient.Number.Decimal
import GraphqlClient.Text.Blank
import GraphqlClient.Text.Lines

/-!
# Printing executable documents

Each definition is printed in one layout: two blanks of indentation per level, one selection a
line, a newline at the end. Strings with newlines become blocks, which take the indentation of the
field they stand in.
-/

namespace GraphqlClient

/-- Blanks for a number of columns. -/
def blanks (n : Nat) : List Char := List.replicate n ' '

namespace Value

/-- Put a backslash before each triple quote. -/
def escapeTriple : List Char → List Char
  | '"' :: '"' :: '"' :: rest => '\\' :: '"' :: '"' :: '"' :: escapeTriple rest
  | c :: rest => c :: escapeTriple rest
  | [] => []

/-- Whether a string is printed as a block. -/
def isBlock (text : List Char) : Bool :=
  text.contains '\n' &&
    text.all fun c => c = '\n' || c = '\r' || c = '\t' || (0x20 ≤ c.toNat && c.toNat ≤ 0xFFFF)

/-- A row of a block, which ends in a newline. -/
def printRow (indent : Nat) (row : List Char) : List Char :=
  if row.all Text.isBlank then ['\n'] else blanks (indent + 2) ++ escapeTriple row ++ ['\n']

/-- A string as a block whose last line is indented by `indent`. -/
def printBlock (indent : Nat) (text : List Char) : List Char :=
  ['"', '"', '"', '\n'] ++ (Text.rows text).flatMap (printRow indent) ++ blanks indent ++ ['"', '"', '"']

/-- A character between quotes; one that is not printed as it is has at least four decimal digits. -/
def printChar (c : Char) : List Char :=
  match c with
  | '\r' => ['\\', 'r']
  | '\n' => ['\\', 'n']
  | '\t' => ['\\', 't']
  | '"' => ['\\', '"']
  | '\\' => ['\\', '\\']
  | c =>
    if 0x20 ≤ c.toNat && c.toNat ≤ 0xFFFF then [c]
    else
      let digits := Nat.toDigits 10 c.toNat
      ['\\', 'u'] ++ List.replicate (4 - digits.length) '0' ++ digits

/-- A string, as a block or between quotes. -/
def printString (indent : Nat) (text : String) : String :=
  String.ofList <|
    if isBlock text.toList then printBlock indent text.toList
    else '"' :: (text.toList.flatMap printChar ++ ['"'])

mutual

/-- A value; `indent` is the indentation of the line it stands in. -/
def print (indent : Nat) : Value → String
  | .variable name => "$" ++ name
  | .int value => toString value
  | .float value => value.positional
  | .string value => printString indent value
  | .boolean true => "true"
  | .boolean false => "false"
  | .null => "null"
  | .enum name => name
  | .list items => "[" ++ ", ".intercalate (printItems indent items) ++ "]"
  | .object fields => "\x7b" ++ ", ".intercalate (printFields indent fields) ++ "\x7d"

/-- The values of a list. -/
def printItems (indent : Nat) : List Value → List String
  | [] => []
  | value :: values => value.print indent :: printItems indent values

/-- Fields or arguments: names, colons and values. -/
def printFields (indent : Nat) : List (String × Value) → List String
  | [] => []
  | (name, value) :: fields => (name ++ ": " ++ value.print indent) :: printFields indent fields

end

end Value

/-- A type. -/
def TypeRef.print : TypeRef → String
  | .named name => name
  | .list item => "[" ++ item.print ++ "]"
  | .nonNull type => type.print ++ "!"

/-- Arguments in parentheses, if there are any. -/
def printArguments (indent : Nat) (arguments : List (String × Value)) : String :=
  if arguments.isEmpty then ""
  else "(" ++ ", ".intercalate (Value.printFields indent arguments) ++ ")"

/-- Directives, each after a blank. -/
def printDirectives (indent : Nat) (directives : List Directive) : String :=
  String.join <| directives.map fun d => " @" ++ d.name ++ printArguments indent d.arguments

/-- A variable's name, type and default. -/
def VariableDefinition.print (v : VariableDefinition) : String :=
  "$" ++ v.name ++ ": " ++ v.type.print ++
    match v.default with
    | none => ""
    | some value => " = " ++ value.print 0

/-- Variables in parentheses, if there are any. -/
def printVariables (separator : String) (definitions : List VariableDefinition) : String :=
  if definitions.isEmpty then ""
  else "(" ++ separator.intercalate (definitions.map VariableDefinition.print) ++ ")"

/-- A line: the indentation, a text and a newline. -/
def printLine (indent : Nat) (text : String) : String :=
  String.ofList (blanks indent) ++ text ++ "\n"

/-- What stands before the name of a field. -/
def printAlias : Option String → String
  | none => ""
  | some name => name ++ ": "

/-- The type condition of an inline fragment. -/
def printCondition : Option String → String
  | none => ""
  | some name => " on " ++ name

mutual

/-- A selection on lines of its own. -/
def Selection.print (indent : Nat) : Selection → String
  | .field aliasName name arguments directives selections =>
    let head :=
      printAlias aliasName ++ name ++ printArguments indent arguments ++ printDirectives indent directives
    if selections.isEmpty then printLine indent head
    else
      printLine indent (head ++ " \x7b") ++ printSelections (indent + 2) selections ++
        printLine indent "\x7d"
  | .spread fragment directives =>
    printLine indent ("..." ++ fragment ++ printDirectives indent directives)
  | .inline on directives selections =>
    printLine indent ("..." ++ printCondition on ++ printDirectives indent directives ++ " \x7b") ++
      printSelections (indent + 2) selections ++ printLine indent "\x7d"

/-- Selections on lines of their own. -/
def printSelections (indent : Nat) : List Selection → String
  | [] => ""
  | selection :: selections => selection.print indent ++ printSelections indent selections

end

/-- A head and a selection set below it. -/
def printDefinition (head : String) (selections : List Selection) : String :=
  printLine 0 (head ++ "\x7b") ++ printSelections 2 selections ++ printLine 0 "\x7d"

/-- The name and variables of an operation: subscriptions print variables without separator, and
only after a name. -/
def Operation.printHead (o : Operation) : String :=
  match o.kind, o.name with
  | .subscription, none => ""
  | .subscription, some name => " " ++ name ++ printVariables "" o.variableDefinitions
  | _, none => printVariables ", " o.variableDefinitions
  | _, some name => " " ++ name ++ printVariables ", " o.variableDefinitions

/-- An operation with its keyword. -/
def Operation.print (o : Operation) : String :=
  printDefinition (o.kind.keyword ++ o.printHead ++ printDirectives 0 o.directives ++ " ") o.selections

/-- A fragment definition. -/
def Fragment.print (f : Fragment) : String :=
  printDefinition ("fragment " ++ f.name ++ " on " ++ f.on ++ printDirectives 0 f.directives ++ " ")
    f.selections

/-- A definition. -/
def Definition.print : Definition → String
  | .shorthand selections => printDefinition "" selections
  | .operation o => o.print
  | .fragment f => f.print

end GraphqlClient
