import Tandem.Text.Paint
import Tandem.Text.Quoted
import Tandem.Tree
/-!
The canonical text of a tree. Operators and index expressions are put in parentheses, so that
nesting can be read off the text; blocks stand in braces, and statements are separated by
semicolons.
-/
namespace Tandem

open Text (quoted separated)

def UnaryOp.text : UnaryOp → String
  | negate => "-"
  | not => "!"

def BinaryOp.text : BinaryOp → String
  | add => "+"
  | subtract => "-"
  | multiply => "*"
  | divide => "/"
  | less => "<"
  | greater => ">"
  | equal => "=="
  | notEqual => "!="

def booleanText (b : Bool) : String := if b then "true" else "false"

/-- An integer as it is written in a program: its decimal digits, after a minus sign if it is
negative. -/
def integerText (n : Int64) : String := toString n.toInt

/-- Statements in braces, with a blank on either side. An empty block keeps one blank. -/
def braced (statements : List String) : String :=
  if statements.isEmpty then "\x7b \x7d" else "\x7b " ++ separated "; " statements ++ " \x7d"

/-- The head of a function: its parameters in parentheses. -/
def functionHead (parameters : List String) : String :=
  "fn(" ++ separated ", " parameters ++ ")"

mutual

def Expr.text : Expr → String
  | .identifier name => name
  | .integer n => integerText n
  | .boolean b => booleanText b
  | .string text => quoted text
  | .unary op operand => "(" ++ op.text ++ operand.text ++ ")"
  | .binary op left right => "(" ++ left.text ++ " " ++ op.text ++ " " ++ right.text ++ ")"
  | .conditional condition consequence none =>
    "if " ++ condition.text ++ " " ++ braced (statementTexts consequence)
  | .conditional condition consequence (some alternative) =>
    "if " ++ condition.text ++ " " ++ braced (statementTexts consequence)
      ++ " else " ++ braced (statementTexts alternative)
  | .function parameters body => functionHead parameters ++ " " ++ braced (statementTexts body)
  | .call callee arguments =>
    callee.text ++ "(" ++ separated ", " (expressionTexts arguments) ++ ")"
  | .array elements => "[" ++ separated ", " (expressionTexts elements) ++ "]"
  | .index object index => "(" ++ object.text ++ "[" ++ index.text ++ "])"
  | .hash pairs => "\x7b" ++ separated ", " (pairTexts pairs) ++ "\x7d"

def Stmt.text : Stmt → String
  | .binding name value => "let " ++ name ++ " = " ++ value.text
  | .returning value => "return " ++ value.text
  | .expression value => value.text

def expressionTexts : List Expr → List String
  | [] => []
  | e :: rest => e.text :: expressionTexts rest

def pairTexts : List (Expr × Expr) → List String
  | [] => []
  | (key, value) :: rest => (key.text ++ ": " ++ value.text) :: pairTexts rest

def statementTexts : List Stmt → List String
  | [] => []
  | s :: rest => s.text :: statementTexts rest

end

def blockText (statements : List Stmt) : String := braced (statementTexts statements)

def programText (statements : List Stmt) : String := separated "; " (statementTexts statements)

def Node.text : Node → String
  | program statements => programText statements
  | block statements => blockText statements
  | statement s => s.text
  | expression e => e.text

end Tandem
