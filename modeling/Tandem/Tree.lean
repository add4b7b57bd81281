/-!
Programs as trees: expressions, statements, and the lists of statements that form blocks and whole
programs.
-/
namespace Tandem

inductive UnaryOp where
  /-- Arithmetic negation. -/
  | negate
  /-- Logical negation, by truthiness. -/
  | not
  deriving DecidableEq, Repr

inductive BinaryOp where
  | add
  | subtract
  | multiply
  | divide
  | less
  | greater
  | equal
  | notEqual
  deriving DecidableEq, Repr

mutual

/-- Expressions. A block is the list of its statements. -/
inductive Expr where
  | identifier (name : String)
  | integer (n : Int64)
  | boolean (b : Bool)
  | string (text : String)
  | unary (op : UnaryOp) (operand : Expr)
  | binary (op : BinaryOp) (left right : Expr)
  /-- Without an alternative, a condition that does not hold gives null. -/
  | conditional (condition : Expr) (consequence : List Stmt) (alternative : Option (List Stmt))
  | function (parameters : List String) (body : List Stmt)
  | call (callee : Expr) (arguments : List Expr)
  | array (elements : List Expr)
  | index (object index : Expr)
  /-- The pairs stand in the order in which they are written. -/
  | hash (pairs : List (Expr × Expr))

inductive Stmt where
  /-- Bind a name to the value of an expression, in the innermost scope. -/
  | binding (name : String) (value : Expr)
  /-- Leave the enclosing function, or the program, with the value of an expression. -/
  | returning (value : Expr)
  | expression (value : Expr)

end

instance : Inhabited Expr := ⟨.boolean false⟩
instance : Inhabited Stmt := ⟨.expression default⟩

inductive Node where
  | program (statements : List Stmt)
  | block (statements : List Stmt)
  | statement (statement : Stmt)
  | expression (expression : Expr)

/-- The short name of an expression's form. -/
def Expr.kind : Expr → String
  | identifier _ => "Identifier"
  | integer _ => "IntLiteral"
  | boolean _ => "BoolLiteral"
  | string _ => "StringLiteral"
  | unary _ _ => "Unary"
  | binary _ _ _ => "Binary"
  | conditional _ _ _ => "If"
  | function _ _ => "Function"
  | call _ _ => "Call"
  | array _ => "Array"
  | index _ _ => "Index"
  | hash _ => "Hash"

def Stmt.kind : Stmt → String
  | binding _ _ => "Let"
  | returning _ => "Return"
  | expression _ => "Expression"

def Node.kind : Node → String
  | program _ => "Program"
  | block _ => "Block"
  | statement s => s.kind
  | expression e => e.kind

end Tandem
