import Tandem.Tree.Printer
import Tandem.Value
/-!
The text of a value as programs print it. Strings stand as they are, without quotation marks;
compiled functions and closures have no text but a placeholder for their place in memory.
-/
namespace Tandem

open Text (separated)

def Key.text : Key → String
  | integer n => integerText n
  | boolean b => booleanText b
  | string _ text => text

namespace Value

mutual

def text : Value → String
  | integer n => integerText n
  | boolean b => booleanText b
  | string _ text => text
  | null => "null"
  | array _ elements => "[" ++ separated ", " (texts elements) ++ "]"
  | hash _ entries => "\x7b" ++ separated ", " (entryTexts entries) ++ "\x7d"
  | function _ parameters body _ => functionHead parameters ++ " " ++ blockText body
  | builtin _ => "builtin function"
  | error _ message => "ERROR: " ++ message
  | returning value => text value
  | compiled _ _ => "CompiledFunction[0x*]"
  | closure _ _ _ => "Closure[0x*]"

def texts : List Value → List String
  | [] => []
  | value :: rest => text value :: texts rest

def entryTexts : List (Key × Value) → List String
  | [] => []
  | (key, value) :: rest => (key.text ++ ": " ++ text value) :: entryTexts rest

end

end Value

end Tandem
