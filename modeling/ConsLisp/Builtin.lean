import ConsLisp.Value

/-!
# The catalogue of builtins

Each builtin has a name and takes its arguments under fixed parameter names.  Plain and rest
parameters hand over forms as they are, which lets quoting, conditionals and definitions be ordinary
functions.
-/

namespace ConsLisp

namespace Builtin

/-- The name a builtin is bound to. -/
def name : Builtin → String
  | .add => "+"
  | .subtract => "-"
  | .multiply => "*"
  | .divide => "/"
  | .modulo => "MOD"
  | .less => "<"
  | .greater => ">"
  | .equalNumbers => "="
  | .lessOrEqual => "<="
  | .greaterOrEqual => ">="
  | .isSymbol => "SYMBOLP"
  | .isNumber => "NUMBERP"
  | .isString => "STRINGP"
  | .isList => "LISTP"
  | .isAtom => "ATOM"
  | .isNull => "NULL"
  | .equal => "EQ"
  | .not => "NOT"
  | .and => "AND"
  | .or => "OR"
  | .cons => "CONS"
  | .car => "CAR"
  | .cdr => "CDR"
  | .list => "LIST"
  | .quote => "QUOTE"
  | .cond => "COND"
  | .setq => "SETQ"
  | .defun => "DEFUN"
  | .lambda => "LAMBDA"
  | .funcall => "FUNCALL"
  | .print => "PRINT"
  | .princ => "PRINC"
  | .terpri => "TERPRI"

/-- The modes and names of a builtin's parameters. -/
def signature : Builtin → List (Mode × String)
  | .add | .subtract | .multiply | .divide | .modulo
  | .less | .greater | .equalNumbers | .lessOrEqual | .greaterOrEqual
  | .equal | .cons => [(.normal, "X"), (.normal, "Y")]
  | .isSymbol | .isNumber | .isString | .isList | .isAtom | .isNull | .not
  | .car | .cdr | .print | .princ => [(.normal, "X")]
  | .and | .or | .list | .cond => [(.rest, "X")]
  | .quote => [(.plain, "X")]
  | .setq => [(.plain, "X"), (.normal, "Y")]
  | .defun => [(.plain, "X"), (.plain, "Y"), (.rest, "Z")]
  | .lambda => [(.plain, "X"), (.rest, "Y")]
  | .funcall => [(.normal, "X"), (.rest, "Y")]
  | .terpri => []

def parameters (builtin : Builtin) : List Parameter :=
  builtin.signature.map fun (mode, name) => ⟨mode, name, .nil⟩

/-- All builtins, in the order in which a session defines them. -/
def catalogue : List Builtin :=
  [.add, .subtract, .multiply, .divide, .modulo,
    .less, .greater, .equalNumbers, .lessOrEqual, .greaterOrEqual,
    .isSymbol, .isNumber, .isString, .isList, .isAtom, .isNull, .equal, .not, .and, .or,
    .cons, .car, .cdr, .list,
    .quote, .cond, .setq, .defun, .lambda, .funcall,
    .print, .princ, .terpri]

def value (builtin : Builtin) : Value :=
  .callable (.builtin builtin)

end Builtin

def Callable.parameters : Callable → List Parameter
  | .lambda _ parameters _ => parameters
  | .builtin operation => operation.parameters

end ConsLisp
