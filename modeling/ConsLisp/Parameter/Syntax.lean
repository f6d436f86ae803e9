import ConsLisp.Error
import ConsLisp.Parameter.Validity
import ConsLisp.Value.List

/-!
# The syntax of parameter lists

A parameter list such as `(a &plain b &optional (c 1) &rest d)` names its parameters in order.  A
marker changes the mode of the next parameter, or of all that follow in the case of `&optional`.
The default of an optional parameter is a literal form.
-/

namespace ConsLisp

/-- The mode a marker stands for. -/
def Value.marker? : Value → Option Mode
  | .symbol "&PLAIN" => some .plain
  | .symbol "&REST" => some .rest
  | .symbol "&OPTIONAL" => some .optional
  | _ => none

namespace Parameter

def nameOf (limit : Nat) : Value → Except Error String
  | .symbol name => return name
  | entry => entry.refuse limit .parameterName

/-- An optional parameter is a name, or a name and a default in a list. -/
def optionalOf (limit : Nat) (entry : Value) : Except Error Parameter :=
  match entry with
  | .symbol name => return ⟨.optional, name, .nil⟩
  | .list items terminator =>
      match Value.elements items terminator with
      | [name] => return ⟨.optional, ← nameOf limit name, .nil⟩
      | [name, literal] => return ⟨.optional, ← nameOf limit name, literal⟩
      | _ => entry.refuse limit .optionalParameter
  | _ => entry.refuse limit .optionalParameter

/-- The parameter an entry stands for, given the marker before it, if any, and whether it stands
among the optional ones. -/
def ofEntry (limit : Nat) (pending : Option Mode) (amongOptional : Bool) (entry : Value) :
    Except Error Parameter :=
  match pending with
  | some mode => return ⟨mode, ← nameOf limit entry, .nil⟩
  | none =>
      if amongOptional then optionalOf limit entry
      else return ⟨.normal, ← nameOf limit entry, .nil⟩

/-- The parameters of the entries of `form` that are left. -/
def ofEntries (limit : Nat) (form : Value) :
    Option Mode → Bool → List Value → Except Error (List Parameter)
  | none, _, [] => return []
  | some mode, _, [] => form.refuse limit (.danglingMarker mode.marker)
  | pending, amongOptional, entry :: entries =>
      match entry.marker?, pending with
      | some _, some mode => form.refuse limit (.danglingMarker mode.marker)
      | some .optional, none => ofEntries limit form none true entries
      | some mode, none => ofEntries limit form (some mode) amongOptional entries
      | none, pending => do
          let parameter ← ofEntry limit pending amongOptional entry
          return parameter :: (← ofEntries limit form none amongOptional entries)

/-- Reads a parameter list off a form; anything but a valid one is refused. -/
def ofForm (limit : Nat) (form : Value) : Except Error (List Parameter) :=
  match form with
  | .nil => return []
  | .list items terminator => do
      let parameters ← ofEntries limit form none false (Value.elements items terminator)
      if isValid parameters then return parameters else form.refuse limit .invalidParameters
  | _ => form.refuse limit .parameterList

end Parameter

end ConsLisp
