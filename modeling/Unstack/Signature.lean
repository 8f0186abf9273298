import Unstack.Token

/-!
# Method signatures and references

The part of a signature that decides what a call takes from the evaluation stack and leaves on
it, and the reference to a method that a token stands for.
-/

namespace Unstack

/-- A method signature: the calling convention, the return type and the declared parameters,
`this` not among them. -/
structure Signature where
  hasThis : Bool := false
  explicitThis : Bool := false
  vararg : Bool := false
  returnType : String
  parameters : List String := []
deriving DecidableEq, Repr

namespace Signature

/-- The name of the type that a method without a result returns. -/
def voidName : String := "System.Void"

/-- Does the method return nothing? -/
def returnsVoid (signature : Signature) : Bool := signature.returnType == voidName

/-- Does a caller push `this` besides the declared parameters? -/
def implicitThis (signature : Signature) : Bool := signature.hasThis && !signature.explicitThis

/-- The calling convention byte of ECMA-335 (II.23.2.1). -/
def conventionByte (signature : Signature) : Nat :=
  (if signature.vararg then 0x05 else 0) + (if signature.hasThis then 0x20 else 0) +
    (if signature.explicitThis then 0x40 else 0)

/-- The full name of a method with this signature: return type, declaring type, name and
parameter types. -/
def fullName (signature : Signature) (declaringType name : String) : String :=
  signature.returnType ++ " " ++ declaringType ++ "::" ++ name ++ "(" ++
    String.intercalate "," signature.parameters ++ ")"

end Signature

/-- What a method token stands for. -/
structure MethodRef where
  token : Token
  fullName : String
  signature : Signature
deriving DecidableEq, Repr

end Unstack
