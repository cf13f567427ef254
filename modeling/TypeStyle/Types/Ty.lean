-- SUMMARY: Resolved types.

/-! # Types

A `Ty` is what a written type or an expression resolves to. Two types are the
same exactly if they are equal. -/

namespace TypeStyle

/-- The types that have a keyword. -/
inductive Predefined where
  | bool
  | byte
  | sbyte
  | char
  | decimal
  | double
  | float
  | short
  | ushort
  | int
  | uint
  | long
  | ulong
  | nint
  | nuint
  | object
  | string
  deriving DecidableEq, Repr

namespace Predefined

def all : List Predefined :=
  [bool, byte, sbyte, char, decimal, double, float, short, ushort, int, uint, long, ulong, nint,
   nuint, object, string]

def keyword : Predefined → String
  | bool => "bool"
  | byte => "byte"
  | sbyte => "sbyte"
  | char => "char"
  | decimal => "decimal"
  | double => "double"
  | float => "float"
  | short => "short"
  | ushort => "ushort"
  | int => "int"
  | uint => "uint"
  | long => "long"
  | ulong => "ulong"
  | nint => "nint"
  | nuint => "nuint"
  | object => "object"
  | string => "string"

/-- The name that the type has in its library. -/
def libraryName : Predefined → String
  | bool => "Boolean"
  | byte => "Byte"
  | sbyte => "SByte"
  | char => "Char"
  | decimal => "Decimal"
  | double => "Double"
  | float => "Single"
  | short => "Int16"
  | ushort => "UInt16"
  | int => "Int32"
  | uint => "UInt32"
  | long => "Int64"
  | ulong => "UInt64"
  | nint => "IntPtr"
  | nuint => "UIntPtr"
  | object => "Object"
  | string => "String"

def ofKeyword? (s : String) : Option Predefined :=
  all.find? fun p => p.keyword == s

theorem ofKeyword?_keyword (p : Predefined) : ofKeyword? p.keyword = some p := by
  cases p <;> decide

end Predefined

inductive Ty where
  | predefined (p : Predefined)
  /-- A named type; one in the global namespace has no namespace. -/
  | named (space : Option String) (name : String) (args : List Ty)
  | array (element : Ty)
  | nullable (inner : Ty)
  | tuple (elements : List Ty)
  | dynamic
  /-- A type without a name. -/
  | anonymous
  /-- What stands for a type that could not be resolved. -/
  | error
  deriving Repr, Inhabited

namespace Ty

/-! ## Equality -/

mutual

def decEq : (a b : Ty) → Decidable (a = b)
  | .predefined p, .predefined q =>
    if h : p = q then isTrue (by rw [h]) else isFalse (by simp [h])
  | .named s m as, .named u n bs =>
    if h : s = u ∧ m = n then
      match decEqList as bs with
      | isTrue has => isTrue (by rw [h.1, h.2, has])
      | isFalse has => isFalse (by simp [has])
    else
      isFalse (by intro e; cases e; exact h ⟨rfl, rfl⟩)
  | .array a, .array b =>
    match decEq a b with
    | isTrue hab => isTrue (by rw [hab])
    | isFalse hab => isFalse (by simp [hab])
  | .nullable a, .nullable b =>
    match decEq a b with
    | isTrue hab => isTrue (by rw [hab])
    | isFalse hab => isFalse (by simp [hab])
  | .tuple as, .tuple bs =>
    match decEqList as bs with
    | isTrue has => isTrue (by rw [has])
    | isFalse has => isFalse (by simp [has])
  | .dynamic, .dynamic | .anonymous, .anonymous | .error, .error => isTrue rfl
  | .predefined _, .named .. | .predefined _, .array _ | .predefined _, .nullable _
  | .predefined _, .tuple _ | .predefined _, .dynamic | .predefined _, .anonymous
  | .predefined _, .error | .named .., .predefined _ | .named .., .array _ | .named .., .nullable _
  | .named .., .tuple _ | .named .., .dynamic | .named .., .anonymous | .named .., .error
  | .array _, .predefined _ | .array _, .named .. | .array _, .nullable _ | .array _, .tuple _
  | .array _, .dynamic | .array _, .anonymous | .array _, .error | .nullable _, .predefined _
  | .nullable _, .named .. | .nullable _, .array _ | .nullable _, .tuple _ | .nullable _, .dynamic
  | .nullable _, .anonymous | .nullable _, .error | .tuple _, .predefined _ | .tuple _, .named ..
  | .tuple _, .array _ | .tuple _, .nullable _ | .tuple _, .dynamic | .tuple _, .anonymous
  | .tuple _, .error | .dynamic, .predefined _ | .dynamic, .named .. | .dynamic, .array _
  | .dynamic, .nullable _ | .dynamic, .tuple _ | .dynamic, .anonymous | .dynamic, .error
  | .anonymous, .predefined _ | .anonymous, .named .. | .anonymous, .array _
  | .anonymous, .nullable _ | .anonymous, .tuple _ | .anonymous, .dynamic | .anonymous, .error
  | .error, .predefined _ | .error, .named .. | .error, .array _ | .error, .nullable _
  | .error, .tuple _ | .error, .dynamic | .error, .anonymous => isFalse (by simp)

def decEqList : (as bs : List Ty) → Decidable (as = bs)
  | [], [] => isTrue rfl
  | [], _ :: _ | _ :: _, [] => isFalse (by simp)
  | a :: as, b :: bs =>
    match decEq a b with
    | isTrue hab =>
      match decEqList as bs with
      | isTrue has => isTrue (by rw [hab, has])
      | isFalse has => isFalse (by simp [has])
    | isFalse hab => isFalse (by simp [hab])

end

instance : DecidableEq Ty := decEq

/-! ## Names -/

mutual

/-- The full name, with keywords for predefined types. -/
def text : Ty → String
  | predefined p => p.keyword
  | named space name args =>
    (space.map (· ++ ".")).getD "" ++ name ++
      if args.isEmpty then "" else "<" ++ textList args ++ ">"
  | array element => text element ++ "[]"
  | nullable inner => text inner ++ "?"
  | tuple elements => "(" ++ textList elements ++ ")"
  | dynamic => "dynamic"
  | anonymous => "<anonymous type>"
  | error => "<error>"

/-- The full names of several types, separated by a comma and a space. -/
def textList : List Ty → String
  | [] => ""
  | [t] => text t
  | t :: u :: ts => text t ++ ", " ++ textList (u :: ts)

end

/-- The name without namespace and arguments, for the types that have one. -/
def simpleName : Ty → Option String
  | predefined p => some p.libraryName
  | named _ name _ => some name
  | _ => none

mutual

/-- Whether the type can be written: no part of it lacks a name. -/
def isNameable : Ty → Bool
  | predefined _ | dynamic => true
  | named _ _ args => areNameable args
  | array element => isNameable element
  | nullable inner => isNameable inner
  | tuple elements => areNameable elements
  | anonymous | error => false

def areNameable : List Ty → Bool
  | [] => true
  | t :: ts => isNameable t && areNameable ts

end

/-- The type of the elements of a collection: those of an array, the argument of
    a generic type with one argument, and the characters of a string. -/
def element? : Ty → Option Ty
  | array element => some element
  | named _ _ [element] => some element
  | predefined .string => some (.predefined .char)
  | _ => none

end Ty

end TypeStyle
