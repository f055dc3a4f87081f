import System370.Bytes

/-!
# Relocatable values

An address expression stands for a number plus the places of sections and
external names, each taken some number of times.  Those places are known only
when the program is linked, so a value keeps them as terms of a formal sum.

* `Value.add`, `Value.negate` and `Value.sub` compute with such sums; numbers
  and multiplicities wrap at 64 bits, equal targets merge, and targets whose
  multiplicity becomes zero disappear;
* `Value.classify` tells absolute values from the place of one target and from
  any other sum.
-/

namespace System370

/-- What a term of a value stands for. -/
inductive Target where
  /-- The start of a section, by its number: positive for a control section,
  negative for a dummy section. -/
  | origin (id : Int)
  /-- The address of an external name.  The number that stands beside the name
  is zero in whatever an assembly computes; names with different numbers are
  different targets. -/
  | external (name : Bytes) (id : Int)
  deriving DecidableEq, Repr

/-- The external target of a name.  An empty name stands for no section. -/
def Target.named (name : Bytes) : Target := if name = [] then .origin 0 else
  .external name 0

/-- The number of the section that a target is, zero for an external name. -/
def Target.sectionId : Target → Int
  | origin id => id
  | external .. => 0

/-- A target and how often it is added. -/
structure Term where
  target : Target
  sign : Int64
  deriving DecidableEq, Repr

/-- A number plus terms. -/
structure Value where
  number : Int64
  terms : List Term
  deriving DecidableEq, Repr

/-- What kind of sum a value is. -/
inductive Value.Class where
  | absolute
  | relocatable
  | complex
  deriving DecidableEq, Repr

namespace Value

/-- A number alone. -/
def absolute (number : Int64) : Value := ⟨number, []⟩

/-- A place in a section. -/
def relocatable (number : Int64) (id : Int) : Value :=
  ⟨number, [⟨.origin id, 1⟩]⟩

/-- The address of an external name. -/
def external (name : Bytes) : Value := ⟨0, [⟨Target.named name, 1⟩]⟩

/-- Adds a term to the first one with the same target, or after the last. -/
def merge : List Term → Term → List Term
  | [], t => [t]
  | u :: rest, t =>
    if u.target = t.target then ⟨u.target, u.sign + t.sign⟩ :: rest else
      u :: merge rest t

/-- The sum of two values. -/
def add (v w : Value) : Value :=
  ⟨v.number + w.number,
    ((v.terms ++ w.terms).foldl merge []).filter (·.sign ≠ 0)⟩

/-- The value with the opposite sign. -/
def negate (v : Value) : Value :=
  ⟨-v.number, v.terms.map fun t => ⟨t.target, -t.sign⟩⟩

/-- The difference of two values. -/
def sub (v w : Value) : Value := v.add w.negate

/-- Whether a value is a number alone. -/
def isAbsolute (v : Value) : Bool := v.terms.isEmpty

/-- What kind of sum a value is. -/
def classify (v : Value) : Class :=
  match v.terms with
  | [] => .absolute
  | [t] => if t.sign = 1 then .relocatable else .complex
  | _ => .complex

/-- The section in which a value is a place, zero if there is none. -/
def sectionId (v : Value) : Int :=
  match v.terms with
  | [t] => if t.sign = 1 then t.target.sectionId else 0
  | _ => 0

end Value

end System370
