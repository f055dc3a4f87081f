import System370.Bytes

/-!
# Base registers

Storage is addressed by a base register and a displacement below 4096.  `USING`
promises that a register holds some address, and `DROP` takes the promise back.
To address a location implicitly, the assembler looks for the register that
gives the smallest displacement; among equal ones the register with the highest
number wins.  A register whose address is absolute serves every section.

* `BaseRegisters.use` and `BaseRegisters.drop` change the promises;
* `BaseRegisters.resolve` chooses a register.
-/

namespace System370

/-- What a base register covers. -/
structure Domain where
  base : Int64
  /-- The section of the address, zero for an absolute one. -/
  sectionId : Int
  /-- The octets from the address to the end of the section. -/
  remaining : Int64
  line : Int
  /-- The greatest displacement used so far, `-1` for none. -/
  maxDisplacement : Int64 := -1
  deriving DecidableEq, Repr

namespace Domain

/-- Displacements are below this bound. -/
def limit : Int64 := 4096

/-- The bound on displacements in a domain. -/
def reach (d : Domain) : Int64 := if d.remaining < limit then
  d.remaining else limit

/-- The displacement to a location of a section, if the domain covers it. -/
def displacement? (d : Domain) (location : Int64) (sectionId : Int) :
    Option Int64 :=
  let displacement := location - d.base
  if d.sectionId ≠ 0 ∧ d.sectionId ≠ sectionId then none
  else if displacement < 0 ∨ d.reach ≤ displacement then none
  else some displacement

/-- Keeps the greatest displacement used. -/
def note (d : Domain) (displacement : Int64) : Domain :=
  if d.maxDisplacement < displacement then
    { d with maxDisplacement := displacement } else d

end Domain

/-- A general register. -/
abbrev Register := Fin 16

/-- There is a register zero.  The zero is that of the numerals. -/
instance Register.neZero : @NeZero Nat Zero.ofOfNat0 16 := ⟨by decide⟩

/-- What the registers are promised to hold. -/
structure BaseRegisters where
  domains : Vector (Option Domain) 16 := Vector.replicate 16 none

namespace BaseRegisters

/-- The domain of a register. -/
def domain? (b : BaseRegisters) (r : Register) : Option Domain := b.domains[r]

/-- Gives a register a domain.  A negative number of remaining octets stands for
no bound. -/
def use (b : BaseRegisters) (r : Register) (base : Int64) (sectionId : Int)
    (remaining : Int64) (line : Int) : BaseRegisters :=
  let remaining := if remaining < 0 then Int64.maxValue else remaining
  ⟨b.domains.set r (some { base, sectionId, remaining, line })⟩

/-- Takes the domain of a register away. -/
def drop (b : BaseRegisters) (r : Register) : BaseRegisters :=
  ⟨b.domains.set r none⟩

/-- The registers that have a domain, in increasing order. -/
def active (b : BaseRegisters) : List (Register × Domain) :=
  (List.finRange 16).filterMap fun r => (b.domain? r).map (r, ·)

/-- A register and the displacement from its address. -/
structure Choice where
  register : Register
  displacement : Int64
  deriving DecidableEq, Repr

/-- The better of two ways to address a location: a smaller displacement
replaces what was found before. -/
def better (found : Option Choice) (candidate : Choice) : Option Choice :=
  match found with
  | none => some candidate
  | some c => if candidate.displacement < c.displacement then
    some candidate else some c

/-- The best way to address a location of a section. -/
def choose? (b : BaseRegisters) (location : Int64) (sectionId : Int) :
    Option Choice :=
  ((List.finRange 16).reverse.filterMap fun r =>
    ((b.domain? r).bind (·.displacement? location sectionId)).map
      (Choice.mk r)).foldl better none

/-- The best way to address a location, recorded in the domain that it uses. -/
def resolve (b : BaseRegisters) (location : Int64) (sectionId : Int) :
    Option Choice × BaseRegisters :=
  match b.choose? location sectionId with
  | none => (none, b)
  | some c =>
    (some c, ⟨b.domains.set c.register
      ((b.domain? c.register).map (·.note c.displacement))⟩)

end BaseRegisters

end System370
