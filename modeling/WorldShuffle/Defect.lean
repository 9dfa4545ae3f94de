namespace WorldShuffle

/-- A broken promise between the parts of the program, as opposed to a request that fails. -/
inductive Defect
  | mappedTwice (location : Nat)
  | swappedTwice
  | invalidWeight (shown : String)
  | emptyRange (first last : Nat)
  | removalOutOfRange (index length : Nat)
  deriving DecidableEq

def Defect.message : Defect → String
  | .mappedTwice location => s!"check {location} mapped twice"
  | .swappedTwice => "transition swapped twice"
  | .invalidWeight shown => s!"invalid sampling weight {shown}"
  | .emptyRange first last => s!"empty range {first}..{last}"
  | .removalOutOfRange index length =>
    s!"removal index (is {index}) should be < len (is {length})"

end WorldShuffle
