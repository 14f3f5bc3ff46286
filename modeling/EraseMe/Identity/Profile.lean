import Mathlib.Data.Int.Notation

/-!
# `identity::profile`: the identity profile
-/

namespace EraseMe.Identity

/-- An address. -/
structure ProfileAddress where
  street : String
  city : String
  postalCode : String
  country : String
  state : Option String := none
  validFrom : Option String := none
  validTo : Option String := none
  deriving DecidableEq, Repr

/-- The personal data requests are made with. -/
structure Profile where
  fullName : String
  nameVariants : List String := []
  dateOfBirth : Option String := none
  addresses : List ProfileAddress := []
  emailAddresses : List String := []
  phoneNumbers : List String := []
  jurisdictions : List String := []
  deriving DecidableEq, Repr

/-- What resolving the profile gave: a failure, no profile, or a profile. -/
abbrev ProfileSource := Except String (Option Profile)

end EraseMe.Identity
