import SealedCustody.Json.Format

/-!
# Accounts

The accounts of users and of providers. An empty id asks for a fresh one.
-/

namespace SealedCustody

open Json

/-- The account of a user. -/
structure User where
  id : String
  email : String
  hashedPassword : String
  salt : String
deriving DecidableEq, Repr, Inhabited

/-- The account of a provider. -/
structure Provider where
  id : String
  email : String
  registeredName : String
  hashedPassword : String
  salt : String
deriving DecidableEq, Repr, Inhabited

/-- The fields of a user; unknown fields are ignored. -/
def User.format : Format User where
  tree u := objectOf [("userid", some (Format.text.tree u.id)),
    ("email", some (Format.text.tree u.email)),
    ("hashedpassword", some (Format.text.tree u.hashedPassword)),
    ("salt", some (Format.text.tree u.salt))]
  read d t := do
    let (fields, d) ← t.fields? ["userid", "email", "hashedpassword", "salt"] .ignored d
    some ⟨← fields.required "userid" .text d, ← fields.required "email" .text d,
      ← fields.required "hashedpassword" .text d, ← fields.required "salt" .text d⟩

/-- The fields of a provider; unknown fields are ignored. -/
def Provider.format : Format Provider where
  tree p := objectOf [("providerid", some (Format.text.tree p.id)),
    ("email", some (Format.text.tree p.email)),
    ("registeredname", some (Format.text.tree p.registeredName)),
    ("hashedpassword", some (Format.text.tree p.hashedPassword)),
    ("salt", some (Format.text.tree p.salt))]
  read d t := do
    let (fields, d) ←
      t.fields? ["providerid", "email", "registeredname", "hashedpassword", "salt"] .ignored d
    some ⟨← fields.required "providerid" .text d, ← fields.required "email" .text d,
      ← fields.required "registeredname" .text d, ← fields.required "hashedpassword" .text d,
      ← fields.required "salt" .text d⟩

end SealedCustody
