import SealedCustody.Json.Access
import SealedCustody.Stream.Handler

/-!
# Handlers described in JSON

A handler with a fixed reply may be described by an object: its protocol, the reply, whether it takes
the whole request first, which it does if nothing is said, and whether it never answers.
-/

namespace SealedCustody

/-- The protocol and the handler that a description gives. -/
def Handler.ofDescription? (v : Json.Value) : Option (String × Handler) := do
  some (← v.textAt? "protocol", .fixed ⟨(v.truthAt? "read").getD true,
    (v.truthAt? "hang").getD false, v.octetsAt? "reply"⟩)

end SealedCustody
