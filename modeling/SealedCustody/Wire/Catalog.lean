import SealedCustody.Account
import SealedCustody.Json.Access
import SealedCustody.Request
import SealedCustody.Wire.Message

/-!
# The catalog of messages

The messages and records that have a JSON form, under their names. `Catalog.recode?` reads one and
writes it again, and `Catalog.facts` tells what else there is to know of it.
-/

namespace SealedCustody.Catalog

/-- Reads octets that a protocol carried and writes what they hold. -/
abbrev Recoder := ProtocolId → List UInt8 → Except Error String

/-- Reads and writes by one format. -/
def recoder {α : Type} (f : Json.Format α) : Recoder := fun p bs => (p.decode f bs).map f.encode

/-- The messages and records by name. -/
def recoders : List (String × Recoder) :=
  [("PrintMessage", recoder PrintMessage.format), ("NewUser", recoder NewUser.format),
    ("Receipt", recoder Receipt.format), ("UploadRequest", recoder UploadRequest.format),
    ("UploadReceipt", recoder UploadReceipt.format), ("DataBlock", recoder DataBlock.format),
    ("VerifyRequest", recoder VerifyRequest.format), ("VerifyResponse", recoder VerifyResponse.format),
    ("Criteria", recoder Criteria.format), ("Rule", recoder Rule.format),
    ("User", recoder User.format), ("Provider", recoder Provider.format),
    ("VerificationRequest", recoder VerificationRequest.format),
    ("RequestFilter", recoder RequestFilter.format), ("Comparison", recoder Comparison.format),
    ("Verdict", recoder Verdict.format), ("Decision", recoder Decision.format),
    ("RequestStatus", recoder RequestStatus.format)]

/-- Reads and writes a message or record of some name. -/
def recode? (name : String) : Option Recoder := recoders.lookup name

/-- What is told of a value besides its JSON form. -/
abbrev Facts := List (String × Json.Value)

/-- What is told of a status. -/
def statusFacts (s : RequestStatus) : Facts :=
  [("display", .string s.name), ("terminal", .bool s.isTerminal),
    ("next", .ofTexts ((RequestStatus.all.filter s.canBecome).map (·.name)))]

/-- What is told of the value of some name that octets hold. -/
def facts (name : String) (bs : List UInt8) : Facts :=
  let of {α : Type} (f : Json.Format α) (tell : α → Facts) : Facts :=
    ((f.ofOctets? bs).map tell).getD []
  match name with
  | "RequestFilter" => of RequestFilter.format fun f => [("empty", .bool f.isEmpty)]
  | "Comparison" => of Comparison.format fun c => [("display", .string c.name)]
  | "Verdict" => of Verdict.format fun v =>
      [("display", .string v.shown), ("conclusive", .bool v.isConclusive)]
  | "Decision" => of Decision.format fun d => [("target", .string d.target.name)]
  | "RequestStatus" => of RequestStatus.format statusFacts
  | _ => []

end SealedCustody.Catalog
