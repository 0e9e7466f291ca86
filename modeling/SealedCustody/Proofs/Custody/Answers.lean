import SealedCustody.Proofs.Envelope.Opening
import SealedCustody.Proofs.Wire.Messages
import SealedCustody.Stream.Handler
import SealedCustody.Verification.Walk

/-!
# What custody answers

Custody that has taken in a sealed record answers queries about the subject by the record itself: what
was sealed is opened again, what was written as JSON is read again (`CustodyRecord.verdict_ofRecord`).
The record of a user stays as it is until a service tells that another was taken in for the same user
(`Service.user?_respond`).
-/

namespace SealedCustody

open Json

/-! ## The record inside the envelope -/

/-- A legible record is read back from its text. -/
theorem Record.ofOctets_render {r : Record} (h : (Value.object r).Legible depthLimit) :
    Record.ofOctets (Utf8.octets (Value.object r).render) = .ok r := by
  rw [Record.ofOctets, h.ofOctets?_render]

/-- What is kept of a user whose record is sealed under a key and a nonce. -/
def CustodyRecord.ofRecord (userId : String) (r : Record) (key : EnvelopeKey) (nonce : List UInt8) :
    CustodyRecord :=
  ⟨userId, Envelope.sealWith key nonce (Utf8.octets (Value.object r).render), key⟩

/-- A sealed record is opened again. -/
theorem CustodyRecord.open_ofRecord (userId : String) {r : Record} (key : EnvelopeKey)
    {nonce : List UInt8} (hrecord : (Value.object r).Legible depthLimit)
    (hnonce : nonce.length = Envelope.nonceSize) : (ofRecord userId r key nonce).open = .ok r := by
  rw [CustodyRecord.open, ofRecord, Envelope.open?_sealWith key hnonce]
  exact Record.ofOctets_render hrecord

/-- The verdict on a sealed record is that of the record. -/
theorem CustodyRecord.verdict_ofRecord (userId : String) {r : Record} (key : EnvelopeKey)
    {nonce : List UInt8} (hrecord : (Value.object r).Legible depthLimit)
    (hnonce : nonce.length = Envelope.nonceSize) (c : Criteria) :
    (ofRecord userId r key nonce).verdict c = if c.evaluate r then .eligible else .ineligible := by
  rw [CustodyRecord.verdict, open_ofRecord userId key hrecord hnonce]

/-- A message that hands over a sealed record is taken for that record. -/
theorem Custody.recordOf_sealing {userId : String} (huser : userId ≠ "") (r : Record)
    (key : EnvelopeKey) (nonce : List UInt8) :
    recordOf (.sealing userId r key nonce) = .ok (.ofRecord userId r key nonce) := by
  rw [recordOf, NewUser.sealing, if_neg huser, Base64.decodeTrimmed?_encode]
  dsimp only
  rw [EnvelopeKey.ofBase64_toBase64]
  rfl

/-! ## Services -/

/-- Taking in a sealed record puts it in place of any held for the user, and is told. -/
theorem Custody.enroll_sealing (c : Custody) {userId : String} (huser : userId ≠ "") (r : Record)
    (key : EnvelopeKey) (nonce : List UInt8) :
    c.enroll (NewUser.format.octets (.sealing userId r key nonce)) =
      ⟨{ c with users := c.users.insert userId (.ofRecord userId r key nonce) },
        .ok (Receipt.format.octets ⟨userId⟩), some (.userEnrolled userId)⟩ := by
  have hdecode := ProtocolId.decode_octets .newUser
    (NewUser.keeps (depthLimit - 1) (.sealing userId r key nonce))
  rw [Custody.enroll, hdecode]
  dsimp only
  rw [Custody.putUser, Custody.recordOf_sealing huser]
  rfl

/-- A query is answered by the verdict on its subject, under its own id. -/
theorem Custody.answerQuery_octets (c : Custody) {q : VerifyRequest}
    (hcriteria : q.criteria.Legible (depthLimit - 4)) :
    c.answerQuery (VerifyRequest.format.octets q) =
      ⟨c, .ok (VerifyResponse.format.octets ⟨q.requestId, c.verdict q.subjectId q.criteria⟩), none⟩ := by
  have hdecode := ProtocolId.decode_octets .verify (VerifyRequest.keeps hcriteria)
  rw [Custody.answerQuery, hdecode]
  rfl

/-! ## The record of a user -/

/-- A user's record changes only if a record is taken in for the user, which is told. -/
theorem Custody.user?_enroll (c : Custody) (request : List UInt8) {userId : String}
    (h : (c.enroll request).event ≠ some (.userEnrolled userId)) :
    (c.enroll request).custody.user? userId = c.user? userId := by
  unfold Custody.enroll at h ⊢
  cases hdecode : ProtocolId.newUser.decode NewUser.format request with
  | error e => rfl
  | ok m =>
    simp only [hdecode, Custody.putUser] at h ⊢
    cases hrecord : recordOf m with
    | error e => rfl
    | ok r =>
      simp only [hrecord] at h ⊢
      -- what was taken in was told, so it was for another user
      have hne : m.id ≠ userId := fun e => h (e ▸ rfl)
      rw [Custody.user?, Table.get?_insert, if_neg hne, Custody.user?]

theorem Custody.users_putBlock (c : Custody) (b : DataBlock) : (c.putBlock b).2.users = c.users := by
  unfold Custody.putBlock
  split <;> rfl

theorem Custody.users_keep (c : Custody) (request : List UInt8) :
    (c.keep request).custody.users = c.users := by
  unfold Custody.keep
  cases hdecode : ProtocolId.store.decode DataBlock.format request with
  | error e => rfl
  | ok b =>
    have husers := c.users_putBlock b
    dsimp only
    split <;> (rename_i hput; rw [hput] at husers; exact husers)

/-- An upload leaves the records of users alone. -/
theorem Custody.users_sealUpload (c : Custody) (key : EnvelopeKey) (nonce request : List UInt8) :
    (c.sealUpload key nonce request).2.users = c.users := by
  unfold Custody.sealUpload
  cases hdecode : ProtocolId.upload.decode UploadRequest.format request with
  | error e => rfl
  | ok m =>
    dsimp only
    cases hplain : m.plaintext with
    | error e => rfl
    | ok plaintext =>
      have husers := c.users_putBlock (.ofEnvelope (Envelope.sealWith key nonce plaintext))
      dsimp only
      split <;> (rename_i hput; rw [hput] at husers; exact husers)

/-- Whatever a service is asked, a user's record stays as it is unless the service tells that one was
taken in for the user. -/
theorem Service.user?_respond (s : Service) (c : Custody) (request : List UInt8) {userId : String}
    (h : (s.respond c request).event ≠ some (.userEnrolled userId)) :
    (s.respond c request).custody.user? userId = c.user? userId := by
  cases s with
  | print =>
    rw [Service.respond]
    cases ProtocolId.print.decode PrintMessage.format request <;> rfl
  | echo => rfl
  | newUser => exact c.user?_enroll request h
  | store => rw [Custody.user?, Custody.user?, Service.respond, c.users_keep request]
  | verify =>
    rw [Service.respond, Custody.answerQuery]
    cases ProtocolId.verify.decode VerifyRequest.format request <;> rfl

end SealedCustody
