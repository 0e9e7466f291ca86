import SealedCustody.Proofs.Custody.Uploads
import SealedCustody.Proofs.Envelope.Sealing
import SealedCustody.Proofs.Json.Sizes
import SealedCustody.Proofs.Wire.Schemas

/-!
# Which uploads can be offered to another node

An upload is read within the limit of a node and its block is offered within the same limit, but the
block is the longer message: the envelope has 28 octets more than the payload, and the block names its
hash. For every limit that leaves room for an upload at all there is one that is taken and whose block is
refused (`Custody.offer_refused_iff`). One that stays 123 octets below the limit is safe.
-/

namespace SealedCustody

open Json

/-! ## Base64 and hashes -/

/-- Three octets are four digits, and what is left over is padded to four. -/
theorem Base64.length_encodeList (bs : List UInt8) :
    (encodeList bs).length = 4 * ((bs.length + 2) / 3) := by
  induction bs using encodeList.induct with
  | case1 => rfl
  | case2 a => simp [encodeList]
  | case3 a b => simp [encodeList]
  | case4 a b c rest ih =>
    simp only [encodeList, List.length_cons, ih]
    omega

theorem Base64.length_encode (bs : List UInt8) :
    (encode bs).toList.length = 4 * ((bs.length + 2) / 3) := by
  rw [encode, String.toList_ofList, length_encodeList]

theorem Base64.isPlain_encode (bs : List UInt8) : ∀ c ∈ (encode bs).toList, IsPlain c := by
  have hdigit : ∀ k : Fin 64, IsPlain (digit k) := by decide
  rw [encode, String.toList_ofList]
  exact forall_mem_encodeList (fun n hn => hdigit ⟨n, hn⟩) (by decide) bs

theorem Hex.isPlain_encode (bs : List UInt8) : ∀ c ∈ (encode bs).toList, IsPlain c := by
  have hdigit : ∀ k : Fin 16, IsPlain (digit k) := by decide
  rw [encode, String.toList_ofList]
  intro c hc
  obtain ⟨b, -, hc⟩ := List.mem_flatMap.1 hc
  have hb := b.toNat_lt
  rcases List.mem_cons.1 hc with rfl | hc
  · exact hdigit ⟨b.toNat / 16, by omega⟩
  · rw [List.mem_singleton.1 hc]
    exact hdigit ⟨b.toNat % 16, by omega⟩

theorem Sha256.length_digest (message : List UInt8) : (digest message).length = 32 := by
  simp [digest, State.octets, bigEndian]

/-- A hash is 64 characters. -/
theorem length_contentHash (bs : List UInt8) : (contentHash bs).toList.length = 64 := by
  have hoctets : ∀ b ∈ Sha256.digest bs, (Hex.octet b).length = 2 := fun _ _ => rfl
  rw [contentHash, Hex.encode, String.toList_ofList, List.length_flatMap, List.map_congr_left hoctets,
    List.map_const', List.sum_replicate, Sha256.length_digest]
  rfl

/-! ## The size of a block -/

/-- The two names, the hash and the punctuation of a block are 87 octets. -/
theorem DataBlock.length_offer (envelope : List UInt8) :
    (offer envelope).length = 87 + 4 * ((envelope.length + 2) / 3) := by
  have htokens : (DataBlock.format.tree (.ofEnvelope envelope)).tokens =
      [.openObject, .string (some "hash"), .colon, .string (some (contentHash envelope)), .comma,
        .string (some "cipher"), .colon, .string (some (Base64.encode envelope)), .closeObject] := rfl
  have hplain : ∀ token ∈ (DataBlock.format.tree (.ofEnvelope envelope)).tokens, token.IsPlain := by
    have hhash : ∀ c ∈ "hash".toList, IsPlain c := by simp [IsPlain]
    have hcipher : ∀ c ∈ "cipher".toList, IsPlain c := by simp [IsPlain]
    rw [htokens]
    simp only [List.forall_mem_cons]
    exact ⟨trivial, hhash, trivial, Hex.isPlain_encode _, trivial, hcipher, trivial,
      Base64.isPlain_encode _, trivial, List.forall_mem_nil _⟩
  rw [offer, Format.octets, Format.encode, Tree.length_octets_render hplain, htokens]
  simp only [leastSizes_cons, leastSizes_nil, Token.leastSize, length_contentHash,
    Base64.length_encode]
  have hhash : "hash".toList.length = 4 := rfl
  have hcipher : "cipher".toList.length = 6 := rfl
  omega

/-! ## The size of a request -/

/-- The tree of a request has room for the data, two quotes and two brackets. -/
theorem UploadRequest.leastSizes_of_read {n : Nat} {t : Tree} {m : UploadRequest}
    (h : UploadRequest.format.read n t = some m) : m.data.toList.length + 4 ≤ leastSizes t.tokens := by
  obtain ⟨⟨fields, d⟩, hfields, h⟩ := Option.bind_eq_some_iff.1 h
  obtain ⟨data, hdata, h⟩ := Option.bind_eq_some_iff.1 h
  obtain rfl := Option.some.inj h
  obtain ⟨field, hfield, htext⟩ := Option.bind_eq_some_iff.1 hdata
  have hroom := Tree.leastSizes_field_le hfields hfield
  cases field with
  | string s =>
    obtain rfl : s = some data := htext
    simpa [Tree.tokens, Token.leastSize] using hroom
  | _ => cases htext

theorem Text.length_trimmed_le (cs : List Char) : (trimmed cs).length ≤ cs.length := by
  have hdrop : ∀ ds : List Char, (dropBlanks ds).length ≤ ds.length := fun ds =>
    (List.dropWhile_sublist _).length_le
  rw [trimmed, List.length_reverse]
  exact (hdrop _).trans (List.length_reverse.trans_le (hdrop cs))

/-- A request that is decoded has four octets and those of its payload in Base64. -/
theorem UploadRequest.length_le {p : ProtocolId} {request payload : List UInt8} {m : UploadRequest}
    (hrequest : p.decode UploadRequest.format request = .ok m)
    (hpayload : Base64.decodeTrimmed? m.data = some payload) :
    4 + 4 * ((payload.length + 2) / 3) ≤ request.length := by
  obtain ⟨t, ht, hm⟩ := ProtocolId.exists_tree hrequest
  have hheld : t.Held :=
    ((UploadRequest.reads_schema depthLimit t).1 (Option.isSome_of_eq_some hm)).1.1
  have hwritten := Tree.writtenAs_of_ofOctets? ht hheld
  have hdata := UploadRequest.leastSizes_of_read hm
  have htrimmed := Text.length_trimmed_le m.data.toList
  rw [Base64.decodeTrimmed?_eq_some.1 hpayload, Base64.length_encodeList] at htrimmed
  have hleast := hwritten.leastSizes_le
  omega

/-- The shortest request: an array of the data alone. -/
theorem UploadRequest.of_array (payload : List UInt8) :
    let request := Utf8.octets (Tree.array [.string (some (Base64.encode payload))]).render
    ProtocolId.upload.decode UploadRequest.format request = .ok ⟨Base64.encode payload⟩ ∧
      request.length = 4 + 4 * ((payload.length + 2) / 3) := by
  intro request
  have htokens : (Tree.array [.string (some (Base64.encode payload))]).tokens =
      [.openArray, .string (some (Base64.encode payload)), .closeArray] := rfl
  constructor
  · have hexact : (Tree.array [.string (some (Base64.encode payload))]).Exact :=
      Tree.exact_array (List.forall_mem_singleton.2 (Tree.exact_string _))
    rw [ProtocolId.decode, Format.ofOctets?, Tree.ofOctets?_render hexact]
    rfl
  · have hplain : ∀ token ∈ (Tree.array [.string (some (Base64.encode payload))]).tokens,
        token.IsPlain := by
      rw [htokens]
      simp only [List.forall_mem_cons]
      exact ⟨trivial, Base64.isPlain_encode _, trivial, List.forall_mem_nil _⟩
    rw [Tree.length_octets_render hplain, htokens]
    simp only [leastSizes_cons, leastSizes_nil, Token.leastSize, Base64.length_encode]
    omega

/-! ## Uploads and their blocks -/

/-- A request is read by a node with a limit and sealed by its custody. -/
structure Custody.TakesUpload (limit : Nat) (c : Custody) (key : EnvelopeKey)
    (nonce request : List UInt8) (upload : SealedUpload) : Prop where
  read : ((StreamReader.start limit).feed request true).1 = .done (.ok request)
  nonce_length : nonce.length = Envelope.nonceSize
  seals : (c.sealUpload key nonce request).1 = .ok upload

/-- What a node with a limit comes to when it writes the block that it offers. -/
def SealedUpload.offered (upload : SealedUpload) (limit : Nat) : Except ProtocolFault (List UInt8) :=
  (⟨limit, false⟩ : StreamWriter).write (DataBlock.format.octets upload.block)

section

variable {limit : Nat} {c : Custody} {key : EnvelopeKey} {nonce request : List UInt8}
  {upload : SealedUpload}

/-- A request is read whole exactly if it is within the limit. -/
theorem StreamReader.reads_whole_iff :
    ((start limit).feed request true).1 = .done (.ok request) ↔ request.length ≤ limit := by
  rw [Serving.feed_start]
  by_cases h : request.length ≤ limit
  · exact iff_of_true (by rw [if_pos h]) h
  · refine iff_of_false (fun hread => ?_) h
    rw [if_neg h] at hread
    cases Progress.done.inj hread

theorem SealedUpload.offered_eq (upload : SealedUpload) (limit : Nat) :
    upload.offered limit =
      if (DataBlock.format.octets upload.block).length ≤ limit then
        .ok (DataBlock.format.octets upload.block)
      else .error (.tooLong limit) :=
  Serving.write_open rfl _

/-- An upload that was sealed was decoded, and its data was read. -/
theorem Custody.TakesUpload.exists_payload (h : c.TakesUpload limit key nonce request upload) :
    ∃ m payload, ProtocolId.upload.decode UploadRequest.format request = .ok m ∧
      Base64.decodeTrimmed? m.data = some payload := by
  have hseals := h.seals
  cases hrequest : ProtocolId.upload.decode UploadRequest.format request with
  | error e =>
    rw [sealUpload, hrequest] at hseals
    cases hseals
  | ok m =>
    cases hpayload : Base64.decodeTrimmed? m.data with
    | none =>
      rw [sealUpload, hrequest] at hseals
      dsimp only at hseals
      rw [UploadRequest.plaintext, hpayload] at hseals
      cases hseals
    | some payload => exact ⟨m, payload, rfl, hpayload⟩

variable {m : UploadRequest} {payload : List UInt8}

/-- The block of an upload is as long as its payload makes it. -/
theorem Custody.TakesUpload.length_block (h : c.TakesUpload limit key nonce request upload)
    (hrequest : ProtocolId.upload.decode UploadRequest.format request = .ok m)
    (hpayload : Base64.decodeTrimmed? m.data = some payload) :
    (DataBlock.format.octets upload.block).length = 87 + 4 * ((payload.length + 30) / 3) := by
  have hseals := h.seals
  rw [sealUpload_eq hrequest hpayload] at hseals
  obtain rfl := Except.ok.inj hseals
  have hmin : Envelope.minSize = 28 := rfl
  refine (DataBlock.length_offer _).trans ?_
  rw [Envelope.length_sealWith key h.nonce_length, hmin]

/-- A request that is read and decoded is taken, whatever the key and the nonce. -/
theorem Custody.exists_takesUpload (hread : request.length ≤ limit)
    (hrequest : ProtocolId.upload.decode UploadRequest.format request = .ok m)
    (hpayload : Base64.decodeTrimmed? m.data = some payload) (hnonce : nonce.length = Envelope.nonceSize)
    (c : Custody) (key : EnvelopeKey) : ∃ upload, c.TakesUpload limit key nonce request upload :=
  ⟨_, StreamReader.reads_whole_iff.2 hread, hnonce,
    congrArg Prod.fst (sealUpload_eq hrequest hpayload c key nonce)⟩

end

/-- **Which uploads are offered in vain.** If a node takes an upload within a limit, the block that it
offers has 87 octets and those of the envelope in Base64, at most 123 more than the request. The block is
written to the other node if it is within the limit, and else it is refused as too long. Some upload that
is taken is refused so if the limit has room for the shortest request, and then only. -/
theorem Custody.offer_refused_iff (limit : Nat) :
    (∀ (c : Custody) (key : EnvelopeKey) (nonce request : List UInt8) (upload : SealedUpload),
      c.TakesUpload limit key nonce request upload →
      let block := DataBlock.format.octets upload.block
      upload.offered limit = (if block.length ≤ limit then .ok block else .error (.tooLong limit)) ∧
        block.length ≤ request.length + 123 ∧
        ∃ m payload, ProtocolId.upload.decode UploadRequest.format request = .ok m ∧
          Base64.decodeTrimmed? m.data = some payload ∧
          block.length = 87 + 4 * ((payload.length + 30) / 3)) ∧
    ((∃ (c : Custody) (key : EnvelopeKey) (nonce request : List UInt8) (upload : SealedUpload),
      c.TakesUpload limit key nonce request upload ∧ upload.offered limit = .error (.tooLong limit)) ↔
        4 ≤ limit) := by
  constructor
  · intro c key nonce request upload h
    obtain ⟨m, payload, hrequest, hpayload⟩ := h.exists_payload
    have hblock := h.length_block hrequest hpayload
    have hleast := UploadRequest.length_le hrequest hpayload
    exact ⟨upload.offered_eq limit, by omega, m, payload, hrequest, hpayload, hblock⟩
  constructor
  · rintro ⟨c, key, nonce, request, upload, h, -⟩
    obtain ⟨m, payload, hrequest, hpayload⟩ := h.exists_payload
    have hleast := UploadRequest.length_le hrequest hpayload
    have hread := StreamReader.reads_whole_iff.1 h.read
    omega
  · intro hlimit
    -- as many groups of three octets as the limit has room for
    obtain ⟨payload, hlength⟩ : ∃ payload : List UInt8, payload.length = 3 * ((limit - 4) / 4) :=
      ⟨List.replicate _ 0, List.length_replicate⟩
    obtain ⟨hrequest, hsize⟩ := UploadRequest.of_array payload
    have hpayload := Base64.decodeTrimmed?_encode payload
    have hnonce : (List.replicate 12 (0 : UInt8)).length = Envelope.nonceSize := rfl
    have hread : 4 + 4 * ((payload.length + 2) / 3) ≤ limit := by omega
    rw [← hsize] at hread
    obtain ⟨upload, h⟩ := exists_takesUpload hread hrequest hpayload hnonce .empty
      ⟨List.replicate 32 0, rfl⟩
    refine ⟨_, _, _, _, upload, h, ?_⟩
    have hblock := h.length_block hrequest hpayload
    rw [upload.offered_eq, if_neg]
    omega

/-- With a limit of 300 octets, 213 octets are taken, and their block of 411 octets is refused. -/
theorem Custody.offer_refused_at_three_hundred :
    ∃ (key : EnvelopeKey) (nonce request : List UInt8) (upload : SealedUpload),
      Custody.empty.TakesUpload 300 key nonce request upload ∧ request.length = 288 ∧
        (DataBlock.format.octets upload.block).length = 411 ∧
        upload.offered 300 = .error (.tooLong 300) := by
  obtain ⟨payload, hlength⟩ : ∃ payload : List UInt8, payload.length = 213 :=
    ⟨List.replicate _ 7, List.length_replicate⟩
  obtain ⟨hrequest, hsize⟩ := UploadRequest.of_array payload
  have hpayload := Base64.decodeTrimmed?_encode payload
  rw [hlength] at hsize
  have hnonce : (List.replicate 12 (0 : UInt8)).length = Envelope.nonceSize := rfl
  have hread : _ ≤ 300 := hsize.trans_le (by decide)
  obtain ⟨upload, h⟩ := exists_takesUpload hread hrequest hpayload hnonce .empty
    ⟨List.replicate 32 0, rfl⟩
  obtain ⟨hoffered, -⟩ := (offer_refused_iff 300).1 _ _ _ _ _ h
  have hblock := h.length_block hrequest hpayload
  rw [hlength] at hblock
  rw [hblock] at hoffered
  exact ⟨_, _, _, upload, h, hsize, hblock, hoffered⟩

end SealedCustody
