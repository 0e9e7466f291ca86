import SealedCustody.Proofs.Custody.Receipts

/-!
# The copy of a block that is offered to another node

A node that has sealed a block offers it to one other node. Of the network only what belongs to the offer
is followed here: the streams that it opens, and the nodes that these lead to. Nothing that the offer
asks for has to succeed. An operation that fails may have taken effect all the same, and a stream that
was let go of may still be served later (`Network.Fares`, `Network.Attend`).

Whatever comes of the offer, it leaves the other nodes as they were, up to one that keeps the block, and
that one keeps it if it acknowledged it (`Network.Offered`).
-/

namespace SealedCustody

open Json

/-! ## Blocks of envelopes -/

theorem Hex.toLower_digit {n : Nat} (h : n < 16) : (digit n).toLower = digit n := by
  revert n
  decide

/-- A hash is written in small letters. -/
theorem asciiLower_contentHash (bs : List UInt8) : asciiLower (contentHash bs) = contentHash bs := by
  have hsmall : ∀ c ∈ (Sha256.digest bs).flatMap Hex.octet, c.toLower = c := by
    intro c hc
    obtain ⟨b, -, hb⟩ := List.mem_flatMap.1 hc
    have hlt := b.toNat_lt
    rcases List.mem_cons.1 hb with rfl | hb
    · exact Hex.toLower_digit (by omega)
    · rw [List.mem_singleton.1 hb]
      exact Hex.toLower_digit (by omega)
  rw [asciiLower, contentHash, Hex.encode, String.toList_ofList, List.map_congr_left hsmall, List.map_id']

/-- The node with an envelope in custody under the hash of its octets. -/
def Node.keeping (node : Node) (envelope : List UInt8) : Node :=
  { node with custody := { node.custody with
    blocks := node.custody.blocks.insert (contentHash envelope) envelope } }

theorem Node.blocks_keeping (node : Node) (envelope : List UInt8) :
    (node.keeping envelope).custody.blocks.get? (contentHash envelope) = some envelope :=
  (Table.get?_insert ..).trans (if_pos rfl)

theorem Custody.octetsOf_ofEnvelope (envelope : List UInt8) :
    octetsOf (.ofEnvelope envelope) = .ok envelope :=
  octetsOf_eq_ok_iff.2
    ⟨Base64.decodeTrimmed?_encode envelope, (asciiLower_contentHash envelope).symm⟩

/-- The message that offers the block of an envelope. -/
def DataBlock.offer (envelope : List UInt8) : List UInt8 :=
  DataBlock.format.octets (.ofEnvelope envelope)

/-- Of the block of an envelope the envelope is taken in, under its hash. -/
theorem Custody.Takes.of_offer {c custody : Custody} {envelope : List UInt8} {receipt : Receipt}
    (h : c.Takes .store (DataBlock.offer envelope) receipt custody) :
    receipt = ⟨contentHash envelope⟩ ∧
      custody = { c with blocks := c.blocks.insert (contentHash envelope) envelope } := by
  obtain ⟨b, octets, hmessage, hoctets, -, rfl, rfl⟩ := h.of_store
  have hdecode := ProtocolId.decode_octets .store
    (DataBlock.keeps (depthLimit - 1) (.ofEnvelope envelope))
  cases hdecode.symm.trans hmessage
  cases (Base64.decodeTrimmed?_encode envelope).symm.trans hoctets
  rw [show (DataBlock.ofEnvelope envelope).hash = contentHash envelope from rfl,
    asciiLower_contentHash]
  exact ⟨rfl, rfl⟩

theorem Custody.takes_offer (c : Custody) (envelope : List UInt8) :
    c.Takes .store (DataBlock.offer envelope) ⟨contentHash envelope⟩
      { c with blocks := c.blocks.insert (asciiLower (contentHash envelope)) envelope } :=
  .block (ProtocolId.decode_octets .store (DataBlock.keeps (depthLimit - 1) (.ofEnvelope envelope)))
    (Base64.decodeTrimmed?_encode envelope) (asciiLower_contentHash envelope).symm

namespace Network

/-! ## Streams that go on -/

/-- A stream whose request is complete is served by the node that it leads to. -/
inductive Attend : Network → List (PeerId × Event) → Network → Prop
  | intro {net : Network} {id : StreamId} {c : Conduit} {told : List Event} {reply : List UInt8}
      {nodes : Table PeerId Node} (hconduit : net.conduits.get? id = some c)
      (hclosed : c.writer.closed = true) (hreply : c.reply = none)
      (hserves : Serves net.nodes c.peer c.protocol c.sent told reply nodes) :
      Attend net (told.map (c.peer, ·)) ⟨nodes, net.conduits.insert id { c with reply := some reply }⟩

/-- What comes of a question about another node. An operation that fails may have taken effect, and a
stream goes on when it is let go of. -/
inductive Fares : Network → (q : Query) → q.Answer → Network → Prop
  | effect {net net' : Network} {q : Query} {a : q.Answer} (hq : ∀ own, q ≠ .release own)
      (h : net.Effect q a net') : Fares net q a net'
  | writtenYet {net : Network} {id : StreamId} {c : Conduit} {payload sent : List UInt8}
      (hconduit : net.conduits.get? id = some c) (hwrite : c.writer.write payload = .ok sent)
      (e : Error) :
      Fares net (.write ⟨id, true⟩ payload) (.error e)
        { net with conduits := net.conduits.insert id { c with sent := c.sent ++ sent } }
  | finishedYet {net : Network} {id : StreamId} {c : Conduit}
      (hconduit : net.conduits.get? id = some c) (e : Error) :
      Fares net (.finish ⟨id, true⟩) (.error e)
        { net with conduits := net.conduits.insert id { c with writer := c.writer.close } }
  | released (net : Network) (own : StreamEnd) : Fares net (.release own) () net

/-- The nodes are these, and there are no streams. -/
structure Idle (nodes : Table PeerId Node) (net : Network) : Prop where
  nodes_eq : net.nodes = nodes
  get?_eq : ∀ id, net.conduits.get? id = none

/-- The nodes are these, and there is one stream. -/
structure Alone (nodes : Table PeerId Node) (id : StreamId) (c : Conduit) (net : Network) : Prop where
  nodes_eq : net.nodes = nodes
  get?_eq : ∀ k, net.conduits.get? k = if id = k then some c else none

section

variable {nodes : Table PeerId Node} {net net' : Network} {es : List (PeerId × Event)} {id : StreamId}
  {c : Conduit}

theorem Alone.insert (h : Alone nodes id c net) (c' : Conduit) :
    Alone nodes id c' { net with conduits := net.conduits.insert id c' } where
  nodes_eq := h.nodes_eq
  get?_eq := by
    intro k
    rw [Table.get?_insert, h.get?_eq]
    by_cases hk : id = k
    · rw [if_pos hk, if_pos hk]
    · rw [if_neg hk, if_neg hk, if_neg hk]

theorem Alone.eq_of_get? (h : Alone nodes id c net) {k : StreamId} {c' : Conduit}
    (hk : net.conduits.get? k = some c') : k = id ∧ c' = c := by
  rw [h.get?_eq] at hk
  split at hk
  · rename_i heq
    exact ⟨heq.symm, (Option.some.inj hk).symm⟩
  · cases hk

/-- Where there are no streams, nothing goes on. -/
theorem Idle.eq_of_reaches (h : Idle nodes net) (hr : Reaches Attend net es net') : net' = net := by
  cases hr with
  | refl => rfl
  | next first rest =>
    cases first with
    | intro hconduit => exact nomatch (h.get?_eq _).symm.trans hconduit

/-- A stream that is still written on is not served. -/
theorem Alone.eq_of_reaches (h : Alone nodes id c net) (hopen : c.writer.closed = false)
    (hr : Reaches Attend net es net') : net' = net := by
  cases hr with
  | refl => rfl
  | next first rest =>
    cases first with
    | intro hconduit hclosed =>
      obtain ⟨rfl, rfl⟩ := h.eq_of_get? hconduit
      exact nomatch hclosed.symm.trans hopen

/-! ### What questions change -/

theorem Fares.eq_of_connections {n : NodeId} {r : Except Error (List Connection)}
    (h : Fares net (.connections n) r net') : net' = net := by
  cases h with
  | effect hq heffect =>
    cases heffect with
    | listed => rfl

theorem Fares.eq_of_choose {among : Nat} {i : Option (Fin among)} (h : Fares net (.choose among) i net') :
    net' = net := by
  cases h with
  | effect hq heffect =>
    cases heffect with
    | chosen => rfl

theorem Fares.eq_of_read {own : StreamEnd} {r : Except Error (List UInt8)}
    (h : Fares net (.read own) r net') : net' = net := by
  cases h with
  | effect hq heffect => cases heffect <;> rfl

theorem Fares.eq_of_release {own : StreamEnd} {u : Unit} (h : Fares net (.release own) u net') :
    net' = net := by
  cases h with
  | effect hq heffect => exact absurd rfl (hq own)
  | released => rfl

/-- The first stream is opened, or there is none. -/
theorem Idle.of_openStream (h : Idle nodes net) {n : NodeId} {peer : PeerId} {p : ProtocolId}
    {r : Except Error StreamEnd} (hf : Fares net (.openStream n peer p) r net') :
    (Idle nodes net' ∧ ∃ e, r = .error e) ∨ ∃ id limit, r = .ok ⟨id, true⟩ ∧
      Alone nodes id ⟨peer, p, ⟨limit, false⟩, [], none⟩ net' := by
  cases hf with
  | effect hq heffect =>
    cases heffect with
    | notOpened _ _ _ e => exact Or.inl ⟨h, e, rfl⟩
    | @opened id _ _ _ limit hfresh =>
      refine Or.inr ⟨id, limit, rfl, h.nodes_eq, fun k => ?_⟩
      rw [Table.get?_insert, h.get?_eq]

/-- On an open stream the payload is written, or nothing. -/
theorem Alone.of_write (h : Alone nodes id c net) (hopen : c.writer.closed = false)
    {payload : List UInt8} {r : Except Error Unit} (hf : Fares net (.write ⟨id, true⟩ payload) r net') :
    (net' = net ∧ ∃ e, r = .error e) ∨ Alone nodes id { c with sent := c.sent ++ payload } net' := by
  have hwritten {k : StreamId} {d : Conduit} {sent : List UInt8}
      (hk : net.conduits.get? k = some d) (hwrite : d.writer.write payload = .ok sent) :
      Alone nodes id { c with sent := c.sent ++ payload }
        { net with conduits := net.conduits.insert k { d with sent := d.sent ++ sent } } := by
    obtain ⟨rfl, rfl⟩ := h.eq_of_get? hk
    rw [Serving.write_open hopen] at hwrite
    split at hwrite
    · obtain rfl := Except.ok.inj hwrite
      exact h.insert _
    · cases hwrite
  cases hf with
  | effect hq heffect =>
    cases heffect with
    | written hk hwrite => exact Or.inr (hwritten hk hwrite)
    | notWritten _ _ e => exact Or.inl ⟨rfl, e, rfl⟩
  | writtenYet hk hwrite => exact Or.inr (hwritten hk hwrite)

/-- A stream is closed, or left as it was. -/
theorem Alone.of_finish (h : Alone nodes id c net) {r : Except Error Unit}
    (hf : Fares net (.finish ⟨id, true⟩) r net') :
    net' = net ∨ Alone nodes id { c with writer := c.writer.close } net' := by
  have hclosed {d : Conduit} (hk : net.conduits.get? id = some d) :
      Alone nodes id { c with writer := c.writer.close }
        { net with conduits := net.conduits.insert id { d with writer := d.writer.close } } := by
    obtain ⟨-, rfl⟩ := h.eq_of_get? hk
    exact h.insert _
  cases hf with
  | effect hq heffect =>
    cases heffect with
    | finished hk => exact Or.inr (hclosed hk)
    | notFinished => exact Or.inl rfl
  | finishedYet hk => exact Or.inr (hclosed hk)

end

/-! ## What an offer leaves -/

/-- What an offer of an envelope leaves among other nodes, which were these when it began. There is one
stream at most; it leads to a node other than the uploader, for the protocol of blocks, and nothing but
the block was written on it. The nodes are as they were, up to one that the stream leads to: that one may
keep the envelope, and does if it has acknowledged it. -/
structure Offered (uploader : PeerId) (envelope : List UInt8) (nodes : Table PeerId Node)
    (net : Network) : Prop where
  alone : ∀ id c id' c', net.conduits.get? id = some c → net.conduits.get? id' = some c' → id = id'
  offer : ∀ id c, net.conduits.get? id = some c → c.peer ≠ uploader ∧ c.protocol = .store ∧
    (c.sent = DataBlock.offer envelope ∨ c.sent = [] ∧ c.writer.closed = false)
  nodes_eq : ∀ peer, net.nodes.get? peer = nodes.get? peer ∨
    ∃ id c node, net.conduits.get? id = some c ∧ c.peer = peer ∧ c.reply.isSome = true ∧
      nodes.get? peer = some node ∧ net.nodes.get? peer = some (node.keeping envelope)
  acknowledged : ∀ id c reply receipt, net.conduits.get? id = some c → c.reply = some reply →
    ProtocolId.store.decode Receipt.format reply = .ok receipt →
    ∃ node, net.nodes.get? c.peer = some node ∧
      node.custody.blocks.get? (contentHash envelope) = some envelope

section

variable {uploader : PeerId} {envelope : List UInt8} {nodes : Table PeerId Node} {net net' : Network}
  {es : List (PeerId × Event)} {id : StreamId} {c : Conduit}

theorem Idle.offered (h : Idle nodes net) : Offered uploader envelope nodes net where
  alone := fun id c id' c' hc => nomatch (h.get?_eq id).symm.trans hc
  offer := fun id c hc => nomatch (h.get?_eq id).symm.trans hc
  nodes_eq := fun peer => Or.inl (by rw [h.nodes_eq])
  acknowledged := fun id c reply receipt hc => nomatch (h.get?_eq id).symm.trans hc

theorem Alone.offered (h : Alone nodes id c net) (hpeer : c.peer ≠ uploader)
    (hprotocol : c.protocol = .store)
    (hsent : c.sent = DataBlock.offer envelope ∨ c.sent = [] ∧ c.writer.closed = false)
    (hreply : c.reply = none) : Offered uploader envelope nodes net where
  alone := fun k d k' d' hk hk' => (h.eq_of_get? hk).1.trans (h.eq_of_get? hk').1.symm
  offer := fun k d hk => (h.eq_of_get? hk).2 ▸ ⟨hpeer, hprotocol, hsent⟩
  nodes_eq := fun peer => Or.inl (by rw [h.nodes_eq])
  acknowledged := by
    intro k d reply receipt hk hd
    obtain ⟨rfl, rfl⟩ := h.eq_of_get? hk
    exact nomatch hreply.symm.trans hd

/-- A node with the built-in handlers that is offered the block of an envelope is left as it was or
keeping the envelope, and keeps it if it wrote a receipt. -/
theorem of_serves_offer {limit : Nat} {node : Node} {peer : PeerId} (hnode : nodes.get? peer = some node)
    (hstands : node.Stands limit) {told : List Event} {reply : List UInt8} {nodes' : Table PeerId Node}
    (h : Serves nodes peer .store (DataBlock.offer envelope) told reply nodes') :
    ∃ node', nodes' = nodes.insert peer node' ∧ (node' = node ∨ node' = node.keeping envelope) ∧
      ∀ receipt, ProtocolId.store.decode Receipt.format reply = .ok receipt →
        node' = node.keeping envelope := by
  cases h with
  | @intro node₁ h n caller own told s hnode₁ hhandler hrun =>
    obtain rfl := Option.some.inj (hnode₁.symm.trans hnode)
    have hservice := hstands.builtin (.store, .service .store) (by decide)
    obtain rfl := Option.some.inj (hhandler.symm.trans hservice)
    obtain ⟨hserved, -⟩ := Serving.of_serveAndClose hrun
    refine ⟨s.node, rfl, ?_, fun receipt hreceipt => ?_⟩
    · rcases hserved.takes_or_refuses .store with ⟨receipt, custody, htakes, -, hs, -⟩ | ⟨hs, -⟩
      · rw [hs, htakes.of_offer.2]
        exact Or.inr rfl
      · exact Or.inl hs
    · obtain ⟨custody, htakes, hs⟩ := hserved.takes_of_decode .store hreceipt
      rw [hs, htakes.of_offer.2]
      rfl

/-- A node with the built-in handlers that is offered the block of an envelope can write a receipt, if
both are within its limit. -/
theorem serves_offer {limit : Nat} {node : Node} {peer : PeerId} (hnode : nodes.get? peer = some node)
    (hstands : node.Stands limit) (hoffer : (DataBlock.offer envelope).length ≤ limit)
    (hreceipt : (Receipt.format.octets ⟨contentHash envelope⟩).length ≤ limit) :
    ∃ told nodes', Serves nodes peer .store (DataBlock.offer envelope) told
      (Receipt.format.octets ⟨contentHash envelope⟩) nodes' := by
  have hhandler := hstands.builtin (.store, .service .store) (by decide)
  rw [← hstands.limit_eq] at hoffer hreceipt
  obtain ⟨told, s, hrun⟩ := Serving.runs_serveAndClose .store ⟨0, false⟩ 0 peer .store node
    (DataBlock.offer envelope)
  obtain ⟨hserved, -⟩ := Serving.of_serveAndClose hrun
  have hwritten : s.written = Receipt.format.octets ⟨contentHash envelope⟩ := by
    rcases hserved.takes_or_refuses .store with
      ⟨receipt, custody, htakes, -, -, hwritten⟩ | ⟨-, -, hlong | hnone⟩
    · obtain ⟨rfl, -⟩ := htakes.of_offer
      rw [hwritten, Serving.writtenOf, if_pos hreceipt]
    · exact absurd hoffer (Nat.not_le.2 hlong)
    · exact absurd (node.custody.takes_offer envelope) (hnone _ _)
  exact ⟨told, _, hwritten ▸ Serves.intro hnode hhandler hrun⟩

theorem Offered.attend (h : Offered uploader envelope nodes net)
    (hpeers : ∀ peer node, nodes.get? peer = some node → ∃ limit, node.Stands limit)
    (ha : Attend net es net') : Offered uploader envelope nodes net' := by
  cases ha with
  | @intro id c told reply nodes' hconduit hclosed hreply hserves =>
    obtain ⟨hpeer, hprotocol, hsent⟩ := h.offer id c hconduit
    have hoffer : c.sent = DataBlock.offer envelope := by
      rcases hsent with hsent | ⟨-, hopen⟩
      · exact hsent
      · exact nomatch hclosed.symm.trans hopen
    -- The only stream was not served before, so the nodes are as they were.
    have hsame (peer : PeerId) : net.nodes.get? peer = nodes.get? peer := by
      rcases h.nodes_eq peer with hsame | ⟨k, d, node, hk, -, hsome, -, -⟩
      · exact hsame
      · obtain rfl := h.alone k d id c hk hconduit
        obtain rfl := Option.some.inj (hk.symm.trans hconduit)
        rw [hreply] at hsome
        cases hsome
    obtain ⟨node, hnode⟩ : ∃ node, net.nodes.get? c.peer = some node := by
      cases hserves with
      | intro hnode => exact ⟨_, hnode⟩
    obtain ⟨limit, hstands⟩ := hpeers c.peer node ((hsame c.peer).symm.trans hnode)
    rw [hprotocol, hoffer] at hserves
    obtain ⟨node', rfl, hnode', hreceipt⟩ := of_serves_offer hnode hstands hserves
    have honly {k : StreamId} {d : Conduit}
        (hk : (net.conduits.insert id { c with reply := some reply }).get? k = some d) :
        k = id ∧ d = { c with reply := some reply } := by
      rw [Table.get?_insert] at hk
      by_cases hid : id = k
      · rw [if_pos hid] at hk
        exact ⟨hid.symm, (Option.some.inj hk).symm⟩
      · rw [if_neg hid] at hk
        exact absurd (h.alone id c k d hconduit hk) hid
    have hthis : (net.conduits.insert id { c with reply := some reply }).get? id =
        some { c with reply := some reply } := by rw [Table.get?_insert, if_pos rfl]
    constructor
    case alone => exact fun k d k' d' hk hk' => (honly hk).1.trans (honly hk').1.symm
    case offer =>
      intro k d hk
      obtain ⟨rfl, rfl⟩ := honly hk
      exact ⟨hpeer, hprotocol, Or.inl hoffer⟩
    case nodes_eq =>
      intro peer
      show (net.nodes.insert c.peer node').get? peer = nodes.get? peer ∨ _
      by_cases hp : c.peer = peer
      · subst hp
        rcases hnode' with rfl | rfl
        · rw [Table.get?_insert, if_pos rfl, ← hsame, hnode]
          exact Or.inl rfl
        · exact Or.inr ⟨id, _, node, hthis, rfl, rfl, hsame c.peer ▸ hnode,
            by rw [Table.get?_insert, if_pos rfl]⟩
      · rw [Table.get?_insert, if_neg hp]
        exact Or.inl (hsame peer)
    case acknowledged =>
      intro k d reply' receipt hk hd hdecode
      obtain ⟨rfl, rfl⟩ := honly hk
      cases hd
      refine ⟨node', by rw [Table.get?_insert, if_pos rfl], ?_⟩
      rw [hreceipt receipt hdecode]
      exact node.blocks_keeping envelope

/-- However the streams of an offer go on, what it leaves is what an offer leaves. -/
theorem Offered.reaches (h : Offered uploader envelope nodes net)
    (hpeers : ∀ peer node, nodes.get? peer = some node → ∃ limit, node.Stands limit)
    (hr : Reaches Attend net es net') : Offered uploader envelope nodes net' := by
  induction hr with
  | refl => exact h
  | next first rest ih => exact ih (h.attend hpeers first)

end

end Network

end SealedCustody
