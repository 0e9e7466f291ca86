import SealedCustody.Proofs.Verification.Serving

/-!
# Nodes that are built

A node is bound to its addresses, and so runs, before it has all that it is to have. Two things can fail
after that. Registering the built-in handlers never does, since a node that was just bound has none
(`registerBuiltins_of_bind`). Reading the peers to ask does, and then nobody stops the node: its own
upload handler keeps it (`build_cases`).

So a build fails in two ways (`build_failed_iff`). Either it would fail with any peers to ask: then
nothing is left running and no port is taken. Or it is the peers alone that are bad: then all that the
node was to run is left running.
-/

namespace SealedCustody

/-! ## Binding -/

namespace Handlers

/-- A handler that is registered replaces none. -/
theorem get?_of_register {hs hs' : Handlers} {p q : ProtocolId} {h g : Handler}
    (hregister : hs.register p h = .ok hs') (hget : hs.get? q = some g) : hs'.get? q = some g := by
  unfold register at hregister
  split at hregister
  · cases hregister
  · rename_i hfree
    obtain rfl := Except.ok.inj hregister
    have hne : p ≠ q := by
      rintro rfl
      rw [Table.contains_eq_isSome, hget] at hfree
      exact hfree rfl
    rw [Table.get?_insert, if_neg hne, hget]

end Handlers

namespace Node

variable {m m' : Machine} {network : NetworkConfig} {identity : Identity} {node : Node}

/-- A listener is bound for an address: to its host, and to its port if that is given. -/
def IsFor (l : Listener) (a : Address) : Prop :=
  ∃ s, a.socket? = some s ∧ l.bound.host = s.host ∧ (s.port ≠ 0 → l.bound.port = s.port)

theorem isFor_of_bind {a : Address} {l : Listener} (h : m.bind a = .ok (l, m')) : IsFor l a := by
  unfold Machine.bind at h
  split at h
  · cases h
  rename_i s hs
  split at h
  · split at h
    · rename_i hport
      obtain ⟨rfl, -⟩ := Prod.mk.inj (Except.ok.inj h)
      exact ⟨s, hs, rfl, fun hne => absurd hport hne⟩
    · obtain ⟨rfl, -⟩ := Prod.mk.inj (Except.ok.inj h)
      exact ⟨s, hs, rfl, fun _ => rfl⟩
  · cases h

/-- Every address has its listener, or none has. -/
theorem isFor_of_bindAll {as : List Address} {ls : List Listener} (h : m.bindAll as = .ok (ls, m')) :
    List.Forall₂ IsFor ls as := by
  induction as generalizing m ls with
  | nil =>
    obtain ⟨rfl, -⟩ := Prod.mk.inj (Except.ok.inj h)
    exact .nil
  | cons a as ih =>
    unfold Machine.bindAll at h
    cases hfirst : m.bind a with
    | error e =>
      rw [hfirst] at h
      cases h
    | ok bound =>
      obtain ⟨l, m₁⟩ := bound
      rw [hfirst] at h
      dsimp only [Bind.bind, Except.bind] at h
      split at h
      · cases h
      · rename_i hrest
        obtain ⟨rfl, rfl⟩ := Prod.mk.inj (Except.ok.inj h)
        exact .cons (isFor_of_bind hfirst) (ih hrest)

/-- A node that was bound has listeners for its addresses and is empty otherwise. -/
theorem of_bind (h : bind m network identity = .ok (node, m')) :
    ∃ addresses listeners, Address.ofTexts network.listen = .ok addresses ∧
      List.Forall₂ IsFor listeners addresses ∧
      node = {
        identity, network, running := true, listeners
        listening := firstAddresses listeners
        endpoint := .empty identity.peerId
        handlers := ∅, events := .empty, custody := .empty, office := none } := by
  unfold bind at h
  cases haddresses : Address.ofTexts network.listen with
  | error e =>
    rw [haddresses] at h
    cases h
  | ok addresses =>
    rw [haddresses] at h
    dsimp only [Bind.bind, Except.bind] at h
    split at h
    · cases h
    · rename_i bound hbound
      obtain ⟨rfl, rfl⟩ := Prod.mk.inj (Except.ok.inj h)
      exact ⟨addresses, bound.1, rfl, isFor_of_bindAll hbound, rfl⟩

/-- A node that was just set up: it runs, listens on all its addresses, serves the built-in handlers and
has nothing in custody yet. -/
structure SetUp (network : NetworkConfig) (n : Node) : Prop where
  running : n.running = true
  listens : ∃ addresses, Address.ofTexts network.listen = .ok addresses ∧
    List.Forall₂ IsFor n.listeners addresses
  stands : n.Stands network.maxMessageBytes
  custody : n.custody = .empty
  office : n.office = none

/-- On a node that was bound the built-in handlers can be registered, which sets it up. -/
theorem registerBuiltins_of_bind (h : bind m network identity = .ok (node, m')) :
    node.registerBuiltins.1 = .ok () ∧ node.registerBuiltins.2.SetUp network := by
  obtain ⟨addresses, listeners, haddresses, hlisteners, rfl⟩ := of_bind h
  exact ⟨rfl, rfl, ⟨addresses, haddresses, hlisteners⟩, ⟨Handlers.get?_builtin, rfl⟩, rfl, rfl⟩

/-- A node that was set up holds itself. -/
theorem SetUp.holdsItself (h : node.SetUp network) : node.holdsItself = true := by
  have hupload : node.handlers.get? .upload = some .upload :=
    h.stands.builtin (.upload, .upload) (by decide)
  rw [Node.holdsItself, Table.contains_eq_isSome, hupload]
  rfl

/-! ## Bare nodes -/

/-- Handlers that are registered under texts take nothing away. -/
theorem stands_registerTexts {limit : Nat} (texts : List (String × Handler))
    (h : node.Stands limit ∧ node.custody = .empty) :
    (node.registerTexts texts).2.Stands limit ∧ (node.registerTexts texts).2.custody = .empty := by
  induction texts generalizing node with
  | nil => exact h
  | cons entry texts ih =>
    obtain ⟨text, handler⟩ := entry
    unfold registerTexts
    split
    · exact h
    split
    · exact h
    · rename_i hs hregister
      refine ih ⟨⟨fun e he => ?_, h.1.limit_eq⟩, h.2⟩
      exact Handlers.get?_of_register hregister (h.1.builtin e he)

/-- A bare node that started with the built-in handlers stands, with nothing in custody. -/
theorem stands_of_startBare {handlers : List (String × Handler)}
    (h : startBare m network identity true handlers = .started node m') :
    node.Stands network.maxMessageBytes ∧ node.custody = .empty := by
  unfold startBare at h
  cases hbind : bind m network identity with
  | error e =>
    rw [hbind] at h
    cases h
  | ok bound =>
    obtain ⟨bare, m₁⟩ := bound
    have hsetUp := (registerBuiltins_of_bind hbind).2
    simp only [hbind, if_true] at h
    split at h
    · cases h
    · rename_i n hregistered
      rw [hregistered] at hsetUp
      have htexts := stands_registerTexts handlers ⟨hsetUp.stands, hsetUp.custody⟩
      split at h <;> (rename_i hresult; rw [hresult] at htexts)
      · cases h
      · cases h
        exact htexts

/-! ## Custody nodes -/

/-- Nodes that were set up and differ in their offices at most do not differ. -/
theorem SetUp.eq_of_office {n n' : Node} {office office' : Option Office} (h : n.SetUp network)
    (h' : n'.SetUp network) (heq : { n with office } = { n' with office := office' }) : n = n' := by
  have hn : { n with office := none } = n := by rw [← h.office]
  have hn' : { n' with office := none } = n' := by rw [← h'.office]
  rw [← hn, ← hn']
  exact congrArg (fun node : Node => { node with office := none }) heq

/-- How a start ends with a node that was set up, whoever it is to ask. -/
def outcome (n : Node) (bootstrap : List Address) (m : Machine) : Except Error PeerSource → Start
  | .error e => .failed e (some n) m
  | .ok peers => .started { n with office := some ⟨.empty, peers, bootstrap, false, false⟩ } m

/-- Assembling fails whoever is to be asked, with nothing left running and the machine as it was, or it
sets a node up before it looks for the peers to ask. -/
theorem assemble_cases (m : Machine) (p : Plan) (identity : Identity) :
    (∃ e, ∀ peers, assemble m { p with peers } identity = .failed e none m) ∨
      ∃ (n : Node) (bootstrap : List Address) (m' : Machine), n.SetUp p.config.network ∧
        ∀ peers, assemble m { p with peers } identity =
          n.outcome bootstrap m' (peerSource { p with peers }) := by
  unfold assemble
  dsimp only
  cases Address.ofTexts p.config.network.bootstrap with
  | error e => exact Or.inl ⟨e, fun _ => rfl⟩
  | ok bootstrap =>
    cases hbind : bind m p.config.network identity with
    | error e => exact Or.inl ⟨e, fun _ => rfl⟩
    | ok bound =>
      obtain ⟨bare, m'⟩ := bound
      obtain ⟨hregistered, hsetUp⟩ := registerBuiltins_of_bind hbind
      obtain ⟨n, hn⟩ : ∃ n, bare.registerBuiltins = (.ok (), n) :=
        ⟨_, Prod.ext hregistered rfl⟩
      rw [hn] at hsetUp
      refine Or.inr ⟨n, bootstrap, m', hsetUp, fun peers => ?_⟩
      dsimp only
      rw [hn]
      cases peerSource { p with peers } with
      | ok source => rfl
      | error e =>
        show giveUp n m' e = .failed e (some n) m'
        rw [giveUp, if_pos ⟨hsetUp.running, hsetUp.holdsItself⟩]

/-- What the root directory and the identity come to does not depend on who is to be asked either. -/
theorem build_cases (m : Machine) (d : Disk) (cwd : Location) (p : Plan) :
    (∃ e, ∀ peers, (build m d cwd { p with peers }).1 = .failed e none m) ∨
      ∃ (n : Node) (bootstrap : List Address) (m' : Machine), n.SetUp p.config.network ∧
        ∀ peers, (build m d cwd { p with peers }).1 =
          n.outcome bootstrap m' (peerSource { p with peers }) := by
  have hidentity : ∀ peers d, resolveIdentity { p with peers } d cwd = resolveIdentity p d cwd :=
    fun _ _ => rfl
  unfold build
  simp only [hidentity]
  cases makeRoot d cwd p.config.rootDir with
  | mk root d₁ =>
    cases root with
    | error e => exact Or.inl ⟨e, fun _ => rfl⟩
    | ok u =>
      dsimp only
      cases resolveIdentity p d₁ cwd with
      | mk found d₂ =>
        cases found with
        | error e => exact Or.inl ⟨e, fun _ => rfl⟩
        | ok identity => exact assemble_cases m p identity

/-- A custody node that was built and started stands, with nothing in custody. -/
theorem stands_of_build {d d' : Disk} {cwd : Location} {p : Plan}
    (h : build m d cwd p = (.started node m', d')) :
    node.Stands p.config.network.maxMessageBytes ∧ node.custody = .empty := by
  have hstarted : (build m d cwd { p with peers := p.peers }).1 = .started node m' := congrArg Prod.fst h
  rcases build_cases m d cwd p with ⟨e, hfailed⟩ | ⟨n, bootstrap, m₁, hsetUp, hbuilt⟩
  · rw [hfailed] at hstarted
    cases hstarted
  · rw [hbuilt] at hstarted
    unfold outcome at hstarted
    split at hstarted
    · cases hstarted
    · cases hstarted
      exact ⟨⟨hsetUp.stands.builtin, hsetUp.stands.limit_eq⟩, hsetUp.custody⟩

/-- A build fails in two ways. Either it would fail with any peers to ask: then nothing is left running,
and no port is taken. Or the peers to ask are bad and it would succeed with others: then the node that
would have been built is left running, all but its office. -/
theorem build_failed_iff (m : Machine) (d : Disk) (cwd : Location) (p : Plan) (e : Error)
    (left : Option Node) (m' : Machine) :
    (build m d cwd p).1 = .failed e left m' ↔
      (left = none ∧ m' = m ∧ (build m d cwd { p with peers := some [] }).1 = .failed e none m) ∨
      ∃ n office, left = some n ∧ n.SetUp p.config.network ∧ peerSource p = .error e ∧
        (build m d cwd { p with peers := some [] }).1 =
          .started { n with office := some office } m' := by
  have hsame : build m d cwd p = build m d cwd { p with peers := p.peers } := rfl
  rw [hsame]
  rcases build_cases m d cwd p with ⟨e', hfailed⟩ | ⟨n, bootstrap, m₁, hsetUp, hbuilt⟩
  · rw [hfailed, hfailed]
    constructor
    · intro heq
      cases heq
      exact Or.inl ⟨rfl, rfl, rfl⟩
    · rintro (⟨rfl, rfl, heq⟩ | ⟨n, office, rfl, hsetUp, hpeers, heq⟩)
      · exact heq
      · cases heq
  · rw [hbuilt, hbuilt]
    constructor
    · intro heq
      cases hpeers : peerSource { p with peers := p.peers } with
      | ok source =>
        rw [hpeers] at heq
        cases heq
      | error e' =>
        rw [hpeers] at heq
        cases heq
        exact Or.inr ⟨n, _, rfl, hsetUp, rfl, rfl⟩
    · rintro (⟨rfl, rfl, heq⟩ | ⟨n', office, rfl, hsetUp', hpeers, heq⟩)
      · cases heq
      · obtain ⟨hnode, rfl⟩ := Start.started.inj heq
        rw [show peerSource { p with peers := p.peers } = .error e from hpeers,
          hsetUp.eq_of_office hsetUp' hnode]
        rfl

/-- A node whose peers to ask are no addresses is not built, and yet it runs and listens. -/
theorem build_failed_iff_of_bad_peer :
    let config : NodeConfig :=
      { rootDir := "", network := { listen := ["/ip4/127.0.0.1/tcp/4620"] }, verificationPeers := ["x"] }
    let p : Plan := ⟨config, some ⟨[], []⟩, none, ⟨[], []⟩⟩
    ∃ e n m', (build (.start true) ⟨∅⟩ [] p).1 = .failed e (some n) m' ∧ n.SetUp config.network := by
  intro config p
  have hpeers : peerSource p = .error (.invalidAddress "x: invalid multiaddr") := by
    decide +kernel
  have hbuilds : ((build (.start true) ⟨∅⟩ [] { p with peers := some [] }).1 matches .failed ..) =
      false := by decide +kernel
  rcases build_cases (.start true) ⟨∅⟩ [] p with ⟨e, hfailed⟩ | ⟨n, bootstrap, m', hsetUp, hbuilt⟩
  · rw [hfailed] at hbuilds
    cases hbuilds
  · have hleft := (build_failed_iff (.start true) ⟨∅⟩ [] p _ (some n) m').2
      (Or.inr ⟨n, _, rfl, hsetUp, hpeers, hbuilt (some [])⟩)
    exact ⟨_, n, m', hleft, hsetUp⟩

end Node

end SealedCustody
