import SealedCustody.Mesh.Exchange
import SealedCustody.Proofs.Lifecycle.Refusal
import SealedCustody.Proofs.Verification.Serving

/-!
# What a round fails with

A call that accepts a request hands on the error of its round. If that error was one about where a
request stands, the caller would take it for the answer of the store. A round has no such error of its
own: it fails as one of its operations on the network did, or since there was nobody to ask, or since an
answer was malformed (`Program.apart_dispatch`).

So where calls are accepted by rounds over the network, a refusal tells the truth, with nothing assumed of
the rounds (`Session.tellsTrue_of_dispatched`).
-/

namespace SealedCustody

/-- The operation has failed with an error. -/
inductive Query.Fails : (q : Query) → q.Answer → Error → Prop
  | dial (n : NodeId) (a : Address) (timeout : Option Nat) (e : Error) :
      Fails (.dial n a timeout) (.error e) e
  | openStream (n : NodeId) (peer : PeerId) (p : ProtocolId) (e : Error) :
      Fails (.openStream n peer p) (.error e) e
  | write (own : StreamEnd) (payload : List UInt8) (e : Error) :
      Fails (.write own payload) (.error e) e
  | finish (own : StreamEnd) (e : Error) : Fails (.finish own) (.error e) e
  | read (own : StreamEnd) (e : Error) : Fails (.read own) (.error e) e
  | connections (n : NodeId) (e : Error) : Fails (.connections n) (.error e) e

/-- No operation fails with an error about where a request stands. -/
def Answering.Apart {σ ε : Type} (answers : Answering σ ε) : Prop :=
  ∀ ⦃s q a es s' e⦄, answers s q a es s' → q.Fails a e → e.isLifecycle = false

namespace Program

variable {σ ε α β : Type} {answers : Answering σ ε}

/-- The program does not fail with an error about where a request stands. -/
def Apart (answers : Answering σ ε) (p : Program (Except Error α)) : Prop :=
  ∀ ⦃s es e s'⦄, p.Runs answers s es (.error e) s' → e.isLifecycle = false

theorem apart_done {r : Except Error α} (h : ∀ e, r = .error e → e.isLifecycle = false) :
    Apart answers (done r) :=
  fun _ _ e _ hrun => h e hrun.of_done.1

theorem apart_ok (a : α) : Apart answers (done (.ok a)) := apart_done fun _ he => nomatch he

theorem Apart.andThen {p : Program (Except Error α)} {f : α → Program (Except Error β)}
    (hp : Apart answers p) (hf : ∀ a, Apart answers (f a)) : Apart answers (p.andThen f) := by
  intro s es e s' h
  rcases h.of_andThen with ⟨e', hfailed, he⟩ | ⟨a, s₁, es₁, es₂, -, hrest, -⟩
  · cases he
    exact hp hfailed
  · exact hf a hrest

/-! ## Requests -/

variable {node : NodeId} {c : Connection} {p : ProtocolId} {payload : List UInt8}

theorem apart_sendMessage (h : Answering.Apart answers) (own : StreamEnd) :
    Apart answers (sendMessage own payload) := by
  have hwrite : Apart answers (query (.write own payload)) :=
    fun _ _ _ _ hrun => h hrun.of_query (.write own payload _)
  exact hwrite.andThen fun _ _ _ _ _ hrun => h hrun.of_query (.finish own _)

theorem apart_send (h : Answering.Apart answers) (awaits : Bool) :
    Apart answers (send node c p payload awaits) := by
  have hopen : Apart answers (query (.openStream node c.peer p)) :=
    fun _ _ _ _ hrun => h hrun.of_query (.openStream node c.peer p _)
  refine hopen.andThen fun own => ?_
  have hexchange : Apart answers (andThen (sendMessage own payload) fun () =>
      if awaits then andThen (query (.read own)) fun reply => done (.ok ⟨payload.length, some reply⟩)
      else done (.ok (⟨payload.length, none⟩ : Ack))) := by
    refine (apart_sendMessage h own).andThen fun _ => ?_
    split
    · have hread : Apart answers (query (.read own)) := fun _ _ _ _ hrun => h hrun.of_query (.read own _)
      exact hread.andThen fun _ => apart_ok _
    · exact apart_ok _
  -- Letting go of the stream leaves the outcome as it is.
  intro s es e s' hrun
  obtain ⟨r, s₁, es₁, es₂, hran, hrest, -⟩ := Runs.of_bind hrun
  obtain ⟨u, s₂, es₃, es₄, -, hdone, -⟩ := Runs.of_bind hrest
  obtain ⟨rfl, -, -⟩ := hdone.of_done
  exact hexchange hran

theorem apart_request (h : Answering.Apart answers) (f : Json.Format α) :
    Apart answers (request node c p f payload) := by
  refine (apart_send h true).andThen fun ack => apart_done fun e he => ?_
  unfold ProtocolId.decode at he
  split at he
  · cases he
  · cases he
    rfl

/-! ## Rounds -/

theorem apart_askPeer (h : Answering.Apart answers) (q : VerifyRequest) (a : Address) :
    Apart answers (askPeer node q a) := by
  have hdial : Apart answers (query (.dial node a none)) :=
    fun _ _ _ _ hrun => h hrun.of_query (.dial node a none _)
  refine hdial.andThen fun c => (apart_request h VerifyResponse.format).andThen fun response => ?_
  refine apart_done fun e he => ?_
  unfold outcomeOf at he
  split at he
  · cases he
  · cases he
    rfl

theorem apart_peersOf (h : Answering.Apart answers) (source : PeerSource) :
    Apart answers (peersOf node source) := by
  cases source with
  | listed as => exact apart_ok as
  | connected =>
    have hlist : Apart answers (query (.connections node)) :=
      fun _ _ _ _ hrun => h hrun.of_query (.connections node _)
    exact hlist.andThen fun cs => apart_ok _

/-- The last error of those that were asked is the error of one of them. -/
theorem apart_askOn {ask : Address → Program (Except Error Outcome)}
    (hask : ∀ a, Apart answers (ask a)) (unknown : Option Outcome) (fault : Option Error)
    (hfault : ∀ e, fault = some e → e.isLifecycle = false) (addresses : List Address) :
    Apart answers (askOn ask unknown fault addresses) := by
  induction addresses generalizing unknown fault with
  | nil =>
    cases unknown with
    | some o => exact apart_ok o
    | none =>
      cases fault with
      | none => exact apart_done fun e he => by cases he; rfl
      | some e => exact apart_done fun e' he => hfault e' (congrArg some (Except.error.inj he))
  | cons a rest ih =>
    intro s es e s' hrun
    obtain ⟨r, s₁, es₁, es₂, hasked, hrest, -⟩ := Runs.of_bind hrun
    cases r with
    | error e' =>
      refine ih unknown (some e') (fun e'' he => ?_) hrest
      obtain rfl := Option.some.inj he
      exact hask a hasked
    | ok o =>
      dsimp only at hrest
      split at hrest
      · exact ih (some o) fault hfault hrest
      · exact nomatch hrest.of_done.1

/-- **A round does not fail with an error about where a request stands**, if no operation of the network
does. -/
theorem apart_dispatch (h : Answering.Apart answers) (source : PeerSource) (r : VerificationRequest) :
    Apart answers (dispatch node source r) := by
  intro s es e s' hrun
  obtain ⟨peers, s₁, es₁, es₂, hpeers, hasked, -⟩ := Runs.of_bind hrun
  cases peers with
  | error e' =>
    obtain ⟨he, -, -⟩ := hasked.of_done
    cases he
    exact apart_peersOf h source hpeers
  | ok addresses =>
    cases addresses with
    | nil =>
      obtain ⟨he, -, -⟩ := hasked.of_done
      cases he
      rfl
    | cons a rest =>
      exact apart_askOn (apart_askPeer h r.query) none none (fun e he => nomatch he) (a :: rest) hasked

end Program

/-! ## Calls that are accepted by rounds -/

namespace Lifecycle.Session

variable {σ ε : Type} {answers : Answering σ ε}

/-- The answers of the network in some moves are what rounds of nodes have come to. -/
def Dispatched (answers : Answering σ ε) (moves : List Move) : Prop :=
  ∀ j result, Move.answer j result ∈ moves → ∃ node source r s es s',
    (Program.dispatch node source r).Runs answers s es result s'

/-- **Over the network a refusal tells the truth**: a round cannot fail so that its error would be taken
for one about the request. -/
theorem tellsTrue_of_dispatched (apart : Answering.Apart answers) {s : Store} (keyed : s.Keyed)
    {moves : List Move} (rounds : Dispatched answers moves) {i : Nat} {t : Task}
    (found : ((start s).run moves).tasks[i]? = some t) {id : String}
    (about : t.demand.subject? = some id) {e : Error} (failed : t.call = .done (.error e)) :
    ((start s).run moves).TellsTrue i id e := by
  refine tellsTrue_of_failed keyed (fun j e' hanswer => ?_) found about failed
  obtain ⟨node, source, r, s₁, es, s₂, hrun⟩ := rounds j _ hanswer
  exact Program.apart_dispatch apart source r hrun

end Lifecycle.Session

end SealedCustody
