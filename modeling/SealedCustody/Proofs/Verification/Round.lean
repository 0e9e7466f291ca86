import SealedCustody.Proofs.Verification.Network

/-!
# What a verification round comes to

A round asks its candidates in order, each once, until one settles the query, and comes to that outcome;
if none does, it has asked all of them and comes to the last outcome of a peer that does not know the
subject, or else to the last candidate's error (`dispatch_exact`). Nothing is assumed of the network: the
statement is an equivalence for each way to answer questions, between the runs of the program and the
reports that candidates give one after the other. What it is to ask a candidate is said by the questions
that this takes, from the dial to the release of the stream (`Asks`); the query is written out there, and
nothing is said in terms of the program.

The walk carries the last such outcome and the last error along. They are those of the reports so far
(`lastOutcome?`, `lastFault?`), none of which settles the query; that is the invariant of the inductions
over the candidates that are left, `ends_of_askOn` and `runs_askOn`.
-/

namespace SealedCustody

namespace Verification

/-! ## Reports -/

/-- What is heard of a candidate: why it could not be asked, or which peer responded what. -/
inductive Report where
  | failed (fault : Error)
  | responded (peer : PeerId) (response : VerifyResponse)

namespace Report

/-- The outcome that a response to the query is. -/
def outcome? (q : VerifyRequest) : Report → Option Outcome
  | failed _ => none
  | responded peer response =>
    if response.requestId = q.requestId then some ⟨peer, response.verdict⟩ else none

/-- The error that anything else is; a response to another query is malformed. -/
def fault? (q : VerifyRequest) : Report → Option Error
  | failed fault => some fault
  | responded _ response =>
    if response.requestId = q.requestId then none
    else some (.protocol ProtocolId.verify.text
      (.malformed ("answer for " ++ response.requestId ++ " instead of " ++ q.requestId)))

/-- The report settles the query. -/
def Settles (q : VerifyRequest) (report : Report) (o : Outcome) : Prop :=
  report.outcome? q = some o ∧ o.verdict ≠ .unknownSubject

/-- The report leaves the query to other candidates. -/
def Unsettled (q : VerifyRequest) (report : Report) : Prop :=
  ∀ o, report.outcome? q = some o → o.verdict = .unknownSubject

/-- What asking comes to with the report. -/
def result (q : VerifyRequest) : Report → Except Error Outcome
  | failed fault => .error fault
  | responded peer response => outcomeOf q peer response

variable {q : VerifyRequest} {report : Report}

/-- A report is an outcome or an error, never both. -/
theorem cases_result (q : VerifyRequest) (report : Report) :
    (∃ o, report.outcome? q = some o ∧ report.fault? q = none ∧ report.result q = .ok o) ∨
      ∃ e, report.outcome? q = none ∧ report.fault? q = some e ∧ report.result q = .error e := by
  cases report with
  | failed fault => exact Or.inr ⟨fault, rfl, rfl, rfl⟩
  | responded peer response =>
    simp only [outcome?, fault?, result, outcomeOf]
    by_cases hid : response.requestId = q.requestId
    · rw [if_pos hid, if_pos hid, if_pos hid]
      exact Or.inl ⟨_, rfl, rfl, rfl⟩
    · rw [if_neg hid, if_neg hid, if_neg hid]
      exact Or.inr ⟨_, rfl, rfl, rfl⟩

theorem unsettled_of_none (h : report.outcome? q = none) : report.Unsettled q := by
  intro o ho
  rw [h] at ho
  cases ho

theorem Settles.not_unsettled {o : Outcome} (h : report.Settles q o) : ¬ report.Unsettled q :=
  fun hunsettled => h.2 (hunsettled o h.1)

end Report

/-- The last outcome among some reports. -/
def lastOutcome? (q : VerifyRequest) (reports : List Report) : Option Outcome :=
  (reports.filterMap (Report.outcome? q)).getLast?

/-- The last error among some reports. -/
def lastFault? (q : VerifyRequest) (reports : List Report) : Option Error :=
  (reports.filterMap (Report.fault? q)).getLast?

/-- What the reports of the candidates that were asked come to, if these are the ones not asked. -/
inductive Ends (q : VerifyRequest) : List Report → List Address → Except Error Outcome → Prop
  /-- The last report is the first that settles the query. -/
  | settled {before : List Report} {report : Report} {o : Outcome} {later : List Address}
      (hbefore : ∀ r ∈ before, r.Unsettled q) (hreport : report.Settles q o) :
      Ends q (before ++ [report]) later (.ok o)
  /-- Everybody was asked, and nobody who answered knows the subject. -/
  | unknown {reports : List Report} {o : Outcome} (hreports : ∀ r ∈ reports, r.Unsettled q)
      (hlast : lastOutcome? q reports = some o) : Ends q reports [] (.ok o)
  /-- Everybody was asked, and nobody answered. -/
  | failed {reports : List Report} {report : Report} {e : Error}
      (hnone : ∀ r ∈ reports ++ [report], r.outcome? q = none) (hlast : report.fault? q = some e) :
      Ends q (reports ++ [report]) [] (.error e)

/-! ## Asking -/

section

variable {σ ε : Type}

/-- What is done with a stream: the payload is written, the write side closed and the whole reply read, up
to the first of these that fails. -/
inductive Converses (answers : Answering σ ε) (own : StreamEnd) (payload : List UInt8) :
    σ → List ε → Except Error (List UInt8) → σ → Prop
  | unwritten {s s' : σ} {es : List ε} {fault : Error}
      (hwrite : answers s (.write own payload) (.error fault) es s') :
      Converses answers own payload s es (.error fault) s'
  | unfinished {s s₁ s' : σ} {es es' : List ε} {fault : Error}
      (hwrite : answers s (.write own payload) (.ok ()) es s₁)
      (hfinish : answers s₁ (.finish own) (.error fault) es' s') :
      Converses answers own payload s (es ++ es') (.error fault) s'
  | read {s s₁ s₂ s' : σ} {es es' es'' : List ε} {reply : Except Error (List UInt8)}
      (hwrite : answers s (.write own payload) (.ok ()) es s₁)
      (hfinish : answers s₁ (.finish own) (.ok ()) es' s₂)
      (hread : answers s₂ (.read own) reply es'' s') :
      Converses answers own payload s (es ++ es' ++ es'') reply s'

/-- One request to a peer: a stream is opened, used and let go of. -/
inductive Exchanges (answers : Answering σ ε) (node : NodeId) (peer : PeerId) (p : ProtocolId)
    (payload : List UInt8) : σ → List ε → Except Error (List UInt8) → σ → Prop
  | unopened {s s' : σ} {es : List ε} {fault : Error}
      (hopen : answers s (.openStream node peer p) (.error fault) es s') :
      Exchanges answers node peer p payload s es (.error fault) s'
  | opened {s s₁ s₂ s' : σ} {es es' es'' : List ε} {own : StreamEnd}
      {reply : Except Error (List UInt8)} (hopen : answers s (.openStream node peer p) (.ok own) es s₁)
      (hconverse : Converses answers own payload s₁ es' reply s₂)
      (hrelease : answers s₂ (.release own) () es'' s') :
      Exchanges answers node peer p payload s (es ++ (es' ++ es'')) reply s'

/-- Asking the peer at an address: dialing it, and then one request with the query on the connection. -/
inductive Asks (answers : Answering σ ε) (node : NodeId) (q : VerifyRequest) (a : Address) :
    σ → List ε → Report → σ → Prop
  | undialed {s s' : σ} {es : List ε} {fault : Error}
      (hdial : answers s (.dial node a none) (.error fault) es s') :
      Asks answers node q a s es (.failed fault) s'
  | unanswered {s s₁ s' : σ} {es es' : List ε} {c : Connection} {fault : Error}
      (hdial : answers s (.dial node a none) (.ok c) es s₁)
      (hexchange : Exchanges answers node c.peer .verify (VerifyRequest.format.octets q) s₁ es'
        (.error fault) s') :
      Asks answers node q a s (es ++ es') (.failed fault) s'
  | illegible {s s₁ s' : σ} {es es' : List ε} {c : Connection} {reply : List UInt8} {fault : Error}
      (hdial : answers s (.dial node a none) (.ok c) es s₁)
      (hexchange : Exchanges answers node c.peer .verify (VerifyRequest.format.octets q) s₁ es'
        (.ok reply) s')
      (hread : ProtocolId.verify.decode VerifyResponse.format reply = .error fault) :
      Asks answers node q a s (es ++ es') (.failed fault) s'
  | answered {s s₁ s' : σ} {es es' : List ε} {c : Connection} {reply : List UInt8}
      {response : VerifyResponse} (hdial : answers s (.dial node a none) (.ok c) es s₁)
      (hexchange : Exchanges answers node c.peer .verify (VerifyRequest.format.octets q) s₁ es'
        (.ok reply) s')
      (hread : ProtocolId.verify.decode VerifyResponse.format reply = .ok response) :
      Asks answers node q a s (es ++ es') (.responded c.peer response) s'

/-- Asking the peers at some addresses, each once and in order. -/
inductive AsksAll (answers : Answering σ ε) (node : NodeId) (q : VerifyRequest) :
    List Address → σ → List ε → List Report → σ → Prop
  | nil (s : σ) : AsksAll answers node q [] s [] [] s
  | cons {a : Address} {rest : List Address} {s s' s'' : σ} {es es' : List ε} {report : Report}
      {reports : List Report} (first : Asks answers node q a s es report s')
      (others : AsksAll answers node q rest s' es' reports s'') :
      AsksAll answers node q (a :: rest) s (es ++ es') (report :: reports) s''

/-- The candidates that a source gives: those listed, or the peers that the node is connected to. -/
inductive Lists (answers : Answering σ ε) (node : NodeId) :
    PeerSource → σ → List ε → Except Error (List Address) → σ → Prop
  | listed (addresses : List Address) (s : σ) :
      Lists answers node (.listed addresses) s [] (.ok addresses) s
  | connected {s s' : σ} {es : List ε} {cs : List Connection}
      (hconnections : answers s (.connections node) (.ok cs) es s') :
      Lists answers node .connected s es (.ok (cs.map fun c => c.remote.withPeer c.peer)) s'
  | unknown {s s' : σ} {es : List ε} {e : Error}
      (hconnections : answers s (.connections node) (.error e) es s') :
      Lists answers node .connected s es (.error e) s'

/-- A round with the candidates that the source gave. -/
inductive Round (answers : Answering σ ε) (node : NodeId) (q : VerifyRequest) :
    Except Error (List Address) → σ → List ε → Except Error Outcome → σ → Prop
  | unlisted (e : Error) (s : σ) : Round answers node q (.error e) s [] (.error e) s
  | nobody (s : σ) :
      Round answers node q (.ok []) s [] (.error (.dial "verification peers" "no peers available")) s
  | asked {asked later : List Address} {s s' : σ} {es : List ε} {reports : List Report}
      {result : Except Error Outcome} (hasks : AsksAll answers node q asked s es reports s')
      (hends : Ends q reports later result) :
      Round answers node q (.ok (asked ++ later)) s es result s'

variable {answers : Answering σ ε} {node : NodeId} {q : VerifyRequest} {s s' : σ} {es : List ε}

variable {own : StreamEnd} {payload : List UInt8} {c : Connection} {p : ProtocolId}

/-- What is done with a stream while it is open. -/
def converse (own : StreamEnd) (payload : List UInt8) : Program (Except Error Ack) :=
  (Program.sendMessage own payload).andThen fun () =>
    (Program.query (.read own)).andThen fun reply => .done (.ok ⟨payload.length, some reply⟩)

theorem converse_runs_iff {result : Except Error Ack} :
    (converse own payload).Runs answers s es result s' ↔
      ∃ reply, Converses answers own payload s es reply s' ∧
        result = reply.map fun bs => (⟨payload.length, some bs⟩ : Ack) := by
  constructor
  · intro h
    rcases h.of_andThen with ⟨e, hsent, rfl⟩ | ⟨u, s₂, es₁, es₂, hsent, hrest, rfl⟩
    · rcases hsent.of_andThen with ⟨e', hwrite, he⟩ | ⟨u, s₁, es₁, es₂, hwrite, hfinish, rfl⟩
      · cases he
        exact ⟨.error e, .unwritten hwrite.of_query, rfl⟩
      · exact ⟨.error e, .unfinished hwrite.of_query hfinish.of_query, rfl⟩
    · obtain ⟨u', s₁, es₃, es₄, hwrite, hfinish, rfl⟩ := hsent.of_andThen_ok
      rcases hrest.of_andThen with ⟨e, hread, rfl⟩ | ⟨reply, s₃, es₅, es₆, hread, hdone, rfl⟩
      · exact ⟨.error e, .read hwrite.of_query hfinish.of_query hread.of_query, rfl⟩
      · obtain ⟨rfl, rfl, rfl⟩ := hdone.of_done
        rw [List.append_nil]
        exact ⟨.ok reply, .read hwrite.of_query hfinish.of_query hread.of_query, rfl⟩
  · rintro ⟨reply, hconverse, rfl⟩
    cases hconverse with
    | @unwritten _ _ fault hwrite =>
      have hsent : (Program.sendMessage own payload).Runs answers s es (.error fault) s' :=
        Program.Runs.andThen_error (.query hwrite)
      exact hsent.andThen_error
    | @unfinished _ _ es₁ es₂ fault hwrite hfinish =>
      have hsent : (Program.sendMessage own payload).Runs answers s (es₁ ++ es₂) (.error fault) s' :=
        Program.Runs.andThen (.query hwrite) (.query hfinish)
      exact hsent.andThen_error
    | @read s₁ s₂ _ es₁ es₂ es₃ reply hwrite hfinish hread =>
      have hsent : (Program.sendMessage own payload).Runs answers s (es₁ ++ es₂) (.ok ()) s₂ :=
        Program.Runs.andThen (.query hwrite) (.query hfinish)
      cases reply with
      | error e => exact hsent.andThen (Program.Runs.andThen_error (.query hread))
      | ok bs => exact hsent.andThen (Program.Runs.andThen_done (.query hread))

theorem send_runs_iff {result : Except Error Ack} :
    (Program.send node c p payload true).Runs answers s es result s' ↔
      ∃ reply, Exchanges answers node c.peer p payload s es reply s' ∧
        result = reply.map fun bs => (⟨payload.length, some bs⟩ : Ack) := by
  constructor
  · intro h
    rcases h.of_andThen with ⟨e, hopen, rfl⟩ | ⟨own, s₁, es₁, es₂, hopen, hrest, rfl⟩
    · exact ⟨.error e, .unopened hopen.of_query, rfl⟩
    obtain ⟨r, s₂, es₃, es₄, hused, hlet, rfl⟩ := Program.Runs.of_bind hrest
    obtain ⟨u, s₃, es₅, es₆, hrelease, hdone, rfl⟩ := Program.Runs.of_bind hlet
    obtain ⟨rfl, rfl, rfl⟩ := hdone.of_done
    obtain ⟨reply, hconverse, rfl⟩ := converse_runs_iff.1 hused
    rw [List.append_nil]
    exact ⟨reply, .opened hopen.of_query hconverse hrelease.of_query, rfl⟩
  · rintro ⟨reply, hexchange, rfl⟩
    cases hexchange with
    | unopened hopen => exact Program.Runs.andThen_error (.query hopen)
    | @opened s₁ s₂ _ es₁ es₂ es₃ own reply hopen hconverse hrelease =>
      have hlet : (Program.query (.release own)).Runs answers s₂ es₃ () s' := .query hrelease
      refine Program.Runs.andThen (.query hopen) ?_
      exact Program.Runs.bind (converse_runs_iff.2 ⟨reply, hconverse, rfl⟩) hlet.bind_done

/-- A request comes to its reply, read as a message. -/
theorem request_runs_iff {α : Type} {f : Json.Format α} {result : Except Error α} :
    (Program.request node c p f payload).Runs answers s es result s' ↔
      ∃ reply, Exchanges answers node c.peer p payload s es reply s' ∧
        result = reply.bind (p.decode f) := by
  constructor
  · intro h
    rcases h.of_andThen with ⟨e, hsend, rfl⟩ | ⟨ack, s₁, es₁, es₂, hsend, hdone, rfl⟩
    · obtain ⟨reply, hexchange, he⟩ := send_runs_iff.1 hsend
      cases reply with
      | error e' =>
        cases he
        exact ⟨_, hexchange, rfl⟩
      | ok bs => cases he
    · obtain ⟨reply, hexchange, hack⟩ := send_runs_iff.1 hsend
      obtain ⟨rfl, rfl, rfl⟩ := hdone.of_done
      rw [List.append_nil]
      cases reply with
      | error e => cases hack
      | ok bs =>
        cases hack
        exact ⟨_, hexchange, rfl⟩
  · rintro ⟨reply, hexchange, rfl⟩
    have hsend := send_runs_iff.2 ⟨reply, hexchange, rfl⟩
    cases reply with
    | error e => exact hsend.andThen_error
    | ok bs => exact hsend.andThen_done

theorem askPeer_runs_iff {a : Address} {result : Except Error Outcome} :
    (Program.askPeer node q a).Runs answers s es result s' ↔
      ∃ report, Asks answers node q a s es report s' ∧ result = report.result q := by
  constructor
  · intro h
    rcases h.of_andThen with ⟨e, hdial, rfl⟩ | ⟨c, s₁, es₁, es₂, hdial, hrest, rfl⟩
    · exact ⟨.failed e, .undialed hdial.of_query, rfl⟩
    rcases hrest.of_andThen with ⟨e, hrequest, rfl⟩ | ⟨response, s₂, es₃, es₄, hrequest, hdone, rfl⟩
    · obtain ⟨reply, hexchange, he⟩ := request_runs_iff.1 hrequest
      cases reply with
      | error e' =>
        cases he
        exact ⟨.failed e, .unanswered hdial.of_query hexchange, rfl⟩
      | ok bs => exact ⟨.failed e, .illegible hdial.of_query hexchange he.symm, rfl⟩
    · obtain ⟨rfl, rfl, rfl⟩ := hdone.of_done
      obtain ⟨reply, hexchange, hread⟩ := request_runs_iff.1 hrequest
      rw [List.append_nil]
      cases reply with
      | error e => cases hread
      | ok bs =>
        exact ⟨.responded c.peer response, .answered hdial.of_query hexchange hread.symm, rfl⟩
  · rintro ⟨report, hasks, rfl⟩
    cases hasks with
    | undialed hdial => exact Program.Runs.andThen_error (.query hdial)
    | unanswered hdial hexchange =>
      have hrequest := (request_runs_iff (f := VerifyResponse.format)).2 ⟨_, hexchange, rfl⟩
      exact Program.Runs.andThen (.query hdial) (Program.Runs.andThen_error hrequest)
    | illegible hdial hexchange hread =>
      have hrequest := request_runs_iff.2 ⟨_, hexchange, hread.symm⟩
      exact Program.Runs.andThen (.query hdial) hrequest.andThen_error
    | answered hdial hexchange hread =>
      have hrequest := request_runs_iff.2 ⟨_, hexchange, hread.symm⟩
      exact Program.Runs.andThen (.query hdial) hrequest.andThen_done

theorem peersOf_runs_iff {source : PeerSource} {peers : Except Error (List Address)} :
    (Program.peersOf node source).Runs answers s es peers s' ↔
      Lists answers node source s es peers s' := by
  cases source with
  | listed addresses =>
    constructor
    · intro h
      obtain ⟨rfl, rfl, rfl⟩ := h.of_done
      exact .listed addresses s
    · rintro ⟨⟩
      exact .done _ s
  | connected =>
    constructor
    · intro h
      rcases h.of_andThen with ⟨e, hconnections, rfl⟩ | ⟨cs, s₁, es₁, es₂, hconnections, hdone, rfl⟩
      · exact .unknown hconnections.of_query
      · obtain ⟨rfl, rfl, rfl⟩ := hdone.of_done
        rw [List.append_nil]
        exact .connected hconnections.of_query
    · intro h
      cases h with
      | connected hconnections => exact Program.Runs.andThen_done (.query hconnections)
      | unknown hconnections => exact Program.Runs.andThen_error (.query hconnections)

/-! ## The walk -/

variable {earlier : List Report} {result : Except Error Outcome}

theorem getLast?_filterMap_concat {α β : Type} (f : α → Option β) (xs : List α) (x : α) :
    ((xs ++ [x]).filterMap f).getLast? = (f x).or (xs.filterMap f).getLast? := by
  rw [List.filterMap_append, List.getLast?_append]
  cases hx : f x <;> simp [hx]

theorem lastOutcome?_concat (reports : List Report) (report : Report) :
    lastOutcome? q (reports ++ [report]) = (report.outcome? q).or (lastOutcome? q reports) :=
  getLast?_filterMap_concat _ reports report

theorem lastFault?_concat (reports : List Report) (report : Report) :
    lastFault? q (reports ++ [report]) = (report.fault? q).or (lastFault? q reports) :=
  getLast?_filterMap_concat _ reports report

theorem lastOutcome?_eq_none {reports : List Report} :
    lastOutcome? q reports = none ↔ ∀ r ∈ reports, r.outcome? q = none := by
  rw [lastOutcome?, List.getLast?_eq_none_iff, List.filterMap_eq_nil_iff]

theorem forall_mem_concat {P : Report → Prop} {reports : List Report} {report : Report}
    (hreports : ∀ r ∈ reports, P r) (hreport : P report) : ∀ r ∈ reports ++ [report], P r := by
  intro r hr
  rcases List.mem_append.1 hr with hr | hr
  · exact hreports r hr
  · exact List.mem_singleton.1 hr ▸ hreport

/-- When nobody is left, the walk comes to what the reports come to. -/
theorem exists_ends_nil (hearlier : ∀ r ∈ earlier, r.Unsettled q) (hne : earlier ≠ []) :
    ∃ result, Ends q earlier [] result ∧ ∀ ask : Address → Program (Except Error Outcome),
      askOn ask (lastOutcome? q earlier) (lastFault? q earlier) [] = .done result := by
  cases hlast : lastOutcome? q earlier with
  | some o => exact ⟨.ok o, .unknown hearlier hlast, fun ask => rfl⟩
  | none =>
    obtain rfl | ⟨before, report, rfl⟩ := List.eq_nil_or_concat earlier
    · exact absurd rfl hne
    rw [List.concat_eq_append] at hlast ⊢
    have hnone := lastOutcome?_eq_none.1 hlast
    rcases report.cases_result q with ⟨o, ho, -⟩ | ⟨e, -, he, -⟩
    · have hreport := hnone report (List.mem_append_right _ (List.mem_singleton_self _))
      rw [ho] at hreport
      cases hreport
    · refine ⟨.error e, .failed hnone he, fun ask => ?_⟩
      rw [lastFault?_concat, he]
      rfl

/-- The reports come to only one thing when nobody is left. -/
theorem askOn_nil_of_ends {later : List Address} (hearlier : ∀ r ∈ earlier, r.Unsettled q)
    (h : Ends q earlier later result) (ask : Address → Program (Except Error Outcome)) :
    later = [] ∧ askOn ask (lastOutcome? q earlier) (lastFault? q earlier) [] = .done result := by
  cases h with
  | settled hbefore hreport =>
    exact absurd (hearlier _ (List.mem_append_right _ (List.mem_singleton_self _)))
      hreport.not_unsettled
  | unknown hreports hlast =>
    rw [hlast]
    exact ⟨rfl, rfl⟩
  | failed hnone hlast =>
    rw [lastOutcome?_eq_none.2 hnone, lastFault?_concat, hlast]
    exact ⟨rfl, rfl⟩

/-- One step of the walk: the candidate settles the query, or the walk goes on with one report more. -/
theorem askOn_cons_runs_iff {a : Address} {rest : List Address} :
    (askOn (Program.askPeer node q) (lastOutcome? q earlier) (lastFault? q earlier)
        (a :: rest)).Runs answers s es result s' ↔
      ∃ report s₁ es₁ es₂, Asks answers node q a s es₁ report s₁ ∧ es = es₁ ++ es₂ ∧
        ((∃ o, report.Settles q o ∧ result = .ok o ∧ s₁ = s' ∧ es₂ = []) ∨
          report.Unsettled q ∧ (askOn (Program.askPeer node q) (lastOutcome? q (earlier ++ [report]))
            (lastFault? q (earlier ++ [report])) rest).Runs answers s₁ es₂ result s') := by
  constructor
  · intro h
    obtain ⟨r, s₁, es₁, es₂, hask, hrest, rfl⟩ := Program.Runs.of_bind h
    obtain ⟨report, hasks, rfl⟩ := askPeer_runs_iff.1 hask
    refine ⟨report, s₁, es₁, es₂, hasks, rfl, ?_⟩
    rw [lastOutcome?_concat, lastFault?_concat]
    rcases report.cases_result q with ⟨o, ho, hfault, hresult⟩ | ⟨e, ho, hfault, hresult⟩
    · rw [hresult] at hrest
      rw [ho, hfault]
      dsimp only at hrest
      split at hrest
      · next hverdict =>
        refine Or.inr ⟨fun o' ho' => ?_, hrest⟩
        obtain rfl := Option.some.inj (ho.symm.trans ho')
        exact hverdict
      · next hverdict =>
        obtain ⟨rfl, rfl, rfl⟩ := Program.Runs.of_done hrest
        exact Or.inl ⟨o, ⟨ho, hverdict⟩, rfl, rfl, rfl⟩
    · rw [hresult] at hrest
      rw [ho, hfault]
      exact Or.inr ⟨Report.unsettled_of_none ho, hrest⟩
  · rintro ⟨report, s₁, es₁, es₂, hasks, rfl, hrest⟩
    refine Program.Runs.bind (askPeer_runs_iff.2 ⟨report, hasks, rfl⟩) ?_
    rw [lastOutcome?_concat, lastFault?_concat] at hrest
    rcases report.cases_result q with ⟨o, ho, hfault, hresult⟩ | ⟨e, ho, hfault, hresult⟩
    · rw [hresult]
      rw [ho, hfault] at hrest
      dsimp only
      rcases hrest with ⟨o', ⟨ho', hverdict⟩, rfl, rfl, rfl⟩ | ⟨hunsettled, hrest⟩
      · obtain rfl := Option.some.inj (ho.symm.trans ho')
        rw [if_neg hverdict]
        exact .done _ _
      · rw [if_pos (hunsettled o ho)]
        exact hrest
    · rw [hresult]
      rw [ho, hfault] at hrest
      rcases hrest with ⟨o', ⟨ho', -⟩, -⟩ | ⟨-, hrest⟩
      · cases ho.symm.trans ho'
      · exact hrest

/-- A walk that comes to something has asked the first of its candidates and come to what their reports
come to. -/
theorem ends_of_askOn (earlier : List Report) {rest : List Address}
    (hearlier : ∀ r ∈ earlier, r.Unsettled q)
    (hsome : earlier ≠ [] ∨ rest ≠ [])
    (h : (askOn (Program.askPeer node q) (lastOutcome? q earlier) (lastFault? q earlier) rest).Runs
      answers s es result s') :
    ∃ asked later reports, rest = asked ++ later ∧ AsksAll answers node q asked s es reports s' ∧
      Ends q (earlier ++ reports) later result := by
  induction rest generalizing earlier s es with
  | nil =>
    have hne : earlier ≠ [] := hsome.resolve_right fun h => h rfl
    obtain ⟨result', hends, hnil⟩ := exists_ends_nil hearlier hne
    rw [hnil] at h
    obtain ⟨rfl, rfl, rfl⟩ := h.of_done
    exact ⟨[], [], [], rfl, .nil s, (List.append_nil earlier).symm ▸ hends⟩
  | cons a rest ih =>
    obtain ⟨report, s₁, es₁, es₂, hasks, rfl, hrest⟩ := askOn_cons_runs_iff.1 h
    rcases hrest with ⟨o, hsettles, rfl, rfl, rfl⟩ | ⟨hunsettled, hrest⟩
    · exact ⟨[a], rest, [report], rfl, .cons hasks (.nil s₁), .settled hearlier hsettles⟩
    · have hne : earlier ++ [report] ≠ [] := List.append_ne_nil_of_right_ne_nil _ (List.cons_ne_nil _ _)
      obtain ⟨asked, later, reports, rfl, hothers, hends⟩ :=
        ih _ (forall_mem_concat hearlier hunsettled) (Or.inl hne) hrest
      rw [List.append_assoc] at hends
      exact ⟨a :: asked, later, report :: reports, rfl, .cons hasks hothers, hends⟩

/-- A report that settles the query is the last one. -/
theorem ends_of_settles {report : Report} {reports : List Report} {later : List Address} {o : Outcome}
    (hsettles : report.Settles q o) (h : Ends q (earlier ++ report :: reports) later result) :
    reports = [] ∧ result = .ok o := by
  have hmem : report ∈ earlier ++ report :: reports := List.mem_append_right _ List.mem_cons_self
  generalize hall : earlier ++ report :: reports = all at h hmem
  cases h with
  | @settled before last o' _ hbefore hlast =>
    obtain rfl | ⟨middle, final, rfl⟩ := List.eq_nil_or_concat reports
    · obtain ⟨-, hsame⟩ := List.append_inj' hall rfl
      obtain rfl := List.head_eq_of_cons_eq hsame
      obtain rfl := Option.some.inj (hsettles.1.symm.trans hlast.1)
      exact ⟨rfl, rfl⟩
    · rw [List.concat_eq_append, ← List.cons_append, ← List.append_assoc] at hall
      obtain ⟨rfl, -⟩ := List.append_inj' hall rfl
      exact absurd (hbefore report (List.mem_append_right _ List.mem_cons_self)) hsettles.not_unsettled
  | unknown hreports hlast => exact absurd (hreports report hmem) hsettles.not_unsettled
  | failed hnone hlast =>
    exact absurd (Report.unsettled_of_none (hnone report hmem)) hsettles.not_unsettled

/-- What the reports of the first candidates come to is what the walk comes to. -/
theorem runs_askOn (earlier : List Report) {asked later : List Address} {reports : List Report}
    (hearlier : ∀ r ∈ earlier, r.Unsettled q) (hasks : AsksAll answers node q asked s es reports s')
    (hends : Ends q (earlier ++ reports) later result) :
    (askOn (Program.askPeer node q) (lastOutcome? q earlier) (lastFault? q earlier)
      (asked ++ later)).Runs answers s es result s' := by
  induction hasks generalizing earlier with
  | nil s =>
    rw [List.append_nil] at hends
    obtain ⟨rfl, hnil⟩ := askOn_nil_of_ends hearlier hends (Program.askPeer node q)
    rw [List.append_nil, hnil]
    exact .done result s
  | @cons a rest s s₁ s' es es' report reports first others ih =>
    refine askOn_cons_runs_iff.2 ⟨report, s₁, es, es', first, rfl, ?_⟩
    by_cases hunsettled : report.Unsettled q
    · refine Or.inr ⟨hunsettled, ih _ (forall_mem_concat hearlier hunsettled) ?_⟩
      rwa [List.append_assoc]
    · obtain ⟨o, ho⟩ := not_forall.1 hunsettled
      obtain ⟨houtcome, hverdict⟩ := Classical.not_imp.1 ho
      obtain ⟨rfl, rfl⟩ := ends_of_settles ⟨houtcome, hverdict⟩ hends
      cases others
      exact Or.inl ⟨o, ⟨houtcome, hverdict⟩, rfl, rfl, rfl⟩

/-! ## Rounds -/

theorem Ends.ne_nil {reports : List Report} {later : List Address} (h : Ends q reports later result) :
    reports ≠ [] := by
  cases h with
  | settled hbefore hreport => exact List.append_ne_nil_of_right_ne_nil _ (List.cons_ne_nil _ _)
  | unknown hreports hlast =>
    rintro rfl
    cases hlast
  | failed hnone hlast => exact List.append_ne_nil_of_right_ne_nil _ (List.cons_ne_nil _ _)

theorem askInOrder_runs_iff {peers : Except Error (List Address)} :
    (askInOrder (Program.askPeer node q) peers).Runs answers s es result s' ↔
      Round answers node q peers s es result s' := by
  constructor
  · intro h
    match peers with
    | .error e =>
      obtain ⟨rfl, rfl, rfl⟩ := Program.Runs.of_done h
      exact .unlisted e s
    | .ok [] =>
      obtain ⟨rfl, rfl, rfl⟩ := Program.Runs.of_done h
      exact .nobody s
    | .ok (a :: rest) =>
      obtain ⟨asked, later, reports, hall, hasks, hends⟩ :=
        ends_of_askOn [] (List.forall_mem_nil _) (Or.inr (List.cons_ne_nil a rest)) h
      rw [hall]
      exact .asked hasks hends
  · intro h
    cases h with
    | unlisted e => exact .done _ s
    | nobody => exact .done _ s
    | @asked asked later _ _ _ reports _ hasks hends =>
      have hrun := runs_askOn [] (List.forall_mem_nil _) hasks hends
      cases hasks with
      | nil => exact absurd rfl hends.ne_nil
      | cons first others => exact hrun

/-- If every candidate gives a report, some of the reports come to something. -/
theorem exists_ends (earlier : List Report) {rest : List Address}
    (hearlier : ∀ r ∈ earlier, r.Unsettled q)
    (hsome : earlier ≠ [] ∨ rest ≠ [])
    (hasks : ∀ a ∈ rest, ∀ s, ∃ es report s', Asks answers node q a s es report s') (s : σ) :
    ∃ asked later es reports s' result, rest = asked ++ later ∧
      AsksAll answers node q asked s es reports s' ∧ Ends q (earlier ++ reports) later result := by
  induction rest generalizing earlier s with
  | nil =>
    obtain ⟨result, hends, -⟩ := exists_ends_nil hearlier (hsome.resolve_right fun h => h rfl)
    exact ⟨[], [], [], [], s, result, rfl, .nil s, (List.append_nil earlier).symm ▸ hends⟩
  | cons a rest ih =>
    obtain ⟨es, report, s₁, hask⟩ := hasks a List.mem_cons_self s
    by_cases hunsettled : report.Unsettled q
    · have hne : earlier ++ [report] ≠ [] := List.append_ne_nil_of_right_ne_nil _ (List.cons_ne_nil _ _)
      obtain ⟨asked, later, es', reports, s', result, rfl, hothers, hends⟩ :=
        ih _ (forall_mem_concat hearlier hunsettled) (Or.inl hne)
          (fun b hb => hasks b (List.mem_cons_of_mem _ hb)) s₁
      rw [List.append_assoc] at hends
      exact ⟨a :: asked, later, es ++ es', report :: reports, s', result, rfl, .cons hask hothers, hends⟩
    · obtain ⟨o, ho⟩ := not_forall.1 hunsettled
      exact ⟨[a], rest, es ++ [], [report], s₁, .ok o, rfl, .cons hask (.nil s₁),
        .settled hearlier (Classical.not_imp.1 ho)⟩

theorem exists_round (peers : Except Error (List Address))
    (hasks : ∀ a s, ∃ es report s', Asks answers node q a s es report s') (s : σ) :
    ∃ es result s', Round answers node q peers s es result s' := by
  match peers with
  | .error e => exact ⟨[], _, s, .unlisted e s⟩
  | .ok [] => exact ⟨[], _, s, .nobody s⟩
  | .ok (a :: rest) =>
    obtain ⟨asked, later, es, reports, s', result, hall, hasked, hends⟩ :=
      exists_ends [] (List.forall_mem_nil _) (Or.inr (List.cons_ne_nil a rest))
        (fun b _ => hasks b) s
    rw [hall]
    exact ⟨es, result, s', .asked hasked hends⟩

end

/-- A verification round asks its source for candidates and then comes to what their reports come to, and
to nothing else: it puts the query with the id, the subject and the criteria of the request to them in order
until one settles it by a response with that id, and the outcome is that one's; if none does, it asks all of
them, and the outcome is the last of a peer that does not know the subject, or else the last candidate's
error. Without candidates it asks nobody. If every candidate gives a report, a round comes to something. -/
theorem dispatch_exact {σ ε : Type} (answers : Answering σ ε) (node : NodeId) (source : PeerSource)
    (r : VerificationRequest) :
    (∀ s es result s', (Program.dispatch node source r).Runs answers s es result s' ↔
      ∃ peers s₁ es₁ es₂, Lists answers node source s es₁ peers s₁ ∧
        Round answers node ⟨r.id, r.subjectId, r.criteria⟩ peers s₁ es₂ result s' ∧ es = es₁ ++ es₂) ∧
    ((∀ a s, ∃ es report s', Asks answers node ⟨r.id, r.subjectId, r.criteria⟩ a s es report s') →
      ∀ s es₁ peers s₁, Lists answers node source s es₁ peers s₁ →
        ∃ es result s', (Program.dispatch node source r).Runs answers s es result s') := by
  refine ⟨fun s es result s' => ⟨fun h => ?_, ?_⟩, fun hasks s es₁ peers s₁ hpeers => ?_⟩
  · obtain ⟨peers, s₁, es₁, es₂, hpeers, hwalk, rfl⟩ := Program.Runs.of_bind h
    exact ⟨peers, s₁, es₁, es₂, peersOf_runs_iff.1 hpeers, askInOrder_runs_iff.1 hwalk, rfl⟩
  · rintro ⟨peers, s₁, es₁, es₂, hpeers, hround, rfl⟩
    exact Program.Runs.bind (peersOf_runs_iff.2 hpeers) (askInOrder_runs_iff.2 hround)
  · obtain ⟨es₂, result, s', hround⟩ := exists_round peers hasks s₁
    exact ⟨_, result, s', Program.Runs.bind (peersOf_runs_iff.2 hpeers) (askInOrder_runs_iff.2 hround)⟩

/-- A node that writes one response to whatever it is asked can be asked, and the network is ready for the
next question. -/
theorem exists_asks_of_fixed {net : Network} {peer : PeerId} {host : Node} {response : VerifyResponse}
    (hhost : net.nodes.get? peer = some host)
    (hhandler : host.handlers.get? .verify =
      some (.fixed ⟨false, false, some (VerifyResponse.format.octets response)⟩))
    (hfits : (VerifyResponse.format.octets response).length ≤ host.network.maxMessageBytes) {id : StreamId}
    (hfresh : net.conduits.get? id = none) (node : NodeId) (q : VerifyRequest) (a : Address) :
    ∃ net', Asks Network.Answers node q a net [] (.responded peer response) net' ∧
      (∀ p, net'.nodes.get? p = net.nodes.get? p) ∧ net'.conduits.get? id = none := by
  let c : Connection := ⟨peer, 0, a⟩
  have hserves := Network.serves_fixed hhost hhandler hfits (VerifyRequest.format.octets q)
  obtain ⟨conduits, hfresh', hsend⟩ := Network.runs_send (c := c) hserves hfresh
    (Nat.le_max_left _ (VerifyResponse.format.octets response).length) (Nat.le_max_right _ _) node
  obtain ⟨reply, hexchange, hreply⟩ := send_runs_iff.1 hsend
  have hread : ProtocolId.verify.decode VerifyResponse.format (VerifyResponse.format.octets response) =
      .ok response := ProtocolId.decode_octets .verify (VerifyResponse.keeps (Json.depthLimit - 1) response)
  refine ⟨⟨net.nodes.insert peer host, conduits⟩,
    .answered (Network.answers_at_once (.dialed net node a none (.ok c))) ?_ hread, fun p => ?_, hfresh'⟩
  · cases reply with
    | error e => cases hreply
    | ok bs =>
      obtain rfl : VerifyResponse.format.octets response = bs := by cases hreply; rfl
      exact hexchange
  · dsimp only
    rw [Table.get?_insert]
    split
    · next hpeer => rw [← hpeer, hhost]
    · rfl

/-- Three candidates of which the first answers for another request, the second does not know the subject
and the third finds it eligible. The third settles the query; without it the outcome is the second's, and
the first alone is an error. -/
theorem dispatch_exact_of_strangers :
    let r : VerificationRequest := .create "r1" "p1" "u1" "Acme" default default
    ∃ net net₁ net₂ net₃ : Network,
      (Program.dispatch 0 (.listed [[], [], []]) r).Runs Network.Answers net []
        (.ok ⟨⟨[3]⟩, .eligible⟩) net₃ ∧
      (Program.dispatch 0 (.listed [[], []]) r).Runs Network.Answers net []
        (.ok ⟨⟨[2]⟩, .unknownSubject⟩) net₂ ∧
      (Program.dispatch 0 (.listed [[]]) r).Runs Network.Answers net []
        (.error (.protocol ProtocolId.verify.text (.malformed "answer for r2 instead of r1"))) net₁ ∧
      ∃ es result net', (Program.dispatch 0 .connected r).Runs Network.Answers net es result net' := by
  intro r
  let q : VerifyRequest := ⟨r.id, r.subjectId, r.criteria⟩
  let limit := Nat.max (VerifyResponse.format.octets ⟨"r2", .eligible⟩).length
    (Nat.max (VerifyResponse.format.octets ⟨"r1", .unknownSubject⟩).length
      (VerifyResponse.format.octets ⟨"r1", .eligible⟩).length)
  let host (response : VerifyResponse) : Node := { (default : Node) with
    network := { maxMessageBytes := limit }
    handlers := (∅ : Handlers).insert .verify
      (.fixed ⟨false, false, some (VerifyResponse.format.octets response)⟩) }
  let nodes : Table PeerId Node := (((∅ : Table PeerId Node).insert ⟨[1]⟩ (host ⟨"r2", .eligible⟩)).insert
    ⟨[2]⟩ (host ⟨"r1", .unknownSubject⟩)).insert ⟨[3]⟩ (host ⟨"r1", .eligible⟩)
  let net : Network := ⟨nodes, ∅⟩
  have hhandler (response : VerifyResponse) : (host response).handlers.get? .verify =
      some (.fixed ⟨false, false, some (VerifyResponse.format.octets response)⟩) := by
    rw [Table.get?_insert, if_pos rfl]
  have hhost₁ : net.nodes.get? ⟨[1]⟩ = some (host ⟨"r2", .eligible⟩) := rfl
  have hhost₂ : net.nodes.get? ⟨[2]⟩ = some (host ⟨"r1", .unknownSubject⟩) := rfl
  have hhost₃ : net.nodes.get? ⟨[3]⟩ = some (host ⟨"r1", .eligible⟩) := rfl
  have hfresh : net.conduits.get? 0 = none := rfl
  obtain ⟨net₁, hfirst, hnodes₁, hfresh₁⟩ := exists_asks_of_fixed hhost₁ (hhandler ⟨"r2", .eligible⟩)
    (Nat.le_max_left _ _) hfresh 0 q []
  obtain ⟨net₂, hsecond, hnodes₂, hfresh₂⟩ := exists_asks_of_fixed ((hnodes₁ _).trans hhost₂)
    (hhandler ⟨"r1", .unknownSubject⟩) ((Nat.le_max_left _ _).trans (Nat.le_max_right _ _)) hfresh₁ 0 q []
  obtain ⟨net₃, hthird, -, -⟩ := exists_asks_of_fixed ((hnodes₂ _).trans ((hnodes₁ _).trans hhost₃))
    (hhandler ⟨"r1", .eligible⟩) ((Nat.le_max_right _ _).trans (Nat.le_max_right _ _)) hfresh₂ 0 q []
  let other : Report := .responded ⟨[1]⟩ ⟨"r2", .eligible⟩
  let unknown : Report := .responded ⟨[2]⟩ ⟨"r1", .unknownSubject⟩
  let known : Report := .responded ⟨[3]⟩ ⟨"r1", .eligible⟩
  have hother : other.outcome? q = none := rfl
  have hunknown : unknown.Unsettled q := fun o ho => Option.some.inj ho ▸ rfl
  have hboth : ∀ report ∈ [other, unknown], report.Unsettled q :=
    List.forall_mem_cons.2 ⟨Report.unsettled_of_none hother, List.forall_mem_singleton.2 hunknown⟩
  refine ⟨net, net₁, net₂, net₃, ?_, ?_, ?_, ?_⟩
  · have hasks : AsksAll Network.Answers 0 q [[], [], []] net [] ([other, unknown] ++ [known]) net₃ :=
      .cons hfirst (.cons hsecond (.cons hthird (.nil net₃)))
    have hends : Ends q ([other, unknown] ++ [known]) [] (.ok ⟨⟨[3]⟩, .eligible⟩) :=
      .settled hboth ⟨rfl, by decide⟩
    exact ((dispatch_exact Network.Answers 0 (.listed [[], [], []]) r).1 _ _ _ _).2
      ⟨_, _, [], [], .listed _ net, Round.asked hasks hends, rfl⟩
  · have hasks : AsksAll Network.Answers 0 q [[], []] net [] [other, unknown] net₂ :=
      .cons hfirst (.cons hsecond (.nil net₂))
    have hends : Ends q [other, unknown] [] (.ok ⟨⟨[2]⟩, .unknownSubject⟩) := .unknown hboth rfl
    exact ((dispatch_exact Network.Answers 0 (.listed [[], []]) r).1 _ _ _ _).2
      ⟨_, _, [], [], .listed _ net, Round.asked hasks hends, rfl⟩
  · have hasks : AsksAll Network.Answers 0 q [[]] net [] ([] ++ [other]) net₁ := .cons hfirst (.nil net₁)
    have hends : Ends q ([] ++ [other]) [] (.error (.protocol ProtocolId.verify.text
        (.malformed "answer for r2 instead of r1"))) :=
      .failed (List.forall_mem_singleton.2 hother) rfl
    exact ((dispatch_exact Network.Answers 0 (.listed [[]]) r).1 _ _ _ _).2
      ⟨_, _, [], [], .listed _ net, Round.asked hasks hends, rfl⟩
  · have hconnections : Network.Answers net (.connections 0) (.ok []) [] net :=
      Network.answers_at_once (.listed net 0 (.ok []))
    have hasks (a : Address) (net : Network) :
        ∃ es report net', Asks Network.Answers 0 q a net es report net' :=
      ⟨_, _, _, .undialed (Network.answers_at_once (.dialed net 0 a none (.error .shutdown)))⟩
    exact (dispatch_exact Network.Answers 0 .connected r).2 hasks _ _ _ _ (.connected hconnections)

end Verification

end SealedCustody
