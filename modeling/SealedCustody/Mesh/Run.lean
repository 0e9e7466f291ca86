import SealedCustody.Mesh.Question

/-!
# Running

How time passes. At an instant everything that can move on its own does so first: tasks whose answer is
there or whose time has come, and the tasks that keep nodes connected. Only when none can move is the
next thing taken from the queue, and only when nothing is left to do at the instant does the clock move
on to the next time at which there is.

A run goes on until the jobs it was started for are finished. What a job leaves to be done at that very
instant is done by `World.settle`.
-/

namespace SealedCustody

namespace World

variable {α : Type}

/-! ## Jobs and tasks -/

/-- Runs a program until it has to wait. -/
def begin : Program α → World → Job α × World
  | .done a, w => (.finished a, w)
  | .ask q next, w =>
    match w.pose q with
    | (.inl a, w) => begin (next a) w
    | (.inr wait, w) =>
      match w.answer? q wait with
      | (some a, w) => begin (next a) w
      | (none, w) => (.blocked q wait next, w)

/-- Moves a job on as far as it goes; whether it moved. -/
def resume (w : World) : Job α → Bool × Job α × World
  | .finished a => (false, .finished a, w)
  | .ready p => (true, begin p w)
  | .blocked q wait next =>
    match w.answer? q wait with
    | (some a, w) => (true, begin (next a) w)
    | (none, w) => (false, .blocked q wait next, w)

/-- Moves some tasks on, one after the other; whether any moved. -/
def resumeAll (w : World) : List (Job α) → Bool × List (Job α) × World
  | [] => (false, [], w)
  | t :: rest =>
    let (moved, t, w) := w.resume t
    let (more, rest, w) := resumeAll w rest
    (moved || more, t :: rest, w)

/-- Moves on what runs at the nodes of its own accord. -/
def resumeTasks (w : World) : Bool × World :=
  let (moved, tasks, w) := { w with tasks := [] }.resumeAll w.tasks
  (moved, { w with tasks := tasks.filter (!·.isFinished) ++ w.tasks })

/-! ## Staying connected -/

/-- Dials for a task that keeps a node connected. -/
def keeperDial (n : NodeId) (a : Address) : Job Bootstrap.Input :=
  .ready ((Program.query (.dial n a none)).bind fun r => .done (.dialed r))

/-- What a task does next. -/
def keeperWork (n : NodeId) (a : Address) : Bootstrap.Action → Option (Job Bootstrap.Input)
  | .dial => some (keeperDial n a)
  | .pause seconds =>
    some (.ready ((Program.query (.sleep (seconds * 1000))).bind fun () => .done .paused))
  | .count p => some (.ready ((Program.query (.connections n)).bind fun r =>
      .done (.counted (r.map fun cs => (cs.filter (·.peer = p)).length))))
  | .wait => none

/-- A task meets with something. -/
def Keeper.meet (k : Keeper) (node : Node) (i : Bootstrap.Input) : Keeper :=
  let (state, action) := k.state.step node.events.subscribe i
  { k with state, work := keeperWork k.node k.address action }

/-- Whether a task ends when its node is told to stop. -/
def heeds (k : Keeper) : Bool :=
  match k.state.phase with
  | .watching _ | .pausing => true
  | _ => false

/-- Moves a task that keeps a node connected on; whether it moved. -/
def resumeKeeper (w : World) (k : Keeper) : Bool × Keeper × World :=
  match w.nodes.get? k.node with
  | none => (false, k, w)
  | some node =>
    if heeds k && node.office.any (·.stopping) then (true, Keeper.meet k node .shutdown, w)
    else match k.work with
      | some t =>
        match w.resume t with
        | (_, .finished i, w) => (true, Keeper.meet k node i, w)
        | (moved, t, w) => (moved, { k with work := some t }, w)
      | none =>
        match k.state.phase, node.events.receive k.state.receiver with
        | .watching _, (.nothing, _) => (false, k, w)
        | .watching _, (r, receiver) =>
          (true, Keeper.meet { k with state := { k.state with receiver } } node (.received r), w)
        | _, _ => (false, k, w)

/-- Moves the tasks on that keep nodes connected. -/
def resumeKeepers (w : World) : Bool × World :=
  let (moved, keepers, w) := w.keepers.foldl
    (fun (moved, ks, w) k =>
      let (m, k, w) := w.resumeKeeper k
      (moved || m, ks ++ [k], w))
    (false, [], w)
  (moved, { w with keepers })

/-- Sets a task running that keeps a node connected to an address. -/
def keep (w : World) (n : NodeId) (node : Node) (a : Address) : World :=
  { w with keepers := w.keepers ++
      [⟨n, a, Bootstrap.start node.events.subscribe, some (keeperDial n a)⟩] }

/-! ## Happenings -/

/-- A node that runs gets an address from the interface while that is up. It says so even if it has the
address already. -/
def appear (w : World) (n : NodeId) (a : Address) : World :=
  w.mapNode n fun node =>
    if node.running && w.machine.isUp then
      let listening := if node.listening.contains a then node.listening else node.listening ++ [a]
      { node with listening }.emit (.listeningOn (a.withPeer node.peerId).text)
    else node

/-- Something happens. -/
def happen (w : World) : Happening → World
  | .reach n dial => w.reach n dial
  | .welcome l caller => w.welcome l caller
  | .tooLate n dial => w.giveUp n dial
  | .brokenOff n dial _ => w.breakOff n dial
  | .down l => w.takeDown l
  | .negotiate id => w.negotiate id
  | .ping n l => w.ping n l
  | .appear n a => w.appear n a
  | .stop n => w.stopTransport n

/-- Moves on all that can move on its own; whether anything did. -/
def pass (w : World) (jobs : List (Job α)) : Bool × List (Job α) × World :=
  let (m₁, w) := w.resumeTasks
  let (m₂, jobs, w) := w.resumeAll jobs
  let (m₃, w) := w.resumeKeepers
  (m₁ || m₂ || m₃, jobs, w)

/-- The next time at which there is something to do. -/
def nextTime? (w : World) (jobs : List (Job α)) : Option Nat :=
  (jobs.filterMap (·.deadline?) ++ w.tasks.filterMap (·.deadline?)
    ++ (w.keepers.filterMap (·.work)).filterMap (·.deadline?)
    ++ (w.queue.head?.map Prod.fst).toList ++ w.idleTimes.map Prod.fst).min?

/-- A link that has been idle for too long. -/
def idleLink? (w : World) : Option ConnectionId :=
  (w.idleTimes.find? fun e => e.1 ≤ w.now).map Prod.snd

/-- Does the first thing of the queue that is due, or else closes a link that has been idle for too
long, if there is either. -/
def doDue? (w : World) (isDue : Nat × Happening → Bool) : Option World :=
  match w.queue.find? isDue with
  | some e => some ({ w with queue := w.queue.erase e }.happen e.2)
  | none => w.idleLink?.map w.takeDown

/-- Runs until some jobs are finished, or nothing is left to do, or the turns are used up. -/
def advance : Nat → List (Job α) → World → List (Job α) × World
  | 0, jobs, w => (jobs, w)
  | turns + 1, jobs, w =>
    if jobs.all (·.isFinished) then (jobs, w)
    else match w.pass jobs with
      | (true, jobs, w) => advance turns jobs w
      | (false, jobs, w) =>
        match w.nextTime? jobs with
        | none => (jobs, w)
        | some t =>
          if w.now < t then advance turns jobs { w with now := t }
          else advance turns jobs ((w.doDue? fun e => e.1 ≤ w.now).getD w)

/-- The turns that a run may take. -/
def turnLimit : Nat := 1000000000

/-- Runs until some jobs are finished. -/
def complete (w : World) (jobs : List (Job α)) : List (Job α) × World := advance turnLimit jobs w

/-- Begins some programs, one after the other. -/
def launch (w : World) : List (Program α) → List (Job α) × World
  | [] => ([], w)
  | p :: rest =>
    let (t, w) := begin p w
    let (ts, w) := launch w rest
    (t :: ts, w)

/-- Runs a program to its end. -/
def perform (w : World) (p : Program α) : Option α × World :=
  let (jobs, w) := w.complete [.ready p]
  (jobs.head?.bind (·.value?), w)

/-! ## The end of a step -/

/-- Whether something of the queue is done before the present step is over. What a node broke off in a
step still hangs in the air when the next begins, unless the links of several nodes are compared before
that. -/
def isDue (w : World) : Nat × Happening → Bool
  | (t, .brokenOff _ _ step) => t ≤ w.now && (step ≠ w.step || 1 < w.watched)
  | (t, _) => t ≤ w.now

/-- Does what is left to do at the present instant. -/
def settleIn : Nat → World → World
  | 0, w => w
  | turns + 1, w =>
    match w.pass ([] : List (Job Unit)) with
    | (true, _, w) => settleIn turns w
    | (false, _, w) =>
      match w.doDue? w.isDue with
      | some w => settleIn turns w
      | none => w

/-- Ends a step. -/
def settle (w : World) : World :=
  let w := settleIn turnLimit w
  { w with step := w.step + 1 }

end World

end SealedCustody
