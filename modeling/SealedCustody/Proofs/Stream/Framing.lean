import SealedCustody.Mesh.LiveStream

/-!
# Framing is exact at the limit

One way of a stream is a writer, the octets on their way, and a reader (`Pipe`). Payloads are written
and the write side is closed in any order, and what is on its way arrives in chunks of any size. All
that was accepted for sending is what the reader has taken and what is still on its way, in order
(`Pipe.Framed`); each move keeps that, and everything else follows from it (`Pipe.framing_exact`).

The streams of the mesh are such pipes while the link under them lasts (`World.Carries`): there all that
was written has arrived before it is read, as one chunk.
-/

namespace SealedCustody

/-! ## A reader fed with a chunk -/

namespace StreamReader

variable {r : StreamReader} {arrived : List UInt8}

/-- A chunk that leaves the message within the limit is taken whole. -/
theorem feed_of_le (h : r.taken.length + arrived.length ≤ r.limit) (ended : Bool) :
    r.feed arrived ended =
      (if ended then .done (.ok (r.taken ++ arrived)) else .more ⟨r.limit, r.taken ++ arrived⟩, []) := by
  have hroom : arrived.length ≤ r.limit + 1 - r.taken.length := by omega
  have hfits : ¬r.limit < (r.taken ++ arrived).length := by
    rw [List.length_append]
    omega
  rw [feed, List.take_of_length_le hroom, List.drop_of_length_le hroom, if_neg hfits]
  cases ended <;> rfl

/-- Of a chunk that makes the message too long just the first octet above the limit is taken, and
whether it was the last chunk does not matter. -/
theorem feed_of_lt (htaken : r.taken.length ≤ r.limit)
    (h : r.limit < r.taken.length + arrived.length) (ended : Bool) :
    r.feed arrived ended =
      (.done (.error (.tooLong r.limit)), arrived.drop (r.limit + 1 - r.taken.length)) := by
  have hlong : r.limit < (r.taken ++ arrived.take (r.limit + 1 - r.taken.length)).length := by
    rw [List.length_append, List.length_take]
    omega
  rw [feed, if_pos hlong]

end StreamReader

/-! ## One way of a stream -/

/-- One way of a stream: a writer, the octets on their way in order, and what the reader has come to. -/
structure Pipe where
  writer : StreamWriter
  transit : List UInt8
  reader : StreamReader.Progress

namespace Pipe

/-- A pipe at the beginning of a message, with the limits of the writer and of the reader. -/
def start (writerLimit readerLimit : Nat) : Pipe :=
  ⟨⟨writerLimit, false⟩, [], .more (.start readerLimit)⟩

/-- Writes a payload. -/
def write (c : Pipe) (payload : List UInt8) : Except ProtocolFault Unit × Pipe :=
  match c.writer.write payload with
  | .error f => (.error f, c)
  | .ok sent => (.ok (), { c with transit := c.transit ++ sent })

/-- Closes the write side. -/
def close (c : Pipe) : Pipe := { c with writer := c.writer.close }

/-- A chunk of so many octets arrives, or what there is. The reader learns that the message has ended
only with the last of it, and may learn it later than that. -/
def arrive (c : Pipe) (size : Nat) (seesEnd : Bool) : Pipe :=
  match c.reader with
  | .done _ => c
  | .more r =>
    let ended := seesEnd && c.writer.closed && decide (c.transit.length ≤ size)
    let (reader, rest) := r.feed (c.transit.take size) ended
    { c with reader, transit := rest ++ c.transit.drop size }

/-- Something that happens on a pipe. -/
inductive Move where
  | write (payload : List UInt8)
  | close
  | arrive (size : Nat) (seesEnd : Bool)
deriving DecidableEq

/-- The pipe after a move. -/
def step (c : Pipe) : Move → Pipe
  | .write payload => (c.write payload).2
  | .close => c.close
  | .arrive size seesEnd => c.arrive size seesEnd

/-- The pipe after moves. -/
def run (c : Pipe) (moves : List Move) : Pipe := moves.foldl step c

/-- The payloads accepted by a writer with a limit, one after the other: those within the limit that are
written before the close. -/
def accepted (limit : Nat) : List Move → List UInt8
  | [] => []
  | .write payload :: moves =>
    (if payload.length ≤ limit then payload else []) ++ accepted limit moves
  | .close :: _ => []
  | .arrive _ _ :: moves => accepted limit moves

/-! ## What every move keeps -/

section

variable {limit : Nat} {moves : List Move} {payload : List UInt8} {size : Nat} {seesEnd : Bool}

theorem accepted_concat_write :
    accepted limit (moves ++ [.write payload]) = accepted limit moves ++
      if .close ∉ moves ∧ payload.length ≤ limit then payload else [] := by
  induction moves with
  | nil => simp [accepted]
  | cons m moves ih => cases m <;> simp [accepted, ih]

theorem accepted_concat_close : accepted limit (moves ++ [.close]) = accepted limit moves := by
  induction moves with
  | nil => rfl
  | cons m moves ih => cases m <;> simp [accepted, ih]

theorem accepted_concat_arrive :
    accepted limit (moves ++ [.arrive size seesEnd]) = accepted limit moves := by
  induction moves with
  | nil => rfl
  | cons m moves ih => cases m <;> simp [accepted, ih]

end

/-- What a reader that came so far knows of all that was sent, and of what is still on its way. -/
def Accounted (limit : Nat) (closed : Bool) (sent transit : List UInt8) :
    StreamReader.Progress → Prop
  | .more r => r.limit = limit ∧ r.taken.length ≤ limit ∧ sent = r.taken ++ transit
  | .done (.ok message) =>
    closed = true ∧ transit = [] ∧ sent = message ∧ message.length ≤ limit
  | .done (.error f) =>
    f = .tooLong limit ∧ ∃ taken, taken.length = limit + 1 ∧ sent = taken ++ transit

/-- How a pipe stands after moves: the writer knows whether it was closed, and what it accepted is
accounted for by the reader and by what is on its way. -/
structure Framed (writerLimit readerLimit : Nat) (moves : List Move) (c : Pipe) : Prop where
  writer_eq : c.writer = ⟨writerLimit, decide (.close ∈ moves)⟩
  accounted : Accounted readerLimit c.writer.closed (accepted writerLimit moves) c.transit c.reader

variable {m n : Nat} {moves : List Move} {c : Pipe}

theorem framed_start (m n : Nat) : Framed m n [] (start m n) :=
  ⟨rfl, rfl, Nat.zero_le n, rfl⟩

/-- What writing comes to after the moves so far. -/
theorem Framed.write_eq (h : Framed m n moves c) (payload : List UInt8) :
    c.write payload =
      if .close ∈ moves then (.error .writeClosed, c)
      else if m < payload.length then (.error (.tooLong m), c)
      else (.ok (), { c with transit := c.transit ++ payload }) := by
  rw [write, StreamWriter.write, h.writer_eq]
  by_cases hclosed : .close ∈ moves
  · simp [hclosed]
  · by_cases hlong : m < payload.length <;> simp [hclosed, hlong]

/-- Whatever the reader has come to, it accounts for more that is sent before the close. -/
theorem Accounted.append {sent transit : List UInt8} {p : StreamReader.Progress}
    (h : Accounted n false sent transit p) (payload : List UInt8) :
    Accounted n false (sent ++ payload) (transit ++ payload) p := by
  match p, h with
  | .more r, ⟨hlimit, hlength, hsent⟩ =>
    exact ⟨hlimit, hlength, by rw [hsent, List.append_assoc]⟩
  | .done (.ok _), ⟨hclosed, _⟩ => cases hclosed
  | .done (.error _), ⟨hf, taken, htaken, hsent⟩ =>
    exact ⟨hf, taken, htaken, by rw [hsent, List.append_assoc]⟩

/-- A reader that was done before the close stays right about it. -/
theorem Accounted.close {closed : Bool} {sent transit : List UInt8} {p : StreamReader.Progress}
    (h : Accounted n closed sent transit p) : Accounted n true sent transit p := by
  match p, h with
  | .more _, h => exact h
  | .done (.ok _), ⟨_, hrest⟩ => exact ⟨rfl, hrest⟩
  | .done (.error _), h => exact h

theorem Framed.write (h : Framed m n moves c) (payload : List UInt8) :
    Framed m n (moves ++ [.write payload]) (c.write payload).2 := by
  have hclose : decide (Move.close ∈ moves ++ [.write payload]) = decide (.close ∈ moves) := by
    simp
  rw [h.write_eq]
  by_cases hclosed : .close ∈ moves
  · rw [if_pos hclosed]
    refine ⟨by rw [hclose, h.writer_eq], ?_⟩
    rw [accepted_concat_write, if_neg fun hopen => hopen.1 hclosed, List.append_nil]
    exact h.accounted
  rw [if_neg hclosed]
  by_cases hlong : m < payload.length
  · rw [if_pos hlong]
    refine ⟨by rw [hclose, h.writer_eq], ?_⟩
    rw [accepted_concat_write, if_neg fun hfits => Nat.not_le.2 hlong hfits.2, List.append_nil]
    exact h.accounted
  · rw [if_neg hlong]
    have hopen : c.writer.closed = false := by rw [h.writer_eq, decide_eq_false hclosed]
    refine ⟨by rw [hclose, h.writer_eq], ?_⟩
    rw [accepted_concat_write, if_pos ⟨hclosed, Nat.not_lt.1 hlong⟩]
    have haccounted := h.accounted
    rw [hopen] at haccounted
    dsimp only
    rw [hopen]
    exact haccounted.append payload

theorem Framed.close (h : Framed m n moves c) : Framed m n (moves ++ [.close]) c.close := by
  refine ⟨?_, ?_⟩
  · simp [Pipe.close, StreamWriter.close, h.writer_eq]
  · rw [accepted_concat_close]
    exact h.accounted.close

/-- The end is seen only when all has arrived, so a message that is passed on is whole. -/
theorem Framed.arrive (h : Framed m n moves c) (size : Nat) (seesEnd : Bool) :
    Framed m n (moves ++ [.arrive size seesEnd]) (c.arrive size seesEnd) := by
  have hclose : decide (Move.close ∈ moves ++ [.arrive size seesEnd]) = decide (.close ∈ moves) := by
    simp
  have haccounted := h.accounted
  rw [Pipe.arrive]
  cases hreader : c.reader with
  | done r =>
    exact ⟨by rw [hclose, h.writer_eq], by rw [accepted_concat_arrive]; exact haccounted⟩
  | more r =>
    rw [hreader] at haccounted
    obtain ⟨rfl, htaken, hsent⟩ := haccounted
    refine ⟨by rw [hclose]; exact h.writer_eq, ?_⟩
    rw [accepted_concat_arrive, hsent]
    dsimp only
    by_cases hfits : r.taken.length + (c.transit.take size).length ≤ r.limit
    · rw [StreamReader.feed_of_le hfits]
      have htotal : (r.taken ++ c.transit.take size).length ≤ r.limit := by
        rwa [List.length_append]
      have hparts : r.taken ++ c.transit = (r.taken ++ c.transit.take size) ++ c.transit.drop size := by
        rw [List.append_assoc, List.take_append_drop]
      by_cases hended : (seesEnd && c.writer.closed && decide (c.transit.length ≤ size)) = true
      · rw [if_pos hended]
        simp only [Bool.and_eq_true, decide_eq_true_eq] at hended
        obtain ⟨⟨-, hclosed⟩, hall⟩ := hended
        have hrest : c.transit.drop size = [] := List.drop_of_length_le hall
        exact ⟨hclosed, hrest, by rw [hparts, hrest, List.append_nil], htotal⟩
      · rw [if_neg hended]
        exact ⟨rfl, htotal, hparts⟩
    · have hlong := Nat.not_le.1 hfits
      rw [StreamReader.feed_of_lt htaken hlong]
      let room := r.limit + 1 - r.taken.length
      have hparts : (c.transit.take size).take room ++
          ((c.transit.take size).drop room ++ c.transit.drop size) = c.transit := by
        rw [← List.append_assoc, List.take_append_drop, List.take_append_drop]
      refine ⟨rfl, r.taken ++ (c.transit.take size).take room, ?_, ?_⟩
      · rw [List.length_append, List.length_take]
        omega
      · rw [List.append_assoc, hparts]

theorem Framed.step (h : Framed m n moves c) (move : Move) :
    Framed m n (moves ++ [move]) (c.step move) := by
  cases move with
  | write payload => exact h.write payload
  | close => exact h.close
  | arrive size seesEnd => exact h.arrive size seesEnd

theorem Framed.run (h : Framed m n moves c) (more : List Move) :
    Framed m n (moves ++ more) (c.run more) := by
  induction more generalizing moves c with
  | nil => rwa [List.append_nil]
  | cons move more ih =>
    have hstep := ih (h.step move)
    rwa [List.append_assoc] at hstep

/-! ## The end of a message -/

/-- What a reader that is done has come to. -/
theorem Framed.of_done (h : Framed m n moves c) {result : Except ProtocolFault (List UInt8)}
    (hdone : c.reader = .done result) :
    (∀ message, result = .ok message ↔
      (accepted m moves).length ≤ n ∧ message = accepted m moves) ∧
    ((accepted m moves).length ≤ n → .close ∈ moves) ∧
    (n < (accepted m moves).length → result = .error (.tooLong n) ∧
      ∃ taken, taken.length = n + 1 ∧ accepted m moves = taken ++ c.transit) := by
  have haccounted := h.accounted
  rw [hdone] at haccounted
  cases result with
  | ok message =>
    obtain ⟨hclosed, -, hsent, hfits⟩ := haccounted
    rw [h.writer_eq] at hclosed
    rw [hsent]
    refine ⟨fun message' => ?_, fun _ => of_decide_eq_true hclosed, fun hlong => ?_⟩
    · rw [Except.ok.injEq, eq_comm]
      exact (and_iff_right hfits).symm
    · exact absurd hfits (Nat.not_le.2 hlong)
  | error f =>
    obtain ⟨rfl, taken, htaken, hsent⟩ := haccounted
    have hlong : n < (accepted m moves).length := by
      rw [hsent, List.length_append]
      omega
    refine ⟨fun message => ?_, fun hfits => ?_, fun _ => ⟨rfl, taken, htaken, hsent⟩⟩
    · exact iff_of_false nofun fun hfits => Nat.not_le.2 hlong hfits.1
    · exact absurd hfits (Nat.not_le.2 hlong)

/-- When all that is on its way arrives, a reader that waited passes on the whole message if it was
closed, and refuses one that is too long without having seen its end. -/
theorem Framed.arrive_all (h : Framed m n moves c) {r : StreamReader} (hreader : c.reader = .more r)
    {size : Nat} (hall : c.transit.length ≤ size) :
    (∀ seesEnd, n < (accepted m moves).length →
      (c.arrive size seesEnd).reader = .done (.error (.tooLong n))) ∧
    ((accepted m moves).length ≤ n → .close ∈ moves →
      (c.arrive size true).reader = .done (.ok (accepted m moves))) := by
  have haccounted := h.accounted
  rw [hreader] at haccounted
  obtain ⟨rfl, htaken, hsent⟩ := haccounted
  have hlength : (accepted m moves).length = r.taken.length + c.transit.length := by
    rw [hsent, List.length_append]
  refine ⟨fun seesEnd hlong => ?_, fun hfits hclosed => ?_⟩
  · rw [Pipe.arrive, hreader]
    dsimp only
    rw [List.take_of_length_le hall, StreamReader.feed_of_lt htaken (hlength ▸ hlong)]
  · have hended : c.writer.closed = true := by rw [h.writer_eq, decide_eq_true hclosed]
    rw [Pipe.arrive, hreader, hended, decide_eq_true hall]
    dsimp only
    rw [List.take_of_length_le hall, StreamReader.feed_of_le (hlength ▸ hfits), hsent]
    rfl

/-- **Framing is exact at the limit.** After any writes, closes and arrivals of chunks of any size:
- a payload is sent whole, or it is refused and nothing changes: after the close any is, and before it
  one above the writer's limit is;
- a reader that is done passes on a message just if what was accepted is within its limit, and then the
  message is that, in order, and it was closed; else the message is refused as too long, and one octet
  more than the limit was taken of it;
- a reader that waits comes to one or the other when what is on its way has arrived: it passes on a
  message within its limit if it was closed, and refuses a longer one whether it was closed or not. -/
theorem framing_exact (m n : Nat) (moves : List Move) :
    let c := (start m n).run moves
    let sent := accepted m moves
    (∀ payload, c.write payload =
      if .close ∈ moves then (.error .writeClosed, c)
      else if m < payload.length then (.error (.tooLong m), c)
      else (.ok (), { c with transit := c.transit ++ payload })) ∧
    (∀ result, c.reader = .done result →
      (∀ message, result = .ok message ↔ sent.length ≤ n ∧ message = sent) ∧
      (sent.length ≤ n → .close ∈ moves) ∧
      (n < sent.length → result = .error (.tooLong n) ∧
        ∃ taken, taken.length = n + 1 ∧ sent = taken ++ c.transit)) ∧
    ∀ r, c.reader = .more r → r.taken.length ≤ n ∧ sent = r.taken ++ c.transit ∧
      ∀ size, c.transit.length ≤ size →
        (∀ seesEnd, n < sent.length →
          (c.arrive size seesEnd).reader = .done (.error (.tooLong n))) ∧
        (sent.length ≤ n → .close ∈ moves →
          (c.arrive size true).reader = .done (.ok sent)) := by
  intro c sent
  have h : Framed m n moves c := (framed_start m n).run moves
  refine ⟨h.write_eq, fun result hdone => h.of_done hdone, fun r hmore => ?_⟩
  have haccounted := h.accounted
  rw [hmore] at haccounted
  obtain ⟨-, htaken, hsent⟩ := haccounted
  exact ⟨htaken, hsent, fun size hall => h.arrive_all hmore hall⟩

end Pipe

/-! ## The streams of the mesh -/

section

variable (s : LiveStream) (b : Bool) (f : StreamSide → StreamSide)

@[simp] theorem LiveStream.protocol_mapSide : (s.mapSide b f).protocol = s.protocol := by
  cases b <;> rfl

@[simp] theorem LiveStream.link_mapSide : (s.mapSide b f).link = s.link := by
  cases b <;> rfl

@[simp] theorem LiveStream.side_mapSide : (s.mapSide b f).side b = f (s.side b) := by
  cases b <;> rfl

@[simp] theorem LiveStream.side_not_mapSide : (s.mapSide b f).side (!b) = s.side (!b) := by
  cases b <;> rfl

@[simp] theorem LiveStream.side_mapSide_not : (s.mapSide (!b) f).side b = s.side b := by
  cases b <;> rfl

end

namespace World

variable {w : World} {e : StreamEnd} {s : LiveStream} {c : Pipe}

/-- One way of a stream in the mesh, from an end to the other, is a pipe whose reader is at the beginning
of a message: the link is there and neither side was told otherwise, and the other side holds on. -/
structure Carries (w : World) (e : StreamEnd) (s : LiveStream) (c : Pipe) : Prop where
  stream_eq : w.streams.get? e.stream = some s
  linked : w.links.contains s.link = true
  near_intact : w.isSevered (s.side e.opener) = false
  far_intact : w.isSevered (s.side !e.opener) = false
  held : (s.side !e.opener).held = true
  writer_eq : (s.side e.opener).writer = c.writer
  inbox_eq : (s.side !e.opener).inbox = c.transit
  ended_eq : (s.side !e.opener).ended = c.writer.closed
  reader_eq : c.reader = .more (.start (s.side !e.opener).writer.limit)

theorem Carries.sendFault? (h : w.Carries e s c) : w.sendFault? s (s.side e.opener) = none := by
  rw [World.sendFault?, h.near_intact, h.linked]
  rfl

/-- A change of the stream under the pipe that only writes, closes and lets arrive is one of the pipe. -/
theorem Carries.update {w' : World} {s' : LiveStream} {c' : Pipe} (h : w.Carries e s c)
    (hnodes : w'.nodes = w.nodes) (hlinks : w'.links = w.links)
    (hstream : w'.streams.get? e.stream = some s') (hlink : s'.link = s.link)
    (hnear : s'.side e.opener = { s.side e.opener with writer := c'.writer })
    (hfar : s'.side (!e.opener) =
      { s.side (!e.opener) with inbox := c'.transit, ended := c'.writer.closed })
    (hreader : c'.reader = c.reader) : w'.Carries e s' c' := by
  have hsevered : ∀ side, w'.isSevered side = w.isSevered side := fun side => by
    rw [isSevered, isSevered, hnodes]
  constructor
  · exact hstream
  · rw [hlinks, hlink]; exact h.linked
  · rw [hsevered, hnear]; exact h.near_intact
  · rw [hsevered, hfar]; exact h.far_intact
  · rw [hfar]; exact h.held
  · rw [hnear]
  · rw [hfar]
  · rw [hfar]
  · rw [hreader, hfar]; exact h.reader_eq

/-- A write in the mesh is a write on the pipe. -/
theorem Carries.write (h : w.Carries e s c) (payload : List UInt8) :
    (w.write e payload).1 = (c.write payload).1.mapError (streamError s) ∧
      ∃ s', s'.protocol = s.protocol ∧ (w.write e payload).2.Carries e s' (c.write payload).2 := by
  rw [World.write, h.stream_eq, Pipe.write]
  dsimp only
  rw [h.writer_eq]
  cases hwrite : c.writer.write payload with
  | error f => exact ⟨rfl, s, rfl, h⟩
  | ok sent =>
    dsimp only
    rw [h.sendFault?, mapFarSide, mapStream, h.stream_eq]
    refine ⟨rfl, s.mapSide (!e.opener) (arrive sent), s.protocol_mapSide _ _, ?_⟩
    refine h.update rfl rfl ((Table.get?_insert ..).trans (if_pos rfl)) (s.link_mapSide _ _) ?_ ?_ rfl
    · rw [LiveStream.side_mapSide_not, ← h.writer_eq]
    · rw [LiveStream.side_mapSide, arrive, if_pos h.held, h.inbox_eq, ← h.ended_eq]

/-- Closing the write side in the mesh closes the pipe. -/
theorem Carries.finish (h : w.Carries e s c) :
    (w.finish e).1 = .ok () ∧ ∃ s', s'.protocol = s.protocol ∧ (w.finish e).2.Carries e s' c.close := by
  rw [World.finish, h.stream_eq]
  dsimp only
  by_cases hclosed : (s.side e.opener).writer.closed = true
  · have hsame : c.close = c := by
      rw [h.writer_eq] at hclosed
      rw [Pipe.close, StreamWriter.close, ← hclosed]
    rw [if_pos hclosed, hsame]
    exact ⟨rfl, s, rfl, h⟩
  · rw [if_neg hclosed]
    let s₁ := s.mapSide e.opener fun side => { side with writer := side.writer.close }
    have hnear : w.mapSide e (fun side => { side with writer := side.writer.close }) =
        { w with streams := w.streams.insert e.stream s₁ } := by
      rw [mapSide, mapStream, h.stream_eq]
    have hsent : ({ w with streams := w.streams.insert e.stream s₁ } : World).sendFault? s
        (s.side e.opener) = none := h.sendFault?
    rw [hnear, hsent]
    dsimp only [mapFarSide, mapStream]
    rw [Table.get?_insert, if_pos rfl]
    refine ⟨rfl, s₁.mapSide (!e.opener) ({ · with ended := true }), ?_, ?_⟩
    · rw [LiveStream.protocol_mapSide, LiveStream.protocol_mapSide]
    refine h.update rfl rfl ((Table.get?_insert ..).trans (if_pos rfl)) ?_ ?_ ?_ rfl
    · rw [LiveStream.link_mapSide, LiveStream.link_mapSide]
    · rw [LiveStream.side_mapSide_not, LiveStream.side_mapSide, h.writer_eq]
      rfl
    · rw [LiveStream.side_mapSide, LiveStream.side_not_mapSide, Pipe.close, ← h.inbox_eq]
      rfl

/-- A read at the other end comes to what the reader of the pipe comes to when all that is on its way
arrives. -/
theorem Carries.read? (h : w.Carries e s c) :
    (w.read? ⟨e.stream, !e.opener⟩).1 =
      match (c.arrive c.transit.length true).reader with
      | .more _ => none
      | .done r => some (r.mapError (streamError s)) := by
  rw [World.read?, h.stream_eq, Pipe.arrive, h.reader_eq, decide_eq_true (Nat.le_refl _),
    List.take_length, Bool.and_true, Bool.true_and]
  dsimp only
  rw [h.far_intact, h.inbox_eq, h.ended_eq, if_neg Bool.false_ne_true]
  cases hfeed : (StreamReader.start (s.side !e.opener).writer.limit).feed c.transit c.writer.closed with
  | mk reader rest => cases reader <;> rfl

/-- The world after a move at one end of a stream; what was written has arrived without a further
move. -/
def move (w : World) (e : StreamEnd) : Pipe.Move → World
  | .write payload => (w.write e payload).2
  | .close => (w.finish e).2
  | .arrive _ _ => w

/-- Writing and closing in the mesh are moves of the pipe. -/
theorem Carries.moves (h : w.Carries e s c) {moves : List Pipe.Move}
    (hmoves : ∀ size seesEnd, .arrive size seesEnd ∉ moves) :
    ∃ s', s'.protocol = s.protocol ∧ (moves.foldl (move · e) w).Carries e s' (c.run moves) := by
  induction moves generalizing w s c with
  | nil => exact ⟨s, rfl, h⟩
  | cons m moves ih =>
    have hstep : ∃ s', s'.protocol = s.protocol ∧ (w.move e m).Carries e s' (c.step m) := by
      cases m with
      | write payload => exact (h.write payload).2
      | close => exact h.finish.2
      | arrive size seesEnd => exact absurd List.mem_cons_self (hmoves size seesEnd)
    obtain ⟨s₁, hprotocol, h₁⟩ := hstep
    obtain ⟨s₂, hprotocol', h₂⟩ :=
      ih h₁ fun size seesEnd hmem => hmoves size seesEnd (List.mem_cons_of_mem m hmem)
    exact ⟨s₂, hprotocol'.trans hprotocol, h₂⟩

/-- **What is read in the mesh.** After any writes and closes at one end of a stream, the other end reads
all that was accepted as soon as the stream was closed, it waits until then, and it refuses what is too
long without waiting. -/
theorem Carries.read_eq {m n : Nat} (h : w.Carries e s (Pipe.start m n)) {moves : List Pipe.Move}
    (hmoves : ∀ size seesEnd, .arrive size seesEnd ∉ moves) :
    ((moves.foldl (move · e) w).read? ⟨e.stream, !e.opener⟩).1 =
      let sent := Pipe.accepted m moves
      if n < sent.length then some (.error (streamError s (.tooLong n)))
      else if .close ∈ moves then some (.ok sent)
      else none := by
  obtain ⟨s', hprotocol, h'⟩ := h.moves hmoves
  have hframed : Pipe.Framed m n moves ((Pipe.start m n).run moves) := (Pipe.framed_start m n).run moves
  have herror : streamError s' = streamError s := funext fun f => by
    rw [streamError, streamError, hprotocol]
  rw [h'.read?, herror]
  obtain ⟨hlong, hshort⟩ := hframed.arrive_all h'.reader_eq (Nat.le_refl _)
  dsimp only
  by_cases hfits : n < (Pipe.accepted m moves).length
  · rw [hlong true hfits, if_pos hfits]
    rfl
  by_cases hclosed : .close ∈ moves
  · rw [hshort (Nat.not_lt.1 hfits) hclosed, if_neg hfits, if_pos hclosed]
    rfl
  · rw [if_neg hfits, if_neg hclosed]
    let c := (Pipe.start m n).run moves
    cases hreader : (c.arrive c.transit.length true).reader with
    | more r => rfl
    | done result =>
      obtain ⟨-, hend, -⟩ := (hframed.arrive c.transit.length true).of_done hreader
      rw [Pipe.accepted_concat_arrive] at hend
      have hclose := hend (Nat.not_lt.1 hfits)
      simp [hclosed] at hclose

end World

end SealedCustody
