import Amqp.Proofs.Source.Delivery

/-!
# Where a request leaves a source

Bytes asked for in one request are the bytes asked for piece by piece, and the source then
stands where it would have stood. So a source in any state, whatever its reader does, hands
out some bytes and is then in a state that these bytes alone decide, however they were asked
for. That is all that becomes of a source while its requests succeed.

Two couplings say so of the computations that are made of requests. In the one a stream keeps
count of what it has handed out since it was in a state. In the other a buffer of these bytes
is put beside a source that can hand them out: as long as the requests of the buffer succeed,
those of the source give the same, and when the buffer is empty the source is where the bytes
lead it.
-/

namespace Amqp

open Source (Lawful)

namespace Reader

/-- A piece that is longer than what is wanted stays at the front. -/
theorem pull_piece_of_le {wanted : Nat} {bytes : Bytes} (script : Reader) (some : 0 < wanted)
    (enough : wanted ≤ bytes.length) : pull wanted (.piece bytes :: script) =
      ⟨bytes.take wanted, .satisfied, .piece (bytes.drop wanted) :: script⟩ := by
  cases wanted with
  | zero => omega
  | succ wanted => simp [pull, enough]

/-- A piece that is shorter than what is wanted is delivered in front of what follows it. -/
theorem pull_piece_of_lt {wanted : Nat} {bytes : Bytes} (script : Reader)
    (short : bytes.length < wanted) : pull wanted (.piece bytes :: script) =
      ⟨bytes ++ (pull (wanted - bytes.length) script).bytes,
        (pull (wanted - bytes.length) script).stop,
        (pull (wanted - bytes.length) script).after⟩ := by
  cases wanted with
  | zero => omega
  | succ wanted =>
    have whole : bytes.take (wanted + 1) = bytes := List.take_of_length_le (by omega)
    simp only [pull, whole]
    rw [if_neg (by omega)]

/-- Behind a satisfied request the reader goes on as if the two had been one. The induction is on
the script. The only event at which the two sides look different is a piece that is longer than
the first request: its rest stands at the front of what is left, and the second request finds it
there. -/
theorem pull_add {first : Nat} {reader : Reader} (second : Nat)
    (satisfied : (pull first reader).stop = .satisfied) :
    pull (first + second) reader =
      ⟨(pull first reader).bytes ++ (pull second (pull first reader).after).bytes,
        (pull second (pull first reader).after).stop,
        (pull second (pull first reader).after).after⟩ := by
  induction reader generalizing first with
  | nil =>
    cases first with
    | zero => simp [pull]
    | succ first => simp [pull] at satisfied
  | cons event script inductionHypothesis =>
    cases first with
    | zero => simp [pull]
    | succ first =>
      cases event with
      | piece bytes =>
        rcases Nat.lt_or_ge bytes.length (first + 1) with short | enough
        · rw [pull_piece_of_lt _ short] at satisfied ⊢
          rw [pull_piece_of_lt _ (by omega), show first + 1 + second - bytes.length =
            first + 1 - bytes.length + second by omega, inductionHypothesis satisfied]
          simp only [List.append_assoc]
        · rw [pull_piece_of_le _ (Nat.succ_pos _) enough]
          cases second with
          | zero => simp [pull, enough]
          | succ second =>
            -- the rest of the piece is what the second request finds at the front
            rcases Nat.lt_or_ge bytes.length (first + 1 + (second + 1)) with short | plenty
            · rw [pull_piece_of_lt _ short, pull_piece_of_lt _ (by simp; omega)]
              have left : first + 1 + (second + 1) - bytes.length =
                  second + 1 - (bytes.drop (first + 1)).length := by simp; omega
              rw [left, ← List.append_assoc, List.take_append_drop]
            · have beyond : second + 1 ≤ (bytes.drop (first + 1)).length := by simp; omega
              rw [pull_piece_of_le _ (Nat.succ_pos _) beyond, pull_piece_of_le _ (by omega) plenty,
                List.drop_drop, ← List.take_add]
      | interrupted =>
        simp only [Nat.add_right_comm first 1 second, pull] at satisfied ⊢
        rw [Nat.add_right_comm]
        exact inductionHypothesis satisfied
      | ended | failed | stuck => simp [pull] at satisfied

/-- A request that is satisfied would have been with less. The converse fails, and nothing is
said of where the reader stands: the induction only follows why the request ended. -/
theorem satisfied_of_add {first second : Nat} {reader : Reader}
    (satisfied : (pull (first + second) reader).stop = .satisfied) :
    (pull first reader).stop = .satisfied := by
  induction reader generalizing first with
  | nil => cases first <;> simp_all [pull, Nat.add_right_comm]
  | cons event script inductionHypothesis =>
    cases first with
    | zero => simp [pull]
    | succ first =>
      cases event with
      | piece bytes =>
        rcases Nat.lt_or_ge bytes.length (first + 1) with short | enough
        · rw [pull_piece_of_lt _ short]
          rw [pull_piece_of_lt _ (by omega), show first + 1 + second - bytes.length =
            first + 1 - bytes.length + second by omega] at satisfied
          exact inductionHypothesis satisfied
        · rw [pull_piece_of_le _ (Nat.succ_pos _) enough]
      | interrupted =>
        rw [Nat.add_right_comm] at satisfied
        rw [pull] at satisfied ⊢
        rw [Nat.add_right_comm] at satisfied
        exact inductionHypothesis satisfied
      | ended | failed | stuck => simp [Nat.add_right_comm, pull] at satisfied

end Reader

namespace Stream

/-- A stream hands out these bytes, asked for in one request, and then stands there. -/
structure Leads (stream : Stream) (bytes : Bytes) (after : Stream) : Prop where
  drawn : stream.draw bytes.length = ⟨bytes, .satisfied, after.reader⟩
  nothing : after.peeked = none
  counted : after.position = stream.position + bytes.length

/-- Unless a byte is let go, what is drawn in one request is drawn in two. The premise excludes
the one case in which this fails, a first request for nothing while a byte is held. The held byte
then counts towards the first request, and the rest is a matter of the reader. -/
theorem draw_add {stream : Stream} {first : Nat} (second : Nat)
    (keeps : stream.peeked = none ∨ 0 < first)
    (satisfied : (stream.draw first).stop = .satisfied) :
    stream.draw (first + second) =
      ⟨(stream.draw first).bytes ++ (Reader.pull second (stream.draw first).after).bytes,
        (Reader.pull second (stream.draw first).after).stop,
        (Reader.pull second (stream.draw first).after).after⟩ := by
  obtain ⟨reader, peeked, position⟩ := stream
  cases peeked with
  | none =>
    simp only [draw_of_nothing] at satisfied ⊢
    exact Reader.pull_add second satisfied
  | some byte =>
    obtain ⟨first, rfl⟩ : ∃ fewer, first = fewer + 1 :=
      ⟨first - 1, by have := keeps.resolve_left nofun; omega⟩
    rw [Nat.add_right_comm]
    simp only [draw] at satisfied ⊢
    rw [Reader.pull_add second satisfied]
    rfl

/-- A stream that draws some bytes has drawn the first of them on the way. A held byte shortens
both requests by one, so in either case it is the reader that is satisfied with less. -/
theorem satisfied_draw_of_add {stream : Stream} {first second : Nat}
    (satisfied : (stream.draw (first + second)).stop = .satisfied) :
    (stream.draw first).stop = .satisfied := by
  obtain ⟨reader, peeked, position⟩ := stream
  cases first with
  | zero => simp [draw, Reader.pull]
  | succ first =>
    rw [Nat.add_right_comm] at satisfied
    cases peeked with
    | none =>
      simp only [draw, Nat.add_right_comm first second 1] at satisfied ⊢
      exact Reader.satisfied_of_add satisfied
    | some byte => exact Reader.satisfied_of_add satisfied

namespace Leads

variable {stream middle after : Stream} {front back bytes : Bytes}

/-- Two ways in a row are one way. -/
theorem append (first : stream.Leads front middle) (second : middle.Leads back after)
    (keeps : stream.peeked = none ∨ front ≠ []) : stream.Leads (front ++ back) after where
  drawn := by
    have behind : Reader.pull back.length middle.reader = ⟨back, .satisfied, after.reader⟩ := by
      rw [← second.drawn, draw_of_nothing first.nothing]
    rw [List.length_append, draw_add _ (keeps.imp_right List.length_pos_iff.mpr)
      (by rw [first.drawn]), first.drawn]
    simp only [behind]
  nothing := second.nothing
  counted := by rw [second.counted, first.counted, List.length_append, Nat.add_assoc]

/-- On its way a stream stands behind the first of the bytes. The one request is taken apart into
two, and as many bytes as the first one asked for are the first of those handed out, so the
middle state is the one behind the first request. -/
theorem split (leads : stream.Leads (front ++ back) after)
    (keeps : stream.peeked = none ∨ front ≠ []) :
    ∃ middle, stream.Leads front middle ∧ middle.Leads back after := by
  have drawn := leads.drawn
  rw [List.length_append] at drawn
  have satisfied : (stream.draw front.length).stop = .satisfied :=
    satisfied_draw_of_add (by rw [drawn])
  rw [draw_add _ (keeps.imp_right List.length_pos_iff.mpr) satisfied] at drawn
  obtain ⟨bytes, stop, rest⟩ := Reader.Delivery.mk.inj drawn
  obtain ⟨same, later⟩ := List.append_inj bytes (length_draw_eq_iff.mpr satisfied)
  refine ⟨⟨(stream.draw front.length).after, none, stream.position + front.length⟩,
    ⟨?_, rfl, rfl⟩, ?_, leads.nothing, ?_⟩
  · exact Reader.Delivery.eq_mk same satisfied
  · rw [draw_of_nothing rfl, Reader.Delivery.eq_mk later stop, rest]
  · rw [leads.counted, List.length_append, Nat.add_assoc]

/-- No bytes lead a stream that holds none anywhere else. -/
theorem eq_self (leads : stream.Leads [] after) (bare : stream.peeked = none) : after = stream := by
  obtain ⟨reader, peeked, position⟩ := after
  obtain ⟨drawn, rfl, rfl⟩ := leads
  obtain ⟨-, -, rfl⟩ := Reader.Delivery.mk.inj drawn
  obtain ⟨reader, peeked, position⟩ := stream
  obtain rfl : peeked = none := bare
  cases reader <;> rfl

/-- What a stream hands out is the first of the bytes to come. -/
theorem upcoming (leads : stream.Leads bytes after) (keeps : stream.peeked = none ∨ bytes ≠ []) :
    stream.upcoming = bytes ++ after.upcoming := by
  rw [← draw_append_undelivered (keeps.imp_right List.length_pos_iff.mpr), leads.drawn,
    Stream.upcoming, leads.nothing]
  rfl

end Leads

section Requests

variable {shape : Nat → Type} {request : (length : Nat) → Fetch Stream (shape length)}
  {given : (front : Bytes) → shape front.length} {counted : Nat → Nat} {stream after : Stream}

/-- The bytes that lead a stream on are given. -/
theorem Asks.of_leads (asks : Asks request given counted) {bytes : Bytes}
    (leads : stream.Leads bytes after) : request bytes.length stream = .ok (given bytes) after := by
  obtain ⟨reader, peeked, position⟩ := after
  obtain ⟨drawn, rfl, rfl⟩ := leads
  exact asks.met drawn

/-- A request that is met leads the stream on by as many bytes as it was asked for. Of one that
is refused nothing is said. -/
theorem Asks.exists_leads (asks : Asks request given counted) {length : Nat}
    {result : shape length} (ran : request length stream = .ok result after) :
    ∃ bytes, bytes.length = length ∧ stream.Leads bytes after := by
  rcases stream.cases_draw length with ⟨front, left, rfl, drawn⟩ | ⟨bytes, left, few, drawn⟩ |
    ⟨bytes, failure, left, drawn⟩
  · rw [asks.met drawn] at ran
    cases ran
    exact ⟨front, rfl, drawn, rfl, rfl⟩
  · rw [asks.ended few drawn] at ran
    cases ran
  · rw [asks.failed drawn] at ran
    cases ran

end Requests

/-- Looking at the next byte changes nothing for the requests that follow. -/
theorem draw_of_peek {stream shown : Stream} {byte : UInt8}
    (ran : peek stream = .ok (some byte) shown) (wanted : Nat) :
    shown.draw (wanted + 1) = stream.draw (wanted + 1) := by
  have peeks := stream.peeks
  rw [ran] at peeks
  cases peeks with
  | held _ => rfl
  | arrived nothing pulled =>
    have later := Reader.pull_add wanted (congrArg Reader.Delivery.stop pulled)
    rw [pulled, Nat.add_comm] at later
    rw [draw_of_nothing nothing, later]
    rfl

/-- Bytes that lead on from behind a look lead on from before it. -/
theorem leads_iff_of_peek {stream shown after : Stream} {byte : UInt8} {bytes : Bytes}
    (ran : peek stream = .ok (some byte) shown) (some : bytes ≠ []) :
    shown.Leads bytes after ↔ stream.Leads bytes after := by
  obtain ⟨first, others, rfl⟩ := List.exists_cons_of_ne_nil some
  have position := (upcoming_peek ran).2.1
  have drawn := draw_of_peek ran others.length
  constructor
  · rintro ⟨led, nothing, counted⟩
    exact ⟨drawn.symm.trans led, nothing, by rw [counted, position]⟩
  · rintro ⟨led, nothing, counted⟩
    exact ⟨drawn.trans led, nothing, by rw [counted, position]⟩

/-- The first byte that leads a stream on is seen, and what leads it on still does. A byte that
is held must be that first byte, since it is drawn before all others; and where none is held, the
look is a request for one byte, which the way on shows to be satisfied. -/
theorem exists_peek_of_leads {stream after : Stream} {byte : UInt8} {rest : Bytes}
    (leads : stream.Leads (byte :: rest) after) :
    ∃ shown, peek stream = .ok (some byte) shown ∧ shown.Leads (byte :: rest) after := by
  have seen : ∃ shown, peek stream = .ok (some byte) shown := by
    obtain ⟨middle, first, -⟩ := @Leads.split _ _ [byte] _ leads (.inr nofun)
    obtain ⟨reader, peeked, position⟩ := stream
    have drawn := first.drawn
    cases peeked with
    | some held =>
      obtain ⟨same, -⟩ := Reader.Delivery.mk.inj drawn
      obtain ⟨rfl, -⟩ := List.cons.inj same
      exact ⟨_, rfl⟩
    | none =>
      change Reader.pull 1 reader = _ at drawn
      simp [peek, drawn]
  obtain ⟨shown, ran⟩ := seen
  exact ⟨shown, ran, (leads_iff_of_peek ran (List.cons_ne_nil _ _)).mpr leads⟩

end Stream

namespace Source

/-- A source on which bytes lead from one state to another, whatever it has been asked before.
`Bare` says that it holds no byte that it has only looked at. -/
class Steady (σ : Type) [Source σ] where
  Bare : σ → Prop
  Leads : σ → Bytes → σ → Prop
  position_eq {source after : σ} {bytes : Bytes} :
    Leads source bytes after → position after = position source + bytes.length
  bare {source after : σ} {bytes : Bytes} : Leads source bytes after → Bare after
  nothing {source after : σ} : Bare source → Leads source [] after → after = source
  split {source after : σ} {front back : Bytes} : Leads source (front ++ back) after →
    Bare source ∨ front ≠ [] → ∃ middle, Leads source front middle ∧ Leads middle back after
  peek_leads {source after : σ} {byte : UInt8} {rest : Bytes} :
    Leads source (byte :: rest) after →
      ∃ shown, peek source = .ok (some byte) shown ∧ Leads shown (byte :: rest) after
  read_leads {source after : σ} {bytes : Bytes} :
    Leads source bytes after → read bytes.length source = .ok ⟨bytes.toArray, rfl⟩ after
  take_leads {source after : σ} {bytes : Bytes} :
    Leads source bytes after → take bytes.length source = .ok bytes after
  skip_leads {source after : σ} {bytes : Bytes} :
    Leads source bytes after → skip bytes.length source = .ok () after
  length_le {source after : σ} {bytes : Bytes} {left : Nat} :
    Leads source bytes after → remaining source = some left → bytes.length ≤ left

end Source

namespace Buffer

/-- A buffer holds what is left of it. -/
theorem holds_self (buffer : Buffer) : buffer.Holds buffer.rest buffer.position := ⟨rfl, rfl⟩

/-- The bytes that a buffer holds first lead it to what it holds behind them. -/
def Leads (buffer : Buffer) (bytes : Bytes) (after : Buffer) : Prop :=
  buffer.rest = bytes ++ after.rest ∧ after.position = buffer.position + bytes.length

/-- A buffer that is led on has advanced by as much. -/
theorem Leads.eq_advance {buffer after : Buffer} {bytes : Bytes}
    (leads : buffer.Leads bytes after) : after = buffer.advance bytes.length := by
  obtain ⟨rest, position⟩ := leads
  apply Buffer.ext
  · simp [advance, rest]
  · exact position
  · simp [advance, buffer.remaining_eq, after.remaining_eq, rest]

/-- A buffer is led on by no more than it holds. -/
theorem Leads.length_le {buffer after : Buffer} {bytes : Bytes}
    (leads : buffer.Leads bytes after) : bytes.length ≤ buffer.remaining := by
  rw [buffer.remaining_eq, leads.1, List.length_append]
  exact Nat.le_add_right ..

/-- On its way a buffer stands behind the first of the bytes. -/
theorem Leads.split {buffer after : Buffer} {front back : Bytes}
    (leads : buffer.Leads (front ++ back) after) :
    ∃ middle, buffer.Leads front middle ∧ middle.Leads back after := by
  obtain ⟨rest, position⟩ := leads
  refine ⟨buffer.advance front.length, ⟨?_, rfl⟩, ?_, ?_⟩
  · simp [advance, rest]
  · simp [advance, rest]
  · rw [position, List.length_append, ← Nat.add_assoc]
    rfl

section Requests

variable {buffer after : Buffer} {bytes : Bytes} (leads : buffer.Leads bytes after)

include leads

/-- The first byte that leads a buffer on is seen. -/
theorem Leads.peek {byte : UInt8} {rest : Bytes} (begins : bytes = byte :: rest) :
    Source.peek buffer = .ok (some byte) buffer := by
  change EStateM.Result.ok buffer.rest.head? buffer = _
  rw [leads.1, begins]
  rfl

/-- The bytes that lead a buffer on are read from it. -/
theorem Leads.read : Source.read bytes.length buffer = .ok ⟨bytes.toArray, rfl⟩ after := by
  have whole : buffer.first bytes.length leads.length_le = ⟨bytes.toArray, rfl⟩ := by
    simp [first, leads.1]
  rw [leads.eq_advance, ← whole]
  exact dif_pos leads.length_le

/-- The bytes that lead a buffer on are taken from it. -/
theorem Leads.take : Source.take bytes.length buffer = .ok bytes after := by
  have whole : buffer.rest.take bytes.length = bytes := by simp [leads.1]
  rw [leads.eq_advance]
  exact (if_pos leads.length_le).trans (by rw [whole])

/-- The bytes that lead a buffer on are passed over. -/
theorem Leads.skip : Source.skip bytes.length buffer = .ok () after := by
  rw [leads.eq_advance]
  exact if_pos leads.length_le

end Requests

instance : Source.Steady Buffer where
  Bare _ := True
  Leads := Leads
  position_eq leads := leads.2
  bare _ := trivial
  nothing _ leads := leads.eq_advance
  split leads _ := leads.split
  peek_leads leads := ⟨_, leads.peek rfl, leads⟩
  read_leads leads := leads.read
  take_leads leads := leads.take
  skip_leads leads := leads.skip
  length_le leads known := Option.some.inj known ▸ leads.length_le

end Buffer

namespace Stream

/-- The bytes that lead a stream on are read from it. -/
theorem Leads.read {stream after : Stream} {bytes : Bytes} (leads : stream.Leads bytes after) :
    Source.read bytes.length stream = .ok ⟨bytes.toArray, rfl⟩ after :=
  asks_read.of_leads leads

/-- A stream does not say how much is left of it. -/
theorem remaining_ne_some (stream : Stream) (left : Nat) :
    Source.remaining stream ≠ some left :=
  (Option.some_ne_none left).symm

instance : Source.Steady Stream where
  Bare stream := stream.peeked = none
  Leads := Leads
  position_eq leads := leads.counted
  bare leads := leads.nothing
  nothing bare leads := leads.eq_self bare
  split := Leads.split
  peek_leads := exists_peek_of_leads
  read_leads leads := leads.read
  take_leads leads := asks_take.of_leads leads
  skip_leads leads := asks_skip.of_leads leads
  length_le _ known := absurd known (remaining_ne_some _ _)

end Stream

namespace Coupling

open Source (Steady)

section Ahead

variable {σ : Type} [Source σ] [Steady σ]

/-- A buffer of the bytes that lead a source to a goal, beside this source. All failures of the
buffer are excused. -/
def ahead (goal : σ) : Coupling Buffer σ where
  settled buffer source := Steady.Bare source ∧ Steady.Leads source buffer.rest goal ∧
    buffer.position = Source.position source
  facing buffer source := Steady.Leads source buffer.rest goal ∧
    buffer.position = Source.position source
  failed _ _ := True
  excused _ := True

/-- A request that a buffer has the bytes for is answered alike by a source that they lead. Where
the buffer has too few, its failure is excused. Otherwise its bytes are cut where the request
ends, the front leads the source to a middle state, and from there the back leads it to the goal.
-/
theorem tracks_ahead {shape : Nat → Type} {request : (length : Nat) → Fetch Buffer (shape length)}
    {request' : (length : Nat) → Fetch σ (shape length)}
    {given : (front : Bytes) → shape front.length} (answers : Lawful.Answers request given)
    (leads : ∀ {source after : σ} {bytes : Bytes}, Steady.Leads source bytes after →
      request' bytes.length source = .ok (given bytes) after) (goal : σ) (length : Nat) :
    (ahead goal).Tracks (ahead goal).settled (ahead goal).settled (request length)
      (request' length) := by
  rintro buffer source ⟨bare, onward, position⟩
  rcases Nat.lt_or_ge buffer.rest.length length with few | many
  · obtain ⟨_, _, _, fails⟩ := answers.short few
    obtain ⟨after, ran, _⟩ := fails buffer buffer.holds_self
    rw [ran]
    exact .inl trivial
  · obtain ⟨front, back, split, rfl⟩ := Bytes.exists_append_of_le many
    have holds := buffer.holds_self
    rw [split] at holds onward
    obtain ⟨after, ran, settled⟩ := answers.settled holds
    obtain ⟨middle, first, later⟩ := Steady.split onward (.inl bare)
    rw [ran]
    refine ⟨middle, leads first, Steady.bare first, ?_, ?_⟩
    · rwa [settled.1]
    · rw [Steady.position_eq first, settled.2, position]

/-- A source answers as a buffer does of the bytes that lead it on, as long as the buffer
succeeds. The requests are the lemma above. A look at the next byte leads nowhere, so what is
ahead stays ahead of it; taking that byte is the way cut behind its first byte. -/
theorem sound_ahead (goal : σ) : (ahead goal).Sound where
  facing_of_settled related := related.2
  failed_of_facing _ := trivial
  position_eq related := related.2
  next {buffer source} related := by
    obtain ⟨onward, position⟩ := related
    have looked : Source.peek buffer = .ok buffer.rest.head? buffer := rfl
    cases left : buffer.rest with
    | nil =>
      rw [left] at looked
      exact .inr (.inl ⟨buffer, looked, .inl trivial⟩)
    | cons byte rest =>
      rw [left] at onward
      have moved := Steady.position_eq onward
      obtain ⟨shown, ran, onward⟩ := Steady.peek_leads onward
      obtain ⟨middle, first, later⟩ :=
        @Steady.split σ _ _ _ _ [byte] _ onward (.inr (List.cons_ne_nil _ _))
      have unmoved : Source.position source = Source.position shown :=
        Nat.add_right_cancel (moved.symm.trans (Steady.position_eq onward))
      rw [left] at looked
      refine .inr (.inr ⟨byte, buffer, shown, looked, ran, ⟨left ▸ onward,
        position.trans unmoved⟩, ?_⟩)
      have holds := buffer.holds_self
      rw [left] at holds
      obtain ⟨last, skipped, settled⟩ := Lawful.skip_facing (σ := Buffer) holds
      rw [skipped]
      refine ⟨middle, Steady.skip_leads first, Steady.bare first, ?_, ?_⟩
      · rwa [settled.1]
      · rw [Steady.position_eq first, settled.2, position, unmoved]
        rfl
  read := tracks_ahead Lawful.answers_read Steady.read_leads goal
  take := tracks_ahead Lawful.answers_take Steady.take_leads goal
  skip := tracks_ahead Lawful.answers_skip Steady.skip_leads goal
  ensures declared := by
    rintro buffer source ⟨bare, onward, position⟩
    rcases Nat.lt_or_ge buffer.rest.length declared with few | many
    · have refused : Decoder.ensureAvailable declared buffer =
          .error (.lengthExceedsRemaining declared buffer.remaining) buffer :=
        (Decoder.ensureAvailable_eq declared buffer).trans (if_pos (by rwa [buffer.remaining_eq]))
      rw [refused]
      exact .inl trivial
    · rw [Decoder.ensureAvailable_of_le (Buffer.holds_self buffer) many]
      refine ⟨source, ?_, bare, onward, position⟩
      rw [Decoder.ensureAvailable_eq]
      cases known : Source.remaining source with
      | none => rfl
      | some left =>
        have enough := Steady.length_le onward known
        exact if_neg (by omega)

end Ahead

section Traced

/-- What leads a stream on leads a start on as well, behind some bytes. -/
def Onward (start stream : Stream) : Prop :=
  ∃ bytes, ∀ more after, more ≠ [] → stream.Leads more after → start.Leads (bytes ++ more) after

/-- A stream that a start was led to, not by letting a byte go. -/
def Reached (start stream : Stream) : Prop :=
  ∃ bytes, (start.peeked = none ∨ bytes ≠ []) ∧ start.Leads bytes stream

/-- What was reached goes on from where the start goes on. -/
theorem Reached.onward {start stream : Stream} (reached : Reached start stream) :
    Onward start stream := by
  obtain ⟨bytes, keeps, leads⟩ := reached
  exact ⟨bytes, fun more after _ later => leads.append later keeps⟩

/-- Behind a request that takes bytes, what was on the way is reached. -/
theorem Onward.reached {start stream after : Stream} {bytes : Bytes}
    (onward : Onward start stream) (some : bytes ≠ []) (leads : stream.Leads bytes after) :
    Reached start after := by
  obtain ⟨front, whole⟩ := onward
  exact ⟨front ++ bytes, .inr (List.append_ne_nil_of_right_ne_nil _ some), whole _ _ some leads⟩

/-- Behind any request, what was reached is left for what can be reached. -/
theorem Reached.further {start stream after : Stream} {bytes : Bytes}
    (reached : Reached start stream) (leads : stream.Leads bytes after) : Reached start after := by
  obtain ⟨front, keeps, first⟩ := reached
  refine ⟨front ++ bytes, keeps.imp_right fun some => ?_, first.append leads keeps⟩
  exact List.append_ne_nil_of_left_ne_nil some _

/-- A stream over any reader that counts what it hands out from a start on, beside one whose
reader delivers the same bytes. Every failure of the first one is excused. -/
def traced (start : Stream) : Coupling Stream Stream where
  settled source target := Reached start source ∧ disturbed.settled source target
  facing source target := Onward start source ∧ disturbed.facing source target
  failed _ _ := True
  excused _ := True

/-- What is known of a stream behind a success is known beside the other stream. -/
theorem follows_traced {start : Stream} {α : Type} {after : Stream → Stream → Prop}
    {known : Stream → Prop} {left right : EStateM.Result Error Stream α}
    (follows : disturbed.Follows after left right)
    (leads : ∀ result source, left = .ok result source → known source) :
    (traced start).Follows (fun source target => known source ∧ after source target) left
      right := by
  cases left with
  | error error source => exact .inl trivial
  | ok result source =>
    obtain ⟨target, same, related⟩ := follows
    exact ⟨target, same, leads result source rfl, related⟩

/-- A request keeps count of what it hands out. -/
theorem tracks_traced {shape : Nat → Type} {request : (length : Nat) → Fetch Stream (shape length)}
    {given : (front : Bytes) → shape front.length} {counted : Nat → Nat}
    (asks : Stream.Asks request given counted) {length : Nat}
    (tracks : disturbed.Tracks disturbed.settled disturbed.settled (request length)
      (request length)) (start : Stream) :
    (traced start).Tracks (traced start).settled (traced start).settled (request length)
      (request length) := by
  intro source target related
  refine follows_traced (tracks _ _ related.2) fun _ _ ran => ?_
  obtain ⟨bytes, -, leads⟩ := asks.exists_leads ran
  exact related.1.further leads

/-- Counting what is handed out does not disturb the answers. That a stream answers as the
undisturbed one does is known already; what is added is that each request that takes bytes
extends those handed out since the start, and that a look leaves open what can be handed out. -/
theorem sound_traced (start : Stream) : (traced start).Sound where
  facing_of_settled related := ⟨related.1.onward, sound_disturbed.facing_of_settled related.2⟩
  failed_of_facing _ := trivial
  position_eq related := sound_disturbed.position_eq related.2
  next {source target} related := by
    obtain ⟨onward, faces⟩ := related
    rcases sound_disturbed.next faces with ⟨error, after, ran, _⟩ | ⟨after, ran, _⟩ |
      ⟨byte, after, behind, ran, shown, faces, skips⟩
    · exact .inl ⟨error, after, ran, .inl trivial⟩
    · exact .inr (.inl ⟨after, ran, .inl trivial⟩)
    · have kept : Onward start after := by
        obtain ⟨bytes, whole⟩ := onward
        exact ⟨bytes, fun more last some leads =>
          whole more last some ((Stream.leads_iff_of_peek ran some).mp leads)⟩
      refine .inr (.inr ⟨byte, after, behind, ran, shown, ⟨kept, faces⟩, ?_⟩)
      refine follows_traced skips fun _ last skipped => ?_
      obtain ⟨bytes, one, leads⟩ := Stream.asks_skip.exists_leads skipped
      exact kept.reached (List.ne_nil_of_length_pos (by omega)) leads
  read length := tracks_traced Stream.asks_read (sound_disturbed.read length) start
  take length := tracks_traced Stream.asks_take (sound_disturbed.take length) start
  skip length := tracks_traced Stream.asks_skip (sound_disturbed.skip length) start
  ensures declared source target related :=
    follows_traced (sound_disturbed.ensures declared _ _ related.2) fun _ _ ran => by
      cases ran
      exact related.1

end Traced

end Coupling

end Amqp
