import Amqp.Proofs.Source.Delivery

/-!
# What is known of a source that fails

A computation on a source ends behind a result or behind a failure, and either way in a state.
An account says of an error and a state what is known of them; a computation keeps an account
if it holds of each of its failures. Computations in a row keep the account that each of them
keeps.

The states between which a decoder moves are settled while no byte is held, and facing while one
may be. They are a firm footing if what the source refuses is known, by the error and the state
that it leaves, and a sound one if the source also stays on its feet when it is merely looked at.
What a decoder relies on is where it stands as long as it goes on, but not behind a refusal.

A buffer in any state gives a sound footing without failures of its own: it refuses nothing but a
request for more bytes than it can hand out. So does a stream in any state whose reader reports
no failure. Both keep count of the bytes handed out since a start. A stream over any reader still
gives one on which nothing is refused but by the end of the input or by the reader.
-/

namespace Amqp

section Accounts

variable {σ α β : Type}

/-- Behind a result the state is of a kind, and behind a failure the account holds. -/
def Accounted (account : Error → σ → Prop) (after : σ → Prop) : EStateM.Result Error σ α → Prop
  | .ok _ source => after source
  | .error error source => account error source

/-- From states of a kind, a computation comes to states of a kind, and the account holds of each
of its failures. -/
def Accounts (account : Error → σ → Prop) (before after : σ → Prop) (compute : Fetch σ α) : Prop :=
  ∀ source, before source → Accounted account after (compute source)

variable {account : Error → σ → Prop} {before between after : σ → Prop}

/-- A result does not move the source. -/
theorem accounts_pure (result : α) : Accounts account before before (pure result : Fetch σ α) :=
  fun _ known => known

/-- A refusal is accounted for in the state that it is made in. -/
theorem accounts_throw {error : Error}
    (accounted : ∀ source, before source → account error source) :
    Accounts account before after (throw error : Fetch σ α) :=
  accounted

/-- Computations in a row keep the account that each of them keeps. If the first one fails, its
account is that of the whole; otherwise the second one starts on states of the kind in between.
-/
theorem Accounts.bind {first : Fetch σ α} {next : α → Fetch σ β}
    (accounts : Accounts account before between first)
    (each : ∀ result, Accounts account between after (next result)) :
    Accounts account before after (first >>= next) := by
  intro source known
  have ends := accounts source known
  cases ran : first source with
  | ok result middle =>
    rw [ran] at ends
    rw [bind_of_ok ran]
    exact each result middle ends
  | error error middle =>
    rw [ran] at ends
    rw [bind_of_error ran]
    exact ends

/-- A result computed from another keeps the account that this one keeps. -/
theorem Accounts.map {compute : Fetch σ α} (accounts : Accounts account before after compute)
    (finish : α → β) :
    Accounts account before after (compute >>= fun result => pure (finish result)) :=
  accounts.bind fun _ => accounts_pure _

/-- A computation also keeps a weaker account, from fewer states and to more. -/
theorem Accounts.imp {account' : Error → σ → Prop} {before' after' : σ → Prop}
    {compute : Fetch σ α} (accounts : Accounts account before after compute)
    (weaker : ∀ error source, account error source → account' error source)
    (fewer : ∀ source, before' source → before source)
    (more : ∀ source, after source → after' source) :
    Accounts account' before' after' compute := by
  intro source known
  have ends := accounts source (fewer source known)
  cases ran : compute source with
  | ok result next =>
    rw [ran] at ends
    exact more next ends
  | error error next =>
    rw [ran] at ends
    exact weaker error next ends

/-- A choice keeps the account that both of its branches keep. -/
theorem accounts_ite {condition : Prop} [Decidable condition] {yes no : Fetch σ α}
    (accepted : condition → Accounts account before after yes)
    (otherwise : ¬condition → Accounts account before after no) :
    Accounts account before after (if condition then yes else no) := by
  split
  · next holds => exact accepted holds
  · next fails => exact otherwise fails

/-- A refusal under a condition, before going on, is accounted for where the condition holds. -/
theorem accounts_unless {condition : Prop} [Decidable condition] {error : Error}
    {next : Unit → Fetch σ α}
    (refused : condition → ∀ source, before source → account error source)
    (going : ¬condition → Accounts account before after (next ())) :
    Accounts account before after (if condition then throw error >>= next else next ()) :=
  accounts_ite (fun holds => (accounts_throw (refused holds)).bind fun _ _ => False.elim) going

end Accounts

/-- The states of a source in which no byte is held, those in which one may be, and what the
source itself refuses requests with, in which states. -/
structure Footing (σ : Type) where
  settled : σ → Prop
  facing : σ → Prop
  refuses : Error → σ → Prop

namespace Footing

variable {σ : Type} [Source σ] (footing : Footing σ)

/-- A request is refused at an early end of the input, and for no other reason. -/
def EndsEarly (error : Error) (_ : σ) : Prop := error = .unexpectedEof

/-- A state whose next byte has been looked at and can be taken. -/
def Shown (source : σ) : Prop :=
  footing.facing source ∧ Accounted footing.refuses footing.settled (Source.skip 1 source)

/-- A footing on which the source refuses requests as it is known to. Where it shows no next
byte, a decoder takes this for a refusal. -/
structure Firm : Prop where
  facing_of_settled {source : σ} : footing.settled source → footing.facing source
  next {source : σ} : footing.facing source →
    (∃ error after, Source.peek source = .error error after ∧ footing.refuses error after) ∨
    (∃ after, Source.peek source = .ok none after ∧ footing.refuses .unexpectedEof after) ∨
    ∃ byte after, Source.peek source = .ok (some byte) after ∧
      Source.peek after = .ok (some byte) after ∧ footing.Shown after
  read (length : Nat) :
    Accounts footing.refuses footing.settled footing.settled (Source.read length : Fetch σ _)
  take (length : Nat) :
    Accounts footing.refuses footing.settled footing.settled (Source.take length : Fetch σ _)
  skip (length : Nat) :
    Accounts footing.refuses footing.settled footing.settled (Source.skip length : Fetch σ _)

/-- A footing on which the source stays if it is merely looked at, also where no byte is left. -/
structure Sound : Prop extends footing.Firm where
  looks : Accounts footing.refuses footing.facing footing.facing (Source.peek : Fetch σ _)

end Footing

/-- A source that has handed out some bytes since a start, and counted them. -/
def HandedOut {σ : Type} [Source σ] (unread : σ → Bytes) (start source : σ) : Prop :=
  ∃ front, unread start = front ++ unread source ∧
    Source.position source = Source.position start + front.length

namespace HandedOut

variable {σ : Type} [Source σ] {unread : σ → Bytes} {start source after : σ} {front : Bytes}

/-- At the start nothing has been handed out. -/
theorem refl (unread : σ → Bytes) (start : σ) : HandedOut unread start start :=
  ⟨[], rfl, rfl⟩

/-- A source goes on to hand out its first bytes. -/
theorem further (handed : HandedOut unread start source)
    (split : unread source = front ++ unread after)
    (counted : Source.position after = Source.position source + front.length) :
    HandedOut unread start after := by
  obtain ⟨earlier, whole, position⟩ := handed
  refine ⟨earlier ++ front, ?_, ?_⟩
  · rw [whole, split, List.append_assoc]
  · rw [counted, position, List.length_append, Nat.add_assoc]

end HandedOut

namespace Buffer

/-- Buffers that have handed out bytes of a start. -/
def footing (start : Buffer) : Footing Buffer :=
  ⟨HandedOut rest start, HandedOut rest start, Footing.EndsEarly⟩

/-- A buffer that advances hands out its first bytes. -/
theorem handedOut_advance {start buffer : Buffer} {length : Nat}
    (handed : HandedOut rest start buffer) (enough : length ≤ buffer.remaining) :
    HandedOut rest start (buffer.advance length) := by
  refine handed.further (List.take_append_drop length buffer.rest).symm ?_
  rw [List.length_take, ← buffer.remaining_eq, Nat.min_eq_left enough]
  rfl

/-- A request that a buffer answers exactly if it holds enough keeps count, or ends early. The
three kinds of request differ in what they give, so that is left open here, and each of them is
the case of its own two equations. -/
theorem accounts_request {start : Buffer} {α : Type} {request : Fetch Buffer α} {length : Nat}
    (granted : ∀ buffer : Buffer, length ≤ buffer.remaining →
      ∃ result, request buffer = .ok result (buffer.advance length))
    (refused : ∀ buffer : Buffer, ¬length ≤ buffer.remaining →
      request buffer = .error .unexpectedEof buffer) :
    Accounts Footing.EndsEarly start.footing.settled start.footing.settled request := by
  intro buffer handed
  by_cases enough : length ≤ buffer.remaining
  · obtain ⟨result, ran⟩ := granted buffer enough
    rw [ran]
    exact handedOut_advance handed enough
  · rw [refused buffer enough]
    rfl

/-- A buffer has no failures of its own. It stands on its feet also where nothing is left, since
a look does not move it, and all it refuses is a request for more bytes than it holds. -/
theorem sound_footing (start : Buffer) : start.footing.Sound where
  facing_of_settled handed := handed
  next {buffer} handed := by
    have looked : Source.peek buffer = .ok buffer.rest.head? buffer := rfl
    cases held : buffer.rest with
    | nil => exact .inr (.inl ⟨buffer, by rw [looked, held]; rfl, rfl⟩)
    | cons byte rest =>
      rw [held] at looked
      have skips : Accounts Footing.EndsEarly start.footing.settled start.footing.settled
          (Source.skip 1) :=
        accounts_request (fun _ enough => ⟨_, if_pos enough⟩) fun _ few => if_neg few
      exact .inr (.inr ⟨byte, buffer, looked, looked, handed, skips buffer handed⟩)
  read _ := accounts_request (fun _ enough => ⟨_, dif_pos enough⟩) fun _ few => dif_neg few
  take _ := accounts_request (fun _ enough => ⟨_, if_pos enough⟩) fun _ few => if_neg few
  skip _ := accounts_request (fun _ enough => ⟨_, if_pos enough⟩) fun _ few => if_neg few
  looks _ handed := handed

end Buffer

namespace Reader

/-- A reader that reports no failure. It may be interrupted, and it may say that the input has
ended before more of it arrives. -/
def Unfailing (reader : Reader) : Prop :=
  ∀ failure : IoFailure, .failed failure ∉ reader ∧ .stuck failure ∉ reader

/-- The bytes of a piece do not matter. -/
theorem unfailing_piece {bytes : Bytes} {script : Reader} (unfailing : script.Unfailing) :
    Unfailing (.piece bytes :: script) := by
  intro failure
  constructor <;> rintro (⟨⟩ | ⟨_, member⟩)
  · exact (unfailing failure).1 member
  · exact (unfailing failure).2 member

/-- A request to a reader that reports no failure does not fail, and none is left behind it. The
second half is what the induction is carried by: what a request leaves of a script has none but
events of the script, or the rest of a piece. -/
theorem unfailing_pull {reader : Reader} (unfailing : reader.Unfailing) (wanted : Nat) :
    (∀ failure, (pull wanted reader).stop ≠ .failed failure) ∧
      (pull wanted reader).after.Unfailing := by
  induction reader generalizing wanted with
  | nil =>
    cases wanted <;> refine ⟨?_, unfailing⟩ <;> rintro failure ⟨⟩
  | cons event script inductionHypothesis =>
    have later : Unfailing script := fun failure =>
      (unfailing failure).imp (mt (List.mem_cons_of_mem _)) (mt (List.mem_cons_of_mem _))
    cases wanted with
    | zero =>
      refine ⟨?_, unfailing⟩
      rintro failure ⟨⟩
    | succ wanted =>
      cases event with
      | piece bytes =>
        rw [pull]
        split
        · refine ⟨?_, unfailing_piece later⟩
          rintro failure ⟨⟩
        · exact inductionHypothesis later _
      | interrupted => exact inductionHypothesis later (wanted + 1)
      | ended =>
        refine ⟨?_, later⟩
        rintro failure ⟨⟩
      | failed failure => exact absurd List.mem_cons_self (unfailing failure).1
      | stuck failure => exact absurd List.mem_cons_self (unfailing failure).2

end Reader

namespace Stream

/-- Streams that have handed out bytes of a start, over readers that report no failure. -/
def footing (start : Stream) : Footing Stream where
  settled stream :=
    stream.peeked = none ∧ stream.reader.Unfailing ∧ HandedOut upcoming start stream
  facing stream := stream.reader.Unfailing ∧ HandedOut upcoming start stream
  refuses := Footing.EndsEarly

variable {start stream : Stream} {length : Nat}

/-- What is drawn from a reader that reports no failure is drawn without one. -/
theorem unfailing_draw (unfailing : stream.reader.Unfailing) (wanted : Nat) :
    (∀ failure, (stream.draw wanted).stop ≠ .failed failure) ∧
      (stream.draw wanted).after.Unfailing := by
  obtain ⟨reader, peeked, position⟩ := stream
  cases wanted with
  | zero => exact Reader.unfailing_pull unfailing 0
  | succ wanted => cases peeked <;> exact Reader.unfailing_pull unfailing _

/-- A request to a reader that reports no failure may end early, and leaves such a reader. -/
def Unfailed {α : Type} (request : Fetch Stream α) : Prop :=
  Accounts Footing.EndsEarly (·.reader.Unfailing) (·.reader.Unfailing) request

section Requests

variable {shape : Nat → Type} {request : (length : Nat) → Fetch Stream (shape length)}
  {given : (front : Bytes) → shape front.length} {counted : Nat → Nat}

/-- A request that sees what it draws does not fail. -/
theorem Asks.unfailed (asks : Asks request given counted) (length : Nat) :
    Unfailed (request length) := by
  intro stream unfailing
  obtain ⟨goes, left⟩ := unfailing_draw unfailing length
  rcases stream.cases_draw length with ⟨front, after, rfl, drawn⟩ | ⟨bytes, after, few, drawn⟩ |
    ⟨bytes, failure, after, drawn⟩
  · rw [asks.met drawn]
    rwa [drawn] at left
  · rw [asks.ended few drawn]
    rfl
  · exact absurd (congrArg Reader.Delivery.stop drawn) (goes failure)

/-- A request that sees what it draws hands out the first bytes to come, or ends early. -/
theorem Asks.accounted (asks : Asks request given counted)
    (unfailing : stream.reader.Unfailing) (handed : HandedOut upcoming start stream)
    (keeps : stream.peeked = none ∨ 0 < length) :
    Accounted Footing.EndsEarly start.footing.settled (request length stream) := by
  have left := asks.unfailed length stream unfailing
  cases ran : request length stream with
  | error error after => rwa [ran] at left
  | ok result after =>
    rw [ran] at left
    obtain ⟨front, full, _, split, nothing, counted⟩ := asks.handsOut ran keeps
    exact ⟨nothing, left, handed.further split (full ▸ counted)⟩

end Requests

/-- Looking at the next byte of a reader that reports no failure does not fail. -/
theorem exists_peek_of_unfailing (unfailing : stream.reader.Unfailing) :
    ∃ shown after, peek stream = .ok shown after ∧ after.reader.Unfailing := by
  obtain ⟨goes, left⟩ := Reader.unfailing_pull unfailing 1
  have peeks := stream.peeks
  generalize peek stream = outcome at peeks ⊢
  cases peeks with
  | held _ => exact ⟨_, _, rfl, unfailing⟩
  | arrived _ pulled => exact ⟨_, _, rfl, by rwa [pulled] at left⟩
  | ended _ pulled => exact ⟨_, _, rfl, by rwa [pulled] at left⟩
  | failed _ pulled => exact absurd (congrArg Reader.Delivery.stop pulled) (goes _)

/-- A stream over a reader that reports no failure shows its next byte, or that there is none. -/
theorem exists_peek_of_facing (faces : start.footing.facing stream) : ∃ shown after,
    peek stream = .ok shown after ∧ after.peeked = shown ∧ start.footing.facing after := by
  obtain ⟨unfailing, handed⟩ := faces
  obtain ⟨shown, after, ran, left⟩ := exists_peek_of_unfailing unfailing
  obtain ⟨same, position, held⟩ := upcoming_peek ran
  exact ⟨shown, after, ran, held, left,
    @HandedOut.further _ _ _ _ _ after [] handed same.symm position⟩

/-- A stream over a reader that reports no failure has none of its own. The reader may still say
that the input has ended and go on later; the requests that it cuts short end early, and those
behind them hand out the bytes that come then. -/
theorem sound_footing (start : Stream) : start.footing.Sound where
  facing_of_settled settled := settled.2
  next {stream} faces := by
    obtain ⟨shown, after, ran, held, faces⟩ := exists_peek_of_facing faces
    cases shown with
    | none => exact .inr (.inl ⟨after, ran, rfl⟩)
    | some byte =>
      exact .inr (.inr ⟨byte, after, ran, peek_of_held held, faces,
        asks_skip.accounted faces.1 faces.2 (.inr Nat.one_pos)⟩)
  read _ _ settled := asks_read.accounted settled.2.1 settled.2.2 (.inl settled.1)
  take _ _ settled := asks_take.accounted settled.2.1 settled.2.2 (.inl settled.1)
  skip _ _ settled := asks_skip.accounted settled.2.1 settled.2.2 (.inl settled.1)
  looks stream faces := by
    obtain ⟨shown, after, ran, _, faces⟩ := exists_peek_of_facing faces
    change Accounted _ _ (peek stream)
    rw [ran]
    exact faces

/-- Streams in any state over any reader. -/
def anywhere : Footing Stream where
  settled _ := True
  facing _ := True
  refuses error _ := error = .unexpectedEof ∨ ∃ failure, error = .io failure

/-- Looking at the next byte fails only where the reader does. -/
theorem exists_io_of_peek {stream after : Stream} {error : Error}
    (failed : peek stream = .error error after) : ∃ failure, error = .io failure := by
  have peeks := stream.peeks
  rw [failed] at peeks
  cases peeks
  exact ⟨_, rfl⟩

/-- What a reader reports is an early end or its own failure. -/
theorem refuses_ofIo (failure : IoFailure) (stream : Stream) :
    anywhere.refuses (.ofIo failure) stream := by
  unfold Error.ofIo
  split
  · exact .inl rfl
  · exact .inr ⟨failure, rfl⟩

/-- A request that sees what it draws is refused for the end of the input or by the reader.
Nothing is known of the state before or behind it, since the reader may do anything. -/
theorem Asks.accounts_anywhere {shape : Nat → Type}
    {request : (length : Nat) → Fetch Stream (shape length)}
    {given : (front : Bytes) → shape front.length} {counted : Nat → Nat}
    (asks : Asks request given counted) (length : Nat) :
    Accounts anywhere.refuses anywhere.settled anywhere.settled (request length) := by
  intro stream _
  rcases stream.cases_draw length with ⟨front, after, rfl, drawn⟩ | ⟨bytes, after, few, drawn⟩ |
    ⟨bytes, failure, after, drawn⟩
  · rw [asks.met drawn]
    trivial
  · rw [asks.ended few drawn]
    exact .inl rfl
  · rw [asks.failed drawn]
    exact refuses_ofIo _ _

/-- A stream in any state over any reader refuses nothing but for the end of the input or by the
reader. All states are alike here, so only the kind of the refusals is followed. -/
theorem sound_anywhere : anywhere.Sound where
  facing_of_settled _ := trivial
  next {stream} _ := by
    cases ran : peek stream with
    | error error after => exact .inl ⟨error, after, ran, .inr (exists_io_of_peek ran)⟩
    | ok shown after =>
      obtain ⟨_, _, held⟩ := upcoming_peek ran
      cases shown with
      | none => exact .inr (.inl ⟨after, ran, .inl rfl⟩)
      | some byte =>
        exact .inr (.inr ⟨byte, after, ran, peek_of_held held, trivial,
          asks_skip.accounts_anywhere 1 after trivial⟩)
  read := asks_read.accounts_anywhere
  take := asks_take.accounts_anywhere
  skip := asks_skip.accounts_anywhere
  looks stream _ := by
    change Accounted _ _ (peek stream)
    cases ran : peek stream with
    | ok shown after => trivial
    | error error after => exact .inr (exists_io_of_peek ran)

end Stream

end Amqp
