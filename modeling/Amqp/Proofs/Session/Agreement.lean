import Amqp.Proofs.Decoder.Acceptance
import Amqp.Proofs.Decoder.Passing
import Amqp.Proofs.Session

/-!
# Buffer and stream sessions agree

A buffer and a stream with the same bytes have the same record up to the first failure on
the buffer. That failure is the same on the stream too, except where the buffer knows
early that a declared length is not there. The stream learns it later, because it accepts
the same bytes, unless the operation only reads the prefix of a list.

Behind any session, failures included, a stream stands where its position says unless it
has run dry, and looking at what comes next changes nothing that the other operations see.
-/

namespace Amqp

open Decoder
open Source (Lawful)
open Source.Lawful (Settled Facing)

/-- A computation fails on one source wherever it fails on another. -/
def FailsWith {σ τ α : Type} (before : σ → τ → Prop) (left : Fetch σ α) (right : Fetch τ α) :
    Prop :=
  ∀ source target, before source target → ∀ error after, left source = .error error after →
    ∃ error behind, right target = .error error behind

section Failing

variable {σ τ α β : Type} {before between : σ → τ → Prop}

/-- A computation that gives a result on one source wherever it does on another fails
wherever the other one fails. -/
theorem failsWith_of_ok {left : Fetch σ α} {right : Fetch τ α}
    (gives : ∀ source target, before source target → ∀ result behind,
      right target = .ok result behind → ∃ after, left source = .ok result after) :
    FailsWith before left right := by
  intro source target related error after failed
  cases ran : right target with
  | error error behind => exact ⟨error, behind, rfl⟩
  | ok result behind =>
    obtain ⟨other, same⟩ := gives source target related result behind ran
    rw [failed] at same
    cases same

/-- Giving a result fails nowhere. -/
theorem failsWith_pure (result : α) (other : Fetch τ α) :
    FailsWith before (pure result : Fetch σ α) other := by
  intro _ _ _ _ _ failed
  cases failed

/-- Computations in a row fail with each other if both of them do, as long as the first of them
track each other. The tracking is needed to start the second computation in related states; that
the first fails with its counterpart would not give them. -/
theorem FailsWith.bind {coupling : Coupling σ τ} {left : Fetch σ α} {right : Fetch τ α}
    {next : α → Fetch σ β} {next' : α → Fetch τ β} (first : FailsWith before left right)
    (tracks : coupling.Tracks before between left right)
    (each : ∀ result, FailsWith between (next result) (next' result)) :
    FailsWith before (left >>= next) (right >>= next') := by
  intro source target related error after failed
  have follows := tracks source target related
  cases ran : left source with
  | error error' middle =>
    obtain ⟨error'', behind, failed'⟩ := first source target related _ _ ran
    exact ⟨error'', behind, bind_of_error failed'⟩
  | ok result middle =>
    rw [ran] at follows
    obtain ⟨behind, same, related⟩ := follows
    rw [bind_of_ok ran] at failed
    rw [bind_of_ok same]
    exact each result middle behind related error after failed

/-- Showing a result fails nowhere, so it fails where the computation of the result does, and
with the same error. -/
theorem FailsWith.showing {left : Fetch σ α} {right : Fetch τ α}
    (fails : FailsWith before left right) (answer : α → β) :
    FailsWith before (do return answer (← left)) (do return answer (← right)) := by
  intro source target related error after failed
  cases ran : left source with
  | error error' middle =>
    obtain ⟨error'', behind, failed'⟩ := fails source target related _ _ ran
    exact ⟨error'', behind, bind_of_error failed'⟩
  | ok result middle =>
    rw [bind_of_ok ran] at failed
    cases failed

variable [Source σ] [Lawful σ] [Source τ] [Lawful τ]

/-- Computations that accept the same language from the same bytes fail on the same
bytes. -/
theorem failsWith_of_parses {left : Fetch σ α} {right : Fetch τ α}
    {language : Bytes → α → Prop} (parses : ParsesFrom Facing left language)
    (parses' : ParsesFrom Facing right language)
    (same : ∀ source target, before source target → ∃ rest taken,
      Facing source rest taken ∧ Facing target rest taken) :
    FailsWith before left right := by
  apply failsWith_of_ok
  intro source target related result behind ran
  obtain ⟨rest, taken, faces, faces'⟩ := same source target related
  obtain ⟨front, back, rfl, word, _⟩ := parses'.sound faces' ran
  obtain ⟨after, ran', _⟩ := parses.complete faces word
  exact ⟨after, ran'⟩

/-- Looking at the next constructor fails on the same bytes. -/
theorem failsWith_peekCode (same : ∀ source target, before source target → ∃ rest taken,
      Facing source rest taken ∧ Facing target rest taken) :
    FailsWith before (peekCode : Fetch σ Code) (peekCode : Fetch τ Code) := by
  apply failsWith_of_ok
  intro source target related result behind ran
  obtain ⟨rest, taken, faces, faces'⟩ := same source target related
  obtain ⟨back, rfl, _⟩ := head_of_peekCode faces' ran
  obtain ⟨after, ran', _⟩ := peekCode_of_head faces
  exact ⟨after, ran'⟩

end Failing

section Agreement

/-- What corresponds on a buffer and a stream faces the same bytes. -/
theorem facing_of_bufferStream (source : Buffer) (target : Stream)
    (related : Coupling.bufferStream.facing source target) :
    ∃ rest taken, Facing source rest taken ∧ Facing target rest taken := by
  obtain ⟨rest, taken, _, faces, faces'⟩ := related
  exact ⟨rest, taken, faces, faces'⟩

/-- Reading values until none is left fails on a stream wherever it fails on a buffer. The
induction is on the bound, and each value that is read leaves related states, since reading a
value tracks itself. A look for more bytes fails on neither side. -/
theorem failsWith_decodeUntilEnd (settings : DecoderSettings) (bound : Nat)
    (earlier : List Value) : FailsWith Coupling.bufferStream.facing
      (decodeUntilEnd settings bound earlier) (decodeUntilEnd settings bound earlier) := by
  have sound := Coupling.aligned_bufferStream.toSound
  induction bound generalizing earlier with
  | zero => exact failsWith_pure _ _
  | succ bound inductionHypothesis =>
    have peeks : FailsWith Coupling.bufferStream.facing
        (Source.hasRemaining : Fetch Buffer Bool) (Source.hasRemaining : Fetch Stream Bool) := by
      intro source target _ error after failed
      cases failed
    apply peeks.bind (Coupling.aligned_bufferStream.peek.map Option.isSome)
    intro more
    cases more with
    | false => exact failsWith_pure _ _
    | true =>
      refine (failsWith_of_parses (parsesFrom_decodeValue settings)
        (parsesFrom_decodeValue settings) facing_of_bufferStream).bind
          (tracks_decodeValue sound (.refl _ settings)) fun value => ?_
      intro source target related
      exact inductionHypothesis (value :: earlier) source target (sound.facing_of_settled related)

/-- Reading all values fails on a stream wherever it fails on a buffer. -/
theorem failsWith_decodeAll (settings : DecoderSettings) :
    FailsWith Coupling.bufferStream.facing (decodeAll settings) (decodeAll settings) := by
  intro source target related error after failed
  obtain ⟨error', behind, failed'⟩ := failsWith_decodeUntilEnd settings
    (Source.pending source + 1) [] source target related error after failed
  refine ⟨error', behind, ?_⟩
  rw [Coupling.aligned_bufferStream.pending_eq related] at failed'
  exact failed'

/-- Every operation but reading the prefix of a list fails on a stream wherever it fails on a
buffer with the same bytes. This is the half that tracking leaves open: a refusal of a length
that is not there is excused by the coupling, and only that the stream accepts no other bytes
shows that it comes to fail as well. The prefix of a list is read without its content, and may be
accepted. -/
theorem failsWith_run (settings : DecoderSettings) {operation : Operation}
    (other : operation ≠ .listHeader) : FailsWith Coupling.bufferStream.facing
      (operation.run settings) (operation.run settings) := by
  have same := facing_of_bufferStream
  cases operation with
  | hasRemaining =>
    intro source target _ error after failed
    cases failed
  | peekCode => exact (failsWith_peekCode same).showing _
  | value =>
    exact (failsWith_of_parses (parsesFrom_decodeValue settings) (parsesFrom_decodeValue settings)
      same).showing _
  | typed type =>
    exact (failsWith_of_parses (parsesFrom_decodeAs settings type)
      (parsesFrom_decodeAs settings type) same).showing _
  | skip =>
    exact (failsWith_of_parses (parsesFrom_skipValue settings) (parsesFrom_skipValue settings)
      same).showing _
  | listHeader => exact absurd rfl other
  | described =>
    exact (failsWith_of_parses (parsesFrom_decodeDescribed settings)
      (parsesFrom_decodeDescribed settings) same).showing _
  | all => exact (failsWith_decodeAll settings).showing _

/-- Sessions from a buffer and a stream with the same bytes agree. The induction is on the
operations, and its invariant is that buffer and stream face the same bytes. It ends at the first
failure on the buffer, behind which the two may stand apart. -/
theorem agree_session (settings : DecoderSettings) (operations : List Operation)
    {source : Buffer} {target : Stream} (related : Coupling.bufferStream.facing source target) :
    Agree (session settings operations source).1 (session settings operations target).1 := by
  have aligned := Coupling.aligned_bufferStream
  induction operations generalizing source target with
  | nil => trivial
  | cons operation later inductionHypothesis =>
    have follows := tracks_run aligned (.refl _ settings) operation source target related
    cases ran : operation.run settings source with
    | ok answer after =>
      rw [ran] at follows
      obtain ⟨behind, same, related⟩ := follows
      rw [session, session, perform_of_ok ran, perform_of_ok same, aligned.position_eq related]
      exact ⟨rfl, inductionHypothesis related⟩
    | error error after =>
      rw [ran] at follows
      rcases follows with ⟨declared, remaining, rfl⟩ | ⟨behind, same, _⟩
      · rw [session, session, perform_of_error ran]
        by_cases prefixed : operation = .listHeader
        · exact .inl prefixed
        · obtain ⟨error', behind, failed⟩ :=
            failsWith_run settings prefixed source target related _ after ran
          rw [perform_of_error failed]
          exact .inr ⟨error', rfl⟩
      · rw [session, session, perform_of_error ran, perform_of_error same]
        cases error <;> first | rfl | exact .inr ⟨_, rfl⟩

/-- So many bytes are taken of some bytes, and the others are to come. -/
def Consistent (bytes rest : Bytes) (taken : Nat) : Prop :=
  taken ≤ bytes.length ∧ bytes.drop taken = rest

/-- Taking bytes is consistent. -/
theorem kept_consistent (bytes : Bytes) : Coupling.Kept (Consistent bytes) := by
  rintro front rest taken ⟨within, split⟩
  have total := congrArg List.length split
  rw [List.length_drop, List.length_append] at total
  refine ⟨by omega, ?_⟩
  rw [← List.drop_drop, split, List.drop_left]

section Alike

open Coupling (Alike Kept twins aligned_twins)

variable {σ : Type} [Source σ] [Lawful σ] {holds : Bytes → Nat → Prop}

/-- What two sources come to that are alike. -/
def AlikeResults {α : Type} (holds : Bytes → Nat → Prop) :
    EStateM.Result Error σ α → EStateM.Result Error σ α → Prop
  | .ok result after, other => ∃ behind, other = .ok result behind ∧ Alike holds after behind
  | .error error after, other =>
    ∃ behind, other = .error error behind ∧ Alike holds after behind

/-- An operation gives the same on sources with the same bytes to come, of which something holds
that all later ones keep. This is the coupling of a source with a second one of its kind, which
excuses no failure. -/
theorem alikeResults_of_held (kept : Kept holds) (settings : DecoderSettings)
    (operation : Operation) {source target : σ} {rest : Bytes} {taken : Nat}
    (held : holds rest taken) (faces : Facing source rest taken)
    (faces' : Facing target rest taken) :
    AlikeResults holds (operation.run settings source) (operation.run settings target) := by
  have follows := tracks_run (aligned_twins (σ := σ) kept) (.refl _ settings) operation source
    target ⟨rest, taken, held, faces, faces'⟩
  cases ran : operation.run settings source with
  | ok answer after =>
    rw [ran] at follows
    obtain ⟨behind, same, rest, taken, held, faces, faces'⟩ := follows
    exact ⟨behind, same, rest, taken, .inr held, faces, faces'⟩
  | error error after =>
    rw [ran] at follows
    obtain excuse | ⟨behind, same, alike⟩ := follows
    · exact excuse.elim
    · exact ⟨behind, same, alike⟩

/-- Sources with nothing to come are alike whatever else would have to hold. -/
theorem AlikeResults.of_dry {α : Type} {result other : EStateM.Result Error σ α}
    (alike : AlikeResults (fun rest _ => rest = []) result other) :
    AlikeResults holds result other := by
  have weaken {after behind : σ} :
      Alike (fun rest _ => rest = []) after behind → Alike holds after behind := by
    rintro ⟨rest, taken, empty, faces, faces'⟩
    exact ⟨rest, taken, .inl (empty.elim id id), faces, faces'⟩
  cases result <;> exact alike.imp fun _ ⟨same, alike⟩ => ⟨same, weaken alike⟩

/-- An operation gives the same on sources that are alike, and leaves them alike. -/
theorem alike_run (kept : Kept holds) (settings : DecoderSettings) (operation : Operation)
    {source target : σ} (alike : Alike holds source target) :
    AlikeResults holds (operation.run settings source) (operation.run settings target) := by
  obtain ⟨rest, taken, state, faces, faces'⟩ := alike
  rcases state with empty | held
  · have dry : Kept fun rest _ => rest = [] :=
      fun _ _ _ empty => (List.append_eq_nil_iff.mp empty).2
    exact .of_dry (alikeResults_of_held dry settings operation empty faces faces')
  · exact alikeResults_of_held kept settings operation held faces faces'

/-- An operation is recorded the same on sources that are alike, and leaves them alike, also
behind a failure. The entry has nothing in it but the outcome and the position, and the position
is that of the bytes to come. -/
theorem alike_perform (kept : Kept holds) (settings : DecoderSettings) (operation : Operation)
    {source target : σ} (alike : Alike holds source target) :
    (perform settings operation source).1 = (perform settings operation target).1 ∧
      Alike holds (perform settings operation source).2
        (perform settings operation target).2 := by
  have position {source target : σ} (alike : Alike holds source target) :
      Source.position source = Source.position target := by
    obtain ⟨rest, taken, _, faces, faces'⟩ := alike
    rw [Lawful.position_eq faces, Lawful.position_eq faces']
  have results := alike_run kept settings operation alike
  cases ran : operation.run settings source with
  | ok answer after =>
    rw [ran] at results
    obtain ⟨behind, same, alike⟩ := results
    rw [perform_of_ok ran, perform_of_ok same, position alike]
    exact ⟨rfl, alike⟩
  | error error after =>
    rw [ran] at results
    obtain ⟨behind, same, alike⟩ := results
    rw [perform_of_error ran, perform_of_error same, position alike]
    exact ⟨rfl, alike⟩

/-- A session leaves a source alike to itself. -/
theorem alike_session (kept : Kept holds) (settings : DecoderSettings)
    (operations : List Operation) {source : σ} (alike : Alike holds source source) :
    Alike holds (session settings operations source).2 (session settings operations source).2 := by
  induction operations generalizing source with
  | nil => exact alike
  | cons operation later inductionHypothesis =>
    exact inductionHypothesis (alike_perform kept settings operation alike).2

/-- An operation that only looks leaves a source alike to what it was alike to before. It may
come to hold a byte, or fail because the byte is no constructor, but it faces the same bytes at
the same position, and more than that no later operation can tell. -/
theorem alike_of_looks (settings : DecoderSettings) {operation : Operation}
    (looks : operation.looks = true) {source target : σ} (alike : Alike holds source target) :
    Alike holds (perform settings operation source).2 target := by
  obtain ⟨rest, taken, state, faces, faces'⟩ := alike
  refine ⟨rest, taken, state, ?_, faces'⟩
  cases operation with
  | hasRemaining =>
    obtain ⟨after, shown, faces⟩ := Lawful.peek_facing faces
    have ran : Operation.hasRemaining.run settings source =
        .ok (.present rest.head?.isSome) after :=
      bind_of_ok (bind_of_ok shown)
    rwa [perform_of_ok ran]
  | peekCode =>
    obtain ⟨after, faces, shown⟩ := peekCode_of_facing faces
    cases ran : (peekCode : Fetch σ Code) source with
    | ok code middle =>
      have ran' : Operation.peekCode.run settings source = .ok (.code code) middle := bind_of_ok ran
      rw [perform_of_ok ran']
      rw [ran] at shown
      split at shown
      · cases shown
      · cases shown
      · cases shown
        exact faces
    | error error middle =>
      have ran' : Operation.peekCode.run settings source = .error error middle := bind_of_error ran
      rw [perform_of_error ran']
      rw [ran] at shown
      split at shown
      · cases shown
        exact faces
      · cases shown
        exact faces
      · cases shown
  | _ => cases looks

/-- Leaving out the operations that only look leaves out their entries and nothing else. The two
sessions go on from sources that are alike and not the same: the one that has looked may hold a
byte. Both go on behind failures, which is why the invariant must survive them. -/
theorem filter_session (kept : Kept holds) (settings : DecoderSettings)
    (operations : List Operation) {source target : σ} (alike : Alike holds source target) :
    (session settings operations source).1.filter (fun entry => !entry.operation.looks) =
      (session settings (operations.filter fun operation => !operation.looks) target).1 := by
  induction operations generalizing source target with
  | nil => rfl
  | cons operation later inductionHypothesis =>
    have named (source : σ) : (perform settings operation source).1.operation = operation := by
      unfold perform
      split <;> rfl
    rw [session, List.filter_cons, List.filter_cons, named]
    cases looks : operation.looks with
    | true => exact inductionHypothesis (alike_of_looks settings looks alike)
    | false =>
      obtain ⟨same, alike⟩ := alike_perform kept settings operation alike
      simp only [Bool.not_false, if_true]
      rw [session, same, inductionHypothesis alike]

/-- An operation that takes a value takes its first byte, so where none is left it comes to
the end of the input. -/
theorem run_of_dry (settings : DecoderSettings) {operation : Operation}
    (takes : operation.takes = true) {source : σ} {taken : Nat} (faces : Facing source [] taken) :
    ∃ middle, operation.run settings source = .error .unexpectedEof middle := by
  obtain ⟨middle, _, failed⟩ := peekCode_of_facing faces
  have taking : (readCode : Fetch σ Code) source = .error .unexpectedEof middle :=
    bind_of_error failed
  refine ⟨middle, ?_⟩
  cases operation with
  | value | skip => exact bind_of_error (bind_of_error taking)
  | typed type => exact bind_of_error (bind_of_error (bind_of_error taking))
  | listHeader | described => exact bind_of_error (bind_of_error failed)
  | hasRemaining | peekCode | all => cases takes

/-- An operation that takes a value settles a source where its position says. Behind failures
there may be nothing to come, whatever the position is, but then the operation could not have
succeeded; otherwise the bytes to come are those behind the position, and the operation keeps
that. -/
theorem settled_of_takes (settings : DecoderSettings) {operation : Operation}
    (takes : operation.takes = true) {bytes : Bytes} {source after : σ} {answer : Answer}
    (alike : Alike (Consistent bytes) source source)
    (ran : operation.run settings source = .ok answer after) :
    ∃ taken, taken ≤ bytes.length ∧ Settled after (bytes.drop taken) taken := by
  obtain ⟨rest, taken, rfl | held, faces, _⟩ := alike
  · obtain ⟨middle, failed⟩ := run_of_dry settings takes faces
    rw [failed] at ran
    cases ran
  · have follows := tracks_run_of_takes (aligned_twins (σ := σ) (kept_consistent bytes)).toSound
      (.refl _ settings) takes source source ⟨rest, taken, held, faces, faces⟩
    rw [ran] at follows
    obtain ⟨_, _, rest, taken, ⟨within, rfl⟩, settled, _⟩ := follows
    exact ⟨taken, within, settled⟩

end Alike

/-- Buffer and stream sessions over the same bytes, in any pieces and interrupted at will. Their
records agree up to the first failure on the buffer. Whatever has happened before, failures
included, an operation that takes a value from the stream leaves its reader advanced by exactly
the position, with no byte held back. And operations that only look change no other entry, on
either source.

Proof: The first part is the coupling of a buffer with a stream, followed through the operations
up to a failure. The other parts must hold behind failures as well, so there a source is coupled
with one of its own kind that faces the same bytes: an invariant that a failure keeps unless it
loses all bytes, and that a look at the next byte cannot break. -/
theorem sessions_agree (settings : DecoderSettings) {reader : Reader} {bytes : Bytes}
    (delivers : reader.Delivers bytes) (operations : List Operation) :
    Agree (session settings operations (Buffer.ofBytes bytes)).1
        (session settings operations (Stream.ofReader reader)).1 ∧
      (∀ (operation : Operation) (answer : Answer) (after : Stream), operation.takes = true →
        operation.run settings (session settings operations (Stream.ofReader reader)).2 =
          .ok answer after →
        after.peeked = none ∧ after.position ≤ bytes.length ∧
          after.reader.undelivered = bytes.drop after.position) ∧
      (session settings operations (Buffer.ofBytes bytes)).1.filter
          (fun entry => !entry.operation.looks) =
        (session settings (operations.filter fun operation => !operation.looks)
          (Buffer.ofBytes bytes)).1 ∧
      (session settings operations (Stream.ofReader reader)).1.filter
          (fun entry => !entry.operation.looks) =
        (session settings (operations.filter fun operation => !operation.looks)
          (Stream.ofReader reader)).1 := by
  have onBuffer : Facing (Buffer.ofBytes bytes) bytes 0 := Buffer.holds_ofBytes bytes
  have onStream : Facing (Stream.ofReader reader) bytes 0 :=
    Stream.faces_of_holds (Stream.holds_ofReader delivers)
  have start : Consistent bytes bytes 0 := ⟨Nat.zero_le _, rfl⟩
  have kept := kept_consistent bytes
  refine ⟨agree_session settings operations ⟨bytes, 0, trivial, onBuffer, onStream⟩, ?_,
    filter_session kept settings operations ⟨bytes, 0, .inr start, onBuffer, onBuffer⟩,
    filter_session kept settings operations ⟨bytes, 0, .inr start, onStream, onStream⟩⟩
  intro operation answer after takes ran
  have alike := alike_session kept settings operations ⟨bytes, 0, .inr start, onStream, onStream⟩
  obtain ⟨taken, within, nothing, delivers, rfl⟩ := settled_of_takes settings takes alike ran
  exact ⟨nothing, within, delivers.2⟩

/-- A number whose bytes arrive one by one is read behind a look at its constructor, and the byte
behind it stays with the reader. The premise on the reader is met by a script with interruptions.
-/
theorem sessions_agree_piecewise :
    Reader.Delivers [.interrupted, .piece [0x53], .interrupted, .piece [0x07], .piece [0x40]]
        [0x53, 0x07, 0x40] ∧
      Agree (session .standard [.peekCode, .value] (Buffer.ofBytes [0x53, 0x07, 0x40])).1
        (session .standard [.peekCode, .value] (Stream.ofReader [.interrupted, .piece [0x53],
          .interrupted, .piece [0x07], .piece [0x40]])).1 := by
  have delivers : Reader.Delivers [.interrupted, .piece [0x53], .interrupted, .piece [0x07],
      .piece [0x40]] [0x53, 0x07, 0x40] := ⟨by simp [Reader.Plain], rfl⟩
  exact ⟨delivers, (sessions_agree .standard delivers [.peekCode, .value]).1⟩

end Agreement

end Amqp
