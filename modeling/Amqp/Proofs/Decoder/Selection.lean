import Amqp.Proofs.Decoder.Skipping
import Amqp.Proofs.Session

/-!
# Reading some elements of a list

Behind the prefix of a list its elements come one after the other, and each of them can be
read or passed over. Whatever is chosen for each, the elements that are read are those of the
list that is read as a whole, and the source is left where that leaves it. An element that is
read by itself has all the levels of nesting again, one more than inside of the list, so it is
never refused where the list was not.
-/

namespace Amqp

open Decoder
open Source (Lawful Steady)
open Source.Lawful (Settled Facing)

/-- The operation for an element of a list: an element that is wanted is read, and any other
is passed over. -/
def Operation.select (wanted : Bool) : Operation := if wanted then .value else .skip

/-- The answer for an element of a list: an element that is wanted, and of any other that it
was passed. -/
def Answer.select (wanted : Bool) (element : Value) : Answer :=
  if wanted then .value element else .passed

namespace Grammar

/-- A list is encoded by its constructor alone if it is empty, or by a frame around encodings of
its elements one level further down. The elements are given with all the levels of the list,
since that is what an element that is read by itself has. -/
theorem payload_list_cases {text : TextDecoder} {levels : Nat} {code : Code} {content : Bytes}
    {items : List Value} (within : payload text levels code content (.list items)) :
    (code = .list0 ∧ content = [] ∧ items = []) ∨
      ∃ width elements, (code = .list8 ∧ width = 1 ∨ code = .list32 ∧ width = 4) ∧
        content = frame width items.length elements ∧ width + elements.length < 256 ^ width ∧
        Sequence (Encoding text levels) elements items := by
  rw [payload_eq] at within
  cases within with
  | scalar scalar =>
    cases scalar
    exact .inl ⟨rfl, rfl, rfl⟩
  | list category kind level sequence fits =>
    obtain ⟨further, rfl, rfl⟩ := payloadBelow_eq_some.mp level
    refine .inr ⟨_, _, ?_, rfl, fits, sequence.imp fun _ _ encoding =>
      Encoding.mono (Nat.le_succ further) encoding⟩
    cases code with
    | list8 => exact .inl ⟨rfl, (Category.compound.inj category).symm⟩
    | list32 => exact .inr ⟨rfl, (Category.compound.inj category).symm⟩
    | list0 => cases category
    | _ => cases kind

end Grammar

namespace Decoder

open Grammar (Sequence Encoding frame)

section Header

variable {σ : Type} [Source σ] [Lawful σ]

/-- The prefix of a frame is read where its content follows, and the content is left. Something
may follow the content, so the check of the size holds on a source that knows its end. -/
theorem readHeader_of_frame {source : σ} {width count taken : Nat} {content back : Bytes}
    (settled : Settled source (frame width count content ++ back) taken)
    (fits : width + content.length < 256 ^ width) (paid : count ≤ content.length) :
    ∃ after, readHeader width source = .ok ⟨content.length, count⟩ after ∧
      Settled after (content ++ back) (taken + width + width) := by
  simp only [frame, List.append_assoc] at settled
  obtain ⟨middle, declared, settled⟩ := (parses_readNat width).complete settled ⟨fits, rfl⟩
  have covered : width + content.length ≤ (Bytes.be width count ++ (content ++ back)).length := by
    simp only [List.length_append, Bytes.length_be]
    omega
  have available := ensureAvailable_of_le settled covered
  obtain ⟨after, counted, settled⟩ :=
    (parses_readNat width).complete settled ⟨(by omega : count < 256 ^ width), rfl⟩
  simp only [Bytes.length_be] at settled
  refine ⟨after, ?_, settled⟩
  have size : width + content.length - width = content.length := Nat.add_sub_cancel_left ..
  rw [readHeader_eq, bind_of_ok declared, if_neg (by omega), pure_bind, bind_of_ok available,
    bind_of_ok counted, size, if_neg (by omega), pure_bind]
  rfl

/-- The prefix of a list behind a constructor with a size is read where its elements follow. The
constructor may be held by the source when the reading begins; behind it the source is settled.
-/
theorem decodeListHeader_of_frame {source : σ} {code : Code} {width count taken : Nat}
    {elements : Bytes} (sized : code = .list8 ∧ width = 1 ∨ code = .list32 ∧ width = 4)
    (faces : Facing source (code.toByte :: frame width count elements) taken)
    (fits : width + elements.length < 256 ^ width) (paid : count ≤ elements.length) :
    ∃ after, decodeListHeader source = .ok ⟨elements.length, count⟩ after ∧
      Settled after elements (taken + 1 + width + width) := by
  obtain ⟨shown, seen, faces⟩ := peekCode_of_head faces
  obtain ⟨behind, skipped, settled⟩ := Lawful.skip_facing faces
  rw [← List.append_nil (frame ..)] at settled
  obtain ⟨after, read, settled⟩ := readHeader_of_frame settled fits paid
  rw [List.append_nil] at settled
  refine ⟨after, ?_, settled⟩
  unfold decodeListHeader
  rw [bind_of_ok seen]
  rcases sized with ⟨rfl, rfl⟩ | ⟨rfl, rfl⟩
  · exact (bind_of_ok skipped).trans read
  · exact (bind_of_ok skipped).trans read

/-- The prefix of a list without a size says that there is nothing. -/
theorem decodeListHeader_of_list0 {source : σ} {rest : Bytes} {taken : Nat}
    (faces : Facing source (Code.list0.toByte :: rest) taken) :
    ∃ after, decodeListHeader source = .ok ⟨0, 0⟩ after ∧ Settled after rest (taken + 1) := by
  obtain ⟨shown, seen, faces⟩ := peekCode_of_head faces
  obtain ⟨behind, skipped, settled⟩ := Lawful.skip_facing faces
  refine ⟨behind, ?_, settled⟩
  unfold decodeListHeader
  rw [bind_of_ok seen]
  exact bind_of_ok skipped

end Header

variable {settings : DecoderSettings}

/-- The prefix of a list is read from a buffer of an encoding of it, and the encodings of the
elements follow. This is shown for a buffer of these bytes alone, and is taken from there to any
source that they lead on. -/
theorem decodeListHeader_of_encoding {buffer : Buffer} {bytes : Bytes} {taken : Nat}
    {items : List Value} (holds : buffer.Holds bytes taken)
    (encoding : Encoding settings.text settings.maxDepth bytes (.list items)) :
    ∃ elements after, decodeListHeader buffer = .ok ⟨elements.length, items.length⟩ after ∧
      after.rest = elements ∧
      Sequence (Encoding settings.text settings.maxDepth) elements items := by
  obtain ⟨code, content, rfl, within⟩ := encoding
  rcases Grammar.payload_list_cases within with ⟨rfl, rfl, rfl⟩ |
    ⟨width, elements, sized, rfl, fits, sequence⟩
  · obtain ⟨after, read, settled⟩ := decodeListHeader_of_list0 (σ := Buffer) holds
    exact ⟨[], after, read, settled.1, .nil⟩
  · have paid := sequence.length_le fun _ _ coded => coded.ne_nil
    obtain ⟨after, read, settled⟩ := decodeListHeader_of_frame (σ := Buffer) sized holds fits paid
    exact ⟨elements, after, read, settled.1, sequence⟩

section Elements

variable {σ : Type} [Source σ] [Steady σ]

/-- Where encodings of some items lead a source on, the items can be read or passed over one
after the other, in any way. The induction is on the encodings: the source stands behind the
first one in either case, because it can be passed over as well as read, and both take exactly
its bytes. -/
theorem session_of_sequence
    (reads : Reads (decodeValue settings : Fetch σ _) (Encoding settings.text settings.maxDepth))
    (passes : Reads (skipValue settings : Fetch σ _) (Grammar.Passable settings.maxDepth))
    {elements : Bytes} {items : List Value}
    (sequence : Sequence (Encoding settings.text settings.maxDepth) elements items)
    {source after : σ} (bare : Steady.Bare source) (leads : Steady.Leads source elements after)
    {wanted : List Bool} (each : wanted.length = items.length) :
    (session settings (wanted.map .select) source).1.map Entry.outcome =
        List.zipWith (fun wanted item => .ok (.select wanted item)) wanted items ∧
      (session settings (wanted.map .select) source).2 = after := by
  induction sequence generalizing source wanted with
  | nil =>
    obtain rfl := List.eq_nil_of_length_eq_zero each
    exact ⟨rfl, (Steady.nothing bare leads).symm⟩
  | @cons _ _ item _ first later inductionHypothesis =>
    obtain ⟨chosen, wanted, rfl⟩ := List.exists_cons_of_length_eq_add_one each
    obtain ⟨middle, here, there⟩ := Steady.split leads (.inl bare)
    have ran : (Operation.select chosen).run settings source =
        .ok (.select chosen item) middle := by
      cases chosen with
      | true => exact bind_of_ok (reads.mpr ⟨_, first, here⟩)
      | false => exact bind_of_ok (passes.mpr ⟨_, first.passable, here⟩)
    obtain ⟨outcomes, final⟩ := inductionHypothesis (Steady.bare here) there (Nat.succ.inj each)
    simp only [List.map_cons, session, perform_of_ok ran, List.zipWith_cons_cons]
    exact ⟨congrArg _ outcomes, final⟩

/-- A list that is read as a whole, from a source in one state to another, can be read in parts.
Its prefix tells the number of its elements and of their bytes. Behind the prefix, whichever
elements are wanted, those are read and the others are passed over, in their order and without
a failure, and the source is left in the same state. -/
def Selectable (settings : DecoderSettings) (source after : σ) (items : List Value) : Prop :=
  ∃ header behind, decodeListHeader source = .ok header behind ∧ header.count = items.length ∧
    Source.position behind + header.size = Source.position after ∧
    ∀ wanted : List Bool, wanted.length = items.length →
      (session settings (wanted.map .select) behind).1.map Entry.outcome =
          List.zipWith (fun wanted item => .ok (.select wanted item)) wanted items ∧
        (session settings (wanted.map .select) behind).2 = after

/-- What is read as a list can be read in parts, where the words that are read lead the source
on. A buffer of the bytes that the list took, put beside the source, shows what the prefix says
and where the elements begin. -/
theorem selectable_of_reads
    (reads : Reads (decodeValue settings : Fetch σ _) (Encoding settings.text settings.maxDepth))
    (passes : Reads (skipValue settings : Fetch σ _) (Grammar.Passable settings.maxDepth))
    {source after : σ} {items : List Value}
    (ran : decodeValue settings source = .ok (.list items) after) :
    Selectable settings source after items := by
  obtain ⟨word, encoding, leads⟩ := reads.mp ran
  let buffer : Buffer := ⟨word, Source.position source, word.length, rfl⟩
  obtain ⟨elements, rest, read, rfl, sequence⟩ :=
    decodeListHeader_of_encoding buffer.holds_self encoding
  obtain ⟨behind, same, bare, onward, -⟩ := exists_of_ahead
    (tracks_decodeListHeader (Coupling.sound_ahead after)) leads rfl read
  exact ⟨_, behind, same, rfl, (Steady.position_eq onward).symm, fun wanted each =>
    session_of_sequence reads passes sequence bare onward each⟩

end Elements

/-- Whatever is read as a list, from a buffer or from a stream over any reader and in any state,
can be read in parts: its prefix tells the number of its elements and their bytes, and each
element can be read or passed over, whichever are wanted, without a failure and up to the same
state.

Proof: A reading in any state is a word that leads the source from that state to another. The
word of a list is a prefix and the encodings of its elements, and a way along several words is
one along each of them in turn. Each element is passable since it is an encoding, and within the
limit since the list was. -/
theorem selectable_of_decodeValue (settings : DecoderSettings) :
    (∀ {source after : Buffer} {items : List Value},
      decodeValue settings source = .ok (.list items) after →
        Selectable settings source after items) ∧
    (∀ {source after : Stream} {items : List Value},
      decodeValue settings source = .ok (.list items) after →
        Selectable settings source after items) :=
  ⟨selectable_of_reads (reads_decodeValue_buffer settings) (reads_skipValue_buffer settings),
    selectable_of_reads (reads_decodeValue_stream settings) (reads_skipValue_stream settings)⟩

/-- A list within a limit of one level, of a boolean and an empty list, can be read in parts from
a stream that delivers it in two pieces, cut behind the prefix. The one level is used up by the
list itself, and its elements have it again. -/
theorem selectable_of_decodeValue_pieces :
    let settings : DecoderSettings := ⟨.strict, 1⟩
    let source : Stream := .ofReader [.piece [0xc0, 0x03, 0x02], .piece [0x41, 0x45]]
    let after : Stream := ⟨[.piece []], none, 5⟩
    decodeValue settings source = .ok (.list [.boolean true, .list []]) after ∧
      Selectable settings source after [.boolean true, .list []] := by
  intro settings source after
  have read : decodeValue settings source = .ok (.list [.boolean true, .list []]) after := rfl
  exact ⟨read, (selectable_of_decodeValue settings).2 read⟩

end Decoder

end Amqp
