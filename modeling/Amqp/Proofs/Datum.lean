import Amqp.Proofs.Datum.Writing

/-!
# The three conversions of a datum agree

A datum becomes a value, is found in a value, and is written without becoming one. It is found
again in the value that it becomes. It is written as that value is, with the same bytes or the
same refusal, and what was written is read back as the datum, whatever bytes come behind it.

Lists without symbols are the exception of the second law. They name the constructor of symbols,
and the empty arrays that they become name that of null. They are read back all the same.

A type of optional data is left out, because a missing datum has no value of its own.
-/

namespace Amqp

open Canonical (nesting)
open Decoder (decodeDatum decodeValue)
open Encoder (State encodeAs encodeDatum encodeValue)

/-- A datum is read from the front of some bytes, on a buffer over them and on a stream over
every reader that delivers them, and what is behind is left. -/
structure DatumReadsBack (settings : DecoderSettings) (type : Ty) (bytes suffix : Bytes)
    (datum : type.Datum) : Prop where
  fromBuffer : ∃ after : Buffer,
    decodeDatum settings type (Buffer.ofBytes (bytes ++ suffix)) = .ok datum after ∧
      after.rest = suffix ∧ after.position = bytes.length
  fromStream {reader : Reader} : reader.Delivers (bytes ++ suffix) → ∃ after : Stream,
    decodeDatum settings type (Stream.ofReader reader) = .ok datum after ∧
      after.peeked = none ∧ after.reader.Delivers suffix ∧ after.position = bytes.length

/-- What the conversions of a datum owe each other. -/
structure Ty.Agrees (type : Ty) (datum : type.Datum) : Prop where
  found : type.ofValue (type.toValue datum) = .ok datum
  shown (hook : TextEncoder) :
    encodeDatum hook type datum = encodeAs hook type (type.toValue datum)
  written (hook : TextEncoder) : type.hasEmptySymbols datum = false →
    encodeDatum hook type datum = encodeValue hook (type.toValue datum)
  readBack {settings : DecoderSettings} {state after : State} : settings.text = .strict →
    nesting (type.toValue datum) ≤ settings.maxDepth →
      encodeDatum .strict type datum state = .ok () after →
        ∃ bytes, after.sink.toBytes = state.sink.toBytes ++ bytes ∧
          ∀ suffix, DatumReadsBack settings type bytes suffix datum

/-- Where a value is read back, a datum that is found in it is. Reading as a type is reading a
value and then finding the datum, which takes no bytes. -/
theorem ReadsBack.datum {settings : DecoderSettings} {type : Ty} {bytes suffix : Bytes}
    {value : Value} {datum : type.Datum} (reads : ReadsBack settings bytes suffix value)
    (found : type.ofValue value = .ok datum) :
    DatumReadsBack settings type bytes suffix datum := by
  have finish {σ : Type} [Source σ] {source after : σ}
      (ran : decodeValue settings source = .ok value after) :
      decodeDatum settings type source = .ok datum after := by
    rw [decodeDatum, bind_of_ok ran, found]
    rfl
  constructor
  · obtain ⟨after, ran, left⟩ := reads.fromBuffer
    exact ⟨after, finish ran, left⟩
  · intro reader delivers
    obtain ⟨after, ran, left⟩ := reads.fromStream delivers
    exact ⟨after, finish ran, left⟩

/-- The conversions of every datum that is never missing agree. Reading back is not derived from
the value that was written, since a list without symbols is written otherwise: it is shown that
its bytes are an encoding of that value all the same. -/
theorem Ty.agrees {type : Ty} (definite : type.isDefinite = true) (datum : type.Datum)
    (plain : (type.toValue datum).Everywhere Value.Plain) : type.Agrees datum where
  found := ofValue_toValue definite datum
  shown _ := Encoder.coincide_writeDatum definite datum plain
  written _ some := Encoder.encodeDatum_eq_encodeValue definite datum plain some
  readBack := by
    intro settings state after strict within ran
    rw [encodeDatum, Encoder.coincide_writeDatum definite datum plain] at ran
    obtain ⟨bytes, appended, encoding⟩ :=
      (Encoder.yields_writeAs definite datum plain within).atomic ran
    refine ⟨bytes, by rw [appended, Sink.toBytes_put], fun suffix => ?_⟩
    rw [← strict] at encoding
    exact (readsBack_iff_encoding.mpr encoding).datum (ofValue_toValue definite datum)

/-- A list without symbols names the constructor of symbols, and the array without elements that
it becomes names that of null. -/
theorem Encoder.writes_noSymbols (hook : TextEncoder) :
    Writes (encodeDatum hook .symbols []) True True () [0xe0, 2, 0, 0xa3] ∧
      Writes (encodeValue hook (.array [])) True True () [0xe0, 2, 0, 0x40] := by
  have empty (shared : Code) : Writes (atomic do
      let mark ← openContainer .array8
      putCode shared
      closeContainer mark 0 false) True True ()
        (Canonical.container .array8 false 0 [shared.toByte]) :=
    (writes_container .array8 false (writes_putCode shared) (Nat.zero_le _)).atomic.imp
      (fun _ => ⟨trivial, show 4 + 1 < 256 ^ 4 by decide⟩) fun _ => trivial
  exact ⟨(empty .symbol8).of_eq (by decide), (empty .null).of_eq (by decide)⟩

/-- The three conversions of a datum agree. Every datum of a type that has no missing data is
found in the value it becomes, is written as that value unless it is a list without symbols or
holds one, and is read back from what was written. A list without symbols keeps the constructor
of symbols. A final state of a delivery that is found in a value is a state of a delivery that is
found in it.

Proof: Each law is shown by induction on the type, so that a new type costs one case in each. For
writing, the loops of the types are compared with those of values as computations, up to the
state behind a refusal; for reading, the bytes are one of the encodings of the value. -/
theorem conversions_agree :
    (∀ (type : Ty) (datum : type.Datum), type.isDefinite = true →
      (type.toValue datum).Everywhere Value.Plain → type.Agrees datum) ∧
    (∀ hook, Encoder.Writes (encodeDatum hook .symbols []) True True () [0xe0, 2, 0, 0xa3] ∧
      Encoder.Writes (encodeValue hook (.array [])) True True () [0xe0, 2, 0, 0x40]) ∧
    ∀ value final, Ty.outcome.ofValue value = .ok final →
      Ty.deliveryState.ofValue value = .ok (Ty.deliveryStateOfOutcome final) :=
  ⟨fun _ datum definite plain => Ty.agrees definite datum plain, Encoder.writes_noSymbols,
    fun _ _ found => OfForms.ofValue_widen _ found _⟩

/-- Symbols by number are read back from what is written of them, and an accepted delivery is in
a state. The typed map holds a list of symbols that is not empty, as the second law demands. -/
theorem conversions_agree_symbolsByNumber :
    let type : Ty := .typedMap .ulong .symbols
    let datum : type.Datum := ⟨[(⟨.ulong 7, by decide⟩, ["a"])], by decide⟩
    let accepted : Value := .described (.composite .accepted [])
    encodeDatum .strict type datum = encodeValue .strict (type.toValue datum) ∧
      (∃ after : State, encodeDatum .strict type datum (.fresh .shift) = .ok () after ∧
        DatumReadsBack .standard type after.sink.toBytes [0x40] datum) ∧
      Ty.deliveryState.ofValue accepted = .ok ⟨.composite .accepted, by decide, []⟩ := by
  intro type datum accepted
  obtain ⟨agree, -, widens⟩ := conversions_agree
  have plain : (type.toValue datum).Everywhere Value.Plain := by
    refine .of_map ⟨trivial, trivial⟩ (List.forall_mem_singleton.mpr ⟨?_, ?_⟩)
    · exact Value.plain_of_isSimple rfl
    · exact .of_array ⟨trivial, trivial⟩
        (List.forall_mem_singleton.mpr (Value.plain_of_isSimple rfl))
  have agrees := agree type datum rfl plain
  refine ⟨agrees.written .strict rfl, ⟨_, rfl, ?_⟩, ?_⟩
  · obtain ⟨bytes, appended, reads⟩ :=
      @Ty.Agrees.readBack type datum agrees .standard (.fresh .shift) _ rfl (by decide) rfl
    rw [appended]
    exact reads [0x40]
  · exact widens accepted ⟨.composite .accepted, by decide, []⟩ rfl

end Amqp
