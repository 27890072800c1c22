import Amqp.Proofs.Canonical.Shortest
import Amqp.Proofs.Decoder.Offset
import Amqp.Proofs.Encoder.Atomicity

/-!
# The form of a descriptor does not matter

A known form has two descriptors, and each of them has two encodings that a peer may choose. All
four find the same form, so a body behind one of them is read, or refused, as behind any other.
Behind the descriptor the reader has forgotten which one it was, apart from the number of bytes
that it took, and from there on two readers stay side by side.

A descriptor of no known form is kept together with its body. Writing both again chooses the
shortest encoding of the descriptor, which need not be the one that was read.

The bytes to come must be the same behind the descriptors, in whatever pieces they come. Where the
two readers stand behind an error is not compared.
-/

namespace Amqp

open Source (Lawful)
open Source.Lawful (Facing Settled)
open Coupling (sound_level)
open Decoder
open Canonical (nesting)
open Encoder (State encodeValue)
open Grammar (Coded Encoding Label counted)

namespace Decoder

variable {σ : Type} [Source σ] {settings : DecoderSettings}

/-- Read the body of a described value behind its descriptor, one level further down. -/
def behindLabel (settings : DecoderSettings) (resolve : Value → Except Error Described) :
    Fetch σ Value :=
  within settings (inner settings settings.maxDepth) fun decode => do
    let body ← readCode >>= decode
    return .described (← lift (resolve body))

variable [Lawful σ] {front rest : Bytes} {descriptor : Descriptor} {source : σ} {taken : Nat}

/-- A described value is read behind its descriptor as the descriptor resolves its body. What the
label was is only seen in the number of bytes taken, which the second half of the statement
leaves out of account. -/
theorem exists_behindLabel (label : Coded (Label settings.text) front descriptor)
    (faces : Facing source (Code.described.toByte :: (front ++ rest)) taken) (start : Nat) :
    ∃ middle : σ, Settled middle rest (taken + 1 + front.length) ∧
      Concur start start (decodeValue settings source)
        (behindLabel settings (Registry.standard.resolve descriptor) middle) := by
  have begun : Facing source ([Code.described.toByte] ++ (front ++ rest)) taken := faces
  obtain ⟨next, code, settled⟩ := parsesFrom_readCode.complete begun rfl
  obtain ⟨middle, labelled, settled⟩ := (parses_readDescriptor settings).complete settled label
  refine ⟨middle, settled, ?_⟩
  rw [decodeValue, bind_of_ok code]
  unfold readWith readDescribed readDescribedParts behindLabel within
  cases (inner settings settings.maxDepth : Inner σ Value) with
  | none => exact .error
  | some decode =>
    simp only [bind_assoc, pure_bind]
    rw [bind_of_ok labelled]
    exact .refl ..

/-- Reading behind a descriptor tracks itself. -/
theorem tracks_behindLabel {σ τ : Type} [Source σ] [Source τ] {coupling : Coupling σ τ}
    (sound : coupling.Sound) (settings : DecoderSettings)
    (resolve : Value → Except Error Described) :
    coupling.Tracks coupling.settled coupling.settled (behindLabel settings resolve)
      (behindLabel settings resolve) :=
  tracks_within sound (innerTracks_inner sound (.refl coupling.excused settings)) fun _ _ each =>
    (tracks_coded sound each).bind fun _ => (tracks_lift sound _).map Value.described

omit [Lawful σ] in
/-- Reading behind a descriptor is unmoved by an offset. -/
theorem unmoved_behindLabel {extra : Nat} (settings : DecoderSettings)
    (resolve : Value → Except Error Described) :
    Unmoved (behindLabel settings resolve : Fetch (Offset σ extra) Value)
      (behindLabel settings resolve) := by
  unfold behindLabel
  rw [@inner_offset σ extra _ settings settings.maxDepth]
  exact unmoved_within settings _ fun _ => rfl

/-- On sources of a kind it makes no difference which of two labels stands in front of a body:
whatever comes behind them, the same value is read, and as many bytes are taken behind the one as
behind the other, or the same error is found. -/
def Interchangeable (σ : Type) [Source σ] [Lawful σ] (settings : DecoderSettings)
    (front front' : Bytes) : Prop :=
  ∀ (source source' : σ) (rest : Bytes) (taken taken' : Nat),
    Facing source (Code.described.toByte :: (front ++ rest)) taken →
      Facing source' (Code.described.toByte :: (front' ++ rest)) taken' →
        Concur (taken + 1 + front.length) (taken' + 1 + front'.length)
          (decodeValue settings source) (decodeValue settings source')

/-- Descriptors that resolve every body alike are interchangeable in all of their encodings.
Behind the labels the same computation is run on two sources with the same bytes to come, at
positions that differ by the lengths of the labels, and an offset makes up for these. -/
theorem interchangeable_of_resolve {front' : Bytes} {descriptor' : Descriptor}
    (label : Coded (Label settings.text) front descriptor)
    (label' : Coded (Label settings.text) front' descriptor')
    (same : Registry.standard.resolve descriptor = Registry.standard.resolve descriptor') :
    Interchangeable σ settings front front' := by
  intro source source' rest taken taken' faces faces'
  obtain ⟨middle, settled, reading⟩ := exists_behindLabel label faces (taken + 1 + front.length)
  obtain ⟨middle', settled', reading'⟩ :=
    exists_behindLabel label' faces' (taken' + 1 + front'.length)
  rw [← same] at reading'
  have behind := concur_of_tracks
    (unmoved_behindLabel settings (Registry.standard.resolve descriptor))
    (unmoved_behindLabel settings (Registry.standard.resolve descriptor))
    (tracks_behindLabel (sound_level ..) settings _) settled settled'
  exact (reading.trans behind).trans reading'.symm

end Decoder

namespace Form

/-- The four encodings of the descriptors of a form: its code in one byte and in eight, and its
symbol behind a length of one byte and of four. -/
def labels (form : Form) : List Bytes :=
  [Code.smallUlong.toByte :: Bytes.be 1 form.code.toNat,
    Code.ulong.toByte :: Bytes.be 8 form.code.toNat,
    Code.symbol8.toByte :: counted 1 (Utf8.encode form.symbol),
    Code.symbol32.toByte :: counted 4 (Utf8.encode form.symbol)]

/-- The code of every form fits a byte. -/
theorem toUInt64_code (form : Form) : form.code.toUInt8.toUInt64 = form.code := by
  cases form with
  | composite form => cases form <;> rfl
  | content part => cases part <;> rfl

/-- The symbol of every form is short. -/
theorem length_symbol_lt (form : Form) : (Utf8.encode form.symbol).length < 256 := by
  cases form with
  | composite form => cases form <;> decide +kernel
  | content part => cases part <;> decide +kernel

/-- A label of a form is an encoding of a descriptor that finds the form. Two of the four are of
the code, which fits a byte for every form, and two of the symbol, which is short enough for a
length of one byte. -/
theorem exists_descriptor_of_mem_labels {form : Form} {front : Bytes}
    (member : front ∈ form.labels) : ∃ descriptor, Coded (Label .strict) front descriptor ∧
      Registry.standard.find? descriptor = some form := by
  have short := form.length_symbol_lt
  have read := TextDecoder.strict_encode form.symbol
  have byte : form.code.toUInt8.toNat = form.code.toNat :=
    UInt8.toNat_toUInt64 _ ▸ congrArg UInt64.toNat form.toUInt64_code
  simp only [labels, List.mem_cons, List.not_mem_nil, or_false] at member
  rcases member with rfl | rfl | rfl | rfl
  · have small := Grammar.Scalar.smallUlong form.code.toUInt8
    rw [byte, form.toUInt64_code] at small
    exact ⟨.code form.code, ⟨_, _, rfl, .code small⟩, Registry.find?_code form⟩
  · exact ⟨.code form.code, ⟨_, _, rfl, .code (.ulong form.code)⟩, Registry.find?_code form⟩
  · exact ⟨.symbol form.symbol, ⟨_, _, rfl, .symbol rfl rfl short read⟩,
      Registry.find?_symbol form⟩
  · exact ⟨.symbol form.symbol, ⟨_, _, rfl, .symbol rfl rfl (by omega) read⟩,
      Registry.find?_symbol form⟩

/-- The encodings of the descriptors of a form are interchangeable. -/
theorem interchangeable_labels {σ : Type} [Source σ] [Lawful σ] {form : Form}
    {settings : DecoderSettings} (strict : settings.text = .strict) {front front' : Bytes}
    (member : front ∈ form.labels) (member' : front' ∈ form.labels) :
    Interchangeable σ settings front front' := by
  obtain ⟨descriptor, label, found⟩ := exists_descriptor_of_mem_labels member
  obtain ⟨descriptor', label', found'⟩ := exists_descriptor_of_mem_labels member'
  rw [← strict] at label label'
  refine interchangeable_of_resolve label label' (funext fun body => ?_)
  rw [Registry.resolve, Registry.resolve, found, found']

end Form

namespace Encoder

/-- A computation that appends some bytes and does nothing else. In particular it asks nothing of
the hook. -/
def OnlyPuts (write : Emit Unit) (bytes : Bytes) : Prop :=
  ∀ state, write state = .ok () { state with sink := state.sink.put bytes }

/-- Writing bytes does nothing else. -/
theorem onlyPuts_put (bytes : Bytes) : OnlyPuts (put bytes) bytes := fun _ => rfl

/-- Two computations in a row append in a row. -/
theorem OnlyPuts.bind {write next : Emit Unit} {bytes more : Bytes} (first : OnlyPuts write bytes)
    (second : OnlyPuts next more) : OnlyPuts (do write; next) (bytes ++ more) := by
  intro state
  refine (bind_of_ok (first state)).trans ?_
  rw [second, Sink.put_put]

/-- A descriptor that fits is written, and nothing else happens. It is written the same way
whatever is written around it and whatever the hook does, which is what lets a value be written
under it that could be written before. -/
theorem onlyPuts_putDescriptor {descriptor : Descriptor} (fits : Canonical.LabelFits descriptor) :
    OnlyPuts (putDescriptor descriptor) (Canonical.label descriptor) := by
  have number (code : Code) (width number : Nat) :
      OnlyPuts (putNumber code width number) (Canonical.numbered code width number) :=
    (onlyPuts_put _).bind (onlyPuts_put _)
  cases descriptor with
  | code value =>
    unfold putDescriptor putUlong putUnsigned Canonical.label Canonical.shortUlong
      Canonical.unsigned
    dsimp only
    split
    · exact onlyPuts_put _
    · split
      · exact number _ _ _
      · exact number _ _ _
  | symbol name =>
    have large : (Utf8.encode name).length < 256 ^ 4 := fits name rfl
    unfold putDescriptor putSymbol putPayload Canonical.label Canonical.measured
    dsimp only
    split
    · exact (number _ _ _).bind (onlyPuts_put _)
    · intro state
      refine (bind_of_ok (sized_of_lt large state)).trans ?_
      exact ((onlyPuts_put _).bind ((onlyPuts_put _).bind (onlyPuts_put _))) state

/-- A value that is written is also written under a descriptor that fits and is of no known form.
The value is written by the same computation, in a state that differs only in what its sink
holds. -/
theorem encodeValue_unknown {descriptor : Descriptor} {body : Value} {state after : State}
    (fits : Canonical.LabelFits descriptor)
    (written : encodeValue .strict body state = .ok () after) :
    ∃ last, encodeValue .strict (.described (.unknown descriptor body)) state = .ok () last := by
  obtain ⟨⟨result, bytes, asked⟩, same⟩ :=
    (appendsValue_standard .strict body).whole.atomic.appends state.asked
  have ran := (same state.sink).symm.trans written
  cases result with
  | error failure => cases ran
  | ok result =>
    have whole : writeValue standardBodies .strict (.described (.unknown descriptor body)) state =
        .ok result _ := (bind_of_ok (onlyPuts_put [Code.described.toByte] state)).trans
      ((bind_of_ok (onlyPuts_putDescriptor fits _)).trans (same _))
    exact ⟨_, by rw [encodeValue, atomic, orCutBack, whole]⟩

end Encoder

section Foreign

variable {descriptor : Descriptor} {front bytes : Bytes} {value : Value} {maxDepth : Nat}

/-- A body behind a descriptor of no known form is kept as it is, with one level more. -/
theorem readsBack_unknown (foreign : Registry.standard.find? descriptor = none)
    (label : Coded (Label .strict) front descriptor)
    (encoding : Encoding .strict maxDepth bytes value) (suffix : Bytes) :
    ReadsBack ⟨.strict, maxDepth + 1⟩ (Code.described.toByte :: (front ++ bytes)) suffix
      (.described (.unknown descriptor value)) := by
  have resolved := Registry.resolve_of_find?_none foreign value
  exact readsBack_iff_encoding.mpr ⟨_, _, rfl, .described rfl label encoding resolved⟩

/-- A body that was read, and can be written, can also be written under a descriptor of no known
form, and is then read back under it with the levels that it needs. The descriptor fits because
it was read, and the value is plain because its body was read and its descriptor is of no form.
-/
theorem unknown_written (foreign : Registry.standard.find? descriptor = none)
    (label : Coded (Label .strict) front descriptor)
    (encoding : Encoding .strict maxDepth bytes value) {state after : State}
    (written : encodeValue .strict value state = .ok () after) :
    let unknown : Value := .described (.unknown descriptor value)
    ∃ last encoded, encodeValue .strict unknown state = .ok () last ∧
      last.sink.toBytes = state.sink.toBytes ++ encoded ∧
        ∀ depth suffix, nesting unknown ≤ depth →
          ReadsBack ⟨.strict, depth⟩ encoded suffix unknown := by
  intro unknown
  have regular := encoding.regular
  have plain : unknown.Everywhere Value.Plain :=
    .of_unknown ⟨trivial, foreign⟩ (regular.imp fun _ regular => regular.toPlain)
  obtain ⟨last, ran⟩ := Encoder.encodeValue_unknown (Canonical.least_label label).2 written
  obtain ⟨checked, -, appended⟩ := (Encoder.writes_encodeValue Utf8.encode plain).sound ran
  refine ⟨last, _, ran, by rw [appended, Sink.toBytes_put], fun depth suffix within => ?_⟩
  exact readsBack_iff_encoding.mpr (encoding_of_checked rfl plain checked within)

end Foreign

/-- The form of a descriptor does not matter. The four labels of a known form are interchangeable
on buffers and on streams. Under a descriptor of no known form, in any of its encodings, a body
is kept as it is, and if it can be written then it can be written and read under the descriptor.

Proof: All four labels find one form, and what follows a descriptor only uses what it finds. The
two readings are therefore one computation on two sources at different positions, and a decoder
cannot tell positions apart except by their difference. Under an unknown descriptor the grammar
has the body as an encoding one level further down, from which reading and writing follow by
their own theorems. -/
theorem descriptors_interchangeable (maxDepth : Nat) :
    (∀ form : Form, ∀ front ∈ form.labels, ∀ front' ∈ form.labels,
      Interchangeable Buffer ⟨.strict, maxDepth⟩ front front' ∧
        Interchangeable Stream ⟨.strict, maxDepth⟩ front front') ∧
    ∀ (descriptor : Descriptor) (front bytes : Bytes) (value : Value) (read : Buffer),
      Registry.standard.find? descriptor = none → Coded (Label .strict) front descriptor →
        decodeValue ⟨.strict, maxDepth⟩ (Buffer.ofBytes bytes) = .ok value read →
          read.rest = [] →
      let unknown : Value := .described (.unknown descriptor value)
      (∀ suffix, ReadsBack ⟨.strict, maxDepth + 1⟩ (Code.described.toByte :: (front ++ bytes))
        suffix unknown) ∧
      ∀ state after, encodeValue .strict value state = .ok () after →
        ∃ last encoded, encodeValue .strict unknown state = .ok () last ∧
          last.sink.toBytes = state.sink.toBytes ++ encoded ∧
            ∀ depth suffix, nesting unknown ≤ depth →
              ReadsBack ⟨.strict, depth⟩ encoded suffix unknown := by
  constructor
  · intro form front member front' member'
    exact ⟨Form.interchangeable_labels rfl member member',
      Form.interchangeable_labels rfl member member'⟩
  · intro descriptor front bytes value read foreign label ran nothing
    have begun : Facing (Buffer.ofBytes bytes) bytes 0 := Buffer.holds_ofBytes bytes
    obtain ⟨word, back, split, encoding, settled⟩ :=
      (parsesFrom_decodeValue ⟨.strict, maxDepth⟩).sound begun ran
    obtain ⟨behind, -⟩ : read.Holds back (0 + word.length) := settled
    rw [← behind, nothing, List.append_nil] at split
    subst split
    exact ⟨readsBack_unknown foreign label encoding, fun state after written =>
      unknown_written foreign label encoding written⟩

/-- An accepted delivery with a slot too many is the same under its code and under its symbol,
whose label is longer by eighteen bytes. A number is kept under a symbol that nobody knows, and
is written and read under it again. -/
theorem descriptors_interchangeable_accepted :
    let body : Bytes := [0xc0, 2, 1, 0x43, 0xff]
    let byCode : Bytes := [0x53, 0x24]
    let bySymbol : Bytes := Code.symbol8.toByte :: counted 1 (Utf8.encode "amqp:accepted:list")
    let unknown : Value := .described (.unknown (.symbol "x") (.uint 0))
    Concur (0 + 1 + byCode.length) (0 + 1 + bySymbol.length)
        (decodeValue .standard (Buffer.ofBytes (0 :: (byCode ++ body))))
        (decodeValue .standard (Buffer.ofBytes (0 :: (bySymbol ++ body)))) ∧
      ReadsBack ⟨.strict, 65⟩ [0, 0xa3, 1, 0x78, 0x43] [0xff] unknown ∧
      ∃ last, encodeValue .strict unknown (.fresh .shift) = .ok () last ∧
        ReadsBack .standard last.sink.toBytes [0xff] unknown := by
  intro body byCode bySymbol unknown
  obtain ⟨known, foreign⟩ := descriptors_interchangeable 64
  refine ⟨?_, ?_⟩
  · have member : byCode ∈ (Form.composite .accepted).labels := by decide
    have member' : bySymbol ∈ (Form.composite .accepted).labels := by decide +kernel
    exact (known _ _ member _ member').1 _ _ body 0 0 (Buffer.holds_ofBytes _)
      (Buffer.holds_ofBytes _)
  · have fits : Canonical.LabelFits (.symbol "x") := by
      rintro _ ⟨⟩
      decide
    obtain ⟨kept, again⟩ := foreign (.symbol "x") (Canonical.label (.symbol "x")) [0x43] (.uint 0)
      ⟨[], 1, 0, rfl⟩ (by decide +kernel) (Canonical.coded_label TextDecoder.strict_encode fits)
      rfl rfl
    obtain ⟨last, encoded, ran, appended, back⟩ := again (.fresh .shift) _ rfl
    refine ⟨kept [0xff], last, ran, ?_⟩
    rw [appended]
    exact back defaultMaxDepth [0xff] (by decide)

end Amqp
