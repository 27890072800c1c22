import Amqp.Proofs.Source.Coupling

/-!
# Decoders on coupled sources

A decoder on the right of a sound coupling tracks the same decoder on the left. The two
may also differ in their settings, as long as the right one reads every text that the left
one reads, refuses what the left one refuses unless that is excused, and has at least as
many levels, where the left one's refusal of a level may be excused too.
-/

namespace Amqp.Decoder

open Coupling

variable {σ τ α β : Type} [Source σ] [Source τ]

/-- Settings on the right that do what other settings do on the left, apart from what is
excused. -/
structure Covers (excused : Error → Prop) (left right : DecoderSettings) : Prop where
  text (content : Bytes) : right.text content = left.text content ∨
    ∃ error, left.text content = .error error ∧ excused error
  depth : right.maxDepth = left.maxDepth ∨
    left.maxDepth ≤ right.maxDepth ∧ excused (.nestingTooDeep left.maxDepth)

/-- Settings do what they do themselves. -/
theorem Covers.refl (excused : Error → Prop) (settings : DecoderSettings) :
    Covers excused settings settings :=
  ⟨fun _ => .inl rfl, .inl rfl⟩

variable {coupling : Coupling σ τ} (sound : coupling.Sound)

include sound

/-- A failure may follow in states that are settled. -/
theorem failed_of_settled (source : σ) (target : τ) (related : coupling.settled source target) :
    coupling.failed source target :=
  sound.failed_of_facing (sound.facing_of_settled related)

/-- A result that does not come from the sources tracks itself. -/
theorem tracks_lift (result : Except Error α) :
    coupling.Tracks coupling.settled coupling.settled (lift result) (lift result) := by
  cases result with
  | ok value => exact tracks_pure value
  | error error => exact tracks_throw (failed_of_settled sound) error

/-- Looking at the next constructor tracks itself. A byte that is no constructor is the same byte
on both sides, and so is the error that names it. -/
theorem tracks_peekCode : coupling.Tracks coupling.facing coupling.Shown peekCode peekCode := by
  intro source target related
  have fails := sound.failed_of_facing related
  unfold peekCode
  rcases sound.next related with ⟨error, after, refused, excused⟩ | ⟨after, shown, ended⟩ |
    ⟨byte, after, behind, shown, shown', next⟩
  · rw [bind_of_error refused]
    rcases excused with excuse | ⟨behind, refused', failed⟩
    · exact .inl excuse
    · rw [bind_of_error refused']
      exact .inr ⟨behind, rfl, failed⟩
  · rw [bind_of_ok shown]
    rcases ended with excuse | ⟨behind, shown', failed⟩
    · exact .inl excuse
    · rw [bind_of_ok shown']
      exact .inr ⟨behind, rfl, failed⟩
  · rw [bind_of_ok shown, bind_of_ok shown']
    cases assigned : Code.ofByte? byte with
    | some code =>
      simp only [assigned]
      exact ⟨behind, rfl, next⟩
    | none =>
      simp only [assigned]
      exact .inr ⟨behind, rfl, sound.failed_of_facing next.1⟩

omit sound in
/-- Taking a byte that was looked at tracks itself. -/
theorem tracks_skipShown : coupling.Tracks coupling.Shown coupling.settled
    (Source.skip 1) (Source.skip 1) :=
  fun _ _ related => related.2

/-- Taking the next constructor tracks itself. -/
theorem tracks_readCode_facing :
    coupling.Tracks coupling.facing coupling.settled readCode readCode :=
  (tracks_peekCode sound).bind fun code => tracks_skipShown.map fun _ => code

/-- Taking the next constructor from settled states tracks itself. -/
theorem tracks_readCode : coupling.Tracks coupling.settled coupling.settled readCode readCode :=
  (tracks_readCode_facing sound).imp (fun _ _ => sound.facing_of_settled) fun _ _ => id

/-- Reading a number tracks itself. -/
theorem tracks_readNat (width : Nat) : coupling.Tracks coupling.settled coupling.settled
    (Source.readNat width) (Source.readNat width) :=
  (sound.read width).map fun bytes => Bytes.beValue bytes.toList

/-- Reading a byte tracks itself. -/
theorem tracks_readUInt8 : coupling.Tracks coupling.settled coupling.settled
    Source.readUInt8 Source.readUInt8 := (tracks_readNat sound 1).map UInt8.ofNat

/-- Reading a number of two bytes tracks itself. -/
theorem tracks_readUInt16 : coupling.Tracks coupling.settled coupling.settled
    Source.readUInt16 Source.readUInt16 := (tracks_readNat sound 2).map UInt16.ofNat

/-- Reading a number of four bytes tracks itself. -/
theorem tracks_readUInt32 : coupling.Tracks coupling.settled coupling.settled
    Source.readUInt32 Source.readUInt32 := (tracks_readNat sound 4).map UInt32.ofNat

/-- Reading a number of eight bytes tracks itself. -/
theorem tracks_readUInt64 : coupling.Tracks coupling.settled coupling.settled
    Source.readUInt64 Source.readUInt64 := (tracks_readNat sound 8).map UInt64.ofNat

/-- Reading a payload behind its length tracks itself. -/
theorem tracks_readPayload (width : Nat) : coupling.Tracks coupling.settled coupling.settled
    (readPayload width) (readPayload width) :=
  (tracks_readNat sound width).bind fun length =>
    (sound.ensures length).bind fun _ => sound.take length

/-- The position at corresponding states is the same. -/
theorem tracks_getPosition : coupling.Tracks coupling.settled coupling.settled
    Source.getPosition Source.getPosition := by
  intro source target related
  refine ⟨target, ?_, related⟩
  rw [sound.position_eq (sound.facing_of_settled related)]
  rfl

/-- The check of a container tracks itself. -/
theorem tracks_checkConsumed (container : Kind) (header : Header) (start : Nat) :
    coupling.Tracks coupling.settled coupling.settled (checkConsumed container header start)
      (checkConsumed container header start) :=
  (tracks_getPosition sound).bind fun _ =>
    tracks_ite (fun _ => tracks_throw (failed_of_settled sound) _) fun _ => tracks_pure ()

/-- Reading the prefix of a container tracks itself. -/
theorem tracks_readHeader (width : Nat) : coupling.Tracks coupling.settled coupling.settled
    (readHeader width) (readHeader width) :=
  (tracks_readNat sound width).bind fun declared =>
    tracks_unless (failed_of_settled sound) fun _ =>
      (sound.ensures declared).bind fun _ =>
        (tracks_readNat sound width).bind fun _ =>
          tracks_unless (failed_of_settled sound) fun _ => tracks_pure _

omit [Source σ] [Source τ] sound in
/-- Repeating computations that track each other tracks. -/
theorem tracks_collect {left : Fetch σ α} {right : Fetch τ α}
    (tracks : coupling.Tracks coupling.settled coupling.settled left right) (times : Nat)
    (earlier : List α) : coupling.Tracks coupling.settled coupling.settled
      (collect left times earlier) (collect right times earlier) := by
  induction times generalizing earlier with
  | zero => exact tracks_pure _
  | succ times inductionHypothesis =>
    exact tracks.bind fun result => inductionHypothesis (result :: earlier)

omit sound in
/-- The readers of contained values on both sides: they track each other, or there is no
level left on either side or, if that is excused, on the left. -/
inductive InnerTracks (coupling : Coupling σ τ) (left right : DecoderSettings) :
    Inner σ α → Inner τ α → Prop
  | exhausted (same : right.maxDepth = left.maxDepth) : InnerTracks coupling left right none none
  | shallow (excuse : coupling.excused (.nestingTooDeep left.maxDepth)) (deeper : Inner τ α) :
      InnerTracks coupling left right none deeper
  | deeper {decode : Code → Fetch σ α} {decode' : Code → Fetch τ α}
      (tracks : ∀ code,
        coupling.Tracks coupling.settled coupling.settled (decode code) (decode' code)) :
      InnerTracks coupling left right (some decode) (some decode')

section Inside

variable {left right : DecoderSettings} (covers : Covers coupling.excused left right)

include covers in
/-- Reading the text of a payload tracks. -/
theorem tracks_readText (width : Nat) : coupling.Tracks coupling.settled coupling.settled
    (readText left width) (readText right width) := by
  apply (tracks_readPayload sound width).bind
  intro content
  rcases covers.text content with same | ⟨error, refused, excuse⟩
  · rw [same]
    exact tracks_lift sound _
  · rw [refused]
    exact tracks_excused excuse _

variable {inner : Inner σ Value} {inner' : Inner τ Value}

/-- Going one level down tracks if what is done there does. Where no level is left on both sides,
the same limit is reported, and where there is one on the right only, the refusal on the left is
excused. -/
theorem tracks_within {inner : Inner σ α} {inner' : Inner τ α}
    (deeper : InnerTracks coupling left right inner inner')
    {body : (Code → Fetch σ α) → Fetch σ β} {body' : (Code → Fetch τ α) → Fetch τ β}
    (each : ∀ decode decode', (∀ code, coupling.Tracks coupling.settled coupling.settled
      (decode code) (decode' code)) →
      coupling.Tracks coupling.settled coupling.settled (body decode) (body' decode')) :
    coupling.Tracks coupling.settled coupling.settled (within left inner body)
      (within right inner' body') := by
  cases deeper with
  | exhausted same =>
    unfold within
    rw [same]
    exact tracks_throw (failed_of_settled sound) _
  | shallow excuse => exact tracks_excused excuse _
  | deeper tracks => exact each _ _ tracks

/-- Reading a constructor and what is behind it tracks. -/
theorem tracks_coded {decode : Code → Fetch σ α} {decode' : Code → Fetch τ α}
    (each : ∀ code, coupling.Tracks coupling.settled coupling.settled
      (decode code) (decode' code)) :
    coupling.Tracks coupling.settled coupling.settled (readCode >>= decode)
      (readCode >>= decode') :=
  (tracks_readCode sound).bind each

include covers in
/-- Reading a descriptor tracks. -/
theorem tracks_readDescriptor : coupling.Tracks coupling.settled coupling.settled
    (readDescriptor left) (readDescriptor right) := by
  apply (tracks_readCode sound).bind
  intro code
  split
  · exact tracks_pure _
  · exact (tracks_readUInt8 sound).map fun value => Descriptor.code value.toUInt64
  · exact (tracks_readUInt64 sound).map Descriptor.code
  · exact (tracks_readText sound covers 1).map Descriptor.symbol
  · exact (tracks_readText sound covers 4).map Descriptor.symbol
  · exact tracks_throw (failed_of_settled sound) _

include covers in
/-- Reading a descriptor and a body tracks. -/
theorem tracks_readDescribedParts (deeper : InnerTracks coupling left right inner inner') :
    coupling.Tracks coupling.settled coupling.settled (readDescribedParts left inner)
      (readDescribedParts right inner') :=
  tracks_within sound deeper fun _ _ each =>
    (tracks_readDescriptor sound covers).bind fun descriptor =>
      (tracks_coded sound each).map fun body => (descriptor, body)

include covers in
/-- Reading a described value tracks. -/
theorem tracks_readDescribed (deeper : InnerTracks coupling left right inner inner') :
    coupling.Tracks coupling.settled coupling.settled (readDescribed left inner)
      (readDescribed right inner') :=
  (tracks_readDescribedParts sound covers deeper).bind fun _ => tracks_lift sound _

/-- Reading a list tracks. -/
theorem tracks_readList (deeper : InnerTracks coupling left right inner inner') (width : Nat) :
    coupling.Tracks coupling.settled coupling.settled (readList left inner width)
      (readList right inner' width) :=
  (tracks_readHeader sound width).bind fun header =>
    (tracks_getPosition sound).bind fun start =>
      (tracks_within sound deeper fun _ _ each =>
        tracks_collect (tracks_coded sound each) header.count []).bind fun _ =>
        (tracks_checkConsumed sound .list header start).map fun _ => _

/-- Reading a map tracks. -/
theorem tracks_readMap (deeper : InnerTracks coupling left right inner inner') (width : Nat) :
    coupling.Tracks coupling.settled coupling.settled (readMap left inner width)
      (readMap right inner' width) := by
  refine (tracks_readHeader sound width).bind fun header =>
    tracks_unless (failed_of_settled sound) fun _ =>
      (tracks_getPosition sound).bind fun start =>
        (tracks_within sound deeper fun _ _ each =>
          tracks_collect ?_ (header.count / 2) []).bind fun _ =>
          (tracks_checkConsumed sound .map header start).map fun _ => _
  exact (tracks_coded sound each).bind fun key => (tracks_coded sound each).map fun value =>
    (key, value)

include covers in
/-- Reading the shared constructor of an array tracks. -/
theorem tracks_readArrayConstructor : coupling.Tracks coupling.settled coupling.settled
    (readArrayConstructor left) (readArrayConstructor right) := by
  apply (tracks_readCode sound).bind
  intro code
  split
  · refine (tracks_readDescriptor sound covers).bind fun descriptor =>
      (tracks_readCode sound).bind fun shared => ?_
    split
    · exact tracks_throw (failed_of_settled sound) _
    · exact tracks_pure _
  · exact tracks_pure _

/-- Reading an element of an array tracks. -/
theorem tracks_readElement {decode : Fetch σ Value} {decode' : Fetch τ Value}
    (tracks : coupling.Tracks coupling.settled coupling.settled decode decode')
    (descriptor : Option Descriptor) : coupling.Tracks coupling.settled coupling.settled
      (readElement descriptor decode) (readElement descriptor decode') := by
  apply tracks.bind
  intro body
  cases descriptor with
  | none => exact tracks_pure body
  | some descriptor => exact (tracks_lift sound _).map Value.described

include covers in
/-- Reading an array tracks. The two sides choose the same branch behind the shared constructor,
because they have read the same one. -/
theorem tracks_readArray (deeper : InnerTracks coupling left right inner inner') (width : Nat) :
    coupling.Tracks coupling.settled coupling.settled (readArray left inner width)
      (readArray right inner' width) := by
  refine (tracks_readHeader sound width).bind fun header =>
    tracks_ite (fun _ => tracks_pure _) fun _ =>
      (tracks_getPosition sound).bind fun start =>
        (tracks_within sound deeper fun decode decode' each =>
          (tracks_readArrayConstructor sound covers).bind fun found => ?_).bind fun _ =>
          (tracks_checkConsumed sound .array header start).map fun _ => _
  obtain ⟨descriptor, shared⟩ := found
  have elements := tracks_collect (tracks_readElement sound (each shared) descriptor)
    header.count []
  exact tracks_ite (fun _ => (tracks_checkConsumed sound .array header start).bind
    fun _ => elements) fun _ => elements

include covers in
/-- Reading what is behind a constructor tracks. Nothing here depends on what the sources are or
how they are coupled: each reader is made of requests, refusals and choices, and these track. -/
theorem tracks_readWith (deeper : InnerTracks coupling left right inner inner') (code : Code) :
    coupling.Tracks coupling.settled coupling.settled (readWith left inner code)
      (readWith right inner' code) := by
  cases code with
  | described => exact (tracks_readDescribed sound covers deeper).map Value.described
  | null | booleanTrue | booleanFalse | uint0 | ulong0 | list0 => exact tracks_pure _
  | boolean =>
    apply (tracks_readUInt8 sound).bind
    intro byte
    split
    · exact tracks_pure _
    · exact tracks_pure _
    · exact tracks_throw (failed_of_settled sound) _
  | char =>
    exact (tracks_readNat sound 4).bind fun number => tracks_ite (fun _ => tracks_pure _)
      fun _ => tracks_throw (failed_of_settled sound) _
  | ubyte | byte | smallUint | smallUlong | smallInt | smallLong =>
    exact (tracks_readUInt8 sound).map _
  | ushort | short => exact (tracks_readUInt16 sound).map _
  | uint | int | float => exact (tracks_readUInt32 sound).map _
  | ulong | long | double | timestamp => exact (tracks_readUInt64 sound).map _
  | decimal32 => exact (sound.read 4).map _
  | decimal64 => exact (sound.read 8).map _
  | decimal128 | uuid => exact (sound.read 16).map _
  | binary8 => exact (tracks_readPayload sound 1).map _
  | binary32 => exact (tracks_readPayload sound 4).map _
  | string8 | symbol8 => exact (tracks_readText sound covers 1).map _
  | string32 | symbol32 => exact (tracks_readText sound covers 4).map _
  | list8 => exact tracks_readList sound deeper 1
  | list32 => exact tracks_readList sound deeper 4
  | map8 => exact tracks_readMap sound deeper 1
  | map32 => exact tracks_readMap sound deeper 4
  | array8 => exact tracks_readArray sound covers deeper 1
  | array32 => exact tracks_readArray sound covers deeper 4

/-- Passing over what is behind a constructor tracks. -/
theorem tracks_skipWith {inner : Inner σ Unit} {inner' : Inner τ Unit}
    (deeper : InnerTracks coupling left right inner inner') (code : Code) :
    coupling.Tracks coupling.settled coupling.settled (skipWith left inner code)
      (skipWith right inner' code) := by
  unfold skipWith
  split
  · exact sound.skip _
  · exact (tracks_readNat sound _).bind fun length =>
      (sound.ensures length).bind fun _ => sound.skip length
  · exact (tracks_readHeader sound _).bind fun header => sound.skip header.size
  · exact tracks_within sound deeper fun _ _ each =>
      (tracks_coded sound each).bind fun _ => tracks_coded sound each

omit [Source σ] [Source τ] sound in
/-- Readers that are made level by level track each other if one level more does not matter.
Either both sides have the same levels and run out of them together, or the right one has more
and what the left one refuses for its limit is excused. -/
theorem innerTracks_of_levels (make : Nat → Inner σ α) (make' : Nat → Inner τ α)
    (bottom : make 0 = none) (bottom' : make' 0 = none)
    (step : ∀ levels levels', InnerTracks coupling left right (make levels) (make' levels') →
      InnerTracks coupling left right (make (levels + 1)) (make' (levels' + 1)))
    {levels levels' : Nat}
    (depth : (levels' = levels ∧ right.maxDepth = left.maxDepth) ∨
      levels ≤ levels' ∧ coupling.excused (.nestingTooDeep left.maxDepth)) :
    InnerTracks coupling left right (make levels) (make' levels') := by
  induction levels generalizing levels' with
  | zero =>
    rw [bottom]
    rcases depth with ⟨rfl, same⟩ | ⟨_, excuse⟩
    · rw [bottom']
      exact .exhausted same
    · exact .shallow excuse _
  | succ levels inductionHypothesis =>
    cases levels' with
    | zero => omega
    | succ levels' =>
      refine step _ _ (inductionHypothesis ?_)
      rcases depth with ⟨same, equal⟩ | ⟨le, excuse⟩
      · exact .inl ⟨Nat.succ.inj same, equal⟩
      · exact .inr ⟨Nat.le_of_succ_le_succ le, excuse⟩

end Inside

variable {left right : DecoderSettings} (covers : Covers coupling.excused left right)

include covers

/-- The readers of the contained values of a session track. -/
theorem innerTracks_inner : InnerTracks coupling left right
    (inner left left.maxDepth : Inner σ Value) (inner right right.maxDepth : Inner τ Value) := by
  refine innerTracks_of_levels (inner left) (inner right) rfl rfl
    (fun levels levels' deeper => ?_) ?_
  · exact .deeper fun code => tracks_readWith sound covers deeper code
  · rcases covers.depth with same | deeper
    · exact .inl ⟨same, same⟩
    · exact .inr deeper

/-- The ways of passing over contained values in a session track. -/
theorem innerTracks_innerSkip : InnerTracks coupling left right
    (innerSkip left left.maxDepth : Inner σ Unit)
    (innerSkip right right.maxDepth : Inner τ Unit) := by
  refine innerTracks_of_levels (innerSkip left) (innerSkip right) rfl rfl
    (fun levels levels' deeper => ?_) ?_
  · exact .deeper fun code => tracks_skipWith sound deeper code
  · rcases covers.depth with same | deeper
    · exact .inl ⟨same, same⟩
    · exact .inr deeper

/-- Reading a value tracks. -/
theorem tracks_decodeValue : coupling.Tracks coupling.facing coupling.settled
    (decodeValue left) (decodeValue right) :=
  (tracks_readCode_facing sound).bind fun code =>
    tracks_readWith sound covers (innerTracks_inner sound covers) code

/-- Reading a value as a type tracks. -/
theorem tracks_decodeAs (type : Ty) : coupling.Tracks coupling.facing coupling.settled
    (decodeAs left type) (decodeAs right type) :=
  (tracks_decodeValue sound covers).bind fun _ => tracks_lift sound _

/-- Passing over a value tracks. -/
theorem tracks_skipValue : coupling.Tracks coupling.facing coupling.settled
    (skipValue left) (skipValue right) :=
  (tracks_readCode_facing sound).bind fun code =>
    tracks_skipWith sound (innerTracks_innerSkip sound covers) code

/-- Reading a value that must be described tracks. -/
theorem tracks_decodeDescribed : coupling.Tracks coupling.facing coupling.settled
    (decodeDescribed left) (decodeDescribed right) :=
  (tracks_peekCode sound).bind fun _ =>
    tracks_unless (fun _ _ related => sound.failed_of_facing related.1) fun _ =>
      tracks_skipShown.bind fun _ =>
        tracks_readDescribed sound covers (innerTracks_inner sound covers)

omit covers in
/-- Reading the prefix of a list tracks. -/
theorem tracks_decodeListHeader : coupling.Tracks coupling.facing coupling.settled
    decodeListHeader decodeListHeader := by
  apply (tracks_peekCode sound).bind
  intro code
  split
  · exact tracks_skipShown.map fun _ => _
  · exact tracks_skipShown.bind fun _ => tracks_readHeader sound 1
  · exact tracks_skipShown.bind fun _ => tracks_readHeader sound 4
  · exact tracks_throw (fun _ _ related => sound.failed_of_facing related.1) _

omit covers sound in
/-- Reading values until none is left tracks. The bound is the same on both sides, which for
reading everything is what alignment says of the bytes that can still arrive. -/
theorem tracks_decodeUntilEnd (aligned : coupling.Aligned)
    (covers : Covers coupling.excused left right) (bound : Nat) (earlier : List Value) :
    coupling.Tracks coupling.facing coupling.facing (decodeUntilEnd left bound earlier)
      (decodeUntilEnd right bound earlier) := by
  induction bound generalizing earlier with
  | zero => exact tracks_pure _
  | succ bound inductionHypothesis =>
    refine (aligned.peek.map Option.isSome).bind fun more => tracks_ite (fun _ => ?_)
      fun _ => tracks_pure _
    apply (tracks_decodeValue aligned.toSound covers).bind
    intro value
    exact (inductionHypothesis (value :: earlier)).imp
      (fun _ _ => aligned.facing_of_settled) fun _ _ => id

omit covers sound in
/-- Reading every value up to the end tracks. The bound is the same on both sides, because
aligned sources have as much to come. -/
theorem tracks_decodeAll (aligned : coupling.Aligned)
    (covers : Covers coupling.excused left right) :
    coupling.Tracks coupling.facing coupling.facing (decodeAll left) (decodeAll right) := by
  intro source target related
  have follows := tracks_decodeUntilEnd aligned covers (Source.pending source + 1) [] source target
    related
  unfold decodeAll
  rw [bind_of_ok (rfl : (get : Fetch σ σ) source = .ok source source),
    bind_of_ok (rfl : (get : Fetch τ τ) target = .ok target target),
    ← aligned.pending_eq related]
  exact follows

end Amqp.Decoder
