import Amqp.Proofs.Source.Footing
import Amqp.Proofs.Value.Mismatch

/-!
# What a decoder fails for

A decoder fails for one of nine causes, and when it does, what its error says is so: about the
byte that is next, about the bytes that are left, about a count, a size or the limit. Each step
of the decoder keeps this account, the containers because the values in them do, and the values
of one level because those of the level below do.

What the source refuses requests with and how text is read are parameters. A refused request and
a refused text are accounted for by the refusal itself.
-/

namespace Amqp.Decoder

variable {σ α β : Type} [Source σ]

/-- What is known of an error, and of the source behind it, when a decoder has failed. -/
inductive Cause (settings : DecoderSettings) (facing : σ → Prop) (refuses : Error → σ → Prop) :
    Error → σ → Prop
  /-- The source has refused a request. -/
  | refused {error : Error} {source : σ} : refuses error source →
      Cause settings facing refuses error source
  /-- The next byte, which has not been taken, is no constructor. -/
  | unassigned {byte : UInt8} {source : σ} : Code.ofByte? byte = none → facing source →
      Source.peek source = .ok (some byte) source →
      Cause settings facing refuses (.unknownCode byte) source
  /-- Fewer bytes are known to be left than a length declares. -/
  | overdrawn {declared remaining : Nat} {source : σ} :
      Source.remaining source = some remaining → remaining < declared →
      Cause settings facing refuses (.lengthExceedsRemaining declared remaining) source
  /-- The last key of a map has no value. -/
  | unpaired {count : Nat} (source : σ) : count % 2 = 1 →
      Cause settings facing refuses (.oddMapCount count) source
  /-- The elements of a container did not take the bytes it declared. -/
  | misfit {declared consumed : Nat} (container : Kind) (source : σ) : consumed ≠ declared →
      Cause settings facing refuses (.sizeMismatch container declared consumed) source
  /-- Another rule of the encoding is broken. -/
  | illFormed (reason : String) (source : σ) :
      Cause settings facing refuses (.malformed reason) source
  /-- No level is left. -/
  | tooDeep (source : σ) : Cause settings facing refuses (.nestingTooDeep settings.maxDepth) source
  /-- A text is refused. -/
  | garbled {content : Bytes} {error : Error} (source : σ) :
      settings.text content = .error error → Cause settings facing refuses error source
  /-- A value is well formed but not of the expected type. -/
  | mismatched {error : Error} (source : σ) : error.isMismatch = true →
      Cause settings facing refuses error source

/-- Between states of two kinds a computation fails for the known causes only. -/
abbrev Explains (settings : DecoderSettings) (footing : Footing σ) (before after : σ → Prop)
    (compute : Fetch σ α) : Prop :=
  Accounts (Cause settings footing.facing footing.refuses) before after compute

/-- A reader of contained values that fails for the known causes only, if a level is left. -/
def InnerExplains (settings : DecoderSettings) (footing : Footing σ) (inner : Inner σ α) : Prop :=
  ∀ decode, inner = some decode → ∀ code,
    Explains settings footing footing.settled footing.settled (decode code)

/-- Where a level is left, what is said of the reader is what is said of every constructor. -/
theorem InnerExplains.deeper {settings : DecoderSettings} {footing : Footing σ}
    {decode : Code → Fetch σ α}
    (each : ∀ code, Explains settings footing footing.settled footing.settled (decode code)) :
    InnerExplains settings footing (some decode) := by
  intro decode' made
  cases made
  exact each

variable {settings : DecoderSettings} {footing : Footing σ} {before : σ → Prop}

/-- A request that the source refuses fails for this cause. -/
theorem explains_request {after : σ → Prop} {request : Fetch σ α}
    (refused : Accounts footing.refuses before after request) :
    Explains settings footing before after request :=
  refused.imp (fun _ _ => .refused) (fun _ => id) fun _ => id

/-- A result that does not come from the source is refused for a known cause if its error is
one. -/
theorem explains_lift {result : Except Error α} (known : ∀ error, result = .error error →
    ∀ source, Cause settings footing.facing footing.refuses error source) :
    Explains settings footing before before (lift result) := by
  cases result with
  | ok value => exact accounts_pure value
  | error error => exact accounts_throw fun source _ => known error rfl source

/-- The position is read off the state. -/
theorem explains_getPosition : Explains settings footing before before Source.getPosition :=
  fun _ known => known

/-- Fewer bytes are left than declared where a declared length is refused. -/
theorem explains_ensureAvailable (declared : Nat) :
    Explains settings footing before before (ensureAvailable declared) := by
  intro source known
  rw [ensureAvailable_eq]
  cases left : Source.remaining source with
  | none => exact known
  | some remaining =>
    simp only
    split
    · next few => exact .overdrawn left few
    · exact known

/-- The elements of a container took more or fewer bytes than declared where they are refused. -/
theorem explains_checkConsumed (container : Kind) (header : Header) (start : Nat) :
    Explains settings footing before before (checkConsumed container header start) :=
  explains_getPosition.bind fun _ =>
    accounts_ite (fun differs => accounts_throw fun source _ => .misfit container source differs)
      fun _ => accounts_pure ()

/-- Repeating a computation fails for the causes that it fails for. -/
theorem explains_collect {compute : Fetch σ α}
    (explains : Explains settings footing before before compute) (times : Nat)
    (earlier : List α) :
    Explains settings footing before before (collect compute times earlier) := by
  induction times generalizing earlier with
  | zero => exact accounts_pure _
  | succ times inductionHypothesis =>
    exact explains.bind fun result => inductionHypothesis (result :: earlier)

/-- Going one level down fails for the causes that going on there does, or for the limit. -/
theorem explains_within {inner : Inner σ α} (deeper : InnerExplains settings footing inner)
    {body : (Code → Fetch σ α) → Fetch σ β}
    (each : ∀ decode, (∀ code, Explains settings footing footing.settled footing.settled
      (decode code)) → Explains settings footing footing.settled footing.settled (body decode)) :
    Explains settings footing footing.settled footing.settled (within settings inner body) := by
  cases inner with
  | none => exact accounts_throw fun source _ => .tooDeep source
  | some decode => exact each decode (deeper decode rfl)

section Reading

variable (firm : footing.Firm)

include firm

/-- Where there is no next constructor, the source refuses to show one or the next byte is none.
The error names that byte, and the source still shows it, because it has not been taken. -/
theorem explains_peekCode : Explains settings footing footing.facing footing.Shown peekCode := by
  intro source faces
  unfold peekCode
  rcases firm.next faces with ⟨error, after, ran, refused⟩ | ⟨after, ran, ended⟩ |
    ⟨byte, after, ran, again, shown⟩
  · rw [bind_of_error ran]
    exact .refused refused
  · rw [bind_of_ok ran]
    exact .refused ended
  · rw [bind_of_ok ran]
    cases assigned : Code.ofByte? byte with
    | some code =>
      simp only [assigned]
      exact shown
    | none =>
      simp only [assigned]
      exact .unassigned assigned shown.1 again

omit firm in
/-- A byte that was looked at is taken, or the input has ended. -/
theorem explains_skipShown : Explains settings footing footing.Shown footing.settled
    (Source.skip 1) :=
  explains_request fun _ shown => shown.2

/-- Taking the next constructor fails for the known causes. -/
theorem explains_readCode_facing :
    Explains settings footing footing.facing footing.settled readCode :=
  (explains_peekCode firm).bind fun code => explains_skipShown.map fun _ => code

/-- What fails for the known causes while a byte may be held does so while none is. -/
theorem Explains.of_facing {after : σ → Prop} {compute : Fetch σ α}
    (explains : Explains settings footing footing.facing after compute) :
    Explains settings footing footing.settled after compute :=
  Accounts.imp explains (fun _ _ => id) (fun _ => firm.facing_of_settled) fun _ => id

/-- Taking the next constructor and reading what is behind it fails for the known causes. -/
theorem explains_coded {decode : Code → Fetch σ α}
    (each : ∀ code, Explains settings footing footing.settled footing.settled (decode code)) :
    Explains settings footing footing.settled footing.settled (readCode >>= decode) :=
  Explains.of_facing firm ((explains_readCode_facing firm).bind each)

/-- Reading a number fails for the known causes. -/
theorem explains_readNat (width : Nat) :
    Explains settings footing footing.settled footing.settled (Source.readNat width) :=
  (explains_request (firm.read width)).map fun bytes => Bytes.beValue bytes.toList

/-- Reading a byte fails for the known causes. -/
theorem explains_readUInt8 :
    Explains settings footing footing.settled footing.settled Source.readUInt8 :=
  (explains_readNat firm 1).map UInt8.ofNat

/-- Reading a number of two bytes fails for the known causes. -/
theorem explains_readUInt16 :
    Explains settings footing footing.settled footing.settled Source.readUInt16 :=
  (explains_readNat firm 2).map UInt16.ofNat

/-- Reading a number of four bytes fails for the known causes. -/
theorem explains_readUInt32 :
    Explains settings footing footing.settled footing.settled Source.readUInt32 :=
  (explains_readNat firm 4).map UInt32.ofNat

/-- Reading a number of eight bytes fails for the known causes. -/
theorem explains_readUInt64 :
    Explains settings footing footing.settled footing.settled Source.readUInt64 :=
  (explains_readNat firm 8).map UInt64.ofNat

/-- Reading bytes of a fixed number fails for the known causes. -/
theorem explains_read (length : Nat) :
    Explains settings footing footing.settled footing.settled (Source.read length) :=
  explains_request (firm.read length)

/-- Reading a payload behind its length fails for the known causes. -/
theorem explains_readPayload (width : Nat) :
    Explains settings footing footing.settled footing.settled (readPayload width) :=
  (explains_readNat firm width).bind fun length =>
    (explains_ensureAvailable length).bind fun _ => explains_request (firm.take length)

/-- Reading the text of a payload fails for the known causes. -/
theorem explains_readText (width : Nat) :
    Explains settings footing footing.settled footing.settled (readText settings width) :=
  (explains_readPayload firm width).bind fun _ =>
    explains_lift fun _ refused source => .garbled source refused

/-- Reading the prefix of a container fails for the known causes. -/
theorem explains_readHeader (width : Nat) :
    Explains settings footing footing.settled footing.settled (readHeader width) :=
  (explains_readNat firm width).bind fun declared =>
    accounts_unless (fun _ source _ => .illFormed _ source) fun _ =>
      (explains_ensureAvailable declared).bind fun _ =>
        (explains_readNat firm width).bind fun _ =>
          accounts_unless (fun _ source _ => .illFormed _ source) fun _ => accounts_pure _

/-- Reading a descriptor fails for the known causes. A constructor of anything but a number or a
symbol is refused as what it is. -/
theorem explains_readDescriptor :
    Explains settings footing footing.settled footing.settled (readDescriptor settings) := by
  apply explains_coded firm
  intro code
  split
  · exact accounts_pure _
  · exact (explains_readUInt8 firm).map fun value => Descriptor.code value.toUInt64
  · exact (explains_readUInt64 firm).map Descriptor.code
  · exact (explains_readText firm 1).map Descriptor.symbol
  · exact (explains_readText firm 4).map Descriptor.symbol
  · exact accounts_throw fun source _ => .illFormed _ source

/-- Reading the shared constructor of an array fails for the known causes. -/
theorem explains_readArrayConstructor :
    Explains settings footing footing.settled footing.settled (readArrayConstructor settings) := by
  apply explains_coded firm
  intro code
  split
  · refine (explains_readDescriptor firm).bind fun descriptor => explains_coded firm fun _ => ?_
    split
    · exact accounts_throw fun source _ => .illFormed _ source
    · exact accounts_pure _
  · exact accounts_pure _

omit firm in
/-- Reading an element of an array fails for the known causes: those of its body, and those of
finding the form of its descriptor. -/
theorem explains_readElement {decode : Fetch σ Value}
    (explains : Explains settings footing footing.settled footing.settled decode)
    (descriptor : Option Descriptor) :
    Explains settings footing footing.settled footing.settled (readElement descriptor decode) := by
  apply explains.bind
  intro body
  cases descriptor with
  | none => exact accounts_pure body
  | some descriptor =>
    exact (explains_lift fun _ refused source =>
      .mismatched source (Registry.isMismatch_of_resolve refused)).map Value.described

section Containers

variable {inner : Inner σ Value} (deeper : InnerExplains settings footing inner)

include deeper

/-- Reading a descriptor and a body fails for the known causes. -/
theorem explains_readDescribedParts : Explains settings footing footing.settled footing.settled
    (readDescribedParts settings inner) :=
  explains_within deeper fun _ each =>
    (explains_readDescriptor firm).bind fun descriptor =>
      (explains_coded firm each).map fun body => (descriptor, body)

/-- Reading a described value fails for the known causes. -/
theorem explains_readDescribed : Explains settings footing footing.settled footing.settled
    (readDescribed settings inner) :=
  (explains_readDescribedParts firm deeper).bind fun _ =>
    explains_lift fun _ refused source =>
      .mismatched source (Registry.isMismatch_of_resolve refused)

/-- Reading a list fails for the known causes. -/
theorem explains_readList (width : Nat) :
    Explains settings footing footing.settled footing.settled (readList settings inner width) :=
  (explains_readHeader firm width).bind fun header =>
    explains_getPosition.bind fun start =>
      (explains_within deeper fun _ each =>
        explains_collect (explains_coded firm each) header.count []).bind fun _ =>
        (explains_checkConsumed .list header start).map fun _ => _

/-- Reading a map fails for the known causes. An odd number of elements is one of them, and is
found out before any element is read. -/
theorem explains_readMap (width : Nat) :
    Explains settings footing footing.settled footing.settled (readMap settings inner width) := by
  refine (explains_readHeader firm width).bind fun header =>
    accounts_unless (fun odd source _ => .unpaired source (Nat.mod_two_ne_zero.mp odd)) fun _ =>
      explains_getPosition.bind fun start =>
        (explains_within deeper fun _ each =>
          explains_collect ?_ (header.count / 2) []).bind fun _ =>
          (explains_checkConsumed .map header start).map fun _ => _
  exact (explains_coded firm each).bind fun key => (explains_coded firm each).map fun value =>
    (key, value)

/-- Reading an array fails for the known causes. The check of the announced size is made in front
of elements without bytes and behind all elements, and accounts for a misfit in both places. -/
theorem explains_readArray (width : Nat) :
    Explains settings footing footing.settled footing.settled
      (readArray settings inner width) := by
  refine (explains_readHeader firm width).bind fun header =>
    accounts_ite (fun _ => accounts_pure _) fun _ =>
      explains_getPosition.bind fun start =>
        (explains_within deeper fun decode each =>
          (explains_readArrayConstructor firm).bind fun found => ?_).bind fun _ =>
          (explains_checkConsumed .array header start).map fun _ => _
  obtain ⟨descriptor, shared⟩ := found
  have elements := explains_collect (explains_readElement (each shared) descriptor) header.count []
  exact accounts_ite (fun _ => (explains_checkConsumed .array header start).bind
    fun _ => elements) fun _ => elements

/-- Reading what is behind a constructor fails for the known causes. Of all values of fixed width
only a boolean and a character can be ill-formed. -/
theorem explains_readWith (code : Code) :
    Explains settings footing footing.settled footing.settled (readWith settings inner code) := by
  cases code with
  | described => exact (explains_readDescribed firm deeper).map Value.described
  | null | booleanTrue | booleanFalse | uint0 | ulong0 | list0 => exact accounts_pure _
  | boolean =>
    apply (explains_readUInt8 firm).bind
    intro byte
    split
    · exact accounts_pure _
    · exact accounts_pure _
    · exact accounts_throw fun source _ => .illFormed _ source
  | char =>
    exact (explains_readNat firm 4).bind fun number => accounts_ite (fun _ => accounts_pure _)
      fun _ => accounts_throw fun source _ => .illFormed _ source
  | ubyte | byte | smallUint | smallUlong | smallInt | smallLong =>
    exact (explains_readUInt8 firm).map _
  | ushort | short => exact (explains_readUInt16 firm).map _
  | uint | int | float => exact (explains_readUInt32 firm).map _
  | ulong | long | double | timestamp => exact (explains_readUInt64 firm).map _
  | decimal32 => exact (explains_read firm 4).map _
  | decimal64 => exact (explains_read firm 8).map _
  | decimal128 | uuid => exact (explains_read firm 16).map _
  | binary8 => exact (explains_readPayload firm 1).map _
  | binary32 => exact (explains_readPayload firm 4).map _
  | string8 | symbol8 => exact (explains_readText firm 1).map _
  | string32 | symbol32 => exact (explains_readText firm 4).map _
  | list8 => exact explains_readList firm deeper 1
  | list32 => exact explains_readList firm deeper 4
  | map8 => exact explains_readMap firm deeper 1
  | map32 => exact explains_readMap firm deeper 4
  | array8 => exact explains_readArray firm deeper 1
  | array32 => exact explains_readArray firm deeper 4

end Containers

/-- Passing over what is behind a constructor fails for the known causes. -/
theorem explains_skipWith {inner : Inner σ Unit} (deeper : InnerExplains settings footing inner)
    (code : Code) :
    Explains settings footing footing.settled footing.settled (skipWith settings inner code) := by
  unfold skipWith
  split
  · exact explains_request (firm.skip _)
  · exact (explains_readNat firm _).bind fun length =>
      (explains_ensureAvailable length).bind fun _ => explains_request (firm.skip length)
  · exact (explains_readHeader firm _).bind fun header =>
      explains_request (firm.skip header.size)
  · exact explains_within deeper fun _ each =>
      (explains_coded firm each).bind fun _ => explains_coded firm each

/-- The readers of contained values fail for the known causes, whatever levels are left. -/
theorem innerExplains_inner (levels : Nat) :
    InnerExplains settings footing (inner settings levels) := by
  induction levels with
  | zero => exact nofun
  | succ levels inductionHypothesis =>
    exact .deeper fun code => explains_readWith firm inductionHypothesis code

/-- Passing over contained values fails for the known causes, whatever levels are left. -/
theorem innerExplains_innerSkip (levels : Nat) :
    InnerExplains settings footing (innerSkip settings levels) := by
  induction levels with
  | zero => exact nofun
  | succ levels inductionHypothesis =>
    exact .deeper fun code => explains_skipWith firm inductionHypothesis code

/-- Reading a value fails for the known causes. -/
theorem explains_decodeValue :
    Explains settings footing footing.facing footing.settled (decodeValue settings) :=
  (explains_readCode_facing firm).bind fun code =>
    explains_readWith firm (innerExplains_inner firm settings.maxDepth) code

/-- Reading a value as a type fails for the known causes. -/
theorem explains_decodeAs (type : Ty) :
    Explains settings footing footing.facing footing.settled (decodeAs settings type) :=
  (explains_decodeValue firm).bind fun _ =>
    explains_lift fun _ refused source => .mismatched source (Ty.isMismatch_of_read refused)

/-- Passing over a value fails for the known causes. -/
theorem explains_skipValue :
    Explains settings footing footing.facing footing.settled (skipValue settings) :=
  (explains_readCode_facing firm).bind fun code =>
    explains_skipWith firm (innerExplains_innerSkip firm settings.maxDepth) code

/-- Reading a value that must be described fails for the known causes. -/
theorem explains_decodeDescribed :
    Explains settings footing footing.facing footing.settled (decodeDescribed settings) :=
  (explains_peekCode firm).bind fun _ =>
    accounts_unless (fun _ source _ => .mismatched source rfl) fun _ =>
      explains_skipShown.bind fun _ =>
        explains_readDescribed firm (innerExplains_inner firm settings.maxDepth)

/-- Reading the prefix of a list fails for the known causes. -/
theorem explains_decodeListHeader :
    Explains settings footing footing.facing footing.settled decodeListHeader := by
  apply (explains_peekCode firm).bind
  intro code
  split
  · exact explains_skipShown.map fun _ => _
  · exact explains_skipShown.bind fun _ => explains_readHeader firm 1
  · exact explains_skipShown.bind fun _ => explains_readHeader firm 4
  · exact accounts_throw fun source _ => .mismatched source rfl

end Reading

section Looking

variable (sound : footing.Sound)

include sound

/-- Asking whether anything is left fails where the source refuses to show its next byte. -/
theorem explains_hasRemaining :
    Explains settings footing footing.facing footing.facing Source.hasRemaining :=
  (explains_request sound.looks).map Option.isSome

/-- Reading values until none is left fails for the known causes. Each value is asked for only if
something is left, so the end of the input is no failure. -/
theorem explains_decodeUntilEnd (bound : Nat) (earlier : List Value) :
    Explains settings footing footing.facing footing.facing
      (decodeUntilEnd settings bound earlier) := by
  induction bound generalizing earlier with
  | zero => exact accounts_pure _
  | succ bound inductionHypothesis =>
    refine (explains_hasRemaining sound).bind fun more => accounts_ite (fun _ => ?_)
      fun _ => accounts_pure _
    apply (explains_decodeValue sound.toFirm).bind
    intro value
    exact Explains.of_facing sound.toFirm (inductionHypothesis (value :: earlier))

/-- Reading every value up to the end fails for the known causes. -/
theorem explains_decodeAll :
    Explains settings footing footing.facing footing.facing (decodeAll settings) := by
  intro source faces
  unfold decodeAll
  rw [bind_of_ok (rfl : (get : Fetch σ σ) source = .ok source source)]
  exact explains_decodeUntilEnd sound _ [] source faces

end Looking

end Amqp.Decoder
