import Amqp.Proofs.Decoder.Tracking
import Amqp.Proofs.Source.Offset

/-!
# Decoders with an offset

A decoder asks for two positions at most, before and behind the content of a container, and
compares them. On a source with an offset both are moved alike, so the decoder is the same
function as on the source. Only the three readers of containers ask at all, and everything else
that a decoder does is the same by definition.

Hence what is read from a settled source does not depend on how many bytes it has handed out
before. Two sources of one kind with the same bytes to come give the same value, behind the same
number of bytes, or the same error. Where they stand behind an error is left open.
-/

namespace Amqp.Decoder

open Coupling (level sound_level)
open Source (Lawful)
open Source.Lawful (Settled)

variable {σ α β : Type} {extra : Nat}

/-- A computation on a source with an offset does what another one does on the source. -/
def Unmoved (left : Fetch (Offset σ extra) α) (right : Fetch σ α) : Prop := left = right

/-- Computations in a row are unmoved one after the other. -/
theorem Unmoved.bind {left : Fetch (Offset σ extra) α} {right : Fetch σ α}
    {next : α → Fetch (Offset σ extra) β} {next' : α → Fetch σ β} (first : Unmoved left right)
    (each : ∀ result, Unmoved (next result) (next' result)) :
    Unmoved (left >>= next) (right >>= next') := by
  obtain rfl : left = right := first
  exact congrArg (EStateM.bind left) (funext each)

section Walk

variable [Source σ] (settings : DecoderSettings) (inner : Inner σ Value)

/-- What follows a position is unmoved if it is told the offset. -/
theorem unmoved_getPosition {next : Nat → Fetch (Offset σ extra) α} {next' : Nat → Fetch σ α}
    (each : ∀ start, Unmoved (next (start + extra)) (next' start)) :
    Unmoved (Source.getPosition >>= next) (Source.getPosition >>= next') :=
  funext fun source => congrFun (each (@Source.position σ _ source)) source

/-- The bytes that the content of a container took are counted without the offset. -/
theorem unmoved_checkConsumed (container : Kind) (header : Header) (start : Nat) :
    Unmoved (checkConsumed container header (start + extra) : Fetch (Offset σ extra) Unit)
      (checkConsumed container header start) := by
  apply unmoved_getPosition
  intro stop
  simp only [Nat.add_sub_add_right]
  rfl

omit [Source σ] in
/-- Going one level down is unmoved if what is done there is. -/
theorem unmoved_within {body : (Code → Fetch σ Value) → Fetch (Offset σ extra) β}
    {body' : (Code → Fetch σ Value) → Fetch σ β}
    (each : ∀ decode, Unmoved (body decode) (body' decode)) :
    Unmoved (@within (Offset σ extra) _ _ settings inner body) (within settings inner body') := by
  cases inner with
  | none => rfl
  | some decode => exact each decode

/-- Reading a list is unmoved. -/
theorem unmoved_readList (width : Nat) :
    Unmoved (@readList (Offset σ extra) _ settings inner width)
      (readList settings inner width) := by
  refine Unmoved.bind rfl fun header => unmoved_getPosition fun start => ?_
  exact (unmoved_within settings inner fun _ => rfl).bind fun _ =>
    (unmoved_checkConsumed .list header start).bind fun _ => rfl

/-- Reading a map is unmoved. -/
theorem unmoved_readMap (width : Nat) :
    Unmoved (@readMap (Offset σ extra) _ settings inner width) (readMap settings inner width) := by
  refine Unmoved.bind rfl fun header => ?_
  unfold Unmoved
  dsimp only
  split
  · rfl
  · refine unmoved_getPosition fun start => ?_
    exact (unmoved_within settings inner fun _ => rfl).bind fun _ =>
      (unmoved_checkConsumed .map header start).bind fun _ => rfl

/-- Reading an array is unmoved. Its elements may be preceded by a check of their own, which asks
for the position a second time. -/
theorem unmoved_readArray (width : Nat) :
    Unmoved (@readArray (Offset σ extra) _ settings inner width)
      (readArray settings inner width) := by
  refine Unmoved.bind rfl fun header => ?_
  unfold Unmoved
  dsimp only
  split
  · rfl
  · refine unmoved_getPosition fun start => ?_
    refine (unmoved_within settings inner fun decode => ?_).bind fun _ =>
      (unmoved_checkConsumed .array header start).bind fun _ => rfl
    refine Unmoved.bind rfl fun (descriptor, shared) => ?_
    unfold Unmoved
    dsimp only
    split
    · exact (unmoved_checkConsumed .array header start).bind fun _ => rfl
    · rfl

/-- Reading what is behind a constructor is unmoved. Positions come into it only as differences,
in the check of what a container has consumed. -/
theorem unmoved_readWith (code : Code) :
    Unmoved (@readWith (Offset σ extra) _ settings inner code) (readWith settings inner code) := by
  cases code with
  | list8 => exact unmoved_readList settings inner 1
  | list32 => exact unmoved_readList settings inner 4
  | map8 => exact unmoved_readMap settings inner 1
  | map32 => exact unmoved_readMap settings inner 4
  | array8 => exact unmoved_readArray settings inner 1
  | array32 => exact unmoved_readArray settings inner 4
  | _ => rfl

/-- The readers of contained values are the same with an offset. -/
theorem inner_offset (levels : Nat) :
    @Decoder.inner (Offset σ extra) _ settings levels = @Decoder.inner σ _ settings levels := by
  induction levels with
  | zero => rfl
  | succ levels inductionHypothesis =>
    refine congrArg some (funext fun code => ?_)
    exact (congrArg (fun deeper => @readWith (Offset σ extra) _ settings deeper code)
      inductionHypothesis).trans (unmoved_readWith settings _ code)

/-- Reading a value is unmoved. -/
theorem unmoved_decodeValue :
    Unmoved (@decodeValue (Offset σ extra) _ settings) (decodeValue settings) := by
  refine Unmoved.bind rfl fun code => ?_
  rw [inner_offset]
  exact unmoved_readWith settings _ code

end Walk

/-- Two readings come to the same: to the same result, as many bytes behind one start as behind
another one, or to the same error. -/
inductive Concur [Source σ] (start start' : Nat) :
    EStateM.Result Error σ α → EStateM.Result Error σ α → Prop
  | ok {result : α} {after after' : σ}
      (level : Source.position after + start' = Source.position after' + start) :
      Concur start start' (.ok result after) (.ok result after')
  | error {error : Error} {after after' : σ} :
      Concur start start' (.error error after) (.error error after')

namespace Concur

variable [Source σ] {start start' start'' : Nat} {left middle right : EStateM.Result Error σ α}

/-- A reading comes to the same as itself. -/
theorem refl (start : Nat) (result : EStateM.Result Error σ α) :
    Concur start start result result := by
  cases result with
  | ok value after => exact .ok rfl
  | error error after => exact .error

/-- Coming to the same does not depend on which reading is the first. -/
theorem symm (concur : Concur start start' left right) : Concur start' start right left := by
  cases concur with
  | ok level => exact .ok level.symm
  | error => exact .error

/-- Readings that come to the same as a third one come to the same. -/
theorem trans (first : Concur start start' left middle)
    (second : Concur start' start'' middle right) : Concur start start'' left right := by
  cases first with
  | ok level =>
    cases second with
    | ok level' => exact .ok (by omega)
  | error =>
    cases second with
    | error => exact .error

end Concur

variable [Source σ] [Lawful σ] {rest : Bytes} {start start' : Nat} {source source' : σ}

/-- A computation that is unmoved and tracks itself comes to the same on two sources with the
same bytes to come. Each source is given the position of the other as its offset, and then they
are at the same position and coupled by their bytes. -/
theorem concur_of_tracks {compute : Fetch σ α} {left : Fetch (Offset σ start') α}
    {right : Fetch (Offset σ start) α} (unmoved : Unmoved left compute)
    (unmoved' : Unmoved right compute)
    (tracks : (level start' start).Tracks (level start' start).settled
      (level start' start).settled left right)
    (settled : Settled source rest start) (settled' : Settled source' rest start') :
    Concur start start' (compute source) (compute source') := by
  have same : compute source = left source := (congrFun unmoved source).symm
  have same' : compute source' = right source' := (congrFun unmoved' source').symm
  have follows := tracks source source' ⟨rest, start + start', trivial, ⟨start, rfl, settled⟩,
    start', Nat.add_comm .., settled'⟩
  cases ran : left source with
  | ok result after =>
    rw [ran] at follows
    obtain ⟨behind, ran', _, _, _, ⟨count, rfl, settled⟩, count', equal, settled'⟩ := follows
    have stop := Lawful.position_eq (Lawful.facing settled)
    have stop' := Lawful.position_eq (Lawful.facing settled')
    refine (congr (congrArg (Concur start start') (same.trans ran)) (same'.trans ran')).mpr (.ok ?_)
    rw [stop, stop', equal]
  | error error after =>
    rw [ran] at follows
    obtain ⟨⟨⟩⟩ | ⟨behind, ran', -⟩ := follows
    exact (congr (congrArg (Concur start start') (same.trans ran)) (same'.trans ran')).mpr .error

end Amqp.Decoder
