import Amqp.Proofs.Machine

/-!
# The machine does what the readers do

On every source whose position never falls, the machine comes to the same as the readers of
values. Its counter says how many of their levels are used up, it never exceeds the limit, and it
is back behind every operation. None of the cases that ought not to come up does.

The machine is coupled with the source under it. The coupling fixes how many levels the machine
is down, and a position that the source has reached: going one level down is tracked one level
further down, and a difference of positions is taken above the position where it starts.
-/

namespace Amqp

open Coupling

section Positions

variable {σ α : Type}

/-- The state that a computation leaves a source in, whether it fails or not. -/
def leaves (compute : Fetch σ α) (source : σ) : σ :=
  match compute source with
  | .ok _ after => after
  | .error _ after => after

/-- A source whose position never falls, whatever is asked of it. -/
class Source.Advances (σ : Type) [Source σ] : Prop where
  peek (source : σ) : Source.position source ≤ Source.position (leaves Source.peek source)
  read (length : Nat) (source : σ) :
    Source.position source ≤ Source.position (leaves (Source.read length) source)
  take (length : Nat) (source : σ) :
    Source.position source ≤ Source.position (leaves (Source.take length) source)
  skip (length : Nat) (source : σ) :
    Source.position source ≤ Source.position (leaves (Source.skip length) source)

/-- A request that a buffer grants or refuses does not lower its position. -/
theorem Buffer.position_le_leaves {request : Fetch Buffer α} {buffer : Buffer}
    (answered : (∃ given length, request buffer = .ok given (buffer.advance length)) ∨
      ∃ error, request buffer = .error error buffer) :
    Source.position buffer ≤ Source.position (leaves request buffer) := by
  unfold leaves
  rcases answered with ⟨_, _, granted⟩ | ⟨_, refused⟩
  · rw [granted]
    exact Nat.le_add_right _ _
  · simp only [refused, Nat.le_refl]

/-- The position of a buffer never falls. -/
instance : Source.Advances Buffer where
  peek _ := Nat.le_refl _
  read length buffer := by
    apply Buffer.position_le_leaves
    by_cases enough : length ≤ buffer.remaining
    · exact .inl ⟨_, _, dif_pos enough⟩
    · exact .inr ⟨_, dif_neg enough⟩
  take length buffer := by
    apply Buffer.position_le_leaves
    by_cases enough : length ≤ buffer.remaining
    · exact .inl ⟨_, _, if_pos enough⟩
    · exact .inr ⟨_, if_neg enough⟩
  skip length buffer := by
    apply Buffer.position_le_leaves
    by_cases enough : length ≤ buffer.remaining
    · exact .inl ⟨_, _, if_pos enough⟩
    · exact .inr ⟨_, if_neg enough⟩

/-- A request that sees of a stream what it draws does not lower its position, in any of the
three ways that drawing ends. Where the reader fails, the position stays. -/
theorem Stream.Asks.position_le {shape : Nat → Type}
    {request : (length : Nat) → Fetch Stream (shape length)}
    {given : (front : Bytes) → shape front.length} {counted : Nat → Nat}
    (asks : Stream.Asks request given counted) (length : Nat) (stream : Stream) :
    stream.position ≤ (leaves (request length) stream).position := by
  unfold leaves
  rcases stream.cases_draw length with ⟨front, after, rfl, drawn⟩ | ⟨bytes, after, few, drawn⟩ |
    ⟨bytes, failure, after, drawn⟩
  · rw [asks.met drawn]
    exact Nat.le_add_right _ _
  · rw [asks.ended few drawn]
    exact Nat.le_add_right _ _
  · simp only [asks.failed drawn, Nat.le_refl]

/-- The position of a stream never falls. -/
instance : Source.Advances Stream where
  peek stream := by
    change stream.position ≤ (leaves Stream.peek stream).position
    have peeks := stream.peeks
    unfold leaves
    generalize stream.peek = outcome at peeks ⊢
    cases peeks <;> exact Nat.le_refl _
  read := Stream.asks_read.position_le
  take := Stream.asks_take.position_le
  skip := Stream.asks_skip.position_le

end Positions

namespace Machine

open Decoder
open Source (Advances)

variable {σ α β : Type} [Source σ]

/-- A machine that is so many levels down on a source, never was deeper than the limit, has not
crashed, and whose source has reached a position. -/
structure Tied (settings : DecoderSettings) (depth floor : Nat) (machine : Machine σ)
    (source : σ) : Prop where
  source_eq : machine.source = source
  depth_eq : machine.depth = depth
  deepest_le : machine.deepest ≤ settings.maxDepth
  intact : machine.crash = none
  floor_le : floor ≤ Source.position source

/-- A machine on which nothing has happened is tied to its source. -/
theorem tied_start (settings : DecoderSettings) (source : σ) :
    Tied settings 0 0 (Machine.start source) source :=
  ⟨rfl, rfl, Nat.zero_le _, rfl, Nat.zero_le _⟩

/-- A machine so many levels down, beside the source under it. No failure is excused. -/
abbrev tied (σ : Type) [Source σ] (settings : DecoderSettings) (depth floor : Nat) :
    Coupling (Machine σ) σ :=
  mirror (Tied settings depth floor) fun _ => False

/-- A computation of the machine tracks one of the source under it. -/
abbrev Runs (settings : DecoderSettings) (depth floor : Nat) (compute : Fetch (Machine σ) α)
    (other : Fetch σ α) : Prop :=
  (tied σ settings depth floor).Tracks (Tied settings depth floor) (Tied settings depth floor)
    compute other

variable {settings : DecoderSettings} {depth floor : Nat}

/-- Asking the source of a machine tracks what is asked, if its position does not fall. The
machine itself does not change, so the counter and the record stay as they are. -/
theorem runs_ask {request : Fetch σ α}
    (advances : ∀ source, Source.position source ≤ Source.position (leaves request source)) :
    Runs settings depth floor (ask request) request := by
  rintro machine source ⟨rfl, counted, bounded, intact, reached⟩
  have further := Nat.le_trans reached (advances machine.source)
  unfold leaves at further
  unfold ask
  cases ran : request machine.source with
  | ok result after =>
    rw [ran] at further
    exact ⟨after, rfl, rfl, counted, bounded, intact, further⟩
  | error error after =>
    rw [ran] at further
    exact .inr ⟨after, rfl, rfl, counted, bounded, intact, further⟩

/-- A machine mirrors the source under it. -/
theorem mirrors_tied [Advances σ] :
    Mirrors (Tied (σ := σ) settings depth floor) fun _ => False where
  remaining_eq tied := by rw [← tied.source_eq]; rfl
  position_eq tied := by rw [← tied.source_eq]; rfl
  pending_eq tied := by rw [← tied.source_eq]; rfl
  peek := runs_ask Advances.peek
  read length := runs_ask (Advances.read length)
  take length := runs_ask (Advances.take length)
  skip length := runs_ask (Advances.skip length)

/-- A machine answers requests as the source under it does. -/
theorem aligned_tied [Advances σ] : (tied σ settings depth floor).Aligned :=
  mirrors_tied.aligned

omit [Source σ] in
/-- A difference that is not negative is taken. -/
theorem minus_of_le {larger smaller : Nat} (le : smaller ≤ larger) :
    (minus larger smaller : Fetch (Machine σ) Nat) = pure (larger - smaller) := if_pos le

/-- What is done behind a look at the position may rely on it as reached. This is where a floor
is raised: what starts there takes its differences above it, and behind it the old floor still
holds. -/
theorem runs_position {next : Nat → Fetch (Machine σ) α} {next' : Nat → Fetch σ α}
    (each : ∀ start, Runs settings depth start (next start) (next' start)) :
    Runs settings depth floor (Source.getPosition >>= next) (Source.getPosition >>= next') := by
  rintro machine source ⟨rfl, counted, bounded, intact, reached⟩
  have follows := each (Source.position machine.source) machine machine.source
    ⟨rfl, counted, bounded, intact, Nat.le_refl _⟩
  change (tied σ settings depth floor).Follows _ (next (Source.position machine.source) machine)
    (next' (Source.position machine.source) machine.source)
  have lower {after : Machine σ} {behind : σ}
      (related : Tied settings depth (Source.position machine.source) after behind) :
      Tied settings depth floor after behind :=
    { related with floor_le := Nat.le_trans reached related.floor_le }
  cases ran : next (Source.position machine.source) machine with
  | ok result after =>
    rw [ran] at follows
    obtain ⟨behind, same, related⟩ := follows
    exact ⟨behind, same, lower related⟩
  | error error after =>
    rw [ran] at follows
    rcases follows with excuse | ⟨behind, same, related⟩
    · exact excuse.elim
    · exact .inr ⟨behind, same, lower related⟩

/-- Coming up a level from below does not crash. -/
theorem ascend_of_tied {machine : Machine σ} {source : σ}
    (related : Tied settings (depth + 1) floor machine source) :
    ∃ after, ascend machine = .ok () after ∧ Tied settings depth floor after source := by
  obtain ⟨rfl, counted, bounded, intact, reached⟩ := related
  refine ⟨{ machine with depth }, ?_, rfl, rfl, bounded, intact, reached⟩
  unfold ascend
  rw [bind_of_ok (rfl : (get : Fetch (Machine σ) _) machine = .ok machine machine), counted,
    minus_of_le (Nat.le_add_left 1 depth)]
  rfl

/-- A machine so many levels down and a reader of the values inside: either no level is left on
both sides, or the machine tracks the reader one level further down. -/
inductive Levelled (settings : DecoderSettings) (depth : Nat)
    (decode : Code → Fetch (Machine σ) α) : Decoder.Inner σ α → Prop
  | exhausted (full : settings.maxDepth ≤ depth) : Levelled settings depth decode none
  | deeper {decode' : Code → Fetch σ α} (room : depth < settings.maxDepth)
      (runs : ∀ floor code, Runs settings (depth + 1) floor (decode code) (decode' code)) :
      Levelled settings depth decode (some decode')

/-- Going one level down is tracked, and comes back. The counter is raised and lowered by one on
both ways out, behind a result and behind a failure, and it is raised only where the limit leaves
room, so it neither exceeds the limit nor falls below zero. -/
theorem runs_nested {decode : Code → Fetch (Machine σ) α} {inner : Decoder.Inner σ α}
    (levelled : Levelled settings depth decode inner) {body : Fetch (Machine σ) β}
    {body' : (Code → Fetch σ α) → Fetch σ β}
    (each : ∀ decode', (∀ floor code,
      Runs settings (depth + 1) floor (decode code) (decode' code)) →
      Runs settings (depth + 1) floor body (body' decode')) :
    Runs settings depth floor (nested settings body) (within settings inner body') := by
  intro machine source related
  obtain ⟨rfl, counted, bounded, intact, reached⟩ := id related
  unfold nested
  rw [counted]
  cases levelled with
  | exhausted full =>
    rw [if_pos full]
    exact .inr ⟨machine.source, rfl, related⟩
  | @deeper decode' room runs =>
    rw [if_neg (Nat.not_le_of_lt room)]
    have follows := each decode' runs machine.descend machine.source
      ⟨rfl, congrArg (· + 1) counted, Nat.max_le.mpr ⟨bounded, counted ▸ room⟩, intact, reached⟩
    change (tied σ settings depth floor).Follows _ _ (body' decode' machine.source)
    cases ran : body machine.descend with
    | ok result after =>
      rw [ran] at follows
      obtain ⟨behind, same, related⟩ := follows
      obtain ⟨last, came, related⟩ := ascend_of_tied related
      simp only [bind_of_ok came]
      exact ⟨behind, same, related⟩
    | error error after =>
      rw [ran] at follows
      rcases follows with excuse | ⟨behind, same, related⟩
      · exact excuse.elim
      · obtain ⟨last, came, related⟩ := ascend_of_tied related
        simp only [bind_of_ok came]
        exact .inr ⟨behind, same, related⟩

/-- A state of a machine and its source stands behind a failure as well. -/
theorem failed_of_tied (machine : Machine σ) (source : σ)
    (related : Tied settings depth floor machine source) :
    (tied σ settings depth floor).failed machine source := related

section Readers

variable [Advances σ]

/-- Reading the prefix of a container is tracked behind the constructor of a container. -/
theorem runs_readPrefix {code : Code} {width : Nat} (category : code.category = .compound width) :
    Runs settings depth floor (readPrefix code) (readHeader width : Fetch σ Header) := by
  have sound : (tied σ settings depth floor).Sound := aligned_tied.toSound
  unfold readPrefix readHeader
  rw [category]
  refine (tracks_readNat sound width).bind fun declared =>
    tracks_unless failed_of_tied fun enough => (sound.ensures declared).bind fun _ => ?_
  rw [minus_of_le (Nat.le_of_not_lt enough), pure_bind]
  exact (tracks_readNat sound width).bind fun _ =>
    tracks_unless failed_of_tied fun _ => tracks_pure _

/-- The check of a container is tracked from where its content started. -/
theorem runs_checkTaken (container : Kind) (header : Header) (start : Nat) :
    Runs settings depth start (checkTaken container header start)
      (checkConsumed container header start : Fetch σ Unit) := by
  intro machine source related
  have same : Source.position machine = Source.position source := mirrors_tied.position_eq related
  unfold checkTaken checkConsumed
  rw [bind_of_ok (rfl : Source.getPosition machine = .ok (Source.position machine) machine),
    bind_of_ok (rfl : Source.getPosition source = .ok (Source.position source) source), same,
    minus_of_le related.floor_le, pure_bind]
  exact tracks_ite (fun _ => tracks_throw failed_of_tied _) (fun _ => tracks_pure ()) machine
    source related

/-- Reading a payload is tracked behind a constructor with a length. -/
theorem runs_readBytes (code : Code) {width : Nat} (category : code.category = .variable width) :
    Runs settings depth floor (readBytes code) (readPayload width : Fetch σ Bytes) := by
  unfold readBytes
  rw [category]
  exact tracks_readPayload aligned_tied.toSound width

/-- Reading a text is tracked behind a constructor with a length. -/
theorem runs_readString (code : Code) {width : Nat}
    (category : code.category = .variable width) :
    Runs settings depth floor (readString settings code)
      (readText settings width : Fetch σ String) :=
  (runs_readBytes code category).bind fun _ => tracks_lift aligned_tied.toSound _

/-- Reading a descriptor is tracked. The machine reads a number through the reader of all such
numbers, which has a case for this constructor, and refuses the constructors that are none of a
descriptor before that. -/
theorem runs_readLabel :
    Runs settings depth floor (readLabel settings) (readDescriptor settings : Fetch σ _) := by
  have sound : (tied σ settings depth floor).Sound := aligned_tied.toSound
  apply (tracks_readCode sound).bind
  intro code
  cases code with
  | ulong0 => exact tracks_pure _
  | smallUlong =>
    have joined : (readUlong .smallUlong >>= fun number => pure (.code number) :
        Fetch (Machine σ) Descriptor) =
          Source.readUInt8 >>= fun byte => pure (.code byte.toUInt64) := by
      simp only [readUlong, bind_assoc, pure_bind]
    change Runs settings depth floor (readUlong .smallUlong >>= fun number => pure (.code number))
      (Source.readUInt8 >>= fun byte => pure (Descriptor.code byte.toUInt64))
    rw [joined]
    exact (tracks_readUInt8 sound).map fun byte => Descriptor.code byte.toUInt64
  | ulong => exact (tracks_readUInt64 sound).map Descriptor.code
  | symbol8 => exact (runs_readString .symbol8 rfl).map Descriptor.symbol
  | symbol32 => exact (runs_readString .symbol32 rfl).map Descriptor.symbol
  | _ => exact tracks_throw failed_of_tied _

/-- Reading the shared constructor of an array is tracked. A descriptor is followed by a
constructor that must not announce another one; all others are left to those who read the
elements. -/
theorem runs_readShared :
    Runs settings depth floor (readShared settings)
      (readArrayConstructor settings : Fetch σ _) := by
  have sound : (tied σ settings depth floor).Sound := aligned_tied.toSound
  apply (tracks_readCode sound).bind
  intro code
  cases code with
  | described =>
    refine runs_readLabel.bind fun descriptor => (tracks_readCode sound).bind fun shared => ?_
    cases shared with
    | described => exact tracks_throw failed_of_tied _
    | _ => exact tracks_pure _
  | _ => exact tracks_pure _

section Containers

variable {decode : Code → Fetch (Machine σ) Value} {inner : Decoder.Inner σ Value}
  (levelled : Levelled settings depth decode inner)

include levelled

/-- Reading a descriptor and a body is tracked. -/
theorem runs_readParts : Runs settings depth floor (readParts settings decode)
    (readDescribedParts settings inner) :=
  runs_nested levelled fun _ runs =>
    runs_readLabel.bind fun descriptor =>
      (tracks_coded aligned_tied.toSound (runs floor)).map fun body => (descriptor, body)

/-- Reading a described value is tracked. -/
theorem runs_readResolved : Runs settings depth floor (readResolved settings decode)
    (readDescribed settings inner) :=
  (runs_readParts levelled).bind fun _ => tracks_lift aligned_tied.toSound _

/-- Reading a list is tracked. -/
theorem runs_readItems {code : Code} {width : Nat} (category : code.category = .compound width) :
    Runs settings depth floor (readItems settings decode code)
      (readList settings inner width) :=
  (runs_readPrefix category).bind fun header => runs_position fun start =>
    (runs_nested levelled fun _ runs =>
      tracks_collect (tracks_coded aligned_tied.toSound (runs start)) header.count []).bind fun _ =>
        (runs_checkTaken .list header start).map fun _ => _

/-- Reading a map is tracked. -/
theorem runs_readEntries {code : Code} {width : Nat} (category : code.category = .compound width) :
    Runs settings depth floor (readEntries settings decode code)
      (readMap settings inner width) := by
  refine (runs_readPrefix category).bind fun header => tracks_unless failed_of_tied fun _ =>
    runs_position fun start => (runs_nested levelled fun _ runs =>
      tracks_collect ?_ (header.count / 2) []).bind fun _ =>
        (runs_checkTaken .map header start).map fun _ => _
  have coded := tracks_coded aligned_tied.toSound (runs start)
  exact coded.bind fun key => coded.map fun value => (key, value)

/-- Reading an array is tracked. -/
theorem runs_readMembers {code : Code} {width : Nat} (category : code.category = .compound width) :
    Runs settings depth floor (readMembers settings decode code)
      (readArray settings inner width) := by
  refine (runs_readPrefix category).bind fun header => tracks_ite (fun _ => tracks_pure _)
    fun _ => runs_position fun start => (runs_nested levelled fun decode' runs =>
      runs_readShared.bind fun found => ?_).bind fun _ =>
        (runs_checkTaken .array header start).map fun _ => _
  obtain ⟨descriptor, shared⟩ := found
  have elements := tracks_collect
    (tracks_readElement aligned_tied.toSound (runs start shared) descriptor) header.count []
  exact tracks_ite (fun _ => (runs_checkTaken .array header start).bind fun _ => elements)
    fun _ => elements

omit levelled in
/-- Reading what is behind a constructor of fixed width is tracked: there is a case for it, and
nothing inside. -/
theorem runs_readBehind_fixed {code : Code} {width : Nat}
    (fixed : code.category = .fixed width) : Runs settings depth floor
      (readBehind settings decode code) (readWith settings inner code) := by
  have known : readBehind settings decode code = readWith settings none code := by
    cases code <;> first | rfl | cases fixed
  have scalar : readWith settings inner code = readWith settings none code := by
    cases code <;> first | rfl | cases fixed
  rw [known, scalar]
  exact tracks_readWith aligned_tied.toSound (.refl _ settings) (.exhausted rfl) code

/-- Reading what is behind a constructor is tracked: the class of the constructor leads to a
reader that has a case for it. The cases are those of the constructors, and each is the lemma of
its class, which only asks that the class be right. -/
theorem runs_readBehind (code : Code) : Runs settings depth floor
    (readBehind settings decode code) (readWith settings inner code) := by
  cases code with
  | described => exact (runs_readResolved levelled).map Value.described
  | binary8 => exact (runs_readBytes .binary8 rfl).map Value.binary
  | binary32 => exact (runs_readBytes .binary32 rfl).map Value.binary
  | string8 => exact (runs_readString .string8 rfl).map Value.string
  | string32 => exact (runs_readString .string32 rfl).map Value.string
  | symbol8 => exact (runs_readString .symbol8 rfl).map Value.symbol
  | symbol32 => exact (runs_readString .symbol32 rfl).map Value.symbol
  | list8 => exact runs_readItems levelled rfl
  | list32 => exact runs_readItems levelled rfl
  | map8 => exact runs_readEntries levelled rfl
  | map32 => exact runs_readEntries levelled rfl
  | array8 => exact runs_readMembers levelled rfl
  | array32 => exact runs_readMembers levelled rfl
  | _ => exact runs_readBehind_fixed rfl

omit levelled in
/-- Passing over what is behind a constructor is tracked. The cases are those of the classes,
since nothing but the class of a constructor is used; only a described value goes further down.
-/
theorem runs_skipBehind {skip : Code → Fetch (Machine σ) Unit} {inner : Decoder.Inner σ Unit}
    (levelled : Levelled settings depth skip inner) (code : Code) : Runs settings depth floor
      (skipBehind settings skip code) (skipWith settings inner code) := by
  have sound : (tied σ settings depth floor).Sound := aligned_tied.toSound
  unfold skipBehind skipWith
  cases category : code.category with
  | fixed width => exact sound.skip width
  | «variable» width =>
    exact (tracks_readNat sound width).bind fun length =>
      (sound.ensures length).bind fun _ => sound.skip length
  | compound width => exact (runs_readPrefix category).bind fun header => sound.skip header.size
  | described =>
    exact runs_nested levelled fun _ runs =>
      (tracks_coded aligned_tied.toSound (runs floor)).bind fun _ =>
        tracks_coded aligned_tied.toSound (runs floor)

end Containers

section Operations

variable {beyond : Beyond σ}

/-- On as much fuel as levels are left, the machine tracks the reader of so many levels. -/
theorem levelled_decode {levels : Nat} (all : depth + levels = settings.maxDepth) :
    Levelled settings depth (decode settings beyond levels) (inner settings levels) := by
  induction levels generalizing depth with
  | zero => exact .exhausted (Nat.le_of_eq all.symm)
  | succ levels inductionHypothesis =>
    refine .deeper (by omega) fun floor code => runs_readBehind (inductionHypothesis ?_) code
    omega

/-- The same of passing over values. -/
theorem levelled_skip {levels : Nat} (all : depth + levels = settings.maxDepth) :
    Levelled settings depth (skip settings beyond levels) (innerSkip settings levels) := by
  induction levels generalizing depth with
  | zero => exact .exhausted (Nat.le_of_eq all.symm)
  | succ levels inductionHypothesis =>
    refine .deeper (by omega) fun floor code => runs_skipBehind (inductionHypothesis ?_) code
    omega

variable (settings beyond)

/-- Reading a value is tracked. -/
theorem runs_decodeValue : Runs settings 0 floor (decodeValue settings beyond)
    (Decoder.decodeValue settings : Fetch σ Value) :=
  (tracks_readCode aligned_tied.toSound).bind fun code =>
    runs_readBehind (levelled_decode (Nat.zero_add _)) code

/-- Reading values until none is left is tracked. -/
theorem runs_decodeUntilEnd (bound : Nat) (earlier : List Value) :
    Runs settings 0 floor (decodeUntilEnd settings beyond bound earlier)
      (Decoder.decodeUntilEnd settings bound earlier : Fetch σ _) := by
  induction bound generalizing earlier with
  | zero => exact tracks_pure _
  | succ bound inductionHypothesis =>
    exact (aligned_tied.peek.map Option.isSome).bind fun more => tracks_ite
      (fun _ => (runs_decodeValue settings beyond).bind fun value =>
        inductionHypothesis (value :: earlier)) fun _ => tracks_pure _

omit beyond in
/-- Reading the prefix of a list is tracked. -/
theorem runs_decodeListHeader : Runs settings 0 floor decodeListHeader
    (Decoder.decodeListHeader : Fetch σ Header) := by
  have sound : (tied σ settings 0 floor).Sound := aligned_tied.toSound
  apply (tracks_peekCode sound).bind
  intro code
  cases code with
  | list0 => exact tracks_skipShown.map fun _ => _
  | list8 => exact tracks_skipShown.bind fun _ => runs_readPrefix rfl
  | list32 => exact tracks_skipShown.bind fun _ => runs_readPrefix rfl
  | _ => exact tracks_throw (fun _ _ related => sound.failed_of_facing related.1) _

/-- Reading a value that must be described is tracked. -/
theorem runs_decodeDescribed : Runs settings 0 floor (decodeDescribed settings beyond)
    (Decoder.decodeDescribed settings : Fetch σ Described) := by
  have sound : (tied σ settings 0 floor).Sound := aligned_tied.toSound
  exact (tracks_peekCode sound).bind fun _ =>
    tracks_unless (fun _ _ related => sound.failed_of_facing related.1) fun _ =>
      tracks_skipShown.bind fun _ => runs_readResolved (levelled_decode (Nat.zero_add _))

/-- Every operation is tracked, and comes back to where it began. On the machine reading
everything has its bound from the same bytes that can still arrive as on the source. -/
theorem runs_run (operation : Operation) : Runs settings 0 floor (run settings beyond operation)
    (operation.run settings : Fetch σ Answer) := by
  have aligned : (tied σ settings 0 floor).Aligned := aligned_tied
  cases operation with
  | hasRemaining => exact (aligned.peek.map Option.isSome).map Answer.present
  | peekCode =>
    exact ((tracks_peekCode aligned.toSound).imp (fun _ _ => id) fun _ _ shown => shown.1).map
      Answer.code
  | value => exact (runs_decodeValue settings beyond).map Answer.value
  | typed type =>
    exact ((runs_decodeValue settings beyond).bind fun _ => tracks_lift aligned.toSound _).map
      Answer.value
  | skip =>
    exact ((tracks_readCode aligned.toSound).bind fun code =>
      runs_skipBehind (levelled_skip (Nat.zero_add _)) code).map fun _ => Answer.passed
  | listHeader => exact (runs_decodeListHeader settings).map Answer.header
  | described => exact (runs_decodeDescribed settings beyond).map Answer.described
  | all =>
    have every : Runs settings 0 floor
        (get >>= fun machine => decodeUntilEnd settings beyond (Source.pending machine + 1) [])
        (Decoder.decodeAll settings : Fetch σ _) := by
      intro machine source related
      have follows := runs_decodeUntilEnd settings beyond (Source.pending machine + 1) [] machine
        source related
      unfold Decoder.decodeAll
      rw [bind_of_ok (rfl : (get : Fetch (Machine σ) _) machine = .ok machine machine),
        bind_of_ok (rfl : (get : Fetch σ σ) source = .ok source source),
        ← aligned.pending_eq related]
      exact follows
    exact every.map Answer.values

/-- An operation is recorded as it is without a machine, and leaves machine and source tied.
Nothing is asked of the outcome: behind a failure the two are tied as well, since the coupling
excuses none. -/
theorem tied_perform (operation : Operation) {machine : Machine σ} {source : σ}
    (related : Tied settings 0 floor machine source) :
    (perform settings beyond operation machine).1 =
        (Amqp.perform settings operation source).1 ∧
      Tied settings 0 floor (perform settings beyond operation machine).2
        (Amqp.perform settings operation source).2 := by
  have follows := runs_run settings beyond operation machine source related
  unfold perform
  cases ran : run settings beyond operation machine with
  | ok answer after =>
    rw [ran] at follows
    obtain ⟨behind, same, related⟩ := follows
    rw [perform_of_ok same, ← mirrors_tied.position_eq related]
    exact ⟨rfl, related⟩
  | error error after =>
    rw [ran] at follows
    rcases follows with excuse | ⟨behind, same, related⟩
    · exact excuse.elim
    · rw [perform_of_error same, ← mirrors_tied.position_eq related]
      exact ⟨rfl, related⟩

/-- A session is recorded as it is without a machine, and leaves machine and source tied. -/
theorem tied_session (operations : List Operation) {machine : Machine σ} {source : σ}
    (related : Tied settings 0 floor machine source) :
    (session settings beyond operations machine).1 =
        (Amqp.session settings operations source).1 ∧
      Tied settings 0 floor (session settings beyond operations machine).2
        (Amqp.session settings operations source).2 := by
  induction operations generalizing machine source with
  | nil => exact ⟨rfl, related⟩
  | cons operation later inductionHypothesis =>
    obtain ⟨first, related⟩ := tied_perform settings beyond operation related
    obtain ⟨rest, related⟩ := inductionHypothesis related
    exact ⟨by rw [session, Amqp.session, first, rest], related⟩

end Operations

end Readers

end Machine

end Amqp
