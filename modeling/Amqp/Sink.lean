import Amqp.Bytes

/-!
# Sinks of bytes

A sink holds the bytes written so far. Besides growing at its end it can be patched,
where bytes already written are replaced, and widened, where a gap of zero bytes is
opened in the middle. Both are refused outside what has been written. Cutting back to
a length beyond the end changes nothing.

A gap is opened in one of two ways: by splicing zeros in, or by growing at the end,
moving the tail, and clearing what it left. The two ways give the same bytes. Both are
made of steps on stored bytes, each of which is refused for a range out of bounds.
-/

namespace Amqp

/-- How a sink opens a gap. -/
inductive Growth where
  | splice
  | shift
  deriving DecidableEq, Repr

/-- The bytes written, and how gaps are opened among them. -/
structure Sink where
  growth : Growth
  content : Array UInt8

namespace Sink

/-- A sink without bytes. -/
def empty (growth : Growth) : Sink := ⟨growth, #[]⟩

/-- The number of bytes written. -/
def written (sink : Sink) : Nat := sink.content.size

/-- The bytes written. -/
def toBytes (sink : Sink) : Bytes := sink.content.toList

/-- Write bytes at the end. -/
def put (sink : Sink) (bytes : Bytes) : Sink :=
  { sink with content := sink.content ++ bytes }

/-- Replace the bytes from an offset on. -/
def overwrite (content : Array UInt8) (offset : Nat) : Bytes → Array UInt8
  | [] => content
  | byte :: rest => overwrite (content.setIfInBounds offset byte) (offset + 1) rest

/-- Whether so many bytes from an offset on are written. -/
def covers (sink : Sink) (offset length : Nat) : Bool := offset + length ≤ sink.written

/-- Replace bytes already written. -/
def patch (sink : Sink) (offset : Nat) (bytes : Bytes) : Sink :=
  { sink with content := overwrite sink.content offset bytes }

/-- Whether a range lies among stored bytes. -/
def inBounds (content : Array UInt8) (start stop : Nat) : Bool :=
  start ≤ stop && stop ≤ content.size

/-- Copy bytes into a range of the same length. -/
def copyFrom (content : Array UInt8) (start stop : Nat) (bytes : Bytes) : Option (Array UInt8) :=
  if inBounds content start stop && bytes.length == stop - start then
    some (overwrite content start bytes)
  else none

/-- Copy a range to a target among the same bytes. The two may overlap: what is copied
is what stood in the range before. -/
def copyWithin (content : Array UInt8) (start stop target : Nat) : Option (Array UInt8) :=
  if inBounds content start stop && target ≤ content.size - (stop - start) then
    some (overwrite content target (content.extract start stop).toList)
  else none

/-- Set a range to one byte. -/
def fill (content : Array UInt8) (start stop : Nat) (byte : UInt8) : Option (Array UInt8) :=
  if inBounds content start stop then
    some (overwrite content start (List.replicate (stop - start) byte))
  else none

/-- Replace a range by any number of bytes. -/
def splice (content : Array UInt8) (start stop : Nat) (bytes : Bytes) : Option (Array UInt8) :=
  if inBounds content start stop then
    some (content.extract 0 start ++ bytes ++ content.extract stop content.size)
  else none

/-- Cut back to a size, or grow to it with one byte. -/
def resize (content : Array UInt8) (size : Nat) (byte : UInt8) : Array UInt8 :=
  if size ≤ content.size then content.extract 0 size
  else content ++ Array.replicate (size - content.size) byte

/-- Replace bytes, unless some of the range is not written yet. -/
def patch? (sink : Sink) (offset : Nat) (bytes : Bytes) : Option Sink := do
  let content ← copyFrom sink.content offset (offset + bytes.length) bytes
  return { sink with content }

/-- Zeros spliced in at an offset. -/
def spliced (content : Array UInt8) (offset length : Nat) : Array UInt8 :=
  content.extract 0 offset ++ Array.replicate length 0 ++ content.extract offset content.size

/-- Zeros at an offset after growing at the end, moving the tail and clearing the gap. -/
def shifted (content : Array UInt8) (offset length : Nat) : Array UInt8 :=
  let grown := content ++ Array.replicate length 0
  let moved := grown.extract 0 (offset + length) ++ grown.extract offset content.size
  moved.extract 0 offset ++ Array.replicate length 0 ++
    moved.extract (offset + length) moved.size

/-- Open a gap of zeros at an offset among the bytes written. -/
def widen (sink : Sink) (offset length : Nat) : Sink :=
  match sink.growth with
  | .splice => { sink with content := spliced sink.content offset length }
  | .shift => { sink with content := shifted sink.content offset length }

/-- Open a gap of zeros, unless the offset lies beyond the end. -/
def widen? (sink : Sink) (offset length : Nat) : Option Sink :=
  match sink.growth with
  | .splice => do
    let content ← splice sink.content offset offset (List.replicate length 0)
    return { sink with content }
  | .shift => do
    let grown := resize sink.content (sink.written + length) 0
    let moved ← copyWithin grown offset sink.written (offset + length)
    let content ← fill moved offset (offset + length) 0
    return { sink with content }

/-- Cut back to a length. -/
def truncate (sink : Sink) (length : Nat) : Sink :=
  { sink with content := sink.content.extract 0 length }

/-- Writing appends. -/
@[simp] theorem toBytes_put (sink : Sink) (bytes : Bytes) :
    (sink.put bytes).toBytes = sink.toBytes ++ bytes := by
  simp [put, toBytes]

/-- What is written is counted in bytes. -/
theorem written_eq_length (sink : Sink) : sink.written = sink.toBytes.length := by
  simp [written, toBytes]

/-- Writing keeps the bytes in front. -/
theorem take_toBytes_put (sink : Sink) (bytes : Bytes) :
    (sink.put bytes).toBytes.take sink.written = sink.toBytes := by
  rw [toBytes_put, written_eq_length, List.take_left]

/-- Replacing bytes keeps the length. -/
@[simp] theorem size_overwrite (content : Array UInt8) (offset : Nat) (bytes : Bytes) :
    (overwrite content offset bytes).size = content.size := by
  induction bytes generalizing content offset with
  | nil => rfl
  | cons byte rest inductionHypothesis => simp [overwrite, inductionHypothesis]

/-- Replacing bytes keeps what stands in front of them and behind them. The induction is on the
new bytes: each one replaces the first byte that is still to be replaced, and then belongs to the
front. -/
theorem toList_overwrite {before middle after bytes : Bytes} {content : Array UInt8}
    (split : content.toList = before ++ middle ++ after) (same : middle.length = bytes.length) :
    (overwrite content before.length bytes).toList = before ++ bytes ++ after := by
  induction bytes generalizing content before middle with
  | nil =>
    obtain rfl := List.length_eq_zero_iff.mp same
    simpa [overwrite] using split
  | cons byte rest inductionHypothesis =>
    cases middle with
    | nil => cases same
    | cons first later =>
      rw [overwrite]
      have step : (content.setIfInBounds before.length byte).toList =
          before ++ [byte] ++ later ++ after := by
        rw [Array.toList_setIfInBounds, split]
        simp
      have length : (before ++ [byte]).length = before.length + 1 := by simp
      rw [← length, inductionHypothesis step (Nat.succ.inj same)]
      simp

/-- Cutting back keeps the bytes before the length. -/
@[simp] theorem toBytes_truncate (sink : Sink) (length : Nat) :
    (sink.truncate length).toBytes = sink.toBytes.take length := by
  simp [truncate, toBytes]

/-- What lies from an offset to the end. -/
theorem toList_extract_to_end (content : Array UInt8) (start : Nat) :
    (content.extract start content.size).toList = content.toList.drop start := by
  have whole : (content.toList.drop start).take (content.size - start) =
      content.toList.drop start := List.take_of_length_le (by simp)
  simp [whole]

/-- Splicing keeps what lies before and behind the offset. -/
theorem toList_spliced (content : Array UInt8) (offset length : Nat) :
    (spliced content offset length).toList =
      content.toList.take offset ++ List.replicate length 0 ++ content.toList.drop offset := by
  rw [spliced, Array.toList_append, toList_extract_to_end]
  simp

/-- Growing, moving and clearing, as lists. -/
theorem toList_shifted (content : Array UInt8) (offset length : Nat) :
    (shifted content offset length).toList =
      let grown := content.toList ++ List.replicate length 0
      let moved := grown.take (offset + length) ++ (grown.drop offset).take (content.size - offset)
      moved.take offset ++ List.replicate length 0 ++ moved.drop (offset + length) := by
  rw [shifted, Array.toList_append, toList_extract_to_end]
  simp only [Array.toList_append, Array.toList_extract, List.extract, Array.toList_replicate,
    Nat.sub_zero, List.drop_zero]

/-- Both ways of opening a gap give the same bytes. Where the gap is wider than the tail, some of
the zeros it is cleared with are already there, and where it is narrower, the tail is moved over
a part of itself; neither is to be seen in the end. -/
theorem shifted_eq_spliced {content : Array UInt8} {offset : Nat} (within : offset ≤ content.size)
    (length : Nat) : shifted content offset length = spliced content offset length := by
  apply Array.toList_inj.1
  rw [toList_spliced, toList_shifted]
  obtain ⟨bytes⟩ := content
  have inside : offset ≤ bytes.length := within
  obtain ⟨before, after, rfl, rfl⟩ := Bytes.exists_append_of_le inside
  have counted : (before ++ after).toArray.size - before.length = after.length := by simp
  have tail : ((before ++ after ++ List.replicate length (0 : UInt8)).drop before.length).take
      after.length = after := by simp
  have head : (before ++ after ++ List.replicate length (0 : UInt8)).take
      (before.length + length) = before ++ (after ++ List.replicate length 0).take length := by
    rw [List.append_assoc, List.take_length_add_append]
  have long : ((after ++ List.replicate length (0 : UInt8)).take length).length = length := by simp
  simp only [counted, tail, head]
  rw [List.append_assoc before, List.take_left', List.drop_length_add_append]
  · conv =>
      lhs
      rw [show length = ((after ++ List.replicate length (0 : UInt8)).take length).length from
        long.symm]
    simp
  · rfl

section Steps

variable {content : Array UInt8} {before middle after bytes : Bytes}

/-- Bytes are counted alike in an array and in its list. -/
theorem size_of_toList (split : content.toList = bytes) : content.size = bytes.length := by
  rw [← split, Array.length_toList]

/-- Bytes are copied into a range among those stored. -/
theorem copyFrom_of_split (split : content.toList = before ++ middle ++ after)
    (same : middle.length = bytes.length) : ∃ copied,
      copyFrom content before.length (before.length + bytes.length) bytes = some copied ∧
        copied.toList = before ++ bytes ++ after := by
  refine ⟨_, if_pos ?_, toList_overwrite split same⟩
  have size := size_of_toList split
  simp only [List.length_append] at size
  simp [inBounds]
  omega

/-- Bytes are not copied into a range that goes beyond those stored. -/
theorem copyFrom_of_lt {start stop : Nat} (beyond : content.size < stop) :
    copyFrom content start stop bytes = none := by
  simp [copyFrom, inBounds, Nat.not_le_of_lt beyond]

/-- What stands in a range is copied to a target, whether or not the two overlap. What is copied
is taken out before anything is replaced, so the two splits of the bytes need not fit together.
-/
theorem copyWithin_of_split {front middle back : Bytes}
    (split : content.toList = before ++ bytes ++ after)
    (target : content.toList = front ++ middle ++ back) (same : middle.length = bytes.length) :
    ∃ moved, copyWithin content before.length (before.length + bytes.length) front.length =
      some moved ∧ moved.toList = front ++ bytes ++ back := by
  have range : (content.extract before.length (before.length + bytes.length)).toList = bytes := by
    simp [split]
  refine ⟨_, if_pos ?_, ?_⟩
  · have size := size_of_toList split
    have size' := size_of_toList target
    simp only [List.length_append] at size size'
    simp [inBounds]
    omega
  · rw [range]
    exact toList_overwrite target same

/-- Nothing is copied from a range that ends before it starts. -/
theorem copyWithin_of_lt {start stop target : Nat} (reversed : stop < start) :
    copyWithin content start stop target = none := by
  simp [copyWithin, inBounds, Nat.not_le_of_lt reversed]

/-- A range among stored bytes is set to one byte. -/
theorem fill_of_split (split : content.toList = before ++ middle ++ after) (byte : UInt8) :
    ∃ filled, fill content before.length (before.length + middle.length) byte = some filled ∧
      filled.toList = before ++ List.replicate middle.length byte ++ after := by
  refine ⟨_, if_pos ?_, ?_⟩
  · have size := size_of_toList split
    simp only [List.length_append] at size
    simp [inBounds]
    omega
  · rw [Nat.add_sub_cancel_left]
    exact toList_overwrite split List.length_replicate.symm

/-- Stored bytes grow at their end. -/
theorem toList_resize (content : Array UInt8) (length : Nat) (byte : UInt8) :
    (resize content (content.size + length) byte).toList =
      content.toList ++ List.replicate length byte := by
  cases length with
  | zero => simp [resize]
  | succ length =>
    have grows : ¬content.size + (length + 1) ≤ content.size := by omega
    simp [resize, grows]

/-- Bytes are spliced in at an offset among those stored. -/
theorem splice_of_split (split : content.toList = before ++ after) (bytes : Bytes) :
    ∃ spliced, splice content before.length before.length bytes = some spliced ∧
      spliced.toList = before ++ bytes ++ after := by
  refine ⟨_, if_pos ?_, ?_⟩
  · have size := size_of_toList split
    rw [List.length_append] at size
    simp [inBounds]
    omega
  · rw [Array.toList_append, toList_extract_to_end]
    simp [split]

/-- Nothing is spliced in beyond the end. -/
theorem splice_of_lt {start stop : Nat} (beyond : content.size < stop) :
    splice content start stop bytes = none := by
  simp [splice, inBounds, Nat.not_le_of_lt beyond]

end Steps

/-- Bytes written are replaced by as many others. -/
theorem patch?_of_split {sink : Sink} {before middle after bytes : Bytes}
    (split : sink.toBytes = before ++ middle ++ after) (same : middle.length = bytes.length) :
    ∃ content, sink.patch? before.length bytes = some { sink with content } ∧
      content.toList = before ++ bytes ++ after := by
  obtain ⟨copied, ran, result⟩ := copyFrom_of_split split same
  exact ⟨copied, by simp [patch?, ran], result⟩

/-- Nothing is replaced beyond the end. -/
theorem patch?_of_lt {sink : Sink} {offset : Nat} {bytes : Bytes}
    (beyond : sink.written < offset + bytes.length) : sink.patch? offset bytes = none := by
  simp [patch?, copyFrom_of_lt beyond]

/-- A gap is opened at an offset among the bytes written, in either way. Where the tail moves it
may overlap itself, and the gap may be wider or narrower than the tail. -/
theorem widen?_of_split {sink : Sink} {before after : Bytes}
    (split : sink.toBytes = before ++ after) (length : Nat) :
    ∃ content, sink.widen? before.length length = some { sink with content } ∧
      content.toList = before ++ List.replicate length 0 ++ after := by
  obtain ⟨growth, content⟩ := sink
  cases growth with
  | splice =>
    obtain ⟨spliced, ran, result⟩ := splice_of_split split (List.replicate length 0)
    exact ⟨spliced, by simp [widen?, ran], result⟩
  | shift =>
    have size := size_of_toList split
    have grown := toList_resize content length 0
    rw [show content.toList = before ++ after from split] at grown
    rw [List.length_append] at size
    -- The tail moves to the end, over whatever stands there: some of itself and some of the zeros.
    have many : length ≤ (after ++ List.replicate length 0).length := by simp
    obtain ⟨left, covered, cut, left_length⟩ := Bytes.exists_append_of_le many
    have covered_length : covered.length = after.length := by
      have total := congrArg List.length cut
      simp only [List.length_append, List.length_replicate] at total
      omega
    have target : (resize content (content.size + length) 0).toList =
        (before ++ left) ++ covered ++ [] := by
      rw [grown, List.append_assoc, cut, List.append_nil, List.append_assoc]
    obtain ⟨moved, ran, result⟩ := copyWithin_of_split grown target covered_length
    obtain ⟨filled, ran', result'⟩ := fill_of_split (result.trans (List.append_nil _)) 0
    rw [List.length_append, left_length, ← size] at ran
    rw [left_length] at ran' result'
    exact ⟨filled, by simp [widen?, written, ran, ran'], result'⟩

/-- No gap is opened beyond the end. -/
theorem widen?_of_lt {sink : Sink} {offset : Nat} (beyond : sink.written < offset) (length : Nat) :
    sink.widen? offset length = none := by
  obtain ⟨growth, content⟩ := sink
  cases growth with
  | splice => simp [widen?, splice_of_lt (show content.size < offset from beyond)]
  | shift => simp [widen?, copyWithin_of_lt beyond]

/-- The steps of a patch come to replacing bytes where the range is written. -/
theorem patch?_eq (sink : Sink) (offset : Nat) (bytes : Bytes) : sink.patch? offset bytes =
    if sink.covers offset bytes.length then some (sink.patch offset bytes) else none := by
  by_cases covered : offset + bytes.length ≤ sink.written
  · have stored : offset + bytes.length ≤ sink.content.size := covered
    simp [patch?, copyFrom, inBounds, covers, patch, covered, stored]
  · simp [patch?_of_lt (Nat.lt_of_not_le covered), covers, covered]

/-- The steps of opening a gap come to opening it, in either way, where the offset is not beyond
the end. So the one definition that writers use is what both ways of doing it amount to. -/
theorem widen?_eq (sink : Sink) (offset length : Nat) : sink.widen? offset length =
    if sink.covers offset 0 then some (sink.widen offset length) else none := by
  by_cases within : offset ≤ sink.written
  · have inside : offset ≤ sink.toBytes.length := by rwa [← written_eq_length]
    obtain ⟨before, after, split, rfl⟩ := Bytes.exists_append_of_le inside
    obtain ⟨content, ran, result⟩ := widen?_of_split split length
    have same : content = spliced sink.content before.length length := by
      apply Array.toList_inj.mp
      rw [result, toList_spliced, show sink.content.toList = before ++ after from split,
        List.take_left, List.drop_left]
    have widened : sink.widen before.length length = { sink with content } := by
      unfold widen
      split
      · rw [same]
      · rw [same, shifted_eq_spliced within]
    simp [ran, widened, covers, within]
  · simp [widen?_of_lt (Nat.lt_of_not_le within), covers, within]

end Sink

end Amqp
