import Ebb.Foundation.ByteKeys
import Mathlib.Data.List.Induction

namespace Ebb.Functions.FrameCodec

/-! The frames between the host and a function runner: a big-endian length and a payload
of that many bytes. A read may end anywhere, so the bytes of an unfinished frame wait for
the next read. What a payload means is left to its decoder. -/

def maxFrameBytes : Nat := 1048576

def headerBytes : Nat := 4

/-- Why a buffer is refused; a payload by the reason of its decoder. -/
inductive DecodeError (ε : Type) where
  | emptyFrame
  | frameTooLarge (length : Nat)
  | invalid (reason : ε)
deriving DecidableEq

variable {φ ε : Type}

/-- The complete frames of a buffer are those in `frames`, which precede it, and its own. -/
abbrev Decoded (φ ε : Type) := Except (DecodeError ε) (List φ × List UInt8)

/-! ## The two decoders -/

section Decoders

variable (decodePayload : List UInt8 → Except ε φ) (buffer : List UInt8)

/-- The first frame of a buffer and the bytes behind it, if it is complete. Its length is
checked before its payload is there. -/
def nextFrame : Except (DecodeError ε) (Option (φ × List UInt8)) :=
  if buffer.length < headerBytes then .ok none
  else
    let length := fromBigEndian (buffer.take headerBytes)
    if maxFrameBytes < length then .error (.frameTooLarge length)
    else if length = 0 then .error .emptyFrame
    else if (buffer.drop headerBytes).length < length then .ok none
    else
      match decodePayload ((buffer.drop headerBytes).take length) with
      | .error reason => .error (.invalid reason)
      | .ok frame => .ok (some (frame, (buffer.drop headerBytes).drop length))

variable {decodePayload buffer}

theorem nextFrame_shorter {frame : φ} {rest : List UInt8}
    (found : nextFrame decodePayload buffer = .ok (some (frame, rest))) :
    rest.length < buffer.length := by
  rw [nextFrame] at found
  dsimp only at found
  split at found
  · cases found
  split at found
  · cases found
  split at found
  · cases found
  split at found
  · cases found
  split at found
  · cases found
  · cases found
    rw [List.length_drop, List.length_drop]
    simp only [headerBytes] at *
    omega

/-- More bytes change nothing about a first frame that is refused or complete. -/
theorem nextFrame_append (more : List UInt8)
    (decided : nextFrame decodePayload buffer ≠ .ok none) :
    nextFrame decodePayload (buffer ++ more) = (nextFrame decodePayload buffer).map fun found =>
      found.map fun first => (first.1, first.2 ++ more) := by
  rw [nextFrame] at decided ⊢
  rw [nextFrame]
  by_cases short : buffer.length < headerBytes
  · rw [if_pos short] at decided
    exact absurd rfl decided
  have header : headerBytes ≤ buffer.length := Nat.not_lt.mp short
  rw [if_neg short] at decided ⊢
  rw [if_neg (by rw [List.length_append]; omega), List.take_append_of_le_length header,
    List.drop_append_of_le_length header]
  dsimp only at decided ⊢
  generalize fromBigEndian (buffer.take headerBytes) = length at *
  by_cases large : maxFrameBytes < length
  · simp only [if_pos large]
    rfl
  by_cases zero : length = 0
  · simp only [if_neg large, if_pos zero]
    rfl
  simp only [if_neg large, if_neg zero] at decided ⊢
  by_cases partly : (buffer.drop headerBytes).length < length
  · rw [if_pos partly] at decided
    exact absurd rfl decided
  have complete := Nat.not_lt.mp partly
  rw [if_neg partly, if_neg (by rw [List.length_append]; omega),
    List.take_append_of_le_length complete, List.drop_append_of_le_length complete]
  cases decodePayload ((buffer.drop headerBytes).take length) with
  | error reason => rfl
  | ok frame => rfl

variable (decodePayload buffer)

/-- Frames that were decoded before. -/
def after (frames : List φ) (decoded : Decoded φ ε) : Decoded φ ε :=
  decoded.map fun later => (frames ++ later.1, later.2)

/-- The runner's decoder. -/
def decodeFrames (buffer : List UInt8) : Decoded φ ε :=
  match _found : nextFrame decodePayload buffer with
  | .error reason => .error reason
  | .ok none => .ok ([], buffer)
  | .ok (some (frame, rest)) => after [frame] (decodeFrames rest)
termination_by buffer.length
decreasing_by exact nextFrame_shorter ‹_›

/-- The host's decoder collects the frames in reverse. -/
def decode (buffer : List UInt8) (frames : List φ) : Decoded φ ε :=
  match _found : nextFrame decodePayload buffer with
  | .error reason => .error reason
  | .ok none => .ok (frames.reverse, buffer)
  | .ok (some (frame, rest)) => decode rest (frame :: frames)
termination_by buffer.length
decreasing_by exact nextFrame_shorter ‹_›

theorem after_after (frames others : List φ) (decoded : Decoded φ ε) :
    after frames (after others decoded) = after (frames ++ others) decoded := by
  cases decoded with
  | error reason => rfl
  | ok later => simp [after, Except.map]

section Steps

variable {decodePayload buffer}

theorem decodeFrames_error {reason : DecodeError ε}
    (refused : nextFrame decodePayload buffer = .error reason) :
    decodeFrames decodePayload buffer = .error reason := by
  rw [decodeFrames]
  split <;> simp_all

theorem decodeFrames_none (partly : nextFrame decodePayload buffer = .ok none) :
    decodeFrames decodePayload buffer = .ok ([], buffer) := by
  rw [decodeFrames]
  split <;> simp_all

theorem decodeFrames_frame {frame : φ} {rest : List UInt8}
    (first : nextFrame decodePayload buffer = .ok (some (frame, rest))) :
    decodeFrames decodePayload buffer = after [frame] (decodeFrames decodePayload rest) := by
  rw [decodeFrames]
  split <;> simp_all

end Steps

theorem decode_eq (frames : List φ) :
    decode decodePayload buffer frames = after frames.reverse (decodeFrames decodePayload buffer) := by
  fun_induction decode decodePayload buffer frames with
  | case1 buffer frames reason refused => rw [decodeFrames_error refused]; rfl
  | case2 buffer frames partly =>
      rw [decodeFrames_none partly]
      simp [after, Except.map]
  | case3 buffer frames frame rest found induction =>
      rw [induction, decodeFrames_frame found, List.reverse_cons, after_after]

/-- Bytes that come later do not change what the bytes before them are decoded to. -/
theorem decodeFrames_append (more : List UInt8) :
    decodeFrames decodePayload (buffer ++ more) =
      (decodeFrames decodePayload buffer).bind fun decoded =>
        after decoded.1 (decodeFrames decodePayload (decoded.2 ++ more)) := by
  fun_induction decodeFrames decodePayload buffer with
  | case1 buffer reason refused =>
      have longer := nextFrame_append more fun none => by cases refused.symm.trans none
      rw [refused] at longer
      exact decodeFrames_error longer
  | case2 buffer partly =>
      change _ = after [] (decodeFrames decodePayload (buffer ++ more))
      cases decodeFrames decodePayload (buffer ++ more) with
      | error reason => rfl
      | ok decoded => rfl
  | case3 buffer frame rest found induction =>
      have longer := nextFrame_append more fun none => by cases found.symm.trans none
      rw [found] at longer
      rw [decodeFrames_frame longer, induction]
      cases decodeFrames decodePayload rest with
      | error reason => rfl
      | ok decoded => exact after_after [frame] decoded.1 _

end Decoders

/-! ## Reads of any size -/

/-- The connection to a worker: the bytes of an unfinished frame, the frames its owner was
sent, and why it stopped. -/
structure Connection (φ ε : Type) where
  buffer : List UInt8
  sent : List φ
  stopped : Option (DecodeError ε)

def Connection.opened : Connection φ ε := { buffer := [], sent := [], stopped := none }

section Connections

variable (decodePayload : List UInt8 → Except ε φ)

/-- One read; a connection that stopped reads no more. -/
def handleData (connection : Connection φ ε) (data : List UInt8) : Connection φ ε :=
  if connection.stopped.isSome then connection
  else
    match decode decodePayload (connection.buffer ++ data) [] with
    | .ok (frames, buffer) =>
        { connection with buffer, sent := connection.sent ++ frames }
    | .error reason => { connection with stopped := some reason }

def handleAll (chunks : List (List UInt8)) : Connection φ ε :=
  chunks.foldl (handleData decodePayload) .opened

/-- A connection stands where a stream brings it: all frames were sent and the rest waits,
or the stream is refused for the same reason. -/
def Reads (chunks : List (List UInt8)) (connection : Connection φ ε) : Prop :=
  match decodeFrames decodePayload chunks.flatten with
  | .ok (frames, rest) => connection = { buffer := rest, sent := frames, stopped := none }
  | .error reason => connection.stopped = some reason

/-- However a stream is cut into reads, the host's decoder on the reads gives what the
runner's decoder gives on the whole. -/
theorem reads_handleAll (chunks : List (List UInt8)) :
    Reads decodePayload chunks (handleAll decodePayload chunks) := by
  induction chunks using List.reverseRecOn with
  | nil =>
      rw [Reads, List.flatten_nil, decodeFrames_none rfl]
      rfl
  | append_singleton chunks chunk induction =>
      rw [handleAll, List.foldl_concat, ← handleAll]
      rw [Reads] at induction ⊢
      rw [List.flatten_append, List.flatten_singleton, decodeFrames_append]
      cases decoded : decodeFrames decodePayload chunks.flatten with
      | error reason =>
          rw [decoded] at induction
          dsimp only at induction
          rw [handleData, induction]
          exact induction
      | ok decodedBefore =>
          rw [decoded] at induction
          dsimp only at induction
          rw [induction, handleData, if_neg (by simp), decode_eq, Except.bind]
          cases later : decodeFrames decodePayload (decodedBefore.2 ++ chunk) with
          | error reason => rfl
          | ok decodedLater => rfl

/-- A stream ends alike however it is cut into reads: the same frames are sent and the same
bytes wait, or it is refused for the same reason. -/
theorem handleAll_cut {chunks others : List (List UInt8)}
    (same : chunks.flatten = others.flatten) :
    (handleAll decodePayload chunks).stopped = (handleAll decodePayload others).stopped ∧
      ((handleAll decodePayload chunks).stopped = none →
        handleAll decodePayload chunks = handleAll decodePayload others) := by
  have one := reads_handleAll decodePayload chunks
  have other := reads_handleAll decodePayload others
  rw [Reads, same] at one
  rw [Reads] at other
  cases decoded : decodeFrames decodePayload others.flatten with
  | ok frames =>
      rw [decoded] at one other
      rw [one, other]
      exact ⟨rfl, fun _ => rfl⟩
  | error reason =>
      rw [decoded] at one other
      dsimp only at one other
      rw [one, other]
      exact ⟨rfl, fun running => by cases running⟩

end Connections

/-! ## Encoded frames -/

section Encoded

variable (encodePayload : φ → List UInt8) (decodePayload : List UInt8 → Except ε φ)

def encodeFrame (frame : φ) : List UInt8 :=
  bigEndian headerBytes (encodePayload frame).length ++ encodePayload frame

/-- A payload that a sender may put in a frame, and that its decoder reads. -/
def Sendable (frame : φ) : Prop :=
  decodePayload (encodePayload frame) = .ok frame ∧ encodePayload frame ≠ [] ∧
    headerBytes + (encodePayload frame).length ≤ maxFrameBytes

variable {encodePayload decodePayload}

theorem decodeFrames_encodeFrame {frame : φ} (sendable : Sendable encodePayload decodePayload frame)
    (more : List UInt8) :
    decodeFrames decodePayload (encodeFrame encodePayload frame ++ more) =
      after [frame] (decodeFrames decodePayload more) := by
  rcases sendable with ⟨decodes, filled, fits⟩
  have positive : 0 < (encodePayload frame).length := List.length_pos_iff.mpr filled
  have width := @length_bigEndian headerBytes (encodePayload frame).length
  have length : fromBigEndian (bigEndian headerBytes (encodePayload frame).length) =
      (encodePayload frame).length := by
    rw [fromBigEndian_bigEndian]
    apply Nat.mod_eq_of_lt
    simp only [headerBytes, maxFrameBytes] at *
    omega
  apply decodeFrames_frame
  rw [nextFrame, encodeFrame, List.append_assoc, List.take_left' width, List.drop_left' width,
    length, List.length_append, List.length_append, width, if_neg (by omega)]
  dsimp only
  rw [if_neg (by omega), if_neg (by omega), if_neg (by omega), List.take_left' rfl, decodes,
    List.drop_left' rfl]

theorem decodeFrames_encodeFrames {frames : List φ}
    (sendable : ∀ frame ∈ frames, Sendable encodePayload decodePayload frame) :
    decodeFrames decodePayload (frames.flatMap (encodeFrame encodePayload)) = .ok (frames, []) := by
  induction frames with
  | nil => exact decodeFrames_none rfl
  | cons frame rest induction =>
      have parts := List.forall_mem_cons.mp sendable
      rw [List.flatMap_cons, decodeFrames_encodeFrame parts.1, induction parts.2]
      rfl

/-- What has arrived of encoded frames, in reads of any size, is never refused, and sent on
in order; once all has arrived, every frame was sent. -/
theorem handleAll_encodeFrames {frames : List φ} {chunks : List (List UInt8)}
    {missing : List UInt8}
    (sendable : ∀ frame ∈ frames, Sendable encodePayload decodePayload frame)
    (stream : chunks.flatten ++ missing = frames.flatMap (encodeFrame encodePayload)) :
    (handleAll decodePayload chunks).stopped = none ∧
      (handleAll decodePayload chunks).sent <+: frames ∧
        (missing = [] → handleAll decodePayload chunks =
          { buffer := [], sent := frames, stopped := none }) := by
  have whole := decodeFrames_encodeFrames sendable
  have reads := reads_handleAll decodePayload chunks
  rw [← stream, decodeFrames_append] at whole
  rw [Reads] at reads
  cases arrived : decodeFrames decodePayload chunks.flatten with
  | error reason =>
      rw [arrived] at whole
      cases whole
  | ok decoded =>
      rw [arrived] at reads whole
      rw [reads]
      dsimp only [Except.bind] at whole ⊢
      refine ⟨rfl, ?_, fun none => ?_⟩
      · cases later : decodeFrames decodePayload (decoded.2 ++ missing) with
        | error reason =>
            rw [later] at whole
            cases whole
        | ok rest =>
            rw [later] at whole
            exact ⟨rest.1, congrArg Prod.fst (Except.ok.inj whole)⟩
      · have all := decodeFrames_encodeFrames sendable
        rw [← stream, none, List.append_nil, arrived] at all
        cases all
        rfl

end Encoded

/-- The payload of the runner's `ready` frame, and a decoder that knows it. -/
def readyPayload : List UInt8 :=
  [123, 34, 116, 121, 112, 101, 34, 58, 34, 114, 101, 97, 100, 121, 34, 125]

def decodeReady (payload : List UInt8) : Except String String :=
  if payload = readyPayload then .ok "ready" else .error "invalid_json"

/-- A frame and the start of another, cut within the length and within the payload. -/
theorem handleAll_cut_ready :
    (handleAll decodeReady [[0, 0], [0, 16] ++ readyPayload ++ [0]]).sent = ["ready"] ∧
      handleAll decodeReady [[0, 0], [0, 16] ++ readyPayload ++ [0]] =
        handleAll decodeReady [[0, 0, 0, 16, 123], readyPayload.tail ++ [0]] :=
  ⟨by decide +kernel, (@handleAll_cut _ _ decodeReady [[0, 0], [0, 16] ++ readyPayload ++ [0]]
    [[0, 0, 0, 16, 123], readyPayload.tail ++ [0]] rfl).2 (by decide +kernel)⟩

theorem handleAll_ready :
    (handleAll decodeReady [[0, 0], [0, 16, 123], readyPayload.tail ++ [0]]).sent <+:
      ["ready", "ready"] := by
  have sendable : ∀ frame ∈ ["ready", "ready"],
      Sendable (fun _ => readyPayload) decodeReady frame := by
    intro frame member
    have same : frame = "ready" := by simpa using member
    subst same
    exact ⟨by decide, by decide, by decide⟩
  exact (@handleAll_encodeFrames _ _ _ _ _ _ ([0, 0, 16] ++ readyPayload) sendable (by decide)).2.1

end Ebb.Functions.FrameCodec
