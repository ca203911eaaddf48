/-
The plaintext side of the Noise relay: a message is sent as a four byte
big-endian length and its bytes, the byte stream is cut into records, and the
receiver reassembles messages from records whose boundaries are unrelated to
the message boundaries.
-/
import Hexa.Lib.RustStr

namespace Hexa

open List

namespace NoiseRelay

/-- The one `ExecServerError` variant that the relay pipeline returns. -/
inductive ExecServerError where
  | protocol (message : String)
  deriving Repr, DecidableEq

def lengthPrefixBytes : Nat := 4
def maxNoiseJsonrpcMessageLen : Nat := 64 * 1024 * 1024
def noiseRecordPlaintextLen : Nat := 60 * 1024

/-- `u32::to_be_bytes` of `value as u32`: each byte keeps the low eight bits
of its shifted value. -/
def u32ToBeBytes (value : Nat) : Bytes :=
  [UInt8.ofNat (value / 2 ^ 24), UInt8.ofNat (value / 2 ^ 16),
    UInt8.ofNat (value / 2 ^ 8), UInt8.ofNat value]

/-- `u32::from_be_bytes`. -/
def u32FromBeBytes (b0 b1 b2 b3 : UInt8) : Nat :=
  b0.toNat * 2 ^ 24 + b1.toNat * 2 ^ 16 + b2.toNat * 2 ^ 8 + b3.toNat

theorem u32FromBeBytes_u32ToBeBytes {value : Nat} (hvalue : value < 2 ^ 32) :
    u32FromBeBytes (UInt8.ofNat (value / 2 ^ 24))
      (UInt8.ofNat (value / 2 ^ 16)) (UInt8.ofNat (value / 2 ^ 8))
      (UInt8.ofNat value) = value := by
  simp only [u32FromBeBytes, UInt8.toNat_ofNat']
  omega

def messageLengthPrefix (messageLen : Nat) : Except ExecServerError Bytes :=
  if messageLen = 0 ∨ messageLen > maxNoiseJsonrpcMessageLen then
    .error (.protocol "Noise relay JSON-RPC message exceeds maximum length")
  else .ok (u32ToBeBytes messageLen)

variable (message : Bytes)

def frameMessage : Except ExecServerError Bytes :=
  match messageLengthPrefix message.length with
  | .error error => .error error
  | .ok lengthBytes => .ok (lengthBytes ++ message)

/-- The messages that the sender accepts. -/
def Sendable : Prop := message ≠ [] ∧ message.length ≤ maxNoiseJsonrpcMessageLen

instance (message : Bytes) : Decidable (Sendable message) := inferInstanceAs (Decidable (_ ∧ _))

/-- The bytes a sendable message occupies in the stream. -/
def framed : Bytes := u32ToBeBytes message.length ++ message

theorem frameMessage_eq_ok_iff (bytes : Bytes) :
    frameMessage message = .ok bytes ↔ Sendable message ∧ bytes = framed message := by
  simp only [frameMessage, messageLengthPrefix, Sendable, framed]
  by_cases hbad : message.length = 0 ∨ message.length > maxNoiseJsonrpcMessageLen
  · rw [if_pos hbad]
    simp only [reduceCtorEq, false_iff, not_and]
    rintro ⟨hne, hle⟩
    rw [length_eq_zero_iff] at hbad
    rcases hbad with hempty | hlong
    · exact absurd hempty hne
    · omega
  · rw [if_neg hbad]
    simp only [not_or, length_eq_zero_iff, Nat.not_lt] at hbad
    simp [hbad, eq_comm]

@[simp]
theorem length_framed : (framed message).length = lengthPrefixBytes + message.length := by
  simp [framed, u32ToBeBytes, lengthPrefixBytes]
  omega

/-- `MessageDecoder`: decrypted bytes that no complete message has consumed. -/
structure MessageDecoder where
  buffered : Bytes := []
  deriving Repr, DecidableEq

/-- The `while let Some(prefix)` loop of `MessageDecoder::push`.  The buffer is
returned also on an error, as the loop mutates it in place. -/
def takeMessages (buffered : Bytes) (messages : List Bytes) :
    Bytes × Except ExecServerError (List Bytes) :=
  match buffered with
  | b0 :: b1 :: b2 :: b3 :: payload =>
    let messageLen := u32FromBeBytes b0 b1 b2 b3
    if messageLen = 0 ∨ messageLen > maxNoiseJsonrpcMessageLen then
      (b0 :: b1 :: b2 :: b3 :: payload,
        .error (.protocol "Noise relay JSON-RPC message has invalid length"))
    else if lengthPrefixBytes + payload.length < lengthPrefixBytes + messageLen then
      (b0 :: b1 :: b2 :: b3 :: payload, .ok messages)
    else takeMessages (payload.drop messageLen) (messages ++ [payload.take messageLen])
  | short => (short, .ok messages)
termination_by buffered.length
decreasing_by
  simp only [length_drop, length_cons]
  omega

/-- `MessageDecoder::push`. -/
def MessageDecoder.push (decoder : MessageDecoder) (plaintextRecord : Bytes) :
    MessageDecoder × Except ExecServerError (List Bytes) :=
  if plaintextRecord.length > noiseRecordPlaintextLen then
    (decoder, .error (.protocol "Noise relay plaintext record exceeds maximum length"))
  else
    match takeMessages (decoder.buffered ++ plaintextRecord) [] with
    | (buffered, .error error) => ({ buffered }, .error error)
    | (buffered, .ok messages) =>
      if buffered.length > lengthPrefixBytes + maxNoiseJsonrpcMessageLen then
        ({ buffered }, .error (.protocol
          "Noise relay JSON-RPC reassembly buffer exceeds maximum length"))
      else ({ buffered }, .ok messages)

/-- The byte stream that carries a list of messages. -/
def stream (messages : List Bytes) : Bytes := (messages.map framed).flatten

@[simp]
theorem stream_nil : stream [] = [] := rfl

@[simp]
theorem stream_cons (messages : List Bytes) :
    stream (message :: messages) = framed message ++ stream messages := by
  simp [stream]

@[simp]
theorem stream_append (first second : List Bytes) :
    stream (first ++ second) = stream first ++ stream second := by
  simp [stream]

/-- The buffer of a receiver that still expects `todo`: the beginning of the
remaining stream, with no complete message in it. -/
def Partway (todo : List Bytes) (buffered : Bytes) : Prop :=
  buffered <+: stream todo ∧
    ∀ message, todo.head? = some message → buffered.length < lengthPrefixBytes + message.length

theorem partway_nil_right (todo : List Bytes) : Partway todo [] := by
  refine ⟨by simp, ?_⟩
  intro message _
  simp only [length_nil, lengthPrefixBytes]
  omega

variable {todo : List Bytes}

/-- A receiver that holds the whole remaining stream expects nothing. -/
theorem Partway.todo_eq_nil (hpartway : Partway todo (stream todo)) : todo = [] := by
  cases todo with
  | nil => rfl
  | cons message rest =>
    have hshort := hpartway.2 message rfl
    simp only [stream_cons, length_append, length_framed] at hshort
    omega

theorem Partway.length_le {buffered : Bytes} (hpartway : Partway todo buffered)
    (htodo : ∀ message ∈ todo, Sendable message) :
    buffered.length ≤ lengthPrefixBytes + maxNoiseJsonrpcMessageLen := by
  cases todo with
  | nil =>
    have hempty : buffered = [] := prefix_nil.mp hpartway.1
    simp [hempty]
  | cons message rest =>
    have hshort := hpartway.2 message rfl
    have hle := (htodo message mem_cons_self).2
    omega

theorem takeMessages_of_length_lt {buffered : Bytes} {messages : List Bytes}
    (hshort : buffered.length < lengthPrefixBytes) :
    takeMessages buffered messages = (buffered, .ok messages) := by
  rw [takeMessages.eq_def]
  split
  · simp [lengthPrefixBytes] at hshort
    omega
  · rfl

/-- A buffer that begins with the length bytes of a sendable message waits for
its payload or yields the message. -/
theorem takeMessages_length_append {message payload : Bytes} {messages : List Bytes}
    (hmessage : Sendable message) :
    takeMessages (u32ToBeBytes message.length ++ payload) messages =
      if payload.length < message.length then
        (u32ToBeBytes message.length ++ payload, .ok messages)
      else takeMessages (payload.drop message.length)
          (messages ++ [payload.take message.length]) := by
  obtain ⟨hne, hle⟩ := hmessage
  have hpos : message.length ≠ 0 := by simpa [length_eq_zero_iff] using hne
  have hlt : message.length < 2 ^ 32 := by
    simp only [maxNoiseJsonrpcMessageLen] at hle
    omega
  have hlen := u32FromBeBytes_u32ToBeBytes hlt
  rw [u32ToBeBytes, cons_append, cons_append, cons_append, cons_append, nil_append, takeMessages]
  simp only [hlen, Nat.add_lt_add_iff_left]
  rw [if_neg (by omega)]

/-- Draining the beginning of a stream of sendable messages never fails.  It
yields a run of messages in order and keeps the incomplete rest. -/
theorem takeMessages_stream (todo : List Bytes) (htodo : ∀ message ∈ todo, Sendable message)
    (buffered : Bytes) (hbuffered : buffered <+: stream todo) (messages : List Bytes) :
    ∃ done remaining rest, takeMessages buffered messages = (rest, .ok (messages ++ done)) ∧
        todo = done ++ remaining ∧ buffered = stream done ++ rest ∧
        Partway remaining rest := by
  induction todo generalizing buffered messages with
  | nil =>
    have hempty : buffered = [] := prefix_nil.mp hbuffered
    subst hempty
    refine ⟨[], [], [], ?_, rfl, rfl, partway_nil_right []⟩
    simpa using takeMessages_of_length_lt (by simp [lengthPrefixBytes])
  | cons message todo ih =>
    have hmessage := htodo message mem_cons_self
    -- The buffer stops inside the first frame: nothing is complete.
    by_cases hincomplete : buffered.length < lengthPrefixBytes + message.length
    · refine ⟨[], message :: todo, buffered, ?_, rfl, rfl, hbuffered, ?_⟩
      · by_cases hshort : buffered.length < lengthPrefixBytes
        · simpa using takeMessages_of_length_lt hshort
        · obtain ⟨payload, rfl⟩ : u32ToBeBytes message.length <+: buffered := by
            refine prefix_of_prefix_length_le ?_ hbuffered ?_
            · simp [framed]
            · simpa [u32ToBeBytes, lengthPrefixBytes] using hshort
          rw [takeMessages_length_append hmessage, if_pos]
          · simp
          · simp [u32ToBeBytes, lengthPrefixBytes] at hincomplete
            omega
      · intro first hfirst
        simp only [head?_cons, Option.some.injEq] at hfirst
        exact hfirst ▸ hincomplete
    · obtain ⟨more, rfl⟩ : framed message <+: buffered := by
        refine prefix_of_prefix_length_le ?_ hbuffered ?_
        · simp
        · simpa using hincomplete
      rw [stream_cons, prefix_append_right_inj] at hbuffered
      obtain ⟨done, remaining, rest, htake, hsplit, hmore, hrest⟩ :=
        ih (fun m hm => htodo m (mem_cons_of_mem message hm)) more hbuffered
          (messages ++ [message])
      refine ⟨message :: done, remaining, rest, ?_, by simp [hsplit], by simp [hmore], hrest⟩
      rw [framed, append_assoc, takeMessages_length_append hmessage, if_neg (by simp)]
      simpa using htake

/-- One record of a stream of sendable messages: the decoder returns the
messages it completes, never an error. -/
theorem MessageDecoder.push_stream (htodo : ∀ message ∈ todo, Sendable message)
    {decoder : MessageDecoder} {record : Bytes}
    (hrecord : record.length ≤ noiseRecordPlaintextLen)
    (hnext : decoder.buffered ++ record <+: stream todo) :
    ∃ done remaining rest, decoder.push record = (⟨rest⟩, .ok done) ∧
        todo = done ++ remaining ∧
        decoder.buffered ++ record = stream done ++ rest ∧
        Partway remaining rest := by
  obtain ⟨done, remaining, rest, htake, hsplit, hbytes, hrest⟩ :=
    takeMessages_stream todo htodo _ hnext []
  have hremaining : ∀ message ∈ remaining, Sendable message := by
    intro message hmem
    exact htodo message (hsplit ▸ mem_append_right done hmem)
  have hbound := hrest.length_le hremaining
  refine ⟨done, remaining, rest, ?_, hsplit, hbytes, hrest⟩
  rw [push, if_neg (by omega), htake]
  simp only [nil_append]
  rw [if_neg (by omega)]

end NoiseRelay

end Hexa
