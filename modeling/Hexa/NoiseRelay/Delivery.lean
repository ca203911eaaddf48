/-
One virtual stream of the Noise relay from end to end: the writer task numbers
and encrypts records, an untrusted relay drops, repeats and reorders them, and
the reader reorders, decrypts and reassembles.  The reader hands out a run of
the sent messages, and all of them when the relay stays within the limits.
-/
import Hexa.Lib.Chunks
import Hexa.NoiseRelay.OrderedCiphertext

namespace Hexa.NoiseRelay

open List

/-- The data frame of the relay protocol. -/
structure RelayData where
  seq : Nat
  payload : Bytes
  deriving Repr, DecidableEq

/-- The two directions of a Noise transport, indexed by the implicit nonce.
Decryption fails with the text of its error. -/
structure NoiseTransport where
  encrypt : Nat → Bytes → Option Bytes
  decrypt : Nat → Bytes → Except String Bytes

variable (transport : NoiseTransport)

/-- Decrypting with the nonce of the sender restores a record. -/
def NoiseTransport.Inverts : Prop :=
  ∀ nonce record, record.length ≤ noiseRecordPlaintextLen →
    ∃ ciphertext, transport.encrypt nonce record = some ciphertext ∧
      transport.decrypt nonce ciphertext = .ok record

/-- `take_next_sequence`: the sequence number to use and the next counter. -/
def takeNextSequence (nextSeq : Nat) : Except ExecServerError (Nat × Nat) :=
  if nextSeq = u32Max then .error (.protocol "Noise relay sequence number exhausted")
  else .ok (nextSeq, nextSeq + 1)

/-- What the writer task of a virtual stream owns, and what it has sent. -/
structure Writer where
  nextSeq : Nat := 0
  sendNonce : Nat := 0
  outgoing : List RelayData := []
  deriving Repr

/-- The loop over the records of one message.  `false` stands for leaving the
outer loop. -/
def writeRecords (transport : NoiseTransport) :
    Writer → List Bytes → Writer × Bool
  | writer, [] => (writer, true)
  | writer, record :: records =>
    match takeNextSequence writer.nextSeq with
    | .error _ => (writer, false)
    | .ok (seq, nextSeq) =>
      match transport.encrypt writer.sendNonce record with
      | none => ({ writer with nextSeq }, false)
      | some ciphertext =>
        writeRecords transport
          { nextSeq
            sendNonce := writer.sendNonce + 1
            outgoing := writer.outgoing ++ [⟨seq, ciphertext⟩] }
          records

/-- The writer task. -/
def writeMessages (transport : NoiseTransport) :
    Writer → List Bytes → Writer
  | writer, [] => writer
  | writer, message :: messages =>
    match frameMessage message with
    | .error _ => writer
    | .ok bytes =>
      match writeRecords transport writer (chunks noiseRecordPlaintextLen bytes) with
      | (writer, true) => writeMessages transport writer messages
      | (writer, false) => writer

/-- The frames that the writer task puts on the relay. -/
def sentFrames (messages : List Bytes) : List RelayData :=
  (writeMessages transport {} messages).outgoing

/-- The read half of a virtual stream.  `incoming` is what the handler's queue
has accepted. -/
structure NoiseVirtualStream where
  inboundCiphertexts : OrderedCiphertextFrames := {}
  receiveNonce : Nat := 0
  inboundDecoder : MessageDecoder := {}
  incoming : List Bytes := []

/-- Decoding a payload and queueing it, given what is already queued. -/
abbrev Handler := List Bytes → Bytes → Except ExecServerError Unit

/-- The inner loop of `receive_data`. -/
def queueMessages (handler : Handler) :
    NoiseVirtualStream → List Bytes → NoiseVirtualStream × Except ExecServerError Unit
  | reader, [] => (reader, .ok ())
  | reader, message :: messages =>
    match handler reader.incoming message with
    | .error error => (reader, .error error)
    | .ok () =>
      queueMessages handler { reader with incoming := reader.incoming ++ [message] } messages

/-- The outer loop of `receive_data`. -/
def receiveCiphertexts (transport : NoiseTransport) (handler : Handler) :
    NoiseVirtualStream → List Bytes → NoiseVirtualStream × Except ExecServerError Unit
  | reader, [] => (reader, .ok ())
  | reader, ciphertext :: ciphertexts =>
    match transport.decrypt reader.receiveNonce ciphertext with
    | .error error => (reader, .error (.protocol ("Noise relay decryption failed: " ++ error)))
    | .ok plaintext =>
      match reader.inboundDecoder.push plaintext with
      | (inboundDecoder, .error error) =>
        ({ reader with
            receiveNonce := reader.receiveNonce + 1, inboundDecoder },
          .error error)
      | (inboundDecoder, .ok messages) =>
        match queueMessages handler
            { reader with
              receiveNonce := reader.receiveNonce + 1, inboundDecoder }
            messages with
        | (reader, .error error) => (reader, .error error)
        | (reader, .ok ()) => receiveCiphertexts transport handler reader ciphertexts

/-- `NoiseVirtualStream::receive_data`. -/
def receiveData (handler : Handler) (reader : NoiseVirtualStream) (data : RelayData) :
    NoiseVirtualStream × Except ExecServerError Unit :=
  match reader.inboundCiphertexts.push data.seq data.payload with
  | (inboundCiphertexts, .error error) => ({ reader with inboundCiphertexts }, .error error)
  | (inboundCiphertexts, .ok ready) =>
    receiveCiphertexts transport handler { reader with inboundCiphertexts } ready

/-- A delivery schedule.  The stream is dropped at its first error. -/
def receiveAll (transport : NoiseTransport) (handler : Handler) :
    NoiseVirtualStream → List RelayData → NoiseVirtualStream × Except ExecServerError Unit
  | reader, [] => (reader, .ok ())
  | reader, data :: schedule =>
    match receiveData transport handler reader data with
    | (reader, .error error) => (reader, .error error)
    | (reader, .ok ()) => receiveAll transport handler reader schedule

/-- The plaintext records of a list of messages, in sending order. -/
def records (messages : List Bytes) : List Bytes :=
  messages.flatMap (fun message => chunks noiseRecordPlaintextLen (framed message))

@[simp]
theorem records_nil : records [] = [] := rfl

@[simp]
theorem records_cons (message : Bytes) (messages : List Bytes) :
    records (message :: messages) =
      chunks noiseRecordPlaintextLen (framed message) ++ records messages := by
  simp [records]

variable {record : Bytes}

theorem length_le_of_mem_records {messages : List Bytes} (hrecord : record ∈ records messages) :
    record.length ≤ noiseRecordPlaintextLen := by
  simp only [records, mem_flatMap] at hrecord
  obtain ⟨message, -, hmem⟩ := hrecord
  exact length_le_of_mem_chunks hmem

theorem flatten_records (messages : List Bytes) :
    (records messages).flatten = stream messages := by
  have hpos : 0 < noiseRecordPlaintextLen := by decide
  induction messages with
  | nil => rfl
  | cons message messages ih =>
    rw [records_cons, flatten_append, flatten_chunks hpos, ih, stream_cons]

/-- The writer has sent exactly `written`, one frame a record, and frame
number `i` decrypts to record number `i`. -/
structure Wrote (written : List Bytes) (writer : Writer) : Prop where
  nextSeq_eq : writer.nextSeq = written.length
  sendNonce_eq : writer.sendNonce = written.length
  length_eq : writer.outgoing.length = written.length
  frame : ∀ seq record, written[seq]? = some record →
    ∃ ciphertext, writer.outgoing[seq]? = some ⟨seq, ciphertext⟩ ∧
      transport.decrypt seq ciphertext = .ok record

theorem wrote_initial : Wrote transport [] {} := by
  refine ⟨rfl, rfl, rfl, ?_⟩
  intro seq record hrecord
  simp at hrecord

variable {transport : NoiseTransport} {written : List Bytes} {writer : Writer}

theorem Wrote.snoc (hwrote : Wrote transport written writer) {ciphertext : Bytes}
    (hdecrypt : transport.decrypt written.length ciphertext = .ok record) :
    Wrote transport (written ++ [record])
      { nextSeq := writer.nextSeq + 1
        sendNonce := writer.sendNonce + 1
        outgoing := writer.outgoing ++ [⟨writer.nextSeq, ciphertext⟩] } := by
  refine ⟨?_, ?_, ?_, ?_⟩
  · simp [hwrote.nextSeq_eq]
  · simp [hwrote.sendNonce_eq]
  · simp [hwrote.length_eq]
  · intro seq found hfound
    rcases Nat.lt_trichotomy seq written.length with hlt | heq | hgt
    · rw [getElem?_append_left hlt] at hfound
      rw [getElem?_append_left (hwrote.length_eq ▸ hlt)]
      exact hwrote.frame seq found hfound
    · subst heq
      obtain rfl : record = found := by simpa using hfound
      refine ⟨ciphertext, ?_, hdecrypt⟩
      rw [← hwrote.length_eq, getElem?_concat_length, hwrote.nextSeq_eq, hwrote.length_eq]
    · rw [getElem?_eq_none (by simp; omega)] at hfound
      cases hfound

theorem writeRecords_wrote (htransport : transport.Inverts)
    (hwrote : Wrote transport written writer) (next : List Bytes)
    (hnext : ∀ record ∈ next, record.length ≤ noiseRecordPlaintextLen)
    (hcount : (written ++ next).length ≤ u32Max) :
    ∃ writer', writeRecords transport writer next = (writer', true) ∧
      Wrote transport (written ++ next) writer' := by
  induction next generalizing written writer with
  | nil => exact ⟨writer, rfl, by simpa using hwrote⟩
  | cons record next ih =>
    obtain ⟨ciphertext, hencrypt, hdecrypt⟩ :=
      htransport written.length record (hnext record mem_cons_self)
    have hseq : writer.nextSeq ≠ u32Max := by
      rw [hwrote.nextSeq_eq]
      simp only [length_append, length_cons] at hcount
      omega
    obtain ⟨writer', hrun, hwrote'⟩ := ih (hwrote.snoc hdecrypt)
        (fun r hr => hnext r (mem_cons_of_mem record hr))
        (by simpa [Nat.add_assoc, Nat.add_comm] using hcount)
    refine ⟨writer', ?_, by simpa using hwrote'⟩
    rw [writeRecords, takeNextSequence, if_neg hseq]
    simp only [hwrote.sendNonce_eq, hencrypt]
    rw [hwrote.sendNonce_eq] at hrun
    exact hrun

theorem writeMessages_wrote (htransport : transport.Inverts)
    (hwrote : Wrote transport written writer) (messages : List Bytes)
    (hmessages : ∀ message ∈ messages, Sendable message)
    (hcount : (written ++ records messages).length ≤ u32Max) :
    Wrote transport (written ++ records messages) (writeMessages transport writer messages) := by
  induction messages generalizing written writer with
  | nil => simpa [writeMessages] using hwrote
  | cons message messages ih =>
    have hframe : frameMessage message = .ok (framed message) :=
      (frameMessage_eq_ok_iff message _).mpr ⟨hmessages message mem_cons_self, rfl⟩
    rw [records_cons, ← append_assoc] at hcount ⊢
    obtain ⟨writer', hrun, hwrote'⟩ := writeRecords_wrote htransport hwrote
        (chunks noiseRecordPlaintextLen (framed message))
        (fun record hrecord => length_le_of_mem_chunks hrecord)
        (by simp only [length_append] at hcount ⊢; omega)
    rw [writeMessages, hframe]
    simp only [hrun]
    exact ih hwrote' (fun m hm => hmessages m (mem_cons_of_mem message hm)) hcount

/-- The reader after `count` records: it has handed out a run of the messages
and buffers the beginning of the rest. -/
structure Read (messages : List Bytes) (count : Nat) (reader : NoiseVirtualStream) : Prop where
  nonce_eq : reader.receiveNonce = count
  position : ∃ todo, messages = reader.incoming ++ todo ∧
    ((records messages).take count).flatten =
      stream reader.incoming ++ reader.inboundDecoder.buffered ∧
    Partway todo reader.inboundDecoder.buffered

theorem read_initial (messages : List Bytes) : Read messages 0 {} := by
  refine ⟨rfl, messages, rfl, ?_, partway_nil_right messages⟩
  simp

variable {reader : NoiseVirtualStream} {count : Nat}

theorem Read.incoming_isPrefix {messages : List Bytes} (hread : Read messages count reader) :
    reader.incoming <+: messages := by
  obtain ⟨todo, hsplit, -⟩ := hread.position
  exact ⟨todo, hsplit.symm⟩

/-- A reader that has seen every record has handed out every message. -/
theorem Read.incoming_eq {messages : List Bytes} (hread : Read messages count reader)
    (hall : (records messages).length ≤ count) : reader.incoming = messages := by
  obtain ⟨todo, hsplit, hfed, hpartway⟩ := hread.position
  rw [take_of_length_le hall, flatten_records] at hfed
  have hbuffered : reader.inboundDecoder.buffered = stream todo := by
    have hstream : stream (reader.incoming ++ todo) =
        stream reader.incoming ++ reader.inboundDecoder.buffered := by
      rw [← hsplit, hfed]
    rw [stream_append] at hstream
    exact (append_cancel_left hstream).symm
  rw [hbuffered] at hpartway
  rw [hpartway.todo_eq_nil, append_nil] at hsplit
  exact hsplit.symm

/-- The inner loop queues a run of what the decoder returned, and all of it
when it ends without an error. -/
theorem queueMessages_spec (handler : Handler) (reader : NoiseVirtualStream)
    (ready : List Bytes) :
    ∃ queued, queued <+: ready ∧ (queueMessages handler reader ready).1 =
        { reader with incoming := reader.incoming ++ queued } ∧
      ((queueMessages handler reader ready).2 = .ok () → queued = ready) := by
  induction ready generalizing reader with
  | nil => exact ⟨[], by simp, by simp [queueMessages], fun _ => rfl⟩
  | cons message ready ih =>
    cases hhandler : handler reader.incoming message with
    | error error =>
      refine ⟨[], by simp, ?_, ?_⟩
      · simp [queueMessages, hhandler]
      · intro hok
        simp [queueMessages, hhandler] at hok
    | ok _ =>
      obtain ⟨queued, hqueued, hreader, hok⟩ :=
        ih { reader with incoming := reader.incoming ++ [message] }
      refine ⟨message :: queued, by simpa using hqueued, ?_, ?_⟩
      · simp only [queueMessages, hhandler, hreader]
        simp
      · intro hrun
        simp only [queueMessages, hhandler] at hrun
        rw [hok hrun]

/-- A handler that takes every message. -/
def Handler.Accepts (handler : Handler) : Prop :=
  ∀ queued message, handler queued message = .ok ()

theorem queueMessages_of_accepts {handler : Handler} (haccepts : handler.Accepts)
    (reader : NoiseVirtualStream) (ready : List Bytes) :
    (queueMessages handler reader ready).2 = .ok () := by
  induction ready generalizing reader with
  | nil => rfl
  | cons message ready ih =>
    simp only [queueMessages, haccepts reader.incoming message]
    exact ih _

/-- One decrypted record.  The decoder never fails on the sender's stream, and
the messages it returns continue what was handed out. -/
theorem Read.push_record {messages : List Bytes} (hread : Read messages count reader)
    (hmessages : ∀ message ∈ messages, Sendable message)
    (hrecord : (records messages)[count]? = some record) :
    ∃ ready rest,
      reader.inboundDecoder.push record = (⟨rest⟩, .ok ready) ∧
      (reader.incoming ++ ready) <+: messages ∧
      Read messages (count + 1)
        { reader with
          receiveNonce := reader.receiveNonce + 1
          inboundDecoder := ⟨rest⟩
          incoming := reader.incoming ++ ready } := by
  obtain ⟨todo, hsplit, hfed, -⟩ := hread.position
  have hfedNext : ((records messages).take (count + 1)).flatten =
      stream reader.incoming ++ (reader.inboundDecoder.buffered ++ record) := by
    rw [take_add_one, hrecord, flatten_append, hfed]
    simp
  have hnext : reader.inboundDecoder.buffered ++ record <+: stream todo := by
    have htake : ((records messages).take (count + 1)).flatten <+:
        stream messages := by
      rw [← flatten_records]
      exact ( take_prefix _ _).flatten
    have hstream : stream messages = stream reader.incoming ++ stream todo := by
      rw [← stream_append, ← hsplit]
    rw [hfedNext, hstream, prefix_append_right_inj] at htake
    exact htake
  have htodo : ∀ message ∈ todo, Sendable message := by
    intro message hmem
    exact hmessages message (hsplit ▸ mem_append_right _ hmem)
  obtain ⟨ready, remaining, rest, hpush, htodoSplit, hbytes, hpartway⟩ :=
    MessageDecoder.push_stream htodo (length_le_of_mem_records (mem_of_getElem? hrecord)) hnext
  have hmessagesSplit : messages = (reader.incoming ++ ready) ++ remaining := by
    rw [append_assoc, ← htodoSplit]
    exact hsplit
  refine ⟨ready, rest, hpush, ⟨remaining, hmessagesSplit.symm⟩, ?_⟩
  refine ⟨by simp [hread.nonce_eq], remaining, hmessagesSplit, ?_, hpartway⟩
  rw [hfedNext, hbytes, stream_append, append_assoc]

/-- The released ciphertexts `ciphertexts` are the sent ones from number
`count` on. -/
def Continues (transport : NoiseTransport) (messages : List Bytes) (count : Nat)
    (ciphertexts : List Bytes) : Prop :=
  ∀ offset ciphertext, ciphertexts[offset]? = some ciphertext →
    ∃ record, (records messages)[count + offset]? = some record ∧
      transport.decrypt (count + offset) ciphertext = .ok record

/-- A released run of ciphertexts: what is handed out stays a run of the
messages, the count follows when no error occurs, and an accepting handler
rules an error out. -/
theorem receiveCiphertexts_spec {handler : Handler} {messages : List Bytes}
    (hmessages : ∀ message ∈ messages, Sendable message) (ciphertexts : List Bytes)
    (hread : Read messages count reader)
    (hcontinues : Continues transport messages count ciphertexts) :
    let result := receiveCiphertexts transport handler reader ciphertexts
    (result.1.incoming <+: messages) ∧
      result.1.inboundCiphertexts = reader.inboundCiphertexts ∧
      (result.2 = .ok () → Read messages (count + ciphertexts.length) result.1) ∧
      (handler.Accepts → result.2 = .ok ()) := by
  induction ciphertexts generalizing count reader with
  | nil => refine ⟨hread.incoming_isPrefix, rfl, fun _ => hread, fun _ => rfl⟩
  | cons ciphertext ciphertexts ih =>
    obtain ⟨record, hrecord, hdecrypt⟩ := hcontinues 0 ciphertext rfl
    rw [Nat.add_zero] at hrecord hdecrypt
    obtain ⟨ready, rest, hpush, hrun, hreadNext⟩ := hread.push_record hmessages hrecord
    obtain ⟨queued, hqueued, hreader, hqueuedAll⟩ := queueMessages_spec handler
        { reader with
          receiveNonce := reader.receiveNonce + 1
          inboundDecoder := ⟨rest⟩ } ready
    have haccepts := fun hh : handler.Accepts =>
      queueMessages_of_accepts hh
        { reader with
          receiveNonce := reader.receiveNonce + 1
          inboundDecoder := ⟨rest⟩ } ready
    simp only [receiveCiphertexts, hread.nonce_eq, hdecrypt, hpush]
    rw [hread.nonce_eq] at hreader hqueuedAll haccepts
    generalize hqueue : queueMessages handler _ ready = outcome at *
    obtain ⟨next, result⟩ := outcome
    subst hreader
    cases result with
    | error error =>
      refine ⟨?_, rfl, ?_, ?_⟩
      · exact ((prefix_append_right_inj _).mpr hqueued).trans hrun
      · intro hok
        cases hok
      · intro hh
        cases haccepts hh
    | ok _ =>
      obtain rfl : queued = ready := hqueuedAll rfl
      rw [hread.nonce_eq] at hreadNext
      have hnext : Continues transport messages (count + 1)
          ciphertexts := by
        intro offset found hfound
        have hstep := hcontinues (offset + 1) found (by simpa using hfound)
        rwa [Nat.add_comm offset 1, ← Nat.add_assoc] at hstep
      have hih := ih hreadNext hnext
      rw [Nat.add_assoc, Nat.add_comm 1 ciphertexts.length] at hih
      exact hih

/-- Every new arrival beyond the first missing record is within the window
and the byte budget of the reorder buffer. -/
def WithinReorderLimits (sent : List Bytes) :
    Finset Nat → List RelayData → Prop
  | _, [] => True
  | arrived, data :: schedule =>
    (∀ missing < data.seq, FirstMissing arrived missing → data.seq ∉ arrived →
        data.seq - missing ≤ maxReorderDistance ∧
          heldBytes sent (insert data.seq arrived) missing ≤ maxPendingBytes) ∧
    WithinReorderLimits sent (insert data.seq arrived) schedule

instance decidableWithinReorderLimits (sent : List Bytes) :
    ∀ arrived schedule, Decidable (WithinReorderLimits sent arrived schedule)
  | _, [] => isTrue trivial
  | arrived, data :: schedule =>
    have := decidableWithinReorderLimits sent (insert data.seq arrived) schedule
    inferInstanceAs (Decidable (_ ∧ _))

/-- The frame numbered `seq` is the one at position `seq`. -/
theorem Wrote.getElem?_of_mem (hwrote : Wrote transport written writer) {data : RelayData}
    (hdata : data ∈ writer.outgoing) : writer.outgoing[data.seq]? = some data := by
  obtain ⟨seq, hseq⟩ := List.mem_iff_getElem?.mp hdata
  have hlt : seq < written.length := by
    rw [← hwrote.length_eq]
    exact (List.getElem?_eq_some_iff.mp hseq).1
  obtain ⟨ciphertext, hframe, -⟩ := hwrote.frame seq _ (List.getElem?_eq_getElem hlt)
  obtain rfl : data = ⟨seq, ciphertext⟩ := by
    rw [hseq] at hframe
    exact Option.some.inj hframe
  exact hseq

def Writer.payloads (writer : Writer) : List Bytes := writer.outgoing.map RelayData.payload

/-- What the buffer releases between two cursors decrypts to the records
between them. -/
theorem Wrote.continues {messages : List Bytes}
    (hwrote : Wrote transport (records messages) writer) {next : Nat} {ready : List Bytes}
    (hcount : count ≤ writer.payloads.length)
    (htake : writer.payloads.take next = writer.payloads.take count ++ ready) :
    Continues transport messages count ready := by
  intro offset ciphertext hciphertext
  have hsent : writer.payloads[count + offset]? = some ciphertext := by
    have hready : (writer.payloads.take next)[count + offset]? = some ciphertext := by
      rw [htake, getElem?_append_right (by simp)]
      simpa [Nat.min_eq_left hcount] using hciphertext
    rw [getElem?_take] at hready
    split at hready
    · exact hready
    · cases hready
  have hlt : count + offset < (records messages).length := by
    rw [← hwrote.length_eq]
    simpa [Writer.payloads] using (List.getElem?_eq_some_iff.mp hsent).1
  obtain ⟨found, hframe, hdecrypt⟩ := hwrote.frame _ _ (List.getElem?_eq_getElem hlt)
  rw [Writer.payloads, List.getElem?_map, hframe] at hsent
  obtain rfl : found = ciphertext := by simpa using hsent
  exact ⟨_, getElem?_eq_getElem hlt, hdecrypt⟩

/-- The reader after the frames numbered `arrived` have come in. -/
structure Follows (messages : List Bytes) (sent : List Bytes)
    (arrived : Finset Nat) (reader : NoiseVirtualStream) : Prop where
  tracks : Tracks sent arrived reader.inboundCiphertexts
  read : Read messages reader.inboundCiphertexts.nextSeq reader
  nextSeq_le : reader.inboundCiphertexts.nextSeq ≤ sent.length

section Run

variable {handler : Handler} {messages : List Bytes} {arrived : Finset Nat}
  (hmessages : ∀ message ∈ messages, Sendable message)
  (hwrote : Wrote transport (records messages) writer)
  (hcount : (records messages).length ≤ u32Max)
include hmessages hwrote hcount

/-- One frame of the relay.  What is handed out stays a run of the messages;
without an error the reader follows the enlarged set of arrivals; and an
accepting handler and the limits of the reorder buffer rule an error out. -/
theorem receiveData_spec {data : RelayData}
    (hfollows : Follows messages writer.payloads arrived reader)
    (hdata : data ∈ writer.outgoing) :
    let result := receiveData transport handler reader data
    (result.1.incoming <+: messages) ∧
      (result.2 = .ok () → Follows messages writer.payloads (insert data.seq arrived) result.1) ∧
      (handler.Accepts →
        (∀ missing < data.seq, FirstMissing arrived missing →
          data.seq ∉ arrived → ¬ ExceedsLimits writer.payloads arrived missing data.seq) →
        result.2 = .ok ()) := by
  have hsent : writer.payloads[data.seq]? = some data.payload := by
    rw [Writer.payloads, getElem?_map, hwrote.getElem?_of_mem hdata]
    rfl
  have hsentCount : writer.payloads.length ≤ u32Max := by
    rw [Writer.payloads, length_map, hwrote.length_eq]
    exact hcount
  rcases push_spec hfollows.tracks hsentCount hsent with
    ⟨frames, ready, hpush, htracks, htake⟩ |
    ⟨error, hpush, hgap, hnew, hexceeds⟩
  · have hcursor : frames.nextSeq ≤ writer.payloads.length := by
      by_contra hbeyond
      have hmem := htracks.released _ (Nat.lt_of_not_le hbeyond)
      exact Nat.lt_irrefl _ (htracks.arrived_lt _ hmem)
    have hlength : frames.nextSeq = reader.inboundCiphertexts.nextSeq + ready.length := by
      have hlengths := congrArg List.length htake
      rwa [length_append, length_take_of_le hcursor,
        length_take_of_le hfollows.nextSeq_le] at hlengths
    have hread : Read messages reader.inboundCiphertexts.nextSeq
        { reader with inboundCiphertexts := frames } :=
      ⟨hfollows.read.nonce_eq, hfollows.read.position⟩
    obtain ⟨hprefixed, hframes, hok, haccepts⟩ :=
      receiveCiphertexts_spec hmessages ready hread (hwrote.continues hfollows.nextSeq_le htake)
    simp only [receiveData, hpush]
    refine ⟨hprefixed, ?_, fun hh _ => haccepts hh⟩
    intro hrun
    have hreadNext := hok hrun
    rw [← hlength] at hreadNext
    refine ⟨?_, ?_, ?_⟩
    · rw [hframes]
      exact htracks
    · rw [hframes]
      exact hreadNext
    · rw [hframes]
      exact hcursor
  · simp only [receiveData, hpush]
    refine ⟨hfollows.read.incoming_isPrefix, ?_, ?_⟩
    · intro hrun
      cases hrun
    · intro _ hlimits
      exact absurd hexceeds
        (hlimits _ hgap ⟨hfollows.tracks.released, hfollows.tracks.missing⟩ hnew)

/-- A whole schedule. -/
theorem receiveAll_spec (schedule : List RelayData)
    (hschedule : ∀ data ∈ schedule, data ∈ writer.outgoing)
    (hfollows : Follows messages writer.payloads arrived reader) :
    let result := receiveAll transport handler reader schedule
    (result.1.incoming <+: messages) ∧
      (result.2 = .ok () → Follows messages writer.payloads
        ((schedule.map RelayData.seq).toFinset ∪ arrived) result.1) ∧
      (handler.Accepts →
        WithinReorderLimits writer.payloads arrived schedule →
        result.2 = .ok ()) := by
  induction schedule generalizing arrived reader with
  | nil =>
    refine ⟨hfollows.read.incoming_isPrefix, ?_, fun _ _ => rfl⟩
    intro _
    simpa [receiveAll] using hfollows
  | cons data schedule ih =>
    obtain ⟨hrun, hok, haccepts⟩ :=
      receiveData_spec hmessages hwrote hcount hfollows (hschedule data mem_cons_self)
    rw [receiveAll]
    generalize receiveData transport handler reader data = outcome at *
    obtain ⟨next, result⟩ := outcome
    cases result with
    | error error =>
      refine ⟨hrun, ?_, ?_⟩
      · intro hfalse
        cases hfalse
      · rintro hh ⟨hlimits, -⟩
        refine haccepts hh ?_
        intro missing hlt hmissing hnew hexceeds
        have hwithin := hlimits missing hlt hmissing hnew
        simp only [ExceedsLimits] at hexceeds
        omega
    | ok _ =>
      obtain ⟨hrunNext, hokNext, hacceptsNext⟩ :=
        ih (fun d hd => hschedule d (mem_cons_of_mem data hd)) (hok rfl)
      refine ⟨hrunNext, ?_, fun hh hlimits => hacceptsNext hh hlimits.2⟩
      intro hend
      have hfollowsNext := hokNext hend
      simpa using hfollowsNext

end Run

/-- Whatever the relay does with the sent frames, the reader hands out a run
of the sent messages, in order and each once.  If the relay delivers every
frame, within the window and the byte budget, and the handler takes every
message, the reader hands out all of them and reports no error. -/
theorem relay_delivers_sent_messages (transport : NoiseTransport) (htransport : transport.Inverts)
    (handler : Handler) (messages : List Bytes)
    (hmessages : ∀ message ∈ messages, Sendable message)
    (hcount : (records messages).length ≤ u32Max) (schedule : List RelayData)
    (hschedule : ∀ data ∈ schedule, data ∈ sentFrames transport messages) :
    ((receiveAll transport handler {} schedule).1.incoming <+: messages) ∧
      (handler.Accepts →
        (∀ data ∈ sentFrames transport messages, data ∈ schedule) →
        WithinReorderLimits ((sentFrames transport messages).map RelayData.payload) ∅ schedule →
        (receiveAll transport handler {} schedule).2 = .ok () ∧
          (receiveAll transport handler {} schedule).1.incoming = messages) := by
  have hwrote : Wrote transport (records messages) (writeMessages transport {} messages) := by
    have hrun := writeMessages_wrote htransport (wrote_initial transport)
      messages hmessages (by simpa using hcount)
    simpa using hrun
  have hfollows : Follows messages (writeMessages transport {} messages).payloads ∅ {} :=
    ⟨⟨buffers_initial _, by simp⟩, read_initial messages, Nat.zero_le _⟩
  obtain ⟨hrun, hok, haccepts⟩ :=
    receiveAll_spec hmessages hwrote hcount schedule hschedule hfollows
  refine ⟨hrun, ?_⟩
  intro hh hcomplete hlimits
  have hend := haccepts hh hlimits
  refine ⟨hend, (hok hend).read.incoming_eq ?_⟩
  -- The cursor is the first missing number, and nothing that was sent misses.
  by_contra hshort
  have hmissing := (hok hend).tracks.missing
  generalize (receiveAll transport handler {} schedule).1.inboundCiphertexts.nextSeq = next at *
  obtain ⟨ciphertext, hframe, -⟩ :=
    hwrote.frame next _ (getElem?_eq_getElem (Nat.lt_of_not_le hshort))
  have hmem := hcomplete ⟨next, ciphertext⟩ (mem_of_getElem? hframe)
  apply hmissing
  rw [Finset.mem_union, mem_toFinset]
  exact Or.inl (mem_map.mpr ⟨_, hmem, rfl⟩)

namespace Witness

/-- A transport that leaves records as they are. -/
def clearTransport : NoiseTransport where
  encrypt _ record := some record
  decrypt _ ciphertext := .ok ciphertext

def acceptAll : Handler := fun _ _ => .ok ()

def messages : List Bytes := [[7], [8, 9]]

/-- The second frame overtakes the first one and is then repeated. -/
def schedule : List RelayData :=
  [⟨1, [0, 0, 0, 2, 8, 9]⟩, ⟨0, [0, 0, 0, 1, 7]⟩, ⟨1, [0, 0, 0, 2, 8, 9]⟩]

theorem records_messages : records messages = [[0, 0, 0, 1, 7], [0, 0, 0, 2, 8, 9]] := by
  simp [messages, framed, u32ToBeBytes, chunks_of_ne_nil, noiseRecordPlaintextLen]

theorem sentFrames_messages :
    sentFrames clearTransport messages = [⟨0, [0, 0, 0, 1, 7]⟩, ⟨1, [0, 0, 0, 2, 8, 9]⟩] := by
  simp [sentFrames, messages, writeMessages, frameMessage, messageLengthPrefix,
    maxNoiseJsonrpcMessageLen, u32ToBeBytes, chunks_of_ne_nil, noiseRecordPlaintextLen,
    writeRecords, takeNextSequence, u32Max, clearTransport]

theorem relay_delivers_overtaken_frames :
    (receiveAll clearTransport acceptAll {} schedule).2 = .ok () ∧
      (receiveAll clearTransport acceptAll {} schedule).1.incoming = [[7], [8, 9]] := by
  refine (relay_delivers_sent_messages clearTransport ?_ acceptAll messages
    ?_ ?_ schedule ?_).2 ?_ ?_ ?_
  · exact fun _ record _ => ⟨record, rfl, rfl⟩
  · decide
  · rw [records_messages]
    decide
  · rw [sentFrames_messages]
    decide
  · exact fun _ _ => rfl
  · rw [sentFrames_messages]
    decide
  · rw [sentFrames_messages]
    decide

end Witness

end Hexa.NoiseRelay
