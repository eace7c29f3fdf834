import PiSecure.Model.Frames
import PiSecure.Theory.Wire

/-! # Frames do not depend on packets

The frames that `processMessages` finds are those of the stream. How the stream
was cut into chunks plays no part, and behind the header of a rejected frame no
byte reaches a handler.
-/

namespace PiSecure

/-- The five bytes of a header that ends the connection. -/
def Rejected (header : Bytes) (reason : String) : Prop :=
  ∃ type word, header = type :: word ∧ word.length = 4 ∧ rejection type (readLe word) = some reason

/-- A message whose frame is not rejected. -/
def Message.Sound (message : Message) : Prop :=
  rejection message.type.toByte message.payload.length = none

theorem leBytes_readLe (bytes : Bytes) : leBytes bytes.length (readLe bytes) = bytes := by
  induction bytes with
  | nil => rfl
  | cons byte bytes ih =>
      have below := byte.toNat_lt
      have low : UInt8.ofNat (byte.toNat + 256 * readLe bytes) = byte := by
        apply UInt8.toNat_inj.mp
        rw [UInt8.toNat_ofNat']
        omega
      have high : (byte.toNat + 256 * readLe bytes) / 256 = readLe bytes := by omega
      rw [List.length_cons, readLe, leBytes, low, high, ih]

theorem P2PMsgType.ofByte?_toByte (type : P2PMsgType) :
    P2PMsgType.ofByte? type.toByte = some type := by
  cases type <;> rfl

theorem P2PMsgType.toByte_of_ofByte? {byte : UInt8} {type : P2PMsgType}
    (found : P2PMsgType.ofByte? byte = some type) : type.toByte = byte := by
  have same := List.find?_some found
  exact eq_of_beq same

private theorem ofByte?_isSome_of_le : ∀ number < 14,
    (P2PMsgType.ofByte? (UInt8.ofNat number)).isSome := by
  decide

/-- Every type that is not rejected is known. -/
theorem exists_type {type : UInt8} {len : Nat} (passed : rejection type len = none) :
    ∃ msgType, P2PMsgType.ofByte? type = some msgType := by
  have known : ¬type > P2PMsgType.threatAlert.toByte := by
    intro unknown
    rw [rejection, if_pos unknown] at passed
    cases passed
  have small : type.toNat < 14 :=
    Nat.lt_succ_of_le (UInt8.le_iff_toNat_le.mp (UInt8.not_lt.mp known))
  have found := ofByte?_isSome_of_le type.toNat small
  rw [UInt8.ofNat_toNat] at found
  exact Option.isSome_iff_exists.mp found

theorem Message.Sound.length_le {message : Message} (sound : message.Sound) :
    message.payload.length ≤ kMaxMessageBytes := by
  rw [Message.Sound, rejection] at sound
  split at sound
  · cases sound
  split at sound
  · cases sound
  next fits => exact Nat.le_of_not_lt fits

/-- The length field of a sound message holds its length. -/
theorem Message.Sound.length_read {message : Message} (sound : message.Sound) :
    readLe (u32Bytes message.payload.length) = message.payload.length := by
  have bound := sound.length_le
  have size : kMaxMessageBytes = 2097152 := rfl
  rw [u32Bytes, readLe_leBytes]
  exact Nat.mod_eq_of_lt (by omega)

/-! ## One frame -/

variable {Server : Type} {handlers : Handlers Server} {peer next : Peer Server}

theorem four_bytes {word : Bytes} (length : word.length = 4) :
    ∃ len0 len1 len2 len3, word = [len0, len1, len2, len3] := by
  obtain ⟨len0, rest, rfl⟩ := List.exists_cons_of_length_eq_add_one length
  obtain ⟨len1, rest, rfl⟩ := List.exists_cons_of_length_eq_add_one (Nat.succ.inj length)
  obtain ⟨len2, rest, rfl⟩ :=
    List.exists_cons_of_length_eq_add_one (Nat.succ.inj (Nat.succ.inj length))
  obtain ⟨len3, rfl⟩ :=
    List.length_eq_one_iff.mp (Nat.succ.inj (Nat.succ.inj (Nat.succ.inj length)))
  exact ⟨len0, len1, len2, len3, rfl⟩

/-- A closed connection has no further pass. -/
theorem processFrame_closed (closed : peer.closed.isSome) : processFrame handlers peer = none :=
  if_pos closed

section Header

variable {type : UInt8} {word rest : Bytes} {reason : String} {msgType : P2PMsgType}

theorem processFrame_refuses (opened : peer.closed = none) (sized : word.length = 4)
    (buffer : peer.recvBuffer = type :: word ++ rest)
    (refused : rejection type (readLe word) = some reason) :
    processFrame handlers peer = some (peer.disconnect reason) := by
  obtain ⟨len0, len1, len2, len3, rfl⟩ := four_bytes sized
  simp only [processFrame, opened, buffer, List.cons_append, List.nil_append, refused,
    Option.isSome_none, Bool.false_eq_true, ↓reduceIte]

theorem processFrame_waits (opened : peer.closed = none) (sized : word.length = 4)
    (buffer : peer.recvBuffer = type :: word ++ rest)
    (passed : rejection type (readLe word) = none) (waits : rest.length < readLe word) :
    processFrame handlers peer = none := by
  obtain ⟨len0, len1, len2, len3, rfl⟩ := four_bytes sized
  simp only [processFrame, opened, buffer, List.cons_append, List.nil_append, passed, waits,
    Option.isSome_none, Bool.false_eq_true, ↓reduceIte]

theorem processFrame_takes (opened : peer.closed = none) (sized : word.length = 4)
    (buffer : peer.recvBuffer = type :: word ++ rest)
    (passed : rejection type (readLe word) = none) (complete : readLe word ≤ rest.length)
    (known : P2PMsgType.ofByte? type = some msgType) :
    processFrame handlers peer =
      some (afterDispatch handlers
        (dispatch handlers { peer with recvBuffer := rest.drop (readLe word) }
          ⟨msgType, rest.take (readLe word)⟩)) := by
  obtain ⟨len0, len1, len2, len3, rfl⟩ := four_bytes sized
  simp only [processFrame, opened, buffer, List.cons_append, List.nil_append, passed, known,
    Nat.not_lt.mpr complete, Option.isSome_none, Bool.false_eq_true, ↓reduceIte]

end Header

theorem processFrame_rejected (opened : peer.closed = none) {header rest : Bytes}
    {reason : String} (buffer : peer.recvBuffer = header ++ rest)
    (rejected : Rejected header reason) :
    processFrame handlers peer = some (peer.disconnect reason) := by
  obtain ⟨type, word, rfl, sized, refused⟩ := rejected
  exact processFrame_refuses opened sized buffer refused

theorem processFrame_message (opened : peer.closed = none) {message : Message} {rest : Bytes}
    (buffer : peer.recvBuffer = sendMessage message ++ rest) (sound : message.Sound) :
    processFrame handlers peer =
      some (afterDispatch handlers
        (dispatch handlers { peer with recvBuffer := rest } message)) := by
  have field : (u32Bytes message.payload.length).length = 4 := length_leBytes 4 _
  have parts : peer.recvBuffer = message.type.toByte :: u32Bytes message.payload.length ++
      (message.payload ++ rest) := by
    rw [buffer, sendMessage, List.append_assoc]
  have passed : rejection message.type.toByte (readLe (u32Bytes message.payload.length)) =
    none := by
    rw [sound.length_read]
    exact sound
  have complete : readLe (u32Bytes message.payload.length) ≤ (message.payload ++ rest).length := by
    rw [sound.length_read, List.length_append]
    omega
  have taken : processFrame handlers peer = _ := processFrame_takes opened field parts passed
    complete (P2PMsgType.ofByte?_toByte message.type)
  rwa [sound.length_read, List.take_left, List.drop_left] at taken

/-- Less than a header waits. -/
theorem processFrame_short (short : peer.recvBuffer.length < 5) :
    processFrame handlers peer = none := by
  rw [processFrame]
  split
  · rfl
  split
  next buffer =>
    rw [buffer] at short
    simp only [List.length_cons] at short
    omega
  · rfl

/-- A pass ends the connection for its next header, or dispatches the message in
front. -/
theorem processFrame_cases (step : processFrame handlers peer = some next) :
    peer.closed = none ∧
      ((∃ header rest reason, peer.recvBuffer = header ++ rest ∧ Rejected header reason ∧
          next = peer.disconnect reason) ∨
        ∃ message rest, peer.recvBuffer = sendMessage message ++ rest ∧ message.Sound ∧
          next = afterDispatch handlers
            (dispatch handlers { peer with recvBuffer := rest } message)) := by
  have opened : peer.closed = none := by
    by_contra closed
    rw [processFrame, if_pos (Option.isSome_iff_ne_none.mpr closed)] at step
    cases step
  refine ⟨opened, ?_⟩
  have long : ¬peer.recvBuffer.length < 5 := by
    intro short
    rw [processFrame_short short] at step
    cases step
  obtain ⟨type, tail, buffer⟩ := List.exists_cons_of_length_pos
    (Nat.lt_of_lt_of_le (by decide) (Nat.le_of_not_lt long))
  rw [buffer, List.length_cons] at long
  have sized : (tail.take 4).length = 4 := List.length_take_of_le (by omega)
  have parts : peer.recvBuffer = type :: tail.take 4 ++ tail.drop 4 := by
    rw [buffer, List.cons_append, List.take_append_drop]
  generalize (tail.take 4) = word, (tail.drop 4) = rest at sized parts
  cases passed : rejection type (readLe word) with
  | some reason =>
      rw [processFrame_refuses opened sized parts passed] at step
      cases step
      exact .inl ⟨type :: word, rest, reason, parts, ⟨type, word, rfl, sized, passed⟩, rfl⟩
  | none =>
      have complete : readLe word ≤ rest.length := by
        apply Nat.le_of_not_lt
        intro waits
        rw [processFrame_waits opened sized parts passed waits] at step
        cases step
      obtain ⟨msgType, known⟩ := exists_type passed
      have byte := P2PMsgType.toByte_of_ofByte? known
      have whole : (rest.take (readLe word)).length = readLe word :=
        List.length_take_of_le complete
      have field : u32Bytes (readLe word) = word := by
        rw [u32Bytes, ← sized, leBytes_readLe]
      rw [processFrame_takes opened sized parts passed complete known] at step
      cases step
      refine .inr ⟨⟨msgType, rest.take (readLe word)⟩, rest.drop (readLe word), ?_, ?_, rfl⟩
      · rw [sendMessage, whole, field, byte, parts, List.append_assoc, List.take_append_drop]
      · rw [Message.Sound, whole, byte]
        exact passed

/-! ## The steps of a connection -/

/-- Bytes that arrive and the passes of the loop. -/
def frameIntake (handlers : Handlers Server) : Intake (Peer Server) UInt8 :=
  ⟨Peer.append, processFrame handlers⟩

theorem append_closed (closed : peer.closed.isSome) (bytes : Bytes) : peer.append bytes = peer :=
  if_pos closed

theorem append_opened (opened : peer.closed = none) (bytes : Bytes) :
    peer.append bytes = { peer with recvBuffer := peer.recvBuffer ++ bytes } :=
  if_neg (by rw [opened]; exact Bool.false_ne_true)

theorem disconnect_append (reason : String) (bytes : Bytes) :
    (peer.disconnect reason).append bytes = peer.disconnect reason := rfl

theorem append_disconnect (opened : peer.closed = none) (reason : String) (bytes : Bytes) :
    (peer.append bytes).disconnect reason = peer.disconnect reason := by
  rw [append_opened opened]
  rfl

theorem dispatch_recvBuffer (message : Message) :
    (dispatch handlers peer message).recvBuffer = peer.recvBuffer := by
  rw [dispatch]
  split
  · rfl
  · rfl

theorem dispatch_dispatched (message : Message) :
    (dispatch handlers peer message).dispatched = peer.dispatched ++ [message] := by
  rw [dispatch]
  split
  · rfl
  · rfl

theorem afterDispatch_dispatched (peer : Peer Server) :
    (afterDispatch handlers peer).dispatched = peer.dispatched := by
  unfold afterDispatch
  split
  · rfl
  split
  · rfl
  · rfl

/-- The buffer is kept, unless the connection is closed. -/
theorem afterDispatch_recvBuffer (handlers : Handlers Server) (peer : Peer Server) :
    (afterDispatch handlers peer).recvBuffer = peer.recvBuffer ∨
      (afterDispatch handlers peer).recvBuffer = [] ∧
        (afterDispatch handlers peer).closed ≠ none := by
  unfold afterDispatch
  split
  next closed => exact .inr ⟨rfl, Option.isSome_iff_ne_none.mp closed⟩
  split
  · exact .inr ⟨rfl, Option.some_ne_none _⟩
  · exact .inl rfl

/-- The rule for the loop over the frames: what the handlers and the bans keep of the
server, the loop keeps. -/
theorem processMessages_keeps {Kept : Server → Prop}
    (handled : ∀ server message, Kept server → Kept (handlers.handle server message).1)
    (banned : ∀ server, Kept server → Kept (handlers.ban server)) (peer : Peer Server)
    (received : Received) (kept : Kept peer.server) :
    Kept (processMessages handlers peer received).server := by
  have dispatched : ∀ (peer : Peer Server) (message : Message), Kept peer.server →
      Kept (dispatch handlers peer message).server := by
    intro peer message kept
    unfold dispatch
    split
    · exact kept
    · exact handled _ _ kept
  have after : ∀ peer : Peer Server, Kept peer.server →
      Kept (afterDispatch handlers peer).server := by
    intro peer kept
    unfold afterDispatch
    split
    · exact kept
    split
    · exact banned _ kept
    · exact kept
  have frames : ∀ (fuel : Nat) (peer : Peer Server), Kept peer.server →
      Kept (processFrames handlers fuel peer).server := by
    intro fuel
    induction fuel with
    | zero => exact fun _ kept => kept
    | succ fuel ih =>
        intro peer kept
        rw [processFrames]
        split
        · exact kept
        next next step =>
          refine ih next ?_
          obtain ⟨_, ⟨_, _, _, _, _, rfl⟩ | ⟨message, rest, _, _, rfl⟩⟩ := processFrame_cases step
          · exact kept
          · exact after _ (dispatched _ _ kept)
  unfold processMessages
  split
  · exact kept
  split
  · exact kept
  · exact kept
  next opened _ chunk =>
    refine frames _ _ ?_
    rw [append_opened (Option.not_isSome_iff_eq_none.mp opened)]
    exact kept

/-- What a message does, does not depend on the bytes behind it. -/
theorem afterDispatch_append (message : Message) (rest more : Bytes) :
    afterDispatch handlers (dispatch handlers { peer with recvBuffer := rest ++ more } message) =
      (afterDispatch handlers
        (dispatch handlers { peer with recvBuffer := rest } message)).append more := by
  have moved : dispatch handlers { peer with recvBuffer := rest ++ more } message =
      { dispatch handlers { peer with recvBuffer := rest } message with
        recvBuffer := rest ++ more } := by
    rw [dispatch, dispatch]
    split
    · rfl
    · rfl
  have kept : (dispatch handlers { peer with recvBuffer := rest } message).recvBuffer = rest :=
    dispatch_recvBuffer message
  rw [moved]
  generalize dispatch handlers { peer with recvBuffer := rest } message = after at kept
  unfold afterDispatch
  by_cases closed : after.closed.isSome
  · rw [if_pos closed, if_pos closed]
    refine Eq.symm (append_closed ?_ more)
    exact closed
  rw [if_neg closed, if_neg closed]
  by_cases banned : handlers.shouldBan after.server
  · rw [if_pos banned, if_pos banned, disconnect_append]
    rfl
  · rw [if_neg banned, if_neg banned, append_opened (Option.not_isSome_iff_eq_none.mp closed), kept]

theorem steady_frameIntake (handlers : Handlers Server) : (frameIntake handlers).Steady where
  append_nil := by
    intro peer
    simp [frameIntake, Peer.append]
  append_append := by
    intro peer front back
    by_cases closed : peer.closed.isSome
    · simp [frameIntake, append_closed closed]
    · simp [frameIntake, Peer.append, closed]
  step_append := by
    intro peer next more step
    obtain ⟨opened, ⟨header, rest, reason, buffer, rejected, rfl⟩ |
      ⟨message, rest, buffer, sound, rfl⟩⟩ := processFrame_cases step
    · have filled : (peer.append more).recvBuffer = header ++ (rest ++ more) := by
        rw [append_opened opened, buffer, List.append_assoc]
      have still : (peer.append more).closed = none := by
        rw [append_opened opened]
        exact opened
      change processFrame handlers (peer.append more) = some ((peer.disconnect reason).append more)
      rw [processFrame_rejected still filled rejected, disconnect_append,
        append_disconnect opened]
    · have filled : (peer.append more).recvBuffer = sendMessage message ++ (rest ++ more) := by
        rw [append_opened opened, buffer, List.append_assoc]
      have still : (peer.append more).closed = none := by
        rw [append_opened opened]
        exact opened
      change processFrame handlers (peer.append more) = some (Peer.append _ more)
      rw [processFrame_message still filled sound, ← afterDispatch_append,
        append_opened opened]

/-- A pass uses up a part of the buffer. -/
theorem processFrame_shorter (step : processFrame handlers peer = some next) :
    next.recvBuffer.length < peer.recvBuffer.length := by
  obtain ⟨opened, ⟨header, rest, reason, buffer, rejected, rfl⟩ |
    ⟨message, rest, buffer, sound, rfl⟩⟩ := processFrame_cases step
  · obtain ⟨type, word, rfl, _, _⟩ := rejected
    rw [buffer]
    exact Nat.succ_pos _
  · have shorter : rest.length < peer.recvBuffer.length := by
      rw [buffer, sendMessage]
      simp only [List.length_append, List.length_cons]
      omega
    refine Nat.lt_of_le_of_lt ?_ shorter
    obtain kept | ⟨dropped, _⟩ := afterDispatch_recvBuffer handlers
      (dispatch handlers { peer with recvBuffer := rest } message)
    · rw [kept, dispatch_recvBuffer]
    · rw [dropped]
      exact Nat.zero_le _

/-- The loop has passes enough for its buffer. -/
theorem drains_processFrames (fuel : Nat) (enough : peer.recvBuffer.length ≤ fuel) :
    (frameIntake handlers).Drains peer (processFrames handlers fuel peer) := by
  induction fuel generalizing peer with
  | zero =>
      have empty : peer.recvBuffer.length < 5 := by omega
      exact Intake.Drains.refl (processFrame_short empty)
  | succ fuel ih =>
      rw [processFrames]
      cases step : processFrame handlers peer with
      | none => exact Intake.Drains.refl step
      | some next =>
          have shorter := processFrame_shorter step
          exact (ih (by omega)).head step

theorem drains_processMessages (peer : Peer Server) (chunk : Chunk) :
    (frameIntake handlers).Drains (peer.append chunk.bytes)
      (processMessages handlers peer (.chunk chunk)) := by
  rw [processMessages]
  by_cases closed : peer.closed.isSome
  · rw [if_pos closed, append_closed closed]
    exact Intake.Drains.refl (processFrame_closed closed)
  · rw [if_neg closed]
    exact drains_processFrames _ (Nat.le_refl _)

theorem idle_start (handlers : Handlers Server) (server : Server) :
    (frameIntake handlers).step (Peer.start server) = none := rfl

/-- Two ways to cut a stream leave the connection in one state. -/
theorem receive_eq (server : Server) {first second : List Chunk}
    (same : first.flatMap Chunk.bytes = second.flatMap Chunk.bytes) :
    receive handlers (Peer.start server) first = receive handlers (Peer.start server) second :=
  Intake.foldl_eq (steady_frameIntake handlers) drains_processMessages same
    (idle_start handlers server)

/-! ## What is dispatched -/

/-- The messages dispatched so far are sound, and their frames are the front of
the stream. The buffer follows, and is all that follows on an open connection. -/
structure Framed (stream : Bytes) (peer : Peer Server) : Prop where
  sound : ∀ message ∈ peer.dispatched, message.Sound
  front : ∃ rest, stream = peer.dispatched.flatMap sendMessage ++ (peer.recvBuffer ++ rest) ∧
    (peer.closed = none → rest = [])

theorem framed_start (server : Server) : Framed [] (Peer.start server) where
  sound := by
    intro message member
    cases member
  front := ⟨[], rfl, fun _ => rfl⟩

theorem Framed.append {stream : Bytes} (framed : Framed stream peer) (bytes : Bytes) :
    Framed (stream ++ bytes) (peer.append bytes) := by
  obtain ⟨rest, parts, followed⟩ := framed.front
  by_cases closed : peer.closed.isSome
  · rw [append_closed closed]
    refine ⟨framed.sound, rest ++ bytes, ?_, ?_⟩
    · simp only [parts, List.append_assoc]
    · intro opened
      rw [opened] at closed
      cases closed
  · have opened := Option.not_isSome_iff_eq_none.mp closed
    rw [append_opened opened]
    refine ⟨framed.sound, [], ?_, fun _ => rfl⟩
    simp only [parts, followed opened, List.append_assoc, List.append_nil]

theorem Framed.step {stream : Bytes} (framed : Framed stream peer)
    (step : processFrame handlers peer = some next) : Framed stream next := by
  obtain ⟨rest, parts, followed⟩ := framed.front
  obtain ⟨opened, ⟨header, behind, reason, buffer, rejected, rfl⟩ |
    ⟨message, behind, buffer, sound, rfl⟩⟩ := processFrame_cases step
  · refine ⟨framed.sound, peer.recvBuffer ++ rest, parts, ?_⟩
    intro still
    cases still
  · have joined : stream = (peer.dispatched ++ [message]).flatMap sendMessage ++ behind := by
      simp only [parts, buffer, followed opened, List.flatMap_append, List.flatMap_singleton,
        List.append_assoc, List.append_nil]
    refine ⟨?_, ?_⟩
    · intro other member
      rw [afterDispatch_dispatched, dispatch_dispatched, List.mem_append,
        List.mem_singleton] at member
      obtain earlier | rfl := member
      · exact framed.sound other earlier
      · exact sound
    · rw [afterDispatch_dispatched, dispatch_dispatched]
      obtain kept | ⟨dropped, closed⟩ := afterDispatch_recvBuffer handlers
        (dispatch handlers { peer with recvBuffer := behind } message)
      · rw [kept, dispatch_recvBuffer]
        refine ⟨[], ?_, fun _ => rfl⟩
        rw [List.append_nil]
        exact joined
      · rw [dropped]
        exact ⟨behind, joined, fun still => absurd still closed⟩

theorem Framed.drains {stream : Bytes} {final : Peer Server} (framed : Framed stream peer)
    (drains : (frameIntake handlers).Drains peer final) : Framed stream final := by
  have steps := drains.steps
  clear drains
  induction steps with
  | refl => exact framed
  | tail _ step ih => exact ih.step step

theorem Framed.receive {stream : Bytes} (framed : Framed stream peer) (chunks : List Chunk) :
    Framed (stream ++ chunks.flatMap Chunk.bytes) (receive handlers peer chunks) := by
  induction chunks generalizing stream peer with
  | nil =>
      rw [List.flatMap_nil, List.append_nil]
      exact framed
  | cons chunk chunks ih =>
      rw [List.flatMap_cons, ← List.append_assoc]
      exact ih ((framed.append chunk.bytes).drains (drains_processMessages peer chunk))

/-- The frame of a sound message tells the message and where it ends. -/
theorem sendMessage_inj {first second : Message} {rest more : Bytes} (one : first.Sound)
    (other : second.Sound) (same : sendMessage first ++ rest = sendMessage second ++ more) :
    first = second ∧ rest = more := by
  rw [sendMessage, sendMessage, List.append_assoc, List.append_assoc, List.cons_append,
    List.cons_append] at same
  obtain ⟨types, tails⟩ := List.cons.inj same
  have fields : (u32Bytes first.payload.length).length =
    (u32Bytes second.payload.length).length := by
    rw [u32Bytes, u32Bytes, length_leBytes, length_leBytes]
  obtain ⟨lengths, bodies⟩ := List.append_inj tails fields
  have length : first.payload.length = second.payload.length := by
    rw [← one.length_read, lengths, other.length_read]
  obtain ⟨payloads, tail⟩ := List.append_inj bodies length
  have known := P2PMsgType.ofByte?_toByte first.type
  rw [types, P2PMsgType.ofByte?_toByte] at known
  refine ⟨?_, tail⟩
  cases first
  cases second
  cases Option.some.inj known
  cases payloads
  rfl

/-- No sound frame starts with a rejected header. -/
theorem not_rejected {message : Message} (sound : message.Sound) {header rest tail : Bytes}
    {reason : String} (same : sendMessage message ++ rest = header ++ tail) :
    ¬Rejected header reason := by
  rintro ⟨type, word, rfl, sized, refused⟩
  rw [sendMessage, List.append_assoc, List.cons_append, List.cons_append] at same
  obtain ⟨rfl, tails⟩ := List.cons.inj same
  have fields : (u32Bytes message.payload.length).length = word.length := by
    rw [u32Bytes, length_leBytes, sized]
  obtain ⟨rfl, _⟩ := List.append_inj tails fields
  rw [sound.length_read, sound] at refused
  cases refused

/-- Messages in front of a stream are among those in front of its rejected header. -/
theorem prefix_of_rejected {taken messages : List Message} {header rest tail : Bytes}
    {reason : String} (takenSound : ∀ message ∈ taken, message.Sound)
    (sound : ∀ message ∈ messages, message.Sound) (rejected : Rejected header reason)
    (same : taken.flatMap sendMessage ++ rest =
      messages.flatMap sendMessage ++ (header ++ tail)) : taken <+: messages := by
  induction messages generalizing taken with
  | nil =>
      cases taken with
      | nil => exact List.prefix_refl []
      | cons first taken =>
          rw [List.flatMap_cons, List.append_assoc, List.flatMap_nil, List.nil_append] at same
          exact absurd rejected (not_rejected (takenSound first List.mem_cons_self) same)
  | cons message messages ih =>
      cases taken with
      | nil => exact List.nil_prefix
      | cons first taken =>
          rw [List.forall_mem_cons] at takenSound sound
          rw [List.flatMap_cons, List.flatMap_cons, List.append_assoc, List.append_assoc] at same
          obtain ⟨rfl, tails⟩ := sendMessage_inj takenSound.1 sound.1 same
          exact List.cons_prefix_cons.mpr ⟨rfl, ih takenSound.2 sound.2 tails⟩

/-- However a stream is cut into chunks, the connection dispatches the same
messages and is closed at the same one for the same reason; and of a stream with
a rejected header no message behind that header is dispatched. -/
theorem framing_ignores_packets (handlers : Handlers Server) (server : Server) :
    (∀ first second : List Chunk, first.flatMap Chunk.bytes = second.flatMap Chunk.bytes →
      receive handlers (Peer.start server) first = receive handlers (Peer.start server) second) ∧
    ∀ (chunks : List Chunk) (messages : List Message) (header tail : Bytes) (reason : String),
      (∀ message ∈ messages, message.Sound) → Rejected header reason →
      chunks.flatMap Chunk.bytes = messages.flatMap sendMessage ++ (header ++ tail) →
      (receive handlers (Peer.start server) chunks).dispatched <+: messages := by
  refine ⟨fun first second same => receive_eq server same, ?_⟩
  intro chunks messages header tail reason sound rejected parts
  have framed : Framed ([] ++ chunks.flatMap Chunk.bytes)
      (receive handlers (Peer.start server) chunks) := (framed_start server).receive chunks
  obtain ⟨rest, front, _⟩ := framed.front
  rw [List.nil_append, parts] at front
  exact prefix_of_rejected framed.sound sound rejected front.symm

/-- Nine bytes of a verack and of an unknown type, cut after the third one. -/
theorem framing_ignores_packets_verack :
    receive ⟨fun server _ => (server, none), fun _ => false, id⟩ (Peer.start ())
        [⟨[1, 0, 0], by decide, by decide⟩, ⟨[0, 0, 14, 0, 0, 0, 0], by decide, by decide⟩] =
      receive ⟨fun server _ => (server, none), fun _ => false, id⟩ (Peer.start ())
        [⟨[1, 0, 0, 0, 0, 14, 0, 0, 0, 0], by decide, by decide⟩] ∧
    (receive ⟨fun server _ => (server, none), fun _ => false, id⟩ (Peer.start ())
        [⟨[1, 0, 0, 0, 0, 14, 0, 0, 0, 0], by decide, by decide⟩]).dispatched <+:
      [⟨.verack, []⟩] :=
  ⟨(framing_ignores_packets _ ()).1 _ _ rfl,
    (framing_ignores_packets _ ()).2 _ [⟨.verack, []⟩] [14, 0, 0, 0, 0] []
      "Unknown message type" (by unfold Message.Sound; decide)
      ⟨14, [0, 0, 0, 0], rfl, rfl, by decide⟩ rfl⟩

/-! ## Messages that were sent -/

/-- Handlers that never end the connection. -/
structure Handlers.Tolerant (handlers : Handlers Server) : Prop where
  keeps : ∀ server message, (handlers.handle server message).2 = none
  unbanned : ∀ server, handlers.shouldBan server = false

theorem Handlers.Tolerant.afterDispatch (tolerant : handlers.Tolerant) (peer : Peer Server)
    (opened : peer.closed = none) (message : Message) :
    (afterDispatch handlers (dispatch handlers peer message)).closed = none ∧
      (afterDispatch handlers (dispatch handlers peer message)).recvBuffer = peer.recvBuffer := by
  have still : (dispatch handlers peer message).closed = none := by
    rw [dispatch]
    split
    · exact opened
    · exact tolerant.keeps _ _
  unfold PiSecure.afterDispatch
  rw [still, tolerant.unbanned]
  exact ⟨still, dispatch_recvBuffer message⟩

/-- A buffer of sound frames is dispatched to its end. -/
theorem drains_sent (tolerant : handlers.Tolerant) {messages : List Message}
    (sound : ∀ message ∈ messages, message.Sound) (opened : peer.closed = none)
    (buffer : peer.recvBuffer = messages.flatMap sendMessage) :
    ∃ final, (frameIntake handlers).Drains peer final ∧
      final.dispatched = peer.dispatched ++ messages ∧ final.recvBuffer = [] := by
  induction messages generalizing peer with
  | nil =>
      have short : peer.recvBuffer.length < 5 := by
        rw [buffer]
        exact Nat.succ_pos 4
      exact ⟨peer, Intake.Drains.refl (processFrame_short short), (List.append_nil _).symm, buffer⟩
  | cons message messages ih =>
      rw [List.forall_mem_cons] at sound
      rw [List.flatMap_cons] at buffer
      have step : processFrame handlers peer = _ := processFrame_message opened buffer sound.1
      obtain ⟨still, kept⟩ := tolerant.afterDispatch
        { peer with recvBuffer := messages.flatMap sendMessage } opened message
      obtain ⟨final, drains, dispatched, empty⟩ := ih sound.2 still kept
      refine ⟨final, drains.head step, ?_, empty⟩
      rw [dispatched, afterDispatch_dispatched, dispatch_dispatched, List.append_assoc]
      rfl

/-- With handlers that never end the connection, the messages that `sendMessage`
frames are the messages that are dispatched, whatever chunks they arrive in. -/
theorem sent_messages_arrive (tolerant : handlers.Tolerant) (server : Server)
    {messages : List Message} (sound : ∀ message ∈ messages, message.Sound) {chunks : List Chunk}
    (sent : chunks.flatMap Chunk.bytes = messages.flatMap sendMessage) :
    (receive handlers (Peer.start server) chunks).dispatched = messages ∧
      (receive handlers (Peer.start server) chunks).recvBuffer = [] := by
  have fed : (frameIntake handlers).Drains
      ((Peer.start server).append (chunks.flatMap Chunk.bytes))
      (receive handlers (Peer.start server) chunks) :=
    Intake.drains_foldl (steady_frameIntake handlers) drains_processMessages chunks
      (idle_start handlers server)
  have filled : ((Peer.start server).append (chunks.flatMap Chunk.bytes)).recvBuffer =
      messages.flatMap sendMessage := sent
  obtain ⟨final, drains, dispatched, empty⟩ := drains_sent tolerant sound
    (rfl : ((Peer.start server).append (chunks.flatMap Chunk.bytes)).closed = none) filled
  cases fed.unique drains
  exact ⟨dispatched, empty⟩

end PiSecure
