import PiSecure.Model.WebSocket

/-! # Messages arrive once and whole

However a message is cut into chunks, it reaches the parser once and as it was
sent, or is over the limit and answered with one error. The connection is then as
it was before the message.
-/

namespace PiSecure

/-- A message that is sent in chunks; the last one is marked. -/
structure Fragments where
  early : List Bytes
  last : Bytes

namespace Fragments

/-- The bytes of all chunks in order. -/
def bytes (message : Fragments) : Bytes := message.early.flatten ++ message.last

/-- The chunks as they are received. -/
def chunks (message : Fragments) : List WsChunk :=
  message.early.map (⟨·, false⟩) ++ [⟨message.last, true⟩]

/-- What a message leads to after some bytes of it were buffered. -/
inductive Answer (message : Fragments) : WsEvent → Prop where
  | whole : message.bytes.length ≤ kMaxWsMessage → Answer message (.message message.bytes)
  | limit (before after : List Bytes) (chunk : Bytes) :
      message.early ++ [message.last] = before ++ chunk :: after →
      before.flatten.length ≤ kMaxWsMessage →
      kMaxWsMessage < (before.flatten ++ chunk).length →
      Answer message (.limit (limitReason before.flatten))

end Fragments

namespace WsConnData

/-! ## The buffer -/

/-- A connection that has not buffered too much. -/
def Bounded (ud : WsConnData) : Prop := ud.rx.length ≤ kMaxWsMessage

theorem Bounded.receive {ud : WsConnData} (bounded : ud.Bounded) (chunk : WsChunk) :
    (ud.receive chunk).1.Bounded := by
  unfold WsConnData.receive
  split
  · split
    · exact Nat.zero_le _
    · exact bounded
  · split
    · exact Nat.zero_le _
    next fits =>
      split
      · rw [Bounded, List.length_append]
        exact Nat.not_lt.mp fits
      · exact Nat.zero_le _

/-- The buffer stays within the limit, whatever is received. -/
theorem Bounded.play {ud final : WsConnData} (bounded : ud.Bounded) {chunks : List WsChunk}
    {events : List WsEvent} (played : machine.play ud chunks = some (events, final)) :
    final.Bounded := by
  have run : machine.Runs (fun _ _ => True) ud chunks events final :=
    Machine.Runs.of_play (Machine.Permits.of_forall fun _ _ _ => trivial) played
  refine @Machine.Runs.invariant _ _ _ machine (fun _ _ => True) ud (fun _ state => state.Bounded)
    bounded ?_ chunks events final run
  intro log state chunk next held _ stepped
  cases stepped
  exact held.receive chunk

/-! ## One message -/

theorem play_of_receive {ud next : WsConnData} {chunk : WsChunk} {events : List WsEvent}
    (received : ud.receive chunk = (next, events)) :
    machine.play ud [chunk] = some (events, next) := by
  have played := @Machine.play_singleton _ _ _ machine ud _ chunk rfl
  change machine.play ud [chunk] = some ((ud.receive chunk).2, (ud.receive chunk).1) at played
  rwa [received] at played

theorem play_cons_of_receive {ud next final : WsConnData} {chunk : WsChunk} {chunks : List WsChunk}
    {events more : List WsEvent} (received : ud.receive chunk = (next, events))
    (later : machine.play next chunks = some (more, final)) :
    machine.play ud (chunk :: chunks) = some (events ++ more, final) :=
  Machine.play_append (play_of_receive received) later

/-- The rest of a message over the limit is passed over. -/
theorem play_skip (early : List Bytes) (last : Bytes) :
    machine.play ⟨[], true⟩ (Fragments.chunks ⟨early, last⟩) = some ([], established) := by
  induction early with
  | nil => rfl
  | cons chunk rest ih => exact play_cons_of_receive rfl ih

theorem receive_over {rx chunk : Bytes} (over_limit : rx.length + chunk.length > kMaxWsMessage)
    (final : Bool) :
    receive ⟨rx, false⟩ ⟨chunk, final⟩ = (⟨[], !final⟩, [.limit (limitReason rx)]) := by
  rw [receive, if_neg Bool.false_ne_true, if_pos over_limit]

theorem receive_within {rx chunk : Bytes} (within : ¬rx.length + chunk.length > kMaxWsMessage) :
    receive ⟨rx, false⟩ ⟨chunk, false⟩ = (⟨rx ++ chunk, false⟩, []) ∧
      receive ⟨rx, false⟩ ⟨chunk, true⟩ = (established, [.message (rx ++ chunk)]) := by
  constructor
  · rw [receive, if_neg Bool.false_ne_true, if_neg within, if_pos Bool.false_ne_true]
  · rw [receive, if_neg Bool.false_ne_true, if_neg within, if_neg (not_not.mpr rfl)]
    rfl

/-- A message whose first chunks are buffered leads to one event. -/
theorem play_rest (before early : List Bytes) (last : Bytes)
    (fits : before.flatten.length ≤ kMaxWsMessage) :
    ∃ event, Fragments.Answer ⟨before ++ early, last⟩ event ∧
      machine.play ⟨before.flatten, false⟩ (Fragments.chunks ⟨early, last⟩) =
        some ([event], established) := by
  induction early generalizing before with
  | nil =>
      rw [List.append_nil]
      by_cases long : before.flatten.length + last.length > kMaxWsMessage
      · refine ⟨_, .limit before [] last rfl fits ?_, play_of_receive (receive_over long true)⟩
        rwa [List.length_append]
      · refine ⟨_, .whole ?_, play_of_receive (receive_within long).2⟩
        rw [Fragments.bytes, List.length_append]
        exact Nat.not_lt.mp long
  | cons chunk rest ih =>
      by_cases long : before.flatten.length + chunk.length > kMaxWsMessage
      · refine ⟨_, .limit before (rest ++ [last]) chunk ?_ fits ?_,
          play_cons_of_receive (receive_over long false) (play_skip rest last)⟩
        · rw [List.append_assoc, List.cons_append]
        · rwa [List.length_append]
      · have grown : (before ++ [chunk]).flatten = before.flatten ++ chunk := by
          rw [List.flatten_append, List.flatten_singleton]
        obtain ⟨event, answer, played⟩ := ih (before ++ [chunk]) (by
          rw [grown, List.length_append]
          exact Nat.not_lt.mp long)
        rw [List.append_assoc, List.singleton_append] at answer
        rw [grown] at played
        exact ⟨event, answer, play_cons_of_receive (receive_within long).1 played⟩

/-- Messages that are cut into chunks in any way lead to one event each, in order. -/
theorem play_messages (messages : List Fragments) :
    ∃ events, machine.play established (messages.flatMap Fragments.chunks) =
      some (events, established) ∧ List.Forall₂ Fragments.Answer messages events := by
  induction messages with
  | nil => exact ⟨[], rfl, .nil⟩
  | cons message rest ih =>
      obtain ⟨event, answer, played⟩ := play_rest [] message.early message.last (Nat.zero_le _)
      obtain ⟨events, playedRest, answers⟩ := ih
      exact ⟨event :: events, Machine.play_append played playedRest, .cons answer answers⟩

/-- **Reassembly.** A message within the limit arrives once and whole, a larger one is
answered with one error, whatever came before, and the buffer never exceeds the limit. -/
theorem reassembly (messages : List Fragments) :
    (∃ events, machine.play established (messages.flatMap Fragments.chunks) =
        some (events, established) ∧ List.Forall₂ Fragments.Answer messages events) ∧
      ∀ chunks events ud, machine.play established chunks = some (events, ud) →
        ud.rx.length ≤ kMaxWsMessage :=
  ⟨play_messages messages, fun _ _ _ played => Bounded.play (Nat.zero_le _) played⟩

/-! ## What is parsed -/

/-- A message that is admitted to the parser. -/
def Admitted (msg : Bytes) : Bool := decide (msg.length ≤ kMaxWsMessage) && (sizeReason msg).isNone

theorem parsed_of_answer {message : Fragments} {event : WsEvent} (answer : message.Answer event) :
    event.parsed = if Admitted message.bytes then some message.bytes else none := by
  cases answer with
  | whole fits =>
      rw [WsEvent.parsed, Admitted, decide_eq_true fits, Bool.true_and]
      cases sizeReason message.bytes <;> rfl
  | limit before after chunk cut fits trips =>
      have long : ¬message.bytes.length ≤ kMaxWsMessage := by
        have whole : message.bytes = before.flatten ++ chunk ++ after.flatten := by
          have flat := congrArg List.flatten cut
          rw [List.flatten_append, List.flatten_singleton, List.flatten_append, List.flatten_cons,
            ← List.append_assoc] at flat
          exact flat
        rw [whole, List.length_append]
        omega
      rw [Admitted, decide_eq_false long]
      rfl

/-- The parser gets the admitted messages, each once and in order. -/
theorem parsed_messages {messages : List Fragments} {events : List WsEvent} {ud : WsConnData}
    (played : machine.play established (messages.flatMap Fragments.chunks) = some (events, ud)) :
    events.filterMap WsEvent.parsed = (messages.map Fragments.bytes).filter Admitted := by
  obtain ⟨listed, same, answers⟩ := play_messages messages
  rw [same] at played
  cases played
  clear same
  induction answers with
  | nil => rfl
  | @cons message event messages events answer _ ih =>
      rw [List.filterMap_cons, parsed_of_answer answer, List.map_cons, List.filter_cons]
      cases Admitted message.bytes with
      | true => exact congrArg (message.bytes :: ·) ih
      | false => exact ih

end WsConnData

end PiSecure
