import PiSecure.General.Run

/-! # Two parties and their channels

Two parties send each other messages over channels that keep the order. A party is
determined by the messages it receives; when a message is delivered is left open. If one
order of deliveries ends with nothing on its way, then every order ends there, and on the
way a party is only in states that it passes in that one order, too.
-/

namespace PiSecure

/-- A party: how a message changes it, and what it has sent so far. -/
structure Party (State In Out : Type) where
  receive : State → In → State
  sent : State → List Out
  sent_receive : ∀ state message, sent state <+: sent (receive state message)

namespace Party

variable {State In Out : Type} (party : Party State In Out)

/-- The party after some messages. -/
def after (state : State) (messages : List In) : State := messages.foldl party.receive state

theorem after_snoc (state : State) (messages : List In) (message : In) :
    party.after state (messages ++ [message]) =
      party.receive (party.after state messages) message := by
  rw [after, List.foldl_append]
  rfl

theorem sent_after (state : State) (messages : List In) :
    party.sent state <+: party.sent (party.after state messages) := by
  induction messages generalizing state with
  | nil => exact List.prefix_refl _
  | cons message rest ih => exact (party.sent_receive state message).trans (ih _)

/-- With more messages received, more is sent. -/
theorem sent_after_prefix (state : State) {few many : List In} (front : few <+: many) :
    party.sent (party.after state few) <+: party.sent (party.after state many) := by
  obtain ⟨rest, rfl⟩ := front
  rw [after, after, List.foldl_append]
  exact party.sent_after _ rest

end Party

/-- The receiver of a message. -/
inductive Side where
  | left | right

/-- Two parties, with the number of messages that each has received from the other. -/
structure Exchange (Left Right : Type) where
  left : Left
  right : Right
  leftRead : Nat
  rightRead : Nat

namespace Exchange

variable {Left Right ToLeft ToRight : Type}
variable (left : Party Left ToLeft ToRight) (right : Party Right ToRight ToLeft)

/-- Two parties before the first delivery. -/
def start (first : Left) (second : Right) : Exchange Left Right := ⟨first, second, 0, 0⟩

/-- The delivery of the next message to one side, when there is one. -/
def deliver (exchange : Exchange Left Right) : Side → Option (Exchange Left Right)
  | .left =>
      (right.sent exchange.right)[exchange.leftRead]?.map fun message =>
        { exchange with
          left := left.receive exchange.left message
          leftRead := exchange.leftRead + 1 }
  | .right =>
      (left.sent exchange.left)[exchange.rightRead]?.map fun message =>
        { exchange with
          right := right.receive exchange.right message
          rightRead := exchange.rightRead + 1 }

/-- The deliveries as a machine. -/
def machine : Machine (Exchange Left Right) Side Unit := ⟨deliver left right, fun _ _ => []⟩

/-- Nothing is on its way. -/
def Quiet (exchange : Exchange Left Right) : Prop :=
  exchange.leftRead = (right.sent exchange.right).length ∧
    exchange.rightRead = (left.sent exchange.left).length

variable {left right} {exchange next final : Exchange Left Right}

theorem deliver_left_eq (delivered : deliver left right exchange .left = some next) :
    ∃ message, (right.sent exchange.right)[exchange.leftRead]? = some message ∧
      next = { exchange with
        left := left.receive exchange.left message
        leftRead := exchange.leftRead + 1 } := by
  obtain ⟨message, sent, rfl⟩ := Option.map_eq_some_iff.mp delivered
  exact ⟨message, sent, rfl⟩

theorem deliver_right_eq (delivered : deliver left right exchange .right = some next) :
    ∃ message, (left.sent exchange.left)[exchange.rightRead]? = some message ∧
      next = { exchange with
        right := right.receive exchange.right message
        rightRead := exchange.rightRead + 1 } := by
  obtain ⟨message, sent, rfl⟩ := Option.map_eq_some_iff.mp delivered
  exact ⟨message, sent, rfl⟩

/-- Where a message is on its way, a delivery is possible. -/
theorem exists_deliver (leftRead : exchange.leftRead ≤ (right.sent exchange.right).length)
    (rightRead : exchange.rightRead ≤ (left.sent exchange.left).length)
    (restless : ¬Quiet left right exchange) :
    ∃ side next, deliver left right exchange side = some next := by
  by_cases waiting : exchange.leftRead < (right.sent exchange.right).length
  · refine ⟨.left, { exchange with
      left := left.receive exchange.left (right.sent exchange.right)[exchange.leftRead]
      leftRead := exchange.leftRead + 1 }, ?_⟩
    rw [deliver, List.getElem?_eq_getElem waiting]
    rfl
  · have other : exchange.rightRead < (left.sent exchange.left).length := by
      refine Nat.lt_of_le_of_ne rightRead fun same => restless ⟨?_, same⟩
      omega
    refine ⟨.right, { exchange with
      right := right.receive exchange.right (left.sent exchange.left)[exchange.rightRead]
      rightRead := exchange.rightRead + 1 }, ?_⟩
    rw [deliver, List.getElem?_eq_getElem other]
    rfl

/-! ## Histories -/

/-- Each side is where the messages that it has received so far bring it. -/
structure History (left : Party Left ToLeft ToRight) (right : Party Right ToRight ToLeft)
    (first : Left) (second : Right) (exchange : Exchange Left Right) : Prop where
  left_eq : exchange.left =
    left.after first ((right.sent exchange.right).take exchange.leftRead)
  right_eq : exchange.right =
    right.after second ((left.sent exchange.left).take exchange.rightRead)
  leftRead_le : exchange.leftRead ≤ (right.sent exchange.right).length
  rightRead_le : exchange.rightRead ≤ (left.sent exchange.left).length

variable {first : Left} {second : Right}

theorem History.start : History left right first second (Exchange.start first second) where
  left_eq := by rfl
  right_eq := by rfl
  leftRead_le := Nat.zero_le _
  rightRead_le := Nat.zero_le _

/-- A message more of a list whose front has been read. -/
private theorem take_front {Symbol : Type} {few many : List Symbol} {count : Nat}
    (front : few <+: many) (inside : count ≤ few.length) : many.take count = few.take count := by
  obtain ⟨rest, rfl⟩ := front
  exact List.take_append_of_le_length inside

theorem History.deliver (history : History left right first second exchange) {side : Side}
    (delivered : Exchange.deliver left right exchange side = some next) :
    History left right first second next := by
  cases side with
  | left =>
      obtain ⟨message, sent, rfl⟩ := deliver_left_eq delivered
      obtain ⟨inside, same⟩ := List.getElem?_eq_some_iff.mp sent
      have more := left.sent_receive exchange.left message
      refine ⟨?_, ?_, inside, Nat.le_trans history.rightRead_le more.length_le⟩
      · dsimp only
        rw [List.take_add_one, sent, Option.toList_some, Party.after_snoc, ← history.left_eq]
      · dsimp only
        rw [take_front more history.rightRead_le]
        exact history.right_eq
  | right =>
      obtain ⟨message, sent, rfl⟩ := deliver_right_eq delivered
      obtain ⟨inside, same⟩ := List.getElem?_eq_some_iff.mp sent
      have more := right.sent_receive exchange.right message
      refine ⟨?_, ?_, Nat.le_trans history.leftRead_le more.length_le, inside⟩
      · dsimp only
        rw [take_front more history.leftRead_le]
        exact history.left_eq
      · dsimp only
        rw [List.take_add_one, sent, Option.toList_some, Party.after_snoc, ← history.right_eq]

theorem History.of_runs {allowed : Exchange Left Right → Side → Prop} {calls : List Side}
    {log : List Unit}
    (run : (machine left right).Runs allowed (Exchange.start first second) calls log exchange) :
    History left right first second exchange := by
  induction run with
  | nil => exact .start
  | call _ _ stepped ih => exact ih.deliver stepped

/-- A run has as many steps as messages were received. -/
theorem length_of_runs {allowed : Exchange Left Right → Side → Prop} {calls : List Side}
    {log : List Unit}
    (run : (machine left right).Runs allowed (Exchange.start first second) calls log exchange) :
    calls.length = exchange.leftRead + exchange.rightRead := by
  induction run with
  | nil => rfl
  | @call calls log state next side _ _ stepped ih =>
      rw [List.length_append, List.length_singleton, ih]
      cases side with
      | left =>
          obtain ⟨_, _, rfl⟩ := deliver_left_eq stepped
          dsimp only
          omega
      | right =>
          obtain ⟨_, _, rfl⟩ := deliver_right_eq stepped
          dsimp only
          omega

/-! ## One end -/

/-- An exchange is behind an end: each side has received a part of what it receives until
then. -/
structure Behind (left : Party Left ToLeft ToRight) (right : Party Right ToRight ToLeft)
    (first : Left) (second : Right) (exchange final : Exchange Left Right) : Prop where
  leftRead_le : exchange.leftRead ≤ final.leftRead
  rightRead_le : exchange.rightRead ≤ final.rightRead
  left_eq : exchange.left = left.after first ((right.sent final.right).take exchange.leftRead)
  right_eq : exchange.right = right.after second ((left.sent final.left).take exchange.rightRead)

/-- What a side that is behind has sent is a part of what it sends until the end. -/
theorem Behind.sent_left (behind : Behind left right first second exchange final)
    (history : History left right first second final) :
    left.sent exchange.left <+: left.sent final.left := by
  rw [behind.left_eq, history.left_eq]
  exact left.sent_after_prefix first (List.take_prefix_take_left behind.leftRead_le)

theorem Behind.sent_right (behind : Behind left right first second exchange final)
    (history : History left right first second final) :
    right.sent exchange.right <+: right.sent final.right := by
  rw [behind.right_eq, history.right_eq]
  exact right.sent_after_prefix second (List.take_prefix_take_left behind.rightRead_le)

private theorem getElem?_of_prefix {Symbol : Type} {few many : List Symbol} {place : Nat}
    {symbol : Symbol} (front : few <+: many) (listed : few[place]? = some symbol) :
    many[place]? = some symbol := by
  obtain ⟨rest, rfl⟩ := front
  obtain ⟨inside, same⟩ := List.getElem?_eq_some_iff.mp listed
  rw [List.getElem?_append_left inside]
  exact listed

/-- Every delivery stays behind an end at which nothing is on its way. -/
theorem Behind.deliver (behind : Behind left right first second exchange final)
    (history : History left right first second final) (quiet : Quiet left right final)
    {side : Side} (delivered : Exchange.deliver left right exchange side = some next) :
    Behind left right first second next final := by
  cases side with
  | left =>
      obtain ⟨message, sent, rfl⟩ := deliver_left_eq delivered
      have listed := getElem?_of_prefix (behind.sent_right history) sent
      have inside := (List.getElem?_eq_some_iff.mp listed).1
      rw [← quiet.1] at inside
      refine ⟨inside, behind.rightRead_le, ?_, behind.right_eq⟩
      dsimp only
      rw [List.take_add_one, listed, Option.toList_some, Party.after_snoc, ← behind.left_eq]
  | right =>
      obtain ⟨message, sent, rfl⟩ := deliver_right_eq delivered
      have listed := getElem?_of_prefix (behind.sent_left history) sent
      have inside := (List.getElem?_eq_some_iff.mp listed).1
      rw [← quiet.2] at inside
      refine ⟨behind.leftRead_le, inside, behind.left_eq, ?_⟩
      dsimp only
      rw [List.take_add_one, listed, Option.toList_some, Party.after_snoc, ← behind.right_eq]

theorem Behind.of_runs {allowed : Exchange Left Right → Side → Prop} {calls : List Side}
    {log : List Unit}
    (run : (machine left right).Runs allowed (Exchange.start first second) calls log exchange)
    (history : History left right first second final) (quiet : Quiet left right final) :
    Behind left right first second exchange final := by
  induction run with
  | nil => exact ⟨Nat.zero_le _, Nat.zero_le _, rfl, rfl⟩
  | call _ _ stepped ih => exact ih.deliver history quiet stepped

/-- Two ends at which nothing is on its way are the same. -/
theorem Behind.antisymm (one : Behind left right first second exchange final)
    (other : Behind left right first second final exchange)
    (history : History left right first second final) : exchange = final := by
  have leftRead : exchange.leftRead = final.leftRead :=
    Nat.le_antisymm one.leftRead_le other.leftRead_le
  have rightRead : exchange.rightRead = final.rightRead :=
    Nat.le_antisymm one.rightRead_le other.rightRead_le
  have leftSame : exchange.left = final.left := by
    rw [one.left_eq, leftRead, ← history.left_eq]
  have rightSame : exchange.right = final.right := by
    rw [one.right_eq, rightRead, ← history.right_eq]
  cases exchange
  cases final
  cases leftRead
  cases rightRead
  cases leftSame
  cases rightSame
  rfl

variable {holds allowed : Exchange Left Right → Side → Prop} {calls others : List Side}
  {log rest : List Unit}

/-- **Every order of deliveries ends in the same place.** With one run to an end at which
nothing is on its way, no run has more steps, and one that cannot go on ends there. -/
theorem settles
    (run : (machine left right).Runs holds (start first second) calls log final)
    (quiet : Quiet left right final)
    (other : (machine left right).Runs allowed (start first second) others rest exchange) :
    others.length ≤ calls.length ∧
      ((∀ side, deliver left right exchange side = none) → exchange = final) := by
  have history := History.of_runs run
  have behind := Behind.of_runs other history quiet
  refine ⟨?_, ?_⟩
  · rw [length_of_runs run, length_of_runs other]
    exact Nat.add_le_add behind.leftRead_le behind.rightRead_le
  · intro stuck
    have there := History.of_runs other
    have settled : Quiet left right exchange := by
      by_contra restless
      obtain ⟨side, next, possible⟩ :=
        exists_deliver there.leftRead_le there.rightRead_le restless
      rw [stuck side] at possible
      cases possible
    exact behind.antisymm (Behind.of_runs run there settled) history

/-! ## What one run passes -/

variable {Good : Exchange Left Right → Prop}

/-- Whether a run through good states passes one with a number of received messages. -/
private theorem exists_passed (count : Exchange Left Right → Nat)
    (begins : count (start first second) = 0)
    (grows : ∀ {exchange next : Exchange Left Right} {side : Side},
      deliver left right exchange side = some next → count next ≤ count exchange + 1)
    (run : (machine left right).Runs (fun passed _ => Good passed) (start first second) calls log
      exchange)
    (good : Good exchange) {number : Nat} (inside : number ≤ count exchange) :
    ∃ before events passed, (machine left right).Runs (fun passed _ => Good passed)
      (start first second) before events passed ∧ Good passed ∧ count passed = number := by
  induction run with
  | nil => exact ⟨[], [], _, .nil, good, by omega⟩
  | @call calls log state next side earlier was stepped ih =>
      rcases Nat.lt_or_ge (count state) number with beyond | reached
      · have step := grows stepped
        exact ⟨_, _, next, .call earlier was stepped, good, by omega⟩
      · exact ih was reached

private theorem leftRead_le_succ {side : Side}
    (delivered : deliver left right exchange side = some next) :
    next.leftRead ≤ exchange.leftRead + 1 := by
  cases side with
  | left =>
      obtain ⟨_, _, rfl⟩ := deliver_left_eq delivered
      exact Nat.le_refl _
  | right =>
      obtain ⟨_, _, rfl⟩ := deliver_right_eq delivered
      exact Nat.le_succ _

private theorem rightRead_le_succ {side : Side}
    (delivered : deliver left right exchange side = some next) :
    next.rightRead ≤ exchange.rightRead + 1 := by
  cases side with
  | left =>
      obtain ⟨_, _, rfl⟩ := deliver_left_eq delivered
      exact Nat.le_succ _
  | right =>
      obtain ⟨_, _, rfl⟩ := deliver_right_eq delivered
      exact Nat.le_refl _

/-- **No order of deliveries shows a side a new state.** When one run to an end at which
nothing is on its way passes good states only, every run is in states that good states of
that one run share with it, one for each side. -/
theorem passes
    (run : (machine left right).Runs (fun passed _ => Good passed) (start first second) calls log
      final)
    (good : Good final) (quiet : Quiet left right final)
    (other : (machine left right).Runs allowed (start first second) others rest exchange) :
    (∃ passed, Good passed ∧ exchange.left = passed.left) ∧
      ∃ passed, Good passed ∧ exchange.right = passed.right := by
  have history := History.of_runs run
  have behind := Behind.of_runs other history quiet
  constructor
  · obtain ⟨_, _, passed, reached, isGood, same⟩ :=
      exists_passed leftRead rfl leftRead_le_succ run good behind.leftRead_le
    refine ⟨passed, isGood, ?_⟩
    rw [behind.left_eq, (Behind.of_runs reached history quiet).left_eq, same]
  · obtain ⟨_, _, passed, reached, isGood, same⟩ :=
      exists_passed rightRead rfl rightRead_le_succ run good behind.rightRead_le
    refine ⟨passed, isGood, ?_⟩
    rw [behind.right_eq, (Behind.of_runs reached history quiet).right_eq, same]

/-! ## One order of deliveries -/

/-- The messages that are on their way to each side. -/
structure Pending (left : Party Left ToLeft ToRight) (right : Party Right ToRight ToLeft)
    (exchange : Exchange Left Right) (toLeft : List ToLeft) (toRight : List ToRight) : Prop where
  forLeft : ∃ read, right.sent exchange.right = read ++ toLeft ∧ exchange.leftRead = read.length
  forRight : ∃ read, left.sent exchange.left = read ++ toRight ∧ exchange.rightRead = read.length

variable {toLeft : List ToLeft} {toRight : List ToRight}

theorem Pending.start (first : Left) (second : Right) :
    Pending left right (Exchange.start first second) (right.sent second) (left.sent first) :=
  ⟨⟨[], rfl, rfl⟩, ⟨[], rfl, rfl⟩⟩

theorem Pending.quiet (pending : Pending left right exchange [] []) :
    Quiet left right exchange := by
  obtain ⟨⟨fromRight, toLeft, leftRead⟩, fromLeft, toRight, rightRead⟩ := pending
  rw [List.append_nil] at toLeft toRight
  exact ⟨by rw [toLeft, leftRead], by rw [toRight, rightRead]⟩

/-- Some deliveries lead from one exchange to another, through good ones. -/
def Goes (left : Party Left ToLeft ToRight) (right : Party Right ToRight ToLeft)
    (Good : Exchange Left Right → Prop) (exchange next : Exchange Left Right) : Prop :=
  ∃ calls log, (machine left right).Runs (fun passed _ => Good passed) exchange calls log next

theorem Goes.refl (exchange : Exchange Left Right) : Goes left right Good exchange exchange :=
  ⟨[], [], .nil⟩

theorem Goes.trans {middle : Exchange Left Right} (goes : Goes left right Good exchange middle)
    (more : Goes left right Good middle next) : Goes left right Good exchange next := by
  obtain ⟨calls, log, run⟩ := goes
  obtain ⟨others, rest, later⟩ := more
  exact ⟨calls ++ others, log ++ rest, run.trans later⟩

theorem Goes.deliver (good : Good exchange) {side : Side}
    (delivered : Exchange.deliver left right exchange side = some next) :
    Goes left right Good exchange next :=
  ⟨[] ++ [side], [] ++ [], .call .nil good delivered⟩

/-- The delivery of the next message to the left side. -/
theorem Goes.atLeft {message : ToLeft} {more : List ToRight} (good : Good exchange)
    (pending : Pending left right exchange (message :: toLeft) toRight)
    (grown : left.sent (left.receive exchange.left message) = left.sent exchange.left ++ more) :
    ∃ next, Goes left right Good exchange next ∧
      next.left = left.receive exchange.left message ∧ next.right = exchange.right ∧
      Pending left right next toLeft (toRight ++ more) := by
  obtain ⟨⟨read, sent, leftRead⟩, heard, written, rightRead⟩ := pending
  have listed : (right.sent exchange.right)[exchange.leftRead]? = some message := by
    rw [sent, leftRead, List.getElem?_append_right (Nat.le_refl _), Nat.sub_self,
      List.getElem?_cons_zero]
  have delivered : Exchange.deliver left right exchange .left = some { exchange with
      left := left.receive exchange.left message
      leftRead := exchange.leftRead + 1 } := by
    rw [Exchange.deliver, listed, Option.map_some]
  refine ⟨_, Goes.deliver good delivered, rfl, rfl, ⟨read ++ [message], ?_, ?_⟩, heard, ?_,
    rightRead⟩
  · rw [sent, List.append_assoc, List.singleton_append]
  · rw [List.length_append, List.length_singleton, ← leftRead]
  · rw [grown, written, List.append_assoc]

/-- The delivery of the next message to the right side. -/
theorem Goes.atRight {message : ToRight} {more : List ToLeft} (good : Good exchange)
    (pending : Pending left right exchange toLeft (message :: toRight))
    (grown : right.sent (right.receive exchange.right message) =
      right.sent exchange.right ++ more) :
    ∃ next, Goes left right Good exchange next ∧ next.left = exchange.left ∧
      next.right = right.receive exchange.right message ∧
      Pending left right next (toLeft ++ more) toRight := by
  obtain ⟨⟨heard, written, leftRead⟩, read, sent, rightRead⟩ := pending
  have listed : (left.sent exchange.left)[exchange.rightRead]? = some message := by
    rw [sent, rightRead, List.getElem?_append_right (Nat.le_refl _), Nat.sub_self,
      List.getElem?_cons_zero]
  have delivered : Exchange.deliver left right exchange .right = some { exchange with
      right := right.receive exchange.right message
      rightRead := exchange.rightRead + 1 } := by
    rw [Exchange.deliver, listed, Option.map_some]
  refine ⟨_, Goes.deliver good delivered, rfl, rfl, ⟨heard, ?_, leftRead⟩,
    read ++ [message], ?_, ?_⟩
  · rw [grown, written, List.append_assoc]
  · rw [sent, List.append_assoc, List.singleton_append]
  · rw [List.length_append, List.length_singleton, ← rightRead]

end Exchange

end PiSecure
