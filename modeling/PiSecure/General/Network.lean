import Mathlib.Algebra.BigOperators.Ring.Finset
import Mathlib.Algebra.Order.BigOperators.Group.Finset
import Mathlib.Data.Fintype.BigOperators
import Mathlib.Logic.Relation
import PiSecure.General.Run

/-! # A rumour in a network

Parties send each other messages over links that keep the order; which link delivers next is
left open. When a party that learns a rumour tells it on all its links, the rumour reaches
every party behind them, and there is a bound on the deliveries that this takes.
-/

namespace PiSecure

/-- Parties and their links: how a party at a site takes a message from one of its ports,
what it has sent at a port so far, and the links from port to port. -/
structure Network (Site State Port Message Link : Type) where
  receive : Site → State → Port → Message → State
  sent : State → Port → List Message
  sent_receive : ∀ site state port message other,
    sent state other <+: sent (receive site state port message) other
  source : Link → Site
  outlet : Link → Port
  target : Link → Site
  inlet : Link → Port

/-- The states of the parties, and how many messages each link has delivered. -/
structure Traffic (Site State Link : Type) where
  states : Site → State
  read : Link → Nat

namespace Network

variable {Site State Port Message Link : Type} [DecidableEq Site] [DecidableEq Link]
  (network : Network Site State Port Message Link)

/-- The messages on their way over a link. -/
def pending (traffic : Traffic Site State Link) (link : Link) : List Message :=
  (network.sent (traffic.states (network.source link)) (network.outlet link)).drop
    (traffic.read link)

/-- The delivery of the next message of a link, when there is one. -/
def deliver (traffic : Traffic Site State Link) (link : Link) :
    Option (Traffic Site State Link) :=
  (network.pending traffic link).head?.map fun message =>
    { states := Function.update traffic.states (network.target link)
        (network.receive (network.target link) (traffic.states (network.target link))
          (network.inlet link) message)
      read := Function.update traffic.read link (traffic.read link + 1) }

/-- The deliveries as a machine. -/
def machine : Machine (Traffic Site State Link) Link Unit := ⟨network.deliver, fun _ _ => []⟩

/-- The traffic of parties that have nothing on its way. -/
def quiet (states : Site → State) : Traffic Site State Link where
  states := states
  read link := (network.sent (states (network.source link)) (network.outlet link)).length

/-- A site is behind another one when links lead there. -/
def Behind (site other : Site) : Prop :=
  Relation.ReflTransGen
    (fun first second => ∃ link, network.source link = first ∧ network.target link = second)
    site other

/-- No link has delivered more than was sent. -/
def Sent (traffic : Traffic Site State Link) : Prop :=
  ∀ link, traffic.read link ≤
    (network.sent (traffic.states (network.source link)) (network.outlet link)).length

variable {network} {traffic next : Traffic Site State Link} {link : Link}

theorem deliver_eq (delivered : network.deliver traffic link = some next) :
    ∃ message rest, network.pending traffic link = message :: rest ∧
      next.states = Function.update traffic.states (network.target link)
        (network.receive (network.target link) (traffic.states (network.target link))
          (network.inlet link) message) ∧
      next.read = Function.update traffic.read link (traffic.read link + 1) := by
  obtain ⟨message, first, rfl⟩ := Option.map_eq_some_iff.mp delivered
  obtain ⟨rest, whole⟩ : ∃ rest, network.pending traffic link = message :: rest := by
    cases waiting : network.pending traffic link with
    | nil =>
        rw [waiting] at first
        cases first
    | cons head rest =>
        rw [waiting] at first
        cases first
        exact ⟨rest, rfl⟩
  exact ⟨message, rest, whole, rfl, rfl⟩

/-- A link without a delivery has nothing on its way. -/
theorem pending_of_stuck (stuck : network.deliver traffic link = none) :
    network.pending traffic link = [] :=
  List.head?_eq_none_iff.mp (Option.map_eq_none_iff.mp stuck)

/-- What is on its way over a link after a delivery: without the message that it delivered,
and with what the party that took it has sent there. -/
theorem pending_next (sent : network.Sent traffic)
    (delivered : network.deliver traffic link = some next) (other : Link) (more : List Message)
    (grown : network.source other = network.target link →
      network.sent (next.states (network.target link)) (network.outlet other) =
        network.sent (traffic.states (network.target link)) (network.outlet other) ++ more) :
    network.pending next other =
      (network.pending traffic other).drop (if other = link then 1 else 0) ++
        if network.source other = network.target link then more else [] := by
  obtain ⟨message, rest, whole, states, read⟩ := deliver_eq delivered
  have reads : next.read other = traffic.read other + if other = link then 1 else 0 := by
    rw [read]
    by_cases same : other = link
    · rw [same, Function.update_self, if_pos rfl]
    · rw [Function.update_of_ne same, if_neg same, Nat.add_zero]
  have enough : next.read other ≤ (network.sent (traffic.states (network.source other))
      (network.outlet other)).length := by
    rw [reads]
    by_cases same : other = link
    · have waiting := congrArg List.length whole
      rw [pending, List.length_drop, List.length_cons] at waiting
      rw [if_pos same, same]
      omega
    · rw [if_neg same]
      exact sent other
  rw [pending, pending, List.drop_drop, ← reads]
  by_cases here : network.source other = network.target link
  · rw [if_pos here, here, grown here, ← here, List.drop_append_of_le_length enough]
  · rw [if_neg here, List.append_nil, states, Function.update_of_ne here]

theorem Sent.deliver (sent : network.Sent traffic)
    (delivered : network.deliver traffic link = some next) : network.Sent next := by
  obtain ⟨message, rest, whole, states, read⟩ := deliver_eq delivered
  intro other
  have before : (network.sent (traffic.states (network.source other))
      (network.outlet other)).length ≤
      (network.sent (next.states (network.source other)) (network.outlet other)).length := by
    rw [states]
    by_cases here : network.source other = network.target link
    · rw [here, Function.update_self]
      exact (network.sent_receive _ _ _ _ _).length_le
    · rw [Function.update_of_ne here]
  refine Nat.le_trans ?_ before
  rw [read]
  by_cases same : other = link
  · have waiting := congrArg List.length whole
    rw [pending, List.length_drop, List.length_cons] at waiting
    rw [same, Function.update_self]
    omega
  · rw [Function.update_of_ne same]
    exact sent other

end Network

/-! ## Rumours -/

/-- What the parties of a network say about a rumour: which states they keep to and in which
of them they know it, the messages about it and those that tell it, and what each message
and telling it at one port may cost. -/
structure Gossip (Site State Message : Type) where
  Good : Site → State → Prop
  Informed : State → Prop
  Known : Message → Prop
  Rumour : Message → Prop
  weight : Message → Nat
  cost : Nat

namespace Gossip

variable {Site State Port Message Link : Type}
  (gossip : Gossip Site State Message) (network : Network Site State Port Message Link)

/-- The weight of some messages. -/
def load (messages : List Message) : Nat := (messages.map gossip.weight).sum

/-- A party answers a message at the port where it came, with less weight. -/
structure Answers (site : Site) (state : State) (port : Port) (message : Message) : Prop where
  good : gossip.Good site (network.receive site state port message)
  informed : gossip.Informed (network.receive site state port message) ↔ gossip.Informed state
  heard : gossip.Rumour message → gossip.Informed state
  replies : ∃ replies, (∀ reply ∈ replies, gossip.Known reply) ∧
    gossip.load replies < gossip.weight message ∧
    network.sent (network.receive site state port message) port =
      network.sent state port ++ replies
  apart : ∀ other ≠ port,
    network.sent (network.receive site state port message) other = network.sent state other

/-- A party learns the rumour from a message, and tells it on all its links. -/
structure Learns (site : Site) (state : State) (port : Port) (message : Message) : Prop where
  good : gossip.Good site (network.receive site state port message)
  unaware : ¬gossip.Informed state
  aware : gossip.Informed (network.receive site state port message)
  positive : 0 < gossip.weight message
  told : ∃ told, (∀ message ∈ told, gossip.Known message) ∧
    (∃ message ∈ told, gossip.Rumour message) ∧ gossip.load told ≤ gossip.cost ∧
    ∀ link, network.source link = site →
      network.sent (network.receive site state port message) (network.outlet link) =
        network.sent state (network.outlet link) ++ told

/-- The parties spread the rumour: each answers or learns it, on links that start at
different ports. -/
structure Spreads : Prop where
  distinct : ∀ first second, network.source first = network.source second →
    network.outlet first = network.outlet second → first = second
  takes : ∀ link state message, gossip.Good (network.target link) state → gossip.Known message →
    gossip.Answers network (network.target link) state (network.inlet link) message ∨
      gossip.Learns network (network.target link) state (network.inlet link) message

/-- The parties keep to their states and have only messages about the rumour on their way,
and what one of them knows the next one knows or will be told. -/
structure Spreading (traffic : Traffic Site State Link) : Prop where
  sent : network.Sent traffic
  good : ∀ site, gossip.Good site (traffic.states site)
  known : ∀ link, ∀ message ∈ network.pending traffic link, gossip.Known message
  told : ∀ link, gossip.Informed (traffic.states (network.source link)) →
    gossip.Informed (traffic.states (network.target link)) ∨
      ∃ message ∈ network.pending traffic link, gossip.Rumour message

open Classical in
/-- What a link may still cost: the messages on their way, and the telling of the rumour when
its source does not know it yet. -/
noncomputable def due (traffic : Traffic Site State Link) (link : Link) : Nat :=
  gossip.load (network.pending traffic link) +
    if gossip.Informed (traffic.states (network.source link)) then 0 else gossip.cost

/-- What all links may still cost. -/
noncomputable def burden [Fintype Link] (traffic : Traffic Site State Link) : Nat :=
  ∑ link, gossip.due network traffic link

variable {gossip network}

@[simp] theorem load_append (first second : List Message) :
    gossip.load (first ++ second) = gossip.load first + gossip.load second := by
  rw [load, List.map_append, List.sum_append]
  rfl

@[simp] theorem load_cons (message : Message) (rest : List Message) :
    gossip.load (message :: rest) = gossip.weight message + gossip.load rest := rfl

@[simp] theorem load_nil : gossip.load [] = 0 := rfl

variable [DecidableEq Site] [DecidableEq Link] {traffic next : Traffic Site State Link}
  {link : Link}

variable (gossip) in
/-- The weight on a link after a delivery. -/
theorem load_next (sent : network.Sent traffic)
    (delivered : network.deliver traffic link = some next) {message : Message}
    (first : (network.pending traffic link).head? = some message) (other : Link)
    (more : List Message)
    (grown : network.source other = network.target link →
      network.sent (next.states (network.target link)) (network.outlet other) =
        network.sent (traffic.states (network.target link)) (network.outlet other) ++ more) :
    gossip.load (network.pending next other) + (if other = link then gossip.weight message else 0) =
      gossip.load (network.pending traffic other) +
        if network.source other = network.target link then gossip.load more else 0 := by
  rw [Network.pending_next sent delivered other more grown, load_append]
  have dropped :
      gossip.load ((network.pending traffic other).drop (if other = link then 1 else 0)) +
      (if other = link then gossip.weight message else 0) =
        gossip.load (network.pending traffic other) := by
    by_cases same : other = link
    · rw [if_pos same, if_pos same, same]
      cases waiting : network.pending traffic link with
      | nil =>
          rw [waiting] at first
          cases first
      | cons head rest =>
          rw [waiting] at first
          cases first
          rw [List.drop_succ_cons, List.drop_zero, load_cons, Nat.add_comm]
    · rw [if_neg same, if_neg same, List.drop_zero, Nat.add_zero]
  by_cases here : network.source other = network.target link
  · rw [if_pos here, if_pos here]
    omega
  · rw [if_neg here, if_neg here, load_nil]
    omega

/-- What a message that is not delivered leaves on its way. -/
theorem mem_pending_next (sent : network.Sent traffic)
    (delivered : network.deliver traffic link = some next) {other : Link} {message : Message}
    (listed : message ∈ network.pending traffic other)
    (waits : other = link → message ∈ (network.pending traffic link).tail) :
    message ∈ network.pending next other := by
  obtain ⟨taken, rest, whole, states, read⟩ := Network.deliver_eq delivered
  obtain ⟨more, grown⟩ : ∃ more, network.source other = network.target link →
      network.sent (next.states (network.target link)) (network.outlet other) =
        network.sent (traffic.states (network.target link)) (network.outlet other) ++ more := by
    rw [states, Function.update_self]
    obtain ⟨more, same⟩ := network.sent_receive (network.target link)
      (traffic.states (network.target link)) (network.inlet link) taken (network.outlet other)
    exact ⟨more, fun _ => same.symm⟩
  rw [Network.pending_next sent delivered other more grown]
  refine List.mem_append_left _ ?_
  by_cases same : other = link
  · rw [if_pos same, List.drop_one, same]
    exact waits same
  · rw [if_neg same, List.drop_zero]
    exact listed

omit [DecidableEq Link] in
/-- A delivery that is answered changes nothing about who knows the rumour. -/
theorem informed_next {message : Message} (states : next.states = Function.update traffic.states
      (network.target link) (network.receive (network.target link)
        (traffic.states (network.target link)) (network.inlet link) message))
    (informed : gossip.Informed (network.receive (network.target link)
      (traffic.states (network.target link)) (network.inlet link) message) ↔
        gossip.Informed (traffic.states (network.target link))) (site : Site) :
    gossip.Informed (next.states site) ↔ gossip.Informed (traffic.states site) := by
  rw [states]
  by_cases here : site = network.target link
  · rw [here, Function.update_self]
    exact informed
  · rw [Function.update_of_ne here]

variable (spreads : gossip.Spreads network) (spreading : gossip.Spreading network traffic)
  (delivered : network.deliver traffic link = some next)
include spreads spreading delivered

theorem Spreading.cases : ∃ message rest, network.pending traffic link = message :: rest ∧
    next.states = Function.update traffic.states (network.target link)
      (network.receive (network.target link) (traffic.states (network.target link))
        (network.inlet link) message) ∧
    (gossip.Answers network (network.target link) (traffic.states (network.target link))
        (network.inlet link) message ∨
      gossip.Learns network (network.target link) (traffic.states (network.target link))
        (network.inlet link) message) := by
  obtain ⟨message, rest, whole, states, _⟩ := Network.deliver_eq delivered
  exact ⟨message, rest, whole, states, spreads.takes link _ message (spreading.good _)
    (spreading.known link message (whole ▸ List.mem_cons_self))⟩

/-- Who knows the rumour keeps knowing it. -/
theorem Spreading.keeps (site : Site) (informed : gossip.Informed (traffic.states site)) :
    gossip.Informed (next.states site) := by
  obtain ⟨message, rest, whole, states, answers | learns⟩ := spreading.cases spreads delivered
  · exact (informed_next states answers.informed site).mpr informed
  · rw [states]
    by_cases here : site = network.target link
    · rw [here, Function.update_self]
      exact learns.aware
    · rwa [Function.update_of_ne here]

/-- What a party sends at one of its ports while it takes a message. -/
theorem Spreading.grown (other : Link) (here : network.source other = network.target link) :
    ∃ more, network.sent (next.states (network.target link)) (network.outlet other) =
        network.sent (traffic.states (network.target link)) (network.outlet other) ++ more ∧
      (∀ message ∈ more, gossip.Known message) ∧
      (¬gossip.Informed (traffic.states (network.target link)) →
        gossip.Informed (next.states (network.target link)) →
          ∃ message ∈ more, gossip.Rumour message) := by
  obtain ⟨message, rest, whole, states, answers | learns⟩ := spreading.cases spreads delivered
  · have still := informed_next states answers.informed (network.target link)
    rw [states, Function.update_self] at still ⊢
    by_cases port : network.outlet other = network.inlet link
    · obtain ⟨replies, known, _, sent⟩ := answers.replies
      rw [port]
      exact ⟨replies, sent, known, fun unaware aware => absurd (still.mp aware) unaware⟩
    · refine ⟨[], ?_, List.forall_mem_nil _, fun unaware aware => absurd (still.mp aware) unaware⟩
      rw [List.append_nil]
      exact answers.apart _ port
  · obtain ⟨told, known, rumour, _, sent⟩ := learns.told
    rw [states, Function.update_self]
    exact ⟨told, sent other here, known, fun _ _ => rumour⟩

theorem Spreading.deliver : gossip.Spreading network next := by
  obtain ⟨message, rest, whole, states, taken⟩ := spreading.cases spreads delivered
  have good : ∀ site, gossip.Good site (next.states site) := by
    intro site
    rw [states]
    by_cases here : site = network.target link
    · subst here
      rw [Function.update_self]
      exact taken.elim Answers.good Learns.good
    · rw [Function.update_of_ne here]
      exact spreading.good site
  refine ⟨spreading.sent.deliver delivered, good, fun other entry listed => ?_,
    fun other aware => ?_⟩
  · by_cases here : network.source other = network.target link
    · obtain ⟨more, grown, known, _⟩ := spreading.grown spreads delivered other here
      rw [Network.pending_next spreading.sent delivered other more fun _ => grown] at listed
      rcases List.mem_append.mp listed with older | newer
      · exact spreading.known other entry (List.mem_of_mem_drop older)
      · rw [if_pos here] at newer
        exact known entry newer
    · rw [Network.pending_next spreading.sent delivered other [] fun there => absurd there here,
        if_neg here, List.append_nil] at listed
      exact spreading.known other entry (List.mem_of_mem_drop listed)
  · by_cases informed : gossip.Informed (traffic.states (network.source other))
    · rcases spreading.told other informed with target | ⟨rumour, listed, tells⟩
      · exact .inl (spreading.keeps spreads delivered _ target)
      · by_cases first : other = link ∧ rumour = message
        · obtain ⟨rfl, rfl⟩ := first
          refine .inl ?_
          rcases taken with answers | learns
          · exact spreading.keeps spreads delivered _ (answers.heard tells)
          · rw [states, Function.update_self]
            exact learns.aware
        · refine .inr ⟨rumour, mem_pending_next spreading.sent delivered listed fun same => ?_,
            tells⟩
          rw [same, whole] at listed
          rw [whole]
          exact (List.mem_cons.mp listed).resolve_left fun head => first ⟨same, head⟩
    · have here : network.source other = network.target link := by
        by_contra away
        rw [states, Function.update_of_ne away] at aware
        exact informed aware
      obtain ⟨more, grown, _, rumour⟩ := spreading.grown spreads delivered other here
      rw [here] at informed aware
      obtain ⟨entry, listed, tells⟩ := rumour informed aware
      refine .inr ⟨entry, ?_, tells⟩
      rw [Network.pending_next spreading.sent delivered other more fun _ => grown, if_pos here]
      exact List.mem_append_right _ listed

omit spreading delivered in
open Classical in
/-- What is sent at one port of a party goes to one link at most. -/
theorem Spreads.once [Fintype Link] (site : Site) (port : Port) (amount : Nat) :
    ∑ other, (if network.source other = site ∧ network.outlet other = port then amount else 0) ≤
      amount := by
  by_cases connected : ∃ back, network.source back = site ∧ network.outlet back = port
  · obtain ⟨back, rfl, rfl⟩ := connected
    have only : ∀ other, (network.source other = network.source back ∧
        network.outlet other = network.outlet back) ↔ other = back := fun other =>
      ⟨fun both => spreads.distinct _ _ both.1 both.2, fun same => same ▸ ⟨rfl, rfl⟩⟩
    simp only [only]
    rw [Finset.sum_ite_eq' Finset.univ back, if_pos (Finset.mem_univ back)]
  · rw [Finset.sum_eq_zero fun other _ => if_neg fun both => connected ⟨other, both⟩]
    exact Nat.zero_le _

omit [DecidableEq Site] spreads spreading delivered in
/-- The message that is taken weighs on one link. -/
theorem sum_taken [Fintype Link] (message : Message) :
    ∑ other, (if other = link then gossip.weight message else 0) = gossip.weight message := by
  rw [Finset.sum_ite_eq' Finset.univ link, if_pos (Finset.mem_univ link)]

/-- A message that is answered weighs more than its replies. -/
theorem Spreading.burden_lt_of_answers [Fintype Link] {message : Message}
    (first : (network.pending traffic link).head? = some message)
    (states : next.states = Function.update traffic.states (network.target link)
      (network.receive (network.target link) (traffic.states (network.target link))
        (network.inlet link) message))
    (answers : gossip.Answers network (network.target link)
      (traffic.states (network.target link)) (network.inlet link) message) :
    gossip.burden network next < gossip.burden network traffic := by
  classical
  obtain ⟨replies, _, light, sent⟩ := answers.replies
  -- The replies go to one link at most.
  have once := spreads.once (network.target link) (network.inlet link) (gossip.load replies)
  have each : ∀ other, gossip.due network next other +
      (if other = link then gossip.weight message else 0) =
        gossip.due network traffic other + if network.source other = network.target link ∧
          network.outlet other = network.inlet link then gossip.load replies else 0 := by
    intro other
    have loads := gossip.load_next spreading.sent delivered first other
      (if network.outlet other = network.inlet link then replies else []) fun here => by
        rw [states, Function.update_self]
        split
        next port => rw [port, sent]
        next port => rw [List.append_nil, answers.apart _ port]
    rw [due, due, if_congr (informed_next states answers.informed _) rfl rfl, ite_and]
    by_cases port : network.outlet other = network.inlet link
    · rw [if_pos port] at loads ⊢
      omega
    · rw [if_neg port, load_nil, ite_self] at loads
      rw [if_neg port, ite_self]
      omega
  have total := Finset.sum_congr rfl fun other (_ : other ∈ Finset.univ) => each other
  rw [Finset.sum_add_distrib, Finset.sum_add_distrib, sum_taken] at total
  rw [burden, burden]
  omega

omit spreads in
/-- Who learns the rumour tells no more than was put aside for it. -/
theorem Spreading.burden_lt_of_learns [Fintype Link] {message : Message}
    (first : (network.pending traffic link).head? = some message)
    (states : next.states = Function.update traffic.states (network.target link)
      (network.receive (network.target link) (traffic.states (network.target link))
        (network.inlet link) message))
    (learns : gossip.Learns network (network.target link)
      (traffic.states (network.target link)) (network.inlet link) message) :
    gossip.burden network next < gossip.burden network traffic := by
  obtain ⟨told, _, _, light, sent⟩ := learns.told
  have positive := learns.positive
  have each : ∀ other, gossip.due network next other +
      (if other = link then gossip.weight message else 0) ≤ gossip.due network traffic other := by
    intro other
    have loads := gossip.load_next spreading.sent delivered first other told fun here => by
      rw [states, Function.update_self, sent other here]
    rw [due, due]
    by_cases here : network.source other = network.target link
    · have aware : gossip.Informed (next.states (network.source other)) := by
        rw [here, states, Function.update_self]
        exact learns.aware
      rw [if_pos here] at loads
      rw [if_pos aware, here, if_neg learns.unaware]
      omega
    · have same : next.states (network.source other) = traffic.states (network.source other) := by
        rw [states, Function.update_of_ne here]
      rw [if_neg here] at loads
      rw [same]
      omega
  have total := Finset.sum_le_sum fun other (_ : other ∈ Finset.univ) => each other
  rw [Finset.sum_add_distrib, sum_taken] at total
  rw [burden, burden]
  omega

/-- A delivery costs something. -/
theorem Spreading.burden_lt [Fintype Link] :
    gossip.burden network next < gossip.burden network traffic := by
  obtain ⟨message, rest, whole, states, taken⟩ := spreading.cases spreads delivered
  have first : (network.pending traffic link).head? = some message := by rw [whole]; rfl
  rcases taken with answers | learns
  · exact spreading.burden_lt_of_answers spreads delivered first states answers
  · exact spreading.burden_lt_of_learns delivered first states learns

omit delivered in
/-- What holds of the traffic holds after any deliveries, who knows the rumour keeps knowing
it, and the deliveries are paid for. -/
theorem Spreading.run [Fintype Link] {calls : List Link} {log : List Unit}
    {final : Traffic Site State Link}
    (run : network.machine.Runs (fun _ _ => True) traffic calls log final) :
    gossip.Spreading network final ∧
      (∀ site, gossip.Informed (traffic.states site) → gossip.Informed (final.states site)) ∧
      calls.length + gossip.burden network final ≤ gossip.burden network traffic := by
  induction run with
  | nil => exact ⟨spreading, fun _ => id, Nat.le_of_eq (Nat.zero_add _)⟩
  | @call calls log state next link _ _ delivered ih =>
      obtain ⟨still, kept, paid⟩ := ih
      have cheaper := still.burden_lt spreads delivered
      refine ⟨still.deliver spreads delivered,
        fun site informed => still.keeps spreads delivered site (kept site informed), ?_⟩
      rw [List.length_append, List.length_singleton]
      omega

omit delivered in
/-- Some deliveries leave nothing on its way. -/
theorem Spreading.exhausts [Fintype Link] : ∃ calls log final,
    network.machine.Runs (fun _ _ => True) traffic calls log final ∧
      ∀ link, network.deliver final link = none := by
  have goes : ∀ (most : Nat) {calls : List Link} {log : List Unit}
      {middle : Traffic Site State Link},
      gossip.burden network middle ≤ most →
        network.machine.Runs (fun _ _ => True) traffic calls log middle →
          ∃ calls log final, network.machine.Runs (fun _ _ => True) traffic calls log final ∧
            ∀ link, network.deliver final link = none := by
    intro most
    induction most with
    | zero =>
        intro calls log middle light run
        refine ⟨calls, log, middle, run, fun link => ?_⟩
        cases delivered : network.deliver middle link with
        | none => rfl
        | some next =>
            have cheaper := (spreading.run spreads run).1.burden_lt spreads delivered
            omega
    | succ most ih =>
        intro calls log middle light run
        by_cases stuck : ∀ link, network.deliver middle link = none
        · exact ⟨calls, log, middle, run, stuck⟩
        · obtain ⟨link, moves⟩ := not_forall.mp stuck
          obtain ⟨next, delivered⟩ := Option.ne_none_iff_exists'.mp moves
          have cheaper := (spreading.run spreads run).1.burden_lt spreads delivered
          exact ih (by omega) (run.call trivial delivered)
  exact goes _ (Nat.le_refl _) .nil

omit spreads delivered in
/-- When nothing is on its way, the rumour has reached whoever is behind one who knows it. -/
theorem Spreading.reaches (stuck : ∀ link, network.deliver traffic link = none) {site other : Site}
    (informed : gossip.Informed (traffic.states site)) (behind : network.Behind site other) :
    gossip.Informed (traffic.states other) := by
  induction behind with
  | refl => exact informed
  | tail _ step ih =>
      obtain ⟨link, rfl, rfl⟩ := step
      rcases spreading.told link ih with target | ⟨rumour, listed, _⟩
      · exact target
      · rw [Network.pending_of_stuck (stuck link)] at listed
        cases listed

end Gossip

end PiSecure
