import PiSecure.General.Run
import PiSecure.Model.Wire

/-! # The address book

`AddrMan` of `p2p.cpp`, called by one thread. Its lock is not recursive: a call
that takes the lock while the thread holds it never returns.
-/

namespace PiSecure

/-- Equality of addresses is that of the host and the port. -/
def PeerAddr.same (first second : PeerAddr) : Bool :=
  first.sinAddr == second.sinAddr && first.sinPort == second.sinPort

/-- The peers, the hosts that are banned with the time of their return, the latest first,
and whether the lock is held. -/
structure AddrMan where
  addrList : List PeerAddr
  bannedIPs : List (UInt32 × UInt64)
  held : Bool

namespace AddrMan

/-- `AddrMan::AddrMan`. -/
def empty : AddrMan := ⟨[], [], false⟩

/-- A call under a `lock_guard`; none when the lock is held already. -/
def withLock {Answer : Type} (book : AddrMan) (body : AddrMan → Option (Answer × AddrMan)) :
    Option (Answer × AddrMan) :=
  if book.held then none
  else (body { book with held := true }).map fun outcome =>
    (outcome.1, { outcome.2 with held := false })

/-- Change the first entry of an address. -/
def change (addr : PeerAddr) (update : PeerAddr → PeerAddr) : List PeerAddr → List PeerAddr
  | [] => []
  | existing :: rest =>
      if existing.same addr then update existing :: rest else existing :: change addr update rest

/-- `AddrMan::isBanned`, which takes no lock. -/
def isBanned (book : AddrMan) (now : UInt64) (addr : PeerAddr) : Bool :=
  (book.bannedIPs.lookup addr.sinAddr).any fun unban => decide (unban > now)

/-- `AddrMan::add`. -/
def add (book : AddrMan) (now : UInt64) (addr : PeerAddr) : Option (Unit × AddrMan) :=
  book.withLock fun book =>
    if book.isBanned now addr then some ((), book)
    else if book.addrList.any (·.same addr) then some ((), book)
    else some ((), { book with addrList := book.addrList ++ [addr] })

/-- `AddrMan::select`, with the number that is drawn. -/
def select (book : AddrMan) (now : UInt64) (draw : Nat) :
    Option (Except String PeerAddr × AddrMan) :=
  book.withLock fun book =>
    if book.addrList.isEmpty then some (.error "No peers available", book)
    else
      let candidates :=
        book.addrList.filter fun addr => !book.isBanned now addr && addr.failures < 5
      match candidates[draw % candidates.length]? with
      | none => some (.error "No viable peers available", book)
      | some addr => some (.ok addr, book)

/-- `AddrMan::getMany`. -/
def getMany (book : AddrMan) (now : UInt64) (n : Nat) : Option (List PeerAddr × AddrMan) :=
  book.withLock fun book =>
    some ((book.addrList.take n).filter fun addr => !book.isBanned now addr, book)

/-- `AddrMan::markGood`. -/
def markGood (book : AddrMan) (now : UInt64) (addr : PeerAddr) : Option (Unit × AddrMan) :=
  book.withLock fun book =>
    some ((), { book with
      addrList := change addr (fun existing => { existing with failures := 0, lastSeen := now })
        book.addrList })

/-- `AddrMan::markAttempt`. -/
def markAttempt (book : AddrMan) (now : UInt64) (addr : PeerAddr) : Option (Unit × AddrMan) :=
  book.withLock fun book =>
    some ((), { book with
      addrList := change addr (fun existing => { existing with lastSeen := now }) book.addrList })

/-- `AddrMan::ban`: for a day. -/
def ban (book : AddrMan) (now : UInt64) (addr : PeerAddr) : Option (Unit × AddrMan) :=
  book.withLock fun book =>
    some ((), { book with bannedIPs := (addr.sinAddr, now + 86400) :: book.bannedIPs })

/-- `AddrMan::markFailure`: the ban takes the lock that is held. -/
def markFailure (book : AddrMan) (now : UInt64) (addr : PeerAddr) : Option (Unit × AddrMan) :=
  book.withLock fun book =>
    match book.addrList.find? (·.same addr) with
    | none => some ((), book)
    | some existing =>
        let failures := existing.failures + 1
        let book := { book with
          addrList := change addr (fun existing => { existing with failures := failures })
            book.addrList }
        if failures ≥ 10 then book.ban now addr else some ((), book)

/-- A call of a method. -/
inductive Call where
  | add (addr : PeerAddr)
  | select (draw : Nat)
  | getMany (n : Nat)
  | markGood (addr : PeerAddr)
  | markAttempt (addr : PeerAddr)
  | markFailure (addr : PeerAddr)
  | ban (addr : PeerAddr)
  | isBanned (addr : PeerAddr)

/-- What a call returns. -/
inductive Answer where
  | done
  | peer (chosen : Except String PeerAddr)
  | peers (listed : List PeerAddr)
  | banned (is : Bool)

/-- A call at a time of the clock. -/
def perform (book : AddrMan) (now : UInt64) : Call → Option (Answer × AddrMan)
  | .add addr => (book.add now addr).map fun outcome => (.done, outcome.2)
  | .select draw => (book.select now draw).map fun outcome => (.peer outcome.1, outcome.2)
  | .getMany n => (book.getMany now n).map fun outcome => (.peers outcome.1, outcome.2)
  | .markGood addr => (book.markGood now addr).map fun outcome => (.done, outcome.2)
  | .markAttempt addr => (book.markAttempt now addr).map fun outcome => (.done, outcome.2)
  | .markFailure addr => (book.markFailure now addr).map fun outcome => (.done, outcome.2)
  | .ban addr => (book.ban now addr).map fun outcome => (.done, outcome.2)
  | .isBanned addr => some (.banned (book.isBanned now addr), book)

/-- The book as a machine, which stops when a call never returns. -/
def machine : Machine AddrMan (UInt64 × Call) Answer where
  step book call := (book.perform call.1 call.2).map Prod.snd
  events book call := ((book.perform call.1 call.2).map Prod.fst).toList

end AddrMan

end PiSecure
