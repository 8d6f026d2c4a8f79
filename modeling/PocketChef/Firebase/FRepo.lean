import PocketChef.Firebase.FWriteTree
import PocketChef.Firebase.Outcome
import PocketChef.Firebase.WriteNodes

/-!
# The client and its pending writes

`FRepo` keeps the node of every write in the tree of pending writes until the
service has answered the write, whether it has accepted it or not.  A read is
answered from that tree if a pending write is at its path or above; otherwise
it goes to the service.

There are no listeners, so the sync points have no views, and no events are
raised.
-/

namespace PocketChef
namespace Firebase

open FUtilities (compareKey)

/-- `callbacks` has for each number of a write on the connection the
`writeId` that its block knows.  `answered` has the reads that were answered
at once: the path, the number of writes made before, and the node. -/
structure FRepo (State : Type) where
  exchange : Exchange State
  pendingWriteTree : FWriteTree String (NSObject FiniteDouble) := {}
  writeIdCounter : Int := 0
  callbacks : List Int := []
  answered : List (Path × Nat × Node FiniteDouble) := []

namespace FRepo

variable {State : Type}

/-- Before anything has happened. -/
def start (state : State) : FRepo State :=
  { exchange := Exchange.start state }

section Methods

variable (foundation : Foundation FiniteDouble)
variable (stringComparator : String → String → Ordering)
variable (service : Service State) (self : FRepo State)

/-- `set:withNode:withCallback:` for a node without server values. -/
def set (write : Write) (newNode : Node FiniteDouble) :
    Option (FRepo State) := do
  let writeId := self.writeIdCounter
  let pendingWriteTree ← self.pendingWriteTree.addOverwriteAtPath compareKey
    stringComparator write.path newNode writeId true
  let exchange ← self.exchange.step service (.putData write)
  some { self with
    exchange := exchange
    pendingWriteTree := pendingWriteTree
    writeIdCounter := writeId + 1
    callbacks := self.callbacks ++ [writeId] }

/-- `getServerValue:` of the sync tree. -/
def getServerValue (path : Path) : Option (Node FiniteDouble) :=
  self.pendingWriteTree.calculateCompleteEventCacheAtPath compareKey
    stringComparator path none none false

/-- `getData:withCompletionBlock:`. -/
def getData (path : Path) : Option (FRepo State) :=
  match self.getServerValue stringComparator path with
  | some node =>
      some { self with
        answered :=
          self.answered ++ [(path, self.exchange.issued.length, node)] }
  | none => do
      let exchange ← self.exchange.step service (.getData path)
      some { self with exchange := exchange }

/-- `ackWrite:rerunTransactionsAtPath:status:` from the block of a write.  A
write that was refused is taken out of the tree as well. -/
def ackWrite (ack : Nat × Bool) : Option (FRepo State) := do
  let writeId ← self.callbacks[ack.1]?
  let removed ← self.pendingWriteTree.removeWriteId compareKey
    stringComparator writeId
  some { self with pendingWriteTree := removed.1 }

/-- One step of the exchange, and then the blocks of the writes that it
acknowledges. -/
def exchangeStep (event : Event) : Option (FRepo State) := do
  let exchange ← self.exchange.step service event
  let acked :=
    exchange.connection.acked.drop self.exchange.connection.acked.length
  acked.foldlM (ackWrite stringComparator)
    { self with exchange := exchange }

/-- One step.  `none` is an exception or a failed assertion. -/
def step : Event → Option (FRepo State)
  | .putData write =>
      match write.newNode foundation with
      | .ok newNode => self.set stringComparator service write newNode
      | .error _ => none
  | .getData path => self.getData stringComparator service path
  | event => self.exchangeStep stringComparator service event

def run (events : List Event) : Option (FRepo State) :=
  events.foldlM (step foundation stringComparator service) self

end Methods

variable {foundation : Foundation FiniteDouble}
variable {stringComparator : String → String → Ordering}
variable {service : Service State} {repo : FRepo State}

theorem run_cons (event : Event) (rest : List Event) :
    repo.run foundation stringComparator service (event :: rest) =
      repo.step foundation stringComparator service event >>= fun next =>
        next.run foundation stringComparator service rest :=
  List.foldlM_cons

theorem run_append (first second : List Event) :
    repo.run foundation stringComparator service (first ++ second) =
      repo.run foundation stringComparator service first >>= fun middle =>
        middle.run foundation stringComparator service second :=
  List.foldlM_append

end FRepo

/-! ## What a step acknowledges -/

namespace Exchange

open FPersistentConnection (Changes)

variable {State : Type} {service : Service State}
variable {exchange later : Exchange State} {event : Event}

theorem acked_note (connection : FPersistentConnection) (event : Event) :
    (connection.note event).acked = connection.acked := by
  cases event <;> rfl

/-- Acknowledgements are not taken back. -/
theorem acked_step (tracked : Tracked exchange.connection)
    (stepped : exchange.step service event = some later) :
    exchange.connection.acked <+: later.connection.acked := by
  have kept {middle : FPersistentConnection}
      (changes : Changes (exchange.connection.note event) middle) :
      middle.acked = exchange.connection.acked :=
    changes.acked.trans (acked_note _ event)
  cases moves_of_step tracked stepped with
  | changed changes _ => rw [kept changes]
  | acked ack _ changes _ same =>
      rw [same, ← kept changes]
      exact List.prefix_append _ _
  | @completed middle _ _ _ changes _ same =>
      rw [same]
      exact (kept changes).symm ▸ List.prefix_refl _

/-- What the app does acknowledges nothing. -/
theorem acked_of_ne (tracked : Tracked exchange.connection)
    (stepped : exchange.step service event = some later)
    (other : event ≠ .onDataMessage) :
    later.connection.acked = exchange.connection.acked := by
  cases moves_of_step tracked stepped with
  | changed changes _ => exact changes.acked.trans (acked_note _ event)
  | acked ack arriving => exact absurd arriving other
  | completed _ changes _ same =>
      rw [same]
      exact changes.acked.trans (acked_note _ event)

end Exchange

end Firebase
end PocketChef
