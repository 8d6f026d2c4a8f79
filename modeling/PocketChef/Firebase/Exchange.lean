import PocketChef.Firebase.FPersistentConnection
import PocketChef.Library.OverwriteLog

/-!
# The client and the service of the database

The service on the other end of a connection is a parameter.  It is given the
requests that were sent on the connection and that it has not handled, and it
changes its state, leaves some of the requests and answers.  A connection can
close at any time: requests that the service has not handled and answers that
have not arrived are then lost.

What is assumed about the service is `Service.Realtime`: it handles the
requests of a connection one after the other, decides about a write by the
write alone, applies the writes that it accepts, and answers each request.

`issued` has the writes that the app has made, and `asked` the reads, each
with the number of writes made before it.  Neither is known to the code.
-/

namespace PocketChef
namespace Firebase

/-! ## Writes as overwrites -/

/-- What a write keeps of the leaves, and what it adds. -/
def Write.overwrite : Write → Overwrite (Path × Value)
  | .setValue path fields =>
      { keeps := fun leaf => decide (¬ path <+: leaf.1 ∧ ¬ leaf.1 <+: path)
        adds := fields.map fun field => (path ++ [field.1], field.2)
        clears := by
          intro leaf member
          rcases List.mem_map.mp member with ⟨field, _, rfl⟩
          have below : path <+: path ++ [field.1] :=
            List.prefix_append path [field.1]
          exact decide_eq_false fun kept => kept.1 below }
  | .removeValue path =>
      { keeps := fun leaf => decide (¬ path <+: leaf.1)
        adds := []
        clears := by
          intro leaf member
          cases member }

theorem Write.apply_eq (database : Database) (write : Write) :
    write.apply database = Overwrite.apply database write.overwrite := by
  cases write with
  | setValue path fields =>
      rfl
  | removeValue path =>
      exact (List.append_nil _).symm

/-- What a write does where only the writes that `accepts` are applied. -/
def Write.effect (accepts : Write → Bool) (database : Database)
    (write : Write) : Database :=
  if accepts write then write.apply database else database

theorem Write.foldl_effect (accepts : Write → Bool) (stored : Database)
    (writes : List Write) :
    writes.foldl (Write.effect accepts) stored =
      Write.applyAll stored (writes.filter accepts) := by
  rw [Write.applyAll, List.foldl_filter]
  rfl

/-- A write that is refused overwrites nothing. -/
def Write.effectOverwrite (accepts : Write → Bool) (write : Write) :
    Overwrite (Path × Value) :=
  if accepts write then write.overwrite else .nothing

theorem Write.effect_eq (accepts : Write → Bool) (database : Database)
    (write : Write) :
    Write.effect accepts database write =
      Overwrite.apply database (Write.effectOverwrite accepts write) := by
  rw [effect, effectOverwrite]
  by_cases accepted : accepts write = true
  · rw [if_pos accepted, if_pos accepted]
    exact write.apply_eq database
  · rw [if_neg accepted, if_neg accepted]
    exact (Overwrite.apply_nothing database).symm

/-- Writes that are sent again take the effect of their first sending
away. -/
theorem Write.absorbing (accepts : Write → Bool) :
    Retransmission.Absorbing (Write.effect accepts) :=
  Overwrite.absorbing.comap (Write.effectOverwrite accepts)
    (Write.effect_eq accepts)

/-! ## The service -/

/-- What the service stores in a state, and what it does next with the
requests that it has not handled: its next state, the requests that are left,
and its answers. -/
structure Service (State : Type) where
  contents : State → Database
  serve : State → List Request → State × List Request × List Response

/-- What is assumed about a service that is used by this client only. -/
structure Service.Realtime {State : Type} (service : Service State)
    (accepts : Write → Bool) : Prop where
  /-- Without a request nothing happens. -/
  idle : ∀ state, service.serve state [] = (state, [], [])
  /-- A credential is answered, and the data stays. -/
  auth : ∀ state rn rest, ∃ next ok data,
    service.serve state ({ rn := rn, action := .auth } :: rest) =
        (next, rest, [{ rn := rn, ok := ok, data := data }]) ∧
      service.contents next = service.contents state
  /-- A write is applied if it is accepted, and the answer says whether. -/
  put : ∀ state rn write rest, ∃ next data,
    service.serve state ({ rn := rn, action := .put write } :: rest) =
        (next, rest, [{ rn := rn, ok := accepts write, data := data }]) ∧
      service.contents next =
        Write.effect accepts (service.contents state) write
  /-- A read is answered with the node or refused, and the data stays. -/
  get : ∀ state rn path rest, ∃ next ok data,
    service.serve state ({ rn := rn, action := .get path } :: rest) =
        (next, rest, [{ rn := rn, ok := ok, data := data }]) ∧
      service.contents next = service.contents state ∧
      (ok = true → data = some ⟨service.contents state, path⟩)

/-- A service that grants every credential and answers every read. -/
def Service.open (accepts : Write → Bool) : Service Database where
  contents database := database
  serve database
    | [] => (database, [], [])
    | { rn := rn, action := .auth } :: rest =>
        (database, rest, [{ rn := rn, ok := true, data := none }])
    | { rn := rn, action := .put write } :: rest =>
        (Write.effect accepts database write, rest,
          [{ rn := rn, ok := accepts write, data := none }])
    | { rn := rn, action := .get path } :: rest =>
        (database, rest,
          [{ rn := rn, ok := true, data := some ⟨database, path⟩ }])

theorem Service.open_realtime (accepts : Write → Bool) :
    (Service.open accepts).Realtime accepts where
  idle _ := rfl
  auth _ _ _ := ⟨_, _, _, rfl, rfl⟩
  put _ _ _ _ := ⟨_, _, rfl, rfl⟩
  get _ _ _ _ := ⟨_, _, _, rfl, rfl, fun _ => rfl⟩

structure Exchange (State : Type) where
  state : State
  connection : FPersistentConnection := {}
  responses : List Response := []
  issued : List Write := []
  asked : List (Path × Nat) := []

inductive Event where
  | putData (write : Write)
  | getData (path : Path)
  | timeout (index : Nat)
  | retry
  | tokenFetched (token : Option Bool)
  | onReady
  | serverHandles
  | onDataMessage
  | onDisconnect
  deriving DecidableEq

def Event.write : Event → Option Write
  | .putData write => some write
  | _ => none

def Event.read : Event → Option Path
  | .getData path => some path
  | _ => none

/-- The writes that the app makes in a run. -/
def writes (events : List Event) : List Write :=
  events.filterMap Event.write

/-- The reads that the app makes in a run. -/
def reads (events : List Event) : List Path :=
  events.filterMap Event.read

theorem writes_cons (event : Event) (rest : List Event) :
    writes (event :: rest) = event.write.toList ++ writes rest := by
  rw [writes, List.filterMap_cons]
  cases event.write <;> rfl

theorem reads_cons (event : Event) (rest : List Event) :
    reads (event :: rest) = event.read.toList ++ reads rest := by
  rw [reads, List.filterMap_cons]
  cases event.read <;> rfl

theorem reads_append (first second : List Event) :
    reads (first ++ second) = reads first ++ reads second :=
  List.filterMap_append

namespace Exchange

variable {State : Type}

/-- Before anything has happened. -/
def start (state : State) : Exchange State :=
  { state := state }

def serverHandles (service : Service State) (exchange : Exchange State) :
    Exchange State :=
  match exchange.connection.realtime with
  | some requests =>
      let served := service.serve exchange.state requests
      { exchange with
        state := served.1
        connection := { exchange.connection with realtime := some served.2.1 }
        responses := exchange.responses ++ served.2.2 }
  | none => exchange

theorem serverHandles_of_serve {service : Service State}
    {exchange : Exchange State} {requests left : List Request}
    {next : State} {answers : List Response}
    (sent : exchange.connection.realtime = some requests)
    (served : service.serve exchange.state requests = (next, left, answers)) :
    exchange.serverHandles service =
      { exchange with
        state := next
        connection := { exchange.connection with realtime := some left }
        responses := exchange.responses ++ answers } := by
  rw [serverHandles, sent]
  dsimp only
  rw [served]

theorem serverHandles_of_closed {service : Service State}
    {exchange : Exchange State}
    (closed : exchange.connection.realtime = none) :
    exchange.serverHandles service = exchange := by
  rw [serverHandles, closed]

theorem serverHandles_of_idle {service : Service State}
    {exchange : Exchange State}
    (idle : service.serve exchange.state [] = (exchange.state, [], []))
    (nothing : exchange.connection.realtime = some []) :
    exchange.serverHandles service = exchange := by
  rw [serverHandles_of_serve nothing idle, List.append_nil, ← nothing]

/-- The first answer on the way arrives. -/
def receive (exchange : Exchange State) : Option (Exchange State) :=
  match exchange.responses with
  | [] => some exchange
  | response :: rest => do
      let connection ← exchange.connection.onDataMessage response
      some { exchange with
        connection := connection
        responses := if connection.realtime.isSome then rest else [] }

theorem receive_of_response {exchange : Exchange State} {response : Response}
    {rest : List Response} {connection : FPersistentConnection}
    (arriving : exchange.responses = response :: rest)
    (received : exchange.connection.onDataMessage response =
      some connection) :
    exchange.receive = some
      { exchange with
        connection := connection
        responses := if connection.realtime.isSome then rest else [] } := by
  rw [receive, arriving]
  change (exchange.connection.onDataMessage response >>= _) = _
  rw [received]
  rfl

theorem receive_of_open {exchange : Exchange State} {response : Response}
    {rest : List Response} {connection : FPersistentConnection}
    {requests : List Request}
    (arriving : exchange.responses = response :: rest)
    (received : exchange.connection.onDataMessage response =
      some connection)
    (opened : connection.realtime = some requests) :
    exchange.receive = some
      { exchange with connection := connection, responses := rest } := by
  rw [receive_of_response arriving received, opened]
  rfl

/-- One step.  What cannot happen in the state of the connection leaves it
alone. -/
def step (service : Service State) (exchange : Exchange State) :
    Event → Option (Exchange State)
  | .putData write => do
      let connection ← exchange.connection.putInternal write
      some { exchange with
        connection := connection, issued := exchange.issued ++ [write] }
  | .getData path => do
      let connection ← exchange.connection.getDataAtPath path
      some { exchange with
        connection := connection
        asked := exchange.asked ++ [(path, exchange.issued.length)] }
  | .timeout index =>
      if index ∈ exchange.connection.timers then
        some { exchange with
          connection := exchange.connection.getTimedOut index }
      else
        some exchange
  | .retry =>
      if exchange.connection.connectionState = .disconnected then do
        let connection ← exchange.connection.retry
        some { exchange with connection := connection }
      else
        some exchange
  | .tokenFetched token =>
      if exchange.connection.connectionState = .gettingToken then
        some { exchange with
          connection := exchange.connection.tokenFetched token }
      else
        some exchange
  | .onReady =>
      if exchange.connection.connectionState = .connecting then do
        let connection ← exchange.connection.onReady
        some { exchange with connection := connection }
      else
        some exchange
  | .serverHandles => some (exchange.serverHandles service)
  | .onDataMessage => exchange.receive
  | .onDisconnect =>
      some { exchange with
        connection := exchange.connection.onDisconnect, responses := [] }

/-- The events of a run in order; `none` is a failed assertion. -/
def run (service : Service State) (exchange : Exchange State)
    (events : List Event) : Option (Exchange State) :=
  events.foldlM (step service) exchange

end Exchange

end Firebase
end PocketChef
