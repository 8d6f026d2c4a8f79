import PocketChef.Firebase.Database

/-!
# The connection of the database client

`FPersistentConnection` numbers the writes and the reads of the app and keeps
each of them until its response arrives.  What is issued while no connection
is open waits.  When a connection opens, `restoreState` sends the writes that
have no response yet, in the order of their numbers, and then the reads that
were never sent.

The blocks for the responses are found by request number in `requestCBHash`,
which a disconnect clears.  `none` is a failed assertion of the client.
-/

namespace PocketChef
namespace Firebase

inductive ConnectionState where
  | disconnected
  | gettingToken
  | connecting
  | authenticating
  | connected
  deriving DecidableEq

inductive Action where
  | auth
  | put (write : Write)
  | get (path : Path)
  deriving DecidableEq

structure Request where
  rn : Nat
  action : Action
  deriving DecidableEq

/-- The status of a response, and the node that it carries when it answers a
read. -/
structure Response where
  rn : Nat
  ok : Bool
  data : Option DataSnapshot

/-- The blocks that `sendAction` keeps for the response. -/
inductive OnMessage where
  | auth
  | put (index : Nat)
  | get (index : Nat)
  deriving DecidableEq

structure FOutstandingGet where
  path : Path
  sent : Bool
  deriving DecidableEq

/-- What `onCompleteBlock` of a read is called with. -/
inductive GetResult where
  | ok (data : Option DataSnapshot)
  | failed

/-- `realtime` has the requests that were sent on the open connection and that
the server has not handled; `timers` has the reads whose timeout is scheduled;
`acked` and `results` record the calls of the completion blocks, those of the
writes with whether the server has accepted the write. -/
structure FPersistentConnection where
  connectionState : ConnectionState := .disconnected
  authToken : Bool := false
  realtime : Option (List Request) := none
  outstandingPuts : List (Nat × Write) := []
  outstandingGets : List (Nat × FOutstandingGet) := []
  putCounter : Nat := 0
  getCounter : Nat := 0
  requestNumber : Nat := 0
  requestCBHash : List (Nat × OnMessage) := []
  timers : List Nat := []
  acked : List (Nat × Bool) := []
  results : List (Nat × GetResult) := []

namespace FPersistentConnection

def connected (self : FPersistentConnection) : Bool :=
  self.connectionState = .authenticating ∨ self.connectionState = .connected

def canSendWrites (self : FPersistentConnection) : Bool :=
  self.connectionState = .connected

def canSendReads (self : FPersistentConnection) : Bool :=
  self.connectionState = .connected

def sendAction (self : FPersistentConnection) (action : Action)
    (onMessage : OnMessage) : FPersistentConnection :=
  { self with
    requestNumber := self.requestNumber + 1
    realtime := self.realtime.map fun sent =>
      sent ++ [{ rn := self.requestNumber, action := action }]
    requestCBHash :=
      self.requestCBHash ++ [(self.requestNumber, onMessage)] }

def sendPut (self : FPersistentConnection) (index : Nat) :
    Option FPersistentConnection :=
  if self.canSendWrites then do
    let write ← self.outstandingPuts.lookup index
    some (self.sendAction (.put write) (.put index))
  else
    none

def setSent (gets : List (Nat × FOutstandingGet)) (index : Nat) :
    List (Nat × FOutstandingGet) :=
  gets.map fun entry =>
    if entry.1 = index then (entry.1, { entry.2 with sent := true })
    else entry

def sendGet (self : FPersistentConnection) (index : Nat) :
    Option FPersistentConnection :=
  if self.canSendReads then do
    let get ← self.outstandingGets.lookup index
    if get.sent then
      some self
    else
      let self :=
        { self with outstandingGets := setSent self.outstandingGets index }
      some (self.sendAction (.get get.path) (.get index))
  else
    none

def putInternal (self : FPersistentConnection) (write : Write) :
    Option FPersistentConnection :=
  let index := self.putCounter
  let self :=
    { self with
      putCounter := index + 1
      outstandingPuts := self.outstandingPuts ++ [(index, write)] }
  if self.canSendWrites then self.sendPut index else some self

/-- A read that finds no connection gets a timeout. -/
def getDataAtPath (self : FPersistentConnection) (path : Path) :
    Option FPersistentConnection :=
  let index := self.getCounter
  let self : FPersistentConnection :=
    { self with
      getCounter := index + 1
      outstandingGets :=
        self.outstandingGets ++ [(index, { path := path, sent := false })] }
  if !self.connected then
    some { self with timers := self.timers ++ [index] }
  else if self.canSendReads then
    self.sendGet index
  else
    some self

/-- The block of the timeout. -/
def getTimedOut (self : FPersistentConnection) (index : Nat) :
    FPersistentConnection :=
  let self := { self with timers := self.timers.erase index }
  match self.outstandingGets.lookup index with
  | none => self
  | some get =>
      if get.sent then self
      else
        { self with
          results := self.results ++ [(index, .failed)]
          outstandingGets :=
            self.outstandingGets.filter fun entry => entry.1 ≠ index }

def restorePut (self : FPersistentConnection) (index : Nat) :
    Option FPersistentConnection :=
  if (self.outstandingPuts.lookup index).isSome then self.sendPut index
  else some self

def restoreGet (self : FPersistentConnection) (index : Nat) :
    Option FPersistentConnection :=
  if (self.outstandingGets.lookup index).isSome then self.sendGet index
  else some self

/-- The loop of `restoreState` over the keys of the writes. -/
def restorePuts (self : FPersistentConnection) :
    Option FPersistentConnection :=
  ((self.outstandingPuts.map Prod.fst).mergeSort fun a b =>
    decide (a ≤ b)).foldlM restorePut self

/-- The loop of `restoreState` over the keys of the reads. -/
def restoreGets (self : FPersistentConnection) :
    Option FPersistentConnection :=
  ((self.outstandingGets.map Prod.fst).mergeSort fun a b =>
    decide (a ≤ b)).foldlM restoreGet self

def restoreState (self : FPersistentConnection) :
    Option FPersistentConnection :=
  if self.connectionState = .connected then do
    let self ← self.restorePuts
    self.restoreGets
  else
    none

/-- The attempt that `tryScheduleReconnect` schedules. -/
def retry (self : FPersistentConnection) : Option FPersistentConnection :=
  if self.connectionState = .disconnected then
    some { self with connectionState := .gettingToken }
  else
    none

/-- The result of fetching a token, `none` for an error. -/
def tokenFetched (self : FPersistentConnection) (token : Option Bool) :
    FPersistentConnection :=
  match token with
  | none => { self with connectionState := .disconnected }
  | some token =>
      { self with
        authToken := token, connectionState := .connecting
        realtime := some [] }

/-- `onReady`, which begins with `restoreAuth`. -/
def onReady (self : FPersistentConnection) : Option FPersistentConnection :=
  if self.connectionState = .connecting then
    if self.authToken then
      let self := { self with connectionState := .authenticating }
      some (self.sendAction .auth .auth)
    else
      let self := { self with connectionState := .connected }
      self.restoreState
  else
    none

def onDisconnect (self : FPersistentConnection) : FPersistentConnection :=
  { self with
    connectionState := .disconnected
    realtime := none
    requestCBHash := [] }

/-- The block for the response to a credential.  A refusal closes the
connection. -/
def authCompleted (self : FPersistentConnection) (ok : Bool) :
    Option FPersistentConnection :=
  let self := { self with connectionState := .connected }
  if ok then
    self.restoreState
  else
    let self := { self with authToken := false }
    some self.onDisconnect

def putCompleted (self : FPersistentConnection) (index : Nat) (ok : Bool) :
    FPersistentConnection :=
  if (self.outstandingPuts.lookup index).isSome then
    { self with
      outstandingPuts :=
        self.outstandingPuts.filter fun entry => entry.1 ≠ index
      acked := self.acked ++ [(index, ok)] }
  else
    self

def getCompleted (self : FPersistentConnection) (index : Nat) (ok : Bool)
    (data : Option DataSnapshot) : FPersistentConnection :=
  if (self.outstandingGets.lookup index).isSome then
    { self with
      outstandingGets :=
        self.outstandingGets.filter fun entry => entry.1 ≠ index
      results :=
        self.results ++ [(index, if ok then .ok data else .failed)] }
  else
    self

/-- The block that `sendAction` kept is called with the response. -/
def callback (self : FPersistentConnection) (response : Response) :
    OnMessage → Option FPersistentConnection
  | .auth => self.authCompleted response.ok
  | .put index => some (self.putCompleted index response.ok)
  | .get index => some (self.getCompleted index response.ok response.data)

def onDataMessage (self : FPersistentConnection) (response : Response) :
    Option FPersistentConnection :=
  match self.requestCBHash.lookup response.rn with
  | none => some self
  | some callback =>
      let self : FPersistentConnection :=
        { self with
          requestCBHash :=
            self.requestCBHash.filter fun entry => entry.1 ≠ response.rn }
      self.callback response callback

end FPersistentConnection

end Firebase
end PocketChef
