import Mathlib.Logic.Relation
import PocketChef.Firebase.Exchange
import PocketChef.Library.NumberedQueue

/-!
# What a step does

A step of the exchange never fails.  It changes what the client keeps by small
changes that complete nothing, and after them it completes at most one write
or one read.  None of this depends on the service.
-/

namespace PocketChef
namespace Firebase

open NumberedQueue

theorem lookup_filter_ne {gets : List (Nat × FOutstandingGet)}
    {index other : Nat} (different : index ≠ other) :
    (gets.filter fun entry => entry.1 ≠ other).lookup index =
      gets.lookup index := by
  induction gets with
  | nil =>
      rfl
  | cons head rest inductionHypothesis =>
      by_cases same : head.1 = other
      · have unequal : (index == head.1) = false := by
          rw [beq_eq_false_iff_ne, same]
          exact different
        rw [List.filter_cons_of_neg (by simpa using same), List.lookup_cons,
          unequal]
        exact inductionHypothesis
      · rw [List.filter_cons_of_pos (by simpa using same), List.lookup_cons,
          List.lookup_cons, inductionHypothesis]

theorem lookup_filter_self (gets : List (Nat × FOutstandingGet))
    (index : Nat) :
    (gets.filter fun entry => entry.1 ≠ index).lookup index = none := by
  rw [List.lookup_eq_none_iff]
  intro entry member
  have other : entry.1 ≠ index := by
    simpa using (List.mem_filter.mp member).2
  simpa using other.symm

namespace FPersistentConnection

theorem lookup_setSent (gets : List (Nat × FOutstandingGet))
    (index other : Nat) :
    (setSent gets other).lookup index =
      (gets.lookup index).map fun get =>
        if index = other then { get with sent := true } else get := by
  induction gets with
  | nil =>
      rfl
  | cons head rest inductionHypothesis =>
      rw [setSent, List.map_cons, List.lookup_cons, List.lookup_cons]
      rw [setSent] at inductionHypothesis
      rw [inductionHypothesis]
      have number : (if head.1 = other then
          (head.1, { head.2 with sent := true }) else head).1 = head.1 := by
        split <;> rfl
      rw [number]
      by_cases here : index = head.1
      · rw [beq_iff_eq.mpr here, here]
        by_cases same : head.1 = other
        · rw [if_pos same]
          exact congrArg some (if_pos same).symm
        · rw [if_neg same]
          exact congrArg some (if_neg same).symm
      · rw [beq_eq_false_iff_ne.mpr here]

theorem map_fst_setSent (gets : List (Nat × FOutstandingGet)) (index : Nat) :
    (setSent gets index).map Prod.fst = gets.map Prod.fst := by
  rw [setSent, List.map_map]
  apply List.map_congr_left
  intro entry _
  simp only [Function.comp_apply]
  split <;> rfl

/-! ## Changes -/

/-- A change that completes nothing. -/
inductive Change : FPersistentConnection → FPersistentConnection → Prop
  | quiet {before after}
      (gets : after.outstandingGets = before.outstandingGets)
      (counter : after.getCounter = before.getCounter)
      (number : after.requestNumber = before.requestNumber)
      (calls : after.requestCBHash.Sublist before.requestCBHash)
      (acked : after.acked = before.acked)
      (results : after.results = before.results) : Change before after
  | called {before} (action : Action) {block : OnMessage}
      (noRead : ∀ index, block ≠ .get index) :
      Change before (before.sendAction action block)
  | sent {before} {index : Nat} {get : FOutstandingGet}
      (found : before.outstandingGets.lookup index = some get)
      (unsent : get.sent = false) :
      Change before
        (FPersistentConnection.sendAction
          { before with
            outstandingGets := setSent before.outstandingGets index }
          (.get get.path) (.get index))

abbrev Changes : FPersistentConnection → FPersistentConnection → Prop :=
  Relation.ReflTransGen Change

/-- A read gets its number. -/
def ask (self : FPersistentConnection) (path : Path) :
    FPersistentConnection :=
  { self with
    getCounter := self.getCounter + 1
    outstandingGets := self.outstandingGets ++
      [(self.getCounter, { path := path, sent := false })] }

/-- The changes of a step begin with the number of a new read. -/
def note (self : FPersistentConnection) : Event → FPersistentConnection
  | .getData path => self.ask path
  | _ => self

/-- A read is completed. -/
def finish (self : FPersistentConnection) (index : Nat)
    (result : GetResult) : FPersistentConnection :=
  { self with
    results := self.results ++ [(index, result)]
    outstandingGets :=
      self.outstandingGets.filter fun entry => entry.1 ≠ index }

variable {self later : FPersistentConnection}

theorem canSendWrites_iff :
    self.canSendWrites = true ↔ self.connectionState = .connected :=
  decide_eq_true_iff

theorem canSendReads_iff :
    self.canSendReads = true ↔ self.connectionState = .connected :=
  decide_eq_true_iff

/-- A write gets its number. -/
def keep (self : FPersistentConnection) (write : Write) :
    FPersistentConnection :=
  { self with
    putCounter := self.putCounter + 1
    outstandingPuts := self.outstandingPuts ++ [(self.putCounter, write)] }

/-- On an open connection a write is sent at once. -/
theorem putInternal_of_connected
    (connected : self.connectionState = .connected) (write : Write) :
    self.putInternal write = (self.keep write).sendPut self.putCounter := by
  have allowed : (self.keep write).canSendWrites = true :=
    canSendWrites_iff.mpr connected
  rw [FPersistentConnection.putInternal]
  exact if_pos allowed

/-- Otherwise it waits. -/
theorem putInternal_of_not_connected
    (unconnected : self.connectionState ≠ .connected) (write : Write) :
    self.putInternal write = some (self.keep write) := by
  have refused : ¬ (self.keep write).canSendWrites = true :=
    fun allowed => unconnected (canSendWrites_iff.mp allowed)
  rw [FPersistentConnection.putInternal]
  exact if_neg refused

/-- On an open connection a read is sent at once. -/
theorem getDataAtPath_of_connected
    (connected : self.connectionState = .connected) (path : Path) :
    self.getDataAtPath path = (self.ask path).sendGet self.getCounter := by
  have opened : (self.ask path).connected = true :=
    decide_eq_true (Or.inr connected)
  have allowed : (self.ask path).canSendReads = true :=
    canSendReads_iff.mpr connected
  rw [FPersistentConnection.getDataAtPath]
  change (if (!(self.ask path).connected) = true then _ else _) = _
  rw [opened, if_neg (by decide)]
  exact if_pos allowed

/-- Otherwise it waits, perhaps with a timeout. -/
theorem getDataAtPath_of_not_connected
    (unconnected : self.connectionState ≠ .connected) (path : Path) :
    ∃ timers, self.getDataAtPath path =
      some { self.ask path with timers := timers } := by
  have refused : ¬ (self.ask path).canSendReads = true :=
    fun allowed => unconnected (canSendReads_iff.mp allowed)
  rw [FPersistentConnection.getDataAtPath]
  change ∃ timers,
    (if (!(self.ask path).connected) = true then _ else _) = _
  by_cases opened : (self.ask path).connected = true
  · rw [opened, if_neg (by decide)]
    exact ⟨self.timers, if_neg refused⟩
  · rw [Bool.eq_false_iff.mpr opened]
    exact ⟨self.timers ++ [self.getCounter], rfl⟩

/-- What does not touch the reads, the blocks and the completions. -/
theorem Changes.same (gets : later.outstandingGets = self.outstandingGets)
    (counter : later.getCounter = self.getCounter)
    (number : later.requestNumber = self.requestNumber)
    (calls : later.requestCBHash = self.requestCBHash)
    (acked : later.acked = self.acked)
    (results : later.results = self.results) : Changes self later :=
  .single (.quiet gets counter number (by rw [calls]) acked results)

theorem Changes.sendPut {index : Nat}
    (put : self.sendPut index = some later) : Changes self later := by
  rw [FPersistentConnection.sendPut] at put
  split at put
  · rcases Option.bind_eq_some_iff.mp put with ⟨write, _, made⟩
    rw [← Option.some.inj made]
    exact .single (.called _ fun _ other => by cases other)
  · cases put

theorem Changes.sendGet {index : Nat}
    (asked : self.sendGet index = some later) : Changes self later := by
  rw [FPersistentConnection.sendGet] at asked
  split at asked
  · rcases Option.bind_eq_some_iff.mp asked with ⟨get, found, made⟩
    cases already : get.sent with
    | true =>
        rw [if_pos already] at made
        rw [Option.some.inj made]
    | false =>
        rw [if_neg (Bool.not_eq_true _ ▸ already)] at made
        rw [← Option.some.inj made]
        exact .single (.sent found already)
  · cases asked

theorem Changes.putInternal {write : Write}
    (put : self.putInternal write = some later) : Changes self later := by
  rw [FPersistentConnection.putInternal] at put
  split at put
  · refine Relation.ReflTransGen.trans ?_ (Changes.sendPut put)
    exact Changes.same rfl rfl rfl rfl rfl rfl
  · rw [← Option.some.inj put]
    exact Changes.same rfl rfl rfl rfl rfl rfl

theorem Changes.getDataAtPath {path : Path}
    (asked : self.getDataAtPath path = some later) :
    Changes (self.ask path) later := by
  rw [FPersistentConnection.getDataAtPath] at asked
  dsimp only at asked
  split at asked
  · rw [← Option.some.inj asked]
    exact Changes.same rfl rfl rfl rfl rfl rfl
  · split at asked
    · exact Changes.sendGet asked
    · rw [← Option.some.inj asked]
      exact .refl

theorem Changes.restorePut {index : Nat}
    (restored : self.restorePut index = some later) : Changes self later := by
  rw [FPersistentConnection.restorePut] at restored
  split at restored
  · exact Changes.sendPut restored
  · rw [Option.some.inj restored]

theorem Changes.restoreGet {index : Nat}
    (restored : self.restoreGet index = some later) : Changes self later := by
  rw [FPersistentConnection.restoreGet] at restored
  split at restored
  · exact Changes.sendGet restored
  · rw [Option.some.inj restored]

theorem Changes.restoreState (restored : self.restoreState = some later) :
    Changes self later := by
  rw [FPersistentConnection.restoreState] at restored
  split at restored
  · rcases Option.bind_eq_some_iff.mp restored with ⟨middle, puts, gets⟩
    have resent : Changes self middle :=
      foldlM_keeps (fun _ _ _ moved kept =>
        kept.trans (Changes.restorePut moved)) puts .refl
    exact foldlM_keeps (fun _ _ _ moved kept =>
      kept.trans (Changes.restoreGet moved)) gets resent
  · cases restored

theorem Changes.retry (began : self.retry = some later) :
    Changes self later := by
  rw [FPersistentConnection.retry] at began
  split at began
  · rw [← Option.some.inj began]
    exact Changes.same rfl rfl rfl rfl rfl rfl
  · cases began

theorem Changes.tokenFetched (self : FPersistentConnection)
    (token : Option Bool) : Changes self (self.tokenFetched token) := by
  cases token with
  | none => exact Changes.same rfl rfl rfl rfl rfl rfl
  | some token => exact Changes.same rfl rfl rfl rfl rfl rfl

theorem Changes.onReady (ready : self.onReady = some later) :
    Changes self later := by
  rw [FPersistentConnection.onReady] at ready
  split at ready
  · split at ready
    · rw [← Option.some.inj ready]
      refine Relation.ReflTransGen.tail ?_
        (.called .auth fun _ other => by cases other)
      exact Changes.same rfl rfl rfl rfl rfl rfl
    · dsimp only at ready
      refine Relation.ReflTransGen.trans ?_ (Changes.restoreState ready)
      exact Changes.same rfl rfl rfl rfl rfl rfl
  · cases ready

theorem Changes.onDisconnect (self : FPersistentConnection) :
    Changes self self.onDisconnect :=
  .single (.quiet rfl rfl rfl (List.nil_sublist _) rfl rfl)

theorem Changes.authCompleted {ok : Bool}
    (called : self.authCompleted ok = some later) : Changes self later := by
  rw [FPersistentConnection.authCompleted] at called
  split at called
  · refine Relation.ReflTransGen.trans ?_ (Changes.restoreState called)
    exact Changes.same rfl rfl rfl rfl rfl rfl
  · rw [← Option.some.inj called]
    exact .single (.quiet rfl rfl rfl (List.nil_sublist _) rfl rfl)

/-- The block of a response is forgotten before it is called. -/
theorem Changes.forget (self : FPersistentConnection) (rn : Nat) :
    Changes self
      { self with
        requestCBHash :=
          self.requestCBHash.filter fun entry => entry.1 ≠ rn } :=
  .single (.quiet rfl rfl rfl List.filter_sublist rfl rfl)

theorem Changes.acked (changes : Changes self later) :
    later.acked = self.acked := by
  induction changes with
  | refl => rfl
  | tail _ change inductionHypothesis =>
      rw [← inductionHypothesis]
      cases change with
      | quiet _ _ _ _ acked _ => exact acked
      | called _ _ => rfl
      | sent _ _ => rfl

theorem Changes.results (changes : Changes self later) :
    later.results = self.results := by
  induction changes with
  | refl => rfl
  | tail _ change inductionHypothesis =>
      rw [← inductionHypothesis]
      cases change with
      | quiet _ _ _ _ _ results => exact results
      | called _ _ => rfl
      | sent _ _ => rfl

theorem Changes.getCounter (changes : Changes self later) :
    later.getCounter = self.getCounter := by
  induction changes with
  | refl => rfl
  | tail _ change inductionHypothesis =>
      rw [← inductionHypothesis]
      cases change with
      | quiet _ counter _ _ _ _ => exact counter
      | called _ _ => rfl
      | sent _ _ => rfl

/-! ## No assertion fails -/

theorem sendPut_total {index : Nat}
    (connected : self.connectionState = .connected)
    (outstanding : (self.outstandingPuts.lookup index).isSome = true) :
    ∃ later, self.sendPut index = some later ∧
      later.connectionState = .connected := by
  rcases Option.isSome_iff_exists.mp outstanding with ⟨write, found⟩
  have allowed : self.canSendWrites = true := decide_eq_true connected
  refine ⟨self.sendAction (.put write) (.put index), ?_, connected⟩
  rw [FPersistentConnection.sendPut, if_pos allowed, found]
  rfl

theorem sendGet_total {index : Nat}
    (connected : self.connectionState = .connected)
    (outstanding : (self.outstandingGets.lookup index).isSome = true) :
    ∃ later, self.sendGet index = some later ∧
      later.connectionState = .connected := by
  rcases Option.isSome_iff_exists.mp outstanding with ⟨get, found⟩
  have allowed : self.canSendReads = true := decide_eq_true connected
  rw [FPersistentConnection.sendGet, if_pos allowed, found,
    Option.bind_eq_bind, Option.bind_some]
  split
  · exact ⟨self, rfl, connected⟩
  · exact ⟨_, rfl, connected⟩

theorem lookup_isSome_append {Item : Type} (queue : List (Nat × Item))
    (number : Nat) (item : Item) :
    ((queue ++ [(number, item)]).lookup number).isSome = true := by
  rw [lookup_isSome_iff, List.map_append]
  exact List.mem_append_right _ List.mem_cons_self

theorem putInternal_total (self : FPersistentConnection) (write : Write) :
    ∃ later, self.putInternal write = some later := by
  rw [FPersistentConnection.putInternal]
  split
  · next allowed =>
    obtain ⟨later, sent, _⟩ := sendPut_total (of_decide_eq_true allowed)
      (lookup_isSome_append self.outstandingPuts self.putCounter write)
    exact ⟨later, sent⟩
  · exact ⟨_, rfl⟩

theorem getDataAtPath_total (self : FPersistentConnection) (path : Path) :
    ∃ later, self.getDataAtPath path = some later := by
  rw [FPersistentConnection.getDataAtPath]
  dsimp only
  split
  · exact ⟨_, rfl⟩
  · split
    · next allowed =>
      obtain ⟨later, sent, _⟩ := sendGet_total (of_decide_eq_true allowed)
        (lookup_isSome_append self.outstandingGets self.getCounter
          { path := path, sent := false })
      exact ⟨later, sent⟩
    · exact ⟨_, rfl⟩

theorem restoreState_total (connected : self.connectionState = .connected) :
    ∃ later, self.restoreState = some later := by
  have puts (number : Nat) (rest : List Nat) (state : FPersistentConnection)
      (opened : state.connectionState = .connected) :
      ∃ later, state.restorePut number = some later ∧
        later.connectionState = .connected := by
    rw [FPersistentConnection.restorePut]
    split
    · next outstanding => exact sendPut_total opened outstanding
    · exact ⟨state, rfl, opened⟩
  have gets (number : Nat) (rest : List Nat) (state : FPersistentConnection)
      (opened : state.connectionState = .connected) :
      ∃ later, state.restoreGet number = some later ∧
        later.connectionState = .connected := by
    rw [FPersistentConnection.restoreGet]
    split
    · next outstanding => exact sendGet_total opened outstanding
    · exact ⟨state, rfl, opened⟩
  let opened (_ : List Nat) (state : FPersistentConnection) : Prop :=
    state.connectionState = .connected
  obtain ⟨middle, resent, still⟩ :=
    @foldlM_consumes _ restorePut opened puts
      ((self.outstandingPuts.map Prod.fst).mergeSort fun a b =>
        decide (a ≤ b)) self connected
  obtain ⟨later, asked, _⟩ :=
    @foldlM_consumes _ restoreGet opened gets
      ((middle.outstandingGets.map Prod.fst).mergeSort fun a b =>
        decide (a ≤ b)) middle still
  refine ⟨later, ?_⟩
  rw [FPersistentConnection.restoreState, if_pos connected, restorePuts,
    resent]
  exact asked

theorem onReady_total (connecting : self.connectionState = .connecting) :
    ∃ later, self.onReady = some later := by
  rw [FPersistentConnection.onReady, if_pos connecting]
  split
  · exact ⟨_, rfl⟩
  · exact restoreState_total rfl

theorem onDataMessage_total (self : FPersistentConnection)
    (response : Response) :
    ∃ later, self.onDataMessage response = some later := by
  rw [FPersistentConnection.onDataMessage]
  split
  · exact ⟨self, rfl⟩
  · next block _ =>
    cases block with
    | auth =>
        change ∃ later, authCompleted _ response.ok = some later
        rw [FPersistentConnection.authCompleted]
        split
        · exact restoreState_total rfl
        · exact ⟨_, rfl⟩
    | put index => exact ⟨_, rfl⟩
    | get index => exact ⟨_, rfl⟩

end FPersistentConnection

namespace Exchange

open FPersistentConnection (Changes)

variable {State : Type} {service : Service State}
variable {exchange next : Exchange State} {event : Event}

theorem step_total (service : Service State) (exchange : Exchange State)
    (event : Event) : ∃ next, exchange.step service event = some next := by
  have through {result : Option FPersistentConnection}
      (total : ∃ connection, result = some connection)
      (build : FPersistentConnection → Exchange State) :
      ∃ next, (do
        let connection ← result
        some (build connection)) = some next := by
    obtain ⟨connection, rfl⟩ := total
    exact ⟨build connection, rfl⟩
  cases event with
  | putData write =>
      exact through (exchange.connection.putInternal_total write) _
  | getData path =>
      exact through (exchange.connection.getDataAtPath_total path) _
  | timeout index =>
      rw [step]
      split <;> exact ⟨_, rfl⟩
  | retry =>
      rw [step]
      split
      · next down =>
        exact through ⟨_, if_pos down⟩ _
      · exact ⟨exchange, rfl⟩
  | tokenFetched token =>
      rw [step]
      split <;> exact ⟨_, rfl⟩
  | onReady =>
      rw [step]
      split
      · next connecting =>
        exact through (FPersistentConnection.onReady_total connecting) _
      · exact ⟨exchange, rfl⟩
  | serverHandles => exact ⟨_, rfl⟩
  | onDataMessage =>
      change ∃ next, exchange.receive = some next
      rw [receive]
      split
      · exact ⟨exchange, rfl⟩
      · next response rest _ =>
        exact through (exchange.connection.onDataMessage_total response) _
  | onDisconnect => exact ⟨_, rfl⟩

theorem run_cons (exchange : Exchange State) (event : Event)
    (rest : List Event) :
    exchange.run service (event :: rest) =
      exchange.step service event >>= fun next => next.run service rest :=
  List.foldlM_cons

theorem run_singleton (exchange : Exchange State) (event : Event) :
    exchange.run service [event] = exchange.step service event := by
  rw [run_cons]
  cases exchange.step service event <;> rfl

theorem run_append (exchange : Exchange State) (first second : List Event) :
    exchange.run service (first ++ second) =
      exchange.run service first >>= fun middle =>
        middle.run service second :=
  List.foldlM_append

theorem run_total (service : Service State) (exchange : Exchange State)
    (events : List Event) :
    ∃ final, exchange.run service events = some final := by
  induction events generalizing exchange with
  | nil => exact ⟨exchange, rfl⟩
  | cons event rest inductionHypothesis =>
      obtain ⟨next, stepped⟩ := step_total service exchange event
      obtain ⟨final, ran⟩ := inductionHypothesis next
      refine ⟨final, ?_⟩
      rw [run_cons, stepped]
      exact ran

end Exchange

end Firebase
end PocketChef
