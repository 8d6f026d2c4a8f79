import PocketChef.Firebase.Steps

/-!
# The reads of the app

A read is completed once: by the answer to its request, or by its timeout if
it has not been sent.  `sendGet` returns early for a read that was sent
before, and a disconnect clears the block that waits for the answer.  So a
read that was on the connection when it closed stays outstanding for ever: it
is neither sent again nor completed.

This holds whatever the service does.
-/

namespace PocketChef
namespace Firebase

open NumberedQueue

/-! ## What the client keeps track of -/

/-- The requests are numbered, and each read is outstanding or was completed
once.  A block waits for the answers to reads that were sent. -/
structure Tracked (connection : FPersistentConnection) : Prop where
  calls : Increasing connection.requestCBHash
  below : ∀ call ∈ connection.requestCBHash,
    call.1 < connection.requestNumber
  gets : Increasing connection.outstandingGets
  completed :
    (connection.results.map Prod.fst ++
      connection.outstandingGets.map Prod.fst).Perm
        (List.range connection.getCounter)
  asked : ∀ call ∈ connection.requestCBHash, ∀ index,
    call.2 = .get index → index < connection.getCounter
  sent : ∀ call ∈ connection.requestCBHash, ∀ index get,
    call.2 = .get index → connection.outstandingGets.lookup index = some get →
      get.sent = true

namespace Tracked

open FPersistentConnection (Change Changes setSent lookup_setSent)

variable {connection later : FPersistentConnection}

theorem initially : Tracked {} where
  calls := List.Pairwise.nil
  below := fun _ member => absurd member List.not_mem_nil
  gets := List.Pairwise.nil
  completed := List.Perm.refl _
  asked := fun _ member => absurd member List.not_mem_nil
  sent := fun _ member => absurd member List.not_mem_nil

theorem lt_of_outstanding (tracked : Tracked connection)
    {entry : Nat × FOutstandingGet}
    (member : entry ∈ connection.outstandingGets) :
    entry.1 < connection.getCounter := by
  have inside : entry.1 ∈ connection.results.map Prod.fst ++
      connection.outstandingGets.map Prod.fst :=
    List.mem_append_right _ (List.mem_map_of_mem member)
  exact List.mem_range.mp (tracked.completed.mem_iff.mp inside)

theorem quiet (tracked : Tracked connection)
    (gets : later.outstandingGets = connection.outstandingGets)
    (counter : later.getCounter = connection.getCounter)
    (number : later.requestNumber = connection.requestNumber)
    (calls : later.requestCBHash.Sublist connection.requestCBHash)
    (results : later.results = connection.results) : Tracked later where
  calls := tracked.calls.sublist calls
  below := by
    intro call member
    rw [number]
    exact tracked.below call (calls.subset member)
  gets := by
    rw [gets]
    exact tracked.gets
  completed := by
    rw [results, gets, counter]
    exact tracked.completed
  asked := by
    intro call member
    rw [counter]
    exact tracked.asked call (calls.subset member)
  sent := by
    intro call member
    rw [gets]
    exact tracked.sent call (calls.subset member)

theorem same (tracked : Tracked connection)
    (gets : later.outstandingGets = connection.outstandingGets)
    (counter : later.getCounter = connection.getCounter)
    (number : later.requestNumber = connection.requestNumber)
    (calls : later.requestCBHash = connection.requestCBHash)
    (results : later.results = connection.results) : Tracked later :=
  tracked.quiet gets counter number (by rw [calls]) results

theorem sendAction (tracked : Tracked connection) (action : Action)
    {block : OnMessage}
    (kept : ∀ index, block = .get index → index < connection.getCounter ∧
      ∀ get, connection.outstandingGets.lookup index = some get →
        get.sent = true) :
    Tracked (connection.sendAction action block) where
  calls := tracked.calls.append tracked.below block
  below := by
    intro call member
    rcases List.mem_append.mp member with earlier | last
    · exact Nat.lt_succ_of_lt (tracked.below call earlier)
    · rw [List.mem_singleton.mp last]
      exact Nat.lt_succ_self _
  gets := tracked.gets
  completed := tracked.completed
  asked := by
    intro call member index
    rcases List.mem_append.mp member with earlier | last
    · exact tracked.asked call earlier index
    · rw [List.mem_singleton.mp last]
      exact fun same => (kept index same).1
  sent := by
    intro call member index get
    rcases List.mem_append.mp member with earlier | last
    · exact tracked.sent call earlier index get
    · rw [List.mem_singleton.mp last]
      exact fun same => (kept index same).2 get

theorem ask (tracked : Tracked connection) (path : Path) :
    Tracked (connection.ask path) where
  calls := tracked.calls
  below := tracked.below
  gets := tracked.gets.append (fun _ => tracked.lt_of_outstanding) _
  completed := by
    change (connection.results.map Prod.fst ++
      (connection.outstandingGets ++ [_]).map Prod.fst).Perm
        (List.range (connection.getCounter + 1))
    rw [List.map_append, ← List.append_assoc, List.range_succ]
    exact tracked.completed.append_right _
  asked := fun call member index same =>
    Nat.lt_succ_of_lt (tracked.asked call member index same)
  sent := by
    intro call member index get same found
    refine tracked.sent call member index get same ?_
    have other : index ≠ connection.getCounter :=
      Nat.ne_of_lt (tracked.asked call member index same)
    change (connection.outstandingGets ++ [_]).lookup index = some get
      at found
    rw [List.lookup_append, List.lookup_cons,
      beq_eq_false_iff_ne.mpr other] at found
    simpa using found

theorem note (tracked : Tracked connection) (event : Event) :
    Tracked (connection.note event) := by
  cases event with
  | getData path => exact tracked.ask path
  | _ => exact tracked

theorem setSent (tracked : Tracked connection) (index : Nat) :
    Tracked
      { connection with
        outstandingGets :=
          FPersistentConnection.setSent connection.outstandingGets index } where
  calls := tracked.calls
  below := tracked.below
  gets := by
    have increasing := List.pairwise_map.mpr tracked.gets
    rw [← FPersistentConnection.map_fst_setSent _ index] at increasing
    exact List.pairwise_map.mp increasing
  completed := by
    rw [FPersistentConnection.map_fst_setSent]
    exact tracked.completed
  asked := tracked.asked
  sent := by
    intro call member other get same found
    rw [lookup_setSent, Option.map_eq_some_iff] at found
    rcases found with ⟨before, there, rfl⟩
    split
    · rfl
    · exact tracked.sent call member other before same there

theorem change (tracked : Tracked connection)
    (changed : Change connection later) : Tracked later := by
  cases changed with
  | quiet gets counter number calls _ results =>
      exact tracked.quiet gets counter number calls results
  | called action noRead =>
      exact tracked.sendAction action fun index same =>
        absurd same (noRead index)
  | @sent index get found unsent =>
      refine (tracked.setSent index).sendAction _ ?_
      intro other same
      obtain rfl := OnMessage.get.inj same
      refine ⟨tracked.lt_of_outstanding (mem_of_lookup found), ?_⟩
      intro marked there
      rw [lookup_setSent, found, Option.map_some, if_pos rfl] at there
      rw [← Option.some.inj there]

theorem changes (tracked : Tracked connection)
    (changes : Changes connection later) : Tracked later := by
  induction changes with
  | refl => exact tracked
  | tail _ changed inductionHypothesis =>
      exact inductionHypothesis.change changed

/-- An outstanding read is completed. -/
theorem finish (tracked : Tracked connection) {index : Nat}
    (outstanding : index ∈ connection.outstandingGets.map Prod.fst)
    (result : GetResult) : Tracked (connection.finish index result) where
  calls := tracked.calls
  below := tracked.below
  gets := tracked.gets.filter _
  completed := by
    change ((connection.results ++ [(index, result)]).map Prod.fst ++ _).Perm _
    rw [List.map_append, List.append_assoc]
    refine List.Perm.trans (List.Perm.append_left _ ?_) tracked.completed
    exact (numbers_perm_filter tracked.gets outstanding).symm
  asked := tracked.asked
  sent := by
    intro call member other get same found
    refine tracked.sent call member other get same ?_
    change (connection.outstandingGets.filter _).lookup other = some get
      at found
    by_cases finished : other = index
    · rw [finished, lookup_filter_self] at found
      cases found
    · rw [lookup_filter_ne finished] at found
      exact found

end Tracked

namespace Exchange

open FPersistentConnection (Changes)

variable {State : Type} {service : Service State}
variable {exchange next : Exchange State} {event : Event}

/-! ## How a read is completed -/

/-- The step completes the read `index`: the response that arrives answers its
request, or its timeout comes before it was sent. -/
inductive Completes (exchange : Exchange State) : Event → Nat → GetResult → Prop
  | answered {response : Response} {rest : List Response} {index : Nat}
      {get : FOutstandingGet}
      (arriving : exchange.responses = response :: rest)
      (called : exchange.connection.requestCBHash.lookup response.rn =
        some (.get index))
      (outstanding : exchange.connection.outstandingGets.lookup index =
        some get)
      (sent : get.sent = true) :
      Completes exchange .onDataMessage index
        (if response.ok then .ok response.data else .failed)
  | timedOut {index : Nat} {get : FOutstandingGet}
      (scheduled : index ∈ exchange.connection.timers)
      (outstanding : exchange.connection.outstandingGets.lookup index =
        some get)
      (unsent : get.sent = false) :
      Completes exchange (.timeout index) index .failed

/-- What a step does to the connection: changes, and then the completion of
at most one write or one read. -/
inductive Moves (exchange : Exchange State) (event : Event)
    (later : FPersistentConnection) : Prop
  | changed (changes : Changes (exchange.connection.note event) later)
      (none : ∀ index result, ¬ exchange.Completes event index result)
  | acked {middle : FPersistentConnection} (ack : Nat × Bool)
      (arriving : event = .onDataMessage)
      (changes : Changes (exchange.connection.note event) middle)
      (none : ∀ index result, ¬ exchange.Completes event index result)
      (same : later = { middle with acked := middle.acked ++ [ack] })
  | completed {middle : FPersistentConnection} {index : Nat}
      {result : GetResult} (completes : exchange.Completes event index result)
      (changes : Changes (exchange.connection.note event) middle)
      (gets : middle.outstandingGets = exchange.connection.outstandingGets)
      (same : later = middle.finish index result)

theorem moves_timeout {index : Nat}
    (stepped : exchange.step service (.timeout index) = some next) :
    exchange.Moves (.timeout index) next.connection := by
  rw [step] at stepped
  split at stepped
  · next scheduled =>
    rw [← Option.some.inj stepped]
    dsimp only
    have erased : Changes exchange.connection
        { exchange.connection with
          timers := exchange.connection.timers.erase index } :=
      Changes.same rfl rfl rfl rfl rfl rfl
    rw [FPersistentConnection.getTimedOut]
    dsimp only
    split
    · next absent =>
      refine .changed erased ?_
      intro other result completes
      cases completes with
      | timedOut _ outstanding _ => cases absent.symm.trans outstanding
    · next get found =>
      split
      · next sent =>
        refine .changed erased ?_
        intro other result completes
        cases completes with
        | timedOut _ outstanding unsent =>
            rw [Option.some.inj (found.symm.trans outstanding), unsent] at sent
            cases sent
      · next unsent =>
        exact .completed (.timedOut scheduled found
          (Bool.eq_false_iff.mpr unsent)) erased rfl rfl
  · next unscheduled =>
    rw [Option.some.inj stepped]
    refine .changed .refl ?_
    intro other result completes
    cases completes with
    | timedOut scheduled _ _ =>
        rw [← Option.some.inj stepped] at scheduled
        exact unscheduled scheduled

/-- An answer completes a read only through the block of its request. -/
theorem Completes.block {response : Response} {rest : List Response}
    (arriving : exchange.responses = response :: rest)
    {block : Option OnMessage}
    (called : exchange.connection.requestCBHash.lookup response.rn = block)
    {index : Nat} {result : GetResult}
    (completes : exchange.Completes .onDataMessage index result) :
    block = some (.get index) := by
  cases completes with
  | answered other called' _ _ =>
      rw [(List.cons.inj (arriving.symm.trans other)).1, called'] at called
      exact called.symm

/-- The block of a write acknowledges it, if it is outstanding. -/
theorem moves_putCompleted {middle : FPersistentConnection}
    (changes : Changes exchange.connection middle)
    (none : ∀ index result,
      ¬ exchange.Completes .onDataMessage index result)
    (index : Nat) (ok : Bool) :
    exchange.Moves .onDataMessage (middle.putCompleted index ok) := by
  rw [FPersistentConnection.putCompleted]
  split
  · have removed : Changes exchange.connection
        { middle with
          outstandingPuts :=
            middle.outstandingPuts.filter fun entry => entry.1 ≠ index } :=
      changes.trans (Changes.same rfl rfl rfl rfl rfl rfl)
    exact .acked (index, ok) rfl removed none rfl
  · exact .changed changes none

/-- The block of a read completes it, if it is outstanding. -/
theorem moves_getCompleted (tracked : Tracked exchange.connection)
    {middle : FPersistentConnection}
    (changes : Changes exchange.connection middle)
    (gets : middle.outstandingGets = exchange.connection.outstandingGets)
    {response : Response} {rest : List Response}
    (arriving : exchange.responses = response :: rest) {index : Nat}
    (called : exchange.connection.requestCBHash.lookup response.rn =
      some (.get index)) :
    exchange.Moves .onDataMessage
      (middle.getCompleted index response.ok response.data) := by
  rw [FPersistentConnection.getCompleted, gets]
  split
  · next outstanding =>
    rcases Option.isSome_iff_exists.mp outstanding with ⟨get, found⟩
    have sent := tracked.sent _ (mem_of_lookup called) index get rfl found
    refine .completed (.answered arriving called found sent) changes gets ?_
    rw [FPersistentConnection.finish, gets]
  · next absent =>
    refine .changed changes ?_
    intro other result completes
    have same := completes.block arriving called
    cases completes with
    | answered _ _ outstanding _ =>
        rw [← OnMessage.get.inj (Option.some.inj same)] at outstanding
        exact absent (Option.isSome_iff_exists.mpr ⟨_, outstanding⟩)

theorem moves_receive (tracked : Tracked exchange.connection)
    (received : exchange.receive = some next) :
    exchange.Moves .onDataMessage next.connection := by
  rw [receive] at received
  split at received
  · next silent =>
    rw [← Option.some.inj received]
    refine .changed .refl ?_
    intro index result completes
    cases completes with
    | answered arriving _ _ _ => cases silent.symm.trans arriving
  · next response rest arriving =>
    rcases Option.bind_eq_some_iff.mp received with ⟨connection, moved, same⟩
    rw [← Option.some.inj same]
    dsimp only
    rw [FPersistentConnection.onDataMessage] at moved
    have popped := Changes.forget exchange.connection response.rn
    split at moved
    · next uncalled =>
      rw [← Option.some.inj moved]
      refine .changed .refl ?_
      intro index result completes
      cases completes.block arriving uncalled
    · next block called =>
      cases block with
      | auth =>
          refine .changed (popped.trans (Changes.authCompleted moved)) ?_
          intro index result completes
          cases completes.block arriving called
      | put index =>
          rw [← Option.some.inj moved]
          refine moves_putCompleted popped ?_ index response.ok
          intro other result completes
          cases completes.block arriving called
      | get index =>
          rw [← Option.some.inj moved]
          exact moves_getCompleted tracked popped rfl arriving called

/-- Only an answer and a timeout complete a read. -/
theorem moves_of_changes
    (changes : Changes (exchange.connection.note event) next.connection)
    (noAnswer : event ≠ .onDataMessage)
    (noTimeout : ∀ index, event ≠ .timeout index) :
    exchange.Moves event next.connection := by
  refine .changed changes ?_
  intro index result completes
  cases completes with
  | answered _ _ _ _ => exact noAnswer rfl
  | timedOut _ _ _ => exact noTimeout index rfl

theorem moves_of_step (tracked : Tracked exchange.connection)
    (stepped : exchange.step service event = some next) :
    exchange.Moves event next.connection := by
  have through {result : Option FPersistentConnection}
      (made : (result >>= fun connection =>
        some { exchange with connection := connection }) = some next)
      (changes : ∀ connection, result = some connection →
        Changes exchange.connection connection) :
      Changes exchange.connection next.connection := by
    obtain ⟨connection, found, same⟩ := Option.bind_eq_some_iff.mp made
    rw [← Option.some.inj same]
    exact changes connection found
  have stays (same : some exchange = some next) :
      Changes exchange.connection next.connection := by
    rw [Option.some.inj same]
  cases event with
  | putData write =>
      refine moves_of_changes ?_ (by simp) (by simp)
      obtain ⟨connection, put, same⟩ := Option.bind_eq_some_iff.mp stepped
      rw [← Option.some.inj same]
      exact Changes.putInternal put
  | getData path =>
      refine moves_of_changes ?_ (by simp) (by simp)
      obtain ⟨connection, asked, same⟩ := Option.bind_eq_some_iff.mp stepped
      rw [← Option.some.inj same]
      exact Changes.getDataAtPath asked
  | timeout index => exact moves_timeout stepped
  | retry =>
      refine moves_of_changes ?_ (by simp) (by simp)
      rw [step] at stepped
      split at stepped
      · exact through stepped fun _ => Changes.retry
      · exact stays stepped
  | tokenFetched token =>
      refine moves_of_changes ?_ (by simp) (by simp)
      rw [step] at stepped
      split at stepped
      · rw [← Option.some.inj stepped]
        exact Changes.tokenFetched _ token
      · exact stays stepped
  | onReady =>
      refine moves_of_changes ?_ (by simp) (by simp)
      rw [step] at stepped
      split at stepped
      · exact through stepped fun _ => Changes.onReady
      · exact stays stepped
  | serverHandles =>
      refine moves_of_changes ?_ (by simp) (by simp)
      rw [← Option.some.inj stepped, serverHandles]
      split
      · exact Changes.same rfl rfl rfl rfl rfl rfl
      · exact .refl
  | onDataMessage => exact moves_receive tracked stepped
  | onDisconnect =>
      refine moves_of_changes ?_ (by simp) (by simp)
      rw [← Option.some.inj stepped]
      exact Changes.onDisconnect _

theorem Completes.unique {index other : Nat} {result otherResult : GetResult}
    (completes : exchange.Completes event index result)
    (also : exchange.Completes event other otherResult) :
    index = other ∧ result = otherResult := by
  cases completes with
  | answered arriving called _ _ =>
      cases also with
      | answered arriving' called' _ _ =>
          rw [arriving] at arriving'
          obtain ⟨rfl, _⟩ := List.cons.inj arriving'
          rw [called] at called'
          exact ⟨OnMessage.get.inj (Option.some.inj called'), rfl⟩
  | timedOut _ _ _ =>
      cases also with
      | timedOut _ _ _ => exact ⟨rfl, rfl⟩

theorem Completes.outstanding {index : Nat} {result : GetResult}
    (completes : exchange.Completes event index result) :
    ∃ get, exchange.connection.outstandingGets.lookup index = some get := by
  cases completes with
  | answered _ _ outstanding _ => exact ⟨_, outstanding⟩
  | timedOut _ outstanding _ => exact ⟨_, outstanding⟩

/-! ## Runs -/

theorem tracked_step (tracked : Tracked exchange.connection)
    (stepped : exchange.step service event = some next) :
    Tracked next.connection := by
  cases moves_of_step tracked stepped with
  | changed changes _ => exact (tracked.note event).changes changes
  | acked ack _ changes _ same =>
      rw [same]
      exact ((tracked.note event).changes changes).quiet rfl rfl rfl
        (List.Sublist.refl _) rfl
  | completed completes changes gets same =>
      rw [same]
      refine ((tracked.note event).changes changes).finish ?_ _
      obtain ⟨get, found⟩ := completes.outstanding
      rw [gets]
      exact List.mem_map_of_mem (mem_of_lookup found)

theorem tracked_run {events : List Event} {final : Exchange State}
    (tracked : Tracked exchange.connection)
    (ran : exchange.run service events = some final) :
    Tracked final.connection := by
  induction events generalizing exchange with
  | nil =>
      rw [← Option.some.inj ran]
      exact tracked
  | cons event rest inductionHypothesis =>
      rw [run_cons] at ran
      obtain ⟨next, stepped, ranRest⟩ := Option.bind_eq_some_iff.mp ran
      exact inductionHypothesis (tracked_step tracked stepped) ranRest

theorem getCounter_note (connection : FPersistentConnection) (event : Event) :
    (connection.note event).getCounter =
      connection.getCounter + event.read.toList.length := by
  cases event <;> rfl

theorem getCounter_step (tracked : Tracked exchange.connection)
    (stepped : exchange.step service event = some next) :
    next.connection.getCounter =
      exchange.connection.getCounter + event.read.toList.length := by
  rw [← getCounter_note]
  cases moves_of_step tracked stepped with
  | changed changes _ => exact changes.getCounter
  | acked ack _ changes _ same =>
      rw [same]
      exact changes.getCounter
  | completed _ changes _ same =>
      rw [same]
      exact changes.getCounter

theorem getCounter_run {events : List Event} {final : Exchange State}
    (tracked : Tracked exchange.connection)
    (ran : exchange.run service events = some final) :
    final.connection.getCounter =
      exchange.connection.getCounter + (reads events).length := by
  induction events generalizing exchange with
  | nil =>
      rw [← Option.some.inj ran]
      rfl
  | cons event rest inductionHypothesis =>
      rw [run_cons] at ran
      obtain ⟨next, stepped, ranRest⟩ := Option.bind_eq_some_iff.mp ran
      rw [inductionHypothesis (tracked_step tracked stepped) ranRest,
        getCounter_step tracked stepped, reads_cons, List.length_append,
        Nat.add_assoc]

theorem results_note (connection : FPersistentConnection) (event : Event) :
    (connection.note event).results = connection.results := by
  cases event <;> rfl

/-- A step completes a read exactly if it can. -/
theorem results_step (tracked : Tracked exchange.connection)
    (stepped : exchange.step service event = some next) :
    (∀ index result, exchange.Completes event index result →
      next.connection.results =
        exchange.connection.results ++ [(index, result)]) ∧
      (next.connection.results ≠ exchange.connection.results →
        ∃ index result, exchange.Completes event index result) := by
  cases moves_of_step tracked stepped with
  | changed changes none =>
      refine ⟨fun index result completes =>
        absurd completes (none index result), ?_⟩
      intro different
      exact absurd (changes.results.trans (results_note _ event)) different
  | acked ack _ changes none same =>
      refine ⟨fun index result completes =>
        absurd completes (none index result), ?_⟩
      intro different
      rw [same] at different
      exact absurd (changes.results.trans (results_note _ event)) different
  | @completed middle index result completes changes _ same =>
      refine ⟨?_, fun _ => ⟨index, result, completes⟩⟩
      intro other otherResult also
      have once : index = other ∧ result = otherResult :=
        completes.unique also
      rw [same, ← once.1, ← once.2]
      change middle.results ++ _ = _
      rw [changes.results, results_note]

/-- Every read is outstanding or was completed, and it was completed once.  A
step completes the read whose answer arrives, or the one whose timeout comes
before it was sent, and no other. -/
theorem reads_completed_once (service : Service State) (state : State)
    (events : List Event) :
    ∃ exchange, (start state).run service events = some exchange ∧
      (exchange.connection.results.map Prod.fst ++
        exchange.connection.outstandingGets.map Prod.fst).Perm
          (List.range (reads events).length) ∧
      ∀ before event after, events = before ++ event :: after →
        ∃ reached next, (start state).run service before = some reached ∧
          reached.step service event = some next ∧
          (∀ index result, reached.Completes event index result →
            next.connection.results =
              reached.connection.results ++ [(index, result)]) ∧
          (next.connection.results ≠ reached.connection.results →
            ∃ index result, reached.Completes event index result) := by
  have initially : Tracked (start state).connection := Tracked.initially
  obtain ⟨exchange, ran⟩ := run_total service (start state) events
  have counted := getCounter_run initially ran
  change exchange.connection.getCounter = 0 + _ at counted
  refine ⟨exchange, ran, ?_, ?_⟩
  · rw [Nat.zero_add] at counted
    rw [← counted]
    exact (tracked_run initially ran).completed
  · intro before event after split
    obtain ⟨reached, ranBefore⟩ := run_total service (start state) before
    obtain ⟨next, stepped⟩ := step_total service reached event
    exact ⟨reached, next, ranBefore, stepped,
      results_step (tracked_run initially ranBefore) stepped⟩

end Exchange

/-! ## Interrupted reads -/

/-- The read was sent, and no block waits for its answer. -/
structure Abandoned (index : Nat) (get : FOutstandingGet)
    (connection : FPersistentConnection) : Prop where
  outstanding : connection.outstandingGets.lookup index = some get
  sent : get.sent = true
  uncalled : ∀ call ∈ connection.requestCBHash, call.2 ≠ .get index

namespace Abandoned

open FPersistentConnection (Change Changes lookup_setSent)

variable {index : Nat} {get : FOutstandingGet}
variable {connection later : FPersistentConnection}

/-- The read itself is not sent again. -/
theorem change (abandoned : Abandoned index get connection)
    (changed : Change connection later) : Abandoned index get later := by
  have noCall {action : Action} {block : OnMessage}
      {before : FPersistentConnection}
      (same : before.requestCBHash = connection.requestCBHash)
      (other : block ≠ .get index) :
      ∀ call ∈ (before.sendAction action block).requestCBHash,
        call.2 ≠ .get index := by
    intro call member
    rcases List.mem_append.mp member with earlier | last
    · rw [same] at earlier
      exact abandoned.uncalled call earlier
    · rw [List.mem_singleton.mp last]
      exact other
  cases changed with
  | quiet gets _ _ calls _ _ =>
      refine ⟨?_, abandoned.sent, fun call member =>
        abandoned.uncalled call (calls.subset member)⟩
      rw [gets]
      exact abandoned.outstanding
  | called action noRead =>
      exact ⟨abandoned.outstanding, abandoned.sent, noCall rfl (noRead index)⟩
  | @sent other _ found unsent =>
      have different : index ≠ other := by
        rintro rfl
        rw [abandoned.outstanding] at found
        rw [← Option.some.inj found, abandoned.sent] at unsent
        cases unsent
      refine ⟨?_, abandoned.sent, noCall rfl ?_⟩
      · change (FPersistentConnection.setSent _ other).lookup index = _
        rw [lookup_setSent, abandoned.outstanding, Option.map_some,
          if_neg different]
      · exact fun same => different (OnMessage.get.inj same).symm

theorem changes (abandoned : Abandoned index get connection)
    (changes : Changes connection later) : Abandoned index get later := by
  induction changes with
  | refl => exact abandoned
  | tail _ changed inductionHypothesis =>
      exact inductionHypothesis.change changed

theorem note (abandoned : Abandoned index get connection) (event : Event) :
    Abandoned index get (connection.note event) := by
  cases event with
  | getData path =>
      refine ⟨?_, abandoned.sent, abandoned.uncalled⟩
      change (connection.outstandingGets ++ [_]).lookup index = some get
      rw [List.lookup_append, abandoned.outstanding]
      rfl
  | _ => exact abandoned

variable {State : Type} {service : Service State}
variable {exchange next : Exchange State} {event : Event}

/-- Neither an answer nor a timeout completes the read. -/
theorem ne_of_completes (abandoned : Abandoned index get exchange.connection)
    {other : Nat} {result : GetResult}
    (completes : exchange.Completes event other result) : index ≠ other := by
  rintro rfl
  cases completes with
  | answered _ called _ _ =>
      exact abandoned.uncalled _ (mem_of_lookup called) rfl
  | timedOut _ outstanding unsent =>
      rw [abandoned.outstanding] at outstanding
      rw [← Option.some.inj outstanding, abandoned.sent] at unsent
      cases unsent

theorem step (tracked : Tracked exchange.connection)
    (abandoned : Abandoned index get exchange.connection)
    (stepped : exchange.step service event = some next) :
    Abandoned index get next.connection := by
  cases Exchange.moves_of_step tracked stepped with
  | changed changes _ => exact (abandoned.note event).changes changes
  | acked ack _ changes _ same =>
      have kept := (abandoned.note event).changes changes
      rw [same]
      exact ⟨kept.outstanding, kept.sent, kept.uncalled⟩
  | completed completes changes _ same =>
      have kept := (abandoned.note event).changes changes
      rw [same]
      refine ⟨?_, kept.sent, kept.uncalled⟩
      exact (lookup_filter_ne (abandoned.ne_of_completes completes)).trans
        kept.outstanding

theorem run {events : List Event} {final : Exchange State}
    (tracked : Tracked exchange.connection)
    (abandoned : Abandoned index get exchange.connection)
    (ran : exchange.run service events = some final) :
    Abandoned index get final.connection := by
  induction events generalizing exchange with
  | nil =>
      rw [← Option.some.inj ran]
      exact abandoned
  | cons event rest inductionHypothesis =>
      rw [Exchange.run_cons] at ran
      obtain ⟨next, stepped, ranRest⟩ := Option.bind_eq_some_iff.mp ran
      exact inductionHypothesis (Exchange.tracked_step tracked stepped)
        (abandoned.step tracked stepped) ranRest

end Abandoned

namespace Exchange

variable {State : Type}

/-- A read that was on the connection when it closed is neither completed nor
forgotten nor sent again in any continuation of the run. -/
theorem interrupted_read (service : Service State) (state : State)
    (before after : List Event) :
    ∃ closed final,
      (start state).run service (before ++ [.onDisconnect]) = some closed ∧
      closed.run service after = some final ∧
      ∀ index get, (index, get) ∈ closed.connection.outstandingGets →
        get.sent = true →
          (index, get) ∈ final.connection.outstandingGets ∧
            index ∉ final.connection.results.map Prod.fst ∧
            ∀ call ∈ final.connection.requestCBHash,
              call.2 ≠ .get index := by
  obtain ⟨opened, ranBefore⟩ := run_total service (start state) before
  obtain ⟨closed, stepped⟩ := step_total service opened .onDisconnect
  obtain ⟨final, ranAfter⟩ := run_total service closed after
  have ranClosed : (start state).run service (before ++ [.onDisconnect]) =
      some closed := by
    rw [run_append, ranBefore, Option.bind_eq_bind, Option.bind_some,
      run_cons, stepped]
    rfl
  have tracked : Tracked closed.connection :=
    tracked_run Tracked.initially ranClosed
  have trackedAfter := tracked_run tracked ranAfter
  refine ⟨closed, final, ranClosed, ranAfter, ?_⟩
  intro index get member sent
  have abandoned : Abandoned index get closed.connection := by
    refine ⟨lookup_of_mem tracked.gets member, sent, ?_⟩
    rw [← Option.some.inj stepped]
    exact fun _ called => absurd called List.not_mem_nil
  have kept := abandoned.run tracked ranAfter
  have still := mem_of_lookup kept.outstanding
  refine ⟨still, ?_, kept.uncalled⟩
  intro completed
  have once := trackedAfter.completed.nodup_iff.mpr List.nodup_range
  exact (List.nodup_append.mp once).2.2 index completed index
    (List.mem_map_of_mem still) rfl

/-- A read on an open connection that closes before the service has seen the
request. -/
def interrupting : List Event :=
  [.retry, .tokenFetched (some false), .onReady, .getData ["users", "ann"]]

/-- The next connection, on which everything is answered. -/
def answering : List Event :=
  [.retry, .tokenFetched (some true), .onReady, .serverHandles,
    .onDataMessage, .serverHandles, .onDataMessage, .timeout 0]

theorem interrupted_read_ann :
    ∃ closed final,
      (start []).run (Service.open fun _ => true)
        (interrupting ++ [.onDisconnect]) = some closed ∧
      closed.run (Service.open fun _ => true) answering = some final ∧
      (0, ⟨["users", "ann"], true⟩) ∈ closed.connection.outstandingGets ∧
      (0, ⟨["users", "ann"], true⟩) ∈ final.connection.outstandingGets ∧
      0 ∉ final.connection.results.map Prod.fst ∧
      ∀ call ∈ final.connection.requestCBHash, call.2 ≠ .get 0 := by
  have sent : ((start []).run (Service.open fun _ => true)
      (interrupting ++ [.onDisconnect])).map
        (fun closed => closed.connection.outstandingGets) =
          some [(0, ⟨["users", "ann"], true⟩)] := by
    decide +kernel
  obtain ⟨closed, final, ranClosed, ranFinal, kept⟩ :=
    interrupted_read (Service.open fun _ => true) [] interrupting answering
  rw [ranClosed] at sent
  have outstanding : (0, ⟨["users", "ann"], true⟩) ∈
      closed.connection.outstandingGets := by
    have gets : closed.connection.outstandingGets =
        [(0, ⟨["users", "ann"], true⟩)] :=
      Option.some.inj sent
    rw [gets]
    exact List.mem_cons_self
  exact ⟨closed, final, ranClosed, ranFinal, outstanding,
    kept 0 _ outstanding rfl⟩

end Exchange

end Firebase
end PocketChef
