import PocketChef.Firebase.FRepo

/-!
# The pending writes of a run

In every run the tree of pending writes has the writes that the service has
not answered, in their order, and no assertion of the client fails.  The
connection goes through the same run, but for the reads that the client
answers alone.
-/

namespace PocketChef
namespace Firebase

open FUtilities (compareKey)
open FValidation
open NumberedQueue (numbered)
open PathStrip

/-- The keys are valid, and both orders of the client tell them apart. -/
structure Keys (stringComparator : String → String → Ordering)
    (named : String → Prop) : Prop where
  valid : ∀ key, named key → isValidKey key = true
  apart : Separates compareKey named
  apartStrings : Separates stringComparator named

/-- The record of a write with its number. -/
def Write.record (number : Nat) (write : Write) :
    FWriteRecord String (NSObject FiniteDouble) where
  writeId := number
  path := write.path
  overwrite := write.node
  visible := true

/-- The records of the writes from number `first` on. -/
def records (first : Nat) (issued : List Write) :
    List (FWriteRecord String (NSObject FiniteDouble)) :=
  (numbered first (issued.drop first)).map fun entry =>
    entry.2.record entry.1

theorem records_cons {issued : List Write} {first : Nat} {write : Write}
    (found : issued[first]? = some write) :
    records first issued =
      write.record first :: records (first + 1) issued := by
  obtain ⟨inside, same⟩ := List.getElem?_eq_some_iff.mp found
  rw [records, List.drop_eq_getElem_cons inside, same]
  rfl

theorem records_append {issued : List Write} {first : Nat}
    (inside : first ≤ issued.length) (write : Write) :
    records first (issued ++ [write]) =
      records first issued ++ [write.record issued.length] := by
  rw [records, List.drop_append_of_le_length inside,
    NumberedQueue.numbered_append, List.map_append, List.length_drop,
    Nat.add_sub_cancel' inside]
  rfl

theorem Write.Accepted.kept {named : String → Prop} {write : Write}
    (accepted : write.Accepted named) (apart : Separates compareKey named)
    (number : Nat) :
    FWriteTree.Kept compareKey named (write.record number) where
  visible := rfl
  names := accepted.place
  node := accepted.wellFormed apart

namespace FRepo

open Exchange (Terms)

variable {State : Type} {foundation : Foundation FiniteDouble}
variable {stringComparator : String → String → Ordering}
variable {named : String → Prop} {terms : Terms State}
variable {repo : FRepo State} {issued : List Write} {acknowledged : Nat}

/-- The tree has the writes from `acknowledged` on. -/
structure Pending (stringComparator : String → String → Ordering)
    (named : String → Prop) (issued : List Write) (acknowledged : Nat)
    (repo : FRepo State) : Prop where
  counter : repo.writeIdCounter = issued.length
  callbacks : repo.callbacks = (List.range issued.length).map Int.ofNat
  valid : repo.pendingWriteTree.Valid compareKey stringComparator named
    issued.length
  pending : repo.pendingWriteTree.allWrites = records acknowledged issued

theorem Pending.initially (state : State) :
    Pending stringComparator named [] 0 (start state) where
  counter := rfl
  callbacks := rfl
  valid := .new
  pending := rfl

variable [Std.TransCmp stringComparator]

/-- The first of the pending writes is answered. -/
theorem Pending.ackWrite (keys : Keys stringComparator named)
    (pending : Pending stringComparator named issued acknowledged repo)
    (outstanding : acknowledged < issued.length) (ok : Bool) :
    ∃ later, repo.ackWrite stringComparator (acknowledged, ok) =
        some later ∧
      Pending stringComparator named issued (acknowledged + 1) later ∧
      later.exchange = repo.exchange ∧ later.answered = repo.answered := by
  have found : issued[acknowledged]? = some issued[acknowledged] :=
    List.getElem?_eq_getElem outstanding
  have first := pending.pending
  rw [records_cons found] at first
  obtain ⟨removed, events, ran, valid, left⟩ :=
    pending.valid.removeWriteId keys.apart keys.apartStrings first
  have writeId : repo.callbacks[acknowledged]? =
      some (Int.ofNat acknowledged) := by
    rw [pending.callbacks, List.getElem?_map,
      List.getElem?_range outstanding]
    rfl
  refine ⟨{ repo with pendingWriteTree := removed }, ?_, ?_, rfl, rfl⟩
  · rw [FRepo.ackWrite, writeId]
    change (repo.pendingWriteTree.removeWriteId compareKey stringComparator
      (issued[acknowledged].record acknowledged).writeId >>= _) = _
    rw [ran]
    rfl
  · exact ⟨pending.counter, pending.callbacks, valid, left⟩

/-- The blocks of all writes that a step answers are called. -/
theorem Pending.ackWrites (keys : Keys stringComparator named)
    (pending : Pending stringComparator named issued acknowledged repo)
    (oks : List Bool) (upper : acknowledged + oks.length ≤ issued.length) :
    ∃ later, (numbered acknowledged oks).foldlM
        (FRepo.ackWrite stringComparator) repo = some later ∧
      Pending stringComparator named issued (acknowledged + oks.length)
        later ∧
      later.exchange = repo.exchange ∧ later.answered = repo.answered := by
  induction oks generalizing acknowledged repo with
  | nil => exact ⟨repo, rfl, pending, rfl, rfl⟩
  | cons ok rest inductionHypothesis =>
      rw [List.length_cons] at upper
      obtain ⟨next, acked, after, sameExchange, sameAnswers⟩ :=
        pending.ackWrite keys (by omega) ok
      obtain ⟨later, ran, done, exchange, answered⟩ :=
        inductionHypothesis after (by omega)
      refine ⟨later, ?_, ?_, exchange.trans sameExchange,
        answered.trans sameAnswers⟩
      · rw [numbered, List.foldlM_cons, acked]
        exact ran
      · rw [List.length_cons, Nat.add_comm rest.length, ← Nat.add_assoc]
        exact done

/-! ## Steps and runs -/

/-- What holds after every run. -/
structure Invariant (stringComparator : String → String → Ordering)
    (named : String → Prop) (terms : Terms State) (repo : FRepo State) :
    Prop where
  exchange : repo.exchange.Invariant terms
  accepted : ∀ write ∈ repo.exchange.issued, write.Accepted named
  pending : Pending stringComparator named repo.exchange.issued
    repo.exchange.connection.acked.length repo

omit [Std.TransCmp stringComparator] in
theorem Invariant.initially (terms : Terms State) {state : State}
    (stores : terms.service.contents state = terms.stored) :
    Invariant stringComparator named terms (start state) where
  exchange := Exchange.Invariant.initially terms stores
  accepted := fun _ member => absurd member List.not_mem_nil
  pending := .initially state

omit [Std.TransCmp stringComparator] in
theorem Invariant.acked_le
    (invariant : Invariant stringComparator named terms repo) :
    repo.exchange.connection.acked.length ≤ repo.exchange.issued.length := by
  obtain ⟨acknowledged, _, acked, _⟩ := invariant.exchange.acknowledged
  rw [acked, NumberedQueue.length_numbered, List.length_map]
  exact (List.take_sublist _ _).length_le

omit [Std.TransCmp stringComparator] in
theorem Invariant.tracked
    (invariant : Invariant stringComparator named terms repo) :
    Tracked repo.exchange.connection := by
  obtain ⟨_, _, _, _, _, consistent⟩ := invariant.exchange
  exact consistent.tracked

theorem Invariant.set (keys : Keys stringComparator named)
    (invariant : Invariant stringComparator named terms repo) {write : Write}
    (accepted : write.Accepted named) :
    ∃ later, repo.set stringComparator terms.service write write.node =
        some later ∧
      later.Invariant stringComparator named terms ∧
      repo.exchange.step terms.service (.putData write) = some later.exchange ∧
      later.answered = repo.answered := by
  obtain ⟨exchange, stepped, kept⟩ := invariant.exchange.putData write
  have issued : exchange.issued = repo.exchange.issued ++ [write] :=
    Exchange.issued_step stepped
  have acked : exchange.connection.acked = repo.exchange.connection.acked :=
    Exchange.acked_of_ne invariant.tracked stepped (by simp)
  have pending := invariant.pending
  obtain ⟨added, ran, valid, all⟩ := pending.valid.addOverwriteAtPath
    keys.apart keys.apartStrings
    (accepted.kept keys.apart repo.exchange.issued.length) rfl
  have size : (exchange.issued.length : Int) =
      repo.exchange.issued.length + 1 := by
    rw [issued, List.length_append]
    rfl
  refine ⟨{ repo with
    exchange := exchange
    pendingWriteTree := added
    writeIdCounter := repo.writeIdCounter + 1
    callbacks := repo.callbacks ++ [repo.writeIdCounter] },
    ?_, ⟨kept, ?_, ?_, ?_, ?_, ?_⟩, stepped, rfl⟩
  · have put : repo.pendingWriteTree.addOverwriteAtPath compareKey
        stringComparator write.path write.node repo.writeIdCounter true =
          some added := by
      rw [pending.counter]
      exact ran
    rw [FRepo.set, put, Option.bind_eq_bind, Option.bind_some, stepped]
    rfl
  · dsimp only
    rw [issued]
    intro other member
    rcases List.mem_append.mp member with early | last
    · exact invariant.accepted other early
    · rw [List.mem_singleton.mp last]
      exact accepted
  · dsimp only
    rw [size, pending.counter]
  · dsimp only
    rw [issued, List.length_append, List.length_singleton,
      List.range_succ, List.map_append, pending.callbacks, pending.counter]
    rfl
  · dsimp only
    rw [size]
    exact valid
  · dsimp only
    rw [issued, acked, records_append invariant.acked_le, all,
      pending.pending]

theorem Invariant.exchangeStep (keys : Keys stringComparator named)
    (realtime : terms.service.Realtime terms.accepts)
    (invariant : Invariant stringComparator named terms repo) {event : Event}
    (noWrite : event.write = none) :
    ∃ later, repo.exchangeStep stringComparator terms.service event =
        some later ∧
      later.Invariant stringComparator named terms ∧
      repo.exchange.step terms.service event = some later.exchange ∧
      later.answered = repo.answered := by
  obtain ⟨exchange, stepped, kept⟩ := invariant.exchange.step realtime event
  have issued : exchange.issued = repo.exchange.issued := by
    rw [Exchange.issued_step stepped, noWrite]
    exact List.append_nil _
  obtain ⟨after, upper, acked, _⟩ := kept.acknowledged
  have lower := (Exchange.acked_step invariant.tracked stepped).length_le
  -- the acknowledgements of this step, with their numbers
  have calls := congrArg
    (List.drop repo.exchange.connection.acked.length) acked
  rw [NumberedQueue.drop_numbered, Nat.zero_add] at calls
  have size : exchange.connection.acked.length = after := by
    rw [acked, NumberedQueue.length_numbered, List.length_map,
      List.length_take, Nat.min_eq_left upper]
  have pending : Pending stringComparator named exchange.issued
      repo.exchange.connection.acked.length
      { repo with exchange := exchange } := by
    have current := invariant.pending
    rw [← issued] at current
    exact ⟨current.counter, current.callbacks, current.valid,
      current.pending⟩
  obtain ⟨later, ran, done, sameExchange, answered⟩ :=
    pending.ackWrites keys
      (((exchange.issued.take after).map terms.accepts).drop
        repo.exchange.connection.acked.length) (by
        rw [List.length_drop, List.length_map, List.length_take]
        omega)
  have stop : repo.exchange.connection.acked.length +
      (((exchange.issued.take after).map terms.accepts).drop
        repo.exchange.connection.acked.length).length = after := by
    rw [List.length_drop, List.length_map, List.length_take]
    omega
  rw [stop, ← size] at done
  refine ⟨later, ?_, ⟨?_, ?_, ?_⟩, ?_, answered⟩
  · rw [FRepo.exchangeStep, stepped, Option.bind_eq_bind, Option.bind_some,
      calls]
    exact ran
  · rw [sameExchange]
    exact kept
  · rw [sameExchange]
    dsimp only
    rw [issued]
    exact invariant.accepted
  · rw [sameExchange]
    exact done
  · rw [sameExchange]
    exact stepped

omit [Std.TransCmp stringComparator] in
theorem Invariant.getData
    (invariant : Invariant stringComparator named terms repo) (path : Path) :
    ∃ later, repo.getData stringComparator terms.service path = some later ∧
      later.Invariant stringComparator named terms ∧
      match repo.getServerValue stringComparator path with
      | some node =>
          later.exchange = repo.exchange ∧
            later.answered = repo.answered ++
              [(path, repo.exchange.issued.length, node)]
      | none =>
          repo.exchange.step terms.service (.getData path) =
              some later.exchange ∧
            later.answered = repo.answered := by
  rw [FRepo.getData]
  cases repo.getServerValue stringComparator path with
  | some node =>
      have pending := invariant.pending
      exact ⟨_, rfl, ⟨invariant.exchange, invariant.accepted, pending.counter,
        pending.callbacks, pending.valid, pending.pending⟩, rfl, rfl⟩
  | none =>
      obtain ⟨exchange, stepped, kept⟩ := invariant.exchange.getData path
      have issued : exchange.issued = repo.exchange.issued := by
        rw [Exchange.issued_step stepped]
        exact List.append_nil _
      have acked : exchange.connection.acked =
          repo.exchange.connection.acked :=
        Exchange.acked_of_ne invariant.tracked stepped (by simp)
      have pending := invariant.pending
      rw [← issued, ← acked] at pending
      refine ⟨{ repo with exchange := exchange }, ?_, ⟨kept, ?_,
        pending.counter, pending.callbacks, pending.valid, pending.pending⟩,
        stepped, rfl⟩
      · dsimp only
        rw [stepped]
        rfl
      · dsimp only
        rw [issued]
        exact invariant.accepted

/-- The keys and values of the app, for the client. -/
structure Takes (foundation : Foundation FiniteDouble)
    (stringComparator : String → String → Ordering)
    (named : String → Prop) : Prop where
  keys : Keys stringComparator named
  finite : ∀ value, foundation.isNotANumber value = false

/-- `sent` has all the events but some of the reads. -/
structure Sends (events sent : List Event) : Prop where
  part : List.Sublist sent events
  others : (sent.filter fun event => event.read.isNone) =
    events.filter fun event => event.read.isNone

namespace Sends

theorem refl (events : List Event) : Sends events events where
  part := List.Sublist.refl events
  others := rfl

theorem unsent (path : Path) : Sends [.getData path] [] where
  part := List.nil_sublist _
  others := rfl

theorem append {first second sent others : List Event}
    (sends : Sends first sent) (rest : Sends second others) :
    Sends (first ++ second) (sent ++ others) where
  part := sends.part.append rest.part
  others := by
    rw [List.filter_append, List.filter_append, sends.others, rest.others]

theorem writes_filter (events : List Event) :
    writes (events.filter fun event => event.read.isNone) =
      writes events := by
  rw [writes, List.filterMap_filter]
  refine List.filterMap_congr fun event _ => ?_
  cases event <;> rfl

theorem writes_eq {events sent : List Event} (sends : Sends events sent) :
    writes sent = writes events := by
  rw [← writes_filter sent, sends.others, writes_filter]

end Sends

/-- One step does not fail.  The exchange makes the same step, unless a read
is answered at once. -/
theorem Invariant.step (takes : Takes foundation stringComparator named)
    (realtime : terms.service.Realtime terms.accepts)
    (invariant : Invariant stringComparator named terms repo) (event : Event)
    (accepted : ∀ write ∈ event.write, write.Accepted named) :
    ∃ later sent,
      repo.step foundation stringComparator terms.service event =
        some later ∧
      later.Invariant stringComparator named terms ∧
      Sends [event] sent ∧
      repo.exchange.run terms.service sent = some later.exchange ∧
      (reads sent).length + later.answered.length =
        repo.answered.length + (reads [event]).length := by
  have whole {later : FRepo State}
      (stepped : repo.exchange.step terms.service event =
        some later.exchange)
      (answered : later.answered = repo.answered) :
      Sends [event] [event] ∧
        repo.exchange.run terms.service [event] = some later.exchange ∧
        (reads [event]).length + later.answered.length =
          repo.answered.length + (reads [event]).length := by
    refine ⟨Sends.refl _, ?_, ?_⟩
    · rw [Exchange.run_singleton]
      exact stepped
    · rw [answered, Nat.add_comm]
  have others (noWrite : event.write = none)
      (same : repo.step foundation stringComparator terms.service event =
        repo.exchangeStep stringComparator terms.service event) :
      ∃ later sent,
        repo.step foundation stringComparator terms.service event =
          some later ∧
        later.Invariant stringComparator named terms ∧
        Sends [event] sent ∧
        repo.exchange.run terms.service sent = some later.exchange ∧
        (reads sent).length + later.answered.length =
          repo.answered.length + (reads [event]).length := by
    obtain ⟨later, ran, kept, stepped, answered⟩ :=
      invariant.exchangeStep takes.keys realtime noWrite
    exact ⟨later, [event], same.trans ran, kept, whole stepped answered⟩
  cases event with
  | putData write =>
      have taken := accepted write rfl
      obtain ⟨later, ran, kept, stepped, answered⟩ :=
        invariant.set takes.keys taken
      refine ⟨later, [.putData write], ?_, kept, whole stepped answered⟩
      rw [FRepo.step, taken.newNode takes.keys.valid takes.keys.apart
        takes.finite]
      exact ran
  | getData path =>
      obtain ⟨later, ran, kept, read⟩ := invariant.getData path
      cases known : repo.getServerValue stringComparator path with
      | some node =>
          rw [known] at read
          refine ⟨later, [], ran, kept, Sends.unsent path, ?_, ?_⟩
          · rw [read.1]
            rfl
          · rw [read.2, List.length_append]
            exact Nat.zero_add _
      | none =>
          rw [known] at read
          exact ⟨later, [.getData path], ran, kept, whole read.1 read.2⟩
  | timeout index => exact others rfl rfl
  | retry => exact others rfl rfl
  | tokenFetched token => exact others rfl rfl
  | onReady => exact others rfl rfl
  | serverHandles => exact others rfl rfl
  | onDataMessage => exact others rfl rfl
  | onDisconnect => exact others rfl rfl

theorem Invariant.run (takes : Takes foundation stringComparator named)
    (realtime : terms.service.Realtime terms.accepts)
    (invariant : Invariant stringComparator named terms repo)
    (events : List Event)
    (accepted : ∀ write ∈ writes events, write.Accepted named) :
    ∃ later sent,
      repo.run foundation stringComparator terms.service events =
        some later ∧
      later.Invariant stringComparator named terms ∧
      Sends events sent ∧
      repo.exchange.run terms.service sent = some later.exchange ∧
      (reads sent).length + later.answered.length =
        repo.answered.length + (reads events).length := by
  induction events generalizing repo with
  | nil =>
      exact ⟨repo, [], rfl, invariant, Sends.refl [], rfl, Nat.zero_add _⟩
  | cons event rest inductionHypothesis =>
      rw [writes_cons] at accepted
      obtain ⟨middle, sent, stepped, kept, sends, exchanged, count⟩ :=
        invariant.step takes realtime event fun write member =>
          accepted write (List.mem_append_left _
            (Option.mem_toList.mpr member))
      obtain ⟨later, others, ran, done, sendsRest, exchangedRest,
        countRest⟩ := inductionHypothesis kept fun write member =>
          accepted write (List.mem_append_right _ member)
      refine ⟨later, sent ++ others, ?_, done, sends.append sendsRest, ?_,
        ?_⟩
      · rw [run_cons, stepped]
        exact ran
      · rw [Exchange.run_append, exchanged]
        exact exchangedRest
      · have size : (reads (event :: rest)).length =
            (reads [event]).length + (reads rest).length := by
          rw [← List.length_append, ← reads_append]
          rfl
        rw [reads_append, List.length_append, size]
        omega

/-! ## Runs from the start -/

variable {service : Service State} {accepts : Write → Bool}

/-- A valid key that is not a zero with a sign. -/
def AppKey (name : String) : Prop :=
  isValidKey name = true ∧ FUtilities.PlainKey name

/-- What the system does with numbers that are never NaN. -/
def finiteFoundation : Foundation FiniteDouble where
  isNotANumber _ := false
  isBoolean _ := false
  className _ := "NSObject"
  decimalDigit := Char.isDigit
  scanInteger _ := none

theorem takes_appKey : Takes finiteFoundation compare AppKey where
  keys :=
    { valid := fun _ inside => inside.1
      apart := fun _ _ inside other =>
        FUtilities.eq_of_compareKey_eq inside.2 other.2
      apartStrings := fun _ _ _ _ same =>
        Std.LawfulEqCmp.eq_of_compare same }
  finite := fun _ => rfl

theorem appKey_of_valid {name : String} (valid : isValidKey name = true)
    (front : name.toList.head? ≠ some '-') : AppKey name :=
  ⟨valid, FUtilities.plainKey_of_head front⟩

theorem accepted_resent :
    ∀ write ∈ writes Exchange.resent, write.Accepted AppKey := by
  have keys : ∀ name ∈ ["users", "ann", "rules", "bob", "name"],
      AppKey name := by
    simp only [List.forall_mem_cons, List.not_mem_nil, false_implies,
      implies_true, and_true]
    refine ⟨?_, ?_, ?_, ?_, ?_⟩ <;>
      exact appKey_of_valid (by decide) (by decide)
  have fields {path : Path} (place : ∀ key ∈ path, AppKey key) :
      (Write.setValue path [("name", .string "Ann")]).Accepted AppKey := by
    refine .setValue place (by simp) ?_ (by simp) ?_
    · intro field member
      rw [List.mem_singleton.mp member]
      exact keys _ (by simp)
    · intro field member text same
      rw [List.mem_singleton.mp member] at same
      rw [← Value.string.inj same]
      decide
  have made : writes Exchange.resent =
      [.setValue ["users", "ann"] [("name", .string "Ann")],
        .setValue ["rules"] [("name", .string "Ann")],
        .removeValue ["users", "bob"]] :=
    rfl
  rw [made]
  simp only [List.forall_mem_cons, List.not_mem_nil, false_implies,
    implies_true, and_true]
  refine ⟨fields ?_, fields ?_, .removeValue ?_⟩
  · exact fun key member => keys key (by simp at member ⊢; tauto)
  · exact fun key member => keys key (by simp at member ⊢; tauto)
  · exact fun key member => keys key (by simp at member ⊢; tauto)

end FRepo

end Firebase
end PocketChef
