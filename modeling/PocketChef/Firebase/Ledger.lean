import PocketChef.Firebase.Requests

/-!
# The writes and reads that the client keeps

An outstanding write leaves the client when it is acknowledged, and an
outstanding read when it is completed.  Disconnects do not touch either.
-/

namespace PocketChef
namespace Firebase

open NumberedQueue

/-! ## What the client keeps -/

/-- The writes before `acknowledged` are acknowledged, each with whether it
was accepted, and the others outstanding; a read that succeeded has seen the
writes before it. -/
structure Recorded (past : Past) (acknowledged : Nat)
    (connection : FPersistentConnection) : Prop where
  acked : connection.acked =
    numbered 0 ((past.issued.take acknowledged).map past.accepts)
  acknowledged_le : acknowledged ≤ past.issued.length
  putCounter : connection.putCounter = past.issued.length
  puts : connection.outstandingPuts =
    numbered acknowledged (past.issued.drop acknowledged)
  getCounter : connection.getCounter = past.asked.length
  gets : ∀ entry ∈ connection.outstandingGets,
    ∃ count, past.asked[entry.1]? = some (entry.2.path, count)
  counts : ∀ read ∈ past.asked, read.2 ≤ past.issued.length
  results : ∀ index data, (index, .ok data) ∈ connection.results →
    past.Fresh index data

/-- The first block is the one for the first response. -/
theorem Tracked.onDataMessage {connection : FPersistentConnection}
    (tracked : Tracked connection) (response : Response) {block : OnMessage}
    {rest : List (Nat × OnMessage)}
    (calls : connection.requestCBHash = (response.rn, block) :: rest) :
    connection.onDataMessage response =
      FPersistentConnection.callback
        { connection with requestCBHash := rest } response block := by
  have increasing := tracked.calls
  rw [calls] at increasing
  rw [FPersistentConnection.onDataMessage, calls, List.lookup_cons_self,
    filter_head increasing]

namespace Recorded

variable {past : Past} {acknowledged : Nat}
variable {connection : FPersistentConnection}

theorem lookup_put (recorded : Recorded past acknowledged connection)
    {index : Nat} (outstanding : acknowledged ≤ index) :
    connection.outstandingPuts.lookup index = past.issued[index]? := by
  have found := lookup_numbered acknowledged
    (past.issued.drop acknowledged) (index - acknowledged)
  rw [List.getElem?_drop, Nat.add_sub_cancel' outstanding] at found
  rw [recorded.puts, found]

theorem sendAction (recorded : Recorded past acknowledged connection)
    (action : Action) (block : OnMessage) :
    Recorded past acknowledged (connection.sendAction action block) :=
  { recorded with }

/-- A write is issued. -/
theorem issue (recorded : Recorded past acknowledged connection)
    (write : Write) :
    Recorded { past with issued := past.issued ++ [write] } acknowledged
      (connection.keep write) where
  acked := by
    rw [List.take_append_of_le_length recorded.acknowledged_le]
    exact recorded.acked
  acknowledged_le := by
    rw [List.length_append]
    exact Nat.le_add_right_of_le recorded.acknowledged_le
  putCounter := by
    rw [List.length_append, ← recorded.putCounter]
    rfl
  puts := by
    have upper := recorded.acknowledged_le
    rw [FPersistentConnection.keep, List.drop_append_of_le_length upper,
      numbered_append, List.length_drop, Nat.add_sub_cancel' upper,
      recorded.puts, recorded.putCounter]
  getCounter := recorded.getCounter
  gets := recorded.gets
  counts := by
    intro read member
    rw [List.length_append]
    exact Nat.le_add_right_of_le (recorded.counts read member)
  results := by
    intro index data member
    exact (recorded.results index data member).grows (past.grows_issue write)

theorem outstanding_lt (recorded : Recorded past acknowledged connection)
    {entry : Nat × FOutstandingGet}
    (member : entry ∈ connection.outstandingGets) :
    entry.1 < past.asked.length := by
  rcases recorded.gets entry member with ⟨count, found⟩
  exact (List.getElem?_eq_some_iff.mp found).1

/-- A read is made. -/
theorem ask (recorded : Recorded past acknowledged connection)
    (path : Path) :
    Recorded
      { past with asked := past.asked ++ [(path, past.issued.length)] }
      acknowledged (connection.ask path) where
  acked := recorded.acked
  acknowledged_le := recorded.acknowledged_le
  putCounter := recorded.putCounter
  puts := recorded.puts
  getCounter := by
    rw [List.length_append, ← recorded.getCounter]
    rfl
  gets := by
    intro entry member
    rcases List.mem_append.mp member with earlier | last
    · rcases recorded.gets entry earlier with ⟨count, found⟩
      refine ⟨count, ?_⟩
      rw [List.getElem?_append_left (recorded.outstanding_lt earlier)]
      exact found
    · rw [List.mem_singleton.mp last, recorded.getCounter]
      exact ⟨past.issued.length, List.getElem?_concat_length⟩
  counts := by
    intro read member
    rcases List.mem_append.mp member with earlier | last
    · exact recorded.counts read earlier
    · rw [List.mem_singleton.mp last]
  results := by
    intro index data member
    exact (recorded.results index data member).grows (past.grows_ask path)

/-- The first outstanding write is acknowledged. -/
theorem putCompleted (recorded : Recorded past acknowledged connection)
    {write : Write} (found : past.issued[acknowledged]? = some write) :
    Recorded past (acknowledged + 1)
      (connection.putCompleted acknowledged (past.accepts write)) := by
  obtain ⟨inRange, here⟩ := List.getElem?_eq_some_iff.mp found
  have outstanding :
      (connection.outstandingPuts.lookup acknowledged).isSome := by
    rw [recorded.lookup_put (Nat.le_refl _), found]
    rfl
  have head : connection.outstandingPuts =
      (acknowledged, past.issued[acknowledged]) ::
        numbered (acknowledged + 1)
          (past.issued.drop (acknowledged + 1)) := by
    rw [recorded.puts, List.drop_eq_getElem_cons inRange, numbered]
  have increasing := increasing_numbered acknowledged
    (past.issued.drop acknowledged)
  rw [← recorded.puts, head] at increasing
  rw [FPersistentConnection.putCompleted, if_pos outstanding]
  refine { recorded with acked := ?_, acknowledged_le := inRange
                         puts := ?_ }
  · have size : ((past.issued.take acknowledged).map past.accepts).length =
        acknowledged := by
      rw [List.length_map, List.length_take_of_le (Nat.le_of_lt inRange)]
    change connection.acked ++ [_] = _
    rw [recorded.acked, List.take_add_one, found, List.map_append]
    change _ = numbered 0 (_ ++ [past.accepts write])
    rw [numbered_append, size, Nat.zero_add]
  · change connection.outstandingPuts.filter _ = _
    rw [head]
    exact filter_head increasing

/-- An outstanding read is completed. -/
theorem finish (recorded : Recorded past acknowledged connection)
    {index : Nat} (result : GetResult)
    (fresh : ∀ data, result = .ok data → past.Fresh index data) :
    Recorded past acknowledged (connection.finish index result) :=
  { recorded with
    gets := fun entry member =>
      recorded.gets entry (List.mem_filter.mp member).1
    results := by
      intro other data member
      rcases List.mem_append.mp member with earlier | last
      · exact recorded.results other data earlier
      · have same := List.mem_singleton.mp last
        rw [(Prod.mk.inj same).1]
        exact fresh data (Prod.mk.inj same).2.symm }

/-- An outstanding read is sent. -/
theorem setSent (recorded : Recorded past acknowledged connection)
    (index : Nat) :
    Recorded past acknowledged
      { connection with
        outstandingGets :=
          FPersistentConnection.setSent connection.outstandingGets index } := by
  refine { recorded with gets := ?_ }
  intro entry member
  rcases List.mem_map.mp member with ⟨before, earlier, rfl⟩
  split
  · exact recorded.gets before earlier
  · exact recorded.gets before earlier

end Recorded

/-! ## Completion blocks -/

/-- What a completion block does not touch. -/
structure Quiet (before after : FPersistentConnection) : Prop where
  state : after.connectionState = before.connectionState
  realtime : after.realtime = before.realtime
  requestNumber : after.requestNumber = before.requestNumber
  calls : after.requestCBHash = before.requestCBHash
  gets : after.outstandingGets ⊆ before.outstandingGets

namespace Quiet

variable (connection : FPersistentConnection)

theorem getTimedOut (index : Nat) :
    Quiet connection (connection.getTimedOut index) := by
  rw [FPersistentConnection.getTimedOut]
  cases connection.outstandingGets.lookup index with
  | none =>
      exact ⟨rfl, rfl, rfl, rfl, List.Subset.refl _⟩
  | some get =>
      by_cases sent : get.sent = true
      · simp only [sent, if_true]
        exact ⟨rfl, rfl, rfl, rfl, List.Subset.refl _⟩
      · simp only [sent, Bool.false_eq_true, if_false]
        exact ⟨rfl, rfl, rfl, rfl, List.filter_subset_self _⟩

theorem putCompleted (index : Nat) (ok : Bool) :
    Quiet connection (connection.putCompleted index ok) := by
  rw [FPersistentConnection.putCompleted]
  split
  · exact ⟨rfl, rfl, rfl, rfl, List.Subset.refl _⟩
  · exact ⟨rfl, rfl, rfl, rfl, List.Subset.refl _⟩

theorem getCompleted (index : Nat) (ok : Bool)
    (data : Option DataSnapshot) :
    Quiet connection (connection.getCompleted index ok data) := by
  rw [FPersistentConnection.getCompleted]
  split
  · exact ⟨rfl, rfl, rfl, rfl, List.filter_subset_self _⟩
  · exact ⟨rfl, rfl, rfl, rfl, List.Subset.refl _⟩

end Quiet

namespace Recorded

variable {past : Past} {acknowledged : Nat}
variable {connection : FPersistentConnection}

theorem getTimedOut (recorded : Recorded past acknowledged connection)
    (index : Nat) :
    Recorded past acknowledged (connection.getTimedOut index) := by
  rw [FPersistentConnection.getTimedOut]
  cases found : connection.outstandingGets.lookup index with
  | none =>
      exact { recorded with }
  | some get =>
      cases sent : get.sent with
      | true =>
          simp only [sent, if_true]
          exact { recorded with }
      | false =>
          simp only [sent, Bool.false_eq_true, if_false]
          have finished : Recorded past acknowledged
              (connection.finish index .failed) :=
            recorded.finish _ fun _ other => by cases other
          exact { finished with }

theorem getCompleted (recorded : Recorded past acknowledged connection)
    {index : Nat} {ok : Bool} {data : Option DataSnapshot}
    (fresh : ok = true → past.Fresh index data) :
    Recorded past acknowledged (connection.getCompleted index ok data) := by
  rw [FPersistentConnection.getCompleted]
  split
  · refine recorded.finish _ ?_
    intro other same
    cases ok with
    | true =>
        rw [← GetResult.ok.inj same]
        exact fresh rfl
    | false => cases same
  · exact recorded

end Recorded

end Firebase
end PocketChef
