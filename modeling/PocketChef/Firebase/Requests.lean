import PocketChef.Firebase.Reads

/-!
# Requests and answers on a connection

What the open connection carries, read against the past of the exchange: the
writes and reads that the app has made.  The writes on a connection have
consecutive numbers, those that are answered first, and a read comes after the
writes that it must see.
-/

namespace PocketChef
namespace Firebase

/-! ## The past of an exchange -/

structure Past where
  stored : Database
  accepts : Write → Bool
  issued : List Write
  asked : List (Path × Nat)

namespace Past

/-- `data` is the answer to the read `index`: the writes up to some point,
and at least those that were made before the read. -/
def Fresh (past : Past) (index : Nat) (data : Option DataSnapshot) : Prop :=
  ∃ path count seen, past.asked[index]? = some (path, count) ∧
    count ≤ seen ∧ seen ≤ past.issued.length ∧
    data = some ⟨Write.applyAll past.stored
      ((past.issued.take seen).filter past.accepts), path⟩

structure Grows (past later : Past) : Prop where
  stored : later.stored = past.stored
  accepts : later.accepts = past.accepts
  issued : past.issued <+: later.issued
  asked : past.asked <+: later.asked

theorem grows_issue (past : Past) (write : Write) :
    past.Grows { past with issued := past.issued ++ [write] } :=
  ⟨rfl, rfl, List.prefix_append _ _, List.prefix_refl _⟩

theorem grows_ask (past : Past) (path : Path) :
    past.Grows
      { past with asked := past.asked ++ [(path, past.issued.length)] } :=
  ⟨rfl, rfl, List.prefix_refl _, List.prefix_append _ _⟩

theorem Grows.issued_at {past later : Past} (grows : Grows past later)
    {index : Nat} {write : Write}
    (found : past.issued[index]? = some write) :
    later.issued[index]? = some write := by
  rcases grows.issued with ⟨more, appended⟩
  have inRange := (List.getElem?_eq_some_iff.mp found).1
  rw [← appended, List.getElem?_append_left inRange]
  exact found

theorem Grows.asked_at {past later : Past} (grows : Grows past later)
    {index : Nat} {read : Path × Nat}
    (found : past.asked[index]? = some read) :
    later.asked[index]? = some read := by
  rcases grows.asked with ⟨more, appended⟩
  have inRange := (List.getElem?_eq_some_iff.mp found).1
  rw [← appended, List.getElem?_append_left inRange]
  exact found

theorem Fresh.grows {past later : Past} (grows : Grows past later)
    {index : Nat} {data : Option DataSnapshot}
    (fresh : past.Fresh index data) : later.Fresh index data := by
  rcases fresh with ⟨path, count, seen, found, lower, upper, rfl⟩
  rcases grows.issued with ⟨more, appended⟩
  refine ⟨path, count, seen, grows.asked_at found, lower, ?_, ?_⟩
  · exact Nat.le_trans upper grows.issued.length_le
  · rw [grows.stored, grows.accepts, ← appended,
      List.take_append_of_le_length upper]

end Past

/-! ## Requests on the connection -/

/-- The answers on the way, and the blocks that wait for them.  The writes
among them have the numbers `first, …, stop - 1`. -/
inductive Answered (past : Past) :
    Nat → Nat → List Response → List (Nat × OnMessage) → Prop
  | nothing {first} : Answered past first first [] []
  | put {first stop responses calls} (rn : Nat) (write : Write)
      (data : Option DataSnapshot)
      (found : past.issued[first]? = some write)
      (rest : Answered past (first + 1) stop responses calls) :
      Answered past first stop
        ({ rn := rn, ok := past.accepts write, data := data } :: responses)
        ((rn, .put first) :: calls)
  | get {first stop responses calls} (rn index : Nat) (ok : Bool)
      (data : Option DataSnapshot)
      (fresh : ok = true → past.Fresh index data)
      (rest : Answered past first stop responses calls) :
      Answered past first stop
        ({ rn := rn, ok := ok, data := data } :: responses)
        ((rn, .get index) :: calls)

/-- The requests that the server has not handled, and their blocks.  The
writes among them have the numbers `next, …, stop - 1`.  A read comes after
the writes that were made before it and after those that an earlier connection
has brought to the server, which are the writes before `high`. -/
inductive Waiting (past : Past) (high stop : Nat) :
    Nat → List Request → List (Nat × OnMessage) → Prop
  | nothing : Waiting past high stop stop [] []
  | put {next requests calls} (rn : Nat) (write : Write)
      (found : past.issued[next]? = some write)
      (rest : Waiting past high stop (next + 1) requests calls) :
      Waiting past high stop next
        ({ rn := rn, action := .put write } :: requests)
        ((rn, .put next) :: calls)
  | get {next requests calls} (rn index : Nat) (path : Path) (count : Nat)
      (caughtUp : high ≤ next)
      (found : past.asked[index]? = some (path, count))
      (later : count ≤ next)
      (rest : Waiting past high stop next requests calls) :
      Waiting past high stop next
        ({ rn := rn, action := .get path } :: requests)
        ((rn, .get index) :: calls)

namespace Answered

variable {past : Past} {first stop : Nat} {responses : List Response}
variable {calls : List (Nat × OnMessage)}

theorem first_le (answered : Answered past first stop responses calls) :
    first ≤ stop := by
  induction answered with
  | nothing => exact Nat.le_refl _
  | put _ _ _ _ _ inductionHypothesis =>
      exact Nat.le_of_succ_le inductionHypothesis
  | get _ _ _ _ _ _ inductionHypothesis => exact inductionHypothesis

theorem grows {later : Past} (grows : past.Grows later)
    (answered : Answered past first stop responses calls) :
    Answered later first stop responses calls := by
  induction answered with
  | nothing => exact Answered.nothing
  | put rn write data found _ inductionHypothesis =>
      rw [← grows.accepts]
      exact Answered.put rn write data (grows.issued_at found)
        inductionHypothesis
  | get rn index ok data fresh _ inductionHypothesis =>
      exact Answered.get rn index ok data
        (fun accepted => (fresh accepted).grows grows) inductionHypothesis

theorem append_put (answered : Answered past first stop responses calls)
    (rn : Nat) {write : Write} (data : Option DataSnapshot)
    (found : past.issued[stop]? = some write) :
    Answered past first (stop + 1)
      (responses ++ [{ rn := rn, ok := past.accepts write, data := data }])
      (calls ++ [(rn, .put stop)]) := by
  induction answered with
  | nothing => exact Answered.put rn write data found Answered.nothing
  | put number other node there _ inductionHypothesis =>
      exact Answered.put number other node there (inductionHypothesis found)
  | get number index ok node fresh _ inductionHypothesis =>
      exact Answered.get number index ok node fresh
        (inductionHypothesis found)

theorem append_get (answered : Answered past first stop responses calls)
    (rn : Nat) {index : Nat} {ok : Bool} {data : Option DataSnapshot}
    (fresh : ok = true → past.Fresh index data) :
    Answered past first stop
      (responses ++ [{ rn := rn, ok := ok, data := data }])
      (calls ++ [(rn, .get index)]) := by
  induction answered with
  | nothing => exact Answered.get rn index ok data fresh Answered.nothing
  | put number write node there _ inductionHypothesis =>
      exact Answered.put number write node there inductionHypothesis
  | get number other status node seen _ inductionHypothesis =>
      exact Answered.get number other status node seen inductionHypothesis

end Answered

namespace Waiting

variable {past : Past} {high stop next : Nat} {requests : List Request}
variable {calls : List (Nat × OnMessage)}

theorem next_le (waiting : Waiting past high stop next requests calls) :
    next ≤ stop := by
  induction waiting with
  | nothing => exact Nat.le_refl _
  | put _ _ _ _ inductionHypothesis =>
      exact Nat.le_of_succ_le inductionHypothesis
  | get _ _ _ _ _ _ _ _ inductionHypothesis => exact inductionHypothesis

theorem grows {later : Past} (grows : past.Grows later)
    (waiting : Waiting past high stop next requests calls) :
    Waiting later high stop next requests calls := by
  induction waiting with
  | nothing => exact Waiting.nothing
  | put rn write found _ inductionHypothesis =>
      exact Waiting.put rn write (grows.issued_at found) inductionHypothesis
  | get rn index path count caughtUp found later _ inductionHypothesis =>
      exact Waiting.get rn index path count caughtUp (grows.asked_at found)
        later inductionHypothesis

/-- The server has handled what comes before all of these requests. -/
theorem raise (waiting : Waiting past high stop next requests calls)
    {handled : Nat} (before : handled ≤ next) :
    Waiting past (max high handled) stop next requests calls := by
  induction waiting with
  | nothing => exact Waiting.nothing
  | put rn write found _ inductionHypothesis =>
      exact Waiting.put rn write found
        (inductionHypothesis (Nat.le_succ_of_le before))
  | get rn index path count caughtUp found later _ inductionHypothesis =>
      have bound := Nat.max_le.mpr ⟨caughtUp, before⟩
      exact Waiting.get rn index path count bound
        found later (inductionHypothesis before)

theorem append_put (waiting : Waiting past high stop next requests calls)
    (rn : Nat) {write : Write} (found : past.issued[stop]? = some write) :
    Waiting past high (stop + 1) next
      (requests ++ [{ rn := rn, action := .put write }])
      (calls ++ [(rn, .put stop)]) := by
  induction waiting with
  | nothing => exact Waiting.put rn write found Waiting.nothing
  | put number other there _ inductionHypothesis =>
      exact Waiting.put number other there inductionHypothesis
  | get number index path count caughtUp there later _ inductionHypothesis =>
      exact Waiting.get number index path count caughtUp there later
        inductionHypothesis

theorem append_get (waiting : Waiting past high stop next requests calls)
    (rn : Nat) {index count : Nat} {path : Path} (caughtUp : high ≤ stop)
    (found : past.asked[index]? = some (path, count))
    (later : count ≤ stop) :
    Waiting past high stop next
      (requests ++ [{ rn := rn, action := .get path }])
      (calls ++ [(rn, .get index)]) := by
  induction waiting with
  | nothing =>
      exact Waiting.get rn index path count caughtUp found later
        Waiting.nothing
  | put number other there _ inductionHypothesis =>
      exact Waiting.put number other there inductionHypothesis
  | get number other node count up there after _ inductionHypothesis =>
      exact Waiting.get number other node count up there after
        inductionHypothesis

end Waiting

end Firebase
end PocketChef
