import PocketChef.Firebase.PendingWrites

/-!
# Reads that are answered at once

What the client tells about a path without asking the server is what the
database has there when all the writes of the app have been applied.
-/

namespace PocketChef
namespace Firebase

open FCompoundWrite (part put)
open FUtilities (compareKey)
open PathStrip

/-- The leaves of the node are the values that the database has below the
path. -/
def Shows (named : String → Prop) (node : Node FiniteDouble)
    (database : Database) (path : Path) : Prop :=
  ∀ rest, (∀ key ∈ rest, named key) →
    node.leafAt compareKey rest =
      (KeyedTree.lookup database (path ++ rest)).map Value.object

variable {named : String → Prop} {database : Database} {path : Path}

variable {write : Write} {node : Node FiniteDouble}

/-- Below a write the database has what the write sets. -/
theorem shows_part (apart : Separates compareKey named)
    (accepted : write.Accepted named) {below : Path}
    (names : ∀ key ∈ below, named key) :
    Shows named (part compareKey write.node below) (write.apply database)
      (write.path ++ below) := by
  intro rest keys
  have inside : write.path <+: write.path ++ below ++ rest := by
    rw [List.append_assoc]
    exact List.prefix_append _ _
  have all : ∀ key ∈ below ++ rest, named key := by
    intro key member
    rcases List.mem_append.mp member with early | late
    · exact names key early
    · exact keys key late
  rw [part, ← FNode.leafAt_append, accepted.leafAt_node apart all,
    accepted.lookup_apply, if_pos inside, List.append_assoc, List.drop_left]

/-- Above a write the node changes like the database. -/
theorem shows_put (apart : Separates compareKey named)
    (accepted : write.Accepted named) {below : Path}
    (written : path ++ below = write.path)
    (wellFormed : FNode.WellFormed compareKey named node)
    (shows : Shows named node database path) :
    Shows named (put compareKey node below write.node)
      (write.apply database) path := by
  intro rest keys
  have belowNamed : ∀ key ∈ below, named key := by
    intro key member
    refine accepted.place key ?_
    rw [← written]
    exact List.mem_append_right path member
  rw [put, FNode.leafAt_updateChild wellFormed (accepted.wellFormed apart)
    belowNamed, accepted.lookup_apply, ← written]
  by_cases covers : below <+: rest
  · obtain ⟨further, rfl⟩ := covers
    have furtherNamed : ∀ key ∈ further, named key := fun key member =>
      keys key (List.mem_append_right below member)
    have onPath : path ++ below <+: path ++ (below ++ further) :=
      (List.prefix_append_right_inj path).mpr (List.prefix_append _ _)
    rw [strip_append, if_pos onPath, ← List.append_assoc, List.drop_left]
    exact accepted.leafAt_node apart furtherNamed
  · have offPath : ¬ path ++ below <+: path ++ rest := fun onPath =>
      covers ((List.prefix_append_right_inj path).mp onPath)
    have short : (strip compareKey rest below).isSome = true ↔
        path ++ rest <+: path ++ below := by
      rw [List.prefix_append_right_inj, ← not_iff_not,
        Option.not_isSome_iff_eq_none,
        strip_eq_none_iff apart keys belowNamed]
    rw [(strip_eq_none_iff apart belowNamed keys).mpr covers,
      if_neg offPath]
    simp only [short]
    split
    · rfl
    · exact shows rest keys

/-- A write on another path changes neither. -/
theorem shows_apart (accepted : write.Accepted named)
    (notAbove : ¬ write.path <+: path) (notBelow : ¬ path <+: write.path)
    (shows : Shows named node database path) :
    Shows named node (write.apply database) path := by
  intro rest keys
  have outside : ¬ write.path <+: path ++ rest := by
    intro covers
    rcases List.prefix_or_prefix_of_prefix covers
      (List.prefix_append path rest) with above | below
    · exact notAbove above
    · exact notBelow below
  have offPath : ¬ path ++ rest <+: write.path := fun covers =>
    notBelow ((List.prefix_append path rest).trans covers)
  rw [accepted.lookup_apply, if_neg outside, if_neg fun both =>
    offPath both.1]
  exact shows rest keys

/-- A write changes what is known about a path as it changes the
database. -/
theorem shows_after (apart : Separates compareKey named)
    (accepted : write.Accepted named) (names : ∀ key ∈ path, named key)
    {known : Option (Node FiniteDouble)}
    (before : ∀ node ∈ known, FNode.WellFormed compareKey named node ∧
      Shows named node database path) :
    ∀ node ∈ PendingOverwrites.after (part compareKey) (put compareKey) path
        known (write.path, write.node),
      FNode.WellFormed compareKey named node ∧
        Shows named node (write.apply database) path := by
  intro node told
  have wellFormed := accepted.wellFormed apart
  by_cases above : write.path <+: path
  · rw [PendingOverwrites.after_of_above above] at told
    obtain rfl := Option.some.inj told
    obtain ⟨below, rfl⟩ := above
    have belowNamed : ∀ key ∈ below, named key := fun key member =>
      names key (List.mem_append_right _ member)
    dsimp only
    rw [List.drop_left]
    exact ⟨wellFormed.getChild below,
      shows_part apart accepted belowNamed⟩
  · by_cases inside : path <+: write.path
    · rw [PendingOverwrites.after, if_neg above, if_pos inside] at told
      obtain ⟨old, found, rfl⟩ := Option.map_eq_some_iff.mp told
      obtain ⟨oldWellFormed, shows⟩ := before old found
      obtain ⟨below, written⟩ := inside
      have belowNamed : ∀ key ∈ below, named key := by
        intro key member
        refine accepted.place key ?_
        rw [← written]
        exact List.mem_append_right path member
      dsimp only
      rw [← written, List.drop_left]
      exact ⟨oldWellFormed.updateChild wellFormed belowNamed,
        shows_put apart accepted written oldWellFormed shows⟩
    · rw [PendingOverwrites.after_of_apart above inside] at told
      obtain ⟨wellFormed, shows⟩ := before node told
      exact ⟨wellFormed, shows_apart accepted above inside shows⟩

/-- What writes tell about a path shows the database after them. -/
theorem shows_complete (apart : Separates compareKey named)
    {writes : List Write} (accepted : ∀ write ∈ writes, write.Accepted named)
    (names : ∀ key ∈ path, named key) :
    ∀ node ∈ PendingOverwrites.complete (part compareKey) (put compareKey)
        (writes.map fun write => (write.path, write.node)) path,
      FNode.WellFormed compareKey named node ∧
        Shows named node (Write.applyAll database writes) path := by
  induction writes using List.reverseRecOn with
  | nil =>
      intro node told
      cases told
  | append_singleton earlier write inductionHypothesis =>
      have before := inductionHypothesis fun other member =>
        accepted other (List.mem_append_left _ member)
      rw [List.map_append, List.map_singleton,
        PendingOverwrites.complete_append_singleton, Write.applyAll_append]
      exact shows_after apart (accepted write (by simp)) names before

/-! ## Reads in a run -/

namespace FRepo

open Exchange (Terms)

variable {State : Type} {service : Service State} {accepts : Write → Bool}
variable {foundation : Foundation FiniteDouble}
variable {stringComparator : String → String → Ordering}
variable {terms : Terms State} {repo : FRepo State}
variable {issued : List Write} {acknowledged : Nat}

theorem map_pending_records (first : Nat) (issued : List Write) :
    (records first issued).map FWriteRecord.pending =
      (issued.drop first).map fun write => (write.path, write.node) := by
  rw [records, List.map_map]
  conv_rhs => rw [← NumberedQueue.map_snd_numbered first (issued.drop first)]
  rw [List.map_map]
  rfl

/-- The client knows what the pending writes tell. -/
theorem Pending.getServerValue
    (pending : Pending stringComparator named issued acknowledged repo)
    (names : ∀ key ∈ path, named key) :
    repo.getServerValue stringComparator path =
      PendingOverwrites.complete (part compareKey) (put compareKey)
        ((issued.drop acknowledged).map fun write =>
          (write.path, write.node)) path := by
  rw [FRepo.getServerValue,
    FWriteTree.calculateCompleteEventCacheAtPath_none,
    pending.valid.tells.complete path names, FWriteTree.told,
    pending.pending, map_pending_records]

/-- What the client knows about a path, if anything, shows any database after
the pending writes; it knows something about what is at or below the path of
a pending write. -/
theorem Invariant.getServerValue (keys : Keys stringComparator named)
    (invariant : Invariant stringComparator named terms repo)
    (names : ∀ key ∈ path, named key) :
    let pending := repo.exchange.issued.drop
      repo.exchange.connection.acked.length
    ((repo.getServerValue stringComparator path).isSome = true ↔
        ∃ write ∈ pending, write.path <+: path) ∧
      ∀ node ∈ repo.getServerValue stringComparator path, ∀ database,
        Shows named node (Write.applyAll database pending) path := by
  intro pending
  rw [invariant.pending.getServerValue names]
  constructor
  · rw [PendingOverwrites.complete_isSome_iff]
    simp only [List.mem_map, exists_exists_and_eq_and]
    rfl
  · intro node told database
    refine (shows_complete keys.apart ?_ names node told).2
    exact fun write member =>
      invariant.accepted write (List.mem_of_mem_drop member)

variable [Std.TransCmp stringComparator]

/-- After any run, a read at or below the path of a pending write is answered
at once, with what any database has there after the pending writes; the
connection is not asked.  Every other read goes to the connection. -/
theorem local_reads (takes : Takes foundation stringComparator named)
    (realtime : service.Realtime accepts) (state : State)
    (before : List Event)
    (accepted : ∀ write ∈ writes before, write.Accepted named)
    (path : Path) (names : ∀ key ∈ path, named key) :
    ∃ repo later,
      (start state).run foundation stringComparator service before =
        some repo ∧
      repo.step foundation stringComparator service (.getData path) =
        some later ∧
      let pending :=
        (writes before).drop repo.exchange.connection.acked.length
      ((∃ write ∈ pending, write.path <+: path) →
        ∃ node,
          later.answered =
            repo.answered ++ [(path, (writes before).length, node)] ∧
          later.exchange = repo.exchange ∧
          ∀ database,
            Shows named node (Write.applyAll database pending) path) ∧
      ((∀ write ∈ pending, ¬ write.path <+: path) →
        later.answered = repo.answered ∧
          repo.exchange.step service (.getData path) =
            some later.exchange) := by
  let terms : Terms State := ⟨service, accepts, service.contents state⟩
  have initially : Invariant stringComparator named terms (start state) :=
    Invariant.initially terms rfl
  obtain ⟨repo, sent, ran, invariant, sends, exchanged, _⟩ :=
    initially.run takes realtime before accepted
  obtain ⟨later, stepped, _, read⟩ := invariant.getData path
  obtain ⟨known, shows⟩ := invariant.getServerValue takes.keys names
  have issued : repo.exchange.issued = writes before :=
    (Exchange.issued_run exchanged).trans sends.writes_eq
  rw [issued] at known shows read
  refine ⟨repo, later, ran, stepped, ?_, ?_⟩
  · intro covered
    obtain ⟨node, found⟩ := Option.isSome_iff_exists.mp (known.mpr covered)
    rw [found] at read
    exact ⟨node, read.2, read.1, shows node found⟩
  · intro uncovered
    have unknown : repo.getServerValue stringComparator path = none := by
      rw [← Option.not_isSome_iff_eq_none, known]
      rintro ⟨write, member, covers⟩
      exact uncovered write member covers
    rw [unknown] at read
    exact ⟨read.2, read.1⟩

/-- Three writes are pending, and the connection is closed. -/
def offline : List Event :=
  Exchange.resent.take 8

theorem local_reads_offline :
    ∃ repo later,
      (start []).run finiteFoundation compare
        (Service.open Exchange.toUsers) offline = some repo ∧
      repo.step finiteFoundation compare (Service.open Exchange.toUsers)
        (.getData ["users", "ann"]) = some later ∧
      let pending :=
        (writes offline).drop repo.exchange.connection.acked.length
      ((∃ write ∈ pending, write.path <+: ["users", "ann"]) →
        ∃ node,
          later.answered = repo.answered ++
            [(["users", "ann"], (writes offline).length, node)] ∧
          later.exchange = repo.exchange ∧
          ∀ database, Shows AppKey node (Write.applyAll database pending)
            ["users", "ann"]) ∧
      ((∀ write ∈ pending, ¬ write.path <+: ["users", "ann"]) →
        later.answered = repo.answered ∧
          repo.exchange.step (Service.open Exchange.toUsers)
            (.getData ["users", "ann"]) = some later.exchange) := by
  refine local_reads takes_appKey (Service.open_realtime Exchange.toUsers) []
    offline accepted_resent ["users", "ann"] ?_
  have place := accepted_resent
    (.setValue ["users", "ann"] [("name", .string "Ann")])
    List.mem_cons_self
  exact place.place

/-- A read at or below the path of the last write of the app is answered at
once with what that write has set, whatever the state of the connection. -/
theorem own_write_read (takes : Takes foundation stringComparator named)
    (realtime : service.Realtime accepts) (state : State)
    (before : List Event) (write : Write)
    (accepted : ∀ other ∈ writes before ++ [write], other.Accepted named)
    (below : Path) (names : ∀ key ∈ below, named key) :
    ∃ repo later node,
      (start state).run foundation stringComparator service
        (before ++ [.putData write]) = some repo ∧
      repo.step foundation stringComparator service
        (.getData (write.path ++ below)) = some later ∧
      later.answered = repo.answered ++
        [(write.path ++ below, (writes before).length + 1, node)] ∧
      later.exchange = repo.exchange ∧
      ∀ rest, (∀ key ∈ rest, named key) →
        node.leafAt compareKey rest =
          (write.leaf (below ++ rest)).map Value.object := by
  let terms : Terms State := ⟨service, accepts, service.contents state⟩
  have initially : Invariant stringComparator named terms (start state) :=
    Invariant.initially terms rfl
  have taken : write.Accepted named := accepted write (by simp)
  obtain ⟨middle, sent, ran, invariant, sends, exchanged, _⟩ :=
    initially.run takes realtime before fun other member =>
      accepted other (List.mem_append_left _ member)
  obtain ⟨repo, put, kept, stepped, _⟩ := invariant.set takes.keys taken
  have putStep : middle.step foundation stringComparator service
      (.putData write) = some repo := by
    rw [FRepo.step, taken.newNode takes.keys.valid takes.keys.apart
      takes.finite]
    exact put
  have all : ∀ key ∈ write.path ++ below, named key := by
    intro key member
    rcases List.mem_append.mp member with early | late
    · exact taken.place key early
    · exact names key late
  -- the write is the last of those that are pending
  have acked : repo.exchange.connection.acked =
      middle.exchange.connection.acked :=
    Exchange.acked_of_ne invariant.tracked stepped (by simp)
  have issued : repo.exchange.issued = writes before ++ [write] := by
    rw [Exchange.issued_step stepped, Exchange.issued_run exchanged,
      sends.writes_eq]
    rfl
  have early : repo.exchange.connection.acked.length ≤
      (writes before).length := by
    have lower := invariant.acked_le
    rw [← acked, Exchange.issued_run exchanged, sends.writes_eq] at lower
    exact lower
  obtain ⟨known, shows⟩ := kept.getServerValue takes.keys all
  rw [issued, List.drop_append_of_le_length early] at known shows
  obtain ⟨node, found⟩ := Option.isSome_iff_exists.mp
    (known.mpr ⟨write, by simp, List.prefix_append _ _⟩)
  obtain ⟨later, read, _, answer⟩ := kept.getData (write.path ++ below)
  rw [found, issued, List.length_append] at answer
  refine ⟨repo, later, node, ?_, read, answer.2, answer.1, ?_⟩
  · rw [run_append, ran, Option.bind_eq_bind, Option.bind_some, run_cons,
      putStep]
    rfl
  · intro rest keys
    rw [shows node found [] rest keys, Write.applyAll_append]
    change (KeyedTree.lookup (write.apply _) _).map _ = _
    rw [taken.lookup_apply, List.append_assoc,
      if_pos (List.prefix_append _ _), List.drop_left]

theorem own_write_read_rules :
    ∃ repo later node,
      (start []).run finiteFoundation compare
        (Service.open Exchange.toUsers)
        (Exchange.resent.take 6 ++
          [.putData (.setValue ["rules"] [("name", .string "Ann")])]) =
        some repo ∧
      repo.step finiteFoundation compare (Service.open Exchange.toUsers)
        (.getData ["rules", "name"]) = some later ∧
      later.answered = repo.answered ++ [(["rules", "name"], 2, node)] ∧
      later.exchange = repo.exchange ∧
      node.leafAt compareKey [] = some (.string "Ann") := by
  have accepted : ∀ other ∈ writes (Exchange.resent.take 6) ++
      [.setValue ["rules"] [("name", .string "Ann")]],
      other.Accepted AppKey := by
    intro other member
    have split : writes Exchange.resent =
        (writes (Exchange.resent.take 6) ++
          [.setValue ["rules"] [("name", .string "Ann")]]) ++
            [.removeValue ["users", "bob"]] :=
      rfl
    refine accepted_resent other ?_
    rw [split]
    exact List.mem_append_left _ member
  have name : AppKey "name" :=
    appKey_of_valid (by decide) (by decide)
  obtain ⟨repo, later, node, ran, read, answered, same, leaves⟩ :=
    own_write_read takes_appKey (Service.open_realtime Exchange.toUsers) []
      (Exchange.resent.take 6)
      (.setValue ["rules"] [("name", .string "Ann")]) accepted ["name"]
      fun key member => List.mem_singleton.mp member ▸ name
  exact ⟨repo, later, node, ran, read, answered, same,
    leaves [] fun _ member => absurd member List.not_mem_nil⟩

end FRepo

end Firebase
end PocketChef
