import Lifecycle.Fault

/-!
# The registry of controller loops

Every controller runs a loop under its name. A name is held by at most one loop,
and it stays held when its loop ends by itself; only an abort or a shutdown frees
it. Once a shutdown has begun no further loop is started.

The loops themselves move only when they are given a turn. A shutdown is a
process of its own, because it waits for the loops: it takes the names that were
held when it began, one after another, and waits for the loop of each. Several
shutdowns may be under way at once.
-/

namespace Lifecycle

/-- What a loop does when it is left alone. -/
inductive LoopBody where
  | forever
  /-- Runs for a number of milliseconds and ends. -/
  | lasts (millis : Nat)
  | panics
  /-- Waits for the registry to be closed and ends. -/
  | untilClosed
  deriving DecidableEq

/-- How a loop came to its end. -/
inductive Ending where
  | exited
  | panicked
  | stopped
  | aborted
  deriving DecidableEq

inductive LoopState where
  /-- Started, but without a turn so far. -/
  | fresh
  | running (since : Nat)
  /-- Told to end; it has no further turn. -/
  | condemned
  | ended (how : Ending)
  deriving DecidableEq

structure Loop where
  name : String
  body : LoopBody
  state : LoopState
  deriving DecidableEq

inductive LoopNotice where
  | registered (name : String)
  | aborted (name : String)
  | exited (name : String)
  | stopped (name : String)
  /-- A shutdown met a loop that had panicked. -/
  | failed (name : String)
  | closed
  deriving DecidableEq

namespace Loop

def isEnded (l : Loop) : Bool :=
  match l.state with
  | .ended _ => true
  | _ => false

/-- The end of a loop that runs since an instant, if it has come. -/
def finish (l : Loop) (since now : Nat) : Loop × Option LoopNotice :=
  match l.body with
  | .forever | .untilClosed => ({ l with state := .running since }, none)
  | .panics => ({ l with state := .ended .panicked }, none)
  | .lasts d =>
    if since + d ≤ now then ({ l with state := .ended .exited }, some (.exited l.name))
    else ({ l with state := .running since }, none)

def turn (closed : Bool) (now : Nat) (l : Loop) : Loop × Option LoopNotice :=
  let stop : Loop × Option LoopNotice :=
    ({ l with state := .ended .stopped }, some (.stopped l.name))
  match l.state with
  | .fresh => if closed then stop else l.finish now now
  | .running since => if closed then stop else l.finish since now
  | .condemned => ({ l with state := .ended .aborted }, none)
  | .ended _ => (l, none)

/-- The instant at which a running loop ends by itself. -/
def wake? (l : Loop) : Option Nat :=
  match l.state, l.body with
  | .running since, .lasts d => some (since + d)
  | _, _ => none

end Loop

/-- The loops that were ever started, and the names that are held. -/
structure Registry where
  closed : Bool
  /-- The held names, each with the index of its loop. -/
  held : List (String × Nat)
  /-- Every loop that was started, in order. -/
  loops : List Loop
  deriving DecidableEq

namespace Registry

def empty : Registry := ⟨false, [], []⟩

def isRegistered (r : Registry) (name : String) : Bool := r.held.any fun p => p.1 = name

def registered (r : Registry) : List String :=
  (r.held.map (·.1)).mergeSort fun a b => a ≤ b

/-- Starts a loop under a name, unless the registry is closed or the name is held. -/
def spawn (r : Registry) (name : String) (body : LoopBody) : Except Fault Registry :=
  if r.closed then .error (.registration name "controller runtime is shut down")
  else if r.isRegistered name then
    .error (.registration name "a controller with this name is already registered")
  else
    .ok { r with
      held := r.held ++ [(name, r.loops.length)],
      loops := r.loops ++ [⟨name, body, .fresh⟩] }

/-- Condemns a loop, if it has not ended already. -/
def condemn (loops : List Loop) (i : Nat) : List Loop :=
  loops.modify i fun l => if l.isEnded then l else { l with state := .condemned }

/-- Frees a name and ends its loop; nothing if the name is not held. -/
def abort? (r : Registry) (name : String) : Option Registry :=
  (r.held.lookup name).map fun i =>
    { r with held := r.held.filter (·.1 ≠ name), loops := condemn r.loops i }

/-- One turn of every loop, in the order in which they were started. -/
def turn (r : Registry) (now : Nat) : Registry × List LoopNotice :=
  let turns := r.loops.map (Loop.turn r.closed now)
  ({ r with loops := turns.map (·.1) }, turns.filterMap (·.2))

def wakes (r : Registry) : List Nat := r.loops.filterMap Loop.wake?

/-! ## Names after a change -/

theorem isRegistered_iff {r : Registry} {name : String} :
    r.isRegistered name ↔ name ∈ r.held.map (·.1) := by
  simp [isRegistered, List.any_eq_true]

theorem mem_registered {r : Registry} {name : String} :
    name ∈ r.registered ↔ r.isRegistered name := by
  rw [registered, List.mem_mergeSort, isRegistered_iff]

/-- A loop is started exactly when the registry is open and its name is free. -/
theorem spawn_isOk_iff {r : Registry} {name : String} {body : LoopBody} :
    (∃ r', r.spawn name body = .ok r') ↔ ¬ r.closed ∧ ¬ r.isRegistered name := by
  unfold spawn
  split
  · simp_all
  · split <;> simp_all

theorem isRegistered_of_spawn {r r' : Registry} {name : String} {body : LoopBody}
    (h : r.spawn name body = .ok r') (other : String) :
    r'.isRegistered other ↔ other = name ∨ r.isRegistered other := by
  unfold spawn at h
  split at h
  · cases h
  · split at h
    · cases h
    · cases h
      simp [isRegistered, or_comm, @eq_comm _ other]

/-- An abort succeeds exactly when the name is held. -/
theorem abort?_isSome_iff {r : Registry} {name : String} :
    (r.abort? name).isSome ↔ r.isRegistered name := by
  rw [abort?, Option.isSome_map, isRegistered]
  generalize r.held = held
  induction held with
  | nil => simp
  | cons p ps ih =>
    obtain ⟨n, i⟩ := p
    by_cases hn : name = n
    · subst hn
      simp
    · rw [List.lookup_cons, List.any_cons, beq_eq_false_iff_ne.2 hn, ih]
      simp [Ne.symm hn]

/-- An abort frees its name and no other. -/
theorem isRegistered_of_abort? {r r' : Registry} {name : String} (h : r.abort? name = some r')
    (other : String) : r'.isRegistered other ↔ other ≠ name ∧ r.isRegistered other := by
  obtain ⟨i, -, rfl⟩ := Option.map_eq_some_iff.1 h
  simp only [isRegistered, List.any_eq_true, List.mem_filter, decide_eq_true_eq]
  constructor
  · rintro ⟨p, ⟨hp, hne⟩, rfl⟩
    exact ⟨hne, p, hp, rfl⟩
  · rintro ⟨hne, p, hp, rfl⟩
    exact ⟨p, ⟨hp, hne⟩, rfl⟩

/-! ## Shutdown -/

structure Shutdown where
  /-- The names that are still to be taken. -/
  pending : List String
  /-- The loop that is waited for, with its name. -/
  joining : Option (String × Nat)
  deriving DecidableEq

/-- Closes the registry and lists the names to be taken. -/
def beginShutdown (r : Registry) : Registry × Shutdown :=
  ({ r with closed := true }, ⟨r.held.map (·.1), none⟩)

/-- How a wait for a loop stands: nothing while it runs, else what is reported. -/
def joined? (r : Registry) (name : String) (i : Nat) : Option (List LoopNotice) :=
  match r.loops[i]? with
  | none => some []
  | some l =>
    match l.state with
    | .ended .panicked => some [.failed name]
    | .ended _ => some []
    | _ => none

/--
Takes names until a loop has to be waited for. What is left to do is nothing when all loops have
been waited for.
-/
def takeNames (r : Registry) : List String → Registry × Option Shutdown × List LoopNotice
  | [] => (r, none, [.closed])
  | name :: rest =>
    match r.held.lookup name with
    | none => takeNames r rest
    | some i =>
      let freed := { r with held := r.held.filter (·.1 ≠ name) }
      match freed.joined? name i with
      | none => (freed, some ⟨rest, some (name, i)⟩, [])
      | some notices =>
        let (r, s, more) := takeNames freed rest
        (r, s, notices ++ more)

def Shutdown.turn (s : Shutdown) (r : Registry) : Registry × Option Shutdown × List LoopNotice :=
  match s.joining with
  | none => r.takeNames s.pending
  | some (name, i) =>
    match r.joined? name i with
    | none => (r, some s, [])
    | some notices =>
      let (r, s, more) := r.takeNames s.pending
      (r, s, notices ++ more)

/--
A shutdown that nothing else interrupts: it takes what it can, gives all loops a turn, in which
they stop, and takes the rest.
-/
def shutdown (r : Registry) (now : Nat) : Registry × List LoopNotice :=
  let (r, s) := r.beginShutdown
  let (r, s, first) := s.turn r
  match s with
  | none => (r, first)
  | some s =>
    let (r, stops) := r.turn now
    let (r, _, last) := s.turn r
    (r, first ++ stops ++ last)

end Registry

end Lifecycle
