import Lifecycle.Proofs.Loops

/-!
# For how long a name is held

Seen from outside the registry is a table of names with a flag. A name is entered when a
loop is started under it and struck out when it is aborted or when a shutdown takes it,
and once the flag is up nothing is entered any more. That loops end by themselves does
not show in the table.

A shutdown makes this less plain than it sounds, because it works from a list of names
that it made when it began, and between two names it waits. Meanwhile names on its list
are aborted, other shutdowns begin, take names and return, and the caller may lose his
patience and drop it. `Session` has any number of them next to the registry, moves one
party at a time, and writes down what was done. The order in which a shutdown takes its
names is left open: it is that of a rank which the operation brings along.

What carries the argument is that whatever is still held is on the list of every shutdown
that is under way. So a shutdown that has come to the end of its list leaves an empty
table, and with the flag up it stays empty.
-/

namespace Lifecycle.Registry

/-! ## Operations and what they did -/

/-- What becomes of a shutdown. -/
inductive Course where
  | underWay (s : Shutdown)
  | returned
  /-- Its caller has dropped it, wherever it was. -/
  | dropped (s : Shutdown)
  deriving DecidableEq

/-- One step of one of those who share a registry. -/
inductive Operation where
  | spawn (name : String) (body : LoopBody)
  | abort (name : String)
  /-- A shutdown begins; it will take the names in ascending order of a rank. -/
  | beginShutdown (rank : String → Nat)
  /-- A shutdown, known by its number, goes on to its next wait or to its end. -/
  | turnShutdown (k : Nat)
  | dropShutdown (k : Nat)
  /-- One loop has a turn at an instant. -/
  | turnLoop (i now : Nat)

/-- What was done to the table of names. -/
inductive Deed where
  | started (name : String) (body : LoopBody)
  | aborted (name : String)
  | taken (name : String)
  | closed
  deriving DecidableEq

namespace Deed

def start? : Deed → Option (String × LoopBody)
  | started name body => some (name, body)
  | _ => none

/-- The name that a deed strikes out. -/
def freed? : Deed → Option String
  | aborted name | taken name => some name
  | _ => none

end Deed

/-- One loop has a turn. -/
def turnLoop (r : Registry) (i now : Nat) : Registry :=
  { r with loops := r.loops.modify i fun l => (l.turn r.closed now).1 }

/-- The names of its list that a shutdown has gone through in a turn. -/
def Shutdown.passed (s : Shutdown) (rest : Option Shutdown) : List String :=
  s.pending.take (s.pending.length - (rest.elim [] Shutdown.pending).length)

/-- A registry in use: its shutdowns in the order in which they began, and all that was done
to its names so far. -/
structure Session where
  registry : Registry
  shutdowns : List Course
  past : List Deed

namespace Session

def new : Session := ⟨.empty, [], []⟩

def step (s : Session) : Operation → Session
  | .spawn name body =>
    match s.registry.spawn name body with
    | .error _ => s
    | .ok registry => { s with registry, past := s.past ++ [.started name body] }
  | .abort name =>
    match s.registry.abort? name with
    | none => s
    | some registry => { s with registry, past := s.past ++ [.aborted name] }
  | .beginShutdown rank =>
    let (registry, first) := s.registry.beginShutdown
    let pending := first.pending.mergeSort fun a b => rank a ≤ rank b
    ⟨registry, s.shutdowns ++ [.underWay { first with pending }], s.past ++ [.closed]⟩
  | .turnShutdown k =>
    match s.shutdowns[k]? with
    | some (.underWay sd) =>
      let (registry, rest, _) := sd.turn s.registry
      let taken := (sd.passed rest).filter s.registry.isRegistered
      ⟨registry, s.shutdowns.set k (rest.elim .returned .underWay), s.past ++ taken.map .taken⟩
    | _ => s
  | .dropShutdown k =>
    match s.shutdowns[k]? with
    | some (.underWay sd) => { s with shutdowns := s.shutdowns.set k (.dropped sd) }
    | _ => s
  | .turnLoop i now => { s with registry := s.registry.turnLoop i now }

def run (s : Session) (ops : List Operation) : Session := ops.foldl step s

/-- The session of a registry that some operations have been made on. -/
def after (ops : List Operation) : Session := new.run ops

end Session

/-- A name was entered, and it has not been struck out since. -/
def HeldSince (past : List Deed) (name : String) : Prop :=
  ∃ earlier body later, past = earlier ++ .started name body :: later ∧
    ∀ d ∈ later, d.freed? ≠ some name

/-- A registry in use is a table of names with a flag. -/
structure Session.IsNameTable (s : Session) : Prop where
  held : ∀ name, s.registry.isRegistered name ↔ HeldSince s.past name
  registered : s.registry.registered.Pairwise (· < ·) ∧
    ∀ name, name ∈ s.registry.registered ↔ s.registry.isRegistered name
  spawns : ∀ name body, (∃ r, s.registry.spawn name body = .ok r) ↔
    .closed ∉ s.past ∧ ¬ HeldSince s.past name
  /-- A refusal blames the name and changes nothing. -/
  refuses : ∀ name body f, s.registry.spawn name body = .error f →
    s.step (.spawn name body) = s ∧ ∃ message, f = .registration name message
  /-- There are no loops but those that were started. -/
  loops : s.registry.loops.map (fun l => (l.name, l.body)) = s.past.filterMap Deed.start?
  aborts : ∀ name, (s.registry.abort? name).isSome ↔ HeldSince s.past name
  /-- An abort strikes out one name. -/
  aborted : ∀ name r, s.registry.abort? name = some r →
    r.held = s.registry.held.filter (·.1 ≠ name) ∧ r.closed = s.registry.closed
  /-- What loops do does not show. -/
  turns : ∀ i now, (s.step (.turnLoop i now)).registry.held = s.registry.held
  staysClosed : .closed ∈ s.past → ∀ ops name body,
    ∃ f, (s.run ops).registry.spawn name body = .error f
  staysEmpty : .returned ∈ s.shutdowns → ∀ ops, (s.run ops).registry.registered = []

/-! ## Histories -/

theorem heldSince_concat {past : List Deed} {d : Deed} {name : String} :
    HeldSince (past ++ [d]) name ↔
      (∃ body, d = .started name body) ∨ HeldSince past name ∧ d.freed? ≠ some name := by
  constructor
  · rintro ⟨earlier, body, later, heq, hlater⟩
    rcases List.eq_nil_or_concat later with rfl | ⟨later, last, rfl⟩
    · obtain ⟨-, hd⟩ := List.append_inj' heq rfl
      exact .inl ⟨body, List.singleton_inj.1 hd⟩
    · rw [List.concat_eq_append, ← List.cons_append, ← List.append_assoc] at heq
      obtain ⟨hpast, hd⟩ := List.append_inj' heq rfl
      obtain rfl := List.singleton_inj.1 hd
      rw [List.concat_eq_append] at hlater
      exact .inr ⟨⟨earlier, body, later, hpast, fun x hx => hlater x (by simp [hx])⟩,
        hlater d (by simp)⟩
  · rintro (⟨body, rfl⟩ | ⟨⟨earlier, body, later, rfl, hlater⟩, hd⟩)
    · exact ⟨past, body, [], rfl, nofun⟩
    · refine ⟨earlier, body, later ++ [d], by simp, fun x hx => ?_⟩
      rcases List.mem_append.1 hx with hx | hx
      · exact hlater x hx
      · rw [List.mem_singleton.1 hx]
        exact hd

theorem heldSince_append_taken {past : List Deed} {names : List String} {name : String} :
    HeldSince (past ++ names.map .taken) name ↔ HeldSince past name ∧ name ∉ names := by
  induction names generalizing past with
  | nil => simp
  | cons n names ih =>
      have happend : past ++ (n :: names).map Deed.taken =
          past ++ [.taken n] ++ names.map .taken := by simp
      rw [happend, ih, heldSince_concat, List.mem_cons, not_or]
      constructor
      · rintro ⟨⟨_, h⟩ | ⟨hheld, hne⟩, hnot⟩
        · cases h
        · exact ⟨hheld, fun h => hne (congrArg some h.symm), hnot⟩
      · rintro ⟨hheld, hne, hnot⟩
        exact ⟨.inr ⟨hheld, fun h => hne (Option.some.inj h).symm⟩, hnot⟩

/-! ## What a shutdown takes -/

theorem filter_notMem_nil (held : List (String × Nat)) :
    held.filter (·.1 ∉ ([] : List String)) = held :=
  List.filter_eq_self.2 fun _ _ => decide_eq_true List.not_mem_nil

theorem lookup_filter_ne {held : List (String × Nat)} {name other : String} (h : other ≠ name) :
    (held.filter (·.1 ≠ name)).lookup other = held.lookup other := by
  induction held with
  | nil => rfl
  | cons p held ih =>
      obtain ⟨n, i⟩ := p
      by_cases hn : n = name
      · subst hn
        rw [List.filter_cons_of_neg (by simp), ih, List.lookup_cons,
          beq_eq_false_iff_ne.2 h]
      · rw [List.filter_cons_of_pos (by simpa using hn), List.lookup_cons, List.lookup_cons, ih]

/-- A shutdown goes through a first part of its list and strikes out what is held of it. It is
at its end then, or it waits for the last loop that it has taken; the others have ended. -/
theorem takeNames_cases (names : List String) (r : Registry) :
    ∃ gone rest, names = gone ++ rest ∧
      (r.takeNames names).1 = { r with held := r.held.filter (·.1 ∉ gone) } ∧
      ((r.takeNames names).2.1 = none ∧ rest = [] ∨
        ∃ name i, (r.takeNames names).2.1 = some ⟨rest, some (name, i)⟩) ∧
      ∀ name ∈ gone, ∀ i, r.held.lookup name = some i →
        (r.joined? name i).isSome ∨
          ((r.takeNames names).2.1.bind Shutdown.joining) = some (name, i) := by
  induction names generalizing r with
  | nil =>
      refine ⟨[], [], rfl, ?_, .inl ⟨rfl, rfl⟩, nofun⟩
      rw [filter_notMem_nil]
      rfl
  | cons name names ih =>
      unfold takeNames
      split
      · next hnone =>
          obtain ⟨gone, rest, rfl, htaken, hrest, hended⟩ := ih r
          refine ⟨name :: gone, rest, rfl, ?_, hrest, ?_⟩
          · rw [htaken]
            congr 1
            refine List.filter_congr fun p hp => ?_
            have hne : p.1 ≠ name := fun h => by
              have := List.lookup_eq_none_iff.1 hnone p hp
              simp [h] at this
            simp [hne]
          · intro n hn i hi
            rcases List.mem_cons.1 hn with rfl | hn
            · rw [hnone] at hi
              cases hi
            · exact hended n hn i hi
      · next i hi =>
          dsimp only
          have hlookup : ∀ n j, r.held.lookup n = some j → n ≠ name →
              (r.held.filter (·.1 ≠ name)).lookup n = some j :=
            fun n j hj hne => (lookup_filter_ne hne).trans hj
          split
          · refine ⟨[name], names, rfl, by simp, .inr ⟨name, i, rfl⟩, fun n hn j hj => ?_⟩
            rw [List.mem_singleton.1 hn] at hj ⊢
            rw [hi] at hj
            exact .inr (congrArg _ (congrArg _ (Option.some.inj hj)))
          · next notices hjoined =>
              obtain ⟨gone, rest, rfl, htaken, hrest, hended⟩ :=
                ih { r with held := r.held.filter (·.1 ≠ name) }
              refine ⟨name :: gone, rest, rfl, ?_, hrest, ?_⟩
              · rw [htaken, List.filter_filter]
                congr 1
                refine List.filter_congr fun p _ => ?_
                simp [Bool.and_comm]
              · intro n hn j hj
                by_cases hne : n = name
                · subst hne
                  rw [hi] at hj
                  rw [← Option.some.inj hj]
                  exact .inl (Option.isSome_iff_exists.2 ⟨notices, hjoined⟩)
                · exact hended n ((List.mem_cons.1 hn).resolve_left hne) j (hlookup n j hj hne)

/-- What a turn of a shutdown does: it goes through a part of its list, and each loop that it
waited for or takes has ended, unless it is the one that it waits for now. -/
structure Shutdown.Turned (s : Shutdown) (r r' : Registry) (s' : Option Shutdown)
    (gone rest : List String) : Prop where
  pending : s.pending = gone ++ rest
  registry : r' = { r with held := r.held.filter (·.1 ∉ gone) }
  next : s' = none ∧ rest = [] ∨ ∃ joining, s' = some ⟨rest, joining⟩
  taken : ∀ name ∈ gone, ∀ i, r.held.lookup name = some i →
    (r.joined? name i).isSome ∨ s'.bind Shutdown.joining = some (name, i)
  awaited : ∀ name i, s.joining = some (name, i) →
    (r.joined? name i).isSome ∨ s'.bind Shutdown.joining = some (name, i)

theorem Shutdown.exists_turned (s : Shutdown) (r : Registry) :
    ∃ gone rest, s.Turned r (s.turn r).1 (s.turn r).2.1 gone rest := by
  obtain ⟨gone, rest, hpending, hregistry, hnext, htaken⟩ := takeNames_cases s.pending r
  replace hnext : (r.takeNames s.pending).2.1 = none ∧ rest = [] ∨
      ∃ joining, (r.takeNames s.pending).2.1 = some ⟨rest, joining⟩ :=
    hnext.imp_right fun ⟨name, i, h⟩ => ⟨some (name, i), h⟩
  unfold Shutdown.turn
  split
  · next hnone => exact ⟨gone, rest, hpending, hregistry, hnext, htaken, by simp [hnone]⟩
  · next name i hjoining =>
      split
      · refine ⟨[], s.pending, rfl, ?_, .inr ⟨s.joining, rfl⟩, nofun, fun _ _ h => .inr h⟩
        rw [filter_notMem_nil]
      · next notices hjoined =>
          refine ⟨gone, rest, hpending, hregistry, hnext, htaken, fun n j h => .inl ?_⟩
          rw [hjoining] at h
          obtain ⟨rfl, rfl⟩ := Prod.mk.inj (Option.some.inj h)
          exact Option.isSome_iff_exists.2 ⟨notices, hjoined⟩

theorem Shutdown.Turned.passed {s : Shutdown} {r r' : Registry} {s' : Option Shutdown}
    {gone rest : List String} (h : s.Turned r r' s' gone rest) : s.passed s' = gone := by
  have hrest : s'.elim [] Shutdown.pending = rest := by
    rcases h.next with ⟨rfl, rfl⟩ | ⟨joining, rfl⟩
    · rfl
    · rfl
  rw [Shutdown.passed, hrest, h.pending, List.length_append, Nat.add_sub_cancel, List.take_left]

theorem Shutdown.Turned.isRegistered {s : Shutdown} {r r' : Registry} {s' : Option Shutdown}
    {gone rest : List String} (h : s.Turned r r' s' gone rest) (name : String) :
    r'.isRegistered name ↔ r.isRegistered name ∧ name ∉ gone := by
  rw [h.registry]
  simp only [Registry.isRegistered, List.any_eq_true, List.mem_filter, decide_eq_true_eq]
  constructor
  · rintro ⟨p, ⟨hp, hnot⟩, rfl⟩
    exact ⟨⟨p, hp, rfl⟩, hnot⟩
  · rintro ⟨⟨p, hp, rfl⟩, hnot⟩
    exact ⟨p, ⟨hp, hnot⟩, rfl⟩

/-! ## Loops keep their names and bodies -/

theorem starts_condemn (loops : List Loop) (i : Nat) :
    (condemn loops i).map (fun l => (l.name, l.body)) = loops.map fun l => (l.name, l.body) := by
  refine map_modify_of_same (fun l => ?_) loops i
  cases l.isEnded <;> rfl

theorem starts_turnLoop (r : Registry) (i now : Nat) :
    (r.turnLoop i now).loops.map (fun l => (l.name, l.body)) =
      r.loops.map fun l => (l.name, l.body) := by
  refine map_modify_of_same (fun l => ?_) r.loops i
  unfold Loop.turn Loop.finish
  grind

/-! ## What every step keeps -/

/-- What every step of a session keeps. -/
structure Session.Kept (s : Session) : Prop where
  held : ∀ name, s.registry.isRegistered name ↔ HeldSince s.past name
  nodup : (s.registry.held.map Prod.fst).Nodup
  loops : s.registry.loops.map (fun l => (l.name, l.body)) = s.past.filterMap Deed.start?
  closed : s.registry.closed = true ↔ .closed ∈ s.past
  began : ∀ c ∈ s.shutdowns, s.registry.closed = true
  /-- Whatever is held is on the list of every shutdown that is under way. -/
  listed : ∀ sd, .underWay sd ∈ s.shutdowns → ∀ name, s.registry.isRegistered name →
    name ∈ sd.pending
  empty : .returned ∈ s.shutdowns → ∀ name, ¬ s.registry.isRegistered name

namespace Session

theorem kept_new : new.Kept :=
  ⟨fun name => by simp [new, empty, Registry.isRegistered, HeldSince], List.nodup_nil, rfl,
    by simp [new, empty], nofun, nofun, nofun⟩

variable {s : Session}

/-- Steps that enter no name keep the lists of the shutdowns long enough. -/
theorem Kept.listed_of_sub (h : s.Kept) {r : Registry}
    (hsub : ∀ name, r.isRegistered name → s.registry.isRegistered name) :
    (∀ sd, .underWay sd ∈ s.shutdowns → ∀ name, r.isRegistered name → name ∈ sd.pending) ∧
      (.returned ∈ s.shutdowns → ∀ name, ¬ r.isRegistered name) :=
  ⟨fun sd hsd name hr => h.listed sd hsd name (hsub name hr),
    fun hreturned name hr => h.empty hreturned name (hsub name hr)⟩

theorem Kept.spawn (h : s.Kept) {name : String} {body : LoopBody} {r : Registry}
    (hs : s.registry.spawn name body = .ok r) :
    Kept { s with registry := r, past := s.past ++ [.started name body] } := by
  obtain ⟨-, -, hloops⟩ := spawn_eq_ok hs
  obtain ⟨hopen, -⟩ := spawn_isOk_iff.1 ⟨r, hs⟩
  have hclosed : r.closed = s.registry.closed := by
    unfold Registry.spawn at hs
    split at hs
    · cases hs
    · split at hs <;> cases hs
      rfl
  have hnone : ∀ c, c ∉ s.shutdowns := fun c hc => hopen (h.began c hc)
  refine ⟨fun other => ?_, ?_, ?_, ?_, fun c hc => (hnone c hc).elim,
    fun sd hsd => (hnone _ hsd).elim, fun hreturned => (hnone _ hreturned).elim⟩
  · rw [isRegistered_of_spawn hs, heldSince_concat, h.held other]
    constructor
    · rintro (rfl | hheld)
      · exact .inl ⟨body, rfl⟩
      · exact .inr ⟨hheld, nofun⟩
    · rintro (⟨_, hd⟩ | ⟨hheld, -⟩)
      · exact .inl (Deed.started.inj hd).1.symm
      · exact .inr hheld
  · exact nodup_of_spawn h.nodup hs
  · rw [hloops, List.map_append, List.filterMap_append, h.loops]
    rfl
  · rw [hclosed, h.closed]
    simp

theorem Kept.abort (h : s.Kept) {name : String} {r : Registry}
    (hs : s.registry.abort? name = some r) :
    Kept { s with registry := r, past := s.past ++ [.aborted name] } := by
  have hregistered := isRegistered_of_abort? hs
  obtain ⟨hlisted, hempty⟩ := h.listed_of_sub (r := r) fun other hr => ((hregistered other).1 hr).2
  obtain ⟨i, -, rfl⟩ := Option.map_eq_some_iff.1 hs
  refine ⟨fun other => ?_, h.nodup.sublist (List.filter_sublist.map _), ?_, ?_, h.began, hlisted,
    hempty⟩
  · rw [hregistered other, heldSince_concat, h.held other]
    constructor
    · rintro ⟨hne, hheld⟩
      exact .inr ⟨hheld, fun hd => hne (Option.some.inj hd).symm⟩
    · rintro (⟨_, hd⟩ | ⟨hheld, hne⟩)
      · cases hd
      · exact ⟨fun hd => hne (congrArg some hd.symm), hheld⟩
  · rw [List.filterMap_append, ← h.loops, ← starts_condemn s.registry.loops i]
    exact (List.append_nil _).symm
  · simpa using h.closed

theorem Kept.beginShutdown (h : s.Kept) (rank : String → Nat) :
    Kept (s.step (.beginShutdown rank)) := by
  refine ⟨fun name => ?_, h.nodup, ?_, ?_, fun _ _ => rfl, fun sd hsd name hname => ?_,
    fun hreturned => ?_⟩
  · refine (h.held name).trans ?_
    change _ ↔ HeldSince (s.past ++ [Deed.closed]) name
    rw [heldSince_concat]
    exact ⟨fun hheld => .inr ⟨hheld, nofun⟩, fun hor => (hor.resolve_left nofun).1⟩
  · change s.registry.loops.map _ = (s.past ++ [Deed.closed]).filterMap _
    rw [List.filterMap_append, h.loops]
    exact (List.append_nil _).symm
  · exact ⟨fun _ => List.mem_append_right _ (List.mem_singleton_self _), fun _ => rfl⟩
  · rcases List.mem_append.1 hsd with hsd | hsd
    · exact h.listed sd hsd name hname
    · obtain rfl := Course.underWay.inj (List.mem_singleton.1 hsd)
      exact List.mem_mergeSort.2 (isRegistered_iff.1 hname)
  · rcases List.mem_append.1 hreturned with hreturned | hreturned
    · exact h.empty hreturned
    · cases List.mem_singleton.1 hreturned

theorem Kept.turned (h : s.Kept) {sd : Shutdown} {sd' : Option Shutdown} {r : Registry}
    {gone rest : List String} {k : Nat} (hk : s.shutdowns[k]? = some (.underWay sd))
    (hturned : sd.Turned s.registry r sd' gone rest) :
    Kept ⟨r, s.shutdowns.set k (sd'.elim .returned .underWay),
      s.past ++ (gone.filter s.registry.isRegistered).map .taken⟩ := by
  have hregistered := hturned.isRegistered
  obtain ⟨hlisted, hempty⟩ := h.listed_of_sub fun name hr => ((hregistered name).1 hr).1
  have hmem := List.mem_of_getElem? hk
  -- What is still held has not been gone through, so it is on the rest of the list.
  have hrest : ∀ name, r.isRegistered name → name ∈ rest := fun name hname => by
    obtain ⟨hname, hnot⟩ := (hregistered name).1 hname
    have hpending := h.listed sd hmem name hname
    rw [hturned.pending] at hpending
    exact (List.mem_append.1 hpending).resolve_left hnot
  have hr := hturned.registry
  refine ⟨fun name => ?_, ?_, ?_, ?_, fun _ _ => ?_, fun sd'' hsd'' name hname => ?_,
    fun hreturned name hname => ?_⟩
  · rw [hregistered name, heldSince_append_taken, h.held name, List.mem_filter]
    exact and_congr_right fun hheld => not_congr
      ⟨fun hgone => ⟨hgone, (h.held name).2 hheld⟩, And.left⟩
  · rw [hr]
    exact h.nodup.sublist (List.filter_sublist.map _)
  · have hquiet : ((gone.filter s.registry.isRegistered).map Deed.taken).filterMap
        Deed.start? = [] := by simp [Deed.start?]
    rw [hr, List.filterMap_append, h.loops, hquiet, List.append_nil]
  · rw [hr, h.closed]
    simp
  · rw [hr]
    exact h.began _ hmem
  · rcases List.mem_or_eq_of_mem_set hsd'' with hsd'' | hsd''
    · exact hlisted sd'' hsd'' name hname
    · rcases hturned.next with ⟨rfl, -⟩ | ⟨joining, rfl⟩
      · cases hsd''
      · obtain rfl := Course.underWay.inj hsd''
        exact hrest name hname
  · rcases List.mem_or_eq_of_mem_set hreturned with hreturned | hreturned
    · exact hempty hreturned name hname
    · rcases hturned.next with ⟨-, rfl⟩ | ⟨joining, rfl⟩
      · cases hrest name hname
      · cases hreturned

theorem Kept.turnShutdown (h : s.Kept) (k : Nat) : Kept (s.step (.turnShutdown k)) := by
  unfold step
  dsimp only
  split
  · next sd hk =>
      obtain ⟨gone, rest, hturned⟩ := sd.exists_turned s.registry
      rw [hturned.passed]
      exact h.turned hk hturned
  · exact h

theorem Kept.dropShutdown (h : s.Kept) (k : Nat) : Kept (s.step (.dropShutdown k)) := by
  unfold step
  dsimp only
  split
  · next sd hk =>
      have hold : ∀ {c}, c ∈ s.shutdowns.set k (.dropped sd) → c ≠ .dropped sd →
          c ∈ s.shutdowns := fun hc hne => (List.mem_or_eq_of_mem_set hc).resolve_right hne
      exact ⟨h.held, h.nodup, h.loops, h.closed, fun _ _ => h.began _ (List.mem_of_getElem? hk),
        fun sd' hsd' => h.listed sd' (hold hsd' nofun), fun hc => h.empty (hold hc nofun)⟩
  · exact h

theorem Kept.step (h : s.Kept) (op : Operation) : Kept (s.step op) := by
  cases op with
  | spawn name body =>
      rw [Session.step]
      split
      · exact h
      · next r hs => exact h.spawn hs
  | abort name =>
      rw [Session.step]
      split
      · exact h
      · next r hs => exact h.abort hs
  | beginShutdown rank => exact h.beginShutdown rank
  | turnShutdown k => exact h.turnShutdown k
  | dropShutdown k => exact h.dropShutdown k
  | turnLoop i now =>
      exact ⟨h.held, h.nodup, (starts_turnLoop ..).trans h.loops, h.closed, h.began, h.listed,
        h.empty⟩

theorem Kept.run (h : s.Kept) (ops : List Operation) : Kept (s.run ops) := by
  induction ops generalizing s with
  | nil => exact h
  | cons op ops ih => exact ih (h.step op)

/-! ## What never comes back -/

/-- A closed registry stays closed, and a shutdown that has returned stays returned. -/
theorem past_of_step (s : Session) (op : Operation) :
    (.closed ∈ s.past → .closed ∈ (s.step op).past) ∧
      (.returned ∈ s.shutdowns → .returned ∈ (s.step op).shutdowns) := by
  have hset : ∀ {k : Nat} {sd : Shutdown} {c : Course}, s.shutdowns[k]? = some (.underWay sd) →
      .returned ∈ s.shutdowns → .returned ∈ s.shutdowns.set k c := by
    intro k sd c hk hr
    obtain ⟨j, hj⟩ := List.mem_iff_getElem?.1 hr
    refine List.mem_iff_getElem?.2 ⟨j, ?_⟩
    rw [List.getElem?_set_ne fun hkj => by rw [← hkj, hk] at hj; cases hj]
    exact hj
  cases op with
  | spawn | abort =>
      rw [step]
      split
      · exact ⟨id, id⟩
      · exact ⟨List.mem_append_left _, id⟩
  | beginShutdown => exact ⟨List.mem_append_left _, List.mem_append_left _⟩
  | turnShutdown k =>
      unfold step
      dsimp only
      split
      · next hk => exact ⟨List.mem_append_left _, hset hk⟩
      · exact ⟨id, id⟩
  | dropShutdown k =>
      unfold step
      dsimp only
      split
      · next hk => exact ⟨id, hset hk⟩
      · exact ⟨id, id⟩
  | turnLoop => exact ⟨id, id⟩

theorem past_of_run (s : Session) (ops : List Operation) :
    (.closed ∈ s.past → .closed ∈ (s.run ops).past) ∧
      (.returned ∈ s.shutdowns → .returned ∈ (s.run ops).shutdowns) := by
  induction ops generalizing s with
  | nil => exact ⟨id, id⟩
  | cons op ops ih =>
      obtain ⟨hclosed, hreturned⟩ := past_of_step s op
      obtain ⟨hclosed', hreturned'⟩ := ih (s.step op)
      exact ⟨hclosed' ∘ hclosed, hreturned' ∘ hreturned⟩

end Session

/-! ## The table -/

theorem pairwise_registered {r : Registry} (h : (r.held.map Prod.fst).Nodup) :
    r.registered.Pairwise (· < ·) := by
  have hsorted : r.registered.Pairwise fun a b => decide (a ≤ b) = true :=
    List.pairwise_mergeSort
      (by
        intro a b c hab hbc
        exact decide_eq_true (String.le_trans (of_decide_eq_true hab) (of_decide_eq_true hbc)))
      (by
        intro a b
        rw [Bool.or_eq_true, decide_eq_true_eq, decide_eq_true_eq]
        exact String.le_total a b) _
  have hnodup : r.registered.Nodup := (List.mergeSort_perm _ _).nodup_iff.2 h
  refine (hsorted.and hnodup).imp fun ⟨hle, hne⟩ => ?_
  exact Std.lt_of_le_of_ne (of_decide_eq_true hle) hne

theorem error_of_closed {r : Registry} (h : r.closed = true) (name : String) (body : LoopBody) :
    ∃ f, r.spawn name body = .error f := by
  rw [spawn, if_pos h]
  exact ⟨_, rfl⟩

/-- Whoever shares a registry, and in whatever order they move, it is a table of names with a
flag. -/
theorem names_and_flag (ops : List Operation) : (Session.after ops).IsNameTable := by
  have h : (Session.after ops).Kept := Session.kept_new.run ops
  generalize Session.after ops = s at h
  refine ⟨h.held, ⟨pairwise_registered h.nodup, fun name => mem_registered⟩, fun name body => ?_,
    fun name body f hf => ⟨?_, ?_⟩, h.loops, fun name => ?_, fun name r hr => ?_, fun _ _ => rfl,
    fun hclosed later name body => ?_, fun hreturned later => ?_⟩
  · rw [spawn_isOk_iff, h.closed, h.held name]
  · rw [Session.step, hf]
  · unfold spawn at hf
    split at hf
    · cases hf
      exact ⟨_, rfl⟩
    · split at hf <;> cases hf
      exact ⟨_, rfl⟩
  · rw [abort?_isSome_iff, h.held name]
  · obtain ⟨i, -, rfl⟩ := Option.map_eq_some_iff.1 hr
    exact ⟨rfl, rfl⟩
  · exact error_of_closed ((h.run later).closed.2 ((s.past_of_run later).1 hclosed)) name body
  · refine List.eq_nil_iff_forall_not_mem.2 fun name hname => ?_
    exact (h.run later).empty ((s.past_of_run later).2 hreturned) name (mem_registered.1 hname)

end Lifecycle.Registry
