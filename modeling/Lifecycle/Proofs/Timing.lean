import Lifecycle.Readiness.Poll

/-!
# When a wait ends, and how

A wait is a machine that is looked at again and again. Seen from outside it has a plain
timetable: the first check starts with the wait, and each further one starts one interval
after the one before has ended. The first check that finds anything but "not yet" ends the
wait, unless the deadline or the cancellation has come by then; these two end it
themselves, the cancellation first where both come together. `Task.Timed` is this
timetable, and `run_timed` says that a wait keeps it. Instants are whole milliseconds, and
a timer of a part of one wakes with the next.

The timetable is read off the checks alone, so what has to be shown is that the machine
never oversleeps: it is looked at when the next thing is due, and not later. `Resting` and
`Checking` are the two states in which it is looked at, both with the instant at which it
wakes. Neither deadline nor cancellation can have been missed then, because the machine
wakes at whichever comes first.

That a wait ends is a matter of the interval. Each check is followed by a rest that takes
at least one tick or ends at the deadline, so two looks at every instant before the
deadline are enough.
-/

namespace Lifecycle

/-- How a wait ends on what a check has found, if it ends on it. -/
def Finding.outcome? {E : Type} : Finding E → Option (Outcome E)
  | .ready => some .ready
  | .failed e => some (.failed e)
  | .notYet => none

namespace Poll

variable {E : Type}

/-! ## The timetable -/

namespace Task

/-- The instant of the cancellation; one before the wait counts as the instant zero. -/
def firesAt? (t : Task E) : Option Nat := if t.cancelled then some 0 else t.cancelAt

def isFiredBy (t : Task E) (now : Nat) : Bool := t.firesAt?.any (· ≤ now)

def deadline (t : Task E) (start : Nat) : Nat := start + t.timeout.ceilMillis

/-- The instant at which a check starts if nothing ends the wait before. No check follows one
that never ends. -/
def startsAt? (t : Task E) (start : Nat) : Nat → Option Nat
  | 0 => some start
  | k + 1 =>
    match t.startsAt? start k, (t.check k).duration with
    | some since, some d => some (since + d + t.interval.ceilMillis)
    | _, _ => none

/-- The first check that finds anything but "not yet" has ended at an instant, and would end
the wait in some way. -/
structure Decides (t : Task E) (start k time : Nat) (o : Outcome E) : Prop where
  before : ∀ j < k, (t.check j).finding = .notYet
  finding : (t.check k).finding.outcome? = some o
  ends : ∃ since d, t.startsAt? start k = some since ∧ (t.check k).duration = some d ∧
    since + d = time

/-- The first decisive check ends before the deadline and before the cancellation. -/
def DecidesInTime (t : Task E) (start k time : Nat) (o : Outcome E) : Prop :=
  t.Decides start k time o ∧ time < t.deadline start ∧ t.isFiredBy time = false

/-- What is reported of a wait that was begun at an instant, told by its checks. -/
structure Timed (t : Task E) (start : Nat) (r : Report E) : Prop where
  decided : ∀ k time o, t.DecidesInTime start k time o →
    r.outcome = o ∧ r.ended = time ∧ r.started.length = k + 1
  cancelled : (∀ k time o, ¬ t.DecidesInTime start k time o) →
    ∀ c, t.firesAt? = some c → c ≤ t.deadline start →
      r.outcome = .cancelled ∧ r.ended = max start c
  timedOut : (∀ k time o, ¬ t.DecidesInTime start k time o) →
    t.isFiredBy (t.deadline start) = false →
      r.outcome = .timedOut ∧ r.ended = t.deadline start
  /-- A check is started if it is due before the deadline and before the cancellation. -/
  started : ∀ k since, r.started[k]? = some since ↔
    (∀ j < k, (t.check j).finding = .notYet) ∧ t.startsAt? start k = some since ∧
      since < t.deadline start ∧ t.isFiredBy since = false
  /-- A check that ends just at the deadline comes too late. -/
  tooLate : ∀ k o, t.Decides start k (t.deadline start) o →
    t.isFiredBy (t.deadline start) = false → r.outcome = .timedOut
  atOnce : t.timeout = .zero → r.started = []

variable {t : Task E} {start : Nat}

theorem isFiredBy_eq_true {now : Nat} :
    t.isFiredBy now = true ↔ ∃ c, t.firesAt? = some c ∧ c ≤ now := by
  simp [isFiredBy, Option.any_eq_true]

theorem isFiredBy_mono {now later : Nat} (hle : now ≤ later) (h : t.isFiredBy now = true) :
    t.isFiredBy later = true := by
  obtain ⟨c, hc, hcn⟩ := isFiredBy_eq_true.1 h
  exact isFiredBy_eq_true.2 ⟨c, hc, Nat.le_trans hcn hle⟩

/-- Before the cancellation it is an instant set for the wait. -/
theorem of_not_isFiredBy {now : Nat} (h : t.isFiredBy now = false) :
    t.cancelled = false ∧ t.firesAt? = t.cancelAt ∧ ∀ c, t.cancelAt = some c → now < c := by
  cases hc : t.cancelled with
  | true => simp [isFiredBy, firesAt?, hc] at h
  | false =>
      have hat : t.firesAt? = t.cancelAt := by rw [firesAt?, hc, if_neg Bool.false_ne_true]
      refine ⟨rfl, hat, fun c hcat => Nat.lt_of_not_le fun hle => ?_⟩
      rw [isFiredBy_eq_true.2 ⟨c, hat.trans hcat, hle⟩] at h
      cases h

theorem startsAt?_succ {k next : Nat} :
    t.startsAt? start (k + 1) = some next ↔ ∃ since d, t.startsAt? start k = some since ∧
      (t.check k).duration = some d ∧ since + d + t.interval.ceilMillis = next := by
  rw [startsAt?]
  split
  · next since d hs hd => simp [hs, hd]
  · next hn =>
      refine ⟨nofun, ?_⟩
      rintro ⟨since, d, hs, hd, -⟩
      exact (hn since d hs hd).elim

/-- A later check starts after an earlier one has ended and its rest is over. -/
theorem exists_of_startsAt? {j k since : Nat} (hjk : j < k)
    (h : t.startsAt? start k = some since) :
    ∃ earlier d, t.startsAt? start j = some earlier ∧ (t.check j).duration = some d ∧
      earlier + d + t.interval.ceilMillis ≤ since := by
  induction k generalizing since with
  | zero => cases hjk
  | succ k ih =>
      obtain ⟨last, d, hlast, hd, rfl⟩ := startsAt?_succ.1 h
      rcases Nat.lt_succ_iff_lt_or_eq.1 hjk with hlt | rfl
      · obtain ⟨earlier, e, hearlier, he, hle⟩ := ih hlt hlast
        exact ⟨earlier, e, hearlier, he, by omega⟩
      · exact ⟨last, d, hlast, hd, Nat.le_refl _⟩

theorem startsAt?_mono {j k earlier since : Nat} (hjk : j ≤ k)
    (hj : t.startsAt? start j = some earlier) (hk : t.startsAt? start k = some since) :
    earlier ≤ since := by
  rcases Nat.lt_or_eq_of_le hjk with hlt | rfl
  · obtain ⟨_, d, hj', -, hle⟩ := exists_of_startsAt? hlt hk
    obtain rfl := Option.some.inj (hj.symm.trans hj')
    omega
  · rw [hj] at hk
    exact Nat.le_of_eq (Option.some.inj hk)

/-- Only one check decides, at one instant and in one way. -/
theorem Decides.unique {k k' time time' : Nat} {o o' : Outcome E}
    (h : t.Decides start k time o) (h' : t.Decides start k' time' o') :
    k = k' ∧ time = time' ∧ o = o' := by
  have hnot : ∀ {j i a : Nat} {u : Outcome E}, t.Decides start i a u →
      (t.check j).finding.outcome? ≠ none → i ≤ j := by
    intro j i a u hi hj
    refine Nat.le_of_not_lt fun hlt => hj ?_
    rw [hi.before j hlt]
    rfl
  obtain rfl : k = k' := Nat.le_antisymm (hnot h (by rw [h'.finding]; nofun))
    (hnot h' (by rw [h.finding]; nofun))
  obtain ⟨since, d, hs, hd, rfl⟩ := h.ends
  obtain ⟨since', d', hs', hd', rfl⟩ := h'.ends
  have ho := h.finding.symm.trans h'.finding
  have hsince := hs.symm.trans hs'
  have hlength := hd.symm.trans hd'
  exact ⟨rfl, by rw [Option.some.inj hsince, Option.some.inj hlength], Option.some.inj ho⟩

end Task

/-! ## Reports that keep the timetable -/

namespace Task

variable {t : Task E} {start : Nat}

/-- Checks that were started, each at its instant and none too late. -/
structure Begun (t : Task E) (start : Nat) (started : List Nat) : Prop where
  since : ∀ k since, started[k]? = some since → t.startsAt? start k = some since ∧
    since < t.deadline start ∧ t.isFiredBy since = false
  before : ∀ k < started.length, ∀ j < k, (t.check j).finding = .notYet

theorem Begun.concat {started : List Nat} {since : Nat} (h : t.Begun start started)
    (hbefore : ∀ j < started.length, (t.check j).finding = .notYet)
    (hs : t.startsAt? start started.length = some since) (hd : since < t.deadline start)
    (hf : t.isFiredBy since = false) : t.Begun start (started ++ [since]) := by
  constructor
  · intro k x hk
    rcases Nat.lt_trichotomy k started.length with hlt | rfl | hgt
    · rw [List.getElem?_append_left hlt] at hk
      exact h.since k x hk
    · rw [List.getElem?_concat_length] at hk
      cases hk
      exact ⟨hs, hd, hf⟩
    · have hlen : (started ++ [since]).length ≤ k := by
        rw [List.length_append, List.length_singleton]
        exact hgt
      rw [List.getElem?_eq_none hlen] at hk
      cases hk
  · intro k hk j hj
    rw [List.length_append, List.length_singleton] at hk
    exact hbefore j (by omega)

/-- The checks that were started are all that are in the timetable, if no other one is due in
time. -/
theorem Begun.started_iff {started : List Nat} (h : t.Begun start started)
    (hlate : ∀ k since, started.length ≤ k → (∀ j < k, (t.check j).finding = .notYet) →
      t.startsAt? start k = some since → since < t.deadline start → t.isFiredBy since = true)
    (k since : Nat) :
    started[k]? = some since ↔ (∀ j < k, (t.check j).finding = .notYet) ∧
      t.startsAt? start k = some since ∧ since < t.deadline start ∧
        t.isFiredBy since = false := by
  constructor
  · intro hk
    obtain ⟨hlt, -⟩ := List.getElem?_eq_some_iff.1 hk
    exact ⟨h.before k hlt, h.since k since hk⟩
  · rintro ⟨hbefore, hs, hd, hf⟩
    rcases Nat.lt_or_ge k started.length with hlt | hge
    · have hk := List.getElem?_eq_getElem hlt
      rw [hk, ← hs]
      exact (h.since k _ hk).1.symm
    · rw [hlate k since hge hbefore hs hd] at hf
      cases hf

/-- A report that tells the end and the checks as the timetable has them; what comes too late
or at once follows. -/
theorem Timed.of_end {r : Report E}
    (hdecided : ∀ k time o, t.DecidesInTime start k time o →
      r.outcome = o ∧ r.ended = time ∧ r.started.length = k + 1)
    (hcancelled : (∀ k time o, ¬ t.DecidesInTime start k time o) →
      ∀ c, t.firesAt? = some c → c ≤ t.deadline start →
        r.outcome = .cancelled ∧ r.ended = max start c)
    (htimedOut : (∀ k time o, ¬ t.DecidesInTime start k time o) →
      t.isFiredBy (t.deadline start) = false →
        r.outcome = .timedOut ∧ r.ended = t.deadline start)
    (hstarted : ∀ k since, r.started[k]? = some since ↔
      (∀ j < k, (t.check j).finding = .notYet) ∧ t.startsAt? start k = some since ∧
        since < t.deadline start ∧ t.isFiredBy since = false) : t.Timed start r := by
  refine ⟨hdecided, hcancelled, htimedOut, hstarted, ?_, ?_⟩
  · intro k o hk hf
    refine (htimedOut ?_ hf).1
    rintro j time u ⟨hj, hd, -⟩
    obtain ⟨-, rfl, -⟩ := hk.unique hj
    exact Nat.lt_irrefl _ hd
  · intro hzero
    refine List.eq_nil_iff_forall_not_mem.2 fun since hmem => ?_
    obtain ⟨k, hk⟩ := List.mem_iff_getElem?.1 hmem
    obtain ⟨-, hs, hd, -⟩ := (hstarted k since).1 hk
    have hle : start ≤ since := startsAt?_mono (Nat.zero_le k) rfl hs
    rw [deadline, hzero, show Duration.zero.ceilMillis = 0 from rfl] at hd
    omega

/-- Nothing that is still to come comes before an instant. -/
structure Ahead (t : Task E) (start : Nat) (started : List Nat) (now : Nat) : Prop where
  starts : ∀ k since, started.length ≤ k → t.startsAt? start k = some since → now ≤ since
  decides : ∀ k time o, t.Decides start k time o → now ≤ time

theorem Timed.of_cancelled {started : List Nat} {now : Nat} (fired : Bool)
    (hb : t.Begun start started) (ha : t.Ahead start started now) (hd : now ≤ t.deadline start)
    (hf : t.isFiredBy now = true) (hnow : ∀ c, t.firesAt? = some c → now = max start c) :
    t.Timed start ⟨.cancelled, started, now, fired⟩ := by
  have hfired : ∀ {later}, now ≤ later → t.isFiredBy later = true := fun hle =>
    isFiredBy_mono hle hf
  refine .of_end ?_ (fun _ c hc _ => ⟨rfl, hnow c hc⟩) ?_ (hb.started_iff ?_)
  · rintro k time o ⟨hk, -, hn⟩
    rw [hfired (ha.decides k time o hk)] at hn
    cases hn
  · intro _ hn
    rw [hfired hd] at hn
    cases hn
  · intro k since hk _ hs _
    exact hfired (ha.starts k since hk hs)

theorem Timed.of_timedOut {started : List Nat} (fired : Bool) (hb : t.Begun start started)
    (ha : t.Ahead start started (t.deadline start))
    (hf : t.isFiredBy (t.deadline start) = false) :
    t.Timed start ⟨.timedOut, started, t.deadline start, fired⟩ := by
  refine .of_end ?_ ?_ (fun _ _ => ⟨rfl, rfl⟩) (hb.started_iff ?_)
  · rintro k time o ⟨hk, hd, -⟩
    exact absurd hd (Nat.not_lt.2 (ha.decides k time o hk))
  · intro _ c hc hle
    rw [isFiredBy_eq_true.2 ⟨c, hc, hle⟩] at hf
    cases hf
  · intro k since hk _ hs hd
    exact absurd hd (Nat.not_lt.2 (ha.starts k since hk hs))

theorem Timed.of_decides {started : List Nat} {time : Nat} {o : Outcome E} (fired : Bool)
    (hb : t.Begun start started) {k : Nat} (hlen : started.length = k + 1)
    (hk : t.DecidesInTime start k time o) : t.Timed start ⟨o, started, time, fired⟩ := by
  refine .of_end ?_ (fun hno => (hno _ _ _ hk).elim) (fun hno => (hno _ _ _ hk).elim)
    (hb.started_iff ?_)
  · rintro j later u ⟨hj, -, -⟩
    obtain ⟨rfl, rfl, rfl⟩ := hk.1.unique hj
    exact ⟨rfl, rfl, hlen⟩
  · intro j since hj hbefore
    have hfinding := hk.1.finding
    rw [hbefore k (by omega)] at hfinding
    cases hfinding

end Task

/-! ## Looks -/

namespace State

variable {t : Task E} {s : State E}

theorem step_of_over {o : Outcome E} (h : s.wait.turn (s.fire t).cancelled s.now = .over o) :
    s.step t = .inl ((s.fire t).report o) := by
  unfold step
  dsimp only [fire] at h ⊢
  rw [h]

theorem step_of_stay {w : Wait E} (h : s.wait.turn (s.fire t).cancelled s.now = .stay w) :
    s.step t = .inr { s.fire t with
      wait := w, now := next { s.fire t with wait := w } t } := by
  unfold step
  dsimp only [fire] at h ⊢
  rw [h]

/-- A state with a further check started at its instant. -/
def begins (s : State E) (t : Task E) : State E :=
  { s.fire t with
    cancelled := (s.fire t).cancelled || (t.check s.started.size).cancels,
    started := s.started.push s.now }

theorem step_of_ask (h : s.wait.turn (s.fire t).cancelled s.now = .ask) :
    s.step t =
      match (s.begins t).wait.answer (t.check s.started.size) s.now (s.begins t).cancelled
        (s.begins t).now with
      | .over o => .inl ((s.begins t).report o)
      | .ask => .inr (s.begins t)
      | .stay w => .inr { s.begins t with
          wait := w, now := next { s.begins t with wait := w } t } := by
  unfold step
  dsimp only [fire, begins] at h ⊢
  rewrite [h]
  rfl

theorem fire_cancelled (h : s.cancelled = t.cancelled) :
    (s.fire t).cancelled = t.isFiredBy s.now := by
  unfold fire Task.isFiredBy Task.firesAt?
  dsimp only
  rw [h]
  cases t.cancelled <;> simp

theorem fire_eq_self (h : s.cancelled = t.cancelled) (hf : t.isFiredBy s.now = false) :
    s.fire t = s := by
  have hfire : s.fire t = { s with cancelled := (s.fire t).cancelled } := rfl
  rw [hfire, fire_cancelled h, hf, ← (Task.of_not_isFiredBy hf).1, ← h]

/-- The clock moves to the next thing that the wait has to do, or to the cancellation. -/
theorem next_spec (hc : s.cancelled = t.cancelled) (hf : t.isFiredBy s.now = false)
    (hw : s.wait.wakes ≠ []) :
    (∀ wake ∈ s.wait.wakes, s.next t ≤ wake) ∧ (∀ c, t.firesAt? = some c → s.next t ≤ c) ∧
      (s.next t ∈ s.wait.wakes ∨ t.isFiredBy (s.next t) = true) := by
  obtain ⟨hcancelled, hat, hlt⟩ := Task.of_not_isFiredBy hf
  have hlater : t.cancelAt.toList.filter (s.now < ·) = t.firesAt?.toList := by
    rw [hat]
    refine List.filter_eq_self.2 fun c h => ?_
    exact decide_eq_true (hlt c (Option.mem_toList.1 h))
  obtain ⟨n, hn⟩ : ∃ n, (s.wait.wakes ++ t.firesAt?.toList).min? = some n := by
    cases h : (s.wait.wakes ++ t.firesAt?.toList).min? with
    | none => exact (hw (List.append_eq_nil_iff.1 (List.min?_eq_none_iff.1 h)).1).elim
    | some n => exact ⟨n, rfl⟩
  have hnext : s.next t = n := by
    unfold next
    rw [hc, hcancelled, if_neg Bool.false_ne_true]
    dsimp only
    rw [hlater, hn, Option.getD_some]
  obtain ⟨hmem, hle⟩ := List.min?_eq_some_iff.1 hn
  rw [hnext]
  refine ⟨fun wake h => hle wake (List.mem_append_left _ h), fun c h => ?_, ?_⟩
  · exact hle c (List.mem_append_right _ (Option.mem_toList.2 h))
  · rcases List.mem_append.1 hmem with h | h
    · exact .inl h
    · exact .inr (Task.isFiredBy_eq_true.2 ⟨n, Option.mem_toList.1 h, Nat.le_refl n⟩)

end State

end Poll

namespace Wait

variable {E : Type} {w : Wait E} {check : Check E} {since now : Nat}

theorem answer_of_outcome {cancelled : Bool} {o : Outcome E} (he : check.endsBy since now = true)
    (ho : check.finding.outcome? = some o) : w.answer check since cancelled now = .over o := by
  rw [answer, if_pos he]
  cases hf : check.finding with
  | notYet => rw [hf] at ho; cases ho
  | ready => rw [hf] at ho; cases ho; rfl
  | failed => rw [hf] at ho; cases ho; rfl

theorem answer_of_notYet (he : check.endsBy since now = true) (hn : check.finding = .notYet)
    (hd : now < w.deadline) : w.answer check since false now =
      .stay { w with phase := .resting (min (now + w.interval) w.deadline) } := by
  rw [answer, if_pos he, hn]
  dsimp only
  rw [rest, if_neg (Nat.not_le.2 hd), if_neg Bool.false_ne_true]

theorem answer_of_running {cancelled : Bool} (he : check.endsBy since now = false) :
    w.answer check since cancelled now = .stay { w with phase := .inFlight check since } := by
  rw [answer, if_neg (by rw [he]; exact Bool.false_ne_true)]

end Wait

namespace Poll

variable {E : Type} {t : Task E} {start k since : Nat} {s : State E}

/-- A look that comes in time, at which check `k` is the first one without an answer. -/
structure OnTime (t : Task E) (start k since : Nat) (s : State E) : Prop where
  starts : t.startsAt? start k = some since
  before : ∀ j < k, (t.check j).finding = .notYet
  begun : t.Begun start s.started.toList
  token : s.cancelled = t.cancelled
  interval : s.wait.interval = t.interval.ceilMillis
  deadline : s.wait.deadline = t.deadline start
  begins : start ≤ s.now
  ends : s.now ≤ t.deadline start
  unmissed : ∀ c, t.firesAt? = some c → c ≤ s.now → s.now = max start c

/-- A wait that has check `k` before it. -/
structure Resting (t : Task E) (start k since : Nat) (s : State E) : Prop
    extends OnTime t start k since s where
  count : s.started.size = k
  phase : s.wait.phase = .due ∨ s.wait.phase = .resting (min since (t.deadline start))
  le : s.now ≤ since
  woken : s.now = since ∨ s.now = t.deadline start ∨ t.isFiredBy s.now = true

/-- A wait with check `k` under way. -/
structure Checking (t : Task E) (start k since : Nat) (s : State E) : Prop
    extends OnTime t start k since s where
  count : s.started.size = k + 1
  phase : s.wait.phase = .inFlight (t.check k) since
  le : ∀ d, (t.check k).duration = some d → s.now ≤ since + d
  woken : (t.check k).endsBy since s.now = true ∨ s.now = t.deadline start ∨
    t.isFiredBy s.now = true

/-- After a check that has found nothing the wait rests until the next one is due, the deadline
or the cancellation. -/
theorem OnTime.rests (h : OnTime t start k since s) (hcount : s.started.size = k + 1)
    {d : Nat} (hd : (t.check k).duration = some d) (hnow : s.now = since + d)
    (hn : (t.check k).finding = .notYet) (hlt : s.now < t.deadline start)
    (hf : t.isFiredBy s.now = false) (hi : 0 < t.interval.ceilMillis) :
    let s' := { s with wait := { s.wait with
      phase := .resting (min (s.now + s.wait.interval) s.wait.deadline) } }
    s.now < s'.next t ∧
      Resting t start (k + 1) (since + d + t.interval.ceilMillis) { s' with now := s'.next t } := by
  intro s'
  have hwakes : s'.wait.wakes =
      [min (since + d + t.interval.ceilMillis) (t.deadline start)] := by
    rw [← hnow, ← h.interval, ← h.deadline]
    rfl
  obtain ⟨hle, hc, hwoken⟩ := State.next_spec (s := s') (t := t) h.token hf
    (by rw [hwakes]; nofun)
  rw [hwakes] at hle hwoken
  have hwake := hle _ (List.mem_singleton_self _)
  have hnext : s.now < s'.next t := by
    rcases hwoken with hw | hw
    · rw [List.mem_singleton.1 hw]
      omega
    · obtain ⟨c, hcat, hcn⟩ := Task.isFiredBy_eq_true.1 hw
      obtain ⟨-, hat, hafter⟩ := Task.of_not_isFiredBy hf
      exact Nat.lt_of_lt_of_le (hafter c (hat ▸ hcat)) hcn
  have hbegins := h.begins
  refine ⟨hnext, ⟨Task.startsAt?_succ.2 ⟨since, d, h.starts, hd, rfl⟩, ?_, h.begun, h.token,
    h.interval, h.deadline, ?_, ?_, ?_⟩, hcount, .inr ?_, ?_, ?_⟩
  · intro j hj
    rcases Nat.lt_succ_iff_lt_or_eq.1 hj with hlt | rfl
    · exact h.before j hlt
    · exact hn
  · dsimp only
    omega
  · dsimp only
    omega
  · intro c hcat hcn
    have := hc c hcat
    dsimp only at hcn ⊢
    omega
  · dsimp only [s']
    rw [hnow, h.interval, h.deadline]
  · dsimp only
    omega
  · dsimp only
    rcases hwoken with hw | hw
    · have := List.mem_singleton.1 hw
      omega
    · exact .inr (.inr hw)

/-! ## Nothing is missed -/

theorem OnTime.le_of_decides (h : OnTime t start k since s) {j time : Nat} {o : Outcome E}
    (hj : t.Decides start j time o) :
    k < j ∨ k = j ∧ ∃ d, (t.check k).duration = some d ∧ since + d = time := by
  rcases Nat.lt_trichotomy j k with hlt | rfl | hgt
  · have hfinding := hj.finding
    rw [h.before j hlt] at hfinding
    cases hfinding
  · obtain ⟨x, d, hx, hd, rfl⟩ := hj.ends
    obtain rfl := Option.some.inj (h.starts.symm.trans hx)
    exact .inr ⟨rfl, d, hd, rfl⟩
  · exact .inl hgt

/-- What is due at a look, or comes to light at it, is not due before it, provided that the
check at hand has not ended before it either. -/
theorem OnTime.ahead (h : OnTime t start k since s)
    (hstart : s.started.size ≤ k → s.now ≤ since) (hcount : k ≤ s.started.size)
    (hend : ∀ d, (t.check k).duration = some d → s.now ≤ since + d) :
    t.Ahead start s.started.toList s.now := by
  have hafter : ∀ {j x}, k < j → t.startsAt? start j = some x → s.now ≤ x := by
    intro j x hj hx
    obtain ⟨y, d, hy, hd, hle⟩ := Task.exists_of_startsAt? hj hx
    obtain rfl := Option.some.inj (h.starts.symm.trans hy)
    have := hend d hd
    omega
  constructor
  · intro j x hj hx
    rw [Array.length_toList] at hj
    rcases Nat.lt_or_eq_of_le (Nat.le_trans hcount hj) with hlt | rfl
    · exact hafter hlt hx
    · obtain rfl := Option.some.inj (h.starts.symm.trans hx)
      exact hstart hj
  · intro j time o hj
    rcases h.le_of_decides hj with hlt | ⟨-, d, hd, rfl⟩
    · obtain ⟨x, d, hx, -, rfl⟩ := hj.ends
      exact Nat.le_add_right_of_le (hafter hlt hx)
    · exact hend d hd

theorem Resting.ahead (h : Resting t start k since s) :
    t.Ahead start s.started.toList s.now :=
  h.toOnTime.ahead (fun _ => h.le) (Nat.le_of_eq h.count.symm) fun _ _ =>
    Nat.le_add_right_of_le h.le

theorem Checking.ahead (h : Checking t start k since s) :
    t.Ahead start s.started.toList s.now :=
  h.toOnTime.ahead (fun hle => absurd hle (by rw [h.count]; omega))
    (by rw [h.count]; omega) h.le

/-- A look at which the cancellation has come, or else the deadline, ends the wait. -/
theorem OnTime.over (h : OnTime t start k since s)
    (ha : t.Ahead start s.started.toList s.now)
    (hfired : t.isFiredBy s.now = true ∨ s.now = t.deadline start ∧
      s.wait.turn false s.now = .over .timedOut) :
    ∃ r, s.step t = .inl r ∧ t.Timed start r := by
  have htoken := State.fire_cancelled h.token
  cases hf : t.isFiredBy s.now with
  | true =>
      refine ⟨_, State.step_of_over (o := .cancelled) ?_, ?_⟩
      · rw [htoken, hf]
        exact Wait.turn_of_cancelled ..
      · refine Task.Timed.of_cancelled _ h.begun ha h.ends hf fun c hc => ?_
        obtain ⟨c', hc', hle⟩ := Task.isFiredBy_eq_true.1 hf
        obtain rfl := Option.some.inj (hc.symm.trans hc')
        exact h.unmissed c hc hle
  | false =>
      rw [hf] at hfired
      obtain ⟨hnow, hturn⟩ := hfired.resolve_left Bool.false_ne_true
      refine ⟨_, State.step_of_over (o := .timedOut) ?_, ?_⟩
      · rw [htoken, hf, hturn]
      · rw [hnow] at ha hf
        have htimed := Task.Timed.of_timedOut (s.fire t).cancelled h.begun ha hf
        rw [← hnow] at htimed
        exact htimed

/-- A look at which the check at hand has ended in time. -/
theorem OnTime.answered (h : OnTime t start k since s) (hcount : s.started.size = k + 1)
    {d : Nat} (hd : (t.check k).duration = some d) (hnow : s.now = since + d)
    (hlt : s.now < t.deadline start) (hf : t.isFiredBy s.now = false)
    (hi : 0 < t.interval.ceilMillis) :
    (∃ o, s.wait.answer (t.check k) since false s.now = .over o ∧ t.Timed start (s.report o)) ∨
      ∃ w, s.wait.answer (t.check k) since false s.now = .stay w ∧
        let s' := { s with wait := w }
        s.now < s'.next t ∧
          ∃ since', Resting t start (k + 1) since' { s' with now := s'.next t } := by
  have he : (t.check k).endsBy since s.now = true := by
    simp [Check.endsBy, hd, hnow]
  cases ho : (t.check k).finding.outcome? with
  | some o =>
      have hdecides : t.DecidesInTime start k s.now o :=
        ⟨⟨h.before, ho, since, d, h.starts, hd, hnow.symm⟩, hlt, hf⟩
      exact .inl ⟨o, Wait.answer_of_outcome he ho,
        .of_decides _ h.begun (by rw [Array.length_toList, hcount]) hdecides⟩
  | none =>
      have hn : (t.check k).finding = .notYet := by
        cases hfinding : (t.check k).finding with
        | notYet => rfl
        | ready | failed => rw [hfinding] at ho; cases ho
      obtain ⟨hnext, hrests⟩ := h.rests hcount hd hnow hn hlt hf hi
      exact .inr ⟨_, Wait.answer_of_notYet he hn (by rw [h.deadline]; exact hlt), hnext, _,
        hrests⟩

/-! ## Looks that go on -/

/-- How a look goes: the wait ends as it should, or it is looked at again later and in time. -/
def GoesOn (t : Task E) (start : Nat) (s : State E) : Prop :=
  (∃ r, s.step t = .inl r ∧ t.Timed start r) ∨
    ∃ s', s.step t = .inr s' ∧ s.now < s'.now ∧
      ∃ k since, Resting t start k since s' ∨ Checking t start k since s'

theorem Checking.look (h : Checking t start k since s) (hi : 0 < t.interval.ceilMillis) :
    GoesOn t start s := by
  cases hf : t.isFiredBy s.now with
  | true => exact .inl (h.over h.ahead (.inl hf))
  | false =>
      have hturn : s.wait.turn false s.now =
          if s.wait.deadline ≤ s.now then .over .timedOut
          else s.wait.answer (t.check k) since false s.now := by
        rw [Wait.turn, h.phase]
        rfl
      rcases Nat.lt_or_eq_of_le h.ends with hlt | heq
      · rw [if_neg (by rw [h.deadline]; omega)] at hturn
        have hcancelled : (s.fire t).cancelled = false := (State.fire_cancelled h.token).trans hf
        have hwoken := h.woken.resolve_right fun hor => hor.elim (by omega) (by simp [hf])
        obtain ⟨d, hd, hle⟩ := (Option.any_eq_true ..).1 hwoken
        have hnow : s.now = since + d := Nat.le_antisymm (h.le d hd) (of_decide_eq_true hle)
        rcases h.answered h.count hd hnow hlt hf hi with ⟨o, ho, htimed⟩ | ⟨w, hw, hnext, hrests⟩
        · refine .inl ⟨_, State.step_of_over (o := o) (by rw [hcancelled, hturn, ho]), ?_⟩
          rw [State.fire_eq_self h.token hf]
          exact htimed
        · refine .inr ⟨_, State.step_of_stay (w := w) (by rw [hcancelled, hturn, hw]), ?_⟩
          rw [State.fire_eq_self h.token hf]
          obtain ⟨since', hrests⟩ := hrests
          exact ⟨hnext, _, since', .inl hrests⟩
      · exact .inl (h.over h.ahead (.inr ⟨heq, by
          rw [hturn, if_pos (Nat.le_of_eq (h.deadline.trans heq.symm))]⟩))

/-- A check that does not end at once is under way until it ends, the deadline or the
cancellation comes. -/
theorem OnTime.checks (h : OnTime t start k since s) (hcount : s.started.size = k + 1)
    (hnow : s.now = since) (hlt : s.now < t.deadline start) (hf : t.isFiredBy s.now = false)
    (he : (t.check k).endsBy since s.now = false) :
    let s' := { s with wait := { s.wait with phase := .inFlight (t.check k) since } }
    s.now < s'.next t ∧ Checking t start k since { s' with now := s'.next t } := by
  intro s'
  have hwakes : s'.wait.wakes =
      t.deadline start :: ((t.check k).duration.map (since + ·)).toList := by
    rw [← h.deadline]
    rfl
  have hlater : ∀ d, (t.check k).duration = some d → s.now < since + d := by
    intro d hd
    simpa [Check.endsBy, hd] using he
  obtain ⟨hle, hc, hwoken⟩ := State.next_spec (s := s') (t := t) h.token hf
    (by rw [hwakes]; nofun)
  rw [hwakes] at hle hwoken
  have hdeadline := hle _ List.mem_cons_self
  have hends : ∀ d, (t.check k).duration = some d → s'.next t ≤ since + d := by
    intro d hd
    exact hle _ (List.mem_cons_of_mem _ (by simp [hd]))
  have hcases : (∃ d, (t.check k).duration = some d ∧ s'.next t = since + d) ∨
      s'.next t = t.deadline start ∨ t.isFiredBy (s'.next t) = true := by
    rcases hwoken with hw | hw
    · rcases List.mem_cons.1 hw with hw | hw
      · exact .inr (.inl hw)
      · obtain ⟨d, hd, hw⟩ := Option.map_eq_some_iff.1 (Option.mem_toList.1 hw)
        exact .inl ⟨d, hd, hw.symm⟩
    · exact .inr (.inr hw)
  have hnext : s.now < s'.next t := by
    rcases hcases with ⟨d, hd, hw⟩ | hw | hw
    · rw [hw]
      exact hlater d hd
    · rw [hw]
      exact hlt
    · obtain ⟨c, hcat, hcn⟩ := Task.isFiredBy_eq_true.1 hw
      obtain ⟨-, hat, hafter⟩ := Task.of_not_isFiredBy hf
      exact Nat.lt_of_lt_of_le (hafter c (hat ▸ hcat)) hcn
  have hbegins := h.begins
  refine ⟨hnext, ⟨h.starts, h.before, h.begun, h.token, h.interval, h.deadline, ?_, hdeadline, ?_⟩,
    hcount, rfl, hends, ?_⟩
  · dsimp only
    omega
  · intro c hcat hcn
    have := hc c hcat
    dsimp only at hcn ⊢
    omega
  · refine hcases.imp_left ?_
    rintro ⟨d, hd, hw⟩
    exact (Option.any_eq_true ..).2 ⟨d, hd, decide_eq_true (Nat.le_of_eq hw.symm)⟩

/-- A check that is due is started. -/
theorem Resting.startsCheck (h : Resting t start k since s) (hnow : s.now = since)
    (hlt : s.now < t.deadline start) (hf : t.isFiredBy s.now = false)
    (hc : ∀ j, (t.check j).cancels = false) :
    OnTime t start k since (s.begins t) ∧ (s.begins t).started.size = k + 1 := by
  have hsize : (s.begins t).started.size = k + 1 := by
    rw [← h.count]
    exact Array.size_push ..
  refine ⟨⟨h.starts, h.before, ?_, ?_, h.interval, h.deadline, h.begins, h.ends,
    h.unmissed⟩, hsize⟩
  · have hlist : (s.begins t).started.toList = s.started.toList ++ [s.now] :=
      Array.toList_push ..
    have hlen : s.started.toList.length = k := h.count
    rw [hlist]
    exact h.begun.concat (by rw [hlen]; exact h.before) (by rw [hlen, hnow]; exact h.starts)
      hlt hf
  · have hcancelled : (s.begins t).cancelled =
        ((s.fire t).cancelled || (t.check s.started.size).cancels) := rfl
    rw [hcancelled, hc, Bool.or_false, State.fire_eq_self h.token hf, h.token]

theorem Resting.look (h : Resting t start k since s) (hi : 0 < t.interval.ceilMillis)
    (hc : ∀ j, (t.check j).cancels = false) : GoesOn t start s := by
  cases hf : t.isFiredBy s.now with
  | true => exact .inl (h.over h.ahead (.inl hf))
  | false =>
      have hcancelled : (s.fire t).cancelled = false := (State.fire_cancelled h.token).trans hf
      have hwake : ∀ {wake}, s.wait.phase = .resting wake → wake ≤ s.now := by
        intro wake hphase
        have hwoken := h.woken
        rcases h.phase with hp | hp
        · rw [hp] at hphase
          cases hphase
        · rw [hp] at hphase
          obtain rfl := Phase.resting.inj hphase
          simp only [hf, Bool.false_eq_true, or_false] at hwoken
          omega
      have hturn : s.wait.turn false s.now =
          if s.wait.deadline ≤ s.now then .over .timedOut else .ask := by
        rw [Wait.turn]
        rcases h.phase with hp | hp
        · rw [hp]
          rfl
        · rw [hp]
          dsimp only
          rw [if_neg Bool.false_ne_true, if_neg (Nat.not_lt.2 (hwake hp))]
      rcases Nat.lt_or_eq_of_le h.ends with hlt | heq
      · rw [if_neg (by rw [h.deadline]; omega)] at hturn
        obtain rfl : s.now = since :=
          h.woken.resolve_right fun hor => hor.elim (by omega) (by simp [hf])
        obtain ⟨hbegins, hsize⟩ := h.startsCheck rfl hlt hf hc
        have hfalse : (s.begins t).cancelled = false :=
          hbegins.token.trans (Task.of_not_isFiredBy hf).1
        have hask := State.step_of_ask (t := t) (s := s) (by rw [hcancelled, hturn])
        rw [h.count, hfalse] at hask
        cases he : (t.check k).endsBy s.now s.now with
        | true =>
            obtain ⟨d, hd, hle⟩ := (Option.any_eq_true ..).1 he
            have hzero : s.now = s.now + d :=
              Nat.le_antisymm (Nat.le_add_right ..) (of_decide_eq_true hle)
            rcases hbegins.answered hsize hd hzero hlt hf hi with
              ⟨o, ho, htimed⟩ | ⟨w, hw, hnext, since', hrests⟩
            · rw [ho] at hask
              exact .inl ⟨_, hask, htimed⟩
            · rw [hw] at hask
              exact .inr ⟨_, hask, hnext, _, since', .inl hrests⟩
        | false =>
            obtain ⟨hnext, hchecks⟩ := hbegins.checks hsize rfl hlt hf he
            have hstays : (t.check k).endsBy s.now (s.begins t).now = false := he
            rw [Wait.answer_of_running hstays] at hask
            exact .inr ⟨_, hask, hnext, k, _, .inr hchecks⟩
      · exact .inl (h.over h.ahead (.inr ⟨heq, by
          rw [hturn, if_pos (Nat.le_of_eq (h.deadline.trans heq.symm))]⟩))

/-! ## A whole wait -/

theorem resting_start (t : Task E) (start : Nat) :
    Resting t start 0 start (State.start t start) := by
  refine ⟨⟨rfl, nofun, ⟨nofun, nofun⟩, rfl, rfl, rfl, Nat.le_refl _, Nat.le_add_right .., ?_⟩,
    rfl, .inl rfl, Nat.le_refl _, .inl rfl⟩
  intro c _ hle
  exact (Nat.max_eq_left hle).symm

/-- One look for every instant until the deadline is enough. -/
theorem exists_timed_of_run (hi : 0 < t.interval.ceilMillis)
    (hc : ∀ j, (t.check j).cancels = false) {fuel : Nat}
    (h : ∃ k since, Resting t start k since s ∨ Checking t start k since s)
    (hfuel : t.deadline start < s.now + fuel) :
    ∃ r, s.run t fuel = some r ∧ t.Timed start r := by
  induction fuel generalizing s with
  | zero =>
      obtain ⟨k, since, h | h⟩ := h
      · exact absurd h.ends (by omega)
      · exact absurd h.ends (by omega)
  | succ fuel ih =>
      have hlook : GoesOn t start s := by
        obtain ⟨k, since, h | h⟩ := h
        · exact h.look hi hc
        · exact h.look hi
      rw [State.run]
      rcases hlook with ⟨r, hstep, htimed⟩ | ⟨s', hstep, hlt, hlater⟩
      · rw [hstep]
        exact ⟨r, rfl, htimed⟩
      · rw [hstep]
        exact ih hlater (by omega)

/-- A wait whose checks leave its cancellation alone ends within its turns, and it ends when and
as its timetable says. -/
theorem run_timed (t : Task E) (start instant : Nat) (hi : .zero < t.interval)
    (hc : ∀ k, (t.check k).cancels = false) :
    ∃ r, (State.start t start).run t (turns t instant) = some r ∧ t.Timed start r := by
  refine exists_timed_of_run (Duration.ceilMillis_pos hi) hc ⟨0, start, .inl (resting_start ..)⟩ ?_
  have hnow : (State.start t start).now = start := rfl
  rw [hnow, Task.deadline, turns]
  omega

/-- The third check finds its condition met, before the cancellation at nine tenths of a second. -/
theorem run_timed_third :
    let t : Task String :=
      ⟨.ofMillis 200, .ofSecs 1,
        fun k => ⟨false, some (if k = 0 then 100 else if k = 1 then 0 else 150),
          if k < 2 then .notYet else .ready⟩, false, some 900⟩
    .zero < t.interval ∧ (∀ k, (t.check k).cancels = false) ∧
      ∃ r, (State.start t 0).run t (turns t 0) = some r ∧ t.Timed 0 r ∧
        r.outcome = .ready ∧ r.ended = 650 ∧ r.started = [0, 300, 500] := by
  intro t
  have hi : .zero < t.interval := by decide
  have hc : ∀ k, (t.check k).cancels = false := fun _ => rfl
  obtain ⟨r, hr, htimed⟩ := run_timed t 0 0 hi hc
  have hthird : t.DecidesInTime 0 2 650 .ready :=
    ⟨⟨by decide, rfl, 500, 150, by decide +kernel, rfl, rfl⟩, by decide +kernel, by decide⟩
  obtain ⟨houtcome, hended, hcount⟩ := htimed.decided 2 650 .ready hthird
  have hstart : ∀ k since, k < 3 → t.startsAt? 0 k = some since → since < 900 →
      r.started[k]? = some since := fun k since hk hs hlt =>
    (htimed.started k since).2 ⟨fun j hj => hthird.1.before j (by omega), hs, Nat.lt_trans hlt
      (by decide), by simpa [Task.isFiredBy, Task.firesAt?, t] using hlt⟩
  refine ⟨hi, hc, r, hr, htimed, houtcome, hended, List.ext_getElem? fun k => ?_⟩
  match k with
  | 0 => exact hstart 0 0 (by decide) rfl (by decide)
  | 1 => exact hstart 1 300 (by decide) (by decide +kernel) (by decide)
  | 2 => exact hstart 2 500 (by decide) (by decide +kernel) (by decide)
  | k + 3 => rw [List.getElem?_eq_none (by omega), List.getElem?_eq_none (by simp)]

end Poll

end Lifecycle
