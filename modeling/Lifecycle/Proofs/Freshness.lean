import Lifecycle.Proofs.Cancellation

/-!
# Which configuration a controller has

A controller is handed the configuration of a call in one of two ways: it is made with
it, or, if it is there already, it is activated with it. `configuration_fresh` says
which way it is, that it is gone once, and whose configuration a controller was handed
last: that of the last call that listed its reference.

`Attempt.Gives` has what a call has handed over for a reference by the stage of its
attempt, next to what the call found there. The case to see is that of an attempt that
is done: it has handed over once, to the controller that the store has now. With that a
call at work is described by what there was before it and what it has given since, and
`UpToDate` carries the last gift from call to call. A call that its caller drops may
have left some of its targets alone; nothing is said about these until they are
listed again.
-/

namespace Lifecycle

variable {C T : Type}

/-- A configuration in the hands of a controller: it is made with it, or activated with it. -/
inductive Gift (C : Type) where
  | created (controller : String) (config : C)
  | activated (controller : String) (config : C)
  deriving DecidableEq

namespace Gift

def controller : Gift C → String
  | created n _ | activated n _ => n

def config : Gift C → C
  | created _ g | activated _ g => g

end Gift

variable [Targeted T]

/-- The gift that a happening is, with the reference whose controller gets it. -/
def Happening.gift? : Happening C T → Option (ResourceReference × Gift C)
  | .created n t g => some (reference t, .created n g)
  | .updated r n g => some (r, .activated n g)
  | _ => none

/-- The gift that an entry is for an activator and a reference, with the call that makes it. -/
def Entry.gift? (k : Nat) (r : ResourceReference) (e : Entry C T) : Option (Nat × Gift C) :=
  match e.scope, e.what.gift? with
  | some x, some (q, g) => if x.activator = k ∧ q = r then some (x.call, g) else none
  | _, _ => none

/-- What an activator has handed to the controllers of a reference, in the order of time. -/
def Trace.gifts (t : Trace C T) (k : Nat) (r : ResourceReference) : List (Nat × Gift C) :=
  t.reverse.filterMap (Entry.gift? k r)

section Gifts

variable {k : Nat} {r : ResourceReference} {s : Site C T} {x : Context C} {h : Happening C T}

theorem gifts_append (t t' : Trace C T) :
    Trace.gifts (t' ++ t) k r = Trace.gifts t k r ++ Trace.gifts t' k r := by
  rw [Trace.gifts, List.reverse_append, List.filterMap_append]
  rfl

theorem gifts_note_self {g : Gift C} (hk : x.scope.activator = k) (hg : h.gift? = some (r, g)) :
    Trace.gifts (s.note x h).trace k r = Trace.gifts s.trace k r ++ [(x.scope.call, g)] := by
  refine (gifts_append s.trace [⟨s.now, some x.scope, h⟩]).trans ?_
  simp [Trace.gifts, Entry.gift?, hg, hk]

theorem gifts_note_quiet (hg : h.gift? = none) :
    Trace.gifts (s.note x h).trace k r = Trace.gifts s.trace k r := by
  refine (gifts_append s.trace [⟨s.now, some x.scope, h⟩]).trans ?_
  simp [Trace.gifts, Entry.gift?, hg]

/-- Where nothing is handed over. -/
theorem gifts_append_quiet {t : Trace C T} (new : Trace C T)
    (h : ∀ e ∈ new, e.what.gift? = none) :
    Trace.gifts (new ++ t) k r = Trace.gifts t k r := by
  have hnone : Trace.gifts new k r = [] := by
    rw [Trace.gifts, List.filterMap_eq_nil_iff]
    intro e he
    rw [Entry.gift?, h e (List.mem_reverse.1 he)]
    cases e.scope <;> rfl
  rw [gifts_append, hnone, List.append_nil]

/-- What is handed over for others is not handed over for a call. -/
theorem filter_gifts_append {i : Nat} {t : Trace C T} (new : Trace C T)
    (h : ∀ e ∈ new, ∀ x, e.scope = some x → x.activator = k → x.call ≠ i) :
    (Trace.gifts (new ++ t) k r).filter (·.1 = i) = (Trace.gifts t k r).filter (·.1 = i) := by
  have hnone : (Trace.gifts new k r).filter (·.1 = i) = [] := by
    rw [List.filter_eq_nil_iff]
    intro p hp
    obtain ⟨e, he, hg⟩ := List.mem_filterMap.1 hp
    unfold Entry.gift? at hg
    split at hg
    · next x q g hx hw =>
        split at hg
        · next hk =>
            cases hg
            simpa using h e (List.mem_reverse.1 he) x hx hk.1
        · cases hg
    · cases hg
  rw [gifts_append, List.filter_append, hnone, List.append_nil]

theorem gifts_release (q : ResourceReference) (c : String) (free : Bool) :
    Trace.gifts (Attempt.release x q c free s).trace k r = Trace.gifts s.trace k r := by
  rcases Attempt.release_cases x q c free s with h | ⟨g, -, h⟩ <;> rw [h]
  exact (gifts_note_quiet rfl).trans (gifts_note_quiet rfl)

/-- Every gift is an act, so nothing is handed over where nothing is done. -/
theorem gifts_of_acts {t t' : Trace C T} (ht : t <:+ t')
    (ha : Trace.acts t' k r = Trace.acts t k r) : Trace.gifts t' k r = Trace.gifts t k r := by
  obtain ⟨new, rfl⟩ := ht
  rw [Trace.acts_append] at ha
  have hacts : Trace.acts new k r = [] := List.append_right_eq_self.1 ha
  have hnone : Trace.gifts new k r = [] := by
    rw [Trace.acts, List.filterMap_eq_nil_iff] at hacts
    rw [Trace.gifts, List.filterMap_eq_nil_iff]
    intro e he
    have hact := hacts e he
    unfold Entry.act? at hact
    unfold Entry.gift?
    cases hx : e.scope with
    | none => rfl
    | some x =>
        cases hw : e.what <;> simp_all [Happening.act?, Happening.gift?]
  rw [gifts_append, hnone, List.append_nil]

end Gifts

/-! ## What an attempt hands over -/

/-- What an attempt has handed over by now, with what its call found under its
reference and what there is. -/
def Attempt.Gives (i : Nat) (config : C) (found now : Option Holding)
    (given : List (Nat × Gift C)) (a : Attempt T) : Prop :=
  match a.stage with
  | .fresh => now = found ∧ given = []
  | .waiting _ => (found = none ∧ now = none) ∧ given = []
  | .registering c .. => (found = none ∧ now = none) ∧ given = [(i, .created c config)]
  | .done none _ => ∃ h, now = some h ∧ h.active ∧
      match found with
      | none => given = [(i, .created h.controller config)]
      | some h₀ => h.controller = h₀.controller ∧ given = [(i, .activated h₀.controller config)]
  | .done (some _) _ =>
    (found = none ∧ now = none) ∧ (given = [] ∨ ∃ n, given = [(i, .created n config)])

theorem Attempt.Step.gives {env : Collaborators C T} {x : Context C} {a b : Attempt T}
    {s s' : Site C T} (h : Attempt.Step env x (a, s) (b, s')) {k : Nat}
    (hk : x.scope.activator = k) {r : ResourceReference} (hr : a.reference = r)
    {found : Option Holding} {since given : List (Nat × Gift C)}
    (hg : Trace.gifts s.trace k r = since ++ given)
    (ha : a.Gives x.scope.call x.scope.config found (s.store.get? r) given) :
    ∃ given', Trace.gifts s'.trace k r = since ++ given' ∧
      b.Gives x.scope.call x.scope.config found (s'.store.get? r) given' := by
  subst hr
  have hquiet : ∀ {s : Site C T} {h : Happening C T}, h.gift? = none →
      Trace.gifts (s.note x h).trace k a.reference = Trace.gifts s.trace k a.reference :=
    gifts_note_quiet
  have hself : ∀ {s : Site C T} {h : Happening C T} {g : Gift C},
      Trace.gifts s.trace k a.reference = since ++ given →
      h.gift? = some (a.reference, g) →
      Trace.gifts (s.note x h).trace k a.reference = since ++ (given ++ [(x.scope.call, g)]) := by
    intro s h g hs hh
    rw [gifts_note_self hk hh, hs, List.append_assoc]
  unfold Attempt.Gives at ha
  cases h with
  | draw => exact ⟨given, hg, ha⟩
  | update hf hget =>
      rw [hf] at ha
      obtain ⟨hnow, rfl⟩ := ha
      rw [hget] at hnow
      subst hnow
      have hactive := Store.get?_activate s.store a.reference a.reference
      rw [hget, Option.map_some, if_pos rfl] at hactive
      exact ⟨_, hself hg rfl, _, hactive, rfl, rfl, rfl⟩
  | wait hf hget =>
      rw [hf] at ha
      obtain ⟨hnow, rfl⟩ := ha
      exact ⟨[], hg, ⟨hnow.symm.trans hget, hget⟩, rfl⟩
  | ask hw =>
      rw [hw] at ha
      exact ⟨given, hg, ha⟩
  | unaskable hw =>
      rw [hw] at ha
      exact ⟨given, (hquiet rfl).trans hg, ha.1, .inl ha.2⟩
  | probe hw =>
      rw [hw] at ha
      exact ⟨given, (hquiet (s := { s with fired := _ }) rfl).trans hg, ha⟩
  | giveUp hw =>
      rw [hw] at ha
      exact ⟨given, hg, ha.1, .inl ha.2⟩
  | expire hw =>
      rw [hw] at ha
      exact ⟨given, (hquiet rfl).trans hg, ha.1, .inl ha.2⟩
  | miss hw =>
      rw [hw] at ha
      exact ⟨given, (hquiet rfl).trans hg, ha⟩
  | fail hw =>
      rw [hw] at ha
      exact ⟨given, ((hquiet rfl).trans (hquiet rfl)).trans hg, ha.1, .inl ha.2⟩
  | create hw _ _ _ _ _ hs =>
      subst hs
      rw [hw] at ha
      obtain ⟨hnone, rfl⟩ := ha
      exact ⟨_, (hquiet rfl).trans (hself ((hquiet rfl).trans hg) rfl), hnone, rfl⟩
  | register hr hs =>
      rw [hr] at ha
      cases hs with
      | refused | cancel | wake => exact ⟨given, hg, ha⟩
      | spawn | spawnOr | synced => exact ⟨given, (hquiet rfl).trans hg, ha⟩
  | @install _ _ c _ _ _ hr =>
      rw [hr] at ha
      obtain ⟨⟨rfl, -⟩, rfl⟩ := ha
      have hget : (s.store.install a.reference c).get? a.reference =
          some ⟨a.reference, c, true⟩ := by rw [Store.get?_install, if_pos rfl]
      exact ⟨_, ((hquiet rfl).trans (hquiet rfl)).trans hg, _, hget, rfl, rfl⟩
  | refuse hr =>
      rw [hr] at ha
      refine ⟨given, ((hquiet rfl).trans ((gifts_release ..).trans (hquiet rfl))).trans hg,
        ⟨ha.1.1, ?_⟩, .inr ⟨_, ha.2⟩⟩
      exact (congrArg (Store.get? · a.reference) (Attempt.release_store ..)).trans ha.1.2
  | revoke hr =>
      rw [hr] at ha
      refine ⟨given, ((gifts_release ..).trans (hquiet rfl)).trans hg, ⟨ha.1.1, ?_⟩,
        .inr ⟨_, ha.2⟩⟩
      exact (congrArg (Store.get? · a.reference) (Attempt.release_store ..)).trans ha.1.2

/-! ## What a call hands over -/

/-- What a call that has ended has handed over for a reference: nothing if it does not
list it, and once, by an activation, if it found a controller there. Otherwise the
controller that it made, if it made one, was made with the configuration. -/
structure Call.Delivered (c : Call C T) (i : Nat) (r : ResourceReference)
    (found : Option Holding) (given : List (Nat × Gift C)) : Prop where
  unlisted : r ∉ c.targets.map reference → given = []
  known : r ∈ c.targets.map reference → ∀ h, found = some h →
    given = [(i, .activated h.controller c.config)]
  unknown : r ∈ c.targets.map reference → found = none →
    given = [] ∨ ∃ n, given = [(i, .created n c.config)]

namespace World

/-- What a call at work has handed over for a reference since its turn came. -/
def Giving (w : World C T) (k : Nat) (r : ResourceReference) (i : Nat) (c : Call C T)
    (found : Option Holding) (since : List (Nat × Gift C)) : Prop :=
  ∃ given, Trace.gifts w.trace k r = since ++ given ∧
    match (w.standing k r).attempt with
    | none => r ∉ c.targets.map reference ∧ given = [] ∧
        w.holding? k r = found.map fun h => { h with active := false }
    | some a => r ∈ c.targets.map reference ∧ a.Gives i c.config found (w.holding? k r) given

section Giving

variable {env : Collaborators C T} {m : Move C T} {w w' : World C T} {k i : Nat}
  {r : ResourceReference} {c : Call C T} {found : Option Holding} {since : List (Nat × Gift C)}

theorem giving_begun {a : Activator} (hw : w.Orderly) (hw' : (w.begun i c a).Orderly)
    (hf : w.find? i = some (c, a)) (hs : c.stage = .queued) (hh : a.queue.head? = some i)
    (r : ResourceReference) :
    (w.begun i c a).Giving c.activator r i c (w.holding? c.activator r)
      (Trace.gifts w.trace c.activator r) := by
  have hstanding := standing_begun hw hw' hf hs hh r
  have hholding : (w.begun i c a).holding? c.activator r = _ :=
    congrArg Standing.holding hstanding
  refine ⟨[], ?_, ?_⟩
  · rw [List.append_nil, begun, beginWork_eq]
    dsimp only [setStage, withSite]
    rw [← List.append_assoc]
    refine gifts_append_quiet _ fun e he => ?_
    rcases List.mem_append.1 he with he | he
    · obtain ⟨q, -, rfl⟩ := List.mem_map.1 (List.mem_reverse.1 he)
      rfl
    · obtain ⟨h, -, rfl⟩ := List.mem_map.1 (List.mem_reverse.1 he)
      rfl
  · rw [hholding, hstanding]
    have hwanted := Standing.isSome_attempt_begun (w.standing c.activator r) i c.targets r
    cases ha : ((w.standing c.activator r).begun i c.targets r).attempt with
    | none =>
        rw [ha] at hwanted
        have hr : r ∉ c.targets.map reference := fun hr => by simpa using hwanted.2 hr
        refine ⟨hr, rfl, ?_⟩
        simp only [Standing.begun, if_neg hr]
        rfl
    | some u =>
        rw [ha] at hwanted
        have hr : r ∈ c.targets.map reference := hwanted.1 rfl
        refine ⟨hr, ?_⟩
        unfold Attempt.Gives
        rw [Standing.stage_begun ha]
        refine ⟨?_, rfl⟩
        simp only [Standing.begun, if_pos hr]
        exact Option.map_id'

/-- As long as it is at work, a call goes on giving. -/
theorem giving_step (h : Step env m w w') (hw : w.Orderly)
    (hi : (w.standing k r).call = some i) (hi' : (w'.standing k r).call = some i)
    (hc : ∀ d, w.calls[i]? = some d → d.config = c.config) (hg : w.Giving k r i c found since) :
    w'.Giving k r i c found since := by
  cases h.effect hw k r with
  | same heq =>
      obtain ⟨given, hgiven, ha⟩ := hg
      refine ⟨given, (gifts_of_acts h.trace_suffix (congrArg Standing.acts heq)).trans hgiven, ?_⟩
      have hholding : w'.holding? k r = w.holding? k r := congrArg Standing.holding heq
      rw [heq, hholding]
      exact ha
  | begin _ _ _ hn =>
      rw [World.standing, hn] at hi
      cases hi
  | look hf _ hk _ hr hp hput hst hst' =>
      rw [hst] at hi
      cases hi
      obtain ⟨given, hgiven, ha⟩ := hg
      have hholding : w.holding? k r = _ := congrArg Standing.holding hst
      have hholding' : w'.holding? k r = _ := congrArg Standing.holding hst'
      rw [hst, hholding] at ha
      obtain ⟨hwanted, hgives⟩ := ha
      rw [← hc _ (find?_eq_some.1 hf).1] at hgives
      obtain ⟨given', hgiven', hgives'⟩ := hp.gives hk hr hgiven hgives
      subst hput
      refine ⟨given', hgiven', ?_⟩
      rw [hst', hholding', ← hc _ (find?_eq_some.1 hf).1]
      exact ⟨hwanted, hgives'⟩
  | close _ _ heq | drop _ _ _ heq =>
      rw [heq] at hi'
      cases hi'

/-- A call whose attempts are done has handed over what it was to. -/
theorem Giving.delivered (hg : w.Giving k r i c found since) (hsince : ∀ p ∈ since, p.1 ≠ i)
    (hd : ∀ a, (w.standing k r).attempt = some a → a.isDone) :
    c.Delivered i r found ((Trace.gifts w.trace k r).filter (·.1 = i)) := by
  obtain ⟨given, hgiven, ha⟩ := hg
  have hnone : since.filter (·.1 = i) = [] := by
    rw [List.filter_eq_nil_iff]
    intro p hp
    simpa using hsince p hp
  rw [hgiven, List.filter_append, hnone, List.nil_append]
  split at ha
  · obtain ⟨hr, rfl, -⟩ := ha
    exact ⟨fun _ => rfl, fun h => absurd h hr, fun h => absurd h hr⟩
  · next a heq =>
      obtain ⟨hr, ha⟩ := ha
      obtain ⟨cause, time, hst⟩ := Attempt.isDone_iff.1 (hd a heq)
      unfold Attempt.Gives at ha
      rw [hst] at ha
      refine ⟨fun h => absurd hr h, fun _ h hf => ?_, fun _ hf => ?_⟩
      · subst hf
        cases cause with
        | none =>
            obtain ⟨h', -, -, -, rfl⟩ := ha
            simp
        | some cause => cases ha.1.1
      · subst hf
        cases cause with
        | none =>
            obtain ⟨h', -, -, rfl⟩ := ha
            exact .inr ⟨h'.controller, by simp⟩
        | some cause =>
            rcases ha.2 with rfl | ⟨n, rfl⟩
            · exact .inl rfl
            · exact .inr ⟨n, by simp⟩

/-- A call from its turn on: at work it goes on giving, and when it has ended it has
delivered. -/
structure Delivering (w : World C T) (k : Nat) (r : ResourceReference) (i : Nat) (c : Call C T)
    (found : Option Holding) (since : List (Nat × Gift C)) : Prop where
  call : ∃ d, w.calls[i]? = some d ∧ d.activator = k ∧ d.config = c.config ∧ d.hasBegun
  working : (w.standing k r).call = some i → w.Giving k r i c found since
  ended : (w.standing k r).call ≠ some i → (∃ d t, w.calls[i]? = some d ∧ d.stage = .dropped t) ∨
    c.Delivered i r found ((Trace.gifts w.trace k r).filter (·.1 = i))

theorem delivering_step (h : Step env m w w') (hw : w.Orderly) (hsince : ∀ p ∈ since, p.1 ≠ i)
    (hd : w.Delivering k r i c found since) : w'.Delivering k r i c found since := by
  obtain ⟨d, hcall, hk, hconfig, hbegun⟩ := hd.call
  have hhas : w.hasBegun i := by rw [World.hasBegun, hcall, Option.any_some, hbegun]
  obtain ⟨d', hcall', hlater⟩ := h.later hcall
  -- A call that has begun is not at work again once it is over.
  have hback : (w'.standing k r).call = some i → (w.standing k r).call = some i := by
    intro hi'
    cases h.effect hw k r with
    | same heq => rwa [heq] at hi'
    | begin _ _ _ _ heq =>
        rw [heq] at hi'
        cases hi'
        rw [h.hasBegun_begin.2.1] at hhas
        cases hhas
    | look _ _ _ _ _ _ _ hst hst' =>
        rw [hst'] at hi'
        rwa [hst]
    | close _ _ heq | drop _ _ _ heq =>
        rw [heq] at hi'
        cases hi'
  refine ⟨⟨d', hcall', hlater.activator.trans hk, hlater.config.trans hconfig,
    hlater.begun hbegun⟩, fun hi' => ?_, fun hi' => ?_⟩
  · refine giving_step h hw (hback hi') hi' (fun e he => ?_) (hd.working (hback hi'))
    rw [hcall] at he
    cases he
    exact hconfig
  · by_cases hi : (w.standing k r).call = some i
    · -- The call ends, or is dropped.
      cases h.effect hw k r with
      | same heq =>
          rw [heq] at hi'
          exact absurd hi hi'
      | begin _ _ _ hn =>
          rw [World.standing, hn] at hi
          cases hi
      | look _ _ _ _ _ _ _ hst hst' =>
          rw [hst] at hi
          rw [hst'] at hi'
          exact absurd hi hi'
      | close hwork hdone heq =>
          have hgifts := gifts_of_acts h.trace_suffix (congrArg Standing.acts heq)
          rw [hgifts]
          refine .inr ((hd.working hi).delivered hsince fun a ha => ?_)
          rw [World.standing, hwork] at ha
          exact List.all_eq_true.1 hdone a (List.mem_of_find?_eq_some ha)
      | drop hwork hc hs =>
          rw [World.standing, hwork] at hi
          cases hi
          exact .inl ⟨_, _, hc, hs⟩
    · rcases hd.ended hi with ⟨e, t, he, hs⟩ | hdelivered
      · rw [hcall] at he
        cases he
        exact .inl ⟨d', t, hcall', (hlater.ended (by simp [Call.isOver, hs])).trans hs⟩
      · right
        obtain ⟨new, y, hnoted⟩ := h.noted
        rw [hnoted.trace, filter_gifts_append]
        · exact hdelivered
        · intro e he x hx hxk hxi
          rw [hnoted.scope e he] at hx
          subst hx
          obtain ⟨c₁, a₁, hf, hc₁, rfl | ⟨as, hs⟩⟩ := hnoted.call x rfl
          · rw [hxi] at h
            rw [h.hasBegun_begin.2.1] at hhas
            cases hhas
          · have hwork := (atWork_eq_some_iff hw).2 ⟨c₁, a₁, hf, hc₁.trans hxk, hs⟩
            rw [hxi] at hwork
            exact hi (by rw [World.standing, hwork]; rfl)

/-- A call that has ended is not at work. -/
theorem standing_call_ne_of_ended (hw : w.Orderly) {d : Call C T} {us : List (Attempt T)}
    {time : Nat} (hd : w.calls[i]? = some d) (hs : d.stage = .ended us time) (k : Nat)
    (r : ResourceReference) : (w.standing k r).call ≠ some i := by
  intro hi
  obtain ⟨⟨j, as⟩, hwork, rfl⟩ := Option.map_eq_some_iff.1 hi
  obtain ⟨c', a', hf, -, hst⟩ := (atWork_eq_some_iff hw).1 hwork
  rw [(find?_eq_some.1 hf).1] at hd
  cases hd
  rw [hs] at hst
  cases hst

/-- A call begins to deliver when its turn comes. -/
theorem delivering_begin (env : Collaborators C T) {v : World C T} (hv : v.Orderly)
    (hturn : v.hasTurn i) (hc : v.calls[i]? = some c) (r : ResourceReference) :
    (v.begin i).Delivering c.activator r i c (v.holding? c.activator r)
      (Trace.gifts v.trace c.activator r) := by
  obtain ⟨c', a, hf, hst, hh⟩ := hasTurn_iff.1 hturn
  obtain rfl : c' = c := Option.some.inj ((find?_eq_some.1 hf).1.symm.trans hc)
  have hstep : Step env (.begin i) v (v.begun i c' a) := .begin hf hst hh
  have hv' := orderly_step hstep hv
  have hcall : ((v.begun i c' a).standing c'.activator r).call = some i := by
    rw [standing_begun hv hv' hf hst hh]
    rfl
  have hgiving := giving_begun hv hv' hf hst hh r
  obtain ⟨e, he, hlater⟩ := hstep.later hc
  rw [begin_eq_begun hf hst hh]
  refine ⟨⟨e, he, hlater.activator, hlater.config, ?_⟩, fun _ => hgiving, fun h => ?_⟩
  · have hhas := hstep.hasBegun_begin.2.2
    rwa [World.hasBegun, he, Option.any_some] at hhas
  · exact absurd hcall h

end Giving

/-! ## Whose configuration it is -/

/-- Whether a call lists a reference. -/
def lists (w : World C T) (r : ResourceReference) (i : Nat) : Bool :=
  w.calls[i]?.any fun c => decide (r ∈ c.targets.map reference)

/-- The holding of a reference next to the last call that lists it, after some calls have
had their turns: the controller was handed the configuration of that call last, unless
the call was dropped. -/
def Latest (w : World C T) (r : ResourceReference) (order : List Nat)
    (gifts : List (Nat × Gift C)) (now : Option Holding) : Prop :=
  ∀ h, now = some h → ∃ l d, (order.filter (w.lists r)).getLast? = some l ∧
    w.calls[l]? = some d ∧ (h.active → order.getLast? = some l) ∧
    ((∃ t, d.stage = .dropped t) ∨ (order.getLast? = some l → h.active) ∧
      ∃ g : Gift C, gifts.getLast? = some (l, g) ∧ g.controller = h.controller ∧
        g.config = d.config)

section Latest

variable {env : Collaborators C T} {m : Move C T} {w w' : World C T} {k i : Nat}
  {r : ResourceReference} {order : List Nat} {gifts : List (Nat × Gift C)} {now : Option Holding}

theorem Step.lists_eq (h : Step env m w w') {l : Nat} {d : Call C T} (hl : w.calls[l]? = some d)
    (r : ResourceReference) : w'.lists r l = w.lists r l := by
  obtain ⟨d', hd', hlater⟩ := h.later hl
  rw [lists, lists, hl, hd', Option.any_some, Option.any_some, hlater.targets]

theorem Latest.step (h : Step env m w w') (hn : ∀ l ∈ order, w.hasBegun l)
    (hl : w.Latest r order gifts now) : w'.Latest r order gifts now := by
  intro x hx
  obtain ⟨l, d, hlast, hd, hactive, hgift⟩ := hl x hx
  obtain ⟨d', hd', hlater⟩ := h.later hd
  have hfilter : order.filter (w'.lists r) = order.filter (w.lists r) := by
    refine List.filter_congr fun j hj => ?_
    obtain ⟨e, he, -⟩ := (Option.any_eq_true ..).1 (hn j hj)
    exact h.lists_eq he r
  refine ⟨l, d', hfilter ▸ hlast, hd', hactive, ?_⟩
  rcases hgift with ⟨t, ht⟩ | ⟨hback, g, hg, hc, hconfig⟩
  · exact .inl ⟨t, (hlater.ended (by simp [Call.isOver, ht])).trans ht⟩
  · exact .inr ⟨hback, g, hg, hc, hconfig.trans hlater.config.symm⟩

/-- A call that does not list a reference leaves it with the call that was the last one. -/
theorem Latest.unlisted (hl : w.Latest r order gifts now) (hi : w.lists r i = false) :
    w.Latest r (order ++ [i]) gifts (now.map fun h => { h with active := false }) := by
  intro x hx
  obtain ⟨y, rfl, rfl⟩ := Option.map_eq_some_iff.1 hx
  obtain ⟨l, d, hlast, hd, -, hgift⟩ := hl y rfl
  have hfilter : (order ++ [i]).filter (w.lists r) = order.filter (w.lists r) := by simp [hi]
  have hne : (order ++ [i]).getLast? ≠ some l := by
    rw [List.getLast?_concat]
    intro heq
    have hmem := List.mem_of_getLast? hlast
    rw [← Option.some.inj heq, List.mem_filter, hi] at hmem
    cases hmem.2
  refine ⟨l, d, hfilter ▸ hlast, hd, by simp, hgift.imp_right fun ⟨_, hg⟩ => ⟨?_, hg⟩⟩
  exact fun h => absurd h hne

/-- A call that lists a reference is the last one from then on. -/
theorem Latest.listed {d : Call C T} (hd : w.calls[i]? = some d)
    (hi : r ∈ d.targets.map reference)
    (h : ∀ h, now = some h → (∃ t, d.stage = .dropped t) ∨ h.active ∧
      ∃ g : Gift C, gifts.getLast? = some (i, g) ∧ g.controller = h.controller ∧
        g.config = d.config) :
    w.Latest r (order ++ [i]) gifts now := by
  intro x hx
  have hlists : w.lists r i = true := by
    rw [lists, hd]
    simpa using hi
  refine ⟨i, d, by simp [hlists], hd, by simp, (h x hx).imp_right fun ⟨ha, hg⟩ => ⟨fun _ => ha, hg⟩⟩

/-- What a call leaves behind when it is over. -/
theorem Giving.latest {v : World C T} {d d' : Call C T} {found : Option Holding}
    {since : List (Nat × Gift C)} (hg : w.Giving k r i d found since)
    (hl : v.Latest r order since found) (hd : v.calls[i]? = some d') (hlater : d.Later d')
    (hend : (∃ t, d'.stage = .dropped t) ∨
      ∀ a, (w.standing k r).attempt = some a → a.isDone) :
    v.Latest r (order ++ [i]) (Trace.gifts w.trace k r) (w.holding? k r) := by
  obtain ⟨given, hgiven, ha⟩ := hg
  rw [hgiven]
  split at ha
  · obtain ⟨hr, rfl, hnow⟩ := ha
    rw [List.append_nil, hnow]
    refine hl.unlisted ?_
    rw [lists, hd]
    simpa [hlater.targets] using hr
  · next a heq =>
      obtain ⟨hr, ha⟩ := ha
      refine Latest.listed hd (hlater.targets ▸ hr) fun h hnow => ?_
      rcases hend with hdropped | hdone
      · exact .inl hdropped
      · obtain ⟨cause, time, hst⟩ := Attempt.isDone_iff.1 (hdone a heq)
        unfold Attempt.Gives at ha
        rw [hst] at ha
        rw [hnow] at ha
        cases cause with
        | some cause => cases ha.1.2
        | none =>
            obtain ⟨h', heq', hactive, hgift⟩ := ha
            cases heq'
            refine .inr ⟨hactive, ?_⟩
            cases found with
            | none =>
                subst hgift
                exact ⟨_, List.getLast?_concat .., rfl, hlater.config.symm⟩
            | some h₀ =>
                obtain ⟨hc, rfl⟩ := hgift
                exact ⟨_, List.getLast?_concat .., hc.symm, hlater.config.symm⟩

/-- The last configurations of the controllers of a reference, in the midst of a run in
which some calls of the activator have had their turns. -/
structure UpToDate (k : Nat) (r : ResourceReference) (order : List Nat) (w : World C T) :
    Prop where
  taken : Taken k order w
  idle : (w.standing k r).call = none →
    w.Latest r order (Trace.gifts w.trace k r) (w.holding? k r)
  working : ∀ i, (w.standing k r).call = some i → ∃ c d earlier found since,
    order = earlier ++ [i] ∧ w.calls[i]? = some d ∧ c.Later d ∧
    w.Giving k r i c found since ∧ w.Latest r earlier since found

/-- What a call at work is, it is after a step that leaves it at work. -/
theorem UpToDate.goes_on (hu : w.UpToDate k r order) (h : Step env m w w') (hw : w.Orderly)
    (hi : (w.standing k r).call = some i) (hi' : (w'.standing k r).call = some i) :
    ∃ c d earlier found since, order = earlier ++ [i] ∧ w'.calls[i]? = some d ∧ c.Later d ∧
      w'.Giving k r i c found since ∧ w'.Latest r earlier since found := by
  obtain ⟨c, d, earlier, found, since, rfl, hd, hlater, hg, hl⟩ := hu.working i hi
  obtain ⟨d', hd', hlater'⟩ := h.later hd
  have hbegun : ∀ l ∈ earlier, w.hasBegun l :=
    fun l hl => (hu.taken.begun l (List.mem_append_left _ hl)).2
  have hconfig : ∀ e, w.calls[i]? = some e → e.config = c.config := by
    intro e he
    rw [hd] at he
    cases he
    exact hlater.config
  exact ⟨c, d', earlier, found, since, rfl, hd', hlater.trans hlater',
    giving_step h hw hi hi' hconfig hg, hl.step h hbegun⟩

/-- A step that changes nothing about the reference. -/
theorem UpToDate.same (hu : w.UpToDate k r order) (h : Step env m w w') (hw : w.Orderly)
    (htaken : Taken k order w') (heq : w'.standing k r = w.standing k r) :
    w'.UpToDate k r order := by
  refine ⟨htaken, fun hnone => ?_, fun i hi => hu.goes_on h hw (heq ▸ hi) hi⟩
  have hgifts : Trace.gifts w'.trace k r = Trace.gifts w.trace k r :=
    gifts_of_acts h.trace_suffix (congrArg Standing.acts heq)
  have hholding : w'.holding? k r = w.holding? k r := congrArg Standing.holding heq
  rw [hgifts, hholding]
  exact (hu.idle (heq ▸ hnone)).step h fun l hl => (hu.taken.begun l hl).2

/-- A call begins with what the calls before it have left. -/
theorem UpToDate.begin (hu : w.UpToDate k r order) (h : Step env (.begin i) w w')
    (hw : w.Orderly) (hi : w.isOn k i) (htaken : Taken k (order ++ [i]) w') :
    w'.UpToDate k r (order ++ [i]) := by
  have hw' := orderly_step h hw
  cases id h with
  | @begin _ _ c a hf hs hh =>
      obtain ⟨c', hc', rfl⟩ := isOn_iff.1 hi
      have hc := (find?_eq_some.1 hf).1
      obtain rfl : c' = c := Option.some.inj (hc'.symm.trans hc)
      have hidle := atWork_of_queued hw hf hs hh
      have hcall : ((w.begun i c' a).standing c'.activator r).call = some i := by
        rw [standing_begun hw hw' hf hs hh]
        rfl
      refine ⟨htaken, fun hnone => ?_, fun j hj => ?_⟩
      · rw [hcall] at hnone
        cases hnone
      · rw [hcall] at hj
        cases hj
        obtain ⟨d, hd, hlater⟩ := h.later hc'
        have hl := hu.idle (by rw [World.standing, hidle]; rfl)
        exact ⟨c', d, order, _, _, rfl, hd, hlater, giving_begun hw hw' hf hs hh r,
          hl.step h fun l hl => (hu.taken.begun l hl).2⟩

/-- The call at work is over, with its attempts done or given up. -/
theorem UpToDate.left (hu : w.UpToDate k r order) (h : Step env m w w')
    (htaken : Taken k order w') {d' : Call C T} (hi : (w.standing k r).call = some i)
    (hd' : w'.calls[i]? = some d') (heq : w'.standing k r = (w.standing k r).left)
    (hend : (∃ t, d'.stage = .dropped t) ∨
      ∀ a, (w.standing k r).attempt = some a → a.isDone) :
    w'.UpToDate k r order := by
  have hnone : (w'.standing k r).call = none := by
    rw [heq]
    rfl
  refine ⟨htaken, fun _ => ?_, fun j hj => ?_⟩
  · obtain ⟨c, d, earlier, found, since, rfl, hd, hlater, hg, hl⟩ := hu.working i hi
    obtain ⟨d₁, hd₁, hlater₁⟩ := h.later hd
    obtain rfl : d₁ = d' := Option.some.inj (hd₁.symm.trans hd')
    have hgifts : Trace.gifts w'.trace k r = Trace.gifts w.trace k r :=
      gifts_of_acts h.trace_suffix (congrArg Standing.acts heq)
    have hholding : w'.holding? k r = w.holding? k r := congrArg Standing.holding heq
    rw [hgifts, hholding]
    refine hg.latest (hl.step h fun l hl => ?_) hd' (hlater.trans hlater₁) hend
    exact (hu.taken.begun l (List.mem_append_left _ hl)).2
  · rw [hnone] at hj
    cases hj

theorem upToDate_step (h : Step env m w w') (hw : w.Orderly) (hu : w.UpToDate k r order) :
    w'.UpToDate k r (order ++ (w.turn k m).map Prod.fst) := by
  have htaken := taken_step h hw hu.taken
  by_cases hm : ∃ i, m = .begin i ∧ w.isOn k i
  · obtain ⟨i, rfl, hi⟩ := hm
    obtain ⟨hturn, -, -⟩ := h.hasBegun_begin
    have heq : w.turn k (.begin i) = [(i, w.now)] := if_pos ⟨hturn, hi⟩
    rw [heq] at htaken ⊢
    exact hu.begin h hw hi htaken
  · have hturn : w.turn k m = [] := turn_eq_nil fun i hi _ ho => hm ⟨i, hi, ho⟩
    rw [hturn, List.map_nil, List.append_nil] at htaken ⊢
    cases h.effect hw k r with
    | same heq => exact hu.same h hw htaken heq
    | begin hc _ hk => exact absurd ⟨_, rfl, isOn_iff.2 ⟨_, hc, hk⟩⟩ hm
    | look _ _ _ _ _ _ _ hst hst' =>
        refine ⟨htaken, fun hnone => ?_, fun i hi => ?_⟩
        · rw [hst'] at hnone
          cases hnone
        · refine hu.goes_on h hw ?_ hi
          rw [hst]
          rwa [hst'] at hi
    | close hwork hdone heq =>
        have hi := congrArg (Option.map Prod.fst) hwork
        obtain ⟨c, d, -, -, -, -, hd, -⟩ := hu.working _ hi
        obtain ⟨d', hd', -⟩ := h.later hd
        refine hu.left h htaken hi hd' heq (.inr fun a ha => ?_)
        rw [World.standing, hwork] at ha
        exact List.all_eq_true.1 hdone a (List.mem_of_find?_eq_some ha)
    | drop hwork hc hs heq =>
        exact hu.left h htaken (congrArg (Option.map Prod.fst) hwork) hc heq (.inl ⟨_, hs⟩)

/-- When the last call that had its turn is not at work, everything is up to date. -/
theorem UpToDate.latest (hu : w.UpToDate k r order)
    (hlast : order.getLast? = some i) (hover : (w.standing k r).call ≠ some i) :
    w.Latest r order (Trace.gifts w.trace k r) (w.holding? k r) := by
  refine hu.idle ?_
  cases hj : (w.standing k r).call with
  | none => rfl
  | some j =>
      obtain ⟨⟨l, as⟩, hwork, rfl⟩ := Option.map_eq_some_iff.1 hj
      have hl := hu.taken.last l as hwork
      rw [hlast] at hl
      exact absurd (hj.trans hl.symm) hover

end Latest

/-! ## Every run -/

/-- Nothing has been handed over for a call before its turn. -/
theorem Taken.ne_of_mem_gifts {k : Nat} {order : List Nat} {w : World C T} (ht : Taken k order w)
    {i l : Nat} (hi : w.hasBegun i = false) {r : ResourceReference} :
    ∀ p ∈ Trace.gifts w.trace l r, p.1 ≠ i := by
  rintro p hp rfl
  obtain ⟨e, he, hg⟩ := List.mem_filterMap.1 hp
  unfold Entry.gift? at hg
  split at hg
  · next x q g hx hw =>
      split at hg
      · cases hg
        have hbegun := (ht.known e (List.mem_reverse.1 he) x hx).2
        rw [hi] at hbegun
        cases hbegun
      · cases hg
  · cases hg

theorem upToDate_play (env : Collaborators C T) (policies : List (String × Policy)) (k : Nat)
    (r : ResourceReference) (ms : List (Move C T)) :
    ((ofActivators policies).play env ms).UpToDate k r
      ((turns env k (ofActivators policies) ms).map Prod.fst) := by
  have hstart : (ofActivators policies : World C T).UpToDate k r [] := by
    refine ⟨taken_ofActivators policies k, fun _ h hh => ?_, fun i hi => ?_⟩
    · rw [show (ofActivators policies : World C T).holding? k r = none from
        congrArg Standing.holding (standing_ofActivators policies k r)] at hh
      cases hh
    · rw [standing_ofActivators] at hi
      cases hi
  exact invariant_of_turns upToDate_step ms (orderly_ofActivators policies) hstart

/-- The controllers of an activator when a call has ended and no later one has begun:
those that are active were handed its configuration last, and those that are not that
of the last call that listed them, unless that one was dropped. -/
structure Configured (w : World C T) (k : Nat) (order : List Nat) (i : Nat) (config : C) :
    Prop where
  active : ∀ r h, w.holding? k r = some h → h.active →
    ∃ g : Gift C, (Trace.gifts w.trace k r).getLast? = some (i, g) ∧
      g.controller = h.controller ∧ g.config = config
  inactive : ∀ r h, w.holding? k r = some h → h.active = false →
    ∃ l d, (order.filter (w.lists r)).getLast? = some l ∧ w.calls[l]? = some d ∧
      ((∀ t, d.stage ≠ .dropped t) →
        ∃ g : Gift C, (Trace.gifts w.trace k r).getLast? = some (l, g) ∧
          g.controller = h.controller ∧ g.config = d.config)

/-- Whatever calls are made on an activator, whatever becomes of them, and however their
moves are mixed: a call that has ended has handed its configuration once to every
controller that it found under its targets, by an activation, and to none that it made
but by making it; and until the next turn all controllers have the latest configuration. -/
theorem configuration_fresh {env : Collaborators C T} {policies : List (String × Policy)}
    {ms ms' : List (Move C T)} {i : Nat} {c d : Call C T} {us : List (Attempt T)} {time : Nat} :
    let start : World C T := ofActivators policies
    let v := start.play env ms
    let w := start.play env (ms ++ .begin i :: ms')
    let order := (turns env c.activator start (ms ++ .begin i :: ms')).map Prod.fst
    v.hasTurn i → v.calls[i]? = some c → w.calls[i]? = some d → d.stage = .ended us time →
      (∀ r, c.Delivered i r (v.holding? c.activator r)
        ((Trace.gifts w.trace c.activator r).filter (·.1 = i))) ∧
      (order.getLast? = some i → w.Configured c.activator order i c.config) := by
  intro start v w order hturn hc hd hs
  have hv : v.Orderly := orderly_play ms (orderly_ofActivators policies)
  have hw : w.Orderly := orderly_play _ (orderly_ofActivators policies)
  have hbegun : (v.play env [.begin i]).Orderly := orderly_play [.begin i] hv
  have hplay : w = (v.begin i).play env ms' := play_append env start ms (.begin i :: ms')
  have hover := standing_call_ne_of_ended hw hd hs
  refine ⟨fun r => ?_, fun hlast => ?_⟩
  · have hnone : v.hasBegun i = false := by
      obtain ⟨c', a, hf, hst, -⟩ := hasTurn_iff.1 hturn
      rw [World.hasBegun, (find?_eq_some.1 hf).1, Option.any_some, Call.hasBegun, hst]
    have hsince : ∀ p ∈ Trace.gifts v.trace c.activator r, p.1 ≠ i :=
      (taken_play ms (orderly_ofActivators policies)
        (taken_ofActivators policies c.activator)).ne_of_mem_gifts hnone
    have hdelivering : w.Delivering c.activator r i c (v.holding? c.activator r)
        (Trace.gifts v.trace c.activator r) := by
      rw [hplay]
      exact invariant_of_orderly (A := fun _ => True)
        (fun _ h hw hd => delivering_step h hw hsince hd) (fun _ _ => trivial)
        hbegun (delivering_begin env hv hturn hc r)
    rcases hdelivering.ended (hover _ r) with ⟨f, t, hf', hdropped⟩ | hdelivered
    · rw [hd] at hf'
      cases hf'
      rw [hs] at hdropped
      cases hdropped
    · exact hdelivered
  · obtain ⟨e, he, hlater⟩ := later_play env hc (.begin i :: ms')
    rw [← play_append] at he
    obtain rfl : e = d := Option.some.inj (he.symm.trans hd)
    have hlatest : ∀ r, w.Latest r order (Trace.gifts w.trace c.activator r)
        (w.holding? c.activator r) := fun r =>
      (upToDate_play env policies c.activator r _).latest hlast (hover _ r)
    refine ⟨fun r h hh hactive => ?_, fun r h hh hinactive => ?_⟩
    · obtain ⟨l, f, -, hf, hl, hgift⟩ := hlatest r h hh
      obtain rfl : i = l := Option.some.inj (hlast.symm.trans (hl hactive))
      obtain rfl : f = e := Option.some.inj (hf.symm.trans hd)
      rcases hgift with ⟨t, ht⟩ | ⟨-, g, hg, hcontroller, hconfig⟩
      · rw [hs] at ht
        cases ht
      · exact ⟨g, hg, hcontroller, hconfig.trans hlater.config⟩
    · obtain ⟨l, f, hfilter, hf, -, hgift⟩ := hlatest r h hh
      refine ⟨l, f, hfilter, hf, fun hdropped => ?_⟩
      rcases hgift with ⟨t, ht⟩ | ⟨-, hg⟩
      · exact absurd ht (hdropped t)
      · exact hg

/-- The second of two calls gives up one target of the first, keeps one that it lists
twice, and brings a new one. -/
theorem configuration_fresh_second :
    let policies := [("widgets", Policy.default)]
    let start : World String ResourceReference := ofActivators policies
    let ms := [.submit [.plain 0 "v1" ["a", "b"]], .join 0, .begin 0, .look 0 1, .look 0 0,
      .close 0, .submit [.plain 0 "v2" ["b", "c", "b"]], .join 1]
    let ms' := [.look 1 1, .look 1 0, .close 1]
    let v := start.play .prompt ms
    let w := start.play .prompt (ms ++ .begin 1 :: ms')
    let order := (turns .prompt 0 start (ms ++ .begin 1 :: ms')).map Prod.fst
    let c : Call String ResourceReference :=
      ⟨0, "v2", [.plain "b", .plain "c", .plain "b"], false, .queued⟩
    ∃ d us time, v.hasTurn 1 ∧ v.calls[1]? = some c ∧ w.calls[1]? = some d ∧
      d.stage = .ended us time ∧ order.getLast? = some 1 ∧
      (∀ r, c.Delivered 1 r (v.holding? 0 r) ((Trace.gifts w.trace 0 r).filter (·.1 = 1))) ∧
      w.Configured 0 order 1 "v2" := by
  intro policies start ms ms' v w order c
  have hturn : v.hasTurn 1 := by decide +kernel
  have hc : v.calls[1]? = some c := by decide +kernel
  have hlast : order.getLast? = some 1 := by decide +kernel
  have hended : w.calls[1]?.any fun d => d.isOver ∧ d.attempts.length = 2 := by decide +kernel
  obtain ⟨d, hd, hover⟩ := (Option.any_eq_true ..).1 hended
  obtain ⟨us, time, hs⟩ : ∃ us time, d.stage = .ended us time := by
    cases hs : d.stage <;> simp_all [Call.isOver, Call.attempts]
  obtain ⟨hdelivered, hconfigured⟩ := configuration_fresh hturn hc hd hs
  exact ⟨d, us, time, hturn, hc, hd, hs, hlast, hdelivered, hconfigured hlast⟩

end World

end Lifecycle
