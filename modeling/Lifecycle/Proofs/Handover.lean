import Lifecycle.Proofs.Freshness
import Lifecycle.Proofs.Separation

/-!
# Which target a controller was handed

A controller is handed its target when it is made. A call that finds it there hands over
its configuration and nothing else, so what such a call lists under the reference of the
controller does not reach it: `settings_stay_with_controller`. The value that counts is
that of the call that made the controller, and it stays the last one for ever.

Three things are put together here. A value that was handed over was listed by the call
that did it, as the first one of its reference, which is an invariant of the trace. The
last one went to the controller that the store has, which can be read off the word of the
protocol. And which call made that controller is told by what the call at work has handed
over since its turn.
-/

namespace Lifecycle

variable {C T : Type}

/-! ## Values in the hands of controllers -/

/-- The target with which a controller is made. -/
def Happening.target? : Happening C T → Option T
  | .created _ t _ => some t
  | _ => none

def Happening.isCreation (h : Happening C T) : Bool := h.target?.isSome

variable [Targeted T]

/-- The target that a call lists under a reference, the first one if there are several. -/
def Call.listed? (c : Call C T) (r : ResourceReference) : Option T :=
  c.targets.find? fun t => reference t = r

/-- The target that an entry hands to a controller of an activator and a reference, with the
call and the name of the controller. -/
def Entry.handed? (k : Nat) (r : ResourceReference) (e : Entry C T) : Option (Nat × String × T) :=
  match e.scope, e.what with
  | some x, .created n t _ => if x.activator = k ∧ reference t = r then some (x.call, n, t) else none
  | _, _ => none

/-- The targets that the controllers of a reference were handed, in the order of time. -/
def Trace.handed (t : Trace C T) (k : Nat) (r : ResourceReference) : List (Nat × String × T) :=
  t.reverse.filterMap (Entry.handed? k r)

/-- The call that made a controller, with the name of the controller. -/
def Gift.made? : Nat × Gift C → Option (Nat × String)
  | (i, .created n _) => some (i, n)
  | _ => none

def Act.isCreation : Act → Bool
  | .created _ => true
  | _ => false

section Handed

variable {k : Nat} {r : ResourceReference}

theorem handed_append (t t' : Trace C T) :
    Trace.handed (t' ++ t) k r = Trace.handed t k r ++ Trace.handed t' k r := by
  rw [Trace.handed, List.reverse_append, List.filterMap_append]
  rfl

theorem handed_congr {t t' : Trace C T}
    (h : Trace.only Happening.isCreation t' = Trace.only Happening.isCreation t) :
    Trace.handed t' k r = Trace.handed t k r := by
  have honly : ∀ t : Trace C T,
      Trace.handed t k r = Trace.handed (Trace.only Happening.isCreation t) k r := by
    intro t
    rw [Trace.handed, Trace.handed, Trace.only, ← List.filter_reverse, List.filterMap_filter]
    refine List.filterMap_congr fun e _ => ?_
    unfold Entry.handed? Happening.isCreation Happening.target?
    cases e.scope <;> cases e.what <;> simp
  rw [honly t', h, ← honly t]

/-- What controllers are handed is among the gifts to them. -/
theorem map_handed (t : Trace C T) : (Trace.handed t k r).map (fun p => (p.1, p.2.1)) =
    (Trace.gifts t k r).filterMap Gift.made? := by
  rw [Trace.handed, Trace.gifts, List.map_filterMap, List.filterMap_filterMap]
  refine List.filterMap_congr fun e _ => ?_
  unfold Entry.handed? Entry.gift?
  cases e.scope with
  | none => rfl
  | some x =>
      cases e.what <;> simp only [Happening.gift?, Option.map_none, Option.bind_none] <;> split <;>
        rfl

theorem map_handed_acts (t : Trace C T) : (Trace.handed t k r).map (fun p => .created p.2.1) =
    ((Trace.acts t k r).map Prod.snd).filter Act.isCreation := by
  rw [Trace.handed, Trace.acts, List.map_filterMap, List.map_filterMap, List.filter_filterMap]
  refine List.filterMap_congr fun e _ => ?_
  unfold Entry.handed? Entry.act?
  cases e.scope with
  | none => rfl
  | some x =>
      cases e.what with
      | probed _ q | answered _ q =>
          cases q with
          | none => rfl
          | some q =>
              dsimp only [Happening.act?]
              split <;> rfl
      | created | registering | returned | updated | deactivated =>
          dsimp only [Happening.act?]
          split <;> rfl
      | _ => rfl

end Handed

/-! ## Where a value comes from -/

/-- An attempt hands over its target, once, when it makes its controller. -/
theorem Attempt.Step.only_target {env : Collaborators C T} {x : Context C}
    {p q : Attempt T × Site C T} (h : Attempt.Step env x p q) :
    Trace.only Happening.isCreation q.2.trace = Trace.only Happening.isCreation p.2.trace ∨
      ∃ n config, Trace.only Happening.isCreation q.2.trace =
        ⟨p.2.now, some x.scope, .created n p.1.target config⟩ ::
          Trace.only Happening.isCreation p.2.trace := by
  cases h with
  | create _ _ _ _ _ _ hs =>
      subst hs
      exact .inr ⟨_, _, rfl⟩
  | register _ hs => cases hs <;> exact .inl rfl
  | refuse => exact .inl (Trace.only_release (fun _ _ => rfl) (fun _ _ => rfl) ..)
  | revoke => exact .inl (Trace.only_release (fun _ _ => rfl) (fun _ _ => rfl) ..)
  | _ => exact .inl rfl

namespace World

/-- Every value that a call has handed over is what it lists under the reference. -/
def HandsListed (w : World C T) : Prop :=
  ∀ e ∈ w.trace, ∀ t ∈ e.what.target?, ∀ x ∈ e.scope,
    ∃ c, w.calls[x.call]? = some c ∧ c.activator = x.activator ∧ c.listed? (reference t) = some t

theorem Orderly.listed?_eq {w : World C T} (hw : w.Orderly) {i : Nat} {c : Call C T}
    {as : List (Attempt T)} {a : Attempt T} (hc : w.calls[i]? = some c)
    (hs : c.stage = .working as) (ha : a ∈ as) : c.listed? a.reference = some a.target := by
  have hmem : a.target ∈ distinctTargets c.targets := by
    rw [← hw.covers c (List.mem_of_getElem? hc) as (.inl hs)]
    exact List.mem_map_of_mem ha
  rw [Call.listed?, ← find?_distinctTargets]
  exact (find?_key_eq_some_iff (nodup_map_distinctBy ..)).2 ⟨hmem, rfl⟩

theorem handsListed_step {env : Collaborators C T} {m : Move C T} {w w' : World C T}
    (h : Step env m w w') (ho : w.Orderly) (hw : w.HandsListed) : w'.HandsListed := by
  have hkept : ∀ {i k : Nat} {t : T},
      (∃ c, w.calls[i]? = some c ∧ c.activator = k ∧ c.listed? (reference t) = some t) →
      ∃ c, w'.calls[i]? = some c ∧ c.activator = k ∧ c.listed? (reference t) = some t := by
    rintro i k t ⟨c, hc, hk, hl⟩
    obtain ⟨c', hc', hlater⟩ := h.later hc
    exact ⟨c', hc', hlater.activator.trans hk, by rw [Call.listed?, hlater.targets]; exact hl⟩
  have hsame : Trace.only Happening.isCreation w'.trace = Trace.only Happening.isCreation w.trace →
      w'.HandsListed := by
    intro heq e he t ht x hx
    have hmem : e ∈ Trace.only Happening.isCreation w'.trace :=
      List.mem_filter.2 ⟨he, Option.isSome_of_mem ht⟩
    rw [heq] at hmem
    exact hkept (hw e (List.mem_filter.1 hmem).1 t ht x hx)
  by_cases hl : ∃ i j, m = .look i j
  · obtain ⟨i, j, rfl⟩ := hl
    cases id h with
    | @look _ _ _ c a as u p hf hs hu hp =>
        rcases hp.only_target with heq | ⟨n, config, heq⟩
        · exact hsame heq
        · intro e he t ht x hx
          have hmem : e ∈ Trace.only Happening.isCreation p.2.trace :=
            List.mem_filter.2 ⟨he, Option.isSome_of_mem ht⟩
          rw [heq] at hmem
          rcases List.mem_cons.1 hmem with rfl | hmem
          · cases ht
            cases hx
            have hc := (find?_eq_some.1 hf).1
            exact hkept ⟨c, hc, rfl, ho.listed?_eq hc hs (List.mem_of_getElem? hu)⟩
          · exact hkept (hw e (List.mem_filter.1 hmem).1 t ht x hx)
  · by_cases hb : ∃ i, m = .begin i
    · obtain ⟨i, rfl⟩ := hb
      cases id h with
      | begin => exact hsame (only_begun (fun _ _ => rfl) (fun _ => rfl) ..)
    · exact hsame (h.only_eq (fun _ => rfl) (fun _ => rfl) (fun i hi => hb ⟨i, hi⟩)
        fun i j hij => hl ⟨i, j, hij⟩)

theorem Reachable.handsListed {env : Collaborators C T} {policies : List (String × Policy)}
    {w : World C T} (hw : Reachable env policies w) : w.HandsListed := by
  obtain ⟨ms, rfl⟩ := hw
  exact invariant_of_orderly (P := HandsListed) (A := fun _ => True)
    (fun _ h ho hw => handsListed_step h ho hw) (fun _ _ => trivial)
    (orderly_ofActivators policies) fun _ he => absurd he List.not_mem_nil

theorem HandsListed.of_mem {w : World C T} (hw : w.HandsListed) {k : Nat} {r : ResourceReference}
    {p : Nat × String × T} (hp : p ∈ Trace.handed w.trace k r) :
    ∃ c, w.calls[p.1]? = some c ∧ c.activator = k ∧ c.listed? r = some p.2.2 := by
  obtain ⟨e, he, hh⟩ := List.mem_filterMap.1 hp
  unfold Entry.handed? at hh
  split at hh
  · next x n t g hx hw' =>
      split at hh
      · next hr =>
          cases hh
          have hlisted := hw e (List.mem_reverse.1 he) t (by rw [hw']; rfl) x hx
          rwa [hr.1, hr.2] at hlisted
      · cases hh
  · cases hh

end World

/-! ## Who has the last value -/

theorem Misses.filter_isCreation {gv : GroupVersion} {u : List Act} (h : Misses gv u) :
    u.filter Act.isCreation = [] := by
  induction h with
  | nil => rfl
  | snoc _ ih =>
      rw [List.filter_append, ih]
      rfl

theorem Maintained.filter_isCreation {c : String} {b : Bool} {u : List Act}
    (h : Maintained c b u) : u.filter Act.isCreation = [] := by
  induction h with
  | nil => rfl
  | update _ ih | deactivate _ ih =>
      rw [List.filter_append, ih]
      rfl

/-- The controller that the store has is the last one that was made. -/
theorem Protocol.getLast?_isCreation {gv : GroupVersion} {d : Prop} {h : Holding} {u : List Act}
    (hp : Protocol gv d (some h) u) :
    (u.filter Act.isCreation).getLast? = some (.created h.controller) := by
  cases hp with
  | @known u v m _ hu hv hm =>
      have hadmitted : (admitted gv h.controller).filter Act.isCreation = [.created h.controller] :=
        rfl
      simp only [List.filter_append, hv.filter_isCreation, hm.filter_isCreation, hadmitted,
        List.nil_append, List.append_nil]
      exact List.getLast?_concat ..

namespace World

variable {env : Collaborators C T} {policies : List (String × Policy)} {v w : World C T}
  {k i : Nat} {r : ResourceReference}

/-- The last value for a reference is in the hands of the controller that the store has. -/
theorem Reachable.last_handed (hw : Reachable env policies w) {h : Holding}
    (hh : w.holding? k r = some h) :
    ∃ l t, (Trace.handed w.trace k r).getLast? = some (l, h.controller, t) := by
  obtain ⟨past, now, hacts, hp, hd⟩ := hw.follows k r
  have hholding : (w.standing k r).holding = some h := hh
  have hnow : now = [] := by
    rw [hholding] at hd
    split at hd
    · exact hd
    · next a _ =>
        cases hs : a.stage with
        | fresh | done => rwa [hs] at hd
        | waiting | registering =>
            rw [hs] at hd
            cases hd.1
  rw [hholding] at hp
  have hlast := congrArg List.getLast? (map_handed_acts (k := k) (r := r) w.trace)
  have hacts : (Trace.acts w.trace k r).map Prod.snd = past := by
    rw [← List.append_nil past, ← hnow]
    exact hacts
  rw [hacts, hp.getLast?_isCreation, List.getLast?_map] at hlast
  obtain ⟨⟨l, n, t⟩, hp, hn⟩ := Option.map_eq_some_iff.1 hlast
  cases hn
  exact ⟨l, t, hp⟩

/-- Once the store has a controller for a reference, no value is handed over for it. -/
theorem Reachable.handed_play (hw : Reachable env policies w) (hh : (w.holding? k r).isSome)
    (ms : List (Move C T)) :
    Trace.handed (w.play env ms).trace k r = Trace.handed w.trace k r := by
  obtain ⟨new, hacts, hnew⟩ :=
    (tended_play hw.orderly (tended_of_follows (hw.follows k r) hh) ms).tending
  have hlater : Trace.acts (w.play env ms).trace k r = Trace.acts w.trace k r ++ new := hacts
  obtain ⟨more, hmore⟩ := trace_suffix_play env w ms
  rw [← hmore, Trace.acts_append, List.append_cancel_left_eq] at hlater
  have hnone : (Trace.handed more k r).map (fun p => Act.created p.2.1) = [] := by
    rw [map_handed_acts, hlater, List.filter_eq_nil_iff]
    intro a ha
    obtain ⟨p, hp, rfl⟩ := List.mem_map.1 ha
    have hup := hnew p hp
    cases hp : p.2 <;> simp_all [Act.isUpkeep, Act.isCreation]
  rw [← hmore, handed_append, List.map_eq_nil_iff.1 hnone, List.append_nil]

/-- What the controller of a reference was handed, when a call ends that has listed it and
not failed for it: `t` by the call `l`, which is this call exactly if it found no controller. -/
structure Provided (env : Collaborators C T) (before after : World C T) (k i : Nat)
    (r : ResourceReference) (h : Holding) (l : Nat) (t : T) : Prop where
  holding : after.holding? k r = some h
  active : h.active
  last : (Trace.handed after.trace k r).getLast? = some (l, h.controller, t)
  listed : ∃ c, after.calls[l]? = some c ∧ c.activator = k ∧ c.listed? r = some t
  made : before.holding? k r = none → l = i
  kept : ∀ h₀, before.holding? k r = some h₀ → before.hasBegun l ∧ h.controller = h₀.controller ∧
    Trace.handed after.trace k r = Trace.handed before.trace k r
  final : ∀ ms, Trace.handed (after.play env ms).trace k r = Trace.handed after.trace k r

/-- Values are handed over by calls that have had their turns. -/
theorem Reachable.hasBegun_of_handed (hw : Reachable env policies w) {p : Nat × String × T}
    (hp : p ∈ Trace.handed w.trace k r) : w.hasBegun p.1 := by
  obtain ⟨ms, rfl⟩ := hw
  have hmem : (p.1, p.2.1) ∈ (Trace.gifts ((ofActivators policies).play env ms).trace k r).filterMap
      Gift.made? := by
    rw [← map_handed]
    exact List.mem_map_of_mem hp
  obtain ⟨⟨l, g⟩, hg, hmade⟩ := List.mem_filterMap.1 hmem
  have hl : l = p.1 := by
    cases g <;> cases hmade
    rfl
  refine Bool.of_not_eq_false fun hn => ?_
  exact (taken_play ms (orderly_ofActivators policies)
    (taken_ofActivators policies k)).ne_of_mem_gifts hn _ hg hl

/-- A call at work is giving, since its turn. -/
theorem Reachable.giving {c : Call C T} (hv : Reachable env policies v) (hturn : v.hasTurn i)
    (hc : v.calls[i]? = some c) (ms : List (Move C T))
    (hi : (((v.begin i).play env ms).standing c.activator r).call = some i) :
    ((v.begin i).play env ms).Giving c.activator r i c (v.holding? c.activator r)
      (Trace.gifts v.trace c.activator r) := by
  have ho := hv.orderly
  have hnone : v.hasBegun i = false := by
    obtain ⟨c', a, hf, hs, -⟩ := hasTurn_iff.1 hturn
    rw [World.hasBegun, (find?_eq_some.1 hf).1, Option.any_some, Call.hasBegun, hs]
  have hsince : ∀ p ∈ Trace.gifts v.trace c.activator r, p.1 ≠ i := by
    obtain ⟨ms', rfl⟩ := hv
    exact (taken_play ms' (orderly_ofActivators policies)
      (taken_ofActivators policies c.activator)).ne_of_mem_gifts hnone
  have hbegun : (v.play env [.begin i]).Orderly := orderly_play [.begin i] ho
  have hdelivering : ((v.begin i).play env ms).Delivering c.activator r i c
      (v.holding? c.activator r) (Trace.gifts v.trace c.activator r) :=
    invariant_of_orderly (A := fun _ => True) (fun _ h hw hd => delivering_step h hw hsince hd)
      (fun _ _ => trivial) hbegun (delivering_begin env ho hturn hc r)
  exact hdelivering.working hi

/-- What a call has given for a reference that it lists, when its attempt has ended well. -/
theorem Giving.of_obtained {c : Call C T} {found : Option Holding} {since : List (Nat × Gift C)}
    (hg : w.Giving k r i c found since) (hr : r ∈ c.targets.map reference)
    (hd : ∀ a, (w.standing k r).attempt = some a → a.isDone ∧ a.cause? = none) :
    ∃ h, w.holding? k r = some h ∧ h.active ∧
      (found = none → Trace.gifts w.trace k r = since ++ [(i, .created h.controller c.config)]) ∧
      ∀ h₀, found = some h₀ → h.controller = h₀.controller := by
  obtain ⟨given, hgiven, ha⟩ := hg
  split at ha
  · exact absurd hr ha.1
  · next a heq =>
      obtain ⟨hdone, hcause⟩ := hd a heq
      obtain ⟨cause, time, hst⟩ := Attempt.isDone_iff.1 hdone
      rw [Attempt.cause?, hst] at hcause
      subst hcause
      obtain ⟨-, hgives⟩ := ha
      unfold Attempt.Gives at hgives
      rw [hst] at hgives
      obtain ⟨h, hh, hactive, hgives⟩ := hgives
      refine ⟨h, hh, hactive, ?_, ?_⟩
      · rintro rfl
        rw [hgiven, hgives]
      · rintro h₀ rfl
        exact hgives.1

/-- A call that makes the controller of a reference hands over the last value for it. -/
theorem call_eq_of_created {since : List (Nat × Gift C)} {n m : String} {config : C} {l : Nat}
    {t : T} (hg : Trace.gifts w.trace k r = since ++ [(i, .created n config)])
    (hl : (Trace.handed w.trace k r).getLast? = some (l, m, t)) : l = i := by
  have hmap := congrArg List.getLast? (map_handed (k := k) (r := r) w.trace)
  rw [List.getLast?_map, hl, hg, List.filterMap_append] at hmap
  have hlast : ((since.filterMap Gift.made?) ++ [(i, n)]).getLast? = some (i, n) :=
    List.getLast?_concat ..
  exact congrArg Prod.fst (Option.some.inj (hmap.trans hlast))

theorem Step.close_holding? {w' : World C T} (h : Step env (.close i) w w') (ho : w.Orderly)
    (k : Nat) (r : ResourceReference) : w'.holding? k r = w.holding? k r := by
  cases h.effect ho k r with
  | same heq | close _ _ heq => exact congrArg Standing.holding heq

/-- A call that has not failed leaves every reference that it lists with one value, the one
that it lists itself if the reference had no controller. -/
theorem Serves.provided {c : Call C T} (hv : Reachable env policies v) (h : Serves env i v w)
    (hc : v.calls[i]? = some c) (hok : ∀ d, w.calls[i]? = some d → d.causes = [])
    (hr : r ∈ c.targets.map reference) :
    ∃ h l t, Provided env v w c.activator i r h l t := by
  obtain ⟨ms, hsettled, rfl⟩ := h.course
  obtain ⟨d, b, us, hfd, hs, hdone⟩ := isSettled_iff.1 hsettled
  have hu : Reachable env policies ((v.begin i).play env ms) := hv.play (.begin i :: ms)
  have hw : Reachable env policies (((v.begin i).play env ms).close i) := hu.play [.close i]
  have hgiving := hv.giving (r := r) h.turn hc ms
  have hkept : (v.holding? c.activator r).isSome →
      Trace.handed ((v.begin i).play env ms).trace c.activator r =
        Trace.handed v.trace c.activator r :=
    fun hh => hv.handed_play hh (.begin i :: ms)
  obtain ⟨d', hd', hlater⟩ : ∃ d, ((v.begin i).play env ms).calls[i]? = some d ∧ c.Later d :=
    later_play env hc (.begin i :: ms)
  clear h hsettled
  generalize (v.begin i).play env ms = u at *
  have ho := hu.orderly
  have hd := (find?_eq_some.1 hfd).1
  obtain rfl : d' = d := Option.some.inj (hd'.symm.trans hd)
  have hclose : Step env (.close i) u (u.close i) := by
    rw [close_eq_closed hfd hs hdone]
    exact .close hfd hs hdone
  have hholding := hclose.close_holding? ho c.activator r
  have hhanded : Trace.handed (u.close i).trace c.activator r =
      Trace.handed u.trace c.activator r :=
    handed_congr (hclose.only_eq (fun _ => rfl) (fun _ => rfl) nofun nofun)
  have hwork := (atWork_eq_some_iff ho).2 ⟨d', b, hfd, hlater.activator, hs⟩
  have hcauses : us.filterMap Attempt.cause? = [] := by
    refine hok { d' with stage := .ended us u.now } ?_
    rw [close_eq_closed hfd hs hdone, closed_calls, List.getElem?_modify, hd]
    simp
  obtain ⟨x, hx, hactive, hmade, hfound⟩ :=
    (hgiving (by rw [standing, hwork]; rfl)).of_obtained hr fun a ha => by
      rw [standing, hwork] at ha
      have hmem := List.mem_of_find?_eq_some ha
      exact ⟨List.all_eq_true.1 hdone a hmem, List.filterMap_eq_nil_iff.1 hcauses a hmem⟩
  obtain ⟨l, t, hlast⟩ := hu.last_handed hx
  rw [← hholding] at hx
  rw [← hhanded] at hlast hkept
  refine ⟨x, l, t, hx, hactive, hlast, ?_, fun hnone => ?_, fun x₀ hx₀ => ?_,
    hw.handed_play (by rw [hx]; rfl)⟩
  · exact hw.handsListed.of_mem (List.mem_of_getLast? hlast)
  · exact call_eq_of_created (hmade hnone) (hhanded ▸ hlast)
  · have heq := hkept (by rw [hx₀]; rfl)
    refine ⟨?_, hfound x₀ hx₀, heq⟩
    exact hv.hasBegun_of_handed (List.mem_of_getLast? (heq ▸ hlast))

end World

/-! ## The settings of protected resources -/

namespace Orchestrator

theorem Takes.exists_authorization {config : CapabilityConfig} {t : CapabilityTarget}
    (h : Takes Capability.authorization.index config t) : ∃ u, t = .authorization u := by
  generalize hk : Capability.authorization.index = k at h
  cases h with
  | authorization _ u => exact ⟨u, rfl⟩
  | routing => cases hk

/-- Whatever authorization was asked for before: when a call returns without a failure, each
reference that it lists has an active controller, and this was handed the settings that the
call that made it lists for the reference. That is the call itself exactly if it found no
controller there; otherwise the call hands over no settings, and neither does a later one. -/
theorem settings_stay_with_controller
    {env : Collaborators CapabilityConfig CapabilityTarget} {p : Policy} {i time : Nat}
    {ms : List (Move CapabilityConfig CapabilityTarget)}
    {w : World CapabilityConfig CapabilityTarget} {c : Call CapabilityConfig CapabilityTarget}
    (hcalls : ∀ rs, .submit rs ∈ ms → ∀ q ∈ rs, Toggle q) :
    let v := (start p).play env ms
    World.Serves env i v w → v.calls[i]? = some c →
      c.activator = Capability.authorization.index →
      w.calls[i]?.bind Call.result? = some (.ok, time) →
      ∀ r ∈ c.targets.map reference, ∃ h l t,
        World.Provided env v w c.activator i r h l (.authorization t) := by
  intro v hserves hc hk hok r hr
  have hv : World.Reachable env (policies p) v := ⟨ms, rfl⟩
  have hfits : ∀ d ∈ v.calls, ∀ t ∈ d.targets, Takes d.activator d.config t := by
    refine World.invariant_of_play (A := Move.Fits Takes) (P := fun v => ∀ d ∈ v.calls,
      ∀ t ∈ d.targets, Takes d.activator d.config t) (fun hm h hv => World.fits_step h hm hv)
      ?_ nofun
    rintro m hm rs rfl q hq
    exact (hcalls rs hm q hq).takes
  have hcauses : ∀ d, w.calls[i]? = some d → d.causes = [] := by
    intro d hd
    rw [hd, Option.bind_some, Call.result?] at hok
    split at hok
    · split at hok
      · next hempty => exact List.isEmpty_iff.1 hempty
      · cases hok
    · cases hok
    · cases hok
  obtain ⟨h, l, t, hp⟩ := hserves.provided hv hc hcauses hr
  obtain ⟨d, hd, hdk, hlisted⟩ := hp.listed
  -- The call that made the controller is among those that were there at the turn of this one.
  obtain ⟨d₀, hd₀⟩ : ∃ d₀, v.calls[l]? = some d₀ := by
    cases hh : v.holding? c.activator r with
    | none => exact ⟨c, by rw [hp.made hh, hc]⟩
    | some h₀ =>
        obtain ⟨d₀, hd₀, -⟩ := (Option.any_eq_true ..).1 (hp.kept h₀ hh).1
        exact ⟨d₀, hd₀⟩
  obtain ⟨ms', -, rfl⟩ := hserves.course
  obtain ⟨d', hd', hlater⟩ := World.later_play env hd₀ (.begin i :: (ms' ++ [.close i]))
  have hplay : v.play env (.begin i :: (ms' ++ [.close i])) =
      ((v.begin i).play env ms').close i := World.play_concat env (v.begin i) ms' (.close i)
  rw [hplay, hd] at hd'
  cases hd'
  have hmem : t ∈ d₀.targets := hlater.targets ▸ List.mem_of_find?_eq_some hlisted
  have htakes := hfits d₀ (List.mem_of_getElem? hd₀) t hmem
  rw [← hlater.activator, hdk, hk] at htakes
  obtain ⟨u, rfl⟩ := htakes.exists_authorization
  exact ⟨h, l, u, hp⟩

/-- Collaborators with whom nothing goes wrong; every controller bears the name of its target. -/
def prompt : Collaborators CapabilityConfig CapabilityTarget where
  remote := false
  refusal? _ := none
  check _ _ _ := ⟨false, some 0, .ready⟩
  create _ _ _ t _ := ⟨t.reference.name, .spawn t.reference.name .forever (.finish none)⟩

/-- Two calls protect the same reference, on different ports. -/
theorem settings_stay_with_controller_changed :
    let r : ResourceReference := .plain "a"
    let on (port : String) : ProtectedResource := ⟨r, .empty, [], [port]⟩
    let call (port : String) := toggleAuthorization .empty [on port] false none none
    let ms := [.submit [call "80"], .join 0, .begin 0, .look 0 0, .close 0,
      .submit [call "443"], .join 1]
    let v := (start .default).play prompt ms
    let w := ((v.begin 1).play prompt [.look 1 0]).close 1
    let c : Call CapabilityConfig CapabilityTarget :=
      ⟨0, .authorization .empty, [.authorization (on "443")], false, .queued⟩
    (∀ rs, .submit rs ∈ ms → ∀ q ∈ rs, Toggle q) ∧ World.Serves prompt 1 v w ∧
      v.calls[1]? = some c ∧ w.calls[1]?.bind Call.result? = some (.ok, 0) ∧
      ∀ r ∈ c.targets.map reference, ∃ h l t,
        World.Provided prompt v w c.activator 1 r h l (.authorization t) := by
  intro r on call ms v w c
  have hcalls : ∀ rs, .submit rs ∈ ms → ∀ q ∈ rs, Toggle q := by
    intro rs hrs q hq
    have hsubmit : rs = [call "80"] ∨ rs = [call "443"] := by simpa [ms] using hrs
    rcases hsubmit with rfl | rfl <;>
    · rw [List.mem_singleton.1 hq]
      exact .authorization ..
  have hserves : World.Serves prompt 1 v w := ⟨by decide +kernel, _, by decide +kernel, rfl⟩
  have hc : v.calls[1]? = some c := by decide +kernel
  have hok : w.calls[1]?.bind Call.result? = some (.ok, 0) := by decide +kernel
  exact ⟨hcalls, hserves, hc, hok, settings_stay_with_controller hcalls hserves hc rfl hok⟩

/-- The second of these calls returns without a failure, and the ports that it lists have
never been handed to a controller. -/
theorem changed_settings_not_handed :
    let r : ResourceReference := .plain "a"
    let on (port : String) : ProtectedResource := ⟨r, .empty, [], [port]⟩
    let call (port : String) := toggleAuthorization .empty [on port] false none none
    let w := (start .default).play prompt
      [.submit [call "80"], .join 0, .begin 0, .look 0 0, .close 0,
        .submit [call "443"], .join 1, .begin 1, .look 1 0, .close 1]
    w.calls.map Call.result? = [some (.ok, 0), some (.ok, 0)] ∧
      w.calls[1]?.bind (·.listed? r) = some (.authorization (on "443")) ∧
      Trace.handed w.trace 0 r = [(0, "a", .authorization (on "80"))] := by
  decide +kernel

end Orchestrator

end Lifecycle
