import Mathlib.Data.List.Dedup
import Mathlib.Data.List.Perm.Basic
import Lifecycle.Proofs.ReferenceOrder
import Lifecycle.Proofs.Standing

/-!
# What a finished call leaves behind

A call is asked to make the active controllers of its activator exactly those of
its targets. It may fail for some of them, and this file says that it fails for
nothing else: `reconcile_converges` compares the store that the call found when
its turn came with the store at the moment it ends. What is wanted and did not
fail is active, what failed has no controller, what is not wanted has kept its
controller and is inactive, and the numbers add up.

The store in between is neither the one nor the other, since the attempts come
to their ends one by one. `Attempt.Keeps` is what holds of one reference all the
time: as long as its attempt waits or registers there is no controller, before
and now, and when the attempt is done its result says which of the two final
shapes the holding has. Being a statement about one standing it needs one case
for each step of an attempt; the other references do not occur in it.
-/

namespace Lifecycle

variable {C T : Type}

/-! ## One reference -/

/-- What an attempt has made by now of the holding that its call found. -/
def Attempt.Keeps (found now : Option Holding) (a : Attempt T) : Prop :=
  match a.stage with
  | .fresh => now = found
  | .waiting _ | .registering .. | .done (some _) _ => found = none ∧ now = none
  | .done none _ =>
    ∃ h, now = some h ∧ h.active ∧ ∀ h₀, found = some h₀ → h.controller = h₀.controller

/-- Once it is done, an attempt has either failed and left nothing, or its
reference has an active controller. -/
theorem Attempt.Keeps.of_isDone {a : Attempt T} {found now : Option Holding}
    (h : a.Keeps found now) (hd : a.isDone) :
    (a.cause?.isNone ∧ ∃ h, now = some h ∧ h.active ∧
      ∀ h₀, found = some h₀ → h.controller = h₀.controller) ∨
    (a.cause?.isSome ∧ found = none ∧ now = none) := by
  cases hs : a.stage with
  | done cause time =>
      cases cause with
      | none =>
          simp only [Keeps, hs] at h
          exact .inl ⟨by simp [cause?, hs], h⟩
      | some e =>
          simp only [Keeps, hs] at h
          exact .inr ⟨by simp [cause?, hs], h⟩
  | _ => simp [isDone, hs] at hd

/-- The attempts that have failed and those that have not are all of them. -/
theorem length_causes_add (as : List (Attempt T)) :
    (as.filterMap Attempt.cause?).length + (as.filter (·.cause?.isNone)).length = as.length := by
  rw [List.length_filterMap_eq_countP, ← List.countP_eq_length_filter,
    List.length_eq_countP_add_countP fun a : Attempt T => a.cause?.isSome]
  refine congrArg _ (List.countP_congr fun a _ => ?_)
  simp

variable [Targeted T]

theorem Attempt.Step.keeps {env : Collaborators C T} {x : Context C} {found : Option Holding}
    {p q : Attempt T × Site C T} (h : Attempt.Step env x p q)
    (hp : p.1.Keeps found (p.2.store.get? p.1.reference)) :
    q.1.Keeps found (q.2.store.get? p.1.reference) := by
  cases h with
  | draw => exact hp
  | @update a s h hf hg =>
      simp only [Attempt.Keeps, hf] at hp
      dsimp only [Attempt.Keeps, Attempt.finish, Site.note]
      rw [Store.get?_activate, hg]
      refine ⟨{ h with active := true }, by simp, rfl, fun h₀ h₀found => ?_⟩
      rw [hg, h₀found] at hp
      cases hp
      rfl
  | wait hf hg =>
      simp only [Attempt.Keeps, hf] at hp
      exact ⟨hp ▸ hg, hg⟩
  | ask hw | unaskable hw | probe hw | giveUp hw | expire hw | miss hw | fail hw =>
      simp only [Attempt.Keeps, hw] at hp
      exact hp
  | create hw _ _ _ _ _ hs =>
      subst hs
      simp only [Attempt.Keeps, hw] at hp
      exact hp
  | register hr hs =>
      simp only [Attempt.Keeps, hr] at hp
      cases hs <;> exact hp
  | @install a s c free rest since hr _ _ =>
      simp only [Attempt.Keeps, hr] at hp
      dsimp only [Attempt.Keeps, Attempt.finish, Site.note]
      rw [Store.get?_install, if_pos rfl, hp.1]
      exact ⟨_, rfl, rfl, nofun⟩
  | refuse hr _ _ =>
      simp only [Attempt.Keeps, hr] at hp
      dsimp only [Attempt.Keeps, Attempt.finish, Site.note]
      rw [Attempt.release_store]
      exact hp
  | revoke hr _ _ =>
      simp only [Attempt.Keeps, hr] at hp
      dsimp only [Attempt.Keeps, Attempt.finish]
      rw [Attempt.release_store]
      exact hp

/-- What a call at work has made by now of the holding that it found under a
reference: it is switched off, unless the reference is wanted. -/
def Standing.Keeps (found : Option Holding) (wanted : Prop) (u : Standing T) : Prop :=
  match u.attempt with
  | none => ¬ wanted ∧ u.holding = found.map fun h => { h with active := false }
  | some a => wanted ∧ a.Keeps found u.holding

theorem Standing.keeps_begun (u : Standing T) (i : Nat) (targets : List T)
    (r : ResourceReference) :
    (u.begun i targets r).Keeps u.holding (r ∈ targets.map reference) := by
  have hsome := u.isSome_attempt_begun i targets r
  rw [Keeps]
  split
  · next hn =>
      rw [hn] at hsome
      have hr : r ∉ targets.map reference := fun hr => by simpa using hsome.2 hr
      exact ⟨hr, by simp [begun, hr]⟩
  · next a ha =>
      have hr := hsome.1 (by rw [ha]; rfl)
      refine ⟨hr, ?_⟩
      simp [Attempt.Keeps, stage_begun ha, begun, hr]

namespace World

/-- The call `i`, made for some targets, has had its turn on the activator `k`;
as long as it is at work, every reference keeps to what it found. -/
structure Serving (found : ResourceReference → Option Holding) (i k : Nat) (targets : List T)
    (w : World C T) : Prop where
  orderly : w.Orderly
  call : ∃ c, w.calls[i]? = some c ∧ c.activator = k ∧ c.targets = targets ∧ c.hasBegun
  keeps : ∀ r, (w.standing k r).call = some i →
    (w.standing k r).Keeps (found r) (r ∈ targets.map reference)

section Serving

variable {w : World C T} {found : ResourceReference → Option Holding} {i k : Nat}
  {targets : List T} (hw : w.Serving found i k targets) {c : Call C T} {a : Activator}
  {as : List (Attempt T)} (hf : w.find? i = some (c, a)) (hs : c.stage = .working as)

include hw hf hs

theorem Serving.covers : c.activator = k ∧ as.map Attempt.target = distinctTargets targets := by
  obtain ⟨c', hc, hk, rfl, -⟩ := hw.call
  obtain rfl : c = c' := Option.some.inj ((find?_eq_some.1 hf).1.symm.trans hc)
  exact ⟨hk, hw.orderly.covers c (List.mem_of_getElem? hc) as (.inl hs)⟩

/-- Which target an attempt is for can be told from its place. -/
theorem Serving.place {j : Nat} {u : Attempt T} (hj : as[j]? = some u) :
    (distinctTargets targets)[j]? = some u.target := by
  rw [← (hw.covers hf hs).2, List.getElem?_map, hj]
  rfl

end Serving

theorem serving_step {env : Collaborators C T} {m : Move C T} {w w' : World C T}
    {found : ResourceReference → Option Holding} {i k : Nat} {targets : List T}
    (h : Step env m w w') (hw : w.Serving found i k targets) : w'.Serving found i k targets := by
  obtain ⟨c, hc, hk, ht, hb⟩ := hw.call
  obtain ⟨c', hc', hlater⟩ := h.later hc
  refine ⟨orderly_step h hw.orderly,
    ⟨c', hc', hlater.activator.trans hk, hlater.targets.trans ht, hlater.begun hb⟩,
    fun r hi => ?_⟩
  cases h.effect hw.orderly k r with
  | same heq =>
      rw [heq] at hi ⊢
      exact hw.keeps r hi
  | begin hd hq _ _ heq =>
      -- The call has had its turn, so another one begins.
      rw [heq] at hi
      cases hi
      rw [hc] at hd
      cases hd
      simp [Call.hasBegun, hq] at hb
  | look _ _ _ _ hr hp _ heq heq' =>
      rw [heq'] at hi ⊢
      cases hi
      have hkeeps := hw.keeps r (by rw [heq])
      rw [heq] at hkeeps
      subst hr
      exact ⟨hkeeps.1, hp.keeps hkeeps.2⟩
  | close _ _ heq | drop _ _ _ heq =>
      rw [heq] at hi
      cases hi

theorem serving_play {env : Collaborators C T} {found : ResourceReference → Option Holding}
    {i k : Nat} {targets : List T} {w : World C T} (ms : List (Move C T))
    (hw : w.Serving found i k targets) : (w.play env ms).Serving found i k targets :=
  invariant_of_play (A := fun _ => True) (fun _ => serving_step) (fun _ _ => trivial) hw

end World

/-! ## The whole store -/

/-- The attempt for a reference is among some attempts, and has failed. -/
def Failed (as : List (Attempt T)) (r : ResourceReference) : Prop :=
  ∃ a ∈ as, a.reference = r ∧ a.cause?.isSome

/-- What a finished call has made of the store that it found. -/
structure Converged (targets : List T) (as : List (Attempt T)) (result : Result)
    (before after : Store) : Prop where
  active_iff : ∀ r, (∃ h, after.get? r = some h ∧ h.active) ↔
    r ∈ targets.map reference ∧ ¬ Failed as r
  retired : ∀ r h, before.get? r = some h → r ∉ targets.map reference →
    after.get? r = some { h with active := false }
  absent : ∀ r, r ∈ targets.map reference → Failed as r → after.get? r = none
  kept : ∀ r h, before.get? r = some h → ∃ h', after.get? r = some h' ∧ h'.controller = h.controller
  added : ∀ r, r ∉ targets.map reference → before.get? r = none → after.get? r = none
  counted : result.causes.length + after.activeReferences.length =
    (targets.map reference).dedup.length
  ok_iff : result = .ok ↔
    after.activeReferences = ResourceReference.sort (targets.map reference).dedup
  failed : ∀ cs, result = .failed cs → cs ≠ []

section Store

variable {targets : List T} {as : List (Attempt T)} {before after : Store}

theorem references_perm_dedup (hcov : as.map Attempt.target = distinctTargets targets) :
    (as.map Attempt.reference).Perm (targets.map reference).dedup := by
  have href : as.map Attempt.reference = (distinctTargets targets).map reference := by
    rw [← hcov, List.map_map]
    rfl
  rw [href]
  refine (List.perm_ext_iff_of_nodup (nodup_map_distinctBy ..) (List.nodup_dedup _)).2 fun r => ?_
  rw [mem_map_distinctBy, List.mem_dedup]
  simp

section Fates

variable (hcov : as.map Attempt.target = distinctTargets targets) (hdone : as.all Attempt.isDone)
  (hunwanted : ∀ r, r ∉ targets.map reference →
    after.get? r = (before.get? r).map fun h => { h with active := false })
  (hwanted : ∀ a ∈ as, a.Keeps (before.get? a.reference) (after.get? a.reference))

include hcov

theorem mem_references_iff {r : ResourceReference} :
    r ∈ targets.map reference ↔ ∃ a ∈ as, a.reference = r := by
  rw [← List.mem_dedup, ← (references_perm_dedup hcov).mem_iff, List.mem_map]

theorem failed_iff {a : Attempt T} (ha : a ∈ as) : Failed as a.reference ↔ a.cause?.isSome := by
  constructor
  · rintro ⟨b, hb, hba, hc⟩
    have hnodup := (references_perm_dedup hcov).nodup_iff.2 (List.nodup_dedup _)
    rwa [List.inj_on_of_nodup_map hnodup hb ha hba] at hc
  · exact fun hc => ⟨a, ha, rfl, hc⟩

include hdone hwanted

theorem get?_of_failed {r : ResourceReference} (hr : r ∈ targets.map reference)
    (hf : Failed as r) : before.get? r = none ∧ after.get? r = none := by
  obtain ⟨a, ha, rfl⟩ := (mem_references_iff hcov).1 hr
  have hc := (failed_iff hcov ha).1 hf
  rcases (hwanted a ha).of_isDone (List.all_eq_true.1 hdone a ha) with h | h
  · rw [Option.isNone_iff_eq_none.1 h.1] at hc
    cases hc
  · exact h.2

theorem get?_of_not_failed {r : ResourceReference} (hr : r ∈ targets.map reference)
    (hf : ¬ Failed as r) : ∃ h, after.get? r = some h ∧ h.active ∧
      ∀ h₀, before.get? r = some h₀ → h.controller = h₀.controller := by
  obtain ⟨a, ha, rfl⟩ := (mem_references_iff hcov).1 hr
  rcases (hwanted a ha).of_isDone (List.all_eq_true.1 hdone a ha) with h | h
  · exact h.2
  · exact absurd ((failed_iff hcov ha).2 h.1) hf

include hunwanted

theorem active_iff {r : ResourceReference} :
    (∃ h, after.get? r = some h ∧ h.active) ↔ r ∈ targets.map reference ∧ ¬ Failed as r := by
  constructor
  · rintro ⟨h, hg, ha⟩
    by_cases hr : r ∈ targets.map reference
    · refine ⟨hr, fun hf => ?_⟩
      rw [(get?_of_failed hcov hdone hwanted hr hf).2] at hg
      cases hg
    · rw [hunwanted r hr] at hg
      obtain ⟨h₀, -, rfl⟩ := Option.map_eq_some_iff.1 hg
      cases ha
  · rintro ⟨hr, hf⟩
    obtain ⟨h, hg, ha, -⟩ := get?_of_not_failed hcov hdone hwanted hr hf
    exact ⟨h, hg, ha⟩

/-- The active references are those of the attempts that have not failed. -/
theorem activeReferences_perm (hsimple : after.Simple) :
    after.activeReferences.Perm ((as.filter (·.cause?.isNone)).map Attempt.reference) := by
  have hnodup := (references_perm_dedup hcov).nodup_iff.2 (List.nodup_dedup _)
  have hactive : ((after.filter (·.active)).map Holding.reference).Nodup :=
    hsimple.sublist ((List.filter_sublist ..).map _)
  refine (ResourceReference.sort_perm _).trans ?_
  refine (List.perm_ext_iff_of_nodup hactive
    (hnodup.sublist ((List.filter_sublist ..).map _))).2 fun r => ?_
  have hmem : r ∈ (after.filter (·.active)).map Holding.reference ↔
      ∃ h, after.get? r = some h ∧ h.active := by
    simp only [List.mem_map, List.mem_filter, Store.get?_eq_some_iff hsimple]
    exact ⟨fun ⟨h, ⟨hm, ha⟩, hr⟩ => ⟨h, ⟨hm, hr⟩, ha⟩, fun ⟨h, ⟨hm, hr⟩, ha⟩ => ⟨h, ⟨hm, ha⟩, hr⟩⟩
  rw [hmem, active_iff hcov hdone hunwanted hwanted, mem_references_iff hcov, List.mem_map]
  constructor
  · rintro ⟨⟨a, ha, rfl⟩, hf⟩
    rw [failed_iff hcov ha, Option.not_isSome_iff_eq_none, ← Option.isNone_iff_eq_none] at hf
    exact ⟨a, List.mem_filter.2 ⟨ha, hf⟩, rfl⟩
  · rintro ⟨a, ha, rfl⟩
    obtain ⟨ha, hc⟩ := List.mem_filter.1 ha
    refine ⟨⟨a, ha, rfl⟩, ?_⟩
    rwa [failed_iff hcov ha, Option.not_isSome_iff_eq_none, ← Option.isNone_iff_eq_none]

/-- What every reference of a finished call keeps to, put together. -/
theorem converged_of_keeps (hsimple : after.Simple) {result : Result}
    (hresult : result = if (as.filterMap Attempt.cause?).isEmpty then .ok
      else .failed (as.filterMap Attempt.cause?)) :
    Converged targets as result before after := by
  have hperm := activeReferences_perm hcov hdone hunwanted hwanted hsimple
  have hall := references_perm_dedup hcov
  have hcauses : result.causes = as.filterMap Attempt.cause? := by
    rw [hresult]
    split
    · next h => exact (List.isEmpty_iff.1 h).symm
    · rfl
  have hcounted : result.causes.length + after.activeReferences.length =
      (targets.map reference).dedup.length := by
    rw [hcauses, hperm.length_eq, List.length_map, length_causes_add, ← hall.length_eq,
      List.length_map]
  refine ⟨fun r => active_iff hcov hdone hunwanted hwanted, fun r h hg hr => ?_, fun r hr hf =>
    (get?_of_failed hcov hdone hwanted hr hf).2, fun r h hg => ?_, fun r hr hg => ?_, hcounted,
    ⟨fun hok => ?_, fun hsorted => ?_⟩, fun cs hcs => ?_⟩
  · rw [hunwanted r hr, hg]
    rfl
  · by_cases hr : r ∈ targets.map reference
    · by_cases hf : Failed as r
      · rw [(get?_of_failed hcov hdone hwanted hr hf).1] at hg
        cases hg
      · obtain ⟨h', hg', -, hc⟩ := get?_of_not_failed hcov hdone hwanted hr hf
        exact ⟨h', hg', hc h hg⟩
    · rw [hunwanted r hr, hg]
      exact ⟨_, rfl, rfl⟩
  · rw [hunwanted r hr, hg]
    rfl
  · -- Without a cause no attempt has failed, so all of them are active.
    have hnone : as.filterMap Attempt.cause? = [] := by
      rw [← hcauses, hok]
      rfl
    have hlen := length_causes_add as
    rw [hnone, List.length_nil, Nat.zero_add] at hlen
    have hfilter : as.filter (·.cause?.isNone) = as :=
      List.filter_eq_self.2 (List.length_filter_eq_length_iff.1 hlen)
    rw [hfilter] at hperm
    exact ResourceReference.sort_eq_of_perm
      ((ResourceReference.sort_perm _).symm.trans (hperm.trans hall))
  · rw [hsorted, (ResourceReference.sort_perm _).length_eq, Nat.add_eq_right,
      List.length_eq_zero_iff, hcauses] at hcounted
    rw [hresult, hcounted]
    rfl
  · rw [hresult] at hcs
    split at hcs
    · cases hcs
    · next h =>
        cases hcs
        simpa using h

end Fates

end Store

/-! ## Calls from their turn to their end -/

namespace World

/-- Whether a call waits for its turn, and the turn has come. -/
def hasTurn (w : World C T) (i : Nat) : Bool :=
  match w.find? i with
  | some (c, a) =>
    match c.stage with
    | .queued => a.queue.head? = some i
    | _ => false
  | none => false

/-- Whether all attempts of a call at work are done. -/
def isSettled (w : World C T) (i : Nat) : Bool :=
  match w.find? i with
  | some (c, _) =>
    match c.stage with
    | .working as => as.all Attempt.isDone
    | _ => false
  | none => false

omit [Targeted T] in
theorem hasTurn_iff {w : World C T} {i : Nat} :
    w.hasTurn i ↔
      ∃ c a, w.find? i = some (c, a) ∧ c.stage = .queued ∧ a.queue.head? = some i := by
  unfold hasTurn
  cases hf : w.find? i with
  | none => simp
  | some p =>
      obtain ⟨c, a⟩ := p
      cases hs : c.stage <;> simp [hs]

omit [Targeted T] in
theorem isSettled_iff {w : World C T} {i : Nat} :
    w.isSettled i ↔
      ∃ c a as, w.find? i = some (c, a) ∧ c.stage = .working as ∧ as.all Attempt.isDone := by
  unfold isSettled
  cases hf : w.find? i with
  | none => simp
  | some p =>
      obtain ⟨c, a⟩ := p
      cases hs : c.stage <;> simp [hs]

/-- A call is served: in `before` its turn has come, and with `after` it ends. -/
structure Serves (env : Collaborators C T) (i : Nat) (before after : World C T) : Prop where
  turn : before.hasTurn i
  course : ∃ ms, ((before.begin i).play env ms).isSettled i ∧
    after = ((before.begin i).play env ms).close i

theorem serving_begin (env : Collaborators C T) {w : World C T} (hw : w.Orderly) {i : Nat}
    {c : Call C T} {a : Activator} (hf : w.find? i = some (c, a)) (hq : c.stage = .queued)
    (hh : a.queue.head? = some i) :
    (w.begin i).Serving a.store.get? i c.activator c.targets := by
  have hstep : Step env (.begin i) w (w.begun i c a) := .begin hf hq hh
  have hw' := orderly_step hstep hw
  rw [begin_eq_begun hf hq hh]
  refine ⟨hw', ?_, fun r _ => ?_⟩
  · have hc := (find?_eq_some.1 hf).1
    simp [begun, setStage, withSite, hc, Call.hasBegun]
  · rw [standing_begun hw hw' hf hq hh]
    have hfound : (w.standing c.activator r).holding = a.store.get? r :=
      holding?_eq (find?_eq_some.1 hf).2 r
    rw [← hfound]
    exact (w.standing c.activator r).keeps_begun i c.targets r

/-- When a call ends, it has made of the store that it found when its turn came
what its targets ask for, as far as no attempt of its own has failed. -/
theorem reconcile_converges {env : Collaborators C T} {as : List (String × Policy)}
    {w w' : World C T} (hw : Reachable env as w) {i : Nat} (h : Serves env i w w') :
    ∃ c a c' a' result time, w.find? i = some (c, a) ∧ w'.find? i = some (c', a') ∧
      c'.targets = c.targets ∧ c'.activator = c.activator ∧
      c'.result? = some (result, time) ∧
      Converged c.targets c'.attempts result a.store a'.store := by
  obtain ⟨c, a, hf, hq, hh⟩ := hasTurn_iff.1 h.turn
  obtain ⟨ms, hsettled, rfl⟩ := h.course
  obtain ⟨d, b, bs, hfd, hs, hdone⟩ := isSettled_iff.1 hsettled
  have hserving : ((w.begin i).play env ms).Serving a.store.get? i c.activator c.targets :=
    serving_play ms (serving_begin env hw.orderly hf hq hh)
  clear hsettled
  generalize (w.begin i).play env ms = v at hfd hserving ⊢
  obtain ⟨d', hd', hk, ht, -⟩ := hserving.call
  have hd := (find?_eq_some.1 hfd).1
  rw [hd] at hd'
  cases hd'
  have hfind : (v.close i).find? i =
      some ({ d with stage := .ended bs v.now }, { b with queue := b.queue.erase i }) := by
    rw [close_eq_closed hfd hs hdone, find?_closed, hfd]
    simp
  have hwork := (atWork_eq_some_iff hserving.orderly).2 ⟨d, b, hfd, hk, hs⟩
  have hcov := hserving.orderly.covers d (List.mem_of_getElem? hd) bs (.inl hs)
  have hstanding : ∀ r, v.standing c.activator r =
      ⟨b.store.get? r, some i, bs.find? fun t => t.reference = r,
        Trace.acts v.trace c.activator r⟩ := by
    intro r
    rw [standing, hwork, holding?_eq (hk ▸ (find?_eq_some.1 hfd).2)]
    rfl
  have hkeeps : ∀ r, (v.standing c.activator r).Keeps (a.store.get? r)
      (r ∈ c.targets.map reference) :=
    fun r => hserving.keeps r (by rw [hstanding])
  refine ⟨c, a, _, _, _, _, hf, hfind, ht, hk, rfl, ?_⟩
  rw [ht] at hcov
  refine converged_of_keeps hcov hdone (fun r hr => ?_) (fun t hmem => ?_)
    (hserving.orderly.simple b (List.mem_of_getElem? (find?_eq_some.1 hfd).2)) rfl
  · have h := hkeeps r
    rw [hstanding, Standing.Keeps] at h
    dsimp only at h
    split at h
    · exact h.2
    · exact absurd h.1 hr
  · have h := hkeeps t.reference
    have hfound : (bs.find? fun u => u.reference = t.reference) = some t :=
      (find?_key_eq_some_iff (nodup_references hserving.orderly hd hs)).2 ⟨hmem, rfl⟩
    rw [hstanding, Standing.Keeps] at h
    dsimp only at h
    rw [hfound] at h
    exact h.2

/-- The second of two calls, which keeps one target of the first, gives up the
other and lists a new one twice. -/
theorem reconcile_converges_second :
    let policies := [("widgets", Policy.default)]
    let w := (ofActivators policies).play .prompt
      [.submit [.plain 0 "v1" ["a", "b"]], .join 0, .begin 0, .look 0 0, .look 0 1, .close 0,
        .submit [.plain 0 "v2" ["b", "c", "c"]], .join 1]
    let w' := ((w.begin 1).play .prompt [.look 1 0, .look 1 1]).close 1
    Reachable .prompt policies w ∧ Serves .prompt 1 w w' ∧
      ∃ c a c' a' result time, w.find? 1 = some (c, a) ∧ w'.find? 1 = some (c', a') ∧
        c'.targets = c.targets ∧ c'.activator = c.activator ∧
        c'.result? = some (result, time) ∧
        Converged c.targets c'.attempts result a.store a'.store := by
  intro policies w w'
  have hreach : Reachable .prompt policies w := ⟨_, rfl⟩
  have hserves : Serves .prompt 1 w w' := ⟨by decide +kernel, _, by decide +kernel, rfl⟩
  exact ⟨hreach, hserves, reconcile_converges hreach hserves⟩

end World

end Lifecycle
