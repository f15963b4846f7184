import Lifecycle.Orchestrator
import Lifecycle.Proofs.Portion

/-!
# Activators do not interfere

Activators share the registry, the clock and the collaborators. Nevertheless what one
of them has in a run is what it has in the run in which nobody else makes calls:
`activators_do_not_interfere`. It never waits for the others either.

This rests on the collaborators. What they know of one activator they must not tell
another one, and the controllers must keep to their own calls, should they cancel any,
and to their own names, which are never those of another activator:
`Collaborators.Separates`. The hard case is the abort after a registration that has
failed, since it frees whatever has the name. It is the one thing that an attempt does
to what it did not make, and only the names keep it from harm.
-/

namespace Lifecycle

variable {C T : Type}

/-- What was noted for an activator and when, in the order of time. -/
def Trace.account (t : Trace C T) (k : Nat) : List (Nat × Happening C T) :=
  (Trace.ofActivator t k).map fun e => (e.time, e.what)

theorem Trace.Renumbered.account_eq {k : Nat} {f : Nat → Nat} {t t' : Trace C T}
    (h : Renumbered k f t t') : account t' k = account t k := by
  rw [account, h, List.map_map]
  rfl

variable [Targeted T]

section Separates

variable (env : Collaborators C T) (policies : List (String × Policy)) (fits : Nat → C → T → Prop)

/-- The names that the controllers of an activator can have, for configurations and targets
that its calls can have. -/
def Collaborators.Names (l : Nat) (n : String) : Prop :=
  ∃ p config t, policies[l]? = some p ∧ fits l config t ∧ env.Bears p.1 config t n

/-- For the collaborators an activator has nothing to do with the others. A registration may
cancel its own call; other calls are cancelled by those who make them. -/
structure Collaborators.Separates (k : Nat) : Prop where
  /-- A check depends on what it asks for and when. -/
  checks : ∀ tr tr' now gv, env.check tr now gv = env.check tr' now gv
  quiet : ∀ tr now gv, (env.check tr now gv).cancels = false
  /-- A controller of the activator depends on what was done for the activator, and on the
  clock. -/
  creates : ∀ p config t, policies[k]? = some p → fits k config t → ∀ tr tr' now,
    Trace.account tr' k = Trace.account tr k →
      env.create tr' now p.1 t config = env.create tr now p.1 t config
  registers : ∀ l p config t, policies[l]? = some p → fits l config t → ∀ tr now,
    let c := env.create tr now p.1 t config
    c.registration.spawnsOnly c.name ∧ c.registration.keepsToCall
  names : ∀ l, l ≠ k → ∀ n, env.Names policies fits l n → ¬ env.Names policies fits k n

/-- Whether a move makes only calls that can be made. -/
def Move.Fits (m : Move C T) : Prop :=
  ∀ rs, m = .submit rs → ∀ q ∈ rs, ∀ t ∈ q.targets, fits q.activator q.config t

end Separates

namespace World

section Fitting

variable {env : Collaborators C T} {policies : List (String × Policy)} {fits : Nat → C → T → Prop}
  {m : Move C T} {w w' : World C T}

/-- What holds of a world in which only calls are made that can be made: the controllers that
its attempts register keep to the names of their activator. -/
structure Fitting (env : Collaborators C T) (policies : List (String × Policy))
    (fits : Nat → C → T → Prop) (w : World C T) : Prop where
  orderly : w.Orderly
  inLine : w.InLine
  taken : ∃ order, Taken 0 order w
  calls : ∀ c ∈ w.calls, ∀ t ∈ c.targets, fits c.activator c.config t
  capability : ∀ (l : Nat) a, w.activators[l]? = some a →
    ∃ p, policies[l]? = some p ∧ p.1 = a.capability
  discreet : ∀ (i : Nat) c, w.calls[i]? = some c → ∀ j u, w.attempt? i j = some u →
    u.Discreet (env.Names policies fits c.activator)

theorem fits_step (h : Step env m w w') (hm : m.Fits fits)
    (hw : ∀ c ∈ w.calls, ∀ t ∈ c.targets, fits c.activator c.config t) :
    ∀ c ∈ w'.calls, ∀ t ∈ c.targets, fits c.activator c.config t := by
  have hback := h.background
  cases h with
  | submit =>
      intro c hc
      rcases List.mem_append.1 hc with hc | hc
      · exact hw c hc
      · obtain ⟨q, hq, rfl⟩ := List.mem_map.1 hc
        exact hm _ rfl q hq
  | join | begin | look | cancel | drop =>
      exact forall_mem_modify hw fun c hc => hw c (List.mem_of_getElem? hc)
  | close =>
      rw [closed_calls]
      exact forall_mem_modify hw fun c hc => hw c (List.mem_of_getElem? hc)
  | _ =>
      rw [(hback rfl).1]
      exact hw

/-- What the collaborators make of the targets of a call. -/
theorem Fitting.creates (hw : w.Fitting env policies fits) {k : Nat}
    (henv : env.Separates policies fits k) {i : Nat} {c : Call C T} {a : Activator} {t : T}
    (hf : w.find? i = some (c, a)) (ht : t ∈ c.targets) (tr : Trace C T) (now : Nat) :
    let d := env.create tr now a.capability t c.config
    env.Names policies fits c.activator d.name ∧ d.registration.spawnsOnly d.name ∧
      d.registration.keepsToCall := by
  obtain ⟨hc, ha⟩ := find?_eq_some.1 hf
  obtain ⟨p, hp, hcap⟩ := hw.capability _ a ha
  have hfits := hw.calls c (List.mem_of_getElem? hc) t ht
  rw [← hcap]
  exact ⟨⟨p, c.config, t, hp, hfits, tr, now, rfl⟩, henv.registers _ p _ t hp hfits tr now⟩

/-- The attempts of a call are for its targets. -/
theorem Orderly.target_mem (hw : w.Orderly) {i j : Nat} {c : Call C T} {as : List (Attempt T)}
    {u : Attempt T} (hc : w.calls[i]? = some c) (hs : c.stage = .working as)
    (hu : as[j]? = some u) : u.target ∈ c.targets := by
  have hcovers := hw.covers c (List.mem_of_getElem? hc) as (.inl hs)
  have hmem : u.target ∈ as.map Attempt.target := List.mem_map_of_mem (List.mem_of_getElem? hu)
  rw [hcovers] at hmem
  exact (distinctBy_sublist ..).subset hmem

theorem fitting_step {k : Nat} (henv : env.Separates policies fits k) (h : Step env m w w')
    (hm : m.Fits fits) (hw : w.Fitting env policies fits) : w'.Fitting env policies fits := by
  obtain ⟨order, htaken⟩ := hw.taken
  refine ⟨orderly_step h hw.orderly, inLine_step h hw.inLine, ⟨_, taken_step h hw.orderly htaken⟩,
    fits_step h hm hw.calls, fun l a' ha' => ?_, fun i c' hc' j u' hu' => ?_⟩
  · obtain ⟨a, ha, hcap, -⟩ := h.exists_activator ha'
    rw [hcap]
    exact hw.capability l a ha
  · have hsame : ∀ c, w.calls[i]? = some c → c'.activator = c.activator := by
      intro c hc
      obtain ⟨d, hd, hlater⟩ := h.later hc
      rw [hc'] at hd
      cases hd
      exact hlater.activator
    cases h.fate hw.orderly hu' with
    | kept hu =>
        have hc := hu
        rw [attempt?_eq] at hc
        obtain ⟨c, hc, -⟩ := Option.bind_eq_some_iff.1 hc
        rw [hsame c hc]
        exact hw.discreet i c hc j u' hu
    | begun _ _ _ hu =>
        subst hu
        exact nofun
    | @looked c a as u s' hf hst hu hp =>
        have hc := (find?_eq_some.1 hf).1
        have hdiscreet := hw.discreet i c hc j u (by rw [attempt?_of_working hf hst, hu])
        rw [hsame c hc]
        exact hp.discreet hdiscreet
          (hw.creates henv hf (hw.orderly.target_mem hc hst hu))

end Fitting

/-! ## The run without the others -/

/-- What a move becomes when nobody else makes calls. -/
def sole (k : Nat) (w : World C T) (m : Move C T) : List (Move C T) :=
  match m with
  | .submit rs => if w.isQuiet then [.submit (rs.filter fun q => q.activator = k)] else []
  | m =>
    match m.call? with
    | some i => if w.isOn k i then [m.renumber (w.rank k)] else []
    | none => [m]

omit [Targeted T] in
theorem sole_of_background (k : Nat) (w : World C T) {m : Move C T} (hm : m.isBackground) :
    w.sole k m = [m] := by
  cases m <;> first | rfl | cases hm

omit [Targeted T] in
theorem sole_of_call {k : Nat} (w : World C T) {m : Move C T} {i : Nat} (hm : m.call? = some i) :
    w.sole k m = if w.isOn k i then [m.renumber (w.rank k)] else [] := by
  cases m <;> cases hm <;> rfl

/-- A run without the calls that others make. -/
def solely (env : Collaborators C T) (k : Nat) : World C T → List (Move C T) → List (Move C T)
  | _, [] => []
  | w, m :: ms => w.sole k m ++ solely env k (w.move env m) ms

section Sole

variable {env : Collaborators C T} {policies : List (String × Policy)} {fits : Nat → C → T → Prop}
  {k : Nat} {m : Move C T} {w v : World C T}

/-- What the activator cannot see makes no difference to the collaborators. -/
theorem Fitting.regards (hw : w.Fitting env policies fits) (henv : env.Separates policies fits k)
    {i : Nat} {c : Call C T} {a : Activator} {t : T} (hf : w.find? i = some (c, a))
    (hk : c.activator = k) (ht : t ∈ c.targets) (f : Nat → Nat) :
    env.Regards (context a i c).scope t (env.Names policies fits k) (Trace.Renumbered k f) := by
  subst hk
  obtain ⟨hc, ha⟩ := find?_eq_some.1 hf
  obtain ⟨p, hp, hcap⟩ := hw.capability _ a ha
  refine ⟨fun _ => henv.checks _ _, fun h now => ?_, fun tr now => ?_⟩
  · have hcreate := henv.creates p c.config t hp (hw.calls c (List.mem_of_getElem? hc) t ht) _ _ now
      h.account_eq
    rw [hcap] at hcreate
    exact hcreate
  · obtain ⟨hname, hspawns, -⟩ := hw.creates henv hf ht tr now
    exact ⟨hname, hspawns⟩

/-- What others do that keep to their own names. -/
theorem Fitting.spared (hw : w.Fitting env policies fits) (henv : env.Separates policies fits k)
    {i j : Nat} {c : Call C T} {a : Activator} {as : List (Attempt T)} {t : Attempt T}
    (hf : w.find? i = some (c, a)) (hs : c.stage = .working as) (ht : as[j]? = some t) :
    Attempt.Spared (env.Names policies fits c.activator) i (w.site a)
      (t.look env (context a i c) (w.site a)).2 := by
  have hc := (find?_eq_some.1 hf).1
  have hdiscreet := hw.discreet i c hc j t (by rw [attempt?_of_working hf hs, ht])
  exact (Attempt.Steps.spares (Attempt.look_steps env (context a i c) t (w.site a)) hdiscreet
    (hw.creates henv hf (hw.orderly.target_mem hc hs ht)) henv.quiet).2

/-- A move makes of the portion of an activator what the same move without the others makes
of the world that has just that. -/
theorem Portion.move (h : w.Portion (env.Names policies fits k) k v)
    (henv : env.Separates policies fits k) (hw : w.Fitting env policies fits)
    (hm : ∀ s, m ≠ .turnShutdown s) :
    (w.move env m).Portion (env.Names policies fits k) k (v.play env (w.sole k m)) := by
  rcases m.kinds with ⟨rs, rfl⟩ | hback | ⟨i, hi⟩
  · rw [World.move, sole]
    split
    · next hq =>
        obtain ⟨order, htaken⟩ := hw.taken
        rw [play, List.foldl_cons, List.foldl_nil, World.move, if_pos (h.isQuiet hq)]
        exact h.submit hw.inLine (fun e he x hx => (htaken.known e he x hx).1) rs
    · exact h
  · rw [sole_of_background k w hback]
    exact h.loops hback hm
  · rw [sole_of_call w hi]
    cases hon : w.isOn k i with
    | false =>
        cases m with
        | look i j =>
            cases hi
            exact h.look_other hon fun c a as t hf hs ht =>
              ⟨env.Names policies fits c.activator,
                henv.names _ (activator_ne hon (find?_eq_some.1 hf).1), hw.spared henv hf hs ht⟩
        | _ => exact h.move_other hi hon (by rintro _ ⟨⟩)
    | true =>
        rw [if_pos rfl, play, List.foldl_cons, List.foldl_nil]
        cases m with
        | join => cases hi; exact h.join hon
        | begin => cases hi; exact h.begin hon hw.inLine
        | close => cases hi; exact h.close hon hw.inLine
        | cancel => cases hi; exact h.cancel hon
        | drop => cases hi; exact h.drop hon hw.inLine
        | look i j =>
            cases hi
            refine h.look hon j fun c a as t hf hs ht => ?_
            have hc := (find?_eq_some.1 hf).1
            obtain ⟨hk, -⟩ := h.find? hon hf
            exact ⟨hw.regards henv hf hk (hw.orderly.target_mem hc hs ht) _,
              hk ▸ hw.discreet i c hc j t (by rw [attempt?_of_working hf hs, ht])⟩
        | _ => cases hi

theorem portion_play {ms : List (Move C T)} (henv : env.Separates policies fits k)
    (hms : ∀ m ∈ ms, m.Fits fits ∧ ∀ s, m ≠ .turnShutdown s) :
    ∀ {w v : World C T}, w.Fitting env policies fits →
      w.Portion (env.Names policies fits k) k v →
      (w.play env ms).Portion (env.Names policies fits k) k (v.play env (solely env k w ms)) ∧
        (w.play env ms).Fitting env policies fits := by
  induction ms with
  | nil => exact fun hw h => ⟨h, hw⟩
  | cons m ms ih =>
      intro w v hw h
      obtain ⟨hm, hshut⟩ := hms m (.head ms)
      rw [solely, play_append]
      have hw' : (w.move env m).Fitting env policies fits :=
        invariant_of_move (P := fun w => w.Fitting env policies fits)
          (fun hs hw => fitting_step henv hs hm hw) hw
      exact ih (fun m hm => hms m (.tail _ hm)) hw' (h.move henv hw hshut)

theorem activator_of_mem_solely (ms : List (Move C T)) (w : World C T) :
    ∀ rs, .submit rs ∈ solely env k w ms → ∀ q ∈ rs, q.activator = k := by
  induction ms generalizing w with
  | nil => exact nofun
  | cons m ms ih =>
      intro rs hrs q hq
      rw [solely, List.mem_append] at hrs
      rcases hrs with hrs | hrs
      · rcases m.kinds with ⟨rs', rfl⟩ | hback | ⟨i, hi⟩
        · rw [sole] at hrs
          split at hrs
          · cases List.mem_singleton.1 hrs
            exact of_decide_eq_true (List.mem_filter.1 hq).2
          · cases hrs
        · rw [sole_of_background k w hback, List.mem_singleton] at hrs
          subst hrs
          cases hback
        · rw [sole_of_call w hi] at hrs
          split at hrs
          · cases m <;> cases hi <;> cases List.mem_singleton.1 hrs
          · cases hrs
      · exact ih _ rs hrs q hq

/-- What an activator has in a run is what it has in the run without the others. -/
structure Undisturbed (env : Collaborators C T) (k : Nat) (w : World C T) (ms : List (Move C T)) :
    Prop where
  /-- Nobody else makes calls. -/
  alone : ∀ rs, .submit rs ∈ solely env k w ms → ∀ q ∈ rs, q.activator = k
  /-- Its calls are the same, with all that their attempts have come to. -/
  calls : (w.play env (solely env k w ms)).calls.map Call.bare =
    ((w.play env ms).calls.filter fun c => c.activator = k).map Call.bare
  results : (w.play env (solely env k w ms)).calls.map Call.result? =
    ((w.play env ms).calls.filter fun c => c.activator = k).map Call.result?
  /-- The same is done for them at the same instants. -/
  trace : Trace.Renumbered k ((w.play env ms).rank k) (w.play env ms).trace
    (w.play env (solely env k w ms)).trace
  store : (w.play env (solely env k w ms)).activators[k]?.map Activator.store =
    (w.play env ms).activators[k]?.map Activator.store
  /-- A call waits for no call of others, be it to begin or to end. -/
  waits : ∀ i, (w.play env ms).isOn k i →
    (w.play env (solely env k w ms)).hasTurn ((w.play env ms).rank k i) =
        (w.play env ms).hasTurn i ∧
      (w.play env (solely env k w ms)).isSettled ((w.play env ms).rank k i) =
        (w.play env ms).isSettled i

theorem Portion.undisturbed {own : String → Prop} {w : World C T} {ms : List (Move C T)}
    (h : (w.play env ms).Portion own k (w.play env (solely env k w ms)))
    (hline : (w.play env ms).InLine) : w.Undisturbed env k ms where
  alone := activator_of_mem_solely ms w
  calls := h.calls
  results := by
    have hresult : (Call.result? : Call C T → _) = Call.result? ∘ Call.bare :=
      funext fun c => c.result?_bare.symm
    rw [hresult, ← List.map_map, ← List.map_map, h.calls]
  trace := h.trace
  store := by
    rw [h.activator, Option.map_map]
    rfl
  waits i hi := ⟨h.hasTurn hi hline, h.isSettled hi⟩

/-- Nobody who keeps to other names makes any difference to an activator. -/
theorem activators_do_not_interfere {ms : List (Move C T)} (henv : env.Separates policies fits k)
    (hms : ∀ m ∈ ms, m.Fits fits ∧ ∀ s, m ≠ .turnShutdown s) :
    (ofActivators policies : World C T).Undisturbed env k ms := by
  have hfitting : (ofActivators policies : World C T).Fitting env policies fits := by
    refine ⟨orderly_ofActivators policies, inLine_ofActivators policies,
      ⟨[], taken_ofActivators policies 0⟩, nofun, fun l a ha => ?_, nofun⟩
    obtain ⟨p, hp, rfl⟩ := Option.map_eq_some_iff.1 (List.getElem?_map ▸ ha)
    exact ⟨p, hp, rfl⟩
  have hportion : (ofActivators policies : World C T).Portion (env.Names policies fits k) k
      (ofActivators policies) := by
    refine ⟨.refl _, nofun, rfl, ?_, rfl, fun _ _ => rfl⟩
    cases ha : (ofActivators policies : World C T).activators[k]? with
    | none => rfl
    | some a =>
        obtain ⟨p, -, rfl⟩ := List.mem_map.1 (List.mem_of_getElem? ha)
        rfl
  obtain ⟨hplayed, hw⟩ := portion_play henv hms hfitting hportion
  exact hplayed.undisturbed hw.inLine

end Sole

end World

/-! ## The two capabilities -/

namespace Orchestrator

/-- A call of one of the capabilities. -/
inductive Toggle : Request CapabilityConfig CapabilityTarget → Prop where
  | authorization (c ts cancelled cancelAt dropAt) :
      Toggle (toggleAuthorization c ts cancelled cancelAt dropAt)
  | routing (c ts cancelled cancelAt dropAt) :
      Toggle (toggleRouting c ts cancelled cancelAt dropAt)

/-- What the calls of a capability have for configurations and targets. -/
inductive Takes : Nat → CapabilityConfig → CapabilityTarget → Prop where
  | authorization (c t) : Takes Capability.authorization.index (.authorization c) (.authorization t)
  | routing (c t) : Takes Capability.routing.index (.routing c) (.routing t)

theorem Toggle.takes {q : Request CapabilityConfig CapabilityTarget} (h : Toggle q) :
    ∀ t ∈ q.targets, Takes q.activator q.config t := by
  intro t ht
  cases h with
  | authorization =>
      obtain ⟨t, -, rfl⟩ := List.mem_map.1 ht
      exact .authorization _ t
  | routing =>
      obtain ⟨t, -, rfl⟩ := List.mem_map.1 ht
      exact .routing _ t

/-- The names under which the capabilities have their activators, with the policy of both. -/
def policies (p : Policy) : List (String × Policy) :=
  [(Capability.authorization.label, p), (Capability.routing.label, p)]

/-- However calls of both capabilities are mixed, each of them has what it has without the
other one, and waits for its own calls only. -/
theorem capabilities_do_not_interfere
    {env : Collaborators CapabilityConfig CapabilityTarget} {p : Policy} (capability : Capability)
    {ms : List (Move CapabilityConfig CapabilityTarget)}
    (henv : env.Separates (policies p) Takes capability.index)
    (hcalls : ∀ rs, .submit rs ∈ ms → ∀ q ∈ rs, Toggle q)
    (hloops : ∀ s, .turnShutdown s ∉ ms) : (start p).Undisturbed env capability.index ms := by
  refine World.activators_do_not_interfere henv fun m hm => ⟨?_, ?_⟩
  · rintro rs rfl q hq
    exact (hcalls rs hm q hq).takes
  · rintro s rfl
    exact hloops s hm

/-- Both capabilities have the same three targets. Routing fails to register a controller for
the first one and cancels its own call as it registers one for the last, so it waits no longer
for the other. Authorization waits for that until its caller cancels it. -/
theorem capabilities_do_not_interfere_failing :
    let target (version name : String) : ResourceReference :=
      ⟨"example.com", version, "Widget", name, some "default"⟩
    let targets := [target "v1" "a", target "v2" "b", target "v1" "c"]
    let env : Collaborators CapabilityConfig CapabilityTarget :=
      { remote := false
        refusal? := fun _ => none
        check := fun _ _ gv => ⟨false, if gv.version = "v2" then none else some 0, .ready⟩
        create := fun _ _ _ t _ =>
          match t with
          | .authorization t =>
            let name := "authorization/" ++ t.resourceReference.name
            ⟨name, .spawn name .forever (.finish none)⟩
          | .routing t =>
            let name := "routing/" ++ t.resourceReference.name
            let failed := .finish (some (.registration name "no gateway"))
            ⟨name, .spawn name .forever
              (if t.resourceReference.name = "c" then .cancel false failed else failed)⟩ }
    let ms := [.submit
        [toggleRouting .empty (targets.map .mk) false none none,
          toggleAuthorization .empty (targets.map fun r => ⟨r, .empty, [], []⟩) false none none],
      .join 1, .join 0, .begin 0, .begin 1, .look 0 0, .look 1 0, .look 0 1, .look 1 1, .look 0 2,
      .look 1 2, .look 0 1, .close 0, .advance 20, .look 1 1, .cancel 1, .look 1 1, .close 1]
    ((start .default).play env ms).calls.map Call.result? =
        [some (.failed [.setup "routing/a" (.registration "routing/a" "no gateway"),
            .cancelled (target "v2" "b").gvk, .cancelled (target "v1" "c").gvk], 0),
          some (.failed [.cancelled (target "v2" "b").gvk], 20)] ∧
      ∀ capability : Capability, (start .default).Undisturbed env capability.index ms := by
  intro target targets env ms
  refine ⟨by decide +kernel, fun capability => ?_⟩
  have hnames : ∀ n n' : String, "authorization/" ++ n ≠ "routing/" ++ n' := by
    intro n n' h
    have hhead := congrArg (fun s => s.toList.head?) h
    simp at hhead
  have henv : env.Separates (policies .default) Takes capability.index := by
    refine ⟨fun _ _ _ _ => rfl, fun _ _ _ => rfl, fun _ _ _ _ _ _ _ _ _ => rfl, ?_, ?_⟩
    · intro l p config t _ hfits tr now
      cases hfits with
      | authorization => simp [env, Registration.spawnsOnly, Registration.keepsToCall]
      | routing _ t =>
          by_cases hc : t.resourceReference.name = "c" <;>
            simp [env, hc, Registration.spawnsOnly, Registration.keepsToCall]
    · intro l hl n hn hk
      obtain ⟨p, config, t, -, hfits, tr, now, rfl⟩ := hn
      obtain ⟨p', config', t', -, hfits', tr', now', hname⟩ := hk
      cases capability <;> cases hfits' <;> cases hfits
      · exact hl rfl
      · exact hnames _ _ hname
      · exact hnames _ _ hname.symm
      · exact hl rfl
  have hcalls : ∀ rs, .submit rs ∈ ms → ∀ q ∈ rs, Toggle q := by
    intro rs hrs q hq
    have hsubmit := (List.mem_cons.1 hrs).resolve_right (by simp)
    cases hsubmit
    rcases List.mem_pair.1 hq with rfl | rfl
    · exact .routing ..
    · exact .authorization ..
  exact capabilities_do_not_interfere capability henv hcalls (by simp [ms])

end Orchestrator

end Lifecycle
