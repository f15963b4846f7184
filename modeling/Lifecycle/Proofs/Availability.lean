import Lifecycle.Discovery.Exchange

/-!
# Whether a schema is available

Whoever asks for a schema means the status of the response: a 404 says that the schema is
not there, any other error status that the query failed, and a list of resources speaks for
itself. This is `AnsweredByStatus`.

The answer is not made from the status, though. An error status is turned into a refusal
first, and the refusal has a code of its own, which comes from the body if the body holds
one; only a body that is no refusal leaves the status where the code would be. So the law
holds of a response just when status and body do not contradict each other about the 404
(`ready_by_status`), and for every error status there is a body that contradicts it.
-/

namespace Lifecycle.Discovery

namespace Response

/-- Whether a response is a list of resources, in a number as wanted. A list without its
resources, or with null instead of them, has none; an error status makes a list of no body. -/
def Lists (wanted : Nat → Prop) : Response → Prop
  | received status body =>
    isErrorStatus status = false ∧
      ∃ list, ResourceList.ofText body = .ok list ∧ wanted list.resources
  | lost _ => False

def HasStatus (code : Nat) : Response → Prop
  | received status _ => status = code
  | lost _ => False

/-- A refusal of code 404: that of the body if it holds one, or else the status itself. -/
def Denies : Response → Prop
  | received status body =>
    isErrorStatus status ∧
      ((∃ r, Refusal.ofText? body = some r ∧ r.code = 404) ∨
        (Refusal.ofText? body = none ∧ status = 404))
  | lost _ => False

/-- A refusal in the body of an error status of which one is a 404 and the other is not. -/
def IsContradictory : Response → Prop
  | received status body =>
    isErrorStatus status ∧
      ∃ r, Refusal.ofText? body = some r ∧ ¬ (r.code = 404 ↔ status = 404)
  | lost _ => False

end Response

/-- The answer to a query is the one that the status of the response stands for. -/
structure AnsweredByStatus (gv : GroupVersion) (r : Response) : Prop where
  available : r.ready gv = .ok true ↔ r.Lists (0 < ·)
  unavailable : r.ready gv = .ok false ↔ r.HasStatus 404 ∨ r.Lists (· = 0)
  failed : ¬ r.Lists (0 < ·) → ¬ r.HasStatus 404 → ¬ r.Lists (· = 0) →
    ∃ m, r.ready gv = .error (.discovery gv.apiVersion m)

/-! ## What an answer is made of -/

section

variable {gv : GroupVersion} {r : Response} {status : Nat} {body : String}

theorem answer_of_isErrorStatus (h : isErrorStatus status) :
    (Response.received status body).answer = .error (.refused (refusal status body)) :=
  if_pos h

/-- A response without an error status is only a list. -/
theorem answer_eq_ok_iff {list : ResourceList} :
    (Response.received status body).answer = .ok list ↔
      isErrorStatus status = false ∧ ResourceList.ofText body = .ok list := by
  cases hs : isErrorStatus status with
  | true => simp [answer_of_isErrorStatus hs]
  | false =>
      rw [Response.answer, if_neg (by simp [hs])]
      cases ResourceList.ofText body <;> simp

/-- Only an error status is a refusal. -/
theorem answer_eq_refused_iff {refused : Refusal} :
    (Response.received status body).answer = .error (.refused refused) ↔
      isErrorStatus status ∧ refusal status body = refused := by
  cases hs : isErrorStatus status with
  | true => simp [answer_of_isErrorStatus hs]
  | false =>
      rw [Response.answer, if_neg (by simp [hs])]
      cases ResourceList.ofText body <;> simp

theorem code_refusal_iff :
    (refusal status body).code = 404 ↔
      (∃ r, Refusal.ofText? body = some r ∧ r.code = 404) ∨
        (Refusal.ofText? body = none ∧ status = 404) := by
  rw [refusal]
  cases Refusal.ofText? body <;> simp

theorem classify_eq_true_iff {answer : Except Failure ResourceList} :
    classify gv answer = .ok true ↔ ∃ list, answer = .ok list ∧ 0 < list.resources := by
  fun_cases classify gv answer <;> simp_all

theorem classify_eq_false_iff {answer : Except Failure ResourceList} :
    classify gv answer = .ok false ↔
      (∃ r, answer = .error (.refused r) ∧ r.code = 404) ∨
        ∃ list, answer = .ok list ∧ list.resources = 0 := by
  fun_cases classify gv answer <;> simp_all

/-- A query fails with the failure of the request, under the name of what was asked for. -/
theorem classify_eq_error_iff {answer : Except Failure ResourceList} {f : Fault} :
    classify gv answer = .error f ↔ ∃ failure, answer = .error failure ∧
      (∀ r, failure = .refused r → r.code ≠ 404) ∧
      f = .discovery gv.apiVersion failure.message := by
  fun_cases classify gv answer <;> simp_all [eq_comm]

theorem ready_eq_true_iff : r.ready gv = .ok true ↔ r.Lists (0 < ·) := by
  rw [Response.ready, classify_eq_true_iff]
  cases r with
  | lost t => simp [Response.answer, Response.Lists]
  | received status body => simp [answer_eq_ok_iff, Response.Lists, and_assoc]

theorem ready_eq_false_iff : r.ready gv = .ok false ↔ r.Denies ∨ r.Lists (· = 0) := by
  rw [Response.ready, classify_eq_false_iff]
  cases r with
  | lost t => simp [Response.answer, Response.Lists, Response.Denies]
  | received status body =>
      simp only [answer_eq_ok_iff, answer_eq_refused_iff, Response.Lists, Response.Denies,
        ← code_refusal_iff, and_assoc, exists_and_left, exists_eq_left']

/-- A 404 is an error status, so that a response with it is denied or contradicts itself. -/
theorem denies_iff_of_not_isContradictory (h : ¬ r.IsContradictory) :
    r.Denies ↔ r.HasStatus 404 := by
  cases r with
  | lost t => rfl
  | received status body =>
      have herror : status = 404 → isErrorStatus status := by
        rintro rfl
        rfl
      simp only [Response.IsContradictory, not_and, not_exists, Classical.not_not] at h
      constructor
      · rintro ⟨hs, ⟨refused, hbody, hcode⟩ | ⟨-, rfl⟩⟩
        · exact (h hs refused hbody).1 hcode
        · rfl
      · rintro rfl
        refine ⟨herror rfl, ?_⟩
        cases hbody : Refusal.ofText? body with
        | none => exact .inr ⟨rfl, rfl⟩
        | some refused => exact .inl ⟨refused, rfl, (h (herror rfl) refused hbody).2 rfl⟩

/-- A contradictory response is denied for its body and has another status, or the other way
round; either way it is no list. -/
theorem Response.IsContradictory.not_answeredByStatus (h : r.IsContradictory) :
    ¬ AnsweredByStatus gv r := by
  intro hlaw
  cases r with
  | lost t => exact h
  | received status body =>
      obtain ⟨hs, refused, hbody, hne⟩ := h
      have hlists : ¬ (Response.received status body).Lists (· = 0) := by
        rintro ⟨hs', -⟩
        simp [hs] at hs'
      have hunavailable := hlaw.unavailable
      rw [ready_eq_false_iff, or_iff_left hlists, or_iff_left hlists] at hunavailable
      have hdenies : (Response.received status body).Denies ↔ refused.code = 404 := by
        simp [Response.Denies, hs, hbody]
      exact hne (hdenies.symm.trans hunavailable)

end

/-! ## The law of the answers -/

/-- Responses are told apart by their status, as far as the body of an error status does not
contradict it: the answers are these, and it is the law of the statuses just when there is no
contradiction. A query that fails names the group and version that was asked for, and so does
one that cannot be made at all. -/
theorem ready_by_status (gv : GroupVersion) (r : Response) :
    (r.ready gv = .ok true ↔ r.Lists (0 < ·)) ∧
    (r.ready gv = .ok false ↔ r.Denies ∨ r.Lists (· = 0)) ∧
    (∀ f, r.ready gv = .error f ↔ ∃ failure, r.answer = .error failure ∧
      (∀ refused, failure = .refused refused → refused.code ≠ 404) ∧
      f = .discovery gv.apiVersion failure.message) ∧
    (∀ f, unaskable? gv = some f → ∃ m, f = .discovery gv.apiVersion m) ∧
    (AnsweredByStatus gv r ↔ ¬ r.IsContradictory) := by
  refine ⟨ready_eq_true_iff, ready_eq_false_iff, fun f => classify_eq_error_iff, fun f hf => ?_,
    fun hlaw h => h.not_answeredByStatus hlaw, fun h => ⟨ready_eq_true_iff, ?_, ?_⟩⟩
  · obtain ⟨fault, -, rfl⟩ := Option.map_eq_some_iff.1 hf
    exact ⟨_, rfl⟩
  · rw [ready_eq_false_iff, denies_iff_of_not_isContradictory h]
  · intro hlist hstatus hempty
    cases hready : r.ready gv with
    | error f =>
        obtain ⟨failure, -, -, rfl⟩ := classify_eq_error_iff.1 hready
        exact ⟨_, rfl⟩
    | ok available =>
        cases available with
        | true => exact absurd (ready_eq_true_iff.1 hready) hlist
        | false =>
            rw [ready_eq_false_iff, denies_iff_of_not_isContradictory h] at hready
            exact absurd hready (not_or.2 ⟨hstatus, hempty⟩)

/-- A list that is absent, null or empty is served by nobody. -/
example :
    ["\x7b\x7d", "\x7b\"resources\":null\x7d", "\x7b\"resources\":[]\x7d",
      "\x7b\"resources\":[\x7b\x7d]\x7d"].map
      (fun body => ((Response.received 200 body).ready ⟨"g", "v"⟩).toOption) =
      [some false, some false, some false, some true] := by
  decide +kernel

/-- The body of a refusal that leaves its code open, as far as it may. -/
def uncodedBody : String :=
  "\x7b\"kind\":\"Status\",\"apiVersion\":\"v1\",\"status\":\"Failure\"," ++
    "\"message\":\"not found\",\"reason\":\"NotFound\",\"code\":0\x7d"

/-- A refusal that is written as an array of its fields. -/
def codedBody : String := "[\"Failure\",\"not found\",\"NotFound\",404]"

theorem ofText?_uncodedBody :
    Refusal.ofText? uncodedBody = some ⟨"Failure", "not found", "NotFound", 0⟩ := by
  decide +kernel

theorem ofText?_codedBody :
    Refusal.ofText? codedBody = some ⟨"Failure", "not found", "NotFound", 404⟩ := by
  decide +kernel

/-- No error status can be relied on: some body contradicts it. -/
theorem exists_isContradictory {status : Nat} (h : isErrorStatus status) :
    ∃ body, (Response.received status body).IsContradictory := by
  by_cases hs : status = 404
  · exact ⟨uncodedBody, h, _, ofText?_uncodedBody, by simp [hs]⟩
  · exact ⟨codedBody, h, _, ofText?_codedBody, by simp [hs]⟩

/-- A 404 whose body leaves the code open is a failed query. -/
theorem uncoded_not_found_fails :
    let gv : GroupVersion := ⟨"widgets.example.com", "v1"⟩
    let r : Response := .received 404 uncodedBody
    r.HasStatus 404 ∧ r.ready gv ≠ .ok false ∧ ¬ AnsweredByStatus gv r := by
  intro gv r
  have h : r.IsContradictory := ⟨rfl, _, ofText?_uncodedBody, by decide⟩
  refine ⟨rfl, ?_, h.not_answeredByStatus⟩
  rw [Ne, ready_eq_false_iff]
  rintro (⟨-, ⟨refused, hbody, hcode⟩ | ⟨hbody, -⟩⟩ | ⟨hs, -⟩)
  · rw [ofText?_uncodedBody] at hbody
    cases hbody
    cases hcode
  · rw [ofText?_uncodedBody] at hbody
    cases hbody
  · cases hs

end Lifecycle.Discovery
