import Mathlib.Algebra.Group.Nat.Defs
import Mathlib.Data.List.Induction
import Mathlib.Data.List.TakeWhile
import Lifecycle.Policy

/-!
# Policies that are set by texts

Both settings of a policy are texts that somebody has typed. `Policy.Denotes` says what
such a text means without saying how it is read: blanks around an optional plus sign and
some digits, of a value that fits in a word. `settings_read_exactly` says that the texts
are read just so. Where both mean something, they give the policy of exactly these
lengths, or they are refused because the interval is zero or beyond the timeout; where
one does not, it is quoted as it stands, the interval before the timeout.

The reader trims first and looks at a sign and digits then, while the meaning is about a
text as a whole. The two agree because neither a sign nor a digit is blank: nothing of a
numeral is lost at its ends.

Whoever typed a text that is refused is told which setting to look at. This can go wrong.
The two lengths are compared after the defaults have been filled in, and the comparison
blames the interval, whether it was given or not; `blames_given_iff` has the one case.
-/

namespace Lifecycle

namespace Text

/-! ## Numerals -/

/-- An optional plus sign and one or more ASCII digits, with their value in base ten. -/
def IsNumeral (s : List Char) (n : Nat) : Prop :=
  ∃ sign digits, s = sign ++ digits ∧ (sign = [] ∨ sign = ['+']) ∧ digits ≠ [] ∧
    (∀ c ∈ digits, c.isDigit) ∧ Nat.ofDigitChars 10 digits 0 = n

theorem digitsValue_concat (s : List Char) (c : Char) :
    digitsValue (s ++ [c]) = (digitsValue s).bind fun n =>
      if c.isDigit then some (10 * n + (c.toNat - 48)) else none := by
  rw [digitsValue, List.foldl_append]
  rfl

theorem digitsValue_eq_some_iff {s : List Char} {n : Nat} :
    digitsValue s = some n ↔ (∀ c ∈ s, c.isDigit) ∧ Nat.ofDigitChars 10 s 0 = n := by
  induction s using List.reverseRecOn generalizing n with
  | nil => simp [digitsValue]
  | append_singleton s c ih =>
      have hvalue : Nat.ofDigitChars 10 (s ++ [c]) 0 =
          10 * Nat.ofDigitChars 10 s 0 + (c.toNat - 48) := by
        rw [Nat.ofDigitChars_append]
        rfl
      rw [digitsValue_concat, Option.bind_eq_some_iff, hvalue]
      constructor
      · rintro ⟨m, hm, hc⟩
        obtain ⟨hdigits, rfl⟩ := ih.1 hm
        split at hc
        · next hdigit =>
            refine ⟨fun d hd => ?_, Option.some.inj hc⟩
            rcases List.mem_append.1 hd with hd | hd
            · exact hdigits d hd
            · rwa [List.mem_singleton.1 hd]
        · cases hc
      · rintro ⟨hdigits, rfl⟩
        refine ⟨_, ih.2 ⟨fun d hd => hdigits d (List.mem_append_left _ hd), rfl⟩, ?_⟩
        rw [if_pos (hdigits c (by simp))]

theorem unsigned?_plus (bound : Nat) (digits : List Char) :
    unsigned? bound ('+' :: digits) =
      if digits.isEmpty then none
      else (digitsValue digits).bind fun n => if n ≤ bound then some n else none := rfl

theorem unsigned?_of_head {bound : Nat} {digits : List Char} (h : digits.head? ≠ some '+') :
    unsigned? bound digits =
      if digits.isEmpty then none
      else (digitsValue digits).bind fun n => if n ≤ bound then some n else none := by
  unfold unsigned?
  split
  · next r => simp at h
  · rfl

/-- What is read of the digits of a numeral. -/
theorem bounded_eq_some_iff {bound n : Nat} {digits : List Char} :
    (if digits.isEmpty then none
      else (digitsValue digits).bind fun n => if n ≤ bound then some n else none) = some n ↔
      digits ≠ [] ∧ (∀ c ∈ digits, c.isDigit) ∧ Nat.ofDigitChars 10 digits 0 = n ∧ n ≤ bound := by
  cases digits with
  | nil => simp
  | cons c r =>
      rw [List.isEmpty_cons, if_neg Bool.false_ne_true, Option.bind_eq_some_iff]
      constructor
      · rintro ⟨m, hm, hle⟩
        obtain ⟨hdigits, rfl⟩ := digitsValue_eq_some_iff.1 hm
        split at hle
        · next hb =>
            cases hle
            exact ⟨nofun, hdigits, rfl, hb⟩
        · cases hle
      · rintro ⟨-, hdigits, rfl, hb⟩
        exact ⟨_, digitsValue_eq_some_iff.2 ⟨hdigits, rfl⟩, if_pos hb⟩

theorem unsigned?_eq_some_iff {bound n : Nat} {s : List Char} :
    unsigned? bound s = some n ↔ IsNumeral s n ∧ n ≤ bound := by
  have hplus : ¬ '+'.isDigit := by decide
  constructor
  · intro h
    by_cases hs : s.head? = some '+'
    · obtain ⟨digits, rfl⟩ := List.head?_eq_some_iff.1 hs
      rw [unsigned?_plus, bounded_eq_some_iff] at h
      obtain ⟨hne, hdigits, hvalue, hb⟩ := h
      exact ⟨⟨['+'], digits, rfl, .inr rfl, hne, hdigits, hvalue⟩, hb⟩
    · rw [unsigned?_of_head hs, bounded_eq_some_iff] at h
      obtain ⟨hne, hdigits, hvalue, hb⟩ := h
      exact ⟨⟨[], s, rfl, .inl rfl, hne, hdigits, hvalue⟩, hb⟩
  · rintro ⟨⟨sign, digits, rfl, rfl | rfl, hne, hdigits, hvalue⟩, hb⟩
    · rw [List.nil_append, unsigned?_of_head, bounded_eq_some_iff]
      · exact ⟨hne, hdigits, hvalue, hb⟩
      · intro hs
        exact hplus (hdigits '+' (List.mem_of_head? hs))
    · rw [List.singleton_append, unsigned?_plus, bounded_eq_some_iff]
      exact ⟨hne, hdigits, hvalue, hb⟩

/-! ## Padding -/

/-- A text with blanks in front of it and behind it. -/
def IsPadded (s t : List Char) : Prop :=
  ∃ front back, s = front ++ t ++ back ∧ ∀ c ∈ front ++ back, isBlank c

/-- Blanks in front of a text are lost, and no more if none follows. -/
theorem dropWhile_append_of_forall {front t : List Char} (hf : ∀ c ∈ front, isBlank c)
    (ht : ∀ c ∈ t.head?, ¬ isBlank c) : (front ++ t).dropWhile isBlank = t := by
  induction front with
  | nil => cases t <;> simp_all
  | cons c front ih =>
      rw [List.cons_append, List.dropWhile_cons_of_pos (hf c (List.mem_cons_self ..))]
      exact ih fun d hd => hf d (List.mem_cons_of_mem _ hd)

theorem isPadded_trim (s : List Char) : IsPadded s (trim s) := by
  refine ⟨s.takeWhile isBlank, ((s.dropWhile isBlank).reverse.takeWhile isBlank).reverse, ?_, ?_⟩
  · rw [trim, List.append_assoc, ← List.reverse_append, List.takeWhile_append_dropWhile,
      List.reverse_reverse, List.takeWhile_append_dropWhile]
  · intro c hc
    rcases List.mem_append.1 hc with hc | hc
    · exact List.mem_takeWhile_imp hc
    · exact List.mem_takeWhile_imp (List.mem_reverse.1 hc)

/-- A text that neither starts nor ends with a blank is what is left of it when it is padded. -/
theorem IsPadded.trim_eq {s t : List Char} (h : IsPadded s t) (hne : t ≠ [])
    (hs : ∀ c ∈ t.head?, ¬ isBlank c) (he : ∀ c ∈ t.getLast?, ¬ isBlank c) : trim s = t := by
  obtain ⟨front, back, rfl, hblank⟩ := h
  have hhead : (t ++ back).head? = t.head? := by
    rw [List.head?_append, List.head?_eq_some_head hne]
    rfl
  rw [trim, List.append_assoc,
    dropWhile_append_of_forall (fun c hc => hblank c (List.mem_append_left _ hc)) (hhead ▸ hs),
    List.reverse_append, dropWhile_append_of_forall
      (fun c hc => hblank c (List.mem_append_right _ (List.mem_reverse.1 hc))) (by simpa using he),
    List.reverse_reverse]

/-- No part of a numeral is blank. -/
theorem IsNumeral.not_isBlank {s : List Char} {n : Nat} (h : IsNumeral s n) :
    s ≠ [] ∧ ∀ c ∈ s, ¬ isBlank c := by
  obtain ⟨sign, digits, rfl, hsign, hne, hdigits, -⟩ := h
  refine ⟨List.append_ne_nil_of_right_ne_nil _ hne, fun c hc => ?_⟩
  rcases List.mem_append.1 hc with hc | hc
  · rcases hsign with rfl | rfl
    · cases hc
    · rw [List.mem_singleton.1 hc]
      decide
  · have hc := hdigits c hc
    simp only [Char.isDigit, Bool.and_eq_true, decide_eq_true_eq, ge_iff_le, UInt32.le_iff_toNat_le]
      at hc
    have hlow : 48 ≤ c.toNat := hc.1
    have hhigh : c.toNat ≤ 57 := hc.2
    simp only [isBlank, blankRanges, List.any_cons, List.any_nil, Bool.or_false, Bool.or_eq_true,
      Bool.and_eq_true, decide_eq_true_eq]
    omega

/-- A numeral is read under any padding, and nothing else is. -/
theorem unsigned?_trim_eq_some_iff {bound n : Nat} {s : List Char} :
    unsigned? bound (trim s) = some n ↔
      ∃ numeral, IsPadded s numeral ∧ IsNumeral numeral n ∧ n ≤ bound := by
  rw [unsigned?_eq_some_iff]
  constructor
  · rintro ⟨hn, hb⟩
    exact ⟨_, isPadded_trim s, hn, hb⟩
  · rintro ⟨numeral, hp, hn, hb⟩
    obtain ⟨hne, hblank⟩ := hn.not_isBlank
    rw [hp.trim_eq hne (fun c hc => hblank c (List.mem_of_head? hc))
      (fun c hc => hblank c (List.mem_of_getLast? hc))]
    exact ⟨hn, hb⟩

/-- The digits of a number, with a sign and zeros in front of them, are a numeral of it. -/
theorem isNumeral_toDigits (n zeros : Nat) {sign : List Char} (hs : sign = [] ∨ sign = ['+']) :
    IsNumeral (sign ++ (List.replicate zeros '0' ++ Nat.toDigits 10 n)) n := by
  refine ⟨sign, _, rfl, hs, List.append_ne_nil_of_right_ne_nil _ Nat.toDigits_ne_nil, ?_, ?_⟩
  · intro c hc
    rcases List.mem_append.1 hc with hc | hc
    · rw [List.eq_of_mem_replicate hc]
      decide
    · exact Nat.isDigit_of_mem_toDigits (by decide) (by decide) hc
  · rw [Nat.ofDigitChars_append, Nat.ofDigitChars_replicate_zero]
    simp

end Text

namespace Policy

/-! ## What the settings mean -/

/-- The number that a text denotes: a numeral, padded with blanks, of a value that fits in a
word. -/
def Denotes (raw : String) (n : Nat) : Prop :=
  ∃ numeral, Text.IsPadded raw.toList numeral ∧ Text.IsNumeral numeral n ∧ n ≤ 2 ^ 64 - 1

/-- What a setting amounts to: a number that its text denotes, or its default if it is not
given. -/
def Amounts (default : Nat) : Option String → Nat → Prop
  | none, n => n = default
  | some raw, n => Denotes raw n

/-- Why two settings give no policy. -/
inductive Refused (interval timeout : Option String) : Fault → Prop where
  | interval {raw} (hraw : interval = some raw) (hno : ∀ n, ¬ Denotes raw n) :
      Refused interval timeout
        (.validation ("expected a whole number, got '" ++ raw ++ "'") intervalSetting)
  | timeout {i raw} (hi : Amounts 200 interval i) (hraw : timeout = some raw)
      (hno : ∀ n, ¬ Denotes raw n) :
      Refused interval timeout
        (.validation ("expected a whole number, got '" ++ raw ++ "'") timeoutSetting)
  | zero {t} (hi : Amounts 200 interval 0) (ht : Amounts 10 timeout t) :
      Refused interval timeout
        (.validation "poll interval must be greater than zero" intervalSetting)
  | exceeds {i t} (hi : Amounts 200 interval i) (ht : Amounts 10 timeout t)
      (hlt : 1000 * t < i) :
      Refused interval timeout (.validation ("poll interval " ++ (Duration.ofMillis i).text ++
        " exceeds readiness timeout " ++ (Duration.ofSecs t).text) intervalSetting)

theorem settingNumber?_eq_some_iff {raw : String} {n : Nat} :
    settingNumber? raw = some n ↔ Denotes raw n := by
  have hword : Text.maxWord = 2 ^ 64 - 1 := by decide
  rw [settingNumber?, hword, Text.unsigned?_trim_eq_some_iff, Denotes]

theorem settingNumber?_eq_none_iff {raw : String} :
    settingNumber? raw = none ↔ ∀ n, ¬ Denotes raw n := by
  simp only [Option.eq_none_iff_forall_ne_some, ne_eq, settingNumber?_eq_some_iff]

theorem Denotes.unique {raw : String} {n m : Nat} (hn : Denotes raw n) (hm : Denotes raw m) :
    n = m :=
  Option.some.inj ((settingNumber?_eq_some_iff.2 hn).symm.trans (settingNumber?_eq_some_iff.2 hm))

theorem readSetting_eq_ok_iff {setting : String} {default n : Nat} {o : Option String} :
    readSetting setting default o = .ok n ↔ Amounts default o n := by
  cases o with
  | none => exact ⟨fun h => (Except.ok.inj h).symm, fun h => congrArg _ h.symm⟩
  | some raw =>
      rw [Amounts, ← settingNumber?_eq_some_iff, readSetting]
      cases settingNumber? raw <;> simp

theorem readSetting_eq_error_iff {setting : String} {default : Nat} {o : Option String}
    {f : Fault} :
    readSetting setting default o = .error f ↔ ∃ raw, o = some raw ∧ (∀ n, ¬ Denotes raw n) ∧
      f = .validation ("expected a whole number, got '" ++ raw ++ "'") setting := by
  cases o with
  | none => simp [readSetting]
  | some raw =>
      simp only [Option.some.injEq, exists_eq_left', ← settingNumber?_eq_none_iff, readSetting]
      cases settingNumber? raw <;> simp [eq_comm]

/-- The timeout is read after an interval that amounts to something. -/
theorem ofSettings_of_interval {interval timeout : Option String} {i : Nat}
    (hi : Amounts 200 interval i) : ofSettings interval timeout =
      (readSetting timeoutSetting defaultSecs timeout).bind fun t =>
        validate ⟨.ofMillis i, .ofSecs t⟩ := by
  have hread : readSetting intervalSetting defaultMillis interval = .ok i :=
    readSetting_eq_ok_iff.2 hi
  simp only [ofSettings, hread, bind, Except.bind]

/-- Two settings that amount to something are a policy that is looked at. -/
theorem ofSettings_of_amounts {interval timeout : Option String} {i t : Nat}
    (hi : Amounts 200 interval i) (ht : Amounts 10 timeout t) :
    ofSettings interval timeout = validate ⟨.ofMillis i, .ofSecs t⟩ := by
  have hread : readSetting timeoutSetting defaultSecs timeout = .ok t :=
    readSetting_eq_ok_iff.2 ht
  rw [ofSettings_of_interval hi, hread, Except.bind]

theorem admitted_iff {i t : Nat} :
    (Policy.mk (.ofMillis i) (.ofSecs t)).Admitted ↔ 0 < i ∧ i ≤ 1000 * t := by
  have hpos : Duration.zero < .ofMillis i ↔ 0 < (Duration.ofMillis i).nanos := Iff.rfl
  have hle : Duration.ofMillis i ≤ .ofSecs t ↔
      (Duration.ofMillis i).nanos ≤ (Duration.ofSecs t).nanos := Iff.rfl
  rw [Admitted, hpos, hle, Duration.nanos_ofMillis, Duration.nanos_ofSecs]
  omega

/-- Settings that are refused give no policy. -/
theorem Refused.ofSettings_eq {interval timeout : Option String} {f : Fault}
    (h : Refused interval timeout f) : ofSettings interval timeout = .error f := by
  cases h with
  | @interval raw hraw hno =>
      have hread : readSetting intervalSetting defaultMillis interval = .error _ :=
        readSetting_eq_error_iff.2 ⟨raw, hraw, hno, rfl⟩
      rw [ofSettings, hread]
      rfl
  | @timeout i raw hi hraw hno =>
      have hread : readSetting timeoutSetting defaultSecs timeout = .error _ :=
        readSetting_eq_error_iff.2 ⟨raw, hraw, hno, rfl⟩
      rw [ofSettings_of_interval hi, hread, Except.bind]
  | zero hi ht =>
      rw [ofSettings_of_amounts hi ht]
      rfl
  | @exceeds i t hi ht hlt =>
      have hzero : Duration.ofMillis i ≠ .zero := by
        intro heq
        have hnanos : (Duration.ofMillis i).nanos = 0 := congrArg Duration.nanos heq
        rw [Duration.nanos_ofMillis] at hnanos
        omega
      have hbeyond : Duration.ofSecs t < .ofMillis i := by
        show (Duration.ofSecs t).nanos < (Duration.ofMillis i).nanos
        rw [Duration.nanos_ofSecs, Duration.nanos_ofMillis]
        omega
      rw [ofSettings_of_amounts hi ht, validate, if_neg hzero, if_pos hbeyond]

/-- Two settings give a policy, or there is a reason why they do not. -/
theorem ofSettings_cases (interval timeout : Option String) :
    (∃ i t, Amounts 200 interval i ∧ Amounts 10 timeout t ∧ 0 < i ∧ i ≤ 1000 * t ∧
      ofSettings interval timeout = .ok ⟨.ofMillis i, .ofSecs t⟩) ∨
      ∃ f, Refused interval timeout f := by
  cases hi : readSetting intervalSetting 200 interval with
  | error f =>
      obtain ⟨raw, hraw, hno, -⟩ := readSetting_eq_error_iff.1 hi
      exact .inr ⟨_, .interval hraw hno⟩
  | ok i =>
      have hi := readSetting_eq_ok_iff.1 hi
      cases ht : readSetting timeoutSetting 10 timeout with
      | error f =>
          obtain ⟨raw, hraw, hno, -⟩ := readSetting_eq_error_iff.1 ht
          exact .inr ⟨_, .timeout hi hraw hno⟩
      | ok t =>
          have ht := readSetting_eq_ok_iff.1 ht
          rcases Nat.eq_zero_or_pos i with rfl | hpos
          · exact .inr ⟨_, .zero hi ht⟩
          · rcases Nat.lt_or_ge (1000 * t) i with hlt | hle
            · exact .inr ⟨_, .exceeds hi ht hlt⟩
            · refine .inl ⟨i, t, hi, ht, hpos, hle, ?_⟩
              rw [ofSettings_of_amounts hi ht]
              exact validate_eq_ok_iff.2 ⟨admitted_iff.2 ⟨hpos, hle⟩, rfl⟩

/-- Settings are refused for a reason, and for no other. -/
theorem ofSettings_eq_error_iff {interval timeout : Option String} {f : Fault} :
    ofSettings interval timeout = .error f ↔ Refused interval timeout f := by
  refine ⟨fun h => ?_, Refused.ofSettings_eq⟩
  rcases ofSettings_cases interval timeout with ⟨i, t, -, -, -, -, hok⟩ | ⟨g, hg⟩
  · rw [h] at hok
    cases hok
  · have hsame := hg.ofSettings_eq
    rw [h] at hsame
    cases hsame
    exact hg

/-- The settings of a policy are read exactly. They give a policy if both amount to a
number and the interval is positive and not above the timeout, and then it has just these
lengths; otherwise they are refused for the first thing that is wrong. Any number that fits
in a word can be written, with blanks around it, a plus sign and zeros in front of it. -/
theorem settings_read_exactly (interval timeout : Option String) :
    (∀ p, ofSettings interval timeout = .ok p ↔
      ∃ i t, Amounts 200 interval i ∧ Amounts 10 timeout t ∧ 0 < i ∧ i ≤ 1000 * t ∧
        p.pollInterval.nanos = i * 1000000 ∧ p.readinessTimeout.nanos = t * 1000000000) ∧
    (∀ f, ofSettings interval timeout = .error f ↔ Refused interval timeout f) ∧
    ∀ n < 2 ^ 64, ∀ front back : List Char, (∀ c ∈ front ++ back, Text.isBlank c) →
      ∀ sign ∈ [[], ['+']], ∀ zeros m,
        Denotes (.ofList (front ++ (sign ++ (List.replicate zeros '0' ++ Nat.toDigits 10 n)) ++
          back)) m ↔ m = n := by
  refine ⟨fun p => ⟨fun h => ?_, ?_⟩, fun f => ofSettings_eq_error_iff, ?_⟩
  · rcases ofSettings_cases interval timeout with ⟨i, t, hi, ht, hpos, hle, hok⟩ | ⟨f, hf⟩
    · rw [h] at hok
      cases hok
      exact ⟨i, t, hi, ht, hpos, hle, Duration.nanos_ofMillis i, Duration.nanos_ofSecs t⟩
    · rw [hf.ofSettings_eq] at h
      cases h
  · rintro ⟨i, t, hi, ht, hpos, hle, hnanos, hnanos'⟩
    have hp : p = ⟨.ofMillis i, .ofSecs t⟩ := by
      obtain ⟨⟨_⟩, ⟨_⟩⟩ := p
      rw [← Duration.nanos_ofMillis] at hnanos
      rw [← Duration.nanos_ofSecs] at hnanos'
      cases hnanos
      cases hnanos'
      rfl
    rw [ofSettings_of_amounts hi ht]
    exact validate_eq_ok_iff.2 ⟨admitted_iff.2 ⟨hpos, hle⟩, hp⟩
  · intro n hn front back hblank sign hs zeros m
    have hdenotes : Denotes (.ofList (front ++ (sign ++
        (List.replicate zeros '0' ++ Nat.toDigits 10 n)) ++ back)) n :=
      ⟨_, ⟨front, back, String.toList_ofList, hblank⟩,
        Text.isNumeral_toDigits n zeros (by simpa using hs), by omega⟩
    exact ⟨fun hm => hm.unique hdenotes, fun hm => hm ▸ hdenotes⟩

/-- The largest number, in both units. -/
theorem settings_read_exactly_largest :
    let interval := "\u3000\t+0018446744073709551615\u0085"
    let timeout := "18446744073709551615"
    2 ^ 64 - 1 < 2 ^ 64 ∧ (∀ c ∈ ['\u3000', '\t'] ++ ['\u0085'], Text.isBlank c) ∧
      ofSettings (some interval) (some timeout) =
        .ok ⟨⟨18446744073709551615000000⟩, ⟨18446744073709551615000000000⟩⟩ := by
  intro interval timeout
  have hblank : ∀ c ∈ ['\u3000', '\t'] ++ ['\u0085'], Text.isBlank c :=
    List.all_eq_true.1 (by decide)
  have hinterval : .ofList (['\u3000', '\t'] ++ (['+'] ++ (List.replicate 2 '0' ++
      Nat.toDigits 10 (2 ^ 64 - 1))) ++ ['\u0085']) = interval := by decide +kernel
  have htimeout : .ofList ([] ++ ([] ++ (List.replicate 0 '0' ++
      Nat.toDigits 10 (2 ^ 64 - 1))) ++ []) = timeout := by decide +kernel
  obtain ⟨hok, -, hwritten⟩ := settings_read_exactly (some interval) (some timeout)
  have hi := (hwritten (2 ^ 64 - 1) (by decide) ['\u3000', '\t'] ['\u0085'] hblank ['+']
    (by decide) 2 (2 ^ 64 - 1)).2 rfl
  have ht := (hwritten (2 ^ 64 - 1) (by decide) [] [] nofun [] (by decide) 0 (2 ^ 64 - 1)).2 rfl
  rw [hinterval] at hi
  rw [htimeout] at ht
  exact ⟨by decide, hblank, (hok _).2 ⟨_, _, hi, ht, by decide, by decide, rfl, rfl⟩⟩

/-! ## Who is to blame -/

/-- Whether a field is a setting that is given. -/
def IsGiven (interval timeout : Option String) (field : String) : Prop :=
  (field = intervalSetting ∧ interval.isSome) ∨ (field = timeoutSetting ∧ timeout.isSome)

theorem isGiven_intervalSetting {interval timeout : Option String} :
    IsGiven interval timeout intervalSetting ↔ interval.isSome := by
  have hne : intervalSetting ≠ timeoutSetting := by decide
  simp [IsGiven, hne]

theorem isGiven_timeoutSetting {interval timeout : Option String} :
    IsGiven interval timeout timeoutSetting ↔ timeout.isSome := by
  have hne : timeoutSetting ≠ intervalSetting := by decide
  simp [IsGiven, hne]

/-- Settings that are refused are refused for one of those that are given, unless the only one
given is a timeout of zero: that one is below the default interval, which is blamed. -/
theorem blames_given_iff {interval timeout : Option String} {f : Fault}
    (h : ofSettings interval timeout = .error f) :
    ∃ field, f.field? = some field ∧
      (IsGiven interval timeout field ↔
        ¬ (interval = none ∧ ∃ raw, timeout = some raw ∧ Denotes raw 0)) := by
  cases ofSettings_eq_error_iff.1 h with
  | @interval raw hraw =>
      refine ⟨_, rfl, ?_⟩
      rw [isGiven_intervalSetting, hraw]
      simp
  | @timeout i raw hi hraw hno =>
      refine ⟨_, rfl, ?_⟩
      rw [isGiven_timeoutSetting, hraw]
      simp [hno]
  | zero hi ht =>
      refine ⟨_, rfl, ?_⟩
      rw [isGiven_intervalSetting]
      cases interval with
      | none => cases hi
      | some raw => simp
  | @exceeds i t hi ht hlt =>
      refine ⟨_, rfl, ?_⟩
      rw [isGiven_intervalSetting]
      cases interval with
      | some raw => simp
      | none =>
          cases hi
          -- Two hundred milliseconds are above no whole number of seconds but none.
          obtain rfl : t = 0 := by omega
          cases timeout with
          | none => cases ht
          | some raw =>
              have ht : Denotes raw 0 := ht
              simp [ht]

/-- A timeout below an interval that is not given: nobody set what is blamed. -/
theorem unset_interval_blamed :
    let f := Fault.validation "poll interval 200ms exceeds readiness timeout 0ns" intervalSetting
    ofSettings none (some "0") = .error f ∧
      ¬ ∃ field, f.field? = some field ∧ IsGiven none (some "0") field := by
  refine ⟨rfl, ?_⟩
  rintro ⟨field, hfield, hgiven⟩
  cases hfield
  cases isGiven_intervalSetting.1 hgiven

/-- An interval above the timeout that nobody set. -/
theorem blames_given_iff_default_timeout :
    let f := Fault.validation "poll interval 20s exceeds readiness timeout 10s" intervalSetting
    ofSettings (some "20000") none = .error f ∧
      ∃ field, f.field? = some field ∧ IsGiven (some "20000") none field := by
  intro f
  have hamounts : Amounts 200 (some "20000") 20000 :=
    settingNumber?_eq_some_iff.1 (by decide +kernel)
  have htext : "poll interval " ++ (Duration.ofMillis 20000).text ++
      " exceeds readiness timeout " ++ (Duration.ofSecs 10).text =
      "poll interval 20s exceeds readiness timeout 10s" := by decide +kernel
  have hexceeds : Refused (some "20000") none _ := .exceeds hamounts rfl (by decide)
  rw [htext] at hexceeds
  have hrefused : ofSettings (some "20000") none = .error f := hexceeds.ofSettings_eq
  obtain ⟨field, hfield, hgiven⟩ := blames_given_iff hrefused
  exact ⟨hrefused, field, hfield, hgiven.2 fun h => Option.some_ne_none _ h.1⟩

end Policy

end Lifecycle
