/-
Runs of digits: how many digits the written forms of a number have, that they are digits, and the
number that they denote when they are read again. A run in front of something else is scanned up to
where it stops.
-/
import GeoPattern.Proofs.Number.Decimal

namespace GeoPattern

/-! ## Characters -/

theorem number_digitChar {n : ℕ} (h : n < 10) : (digitChar n).number = 48 + n := by
  interval_cases n <;> rfl

theorem isDigit_digitChar {n : ℕ} (h : n < 10) : isDigit (digitChar n) = true := by
  simp only [isDigit, number_digitChar h, Bool.and_eq_true, decide_eq_true_eq]
  omega

theorem digitValue_digitChar {n : ℕ} (h : n < 10) : digitValue (digitChar n) = n := by
  rw [digitValue, number_digitChar h]
  omega

/-! ## Runs -/

/-- Every character is a digit. -/
def AllDigits (run : Text) : Prop := ∀ c ∈ run, isDigit c = true

@[simp] theorem allDigits_nil : AllDigits [] := by simp [AllDigits]

/-- A run of digits stops in front of the text. -/
def StopsDigits (rest : Text) : Prop := ∀ c, rest.head? = some c → isDigit c = false

@[simp] theorem stopsDigits_nil : StopsDigits [] := fun _ hc => by cases hc

theorem stopsDigits_cons {c : CodePoint} (h : isDigit c = false) (rest : Text) :
    StopsDigits (c :: rest) := by
  rintro d ⟨⟩
  exact h

theorem AllDigits.append {a b : Text} (ha : AllDigits a) (hb : AllDigits b) : AllDigits (a ++ b) :=
  fun c hc => (List.mem_append.1 hc).elim (ha c) (hb c)

theorem takeWhile_isDigit {run rest : Text} (h : AllDigits run) (hr : StopsDigits rest) :
    (run ++ rest).takeWhile isDigit = run := by
  rw [List.takeWhile_append_of_pos h]
  cases rest with
  | nil => simp
  | cons c rest => simp [hr c rfl]

theorem dropWhile_isDigit {run rest : Text} (h : AllDigits run) (hr : StopsDigits rest) :
    (run ++ rest).dropWhile isDigit = rest := by
  rw [List.dropWhile_append_of_pos h]
  cases rest with
  | nil => rfl
  | cons c rest => simp [hr c rfl]

/-! ## Scanning a run -/

theorem digitRun_none {run rest : Text} (h : AllDigits run) (hr : StopsDigits rest) :
    digitRun none (run ++ rest) = run :=
  takeWhile_isDigit h hr

/-- A run as long as the limit is read whatever comes behind it. -/
theorem digitRun_of_length_eq {run : Text} (h : AllDigits run) (rest : Text) :
    digitRun (some run.length) (run ++ rest) = run := by
  rw [digitRun, List.take_left]
  simpa using takeWhile_isDigit h stopsDigits_nil

theorem digitRun_of_length_le {run rest : Text} {limit : ℕ} (h : AllDigits run)
    (hl : run.length ≤ limit) (hr : StopsDigits rest) :
    digitRun (some limit) (run ++ rest) = run := by
  rw [digitRun, List.take_append, List.take_of_length_le hl]
  apply takeWhile_isDigit h
  intro c hc
  rw [List.head?_take] at hc
  split at hc
  · cases hc
  · exact hr c hc

/-- A run that is shorter than the limit goes on with a digit behind it. -/
theorem length_lt_digitRun {run rest : Text} {limit : ℕ} (h : AllDigits run)
    (hl : run.length < limit) (hr : ¬ StopsDigits rest) :
    run.length < (digitRun (some limit) (run ++ rest)).length := by
  unfold StopsDigits at hr
  push Not at hr
  obtain ⟨c, hc, hd⟩ := hr
  obtain ⟨more, rfl⟩ : ∃ more, rest = c :: more := by
    cases rest with
    | nil => cases hc
    | cons d more => exact ⟨more, by rw [Option.some.inj hc]⟩
  obtain ⟨k, hk⟩ : ∃ k, limit = run.length + (k + 1) := ⟨limit - run.length - 1, by omega⟩
  rw [digitRun, hk, List.take_length_add_append, List.take_succ_cons,
    List.takeWhile_append_of_pos h, List.takeWhile_cons_of_pos (by simpa using hd)]
  simp

/-- A run within the limit is scanned, whatever comes behind it. -/
theorem prefix_digitRun {limit : Option ℕ} {run : Text} (h : AllDigits run)
    (hl : ∀ k, limit = some k → run.length ≤ k) (rest : Text) :
    run <+: digitRun limit (run ++ rest) := by
  cases limit with
  | none =>
    rw [digitRun, List.takeWhile_append_of_pos h]
    exact List.prefix_append _ _
  | some k =>
    rw [digitRun, List.take_append, List.take_of_length_le (hl k rfl),
      List.takeWhile_append_of_pos h]
    exact List.prefix_append _ _

/-- Nothing is scanned behind a run that stops. -/
theorem digitRun_of_stops {limit : Option ℕ} {run rest : Text} (h : AllDigits run)
    (hl : ∀ k, limit = some k → run.length ≤ k) (hr : StopsDigits rest) :
    digitRun limit (run ++ rest) = run := by
  cases limit with
  | none => exact digitRun_none h hr
  | some k => exact digitRun_of_length_le h (hl k rfl) hr

theorem length_digitRun_le (k : ℕ) (rest : Text) : (digitRun (some k) rest).length ≤ k :=
  (List.takeWhile_prefix _).length_le.trans (List.length_take_le _ _)

/-! ## Values -/

theorem digitsValue_append (a b : Text) :
    digitsValue (a ++ b) = digitsValue a * 10 ^ b.length + digitsValue b := by
  induction b using List.reverseRecOn with
  | nil => simp [digitsValue]
  | append_singleton b c ih =>
    unfold digitsValue at *
    rw [← List.append_assoc, List.foldl_append, ih, List.foldl_append, List.length_append, List.length_singleton,
      pow_succ]
    simp only [List.foldl_cons, List.foldl_nil]
    ring

theorem digitsValue_singleton (c : CodePoint) : digitsValue [c] = digitValue c := by
  simp [digitsValue]

theorem digitsValue_replicate_zero (count : ℕ) :
    digitsValue (List.replicate count (.char '0')) = 0 := by
  induction count with
  | zero => rfl
  | succ count ih =>
    rw [List.replicate_succ', digitsValue_append, ih, digitsValue_singleton]
    rfl

/-! ## Written numbers -/

theorem allDigits_digits (n : ℕ) : AllDigits (digits n) := by
  induction n using digits.induct with
  | case1 n h =>
    rw [digits, if_pos h]
    intro c hc
    rw [List.mem_singleton.1 hc]
    exact isDigit_digitChar h
  | case2 n h ih =>
    rw [digits, if_neg h]
    apply ih.append
    intro c hc
    rw [List.mem_singleton.1 hc]
    exact isDigit_digitChar (Nat.mod_lt _ (by norm_num))

theorem digitsValue_digits (n : ℕ) : digitsValue (digits n) = n := by
  induction n using digits.induct with
  | case1 n h => rw [digits, if_pos h, digitsValue_singleton, digitValue_digitChar h]
  | case2 n h ih =>
    rw [digits, if_neg h, digitsValue_append, ih, digitsValue_singleton,
      digitValue_digitChar (Nat.mod_lt _ (by norm_num)), List.length_singleton]
    omega

theorem length_digits (n : ℕ) : (digits n).length = digitCount n := by
  induction n using digits.induct with
  | case1 n h => rw [digits, if_pos h, digitCount, if_pos h]; rfl
  | case2 n h ih => rw [digits, if_neg h, digitCount, if_neg h, List.length_append, ih]; rfl

theorem allDigits_paddedDigits (width n : ℕ) : AllDigits (paddedDigits width n) := by
  refine AllDigits.append (fun c hc => ?_) (allDigits_digits n)
  rw [List.eq_of_mem_replicate hc]
  rfl

@[simp] theorem digitsValue_paddedDigits (width n : ℕ) :
    digitsValue (paddedDigits width n) = n := by
  rw [paddedDigits, digitsValue_append, digitsValue_replicate_zero, digitsValue_digits]
  simp

theorem length_paddedDigits (width n : ℕ) :
    (paddedDigits width n).length = max width (digitCount n) := by
  rw [paddedDigits, List.length_append, List.length_replicate, length_digits]
  omega

/-- Numbers below a power of ten fill a width exactly. -/
theorem length_paddedDigits_of_lt {width n : ℕ} (hw : 0 < width) (h : n < 10 ^ width) :
    (paddedDigits width n).length = width := by
  have hcount : digitCount n ≤ width := by
    by_cases hn : n = 0
    · rw [hn, digitCount, if_pos (by norm_num)]
      exact hw
    · have hp := digitCount_pos n
      have := (Nat.pow_lt_pow_iff_right (by norm_num)).1 ((ten_pow_digitCount_le hn).trans_lt h)
      omega
  rw [length_paddedDigits]
  omega

theorem paddedDigits_ne_nil (width n : ℕ) : paddedDigits width n ≠ [] := by
  have h : 0 < (paddedDigits width n).length := by
    have := digitCount_pos n
    rw [length_paddedDigits]
    omega
  exact List.ne_nil_of_length_pos h

theorem allDigits_fixedDigits (count n : ℕ) : AllDigits (fixedDigits count n) := by
  induction count generalizing n with
  | zero => simp
  | succ count ih =>
    rw [fixedDigits_succ]
    apply (ih _).append
    intro c hc
    rw [List.mem_singleton.1 hc]
    exact isDigit_digitChar (Nat.mod_lt _ (by norm_num))

@[simp] theorem length_fixedDigits (count n : ℕ) : (fixedDigits count n).length = count := by
  induction count generalizing n with
  | zero => rfl
  | succ count ih => rw [fixedDigits_succ, List.length_append, ih]; rfl

@[simp] theorem digitsValue_fixedDigits (count n : ℕ) :
    digitsValue (fixedDigits count n) = n % 10 ^ count := by
  induction count generalizing n with
  | zero => simp [digitsValue, Nat.mod_one]
  | succ count ih =>
    rw [fixedDigits_succ, digitsValue_append, ih, digitsValue_singleton,
      digitValue_digitChar (Nat.mod_lt _ (by norm_num)), List.length_singleton, pow_one, pow_succ',
      Nat.mod_mul]
    ring

end GeoPattern
