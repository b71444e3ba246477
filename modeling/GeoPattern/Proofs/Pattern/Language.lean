/-
The language of patterns. A text is a pattern if it obeys a few rules: two on its characters, two on
its brackets and plus signs, and four on its fields and signs, wherever these stand among the
brackets. Just the patterns compile, and the error of any other text names a rule that it breaks.
Main statement: `compile_language`.
-/
import GeoPattern.Proofs.Pattern.Divided
import GeoPattern.Proofs.Pattern.Resolution

namespace GeoPattern

open Node

namespace Symbol

/-! ## Brackets -/

/-- Brackets close what they open, and besides the `depth` brackets that are open in front of
them. -/
structure Closes (depth : Nat) (symbols : List Symbol) : Prop where
  fronts : ∀ front, front <+: symbols →
    front.count .optionalEnd ≤ depth + front.count .optionalStart
  whole : symbols.count .optionalEnd = depth + symbols.count .optionalStart

/-- No front of the symbols closes more brackets than it opens, and all of them are closed. -/
def Balanced (symbols : List Symbol) : Prop := Closes 0 symbols

theorem closes_nil {depth : Nat} : Closes depth [] ↔ depth = 0 := by
  constructor
  · intro h
    have := h.whole
    simp only [List.count_nil] at this
    omega
  · rintro rfl
    refine ⟨fun front hf => ?_, rfl⟩
    rw [List.prefix_nil.1 hf]
    simp

/-- A symbol in front adds to what is open, or takes one away. -/
theorem closes_cons {depth : Nat} {symbol : Symbol} {rest : List Symbol} :
    Closes depth (symbol :: rest) ↔
      [symbol].count .optionalEnd ≤ depth + [symbol].count .optionalStart ∧
        Closes (depth + [symbol].count .optionalStart - [symbol].count .optionalEnd) rest := by
  have hcons (bracket : Symbol) (l : List Symbol) :
      (symbol :: l).count bracket = [symbol].count bracket + l.count bracket := by
    rw [← List.singleton_append, List.count_append]
  constructor
  · intro h
    have hfirst := h.fronts [symbol] ⟨rest, rfl⟩
    refine ⟨hfirst, fun front hf => ?_, ?_⟩
    · have := h.fronts (symbol :: front) (List.prefix_cons_iff.2 (.inr ⟨front, rfl, hf⟩))
      rw [hcons _ front, hcons _ front] at this
      omega
    · have := h.whole
      rw [hcons _ rest, hcons _ rest] at this
      omega
  · rintro ⟨hfirst, hfronts, hwhole⟩
    refine ⟨fun front hf => ?_, ?_⟩
    · rcases List.prefix_cons_iff.1 hf with rfl | ⟨more, rfl, hmore⟩
      · simp
      · have := hfronts more hmore
        rw [hcons _ more, hcons _ more]
        omega
    · rw [hcons _ rest, hcons _ rest]
      omega

theorem closes_cons_of_not_bracket {depth : Nat} {symbol : Symbol} (h : symbol.isBracket = false)
    {rest : List Symbol} : Closes depth (symbol :: rest) ↔ Closes depth rest := by
  have hcount (bracket : Symbol) (hb : bracket.isBracket = true) : [symbol].count bracket = 0 := by
    refine List.count_eq_zero_of_not_mem fun hm => ?_
    rw [List.mem_singleton.1 hm, h] at hb
    cases hb
  rw [closes_cons, hcount .optionalEnd rfl, hcount .optionalStart rfl]
  exact ⟨And.right, fun h => ⟨Nat.zero_le _, h⟩⟩

theorem closes_optionalStart {depth : Nat} {rest : List Symbol} :
    Closes depth (.optionalStart :: rest) ↔ Closes (depth + 1) rest := by
  rw [closes_cons]
  exact ⟨And.right, fun h => ⟨Nat.zero_le _, h⟩⟩

theorem closes_optionalEnd {depth : Nat} {rest : List Symbol} :
    Closes depth (.optionalEnd :: rest) ↔ 0 < depth ∧ Closes (depth - 1) rest := by
  rw [closes_cons]
  rfl

/-! ## Plus signs -/

/-- A field follows every plus sign at once. -/
def PlusFollowed (symbols : List Symbol) : Prop :=
  ∀ before after, symbols = before ++ .sign :: after → ∃ s more, after = .field s :: more

theorem plusFollowed_cons {symbol : Symbol} {rest : List Symbol} :
    PlusFollowed (symbol :: rest) ↔
      (symbol = .sign → ∃ s more, rest = .field s :: more) ∧ PlusFollowed rest := by
  constructor
  · intro h
    refine ⟨fun hs => h [] rest (by rw [hs]; rfl), fun before after he => ?_⟩
    exact h (symbol :: before) after (by rw [he]; rfl)
  · rintro ⟨hfirst, hrest⟩ before after he
    cases before with
    | nil =>
      obtain ⟨hs, rfl⟩ := List.cons.inj he
      exact hfirst hs
    | cons b before => exact hrest before after (List.cons.inj he).2

/-! ## Fields and signs -/

/-- The axis of which a symbol is a source of the sign; a plus sign is one for the field behind
it. -/
def signAxis? (next : Option Symbol) : Symbol → Option Axis
  | .sign =>
    match next with
    | some (.field s) => some s.quantity.axis
    | _ => none
  | .hemisphere kind => some kind.axis
  | .field s => if s.quantity.isSigned then some s.quantity.axis else none
  | _ => none

/-- The axes of the sources of signs, from left to right. -/
def signAxes : List Symbol → List Axis
  | [] => []
  | symbol :: rest => (symbol.signAxis? rest.head?).toList ++ signAxes rest

end Symbol

namespace Specifier

/-- No two fields write the same unit of the same axis. -/
def UnitsDiffer (specifiers : List Specifier) : Prop :=
  specifiers.Pairwise fun a b => ¬ (a.quantity.axis = b.quantity.axis ∧
    a.quantity.unit = b.quantity.unit)

/-- Minutes have unsigned whole degrees of their axis. -/
def MinutesHaveDegrees (specifiers : List Specifier) : Prop :=
  ∀ m ∈ specifiers, m.quantity.unit = .minute → ∃ d ∈ specifiers,
    d.quantity.axis = m.quantity.axis ∧ d.quantity.unit = .degree ∧
      d.quantity.isSigned = false ∧ d.fractionDigits = 0

/-- Seconds have whole minutes of their axis. -/
def SecondsHaveMinutes (specifiers : List Specifier) : Prop :=
  ∀ s ∈ specifiers, s.quantity.unit = .second → ∃ m ∈ specifiers,
    m.quantity.axis = s.quantity.axis ∧ m.quantity.unit = .minute ∧ m.fractionDigits = 0

end Specifier

/-! ## Rules -/

inductive Rule where
  /-- The quotes pair up. -/
  | quotes
  /-- No field has a second separator. -/
  | separators
  /-- The brackets are balanced. -/
  | brackets
  /-- A field follows every plus sign. -/
  | plusSigns
  /-- No unit of an axis is written twice. -/
  | units
  /-- No axis has two sources of its sign. -/
  | signs
  /-- Minutes stand below whole degrees without a sign. -/
  | minutes
  /-- Seconds stand below whole minutes. -/
  | seconds
deriving DecidableEq

/-- The symbols of a pattern have a property, if it has any. -/
def SymbolsHave (p : List Symbol → Prop) (pattern : Text) : Prop :=
  ∀ tokens, tokenize pattern = .ok tokens → p (tokens.map Token.symbol)

/-- What a rule demands of a pattern. -/
def Obeys (pattern : Text) : Rule → Prop
  | .quotes => Even (quoteCount pattern)
  | .separators => ¬ HasDividedTwice pattern
  | .brackets => SymbolsHave Symbol.Balanced pattern
  | .plusSigns => SymbolsHave Symbol.PlusFollowed pattern
  | .units => SymbolsHave (fun symbols => Specifier.UnitsDiffer (Symbol.specifiers symbols)) pattern
  | .signs => SymbolsHave (fun symbols => ∀ axis, (Symbol.signAxes symbols).count axis ≤ 1) pattern
  | .minutes =>
    SymbolsHave (fun symbols => Specifier.MinutesHaveDegrees (Symbol.specifiers symbols)) pattern
  | .seconds =>
    SymbolsHave (fun symbols => Specifier.SecondsHaveMinutes (Symbol.specifiers symbols)) pattern

/-- The rule that an error is about. -/
def PatternError.rule? : PatternError → Option Rule
  | .absent => none
  | .unclosedQuote _ => some .quotes
  | .severalSeparators _ => some .separators
  | .unclosedBracket _ | .unopenedBracket _ => some .brackets
  | .danglingSign _ => some .plusSigns
  | .repeated .. => some .units
  | .severalSigns _ => some .signs
  | .minutesWithoutDegrees _ | .minutesAfterSignedDegrees _ | .minutesAfterFractionalDegrees _ =>
    some .minutes
  | .secondsWithoutMinutes _ | .secondsAfterFractionalMinutes _ => some .seconds

/-! ## Tokens -/

/-- Where there are no tokens, the error names what is wrong with the characters. -/
theorem rule?_of_tokenize {pattern : Text} {e : PatternError} (h : tokenize pattern = .error e) :
    ∃ rule, e.rule? = some rule ∧ ¬ Obeys pattern rule := by
  have hnone : ¬ ∃ tokens, tokenize pattern = .ok tokens := by
    rintro ⟨tokens, ht⟩
    rw [h] at ht
    cases ht
  rcases hg : Token.group (Glyph.scan 0 none pattern).1 with e' | tokens
  · obtain ⟨position, rfl⟩ := Token.eq_severalSeparators_of_group hg
    unfold tokenize at h
    simp only [hg] at h
    cases h
    refine ⟨.separators, rfl, fun hdivided => ?_⟩
    rw [Obeys, ← dividedTwice_scan_iff, ← Token.exists_group_iff, hg] at hdivided
    obtain ⟨tokens, ht⟩ := hdivided
    cases ht
  · unfold tokenize at h
    simp only [hg] at h
    rcases hl : (Glyph.scan 0 none pattern).2 with - | position
    · rw [hl] at h
      cases h
    · rw [hl] at h
      cases h
      refine ⟨.quotes, rfl, fun heven => ?_⟩
      rw [Obeys, ← left_scan_iff, hl] at heven
      cases heven

/-! ## Assembling -/

section Assemble

variable {resolution : Axis → Option Resolution}

/-- Tokens that assemble are balanced, and a field follows every plus sign. -/
theorem balanced_of_assemble {opened : List OpenGroup} {done body : List Node}
    {tokens : List Token} (h : assemble resolution opened done tokens = .ok body) :
    Symbol.Closes opened.length (tokens.map Token.symbol) ∧
      Symbol.PlusFollowed (tokens.map Token.symbol) := by
  induction tokens generalizing opened done with
  | nil =>
    cases opened with
    | nil => exact ⟨Symbol.closes_nil.2 rfl, fun before after he => by simp at he⟩
    | cons g outer => cases h
  | cons token rest ih =>
    obtain ⟨symbol, position⟩ := token
    rw [List.map_cons, Symbol.plusFollowed_cons]
    cases symbol with
    | optionalStart =>
      obtain ⟨hc, hp⟩ := ih h
      exact ⟨Symbol.closes_optionalStart.2 hc, nofun, hp⟩
    | optionalEnd =>
      cases opened with
      | nil => cases h
      | cons g outer =>
        obtain ⟨hc, hp⟩ := ih h
        exact ⟨Symbol.closes_optionalEnd.2 ⟨Nat.succ_pos _, hc⟩, nofun, hp⟩
    | sign =>
      obtain ⟨s, p, more, rfl, h⟩ := assemble_sign_eq_ok h
      obtain ⟨hc, hp⟩ := ih h
      exact ⟨(Symbol.closes_cons_of_not_bracket rfl).2 hc, fun _ => ⟨s, _, rfl⟩, hp⟩
    | hemisphere kind | field s | literal text =>
      obtain ⟨hc, hp⟩ := ih h
      exact ⟨(Symbol.closes_cons_of_not_bracket rfl).2 hc, nofun, hp⟩

/-- Tokens that do not assemble are not balanced, or a plus sign stands alone, as the error says. -/
theorem rule?_of_assemble {opened : List OpenGroup} {done : List Node} {tokens : List Token}
    {e : PatternError} (h : assemble resolution opened done tokens = .error e) :
    e.rule? = some .brackets ∧ ¬ Symbol.Closes opened.length (tokens.map Token.symbol) ∨
      e.rule? = some .plusSigns ∧ ¬ Symbol.PlusFollowed (tokens.map Token.symbol) := by
  induction tokens generalizing opened done with
  | nil =>
    cases opened with
    | nil => cases h
    | cons g outer =>
      cases h
      exact .inl ⟨rfl, fun hc => Nat.succ_ne_zero _ (Symbol.closes_nil.1 hc)⟩
  | cons token rest ih =>
    obtain ⟨symbol, position⟩ := token
    rw [List.map_cons, Symbol.plusFollowed_cons]
    cases symbol with
    | optionalStart =>
      rw [Symbol.closes_optionalStart]
      exact (ih h).imp_right fun ⟨hr, hp⟩ => ⟨hr, fun h => hp h.2⟩
    | optionalEnd =>
      rw [Symbol.closes_optionalEnd]
      cases opened with
      | nil =>
        cases h
        exact .inl ⟨rfl, fun hc => Nat.lt_irrefl _ hc.1⟩
      | cons g outer =>
        exact (ih h).imp (fun ⟨hr, hc⟩ => ⟨hr, fun h => hc h.2⟩)
          fun ⟨hr, hp⟩ => ⟨hr, fun h => hp h.2⟩
    | sign =>
      rw [Symbol.closes_cons_of_not_bracket rfl]
      by_cases hf : ∃ s p more, rest = ⟨.field s, p⟩ :: more
      · obtain ⟨s, p, more, rfl⟩ := hf
        rw [assemble_sign] at h
        exact (ih h).imp_right fun ⟨hr, hp⟩ => ⟨hr, fun h => hp h.2⟩
      · rw [assemble_sign_eq_error _ _ _ _ hf] at h
        cases h
        refine .inr ⟨rfl, fun hp => ?_⟩
        obtain ⟨s, more, hs⟩ := hp.1 rfl
        obtain ⟨⟨_, p⟩, more, rfl, rfl, -⟩ := List.map_eq_cons_iff.1 hs
        exact hf ⟨s, p, more, rfl⟩
    | hemisphere kind | field s | literal text =>
      rw [Symbol.closes_cons_of_not_bracket rfl]
      exact (ih h).imp_right fun ⟨hr, hp⟩ => ⟨hr, fun h => hp h.2⟩

/-- The leaves of tokens have the sources of signs of their symbols. -/
theorem signAxes_leavesFrom (tokens : List Token) :
    (leavesFrom resolution tokens).filterMap Leaf.signAxis? =
      Symbol.signAxes (tokens.map Token.symbol) := by
  induction tokens with
  | nil => rfl
  | cons token rest ih =>
    obtain ⟨symbol, position⟩ := token
    rw [List.map_cons, Symbol.signAxes, ← ih]
    cases symbol with
    | optionalStart | optionalEnd | literal text => rfl
    | hemisphere kind => rfl
    | field s =>
      simp only [leavesFrom, List.filterMap_cons, Leaf.signAxis?, Symbol.signAxis?]
      cases s.quantity.isSigned <;> rfl
    | sign =>
      cases rest with
      | nil => rfl
      | cons next more =>
        obtain ⟨following, p⟩ := next
        cases following <;> rfl

end Assemble

/-! ## Checking -/

section Check

variable {specifiers : List Specifier}

theorem unitsDiffer_iff : Specifier.UnitsDiffer specifiers ↔
    specifiers.Pairwise fun a b => b.sharesUnit a = false := by
  have hiff (a b : Specifier) : (¬ (a.quantity.axis = b.quantity.axis ∧
      a.quantity.unit = b.quantity.unit)) ↔ b.sharesUnit a = false := by
    rw [← Bool.not_eq_true, sharesUnit_iff, eq_comm, eq_comm (a := a.quantity.unit)]
  exact ⟨fun h => h.imp fun {a b} => (hiff a b).1, fun h => h.imp fun {a b} => (hiff a b).2⟩

/-- An angle that does not pass has minutes or seconds that break their rule. -/
theorem rule?_of_checkAngle (hpair : specifiers.Pairwise fun a b => b.sharesUnit a = false)
    {axis : Axis} {e : PatternError} (h : checkAngle specifiers axis = .error e) :
    e.rule? = some .minutes ∧ ¬ Specifier.MinutesHaveDegrees specifiers ∨
      e.rule? = some .seconds ∧ ¬ Specifier.SecondsHaveMinutes specifiers := by
  have hfield {s : Specifier} {unit : MeasureUnit} (hs : s ∈ specifiers)
      (ha : s.quantity.axis = axis) (hu : s.quantity.unit = unit) :
      fieldOf? specifiers axis unit = some s := ha ▸ hu ▸ fieldOf?_eq_of_mem hpair hs
  rw [checkAngle_eq] at h
  rcases hm : fieldOf? specifiers axis .minute with - | m <;> rw [hm] at h
  · rcases hs : fieldOf? specifiers axis .second with - | s <;> rw [hs] at h <;> cases h
    obtain ⟨hsm, hsa, hsu⟩ := fieldOf?_eq_some hs
    refine .inr ⟨rfl, fun hrule => ?_⟩
    obtain ⟨m, hmem, ha, hu, -⟩ := hrule s hsm hsu
    rw [hfield hmem (ha.trans hsa) hu] at hm
    cases hm
  obtain ⟨hmm, hma, hmu⟩ := fieldOf?_eq_some hm
  -- the rule speaks of the degrees that are looked up, since no other field writes them
  have hdegrees (hrule : Specifier.MinutesHaveDegrees specifiers) :
      ∃ d, fieldOf? specifiers axis .degree = some d ∧ d.quantity.isSigned = false ∧
        d.fractionDigits = 0 := by
    obtain ⟨d, hmem, ha, hu, hd⟩ := hrule m hmm hmu
    exact ⟨d, hfield hmem (ha.trans hma) hu, hd⟩
  rcases hd : fieldOf? specifiers axis .degree with - | d <;> rw [hd] at h hdegrees
  · cases h
    refine .inl ⟨rfl, fun hrule => ?_⟩
    obtain ⟨d, h, -⟩ := hdegrees hrule
    cases h
  dsimp only at h
  split at h
  · rename_i hsigned
    cases h
    refine .inl ⟨rfl, fun hrule => ?_⟩
    obtain ⟨d', h, hunsigned, -⟩ := hdegrees hrule
    rw [← Option.some.inj h, hsigned] at hunsigned
    cases hunsigned
  split at h
  · rename_i hfraction
    cases h
    refine .inl ⟨rfl, fun hrule => ?_⟩
    obtain ⟨d', h, -, hwhole⟩ := hdegrees hrule
    exact hfraction (Option.some.inj h ▸ hwhole)
  rcases hs : fieldOf? specifiers axis .second with - | s <;> rw [hs] at h
  · cases h
  dsimp only at h
  split at h
  · rename_i hfraction
    cases h
    obtain ⟨hsm, hsa, hsu⟩ := fieldOf?_eq_some hs
    refine .inr ⟨rfl, fun hrule => ?_⟩
    obtain ⟨m', hmem, ha, hu, hwhole⟩ := hrule s hsm hsu
    rw [hfield hmem (ha.trans hsa) hu] at hm
    exact hfraction (Option.some.inj hm ▸ hwhole)
  · cases h

/-- Leaves that are not valid break a rule on fields or signs, which the error names. -/
theorem rule?_of_validate {leaves : List Leaf} {e : PatternError}
    (h : validate leaves = .error e) :
    e.rule? = some .units ∧ ¬ Specifier.UnitsDiffer (Leaf.specifiers leaves) ∨
      e.rule? = some .signs ∧ (¬ ∀ axis, (leaves.filterMap Leaf.signAxis?).count axis ≤ 1) ∨
      e.rule? = some .minutes ∧ ¬ Specifier.MinutesHaveDegrees (Leaf.specifiers leaves) ∨
      e.rule? = some .seconds ∧ ¬ Specifier.SecondsHaveMinutes (Leaf.specifiers leaves) := by
  rw [validate_eq] at h
  have hrep := @firstRepeated?_eq_none_iff [] (Leaf.specifiers leaves)
  simp only [List.not_mem_nil, false_implies, implies_true, true_and] at hrep
  rw [← unitsDiffer_iff] at hrep
  rcases hf : firstRepeated? [] (Leaf.specifiers leaves) with - | ⟨first, second⟩
  · rw [hf] at h
    dsimp only at h
    split at h
    · rename_i axis hfind
      cases h
      refine .inr (.inl ⟨rfl, fun hrule => ?_⟩)
      have hcount := List.find?_some hfind
      simp only [decide_eq_true_eq] at hcount
      have := hrule axis
      omega
    · have hpair := unitsDiffer_iff.1 (hrep.1 hf)
      rcases hlat : checkAngle (Leaf.specifiers leaves) .latitude with e' | u
      · rw [hlat] at h
        cases h
        exact .inr (.inr (rule?_of_checkAngle hpair hlat))
      · rw [hlat] at h
        exact .inr (.inr (rule?_of_checkAngle hpair h))
  · rw [hf] at h
    cases h
    refine .inl ⟨rfl, fun hrule => ?_⟩
    rw [hrep.2 hrule] at hf
    cases hf

/-- Fields that pass the check of every axis obey the rules on minutes and seconds. -/
theorem haveRules_of_angleChecked (h : ∀ axis, AngleChecked specifiers axis) :
    Specifier.MinutesHaveDegrees specifiers ∧ Specifier.SecondsHaveMinutes specifiers := by
  have hfield {s : Specifier} (hs : s ∈ specifiers) :
      ∃ t, fieldOf? specifiers s.quantity.axis s.quantity.unit = some t := by
    rcases hf : fieldOf? specifiers s.quantity.axis s.quantity.unit with - | t
    · have := List.find?_eq_none.1 hf s hs
      simp at this
    · exact ⟨t, rfl⟩
  constructor
  · intro m hm hu
    obtain ⟨m', hm'⟩ := hfield hm
    obtain ⟨d, hd, hrest⟩ := (h m.quantity.axis).minutes m' (hu ▸ hm')
    obtain ⟨hmem, ha, hdu⟩ := fieldOf?_eq_some hd
    exact ⟨d, hmem, ha, hdu, hrest⟩
  · intro s hs hu
    obtain ⟨s', hs'⟩ := hfield hs
    obtain ⟨m, hm, hwhole⟩ := (h s.quantity.axis).seconds s' (hu ▸ hs')
    obtain ⟨hmem, ha, hmu⟩ := fieldOf?_eq_some hm
    exact ⟨m, hmem, ha, hmu, hwhole⟩

end Check

/-! ## Compiling -/

theorem compile_eq_error {pattern : Text} {e : PatternError} (h : compile pattern = .error e) :
    tokenize pattern = .error e ∨ ∃ tokens, tokenize pattern = .ok tokens ∧
      (assemble (resolutionOf (specifiersOf tokens)) [] [] tokens = .error e ∨
        ∃ body, assemble (resolutionOf (specifiersOf tokens)) [] [] tokens = .ok body ∧
          validate (leavesOf body) = .error e) := by
  unfold compile at h
  rcases ht : tokenize pattern with e' | tokens
  · rw [ht] at h
    cases h
    exact .inl rfl
  refine .inr ⟨tokens, rfl, ?_⟩
  rcases ha : assemble (resolutionOf (specifiersOf tokens)) [] [] tokens with e' | body
  · simp only [bind, Except.bind, ht, ha] at h
    exact .inl h
  refine .inr ⟨body, rfl, ?_⟩
  rcases hv : validate (leavesOf body) with e' | u
  · simp only [bind, Except.bind, ht, ha, hv] at h
    cases h
    rfl
  · simp only [bind, Except.bind, ht, ha, hv, pure, Except.pure] at h
    cases h

/-- The fields and signs of an assembled tree are those of the symbols. -/
theorem leaves_of_assemble {resolution : Axis → Option Resolution} {tokens : List Token}
    {body : List Node} (h : assemble resolution [] [] tokens = .ok body) :
    Leaf.specifiers (leavesOf body) = Symbol.specifiers (tokens.map Token.symbol) ∧
      (leavesOf body).filterMap Leaf.signAxis? = Symbol.signAxes (tokens.map Token.symbol) := by
  refine ⟨by rw [specifiers_leavesOf, symbolsOf_of_assemble h], ?_⟩
  have hsigns : (leavesFrom resolution tokens).filterMap Leaf.signAxis? = _ :=
    signAxes_leavesFrom tokens
  rw [← hsigns, leavesOf_assemble h]
  simp [OpenGroup.leavesOf, leavesOf]

theorem symbolsHave_iff {pattern : Text} {tokens : List Token}
    (ht : tokenize pattern = .ok tokens) {p : List Symbol → Prop} :
    SymbolsHave p pattern ↔ p (tokens.map Token.symbol) := by
  refine ⟨fun h => h tokens ht, fun h tokens' ht' => ?_⟩
  rw [ht] at ht'
  exact Except.ok.inj ht' ▸ h

/-- A pattern that compiles obeys every rule. -/
theorem obeys_of_compile {pattern : Text} {body : List Node} (h : compile pattern = .ok body)
    (rule : Rule) : Obeys pattern rule := by
  obtain ⟨tokens, ht, ha, hv⟩ := compile_eq_ok_iff.1 h
  obtain ⟨hquotes, hdivided⟩ := (exists_tokenize_iff pattern).1 ⟨tokens, ht⟩
  obtain ⟨hbalanced, hplus⟩ := balanced_of_assemble ha
  obtain ⟨hpair, hsigns, -⟩ := validate_eq_ok_iff.1 hv
  obtain ⟨hminutes, hseconds⟩ := haveRules_of_angleChecked (angleChecked_of_compile h)
  obtain ⟨hspecifiers, haxes⟩ := leaves_of_assemble ha
  rw [← unitsDiffer_iff, hspecifiers] at hpair
  rw [hspecifiers] at hminutes hseconds
  rw [haxes] at hsigns
  cases rule with
  | quotes => exact hquotes
  | separators => exact hdivided
  | brackets => rwa [Obeys, symbolsHave_iff ht]
  | plusSigns => rwa [Obeys, symbolsHave_iff ht]
  | units => rwa [Obeys, symbolsHave_iff ht]
  | signs => rwa [Obeys, symbolsHave_iff ht]
  | minutes => rwa [Obeys, symbolsHave_iff ht]
  | seconds => rwa [Obeys, symbolsHave_iff ht]

/-- A text that does not compile breaks the rule that its error is about. -/
theorem rule?_of_compile {pattern : Text} {e : PatternError} (h : compile pattern = .error e) :
    ∃ rule, e.rule? = some rule ∧ ¬ Obeys pattern rule := by
  rcases compile_eq_error h with h | ⟨tokens, ht, h | ⟨body, ha, hv⟩⟩
  · exact rule?_of_tokenize h
  · rcases rule?_of_assemble h with ⟨hr, hb⟩ | ⟨hr, hb⟩
    all_goals exact ⟨_, hr, by rwa [Obeys, symbolsHave_iff ht]⟩
  · obtain ⟨hspecifiers, haxes⟩ := leaves_of_assemble ha
    have hrule := rule?_of_validate hv
    rw [hspecifiers, haxes] at hrule
    rcases hrule with ⟨hr, hb⟩ | ⟨hr, hb⟩ | ⟨hr, hb⟩ | ⟨hr, hb⟩
    all_goals exact ⟨_, hr, by rwa [Obeys, symbolsHave_iff ht]⟩

/-! ## Brackets do not matter to fields and signs -/

namespace Symbol

/-- The symbols without the brackets. -/
def unbracketed (symbols : List Symbol) : List Symbol := symbols.filter fun s => !s.isBracket

theorem specifiers_unbracketed (symbols : List Symbol) :
    specifiers (unbracketed symbols) = specifiers symbols := by
  induction symbols with
  | nil => rfl
  | cons symbol rest ih =>
    cases symbol with
    | optionalStart | optionalEnd => exact ih
    | field s => exact congrArg (s :: ·) ih
    | sign | hemisphere kind | literal text => exact ih

theorem signAxes_unbracketed {symbols : List Symbol} (h : PlusFollowed symbols) :
    signAxes (unbracketed symbols) = signAxes symbols := by
  induction symbols with
  | nil => rfl
  | cons symbol rest ih =>
    obtain ⟨hfirst, hrest⟩ := plusFollowed_cons.1 h
    rw [signAxes, ← ih hrest]
    cases symbol with
    | optionalStart | optionalEnd => rfl
    | sign =>
      -- the field behind the plus sign is behind it without brackets, too
      obtain ⟨s, more, rfl⟩ := hfirst rfl
      rfl
    | hemisphere kind | field s | literal text => rfl

end Symbol

/-- The compiler accepts just the patterns that obey every rule, and of any other text it says which
rule it breaks. There are tokens exactly if the two rules on characters are obeyed, and the rules on
fields and signs do not depend on the brackets among them. -/
theorem compile_language (pattern : Text) :
    ((∃ body, compile pattern = .ok body) ↔ ∀ rule, Obeys pattern rule) ∧
    (∀ e, compile pattern = .error e → ∃ rule, e.rule? = some rule ∧ ¬ Obeys pattern rule) ∧
    ((∃ tokens, tokenize pattern = .ok tokens) ↔
      Obeys pattern .quotes ∧ Obeys pattern .separators) ∧
    ∀ other tokens tokens', tokenize pattern = .ok tokens → tokenize other = .ok tokens' →
      Symbol.unbracketed (tokens.map Token.symbol) =
        Symbol.unbracketed (tokens'.map Token.symbol) →
      Obeys pattern .plusSigns → Obeys other .plusSigns →
      ∀ rule ∈ [Rule.units, .signs, .minutes, .seconds], Obeys pattern rule ↔ Obeys other rule := by
  refine ⟨⟨?_, ?_⟩, fun e => rule?_of_compile, exists_tokenize_iff pattern, ?_⟩
  · rintro ⟨body, h⟩
    exact obeys_of_compile h
  · intro h
    rcases hc : compile pattern with e | body
    · obtain ⟨rule, -, hb⟩ := rule?_of_compile hc
      exact absurd (h rule) hb
    · exact ⟨body, rfl⟩
  · intro other tokens tokens' ht ht' he hplus hplus' rule hrule
    have hspecifiers := congrArg Symbol.specifiers he
    rw [Symbol.specifiers_unbracketed, Symbol.specifiers_unbracketed] at hspecifiers
    have haxes := congrArg Symbol.signAxes he
    rw [Symbol.signAxes_unbracketed ((symbolsHave_iff ht).1 hplus),
      Symbol.signAxes_unbracketed ((symbolsHave_iff ht').1 hplus')] at haxes
    simp only [List.mem_cons, List.not_mem_nil, or_false] at hrule
    rcases hrule with rfl | rfl | rfl | rfl
    all_goals rw [Obeys, Obeys, symbolsHave_iff ht, symbolsHave_iff ht']
    · rw [hspecifiers]
    · rw [haxes]
    · rw [hspecifiers]
    · rw [hspecifiers]

end GeoPattern
