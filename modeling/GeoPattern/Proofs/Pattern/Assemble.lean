/-
What a pattern is compiled to. An assembled tree has the symbols of its tokens in the same order,
and the leaves that the tokens stand for; its groups are the only nesting. Positions are of no
importance for the tree.
Main statements: `symbolsOf_assemble`, `leavesOf_assemble`, `assemble_congr`.
-/
import GeoPattern.Formatter
import GeoPattern.Proofs.Layout.Forest

namespace GeoPattern

open Node

/-! ## The pieces of a compilation -/

/-- A pattern compiles exactly if it has tokens, these assemble and the tree is valid. -/
theorem compile_eq_ok_iff {pattern : Text} {body : List Node} :
    compile pattern = .ok body ↔ ∃ tokens, tokenize pattern = .ok tokens ∧
      assemble (resolutionOf (specifiersOf tokens)) [] [] tokens = .ok body ∧
      validate (leavesOf body) = .ok () := by
  unfold compile
  constructor
  · intro h
    rcases ht : tokenize pattern with e | tokens
    · rw [ht] at h; cases h
    rw [ht] at h
    rcases ha : assemble (resolutionOf (specifiersOf tokens)) [] [] tokens with e | tree
    · simp only [bind, Except.bind, ha] at h; cases h
    rcases hv : validate (leavesOf tree) with e | u
    · simp only [bind, Except.bind, ha, hv] at h; cases h
    · simp only [bind, Except.bind, ha, hv, pure, Except.pure, Except.ok.injEq] at h
      subst h
      exact ⟨tokens, rfl, ha, hv⟩
  · rintro ⟨tokens, ht, ha, hv⟩
    simp only [bind, Except.bind, ht, ha, hv, pure, Except.pure]

theorem ofPattern_eq_ok_iff {pattern : Text} {f : Formatter} :
    Formatter.ofPattern pattern = .ok f ↔ compile pattern = .ok f.body ∧ f.pattern = pattern := by
  unfold Formatter.ofPattern
  rcases compile pattern with e | body
  · constructor
    · intro h; cases h
    · rintro ⟨h, -⟩; cases h
  · simp only [bind, Except.bind, pure, Except.pure, Except.ok.injEq]
    constructor
    · rintro rfl; exact ⟨rfl, rfl⟩
    · rintro ⟨rfl, rfl⟩; rfl

/-- What holds of a computed result can be decided. -/
instance decidableExistsOk {ε α : Type} {p : α → Prop} [DecidablePred p] :
    (r : Except ε α) → Decidable (∃ a, r = .ok a ∧ p a)
  | .ok a => decidable_of_iff (p a) (by simp)
  | .error _ => isFalse (by simp)

/-! ## Open groups -/

/-- The symbols in front of the innermost open group and of its bracket. -/
def OpenGroup.symbolsOf : List OpenGroup → List Symbol
  | [] => []
  | g :: outer => symbolsOf outer ++ Node.symbolsOf g.before.reverse ++ [.optionalStart]

/-- The leaves in front of the innermost open group. -/
def OpenGroup.leavesOf : List OpenGroup → List Leaf
  | [] => []
  | g :: outer => leavesOf outer ++ Node.leavesOf g.before.reverse

/-- A sign stands in front of a field, and takes its axis. -/
theorem assemble_sign_eq_ok {resolution : Axis → Option Resolution} {opened : List OpenGroup}
    {done : List Node} {position : Nat} {rest : List Token} {body : List Node}
    (h : assemble resolution opened done (⟨.sign, position⟩ :: rest) = .ok body) :
    ∃ s p more, rest = ⟨.field s, p⟩ :: more ∧
      assemble resolution opened (.leaf (.sign (.plus s.quantity.axis)) :: done) rest
        = .ok body := by
  unfold assemble at h
  dsimp only at h
  split at h
  · exact ⟨_, _, _, rfl, h⟩
  · cases h

theorem symbolsOf_assemble {resolution : Axis → Option Resolution} {opened : List OpenGroup}
    {done : List Node} {tokens : List Token} {body : List Node}
    (h : assemble resolution opened done tokens = .ok body) :
    symbolsOf body =
      OpenGroup.symbolsOf opened ++ symbolsOf done.reverse ++ tokens.map Token.symbol := by
  induction tokens generalizing opened done with
  | nil =>
    cases opened with
    | nil => cases h; simp [OpenGroup.symbolsOf]
    | cons g outer => cases h
  | cons token rest ih =>
    obtain ⟨symbol, position⟩ := token
    cases symbol with
    | optionalStart =>
      rw [ih h]
      simp [OpenGroup.symbolsOf, symbolsOf]
    | optionalEnd =>
      cases opened with
      | nil => cases h
      | cons g outer =>
        rw [ih h]
        simp [OpenGroup.symbolsOf, symbolsOf, symbols, symbolsOf_append]
    | sign =>
      obtain ⟨s, p, more, rfl, h⟩ := assemble_sign_eq_ok h
      rw [ih h]
      simp [symbolsOf, symbols, symbolsOf_append]
    | hemisphere kind => rw [ih h]; simp [symbolsOf, symbols, symbolsOf_append]
    | field s => rw [ih h]; simp [symbolsOf, symbols, symbolsOf_append]
    | literal text => rw [ih h]; simp [symbolsOf, symbols, symbolsOf_append]

/-- A tree has the symbols of the tokens that it was assembled from. -/
theorem symbolsOf_of_assemble {resolution : Axis → Option Resolution} {tokens : List Token}
    {body : List Node} (h : assemble resolution [] [] tokens = .ok body) :
    symbolsOf body = tokens.map Token.symbol := by
  simpa [OpenGroup.symbolsOf, symbolsOf] using symbolsOf_assemble h

/-! ## Leaves -/

/-- The leaves that tokens stand for. A field is bounded if it has more than one integer digit and
the next token, brackets aside, is a field. -/
def leavesFrom (resolution : Axis → Option Resolution) : List Token → List Leaf
  | [] => []
  | token :: rest =>
    match token.symbol with
    | .optionalStart | .optionalEnd => leavesFrom resolution rest
    | .sign =>
      match rest with
      | ⟨.field s, _⟩ :: _ => .sign (.plus s.quantity.axis) :: leavesFrom resolution rest
      | _ => leavesFrom resolution rest
    | .hemisphere kind => .sign (.hemisphere kind) :: leavesFrom resolution rest
    | .field s =>
      .field ⟨s, decide (1 < s.integerDigits) && fieldFollows rest, resolution s.quantity.axis⟩ ::
        leavesFrom resolution rest
    | .literal text => .literal text :: leavesFrom resolution rest

theorem leavesOf_assemble {resolution : Axis → Option Resolution} {opened : List OpenGroup}
    {done : List Node} {tokens : List Token} {body : List Node}
    (h : assemble resolution opened done tokens = .ok body) :
    leavesOf body =
      OpenGroup.leavesOf opened ++ leavesOf done.reverse ++ leavesFrom resolution tokens := by
  induction tokens generalizing opened done with
  | nil =>
    cases opened with
    | nil => cases h; simp [OpenGroup.leavesOf, leavesFrom]
    | cons g outer => cases h
  | cons token rest ih =>
    obtain ⟨symbol, position⟩ := token
    cases symbol with
    | optionalStart =>
      rw [ih h]
      simp [OpenGroup.leavesOf, leavesOf, leavesFrom]
    | optionalEnd =>
      cases opened with
      | nil => cases h
      | cons g outer =>
        rw [ih h]
        simp [OpenGroup.leavesOf, leavesOf, leaves, leavesOf_append, leavesFrom]
    | sign =>
      obtain ⟨s, p, more, rfl, h⟩ := assemble_sign_eq_ok h
      rw [ih h]
      simp [leavesOf, leaves, leavesOf_append, leavesFrom]
    | hemisphere kind => rw [ih h]; simp [leavesOf, leaves, leavesOf_append, leavesFrom]
    | field s => rw [ih h]; simp [leavesOf, leaves, leavesOf_append, leavesFrom]
    | literal text => rw [ih h]; simp [leavesOf, leaves, leavesOf_append, leavesFrom]

/-! ## Nesting -/

/-- Sequences are nested as the bodies of groups only. -/
inductive Node.Bracketed : List Node → Prop
  | nil : Bracketed []
  | leaf {l : Leaf} {rest : List Node} : Bracketed rest → Bracketed (.leaf l :: rest)
  | group {body rest : List Node} : Bracketed body → Bracketed rest →
      Bracketed (.group body :: rest)

namespace Node.Bracketed

theorem append {a b : List Node} (ha : Bracketed a) (hb : Bracketed b) : Bracketed (a ++ b) := by
  induction ha with
  | nil => exact hb
  | leaf _ ih => exact .leaf ih
  | group hbody _ _ ih => exact .group hbody ih

theorem reverse {a : List Node} (ha : Bracketed a) : Bracketed a.reverse := by
  induction ha with
  | nil => exact .nil
  | leaf _ ih => rw [List.reverse_cons]; exact ih.append (.leaf .nil)
  | group hbody _ _ ih => rw [List.reverse_cons]; exact ih.append (.group hbody .nil)

end Node.Bracketed

theorem bracketed_assemble {resolution : Axis → Option Resolution} {opened : List OpenGroup}
    {done : List Node} {tokens : List Token} {body : List Node}
    (ho : ∀ g ∈ opened, Bracketed g.before) (hd : Bracketed done)
    (h : assemble resolution opened done tokens = .ok body) : Bracketed body := by
  induction tokens generalizing opened done with
  | nil =>
    cases opened with
    | nil => cases h; exact hd.reverse
    | cons g outer => cases h
  | cons token rest ih =>
    obtain ⟨symbol, position⟩ := token
    cases symbol with
    | optionalStart =>
      refine ih (fun g hg => ?_) .nil h
      rcases List.mem_cons.1 hg with rfl | hg
      · exact hd
      · exact ho g hg
    -- the body of a group is nested by the invariant on what was assembled since its bracket
    | optionalEnd =>
      cases opened with
      | nil => cases h
      | cons g outer =>
        exact ih (fun g' hg => ho g' (List.mem_cons_of_mem _ hg))
          (.group hd.reverse (ho g List.mem_cons_self)) h
    | sign =>
      obtain ⟨s, p, more, rfl, h⟩ := assemble_sign_eq_ok h
      exact ih ho (.leaf hd) h
    | hemisphere kind => exact ih ho (.leaf hd) h
    | field s => exact ih ho (.leaf hd) h
    | literal text => exact ih ho (.leaf hd) h

/-! ## Positions -/

theorem fieldFollows_congr {a b : List Token} (h : a.map Token.symbol = b.map Token.symbol) :
    fieldFollows a = fieldFollows b := by
  induction a generalizing b with
  | nil => cases b with
    | nil => rfl
    | cons t b => cases h
  | cons s a ih => cases b with
    | nil => cases h
    | cons t b =>
      simp only [List.map_cons, List.cons.injEq] at h
      rw [fieldFollows, fieldFollows, h.1, ih h.2]

theorem specifiersOf_eq (tokens : List Token) :
    specifiersOf tokens = Symbol.specifiers (tokens.map Token.symbol) := by
  unfold specifiersOf Symbol.specifiers
  rw [List.filterMap_map]
  rfl

/-! ## One token -/

section Steps

variable (resolution : Axis → Option Resolution) (opened : List OpenGroup) (done : List Node)
  (position : Nat) (rest : List Token)

theorem assemble_optionalStart :
    assemble resolution opened done (⟨.optionalStart, position⟩ :: rest) =
      assemble resolution (⟨position, done⟩ :: opened) [] rest := rfl

theorem assemble_optionalEnd (g : OpenGroup) :
    assemble resolution (g :: opened) done (⟨.optionalEnd, position⟩ :: rest) =
      assemble resolution opened (.group done.reverse :: g.before) rest := rfl

theorem assemble_sign (s : Specifier) (p : Nat) :
    assemble resolution opened done (⟨.sign, position⟩ :: ⟨.field s, p⟩ :: rest) =
      assemble resolution opened (.leaf (.sign (.plus s.quantity.axis)) :: done)
        (⟨.field s, p⟩ :: rest) := rfl

/-- A plus sign without a field right behind it is refused. -/
theorem assemble_sign_eq_error {rest : List Token}
    (h : ¬ ∃ s p more, rest = ⟨.field s, p⟩ :: more) :
    assemble resolution opened done (⟨.sign, position⟩ :: rest) =
      .error (.danglingSign position) := by
  unfold assemble
  dsimp only
  split
  · exact absurd ⟨_, _, _, rfl⟩ h
  · rfl

theorem assemble_hemisphere (kind : Hemisphere) :
    assemble resolution opened done (⟨.hemisphere kind, position⟩ :: rest) =
      assemble resolution opened (.leaf (.sign (.hemisphere kind)) :: done) rest := rfl

theorem assemble_field (s : Specifier) :
    assemble resolution opened done (⟨.field s, position⟩ :: rest) =
      assemble resolution opened (.leaf (.field ⟨s, decide (1 < s.integerDigits) &&
        fieldFollows rest, resolution s.quantity.axis⟩) :: done) rest := rfl

theorem assemble_literal (text : Text) :
    assemble resolution opened done (⟨.literal text, position⟩ :: rest) =
      assemble resolution opened (.leaf (.literal text) :: done) rest := rfl

end Steps

/-- Tokens that differ in their positions only assemble to the same tree. -/
theorem assemble_congr {resolution : Axis → Option Resolution} {opened opened' : List OpenGroup}
    {done : List Node} {tokens tokens' : List Token} {body : List Node}
    (ho : opened.map OpenGroup.before = opened'.map OpenGroup.before)
    (ht : tokens.map Token.symbol = tokens'.map Token.symbol)
    (h : assemble resolution opened done tokens = .ok body) :
    assemble resolution opened' done tokens' = .ok body := by
  induction tokens generalizing opened opened' done tokens' with
  | nil =>
    cases opened with
    | cons g outer => cases h
    | nil =>
      obtain rfl : tokens' = [] := by simpa using ht.symm
      obtain rfl : opened' = [] := by simpa using ho.symm
      exact h
  | cons token rest ih =>
    obtain ⟨⟨symbol, position'⟩, rest', rfl⟩ : ∃ t r, tokens' = t :: r := by
      cases tokens' with
      | nil => cases ht
      | cons t r => exact ⟨t, r, rfl⟩
    obtain ⟨symbol, position⟩ := token
    obtain ⟨rfl, hr⟩ := List.cons.inj ht
    cases symbol with
    | optionalStart =>
      rw [assemble_optionalStart]
      exact ih (by rw [List.map_cons, List.map_cons, ho]) hr h
    | optionalEnd =>
      cases opened with
      | nil => cases h
      | cons g outer =>
        obtain ⟨g', outer', rfl⟩ : ∃ g' o', opened' = g' :: o' := by
          cases opened' with
          | nil => cases ho
          | cons g' o' => exact ⟨g', o', rfl⟩
        obtain ⟨hg, houter⟩ := List.cons.inj ho
        rw [assemble_optionalEnd, ← hg]
        exact ih houter hr h
    | sign =>
      obtain ⟨s, p, more, rfl, h⟩ := assemble_sign_eq_ok h
      obtain ⟨⟨following, p'⟩, more', rfl⟩ : ∃ t r, rest' = t :: r := by
        cases rest' with
        | nil => cases hr
        | cons t r => exact ⟨t, r, rfl⟩
      obtain ⟨rfl, -⟩ := List.cons.inj hr
      rw [assemble_sign]
      exact ih ho hr h
    | hemisphere kind =>
      rw [assemble_hemisphere]
      exact ih ho hr h
    | field s =>
      rw [assemble_field] at h ⊢
      rw [← fieldFollows_congr hr]
      exact ih ho hr h
    | literal text =>
      rw [assemble_literal]
      exact ih ho hr h

end GeoPattern
