/-
The structural errors of patterns. Brackets match if what stands between them is balanced, which is
just how a stack of open brackets pairs them. Three kinds of tokens cannot be assembled: a closing
bracket that matches none, a plus sign with no field behind it, and an opening bracket that matches
none. The first two are noticed where they stand, so the leftmost one is reported. An opening
bracket is missed at the end only, so it is reported if there is nothing else, and then the
rightmost one, which is the innermost.
Main statements: `matches_iff_stack`, `structural_error`.
-/
import GeoPattern.Proofs.Pattern.Language
import GeoPattern.Proofs.Pattern.Specifier

namespace GeoPattern

open Node

namespace Symbol

variable {a b symbols : List Symbol}

/-! ## Balanced symbols -/

theorem Closes.append {depth depth' : ℕ} (ha : Closes depth a) (hb : Closes depth' b) :
    Closes (depth + depth') (a ++ b) := by
  have hwhole := ha.whole
  refine ⟨fun front hf => ?_, ?_⟩
  · rcases List.prefix_or_prefix_of_prefix hf (List.prefix_append a b) with hf | ⟨more, rfl⟩
    · have := ha.fronts front hf
      omega
    · have := hb.fronts more ((List.prefix_append_right_inj a).1 hf)
      rw [List.count_append, List.count_append]
      omega
  · have := hb.whole
    rw [List.count_append, List.count_append]
    omega

/-- What stands behind some symbols closes what is open after them. -/
theorem Closes.behind {depth : ℕ} (h : Closes depth (a ++ b)) :
    Closes (depth + a.count .optionalStart - a.count .optionalEnd) b := by
  have ha := h.fronts a (List.prefix_append a b)
  refine ⟨fun front hf => ?_, ?_⟩
  · have := h.fronts (a ++ front) ((List.prefix_append_right_inj a).2 hf)
    rw [List.count_append, List.count_append] at this
    omega
  · have := h.whole
    rw [List.count_append, List.count_append] at this
    omega

theorem Balanced.append (ha : Balanced a) (hb : Balanced b) : Balanced (a ++ b) :=
  Closes.append ha hb

/-- A group around balanced symbols, with balanced symbols behind it. -/
theorem Balanced.group (ha : Balanced a) (hb : Balanced b) :
    Balanced (.optionalStart :: (a ++ .optionalEnd :: b)) :=
  closes_optionalStart.2 (Closes.append ha (closes_optionalEnd.2 ⟨Nat.one_pos, hb⟩))

theorem balanced_nil : Balanced [] := closes_nil.2 rfl

theorem balanced_singleton {symbol : Symbol} (h : symbol.isBracket = false) :
    Balanced [symbol] :=
  (closes_cons_of_not_bracket h).2 balanced_nil

/-- Where brackets are to be closed, the first bracket that closes one of them ends balanced
symbols. -/
theorem Closes.exists_balanced {depth : ℕ} (h : Closes (depth + 1) symbols) :
    ∃ between after, symbols = between ++ .optionalEnd :: after ∧ Balanced between ∧
      Closes depth after := by
  -- a group in front is passed over as a whole, so the induction is on the length
  induction hn : symbols.length using Nat.strong_induction_on generalizing symbols depth with
  | _ n ih =>
    subst hn
    cases symbols with
    | nil => exact absurd (closes_nil.1 h) (Nat.succ_ne_zero _)
    | cons symbol rest =>
      by_cases hbracket : symbol.isBracket = false
      · obtain ⟨between, after, rfl, hb, ha⟩ :=
          ih _ (Nat.lt_succ_self _) ((closes_cons_of_not_bracket hbracket).1 h) rfl
        exact ⟨symbol :: between, after, rfl, (closes_cons_of_not_bracket hbracket).2 hb, ha⟩
      cases symbol with
      | optionalEnd => exact ⟨[], rest, rfl, balanced_nil, (closes_optionalEnd.1 h).2⟩
      | optionalStart =>
        obtain ⟨inner, more, rfl, hi, hm⟩ :=
          ih _ (Nat.lt_succ_self _) (closes_optionalStart.1 h) rfl
        obtain ⟨between, after, rfl, hb, ha⟩ :=
          ih more.length (by simp only [List.length_cons, List.length_append]; omega) hm rfl
        exact ⟨.optionalStart :: (inner ++ .optionalEnd :: between), after, by simp,
          hi.group hb, ha⟩
      | _ => exact absurd rfl hbracket

/-! ## Matching -/

/-- The opening bracket at `i` and the closing one at `j` match: they enclose balanced symbols. -/
def Matches (symbols : List Symbol) (i j : ℕ) : Prop :=
  ∃ before between after,
    symbols = before ++ .optionalStart :: (between ++ .optionalEnd :: after) ∧
      Balanced between ∧ before.length = i ∧ i + between.length + 1 = j

/-- The stack of the places of open brackets behind one more symbol. -/
def pushed (stack : List ℕ) (place : ℕ) : Symbol → List ℕ
  | optionalStart => place :: stack
  | optionalEnd => stack.tail
  | _ => stack

/-- The stack of the places of open brackets behind symbols from a place on. -/
def stackFrom (stack : List ℕ) (place : ℕ) : List Symbol → List ℕ
  | [] => stack
  | symbol :: rest => stackFrom (pushed stack place symbol) (place + 1) rest

theorem pushed_of_not_bracket {symbol : Symbol} (h : symbol.isBracket = false) (stack : List ℕ)
    (place : ℕ) : pushed stack place symbol = stack := by
  cases symbol with
  | optionalStart | optionalEnd => cases h
  | _ => rfl

theorem stackFrom_append (stack : List ℕ) (place : ℕ) (a b : List Symbol) :
    stackFrom stack place (a ++ b) =
      stackFrom (stackFrom stack place a) (place + a.length) b := by
  induction a generalizing stack place with
  | nil => rfl
  | cons symbol a ih =>
    rw [List.cons_append, stackFrom, ih, List.length_cons, Nat.add_right_comm, ← Nat.add_assoc]
    rfl

/-- Symbols pop the brackets that they close, and nothing below. -/
theorem Closes.stackFrom_eq {depth : ℕ} (h : Closes depth symbols) {top : List ℕ}
    (htop : top.length = depth) (below : List ℕ) (place : ℕ) :
    stackFrom (top ++ below) place symbols = below := by
  induction symbols generalizing depth top place with
  | nil =>
    obtain rfl := closes_nil.1 h
    rw [List.length_eq_zero_iff.1 htop]
    rfl
  | cons symbol rest ih =>
    by_cases hbracket : symbol.isBracket = false
    · rw [stackFrom, pushed_of_not_bracket hbracket]
      exact ih ((closes_cons_of_not_bracket hbracket).1 h) htop _
    cases symbol with
    | optionalStart =>
      have hpush : (place :: top).length = depth + 1 := congrArg Nat.succ htop
      exact ih (closes_optionalStart.1 h) hpush _
    | optionalEnd =>
      obtain ⟨hpos, h⟩ := closes_optionalEnd.1 h
      obtain ⟨first, top, rfl⟩ := List.exists_cons_of_length_pos (htop ▸ hpos)
      exact ih h (by rw [← htop]; rfl) _
    | _ => exact absurd rfl hbracket

theorem Balanced.stackFrom_eq (h : Balanced symbols) (stack : List ℕ) (place : ℕ) :
    stackFrom stack place symbols = stack :=
  Closes.stackFrom_eq h (List.length_nil (α := ℕ)) stack place

/-- On top of the stack is the last opening bracket with nothing but balanced symbols behind it. -/
theorem exists_of_stackFrom {i : ℕ} {outer : List ℕ} (h : stackFrom [] 0 symbols = i :: outer) :
    ∃ before between, symbols = before ++ .optionalStart :: between ∧ Balanced between ∧
      before.length = i ∧ stackFrom [] 0 before = outer := by
  -- a closing bracket shows the bracket below the one that it pops: the induction is on the length
  induction hn : symbols.length using Nat.strong_induction_on generalizing symbols i outer with
  | _ n ih =>
    subst hn
    obtain rfl | ⟨front, symbol, rfl⟩ := List.eq_nil_or_concat' symbols
    · cases h
    have hlt : front.length < (front ++ [symbol]).length := by simp
    rw [stackFrom_append] at h
    change pushed (stackFrom [] 0 front) (0 + front.length) symbol = _ at h
    by_cases hbracket : symbol.isBracket = false
    · rw [pushed_of_not_bracket hbracket] at h
      obtain ⟨before, between, rfl, hb, hi, ho⟩ := ih _ hlt h rfl
      exact ⟨before, between ++ [symbol], by simp, hb.append (balanced_singleton hbracket), hi, ho⟩
    cases symbol with
    | optionalStart =>
      obtain ⟨hi, ho⟩ := List.cons.inj h
      exact ⟨front, [], rfl, balanced_nil, by rw [← hi, Nat.zero_add], ho⟩
    | optionalEnd =>
      obtain ⟨k, hk⟩ : ∃ k, stackFrom [] 0 front = k :: i :: outer := by
        rcases hs : stackFrom [] 0 front with - | ⟨k, stack⟩
        · rw [hs] at h
          cases h
        · rw [hs] at h
          exact ⟨k, congrArg _ h⟩
      obtain ⟨front, inner, rfl, hinner, -, hk⟩ := ih _ hlt hk rfl
      obtain ⟨before, between, rfl, hb, hi, ho⟩ := ih front.length (by simp) hk rfl
      exact ⟨before, between ++ .optionalStart :: (inner ++ .optionalEnd :: []), by simp,
        hb.append (hinner.group balanced_nil), hi, ho⟩
    | _ => exact absurd rfl hbracket

/-- Brackets match as a stack pairs them: a closing bracket matches the one that is on top of the
stack where it stands. -/
theorem matches_iff_stack {i j : ℕ} : Matches symbols i j ↔
    symbols[j]? = some .optionalEnd ∧ (stackFrom [] 0 (symbols.take j)).head? = some i := by
  constructor
  · rintro ⟨before, between, after, rfl, hb, rfl, hj⟩
    have hlen : (before ++ .optionalStart :: between).length = j := by
      rw [List.length_append, List.length_cons, ← hj]
      rfl
    rw [← List.cons_append, ← List.append_assoc, ← hlen, List.take_left, stackFrom_append,
      stackFrom, hb.stackFrom_eq, pushed, Nat.zero_add]
    exact ⟨by simp, rfl⟩
  · rintro ⟨hj, hi⟩
    obtain ⟨outer, hstack⟩ := List.head?_eq_some_iff.1 hi
    obtain ⟨before, between, htake, hb, hlen, -⟩ := exists_of_stackFrom hstack
    obtain ⟨hlt, hget⟩ := List.getElem?_eq_some_iff.1 hj
    refine ⟨before, between, symbols.drop (j + 1), ?_, hb, hlen, ?_⟩
    · rw [← List.cons_append, ← List.append_assoc, ← htake, ← hget, ← List.drop_eq_getElem_cons hlt,
        List.take_append_drop]
    · have := congrArg List.length htake
      rw [List.length_take_of_le hlt.le, List.length_append, List.length_cons] at this
      omega

/-- No bracket in front of the end of balanced symbols is matched by a bracket behind them. -/
theorem Balanced.not_matches (h : Balanced a) (rest : List Symbol) (i : ℕ) :
    ¬ Matches (a ++ .optionalEnd :: rest) i a.length := by
  rw [matches_iff_stack, List.take_left, h.stackFrom_eq]
  rintro ⟨-, hi⟩
  cases hi

/-- A bracket with balanced symbols behind it, up to the end, is not matched. -/
theorem Balanced.not_matches_start (h : Balanced b) (j : ℕ) :
    ¬ Matches (a ++ .optionalStart :: b) a.length j := by
  rintro ⟨before, between, after, he, hb, hlen, -⟩
  obtain ⟨-, htail⟩ := List.append_inj he hlen.symm
  obtain rfl := (List.cons.inj htail).2
  have hopen := h.fronts (between ++ [.optionalEnd]) ⟨after, by simp⟩
  have hbetween := hb.whole
  simp only [List.count_append, List.count_singleton_self, List.count_singleton, beq_iff_eq,
    reduceCtorEq, if_false] at hopen
  omega

/-- In balanced symbols every opening bracket is matched. -/
theorem Balanced.exists_matches (h : Balanced b) {k : ℕ} (hk : b[k]? = some .optionalStart)
    (a : List Symbol) : ∃ j, Matches (a ++ b) (a.length + k) j := by
  obtain ⟨hlt, hget⟩ := List.getElem?_eq_some_iff.1 hk
  have hsplit : b = b.take k ++ .optionalStart :: b.drop (k + 1) := by
    rw [← hget, ← List.drop_eq_getElem_cons hlt, List.take_append_drop]
  rw [Balanced, hsplit] at h
  have hbehind := closes_optionalStart.1 h.behind
  obtain ⟨between, after, hdrop, hbalanced, -⟩ := hbehind.exists_balanced
  rw [hdrop] at hsplit
  refine ⟨_, a ++ b.take k, between, after, ?_, hbalanced, ?_, rfl⟩
  · conv_lhs => rw [hsplit]
    rw [List.append_assoc]
  · rw [List.length_append, List.length_take_of_le hlt.le]

end Symbol

/-! ## Errors of tokens -/

/-- The token at `i` cannot be assembled where it stands: a closing bracket that matches none, or a
plus sign with no field right behind it. -/
inductive Misplaced (tokens : List Token) (i : ℕ) : PatternError → Prop
  | unopened {position : ℕ} : tokens[i]? = some ⟨.optionalEnd, position⟩ →
      (∀ j, ¬ Symbol.Matches (tokens.map Token.symbol) j i) →
      Misplaced tokens i (.unopenedBracket position)
  | dangling {position : ℕ} : tokens[i]? = some ⟨.sign, position⟩ →
      (∀ s p, tokens[i + 1]? ≠ some ⟨.field s, p⟩) → Misplaced tokens i (.danglingSign position)

/-- The token at `i` is an opening bracket that matches none. -/
inductive Unclosed (tokens : List Token) (i : ℕ) : PatternError → Prop
  | bracket {position : ℕ} : tokens[i]? = some ⟨.optionalStart, position⟩ →
      (∀ j, ¬ Symbol.Matches (tokens.map Token.symbol) i j) →
      Unclosed tokens i (.unclosedBracket position)

/-- The error that is reported: of the first misplaced token, and if no token is misplaced, of the
last bracket that is unclosed. -/
inductive Reported (tokens : List Token) : PatternError → Prop
  | first {i : ℕ} {e : PatternError} : Misplaced tokens i e →
      (∀ j e', Misplaced tokens j e' → i ≤ j) → Reported tokens e
  | last {i : ℕ} {e : PatternError} : (∀ j e', ¬ Misplaced tokens j e') → Unclosed tokens i e →
      (∀ j e', Unclosed tokens j e' → j ≤ i) → Reported tokens e

/-- The token that a structural error is about. -/
def PatternError.token? : PatternError → Option Token
  | .unopenedBracket position => some ⟨.optionalEnd, position⟩
  | .danglingSign position => some ⟨.sign, position⟩
  | .unclosedBracket position => some ⟨.optionalStart, position⟩
  | _ => none

section Tokens

variable {tokens : List Token} {i : ℕ} {e e' : PatternError}

/-- A token is misplaced in one way at most. -/
theorem Misplaced.unique (h : Misplaced tokens i e) (h' : Misplaced tokens i e') : e = e' := by
  cases h with
  | unopened ht _ =>
    cases h' with
    | unopened ht' _ =>
      rw [ht] at ht'
      cases ht'
      rfl
    | dangling ht' _ =>
      rw [ht] at ht'
      cases ht'
  | dangling ht _ =>
    cases h' with
    | unopened ht' _ =>
      rw [ht] at ht'
      cases ht'
    | dangling ht' _ =>
      rw [ht] at ht'
      cases ht'
      rfl

theorem Unclosed.unique (h : Unclosed tokens i e) (h' : Unclosed tokens i e') : e = e' := by
  obtain ⟨ht, -⟩ := h
  obtain ⟨ht', -⟩ := h'
  rw [ht] at ht'
  cases ht'
  rfl

/-- At most one error is reported. -/
theorem Reported.unique (h : Reported tokens e) (h' : Reported tokens e') : e = e' := by
  obtain ⟨hm, hleast⟩ | ⟨hnone, hu, hgreatest⟩ := h
  · obtain ⟨hm', hleast'⟩ | ⟨hnone', -, -⟩ := h'
    · obtain rfl := Nat.le_antisymm (hleast _ _ hm') (hleast' _ _ hm)
      exact hm.unique hm'
    · exact absurd hm (hnone' _ _)
  · obtain ⟨hm', -⟩ | ⟨-, hu', hgreatest'⟩ := h'
    · exact absurd hm' (hnone _ _)
    · obtain rfl := Nat.le_antisymm (hgreatest' _ _ hu) (hgreatest _ _ hu')
      exact hu.unique hu'

/-- A reported error is about a token, and its message gives the position of that token. -/
theorem Reported.exists_token (h : Reported tokens e) (pattern : Text) :
    ∃ t ∈ tokens, e.token? = some t ∧ (∀ u, t.symbol ≠ .literal u) ∧
      ∃ what, e.message pattern = PatternError.located what t.position pattern := by
  cases h with
  | first h _ =>
    cases h with
    | unopened ht _ | dangling ht _ =>
      exact ⟨_, List.mem_of_getElem? ht, rfl, fun _ => Symbol.noConfusion, _, rfl⟩
  | last _ h _ =>
    cases h with
    | bracket ht _ =>
      exact ⟨_, List.mem_of_getElem? ht, rfl, fun _ => Symbol.noConfusion, _, rfl⟩

end Tokens

/-! ## Assembling -/

/-- The brackets that are open behind some tokens, the innermost one first: what stands between one
and the next is balanced. -/
inductive Within : List Token → List OpenGroup → Prop
  | outermost {front : List Token} : Symbol.Balanced (front.map Token.symbol) → Within front []
  | inside {front between : List Token} {g : OpenGroup} {outer : List OpenGroup} :
      Within front outer → Symbol.Balanced (between.map Token.symbol) →
      Within (front ++ ⟨.optionalStart, g.position⟩ :: between) (g :: outer)

namespace Within

variable {front more : List Token} {g : OpenGroup} {opened outer : List OpenGroup}

theorem nil : Within [] [] := .outermost Symbol.balanced_nil

theorem append (h : Within front opened) (hmore : Symbol.Balanced (more.map Token.symbol)) :
    Within (front ++ more) opened := by
  cases h with
  | outermost hb => exact .outermost (by rw [List.map_append]; exact hb.append hmore)
  | inside hw hb =>
    rw [List.append_assoc, List.cons_append]
    exact .inside hw (by rw [List.map_append]; exact hb.append hmore)

theorem start (h : Within front opened) (g : OpenGroup) :
    Within (front ++ [⟨.optionalStart, g.position⟩]) (g :: opened) :=
  have hnil : Symbol.Balanced (([] : List Token).map Token.symbol) := Symbol.balanced_nil
  .inside h hnil

/-- A closing bracket matches the innermost open one, and leaves the others open. -/
theorem close (h : Within front (g :: outer)) (position : ℕ) (rest : List Token) :
    (∃ j, Symbol.Matches ((front ++ ⟨.optionalEnd, position⟩ :: rest).map Token.symbol) j
      front.length) ∧
    Within (front ++ [⟨.optionalEnd, position⟩]) outer := by
  obtain _ | ⟨hw, hb⟩ := h
  rename_i front between
  refine ⟨⟨front.length, front.map Token.symbol, between.map Token.symbol, rest.map Token.symbol,
    by simp, hb, List.length_map _, by simp; omega⟩, ?_⟩
  rw [List.append_assoc]
  exact hw.append (by simpa using hb.group Symbol.balanced_nil)

end Within

section Assemble

variable {resolution : Axis → Option Resolution} {front rest : List Token}
  {opened : List OpenGroup} {done : List Node}

/-- One token: it is misplaced and its error is the result, or it is not and the rest is assembled
behind it. -/
theorem assemble_step (h : Within front opened) (done : List Node) (t : Token)
    (rest : List Token) :
    (∃ e, assemble resolution opened done (t :: rest) = .error e ∧
      Misplaced (front ++ t :: rest) front.length e) ∨
    (∀ e, ¬ Misplaced (front ++ t :: rest) front.length e) ∧ ∃ opened' done',
      assemble resolution opened done (t :: rest) = assemble resolution opened' done' rest ∧
        Within (front ++ [t]) opened' := by
  have hget : (front ++ t :: rest)[front.length]? = some t := by simp
  obtain ⟨symbol, position⟩ := t
  -- only a closing bracket or a plus sign can be misplaced
  have hplaced (hend : symbol ≠ .optionalEnd) (hsign : symbol ≠ .sign) (e : PatternError) :
      ¬ Misplaced (front ++ ⟨symbol, position⟩ :: rest) front.length e := by
    rintro (⟨ht, -⟩ | ⟨ht, -⟩)
    · rw [hget] at ht; cases ht; exact hend rfl
    · rw [hget] at ht; cases ht; exact hsign rfl
  cases symbol with
  | optionalStart =>
    exact .inr ⟨hplaced nofun nofun, _, _, rfl, h.start ⟨position, done⟩⟩
  | optionalEnd =>
    cases opened with
    | nil =>
      obtain ⟨hb⟩ := h
      refine .inl ⟨_, rfl, .unopened hget fun j => ?_⟩
      simpa using hb.not_matches (rest.map Token.symbol) j
    | cons g outer =>
      obtain ⟨⟨j, hj⟩, hw⟩ := h.close position rest
      refine .inr ⟨?_, _, _, rfl, hw⟩
      rintro e (⟨-, hnone⟩ | ⟨ht, -⟩)
      · exact hnone j hj
      · rw [hget] at ht; cases ht
  | sign =>
    have hnext : (front ++ ⟨.sign, position⟩ :: rest)[front.length + 1]? = rest[0]? := by
      rw [List.getElem?_append_right (Nat.le_add_right _ 1), Nat.add_sub_cancel_left]
      rfl
    by_cases hf : ∃ s p more, rest = ⟨.field s, p⟩ :: more
    · obtain ⟨s, p, more, rfl⟩ := hf
      refine .inr ⟨?_, _, _, assemble_sign .., h.append (Symbol.balanced_singleton rfl)⟩
      rintro e (⟨ht, -⟩ | ⟨-, hnone⟩)
      · rw [hget] at ht; cases ht
      · exact hnone s p hnext
    · refine .inl ⟨_, assemble_sign_eq_error _ _ _ _ hf, .dangling hget fun s p hs => hf ?_⟩
      rw [hnext, ← List.head?_eq_getElem?, List.head?_eq_some_iff] at hs
      obtain ⟨more, rfl⟩ := hs
      exact ⟨s, p, more, rfl⟩
  | hemisphere kind | field s | literal text =>
    exact .inr ⟨hplaced nofun nofun, _, _, rfl, h.append (Symbol.balanced_singleton rfl)⟩

/-- Tokens whose brackets are all closed have none that is unclosed. -/
theorem not_unclosed_of_balanced {tokens : List Token}
    (h : Symbol.Balanced (tokens.map Token.symbol)) (i : ℕ) (e : PatternError) :
    ¬ Unclosed tokens i e := by
  rintro ⟨ht, hnone⟩
  obtain ⟨j, hj⟩ := h.exists_matches (k := i) (by rw [List.getElem?_map, ht]; rfl) []
  rw [List.nil_append, List.length_nil, Nat.zero_add] at hj
  exact hnone j hj

/-- At the end the innermost open bracket is the last one that is unclosed. -/
theorem unclosed_innermost {g : OpenGroup} {outer : List OpenGroup} {tokens : List Token}
    (h : Within tokens (g :: outer)) : ∃ i, Unclosed tokens i (.unclosedBracket g.position) ∧
      ∀ j e, Unclosed tokens j e → j ≤ i := by
  obtain _ | ⟨hw, hb⟩ := h
  rename_i front between
  refine ⟨front.length, .bracket (by simp) fun j => ?_, ?_⟩
  · simpa using hb.not_matches_start (a := front.map Token.symbol) j
  · rintro j e ⟨ht, hnone⟩
    by_contra hlt
    obtain ⟨k, rfl⟩ : ∃ k, j = front.length + 1 + k := ⟨j - (front.length + 1), by omega⟩
    have hk : (between.map Token.symbol)[k]? = some .optionalStart := by
      rw [List.getElem?_append_right (by omega), Nat.add_assoc, Nat.add_sub_cancel_left,
        Nat.add_comm, List.getElem?_cons_succ] at ht
      rw [List.getElem?_map, ht]
      rfl
    obtain ⟨j', hj⟩ := hb.exists_matches hk (front.map Token.symbol ++ [.optionalStart])
    refine hnone j' ?_
    simpa using hj

/-- All of the tokens, behind others none of which is misplaced. -/
theorem assemble_spec (h : Within front opened)
    (hfront : ∀ i < front.length, ∀ e, ¬ Misplaced (front ++ rest) i e) :
    (∃ body, assemble resolution opened done rest = .ok body) ∧
      (∀ i e, ¬ Misplaced (front ++ rest) i e ∧ ¬ Unclosed (front ++ rest) i e) ∨
    ∃ e, assemble resolution opened done rest = .error e ∧ Reported (front ++ rest) e := by
  induction rest generalizing front opened done with
  | nil =>
    have hnone : ∀ i e, ¬ Misplaced (front ++ []) i e := by
      intro i e hm
      have hi : i < front.length := by
        obtain ⟨ht, -⟩ | ⟨ht, -⟩ := hm
        all_goals
          obtain ⟨hlt, -⟩ := List.getElem?_eq_some_iff.1 ht
          rwa [List.append_nil] at hlt
      exact hfront i hi e hm
    rw [List.append_nil] at hnone ⊢
    cases opened with
    | nil =>
      obtain ⟨hb⟩ := h
      exact .inl ⟨⟨_, rfl⟩, fun i e => ⟨hnone i e, not_unclosed_of_balanced hb i e⟩⟩
    | cons g outer =>
      obtain ⟨i, hu, hgreatest⟩ := unclosed_innermost h
      exact .inr ⟨_, rfl, .last hnone hu hgreatest⟩
  | cons t rest ih =>
    obtain ⟨e, he, hm⟩ | ⟨hnone, opened', done', he, hw⟩ := assemble_step h done t rest
    · refine .inr ⟨e, he, .first hm fun j e' hm' => ?_⟩
      by_contra hlt
      exact hfront j (Nat.lt_of_not_le hlt) e' hm'
    · rw [he, List.append_cons]
      refine ih hw fun i hi e => ?_
      rw [← List.append_cons]
      rw [List.length_append, List.length_singleton] at hi
      rcases Nat.lt_succ_iff_lt_or_eq.1 hi with hi | rfl
      · exact hfront i hi e
      · exact hnone e

/-- All tokens: they are assembled if nothing is wrong with any of them. -/
theorem assemble_tokens (resolution : Axis → Option Resolution) (tokens : List Token) :
    (∃ body, assemble resolution [] [] tokens = .ok body) ∧
      (∀ i e, ¬ Misplaced tokens i e ∧ ¬ Unclosed tokens i e) ∨
    ∃ e, assemble resolution [] [] tokens = .error e ∧ Reported tokens e :=
  assemble_spec Within.nil fun i hi => absurd hi (Nat.not_lt_zero i)

/-- Tokens are refused exactly with the error that is to be reported. -/
theorem assemble_eq_error_iff {tokens : List Token} {e : PatternError} :
    assemble resolution [] [] tokens = .error e ↔ Reported tokens e := by
  rcases assemble_tokens resolution tokens with ⟨⟨body, hb⟩, hnone⟩ | ⟨e', he, hr⟩
  · rw [hb]
    refine ⟨nofun, fun h => ?_⟩
    obtain ⟨hm, -⟩ | ⟨-, hu, -⟩ := h
    · exact absurd hm (hnone _ _).1
    · exact absurd hu (hnone _ _).2
  · rw [he]
    exact ⟨fun h => Except.error.inj h ▸ hr, fun h => congrArg _ (hr.unique h)⟩

end Assemble

/-- Structural errors name the right token. The tokens of a pattern are refused exactly if there is
a closing bracket that matches none, a plus sign with no field right behind it, or an opening
bracket that matches none. The error is the one of the leftmost token of the first two kinds, and if
there is none of these, the one of the rightmost opening bracket that matches none. It is the error
of the whole pattern, and its message gives the position where that token stands in the pattern. -/
theorem structural_error {pattern : Text} {tokens : List Token}
    (h : tokenize pattern = .ok tokens) :
    ((∃ e, assemble (resolutionOf (specifiersOf tokens)) [] [] tokens = .error e) ↔
      ∃ i e, Misplaced tokens i e ∨ Unclosed tokens i e) ∧
    (∀ e, assemble (resolutionOf (specifiersOf tokens)) [] [] tokens = .error e ↔
      Reported tokens e) ∧
    ∀ e, Reported tokens e → compile pattern = .error e ∧
      ∃ t ∈ tokens, e.token? = some t ∧ t.text <+: pattern.drop t.position ∧
        ∃ what, e.message pattern = PatternError.located what t.position pattern := by
  refine ⟨⟨?_, ?_⟩, fun e => assemble_eq_error_iff, fun e he => ⟨?_, ?_⟩⟩
  · rintro ⟨e, he⟩
    obtain ⟨hm, -⟩ | ⟨-, hu, -⟩ := assemble_eq_error_iff.1 he
    · exact ⟨_, _, .inl hm⟩
    · exact ⟨_, _, .inr hu⟩
  · rintro ⟨i, e, hfault⟩
    rcases assemble_tokens (resolutionOf (specifiersOf tokens)) tokens with
      ⟨-, hnone⟩ | ⟨e', he, -⟩
    · exact absurd hfault (not_or.2 (hnone i e))
    · exact ⟨e', he⟩
  · simp only [compile, bind, Except.bind, h, assemble_eq_error_iff.2 he]
  · obtain ⟨t, ht, htoken, hliteral, hmessage⟩ := he.exists_token pattern
    exact ⟨t, ht, htoken, prefix_drop_of_tokenize h ht hliteral, hmessage⟩

/-- In the first pattern a plus sign and an opening bracket are wrong behind the closing bracket
that is reported; in the second one nothing is misplaced, and two brackets stay open around a
group. -/
theorem structural_error_among_several :
    (∃ tokens, tokenize (Text.lit "[D]]+X[") = .ok tokens ∧
      Reported tokens (.unopenedBracket 3) ∧
      compile (Text.lit "[D]]+X[") = .error (.unopenedBracket 3)) ∧
    ∃ tokens, tokenize (Text.lit "[D[X[d]") = .ok tokens ∧ Reported tokens (.unclosedBracket 2) ∧
      compile (Text.lit "[D[X[d]") = .error (.unclosedBracket 2) := by
  obtain ⟨tokens, ht, ha⟩ : ∃ tokens, tokenize (Text.lit "[D]]+X[") = .ok tokens ∧
    assemble (resolutionOf (specifiersOf tokens)) [] [] tokens = .error (.unopenedBracket 3) := by
    decide +kernel
  obtain ⟨tokens', ht', ha'⟩ : ∃ tokens, tokenize (Text.lit "[D[X[d]") = .ok tokens ∧
    assemble (resolutionOf (specifiersOf tokens)) [] [] tokens = .error (.unclosedBracket 2) := by
    decide +kernel
  have h := structural_error ht
  have h' := structural_error ht'
  have hr := (h.2.1 _).1 ha
  have hr' := (h'.2.1 _).1 ha'
  exact ⟨⟨tokens, ht, hr, (h.2.2 _ hr).1⟩, tokens', ht', hr', (h'.2.2 _ hr').1⟩

end GeoPattern
