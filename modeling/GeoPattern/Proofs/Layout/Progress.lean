/-
What a reading does to its state, whatever the tree, the text and the state. It only goes on in the
text, up to its end; failures are recorded where it stops, and nowhere else; and in front of the
text it takes nothing into the draft.
Main statements: `exists_tells_of_readAt`, `Outcome.readAll`.
-/
import GeoPattern.Layout.Read
import GeoPattern.Proofs.Layout.Forest
import GeoPattern.Proofs.Number.Scan

namespace GeoPattern

open Node

variable {text : Text} {index : ℤ} {count : ℕ} {c : Contribution}

theorem Text.eq_drop_of_from? {rest : Text} (h0 : 0 ≤ index) (h : text.from? index = some rest) :
    index ≤ text.length ∧ rest = text.drop index.toNat := by
  unfold from? at h
  rw [if_neg (by omega)] at h
  split at h
  · cases h
  · exact ⟨by omega, (Option.some.inj h).symm⟩

/-! ## Numbers -/

namespace Specifier

variable {s : Specifier} {signed bounded : Bool} {value : Double}

/-- Inside of a text, a number is read where a scan finds digits. -/
theorem readAt_eq_ok (h0 : 0 ≤ index)
    (h : s.readAt signed bounded text index = .ok (value, count)) :
    ∃ rest, text.from? index = some rest ∧ (s.scan signed bounded rest).hasDigits = true ∧
      value = (s.scan signed bounded rest).value ∧ count = (s.scan signed bounded rest).length := by
  unfold readAt at h
  rw [if_neg (by omega)] at h
  split at h
  · rename_i n hn
    obtain ⟨rest, hrest, hscan⟩ := Option.bind_eq_some_iff.1 hn
    unfold scan? at hscan
    dsimp only at hscan
    split at hscan
    · rename_i hdigits
      cases hscan
      cases h
      exact ⟨rest, hrest, hdigits, rfl, rfl⟩
    · cases hscan
  · cases h

theorem readAt_eq_outside_iff :
    s.readAt signed bounded text index = .error .outside ↔ text.length + index < 0 := by
  unfold readAt readFromEnd
  by_cases hout : text.length + index < 0
  · rw [if_pos (by omega), if_pos hout]
    exact iff_of_true rfl hout
  · refine iff_of_false ?_ hout
    rw [if_neg hout]
    by_cases hi : index < 0
    · rw [if_pos hi]
      dsimp only
      split <;> exact nofun
    · rw [if_neg hi]
      split <;> exact nofun

end Specifier

/-! ## Leaves -/

/-- What a text tells where it stands for a leaf. -/
def Leaf.Tells (l : Leaf) (w : Text) (c : Contribution) : Prop :=
  match l with
  | .field f => ∃ n : Numeral, n.Scanned f.specifier.quantity.isSigned ∧ n.hasDigits = true ∧
      w = n.spelledWith f.specifier.separator ∧ c = .number f.specifier.quantity n.value
  | .sign mark => w = [mark.positive] ∧ c = .sign mark.axis 1 ∨
      w = [mark.negative] ∧ c = .sign mark.axis (-1)
  | .literal t => w = t ∧ c = .nothing

namespace Leaf

/-- A field reads a number, and nothing else can come of it. -/
theorem readAt_field (f : Field) : (Leaf.field f).readAt text index =
    (f.specifier.readAt f.specifier.quantity.isSigned f.bounded text index).map
      fun r => (r.2, .number f.specifier.quantity r.1) := by
  unfold readAt
  dsimp only
  rcases f.specifier.readAt f.specifier.quantity.isSigned f.bounded text index with miss | r <;> rfl

theorem tells_of_readSign? {mark : SignMark} {rest : Text} (h : readSign? mark rest = some c) :
    ∃ w behind, rest = w ++ behind ∧ w.length = 1 ∧ (sign mark).Tells w c := by
  cases rest with
  | nil => cases h
  | cons d behind =>
    refine ⟨[d], behind, rfl, rfl, ?_⟩
    unfold readSign? at h
    dsimp only at h
    split at h
    · rename_i hd
      exact .inl ⟨by rw [hd], (Option.some.inj h).symm⟩
    split at h
    · rename_i hd
      exact .inr ⟨by rw [hd], (Option.some.inj h).symm⟩
    · cases h

/-- A leaf that is read in a text takes a piece of it, which tells its contribution. -/
theorem exists_tells_of_readAt {l : Leaf} (h0 : 0 ≤ index)
    (h : l.readAt text index = .ok (count, c)) :
    ∃ w behind, text.from? index = some (w ++ behind) ∧ w.length = count ∧ l.Tells w c := by
  cases l with
  | field f =>
    rw [readAt_field] at h
    rcases hr : f.specifier.readAt f.specifier.quantity.isSigned f.bounded text index with miss | r
    · rw [hr] at h
      cases h
    rw [hr] at h
    cases h
    obtain ⟨rest, hrest, hdigits, hvalue, hcount⟩ := Specifier.readAt_eq_ok h0 hr
    obtain ⟨hn, behind, hfront⟩ :=
      f.specifier.scan_spec f.specifier.quantity.isSigned f.bounded rest
    refine ⟨_, behind, by rw [hrest, hfront], ?_, _, hn, hdigits, rfl, by rw [hvalue]⟩
    rw [Numeral.length_spelledWith, hcount]
  | sign mark =>
    unfold readAt at h
    dsimp only at h
    rw [if_neg (by omega)] at h
    split at h
    · rename_i c' hsign
      cases h
      obtain ⟨rest, hrest, hsign⟩ := Option.bind_eq_some_iff.1 hsign
      obtain ⟨w, behind, rfl, hw, htells⟩ := tells_of_readSign? hsign
      exact ⟨w, behind, hrest, hw, htells⟩
    · cases h
  | literal t =>
    unfold readAt at h
    dsimp only at h
    split at h
    · rename_i rest hrest
      split at h
      · rename_i hfront
        cases h
        obtain ⟨behind, rfl⟩ := List.isPrefixOf_iff_prefix.1 hfront
        exact ⟨t, behind, hrest, rfl, rfl, rfl⟩
      · cases h
    · cases h

/-- What a leaf takes lies in the text. -/
theorem le_length_of_readAt {l : Leaf} (h0 : 0 ≤ index)
    (h : l.readAt text index = .ok (count, c)) : index + count ≤ text.length := by
  obtain ⟨w, behind, hrest, rfl, -⟩ := exists_tells_of_readAt h0 h
  obtain ⟨hle, hdrop⟩ := Text.eq_drop_of_from? h0 hrest
  have := congrArg List.length hdrop
  rw [List.length_append, List.length_drop] at this
  omega

/-- Numbers and signs cannot be looked for in front of a text; a literal can. -/
theorem readAt_eq_outside_iff {l : Leaf} : l.readAt text index = .error .outside ↔
    text.length + index < 0 ∧ ∀ t, l ≠ .literal t := by
  cases l with
  | field f =>
    rw [readAt_field]
    simp only [ne_eq, reduceCtorEq, not_false_eq_true, implies_true, and_true]
    rw [← Specifier.readAt_eq_outside_iff (s := f.specifier)]
    rcases f.specifier.readAt f.specifier.quantity.isSigned f.bounded text index with miss | r
    · simp [Except.map]
    · simp [Except.map]
  | sign mark =>
    unfold readAt
    dsimp only
    split
    · rename_i hout
      exact iff_of_true rfl ⟨hout, nofun⟩
    · rename_i hin
      refine iff_of_false ?_ fun h => hin h.1
      split <;> exact nofun
  | literal t =>
    refine iff_of_false ?_ fun h => h.2 t rfl
    unfold readAt
    dsimp only
    split
    · split <;> exact nofun
    · exact nofun

/-- What is read in front of a text says nothing. -/
theorem eq_nothing_of_readAt {l : Leaf} (hout : text.length + index < 0)
    (h : l.readAt text index = .ok (count, c)) : c = .nothing := by
  have hnot : ¬ (text.length + index < 0 ∧ ∀ t, l ≠ .literal t) := by
    rw [← readAt_eq_outside_iff, h]
    exact nofun
  obtain ⟨t, rfl⟩ : ∃ t, l = .literal t := by
    by_contra hl
    exact hnot ⟨hout, fun t ht => hl ⟨t, ht⟩⟩
  unfold readAt at h
  dsimp only at h
  split at h
  · split at h <;> cases h
    rfl
  · cases h

end Leaf

/-! ## Trees -/

/-- A step is taken, or stops, as the leaf is read at the cursor. -/
theorem step_cases (text : Text) (state : ReadState) (l : Leaf) :
    (∃ count c, l.readAt text state.cursor.index = .ok (count, c) ∧
      state.step text l = .ok ⟨state.cursor.advance count, state.draft.accept c⟩) ∨
    (l.readAt text state.cursor.index = .error .mismatch ∧ state.step text l =
      .error ⟨.mismatch, { state with cursor := state.cursor.fail l.cause }⟩) ∨
    (l.readAt text state.cursor.index = .error .outside ∧
      state.step text l = .error ⟨.outside, state⟩) := by
  unfold ReadState.step
  rcases l.readAt text state.cursor.index with (- | -) | ⟨count, c⟩
  · exact .inr (.inl ⟨rfl, rfl⟩)
  · exact .inr (.inr ⟨rfl, rfl⟩)
  · exact .inl ⟨count, c, rfl, rfl⟩

/-- What a reading may do to a state on its way: it goes on in the text, keeps the failure that was
recorded before, and takes something into the draft only from a text that it has reached. -/
structure Progress (text : Text) (state after : ReadState) : Prop where
  index_le : state.cursor.index ≤ after.cursor.index
  le_length : 0 ≤ state.cursor.index → state.cursor.index ≤ text.length →
    after.cursor.index ≤ text.length
  failure_eq : after.cursor.failure = state.cursor.failure
  draft_eq : text.length + after.cursor.index < 0 → after.draft = state.draft

namespace Progress

theorem refl (text : Text) (state : ReadState) : Progress text state state :=
  ⟨le_rfl, fun _ h => h, rfl, fun _ => rfl⟩

theorem trans {state middle after : ReadState} (h : Progress text state middle)
    (h' : Progress text middle after) : Progress text state after where
  index_le := h.index_le.trans h'.index_le
  le_length h0 hl := h'.le_length (h0.trans h.index_le) (h.le_length h0 hl)
  failure_eq := h'.failure_eq.trans h.failure_eq
  draft_eq hout := by
    have := h'.index_le
    rw [h'.draft_eq hout, h.draft_eq (by omega)]

end Progress

/-- What a reading from a state comes to. It goes on to its end; or it stops at a leaf that does not
match, with the failure recorded there; or it stops in front of the text. -/
inductive Outcome (text : Text) (state : ReadState) : Except Stop ReadState → Prop
  | read {after : ReadState} : Progress text state after → Outcome text state (.ok after)
  | mismatch {reached : ReadState} {l : Leaf} : Progress text state reached →
      l.readAt text reached.cursor.index = .error .mismatch →
      Outcome text state
        (.error ⟨.mismatch, { reached with cursor := reached.cursor.fail l.cause }⟩)
  | outside {stopped : ReadState} : Progress text state stopped →
      text.length + stopped.cursor.index < 0 →
      Outcome text state (.error ⟨.outside, stopped⟩)

namespace Outcome

theorem of_progress {state middle : ReadState} {r : Except Stop ReadState}
    (h : Progress text state middle) (hr : Outcome text middle r) : Outcome text state r := by
  cases hr with
  | read hp => exact .read (h.trans hp)
  | mismatch hp hl => exact .mismatch (h.trans hp) hl
  | outside hp hout => exact .outside (h.trans hp) hout

theorem step (text : Text) (state : ReadState) (l : Leaf) :
    Outcome text state (state.step text l) := by
  rcases step_cases text state l with ⟨count, c, h, hs⟩ | ⟨h, hs⟩ | ⟨h, hs⟩ <;> rw [hs]
  · refine .read ⟨?_, fun h0 _ => Leaf.le_length_of_readAt h0 h, rfl, fun hout => ?_⟩
    · simp [Cursor.advance]
    · have hfront : text.length + state.cursor.index < 0 := by
        simp only [Cursor.advance] at hout
        omega
      rw [Leaf.eq_nothing_of_readAt hfront h]
      rfl
  · exact .mismatch (.refl text state) h
  · exact .outside (.refl text state) (Leaf.readAt_eq_outside_iff.1 h).1

theorem cons {state : ReadState} {node : Node} {rest : List Node}
    (hn : Outcome text state (node.read text state))
    (hr : ∀ state, Outcome text state (readAll text state rest)) :
    Outcome text state (readAll text state (node :: rest)) := by
  rw [readAll]
  generalize node.read text state = r at hn ⊢
  cases hn with
  | read hp => exact (hr _).of_progress hp
  | mismatch hp hl => exact .mismatch hp hl
  | outside hp hout => exact .outside hp hout

/-- A group goes on where its body does not match. -/
theorem group {state : ReadState} {body : List Node}
    (hb : Outcome text state (readAll text state body)) :
    Outcome text state ((Node.group body).read text state) := by
  rw [Node.read]
  generalize readAll text state body = r at hb ⊢
  cases hb with
  | read hp => exact .read hp
  | mismatch => exact .read (.refl text state)
  | outside hp hout =>
    exact .outside ⟨hp.index_le, hp.le_length, hp.failure_eq, fun _ => rfl⟩ hout

/-- Every sequence comes to one of these, from every state. -/
theorem readAll (text : Text) (state : ReadState) (nodes : List Node) :
    Outcome text state (Node.readAll text state nodes) := by
  induction nodes using forest_induction generalizing state with
  | nil => exact .read (.refl text state)
  | leaf l rest ih => exact cons (by rw [Node.read]; exact step text state l) ih
  | group body rest ihb ih => exact cons (group (ihb state)) ih
  | sequence body rest ihb ih => exact cons (by rw [Node.read]; exact ihb state) ih

end Outcome

end GeoPattern
