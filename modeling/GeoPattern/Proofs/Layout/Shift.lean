/-
Reading behind a prefix. What stands in front of the cursor does not matter: with a text put in
front and the cursor moved behind it, every leaf reads the same, and every state that a reading
comes through is the same state moved by the length of that text. That holds from inside of the
text; a position below zero counts from its end, and would look into the prefix.
Main statements: `readAll_shift`, `parseAt_append`.
-/
import GeoPattern.Proofs.Layout.Splice
import GeoPattern.Proofs.Pattern.Assemble

namespace GeoPattern

/-! ## Moved positions -/

/-- The failure with its position moved. -/
def Failure.shift (k : ℤ) (failure : Failure) : Failure :=
  { failure with index := failure.index + k }

/-- The cursor with its position, and that of the failure recorded on it, moved. -/
def Cursor.shift (k : ℤ) (cursor : Cursor) : Cursor :=
  ⟨cursor.index + k, cursor.failure.map (Failure.shift k)⟩

/-- The state with its cursor moved; what has been read of the location stays. -/
def ReadState.shift (k : ℤ) (state : ReadState) : ReadState :=
  { state with cursor := state.cursor.shift k }

def Stop.shift (k : ℤ) (stop : Stop) : Stop := { stop with state := stop.state.shift k }

/-- What a reading comes to, moved. -/
def ReadState.shiftResult (k : ℤ) : Except Stop ReadState → Except Stop ReadState
  | .ok after => .ok (after.shift k)
  | .error stop => .error (stop.shift k)

open ReadState (shiftResult)

theorem Cursor.shift_index (k : ℤ) (cursor : Cursor) :
    (cursor.shift k).index = cursor.index + k := rfl

theorem ReadState.shift_cursor (k : ℤ) (state : ReadState) :
    (state.shift k).cursor = state.cursor.shift k := rfl

theorem Cursor.shift_advance (k : ℤ) (cursor : Cursor) (count : ℤ) :
    (cursor.advance count).shift k = (cursor.shift k).advance count := by
  simp only [shift, advance, Cursor.mk.injEq, and_true]
  omega

theorem Cursor.shift_start (k i : ℤ) : (Cursor.start i).shift k = .start (i + k) := rfl

/-! ## Leaves -/

variable {t : Text} {index : ℤ} (u : Text)

theorem Text.from?_natCast (t : Text) (n : ℕ) :
    t.from? n = if t.length < n then none else some (t.drop n) := by
  unfold from?
  rw [if_neg (by omega), Int.toNat_natCast]
  simp only [Nat.cast_lt]

theorem Text.from?_shift (h0 : 0 ≤ index) :
    (u ++ t).from? (index + u.length) = t.from? index := by
  obtain ⟨n, rfl⟩ := Int.eq_ofNat_of_zero_le h0
  have hdrop : (u ++ t).drop (n + u.length) = t.drop n := by
    rw [add_comm n, List.drop_append, List.drop_eq_nil_of_le (by omega), Nat.add_sub_cancel_left,
      List.nil_append]
  rw [← Nat.cast_add, from?_natCast, from?_natCast, hdrop, List.length_append]
  congr 1
  exact propext (by omega)

theorem Specifier.readAt_shift (s : Specifier) (signed bounded : Bool) (h0 : 0 ≤ index) :
    s.readAt signed bounded (u ++ t) (index + u.length) = s.readAt signed bounded t index := by
  unfold readAt
  rw [if_neg (by omega), if_neg (by omega), Text.from?_shift u h0]

/-- A leaf reads the same behind a prefix. -/
theorem Leaf.readAt_shift (l : Leaf) (h0 : 0 ≤ index) :
    l.readAt (u ++ t) (index + u.length) = l.readAt t index := by
  cases l with
  | field f => rw [readAt_field, readAt_field, f.specifier.readAt_shift u _ _ h0]
  | sign mark =>
    unfold readAt
    dsimp only
    rw [if_neg (by omega), if_neg (by omega), Text.from?_shift u h0]
  | literal w =>
    unfold readAt
    dsimp only
    rw [Text.from?_shift u h0]

/-- A step behind a prefix is the same step, moved; a failure is recorded at the moved cursor. -/
theorem ReadState.step_shift {state : ReadState} (l : Leaf) (h0 : 0 ≤ state.cursor.index) :
    (state.shift u.length).step (u ++ t) l = shiftResult u.length (state.step t l) := by
  have hread := l.readAt_shift (t := t) u h0
  rcases step_cases t state l with ⟨count, c, h, hs⟩ | ⟨h, hs⟩ | ⟨h, hs⟩ <;>
    rw [hs, step, shift_cursor, Cursor.shift_index, hread, h]
  · simp only [shiftResult, shift, Cursor.shift_advance]
  · rfl
  · rfl

/-! ## Trees -/

namespace Node

variable {state : ReadState} {node : Node} {rest body : List Node}

theorem index_le_of_read {after : ReadState} (h : node.read t state = .ok after) :
    state.cursor.index ≤ after.cursor.index := by
  have houtcome := Outcome.readAll t state [node]
  rw [readAll_cons, h] at houtcome
  cases houtcome with
  | read hp => exact hp.index_le

/-- Only moving on matters between the nodes: a reading that starts in the text stays in it. -/
theorem readAll_shift_cons (h0 : 0 ≤ state.cursor.index)
    (hn : node.read (u ++ t) (state.shift u.length) = shiftResult u.length (node.read t state))
    (hr : ∀ {state : ReadState}, 0 ≤ state.cursor.index →
      readAll (u ++ t) (state.shift u.length) rest =
        shiftResult u.length (readAll t state rest)) :
    readAll (u ++ t) (state.shift u.length) (node :: rest) =
      shiftResult u.length (readAll t state (node :: rest)) := by
  rw [readAll_cons, readAll_cons, hn]
  rcases h : node.read t state with stop | after
  · rfl
  · exact hr (h0.trans (index_le_of_read h))

/-- A group that is rolled back gives back the moved state in front of it. -/
theorem read_shift_group
    (hb : readAll (u ++ t) (state.shift u.length) body =
      shiftResult u.length (readAll t state body)) :
    (Node.group body).read (u ++ t) (state.shift u.length) =
      shiftResult u.length ((Node.group body).read t state) := by
  rw [read, read, hb]
  rcases readAll t state body with ⟨- | -, stopped⟩ | after <;> rfl

/-- A reading behind a prefix is the same reading, moved. -/
theorem readAll_shift (t : Text) (state : ReadState) (nodes : List Node)
    (h0 : 0 ≤ state.cursor.index) :
    readAll (u ++ t) (state.shift u.length) nodes =
      shiftResult u.length (readAll t state nodes) := by
  induction nodes using forest_induction generalizing state with
  | nil => rfl
  | leaf l rest ih =>
    refine readAll_shift_cons u h0 ?_ (ih _)
    rw [read, read]
    exact state.step_shift u l h0
  | group body rest ihb ih =>
    exact readAll_shift_cons u h0 (read_shift_group u (ihb state h0)) (ih _)
  | sequence body rest ihb ih =>
    refine readAll_shift_cons u h0 ?_ (ih _)
    rw [read, read]
    exact ihb state h0

end Node

/-! ## Formatters -/

/-- From inside of a text, a reading comes to its end in the text, or stops in the text at what it
records as not found. -/
theorem Node.readAll_start {t : Text} {i : ℕ} (hi : i ≤ t.length) (nodes : List Node) :
    (∃ draft, ∃ j : ℕ, i ≤ j ∧ j ≤ t.length ∧
      readAll t ⟨.start i, .empty⟩ nodes = .ok ⟨.start j, draft⟩) ∨
    (∃ cause draft, ∃ j : ℕ, i ≤ j ∧ j ≤ t.length ∧ readAll t ⟨.start i, .empty⟩ nodes =
      .error ⟨.mismatch, ⟨⟨j, some ⟨j, cause⟩⟩, draft⟩⟩) := by
  have hreached {reached : ReadState} (hp : Progress t ⟨.start i, .empty⟩ reached) :
      ∃ draft, ∃ j : ℕ, i ≤ j ∧ j ≤ t.length ∧ reached = ⟨.start j, draft⟩ := by
    obtain ⟨⟨index, failure⟩, draft⟩ := reached
    obtain ⟨hle, hlength, rfl, -⟩ := hp
    simp only [Cursor.start] at hle hlength
    obtain ⟨j, rfl⟩ := Int.eq_ofNat_of_zero_le ((Int.natCast_nonneg i).trans hle)
    exact ⟨draft, j, by omega, by omega, rfl⟩
  have houtcome := Outcome.readAll t ⟨.start i, .empty⟩ nodes
  generalize readAll t ⟨.start i, .empty⟩ nodes = r at houtcome ⊢
  cases houtcome with
  | read hp =>
    obtain ⟨draft, j, hij, hj, rfl⟩ := hreached hp
    exact .inl ⟨draft, j, hij, hj, rfl⟩
  | @mismatch _ l hp hl =>
    obtain ⟨draft, j, hij, hj, rfl⟩ := hreached hp
    exact .inr ⟨l.cause, draft, j, hij, hj, rfl⟩
  | outside hp hout =>
    obtain ⟨_, j, hij, hj, rfl⟩ := hreached hp
    simp only [Cursor.start] at hout
    omega

/-- What stands in front of the cursor does not matter for reading a location: from a position of a
text, with or without a prefix in front of it, either the same location is read, or the same is not
found. The cursor ends, and the failure is recorded and reported, at positions that differ by just
the length of the prefix. -/
theorem parseAt_append (f : Formatter) (u t : Text) {i : ℕ} (hi : i ≤ t.length) :
    (∃ location, ∃ j : ℕ, i ≤ j ∧ j ≤ t.length ∧
      f.parseAt t (.start i) = (.ok location, .start j) ∧
      f.parseAt (u ++ t) (.start (u.length + i : ℕ)) =
        (.ok location, .start (u.length + j : ℕ))) ∨
    (∃ cause, ∃ j : ℕ, i ≤ j ∧ j ≤ t.length ∧
      f.parseAt t (.start i) = (.error (.mismatch ⟨j, cause⟩ t), ⟨j, some ⟨j, cause⟩⟩) ∧
      f.parseAt (u ++ t) (.start (u.length + i : ℕ)) =
        (.error (.mismatch ⟨(u.length + j : ℕ), cause⟩ (u ++ t)),
          ⟨(u.length + j : ℕ), some ⟨(u.length + j : ℕ), cause⟩⟩)) := by
  have hmoved (n : ℕ) : Cursor.start (u.length + n : ℕ) = (Cursor.start n).shift u.length := by
    rw [Cursor.shift_start, add_comm u.length, Nat.cast_add]
  have hshift : Node.readAll (u ++ t) ⟨.start (u.length + i : ℕ), .empty⟩ f.body =
      shiftResult u.length (Node.readAll t ⟨.start i, .empty⟩ f.body) := by
    rw [hmoved]
    exact Node.readAll_shift u t ⟨.start i, .empty⟩ f.body (Int.natCast_nonneg i)
  -- both positions lie in their texts
  have hin : ¬ ((Cursor.start i).index < 0 ∨ t.length < (Cursor.start i).index) := by
    simp only [Cursor.start]
    omega
  have hin' : ¬ ((Cursor.start (u.length + i : ℕ)).index < 0 ∨
      (u ++ t).length < (Cursor.start (u.length + i : ℕ)).index) := by
    simp only [Cursor.start, List.length_append]
    omega
  unfold Formatter.parseAt
  rw [if_neg hin, if_neg hin', hshift]
  rcases Node.readAll_start hi f.body with ⟨draft, j, hij, hj, hr⟩ | ⟨cause, draft, j, hij, hj, hr⟩
  · refine .inl ⟨draft.build, j, hij, hj, by rw [hr], ?_⟩
    rw [hr, hmoved]
    rfl
  · refine .inr ⟨cause, j, hij, hj, by rw [hr]; rfl, ?_⟩
    rw [hr, add_comm u.length, Nat.cast_add]
    rfl

/-- Digits in front of the cursor are not read, and the group without minutes is rolled back: behind
a prefix of three characters the mark is missed three characters later. -/
theorem parseAt_append_digits :
    ∃ f, Formatter.ofPattern (Text.lit "DD[ MM]X") = .ok f ∧
      1 ≤ (Text.lit "012 S").length ∧
      f.parseAt (Text.lit "012 S") (.start (1 : ℕ)) =
        (.error (.mismatch ⟨3, .sign (.hemisphere .northSouth)⟩ (Text.lit "012 S")),
          ⟨3, some ⟨3, .sign (.hemisphere .northSouth)⟩⟩) ∧
      f.parseAt (Text.lit "4-7" ++ Text.lit "012 S")
          (.start ((Text.lit "4-7").length + 1 : ℕ)) =
        (.error (.mismatch ⟨6, .sign (.hemisphere .northSouth)⟩
            (Text.lit "4-7" ++ Text.lit "012 S")),
          ⟨6, some ⟨6, .sign (.hemisphere .northSouth)⟩⟩) := by
  obtain ⟨f, hf, hcursor⟩ : ∃ f, Formatter.ofPattern (Text.lit "DD[ MM]X") = .ok f ∧
      (f.parseAt (Text.lit "012 S") (.start (1 : ℕ))).2 =
        ⟨3, some ⟨3, .sign (.hemisphere .northSouth)⟩⟩ := by
    decide +kernel
  have hi : 1 ≤ (Text.lit "012 S").length := by decide
  rcases parseAt_append f (Text.lit "4-7") (Text.lit "012 S") hi with
    ⟨_, _, -, -, h, -⟩ | ⟨cause, j, -, -, h, h'⟩
  · rw [h] at hcursor
    cases hcursor
  · rw [h] at hcursor
    simp only [Cursor.mk.injEq, Option.some.injEq, Failure.mk.injEq] at hcursor
    obtain ⟨hj, -, rfl⟩ := hcursor
    obtain rfl : j = 3 := by omega
    exact ⟨f, hf, hi, h, h'⟩

end GeoPattern
