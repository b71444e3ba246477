/-
What reading from a cursor reports. A call gives a location, or refuses a position that does not lie
in the text, or blames the leaf outside of all groups at which it stopped. Whatever failures earlier
calls and groups on the way have recorded, the failure of a call is its own, and the cursor never
leaves the text.
Main statement: `session_reports`.
-/
import GeoPattern.Proofs.Layout.Delimited
import GeoPattern.Proofs.Layout.Splice

namespace GeoPattern

open Node

variable {text : Text} {state : ReadState} {nodes : List Node}

/-! ## The leaf to blame -/

/-- A reading stops at a leaf of the sequence itself: the nodes in front of it are read, and its
failure is recorded. -/
def StopsAtLeaf (text : Text) (state : ReadState) (nodes : List Node) (stopped : ReadState) :
    Prop :=
  ∃ front l behind reached, nodes = front ++ .leaf l :: behind ∧
    readAll text state front = .ok reached ∧
    l.readAt text reached.cursor.index = .error .mismatch ∧
    stopped = { reached with cursor := reached.cursor.fail l.cause }

theorem StopsAtLeaf.cons {middle stopped : ReadState} {node : Node} {rest : List Node}
    (hn : node.read text state = .ok middle) (h : StopsAtLeaf text middle rest stopped) :
    StopsAtLeaf text state (node :: rest) stopped := by
  obtain ⟨front, l, behind, reached, rfl, hf, hl⟩ := h
  refine ⟨node :: front, l, behind, reached, rfl, ?_, hl⟩
  rw [readAll_cons, hn]
  exact hf

/-- Where sequences are nested as bodies of groups only, a mismatch is that of a leaf in none. -/
theorem stopsAtLeaf_of_mismatch (hb : Bracketed nodes) {stopped : ReadState}
    (h : readAll text state nodes = .error ⟨.mismatch, stopped⟩) :
    StopsAtLeaf text state nodes stopped := by
  induction hb generalizing state with
  | nil => cases h
  | @leaf l rest _ ih =>
    rw [readAll_cons, Node.read] at h
    rcases step_cases text state l with ⟨count, c, -, hs⟩ | ⟨hl, hs⟩ | ⟨-, hs⟩ <;> rw [hs] at h
    · exact (ih h).cons hs
    · cases h
      exact ⟨[], l, rest, state, rfl, rfl, hl, rfl⟩
    · cases h
  | @group body rest _ _ _ ih =>
    rw [readAll_cons] at h
    rcases hn : (Node.group body).read text state with stop | middle
    · rw [hn] at h
      cases h
      cases (read_group_eq_error hn).1
    · rw [hn] at h
      exact (ih h).cons hn

/-- A failure is that of a leaf outside of all groups, at which the formatter arrives from the
cursor. -/
def Formatter.Blames (f : Formatter) (text : Text) (cursor : Cursor) (failure : Failure) : Prop :=
  ∃ front l behind reached, f.body = front ++ .leaf l :: behind ∧
    readAll text ⟨cursor, .empty⟩ front = .ok reached ∧ reached.cursor.index = failure.index ∧
    l.readAt text failure.index = .error .mismatch ∧ failure.cause = l.cause

/-! ## Calls -/

/-- A call of a formatter on a text, with the cursor that it finds, what it gives, and the cursor
that it leaves. -/
structure Call where
  formatter : Formatter
  text : Text
  before : Cursor
  result : Except ReadError Location
  after : Cursor

/-- The call that reads from a cursor. -/
def Formatter.call (f : Formatter) (text : Text) (cursor : Cursor) : Call :=
  ⟨f, text, cursor, (f.parseAt text cursor).1, (f.parseAt text cursor).2⟩

/-- What a call may report. -/
structure Call.Reports (call : Call) : Prop where
  /-- A position that does not lie in the text is refused, and the cursor is left as it is. -/
  outside : call.before.index < 0 ∨ call.text.length < call.before.index →
    call.result = .error (.outside call.before.index call.text) ∧ call.after = call.before
  /-- From a position in the text, a location is read up to a position in the text, and what was
  recorded before stays; or the failure of a leaf is recorded where the cursor stops. -/
  inside : 0 ≤ call.before.index → call.before.index ≤ call.text.length →
    (∃ location, call.result = .ok location ∧ call.before.index ≤ call.after.index ∧
      call.after.index ≤ call.text.length ∧ call.after.failure = call.before.failure) ∨
    ∃ failure, call.result = .error (.mismatch failure call.text) ∧
      call.after = ⟨failure.index, some failure⟩ ∧ call.before.index ≤ failure.index ∧
      failure.index ≤ call.text.length ∧
      call.formatter.Blames call.text call.before failure

/-- Every call of a formatter that was compiled keeps to the report. -/
theorem reports_call {pattern : Text} {f : Formatter} (hf : Formatter.ofPattern pattern = .ok f)
    (text : Text) (cursor : Cursor) :
    (f.call text cursor).Reports := by
  have hb : Bracketed f.body := (bracketed_of_compile (ofPattern_eq_ok_iff.1 hf).1).1
  unfold Formatter.call Formatter.parseAt
  constructor
  · intro hout
    dsimp only at hout
    rw [if_pos hout]
    exact ⟨rfl, rfl⟩
  · intro h0 hle
    dsimp only at h0 hle
    rw [if_neg (by omega)]
    have houtcome := Outcome.readAll text ⟨cursor, .empty⟩ f.body
    rcases h : readAll text ⟨cursor, .empty⟩ f.body with ⟨- | -, stopped⟩ | after
    · obtain ⟨front, l, behind, reached, hbody, hfront, hl, rfl⟩ := stopsAtLeaf_of_mismatch hb h
      have hp : Progress text ⟨cursor, .empty⟩ reached := by
        have := Outcome.readAll text ⟨cursor, .empty⟩ front
        rw [hfront] at this
        cases this
        assumption
      exact .inr ⟨⟨reached.cursor.index, l.cause⟩, rfl, rfl, hp.index_le, hp.le_length h0 hle,
        front, l, behind, reached, hbody, hfront, rfl, hl, rfl⟩
    · -- a position in the text stays there
      rw [h] at houtcome
      cases houtcome with
      | outside hp hout =>
        have := hp.index_le
        dsimp only at this
        omega
    · rw [h] at houtcome
      cases houtcome with
      | read hp => exact .inl ⟨_, rfl, hp.index_le, hp.le_length h0 hle, hp.failure_eq⟩

/-- A text that is not parsed does not match the pattern. -/
theorem Formatter.isExpected_of_parse {pattern : Text} {f : Formatter}
    (hf : Formatter.ofPattern pattern = .ok f) {e : ReadError} (h : f.parse text = .error e) :
    e.isExpected = true := by
  have hinside := (reports_call hf text (.start 0)).inside
  have hstart : (0 : ℤ) ≤ (f.call text (.start 0)).before.index ∧
      (f.call text (.start 0)).before.index ≤ (f.call text (.start 0)).text.length := by
    simp [Formatter.call, Cursor.start]
  unfold Formatter.parse at h
  rcases hp : f.parseAt text (.start 0) with ⟨e' | location, cursor⟩
  · rw [hp] at h
    cases h
    have hresult : (f.call text (.start 0)).result = .error e := by rw [Formatter.call, hp]
    rcases hinside hstart.1 hstart.2 with ⟨location, hr, -⟩ | ⟨failure, hr, -⟩
    · rw [hresult] at hr
      cases hr
    · rw [hresult] at hr
      cases hr
      rfl
  · rw [hp] at h
    dsimp only at h
    split at h
    · cases h
    · cases h
      rfl

/-! ## Sessions -/

/-- Calls on one cursor, one after the other, of any formatters that were compiled, on any texts.
Between the calls, the cursor may be put anywhere. -/
inductive Session : Cursor → List Call → Cursor → Prop
  | done {cursor : Cursor} : Session cursor [] cursor
  | move {cursor last : Cursor} {calls : List Call} (index : ℤ) :
      Session { cursor with index } calls last → Session cursor calls last
  | call {last : Cursor} {calls : List Call} {pattern : Text} {f : Formatter} (text : Text)
      (cursor : Cursor) : Formatter.ofPattern pattern = .ok f →
      Session (f.call text cursor).after calls last →
      Session cursor (f.call text cursor :: calls) last

/-- What a cursor has recorded after a call: the failure of the call if there is one. -/
def Call.record (recorded : Option Failure) (call : Call) : Option Failure :=
  match call.result with
  | .error (.mismatch failure _) => some failure
  | .error (.outside ..) | .ok _ => recorded

theorem Call.Reports.failure_after {call : Call} (h : call.Reports) :
    call.after.failure = call.record call.before.failure := by
  unfold record
  by_cases hout : call.before.index < 0 ∨ call.text.length < call.before.index
  · obtain ⟨hr, ha⟩ := h.outside hout
    rw [hr, ha]
  · rcases h.inside (by omega) (by omega) with ⟨location, hr, -, -, hf⟩ | ⟨failure, hr, ha, -⟩
    · rw [hr, hf]
    · rw [hr, ha]

/-- In a session every call keeps to its report, whatever the calls before it have left in the
cursor; and in the end the cursor holds the failure of the last call that had one. -/
theorem session_reports {first last : Cursor} {calls : List Call} (h : Session first calls last) :
    (∀ call ∈ calls, call.Reports) ∧ last.failure = calls.foldl Call.record first.failure := by
  induction h with
  | done => exact ⟨by simp, rfl⟩
  | move index _ ih => exact ih
  | call text cursor hf _ ih =>
    have hr := reports_call hf text cursor
    refine ⟨fun call hcall => ?_, ?_⟩
    · rcases List.mem_cons.1 hcall with rfl | hcall
      · exact hr
      · exact ih.1 call hcall
    · rw [ih.2, List.foldl_cons, hr.failure_after]
      rfl

/-- A failure outlives a call that reads on with the same cursor; what a group has recorded in
either call does not. -/
theorem session_reports_twice : ∃ f, Formatter.ofPattern (Text.lit "D[ M]X") = .ok f ∧
    let first := f.call (Text.lit "12?") (.start 0)
    let second := f.call (Text.lit "1 7 30S") first.after
    (∀ call ∈ [first, second], call.Reports) ∧
      second.after.failure = [first, second].foldl Call.record none ∧
      second.after = ⟨7, some ⟨2, .sign (.hemisphere .northSouth)⟩⟩ := by
  obtain ⟨f, hf, ha⟩ : ∃ f, Formatter.ofPattern (Text.lit "D[ M]X") = .ok f ∧
      (f.call (Text.lit "1 7 30S") (f.call (Text.lit "12?") (.start 0)).after).after
        = ⟨7, some ⟨2, .sign (.hemisphere .northSouth)⟩⟩ := by
    decide +kernel
  have h := session_reports
    (.call (Text.lit "12?") (.start 0) hf (.call (Text.lit "1 7 30S") _ hf .done))
  exact ⟨f, hf, h.1, h.2, ha⟩

end GeoPattern
