/-
Reading without groups. A tree reads as the plain sequence of its leaves in which a group that
matches where it is reached is replaced by what it reads, and a group that does not match is left
out: the result, the cursor and the draft are the same. So a group never makes a reading fail, and
one that does not match leaves no trace.
Main statement: `readAll_spliced`.
-/
import GeoPattern.Proofs.Layout.Progress

namespace GeoPattern

namespace Node

variable {text : Text} {state : ReadState} {node : Node} {rest : List Node}

/-! ## Leaves without groups -/

mutual

/-- The leaves that a node is read with from a state on, in place of its groups. -/
def spliced (text : Text) (state : ReadState) : Node → List Leaf
  | .leaf l => [l]
  | .sequence body => splicedAll text state body
  | .group body =>
    match readAll text state body with
    | .error ⟨.mismatch, _⟩ => []
    | .ok _ | .error ⟨.outside, _⟩ => splicedAll text state body

/-- The leaves that a sequence is read with, up to the node at which its reading stops. -/
def splicedAll (text : Text) (state : ReadState) : List Node → List Leaf
  | [] => []
  | node :: rest =>
    spliced text state node ++
      match read text state node with
      | .ok after => splicedAll text after rest
      | .error _ => []

end

/-- What is read stands in the tree, in the same order. -/
theorem splicedAll_sublist (text : Text) (state : ReadState) (nodes : List Node) :
    (splicedAll text state nodes).Sublist (leavesOf nodes) := by
  have hcons {state : ReadState} {node : Node} {rest : List Node}
      (hn : (spliced text state node).Sublist node.leaves)
      (hr : ∀ state, (splicedAll text state rest).Sublist (leavesOf rest)) :
      (splicedAll text state (node :: rest)).Sublist (leavesOf (node :: rest)) := by
    rw [splicedAll, leavesOf]
    refine hn.append ?_
    split
    · exact hr _
    · exact List.nil_sublist _
  induction nodes using forest_induction generalizing state with
  | nil => exact List.Sublist.refl _
  | leaf l rest ih => exact hcons (List.Sublist.refl _) ih
  | group body rest ihb ih =>
    refine hcons ?_ ih
    rw [spliced, leaves]
    split
    · exact List.nil_sublist _
    · exact ihb state
    · exact ihb state
  | sequence body rest ihb ih => exact hcons (ihb state) ih

/-! ## Reading them -/

theorem readAll_cons : readAll text state (node :: rest) =
    (node.read text state).bind fun after => readAll text after rest := by
  rw [readAll]
  rcases node.read text state with stop | after <;> rfl

theorem readAll_append (a b : List Node) : readAll text state (a ++ b) =
    (readAll text state a).bind fun after => readAll text after b := by
  induction a generalizing state with
  | nil => rfl
  | cons node rest ih =>
    rw [List.cons_append, readAll_cons, readAll_cons]
    rcases node.read text state with stop | after
    · rfl
    · exact ih

/-- A sequence reads as its leaves without groups if its first node does, and what stands behind it
does from wherever that is reached. -/
theorem readAll_splicedAll_cons
    (hn : readAll text state ((spliced text state node).map .leaf) = node.read text state)
    (hr : ∀ state, readAll text state ((splicedAll text state rest).map .leaf) =
      readAll text state rest) :
    readAll text state ((splicedAll text state (node :: rest)).map .leaf) =
      readAll text state (node :: rest) := by
  rw [splicedAll, List.map_append, readAll_append, hn, readAll_cons]
  rcases node.read text state with stop | after
  · rfl
  · exact hr after

/-- A group reads as the leaves that stand for it, if its body does. -/
theorem readAll_spliced_group {body : List Node}
    (hb : readAll text state ((splicedAll text state body).map .leaf) =
      readAll text state body) :
    readAll text state ((spliced text state (.group body)).map .leaf) =
      (Node.group body).read text state := by
  have houtcome := Outcome.readAll text state body
  rw [spliced, read]
  rcases h : readAll text state body with ⟨- | -, stopped⟩ | after
  · rfl
  · -- in front of the text, nothing has been read that could be dropped
    rw [h] at houtcome
    cases houtcome with
    | outside hp hout =>
      dsimp only
      rw [hb, h, ← hp.draft_eq hout]
  · dsimp only
    rw [hb, h]

theorem readAll_map_splicedAll (text : Text) (state : ReadState) (nodes : List Node) :
    readAll text state ((splicedAll text state nodes).map .leaf) = readAll text state nodes := by
  induction nodes using forest_induction generalizing state with
  | nil => rfl
  | leaf l rest ih =>
    refine readAll_splicedAll_cons ?_ ih
    rw [spliced, List.map_cons, List.map_nil, readAll_cons]
    rcases (Node.leaf l).read text state with stop | after <;> rfl
  | group body rest ihb ih => exact readAll_splicedAll_cons (readAll_spliced_group (ihb state)) ih
  | sequence body rest ihb ih =>
    refine readAll_splicedAll_cons ?_ ih
    rw [spliced, read]
    exact ihb state

/-- A group stops a reading only in front of the text, just as its body alone does. -/
theorem read_group_eq_error {body : List Node} {stop : Stop}
    (h : (Node.group body).read text state = .error stop) :
    stop.miss = .outside ∧ text.length + state.cursor.index < 0 ∧
      readAll text state body = .error stop := by
  have houtcome := Outcome.readAll text state body
  rw [read] at h
  generalize readAll text state body = r at h houtcome ⊢
  cases houtcome with
  | read hp => cases h
  | mismatch hp hl => cases h
  | outside hp hout =>
    cases h
    have := hp.index_le
    exact ⟨rfl, by omega, by rw [← hp.draft_eq hout]⟩

/-- A tree reads as its leaves without groups, from every state to the same result and the same
state, also with anything behind where it stops. A group that does not match gives back the state in
front of it, and a group that is reached in the text, or from its end, never makes the reading
fail. -/
theorem readAll_spliced (text : Text) (state : ReadState) (nodes : List Node) :
    (splicedAll text state nodes).Sublist (leavesOf nodes) ∧
    readAll text state ((splicedAll text state nodes).map .leaf) = readAll text state nodes ∧
    (∀ stop more, readAll text state nodes = .error stop →
      readAll text state ((splicedAll text state nodes).map .leaf ++ more) = .error stop) ∧
    ∀ body,
      (∀ stopped, readAll text state body = .error ⟨.mismatch, stopped⟩ →
        (Node.group body).read text state = .ok state) ∧
      (∀ stop, (Node.group body).read text state = .error stop →
        stop.miss = .outside ∧ readAll text state body = .error stop) ∧
      (0 ≤ text.length + state.cursor.index →
        ∃ after, (Node.group body).read text state = .ok after) := by
  refine ⟨splicedAll_sublist text state nodes, readAll_map_splicedAll text state nodes,
    fun stop more h => ?_, fun body => ⟨?_, ?_, ?_⟩⟩
  · rw [readAll_append, readAll_map_splicedAll, h]
    rfl
  · intro stopped h
    rw [read, h]
  · intro stop h
    exact ⟨(read_group_eq_error h).1, (read_group_eq_error h).2.2⟩
  · intro hin
    rcases h : (Node.group body).read text state with stop | after
    · have := (read_group_eq_error h).2.1
      omega
    · exact ⟨after, rfl⟩

end Node

end GeoPattern
