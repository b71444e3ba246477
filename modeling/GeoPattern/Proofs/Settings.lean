/-
Settings and the environment. A dotted key leads through the objects of the settings, one step for
each of its parts, and the default stands in where a step is not possible. A variable of the
environment writes one key of one section, so that this key has the value of the variable, and any
key that leads neither to the place nor through it keeps its value.
Main statement: `override_spec`.
-/
import GeoPattern.Settings

namespace GeoPattern

namespace Json

/-! ## Members -/

theorem lookup?_put_self (key : Text) (value : Json) (members : List (Text × Json)) :
    lookup? key (put key value members) = some value := by
  induction members with
  | nil => rw [put, lookup?, if_pos rfl]
  | cons member rest ih =>
    obtain ⟨k, old⟩ := member
    rw [put]
    split
    · rename_i hk
      rw [lookup?, if_pos hk]
    · rename_i hk
      rw [lookup?, if_neg hk, ih]

theorem lookup?_put_of_ne {key other : Text} (h : other ≠ key) (value : Json)
    (members : List (Text × Json)) :
    lookup? other (put key value members) = lookup? other members := by
  induction members with
  | nil => exact if_neg h.symm
  | cons member rest ih =>
    obtain ⟨k, old⟩ := member
    rw [put]
    split
    · rename_i hk
      rw [lookup?, lookup?, if_neg (hk ▸ h.symm), if_neg (hk ▸ h.symm)]
    · rw [lookup?, lookup?, ih]

/-! ## Paths -/

/-- One step of a path: from an object to the value of one of its keys, unless that is null. -/
inductive Step : Json → Text → Json → Prop
  | member {members : List (Text × Json)} {key : Text} {value : Json} :
      lookup? key members = some value → value ≠ .null → Step (.object members) key value

/-- A path of keys leads from one value to another. -/
inductive Leads : Json → List Text → Json → Prop
  | here {value : Json} : Leads value [] value
  | step {value next last : Json} {key : Text} {path : List Text} :
      Step value key next → Leads next path last → Leads value (key :: path) last

/-- There is no step: the value is no object, or the key is missing in it or null. -/
inductive Stops : Json → Text → Prop
  | notObject {value : Json} {key : Text} : (∀ members, value ≠ .object members) → Stops value key
  | missing {members : List (Text × Json)} {key : Text} :
      lookup? key members = none → Stops (.object members) key
  | null {members : List (Text × Json)} {key : Text} :
      lookup? key members = some .null → Stops (.object members) key

/-- A path is blocked if some step of it is not possible. -/
def Blocked (root : Json) (path : List Text) : Prop :=
  ∃ front key rest value, path = front ++ key :: rest ∧ Leads root front value ∧ Stops value key

section Paths

variable {root value next : Json} {key : Text} {path rest : List Text}

theorem get?_of_step (h : Step value key next) (rest : List Text) :
    value.get? (key :: rest) = next.get? rest := by
  obtain ⟨hl, hn⟩ := h
  simp only [get?, hl]

theorem get?_of_stops (h : Stops value key) (rest : List Text) :
    value.get? (key :: rest) = none := by
  cases h with
  | notObject h =>
    cases value with
    | object members => exact absurd rfl (h members)
    | _ => rfl
  | missing h => simp only [get?, h]
  | null h => simp only [get?, h]

theorem step_or_stops (value : Json) (key : Text) : (∃ next, Step value key next) ∨
    Stops value key := by
  cases value with
  | object members =>
    rcases hl : lookup? key members with - | next
    · exact .inr (.missing hl)
    · by_cases hn : next = .null
      · exact .inr (.null (hn ▸ hl))
      · exact .inl ⟨next, .member hl hn⟩
  | _ => exact .inr (.notObject nofun)

/-- There is no value under a path exactly if it is blocked. -/
theorem get?_eq_none_iff : root.get? path = none ↔ Blocked root path := by
  constructor
  · intro h
    induction path generalizing root with
    | nil => cases h
    | cons key rest ih =>
      rcases step_or_stops root key with ⟨next, hstep⟩ | hstops
      · rw [get?_of_step hstep] at h
        obtain ⟨front, k, behind, value, rfl, hlead, hstops⟩ := ih h
        exact ⟨key :: front, k, behind, value, rfl, .step hstep hlead, hstops⟩
      · exact ⟨[], key, rest, root, rfl, .here, hstops⟩
  · rintro ⟨front, key, rest, value, rfl, hlead, hstops⟩
    induction hlead with
    | here => exact get?_of_stops hstops rest
    | step hstep _ ih => rw [List.cons_append, get?_of_step hstep, ih hstops]

end Paths

end Json

namespace Settings

open Json

/-- A value for a key of a section. -/
structure Assignment where
  part : Text
  key : Text
  value : Text

namespace Assignment

/-- The dotted key. -/
def dotted (a : Assignment) : Text := a.part ++ .char '.' :: a.key

def path (a : Assignment) : List Text := [a.part, a.key]

/-- Carries the assignment out. -/
def set (a : Assignment) (root : Json) : Except SettingsError Json :=
  setIn root a.part a.key a.value

end Assignment

/-- What a variable assigns, if it is set. -/
def assigned (part key : Text) (setting : Option Text) : List Assignment :=
  match Environment.nonEmpty setting with
  | some value => [⟨part, key, value⟩]
  | none => []

/-- What the environment assigns: the pattern, the level of the log and the file of the log. -/
def overrides (env : Environment) : List Assignment :=
  assigned sectionOfPattern keyOfPattern env.pattern ++
    (assigned sectionOfLog keyOfLevel env.logLevel ++
      assigned sectionOfLog keyOfLogFile env.logFile)

/-- A section can be written to if it is missing or an object. -/
def Writable (members : List (Text × Json)) (part : Text) : Prop :=
  lookup? part members = none ∨ ∃ inner, lookup? part members = some (.object inner)

/-- Neither of two paths leads through the place of the other. -/
def Apart (a b : List Text) : Prop := ¬ a <+: b ∧ ¬ b <+: a

theorem overrideOne_eq (part key : Text) (setting : Option Text) (root : Json) :
    overrideOne part key setting root =
      (assigned part key setting).foldlM (fun root a => a.set root) root := by
  unfold overrideOne assigned
  rcases Environment.nonEmpty setting with - | value
  · rfl
  · exact (bind_pure _).symm

theorem override_eq (env : Environment) (root : Json) :
    override env root = (overrides env).foldlM (fun root a => a.set root) root := by
  simp only [override, overrides, overrideOne_eq, List.foldlM_append]

/-! ## One assignment -/

/-- An assignment has turned one object into another: its key has its value, any key apart from it
has the value that it had, and the same sections can be written to. -/
structure Sets (a : Assignment) (members members' : List (Text × Json)) : Prop where
  value : (Json.object members').get? a.path = some (.string a.value)
  frame : ∀ path, Apart path a.path →
    (Json.object members').get? path = (Json.object members).get? path
  writable : ∀ part, Writable members' part ↔ Writable members part

/-- A section that can be written to has members, none if it is missing. -/
theorem setIn_of_writable {members : List (Text × Json)} {part : Text}
    (h : Writable members part) (key value : Text) : ∃ inner,
      (lookup? part members = none ∧ inner = [] ∨ lookup? part members = some (.object inner)) ∧
        setIn (.object members) part key value =
          .ok (.object (put part (.object (put key (.string value) inner)) members)) := by
  obtain hl | ⟨inner, hl⟩ := h
  · exact ⟨[], .inl ⟨hl, rfl⟩, by simp only [setIn, hl, put]⟩
  · exact ⟨inner, .inr hl, by simp only [setIn, hl]⟩

theorem setIn_of_not_writable {members : List (Text × Json)} {part : Text}
    (h : ¬ Writable members part) (key value : Text) :
    setIn (.object members) part key value = .error .sectionNotObject := by
  rcases hl : lookup? part members with - | old
  · exact absurd (.inl hl) h
  · cases old with
    | object inner => exact absurd (.inr ⟨inner, hl⟩) h
    | _ => simp only [setIn, hl]

theorem writable_put {members : List (Text × Json)} {part : Text} (h : Writable members part)
    (inner : List (Text × Json)) (other : Text) :
    Writable (put part (.object inner) members) other ↔ Writable members other := by
  by_cases ho : other = part
  · subst ho
    exact iff_of_true (.inr ⟨inner, lookup?_put_self ..⟩) h
  · rw [Writable, Writable, lookup?_put_of_ne ho]

/-- What an assignment puts into a section is found under its path only. -/
theorem sets_put (a : Assignment) {members inner : List (Text × Json)}
    (hinner : lookup? a.part members = none ∧ inner = [] ∨
      lookup? a.part members = some (.object inner)) :
    Sets a members (put a.part (.object (put a.key (.string a.value) inner)) members) := by
  have hpart := lookup?_put_self a.part (.object (put a.key (.string a.value) inner)) members
  have hkey := lookup?_put_self a.key (.string a.value) inner
  refine ⟨?_, fun path hp => ?_, writable_put ?_ _⟩
  · rw [Assignment.path, get?_of_step (.member hpart nofun), get?_of_step (.member hkey nofun)]
    rfl
  · cases path with
    | nil => exact absurd List.nil_prefix hp.1
    | cons part rest =>
      by_cases hne : part = a.part
      · subst hne
        -- the path goes on in the section, with another key
        obtain ⟨key, more, rfl⟩ := List.exists_cons_of_ne_nil (l := rest) fun hnil =>
          hp.1 ⟨[a.key], by rw [hnil]; rfl⟩
        have hne : key ≠ a.key := fun he => hp.2 ⟨more, by rw [he]; rfl⟩
        have hold : (Json.object members).get? (a.part :: key :: more) =
            (Json.object inner).get? (key :: more) := by
          obtain ⟨hl, rfl⟩ | hl := hinner
          · rw [get?_of_stops (.missing hl), get?_of_stops (.missing rfl)]
          · rw [get?_of_step (.member hl nofun)]
        rw [hold, get?_of_step (.member hpart nofun)]
        simp only [get?, lookup?_put_of_ne hne]
      · simp only [get?, lookup?_put_of_ne hne]
  · exact hinner.imp And.left fun h => ⟨inner, h⟩

/-- One assignment is carried out if its section can be written to, and refused otherwise. -/
theorem set_cases (a : Assignment) (members : List (Text × Json)) :
    (Writable members a.part ∧
      ∃ members', a.set (.object members) = .ok (.object members') ∧ Sets a members members') ∨
    ¬ Writable members a.part ∧ a.set (.object members) = .error .sectionNotObject := by
  by_cases h : Writable members a.part
  · obtain ⟨inner, hinner, hset⟩ := setIn_of_writable h a.key a.value
    exact .inl ⟨h, _, hset, sets_put a hinner⟩
  · exact .inr ⟨h, setIn_of_not_writable h ..⟩

/-! ## All assignments -/

/-- Assignments to keys that are apart, carried out one after the other. None of them undoes what
one in front of it has done, or makes a section that the others need one that cannot be written
to. -/
theorem setAll_cases {assignments : List Assignment}
    (hapart : assignments.Pairwise fun a b => Apart a.path b.path)
    (members : List (Text × Json)) :
    ((∀ a ∈ assignments, Writable members a.part) ∧ ∃ members',
      assignments.foldlM (fun root a => a.set root) (.object members) = .ok (.object members') ∧
        (∀ a ∈ assignments, (Json.object members').get? a.path = some (.string a.value)) ∧
        ∀ path, (∀ a ∈ assignments, Apart path a.path) →
          (Json.object members').get? path = (Json.object members).get? path) ∨
    (¬ ∀ a ∈ assignments, Writable members a.part) ∧
      assignments.foldlM (fun root a => a.set root) (.object members) =
        .error .sectionNotObject := by
  induction assignments generalizing members with
  | nil =>
    exact .inl ⟨by simp, members, rfl, by simp, fun path _ => rfl⟩
  | cons a rest ih =>
    obtain ⟨ha, hrest⟩ := List.pairwise_cons.1 hapart
    rw [List.foldlM_cons, List.forall_mem_cons]
    obtain ⟨hw, members₁, hset, hsets⟩ | ⟨hw, hset⟩ := set_cases a members
    · rw [hset]
      have hwritable : (∀ b ∈ rest, Writable members₁ b.part) ↔
          ∀ b ∈ rest, Writable members b.part :=
        forall₂_congr fun b _ => hsets.writable b.part
      obtain ⟨hall, members', hfold, hvalues, hframe⟩ | ⟨hall, hfold⟩ := ih hrest members₁
      · refine .inl ⟨⟨hw, hwritable.1 hall⟩, members', hfold, ?_, fun path hp => ?_⟩
        · refine List.forall_mem_cons.2 ⟨?_, hvalues⟩
          rw [hframe a.path ha, hsets.value]
        · obtain ⟨hpa, hpr⟩ := List.forall_mem_cons.1 hp
          rw [hframe path hpr, hsets.frame path hpa]
      · exact .inr ⟨fun h => hall (hwritable.2 h.2), hfold⟩
    · rw [hset]
      exact .inr ⟨fun h => hw h.1, rfl⟩

/-! ## The environment -/

/-- The paths that the variables may assign to. -/
def places : List (List Text) :=
  [[sectionOfPattern, keyOfPattern], [sectionOfLog, keyOfLevel], [sectionOfLog, keyOfLogFile]]

theorem path_overrides_sublist (env : Environment) :
    ((overrides env).map Assignment.path).Sublist places := by
  have hone (part key : Text) (setting : Option Text) :
      ((assigned part key setting).map Assignment.path).Sublist [[part, key]] := by
    unfold assigned
    split
    · exact List.Sublist.refl _
    · exact List.nil_sublist _
  rw [overrides, List.map_append, List.map_append]
  exact (hone ..).append ((hone ..).append (hone ..))

theorem apart_overrides (env : Environment) :
    (overrides env).Pairwise fun a b => Apart a.path b.path := by
  have hplaces : places.Pairwise Apart := by
    unfold Apart
    decide
  exact List.pairwise_map.1 (hplaces.sublist (path_overrides_sublist env))

/-- The parts of the dotted key of an override are its section and its key. -/
theorem parts_dotted {env : Environment} {a : Assignment} (h : a ∈ overrides env) :
    parts a.dotted = a.path := by
  obtain ⟨part, key, value⟩ := a
  have hmem := (path_overrides_sublist env).subset (List.mem_map_of_mem h)
  simp only [places, Assignment.path, List.mem_cons, List.not_mem_nil, or_false, List.cons.injEq,
    and_true] at hmem
  obtain ⟨rfl, rfl⟩ | ⟨rfl, rfl⟩ | ⟨rfl, rfl⟩ := hmem
  all_goals rfl

/-- The default is the answer for whatever default exactly if the path of the key is blocked. -/
theorem lookup_eq_default_iff (root : Json) (key : Text) :
    (∀ default, lookup root key default = default) ↔ Blocked root (parts key) := by
  rw [← get?_eq_none_iff]
  unfold lookup
  rcases root.get? (parts key) with - | value
  · exact iff_of_true (fun default => rfl) rfl
  · refine ⟨fun h => ?_, nofun⟩
    have hnull : value = .null := h .null
    have htrue : value = .bool true := h (.bool true)
    rw [hnull] at htrue
    cases htrue

/-- The environment takes precedence, and touches nothing else. The settings of a file are
overridden exactly if each section that is written to is missing or an object, and refused
otherwise. Then each key that a variable overrides has the value of the variable, and any key that
neither leads to an overridden one nor goes on behind one has the value that it has in the file. A
key has the default for its value exactly if a step of its path is missing, null, or not from an
object. -/
theorem override_spec (env : Environment) (members : List (Text × Json)) :
    ((∃ root, override env (.object members) = .ok root) ↔
      ∀ a ∈ overrides env, Writable members a.part) ∧
    ((¬ ∀ a ∈ overrides env, Writable members a.part) →
      override env (.object members) = .error .sectionNotObject) ∧
    (∀ root, override env (.object members) = .ok root →
      (∀ a ∈ overrides env, ∀ default, lookup root a.dotted default = .string a.value) ∧
      ∀ key, (∀ a ∈ overrides env, Apart (parts key) (parts a.dotted)) →
        ∀ default, lookup root key default = lookup (.object members) key default) ∧
    ∀ root key, (∀ default, lookup root key default = default) ↔ Blocked root (parts key) := by
  rw [override_eq]
  obtain ⟨hall, members', hfold, hvalues, hframe⟩ | ⟨hall, hfold⟩ :=
    setAll_cases (apart_overrides env) members
  · rw [hfold]
    refine ⟨iff_of_true ⟨_, rfl⟩ hall, fun h => absurd hall h, fun root hroot => ?_,
      lookup_eq_default_iff⟩
    obtain rfl := Except.ok.inj hroot
    refine ⟨fun a ha default => ?_, fun key hkey default => ?_⟩
    · rw [lookup, parts_dotted ha, hvalues a ha]
      rfl
    · rw [lookup, lookup, hframe (parts key) fun a ha => parts_dotted ha ▸ hkey a ha]
  · rw [hfold]
    exact ⟨iff_of_false nofun hall, fun _ => rfl, nofun, lookup_eq_default_iff⟩

/-- The key beside the pattern stays, and the section of the log is made. -/
example : override ⟨none, some (Text.lit "D"), some (Text.lit "INFO"), some []⟩
    (.object [(sectionOfPattern, .object [(Text.lit "name", .null)])]) =
      .ok (.object [(sectionOfPattern, .object [(Text.lit "name", .null),
        (keyOfPattern, .string (Text.lit "D"))]),
        (sectionOfLog, .object [(keyOfLevel, .string (Text.lit "INFO"))])]) := rfl

end Settings

end GeoPattern
