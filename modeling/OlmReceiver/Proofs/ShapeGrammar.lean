import OlmReceiver.Proofs.FieldSlots

/-!
# The grammar of shapes

Which values a shape takes, and what each of them denotes, said as a relation: a field is a member
that stands alone under the names of the field, or the next element of an array. Reading a value
finds exactly what the value denotes, so that a value is refused exactly if it denotes nothing.

This holds of every shape and every value, also of objects with a member more than once.
-/

namespace OlmReceiver

open Json (Members)

namespace Json

/-- No member of an object stands under one of some names. -/
def Absent (names : List String) (ms : Members) : Prop :=
  ∀ m ∈ ms, m.1 ∉ names

/-- Exactly one member of an object stands under one of some names, and this is its value. -/
def Sole (names : List String) (ms : Members) (v : Json) : Prop :=
  ∃ name ∈ names, ∃ earlier later : Members, ms = earlier ++ (name, v) :: later ∧
    Absent names earlier ∧ Absent names later

/-- Of an object that has its members in order, the member under a name is the only one. -/
theorem sole_singleton_iff {ms : Members} (h : Dictionary.Ordered ms) {name : String} {v : Json} :
    Sole [name] ms v ↔ (name, v) ∈ ms := by
  constructor
  · rintro ⟨name', hname', earlier, later, rfl, -, -⟩
    rw [List.mem_singleton.mp hname']
    simp
  · intro hmem
    obtain ⟨earlier, later, rfl⟩ := List.append_of_mem hmem
    refine ⟨name, List.mem_singleton_self name, earlier, later, rfl, fun m hm hname => ?_,
      fun m hm hname => ?_⟩
    · have hlt : m.1 < name := (List.pairwise_append.mp h).2.2 m hm (name, v) List.mem_cons_self
      exact String.lt_irrefl name (List.mem_singleton.mp hname ▸ hlt)
    · have hlt : name < m.1 :=
        (List.pairwise_cons.mp (List.pairwise_append.mp h).2.1).1 m hm
      exact String.lt_irrefl name (List.mem_singleton.mp hname ▸ hlt)

end Json

namespace Wire

open Json (Absent Sole)

variable {α : Type}

/-- A reader of values finds what they denote. -/
def Finds (item? : Json → Option α) (denotes : Json → α → Prop) : Prop :=
  ∀ v a, item? v = some a ↔ denotes v a

/-! ## Fields -/

/-- All names that a field is read under. -/
def FieldName.names (f : FieldName) : List String :=
  f.name :: f.aliases

theorem FieldName.accepts_iff {f : FieldName} {name : String} :
    f.accepts name = true ↔ name ∈ f.names := by
  simp [accepts, names]

/-- A field sees nothing if no member stands under one of its names. -/
theorem FieldName.values_eq_nil_iff_absent {f : FieldName} {ms : Members} :
    f.values ms = [] ↔ Absent f.names ms := by
  rw [values_eq_nil_iff]
  refine forall_congr' fun m => imp_congr_right fun _ => ?_
  rw [← f.accepts_iff, Bool.not_eq_true]

/-- A field sees one value if a member stands alone under its names. -/
theorem FieldName.values_eq_singleton_iff {f : FieldName} {ms : Members} {v : Json} :
    f.values ms = [v] ↔ Sole f.names ms v := by
  constructor
  · intro h
    obtain ⟨⟨name, v⟩, hfilter, rfl⟩ := List.map_eq_singleton_iff.mp h
    obtain ⟨earlier, later, rfl, hearlier, hname, hlater⟩ := List.filter_eq_cons_iff.mp hfilter
    refine ⟨name, f.accepts_iff.mp hname, earlier, later, rfl, fun m hm hmem => ?_,
      fun m hm hmem => ?_⟩
    · exact hearlier m hm (f.accepts_iff.mpr hmem)
    · exact List.filter_eq_nil_iff.mp hlater m hm (f.accepts_iff.mpr hmem)
  · rintro ⟨name, hname, earlier, later, rfl, hearlier, hlater⟩
    have hall : f.values (earlier ++ (name, v) :: later) =
        f.values earlier ++ v :: f.values later := by
      simp [values, f.accepts_iff.mpr hname]
    rw [hall, values_eq_nil_iff_absent.mpr hearlier, values_eq_nil_iff_absent.mpr hlater,
      List.nil_append]

/-- A required field is read off the member that stands alone under its names. -/
theorem FieldName.required?_eq_some_iff {f : FieldName} {item? : Json → Option α}
    {denotes : Json → α → Prop} (h : Finds item? denotes) {ms : Members} {a : α} :
    f.required? item? ms = some a ↔ ∃ v, Sole f.names ms v ∧ denotes v a := by
  constructor
  · intro ha
    unfold required? at ha
    split at ha
    · rename_i v hone
      exact ⟨v, values_eq_singleton_iff.mp hone, (h v a).mp ha⟩
    · cases ha
  · rintro ⟨v, hsole, ha⟩
    exact (required?_of_values (values_eq_singleton_iff.mpr hsole)).trans ((h v a).mpr ha)

/-- A field that may be absent is read off the member that stands alone under its names, if there is
one. -/
theorem FieldName.optional?_eq_some_iff {f : FieldName} {item? : Json → Option α}
    {denotes : Json → α → Prop} (h : Finds item? denotes) {ms : Members} {absent a : α} :
    f.optional? absent item? ms = some a ↔
      (Absent f.names ms ∧ a = absent) ∨ ∃ v, Sole f.names ms v ∧ denotes v a := by
  constructor
  · intro ha
    unfold optional? at ha
    split at ha
    · rename_i hnil
      exact .inl ⟨values_eq_nil_iff_absent.mp hnil, (Option.some.inj ha).symm⟩
    · rename_i v hone
      exact .inr ⟨v, values_eq_singleton_iff.mp hone, (h v a).mp ha⟩
    · cases ha
  · rintro (⟨habsent, rfl⟩ | ⟨v, hsole, ha⟩)
    · exact optional?_of_nil (values_eq_nil_iff_absent.mpr habsent)
    · exact (optional?_of_values (values_eq_singleton_iff.mpr hsole)).trans ((h v a).mpr ha)

/-! ## What a value denotes -/

/-- Null denotes nothing, and any other value what it denotes of its own. -/
def NullOr (denotes : Json → α → Prop) (v : Json) : Option α → Prop
  | none => v = .null
  | some x => v ≠ .null ∧ denotes v x

/-- An array denotes what its elements denote. -/
def Lists (denotes : Json → α → Prop) (v : Json) (xs : List α) : Prop :=
  ∃ vs, v = .array vs ∧ List.Forall₂ denotes vs xs

mutual

/-- A value looks like a shape says, and denotes this. -/
def Shape.Denotes : (s : Shape) → Json → s.Value → Prop
  | .string, v, x => v = .string x
  | .number, v, n => v = .number n
  | .any, v, w => v = w
  | .objectOrString, v, .inl ms => v = .object ms
  | .objectOrString, v, .inr x => v = .string x
  | .list item, v, xs => Lists (fun v x => item.Denotes v x) v xs
  | .record fields, v, x =>
    (∃ ms, v = .object ms ∧ fields.InMembers ms x) ∨ ∃ vs, v = .array vs ∧ fields.InItems vs x
  | .openRecord fields, v, (x, extra) =>
    ∃ ms, v = .object ms ∧ fields.InMembers ms x ∧ extra = ms.filter fun m => !fields.accept m.1

/-- The members of an object denote this for the fields of a record. -/
def Fields.InMembers : (fs : Fields) → Members → fs.Value → Prop
  | .done, _, () => True
  | .required f s rest, ms, (x, xs) =>
    (∃ v, Sole f.names ms v ∧ s.Denotes v x) ∧ rest.InMembers ms xs
  | .optional f s rest, ms, (x, xs) =>
    ((Absent f.names ms ∧ x = none) ∨
      ∃ v, Sole f.names ms v ∧ NullOr (fun v x => s.Denotes v x) v x) ∧ rest.InMembers ms xs
  | .repeated f s rest, ms, (x, xs) =>
    ((Absent f.names ms ∧ x = []) ∨
      ∃ v, Sole f.names ms v ∧ Lists (fun v x => s.Denotes v x) v x) ∧ rest.InMembers ms xs

/-- The elements of an array denote this for the fields of a record, in their order. -/
def Fields.InItems : (fs : Fields) → List Json → fs.Value → Prop
  | .done, vs, () => vs = []
  | .required _ s rest, vs, (x, xs) => ∃ v vs', vs = v :: vs' ∧ s.Denotes v x ∧ rest.InItems vs' xs
  | .optional _ s rest, vs, (x, xs) =>
    (vs = [] ∧ x = none ∧ rest.InItems [] xs) ∨
      ∃ v vs', vs = v :: vs' ∧ NullOr (fun v x => s.Denotes v x) v x ∧ rest.InItems vs' xs
  | .repeated _ s rest, vs, (x, xs) =>
    (vs = [] ∧ x = [] ∧ rest.InItems [] xs) ∨
      ∃ v vs', vs = v :: vs' ∧ Lists (fun v x => s.Denotes v x) v x ∧ rest.InItems vs' xs

end

/-! ## Reading finds what is denoted -/

/-- Two parts are found if each is. -/
theorem pair_eq_some_iff {β : Type} (a? : Option α) (b? : Option β) {a : α} {b : β} :
    (do some (← a?, ← b?)) = some (a, b) ↔ a? = some a ∧ b? = some b := by
  cases a? <;> cases b? <;> simp

theorem finds_nullable {item? : Json → Option α} {denotes : Json → α → Prop}
    (h : Finds item? denotes) : Finds (nullable? item?) (NullOr denotes) := by
  intro v a
  by_cases hnull : v = .null
  · subst hnull
    cases a with
    | none => simp [nullable?, NullOr]
    | some a => simp [nullable?, NullOr]
  · rw [nullable?_of_ne_null hnull]
    cases a with
    | none => simp [NullOr, hnull]
    | some a => simp [NullOr, hnull, ← h v a]

theorem finds_elements {item? : Json → Option α} {denotes : Json → α → Prop}
    (h : Finds item? denotes) : Finds (elements? item?) (Lists denotes) := by
  intro v as
  have hdenotes : (fun v a => item? v = some a) = denotes := by
    funext v a
    exact propext (h v a)
  cases v with
  | array vs => simp [elements?, Lists, mapM_eq_some_iff, hdenotes]
  | _ => simp [elements?, Lists]

mutual

/-- Reading a value finds exactly what it denotes. -/
theorem Shape.finds : (s : Shape) → Finds (fun v => s.ofJson? v) (fun v x => s.Denotes v x)
  | .string => fun v x => by cases v <;> simp [Shape.ofJson?, Shape.Denotes]
  | .number => fun v x => by cases v <;> simp [Shape.ofJson?, Shape.Denotes]
  | .any => fun v x => by simp [Shape.ofJson?, Shape.Denotes]
  | .objectOrString => fun v x => by
    cases x <;> cases v <;> simp [Shape.ofJson?, Shape.Denotes]
  | .list item => fun v xs => by
    dsimp only
    rw [Shape.ofJson?_list, finds_elements item.finds v xs, Shape.Denotes]
  | .record fields => fun v x => by
    cases v with
    | object ms => simp [Shape.ofJson?, Shape.Denotes, fields.ofMembers?_eq_some_iff ms x]
    | array vs => simp [Shape.ofJson?, Shape.Denotes, fields.ofItems?_eq_some_iff vs x]
    | _ => simp [Shape.ofJson?, Shape.Denotes]
  | .openRecord fields => fun v (x, extra) => by
    cases v with
    | object ms =>
      have hpair : (Shape.openRecord fields).ofJson? (.object ms) = some (x, extra) ↔
          fields.ofMembers? ms = some x ∧ some (ms.filter fun m => !fields.accept m.1) = some extra :=
        pair_eq_some_iff (fields.ofMembers? ms) (some _)
      simp [Shape.Denotes, hpair, fields.ofMembers?_eq_some_iff ms x, eq_comm]
    | _ => simp [Shape.ofJson?, Shape.Denotes]

/-- Reading the members of an object finds exactly what they denote. -/
theorem Fields.ofMembers?_eq_some_iff : (fs : Fields) → (ms : Members) → (x : fs.Value) →
    (fs.ofMembers? ms = some x ↔ fs.InMembers ms x)
  | .done, _, () => ⟨fun _ => trivial, fun _ => rfl⟩
  | .required _ s rest, ms, (_, xs) =>
    (pair_eq_some_iff _ _).trans (and_congr (FieldName.required?_eq_some_iff s.finds)
      (rest.ofMembers?_eq_some_iff ms xs))
  | .optional _ s rest, ms, (_, xs) =>
    (pair_eq_some_iff _ _).trans (and_congr (FieldName.optional?_eq_some_iff (finds_nullable s.finds))
      (rest.ofMembers?_eq_some_iff ms xs))
  | .repeated _ s rest, ms, (_, xs) =>
    (pair_eq_some_iff _ _).trans (and_congr (FieldName.optional?_eq_some_iff (finds_elements s.finds))
      (rest.ofMembers?_eq_some_iff ms xs))

/-- Reading the elements of an array finds exactly what they denote. -/
theorem Fields.ofItems?_eq_some_iff : (fs : Fields) → (vs : List Json) → (x : fs.Value) →
    (fs.ofItems? vs = some x ↔ fs.InItems vs x)
  | .done, vs, () => by
    cases vs <;> simp [Fields.ofItems?, Fields.InItems]
  | .required _ _ _, [], (_, _) => by simp [Fields.ofItems?, Fields.InItems]
  | .required _ s rest, v :: vs, (x, xs) => by
    rw [Fields.ofItems?, pair_eq_some_iff, s.finds v x, rest.ofItems?_eq_some_iff vs xs]
    simp [Fields.InItems]
  | .optional f s rest, [], (x, xs) => by
    have hpair : (Fields.optional f s rest).ofItems? [] = some (x, xs) ↔
        some none = some x ∧ rest.ofItems? [] = some xs := pair_eq_some_iff (some none) _
    rw [hpair, rest.ofItems?_eq_some_iff [] xs]
    simp [Fields.InItems, eq_comm]
  | .optional _ s rest, v :: vs, (x, xs) => by
    rw [Fields.ofItems?, pair_eq_some_iff, finds_nullable s.finds v x,
      rest.ofItems?_eq_some_iff vs xs]
    simp [Fields.InItems]
  | .repeated f s rest, [], (x, xs) => by
    have hpair : (Fields.repeated f s rest).ofItems? [] = some (x, xs) ↔
        some [] = some x ∧ rest.ofItems? [] = some xs := pair_eq_some_iff (some []) _
    rw [hpair, rest.ofItems?_eq_some_iff [] xs]
    simp [Fields.InItems, eq_comm]
  | .repeated _ s rest, v :: vs, (x, xs) => by
    rw [Fields.ofItems?, pair_eq_some_iff, finds_elements s.finds v x,
      rest.ofItems?_eq_some_iff vs xs]
    simp [Fields.InItems]

end

end Wire

end OlmReceiver
