import OlmReceiver.Proofs.Dictionaries
import OlmReceiver.Proofs.WireText

/-!
# Written values are read back

Whatever a shape denotes is read back from its JSON value as well, if no field of a record accepts the
name of another one. A value keeps its members in the order of their names, so that a field may stand
behind one that comes later in the record, and each field finds its own value among all members. Texts
keep the order of the fields, which is why less is asked of a shape there.

What an open record keeps besides its fields has to be in order and under other names; nothing is asked
of raw JSON, however deep it nests and whatever its numbers are.
-/

namespace OlmReceiver.Wire

open Json (Members)

variable {α : Type}

mutual

/-- Whether no field of a record in a shape accepts the name of an earlier one. -/
def Shape.isApart : Shape → Bool
  | .list item => item.isApart
  | .record fields => fields.isApart
  | .openRecord fields => fields.isApart
  | _ => true

/-- Whether no field accepts the name of an earlier one. -/
def Fields.isApart : Fields → Bool
  | .done => true
  | .required f s rest => s.isApart && !rest.accept f.name && rest.isApart
  | .optional f s rest => s.isApart && !rest.accept f.name && rest.isApart
  | .repeated f s rest => s.isApart && !rest.accept f.name && rest.isApart

end

mutual

/-- What open records keep besides their fields is in order, and under names of no field. -/
def Shape.Tidy : (s : Shape) → s.Value → Prop
  | .list item, vs => ∀ v ∈ vs, item.Tidy v
  | .record fields, v => fields.Tidy v
  | .openRecord fields, (v, extra) =>
    fields.Tidy v ∧ Dictionary.Ordered extra ∧ ∀ m ∈ extra, fields.accept m.1 = false
  | .string, _ => True
  | .number, _ => True
  | .any, _ => True
  | .objectOrString, _ => True

/-- What open records in the fields of a record keep is in order, and under names of no field. -/
def Fields.Tidy : (fs : Fields) → fs.Value → Prop
  | .done, () => True
  | .required _ s rest, (v, vs) => s.Tidy v ∧ rest.Tidy vs
  | .optional _ _ rest, (none, vs) => rest.Tidy vs
  | .optional _ s rest, (some v, vs) => s.Tidy v ∧ rest.Tidy vs
  | .repeated _ s rest, (xs, vs) => (∀ x ∈ xs, s.Tidy x) ∧ rest.Tidy vs

end

/-! ## The members of a record -/

/-- Members are written under the names of the fields, in their order. -/
theorem Fields.names_toMembers : (fs : Fields) → (v : fs.Value) →
    ((fs.toMembers v).map Prod.fst).Sublist fs.names
  | .done, () => List.Sublist.refl _
  | .required f _ rest, (_, vs) => (rest.names_toMembers vs).cons_cons f.name
  | .optional f _ rest, (none, vs) => (rest.names_toMembers vs).cons f.name
  | .optional f _ rest, (some _, vs) => (rest.names_toMembers vs).cons_cons f.name
  | .repeated f _ rest, (_, vs) => (rest.names_toMembers vs).cons_cons f.name

/-- A member of a record is written under the name of a field. -/
theorem Fields.name_mem_names {fs : Fields} {v : fs.Value} {m : String × Json}
    (hm : m ∈ fs.toMembers v) : m.1 ∈ fs.names :=
  (fs.names_toMembers v).subset (List.mem_map_of_mem hm)

/-- A field that accepts no name of a later one has a name of its own. -/
theorem FieldName.name_notMem {f : FieldName} {names : List String}
    (h : names.all (fun n => !f.accepts n) = true) : f.name ∉ names := by
  intro hmem
  simpa [f.accepts_name] using List.all_eq_true.mp h f.name hmem

/-- The fields of a sound record have different names. -/
theorem Fields.nodup_names : (fs : Fields) → fs.isSound = true → fs.names.Nodup
  | .done, _ => List.nodup_nil
  | .required f s rest, h => by
    simp only [isSound, Bool.and_eq_true] at h
    exact List.nodup_cons.mpr ⟨FieldName.name_notMem h.1.2, rest.nodup_names h.2⟩
  | .optional f s rest, h => by
    simp only [isSound, Bool.and_eq_true] at h
    exact List.nodup_cons.mpr ⟨FieldName.name_notMem h.1.2, rest.nodup_names h.2⟩
  | .repeated f s rest, h => by
    simp only [isSound, Bool.and_eq_true] at h
    exact List.nodup_cons.mpr ⟨FieldName.name_notMem h.1.2, rest.nodup_names h.2⟩

/-- A field sees no member whose name it does not accept. -/
theorem FieldName.values_eq_nil {f : FieldName} {ms : Members}
    (h : ∀ m ∈ ms, f.accepts m.1 = false) : f.values ms = [] := by
  have hnone : ms.filter (fun m => f.accepts m.1) = [] :=
    List.filter_eq_nil_iff.mpr fun m hm => by simp [h m hm]
  rw [values, hnone, List.map_nil]

/-- A field sees its own member alone, wherever that stands among members it does not accept. -/
theorem FieldName.values_eq_singleton {f : FieldName} {v : Json} {ms others later : Members}
    (hperm : ms.Perm (others ++ (f.name, v) :: later))
    (hothers : ∀ m ∈ others, f.accepts m.1 = false)
    (hlater : ∀ m ∈ later, f.accepts m.1 = false) : f.values ms = [v] := by
  have hvalues : (f.values ms).Perm (f.values (others ++ (f.name, v) :: later)) :=
    (hperm.filter _).map _
  have hall : f.values (others ++ (f.name, v) :: later) =
      f.values others ++ v :: f.values later := by
    simp [values, f.accepts_name]
  rw [hall, values_eq_nil hothers, values_eq_nil hlater] at hvalues
  exact List.perm_singleton.mp hvalues

/-! ## Reading -/

theorem Shape.ofJson?_string (v : Json) : Shape.string.ofJson? v = v.string? := by
  cases v <;> rfl

theorem Shape.ofJson?_number (v : Json) : Shape.number.ofJson? v = v.number? := by
  cases v <;> rfl

theorem Shape.ofJson?_list (item : Shape) (v : Json) :
    (Shape.list item).ofJson? v = elements? (fun v => item.ofJson? v) v := by
  cases v <;> rfl

/-- What a shape writes, unless it may be null, is not null. -/
theorem Shape.toJson_ne_null {s : Shape} (hs : s.isNeverNull = true) (v : s.Value) :
    s.toJson v ≠ .null := by
  cases s with
  | any => cases hs
  | objectOrString => cases v <;> exact Json.noConfusion
  | _ => exact Json.noConfusion

/-- A value other than null is read as present. -/
theorem nullable?_of_ne_null {item? : Json → Option α} {v : Json} (h : v ≠ .null) :
    nullable? item? v = (item? v).map some := by
  cases v with
  | null => exact absurd rfl h
  | _ => rfl

/-- The elements of an array are read one by one. -/
theorem mapM_eq_some_iff {item? : Json → Option α} {vs : List Json} {as : List α} :
    vs.mapM item? = some as ↔ List.Forall₂ (fun v a => item? v = some a) vs as := by
  induction vs generalizing as with
  | nil => simp [eq_comm]
  | cons v vs ih =>
    simp only [List.mapM_cons, bind, Option.bind_eq_some_iff, pure, Option.some.injEq,
      List.forall₂_cons_left_iff, ih]
    constructor
    · rintro ⟨a, ha, as, has, rfl⟩
      exact ⟨a, as, ha, has, rfl⟩
    · rintro ⟨a, as, ha, has, rfl⟩
      exact ⟨a, ha, as, has, rfl⟩

/-- The elements of an array are read back. -/
theorem elements?_map {item? : Json → Option α} {toJson : α → Json} {vs : List α}
    (h : ∀ v ∈ vs, item? (toJson v) = some v) :
    elements? item? (.array (vs.map toJson)) = some vs := by
  induction vs with
  | nil => rfl
  | cons v vs ih =>
    have hrest : (vs.map toJson).mapM item? = some vs :=
      ih fun v hv => h v (List.mem_cons_of_mem _ hv)
    simp [elements?, List.mapM_cons, h v List.mem_cons_self, hrest]

/-- A required field is read off its own member. -/
theorem FieldName.required?_of_values {f : FieldName} {item? : Json → Option α} {ms : Members}
    {v : Json} (h : f.values ms = [v]) : f.required? item? ms = item? v := by
  rw [required?, h]

/-- A field that may be absent is read off its own member. -/
theorem FieldName.optional?_of_values {f : FieldName} {absent : α} {item? : Json → Option α}
    {ms : Members} {v : Json} (h : f.values ms = [v]) : f.optional? absent item? ms = item? v := by
  rw [optional?, h]

/-- A field without a member is absent. -/
theorem FieldName.optional?_of_nil {f : FieldName} {absent : α} {item? : Json → Option α}
    {ms : Members} (h : f.values ms = []) : f.optional? absent item? ms = some absent := by
  rw [optional?, h]

/-- A sound record accepts no later member in the place of its first one. -/
theorem Fields.not_accepts_toMembers {f : FieldName} {rest : Fields}
    (h : rest.names.all (fun n => !f.accepts n) = true) (vs : rest.Value) :
    ∀ m ∈ rest.toMembers vs, f.accepts m.1 = false := by
  intro m hm
  simpa using List.all_eq_true.mp h m.1 (name_mem_names hm)

/-- Some members are those of a record, in whatever order, and others that it does not accept. -/
def Fields.Among (fs : Fields) (v : fs.Value) (ms : Members) : Prop :=
  ∃ others : Members, ms.Perm (others ++ fs.toMembers v) ∧ ∀ m ∈ others, fs.accept m.1 = false

/-- The first field of a record sees its own member, and the members of the others are among those that
are there. -/
theorem Fields.among_rest {f : FieldName} {rest : Fields} {vs : rest.Value} {w : Json}
    {ms others : Members} (hperm : ms.Perm (others ++ (f.name, w) :: rest.toMembers vs))
    (hothers : ∀ m ∈ others, (f.accepts m.1 || rest.accept m.1) = false)
    (hnames : rest.names.all (fun n => !f.accepts n) = true) (hnew : rest.accept f.name = false) :
    f.values ms = [w] ∧ rest.Among vs ms := by
  constructor
  · refine FieldName.values_eq_singleton hperm (fun m hm => ?_) (not_accepts_toMembers hnames vs)
    exact (Bool.or_eq_false_iff.mp (hothers m hm)).1
  · refine ⟨others ++ [(f.name, w)], by simpa using hperm, ?_⟩
    refine List.forall_mem_append.mpr ⟨fun m hm => ?_, List.forall_mem_singleton.mpr hnew⟩
    exact (Bool.or_eq_false_iff.mp (hothers m hm)).2

/-- An absent first field sees no member, and the members of the others are among those that are
there. -/
theorem Fields.among_rest_of_absent {f : FieldName} {rest : Fields} {vs : rest.Value}
    {ms others : Members} (hperm : ms.Perm (others ++ rest.toMembers vs))
    (hothers : ∀ m ∈ others, (f.accepts m.1 || rest.accept m.1) = false)
    (hnames : rest.names.all (fun n => !f.accepts n) = true) :
    f.values ms = [] ∧ rest.Among vs ms := by
  constructor
  · refine FieldName.values_eq_nil fun m hm => ?_
    rcases List.mem_append.mp (hperm.subset hm) with hm | hm
    · exact (Bool.or_eq_false_iff.mp (hothers m hm)).1
    · exact not_accepts_toMembers hnames vs m hm
  · exact ⟨others, hperm, fun m hm => (Bool.or_eq_false_iff.mp (hothers m hm)).2⟩

/-- The members that a record is written as, with others that it does not accept, make up an object that
has them all. -/
theorem Fields.perm_ofList {fs : Fields} (hs : fs.isSound = true) {v : fs.Value} {extra : Members}
    (hnodup : (extra.map Prod.fst).Nodup) (hextra : ∀ m ∈ extra, fs.accept m.1 = false) :
    (Dictionary.ofList (fs.toMembers v ++ extra)).Perm (extra ++ fs.toMembers v) := by
  refine (Dictionary.perm_ofList ?_).trans List.perm_append_comm
  rw [List.map_append, List.nodup_append]
  refine ⟨(fs.names_toMembers v).nodup (fs.nodup_names hs), hnodup, ?_⟩
  rintro name hname name' hname' rfl
  obtain ⟨m, hm, rfl⟩ := List.mem_map.mp hname'
  have haccept := fs.accept_of_mem_names m.1 ((fs.names_toMembers v).subset hname)
  rw [hextra m hm] at haccept
  cases haccept

/-- Of members in order, those that no field accepts are what was written besides the fields. -/
theorem Fields.filter_eq_extra {fs : Fields} {v : fs.Value} {ms extra : Members}
    (hms : Dictionary.Ordered ms) (hperm : ms.Perm (extra ++ fs.toMembers v))
    (hordered : Dictionary.Ordered extra) (hextra : ∀ m ∈ extra, fs.accept m.1 = false) :
    ms.filter (fun m => !fs.accept m.1) = extra := by
  have hkept : extra.filter (fun m => !fs.accept m.1) = extra :=
    List.filter_eq_self.mpr fun m hm => by simp [hextra m hm]
  have hdropped : (fs.toMembers v).filter (fun m => !fs.accept m.1) = [] := by
    refine List.filter_eq_nil_iff.mpr fun m hm => ?_
    simp [fs.accept_of_mem_names m.1 (name_mem_names hm)]
  have hfilter := hperm.filter fun m => !fs.accept m.1
  rw [List.filter_append, hkept, hdropped, List.append_nil] at hfilter
  exact Dictionary.Ordered.eq_of_perm (List.Pairwise.filter _ hms) hordered hfilter

mutual

/-- What a shape denotes is read back from its value. -/
theorem Shape.ofJson?_toJson : (s : Shape) → s.isSound = true → s.isApart = true → (v : s.Value) →
    s.Tidy v → s.ofJson? (s.toJson v) = some v
  | .string, _, _, _, _ => rfl
  | .number, _, _, _, _ => rfl
  | .any, _, _, _, _ => rfl
  | .objectOrString, _, _, .inl _, _ => rfl
  | .objectOrString, _, _, .inr _, _ => rfl
  | .list item, hs, ha, vs, ht =>
    elements?_map fun v hv => item.ofJson?_toJson hs ha v (ht v hv)
  | .record fields, hs, ha, v, ht => by
    have hperm : (Dictionary.ofList (fields.toMembers v ++ [])).Perm ([] ++ fields.toMembers v) :=
      Fields.perm_ofList hs List.nodup_nil (by simp)
    rw [List.append_nil] at hperm
    exact fields.ofMembers?_of_among hs ha v ht _ ⟨[], hperm, by simp⟩
  | .openRecord fields, hs, ha, (v, extra), ht => by
    obtain ⟨hfields, hordered, hextra⟩ := ht
    have hperm := Fields.perm_ofList hs (v := v) hordered.nodup_keys hextra
    have hread := fields.ofMembers?_of_among hs ha v hfields _ ⟨extra, hperm, hextra⟩
    have hkept := Fields.filter_eq_extra (Dictionary.ordered_ofList _) hperm hordered hextra
    rw [Shape.toJson, Json.ofMembers, Shape.ofJson?, hread]
    exact congrArg (fun kept => some (v, kept)) hkept

/-- The fields of a record are read back from members that they are among. -/
theorem Fields.ofMembers?_of_among : (fs : Fields) → fs.isSound = true → fs.isApart = true →
    (v : fs.Value) → fs.Tidy v → (ms : Members) → fs.Among v ms → fs.ofMembers? ms = some v
  | .done, _, _, (), _, _, _ => rfl
  | .required f s rest, hs, ha, (v, vs), ht, ms, ⟨others, hperm, hothers⟩ => by
    simp only [Fields.isSound, Fields.isApart, Bool.and_eq_true, Bool.not_eq_true'] at hs ha
    obtain ⟨hvalues, hamong⟩ := Fields.among_rest hperm hothers hs.1.2 ha.1.2
    rw [Fields.ofMembers?, FieldName.required?_of_values hvalues, s.ofJson?_toJson hs.1.1 ha.1.1 v ht.1,
      rest.ofMembers?_of_among hs.2 ha.2 vs ht.2 ms hamong]
    rfl
  | .optional f s rest, hs, ha, (none, vs), ht, ms, ⟨others, hperm, hothers⟩ => by
    simp only [Fields.isSound, Fields.isApart, Bool.and_eq_true, Bool.not_eq_true'] at hs ha
    obtain ⟨hvalues, hamong⟩ : f.values ms = [] ∧ rest.Among vs ms :=
      Fields.among_rest_of_absent hperm hothers hs.1.2
    rw [Fields.ofMembers?, FieldName.optional?_of_nil hvalues,
      rest.ofMembers?_of_among hs.2 ha.2 vs ht ms hamong]
    rfl
  | .optional f s rest, hs, ha, (some v, vs), ht, ms, ⟨others, hperm, hothers⟩ => by
    simp only [Fields.isSound, Fields.isApart, Bool.and_eq_true, Bool.not_eq_true'] at hs ha
    obtain ⟨hvalues, hamong⟩ := Fields.among_rest hperm hothers hs.1.2 ha.1.2
    rw [Fields.ofMembers?, FieldName.optional?_of_values hvalues,
      nullable?_of_ne_null (s.toJson_ne_null hs.1.1.2 v), s.ofJson?_toJson hs.1.1.1 ha.1.1 v ht.1,
      rest.ofMembers?_of_among hs.2 ha.2 vs ht.2 ms hamong]
    rfl
  | .repeated f s rest, hs, ha, (xs, vs), ht, ms, ⟨others, hperm, hothers⟩ => by
    simp only [Fields.isSound, Fields.isApart, Bool.and_eq_true, Bool.not_eq_true'] at hs ha
    obtain ⟨hvalues, hamong⟩ := Fields.among_rest hperm hothers hs.1.2 ha.1.2
    rw [Fields.ofMembers?, FieldName.optional?_of_values hvalues,
      elements?_map fun x hx => s.ofJson?_toJson hs.1.1 ha.1.1 x (ht.1 x hx),
      rest.ofMembers?_of_among hs.2 ha.2 vs ht.2 ms hamong]
    rfl

end

/-- A value of a format is read back from its value on the wire. -/
theorem ofJson?_toJson [Wire α] (hs : (Wire.shape α).isSound = true)
    (ha : (Wire.shape α).isApart = true) {a : α} (h : (Wire.shape α).Tidy (Wire.toValue a)) :
    Wire.ofJson? (Wire.toJson a) = some a := by
  rw [Wire.ofJson?, Wire.toJson, Shape.ofJson?_toJson _ hs ha _ h, Option.map_some,
    Wire.ofValue_toValue]

end OlmReceiver.Wire
