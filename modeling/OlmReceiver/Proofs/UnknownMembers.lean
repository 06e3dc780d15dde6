import OlmReceiver.Proofs.FieldSlots
import OlmReceiver.Proofs.ReaderCases
import OlmReceiver.Proofs.Settling

/-!
# Members that are no fields

A record reads the members that are its fields and passes over all others, also in records inside it.
Two values are alike for a shape if they differ in nothing but such members: these may be added,
changed and removed anywhere. Alike values are read the same, and so are their texts, faults included.

Open records keep their further members, and raw JSON keeps everything. Nothing may differ there.
-/

namespace OlmReceiver.Wire

open Json (Members)

variable {α β : Type}

/-! ## Alike values -/

/-- Two objects have alike members, in the same order, but for members that are not accepted: these
may be added and removed. -/
inductive MembersAlike (accept : String → Bool) (alike : String → Json → Json → Prop) :
    Members → Members → Prop
  | nil : MembersAlike accept alike [] []
  | keep {name : String} {v v' : Json} {ms ms' : Members} (hm : alike name v v')
    (hms : MembersAlike accept alike ms ms') :
    MembersAlike accept alike ((name, v) :: ms) ((name, v') :: ms')
  | removed {m : String × Json} {ms ms' : Members} (hm : accept m.1 = false)
    (hms : MembersAlike accept alike ms ms') : MembersAlike accept alike (m :: ms) ms'
  | added {m : String × Json} {ms ms' : Members} (hm : accept m.1 = false)
    (hms : MembersAlike accept alike ms ms') : MembersAlike accept alike ms (m :: ms')

/-- Two arrays have alike elements; other values are the same. -/
def ElementsAlike (alike : Json → Json → Prop) : Json → Json → Prop
  | .array vs, .array vs' => List.Forall₂ alike vs vs'
  | v, v' => v = v'

/-- The first of the elements are alike and so are the others. -/
def PairAlike (alike : Json → Json → Prop) (rest : List Json → List Json → Prop) :
    List Json → List Json → Prop
  | v :: vs, v' :: vs' => alike v v' ∧ rest vs vs'
  | vs, vs' => vs = vs'

mutual

/-- Two values are the same but for members of records that are no fields. -/
def Shape.Alike : Shape → Json → Json → Prop
  | .list item, v, v' => ElementsAlike (fun v v' => item.Alike v v') v v'
  | .record fields, .object ms, .object ms' =>
    MembersAlike fields.accept (fun name v v' => fields.AlikeAt name v v') ms ms'
  | .record fields, .array vs, .array vs' => fields.AlikeItems vs vs'
  | _, v, v' => v = v'

/-- The values of two members under a name are alike for the field of that name. -/
def Fields.AlikeAt : Fields → (name : String) → Json → Json → Prop
  | .done, _, v, v' => v = v'
  | .required f s rest, name, v, v' =>
    if f.accepts name then s.Alike v v' else rest.AlikeAt name v v'
  | .optional f s rest, name, v, v' =>
    if f.accepts name then s.Alike v v' else rest.AlikeAt name v v'
  | .repeated f s rest, name, v, v' =>
    if f.accepts name then ElementsAlike (fun v v' => s.Alike v v') v v' else rest.AlikeAt name v v'

/-- The elements of two arrays that list the fields of a record are alike. -/
def Fields.AlikeItems : Fields → List Json → List Json → Prop
  | .done, vs, vs' => vs = vs'
  | .required _ s rest, vs, vs' =>
    PairAlike (fun v v' => s.Alike v v') (fun vs vs' => rest.AlikeItems vs vs') vs vs'
  | .optional _ s rest, vs, vs' =>
    PairAlike (fun v v' => s.Alike v v') (fun vs vs' => rest.AlikeItems vs vs') vs vs'
  | .repeated _ s rest, vs, vs' =>
    PairAlike (ElementsAlike fun v v' => s.Alike v v') (fun vs vs' => rest.AlikeItems vs vs') vs vs'

end

theorem MembersAlike.refl {accept : String → Bool} {alike : String → Json → Json → Prop}
    (h : ∀ name v, alike name v v) (ms : Members) : MembersAlike accept alike ms ms := by
  induction ms with
  | nil => exact .nil
  | cons m ms ih => exact .keep (h m.1 m.2) ih

theorem MembersAlike.mono {accept : String → Bool} {alike alike' : String → Json → Json → Prop}
    (h : ∀ name v v', alike name v v' → alike' name v v') {ms ms' : Members}
    (hms : MembersAlike accept alike ms ms') : MembersAlike accept alike' ms ms' := by
  induction hms with
  | nil => exact .nil
  | keep hm _ ih => exact .keep (h _ _ _ hm) ih
  | removed hm _ ih => exact .removed hm ih
  | added hm _ ih => exact .added hm ih

theorem ElementsAlike.refl {alike : Json → Json → Prop} (h : ∀ v, alike v v) (v : Json) :
    ElementsAlike alike v v := by
  cases v with
  | array vs => exact List.forall₂_same.mpr fun v _ => h v
  | _ => rfl

theorem PairAlike.refl {alike : Json → Json → Prop} {rest : List Json → List Json → Prop}
    (h : ∀ v, alike v v) (hrest : ∀ vs, rest vs vs) (vs : List Json) :
    PairAlike alike rest vs vs := by
  cases vs with
  | nil => rfl
  | cons v vs => exact ⟨h v, hrest vs⟩

mutual

/-- A value is alike to itself. -/
theorem Shape.alike_refl : (s : Shape) → (v : Json) → s.Alike v v
  | .list item, v => .refl item.alike_refl v
  | .record fields, .object ms => .refl fields.alikeAt_refl ms
  | .record fields, .array vs => fields.alikeItems_refl vs
  | .record _, .null => rfl
  | .record _, .bool _ => rfl
  | .record _, .number _ => rfl
  | .record _, .string _ => rfl
  | .openRecord _, _ => rfl
  | .string, _ => rfl
  | .number, _ => rfl
  | .any, _ => rfl
  | .objectOrString, _ => rfl

theorem Fields.alikeAt_refl : (fs : Fields) → (name : String) → (v : Json) → fs.AlikeAt name v v
  | .done, _, _ => rfl
  | .required f s rest, name, v => by
    rw [Fields.AlikeAt]
    split
    · exact s.alike_refl v
    · exact rest.alikeAt_refl name v
  | .optional f s rest, name, v => by
    rw [Fields.AlikeAt]
    split
    · exact s.alike_refl v
    · exact rest.alikeAt_refl name v
  | .repeated f s rest, name, v => by
    rw [Fields.AlikeAt]
    split
    · exact .refl s.alike_refl v
    · exact rest.alikeAt_refl name v

theorem Fields.alikeItems_refl : (fs : Fields) → (vs : List Json) → fs.AlikeItems vs vs
  | .done, _ => rfl
  | .required _ s rest, vs => .refl s.alike_refl rest.alikeItems_refl vs
  | .optional _ s rest, vs => .refl s.alike_refl rest.alikeItems_refl vs
  | .repeated _ s rest, vs => .refl (.refl s.alike_refl) rest.alikeItems_refl vs

end

/-- Objects that have the same members under the names of fields are alike. -/
theorem MembersAlike.of_filter_eq {accept : String → Bool} {alike : String → Json → Json → Prop}
    (hself : ∀ name v, alike name v v) {ms ms' : Members}
    (h : (ms.filter fun m => accept m.1) = ms'.filter fun m => accept m.1) :
    MembersAlike accept alike ms ms' := by
  induction ms generalizing ms' with
  | nil =>
    induction ms' with
    | nil => exact .nil
    | cons m' ms' ih =>
      cases hm' : accept m'.1 with
      | true => simp [hm'] at h
      | false =>
        rw [List.filter_cons_of_neg (by simp [hm'])] at h
        exact .added hm' (ih h)
  | cons m ms ih =>
    cases hm : accept m.1 with
    | false =>
      rw [List.filter_cons_of_neg (by simp [hm])] at h
      exact .removed hm (ih h)
    | true =>
      rw [List.filter_cons_of_pos (by simp [hm])] at h
      induction ms' with
      | nil => cases h
      | cons m' ms' ih' =>
        cases hm' : accept m'.1 with
        | false =>
          rw [List.filter_cons_of_neg (by simp [hm'])] at h
          exact .added hm' (ih' h)
        | true =>
          rw [List.filter_cons_of_pos (by simp [hm'])] at h
          obtain ⟨rfl, hrest⟩ := List.cons.inj h
          exact .keep (hself m.1 m.2) (ih hrest)

/-- Objects are alike for a record if the members that are its fields are the same. -/
theorem Shape.alike_object_of_filter_eq {fields : Fields} {ms ms' : Members}
    (h : (ms.filter fun m => fields.accept m.1) = ms'.filter fun m => fields.accept m.1) :
    (Shape.record fields).Alike (.object ms) (.object ms') :=
  MembersAlike.of_filter_eq fields.alikeAt_refl h

/-- Alike values of a record are objects with alike members, arrays with alike elements, or the
same. -/
theorem Shape.alike_record_cases {fields : Fields} {v v' : Json}
    (h : (Shape.record fields).Alike v v') :
    (∃ ms ms', v = .object ms ∧ v' = .object ms' ∧
        MembersAlike fields.accept (fun name v v' => fields.AlikeAt name v v') ms ms') ∨
      (∃ vs vs', v = .array vs ∧ v' = .array vs' ∧ fields.AlikeItems vs vs') ∨
      v.IsScalar ∧ v' = v := by
  cases v with
  | object ms =>
    cases v' with
    | object ms' => exact .inl ⟨ms, ms', rfl, rfl, h⟩
    | _ => cases h
  | array vs =>
    cases v' with
    | array vs' => exact .inr (.inl ⟨vs, vs', rfl, rfl, h⟩)
    | _ => cases h
  | _ => exact .inr (.inr ⟨trivial, h.symm⟩)

/-- Alike lists of elements are both empty, or have alike first elements in front of the others. -/
theorem PairAlike.cases {alike : Json → Json → Prop} {rest : List Json → List Json → Prop}
    {vs vs' : List Json} (h : PairAlike alike rest vs vs') :
    (vs = [] ∧ vs' = []) ∨
      ∃ v ws v' ws', vs = v :: ws ∧ vs' = v' :: ws' ∧ alike v v' ∧ rest ws ws' := by
  cases vs with
  | nil => exact .inl ⟨rfl, Eq.symm h⟩
  | cons v ws =>
    cases vs' with
    | nil => cases h
    | cons v' ws' => exact .inr ⟨v, ws, v', ws', rfl, rfl, h.1, h.2⟩

/-- Alike elements are those of two arrays, or those of the same value. -/
theorem ElementsAlike.cases {alike : Json → Json → Prop} {v v' : Json}
    (h : ElementsAlike alike v v') :
    (∃ vs vs', v = .array vs ∧ v' = .array vs' ∧ List.Forall₂ alike vs vs') ∨
      (∀ vs, v ≠ .array vs) ∧ v' = v := by
  cases v with
  | array vs =>
    cases v' with
    | array vs' => exact .inl ⟨vs, vs', rfl, rfl, h⟩
    | _ => cases h
  | _ => exact .inr ⟨fun _ => Json.noConfusion, h.symm⟩

/-- Of alike elements, both or none are null. -/
theorem ElementsAlike.null_iff {alike : Json → Json → Prop} {v v' : Json}
    (h : ElementsAlike alike v v') : v' = .null ↔ v = .null := by
  rcases h.cases with ⟨vs, vs', rfl, rfl, -⟩ | ⟨-, rfl⟩
  · simp
  · rfl

/-- Of alike values, both or none are null. -/
theorem Shape.Alike.null_iff {s : Shape} {v v' : Json} (h : s.Alike v v') :
    v' = .null ↔ v = .null := by
  cases s with
  | list item => exact ElementsAlike.null_iff h
  | record fields =>
    rcases Shape.alike_record_cases h with ⟨ms, ms', rfl, rfl, -⟩ | ⟨vs, vs', rfl, rfl, -⟩ | ⟨-, rfl⟩
    · simp
    · simp
    · rfl
  | _ =>
    obtain rfl : v = v' := by simpa [Shape.Alike] using h
    rfl

/-! ## Alike values are read the same -/

/-- A field sees alike values in alike members, if all that it accepts is accepted. -/
theorem FieldName.values_alike {f : FieldName} {accept : String → Bool}
    {alike : String → Json → Json → Prop} {R : Json → Json → Prop}
    (haccept : ∀ name, f.accepts name = true → accept name = true)
    (hR : ∀ name v v', f.accepts name = true → alike name v v' → R v v') {ms ms' : Members}
    (h : MembersAlike accept alike ms ms') : List.Forall₂ R (f.values ms) (f.values ms') := by
  have hdropped {m : String × Json} (hm : accept m.1 = false) (ms : Members) :
      f.values (m :: ms) = f.values ms := by
    cases hf : f.accepts m.1 with
    | true => exact absurd (haccept m.1 hf) (by simp [hm])
    | false => simp [values, hf]
  induction h with
  | nil => exact .nil
  | @keep name v v' ms ms' hm _ ih =>
    cases hf : f.accepts name with
    | true =>
      have hcons (w : Json) (ms : Members) : f.values ((name, w) :: ms) = w :: f.values ms := by
        simp [values, hf]
      rw [hcons, hcons]
      exact .cons (hR name v v' hf hm) ih
    | false =>
      have hcons (w : Json) (ms : Members) : f.values ((name, w) :: ms) = f.values ms := by
        simp [values, hf]
      rwa [hcons, hcons]
  | removed hm _ ih => rwa [hdropped hm]
  | added hm _ ih => rwa [hdropped hm]

/-- A required field is read the same off alike values. -/
theorem FieldName.required?_alike {f : FieldName} (item? : Json → Option α) {ms ms' : Members}
    (h : List.Forall₂ (fun v v' => item? v' = item? v) (f.values ms) (f.values ms')) :
    f.required? item? ms' = f.required? item? ms := by
  unfold required?
  generalize f.values ms = vs at h
  generalize f.values ms' = vs' at h
  rcases h with _ | ⟨hv, _ | ⟨hv', h⟩⟩
  · rfl
  · exact hv
  · rfl

/-- A field that may be absent is read the same off alike values. -/
theorem FieldName.optional?_alike {f : FieldName} (absent : α) (item? : Json → Option α)
    {ms ms' : Members}
    (h : List.Forall₂ (fun v v' => item? v' = item? v) (f.values ms) (f.values ms')) :
    f.optional? absent item? ms' = f.optional? absent item? ms := by
  unfold optional?
  generalize f.values ms = vs at h
  generalize f.values ms' = vs' at h
  rcases h with _ | ⟨hv, _ | ⟨hv', h⟩⟩
  · rfl
  · exact hv
  · rfl

/-- Alike elements are read the same. -/
theorem elements?_alike {alike : Json → Json → Prop} {item? : Json → Option α}
    (hitem : ∀ v v', alike v v' → item? v' = item? v) {v v' : Json} (h : ElementsAlike alike v v') :
    elements? item? v' = elements? item? v := by
  rcases h.cases with ⟨vs, vs', rfl, rfl, hall⟩ | ⟨-, rfl⟩
  · clear h
    change vs'.mapM item? = vs.mapM item?
    induction hall with
    | nil => rfl
    | cons hv _ ih => rw [List.mapM_cons, List.mapM_cons, hitem _ _ hv, ih]
  · rfl

/-- Values that are null together, and are read the same, are read the same where null is nothing. -/
theorem nullable?_alike {item? : Json → Option α} {v v' : Json} (hnull : v' = .null ↔ v = .null)
    (h : item? v' = item? v) : nullable? item? v' = nullable? item? v := by
  by_cases hv : v = .null
  · rw [hv, hnull.mpr hv]
  · rw [nullable?_of_ne_null hv, nullable?_of_ne_null (mt hnull.mp hv), h]

/-- For the fields behind the first one of a distinct record, members are alike if they are for all.
-/
theorem MembersAlike.rest {f : FieldName} {rest : Fields} {alike : String → Json → Json → Prop}
    (hdistinct : (f.name :: f.aliases).all (fun n => !rest.accept n) = true)
    (hrest : ∀ name v v', f.accepts name = false → alike name v v' → rest.AlikeAt name v v')
    {ms ms' : Members}
    (h : MembersAlike (fun name => f.accepts name || rest.accept name) alike ms ms') :
    MembersAlike rest.accept (fun name v v' => rest.AlikeAt name v v') ms ms' := by
  induction h with
  | nil => exact .nil
  | @keep name v v' ms ms' hm _ ih =>
    cases hf : f.accepts name with
    | true =>
      have hname := FieldName.not_accept_of_accepts hdistinct hf
      exact .removed hname (.added hname ih)
    | false => exact .keep (hrest name v v' hf hm) ih
  | removed hm _ ih => exact .removed (Bool.or_eq_false_iff.mp hm).2 ih
  | added hm _ ih => exact .added (Bool.or_eq_false_iff.mp hm).2 ih

mutual

/-- Alike values of a distinct shape are read as the same, or both not. -/
theorem Shape.ofJson?_alike : (s : Shape) → s.isDistinct = true → (v v' : Json) → s.Alike v v' →
    s.ofJson? v' = s.ofJson? v
  | .list item, hd, v, v', h => by
    rw [Shape.ofJson?_list, Shape.ofJson?_list]
    exact elements?_alike (item.ofJson?_alike hd) h
  | .record fields, hd, v, v', h => by
    rcases Shape.alike_record_cases h with ⟨ms, ms', rfl, rfl, h⟩ | ⟨vs, vs', rfl, rfl, h⟩ | ⟨-, rfl⟩
    · exact fields.ofMembers?_alike hd ms ms' h
    · exact fields.ofItems?_alike hd vs vs' h
    · rfl
  | .openRecord _, _, _, _, h => by rw [Shape.Alike.eq_def] at h; exact h ▸ rfl
  | .string, _, _, _, h => h ▸ rfl
  | .number, _, _, _, h => h ▸ rfl
  | .any, _, _, _, h => h ▸ rfl
  | .objectOrString, _, _, _, h => h ▸ rfl

/-- Alike members are read as the same fields of a distinct record, or both not. -/
theorem Fields.ofMembers?_alike : (fs : Fields) → fs.isDistinct = true → (ms ms' : Members) →
    MembersAlike fs.accept (fun name v v' => fs.AlikeAt name v v') ms ms' →
    fs.ofMembers? ms' = fs.ofMembers? ms
  | .done, _, _, _, _ => rfl
  | .required f s rest, hd, ms, ms', h => by
    simp only [Fields.isDistinct, Bool.and_eq_true] at hd
    have hfirst := FieldName.required?_alike (fun v => s.ofJson? v)
      (FieldName.values_alike (f := f) (fun _ hf => Bool.or_eq_true_iff.mpr (.inl hf))
        (fun name v v' hf hv =>
          s.ofJson?_alike hd.1.1 v v' (by simpa [Fields.AlikeAt, hf] using hv)) h)
    have hrest := rest.ofMembers?_alike hd.2 ms ms'
      (MembersAlike.rest hd.1.2 (fun _ _ _ hf hv => by simpa [Fields.AlikeAt, hf] using hv) h)
    rw [Fields.ofMembers?, Fields.ofMembers?, hfirst, hrest]
  | .optional f s rest, hd, ms, ms', h => by
    simp only [Fields.isDistinct, Bool.and_eq_true] at hd
    have hfirst := FieldName.optional?_alike none (nullable? fun v => s.ofJson? v)
      (FieldName.values_alike (f := f) (fun _ hf => Bool.or_eq_true_iff.mpr (.inl hf))
        (fun name v v' hf hv => by
          have hs : s.Alike v v' := by simpa [Fields.AlikeAt, hf] using hv
          exact nullable?_alike hs.null_iff (s.ofJson?_alike hd.1.1 v v' hs)) h)
    have hrest := rest.ofMembers?_alike hd.2 ms ms'
      (MembersAlike.rest hd.1.2 (fun _ _ _ hf hv => by simpa [Fields.AlikeAt, hf] using hv) h)
    rw [Fields.ofMembers?, Fields.ofMembers?, hfirst, hrest]
  | .repeated f s rest, hd, ms, ms', h => by
    simp only [Fields.isDistinct, Bool.and_eq_true] at hd
    have hfirst := FieldName.optional?_alike [] (elements? fun v => s.ofJson? v)
      (FieldName.values_alike (f := f) (fun _ hf => Bool.or_eq_true_iff.mpr (.inl hf))
        (fun name v v' hf hv => elements?_alike (s.ofJson?_alike hd.1.1)
          (by simpa [Fields.AlikeAt, hf] using hv)) h)
    have hrest := rest.ofMembers?_alike hd.2 ms ms'
      (MembersAlike.rest hd.1.2 (fun _ _ _ hf hv => by simpa [Fields.AlikeAt, hf] using hv) h)
    rw [Fields.ofMembers?, Fields.ofMembers?, hfirst, hrest]

/-- Alike elements are read as the same fields of a distinct record, or both not. -/
theorem Fields.ofItems?_alike : (fs : Fields) → fs.isDistinct = true → (vs vs' : List Json) →
    fs.AlikeItems vs vs' → fs.ofItems? vs' = fs.ofItems? vs
  | .done, _, _, _, h => h ▸ rfl
  | .required f s rest, hd, vs, vs', h => by
    simp only [Fields.isDistinct, Bool.and_eq_true] at hd
    rcases PairAlike.cases h with ⟨rfl, rfl⟩ | ⟨v, ws, v', ws', rfl, rfl, hv, hws⟩
    · rfl
    · rw [Fields.ofItems?, Fields.ofItems?, s.ofJson?_alike hd.1.1 v v' hv,
        rest.ofItems?_alike hd.2 ws ws' hws]
  | .optional f s rest, hd, vs, vs', h => by
    simp only [Fields.isDistinct, Bool.and_eq_true] at hd
    rcases PairAlike.cases h with ⟨rfl, rfl⟩ | ⟨v, ws, v', ws', rfl, rfl, hv, hws⟩
    · rfl
    · rw [Fields.ofItems?, Fields.ofItems?,
        nullable?_alike hv.null_iff (s.ofJson?_alike hd.1.1 v v' hv),
        rest.ofItems?_alike hd.2 ws ws' hws]
  | .repeated f s rest, hd, vs, vs', h => by
    simp only [Fields.isDistinct, Bool.and_eq_true] at hd
    rcases PairAlike.cases h with ⟨rfl, rfl⟩ | ⟨v, ws, v', ws', rfl, rfl, hv, hws⟩
    · rfl
    · rw [Fields.ofItems?, Fields.ofItems?, elements?_alike (s.ofJson?_alike hd.1.1) hv,
        rest.ofItems?_alike hd.2 ws ws' hws]

end

/-- An open record is read off objects with alike members as the same fields, or not at all off
both; what it keeps besides is in each case what the object has. -/
theorem Shape.ofJson?_openRecord_alike {fields : Fields} (hd : fields.isDistinct = true)
    {ms ms' : Members}
    (h : MembersAlike fields.accept (fun name v v' => fields.AlikeAt name v v') ms ms') :
    (Shape.openRecord fields).ofJson? (.object ms') =
      ((Shape.openRecord fields).ofJson? (.object ms)).map fun x =>
        (x.1, ms'.filter fun m => !fields.accept m.1) := by
  have hfields := fields.ofMembers?_alike hd ms ms' h
  simp only [Shape.ofJson?, hfields]
  cases fields.ofMembers? ms <;> rfl

end OlmReceiver.Wire
