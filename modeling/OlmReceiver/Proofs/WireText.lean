import OlmReceiver.Proofs.JsonText

/-!
# Written formats are read back

Whatever a shape denotes is read back from its text, if the shape is sound: no field accepts the name
that a later field is written under, and no optional field is written as null. The formats of this
library are checked for that by evaluation.

The value has to be legible, that is, all that it keeps as raw JSON is, and it nests no deeper than
the reader goes.
-/

namespace OlmReceiver

namespace Json

variable {σ τ : Type}

/-- Steps that do the same to a part of what is read keep reading the members. -/
theorem ReadsMembers.lift {step : σ → String → Reader σ} {step' : τ → String → Reader τ}
    {acc acc' : σ} {ms : List (String × Text)} (h : ReadsMembers step acc ms acc') (part : σ → τ)
    (hstep : ∀ m ∈ ms, ∀ acc s acc' r, step acc m.1 s = .ok (acc', r) →
      step' (part acc) m.1 s = .ok (part acc', r)) :
    ReadsMembers step' (part acc) ms (part acc') := by
  induction h with
  | nil acc => exact .nil (part acc)
  | @cons acc acc₁ acc' name t ms hread hms ih =>
    refine .cons ?_ (ih fun m hm => hstep m (List.mem_cons_of_mem _ hm))
    intro rest hrest
    exact hstep (name, t) List.mem_cons_self _ _ _ _ (hread rest hrest)

/-- Members are read one batch behind the other. -/
theorem ReadsMembers.append {step : σ → String → Reader σ} {acc acc' acc'' : σ}
    {ms ms' : List (String × Text)} (h : ReadsMembers step acc ms acc')
    (h' : ReadsMembers step acc' ms' acc'') : ReadsMembers step acc (ms ++ ms') acc'' := by
  induction h with
  | nil acc => exact h'
  | cons hread hms ih => exact .cons hread (ih h')

end Json

namespace Wire

open Json (Reader Reads Settles SettlesMembers Fault BeginsWith ReadsMembers opensValue memberOf)

variable {α : Type}

/-- The names that fields are written under. -/
def Fields.names : Fields → List String
  | .done => []
  | .required f _ rest => f.name :: rest.names
  | .optional f _ rest => f.name :: rest.names
  | .repeated f _ rest => f.name :: rest.names

/-- Whether no value of a shape is written as null. -/
def Shape.isNeverNull : Shape → Bool
  | .any => false
  | _ => true

mutual

/-- Whether the fields of all records in a shape are told apart by their names. -/
def Shape.isSound : Shape → Bool
  | .list item => item.isSound
  | .record fields => fields.isSound
  | .openRecord fields => fields.isSound
  | _ => true

/-- Whether no field accepts the name of a later one, and absent fields are told from null. -/
def Fields.isSound : Fields → Bool
  | .done => true
  | .required f s rest => s.isSound && rest.names.all (fun n => !f.accepts n) && rest.isSound
  | .optional f s rest =>
    s.isSound && s.isNeverNull && rest.names.all (fun n => !f.accepts n) && rest.isSound
  | .repeated f s rest => s.isSound && rest.names.all (fun n => !f.accepts n) && rest.isSound

end

/-- The elements of an array are legible one level further in. -/
def ItemsLegible (legible : (levels : Nat) → α → Prop) : (levels : Nat) → List α → Prop
  | 0, _ => False
  | levels + 1, xs => ∀ x ∈ xs, legible levels x

mutual

/-- What a shape denotes can be read back by a reader of so many levels. -/
def Shape.Legible : (s : Shape) → (levels : Nat) → s.Value → Prop
  | .string, _, _ => True
  | .number, _, n => n.toInt?.isSome
  | .any, levels, v => v.Legible levels
  | .objectOrString, levels, .inl ms => (Json.object ms).Legible levels
  | .objectOrString, _, .inr _ => True
  | .list item, levels, vs => ItemsLegible (fun levels v => item.Legible levels v) levels vs
  | .record _, 0, _ => False
  | .record fields, levels + 1, v => fields.Legible levels v
  | .openRecord _, 0, _ => False
  | .openRecord fields, levels + 1, (v, extra) =>
    fields.Legible levels v ∧ Dictionary.Ordered extra ∧
      ∀ m ∈ extra, fields.accept m.1 = false ∧ m.2.Legible levels

/-- What the fields of a record denote can be read back by a reader of so many levels. -/
def Fields.Legible : (fs : Fields) → (levels : Nat) → fs.Value → Prop
  | .done, _, () => True
  | .required _ s rest, levels, (v, vs) => s.Legible levels v ∧ rest.Legible levels vs
  | .optional _ _ rest, levels, (none, vs) => rest.Legible levels vs
  | .optional _ s rest, levels, (some v, vs) => s.Legible levels v ∧ rest.Legible levels vs
  | .repeated _ s rest, levels, (xs, vs) =>
    ItemsLegible (fun levels v => s.Legible levels v) levels xs ∧ rest.Legible levels vs

end

/-! ## The members of a record -/

/-- The members of a record with the texts of their values, in the order of its fields. -/
def Fields.namedTexts : (fs : Fields) → fs.Value → List (String × Text)
  | .done, () => []
  | .required f s rest, (v, vs) => (f.name, s.toText v) :: rest.namedTexts vs
  | .optional _ _ rest, (none, vs) => rest.namedTexts vs
  | .optional f s rest, (some v, vs) => (f.name, s.toText v) :: rest.namedTexts vs
  | .repeated f s rest, (xs, vs) =>
    (f.name, Json.bracketed (xs.map fun v => s.toText v)) :: rest.namedTexts vs

/-- All that is read of the fields of a record once its members are read. -/
def Fields.full : (fs : Fields) → fs.Value → fs.Slots
  | .done, () => ()
  | .required _ _ rest, (v, vs) => (some v, rest.full vs)
  | .optional _ _ rest, (none, vs) => (none, rest.full vs)
  | .optional _ _ rest, (some v, vs) => (some (some v), rest.full vs)
  | .repeated _ _ rest, (xs, vs) => (some xs, rest.full vs)

/-- The texts of the members are those of their names and values. -/
theorem Fields.toTexts_eq_map : (fs : Fields) → (v : fs.Value) →
    fs.toTexts v = (fs.namedTexts v).map memberOf
  | .done, () => rfl
  | .required _ _ rest, (_, vs) => congrArg (_ :: ·) (rest.toTexts_eq_map vs)
  | .optional _ _ rest, (none, vs) => rest.toTexts_eq_map vs
  | .optional _ _ rest, (some _, vs) => congrArg (_ :: ·) (rest.toTexts_eq_map vs)
  | .repeated _ _ rest, (_, vs) => congrArg (_ :: ·) (rest.toTexts_eq_map vs)

/-- Once its members are read, no field of a record is missing. -/
theorem Fields.filled?_full : (fs : Fields) → (v : fs.Value) → fs.filled? (fs.full v) = some v
  | .done, () => rfl
  | .required _ _ rest, (v, vs) => by
    rw [full, filled?, rest.filled?_full vs]
    rfl
  | .optional _ _ rest, (none, vs) => by
    rw [full, filled?, rest.filled?_full vs]
    rfl
  | .optional _ _ rest, (some v, vs) => by
    rw [full, filled?, rest.filled?_full vs]
    rfl
  | .repeated _ _ rest, (xs, vs) => by
    rw [full, filled?, rest.filled?_full vs]
    rfl

/-- Members are written under the names of the fields. -/
theorem Fields.mem_names : (fs : Fields) → (v : fs.Value) → ∀ m ∈ fs.namedTexts v, m.1 ∈ fs.names
  | .done, (), m, hm => by simp [namedTexts] at hm
  | .required f s rest, (v, vs), m, hm => by
    obtain rfl | hm := List.mem_cons.mp hm
    · exact List.mem_cons_self
    · exact List.mem_cons_of_mem _ (rest.mem_names vs m hm)
  | .optional _ _ rest, (none, vs), m, hm => List.mem_cons_of_mem _ (rest.mem_names vs m hm)
  | .optional f s rest, (some v, vs), m, hm => by
    obtain rfl | hm := List.mem_cons.mp hm
    · exact List.mem_cons_self
    · exact List.mem_cons_of_mem _ (rest.mem_names vs m hm)
  | .repeated f s rest, (xs, vs), m, hm => by
    obtain rfl | hm := List.mem_cons.mp hm
    · exact List.mem_cons_self
    · exact List.mem_cons_of_mem _ (rest.mem_names vs m hm)

/-- A field accepts the name that it is written under. -/
theorem FieldName.accepts_name (f : FieldName) : f.accepts f.name = true := by
  simp [accepts]

/-- The fields accept the names that they are written under. -/
theorem Fields.accept_of_mem_names : (fs : Fields) → ∀ name ∈ fs.names, fs.accept name = true
  | .done, name, h => by simp [names] at h
  | .required f _ rest, name, h => by
    rw [accept, Bool.or_eq_true]
    obtain rfl | h := List.mem_cons.mp h
    · exact .inl f.accepts_name
    · exact .inr (rest.accept_of_mem_names name h)
  | .optional f _ rest, name, h => by
    rw [accept, Bool.or_eq_true]
    obtain rfl | h := List.mem_cons.mp h
    · exact .inl f.accepts_name
    · exact .inr (rest.accept_of_mem_names name h)
  | .repeated f _ rest, name, h => by
    rw [accept, Bool.or_eq_true]
    obtain rfl | h := List.mem_cons.mp h
    · exact .inl f.accepts_name
    · exact .inr (rest.accept_of_mem_names name h)

/-! ## Reading -/

/-- Whether a byte begins a value other than null. -/
def opensPresent (b : UInt8) : Bool :=
  opensValue b && b != 'n'.toUInt8

theorem opensValue_of_opensPresent (b : UInt8) (h : opensPresent b = true) :
    opensValue b = true := by
  simp only [opensPresent, Bool.and_eq_true] at h
  exact h.1

theorem opensPresent_of_opensNumber (b : UInt8) :
    Json.opensNumber b = true → opensPresent b = true := by
  revert b
  refine Json.forall_byte ?_
  decide +kernel

/-- What a shape writes, unless it may be null, begins with a byte that opens a value other than null. -/
theorem Shape.beginsWith_opensPresent (s : Shape) (hs : s.isNeverNull = true) (v : s.Value) :
    BeginsWith opensPresent (s.toText v) := by
  cases s with
  | string => exact Json.beginsWith_quoted (by decide) v
  | number => exact (Json.beginsWith_number v).mono opensPresent_of_opensNumber
  | any => cases hs
  | objectOrString =>
    cases v with
    | inl ms => exact ⟨Byte.openBrace, _, rfl, by decide⟩
    | inr x => exact Json.beginsWith_quoted (by decide) x
  | list item => exact ⟨Byte.openBracket, _, rfl, by decide⟩
  | record fields => exact ⟨Byte.openBrace, _, rfl, by decide⟩
  | openRecord fields => exact ⟨Byte.openBrace, _, rfl, by decide⟩

/-- What a shape writes begins with a byte that opens a value. -/
theorem Shape.beginsWith_toText (s : Shape) (v : s.Value) : BeginsWith opensValue (s.toText v) := by
  cases hs : s.isNeverNull with
  | true => exact (s.beginsWith_opensPresent hs v).mono opensValue_of_opensPresent
  | false =>
    cases s with
    | any => exact Json.beginsWith_toText v
    | _ => cases hs

/-- A scalar of the wanted kind is read back. -/
theorem reads_scalarOf {pick? : Json → Option α} {v : Json} {a : α} (hv : v.IsScalar)
    (h : v.OnlyIntegers) (ha : pick? v = some a) : Reads (scalarOf pick?) v.toText a := by
  intro rest hrest
  rw [scalarOf, Json.dispatch_scalar (Json.beginsWith_scalar hv)]
  simp only [Json.reads_scalar hv h.isSome rest hrest, bind, Except.bind, ha]

/-- A value other than null begins with a byte that opens one. -/
theorem beginsWith_opensPresent {v : Json} (hne : v ≠ .null) : BeginsWith opensPresent v.toText := by
  cases v with
  | null => exact absurd rfl hne
  | bool b => cases b <;> exact ⟨_, _, rfl, by decide⟩
  | number n => exact (Json.beginsWith_number n).mono opensPresent_of_opensNumber
  | string x => exact Json.beginsWith_quoted (by decide) x
  | array vs => exact ⟨Byte.openBracket, _, rfl, by decide⟩
  | object ms => exact ⟨Byte.openBrace, _, rfl, by decide⟩

/-- A value other than null settles as a present one. -/
theorem settles_nullable {item : Reader α} {t : Text} {o : Except Fault α}
    (ht : BeginsWith opensPresent t) (h : Settles item t o) :
    Settles (nullable item) t (o.map some) := by
  intro rest hrest
  have hblanks := Json.dropBlanks_append (ht.mono opensValue_of_opensPresent) rest
  have hnull : (t ++ rest).head? ≠ some 'n'.toUInt8 := by
    obtain ⟨b, r, rfl, hb⟩ := ht
    simp only [opensPresent, Bool.and_eq_true, bne_iff_ne] at hb
    simpa using hb.2
  rw [nullable, hblanks, if_neg hnull, h rest hrest]
  cases o <;> rfl

/-- A value other than null is read back as present. -/
theorem reads_nullable {item : Reader α} {t : Text} {a : α} (ht : BeginsWith opensPresent t)
    (h : Reads item t a) : Reads (nullable item) t (some a) :=
  settles_nullable ht (Json.settles_ok_iff.mpr h)

/-- The elements of an array settle, if the reader may go one level further. -/
theorem settles_items {item : (depth : Nat) → Reader α} {levels : Nat} {ts : List Text}
    {o : Except Fault (List α)} (h : Json.SettlesItems (item levels) ts o) :
    Settles (list (levels + 1) item) (Json.bracketed ts) o := by
  intro rest _
  rw [list, Json.bracketed_append, Json.dispatch_array]
  exact h.separated rest

/-- The elements of an array are read back, if the reader may go one level further. -/
theorem reads_items {item : (depth : Nat) → Reader α} {levels : Nat} {ts : List Text} {as : List α}
    (h : Json.ReadsItems (item levels) ts as) :
    Reads (list (levels + 1) item) (Json.bracketed ts) as :=
  settles_items h.settles

/-- Legible elements of an array are read back. -/
theorem reads_list {item : (depth : Nat) → Reader α} {text : α → Text} {levels : Nat}
    {legible : Nat → α → Prop} {vs : List α} (hvs : ItemsLegible legible levels vs)
    (h : ∀ levels, ∀ v ∈ vs, legible levels v →
      BeginsWith opensValue (text v) ∧ Reads (item levels) (text v) v) :
    Reads (list levels item) (Json.bracketed (vs.map text)) vs := by
  cases levels with
  | zero => exact hvs.elim
  | succ levels =>
    have hitems : Json.ReadsItems (item levels) (vs.map text) (vs.map id) :=
      Json.readsItems_map fun v hv => h levels v hv (hvs v hv)
    rw [List.map_id] at hitems
    exact reads_items hitems

/-- A field that is still missing settles as its value does. -/
theorem settles_fillSlot {item : Reader α} {t : Text} {o : Except Fault α} (h : Settles item t o) :
    Settles (fillSlot none item) (Byte.colon :: t) (o.map some) := by
  intro rest hrest
  simp only [fillSlot, h.memberValue rest hrest, bind, Except.bind]
  cases o <;> rfl

/-- A field that is still missing is read back. -/
theorem reads_fillSlot {item : Reader α} {t : Text} {a : α} (h : Reads item t a) :
    Reads (fillSlot none item) (Byte.colon :: t) (some a) :=
  settles_fillSlot (Json.settles_ok_iff.mpr h)

/-- Behind a name, a record fills the field of that name, or passes over the member. -/
def Fields.step (fs : Fields) (levels : Nat) (slots : fs.Slots) (name : String) :
    Reader fs.Slots := fun s =>
  if fs.accept name then fs.readMember levels name slots s
  else do
    let s ← Json.colon s
    let s ← Json.skip s
    .ok (slots, s)

/-- Behind a name, an open record fills the field of that name, or keeps the member. -/
def Fields.openStep (fs : Fields) (levels : Nat) (acc : fs.Slots × Json.Members) (name : String) :
    Reader (fs.Slots × Json.Members) := fun s =>
  if fs.accept name then do
    let (slots, s) ← fs.readMember levels name acc.1 s
    .ok ((slots, acc.2), s)
  else do
    let (extra, s) ← Json.addMember (Json.value .keep levels) acc.2 name s
    .ok ((acc.1, extra), s)

/-- A record has the wrong shape if one of its fields is missing. -/
def Fields.close (fs : Fields) (slots : fs.Slots) : Except Fault fs.Value :=
  (fs.filled? slots).elim (.error .shape) .ok

theorem Fields.close_of_filled {fs : Fields} {slots : fs.Slots} {v : fs.Value}
    (h : fs.filled? slots = some v) : fs.close slots = .ok v := by
  rw [close, h]
  rfl

/-- A record settles as the members of an object do, and then closes. -/
theorem Shape.settles_record {fields : Fields} {levels : Nat} {ms : List (String × Text)}
    {o : Except Fault fields.Slots}
    (h : SettlesMembers .keep (fields.step levels) fields.vacant ms o) :
    Settles ((Shape.record fields).read (levels + 1)) (Json.braced (ms.map memberOf))
      (o.bind fields.close) := by
  intro rest _
  have hmembers := h.separated rest
  unfold Fields.step at hmembers
  rw [Json.braced_append, read, Json.dispatch_object]
  simp only [enter]
  rw [hmembers]
  cases o with
  | error fault => rfl
  | ok slots =>
    simp only [bind, Except.bind, Except.map, Fields.close]
    cases fields.filled? slots <;> rfl

/-- A record is read off an object whose members fill its fields. -/
theorem Shape.reads_record {fields : Fields} {levels : Nat} {ms : List (String × Text)}
    {slots : fields.Slots} {v : fields.Value}
    (h : ReadsMembers (fields.step levels) fields.vacant ms slots)
    (hfilled : fields.filled? slots = some v) :
    Reads ((Shape.record fields).read (levels + 1)) (Json.braced (ms.map memberOf)) v := by
  have hsettles := Shape.settles_record h.settles
  rwa [Except.bind, Fields.close_of_filled hfilled] at hsettles

/-- An open record settles as the members of an object do, and then closes. -/
theorem Shape.settles_openRecord {fields : Fields} {levels : Nat} {ms : List (String × Text)}
    {o : Except Fault (fields.Slots × Json.Members)}
    (h : SettlesMembers .keep (fields.openStep levels) (fields.vacant, []) ms o) :
    Settles ((Shape.openRecord fields).read (levels + 1)) (Json.braced (ms.map memberOf))
      (o.bind fun acc => (fields.close acc.1).map fun v => (v, acc.2)) := by
  intro rest _
  have hmembers := h.separated rest
  unfold Fields.openStep at hmembers
  rw [Json.braced_append, read, Json.dispatch_object]
  simp only [enter]
  rw [hmembers]
  cases o with
  | error fault => rfl
  | ok acc =>
    simp only [bind, Except.bind, Except.map, Fields.close]
    cases fields.filled? acc.1 <;> rfl

/-- An open record is read off an object whose members fill its fields, and are else kept. -/
theorem Shape.reads_openRecord {fields : Fields} {levels : Nat} {ms : List (String × Text)}
    {slots : fields.Slots} {extra : Json.Members} {v : fields.Value}
    (h : ReadsMembers (fields.openStep levels) (fields.vacant, []) ms (slots, extra))
    (hfilled : fields.filled? slots = some v) :
    Reads ((Shape.openRecord fields).read (levels + 1)) (Json.braced (ms.map memberOf))
      (v, extra) := by
  have hsettles := Shape.settles_openRecord h.settles
  rwa [Except.bind, Fields.close_of_filled hfilled] at hsettles

/-- Members that are kept are read back beside the fields. -/
theorem Fields.readsMembers_extra {fs : Fields} {levels : Nat} {extra : Json.Members}
    (hordered : Dictionary.Ordered extra)
    (hextra : ∀ m ∈ extra, fs.accept m.1 = false ∧ m.2.Legible levels) (slots : fs.Slots) :
    ReadsMembers (fs.openStep levels) (slots, []) (extra.map fun m => (m.1, m.2.toText))
      (slots, extra) := by
  have hread := Json.readsMembers_addMember (fun m hm => Json.reads_value (hextra m hm).2) []
  have hall : extra.foldl (fun d m => Dictionary.insert m.1 m.2 d) [] = extra :=
    Dictionary.ofList_of_ordered hordered
  rw [hall] at hread
  refine hread.lift (Prod.mk slots) ?_
  intro m hm others t others' r hstep
  obtain ⟨m', hm', rfl⟩ := List.mem_map.mp hm
  simp only [openStep, (hextra m' hm').1, Bool.false_eq_true, if_false, hstep, bind, Except.bind]

/-- A sound record reads each field under its own name, and no later one in its place. -/
theorem Fields.not_accepts {f : FieldName} {rest : Fields}
    (h : rest.names.all (fun n => !f.accepts n) = true) {v : rest.Value} :
    ∀ m ∈ rest.namedTexts v, f.accepts m.1 = false := by
  intro m hm
  simpa using List.all_eq_true.mp h m.1 (rest.mem_names v m hm)

mutual

/-- What a sound shape denotes is read back from its text. -/
theorem Shape.reads_toText : (s : Shape) → s.isSound = true → (levels : Nat) → (v : s.Value) →
    s.Legible levels v → Reads (s.read levels) (s.toText v) v
  | .string, _, _, x, _ => reads_scalarOf (v := .string x) trivial (.string x) rfl
  | .number, _, _, n, h => reads_scalarOf (v := .number n) trivial (.number h) rfl
  | .any, _, _, _, h => Json.reads_value h
  | .objectOrString, _, levels, .inl ms, h => by
    intro rest hrest
    have hread := Json.reads_value h rest hrest
    simp only [Shape.toText, Shape.read, hread, bind, Except.bind]
  | .objectOrString, _, levels, .inr x, _ => by
    intro rest hrest
    have hread := Json.reads_value_of_scalar levels (v := .string x) trivial (.string x) rest hrest
    rw [Json.toText] at hread
    simp only [Shape.toText, Shape.read, hread, bind, Except.bind]
  | .list item, hs, levels, vs, h =>
    reads_list h fun levels v _ hv =>
      ⟨item.beginsWith_toText v, item.reads_toText hs levels v hv⟩
  | .record _, _, 0, _, h => h.elim
  | .record fields, hs, levels + 1, v, h => by
    rw [Shape.toText, fields.toTexts_eq_map]
    refine Shape.reads_record ((fields.readsMembers hs levels v h).lift id ?_) (fields.filled?_full v)
    intro m hm slots t slots' r hread
    simp only [Fields.step, fields.accept_of_mem_names m.1 (fields.mem_names v m hm), if_true]
    exact hread
  | .openRecord _, _, 0, _, h => h.elim
  | .openRecord fields, hs, levels + 1, (v, extra), h => by
    obtain ⟨hfields, hordered, hextra⟩ := h
    have hkept := Fields.readsMembers_extra hordered hextra (fields.full v)
    rw [Shape.toText, Json.memberTexts_eq_map, fields.toTexts_eq_map, ← List.map_append]
    refine Shape.reads_openRecord (((fields.readsMembers hs levels v hfields).lift
      (fun slots => (slots, [])) ?_).append hkept) (fields.filled?_full v)
    intro m hm slots t slots' r hread
    simp only [Fields.openStep, fields.accept_of_mem_names m.1 (fields.mem_names v m hm), if_true,
      hread, bind, Except.bind]

/-- The members of a sound record fill its fields. -/
theorem Fields.readsMembers : (fs : Fields) → fs.isSound = true → (levels : Nat) →
    (v : fs.Value) → fs.Legible levels v →
    ReadsMembers (fun slots name => fs.readMember levels name slots) fs.vacant (fs.namedTexts v)
      (fs.full v)
  | .done, _, _, (), _ => .nil ()
  | .required f s rest, hs, levels, (v, vs), h => by
    simp only [Fields.isSound, Bool.and_eq_true] at hs
    obtain ⟨⟨hshape, hnames⟩, hsound⟩ := hs
    refine .cons ?_ ((rest.readsMembers hsound levels vs h.2).lift (Prod.mk (some v)) ?_)
    · intro t ht
      have hfirst := reads_fillSlot (s.reads_toText hshape levels v h.1) t ht
      simp only [Fields.readMember, f.accepts_name, if_true, hfirst, Fields.vacant, bind, Except.bind]
    · intro m hm slots t slots' r hread
      simp only [Fields.readMember, Fields.not_accepts hnames m hm, Bool.false_eq_true, if_false, hread,
        bind, Except.bind]
  | .optional f s rest, hs, levels, (none, vs), h => by
    simp only [Fields.isSound, Bool.and_eq_true] at hs
    obtain ⟨⟨⟨hshape, hnull⟩, hnames⟩, hsound⟩ := hs
    refine (rest.readsMembers hsound levels vs h).lift (Prod.mk none) ?_
    intro m hm slots t slots' r hread
    simp only [Fields.readMember, Fields.not_accepts hnames m hm, Bool.false_eq_true, if_false, hread,
      bind, Except.bind]
  | .optional f s rest, hs, levels, (some v, vs), h => by
    simp only [Fields.isSound, Bool.and_eq_true] at hs
    obtain ⟨⟨⟨hshape, hnull⟩, hnames⟩, hsound⟩ := hs
    refine .cons ?_ ((rest.readsMembers hsound levels vs h.2).lift (Prod.mk (some (some v))) ?_)
    · intro t ht
      have hitem := reads_nullable (s.beginsWith_opensPresent hnull v)
        (s.reads_toText hshape levels v h.1)
      have hfirst := reads_fillSlot hitem t ht
      simp only [Fields.readMember, f.accepts_name, if_true, hfirst, Fields.vacant, bind, Except.bind]
    · intro m hm slots t slots' r hread
      simp only [Fields.readMember, Fields.not_accepts hnames m hm, Bool.false_eq_true, if_false, hread,
        bind, Except.bind]
  | .repeated f s rest, hs, levels, (xs, vs), h => by
    simp only [Fields.isSound, Bool.and_eq_true] at hs
    obtain ⟨⟨hshape, hnames⟩, hsound⟩ := hs
    refine .cons ?_ ((rest.readsMembers hsound levels vs h.2).lift (Prod.mk (some xs)) ?_)
    · intro t ht
      have hitems := reads_list h.1 fun levels x _ hx =>
        ⟨s.beginsWith_toText x, s.reads_toText hshape levels x hx⟩
      have hfirst := reads_fillSlot hitems t ht
      simp only [Fields.readMember, f.accepts_name, if_true, hfirst, Fields.vacant, bind, Except.bind]
    · intro m hm slots t slots' r hread
      simp only [Fields.readMember, Fields.not_accepts hnames m hm, Bool.false_eq_true, if_false, hread,
        bind, Except.bind]

end

/-- A value of a sound format is read back from its text, as far as the reader goes. -/
theorem ofText_toText [Wire α] (hs : (Wire.shape α).isSound = true) {a : α}
    (h : (Wire.shape α).Legible Json.maxDepth (Wire.toValue a)) :
    Wire.ofText (Wire.toText a) = .ok a := by
  have hread := Json.complete_of_reads ((Wire.shape α).reads_toText hs Json.maxDepth _ h)
  rw [Wire.ofText, Wire.toText, hread]
  simp only [bind, Except.bind, Wire.ofValue_toValue]

end Wire

end OlmReceiver
