import OlmReceiver.Proofs.UnknownMembers

/-!
# Texts of alike values

A reader makes the same of the texts of alike values, whatever follows them: it reads the same value
off both, or refuses both for the same fault. As every value is alike to itself, this also says that
every text of a value settles, whatever shape it is read as.

Nothing is asked of the names of fields, nor that the values could be read back: a reader goes through
both texts in step, and what it passes over in one of them leaves nothing behind.
-/

namespace OlmReceiver

open Json (Reader Reads Settles SettlesItems SettlesMembers Members Fault itemsText)

/-- Two texts settle as the same. -/
def Json.SettlesAlike {α : Type} (item : Reader α) (t t' : Text) : Prop :=
  ∃ o, Settles item t o ∧ Settles item t' o

namespace Wire

open Json (SettlesAlike)

variable {α β σ : Type}

/-! ## Loops -/

/-- Elements whose texts settle alike one by one settle alike together. -/
theorem settlesItems_alike {item : Reader α} {alike : Json → Json → Prop}
    (hitem : ∀ v v', alike v v' → SettlesAlike item v.toText v'.toText) {vs vs' : List Json}
    (h : List.Forall₂ alike vs vs') :
    ∃ o, SettlesItems item (vs.map Json.toText) o ∧ SettlesItems item (vs'.map Json.toText) o := by
  induction h with
  | nil => exact ⟨.ok [], .nil, .nil⟩
  | @cons v v' vs vs' hv _ ih =>
    have hbegins := Json.beginsWith_toText
    obtain ⟨o, ho, ho'⟩ := hitem v v' hv
    obtain ⟨o', hrest, hrest'⟩ := ih
    cases o with
    | error fault => exact ⟨.error fault, .fail (hbegins v) ho, .fail (hbegins v') ho'⟩
    | ok a => exact ⟨_, .cons (hbegins v) ho hrest, .cons (hbegins v') ho' hrest'⟩

/-- Members whose texts settle alike one by one settle alike together, if those that are not accepted
leave nothing behind. -/
theorem settlesMembers_alike {step : σ → String → Reader σ} {accept : String → Bool}
    {alike : String → Json → Json → Prop}
    (hkeep : ∀ acc name v v', alike name v v' →
      SettlesAlike (step acc name) (Byte.colon :: v.toText) (Byte.colon :: v'.toText))
    (hpass : ∀ acc name (v : Json), accept name = false →
      Reads (step acc name) (Byte.colon :: v.toText) acc)
    {ms ms' : Members} (h : MembersAlike accept alike ms ms') (acc : σ) :
    ∃ o, SettlesMembers .keep step acc (ms.map fun m => (m.1, m.2.toText)) o ∧
      SettlesMembers .keep step acc (ms'.map fun m => (m.1, m.2.toText)) o := by
  induction h generalizing acc with
  | nil => exact ⟨.ok acc, .nil acc, .nil acc⟩
  | @keep name v v' ms ms' hm _ ih =>
    obtain ⟨o, ho, ho'⟩ := hkeep acc name v v' hm
    cases o with
    | error fault => exact ⟨.error fault, .fail ho, .fail ho'⟩
    | ok acc' =>
      obtain ⟨o, hrest, hrest'⟩ := ih acc'
      exact ⟨o, .cons ho hrest, .cons ho' hrest'⟩
  | removed hm _ ih =>
    obtain ⟨o, ho, ho'⟩ := ih acc
    exact ⟨o, .cons (hpass acc _ _ hm) ho, ho'⟩
  | added hm _ ih =>
    obtain ⟨o, ho, ho'⟩ := ih acc
    exact ⟨o, ho, .cons (hpass acc _ _ hm) ho'⟩

/-! ## Parts of shapes -/

/-- What settles settles alike to itself. -/
theorem settlesAlike_self {item : Reader α} {t : Text} (h : ∃ o, Settles item t o) :
    SettlesAlike item t t := by
  obtain ⟨o, ho⟩ := h
  exact ⟨o, ho, ho⟩

/-- Every scalar is refused behind its end, or for its own fault. -/
theorem exists_settles_refuseScalar {v : Json} (hv : v.IsScalar) :
    ∃ o, Settles (refuseScalar : Reader α) v.toText o := by
  obtain ⟨o, ho, -⟩ := Json.settled_scalar .keep hv
  exact ⟨_, ho.andThen (fun _ _ => .error .shape) (fun _ => .error .shape) fun _ _ => rfl⟩

/-- Every scalar settles where one is wanted. -/
theorem exists_settles_scalarOf_of_scalar (pick? : Json → Option α) {v : Json} (hv : v.IsScalar) :
    ∃ o, Settles (scalarOf pick?) v.toText o := by
  obtain ⟨o, ho, -⟩ := Json.settled_scalar .keep hv
  refine ⟨o.bind fun v => (pick? v).elim (.error .shape) .ok,
    Json.Settles.dispatch hv fun rest hrest => ?_⟩
  simp only [ho rest hrest, bind, Except.bind]
  cases o with
  | error fault => rfl
  | ok v =>
    simp only [Except.map]
    cases pick? v <;> rfl

/-- Every value settles where a scalar is wanted. -/
theorem exists_settles_scalarOf (pick? : Json → Option α) (v : Json) :
    ∃ o, Settles (scalarOf pick?) v.toText o := by
  cases v with
  | array items => exact ⟨.error .shape, Json.settles_bracketed fun _ => rfl⟩
  | object ms => exact ⟨.error .shape, Json.settles_braced fun _ => rfl⟩
  | _ => exact exists_settles_scalarOf_of_scalar pick? (by trivial)

/-- Every value that is no array settles where one is wanted. -/
theorem exists_settles_list {depth : Nat} {item : (depth : Nat) → Reader α} {v : Json}
    (hv : ∀ vs, v ≠ .array vs) : ∃ o, Settles (list depth item) v.toText o := by
  have hscalar (v : Json) (hv : v.IsScalar) : ∃ o, Settles (list depth item) v.toText o := by
    obtain ⟨o, ho⟩ := exists_settles_refuseScalar (α := List α) hv
    exact ⟨o, ho.dispatch hv⟩
  cases v with
  | array vs => exact absurd rfl (hv vs)
  | object ms => exact ⟨.error .shape, Json.settles_braced fun _ => rfl⟩
  | _ => exact hscalar _ (by trivial)

/-- Alike elements of an array settle alike. -/
theorem settlesAlike_list {depth : Nat} {item : (depth : Nat) → Reader α}
    {alike : Json → Json → Prop}
    (hitem : ∀ depth v v', alike v v' → SettlesAlike (item depth) v.toText v'.toText) {v v' : Json}
    (h : ElementsAlike alike v v') : SettlesAlike (list depth item) v.toText v'.toText := by
  rcases h.cases with ⟨vs, vs', rfl, rfl, hall⟩ | ⟨hne, rfl⟩
  · rw [Json.toText, Json.toText, Json.itemTexts_eq_map, Json.itemTexts_eq_map]
    cases depth with
    | zero =>
      exact ⟨.error .malformed, Json.settles_bracketed fun _ => rfl,
        Json.settles_bracketed fun _ => rfl⟩
    | succ depth =>
      obtain ⟨o, ho, ho'⟩ := settlesItems_alike (hitem depth) hall
      exact ⟨o, settles_items ho, settles_items ho'⟩
  · exact settlesAlike_self (exists_settles_list hne)

/-- Values that are null together, and settle alike, settle alike where null is nothing. -/
theorem settlesAlike_nullable {item : Reader α} {v v' : Json} (hnull : v' = .null ↔ v = .null)
    (h : SettlesAlike item v.toText v'.toText) :
    SettlesAlike (nullable item) v.toText v'.toText := by
  by_cases hv : v = .null
  · rw [hv, hnull.mpr hv]
    exact settlesAlike_self ⟨.ok none, fun _ _ => rfl⟩
  · obtain ⟨o, ho, ho'⟩ := h
    exact ⟨o.map some, settles_nullable (beginsWith_opensPresent hv) ho,
      settles_nullable (beginsWith_opensPresent (mt hnull.mp hv)) ho'⟩

/-- A field whose value settles alike is filled alike, or not for the second time. -/
theorem settlesAlike_fillSlot {item : Reader α} {t t' : Text} (h : SettlesAlike item t t')
    (slot : Option α) :
    SettlesAlike (fillSlot slot item) (Byte.colon :: t) (Byte.colon :: t') := by
  obtain ⟨o, ho, ho'⟩ := h
  cases slot with
  | some a => exact ⟨.error .shape, fun _ _ => rfl, fun _ _ => rfl⟩
  | none => exact ⟨o.map some, settles_fillSlot ho, settles_fillSlot ho'⟩

/-- What goes on alike behind texts that settle alike settles alike. -/
theorem SettlesAlike.andThen {item : Reader α} {t t' : Text} (h : SettlesAlike item t t')
    (go : α → Text → Except Fault (β × Text)) (out : α → Except Fault β)
    (hgo : ∀ a rest, go a rest = (out a).map fun b => (b, rest)) :
    SettlesAlike (fun s => (item s).bind fun p => go p.1 p.2) t t' := by
  obtain ⟨o, ho, ho'⟩ := h
  exact ⟨_, ho.andThen go out hgo, ho'.andThen go out hgo⟩

/-- A member settles alike if it does for the first field of a record, where that accepts it, and else
for the fields behind. -/
theorem settlesAlike_pairMember {f : FieldName} {item : Reader α} {rest : σ → Reader σ}
    {name : String} {slots : Option α × σ} {t t' : Text}
    (hitem : f.accepts name = true → SettlesAlike item t t')
    (hrest : f.accepts name = false →
      SettlesAlike (rest slots.2) (Byte.colon :: t) (Byte.colon :: t')) :
    SettlesAlike (pairMember f item rest name slots) (Byte.colon :: t) (Byte.colon :: t') := by
  unfold pairMember
  cases hname : f.accepts name with
  | true =>
    simp only [if_true]
    exact SettlesAlike.andThen (settlesAlike_fillSlot (hitem hname) slots.1) _
      (fun slot => .ok (slot, slots.2)) fun _ _ => rfl
  | false =>
    simp only [Bool.false_eq_true, if_false]
    exact SettlesAlike.andThen (hrest hname) _ (fun rest => .ok (slots.1, rest)) fun _ _ => rfl

/-! ## Arrays that list fields -/

/-- What a reader of the elements that are left makes of these, up to the closing bracket. -/
def SettlesRest (item : (first : Bool) → Reader α) (vs : List Json) (o : Except Fault α) : Prop :=
  ∀ first rest, item first (itemsText first (vs.map Json.toText) ++ Byte.closeBracket :: rest) =
    o.map fun a => (a, rest)

/-- An array with more elements than there are fields is not closed behind the last field. -/
theorem closeItems_itemsText_cons (v : Json) (ts : List Text) (first : Bool) (rest : Text) :
    closeItems (itemsText first (v.toText :: ts) ++ Byte.closeBracket :: rest) =
      .error .malformed := by
  cases first with
  | false => rfl
  | true =>
    have htext : itemsText true (v.toText :: ts) = v.toText ++ Json.commaEach ts :=
      Json.separated_cons _ _
    obtain ⟨b, r, hv, hb⟩ := Json.beginsWith_toText v
    rw [htext, List.append_assoc, closeItems, Json.dropBlanks_append ⟨b, r, hv, hb⟩, hv]
    exact if_neg (Json.ne_of_opensValue (.inl rfl) hb)

/-- Behind the last field only the closing bracket is read. -/
theorem exists_settlesRest_done (levels : Nat) (vs : List Json) :
    ∃ o, SettlesRest (Fields.done.readItems levels) vs o := by
  cases vs with
  | nil =>
    refine ⟨.ok (), fun first rest => ?_⟩
    cases first <;> rfl
  | cons v vs =>
    refine ⟨.error .malformed, fun first rest => ?_⟩
    rw [List.map_cons, Fields.readItems, closeItems_itemsText_cons]
    rfl

/-- Without elements the first field of a record is absent, and the fields behind it have none
either. -/
theorem exists_settlesRest_pairItems_nil {item : Reader α} {rest : (first : Bool) → Reader β}
    (absent : Option α) (h : ∃ o, SettlesRest rest [] o) :
    ∃ o, SettlesRest (pairItems absent item rest) [] o := by
  obtain ⟨o, ho⟩ := h
  cases absent with
  | none =>
    refine ⟨.error .shape, fun first t => ?_⟩
    simp only [pairItems, List.map_nil, Json.another_itemsText_nil (.inl rfl), bind, Except.bind]
    rfl
  | some a =>
    refine ⟨o.map fun b => (a, b), fun first t => ?_⟩
    have htext : itemsText first ([].map Json.toText) ++ Byte.closeBracket :: t =
        Byte.closeBracket :: t := by
      cases first <;> rfl
    have hlast := ho first t
    rw [htext] at hlast
    simp only [pairItems, List.map_nil, Json.another_itemsText_nil (.inl rfl), bind, Except.bind,
      Bool.false_eq_true, if_false, hlast]
    cases o <;> rfl

/-- The first element is read as the first field of a record, and those behind it as the others. -/
theorem settlesRest_pairItems_cons {item : Reader α} {rest : (first : Bool) → Reader β} {v : Json}
    {vs : List Json} {o : Except Fault α} {o' : Except Fault β} (absent : Option α)
    (hv : Settles item v.toText o) (hvs : SettlesRest rest vs o') :
    SettlesRest (pairItems absent item rest) (v :: vs) (o.bind fun a => o'.map fun b => (a, b)) := by
  intro first t
  have hends : Json.Ends (itemsText false (vs.map Json.toText) ++ Byte.closeBracket :: t) :=
    Json.ends_commaEach (.inl rfl) _ t
  simp only [pairItems, List.map_cons,
    Json.another_itemsText_cons (.inl rfl) (Json.beginsWith_toText v), bind, Except.bind, if_true,
    hv _ hends]
  cases o with
  | error fault => rfl
  | ok a =>
    have hlast := hvs false t
    simp only [Except.map, hlast]
    cases o' <;> rfl

/-- Alike elements settle alike as the fields of a record, if the first does as the first field and
those behind it as the others. -/
theorem settlesRest_pairItems {item : Reader α} {rest : (first : Bool) → Reader β}
    {alike : Json → Json → Prop} {alikeRest : List Json → List Json → Prop} (absent : Option α)
    (hitem : ∀ v v', alike v v' → SettlesAlike item v.toText v'.toText)
    (hself : ∀ vs, alikeRest vs vs)
    (hrest : ∀ vs vs', alikeRest vs vs' → ∃ o, SettlesRest rest vs o ∧ SettlesRest rest vs' o)
    {vs vs' : List Json} (h : PairAlike alike alikeRest vs vs') :
    ∃ o, SettlesRest (pairItems absent item rest) vs o ∧
      SettlesRest (pairItems absent item rest) vs' o := by
  rcases h.cases with ⟨rfl, rfl⟩ | ⟨v, ws, v', ws', rfl, rfl, hv, hws⟩
  · obtain ⟨o, ho, -⟩ := hrest [] [] (hself [])
    obtain ⟨o', ho'⟩ := exists_settlesRest_pairItems_nil absent ⟨o, ho⟩
    exact ⟨o', ho', ho'⟩
  · obtain ⟨o, ho, ho'⟩ := hitem v v' hv
    obtain ⟨o', hothers, hothers'⟩ := hrest ws ws' hws
    exact ⟨_, settlesRest_pairItems_cons absent ho hothers,
      settlesRest_pairItems_cons absent ho' hothers'⟩

/-! ## Shapes -/

/-- A member that no field accepts is passed over, whatever it holds. -/
theorem Fields.reads_step_of_not_accept {fs : Fields} {levels : Nat} {name : String}
    (hname : fs.accept name = false) (slots : fs.Slots) (v : Json) :
    Reads (fs.step levels slots name) (Byte.colon :: v.toText) slots := by
  intro rest hrest
  have hskip := Json.skip_toText v hrest
  simp only [step, hname, Bool.false_eq_true, if_false]
  exact bind_eq_ok_iff.mpr ⟨v.toText ++ rest, rfl, bind_eq_ok_iff.mpr ⟨rest, hskip, rfl⟩⟩

/-- Every value that is neither an array nor an object settles where a record is wanted. -/
theorem exists_settles_record {fields : Fields} {levels : Nat} {v : Json} (hv : v.IsScalar) :
    ∃ o, Settles ((Shape.record fields).read levels) v.toText o := by
  obtain ⟨o, ho⟩ := exists_settles_refuseScalar (α := fields.Value) hv
  exact ⟨o, ho.dispatch hv⟩

/-- Every value settles where an object or a string is wanted. -/
theorem exists_settles_objectOrString (levels : Nat) (v : Json) :
    ∃ o, Settles (Shape.objectOrString.read levels) v.toText o := by
  obtain ⟨o, ho, -⟩ := Json.settled_value .keep levels v
  refine ⟨o.bind fun v => (Shape.objectOrString.ofJson? v).elim (.error .shape) .ok,
    fun rest hrest => ?_⟩
  simp only [Shape.read, ho rest hrest, bind, Except.bind]
  cases o with
  | error fault => rfl
  | ok w =>
    simp only [Except.map]
    cases w <;> rfl

/-- A member settles alike in a record if it does for the field of its name. -/
theorem Fields.settlesAlike_step {fs : Fields} {levels : Nat} {name : String} {slots : fs.Slots}
    {v v' : Json}
    (h : fs.accept name = true → SettlesAlike (fs.readMember levels name slots)
      (Byte.colon :: v.toText) (Byte.colon :: v'.toText)) :
    SettlesAlike (fs.step levels slots name) (Byte.colon :: v.toText) (Byte.colon :: v'.toText) := by
  cases hname : fs.accept name with
  | false =>
    exact ⟨.ok slots, fs.reads_step_of_not_accept hname slots v,
      fs.reads_step_of_not_accept hname slots v'⟩
  | true =>
    unfold Fields.step
    simp only [hname, if_true]
    exact h hname

/-- A member settles in an open record if it does for the field of its name. -/
theorem Fields.exists_settles_openStep {fs : Fields} {levels : Nat} {name : String}
    {acc : fs.Slots × Members} {v : Json}
    (h : ∃ o, Settles (fs.readMember levels name acc.1) (Byte.colon :: v.toText) o) :
    ∃ o, Settles (fs.openStep levels acc name) (Byte.colon :: v.toText) o := by
  unfold Fields.openStep
  cases fs.accept name with
  | true =>
    obtain ⟨o, ho⟩ := h
    exact ⟨_, ho.andThen _ (fun slots => .ok (slots, acc.2)) fun _ _ => rfl⟩
  | false =>
    obtain ⟨o, ho, -⟩ := Json.settled_value .keep levels v
    exact ⟨_, (ho.addMember name acc.2).andThen _ (fun extra => .ok (acc.1, extra)) fun _ _ => rfl⟩

/-- Every value settles where an open record is wanted, if members do for the fields of their names.
-/
theorem exists_settles_openRecord {fields : Fields} (levels : Nat) (v : Json)
    (h : ∀ levels name slots (v : Json),
      ∃ o, Settles (fields.readMember levels name slots) (Byte.colon :: v.toText) o) :
    ∃ o, Settles ((Shape.openRecord fields).read levels) v.toText o := by
  have hscalar (v : Json) (hv : v.IsScalar) :
      ∃ o, Settles ((Shape.openRecord fields).read levels) v.toText o := by
    obtain ⟨o, ho⟩ := exists_settles_refuseScalar (α := fields.Value × Members) hv
    exact ⟨o, ho.dispatch hv⟩
  cases v with
  | array vs => exact ⟨.error .shape, Json.settles_bracketed fun _ => rfl⟩
  | object ms =>
    rw [Json.toText, Json.memberTexts_eq_map]
    cases levels with
    | zero => exact ⟨.error .malformed, Json.settles_braced fun _ => rfl⟩
    | succ levels =>
      have hkeep (acc : fields.Slots × Members) (name : String) (v v' : Json) (hv : v = v') :
          SettlesAlike (fields.openStep levels acc name) (Byte.colon :: v.toText)
            (Byte.colon :: v'.toText) :=
        hv ▸ settlesAlike_self (fields.exists_settles_openStep (h levels name acc.1 v))
      -- Nothing is passed over, so that every member is held against itself.
      have hsame : MembersAlike (fun _ => true) (fun _ => Eq) ms ms := .refl (fun _ _ => rfl) ms
      obtain ⟨o, ho, -⟩ := settlesMembers_alike hkeep (fun _ _ _ hname => by cases hname) hsame
        (fields.vacant, [])
      exact ⟨_, Shape.settles_openRecord ho⟩
  | _ => exact hscalar _ (by trivial)

mutual

/-- The texts of alike values settle alike. -/
theorem Shape.settlesAlike : (s : Shape) → (levels : Nat) → (v v' : Json) → s.Alike v v' →
    SettlesAlike (fun t => s.read levels t) v.toText v'.toText
  | .string, _, v, _, h => h ▸ settlesAlike_self (exists_settles_scalarOf Json.string? v)
  | .number, _, v, _, h => h ▸ settlesAlike_self (exists_settles_scalarOf Json.number? v)
  | .any, levels, v, _, h => h ▸ settlesAlike_self (Json.settled_value .keep levels v).settles
  | .objectOrString, levels, v, _, h => by
    exact h ▸ settlesAlike_self (exists_settles_objectOrString levels v)
  | .list item, levels, v, v', h =>
    settlesAlike_list (fun levels v v' h => item.settlesAlike levels v v' h) h
  | .record fields, levels, v, v', h => by
    rcases Shape.alike_record_cases h with ⟨ms, ms', rfl, rfl, h⟩ | ⟨vs, vs', rfl, rfl, h⟩ | ⟨hv, rfl⟩
    · rw [Json.toText, Json.toText, Json.memberTexts_eq_map, Json.memberTexts_eq_map]
      cases levels with
      | zero =>
        exact ⟨.error .malformed, Json.settles_braced fun _ => rfl, Json.settles_braced fun _ => rfl⟩
      | succ levels =>
        obtain ⟨o, ho, ho'⟩ := settlesMembers_alike
          (fun slots name v v' hv => fields.settlesAlike_step
            (fun _ => fields.settlesAlike_member levels name slots v v' hv))
          (fun slots name v hname => fields.reads_step_of_not_accept hname slots v) h fields.vacant
        exact ⟨_, Shape.settles_record ho, Shape.settles_record ho'⟩
    · rw [Json.toText, Json.toText, Json.itemTexts_eq_map, Json.itemTexts_eq_map]
      cases levels with
      | zero =>
        exact ⟨.error .malformed, Json.settles_bracketed fun _ => rfl,
          Json.settles_bracketed fun _ => rfl⟩
      | succ levels =>
        obtain ⟨o, ho, ho'⟩ := fields.settlesAlike_items levels vs vs' h
        exact ⟨o, Json.settles_bracketed (ho true), Json.settles_bracketed (ho' true)⟩
    · exact settlesAlike_self (exists_settles_record hv)
  | .openRecord fields, levels, v, _, h => by
    have hv := exists_settles_openRecord levels v fun levels name slots v => by
      obtain ⟨o, ho, -⟩ :=
        fields.settlesAlike_member levels name slots v v (fields.alikeAt_refl name v)
      exact ⟨o, ho⟩
    rw [Shape.Alike.eq_def] at h
    exact h ▸ settlesAlike_self hv

/-- The texts of two members whose values are alike for the field of their name settle alike. -/
theorem Fields.settlesAlike_member : (fs : Fields) → (levels : Nat) → (name : String) →
    (slots : fs.Slots) → (v v' : Json) → fs.AlikeAt name v v' →
    SettlesAlike (fs.readMember levels name slots) (Byte.colon :: v.toText) (Byte.colon :: v'.toText)
  | .done, _, _, _, _, _, _ => ⟨.error .shape, fun _ _ => rfl, fun _ _ => rfl⟩
  | .required f s rest, levels, name, slots, v, v', h =>
    settlesAlike_pairMember
      (fun hname => s.settlesAlike levels v v' (by simpa [Fields.AlikeAt, hname] using h))
      (fun hname => rest.settlesAlike_member levels name slots.2 v v'
        (by simpa [Fields.AlikeAt, hname] using h))
  | .optional f s rest, levels, name, slots, v, v', h =>
    settlesAlike_pairMember
      (fun hname => by
        have hv : s.Alike v v' := by simpa [Fields.AlikeAt, hname] using h
        exact settlesAlike_nullable hv.null_iff (s.settlesAlike levels v v' hv))
      (fun hname => rest.settlesAlike_member levels name slots.2 v v'
        (by simpa [Fields.AlikeAt, hname] using h))
  | .repeated f s rest, levels, name, slots, v, v', h =>
    settlesAlike_pairMember
      (fun hname => settlesAlike_list (fun levels v v' h => s.settlesAlike levels v v' h)
        (by simpa [Fields.AlikeAt, hname] using h))
      (fun hname => rest.settlesAlike_member levels name slots.2 v v'
        (by simpa [Fields.AlikeAt, hname] using h))

/-- Alike elements settle alike as the fields that they list. -/
theorem Fields.settlesAlike_items : (fs : Fields) → (levels : Nat) → (vs vs' : List Json) →
    fs.AlikeItems vs vs' →
    ∃ o, SettlesRest (fs.readItems levels) vs o ∧ SettlesRest (fs.readItems levels) vs' o
  | .done, levels, vs, _, h => by
    obtain ⟨o, ho⟩ := exists_settlesRest_done levels vs
    exact h ▸ ⟨o, ho, ho⟩
  | .required _ s rest, levels, vs, vs', h =>
    settlesRest_pairItems none (fun v v' h => s.settlesAlike levels v v' h) rest.alikeItems_refl
      (fun vs vs' h => rest.settlesAlike_items levels vs vs' h) h
  | .optional _ s rest, levels, vs, vs', h =>
    settlesRest_pairItems (some none)
      (fun v v' h => settlesAlike_nullable (Shape.Alike.null_iff h) (s.settlesAlike levels v v' h))
      rest.alikeItems_refl (fun vs vs' h => rest.settlesAlike_items levels vs vs' h) h
  | .repeated _ s rest, levels, vs, vs', h =>
    settlesRest_pairItems (some [])
      (fun v v' h => settlesAlike_list (fun levels v v' h => s.settlesAlike levels v v' h) h)
      rest.alikeItems_refl (fun vs vs' h => rest.settlesAlike_items levels vs vs' h) h

end

/-- The texts of alike values are read as the same value of a format, or refused for the same fault.
-/
theorem ofText_alike [Wire α] {v v' : Json} (h : (Wire.shape α).Alike v v') :
    (Wire.ofText v'.toText : Except Fault α) = Wire.ofText v.toText := by
  obtain ⟨o, ho, ho'⟩ := (Wire.shape α).settlesAlike Json.maxDepth v v' h
  have hcomplete {t : Text} (ht : Settles ((Wire.shape α).read Json.maxDepth) t o) :
      Json.complete ((Wire.shape α).read Json.maxDepth) t = o := by
    have hall := ht [] Json.ends_nil
    rw [List.append_nil] at hall
    rw [Json.complete, hall]
    cases o <;> rfl
  rw [Wire.ofText, Wire.ofText, hcomplete ho, hcomplete ho']

/-- Alike values are read as the same value of a format whose fields are told apart, or both
refused. -/
theorem ofJson?_alike [Wire α] (hd : (Wire.shape α).isDistinct = true) {v v' : Json}
    (h : (Wire.shape α).Alike v v') : (Wire.ofJson? v' : Option α) = Wire.ofJson? v :=
  congrArg (Option.map Wire.ofValue) ((Wire.shape α).ofJson?_alike hd v v' h)

end Wire

end OlmReceiver
