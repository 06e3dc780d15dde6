import OlmReceiver.Proofs.DirectReading

/-!
# What a value is read as is read off its text

A value has its members in the order of their names and may have more of them than a record has
fields, or it may list the fields in an array. Whatever a distinct shape reads off a legible value
it reads off the text of that value too.

The members of an object are read in step with the dictionary of those before: the slots hold what
the fields see in it, and the whole object says what the next one is read as.
-/

namespace OlmReceiver

namespace Json

variable {α σ : Type}

/-- Members are read one by one if each can be read on what a relation says of those before it. -/
theorem readsMembers_of_steps (R : σ → Members → Prop) {step : σ → String → Reader σ} {ms : Members}
    (hstep : ∀ earlier m later acc, ms = earlier ++ m :: later → R acc earlier →
      ∃ acc', Reads (step acc m.1) (Byte.colon :: m.2.toText) acc' ∧ R acc' (earlier ++ [m]))
    {acc : σ} (hacc : R acc []) :
    ∃ acc', ReadsMembers step acc (ms.map fun m => (m.1, m.2.toText)) acc' ∧ R acc' ms := by
  -- The members that are left are read by induction; those that are read wander to the front.
  suffices hall : ∀ (later earlier : Members) (acc : σ), ms = earlier ++ later → R acc earlier →
      ∃ acc', ReadsMembers step acc (later.map fun m => (m.1, m.2.toText)) acc' ∧ R acc' ms from
    hall ms [] acc rfl hacc
  intro later
  induction later with
  | nil =>
    intro earlier acc hms hacc
    rw [List.append_nil] at hms
    exact ⟨acc, .nil acc, hms ▸ hacc⟩
  | cons m later ih =>
    intro earlier acc hms hacc
    obtain ⟨acc₁, hread, hacc₁⟩ := hstep earlier m later acc hms hacc
    obtain ⟨acc', hrest, hacc'⟩ := ih (earlier ++ [m]) acc₁ (by simpa using hms) hacc₁
    exact ⟨acc', .cons hread hrest, hacc'⟩

/-- Of members in order, each one is added behind those before it. -/
theorem insert_earlier {earlier later : Members} {m : String × Json}
    (h : Dictionary.Ordered (earlier ++ m :: later)) :
    Dictionary.insert m.1 m.2 earlier = earlier ++ [m] :=
  Dictionary.insert_last fun e he => (List.pairwise_append.mp h).2.2 e he m List.mem_cons_self

/-- The elements of an array are read one by one if each is read off its own text. -/
theorem readsItems_of_mapM {item : Reader α} {item? : Json → Option α} {vs : List Json} {as : List α}
    (h : ∀ v ∈ vs, ∀ a, item? v = some a → Reads item v.toText a)
    (has : vs.mapM item? = some as) : ReadsItems item (vs.map toText) as := by
  have hall := Wire.mapM_eq_some_iff.mp has
  clear has
  induction hall with
  | nil => exact .nil
  | @cons v a vs as ha _ ih =>
    exact .cons (beginsWith_toText v) (h v List.mem_cons_self a ha)
      (ih fun v' hv' => h v' (List.mem_cons_of_mem v hv'))

end Json

namespace Wire

open Json (Reader Reads ReadsMembers BeginsWith Members itemsText opensValue)

variable {α : Type} {levels : Nat}

/-! ## Parts of shapes -/

/-- What a reader of values reads off a legible value, a reader of texts reads off the text of the
value. -/
def ReadsTexts (levels : Nat) (item : Reader α) (item? : Json → Option α) : Prop :=
  ∀ v a, item? v = some a → v.Legible levels → Reads item v.toText a

theorem readsTexts_scalarOf {pick? : Json → Option α}
    (hpick : ∀ v a, pick? v = some a → v.IsScalar) : ReadsTexts levels (scalarOf pick?) pick? :=
  fun v a ha hv => reads_scalarOf (hpick v a ha) hv.integers ha

theorem readsTexts_list {item : (depth : Nat) → Reader α} {item? : Json → Option α}
    (h : ∀ levels, ReadsTexts levels (item levels) item?) (levels : Nat) :
    ReadsTexts levels (list levels item) (elements? item?) := by
  intro v as has hv
  cases v with
  | array vs =>
    cases levels with
    | zero => exact hv.nests.elim
    | succ levels =>
      rw [Json.toText, Json.itemTexts_eq_map]
      exact reads_items (Json.readsItems_of_mapM
        (fun v hmem a ha => h levels v a ha (hv.of_mem_array hmem)) has)
  | _ => cases has

theorem readsTexts_nullable {item : Reader α} {item? : Json → Option α}
    (h : ReadsTexts levels item item?) : ReadsTexts levels (nullable item) (nullable? item?) := by
  intro v a ha hv
  by_cases hnull : v = .null
  · subst hnull
    cases ha
    intro rest _
    rfl
  · rw [nullable?_of_ne_null hnull] at ha
    obtain ⟨a, hread, rfl⟩ := Option.map_eq_some_iff.mp ha
    exact reads_nullable (beginsWith_opensPresent hnull) (h v a hread hv)

/-! ## Members -/

/-- A field that one member belongs to is read off its value, and no earlier member belongs to it. -/
theorem FieldName.optional?_of_accepts {f : FieldName} {absent a : α} {item? : Json → Option α}
    {earlier later : Members} {m : String × Json} (hname : f.accepts m.1 = true)
    (h : f.optional? absent item? (earlier ++ m :: later) = some a) :
    f.values earlier = [] ∧ item? m.2 = some a := by
  have hvalues : f.values (earlier ++ m :: later) =
      f.values earlier ++ m.2 :: f.values later := by
    simp [values, hname]
  unfold optional? at h
  split at h
  · rename_i hnil
    rw [hvalues] at hnil
    simp at hnil
  · rename_i v hone
    rw [hvalues, List.append_eq_singleton_iff] at hone
    rcases hone with ⟨hearlier, hm⟩ | ⟨-, hm⟩
    · obtain ⟨rfl, -⟩ := List.cons.inj hm
      exact ⟨hearlier, h⟩
    · cases hm
  · cases h

/-- A required field is read in the same way as one that may be absent. -/
theorem FieldName.optional?_of_required? {f : FieldName} {item? : Json → Option α} {ms : Members}
    {a : α} (h : f.required? item? ms = some a) (absent : α) :
    f.optional? absent item? ms = some a := by
  unfold required? at h
  split at h
  · rename_i v hone
    exact (optional?_of_values hone).trans h
  · cases h

/-- The slot of a field is filled off the text of its member. -/
theorem reads_fillSlot_of_accepts {f : FieldName} {item : Reader α} {item? : Json → Option α}
    {absent a : α} {earlier later : Members} {m : String × Json} {slot : Option α}
    (hitem : ReadsTexts levels item item?) (hname : f.accepts m.1 = true)
    (hfield : f.optional? absent item? (earlier ++ m :: later) = some a)
    (hslot : SlotHolds f item? earlier slot) (hm : m.2.Legible levels) :
    Reads (fillSlot slot item) (Byte.colon :: m.2.toText) (some a) ∧
      SlotHolds f item? (Dictionary.insert m.1 m.2 earlier) (some a) := by
  obtain ⟨hearlier, hread⟩ := FieldName.optional?_of_accepts hname hfield
  cases hslot with
  | vacant hvalues =>
    exact ⟨reads_fillSlot (hitem m.2 a hread hm),
      (SlotHolds.vacant hvalues).insert_of_accepts hname hread⟩
  | filled hvalues _ =>
    -- A slot that is filled has seen an earlier member of the field.
    rw [hearlier] at hvalues
    cases hvalues

/-- A member is read into the slots of a record, which then hold what its fields read of the member
and of those before it. -/
def Fields.Fills (fs : Fields) (levels : Nat) (earlier : Members) (m : String × Json)
    (slots : fs.Slots) : Prop :=
  ∃ slots', Reads (fs.readMember levels m.1 slots) (Byte.colon :: m.2.toText) slots' ∧
    fs.Sees (Dictionary.insert m.1 m.2 earlier) slots'

/-- The fields of a record are filled off the text of a member that one of them accepts. -/
theorem reads_pairMember {f : FieldName} {rest : Fields} {item : Reader α} {item? : Json → Option α}
    {absent a : α} {earlier later : Members} {m : String × Json} {slot : Option α}
    {slots : rest.Slots} (hitem : ReadsTexts levels item item?)
    (hdistinct : (f.name :: f.aliases).all (fun n => !rest.accept n) = true)
    (hname : (f.accepts m.1 || rest.accept m.1) = true)
    (hfield : f.optional? absent item? (earlier ++ m :: later) = some a)
    (hslot : SlotHolds f item? earlier slot) (hslots : rest.Sees earlier slots)
    (hm : m.2.Legible levels) (hrest : rest.accept m.1 = true → rest.Fills levels earlier m slots) :
    ∃ p, Reads (pairMember f item (fun slots => rest.readMember levels m.1 slots) m.1 (slot, slots))
        (Byte.colon :: m.2.toText) p ∧
      SlotHolds f item? (Dictionary.insert m.1 m.2 earlier) p.1 ∧
        rest.Sees (Dictionary.insert m.1 m.2 earlier) p.2 := by
  cases haccepts : f.accepts m.1 with
  | true =>
    obtain ⟨hread, hslot'⟩ := reads_fillSlot_of_accepts hitem haccepts hfield hslot hm
    refine ⟨(some a, slots), fun t ht => ?_, hslot',
      hslots.insert_of_not_accept (FieldName.not_accept_of_accepts hdistinct haccepts) m.2⟩
    rw [pairMember, if_pos haccepts, hread t ht]
    rfl
  | false =>
    rw [haccepts, Bool.false_or] at hname
    obtain ⟨slots', hread, hslots'⟩ := hrest hname
    refine ⟨(slot, slots'), fun t ht => ?_, hslot.insert_of_not_accepts haccepts m.2, hslots'⟩
    rw [pairMember, if_neg (by simp [haccepts]), hread t ht]
    rfl

/-- A member that no field accepts is passed over. -/
theorem reads_skip {σ : Type} {v : Json} (h : v.Legible levels) (slots : σ) :
    Reads (fun s => (Json.colon s).bind fun s => (Json.skip s).bind fun s => .ok (slots, s))
      (Byte.colon :: v.toText) slots := by
  intro rest hrest
  have hskip : Json.skip (v.toText ++ rest) = .ok rest :=
    Json.skip_of_value (Json.reads_value h rest hrest)
  exact bind_eq_ok_iff.mpr ⟨v.toText ++ rest, rfl, bind_eq_ok_iff.mpr ⟨rest, hskip, rfl⟩⟩

/-! ## Items -/

/-- The fields of a record are read off the text of an array that lists them. -/
theorem reads_pairItems {β : Type} {item : Reader α} {item? : Json → Option α}
    {rest : (first : Bool) → Reader β} {rest? : List Json → Option β} (absent : Option α)
    (hitem : ReadsTexts levels item item?)
    (hrest : ∀ vs b, rest? vs = some b → (∀ v ∈ vs, v.Legible levels) → ∀ first t,
      rest first (itemsText first (vs.map Json.toText) ++ Byte.closeBracket :: t) = .ok (b, t))
    {vs : List Json} {p : α × β} (hp : pairItems? absent item? rest? vs = some p)
    (hvs : ∀ v ∈ vs, v.Legible levels) (first : Bool) (t : Text) :
    pairItems absent item rest first (itemsText first (vs.map Json.toText) ++ Byte.closeBracket :: t) =
      .ok (p, t) := by
  cases vs with
  | nil =>
    obtain ⟨a, rfl, hp⟩ := Option.bind_eq_some_iff.mp hp
    obtain ⟨b, hb, hp⟩ := Option.bind_eq_some_iff.mp hp
    cases hp
    have htext : itemsText first [] ++ Byte.closeBracket :: t = Byte.closeBracket :: t := by
      cases first <;> rfl
    have hread := hrest [] b hb hvs first t
    rw [List.map_nil, htext] at hread
    exact bind_eq_ok_iff.mpr
      ⟨_, Json.another_itemsText_nil (.inl rfl) first t, bind_eq_ok_iff.mpr ⟨_, hread, rfl⟩⟩
  | cons v vs =>
    obtain ⟨hv, hvs⟩ := List.forall_mem_cons.mp hvs
    obtain ⟨a, ha, hp⟩ := Option.bind_eq_some_iff.mp hp
    obtain ⟨b, hb, hp⟩ := Option.bind_eq_some_iff.mp hp
    cases hp
    have hends : Json.Ends (itemsText false (vs.map Json.toText) ++ Byte.closeBracket :: t) :=
      Json.ends_commaEach (.inl rfl) _ t
    exact bind_eq_ok_iff.mpr
      ⟨_, Json.another_itemsText_cons (.inl rfl) (Json.beginsWith_toText v) first _ t,
        bind_eq_ok_iff.mpr ⟨_, hitem v a ha hv _ hends,
          bind_eq_ok_iff.mpr ⟨_, hrest vs b hb hvs false t, rfl⟩⟩⟩

/-! ## Shapes -/

/-- A member of a record fills the slot of its field, or is passed over. -/
theorem reads_step {fs : Fields} {earlier : Members} {m : String × Json} {slots : fs.Slots}
    (hslots : fs.Sees earlier slots) (hm : m.2.Legible levels)
    (hread : fs.accept m.1 = true → fs.Fills levels earlier m slots) :
    ∃ slots', Reads (fs.step levels slots m.1) (Byte.colon :: m.2.toText) slots' ∧
      fs.Sees (Dictionary.insert m.1 m.2 earlier) slots' := by
  unfold Fields.step
  cases hname : fs.accept m.1 with
  | true =>
    simp only [if_true]
    exact hread hname
  | false =>
    simp only [Bool.false_eq_true, if_false]
    exact ⟨slots, reads_skip hm slots, hslots.insert_of_not_accept hname m.2⟩

/-- A member of an open record fills the slot of its field, or is kept. -/
theorem reads_openStep {fs : Fields} {earlier : Members} {m : String × Json}
    {acc : fs.Slots × Members} (hacc : fs.SeesAll acc earlier) (hm : m.2.Legible levels)
    (hread : fs.accept m.1 = true → fs.Fills levels earlier m acc.1) :
    ∃ acc', Reads (fs.openStep levels acc m.1) (Byte.colon :: m.2.toText) acc' ∧
      fs.SeesAll acc' (Dictionary.insert m.1 m.2 earlier) := by
  obtain ⟨hslots, hextra, hordered⟩ := hacc
  unfold Fields.openStep
  cases hname : fs.accept m.1 with
  | true =>
    simp only [if_true]
    obtain ⟨slots', hread, hslots'⟩ := hread hname
    refine ⟨(slots', acc.2), fun t ht => ?_, hslots', ?_, hordered.insert m.1 m.2⟩
    · exact bind_eq_ok_iff.mpr ⟨_, hread t ht, rfl⟩
    · rw [Dictionary.filter_insert_of_dropped (fun n => !fs.accept n) (by simp [hname])]
      exact hextra
  | false =>
    simp only [Bool.false_eq_true, if_false]
    have hkept := Json.reads_addMember (Json.reads_value hm) m.1 acc.2
    refine ⟨(acc.1, Dictionary.insert m.1 m.2 acc.2), fun t ht => ?_,
      hslots.insert_of_not_accept hname m.2, ?_, hordered.insert m.1 m.2⟩
    · exact bind_eq_ok_iff.mpr ⟨_, hkept t ht, rfl⟩
    · rw [Dictionary.filter_insert_of_kept (fun n => !fs.accept n) (by simp [hname]) m.2 hordered,
        hextra]

/-- The members of a legible object are read into the slots of a record, if each that a field
accepts is. -/
theorem readsMembers_of_fills {fs : Fields} {ms : Members} (hms : (Json.object ms).Legible (levels + 1))
    (h : ∀ earlier m later slots, ms = earlier ++ m :: later → fs.Sees earlier slots →
      m.2.Legible levels → fs.accept m.1 = true → fs.Fills levels earlier m slots) :
    ∃ slots, ReadsMembers (fs.step levels) fs.vacant (ms.map fun m => (m.1, m.2.toText)) slots ∧
      fs.Sees ms slots := by
  refine Json.readsMembers_of_steps (fun slots ms => fs.Sees ms slots)
    (fun earlier m later slots hsplit hslots => ?_) fs.sees_vacant
  subst hsplit
  have hm : m.2.Legible levels := hms.of_mem_object (by simp)
  rw [← Json.insert_earlier hms.ordered]
  exact reads_step hslots hm (h earlier m later slots rfl hslots hm)

/-- The members of a legible object are read by an open record, if each that a field accepts is. -/
theorem readsMembers_of_fills_open {fs : Fields} {ms : Members}
    (hms : (Json.object ms).Legible (levels + 1))
    (h : ∀ earlier m later slots, ms = earlier ++ m :: later → fs.Sees earlier slots →
      m.2.Legible levels → fs.accept m.1 = true → fs.Fills levels earlier m slots) :
    ∃ acc, ReadsMembers (fs.openStep levels) (fs.vacant, []) (ms.map fun m => (m.1, m.2.toText)) acc ∧
      fs.SeesAll acc ms := by
  refine Json.readsMembers_of_steps fs.SeesAll (fun earlier m later acc hsplit hacc => ?_)
    ⟨fs.sees_vacant, rfl, List.Pairwise.nil⟩
  subst hsplit
  have hm : m.2.Legible levels := hms.of_mem_object (by simp)
  rw [← Json.insert_earlier hms.ordered]
  exact reads_openStep hacc hm (h earlier m later acc.1 rfl hacc.slots hm)

theorem isScalar_of_string? (v : Json) (x : String) (h : v.string? = some x) : v.IsScalar := by
  cases v with
  | string => trivial
  | _ => cases h

theorem isScalar_of_number? (v : Json) (n : Number) (h : v.number? = some n) : v.IsScalar := by
  cases v with
  | number => trivial
  | _ => cases h

mutual

/-- What a distinct shape reads off a legible value it reads off the text of the value. -/
theorem Shape.readsTexts : (s : Shape) → s.isDistinct = true → (levels : Nat) →
    ReadsTexts levels (fun t => s.read levels t) (fun v => s.ofJson? v)
  | .string, _, _ => fun v x hx hv =>
    readsTexts_scalarOf isScalar_of_string? v x ((Shape.ofJson?_string v).symm.trans hx) hv
  | .number, _, _ => fun v n hn hv =>
    readsTexts_scalarOf isScalar_of_number? v n ((Shape.ofJson?_number v).symm.trans hn) hv
  | .any, _, levels => fun v w hw hv => by
    cases hw
    exact Json.reads_value hv
  | .objectOrString, _, levels => fun v x hx hv => by
    intro rest hrest
    have hread := Json.reads_value hv rest hrest
    cases v with
    | object ms =>
      cases hx
      exact bind_eq_ok_iff.mpr ⟨_, hread, rfl⟩
    | string y =>
      cases hx
      exact bind_eq_ok_iff.mpr ⟨_, hread, rfl⟩
    | _ => cases hx
  | .list item, hd, levels => fun v xs hxs hv =>
    readsTexts_list (fun levels => item.readsTexts hd levels) levels v xs
      ((Shape.ofJson?_list item v).symm.trans hxs) hv
  | .record fields, hd, 0 => fun v x hx hv => by
    cases v with
    | object ms => exact hv.nests.elim
    | array vs => exact hv.nests.elim
    | _ => cases hx
  | .record fields, hd, levels + 1 => fun v x hx hv => by
    cases v with
    | object ms =>
      obtain ⟨slots, hslots, hsees⟩ := readsMembers_of_fills hv
        fun earlier m later slots hsplit hslots =>
          fields.reads_member hd levels x earlier later m slots hslots (hsplit ▸ hx)
      rw [Json.toText, Json.memberTexts_eq_map]
      exact Shape.reads_record hslots (hsees.filled?.trans hx)
    | array vs =>
      intro rest _
      have hitems := fields.reads_items hd levels vs x hx (fun v hmem => hv.of_mem_array hmem) true rest
      rw [Json.toText, Json.itemTexts_eq_map, Json.bracketed_append]
      exact (Json.dispatch_array _ _ _ _).trans hitems
    | _ => cases hx
  | .openRecord fields, hd, 0 => fun v x hx hv => by
    cases v with
    | object ms => exact hv.nests.elim
    | _ => cases hx
  | .openRecord fields, hd, levels + 1 => fun v x hx hv => by
    cases v with
    | object ms =>
      obtain ⟨x', hx', hx⟩ := Option.bind_eq_some_iff.mp hx
      cases hx
      obtain ⟨⟨slots, extra⟩, hacc, hsees⟩ := readsMembers_of_fills_open hv
        fun earlier m later slots hsplit hslots =>
          fields.reads_member hd levels x' earlier later m slots hslots (hsplit ▸ hx')
      obtain rfl : extra = ms.filter fun m => !fields.accept m.1 := hsees.extra
      rw [Json.toText, Json.memberTexts_eq_map]
      exact Shape.reads_openRecord hacc (hsees.slots.filled?.trans hx')
    | _ => cases hx

/-- What the fields of a distinct record are read as from legible elements is read off their texts. -/
theorem Fields.reads_items : (fs : Fields) → fs.isDistinct = true → (levels : Nat) →
    (vs : List Json) → (x : fs.Value) → fs.ofItems? vs = some x → (∀ v ∈ vs, v.Legible levels) →
    (first : Bool) → (t : Text) →
    fs.readItems levels first (itemsText first (vs.map Json.toText) ++ Byte.closeBracket :: t) =
      .ok (x, t)
  | .done, _, levels, vs, x, hx, hvs, first, t => by
    cases vs with
    | nil =>
      cases hx
      cases first <;> rfl
    | cons v vs => cases hx
  | .required f s rest, hd, levels, vs, x, hx, hvs, first, t => by
    simp only [Fields.isDistinct, Bool.and_eq_true] at hd
    refine reads_pairItems none (s.readsTexts hd.1.1 levels)
      (rest.reads_items hd.2 levels) ?_ hvs first t
    cases vs <;> exact hx
  | .optional f s rest, hd, levels, vs, x, hx, hvs, first, t => by
    simp only [Fields.isDistinct, Bool.and_eq_true] at hd
    refine reads_pairItems (some none) (readsTexts_nullable (s.readsTexts hd.1.1 levels))
      (rest.reads_items hd.2 levels) ?_ hvs first t
    cases vs <;> exact hx
  | .repeated f s rest, hd, levels, vs, x, hx, hvs, first, t => by
    simp only [Fields.isDistinct, Bool.and_eq_true] at hd
    refine reads_pairItems (some [])
      (readsTexts_list (fun levels => s.readsTexts hd.1.1 levels) levels)
      (rest.reads_items hd.2 levels) ?_ hvs first t
    cases vs <;> exact hx

/-- A member that a field of a distinct record accepts fills its slot with what the whole object has the
field read as. -/
theorem Fields.reads_member : (fs : Fields) → fs.isDistinct = true → (levels : Nat) →
    (x : fs.Value) → (earlier later : Members) → (m : String × Json) → (slots : fs.Slots) →
    fs.Sees earlier slots → fs.ofMembers? (earlier ++ m :: later) = some x → m.2.Legible levels →
    fs.accept m.1 = true → fs.Fills levels earlier m slots
  | .done, _, _, _, _, _, _, _, _, _, _, haccept => by cases haccept
  | .required f s rest, hd, levels, _, earlier, later, m, (slot, slots), ⟨hslot, hslots⟩, hx, hm,
      haccept => by
    simp only [Fields.isDistinct, Bool.and_eq_true] at hd
    obtain ⟨a, ha, hx⟩ := Option.bind_eq_some_iff.mp hx
    obtain ⟨xs, hxs, -⟩ := Option.bind_eq_some_iff.mp hx
    exact reads_pairMember (s.readsTexts hd.1.1 levels) hd.1.2 haccept
      (FieldName.optional?_of_required? ha a) hslot hslots hm
      (rest.reads_member hd.2 levels xs earlier later m slots hslots hxs hm)
  | .optional f s rest, hd, levels, _, earlier, later, m, (slot, slots), ⟨hslot, hslots⟩, hx, hm,
      haccept => by
    simp only [Fields.isDistinct, Bool.and_eq_true] at hd
    obtain ⟨a, ha, hx⟩ := Option.bind_eq_some_iff.mp hx
    obtain ⟨xs, hxs, -⟩ := Option.bind_eq_some_iff.mp hx
    exact reads_pairMember (readsTexts_nullable (s.readsTexts hd.1.1 levels)) hd.1.2 haccept ha hslot
      hslots hm (rest.reads_member hd.2 levels xs earlier later m slots hslots hxs hm)
  | .repeated f s rest, hd, levels, _, earlier, later, m, (slot, slots), ⟨hslot, hslots⟩, hx, hm,
      haccept => by
    simp only [Fields.isDistinct, Bool.and_eq_true] at hd
    obtain ⟨a, ha, hx⟩ := Option.bind_eq_some_iff.mp hx
    obtain ⟨xs, hxs, -⟩ := Option.bind_eq_some_iff.mp hx
    exact reads_pairMember (readsTexts_list (fun levels => s.readsTexts hd.1.1 levels) levels) hd.1.2
      haccept ha hslot hslots hm
      (rest.reads_member hd.2 levels xs earlier later m slots hslots hxs hm)

end

end Wire

end OlmReceiver
