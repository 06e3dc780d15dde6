import OlmReceiver.Proofs.FieldSlots
import OlmReceiver.Proofs.SkippedText

/-!
# Texts are read as the values that they denote

A text can be read as a shape says, or as raw JSON that is then read as the shape says. Where both ways
succeed, they read the same and leave the same text behind. The direct way may succeed where raw reading
fails, as it only passes over what it does not keep.

Both ways go through the text in step, byte by byte: the loops first, then each shape.
-/

namespace OlmReceiver

namespace Json

variable {α β σ τ : Type} {R : α → β → Prop}

/-- Where both readers succeed, they leave the same text behind, and what they read is related. -/
def Together (R : α → β → Prop) (item : Reader α) (item' : Reader β) : Prop :=
  ∀ ⦃s a r b r'⦄, item s = .ok (a, r) → item' s = .ok (b, r') → r = r' ∧ R a b

/-! ## The loops -/

/-- Elements that are read in step make arrays that are. -/
theorem elements_together {item : Reader α} {item' : Reader β} (h : Together R item item')
    (fuel : Nat) (first : Bool) :
    Together (List.Forall₂ R) (elements item fuel first) (elements item' fuel first) := by
  intro s as r bs r' has hbs
  induction fuel generalizing first s as bs with
  | zero => cases has
  | succ fuel ih =>
    obtain ⟨⟨more, s'⟩, hanother, -⟩ := bind_eq_ok_iff.mp has
    cases more with
    | false =>
      rw [elements_of_done hanother] at has hbs
      cases has
      cases hbs
      exact ⟨rfl, .nil⟩
    | true =>
      rw [elements_of_more hanother] at has hbs
      obtain ⟨⟨a, s₁⟩, ha, has⟩ := bind_eq_ok_iff.mp has
      obtain ⟨⟨as', s₂⟩, has', has⟩ := bind_eq_ok_iff.mp has
      obtain ⟨⟨b, s₁'⟩, hb, hbs⟩ := bind_eq_ok_iff.mp hbs
      obtain ⟨⟨bs', s₂'⟩, hbs', hbs⟩ := bind_eq_ok_iff.mp hbs
      cases has
      cases hbs
      obtain ⟨rfl, hab⟩ := h ha hb
      obtain ⟨hr, hrest⟩ := ih _ has' hbs'
      exact ⟨hr, .cons hab hrest⟩

/-- Members that are read in step, each on what was read of those before it, make objects that are. -/
theorem members_together {R : σ → τ → Prop} {step : σ → String → Reader σ}
    {step' : τ → String → Reader τ}
    (h : ∀ name acc acc', R acc acc' → Together R (step acc name) (step' acc' name)) (fuel : Nat)
    (first : Bool) {acc : σ} {acc' : τ} (hacc : R acc acc') :
    Together R (members .keep step fuel first acc) (members .keep step' fuel first acc') := by
  intro s acc₁ r acc₁' r' hread hread'
  induction fuel generalizing first acc acc' s with
  | zero => cases hread
  | succ fuel ih =>
    obtain ⟨⟨more, s'⟩, hanother, -⟩ := bind_eq_ok_iff.mp hread
    cases more with
    | false =>
      rw [members_of_done hanother] at hread hread'
      cases hread
      cases hread'
      exact ⟨rfl, hacc⟩
    | true =>
      rw [members_of_more hanother] at hread hread'
      obtain ⟨⟨name, s₁⟩, hname, hread⟩ := bind_eq_ok_iff.mp hread
      obtain ⟨⟨acc₂, s₂⟩, hstep, hread⟩ := bind_eq_ok_iff.mp hread
      obtain ⟨⟨name', s₁'⟩, hname', hread'⟩ := bind_eq_ok_iff.mp hread'
      obtain ⟨⟨acc₂', s₂'⟩, hstep', hread'⟩ := bind_eq_ok_iff.mp hread'
      cases hname.symm.trans hname'
      obtain ⟨rfl, hacc₂⟩ := h _ _ _ hacc hstep hstep'
      exact ih _ hacc₂ hread hread'

end Json

namespace Wire

open Json (Reader Together Members)

variable {α : Type} {depth : Nat} {s r : Text}

/-! ## Parts of shapes -/

/-- A reader of texts agrees with a reader of values: where it succeeds on a text that denotes a
value, it reads what the value is read as. -/
def Agrees (depth : Nat) (item : Reader α) (item? : Json → Option α) : Prop :=
  Together (fun a v => item? v = some a) item (Json.value .keep depth)

theorem agrees_scalarOf (depth : Nat) (pick? : Json → Option α) :
    Agrees depth (scalarOf pick?) pick? := by
  intro s a r v r' ha hv
  obtain ⟨b, t, w, hblanks, hbracket, hbrace, hscalar, hpick⟩ := scalarOf_cases ha
  rw [Json.value_of_scalar hblanks hbracket hbrace] at hv
  cases hscalar.symm.trans hv
  exact ⟨rfl, hpick⟩

theorem agrees_list {item : (depth : Nat) → Reader α} {item? : Json → Option α}
    (h : ∀ depth, Agrees depth (item depth) item?) (depth : Nat) :
    Agrees depth (list depth item) (elements? item?) := by
  intro s as r v r' has hv
  obtain ⟨t, depth, hblanks, rfl, hitems⟩ := list_cases has
  obtain ⟨vs, hvs, rfl⟩ := Json.value_of_array hblanks hv
  obtain ⟨hr, hall⟩ := Json.elements_together (h depth) _ _ hitems hvs
  exact ⟨hr, mapM_eq_some_iff.mpr hall.flip⟩

/-- A text that denotes null begins with its word. -/
theorem head?_of_null {v : Json} (h : Json.value .keep depth s = .ok (v, r)) (hv : v = .null) :
    (Text.dropBlanks s).head? = some 'n'.toUInt8 := by
  subst hv
  rcases Json.value_cases h with ⟨b, t, hblanks, -, -, hscalar⟩ | ⟨t, _, _, -, -, -, hnull⟩ |
    ⟨t, _, _, -, -, -, hnull⟩
  · rw [hblanks]
    rcases Json.scalar_cases hscalar with ⟨_, _, -, -, hnull⟩ | ⟨word, hword, hnull⟩ | hnumber
    · cases hnull
    · simp only [List.mem_cons, Prod.mk.injEq, reduceCtorEq, and_true, and_false,
        List.not_mem_nil, or_false] at hnull
      rw [Json.eq_append_of_expect hword, hnull]
      rfl
    · exact absurd rfl (Json.number_ne_null hnumber)
  · cases hnull
  · cases hnull

theorem agrees_nullable {item : Reader α} {item? : Json → Option α} (h : Agrees depth item item?) :
    Agrees depth (nullable item) (nullable? item?) := by
  intro s a r v r' ha hv
  unfold nullable at ha
  split at ha
  · rename_i hhead
    obtain ⟨t, hblanks⟩ : ∃ t, Text.dropBlanks s = 'n'.toUInt8 :: t := List.head?_eq_some_iff.mp hhead
    obtain ⟨r'', hword, ha⟩ := bind_eq_ok_iff.mp ha
    cases ha
    rw [hblanks] at hword
    have hscalar : Json.Token.scalar .keep ('n'.toUInt8 :: t) = .ok (.null, r) :=
      bind_eq_ok_iff.mpr ⟨r, hword, rfl⟩
    rw [Json.value_of_scalar hblanks (by decide) (by decide), hscalar] at hv
    cases hv
    exact ⟨rfl, rfl⟩
  · rename_i hhead
    obtain ⟨⟨a', r''⟩, ha', ha⟩ := bind_eq_ok_iff.mp ha
    cases ha
    obtain ⟨hr, hitem⟩ := h ha' hv
    -- The direct reader tells null by its first byte, the other one by the value.
    have hne : v ≠ .null := fun hnull => hhead (head?_of_null hv hnull)
    refine ⟨hr, ?_⟩
    dsimp only at hitem ⊢
    rw [nullable?_of_ne_null hne, hitem, Option.map_some]

/-- The fields of a record are read off an array in step with its elements. -/
theorem pairItems_together {β : Type} {item : Reader α} {item? : Json → Option α}
    {rest : (first : Bool) → Reader β} {rest? : List Json → Option β} (absent : Option α)
    (hitem : Agrees depth item item?)
    (hrest : ∀ fuel first, Together (fun b vs => rest? vs = some b) (rest first)
      (Json.elements (Json.value .keep depth) fuel first)) (fuel : Nat) (first : Bool) :
    Together (fun p vs => pairItems? absent item? rest? vs = some p)
      (pairItems absent item rest first) (Json.elements (Json.value .keep depth) fuel first) := by
  intro s p r vs r' hp hvs
  cases fuel with
  | zero => cases hvs
  | succ fuel =>
    obtain ⟨⟨more, s'⟩, hanother, hp⟩ := bind_eq_ok_iff.mp hp
    cases more with
    | false =>
      rw [Json.elements_of_done hanother] at hvs
      cases hvs
      cases absent with
      | none => cases hp
      | some a =>
        obtain ⟨⟨b, r''⟩, hb, hp⟩ := bind_eq_ok_iff.mp hp
        cases hp
        -- The closing bracket is still there for the fields behind this one.
        have hnone : Json.elements (Json.value .keep depth) 1 first s' = .ok ([], s'.tail) :=
          Json.elements_of_done (Json.another_of_done (by decide) hanother) 0
        obtain ⟨hr, hread⟩ := hrest _ _ hb hnone
        refine ⟨hr, ?_⟩
        dsimp only at hread ⊢
        rw [pairItems?, hread]
        rfl
    | true =>
      rw [Json.elements_of_more hanother] at hvs
      obtain ⟨⟨a, s₁⟩, ha, hp⟩ := bind_eq_ok_iff.mp hp
      obtain ⟨⟨b, s₂⟩, hb, hp⟩ := bind_eq_ok_iff.mp hp
      obtain ⟨⟨v, s₁'⟩, hv, hvs⟩ := bind_eq_ok_iff.mp hvs
      obtain ⟨⟨vs', s₂'⟩, hvs', hvs⟩ := bind_eq_ok_iff.mp hvs
      cases hp
      cases hvs
      obtain ⟨rfl, hread⟩ := hitem ha hv
      obtain ⟨hr, hreads⟩ := hrest _ _ hb hvs'
      refine ⟨hr, ?_⟩
      dsimp only at hread hreads ⊢
      rw [pairItems?, hread, hreads]
      rfl

/-- A slot is filled with what the value of a first member is read as. -/
theorem fillSlot_together {f : FieldName} {item : Reader α} {item? : Json → Option α} {ms : Members}
    {slot : Option α} {name : String} (hitem : Agrees depth item item?)
    (hslot : SlotHolds f item? ms slot) (hname : f.accepts name = true) :
    Together (fun slot' ms' => SlotHolds f item? ms' slot') (fillSlot slot item)
      (Json.addMember (Json.value .keep depth) ms name) := by
  intro s slot' r ms' r' hfill hadd
  obtain ⟨rfl, t, a, hcolon, ha, rfl⟩ := fillSlot_cases hfill
  obtain ⟨t', v, hcolon', hv, rfl⟩ := Json.addMember_eq_ok_iff.mp hadd
  cases hcolon.symm.trans hcolon'
  obtain ⟨rfl, hread⟩ := hitem ha hv
  exact ⟨rfl, hslot.insert_of_accepts hname hread⟩

/-- The fields of a record are filled in step with the members of the object. -/
theorem pairMember_together {f : FieldName} {rest : Fields} {item : Reader α}
    {item? : Json → Option α} {ms : Members} {slot : Option α} {slots : rest.Slots} {name : String}
    (hitem : Agrees depth item item?)
    (hdistinct : (f.name :: f.aliases).all (fun n => !rest.accept n) = true)
    (hslot : SlotHolds f item? ms slot) (hslots : rest.Sees ms slots)
    (hrest : Together (fun slots' ms' => rest.Sees ms' slots') (rest.readMember depth name slots)
      (Json.addMember (Json.value .keep depth) ms name)) :
    Together (fun p ms' => SlotHolds f item? ms' p.1 ∧ rest.Sees ms' p.2)
      (pairMember f item (fun slots => rest.readMember depth name slots) name (slot, slots))
      (Json.addMember (Json.value .keep depth) ms name) := by
  intro s p r ms' r' hp hadd
  obtain ⟨t, v, -, -, rfl⟩ := Json.addMember_eq_ok_iff.mp hadd
  unfold pairMember at hp
  split at hp
  · rename_i hname
    obtain ⟨⟨slot', r''⟩, hfill, hp⟩ := bind_eq_ok_iff.mp hp
    cases hp
    obtain ⟨hr, hslot'⟩ := fillSlot_together hitem hslot hname hfill hadd
    exact ⟨hr, hslot',
      hslots.insert_of_not_accept (FieldName.not_accept_of_accepts hdistinct hname) v⟩
  · rename_i hname
    obtain ⟨⟨slots', r''⟩, hread, hp⟩ := bind_eq_ok_iff.mp hp
    cases hp
    obtain ⟨hr, hslots'⟩ := hrest hread hadd
    exact ⟨hr, hslot.insert_of_not_accepts (Bool.eq_false_iff.mpr hname) v, hslots'⟩

/-- Behind the name of a member that no field accepts, the slots are left alone. -/
theorem skip_together {fs : Fields} {ms : Members} {slots : fs.Slots} {name : String}
    (hname : fs.accept name = false) (hslots : fs.Sees ms slots) :
    Together (fun slots' ms' => fs.Sees ms' slots')
      (fun s => (Json.colon s).bind fun s => (Json.skip s).bind fun s => .ok (slots, s))
      (Json.addMember (Json.value .keep depth) ms name) := by
  intro s slots' r ms' r' hskip hadd
  obtain ⟨t, hcolon, hskip⟩ := bind_eq_ok_iff.mp hskip
  obtain ⟨t', hskip', h⟩ := bind_eq_ok_iff.mp hskip
  obtain ⟨t₁, v, hcolon', hv, rfl⟩ := Json.addMember_eq_ok_iff.mp hadd
  cases h
  cases hcolon.symm.trans hcolon'
  cases hskip'.symm.trans (Json.skip_of_value hv)
  exact ⟨rfl, hslots.insert_of_not_accept hname v⟩

/-- The members of a record are read in step with those of the object. -/
theorem step_together {fs : Fields} {ms : Members} {slots : fs.Slots} {name : String}
    (hslots : fs.Sees ms slots)
    (hread : Together (fun slots' ms' => fs.Sees ms' slots') (fs.readMember depth name slots)
      (Json.addMember (Json.value .keep depth) ms name)) :
    Together (fun slots' ms' => fs.Sees ms' slots') (fs.step depth slots name)
      (Json.addMember (Json.value .keep depth) ms name) := by
  intro s slots' r ms' r' hstep hadd
  unfold Fields.step at hstep
  cases hname : fs.accept name with
  | true =>
    rw [hname, if_pos rfl] at hstep
    exact hread hstep hadd
  | false =>
    rw [hname, if_neg Bool.false_ne_true] at hstep
    exact skip_together hname hslots hstep hadd

/-- What an open record has read of some members: its slots, and all members that no field accepts. -/
structure Fields.SeesAll (fs : Fields) (acc : fs.Slots × Members) (ms : Members) : Prop where
  slots : fs.Sees ms acc.1
  extra : acc.2 = ms.filter fun m => !fs.accept m.1
  ordered : Dictionary.Ordered ms

/-- The members of an open record are read in step with those of the object. -/
theorem openStep_together {fs : Fields} {ms : Members} {acc : fs.Slots × Members} {name : String}
    (hacc : fs.SeesAll acc ms)
    (hread : Together (fun slots' ms' => fs.Sees ms' slots') (fs.readMember depth name acc.1)
      (Json.addMember (Json.value .keep depth) ms name)) :
    Together fs.SeesAll (fs.openStep depth acc name)
      (Json.addMember (Json.value .keep depth) ms name) := by
  intro s acc' r ms' r' hstep hadd
  obtain ⟨t, v, hcolon, hv, rfl⟩ := Json.addMember_eq_ok_iff.mp hadd
  unfold Fields.openStep at hstep
  cases hname : fs.accept name with
  | true =>
    rw [hname, if_pos rfl] at hstep
    obtain ⟨⟨slots', r''⟩, hslots', h⟩ := bind_eq_ok_iff.mp hstep
    cases h
    obtain ⟨hr, hsees⟩ := hread hslots' hadd
    refine ⟨hr, hsees, ?_, hacc.ordered.insert name v⟩
    rw [Dictionary.filter_insert_of_dropped (fun n => !fs.accept n) (by simp [hname])]
    exact hacc.extra
  | false =>
    rw [hname, if_neg Bool.false_ne_true] at hstep
    obtain ⟨⟨extra', r''⟩, hextra', h⟩ := bind_eq_ok_iff.mp hstep
    cases h
    obtain ⟨t', v', hcolon', hv', rfl⟩ := Json.addMember_eq_ok_iff.mp hextra'
    cases hcolon.symm.trans hcolon'
    cases hv.symm.trans hv'
    refine ⟨rfl, hacc.slots.insert_of_not_accept hname v, ?_, hacc.ordered.insert name v⟩
    rw [Dictionary.filter_insert_of_kept (fun n => !fs.accept n) (by simp [hname]) v
      hacc.ordered, hacc.extra]

/-! ## Shapes -/

mutual

/-- A distinct shape is read off a text as off the value that the text denotes. -/
theorem Shape.agrees : (s : Shape) → s.isDistinct = true → (depth : Nat) →
    Agrees depth (fun t => s.read depth t) (fun v => s.ofJson? v)
  | .string, _, depth => fun t a r v r' ha hv => by
    obtain ⟨hr, hread⟩ := agrees_scalarOf depth Json.string? ha hv
    exact ⟨hr, (Shape.ofJson?_string v).trans hread⟩
  | .number, _, depth => fun t a r v r' ha hv => by
    obtain ⟨hr, hread⟩ := agrees_scalarOf depth Json.number? ha hv
    exact ⟨hr, (Shape.ofJson?_number v).trans hread⟩
  | .any, _, depth => fun t a r v r' ha hv => by
    cases (ha : Json.value .keep depth t = .ok (a, r)).symm.trans hv
    exact ⟨rfl, rfl⟩
  | .objectOrString, _, depth => fun t a r v r' ha hv => by
    obtain ⟨⟨w, r''⟩, hw, h⟩ := bind_eq_ok_iff.mp ha
    cases hw.symm.trans hv
    dsimp only at h
    split at h
    · cases h
      exact ⟨rfl, rfl⟩
    · cases h
      exact ⟨rfl, rfl⟩
    · cases h
  | .list item, hd, depth => fun t a r v r' ha hv => by
    obtain ⟨hr, hread⟩ := agrees_list (fun depth => item.agrees hd depth) depth ha hv
    exact ⟨hr, (Shape.ofJson?_list item v).trans hread⟩
  | .record fields, hd, depth => fun t x r v r' hx hv => by
    obtain ⟨t', depth, rfl, ⟨hblanks, hitems⟩ | ⟨hblanks, slots, hslots, hfilled⟩⟩ :=
      Shape.read_record_cases hx
    · obtain ⟨vs, hvs, rfl⟩ := Json.value_of_array hblanks hv
      exact fields.items_together hd depth _ true hitems hvs
    · obtain ⟨ms, hms, rfl⟩ := Json.value_of_object hblanks hv
      have hstep : ∀ name slots ms, fields.Sees ms slots →
          Together (fun slots' ms' => fields.Sees ms' slots') (fields.step depth slots name)
            (Json.addMember (Json.value .keep depth) ms name) := fun name slots ms hsees =>
        step_together hsees (fields.member_together hd depth name slots ms hsees)
      obtain ⟨hr, hsees⟩ :=
        Json.members_together hstep _ true fields.sees_vacant hslots hms
      exact ⟨hr, hsees.filled?.symm.trans hfilled⟩
  | .openRecord fields, hd, depth => fun t (x, extra) r v r' hx hv => by
    obtain ⟨t', depth, rfl, hblanks, slots, hslots, hfilled⟩ := Shape.read_openRecord_cases hx
    obtain ⟨ms, hms, rfl⟩ := Json.value_of_object hblanks hv
    have hstep : ∀ name acc ms, fields.SeesAll acc ms →
        Together fields.SeesAll (fields.openStep depth acc name)
          (Json.addMember (Json.value .keep depth) ms name) := fun name acc ms hacc =>
      openStep_together hacc (fields.member_together hd depth name acc.1 ms hacc.slots)
    obtain ⟨hr, hsees⟩ := Json.members_together hstep _ true
      ⟨fields.sees_vacant, rfl, List.Pairwise.nil⟩ hslots hms
    refine ⟨hr, ?_⟩
    have hread : fields.ofMembers? ms = some x := hsees.slots.filled?.symm.trans hfilled
    obtain rfl : extra = ms.filter fun m => !fields.accept m.1 := hsees.extra
    dsimp only
    rw [Shape.ofJson?, hread]
    rfl

/-- The fields of a distinct record are read off an array as off its elements. -/
theorem Fields.items_together : (fs : Fields) → fs.isDistinct = true → (depth fuel : Nat) →
    (first : Bool) → Together (fun x vs => fs.ofItems? vs = some x) (fs.readItems depth first)
      (Json.elements (Json.value .keep depth) fuel first)
  | .done, _, depth, fuel, first => fun t x r vs r' hx hvs => by
    obtain ⟨t', hclose, h⟩ := bind_eq_ok_iff.mp hx
    cases h
    cases fuel with
    | zero => cases hvs
    | succ fuel =>
      rw [Json.elements_of_done (another_of_closeItems hclose first)] at hvs
      cases hvs
      exact ⟨rfl, rfl⟩
  | .required f s rest, hd, depth, fuel, first => fun t x r vs r' hx hvs => by
    simp only [Fields.isDistinct, Bool.and_eq_true] at hd
    obtain ⟨hr, hread⟩ := pairItems_together none (s.agrees hd.1.1 depth)
      (rest.items_together hd.2 depth) fuel first hx hvs
    exact ⟨hr, by cases vs <;> exact hread⟩
  | .optional f s rest, hd, depth, fuel, first => fun t x r vs r' hx hvs => by
    simp only [Fields.isDistinct, Bool.and_eq_true] at hd
    obtain ⟨hr, hread⟩ := pairItems_together (some none) (agrees_nullable (s.agrees hd.1.1 depth))
      (rest.items_together hd.2 depth) fuel first hx hvs
    exact ⟨hr, by cases vs <;> exact hread⟩
  | .repeated f s rest, hd, depth, fuel, first => fun t x r vs r' hx hvs => by
    simp only [Fields.isDistinct, Bool.and_eq_true] at hd
    obtain ⟨hr, hread⟩ := pairItems_together (some [])
      (agrees_list (fun depth => s.agrees hd.1.1 depth) depth)
      (rest.items_together hd.2 depth) fuel first hx hvs
    exact ⟨hr, by cases vs <;> exact hread⟩

/-- The fields of a distinct record are filled off a member as off its value. -/
theorem Fields.member_together : (fs : Fields) → fs.isDistinct = true → (depth : Nat) →
    (name : String) → (slots : fs.Slots) → (ms : Members) → fs.Sees ms slots →
    Together (fun slots' ms' => fs.Sees ms' slots') (fs.readMember depth name slots)
      (Json.addMember (Json.value .keep depth) ms name)
  | .done, _, _, _, (), _, _ => fun _ _ _ _ _ h => nomatch h
  | .required f s rest, hd, depth, name, (slot, slots), ms, ⟨hslot, hslots⟩ => by
    simp only [Fields.isDistinct, Bool.and_eq_true] at hd
    exact pairMember_together (s.agrees hd.1.1 depth) hd.1.2 hslot hslots
      (rest.member_together hd.2 depth name slots ms hslots)
  | .optional f s rest, hd, depth, name, (slot, slots), ms, ⟨hslot, hslots⟩ => by
    simp only [Fields.isDistinct, Bool.and_eq_true] at hd
    exact pairMember_together (agrees_nullable (s.agrees hd.1.1 depth)) hd.1.2 hslot hslots
      (rest.member_together hd.2 depth name slots ms hslots)
  | .repeated f s rest, hd, depth, name, (slot, slots), ms, ⟨hslot, hslots⟩ => by
    simp only [Fields.isDistinct, Bool.and_eq_true] at hd
    exact pairMember_together (agrees_list (fun depth => s.agrees hd.1.1 depth) depth) hd.1.2 hslot
      hslots (rest.member_together hd.2 depth name slots ms hslots)

end

end Wire

end OlmReceiver
