import OlmReceiver.Proofs.WireValue

/-!
# What a record has read of its members

While the members of an object are read one behind the other, each slot of a record holds what its
field reads off the members so far: nothing as long as none of them is its own, and else what the
value of that member is read as. A slot is never filled twice, so this says all about it.

This takes fields that are told apart by all names they accept, aliases included. What is asked of a
record for writing is less, as it writes no aliases.
-/

namespace OlmReceiver

open Json (Members)

namespace Dictionary

variable {κ α : Type} [LT κ] [DecidableLT κ] [DecidableEq κ]

/-- An entry whose key is dropped leaves those that are kept as they are. -/
theorem filter_insert_of_dropped (keep : κ → Bool) {k : κ} (h : keep k = false) (a : α)
    (d : Dictionary κ α) :
    (insert k a d).filter (fun e => keep e.1) = d.filter fun e => keep e.1 := by
  induction d with
  | nil => simp [insert, h]
  | cons e d ih =>
    obtain ⟨k', a'⟩ := e
    unfold insert
    split
    · subst_vars
      simp [h]
    · split
      · simp [h]
      · simp [List.filter_cons, ih]

/-- A key in front of all others is added at the front. -/
theorem insert_first {k : κ} {a : α} {d : Dictionary κ α} [Std.Irrefl (α := κ) (· < ·)]
    (h : ∀ e ∈ d, k < e.1) : insert k a d = (k, a) :: d := by
  cases d with
  | nil => rfl
  | cons e d =>
    have hlt : k < e.1 := h e List.mem_cons_self
    have hne : k ≠ e.1 := by
      intro heq
      rw [← heq] at hlt
      exact irrefl_of (· < ·) k hlt
    rw [insert, if_neg hne, if_pos hlt]

/-- An entry whose key is kept is inserted among those that are kept. -/
theorem filter_insert_of_kept [IsStrictOrder κ (· < ·)] (keep : κ → Bool) {k : κ}
    (h : keep k = true) (a : α) {d : Dictionary κ α} (hd : Ordered d) :
    (insert k a d).filter (fun e => keep e.1) = insert k a (d.filter fun e => keep e.1) := by
  induction d with
  | nil => simp [insert, h]
  | cons e d ih =>
    obtain ⟨k', a'⟩ := e
    obtain ⟨hk', hd⟩ := List.pairwise_cons.mp hd
    rw [insert]
    split
    · subst_vars
      simp [h, insert]
    · rename_i hne
      split
      · rename_i hlt
        rw [insert_first]
        · simp [h]
        · intro e he
          rcases List.mem_cons.mp (List.mem_of_mem_filter he) with rfl | he
          · exact hlt
          · exact trans_of (· < ·) hlt (hk' e he)
      · rename_i hnlt
        rw [List.filter_cons, List.filter_cons, ih hd]
        split
        · rw [insert, if_neg hne, if_neg hnlt]
        · rfl

end Dictionary

namespace Wire

variable {α : Type}

mutual

/-- Whether the fields of all records in a shape are told apart by all names they accept. -/
def Shape.isDistinct : Shape → Bool
  | .list item => item.isDistinct
  | .record fields => fields.isDistinct
  | .openRecord fields => fields.isDistinct
  | _ => true

/-- Whether no name that a field accepts is accepted by a later field. -/
def Fields.isDistinct : Fields → Bool
  | .done => true
  | .required f s rest =>
    s.isDistinct && (f.name :: f.aliases).all (fun n => !rest.accept n) && rest.isDistinct
  | .optional f s rest =>
    s.isDistinct && (f.name :: f.aliases).all (fun n => !rest.accept n) && rest.isDistinct
  | .repeated f s rest =>
    s.isDistinct && (f.name :: f.aliases).all (fun n => !rest.accept n) && rest.isDistinct

end

/-- A name that a field of a distinct record accepts is accepted by no later field. -/
theorem FieldName.not_accept_of_accepts {f : FieldName} {rest : Fields}
    (h : (f.name :: f.aliases).all (fun n => !rest.accept n) = true) {name : String}
    (hname : f.accepts name = true) : rest.accept name = false := by
  have hmem : name ∈ f.name :: f.aliases := by simpa [accepts] using hname
  simpa using List.all_eq_true.mp h name hmem

/-! ## The values of a field -/

/-- A field does not see a member that it does not accept. -/
theorem FieldName.values_insert_of_not_accepts {f : FieldName} {name : String}
    (h : f.accepts name = false) (v : Json) (ms : Members) :
    f.values (Dictionary.insert name v ms) = f.values ms := by
  rw [values, values, Dictionary.filter_insert_of_dropped f.accepts h]

/-- A field that sees nothing accepts no member. -/
theorem FieldName.values_eq_nil_iff {f : FieldName} {ms : Members} :
    f.values ms = [] ↔ ∀ m ∈ ms, f.accepts m.1 = false := by
  refine ⟨fun h m hm => ?_, values_eq_nil⟩
  simpa using List.filter_eq_nil_iff.mp (List.map_eq_nil_iff.mp h) m hm

/-- A field sees the first member that it accepts. -/
theorem FieldName.values_insert_of_accepts {f : FieldName} {name : String}
    (h : f.accepts name = true) {ms : Members} (hms : f.values ms = []) (v : Json) :
    f.values (Dictionary.insert name v ms) = [v] := by
  have hnew : name ∉ ms.map Prod.fst := by
    intro hmem
    obtain ⟨m, hm, rfl⟩ := List.mem_map.mp hmem
    rw [values_eq_nil_iff.mp hms m hm] at h
    cases h
  have hperm : (f.values (Dictionary.insert name v ms)).Perm (f.values ((name, v) :: ms)) :=
    ((Dictionary.perm_insert hnew v).filter _).map _
  have hall : f.values ((name, v) :: ms) = v :: f.values ms := by
    simp [values, h]
  rw [hall, hms] at hperm
  exact List.perm_singleton.mp hperm

/-- What a field has read of some members: nothing if it accepts none of them, and what the value of its
one member is read as. -/
inductive SlotHolds (f : FieldName) (item? : Json → Option α) (ms : Members) : Option α → Prop
  | vacant (hvalues : f.values ms = []) : SlotHolds f item? ms none
  | filled {v : Json} {a : α} (hvalues : f.values ms = [v]) (hread : item? v = some a) :
    SlotHolds f item? ms (some a)

namespace SlotHolds

variable {f : FieldName} {item? : Json → Option α} {ms : Members} {slot : Option α} {name : String}

/-- A slot is left alone by a member that its field does not accept. -/
theorem insert_of_not_accepts (h : SlotHolds f item? ms slot) (hname : f.accepts name = false)
    (v : Json) : SlotHolds f item? (Dictionary.insert name v ms) slot := by
  have hvalues := FieldName.values_insert_of_not_accepts hname v ms
  cases h with
  | vacant h => exact .vacant (hvalues.trans h)
  | filled h hread => exact .filled (hvalues.trans h) hread

/-- A slot is filled by the first member that its field accepts. -/
theorem insert_of_accepts (h : SlotHolds f item? ms none) (hname : f.accepts name = true) {v : Json}
    {a : α} (hread : item? v = some a) :
    SlotHolds f item? (Dictionary.insert name v ms) (some a) := by
  cases h with
  | vacant h => exact .filled (FieldName.values_insert_of_accepts hname h v) hread

/-- A slot holds what a required field is read as. -/
theorem required? (h : SlotHolds f item? ms slot) : f.required? item? ms = slot := by
  cases h with
  | vacant h => rw [FieldName.required?, h]
  | filled h hread => rw [FieldName.required?_of_values h, hread]

/-- A slot holds what a field is read as that may be absent. -/
theorem optional? (h : SlotHolds f item? ms slot) (absent : α) :
    f.optional? absent item? ms = some (slot.getD absent) := by
  cases h with
  | vacant h => exact FieldName.optional?_of_nil h
  | filled h hread => exact (FieldName.optional?_of_values h).trans hread

end SlotHolds

/-! ## The slots of a record -/

/-- Every slot of a record holds what its field has read of some members. -/
def Fields.Sees : (fs : Fields) → Members → fs.Slots → Prop
  | .done, _, () => True
  | .required f s rest, ms, (slot, slots) =>
    SlotHolds f (fun v => s.ofJson? v) ms slot ∧ rest.Sees ms slots
  | .optional f s rest, ms, (slot, slots) =>
    SlotHolds f (nullable? fun v => s.ofJson? v) ms slot ∧ rest.Sees ms slots
  | .repeated f s rest, ms, (slot, slots) =>
    SlotHolds f (elements? fun v => s.ofJson? v) ms slot ∧ rest.Sees ms slots

/-- In front of all members nothing is read. -/
theorem Fields.sees_vacant : (fs : Fields) → fs.Sees [] fs.vacant
  | .done => trivial
  | .required _ _ rest => ⟨.vacant rfl, rest.sees_vacant⟩
  | .optional _ _ rest => ⟨.vacant rfl, rest.sees_vacant⟩
  | .repeated _ _ rest => ⟨.vacant rfl, rest.sees_vacant⟩

/-- The slots are left alone by a member that no field accepts. -/
theorem Fields.Sees.insert_of_not_accept : {fs : Fields} → {ms : Members} → {slots : fs.Slots} →
    fs.Sees ms slots → {name : String} → fs.accept name = false → (v : Json) →
    fs.Sees (Dictionary.insert name v ms) slots
  | .done, _, (), _, _, _, _ => trivial
  | .required _ _ _, _, (_, _), ⟨hslot, hslots⟩, _, h, v =>
    have h := Bool.or_eq_false_iff.mp h
    ⟨hslot.insert_of_not_accepts h.1 v, hslots.insert_of_not_accept h.2 v⟩
  | .optional _ _ _, _, (_, _), ⟨hslot, hslots⟩, _, h, v =>
    have h := Bool.or_eq_false_iff.mp h
    ⟨hslot.insert_of_not_accepts h.1 v, hslots.insert_of_not_accept h.2 v⟩
  | .repeated _ _ _, _, (_, _), ⟨hslot, hslots⟩, _, h, v =>
    have h := Bool.or_eq_false_iff.mp h
    ⟨hslot.insert_of_not_accepts h.1 v, hslots.insert_of_not_accept h.2 v⟩

/-- Behind all members the slots hold what the record is read as. -/
theorem Fields.Sees.filled? : {fs : Fields} → {ms : Members} → {slots : fs.Slots} →
    fs.Sees ms slots → fs.filled? slots = fs.ofMembers? ms
  | .done, _, (), _ => rfl
  | .required _ _ _, _, (_, _), ⟨hslot, hslots⟩ => by
    rw [Fields.filled?, Fields.ofMembers?, hslot.required?, hslots.filled?]
  | .optional _ _ _, _, (_, _), ⟨hslot, hslots⟩ => by
    rw [Fields.filled?, Fields.ofMembers?, hslot.optional?, hslots.filled?]
    rfl
  | .repeated _ _ _, _, (_, _), ⟨hslot, hslots⟩ => by
    rw [Fields.filled?, Fields.ofMembers?, hslot.optional?, hslots.filled?]
    rfl

end Wire

end OlmReceiver
