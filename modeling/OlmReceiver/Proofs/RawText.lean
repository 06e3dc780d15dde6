import OlmReceiver.Proofs.WireValue

/-!
# The text of a format is JSON of its value

A format is written in two ways, as a text with the fields in their own order, and as a value with the
members in the order of their names. The text denotes the value: a reader that knows nothing of the
format, and keeps all that it reads as raw JSON, makes the same of it.

Nothing is asked of the names of fields here, as members under one name are collected in both ways alike.
-/

namespace OlmReceiver.Wire

open Json (Reads ReadsMembers)

variable {α : Type}

/-- Legible elements are read as the raw JSON that they are written as. -/
theorem reads_rawItems {text : α → Text} {toJson : α → Json} {levels : Nat}
    {legible : Nat → α → Prop} {vs : List α} (hvs : ItemsLegible legible levels vs)
    (h : ∀ levels, ∀ v ∈ vs, legible levels v →
      Json.BeginsWith Json.opensValue (text v) ∧ Reads (Json.value .keep levels) (text v) (toJson v)) :
    Reads (Json.value .keep levels) (Json.bracketed (vs.map text)) (.array (vs.map toJson)) := by
  cases levels with
  | zero => exact hvs.elim
  | succ levels => exact Json.reads_array (Json.readsItems_map fun v hv => h levels v hv (hvs v hv))

mutual

/-- The text that a shape writes is read as the value that the shape writes. -/
theorem Shape.reads_raw : (s : Shape) → (levels : Nat) → (v : s.Value) → s.Legible levels v →
    Reads (Json.value .keep levels) (s.toText v) (s.toJson v)
  | .string, levels, x, _ => Json.reads_value_of_scalar levels (v := .string x) trivial (.string x)
  | .number, levels, n, h => Json.reads_value_of_scalar levels (v := .number n) trivial (.number h)
  | .any, _, _, h => Json.reads_value h
  | .objectOrString, _, .inl _, h => Json.reads_value h
  | .objectOrString, levels, .inr x, _ =>
    Json.reads_value_of_scalar levels (v := .string x) trivial (.string x)
  | .list item, levels, vs, h =>
    reads_rawItems h fun levels v _ hv => ⟨item.beginsWith_toText v, item.reads_raw levels v hv⟩
  | .record _, 0, _, h => h.elim
  | .record fields, levels + 1, v, h => by
    rw [Shape.toText, fields.toTexts_eq_map]
    exact Json.reads_object (fields.readsMembers_raw levels v h [])
  | .openRecord _, 0, _, h => h.elim
  | .openRecord fields, levels + 1, (v, extra), h => by
    obtain ⟨hfields, -, hextra⟩ := h
    have hkept := Json.readsMembers_addMember (fun m hm => Json.reads_value (hextra m hm).2)
      ((fields.toMembers v).foldl (fun d m => Dictionary.insert m.1 m.2 d) [])
    rw [Shape.toText, Json.memberTexts_eq_map, fields.toTexts_eq_map, ← List.map_append]
    rw [Shape.toJson, Json.ofMembers, Dictionary.ofList, List.foldl_append]
    exact Json.reads_object ((fields.readsMembers_raw levels v hfields []).append hkept)

/-- The members of a record are collected as the values that its fields write. -/
theorem Fields.readsMembers_raw : (fs : Fields) → (levels : Nat) → (v : fs.Value) →
    fs.Legible levels v → (acc : Json.Members) →
    ReadsMembers (Json.addMember (Json.value .keep levels)) acc (fs.namedTexts v)
      ((fs.toMembers v).foldl (fun d m => Dictionary.insert m.1 m.2 d) acc)
  | .done, _, (), _, acc => .nil acc
  | .required f s rest, levels, (v, vs), h, acc =>
    .cons (Json.reads_addMember (s.reads_raw levels v h.1) f.name acc)
      (rest.readsMembers_raw levels vs h.2 _)
  | .optional _ _ rest, levels, (none, vs), h, acc => rest.readsMembers_raw levels vs h acc
  | .optional f s rest, levels, (some v, vs), h, acc =>
    .cons (Json.reads_addMember (s.reads_raw levels v h.1) f.name acc)
      (rest.readsMembers_raw levels vs h.2 _)
  | .repeated f s rest, levels, (_, vs), h, acc =>
    .cons (Json.reads_addMember (reads_rawItems h.1 fun levels x _ hx =>
        ⟨s.beginsWith_toText x, s.reads_raw levels x hx⟩) f.name acc)
      (rest.readsMembers_raw levels vs h.2 _)

end

/-- The text of a value of a format denotes the value that it is written as. -/
theorem ofText_toText_raw [Wire α] {a : α}
    (h : (Wire.shape α).Legible Json.maxDepth (Wire.toValue a)) :
    Json.ofText (Wire.toText a) = .ok (Wire.toJson a) :=
  Json.complete_of_reads ((Wire.shape α).reads_raw Json.maxDepth (Wire.toValue a) h)

end OlmReceiver.Wire
