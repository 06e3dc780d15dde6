import OlmReceiver.Wire.Value

/-!
# Changing some members of an object

The members under some names are changed and all others are left alone. A field that none of the
names belongs to does not see the change; a field that the names are those of sees it in the place
of each of its values.
-/

namespace OlmReceiver

/-- The members of an object that stand under one of some names. -/
def Json.named (names : List String) (ms : Json.Members) : Json.Members :=
  ms.filter fun m => names.contains m.1

/-- The members of an object, with the values of those that stand under one of some names changed. -/
def Json.mapNamed (names : List String) (change : Json → Json) (ms : Json.Members) : Json.Members :=
  ms.map fun m => (m.1, if names.contains m.1 then change m.2 else m.2)

namespace Wire.FieldName

variable (f : FieldName)

/-- The values of a field are those of the members that stand under one of its names. -/
theorem values_eq_named (ms : Json.Members) :
    f.values ms = (Json.named (f.name :: f.aliases) ms).map Prod.snd := by
  simp [values, accepts, Json.named]

/-- A field does not see the members change whose names it does not accept. -/
theorem values_mapNamed_of_not_accepts {names : List String}
    (h : ∀ name ∈ names, f.accepts name = false) (change : Json → Json) (ms : Json.Members) :
    f.values (Json.mapNamed names change ms) = f.values ms := by
  unfold values Json.mapNamed
  rw [List.filter_map, List.map_map]
  refine List.map_congr_left fun m hm => ?_
  have hname : m.1 ∉ names := fun hmem => by simpa [h m.1 hmem] using List.mem_filter.mp hm
  simp [hname]

/-- A field sees the change of all members that it accepts in the place of each. -/
theorem values_mapNamed (change : Json → Json) (ms : Json.Members) :
    f.values (Json.mapNamed (f.name :: f.aliases) change ms) = (f.values ms).map change := by
  unfold values Json.mapNamed
  rw [List.filter_map, List.map_map, List.map_map]
  refine List.map_congr_left fun m hm => ?_
  have hname : m.1 ∈ f.name :: f.aliases := by simpa [accepts] using (List.mem_filter.mp hm).2
  simp only [Function.comp_apply, List.contains_eq_mem, hname, decide_true, if_true]

end Wire.FieldName

/-- Looking up the one name whose members are changed finds the changed value. -/
theorem Dictionary.get?_mapNamed (name : String) (change : Json → Json) (ms : Json.Members) :
    Dictionary.get? name (Json.mapNamed [name] change ms) = (Dictionary.get? name ms).map change := by
  induction ms with
  | nil => rfl
  | cons m ms ih =>
    obtain ⟨name', v⟩ := m
    unfold Json.mapNamed at ih ⊢
    by_cases h : name = name'
    · subst h
      simp [get?]
    · simpa [get?, h, Ne.symm h] using ih

end OlmReceiver
