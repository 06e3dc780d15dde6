import OlmReceiver.Event.Encrypted
import OlmReceiver.Event.Messages
import OlmReceiver.Event.Payload
import OlmReceiver.Event.RoomKeys
import OlmReceiver.Proofs.TextOfValue

/-!
# Both readers of a format agree

A format is read off a text, or off the value that a text denotes. What comes from the transport is
read in one way and what was encrypted in the other, so the two have to take the same documents for
the same things, in either form of a record, under aliases, with members that are no fields.

Off a text that denotes a value both read the same. A legible value, that is, one without doubles
that nests at most 127 levels, is read as something exactly if its text is. Only its objects have to
have their members in order, as every reader builds them.
-/

namespace OlmReceiver

namespace Json

/-- A whole text is read if only blanks are left over. -/
theorem complete_eq_ok_iff {α : Type} {item : Reader α} {s : Text} {a : α} :
    complete item s = .ok a ↔ ∃ r, item s = .ok (a, r) ∧ Text.dropBlanks r = [] := by
  constructor
  · intro h
    obtain ⟨⟨a', r⟩, ha, h⟩ := bind_eq_ok_iff.mp h
    dsimp only at h
    split at h
    · rename_i hblanks
      cases h
      exact ⟨r, ha, hblanks⟩
    · cases h
  · rintro ⟨r, ha, hblanks⟩
    exact bind_eq_ok_iff.mpr ⟨_, ha, if_pos hblanks⟩

end Json

namespace Wire

variable {α : Type} [Wire α]

/-- A format is read off a text as off the value that the text denotes, and off a legible value as
off the text of the value. -/
structure ReadersAgree (α : Type) [Wire α] : Prop where
  of_text : ∀ (s : Text) (x : α) (v : Json), Wire.ofText s = .ok x → Json.ofText s = .ok v →
    Wire.ofJson? v = some x
  of_value : ∀ (v : Json) (x : α), v.Legible Json.maxDepth →
    (Wire.ofJson? v = some x ↔ Wire.ofText v.toText = .ok x)

/-- A distinct format is read off a text as off the value that the text denotes. -/
theorem ofJson?_of_ofText (hd : (Wire.shape α).isDistinct = true) {s : Text} {x : α} {v : Json}
    (hx : Wire.ofText s = .ok x) (hv : Json.ofText s = .ok v) : Wire.ofJson? v = some x := by
  obtain ⟨y, hy, h⟩ := bind_eq_ok_iff.mp hx
  cases h
  obtain ⟨r, hread, -⟩ := Json.complete_eq_ok_iff.mp hy
  obtain ⟨r', hraw, -⟩ := Json.complete_eq_ok_iff.mp hv
  obtain ⟨-, hvalue⟩ := (Wire.shape α).agrees hd Json.maxDepth hread hraw
  exact Option.map_eq_some_iff.mpr ⟨y, hvalue, rfl⟩

/-- A distinct format is read off a legible value as off the text of the value. -/
theorem ofText_of_ofJson? (hd : (Wire.shape α).isDistinct = true) {v : Json} {x : α}
    (hx : Wire.ofJson? v = some x) (hv : v.Legible Json.maxDepth) :
    Wire.ofText v.toText = .ok x := by
  obtain ⟨y, hy, rfl⟩ := Option.map_eq_some_iff.mp hx
  have hread := Json.complete_of_reads ((Wire.shape α).readsTexts hd Json.maxDepth v y hy hv)
  exact bind_eq_ok_iff.mpr ⟨y, hread, rfl⟩

/-- Both readers of a distinct format agree. -/
theorem readersAgree_of_distinct (hd : (Wire.shape α).isDistinct = true) : ReadersAgree α where
  of_text _ _ _ := ofJson?_of_ofText hd
  of_value _ _ hv :=
    ⟨fun hx => ofText_of_ofJson? hd hx hv, fun hx => ofJson?_of_ofText hd hx (Json.ofText_toText hv)⟩

/-- Both readers agree on every format: events, encrypted contents and their entries, payloads, the six
known contents, and the identity of a device. -/
theorem readers_agree :
    ReadersAgree Event ∧ ReadersAgree EncryptedContent ∧ ReadersAgree RecipientCiphertext ∧
      ReadersAgree Payload ∧ ReadersAgree RoomKey ∧ ReadersAgree RoomKeyRequest ∧
      ReadersAgree ForwardedRoomKey ∧ ReadersAgree Dummy ∧ ReadersAgree RoomMessage ∧
      ReadersAgree Approval ∧ ReadersAgree IdentityKeys ∧ ReadersAgree LocalDevice :=
  ⟨readersAgree_of_distinct (by decide), readersAgree_of_distinct (by decide),
    readersAgree_of_distinct (by decide), readersAgree_of_distinct (by decide),
    readersAgree_of_distinct (by decide), readersAgree_of_distinct (by decide),
    readersAgree_of_distinct (by decide), readersAgree_of_distinct (by decide),
    readersAgree_of_distinct (by decide), readersAgree_of_distinct (by decide),
    readersAgree_of_distinct (by decide), readersAgree_of_distinct (by decide)⟩

/-- A device. -/
def device : LocalDevice := ⟨⟨"@bob:localhost"⟩, ⟨"BOB"⟩⟩

/-- A text of the device, with blanks, an escape and a member that is no field. -/
def deviceText : Text :=
  Text.ofString
    "\x7b \"device_id\" : \"\\u0042OB\", \"age\" : [1.5, [null]],\n\"user_id\":\"@bob:localhost\" \x7d "

/-- The device with its fields listed. -/
def listedDevice : Json := .array [.string "@bob:localhost", .string "BOB"]

/-- The text is read as the device in both ways, and the list of its fields is, as is the text of
that. -/
theorem readers_agree_of_device :
    Wire.ofText deviceText = .ok device ∧
      (∃ v, Json.ofText deviceText = .ok v ∧ Wire.ofJson? v = some device) ∧
      listedDevice.Legible Json.maxDepth ∧ Wire.ofJson? listedDevice = some device ∧
      Wire.ofText listedDevice.toText = .ok device := by
  obtain ⟨-, -, -, -, -, -, -, -, -, -, -, htext, hvalue⟩ := readers_agree
  have hread : Wire.ofText deviceText = .ok device := by decide +kernel
  have hdenotes : (Json.ofText deviceText).toOption.isSome = true := by decide +kernel
  obtain ⟨v, hv⟩ : ∃ v, Json.ofText deviceText = .ok v := by
    cases h : Json.ofText deviceText with
    | ok v => exact ⟨v, rfl⟩
    | error f =>
      rw [h] at hdenotes
      cases hdenotes
  have hlegible : listedDevice.Legible Json.maxDepth :=
    ⟨List.forall_mem_cons.mpr ⟨trivial, List.forall_mem_singleton.mpr trivial⟩,
      .array (List.forall_mem_cons.mpr ⟨.string _, List.forall_mem_singleton.mpr (.string _)⟩),
      .array (List.forall_mem_cons.mpr ⟨.string _, List.forall_mem_singleton.mpr (.string _)⟩)⟩
  have hlisted : Wire.ofJson? listedDevice = some device := rfl
  exact ⟨hread, ⟨v, hv, htext _ _ v hread hv⟩, hlegible, hlisted, (hvalue _ _ hlegible).mp hlisted⟩

end Wire

end OlmReceiver
