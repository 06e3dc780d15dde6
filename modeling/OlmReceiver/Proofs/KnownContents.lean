import OlmReceiver.Event.Registry
import OlmReceiver.Proofs.RawText

/-!
# Known contents are parsed back

Content of each of the six known types is parsed back by the standard registry, from its value and from
its text. The text is read twice here: as raw JSON, which the registry is then given, and by the format
of the content alone.

All six have their fields in strings, except that a room message keeps further members as raw JSON. These
have to be in order and under other names than its two fields; in a text they are integers at most and
nest at most 126 levels, as the message around them takes the last of the 127 levels that are read.
-/

namespace OlmReceiver

variable {α : Type} [Wire α]

namespace ContentRegistry

/-- The content of a type is parsed back from its value. -/
def ParsesValue (eventType : String) (wrap : α → EventContent) (c : α) : Prop :=
  standard.parse eventType (Wire.toJson c) = .ok (wrap c)

/-- The content of a type is read back from its text, and parsed back from the value the text denotes. -/
structure ParsesText (eventType : String) (wrap : α → EventContent) (c : α) : Prop where
  typed : Wire.ofText (Wire.toText c) = .ok c
  parsed : ∃ v, Json.ofText (Wire.toText c) = .ok v ∧ standard.parse eventType v = .ok (wrap c)

/-- A type whose parser is that of a format has its content parsed back from its value. -/
theorem parsesValue_of_tidy {eventType : String} {wrap : α → EventContent} {c : α}
    (hparser : standard.parser? eventType = some (.ofWire wrap))
    (hs : (Wire.shape α).isSound = true) (ha : (Wire.shape α).isApart = true)
    (h : (Wire.shape α).Tidy (Wire.toValue c)) : ParsesValue eventType wrap c := by
  have hread : Wire.ofJson? (Wire.toJson c) = some c := Wire.ofJson?_toJson hs ha h
  simp only [ParsesValue, parse, hparser, ContentParser.ofWire, hread]

/-- What is parsed back from its value is parsed back from its text, if that is legible. -/
theorem ParsesValue.parsesText {eventType : String} {wrap : α → EventContent} {c : α}
    (hvalue : ParsesValue eventType wrap c) (hs : (Wire.shape α).isSound = true)
    (h : (Wire.shape α).Legible Json.maxDepth (Wire.toValue c)) :
    ParsesText eventType wrap c where
  typed := Wire.ofText_toText hs h
  parsed := ⟨Wire.toJson c, Wire.ofText_toText_raw h, hvalue⟩

/-- Both ways, for content that asks nothing of what it holds. -/
structure ParsedBack (eventType : String) (wrap : α → EventContent) (c : α) : Prop where
  value : ParsesValue eventType wrap c
  text : ParsesText eventType wrap c

/-- A type whose parser is that of a sound format has its legible content parsed back. -/
theorem parsedBack_of_legible {eventType : String} {wrap : α → EventContent} {c : α}
    (hparser : standard.parser? eventType = some (.ofWire wrap))
    (hs : (Wire.shape α).isSound = true) (ha : (Wire.shape α).isApart = true)
    (ht : (Wire.shape α).Tidy (Wire.toValue c))
    (h : (Wire.shape α).Legible Json.maxDepth (Wire.toValue c)) :
    ParsedBack eventType wrap c where
  value := parsesValue_of_tidy hparser hs ha ht
  text := (parsesValue_of_tidy hparser hs ha ht).parsesText hs h

/-! ## The known types -/

/-- A key is parsed back. -/
theorem parsedBack_roomKey (c : RoomKey) : ParsedBack RoomKey.eventType .roomKey c :=
  parsedBack_of_legible rfl (by decide) (by decide) ⟨trivial, trivial, trivial, trivial, trivial⟩
    ⟨trivial, trivial, trivial, trivial, trivial⟩

/-- A request is parsed back, whether it names a key or not. -/
theorem parsedBack_roomKeyRequest (c : RoomKeyRequest) :
    ParsedBack RoomKeyRequest.eventType .roomKeyRequest c := by
  obtain ⟨action, device, request, body⟩ := c
  cases body with
  | none =>
    exact parsedBack_of_legible rfl (by decide) (by decide) ⟨trivial, trivial, trivial, trivial⟩
      ⟨trivial, trivial, trivial, trivial⟩
  | some body =>
    exact parsedBack_of_legible rfl (by decide) (by decide)
      ⟨trivial, trivial, trivial, ⟨trivial, trivial, trivial, trivial, trivial⟩, trivial⟩
      ⟨trivial, trivial, trivial, ⟨trivial, trivial, trivial, trivial, trivial⟩, trivial⟩

/-- A forwarded key is parsed back with all devices of its chain. -/
theorem parsedBack_forwardedRoomKey (c : ForwardedRoomKey) :
    ParsedBack ForwardedRoomKey.eventType .forwardedRoomKey c :=
  parsedBack_of_legible rfl (by decide) (by decide)
    ⟨trivial, trivial, trivial, trivial, trivial, trivial, fun _ _ => trivial, trivial⟩
    ⟨trivial, trivial, trivial, trivial, trivial, trivial, fun _ _ => trivial, trivial⟩

/-- Content without information is parsed back. -/
theorem parsedBack_dummy (c : Dummy) : ParsedBack Dummy.eventType .dummy c :=
  parsedBack_of_legible rfl (by decide) (by decide) trivial trivial

/-- An approval is parsed back with all its answers. -/
theorem parsedBack_approval (c : Approval) : ParsedBack Approval.eventType .approval c :=
  parsedBack_of_legible rfl (by decide) (by decide)
    ⟨trivial, trivial, ⟨fun _ _ => trivial, trivial⟩, trivial⟩
    ⟨trivial, trivial, ⟨fun _ _ => trivial, trivial⟩, trivial⟩

/-- The two fields of a room message accept no name but their own. -/
theorem not_accept_roomMessage {name : String} (h : name ≠ "msgtype" ∧ name ≠ "body") :
    (Wire.Fields.required "msgtype" .string (.required "body" .string .done)).accept name = false := by
  simp [Wire.Fields.accept, Wire.FieldName.accepts, h]

/-- A room message is parsed back from its value with all that it keeps besides its fields. -/
theorem parsesValue_roomMessage {c : RoomMessage} (hordered : Dictionary.Ordered c.extra)
    (hnames : ∀ m ∈ c.extra, m.1 ≠ "msgtype" ∧ m.1 ≠ "body") :
    ParsesValue RoomMessage.eventType .roomMessage c :=
  parsesValue_of_tidy rfl (by decide) (by decide)
    ⟨⟨trivial, trivial, trivial⟩, hordered, fun m hm => not_accept_roomMessage (hnames m hm)⟩

/-- A room message is parsed back from its text if what it keeps besides its fields is legible. -/
theorem parsesText_roomMessage {c : RoomMessage} (hordered : Dictionary.Ordered c.extra)
    (hnames : ∀ m ∈ c.extra, m.1 ≠ "msgtype" ∧ m.1 ≠ "body")
    (hlegible : ∀ m ∈ c.extra, m.2.Legible 126) : ParsesText RoomMessage.eventType .roomMessage c :=
  (parsesValue_roomMessage hordered hnames).parsesText (by decide)
    ⟨⟨trivial, trivial, trivial⟩, hordered, fun m hm =>
      ⟨not_accept_roomMessage (hnames m hm), hlegible m hm⟩⟩

/-- Content of each known type is parsed back by the standard registry, from its value and from its
text. A room message may keep any further members under other names than its two fields; what it keeps
has to be legible for its text to be read. -/
theorem known_contents_parsed_back :
    (∀ c, ParsedBack RoomKey.eventType .roomKey c) ∧
      (∀ c, ParsedBack RoomKeyRequest.eventType .roomKeyRequest c) ∧
      (∀ c, ParsedBack ForwardedRoomKey.eventType .forwardedRoomKey c) ∧
      (∀ c, ParsedBack Dummy.eventType .dummy c) ∧
      (∀ c, ParsedBack Approval.eventType .approval c) ∧
      ∀ c : RoomMessage, Dictionary.Ordered c.extra →
        (∀ m ∈ c.extra, m.1 ≠ "msgtype" ∧ m.1 ≠ "body") →
        ParsesValue RoomMessage.eventType .roomMessage c ∧
          ((∀ m ∈ c.extra, m.2.Legible 126) → ParsesText RoomMessage.eventType .roomMessage c) :=
  ⟨parsedBack_roomKey, parsedBack_roomKeyRequest, parsedBack_forwardedRoomKey, parsedBack_dummy,
    parsedBack_approval, fun _ hordered hnames =>
      ⟨parsesValue_roomMessage hordered hnames, parsesText_roomMessage hordered hnames⟩⟩

/-- A room message with members in front of, between and behind its two fields. -/
def notice : RoomMessage where
  msgtype := "m.notice"
  body := "\"Grüße\"\n"
  extra := [("a", .array [.number (.ofNat 12), .null]), ("info", .object []), ("url", .string "mxc:")]

/-- The notice is parsed back from its value and from its text. -/
theorem known_contents_parsed_back_notice :
    ParsesValue RoomMessage.eventType .roomMessage notice ∧
      ParsesText RoomMessage.eventType .roomMessage notice := by
  have hordered : Dictionary.Ordered notice.extra := by
    unfold notice Dictionary.Ordered
    decide
  have hnames : ∀ m ∈ notice.extra, m.1 ≠ "msgtype" ∧ m.1 ≠ "body" := by
    simp [notice]
  have hlist : (Json.array [.number (.ofNat 12), .null]).Legible 126 :=
    ⟨by simp [Json.NestsAtMost],
      .array (List.forall_mem_cons.mpr ⟨.number _, List.forall_mem_singleton.mpr .null⟩),
      .array (List.forall_mem_cons.mpr ⟨.number rfl, List.forall_mem_singleton.mpr .null⟩)⟩
  have hinfo : (Json.object []).Legible 126 :=
    ⟨by simp [Json.NestsAtMost], .object List.Pairwise.nil (by simp), .object (by simp)⟩
  have hlegible : ∀ m ∈ notice.extra, m.2.Legible 126 :=
    List.forall_mem_cons.mpr ⟨hlist, List.forall_mem_cons.mpr
      ⟨hinfo, List.forall_mem_singleton.mpr ⟨trivial, .string _, .string _⟩⟩⟩
  obtain ⟨hvalue, htext⟩ := known_contents_parsed_back.2.2.2.2.2 notice hordered hnames
  exact ⟨hvalue, htext hlegible⟩

end ContentRegistry

end OlmReceiver
