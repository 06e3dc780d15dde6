import OlmReceiver.Proofs.KnownContents
import OlmReceiver.Proofs.ShapeGrammar
import OlmReceiver.Proofs.WireValue

/-!
# Room messages lose nothing

A shape without records that drop members, without optional fields and without aliases denotes every
value it takes as a whole: writing what was read gives the value back. Room messages have such a shape.
They are the objects with a string under each of `msgtype` and `body`; everything else in the object is
kept under its own name, whatever it is.
-/

namespace OlmReceiver

open Json (Members)

namespace Wire

mutual

/-- Whether a shape leaves nothing of a value out and gives no default. -/
def Shape.isLossless : Shape → Bool
  | .list item => item.isLossless
  | .record _ => false
  | .openRecord fields => fields.isLossless
  | _ => true

/-- Whether all fields have to be there, each under one name of its own, and leave nothing out. -/
def Fields.isLossless : Fields → Bool
  | .done => true
  | .required f s rest =>
    f.aliases.isEmpty && !rest.accept f.name && s.isLossless && rest.isLossless
  | .optional .. => false
  | .repeated .. => false

end

/-- A name that stands alone among some members is the only one of them that is kept. -/
theorem filter_eq_singleton_of_sole {name : String} {ms : Members} {v : Json}
    (h : Json.Sole [name] ms v) : (ms.filter fun m => decide (m.1 = name)) = [(name, v)] := by
  obtain ⟨name', hname', earlier, later, rfl, hearlier, hlater⟩ := h
  obtain rfl := List.mem_singleton.mp hname'
  have hnone {ms : Members} (habsent : Json.Absent [name'] ms) :
      (ms.filter fun m => decide (m.1 = name')) = [] :=
    List.filter_eq_nil_iff.mpr fun m hm => by simpa using habsent m hm
  simp [hnone hearlier, hnone hlater]

/-- What a field accepts and what the others accept make up what all of them accept. -/
theorem filter_accept_perm {name : String} {rest : Fields} (h : rest.accept name = false)
    (ms : Members) :
    (ms.filter (fun m => decide (m.1 = name)) ++ ms.filter fun m => rest.accept m.1).Perm
      (ms.filter fun m => decide (m.1 = name) || rest.accept m.1) := by
  induction ms with
  | nil => exact .refl _
  | cons m ms ih =>
    by_cases hm : m.1 = name
    · simpa [hm, h] using ih.cons m
    · cases hrest : rest.accept m.1 with
      | false => simpa [hm, hrest] using ih
      | true => simpa [hm, hrest] using List.perm_middle.trans (ih.cons m)

mutual

/-- A value of a shape that loses nothing is written as it was. -/
theorem Shape.toJson_of_denotes : (s : Shape) → s.isLossless = true → {v : Json} → v.WellFormed →
    {x : s.Value} → s.Denotes v x → s.toJson x = v
  | .string, _, _, _, _, h => h.symm
  | .number, _, _, _, _, h => h.symm
  | .any, _, _, _, _, h => h.symm
  | .objectOrString, _, _, _, .inl _, h => h.symm
  | .objectOrString, _, _, _, .inr _, h => h.symm
  | .list item, hs, _, hv, xs, ⟨vs, hvs, hall⟩ => by
    subst hvs
    cases hv with
    | array hitems =>
      refine congrArg Json.array ?_
      induction hall with
      | nil => rfl
      | cons hx _ ih =>
        have hhead := item.toJson_of_denotes hs (hitems _ List.mem_cons_self) hx
        rw [List.map_cons, hhead, ih fun v hv => hitems v (List.mem_cons_of_mem _ hv)]
  | .openRecord fields, hs, _, hv, (x, extra), ⟨ms, hms, hfields, hextra⟩ => by
    subst hms hextra
    cases hv with
    | object hordered hformed =>
      have hwritten := fields.toMembers_perm hs hordered hformed hfields
      have hall : (fields.toMembers x ++ ms.filter fun m => !fields.accept m.1).Perm ms :=
        (hwritten.append_right _).trans (List.filter_append_perm _ ms)
      have hnodup := (hall.map Prod.fst).nodup_iff.mpr hordered.nodup_keys
      exact congrArg Json.object (Dictionary.Ordered.eq_of_perm (Dictionary.ordered_ofList _) hordered
        ((Dictionary.perm_ofList hnodup).trans hall))

/-- The fields of a record that loses nothing are written as the members they accept. -/
theorem Fields.toMembers_perm : (fs : Fields) → fs.isLossless = true → {ms : Members} →
    Dictionary.Ordered ms → (∀ m ∈ ms, m.2.WellFormed) → {x : fs.Value} → fs.InMembers ms x →
    (fs.toMembers x).Perm (ms.filter fun m => fs.accept m.1)
  | .done, _, ms, _, _, (), _ => by
    rw [List.filter_eq_nil_iff.mpr fun m _ => Bool.not_eq_true _ ▸ rfl]
    exact .refl _
  | .required f s rest, hs, ms, hordered, hformed, (x, xs), ⟨⟨v, hsole, hx⟩, hxs⟩ => by
    simp only [Fields.isLossless, Bool.and_eq_true, Bool.not_eq_true', List.isEmpty_iff] at hs
    obtain ⟨⟨⟨haliases, hname⟩, hs⟩, hrest⟩ := hs
    have hnames : f.names = [f.name] := by rw [FieldName.names, haliases]
    have haccepts : ∀ name, f.accepts name = decide (name = f.name) := fun name => by
      simp [FieldName.accepts, haliases]
    rw [hnames] at hsole
    have hmem := (Json.sole_singleton_iff hordered).mp hsole
    have hvalue := s.toJson_of_denotes hs (hformed _ hmem) hx
    have hfield : [(f.name, s.toJson x)] = ms.filter fun m => decide (m.1 = f.name) := by
      rw [hvalue, filter_eq_singleton_of_sole hsole]
    simp only [Fields.accept, haccepts]
    refine List.Perm.trans ?_ (filter_accept_perm hname ms)
    rw [← hfield]
    exact (rest.toMembers_perm hrest hordered hformed hxs).cons _

end

end Wire

namespace ContentRegistry

/-- The members of an object make up a room message: two of them are its fields, and all others are what
it keeps besides. -/
structure MakesUp (ms : Members) (c : RoomMessage) : Prop where
  msgtype : ("msgtype", .string c.msgtype) ∈ ms
  body : ("body", .string c.body) ∈ ms
  extra : c.extra = ms.filter fun m => decide (m.1 ≠ "msgtype" ∧ m.1 ≠ "body")

/-- A room message is what an object denotes that its members make up. -/
theorem denotes_roomMessage_iff {v : Json} (hv : v.WellFormed) {c : RoomMessage} :
    (Wire.shape RoomMessage).Denotes v (Wire.toValue c) ↔ ∃ ms, v = .object ms ∧ MakesUp ms c := by
  have hextra (ms : Members) : (ms.filter fun m => !(Wire.Fields.required "msgtype" .string
      (.required "body" .string .done)).accept m.1) =
      ms.filter fun m => decide (m.1 ≠ "msgtype" ∧ m.1 ≠ "body") :=
    List.filter_congr fun m _ => by simp [Wire.Fields.accept, Wire.FieldName.accepts]
  refine exists_congr fun ms => and_congr_right fun hms => ?_
  subst hms
  cases hv with
  | object hordered _ =>
    have hfield (name : String) (x : String) :
        (∃ w, Json.Sole [name] ms w ∧ w = .string x) ↔ (name, .string x) ∈ ms := by
      simp [Json.sole_singleton_iff hordered]
    constructor
    · rintro ⟨⟨hmsgtype, hbody, -⟩, hkept⟩
      exact ⟨(hfield _ _).mp hmsgtype, (hfield _ _).mp hbody, hkept.trans (hextra ms)⟩
    · rintro ⟨hmsgtype, hbody, hkept⟩
      exact ⟨⟨(hfield _ _).mpr hmsgtype, (hfield _ _).mpr hbody, trivial⟩,
        hkept.trans (hextra ms).symm⟩

/-- A value is read as a room message exactly if it is an object whose members make one up. -/
theorem parse_roomMessage_iff {v : Json} (hv : v.WellFormed) {content : EventContent} :
    standard.parse "m.room.message" v = .ok content ↔
      ∃ ms c, v = .object ms ∧ MakesUp ms c ∧ content = .roomMessage c := by
  have hfinds (c : RoomMessage) :
      Wire.ofJson? v = some c ↔ ∃ ms, v = .object ms ∧ MakesUp ms c := by
    refine Iff.trans ?_ (((Wire.shape RoomMessage).finds v _).trans (denotes_roomMessage_iff hv))
    rw [Wire.ofJson?, Option.map_eq_some_iff]
    constructor
    · rintro ⟨x, hx, rfl⟩
      rwa [Wire.toValue_ofValue]
    · intro h
      exact ⟨_, h, Wire.ofValue_toValue c⟩
  change ContentParser.ofWire .roomMessage v = .ok content ↔ _
  unfold ContentParser.ofWire
  cases hread : (Wire.ofJson? v : Option RoomMessage) with
  | none =>
    simp only [reduceCtorEq, false_iff, not_exists, not_and]
    rintro ms c hms hc -
    rw [(hfinds c).mpr ⟨ms, hms, hc⟩] at hread
    cases hread
  | some c =>
    obtain ⟨ms, hms, hc⟩ := (hfinds c).mp hread
    constructor
    · intro h
      cases h
      exact ⟨ms, c, hms, hc, rfl⟩
    · rintro ⟨ms', c', hms', hc', rfl⟩
      rw [(hfinds c').mpr ⟨ms', hms', hc'⟩] at hread
      rw [Option.some.inj hread]

/-- A room message is written as the object that it was read from. -/
theorem toJson_of_makesUp {ms : Members} (hv : (Json.object ms).WellFormed) {c : RoomMessage}
    (hc : MakesUp ms c) : (EventContent.roomMessage c).toJson = .object ms :=
  (Wire.shape RoomMessage).toJson_of_denotes (by decide) hv
    ((denotes_roomMessage_iff hv).mpr ⟨ms, rfl, hc⟩)

/-- A value whose objects are in order is parsed as a room message exactly if it is an object with a
string under `msgtype` and one under `body`. The message then has these two, keeps exactly the other
members, none of them under either name, and is written as the value it was parsed from. -/
theorem roomMessage_lossless {v : Json} (hv : v.WellFormed) :
    ((∃ content, standard.parse "m.room.message" v = .ok content) ↔
        ∃ ms msgtype body, v = .object ms ∧ ("msgtype", .string msgtype) ∈ ms ∧
          ("body", .string body) ∈ ms) ∧
      ∀ content, standard.parse "m.room.message" v = .ok content →
        (∃ ms c, v = .object ms ∧ content = .roomMessage c ∧
          ("msgtype", .string c.msgtype) ∈ ms ∧ ("body", .string c.body) ∈ ms ∧
          Dictionary.Ordered c.extra ∧
          ∀ m, m ∈ c.extra ↔ m ∈ ms ∧ m.1 ≠ "msgtype" ∧ m.1 ≠ "body") ∧
        content.toJson = v := by
  refine ⟨⟨?_, ?_⟩, ?_⟩
  · rintro ⟨content, h⟩
    obtain ⟨ms, c, hms, hc, -⟩ := (parse_roomMessage_iff hv).mp h
    exact ⟨ms, c.msgtype, c.body, hms, hc.msgtype, hc.body⟩
  · rintro ⟨ms, msgtype, body, hms, hmsgtype, hbody⟩
    exact ⟨_, (parse_roomMessage_iff hv).mpr
      ⟨ms, ⟨msgtype, body, _⟩, hms, ⟨hmsgtype, hbody, rfl⟩, rfl⟩⟩
  · intro content h
    obtain ⟨ms, c, rfl, hc, rfl⟩ := (parse_roomMessage_iff hv).mp h
    have hordered : Dictionary.Ordered c.extra := by
      cases hv with
      | object hordered _ => exact hc.extra ▸ List.Pairwise.filter _ hordered
    refine ⟨⟨ms, c, rfl, rfl, hc.msgtype, hc.body, hordered, fun m => ?_⟩, toJson_of_makesUp hv hc⟩
    simp [hc.extra]

/-- A notice has its body and type among other members, one of them an object of its own. -/
theorem roomMessage_lossless_of_notice :
    ∃ content, standard.parse "m.room.message" (.object [("body", .string "hi"),
        ("info", .object [("body", .null)]), ("msgtype", .string "m.notice")]) = .ok content ∧
      content.toJson = .object [("body", .string "hi"), ("info", .object [("body", .null)]),
        ("msgtype", .string "m.notice")] := by
  have hformed : (Json.object [("body", .string "hi"), ("info", .object [("body", .null)]),
      ("msgtype", .string "m.notice")]).WellFormed := by
    refine .object (by unfold Dictionary.Ordered; decide) ?_
    refine List.forall_mem_cons.mpr ⟨.string _, List.forall_mem_cons.mpr
      ⟨.object (List.pairwise_singleton _ _) (List.forall_mem_singleton.mpr .null),
        List.forall_mem_singleton.mpr (.string _)⟩⟩
  obtain ⟨hreads, hkeeps⟩ := roomMessage_lossless hformed
  obtain ⟨content, h⟩ := hreads.mpr ⟨_, "m.notice", "hi", rfl, by simp, by simp⟩
  exact ⟨content, h, (hkeeps content h).2⟩

end ContentRegistry

end OlmReceiver
