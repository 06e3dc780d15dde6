import OlmReceiver.Proofs.AlikeTexts
import OlmReceiver.Proofs.CutTexts
import OlmReceiver.Proofs.Desync
import OlmReceiver.Proofs.Oblivious
import OlmReceiver.Proofs.RoundTrip

/-!
# Truncated payloads are refused

The text of a payload ends with the brace that closes it. Wherever the text is cut off in front of
that, within a name or an escape, between members or deep inside the content, the reader runs out of
text before it finds another fault. The message that carries the text has been decrypted by then, so
that the receiver has changed as it would have with the whole text, but for the payload nothing
comes of it, and no session is taken to be out of sync.

Open records are left out: what they keep besides may be named as a field, and be read as one.
-/

namespace OlmReceiver

open Json (Reader Reads Settled Severs BeginsWith Fault opensValue)
open Text (Cut)

namespace Wire

variable {α β σ : Type}

mutual

/-- Whether no record in a shape keeps members besides its fields. -/
def Shape.isClosed : Shape → Bool
  | .list item => item.isClosed
  | .record fields => fields.isClosed
  | .openRecord _ => false
  | _ => true

/-- Whether no record in the fields keeps members besides its own. -/
def Fields.isClosed : Fields → Bool
  | .done => true
  | .required _ s rest => s.isClosed && rest.isClosed
  | .optional _ s rest => s.isClosed && rest.isClosed
  | .repeated _ s rest => s.isClosed && rest.isClosed

end

/-! ## Parts of shapes -/

/-- A scalar of the wanted shape is truncated where it is cut off, or a shorter number. -/
theorem severs_scalarOf {pick? : Json → Option α} {v : Json} (hv : v.IsScalar)
    (hnumber : ∀ n n', v = .number n → ∃ a, pick? (.number n') = some a) :
    Severs (scalarOf pick?) v.toText where
  settles := exists_settles_scalarOf pick? v
  cut a hread t h := by
    rcases Json.dispatch_scalar_cut hv h with hshort | hscalar
    · exact .inl hshort
    have hall := hread [] Json.ends_nil
    rw [scalarOf, Json.dispatch_scalar (Json.beginsWith_scalar hv)] at hall
    obtain ⟨⟨w, r⟩, hrun, -⟩ := bind_eq_ok_iff.mp hall
    obtain ⟨hreads, -⟩ := (Json.severs_scalar hv).reads Json.ends_nil hrun
    rw [scalarOf, hscalar]
    rcases Json.scalar_cut hv hreads h with hshort | ⟨n, n', hn, hn'⟩
    · left
      rw [hshort]
      rfl
    · right
      obtain ⟨a', ha'⟩ := hnumber n n' hn
      exact ⟨a', by simp only [hn', bind, Except.bind, ha']⟩

/-- An array is truncated where it is cut off. -/
theorem severs_list {item : (depth : Nat) → Reader α} {text : β → Text} {xs : List β}
    (h : ∀ depth, ∀ x, BeginsWith opensValue (text x) ∧ Severs (item depth) (text x)) (depth : Nat) :
    Severs (list depth item) (Json.bracketed (xs.map text)) := by
  have hitems (depth : Nat) : ∀ t ∈ xs.map text, BeginsWith opensValue t ∧ Severs (item depth) t := by
    intro t ht
    obtain ⟨x, -, rfl⟩ := List.mem_map.mp ht
    exact h depth x
  cases depth with
  | zero =>
    exact ⟨⟨.error .malformed, Json.settles_bracketed fun _ => rfl⟩, fun a hread => by
      cases hread [] Json.ends_nil⟩
  | succ depth =>
    constructor
    · obtain ⟨o, ho, -⟩ := Json.exists_settlesItems fun t ht =>
        ⟨(hitems depth t ht).1, (hitems depth t ht).2.settled⟩
      exact ⟨o, settles_items ho⟩
    · intro a hread t ht
      have hall := hread [] Json.ends_nil
      rw [list, Json.bracketed_append, Json.dispatch_array] at hall
      exact .inl (Json.dispatch_bracketed_cut
        (fun s hs => Json.elements_cut (hitems depth) hall hs _) ht)

/-- A value other than null is cut off as a present one. -/
theorem severs_nullable {item : Reader α} {w : Text} (hw : BeginsWith opensPresent w)
    (h : Severs item w) : Severs (nullable item) w where
  settles := by
    obtain ⟨o, ho⟩ := h.settles
    exact ⟨_, settles_nullable hw ho⟩
  cut a hread t ht := by
    obtain ⟨o, ho⟩ := h.settles
    have heq := (settles_nullable hw ho).unique (Json.settles_ok_iff.mpr hread)
    cases o with
    | error fault => cases heq
    | ok a =>
      have hnull : (Text.dropBlanks t).head? ≠ some 'n'.toUInt8 := by
        rcases hw.cut ht with rfl | hbegins
        · simp [Text.dropBlanks]
        · have hblanks := Json.dropBlanks_append (hbegins.mono opensValue_of_opensPresent) []
          rw [List.append_nil] at hblanks
          rw [hblanks]
          obtain ⟨b, r, rfl, hb⟩ := hbegins
          simp only [opensPresent, Bool.and_eq_true, bne_iff_ne] at hb
          simpa using hb.2
      rw [nullable, if_neg hnull]
      rcases h.cut a ho t ht with hshort | ⟨a', ha'⟩
      · exact .inl (by rw [hshort]; rfl)
      · exact .inr ⟨some a', by rw [ha']; rfl⟩

/-- A field is cut off as its value is. -/
theorem severs_fillSlot {item : Reader α} {w : Text} (h : Severs item w) (slot : Option α) :
    Severs (fillSlot slot item) (Byte.colon :: w) := by
  cases slot with
  | some a => exact ⟨⟨.error .shape, fun _ _ => rfl⟩, fun _ hread => by cases hread [] Json.ends_nil⟩
  | none => exact h.memberValue.map some

/-- A member of the name of the first field of a record is cut off as the value of that is. -/
theorem severs_pairMember_first {item : Reader α} {w : Text} (h : Severs item w) (f : FieldName)
    (rest : σ → Reader σ) (slots : Option α × σ) :
    Severs (pairMember f item rest f.name slots) (Byte.colon :: w) := by
  unfold pairMember
  simp only [f.accepts_name, if_true]
  exact (severs_fillSlot h slots.1).map fun slot => (slot, slots.2)

/-- A member of another name is cut off as the fields behind are. -/
theorem severs_pairMember_later {f : FieldName} {rest : σ → Reader σ} {name : String}
    (hname : f.accepts name = false) {slots : Option α × σ} {w : Text}
    (h : Severs (rest slots.2) (Byte.colon :: w)) (item : Reader α) :
    Severs (pairMember f item rest name slots) (Byte.colon :: w) := by
  unfold pairMember
  simp only [hname, Bool.false_eq_true, if_false]
  exact h.map fun rest => (slots.1, rest)

/-- Where an object or a string is wanted, a value other than a number is truncated where it is cut
off. -/
theorem severs_objectOrString (levels : Nat) {v : Json} (hv : ∀ n, v ≠ .number n) :
    Severs (Shape.objectOrString.read levels) v.toText where
  settles := exists_settles_objectOrString levels v
  cut a hread t h := by
    have hall := hread [] Json.ends_nil
    rw [Shape.read] at hall
    obtain ⟨⟨w, r⟩, hrun, -⟩ := bind_eq_ok_iff.mp hall
    obtain ⟨hreads, -⟩ := (Json.severs_value levels v).reads Json.ends_nil hrun
    rcases Json.value_cut hreads h with hshort | ⟨n, -, hn, -⟩
    · left
      simp only [Shape.read, hshort, bind, Except.bind]
    · exact absurd hn (hv n)

/-! ## Shapes -/

/-- The members that a record is written as are cut off in it as they are among its fields. -/
theorem Fields.severs_step {fs : Fields} {levels : Nat} {x : fs.Value}
    (h : ∀ m ∈ fs.namedTexts x, ∀ slots,
      Severs (fs.readMember levels m.1 slots) (Byte.colon :: m.2)) :
    ∀ m ∈ fs.namedTexts x, ∀ slots, Severs (fs.step levels slots m.1) (Byte.colon :: m.2) := by
  intro m hm slots
  have hstep : fs.step levels slots m.1 = fs.readMember levels m.1 slots := by
    funext s
    rw [step, if_pos (fs.accept_of_mem_names m.1 (fs.mem_names x m hm))]
  rw [hstep]
  exact h m hm slots

/-- A record is truncated where it is cut off, if its members are cut off as the values of its
fields. -/
theorem Shape.record_cut {fields : Fields} {x : fields.Value}
    (hms : ∀ levels, ∀ m ∈ fields.namedTexts x, ∀ slots,
      Severs (fields.readMember levels m.1 slots) (Byte.colon :: m.2)) {levels : Nat}
    {a : fields.Value}
    (hread : Reads ((Shape.record fields).read levels) ((Shape.record fields).toText x) a)
    {t : Text} (h : Cut t ((Shape.record fields).toText x)) :
    (Shape.record fields).read levels t = .error .truncated := by
  rw [Shape.toText, fields.toTexts_eq_map] at hread h
  have hall := hread [] Json.ends_nil
  rw [Json.braced_append, Shape.read, Json.dispatch_object] at hall
  cases levels with
  | zero => cases hall
  | succ levels =>
    obtain ⟨p, hrun, -⟩ := bind_eq_ok_iff.mp hall
    rw [Shape.read]
    refine Json.dispatch_braced_cut (fun s hs => ?_) h
    have hmembers := Json.members_cut (Fields.severs_step (hms levels)) hrun hs (s.length + 1)
    unfold Fields.step at hmembers
    simp only [enter]
    rw [hmembers]
    rfl

/-- A record is cut off as its members are. -/
theorem Shape.severs_record {fields : Fields} {x : fields.Value}
    (hms : ∀ levels, ∀ m ∈ fields.namedTexts x, ∀ slots,
      Severs (fields.readMember levels m.1 slots) (Byte.colon :: m.2)) (levels : Nat) :
    Severs ((Shape.record fields).read levels) ((Shape.record fields).toText x) where
  settles := by
    rw [Shape.toText, fields.toTexts_eq_map]
    cases levels with
    | zero => exact ⟨.error .malformed, Json.settles_braced fun _ => rfl⟩
    | succ levels =>
      have hsettled : ∀ m ∈ fields.namedTexts x, ∀ slots,
          Settled False (fields.step levels slots (Json.Mode.keep.name m.1)) (Byte.colon :: m.2) :=
        fun m hm slots => (Fields.severs_step (hms levels) m hm slots).settled
      obtain ⟨o, ho, -⟩ := Json.exists_settlesMembers hsettled fields.vacant
      exact ⟨_, Shape.settles_record ho⟩
  cut _ hread _ h := .inl (Shape.record_cut hms hread h)

mutual

/-- Whatever a sound and closed shape denotes is truncated where its text is cut off, or a shorter
number. -/
theorem Shape.severs : (s : Shape) → s.isSound = true → s.isClosed = true → (levels : Nat) →
    (x : s.Value) → Severs (fun t => s.read levels t) (s.toText x)
  | .string, _, _, _, x => severs_scalarOf (v := .string x) trivial (by simp)
  | .number, _, _, _, n => severs_scalarOf (v := .number n) trivial fun _ n' _ => ⟨n', rfl⟩
  | .any, _, _, levels, v => Json.severs_value levels v
  | .objectOrString, _, _, levels, .inl ms => severs_objectOrString levels (v := .object ms) (by simp)
  | .objectOrString, _, _, levels, .inr x => severs_objectOrString levels (v := .string x) (by simp)
  | .list item, hs, hc, levels, _ =>
    severs_list (fun levels x => ⟨item.beginsWith_toText x, item.severs hs hc levels x⟩) levels
  | .record fields, hs, hc, levels, x =>
    Shape.severs_record (fun levels => fields.severs_member hs hc levels x) levels
  | .openRecord _, _, hc, _, _ => by cases hc

/-- The members that a sound and closed record is written as are cut off as the values of its
fields. -/
theorem Fields.severs_member : (fs : Fields) → fs.isSound = true → fs.isClosed = true →
    (levels : Nat) → (x : fs.Value) → ∀ m ∈ fs.namedTexts x, ∀ slots,
    Severs (fs.readMember levels m.1 slots) (Byte.colon :: m.2)
  | .done, _, _, _, (), m, hm, _ => by simp [Fields.namedTexts] at hm
  | .required f s rest, hs, hc, levels, (x, xs), m, hm, slots => by
    simp only [Fields.isSound, Bool.and_eq_true] at hs
    simp only [Fields.isClosed, Bool.and_eq_true] at hc
    obtain ⟨⟨hshape, hnames⟩, hsound⟩ := hs
    rcases List.mem_cons.mp hm with rfl | hm
    · exact severs_pairMember_first (s.severs hshape hc.1 levels x) f _ slots
    · exact severs_pairMember_later (Fields.not_accepts hnames m hm)
        (rest.severs_member hsound hc.2 levels xs m hm slots.2) _
  | .optional f s rest, hs, hc, levels, (none, xs), m, hm, slots => by
    simp only [Fields.isSound, Bool.and_eq_true] at hs
    simp only [Fields.isClosed, Bool.and_eq_true] at hc
    exact severs_pairMember_later (Fields.not_accepts hs.1.2 m hm)
      (rest.severs_member hs.2 hc.2 levels xs m hm slots.2) _
  | .optional f s rest, hs, hc, levels, (some x, xs), m, hm, slots => by
    simp only [Fields.isSound, Bool.and_eq_true] at hs
    simp only [Fields.isClosed, Bool.and_eq_true] at hc
    obtain ⟨⟨⟨hshape, hnull⟩, hnames⟩, hsound⟩ := hs
    rcases List.mem_cons.mp hm with rfl | hm
    · have hitem :=
        severs_nullable (s.beginsWith_opensPresent hnull x) (s.severs hshape hc.1 levels x)
      exact severs_pairMember_first hitem f _ slots
    · exact severs_pairMember_later (Fields.not_accepts hnames m hm)
        (rest.severs_member hsound hc.2 levels xs m hm slots.2) _
  | .repeated f s rest, hs, hc, levels, (xs, vs), m, hm, slots => by
    simp only [Fields.isSound, Bool.and_eq_true] at hs
    simp only [Fields.isClosed, Bool.and_eq_true] at hc
    obtain ⟨⟨hshape, hnames⟩, hsound⟩ := hs
    rcases List.mem_cons.mp hm with rfl | hm
    · have hitem (levels : Nat) (x : s.Value) :=
        And.intro (s.beginsWith_toText x) (s.severs hshape hc.1 levels x)
      exact severs_pairMember_first (severs_list hitem levels) f _ slots
    · exact severs_pairMember_later (Fields.not_accepts hnames m hm)
        (rest.severs_member hsound hc.2 levels vs m hm slots.2) _

end

/-- The text of a record that is read is truncated where it is cut off. -/
theorem Shape.complete_cut {fields : Fields} (hs : fields.isSound = true)
    (hc : fields.isClosed = true) {levels : Nat} {x y : fields.Value}
    (haccepted :
      Json.complete ((Shape.record fields).read levels) ((Shape.record fields).toText x) = .ok y)
    {t : Text} (h : Cut t ((Shape.record fields).toText x)) :
    Json.complete ((Shape.record fields).read levels) t = .error .truncated := by
  obtain ⟨⟨y', r⟩, hrun, -⟩ := bind_eq_ok_iff.mp haccepted
  rw [← List.append_nil ((Shape.record fields).toText x)] at hrun
  obtain ⟨hreads, -⟩ := ((Shape.record fields).severs hs hc levels x).reads Json.ends_nil hrun
  have hcut := Shape.record_cut (fun levels => fields.severs_member hs hc levels x) hreads h
  rw [Json.complete, hcut]
  rfl

end Wire

/-- A payload whose text is read is truncated where its text is cut off. -/
theorem Payload.ofText_cut {p : Payload}
    (haccepted : ∃ q : Payload, Wire.ofText (Wire.toText p) = .ok q) {t : Text}
    (h : Cut t (Wire.toText p)) :
    (Wire.ofText t : Except Fault Payload) = .error .truncated := by
  obtain ⟨q, hq⟩ := haccepted
  obtain ⟨y, hread, -⟩ := bind_eq_ok_iff.mp hq
  have hcut : Json.complete ((Wire.shape Payload).read Json.maxDepth) t = .error .truncated :=
    Wire.Shape.complete_cut (by decide) (by decide) hread h
  rw [Wire.ofText, hcut]
  rfl

namespace Receiver

open Ratchet (Message)

/-- The event is refused, as the payload in it ends too early, and nothing else comes of that: no
session is taken to be out of sync, and the receiver is left as any event leaves it whose message
for us is the same but for the whole text. -/
structure RefusesTruncated (r : Receiver) (e : Event) (env : Envelope) (t whole : Text) : Prop where
  answer : (r.decrypt e).answer = .error (.malformedPayload .truncated)
  unhanded : r.handed e = []
  sink : (r.decrypt e).receiver.sink = r.sink
  receiver : ∃ m, Message.decode env.body = .ok m ∧ Text.ofString m.plaintext = t ∧
    ∀ (e' : Event) (body : String) (x : String), e'.sender = e.sender →
      Envelope.ofContent r.ownKey e'.content = .ok { env with body } →
      Message.decode body = .ok { m with plaintext := x } → Text.ofString x = whole →
      (r.decrypt e').receiver = (r.decrypt e).receiver

/-- Messages that differ in their plaintexts leave the same receiver, if their events have the same
sender. -/
theorem decrypt_receiver_of_twin {r : Receiver} {e e' : Event} {env : Envelope} {body x : String}
    (htwin : TwinBodies env.body body x) (hsender : e'.sender = e.sender)
    (hopen : Envelope.ofContent r.ownKey e.content = .ok env)
    (hopen' : Envelope.ofContent r.ownKey e'.content = .ok { env with body }) :
    (r.decrypt e').receiver = (r.decrypt e).receiver := by
  rw [decrypt_receiver_eq, decrypt_receiver_eq, hopen, hopen', hsender]
  exact (congrArg Outcome.receiver (htwin.plaintext r e.sender)).trans rfl

/-- A message that is decrypted to a text that is no payload is refused for the fault of the text. -/
theorem decrypt_of_no_payload {r : Receiver} {e : Event} {env : Envelope} {t : Text} {fault : Fault}
    (hopen : Envelope.ofContent r.ownKey e.content = .ok env)
    (hplain : (r.plaintext e.sender env).answer = .ok t)
    (hread : (Wire.ofText t : Except Fault Payload) = .error fault) :
    (r.decrypt e).answer = .error (.malformedPayload fault) ∧ r.handed e = [] := by
  have hanswer : (r.decrypt e).answer = .error (.malformedPayload fault) := by
    rw [(decrypt_of_opened hopen).1, hplain, Except.bind, accept, hread]
  refine ⟨hanswer, ?_⟩
  rcases r.handed_eq e with ⟨-, -, hdesynced, -⟩ | ⟨-, hhanded⟩
  · rw [hanswer] at hdesynced
    cases hdesynced
  · exact hhanded

/-- No payload is read off a text that is cut off from that of an accepted one: the reader reports
that the text ends, and a message that is decrypted to it is refused for that alone. -/
theorem refuses_truncated_payloads {p : Payload}
    (haccepted : ∃ q : Payload, Wire.ofText (Wire.toText p) = .ok q) {t : Text}
    (hbegins : t <+: Wire.toText p) (hne : t ≠ Wire.toText p) :
    (Wire.ofText t : Except Fault Payload) = .error .truncated ∧
      ∀ (r : Receiver) (e : Event) (env : Envelope),
        Envelope.ofContent r.ownKey e.content = .ok env →
        (r.plaintext e.sender env).answer = .ok t →
        r.RefusesTruncated e env t (Wire.toText p) := by
  have hcut := Payload.ofText_cut haccepted ⟨hbegins, hne⟩
  refine ⟨hcut, fun r e env hopen hplain => ?_⟩
  obtain ⟨hanswer, hhanded⟩ := decrypt_of_no_payload hopen hplain hcut
  obtain ⟨-, m, hbody, -, ht⟩ := plaintext_eq_ok_iff_yields.mp hplain
  exact
    { answer := hanswer
      unhanded := hhanded
      sink := by rw [sink_decrypt, hhanded, List.foldl_nil]
      receiver := ⟨m, hbody, ht.symm, fun e' body x hsender hopen' hbody' _ =>
        decrypt_receiver_of_twin ⟨m, hbody, hbody'⟩ hsender hopen hopen'⟩ }

/-- A message with the beginning of the greeting, which stops within the name of the sender. -/
def helloCut : Message :=
  ⟨"S7", some "OTK7", "\x7b\"sender\":\"@al"⟩

/-- A message with the beginning of the greeting is decrypted, and refused as truncated. -/
theorem refuses_truncated_payloads_of_helloCut :
    withTwoKeys.RefusesTruncated
      (.carrying ⟨"@alice:localhost"⟩ ⟨"ALICEKEY"⟩ ⟨"BOBKEY"⟩ .preKey helloCut)
      ⟨⟨"ALICEKEY"⟩, .preKey, helloCut.encode⟩ (Text.ofString helloCut.plaintext)
      (Wire.toText greeting) := by
  have haccepted : ∃ q : Payload, Wire.ofText (Wire.toText greeting) = .ok q :=
    ⟨greeting, Payload.ofText_toText legible_greeting⟩
  have hbegins : Text.ofString helloCut.plaintext <+: Wire.toText greeting := by
    decide +kernel
  have hne : Text.ofString helloCut.plaintext ≠ Wire.toText greeting := by
    decide +kernel
  have hnew : withTwoKeys.Bootstraps ⟨⟨"ALICEKEY"⟩, .preKey, helloCut.encode⟩ helloCut "OTK7" :=
    { type := rfl
      body := helloCut.decode_encode
      unclaimed := fun _ hs => absurd hs List.not_mem_nil
      named := rfl
      unused := rfl }
  refine (refuses_truncated_payloads haccepted hbegins hne).2 withTwoKeys _ _
    (Envelope.ofContent_toRecipient _ _ _ _ _) ?_
  exact plaintext_eq_ok_iff_yields.mpr
    ⟨rfl, helloCut, helloCut.decode_encode, .inr ⟨"OTK7", hnew, rfl, rfl⟩, rfl⟩

end Receiver

end OlmReceiver
