import OlmReceiver.Ordered.KeySet
import OlmReceiver.Proofs.SkippedTokens

/-!
# Written values are read back

A value that nests no deeper than the reader goes, whose objects have their members in order and whose
numbers are integers, is read back from its text. The loops that read elements and members are
treated apart from what they read, as records are read by the same loops.

Doubles are left out: their texts are read back up to the rounding of the reader.
-/

namespace OlmReceiver

namespace Dictionary

variable {α : Type}

/-- A key behind all others is added at the end. -/
theorem insert_last {k : String} {a : α} {d : Dictionary String α} (h : ∀ e ∈ d, e.1 < k) :
    insert k a d = d ++ [(k, a)] := by
  induction d with
  | nil => rfl
  | cons e d ih =>
    obtain ⟨k', a'⟩ := e
    have hk' : k' < k := h (k', a') List.mem_cons_self
    have hne : k ≠ k' := by
      rintro rfl
      exact String.lt_irrefl k hk'
    have hnlt : ¬ k < k' := fun hlt => String.lt_irrefl k (String.lt_trans hlt hk')
    rw [insert, if_neg hne, if_neg hnlt, ih fun e he => h e (List.mem_cons_of_mem _ he)]
    rfl

/-- Entries in order are added one behind the other. -/
theorem foldl_insert_of_ordered {d entries : Dictionary String α} (h : Ordered (d ++ entries)) :
    entries.foldl (fun d e => insert e.1 e.2 d) d = d ++ entries := by
  induction entries generalizing d with
  | nil => simp
  | cons e entries ih =>
    have hlast : ∀ f ∈ d, f.1 < e.1 := fun f hf =>
      (List.pairwise_append.mp h).2.2 f hf e List.mem_cons_self
    rw [List.foldl_cons, insert_last hlast, ih (by simpa using h)]
    simp

/-- Entries in order are the dictionary of themselves. -/
theorem ofList_of_ordered {entries : Dictionary String α} (h : Ordered entries) :
    ofList entries = entries :=
  foldl_insert_of_ordered (d := []) h

end Dictionary

namespace Json

variable {α σ : Type}

/-! ## The loops -/

/-- An array and what follows it. -/
theorem bracketed_append (ts : List Text) (rest : Text) :
    bracketed ts ++ rest = Byte.openBracket :: (separated ts ++ Byte.closeBracket :: rest) := by
  simp [bracketed]

/-- An object and what follows it. -/
theorem braced_append (ts : List Text) (rest : Text) :
    braced ts ++ rest = Byte.openBrace :: (separated ts ++ Byte.closeBrace :: rest) := by
  simp [braced]

/-- Texts with a comma in front of each. -/
def commaEach (ts : List Text) : Text :=
  ts.flatMap fun t => Byte.comma :: t

/-- Between texts there is a comma in front of each but the first. -/
theorem separated_cons (t : Text) (ts : List Text) : separated (t :: ts) = t ++ commaEach ts := by
  induction ts generalizing t with
  | nil => simp [separated, commaEach]
  | cons u ts ih =>
    rw [separated, ih u]
    simp [commaEach]

/-- Every text has a comma of its own. -/
theorem length_le_commaEach (ts : List Text) : ts.length ≤ (commaEach ts).length := by
  induction ts with
  | nil => exact Nat.le_refl 0
  | cons t ts ih =>
    simp only [commaEach, List.flatMap_cons, List.length_append, List.length_cons] at ih ⊢
    omega

/-- A value among others ends at the next comma or at the closing bracket. -/
theorem ends_commaEach {close : UInt8} (hclose : close = Byte.closeBracket ∨ close = Byte.closeBrace)
    (ts : List Text) (rest : Text) : Ends (commaEach ts ++ close :: rest) := by
  cases ts with
  | nil => exact ends_cons (.inr hclose) rest
  | cons t ts => exact ends_cons (.inl rfl) _

/-- A byte that opens a value is no closing bracket. -/
theorem ne_of_opensValue {close b : UInt8}
    (hclose : close = Byte.closeBracket ∨ close = Byte.closeBrace) (hb : opensValue b = true) :
    b ≠ close := by
  simp only [opensValue, Bool.and_eq_true, bne_iff_ne] at hb
  obtain rfl | rfl := hclose
  · exact hb.1.2
  · exact hb.2

/-- A first item is announced by what it begins with. -/
theorem another_first {close : UInt8} (hclose : close = Byte.closeBracket ∨ close = Byte.closeBrace)
    {t : Text} (ht : BeginsWith opensValue t) (rest : Text) :
    another close true (t ++ rest) = .ok (true, t ++ rest) := by
  rw [another, dropBlanks_append ht]
  obtain ⟨b, r, rfl, hb⟩ := ht
  simp [ne_of_opensValue hclose hb]

/-- A further item is announced by a comma. -/
theorem another_comma {close : UInt8} (hclose : close = Byte.closeBracket ∨ close = Byte.closeBrace)
    {t : Text} (ht : BeginsWith opensValue t) (rest : Text) :
    another close false (Byte.comma :: (t ++ rest)) = .ok (true, t ++ rest) := by
  have hcomma : Text.dropBlanks (Byte.comma :: (t ++ rest)) = Byte.comma :: (t ++ rest) := rfl
  have hne : Byte.comma ≠ close := by
    obtain rfl | rfl := hclose
    all_goals decide
  rw [another, hcomma]
  simp only [hne, if_false, Bool.false_eq_true, if_true]
  rw [dropBlanks_append ht]
  obtain ⟨b, r, rfl, hb⟩ := ht
  simp [ne_of_opensValue hclose hb]

/-- The texts of the items that are left of an array or an object, of which all but the first follow a
comma. -/
def itemsText (first : Bool) (ts : List Text) : Text :=
  if first then separated ts else commaEach ts

/-- Behind the last item there is none. -/
theorem another_itemsText_nil {close : UInt8}
    (hclose : close = Byte.closeBracket ∨ close = Byte.closeBrace) (first : Bool) (rest : Text) :
    another close first (itemsText first [] ++ close :: rest) = .ok (false, close :: rest) := by
  obtain rfl | rfl := hclose
  all_goals cases first <;> rfl

/-- An item is announced in front of those behind it. -/
theorem another_itemsText_cons {close : UInt8}
    (hclose : close = Byte.closeBracket ∨ close = Byte.closeBrace) {t : Text}
    (ht : BeginsWith opensValue t) (first : Bool) (ts : List Text) (rest : Text) :
    another close first (itemsText first (t :: ts) ++ close :: rest) =
      .ok (true, t ++ (itemsText false ts ++ close :: rest)) := by
  cases first with
  | true =>
    have htext : itemsText true (t :: ts) = t ++ itemsText false ts := separated_cons t ts
    rw [htext, List.append_assoc]
    exact another_first hclose ht _
  | false =>
    have htext : itemsText false (t :: ts) = Byte.comma :: (t ++ itemsText false ts) := rfl
    rw [htext, List.cons_append, List.append_assoc]
    exact another_comma hclose ht _

/-- The loops have fuel for all items of a text that is closed. -/
theorem length_lt_itemsText (ts : List Text) (close : UInt8) (rest : Text) :
    ts.length < (itemsText true ts ++ close :: rest).length + 1 := by
  cases ts with
  | nil => exact Nat.succ_pos _
  | cons t ts =>
    have hlength := length_le_commaEach ts
    have htext : itemsText true (t :: ts) = t ++ commaEach ts := separated_cons t ts
    simp only [htext, List.length_append, List.length_cons]
    omega

/-- What reading elements one by one comes to: all of them, or the fault of the first that fails. -/
inductive SettlesItems (item : Reader α) : List Text → Except Fault (List α) → Prop
  | nil : SettlesItems item [] (.ok [])
  | fail {t : Text} {fault : Fault} {ts : List Text} (hbegins : BeginsWith opensValue t)
    (hitem : Settles item t (.error fault)) : SettlesItems item (t :: ts) (.error fault)
  | cons {t : Text} {a : α} {ts : List Text} {o : Except Fault (List α)}
    (hbegins : BeginsWith opensValue t) (hitem : Reads item t a) (hrest : SettlesItems item ts o) :
    SettlesItems item (t :: ts) (o.map (a :: ·))

/-- The elements that are left of an array are read to their end or up to the first fault. -/
theorem SettlesItems.elements {item : Reader α} {ts : List Text} {o : Except Fault (List α)}
    (h : SettlesItems item ts o) (first : Bool) (rest : Text) {fuel : Nat} (hfuel : ts.length < fuel) :
    elements item fuel first (itemsText first ts ++ Byte.closeBracket :: rest) =
      o.map fun as => (as, rest) := by
  induction h generalizing fuel first with
  | nil =>
    obtain ⟨fuel, rfl⟩ := Nat.exists_eq_add_of_lt hfuel
    simp only [Json.elements, another_itemsText_nil (.inl rfl), bind, Except.bind]
    rfl
  | @fail t fault ts hbegins hitem =>
    obtain ⟨fuel, rfl⟩ := Nat.exists_eq_add_of_lt hfuel
    have hends := hitem _ (ends_commaEach (.inl rfl) ts rest)
    simp only [Json.elements, another_itemsText_cons (.inl rfl) hbegins, bind, Except.bind, if_true]
    rw [show itemsText false ts = commaEach ts from rfl, hends]
    rfl
  | @cons t a ts o hbegins hitem hts ih =>
    obtain ⟨fuel, rfl⟩ := Nat.exists_eq_add_of_lt hfuel
    have hends := hitem _ (ends_commaEach (.inl rfl) ts rest)
    have hrest := @ih false (List.length (t :: ts) + fuel) (by simp; omega)
    simp only [Json.elements, another_itemsText_cons (.inl rfl) hbegins, bind, Except.bind, if_true]
    rw [show itemsText false ts = commaEach ts from rfl] at hrest ⊢
    rw [hends]
    dsimp only
    rw [hrest]
    cases o <;> rfl

/-- Elements that are read one by one from their texts. -/
inductive ReadsItems (item : Reader α) : List Text → List α → Prop
  | nil : ReadsItems item [] []
  | cons {t : Text} {a : α} {ts : List Text} {as : List α} (hbegins : BeginsWith opensValue t)
    (hread : Reads item t a) (hrest : ReadsItems item ts as) : ReadsItems item (t :: ts) (a :: as)

theorem ReadsItems.settles {item : Reader α} {ts : List Text} {as : List α}
    (h : ReadsItems item ts as) : SettlesItems item ts (.ok as) := by
  induction h with
  | nil => exact .nil
  | cons hbegins hread _ ih => exact .cons hbegins hread ih

/-- Elements are read one by one if each is read from its own text. -/
theorem readsItems_map {β : Type} {item : Reader α} {text : β → Text} {read : β → α} {bs : List β}
    (h : ∀ b ∈ bs, BeginsWith opensValue (text b) ∧ Reads item (text b) (read b)) :
    ReadsItems item (bs.map text) (bs.map read) := by
  induction bs with
  | nil => exact .nil
  | cons b bs ih =>
    obtain ⟨hbegins, hread⟩ := h b List.mem_cons_self
    exact .cons hbegins hread (ih fun b' hb' => h b' (List.mem_cons_of_mem b hb'))

/-- The elements of an array are read to their end or up to the first fault. -/
theorem SettlesItems.separated {item : Reader α} {ts : List Text} {o : Except Fault (List α)}
    (h : SettlesItems item ts o) (rest : Text) :
    Json.elements item ((Json.separated ts ++ Byte.closeBracket :: rest).length + 1) true
      (Json.separated ts ++ Byte.closeBracket :: rest) = o.map fun as => (as, rest) :=
  h.elements true rest (length_lt_itemsText ts _ rest)

/-- The text of a member given by its name and the text of its value. -/
def memberOf (m : String × Text) : Text :=
  memberText m.1 m.2

/-- A member begins with the quote of its name. -/
theorem beginsWith_memberOf (m : String × Text) : BeginsWith opensValue (memberOf m) := by
  obtain ⟨b, r, hquoted, hb⟩ := beginsWith_quoted (p := opensValue) (by decide) m.1
  exact ⟨b, r ++ Byte.colon :: m.2, by rw [memberOf, memberText, hquoted]; rfl, hb⟩

/-- The name that is handed on, which stands for none where the member is passed over. -/
def Mode.name : Mode → String → String
  | .keep, x => x
  | .skip, _ => ""

/-- Behind the name of a member its value is read. -/
theorem key_memberOf (mode : Mode) (m : String × Text) (rest : Text) :
    Token.key mode (memberOf m ++ rest) = .ok (mode.name m.1, Byte.colon :: m.2 ++ rest) := by
  have hkeep : Token.key .keep (memberOf m ++ rest) = .ok (m.1, Byte.colon :: m.2 ++ rest) := by
    rw [memberOf, memberText, List.append_assoc, key_quoted]
  cases mode with
  | keep => exact hkeep
  | skip => exact key_skip hkeep

/-- What reading members one behind the other comes to, each on what has been read of those before it:
what is read of all, or the fault of the first that fails. -/
inductive SettlesMembers (mode : Mode) (step : σ → String → Reader σ) :
    σ → List (String × Text) → Except Fault σ → Prop
  | nil (acc : σ) : SettlesMembers mode step acc [] (.ok acc)
  | fail {acc : σ} {name : String} {t : Text} {ms : List (String × Text)} {fault : Fault}
    (hstep : Settles (step acc (mode.name name)) (Byte.colon :: t) (.error fault)) :
    SettlesMembers mode step acc ((name, t) :: ms) (.error fault)
  | cons {acc acc' : σ} {name : String} {t : Text} {ms : List (String × Text)} {o : Except Fault σ}
    (hstep : Reads (step acc (mode.name name)) (Byte.colon :: t) acc')
    (hrest : SettlesMembers mode step acc' ms o) : SettlesMembers mode step acc ((name, t) :: ms) o

/-- The members that are left of an object are read to their end or up to the first fault. -/
theorem SettlesMembers.members {mode : Mode} {step : σ → String → Reader σ} {acc : σ}
    {ms : List (String × Text)} {o : Except Fault σ} (h : SettlesMembers mode step acc ms o)
    (first : Bool) (rest : Text) {fuel : Nat} (hfuel : ms.length < fuel) :
    members mode step fuel first acc (itemsText first (ms.map memberOf) ++ Byte.closeBrace :: rest) =
      o.map fun acc' => (acc', rest) := by
  induction h generalizing fuel first with
  | nil acc =>
    obtain ⟨fuel, rfl⟩ := Nat.exists_eq_add_of_lt hfuel
    simp only [Json.members, List.map_nil, another_itemsText_nil (.inr rfl), bind, Except.bind]
    rfl
  | @fail acc name t ms fault hstep =>
    obtain ⟨fuel, rfl⟩ := Nat.exists_eq_add_of_lt hfuel
    have hends := hstep _ (ends_commaEach (.inr rfl) (ms.map memberOf) rest)
    simp only [Json.members, List.map_cons,
      another_itemsText_cons (.inr rfl) (beginsWith_memberOf (name, t)), key_memberOf, bind,
      Except.bind, if_true]
    rw [show itemsText false (ms.map memberOf) = commaEach (ms.map memberOf) from rfl, hends]
    rfl
  | @cons acc acc' name t ms o hstep hms ih =>
    obtain ⟨fuel, rfl⟩ := Nat.exists_eq_add_of_lt hfuel
    have hends := hstep _ (ends_commaEach (.inr rfl) (ms.map memberOf) rest)
    have hrest := @ih false (List.length ((name, t) :: ms) + fuel) (by simp; omega)
    simp only [Json.members, List.map_cons,
      another_itemsText_cons (.inr rfl) (beginsWith_memberOf (name, t)), key_memberOf, bind,
      Except.bind, if_true]
    rw [show itemsText false (ms.map memberOf) = commaEach (ms.map memberOf) from rfl] at hrest ⊢
    rw [hends]
    exact hrest

/-- The members of an object are read to their end or up to the first fault. -/
theorem SettlesMembers.separated {mode : Mode} {step : σ → String → Reader σ} {acc : σ}
    {ms : List (String × Text)} {o : Except Fault σ} (h : SettlesMembers mode step acc ms o)
    (rest : Text) :
    Json.members mode step
        ((Json.separated (ms.map memberOf) ++ Byte.closeBrace :: rest).length + 1) true acc
        (Json.separated (ms.map memberOf) ++ Byte.closeBrace :: rest) =
      o.map fun acc' => (acc', rest) := by
  have hlength := length_lt_itemsText (ms.map memberOf) Byte.closeBrace rest
  rw [List.length_map] at hlength
  exact h.members true rest hlength

/-- Members that are read one behind the other, each on what has been read of those before it. -/
inductive ReadsMembers (step : σ → String → Reader σ) : σ → List (String × Text) → σ → Prop
  | nil (acc : σ) : ReadsMembers step acc [] acc
  | cons {acc acc' acc'' : σ} {name : String} {t : Text} {ms : List (String × Text)}
    (hstep : Reads (step acc name) (Byte.colon :: t) acc')
    (hrest : ReadsMembers step acc' ms acc'') : ReadsMembers step acc ((name, t) :: ms) acc''

theorem ReadsMembers.settles {step : σ → String → Reader σ} {acc acc' : σ}
    {ms : List (String × Text)} (h : ReadsMembers step acc ms acc') :
    SettlesMembers .keep step acc ms (.ok acc') := by
  induction h with
  | nil acc => exact .nil acc
  | cons hstep _ ih => exact .cons hstep ih

/-! ## Values -/

/-- The value nests at most so many arrays and objects. -/
def NestsAtMost : (levels : Nat) → Json → Prop
  | levels + 1, .array items => ∀ v ∈ items, v.NestsAtMost levels
  | levels + 1, .object ms => ∀ m ∈ ms, m.2.NestsAtMost levels
  | 0, .array _ => False
  | 0, .object _ => False
  | _, _ => True

/-- The members of every object in the value are in order, as reading builds them. -/
inductive WellFormed : Json → Prop
  | null : WellFormed .null
  | bool (b : Bool) : WellFormed (.bool b)
  | number (n : Number) : WellFormed (.number n)
  | string (x : String) : WellFormed (.string x)
  | array {items : List Json} (hitems : ∀ v ∈ items, WellFormed v) : WellFormed (.array items)
  | object {ms : Members} (hordered : Dictionary.Ordered ms) (hms : ∀ m ∈ ms, WellFormed m.2) :
    WellFormed (.object ms)

/-- Every number in the value is an integer. -/
inductive OnlyIntegers : Json → Prop
  | null : OnlyIntegers .null
  | bool (b : Bool) : OnlyIntegers (.bool b)
  | number {n : Number} (hn : n.toInt?.isSome) : OnlyIntegers (.number n)
  | string (x : String) : OnlyIntegers (.string x)
  | array {items : List Json} (hitems : ∀ v ∈ items, OnlyIntegers v) : OnlyIntegers (.array items)
  | object {ms : Members} (hms : ∀ m ∈ ms, OnlyIntegers m.2) : OnlyIntegers (.object ms)

/-- A value that a reader of so many levels reads back from its text. -/
structure Legible (levels : Nat) (v : Json) : Prop where
  nests : v.NestsAtMost levels
  wellFormed : v.WellFormed
  integers : v.OnlyIntegers

/-- The number of a value without doubles is an integer. -/
theorem OnlyIntegers.isSome {v : Json} (h : v.OnlyIntegers) (n : Number) (hv : v = .number n) :
    n.toInt?.isSome := by
  subst hv
  cases h with
  | number hn => exact hn

theorem Legible.of_mem_array {levels : Nat} {items : List Json}
    (h : Legible (levels + 1) (.array items)) {v : Json} (hv : v ∈ items) : Legible levels v := by
  obtain ⟨hnests, hformed, hintegers⟩ := h
  cases hformed with
  | array hformed =>
    cases hintegers with
    | array hintegers => exact ⟨hnests v hv, hformed v hv, hintegers v hv⟩

theorem Legible.of_mem_object {levels : Nat} {ms : Members}
    (h : Legible (levels + 1) (.object ms)) {m : String × Json} (hm : m ∈ ms) :
    Legible levels m.2 := by
  obtain ⟨hnests, hformed, hintegers⟩ := h
  cases hformed with
  | object hordered hformed =>
    cases hintegers with
    | object hintegers => exact ⟨hnests m hm, hformed m hm, hintegers m hm⟩

/-- The members of a legible object are in order. -/
theorem Legible.ordered {levels : Nat} {ms : Members} (h : Legible levels (.object ms)) :
    Dictionary.Ordered ms := by
  cases h.wellFormed with
  | object hordered _ => exact hordered

/-- A value begins with a byte that opens one. -/
theorem beginsWith_toText (v : Json) : BeginsWith opensValue v.toText := by
  by_cases hv : v.IsScalar
  · exact (beginsWith_scalar hv).mono opensValue_of_opensScalar
  · cases v with
    | array items => exact ⟨Byte.openBracket, _, rfl, by decide⟩
    | object ms => exact ⟨Byte.openBrace, _, rfl, by decide⟩
    | _ => exact absurd trivial hv

/-- The texts of elements are those of the values. -/
theorem itemTexts_eq_map (items : List Json) : itemTexts items = items.map toText := by
  induction items with
  | nil => rfl
  | cons v items ih => rw [itemTexts, ih, List.map_cons]

/-- The texts of members are those of their names and values. -/
theorem memberTexts_eq_map (ms : Members) :
    memberTexts ms = (ms.map fun m => (m.1, m.2.toText)).map memberOf := by
  induction ms with
  | nil => rfl
  | cons m ms ih =>
    rw [memberTexts, ih]
    rfl

/-- The value of a member settles behind its colon. -/
theorem Settles.memberValue {item : Reader α} {t : Text} {o : Except Fault α} (h : Settles item t o) :
    Settles (memberValue item) (Byte.colon :: t) o := by
  intro rest hrest
  have hcolon : colon (Byte.colon :: (t ++ rest)) = .ok (t ++ rest) := rfl
  rw [List.cons_append, Json.memberValue, hcolon]
  exact h rest hrest

/-- A member that is collected settles as its value does. -/
theorem Settles.addMember {item : Reader Json} {t : Text} {o : Except Fault Json}
    (h : Settles item t o) (name : String) (ms : Members) :
    Settles (addMember item ms name) (Byte.colon :: t) (o.map fun v => Dictionary.insert name v ms) := by
  intro rest hrest
  rw [Json.addMember, h.memberValue rest hrest]
  cases o <;> rfl

/-- A member is collected behind its name. -/
theorem reads_addMember {item : Reader Json} {t : Text} {v : Json} (h : Reads item t v) (name : String)
    (ms : Members) :
    Reads (addMember item ms name) (Byte.colon :: t) (Dictionary.insert name v ms) :=
  Settles.addMember (settles_ok_iff.mpr h) name ms

/-- Members that are read back one by one are collected in the dictionary. -/
theorem readsMembers_addMember {item : Reader Json} {ms : Members}
    (h : ∀ m ∈ ms, Reads item m.2.toText m.2) (acc : Members) :
    ReadsMembers (addMember item) acc (ms.map fun m => (m.1, m.2.toText))
      (ms.foldl (fun d m => Dictionary.insert m.1 m.2 d) acc) := by
  induction ms generalizing acc with
  | nil => exact .nil acc
  | cons m ms ih =>
    exact .cons (reads_addMember (h m List.mem_cons_self) m.1 acc)
      (ih (fun m' hm' => h m' (List.mem_cons_of_mem m hm')) _)

/-- An array settles as its elements do one level further in. -/
theorem settles_array {mode : Mode} {levels : Nat} {ts : List Text} {o : Except Fault (List Json)}
    (h : SettlesItems (value mode levels) ts o) :
    Settles (value mode (levels + 1)) (bracketed ts) (o.map .array) := by
  intro rest _
  rw [value, bracketed_append, dispatch_array]
  simp only [h.separated rest, bind, Except.bind]
  cases o <;> rfl

/-- An array is read whose elements are read one level further in. -/
theorem reads_array {levels : Nat} {ts : List Text} {vs : List Json}
    (h : ReadsItems (value .keep levels) ts vs) :
    Reads (value .keep (levels + 1)) (bracketed ts) (.array vs) :=
  settles_array h.settles

/-- An object settles as its members do that are collected one level further in. -/
theorem settles_object {mode : Mode} {levels : Nat} {ms : List (String × Text)}
    {o : Except Fault Members} (h : SettlesMembers mode (addMember (value mode levels)) [] ms o) :
    Settles (value mode (levels + 1)) (braced (ms.map memberOf)) (o.map .object) := by
  intro rest _
  rw [value, braced_append, dispatch_object]
  simp only [h.separated rest, bind, Except.bind]
  cases o <;> rfl

/-- An object is read whose members are collected one level further in. -/
theorem reads_object {levels : Nat} {ms : List (String × Text)} {collected : Members}
    (h : ReadsMembers (addMember (value .keep levels)) [] ms collected) :
    Reads (value .keep (levels + 1)) (braced (ms.map memberOf)) (.object collected) :=
  settles_object h.settles

/-- A scalar other than a double is read back at any level. -/
theorem reads_value_of_scalar (levels : Nat) {v : Json} (hv : v.IsScalar) (h : v.OnlyIntegers) :
    Reads (value .keep levels) v.toText v := by
  intro rest hrest
  have hscalar := reads_scalar hv h.isSome rest hrest
  cases levels with
  | zero => rw [value, dispatch_scalar (beginsWith_scalar hv), hscalar]
  | succ levels => rw [value, dispatch_scalar (beginsWith_scalar hv), hscalar]

/-- A legible value is read back from its text. -/
theorem reads_value {levels : Nat} {v : Json} (h : Legible levels v) :
    Reads (value .keep levels) v.toText v := by
  induction levels generalizing v with
  | zero =>
    cases v with
    | array items => exact h.nests.elim
    | object ms => exact h.nests.elim
    | _ => exact reads_value_of_scalar 0 (by trivial) h.integers
  | succ levels ih =>
    cases v with
    | array items =>
      have hitems : ReadsItems (value .keep levels) (items.map toText) (items.map id) :=
        readsItems_map fun v hv =>
          ⟨beginsWith_toText v, ih (h.of_mem_array hv)⟩
      rw [List.map_id] at hitems
      rw [toText, itemTexts_eq_map]
      exact reads_array hitems
    | object ms =>
      have hms := readsMembers_addMember (fun m hm => ih (h.of_mem_object hm)) []
      have hordered : ms.foldl (fun d m => Dictionary.insert m.1 m.2 d) [] = ms :=
        Dictionary.ofList_of_ordered h.ordered
      rw [hordered] at hms
      rw [toText, memberTexts_eq_map]
      exact reads_object hms
    | _ => exact reads_value_of_scalar (levels + 1) (by trivial) h.integers

/-- A text that is read back is read back where nothing else stands in it. -/
theorem complete_of_reads {item : Reader α} {t : Text} {a : α} (h : Reads item t a) :
    complete item t = .ok a := by
  have hall := h [] ends_nil
  rw [List.append_nil] at hall
  rw [complete, hall]
  rfl

/-- The text of a legible value denotes the value. -/
theorem ofText_toText {v : Json} (h : Legible maxDepth v) : ofText v.toText = .ok v :=
  complete_of_reads (reads_value h)

end Json

end OlmReceiver
