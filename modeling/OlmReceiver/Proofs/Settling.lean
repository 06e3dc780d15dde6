import OlmReceiver.Proofs.JsonText

/-!
# Every written value settles

Whatever a value is, a reader of raw JSON makes something of its text that does not depend on what
follows: a value, or a fault, as when it nests too deep for the reader or a double in it is rounded
beyond the range. A reader that passes over the value always gets behind it.
-/

namespace OlmReceiver.Json

open Token

variable {α β σ : Type} {mode : Mode}

/-- The text settles, and is read if the condition holds. -/
def Settled (good : Prop) (item : Reader α) (t : Text) : Prop :=
  ∃ o, Settles item t o ∧ (good → ∃ a, o = .ok a)

theorem Settled.of_reads {good : Prop} {item : Reader α} {t : Text} {a : α} (h : Reads item t a) :
    Settled good item t :=
  ⟨.ok a, h, fun _ => ⟨a, rfl⟩⟩

theorem Settled.mono {good good' : Prop} {item : Reader α} {t : Text} (h : Settled good item t)
    (hgood : good' → good) : Settled good' item t := by
  obtain ⟨o, ho, hok⟩ := h
  exact ⟨o, ho, fun h => hok (hgood h)⟩

theorem Settled.settles {good : Prop} {item : Reader α} {t : Text} (h : Settled good item t) :
    ∃ o, Settles item t o := by
  obtain ⟨o, ho, -⟩ := h
  exact ⟨o, ho⟩

/-! ## Scalars -/

/-- A number is read as one among the scalars, whether it is kept or not. -/
theorem settled_number (mode : Mode) (n : Number) :
    Settled (mode = .skip) (Token.number mode) n.toText := by
  obtain ⟨w, hw, -⟩ := n.exists_numeral
  have hliteral (rest : Text) (hrest : Ends rest) :
      Token.literal mode (n.toText ++ rest) = .ok (w.literal, rest) := by
    rw [hw]
    exact literal_numeral w hrest.noNumber
  cases mode with
  | skip =>
    refine .of_reads (a := .null) fun rest hrest => ?_
    simp only [Token.number, hliteral rest hrest, bind, Except.bind]
  | keep =>
    cases hvalue : w.literal.value? with
    | some n' =>
      refine .of_reads (a := .number n') fun rest hrest => ?_
      simp only [Token.number, hliteral rest hrest, bind, Except.bind, hvalue]
    | none =>
      refine ⟨.error .malformed, fun rest hrest => ?_, fun h => by cases h⟩
      simp only [Token.number, hliteral rest hrest, bind, Except.bind, hvalue]
      rfl

/-- A string is read in both modes. -/
theorem reads_quoted (mode : Mode) (x : String) :
    Reads (scalar mode) (quoted x) (.string (mode.name x)) := by
  intro rest _
  have hkeep := stringRest_quoted x rest
  have hrest : stringRest mode ((Text.ofString x).flatMap escapedByte ++ Byte.quote :: rest) =
      .ok (mode.name x, rest) := by
    cases mode with
    | keep => exact hkeep
    | skip => exact stringRest_skip hkeep
  rw [quoted_append, scalar, if_pos rfl, hrest]
  rfl

/-- A scalar settles. -/
theorem settled_scalar (mode : Mode) {v : Json} (hv : v.IsScalar) :
    Settled (mode = .skip) (scalar mode) v.toText := by
  cases v with
  | null => exact .of_reads (a := .null) fun _ _ => rfl
  | bool b =>
    refine .of_reads (a := .bool b) fun _ _ => ?_
    cases b <;> rfl
  | number n =>
    obtain ⟨o, ho, hok⟩ := settled_number mode n
    refine ⟨o, fun rest hrest => ?_, hok⟩
    rw [toText, scalar_of_opensNumber (beginsWith_number n), ho rest hrest]
  | string x => exact .of_reads (reads_quoted mode x)
  | array items => exact hv.elim
  | object ms => exact hv.elim

/-- What is dispatched as a scalar settles as one. -/
theorem Settles.dispatch {scalar array object : Reader α} {v : Json} (hv : v.IsScalar)
    {o : Except Fault α} (h : Settles scalar v.toText o) :
    Settles (dispatch scalar array object) v.toText o := by
  intro rest hrest
  rw [dispatch_scalar (beginsWith_scalar hv), h rest hrest]

/-! ## Loops -/

/-- Elements that settle one by one settle together. -/
theorem exists_settlesItems {good : Prop} {item : Reader α} {ts : List Text}
    (h : ∀ t ∈ ts, BeginsWith opensValue t ∧ Settled good item t) :
    ∃ o, SettlesItems item ts o ∧ (good → ∃ as, o = .ok as) := by
  induction ts with
  | nil => exact ⟨.ok [], .nil, fun _ => ⟨[], rfl⟩⟩
  | cons t ts ih =>
    obtain ⟨⟨hbegins, o, ho, hok⟩, hts⟩ := List.forall_mem_cons.mp h
    obtain ⟨o', ho', hok'⟩ := ih hts
    cases o with
    | error fault =>
      refine ⟨.error fault, .fail hbegins ho, fun hgood => ?_⟩
      obtain ⟨a, ha⟩ := hok hgood
      cases ha
    | ok a =>
      refine ⟨_, .cons hbegins ho ho', fun hgood => ?_⟩
      obtain ⟨as, rfl⟩ := hok' hgood
      exact ⟨a :: as, rfl⟩

/-- Members that settle one by one settle together. -/
theorem exists_settlesMembers {good : Prop} {step : σ → String → Reader σ}
    {ms : List (String × Text)}
    (h : ∀ m ∈ ms, ∀ acc, Settled good (step acc (mode.name m.1)) (Byte.colon :: m.2)) (acc : σ) :
    ∃ o, SettlesMembers mode step acc ms o ∧ (good → ∃ acc', o = .ok acc') := by
  induction ms generalizing acc with
  | nil => exact ⟨.ok acc, .nil acc, fun _ => ⟨acc, rfl⟩⟩
  | cons m ms ih =>
    obtain ⟨hm, hms⟩ := List.forall_mem_cons.mp h
    obtain ⟨o, ho, hok⟩ := hm acc
    cases o with
    | error fault =>
      refine ⟨.error fault, .fail ho, fun hgood => ?_⟩
      obtain ⟨acc', hacc'⟩ := hok hgood
      cases hacc'
    | ok acc' =>
      obtain ⟨o', ho', hok'⟩ := ih hms acc'
      exact ⟨o', .cons ho ho', hok'⟩

/-- What is dispatched as an array settles as the reader behind its bracket does. -/
theorem settles_bracketed {scalar array object : Reader α} {ts : List Text} {o : Except Fault α}
    (h : ∀ rest, array (separated ts ++ Byte.closeBracket :: rest) = o.map fun a => (a, rest)) :
    Settles (dispatch scalar array object) (bracketed ts) o := by
  intro rest _
  rw [bracketed_append, dispatch_array, h]

/-- What is dispatched as an object settles as the reader behind its brace does. -/
theorem settles_braced {scalar array object : Reader α} {ts : List Text} {o : Except Fault α}
    (h : ∀ rest, object (separated ts ++ Byte.closeBrace :: rest) = o.map fun a => (a, rest)) :
    Settles (dispatch scalar array object) (braced ts) o := by
  intro rest _
  rw [braced_append, dispatch_object, h]

/-- A member that is collected settles as its value does. -/
theorem Settled.addMember {good : Prop} {item : Reader Json} {t : Text} (h : Settled good item t)
    (ms : Members) (name : String) : Settled good (addMember item ms name) (Byte.colon :: t) := by
  obtain ⟨o, ho, hok⟩ := h
  refine ⟨_, ho.addMember name ms, fun hgood => ?_⟩
  obtain ⟨v, rfl⟩ := hok hgood
  exact ⟨_, rfl⟩

/-! ## Values -/

/-- No item is longer than all of them with commas between. -/
theorem length_le_separated {t : Text} {ts : List Text} (h : t ∈ ts) :
    t.length ≤ (separated ts).length := by
  have hcomma : ∀ ts : List Text, t ∈ ts → t.length ≤ (commaEach ts).length := fun ts hmem => by
    obtain ⟨earlier, later, rfl⟩ := List.append_of_mem hmem
    simp only [commaEach, List.flatMap_append, List.flatMap_cons, List.length_append,
      List.length_cons]
    omega
  cases ts with
  | nil => cases h
  | cons u ts =>
    rw [separated_cons, List.length_append]
    rcases List.mem_cons.mp h with rfl | hmem
    · omega
    · have := hcomma ts hmem
      omega

/-- A scalar settles at every depth. -/
theorem settled_value_of_scalar (mode : Mode) (depth : Nat) {v : Json} (hv : v.IsScalar) :
    Settled (mode = .skip) (value mode depth) v.toText := by
  obtain ⟨o, ho, hok⟩ := settled_scalar mode hv
  cases depth with
  | zero => exact ⟨o, ho.dispatch hv, hok⟩
  | succ depth => exact ⟨o, ho.dispatch hv, hok⟩

/-- An array settles if every value does one level further in. -/
theorem settled_value_array {depth : Nat}
    (h : ∀ v : Json, Settled (mode = .skip ∧ v.toText.length ≤ depth) (value mode depth) v.toText)
    (items : List Json) :
    Settled (mode = .skip ∧ (array items).toText.length ≤ depth + 1) (value mode (depth + 1))
      (array items).toText := by
  rw [toText, itemTexts_eq_map]
  have hitems : ∀ t ∈ items.map toText, BeginsWith opensValue t ∧
      Settled (mode = .skip ∧ (bracketed (items.map toText)).length ≤ depth + 1)
        (value mode depth) t := by
    intro t ht
    have hlength := length_le_separated ht
    obtain ⟨v, -, rfl⟩ := List.mem_map.mp ht
    refine ⟨beginsWith_toText v, (h v).mono fun hgood => ⟨hgood.1, ?_⟩⟩
    have hbound := hgood.2
    simp only [bracketed, List.length_append, List.length_cons] at hbound
    omega
  obtain ⟨o, ho, hok⟩ := exists_settlesItems hitems
  refine ⟨_, settles_array ho, fun hgood => ?_⟩
  obtain ⟨as, rfl⟩ := hok hgood
  exact ⟨_, rfl⟩

/-- An object settles if every value does one level further in. -/
theorem settled_value_object {depth : Nat}
    (h : ∀ v : Json, Settled (mode = .skip ∧ v.toText.length ≤ depth) (value mode depth) v.toText)
    (ms : Members) :
    Settled (mode = .skip ∧ (object ms).toText.length ≤ depth + 1) (value mode (depth + 1))
      (object ms).toText := by
  rw [toText, memberTexts_eq_map]
  generalize hnamed : (ms.map fun m => (m.1, m.2.toText)) = named
  have hmembers : ∀ m ∈ named, ∀ acc,
      Settled (mode = .skip ∧ (braced (named.map memberOf)).length ≤ depth + 1)
        (addMember (value mode depth) acc (mode.name m.1)) (Byte.colon :: m.2) := by
    intro m hm acc
    have hlength := length_le_separated (List.mem_map_of_mem (f := memberOf) hm)
    obtain ⟨m, -, rfl⟩ := List.mem_map.mp (hnamed ▸ hm)
    refine ((h m.2).mono fun hgood => ⟨hgood.1, ?_⟩).addMember acc _
    have hbound := hgood.2
    simp only [braced, memberOf, memberText, List.length_append, List.length_cons] at hbound hlength
    omega
  obtain ⟨o, ho, hok⟩ := exists_settlesMembers hmembers []
  refine ⟨_, settles_object ho, fun hgood => ?_⟩
  obtain ⟨collected, rfl⟩ := hok hgood
  exact ⟨_, rfl⟩

/-- Every value settles, and one that is passed over is read if its text is no longer than the reader
may go deep: every level takes a bracket of the text. -/
theorem settled_value (mode : Mode) (depth : Nat) (v : Json) :
    Settled (mode = .skip ∧ v.toText.length ≤ depth) (value mode depth) v.toText := by
  induction depth generalizing v with
  | zero =>
    cases v with
    | array items =>
      refine ⟨.error .malformed, settles_bracketed fun _ => rfl, fun h => ?_⟩
      simp [toText, bracketed] at h
    | object ms =>
      refine ⟨.error .malformed, settles_braced fun _ => rfl, fun h => ?_⟩
      simp [toText, braced] at h
    | _ => exact (settled_value_of_scalar mode 0 (by trivial)).mono And.left
  | succ depth ih =>
    cases v with
    | array items => exact settled_value_array ih items
    | object ms => exact settled_value_object ih ms
    | _ => exact (settled_value_of_scalar mode (depth + 1) (by trivial)).mono And.left

/-- Every value can be passed over. -/
theorem skip_toText (v : Json) {rest : Text} (hrest : Ends rest) :
    skip (v.toText ++ rest) = .ok rest := by
  obtain ⟨o, ho, hok⟩ := settled_value .skip (v.toText ++ rest).length v
  obtain ⟨w, rfl⟩ := hok ⟨rfl, by simp⟩
  rw [skip, ho rest hrest]
  rfl

end OlmReceiver.Json
