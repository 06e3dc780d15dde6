import OlmReceiver.Proofs.CutNumerals
import OlmReceiver.Proofs.Settling

/-!
# Texts that are cut off

A text that a reader reads is cut off anywhere: within an escape, a word or a number, between
members or deep inside a value. The reader then goes as far as the text does and reports that it
ends. It never reports another fault, and it never takes the beginning for the whole, but for
numbers, of which every beginning that ends with a digit is one.

This is said of values that are kept. A number that is passed over is malformed where it is cut off.
-/

namespace OlmReceiver.Json

open Token
open Text (Cut)

variable {α σ : Type}

/-- The text settles, and if the reader reads it, then where it is cut off the reader reports that
it ends, or takes all that is left for something else. -/
structure Severs (item : Reader α) (w : Text) : Prop where
  settles : ∃ o, Settles item w o
  cut : ∀ a, Reads item w a → ∀ t, Cut t w → item t = .error .truncated ∨ ∃ a', item t = .ok (a', [])

/-- A reader that gets behind a text reads it. -/
theorem Severs.reads {item : Reader α} {w rest r : Text} {a : α} (h : Severs item w)
    (hrest : Ends rest) (hrun : item (w ++ rest) = .ok (a, r)) : Reads item w a ∧ r = rest := by
  obtain ⟨o, ho⟩ := h.settles
  have heq := (ho rest hrest).symm.trans hrun
  cases o with
  | error fault => cases heq
  | ok a' =>
    cases heq
    exact ⟨ho, rfl⟩

theorem Severs.settled {item : Reader α} {w : Text} (h : Severs item w) : Settled False item w := by
  obtain ⟨o, ho⟩ := h.settles
  exact ⟨o, ho, False.elim⟩

/-- A text that is cut off is empty or begins as before. -/
theorem BeginsWith.cut {p : UInt8 → Bool} {t w : Text} (hw : BeginsWith p w) (h : Cut t w) :
    t = [] ∨ BeginsWith p t := by
  obtain ⟨b, r, rfl, hb⟩ := hw
  rcases h.cons with rfl | ⟨t, rfl, -⟩
  · exact .inl rfl
  · exact .inr ⟨b, t, rfl, hb⟩

/-- What stands behind a value can be cut off. -/
theorem Ends.cut {t rest : Text} (hrest : Ends rest) (h : Cut t rest) : Ends t := by
  rintro b r rfl
  obtain ⟨⟨u, hu⟩, -⟩ := h
  exact hrest b (r ++ u) hu.symm

/-! ## Strings -/

/-- Where an escape fails, the string does. -/
theorem stringBytes_of_escape_error {m : Mode} {s : Text} {fault : Fault}
    (h : escape m s = .error fault) : stringBytes m (Byte.backslash :: s) = .error fault := by
  rw [stringBytes]
  simp only [show Byte.backslash ≠ Byte.quote by decide, if_false, if_true]
  split
  · rename_i heq
    rw [h] at heq
    exact heq.symm ▸ rfl
  · rename_i heq
    rw [h] at heq
    cases heq

/-- A string that has not begun has no end. -/
theorem stringBytes_nil (m : Mode) : stringBytes m [] = .error .truncated := by
  rw [stringBytes]

/-- Four hexadecimal digits that are cut off are not there yet. -/
theorem hexUnit_cut {a b c d : UInt8} {t : Text} (h : Cut t [a, b, c, d]) :
    hexUnit t = .error .truncated := by
  have hlength := h.length_lt
  unfold hexUnit
  split
  · simp only [List.length_cons, List.length_nil] at hlength
    omega
  · rfl

/-- A string ends within an escape that is cut off. -/
theorem stringBytes_cut_escape {w t : Text} (hw : ∀ s, Cut s w → escape .keep s = .error .truncated)
    (h : Cut t (Byte.backslash :: w)) : stringBytes .keep t = .error .truncated := by
  rcases h.cons with rfl | ⟨s, rfl, hs⟩
  · exact stringBytes_nil .keep
  · exact stringBytes_of_escape_error (hw s hs)

/-- A string ends within a byte that is cut off. -/
theorem stringBytes_cut_byte {b : UInt8} {t : Text} (h : Cut t (escapedByte b)) :
    stringBytes .keep t = .error .truncated := by
  have hletter (c : UInt8) (s : Text) (hs : Cut s [c]) : escape .keep s = .error .truncated := by
    rw [hs.eq_nil]
    rfl
  unfold escapedByte at h
  split at h
  · exact stringBytes_cut_escape (hletter b) h
  split at h
  · exact stringBytes_cut_escape (hletter _) h
  split at h
  · exact stringBytes_cut_escape (hletter _) h
  split at h
  · exact stringBytes_cut_escape (hletter _) h
  split at h
  · exact stringBytes_cut_escape (hletter _) h
  split at h
  · exact stringBytes_cut_escape (hletter _) h
  split at h
  · refine stringBytes_cut_escape (fun s hs => ?_) h
    rcases hs.cons with rfl | ⟨s, rfl, hdigits⟩
    · rfl
    · rw [escape, if_pos rfl, unicodeEscape, hexUnit_cut hdigits]
      rfl
  · rw [h.eq_nil, stringBytes_nil]

/-- A string that is cut off has no end. -/
theorem stringBytes_cut {x t : Text} (h : Cut t (x.flatMap escapedByte ++ [Byte.quote])) :
    stringBytes .keep t = .error .truncated := by
  induction x generalizing t with
  | nil => rw [Text.Cut.eq_nil h, stringBytes_nil]
  | cons b x ih =>
    rw [List.flatMap_cons, List.append_assoc] at h
    rcases h.append with hbyte | ⟨s, rfl, hs⟩
    · exact stringBytes_cut_byte hbyte
    · rw [stringBytes_escapedByte, ih hs]
      rfl

/-- Behind its opening quote, a string that is cut off has no end. -/
theorem stringRest_cut {x : String} {t : Text}
    (h : Cut t ((Text.ofString x).flatMap escapedByte ++ [Byte.quote])) :
    stringRest .keep t = .error .truncated := by
  rw [stringRest, stringBytes_cut h]
  rfl

/-- The name of a member that is cut off has no end. -/
theorem key_cut {x : String} {t : Text} (h : Cut t (quoted x)) : key .keep t = .error .truncated := by
  rcases h.cons with rfl | ⟨s, rfl, hs⟩
  · rfl
  · rw [key, if_pos rfl, stringRest_cut hs]

/-! ## Scalars -/

/-- Of a word that is cut off some bytes are missing. -/
theorem expect_cut {w t : Text} (h : Cut t w) : expect w t = .error .truncated := by
  induction w generalizing t with
  | nil => exact absurd h (Text.not_cut_nil t)
  | cons b w ih =>
    rcases h.cons with rfl | ⟨s, rfl, hs⟩
    · rfl
    · rw [expect, if_pos rfl, ih hs]

/-- A number that is cut off is one with fewer digits, or none yet. -/
theorem number_cut {n : Number} {a : Json} (hread : Reads (Token.number .keep) n.toText a) {t : Text}
    (h : Cut t n.toText) :
    Token.number .keep t = .error .truncated ∨
      ∃ n', Token.number .keep t = .ok (.number n', []) := by
  obtain ⟨w, hw, hsmall⟩ := n.exists_numeral
  have hnone : NoNumber [] := by simp [NoNumber]
  have hliteral (w : Numeral) : Token.literal .keep w.toText = .ok (w.literal, []) := by
    have hall := literal_numeral (m := .keep) w hnone
    rwa [List.append_nil] at hall
  rw [hw] at h
  rcases w.literal_cut h with hshort | ⟨w', rfl, hfrom⟩
  · left
    rw [Token.number, hshort]
    rfl
  · right
    have hvalue : w.literal.value?.isSome = true := by
      have hall := hread [] ends_nil
      rw [List.append_nil, hw, Token.number, hliteral] at hall
      cases hvalue : w.literal.value? with
      | some n' => rfl
      | none => simp [bind, Except.bind, hvalue] at hall
    obtain ⟨n', hn'⟩ :=
      Option.isSome_iff_exists.mp (Numeral.isSome_value?_of_cutFrom hfrom hsmall hvalue)
    refine ⟨n', ?_⟩
    simp only [Token.number, hliteral, bind, Except.bind, hn']

/-- A word that is cut off ends too early. -/
theorem scalar_cut_word {b : UInt8} {w : Text} {v : Json}
    (hword : ∀ s, scalar .keep (b :: s) = (expect (b :: w) (b :: s)).map fun r => (v, r)) {t : Text}
    (h : Cut t (b :: w)) : scalar .keep t = .error .truncated := by
  rcases h.cons with rfl | ⟨s, rfl, -⟩
  · rfl
  · rw [hword, expect_cut h]
    rfl

/-- A scalar that is cut off ends too early, or is a number. -/
theorem scalar_cut {v : Json} (hv : v.IsScalar) {a : Json} (hread : Reads (scalar .keep) v.toText a)
    {t : Text} (h : Cut t v.toText) :
    scalar .keep t = .error .truncated ∨
      ∃ n n', v = .number n ∧ scalar .keep t = .ok (.number n', []) := by
  cases v with
  | null => exact .inl (scalar_cut_word (v := .null) (fun _ => rfl) h)
  | bool b =>
    left
    cases b with
    | true => exact scalar_cut_word (v := .bool true) (fun _ => rfl) h
    | false => exact scalar_cut_word (v := .bool false) (fun _ => rfl) h
  | number n =>
    have hnumber : Reads (Token.number .keep) n.toText a := fun rest hrest => by
      rw [← scalar_of_opensNumber (beginsWith_number n)]
      exact hread rest hrest
    rcases (beginsWith_number n).cut h with rfl | hbegins
    · exact .inl rfl
    · have hscalar := scalar_of_opensNumber (m := .keep) hbegins []
      rw [List.append_nil] at hscalar
      rw [hscalar]
      exact (number_cut hnumber h).imp_right fun ⟨n', hn'⟩ => ⟨n, n', rfl, hn'⟩
  | string x =>
    rcases h.cons with rfl | ⟨t, rfl, hrest⟩
    · exact .inl rfl
    · left
      rw [scalar, if_pos rfl, stringRest_cut hrest]
      rfl
  | array items => exact hv.elim
  | object ms => exact hv.elim

/-- A scalar is truncated where it is cut off, or a shorter number. -/
theorem severs_scalar {v : Json} (hv : v.IsScalar) : Severs (scalar .keep) v.toText where
  settles := (settled_scalar .keep hv).settles
  cut _ hread _ h := (scalar_cut hv hread h).imp_right fun ⟨_, n', _, hn'⟩ => ⟨.number n', hn'⟩

/-! ## Loops -/

/-- An item that is cut off is announced, or the text ends before it is. -/
theorem another_cut {close : UInt8} (hclose : close = Byte.closeBracket ∨ close = Byte.closeBrace)
    {t : Text} (ht : BeginsWith opensValue t) {first : Bool} {ts : List Text} {s : Text}
    (hs : Cut s (itemsText first (t :: ts) ++ [close])) :
    another close first s = .error .truncated ∨
      ∃ s', another close first s = .ok (true, s') ∧
        Cut s' (t ++ (itemsText false ts ++ [close])) := by
  have hbegins : BeginsWith opensValue (t ++ (itemsText false ts ++ [close])) := by
    obtain ⟨b, r, rfl, hb⟩ := ht
    exact ⟨b, _, rfl, hb⟩
  cases first with
  | true =>
    have htext : itemsText true (t :: ts) = t ++ itemsText false ts := separated_cons t ts
    rw [htext, List.append_assoc] at hs
    rcases hbegins.cut hs with rfl | hbegins
    · exact .inl rfl
    · have hfirst := another_first hclose hbegins []
      rw [List.append_nil] at hfirst
      exact .inr ⟨s, hfirst, hs⟩
  | false =>
    have htext : itemsText false (t :: ts) = Byte.comma :: (t ++ itemsText false ts) := rfl
    rw [htext, List.cons_append, List.append_assoc] at hs
    rcases hs.cons with rfl | ⟨s', rfl, hs'⟩
    · exact .inl rfl
    rcases hbegins.cut hs' with rfl | hbegins
    · left
      obtain rfl | rfl := hclose
      all_goals rfl
    · have hcomma := another_comma hclose hbegins []
      rw [List.append_nil] at hcomma
      exact .inr ⟨s', hcomma, hs'⟩

/-- Elements of an array that ends nowhere are not read to an end. -/
theorem elements_nil (item : Reader α) (fuel : Nat) (first : Bool) :
    elements item fuel first [] = .error .truncated := by
  cases fuel <;> rfl

/-- Members of an object that ends nowhere are not read to an end. -/
theorem members_nil (mode : Mode) (step : σ → String → Reader σ) (fuel : Nat) (first : Bool)
    (acc : σ) : members mode step fuel first acc [] = .error .truncated := by
  cases fuel <;> rfl

/-- The elements of an array that is cut off are not read to an end. -/
theorem elements_cut {item : Reader α} {ts : List Text}
    (hts : ∀ t ∈ ts, BeginsWith opensValue t ∧ Severs item t) {first : Bool} {fuel : Nat}
    {p : List α × Text}
    (hrun : elements item fuel first (itemsText first ts ++ [Byte.closeBracket]) = .ok p) {s : Text}
    (hs : Cut s (itemsText first ts ++ [Byte.closeBracket])) (fuel' : Nat) :
    elements item fuel' first s = .error .truncated := by
  induction ts generalizing first fuel p s fuel' with
  | nil =>
    have htext : itemsText first [] = [] := by
      cases first <;> rfl
    rw [htext] at hs
    rw [Text.Cut.eq_nil hs, elements_nil]
  | cons t ts ih =>
    obtain ⟨⟨hbegins, hitem⟩, hrest⟩ := List.forall_mem_cons.mp hts
    cases fuel with
    | zero => cases hrun
    | succ fuel =>
      rw [elements, another_itemsText_cons (.inl rfl) hbegins] at hrun
      obtain ⟨_, ⟨⟩, hrun⟩ := bind_eq_ok_iff.mp hrun
      obtain ⟨⟨a, r⟩, hread, hrun⟩ := bind_eq_ok_iff.mp hrun
      obtain ⟨q, hothers, -⟩ := bind_eq_ok_iff.mp hrun
      have hends : Ends (itemsText false ts ++ [Byte.closeBracket]) := ends_commaEach (.inl rfl) ts []
      obtain ⟨hreads, rfl⟩ := hitem.reads hends hread
      cases fuel' with
      | zero => rfl
      | succ fuel' =>
        rcases another_cut (.inl rfl) hbegins hs with hshort | ⟨s', hmore, hs'⟩
        · simp only [elements, hshort, bind, Except.bind]
        · simp only [elements, hmore, bind, Except.bind, if_true]
          rcases hs'.append with hcut | ⟨s'', rfl, hcut⟩
          · rcases hitem.cut a hreads s' hcut with hshort | ⟨a', ha'⟩
            · rw [hshort]
            · rw [ha']
              simp only [elements_nil]
          · rw [hreads s'' (hends.cut hcut)]
            simp only [ih hrest hothers hcut]

/-- Reads the name of a member, and what stands behind it. -/
def namedMember (step : String → Reader σ) : Reader σ := fun s =>
  (key .keep s).bind fun p => step p.1 p.2

/-- A member is cut off within its name, or as what stands behind it. -/
theorem Severs.namedMember {step : String → Reader σ} {m : String × Text}
    (h : Severs (step m.1) (Byte.colon :: m.2)) : Severs (namedMember step) (memberOf m) where
  settles := by
    obtain ⟨o, ho⟩ := h.settles
    refine ⟨o, fun rest hrest => ?_⟩
    rw [Json.namedMember, key_memberOf]
    exact ho rest hrest
  cut acc hread t ht := by
    have hreads : Reads (step m.1) (Byte.colon :: m.2) acc := fun rest hrest => by
      have hall := hread rest hrest
      rwa [Json.namedMember, key_memberOf] at hall
    rcases ht.append with hname | ⟨s, rfl, hs⟩
    · left
      rw [Json.namedMember, key_cut hname]
      rfl
    · rw [Json.namedMember, key_quoted]
      exact h.cut acc hreads s hs

/-- A further round of the loop reads a member with its name. -/
theorem members_round (step : σ → String → Reader σ) {first : Bool} {s s' : Text}
    (hmore : another Byte.closeBrace first s = .ok (true, s')) (fuel : Nat) (acc : σ) :
    members .keep step (fuel + 1) first acc s =
      (namedMember (step acc) s').bind fun p => members .keep step fuel false p.1 p.2 := by
  simp only [members, hmore, bind, Except.bind, if_true, namedMember]
  cases key .keep s' <;> rfl

/-- The members of an object that is cut off are not read to an end. -/
theorem members_cut {step : σ → String → Reader σ} {ms : List (String × Text)}
    (hms : ∀ m ∈ ms, ∀ acc, Severs (step acc m.1) (Byte.colon :: m.2)) {first : Bool} {acc : σ}
    {fuel : Nat} {p : σ × Text}
    (hrun : members .keep step fuel first acc
      (itemsText first (ms.map memberOf) ++ [Byte.closeBrace]) = .ok p) {s : Text}
    (hs : Cut s (itemsText first (ms.map memberOf) ++ [Byte.closeBrace])) (fuel' : Nat) :
    members .keep step fuel' first acc s = .error .truncated := by
  induction ms generalizing first acc fuel p s fuel' with
  | nil =>
    have htext : itemsText first [] = [] := by
      cases first <;> rfl
    rw [List.map_nil, htext] at hs
    rw [Text.Cut.eq_nil hs, members_nil]
  | cons m ms ih =>
    obtain ⟨hm, hrest⟩ := List.forall_mem_cons.mp hms
    cases fuel with
    | zero => cases hrun
    | succ fuel =>
      rw [List.map_cons, members_round step
        (another_itemsText_cons (.inr rfl) (beginsWith_memberOf m) _ _ _)] at hrun
      obtain ⟨⟨acc', r⟩, hread, hothers⟩ := bind_eq_ok_iff.mp hrun
      have hends : Ends (itemsText false (ms.map memberOf) ++ [Byte.closeBrace]) :=
        ends_commaEach (.inr rfl) _ []
      obtain ⟨hreads, rfl⟩ := (hm acc).namedMember.reads hends hread
      cases fuel' with
      | zero => rfl
      | succ fuel' =>
        rcases another_cut (.inr rfl) (beginsWith_memberOf m) hs with hshort | ⟨s', hmore, hs'⟩
        · simp only [members, hshort, bind, Except.bind]
        · rw [members_round step hmore]
          rcases hs'.append with hcut | ⟨s'', rfl, hcut⟩
          · rcases (hm acc).namedMember.cut acc' hreads s' hcut with hshort | ⟨acc'', hacc⟩
            · rw [hshort]
              rfl
            · rw [hacc]
              exact members_nil ..
          · rw [hreads s'' (hends.cut hcut)]
            exact ih hrest hothers hcut fuel'

/-! ## Parts of readers -/

/-- What is made of a text that is read does not change where it is cut off. -/
theorem Severs.map {β : Type} {item : Reader α} {w : Text} (h : Severs item w) (f : α → β) :
    Severs (fun s => (item s).bind fun p => .ok (f p.1, p.2)) w where
  settles := by
    obtain ⟨o, ho⟩ := h.settles
    exact ⟨_, ho.andThen _ (fun a => .ok (f a)) fun _ _ => rfl⟩
  cut b hread t ht := by
    have hall := hread [] ends_nil
    obtain ⟨⟨a, r⟩, hitem, -⟩ := bind_eq_ok_iff.mp hall
    rcases h.cut a (h.reads ends_nil hitem).1 t ht with hshort | ⟨a', ha'⟩
    · exact .inl (by rw [hshort]; rfl)
    · exact .inr ⟨f a', by rw [ha']; rfl⟩

/-- The value of a member is cut off behind its colon, or the colon is missing. -/
theorem Severs.memberValue {item : Reader α} {w : Text} (h : Severs item w) :
    Severs (memberValue item) (Byte.colon :: w) where
  settles := by
    obtain ⟨o, ho⟩ := h.settles
    exact ⟨o, ho.memberValue⟩
  cut a hread t ht := by
    rcases ht.cons with rfl | ⟨s, rfl, hs⟩
    · exact .inl rfl
    · exact h.cut a (fun rest hrest => hread rest hrest) s hs

/-- A member that is collected is cut off as its value is. -/
theorem Severs.addMember {item : Reader Json} {w : Text} (h : Severs item w) (ms : Members)
    (name : String) : Severs (addMember item ms name) (Byte.colon :: w) :=
  h.memberValue.map fun v => Dictionary.insert name v ms

/-- What is dispatched as an array is cut off as the text behind its bracket is. -/
theorem dispatch_bracketed_cut {scalar array object : Reader α} {ts : List Text}
    (harray : ∀ s, Cut s (itemsText true ts ++ [Byte.closeBracket]) → array s = .error .truncated)
    {t : Text} (h : Cut t (bracketed ts)) : dispatch scalar array object t = .error .truncated := by
  rcases h.cons with rfl | ⟨s, rfl, hs⟩
  · rfl
  · rw [dispatch_array, harray s hs]

/-- What is dispatched as an object is cut off as the text behind its brace is. -/
theorem dispatch_braced_cut {scalar array object : Reader α} {ts : List Text}
    (hobject : ∀ s, Cut s (itemsText true ts ++ [Byte.closeBrace]) → object s = .error .truncated)
    {t : Text} (h : Cut t (braced ts)) : dispatch scalar array object t = .error .truncated := by
  rcases h.cons with rfl | ⟨s, rfl, hs⟩
  · rfl
  · rw [dispatch_object, hobject s hs]

/-- What is dispatched as a scalar is cut off as one. -/
theorem dispatch_scalar_cut {scalar array object : Reader α} {v : Json} (hv : v.IsScalar) {t : Text}
    (h : Cut t v.toText) : dispatch scalar array object t = .error .truncated ∨
      dispatch scalar array object t = scalar t := by
  rcases (beginsWith_scalar hv).cut h with rfl | hbegins
  · exact .inl rfl
  · have hscalar : dispatch scalar array object (t ++ []) = scalar (t ++ []) :=
      dispatch_scalar hbegins []
    rw [List.append_nil] at hscalar
    exact .inr hscalar

/-! ## Values -/

/-- A scalar that is cut off is truncated at every depth, or is a number. -/
theorem value_cut_scalar {levels : Nat} {v : Json} (hv : v.IsScalar) {a : Json}
    (hread : Reads (value .keep levels) v.toText a) {t : Text} (h : Cut t v.toText) :
    value .keep levels t = .error .truncated ∨
      ∃ n n', v = .number n ∧ value .keep levels t = .ok (.number n', []) := by
  have hdispatch {array object : Reader Json}
      (hread : Reads (dispatch (scalar .keep) array object) v.toText a) :
      dispatch (scalar .keep) array object t = .error .truncated ∨
        ∃ n n', v = .number n ∧
          dispatch (scalar .keep) array object t = .ok (.number n', []) := by
    have hcases : dispatch (scalar .keep) array object t = .error .truncated ∨
        dispatch (scalar .keep) array object t = scalar .keep t := dispatch_scalar_cut hv h
    rcases hcases with hshort | hscalar
    · exact .inl hshort
    · rw [hscalar]
      refine scalar_cut (a := a) hv (fun rest hrest => ?_) h
      rw [← hread rest hrest, dispatch_scalar (beginsWith_scalar hv)]
  cases levels with
  | zero => exact hdispatch hread
  | succ levels => exact hdispatch hread

/-- A value whose text is truncated where it is cut off, unless it is a number, is severed. -/
theorem severs_of_value_cut {levels : Nat} {v : Json}
    (h : ∀ a, Reads (value .keep levels) v.toText a → ∀ t, Cut t v.toText →
      value .keep levels t = .error .truncated ∨
        ∃ n n', v = .number n ∧ value .keep levels t = .ok (.number n', [])) :
    Severs (value .keep levels) v.toText where
  settles := (settled_value .keep levels v).settles
  cut a hread t ht := (h a hread t ht).imp_right fun ⟨_, n', _, hn'⟩ => ⟨.number n', hn'⟩

/-- An array is truncated where it is cut off, if its elements are severed one level further in. -/
theorem value_cut_array {levels : Nat} (hsevers : ∀ v : Json, Severs (value .keep levels) v.toText)
    {items : List Json} {a : Json}
    (hread : Reads (value .keep (levels + 1)) (Json.array items).toText a) {t : Text}
    (h : Cut t (Json.array items).toText) : value .keep (levels + 1) t = .error .truncated := by
  have hitems : ∀ t ∈ items.map toText, BeginsWith opensValue t ∧ Severs (value .keep levels) t := by
    intro t ht
    obtain ⟨v, -, rfl⟩ := List.mem_map.mp ht
    exact ⟨beginsWith_toText v, hsevers v⟩
  rw [toText, itemTexts_eq_map] at hread h
  have hall := hread [] ends_nil
  rw [bracketed_append, value, dispatch_array] at hall
  obtain ⟨p, hrun, -⟩ := bind_eq_ok_iff.mp hall
  rw [value]
  refine dispatch_bracketed_cut (fun s hs => ?_) h
  simp only [elements_cut hitems hrun hs, bind, Except.bind]

/-- An object is truncated where it is cut off, if its members are severed one level further in. -/
theorem value_cut_object {levels : Nat} (hsevers : ∀ v : Json, Severs (value .keep levels) v.toText)
    {ms : Members} {a : Json} (hread : Reads (value .keep (levels + 1)) (Json.object ms).toText a)
    {t : Text} (h : Cut t (Json.object ms).toText) :
    value .keep (levels + 1) t = .error .truncated := by
  have hms : ∀ m ∈ ms.map fun m => (m.1, m.2.toText), ∀ acc,
      Severs (Json.addMember (value .keep levels) acc m.1) (Byte.colon :: m.2) := by
    intro m hm acc
    obtain ⟨m, -, rfl⟩ := List.mem_map.mp hm
    exact (hsevers m.2).addMember acc m.1
  rw [toText, memberTexts_eq_map] at hread h
  have hall := hread [] ends_nil
  rw [braced_append, value, dispatch_object] at hall
  obtain ⟨p, hrun, -⟩ := bind_eq_ok_iff.mp hall
  rw [value]
  refine dispatch_braced_cut (fun s hs => ?_) h
  simp only [members_cut hms hrun hs, bind, Except.bind]

/-- A value that is cut off is truncated, or is a number. -/
theorem value_cut {levels : Nat} {v a : Json} (hread : Reads (value .keep levels) v.toText a)
    {t : Text} (h : Cut t v.toText) :
    value .keep levels t = .error .truncated ∨
      ∃ n n', v = .number n ∧ value .keep levels t = .ok (.number n', []) := by
  induction levels generalizing v a t with
  | zero =>
    cases v with
    | array items => cases hread [] ends_nil
    | object ms => cases hread [] ends_nil
    | _ => exact value_cut_scalar (by trivial) hread h
  | succ levels ih =>
    have hsevers (v : Json) : Severs (value .keep levels) v.toText :=
      severs_of_value_cut fun _ hread _ h => ih hread h
    cases v with
    | array items => exact .inl (value_cut_array hsevers hread h)
    | object ms => exact .inl (value_cut_object hsevers hread h)
    | _ => exact value_cut_scalar (by trivial) hread h

/-- A value is truncated where it is cut off, or a shorter number. -/
theorem severs_value (levels : Nat) (v : Json) : Severs (value .keep levels) v.toText :=
  severs_of_value_cut fun _ hread _ h => value_cut hread h

end OlmReceiver.Json
